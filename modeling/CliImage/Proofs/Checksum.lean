import CliImage.Checksum
import CliImage.Proofs.Edit
import Mathlib.Tactic.SplitIfs

/-! The checksum against its definition, the end-around-carry sum of the words with the length added.
The length is folded into 16 bits too, so that only small sums keep their value. A checksum that is
stored in its field is that of the bytes it stands in. -/

namespace CliImage.Checksum

/-- The sum of two 16-bit words, a carry added back at the low end. -/
def addCarry (a b : Nat) : Nat := if a + b ≤ 0xFFFF then a + b else a + b - 0xFFFF

/-- The words from a place on, without the two of the field; a last odd byte is a word of its own. -/
def wordsFrom (data : Bytes) (field k : Nat) : List Nat :=
  ((List.range' k ((data.size + 1) / 2 - k)).filter fun i => 2 * i ≠ field ∧ 2 * i ≠ field + 2).map
    fun i => data.natAt (2 * i) 2

def wordSum (data : Bytes) (field : Nat) : Nat := (wordsFrom data field 0).foldl addCarry 0

variable {data : Bytes} {field : Nat}

lemma addCarry_le {a b : Nat} (ha : a ≤ 0xFFFF) (hb : b ≤ 0xFFFF) : addCarry a b ≤ 0xFFFF := by
  unfold addCarry
  split_ifs <;> omega

/-- Folding once is enough where one word has been added. -/
lemma fold_add {a b : Nat} (ha : a ≤ 0xFFFF) (hb : b ≤ 0xFFFF) : fold (a + b) = addCarry a b := by
  unfold fold addCarry
  split_ifs <;> omega

lemma natAt_two_le (data : Bytes) (offset : Nat) : data.natAt offset 2 ≤ 0xFFFF := by
  have := Bytes.natAt_lt data offset 2
  omega

lemma wordSum_le (data : Bytes) (field : Nat) : wordSum data field ≤ 0xFFFF := by
  have hfold : ∀ words : List Nat, (∀ w ∈ words, w ≤ 0xFFFF) → ∀ sum ≤ 0xFFFF,
      words.foldl addCarry sum ≤ 0xFFFF := by
    intro words
    induction words with
    | nil => exact fun _ _ hsum => hsum
    | cons w words ih =>
      intro hwords sum hsum
      exact ih (fun v hv => hwords v (List.mem_cons_of_mem _ hv)) _
        (addCarry_le hsum (hwords w (List.mem_cons_self ..)))
  refine hfold _ (fun w hw => ?_) 0 (by omega)
  obtain ⟨i, -, rfl⟩ := List.mem_map.mp hw
  exact natAt_two_le ..

/-- The loop over the bytes adds the words one by one. -/
lemma sumFrom_eq (heven : field % 2 = 0) {k sum : Nat} (hsum : sum ≤ 0xFFFF) :
    sumFrom data field (2 * k) sum = (wordsFrom data field k).foldl addCarry sum := by
  induction hleft : (data.size + 1) / 2 - k generalizing k sum with
  | zero =>
    rw [sumFrom, if_neg (by omega), wordsFrom, hleft]
    rfl
  | succ left ih =>
    have hrest : (data.size + 1) / 2 - (k + 1) = left := by omega
    have hfield : (field ≤ 2 * k ∧ 2 * k < field + 4) ↔ ¬ (2 * k ≠ field ∧ 2 * k ≠ field + 2) := by
      omega
    rw [sumFrom, if_pos (by omega), wordsFrom, hleft, List.range'_succ,
      show 2 * k + 2 = 2 * (k + 1) by omega]
    by_cases hword : 2 * k ≠ field ∧ 2 * k ≠ field + 2
    · rw [if_neg fun h => hfield.mp h hword, fold_add hsum (natAt_two_le ..),
        ih (addCarry_le hsum (natAt_two_le ..)) hrest, List.filter_cons_of_pos (by simpa using hword),
        List.map_cons, List.foldl_cons, wordsFrom, hrest]
    · rw [if_pos (hfield.mpr hword), ih hsum hrest, List.filter_cons_of_neg (by simpa using hword),
        wordsFrom, hrest]

/-- Folding to the end keeps the remainder, with 0xFFFF for zero unless the sum is zero. -/
lemma reduce_eq {sum : Nat} (hpos : 0 < sum) : reduce sum = (sum - 1) % 0xFFFF + 1 := by
  fun_induction reduce sum with
  | case1 sum hlarge ih => rw [ih (by omega)]; omega
  | case2 sum hsmall => omega

/-- The checksum has the value that its definition gives exactly where that value has 16 bits; in all
cases it is the value's remainder. -/
theorem compute_eq_iff (hsize : data.size < 2 ^ 32) (heven : field % 2 = 0)
    (hfield : field + 4 ≤ data.size) :
    (compute data field).toNat = (wordSum data field + data.size - 1) % 0xFFFF + 1 ∧
      ((compute data field).toNat = (wordSum data field + data.size) % 2 ^ 32 ↔
        wordSum data field + data.size ≤ 0xFFFF) := by
  have hsum := wordSum_le data field
  have hcompute : (compute data field).toNat = (wordSum data field + data.size - 1) % 0xFFFF + 1 := by
    rw [compute, ← Nat.mul_zero 2, sumFrom_eq heven (by omega), ← wordSum,
      reduce_eq (by omega), UInt32.toNat_ofNat_of_lt' (by simp only [UInt32.size]; omega)]
  refine ⟨hcompute, ?_⟩
  rw [hcompute]
  omega

/-- A word of all ones in front of the field. -/
def allOnes : Bytes := #[0xFF, 0xFF, 0, 0, 0, 0]

theorem compute_ne_allOnes : allOnes.size < 2 ^ 32 ∧ 2 % 2 = 0 ∧ 2 + 4 ≤ allOnes.size ∧
    wordSum allOnes 2 + allOnes.size = 0x10005 ∧ (compute allOnes 2).toNat = 6 ∧
    (compute allOnes 2).toNat ≠ 0x10005 % 2 ^ 32 := by
  have hsum : wordSum allOnes 2 + allOnes.size = 0x10005 := by decide
  have hsize : allOnes.size < 2 ^ 32 := by decide
  have hfield : 2 + 4 ≤ allOnes.size := by decide
  obtain ⟨hvalue, hiff⟩ := compute_eq_iff hsize rfl hfield
  rw [hsum] at hvalue hiff
  exact ⟨hsize, rfl, hfield, hsum, hvalue, fun h => by simpa using hiff.mp h⟩

open Bytes (SameBut Within)

variable {other : Bytes}

/-- The words that are added lie outside an even field. -/
lemma sumFrom_congr (hsame : SameBut (Within field 4) data other) {offset sum : Nat}
    (hparity : offset % 2 = field % 2) :
    sumFrom other field offset sum = sumFrom data field offset sum := by
  fun_induction sumFrom data field offset sum with
  | case1 offset sum hlt hskip ih =>
    rw [sumFrom, if_pos (by rwa [hsame.1]), if_pos hskip]
    exact ih (by omega)
  | case2 offset sum hlt hskip ih =>
    have hword : other.natAt offset 2 = data.natAt offset 2 := hsame.natAt fun i hi hfield => by
      obtain ⟨hle, hlt⟩ := hi
      obtain ⟨hle', hlt'⟩ := hfield
      omega
    rw [sumFrom, if_pos (by rwa [hsame.1]), if_neg hskip, hword]
    exact ih (by omega)
  | case3 offset sum hlt => rw [sumFrom, if_neg (by rwa [hsame.1])]

lemma compute_congr (heven : field % 2 = 0) (hsame : SameBut (Within field 4) data other) :
    compute other field = compute data field := by
  rw [compute, compute, sumFrom_congr hsame heven.symm, hsame.1]

/-- Stores the checksum in bytes that stay as they are where that fails. -/
def store (field : Nat) : Edit UInt32 := do
  let data ← get
  if data.size < field + 4 then throw .outOfBounds
  Edit.put field (Bytes.ofUInt32 (compute data field))
  pure (compute data field)

lemma store_of_lt (h : data.size < field + 4) : store field data = .error .outOfBounds data := by
  change (if data.size < field + 4 then _ else _ : Edit UInt32) data = _
  rw [if_pos h]
  rfl

lemma store_of_le (h : field + 4 ≤ data.size) : store field data =
    .ok (compute data field) (data.overlay field (Bytes.ofUInt32 (compute data field))) := by
  change (if data.size < field + 4 then _ else _ : Edit UInt32) data = _
  rw [if_neg (by omega)]
  exact Edit.bind_eq_ok.mpr ⟨(), _, Edit.put_eq_ok.mpr ⟨by rwa [Bytes.size_ofUInt32], rfl⟩, rfl⟩

lemma update_eq_run (data : Bytes) (field : Nat) : update data field = (store field).run data := by
  rw [Edit.run, update]
  by_cases h : data.size < field + 4
  · rw [store_of_lt h, if_pos h]
    rfl
  · have hput : data.put field (Bytes.ofUInt32 (compute data field)) =
        .ok (data.overlay field (Bytes.ofUInt32 (compute data field))) :=
      if_pos (by rw [Bytes.size_ofUInt32]; omega)
    rw [store_of_le (by omega), if_neg h]
    simp only [hput, Result.ok_bind]

/-- The bytes of a field do not count, and what is stored there is the checksum before and after. A
field that does not fit gets none. -/
theorem update_selfConsistent (data : Bytes) (field : Nat) :
    update data field = (store field).run data ∧
    (field % 2 = 0 → field + 4 ≤ data.size →
      (∀ other, SameBut (Within field 4) data other → compute other field = compute data field) ∧
      ∃ after, store field data = .ok (compute data field) after ∧
        SameBut (Within field 4) data after ∧
        after.natAt field 4 = (compute data field).toNat ∧
        compute after field = compute data field) ∧
    (data.size < field + 4 → store field data = .error .outOfBounds data) := by
  refine ⟨update_eq_run .., fun heven hfield => ⟨fun other => compute_congr heven, ?_⟩, store_of_lt⟩
  have hsame := Bytes.sameBut_overlay data field (Bytes.ofUInt32 (compute data field))
  rw [Bytes.size_ofUInt32] at hsame
  exact ⟨_, store_of_le hfield, hsame, Bytes.natAt_overlay_ofUInt32 hfield _,
    compute_congr heven hsame⟩

/-- A field between a word of all ones and a last odd byte. -/
def oddEnd : Bytes := #[0xFF, 0xFF, 1, 2, 3, 4, 5]

theorem update_selfConsistent_oddEnd : 2 % 2 = 0 ∧ 2 + 4 ≤ oddEnd.size ∧
    (∀ other, SameBut (Within 2 4) oddEnd other → compute other 2 = 12) ∧
    (∃ after, update oddEnd 2 = .ok (12, after) ∧ SameBut (Within 2 4) oddEnd after ∧
      after.natAt 2 4 = 12 ∧ compute after 2 = 12) ∧
    oddEnd.size < 4 + 4 ∧ update oddEnd 4 = .error .outOfBounds := by
  have hcompute : compute oddEnd 2 = 12 := by decide +kernel
  have hfield : 2 + 4 ≤ oddEnd.size := by decide
  have hbeyond : oddEnd.size < 4 + 4 := by decide
  obtain ⟨hrun, hfits, -⟩ := update_selfConsistent oddEnd 2
  obtain ⟨hrun', -, hfails⟩ := update_selfConsistent oddEnd 4
  obtain ⟨hsame, after, hstore, hafter⟩ := hfits rfl hfield
  rw [hcompute] at hsame hstore hafter
  refine ⟨rfl, hfield, hsame, ⟨after, ?_, hafter⟩, hbeyond, ?_⟩
  · rw [hrun, Edit.run_eq_ok, hstore]
  · rw [hrun', Edit.run, hfails hbeyond]

end CliImage.Checksum
