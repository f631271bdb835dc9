import CliImage.Proofs.Edit
import CliImage.Proofs.Instruction

/-! Overwriting the tokens of decoded code commutes with decoding it: the instructions lie one
behind the other, and each holds its token in its last four bytes. -/

namespace CliImage.Instruction

open Bytes

variable {code code' after after' : Bytes} {rva : UInt64} {pos stop : Nat} {i : Instruction}
  {is : List Instruction} {f : Token → Token}

/-- The instructions take up the code between two places, in order and without gaps. -/
inductive Tiles : Nat → Nat → List Instruction → Prop
  | nil (pos : Nat) : Tiles pos pos []
  | cons {pos stop : Nat} {i : Instruction} {is : List Instruction} : i.offset = pos →
      0 < i.size → Tiles (pos + i.size) stop is → Tiles pos stop (i :: is)

lemma Decodes.tiles (h : Decodes code rva pos is) (hpos : pos ≤ code.size) :
    Tiles pos code.size is := by
  induction h with
  | nil hend =>
    obtain rfl := Nat.le_antisymm hpos hend
    exact .nil _
  | cons hlt hread _ ih =>
    obtain ⟨-, hoffset, -, hnext, -⟩ := bounds_of_read hread
    apply Tiles.cons hoffset (by omega)
    exact ih (fits_of_read hread hlt.le)

lemma Tiles.le (h : Tiles pos stop is) : pos ≤ stop := by
  induction h with
  | nil => exact le_rfl
  | cons _ _ _ ih => omega

lemma Tiles.within (h : Tiles pos stop is) (hi : i ∈ is) :
    pos ≤ i.offset ∧ i.offset + i.size ≤ stop := by
  induction h with
  | nil => cases hi
  | cons hoffset _ hrest ih =>
    rcases List.mem_cons.mp hi with rfl | hi
    · exact ⟨hoffset.ge, hoffset ▸ hrest.le⟩
    · have := ih hi
      omega

/-- The code with an instruction's token replaced where it stands. -/
def overwriteToken (f : Token → Token) (code : Bytes) (i : Instruction) : Bytes :=
  match i.token?, i.tokenOffset? with
  | some token, some offset => code.overlay offset (ofUInt32 (f token).value)
  | _, _ => code

/-- The code with the tokens of all instructions replaced where they stand. -/
def overwrite (f : Token → Token) (code : Bytes) (is : List Instruction) : Bytes :=
  is.foldl (overwriteToken f) code

lemma overwriteToken_of_none (h : i.token? = none) : overwriteToken f code i = code := by
  simp only [overwriteToken, h]

lemma overwriteToken_of_some {token : Token} (h : i.token? = some token) :
    overwriteToken f code i =
      code.overlay (i.offset + i.size - 4) (ofUInt32 (f token).value) := by
  simp only [overwriteToken, tokenOffset?, h, Option.map_some]

/-- A token takes up four bytes of its instruction. -/
def HasRoom (i : Instruction) : Prop := i.token?.isSome → 4 ≤ i.size

lemma HasRoom.sameBut (h : i.HasRoom) (f : Token → Token) (code : Bytes) :
    SameBut (Within i.offset i.size) code (overwriteToken f code i) := by
  cases htoken : i.token? with
  | none =>
    rw [overwriteToken_of_none htoken]
    exact .refl ..
  | some token =>
    have hsize := h (by simp [htoken])
    rw [overwriteToken_of_some htoken]
    refine (sameBut_overlay ..).mono fun x hx => ?_
    rw [Within, size_ofUInt32] at hx
    exact ⟨by omega, by omega⟩

lemma HasRoom.patched (h : i.HasRoom) (f : Token → Token) (hfit : i.offset + i.size ≤ code.size) :
    Patched f code (overwriteToken f code i) i := by
  cases htoken : i.token? with
  | none =>
    rw [overwriteToken_of_none htoken]
    exact ⟨fun _ _ _ _ => rfl, fun token h => by simp [htoken] at h⟩
  | some token =>
    have hsize := h (by simp [htoken])
    rw [overwriteToken_of_some htoken]
    refine ⟨fun k _ _ hk => ?_, fun token' htoken' => ?_⟩
    · have hk := hk (by simp [htoken])
      apply (sameBut_overlay ..).2
      rintro ⟨hle, -⟩
      omega
    · rw [htoken] at htoken'
      cases htoken'
      exact natAt_overlay_ofUInt32 (by omega) _

/-- Only the bytes of the instruction matter. -/
lemma Patched.congr (h : Patched f code after i) (hroom : i.HasRoom)
    (hcode : ∀ k, Within i.offset i.size k → code'[k]? = code[k]?)
    (hafter : ∀ k, Within i.offset i.size k → after'[k]? = after[k]?) :
    Patched f code' after' i := by
  refine ⟨fun k hle hlt hk => ?_, fun token htoken => ?_⟩
  · rw [hafter k ⟨hle, hlt⟩, hcode k ⟨hle, hlt⟩]
    exact h.same k hle hlt hk
  · have hsize := hroom (by simp [htoken])
    rw [← h.token token htoken]
    exact natAt_congr fun k hk => hafter _ ⟨by omega, by omega⟩

/-- Each token is overwritten once, and nothing else changes. -/
lemma Tiles.overwrite (h : Tiles pos stop is) (hroom : ∀ i ∈ is, i.HasRoom)
    (hstop : stop ≤ code.size) (f : Token → Token) :
    SameBut (Within pos (stop - pos)) code (overwrite f code is) ∧
      ∀ i ∈ is, Patched f code (Instruction.overwrite f code is) i := by
  induction h generalizing code with
  | nil => exact ⟨.refl .., fun _ hi => by cases hi⟩
  | @cons pos stop i is hoffset hpos hrest ih =>
    obtain ⟨hhead, htail⟩ := List.forall_mem_cons.mp hroom
    have hle := hrest.le
    have hfirst := hhead.sameBut f code
    obtain ⟨hsame, hpatched⟩ := @ih (overwriteToken f code i) htail (by rwa [hfirst.1])
    refine ⟨?_, List.forall_mem_cons.mpr ⟨?_, fun j hj => ?_⟩⟩
    · refine (hfirst.mono fun x hx => ?_).trans (hsame.mono fun x hx => ?_)
      · obtain ⟨hx, hx'⟩ := hx
        exact ⟨by omega, by omega⟩
      · obtain ⟨hx, hx'⟩ := hx
        exact ⟨by omega, by omega⟩
    · -- the instructions behind it lie clear of this one
      refine (hhead.patched f (by omega)).congr hhead (fun _ _ => rfl) fun k hk => hsame.2 k ?_
      rintro ⟨hx, -⟩
      have := hk.2
      omega
    · refine (hpatched j hj).congr (htail j hj) (fun k hk => ?_) fun _ _ => rfl
      refine (hfirst.2 k ?_).symm
      rintro ⟨-, hx⟩
      have := (hrest.within hj).1
      have := hk.1
      omega

/-- Where the instructions of code that starts at an address lie, and their tokens. -/
structure Laid (code : Bytes) (rva : UInt64) (is : List Instruction) : Prop where
  tiles : Tiles 0 code.size is
  address : ∀ i ∈ is, i.rva.toNat = rva.toNat + i.offset
  token : ∀ i ∈ is, ∀ token, i.token? = some token → ∃ offset, i.tokenOffset? = some offset ∧
    code.StandsAt offset (ofUInt32 token.value)

lemma Decodes.laid (h : Decodes code rva 0 is) (hfit : rva.toNat + code.size < 2 ^ 64) :
    Laid code rva is := by
  refine ⟨h.tiles (Nat.zero_le _), fun i hi => ?_, fun i hi token htoken => ?_⟩
  · obtain ⟨-, hend, hrva, -⟩ := h.bounds hi
    rw [hrva, Nat.sub_zero, UInt64.toNat_add, UInt64.toNat_ofNat_of_lt' (by
      simp only [UInt64.size]
      omega)]
    exact Nat.mod_eq_of_lt (by omega)
  · obtain ⟨-, hend, -, hbytes⟩ := h.bounds hi
    obtain ⟨hsize, hvalue⟩ := hbytes token htoken
    refine ⟨_, by rw [tokenOffset?, htoken, Option.map_some], ?_⟩
    rw [hvalue]
    exact standsAt_natAt (by omega)

/-- Decoded code is covered by its instructions, and overwriting their tokens gives code that is
decoded to the same instructions with the new tokens. -/
theorem decode_overwrite {all : Array Instruction} (hfit : rva.toNat + code.size < 2 ^ 64)
    (h : decode code rva = .ok all) : Laid code rva all.toList ∧
      ∀ f, decode (overwrite f code all.toList) rva = .ok (all.map (mapToken f)) := by
  have hdecodes := decode_eq_ok.mp h
  have hlaid := hdecodes.laid hfit
  refine ⟨hlaid, fun f => decode_eq_ok.mpr ?_⟩
  have hroom : ∀ i ∈ all.toList, i.HasRoom := by
    intro i hi hsome
    obtain ⟨token, htoken⟩ := Option.isSome_iff_exists.mp hsome
    obtain ⟨-, -, -, hbytes⟩ := hdecodes.bounds hi
    exact (hbytes token htoken).1.le
  obtain ⟨hsame, hpatched⟩ := hlaid.tiles.overwrite hroom le_rfl f
  rw [Array.toList_map]
  exact hdecodes.patched hsame.1 hpatched

/-- A call, a string, a jump over `pop`, and `ret`. -/
def calling : Bytes := #[
  0x00, 0x28, 0x02, 0x00, 0x00, 0x06, 0x72, 0x01, 0x00, 0x00, 0x70, 0x2C, 0x01, 0x26, 0x2A]

theorem decode_overwrite_calling : ∃ all, decode calling 0x2000 = .ok all ∧
    all.toList.filterMap tokenOffset? = [2, 7] ∧
    all.toList.flatMap Instruction.targets = [0x200E] ∧ Laid calling 0x2000 all.toList ∧
      ∀ f, decode (overwrite f calling all.toList) 0x2000 = .ok (all.map (mapToken f)) := by
  obtain ⟨all, hdecode, htest⟩ := Result.exists_of_holds (x := decode calling 0x2000)
    (p := fun all => decide (all.toList.filterMap tokenOffset? = [2, 7] ∧
      all.toList.flatMap Instruction.targets = [0x200E])) (by decide +kernel)
  obtain ⟨hoffsets, htargets⟩ := of_decide_eq_true htest
  exact ⟨all, hdecode, hoffsets, htargets, decode_overwrite (by decide) hdecode⟩

end CliImage.Instruction
