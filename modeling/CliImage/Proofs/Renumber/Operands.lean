import CliImage.Proofs.Image.Evaluation
import CliImage.Proofs.Image.Prepared
import CliImage.Proofs.Instruction.Overwrite
import CliImage.Proofs.Method.Body
import CliImage.Proofs.Renumber.Code
import Mathlib.Data.Finset.Card
import Mathlib.Data.Finset.Dedup

/-! Renumbering the calls in an image's code: the operands of the methods that have rows are found in
their bodies, each place is written once, and all other bytes stay. -/

namespace CliImage

open Bytes

namespace PeFile

variable {file : PeFile} {rva implFlags : UInt32} {found : Option Body} {all : Array Instruction}
  {token token' : Token} {i : Instruction} {k : Nat}

/-- The four bytes at an offset behind an address are a token. -/
def HoldsToken (file : PeFile) (rva offset : Nat) (token : Token) : Prop :=
  ∃ w, file.tail rva = .ok w ∧ w.natAt offset 4 = token.value.toNat

lemma HoldsToken.unique {rva : Nat} (h : file.HoldsToken rva k token)
    (h' : file.HoldsToken rva k token') : token = token' := by
  obtain ⟨w, hw, hvalue⟩ := h
  obtain ⟨w', hw', hvalue'⟩ := h'
  obtain rfl := Except.ok.inj (hw.symm.trans hw')
  cases token
  cases token'
  congr
  exact UInt32.toNat_inj.mp (hvalue.symm.trans hvalue')

lemma code_of_readBody (h : file.readBody rva implFlags = .ok (found, all)) (hi : i ∈ all.toList) :
    ∃ body w code, found = some body ∧ file.tail rva.toNat = .ok w ∧ body.code w = .ok code ∧
      Instruction.decode code (UInt64.ofNat (rva.toNat + body.headerSize)) = .ok all := by
  simp only [readBody] at h
  split at h
  · cases h
    cases hi
  · simp only [Result.bind_eq_ok] at h
    obtain ⟨w, htail, body, -, code, hcode, all, hdecode, h⟩ := h
    cases h
    exact ⟨body, w, code, rfl, htail, hcode, hdecode⟩

/-- The token of an instruction stands in the body that the instruction is read from. -/
lemma holdsToken_of_readBody (h : file.readBody rva implFlags = .ok (found, all))
    (hfit : ∀ body, found = some body → rva.toNat + body.size ≤ 2 ^ 32)
    (hi : i ∈ all.toList) (htoken : i.token? = some token) : ∃ body k, found = some body ∧
      k + 4 ≤ body.size ∧ i.rva.toNat + i.size - 4 = rva.toNat + k ∧
        file.HoldsToken rva.toNat k token := by
  obtain ⟨body, w, code, rfl, htail, hcode, hdecode⟩ := code_of_readBody h hi
  obtain ⟨hsize, hcode⟩ := Body.standsAt_code hcode
  have hfit := hfit body rfl
  simp only [Body.size] at hfit ⊢
  have hstart : (UInt64.ofNat (rva.toNat + body.headerSize)).toNat =
      rva.toNat + body.headerSize := by
    apply UInt64.toNat_ofNat_of_lt'
    simp only [UInt64.size]
    omega
  have hdecodes := Instruction.decode_eq_ok.mp hdecode
  have hlaid := hdecodes.laid (by omega)
  obtain ⟨-, hend, -, hbytes⟩ := hdecodes.bounds hi
  have hroom := (hbytes token htoken).1
  have haddress := hlaid.address i hi
  obtain ⟨k, hk, hstands⟩ := hlaid.token i hi token htoken
  simp only [Instruction.tokenOffset?, htoken, Option.map_some, Option.some.injEq] at hk
  refine ⟨body, body.headerSize + k, rfl, by omega, by omega, w, htail, ?_⟩
  have hvalue := (hcode.trans hstands).natAt_ofNat token.value.toNat_lt
  rwa [Nat.add_assoc] at hvalue

end PeFile

namespace RidMap

variable {map : RidMap} {offsetOf : Nat → Result Nat} {all : List (Instruction × Token)} {o : Nat}

/-- The places of some operands. -/
def places (offsetOf : Nat → Result Nat) (all : List (Instruction × Token)) : Finset Nat :=
  (all.filterMap fun a => (offsetOf (a.1.rva.toNat + a.1.size - 4)).toOption).toFinset

lemma mem_places : o ∈ places offsetOf all ↔ ∃ a ∈ all, PlacedAt offsetOf a.1 o := by
  simp only [places, List.mem_toFinset, List.mem_filterMap, PlacedAt]
  refine exists_congr fun a => and_congr_right fun _ => ?_
  cases offsetOf (a.1.rva.toNat + a.1.size - 4) with
  | ok o' => simp [Except.toOption]
  | error e => simp [Except.toOption]

lemma size_eq_card {patched : Std.HashSet Nat}
    (h : ∀ o, o ∈ patched ↔ ∃ a ∈ all, PlacedAt offsetOf a.1 o) :
    patched.size = (places offsetOf all).card := by
  have hnodup : patched.toList.Nodup := by
    apply patched.distinct_toList.imp
    simp
  have heq : places offsetOf all = patched.toList.toFinset := by
    ext o
    simp [mem_places, h]
  rw [heq, List.toFinset_card_of_nodup hnodup, Std.HashSet.length_toList]

/-- Rows beyond the map and rows of other tables keep their tokens. -/
lemma token_of_unlisted {token : Token}
    (h : token.table ≠ map.table.number ∨ map.targets.size < token.row) :
    map.token token = token := by
  apply token_of_get
  intro htable
  apply get_beyond
  simp only [UInt32.toNat_ofNat']
  have := token.row_lt
  have := h.resolve_left (not_not_intro htable)
  simp only [Token.rowLimit] at *
  omega

end RidMap

namespace Image

open RidMap

variable {image : Image} {map : RidMap} {offsetOf : Nat → Result Nat} {source data : Bytes}

/-- The method tokens in the code of the methods that have rows. -/
def operands (image : Image) : List (Instruction × Token) :=
  RidMap.operands (image.methods.toList.filter fun m => !m.isAdded)

lemma mem_operands {a : Instruction × Token} : a ∈ image.operands ↔
    ∃ m ∈ image.methods.toList, m.isAdded = false ∧ a ∈ m.tokens := by
  simp only [operands, RidMap.operands, List.mem_flatten, List.mem_map, List.mem_filter]
  constructor
  · rintro ⟨_, ⟨m, ⟨hm, hold⟩, rfl⟩, ha⟩
    exact ⟨m, hm, by simpa using hold, ha⟩
  · rintro ⟨m, hm, hold, ha⟩
    exact ⟨_, ⟨m, ⟨hm, by simpa using hold⟩, rfl⟩, ha⟩

/-- The addresses of each body lead to places one behind the other among `n`. -/
def MapsBodies (image : Image) (offsetOf : Nat → Result Nat) (n : Nat) : Prop :=
  ∀ m ∈ image.methods.toList, m.isAdded = false → ∀ body ∈ m.body,
    ∃ start, offsetOf m.rva.toNat = .ok start ∧ start + body.size ≤ n ∧
      ∀ k < body.size, m.rva.toNat + k < 2 ^ 32 ∧ offsetOf (m.rva.toNat + k) = .ok (start + k)

instance {n : Nat} : Decidable (image.MapsBodies offsetOf n) :=
  inferInstanceAs (Decidable (∀ m ∈ image.methods.toList, m.isAdded = false → ∀ body ∈ m.body,
    ∃ start, offsetOf m.rva.toNat = .ok start ∧ start + body.size ≤ n ∧
      ∀ k < body.size, m.rva.toNat + k < 2 ^ 32 ∧ offsetOf (m.rva.toNat + k) = .ok (start + k)))

/-- An operand lies in a body that is mapped from its first byte on. -/
lemma Prepared.operand_spec (h : image.Prepared source) (hmaps : image.MapsBodies offsetOf data.size)
    {m : Method} (hm : m ∈ image.methods.toList) (hold : m.isAdded = false)
    {a : Instruction × Token} (ha : a ∈ m.tokens) : ∃ start k,
      offsetOf m.rva.toNat = .ok start ∧ image.file.HoldsToken m.rva.toNat k a.2 ∧
        a.1.rva.toNat + a.1.size - 4 < 2 ^ 32 ∧ PlacedAt offsetOf a.1 (start + k) ∧
          start + k + 4 ≤ data.size := by
  obtain ⟨i, hi, htoken⟩ := List.mem_filterMap.mp ha
  obtain ⟨token, hfilter, rfl⟩ := Option.map_eq_some_iff.mp htoken
  have htoken : i.token? = some token := (Option.filter_eq_some_iff.mp hfilter).1
  have hfit : ∀ body, m.body = some body → m.rva.toNat + body.size ≤ 2 ^ 32 := by
    intro body hbody
    obtain ⟨_, -, -, hplace⟩ := hmaps m hm hold body hbody
    have hrva := m.rva.toNat_lt
    by_contra hlt
    have := (hplace (body.size - 1) (by omega)).1
    omega
  obtain ⟨body, k, hbody, hk, haddress, hholds⟩ :=
    PeFile.holdsToken_of_readBody (h.readBody hm hold) hfit hi htoken
  obtain ⟨start, hstart, hend, hplace⟩ := hmaps m hm hold body hbody
  obtain ⟨hlt, hfound⟩ := hplace k (by omega)
  refine ⟨start, k, hstart, hholds, by rwa [haddress], ?_, by omega⟩
  simpa only [PlacedAt, haddress] using hfound

/-- What bytes hold once the code of an image has been renumbered in them: every operand has a place,
each place holds the new token of an operand there, and that of every operand there whose body is
shared or whose token is. -/
structure CodeRenumbered (image : Image) (map : RidMap) (offsetOf : Nat → Result Nat) (n : Nat)
    (data after : Bytes) : Prop where
  count : n = (places offsetOf image.operands).card
  same : SameBut (fun x => ∃ o ∈ places offsetOf image.operands, Within o 4 x) data after
  placed : ∀ a ∈ image.operands, ∃ o, PlacedAt offsetOf a.1 o ∧ o + 4 ≤ data.size
  value : ∀ o ∈ places offsetOf image.operands, ∃ a ∈ image.operands, PlacedAt offsetOf a.1 o ∧
    after.natAt o 4 = (map.token a.2).value.toNat
  own : ∀ m ∈ image.methods.toList, m.isAdded = false → ∀ a ∈ m.tokens, ∀ o,
    PlacedAt offsetOf a.1 o → (∀ m' ∈ image.methods.toList, m'.isAdded = false → m'.rva ≠ m.rva →
      ∀ b ∈ m'.tokens, PlacedAt offsetOf b.1 o → b.2 = a.2) →
    after.natAt o 4 = (map.token a.2).value.toNat

/-- Code is renumbered at its operands, each once, and nowhere else. -/
theorem code_renumbered (hprepared : image.Prepared source)
    (hmaps : image.MapsBodies offsetOf data.size) (hseparate : Separate offsetOf image.operands) :
    (∃ n after, map.code image.methods.toList offsetOf data = .ok n after ∧
      image.CodeRenumbered map offsetOf n data after) ∧
    ∀ token : Token, token.table ≠ map.table.number ∨ map.targets.size < token.row →
      map.token token = token := by
  have hplaced : ∀ a ∈ image.operands, a.1.rva.toNat + a.1.size - 4 < 2 ^ 32 ∧
      ∃ o, PlacedAt offsetOf a.1 o ∧ o + 4 ≤ data.size := by
    intro a ha
    obtain ⟨m, hm, hold, ha⟩ := mem_operands.mp ha
    obtain ⟨start, k, -, -, hlt, hplace, hend⟩ := hprepared.operand_spec hmaps hm hold ha
    exact ⟨hlt, _, hplace, hend⟩
  obtain ⟨n, after, hcode, -⟩ := @runs_code map _ _ _ hplaced data rfl
  obtain ⟨patched, hrenumbered, hn⟩ := renumbered_of_code hseparate hcode
  refine ⟨⟨n, after, hcode, ?_⟩, fun token htoken => token_of_unlisted htoken⟩
  constructor
  case count => exact hn.trans (size_eq_card hrenumbered.known)
  case same =>
    apply hrenumbered.same.mono
    rintro x ⟨a, ha, o, ho, hx⟩
    exact ⟨o, mem_places.mpr ⟨a, ha, ho⟩, hx⟩
  case placed => exact fun a ha => (hplaced a ha).2
  case value =>
    intro o ho
    apply hrenumbered.value
    exact (hrenumbered.known o).mpr (mem_places.mp ho)
  case own =>
    intro m hm hold a ha o ho hothers
    apply hrenumbered.natAt (mem_operands.mpr ⟨m, hm, hold, ha⟩) ho
    intro b hb hplace
    obtain ⟨m', hm', hold', hb⟩ := mem_operands.mp hb
    by_cases hrva : m'.rva = m.rva
    · -- one body: the same place is the same offset in it
      obtain ⟨start, k, hstart, hholds, -, hk, -⟩ := hprepared.operand_spec hmaps hm hold ha
      obtain ⟨start', k', hstart', hholds', -, hk', -⟩ := hprepared.operand_spec hmaps hm' hold' hb
      rw [hrva] at hstart' hholds'
      cases hstart.symm.trans hstart'
      have := hk.unique ho
      have := hk'.unique hplace
      obtain rfl : k = k' := by omega
      exact hholds'.unique hholds
    · exact hothers m' hm' hold' hrva b hb hplace

/-- An image of three methods: the first two share a body that calls the second, the third calls a
method of another image, the first method and one that there is not. -/
def sharedCode : Bytes := #[
  77, 90, 0, 0, 0, 0, 0, 0, 0, 0, 0, 0, 0, 0, 0, 0, 0, 0, 0, 0, 0, 0, 0, 0, 0, 0, 0, 0, 0, 0, 0, 0,
  0, 0, 0, 0, 0, 0, 0, 0, 0, 0, 0, 0, 0, 0, 0, 0, 0, 0, 0, 0, 0, 0, 0, 0, 0, 0, 0, 0, 64, 0, 0, 0,
  80, 69, 0, 0, 76, 1, 1, 0, 0, 0, 0, 0, 0, 0, 0, 0, 0, 0, 0, 0, 216, 0, 2, 33, 11, 1, 0, 0, 0, 0,
  0, 0, 0, 0, 0, 0, 0, 0, 0, 0, 0, 0, 0, 0, 0, 0, 0, 0, 0, 0, 0, 0, 0, 0, 0, 0, 0, 16, 0, 0, 8, 0,
  0, 0, 0, 0, 0, 0, 0, 0, 0, 0, 0, 0, 0, 0, 0, 0, 0, 0, 0, 0, 0, 0, 88, 1, 0, 0, 0, 0, 0, 0, 0, 0,
  0, 0, 0, 0, 0, 0, 0, 0, 0, 0, 0, 0, 0, 0, 0, 0, 0, 0, 0, 0, 0, 0, 15, 0, 0, 0, 0, 0, 0, 0, 0, 0,
  0, 0, 0, 0, 0, 0, 0, 0, 0, 0, 0, 0, 0, 0, 0, 0, 0, 0, 0, 0, 0, 0, 0, 0, 0, 0, 0, 0, 0, 0, 0, 0, 0,
  0, 0, 0, 0, 0, 0, 0, 0, 0, 0, 0, 0, 0, 0, 0, 0, 0, 0, 0, 0, 0, 0, 0, 0, 0, 0, 0, 0, 0, 0, 0, 0, 0,
  0, 0, 0, 0, 0, 0, 0, 0, 0, 0, 0, 0, 0, 0, 0, 0, 0, 0, 0, 0, 0, 0, 0, 0, 0, 0, 0, 0, 0, 0, 0, 0, 0,
  0, 0, 0, 0, 0, 0, 0, 0, 16, 0, 0, 72, 0, 0, 0, 46, 116, 101, 120, 116, 0, 0, 0, 252, 0, 0, 0, 0,
  16, 0, 0, 252, 0, 0, 0, 88, 1, 0, 0, 0, 0, 0, 0, 0, 0, 0, 0, 0, 0, 0, 0, 32, 0, 0, 96, 72, 0, 0,
  0, 2, 0, 5, 0, 72, 16, 0, 0, 144, 0, 0, 0, 1, 0, 0, 0, 0, 0, 0, 0, 0, 0, 0, 0, 0, 0, 0, 0, 0, 0,
  0, 0, 0, 0, 0, 0, 0, 0, 0, 0, 0, 0, 0, 0, 0, 0, 0, 0, 0, 0, 0, 0, 0, 0, 0, 0, 0, 0, 0, 0, 0, 0, 0,
  0, 0, 0, 0, 0, 66, 83, 74, 66, 1, 0, 1, 0, 0, 0, 0, 0, 0, 0, 0, 0, 0, 0, 2, 0, 48, 0, 0, 0, 88, 0,
  0, 0, 35, 126, 0, 0, 136, 0, 0, 0, 8, 0, 0, 0, 35, 66, 108, 111, 98, 0, 0, 0, 0, 0, 0, 0, 2, 0, 0,
  1, 68, 0, 0, 0, 0, 0, 0, 0, 0, 0, 0, 0, 0, 0, 0, 0, 1, 0, 0, 0, 3, 0, 0, 0, 0, 0, 0, 0, 0, 0, 0,
  0, 0, 0, 1, 0, 1, 0, 216, 16, 0, 0, 0, 0, 0, 0, 0, 0, 1, 0, 1, 0, 216, 16, 0, 0, 0, 0, 0, 0, 0, 0,
  1, 0, 1, 0, 224, 16, 0, 0, 0, 0, 0, 0, 0, 0, 1, 0, 1, 0, 0, 3, 0, 0, 1, 0, 0, 0, 26, 40, 2, 0, 0,
  6, 42, 0, 3, 48, 8, 0, 16, 0, 0, 0, 0, 0, 0, 0, 40, 1, 0, 0, 10, 40, 1, 0, 0, 6, 40, 9, 0, 0, 6,
  42]

/-- The method tokens that have places in the image's code, once its rows go round. -/
def sharedTokens : List (Nat × Nat) := [(562, 0x06000001), (586, 0x06000003), (591, 0x06000009)]

theorem code_renumbered_sharedCode : ∃ (image : Image) (after : Bytes), image.Prepared sharedCode ∧
    image.MapsBodies image.file.offsetOf sharedCode.size ∧
    Separate image.file.offsetOf image.operands ∧ image.operands.length = 4 ∧
    RidMap.code ⟨.methodDef, #[3, 1, 2]⟩ image.methods.toList image.file.offsetOf sharedCode =
      .ok 3 after ∧
    image.CodeRenumbered ⟨.methodDef, #[3, 1, 2]⟩ image.file.offsetOf 3 sharedCode after ∧
    ∀ p ∈ sharedTokens, after.natAt p.1 4 = p.2 := by
  obtain ⟨image, hread, htest⟩ := Result.exists_of_holds (x := Image.read 0 sharedCode)
    (p := fun image => decide (
      image.MapsBodies image.file.offsetOf sharedCode.size ∧
      Separate image.file.offsetOf image.operands ∧ image.operands.length = 4 ∧
      places image.file.offsetOf image.operands = {562, 586, 591} ∧
      ∀ a ∈ image.operands, ∀ o, image.file.offsetOf (a.1.rva.toNat + a.1.size - 4) = .ok o →
        (o, (RidMap.token ⟨.methodDef, #[3, 1, 2]⟩ a.2).value.toNat) ∈ sharedTokens))
    (by
      rw [Image.readByTails.2]
      decide +kernel)
  obtain ⟨hmaps, hseparate, hlength, hplaces, htokens⟩ := of_decide_eq_true htest
  obtain ⟨⟨n, after, hcode, h⟩, -⟩ := @code_renumbered image ⟨.methodDef, #[3, 1, 2]⟩
    image.file.offsetOf sharedCode sharedCode (.read hread) hmaps hseparate
  obtain rfl : n = 3 := by rw [h.count, hplaces]; rfl
  refine ⟨image, after, .read hread, hmaps, hseparate, hlength, hcode, h, fun p hp => ?_⟩
  have hplace : p.1 ∈ places image.file.offsetOf image.operands := by
    rw [hplaces]
    exact (show ∀ p ∈ sharedTokens, p.1 ∈ ({562, 586, 591} : Finset Nat) by decide) p hp
  obtain ⟨a, ha, ho, hvalue⟩ := h.value p.1 hplace
  rw [hvalue]
  exact (show ∀ p ∈ sharedTokens, ∀ q ∈ sharedTokens, p.1 = q.1 → p.2 = q.2 by decide)
    _ (htokens a ha _ ho) p hp rfl

end Image

end CliImage
