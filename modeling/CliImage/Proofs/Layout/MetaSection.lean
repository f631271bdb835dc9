import CliImage.Layout.MetaSection
import CliImage.Proofs.Bytes

/-! What stands in the added section once pieces have been pushed onto it. -/

namespace CliImage.MetaSection

open Bytes

variable {rva address : UInt32} {added added' : MetaSection} {piece : Bytes}
  {pushed : List (UInt32 × Bytes)}

lemma push_eq (piece : Bytes) (added : MetaSection) : push piece added =
    if 2 ^ 32 ≤ (added.data.padTo 4).size then
      .error (.unsupported .sectionSize) { added with data := added.data.padTo 4 }
    else if 2 ^ 32 ≤ added.rva.toNat + (added.data.padTo 4).size then
      .error (.unsupported .addressSpace) { added with data := added.data.padTo 4 }
    else .ok (UInt32.ofNat (added.rva.toNat + (added.data.padTo 4).size))
      { added with data := added.data.padTo 4 ++ piece } := by
  rw [push, show (nextRva >>= _) added = EStateM.bind nextRva _ added from rfl, EStateM.bind, nextRva]
  simp only
  by_cases hsize : 2 ^ 32 ≤ (added.data.padTo 4).size
  · rw [if_pos hsize, if_pos hsize]
  · rw [if_neg hsize, if_neg hsize]
    by_cases hspace : 2 ^ 32 ≤ added.rva.toNat + (added.data.padTo 4).size
    · rw [if_pos hspace, if_pos hspace]
    · rw [if_neg hspace, if_neg hspace]
      rfl

lemma push_eq_ok : push piece added = .ok address added' ↔
    address.toNat = added.rva.toNat + (added.data.padTo 4).size ∧
      added' = { added with data := added.data.padTo 4 ++ piece } := by
  rw [push_eq]
  have := address.toNat_lt
  split
  · simp only [reduceCtorEq, false_iff, not_and]
    omega
  · split
    · simp only [reduceCtorEq, false_iff, not_and]
      omega
    · have hlt : added.rva.toNat + (added.data.padTo 4).size < 2 ^ 32 := by omega
      simp only [EStateM.Result.ok.injEq, ← UInt32.toNat_inj, UInt32.toNat_ofNat_of_lt' hlt,
        eq_comm]

/-- A push that fails leaves its padding. -/
lemma push_eq_error {e : Error} (h : push piece added = .error e added') :
    added' = { added with data := added.data.padTo 4 } := by
  rw [push_eq] at h
  split at h
  · cases h
    rfl
  · split at h <;> cases h
    rfl

/-- The pieces that have been pushed onto a new section, with the addresses that were told. -/
inductive Pushed (rva : UInt32) : MetaSection → List (UInt32 × Bytes) → Prop
  | new : Pushed rva ⟨rva, #[]⟩ []
  | ok {added added' : MetaSection} {pushed : List (UInt32 × Bytes)} {piece : Bytes}
      {address : UInt32} (h : Pushed rva added pushed) (hpush : push piece added = .ok address added') :
      Pushed rva added' (pushed ++ [(address, piece)])
  | error {added added' : MetaSection} {pushed : List (UInt32 × Bytes)} {piece : Bytes} {e : Error}
      (h : Pushed rva added pushed) (hpush : push piece added = .error e added') :
      Pushed rva added' pushed

lemma Pushed.rva_eq (h : Pushed rva added pushed) : added.rva = rva := by
  induction h with
  | new => rfl
  | ok _ hpush ih =>
    rw [(push_eq_ok.mp hpush).2]
    exact ih
  | error _ hpush ih =>
    rw [push_eq_error hpush]
    exact ih

/-- Each piece stands at its address, whatever has been pushed after it. -/
theorem Pushed.standsAt (h : Pushed rva added pushed) {p : UInt32 × Bytes} (hp : p ∈ pushed) :
    rva.toNat ≤ p.1.toNat ∧ added.data.StandsAt (p.1.toNat - rva.toNat) p.2 := by
  induction h with
  | new => cases hp
  | ok h hpush ih =>
    obtain ⟨haddress, hadded⟩ := push_eq_ok.mp hpush
    rw [h.rva_eq] at haddress
    rw [hadded]
    rcases List.mem_append.mp hp with hp | hp
    · obtain ⟨hle, hstands⟩ := ih hp
      exact ⟨hle, (hstands.append_right _).append_right _⟩
    · obtain rfl := List.mem_singleton.mp hp
      refine ⟨(Nat.le_add_right ..).trans haddress.ge, ?_⟩
      rw [haddress, Nat.add_sub_cancel_left]
      exact standsAt_append_left ..
  | error _ hpush ih =>
    obtain ⟨hle, hstands⟩ := ih hp
    rw [push_eq_error hpush]
    exact ⟨hle, hstands.append_right _⟩

end CliImage.MetaSection
