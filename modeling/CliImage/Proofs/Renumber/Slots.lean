import CliImage.Proofs.Renumber.Code
import Mathlib.Logic.Function.Iterate

/-! Renumbering vtable slots: a slot is renumbered as often as the table of fixups names it. -/

namespace CliImage

open Bytes Edit

/-- The token that the four bytes at a place spell. -/
def Bytes.tokenAt (data : Bytes) (pos : Nat) : Token := ⟨UInt32.ofNat (data.natAt pos 4)⟩

namespace RidMap

variable {map : RidMap} {offsetOf : Nat → Result Nat} {data between after : Bytes}
  {all done : List Nat} {table entries o : Nat}

/-- The places of the slots in the run that an entry names, one behind the other. -/
def entrySlots (offsetOf : Nat → Result Nat) (data : Bytes) (entry : Nat) : List Nat :=
  match slotSize? (data.natAt (entry + 6) 2), offsetOf (data.natAt entry 4) with
  | some size, .ok start =>
    (List.range' 0 (data.natAt (entry + 4) 2)).map fun k => start + k * size
  | _, _ => []

/-- The places of the slots that a table names, entry by entry. -/
def tableSlots (offsetOf : Nat → Result Nat) (data : Bytes) (table entries : Nat) : List Nat :=
  (List.range entries).flatMap fun i => entrySlots offsetOf data (table + 8 * i)

lemma mem_tableSlots :
    o ∈ tableSlots offsetOf data table entries ↔ SlotAt offsetOf data table entries o := by
  simp only [tableSlots, List.mem_flatMap, List.mem_range, SlotAt]
  refine exists_congr fun i => and_congr_right fun _ => ?_
  unfold entrySlots
  split
  · rename_i size start hsize hstart
    simp [hsize, hstart, eq_comm]
  · rename_i hnone
    simp only [List.not_mem_nil, false_iff]
    rintro ⟨size, start, hsize, hstart, -⟩
    exact hnone size start hsize hstart

/-- What holds once the slots of a list have been renumbered one after the other. -/
structure SlotsRenumbered (map : RidMap) (all done : List Nat) (data after : Bytes) : Prop where
  same : SameBut (fun x => ∃ o, o ∈ all ∧ Within o 4 x) data after
  room : ∀ o ∈ done, o + 4 ≤ data.size
  value : ∀ o ∈ all, after.tokenAt o = map.token^[done.count o] (data.tokenAt o)

lemma SlotsRenumbered.nil : SlotsRenumbered map all [] data data :=
  ⟨SameBut.refl .., fun _ ho => absurd ho List.not_mem_nil, fun _ _ => rfl⟩

/-- Slots are the same or apart. -/
def SlotsApart (all : List Nat) : Prop :=
  ∀ o ∈ all, ∀ o' ∈ all, o = o' ∨ o + 4 ≤ o' ∨ o' + 4 ≤ o

instance : Decidable (SlotsApart all) :=
  inferInstanceAs (Decidable (∀ o ∈ all, ∀ o' ∈ all, o = o' ∨ o + 4 ≤ o' ∨ o' + 4 ≤ o))

lemma SlotsRenumbered.step (h : SlotsRenumbered map all done data between)
    (hapart : SlotsApart all) (ho : o ∈ all)
    (hput : Edit.put o (ofUInt32 (map.token (between.tokenAt o)).value) between = .ok () after) :
    SlotsRenumbered map all (done ++ [o]) data after := by
  obtain ⟨hfit, rfl⟩ := put_eq_ok.mp hput
  rw [size_ofUInt32] at hfit
  have hchange := sameBut_overlay between o (ofUInt32 (map.token (between.tokenAt o)).value)
  rw [size_ofUInt32] at hchange
  constructor
  case same => exact h.same.trans (hchange.mono fun x hx => ⟨o, ho, hx⟩)
  case room =>
    intro o' ho'
    rcases List.mem_append.mp ho' with ho' | ho'
    · exact h.room o' ho'
    · rw [List.mem_singleton.mp ho', ← h.same.1]
      exact hfit
  case value =>
    intro o' ho'
    rw [List.count_append]
    by_cases heq : o = o'
    · -- the slot itself, renumbered once more
      obtain rfl := heq
      rw [List.count_singleton_self, Function.iterate_succ_apply', ← h.value o ho, tokenAt,
        natAt_overlay_ofUInt32 hfit, UInt32.ofNat_toNat]
    · rw [List.count_singleton, if_neg (by simpa using heq), Nat.add_zero, ← h.value o' ho']
      refine congrArg (fun n => Token.mk (UInt32.ofNat n)) (hchange.natAt fun x hx hx' => ?_)
      obtain ⟨hx, hx2⟩ := hx
      obtain ⟨hx', hx2'⟩ := hx'
      have := hapart o ho o' ho'
      omega

lemma SlotsRenumbered.slots {start size left i : Nat}
    (h : SlotsRenumbered map all done data between) (hapart : SlotsApart all)
    (hall : ∀ o ∈ (List.range' i left).map fun k => start + k * size, o ∈ all)
    (hrun : map.slots start size left i between = .ok () after) :
    SlotsRenumbered map all (done ++ (List.range' i left).map fun k => start + k * size)
      data after := by
  induction left generalizing done between i with
  | zero =>
    obtain ⟨-, rfl⟩ := Edit.pure_eq_ok.mp hrun
    simpa using h
  | succ left ih =>
    obtain ⟨_, _, hread, hrun⟩ := Edit.bind_eq_ok.mp hrun
    obtain ⟨-, rfl, rfl⟩ := numberAt_eq_ok.mp hread
    obtain ⟨_, middle, hput, hrun⟩ := Edit.bind_eq_ok.mp hrun
    rw [List.range'_succ, List.map_cons, List.forall_mem_cons] at hall
    have := ih (h.step hapart hall.1 hput) hall.2 hrun
    rwa [List.append_assoc] at this

lemma SlotsRenumbered.entry {i : Nat}
    (h : SlotsRenumbered map (tableSlots offsetOf data table entries) done data between)
    (hapart : SlotsApart (tableSlots offsetOf data table entries))
    (hfree : ∀ o, o ∈ tableSlots offsetOf data table entries → ∀ x, Within o 4 x →
      ¬ Within table (8 * entries) x) (hi : i < entries)
    (hrun : map.vtableEntry offsetOf (table + 8 * i) between = .ok () after) :
    SlotsRenumbered map (tableSlots offsetOf data table entries)
      (done ++ entrySlots offsetOf data (table + 8 * i)) data after := by
  have hsame := natAt_table h.same hfree hi
  have hrva := hsame 0 4 (by decide)
  rw [Nat.add_zero] at hrva
  obtain ⟨-, hentry⟩ := vtableEntry_eq_ok.mp hrun
  rw [hsame 6 2 (by decide), hsame 4 2 (by decide), hrva] at hentry
  rcases hentry with ⟨hsize, rfl⟩ | ⟨size, start, hsize, hstart, hslots⟩
  · simpa only [entrySlots, hsize, List.append_nil] using h
  · have heq : entrySlots offsetOf data (table + 8 * i) =
        (List.range' 0 (data.natAt (table + 8 * i + 4) 2)).map fun k => start + k * size := by
      simp only [entrySlots, hsize, hstart]
    rw [heq]
    refine h.slots hapart (fun o ho => ?_) hslots
    rw [← heq] at ho
    exact List.mem_flatMap.mpr ⟨i, List.mem_range.mpr hi, ho⟩

lemma SlotsRenumbered.run {is : List Nat}
    (h : SlotsRenumbered map (tableSlots offsetOf data table entries) done data between)
    (hapart : SlotsApart (tableSlots offsetOf data table entries))
    (hfree : ∀ o, o ∈ tableSlots offsetOf data table entries → ∀ x, Within o 4 x →
      ¬ Within table (8 * entries) x) (his : ∀ i ∈ is, i < entries)
    (hrun : (is.forM fun i => map.vtableEntry offsetOf (table + 8 * i)) between = .ok () after) :
    SlotsRenumbered map (tableSlots offsetOf data table entries)
      (done ++ is.flatMap fun i => entrySlots offsetOf data (table + 8 * i)) data after := by
  induction is generalizing done between with
  | nil =>
    obtain ⟨-, rfl⟩ := Edit.pure_eq_ok.mp hrun
    simpa using h
  | cons i is ih =>
    obtain ⟨middle, hentry, hrest⟩ := forM_cons_eq_ok.mp hrun
    obtain ⟨hi, his⟩ := List.forall_mem_cons.mp his
    rw [List.flatMap_cons, ← List.append_assoc]
    exact ih (h.entry hapart hfree hi hentry) his hrest

/-- The places of the slots that fixups name. -/
def fixupSlots (fixups : Span) (offsetOf : Nat → Result Nat) (data : Bytes) : List Nat :=
  if fixups.rva = 0 ∨ fixups.size = 0 then []
  else
    match offsetOf fixups.rva.toNat with
    | .ok table => tableSlots offsetOf data table (fixups.size.toNat / 8)
    | .error _ => []

/-- No slot lies in the table that names it. -/
def OffTable (fixups : Span) (offsetOf : Nat → Result Nat) (slots : List Nat) : Prop :=
  ∀ table, offsetOf fixups.rva.toNat = .ok table → ∀ o ∈ slots,
    o + 4 ≤ table ∨ table + 8 * (fixups.size.toNat / 8) ≤ o

variable {fixups : Span}

lemma slotsRenumbered_of_vtable (hoff : OffTable fixups offsetOf (fixupSlots fixups offsetOf data))
    (hapart : SlotsApart (fixupSlots fixups offsetOf data))
    (h : map.vtable fixups offsetOf data = .ok () after) :
    SlotsRenumbered map (fixupSlots fixups offsetOf data) (fixupSlots fixups offsetOf data)
      data after := by
  obtain ⟨hnone, rfl⟩ | ⟨hsome, table, htable, hrun⟩ := vtable_eq_ok.mp h
  · rw [fixupSlots, if_pos hnone]
    exact .nil
  · rw [fixupSlots, if_neg hsome, htable] at hoff hapart ⊢
    have hstart : SlotsRenumbered map (tableSlots offsetOf data table (fixups.size.toNat / 8)) []
        data data := .nil
    refine hstart.run hapart (fun o ho x hx hin => ?_) (fun i hi => List.mem_range.mp hi) hrun
    obtain ⟨hx, hx2⟩ := hx
    obtain ⟨hin, hin2⟩ := hin
    have := hoff table htable o ho
    omega

/-- Every slot holds the new token of the one it held, and nothing else has changed. -/
structure RenumbersOnce (map : RidMap) (slots : List Nat) (data after : Bytes) : Prop where
  same : SameBut (fun x => ∃ o, o ∈ slots ∧ Within o 4 x) data after
  value : ∀ o ∈ slots, after.tokenAt o = map.token (data.tokenAt o)

/-- A slot is renumbered as often as the fixups name it: once, and only once, where it is named once
or where renumbering its token again changes nothing. -/
theorem renumbersOnce_iff_of_vtable
    (hoff : OffTable fixups offsetOf (fixupSlots fixups offsetOf data))
    (hapart : SlotsApart (fixupSlots fixups offsetOf data))
    (h : map.vtable fixups offsetOf data = .ok () after) :
    SlotsRenumbered map (fixupSlots fixups offsetOf data) (fixupSlots fixups offsetOf data)
        data after ∧
      (RenumbersOnce map (fixupSlots fixups offsetOf data) data after ↔
        ∀ o ∈ fixupSlots fixups offsetOf data,
          map.token^[(fixupSlots fixups offsetOf data).count o] (data.tokenAt o) =
            map.token (data.tokenAt o)) := by
  have hrenumbered := slotsRenumbered_of_vtable hoff hapart h
  refine ⟨hrenumbered, fun honce o ho => ?_, fun hsame => ⟨hrenumbered.same, fun o ho => ?_⟩⟩
  · rw [← hrenumbered.value o ho, honce.value o ho]
  · rw [hrenumbered.value o ho, hsame o ho]

/-- A table of two entries that name the same run, of one slot. -/
def sharedRun : Bytes := #[16, 64, 0, 0, 1, 0, 1, 0, 16, 64, 0, 0, 1, 0, 1, 0, 1, 0, 0, 6]

def sharedFixups : Span := ⟨0x4000, 16⟩

def sharedOffset (rva : Nat) : Result Nat :=
  if rva < 0x4000 then .error .outOfBounds else .ok (rva - 0x4000)

/-- Each of three rows makes room for a row in front of it. -/
def onward : RidMap := ⟨.methodDef, #[2, 3, 4]⟩

/-- The token of row 1 becomes that of row 3. -/
theorem not_renumbersOnce_sharedRun : ∃ after,
    onward.vtable sharedFixups sharedOffset sharedRun = .ok () after ∧
    fixupSlots sharedFixups sharedOffset sharedRun = [16, 16] ∧
    OffTable sharedFixups sharedOffset [16, 16] ∧ SlotsApart [16, 16] ∧
    sharedRun.tokenAt 16 = ⟨0x06000001⟩ ∧ after.tokenAt 16 = ⟨0x06000003⟩ ∧
    ¬ RenumbersOnce onward [16, 16] sharedRun after := by
  have hslots : fixupSlots sharedFixups sharedOffset sharedRun = [16, 16] := by decide +kernel
  have htoken : sharedRun.tokenAt 16 = ⟨0x06000001⟩ := by decide +kernel
  have hoff : OffTable sharedFixups sharedOffset [16, 16] := by
    intro table htable
    obtain rfl : 0 = table := Except.ok.inj htable
    decide
  have hapart : SlotsApart [16, 16] := by decide
  obtain ⟨⟨_, after⟩, hrun, -⟩ := Result.exists_of_holds
    (x := (onward.vtable sharedFixups sharedOffset).run sharedRun) (p := fun _ => true)
    (by decide +kernel)
  have hrun := run_eq_ok.mp hrun
  obtain ⟨hrenumbered, honce⟩ := renumbersOnce_iff_of_vtable (hslots.symm ▸ hoff)
    (hslots.symm ▸ hapart) hrun
  rw [hslots] at hrenumbered honce
  refine ⟨after, hrun, hslots, hoff, hapart, htoken, ?_, fun h => ?_⟩
  · rw [hrenumbered.value 16 (by decide), htoken]
    decide +kernel
  · have hsame := honce.mp h 16 (by decide)
    rw [htoken] at hsame
    exact absurd hsame (by decide +kernel)

end RidMap

end CliImage
