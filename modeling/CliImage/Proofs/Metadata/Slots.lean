import CliImage.Metadata
import CliImage.Proofs.Heap
import CliImage.Proofs.Symbols.PdbHeader
import CliImage.Proofs.Table.Stream

/-! The streams of metadata in order: the first stream of a name that is understood is read, all
others are kept as bytes. -/

namespace CliImage

namespace StreamSlot

def name : StreamSlot → String
  | .tables => "#~"
  | .strings => "#Strings"
  | .blobs => "#Blob"
  | .guids => "#GUID"
  | .pdb => "#Pdb"
  | .raw name _ => name

/-- The slot of the first stream with a name. -/
def understood? (name : String) : Option StreamSlot :=
  [.tables, .strings, .blobs, .guids, .pdb].find? (·.name == name)

/-- Whether a slot may stand behind others. -/
def Follows (before : List StreamSlot) : StreamSlot → Prop
  | .raw name _ => name ≠ "#-" ∧ ∀ slot, understood? name = some slot → slot ∈ before
  | slot => slot ∉ before

/-- Each slot may stand behind those before it. -/
def Ordered (slots : List StreamSlot) : Prop :=
  ∀ before slot after, slots = before ++ slot :: after → slot.Follows before

variable {slots : List StreamSlot} {slot : StreamSlot}

lemma understood?_name (h : ∀ name data, slot ≠ .raw name data) :
    understood? slot.name = some slot := by
  cases slot with
  | raw name data => exact absurd rfl (h name data)
  | _ => decide

lemma not_raw_of_understood? {text : String} (h : understood? text = some slot) :
    slot.name = text ∧ ∀ name data, slot ≠ .raw name data := by
  refine ⟨by simpa using List.find?_some h, ?_⟩
  rintro name data rfl
  have := List.mem_of_find?_eq_some h
  simp at this

lemma ordered_nil : Ordered [] := fun before slot after h => by simp at h

lemma Ordered.concat (h : Ordered slots) (hslot : slot.Follows slots) :
    Ordered (slots ++ [slot]) := by
  intro before slot' after heq
  rcases List.eq_nil_or_concat after with rfl | ⟨after, last, rfl⟩
  · obtain ⟨rfl, hlast⟩ := List.append_inj' heq rfl
    obtain rfl : slot = slot' := by simpa using hlast
    exact hslot
  · rw [List.concat_eq_append, ← List.cons_append, ← List.append_assoc] at heq
    exact h before slot' after (List.append_inj' heq rfl).1

lemma Ordered.of_append {rest : List StreamSlot} (h : Ordered (slots ++ rest)) : Ordered slots :=
  fun before slot after heq => h before slot (after ++ rest) (by simp [heq])

/-- The first slot with a name that is understood is the one that is read. -/
lemma Ordered.find?_name (h : Ordered slots) {text : String}
    (htext : understood? text = some slot) :
    slots.find? (·.name == text) = if slot ∈ slots then some slot else none := by
  obtain ⟨hname, hraw⟩ := not_raw_of_understood? htext
  cases hfind : slots.find? (·.name == text) with
  | none =>
    rw [List.find?_eq_none] at hfind
    rw [if_neg]
    exact fun hmem => hfind slot hmem (by simpa using hname)
  | some first =>
    obtain ⟨hfirst, before, after, rfl, hbefore⟩ := List.find?_eq_some_iff_append.mp hfind
    have hfirst : first.name = text := by simpa using hfirst
    have hnot : slot ∉ before := fun hmem => by
      have := hbefore slot hmem
      simp [hname] at this
    have heq : first = slot := by
      by_cases hrawFirst : ∃ name data, first = .raw name data
      · obtain ⟨name, data, rfl⟩ := hrawFirst
        obtain rfl : name = text := hfirst
        exact absurd ((h before _ after rfl).2 slot htext) hnot
      · have : understood? first.name = some first :=
          understood?_name fun name data heq => hrawFirst ⟨name, data, heq⟩
        rw [hfirst, htext] at this
        exact (Option.some.inj this).symm
    rw [if_pos (by simp [heq]), heq]

lemma Ordered.mem_map_name (h : Ordered slots) {text : String}
    (htext : understood? text = some slot) : text ∈ slots.map name ↔ slot ∈ slots := by
  have hfind : (slots.find? (·.name == text)).isSome ↔ text ∈ slots.map name := by
    simp [List.find?_isSome]
  rw [← hfind, h.find?_name htext]
  split <;> simp [*]

end StreamSlot

namespace Metadata

open StreamSlot

variable {data : Bytes}

/-- Whether the first stream with the name of a slot has been found. -/
def Found.seen (found : Found) : StreamSlot → Bool
  | .tables => found.tables.isSome
  | .strings => found.strings.isSome
  | .blobs => found.blobs.isSome
  | .guids => found.guids.isSome
  | .pdb => found.seenPdb
  | .raw _ _ => false

/-- Reading the first stream with a name that is understood. -/
def Found.readFirst (found : Found) (bytes : Bytes) (external : Option RowCounts) :
    StreamSlot → Result Found
  | .tables => do
    let tables ← Tables.read bytes external
    .ok { found.push .tables with tables := some tables }
  | .strings => do
    let heap ← Strings.read bytes
    .ok { found.push .strings with strings := some heap }
  | .blobs => do
    let heap ← Blobs.read bytes
    .ok { found.push .blobs with blobs := some heap }
  | .guids => do
    let heap ← Guids.read bytes
    .ok { found.push .guids with guids := some heap }
  | .pdb => .ok { found.push .pdb with seenPdb := true }
  | .raw name data => .ok (found.push (.raw name data))

lemma place_eq {external : Option RowCounts} {found : Found} {header : StreamHeader} :
    place data external found header =
      if header.name = "#-" then .error (.fault .uncompressedTables)
      else
        match understood? header.name with
        | none => .ok (found.push (.raw header.name (streamData data header)))
        | some slot =>
          if found.seen slot then .ok (found.push (.raw header.name (streamData data header)))
          else found.readFirst (streamData data header) external slot := by
  obtain ⟨offset, size, name⟩ := header
  unfold place
  simp only
  split
  · rfl
  · rfl
  · rfl
  · rfl
  · rfl
  · rfl
  · rename_i hminus htables hstrings hblobs hguids hpdb
    have hnone : understood? name = none := by
      simp [understood?, StreamSlot.name, Ne.symm htables, Ne.symm hstrings, Ne.symm hblobs,
        Ne.symm hguids, Ne.symm hpdb]
    rw [if_neg hminus, hnone]

/-- What has been found stands in the slots, and only the first of a name has been read. -/
structure Found.Matches (found : Found) : Prop where
  ordered : Ordered found.slots.toList
  seen : ∀ slot, (∀ name data, slot ≠ .raw name data) →
    (found.seen slot = true ↔ slot ∈ found.slots.toList)
  tables_formed : ∀ ts, found.tables = some ts → ts.Formed ∧ ∀ t, ts.count t < 2 ^ 32
  strings_zero : ∀ heap, found.strings = some heap → heap.data[0]? = some 0
  blobs_zero : ∀ heap, found.blobs = some heap → heap.data[0]? = some 0
  guids_mod : ∀ heap, found.guids = some heap → heap.data.size % 16 = 0

lemma Found.matches_nil : Found.Matches ⟨none, none, none, none, false, #[]⟩ where
  ordered := ordered_nil
  seen slot hslot := by cases slot <;> simp [Found.seen]
  tables_formed := by simp
  strings_zero := by simp
  blobs_zero := by simp
  guids_mod := by simp

lemma Found.seen_push (found : Found) (slot : StreamSlot) : (found.push slot).seen = found.seen := by
  funext slot
  cases slot <;> rfl

lemma Found.Matches.raw {found : Found} (h : found.Matches) {name : String} {data : Bytes}
    (hname : name ≠ "#-")
    (hseen : ∀ slot, understood? name = some slot → slot ∈ found.slots.toList) :
    (found.push (.raw name data)).Matches where
  ordered := by
    have hfollows : (StreamSlot.raw name data).Follows found.slots.toList := ⟨hname, hseen⟩
    simpa [Found.push] using h.ordered.concat hfollows
  seen slot hslot := by
    rw [Found.seen_push, h.seen slot hslot]
    simp [Found.push, hslot name data]
  tables_formed := h.tables_formed
  strings_zero := h.strings_zero
  blobs_zero := h.blobs_zero
  guids_mod := h.guids_mod

lemma Found.Matches.readFirst {found found' : Found} (h : found.Matches) {slot : StreamSlot}
    (hslot : ∀ name data, slot ≠ .raw name data) (hfresh : found.seen slot = false) {bytes : Bytes}
    {external : Option RowCounts} (hread : found.readFirst bytes external slot = .ok found') :
    found'.Matches ∧ found'.slots.toList = found.slots.toList ++ [slot] := by
  have hmem : slot ∉ found.slots.toList := fun hmem => by
    simp [(h.seen slot hslot).mpr hmem] at hfresh
  have hordered : Ordered (found.slots.push slot).toList := by
    rw [Array.toList_push]
    refine h.ordered.concat ?_
    cases slot with
    | raw name data => exact absurd rfl (hslot name data)
    | _ => exact hmem
  have hseen (after : Found) (hafter : ∀ s, (∀ name data, s ≠ .raw name data) →
      (after.seen s = true ↔ s = slot ∨ found.seen s = true)) (s : StreamSlot)
      (hs : ∀ name data, s ≠ .raw name data) :
      after.seen s = true ↔ s ∈ (found.slots.push slot).toList := by
    rw [hafter s hs, h.seen s hs, Array.toList_push, List.mem_append, List.mem_singleton, or_comm]
  cases slot with
  | tables =>
    obtain ⟨ts, hts, hread⟩ := Result.bind_eq_ok.mp hread
    cases hread
    refine ⟨⟨hordered, hseen _ fun s _ => by cases s <;> simp [Found.seen, Found.push], ?_, h.strings_zero,
      h.blobs_zero, h.guids_mod⟩, Array.toList_push⟩
    rintro _ ⟨⟩
    exact Tables.formed_of_read hts
  | strings =>
    obtain ⟨heap, hheap, hread⟩ := Result.bind_eq_ok.mp hread
    cases hread
    refine ⟨⟨hordered, hseen _ fun s _ => by cases s <;> simp [Found.seen, Found.push], h.tables_formed, ?_,
      h.blobs_zero, h.guids_mod⟩, Array.toList_push⟩
    rintro _ ⟨⟩
    obtain ⟨hzero, rfl⟩ := Strings.read_eq_ok.mp hheap
    exact hzero
  | blobs =>
    obtain ⟨heap, hheap, hread⟩ := Result.bind_eq_ok.mp hread
    cases hread
    refine ⟨⟨hordered, hseen _ fun s _ => by cases s <;> simp [Found.seen, Found.push], h.tables_formed,
      h.strings_zero, ?_, h.guids_mod⟩, Array.toList_push⟩
    rintro _ ⟨⟩
    obtain ⟨hzero, rfl⟩ := Blobs.read_eq_ok.mp hheap
    exact hzero
  | guids =>
    obtain ⟨heap, hheap, hread⟩ := Result.bind_eq_ok.mp hread
    cases hread
    refine ⟨⟨hordered, hseen _ fun s _ => by cases s <;> simp [Found.seen, Found.push], h.tables_formed,
      h.strings_zero, h.blobs_zero, ?_⟩, Array.toList_push⟩
    rintro _ ⟨⟩
    obtain ⟨hmod, rfl⟩ := Guids.read_eq_ok.mp hheap
    exact hmod
  | pdb =>
    cases hread
    exact ⟨⟨hordered, hseen _ fun s _ => by cases s <;> simp [Found.seen, Found.push], h.tables_formed,
      h.strings_zero, h.blobs_zero, h.guids_mod⟩, Array.toList_push⟩
  | raw name data => exact absurd rfl (hslot name data)

lemma place_matches {external : Option RowCounts} {found found' : Found} {header : StreamHeader}
    (hfound : found.Matches) (h : place data external found header = .ok found') :
    found'.Matches ∧ ∃ slot, slot.name = header.name ∧
      found'.slots.toList = found.slots.toList ++ [slot] := by
  rw [place_eq] at h
  split at h
  · cases h
  · rename_i hminus
    cases hname : understood? header.name with
    | none =>
      rw [hname] at h
      cases h
      exact ⟨hfound.raw hminus (by simp [hname]), _, rfl, Array.toList_push⟩
    | some slot =>
      rw [hname] at h
      obtain ⟨hslot, hraw⟩ := not_raw_of_understood? hname
      simp only at h
      split at h
      · rename_i hseen
        cases h
        refine ⟨hfound.raw hminus fun slot' hslot' => ?_, _, rfl, Array.toList_push⟩
        rw [hname] at hslot'
        exact Option.some.inj hslot' ▸ (hfound.seen slot hraw).mp hseen
      · rename_i hseen
        obtain ⟨hmatches, hslots⟩ := hfound.readFirst hraw (by simpa using hseen) h
        exact ⟨hmatches, slot, hslot, hslots⟩

end Metadata

end CliImage
