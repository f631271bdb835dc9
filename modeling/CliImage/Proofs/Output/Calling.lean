import CliImage.Proofs.Image.Prepared
import CliImage.Proofs.Layout.MetaSection
import CliImage.Proofs.Output.Metadata
import CliImage.Proofs.Renumber.Monotone
import CliImage.Proofs.Renumber.Sorted

/-! Calls can be injected any number of times, and what was injected is written while there is room
for it. -/

namespace CliImage

namespace Image

variable {image : Image} {ref : MethodRef} {m cctor : Method} {rid n : Nat}

/-- An image whose module type has been given an initializer `n` times. -/
def calling (image : Image) (cctor : Method) (n : Nat) : Image :=
  { image with
    types := image.types.modify 0 fun t =>
      { t with methods := t.methods ++ (List.range' image.methods.size n).toArray }
    methods := image.methods ++ Array.replicate n cctor }

lemma calling_zero : image.calling cctor 0 = image := by
  have htypes : (image.calling cctor 0).types = image.types := by
    refine Array.toList_inj.mp ?_
    simp only [calling, Array.toList_modify, List.range'_zero, Array.append_empty]
    exact List.modify_id ..
  have hmethods : (image.calling cctor 0).methods = image.methods := by
    simp [calling]
  calc image.calling cctor 0
      = { image with
          types := (image.calling cctor 0).types, methods := (image.calling cctor 0).methods } := rfl
    _ = image := by rw [htypes, hmethods]

lemma types_calling_succ : (image.calling cctor (n + 1)).types =
    (image.calling cctor n).types.modify 0 fun t =>
      { t with methods := t.methods.push (image.calling cctor n).methods.size } := by
  refine Array.toList_inj.mp ?_
  simp only [calling, Array.toList_modify, List.modify_modify_eq, Array.size_append,
    Array.size_replicate]
  congr 1
  funext t
  rw [Function.comp_apply, List.range'_1_concat, ← List.push_toArray, Array.append_push]

/-- Where a method can be called, it can be called again. -/
lemma inject_calling (hmodule : image.moduleType?.isSome) (hown : image.owns ref)
    (hm : image.methods[ref.method]? = some m) (hrid : m.rid = some rid)
    (hcctor : initializerCalling (Token.ofRow .methodDef rid) = .ok cctor) (n : Nat) :
    (image.calling cctor n).inject ref = .ok (image.calling cctor (n + 1)) := by
  obtain ⟨t, ht⟩ := Option.isSome_iff_exists.mp hmodule
  obtain ⟨hfirst, hnamed⟩ := Option.filter_eq_some_iff.mp ht
  have hmodule' : (image.calling cctor n).moduleType?.isSome := by
    rw [moduleType?, calling, Array.getElem?_modify, if_pos rfl, hfirst]
    simpa [Option.filter] using hnamed
  have hm' : (image.calling cctor n).methods[ref.method]? = some m := by
    have hlt := (Array.getElem?_eq_some_iff.mp hm).1
    rw [calling, Array.getElem?_append_left hlt, hm]
  have hrebase : (image.calling cctor n).rebase ref = .ok ref := by
    rw [rebase, if_pos]
    rw [hm', Option.isSome_some, Bool.and_true]
    exact hown
  have hlt : 0 < (image.calling cctor n).types.size := by
    rw [calling, Array.size_modify]
    exact (Array.getElem?_eq_some_iff.mp hfirst).1
  have hadd : (image.calling cctor n).addMethod 0 cctor =
      .ok (image.calling cctor (n + 1), (image.calling cctor n).methods.size) := by
    rw [addMethod, if_pos hlt]
    simp only [← types_calling_succ]
    simp only [calling, Array.replicate_succ, Array.append_push]
  rw [inject, if_neg (by simp [← Option.isSome_iff_ne_none, hmodule']), hrebase, Result.ok_bind, hm', Option.bind_some,
    Method.token?, hrid, Option.map_some]
  simp only [hcctor, Result.ok_bind, hadd]

end Image

namespace Output

open MethodPlan

variable {image : Image} {plan : MethodPlan} {before : AddedState} {n : Nat}

/-- An added method with a body of at most `n` bytes and a short signature. -/
def Addable (image : Image) (plan : MethodPlan) (n id : Nat) : Prop :=
  ∃ m encoded body signature, image.methods[id]? = some m ∧ m.encodedBody = some encoded ∧
    plan.rids.body m encoded = .ok body ∧ body.size ≤ n ∧ m.encodedSignature = some signature ∧
    signature.size < 0x80

lemma exists_intern (heap : Blobs) {value : Bytes} (h : value.size < 0x80) :
    ∃ result, heap.intern value = .ok result := by
  unfold Blobs.intern
  split
  · exact ⟨_, rfl⟩
  · split
    · exact ⟨_, rfl⟩
    · rw [Compressed.encode, Compressed.encode?, if_pos h]
      exact ⟨_, rfl⟩

lemma exists_addMethod {id : Nat} (h : Addable image plan n id)
    (hroom : before.added.rva.toNat + before.added.data.size + 3 < 2 ^ 32) :
    ∃ state row, addMethod image plan before id = .ok state ∧
      state.rows = before.rows ++ [(id, row)] ∧ state.added.rva = before.added.rva ∧
      state.added.data.size ≤ before.added.data.size + (n + 3) := by
  obtain ⟨m, encoded, body, signature, hm, hencoded, hbody, hsize, hsignature, hshort⟩ := h
  obtain ⟨⟨blobs, blob⟩, hblob⟩ := exists_intern before.metadata.blobs hshort
  have hpad : (before.added.data.padTo 4).size ≤ before.added.data.size + 3 := by
    rw [Bytes.size_padTo _ (by decide), alignUp]
    omega
  have hpush : MetaSection.push body before.added =
      .ok (UInt32.ofNat (before.added.rva.toNat + (before.added.data.padTo 4).size))
        { before.added with data := before.added.data.padTo 4 ++ body } := by
    rw [MetaSection.push_eq, if_neg (by omega), if_neg (by omega)]
  have hadded : addBody plan before.added m =
      .ok (UInt32.ofNat (before.added.rva.toNat + (before.added.data.padTo 4).size),
        { before.added with data := before.added.data.padTo 4 ++ body }) := by
    simp only [addBody, hencoded, hbody, Result.ok_bind, hpush]
  simp only [addMethod, hm, hsignature, hadded, Result.ok_bind, hblob]
  refine ⟨_, _, rfl, rfl, rfl, ?_⟩
  rw [Array.size_append]
  omega

/-- Methods can be added while there is room in the section. -/
lemma exists_addMethods {ids : List Nat} (h : ∀ id ∈ ids, Addable image plan n id)
    (hroom : before.added.rva.toNat + before.added.data.size + (n + 3) * ids.length < 2 ^ 32) :
    ∃ state, ids.foldlM (addMethod image plan) before = .ok state ∧
      state.rows.map Prod.fst = before.rows.map Prod.fst ++ ids := by
  induction ids generalizing before with
  | nil => exact ⟨before, rfl, by simp⟩
  | cons id ids ih =>
    obtain ⟨hid, hids⟩ := List.forall_mem_cons.mp h
    rw [List.length_cons, Nat.mul_succ] at hroom
    have hfirst : before.added.rva.toNat + before.added.data.size + 3 < 2 ^ 32 := by omega
    obtain ⟨next, row, hnext, hrows, hrva, hsize⟩ := exists_addMethod hid hfirst
    have hrest : next.added.rva.toNat + next.added.data.size + (n + 3) * ids.length < 2 ^ 32 := by
      rw [hrva]
      omega
    obtain ⟨state, hstate, hall⟩ := ih hids hrest
    refine ⟨state, Result.foldlM_cons_eq_ok.mpr ⟨next, hnext, hstate⟩, ?_⟩
    rw [hall, hrows, List.map_append, List.append_assoc]
    rfl

end Output

namespace MethodPlan

variable {image : Image} {ts : Tables} {addedRow : Nat → Result Row}

/-- The plan of an image can be applied once its added methods have rows. -/
lemma exists_apply (himage : image.Arranged)
    (hcount : ts.count .methodDef = image.metadata.tables.count .methodDef)
    (hadded : ∀ id ∈ (ofImage image).added.map Prod.snd, ∃ row, addedRow id = .ok row) :
    ∃ after, (ofImage image).apply ts addedRow = .ok after := by
  have hrows : ∃ rows, (ofImage image).newRows ts addedRow = .ok rows := by
    refine Result.exists_mapM fun planned hplanned => ?_
    cases planned with
    | existing rid =>
      have hold : rid ∈ (ofImage image).rows.toList.filterMap PlannedMethod.old? :=
        List.mem_filterMap.mpr ⟨_, hplanned, rfl⟩
      rw [(ofImage_olds himage).1, List.mem_range'_1, ← hcount] at hold
      have hlt : rid - 1 < (ts.table .methodDef).size := by
        rw [← Tables.count]
        omega
      have hrow : ts.row? .methodDef rid = some (ts.table .methodDef)[rid - 1] :=
        Tables.row?_eq_some.mpr ⟨hold.1, Array.getElem?_eq_getElem hlt⟩
      simp only [hrow, Except.ok.injEq, exists_eq']
    | added method =>
      rw [map_snd_added] at hadded
      exact hadded method (List.mem_filterMap.mpr ⟨_, hplanned, rfl⟩)
  obtain ⟨rows, hrows⟩ := hrows
  exact ⟨_, Result.bind_eq_ok.mpr ⟨rows, hrows, rfl⟩⟩

end MethodPlan

/-- Tables that no flag says to sort stay as they are. -/
lemma TablePair.sorted_of_unsorted {pair : TablePair} (h : ∀ t, pair.image.isSorted t = false)
    (hsymbols : pair.symbols = none) : pair.sorted = .ok pair := by
  have hsort (list : List TableId) : sortImage list pair = (pair, none) := by
    induction list with
    | nil => rfl
    | cons t rest ih => rw [sortImage, h, if_neg (by decide), ih]
  rw [sorted, sort, hsort]
  simp only [hsymbols]

namespace Output

open MethodPlan

variable {image : Image} {metadata : Metadata} {tables : Tables} {rows : List (Nat × Row)}

/-- What has rows can be arranged where no table is to be sorted. -/
lemma exists_arrange (himage : image.Arranged) (hsame : metadata.tables = image.metadata.tables)
    (hrenumbered : metadata.tables.renumbered (ofImage image).rids = .ok tables)
    (hunsorted : ∀ t, metadata.tables.isSorted t = false)
    (hrows : rows.map Prod.fst = (ofImage image).added.map Prod.snd) :
    ∃ after, arrange (ofImage image) rows metadata none = .ok (after, none) := by
  have hadded : ∀ id ∈ (ofImage image).added.map Prod.snd, ∃ row, addedRow rows id = .ok row := by
    intro id hid
    rw [← hrows] at hid
    obtain ⟨p, hp, rfl⟩ := List.mem_map.mp hid
    obtain ⟨row, hrow⟩ := Option.isSome_iff_exists.mp
      (List.lookup_isSome_iff.mpr ⟨p, hp, beq_self_eq_true _⟩)
    exact ⟨row, by rw [addedRow, hrow]⟩
  -- whether or not the plan leaves all rows where they are
  have hrenumber : ∃ ts, renumber (ofImage image) metadata none =
      .ok ({ metadata with tables := ts }, none) ∧
      (∀ t, ts.count t = metadata.tables.count t) ∧ ∀ t, ts.isSorted t = false := by
    unfold renumber
    split
    · exact ⟨metadata.tables, rfl, fun _ => rfl, hunsorted⟩
    · have hfollowed := Tables.Followed.of_renumbered hrenumbered
      refine ⟨tables, by rw [hrenumbered]; rfl, hfollowed.count, fun t => ?_⟩
      rw [Tables.isSorted, hfollowed.header]
      exact hunsorted t
  obtain ⟨ts, hrenumber, hcount, hflags⟩ := hrenumber
  obtain ⟨applied, happly⟩ := exists_apply himage (by rw [hcount, hsame]) hadded
  have hsorted : (TablePair.mk applied none).sorted = .ok ⟨applied, none⟩ := by
    refine TablePair.sorted_of_unsorted (fun t => ?_) rfl
    obtain ⟨_, _, rfl⟩ := apply_eq_ok happly
    exact hflags t
  refine ⟨{ metadata with tables := applied }, ?_⟩
  unfold arrange
  simp only [hrenumber, Result.ok_bind, happly, Option.map_none, hsorted]

end Output

end CliImage
