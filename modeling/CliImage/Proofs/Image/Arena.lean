import CliImage.Image.Read
import CliImage.Proofs.Result
import Mathlib.Tactic.SplitIfs

/-! The arena of an image: the methods of the table first, each at its row, then those that were
added; a type owns a run of the former and some of the latter. -/

namespace CliImage

namespace Tables

lemma run_eq_ok {ts : Tables} {owner target : TableId} {column rid start stop : Nat}
    (h : ts.run owner column rid target = .ok (start, stop)) :
    (∃ first, ts.cell owner rid column = .ok first ∧ first.toNat = start) ∧
      (if rid < ts.count owner then
        ∃ next, ts.cell owner (rid + 1) column = .ok next ∧ next.toNat = stop
      else stop = ts.count target + 1) ∧
      1 ≤ start ∧ start ≤ stop ∧ stop ≤ ts.count target + 1 := by
  unfold run at h
  by_cases hlt : rid < ts.count owner
  · simp only [hlt, if_true, Result.bind_eq_ok, Result.unless_throw_eq_ok, Result.map_eq_ok] at h
    obtain ⟨first, hfirst, _, ⟨next, hnext, rfl⟩, hrange, h⟩ := h
    cases h
    exact ⟨⟨first, hfirst, rfl⟩, by simp [hlt, hnext], by omega, by omega, by omega⟩
  · simp only [hlt, if_false, Result.bind_eq_ok, Result.unless_throw_eq_ok, Result.pure_eq,
      Result.ok_bind] at h
    obtain ⟨first, hfirst, hrange, h⟩ := h
    cases h
    exact ⟨⟨first, hfirst, rfl⟩, by simp [hlt], by omega, by omega, by omega⟩

lemma cell_eq_ok {ts : Tables} {t : TableId} {rid column : Nat} {value : UInt32} :
    ts.cell t rid column = .ok value ↔
      1 ≤ rid ∧ ∃ row, (ts.table t)[rid - 1]? = some row ∧ row[column]? = some value := by
  unfold cell row?
  by_cases hr : rid = 0
  · simp [hr]
  · cases hrow : (ts.table t)[rid - 1]? with
    | none => simp [hr]
    | some row =>
      have : 1 ≤ rid := by omega
      cases hc : row[column]? <;> simp [hr, hc, this]

lemma lt_count_of_cell {ts : Tables} {t : TableId} {rid column : Nat} {value : UInt32}
    (h : ts.cell t rid column = .ok value) : rid - 1 < ts.count t := by
  obtain ⟨_, row, hrow, _⟩ := cell_eq_ok.mp h
  exact (Array.getElem?_eq_some_iff.mp hrow).1

end Tables

namespace Image

/-- The images that one becomes as methods are added to its types. -/
inductive Grown (image : Image) : Image → Prop
  | refl : Grown image image
  | add {before after : Image} {type id : Nat} {method : Method} : Grown image before →
      method.rid = none → before.addMethod type method = .ok (after, id) → Grown image after

/-- The first old row of the type at a place, and behind the last type the end of the rows. -/
def firstOld (image : Image) (i : Nat) : Nat :=
  match image.metadata.tables.run .typeDef 5 (i + 1) .methodDef with
  | .ok (start, _) => start
  | .error _ => image.metadata.tables.count .methodDef + 1

/-- The places of the old rows of the type at a place. -/
def oldMethods (image : Image) (i : Nat) : List Nat :=
  List.range' (image.firstOld i - 1) (image.firstOld (i + 1) - image.firstOld i)

/-- There is a type for each row, and each row's run can be read. -/
structure HasRuns (image : Image) : Prop where
  size_types : image.types.size = image.metadata.tables.count .typeDef
  run_eq : ∀ i < image.types.size,
    ∃ stop, image.metadata.tables.run .typeDef 5 (i + 1) .methodDef = .ok (image.firstOld i, stop)

structure Arranged (image : Image) : Prop extends image.HasRuns where
  rid_eq : ∀ j < image.metadata.tables.count .methodDef,
    (image.methods[j]?).bind Method.rid = some (j + 1)
  rid_eq_none : ∀ j, image.metadata.tables.count .methodDef ≤ j →
    (image.methods[j]?).bind Method.rid = none
  methods_eq : ∀ i t, image.types[i]? = some t → ∃ added : List Nat,
    t.methods.toList = image.oldMethods i ++ added ∧
      ∀ j ∈ added, image.metadata.tables.count .methodDef ≤ j

lemma readRows_eq_ok {α : Type} {read : Nat → Result α} {left rid : Nat} {done rows : Array α}
    (h : readRows read left rid done = .ok rows) :
    rows.size = done.size + left ∧ (∀ i < done.size, rows[i]? = done[i]?) ∧
      ∀ i < left, ∃ a, read (rid + i) = .ok a ∧ rows[done.size + i]? = some a := by
  induction left generalizing rid done with
  | zero =>
    cases h
    exact ⟨rfl, fun _ _ => rfl, fun _ hi => absurd hi (by omega)⟩
  | succ left ih =>
    rw [readRows] at h
    split at h
    · rename_i a ha
      obtain ⟨hsize, hold, hnew⟩ := ih h
      rw [Array.size_push] at hsize hold hnew
      refine ⟨by omega, fun i hi => ?_, fun i hi => ?_⟩
      · rw [hold i (by omega), Array.getElem?_push_lt hi, Array.getElem?_eq_getElem hi]
      · cases i with
        | zero => exact ⟨a, ha, by rw [hold _ (by omega)]; simp⟩
        | succ i =>
          obtain ⟨b, hb, hrow⟩ := hnew i (by omega)
          refine ⟨b, ?_, ?_⟩
          · rwa [show rid + (i + 1) = rid + 1 + i by omega]
          · rwa [show done.size + (i + 1) = done.size + 1 + i by omega]
    · cases h

lemma readRows_empty {α : Type} {read : Nat → Result α} {left : Nat} {rows : Array α}
    (h : readRows read left 1 #[] = .ok rows) :
    rows.size = left ∧ ∀ i < left, ∃ a, read (i + 1) = .ok a ∧ rows[i]? = some a := by
  obtain ⟨hsize, _, hrows⟩ := readRows_eq_ok h
  refine ⟨by simpa using hsize, fun i hi => ?_⟩
  obtain ⟨a, ha, hrow⟩ := hrows i hi
  exact ⟨a, by rwa [Nat.add_comm], by simpa using hrow⟩

/-- The parts that an image is read from. -/
lemma read_eq_ok {id : Nat} {data : Bytes} {image : Image} (h : read id data = .ok image) :
    PeFile.read data = .ok image.file ∧ image.id = id ∧ image.symbols = none ∧
      image.path = none ∧
      (∃ bytes, image.file.slice image.file.cli.rva.toNat CliHeader.encodedSize = .ok bytes ∧
        CliHeader.read bytes = .ok image.cli) ∧
      (∃ bytes, image.file.slice image.cli.metadata.rva.toNat image.cli.metadata.size.toNat =
        .ok bytes ∧ Metadata.read bytes = .ok image.metadata) ∧
      image.metadata.isPdb = false ∧
      readRows (image.file.readMethod image.metadata)
        (image.metadata.tables.count .methodDef) 1 #[] = .ok image.methods ∧
      readRows image.metadata.readType (image.metadata.tables.count .typeDef) 1 #[] =
        .ok image.types := by
  rw [read, Result.mapError_eq_ok, Result.bind_eq_ok] at h
  obtain ⟨file, hfile, h⟩ := h
  simp only [parse, Result.bind_eq_ok, Result.unless_throw_eq_ok] at h
  obtain ⟨header, hheader, cli, hcli, bytes, hbytes, metadata, hmetadata, hpdb, methods, hmethods,
    types, htypes, h⟩ := h
  cases h
  exact ⟨hfile, rfl, rfl, rfl, ⟨header, hheader, hcli⟩, ⟨bytes, hbytes, hmetadata⟩,
    by simpa using hpdb, hmethods, htypes⟩

lemma HasRuns.run_next {image : Image} (h : image.HasRuns) {i : Nat}
    (hi : i < image.types.size) :
    image.metadata.tables.run .typeDef 5 (i + 1) .methodDef =
        .ok (image.firstOld i, image.firstOld (i + 1)) ∧
      1 ≤ image.firstOld i ∧ image.firstOld i ≤ image.firstOld (i + 1) ∧
      image.firstOld (i + 1) ≤ image.metadata.tables.count .methodDef + 1 := by
  obtain ⟨stop, hrun⟩ := h.run_eq i hi
  obtain ⟨_, hnext, hpos, hle, hstop⟩ := Tables.run_eq_ok hrun
  have hfirst : image.firstOld (i + 1) = stop := by
    split_ifs at hnext with hlt
    · obtain ⟨next, hcell, rfl⟩ := hnext
      obtain ⟨stop', hrun'⟩ := h.run_eq (i + 1) (by rw [h.size_types]; exact hlt)
      obtain ⟨⟨first, hcell', heq⟩, _⟩ := Tables.run_eq_ok hrun'
      rw [hcell] at hcell'
      cases hcell'
      exact heq.symm
    · have hsize := h.size_types
      rw [firstOld]
      split
      · rename_i start stop' hrun'
        obtain ⟨⟨first, hcell, _⟩, _⟩ := Tables.run_eq_ok hrun'
        have := Tables.lt_count_of_cell hcell
        omega
      · exact hnext.symm
  subst hfirst
  exact ⟨hrun, hpos, hle, hstop⟩

lemma HasRuns.firstOld_end {image : Image} (h : image.HasRuns) :
    image.firstOld image.types.size = image.metadata.tables.count .methodDef + 1 := by
  rw [firstOld]
  split
  · rename_i start stop hrun
    obtain ⟨⟨first, hcell, _⟩, _⟩ := Tables.run_eq_ok hrun
    have := Tables.lt_count_of_cell hcell
    have := h.size_types
    omega
  · rfl

lemma HasRuns.firstOld_pos {image : Image} (h : image.HasRuns) {i : Nat}
    (hi : i ≤ image.types.size) : 1 ≤ image.firstOld i := by
  rcases Nat.lt_or_eq_of_le hi with hlt | rfl
  · exact (h.run_next hlt).2.1
  · rw [h.firstOld_end]
    omega

lemma HasRuns.firstOld_mono {image : Image} (h : image.HasRuns) {i : Nat}
    (hi : i ≤ image.types.size) : image.firstOld 0 ≤ image.firstOld i := by
  induction i with
  | zero => exact le_rfl
  | succ i ih =>
    have := h.run_next hi
    have := ih (by omega)
    omega

lemma HasRuns.firstOld_le {image : Image} (h : image.HasRuns) {i : Nat}
    (hi : i ≤ image.types.size) :
    image.firstOld i ≤ image.metadata.tables.count .methodDef + 1 := by
  rcases Nat.lt_or_eq_of_le hi with hlt | rfl
  · have := h.run_next hlt
    omega
  · exact Nat.le_of_eq h.firstOld_end

lemma rid_of_readMethod {file : PeFile} {m : Metadata} {rid : Nat} {method : Method}
    (h : file.readMethod m rid = .ok method) : method.rid = some rid := by
  simp only [PeFile.readMethod, Result.bind_eq_ok] at h
  obtain ⟨_, _, _, _, _, _, _, _, _, _, _, _, _, _, _, _, _, _, _, _, h⟩ := h
  cases h
  rfl

lemma params_of_readMethod {file : PeFile} {m : Metadata} {rid : Nat} {method : Method}
    (h : file.readMethod m rid = .ok method) :
    ∃ start stop, m.tables.run .methodDef 5 rid .param = .ok (start, stop) := by
  simp only [PeFile.readMethod, Result.bind_eq_ok] at h
  obtain ⟨_, _, _, _, _, _, _, _, _, _, _, _, ⟨start, stop⟩, hrun, _⟩ := h
  exact ⟨start, stop, hrun⟩

lemma readBody_of_readMethod {file : PeFile} {m : Metadata} {rid : Nat} {method : Method}
    (h : file.readMethod m rid = .ok method) :
    file.readBody method.rva method.implFlags = .ok (method.body, method.instructions) := by
  simp only [PeFile.readMethod, Result.bind_eq_ok] at h
  obtain ⟨_, _, _, _, _, _, _, _, _, _, _, _, _, _, _, _, ⟨_, _⟩, hbody, _, _, h⟩ := h
  cases h
  exact Result.mapError_eq_ok.mp hbody

lemma methods_of_readType {m : Metadata} {rid : Nat} {t : TypeDef}
    (h : m.readType rid = .ok t) :
    ∃ start stop, m.tables.run .typeDef 5 rid .methodDef = .ok (start, stop) ∧
      t.methods = (List.range' (start - 1) (stop - start)).toArray := by
  simp only [Metadata.readType, Result.bind_eq_ok] at h
  obtain ⟨⟨start, stop⟩, hrun, _, _, _, _, _, _, h⟩ := h
  cases h
  exact ⟨start, stop, hrun, rfl⟩

theorem arranged_of_read {id : Nat} {data : Bytes} {image : Image}
    (h : read id data = .ok image) : image.Arranged := by
  obtain ⟨_, _, _, _, _, _, _, hmethods, htypes⟩ := read_eq_ok h
  obtain ⟨hsize, hmethod⟩ := readRows_empty hmethods
  obtain ⟨hcount, htype⟩ := readRows_empty htypes
  have hrun : ∀ i < image.types.size, ∃ stop,
      image.metadata.tables.run .typeDef 5 (i + 1) .methodDef = .ok (image.firstOld i, stop) := by
    intro i hi
    obtain ⟨t, ht, _⟩ := htype i (by omega)
    obtain ⟨start, stop, hrun, _⟩ := methods_of_readType ht
    exact ⟨stop, by rw [firstOld, hrun]⟩
  have hruns : image.HasRuns := ⟨hcount, hrun⟩
  refine ⟨hruns, fun j hj => ?_, fun j hj => ?_, fun i t ht => ?_⟩
  · obtain ⟨m, hm, hj⟩ := hmethod j hj
    simp [hj, rid_of_readMethod hm]
  · rw [Array.getElem?_eq_none (by omega)]
    rfl
  · have hi : i < image.types.size := (Array.getElem?_eq_some_iff.mp ht).1
    obtain ⟨t', ht', heq⟩ := htype i (by omega)
    obtain ⟨start, stop, hr, hmethods⟩ := methods_of_readType ht'
    rw [(hruns.run_next hi).1] at hr
    cases hr
    rw [ht] at heq
    cases heq
    exact ⟨[], by simp [hmethods, oldMethods], by simp⟩

/-- What adding a method does to the methods and the types. -/
lemma addMethod_eq_ok {before after : Image} {type id : Nat} {method : Method}
    (h : before.addMethod type method = .ok (after, id)) :
    type < before.types.size ∧ id = before.methods.size ∧
      after = { before with
        types := before.types.modify type fun t => { t with methods := t.methods.push id }
        methods := before.methods.push method } := by
  unfold addMethod at h
  split at h
  · cases h
    exact ⟨‹_›, rfl, rfl⟩
  · cases h

lemma size_le_of_rid_eq {image : Image} (h : image.Arranged) :
    image.metadata.tables.count .methodDef ≤ image.methods.size := by
  by_contra hlt
  have hj := h.rid_eq image.methods.size (by omega)
  simp at hj

lemma Arranged.add {before after : Image} {type id : Nat} {method : Method}
    (h : before.Arranged) (hrid : method.rid = none)
    (hadd : before.addMethod type method = .ok (after, id)) : after.Arranged := by
  obtain ⟨-, rfl, rfl⟩ := addMethod_eq_ok hadd
  have hle := size_le_of_rid_eq h
  refine ⟨⟨?_, ?_⟩, fun j hj => ?_, fun j hj => ?_, fun i t ht => ?_⟩
  · simpa using h.size_types
  · exact fun i hi => h.run_eq i (by simpa using hi)
  · simpa [Array.getElem?_push_lt (Nat.lt_of_lt_of_le hj hle),
      Array.getElem?_eq_getElem (Nat.lt_of_lt_of_le hj hle)] using h.rid_eq j hj
  · rw [Array.getElem?_push]
    split
    · exact hrid
    · exact h.rid_eq_none j hj
  · rw [Array.getElem?_modify] at ht
    split at ht
    · obtain ⟨t', ht', rfl⟩ := Option.map_eq_some_iff.mp ht
      obtain ⟨added, hmethods, hadded⟩ := h.methods_eq i t' ht'
      refine ⟨added ++ [before.methods.size], ?_, ?_⟩
      · simp only [Array.toList_push, hmethods, List.append_assoc]
        rfl
      · intro j hj
        rcases List.mem_append.mp hj with hj | hj
        · exact hadded j hj
        · rwa [List.mem_singleton.mp hj]
    · exact h.methods_eq i t ht

lemma Grown.metadata_eq {image after : Image} (h : image.Grown after) :
    after.metadata = image.metadata := by
  induction h with
  | refl => rfl
  | add _ _ hadd ih =>
    obtain ⟨-, -, rfl⟩ := addMethod_eq_ok hadd
    exact ih

theorem Grown.arranged {image after : Image} (h : image.Grown after) (himage : image.Arranged) :
    after.Arranged := by
  induction h with
  | refl => exact himage
  | add _ hrid hadd ih => exact ih.add hrid hadd

/-- The places of the added methods, type by type. -/
def addedPlaces (image : Image) : List Nat :=
  image.types.toList.flatMap fun t =>
    t.methods.toList.filter (image.metadata.tables.count .methodDef ≤ ·)

lemma sizes_of_read {id : Nat} {data : Bytes} {image : Image} (h : read id data = .ok image) :
    image.methods.size = image.metadata.tables.count .methodDef ∧ image.addedPlaces = [] := by
  obtain ⟨_, _, _, _, _, _, _, hmethods, htypes⟩ := read_eq_ok h
  obtain ⟨hcount, htype⟩ := readRows_empty htypes
  refine ⟨(readRows_empty hmethods).1, List.flatMap_eq_nil_iff.mpr fun t ht => ?_⟩
  obtain ⟨i, hi, hget⟩ := Array.getElem_of_mem (Array.mem_toList_iff.mp ht)
  obtain ⟨t', ht', hrow⟩ := htype i (by omega)
  obtain ⟨start, stop, hrun, heq⟩ := methods_of_readType ht'
  obtain rfl : t = t' := by
    rw [Array.getElem?_eq_getElem hi, hget] at hrow
    exact Option.some.inj hrow
  obtain ⟨-, -, hpos, hle, hstop⟩ := Tables.run_eq_ok hrun
  refine List.filter_eq_nil_iff.mpr fun j hj => ?_
  rw [heq, List.mem_range'_1] at hj
  simp only [decide_eq_true_eq]
  omega

lemma flatMap_modify_push {α β : Type} {f : α → α} {g : α → List β} {b : β} {xs : List α} {i : Nat}
    (hi : i < xs.length) (hfg : ∀ a, g (f a) = g a ++ [b]) :
    ((xs.modify i f).flatMap g).Perm (xs.flatMap g ++ [b]) := by
  induction xs generalizing i with
  | nil => cases hi
  | cons x xs ih =>
    cases i with
    | zero =>
      rw [List.modify_zero_cons, List.flatMap_cons, List.flatMap_cons, hfg, List.append_assoc,
        List.append_assoc]
      exact List.perm_append_comm.append_left _
    | succ i =>
      rw [List.modify_succ_cons, List.flatMap_cons, List.flatMap_cons, List.append_assoc]
      exact (ih (Nat.lt_of_succ_lt_succ hi)).append_left _

/-- Each added method stands in one type, once. -/
theorem Grown.addedPlaces_perm {id : Nat} {data : Bytes} {image after : Image}
    (hread : read id data = .ok image) (h : image.Grown after) :
    after.addedPlaces.Perm (List.range' (after.metadata.tables.count .methodDef)
      (after.methods.size - after.metadata.tables.count .methodDef)) := by
  induction h with
  | refl =>
    obtain ⟨hsize, hplaces⟩ := sizes_of_read hread
    rw [hplaces, hsize, Nat.sub_self]
    exact .nil
  | @add between _ type _ _ hgrown hrid hadd ih =>
    have hle := size_le_of_rid_eq (hgrown.arranged (arranged_of_read hread))
    obtain ⟨htype, rfl, rfl⟩ := addMethod_eq_ok hadd
    rw [addedPlaces, Array.toList_modify, Array.size_push, Nat.sub_add_comm hle,
      List.range'_1_concat, Nat.add_sub_cancel' hle]
    refine (flatMap_modify_push htype fun t => ?_).trans (ih.append_right _)
    rw [Array.toList_push, List.filter_append, List.filter_cons_of_pos (by simpa using hle)]
    rfl

/-- Without an added method an image is as it was. -/
lemma Grown.eq_of_size {image after : Image} (h : image.Grown after)
    (hsize : after.methods.size ≤ image.methods.size) : after = image := by
  have hle : ∀ {after}, image.Grown after → image.methods.size ≤ after.methods.size := by
    intro after h
    induction h with
    | refl => exact le_rfl
    | add _ _ hadd ih =>
      obtain ⟨-, -, rfl⟩ := addMethod_eq_ok hadd
      rw [Array.size_push]
      omega
  cases h with
  | refl => rfl
  | add hgrown _ hadd =>
    have := hle hgrown
    obtain ⟨-, -, rfl⟩ := addMethod_eq_ok hadd
    rw [Array.size_push] at hsize
    omega

end Image

end CliImage
