import CliImage.Proofs.Image.Prepared
import CliImage.Proofs.Metadata.RoundTrip
import CliImage.Proofs.Output.Stages
import CliImage.Proofs.Renumber.Shape
import CliImage.Proofs.Symbols.Portable
import CliImage.Proofs.Symbols.Stepping

/-! What an output makes of the metadata of its image and of the PDB can be written and read again,
with as many method rows as are planned. -/

namespace CliImage

namespace Metadata

variable {before between after : Metadata}

/-- The streams and the identity of a PDB are the same, and what is formed stays formed. -/
structure Kept (before after : Metadata) : Prop where
  root : after.root = before.root
  slots : after.slots = before.slots
  identity : after.pdb.map (fun pdb => (pdb.id, pdb.referenced)) =
    before.pdb.map fun pdb => (pdb.id, pdb.referenced)
  formed : before.Formed → after.Formed

lemma Kept.refl (m : Metadata) : Kept m m := ⟨rfl, rfl, rfl, id⟩

lemma Kept.trans (h : Kept before between) (h' : Kept between after) : Kept before after :=
  ⟨h'.root.trans h.root, h'.slots.trans h.slots, h'.identity.trans h.identity,
    fun hformed => h'.formed (h.formed hformed)⟩

lemma Edited.pdb_eq (h : before.Edited after) : after.pdb = before.pdb := by
  induction h with
  | refl => rfl
  | internString _ _ ih => exact ih
  | internBlob _ _ ih => exact ih
  | push _ _ ih => exact ih
  | insert _ _ ih => exact ih
  | setCell _ _ _ _ _ ih => exact ih

lemma Edited.kept (h : before.Edited after) : Kept before after :=
  ⟨h.root_eq.1, h.root_eq.2, by rw [h.pdb_eq], h.formed⟩

lemma Kept.tables {tables : Tables} (h : before.tables.Formed → tables.Formed) :
    Kept before { before with tables } :=
  ⟨rfl, rfl, rfl, fun hformed => { hformed with tables := h hformed.tables }⟩

lemma Kept.pdb {f : PdbHeader → PdbHeader} (hid : ∀ pdb, (f pdb).id = pdb.id)
    (hreferenced : ∀ pdb, (f pdb).referenced = pdb.referenced)
    (hformed : ∀ pdb, pdb.Formed → (f pdb).Formed) :
    Kept before { before with pdb := before.pdb.map f } := by
  refine ⟨rfl, rfl, ?_, fun h => { h with pdb_mem := ?_, pdb := fun header hheader => ?_ }⟩
  · rw [Option.map_map]
    congr 1
    funext pdb
    exact Prod.ext (hid pdb) (hreferenced pdb)
  · rw [Option.isSome_map]
    exact h.pdb_mem
  · obtain ⟨pdb, hpdb, rfl⟩ := Option.map_eq_some_iff.mp hheader
    exact hformed pdb (h.pdb pdb hpdb)

end Metadata

namespace MethodPlan

variable {image : Image}

/-- A plan that changes nothing has a row for each old one. -/
lemma size_rows_of_isUnchanged (himage : image.Arranged) (h : (ofImage image).isUnchanged = true) :
    (ofImage image).rows.size = image.metadata.tables.count .methodDef := by
  rw [isUnchanged, Bool.and_eq_true, List.isEmpty_iff, added, List.filterMap_eq_nil_iff] at h
  have holds := congrArg List.length (ofImage_olds himage).1
  rw [List.length_range', List.filterMap_length_eq_length.mpr, Array.length_toList] at holds
  · exact holds
  · intro planned hplanned
    obtain ⟨i, hi, rfl⟩ := List.getElem_of_mem hplanned
    have hnone := h.1 ((ofImage image).rows.toList[i], i)
      (List.mem_zipIdx_iff_getElem?.mpr (List.getElem?_eq_getElem hi))
    cases hplanned : (ofImage image).rows.toList[i] with
    | existing rid => rfl
    | added method =>
      rw [hplanned] at hnone
      cases hnone

end MethodPlan

namespace Metadata

variable {m after : Metadata} {plan : MethodPlan} {rids : RidMap}

lemma renumberStepping_eq_ok {rid : Nat} {changed : Bool}
    (h : renumberStepping rids m rid = .ok (after, changed)) :
    m.Edited after ∧ (∀ t, after.tables.count t = m.tables.count t) ∧
      ∀ t, t ≠ .customDebugInformation → after.tables.table t = m.tables.table t := by
  cases renumbersRow_of_renumberStepping h with
  | other | empty | same => exact ⟨.refl, fun _ => rfl, fun _ _ => rfl⟩
  | renumbered _ _ _ _ _ hintern =>
    exact ⟨.setCell .customDebugInformation rid 2 _ (.internBlob .refl hintern),
      fun t => Tables.count_setCell .., fun t ht => Tables.table_setCell_of_ne ht ..⟩

lemma Edited.trans {between : Metadata} (h : m.Edited between) (h' : between.Edited after) :
    m.Edited after := by
  induction h' with
  | refl => exact h
  | internString text _ ih => exact .internString text ih
  | internBlob _ hintern ih => exact .internBlob ih hintern
  | push _ hpush ih => exact .push ih hpush
  | insert _ hinsert ih => exact .insert ih hinsert
  | setCell t rid column value _ ih => exact .setCell t rid column value ih

/-- Stepping information is edited in place. -/
lemma renumberAllStepping_eq_ok {n : Nat} (h : renumberAllStepping rids m = .ok (after, n)) :
    m.Edited after ∧ (∀ t, after.tables.count t = m.tables.count t) ∧
      ∀ t, t ≠ .customDebugInformation → after.tables.table t = m.tables.table t := by
  unfold renumberAllStepping at h
  generalize List.range' 1 (m.tables.count .customDebugInformation) = rows at h
  generalize hstart : (m, 0) = state at h
  obtain rfl : m = state.1 := congrArg Prod.fst hstart
  clear hstart
  induction rows generalizing state with
  | nil =>
    cases h
    exact ⟨.refl, fun _ => rfl, fun _ _ => rfl⟩
  | cons rid rows ih =>
    obtain ⟨next, hnext, hrest⟩ := Result.foldlM_cons_eq_ok.mp h
    obtain ⟨⟨between, changed⟩, hstep, hnext⟩ := Result.bind_eq_ok.mp hnext
    cases hnext
    obtain ⟨hedited, hcount, htable⟩ := renumberStepping_eq_ok hstep
    obtain ⟨hedited', hcount', htable'⟩ := ih _ hrest
    exact ⟨hedited.trans hedited', fun t => (hcount' t).trans (hcount t),
      fun t ht => (htable' t ht).trans (htable t ht)⟩

lemma planDebugRows_eq_ok {ts tables : Tables} (h : planDebugRows plan ts = .ok tables) :
    (ts.Formed → tables.Formed) ∧ tables.count .methodDebugInformation =
      if ts.count .methodDebugInformation = 0 then 0 else plan.rows.size := by
  unfold planDebugRows at h
  split at h
  · rename_i hnone
    cases h
    exact ⟨id, by rw [if_pos hnone, hnone]⟩
  · rename_i hsome
    obtain ⟨rows, hrows, h⟩ := Result.bind_eq_ok.mp h
    cases h
    refine ⟨fun hformed => hformed.setTable fun row hrow => ?_, ?_⟩
    · refine Result.forall_of_mapM
        (p := fun row => row.size = TableId.methodDebugInformation.columns.length)
        (fun planned row hrow => ?_) hrows row (List.mem_toArray.mp hrow)
      cases planned with
      | added method =>
        cases hrow
        rfl
      | existing rid =>
        simp only at hrow
        split at hrow
        · rename_i hfound
          cases hrow
          obtain ⟨-, hget⟩ := Tables.row?_eq_some.mp hfound
          exact hformed.width _ _ (Array.mem_of_getElem? hget)
        · cases hrow
    · rw [if_neg hsome, Tables.count_setTable_self, List.size_toArray,
        (Result.mapM_eq_ok.mp hrows).length_eq.symm, Array.length_toList]

/-- The PDB keeps in step with the planned rows. -/
lemma renumberMethods_eq_ok (h : m.renumberMethods plan = .ok after) :
    Kept m after ∧ DebugRows plan.rows.size after := by
  obtain ⟨planned, hplanned, h⟩ := Result.bind_eq_ok.mp h
  obtain ⟨tables, htables, h⟩ := Result.bind_eq_ok.mp h
  obtain ⟨⟨stepped, n⟩, hstepped, h⟩ := Result.bind_eq_ok.mp h
  cases h
  obtain ⟨hformed, hcount⟩ := planDebugRows_eq_ok hplanned
  have hreshaped := Tables.Reshaped.of_renumbered htables
  obtain ⟨hedited, hsame, -⟩ := renumberAllStepping_eq_ok hstepped
  refine ⟨(Kept.tables fun h => hreshaped.formed (hformed h)).trans (hedited.kept.trans
    (Kept.pdb (fun _ => rfl) (fun _ => rfl) fun _ => id)), ?_⟩
  have htotal : stepped.tables.count .methodDebugInformation =
      if m.tables.count .methodDebugInformation = 0 then 0 else plan.rows.size := by
    rw [hsame, hreshaped.count, hcount]
  rw [DebugRows, htotal]
  split
  · exact .inl rfl
  · exact .inr rfl

end Metadata

namespace Output

open Metadata (Kept DebugRows)

variable {image : Image} {plan : MethodPlan} {key : Option KeyPair} {metadata after : Metadata}
  {pdb pdb' : Option Metadata}

lemma debugRows_of_parsed {data : Bytes} {symbols : Symbols} (h : image.Parsed data)
    (hsymbols : image.symbols = some symbols) :
    Metadata.DebugRows (image.metadata.tables.count .methodDef) symbols.metadata := by
  obtain ⟨_, _, hattached⟩ := h.symbols symbols hsymbols
  obtain ⟨-, m, _, -, -, -, -, hrows, rfl⟩ :=
    Symbols.parse_eq_ok.mp (Result.mapError_eq_ok.mp hattached)
  exact hrows

lemma addMethod_eq_ok {before state : AddedState} {id : Nat}
    (h : addMethod image plan before id = .ok state) :
    before.metadata.Edited state.metadata ∧ state.metadata.tables = before.metadata.tables ∧
      ∃ row, row.size = TableId.methodDef.columns.length ∧
        state.rows = before.rows ++ [(id, row)] := by
  unfold addMethod at h
  split at h
  · split at h
    · obtain ⟨⟨rva, added⟩, -, h⟩ := Result.bind_eq_ok.mp h
      obtain ⟨⟨blobs, blob⟩, hintern, h⟩ := Result.bind_eq_ok.mp h
      cases h
      exact ⟨.internBlob (.internString _ .refl) hintern, rfl, _, rfl, rfl⟩
    · cases h
  · cases h

/-- Adding methods fills the heaps and makes a full row for each. -/
lemma addMethods_eq_ok {ids : List Nat} {before state : AddedState}
    (h : ids.foldlM (addMethod image plan) before = .ok state)
    (hrows : ∀ p ∈ before.rows, p.2.size = TableId.methodDef.columns.length) :
    before.metadata.Edited state.metadata ∧ state.metadata.tables = before.metadata.tables ∧
      ∀ p ∈ state.rows, p.2.size = TableId.methodDef.columns.length := by
  induction ids generalizing before with
  | nil =>
    cases h
    exact ⟨.refl, rfl, hrows⟩
  | cons id ids ih =>
    obtain ⟨next, hnext, hrest⟩ := Result.foldlM_cons_eq_ok.mp h
    obtain ⟨hedited, htables, row, hsize, hnew⟩ := addMethod_eq_ok hnext
    obtain ⟨hedited', htables', hall⟩ := ih hrest fun p hp => by
      rw [hnew] at hp
      rcases List.mem_append.mp hp with hp | hp
      · exact hrows p hp
      · rwa [List.mem_singleton.mp hp]
    exact ⟨hedited.trans hedited', htables'.trans htables, hall⟩

lemma size_of_addedRow {rows : List (Nat × Row)} {id : Nat} {row : Row} {width : Nat}
    (hrows : ∀ p ∈ rows, p.2.size = width) (h : addedRow rows id = .ok row) : row.size = width := by
  unfold addedRow at h
  split at h
  · rename_i hfound
    cases h
    obtain ⟨front, back, rfl, -⟩ := List.lookup_eq_some_iff.mp hfound
    exact hrows _ (List.mem_append_right _ (List.mem_cons_self ..))
  · cases h

/-- How the PDB of an output comes from that of the image. -/
def InStep (methods : Nat) : Option Metadata → Option Metadata → Prop
  | none, none => True
  | some before, some after => Kept before after ∧ DebugRows methods after
  | _, _ => False

lemma renumber_eq_ok (h : renumber plan metadata pdb = .ok (after, pdb')) {old : Nat}
    (hplan : plan.isUnchanged = true → plan.rows.size = old)
    (hrows : ∀ m, pdb = some m → DebugRows old m) :
    Kept metadata after ∧ InStep plan.rows.size pdb pdb' := by
  unfold renumber at h
  split at h
  · rename_i hunchanged
    cases h
    refine ⟨Kept.refl _, ?_⟩
    cases pdb with
    | none => trivial
    | some m => exact ⟨Kept.refl m, by rw [hplan hunchanged]; exact hrows m rfl⟩
  · obtain ⟨tables, htables, h⟩ := Result.bind_eq_ok.mp h
    have hkept : Kept metadata { metadata with tables } :=
      Kept.tables (Tables.Reshaped.of_renumbered htables).formed
    cases pdb with
    | none =>
      cases h
      exact ⟨hkept, trivial⟩
    | some m =>
      obtain ⟨m', hm, h⟩ := Result.bind_eq_ok.mp h
      cases h
      exact ⟨hkept, Metadata.renumberMethods_eq_ok hm⟩

/-- The metadata that is written has a row for each planned method, and so has the PDB. -/
lemma arrange_eq_ok {rows : List (Nat × Row)}
    (h : arrange plan rows metadata pdb = .ok (after, pdb')) {old : Nat}
    (hplan : plan.isUnchanged = true → plan.rows.size = old)
    (hrows : ∀ p ∈ rows, p.2.size = TableId.methodDef.columns.length)
    (hdebug : ∀ m, pdb = some m → DebugRows old m) :
    Kept metadata after ∧ after.tables.count .methodDef = plan.rows.size ∧
      InStep plan.rows.size pdb pdb' := by
  obtain ⟨⟨renumbered, between⟩, hrenumber, h⟩ := Result.bind_eq_ok.mp h
  obtain ⟨tables, happly, h⟩ := Result.bind_eq_ok.mp h
  obtain ⟨pair, hsorted, h⟩ := Result.bind_eq_ok.mp h
  cases h
  obtain ⟨hkept, hstep⟩ := renumber_eq_ok hrenumber hplan hdebug
  obtain ⟨himage, hsymbols⟩ := TablePair.reshaped_of_sorted hsorted
  refine ⟨hkept.trans ((Kept.tables fun hformed => himage.formed (MethodPlan.formed_of_apply
    (fun id row => size_of_addedRow hrows) happly hformed))), ?_, ?_⟩
  · rw [himage.count, MethodPlan.count_of_apply happly, if_pos rfl]
  · cases pdb with
    | none =>
      cases between with
      | none => trivial
      | some m => cases hstep
    | some m =>
      cases between with
      | none => cases hstep
      | some m' =>
        cases hpair : pair.symbols with
        | none =>
          rw [hpair] at hsymbols
          cases hsymbols
        | some ts =>
          rw [hpair] at hsymbols
          have hreshaped : Tables.Reshaped m'.tables ts := hsymbols
          obtain ⟨hkept', hdebug'⟩ := hstep
          refine ⟨hkept'.trans (Kept.tables hreshaped.formed), ?_⟩
          rw [DebugRows, hreshaped.count]
          exact hdebug'

lemma storeKey?_kept {cli : CliHeader} {stored : Metadata × CliHeader}
    (h : storeKey? metadata cli key = .ok stored) :
    Kept metadata stored.1 ∧ ∀ t, stored.1.tables.count t = metadata.tables.count t := by
  unfold storeKey? at h
  split at h
  · obtain ⟨after, hstore, h⟩ := Result.bind_eq_ok.mp h
    cases h
    unfold storeKey at hstore
    split at hstore
    · rename_i row _
      obtain ⟨⟨blobs, index⟩, hintern, hstore⟩ := Result.bind_eq_ok.mp hstore
      cases hstore
      refine ⟨Metadata.Edited.kept (.setCell .assembly 1 5 _ (.setCell .assembly 1 6 _
        (.internBlob .refl hintern))), fun t => ?_⟩
      rw [Tables.count_setCell, Tables.count_setCell]
    · cases hstore
  · cases h
    exact ⟨Kept.refl _, fun _ => rfl⟩

variable {s : Stages}

/-- What is written of image and PDB is what was read with the planned method rows. -/
lemma Stages.Start.kept (h : s.Start image key) (himage : image.Arranged)
    (hdebug : ∀ symbols, image.symbols = some symbols →
      DebugRows (image.metadata.tables.count .methodDef) symbols.metadata) :
    Kept image.metadata s.stored.1 ∧
      s.stored.1.tables.count .methodDef = (MethodPlan.ofImage image).rows.size ∧
      InStep (MethodPlan.ofImage image).rows.size (image.symbols.map Symbols.metadata)
        s.arranged.2 := by
  obtain ⟨hadded, -, hrows⟩ := addMethods_eq_ok h.rowed (by simp)
  obtain ⟨harranged, hcount, hstep⟩ := arrange_eq_ok h.arranged
    (MethodPlan.size_rows_of_isUnchanged himage) hrows fun m hm => by
      obtain ⟨symbols, hsymbols, rfl⟩ := Option.map_eq_some_iff.mp hm
      exact hdebug symbols hsymbols
  obtain ⟨hstored, hsame⟩ := storeKey?_kept h.stored
  exact ⟨hadded.kept.trans (harranged.trans hstored), (hsame _).trans hcount, hstep⟩

/-- The metadata that is written reads back with its row counts. -/
theorem Stages.Start.read_encoded (h : s.Start image key) (hkept : Kept image.metadata s.stored.1)
    (hformed : image.metadata.Formed) (hversion : image.metadata.root.versionBytes.size % 4 = 0)
    (hslots : image.metadata.slots.length < 2 ^ 16) (hfit : s.encoded.1.size < 2 ^ 32) :
    ∃ again, Metadata.read s.encoded.1 = .ok again ∧
      again.root.versionBytes = image.metadata.root.versionBytes ∧
      again.isPdb = image.metadata.isPdb ∧
      (∀ t, again.tables.count t = s.encoded.2.tables.count t) ∧
      ∀ t, again.tables.count t = s.stored.1.tables.count t := by
  have hstored := hkept.formed hformed
  obtain ⟨_, _, -, hwritten, -, -⟩ := Metadata.encode_eq_ok hstored h.encoded
  refine ⟨_, Metadata.read_of_encode hstored (by rwa [hkept.root]) (by rwa [hkept.slots]) h.encoded
    hfit, ?_, ?_, fun t => rfl, fun t => ?_⟩
  · rw [hwritten, ← hkept.root]
    rfl
  · have hpdb := congrArg Option.isSome hkept.identity
    rw [Option.isSome_map, Option.isSome_map] at hpdb
    rw [hwritten]
    exact hpdb
  · rw [hwritten]
    rfl

end Output

end CliImage
