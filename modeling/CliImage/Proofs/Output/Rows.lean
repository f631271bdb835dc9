import CliImage.Proofs.Image.Retained
import CliImage.Proofs.Output.Writable
import CliImage.Proofs.Renumber.Params
import CliImage.Proofs.Renumber.Scopes

/-! The tables that are written: types and parameters are those of the image, each type is nested
where it was, and the methods have their planned rows. -/

namespace CliImage

namespace TableId

/-- The cells of a table name only rows of tables that keep their order. -/
def NamesStill (t : TableId) : Prop :=
  ∀ c ∈ t.columns, ∀ s, c.references s = true → s ≠ .methodDef ∧ s.sortKey? = none

lemma namesStill_of_mem {t : TableId}
    (h : t ∈ [typeRef, typeDef, methodDef, param, nestedClass]) : t.NamesStill := by
  have hall : ∀ t ∈ [typeRef, typeDef, methodDef, param, nestedClass], ∀ c ∈ t.columns,
      ∀ s ∈ all, c.references s = true → s ≠ .methodDef ∧ s.sortKey? = none := by decide
  exact fun c hc s => hall t h c hc s (mem_all s)

end TableId

namespace Tables

variable {before after : Tables} {t owner target : TableId} {rid column : Nat}
  {orders : TableId → List Nat} {numbers : RowNumbers} {α : Type} {f : Nat → α}

lemma cell_of_table (h : after.table t = before.table t) :
    after.cell t rid column = before.cell t rid column := by
  rw [cell, row?, h, cell, row?]

lemma run_of_table (howner : after.table owner = before.table owner)
    (htarget : after.count target = before.count target) :
    after.run owner column rid target = before.run owner column rid target := by
  have hrows : after.count owner = before.count owner := congrArg Array.size howner
  rw [run, cell_of_table howner, cell_of_table howner, htarget, hrows, run]

/-- An order that leaves items with equal keys as they stood leaves the first item of each key. -/
lemma find?_of_stable (key : α → Nat) {order : List Nat} {n k : Nat}
    (hperm : order.Perm (List.range n))
    (hstable : order.Pairwise fun i j => key (f i) = key (f j) → i < j) :
    (order.map f).find? (fun a => key a == k) =
      ((List.range n).map f).find? fun a => key a == k := by
  rw [← List.head?_filter, ← List.head?_filter, List.filter_map, List.filter_map]
  congr 2
  refine (hperm.filter _).eq_of_pairwise' (r := (· < ·)) ?_ (List.pairwise_lt_range.filter _)
  refine List.pairwise_filter.mpr (hstable.imp fun {i j} hlt hi hj => hlt ?_)
  simp only [Function.comp_apply, beq_iff_eq] at hi hj
  rw [hi, hj]

lemma SortedAs.numbers_of_still
    (h : SortedAs (·.isDebug = false) orders (newNumbers orders) before after)
    (ht : t.sortKey? = none) : newNumbers orders t = id :=
  newNumbers_of_range (h.kept t (.inr (.inr ht)))

lemma SortedAs.followRow_still
    (h : SortedAs (·.isDebug = false) orders (newNumbers orders) before after) (ht : t.NamesStill)
    (row : Row) : t.followRow (newNumbers orders) row = row :=
  followRow_of_unnamed (fun c hc s hs => h.numbers_of_still (ht c hc s hs).2) row

lemma SortedAs.table_of_still
    (h : SortedAs (·.isDebug = false) orders (newNumbers orders) before after) (ht : t.NamesStill)
    (hkey : t.sortKey? = none) : after.table t = before.table t := by
  rw [h.table_of_range (h.kept t (.inr (.inr hkey))), funext (h.followRow_still ht), Array.map_id']

lemma SortedAs.find?_nestedClass
    (h : SortedAs (·.isDebug = false) orders (newNumbers orders) before after) (rid : Nat) :
    (after.table .nestedClass).find? (fun row => (row.getD 0 0).toNat == rid) =
      (before.table .nestedClass).find? fun row => (row.getD 0 0).toNat == rid := by
  have hrow := h.followRow_still (TableId.namesStill_of_mem (t := .nestedClass) (by simp))
  rw [← Array.find?_toList, ← Array.find?_toList, h.rows, toList_eq_map_range]
  simp only [hrow]
  refine find?_of_stable (fun row : Row => (row.getD 0 0).toNat) (h.perm .nestedClass) ?_
  cases hflag : before.isSorted .nestedClass with
  | false =>
    rw [h.kept _ (.inr (.inl hflag))]
    refine List.pairwise_lt_range.imp ?_
    exact fun hlt _ => hlt
  | true =>
    refine (h.stable .nestedClass rfl hflag _ rfl).imp fun {i j} hlt heq => hlt ?_
    simp only [hrow]
    exact congrArg (fun cell => [cell]) (UInt32.toNat_inj.mp heq)

end Tables

namespace MethodPlan

open Tables

variable {image : Image} {before after : Tables} {addedRow : Nat → Result Row}

lemma getElem?_fillParams (stop : UInt32) {planned : List (PlannedMethod × Row)} {i : Nat}
    {head : PlannedMethod × Row} (h : planned[i]? = some head) :
    ∃ row, (fillParams stop planned).1[i]? = some row ∧
      ∀ column ≠ 5, row[column]? = head.2[column]? := by
  induction planned generalizing i with
  | nil => cases h
  | cons first rest ih =>
    obtain ⟨method, row⟩ := first
    cases i with
    | zero =>
      obtain rfl := Option.some.inj h
      cases method with
      | existing rid => exact ⟨row, rfl, fun _ _ => rfl⟩
      | added id =>
        refine ⟨_, rfl, fun column hcolumn => ?_⟩
        rw [Array.getElem?_setIfInBounds, if_neg hcolumn.symm]
    | succ i =>
      obtain ⟨filled, hfilled, hsame⟩ := ih h
      refine ⟨filled, ?_, hsame⟩
      cases method <;> simpa [fillParams] using hfilled

/-- A row that has been put in a place stands there, but for the run of its parameters. -/
lemma cell_of_apply {plan : MethodPlan} (h : plan.apply before addedRow = .ok after) {p : Nat}
    {planned : PlannedMethod} (hp : plan.rows[p]? = some planned) : ∃ row,
      (∀ rid, planned = .existing rid → before.row? .methodDef rid = some row) ∧
      (∀ id, planned = .added id → addedRow id = .ok row) ∧
      ∀ column ≠ 5, ∀ value, after.cell .methodDef (p + 1) column = .ok value ↔
        row[column]? = some value := by
  obtain ⟨rows, hnew, rfl⟩ := apply_eq_ok h
  obtain ⟨hexisting, hadded, -⟩ := mem_zip_newRows hnew
  have hlength := length_newRows hnew
  have hlt := (Array.getElem?_eq_some_iff.mp hp).1
  obtain ⟨row, hrow⟩ : ∃ row, rows[p]? = some row :=
    ⟨_, List.getElem?_eq_getElem (by omega)⟩
  have hzip : (plan.rows.toList.zip rows)[p]? = some (planned, row) := by
    rw [List.getElem?_zip_eq_some]
    exact ⟨by rwa [Array.getElem?_toList], hrow⟩
  refine ⟨row, ?_, ?_, fun column hcolumn value => ?_⟩
  · rintro rid rfl
    exact hexisting _ _ (List.mem_of_getElem? hzip)
  · rintro id rfl
    exact hadded _ _ (List.mem_of_getElem? hzip)
  · obtain ⟨filled, hfilled, hsame⟩ :=
      getElem?_fillParams (UInt32.ofNat (before.count .param + 1)) hzip
    rw [cell_eq_ok, table_setTable_of_ne _ (by decide), table_setTable_self]
    simp only [Nat.le_add_left, true_and, Nat.add_sub_cancel, List.getElem?_toArray, hfilled,
      Option.some.injEq, exists_eq_left', hsame column hcolumn]

lemma cell_typeDef_of_apply {plan : MethodPlan} (h : plan.apply before addedRow = .ok after)
    (hformed : before.Formed) {i : Nat} (hi : i < before.count .typeDef) {first : UInt32}
    (hfirst : plan.firstRows[i]? = some first) : after.cell .typeDef (i + 1) 5 = .ok first := by
  obtain ⟨rows, -, rfl⟩ := apply_eq_ok h
  have hwidth := hformed.width .typeDef _ (Array.getElem_mem hi)
  rw [cell_eq_ok, table_setTable_self, setFirstRows, Nat.add_sub_cancel]
  refine ⟨by omega, _, by rw [Array.getElem?_mapIdx, Array.getElem?_eq_getElem hi, Option.map_some,
    hfirst], ?_⟩
  exact Array.getElem?_setIfInBounds_self_of_lt (by rw [hwidth]; decide)

lemma cell_typeDef_of_ne {plan : MethodPlan} (h : plan.apply before addedRow = .ok after)
    {rid column : Nat} (hcolumn : column ≠ 5) :
    after.cell .typeDef rid column = before.cell .typeDef rid column := by
  obtain ⟨rows, -, rfl⟩ := apply_eq_ok h
  have hsame : (setFirstRows plan.firstRows (before.table .typeDef))[rid - 1]?.bind (·[column]?) =
      (before.table .typeDef)[rid - 1]?.bind (·[column]?) := by
    cases hrow : (before.table .typeDef)[rid - 1]? with
    | none => simp [setFirstRows, hrow]
    | some row =>
      obtain ⟨row', hrow', -, hsame⟩ := setFirstRows_getElem? plan.firstRows hrow
      rw [hrow', Option.bind_some, Option.bind_some, hsame column hcolumn]
  rw [cell, row?, cell, row?, table_setTable_self]
  by_cases hzero : rid = 0
  · rw [if_pos hzero, if_pos hzero]
  · rw [if_neg hzero, if_neg hzero, hsame]

end MethodPlan

namespace Metadata

variable {m after : Metadata}

lemma Edited.gets (h : m.Edited after) :
    (∀ index text, m.strings.get index = .ok text → after.strings.get index = .ok text) ∧
      ∀ index value, m.blobs.get index = .ok value → after.blobs.get index = .ok value := by
  induction h with
  | refl => exact ⟨fun _ _ h => h, fun _ _ h => h⟩
  | @internString after text _ ih =>
    obtain ⟨back, hdata⟩ := Strings.intern_data after.strings text
    refine ⟨fun index text hget => ?_, ih.2⟩
    have := Strings.get_append (ih.1 index text hget) back
    rwa [← hdata] at this
  | internBlob _ hintern ih =>
    obtain ⟨back, hdata⟩ := Blobs.intern_data hintern
    refine ⟨ih.1, fun index value hget => ?_⟩
    have := Blobs.get_append (ih.2 index value hget) back
    rwa [← hdata] at this
  | push _ _ ih => exact ih
  | insert _ _ ih => exact ih
  | setCell _ _ _ _ _ ih => exact ih

end Metadata

namespace Output

open MethodPlan Tables

/-- The tables of an output with certain rows for added methods. -/
structure HoldsRows (image : Image) (rows : List (Nat × Row)) (after : Tables) : Prop where
  param : after.table .param = image.metadata.tables.table .param
  typeRef : after.table .typeRef = image.metadata.tables.table .typeRef
  count : after.count .typeDef = image.metadata.tables.count .typeDef ∧
    after.count .methodDef = (ofImage image).rows.size
  typeDef : ∀ rid column, column ≠ 5 →
    after.cell .typeDef rid column = image.metadata.tables.cell .typeDef rid column
  first : ∀ i < image.metadata.tables.count .typeDef, ∀ first,
    (ofImage image).firstRows[i]? = some first → after.cell .typeDef (i + 1) 5 = .ok first
  nested : ∀ rid, (after.table .nestedClass).find? (fun row => (row.getD 0 0).toNat == rid) =
    (image.metadata.tables.table .nestedClass).find? fun row => (row.getD 0 0).toNat == rid
  old : ∀ p rid, (ofImage image).rows[p]? = some (.existing rid) → ∀ column ≠ 5, ∀ value,
    image.metadata.tables.cell .methodDef rid column = .ok value →
      after.cell .methodDef (p + 1) column = .ok value
  added : ∀ p id, (ofImage image).rows[p]? = some (.added id) → ∃ row,
    addedRow rows id = .ok row ∧ ∀ column ≠ 5, ∀ value,
      after.cell .methodDef (p + 1) column = .ok value ↔ row[column]? = some value
  params : (ofImage image).KeepsParams image.metadata.tables after

variable {image : Image} {data : Bytes} {rows : List (Nat × Row)} {metadata after : Metadata}
  {pdb pdb' : Option Metadata}

lemma HoldsRows.sorted {before after : Tables} {orders : TableId → List Nat}
    (h : HoldsRows image rows before)
    (hsorted : SortedAs (·.isDebug = false) orders (newNumbers orders) before after) :
    HoldsRows image rows after := by
  have htable {t : TableId} (ht : t ∈ [.typeRef, .typeDef, .methodDef, .param, .nestedClass])
      (hkey : t.sortKey? = none) : after.table t = before.table t :=
    hsorted.table_of_still (TableId.namesStill_of_mem ht) hkey
  have hmethods := htable (t := .methodDef) (by simp) rfl
  have htypes := htable (t := .typeDef) (by simp) rfl
  have hrun (rid : Nat) : after.run .methodDef 5 rid .param = before.run .methodDef 5 rid .param :=
    run_of_table hmethods (congrArg Array.size (htable (t := .param) (by simp) rfl))
  exact {
    param := (htable (by simp) rfl).trans h.param
    typeRef := (htable (by simp) rfl).trans h.typeRef
    count := ⟨(hsorted.count _).trans h.count.1, (hsorted.count _).trans h.count.2⟩
    typeDef := fun rid column hcolumn => (cell_of_table htypes).trans (h.typeDef rid column hcolumn)
    first := fun i hi first hfirst => (cell_of_table htypes).trans (h.first i hi first hfirst)
    nested := fun rid => (hsorted.find?_nestedClass rid).trans (h.nested rid)
    old := fun p rid hp column hcolumn value hvalue =>
      (cell_of_table hmethods).trans (h.old p rid hp column hcolumn value hvalue)
    added := fun p id hp => by
      obtain ⟨row, hrow, hcells⟩ := h.added p id hp
      refine ⟨row, hrow, fun column hcolumn value => ?_⟩
      rw [cell_of_table hmethods, hcells column hcolumn]
    params := {
      old := fun r hpos hle => by
        obtain ⟨p, start, stop, hp, hget, hbefore, hafter⟩ := h.params.old r hpos hle
        exact ⟨p, start, stop, hp, hget, hbefore, (hrun _).trans hafter⟩
      added := fun p method hp => by
        obtain ⟨start, hstart⟩ := h.params.added p method hp
        exact ⟨start, (hrun _).trans hstart⟩ } }

/-- The rows are put into tables that have kept what names no methods. -/
lemma holdsRows_of_apply {followed applied : Tables} (himage : image.Prepared data)
    (hrows : ∀ p ∈ rows, p.2.size = TableId.methodDef.columns.length)
    (hsame : ∀ t ∈ [.typeRef, .typeDef, .methodDef, .param, .nestedClass],
      followed.table t = image.metadata.tables.table t)
    (hformed : followed.Formed)
    (happly : (ofImage image).apply followed (addedRow rows) = .ok applied) :
    HoldsRows image rows applied := by
  obtain ⟨_, -, hread⟩ := himage.parsed.opens.metadata
  obtain ⟨-, hcount, -⟩ := Metadata.formed_of_read hread
  obtain ⟨_, hsmall, hbytes⟩ := Metadata.tables_of_read hread
  have hcounts {t : TableId} (ht : t ∈ [.typeRef, .typeDef, .methodDef, .param, .nestedClass]) :
      followed.count t = image.metadata.tables.count t := congrArg Array.size (hsame t ht)
  -- besides the rows of methods only the cells where types begin are written
  have hkept {t : TableId} (ht : t ∈ [.typeRef, .typeDef, .methodDef, .param, .nestedClass])
      (hmethod : t ≠ .methodDef) (htype : t ≠ .typeDef) :
      applied.table t = image.metadata.tables.table t := by
    obtain ⟨_, -, rfl⟩ := apply_eq_ok happly
    rw [table_setTable_of_ne _ htype, table_setTable_of_ne _ hmethod, hsame t ht]
  have hrun (rid : Nat) : followed.run .methodDef 5 rid .param =
      image.metadata.tables.run .methodDef 5 rid .param :=
    run_of_table (hsame _ (by simp)) (hcounts (by simp))
  have hparams : (ofImage image).KeepsParams followed applied := by
    refine keepsParams_of_apply himage.arranged happly (fun id row => size_of_addedRow hrows)
      hformed (hcounts (by simp)) (hcounts (t := .methodDef) (by simp) ▸ hcount _) ?_
      fun rid hpos hle => ?_
    · have := Tables.count_le_of_read hbytes .param
      rw [hcounts (by simp)]
      omega
    · rw [hrun]
      exact readsParams_of_prepared himage rid hpos (hcounts (t := .methodDef) (by simp) ▸ hle)
  exact {
    param := hkept (by simp) (by decide) (by decide)
    typeRef := hkept (by simp) (by decide) (by decide)
    count := ⟨(count_of_apply happly _).trans (hcounts (t := .typeDef) (by simp)),
      count_of_apply happly _⟩
    typeDef := fun rid column hcolumn =>
      (cell_typeDef_of_ne happly hcolumn).trans (cell_of_table (hsame _ (by simp)))
    first := fun i hi first hfirst =>
      cell_typeDef_of_apply happly hformed (by rwa [hcounts (by simp)]) hfirst
    nested := fun rid => by rw [hkept (by simp) (by decide) (by decide)]
    old := fun p rid hp column hcolumn value hvalue => by
      obtain ⟨row, hexisting, -, hcells⟩ := cell_of_apply happly hp
      refine (hcells column hcolumn value).mpr ?_
      rw [← cell_of_table (hsame .methodDef (by simp)), cell, hexisting rid rfl,
        Option.bind_some] at hvalue
      split at hvalue
      · cases hvalue
        assumption
      · cases hvalue
    added := fun p id hp => by
      obtain ⟨row, -, hadded, hcells⟩ := cell_of_apply happly hp
      exact ⟨row, hadded id rfl, hcells⟩
    params := {
      old := fun r hpos hle => by
        obtain ⟨p, start, stop, hp, hget, hbefore, hafter⟩ :=
          hparams.old r hpos (by rwa [hcounts (by simp)])
        exact ⟨p, start, stop, hp, hget, hrun r ▸ hbefore, hafter⟩
      added := hparams.added } }

/-- What is written is renumbered, gets its rows and is sorted; types and parameters name nothing
that moves. -/
theorem holdsRows_of_arrange (himage : image.Prepared data)
    (hrows : ∀ p ∈ rows, p.2.size = TableId.methodDef.columns.length)
    (htables : metadata.tables = image.metadata.tables)
    (h : arrange (ofImage image) rows metadata pdb = .ok (after, pdb')) :
    HoldsRows image rows after.tables := by
  obtain ⟨followed, applied, orders, hfollowed, happly, hsorted, -⟩ := arrange_tables h
  rw [htables] at hfollowed
  obtain ⟨_, -, hread⟩ := himage.parsed.opens.metadata
  obtain ⟨hformed, -⟩ := Metadata.formed_of_read hread
  have hsame (t : TableId) (ht : t ∈ [.typeRef, .typeDef, .methodDef, .param, .nestedClass]) :
      followed.table t = image.metadata.tables.table t := by
    rw [hfollowed.table, funext (followRow_of_unnamed fun c hc s hs =>
      rids_numbers_of_ne himage.arranged (TableId.namesStill_of_mem ht c hc s hs).1), Array.map_id']
  have hfollowedFormed : followed.Formed :=
    hformed.tables.of_header hfollowed.header fun t row hrow => by
      rw [hfollowed.table] at hrow
      obtain ⟨old, hold, rfl⟩ := Array.mem_map.mp hrow
      rw [size_followRow]
      exact hformed.tables.width t old hold
  exact (holdsRows_of_apply himage hrows hsame hfollowedFormed happly).sorted hsorted

/-- The metadata of an output holds that of its image, with the planned rows and with the heaps as
they have become. -/
structure Holds (image : Image) (s : AddedState) (again : Metadata) : Prop where
  retains : image.metadata.Retains again
  rows : HoldsRows image s.rows again.tables
  strings : ∀ index text, s.metadata.strings.get index = .ok text →
    again.strings.get index = .ok text
  blobs : ∀ index value, s.metadata.blobs.get index = .ok value →
    again.blobs.get index = .ok value

/-- The metadata of an output reads back. -/
theorem Stages.Start.read_holds {s : Stages} (h : s.Start image none) (himage : image.Prepared data)
    (hsymbols : image.symbols = none) (hversion : image.metadata.root.versionBytes.size % 4 = 0)
    (hslots : image.metadata.slots.length < 2 ^ 16) (hfit : s.encoded.1.size < 2 ^ 32) :
    ∃ again, Metadata.read s.encoded.1 = .ok again ∧ again.isPdb = false ∧
      again.root.versionBytes = image.metadata.root.versionBytes ∧ Holds image s.rowed again := by
  obtain ⟨_, -, hread⟩ := himage.parsed.opens.metadata
  obtain ⟨hformed, -⟩ := Metadata.formed_of_read hread
  obtain ⟨hkept, -⟩ := h.kept himage.arranged fun symbols hsome => by
    rw [hsymbols] at hsome
    cases hsome
  have hstored := hkept.formed hformed
  obtain ⟨hedited, htables, hrows⟩ := addMethods_eq_ok h.rowed (by simp)
  have harranged := holdsRows_of_arrange himage hrows htables h.arranged
  obtain ⟨_, _, _, -, -, -, hafter⟩ := arrange_tables h.arranged
  have hsame := Metadata.sameContent_padded hstored h.encoded
  obtain ⟨hstrings, hblobs⟩ := hedited.gets
  have hplain : s.stored.1 = s.arranged.1 := by
    rw [← congrArg Prod.fst (Except.ok.inj h.stored)]
  rw [hplain] at hsame
  have hstrings' (index : Nat) (text : String)
      (hget : s.rowed.metadata.strings.get index = .ok text) :
      s.encoded.2.padded.strings.get index = .ok text :=
    hsame.strings index text (by rw [hafter]; exact hget)
  have hblobs' (index : Nat) (value : Bytes)
      (hget : s.rowed.metadata.blobs.get index = .ok value) :
      s.encoded.2.padded.blobs.get index = .ok value :=
    hsame.blobs index value (by rw [hafter]; exact hget)
  have hheld : HoldsRows image s.rowed.rows s.encoded.2.padded.tables := by
    rw [hsame.tables]
    exact { harranged with params := { harranged.params with } }
  obtain ⟨again, hagain, hroot, -⟩ := h.read_encoded hkept hformed hversion hslots hfit
  obtain rfl : s.encoded.2.padded = again := Except.ok.inj ((Metadata.read_of_encode hstored
    (by rwa [hkept.root]) (by rwa [hkept.slots]) h.encoded hfit).symm.trans hagain)
  refine ⟨_, hagain, ?_, hroot, ⟨?_, hheld, hstrings', hblobs'⟩⟩
  · have hpdb := congrArg Option.isSome hkept.identity
    rw [Option.isSome_map, Option.isSome_map] at hpdb
    have hnot := himage.parsed.opens.notPdb
    rw [Metadata.isPdb] at hnot ⊢
    rw [hsame.pdb, ← hplain, hpdb, hnot]
  · exact ⟨fun index text hget => hstrings' _ _ (hstrings _ _ hget),
      fun index value hget => hblobs' _ _ (hblobs _ _ hget), hheld.param, hheld.typeRef,
      hheld.typeDef, fun rid => congrArg (Option.map _) (hheld.nested rid)⟩

end Output

end CliImage
