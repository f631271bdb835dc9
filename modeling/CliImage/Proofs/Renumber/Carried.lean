import CliImage.Proofs.Renumber.MethodPlan
import CliImage.Proofs.Renumber.Sorting

/-! Steps that carry the rows of all tables to new places and let every reference follow. No row is
lost, and no reference is renumbered twice or left out. -/

namespace CliImage

/-- The column whose cells a plan writes anew: the first method row of a type. -/
def isMethodList (t : TableId) (i : Nat) : Prop := t = .typeDef ∧ i = 5

namespace Tables

/-- Each row of a table stands at its place, and its cells follow the rows that they name. -/
structure Carried (place numbers : RowNumbers) (before after : Tables) : Prop where
  header : after = { before with rows := after.rows }
  row : ∀ t (r : UInt32) row, before.row? t r.toNat = some row →
    ∃ row', after.row? t (place t r).toNat = some row' ∧ row'.size = row.size ∧
      ∀ i, ¬ isMethodList t i → row'[i]? = (t.followRow numbers row)[i]?

variable {before between after ts : Tables} {place place' numbers numbers' : RowNumbers}

lemma row?_eq_some {t : TableId} {rid : Nat} {row : Row} :
    ts.row? t rid = some row ↔ 1 ≤ rid ∧ (ts.table t)[rid - 1]? = some row := by
  unfold row?
  split <;> simp <;> omega

lemma mem_table_of_row? {t : TableId} {rid : Nat} {row : Row} (h : ts.row? t rid = some row) :
    row ∈ ts.table t :=
  Array.mem_of_getElem? (row?_eq_some.mp h).2

@[simp] lemma size_followRow (t : TableId) (numbers : RowNumbers) (row : Row) :
    (t.followRow numbers row).size = row.size := by
  simp [TableId.followRow]

lemma getElem?_followRow (t : TableId) (numbers : RowNumbers) (row : Row) (i : Nat) :
    (t.followRow numbers row)[i]? = row[i]?.map fun value =>
      ((t.columns[i]?).map fun c => c.follow numbers value).getD value := by
  rw [TableId.followRow, Array.getElem?_mapIdx]

lemma followRow_id (t : TableId) (row : Row) : t.followRow (fun _ => id) row = row := by
  refine Array.ext_getElem? fun i => ?_
  rw [getElem?_followRow]
  cases row[i]? with
  | none => rfl
  | some value => cases t.columns[i]? <;> simp

/-- Following twice is following at once, where no table is renumbered twice. -/
lemma followRow_followRow (honce : ∀ t, numbers t = id ∨ numbers' t = id) (t : TableId) (row : Row) :
    t.followRow numbers' (t.followRow numbers row) =
      t.followRow (fun t => numbers' t ∘ numbers t) row := by
  refine Array.ext_getElem? fun i => ?_
  rw [getElem?_followRow, getElem?_followRow, getElem?_followRow, Option.map_map]
  congr 1
  funext value
  cases hcolumn : t.columns[i]? with
  | none => simp
  | some c => simpa [hcolumn] using Column.follow_follow honce c value

/-- Each row stays, and its cells follow the rows that they name. -/
structure Followed (numbers : RowNumbers) (before after : Tables) : Prop where
  header : after = { before with rows := after.rows }
  table : ∀ t, after.table t = (before.table t).map (t.followRow numbers)

lemma Followed.refl (ts : Tables) : Followed (fun _ => id) ts ts :=
  ⟨rfl, fun t => by simp [funext (followRow_id t)]⟩

lemma Followed.trans (h : Followed numbers before between) (h' : Followed numbers' between after)
    (honce : ∀ t, numbers t = id ∨ numbers' t = id) :
    Followed (fun t => numbers' t ∘ numbers t) before after := by
  refine ⟨by rw [h'.header, h.header], fun t => ?_⟩
  rw [h'.table t, h.table t, Array.map_map]
  exact congrArg (fun f => (before.table t).map f) (funext (followRow_followRow honce t))

lemma Followed.of_renumbered {map : RidMap} (h : before.renumbered map = .ok after) :
    Followed map.numbers before after :=
  ⟨(renumbered_eq_ok h).1, (renumbered_eq_ok h).2⟩

lemma Followed.count (h : Followed numbers before after) (t : TableId) :
    after.count t = before.count t := by
  rw [Tables.count, h.table t, Array.size_map, Tables.count]

lemma Followed.isSorted (h : Followed numbers before after) : after.isSorted = before.isSorted := by
  funext t
  rw [Tables.isSorted, h.header, Tables.isSorted]

lemma Followed.carried (h : Followed numbers before after) :
    Carried (fun _ => id) numbers before after := by
  refine ⟨h.header, fun t r row hrow => ?_⟩
  obtain ⟨hpos, hget⟩ := row?_eq_some.mp hrow
  refine ⟨t.followRow numbers row, row?_eq_some.mpr ⟨hpos, ?_⟩, by simp, fun i _ => rfl⟩
  rw [h.table t, Array.getElem?_map, id, hget, Option.map_some]

lemma Carried.refl (ts : Tables) : Carried (fun _ => id) (fun _ => id) ts ts :=
  (Followed.refl ts).carried

/-- Two steps in which no table is renumbered twice are one. -/
lemma Carried.trans (h : Carried place numbers before between)
    (h' : Carried place' numbers' between after)
    (honce : ∀ t, numbers t = id ∨ numbers' t = id) :
    Carried (fun t => place' t ∘ place t) (fun t => numbers' t ∘ numbers t) before after := by
  refine ⟨?_, fun t r row hrow => ?_⟩
  · rw [h'.header, h.header]
  · obtain ⟨row₁, hrow₁, hsize₁, hcells₁⟩ := h.row t r row hrow
    obtain ⟨row₂, hrow₂, hsize₂, hcells₂⟩ := h'.row t _ row₁ hrow₁
    refine ⟨row₂, hrow₂, hsize₂.trans hsize₁, fun i hi => ?_⟩
    rw [hcells₂ i hi, getElem?_followRow, hcells₁ i hi, ← getElem?_followRow,
      followRow_followRow honce]

lemma count_of_sortTable {t : TableId} {map : RidMap}
    (h : before.sortTable t = (after, some map)) (s : TableId) : after.count s = before.count s := by
  obtain ⟨_, order, _, _, horder, _, rfl⟩ := sortTable_eq_some h
  by_cases hs : s = t
  · subst hs
    rw [count, table_setTable_self]
    simpa using horder.length_eq
  · rw [count, table_setTable_of_ne _ hs, count]

lemma Carried.of_sortTable {t : TableId} {map : RidMap}
    (h : before.sortTable t = (after, some map)) (hcount : before.count t < 2 ^ 32) :
    Carried map.numbers (fun _ => id) before after := by
  obtain ⟨_, order, _, _, horder, rfl, rfl⟩ := sortTable_eq_some h
  refine ⟨rfl, fun s r row hrow => ?_⟩
  obtain ⟨hpos, hget⟩ := row?_eq_some.mp hrow
  by_cases hs : s = t
  · subst hs
    have hlt : r.toNat - 1 < before.count s := (Array.getElem?_eq_some_iff.mp hget).1
    obtain ⟨k, hk, hplace⟩ := exists_place horder hpos (by omega)
    have hnew : ((ridMapOf s order).numbers s r).toNat = k + 1 := by
      rw [RidMap.numbers, if_pos (show s = (ridMapOf s order).table from rfl), 
        get_ridMapOf horder hplace (by omega),
        UInt32.toNat_ofNat_of_lt' (by simp [UInt32.size]; omega)]
    refine ⟨row, row?_eq_some.mpr ⟨by omega, ?_⟩, rfl, fun i _ => by rw [followRow_id]⟩
    rw [hnew, table_setTable_self, Nat.add_sub_cancel, List.getElem?_toArray, List.getElem?_map,
      hplace, Option.map_some, Array.getD_eq_getD_getElem?, hget, Option.getD_some]
  · refine ⟨row, ?_, rfl, fun i _ => by rw [followRow_id]⟩
    rw [RidMap.numbers_of_ne (show s ≠ (ridMapOf t order).table from hs), id, row?, table_setTable_of_ne _ hs]
    exact hrow

end Tables

namespace MethodPlan

open Tables

variable {image : Image} {before after : Tables}

lemma length_fillParams (stop : UInt32) (planned : List (PlannedMethod × Row)) :
    (fillParams stop planned).1.length = planned.length := by
  induction planned with
  | nil => rfl
  | cons head rest ih =>
    obtain ⟨method, row⟩ := head
    cases method <;> simp [fillParams, ih]

/-- Only the rows of added methods get a run of parameters. -/
lemma fillParams_existing (stop : UInt32) {planned : List (PlannedMethod × Row)} {i rid : Nat}
    {row : Row} (h : planned[i]? = some (.existing rid, row)) :
    (fillParams stop planned).1[i]? = some row := by
  induction planned generalizing i with
  | nil => cases h
  | cons head rest ih =>
    obtain ⟨method, row₀⟩ := head
    cases i with
    | zero =>
      obtain ⟨rfl, rfl⟩ := Prod.mk.inj (Option.some.inj h)
      rfl
    | succ i =>
      have hrest := ih h
      cases method <;> simpa [fillParams] using hrest

lemma apply_eq_ok {plan : MethodPlan} {addedRow : Nat → Result Row}
    (h : plan.apply before addedRow = .ok after) : ∃ rows,
      plan.newRows before addedRow = .ok rows ∧
      after = (before.setTable .methodDef (fillParams (UInt32.ofNat (before.count .param + 1))
        (plan.rows.toList.zip rows)).1.toArray).setTable .typeDef
          (setFirstRows plan.firstRows (before.table .typeDef)) := by
  obtain ⟨rows, hrows, h⟩ := Result.bind_eq_ok.mp h
  cases h
  exact ⟨rows, hrows, by rw [table_setTable_of_ne _ (by decide)]⟩

/-- Only the first method rows of the types are set. -/
lemma setFirstRows_getElem? (firstRows : Array UInt32) {types : Array Row} {k : Nat} {row : Row}
    (h : types[k]? = some row) : ∃ row', (setFirstRows firstRows types)[k]? = some row' ∧
      row'.size = row.size ∧ ∀ i, i ≠ 5 → row'[i]? = row[i]? := by
  rw [setFirstRows, Array.getElem?_mapIdx, h, Option.map_some]
  refine ⟨_, rfl, ?_, fun i hi => ?_⟩
  · split <;> simp
  · split
    · rw [Array.getElem?_setIfInBounds, if_neg hi.symm]
    · rfl

lemma length_newRows {plan : MethodPlan} {addedRow : Nat → Result Row} {rows : List Row}
    (h : plan.newRows before addedRow = .ok rows) : rows.length = plan.rows.size := by
  simpa using (Result.mapM_eq_ok.mp h).length_eq.symm

/-- The plan has a place for each old row, and the renumbering tells it. -/
lemma exists_planned (himage : image.Arranged) (hfit : (ofImage image).rows.size < 2 ^ 32)
    {r : UInt32} (hpos : 1 ≤ r.toNat) (hle : r.toNat ≤ image.metadata.tables.count .methodDef) :
    ∃ i, (ofImage image).rows[i]? = some (.existing r.toNat) ∧
      ((ofImage image).rids.get r).toNat = i + 1 := by
  obtain ⟨i, hi⟩ := exists_existing himage hpos hle
  refine ⟨i, hi, ?_⟩
  have hlt : i < (ofImage image).rows.size := (Array.getElem?_eq_some_iff.mp hi).1
  have htarget := (ofImage_olds himage).2.2.2 i _ hi
  have hne : r ≠ 0 := by
    rintro rfl
    simp at hpos
  rw [RidMap.get, if_neg hne, Array.getD_eq_getD_getElem?, htarget, Option.getD_some,
    UInt32.toNat_ofNat_of_lt' (by simp [UInt32.size]; omega)]

lemma carried_of_apply (himage : image.Arranged) (hfit : (ofImage image).rows.size < 2 ^ 32)
    (hcount : before.count .methodDef = image.metadata.tables.count .methodDef)
    {addedRow : Nat → Result Row} (h : (ofImage image).apply before addedRow = .ok after) :
    Carried (ofImage image).rids.numbers (fun _ => id) before after := by
  obtain ⟨rows, hrows, rfl⟩ := apply_eq_ok h
  have htable : (ofImage image).rids.table = .methodDef := (ofImage_olds himage).2.1
  refine ⟨rfl, fun t r row hrow => ?_⟩
  obtain ⟨hpos, hget⟩ := row?_eq_some.mp hrow
  by_cases ht : t = .methodDef
  · subst ht
    have hlt : r.toNat - 1 < before.count .methodDef := (Array.getElem?_eq_some_iff.mp hget).1
    obtain ⟨i, hi, hnew⟩ := exists_planned himage hfit hpos (by omega)
    have hi' : i < (ofImage image).rows.size := (Array.getElem?_eq_some_iff.mp hi).1
    have hrowsLen := length_newRows hrows
    have hmade := (Result.mapM_eq_ok.mp hrows).get (i := i) (by simpa using hi')
      (by rw [hrowsLen]; exact hi')
    have hplanned : (ofImage image).rows[i] = .existing r.toNat := by
      rw [Array.getElem?_eq_getElem hi'] at hi
      exact Option.some.inj hi
    simp only [List.get_eq_getElem, Array.getElem_toList, hplanned, hrow] at hmade
    have hzip : ((ofImage image).rows.toList.zip rows)[i]? = some (.existing r.toNat, row) := by
      rw [List.getElem?_zip_eq_some]
      refine ⟨by simpa using hi, ?_⟩
      rw [List.getElem?_eq_getElem (by rw [hrowsLen]; exact hi')]
      exact congrArg some (Except.ok.inj hmade).symm
    refine ⟨row, row?_eq_some.mpr ⟨?_, ?_⟩, rfl, fun i _ => by rw [followRow_id]⟩
    · rw [RidMap.numbers, if_pos htable.symm]
      omega
    · rw [RidMap.numbers, if_pos htable.symm, hnew, table_setTable_of_ne _ (by decide),
        table_setTable_self, Nat.add_sub_cancel, List.getElem?_toArray,
        fillParams_existing _ hzip]
  · rw [RidMap.numbers_of_ne (by rwa [htable]), id]
    by_cases htype : t = .typeDef
    · subst htype
      obtain ⟨row', hrow', hsize, hcells⟩ := setFirstRows_getElem? (ofImage image).firstRows hget
      refine ⟨row', row?_eq_some.mpr ⟨hpos, ?_⟩, hsize, fun i hi => ?_⟩
      · rwa [table_setTable_self]
      · rw [followRow_id, hcells i fun h => hi ⟨rfl, h⟩]
    · refine ⟨row, row?_eq_some.mpr ⟨hpos, ?_⟩, rfl, fun i _ => by rw [followRow_id]⟩
      rwa [table_setTable_of_ne _ htype, table_setTable_of_ne _ ht]

lemma count_of_apply {plan : MethodPlan} {addedRow : Nat → Result Row}
    (h : plan.apply before addedRow = .ok after) (t : TableId) :
    after.count t = if t = .methodDef then plan.rows.size else before.count t := by
  obtain ⟨rows, hrows, rfl⟩ := apply_eq_ok h
  have hlen := length_newRows hrows
  by_cases htype : t = .typeDef
  · subst htype
    rw [count, table_setTable_self, setFirstRows, Array.size_mapIdx, if_neg (by decide), count]
  · rw [count, table_setTable_of_ne _ htype]
    by_cases ht : t = .methodDef
    · subst ht
      rw [table_setTable_self, if_pos rfl, List.size_toArray, length_fillParams, List.length_zip,
        hlen, Array.length_toList, Nat.min_self]
    · rw [table_setTable_of_ne _ ht, if_neg ht, count]

/-- Renumbering by the plan and putting the method rows in their places. -/
lemma carried_of_renumbered_apply (himage : image.Arranged)
    (hfit : (ofImage image).rows.size < 2 ^ 32) {between : Tables}
    (hcount : before.count .methodDef = image.metadata.tables.count .methodDef)
    (h : before.renumbered (ofImage image).rids = .ok between) {addedRow : Nat → Result Row}
    (happly : (ofImage image).apply between addedRow = .ok after) :
    Carried (ofImage image).rids.numbers (ofImage image).rids.numbers before after :=
  (Followed.of_renumbered h).carried.trans
    (carried_of_apply himage hfit (by rw [(Followed.of_renumbered h).count, hcount]) happly)
    fun _ => .inr rfl

end MethodPlan

end CliImage
