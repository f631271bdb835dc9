import CliImage.Proofs.Renumber.Isomorphism
import CliImage.Proofs.Table.Store

/-! Renumbering and sorting keep the shape of tables: how many rows there are and how wide they are. -/

namespace CliImage

namespace Tables

variable {before between after : Tables} {t : TableId} {map : RidMap}

/-- The header is the same, as many rows are in each table, and they are full if they were. -/
structure Reshaped (before after : Tables) : Prop where
  header : after = { before with rows := after.rows }
  count : ∀ t, after.count t = before.count t
  formed : before.Formed → after.Formed

lemma Reshaped.refl (ts : Tables) : Reshaped ts ts := ⟨rfl, fun _ => rfl, id⟩

lemma Reshaped.trans (h : Reshaped before between) (h' : Reshaped between after) :
    Reshaped before after :=
  ⟨by rw [h'.header, h.header], fun t => (h'.count t).trans (h.count t),
    fun hformed => h'.formed (h.formed hformed)⟩

lemma Formed.of_header (h : before.Formed) (hheader : after = { before with rows := after.rows })
    (hwidth : ∀ t, ∀ row ∈ after.table t, row.size = t.columns.length) : after.Formed := by
  refine ⟨hwidth, ?_, ?_, ?_⟩
  · rw [hheader]
    exact h.known
  · rw [hheader]
    exact h.valid_ne
  · rw [hheader]
    exact h.extra

lemma Reshaped.of_renumbered (h : before.renumbered map = .ok after) : Reshaped before after := by
  have hfollowed := Followed.of_renumbered h
  refine ⟨hfollowed.header, hfollowed.count, fun hformed => hformed.of_header hfollowed.header ?_⟩
  intro t row hrow
  rw [hfollowed.table t] at hrow
  obtain ⟨old, hold, rfl⟩ := Array.mem_map.mp hrow
  rw [TableId.followRow, Array.size_mapIdx]
  exact hformed.width t old hold

lemma Reshaped.of_sortTable (h : before.sortTable t = (after, some map)) :
    Reshaped before after := by
  refine ⟨?_, count_of_sortTable h, fun hformed => ?_⟩
  · obtain ⟨_, order, _, _, _, _, rfl⟩ := sortTable_eq_some h
    rfl
  · obtain ⟨_, order, _, _, horder, _, rfl⟩ := sortTable_eq_some h
    refine hformed.setTable fun row hrow => ?_
    obtain ⟨i, hi, rfl⟩ := List.mem_map.mp (List.mem_toArray.mp hrow)
    have hlt : i < before.count t := List.mem_range.mp (horder.mem_iff.mp hi)
    rw [Array.getD_eq_getD_getElem?, Array.getElem?_eq_getElem hlt, Option.getD_some]
    exact hformed.width t _ (Array.getElem_mem hlt)

end Tables

namespace TablePair

open Tables

variable {pair after : TablePair}

/-- Both files' tables keep their shape. -/
structure Reshaped (before after : TablePair) : Prop where
  image : Tables.Reshaped before.image after.image
  symbols : OnSymbols Tables.Reshaped before.symbols after.symbols

lemma Reshaped.refl (pair : TablePair) : Reshaped pair pair := by
  refine ⟨Tables.Reshaped.refl _, ?_⟩
  cases pair.symbols with
  | none => trivial
  | some ts => exact Tables.Reshaped.refl ts

lemma onSymbols_trans {before between after : Option Tables}
    (h : OnSymbols Tables.Reshaped before between) (h' : OnSymbols Tables.Reshaped between after) :
    OnSymbols Tables.Reshaped before after :=
  OnSymbols.trans (p := Tables.Reshaped) (q := Tables.Reshaped) (r := Tables.Reshaped)
    (fun _ _ _ h h' => h.trans h') h h'

lemma Reshaped.trans {between : TablePair} (h : Reshaped pair between) (h' : Reshaped between after) :
    Reshaped pair after :=
  ⟨h.image.trans h'.image, onSymbols_trans h.symbols h'.symbols⟩

lemma reshaped_of_sortImage {list : List TableId} (h : sortImage list pair = (after, none)) :
    Reshaped pair after := by
  induction list generalizing pair with
  | nil =>
    cases h
    exact Reshaped.refl _
  | cons t rest ih =>
    obtain ⟨-, h⟩ | ⟨sorted, map, between, -, hsort, himage, hsymbols, h⟩ := sortImage_cons h
    · exact ih h
    · refine Reshaped.trans ⟨?_, ?_⟩ (ih h)
      · exact (Tables.Reshaped.of_sortTable hsort).trans (Tables.Reshaped.of_renumbered himage)
      · exact hsymbols.imp fun _ _ _ => Tables.Reshaped.of_renumbered

/-- Sorting keeps the shape of both files' tables. -/
theorem reshaped_of_sorted (h : pair.sorted = .ok after) : Reshaped pair after := by
  obtain ⟨between, hsort, himage, hsymbols⟩ := sorted_eq_ok h
  have hbetween := reshaped_of_sortImage hsort
  refine ⟨by rw [himage]; exact hbetween.image, onSymbols_trans hbetween.symbols
    (hsymbols.imp fun ts ts' _ hts => ?_)⟩
  obtain ⟨sorted, hsorted, rfl⟩ := hts
  exact (reshaped_of_sortImage hsorted).image

end TablePair

namespace MethodPlan

variable {plan : MethodPlan} {ts after : Tables}

lemma width_fillParams {width : Nat} (stop : UInt32) {planned : List (PlannedMethod × Row)}
    (h : ∀ p ∈ planned, p.2.size = width) : ∀ row ∈ (fillParams stop planned).1, row.size = width := by
  induction planned with
  | nil => simp [fillParams]
  | cons p rest ih =>
    obtain ⟨hfirst, hrest⟩ := List.forall_mem_cons.mp h
    obtain ⟨planned, row⟩ := p
    have hrows := ih hrest
    cases planned with
    | added m =>
      refine List.forall_mem_cons.mpr ⟨?_, hrows⟩
      rw [Array.size_setIfInBounds]
      exact hfirst
    | existing rid => exact List.forall_mem_cons.mpr ⟨hfirst, hrows⟩

section Apply

variable {addedRow : Nat → Result Row}
  (hrows : ∀ id row, addedRow id = .ok row → row.size = TableId.methodDef.columns.length)
include hrows

lemma width_newRows {rows : List Row} (h : plan.newRows ts addedRow = .ok rows)
    (hformed : ts.Formed) : ∀ row ∈ rows, row.size = TableId.methodDef.columns.length := by
  refine Result.forall_of_mapM (fun planned row hrow => ?_) h
  cases planned with
  | added id => exact hrows id row hrow
  | existing rid =>
    simp only at hrow
    split at hrow
    · rename_i hfound
      cases hrow
      exact hformed.width _ _ (Tables.mem_table_of_row? hfound)
    · cases hrow

/-- Rows in their planned order are full if the added ones are. -/
lemma formed_of_apply (h : plan.apply ts addedRow = .ok after) (hformed : ts.Formed) :
    after.Formed := by
  obtain ⟨rows, hnew, rfl⟩ := apply_eq_ok h
  have hwidth := width_newRows hrows hnew hformed
  refine (hformed.setTable fun row hrow => ?_).setTable fun row hrow => ?_
  · exact width_fillParams _ (fun p hp => hwidth _ (List.of_mem_zip hp).2) row
      (List.mem_toArray.mp hrow)
  · obtain ⟨i, hi, rfl⟩ := Array.getElem_of_mem hrow
    rw [setFirstRows, Array.size_mapIdx] at hi
    obtain ⟨row', hrow', hsize, -⟩ :=
      setFirstRows_getElem? plan.firstRows (Array.getElem?_eq_getElem hi)
    rw [Array.getElem?_eq_getElem (by rwa [setFirstRows, Array.size_mapIdx])] at hrow'
    rw [Option.some.inj hrow', hsize]
    exact hformed.width _ _ (Array.getElem_mem hi)

end Apply

end MethodPlan

end CliImage
