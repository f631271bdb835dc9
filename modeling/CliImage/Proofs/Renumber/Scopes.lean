import CliImage.Proofs.Image.Evaluation
import CliImage.Proofs.Image.Prepared
import CliImage.Proofs.Renumber.Monotone
import CliImage.Proofs.Renumber.Sorted

/-! A plan renumbers methods in their order, so scopes that stand in the order of their methods are
not moved by sorting and own the variables and constants that they owned. -/

namespace CliImage

variable {before after : Tables} {image : Image}

namespace Tables

variable {chosen : TableId → Prop} {orders : TableId → List Nat} {numbers : RowNumbers}
  {t : TableId} {key : List Nat}

/-- Rows whose keys are in order stay where they are. -/
lemma SortedAs.order_of_pairwise (h : SortedAs chosen orders numbers before after)
    (hkey : t.sortKey? = some key)
    (hrows : ((before.table t).map (t.followRow numbers)).toList.Pairwise fun a b =>
      keyCells key a ≤ keyCells key b) :
    orders t = List.range (before.count t) := by
  by_cases hchosen : chosen t ∧ before.isSorted t = true
  · obtain ⟨ht, hflag⟩ := hchosen
    have hordered := h.nondecreasing t ht hflag key hkey
    rw [Array.toList_map, toList_eq_map_range (before.table t), List.map_map, List.pairwise_map,
      List.pairwise_iff_getElem] at hrows
    rw [h.rows, List.pairwise_map] at hordered
    have hlt : (orders t).Pairwise (· < ·) := by
      refine (hordered.and (h.stable t ht hflag key hkey)).imp_of_mem ?_
      rintro i j hi hj ⟨hle, hstable⟩
      have hi := List.mem_range.mp ((h.perm t).mem_iff.mp hi)
      have hj := List.mem_range.mp ((h.perm t).mem_iff.mp hj)
      rcases Nat.lt_or_ge i j with hij | hji
      · exact hij
      · -- a row may come in front of an earlier one only if both have the same key
        apply hstable
        rcases Nat.lt_or_eq_of_le hji with hji | rfl
        · have hback := hrows j i (by rwa [List.length_range]) (by rwa [List.length_range]) hji
          rw [List.getElem_range, List.getElem_range] at hback
          exact List.le_antisymm hle hback
        · rfl
    exact List.Perm.eq_of_pairwise (fun _ _ _ _ h h' => absurd h (Nat.lt_asymm h')) hlt
      List.pairwise_lt_range (h.perm t)
  · apply h.kept t
    rcases not_and_or.mp hchosen with ht | hflag
    · exact .inl ht
    · exact .inr (.inl (by simpa using hflag))

/-- A row stays where the tables that its cells can name keep their numbers. -/
lemma followRow_of_unnamed (h : ∀ c ∈ t.columns, ∀ s, c.references s = true → numbers s = id)
    (row : Row) : t.followRow numbers row = row := by
  apply Array.ext_getElem?
  intro i
  rw [getElem?_followRow]
  cases row[i]? with
  | none => rfl
  | some value =>
    cases hcolumn : t.columns[i]? with
    | none => rfl
    | some c => simp [Column.follow_of_unnamed (h c (List.mem_of_getElem? hcolumn))]

/-- The method of a scope is the only cell of it that follows a sorted or renumbered table. -/
lemma followRow_localScope (himports : numbers .importScope = id) (row : Row) :
    TableId.localScope.followRow numbers row = row.modify 0 (numbers .methodDef) := by
  apply Array.ext_getElem?
  intro i
  rw [getElem?_followRow, Array.getElem?_modify]
  match i with
  | 0 => rfl
  | 1 => cases row[1]? <;> simp [TableId.columns, Column.follow, himports]
  | 2 | 3 | 4 | 5 => simp [TableId.columns, Column.follow]
  | i + 6 => simp [TableId.columns]

section Run

variable {owner target : TableId} {f : UInt32 → UInt32} {rid column : Nat}
  (howner : after.table owner = (before.table owner).map fun row => row.modify 0 f)
  (hcolumn : column ≠ 0)
include howner hcolumn

lemma cell_of_modify : after.cell owner rid column = before.cell owner rid column := by
  have hrow : (after.row? owner rid).bind (·[column]?) =
      (before.row? owner rid).bind (·[column]?) := by
    simp only [row?, howner]
    split
    · rfl
    · rw [Array.getElem?_map]
      cases (before.table owner)[rid - 1]? with
      | none => rfl
      | some row => simp [Array.getElem?_modify, hcolumn.symm]
  rw [cell, cell, hrow]

lemma run_of_modify (htarget : after.count target = before.count target) :
    after.run owner column rid target = before.run owner column rid target := by
  have hcount : after.count owner = before.count owner := by simp [count, howner]
  have hcell (rid : Nat) : after.cell owner rid column = before.cell owner rid column :=
    cell_of_modify howner hcolumn
  simp only [run, hcell, hcount, htarget]

end Run

/-- The scopes are the same in the same order, but for the numbers of their methods, and own the
same variables and constants. -/
structure KeepsScopes (map : RidMap) (before after : Tables) : Prop where
  scopes : after.table .localScope =
    (before.table .localScope).map fun row => row.modify 0 map.get
  localVariables : after.table .localVariable = before.table .localVariable
  localConstants : after.table .localConstant = before.table .localConstant
  variableRun : ∀ rid, after.run .localScope 2 rid .localVariable =
    before.run .localScope 2 rid .localVariable
  constantRun : ∀ rid, after.run .localScope 3 rid .localConstant =
    before.run .localScope 3 rid .localConstant

lemma keepsScopes_of_tables {map : RidMap}
    (hscopes : after.table .localScope =
      (before.table .localScope).map fun row => row.modify 0 map.get)
    (hvariables : after.table .localVariable = before.table .localVariable)
    (hconstants : after.table .localConstant = before.table .localConstant) :
    KeepsScopes map before after :=
  ⟨hscopes, hvariables, hconstants,
    fun _ => run_of_modify hscopes (by decide) (congrArg Array.size hvariables),
    fun _ => run_of_modify hscopes (by decide) (congrArg Array.size hconstants)⟩

end Tables

namespace TablePair

open Tables

variable {list : List TableId} {t : TableId}

/-- The table names no row of a table that is sorted, and if it is sorted itself, then its rows are
in order. -/
structure Rests (t : TableId) (ts : Tables) : Prop where
  unnamed : ∀ c ∈ t.columns, ∀ s, c.references s = true → s.sortKey? = none
  ordered : ∀ key, t.sortKey? = some key →
    (ts.table t).toList.Pairwise fun a b => keyCells key a ≤ keyCells key b

/-- The tables that rest are as they were. -/
def KeepsResting (before after : Tables) : Prop :=
  ∀ t, Rests t before → after.table t = before.table t

lemma KeepsResting.trans {between : Tables} (h : KeepsResting before between)
    (h' : KeepsResting between after) : KeepsResting before after := by
  intro t hrests
  have hbetween := h t hrests
  rw [h' t ⟨hrests.unnamed, hbetween.symm ▸ hrests.ordered⟩, hbetween]

lemma keepsResting_of_sortImage (hlist : keysSettled list) {pair result : TablePair}
    (h : sortImage list pair = (result, none)) : KeepsResting pair.image result.image ∧
      OnSymbols KeepsResting pair.symbols result.symbols := by
  obtain ⟨orders, hsorted, hsymbols⟩ := sortImage_sortedAs hlist h
  have hfollow {t : TableId} {ts : Tables} (hrests : Rests t ts) :
      (ts.table t).map (t.followRow (newNumbers orders)) = ts.table t := by
    have hrow (row : Row) : t.followRow (newNumbers orders) row = row := by
      apply followRow_of_unnamed
      intro c hc s hs
      exact newNumbers_of_range (hsorted.kept s (.inr (.inr (hrests.unnamed c hc s hs))))
    rw [funext hrow, Array.map_id']
  refine ⟨fun t hrests => ?_, hsymbols.imp fun ts ts' _ hts t hrests => ?_⟩
  · have horder : orders t = List.range (pair.image.count t) := by
      cases hkey : t.sortKey? with
      | none => exact hsorted.kept t (.inr (.inr hkey))
      | some key =>
        apply hsorted.order_of_pairwise hkey
        rw [hfollow hrests]
        exact hrests.ordered key hkey
    rw [hsorted.table_of_range horder, hfollow hrests]
  · rw [hts.table, hfollow hrests]

/-- Sorting the tables of an image and of its PDB leaves the tables of the PDB that rest. -/
lemma keepsResting_of_sorted {pair after : TablePair} (h : pair.sorted = .ok after) :
    OnSymbols KeepsResting pair.symbols after.symbols := by
  obtain ⟨between, hsort, -, hsymbols⟩ := sorted_eq_ok h
  have hfirst := (keepsResting_of_sortImage keysSettled_imageOrder hsort).2
  refine hfirst.trans (fun ts followed ts' hts hsorted => hts.trans ?_) hsymbols
  obtain ⟨sorted, hsorted, rfl⟩ := hsorted
  exact (keepsResting_of_sortImage keysSettled_symbolOrder hsorted).1

/-- Scopes name methods and imports, variables and constants name nothing. -/
lemma unnamed_of_local {t : TableId} (ht : t ∈ [.localScope, .localVariable, .localConstant]) :
    ∀ c ∈ t.columns, ∀ s, c.references s = true → s.sortKey? = none := by
  have hall : ∀ t ∈ [TableId.localScope, .localVariable, .localConstant], ∀ c ∈ t.columns,
      ∀ s ∈ TableId.all, c.references s = true → s.sortKey? = none := by decide
  exact fun c hc s => hall t ht c hc s (TableId.mem_all s)

lemma rests_localScope {ts : Tables}
    (h : (ts.table .localScope).toList.Pairwise fun a b => a.getD 0 0 ≤ b.getD 0 0) :
    Rests .localScope ts := by
  refine ⟨unnamed_of_local (by simp), fun key hkey => ?_⟩
  cases hkey
  refine h.imp fun {a b} hle => keyLe_iff.mp ?_
  simpa [keyLe, UInt32.le_iff_lt_or_eq] using hle

end TablePair

namespace MethodPlan

open Tables TablePair

/-- Methods are renumbered in their order. -/
lemma get_le_get (himage : image.Arranged) (hfit : (ofImage image).rows.size < 2 ^ 32) {r s : UInt32}
    (hr : (image.metadata.tables.row? .methodDef r.toNat).isSome)
    (hs : (image.metadata.tables.row? .methodDef s.toNat).isSome) (hle : r ≤ s) :
    (ofImage image).rids.get r ≤ (ofImage image).rids.get s := by
  have hexists {r : UInt32} (hr : (image.metadata.tables.row? .methodDef r.toNat).isSome) :
      ∃ i, (ofImage image).rows[i]? = some (.existing r.toNat) ∧
        ((ofImage image).rids.get r).toNat = i + 1 := by
    obtain ⟨row, hrow⟩ := Option.isSome_iff_exists.mp hr
    obtain ⟨hpos, hrow⟩ := row?_eq_some.mp hrow
    have hlt := (Array.getElem?_eq_some_iff.mp hrow).1
    exact exists_planned himage hfit hpos (by rw [Tables.count]; omega)
  obtain ⟨i, hi, hri⟩ := hexists hr
  obtain ⟨j, hj, hsj⟩ := hexists hs
  apply UInt32.le_iff_toNat_le.mpr
  rcases Nat.lt_or_eq_of_le (UInt32.le_iff_toNat_le.mp hle) with hlt | heq
  · have := lt_of_places himage hi hj hlt
    omega
  · rw [UInt32.toNat_inj.mp heq]

/-- Renumbering the methods of an image does not permute the scopes of its PDB. -/
theorem ofImage_keepsScopes {data : Bytes} (hprepared : image.Prepared data)
    (hfit : (ofImage image).rows.size < 2 ^ 32) {tables ts renumbered : Tables} {after : TablePair}
    (hordered : (ts.table .localScope).toList.Pairwise fun a b => a.getD 0 0 ≤ b.getD 0 0)
    (hmethods : ∀ row ∈ ts.table .localScope, ∃ method, row[0]? = some method ∧
      (image.metadata.tables.row? .methodDef method.toNat).isSome)
    (hrenumbered : ts.renumbered (ofImage image).rids = .ok renumbered)
    (hsorted : (TablePair.mk tables (some renumbered)).sorted = .ok after) :
    ∃ ts', after.symbols = some ts' ∧ KeepsScopes (ofImage image).rids ts ts' := by
  have himage := hprepared.arranged
  have hfollowed := Followed.of_renumbered hrenumbered
  have htable : (ofImage image).rids.table = .methodDef := (ofImage_olds himage).2.1
  have hscopes : renumbered.table .localScope =
      (ts.table .localScope).map fun row => row.modify 0 (ofImage image).rids.get := by
    have himports : (ofImage image).rids.numbers .importScope = id :=
      rids_numbers_of_ne himage (by decide)
    have hnumbers : (ofImage image).rids.numbers .methodDef = (ofImage image).rids.get :=
      if_pos htable.symm
    rw [hfollowed.table, funext (followRow_localScope himports), hnumbers]
  have hplain (t : TableId) (ht : t = .localVariable ∨ t = .localConstant) :
      renumbered.table t = ts.table t := by
    have hempty : (ofImage image).rids.referencing t = [] := by
      rw [RidMap.referencing, htable]
      rcases ht with rfl | rfl <;> rfl
    rw [hfollowed.table, funext (RidMap.followRow_of_no_references hempty), Array.map_id']
  have hrests : Rests .localScope renumbered := rests_localScope <| by
    rw [hscopes, Array.toList_map, List.pairwise_map]
    refine hordered.imp_of_mem fun {a b} ha hb hle => ?_
    obtain ⟨r, hr, hrow⟩ := hmethods a (Array.mem_toList_iff.mp ha)
    obtain ⟨s, hs, hrow'⟩ := hmethods b (Array.mem_toList_iff.mp hb)
    simp only [Array.getD_eq_getD_getElem?, Array.getElem?_modify, hr, hs] at hle ⊢
    exact get_le_get himage hfit hrow hrow' hle
  have hkept := keepsResting_of_sorted hsorted
  cases hafter : after.symbols with
  | none =>
    rw [hafter] at hkept
    exact hkept.elim
  | some ts' =>
    rw [hafter] at hkept
    refine ⟨ts', rfl, keepsScopes_of_tables ((hkept _ hrests).trans hscopes) ?_ ?_⟩
    · rw [hkept _ ⟨unnamed_of_local (by simp), fun _ h => by cases h⟩, hplain _ (by simp)]
    · rw [hkept _ ⟨unnamed_of_local (by simp), fun _ h => by cases h⟩, hplain _ (by simp)]

/-- Four scopes of three methods, the first of which has two; all but the last own a variable. -/
def scopedPdb : Tables :=
  (((Tables.mk 0 2 0 0 1 0 (2 ^ 0x32) none (Vector.replicate _ #[])).setTable .localScope
    #[#[1, 0, 1, 1, 0, 9], #[1, 0, 2, 1, 2, 4], #[2, 0, 3, 2, 0, 3], #[3, 0, 4, 2, 0, 5]]).setTable
    .localVariable #[#[0, 0, 1], #[0, 1, 3], #[0, 0, 5]]).setTable .localConstant #[#[7, 1]]

/-- The image's own tables are sorted too. -/
theorem ofImage_keepsScopes_crossed : ∃ image renumbered after, image.Prepared crossed ∧
    (ofImage image).rids = ⟨.methodDef, #[1, 3, 4]⟩ ∧
    scopedPdb.renumbered (ofImage image).rids = .ok renumbered ∧
    (TablePair.mk generics.image (some renumbered)).sorted = .ok after ∧
    (after.symbols.map fun ts => (ts.table .localScope).map (·.getD 0 0)) = some #[1, 1, 3, 4] ∧
    ∃ ts', after.symbols = some ts' ∧ KeepsScopes (ofImage image).rids scopedPdb ts' := by
  obtain ⟨original, hread, htest⟩ := Result.exists_of_holds (x := Image.read 0 crossed)
    (p := fun original => original.methods[0]?.any fun m =>
      Result.holds (original.addMethod 0 { m with rid := none }) fun added =>
        decide ((ofImage added.1).rows.size < 2 ^ 32 ∧
          (ofImage added.1).rids = ⟨.methodDef, #[1, 3, 4]⟩ ∧
          added.1.metadata.tables.count .methodDef = 3))
    (by
      rw [Image.readByTails.2]
      decide +kernel)
  obtain ⟨m, -, htest⟩ := (Option.any_eq_true ..).mp htest
  obtain ⟨⟨image, _⟩, hadd, htest⟩ := Result.exists_of_holds htest
  obtain ⟨hfit, hrids, hcount⟩ := of_decide_eq_true htest
  obtain ⟨renumbered, hrenumbered, htest⟩ := Result.exists_of_holds
    (x := scopedPdb.renumbered ⟨.methodDef, #[1, 3, 4]⟩)
    (p := fun renumbered => Result.holds (TablePair.mk generics.image (some renumbered)).sorted
      fun after => (after.symbols.map fun ts => (ts.table .localScope).map (·.getD 0 0)) ==
        some #[1, 1, 3, 4])
    (by cbv)
  obtain ⟨after, hafter, htest⟩ := Result.exists_of_holds htest
  have hprepared : image.Prepared crossed := .add (.read hread) rfl hadd
  rw [← hrids] at hrenumbered
  refine ⟨image, renumbered, after, hprepared, hrids, hrenumbered, hafter, by simpa using htest,
    ofImage_keepsScopes hprepared hfit (by decide) ?_ hrenumbered hafter⟩
  have hnamed : ∀ row ∈ scopedPdb.table .localScope, ∃ method ∈ row[0]?,
      1 ≤ method.toNat ∧ method.toNat ≤ 3 := by decide
  intro row hrow
  obtain ⟨method, hmethod, hpos, hle⟩ := hnamed row hrow
  have hcount : (image.metadata.tables.table .methodDef).size = 3 := hcount
  have hlt : method.toNat - 1 < (image.metadata.tables.table .methodDef).size := by omega
  exact ⟨method, hmethod, Option.isSome_iff_exists.mpr
    ⟨_, row?_eq_some.mpr ⟨hpos, Array.getElem?_eq_getElem hlt⟩⟩⟩

end MethodPlan

end CliImage
