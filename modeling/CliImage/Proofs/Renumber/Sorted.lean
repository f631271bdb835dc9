import CliImage.Proofs.Renumber.Isomorphism
import Mathlib

/-! Sorting leaves each flagged table in the order of its key, although the tables that are sorted
behind it are renumbered in it: a key names no row of them. -/

namespace CliImage

/-- The cells by which a table is sorted. -/
def keyCells (key : List Nat) (row : Row) : List UInt32 := key.map fun column => row.getD column 0

lemma keyLe_iff {key : List Nat} {a b : Row} : keyLe key a b = true ↔ keyCells key a ≤ keyCells key b := by
  induction key with
  | nil => simp [keyLe, keyCells]
  | cons column rest ih =>
    simp only [keyLe, keyCells, List.map_cons, List.cons_le_cons_iff, Bool.or_eq_true,
      Bool.and_eq_true, decide_eq_true_eq, beq_iff_eq]
    rw [ih]
    rfl

lemma keyLe_trans (key : List Nat) (a b c : Row) (hab : keyLe key a b = true)
    (hbc : keyLe key b c = true) : keyLe key a c = true :=
  keyLe_iff.mpr (List.le_trans (keyLe_iff.mp hab) (keyLe_iff.mp hbc))

lemma keyLe_total (key : List Nat) (a b : Row) : (keyLe key a b || keyLe key b a) = true := by
  rw [Bool.or_eq_true, keyLe_iff, keyLe_iff]
  exact List.le_total ..

namespace Tables

/-- Rows are put in the order of their keys, those with equal keys as they stood. -/
lemma sortedOrder_pairwise (key : List Nat) (rows : Array Row) :
    (sortedOrder key rows).Pairwise fun i j =>
      keyCells key (rows.getD i #[]) ≤ keyCells key (rows.getD j #[]) ∧
        (keyCells key (rows.getD i #[]) = keyCells key (rows.getD j #[]) → i < j) := by
  let le := fun i j => keyLe key (rows.getD i #[]) (rows.getD j #[])
  have htrans (i j k : Nat) : le i j → le j k → le i k := keyLe_trans key _ _ _
  have htotal (i j : Nat) : (le i j || le j i) = true := keyLe_total key _ _
  have hpairs : ((List.range rows.size).zipIdx.mergeSort (List.zipIdxLE le)).Pairwise
      fun p q => List.zipIdxLE le p q = true :=
    List.pairwise_mergeSort (List.zipIdxLE_trans htrans) (List.zipIdxLE_total htotal) _
  have hplace : ∀ p ∈ (List.range rows.size).zipIdx.mergeSort (List.zipIdxLE le), p.1 = p.2 := by
    intro p hp
    obtain ⟨hlt, heq⟩ := List.mem_zipIdx' (List.mem_mergeSort.mp hp)
    rw [heq, List.getElem_range]
  have hnodup : (sortedOrder key rows).Nodup :=
    (sortedOrder_perm key rows).nodup_iff.mpr List.nodup_range
  have horder : (sortedOrder key rows).Pairwise fun i j =>
      keyCells key (rows.getD i #[]) ≤ keyCells key (rows.getD j #[]) ∧
        (keyCells key (rows.getD j #[]) ≤ keyCells key (rows.getD i #[]) → i ≤ j) := by
    rw [sortedOrder, ← List.mergeSort_zipIdx, List.pairwise_map]
    refine hpairs.imp_of_mem fun {p q} hp hq hle => ?_
    rw [← keyLe_iff, ← keyLe_iff, hplace p hp, hplace q hq]
    rw [List.zipIdxLE, hplace p hp, hplace q hq] at hle
    split_ifs at hle with hpq hqp
    · exact ⟨hpq, fun _ => of_decide_eq_true hle⟩
    · exact ⟨hpq, fun h => absurd h hqp⟩
  refine (horder.and hnodup).imp fun {i j} h => ⟨h.1.1, fun heq => ?_⟩
  have := h.1.2 (heq ▸ List.le_refl _)
  have := h.2
  omega

/-- The rows of each table in a new order, in which all cells follow the rows that they name. The
chosen tables that are flagged have the order of their keys, and rows with equal keys stand as they
stood; all other tables keep their order. -/
structure SortedAs (chosen : TableId → Prop) (orders : TableId → List Nat) (numbers : RowNumbers)
    (before after : Tables) : Prop where
  header : after = { before with rows := after.rows }
  perm : ∀ t, (orders t).Perm (List.range (before.count t))
  rows : ∀ t, (after.table t).toList =
    (orders t).map fun i => t.followRow numbers ((before.table t).getD i #[])
  nondecreasing : ∀ t, chosen t → before.isSorted t = true → ∀ key, t.sortKey? = some key →
    (after.table t).toList.Pairwise fun a b => keyCells key a ≤ keyCells key b
  stable : ∀ t, chosen t → before.isSorted t = true → ∀ key, t.sortKey? = some key →
    (orders t).Pairwise fun i j =>
      keyCells key (t.followRow numbers ((before.table t).getD i #[])) =
        keyCells key (t.followRow numbers ((before.table t).getD j #[])) → i < j
  kept : ∀ t, ¬ chosen t ∨ before.isSorted t = false ∨ t.sortKey? = none →
    orders t = List.range (before.count t)

variable {chosen : TableId → Prop} {orders : TableId → List Nat} {numbers numbers' : RowNumbers}
  {before between after : Tables}

/-- The rows of one table in a new order, in which all cells follow the rows that they name. -/
structure Moved (t : TableId) (order : List Nat) (before after : Tables) : Prop where
  header : after = { before with rows := after.rows }
  perm : order.Perm (List.range (before.count t))
  self : (after.table t).toList = order.map fun i =>
    t.followRow (ridMapOf t order).numbers ((before.table t).getD i #[])
  others : ∀ s, s ≠ t → after.table s =
    (before.table s).map (s.followRow (ridMapOf t order).numbers)

lemma toList_eq_map_range (rows : Array Row) :
    rows.toList = (List.range rows.size).map fun i => rows.getD i #[] := by
  refine List.ext_getElem (by simp) fun i hi _ => ?_
  simp only [Array.length_toList] at hi
  simp [hi]

lemma followRow_getD (t : TableId) (numbers : RowNumbers) (rows : Array Row) (i : Nat) :
    (rows.map (t.followRow numbers)).getD i #[] = t.followRow numbers (rows.getD i #[]) := by
  simp only [Array.getD_eq_getD_getElem?, Array.getElem?_map]
  cases rows[i]? <;> rfl

lemma numbers_ridMapOf_range (t : TableId) (n : Nat) :
    (ridMapOf t (List.range n)).numbers = fun _ => id := by
  funext s r
  rw [RidMap.numbers]
  split
  · exact get_ridMapOf_range r
  · rfl

lemma Moved.refl (t : TableId) (ts : Tables) : Moved t (List.range (ts.count t)) ts ts := by
  refine ⟨rfl, .refl _, ?_, fun s _ => ?_⟩
  · simp only [numbers_ridMapOf_range, followRow_id]
    exact toList_eq_map_range _
  · rw [numbers_ridMapOf_range, funext (followRow_id s), Array.map_id']

/-- The tables of which a key can name rows. -/
def keyNames (t : TableId) (key : List Nat) (s : TableId) : Bool :=
  key.any fun i => (t.columns[i]?).any fun c => c.references s

/-- Cells of a key stay where they name no row that is renumbered. -/
lemma keyCells_followRow {t : TableId} {key : List Nat}
    (h : ∀ s, keyNames t key s = true → numbers s = id) (row : Row) :
    keyCells key (t.followRow numbers row) = keyCells key row := by
  refine List.map_congr_left fun i hi => ?_
  rw [Array.getD_eq_getD_getElem?, Array.getD_eq_getD_getElem?, getElem?_followRow]
  cases row[i]? with
  | none => rfl
  | some value =>
    cases hcolumn : t.columns[i]? with
    | none => rfl
    | some c =>
      have hc : ∀ s, c.references s = true → numbers s = id := fun s hs => h s (by
        simp only [keyNames, List.any_eq_true]
        exact ⟨i, hi, by simp [hcolumn, hs]⟩)
      simp [Column.follow_of_unnamed hc]

/-- Rows that move get the numbers of their new places. -/
def newNumbers (orders : TableId → List Nat) : RowNumbers := fun t => (ridMapOf t (orders t)).get

lemma newNumbers_of_range {t : TableId} {n : Nat} (h : orders t = List.range n) :
    newNumbers orders t = id := by
  funext r
  rw [newNumbers, h]
  exact get_ridMapOf_range r

lemma newNumbers_update {t : TableId} {n : Nat} (h : orders t = List.range n) (order : List Nat) :
    newNumbers (Function.update orders t order) =
      fun s => newNumbers orders s ∘ (ridMapOf t order).numbers s := by
  funext s
  by_cases hs : s = t
  · subst hs
    rw [newNumbers_of_range h, Function.id_comp, newNumbers, Function.update_self]
    exact (if_pos rfl).symm
  · rw [RidMap.numbers_of_ne (show s ≠ (ridMapOf t order).table from hs), Function.comp_id,
      newNumbers, Function.update_of_ne hs, newNumbers]

lemma newNumbers_range (ts : Tables) : (newNumbers fun t => List.range (ts.count t)) = fun _ => id :=
  funext fun _ => newNumbers_of_range rfl

lemma SortedAs.nil (ts : Tables) : SortedAs (· ∈ []) (fun t => List.range (ts.count t))
    (newNumbers fun t => List.range (ts.count t)) ts ts := by
  refine ⟨rfl, fun _ => .refl _, fun t => ?_, fun _ h => (by cases h), fun _ h => (by cases h),
    fun _ _ => rfl⟩
  simp only [newNumbers_range, followRow_id]
  exact toList_eq_map_range _

lemma Moved.count {t : TableId} {order : List Nat} (h : Moved t order before between)
    (s : TableId) : between.count s = before.count s := by
  by_cases hs : s = t
  · subst hs
    rw [Tables.count, ← Array.length_toList, h.self, List.length_map, h.perm.length_eq,
      List.length_range]
  · rw [Tables.count, h.others s hs, Array.size_map, Tables.count]

/-- One table is sorted and then those behind it, of which its key names no rows. -/
lemma SortedAs.cons {t : TableId} {rest : List TableId} {order : List Nat} (ht : t ∉ rest)
    (hmoved : Moved t order before between)
    (hsorted : before.isSorted t = true → ∀ key, t.sortKey? = some key →
      order = sortedOrder key (before.table t))
    (hkept : before.isSorted t = false ∨ t.sortKey? = none → order = List.range (before.count t))
    (hkey : ∀ key, t.sortKey? = some key → ∀ s ∈ t :: rest, keyNames t key s = false)
    (h : SortedAs (· ∈ rest) orders (newNumbers orders) between after) :
    SortedAs (· ∈ t :: rest) (Function.update orders t order)
      (newNumbers (Function.update orders t order)) before after := by
  have hflag : between.isSorted = before.isSorted := by
    funext s
    rw [isSorted, hmoved.header, isSorted]
  have hstays := h.kept t (.inl ht)
  have hnumbers := newNumbers_update hstays order
  have honce : ∀ s, (ridMapOf t order).numbers s = id ∨ newNumbers orders s = id := by
    intro s
    by_cases hs : s = t
    · exact .inr (newNumbers_of_range (hs ▸ hstays))
    · exact .inl (RidMap.numbers_of_ne (show s ≠ (ridMapOf t order).table from hs))
  have hrow : ∀ s, s ≠ t → ∀ i, s.followRow (newNumbers orders) ((between.table s).getD i #[]) =
      s.followRow (newNumbers (Function.update orders t order)) ((before.table s).getD i #[]) := by
    intro s hs i
    rw [hmoved.others s hs, followRow_getD, followRow_followRow honce, hnumbers]
  have hself : (after.table t).toList = order.map fun i =>
      t.followRow (newNumbers (Function.update orders t order)) ((before.table t).getD i #[]) := by
    have hrange : (List.range (between.count t)).map (fun i =>
        t.followRow (newNumbers orders) ((between.table t).getD i #[])) =
          (between.table t).toList.map (t.followRow (newNumbers orders)) := by
      rw [toList_eq_map_range, List.map_map]
      rfl
    rw [h.rows t, hstays, hrange, hmoved.self, List.map_map, hnumbers]
    exact List.map_congr_left fun i _ => followRow_followRow honce t _
  have hcells : ∀ key, t.sortKey? = some key → ∀ row,
      keyCells key (t.followRow (newNumbers (Function.update orders t order)) row) =
        keyCells key row := by
    refine fun key hk => keyCells_followRow fun s hs => ?_
    have hmem : s ∉ t :: rest := fun hmem => by
      rw [hkey key hk s hmem] at hs
      cases hs
    obtain ⟨hne, hrest⟩ := not_or.mp (List.mem_cons.not.mp hmem)
    exact newNumbers_of_range (by rw [Function.update_of_ne hne, h.kept s (.inl hrest)])
  refine ⟨by rw [h.header, hmoved.header], fun s => ?_, fun s => ?_, fun s hmem hs key hk => ?_,
    fun s hmem hs key hk => ?_, fun s hs => ?_⟩
  · obtain rfl | hst := eq_or_ne s t
    · rw [Function.update_self]
      exact hmoved.perm
    · rw [Function.update_of_ne hst, ← hmoved.count]
      exact h.perm s
  · obtain rfl | hst := eq_or_ne s t
    · rw [hself, Function.update_self]
    · rw [h.rows s, Function.update_of_ne hst]
      exact List.map_congr_left fun i _ => hrow s hst i
  · obtain rfl | hst := eq_or_ne s t
    · rw [hself, List.pairwise_map, hsorted hs key hk]
      refine (sortedOrder_pairwise key _).imp fun {i j} hij => ?_
      rw [← hsorted hs key hk, hcells key hk, hcells key hk]
      exact hij.1
    · exact h.nondecreasing s (List.mem_of_ne_of_mem hst hmem) (hflag ▸ hs) key hk
  · obtain rfl | hst := eq_or_ne s t
    · simp only [hcells key hk]
      rw [Function.update_self, hsorted hs key hk]
      exact (sortedOrder_pairwise key _).imp fun hij => hij.2
    · simp only [← hrow s hst]
      rw [Function.update_of_ne hst]
      exact h.stable s (List.mem_of_ne_of_mem hst hmem) (hflag ▸ hs) key hk
  · obtain rfl | hst := eq_or_ne s t
    · rw [Function.update_self]
      exact hkept (hs.resolve_left fun hs => hs (List.mem_cons_self ..))
    · rw [Function.update_of_ne hst, ← hmoved.count]
      refine h.kept s ?_
      rw [hflag]
      exact hs.imp_left fun hs hmem => hs (List.mem_cons_of_mem _ hmem)

lemma Moved.of_sortTable {t : TableId} {map : RidMap} {sorted : Tables}
    (hsort : before.sortTable t = (sorted, some map)) (h : sorted.renumbered map = .ok after) :
    ∃ key order, t.sortKey? = some key ∧ order = sortedOrder key (before.table t) ∧
      map = ridMapOf t order ∧ Moved t order before after := by
  obtain ⟨key, order, hkey, horder, hperm, rfl, rfl⟩ := sortTable_eq_some hsort
  have hfollowed := Followed.of_renumbered h
  refine ⟨key, order, hkey, horder, rfl, hfollowed.header, hperm, ?_, fun s hs => ?_⟩
  · rw [hfollowed.table, table_setTable_self, Array.toList_map, List.map_map]
    rfl
  · rw [hfollowed.table, table_setTable_of_ne _ hs]

lemma SortedAs.count (h : SortedAs chosen orders numbers before after) (t : TableId) :
    after.count t = before.count t := by
  rw [Tables.count, ← Array.length_toList, h.rows, List.length_map, (h.perm t).length_eq,
    List.length_range]

/-- A table that keeps its order has the same rows, which follow what they name. -/
lemma SortedAs.table_of_range {t : TableId} (h : SortedAs chosen orders numbers before after)
    (horder : orders t = List.range (before.count t)) :
    after.table t = (before.table t).map (t.followRow numbers) := by
  apply Array.toList_inj.mp
  rw [h.rows, horder, Array.toList_map, toList_eq_map_range (before.table t), List.map_map]
  rfl

/-- It only matters which of the tables with a key are chosen. -/
lemma SortedAs.congr {chosen' : TableId → Prop} (h : SortedAs chosen orders numbers before after)
    (hchosen : ∀ t, chosen' t ∧ t.sortKey?.isSome ↔ chosen t) :
    SortedAs chosen' orders numbers before after := by
  refine ⟨h.header, h.perm, h.rows, fun t ht hs key hkey => ?_, fun t ht hs key hkey => ?_,
    fun t ht => h.kept t ?_⟩
  · exact h.nondecreasing t ((hchosen t).mp ⟨ht, by rw [hkey]; rfl⟩) hs key hkey
  · exact h.stable t ((hchosen t).mp ⟨ht, by rw [hkey]; rfl⟩) hs key hkey
  · rw [← hchosen t]
    rcases ht with ht | ht | ht
    · exact .inl fun h => ht h.1
    · exact .inr (.inl ht)
    · exact .inr (.inr ht)

/-- Rows that have been renumbered before they are sorted. -/
lemma SortedAs.of_followed (hfollowed : Followed numbers before between)
    (h : SortedAs chosen orders numbers' between after)
    (honce : ∀ t, numbers t = id ∨ numbers' t = id) :
    SortedAs chosen orders (fun t => numbers' t ∘ numbers t) before after := by
  have hrow : ∀ (t : TableId) i, t.followRow numbers' ((between.table t).getD i #[]) =
      t.followRow (fun t => numbers' t ∘ numbers t) ((before.table t).getD i #[]) := by
    intro t i
    rw [hfollowed.table, followRow_getD, followRow_followRow honce]
  refine ⟨by rw [h.header, hfollowed.header], fun t => ?_, fun t => ?_, fun t ht hs => ?_,
    fun t ht hs key hkey => ?_, fun t ht => ?_⟩
  · rw [← hfollowed.count]
    exact h.perm t
  · simp only [h.rows t, hrow]
  · exact h.nondecreasing t ht (hfollowed.isSorted ▸ hs)
  · simp only [← hrow]
    exact h.stable t ht (hfollowed.isSorted ▸ hs) key hkey
  · rw [← hfollowed.count]
    exact h.kept t (hfollowed.isSorted ▸ ht)

end Tables

namespace TablePair

open Tables

/-- The key of each listed table names no row of it or of those behind it. -/
def keysSettled (list : List TableId) : Prop :=
  (∀ t ∈ list, ∀ key ∈ t.sortKey?, keyNames t key t = false) ∧
    list.Pairwise fun t s => t ≠ s ∧ ∀ key ∈ t.sortKey?, keyNames t key s = false

lemma keysSettled_imageOrder : keysSettled imageOrder := by
  unfold keysSettled
  decide

lemma keysSettled_symbolOrder : keysSettled symbolOrder := by
  unfold keysSettled
  decide

lemma mem_imageOrder (t : TableId) : t ∈ imageOrder ↔ t.isDebug = false ∧ t.sortKey?.isSome := by
  have h : ∀ t ∈ TableId.all, t ∈ imageOrder ↔ t.isDebug = false ∧ t.sortKey?.isSome := by decide
  exact h t (TableId.mem_all t)

lemma mem_symbolOrder (t : TableId) : t ∈ symbolOrder ↔ t.isDebug = true ∧ t.sortKey?.isSome := by
  rw [symbolOrder, List.mem_filter, Bool.and_eq_true]
  exact and_iff_right (TableId.mem_all t)

/-- Sorting the first of the tables moves its rows, if it is flagged. -/
lemma sortImage_moved {t : TableId} {rest : List TableId} {pair after : TablePair}
    (h : sortImage (t :: rest) pair = (after, none)) : ∃ order between,
      Moved t order pair.image between.image ∧
      (pair.image.isSorted t = true → ∀ key, t.sortKey? = some key →
        order = sortedOrder key (pair.image.table t)) ∧
      (pair.image.isSorted t = false ∨ t.sortKey? = none →
        order = List.range (pair.image.count t)) ∧
      OnSymbols (Followed (ridMapOf t order).numbers) pair.symbols between.symbols ∧
      sortImage rest between = (after, none) := by
  obtain ⟨hrows, h⟩ | ⟨sorted, map, between, hsorted, hsort, himage, hsymbols, h⟩ :=
    sortImage_cons h
  · refine ⟨_, pair, .refl t _, fun hs key hkey => (hrows hs key hkey).symm, fun _ => rfl, ?_, h⟩
    rw [numbers_ridMapOf_range]
    cases pair.symbols with
    | none => trivial
    | some ts => exact Followed.refl ts
  · obtain ⟨key, order, hkey, rfl, rfl, hmoved⟩ := Moved.of_sortTable hsort himage
    refine ⟨_, between, hmoved, fun _ key' hkey' => ?_, fun hnot => ?_,
      hsymbols.imp fun _ _ _ hts => Followed.of_renumbered hts, h⟩
    · rw [hkey] at hkey'
      cases hkey'
      rfl
    · rw [hsorted, hkey] at hnot
      simp at hnot

/-- Sorting tables whose keys are settled by then. -/
lemma sortImage_sortedAs {list : List TableId} (hlist : keysSettled list) {pair after : TablePair}
    (h : sortImage list pair = (after, none)) : ∃ orders,
      SortedAs (· ∈ list) orders (newNumbers orders) pair.image after.image ∧
      OnSymbols (Followed (newNumbers orders)) pair.symbols after.symbols := by
  induction list generalizing pair with
  | nil =>
    cases h
    refine ⟨_, SortedAs.nil _, ?_⟩
    rw [newNumbers_range]
    cases after.symbols with
    | none => trivial
    | some ts => exact Followed.refl ts
  | cons t rest ih =>
    obtain ⟨hself, hpairs⟩ := hlist
    obtain ⟨hhead, hrest⟩ := List.pairwise_cons.mp hpairs
    have ht : t ∉ rest := fun hmem => (hhead t hmem).1 rfl
    obtain ⟨order, between, hmoved, hsorted, hkept, hsymbols, h⟩ := sortImage_moved h
    obtain ⟨orders, hbehind, hfollowed⟩ :=
      ih ⟨fun s hs => hself s (List.mem_cons_of_mem _ hs), hrest⟩ h
    have hstays := hbehind.kept t (.inl ht)
    refine ⟨_, hbehind.cons ht hmoved hsorted hkept fun key hkey s hs => ?_, ?_⟩
    · rcases List.mem_cons.mp hs with rfl | hs
      · exact hself s (List.mem_cons_self ..) key hkey
      · exact (hhead s hs).2 key hkey
    · rw [newNumbers_update hstays]
      refine hsymbols.trans (fun _ _ _ hts hts' => hts.trans hts' fun s => ?_) hfollowed
      by_cases hs : s = t
      · exact .inr (newNumbers_of_range (hs ▸ hstays))
      · exact .inl (RidMap.numbers_of_ne (show s ≠ (ridMapOf t order).table from hs))

/-- Sorting leaves the flagged tables of an image in the order of their keys, and the flagged debug
tables of its PDB. -/
theorem sorted_sortedAs {pair after : TablePair} (h : pair.sorted = .ok after) : ∃ orders,
    SortedAs (·.isDebug = false) orders (newNumbers orders) pair.image after.image ∧
      OnSymbols (fun ts ts' => ∃ orders', SortedAs (·.isDebug = true) orders'
        (newNumbers fun t => if t.isDebug then orders' t else orders t) ts ts')
        pair.symbols after.symbols := by
  obtain ⟨between, hsort, hafter, hsymbols⟩ := sorted_eq_ok h
  obtain ⟨orders, himage, hfollowed⟩ := sortImage_sortedAs keysSettled_imageOrder hsort
  have himage := himage.congr fun t => (mem_imageOrder t).symm
  refine ⟨orders, hafter ▸ himage, ?_⟩
  refine hfollowed.trans (fun ts followed ts' hts hsorted => ?_) hsymbols
  obtain ⟨sorted, hsort', rfl⟩ := hsorted
  obtain ⟨orders', hts', -⟩ := sortImage_sortedAs keysSettled_symbolOrder hsort'
  have hts' := hts'.congr fun t => (mem_symbolOrder t).symm
  have hnumbers : (newNumbers fun t => if t.isDebug then orders' t else orders t) =
      fun t => newNumbers orders' t ∘ newNumbers orders t := by
    funext t
    cases hdebug : t.isDebug with
    | true =>
      rw [newNumbers_of_range (himage.kept t (.inl (by simp [hdebug]))), Function.comp_id]
      simp [newNumbers, hdebug]
    | false =>
      rw [newNumbers_of_range (hts'.kept t (.inl (by simp [hdebug]))), Function.id_comp]
      simp [newNumbers, hdebug]
  refine ⟨orders', hnumbers ▸ hts'.of_followed hts fun t => ?_⟩
  cases hdebug : t.isDebug with
  | true => exact .inl (newNumbers_of_range (himage.kept t (.inl (by simp [hdebug]))))
  | false => exact .inr (newNumbers_of_range (hts'.kept t (.inl (by simp [hdebug]))))

/-- Two type parameters in the wrong order, with a constraint each and debug information. -/
def generics : TablePair where
  image := (((Tables.mk 0 2 0 0 1 0 (2 ^ 0x2A + 2 ^ 0x2C) none (Vector.replicate _ #[])).setTable
    .genericParam #[#[0, 0, 6, 1], #[0, 0, 4, 2]]).setTable
    .genericParamConstraint #[#[1, 8], #[2, 16]])
  symbols := some ((Tables.mk 0 2 0 0 1 0 (2 ^ 0x37) none (Vector.replicate _ #[])).setTable
    .customDebugInformation #[#[51, 1, 1], #[83, 1, 5]])

theorem sorted_sortedAs_generics : ∃ after, generics.sorted = .ok after ∧
    after.image.table .genericParamConstraint = #[#[1, 16], #[2, 8]] ∧
    after.symbols.map (·.table .customDebugInformation) = some #[#[51, 1, 5], #[83, 1, 1]] ∧
    ∃ orders, SortedAs (·.isDebug = false) orders (newNumbers orders) generics.image after.image ∧
      OnSymbols (fun ts ts' => ∃ orders', SortedAs (·.isDebug = true) orders'
        (newNumbers fun t => if t.isDebug then orders' t else orders t) ts ts')
        generics.symbols after.symbols := by
  obtain ⟨after, hafter, htest⟩ := Result.exists_of_holds (x := generics.sorted)
    (p := fun after =>
      decide (after.image.table .genericParamConstraint = #[#[1, 16], #[2, 8]] ∧
        after.symbols.map (·.table .customDebugInformation) = some #[#[51, 1, 5], #[83, 1, 1]]))
    (by cbv)
  obtain ⟨himage, hsymbols⟩ := of_decide_eq_true htest
  exact ⟨after, hafter, himage, hsymbols, sorted_sortedAs hafter⟩

end TablePair

end CliImage
