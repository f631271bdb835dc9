import CliImage.Proofs.Image.Evaluation
import CliImage.Proofs.Metadata.Formed
import CliImage.Proofs.Renumber.Carried

/-! References survive the planned renumbering of the methods and the sorting that follows it: each
table is permuted, and all cells name the rows that they named before. -/

namespace CliImage

namespace TablePair

open Tables

/-- New numbers for tables that are sorted in the listed order. The flagged ones are permuted as
their rows then are sorted, with some references renumbered already, and all others have the numbers
that they are given. -/
structure Permutes (before : Tables) (list : List TableId) (given numbers : RowNumbers) : Prop where
  given_eq : ∀ t, t ∉ list ∨ before.isSorted t = false → numbers t = given t
  sorted : ∀ t ∈ list, before.isSorted t = true → ∀ key, t.sortKey? = some key →
    ∃ earlier : RowNumbers, (∀ s, earlier s = id ∨ earlier s = numbers s) ∧ numbers t =
      (ridMapOf t (sortedOrder key ((before.table t).map (t.followRow earlier)))).get

lemma Permutes.nil (before : Tables) (given : RowNumbers) : Permutes before [] given given :=
  ⟨fun _ _ => rfl, fun _ h => by cases h⟩

/-- A table whose rows are in order is passed over. -/
lemma Permutes.skip {before : Tables} {t : TableId} {list : List TableId} {numbers : RowNumbers}
    (h : Permutes before list (fun _ => id) numbers) (ht : t ∉ list)
    (hrows : before.isSorted t = true → ∀ key, t.sortKey? = some key →
      sortedOrder key (before.table t) = List.range (before.count t)) :
    Permutes before (t :: list) (fun _ => id) numbers := by
  refine ⟨fun s hs => h.given_eq s (hs.imp_left fun hs hmem => hs (List.mem_cons_of_mem _ hmem)),
    fun s hmem hflag key hkey => ?_⟩
  rcases List.mem_cons.mp hmem with rfl | hmem
  · refine ⟨fun _ => id, fun _ => .inl rfl, ?_⟩
    rw [h.given_eq s (.inl ht), funext (followRow_id s), Array.map_id', hrows hflag key hkey]
    exact funext fun r => (get_ridMapOf_range r).symm
  · exact h.sorted s hmem hflag key hkey

/-- One more table is sorted in front of those that are sorted behind it. -/
lemma Permutes.cons {before between : Tables} {t : TableId} {list : List TableId}
    {numbers : RowNumbers} {key : List Nat} {map : RidMap}
    (h : Permutes between list (fun _ => id) numbers) (ht : t ∉ list)
    (hflag : between.isSorted = before.isSorted) (hsorted : before.isSorted t = true)
    (hkey : t.sortKey? = some key) (hmap : map = ridMapOf t (sortedOrder key (before.table t)))
    (htable : ∀ s, s ≠ t → between.table s = (before.table s).map (s.followRow map.numbers)) :
    Permutes before (t :: list) (fun _ => id) fun s => numbers s ∘ map.numbers s := by
  have hself : map.numbers t = map.get := by rw [RidMap.numbers, if_pos (by rw [hmap]; rfl)]
  have hother : ∀ s, s ≠ t → map.numbers s = id := fun s hs =>
    RidMap.numbers_of_ne (by rw [hmap]; exact hs)
  have ht_id : numbers t = id := h.given_eq t (.inl ht)
  refine ⟨fun s hs => ?_, fun s hmem hs key' hkey' => ?_⟩
  · have hne : s ≠ t := by
      rintro rfl
      rcases hs with hs | hs
      · exact hs (List.mem_cons_self ..)
      · rw [hsorted] at hs
        cases hs
    rw [hother s hne, Function.comp_id]
    exact h.given_eq s (by
      rw [hflag]
      exact hs.imp_left fun hs hmem => hs (List.mem_cons_of_mem _ hmem))
  · by_cases hne : s = t
    · subst hne
      rw [hkey] at hkey'
      cases hkey'
      refine ⟨fun _ => id, fun _ => .inl rfl, ?_⟩
      rw [ht_id, Function.id_comp, hself, hmap, funext (followRow_id s), Array.map_id']
    · obtain ⟨earlier, hearlier, hnumbers⟩ :=
        h.sorted s (List.mem_of_ne_of_mem hne hmem) (hflag ▸ hs) key' hkey'
      have honce : ∀ u, map.numbers u = id ∨ earlier u = id := by
        intro u
        by_cases hu : u = t
        · subst hu
          exact .inr ((hearlier u).elim id fun heq => heq.trans ht_id)
        · exact .inl (hother u hu)
      have hcomp : ∀ u, earlier u ∘ map.numbers u = id ∨
          earlier u ∘ map.numbers u = numbers u ∘ map.numbers u := by
        intro u
        by_cases hu : u = t
        · subst hu
          rw [(hearlier u).elim id fun heq => heq.trans ht_id, ht_id]
          exact .inr rfl
        · rw [hother u hu, Function.comp_id, Function.comp_id]
          exact hearlier u
      refine ⟨fun u => earlier u ∘ map.numbers u, hcomp, ?_⟩
      rw [hother s hne, Function.comp_id, hnumbers, htable s hne, Array.map_map]
      congr 3
      exact congrArg (fun f => (before.table s).map f) (funext (followRow_followRow honce s))

/-- Numbers that tables have been given before they are sorted. -/
lemma Permutes.compose {before between : Tables} {list : List TableId} {given numbers : RowNumbers}
    (h : Permutes between list (fun _ => id) numbers)
    (hflag : between.isSorted = before.isSorted) (hgiven : ∀ t ∈ list, given t = id)
    (htable : ∀ t ∈ list, between.table t = (before.table t).map (t.followRow given)) :
    Permutes before list given fun t => numbers t ∘ given t := by
  refine ⟨fun t ht => ?_, fun t hmem ht key hkey => ?_⟩
  · rw [h.given_eq t (hflag ▸ ht), Function.id_comp]
  · obtain ⟨earlier, hearlier, hnumbers⟩ := h.sorted t hmem (hflag ▸ ht) key hkey
    have hid : ∀ s, s ∉ list → numbers s = id ∧ earlier s = id := fun s hs => by
      have := h.given_eq s (.inl hs)
      exact ⟨this, (hearlier s).elim id fun heq => heq.trans this⟩
    have honce : ∀ s, given s = id ∨ earlier s = id := fun s =>
      (em (s ∈ list)).imp (hgiven s) fun hs => (hid s hs).2
    have hcomp : ∀ s, earlier s ∘ given s = id ∨ earlier s ∘ given s = numbers s ∘ given s := by
      intro s
      by_cases hs : s ∈ list
      · rw [hgiven s hs, Function.comp_id, Function.comp_id]
        exact hearlier s
      · rw [(hid s hs).1, (hid s hs).2]
        exact .inr rfl
    refine ⟨fun s => earlier s ∘ given s, hcomp, ?_⟩
    rw [hgiven t hmem, Function.comp_id, hnumbers, htable t hmem, Array.map_map]
    congr 3
    exact congrArg (fun f => (before.table t).map f) (funext (followRow_followRow honce t))

/-- Sorting the PDB's tables is sorting tables of which no other file's depend. -/
lemma sortSymbols_eq (list : List TableId) (ts : Tables) :
    sortSymbols list ts = ((sortImage list ⟨ts, none⟩).1.image, (sortImage list ⟨ts, none⟩).2) := by
  induction list generalizing ts with
  | nil => rfl
  | cons t rest ih =>
    rw [sortSymbols, sortImage]
    split_ifs with hsorted
    · cases hsort : ts.sortTable t with
      | mk after map =>
        cases map with
        | none => exact ih ts
        | some map =>
          simp only
          cases hfailure : (after.renumber map).failure with
          | some e => rfl
          | none => exact ih _
    · exact ih ts

/-- What happens to the tables of the PDB, if there is one. -/
def OnSymbols (holds : Tables → Tables → Prop) : Option Tables → Option Tables → Prop
  | some before, some after => holds before after
  | none, none => True
  | _, _ => False

lemma OnSymbols.trans {p q r : Tables → Tables → Prop}
    (hpq : ∀ before between after, p before between → q between after → r before after)
    {before between after : Option Tables} (h : OnSymbols p before between)
    (h' : OnSymbols q between after) : OnSymbols r before after := by
  cases before <;> cases between <;> cases after <;> try trivial
  exact hpq _ _ _ h h'

lemma OnSymbols.imp {p q : Tables → Tables → Prop} {before after : Option Tables}
    (h : OnSymbols p before after) (hpq : ∀ ts ts', before = some ts → p ts ts' → q ts ts') :
    OnSymbols q before after := by
  cases before <;> cases after <;> try exact h
  exact hpq _ _ rfl h

/-- One table has been sorted and the references to its rows follow. -/
lemma carried_of_sorted {t : TableId} {map : RidMap} {ts between after : Tables}
    (hsort : ts.sortTable t = (between, some map)) (hcount : ts.count t < 2 ^ 32)
    (h : between.renumbered map = .ok after) : Carried map.numbers map.numbers ts after :=
  (Carried.of_sortTable hsort hcount).trans (Followed.of_renumbered h).carried fun _ => .inl rfl

lemma renumbered_of_failure {ts : Tables} {map : RidMap} (h : (ts.renumber map).failure = none) :
    ts.renumbered map = .ok (ts.renumber map).value := by
  simp [Tables.renumbered, h]

/-- What sorting does to the tables of an image and of its PDB. -/
structure SortedBy (list : List TableId) (numbers : RowNumbers) (before after : TablePair) :
    Prop where
  permutes : Permutes before.image list (fun _ => id) numbers
  image : Carried numbers numbers before.image after.image
  symbols : OnSymbols (Followed numbers) before.symbols after.symbols

/-- One table is sorted, then those behind it. -/
lemma SortedBy.cons {t : TableId} {list : List TableId} {numbers : RowNumbers} {map : RidMap}
    {before between after : TablePair} {sorted : Tables} (ht : t ∉ list)
    (hsorted : before.image.isSorted t = true) (hcount : before.image.count t < 2 ^ 32)
    (hsort : before.image.sortTable t = (sorted, some map))
    (himage : sorted.renumbered map = .ok between.image)
    (hsymbols : OnSymbols (fun ts ts' => ts.renumbered map = .ok ts') before.symbols between.symbols)
    (h : SortedBy list numbers between after) :
    SortedBy (t :: list) (fun s => numbers s ∘ map.numbers s) before after := by
  have hcarried := carried_of_sorted hsort hcount himage
  have hfollowed := Followed.of_renumbered himage
  obtain ⟨key, order, hkey, rfl, horder, hmap, rfl⟩ := sortTable_eq_some hsort
  have honce : ∀ s, map.numbers s = id ∨ numbers s = id := by
    intro s
    by_cases hs : s = t
    · exact .inr (h.permutes.given_eq s (.inl (hs ▸ ht)))
    · exact .inl (RidMap.numbers_of_ne (by rw [hmap]; exact hs))
  have hfollow (ts ts' ts'' : Tables) (hts : ts.renumbered map = .ok ts')
      (hafter : Followed numbers ts' ts'') :
      Followed (fun s => numbers s ∘ map.numbers s) ts ts'' :=
    (Followed.of_renumbered hts).trans hafter honce
  refine ⟨h.permutes.cons ht hfollowed.isSorted hsorted hkey hmap fun s hs => ?_,
    hcarried.trans h.image honce, hsymbols.trans hfollow h.symbols⟩
  rw [hfollowed.table s, table_setTable_of_ne _ hs]

/-- The first of the tables is passed over, as it is not flagged or its rows are in order, or it is
sorted and its rows are renumbered; then the others are sorted. -/
lemma sortImage_cons {t : TableId} {rest : List TableId} {pair after : TablePair}
    (h : sortImage (t :: rest) pair = (after, none)) :
    ((pair.image.isSorted t = true → ∀ key, t.sortKey? = some key →
        sortedOrder key (pair.image.table t) = List.range (pair.image.count t)) ∧
      sortImage rest pair = (after, none)) ∨
    ∃ sorted map between, pair.image.isSorted t = true ∧
      pair.image.sortTable t = (sorted, some map) ∧
      sorted.renumbered map = .ok between.image ∧
      OnSymbols (fun ts ts' => ts.renumbered map = .ok ts') pair.symbols between.symbols ∧
      sortImage rest between = (after, none) := by
  rw [sortImage] at h
  split_ifs at h with hsorted
  · cases hsort : pair.image.sortTable t with
    | mk sorted map =>
      cases map with
      | none =>
        rw [hsort] at h
        exact .inl ⟨fun _ _ hkey => sortTable_eq_none hsort hkey, h⟩
      | some map =>
        simp only [hsort] at h
        cases hfailure : (sorted.renumber map).failure with
        | some e => simp [hfailure] at h
        | none =>
          have himage := renumbered_of_failure hfailure
          cases hsymbols : pair.symbols with
          | none =>
            simp only [hfailure, hsymbols] at h
            exact .inr ⟨sorted, map, ⟨_, none⟩, hsorted, rfl, himage, trivial, h⟩
          | some symbols =>
            cases hfailure' : (symbols.renumber map).failure with
            | some e => simp [hfailure, hsymbols, hfailure'] at h
            | none =>
              simp only [hfailure, hsymbols, hfailure'] at h
              exact .inr ⟨sorted, map, ⟨_, some _⟩, hsorted, rfl, himage,
                renumbered_of_failure hfailure', h⟩
  · exact .inl ⟨fun h => absurd h hsorted, h⟩

lemma sortImage_sortedBy {list : List TableId} (hnodup : list.Nodup) {pair after : TablePair}
    (hcount : ∀ t, pair.image.count t < 2 ^ 32) (h : sortImage list pair = (after, none)) :
    ∃ numbers, SortedBy list numbers pair after := by
  induction list generalizing pair with
  | nil =>
    cases h
    refine ⟨fun _ => id, Permutes.nil .., Carried.refl _, ?_⟩
    cases after.symbols with
    | none => trivial
    | some ts => exact Followed.refl ts
  | cons t rest ih =>
    obtain ⟨hfresh, hnodup'⟩ := List.nodup_cons.mp hnodup
    obtain ⟨hrows, h⟩ | ⟨sorted, map, between, hsorted, hsort, himage, hsymbols, h⟩ :=
      sortImage_cons h
    · obtain ⟨numbers, hrest⟩ := ih hnodup' hcount h
      exact ⟨numbers, hrest.permutes.skip hfresh hrows, hrest.image, hrest.symbols⟩
    · obtain ⟨numbers, hrest⟩ := ih hnodup' (fun s => by
        rw [(Followed.of_renumbered himage).count, count_of_sortTable hsort]
        exact hcount s) h
      exact ⟨_, .cons hfresh hsorted (hcount t) hsort himage hsymbols hrest⟩

/-- Sorting an image's tables and then those of its PDB. -/
lemma sorted_eq_ok {pair after : TablePair} (h : pair.sorted = .ok after) : ∃ between,
    sortImage imageOrder pair = (between, none) ∧ after.image = between.image ∧
      OnSymbols (fun ts ts' => ∃ sorted, sortImage symbolOrder ⟨ts, none⟩ = (sorted, none) ∧
        sorted.image = ts') between.symbols after.symbols := by
  unfold sorted at h
  cases hsort : pair.sort with
  | mk result failure =>
    cases failure with
    | some e => simp [hsort] at h
    | none =>
      rw [hsort] at h
      cases h
      unfold sort at hsort
      cases himage : sortImage imageOrder pair with
      | mk between failure =>
        cases failure with
        | some e => simp [himage] at hsort
        | none =>
          simp only [himage] at hsort
          cases hsymbols : between.symbols with
          | none =>
            simp only [hsymbols] at hsort
            cases hsort
            exact ⟨_, rfl, rfl, by rw [hsymbols]; trivial⟩
          | some ts =>
            simp only [hsymbols, sortSymbols_eq, Prod.mk.injEq] at hsort
            obtain ⟨rfl, hfailure⟩ := hsort
            exact ⟨between, rfl, rfl, by
              rw [hsymbols]
              exact ⟨_, Prod.ext rfl hfailure, rfl⟩⟩

/-- All listed tables have a sort key, are listed once and hold no types or methods. -/
lemma imageOrder_spec : imageOrder.Nodup ∧ ∀ t ∈ imageOrder, t.sortKey?.isSome ∧ t ≠ .methodDef ∧
    t ≠ .typeDef ∧ t.isDebug = false := by decide

lemma symbolOrder_spec : symbolOrder.Nodup ∧ ∀ t ∈ symbolOrder, t.sortKey?.isSome ∧
    t.isDebug = true := by decide

section Permutes

variable {before : Tables} {list : List TableId} {given numbers : RowNumbers}

/-- A sorted table's numbers are those of a permutation of its rows. -/
lemma Permutes.exists_order (h : Permutes before list given numbers)
    (hkeys : ∀ t ∈ list, t.sortKey?.isSome) (t : TableId) : numbers t = given t ∨
      t ∈ list ∧ ∃ order : List Nat, order.Perm (List.range (before.count t)) ∧
        numbers t = (ridMapOf t order).get := by
  by_cases hmem : t ∈ list
  · cases hflag : before.isSorted t with
    | false => exact .inl (h.given_eq t (.inr hflag))
    | true =>
      obtain ⟨key, hkey⟩ := Option.isSome_iff_exists.mp (hkeys t hmem)
      obtain ⟨earlier, -, hnumbers⟩ := h.sorted t hmem hflag key hkey
      refine .inr ⟨hmem, _, ?_, hnumbers⟩
      simpa [Tables.count] using sortedOrder_perm key ((before.table t).map (t.followRow earlier))
  · exact .inl (h.given_eq t (.inl hmem))

/-- The null row keeps its number. -/
lemma Permutes.zero (h : Permutes before list given numbers)
    (hkeys : ∀ t ∈ list, t.sortKey?.isSome) (hgiven : ∀ t, given t 0 = 0) (t : TableId) :
    numbers t 0 = 0 := by
  obtain heq | ⟨-, order, -, heq⟩ := h.exists_order hkeys t
  · rw [heq, hgiven t]
  · rw [heq]
    rfl

end Permutes

end TablePair

namespace Column

/-- The cell names the row that it named, under its new number; a coded index names it as far as the
number fits above the tag. -/
def Follows (numbers : RowNumbers) (column : Column) (old new : UInt32) : Prop :=
  match column with
  | .row t => new = if old = 0 then 0 else numbers t old
  | .coded kind =>
    (old.toNat / 2 ^ kind.tagBits = 0 → new = old) ∧
      (∀ e, kind.decode old = .error e → new = old) ∧
      ∀ t row, kind.decode old = .ok (t, row) → row ≠ 0 →
        kind.encode t (numbers t row) = .ok new ∧
          ((numbers t row).toNat < 2 ^ (32 - kind.tagBits) →
            kind.decode new = .ok (t, numbers t row))
  | _ => new = old

lemma follows_follow {numbers : RowNumbers} (hzero : ∀ t, numbers t 0 = 0) (column : Column)
    (value : UInt32) : column.Follows numbers value (column.follow numbers value) := by
  cases column with
  | row t =>
    rw [Follows, follow]
    split
    · rename_i hnull
      rw [hnull, hzero]
    · rfl
  | coded kind =>
    refine ⟨follow_null, fun e => follow_error, fun t row hold hrow => ?_⟩
    obtain ⟨new, hnew⟩ := CodedKind.encode_isOk_of_decode (r := numbers t row) hold
    have hne : value.toNat / 2 ^ kind.tagBits ≠ 0 := by
      intro heq
      have hrow' := (CodedKind.decode_eq_ok.mp hold).2
      rw [heq] at hrow'
      exact hrow hrow'
    rw [follow_decoded hne hold hnew]
    refine ⟨hnew, fun hfit => ?_⟩
    obtain ⟨hdecode, hvalue⟩ := CodedKind.decode_encode hnew
    rw [hdecode, hvalue, Nat.mod_eq_of_lt hfit, UInt32.ofNat_toNat]
  | _ => rfl

end Column

namespace Tables

/-- The rows of all tables are carried to different places, and their cells name what they named;
the first method row of a type apart. -/
structure Relocated (place numbers : RowNumbers) (before after : Tables) : Prop where
  injective : ∀ t (r s : UInt32), (before.row? t r.toNat).isSome → (before.row? t s.toNat).isSome →
    place t r = place t s → r = s
  row : ∀ t (r : UInt32) row, before.row? t r.toNat = some row →
    ∃ row', after.row? t (place t r).toNat = some row' ∧ row'.size = row.size ∧
      ∀ i column old, t.columns[i]? = some column → ¬ isMethodList t i → row[i]? = some old →
        ∃ new, row'[i]? = some new ∧ column.Follows numbers old new

lemma Carried.relocated {place numbers : RowNumbers} {before after : Tables}
    (h : Carried place numbers before after) (hzero : ∀ t, numbers t 0 = 0)
    (hinj : ∀ t (r s : UInt32), (before.row? t r.toNat).isSome → (before.row? t s.toNat).isSome →
      place t r = place t s → r = s) : Relocated place numbers before after := by
  refine ⟨hinj, fun t r row hrow => ?_⟩
  obtain ⟨row', hrow', hsize, hcells⟩ := h.row t r row hrow
  refine ⟨row', hrow', hsize, fun i column old hcolumn hlist hold => ?_⟩
  refine ⟨column.follow numbers old, ?_, column.follows_follow hzero old⟩
  rw [hcells i hlist, getElem?_followRow, hold, hcolumn]
  rfl

end Tables

namespace MethodPlan

open Tables TablePair

variable {image : Image}

/-- The tables of an image and of its PDB, renumbered by a plan, with the planned method rows and
sorted. -/
def rearrange (plan : MethodPlan) (pair : TablePair) (addedRow : Nat → Result Row) :
    Result TablePair := do
  let tables ← pair.image.renumbered plan.rids
  let symbols ← pair.symbols.mapM fun ts => ts.renumbered plan.rids
  let tables ← plan.apply tables addedRow
  (TablePair.mk tables symbols).sorted

lemma onSymbols_of_mapM {f : Tables → Result Tables} {before after : Option Tables}
    (h : before.mapM f = .ok after) : OnSymbols (fun ts ts' => f ts = .ok ts') before after := by
  cases before with
  | none =>
    cases h
    trivial
  | some ts =>
    obtain ⟨ts', hts, h⟩ := Result.bind_eq_ok.mp h
    cases h
    exact hts

/-- The plan gives different rows different numbers. -/
lemma rids_inj (himage : image.Arranged) (hfit : (ofImage image).rows.size < 2 ^ 32) {r s : UInt32}
    (hr : (image.metadata.tables.row? .methodDef r.toNat).isSome)
    (hs : (image.metadata.tables.row? .methodDef s.toNat).isSome)
    (h : (ofImage image).rids.get r = (ofImage image).rids.get s) : r = s := by
  obtain ⟨_, hr⟩ := Option.isSome_iff_exists.mp hr
  obtain ⟨_, hs⟩ := Option.isSome_iff_exists.mp hs
  obtain ⟨hrpos, hr⟩ := row?_eq_some.mp hr
  obtain ⟨hspos, hs⟩ := row?_eq_some.mp hs
  have hrlt := (Array.getElem?_eq_some_iff.mp hr).1
  have hslt := (Array.getElem?_eq_some_iff.mp hs).1
  obtain ⟨i, hi, hri⟩ := exists_planned himage hfit hrpos (by rw [Tables.count]; omega)
  obtain ⟨j, hj, hsj⟩ := exists_planned himage hfit hspos (by rw [Tables.count]; omega)
  have hij : i = j := by
    rw [h, hsj] at hri
    omega
  subst hij
  rw [hi] at hj
  have := PlannedMethod.existing.inj (Option.some.inj hj)
  exact UInt32.toNat_inj.mp this

/-- A permutation of rows that exist gives them different numbers. -/
lemma place_inj {ts : Tables} (hcount : ∀ t, ts.count t < 2 ^ 32) {t : TableId}
    (place : UInt32 → UInt32) (hplace : place = id ∨ ∃ order : List Nat, order.Perm (List.range (ts.count t)) ∧
      place = (ridMapOf t order).get) {r s : UInt32} (hr : (ts.row? t r.toNat).isSome)
    (hs : (ts.row? t s.toNat).isSome) (h : place r = place s) : r = s := by
  obtain rfl | ⟨order, horder, rfl⟩ := hplace
  · exact h
  · obtain ⟨_, hr⟩ := Option.isSome_iff_exists.mp hr
    obtain ⟨_, hs⟩ := Option.isSome_iff_exists.mp hs
    obtain ⟨hrpos, hr⟩ := row?_eq_some.mp hr
    obtain ⟨hspos, hs⟩ := row?_eq_some.mp hs
    have hrlt := (Array.getElem?_eq_some_iff.mp hr).1
    have hslt := (Array.getElem?_eq_some_iff.mp hs).1
    exact get_ridMapOf_inj horder (hcount t) ⟨hrpos, by rw [Tables.count]; omega⟩
      ⟨hspos, by rw [Tables.count]; omega⟩ h

lemma count_lt_of_read {id : Nat} {data : Bytes} (h : Image.read id data = .ok image)
    (t : TableId) : image.metadata.tables.count t < 2 ^ 32 := by
  obtain ⟨_, _, _, _, _, ⟨_, _, hmetadata⟩, _⟩ := Image.read_eq_ok h
  exact (Metadata.formed_of_read hmetadata).2.1 t

lemma rids_numbers_of_ne (himage : image.Arranged) {t : TableId} (ht : t ≠ .methodDef) :
    (ofImage image).rids.numbers t = id :=
  RidMap.numbers_of_ne (by rwa [(ofImage_olds himage).2.1])

/-- Renumbering, planned rows and sorting together, for the tables of the image. -/
lemma relocated_image (himage : image.Arranged) (hfit : (ofImage image).rows.size < 2 ^ 32)
    (hcount : ∀ t, image.metadata.tables.count t < 2 ^ 32) {addedRow : Nat → Result Row}
    {renumbered applied : Tables} {symbols : Option Tables} {between : TablePair}
    (hrenumbered : image.metadata.tables.renumbered (ofImage image).rids = .ok renumbered)
    (happly : (ofImage image).apply renumbered addedRow = .ok applied)
    (hsort : sortImage imageOrder ⟨applied, symbols⟩ = (between, none)) :
    ∃ p p' : RowNumbers, (p = fun t => p' t ∘ (ofImage image).rids.numbers t) ∧
      (∀ t, (ofImage image).rids.numbers t = id ∨ p' t = id) ∧
      Permutes image.metadata.tables imageOrder (ofImage image).rids.numbers p ∧
      Relocated p p image.metadata.tables between.image ∧
      OnSymbols (Followed p') symbols between.symbols := by
  have hfollowed := Followed.of_renumbered hrenumbered
  have happlied := carried_of_renumbered_apply himage hfit rfl hrenumbered happly
  obtain ⟨p', hp'⟩ := sortImage_sortedBy imageOrder_spec.1 (fun t => by
    simp only [count_of_apply happly t, hfollowed.count t]
    split
    · exact hfit
    · exact hcount t) hsort
  have honce : ∀ t, (ofImage image).rids.numbers t = id ∨ p' t = id := by
    intro t
    by_cases ht : t = .methodDef
    · exact .inr (hp'.permutes.given_eq t (.inl (ht ▸ by decide)))
    · exact .inl (rids_numbers_of_ne himage ht)
  have hpermutes : Permutes image.metadata.tables imageOrder (ofImage image).rids.numbers
      fun t => p' t ∘ (ofImage image).rids.numbers t := by
    refine hp'.permutes.compose ?_ (fun t ht => ?_) (fun t ht => ?_)
    · funext t
      rw [Tables.isSorted, happlied.header, Tables.isSorted]
    · exact rids_numbers_of_ne himage (imageOrder_spec.2 t ht).2.1
    · obtain ⟨rows, -, rfl⟩ := apply_eq_ok happly
      obtain ⟨-, hmethod, htype, -⟩ := imageOrder_spec.2 t ht
      rw [table_setTable_of_ne _ htype, table_setTable_of_ne _ hmethod, hfollowed.table t]
  have hkeys : ∀ t ∈ imageOrder, t.sortKey?.isSome := fun t ht => (imageOrder_spec.2 t ht).1
  have hzero : ∀ t, (ofImage image).rids.numbers t 0 = 0 := by
    intro t
    rw [RidMap.numbers]
    split <;> rfl
  refine ⟨_, p', rfl, honce, hpermutes, (happlied.trans hp'.image honce).relocated
    (hpermutes.zero hkeys hzero) fun t r s hr hs heq => ?_, hp'.symbols⟩
  by_cases ht : t = .methodDef
  · subst ht
    have hid : p' .methodDef = id := hp'.permutes.given_eq _ (.inl (by decide))
    simp only [hid, Function.id_comp] at heq
    rw [RidMap.numbers, if_pos (ofImage_olds himage).2.1.symm] at heq
    exact rids_inj himage hfit hr hs heq
  · refine place_inj hcount _ ?_ hr hs heq
    rcases hpermutes.exists_order hkeys t with hid | ⟨-, horder⟩
    · exact .inl (hid.trans (rids_numbers_of_ne himage ht))
    · exact .inr horder

/-- Sorting the PDB's tables after those of the image. -/
lemma relocated_symbols {p : RowNumbers} {ts followed : Tables} {sorted : TablePair}
    (hcount : ∀ t, ts.count t < 2 ^ 32) (hzero : ∀ t, p t 0 = 0)
    (hp : ∀ t ∈ symbolOrder, p t = id) (hfollowed : Followed p ts followed)
    (hsort : sortImage symbolOrder ⟨followed, none⟩ = (sorted, none)) :
    ∃ q : RowNumbers, Permutes ts symbolOrder p q ∧
      Relocated (fun t => if t ∈ symbolOrder then q t else id) q ts sorted.image := by
  obtain ⟨q', hq'⟩ := sortImage_sortedBy symbolOrder_spec.1 (fun t => by
    simp only [hfollowed.count t]
    exact hcount t) hsort
  have honce : ∀ t, p t = id ∨ q' t = id := fun t =>
    (em (t ∈ symbolOrder)).imp (hp t) fun ht => hq'.permutes.given_eq t (.inl ht)
  have hpermutes : Permutes ts symbolOrder p fun t => q' t ∘ p t :=
    hq'.permutes.compose hfollowed.isSorted hp fun t _ => hfollowed.table t
  have hkeys : ∀ t ∈ symbolOrder, t.sortKey?.isSome := fun t ht => (symbolOrder_spec.2 t ht).1
  have hplace : (fun t => q' t ∘ id) = fun t => if t ∈ symbolOrder then q' t ∘ p t else id := by
    funext t
    split
    · rename_i ht
      rw [hp t ht]
    · rename_i ht
      rw [hq'.permutes.given_eq t (.inl ht), Function.comp_id]
  have hcarried := hfollowed.carried.trans hq'.image honce
  rw [hplace] at hcarried
  refine ⟨_, hpermutes, hcarried.relocated (hpermutes.zero hkeys hzero)
    fun t r s hr hs heq => ?_⟩
  refine place_inj hcount (if t ∈ symbolOrder then q' t ∘ p t else id) ?_ hr hs heq
  split
  · rename_i ht
    rcases hpermutes.exists_order hkeys t with hid | ⟨-, horder⟩
    · exact .inl (hid.trans (hp t ht))
    · exact .inr horder
  · exact .inl rfl

/-- An image with a method in its first type and two in its second one, and two attributes of
methods. -/
def crossed : Bytes := #[
  77, 90, 0, 0, 0, 0, 0, 0, 0, 0, 0, 0, 0, 0, 0, 0, 0, 0, 0, 0, 0, 0, 0, 0, 0, 0, 0, 0, 0, 0, 0, 0,
  0, 0, 0, 0, 0, 0, 0, 0, 0, 0, 0, 0, 0, 0, 0, 0, 0, 0, 0, 0, 0, 0, 0, 0, 0, 0, 0, 0, 64, 0, 0, 0,
  80, 69, 0, 0, 76, 1, 1, 0, 0, 0, 0, 0, 0, 0, 0, 0, 0, 0, 0, 0, 216, 0, 2, 33, 11, 1, 0, 0, 0, 0,
  0, 0, 0, 0, 0, 0, 0, 0, 0, 0, 0, 0, 0, 0, 0, 0, 0, 0, 0, 0, 0, 0, 0, 0, 0, 0, 0, 16, 0, 0, 8, 0,
  0, 0, 0, 0, 0, 0, 0, 0, 0, 0, 0, 0, 0, 0, 0, 0, 0, 0, 0, 0, 0, 0, 88, 1, 0, 0, 0, 0, 0, 0, 0, 0,
  0, 0, 0, 0, 0, 0, 0, 0, 0, 0, 0, 0, 0, 0, 0, 0, 0, 0, 0, 0, 0, 0, 15, 0, 0, 0, 0, 0, 0, 0, 0, 0,
  0, 0, 0, 0, 0, 0, 0, 0, 0, 0, 0, 0, 0, 0, 0, 0, 0, 0, 0, 0, 0, 0, 0, 0, 0, 0, 0, 0, 0, 0, 0, 0,
  0, 0, 0, 0, 0, 0, 0, 0, 0, 0, 0, 0, 0, 0, 0, 0, 0, 0, 0, 0, 0, 0, 0, 0, 0, 0, 0, 0, 0, 0, 0, 0,
  0, 0, 0, 0, 0, 0, 0, 0, 0, 0, 0, 0, 0, 0, 0, 0, 0, 0, 0, 0, 0, 0, 0, 0, 0, 0, 0, 0, 0, 0, 0, 0,
  0, 0, 0, 0, 0, 0, 0, 0, 0, 0, 0, 16, 0, 0, 72, 0, 0, 0, 46, 116, 101, 120, 116, 0, 0, 0, 20, 1,
  0, 0, 0, 16, 0, 0, 24, 1, 0, 0, 88, 1, 0, 0, 0, 0, 0, 0, 0, 0, 0, 0, 0, 0, 0, 0, 32, 0, 0, 96,
  72, 0, 0, 0, 2, 0, 5, 0, 72, 16, 0, 0, 204, 0, 0, 0, 1, 0, 0, 0, 0, 0, 0, 0, 0, 0, 0, 0, 0, 0, 0,
  0, 0, 0, 0, 0, 0, 0, 0, 0, 0, 0, 0, 0, 0, 0, 0, 0, 0, 0, 0, 0, 0, 0, 0, 0, 0, 0, 0, 0, 0, 0, 0,
  0, 0, 0, 0, 0, 0, 0, 0, 0, 66, 83, 74, 66, 1, 0, 1, 0, 0, 0, 0, 0, 4, 0, 0, 0, 118, 52, 0, 0, 0,
  0, 3, 0, 72, 0, 0, 0, 120, 0, 0, 0, 35, 126, 0, 0, 192, 0, 0, 0, 4, 0, 0, 0, 35, 83, 116, 114,
  105, 110, 103, 115, 0, 0, 0, 0, 196, 0, 0, 0, 8, 0, 0, 0, 35, 66, 108, 111, 98, 0, 0, 0, 0, 0, 0,
  0, 2, 0, 0, 1, 68, 16, 0, 0, 0, 0, 0, 0, 0, 0, 0, 0, 0, 0, 0, 0, 2, 0, 0, 0, 3, 0, 0, 0, 2, 0, 0,
  0, 0, 0, 0, 0, 1, 0, 0, 0, 0, 0, 1, 0, 1, 0, 0, 0, 0, 0, 1, 0, 0, 0, 0, 0, 1, 0, 2, 0, 0, 0, 0,
  0, 0, 0, 0, 0, 1, 0, 1, 0, 1, 0, 0, 0, 0, 0, 0, 0, 0, 0, 1, 0, 1, 0, 1, 0, 0, 0, 0, 0, 0, 0, 0,
  0, 1, 0, 1, 0, 1, 0, 96, 0, 18, 0, 0, 0, 32, 0, 26, 0, 0, 0, 0, 0, 0, 65, 0, 0, 0, 3, 0, 0, 1, 0,
  0, 0, 0, 0, 0, 0]

/-- Two state machines of the same methods. -/
def crossedPdb : Tables :=
  (Tables.mk 0 2 0 0 1 0 0 none (Vector.replicate _ #[])).setTable
    .stateMachineMethod #[#[3, 2], #[2, 1]]

end MethodPlan

end CliImage
