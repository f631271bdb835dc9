import CliImage.Proofs.Image.Arena
import CliImage.Renumber.MethodPlan

/-! A plan holds every old row once and in order, and its renumbering tells where. -/

namespace CliImage

def PlannedMethod.old? : PlannedMethod → Option Nat
  | .existing rid => some rid
  | .added _ => none

/-- How a plan names the method at a place. -/
def Image.planned (image : Image) (j : Nat) : PlannedMethod :=
  match (image.methods[j]?).bind Method.rid with
  | some rid => .existing rid
  | none => .added j

def Image.plannedOf (image : Image) (t : TypeDef) : List PlannedMethod :=
  t.methods.toList.map image.planned

namespace MethodPlan

def existings (first n : Nat) : List PlannedMethod := (List.range' first n).map .existing

lemma existings_append (first n m : Nat) :
    existings first n ++ existings (first + n) m = existings first (n + m) := by
  rw [existings, existings, ← List.map_append, List.range'_append_1, existings]

@[simp] lemma existings_zero (first : Nat) : existings first 0 = [] := rfl

@[simp] lemma length_existings (first n : Nat) : (existings first n).length = n := by
  simp [existings]

@[simp] lemma old?_existings (first n : Nat) :
    (existings first n).filterMap PlannedMethod.old? = List.range' first n := by
  rw [existings, List.filterMap_map]
  exact List.filterMap_some

/-- The first rows of blocks that lie one behind the other, with `n` rows before them. -/
def starts : Nat → List (List PlannedMethod) → List UInt32
  | _, [] => []
  | n, block :: blocks => UInt32.ofNat (n + 1) :: starts (n + block.length) blocks

lemma starts_getElem? (n : Nat) (blocks : List (List PlannedMethod)) (i : Nat) :
    (starts n blocks)[i]? = if i < blocks.length
      then some (UInt32.ofNat (n + (blocks.take i).flatten.length + 1)) else none := by
  induction blocks generalizing n i with
  | nil => simp [starts]
  | cons block blocks ih =>
    cases i with
    | zero => simp [starts]
    | succ i =>
      rw [starts, List.getElem?_cons_succ, ih]
      simp [Nat.add_assoc]

@[simp] lemma length_starts (n : Nat) (blocks : List (List PlannedMethod)) :
    (starts n blocks).length = blocks.length := by
  induction blocks generalizing n with
  | nil => rfl
  | cons block blocks ih => simp [starts, ih]

namespace Draft

/-- The draft holds the first `n` old rows, in order, and knows where each of them stands. -/
structure Holds (old n : Nat) (d : Draft) : Prop where
  olds : d.rows.toList.filterMap PlannedMethod.old? = List.range' 1 n
  size_targets : d.targets.size = old
  targets : ∀ i r, d.rows[i]? = some (.existing r) → d.targets[r - 1]? = some (UInt32.ofNat (i + 1))

variable {old n : Nat} {d : Draft}

lemma Holds.le_of_mem (h : d.Holds old n) {i r : Nat} (hi : d.rows[i]? = some (.existing r)) :
    1 ≤ r ∧ r ≤ n := by
  have hmem : r ∈ d.rows.toList.filterMap PlannedMethod.old? := by
    refine List.mem_filterMap.mpr ⟨.existing r, ?_, rfl⟩
    exact Array.mem_toList_iff.mpr (Array.mem_of_getElem? hi)
  rw [h.olds, List.mem_range'_1] at hmem
  omega

lemma Holds.place (h : d.Holds old n) (hn : n < old) : (d.place (n + 1)).Holds old (n + 1) := by
  refine ⟨?_, by simp [Draft.place, h.size_targets], fun i r hi => ?_⟩
  · rw [List.range'_1_concat, ← h.olds]
    simp [Draft.place, PlannedMethod.old?, Nat.add_comm]
  · simp only [Draft.place, Array.getElem?_push] at hi
    rw [Draft.place, Nat.add_sub_cancel, Array.getElem?_setIfInBounds]
    split at hi
    · rename_i hi'
      cases hi
      simp [h.size_targets, hn, hi']
    · have hr := h.le_of_mem hi
      rw [if_neg (by omega)]
      exact h.targets i r hi

lemma Holds.foldl_place (h : d.Holds old n) {m : Nat} (hm : n + m ≤ old) :
    ((List.range' (n + 1) m).foldl Draft.place d).Holds old (n + m) := by
  induction m generalizing n d with
  | zero => exact h
  | succ m ih =>
    rw [List.range'_succ, List.foldl_cons, ← Nat.add_assoc, Nat.add_right_comm]
    exact ih (h.place (by omega)) (by omega)

lemma Holds.push (h : d.Holds old n) (j : Nat) :
    { d with rows := d.rows.push (.added j) }.Holds old n := by
  refine ⟨?_, h.size_targets, fun i r hi => ?_⟩
  · simp [← h.olds, PlannedMethod.old?]
  · simp only [Array.getElem?_push] at hi
    split at hi
    · cases hi
    · exact h.targets i r hi

lemma rows_foldl_place (rids : List Nat) (d : Draft) :
    (rids.foldl Draft.place d).rows.toList = d.rows.toList ++ rids.map .existing ∧
      (rids.foldl Draft.place d).next = d.next ∧
      (rids.foldl Draft.place d).firstRows = d.firstRows := by
  induction rids generalizing d with
  | nil => simp
  | cons rid rids ih =>
    obtain ⟨hrows, hnext, hfirst⟩ := ih (d.place rid)
    exact ⟨by rw [List.foldl_cons, hrows]; simp [Draft.place], hnext, hfirst⟩

/-- Passing the old rows below a number. -/
lemma placeBelow_spec (h : d.Holds old n) (hnext : d.next = n + 1) (stop : Nat) (hn : n < stop)
    (hstop : stop ≤ old + 1) :
    (d.placeBelow stop).Holds old (stop - 1) ∧ (d.placeBelow stop).next = stop ∧
      (d.placeBelow stop).rows.toList = d.rows.toList ++ existings (n + 1) (stop - (n + 1)) ∧
      (d.placeBelow stop).firstRows = d.firstRows := by
  have hfold := h.foldl_place (m := stop - (n + 1)) (by omega)
  rw [show n + (stop - (n + 1)) = stop - 1 by omega] at hfold
  obtain ⟨hrows, -, hfirst⟩ := rows_foldl_place (List.range' (n + 1) (stop - (n + 1))) d
  simp only [placeBelow, hnext]
  exact ⟨⟨hfold.olds, hfold.size_targets, hfold.targets⟩, by omega, hrows, hfirst⟩

lemma placeMethod_of_rid {image : Image} {j rid : Nat}
    (hrid : (image.methods[j]?).bind Method.rid = some rid) (d : Draft) :
    placeMethod image d j = { d.place rid with next := max d.next (rid + 1) } := by
  simp only [placeMethod, hrid]
  rfl

lemma placeMethod_of_added {image : Image} {j : Nat}
    (hrid : (image.methods[j]?).bind Method.rid = none) (d : Draft) :
    placeMethod image d j = { d with rows := d.rows.push (.added j) } := by
  simp only [placeMethod, hrid]

lemma rows_foldl_placeMethod (image : Image) (js : List Nat) (d : Draft) :
    (js.foldl (placeMethod image) d).rows.toList = d.rows.toList ++ js.map image.planned ∧
      (js.foldl (placeMethod image) d).firstRows = d.firstRows := by
  induction js generalizing d with
  | nil => simp
  | cons j js ih =>
    obtain ⟨hrows, hfirst⟩ := ih (placeMethod image d j)
    rw [List.foldl_cons, hrows, hfirst]
    cases hrid : (image.methods[j]?).bind Method.rid with
    | some rid => simp [placeMethod_of_rid hrid, place, Image.planned, hrid]
    | none => simp [placeMethod_of_added hrid, Image.planned, hrid]

/-- The old methods of a type take up the old rows where the draft has left off. -/
lemma foldl_placeMethod_old {image : Image} (himage : image.Arranged)
    (hold : image.metadata.tables.count .methodDef = old) (h : d.Holds old n)
    (hnext : d.next = n + 1) {m : Nat} (hm : n + m ≤ old) :
    ((List.range' n m).foldl (placeMethod image) d).Holds old (n + m) ∧
      ((List.range' n m).foldl (placeMethod image) d).next = n + m + 1 := by
  induction m generalizing n d with
  | zero => exact ⟨h, hnext⟩
  | succ m ih =>
    have hplace := placeMethod_of_rid (himage.rid_eq n (by omega)) d
    rw [List.range'_succ, List.foldl_cons, ← Nat.add_assoc, Nat.add_right_comm, hplace]
    have hh := h.place (by omega)
    exact ih ⟨hh.olds, hh.size_targets, hh.targets⟩ (by simp only [hnext]; omega) (by omega)

lemma foldl_placeMethod_added {image : Image} (himage : image.Arranged)
    (hold : image.metadata.tables.count .methodDef = old) (h : d.Holds old n) {js : List Nat}
    (hjs : ∀ j ∈ js, old ≤ j) :
    (js.foldl (placeMethod image) d).Holds old n ∧
      (js.foldl (placeMethod image) d).next = d.next := by
  induction js generalizing d with
  | nil => exact ⟨h, rfl⟩
  | cons j js ih =>
    have hj : image.metadata.tables.count .methodDef ≤ j := by
      rw [hold]
      exact hjs j (List.mem_cons_self ..)
    rw [List.foldl_cons, placeMethod_of_added (himage.rid_eq_none j hj)]
    exact ih (h.push j) fun j' hj' => hjs j' (List.mem_cons_of_mem j hj')

/-- Where a type's old rows begin, if it has any. -/
lemma findSome_rid {image : Image} (himage : image.Arranged) {i : Nat} {t : TypeDef}
    (ht : image.types[i]? = some t) :
    (t.methods.toList.findSome? fun j => (image.methods[j]?).bind Method.rid) =
      if image.firstOld i < image.firstOld (i + 1) then some (image.firstOld i) else none := by
  obtain ⟨added, hmethods, hadded⟩ := himage.methods_eq i t ht
  have hi : i < image.types.size := (Array.getElem?_eq_some_iff.mp ht).1
  obtain ⟨-, hpos, hle, hstop⟩ := himage.run_next hi
  rw [hmethods, Image.oldMethods]
  split_ifs with hlt
  · obtain ⟨m, hm⟩ : ∃ m, image.firstOld (i + 1) - image.firstOld i = m + 1 :=
      ⟨image.firstOld (i + 1) - image.firstOld i - 1, by omega⟩
    rw [hm, List.range'_succ, List.cons_append, List.findSome?_cons,
      himage.rid_eq _ (by omega)]
    simp only [Option.some.injEq]
    omega
  · rw [show image.firstOld (i + 1) - image.firstOld i = 0 by omega, List.range'_zero,
      List.nil_append, List.findSome?_eq_none_iff]
    exact fun j hj => himage.rid_eq_none j (hadded j hj)

/-- A type with old rows is preceded by the rows that were left out before it; one without is put
where the draft has got to. -/
lemma placeType_spec {image : Image} (himage : image.Arranged)
    (hold : image.metadata.tables.count .methodDef = old) (h : d.Holds old n)
    (hnext : d.next = n + 1) {i : Nat} {t : TypeDef} (ht : image.types[i]? = some t)
    (hn : n + 1 ≤ image.firstOld i) :
    ∃ passed reached, passed = (if image.firstOld i < image.firstOld (i + 1)
        then image.firstOld i - (n + 1) else 0) ∧
      reached = (if image.firstOld i < image.firstOld (i + 1)
        then image.firstOld (i + 1) - 1 else n) ∧
      (placeType image d t).Holds old reached ∧ (placeType image d t).next = reached + 1 ∧
      (placeType image d t).rows.toList =
        d.rows.toList ++ existings (n + 1) passed ++ image.plannedOf t ∧
      (placeType image d t).firstRows.toList =
        d.firstRows.toList ++ [UInt32.ofNat (d.rows.size + passed + 1)] := by
  obtain ⟨added, hmethods, hadded⟩ := himage.methods_eq i t ht
  have hi : i < image.types.size := (Array.getElem?_eq_some_iff.mp ht).1
  obtain ⟨-, hpos, hle, hstop⟩ := himage.run_next hi
  rw [hold] at hstop hadded
  refine ⟨_, _, rfl, rfl, ?_⟩
  simp only [placeType, findSome_rid himage ht, ← Array.foldl_toList]
  by_cases hlt : image.firstOld i < image.firstOld (i + 1)
  · simp only [hlt, if_true]
    obtain ⟨hbelow, hbelowNext, hbelowRows, hbelowFirst⟩ :=
      placeBelow_spec h hnext (image.firstOld i) (by omega) (by omega)
    generalize d.placeBelow (image.firstOld i) = d' at *
    have hsize : d'.rows.size = d.rows.size + (image.firstOld i - (n + 1)) := by
      simpa using congrArg List.length hbelowRows
    let d'' : Draft := { d' with firstRows := d'.firstRows.push (UInt32.ofNat (d'.rows.size + 1)) }
    have hd'' : d''.Holds old (image.firstOld i - 1) :=
      ⟨hbelow.olds, hbelow.size_targets, hbelow.targets⟩
    obtain ⟨holds, hnexts⟩ := foldl_placeMethod_old himage hold hd''
      (m := image.firstOld (i + 1) - image.firstOld i)
      (show d'.next = _ by omega) (by omega)
    obtain ⟨hall, hallNext⟩ := foldl_placeMethod_added himage hold holds hadded
    obtain ⟨hrows, hfirst⟩ := rows_foldl_placeMethod image t.methods.toList d''
    have hsplit : t.methods.toList.foldl (placeMethod image) d'' =
        added.foldl (placeMethod image) ((List.range' (image.firstOld i - 1)
          (image.firstOld (i + 1) - image.firstOld i)).foldl (placeMethod image) d'') := by
      rw [hmethods, List.foldl_append, Image.oldMethods]
    rw [← hsplit] at hall hallNext
    refine ⟨?_, by rw [hallNext, hnexts]; omega, ?_, ?_⟩
    · convert hall using 1
      omega
    · rw [hrows, Image.plannedOf, ← hbelowRows]
    · rw [hfirst]
      simp [d'', hbelowFirst, hsize]
  · simp only [hlt, if_false]
    let d'' : Draft := { d with firstRows := d.firstRows.push (UInt32.ofNat (d.rows.size + 1)) }
    have hd'' : d''.Holds old n := ⟨h.olds, h.size_targets, h.targets⟩
    obtain ⟨hall, hallNext⟩ := foldl_placeMethod_added himage hold hd'' hadded
    obtain ⟨hrows, hfirst⟩ := rows_foldl_placeMethod image t.methods.toList d''
    have hsplit : t.methods.toList = added := by
      rw [hmethods, Image.oldMethods, show image.firstOld (i + 1) - image.firstOld i = 0 by omega]
      rfl
    rw [← hsplit] at hall hallNext
    refine ⟨hall, by rw [hallNext]; exact hnext, ?_, ?_⟩
    · rw [hrows, Image.plannedOf]
      simp [d'']
    · rw [hfirst]
      simp [d'']

lemma foldl_placeType_holds {image : Image} (himage : image.Arranged)
    (hold : image.metadata.tables.count .methodDef = old) {ts : List TypeDef} {k : Nat}
    (hts : image.types.toList.drop k = ts) (hk : k ≤ image.types.size) (h : d.Holds old n)
    (hnext : d.next = n + 1) (hn : n + 1 ≤ image.firstOld k) :
    ∃ n', (ts.foldl (placeType image) d).Holds old n' ∧
      (ts.foldl (placeType image) d).next = n' + 1 ∧ n' ≤ old := by
  induction ts generalizing k n d with
  | nil =>
    have := himage.firstOld_le hk
    exact ⟨n, h, hnext, by omega⟩
  | cons t ts ih =>
    have ht : image.types[k]? = some t := by
      rw [← Array.getElem?_toList, ← List.head?_drop, hts]
      rfl
    have hlt : k < image.types.size := (Array.getElem?_eq_some_iff.mp ht).1
    obtain ⟨-, -, hle, -⟩ := himage.run_next hlt
    obtain ⟨passed, reached, -, hreached, hholds, hnext', -⟩ :=
      placeType_spec himage hold h hnext ht hn
    refine ih (k := k + 1) ?_ hlt hholds hnext' ?_
    · rw [← List.tail_drop, hts]
      rfl
    · split_ifs at hreached <;> omega

/-- Once no row has been left out, each type's methods stand behind those of the type before. -/
lemma foldl_placeType_rows {image : Image} (himage : image.Arranged)
    (hold : image.metadata.tables.count .methodDef = old) {ts : List TypeDef} {k : Nat}
    (hts : image.types.toList.drop k = ts) (hk : k ≤ image.types.size) (h : d.Holds old n)
    (hnext : d.next = n + 1) (hn : n + 1 = image.firstOld k) :
    (ts.foldl (placeType image) d).Holds old old ∧
      (ts.foldl (placeType image) d).next = old + 1 ∧
      (ts.foldl (placeType image) d).rows.toList =
        d.rows.toList ++ (ts.map image.plannedOf).flatten ∧
      (ts.foldl (placeType image) d).firstRows.toList =
        d.firstRows.toList ++ starts d.rows.size (ts.map image.plannedOf) := by
  induction ts generalizing k n d with
  | nil =>
    have hend : k = image.types.size := by
      have := List.drop_eq_nil_iff.mp hts
      simp at this
      omega
    have := himage.firstOld_end
    rw [hend] at hn
    obtain rfl : n = old := by omega
    exact ⟨h, hnext, by simp, by simp [starts]⟩
  | cons t ts ih =>
    have ht : image.types[k]? = some t := by
      rw [← Array.getElem?_toList, ← List.head?_drop, hts]
      rfl
    have hlt : k < image.types.size := (Array.getElem?_eq_some_iff.mp ht).1
    obtain ⟨-, -, hle, -⟩ := himage.run_next hlt
    obtain ⟨passed, reached, hpassed, hreached, hholds, hnext', hrows, hfirst⟩ :=
      placeType_spec himage hold h hnext ht hn.le
    obtain rfl : passed = 0 := by split_ifs at hpassed <;> omega
    have hsize : (placeType image d t).rows.size = d.rows.size + (image.plannedOf t).length := by
      simpa using congrArg List.length hrows
    have hdrop : image.types.toList.drop (k + 1) = ts := by
      rw [← List.tail_drop, hts]
      rfl
    obtain ⟨hall, hallNext, hallRows, hallFirst⟩ := ih (k := k + 1) hdrop hlt hholds hnext'
      (by split_ifs at hreached <;> omega)
    refine ⟨hall, hallNext, ?_, ?_⟩
    · rw [List.foldl_cons, hallRows, hrows]
      simp
    · rw [List.foldl_cons, hallFirst, hfirst, hsize]
      simp [starts]

def start (old : Nat) : Draft := ⟨#[], Array.replicate old 0, #[], 1⟩

lemma start_holds (old : Nat) : (start old).Holds old 0 :=
  ⟨rfl, by simp [start], fun i r hi => by simp [start] at hi⟩

end Draft

open Draft

variable {image : Image}

lemma ofImage_eq (image : Image) : ∃ d : Draft, d = (image.types.toList.foldl (placeType image)
      (start (image.metadata.tables.count .methodDef))) ∧
    ofImage image =
      ⟨(d.placeBelow (image.metadata.tables.count .methodDef + 1)).rows,
        ⟨.methodDef, (d.placeBelow (image.metadata.tables.count .methodDef + 1)).targets⟩,
        (d.placeBelow (image.metadata.tables.count .methodDef + 1)).firstRows⟩ := by
  refine ⟨_, rfl, ?_⟩
  rw [Array.foldl_toList]
  rfl

/-- Every old row is in the plan once, in order, and the renumbering leads to it. -/
theorem ofImage_olds (himage : image.Arranged) :
    (ofImage image).rows.toList.filterMap PlannedMethod.old? =
        List.range' 1 (image.metadata.tables.count .methodDef) ∧
      (ofImage image).rids.table = .methodDef ∧
      (ofImage image).rids.targets.size = image.metadata.tables.count .methodDef ∧
      ∀ i r, (ofImage image).rows[i]? = some (.existing r) →
        (ofImage image).rids.targets[r - 1]? = some (UInt32.ofNat (i + 1)) := by
  obtain ⟨d, hd, heq⟩ := ofImage_eq image
  obtain ⟨n, hholds, hnext, hn⟩ := foldl_placeType_holds himage rfl (k := 0) List.drop_zero
    (Nat.zero_le _) (start_holds _) rfl (himage.firstOld_pos (Nat.zero_le _))
  rw [← hd] at hholds hnext
  obtain ⟨hall, -⟩ := placeBelow_spec hholds hnext (_ + 1) (Nat.lt_succ_of_le hn) le_rfl
  rw [heq]
  exact ⟨hall.olds, rfl, hall.size_targets, hall.targets⟩

lemma exists_existing (himage : image.Arranged) {rid : Nat} (hpos : 1 ≤ rid)
    (hle : rid ≤ image.metadata.tables.count .methodDef) :
    ∃ p : Nat, (ofImage image).rows[p]? = some (.existing rid) := by
  have hmem : rid ∈ (ofImage image).rows.toList.filterMap PlannedMethod.old? := by
    rw [(ofImage_olds himage).1, List.mem_range'_1]
    omega
  obtain ⟨planned, hplanned, hold⟩ := List.mem_filterMap.mp hmem
  obtain ⟨p, hp⟩ := List.getElem?_of_mem hplanned
  refine ⟨p, ?_⟩
  rw [Array.getElem?_toList] at hp
  rw [hp]
  cases planned with
  | existing r => simpa [PlannedMethod.old?] using hold
  | added j => cases hold

/-- Where nothing is left out behind the first type, the rows that no type owns come first and then
the methods of the types. -/
theorem ofImage_rows (himage : image.Arranged)
    (hfirst : image.types.size ≠ 0 → image.firstOld 0 = 1 ∨ image.firstOld 0 < image.firstOld 1) :
    (ofImage image).rows.toList = existings 1 (image.firstOld 0 - 1) ++
        (image.types.toList.map image.plannedOf).flatten ∧
      (ofImage image).firstRows.toList =
        starts (image.firstOld 0 - 1) (image.types.toList.map image.plannedOf) := by
  obtain ⟨d, hd, heq⟩ := ofImage_eq image
  rw [heq]
  cases htypes : image.types.toList with
  | nil =>
    have hsize : image.types.size = 0 := by simpa using congrArg List.length htypes
    rw [htypes, List.foldl_nil] at hd
    subst hd
    have hend := himage.firstOld_end
    rw [hsize] at hend
    obtain ⟨-, -, hrows, hfirstRows⟩ := placeBelow_spec (start_holds _) rfl
      (image.metadata.tables.count .methodDef + 1) (by omega) le_rfl
    rw [hrows, hfirstRows, hend]
    simp [starts, start]
  | cons t ts =>
    have ht : image.types[0]? = some t := by
      rw [← Array.getElem?_toList, htypes]
      rfl
    have hlt : 0 < image.types.size := (Array.getElem?_eq_some_iff.mp ht).1
    obtain ⟨passed, reached, hpassed, hreached, hholds, hnext, hrows, hfirstRows⟩ :=
      placeType_spec himage rfl (start_holds _) rfl ht (himage.firstOld_pos hlt.le)
    obtain ⟨-, hpos, hle, -⟩ := himage.run_next hlt
    simp only [Nat.zero_add] at hpassed hreached hpos hle
    have hfirst' := hfirst (by omega)
    obtain rfl : passed = image.firstOld 0 - 1 := by split_ifs at hpassed <;> omega
    rw [htypes, List.foldl_cons] at hd
    have hdrop : image.types.toList.drop 1 = ts := by
      rw [htypes]
      rfl
    obtain ⟨hall, hallNext, hallRows, hallFirst⟩ := foldl_placeType_rows himage rfl hdrop hlt
      hholds hnext (by split_ifs at hreached <;> omega)
    rw [← hd] at hall hallNext hallRows hallFirst
    obtain ⟨-, -, hbelow, hbelowFirst⟩ := placeBelow_spec hall hallNext
      (image.metadata.tables.count .methodDef + 1) (by omega) le_rfl
    have hsize : (placeType image (start (image.metadata.tables.count .methodDef)) t).rows.size =
        image.firstOld 0 - 1 + (image.plannedOf t).length := by
      simpa [start] using congrArg List.length hrows
    rw [hbelow, hbelowFirst, hallRows, hallFirst, hrows, hfirstRows, hsize]
    simp [starts, start]

end MethodPlan

end CliImage
