import CliImage.Proofs.Image.Evaluation
import CliImage.Proofs.Bytes
import CliImage.Proofs.Renumber.MethodPlan

/-! Which type owns a planned row follows from the first rows of the types alone. Types keep their
methods unless rows without an owner stand in front of a first type that has no old method. -/

namespace CliImage

namespace MethodPlan

/-- The planned rows of the type at a place: from its first row to that of the next type, or to the
end of the plan. -/
def run (plan : MethodPlan) (i : Nat) : List PlannedMethod :=
  let first := (plan.firstRows.getD i 0).toNat
  let stop := (plan.firstRows[i + 1]?.map UInt32.toNat).getD (plan.rows.size + 1)
  (plan.rows.toList.take (stop - 1)).drop (first - 1)

/-- Each type owns its old rows and behind them its added methods, and an old row that was in no
type's run is in none. -/
structure KeepsOwners (image : Image) (plan : MethodPlan) : Prop where
  size_firstRows : plan.firstRows.size = image.types.size
  run_eq : ∀ i t, image.types[i]? = some t → ∃ added : List Nat,
    t.methods.toList = image.oldMethods i ++ added ∧
      plan.run i = (image.oldMethods i).map (fun j => .existing (j + 1)) ++ added.map .added
  unowned : ∀ rid, 1 ≤ rid → rid ≤ image.metadata.tables.count .methodDef →
    (∀ i < image.types.size, rid - 1 ∉ image.oldMethods i) →
      ∀ i < image.types.size, .existing rid ∉ plan.run i

variable {image : Image}

lemma plannedOf_eq (himage : image.Arranged) {i : Nat} {t : TypeDef} {added : List Nat}
    (ht : image.types[i]? = some t) (hmethods : t.methods.toList = image.oldMethods i ++ added)
    (hadded : ∀ j ∈ added, image.metadata.tables.count .methodDef ≤ j) :
    image.plannedOf t =
      (image.oldMethods i).map (fun j => .existing (j + 1)) ++ added.map .added := by
  obtain ⟨-, hpos, -, hstop⟩ := himage.run_next (Array.getElem?_eq_some_iff.mp ht).1
  rw [Image.plannedOf, hmethods, List.map_append]
  congr 1
  · refine List.map_congr_left fun j hj => ?_
    rw [Image.oldMethods, List.mem_range'_1] at hj
    rw [Image.planned, himage.rid_eq j (by omega)]
  · refine List.map_congr_left fun j hj => ?_
    rw [Image.planned, himage.rid_eq_none j (hadded j hj)]

/-- The runs that the first rows of blocks describe are the blocks. -/
lemma run_of_starts {plan : MethodPlan} {before : List PlannedMethod}
    {blocks : List (List PlannedMethod)} (hrows : plan.rows.toList = before ++ blocks.flatten)
    (hfirst : plan.firstRows.toList = starts before.length blocks)
    (hfit : plan.rows.size + 1 < 2 ^ 32) {i : Nat} (hi : i < blocks.length) :
    plan.run i = blocks[i] := by
  have hsize : plan.rows.size = before.length + blocks.flatten.length := by
    simpa using congrArg List.length hrows
  have hle : ∀ k, (blocks.take k).flatten.length ≤ blocks.flatten.length := by
    intro k
    conv_rhs => rw [← List.take_append_drop k blocks, List.flatten_append, List.length_append]
    exact Nat.le_add_right _ _
  have hsplit : blocks.flatten = (blocks.take i).flatten ++ blocks[i] ++
      (blocks.drop (i + 1)).flatten := by
    rw [← List.flatten_concat, ← List.flatten_append, ← List.take_succ_eq_append_getElem hi,
      List.take_append_drop]
  have hnext : (blocks.take (i + 1)).flatten.length =
      (blocks.take i).flatten.length + blocks[i].length := by
    rw [List.take_succ_eq_append_getElem hi, List.flatten_concat, List.length_append]
  have hstart : (plan.firstRows.getD i 0).toNat - 1 =
      before.length + (blocks.take i).flatten.length := by
    have := hle i
    rw [Array.getD_eq_getD_getElem?, ← Array.getElem?_toList, hfirst, starts_getElem?, if_pos hi]
    simp only [Option.getD_some, UInt32.toNat_ofNat']
    omega
  have hstop : (plan.firstRows[i + 1]?.map UInt32.toNat).getD (plan.rows.size + 1) - 1 =
      before.length + (blocks.take (i + 1)).flatten.length := by
    rw [← Array.getElem?_toList, hfirst, starts_getElem?]
    split
    · have := hle (i + 1)
      simp only [Option.map_some, Option.getD_some, UInt32.toNat_ofNat']
      omega
    · rw [List.take_of_length_le (by omega)]
      simp only [Option.map_none, Option.getD_none]
      omega
  simp only [run, hstart, hstop, hnext]
  rw [hrows, hsplit, ← Nat.add_assoc, ← List.length_append, ← List.append_assoc,
    ← List.append_assoc, ← List.length_append, List.take_left, List.drop_left]

/-- The plan keeps the owners where the unowned rows are placed before the first type. -/
lemma keepsOwners_of_first (himage : image.Arranged) (hfit : (ofImage image).rows.size + 1 < 2 ^ 32)
    (hfirst : image.types.size ≠ 0 → image.firstOld 0 = 1 ∨ image.firstOld 0 < image.firstOld 1) :
    (ofImage image).KeepsOwners image := by
  obtain ⟨hrows, hfirstRows⟩ := ofImage_rows himage hfirst
  have hrun : ∀ i t, image.types[i]? = some t → ∃ added : List Nat,
      t.methods.toList = image.oldMethods i ++ added ∧ (ofImage image).run i =
        (image.oldMethods i).map (fun j => .existing (j + 1)) ++ added.map .added := by
    intro i t ht
    obtain ⟨added, hmethods, hadded⟩ := himage.methods_eq i t ht
    have hi : i < image.types.size := (Array.getElem?_eq_some_iff.mp ht).1
    refine ⟨added, hmethods, ?_⟩
    rw [← plannedOf_eq himage ht hmethods hadded,
      run_of_starts hrows (by simpa using hfirstRows) hfit (by simpa using hi), List.getElem_map,
      Array.getElem_toList, (Array.getElem?_eq_some_iff.mp ht).2]
  refine ⟨by simpa using congrArg List.length hfirstRows, hrun, ?_⟩
  intro rid hpos _ howner i hi hmem
  obtain ⟨added, -, heq⟩ := hrun i image.types[i] (Array.getElem?_eq_getElem hi)
  rw [heq] at hmem
  obtain ⟨j, hj, hrid⟩ : ∃ j ∈ image.oldMethods i, j + 1 = rid := by simpa using hmem
  exact howner i hi (by rwa [← hrid, Nat.add_sub_cancel])

/-- The last first row that is not behind a planned row leads to the type that owns it. -/
lemma exists_run {plan : MethodPlan} {planned : PlannedMethod} {p : Nat}
    (hp : plan.rows[p]? = some planned) {first : UInt32} (hfirst : plan.firstRows[0]? = some first)
    (hle : first.toNat ≤ p + 1) : ∃ i < plan.firstRows.size, planned ∈ plan.run i := by
  let Before (i : Nat) : Prop := ∃ first, plan.firstRows[i]? = some first ∧ first.toNat ≤ p + 1
  have hbefore : ∃ i, Before i ∧ ¬ Before (i + 1) := by
    by_contra hall
    have hall' : ∀ i, Before i := by
      intro i
      induction i with
      | zero => exact ⟨first, hfirst, hle⟩
      | succ i ih => exact by_contra fun hn => hall ⟨i, ih, hn⟩
    obtain ⟨_, hget, -⟩ := hall' plan.firstRows.size
    simp at hget
  obtain ⟨i, ⟨start, hstart, hstartLe⟩, hnext⟩ := hbefore
  have hsize : p < plan.rows.size := (Array.getElem?_eq_some_iff.mp hp).1
  refine ⟨i, (Array.getElem?_eq_some_iff.mp hstart).1, ?_⟩
  have hstop : p < (plan.firstRows[i + 1]?.map UInt32.toNat).getD (plan.rows.size + 1) - 1 := by
    cases hget : plan.firstRows[i + 1]? with
    | none =>
      simp only [Option.map_none, Option.getD_none]
      omega
    | some next =>
      have : ¬ next.toNat ≤ p + 1 := fun hle => hnext ⟨next, hget, hle⟩
      simp only [Option.map_some, Option.getD_some]
      omega
  rw [run, Array.getD_eq_getD_getElem?, hstart, Option.getD_some]
  refine List.mem_of_getElem? (i := p - (start.toNat - 1)) ?_
  rw [List.getElem?_drop, Nat.add_sub_cancel' (by omega), List.getElem?_take_of_lt hstop]
  simpa using hp

lemma size_le_placeType (image : Image) (t : TypeDef) (d : Draft) :
    ∃ n, (Draft.placeType image d t).firstRows = d.firstRows.push (UInt32.ofNat (n + 1)) ∧
      d.rows.size ≤ n ∧ n ≤ (Draft.placeType image d t).rows.size := by
  simp only [Draft.placeType, ← Array.foldl_toList]
  have hmethods (between : Draft) (hfirst : between.firstRows = d.firstRows)
      (hle : d.rows.size ≤ between.rows.size) :
      ∃ n, (t.methods.toList.foldl (Draft.placeMethod image) { between with
            firstRows := between.firstRows.push (UInt32.ofNat (between.rows.size + 1)) }).firstRows =
          d.firstRows.push (UInt32.ofNat (n + 1)) ∧ d.rows.size ≤ n ∧
        n ≤ (t.methods.toList.foldl (Draft.placeMethod image) { between with
          firstRows := between.firstRows.push (UInt32.ofNat (between.rows.size + 1)) }).rows.size := by
    obtain ⟨hrows, hsame⟩ := Draft.rows_foldl_placeMethod image t.methods.toList { between with
      firstRows := between.firstRows.push (UInt32.ofNat (between.rows.size + 1)) }
    have hsize := congrArg List.length hrows
    simp only [List.length_append, Array.length_toList] at hsize
    exact ⟨between.rows.size, by rw [hsame, hfirst], hle, by omega⟩
  split
  · obtain ⟨hrows, -, hfirst⟩ := Draft.rows_foldl_place (List.range' d.next (_ - d.next)) d
    refine hmethods _ hfirst ?_
    simp only [Draft.placeBelow]
    rw [← Array.length_toList, ← Array.length_toList, hrows, List.length_append]
    exact Nat.le_add_right ..
  · exact hmethods d rfl le_rfl

/-- Each type adds its first row behind those of the types before it. -/
lemma firstRows_foldl_placeType (image : Image) (ts : List TypeDef) (d : Draft) :
    ∃ firsts, (ts.foldl (Draft.placeType image) d).firstRows.toList =
        d.firstRows.toList ++ firsts ∧ firsts.length = ts.length ∧
      d.rows.size ≤ (ts.foldl (Draft.placeType image) d).rows.size ∧
      ∀ first ∈ firsts, first.toNat ≤ (ts.foldl (Draft.placeType image) d).rows.size + 1 := by
  induction ts generalizing d with
  | nil => exact ⟨[], by simp⟩
  | cons t ts ih =>
    obtain ⟨n, hfirst, hle, hle'⟩ := size_le_placeType image t d
    obtain ⟨firsts, hfirsts, hlength, hsize, hbound⟩ := ih (Draft.placeType image d t)
    refine ⟨UInt32.ofNat (n + 1) :: firsts, by rw [List.foldl_cons, hfirsts, hfirst]; simp,
      by rw [List.length_cons, List.length_cons, hlength], by rw [List.foldl_cons]; omega, ?_⟩
    refine List.forall_mem_cons.mpr ⟨?_, hbound⟩
    rw [UInt32.toNat_ofNat', List.foldl_cons]
    exact (Nat.mod_le ..).trans (by omega)

/-- There is a first row for each type, at most one behind the last planned row. -/
lemma firstRows_le (image : Image) : (ofImage image).firstRows.size = image.types.size ∧
    ∀ first ∈ (ofImage image).firstRows, first.toNat ≤ (ofImage image).rows.size + 1 := by
  obtain ⟨d, hd, heq⟩ := ofImage_eq image
  obtain ⟨firsts, hfirsts, hlength, -, hbound⟩ := firstRows_foldl_placeType image
    image.types.toList (Draft.start (image.metadata.tables.count .methodDef))
  rw [← hd] at hfirsts hbound
  obtain ⟨hrows, -, hfirst⟩ := Draft.rows_foldl_place
    (List.range' d.next (image.metadata.tables.count .methodDef + 1 - d.next)) d
  have hlist : (ofImage image).firstRows.toList = firsts := by
    rw [heq]
    simp only [Draft.placeBelow, hfirst]
    simpa [Draft.start] using hfirsts
  refine ⟨by rw [← Array.length_toList, hlist, hlength, Array.length_toList], fun first hmem => ?_⟩
  rw [← Array.mem_toList_iff, hlist] at hmem
  refine (hbound first hmem).trans (Nat.succ_le_succ ?_)
  rw [heq]
  simp only [Draft.placeBelow, ← Array.length_toList, hrows, List.length_append]
  exact Nat.le_add_right ..

/-- A first type without old methods begins at the first planned row. -/
lemma firstRows_zero (himage : image.Arranged) (hsize : 0 < image.types.size)
    (hempty : ¬ image.firstOld 0 < image.firstOld 1) : (ofImage image).firstRows[0]? = some 1 := by
  obtain ⟨d, hd, heq⟩ := ofImage_eq image
  obtain ⟨t, ts, htypes⟩ : ∃ t ts, image.types.toList = t :: ts :=
    List.exists_cons_of_ne_nil (by simpa [← Array.length_toList] using hsize.ne')
  have ht : image.types[0]? = some t := by
    rw [← Array.getElem?_toList, htypes]
    rfl
  obtain ⟨passed, -, hpassed, -, -, -, -, hfirst⟩ := Draft.placeType_spec himage rfl
    (Draft.start_holds _) rfl ht (himage.firstOld_pos hsize.le)
  rw [if_neg hempty] at hpassed
  obtain ⟨firsts, hfirsts, -⟩ := firstRows_foldl_placeType image ts
    (Draft.placeType image (Draft.start _) t)
  rw [htypes, List.foldl_cons] at hd
  rw [← hd, hfirst, hpassed] at hfirsts
  have hbelow : (d.placeBelow (image.metadata.tables.count .methodDef + 1)).firstRows =
      d.firstRows := (Draft.rows_foldl_place _ d).2.2
  rw [heq]
  simp only [hbelow]
  rw [← Array.getElem?_toList, hfirsts]
  rfl

/-- The plan of an image that was read keeps the owners of all methods exactly where no unowned row
stands in front of a first type without old methods. -/
theorem keepsOwners_iff {id : Nat} {data : Bytes} {before : Image}
    (hread : Image.read id data = .ok before) (hgrown : before.Grown image)
    (hfit : (ofImage image).rows.size + 1 < 2 ^ 32) :
    (ofImage image).KeepsOwners image ↔
      (image.types.size ≠ 0 → image.firstOld 0 = 1 ∨ image.firstOld 0 < image.firstOld 1) := by
  have himage := hgrown.arranged (Image.arranged_of_read hread)
  refine ⟨fun hkeeps hsize => ?_, keepsOwners_of_first himage hfit⟩
  by_contra hfirst
  have hzero : 0 < image.types.size := by omega
  obtain ⟨hpos, hle⟩ : 1 ≤ image.firstOld 0 ∧
      image.firstOld 0 ≤ image.metadata.tables.count .methodDef + 1 :=
    ⟨himage.firstOld_pos hzero.le, himage.firstOld_le hzero.le⟩
  obtain ⟨p, hp⟩ := exists_existing himage le_rfl (by omega)
  obtain ⟨i, hi, hmem⟩ := exists_run hp (firstRows_zero himage hzero (by omega)) (by simp)
  refine hkeeps.unowned 1 le_rfl (by omega) (fun k hk howned => ?_) i
    (hkeeps.size_firstRows ▸ hi) hmem
  rw [Image.oldMethods, List.mem_range'_1] at howned
  have := himage.firstOld_mono hk.le
  omega

/-- An image with one type, whose run is empty, and one method, which stands in front of it. -/
def unowned : Bytes := #[
  77, 90, 0, 0, 0, 0, 0, 0, 0, 0, 0, 0, 0, 0, 0, 0, 0, 0, 0, 0, 0, 0, 0, 0, 0, 0, 0, 0, 0, 0, 0, 0,
  0, 0, 0, 0, 0, 0, 0, 0, 0, 0, 0, 0, 0, 0, 0, 0, 0, 0, 0, 0, 0, 0, 0, 0, 0, 0, 0, 0, 64, 0, 0, 0,
  80, 69, 0, 0, 76, 1, 1, 0, 0, 0, 0, 0, 0, 0, 0, 0, 0, 0, 0, 0, 216, 0, 2, 33, 11, 1, 0, 0, 0, 0,
  0, 0, 0, 0, 0, 0, 0, 0, 0, 0, 0, 0, 0, 0, 0, 0, 0, 0, 0, 0, 0, 0, 0, 0, 0, 0, 0, 16, 0, 0, 8, 0,
  0, 0, 0, 0, 0, 0, 0, 0, 0, 0, 0, 0, 0, 0, 0, 0, 0, 0, 0, 0, 0, 0, 88, 1, 0, 0, 0, 0, 0, 0, 0, 0,
  0, 0, 0, 0, 0, 0, 0, 0, 0, 0, 0, 0, 0, 0, 0, 0, 0, 0, 0, 0, 0, 0, 15, 0, 0, 0, 0, 0, 0, 0, 0, 0,
  0, 0, 0, 0, 0, 0, 0, 0, 0, 0, 0, 0, 0, 0, 0, 0, 0, 0, 0, 0, 0, 0, 0, 0, 0, 0, 0, 0, 0, 0, 0, 0,
  0, 0, 0, 0, 0, 0, 0, 0, 0, 0, 0, 0, 0, 0, 0, 0, 0, 0, 0, 0, 0, 0, 0, 0, 0, 0, 0, 0, 0, 0, 0, 0,
  0, 0, 0, 0, 0, 0, 0, 0, 0, 0, 0, 0, 0, 0, 0, 0, 0, 0, 0, 0, 0, 0, 0, 0, 0, 0, 0, 0, 0, 0, 0, 0,
  0, 0, 0, 0, 0, 0, 0, 0, 0, 0, 0, 16, 0, 0, 72, 0, 0, 0, 46, 116, 101, 120, 116, 0, 0, 0, 188, 0,
  0, 0, 0, 16, 0, 0, 192, 0, 0, 0, 88, 1, 0, 0, 0, 0, 0, 0, 0, 0, 0, 0, 0, 0, 0, 0, 32, 0, 0, 96,
  72, 0, 0, 0, 2, 0, 5, 0, 72, 16, 0, 0, 116, 0, 0, 0, 1, 0, 0, 0, 0, 0, 0, 0, 0, 0, 0, 0, 0, 0, 0,
  0, 0, 0, 0, 0, 0, 0, 0, 0, 0, 0, 0, 0, 0, 0, 0, 0, 0, 0, 0, 0, 0, 0, 0, 0, 0, 0, 0, 0, 0, 0, 0,
  0, 0, 0, 0, 0, 0, 0, 0, 0, 66, 83, 74, 66, 1, 0, 1, 0, 0, 0, 0, 0, 0, 0, 0, 0, 0, 0, 2, 0, 48, 0,
  0, 0, 60, 0, 0, 0, 35, 126, 0, 0, 108, 0, 0, 0, 8, 0, 0, 0, 35, 66, 108, 111, 98, 0, 0, 0, 0, 0,
  0, 0, 2, 0, 0, 1, 68, 0, 0, 0, 0, 0, 0, 0, 0, 0, 0, 0, 0, 0, 0, 0, 1, 0, 0, 0, 1, 0, 0, 0, 0, 0,
  0, 0, 0, 0, 0, 0, 0, 0, 1, 0, 2, 0, 0, 0, 0, 0, 0, 0, 16, 0, 0, 0, 1, 0, 1, 0, 0, 3, 0, 0, 1, 0,
  0, 0, 0, 0, 0, 0]

theorem not_keepsOwners_unowned : ∃ image, Image.read 0 unowned = .ok image ∧
    (ofImage image).rows.size + 1 < 2 ^ 32 ∧ ¬ (ofImage image).KeepsOwners image := by
  obtain ⟨image, hread, htest⟩ := Result.exists_of_holds (x := Image.read 0 unowned)
    (p := fun image => decide ((ofImage image).rows.size + 1 < 2 ^ 32 ∧
      image.types.size ≠ 0 ∧ image.firstOld 0 ≠ 1 ∧ ¬ image.firstOld 0 < image.firstOld 1))
    (by
      rw [Image.readByTails.2]
      decide +kernel)
  obtain ⟨hfit, hsize, hne, hlt⟩ := of_decide_eq_true htest
  refine ⟨image, hread, hfit, fun hkeeps => ?_⟩
  rcases (keepsOwners_iff hread .refl hfit).mp hkeeps hsize with heq | hlt'
  · exact hne heq
  · exact hlt hlt'

end MethodPlan

end CliImage
