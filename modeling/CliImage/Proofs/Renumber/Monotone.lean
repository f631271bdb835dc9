import CliImage.Proofs.Image.Evaluation
import CliImage.Proofs.Renumber.Code
import CliImage.Proofs.Renumber.Isomorphism

/-! A plan numbers the old rows in their order and leaves the numbers between them to the added
methods. Without these nothing is renumbered. -/

namespace CliImage

def PlannedMethod.added? : PlannedMethod → Option Nat
  | .existing _ => none
  | .added method => some method

namespace MethodPlan

open Draft

variable {before image : Image} {plan : MethodPlan}

/-- Old rows keep their order, each added method has one row among them, and the renumbering tells
the new place of each old row. An image without added methods keeps its numbers, so that there is
nothing to do in code and vtable slots. -/
structure Renumbers (before image : Image) (plan : MethodPlan) : Prop where
  olds : plan.rows.toList.filterMap PlannedMethod.old? =
    List.range' 1 (image.metadata.tables.count .methodDef)
  news : (plan.rows.toList.filterMap PlannedMethod.added?).Perm
    (List.range' (image.metadata.tables.count .methodDef)
      (image.methods.size - image.metadata.tables.count .methodDef))
  place : ∀ r : UInt32, 1 ≤ r.toNat → r.toNat ≤ image.metadata.tables.count .methodDef →
    ∃ i, plan.rows[i]? = some (.existing r.toNat) ∧ plan.rids.get r = UInt32.ofNat (i + 1)
  fixed : ∀ r : UInt32, r = 0 ∨ image.metadata.tables.count .methodDef < r.toNat →
    plan.rids.get r = r
  strictMono : plan.rows.size < 2 ^ 32 → ∀ r s : UInt32, 1 ≤ r.toNat → r < s →
    s.toNat ≤ image.metadata.tables.count .methodDef → plan.rids.get r < plan.rids.get s
  missed : plan.rows.size < 2 ^ 32 → ∀ p, 1 ≤ p → p ≤ plan.rows.size →
    ((∃ method, (p, method) ∈ plan.added) ↔ ∀ r : UInt32, 1 ≤ r.toNat →
      r.toNat ≤ image.metadata.tables.count .methodDef → (plan.rids.get r).toNat ≠ p)
  isUnchanged_iff : plan.isUnchanged ↔ image = before
  identity : plan.isUnchanged → (∀ r, plan.rids.get r = r) ∧
    (∀ token, plan.rids.token token = token) ∧
    ∀ (offsetOf : Nat → Result Nat) (data : Bytes),
      ((∀ a ∈ RidMap.operands (image.methods.toList.filter fun m => !m.isAdded), ∀ o,
        RidMap.PlacedAt offsetOf a.1 o → data.StandsAt o (Bytes.ofUInt32 a.2.value)) →
          Edit.Stays (plan.rids.code image.methods.toList offsetOf) data) ∧
      Edit.Stays (plan.rids.vtable image.cli.vtableFixups offsetOf) data

lemma mem_added {p method : Nat} : (p, method) ∈ plan.added ↔
    1 ≤ p ∧ plan.rows[p - 1]? = some (.added method) := by
  simp only [added, List.mem_filterMap, Prod.exists, List.mem_zipIdx_iff_getElem?,
    Array.getElem?_toList]
  constructor
  · rintro ⟨planned, i, hi, heq⟩
    cases planned with
    | existing rid => cases heq
    | added method' =>
      obtain ⟨rfl, rfl⟩ := Prod.mk.inj (Option.some.inj heq)
      exact ⟨by omega, by rwa [Nat.add_sub_cancel]⟩
  · rintro ⟨hpos, hp⟩
    exact ⟨_, p - 1, hp, by simp only [Nat.sub_add_cancel hpos]⟩

lemma map_snd_added (plan : MethodPlan) :
    plan.added.map Prod.snd = plan.rows.toList.filterMap PlannedMethod.added? := by
  calc plan.added.map Prod.snd
      = (plan.rows.toList.zipIdx.map Prod.fst).filterMap PlannedMethod.added? := by
        rw [added, List.map_filterMap, List.filterMap_map]
        refine List.filterMap_congr fun p _ => ?_
        obtain ⟨planned, i⟩ := p
        cases planned <;> rfl
    _ = plan.rows.toList.filterMap PlannedMethod.added? := by rw [List.zipIdx_map_fst]

lemma added_eq_nil_iff : plan.added = [] ↔ plan.rows.toList.filterMap PlannedMethod.added? = [] := by
  rw [← map_snd_added, List.map_eq_nil_iff]

lemma added?_existings (rids : List Nat) :
    (rids.map PlannedMethod.existing).filterMap PlannedMethod.added? = [] := by
  simp [PlannedMethod.added?]

/-- The added methods of a type, as the plan names them. -/
lemma added?_plannedOf (himage : image.Arranged) (t : TypeDef) :
    (image.plannedOf t).filterMap PlannedMethod.added? =
      t.methods.toList.filter (image.metadata.tables.count .methodDef ≤ ·) := by
  rw [Image.plannedOf, List.filterMap_map, ← List.filterMap_eq_filter]
  congr 1
  funext j
  rw [Function.comp_apply, Image.planned]
  by_cases hj : image.metadata.tables.count .methodDef ≤ j
  · simp [himage.rid_eq_none j hj, PlannedMethod.added?, Option.guard, hj]
  · simp [himage.rid_eq j (by omega), PlannedMethod.added?, Option.guard, hj]

lemma added?_foldl_placeType (himage : image.Arranged) (ts : List TypeDef) (d : Draft) :
    (ts.foldl (placeType image) d).rows.toList.filterMap PlannedMethod.added? =
      d.rows.toList.filterMap PlannedMethod.added? ++ ts.flatMap fun t =>
        t.methods.toList.filter (image.metadata.tables.count .methodDef ≤ ·) := by
  induction ts generalizing d with
  | nil => simp
  | cons t ts ih =>
    have hstep : (placeType image d t).rows.toList.filterMap PlannedMethod.added? =
        d.rows.toList.filterMap PlannedMethod.added? ++
          t.methods.toList.filter (image.metadata.tables.count .methodDef ≤ ·) := by
      simp only [placeType, ← Array.foldl_toList]
      rw [(rows_foldl_placeMethod image t.methods.toList _).1, List.filterMap_append,
        ← added?_plannedOf himage, Image.plannedOf]
      congr 1
      split
      · simp only [placeBelow, (rows_foldl_place _ d).1, List.filterMap_append, added?_existings,
          List.append_nil]
      · rfl
    rw [List.foldl_cons, ih, hstep, List.append_assoc, List.flatMap_cons]

/-- The plan has the added methods in the order of their types. -/
lemma added?_ofImage (himage : image.Arranged) :
    (ofImage image).rows.toList.filterMap PlannedMethod.added? = image.addedPlaces := by
  obtain ⟨d, hd, heq⟩ := ofImage_eq image
  rw [heq]
  simp only [placeBelow, (rows_foldl_place _ d).1, List.filterMap_append, added?_existings,
    List.append_nil]
  rw [hd, added?_foldl_placeType himage]
  rfl

/-- An earlier old row stands at an earlier place. -/
lemma lt_of_places (himage : image.Arranged) {i j r s : Nat}
    (hi : (ofImage image).rows[i]? = some (.existing r))
    (hj : (ofImage image).rows[j]? = some (.existing s)) (hrs : r < s) : i < j := by
  have hsorted : (ofImage image).rows.toList.Pairwise fun a b =>
      ∀ x, a.old? = some x → ∀ y, b.old? = some y → x < y := by
    rw [← List.pairwise_filterMap, (ofImage_olds himage).1]
    exact List.pairwise_lt_range'
  rw [List.pairwise_iff_getElem] at hsorted
  rw [← Array.getElem?_toList] at hi hj
  obtain ⟨hi', hi⟩ := List.getElem?_eq_some_iff.mp hi
  obtain ⟨hj', hj⟩ := List.getElem?_eq_some_iff.mp hj
  rcases Nat.lt_trichotomy i j with hlt | rfl | hgt
  · exact hlt
  · rw [hi] at hj
    cases hj
    omega
  · have := hsorted j i hj' hi' hgt s (by rw [hj]; rfl) r (by rw [hi]; rfl)
    omega

lemma get_of_place (himage : image.Arranged) {i : Nat} {r : UInt32} (hpos : 1 ≤ r.toNat)
    (hi : (ofImage image).rows[i]? = some (.existing r.toNat)) :
    (ofImage image).rids.get r = UInt32.ofNat (i + 1) := by
  have hne : r ≠ 0 := by
    rintro rfl
    simp at hpos
  rw [RidMap.get, if_neg hne, Array.getD_eq_getD_getElem?, (ofImage_olds himage).2.2.2 i _ hi,
    Option.getD_some]

lemma get_of_isIdentity {map : RidMap} (h : map.isIdentity) (r : UInt32) : map.get r = r := by
  rcases Nat.lt_or_ge map.targets.size r.toNat with hlt | hle
  · exact RidMap.get_beyond hlt
  · by_cases hr : r = 0
    · rw [hr, RidMap.get_zero]
    · have hpos : r.toNat ≠ 0 := fun h => hr (UInt32.toNat_inj.mp h)
      have hlt : r.toNat - 1 < map.targets.size := by omega
      have hget := List.all_eq_true.mp h (r.toNat - 1) (List.mem_range.mpr hlt)
      rw [beq_iff_eq, Nat.sub_add_cancel (by omega), UInt32.ofNat_toNat,
        Array.getD_eq_getD_getElem?, Array.getElem?_eq_getElem hlt, Option.getD_some] at hget
      rw [RidMap.get, if_neg hr, Array.getD_eq_getD_getElem?, Array.getElem?_eq_getElem hlt,
        Option.getD_some, hget]

/-- Without added methods the plan is the old rows. -/
lemma isUnchanged_of_added (himage : image.Arranged)
    (h : (ofImage image).rows.toList.filterMap PlannedMethod.added? = []) :
    (ofImage image).isUnchanged := by
  obtain ⟨holds, -, hsize, htargets⟩ := ofImage_olds himage
  have hrows : (ofImage image).rows.toList =
      existings 1 (image.metadata.tables.count .methodDef) := by
    rw [existings, ← holds, List.map_filterMap]
    conv_lhs => rw [← List.filterMap_some (l := (ofImage image).rows.toList)]
    refine List.filterMap_congr fun planned hplanned => ?_
    cases planned with
    | existing rid => rfl
    | added method => simpa [PlannedMethod.added?] using List.filterMap_eq_nil_iff.mp h _ hplanned
  rw [isUnchanged, added_eq_nil_iff.mpr h, List.isEmpty_nil, Bool.true_and, RidMap.isIdentity,
    List.all_eq_true]
  intro i hi
  rw [List.mem_range, hsize] at hi
  have hrow : (ofImage image).rows[i]? = some (.existing (i + 1)) := by
    rw [← Array.getElem?_toList, hrows, existings, List.getElem?_map, List.getElem?_range' hi,
      Option.map_some, Nat.one_mul, Nat.add_comm]
  have htarget := htargets i _ hrow
  rw [Nat.add_sub_cancel] at htarget
  rw [beq_iff_eq, Array.getD_eq_getD_getElem?, htarget, Option.getD_some]

/-- The plan of an image that was read and has had methods added renumbers it. -/
theorem ofImage_renumbers {n : Nat} {data : Bytes} (hread : Image.read n data = .ok before)
    (hgrown : before.Grown image) : (ofImage image).Renumbers before image := by
  have himage := hgrown.arranged (Image.arranged_of_read hread)
  obtain ⟨holds, htable, hsize, -⟩ := ofImage_olds himage
  have hnews := hgrown.addedPlaces_perm hread
  rw [← added?_ofImage himage] at hnews
  have hplace : ∀ r : UInt32, 1 ≤ r.toNat → r.toNat ≤ image.metadata.tables.count .methodDef →
      ∃ i, (ofImage image).rows[i]? = some (.existing r.toNat) ∧
        (ofImage image).rids.get r = UInt32.ofNat (i + 1) := by
    intro r hpos hle
    obtain ⟨i, hi⟩ := exists_existing himage hpos hle
    exact ⟨i, hi, get_of_place himage hpos hi⟩
  have hunchanged : (ofImage image).isUnchanged ↔ image = before := by
    constructor
    · intro h
      rw [isUnchanged, Bool.and_eq_true, List.isEmpty_iff, added_eq_nil_iff] at h
      rw [h.1] at hnews
      have hlength := hnews.length_eq
      rw [List.length_nil, List.length_range', hgrown.metadata_eq,
        ← (Image.sizes_of_read hread).1] at hlength
      exact hgrown.eq_of_size (by omega)
    · rintro rfl
      refine isUnchanged_of_added himage ?_
      rw [added?_ofImage himage, (Image.sizes_of_read hread).2]
  refine ⟨holds, hnews, hplace, fun r hr => ?_, fun hfit r s hpos hrs hle => ?_,
    fun hfit p hpos hle => ?_, hunchanged, fun h => ?_⟩
  · rcases hr with rfl | hlt
    · rfl
    · exact RidMap.get_beyond (by omega)
  · have hrs' := UInt32.lt_iff_toNat_lt.mp hrs
    obtain ⟨i, hi, hri⟩ := exists_planned himage hfit hpos (by omega)
    obtain ⟨j, hj, hsj⟩ := exists_planned himage hfit (by omega) hle
    have := lt_of_places himage hi hj hrs'
    exact UInt32.lt_iff_toNat_lt.mpr (by omega)
  · obtain ⟨planned, hplanned⟩ : ∃ planned, (ofImage image).rows[p - 1]? = some planned :=
      ⟨_, Array.getElem?_eq_getElem (by omega)⟩
    simp only [mem_added, hpos, true_and]
    constructor
    · rintro ⟨method, hmethod⟩ r hr hrle hget
      obtain ⟨i, hi, hri⟩ := exists_planned himage hfit hr hrle
      obtain rfl : i = p - 1 := by omega
      rw [hi] at hmethod
      cases hmethod
    · intro hmiss
      cases planned with
      | added method => exact ⟨method, hplanned⟩
      | existing rid =>
        have hmem : rid ∈ List.range' 1 (image.metadata.tables.count .methodDef) := by
          rw [← holds]
          exact List.mem_filterMap.mpr
            ⟨_, Array.mem_toList_iff.mpr (Array.mem_of_getElem? hplanned), rfl⟩
        rw [List.mem_range'_1] at hmem
        have hcount := count_lt_of_read hread .methodDef
        rw [← hgrown.metadata_eq] at hcount
        have hrid : (UInt32.ofNat rid).toNat = rid := UInt32.toNat_ofNat_of_lt' (by
          simp only [UInt32.size]
          omega)
        have hget := get_of_place himage (by omega) (hrid.symm ▸ hplanned)
        refine absurd ?_ (hmiss (UInt32.ofNat rid) (by omega) (by omega))
        rw [hget, Nat.sub_add_cancel hpos]
        exact UInt32.toNat_ofNat_of_lt' (by simp only [UInt32.size]; omega)
  · have hid := get_of_isIdentity ((Bool.and_eq_true ..).mp h).2
    have htoken : ∀ token, (ofImage image).rids.token token = token :=
      fun token => RidMap.token_of_get fun _ => hid _
    exact ⟨hid, htoken, fun offsetOf data =>
      ⟨fun hplaced => RidMap.stays_code htoken hplaced, RidMap.stays_vtable htoken _⟩⟩

theorem ofImage_renumbers_crossed : ∃ before image, Image.read 0 crossed = .ok before ∧
    before.Grown image ∧ (ofImage image).rids.targets = #[1, 3, 4] ∧
    (ofImage image).added = [(2, 3)] ∧ (ofImage image).Renumbers before image := by
  obtain ⟨before, hread, htest⟩ := Result.exists_of_holds (x := Image.read 0 crossed)
    (p := fun before => before.methods[0]?.any fun m =>
      Result.holds (before.addMethod 0 { m with rid := none }) fun added =>
        decide ((ofImage added.1).rids.targets = #[1, 3, 4] ∧ (ofImage added.1).added = [(2, 3)]))
    (by
      rw [Image.readByTails.2]
      decide +kernel)
  obtain ⟨m, -, htest⟩ := (Option.any_eq_true ..).mp htest
  obtain ⟨⟨image, _⟩, hadd, htest⟩ := Result.exists_of_holds htest
  obtain ⟨htargets, hadded⟩ := of_decide_eq_true htest
  have hgrown : before.Grown image := .add .refl rfl hadd
  exact ⟨before, image, hread, hgrown, htargets, hadded, ofImage_renumbers hread hgrown⟩

end MethodPlan

end CliImage
