import CliImage.Proofs.Image.Evaluation
import CliImage.Proofs.Image.Prepared
import CliImage.Proofs.Renumber.Fits
import CliImage.Proofs.Renumber.Shape
import CliImage.Proofs.Table.Lossless

/-! Methods keep their parameters where added ones come to stand between them: the run of an added
method is empty and lies where that of the next old method begins. -/

namespace CliImage

variable {ts before after : Tables} {plan : MethodPlan} {image : Image}

namespace Tables

/-- Where the parameters of a method begin, and behind the last method the end of them all. -/
def firstParam (ts : Tables) (rid : Nat) : UInt32 :=
  ((ts.row? .methodDef rid).map (·.getD 5 0)).getD (UInt32.ofNat (ts.count .param + 1))

lemma firstParam_beyond {rid : Nat} (h : ts.count .methodDef < rid) :
    ts.firstParam rid = UInt32.ofNat (ts.count .param + 1) := by
  have hnone : ts.row? .methodDef rid = none := by
    rw [row?, if_neg (by omega)]
    exact Array.getElem?_eq_none (by rw [count] at h; omega)
  rw [firstParam, hnone, Option.map_none, Option.getD_none]

section Run

variable (hformed : ts.Formed) (hparams : ts.count .param + 1 < 2 ^ 32) {rid : Nat}
  (hpos : 1 ≤ rid) (hle : rid ≤ ts.count .methodDef)
include hformed hpos hle

lemma cell_param : ts.cell .methodDef rid 5 = .ok (ts.firstParam rid) := by
  have hlt : rid - 1 < (ts.table .methodDef).size := by
    rw [count] at hle
    omega
  have hrow : ts.row? .methodDef rid = some (ts.table .methodDef)[rid - 1] :=
    row?_eq_some.mpr ⟨hpos, Array.getElem?_eq_getElem hlt⟩
  have hsize := hformed.width _ _ (Array.getElem_mem hlt)
  have hcolumn : 5 < (ts.table .methodDef)[rid - 1].size := by
    rw [hsize]
    decide
  rw [cell, firstParam, hrow]
  simp [hcolumn]

include hparams

/-- The parameters of a method end where those of the next one begin. -/
lemma run_param_eq_ok {start stop : Nat} :
    ts.run .methodDef 5 rid .param = .ok (start, stop) ↔
      start = (ts.firstParam rid).toNat ∧ stop = (ts.firstParam (rid + 1)).toNat ∧
        1 ≤ start ∧ start ≤ stop ∧ stop ≤ ts.count .param + 1 := by
  have hcell := cell_param hformed hpos hle
  have hrun : ts.run .methodDef 5 rid .param = .ok (start, stop) ↔
      ¬ ((ts.firstParam rid).toNat = 0 ∨ (ts.firstParam (rid + 1)).toNat < (ts.firstParam rid).toNat ∨
        ts.count .param + 1 < (ts.firstParam (rid + 1)).toNat) ∧
      ((ts.firstParam rid).toNat, (ts.firstParam (rid + 1)).toNat) = (start, stop) := by
    by_cases hlt : rid < ts.count .methodDef
    · have hnext := cell_param hformed (by omega) hlt
      simp only [run, hcell, hnext, hlt, if_true, Result.ok_bind, Result.map_ok,
        Result.unless_throw_eq_ok, Except.ok.injEq]
    · have hnext : ts.firstParam (rid + 1) = _ := firstParam_beyond (by omega)
      have hstop := UInt32.toNat_ofNat_of_lt' hparams
      simp only [run, hcell, hnext, hstop, hlt, if_false, Result.ok_bind, Result.pure_eq,
        Result.unless_throw_eq_ok, Except.ok.injEq]
  rw [hrun, Prod.mk.injEq]
  omega

end Run

/-- The parameters of all methods can be read. -/
def ReadsParams (ts : Tables) : Prop :=
  ∀ rid, 1 ≤ rid → rid ≤ ts.count .methodDef →
    ∃ start stop, ts.run .methodDef 5 rid .param = .ok (start, stop)

lemma ReadsParams.bounds (h : ts.ReadsParams) (hformed : ts.Formed)
    (hparams : ts.count .param + 1 < 2 ^ 32) {rid : Nat} (hpos : 1 ≤ rid) :
    1 ≤ (ts.firstParam rid).toNat ∧ (ts.firstParam rid).toNat ≤ ts.count .param + 1 := by
  rcases Nat.lt_or_ge (ts.count .methodDef) rid with hlt | hle
  · rw [firstParam_beyond hlt, UInt32.toNat_ofNat_of_lt' hparams]
    omega
  · obtain ⟨start, stop, hrun⟩ := h rid hpos hle
    obtain ⟨rfl, -, hrange⟩ := (run_param_eq_ok hformed hparams hpos hle).mp hrun
    omega

end Tables

namespace MethodPlan

open Tables

lemma fillParams_drop (stop : UInt32) (planned : List (PlannedMethod × Row)) (p : Nat) :
    (fillParams stop planned).1.drop p = (fillParams stop (planned.drop p)).1 := by
  induction planned generalizing p with
  | nil => simp [fillParams]
  | cons head rest ih =>
    cases p with
    | zero => rfl
    | succ p =>
      obtain ⟨row, hcons⟩ := fillParams_cons stop head rest
      rw [hcons, List.drop_succ_cons, List.drop_succ_cons, ih]

/-- The first row begins its parameters where the filling has got to. -/
lemma head?_fillParams {stop : UInt32} {planned : List (PlannedMethod × Row)}
    (hwide : ∀ head ∈ planned, 5 < head.2.size) :
    ((fillParams stop planned).1.head?.map (·.getD 5 0)).getD stop =
      (fillParams stop planned).2 := by
  cases planned with
  | nil => rfl
  | cons head rest =>
    obtain ⟨planned, row⟩ := head
    have hsize : 5 < row.size := hwide _ (List.mem_cons_self ..)
    cases planned with
    | existing rid => rfl
    | added method => simp [fillParams, hsize]

/-- In front of an old row, and of added ones before it, the filling begins where this row does. -/
lemma fillParams_next {planned : List (PlannedMethod × Row)} {r m : Nat}
    (hrows : ∀ rid row, (.existing rid, row) ∈ planned → before.row? .methodDef rid = some row)
    (holds : (planned.map Prod.fst).filterMap PlannedMethod.old? = List.range' r m)
    (hend : r + m = before.count .methodDef + 1) :
    (fillParams (UInt32.ofNat (before.count .param + 1)) planned).2 = before.firstParam r := by
  induction planned with
  | nil =>
    have hm : m = 0 := by simpa using (congrArg List.length holds).symm
    exact (firstParam_beyond (by omega)).symm
  | cons head rest ih =>
    obtain ⟨planned, row⟩ := head
    cases planned with
    | existing rid =>
      have hr : rid = r := by
        cases m with
        | zero => simp [PlannedMethod.old?] at holds
        | succ m =>
          simp only [PlannedMethod.old?, List.map_cons, List.filterMap_cons, List.range'_succ,
            List.cons.injEq] at holds
          exact holds.1
      have hrow := hrows rid row (List.mem_cons_self ..)
      rw [firstParam, ← hr, hrow]
      rfl
    | added method =>
      exact ih (fun rid row hmem => hrows rid row (List.mem_cons_of_mem _ hmem)) holds

/-- Each old method has the parameters that it had, and each added one has none. -/
structure KeepsParams (plan : MethodPlan) (before after : Tables) : Prop where
  old : ∀ r, 1 ≤ r → r ≤ before.count .methodDef → ∃ p start stop,
    plan.rows[p]? = some (.existing r) ∧ plan.rids.get (.ofNat r) = .ofNat (p + 1) ∧
      before.run .methodDef 5 r .param = .ok (start, stop) ∧
      after.run .methodDef 5 (p + 1) .param = .ok (start, stop)
  added : ∀ p method, (p, method) ∈ plan.added →
    ∃ start, after.run .methodDef 5 p .param = .ok (start, start)

section Apply

variable {addedRow : Nat → Result Row} (h : plan.apply before addedRow = .ok after)
  (hwidth : ∀ method row, addedRow method = .ok row → row.size = 6) (hformed : before.Formed)
include h hwidth hformed

/-- The parameters of a planned row begin where those of the next old row did. -/
lemma firstParam_of_apply {p r : Nat} (hle : r ≤ before.count .methodDef + 1)
    (hnext : (plan.rows.toList.drop p).filterMap PlannedMethod.old? =
      List.range' r (before.count .methodDef + 1 - r)) :
    after.firstParam (p + 1) = before.firstParam r := by
  obtain ⟨rows, hnew, rfl⟩ := apply_eq_ok h
  obtain ⟨hexisting, -, -⟩ := mem_zip_newRows hnew
  have hsizes := width_newRows hwidth hnew hformed
  generalize hstop : UInt32.ofNat (before.count .param + 1) = stop
  generalize hplanned : plan.rows.toList.zip rows = planned at hexisting ⊢
  -- the row at a place is the first of those from there on, so the filling of these is enough
  have hfst : planned.map Prod.fst = plan.rows.toList := by
    rw [← hplanned, List.map_fst_zip]
    rw [length_newRows hnew, Array.length_toList]
  have hwide : ∀ head ∈ planned.drop p, 5 < head.2.size := by
    intro head hmem
    have hmem := List.mem_of_mem_drop hmem
    rw [← hplanned] at hmem
    rw [hsizes _ (List.of_mem_zip hmem).2]
    decide
  calc firstParam _ (p + 1)
      = ((fillParams stop (planned.drop p)).1.head?.map (·.getD 5 0)).getD stop := by
        rw [firstParam, row?, if_neg (by omega), Tables.count, table_setTable_of_ne _ (by decide),
          table_setTable_self, table_setTable_of_ne _ (by decide),
          table_setTable_of_ne _ (by decide), ← fillParams_drop, List.head?_drop, ← hstop]
        simp [Tables.count]
    _ = (fillParams stop (planned.drop p)).2 := head?_fillParams hwide
    _ = before.firstParam r := by
        rw [← hstop]
        refine fillParams_next (fun rid row hmem => hexisting rid row (List.mem_of_mem_drop hmem))
          (m := before.count .methodDef + 1 - r) ?_ (by omega)
        rw [List.map_drop, hfst, hnext]

end Apply

lemma drop_of_place {p : Nat} {planned : PlannedMethod} (hp : plan.rows[p]? = some planned) :
    plan.rows.toList.drop p = planned :: plan.rows.toList.drop (p + 1) := by
  rw [← Array.getElem?_toList] at hp
  obtain ⟨hlt, rfl⟩ := List.getElem?_eq_some_iff.mp hp
  exact List.drop_eq_getElem_cons hlt

lemma next_added {p method : Nat} (hp : (ofImage image).rows[p]? = some (.added method)) :
    ((ofImage image).rows.toList.drop p).filterMap PlannedMethod.old? =
      ((ofImage image).rows.toList.drop (p + 1)).filterMap PlannedMethod.old? := by
  rw [drop_of_place hp]
  rfl

section Plan

variable (himage : image.Arranged)
include himage

/-- Behind any planned row the old rows that are left come in their order. -/
lemma exists_next (p : Nat) : ∃ r, 1 ≤ r ∧ r ≤ image.metadata.tables.count .methodDef + 1 ∧
    ((ofImage image).rows.toList.drop p).filterMap PlannedMethod.old? =
      List.range' r (image.metadata.tables.count .methodDef + 1 - r) := by
  have holds := (ofImage_olds himage).1
  rw [← List.take_append_drop p (ofImage image).rows.toList, List.filterMap_append] at holds
  obtain ⟨k, hk, -, hdrop⟩ := List.range'_eq_append_iff.mp holds.symm
  refine ⟨k + 1, by omega, by omega, ?_⟩
  rw [hdrop, Nat.mul_one, Nat.add_comm 1 k, Nat.add_sub_add_right]

lemma next_existing {p r : Nat} (hp : (ofImage image).rows[p]? = some (.existing r)) :
    1 ≤ r ∧ r ≤ image.metadata.tables.count .methodDef ∧
      ((ofImage image).rows.toList.drop p).filterMap PlannedMethod.old? =
        List.range' r (image.metadata.tables.count .methodDef + 1 - r) ∧
      ((ofImage image).rows.toList.drop (p + 1)).filterMap PlannedMethod.old? =
        List.range' (r + 1) (image.metadata.tables.count .methodDef + 1 - (r + 1)) := by
  obtain ⟨s, hpos, hle, hnext⟩ := exists_next himage p
  obtain ⟨m, hm⟩ : ∃ m, image.metadata.tables.count .methodDef + 1 - s = m + 1 := by
    refine Nat.exists_eq_succ_of_ne_zero fun hzero => ?_
    rw [hzero, drop_of_place hp] at hnext
    simp [PlannedMethod.old?] at hnext
  have hcons := hnext
  rw [hm, List.range'_succ, drop_of_place hp, List.filterMap_cons, PlannedMethod.old?,
    List.cons.injEq] at hcons
  obtain ⟨rfl, hrest⟩ := hcons
  refine ⟨hpos, by omega, hnext, ?_⟩
  rw [hrest]
  congr 1
  omega

/-- A plan that is applied to tables whose parameters can be read keeps them. -/
lemma keepsParams_of_apply {addedRow : Nat → Result Row}
    (h : (ofImage image).apply before addedRow = .ok after)
    (hwidth : ∀ method row, addedRow method = .ok row → row.size = 6) (hformed : before.Formed)
    (hmethods : before.count .methodDef = image.metadata.tables.count .methodDef)
    (hsmall : before.count .methodDef < 2 ^ 32) (hparams : before.count .param + 1 < 2 ^ 32)
    (hreads : before.ReadsParams) : (ofImage image).KeepsParams before after := by
  have hafter := formed_of_apply hwidth h hformed
  have hcount : after.count .methodDef = (ofImage image).rows.size := count_of_apply h _
  have hparam : after.count .param = before.count .param := count_of_apply h _
  have hfirst (p r : Nat) := firstParam_of_apply (p := p) (r := r) h hwidth hformed
  rw [hmethods] at hfirst
  have hrun (p : Nat) (hp : p < (ofImage image).rows.size) :=
    @run_param_eq_ok after hafter (hparam ▸ hparams) (p + 1) (Nat.succ_pos p) (hcount ▸ hp)
  rw [hparam] at hrun
  refine ⟨fun r hpos hle => ?_, fun p method hadded => ?_⟩
  · obtain ⟨start, stop, hold⟩ := hreads r hpos hle
    obtain ⟨rfl, rfl, hrange⟩ := (run_param_eq_ok hformed hparams hpos hle).mp hold
    obtain ⟨p, hp⟩ := exists_existing himage hpos (hmethods ▸ hle)
    obtain ⟨-, -, hnext, hbehind⟩ := next_existing himage hp
    have hr : (UInt32.ofNat r).toNat = r := UInt32.toNat_ofNat_of_lt' (by
      simp only [UInt32.size]
      omega)
    refine ⟨p, _, _, hp, get_of_place himage (by omega) (hr.symm ▸ hp), hold, ?_⟩
    apply (hrun _ (Array.getElem?_eq_some_iff.mp hp).1).mpr
    rw [hfirst p r (by omega) hnext, hfirst (p + 1) (r + 1) (by omega) hbehind]
    exact ⟨rfl, rfl, hrange⟩
  · obtain ⟨hpos, hp⟩ := mem_added.mp hadded
    -- the same old row comes next from here and from the place behind
    obtain ⟨r, hr, hle, hnext⟩ := exists_next himage (p - 1)
    refine ⟨(before.firstParam r).toNat, ?_⟩
    have := hreads.bounds hformed hparams hr
    rw [← Nat.sub_add_cancel hpos]
    apply (hrun _ (Array.getElem?_eq_some_iff.mp hp).1).mpr
    rw [hfirst (p - 1) r hle hnext, hfirst (p - 1 + 1) r hle (next_added hp ▸ hnext)]
    exact ⟨rfl, rfl, by omega⟩

end Plan

/-- The parameters of all methods have been read with the image. -/
lemma readsParams_of_prepared {data : Bytes} (h : image.Prepared data) :
    image.metadata.tables.ReadsParams := by
  intro rid hpos hle
  obtain ⟨j, rfl⟩ := Nat.exists_eq_succ_of_ne_zero (Nat.one_le_iff_ne_zero.mp hpos)
  obtain ⟨m, hread, -⟩ := h.exists_readMethod hle
  exact Image.params_of_readMethod hread

/-- The planned rows of an image preserve which method owns which parameters. -/
theorem ofImage_keepsParams {data : Bytes} {addedRow : Nat → Result Row}
    (hprepared : image.Prepared data)
    (hwidth : ∀ method row, addedRow method = .ok row → row.size = 6)
    (h : (ofImage image).apply image.metadata.tables addedRow = .ok after) :
    (ofImage image).KeepsParams image.metadata.tables after := by
  obtain ⟨_, -, hmetadata⟩ := hprepared.parsed.opens.metadata
  obtain ⟨hformed, hcount, -⟩ := Metadata.formed_of_read hmetadata
  obtain ⟨bytes, hbytes, htables⟩ := Metadata.tables_of_read hmetadata
  have hparams := count_le_of_read htables .param
  exact keepsParams_of_apply hprepared.arranged h hwidth hformed.tables rfl (hcount _) (by omega)
    (readsParams_of_prepared hprepared)

/-- An image of two types: the method of the first one has two parameters, those of the second one
have none and one. -/
def threeParams : Bytes := #[
  77, 90, 0, 0, 0, 0, 0, 0, 0, 0, 0, 0, 0, 0, 0, 0, 0, 0, 0, 0, 0, 0, 0, 0, 0, 0, 0, 0, 0, 0, 0, 0,
  0, 0, 0, 0, 0, 0, 0, 0, 0, 0, 0, 0, 0, 0, 0, 0, 0, 0, 0, 0, 0, 0, 0, 0, 0, 0, 0, 0, 64, 0, 0, 0,
  80, 69, 0, 0, 76, 1, 1, 0, 0, 0, 0, 0, 0, 0, 0, 0, 0, 0, 0, 0, 216, 0, 2, 33, 11, 1, 0, 0, 0, 0,
  0, 0, 0, 0, 0, 0, 0, 0, 0, 0, 0, 0, 0, 0, 0, 0, 0, 0, 0, 0, 0, 0, 0, 0, 0, 0, 0, 16, 0, 0, 8, 0,
  0, 0, 0, 0, 0, 0, 0, 0, 0, 0, 0, 0, 0, 0, 0, 0, 0, 0, 0, 0, 0, 0, 88, 1, 0, 0, 0, 0, 0, 0, 0, 0,
  0, 0, 0, 0, 0, 0, 0, 0, 0, 0, 0, 0, 0, 0, 0, 0, 0, 0, 0, 0, 0, 0, 15, 0, 0, 0, 0, 0, 0, 0, 0, 0,
  0, 0, 0, 0, 0, 0, 0, 0, 0, 0, 0, 0, 0, 0, 0, 0, 0, 0, 0, 0, 0, 0, 0, 0, 0, 0, 0, 0, 0, 0, 0, 0, 0,
  0, 0, 0, 0, 0, 0, 0, 0, 0, 0, 0, 0, 0, 0, 0, 0, 0, 0, 0, 0, 0, 0, 0, 0, 0, 0, 0, 0, 0, 0, 0, 0, 0,
  0, 0, 0, 0, 0, 0, 0, 0, 0, 0, 0, 0, 0, 0, 0, 0, 0, 0, 0, 0, 0, 0, 0, 0, 0, 0, 0, 0, 0, 0, 0, 0, 0,
  0, 0, 0, 0, 0, 0, 0, 0, 16, 0, 0, 72, 0, 0, 0, 46, 116, 101, 120, 116, 0, 0, 0, 252, 0, 0, 0, 0,
  16, 0, 0, 252, 0, 0, 0, 88, 1, 0, 0, 0, 0, 0, 0, 0, 0, 0, 0, 0, 0, 0, 0, 32, 0, 0, 96, 72, 0, 0,
  0, 2, 0, 5, 0, 72, 16, 0, 0, 180, 0, 0, 0, 1, 0, 0, 0, 0, 0, 0, 0, 0, 0, 0, 0, 0, 0, 0, 0, 0, 0,
  0, 0, 0, 0, 0, 0, 0, 0, 0, 0, 0, 0, 0, 0, 0, 0, 0, 0, 0, 0, 0, 0, 0, 0, 0, 0, 0, 0, 0, 0, 0, 0, 0,
  0, 0, 0, 0, 0, 66, 83, 74, 66, 1, 0, 1, 0, 0, 0, 0, 0, 0, 0, 0, 0, 0, 0, 2, 0, 48, 0, 0, 0, 124,
  0, 0, 0, 35, 126, 0, 0, 172, 0, 0, 0, 8, 0, 0, 0, 35, 66, 108, 111, 98, 0, 0, 0, 0, 0, 0, 0, 2, 0,
  0, 1, 68, 1, 0, 0, 0, 0, 0, 0, 0, 0, 0, 0, 0, 0, 0, 0, 2, 0, 0, 0, 3, 0, 0, 0, 3, 0, 0, 0, 0, 0,
  0, 0, 0, 0, 0, 0, 0, 0, 1, 0, 1, 0, 0, 0, 0, 0, 0, 0, 0, 0, 0, 0, 1, 0, 2, 0, 0, 0, 0, 0, 0, 0, 0,
  0, 0, 0, 1, 0, 1, 0, 0, 0, 0, 0, 0, 0, 0, 0, 0, 0, 1, 0, 3, 0, 0, 0, 0, 0, 0, 0, 0, 0, 0, 0, 1, 0,
  3, 0, 0, 0, 1, 0, 0, 0, 0, 0, 2, 0, 0, 0, 0, 0, 1, 0, 0, 0, 0, 3, 0, 0, 1, 0, 0, 0]

/-- A method is added to either type. -/
theorem ofImage_keepsParams_threeParams : ∃ image after, image.Prepared threeParams ∧
    (ofImage image).apply image.metadata.tables (fun _ => .ok #[0, 0, 0, 0, 0, 0]) = .ok after ∧
    (after.table .methodDef).map (·.getD 5 0) = #[1, 3, 3, 3, 4] ∧
    (ofImage image).KeepsParams image.metadata.tables after := by
  obtain ⟨original, hread, htest⟩ := Result.exists_of_holds (x := Image.read 0 threeParams)
    (p := fun original => original.methods[0]?.any fun m =>
      Result.holds (original.addMethod 0 { m with rid := none }) fun first =>
        Result.holds (first.1.addMethod 1 { m with rid := none }) fun second =>
          Result.holds ((ofImage second.1).apply second.1.metadata.tables
            fun _ => .ok #[0, 0, 0, 0, 0, 0]) fun after =>
              (after.table .methodDef).map (·.getD 5 0) == #[1, 3, 3, 3, 4])
    (by
      rw [Image.readByTails.2]
      decide +kernel)
  obtain ⟨m, -, htest⟩ := (Option.any_eq_true ..).mp htest
  obtain ⟨⟨between, _⟩, hfirst, htest⟩ := Result.exists_of_holds htest
  obtain ⟨⟨image, _⟩, hsecond, htest⟩ := Result.exists_of_holds htest
  obtain ⟨after, hafter, htest⟩ := Result.exists_of_holds htest
  have hprepared : image.Prepared threeParams := .add (.add (.read hread) rfl hfirst) rfl hsecond
  refine ⟨image, after, hprepared, hafter, by simpa using htest, ?_⟩
  exact ofImage_keepsParams hprepared (fun _ _ hrow => by cases hrow; rfl) hafter

end MethodPlan

end CliImage
