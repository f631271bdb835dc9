import CliImage.Proofs.Image.Evaluation
import CliImage.Proofs.Output.Metadata
import CliImage.Proofs.Renumber.Code

/-! Debug rows go where the plan puts the methods that they describe. -/

namespace CliImage.Metadata

open MethodPlan

variable {data : Bytes} {image : Image} {symbols : Symbols} {plan : MethodPlan} {ts tables : Tables}
  {before after : Metadata}

/-- Debug rows stand at the new numbers of their methods and are zeros for added ones; the entry
point is the method that it was. -/
structure Parallel (plan : MethodPlan) (methods : Nat) (before after : Metadata) : Prop where
  absent : before.tables.count .methodDebugInformation = 0 →
    after.tables.count .methodDebugInformation = 0
  size : before.tables.count .methodDebugInformation ≠ 0 →
    after.tables.count .methodDebugInformation = plan.rows.size
  existing : ∀ rid row, before.tables.row? .methodDebugInformation rid = some row →
    after.tables.row? .methodDebugInformation (plan.rids.get (UInt32.ofNat rid)).toNat = some row
  added : before.tables.count .methodDebugInformation ≠ 0 →
    ∀ (i method : Nat), plan.rows[i]? = some (.added method) →
      after.tables.row? .methodDebugInformation (i + 1) = some #[0, 0]
  entryPoint : ∀ header, before.pdb = some header → ∃ header', after.pdb = some header' ∧
    (∀ rid, 1 ≤ rid → rid ≤ methods → header.entryPoint.table = TableId.methodDef.number →
      header.entryPoint.row = rid → ∃ i : Nat, plan.rows[i]? = some (.existing rid) ∧
        header'.entryPoint = Token.ofRow .methodDef (i + 1)) ∧
    (¬ (header.entryPoint.table = TableId.methodDef.number ∧ 1 ≤ header.entryPoint.row ∧
      header.entryPoint.row ≤ methods) → header'.entryPoint = header.entryPoint)

lemma token_eq_self {map : RidMap} {token : Token} (h : token.table = map.table.number →
    token.row = 0 ∨ map.targets.size < token.row) : map.token token = token := by
  refine RidMap.token_of_get fun hnamed => ?_
  rcases h hnamed with hzero | hbeyond
  · rw [hzero]
    rfl
  · refine RidMap.get_beyond ?_
    rwa [UInt32.toNat_ofNat_of_lt' (token.row_lt.trans (by decide))]

lemma planDebugRows_getElem? (h : planDebugRows plan ts = .ok tables)
    (hsome : ts.count .methodDebugInformation ≠ 0) {i : Nat} {planned : PlannedMethod}
    (hi : plan.rows[i]? = some planned) : tables.row? .methodDebugInformation (i + 1) =
      match planned with
      | .existing rid => ts.row? .methodDebugInformation rid
      | .added _ => some #[0, 0] := by
  unfold planDebugRows at h
  rw [if_neg hsome] at h
  obtain ⟨rows, hrows, h⟩ := Result.bind_eq_ok.mp h
  cases h
  have hall := Result.mapM_eq_ok.mp hrows
  obtain ⟨hlt, hget⟩ := Array.getElem?_eq_some_iff.mp hi
  have hlt' : i < rows.length := by
    have := hall.length_eq
    rw [Array.length_toList] at this
    omega
  have hmade := hall.get (i := i) (by simpa using hlt) hlt'
  simp only [List.get_eq_getElem, Array.getElem_toList, hget] at hmade
  rw [Tables.row?, if_neg (Nat.succ_ne_zero i), Tables.table_setTable_self, Nat.add_sub_cancel,
    List.getElem?_toArray, List.getElem?_eq_getElem hlt']
  cases planned with
  | added method => rw [Except.ok.inj hmade]
  | existing rid =>
    simp only at hmade ⊢
    split at hmade
    · rename_i row hrow
      rw [hrow, Except.ok.inj hmade]
    · cases hmade

lemma table_renumberMethods (h : before.renumberMethods plan = .ok after)
    (hplan : plan.rids.table = .methodDef) : ∃ tables, planDebugRows plan before.tables = .ok tables ∧
      after.tables.table .methodDebugInformation = tables.table .methodDebugInformation ∧
      after.pdb = before.pdb.map fun header =>
        { header with entryPoint := plan.rids.token header.entryPoint } := by
  obtain ⟨planned, hplanned, h⟩ := Result.bind_eq_ok.mp h
  obtain ⟨tables, htables, h⟩ := Result.bind_eq_ok.mp h
  obtain ⟨⟨stepped, n⟩, hstepped, h⟩ := Result.bind_eq_ok.mp h
  cases h
  obtain ⟨hedited, -, hsame⟩ := renumberAllStepping_eq_ok hstepped
  -- No debug row names a method.
  have hnone : plan.rids.referencing .methodDebugInformation = [] := by
    rw [RidMap.referencing, hplan]
    rfl
  refine ⟨planned, hplanned, ?_, by rw [hedited.pdb_eq]⟩
  rw [hsame _ (by decide), (Tables.Followed.of_renumbered htables).table,
    funext (RidMap.followRow_of_no_references hnone), Array.map_id']

/-- A PDB that belongs to an image goes with every plan of the image's methods. -/
theorem parallel_renumberMethods (himage : image.Prepared data)
    (hsymbols : image.symbols = some symbols) (hfit : (ofImage image).rows.size < 2 ^ 32)
    (h : symbols.metadata.renumberMethods (ofImage image) = .ok after) :
    Parallel (ofImage image) (image.metadata.tables.count .methodDef) symbols.metadata after := by
  have harranged := himage.arranged
  obtain ⟨holds, hplan, htargets, -⟩ := ofImage_olds harranged
  have hdebug := Output.debugRows_of_parsed himage.parsed hsymbols
  have hmethods : image.metadata.tables.count .methodDef < 2 ^ 32 := by
    have := List.length_filterMap_le PlannedMethod.old? (ofImage image).rows.toList
    rw [holds, List.length_range', Array.length_toList] at this
    omega
  obtain ⟨tables, htables, hsame, hpdb⟩ := table_renumberMethods h hplan
  have hcount := (planDebugRows_eq_ok htables).2
  have hrow (rid : Nat) : after.tables.row? .methodDebugInformation rid =
      tables.row? .methodDebugInformation rid := by
    rw [Tables.row?, hsame, Tables.row?]
  have hafter : after.tables.count .methodDebugInformation =
      tables.count .methodDebugInformation := by
    rw [Tables.count, hsame, Tables.count]
  have hplace {rid : Nat} (hpos : 1 ≤ rid) (hle : rid ≤ image.metadata.tables.count .methodDef) :
      ∃ i, (ofImage image).rows[i]? = some (.existing rid) ∧
        ((ofImage image).rids.get (UInt32.ofNat rid)).toNat = i + 1 := by
    have hvalue : (UInt32.ofNat rid).toNat = rid := UInt32.toNat_ofNat_of_lt' (show rid < 2 ^ 32 by omega)
    have := exists_planned harranged hfit (r := UInt32.ofNat rid) (by omega) (by omega)
    rwa [hvalue] at this
  refine ⟨fun hzero => ?_, fun hne => ?_, fun rid row hold => ?_, fun hne i method hi => ?_,
    fun header hheader => ⟨_, by rw [hpdb, hheader]; rfl, ?_, ?_⟩⟩
  · rw [hafter, hcount, if_pos hzero]
  · rw [hafter, hcount, if_neg hne]
  · obtain ⟨hpos, hget⟩ := Tables.row?_eq_some.mp hold
    have hlt : rid - 1 < symbols.metadata.tables.count .methodDebugInformation :=
      (Array.getElem?_eq_some_iff.mp hget).1
    rw [DebugRows] at hdebug
    obtain ⟨i, hi, hnew⟩ := hplace hpos (by omega)
    rw [hrow, hnew, planDebugRows_getElem? htables (by omega) hi]
    exact hold
  · rw [hrow, planDebugRows_getElem? htables hne hi]
  · rintro rid hpos hle htable rfl
    obtain ⟨i, hi, hnew⟩ := hplace hpos hle
    refine ⟨i, hi, ?_⟩
    have hnull : ¬ header.entryPoint.isNull = true := fun hnull => by
      rw [Token.isNull, beq_iff_eq] at hnull
      rw [Token.table, hnull] at htable
      exact absurd htable (by decide)
    change (ofImage image).rids.token header.entryPoint = _
    rw [RidMap.token, hplan, if_pos ⟨htable, hnull⟩, hnew]
  · intro htable
    change (ofImage image).rids.token header.entryPoint = _
    exact token_eq_self fun hnamed => by
      rw [hplan] at hnamed
      rw [htargets]
      omega

/-- A PDB of three methods, the second of which is the entry point. -/
def threeMethods : Bytes := #[
  66, 83, 74, 66, 1, 0, 1, 0, 0, 0, 0, 0, 4, 0, 0, 0, 118, 52, 0, 0, 0, 0, 2, 0, 52, 0, 0, 0, 36,
  0, 0, 0, 35, 80, 100, 98, 0, 0, 0, 0, 88, 0, 0, 0, 40, 0, 0, 0, 35, 126, 0, 0, 1, 2, 3, 4, 5, 6,
  7, 8, 9, 10, 11, 12, 13, 14, 15, 16, 17, 18, 19, 20, 2, 0, 0, 6, 64, 0, 0, 0, 0, 0, 0, 0, 3, 0,
  0, 0, 0, 0, 0, 0, 2, 0, 0, 1, 0, 0, 0, 0, 0, 0, 2, 0, 0, 0, 0, 0, 0, 0, 0, 0, 3, 0, 0, 0, 5, 0,
  1, 0, 6, 0, 2, 0, 7, 0, 3, 0]

/-- A method added to the first type stands behind the first one. -/
theorem parallel_renumberMethods_three : ∃ image symbols after, image.Prepared crossed ∧
    image.symbols = some symbols ∧ (ofImage image).rids.targets = #[1, 3, 4] ∧
    symbols.metadata.renumberMethods (ofImage image) = .ok after ∧
    after.tables.table .methodDebugInformation = #[#[5, 1], #[0, 0], #[6, 2], #[7, 3]] ∧
    Parallel (ofImage image) 3 symbols.metadata after := by
  obtain ⟨before, hread, htest⟩ := Result.exists_of_holds (x := Image.read 0 crossed)
    (p := fun before => before.methods[0]?.any fun m =>
      Result.holds (before.attach "three.pdb" threeMethods) fun attached =>
        Result.holds (attached.addMethod 0 { m with rid := none }) fun added =>
          added.1.symbols.any fun symbols =>
            decide ((ofImage added.1).rows.size < 2 ^ 32 ∧
              (ofImage added.1).rids.targets = #[1, 3, 4] ∧
              added.1.metadata.tables.count .methodDef = 3) &&
            Result.holds (symbols.metadata.renumberMethods (ofImage added.1)) fun after =>
              after.tables.table .methodDebugInformation ==
                #[#[5, 1], #[0, 0], #[6, 2], #[7, 3]])
    (by
      rw [Image.readByTails.2]
      decide +kernel)
  obtain ⟨m, -, htest⟩ := (Option.any_eq_true ..).mp htest
  obtain ⟨attached, hattach, htest⟩ := Result.exists_of_holds htest
  obtain ⟨⟨image, id⟩, hadd, htest⟩ := Result.exists_of_holds htest
  obtain ⟨symbols, hsymbols, htest⟩ := (Option.any_eq_true ..).mp htest
  simp only [Bool.and_eq_true, decide_eq_true_eq] at htest
  obtain ⟨⟨hfit, htargets, hmethods⟩, htest⟩ := htest
  obtain ⟨after, hafter, htable⟩ := Result.exists_of_holds htest
  have himage : image.Prepared crossed := .add (.attach (.read hread) hattach) rfl hadd
  have hparallel := parallel_renumberMethods himage hsymbols hfit hafter
  rw [hmethods] at hparallel
  exact ⟨image, symbols, after, himage, hsymbols, htargets, hafter, by simpa using htable,
    hparallel⟩

end CliImage.Metadata
