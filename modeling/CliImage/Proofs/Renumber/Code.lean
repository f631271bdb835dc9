import CliImage.Proofs.Edit

/-! Renumbering in code and in vtable slots: every operand gets its new token, once, and nothing
else changes. -/

namespace CliImage

namespace RidMap

open Bytes Edit

variable {map : RidMap} {offsetOf : Nat → Result Nat} {data after : Bytes}

/-- A place where an instruction holds its token. -/
def PlacedAt (offsetOf : Nat → Result Nat) (i : Instruction) (o : Nat) : Prop :=
  offsetOf (i.rva.toNat + i.size - 4) = .ok o

/-- The places of operands are the same or apart. -/
def Separate (offsetOf : Nat → Result Nat) (all : List (Instruction × Token)) : Prop :=
  ∀ a ∈ all, ∀ b ∈ all, ∀ o, PlacedAt offsetOf a.1 o → ∀ o', PlacedAt offsetOf b.1 o' →
    o = o' ∨ o + 4 ≤ o' ∨ o' + 4 ≤ o

instance {all : List (Instruction × Token)} : Decidable (Separate offsetOf all) :=
  inferInstanceAs (Decidable (∀ a ∈ all, ∀ b ∈ all,
    ∀ o, offsetOf (a.1.rva.toNat + a.1.size - 4) = .ok o →
      ∀ o', offsetOf (b.1.rva.toNat + b.1.size - 4) = .ok o' →
        o = o' ∨ o + 4 ≤ o' ∨ o' + 4 ≤ o))

/-- The places of operands are the same, with one token, or apart. -/
def Apart (offsetOf : Nat → Result Nat) (all : List (Instruction × Token)) : Prop :=
  ∀ a ∈ all, ∀ b ∈ all, ∀ o o', PlacedAt offsetOf a.1 o → PlacedAt offsetOf b.1 o' →
    o = o' ∧ a.2 = b.2 ∨ o + 4 ≤ o' ∨ o' + 4 ≤ o

lemma Apart.separate {all : List (Instruction × Token)} (h : Apart offsetOf all) :
    Separate offsetOf all := by
  intro a ha b hb o ho o' ho'
  exact (h a ha b hb o o' ho ho').imp_left And.left

lemma Apart.token_eq {all : List (Instruction × Token)} (h : Apart offsetOf all)
    {a b : Instruction × Token} (ha : a ∈ all) (hb : b ∈ all) {o : Nat}
    (ho : PlacedAt offsetOf a.1 o) (ho' : PlacedAt offsetOf b.1 o) : a.2 = b.2 := by
  rcases h a ha b hb o o ho ho' with ⟨-, htoken⟩ | hfar
  · exact htoken
  · omega

lemma PlacedAt.unique {i : Instruction} {o o' : Nat} (h : PlacedAt offsetOf i o)
    (h' : PlacedAt offsetOf i o') : o = o' :=
  Except.ok.inj (h.symm.trans h')

/-- What holds once some operands have been renumbered: their places are known and hold the new
token of an operand that is placed there, and nothing else has changed. -/
structure Renumbered (map : RidMap) (offsetOf : Nat → Result Nat)
    (done : List (Instruction × Token)) (patched : Std.HashSet Nat) (data after : Bytes) : Prop where
  same : SameBut (fun x => ∃ a ∈ done, ∃ o, PlacedAt offsetOf a.1 o ∧ Within o 4 x) data after
  known : ∀ o, o ∈ patched ↔ ∃ a ∈ done, PlacedAt offsetOf a.1 o
  value : ∀ o ∈ patched, ∃ a ∈ done, PlacedAt offsetOf a.1 o ∧
    after.natAt o 4 = (map.token a.2).value.toNat

/-- A place holds the new token that all operands there have. -/
lemma Renumbered.natAt {done : List (Instruction × Token)} {patched : Std.HashSet Nat}
    (h : Renumbered map offsetOf done patched data after) {a : Instruction × Token} (ha : a ∈ done)
    {o : Nat} (ho : PlacedAt offsetOf a.1 o)
    (hsame : ∀ b ∈ done, PlacedAt offsetOf b.1 o → b.2 = a.2) :
    after.natAt o 4 = (map.token a.2).value.toNat := by
  obtain ⟨b, hb, hplace, hvalue⟩ := h.value o ((h.known o).mpr ⟨a, ha, ho⟩)
  rwa [hsame b hb hplace] at hvalue

lemma Renumbered.step {all done : List (Instruction × Token)} {patched patched' : Std.HashSet Nat}
    {between : Bytes} {m : Method} {i : Instruction} {token : Token}
    (h : Renumbered map offsetOf done patched data between) (hseparate : Separate offsetOf all)
    (hdone : ∀ a ∈ done, a ∈ all) (hi : (i, token) ∈ all)
    (hstep : map.operand offsetOf m patched i token between = .ok patched' after) :
    Renumbered map offsetOf (done ++ [(i, token)]) patched' data after := by
  unfold RidMap.operand at hstep
  simp only at hstep
  split at hstep
  · cases hstep
  obtain ⟨o, _, hlift, hstep⟩ := Edit.bind_eq_ok.mp hstep
  obtain ⟨ho, rfl⟩ := lift_eq_ok.mp hlift
  have hmore {q : Instruction × Token → Prop} : (∃ a ∈ done ++ [(i, token)], q a) ↔
      (∃ a ∈ done, q a) ∨ q (i, token) := by
    simp [or_and_right, exists_or]
  split at hstep
  · -- the place is known, so an operand there has given it its new token already
    rename_i hknown
    obtain ⟨rfl, rfl⟩ := Edit.pure_eq_ok.mp hstep
    refine ⟨h.same.mono fun x hx => hmore.mpr (.inl hx), fun o' => ?_,
      fun o' ho' => hmore.mpr (.inl (h.value o' ho'))⟩
    rw [hmore, ← h.known]
    refine ⟨.inl, fun hor => hor.elim id fun ho' => ?_⟩
    obtain rfl := PlacedAt.unique ho ho'
    simpa using hknown
  · rename_i hnew
    obtain ⟨_, _, hput, hstep⟩ := Edit.bind_eq_ok.mp hstep
    obtain ⟨rfl, rfl⟩ := Edit.pure_eq_ok.mp hstep
    obtain ⟨hfit, rfl⟩ := put_eq_ok.mp hput
    rw [size_ofUInt32] at hfit
    have hchange := sameBut_overlay between o (ofUInt32 (map.token token).value)
    rw [size_ofUInt32] at hchange
    refine ⟨(h.same.mono fun x hx => hmore.mpr (.inl hx)).trans
      (hchange.mono fun x hx => hmore.mpr (.inr ⟨o, ho, hx⟩)), fun o' => ?_,
      fun o' ho' => hmore.mpr ?_⟩
    · rw [Std.HashSet.mem_insert, h.known, hmore, or_comm, beq_iff_eq]
      refine or_congr_right ⟨?_, PlacedAt.unique ho⟩
      rintro rfl
      exact ho
    · by_cases heq : o = o'
      · obtain rfl := heq
        exact .inr ⟨ho, natAt_overlay_ofUInt32 hfit _⟩
      · have hold : o' ∈ patched := by simpa [heq] using ho'
        obtain ⟨b, hb, hplace, hvalue⟩ := h.value o' hold
        refine .inl ⟨b, hb, hplace, ?_⟩
        rw [← hvalue]
        refine hchange.natAt fun x hx hx' => ?_
        obtain ⟨hx, hx2⟩ := hx
        obtain ⟨hx', hx2'⟩ := hx'
        have := hseparate b (hdone b hb) _ hi o' hplace o ho
        omega

lemma Renumbered.tokens {all done tokens : List (Instruction × Token)}
    {patched patched' : Std.HashSet Nat} {between : Bytes} {m : Method}
    (h : Renumbered map offsetOf done patched data between) (hseparate : Separate offsetOf all)
    (hdone : ∀ a ∈ done, a ∈ all) (htokens : ∀ a ∈ tokens, a ∈ all)
    (hfold : tokens.foldlM (fun patched a => map.operand offsetOf m patched a.1 a.2) patched
      between = .ok patched' after) :
    Renumbered map offsetOf (done ++ tokens) patched' data after := by
  induction tokens generalizing done patched between with
  | nil =>
    obtain ⟨rfl, rfl⟩ := Edit.pure_eq_ok.mp hfold
    rwa [List.append_nil]
  | cons a tokens ih =>
    obtain ⟨next, middle, hstep, hrest⟩ := Edit.foldlM_cons_eq_ok.mp hfold
    have ha := htokens a (List.mem_cons_self ..)
    have hnext := h.step hseparate hdone ha hstep
    have := ih hnext (fun b hb => ?_) (fun b hb => htokens b (List.mem_cons_of_mem _ hb)) hrest
    · rwa [List.append_assoc] at this
    · rcases List.mem_append.mp hb with hb | hb
      · exact hdone b hb
      · rwa [List.mem_singleton.mp hb]

/-- The tokens in the code of some methods. -/
def operands (methods : List Method) : List (Instruction × Token) :=
  (methods.map Method.tokens).flatten

lemma Renumbered.methods {all done : List (Instruction × Token)} {methods : List Method}
    {patched patched' : Std.HashSet Nat} {between : Bytes}
    (h : Renumbered map offsetOf done patched data between) (hseparate : Separate offsetOf all)
    (hdone : ∀ a ∈ done, a ∈ all) (hmethods : ∀ a ∈ operands methods, a ∈ all)
    (hfold : methods.foldlM (fun patched m => m.tokens.foldlM
      (fun patched a => map.operand offsetOf m patched a.1 a.2) patched) patched between =
        .ok patched' after) :
    Renumbered map offsetOf (done ++ operands methods) patched' data after := by
  induction methods generalizing done patched between with
  | nil =>
    obtain ⟨rfl, rfl⟩ := Edit.pure_eq_ok.mp hfold
    simpa [operands] using h
  | cons m methods ih =>
    obtain ⟨next, middle, hstep, hrest⟩ := Edit.foldlM_cons_eq_ok.mp hfold
    have hsplit : operands (m :: methods) = m.tokens ++ operands methods := by simp [operands]
    rw [hsplit] at hmethods ⊢
    have htokens : ∀ a ∈ m.tokens, a ∈ all := fun a ha =>
      hmethods a (List.mem_append_left _ ha)
    have := ih (h.tokens hseparate hdone htokens hstep) (fun b hb => ?_)
      (fun b hb => hmethods b (List.mem_append_right _ hb)) hrest
    · rwa [List.append_assoc] at this
    · rcases List.mem_append.mp hb with hb | hb
      · exact hdone b hb
      · exact htokens b hb

/-- The operands of the methods that have rows get their new tokens, and no other byte changes. -/
theorem renumbered_of_code {methods : List Method} {n : Nat}
    (hseparate : Separate offsetOf (operands (methods.filter fun m => !m.isAdded)))
    (h : map.code methods offsetOf data = .ok n after) : ∃ patched : Std.HashSet Nat,
      Renumbered map offsetOf (operands (methods.filter fun m => !m.isAdded)) patched data after ∧
        n = patched.size := by
  obtain ⟨patched, between, hfold, hend⟩ := Edit.bind_eq_ok.mp h
  obtain ⟨hn, rfl⟩ := Edit.pure_eq_ok.mp hend
  refine ⟨patched, ?_, hn.symm⟩
  have hstart : Renumbered map offsetOf [] (∅ : Std.HashSet Nat) data data :=
    ⟨SameBut.refl .., fun o => by simp, fun o ho => absurd ho Std.HashSet.not_mem_empty⟩
  exact hstart.methods hseparate (fun a ha => by cases ha) (fun a ha => ha) hfold

lemma changes_operand {p : Nat → Prop} (m : Method) (patched : Std.HashSet Nat) {i : Instruction}
    (token : Token) (h : ∀ o, PlacedAt offsetOf i o → ∀ x, Within o 4 x → p x) :
    Edit.Changes (map.operand offsetOf m patched i token) p := by
  unfold RidMap.operand
  simp only
  split
  · exact Changes.throw _
  · refine Changes.lift_bind fun o ho => ?_
    split
    · exact Changes.pure _
    · exact Changes.bind (Changes.put fun x hx => h o ho x (by rwa [size_ofUInt32] at hx))
        fun _ => Changes.pure _

/-- Only operands of the methods that have rows change. -/
lemma changes_code (methods : List Method) : Edit.Changes (map.code methods offsetOf) fun x =>
    ∃ a ∈ operands (methods.filter fun m => !m.isAdded), ∃ o, PlacedAt offsetOf a.1 o ∧
      Within o 4 x := by
  refine Changes.bind (Changes.foldlM (fun patched m hm => Changes.foldlM (fun patched a ha =>
    changes_operand m patched a.2 fun o ho x hx => ⟨a, ?_, o, ho, hx⟩) _) _) fun _ => Changes.pure _
  exact List.mem_flatten.mpr ⟨m.tokens, List.mem_map_of_mem hm, ha⟩

/-- Code can be renumbered where all its operands can be found. -/
lemma runs_code {methods : List Method} {n : Nat}
    (h : ∀ a ∈ operands (methods.filter fun m => !m.isAdded),
      a.1.rva.toNat + a.1.size - 4 < 2 ^ 32 ∧ ∃ o, PlacedAt offsetOf a.1 o ∧ o + 4 ≤ n) :
    Edit.Runs (map.code methods offsetOf) n := by
  refine Runs.bind (Runs.foldlM (fun patched m hm => Runs.foldlM (fun patched a ha => ?_) _) _)
    fun _ => Runs.pure _
  obtain ⟨hlt, o, ho, hfit⟩ := h a (List.mem_flatten.mpr ⟨m.tokens, List.mem_map_of_mem hm, ha⟩)
  unfold RidMap.operand
  simp only
  rw [if_neg (by omega)]
  refine Runs.lift_bind ho ?_
  split
  · exact Runs.pure _
  · exact (Runs.put (by rwa [size_ofUInt32])).bind fun _ => Runs.pure _

/-- A slot of a kind that holds tokens, in a run that the table at a place names. -/
def SlotAt (offsetOf : Nat → Result Nat) (data : Bytes) (table entries o : Nat) : Prop :=
  ∃ i < entries, ∃ size start, slotSize? (data.natAt (table + 8 * i + 6) 2) = some size ∧
    offsetOf (data.natAt (table + 8 * i) 4) = .ok start ∧
    ∃ k < data.natAt (table + 8 * i + 4) 2, o = start + k * size

lemma changes_slots (start size left i : Nat) : Edit.Changes (map.slots start size left i)
    fun x => ∃ k, i ≤ k ∧ k < i + left ∧ Within (start + k * size) 4 x := by
  induction left generalizing i with
  | zero => exact Changes.pure ()
  | succ left ih =>
    refine Changes.bind (Changes.numberAt ..) fun value => Changes.bind (Changes.put ?_) fun _ =>
      (ih (i + 1)).mono ?_
    · intro x hx
      rw [size_ofUInt32] at hx
      exact ⟨i, le_rfl, by omega, hx⟩
    · rintro x ⟨k, hle, hlt, hx⟩
      exact ⟨k, by omega, by omega, hx⟩

/-- Vtable slots are renumbered in place. -/
lemma changes_vtable (fixups : Span) :
    Edit.Changes (map.vtable fixups offsetOf) (fun _ => True) := by
  unfold vtable
  split
  · exact Changes.pure ()
  · refine Changes.bind (Changes.lift _) fun table => Changes.forM fun i _ => ?_
    refine Changes.bind (Changes.numberAt ..) fun _ => Changes.bind (Changes.numberAt ..) fun rva =>
      Changes.bind (Changes.numberAt ..) fun count => Changes.bind (Changes.numberAt ..) fun kind => ?_
    split
    · exact Changes.pure ()
    · exact Changes.bind (Changes.lift _) fun start =>
        (changes_slots start _ count 0).mono fun _ _ => trivial

/-- An entry is read whole, and a run of slots that hold tokens is renumbered. -/
lemma vtableEntry_eq_ok {entry : Nat} : map.vtableEntry offsetOf entry data = .ok () after ↔
    entry + 8 ≤ data.size ∧
      (slotSize? (data.natAt (entry + 6) 2) = none ∧ data = after ∨
        ∃ size start, slotSize? (data.natAt (entry + 6) 2) = some size ∧
          offsetOf (data.natAt entry 4) = .ok start ∧
            map.slots start size (data.natAt (entry + 4) 2) 0 data = .ok () after) := by
  unfold vtableEntry
  constructor
  · intro h
    obtain ⟨_, _, hread, h⟩ := Edit.bind_eq_ok.mp h
    obtain ⟨hfit, -, rfl⟩ := numberAt_eq_ok.mp hread
    obtain ⟨_, _, hread, h⟩ := Edit.bind_eq_ok.mp h
    obtain ⟨-, rfl, rfl⟩ := numberAt_eq_ok.mp hread
    obtain ⟨_, _, hread, h⟩ := Edit.bind_eq_ok.mp h
    obtain ⟨-, rfl, rfl⟩ := numberAt_eq_ok.mp hread
    obtain ⟨_, _, hread, h⟩ := Edit.bind_eq_ok.mp h
    obtain ⟨-, rfl, rfl⟩ := numberAt_eq_ok.mp hread
    refine ⟨hfit, ?_⟩
    cases hsize : slotSize? (data.natAt (entry + 6) 2) with
    | none =>
      rw [hsize] at h
      exact .inl ⟨rfl, (Edit.pure_eq_ok.mp h).2⟩
    | some size =>
      rw [hsize] at h
      obtain ⟨start, _, hlift, h⟩ := Edit.bind_eq_ok.mp h
      obtain ⟨hstart, rfl⟩ := lift_eq_ok.mp hlift
      exact .inr ⟨size, start, rfl, hstart, h⟩
  · rintro ⟨hfit, h⟩
    refine Edit.bind_eq_ok.mpr ⟨_, data, numberAt_eq_ok.mpr ⟨hfit, rfl, rfl⟩, ?_⟩
    refine Edit.bind_eq_ok.mpr ⟨_, data, numberAt_eq_ok.mpr ⟨by omega, rfl, rfl⟩, ?_⟩
    refine Edit.bind_eq_ok.mpr ⟨_, data, numberAt_eq_ok.mpr ⟨by omega, rfl, rfl⟩, ?_⟩
    refine Edit.bind_eq_ok.mpr ⟨_, data, numberAt_eq_ok.mpr ⟨by omega, rfl, rfl⟩, ?_⟩
    rcases h with ⟨hsize, rfl⟩ | ⟨size, start, hsize, hstart, h⟩
    · rw [hsize]
      exact Edit.pure_eq_ok.mpr ⟨rfl, rfl⟩
    · rw [hsize]
      exact Edit.bind_eq_ok.mpr ⟨start, data, lift_eq_ok.mpr ⟨hstart, rfl⟩, h⟩

/-- No slot lies in the table, so the table says what it said before. -/
lemma natAt_table {table entries : Nat} {slot : Nat → Prop} {between : Bytes}
    (hsame : SameBut (fun x => ∃ o, slot o ∧ Within o 4 x) data between)
    (hfree : ∀ o, slot o → ∀ x, Within o 4 x → ¬ Within table (8 * entries) x) {i : Nat}
    (hi : i < entries) (offset w : Nat) (hle : offset + w ≤ 8) :
    between.natAt (table + 8 * i + offset) w = data.natAt (table + 8 * i + offset) w := by
  refine hsame.natAt fun x hx hslot => ?_
  obtain ⟨o, ho, hxo⟩ := hslot
  obtain ⟨hx, hx'⟩ := hx
  exact hfree o ho x hxo ⟨by omega, by omega⟩

lemma sameBut_of_vtableEntry {table entries i : Nat} {between : Bytes} (hi : i < entries)
    (hsame : SameBut (fun x => ∃ o, SlotAt offsetOf data table entries o ∧ Within o 4 x) data between)
    (hfree : ∀ o, SlotAt offsetOf data table entries o → ∀ x, Within o 4 x →
      ¬ Within table (8 * entries) x)
    (h : map.vtableEntry offsetOf (table + 8 * i) between = .ok () after) :
    SameBut (fun x => ∃ o, SlotAt offsetOf data table entries o ∧ Within o 4 x) data after := by
  obtain ⟨-, ⟨-, rfl⟩ | ⟨size, start, hsize, hstart, h⟩⟩ := vtableEntry_eq_ok.mp h
  · exact hsame
  have hrva := natAt_table hsame hfree hi 0 4 (by decide)
  rw [Nat.add_zero] at hrva
  rw [natAt_table hsame hfree hi 6 2 (by decide)] at hsize
  rw [natAt_table hsame hfree hi 4 2 (by decide)] at h
  rw [hrva] at hstart
  refine hsame.trans ((changes_slots start size _ 0 h).mono ?_)
  rintro x ⟨k, -, hk, hx⟩
  exact ⟨_, ⟨i, hi, size, start, hsize, hstart, k, by omega, rfl⟩, hx⟩

lemma vtable_eq_ok {fixups : Span} : map.vtable fixups offsetOf data = .ok () after ↔
    (fixups.rva = 0 ∨ fixups.size = 0) ∧ data = after ∨
      ¬ (fixups.rva = 0 ∨ fixups.size = 0) ∧ ∃ table, offsetOf fixups.rva.toNat = .ok table ∧
        ((List.range (fixups.size.toNat / 8)).forM fun i =>
          map.vtableEntry offsetOf (table + 8 * i)) data = .ok () after := by
  unfold vtable
  split
  · rename_i hnone
    simp [hnone, Edit.pure_eq_ok]
  · rename_i hsome
    simp only [hsome, false_and, not_false_eq_true, true_and, false_or]
    constructor
    · intro h
      obtain ⟨table, _, hlift, h⟩ := Edit.bind_eq_ok.mp h
      obtain ⟨htable, rfl⟩ := lift_eq_ok.mp hlift
      exact ⟨table, htable, h⟩
    · rintro ⟨table, htable, h⟩
      exact Edit.bind_eq_ok.mpr ⟨table, data, lift_eq_ok.mpr ⟨htable, rfl⟩, h⟩

/-- Only the slots that the table names change, where none of them lies in the table. -/
theorem sameBut_of_vtable {fixups : Span} {table : Nat}
    (htable : offsetOf fixups.rva.toNat = .ok table)
    (hfree : ∀ o, SlotAt offsetOf data table (fixups.size.toNat / 8) o → ∀ x, Within o 4 x →
      ¬ Within table (8 * (fixups.size.toNat / 8)) x)
    (h : map.vtable fixups offsetOf data = .ok () after) :
    SameBut (fun x => ∃ o, SlotAt offsetOf data table (fixups.size.toNat / 8) o ∧ Within o 4 x)
      data after := by
  obtain ⟨-, rfl⟩ | ⟨-, table', htable', h⟩ := vtable_eq_ok.mp h
  · exact SameBut.refl ..
  · rw [htable] at htable'
    obtain rfl := Except.ok.inj htable'
    have hrun : ∀ (entries : List Nat) (between : Bytes),
        (∀ i ∈ entries, i < fixups.size.toNat / 8) →
        SameBut (fun x => ∃ o, SlotAt offsetOf data table (fixups.size.toNat / 8) o ∧ Within o 4 x)
          data between →
        (entries.forM fun i => map.vtableEntry offsetOf (table + 8 * i)) between = .ok () after →
        SameBut (fun x => ∃ o, SlotAt offsetOf data table (fixups.size.toNat / 8) o ∧ Within o 4 x)
          data after := by
      intro entries
      induction entries with
      | nil =>
        intro between _ hsame h
        obtain ⟨-, rfl⟩ := Edit.pure_eq_ok.mp h
        exact hsame
      | cons i entries ih =>
        intro between hlt hsame h
        obtain ⟨middle, hentry, hrest⟩ := forM_cons_eq_ok.mp h
        exact ih middle (fun j hj => hlt j (List.mem_cons_of_mem _ hj))
          (sameBut_of_vtableEntry (hlt i (List.mem_cons_self ..)) hsame hfree hentry) hrest
    exact hrun _ _ (fun i hi => List.mem_range.mp hi) (SameBut.refl ..) h

/-- A token stays where its row keeps its number. -/
lemma token_of_get {token : Token} (h : token.table = map.table.number →
    map.get (UInt32.ofNat token.row) = UInt32.ofNat token.row) : map.token token = token := by
  rw [RidMap.token]
  split
  · rename_i hnamed
    have hget : (map.get (UInt32.ofNat token.row)).toNat = token.row := by
      rw [h hnamed.1]
      exact UInt32.toNat_ofNat_of_lt' (token.row_lt.trans (by decide))
    rw [hget, Token.ofRow, Nat.mod_eq_of_lt token.row_lt, ← hnamed.1, ← token.value_toNat,
      UInt32.ofNat_toNat]
  · rfl

/-- Renumbering that keeps every token writes what is there, where the operands stand in the code. -/
lemma stays_code (hid : ∀ token, map.token token = token) {methods : List Method}
    (hplaced : ∀ a ∈ operands (methods.filter fun m => !m.isAdded), ∀ o, PlacedAt offsetOf a.1 o →
      data.StandsAt o (ofUInt32 a.2.value)) : Edit.Stays (map.code methods offsetOf) data := by
  refine Stays.bind (Stays.foldlM (fun patched m hm => Stays.foldlM (fun patched a ha => ?_) _) _)
    fun _ _ => Stays.pure _
  have hmem : a ∈ operands (methods.filter fun m => !m.isAdded) :=
    List.mem_flatten.mpr ⟨m.tokens, List.mem_map_of_mem hm, ha⟩
  unfold RidMap.operand
  simp only
  split
  · exact Stays.throw _
  · refine (Stays.lift _).bind fun o ho => ?_
    split
    · exact Stays.pure _
    · rw [hid]
      exact (Stays.put (hplaced a hmem o (lift_eq_ok.mp ho).1)).bind fun _ _ => Stays.pure _

lemma stays_vtable (hid : ∀ token, map.token token = token) (fixups : Span) :
    Edit.Stays (map.vtable fixups offsetOf) data := by
  have hslots (start size left i : Nat) : Edit.Stays (map.slots start size left i) data := by
    induction left generalizing i with
    | zero => exact Stays.pure ()
    | succ left ih =>
      refine (Stays.numberAt ..).bind fun value hvalue => (Stays.put ?_).bind fun _ _ => ih (i + 1)
      obtain ⟨hfit, rfl, -⟩ := numberAt_eq_ok.mp hvalue
      have hlt := natAt_lt data (start + i * size) 4
      rw [hid, ofUInt32, UInt32.toNat_ofNat_of_lt' (by simpa [UInt32.size] using hlt),
        ofNat_natAt_extract hfit]
      exact standsAt_extract (Nat.le_add_right ..) hfit
  unfold vtable
  split
  · exact Stays.pure ()
  · refine (Stays.lift _).bind fun table _ => Stays.forM fun i _ => ?_
    refine (Stays.numberAt ..).bind fun _ _ => (Stays.numberAt ..).bind fun rva _ =>
      (Stays.numberAt ..).bind fun count _ => (Stays.numberAt ..).bind fun kind _ => ?_
    split
    · exact Stays.pure ()
    · exact (Stays.lift _).bind fun start _ => hslots ..

end RidMap

end CliImage
