import CliImage.Proofs.Heap
import CliImage.Proofs.Image.Arena
import CliImage.Proofs.Signature.RoundTrip
import CliImage.Proofs.Table.Store
import CliImage.Symbols.Renumber

/-! Async stepping information follows the methods that it names. -/

namespace CliImage

lemma Compressed.encode_eq_ok {n : Nat} {bytes : Bytes} : encode n = .ok bytes ↔
    Signature.isNumber n = true ∧ bytes = Signature.encodeNumber n := by
  have hnumber : Signature.isNumber n = (encode? n).isSome := (isSome_encode? n).symm
  rw [hnumber, encode, Signature.encodeNumber]
  cases encode? n with
  | none =>
    constructor
    · intro h
      cases h
    · rintro ⟨h, -⟩
      cases h
  | some spelled =>
    constructor
    · intro h
      exact ⟨rfl, (Except.ok.inj h).symm⟩
    · rintro ⟨-, rfl⟩
      rfl

namespace Blobs

/-- A blob is read at the place where it is put. -/
lemma get_intern {heap after : Blobs} {value : Bytes} {index : Nat} (hvalue : value ≠ #[])
    (h : heap.intern value = .ok (after, index)) : after.get index = .ok value := by
  unfold intern at h
  rw [if_neg (by simpa using hvalue)] at h
  split at h
  · rename_i hfound
    cases h
    exact get_of_find? hfound
  · obtain ⟨length, hlength, h⟩ := Result.bind_eq_ok.mp h
    cases h
    obtain ⟨hnumber, rfl⟩ := Compressed.encode_eq_ok.mp hlength
    have hstands : (heap.data ++ Signature.encodeNumber value.size ++ value).StandsAt heap.data.size
        (Signature.encodeNumber value.size) :=
      (Bytes.standsAt_append_left ..).append_right value
    have hbehind : (heap.data ++ Signature.encodeNumber value.size ++ value).StandsAt
        (heap.data.size + (Signature.encodeNumber value.size).size) value := by
      rw [← Array.size_append]
      exact Bytes.standsAt_append_left ..
    have hpos : 0 < value.size := Array.size_pos_iff.mpr hvalue
    have hsize := hbehind.le_size
    simp only [get, Signature.readsBack_number hnumber hstands]
    rw [if_pos (by omega), if_pos hsize, hbehind.extract]

end Blobs

/-- Where an async method yields and resumes, and the method in which it does. -/
structure Await where
  yield : UInt32
  resume : UInt32
  method : UInt32
  deriving DecidableEq, Repr

/-- What a blob tells about an async method: the offset of its catch handler, and its awaits. -/
structure Stepping where
  handler : UInt32
  awaits : List Await
  deriving DecidableEq, Repr

namespace Stepping

open Reader (ReadsBack)
open Signature (encodeNumber isNumber readsBack_number)

def readAwait : Reader Await := do
  let yield ← Reader.u32
  let resume ← Reader.u32
  let method ← Compressed.read
  pure ⟨yield, resume, UInt32.ofNat method⟩

/-- Awaits as long as there are bytes. -/
def readAwaits : Nat → Reader (List Await)
  | 0 => pure []
  | room + 1 => do
    if ← Reader.hasMore then do
      let first ← readAwait
      let rest ← readAwaits room
      pure (first :: rest)
    else pure []

def reader : Reader Stepping := do
  let handler ← Reader.u32
  let data ← Reader.data
  let awaits ← readAwaits data.size
  pure ⟨handler, awaits⟩

def renumberAwait (rids : RidMap) (a : Await) : Await := { a with method := rids.get a.method }

/-- The same steps with the methods at their new numbers. -/
def renumbered (rids : RidMap) (s : Stepping) : Stepping :=
  { s with awaits := s.awaits.map (renumberAwait rids) }

def encodeAwait (a : Await) : Bytes :=
  Bytes.ofUInt32 a.yield ++ (Bytes.ofUInt32 a.resume ++ encodeNumber a.method.toNat)

def encodeAwaits : List Await → Bytes
  | [] => #[]
  | a :: rest => encodeAwait a ++ encodeAwaits rest

variable {rids : RidMap} {data done new blob : Bytes} {pos next room : Nat} {awaits : List Await}
  {a : Await}

/-- Four bytes are a number. -/
lemma u32_of_bytes {piece : Bytes} (h : Reader.bytes 4 data pos = .ok piece next) :
    ∃ n, Reader.u32 data pos = .ok n next ∧ piece = Bytes.ofUInt32 n := by
  obtain ⟨hle, rfl, rfl⟩ := Reader.bytes_eq_ok.mp h
  have hread : Reader.u32 data pos = .ok (UInt32.ofNat (data.natAt pos 4)) (pos + 4) :=
    Reader.u32_eq_ok.mpr ⟨hle, rfl, rfl⟩
  exact ⟨_, hread, (Reader.passed_of_u32 hread).extract⟩

lemma readsBack_await (h : isNumber a.method.toNat = true) :
    ReadsBack readAwait (encodeAwait a) a := by
  refine .bind (.u32 _) (.bind (.u32 _) ?_)
  simpa using (readsBack_number h).bind_pure (g := fun method =>
    (⟨a.yield, a.resume, UInt32.ofNat method⟩ : Await))

lemma length_le_size_encodeAwaits (awaits : List Await) :
    awaits.length ≤ (encodeAwaits awaits).size := by
  induction awaits with
  | nil => exact le_rfl
  | cons a awaits ih =>
    simp only [encodeAwaits, encodeAwait, Array.size_append, Bytes.size_ofUInt32, List.length_cons]
    omega

lemma readAwaits_of_standsAt (hnumbers : ∀ a ∈ awaits, isNumber a.method.toNat = true)
    (hroom : awaits.length ≤ room) (hdata : data.StandsAt pos (encodeAwaits awaits))
    (hend : pos + (encodeAwaits awaits).size = data.size) :
    readAwaits room data pos = .ok awaits data.size := by
  induction awaits generalizing room pos with
  | nil =>
    obtain rfl : pos = data.size := hend
    cases room with
    | zero => rfl
    | succ room =>
      exact Reader.bind_eq_ok.mpr ⟨false, _, Reader.hasMore_eq_ok.mpr ⟨by simp, rfl⟩, rfl⟩
  | cons a awaits ih =>
    obtain ⟨room, rfl⟩ : ∃ k, room = k + 1 := ⟨room - 1, by
      rw [List.length_cons] at hroom
      omega⟩
    rw [encodeAwaits, Array.size_append, ← Nat.add_assoc] at hend
    have hlong : 0 < (encodeAwait a).size := by
      simp only [encodeAwait, Array.size_append, Bytes.size_ofUInt32]
      omega
    have hmore : decide (pos < data.size) = true := decide_eq_true (by omega)
    have hfirst := readsBack_await (hnumbers a (List.mem_cons_self ..)) hdata.left
    have hrest := ih (fun b hb => hnumbers b (List.mem_cons_of_mem _ hb))
      (Nat.le_of_succ_le_succ hroom) hdata.right hend
    exact Reader.bind_eq_ok.mpr ⟨true, pos, Reader.hasMore_eq_ok.mpr ⟨hmore, rfl⟩,
      Reader.bind_eq_ok.mpr ⟨a, _, hfirst, Reader.bind_eq_ok.mpr ⟨awaits, _, hrest, rfl⟩⟩⟩

/-- The awaits that are written are those that are read, with the methods at their new numbers. -/
lemma exists_of_readSteps (h : Metadata.readSteps rids room done data pos = .ok new next) :
    ∃ awaits, readAwaits room data pos = .ok awaits next ∧
      (∀ a ∈ awaits.map (renumberAwait rids), isNumber a.method.toNat = true) ∧
        new = done ++ encodeAwaits (awaits.map (renumberAwait rids)) := by
  induction room generalizing done pos with
  | zero =>
    obtain ⟨rfl, rfl⟩ := Reader.pure_eq_ok.mp h
    exact ⟨[], rfl, by simp, by simp [encodeAwaits]⟩
  | succ room ih =>
    obtain ⟨more, _, hmore, h⟩ := Reader.bind_eq_ok.mp h
    obtain ⟨-, rfl⟩ := Reader.hasMore_eq_ok.mp hmore
    cases more with
    | false =>
      obtain ⟨rfl, rfl⟩ := Reader.pure_eq_ok.mp h
      exact ⟨[], Reader.bind_eq_ok.mpr ⟨false, _, hmore, rfl⟩, by simp, by simp [encodeAwaits]⟩
    | true =>
      obtain ⟨yield, _, hyield, h⟩ := Reader.bind_eq_ok.mp h
      obtain ⟨resume, _, hresume, h⟩ := Reader.bind_eq_ok.mp h
      obtain ⟨method, _, hmethod, h⟩ := Reader.bind_eq_ok.mp h
      cases hencoded : Compressed.encode (rids.get (UInt32.ofNat method)).toNat with
      | error e =>
        rw [hencoded] at h
        cases h
      | ok encoded =>
        rw [hencoded] at h
        obtain ⟨hnumber, rfl⟩ := Compressed.encode_eq_ok.mp hencoded
        obtain ⟨yield', hyield', rfl⟩ := u32_of_bytes hyield
        obtain ⟨resume', hresume', rfl⟩ := u32_of_bytes hresume
        obtain ⟨awaits, hawaits, hnumbers, rfl⟩ := ih h
        have hawait : readAwait data pos = .ok ⟨yield', resume', UInt32.ofNat method⟩ _ :=
          Reader.bind_eq_ok.mpr ⟨yield', _, hyield', Reader.bind_eq_ok.mpr ⟨resume', _, hresume',
            Reader.bind_eq_ok.mpr ⟨method, _, hmethod, rfl⟩⟩⟩
        refine ⟨⟨yield', resume', UInt32.ofNat method⟩ :: awaits, Reader.bind_eq_ok.mpr
          ⟨true, _, hmore, Reader.bind_eq_ok.mpr ⟨_, _, hawait,
            Reader.bind_eq_ok.mpr ⟨awaits, _, hawaits, rfl⟩⟩⟩, ?_, ?_⟩
        · rw [List.map_cons, List.forall_mem_cons]
          exact ⟨hnumber, hnumbers⟩
        · simp only [List.map_cons, encodeAwaits, encodeAwait, renumberAwait, Array.append_assoc]

/-- What a blob tells is told again with the methods at their new numbers. -/
lemma exists_of_readStepping (h : (Metadata.readStepping rids).run blob = .ok new) :
    ∃ s, reader.run blob = .ok s ∧ reader.run new = .ok (s.renumbered rids) := by
  obtain ⟨next, h⟩ := Reader.run_eq_ok.mp h
  obtain ⟨handler, _, hhandler, h⟩ := Reader.bind_eq_ok.mp h
  obtain ⟨data, _, hdata, h⟩ := Reader.bind_eq_ok.mp h
  cases hdata
  obtain ⟨handler', hhandler', rfl⟩ := u32_of_bytes hhandler
  obtain ⟨awaits, hawaits, hnumbers, rfl⟩ := exists_of_readSteps h
  have hread : reader blob 0 = .ok ⟨handler', awaits⟩ next :=
    Reader.bind_eq_ok.mpr ⟨handler', _, hhandler', Reader.bind_eq_ok.mpr ⟨_, _, rfl,
      Reader.bind_eq_ok.mpr ⟨awaits, _, hawaits, rfl⟩⟩⟩
  refine ⟨⟨handler', awaits⟩, Reader.run_eq_ok.mpr ⟨_, hread⟩, ?_⟩
  have hstands : (Bytes.ofUInt32 handler' ++
      encodeAwaits (awaits.map (renumberAwait rids))).StandsAt 0 _ := Bytes.standsAt_self _
  have hlength := length_le_size_encodeAwaits (awaits.map (renumberAwait rids))
  have hroom := hlength.trans (Nat.le_add_left _ (Bytes.ofUInt32 handler').size)
  rw [← Array.size_append] at hroom
  have hrest := readAwaits_of_standsAt hnumbers hroom hstands.right (by simp)
  have hfirst := ReadsBack.u32 handler' hstands.left
  exact Reader.run_eq_ok.mpr ⟨_, Reader.bind_eq_ok.mpr ⟨handler', _, hfirst, Reader.bind_eq_ok.mpr
    ⟨_, _, rfl, Reader.bind_eq_ok.mpr ⟨_, _, hrest, rfl⟩⟩⟩⟩

lemma ne_empty_of_reader {s : Stepping} (h : reader.run blob = .ok s) : blob ≠ #[] := by
  rintro rfl
  obtain ⟨_, h⟩ := Reader.run_eq_ok.mp h
  obtain ⟨_, _, hhandler, -⟩ := Reader.bind_eq_ok.mp h
  exact absurd (Reader.u32_eq_ok.mp hhandler).1 (by decide)

end Stepping

namespace Metadata

open TableId (customDebugInformation)

variable {m between next after : Metadata} {rids : RidMap} {rid n : Nat} {blob blob' new : Bytes}
  {changed : Bool} {p q : Nat → Prop}

/-- A row of custom debug information is about async stepping. -/
def IsStepping (m : Metadata) (rid : Nat) : Prop :=
  ∃ kind, m.tables.cell customDebugInformation rid 1 = .ok kind ∧
    m.isAsyncStepping kind.toNat = .ok true

/-- The blob that a row of custom debug information has for its value. -/
def HasValue (m : Metadata) (rid : Nat) (blob : Bytes) : Prop :=
  ∃ index, m.tables.cell customDebugInformation rid 2 = .ok index ∧
    m.blobs.get index.toNat = .ok blob

lemma HasValue.unique (h : m.HasValue rid blob) (h' : m.HasValue rid blob') : blob = blob' := by
  obtain ⟨index, hcell, hget⟩ := h
  obtain ⟨index', hcell', hget'⟩ := h'
  obtain rfl := Except.ok.inj (hcell.symm.trans hcell')
  exact Except.ok.inj (hget.symm.trans hget')

/-- A row of custom debug information is as it was. -/
abbrev KeepsRow (m after : Metadata) (rid : Nat) : Prop :=
  after.tables.row? customDebugInformation rid = m.tables.row? customDebugInformation rid

/-- Nothing has changed but the values of certain rows of custom debug information, and the blobs
that there were are still there. -/
structure Revalued (p : Nat → Prop) (m after : Metadata) : Prop where
  rest : after = { m with
    tables := m.tables.setTable customDebugInformation (after.tables.table customDebugInformation)
    blobs := after.blobs }
  count : after.tables.count customDebugInformation = m.tables.count customDebugInformation
  cells : ∀ rid column, column ≠ 2 → after.tables.cell customDebugInformation rid column =
    m.tables.cell customDebugInformation rid column
  rows : ∀ rid, ¬ p rid → KeepsRow m after rid
  blobs : ∃ back, after.blobs.data = m.blobs.data ++ back

lemma Revalued.refl : Revalued p m m :=
  ⟨by rw [Tables.setTable_table], rfl, fun _ _ _ => rfl, fun _ _ => rfl, #[], by simp⟩

lemma Revalued.trans (h : Revalued p m between) (h' : Revalued p between after) :
    Revalued p m after := by
  obtain ⟨back, hback⟩ := h.blobs
  obtain ⟨back', hback'⟩ := h'.blobs
  refine ⟨?_, h'.count.trans h.count, fun rid column hcolumn =>
    (h'.cells rid column hcolumn).trans (h.cells rid column hcolumn),
    fun rid hrid => (h'.rows rid hrid).trans (h.rows rid hrid), back ++ back', by
      rw [hback', hback, Array.append_assoc]⟩
  have hrest := h'.rest
  rw [h.rest] at hrest
  simpa using hrest

lemma Revalued.mono (h : Revalued p m after) (hpq : ∀ rid, p rid → q rid) : Revalued q m after :=
  { h with rows := fun rid hrid => h.rows rid fun hp => hrid (hpq rid hp) }

/-- Whether a row is kept does not depend on what leaves it alone before. -/
lemma Revalued.keepsRow_iff_of_before (h : Revalued p m between) (hrid : ¬ p rid) :
    KeepsRow m after rid ↔ KeepsRow between after rid := by
  have hrow := h.rows rid hrid
  rw [KeepsRow] at hrow
  rw [KeepsRow, KeepsRow, hrow]

lemma Revalued.keepsRow_iff_of_after (h : Revalued p between after) (hrid : ¬ p rid) :
    KeepsRow m after rid ↔ KeepsRow m between rid := by
  have hrow := h.rows rid hrid
  rw [KeepsRow] at hrow
  rw [KeepsRow, KeepsRow, hrow]

lemma Revalued.get (h : Revalued p m after) {index : Nat} (hget : m.blobs.get index = .ok blob) :
    after.blobs.get index = .ok blob := by
  obtain ⟨back, hback⟩ := h.blobs
  have := Blobs.get_append hget back
  rwa [← hback] at this

lemma Revalued.size_le (h : Revalued p m after) : m.blobs.data.size ≤ after.blobs.data.size := by
  obtain ⟨back, hback⟩ := h.blobs
  rw [hback, Array.size_append]
  exact Nat.le_add_right ..

lemma Revalued.isStepping_iff (h : Revalued p m after) :
    after.IsStepping rid ↔ m.IsStepping rid := by
  have hkind (kind : Nat) : after.isAsyncStepping kind = m.isAsyncStepping kind := by
    rw [h.rest]
    rfl
  simp only [IsStepping, h.cells rid 1 (by decide), hkind]

lemma Revalued.hasValue (h : Revalued p m after) (hrid : ¬ p rid) (hvalue : m.HasValue rid blob) :
    after.HasValue rid blob := by
  obtain ⟨index, hcell, hget⟩ := hvalue
  exact ⟨index, (Tables.cell_congr (h.rows rid hrid)).trans hcell, h.get hget⟩

/-- What is done to one row. -/
inductive RenumbersRow (rids : RidMap) (m : Metadata) (rid : Nat) : Metadata → Bool → Prop
  | other : ¬ m.IsStepping rid → RenumbersRow rids m rid m false
  | empty : m.IsStepping rid → m.HasValue rid #[] → RenumbersRow rids m rid m false
  | same {blob : Bytes} : m.IsStepping rid → m.HasValue rid blob → blob ≠ #[] →
      (readStepping rids).run blob = .ok blob → RenumbersRow rids m rid m false
  | renumbered {blob new : Bytes} {blobs : Blobs} {index : Nat} : m.IsStepping rid →
      m.HasValue rid blob → blob ≠ #[] → (readStepping rids).run blob = .ok new → new ≠ blob →
        m.blobs.intern new = .ok (blobs, index) → RenumbersRow rids m rid
          { m with
            blobs
            tables := m.tables.setCell customDebugInformation rid 2 (UInt32.ofNat index) } true

lemma renumbersRow_of_renumberStepping (h : renumberStepping rids m rid = .ok (after, changed)) :
    RenumbersRow rids m rid after changed := by
  unfold renumberStepping at h
  obtain ⟨kind, hkind, h⟩ := Result.bind_eq_ok.mp h
  obtain ⟨value, hvalue, h⟩ := Result.bind_eq_ok.mp h
  obtain ⟨isAsync, hasync, h⟩ := Result.bind_eq_ok.mp h
  cases isAsync with
  | false =>
    cases h
    refine .other fun ⟨kind', hkind', hasync'⟩ => ?_
    obtain rfl := Except.ok.inj (hkind.symm.trans hkind')
    cases hasync.symm.trans hasync'
  | true =>
    have hstepping : m.IsStepping rid := ⟨kind, hkind, hasync⟩
    obtain ⟨blob, hblob, h⟩ := Result.bind_eq_ok.mp h
    have hblob : m.HasValue rid blob := ⟨value, hvalue, hblob⟩
    split at h
    · rename_i hempty
      cases h
      rw [Array.isEmpty_iff] at hempty
      exact .empty hstepping (hempty ▸ hblob)
    · rename_i hnonempty
      rw [Array.isEmpty_iff] at hnonempty
      obtain ⟨new, hnew, h⟩ := Result.bind_eq_ok.mp h
      split at h
      · rename_i hsame
        cases h
        exact .same hstepping hblob hnonempty (hsame ▸ hnew)
      · rename_i hdiffers
        obtain ⟨⟨blobs, index⟩, hintern, h⟩ := Result.bind_eq_ok.mp h
        cases h
        exact .renumbered hstepping hblob hnonempty hnew hdiffers hintern

lemma RenumbersRow.revalued (h : RenumbersRow rids m rid after changed) :
    Revalued (· = rid) m after := by
  cases h with
  | other | empty | same => exact .refl
  | renumbered _ _ _ _ _ hintern =>
    refine ⟨?_, Tables.count_setCell .., fun other column hcolumn => ?_, fun other hother => ?_, ?_⟩
    · rw [Tables.setTable_setCell]
    · exact Tables.cell_setCell_of_ne hcolumn
    · exact Tables.row?_setCell_of_ne hother
    · exact Blobs.intern_data hintern

lemma RenumbersRow.hasValue (h : RenumbersRow rids m rid after changed)
    (hsize : after.blobs.data.size ≤ 2 ^ 32) (hstepping : m.IsStepping rid)
    (hvalue : m.HasValue rid blob) (hblob : blob ≠ #[]) :
    ∃ new, (readStepping rids).run blob = .ok new ∧ after.HasValue rid new ∧
      (changed = true ↔ new ≠ blob) := by
  cases h with
  | other hother => exact absurd hstepping hother
  | empty _ hempty => exact absurd (hvalue.unique hempty) hblob
  | same _ hsame _ hrun =>
    obtain rfl := hvalue.unique hsame
    exact ⟨blob, hrun, hvalue, by simp⟩
  | @renumbered blob' new blobs index _ hvalue' _ hrun hdiffers hintern =>
    obtain rfl := hvalue.unique hvalue'
    obtain ⟨_, -, hnew⟩ := Stepping.exists_of_readStepping hrun
    have hget := Blobs.get_intern (Stepping.ne_empty_of_reader hnew) hintern
    have hlt : index < 2 ^ 32 := (Blobs.lt_size_of_get hget).trans_le hsize
    obtain ⟨old, hcell, -⟩ := hvalue
    have hget : blobs.get (UInt32.ofNat index).toNat = .ok new := by
      rwa [UInt32.toNat_ofNat_of_lt' hlt]
    exact ⟨new, hrun, ⟨_, Tables.cell_setCell_self hcell, hget⟩, by simpa using hdiffers⟩

/-- A row that is renumbered is another one. -/
lemma RenumbersRow.changed_iff (h : RenumbersRow rids m rid after changed)
    (hsize : after.blobs.data.size ≤ 2 ^ 32) : changed = true ↔ ¬ KeepsRow m after rid := by
  have hrevalued := h.revalued
  have hrow := h
  cases h with
  | other | empty | same => simp
  | renumbered hstepping hblob hnonempty =>
    refine ⟨fun _ hsame => ?_, fun _ => rfl⟩
    obtain ⟨new, -, hnew, hdiffers⟩ := hrow.hasValue hsize hstepping hblob hnonempty
    obtain ⟨index, hcell, hget⟩ := hblob
    have hold : HasValue _ rid _ :=
      ⟨index, (Tables.cell_congr hsame).trans hcell, hrevalued.get hget⟩
    exact hdiffers.mp rfl (hnew.unique hold)

/-- The rows are renumbered one after another, each once. -/
lemma revalued_of_foldlM {rows : List Nat} {count : Nat} (hnodup : rows.Nodup)
    (h : rows.foldlM (fun (m, n) rid => do
      let (m, changed) ← renumberStepping rids m rid
      .ok (m, if changed then n + 1 else n)) (m, count) = .ok (after, n))
    (hsize : after.blobs.data.size ≤ 2 ^ 32) :
    Revalued (· ∈ rows) m after ∧
      (∀ rid ∈ rows, ∃ between next changed, Revalued (· ≠ rid) m between ∧
        RenumbersRow rids between rid next changed ∧ Revalued (· ≠ rid) next after) ∧
      n = count + rows.countP fun rid => ¬ KeepsRow m after rid := by
  induction rows generalizing m count with
  | nil =>
    cases h
    exact ⟨.refl, by simp, by simp⟩
  | cons rid rows ih =>
    obtain ⟨hrid, hnodup⟩ := List.nodup_cons.mp hnodup
    obtain ⟨state, hnext, hrest⟩ := Result.foldlM_cons_eq_ok.mp h
    obtain ⟨⟨between, changed⟩, hstep, hnext⟩ := Result.bind_eq_ok.mp hnext
    cases hnext
    have hrow := renumbersRow_of_renumberStepping hstep
    obtain ⟨hrevalued, hrows, hcount⟩ := ih hnodup hrest
    refine ⟨?_, fun other hother => ?_, ?_⟩
    · exact (hrow.revalued.mono fun other hother => hother ▸ List.mem_cons_self ..).trans
        (hrevalued.mono fun other => List.mem_cons_of_mem _)
    · rcases List.mem_cons.mp hother with rfl | hother
      · exact ⟨m, between, changed, .refl, hrow, hrevalued.mono fun x hx hxrid => hrid (hxrid ▸ hx)⟩
      · obtain ⟨before, next, changed', hbefore, hother', hafter⟩ := hrows other hother
        refine ⟨before, next, changed', (hrow.revalued.mono fun x hx hxother => ?_).trans hbefore,
          hother', hafter⟩
        exact hrid (hx ▸ hxother ▸ hother)
    · have hothers : rows.countP (fun other => ¬ KeepsRow between after other) =
          rows.countP fun other => ¬ KeepsRow m after other := List.countP_congr fun other hother => by
        rw [decide_eq_true_iff, decide_eq_true_iff,
          hrow.revalued.keepsRow_iff_of_before fun h => hrid (h ▸ hother)]
      have hfirst := hrow.changed_iff (hrevalued.size_le.trans hsize)
      rw [← hrevalued.keepsRow_iff_of_after hrid] at hfirst
      rw [hcount, List.countP_cons, hothers]
      simp only [decide_eq_true_eq, ← hfirst]
      split <;> omega

/-- Async stepping information has followed its methods once and nothing else has changed: `n` rows
have new values. -/
structure SteppedOnce (rids : RidMap) (m after : Metadata) (n : Nat) : Prop where
  followed : ∀ rid blob, m.IsStepping rid → m.HasValue rid blob → blob ≠ #[] →
    ∃ s new, Stepping.reader.run blob = .ok s ∧ after.HasValue rid new ∧
      Stepping.reader.run new = .ok (s.renumbered rids) ∧
        (KeepsRow m after rid ↔ new = blob)
  others : ∀ rid, ¬ (m.IsStepping rid ∧ ∃ blob, m.HasValue rid blob ∧ blob ≠ #[]) → KeepsRow m after rid
  cells : ∀ rid column, column ≠ 2 → after.tables.cell customDebugInformation rid column =
    m.tables.cell customDebugInformation rid column
  count : after.tables.count customDebugInformation = m.tables.count customDebugInformation
  blobs : ∀ index blob, m.blobs.get index = .ok blob → after.blobs.get index = .ok blob
  rest : after = { m with
    tables := m.tables.setTable customDebugInformation (after.tables.table customDebugInformation)
    blobs := after.blobs }
  changed : n = (List.range' 1 (m.tables.count customDebugInformation)).countP
    fun rid => ¬ KeepsRow m after rid

/-- A row whose value leads nowhere in the heap. -/
def Dangles (m : Metadata) (rid : Nat) : Prop := m.IsStepping rid ∧ ∀ blob, ¬ m.HasValue rid blob

lemma IsStepping.mem_range' (h : m.IsStepping rid) :
    rid ∈ List.range' 1 (m.tables.count customDebugInformation) := by
  obtain ⟨kind, hkind, -⟩ := h
  have hpos := (Tables.cell_eq_ok.mp hkind).1
  have hlt := Tables.lt_count_of_cell hkind
  exact List.mem_range'_1.mpr ⟨hpos, by omega⟩

/-- Stepping information follows its methods once exactly where the rows whose values lead nowhere
stay as they are; it does where there are no such rows. -/
theorem steppedOnce_iff_of_renumberAllStepping (h : renumberAllStepping rids m = .ok (after, n))
    (hsize : after.blobs.data.size ≤ 2 ^ 32) :
    (SteppedOnce rids m after n ↔ ∀ rid, m.Dangles rid → KeepsRow m after rid) ∧
    ((∀ rid, m.IsStepping rid → ∃ blob, m.HasValue rid blob) → SteppedOnce rids m after n) := by
  obtain ⟨hrevalued, hrows, hcount⟩ := revalued_of_foldlM List.nodup_range' h hsize
  have hiff : SteppedOnce rids m after n ↔ ∀ rid, m.Dangles rid → KeepsRow m after rid := by
    refine ⟨fun hstepped rid hdangles => hstepped.others rid fun ⟨_, blob, hblob, _⟩ =>
      hdangles.2 blob hblob, fun hdangling => ?_⟩
    refine ⟨fun rid blob hstepping hblob hnonempty => ?_, fun rid hother => ?_, hrevalued.cells,
      hrevalued.count, fun _ _ => hrevalued.get, hrevalued.rest, by rw [hcount, Nat.zero_add]⟩
    · obtain ⟨between, next, changed, hbefore, hrow, hafter⟩ := hrows rid hstepping.mem_range'
      have hnext := hafter.size_le.trans hsize
      obtain ⟨new, hrun, hnew, hchanged⟩ := hrow.hasValue hnext
        (hbefore.isStepping_iff.mpr hstepping) (hbefore.hasValue (by simp) hblob) hnonempty
      obtain ⟨s, hread, hread'⟩ := Stepping.exists_of_readStepping hrun
      refine ⟨s, new, hread, hafter.hasValue (by simp) hnew, hread', ?_⟩
      rw [hafter.keepsRow_iff_of_after (by simp), hbefore.keepsRow_iff_of_before (by simp)]
      exact not_iff_not.mp ((hrow.changed_iff hnext).symm.trans hchanged)
    · by_cases hmem : rid ∈ List.range' 1 (m.tables.count customDebugInformation)
      · obtain ⟨between, next, changed, hbefore, hrow, hafter⟩ := hrows rid hmem
        cases hrow with
        | other | empty | same => exact (hafter.rows rid (by simp)).trans (hbefore.rows rid (by simp))
        | renumbered hstepping hblob hnonempty =>
          have hstepping := hbefore.isStepping_iff.mp hstepping
          refine hdangling rid ⟨hstepping, fun blob hvalue => ?_⟩
          rw [hblob.unique (hbefore.hasValue (by simp) hvalue)] at hnonempty
          exact hother ⟨hstepping, blob, hvalue, hnonempty⟩
      · exact hrevalued.rows rid hmem
  refine ⟨hiff, fun hresolves => hiff.mpr fun rid hdangles => ?_⟩
  obtain ⟨blob, hblob⟩ := hresolves rid hdangles.1
  exact absurd hblob (hdangles.2 blob)

/-- A PDB with two rows of stepping information: the value of the first names a blob with a method
1, and that of the second is where the heap ends. -/
def danglingPdb : Bytes := #[
  66, 83, 74, 66, 1, 0, 1, 0, 0, 0, 0, 0, 4, 0, 0, 0, 118, 52, 0, 0, 0, 0, 5, 0, 104, 0, 0, 0, 36,
  0, 0, 0, 35, 80, 100, 98, 0, 0, 0, 0, 140, 0, 0, 0, 40, 0, 0, 0, 35, 126, 0, 0, 180, 0, 0, 0, 4,
  0, 0, 0, 35, 83, 116, 114, 105, 110, 103, 115, 0, 0, 0, 0, 184, 0, 0, 0, 16, 0, 0, 0, 35, 66,
  108, 111, 98, 0, 0, 0, 200, 0, 0, 0, 16, 0, 0, 0, 35, 71, 85, 73, 68, 0, 0, 0, 1, 2, 3, 4, 5, 6,
  7, 8, 9, 10, 11, 12, 13, 14, 15, 16, 0, 0, 0, 0, 0, 0, 0, 0, 64, 0, 0, 0, 0, 0, 0, 0, 2, 0, 0, 0,
  0, 0, 0, 0, 2, 0, 0, 1, 0, 0, 0, 0, 0, 0, 128, 0, 0, 0, 0, 0, 0, 0, 0, 0, 2, 0, 0, 0, 32, 0, 1,
  0, 1, 0, 64, 0, 1, 0, 16, 0, 0, 0, 0, 0, 0, 13, 0, 0, 0, 0, 1, 0, 0, 0, 2, 0, 0, 0, 1, 0, 197,
  42, 253, 84, 37, 233, 26, 64, 156, 42, 249, 79, 23, 16, 114, 248]

lemma reads_danglingPdb : Result.holds (Metadata.read danglingPdb) (fun m =>
    decide (m.tables.cell customDebugInformation 2 1 = .ok 1 ∧ m.isAsyncStepping 1 = .ok true ∧
      m.tables.cell customDebugInformation 2 2 = .ok 16 ∧ m.blobs.get 16 = .error .outOfBounds) &&
    Result.holds (renumberAllStepping ⟨.methodDef, #[2, 3]⟩ m) fun (after, _) =>
      decide (after.blobs.data.size = 44 ∧ ¬ KeepsRow m after 2 ∧
        after.tables.cell customDebugInformation 2 2 = .ok 30) &&
      Result.holds (after.blobs.get 30) fun blob =>
        decide (Stepping.reader.run blob = .ok ⟨0, [⟨1, 2, 3⟩]⟩)) = true := by
  decide +kernel

/-- Method 1 moves to 2 and method 2 to 3. The second row's value leads to the blob that the first row
has got, and this is renumbered once more. -/
theorem not_steppedOnce_danglingPdb : ∃ (m after : Metadata) (n : Nat),
    Metadata.read danglingPdb = .ok m ∧
    renumberAllStepping ⟨.methodDef, #[2, 3]⟩ m = .ok (after, n) ∧
    after.blobs.data.size ≤ 2 ^ 32 ∧ m.Dangles 2 ∧
    (∃ blob, after.HasValue 2 blob ∧ Stepping.reader.run blob = .ok ⟨0, [⟨1, 2, 3⟩]⟩) ∧
    ¬ SteppedOnce ⟨.methodDef, #[2, 3]⟩ m after n := by
  obtain ⟨m, hread, hchecks⟩ := Result.exists_of_holds reads_danglingPdb
  obtain ⟨hdangling, hchecks⟩ := Bool.and_eq_true_iff.mp hchecks
  obtain ⟨hkind, hasync, hvalue, hget⟩ := of_decide_eq_true hdangling
  obtain ⟨⟨after, n⟩, hrun, hchecks⟩ := Result.exists_of_holds hchecks
  obtain ⟨hafter, hchecks⟩ := Bool.and_eq_true_iff.mp hchecks
  obtain ⟨hsize, hdiffers, hcell⟩ := of_decide_eq_true hafter
  obtain ⟨blob, hblob, htold⟩ := Result.exists_of_holds hchecks
  have hdangles : m.Dangles 2 := by
    refine ⟨⟨1, hkind, hasync⟩, fun blob ⟨index, hcell, hblob⟩ => ?_⟩
    obtain rfl := Except.ok.inj (hvalue.symm.trans hcell)
    cases hget.symm.trans hblob
  have hsize : after.blobs.data.size ≤ 2 ^ 32 := by omega
  exact ⟨m, after, n, hread, hrun, hsize, hdangles,
    ⟨blob, ⟨30, hcell, hblob⟩, of_decide_eq_true htold⟩, fun hstepped =>
      hdiffers ((steppedOnce_iff_of_renumberAllStepping hrun hsize).1.mp hstepped 2 hdangles)⟩

end Metadata

end CliImage
