import CliImage.Proofs.Reader
import CliImage.Signature.Reader

/-! Which of the parameters that a method signature declares are read. A sentinel ends them under any
calling convention, and what is behind it is read for variable arguments only. -/

namespace CliImage

/-- All parameters that the signature declares are there. -/
def MethodSig.KeepsParams {τ : Type} (sig : MethodSig τ) : Prop :=
  sig.params.length + sig.varargs.length = sig.paramCount

namespace Signature

variable {data blob : Bytes} {pos next start stop n k : Nat} {param : Reader (Param SigType)}
  {type : Reader SigType} {ps : List (Param SigType)} {sig : Signature}

/-- Reads what stands before the parameters. -/
def readHead (type : Reader SigType) : Reader Signature := do
  let convention ← Reader.u8
  if 0x05 < convention &&& 0x0F then Reader.fail (.fault (.signatureConvention convention))
  let genericCount ← if convention &&& 0x10 ≠ 0 then Compressed.read else pure 0
  let paramCount ← Compressed.read
  let returns ← readParam type
  pure {
    hasThis := convention &&& 0x20 != 0, explicitThis := convention &&& 0x40 != 0
    vararg := convention &&& 0x0F == 0x05, genericCount, paramCount, returns
    params := [], varargs := [] }

/-- Reads the parameters that are left, if they are variable arguments. -/
def readVarargs (param : Reader (Param SigType)) (vararg : Bool) (left : Nat) :
    Reader (List (Param SigType)) := if vararg then Reader.many param left else pure []

lemma readVarargs_bind {β : Type} (param : Reader (Param SigType)) (vararg : Bool) (left : Nat)
    (f : List (Param SigType) → Reader β) : readVarargs param vararg left >>= f =
      if vararg then Reader.many param left >>= f else f [] := by
  cases vararg <;> rfl

lemma readMethod_eq (type : Reader SigType) : readMethod type = (do
    let head ← readHead type
    let params ← readParams (readParam type) head.paramCount
    let varargs ← readVarargs (readParam type) head.vararg (head.paramCount - params.length)
    pure { head with params, varargs }) := by
  simp only [readMethod, readHead, readVarargs_bind, bind_assoc, pure_bind]
  congr 1
  funext convention
  split
  · rfl
  split <;> simp only [bind_assoc, pure_bind]

lemma readMethod_eq_ok : readMethod type data pos = .ok sig next ↔
    ∃ head start params between varargs, readHead type data pos = .ok head start ∧
      readParams (readParam type) head.paramCount data start = .ok params between ∧
      readVarargs (readParam type) head.vararg (head.paramCount - params.length) data between =
        .ok varargs next ∧ sig = { head with params, varargs } := by
  simp only [readMethod_eq, Reader.bind_eq_ok, Reader.pure_eq_ok]
  constructor
  · rintro ⟨head, start, hhead, params, between, hparams, varargs, _, hvarargs, rfl, rfl⟩
    exact ⟨head, start, params, between, varargs, hhead, hparams, hvarargs, rfl⟩
  · rintro ⟨head, start, params, between, varargs, hhead, hparams, hvarargs, rfl⟩
    exact ⟨head, start, hhead, params, between, hparams, varargs, next, hvarargs, rfl, rfl⟩

/-- The parameters lie one behind the other between two places, none where a sentinel is. -/
inductive ParamsAt (param : Reader (Param SigType)) (data : Bytes) :
    Nat → List (Param SigType) → Nat → Prop
  | nil (pos : Nat) : ParamsAt param data pos [] pos
  | cons {pos between stop : Nat} {b : UInt8} {p : Param SigType} {ps : List (Param SigType)} :
      data[pos]? = some b → b ≠ sentinel → param data pos = .ok p between →
      ParamsAt param data between ps stop → ParamsAt param data pos (p :: ps) stop

lemma readParams_succ_eq_ok : readParams param (n + 1) data pos = .ok ps next ↔
    data[pos]? = some sentinel ∧ ps = [] ∧ pos + 1 = next ∨
      ∃ b p between qs, data[pos]? = some b ∧ b ≠ sentinel ∧ param data pos = .ok p between ∧
        readParams param n data between = .ok qs next ∧ ps = p :: qs := by
  rw [readParams, Reader.bind_eq_ok]
  simp only [Reader.peek_eq_ok]
  constructor
  · rintro ⟨b, _, ⟨hget, rfl⟩, h⟩
    split at h
    · rename_i hb
      obtain ⟨_, between, hadvance, h⟩ := Reader.bind_eq_ok.mp h
      obtain ⟨-, rfl⟩ := Reader.advance_eq_ok.mp hadvance
      obtain ⟨rfl, rfl⟩ := Reader.pure_eq_ok.mp h
      exact .inl ⟨hb ▸ hget, rfl, rfl⟩
    · rename_i hb
      obtain ⟨p, between, hp, h⟩ := Reader.bind_eq_ok.mp h
      obtain ⟨qs, _, hqs, h⟩ := Reader.bind_eq_ok.mp h
      obtain ⟨rfl, rfl⟩ := Reader.pure_eq_ok.mp h
      exact .inr ⟨b, p, between, qs, hget, hb, hp, hqs, rfl⟩
  · rintro (⟨hget, rfl, rfl⟩ | ⟨b, p, between, qs, hget, hb, hp, hqs, rfl⟩)
    · refine ⟨sentinel, pos, ⟨hget, rfl⟩, ?_⟩
      obtain ⟨hlt, -⟩ := Array.getElem?_eq_some_iff.mp hget
      rw [if_pos rfl]
      exact Reader.bind_eq_ok.mpr ⟨(), pos + 1, Reader.advance_eq_ok.mpr ⟨hlt, rfl⟩, rfl⟩
    · refine ⟨b, pos, ⟨hget, rfl⟩, ?_⟩
      rw [if_neg hb]
      exact Reader.bind_eq_ok.mpr ⟨p, between, hp, Reader.bind_eq_ok.mpr ⟨qs, next, hqs, rfl⟩⟩

/-- The loop over the parameters ends behind the number of them, or behind a sentinel before that. -/
lemma readParams_eq_ok : readParams param n data pos = .ok ps next ↔ ∃ stop,
    ParamsAt param data pos ps stop ∧ (ps.length = n ∧ stop = next ∨
      ps.length < n ∧ data[stop]? = some sentinel ∧ stop + 1 = next) := by
  induction n generalizing pos ps with
  | zero =>
    rw [readParams, Reader.pure_eq_ok]
    constructor
    · rintro ⟨rfl, rfl⟩
      exact ⟨pos, .nil pos, .inl ⟨rfl, rfl⟩⟩
    · rintro ⟨stop, hps, ⟨hlength, rfl⟩ | ⟨hlength, -⟩⟩
      · obtain rfl := List.eq_nil_of_length_eq_zero hlength
        cases hps
        exact ⟨rfl, rfl⟩
      · cases hlength
  | succ n ih =>
    rw [readParams_succ_eq_ok]
    constructor
    · rintro (⟨hget, rfl, rfl⟩ | ⟨b, p, between, qs, hget, hb, hp, hqs, rfl⟩)
      · exact ⟨pos, .nil pos, .inr ⟨Nat.succ_pos n, hget, rfl⟩⟩
      · obtain ⟨stop, hqs, hend⟩ := ih.mp hqs
        refine ⟨stop, .cons hget hb hp hqs, ?_⟩
        simpa using hend
    · rintro ⟨stop, hps, hend⟩
      cases hps with
      | nil =>
        obtain ⟨-, hget, hnext⟩ := hend.resolve_left (by simp)
        exact .inl ⟨hget, rfl, hnext⟩
      | cons hget hb hp hqs =>
        have hqs := ih.mpr ⟨stop, hqs, by simpa using hend⟩
        exact .inr ⟨_, _, _, _, hget, hb, hp, hqs, rfl⟩

lemma length_of_readVarargs {vararg : Bool} {left : Nat}
    (h : readVarargs param vararg left data pos = .ok ps next) :
    ps.length = if vararg then left else 0 := by
  cases vararg with
  | true => exact Reader.length_of_many h
  | false =>
    obtain ⟨rfl, -⟩ := Reader.pure_eq_ok.mp h
    rfl

/-- Behind the first so many parameters, fewer than the signature declares, a sentinel is. -/
def SentinelBehind (blob : Bytes) (k : Nat) : Prop := ∃ head start ps stop,
  readHead (readType nestingLimit) blob 0 = .ok head start ∧
    ParamsAt (readParam (readType nestingLimit)) blob start ps stop ∧ ps.length = k ∧
    k < head.paramCount ∧ blob[stop]? = some sentinel

lemma sentinelBehind_iff (h : read blob = .ok sig) :
    SentinelBehind blob k ↔ sig.params.length = k ∧ k < sig.paramCount := by
  obtain ⟨_, h⟩ := Reader.run_eq_ok.mp h
  obtain ⟨head, start, params, between, varargs, hhead, hparams, -, rfl⟩ := readMethod_eq_ok.mp h
  constructor
  · rintro ⟨head', start', ps, stop, hhead', hps, rfl, hlt, hget⟩
    rw [hhead] at hhead'
    cases hhead'
    -- The same loop over the same bytes.
    have hparams' := readParams_eq_ok.mpr ⟨stop, hps, .inr ⟨hlt, hget, rfl⟩⟩
    rw [hparams] at hparams'
    cases hparams'
    exact ⟨rfl, hlt⟩
  · rintro ⟨rfl, hlt⟩
    obtain ⟨stop, hps, hend⟩ := readParams_eq_ok.mp hparams
    obtain ⟨-, hget, -⟩ := hend.resolve_left fun hend => hlt.ne hend.1
    exact ⟨head, start, params, stop, hhead, hps, rfl, hlt, hget⟩

lemma length_params_le (h : read blob = .ok sig) : sig.params.length ≤ sig.paramCount := by
  obtain ⟨_, h⟩ := Reader.run_eq_ok.mp h
  obtain ⟨head, start, params, between, varargs, -, hparams, -, rfl⟩ := readMethod_eq_ok.mp h
  obtain ⟨stop, -, hend | hend⟩ := readParams_eq_ok.mp hparams
  · exact hend.1.le
  · exact hend.1.le

lemma length_varargs (h : read blob = .ok sig) :
    sig.varargs.length = if sig.vararg then sig.paramCount - sig.params.length else 0 := by
  obtain ⟨_, h⟩ := Reader.run_eq_ok.mp h
  obtain ⟨head, start, params, between, varargs, -, -, hvarargs, rfl⟩ := readMethod_eq_ok.mp h
  exact length_of_readVarargs hvarargs

/-- Only a sentinel that no variable arguments follow loses parameters. -/
lemma keepsParams_iff (h : read blob = .ok sig) :
    sig.KeepsParams ↔ sig.vararg ∨ ∀ k, ¬ SentinelBehind blob k := by
  have hle := length_params_le h
  have hvarargs := length_varargs h
  rw [MethodSig.KeepsParams, hvarargs]
  simp only [sentinelBehind_iff h]
  by_cases hvararg : sig.vararg
  · rw [if_pos hvararg]
    exact iff_of_true (Nat.add_sub_cancel' hle) (.inl hvararg)
  · rw [if_neg hvararg, Nat.add_zero, or_iff_right hvararg]
    constructor
    · rintro hall k ⟨rfl, hlt⟩
      exact hlt.ne hall
    · exact fun hnone => hle.eq_of_not_lt fun hlt => hnone _ ⟨rfl, hlt⟩

end Signature

end CliImage
