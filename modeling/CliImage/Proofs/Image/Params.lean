import CliImage.Proofs.Image.Evaluation
import CliImage.Proofs.Image.Legal
import CliImage.Proofs.Image.Resolution
import CliImage.Proofs.Signature.Params

/-! Whether the parameters that a method declares keep it from being an initializer. -/

namespace CliImage.Image

open Signature (SentinelBehind)

variable {data blob : Bytes} {image : Image} {type name : String} {i : Nat} {m : Method}
  {sig : Signature}

/-- A method with parameters is refused for them, except where all of them are variable arguments. -/
def RefusesParams (image : Image) (type name : String) (m : Method) : Prop :=
  m.signature.paramCount ≠ 0 →
    ¬ (m.signature.vararg ∧ m.signature.varargs.length = m.signature.paramCount) →
      image.resolve type name = .error (.hasParameters name)

lemma resolve_eq_hasParameters (h : image.Names type name i m) :
    image.resolve type name = .error (.hasParameters name) ↔ m.params ≠ [] := by
  rw [resolve_of_names h, checkInitializer_eq]
  by_cases hparams : m.params ≠ []
  · rw [if_pos hparams]
    exact iff_of_true rfl hparams
  · rw [if_neg hparams]
    split_ifs <;> simp [Except.map, hparams]

lemma signature_of_readMethod {file : PeFile} {metadata : Metadata} {rid : Nat}
    (h : file.readMethod metadata rid = .ok m) :
    (∃ cell blob, metadata.tables.cell .methodDef rid 4 = .ok cell ∧
      metadata.blobs.get cell.toNat = .ok blob ∧ Signature.read blob = .ok m.signature) ∧
      ∃ names, m.params = metadata.methodParams names m.signature.params := by
  simp only [PeFile.readMethod, Result.bind_eq_ok, Result.mapError_eq_ok] at h
  obtain ⟨_, _, _, _, _, _, cell, hcell, blob, hblob, sig, hsig, _, _, names, _, _, _, _, _, h⟩ := h
  cases h
  exact ⟨⟨cell, blob, hcell, hblob, hsig⟩, names, rfl⟩

lemma methodParams_eq_nil {metadata : Metadata} {names : List (Nat × String)}
    {params : List (Param SigType)} : metadata.methodParams names params = [] ↔ params = [] := by
  simp [Metadata.methodParams]

/-- A method that has a row has the parameters of its signature. -/
lemma Prepared.params_eq_nil (h : image.Prepared data) (hm : image.methods[i]? = some m)
    (hold : m.isAdded = false) : m.params = [] ↔ m.signature.params = [] := by
  obtain ⟨-, names, hparams⟩ := signature_of_readMethod (h.readMethod hm hold)
  rw [hparams, methodParams_eq_nil]

lemma refusesParams_iff (h : Signature.read blob = .ok m.signature) (himage : image.Prepared data)
    (hnames : image.Names type name i m) (hold : m.isAdded = false) :
    image.RefusesParams type name m ↔ m.signature.vararg ∨ ¬ SentinelBehind blob 0 := by
  have hvarargs := Signature.length_varargs h
  rw [RefusesParams, resolve_eq_hasParameters hnames, ne_eq, ne_eq,
    himage.params_eq_nil hnames.getElem? hold, Signature.sentinelBehind_iff h,
    ← List.length_eq_zero_iff]
  constructor
  · intro hrefuses
    by_contra hlost
    obtain ⟨hvararg, hbehind⟩ := not_or.mp hlost
    obtain ⟨hnone, hsome⟩ := not_not.mp hbehind
    exact hrefuses hsome.ne' (fun h => hvararg h.1) hnone
  · rintro (hvararg | hbehind) hsome hfixed hnone
    · -- All that is declared is read behind the sentinel.
      rw [if_pos hvararg, hnone] at hvarargs
      exact hfixed ⟨hvararg, hvarargs⟩
    · exact hbehind ⟨hnone, Nat.pos_of_ne_zero hsome⟩

/-- A sentinel ends the parameters also of a method without variable arguments. The signature has
all that it declares if no such sentinel is there, and the method is refused for them if none is in
front of the first. -/
theorem keepsParams_iff_of_read (h : Signature.read blob = .ok sig) :
    (sig.varargs ≠ [] → sig.vararg) ∧
    (sig.KeepsParams ↔ sig.vararg ∨ ∀ k, ¬ SentinelBehind blob k) ∧
    ∀ data image type name i m, Prepared data image → image.Names type name i m →
      m.isAdded = false → m.signature = sig →
        (image.RefusesParams type name m ↔ sig.vararg ∨ ¬ SentinelBehind blob 0) := by
  refine ⟨fun hsome => ?_, Signature.keepsParams_iff h, ?_⟩
  · by_contra hvararg
    have hlength := Signature.length_varargs h
    rw [if_neg hvararg] at hlength
    exact hsome (List.eq_nil_of_length_eq_zero hlength)
  · rintro data image type name i m himage hnames hold rfl
    exact refusesParams_iff h himage hnames hold

/-- One number is declared, and a sentinel is in front of it. -/
def cutShort : Bytes := #[0x00, 0x01, 0x01, 0x41, 0x08]

/-- The image with a public static method A::M, its signature that one. -/
def cutShortImage : Bytes :=
  ((oneMethod 0x16).toList.take 580 ++ [0, 5] ++ cutShort.toList ++ [0]).toArray

lemma resolve_cutShort : Result.holds (read 0 cutShortImage) (fun image =>
    Result.holds (image.resolve "A" "M") (· == ⟨0, 0, "A", "M"⟩) &&
      Result.holds (image.metadata.tables.cell .methodDef 1 4) (fun cell =>
        Result.holds (image.metadata.blobs.get cell.toNat) (· == cutShort)) &&
      image.methods[0]?.any fun m => !m.isAdded && !m.signature.vararg &&
        m.signature.paramCount == 1 && m.signature.params.isEmpty) = true := by
  rw [readByTails.2]
  decide +kernel

/-- The parameter is lost, and the method may be called when the module is loaded. -/
theorem not_keepsParams_cutShort : ∃ image m, Prepared cutShortImage image ∧
    image.Names "A" "M" 0 m ∧ m.isAdded = false ∧ Signature.read cutShort = .ok m.signature ∧
    m.signature.paramCount = 1 ∧ ¬ m.signature.KeepsParams ∧ ¬ image.RefusesParams "A" "M" m ∧
    image.resolve "A" "M" = .ok ⟨0, 0, "A", "M"⟩ := by
  obtain ⟨image, hread, himage⟩ := Result.exists_of_holds resolve_cutShort
  simp only [Bool.and_eq_true] at himage
  obtain ⟨⟨hresolve, hblob⟩, hmethod⟩ := himage
  obtain ⟨ref, hresolve, href⟩ := Result.exists_of_holds hresolve
  obtain rfl : ref = ⟨0, 0, "A", "M"⟩ := eq_of_beq href
  obtain ⟨i, m, hnames, -, href⟩ := resolve_eq_ok.mp hresolve
  obtain rfl : 0 = i := congrArg MethodRef.method href
  rw [hnames.getElem?] at hmethod
  simp only [Option.any_some, Bool.and_eq_true, Bool.not_eq_true', beq_iff_eq,
    List.isEmpty_iff] at hmethod
  obtain ⟨⟨⟨hold, hvararg⟩, hcount⟩, hparams⟩ := hmethod
  obtain ⟨cell, hcell, hblob⟩ := Result.exists_of_holds hblob
  obtain ⟨blob, hget, hblob⟩ := Result.exists_of_holds hblob
  obtain rfl : blob = cutShort := eq_of_beq hblob
  obtain ⟨⟨cell', blob', hcell', hget', hsig⟩, -⟩ :=
    signature_of_readMethod ((Prepared.read hread).readMethod hnames.getElem? hold)
  cases hcell.symm.trans hcell'
  cases hget.symm.trans hget'
  have hbehind : SentinelBehind cutShort 0 :=
    (Signature.sentinelBehind_iff hsig).mpr ⟨by rw [hparams]; rfl, by rw [hcount]; decide⟩
  obtain ⟨-, hkeeps, hrefuses⟩ := keepsParams_iff_of_read hsig
  have hlost : ¬ (m.signature.vararg ∨ ¬ SentinelBehind cutShort 0) := by
    simp [hvararg, hbehind]
  refine ⟨image, m, .read hread, hnames, hold, hsig, hcount, fun h => ?_, fun h => ?_, hresolve⟩
  · exact hlost ((hkeeps.mp h).imp_right fun h => h 0)
  · exact hlost ((hrefuses _ image "A" "M" 0 m (.read hread) hnames hold rfl).mp h)

end CliImage.Image
