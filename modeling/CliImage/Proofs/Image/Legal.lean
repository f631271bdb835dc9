import CliImage.Proofs.Image.Evaluation
import CliImage.Proofs.Image.Prepared

/-! Whether an injected initializer calls a method that may be called when a module is loaded. -/

namespace CliImage.Image

variable {data : Bytes} {origin image after : Image} {type method : String} {ref : MethodRef}

lemma Arranged.eq_of_rid (h : image.Arranged) {i j rid : Nat} {m m' : Method}
    (hm : image.methods[i]? = some m) (hm' : image.methods[j]? = some m') (hrid : m.rid = some rid)
    (hrid' : m'.rid = some rid) : m' = m := by
  have hplace : ∀ {k n}, image.methods[k]? = some n → n.rid = some rid → rid = k + 1 := by
    intro k n hn hrow
    by_cases hk : k < image.metadata.tables.count .methodDef
    · have hold := h.rid_eq k hk
      rw [hn, Option.bind_some, hrow] at hold
      exact Option.some.inj hold
    · have hnew := h.rid_eq_none k (not_lt.mp hk)
      rw [hn, Option.bind_some, hrow] at hnew
      cases hnew
  obtain rfl : j = i := by
    have hi := hplace hm hrid
    have hj := hplace hm' hrid'
    omega
  rw [hm] at hm'
  exact (Option.some.inj hm').symm

/-- What a reference leads to is legal if it is the image's own or could be resolved there. -/
lemma isInitializer_of_rebase {found : MethodRef} {m : Method}
    (hresolve : origin.resolve type method = .ok ref)
    (hsame : origin.id = image.id → origin.methods.toList <+: image.methods.toList)
    (hfound : image.rebase ref = .ok found) (hm : image.methods[found.method]? = some m) :
    m.IsInitializer ↔
      origin.id = image.id ∨ ∃ own, image.resolve type method = .ok own := by
  obtain ⟨i, target, hnames, hlegal, rfl⟩ := resolve_eq_ok.mp hresolve
  have hkept : origin.id = image.id → image.methods[i]? = some target := fun hid => by
    have hget := hnames.getElem?
    obtain ⟨later, hlater⟩ := hsame hid
    rw [← Array.getElem?_toList] at hget ⊢
    obtain ⟨hlt, -⟩ := List.getElem?_eq_some_iff.mp hget
    rw [← hlater, List.getElem?_append_left hlt, hget]
  rcases rebase_eq_ok hfound with ⟨howns, rfl, -⟩ | ⟨hforeign, -, m', hnames'⟩
  · have hid : origin.id = image.id := by simpa [owns] using howns
    rw [hkept hid] at hm
    cases hm
    exact iff_of_true hlegal (.inl hid)
  · have hid : origin.id ≠ image.id := fun hid => by
      rw [owns, hkept hid] at hforeign
      simp [hid] at hforeign
    rw [hnames'.getElem?] at hm
    cases hm
    rw [or_iff_right hid]
    constructor
    · exact fun h => ⟨_, resolve_eq_ok.mpr ⟨_, _, hnames', h, rfl⟩⟩
    · rintro ⟨own, hown⟩
      obtain ⟨_, _, hnames'', h, -⟩ := resolve_eq_ok.mp hown
      obtain ⟨-, rfl⟩ := hnames'.unique hnames''
      exact h

/-- An initializer that is injected with a reference from the image itself calls a legal method.
With one from another image it does if, and only if, the same names resolve in this one too: the
method is found by its names, and is not checked. Images of one id are states of one image. -/
theorem isInitializer_iff_of_inject (hresolve : origin.resolve type method = .ok ref)
    (himage : Prepared data image)
    (hsame : origin.id = image.id → origin.methods.toList <+: image.methods.toList)
    (hinject : image.inject ref = .ok after) :
    ∃ m rid, m ∈ image.methods ∧ m.rid = some rid ∧
      (∀ m' ∈ image.methods, m'.rid = some rid → m' = m) ∧
      image.GainsCall after (Token.ofRow .methodDef rid) ∧
      (m.IsInitializer ↔
        origin.id = image.id ∨ ∃ own, image.resolve type method = .ok own) := by
  obtain ⟨found, m, rid, cctor, id, hfound, hm, hrid, hcctor, hadd⟩ := inject_eq_ok hinject
  refine ⟨m, rid, Array.mem_of_getElem? hm, hrid, fun m' hmem hrid' => ?_,
    gainsCall_of_add hcctor hadd, isInitializer_of_rebase hresolve hsame hfound hm⟩
  obtain ⟨j, hm'⟩ := Array.getElem?_of_mem hmem
  exact himage.arranged.eq_of_rid hm hm' hrid hrid'

/-- An image with a method A::M of certain flags. -/
def oneMethod (flags : UInt8) : Bytes := #[
  77, 90, 0, 0, 0, 0, 0, 0, 0, 0, 0, 0, 0, 0, 0, 0, 0, 0, 0, 0, 0, 0, 0, 0, 0, 0, 0, 0, 0, 0, 0, 0,
  0, 0, 0, 0, 0, 0, 0, 0, 0, 0, 0, 0, 0, 0, 0, 0, 0, 0, 0, 0, 0, 0, 0, 0, 0, 0, 0, 0, 64, 0, 0, 0,
  80, 69, 0, 0, 76, 1, 1, 0, 0, 0, 0, 0, 0, 0, 0, 0, 0, 0, 0, 0, 216, 0, 2, 33, 11, 1, 0, 0, 0, 0,
  0, 0, 0, 0, 0, 0, 0, 0, 0, 0, 0, 0, 0, 0, 0, 0, 0, 0, 0, 0, 0, 0, 0, 0, 0, 0, 0, 16, 0, 0, 1, 0,
  0, 0, 0, 0, 0, 0, 0, 0, 0, 0, 0, 0, 0, 0, 0, 0, 0, 0, 0, 32, 0, 0, 88, 1, 0, 0, 0, 0, 0, 0, 0, 0,
  0, 0, 0, 0, 0, 0, 0, 0, 0, 0, 0, 0, 0, 0, 0, 0, 0, 0, 0, 0, 0, 0, 15, 0, 0, 0, 0, 0, 0, 0, 0, 0,
  0, 0, 0, 0, 0, 0, 0, 0, 0, 0, 0, 0, 0, 0, 0, 0, 0, 0, 0, 0, 0, 0, 0, 0, 0, 0, 0, 0, 0, 0, 0, 0,
  0, 0, 0, 0, 0, 0, 0, 0, 0, 0, 0, 0, 0, 0, 0, 0, 0, 0, 0, 0, 0, 0, 0, 0, 0, 0, 0, 0, 0, 0, 0, 0,
  0, 0, 0, 0, 0, 0, 0, 0, 0, 0, 0, 0, 0, 0, 0, 0, 0, 0, 0, 0, 0, 0, 0, 0, 0, 0, 0, 0, 0, 0, 0, 0,
  0, 0, 0, 0, 0, 0, 0, 0, 0, 0, 0, 16, 0, 0, 72, 0, 0, 0, 46, 116, 101, 120, 116, 0, 0, 0, 244, 0,
  0, 0, 0, 16, 0, 0, 244, 0, 0, 0, 88, 1, 0, 0, 0, 0, 0, 0, 0, 0, 0, 0, 0, 0, 0, 0, 32, 0, 0, 96,
  72, 0, 0, 0, 2, 0, 5, 0, 72, 16, 0, 0, 172, 0, 0, 0, 1, 0, 0, 0, 0, 0, 0, 0, 0, 0, 0, 0, 0, 0, 0,
  0, 0, 0, 0, 0, 0, 0, 0, 0, 0, 0, 0, 0, 0, 0, 0, 0, 0, 0, 0, 0, 0, 0, 0, 0, 0, 0, 0, 0, 0, 0, 0,
  0, 0, 0, 0, 0, 0, 0, 0, 0, 66, 83, 74, 66, 1, 0, 1, 0, 0, 0, 0, 0, 4, 0, 0, 0, 118, 52, 0, 0, 0,
  0, 3, 0, 72, 0, 0, 0, 76, 0, 0, 0, 35, 126, 0, 0, 148, 0, 0, 0, 16, 0, 0, 0, 35, 83, 116, 114,
  105, 110, 103, 115, 0, 0, 0, 0, 164, 0, 0, 0, 8, 0, 0, 0, 35, 66, 108, 111, 98, 0, 0, 0, 0, 0, 0,
  0, 2, 0, 0, 1, 68, 0, 0, 0, 0, 0, 0, 0, 0, 0, 0, 0, 0, 0, 0, 0, 2, 0, 0, 0, 1, 0, 0, 0, 0, 0, 0,
  0, 1, 0, 0, 0, 0, 0, 1, 0, 1, 0, 0, 0, 0, 0, 10, 0, 0, 0, 0, 0, 1, 0, 1, 0, 0, 0, 0, 0, 0, 0,
  flags, 0, 12, 0, 1, 0, 1, 0, 0, 0, 0, 60, 77, 111, 100, 117, 108, 101, 62, 0, 65, 0, 77, 0, 0, 0,
  0, 3, 0, 0, 1, 0, 0, 0]

lemma resolve_oneMethod : Result.holds (read 0 (oneMethod 0x16)) (fun image =>
    image.id == 0 && Result.holds (image.resolve "A" "M") (· == ⟨0, 0, "A", "M"⟩)) = true := by
  rw [readByTails.2]
  decide +kernel

lemma inject_oneMethod : Result.holds (read 1 (oneMethod 0x11)) (fun image => image.id == 1 &&
    !Result.holds (image.resolve "A" "M") (fun _ => true) &&
      Result.holds (image.inject ⟨0, 0, "A", "M"⟩) fun _ => true) = true := by
  rw [readByTails.2]
  decide +kernel

/-- A reference to a public method leads to a private one of the same names in another image. -/
theorem not_isInitializer_private : ∃ origin image ref after m rid,
    Prepared (oneMethod 0x16) origin ∧ origin.resolve "A" "M" = .ok ref ∧
    Prepared (oneMethod 0x11) image ∧ image.inject ref = .ok after ∧ m ∈ image.methods ∧
    m.rid = some rid ∧ image.GainsCall after (Token.ofRow .methodDef rid) ∧
    ¬ m.IsInitializer := by
  obtain ⟨origin, hread, horigin⟩ := Result.exists_of_holds resolve_oneMethod
  obtain ⟨image, hread', himage⟩ := Result.exists_of_holds inject_oneMethod
  simp only [Bool.and_eq_true, beq_iff_eq] at horigin himage
  obtain ⟨hid, hresolve⟩ := horigin
  obtain ⟨⟨hid', hhidden⟩, hinject⟩ := himage
  obtain ⟨ref, hresolve, href⟩ := Result.exists_of_holds hresolve
  obtain ⟨after, hinject, -⟩ := Result.exists_of_holds hinject
  obtain rfl : ref = ⟨0, 0, "A", "M"⟩ := eq_of_beq href
  have hforeign : origin.id ≠ image.id := by rw [hid, hid']; decide
  obtain ⟨m, rid, hmem, hrid, -, hcall, hlegal⟩ := isInitializer_iff_of_inject hresolve
    (.read hread') (fun hsame => absurd hsame hforeign) hinject
  refine ⟨origin, image, _, after, m, rid, .read hread, hresolve, .read hread', hinject, hmem,
    hrid, hcall, fun h => ?_⟩
  obtain ⟨own, hown⟩ := (hlegal.mp h).resolve_left hforeign
  rw [hown] at hhidden
  cases hhidden

end CliImage.Image
