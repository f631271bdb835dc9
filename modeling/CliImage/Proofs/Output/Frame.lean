import CliImage.Proofs.Image.Evaluation
import CliImage.Proofs.Output.Progress

/-! Which bytes of the input an output changes: all others are found where the layout puts them. -/

namespace CliImage

open Bytes

namespace Output

open LayoutPlan

variable {image : Image} {layout : LayoutPlan} {key : Option KeyPair} {out : Output}

lemma zero_of_checkRoom {file : PeFile} {u : Unit} (h : checkRoom file = .ok u) {o : Nat}
    (ho : o < file.headersSize) (hslot : Within (LayoutPlan.slot file) 40 o) :
    file.data[o]? = some 0 := by
  unfold checkRoom at h
  obtain ⟨room, hroom, h⟩ := Result.bind_eq_ok.mp h
  obtain ⟨hzeros, -⟩ := Result.unless_throw_eq_ok.mp h
  have hstart : tableEnd file - Section.headerSize = LayoutPlan.slot file :=
    Nat.add_sub_cancel ..
  have hend : tableEnd file = LayoutPlan.slot file + 40 := rfl
  obtain ⟨hle, hlt⟩ := hslot
  rw [hstart, Bytes.slice] at hroom
  split at hroom
  · rename_i hfit
    cases hroom
    have hget : (file.data.extract (LayoutPlan.slot file) (LayoutPlan.slot file +
        (min (tableEnd file) file.headersSize - LayoutPlan.slot file)))[o - LayoutPlan.slot file]? =
          file.data[o]? := by
      rw [Array.getElem?_extract, if_pos (by omega)]
      congr 1
      omega
    rw [← hget]
    obtain ⟨hlt, hvalue⟩ := Array.getElem?_eq_some_iff.mp
      (hget.trans (Array.getElem?_eq_getElem (show o < file.data.size by omega)))
    rw [Array.getElem?_eq_getElem hlt]
    by_contra hne
    exact hzeros (Array.any_eq_true.mpr ⟨_, hlt, by simpa using hne⟩)
  · cases hroom

/-- Every byte of the input that is kept stands in the output where the layout puts it, unless it is
one of those that the writer renews; where the added section's header goes there was nothing. -/
theorem getElem?_serialize {data : Bytes} (hread : PeFile.read data = .ok image.file)
    (hends : HeadersEnd image.file) (hlayout : LayoutPlan.ofFile image.file = .ok layout)
    (hplace : image.InPlace layout) (h : image.serialize key = .ok out) :
    (∀ o < layout.kept, ¬ image.Rewritten layout o →
      out.image[layout.shift o]? = image.file.data[o]?) ∧
    ∀ o < image.file.headersSize, Within (LayoutPlan.slot image.file) 40 o →
      image.file.data[o]? = some 0 := by
  obtain ⟨s, hs, rfl⟩ := serialize_eq_ok.mp h
  have hlayout' := hs.layout
  rw [hlayout] at hlayout'
  obtain rfl := Except.ok.inj hlayout'
  have halign := fileAlignment_pos hread
  have hplan := planned_of_ofFile hlayout halign
  have hstart := hplan.kept_le_start halign
  have hplaced {o : Nat} (ho : o < s.layout.kept) :
      (s.layout.place image.file s.added)[s.layout.shift o]? = image.file.data[o]? :=
    getElem?_place hplan.kept_le ho
  have hbuilt := sameBut_built hplan hends hs.built
  have hwritten := hs.toUnsigned.sameBut hplan hplace fun o ho hheaders hdebug => by
    rw [hbuilt.2 _ fun hx => ?_, hplaced ho]
    rcases hx o ho rfl with ⟨hearly, -⟩ | hdebug'
    · omega
    · exact hdebug hdebug'
  obtain ⟨checksum, hlast⟩ := hs.image
  refine ⟨fun o ho hfree => ?_, fun o ho hslot => ?_⟩
  · have hnot {q : Nat → Prop} (hq : ∀ o, q o → image.Rewritten s.layout o) :
        ¬ s.layout.Shifted q (s.layout.shift o) := fun hx => hfree (hq o (hx o ho rfl))
    rw [(sameBut_checksum hlast).2 _ ?_, (sameBut_signed hs.signed).2 _ ?_,
      hwritten.2 _ fun hx => hnot (fun o => .written) hx.shifted, hbuilt.2 _ (hnot ?_), hplaced ho]
    · rintro o (⟨-, h⟩ | h)
      · exact h
      · exact .debug h
    · intro hlate
      exact shifted_of_le (q := fun _ => False) (hstart.trans hlate) o ho rfl
    · rintro ⟨hle, hlt⟩
      have hfield : IsHeaderField image.file (s.layout.shift o) := by
        simp only [PeHeaders.checksumOffset, PeHeaders.optionalOffset] at hle hlt
        exact .inr (.inr (.inr (.inl ⟨by omega, by omega⟩)))
      have hearly := hends.headerField_lt hfield
      rw [shift_eq_of_lt (by rwa [hplan.oldHeaders])] at hfield
      exact hfree (.header hfield)
  · unfold LayoutPlan.ofFile at hlayout
    obtain ⟨_, hroom, -⟩ := Result.bind_eq_ok.mp hlayout
    exact zero_of_checkRoom hroom ho hslot

/-- Of the linked image with an initializer everything is kept but what the writer renews. -/
theorem getElem?_serialize_initialized : ∃ (image : Image) (layout : LayoutPlan) (out : Output),
    PeFile.read linked = .ok image.file ∧ HeadersEnd image.file ∧
    LayoutPlan.ofFile image.file = .ok layout ∧ image.InPlace layout ∧
    image.serialize (some mersennePair) = .ok out ∧
    (∀ o < layout.kept, ¬ image.Rewritten layout o →
      out.image[layout.shift o]? = image.file.data[o]?) ∧
    ∀ o < image.file.headersSize, Within (LayoutPlan.slot image.file) 40 o →
      image.file.data[o]? = some 0 := by
  obtain ⟨image, s, _, hprepared, hs, hplain, -⟩ := exists_follow_initialized
  have hread := hprepared.parsed.file
  have hends := hplain.headers.headersEnd
  have hplace := hplain.contained.toInPlace
  have hserialize := serialize_eq_ok.mpr ⟨s, hs, rfl⟩
  exact ⟨image, s.layout, _, hread, hends, hs.layout, hplace, hserialize,
    getElem?_serialize hread hends hs.layout hplace hserialize⟩

/-- Operands hold their new tokens where nothing else is renewed. -/
lemma Stages.Follow.natAt_operand {s : Stages} (h : s.Follow image key)
    (hchanged : (MethodPlan.ofImage image).isUnchanged = false)
    (hapart : RidMap.Apart (s.layout.offset image.file)
      (RidMap.operands (image.methods.toList.filter fun m => !m.isAdded)))
    (hfixups : image.cli.vtableFixups.rva = 0 ∨ image.cli.vtableFixups.size = 0)
    (hpdb : s.arranged.2 = none) {a : Instruction × Token}
    (ha : a ∈ RidMap.operands (image.methods.toList.filter fun m => !m.isAdded)) {o : Nat}
    (ho : RidMap.PlacedAt (s.layout.offset image.file) a.1 o)
    (hend : o + 4 ≤ s.layout.sectionStart)
    (hcli : ∀ start, s.layout.offset image.file image.file.cli.rva.toNat = .ok start →
      Clear (o, 4) (start, 72))
    (hchecksum : Clear (o, 4) (image.file.headers.checksumOffset, 4)) :
    s.image.natAt o 4 = ((MethodPlan.ofImage image).rids.token a.2).value.toNat := by
  obtain ⟨_, hlast⟩ := h.image
  have hsymbols := h.symbols
  rw [hpdb] at hsymbols
  have hhashed : s.patched = s.hashed := congrArg Prod.snd (Except.ok.inj hsymbols)
  have hpatched := h.patched
  simp only [patch, hchanged, Bool.not_false, if_true] at hpatched
  obtain ⟨n, coded, hcode, hpatched⟩ := Edit.bind_eq_ok.mp hpatched
  obtain ⟨_, fixed, hvtable, hpatched⟩ := Edit.bind_eq_ok.mp hpatched
  rw [RidMap.vtable, if_pos hfixups] at hvtable
  obtain ⟨-, rfl⟩ := Edit.pure_eq_ok.mp hvtable
  obtain ⟨start, _, hlift, hput⟩ := Edit.bind_eq_ok.mp hpatched
  obtain ⟨hstart, rfl⟩ := Edit.lift_eq_ok.mp hlift
  obtain ⟨-, hput⟩ := Edit.put_eq_ok.mp hput
  obtain ⟨_, hrenumbered, -⟩ := RidMap.renumbered_of_code hapart.separate hcode
  have hvalue := hrenumbered.natAt ha ho fun b hb ho' => hapart.token_eq hb ha ho' ho
  rw [(sameBut_checksum hlast).natAt (clear_iff.mp hchecksum),
    (sameBut_signed h.signed).natAt fun x hx => by have := hx.2; omega, ← hhashed, ← hput,
    (sameBut_overlay ..).natAt fun x hx hx' => ?_, hvalue]
  rw [CliHeader.size_encode] at hx'
  exact clear_iff.mp (hcli start hstart) x hx hx'

/-- An image with a section over the operand in the code of A::M, with other data in the file. -/
def overlapping : Bytes := #[
  77, 90, 0, 0, 0, 0, 0, 0, 0, 0, 0, 0, 0, 0, 0, 0, 0, 0, 0, 0, 0, 0, 0, 0, 0, 0, 0, 0, 0, 0, 0, 0,
  0, 0, 0, 0, 0, 0, 0, 0, 0, 0, 0, 0, 0, 0, 0, 0, 0, 0, 0, 0, 0, 0, 0, 0, 0, 0, 0, 0, 64, 0, 0, 0,
  80, 69, 0, 0, 76, 1, 2, 0, 0, 0, 0, 0, 0, 0, 0, 0, 0, 0, 0, 0, 216, 0, 2, 33, 11, 1, 0, 0, 0, 0,
  0, 0, 0, 0, 0, 0, 0, 0, 0, 0, 0, 0, 0, 0, 0, 0, 0, 0, 0, 0, 0, 0, 0, 0, 0, 0, 0, 16, 0, 0, 1, 0,
  0, 0, 0, 0, 0, 0, 0, 0, 0, 0, 0, 0, 0, 0, 0, 0, 0, 0, 0, 32, 0, 0, 168, 1, 0, 0, 0, 0, 0, 0, 0,
  0, 0, 0, 0, 0, 0, 0, 0, 0, 0, 0, 0, 0, 0, 0, 0, 0, 0, 0, 0, 0, 0, 0, 15, 0, 0, 0, 0, 0, 0, 0, 0,
  0, 0, 0, 0, 0, 0, 0, 0, 0, 0, 0, 0, 0, 0, 0, 0, 0, 0, 0, 0, 0, 0, 0, 0, 0, 0, 0, 0, 0, 0, 0, 0,
  0, 0, 0, 0, 0, 0, 0, 0, 0, 0, 0, 0, 0, 0, 0, 0, 0, 0, 0, 0, 0, 0, 0, 0, 0, 0, 0, 0, 0, 0, 0, 0,
  0, 0, 0, 0, 0, 0, 0, 0, 0, 0, 0, 0, 0, 0, 0, 0, 0, 0, 0, 0, 0, 0, 0, 0, 0, 0, 0, 0, 0, 0, 0, 0,
  0, 0, 0, 0, 0, 0, 0, 0, 0, 0, 0, 0, 16, 0, 0, 72, 0, 0, 0, 46, 111, 118, 101, 114, 0, 0, 0, 4, 0,
  0, 0, 2, 17, 0, 0, 4, 0, 0, 0, 175, 2, 0, 0, 0, 0, 0, 0, 0, 0, 0, 0, 0, 0, 0, 0, 32, 0, 0, 96,
  46, 116, 101, 120, 116, 0, 0, 0, 7, 1, 0, 0, 0, 16, 0, 0, 7, 1, 0, 0, 168, 1, 0, 0, 0, 0, 0, 0,
  0, 0, 0, 0, 0, 0, 0, 0, 32, 0, 0, 96, 0, 0, 0, 0, 0, 0, 0, 0, 0, 0, 0, 0, 0, 0, 0, 0, 0, 0, 0, 0,
  0, 0, 0, 0, 0, 0, 0, 0, 0, 0, 0, 0, 0, 0, 0, 0, 0, 0, 0, 0, 72, 0, 0, 0, 2, 0, 5, 0, 72, 16, 0,
  0, 184, 0, 0, 0, 1, 0, 0, 0, 0, 0, 0, 0, 0, 0, 0, 0, 0, 0, 0, 0, 0, 0, 0, 0, 0, 0, 0, 0, 0, 0, 0,
  0, 0, 0, 0, 0, 0, 0, 0, 0, 0, 0, 0, 0, 0, 0, 0, 0, 0, 0, 0, 0, 0, 0, 0, 0, 0, 0, 0, 0, 66, 83,
  74, 66, 1, 0, 1, 0, 0, 0, 0, 0, 4, 0, 0, 0, 118, 52, 0, 0, 0, 0, 3, 0, 72, 0, 0, 0, 88, 0, 0, 0,
  35, 126, 0, 0, 160, 0, 0, 0, 16, 0, 0, 0, 35, 83, 116, 114, 105, 110, 103, 115, 0, 0, 0, 0, 176,
  0, 0, 0, 8, 0, 0, 0, 35, 66, 108, 111, 98, 0, 0, 0, 0, 0, 0, 0, 2, 0, 0, 1, 69, 0, 0, 0, 0, 0, 0,
  0, 0, 0, 0, 0, 0, 0, 0, 0, 1, 0, 0, 0, 2, 0, 0, 0, 1, 0, 0, 0, 0, 0, 0, 0, 0, 0, 0, 0, 0, 0, 0,
  0, 0, 0, 1, 0, 0, 0, 0, 0, 1, 0, 1, 0, 0, 0, 0, 0, 10, 0, 0, 0, 0, 0, 1, 0, 1, 0, 0, 17, 0, 0, 0,
  0, 22, 0, 12, 0, 1, 0, 1, 0, 0, 60, 77, 111, 100, 117, 108, 101, 62, 0, 65, 0, 77, 0, 0, 0, 0, 3,
  0, 0, 1, 0, 0, 0, 26, 40, 1, 0, 0, 6, 42, 255, 255, 255, 255]

lemma begin_overlapping : Result.holds (do
      let image ← Image.read 0 overlapping
      image.inject ⟨0, 0, "A", "M"⟩) (fun image =>
    Result.holds (Stages.begin image none) fun s => decide (
      HeadersFit image.file ∧ image.file.SectionsFit ∧
      image.file.sections.length = 2 ∧ s.layout.grows = false ∧
      s.layout.sectionStart + rawSize image.file s.added < 2 ^ 32 ∧ s.arranged.2.isNone ∧
      (∃ entries, image.file.debugEntries = .ok entries ∧ entries = []) ∧
      image.cli.vtableFixups.rva = 0 ∧ (MethodPlan.ofImage image).isUnchanged = false ∧
      (MethodPlan.ofImage image).rids.token (Token.ofRow .methodDef 1) = Token.ofRow .methodDef 2 ∧
      (RidMap.operands (image.methods.toList.filter fun m => !m.isAdded)).length = 1 ∧
      (∀ a ∈ RidMap.operands (image.methods.toList.filter fun m => !m.isAdded),
        a.1.rva.toNat + a.1.size - 4 < 2 ^ 32 ∧ a.2 = Token.ofRow .methodDef 1 ∧
          ∃ o, image.file.offsetOf (a.1.rva.toNat + a.1.size - 4) = .ok o ∧ o = 687) ∧
      image.file.headersSize ≤ 687 ∧ 691 ≤ s.layout.kept ∧ image.file.data[687]? = some 0xff ∧
      image.cliRuns = [(424, 72)] ∧ ∀ r ∈ image.writtenRuns, Clear (687, 1) r)) = true := by
  rw [Image.readByTails.2, Stages.beginByLists.2]
  decide +kernel

/-- The new token of the operand goes into the data of the section that lies over it: a byte changes
that is none of those that the writer renews. -/
theorem not_getElem?_serialize_overlapping : ∃ (image : Image) (layout : LayoutPlan) (out : Output)
    (o : Nat), image.Prepared overlapping ∧ HeadersEnd image.file ∧
    LayoutPlan.ofFile image.file = .ok layout ∧ image.serialize none = .ok out ∧ o < layout.kept ∧
    ¬ image.Rewritten layout o ∧ out.image[layout.shift o]? ≠ image.file.data[o]? := by
  obtain ⟨image, hinject, hchecks⟩ := Result.exists_of_holds begin_overlapping
  obtain ⟨s, hbegin, hchecks⟩ := Result.exists_of_holds hchecks
  obtain ⟨hfit, hsections, hcount, hstill, hsize, hpdb, ⟨_, hentries, rfl⟩, hfixups, hchanged, htoken, hone, hcode,
    hheaders, hkept, hbyte, hcli, hclear⟩ := of_decide_eq_true hchecks
  have hprepared : image.Prepared overlapping := by
    obtain ⟨origin, hread, hinject⟩ := Result.bind_eq_ok.mp hinject
    exact (Image.Prepared.read hread).inject hinject
  have hstart := Stages.start_of_begin hbegin
  have haddress := hstart.addressable hprepared.parsed.file hfit hsections (by omega) hsize
  have hbehind := haddress.kept_le
  have hgrowth : s.layout.growth = 0 := by
    rw [grows, decide_eq_false_iff_not] at hstill
    omega
  have hshift {o : Nat} : s.layout.shift o = o := by
    rw [shift, hgrowth]
    split <;> rfl
  have hplaced {a : Instruction × Token}
      (ha : a ∈ RidMap.operands (image.methods.toList.filter fun m => !m.isAdded)) :
      RidMap.PlacedAt (s.layout.offset image.file) a.1 687 := by
    obtain ⟨-, -, o, ho, rfl⟩ := hcode a ha
    exact offset_eq_ok.mpr ⟨_, ho, hshift⟩
  have hrun : image.CliRun 424 72 := Image.cliRun_iff.mpr (by rw [hcli]; exact List.mem_singleton_self _)
  have hheader : s.layout.offset image.file image.file.cli.rva.toNat = .ok 424 :=
    offset_eq_ok.mpr ⟨_, hrun.2, hshift⟩
  have hnone : s.arranged.2 = none := Option.isNone_iff_eq_none.mp hpdb
  -- the output is written
  obtain ⟨t, ht, hlength, hlayout, hadded, harranged, -⟩ := hstart.exists_unsigned haddress hstill
    (fun a ha => ⟨(hcode a ha).1, 687, hplaced ha, by omega⟩) (.inl hfixups)
    ⟨424, hheader, by omega⟩ hentries (by simp) (by simp [hnone])
  rw [← hlayout, ← hadded] at haddress hlength
  obtain ⟨u, hu, hlayout', -, harranged', -⟩ := ht.exists_follow haddress hlength rfl
  rw [← harranged, ← harranged'] at hnone
  rw [← hlayout, ← hlayout'] at hplaced hheader hbehind hkept hstill hshift
  -- with the new token in the data of the other section
  obtain ⟨a, ha⟩ := List.exists_mem_of_length_pos (hone ▸ Nat.one_pos)
  have hapart : RidMap.Apart (u.layout.offset image.file)
      (RidMap.operands (image.methods.toList.filter fun m => !m.isAdded)) := by
    intro a ha b hb o o' ho ho'
    rw [RidMap.PlacedAt, hplaced ha] at ho
    rw [RidMap.PlacedAt, hplaced hb] at ho'
    cases ho
    cases ho'
    exact .inl ⟨rfl, (hcode a ha).2.1.trans (hcode b hb).2.1.symm⟩
  have hchecksum : Clear (687, 4) (image.file.headers.checksumOffset, 4) := by
    have := hfit.table_le
    have := hfit.table
    simp only [Clear, PeHeaders.checksumOffset, PeHeaders.optionalOffset]
    omega
  have hvalue := hu.natAt_operand hchanged hapart (.inl hfixups) hnone ha (hplaced ha) (by omega)
    (fun start hat => by
      rw [hheader] at hat
      cases hat
      decide) hchecksum
  rw [(hcode a ha).2.1, htoken] at hvalue
  refine ⟨image, u.layout, ⟨u.image, u.symbols⟩, 687, hprepared, hfit.headersEnd, hu.layout,
    serialize_eq_ok.mpr ⟨u, hu, rfl⟩, by omega, ?_, ?_⟩
  · rintro (hfield | hpointer | ⟨-, hlt⟩ | ⟨hgrows, -⟩ | hwritten)
    · have := hfit.headersEnd.headerField_lt hfield
      omega
    · have := hpointer.1
      rw [hstill] at this
      cases this
    · omega
    · rw [hstill] at hgrows
      cases hgrows
    · exact Image.not_covered_written hclear ⟨le_rfl, by decide⟩ hwritten
  · rw [hshift, hbyte]
    intro hsame
    rw [natAt, Array.getD_eq_getD_getElem?, hsame, Option.getD_some] at hvalue
    have hlow : (Token.ofRow .methodDef 2).value.toNat % 256 = 2 := by decide
    have hhigh : (0xff : UInt8).toNat = 255 := rfl
    omega

end Output

end CliImage
