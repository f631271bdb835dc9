import CliImage.Proofs.Layout.Build
import CliImage.Proofs.Pe.Headers

/-! The headers of an output that has been laid out read as those of the input, with one more
section and with file pointers that have moved. -/

namespace CliImage.LayoutPlan

open Bytes

variable {file : PeFile} {plan : LayoutPlan} {added : MetaSection} {touched : Nat → Prop}
  {out : Bytes}

def movedSection (plan : LayoutPlan) (s : Section) : Section :=
  { s with rawPointer := UInt32.ofNat (plan.moved s.rawStart) }

def addedSection (plan : LayoutPlan) (file : PeFile) (added : MetaSection) : Section where
  name := MetaSection.name
  virtualSize := UInt32.ofNat added.data.size
  virtualAddress := added.rva
  rawSize := UInt32.ofNat (rawSize file added)
  rawPointer := UInt32.ofNat plan.sectionStart
  characteristics := MetaSection.characteristics

def newSections (plan : LayoutPlan) (file : PeFile) (added : MetaSection) : List Section :=
  file.sections.map plan.movedSection ++ [plan.addedSection file added]

/-- Certificates are dropped. -/
def newDirectories (file : PeFile) : List Span :=
  if (file.directory? PeFile.certificateDirectory).isSome then
    file.optional.directories.set PeFile.certificateDirectory ⟨0, 0⟩
  else file.optional.directories

def newOptional (plan : LayoutPlan) (file : PeFile) : OptionalHeader :=
  { file.optional with
    headersSize := (file.headersSize + plan.growth) % 2 ^ 32
    directories := newDirectories file }

def newHeaders (plan : LayoutPlan) (file : PeFile) (added : MetaSection) : PeHeaders :=
  { file.headers with
    optional := some (plan.newOptional file), sections := plan.newSections file added }

lemma ofNat_mod_eq (n : Nat) : UInt32.ofNat (n % 2 ^ 32) = UInt32.ofNat n := by
  apply UInt32.toNat_inj.mp
  simp

lemma natAt_of_standsAt {data : Bytes} {o w n : Nat} (h : data.StandsAt o (ofNat w n)) :
    data.natAt o w = n % 256 ^ w := by
  have := h.natAt (i := 0) (w := w) (by simp)
  rwa [Nat.add_zero, natAt_ofNat] at this

/-- The added section's header reads as what it was made of. -/
lemma readAt_sectionHeader {o : Nat} (h : out.StandsAt o (plan.sectionHeader file added)) :
    Section.readAt out o = plan.addedSection file added := by
  have hname : (Utf8.encode MetaSection.name).size = 5 := by decide +kernel
  have htext : Section.trimZeros (Utf8.decodeLossy (Utf8.encode MetaSection.name ++
      zeros (8 - (Utf8.encode MetaSection.name).size))) = MetaSection.name := by decide +kernel
  unfold sectionHeader at h
  simp only at h
  have hfront := h.left.left.left.left.left.left.extract
  have hsize := natAt_of_standsAt h.left.left.left.left.left.right
  have hrva := natAt_of_standsAt h.left.left.left.left.right
  have hraw := natAt_of_standsAt h.left.left.left.right
  have hstart := natAt_of_standsAt h.left.left.right
  have hflags := natAt_of_standsAt h.right
  simp only [Array.size_append, size_zeros, size_ofNat, size_ofUInt32, hname, Nat.reduceAdd,
    Nat.reduceSub] at hfront hsize hrva hraw hstart hflags
  have hsmall (n : UInt32) : n.toNat % 256 ^ 4 = n.toNat := Nat.mod_eq_of_lt n.toNat_lt
  rw [hname] at htext
  rw [Section.readAt, hfront, hsize, hrva, hraw, hstart, hflags, htext, hsmall, hsmall, addedSection]
  simp only [UInt32.ofNat_toNat]
  rw [ofNat_mod_eq, ofNat_mod_eq, ofNat_mod_eq]

lemma natAt_zeros (n offset w : Nat) : (zeros n).natAt offset w = 0 := by
  induction w generalizing offset with
  | zero => rfl
  | succ w ih =>
    have hzero : (zeros n).getD offset 0 = 0 := by
      rw [Array.getD_eq_getD_getElem?, zeros, Array.getElem?_replicate]
      split <;> rfl
    rw [natAt, hzero, ih]
    rfl

/-- The numbers of the headers that are written anew, by their places. -/
lemma not_headerField {x : Nat} (hx : x < file.headers.peOffset + 6 ∨
      file.headers.peOffset + 8 ≤ x ∧ x < file.headers.peOffset + 12 ∨
      file.headers.peOffset + 16 ≤ x ∧ x < file.headers.peOffset + 32 ∨
      file.headers.peOffset + 36 ≤ x ∧ x < file.headers.peOffset + 80 ∨
      file.headers.peOffset + 92 ≤ x)
    (hcertificate : (file.directory? PeFile.certificateDirectory).isSome →
      ¬ Within (certificateOffset file) 8 x) : ¬ IsHeaderField file x := by
  rintro (⟨hle, hlt⟩ | ⟨hle, hlt⟩ | ⟨hle, hlt⟩ | ⟨hle, hlt⟩ | ⟨hsome, hle⟩)
  · omega
  · omega
  · omega
  · omega
  · exact hcertificate hsome hle

lemma Laid.natAt_early (h : Laid file plan added touched out) (hfit : HeadersFit file)
    {offset w : Nat} (hend : offset + w ≤ file.headers.sectionTableOffset)
    (hfree : ∀ x, Within offset w x → ¬ IsHeaderField file x) :
    out.natAt offset w = file.data.natAt offset w := by
  have := hfit.table_le
  have := hfit.table
  refine natAt_congr fun i hi => h.header _ (by omega) (hfree _ ⟨by omega, by omega⟩)
    ?_ ?_
  · rintro ⟨-, a, ha, hx⟩
    exact not_pointer (by omega) ha hx
  · rintro ⟨hle, -⟩
    omega

lemma Laid.natAt_fixed (h : Laid file plan added touched out) (hfit : HeadersFit file)
    {offset w : Nat} (hend : offset + w ≤ file.headers.peOffset + 120)
    (hfree : offset + w ≤ file.headers.peOffset + 6 ∨
      file.headers.peOffset + 8 ≤ offset ∧ offset + w ≤ file.headers.peOffset + 12 ∨
      file.headers.peOffset + 16 ≤ offset ∧ offset + w ≤ file.headers.peOffset + 32 ∨
      file.headers.peOffset + 36 ≤ offset ∧ offset + w ≤ file.headers.peOffset + 80 ∨
      file.headers.peOffset + 92 ≤ offset) :
    out.natAt offset w = file.data.natAt offset w := by
  have htable := hfit.table_le
  have hcert := le_certificateOffset file
  refine h.natAt_early hfit (by omega) fun x ⟨hx, hx'⟩ => not_headerField (by omega) ?_
  rintro - ⟨hle, -⟩
  omega

/-- The optional header reads with its new size of headers and without certificates. -/
lemma Laid.readOptional (h : Laid file plan added touched out) (hfit : HeadersFit file)
    (hroom : LayoutPlan.slot file + 40 ≤ out.size)
    (hread : PeHeaders.readOptional file.data file.headers.optionalOffset = some file.optional) :
    PeHeaders.readOptional out file.headers.optionalOffset = some (plan.newOptional file) := by
  have htable := hfit.table_le
  have hcert := le_certificateOffset file
  have hdirs := hfit.directories
  have hfixed : PeHeaders.fixedSize file.optional.isPlus = 96 ∨
      PeHeaders.fixedSize file.optional.isPlus = 112 := by
    unfold PeHeaders.fixedSize
    split <;> simp
  have hpe : file.headers.optionalOffset = file.headers.peOffset + 24 := rfl
  have htableEq : file.headers.sectionTableOffset =
      file.headers.peOffset + 24 + file.headers.optionalSize := rfl
  have hcertEq : certificateOffset file =
      file.headers.peOffset + 24 + PeHeaders.fixedSize file.optional.isPlus + 32 := rfl
  obtain ⟨hplus, hend, hlength, hcount, hlast, hsection, hfile, hheaders, hget⟩ :=
    PeHeaders.readOptional_eq_some.mp hread
  rw [hpe] at hend hlength hlast hsection hfile hheaders hget
  have hlength' : (newDirectories file).length = file.optional.directories.length := by
    unfold newDirectories
    split
    · exact List.length_set ..
    · rfl
  refine PeHeaders.readOptional_eq_some.mpr ⟨?_, ?_, ?_, ?_, ?_, ?_, ?_, ?_, ?_⟩
  all_goals simp only [newOptional, hlength', hpe]
  · rw [PeHeaders.magicIsPlus?] at hplus ⊢
    rw [hpe] at hplus
    rw [h.natAt_fixed hfit (by omega) (by omega)]
    rw [if_neg (by omega)] at hplus ⊢
    exact hplus
  · omega
  · rw [hlength]
    rcases hfixed with hfixed | hfixed
    · rw [hfixed, h.natAt_fixed hfit (by omega) (by omega)]
    · rw [hfixed]
      refine (h.natAt_early hfit (by omega) fun x hx => ?_).symm
      obtain ⟨hx, hx'⟩ := hx
      refine not_headerField (by omega) ?_
      rintro - ⟨hle, -⟩
      omega
  · exact hcount
  · omega
  · rw [hsection, h.natAt_fixed hfit (by omega) (by omega)]
  · rw [hfile, h.natAt_fixed hfit (by omega) (by omega)]
  · rw [← h.headersSize]
  · intro i hi
    have hspan {o : Nat} (ho : o + 8 ≤ file.headers.sectionTableOffset)
        (hfree : ∀ x, Within o 8 x → ¬ IsHeaderField file x) :
        PeHeaders.readSpan out o = PeHeaders.readSpan file.data o := by
      rw [PeHeaders.readSpan, PeHeaders.readSpan,
        h.natAt_early hfit (by omega) fun x hx => hfree x ⟨hx.1, Nat.lt_of_lt_of_le hx.2 (by omega)⟩,
        h.natAt_early hfit (by omega) fun x hx => hfree x ⟨Nat.le_of_add_right_le hx.1, hx.2⟩]
    unfold newDirectories
    split
    · rename_i hsome
      rw [List.getElem?_set]
      split
      · rename_i hcertificate
        subst hcertificate
        rw [if_pos hi]
        have hzeros := h.certificate hsome
        rw [hcertEq] at hzeros
        have hfirst := hzeros.natAt (i := 0) (w := 4) (by simp)
        have hsecond := hzeros.natAt (i := 4) (w := 4) (by simp)
        rw [natAt_zeros, Nat.add_zero] at hfirst
        rw [natAt_zeros] at hsecond
        rw [PeHeaders.readSpan, PeFile.certificateDirectory]
        simp only [Nat.reduceMul]
        rw [hfirst, hsecond]
        rfl
      · rename_i hne
        simp only [PeFile.certificateDirectory] at hne
        refine (hget i hi).trans (congrArg some (hspan (by omega) fun x hx => ?_).symm)
        obtain ⟨hx, hx'⟩ := hx
        refine not_headerField (by omega) ?_
        rintro - ⟨hle, hlt⟩
        omega
    · rename_i hnone
      refine (hget i hi).trans (congrArg some (hspan (by omega) fun x hx => ?_).symm)
      obtain ⟨hx, hx'⟩ := hx
      exact not_headerField (by omega) fun hsome => absurd hsome hnone

/-- A byte of the section table that no pointer takes. -/
lemma Laid.byte_section (h : Laid file plan added touched out) (hfit : HeadersFit file) {i f : Nat}
    (hi : i < file.sections.length) (hf : f < 20 ∨ 32 ≤ f ∧ f < 40) :
    out[file.headers.sectionTableOffset + i * Section.headerSize + f]? =
      file.data[file.headers.sectionTableOffset + i * Section.headerSize + f]? := by
  have htable := hfit.table
  rw [LayoutPlan.slot, Section.headerSize] at htable
  rw [Section.headerSize]
  refine h.header _ (by omega) (fun hfield => ?_) ?_ ?_
  · have := (hfit.headerField_lt hfield).2
    omega
  · rintro ⟨-, a, ha, hle, hlt⟩
    obtain ⟨j, hj, field, hfield, rfl⟩ := mem_sectionPointers.mp ha
    simp only [pointerFields, List.mem_cons, List.not_mem_nil, or_false] at hfield
    rw [Section.headerSize] at hle hlt
    omega
  · rintro ⟨hle, -⟩
    rw [LayoutPlan.slot, Section.headerSize] at hle
    omega

/-- The headers of the input's sections read with their pointers moved. -/
lemma Laid.readAt_section (h : Laid file plan added touched out) (hfit : HeadersFit file) {i : Nat}
    (hi : i < file.sections.length) :
    Section.readAt out (file.headers.sectionTableOffset + i * Section.headerSize) =
      plan.movedSection (Section.readAt file.data
        (file.headers.sectionTableOffset + i * Section.headerSize)) := by
  have hsame {f w : Nat} (hf : f + w ≤ 20 ∨ 32 ≤ f ∧ f + w ≤ 40) :
      out.natAt (file.headers.sectionTableOffset + i * Section.headerSize + f) w =
        file.data.natAt (file.headers.sectionTableOffset + i * Section.headerSize + f) w :=
    natAt_congr fun k hk => by
      rw [Nat.add_assoc _ f k]
      exact h.byte_section hfit hi (by omega)
  have hname : out.extract (file.headers.sectionTableOffset + i * Section.headerSize)
      (file.headers.sectionTableOffset + i * Section.headerSize + 8) =
        file.data.extract (file.headers.sectionTableOffset + i * Section.headerSize)
          (file.headers.sectionTableOffset + i * Section.headerSize + 8) :=
    extract_congr fun k hk => h.byte_section hfit hi (by omega)
  have hpointer := h.pointer _ (mem_sectionPointers.mpr ⟨i, hi, 20, by decide, rfl⟩)
  rw [Section.readAt, Section.readAt, movedSection, hname, hpointer, ofNat_mod_eq,
    hsame (by omega), hsame (by omega), hsame (by omega), hsame (by omega)]
  simp only [Section.rawStart]
  congr 3
  rw [UInt32.toNat_ofNat_of_lt' (natAt_lt _ _ _)]

lemma Laid.nameAllowed_section (h : Laid file plan added touched out) (hfit : HeadersFit file)
    {i : Nat} (hi : i < file.sections.length) :
    PeHeaders.nameAllowed out (file.headers.sectionTableOffset + i * Section.headerSize) =
      PeHeaders.nameAllowed file.data
        (file.headers.sectionTableOffset + i * Section.headerSize) := by
  have hfirst := h.byte_section hfit hi (f := 0) (by omega)
  have hrest : out.extract (file.headers.sectionTableOffset + i * Section.headerSize + 1)
      (file.headers.sectionTableOffset + i * Section.headerSize + 1 + 7) =
        file.data.extract (file.headers.sectionTableOffset + i * Section.headerSize + 1)
          (file.headers.sectionTableOffset + i * Section.headerSize + 1 + 7) :=
    extract_congr fun k hk => by
      rw [Nat.add_assoc _ 1 k]
      exact h.byte_section hfit hi (by omega)
  rw [Nat.add_zero] at hfirst
  rw [PeHeaders.nameAllowed, PeHeaders.nameAllowed, Array.getD_eq_getD_getElem?,
    Array.getD_eq_getD_getElem?, hfirst, hrest]

lemma nameAllowed_sectionHeader {o : Nat} (h : out.StandsAt o (plan.sectionHeader file added)) :
    PeHeaders.nameAllowed out o = true := by
  have hname : (Utf8.encode MetaSection.name)[0]? = some 0x2E := by decide +kernel
  have hsize : (Utf8.encode MetaSection.name).size = 5 := by decide +kernel
  have hfirst : out[o]? = some 0x2E := by
    rw [← hname, ← h.left.left.left.left.left.left.left.getElem? (by omega), Nat.add_zero]
  rw [PeHeaders.nameAllowed, Array.getD_eq_getD_getElem?, hfirst]
  rfl

/-- The section table reads with one more section. -/
lemma Laid.readSections (h : Laid file plan added touched out) (hfit : HeadersFit file)
    (hroom : LayoutPlan.slot file + 40 ≤ out.size)
    (hread : PeHeaders.readSections file.data file.headers.sectionTableOffset
      file.sections.length = some file.sections) :
    PeHeaders.readSections out file.headers.sectionTableOffset (file.sections.length + 1) =
      some (plan.newSections file added) := by
  obtain ⟨-, -, hnames, -, hget⟩ := PeHeaders.readSections_eq_some.mp hread
  have hslot : LayoutPlan.slot file = file.headers.sectionTableOffset +
    file.sections.length * Section.headerSize := rfl
  have hend : file.headers.sectionTableOffset + Section.headerSize * (file.sections.length + 1) ≤
      out.size := by
    rw [hslot, Section.headerSize] at hroom
    rw [Section.headerSize]
    omega
  refine PeHeaders.readSections_eq_some.mpr ⟨?_, fun _ => hend, ?_, ?_, ?_⟩
  · rw [Nat.le_div_iff_mul_le (by decide), Nat.mul_comm]
    omega
  · intro i hi
    rw [Nat.mul_comm]
    rcases Nat.lt_or_ge i file.sections.length with hlt | hge
    · rw [h.nameAllowed_section hfit hlt, Nat.mul_comm]
      exact hnames i hlt
    · obtain rfl : i = file.sections.length := by omega
      exact nameAllowed_sectionHeader h.slot
  · simp [newSections]
  · intro i hi
    rw [newSections, Nat.mul_comm]
    rcases Nat.lt_or_ge i file.sections.length with hlt | hge
    · rw [List.getElem?_append_left (by simpa using hlt), List.getElem?_map, hget i hlt,
        h.readAt_section hfit hlt, Nat.mul_comm]
      rfl
    · obtain rfl : i = file.sections.length := by omega
      rw [← hslot, readAt_sectionHeader h.slot, List.getElem?_append_right (by simp)]
      simp

/-- The headers of the output. -/
theorem Laid.read_headers (h : Laid file plan added touched out) (hfit : HeadersFit file)
    (hroom : LayoutPlan.slot file + 40 ≤ out.size) (hcount : file.sections.length + 1 < 2 ^ 16)
    (hoptional : file.headers.optional = some file.optional)
    (hread : PeHeaders.read file.data = some file.headers) :
    PeHeaders.read out = some (plan.newHeaders file added) := by
  obtain ⟨-, hmagic, hpe, hmin, -, hsignature, hsize, hne, hopt, hsections⟩ :=
    (PeHeaders.read_eq_some hoptional).mp hread
  have htable := hfit.table_le
  have hlength := (PeHeaders.readSections_eq_some.mp hsections).2.2.2.1
  rw [← hlength] at hsections
  refine (PeHeaders.read_eq_some rfl).mpr ⟨by omega, ?_, ?_, hmin, ?_, ?_, ?_, hne, ?_, ?_⟩
  · rw [h.natAt_fixed hfit (by omega) (by omega), hmagic]
  · rw [h.natAt_fixed hfit (by omega) (by omega)]
    exact hpe
  · simp only [newHeaders]
    omega
  · simp only [newHeaders]
    rw [h.natAt_fixed hfit (by omega) (by omega), hsignature]
  · simp only [newHeaders]
    rw [h.natAt_fixed hfit (by omega) (by omega), hsize]
  · exact h.readOptional hfit hroom hopt
  · simp only [newHeaders]
    rw [h.count, ← hlength]
    change PeHeaders.readSections out _ ((file.sections.length + 1) % 2 ^ 16) = _
    rw [Nat.mod_eq_of_lt hcount]
    exact h.readSections hfit hroom hsections

end CliImage.LayoutPlan
