import CliImage.Proofs.Edit
import CliImage.Proofs.Pe.Headers
import CliImage.StrongName.Signature

/-! The digest of an image does not depend on its signature and its checksum, which are written after
it has been taken. -/

namespace CliImage

open Bytes

variable {data after : Bytes} {h : PeHeaders} {o : OptionalHeader} {p : Nat → Prop}

namespace Bytes

lemma SameBut.symm (hsame : SameBut p data after) : SameBut p after data :=
  ⟨hsame.1.symm, fun i hi => (hsame.2 i hi).symm⟩

/-- What is the same but for one place is the same once that has been written over. -/
lemma SameBut.put_eq {pos : Nat} {new : Bytes} (hsame : SameBut (Within pos new.size) data after) :
    after.put pos new = data.put pos new := by
  unfold Bytes.put
  rw [hsame.1]
  split
  · congr 1
    refine Array.ext_getElem? fun i => ?_
    rw [getElem?_overlay, getElem?_overlay, hsame.1]
    split
    · rfl
    · rename_i hout
      by_cases hi : i < data.size
      · exact hsame.2 i fun hin => hout ⟨hin.1, hin.2, hi⟩
      · rw [Array.getElem?_eq_none (by rw [hsame.1]; omega), Array.getElem?_eq_none (by omega)]
  · rfl

lemma sameBut_extract {pos stop : Nat} (hsame : SameBut p data after) :
    SameBut (fun i => p (pos + i)) (data.extract pos stop) (after.extract pos stop) := by
  refine ⟨by rw [Array.size_extract, Array.size_extract, hsame.1], fun i hi => ?_⟩
  rw [Array.getElem?_extract, Array.getElem?_extract, hsame.1]
  split
  · exact hsame.2 _ hi
  · rfl

end Bytes

namespace PeHeaders

/-- The headers are the same where they have the same bytes; the checksum is none of them. -/
lemma read_of_sameBut (ho : h.optional = some o)
    (hfields : fixedSize o.isPlus + 8 * o.directories.length ≤ h.optionalSize)
    (hsame : SameBut p data after)
    (hp : ∀ x < h.sectionTableOffset + h.sections.length * Section.headerSize,
      p x → Within h.checksumOffset 4 x)
    (hread : read data = some h) : read after = some h := by
  have hfixed : 96 ≤ fixedSize o.isPlus := by
    rw [fixedSize]
    split <;> decide
  have htable : h.sectionTableOffset = h.peOffset + 24 + h.optionalSize := rfl
  have hchecksum : h.checksumOffset = h.peOffset + 88 := rfl
  have hfree {offset w : Nat} (hend : offset + w ≤ h.sectionTableOffset +
      h.sections.length * Section.headerSize) (hapart : offset + w ≤ h.peOffset + 88 ∨
        h.peOffset + 92 ≤ offset) (x : Nat) (hx : offset ≤ x) (hx' : x < offset + w) : ¬ p x := by
    intro hpx
    obtain ⟨hle, hlt⟩ := hp x (by omega) hpx
    omega
  have hnat {offset w : Nat} (hend : offset + w ≤ h.sectionTableOffset +
      h.sections.length * Section.headerSize) (hapart : offset + w ≤ h.peOffset + 88 ∨
        h.peOffset + 92 ≤ offset) : after.natAt offset w = data.natAt offset w :=
    hsame.natAt fun x ⟨hx, hx'⟩ => hfree hend hapart x hx hx'
  obtain ⟨hsize, hmagic, hpe, hmin, hend, hsignature, hoptionalSize, hne, hoptional, hsections⟩ :=
    (read_eq_some ho).mp hread
  obtain ⟨hplus, hfits, hcount, hmany, hdirectories, hsection, hfile, hheaders, hspans⟩ :=
    readOptional_eq_some.mp hoptional
  obtain ⟨hroom, hlast, hnames, hlength, hget⟩ := readSections_eq_some.mp hsections
  rw [optionalOffset] at hplus hfits hcount hdirectories hsection hfile hheaders hspans
  refine (read_eq_some ho).mpr ⟨by rwa [hsame.1], ?_, ?_, hmin, by rwa [hsame.1], ?_, ?_, hne, ?_, ?_⟩
  · rwa [hnat (by omega) (by omega)]
  · rwa [hnat (by omega) (by omega)]
  · rwa [hnat (by omega) (by omega)]
  · rwa [hnat (by omega) (by omega)]
  · rw [optionalOffset]
    refine readOptional_eq_some.mpr ⟨?_, by rwa [hsame.1], ?_, hmany, by rwa [hsame.1], ?_, ?_, ?_,
      fun i hi => ?_⟩
    · rw [← hplus, magicIsPlus?, magicIsPlus?, hsame.1, hnat (by omega) (by omega)]
    · rwa [hnat (by omega) (by omega)]
    · rwa [hnat (by omega) (by omega)]
    · rwa [hnat (by omega) (by omega)]
    · rwa [hnat (by omega) (by omega)]
    · rw [hspans i hi, readSpan, readSpan, hnat (by omega) (by omega), hnat (by omega) (by omega)]
  · rw [hnat (by omega) (by omega)]
    rw [← hlength] at hroom hlast hnames hget ⊢
    refine readSections_eq_some.mpr ⟨by rwa [hsame.1], by rwa [hsame.1], fun i hi => ?_, rfl,
      fun i hi => ?_⟩
    · rw [← hnames i hi]
      have hbyte := hsame.2 (h.sectionTableOffset + Section.headerSize * i)
        (hfree (w := 1) (by rw [Section.headerSize]; omega) (by omega) _ le_rfl (by omega))
      rw [nameAllowed, nameAllowed, Array.getD_eq_getD_getElem?, Array.getD_eq_getD_getElem?, hbyte,
        hsame.extract fun x hx hx' => hfree (w := 8) ?_ ?_ x (Nat.le_of_succ_le hx) hx']
      · rw [Section.headerSize]
        omega
      · omega
    · rw [hget i hi, Section.readAt, Section.readAt, Section.headerSize,
        hsame.extract fun x hx hx' => hfree (w := 8) ?_ ?_ x hx hx',
        hnat ?_ (by omega), hnat ?_ (by omega), hnat ?_ (by omega), hnat ?_ (by omega),
        hnat ?_ (by omega)]
      all_goals
        try rw [Section.headerSize]
        omega

end PeHeaders

namespace StrongName

variable {signature : Range} {content : Bytes}

/-- What is written after the digest has been taken: the signature and the checksum. -/
def WrittenLate (h : PeHeaders) (signature : Range) (x : Nat) : Prop :=
  Within signature.start signature.length x ∨ Within h.checksumOffset 4 x

/-- The signature lies behind the section table and in one section's data or in none, and no
section's data holds the checksum. -/
structure Separate (h : PeHeaders) (signature : Range) : Prop where
  table : h.sectionTableOffset + h.sections.length * Section.headerSize ≤ signature.start
  sections : ∀ s ∈ h.sections, s.rawSize ≠ 0 → h.checksumOffset + 4 ≤ s.rawStart ∧
    (s.rawEnd ≤ signature.start ∨ signature.stop ≤ s.rawStart ∨
      s.rawStart ≤ signature.start ∧ signature.stop ≤ s.rawEnd)

variable (hseparate : Separate h signature) (hsame : SameBut (WrittenLate h signature) data after)

include hseparate hsame

lemma hashedHeaders_congr : hashedHeaders after h o = hashedHeaders data h o := by
  unfold hashedHeaders Bytes.slice
  rw [hsame.1]
  split
  · simp only [Result.ok_bind]
    have hput (stop : Nat) (hstop : stop ≤ h.sectionTableOffset + h.sections.length *
        Section.headerSize) : Bytes.put (after.extract 0 stop) h.checksumOffset (zeros 4) =
          Bytes.put (data.extract 0 stop) h.checksumOffset (zeros 4) := by
      refine SameBut.put_eq ⟨by rw [Array.size_extract, Array.size_extract, hsame.1], fun i hi => ?_⟩
      rw [Array.getElem?_extract, Array.getElem?_extract, hsame.1]
      split
      · refine hsame.2 _ ?_
        rintro (⟨hle, -⟩ | hchecksum)
        · have := hseparate.table
          omega
        · rw [Nat.zero_add] at hchecksum
          rw [size_zeros] at hi
          exact hi hchecksum
      · rfl
    rw [hput _ (Nat.zero_add _).le]
  · rfl

lemma hashedSection_congr {s : Section} (hs : s ∈ h.sections) :
    hashedSection after signature s = hashedSection data signature s := by
  unfold hashedSection Bytes.slice
  rw [hsame.1]
  split
  · rename_i hfit
    simp only [Result.ok_bind]
    by_cases hraw : s.rawSize = 0
    · have hempty (bytes : Bytes) : bytes.extract s.rawStart (s.rawStart + s.rawSize.toNat) = #[] := by
        rw [hraw]
        exact Array.extract_empty_of_stop_le_start (Nat.le_refl _)
      rw [hempty, hempty]
    · obtain ⟨hchecksum, hplace⟩ := hseparate.sections s hs hraw
      have hlate {x : Nat} (hle : s.rawStart ≤ x) (hlate : WrittenLate h signature x) :
          signature.start ≤ x ∧ x < signature.stop := by
        rcases hlate with ⟨hx, hx'⟩ | ⟨-, hx'⟩
        · rw [Range.length] at hx'
          omega
        · omega
      have hsub : SameBut (fun i => WrittenLate h signature (s.rawStart + i))
          (data.extract s.rawStart (s.rawStart + s.rawSize.toNat))
          (after.extract s.rawStart (s.rawStart + s.rawSize.toNat)) := sameBut_extract hsame
      split
      · rename_i hin
        congr 2
        · refine hsub.extract fun i hi hi' hlate' => ?_
          have := hlate (by omega) hlate'
          omega
        · rw [hsub.1]
          refine hsub.extract fun i hi hi' hlate' => ?_
          have := hlate (by omega) hlate'
          omega
      · rename_i hout
        congr 1
        refine hsame.extract fun x hx hx' hlate' => ?_
        have := hlate hx hlate'
        rw [Section.rawEnd, ← Section.rawStart] at *
        omega
  · rfl

/-- What a signature covers is the same once signature and checksum are written. -/
theorem hashedContent_congr (ho : h.optional = some o)
    (hfields : PeHeaders.fixedSize o.isPlus + 8 * o.directories.length ≤ h.optionalSize)
    (hafter : PeHeaders.accept after = some h)
    (hdata : hashedContent data signature = .ok content) :
    hashedContent after signature = .ok content := by
  have hread := (PeFile.accept_eq_some.mp hafter).1
  have hread' : PeHeaders.read data = some h := by
    refine PeHeaders.read_of_sameBut ho hfields hsame.symm (fun x hx hlate => ?_) hread
    rcases hlate with ⟨hle, -⟩ | hlate
    · have := hseparate.table
      omega
    · exact hlate
  unfold hashedContent at hdata ⊢
  rw [hafter]
  cases haccept : PeHeaders.accept data with
  | none =>
    rw [haccept] at hdata
    cases hdata
  | some h' =>
    rw [haccept] at hdata
    have hheaders := (PeFile.accept_eq_some.mp haccept).1
    rw [hread'] at hheaders
    cases hheaders
    simp only [ho] at hdata ⊢
    rw [hashedHeaders_congr hseparate hsame]
    obtain ⟨headers, hheaders, hdata⟩ := Result.bind_eq_ok.mp hdata
    rw [hheaders, Result.ok_bind, ← hdata]
    refine Result.foldlM_congr fun done s hs => ?_
    rw [hashedSection_congr hseparate hsame hs]

theorem digest_congr {value : Bytes} (ho : h.optional = some o)
    (hfields : PeHeaders.fixedSize o.isPlus + 8 * o.directories.length ≤ h.optionalSize)
    (hafter : PeHeaders.accept after = some h) (hdata : digest data signature = .ok value) :
    digest after signature = .ok value := by
  obtain ⟨content, hcontent, hvalue⟩ := Result.bind_eq_ok.mp hdata
  exact Result.bind_eq_ok.mpr
    ⟨content, hashedContent_congr hseparate hsame ho hfields hafter hcontent, hvalue⟩

end StrongName

namespace StrongName

variable {signature : Range}

lemma size_sha1 (data : Bytes) : (Hash.Sha1.sha1 data).size = 20 := by
  simp [Hash.Sha1.sha1, Hash.Sha1.encode, ofNatBE, ofLongNat_eq]

lemma exists_hashedSection {s : Section} (hend : s.rawEnd ≤ data.size) :
    ∃ bytes, hashedSection data signature s = .ok bytes := by
  have hslice : data.slice s.rawStart s.rawSize.toNat =
      .ok (data.extract s.rawStart (s.rawStart + s.rawSize.toNat)) := if_pos hend
  unfold hashedSection
  rw [hslice, Result.ok_bind]
  split
  · exact ⟨_, rfl⟩
  · exact ⟨_, rfl⟩

/-- A file that is accepted has a digest where its section table and all its sections are whole. -/
theorem exists_digest (haccept : PeHeaders.accept data = some h) (ho : h.optional = some o)
    (hchecksum : h.checksumOffset + 4 ≤ h.sectionTableOffset)
    (hcertificate : h.directoryOffset o.isPlus PeFile.certificateDirectory + 8 ≤
      h.sectionTableOffset)
    (htable : h.sectionTableOffset + h.sections.length * Section.headerSize ≤ data.size)
    (hsections : ∀ s ∈ h.sections, s.rawEnd ≤ data.size) :
    ∃ value, digest data signature = .ok value ∧ value.size = 20 := by
  have hheaders : ∃ headers, hashedHeaders data h o = .ok headers := by
    have hslice : data.slice 0 (h.sectionTableOffset + h.sections.length * Section.headerSize) =
        .ok (data.extract 0 (0 + (h.sectionTableOffset + h.sections.length *
          Section.headerSize))) := if_pos (by omega)
    have hput {bytes new : Bytes} {offset : Nat} (hfit : offset + new.size ≤ bytes.size) :
        bytes.put offset new = .ok (bytes.overlay offset new) := if_pos hfit
    unfold hashedHeaders
    rw [hslice, Result.ok_bind, hput (by rw [size_zeros, Array.size_extract]; omega), Result.ok_bind,
      hput (by rw [size_zeros, size_overlay, Array.size_extract]; omega)]
    exact ⟨_, rfl⟩
  obtain ⟨headers, hheaders⟩ := hheaders
  have hfold : ∀ (sections : List Section) (done : Bytes), (∀ s ∈ sections, s.rawEnd ≤ data.size) →
      ∃ content, sections.foldlM (m := Result) (fun done s => do
        .ok (done ++ (← hashedSection data signature s))) done = .ok content := by
    intro sections
    induction sections with
    | nil => exact fun done _ => ⟨done, rfl⟩
    | cons s sections ih =>
      intro done hends
      obtain ⟨bytes, hbytes⟩ : ∃ bytes, hashedSection data signature s = .ok bytes :=
        exists_hashedSection (hends s (List.mem_cons_self ..))
      obtain ⟨content, hcontent⟩ := ih (done ++ bytes) fun t ht => hends t (List.mem_cons_of_mem _ ht)
      exact ⟨content, Result.foldlM_cons_eq_ok.mpr ⟨_, by rw [hbytes]; rfl, hcontent⟩⟩
  obtain ⟨content, hcontent⟩ := hfold h.sections headers hsections
  refine ⟨Hash.Sha1.sha1 content, ?_, size_sha1 content⟩
  rw [digest, hashedContent, haccept]
  simp only [ho, hheaders, Result.ok_bind, hcontent]

end StrongName

end CliImage
