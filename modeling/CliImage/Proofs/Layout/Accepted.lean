import CliImage.Proofs.CliHeader
import CliImage.Proofs.Layout.AddressSpace
import CliImage.Root

/-! What the container looks for in an output whose headers have not grown: it finds what it found in
the input, and the new metadata in the added section. -/

namespace CliImage

open Bytes

namespace PeHeaders

variable {h : PeHeaders} {o : OptionalHeader} {data bytes : Bytes} {d : Span}
  {offset count start found size pointer : Nat} {cli : CliHeader} {root : Root}

lemma codeViewOk_of_le (hsize : 24 ≤ size) (hend : pointer + size ≤ data.size) :
    codeViewOk data size pointer = true := by
  rw [codeViewOk, Bool.and_eq_true, Bool.and_eq_true]
  refine ⟨⟨decide_eq_true hsize, decide_eq_true (by omega)⟩, ?_⟩
  split <;> simp [hend]

/-- Entries that tell of a PDB must be whole, and those of other kinds count where they tell that
the file can be reproduced. -/
lemma debugEntriesOk_of (hkind : ∀ i < count, data.natAt (offset + 28 * i + 12) 4 ≠ 16)
    (hview : ∀ i < count, data.natAt (offset + 28 * i + 12) 4 = 2 →
      codeViewOk data (data.natAt (offset + 28 * i + 16) 4) (data.natAt (offset + 28 * i + 24) 4) =
        true) : debugEntriesOk data offset count = true := by
  unfold debugEntriesOk
  simp only [Bool.and_eq_true]
  constructor
  · split
    · rename_i e he
      have hmem := List.mem_of_find?_eq_some he
      obtain ⟨i, hi, rfl⟩ := List.mem_map.mp hmem
      have htest := List.find?_some he
      exact hview i (List.mem_range.mp hi) (by simpa using htest)
    · rfl
  · split
    · rename_i e he
      have hmem := List.mem_of_find?_eq_some he
      obtain ⟨i, hi, rfl⟩ := List.mem_map.mp hmem
      have htest := List.find?_some he
      exact absurd (by simpa using htest) (hkind i (List.mem_range.mp hi))
    · rfl

/-- The CLI header must name metadata with a version text. -/
lemma cliDirectoryOk_of (hfind : h.find o d.rva.toNat = some start)
    (hcli : data.StandsAt start cli.encode) (hmetadata : h.find o cli.metadata.rva.toNat = some found)
    (hstands : data.StandsAt found bytes) (hsize : cli.metadata.size.toNat = bytes.size)
    (hroot : Root.read bytes = .ok root) (hversion : (Utf8.decode? root.versionBytes).isSome) :
    h.cliDirectoryOk o data d = true := by
  have hend := hcli.le_size
  have hend' := hstands.le_size
  rw [CliHeader.size_encode] at hend
  have hrva : data.natAt (start + 8) 4 = cli.metadata.rva.toNat ∧
      data.natAt (start + 12) 4 = cli.metadata.size.toNat := by
    rw [CliHeader.encode_eq] at hcli
    have hspan := hcli.right.right.right.left
    simp only [size_ofUInt32, size_ofUInt16, Nat.add_assoc, Nat.reduceAdd] at hspan
    have hsecond := hspan.right
    rw [size_ofUInt32] at hsecond
    exact ⟨hspan.left.natAt_ofNat cli.metadata.rva.toNat_lt,
      hsecond.natAt_ofNat cli.metadata.size.toNat_lt⟩
  obtain ⟨hlength, hroot⟩ := Result.unless_throw_eq_ok.mp hroot
  obtain ⟨-, hroot⟩ := Result.unless_throw_eq_ok.mp hroot
  obtain ⟨hroom, hroot⟩ := Result.unless_throw_eq_ok.mp hroot
  obtain ⟨-, hroot⟩ := Result.unless_throw_eq_ok.mp hroot
  obtain ⟨_, -, hroot⟩ := Result.bind_eq_ok.mp hroot
  cases hroot
  have hnat : data.natAt (found + 12) 4 = bytes.natAt 12 4 := hstands.natAt (by omega)
  have htext : data.extract (found + 16) (found + 16 + bytes.natAt 12 4) =
      bytes.extract 16 (bytes.natAt 12 4 + 16) := by
    rw [Nat.add_comm (bytes.natAt 12 4)]
    exact extract_congr fun i hi => by
      rw [Nat.add_assoc]
      exact hstands.getElem? (by omega)
  rw [cliDirectoryOk, hfind]
  simp only [hrva, hmetadata, hsize, hnat, htext, Bool.and_eq_true, decide_eq_true_eq]
  exact ⟨by omega, ⟨⟨by omega, by omega⟩, by omega⟩, hversion⟩

end PeHeaders

namespace LayoutPlan

variable {file : PeFile} {plan : LayoutPlan} {added : MetaSection} {rva found : Nat}

lemma moved_section_of_not_grows (h : plan.grows = false) (s : Section) :
    plan.movedSection s = s := by
  rw [movedSection, moved_of_not_grows h, Section.rawStart, UInt32.ofNat_toNat]

/-- What was found in the input is found in the output. -/
lemma find_newHeaders (h : plan.grows = false)
    (hfind : file.headers.find file.optional rva = some found) :
    (plan.newHeaders file added).find (plan.newOptional file) rva = some found := by
  obtain ⟨hpower, s, hs, hfound⟩ := PeHeaders.find_eq_some.mp hfind
  have hmoved : file.headers.sections.map plan.movedSection = file.headers.sections := by
    rw [List.map_congr_left fun s _ => moved_section_of_not_grows h s, List.map_id']
  refine PeHeaders.find_eq_some.mpr ⟨hpower, s, ?_, hfound⟩
  change (file.headers.sections.map plan.movedSection ++ _).find? _ = _
  rw [hmoved, List.find?_append]
  exact congrArg (Option.or · _) hs

/-- What has been pushed onto the added section is found there. -/
lemma Addressable.find_added (h : Addressable file plan added)
    (hpower : PeHeaders.isPowerOfTwo file.fileAlignment = true) (hstill : plan.grows = false)
    (hreach : ∀ s ∈ file.sections,
      s.start + PeHeaders.reach s file.fileAlignment ≤ plan.sectionRva.toNat)
    (hle : plan.sectionRva.toNat ≤ rva)
    (hlt : rva < plan.sectionRva.toNat + added.data.size) :
    (plan.newHeaders file added).find (plan.newOptional file) rva =
      some (plan.sectionStart + (rva - plan.sectionRva.toNat)) := by
  have hraw := h.le_rawSize
  have hstart : (plan.addedSection file added).start = plan.sectionRva.toNat := by
    rw [← h.rva]
    rfl
  refine PeHeaders.find_eq_some.mpr ⟨hpower, plan.addedSection file added, ?_, ?_⟩
  · change (file.sections.map plan.movedSection ++ _).find? _ = _
    rw [List.find?_append, List.find?_eq_none.mpr, Option.none_or, List.find?_singleton, if_pos]
    · have hreached : rva - plan.sectionRva.toNat <
          PeHeaders.reach (plan.addedSection file added) file.fileAlignment := by
        refine PeHeaders.lt_reach h.align ?_ (.inr ?_)
        · rw [h.rawSize_added]
          omega
        · rw [h.virtualSize_added]
          have := le_alignUp added.data.size (show 0 < 0x1000 by decide)
          omega
      simp only [hstart, Bool.and_eq_true, decide_eq_true_eq]
      change _ ∧ rva < _ + PeHeaders.reach _ file.fileAlignment
      omega
    · intro s hs
      obtain ⟨old, hold, rfl⟩ := List.mem_map.mp hs
      have hbelow := hreach old hold
      rw [moved_section_of_not_grows hstill]
      simp only [Bool.and_eq_true, decide_eq_true_eq, not_and]
      change _ → ¬ rva < _ + PeHeaders.reach _ file.fileAlignment
      omega
  · rw [h.rawStart_added, hstart]
    omega

/-- A file without certificates stays one. -/
lemma newDirectory_certificate
    (h : PeHeaders.directory? file.optional PeFile.certificateDirectory = none) :
    PeHeaders.directory? (plan.newOptional file) PeFile.certificateDirectory = none := by
  have hnone : file.directory? PeFile.certificateDirectory = none := by
    rw [PeHeaders.directory?, Option.filter_eq_none_iff] at h
    rw [PeFile.directory?, Option.filter_eq_none_iff]
    intro d hd hboth
    refine h d hd ?_
    simp only [decide_eq_true_eq] at hboth ⊢
    exact .inl hboth.1
  rw [PeHeaders.directory?, newOptional, newDirectories, hnone]
  exact h

end LayoutPlan

end CliImage
