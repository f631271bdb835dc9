import CliImage.Pe.File
import CliImage.Proofs.Result
import Mathlib.Data.Option.Basic

/-! The parts that the headers of a PE file are read from. -/

namespace CliImage

namespace PeHeaders

variable {data : Bytes} {offset count : Nat} {h : PeHeaders} {o : OptionalHeader}

lemma readOptional_eq_some : readOptional data offset = some o ↔
    magicIsPlus? data offset = some o.isPlus ∧ offset + fixedSize o.isPlus ≤ data.size ∧
      o.directories.length = data.natAt (offset + fixedSize o.isPlus - 4) 4 ∧
      o.directories.length ≤ 16 ∧
      offset + fixedSize o.isPlus + 8 * o.directories.length ≤ data.size ∧
      o.sectionAlignment = data.natAt (offset + 32) 4 ∧
      o.fileAlignment = data.natAt (offset + 36) 4 ∧
      o.headersSize = data.natAt (offset + 60) 4 ∧
      ∀ i < o.directories.length, o.directories[i]? =
        some (readSpan data (offset + fixedSize o.isPlus + 8 * i)) := by
  unfold readOptional
  cases hplus : magicIsPlus? data offset with
  | none => simp
  | some isPlus =>
    simp only [Option.bind_eq_bind, Option.bind_some, Option.bind_eq_some_iff, Option.guard_eq_some',
      exists_const, Option.pure_def, Option.some.injEq]
    constructor
    · rintro ⟨hfixed, ⟨hcount, hend⟩, rfl⟩
      refine ⟨rfl, hfixed, by simp, by simpa using hcount, by simpa using hend, rfl, rfl, rfl,
        fun i hi => ?_⟩
      simp only [List.length_map, List.length_range] at hi
      simp [hi]
    · rintro ⟨rfl, hfixed, hlength, hcount, hend, hsection, hfile, hsize, hdirectories⟩
      rw [← hlength]
      refine ⟨hfixed, ⟨hcount, hend⟩, ?_⟩
      cases o
      simp only at hlength hsection hfile hsize hdirectories ⊢
      subst hsection hfile hsize
      congr 1
      refine List.ext_getElem? fun i => ?_
      by_cases hi : i < List.length ‹List Span›
      · rw [hdirectories i hi]
        simp [hi]
      · rw [List.getElem?_eq_none (by simpa using hi), List.getElem?_eq_none (by omega)]

lemma readSections_eq_some {sections : List Section} :
    readSections data offset count = some sections ↔
      count ≤ data.size / Section.headerSize ∧
        (count ≠ 0 → offset + Section.headerSize * count ≤ data.size) ∧
        (∀ i < count, nameAllowed data (offset + Section.headerSize * i) = true) ∧
        sections.length = count ∧ ∀ i < count, sections[i]? =
          some (Section.readAt data (offset + Section.headerSize * i)) := by
  unfold readSections
  split
  · rename_i hroom
    constructor
    · intro h
      cases h
    · rintro ⟨hcount, hend, -⟩
      rcases hroom with hroom | ⟨hne, hroom⟩
      · omega
      · have := hend hne
        omega
  · rename_i hroom
    have hfits : count ≤ data.size / Section.headerSize ∧
        (count ≠ 0 → offset + Section.headerSize * count ≤ data.size) := by
      constructor
      · omega
      · intro hne
        omega
    simp only [hfits, true_and]
    split
    · rename_i hnames
      have hnames' : ∀ i < count, nameAllowed data (offset + Section.headerSize * i) = true := by
        simpa using hnames
      simp only [Option.some.injEq]
      constructor
      · rintro rfl
        exact ⟨fun _ => hfits.2 ‹_›, hnames', by simp, fun i hi => by simp [hi]⟩
      · rintro ⟨-, -, hlength, hget⟩
        refine (List.ext_getElem? fun i => ?_).symm
        by_cases hi : i < count
        · rw [hget i hi]
          simp [hi]
        · rw [List.getElem?_eq_none (by omega), List.getElem?_eq_none (by simpa using hi)]
    · rename_i hnames
      refine iff_of_false (by simp) fun hall => hnames ?_
      simpa using hall.2.1

/-- The parts that headers with an optional header are read from. -/
lemma read_eq_some (ho : h.optional = some o) : read data = some h ↔
    0x40 ≤ data.size ∧ data.natAt 0 2 = 0x5A4D ∧ h.peOffset = data.natAt 0x3C 4 ∧
      0x40 ≤ h.peOffset ∧ h.peOffset + 24 ≤ data.size ∧ data.natAt h.peOffset 4 = 0x4550 ∧
      h.optionalSize = data.natAt (h.peOffset + 20) 2 ∧ h.optionalSize ≠ 0 ∧
      readOptional data h.optionalOffset = some o ∧
      readSections data h.sectionTableOffset (data.natAt (h.peOffset + 6) 2) = some h.sections := by
  unfold read
  simp only [Option.bind_eq_bind, Option.bind_eq_some_iff, Option.guard_eq_some', exists_const]
  constructor
  · rintro ⟨⟨hsize, hmagic⟩, ⟨hmin, hend, hsignature⟩, hrest⟩
    split at hrest
    · simp only [Option.bind_some, Option.bind_eq_some_iff] at hrest
      obtain ⟨sections, -, hread⟩ := hrest
      cases hread
      cases ho
    · rename_i hne
      simp only [Option.map_eq_map, Option.bind_eq_some_iff, Option.map_eq_some_iff] at hrest
      obtain ⟨_, ⟨_, hoptional, rfl⟩, sections, hsections, hread⟩ := hrest
      cases hread
      cases ho
      exact ⟨hsize, hmagic, rfl, hmin, hend, hsignature, rfl, hne, hoptional, hsections⟩
  · rintro ⟨hsize, hmagic, hpe, hmin, hend, hsignature, hoptionalSize, hne, hoptional, hsections⟩
    obtain ⟨pe, optionalSize, optional, sections⟩ := h
    simp only [optionalOffset, sectionTableOffset] at *
    subst hpe hoptionalSize ho
    refine ⟨⟨hsize, hmagic⟩, ⟨hmin, hend, hsignature⟩, ?_⟩
    rw [if_neg hne, hoptional]
    simp [hsections]

end PeHeaders

namespace PeFile

variable {data : Bytes} {file : PeFile}

lemma accept_eq_some {headers : PeHeaders} : PeHeaders.accept data = some headers ↔
    PeHeaders.read data = some headers ∧ headers.directoriesOk data = true :=
  Option.filter_eq_some_iff

lemma directory?_isSome {index : Nat} : (file.directory? index).isSome ↔
    ∃ d, file.optional.directories[index]? = some d ∧ d.rva ≠ 0 ∧ d.size ≠ 0 := by
  simp only [directory?, Option.isSome_iff_exists, Option.filter_eq_some_iff, decide_eq_true_eq]

/-- The parts that a PE file is read from. -/
lemma read_eq_ok : read data = .ok file ↔ file.data = data ∧
    PeHeaders.read data = some file.headers ∧ file.headers.directoriesOk data = true ∧
      file.headers.optional = some file.optional ∧ file.optional.fileAlignment ≠ 0 ∧
      file.optional.sectionAlignment ≠ 0 ∧ (file.directory? cliDirectory).isSome := by
  rw [read, directory?_isSome]
  constructor
  · intro h
    split at h
    · cases h
    split at h
    · cases h
    rename_i headers haccept
    obtain ⟨hread, hok⟩ := accept_eq_some.mp haccept
    split at h
    · cases h
    rename_i optional hoptional
    split at h
    · cases h
    rename_i hcli
    split at h
    · cases h
    rename_i halign
    split at h
    · rename_i hall
      cases h
      obtain ⟨d, hd⟩ := Option.isSome_iff_exists.mp
        (Option.isNone_eq_false_iff.mp (Bool.eq_false_iff.mpr hcli))
      have hget := (Option.filter_eq_some_iff.mp hd).1
      rw [hget] at hall
      exact ⟨rfl, hread, hok, hoptional, fun h => halign (.inl h), fun h => halign (.inr h), d,
        hget, by simpa using hall⟩
    · cases h
  · rintro ⟨hdata, hread, hok, hoptional, hfile, hsection, d, hget, hrva, hsize⟩
    have hne : ¬ data.isEmpty := fun hempty => by
      have : data.size = 0 := by simpa using hempty
      have := (PeHeaders.read_eq_some hoptional).mp hread
      omega
    have hcli : (PeHeaders.directory? file.optional cliDirectory).isNone = false := by
      rw [PeHeaders.directory?, hget]
      simp [hrva]
    rw [if_neg hne, accept_eq_some.mpr ⟨hread, hok⟩]
    simp only [hoptional, hcli, hget]
    rw [if_neg (by simp), if_neg (by omega), if_pos (by simp [hrva, hsize]), ← hdata]

lemma length_sections_lt (h : read data = .ok file) : file.sections.length < 2 ^ 16 := by
  obtain ⟨-, hread, -, hoptional, -⟩ := read_eq_ok.mp h
  obtain ⟨-, -, -, -, -, -, -, -, -, hsections⟩ := (PeHeaders.read_eq_some hoptional).mp hread
  obtain ⟨-, -, -, hlength, -⟩ := PeHeaders.readSections_eq_some.mp hsections
  rw [sections, hlength]
  exact Bytes.natAt_lt ..

end PeFile

end CliImage
