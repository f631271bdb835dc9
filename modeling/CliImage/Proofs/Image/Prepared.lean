import CliImage.Proofs.CliHeader
import CliImage.Proofs.Image.Initializer

/-! What stays of a byte string in all images that are made of it. -/

namespace CliImage

/-- A file's CLI header and the metadata that it names can be read. -/
structure PeFile.Opens (file : PeFile) (header : CliHeader) (m : Metadata) : Prop where
  cli : ∃ bytes, file.slice file.cli.rva.toNat CliHeader.encodedSize = .ok bytes ∧
    CliHeader.read bytes = .ok header
  metadata : ∃ bytes, file.slice header.metadata.rva.toNat header.metadata.size.toNat = .ok bytes ∧
    Metadata.read bytes = .ok m
  notPdb : m.isPdb = false

namespace Image

/-- The images that a byte string becomes: it is read, symbols are attached and methods added. -/
inductive Prepared (data : Bytes) : Image → Prop
  | read {id : Nat} {image : Image} (h : Image.read id data = .ok image) : Prepared data image
  | attach {before after : Image} {path : String} {pdb : Bytes} (h : Prepared data before)
      (hattach : before.attach path pdb = .ok after) : Prepared data after
  | add {before after : Image} {type id : Nat} {method : Method} (h : Prepared data before)
      (hrid : method.rid = none) (hadd : before.addMethod type method = .ok (after, id)) :
      Prepared data after

variable {data : Bytes} {image before after : Image}

lemma attach_eq_ok {path : String} {pdb : Bytes} (h : before.attach path pdb = .ok after) :
    ∃ symbols, Symbols.read path pdb before.file before.metadata.tables = .ok symbols ∧
      after = { before with symbols := some symbols } := by
  obtain ⟨symbols, hsymbols, h⟩ := Result.bind_eq_ok.mp h
  cases h
  exact ⟨symbols, hsymbols, rfl⟩

lemma Prepared.inject {ref : MethodRef} (h : Prepared data before)
    (hinject : before.inject ref = .ok after) : Prepared data after := by
  obtain ⟨_, _, _, _, _, -, -, -, hcctor, hadd⟩ := inject_eq_ok hinject
  exact h.add (initializerCalling_eq_ok hcctor).1 hadd

lemma inject_symbols {ref : MethodRef} (h : before.inject ref = .ok after) :
    after.symbols = before.symbols := by
  obtain ⟨_, _, _, _, _, -, -, -, -, hadd⟩ := inject_eq_ok h
  obtain ⟨-, -, rfl⟩ := addMethod_eq_ok hadd
  rfl

/-- What does not change once the bytes have been read. -/
structure Parsed (data : Bytes) (image : Image) : Prop where
  file : PeFile.read data = .ok image.file
  opens : image.file.Opens image.cli image.metadata
  symbols : ∀ symbols, image.symbols = some symbols → ∃ path pdb,
    Symbols.read path pdb image.file image.metadata.tables = .ok symbols

theorem Prepared.parsed (h : Prepared data image) : image.Parsed data := by
  induction h with
  | read h =>
    obtain ⟨hfile, -, hsymbols, -, hcli, hmetadata, hpdb, -⟩ := read_eq_ok h
    refine ⟨hfile, ⟨hcli, hmetadata, hpdb⟩, fun symbols hsome => ?_⟩
    rw [hsymbols] at hsome
    cases hsome
  | @attach _ _ path pdb _ hattach ih =>
    obtain ⟨symbols, hsymbols, rfl⟩ := attach_eq_ok hattach
    refine ⟨ih.file, ih.opens, fun symbols' hsome => ?_⟩
    cases hsome
    exact ⟨path, pdb, hsymbols⟩
  | add _ _ hadd ih =>
    obtain ⟨-, -, rfl⟩ := addMethod_eq_ok hadd
    exact ⟨ih.file, ih.opens, ih.symbols⟩

theorem Prepared.arranged (h : Prepared data image) : image.Arranged := by
  induction h with
  | read h => exact arranged_of_read h
  | attach _ hattach ih =>
    obtain ⟨symbols, -, rfl⟩ := attach_eq_ok hattach
    exact ⟨⟨ih.size_types, ih.run_eq⟩, ih.rid_eq, ih.rid_eq_none, ih.methods_eq⟩
  | add _ hrid hadd ih => exact ih.add hrid hadd

/-- The method of each row has been read from the file. -/
lemma Prepared.exists_readMethod (h : image.Prepared data) {j : Nat}
    (hj : j < image.metadata.tables.count .methodDef) :
    ∃ m, image.file.readMethod image.metadata (j + 1) = .ok m ∧ image.methods[j]? = some m := by
  induction h with
  | read hread =>
    obtain ⟨-, -, -, -, -, -, -, hmethods, -⟩ := read_eq_ok hread
    exact (readRows_empty hmethods).2 j hj
  | attach _ hattach ih =>
    obtain ⟨symbols, -, rfl⟩ := attach_eq_ok hattach
    exact ih hj
  | add _ _ hadd ih =>
    obtain ⟨-, -, rfl⟩ := addMethod_eq_ok hadd
    obtain ⟨m, hm, hget⟩ := ih hj
    obtain ⟨hlt, hget⟩ := Array.getElem?_eq_some_iff.mp hget
    refine ⟨m, hm, ?_⟩
    simpa only [Array.getElem?_push_lt hlt] using congrArg some hget

lemma Prepared.readMethod (h : image.Prepared data) {j : Nat} {m : Method}
    (hm : image.methods[j]? = some m) (hold : m.isAdded = false) :
    image.file.readMethod image.metadata (j + 1) = .ok m := by
  by_cases hrow : j < image.metadata.tables.count .methodDef
  · obtain ⟨m, hread, hm'⟩ := h.exists_readMethod hrow
    cases hm.symm.trans hm'
    exact hread
  · have hrid := h.arranged.rid_eq_none j (Nat.le_of_not_lt hrow)
    simp only [hm, Option.bind_some] at hrid
    simp [Method.isAdded, hrid] at hold

/-- So has the code of a method that has a row. -/
lemma Prepared.readBody (h : image.Prepared data) {m : Method} (hm : m ∈ image.methods.toList)
    (hold : m.isAdded = false) :
    image.file.readBody m.rva m.implFlags = .ok (m.body, m.instructions) := by
  obtain ⟨j, hj, rfl⟩ := Array.getElem_of_mem (Array.mem_toList_iff.mp hm)
  exact readBody_of_readMethod (h.readMethod (Array.getElem?_eq_getElem hj) hold)

lemma Parsed.cli_formed (h : image.Parsed data) : image.cli.Formed := by
  obtain ⟨_, -, hcli⟩ := h.opens.cli
  exact CliHeader.formed_of_read hcli

end Image

end CliImage
