import CliImage.Proofs.Reader
import CliImage.Proofs.Table.RowCounts
import CliImage.Symbols.PdbHeader

/-! The #Pdb stream reads back as the header it was written from. -/

namespace CliImage.PdbHeader

open Reader (ReadsBack)

/-- Row counts stand for the referenced tables only. -/
def Formed (header : PdbHeader) : Prop :=
  ∀ slot (h : slot < 64), slot ∉ maskSlots header.referenced → header.rows[slot] = 0

variable {data : Bytes} {header : PdbHeader}

lemma encode_eq (header : PdbHeader) : header.encode =
    header.id.toArray ++ (Bytes.ofUInt32 header.entryPoint.value ++
      (Bytes.ofUInt64 header.referenced ++ (maskSlots header.referenced).foldl
        (fun done slot => done ++ Bytes.ofUInt32 (header.rows.toArray.getD slot 0)) #[])) := by
  simp only [encode, Array.append_assoc]

/-- The header is spelled by the bytes that it is read from. -/
lemma passed_of_reader {next : Nat} (h : reader data 0 = .ok header next) :
    data.Passed 0 next header.encode ∧ header.Formed := by
  simp only [reader, Reader.bind_eq_ok, Reader.unless_fail_eq_ok, Reader.data_apply] at h
  obtain ⟨_, _, hdata, -, id, _, hid, entryPoint, _, hentry, referenced, _, hreferenced, pairs, _,
    hpairs, h⟩ := h
  cases hdata
  obtain ⟨rfl, rfl⟩ := Reader.pure_eq_ok.mp h
  obtain ⟨value, hvalue, rfl⟩ := Reader.map_eq_ok.mp hentry
  have hpair (slot pos : Nat) (p : Nat × UInt32) (next : Nat)
      (h : (Reader.u32 >>= fun n => pure (slot, n)) data pos = .ok p next) :
      p.1 = slot ∧ data.Passed pos next (Bytes.ofUInt32 p.2) := by
    obtain ⟨n, _, hn, h⟩ := Reader.bind_eq_ok.mp h
    obtain ⟨rfl, rfl⟩ := Reader.pure_eq_ok.mp h
    exact ⟨rfl, Reader.passed_of_u32 hn⟩
  have hslots := Reader.map_of_mapM (fun slot pos p next h => (hpair slot pos p next h).1) hpairs
  have hmask := Reader.passed_of_u64 hreferenced
  have hcounts :=
    Reader.passed_of_mapM (fun slot pos p next h => (hpair slot pos p next h).2) hmask.le_size hpairs
  refine ⟨?_, fun slot hlt => RowCounts.getElem_ofPairs_of_unlisted hslots hlt⟩
  rw [encode_eq, RowCounts.foldl_ofPairs hslots]
  exact (Reader.passed_of_vector hid).append <|
    (Reader.passed_of_u32 hvalue).append <| hmask.append hcounts

lemma formed_of_read (h : read data = .ok header) : header.Formed := by
  obtain ⟨next, h⟩ := Reader.run_eq_ok.mp h
  exact (passed_of_reader h).2

/-- The id stands first. -/
lemma extract_of_read (h : read data = .ok header) :
    20 ≤ data.size ∧ data.extract 0 20 = header.id.toArray := by
  obtain ⟨next, h⟩ := Reader.run_eq_ok.mp h
  have hpassed := (passed_of_reader h).1
  have hstands := Bytes.standsAt_extract hpassed.le hpassed.le_size
  rw [hpassed.extract, encode_eq] at hstands
  have hid := hstands.left
  exact ⟨by simpa using hid.le_size, by simpa using hid.extract⟩

/-- How many bytes the stream takes: behind the fixed part four for each table that the mask has. -/
def encodedSize (header : PdbHeader) : Nat := 32 + 4 * header.referenced.toBitVec.cpop.toNat

lemma size_encode (header : PdbHeader) : header.encode.size = header.encodedSize := by
  rw [encode_eq, encodedSize, ← length_maskSlots]
  simp only [Array.size_append, Bytes.size_foldl_ofUInt32, Vector.size_toArray, Bytes.size_ofUInt32,
    Bytes.size_ofUInt64, Array.size_empty]
  omega

/-- Four bytes for each referenced table. -/
lemma size_encode_mod (header : PdbHeader) : header.encode.size % 4 = 0 ∧
    32 ≤ header.encode.size := by
  rw [size_encode, encodedSize]
  omega

/-- The row counts read back where they stand for the referenced tables only. -/
theorem read_encode (hformed : header.Formed) (back : Bytes) :
    read (header.encode ++ back) = .ok header := by
  have hstands := (Bytes.standsAt_self header.encode).append_right back
  have hsize := header.size_encode_mod.2
  refine Reader.run_eq_ok.mpr ⟨0 + header.encode.size, ?_⟩
  rw [reader, Reader.bind_apply, Reader.data_apply]
  simp only
  rw [if_neg (by rw [Array.size_append]; omega)]
  rw [encode_eq] at hstands ⊢
  refine (ReadsBack.bind (.vector _) <|
    .bind ((ReadsBack.u32 _).map (g := Token.mk)) <| .bind (.u64 _) ?_) hstands
  have hrows : RowCounts.ofPairs ((maskSlots header.referenced).map fun slot =>
      (slot, header.rows.toArray.getD slot 0)) = header.rows := by
    refine Vector.ext fun i hi => ?_
    rw [RowCounts.getElem_ofPairs _ _ hi]
    split
    · simp [Array.getD_eq_getD_getElem?, hi]
    · rename_i hmem
      exact (hformed i hi hmem).symm
  have hpairs : ReadsBack ((maskSlots header.referenced).mapM fun slot =>
      (Reader.u32 >>= fun n => pure (slot, n) : Reader (Nat × UInt32)))
      ((maskSlots header.referenced).foldl
        (fun done slot => done ++ Bytes.ofUInt32 (header.rows.toArray.getD slot 0)) #[])
      ((maskSlots header.referenced).map fun slot => (slot, header.rows.toArray.getD slot 0)) :=
    .mapM fun slot _ => by simpa using (ReadsBack.u32 _).map (g := Prod.mk slot)
  have := hpairs.bind (f := fun rows => pure (PdbHeader.mk header.id header.entryPoint
    header.referenced (RowCounts.ofPairs rows))) (.pure _)
  rwa [Array.append_empty, hrows] at this

/-- The stream is read from the bytes that it is written as and from no others, whatever stands behind
them. -/
theorem lossless (header : PdbHeader) :
    (∀ data, read data = .ok header → header.encode = data.extract 0 header.encodedSize) ∧
    (header.Formed → ∀ back, read (header.encode ++ back) = .ok header) ∧
    header.encode.size = header.encodedSize ∧ header.encode.size % 4 = 0 := by
  refine ⟨fun data h => ?_, read_encode, header.size_encode, header.size_encode_mod.1⟩
  obtain ⟨next, h⟩ := Reader.run_eq_ok.mp h
  have hpassed := (passed_of_reader h).1
  have hsize := hpassed.size
  rw [Nat.zero_add, size_encode] at hsize
  rw [hsize, hpassed.extract]

/-- A PDB of an image with three types and twelve methods, the second of them its entry point. -/
def twelveMethods : PdbHeader where
  id := Vector.replicate 20 0x42
  entryPoint := ⟨0x06000002⟩
  referenced := 0x44
  rows := RowCounts.ofPairs [(2, 3), (6, 12)]

/-- Of the bytes behind the two counts nothing is read. -/
theorem lossless_twelveMethods : twelveMethods.Formed ∧ twelveMethods.encodedSize = 40 ∧
    read (twelveMethods.encode ++ #[7, 7]) = .ok twelveMethods ∧
    (twelveMethods.encode ++ #[7, 7]).extract 0 40 = twelveMethods.encode := by
  have hformed : twelveMethods.Formed := by
    unfold Formed
    decide +kernel
  obtain ⟨hwritten, hread, -⟩ := lossless twelveMethods
  have hback := hread hformed #[7, 7]
  exact ⟨hformed, by decide +kernel, hback, (hwritten _ hback).symm⟩

end CliImage.PdbHeader
