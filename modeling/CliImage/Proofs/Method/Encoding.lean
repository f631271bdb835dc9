import CliImage.Proofs.Method.Body

/-! A body that is encoded around its code: whether it gets the short header, and what is read from
it in front of any other bytes. -/

namespace CliImage.Body

variable {code encoded more : Bytes} {maxStack : UInt16} {w : Window}

lemma exists_encode (h : code.size < 2 ^ 32) (maxStack : UInt16) :
    ∃ encoded, encode code maxStack = .ok encoded := by
  unfold encode
  rw [if_pos h]
  split <;> exact ⟨_, rfl⟩

/-- An encoded body has no bytes but those of its header and its code. -/
lemma size_encode (h : encode code maxStack = .ok encoded) :
    encoded.size = (encodedBody code maxStack).totalSize := by
  unfold encode at h
  rw [encodedBody]
  split at h
  · rename_i htiny
    cases h
    rw [if_pos htiny, Array.size_append, Nat.add_comm]
    rfl
  · rename_i hlong
    split at h
    · cases h
      rw [if_neg hlong]
      simp only [Array.size_append, Bytes.size_ofNat, Bytes.size_ofUInt16, Bytes.size_zeros]
      exact Nat.add_comm ..
    · cases h

lemma standsAt_of_append (h : w.toBytes = encoded ++ more) :
    w.data.StandsAt w.start encoded ∧ encoded.size ≤ w.size := by
  have hstands := Bytes.standsAt_extract w.start_le_stop w.stop_le_size
  rw [← Window.toBytes, h] at hstands
  have hsize := w.size_toBytes
  rw [h, Array.size_append] at hsize
  exact ⟨hstands.left, by omega⟩

/-- A body that holds a code and nothing else, its header the short one where code and stack allow.
The short header gives every code a stack of eight. -/
structure Wraps (body : Body) (code : Bytes) (maxStack : UInt16) : Prop where
  locals : body.localsToken = ⟨0⟩ ∧ body.initLocals = false
  sections : body.sectionSize = 0
  clauses : body.clauses = []
  isTiny_iff : body.isFat = false ↔ code.size ≤ 63 ∧ maxStack.toNat ≤ 8
  fatStack : body.isFat = true → body.maxStack = maxStack.toNat
  tinyStack : body.isFat = false → body.maxStack = 8
  stack_le : maxStack.toNat ≤ body.maxStack

lemma wraps_encodedBody (code : Bytes) (maxStack : UInt16) :
    (encodedBody code maxStack).Wraps code maxStack := by
  unfold encodedBody
  split
  · rename_i htiny
    exact ⟨⟨rfl, rfl⟩, rfl, rfl, iff_of_true rfl htiny, nofun, fun _ => rfl, htiny.2⟩
  · rename_i hlong
    exact ⟨⟨rfl, rfl⟩, rfl, rfl, iff_of_false (Bool.noConfusion ·) hlong, fun _ => rfl, nofun, le_rfl⟩

/-- Every code that a header can describe is encoded, and read back whatever stands behind it. -/
theorem exists_encode_wraps (h : code.size ≤ 2 ^ 32 - 1) (maxStack : UInt16) :
    ∃ encoded, encode code maxStack = .ok encoded ∧
      ∀ (w : Window) (more : Bytes), w.toBytes = encoded ++ more →
        ∃ body, read w = .ok body ∧ body.code w = .ok code ∧ body.totalSize = encoded.size ∧
          body.Wraps code maxStack := by
  have hlt : code.size < 2 ^ 32 := by omega
  obtain ⟨encoded, hencode⟩ := exists_encode hlt maxStack
  refine ⟨encoded, hencode, fun w more happend => ?_⟩
  obtain ⟨hstands, hsize⟩ := standsAt_of_append happend
  obtain ⟨hread, hcode⟩ := read_encode hencode hstands hsize
  exact ⟨_, hread, hcode, (size_encode hencode).symm, wraps_encodedBody code maxStack⟩

/-- As much code as a short header can describe. -/
def longestTiny : Bytes := Bytes.zeros 63

/-- The same code with a stack of eight and of nine. -/
theorem exists_encode_wraps_longestTiny : longestTiny.size ≤ 2 ^ 32 - 1 ∧
    (∃ encoded body, encode longestTiny 8 = .ok encoded ∧ encoded.size = 64 ∧
      read (encoded ++ #[0xCC] : Bytes) = .ok body ∧ body.isFat = false ∧
      body.Wraps longestTiny 8) ∧
    ∃ encoded body, encode longestTiny 9 = .ok encoded ∧ encoded.size = 75 ∧
      read (encoded ++ #[0xCC] : Bytes) = .ok body ∧ body.isFat = true ∧ body.maxStack = 9 ∧
      body.Wraps longestTiny 9 := by
  have hsize : longestTiny.size ≤ 2 ^ 32 - 1 := by decide +kernel
  obtain ⟨tiny, htiny, hreadTiny⟩ := exists_encode_wraps hsize 8
  obtain ⟨fat, hfat, hreadFat⟩ := exists_encode_wraps hsize 9
  obtain ⟨body, hbody, -, -, hwraps⟩ := hreadTiny (tiny ++ #[0xCC] : Bytes) #[0xCC] (by simp)
  obtain ⟨body', hbody', -, -, hwraps'⟩ := hreadFat (fat ++ #[0xCC] : Bytes) #[0xCC] (by simp)
  have hisTiny : body.isFat = false := hwraps.isTiny_iff.mpr ⟨by decide +kernel, by decide⟩
  have hisFat : body'.isFat = true := by
    rw [← Bool.not_eq_false, hwraps'.isTiny_iff]
    exact fun h => absurd h.2 (by decide)
  refine ⟨hsize, ⟨tiny, body, htiny, ?_, hbody, hisTiny, hwraps⟩,
    fat, body', hfat, ?_, hbody', hisFat, hwraps'.fatStack hisFat, hwraps'⟩
  · rw [size_encode htiny]
    decide +kernel
  · rw [size_encode hfat]
    decide +kernel

end CliImage.Body
