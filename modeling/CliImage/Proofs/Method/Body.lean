import CliImage.Method.Body
import CliImage.Proofs.Bytes
import CliImage.Proofs.Result

/-! What reading a method body looks at: its header and the sections behind its code. -/

namespace CliImage

namespace Window

variable {w w' : Window} {p : Nat → Prop}

/-- Windows of one size that hold the same bytes at certain offsets. -/
structure Agree (w w' : Window) (p : Nat → Prop) : Prop where
  size : w'.size = w.size
  byte : ∀ k, p k → w'.data[w'.start + k]? = w.data[w.start + k]?

lemma Agree.byteAt (h : Agree w w' p) {k : Nat} (hk : p k) : w'.byteAt k = w.byteAt k := by
  rw [Window.byteAt, Window.byteAt, Array.getD_eq_getD_getElem?, Array.getD_eq_getD_getElem?,
    h.byte k hk]

lemma Agree.natAt (h : Agree w w' p) {offset n : Nat} (hp : ∀ k < n, p (offset + k)) :
    w'.natAt offset n = w.natAt offset n :=
  Bytes.natAt_congr fun k hk => by
    have := h.byte _ (hp k hk)
    rwa [← Nat.add_assoc, ← Nat.add_assoc] at this

end Window

namespace Body

variable {w w' : Window} {p : Nat → Prop} {cursor stop last : Nat} {found clauses : Array Clause}

lemma smallClause_congr (h : w.Agree w' p) {start : Nat} (hp : ∀ k < 12, p (start + k)) :
    smallClause w' start = smallClause w start := by
  have hnat (offset n : Nat) (hle : offset + n ≤ 12) :
      w'.natAt (start + offset) n = w.natAt (start + offset) n := by
    refine h.natAt fun k hk => ?_
    rw [Nat.add_assoc]
    exact hp _ (by omega)
  have hzero := hnat 0 2 (by decide)
  rw [Nat.add_zero] at hzero
  rw [smallClause, smallClause, hzero, hnat 2 2 (by decide), hnat 4 1 (by decide),
    hnat 5 2 (by decide), hnat 7 1 (by decide), hnat 8 4 (by decide)]

lemma fatClause_congr (h : w.Agree w' p) {start : Nat} (hp : ∀ k < 24, p (start + k)) :
    fatClause w' start = fatClause w start := by
  have hnat (offset n : Nat) (hle : offset + n ≤ 24) :
      w'.natAt (start + offset) n = w.natAt (start + offset) n := by
    refine h.natAt fun k hk => ?_
    rw [Nat.add_assoc]
    exact hp _ (by omega)
  have hzero := hnat 0 4 (by decide)
  rw [Nat.add_zero] at hzero
  rw [fatClause, fatClause, hzero, hnat 4 4 (by decide), hnat 8 4 (by decide),
    hnat 12 4 (by decide), hnat 16 4 (by decide), hnat 20 4 (by decide)]

lemma sectionClauses_congr (h : w.Agree w' p) {start size : Nat} (hsize : 4 ≤ size)
    (hp : ∀ k < size, p (start + k)) (fat : Bool) :
    sectionClauses w' start size fat = sectionClauses w start size fat := by
  have hin (n k : Nat) (hn : 0 < n) (i : Nat) (hi : i < (size - 4) / n) (hk : k < n) :
      p (start + 4 + n * i + k) := by
    have hmul : n * (i + 1) ≤ size - 4 :=
      (Nat.mul_le_mul_left n hi).trans (Nat.mul_div_le (size - 4) n)
    rw [Nat.mul_succ] at hmul
    have := hp (4 + n * i + k) (by omega)
    rwa [← Nat.add_assoc, ← Nat.add_assoc] at this
  unfold sectionClauses
  cases fat with
  | true =>
    refine List.map_congr_left fun i hi => fatClause_congr h fun k hk => ?_
    exact hin 24 k (by decide) i (List.mem_range.mp hi) hk
  | false =>
    refine List.map_congr_left fun i hi => smallClause_congr h fun k hk => ?_
    exact hin 12 k (by decide) i (List.mem_range.mp hi) hk

/-- A chain of sections ends where it starts or behind that, and its bytes are in the window. -/
lemma le_of_readSections (hle : stop ≤ cursor)
    (h : readSections w cursor stop found = .ok (clauses, last)) :
    stop ≤ last ∧ (last = stop ∨ last ≤ w.size) := by
  fun_induction readSections w cursor stop found with
  | case1 => cases h
  | case2 cursor stop found hcursor hflags hlength stop' found' hmore =>
    obtain ⟨-, rfl⟩ := Prod.mk.inj (Except.ok.inj h)
    exact ⟨by omega, .inr hlength.2⟩
  | case3 cursor stop found hcursor hflags hlength stop' found' hmore ih =>
    obtain ⟨hlast, hend⟩ := ih (le_alignUp _ (by decide)) h
    exact ⟨by omega, .inr (by omega)⟩
  | case4 => cases h
  | case5 =>
    cases h
    exact ⟨le_rfl, .inl rfl⟩

/-- What reading takes from a section. -/
lemma section_congr (h : w.Agree w' p) (hlength : 4 ≤ sectionLength w cursor)
    (hp : ∀ k < sectionLength w cursor, p (cursor + k)) :
    sectionFlags w' cursor = sectionFlags w cursor ∧
      sectionIsFat w' cursor = sectionIsFat w cursor ∧
      sectionLength w' cursor = sectionLength w cursor ∧
      ∀ fat, sectionClauses w' cursor (sectionLength w cursor) fat =
        sectionClauses w cursor (sectionLength w cursor) fat := by
  have hflags : sectionFlags w' cursor = sectionFlags w cursor := by
    rw [sectionFlags, sectionFlags, h.byteAt (k := cursor) (hp 0 (by omega))]
  have hfat : sectionIsFat w' cursor = sectionIsFat w cursor := by
    rw [sectionIsFat, sectionIsFat, hflags]
  refine ⟨hflags, hfat, ?_, sectionClauses_congr h hlength hp⟩
  rw [sectionLength, sectionLength, hfat]
  refine h.natAt fun k hk => ?_
  rw [Nat.add_assoc]
  exact hp _ (by split at hk <;> omega)

lemma readSections_congr (h : w.Agree w' p) (hle : stop ≤ cursor)
    (hread : readSections w cursor stop found = .ok (clauses, last))
    (hp : ∀ k, cursor ≤ k → k < last → p k) :
    readSections w' cursor stop found = .ok (clauses, last) := by
  fun_induction readSections w cursor stop found with
  | case1 => cases hread
  | case4 => cases hread
  | case5 cursor stop found hcursor =>
    rw [readSections, if_neg (by rwa [h.size])]
    exact hread
  | case2 cursor stop found hcursor hflags hlength stop' found' hmore =>
    obtain ⟨rfl, rfl⟩ := Prod.mk.inj (Except.ok.inj hread)
    obtain ⟨hflags', hfat, hlength', hclauses⟩ := section_congr h hlength.1 fun k hk =>
      hp _ (Nat.le_add_right ..) (by omega)
    rw [readSections, if_pos (by rwa [h.size]), hflags', if_neg hflags, hlength', h.size,
      dif_pos hlength, hfat, hclauses, if_pos hmore]
  | case3 cursor stop found hcursor hflags hlength stop' found' hmore ih =>
    have halign : stop' ≤ alignUp stop' 4 := le_alignUp _ (by decide)
    have hstop : stop' ≤ last := (le_of_readSections halign hread).1
    obtain ⟨hflags', hfat, hlength', hclauses⟩ := section_congr h hlength.1 fun k hk =>
      hp _ (Nat.le_add_right ..) (by omega)
    rw [readSections, if_pos (by rwa [h.size]), hflags', if_neg hflags, hlength', h.size,
      dif_pos hlength, hfat, hclauses, if_neg hmore]
    exact ih halign hread fun k hk => hp k (by omega)

variable {body : Body}

def longHeaderSize (w : Window) : Nat := w.natAt 0 2 / 4096 * 4

def longCodeEnd (w : Window) : Nat := longHeaderSize w + w.natAt 4 4

def longSections (w : Window) : Result (Array Clause × Nat) :=
  if (w.natAt 0 2).testBit 3 then
    readSections w (alignUp (longCodeEnd w) 4) (longCodeEnd w) #[]
  else .ok (#[], longCodeEnd w)

def longBody (w : Window) (clauses : Array Clause) (last : Nat) : Body where
  codeSize := w.natAt 4 4
  headerSize := longHeaderSize w
  sectionSize := last - longCodeEnd w
  localsToken := ⟨UInt32.ofNat (w.natAt 8 4)⟩
  maxStack := w.natAt 2 2
  isFat := true
  initLocals := (w.natAt 0 2).testBit 4
  clauses := clauses.toList

/-- What a long header says is in its first twelve bytes. -/
lemma longHeader_congr (h : ∀ offset n, offset + n ≤ 12 → w'.natAt offset n = w.natAt offset n) :
    longHeaderSize w' = longHeaderSize w ∧ longCodeEnd w' = longCodeEnd w ∧
      ∀ clauses last, longBody w' clauses last = longBody w clauses last := by
  have hheader : longHeaderSize w' = longHeaderSize w := by
    rw [longHeaderSize, h 0 2 (by decide), longHeaderSize]
  have hend : longCodeEnd w' = longCodeEnd w := by
    rw [longCodeEnd, hheader, h 4 4 (by decide), longCodeEnd]
  refine ⟨hheader, hend, fun clauses last => ?_⟩
  rw [longBody, longBody, hheader, hend, h 4 4 (by decide), h 8 4 (by decide),
    h 2 2 (by decide), h 0 2 (by decide)]

lemma finishLong_eq_ok {last : Nat} :
    ((match clauses.find? fun clause => ¬ clause.Fits (w.natAt 4 4) with
      | some clause => throw (.fault (.bodyClause clause (w.natAt 4 4)))
      | none => .ok (longBody w clauses last) : Result Body) = .ok body) ↔
      clauses.find? (fun clause => ¬ clause.Fits (w.natAt 4 4)) = none ∧
        body = longBody w clauses last := by
  cases clauses.find? fun clause => ¬ clause.Fits (w.natAt 4 4) <;> simp [eq_comm]

/-- The parts that a body with a long header is read from. -/
lemma readFat_eq_ok : readFat w = .ok body ↔
    12 ≤ w.size ∧ 12 ≤ longHeaderSize w ∧ longCodeEnd w ≤ w.size ∧ ∃ clauses last,
      longSections w = .ok (clauses, last) ∧
        clauses.find? (fun clause => ¬ clause.Fits (w.natAt 4 4)) = none ∧
        body = longBody w clauses last := by
  unfold readFat
  rw [Result.unless_throw_eq_ok, Result.unless_throw_eq_ok, Result.unless_throw_eq_ok, Nat.not_lt,
    Nat.not_lt, Nat.not_lt]
  refine and_congr_right fun _ => and_congr_right fun _ => and_congr_right fun _ => ?_
  rw [longSections, longCodeEnd, longHeaderSize]
  cases (w.natAt 0 2).testBit 3 with
  | true =>
    rw [if_pos rfl, if_pos rfl, Result.bind_eq_ok]
    constructor
    · rintro ⟨⟨clauses, last⟩, hsections, h⟩
      exact ⟨clauses, last, hsections, finishLong_eq_ok.mp h⟩
    · rintro ⟨clauses, last, hsections, h⟩
      exact ⟨(clauses, last), hsections, finishLong_eq_ok.mpr h⟩
  | false =>
    rw [if_neg (by decide), if_neg (by decide), Result.pure_eq, Result.ok_bind]
    constructor
    · intro h
      exact ⟨_, _, rfl, finishLong_eq_ok.mp h⟩
    · rintro ⟨clauses, last, hsections, h⟩
      obtain ⟨rfl, rfl⟩ := Prod.mk.inj (Except.ok.inj hsections)
      exact finishLong_eq_ok.mpr h

lemma le_of_longSections {clauses : Array Clause} {last : Nat} (hend : longCodeEnd w ≤ w.size)
    (h : longSections w = .ok (clauses, last)) : longCodeEnd w ≤ last ∧ last ≤ w.size := by
  unfold longSections at h
  split at h
  · obtain ⟨hle, hlast⟩ := le_of_readSections (le_alignUp _ (by decide)) h
    exact ⟨hle, by omega⟩
  · obtain ⟨-, rfl⟩ := Prod.mk.inj (Except.ok.inj h)
    exact ⟨le_rfl, hend⟩

lemma readTiny_eq_ok {lead : UInt8} : readTiny w lead = .ok body ↔ lead.toNat / 4 + 1 ≤ w.size ∧
    body = ⟨lead.toNat / 4, 1, 0, ⟨0⟩, tinyMaxStack, false, false, []⟩ := by
  unfold readTiny
  simp only
  split
  · simp
    omega
  · simp [eq_comm]
    omega

lemma read_eq_ok : read w = .ok body ↔ w.size ≠ 0 ∧
    (w.byteAt 0 % 4 = 2 ∧ readTiny w (w.byteAt 0) = .ok body ∨
      w.byteAt 0 % 4 = 3 ∧ readFat w = .ok body) := by
  unfold read
  simp only
  split
  · simp [*]
  · split
    · rename_i hne htiny
      simp [hne, htiny]
    · rename_i hne htiny
      split <;> simp [*]

/-- A body that has been read lies in the window, its header in front. -/
lemma bounds_of_read (h : read w = .ok body) :
    1 ≤ body.headerSize ∧ body.size ≤ body.totalSize ∧ body.totalSize ≤ w.size := by
  obtain ⟨-, ⟨-, h⟩ | ⟨-, h⟩⟩ := read_eq_ok.mp h
  · obtain ⟨hsize, rfl⟩ := readTiny_eq_ok.mp h
    exact ⟨le_rfl, le_rfl, hsize⟩
  · obtain ⟨-, hheader, hend, clauses, last, hsections, -, rfl⟩ := readFat_eq_ok.mp h
    obtain ⟨hle, hlast⟩ := le_of_longSections hend hsections
    refine ⟨?_, Nat.le_add_right .., ?_⟩
    · rw [longBody]
      simp only
      omega
    · rw [totalSize, Body.size, longBody]
      simp only
      rw [longCodeEnd] at hle ⊢
      omega

/-- A long header that has been read is as long as it says, twelve bytes at least. -/
lemma le_longHeaderSize (h : read w = .ok body) (hlead : w.natAt 0 2 % 4 = 3) :
    12 ≤ longHeaderSize w := by
  obtain ⟨-, ⟨htiny, -⟩ | ⟨-, hfat⟩⟩ := read_eq_ok.mp h
  · have hbyte := congrArg UInt8.toNat htiny
    rw [UInt8.toNat_mod] at hbyte
    change (w.byteAt 0).toNat % 4 = 2 at hbyte
    change ((w.byteAt 0).toNat + 256 * _) % 4 = 3 at hlead
    omega
  · exact (readFat_eq_ok.mp hfat).2.1

/-- A body is read back from any bytes with its header and its sections. -/
theorem read_congr (h : read w = .ok body)
    (hw : w.Agree w' fun k => k < body.headerSize ∨ body.size ≤ k ∧ k < body.totalSize) :
    read w' = .ok body := by
  obtain ⟨hheader, -, -⟩ := bounds_of_read h
  have hlead : w'.byteAt 0 = w.byteAt 0 := hw.byteAt (.inl hheader)
  obtain ⟨hne, ⟨htiny, h⟩ | ⟨hfat, h⟩⟩ := read_eq_ok.mp h
  · refine read_eq_ok.mpr ⟨by rwa [hw.size], .inl ⟨by rwa [hlead], ?_⟩⟩
    rw [hlead]
    refine readTiny_eq_ok.mpr ?_
    rw [hw.size]
    exact readTiny_eq_ok.mp h
  · refine read_eq_ok.mpr ⟨by rwa [hw.size], .inr ⟨by rwa [hlead], readFat_eq_ok.mpr ?_⟩⟩
    obtain ⟨hsize, hlong, hend, clauses, last, hsections, hclauses, hbody⟩ := readFat_eq_ok.mp h
    obtain ⟨hle, -⟩ := le_of_longSections hend hsections
    have hheaderEq : body.headerSize = longHeaderSize w := by rw [hbody, longBody]
    have hcodeEnd : body.size = longCodeEnd w := by
      rw [hbody, Body.size, longBody, longCodeEnd, Nat.add_comm]
    have htotal : body.totalSize = last := by
      rw [totalSize, hcodeEnd, hbody, longBody]
      simp only
      omega
    have hnat (offset n : Nat) (hin : offset + n ≤ 12) : w'.natAt offset n = w.natAt offset n :=
      hw.natAt fun k hk => .inl (by omega)
    obtain ⟨hheader', hcodeEnd', hlongBody⟩ := longHeader_congr hnat
    have hsections' : longSections w' = .ok (clauses, last) := by
      unfold longSections at hsections ⊢
      rw [hnat 0 2 (by decide), hcodeEnd']
      split at hsections
      · rename_i hbit
        rw [if_pos hbit]
        have halign := le_alignUp (longCodeEnd w) (show 0 < 4 by decide)
        exact readSections_congr hw halign hsections fun k hk hk' => .inr (by omega)
      · rename_i hbit
        rw [if_neg hbit]
        exact hsections
    exact ⟨by rwa [hw.size], by rwa [hheader'], by rwa [hcodeEnd', hw.size], clauses, last,
      hsections', by rwa [hnat 4 4 (by decide)], by rw [hbody, hlongBody]⟩

variable {code encoded : Bytes} {maxStack : UInt16}

/-- What an encoded body is read as. -/
def encodedBody (code : Bytes) (maxStack : UInt16) : Body :=
  if code.size ≤ tinyMaxCode ∧ maxStack.toNat ≤ tinyMaxStack then
    ⟨code.size, 1, 0, ⟨0⟩, tinyMaxStack, false, false, []⟩
  else ⟨code.size, 12, 0, ⟨0⟩, maxStack.toNat, true, false, []⟩

lemma code_eq_ok (hsize : body.size ≤ w.size) (hbody : body.size = body.headerSize + code.size)
    (hstands : w.data.StandsAt (w.start + body.headerSize) code) : body.code w = .ok code := by
  rw [Body.code, if_pos hsize, Window.extract, hbody, ← Nat.add_assoc, hstands.extract]

lemma standsAt_code (h : body.code w = .ok code) : code.size = body.codeSize ∧
    w.data.StandsAt (w.start + body.headerSize) code := by
  simp only [Body.code] at h
  split at h
  · rename_i hsize
    cases h
    have hstop := w.stop_le_size
    have hstart := w.start_le_stop
    simp only [Window.size, Body.size] at hsize
    refine ⟨?_, Bytes.standsAt_extract ?_ ?_⟩
    · simp only [Window.extract, Array.size_extract, Body.size]
      omega
    · simp only [Body.size]
      omega
    · simp only [Body.size]
      omega
  · cases h

/-- A body that has been encoded is read back, whatever stands behind it. -/
theorem read_encode (h : encode code maxStack = .ok encoded)
    (hstands : w.data.StandsAt w.start encoded) (hsize : encoded.size ≤ w.size) :
    read w = .ok (encodedBody code maxStack) ∧
      (encodedBody code maxStack).code w = .ok code := by
  unfold encode at h
  rw [encodedBody]
  split at h
  · rename_i htiny
    cases h
    rw [if_pos htiny]
    rw [Array.size_append, List.size_toArray, List.length_singleton] at hsize
    have hlead : w.byteAt 0 = UInt8.ofNat (code.size * 4 + 2) := by
      have := hstands.left.getElem? (i := 0) (by simp)
      rw [Window.byteAt, Array.getD_eq_getD_getElem?, this]
      rfl
    have hnat : (w.byteAt 0).toNat = code.size * 4 + 2 := by
      have := htiny.1
      rw [hlead, UInt8.toNat_ofNat', Nat.mod_eq_of_lt]
      rw [tinyMaxCode] at this
      omega
    refine ⟨read_eq_ok.mpr ⟨by omega, .inl ⟨?_, readTiny_eq_ok.mpr ⟨by omega, ?_⟩⟩⟩, ?_⟩
    · refine UInt8.toNat_inj.mp ?_
      rw [UInt8.toNat_mod, hnat]
      show (code.size * 4 + 2) % 4 = 2
      omega
    · rw [hnat, show (code.size * 4 + 2) / 4 = code.size by omega]
    · exact code_eq_ok (show code.size + 1 ≤ w.size by omega) (Nat.add_comm ..) hstands.right
  · split at h
    · rename_i hlong hfit
      cases h
      rw [if_neg hlong]
      simp only [Array.size_append, Bytes.size_ofNat, Bytes.size_ofUInt16, Bytes.size_zeros] at hsize
      have hzero : w.data.natAt (w.start + 0) 2 = 0x3003 :=
        hstands.left.left.left.left.natAt_ofNat (by decide)
      have hstack : w.data.natAt (w.start + 2) 2 = maxStack.toNat := by
        have := hstands.left.left.left.right
        rw [Bytes.size_ofNat] at this
        exact this.natAt_ofNat maxStack.toNat_lt
      have hcodeSize : w.data.natAt (w.start + 4) 4 = code.size := by
        have := hstands.left.left.right
        simp only [Array.size_append, Bytes.size_ofNat, Bytes.size_ofUInt16] at this
        exact this.natAt_ofNat (by omega)
      have hlocals : w.data.natAt (w.start + 8) 4 = 0 := by
        have := hstands.left.right
        simp only [Array.size_append, Bytes.size_ofNat, Bytes.size_ofUInt16] at this
        exact this.natAt_ofNat (n := 0) (by decide)
      have hlead : w.byteAt 0 = 3 := by
        have := hstands.left.left.left.left.getElem? (i := 0) (by simp)
        rw [Window.byteAt, Array.getD_eq_getD_getElem?, this]
        rfl
      have hheader : longHeaderSize w = 12 := by
        rw [longHeaderSize, Window.natAt, hzero]
      have hend : longCodeEnd w = 12 + code.size := by
        rw [longCodeEnd, hheader, Window.natAt, hcodeSize]
      have hsections : longSections w = .ok (#[], 12 + code.size) := by
        rw [longSections, Window.natAt, hzero, if_neg (by decide), hend]
      refine ⟨read_eq_ok.mpr ⟨by omega, .inr ⟨by rw [hlead]; rfl, readFat_eq_ok.mpr
        ⟨by omega, by omega, by omega, #[], _, hsections, rfl, ?_⟩⟩⟩, ?_⟩
      · rw [longBody, hheader, hend, Window.natAt, Window.natAt, Window.natAt, Window.natAt, hzero,
          hstack, hcodeSize, hlocals, Nat.sub_self]
        rfl
      · have hcode := hstands.right
        simp only [Array.size_append, Bytes.size_ofNat, Bytes.size_ofUInt16, Bytes.size_zeros]
          at hcode
        exact code_eq_ok (show code.size + 12 ≤ w.size by omega) (Nat.add_comm ..) hcode
    · cases h

end Body

end CliImage
