import CliImage.Proofs.Method.Body

/-! A method body that is read stays inside its window: the loop over its sections comes to an end,
and header, code, sections and clauses lie where there are bytes. -/

namespace CliImage

namespace Window

variable {w w' : Window} {more : Bytes}

/-- What a window holds is still there where more bytes follow. -/
lemma natAt_of_append (h : w'.toBytes = w.toBytes ++ more) {offset n : Nat}
    (hn : offset + n ≤ w.size) : w'.natAt offset n = w.natAt offset n := by
  have hsize : w.size ≤ w'.size := by
    rw [← size_toBytes w', h, Array.size_append, size_toBytes]
    omega
  rw [← natAt_toBytes w' (hn.trans hsize), h, Bytes.natAt_append (by rwa [size_toBytes]),
    natAt_toBytes w hn]

lemma size_of_append (h : w'.toBytes = w.toBytes ++ more) : w'.size = w.size + more.size := by
  rw [← size_toBytes w', h, Array.size_append, size_toBytes]

lemma byteAt_eq (w : Window) (offset : Nat) : (w.byteAt offset).toNat = w.natAt offset 1 := by
  simp [byteAt, natAt, Bytes.natAt]

lemma byteAt_of_append (h : w'.toBytes = w.toBytes ++ more) {offset : Nat}
    (hlt : offset < w.size) : w'.byteAt offset = w.byteAt offset := by
  rw [← UInt8.toNat_inj, byteAt_eq, byteAt_eq, natAt_of_append h hlt]

end Window

namespace Body

variable {w w' : Window} {cursor stop last : Nat} {found clauses : Array Clause} {body : Body}

/-- Reads the sections from `cursor` on in so many turns, one for each section and one to see that
there is none; nothing where the turns do not suffice. -/
def sectionsWithin (w : Window) :
    (turns cursor stop : Nat) → Array Clause → Option (Result (Array Clause × Nat))
  | 0, _, _, _ => none
  | turns + 1, cursor, stop, found =>
    if cursor + 4 ≤ w.size then
      if sectionFlags w cursor &&& 0x01 = 0 then
        some (.error (.fault (.bodySection (sectionFlags w cursor))))
      else if 4 ≤ sectionLength w cursor ∧ cursor + sectionLength w cursor ≤ w.size then
        let stop := cursor + sectionLength w cursor
        let found := found
          ++ sectionClauses w cursor (sectionLength w cursor) (sectionIsFat w cursor)
        if sectionFlags w cursor &&& 0x80 = 0 then some (.ok (found, stop))
        else sectionsWithin w turns (alignUp stop 4) stop found
      else some (.error .outOfBounds)
    else some (.ok (found, stop))

/-- A turn that goes on has moved by four bytes, so a turn for each four bytes is enough. -/
lemma sectionsWithin_eq {turns : Nat} (h : w.size < cursor + 4 * turns + 4) :
    sectionsWithin w (turns + 1) cursor stop found = some (readSections w cursor stop found) := by
  induction turns generalizing cursor stop found with
  | zero => rw [sectionsWithin, readSections, if_neg (by omega), if_neg (by omega)]
  | succ turns ih =>
    rw [sectionsWithin, readSections]
    split_ifs with hcursor hflags hlength hlast
    · rfl
    · rfl
    · have := le_alignUp (cursor + sectionLength w cursor) (show 0 < 4 by decide)
      exact ih (by omega)
    · rfl
    · rfl

/-- How many clauses a section has room for behind its first four bytes. -/
lemma length_sectionClauses_le (w : Window) (start size : Nat) (fat : Bool) :
    (sectionClauses w start size fat).length * 12 ≤ size - 4 := by
  unfold sectionClauses
  cases fat <;>
    simp only [if_true, Bool.false_eq_true, if_false, List.length_map, List.length_range] <;> omega

lemma size_append_list {α : Type} (xs : Array α) (ys : List α) :
    (xs ++ ys).size = xs.size + ys.length := by
  rw [← Array.length_toList, Array.toList_appendList, List.length_append, Array.length_toList]

/-- A chain of sections has a clause for twelve of its bytes at most. -/
lemma size_le_of_readSections (hle : stop ≤ cursor)
    (h : readSections w cursor stop found = .ok (clauses, last)) :
    clauses.size * 12 + stop ≤ found.size * 12 + last := by
  fun_induction readSections w cursor stop found with
  | case1 => cases h
  | case2 cursor stop found hcursor hflags hlength stop' found' hmore =>
    obtain ⟨rfl, rfl⟩ := Prod.mk.inj (Except.ok.inj h)
    have := length_sectionClauses_le w cursor (sectionLength w cursor) (sectionIsFat w cursor)
    have hsize : found'.size = found.size + _ := size_append_list ..
    omega
  | case3 cursor stop found hcursor hflags hlength stop' found' hmore ih =>
    have := length_sectionClauses_le w cursor (sectionLength w cursor) (sectionIsFat w cursor)
    have hsize : found'.size = found.size + _ := size_append_list ..
    have hrest := ih (le_alignUp _ (by decide)) h
    omega
  | case4 => cases h
  | case5 =>
    cases h
    exact le_rfl

lemma length_clauses_le (h : read w = .ok body) :
    body.clauses.length ≤ body.sectionSize / 12 := by
  rw [Nat.le_div_iff_mul_le (by decide)]
  obtain ⟨-, ⟨-, h⟩ | ⟨-, h⟩⟩ := read_eq_ok.mp h
  · obtain ⟨-, rfl⟩ := readTiny_eq_ok.mp h
    exact Nat.zero_le _
  · obtain ⟨-, -, -, clauses, last, hsections, -, rfl⟩ := readFat_eq_ok.mp h
    change clauses.toList.length * 12 ≤ last - longCodeEnd w
    rw [Array.length_toList]
    unfold longSections at hsections
    split at hsections
    · have := size_le_of_readSections (le_alignUp _ (by decide)) hsections
      rw [Array.size_empty] at this
      omega
    · obtain ⟨rfl, -⟩ := Prod.mk.inj (Except.ok.inj hsections)
      exact Nat.zero_le _

lemma fits_of_read (h : read w = .ok body) :
    ∀ clause ∈ body.clauses, clause.Fits body.codeSize := by
  obtain ⟨-, ⟨-, h⟩ | ⟨-, h⟩⟩ := read_eq_ok.mp h
  · obtain ⟨-, rfl⟩ := readTiny_eq_ok.mp h
    exact List.forall_mem_nil _
  · obtain ⟨-, -, -, clauses, last, -, hfits, rfl⟩ := readFat_eq_ok.mp h
    intro clause hclause
    change clause.Fits (w.natAt 4 4)
    simpa using Array.find?_eq_none.mp hfits clause (Array.mem_toList_iff.mp hclause)

lemma exists_code (h : read w = .ok body) :
    ∃ code, body.code w = .ok code ∧ code.size = body.codeSize := by
  obtain ⟨-, hsize, htotal⟩ := bounds_of_read h
  have hcode : body.code w = .ok (w.extract body.headerSize body.size) :=
    if_pos (hsize.trans htotal)
  exact ⟨_, hcode, (standsAt_code hcode).1⟩

/-- The header says that sections follow the code. -/
def hasMoreSections (w : Window) : Bool := w.byteAt 0 % 4 == 3 && (w.natAt 0 2).testBit 3

/-- Without sections a body ends with its code: what stands behind that is not looked at. -/
lemma read_of_append {more : Bytes} (h : read w = .ok body) (hsections : hasMoreSections w = false)
    (happend : w'.toBytes = w.toBytes ++ more) : read w' = .ok body := by
  have hsize := Window.size_of_append happend
  obtain ⟨hne, hkind⟩ := read_eq_ok.mp h
  have hlead : w'.byteAt 0 = w.byteAt 0 := Window.byteAt_of_append happend (Nat.pos_of_ne_zero hne)
  refine read_eq_ok.mpr ⟨by omega, ?_⟩
  rw [hlead]
  refine hkind.imp (And.imp_right fun h => ?_) fun ⟨hfat, h⟩ => ⟨hfat, ?_⟩
  · obtain ⟨hle, rfl⟩ := readTiny_eq_ok.mp h
    exact readTiny_eq_ok.mpr ⟨by omega, rfl⟩
  · obtain ⟨hheaderLe, hlong, hend, clauses, last, hlast, hfits, rfl⟩ := readFat_eq_ok.mp h
    have hbit : (w.natAt 0 2).testBit 3 = false := by simpa [hasMoreSections, hfat] using hsections
    have hnat (offset n : Nat) (hin : offset + n ≤ 12) : w'.natAt offset n = w.natAt offset n :=
      Window.natAt_of_append happend (hin.trans hheaderLe)
    obtain ⟨hheader, hcodeEnd, hlongBody⟩ := longHeader_congr hnat
    have hlast' : longSections w' = .ok (clauses, last) := by
      rw [longSections, hnat 0 2 (by decide), hcodeEnd, if_neg (by rw [hbit]; decide)]
      rwa [longSections, if_neg (by rw [hbit]; decide)] at hlast
    exact readFat_eq_ok.mpr ⟨by omega, by rwa [hheader], by omega, clauses, last, hlast',
      by rwa [hnat 4 4 (by decide)], (hlongBody clauses last).symm⟩

/-- What a body that has been read takes from its window, and what it leaves alone. -/
structure StaysInside (w : Window) (body : Body) : Prop where
  size : body.headerSize + body.codeSize + body.sectionSize ≤ w.size
  code : ∃ code, body.code w = .ok code ∧ code.size = body.codeSize
  clauses : ∀ clause ∈ body.clauses,
    clause.tryOffset.toNat + clause.tryLength.toNat ≤ body.codeSize ∧
      clause.handlerOffset.toNat + clause.handlerLength.toNat ≤ body.codeSize
  length : body.clauses.length ≤ body.sectionSize / 12
  hasClauses : body.hasClauses = true ↔ body.clauses ≠ []
  append : hasMoreSections w = false → ∀ (w' : Window) (more : Bytes),
    w'.toBytes = w.toBytes ++ more → read w' = .ok body

/-- Whatever the bytes are, the loop over the sections ends after a turn for each four of them; and
a body that is read stays inside them. -/
theorem read_staysInside (w : Window) :
    (∀ cursor stop found, sectionsWithin w (w.size / 4 + 1) cursor stop found =
      some (readSections w cursor stop found)) ∧
    ∀ body, read w = .ok body → StaysInside w body := by
  refine ⟨fun cursor stop found => sectionsWithin_eq (by omega), fun body h => ?_⟩
  obtain ⟨-, -, htotal⟩ := bounds_of_read h
  rw [totalSize, Body.size] at htotal
  exact {
    size := by omega
    code := exists_code h
    clauses := fits_of_read h
    length := length_clauses_le h
    hasClauses := by simp [hasClauses]
    append := fun hsections _ _ happend => read_of_append h hsections happend }

/-- A long header, five bytes of code, and a section with one clause; then another body's bytes. -/
def finallyBytes : Bytes := #[
  0x1B, 0x30, 8, 0, 5, 0, 0, 0, 0, 0, 0, 0, 0x00, 0xDE, 0x00, 0xDC, 0x2A, 0, 0, 0,
  0x01, 16, 0, 0, 2, 0, 0, 0, 3, 3, 0, 1, 0, 0, 0, 0, 0xCC, 0xCC]

theorem read_staysInside_finally : ∃ body, read finallyBytes = .ok body ∧
    body.clauses = [⟨2, 0, 3, 3, 1, 0⟩] ∧ body.totalSize = 36 ∧ StaysInside finallyBytes body := by
  have h : Result.holds (read finallyBytes) (fun body =>
      body.clauses == [⟨2, 0, 3, 3, 1, 0⟩] && body.totalSize == 36) = true := by decide +kernel
  obtain ⟨body, hread, hbody⟩ := Result.exists_of_holds h
  simp only [Bool.and_eq_true, beq_iff_eq] at hbody
  exact ⟨body, hread, hbody.1, hbody.2, (read_staysInside _).2 body hread⟩

end Body

end CliImage
