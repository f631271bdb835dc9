import CliImage.Compressed
import CliImage.Proofs.InPlace
import CliImage.Proofs.Reader
import CliImage.Proofs.Result

/-! Compressed numbers are spelled as short as they can be read, and their spelling is read back
whatever stands around it. A compressed reference is read as a token, which has fewer bits for the
row. -/

namespace CliImage

namespace Compressed

open Reader (ReadsBack)

variable {data piece : Bytes} {pos next value : Nat} {token : Token}

lemma local_read : Reader.Local read :=
  .bind .u8 fun _ => .ite (.pure _) <| .ite (.bind .u8 fun _ => .pure _) <|
    .ite (.bind (.bytes 3) fun _ => .pure _) (.fail _)

/-- How many bytes the spelling of a number takes. -/
def length (value : Nat) : Nat := if value < 0x80 then 1 else if value < 0x4000 then 2 else 4

lemma isSome_encode? (value : Nat) : (encode? value).isSome = decide (value ≤ 0x1FFFFFFF) := by
  unfold encode?
  split_ifs
  · exact (decide_eq_true (by omega)).symm
  · exact (decide_eq_true (by omega)).symm
  · exact (decide_eq_true (by omega)).symm
  · exact (decide_eq_false (by omega)).symm

lemma size_of_encode? (h : encode? value = some piece) : piece.size = length value := by
  unfold encode? at h
  unfold length
  split_ifs at h ⊢ <;> cases h <;> exact Bytes.size_ofNatBE ..

lemma readsBack_short (h : value < 0x80) : ReadsBack read (Bytes.ofNatBE 1 value) value := by
  have hlead : (value / 256 ^ 0).toUInt8.toNat = value := by
    rw [Nat.toUInt8_eq, UInt8.toNat_ofNat']
    omega
  rw [Bytes.ofNatBE_succ, Bytes.ofNatBE_zero]
  refine .bind (.u8 _) ?_
  rw [if_pos (by rw [UInt8.lt_iff_toNat_lt, hlead]; exact h), hlead]
  exact .pure value

lemma readsBack_middle (h : value < 0x4000) :
    ReadsBack read (Bytes.ofNatBE 2 (0x8000 + value)) value := by
  have hlead : ((0x8000 + value) / 256 ^ 1).toUInt8.toNat = 0x80 + value / 256 := by
    rw [Nat.toUInt8_eq, UInt8.toNat_ofNat']
    omega
  have hnext : ((0x8000 + value) / 256 ^ 0).toUInt8.toNat = value % 256 := by
    rw [Nat.toUInt8_eq, UInt8.toNat_ofNat']
    omega
  rw [Bytes.ofNatBE_succ, Bytes.ofNatBE_succ, Bytes.ofNatBE_zero]
  refine .bind (.u8 _) ?_
  rw [if_neg (by rw [UInt8.lt_iff_toNat_lt, hlead]; simp),
    if_pos (by rw [UInt8.lt_iff_toNat_lt, hlead]; simp; omega)]
  refine .bind (.u8 _) ?_
  rw [hlead, hnext, show (0x80 + value / 256) % 0x40 * 256 + value % 256 = value by omega]
  exact .pure value

lemma readsBack_long (h : value < 0x20000000) :
    ReadsBack read (Bytes.ofNatBE 4 (0xC0000000 + value)) value := by
  have hlead : ((0xC0000000 + value) / 256 ^ 3).toUInt8.toNat = 0xC0 + value / 256 ^ 3 := by
    rw [Nat.toUInt8_eq, UInt8.toNat_ofNat']
    omega
  rw [Bytes.ofNatBE_succ]
  refine .bind (.u8 _) ?_
  rw [if_neg (by rw [UInt8.lt_iff_toNat_lt, hlead]; simp; omega),
    if_neg (by rw [UInt8.lt_iff_toNat_lt, hlead]; simp),
    if_pos (by rw [UInt8.lt_iff_toNat_lt, hlead]; simp; omega), hlead]
  refine .bind_empty (.bytes (Bytes.size_ofNatBE 3 (0xC0000000 + value))) ?_
  rw [Bytes.toNatBE_ofNatBE_mod,
    show (0xC0 + value / 256 ^ 3) % 0x20 * 256 ^ 3 + (0xC0000000 + value) % 256 ^ 3 = value by omega]
  exact .pure value

lemma readsBack_of_encode? (h : encode? value = some piece) : ReadsBack read piece value := by
  unfold encode? at h
  split_ifs at h with hshort hmiddle hlong
  · cases h
    exact readsBack_short hshort
  · cases h
    exact readsBack_middle hmiddle
  · cases h
    exact readsBack_long hlong

/-- One case for each of the forms. -/
lemma bounds_of_read (h : read data pos = .ok value next) :
    next = pos + 1 ∧ value < 0x80 ∨ next = pos + 2 ∧ value < 0x4000 ∨
      next = pos + 4 ∧ value ≤ 0x1FFFFFFF := by
  obtain ⟨lead, between, hlead, h⟩ := Reader.bind_eq_ok.mp h
  have hbetween := Reader.next_of_u8 hlead
  split_ifs at h with hone htwo hfour
  · obtain ⟨rfl, rfl⟩ := Reader.pure_eq_ok.mp h
    exact .inl ⟨hbetween, hone⟩
  · obtain ⟨second, last, hsecond, h⟩ := Reader.bind_eq_ok.mp h
    have hlast := Reader.next_of_u8 hsecond
    have hlt := second.toNat_lt
    obtain ⟨rfl, rfl⟩ := Reader.pure_eq_ok.mp h
    exact .inr (.inl ⟨by omega, by omega⟩)
  · obtain ⟨rest, last, hrest, h⟩ := Reader.bind_eq_ok.mp h
    obtain ⟨hle, hpiece, hlast⟩ := Reader.bytes_eq_ok.mp hrest
    have hsize : rest.size = 3 := by
      rw [← hpiece, Array.size_extract]
      omega
    have hlt := rest.toNatBE_lt_pow
    rw [hsize] at hlt
    obtain ⟨rfl, rfl⟩ := Reader.pure_eq_ok.mp h
    exact .inr (.inr ⟨by omega, by omega⟩)
  · cases h

lemma le_of_read (h : read data pos = .ok value next) : value ≤ 0x1FFFFFFF := by
  rcases bounds_of_read h with ⟨-, hlt⟩ | ⟨-, hlt⟩ | ⟨-, hle⟩
  · omega
  · omega
  · exact hle

lemma length_le_of_read (h : read data pos = .ok value next) : pos + length value ≤ next := by
  unfold length
  rcases bounds_of_read h with ⟨rfl, hlt⟩ | ⟨rfl, hlt⟩ | ⟨rfl, -⟩
  · rw [if_pos hlt]
  · split_ifs
    · omega
    · exact le_rfl
  · split_ifs
    · omega
    · omega
    · exact le_rfl

/-- Appends a number to a byte string, byte by byte where it is short. -/
def push (value : Nat) : InPlace Bytes Unit :=
  if value < 0x80 then modify (·.push value.toUInt8)
  else if value < 0x4000 then do
    modify (·.push (0x80 + value / 256).toUInt8)
    modify (·.push value.toUInt8)
  else if value < 0x20000000 then modify (· ++ Bytes.ofNatBE 4 (0xC0000000 + value))
  else throw (.fault (.compressedTooLarge value))

/-- Nothing is appended before it is known that the number has a spelling. -/
lemma push_apply (value : Nat) (data : Bytes) : push value data = match encode value with
    | .ok piece => .ok () (data ++ piece)
    | .error e => .error e data := by
  unfold push encode encode?
  split_ifs with hone htwo hfour
  · rw [Bytes.ofNatBE_succ, Bytes.ofNatBE_zero, Array.append_empty, Nat.pow_zero, Nat.div_one]
    change EStateM.Result.ok () (data.push _) = _
    rw [Array.push_eq_append]
  · have hlead : (0x8000 + value) / 256 ^ 1 = 0x80 + value / 256 := by omega
    have hnext : ((0x8000 + value) / 256 ^ 0).toUInt8 = value.toUInt8 := by
      apply UInt8.toNat_inj.mp
      simp only [Nat.toUInt8_eq, UInt8.toNat_ofNat']
      omega
    rw [Bytes.ofNatBE_succ, Bytes.ofNatBE_succ, Bytes.ofNatBE_zero, Array.append_empty, hlead, hnext]
    change EStateM.Result.ok () ((data.push _).push _) = _
    rw [Array.push_eq_append, Array.push_eq_append, Array.append_assoc]
  · rfl
  · rfl

/-- The bytes are the shortest that are read as the number, and wherever they stand it is read from
them and from nothing else. -/
structure Spells (piece : Bytes) (value : Nat) : Prop where
  size : piece.size = 1 ∨ piece.size = 2 ∨ piece.size = 4
  shortest : ∀ data pos next, read data pos = .ok value next → piece.size ≤ next - pos
  reads : ∀ front back, read (front ++ piece ++ back) front.size = .ok value (front ++ piece).size

lemma spells_of_encode? (h : encode? value = some piece) : Spells piece value := by
  have hsize := size_of_encode? h
  refine ⟨?_, fun data pos next hread => ?_, fun front back => ?_⟩
  · rw [hsize, length]
    split_ifs <;> omega
  · have := length_le_of_read hread
    omega
  · rw [Array.size_append]
    exact readsBack_of_encode? h ((Bytes.standsAt_append_left ..).append_right back)

/-- A number of at most 29 bits is appended in its shortest spelling, and no other number is. -/
theorem push_spells (value : Nat) (front : Bytes) :
    if value ≤ 0x1FFFFFFF then
      ∃ piece, push value front = .ok () (front ++ piece) ∧ Spells piece value
    else push value front = .error (.fault (.compressedTooLarge value)) front := by
  have hsome := isSome_encode? value
  rw [push_apply, encode]
  split_ifs with hle
  · obtain ⟨piece, hpiece⟩ := Option.isSome_iff_exists.mp (hsome.trans (decide_eq_true hle))
    rw [hpiece]
    exact ⟨piece, rfl, spells_of_encode? hpiece⟩
  · rw [decide_eq_false hle, Option.isSome_eq_false_iff, Option.isNone_iff_eq_none] at hsome
    rw [hsome]

/-- The table that the low two bits of a compressed reference select. -/
def tokenTable? (value : Nat) : Option TableId :=
  match value % 4 with
  | 0 => some .typeDef
  | 1 => some .typeRef
  | 2 => some .typeSpec
  | _ => none

/-- The token is the table that the reference selects and the row that it gives. -/
def Names (token : Token) (value : Nat) : Prop :=
  ∃ t, tokenTable? value = some t ∧ token.table = t.number ∧ token.row = value / 4

lemma number_lt_of_tokenTable? {t : TableId} (h : tokenTable? value = some t) : t.number < 2 ^ 8 := by
  unfold tokenTable? at h
  split at h <;> cases h <;> decide

/-- Table and row are put together bit by bit. -/
lemma readToken_eq : readToken = read >>= fun value =>
    match tokenTable? value with
    | some t => pure ⟨UInt32.ofNat (t.number * 2 ^ 24 ||| value / 4)⟩
    | none => Reader.fail (.fault (.compressedToken value)) := by
  unfold readToken
  congr 1
  funext value
  unfold tokenTable?
  generalize value % 4 = tag
  match tag with
  | 0 => rfl
  | 1 => rfl
  | 2 => rfl
  | _ + 3 => rfl

lemma readToken_eq_ok : readToken data pos = .ok token next ↔
    ∃ value t, read data pos = .ok value next ∧ tokenTable? value = some t ∧
      token = ⟨UInt32.ofNat (t.number * 2 ^ 24 ||| value / 4)⟩ := by
  rw [readToken_eq, Reader.bind_eq_ok]
  constructor
  · rintro ⟨value, between, hread, h⟩
    cases ht : tokenTable? value with
    | some t =>
      rw [ht] at h
      obtain ⟨rfl, rfl⟩ := Reader.pure_eq_ok.mp h
      exact ⟨value, t, hread, ht, rfl⟩
    | none =>
      rw [ht] at h
      cases h
  · rintro ⟨value, t, hread, ht, rfl⟩
    refine ⟨value, next, hread, ?_⟩
    rw [ht]
    rfl

/-- What a row has beyond 24 bits runs into the table. -/
lemma eq_joined_iff {number row : Nat} (hnumber : number < 2 ^ 8) (hrow : row < 2 ^ 32) :
    token = ⟨UInt32.ofNat (number * 2 ^ 24 ||| row)⟩ ↔
      token.table = number ||| row / 2 ^ 24 ∧ token.row = row % 2 ^ 24 := by
  have hlt : number * 2 ^ 24 ||| row < 2 ^ 32 := Nat.or_lt_two_pow (by omega) hrow
  have htable : (number * 2 ^ 24 ||| row) / 2 ^ 24 = number ||| row / 2 ^ 24 := by
    rw [Nat.or_div_two_pow, Nat.mul_div_cancel _ (by decide)]
  have hlow : (number * 2 ^ 24 ||| row) % 2 ^ 24 = row % 2 ^ 24 := by
    rw [Nat.or_mod_two_pow, Nat.mul_mod_left, Nat.zero_or]
  have hjoined : (UInt32.ofNat (number * 2 ^ 24 ||| row)).toNat = number * 2 ^ 24 ||| row :=
    UInt32.toNat_ofNat_of_lt' hlt
  constructor
  · rintro rfl
    rw [Token.table, Token.row, hjoined]
    exact ⟨htable, hlow⟩
  · rintro ⟨hn, hr⟩
    have hvalue := token.value_toNat
    rw [hn, hr, ← htable, ← hlow, Token.rowLimit, Nat.div_add_mod'] at hvalue
    cases token
    exact congrArg Token.mk (UInt32.toNat_inj.mp (hvalue.trans hjoined.symm))

/-- A token is read as the number says exactly where the row has at most 24 bits; what a longer row
has beyond them is taken into the table. -/
theorem readToken_names_iff : readToken data pos = .ok token next ↔
    ∃ value t, read data pos = .ok value next ∧ tokenTable? value = some t ∧
      token.table = t.number ||| value / 4 / 2 ^ 24 ∧ token.row = value / 4 % 2 ^ 24 ∧
      (Names token value ↔ value / 4 < 2 ^ 24) := by
  rw [readToken_eq_ok]
  refine exists_congr fun value => exists_congr fun t => and_congr_right fun hread =>
    and_congr_right fun ht => ?_
  have hvalue := le_of_read hread
  rw [eq_joined_iff (number_lt_of_tokenTable? ht) (by omega)]
  refine ⟨fun ⟨htable, hrow⟩ => ⟨htable, hrow, ?_, fun hlt => ⟨t, ht, ?_, ?_⟩⟩,
    fun ⟨htable, hrow, _⟩ => ⟨htable, hrow⟩⟩
  · rintro ⟨-, -, -, hnamed⟩
    omega
  · rw [htable, Nat.div_eq_of_lt hlt, Nat.or_zero]
  · rw [hrow, Nat.mod_eq_of_lt hlt]

/-- Row 0x1000000 of a table of types comes out as row 0 of another table. -/
theorem not_names_longRow : ∃ token, readToken #[0xC4, 0, 0, 0] 0 = .ok token 4 ∧
    read #[0xC4, 0, 0, 0] 0 = .ok 0x04000000 4 ∧ token = ⟨0x03000000⟩ ∧
    ¬ Names token 0x04000000 := by
  have hread : read #[0xC4, 0, 0, 0] 0 = .ok 0x04000000 4 := by cbv
  have htoken : readToken #[0xC4, 0, 0, 0] 0 = .ok ⟨0x03000000⟩ 4 := by cbv
  obtain ⟨value, t, hread', -, -, -, hnames⟩ := readToken_names_iff.mp htoken
  obtain rfl : value = 0x04000000 := by
    rw [hread] at hread'
    cases hread'
    rfl
  exact ⟨_, htoken, hread, rfl, fun h => absurd (hnames.mp h) (by decide)⟩

end Compressed

end CliImage
