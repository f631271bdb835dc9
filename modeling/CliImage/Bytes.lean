/-!
Byte strings: little-endian numbers at an offset, overlays that keep the length, and padding.
-/

-- powers of numbers are the core ones, whichever algebra a later module brings along
attribute [instance (high), default_instance 10001] instPowNat

namespace CliImage

abbrev Bytes := Array UInt8

namespace Bytes

/-- The `w` bytes of a number, lowest first; what does not fit is dropped. -/
def ofNat : Nat → Nat → Bytes
  | 0, _ => #[]
  | w + 1, n => #[n.toUInt8] ++ ofNat w (n / 256)

/-- The number that `w` bytes at an offset spell, lowest first; bytes beyond the end are zero. -/
def natAt (data : Bytes) (offset : Nat) : Nat → Nat
  | 0 => 0
  | w + 1 => (data.getD offset 0).toNat + 256 * natAt data (offset + 1) w

/-- The number that `w` bytes at an offset spell, put together from two halves. -/
def natHalves (data : Bytes) (offset w : Nat) : Nat :=
  if w ≤ 8 then natAt data offset w
  else natHalves data offset (w / 2) + 256 ^ (w / 2) * natHalves data (offset + w / 2) (w - w / 2)
termination_by w

/-- The number that a whole byte string spells, lowest byte first; it may be a long one. -/
def toNat (data : Bytes) : Nat := natHalves data 0 data.size

/-- The `w` bytes of a number that may be a long one, lowest first. -/
def ofLongNat (w n : Nat) : Bytes :=
  if w ≤ 8 then ofNat w n
  else ofLongNat (w / 2) (n % 256 ^ (w / 2)) ++ ofLongNat (w - w / 2) (n / 256 ^ (w / 2))
termination_by w

def ofUInt16 (n : UInt16) : Bytes := ofNat 2 n.toNat

def ofUInt32 (n : UInt32) : Bytes := ofNat 4 n.toNat

def ofUInt64 (n : UInt64) : Bytes := ofNat 8 n.toNat

def zeros (n : Nat) : Bytes := Array.replicate n 0

def overlayList (data : Bytes) (offset : Nat) : List UInt8 → Bytes
  | [] => data
  | b :: bs => overlayList (data.setIfInBounds offset b) (offset + 1) bs

/-- Replaces the bytes from an offset on; the length stays, and what lies beyond the end is
dropped. -/
def overlay (data : Bytes) (offset : Nat) (new : Bytes) : Bytes :=
  overlayList data offset new.toList

def slice? (data : Bytes) (offset len : Nat) : Option Bytes :=
  if offset + len ≤ data.size then some (data.extract offset (offset + len)) else none

def ofList (bs : List UInt8) : Bytes := bs.toArray

/-- The big-endian number of a byte string. -/
def toNatBE (data : Bytes) : Nat := toNat data.reverse

/-- The `w` bytes of a number, highest first. -/
def ofNatBE (w n : Nat) : Bytes := (ofLongNat w n).reverse

end Bytes

/-- The least multiple of an alignment that is not below a value. -/
def alignUp (value alignment : Nat) : Nat :=
  (value + (alignment - 1)) / alignment * alignment

namespace Bytes

/-- Appends zeros up to a multiple of the alignment. -/
def padTo (data : Bytes) (alignment : Nat) : Bytes :=
  data ++ zeros (alignUp data.size alignment - data.size)

@[simp] theorem size_ofNat (w n : Nat) : (ofNat w n).size = w := by
  induction w generalizing n with
  | zero => rfl
  | succ w ih => simp only [ofNat, Array.size_append, ih]; simp; omega

@[simp] theorem size_overlayList (data : Bytes) (offset : Nat) (bs : List UInt8) :
    (overlayList data offset bs).size = data.size := by
  induction bs generalizing data offset with
  | nil => rfl
  | cons b bs ih => simp [overlayList, ih]

@[simp] theorem size_overlay (data : Bytes) (offset : Nat) (new : Bytes) :
    (overlay data offset new).size = data.size :=
  size_overlayList _ _ _

theorem natAt_add (data : Bytes) (offset v w : Nat) :
    natAt data offset (v + w) = natAt data offset v + 256 ^ v * natAt data (offset + v) w := by
  induction v generalizing offset with
  | zero => simp [natAt]
  | succ v ih =>
    rw [Nat.succ_add, natAt, natAt, ih, show offset + (v + 1) = offset + 1 + v by omega]
    grind

theorem natHalves_eq (data : Bytes) (offset w : Nat) :
    natHalves data offset w = natAt data offset w := by
  fun_induction natHalves data offset w with
  | case1 => rfl
  | case2 offset w h ihl ihh =>
    rw [ihl, ihh, ← natAt_add]
    congr 1
    omega

theorem toNat_eq (data : Bytes) : toNat data = natAt data 0 data.size := natHalves_eq ..

theorem ofNat_mod (w n : Nat) : ofNat w (n % 256 ^ w) = ofNat w n := by
  induction w generalizing n with
  | zero => rfl
  | succ w ih =>
    have hd : n % 256 ^ (w + 1) / 256 = n / 256 % 256 ^ w := by
      rw [Nat.pow_succ', Nat.mod_mul_right_div_self]
    have hm : (n % 256 ^ (w + 1)).toUInt8 = n.toUInt8 := by
      apply UInt8.toNat_inj.mp
      simp only [Nat.toUInt8_eq, UInt8.toNat_ofNat']
      exact Nat.mod_mod_of_dvd n ⟨256 ^ w, Nat.pow_succ'⟩
    rw [ofNat, ofNat, hd, hm, ih]

theorem ofNat_add (v w n : Nat) : ofNat (v + w) n = ofNat v n ++ ofNat w (n / 256 ^ v) := by
  induction v generalizing n with
  | zero => simp [ofNat]
  | succ v ih =>
    rw [Nat.succ_add, ofNat, ofNat, ih, Array.append_assoc, Nat.pow_succ', Nat.div_div_eq_div_mul]

theorem ofLongNat_eq (w n : Nat) : ofLongNat w n = ofNat w n := by
  fun_induction ofLongNat w n with
  | case1 => rfl
  | case2 w n h ihl ihh =>
    rw [ihl, ihh, ofNat_mod, ← ofNat_add]
    congr 1
    omega

theorem natAt_lt (data : Bytes) (offset w : Nat) : natAt data offset w < 256 ^ w := by
  induction w generalizing offset with
  | zero => simp [natAt]
  | succ w ih =>
    have h := ih (offset + 1)
    have hb := (data.getD offset 0).toNat_lt
    simp only [natAt, Nat.pow_succ]
    omega

end Bytes

end CliImage
