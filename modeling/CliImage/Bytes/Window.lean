import CliImage.Bytes

/-!
A part of a byte string that is read where it lies, by offsets from its own start.
-/

namespace CliImage

structure Window where
  data : Bytes
  start : Nat
  stop : Nat
  start_le_stop : start ≤ stop
  stop_le_size : stop ≤ data.size

namespace Window

def ofBytes (data : Bytes) : Window := ⟨data, 0, data.size, Nat.zero_le _, Nat.le_refl _⟩

instance : Coe Bytes Window := ⟨ofBytes⟩

def size (w : Window) : Nat := w.stop - w.start

def toBytes (w : Window) : Bytes := w.data.extract w.start w.stop

def byteAt (w : Window) (offset : Nat) : UInt8 := w.data.getD (w.start + offset) 0

/-- The little-endian number of `n` bytes at an offset, all of which must be in the window. -/
def natAt (w : Window) (offset n : Nat) : Nat := w.data.natAt (w.start + offset) n

/-- The bytes from an offset to another, both of which must be in the window. -/
def extract (w : Window) (first last : Nat) : Bytes :=
  w.data.extract (w.start + first) (w.start + last)

@[simp] theorem size_toBytes (w : Window) : w.toBytes.size = w.size := by
  have := w.stop_le_size
  simp only [toBytes, size, Array.size_extract]
  omega

@[simp] theorem toBytes_ofBytes (data : Bytes) : (ofBytes data).toBytes = data := by
  simp [ofBytes, toBytes]

@[simp] theorem size_ofBytes (data : Bytes) : (ofBytes data).size = data.size := rfl

theorem getElem?_toBytes (w : Window) {i : Nat} (h : i < w.size) :
    w.toBytes[i]? = w.data[w.start + i]? := by
  simp only [size] at h
  rw [toBytes, Array.getElem?_extract, if_pos (by have := w.stop_le_size; omega)]

theorem natAt_toBytes (w : Window) {offset n : Nat} (h : offset + n ≤ w.size) :
    w.toBytes.natAt offset n = w.natAt offset n := by
  unfold natAt
  induction n generalizing offset with
  | zero => rfl
  | succ n ih =>
    have hb := w.getElem?_toBytes (i := offset) (by omega)
    have hn := @ih (offset + 1) (by omega)
    simp only [Bytes.natAt, Array.getD_eq_getD_getElem?, hb, hn, Nat.add_assoc]

theorem extract_toBytes (w : Window) {first last : Nat} (h : last ≤ w.size) :
    w.toBytes.extract first last = w.extract first last := by
  simp only [size] at h
  simp only [toBytes, extract, Array.extract_extract]
  congr 1
  have := w.start_le_stop
  omega

end Window

end CliImage
