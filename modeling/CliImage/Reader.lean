import CliImage.Bytes
import CliImage.Error

/-!
Reading from front to back. A reader sees the whole byte string and keeps a position; a step that
fails leaves the position where the step got to.
-/

namespace CliImage

abbrev Reader := ReaderT Bytes (EStateM Error Nat)

namespace Reader

variable {α β : Type}

def fail (e : Error) : Reader α := fun _ pos => .error e pos

def pos : Reader Nat := fun _ pos => .ok pos pos

def data : Reader Bytes := fun data pos => .ok data pos

def hasMore : Reader Bool := fun data pos => .ok (decide (pos < data.size)) pos

def seek (target : Nat) : Reader Unit := fun data pos =>
  if target ≤ data.size then .ok () target else .error .outOfBounds pos

def advance (n : Nat) : Reader Unit := fun data pos =>
  if pos + n ≤ data.size then .ok () (pos + n) else .error .outOfBounds pos

def peek : Reader UInt8 := fun data pos =>
  match data[pos]? with
  | some b => .ok b pos
  | none => .error .outOfBounds pos

def bytes (n : Nat) : Reader Bytes := fun data pos =>
  if pos + n ≤ data.size then .ok (data.extract pos (pos + n)) (pos + n)
  else .error .outOfBounds pos

def vector (n : Nat) : Reader (Vector UInt8 n) := fun data pos =>
  if h : pos + n ≤ data.size then .ok ⟨data.extract pos (pos + n), by simp; omega⟩ (pos + n)
  else .error .outOfBounds pos

/-- A little-endian number of `w` bytes. -/
def number (w : Nat) : Reader Nat := fun data pos =>
  if pos + w ≤ data.size then .ok (data.natAt pos w) (pos + w) else .error .outOfBounds pos

def u8 : Reader UInt8 := UInt8.ofNat <$> number 1

def u16 : Reader UInt16 := UInt16.ofNat <$> number 2

def u32 : Reader UInt32 := UInt32.ofNat <$> number 4

def u64 : Reader UInt64 := UInt64.ofNat <$> number 8

def many (item : Reader α) : Nat → Reader (List α)
  | 0 => pure []
  | n + 1 => do
    let first ← item
    let rest ← many item n
    pure (first :: rest)

def manyInto (item : Reader α) : Nat → Array α → Reader (Array α)
  | 0, done => pure done
  | n + 1, done => fun data pos =>
    match item data pos with
    | .ok a next => manyInto item n (done.push a) data next
    | .error e next => .error e next

def array (item : Reader α) (n : Nat) : Reader (Array α) := manyInto item n #[]

/-- What a reader makes of a byte string, from the front on. -/
def run (reader : Reader α) (data : Bytes) : Result α :=
  match reader data 0 with
  | .ok value _ => .ok value
  | .error e _ => .error e

theorem bind_apply (x : Reader α) (f : α → Reader β) (data : Bytes) (pos : Nat) :
    (x >>= f) data pos =
      match x data pos with
      | .ok a next => f a data next
      | .error e next => .error e next := by
  change EStateM.bind (x data) (fun a => f a data) pos = _
  unfold EStateM.bind
  cases x data pos <;> rfl

theorem map_apply (f : α → β) (x : Reader α) (data : Bytes) (pos : Nat) :
    (f <$> x) data pos =
      match x data pos with
      | .ok a next => .ok (f a) next
      | .error e next => .error e next := by
  change EStateM.map f (x data) pos = _
  unfold EStateM.map
  cases x data pos <;> rfl

theorem next_of_number {w : Nat} {data : Bytes} {pos value next : Nat}
    (h : number w data pos = .ok value next) : next = pos + w := by
  unfold number at h
  split at h <;> cases h
  rfl

theorem next_of_u8 {data : Bytes} {pos next : Nat} {b : UInt8}
    (h : u8 data pos = .ok b next) : next = pos + 1 := by
  rw [u8, map_apply] at h
  split at h
  · rename_i hn
    cases h
    exact next_of_number hn
  · cases h

theorem next_of_bytes {n : Nat} {data value : Bytes} {pos next : Nat}
    (h : bytes n data pos = .ok value next) : next = pos + n := by
  unfold bytes at h
  split at h <;> cases h
  rfl

@[simp] theorem pure_apply (a : α) (data : Bytes) (pos : Nat) :
    (pure a : Reader α) data pos = .ok a pos := rfl

end Reader

end CliImage
