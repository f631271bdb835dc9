import CliImage.Directory.Basic
import CliImage.Error

/-!
Replacing files all or none: every file is staged beside its target, what it replaces is kept, and
only then are the staged files moved. Each step may be refused.
-/

namespace CliImage

structure Target where
  path : String
  data : Bytes
  deriving DecidableEq, Repr, Inhabited

/-- A step for the target of a number. -/
inductive Step
  | create (target : Nat)
  | fill (target : Nat)
  | permit (target : Nat)
  | sync (target : Nat)
  | keep (target : Nat)
  | copy (target : Nat)
  | move (target : Nat)
  | restore (target : Nat)
  deriving DecidableEq, Repr

/-- A change of a directory; where it fails the directory is as far as it came. -/
abbrev Commit := EStateM Error Directory

namespace Target

variable (refused : Step → Bool)

/-- A step that writes nothing by itself. -/
def require (t : Target) (ok : Bool) : Commit Unit := fun d =>
  if ok then .ok () d else .error (.write t.path) d

def attempt (t : Target) (step : Step) : Commit Unit := t.require (!refused step)

def write (place : Place) (data : Bytes) : Commit Unit := fun d => .ok () (d.set place (.file data))

/-- Writes the new data beside the target. -/
def stage (t : Target) (i : Nat) : Commit Unit := do
  t.require ((← get).hasRoom t.path)
  t.attempt refused (.create i)
  write (.staging i) #[]
  t.attempt refused (.fill i)
  write (.staging i) t.data
  t.attempt refused (.permit i)
  t.attempt refused (.sync i)

/-- Keeps the file that the target replaces, if there is one. -/
def backUp (t : Target) (i : Nat) : Commit Unit := do
  match (← get).file? t.path with
  | none => pure ()
  | some old => do
    t.attempt refused (.keep i)
    write (.backup i) #[]
    t.attempt refused (.copy i)
    write (.backup i) old

/-- Moves the staged file to its target. -/
def move (t : Target) (i : Nat) : Commit Unit := do
  match (← get).placeFor? t.path with
  | none => throw (.write t.path)
  | some place => do
    t.attempt refused (.move i)
    modify fun d =>
      match d.get? (.staging i) with
      | some entry => (d.set place entry).erase (.staging i)
      | none => d

/-- Brings back what was there before the move. -/
def restore (t : Target) (i : Nat) (d : Directory) : Directory :=
  if refused (.restore i) then d
  else
    match d.placeFor? t.path with
    | none => d
    | some place =>
      match d.get? (.backup i) with
      | some entry => (d.set place entry).erase (.backup i)
      | none => d.erase place

/-- Moves the staged files in order. If one cannot be moved those before it are restored, the last
one first. -/
def moveAll : List (Target × Nat) → Commit Unit
  | [] => pure ()
  | (t, i) :: rest => fun d =>
    match t.move refused i d with
    | .error e d => .error e d
    | .ok () d =>
      match moveAll rest d with
      | .error e d => .error e (t.restore refused i d)
      | .ok () d => .ok () d

def replaceAll (targets : List (Target × Nat)) : Commit Unit := do
  targets.forM fun (t, i) => t.stage refused i
  targets.forM fun (t, i) => t.backUp refused i
  moveAll refused targets

end Target

namespace Directory

/-- Removes what was staged and kept for the targets. -/
def discard (d : Directory) (targets : Nat) : Directory :=
  (List.range targets).foldl (fun d i => (d.erase (.staging i)).erase (.backup i)) d

/-- Replaces the files of all targets, or of none. -/
def commit (refused : Step → Bool) (targets : List Target) : Commit Unit := fun d =>
  match Target.replaceAll refused targets.zipIdx d with
  | .ok () d => .ok () (d.discard targets.length)
  | .error e d => .error e (d.discard targets.length)

end Directory

end CliImage
