import CliImage.Bytes
import CliImage.Path

/-!
A directory as a map from places to files and folders.
-/

namespace CliImage

/-- A place is named by a path, or it holds what a commit keeps beside its targets for a while. -/
inductive Place
  | path (names : List String)
  | staging (target : Nat)
  | backup (target : Nat)
  deriving DecidableEq, Repr, Inhabited

inductive Entry
  | file (data : Bytes)
  | folder
  deriving DecidableEq, Repr, Inhabited

/-- What stands first in the list counts. -/
structure Directory where
  entries : List (Place × Entry)
  deriving Repr, Inhabited

namespace Directory

def get? (d : Directory) (place : Place) : Option Entry := d.entries.lookup place

def erase (d : Directory) (place : Place) : Directory :=
  ⟨d.entries.filter fun e => e.1 ≠ place⟩

def set (d : Directory) (place : Place) (entry : Entry) : Directory :=
  ⟨(place, entry) :: (d.erase place).entries⟩

/-- The folders around the directory and the root have no names in it. -/
def isOutside (names : List String) : Bool := names.all fun name => name == ".." || name == "/"

def entryAt? (d : Directory) (names : List String) : Option Entry :=
  if isOutside names then some .folder else d.get? (.path names)

def isFolder (d : Directory) (names : List String) : Bool := d.entryAt? names == some .folder

/-- The folder around a folder. -/
def above (names : List String) : List String :=
  if names = ["/"] then names
  else if isOutside names then names ++ [".."]
  else names.dropLast

/-- Where a step leads; only folders can be left. -/
def step? (d : Directory) (names : List String) (step : String) : Option (List String) :=
  if !d.isFolder names then none
  else if step == "" || step == "." then some names
  else if step == ".." then some (above names)
  else if step == "/" then some ["/"]
  else if Path.isName step then some (names ++ [step])
  else none

/-- Where steps from the directory lead. Nothing need be there. -/
def walk? (d : Directory) (steps : List String) : Option (List String) := steps.foldlM d.step? []

def content? (d : Directory) (path : String) : Option Entry :=
  (d.walk? (Path.steps path)).bind d.entryAt?

def file? (d : Directory) (path : String) : Option Bytes :=
  match d.content? path with
  | some (.file data) => some data
  | _ => none

/-- Whether the folder is there that a path names something in. -/
def hasRoom (d : Directory) (path : String) : Bool :=
  (d.walk? (Path.names path).dropLast).any d.isFolder

/-- The place that a file can be moved to by a path: the last step is a name, which may be that of a
file but not of a folder. -/
def placeFor? (d : Directory) (path : String) : Option Place :=
  if (Path.steps path).getLast?.any Path.isName then
    ((d.walk? (Path.steps path)).filter fun names => !d.isFolder names).map Place.path
  else none

/-- What the directory holds, by path; a folder's ends in a slash. -/
def listing (d : Directory) : List (String × Entry) :=
  d.entries.filterMap fun
    | (.path names, entry) =>
      if names.any fun name => name == ".." || name == "/" then none
      else some ("/".intercalate names ++ (if entry = .folder then "/" else ""), entry)
    | _ => none

theorem lookup_filter_ne (entries : List (Place × Entry)) (p q : Place) :
    (entries.filter fun e => e.1 ≠ p).lookup q = if q = p then none else entries.lookup q := by
  induction entries with
  | nil => simp
  | cons e entries ih =>
    obtain ⟨place, entry⟩ := e
    by_cases hp : place = p
    · rw [List.filter_cons_of_neg (by simpa using hp), ih]
      by_cases hq : q = p
      · simp [hq]
      · simp [List.lookup_cons, hp, beq_eq_false_iff_ne.mpr hq, hq]
    · rw [List.filter_cons_of_pos (by simpa using hp), List.lookup_cons, List.lookup_cons, ih]
      by_cases hq : q = place
      · simp [hq, hp]
      · simp [beq_eq_false_iff_ne.mpr hq]

theorem get?_erase (d : Directory) (p q : Place) :
    (d.erase p).get? q = if q = p then none else d.get? q :=
  lookup_filter_ne d.entries p q

theorem get?_set (d : Directory) (p q : Place) (e : Entry) :
    (d.set p e).get? q = if q = p then some e else d.get? q := by
  by_cases h : q = p
  · simp [get?, set, h]
  · have he := get?_erase d p q
    simp only [h, if_false] at he
    simpa [get?, set, List.lookup_cons, beq_eq_false_iff_ne.mpr h, h] using he

end Directory

end CliImage
