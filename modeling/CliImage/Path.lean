/-!
Paths: the steps along them, and the path with another extension.
-/

namespace CliImage.Path

/-- A path without what behind its last name adds nothing: slashes and single dots. The characters
stand in reverse order, here and in the two functions that follow. -/
def trimTail : List Char → List Char
  | '/' :: rest => trimTail rest
  | '.' :: '/' :: rest => trimTail rest
  | path => path

/-- The last name of a path, unless it leads to a folder that is named elsewhere. -/
def lastName? (path : List Char) : Option (List Char) :=
  match (trimTail path).takeWhile (· != '/') with
  | [] | ['.'] | ['.', '.'] => none
  | name => some name

/-- A name's extension, which stands behind its last dot; a dot in front makes none. -/
def extension? (name : List Char) : Option (List Char) :=
  match name.dropWhile (· != '.') with
  | [] | [_] => none
  | _ => some (name.takeWhile (· != '.'))

/-- Puts an extension in place of the last name's own; a path without a last name stays. -/
def setExtension (path : List Char) (new : String) : List Char :=
  match lastName? path with
  | none => path
  | some name =>
    let kept := match extension? name with
      | some old => (trimTail path).drop (old.length + 1)
      | none => trimTail path
    new.toList.reverse ++ '.' :: kept

/-- The path with another extension. As many characters as the old one has go from the end of the
path first, whatever stands there. -/
def withExtension (path new : String) : String :=
  let reversed := path.toList.reverse
  let cut := match (lastName? reversed).bind extension? with
    | some old => reversed.drop old.length
    | none => reversed
  String.ofList (setExtension cut new).reverse

/-- Where the symbols of an image are. -/
def ofSymbols (image : String) : String := withExtension image "pdb"

/-- The steps along a path, as its slashes separate them, empty ones too. A slash in front leads to
the root. -/
def steps (path : String) : List String :=
  if path.startsWith "/" then "/" :: path.splitOn "/" else path.splitOn "/"

/-- The steps that lead somewhere else than where they start. -/
def names (path : String) : List String :=
  (steps path).filter fun step => step != "" && step != "."

/-- A name has at most 255 bytes, none of which is zero. -/
def isName (step : String) : Bool :=
  step != "" && step != "." && step != ".." && step != "/" && step.utf8ByteSize ≤ 255
    && !step.toList.contains '\x00'

end CliImage.Path
