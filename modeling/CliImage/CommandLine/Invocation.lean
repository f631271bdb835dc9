import CliImage.CommandLine.Arguments
import CliImage.Patch

/-!
What a command line asks for. Key switches with a slash are accepted too, and without a key an
argument in front of the three names is ignored.
-/

namespace CliImage.CommandLine

inductive Invocation
  | help
  | usage (error : UsageError)
  | patch (patch : Patch) (verbose : Bool)
  deriving DecidableEq, Repr

def helpRequests : List String :=
  ["/", "-", "--"].flatMap fun dash => ["?", "h", "help"].map fun word => dash ++ word

/-- Whether two characters differ in case at most; the Kelvin sign is a K. -/
def sameLetter (lower c : Char) : Bool :=
  c == lower || c == lower.toUpper || (lower == 'k' && c == '\u212a')

/-- What follows a word in any case. -/
def afterWord? : List Char → List Char → Option (List Char)
  | [], text => some text
  | l :: word, c :: text => if sameLetter l c then afterWord? word text else none
  | _, [] => none

def switches : List String := ["/k:", "/keyfile:"]

/-- The key in a switch, up to the end of its line. -/
def switchKey? (text : String) : Option String :=
  let values := switches.filterMap fun word => afterWord? word.toList text.toList
  match values.map fun value => value.takeWhile (· != '\n') with
  | (c :: cs) :: _ => some (String.ofList (c :: cs))
  | _ => none

def spellSwitch (text : String) : String :=
  match switchKey? text with
  | some key => "--keyfile=" ++ key
  | none => text

/-- Spells key switches as options; the last argument is the image, whatever it looks like. -/
def spellSwitches : List String → List String
  | [] => []
  | [image] => [image]
  | text :: rest => spellSwitch text :: spellSwitches rest

def isFlag (text : String) : Bool := text == "-v" || text == "--verbose"

def wantsKey (text : String) : Bool := text == "-k" || text == "--keyfile"

def holdsKey (text : String) : Bool := "--keyfile=".isPrefixOf text

/-- How many arguments there are; an option counts with its value as one, a flag does not count. -/
def arity : List String → Nat
  | [] => 0
  | [text] => if isFlag text then 0 else 1
  | text :: next :: rest =>
    if isFlag text then arity (next :: rest)
    else if wantsKey text then arity rest + 1
    else arity (next :: rest) + 1

/-- The arguments that are neither options nor their values. -/
def plain : List String → List String
  | [] => []
  | [text] => if isFlag text || wantsKey text || holdsKey text then [] else [text]
  | text :: next :: rest =>
    if wantsKey text then plain rest
    else if isFlag text || holdsKey text then plain (next :: rest)
    else text :: plain (next :: rest)

/-- Leaves out the first argument that is neither an option nor its value. -/
def dropPlain : List String → List String
  | [] => []
  | [text] => if isFlag text || wantsKey text || holdsKey text then [text] else []
  | text :: next :: rest =>
    if wantsKey text then text :: next :: dropPlain rest
    else if isFlag text || holdsKey text then text :: dropPlain (next :: rest)
    else next :: rest

def invoke (texts : List String) : Invocation :=
  match Arguments.parse texts with
  | .error e => .usage e
  | .ok args =>
    match args.names with
    | [typeName, methodName, image] =>
      .patch { typeName, methodName, image, keyFile := args.key } args.verbose
    | _ => .usage .missingRequiredArgument

/-- Interprets the arguments behind the program's name. -/
def parse (texts : List String) : Invocation :=
  if texts.head?.any (helpRequests.contains ·) then .help
  else
    let texts := spellSwitches texts
    if arity texts < 3 ∨ 4 < arity texts then .help
    else if 3 < (plain texts).length then invoke (dropPlain texts)
    else invoke texts

end CliImage.CommandLine
