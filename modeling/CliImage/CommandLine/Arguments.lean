/-!
The arguments of the command line: options, flags and three names. An argument is checked when the
next one that can be taken arrives, so an unknown option is reported before a bad value.
-/

namespace CliImage.CommandLine

inductive UsageError
  | unknownArgument
  | missingRequiredArgument
  | invalidValue
  | argumentConflict
  | tooManyValues
  deriving DecidableEq, Repr

/-- An argument that has not been checked yet. A key option may still wait for its value. -/
inductive Pending
  | key (value : Option String)
  | name (value : String)
  deriving DecidableEq, Repr

/-- What the arguments so far say. Behind an argument that ends the options all are names. -/
structure Arguments where
  names : List String
  key : Option String
  verbose : Bool
  pending : Option Pending
  ended : Bool
  deriving DecidableEq, Repr

namespace Arguments

def empty : Arguments := ⟨[], none, false, none, false⟩

/-- A second key is refused before its value is looked at. -/
def setKey (args : Arguments) (value : String) : Except UsageError Arguments :=
  if args.key.isSome then .error .argumentConflict
  else if value.isEmpty then .error .invalidValue
  else .ok { args with key := some value }

/-- The names of a type and a method may be empty, the image's may not. -/
def addName (args : Arguments) (value : String) : Except UsageError Arguments :=
  if args.names.length = 2 ∧ value.isEmpty then .error .invalidValue
  else .ok { args with names := args.names ++ [value] }

/-- Checks the argument that is pending. -/
def settle (args : Arguments) : Except UsageError Arguments :=
  let settled := { args with pending := none }
  match args.pending with
  | none => .ok args
  | some (.key none) => .error .invalidValue
  | some (.key (some value)) => settled.setKey value
  | some (.name value) => settled.addName value

def setVerbose (args : Arguments) : Except UsageError Arguments := do
  let args ← args.settle
  if args.verbose then throw .argumentConflict
  .ok { args with verbose := true }

def startKey (args : Arguments) : Except UsageError Arguments := do
  .ok { ← args.settle with pending := some (.key none) }

def attachKey (args : Arguments) (value : List Char) : Except UsageError Arguments := do
  (← args.settle).setKey (String.ofList value)

/-- The names taken so far, the pending one too. -/
def nameCount (args : Arguments) : Nat :=
  match args.pending with
  | some (.name _) => args.names.length + 1
  | _ => args.names.length

def takeName (args : Arguments) (value : String) : Except UsageError Arguments :=
  if args.nameCount = 3 then .error .unknownArgument
  else do .ok { ← args.settle with pending := some (.name value) }

/-- Letters behind one dash; what follows the key's letter is its value. -/
def takeLetters (args : Arguments) : List Char → Except UsageError Arguments
  | [] => .ok args
  | 'v' :: rest => do (← args.setVerbose).takeLetters rest
  | 'k' :: [] => args.startKey
  | 'k' :: '=' :: value => args.attachKey value
  | 'k' :: value => args.attachKey value
  | _ => .error .unknownArgument

def keyOption : List Char := "keyfile".toList

def verboseFlag : List Char := "verbose".toList

/-- A word behind two dashes, with its value behind an equals sign. -/
def takeWord (args : Arguments) (text : List Char) : Except UsageError Arguments :=
  let word := text.takeWhile (· != '=')
  match text.dropWhile (· != '=') with
  | [] =>
    if word = keyOption then args.startKey
    else if word = verboseFlag then args.setVerbose
    else .error .unknownArgument
  | _ :: value =>
    if word = keyOption then args.attachKey value
    else if word = verboseFlag then .error .tooManyValues
    else .error .unknownArgument

def takePlain (args : Arguments) (text : String) : Except UsageError Arguments :=
  match args.pending with
  | some (.key none) => .ok { args with pending := some (.key (some text)) }
  | _ => args.takeName text

def take (args : Arguments) (text : String) : Except UsageError Arguments :=
  if args.ended then args.takeName text
  else
    match text.toList with
    | ['-', '-'] => .ok { args with ended := true }
    | '-' :: '-' :: word => args.takeWord word
    | '-' :: letter :: letters => args.takeLetters (letter :: letters)
    | _ => args.takePlain text

def parse (texts : List String) : Except UsageError Arguments := do
  (← texts.foldlM take empty).settle

end Arguments

end CliImage.CommandLine
