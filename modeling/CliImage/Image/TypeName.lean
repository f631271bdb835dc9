import CliImage.Image.Basic
import CliImage.Table.CodedIndex

/-!
Names of types by their tokens. A nested type's name follows the name of the type around it, through
64 such steps at most.
-/

namespace CliImage.Metadata

def nestingLimit : Nat := 64

def stringCell? (m : Metadata) (t : TableId) (rid column : Nat) : Option String :=
  match m.tables.cell t rid column with
  | .ok index => (m.strings.get index.toNat).toOption
  | .error _ => none

/-- The type around a type, by the first row that says so. -/
def enclosing? (m : Metadata) (rid : Nat) : Option Nat :=
  ((m.tables.table .nestedClass).find? fun row => (row.getD 0 0).toNat == rid).map
    fun row => (row.getD 1 0).toNat

def scopeOf? (m : Metadata) (rid : Nat) : Option (TableId × UInt32) :=
  match m.tables.cell .typeRef rid 0 with
  | .ok value => (CodedKind.resolutionScope.decode value).toOption
  | .error _ => none

/-- The name of a type, with room for that many types around each other. -/
def nameWithin? (m : Metadata) : Nat → Token → Option String
  | 0, _ => none
  | room + 1, token =>
    match TableId.ofNumber? token.table with
    | some .typeDef => do
      let name ← m.stringCell? .typeDef token.row 1
      let scope ← m.stringCell? .typeDef token.row 2
      match m.enclosing? token.row with
      | some outer => do
        let around ← m.nameWithin? room (Token.ofRow .typeDef outer)
        return around ++ "+" ++ name
      | none => return qualified scope name
    | some .typeRef => do
      let name ← m.stringCell? .typeRef token.row 1
      let scope ← m.stringCell? .typeRef token.row 2
      match ← m.scopeOf? token.row with
      | (.typeRef, outer) =>
        if outer = 0 then return qualified scope name
        else do
          let around ← m.nameWithin? room (Token.ofRow .typeRef outer.toNat)
          return around ++ "+" ++ name
      | _ => return qualified scope name
    | _ => none

/-- A type that has no name is called by its token. -/
def typeName (m : Metadata) (token : Token) : String :=
  (m.nameWithin? (nestingLimit + 1) token).getD token.text

end CliImage.Metadata
