import CliImage.Instruction.Basic
import CliImage.Method.Body
import CliImage.Method.Flags
import CliImage.Signature.Basic
import CliImage.CliHeader
import CliImage.Symbols.Portable

/-!
An image: its types and methods in the order of their rows, and methods added since it was read.
-/

namespace CliImage

structure MethodParam where
  name : Option String
  sequence : Nat
  typeName : String
  deriving DecidableEq, Repr, Inhabited

/-- A method; one without a row has been added. -/
structure Method where
  rid : Option Nat
  name : String
  rva : UInt32
  flags : UInt32
  implFlags : UInt32
  signature : Signature
  returnType : String
  params : List MethodParam
  body : Option Body
  instructions : Array Instruction
  encodedBody : Option Bytes
  encodedSignature : Option Bytes

namespace Method

def token? (m : Method) : Option Token := m.rid.map (Token.ofRow .methodDef)

def columns (m : Method) : MethodFlags := ⟨m.flags.toNat, m.implFlags.toNat⟩

def isStatic (m : Method) : Bool := m.columns.isStatic

def isAdded (m : Method) : Bool := m.rid.isNone

end Method

/-- A type with the places of its methods among the image's methods. -/
structure TypeDef where
  rid : Nat
  name : String
  scope : String
  flags : UInt32
  methods : Array Nat
  deriving DecidableEq, Repr, Inhabited

/-- A name with its namespace. -/
def qualified (scope name : String) : String := if scope.isEmpty then name else scope ++ "." ++ name

def TypeDef.fullName (t : TypeDef) : String := qualified t.scope t.name

/-- References know the image by `id`; one that was read from a file has a path. -/
structure Image where
  id : Nat
  path : Option String
  file : PeFile
  cli : CliHeader
  metadata : Metadata
  types : Array TypeDef
  methods : Array Method
  symbols : Option Symbols

/-- A method of one image, with the names that find it in another. -/
structure MethodRef where
  image : Nat
  method : Nat
  typeName : String
  methodName : String
  deriving DecidableEq, Repr, Inhabited

namespace Image

def moduleName : String := "<Module>"

/-- The type of the global members: the first one, if it has that name. -/
def moduleType? (image : Image) : Option TypeDef :=
  image.types[0]?.filter fun t => t.rid = 1 ∧ t.name = moduleName

def findType? (image : Image) (name : String) : Option (Nat × TypeDef) :=
  (image.types.findIdx? (·.name == name)).bind fun i => image.types[i]?.map fun t => (i, t)

/-- The methods of a type with their places. -/
def methodsOf (image : Image) (t : TypeDef) : List (Nat × Method) :=
  t.methods.toList.filterMap fun i => image.methods[i]?.map fun m => (i, m)

def findMethod? (image : Image) (t : TypeDef) (name : String) : Option (Nat × Method) :=
  (image.methodsOf t).find? fun (_, m) => m.name == name

def methodRef? (image : Image) (t : TypeDef) (method : Nat) : Option MethodRef :=
  image.methods[method]?.map fun m => ⟨image.id, method, t.name, m.name⟩

def owns (image : Image) (ref : MethodRef) : Bool := ref.image == image.id

/-- A reference to the same method, or to the one of the same names if it comes from another
image. -/
def rebase (image : Image) (ref : MethodRef) : Result MethodRef :=
  if image.owns ref && image.methods[ref.method]?.isSome then .ok ref
  else
    match image.findType? ref.typeName with
    | none => .error (.methodNotFound ref.typeName ref.methodName)
    | some (_, t) =>
      match (image.findMethod? t ref.methodName).bind fun (i, _) => image.methodRef? t i with
      | none => .error (.methodNotFound ref.typeName ref.methodName)
      | some found => .ok found

/-- Gives the image the symbols of a PDB, which must belong to it. -/
def attach (image : Image) (path : String) (pdb : Bytes) : Result Image := do
  let symbols ← Symbols.read path pdb image.file image.metadata.tables
  .ok { image with symbols := some symbols }

/-- Adds a method to a type, behind its methods and behind all others. -/
def addMethod (image : Image) (type : Nat) (method : Method) : Result (Image × Nat) :=
  if type < image.types.size then
    let id := image.methods.size
    .ok ({ image with
      types := image.types.modify type fun t => { t with methods := t.methods.push id }
      methods := image.methods.push method }, id)
  else .error .noModuleType

end Image

end CliImage
