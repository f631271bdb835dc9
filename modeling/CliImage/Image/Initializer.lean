import CliImage.Image.Basic
import CliImage.Signature.Reader

/-!
Module initializers: which methods may be one, and adding an initializer that calls it.
-/

namespace CliImage.Image

def voidName : String := "System.Void"

/-- What a method must be to be called when the module is loaded, named as `method`. -/
def checkInitializer (method : String) (m : Method) : Result Unit :=
  if ¬ m.params.isEmpty then .error (.hasParameters method)
  else if m.columns.access = MethodFlags.privateAccess ∨
      m.columns.access = MethodFlags.familyAccess then
    .error (.notVisible method)
  else if m.returnType ≠ voidName then .error (.returnsValue method m.returnType)
  else if ¬ m.isStatic then .error (.notStatic method)
  else .ok ()

/-- The first method of a name in the first type of a name, which must be fit to be an
initializer. -/
def resolve (image : Image) (type method : String) : Result MethodRef := do
  let some (_, t) := image.findType? type | throw (.typeNotFound type)
  let some (i, m) := image.findMethod? t method | throw (.methodNotFound type method)
  checkInitializer method m
  let some ref := image.methodRef? t i | throw (.methodNotFound type method)
  .ok ref

def initializerName : String := ".cctor"

/-- No parameters, returns nothing. -/
def initializerSignature : Bytes := #[0x00, 0x00, 0x01]

/-- Static, with a special name that the runtime knows. -/
def initializerFlags : UInt32 := 0x1810

def callOpcode : UInt8 := 0x28

def returnOpcode : UInt8 := 0x2A

def initializerCode (target : Token) : Bytes :=
  #[callOpcode] ++ Bytes.ofUInt32 target.value ++ #[returnOpcode]

/-- An initializer that calls one method and returns. -/
def initializerCalling (target : Token) : Result Method := do
  let code := initializerCode target
  let encoded ← Body.encode code 8
  let body ← Body.read encoded
  let instructions ← Instruction.decode code (UInt64.ofNat body.headerSize)
  let signature ← Signature.read initializerSignature
  .ok {
    rid := none, name := initializerName, rva := 0, flags := initializerFlags, implFlags := 0
    signature, returnType := voidName, params := [], body := some body, instructions
    encodedBody := some encoded, encodedSignature := some initializerSignature }

/-- Adds an initializer to the module type that calls the method. -/
def inject (image : Image) (target : MethodRef) : Result Image := do
  if image.moduleType?.isNone then throw .noModuleType
  let target ← image.rebase target
  match (image.methods[target.method]?).bind Method.token? with
  | none => throw (.unsupported (.addedTarget target.typeName target.methodName))
  | some token => do
    let (image, _) ← image.addMethod 0 (← initializerCalling token)
    .ok image

end CliImage.Image
