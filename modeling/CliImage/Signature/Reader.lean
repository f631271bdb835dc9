import CliImage.Compressed
import CliImage.Signature.Basic

/-!
Reading method signatures. Types nest 49 levels deep at most.
-/

namespace CliImage.Signature

def nestingLimit : Nat := 49

def requiredModifier : UInt8 := 0x1F

def optionalModifier : UInt8 := 0x20

def byRefCode : UInt8 := 0x10

def sentinel : UInt8 := 0x41

/-- Reads custom modifiers while there are any; each takes a byte or more. -/
def readModifiersWithin : Nat → Reader (List Modifier)
  | 0 => pure []
  | room + 1 => do
    if ← Reader.hasMore then do
      let next ← Reader.peek
      if next = requiredModifier ∨ next = optionalModifier then do
        Reader.advance 1
        let type ← Compressed.readToken
        let rest ← readModifiersWithin room
        pure (⟨next == requiredModifier, type⟩ :: rest)
      else pure []
    else pure []

def readModifiers : Reader (List Modifier) := do
  readModifiersWithin (← Reader.data).size

/-- Lower bounds belong to the first dimensions; there may be fewer or more of them. -/
def dimensions : List Nat → List Nat → List Dimension
  | [], _ => []
  | size :: sizes, [] => ⟨some size, none⟩ :: dimensions sizes []
  | size :: sizes, bound :: bounds => ⟨some size, some bound⟩ :: dimensions sizes bounds

def readArray (type : Reader SigType) : Reader SigType := do
  let element ← type
  let rank ← Compressed.read
  let sizes ← Reader.many Compressed.read (← Compressed.read)
  let bounds ← Reader.many Compressed.read (← Compressed.read)
  pure (.array element rank (dimensions sizes bounds))

def readGeneric (type : Reader SigType) : Reader SigType := do
  let next ← Reader.peek
  if next ≠ 0x12 ∧ next ≠ 0x11 then Reader.fail (.fault (.signatureGeneric next))
  let base ← type
  let args ← Reader.many type (← Compressed.read)
  pure (.generic base args)

def readParam (type : Reader SigType) : Reader (Param SigType) := do
  let modifiers ← readModifiers
  let byRef := (← Reader.peek) == byRefCode
  if byRef then Reader.advance 1
  let type ← type
  pure { modifiers, byRef, type }

/-- Reads parameters up to their number or up to the sentinel, which is taken. -/
def readParams (param : Reader (Param SigType)) : Nat → Reader (List (Param SigType))
  | 0 => pure []
  | n + 1 => do
    if (← Reader.peek) = sentinel then do
      Reader.advance 1
      pure []
    else do
      let first ← param
      let rest ← readParams param n
      pure (first :: rest)

def readMethod (type : Reader SigType) : Reader Signature := do
  let convention ← Reader.u8
  if 0x05 < convention &&& 0x0F then Reader.fail (.fault (.signatureConvention convention))
  let vararg := convention &&& 0x0F == 0x05
  let genericCount ← if convention &&& 0x10 ≠ 0 then Compressed.read else pure 0
  let paramCount ← Compressed.read
  let returns ← readParam type
  let params ← readParams (readParam type) paramCount
  let varargs ← if vararg then Reader.many (readParam type) (paramCount - params.length)
    else pure []
  pure {
    hasThis := convention &&& 0x20 != 0, explicitThis := convention &&& 0x40 != 0, vararg
    genericCount, paramCount, returns, params, varargs }

/-- Reads a type with that much room for nesting. -/
def readType : Nat → Reader SigType
  | 0 => Reader.fail (.fault .signatureNesting)
  | room + 1 => do
    let code ← Reader.u8
    match Primitive.ofCode? code with
    | some p => pure (.primitive p)
    | none =>
      match code with
      | 0x0F => do
        let modifiers ← readModifiers
        let target ← readType room
        pure (.ptr modifiers target)
      | 0x10 => SigType.byRef <$> readType room
      | 0x11 => SigType.valueType <$> Compressed.readToken
      | 0x12 => SigType.class <$> Compressed.readToken
      | 0x13 => SigType.typeParam <$> Compressed.read
      | 0x14 => readArray (readType room)
      | 0x15 => readGeneric (readType room)
      | 0x1B => SigType.fnPtr <$> readMethod (readType room)
      | 0x1D => do
        let modifiers ← readModifiers
        let element ← readType room
        pure (.vector modifiers element)
      | 0x1E => SigType.methodParam <$> Compressed.read
      | 0x1F => do
        let type ← Compressed.readToken
        let base ← readType room
        pure (.modified ⟨true, type⟩ base)
      | 0x20 => do
        let type ← Compressed.readToken
        let base ← readType room
        pure (.modified ⟨false, type⟩ base)
      | 0x45 => SigType.pinned <$> readType room
      | _ => Reader.fail (.fault (.signatureElement code))

/-- The method signature at the front of a blob. -/
def read (blob : Bytes) : Result Signature := (readMethod (readType nestingLimit)).run blob

end CliImage.Signature
