import CliImage.Signature.Reader

/-! The spelling of method signatures, and the signatures that are spelled in one way only. -/

namespace CliImage

namespace Signature

/-- The greatest number that a signature can hold. -/
def numberLimit : Nat := 0x1FFFFFFF

def isNumber (n : Nat) : Bool := n ≤ numberLimit

def encodeNumber (n : Nat) : Bytes := (Compressed.encode? n).getD #[]

def encodeNumbers : List Nat → Bytes
  | [] => #[]
  | n :: ns => encodeNumber n ++ encodeNumbers ns

/-- The low bits of a spelled type token. -/
def tokenTag? (token : Token) : Option Nat :=
  if token.table = TableId.typeDef.number then some 0
  else if token.table = TableId.typeRef.number then some 1
  else if token.table = TableId.typeSpec.number then some 2
  else none

def isTypeToken (token : Token) : Bool := (tokenTag? token).isSome

def encodeToken (token : Token) : Bytes :=
  encodeNumber (token.row * 4 + (tokenTag? token).getD 0)

def modifierCode (modifier : Modifier) : UInt8 :=
  if modifier.required then requiredModifier else optionalModifier

def encodeModifiers : List Modifier → Bytes
  | [] => #[]
  | m :: ms => #[modifierCode m] ++ (encodeToken m.type ++ encodeModifiers ms)

/-- The sizes that are given, then the lower bounds that are given. -/
def encodeShape (rank : Nat) (dimensions : List Dimension) : Bytes :=
  let sizes := dimensions.filterMap Dimension.size
  let bounds := dimensions.filterMap Dimension.lowerBound
  encodeNumber rank ++ (encodeNumber sizes.length ++ (encodeNumbers sizes ++
    (encodeNumber bounds.length ++ encodeNumbers bounds)))

def convention (hasThis explicitThis vararg generic : Bool) : UInt8 :=
  (if vararg then 0x05 else 0) ||| (if generic then 0x10 else 0) |||
    (if hasThis then 0x20 else 0) ||| (if explicitThis then 0x40 else 0)

mutual

def encodeType : SigType → Bytes
  | .primitive p => #[p.code]
  | .ptr modifiers target => #[0x0F] ++ (encodeModifiers modifiers ++ encodeType target)
  | .byRef target => #[byRefCode] ++ encodeType target
  | .valueType token => #[0x11] ++ encodeToken token
  | .class token => #[0x12] ++ encodeToken token
  | .typeParam index => #[0x13] ++ encodeNumber index
  | .array element rank dimensions =>
    #[0x14] ++ (encodeType element ++ encodeShape rank dimensions)
  | .generic base args =>
    #[0x15] ++ (encodeType base ++ (encodeNumber args.length ++ encodeTypes args))
  | .fnPtr method => #[0x1B] ++ encodeMethod method
  | .vector modifiers element => #[0x1D] ++ (encodeModifiers modifiers ++ encodeType element)
  | .methodParam index => #[0x1E] ++ encodeNumber index
  | .modified modifier type =>
    #[modifierCode modifier] ++ (encodeToken modifier.type ++ encodeType type)
  | .pinned type => #[0x45] ++ encodeType type

def encodeTypes : List SigType → Bytes
  | [] => #[]
  | t :: ts => encodeType t ++ encodeTypes ts

/-- The sentinel stands in front of variable arguments. -/
def encodeMethod : MethodSig SigType → Bytes
  | ⟨hasThis, explicitThis, vararg, genericCount, paramCount, returns, params, varargs⟩ =>
    #[convention hasThis explicitThis vararg (genericCount != 0)] ++
      ((if genericCount != 0 then encodeNumber genericCount else #[]) ++
        (encodeNumber paramCount ++ (encodeParam returns ++ (encodeParams params ++
          ((if varargs.isEmpty then #[] else #[sentinel]) ++ encodeParams varargs)))))

def encodeParam : Param SigType → Bytes
  | ⟨modifiers, byRef, type⟩ =>
    encodeModifiers modifiers ++ ((if byRef then #[byRefCode] else #[]) ++ encodeType type)

def encodeParams : List (Param SigType) → Bytes
  | [] => #[]
  | p :: ps => encodeParam p ++ encodeParams ps

end

def encode (sig : Signature) : Bytes := encodeMethod sig

def isModified : SigType → Bool
  | .modified .. => true
  | _ => false

def isByRef : SigType → Bool
  | .byRef _ => true
  | _ => false

/-- Whether a type can be the base of a generic one. -/
def isNominal : SigType → Bool
  | .class _ | .valueType _ => true
  | _ => false

/-- Modifiers and a mark in front of a parameter's type are those of the parameter. -/
def isNormalParam (p : Param SigType) : Bool :=
  p.modifiers.all (isTypeToken ·.type) && (p.byRef || !isModified p.type && !isByRef p.type)

def allParams (sig : Signature) : List (Param SigType) :=
  sig.returns :: (sig.params ++ sig.varargs)

def isNormalMethod (sig : Signature) : Bool :=
  isNumber sig.genericCount && isNumber sig.paramCount &&
    sig.paramCount == sig.params.length + sig.varargs.length &&
    (sig.vararg || sig.varargs.isEmpty) && (allParams sig).all isNormalParam

/-- All sizes are given, and lower bounds for the first dimensions only. -/
def isNormalShape (rank : Nat) (dimensions : List Dimension) : Bool :=
  isNumber rank && isNumber dimensions.length &&
    dimensions.all (fun d => d.size.any isNumber && d.lowerBound.all isNumber) &&
    (dimensions.dropWhile (·.lowerBound.isSome)).all (·.lowerBound.isNone)

/-- What the normal form asks at the top of a type. -/
def isNormalTop : SigType → Bool
  | .primitive _ | .byRef _ | .pinned _ => true
  | .ptr modifiers type | .vector modifiers type =>
    modifiers.all (isTypeToken ·.type) && !isModified type
  | .valueType token | .class token => isTypeToken token
  | .typeParam index | .methodParam index => isNumber index
  | .array _ rank dimensions => isNormalShape rank dimensions
  | .generic base args => isNominal base && isNumber args.length
  | .fnPtr method => isNormalMethod method
  | .modified modifier _ => isTypeToken modifier.type

def methodParts (sig : Signature) : List SigType := (allParams sig).map Param.type

/-- The types one level below. -/
def parts : SigType → List SigType
  | .primitive _ | .valueType _ | .class _ | .typeParam _ | .methodParam _ => []
  | .ptr _ type | .byRef type | .array type _ _ | .vector _ type | .modified _ type
  | .pinned type => [type]
  | .generic base args => base :: args
  | .fnPtr method => methodParts method

/-- Whether a type is in normal form on every level and has that many levels at most. -/
def isNormalType : Nat → SigType → Bool
  | 0, _ => false
  | depth + 1, type => isNormalTop type && (parts type).all (isNormalType depth)

/-- Whether a signature is in normal form, its types nested that deep at most. -/
def isNormal (depth : Nat) (sig : Signature) : Bool :=
  isNormalMethod sig && (methodParts sig).all (isNormalType depth)

end Signature

end CliImage
