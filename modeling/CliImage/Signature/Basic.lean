import CliImage.Token

/-!
Method signatures and the types in them.
-/

namespace CliImage

/-- A custom modifier: a type that a reader must or may know. -/
structure Modifier where
  required : Bool
  type : Token
  deriving DecidableEq, Repr, Inhabited

structure Dimension where
  size : Option Nat
  lowerBound : Option Nat
  deriving DecidableEq, Repr, Inhabited

structure Param (τ : Type) where
  modifiers : List Modifier
  byRef : Bool
  type : τ
  deriving Repr

structure MethodSig (τ : Type) where
  hasThis : Bool
  explicitThis : Bool
  vararg : Bool
  genericCount : Nat
  paramCount : Nat
  returns : Param τ
  params : List (Param τ)
  varargs : List (Param τ)
  deriving Repr

inductive Primitive
  | void
  | boolean
  | char
  | i1
  | u1
  | i2
  | u2
  | i4
  | u4
  | i8
  | u8
  | r4
  | r8
  | string
  | typedByRef
  | i
  | u
  | object
  | internal
  deriving DecidableEq, Repr, Inhabited

inductive SigType
  | primitive (p : Primitive)
  | ptr (modifiers : List Modifier) (target : SigType)
  | byRef (target : SigType)
  | valueType (token : Token)
  | class (token : Token)
  | typeParam (index : Nat)
  | methodParam (index : Nat)
  | array (element : SigType) (rank : Nat) (dimensions : List Dimension)
  | generic (base : SigType) (args : List SigType)
  | fnPtr (method : MethodSig SigType)
  | vector (modifiers : List Modifier) (element : SigType)
  | modified (modifier : Modifier) (type : SigType)
  | pinned (type : SigType)
  deriving Repr

abbrev Signature := MethodSig SigType

namespace Primitive

def all : List Primitive := [
  void, boolean, char, i1, u1, i2, u2, i4, u4, i8, u8, r4, r8, string, typedByRef, i, u, object,
  internal]

/-- The byte that stands for the type in a signature. -/
def code : Primitive → UInt8
  | void => 0x01
  | boolean => 0x02
  | char => 0x03
  | i1 => 0x04
  | u1 => 0x05
  | i2 => 0x06
  | u2 => 0x07
  | i4 => 0x08
  | u4 => 0x09
  | i8 => 0x0A
  | u8 => 0x0B
  | r4 => 0x0C
  | r8 => 0x0D
  | string => 0x0E
  | typedByRef => 0x16
  | i => 0x18
  | u => 0x19
  | object => 0x1C
  | internal => 0x21

def ofCode? (b : UInt8) : Option Primitive := all.find? (·.code == b)

def fullName : Primitive → String
  | void => "System.Void"
  | boolean => "System.Boolean"
  | char => "System.Char"
  | i1 => "System.SByte"
  | u1 => "System.Byte"
  | i2 => "System.Int16"
  | u2 => "System.UInt16"
  | i4 => "System.Int32"
  | u4 => "System.UInt32"
  | i8 => "System.Int64"
  | u8 => "System.UInt64"
  | r4 => "System.Single"
  | r8 => "System.Double"
  | string => "System.String"
  | typedByRef => "System.TypedReference"
  | i => "System.IntPtr"
  | u => "System.UIntPtr"
  | object => "System.Object"
  | internal => "<internal>"

end Primitive

end CliImage
