/-!
What the flag columns of a method say: accessibility, modifiers and the kind of code.
-/

namespace CliImage

/-- The two flag columns of a method. -/
structure MethodFlags where
  flags : Nat
  impl : Nat
  deriving DecidableEq, Repr, Inhabited

namespace MethodFlags

def access (m : MethodFlags) : Nat := m.flags % 8

def privateAccess : Nat := 1

def familyAccess : Nat := 4

def accessKeyword (m : MethodFlags) : String :=
  match m.access with
  | 1 => "private"
  | 2 => "private protected"
  | 3 => "internal"
  | 4 => "protected"
  | 5 => "protected internal"
  | 6 => "public"
  | _ => "compiler controlled"

def modifierNames : List (Nat × String) := [
  (0x10, "STATIC"), (0x20, "FINAL"), (0x40, "VIRTUAL"), (0x80, "HIDE_BY_SIG"), (0x200, "STRICT"),
  (0x400, "ABSTRACT"), (0x800, "SPECIAL_NAME"), (0x1000, "RTSPECIAL_NAME"),
  (0x2000, "PINVOKE_IMPL"), (0x4000, "HAS_SECURITY"), (0x8000, "REQUIRE_SEC_OBJECT"),
  (0x8, "UNMANAGED_EXPORT")]

/-- The bits that are modifiers: neither accessibility nor vtable layout. -/
def modifierMask : Nat := 0xFEF8

def modifiers (m : MethodFlags) : Nat := m.flags &&& modifierMask

def setModifiers (m : MethodFlags) : List String :=
  (modifierNames.filter fun (mask, _) => m.modifiers &&& mask == mask).map Prod.snd

def isStatic (m : MethodFlags) : Bool := m.flags.testBit 4

def codeType (m : MethodFlags) : Nat := m.impl % 4

/-- Whether the method's body is intermediate language. -/
def isIl (m : MethodFlags) : Bool := m.codeType == 0

end MethodFlags

end CliImage
