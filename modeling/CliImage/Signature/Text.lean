import CliImage.Signature.Basic

/-!
The names of types as they are shown, with a function that names tokens.
-/

namespace CliImage

def renderModifiers (name : Token → String) (modifiers : List Modifier) : String :=
  String.join (modifiers.map fun m =>
    (if m.required then " modreq(" else " modopt(") ++ name m.type ++ ")")

mutual

def SigType.fullName (name : Token → String) : SigType → String
  | .primitive p => p.fullName
  | .ptr modifiers target => target.fullName name ++ "*" ++ renderModifiers name modifiers
  | .byRef target => target.fullName name ++ "&"
  | .valueType token => name token
  | .class token => name token
  | .typeParam index => "!" ++ toString index
  | .methodParam index => "!!" ++ toString index
  | .array element rank _ =>
    element.fullName name ++ "[" ++ String.ofList (List.replicate (rank - 1) ',') ++ "]"
  | .generic base args => base.fullName name ++ "<" ++ ",".intercalate (namesOf name args) ++ ">"
  | .fnPtr method => pointerName name method
  | .vector modifiers element =>
    element.fullName name ++ renderModifiers name modifiers ++ "[]"
  | .modified modifier type => type.fullName name ++ renderModifiers name [modifier]
  | .pinned type => type.fullName name ++ " pinned"

def namesOf (name : Token → String) : List SigType → List String
  | [] => []
  | t :: ts => t.fullName name :: namesOf name ts

def pointerName (name : Token → String) : MethodSig SigType → String
  | ⟨_, _, _, _, _, returns, params, _⟩ =>
    "method " ++ paramName name returns ++ " *(" ++ ",".intercalate (paramNames name params) ++ ")"

def paramName (name : Token → String) : Param SigType → String
  | ⟨modifiers, byRef, type⟩ =>
    type.fullName name ++ (if byRef then "&" else "") ++ renderModifiers name modifiers

def paramNames (name : Token → String) : List (Param SigType) → List String
  | [] => []
  | p :: ps => paramName name p :: paramNames name ps

end

def Param.fullName (name : Token → String) (p : Param SigType) : String := paramName name p

end CliImage
