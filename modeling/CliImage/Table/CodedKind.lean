import CliImage.Table.Id

/-!
The kinds of coded index: each lists the tables it can select, and the place in that list is the tag.
A gap in the list is a reserved tag.
-/

namespace CliImage

inductive CodedKind
  | typeDefOrRef
  | hasConstant
  | hasCustomAttribute
  | hasFieldMarshal
  | hasDeclSecurity
  | memberRefParent
  | hasSemantics
  | methodDefOrRef
  | memberForwarded
  | implementation
  | customAttributeType
  | resolutionScope
  | typeOrMethodDef
  | hasCustomDebugInformation
  deriving DecidableEq, Repr, Inhabited

namespace CodedKind

def all : List CodedKind := [
  .typeDefOrRef, .hasConstant, .hasCustomAttribute, .hasFieldMarshal, .hasDeclSecurity,
  .memberRefParent, .hasSemantics, .methodDefOrRef, .memberForwarded, .implementation,
  .customAttributeType, .resolutionScope, .typeOrMethodDef, .hasCustomDebugInformation]

def name : CodedKind → String
  | .typeDefOrRef => "TypeDefOrRef"
  | .hasConstant => "HasConstant"
  | .hasCustomAttribute => "HasCustomAttribute"
  | .hasFieldMarshal => "HasFieldMarshal"
  | .hasDeclSecurity => "HasDeclSecurity"
  | .memberRefParent => "MemberRefParent"
  | .hasSemantics => "HasSemantics"
  | .methodDefOrRef => "MethodDefOrRef"
  | .memberForwarded => "MemberForwarded"
  | .implementation => "Implementation"
  | .customAttributeType => "CustomAttributeType"
  | .resolutionScope => "ResolutionScope"
  | .typeOrMethodDef => "TypeOrMethodDef"
  | .hasCustomDebugInformation => "HasCustomDebugInformation"

def ofName? (text : String) : Option CodedKind := all.find? (·.name == text)

def tables : CodedKind → List (Option TableId)
  | .typeDefOrRef => [some .typeDef, some .typeRef, some .typeSpec]
  | .hasConstant => [some .field, some .param, some .property]
  | .hasCustomAttribute => [some .methodDef, some .field, some .typeRef, some .typeDef,
      some .param, some .interfaceImpl, some .memberRef, some .module, some .declSecurity,
      some .property, some .event, some .standAloneSig, some .moduleRef, some .typeSpec,
      some .assembly, some .assemblyRef, some .file, some .exportedType, some .manifestResource,
      some .genericParam, some .genericParamConstraint, some .methodSpec]
  | .hasFieldMarshal => [some .field, some .param]
  | .hasDeclSecurity => [some .typeDef, some .methodDef, some .assembly]
  | .memberRefParent => [some .typeDef, some .typeRef, some .moduleRef, some .methodDef,
      some .typeSpec]
  | .hasSemantics => [some .event, some .property]
  | .methodDefOrRef => [some .methodDef, some .memberRef]
  | .memberForwarded => [some .field, some .methodDef]
  | .implementation => [some .file, some .assemblyRef, some .exportedType]
  | .customAttributeType => [none, none, some .methodDef, some .memberRef, none]
  | .resolutionScope => [some .module, some .moduleRef, some .assemblyRef, some .typeRef]
  | .typeOrMethodDef => [some .typeDef, some .methodDef]
  | .hasCustomDebugInformation => [some .methodDef, some .field, some .typeRef, some .typeDef,
      some .param, some .interfaceImpl, some .memberRef, some .module, some .declSecurity,
      some .property, some .event, some .standAloneSig, some .moduleRef, some .typeSpec,
      some .assembly, some .assemblyRef, some .file, some .exportedType, some .manifestResource,
      some .genericParam, some .genericParamConstraint, some .methodSpec, some .document,
      some .localScope, some .localVariable, some .localConstant, some .importScope]

/-- The tag takes as many bits as the length of the list needs. -/
def tagBits (kind : CodedKind) : Nat := (kind.tables.length - 1).log2 + 1

theorem mem_all (kind : CodedKind) : kind ∈ all := by cases kind <;> decide

end CodedKind

end CliImage
