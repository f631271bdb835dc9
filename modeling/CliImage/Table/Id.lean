/-!
The kinds of metadata table. A kind has a place among the kinds (`slot`) and a number in tokens and
bit masks (`number`); three numbers between the image tables and the debug tables are unused.
-/

namespace CliImage

inductive TableId
  | module
  | typeRef
  | typeDef
  | fieldPtr
  | field
  | methodPtr
  | methodDef
  | paramPtr
  | param
  | interfaceImpl
  | memberRef
  | constant
  | customAttribute
  | fieldMarshal
  | declSecurity
  | classLayout
  | fieldLayout
  | standAloneSig
  | eventMap
  | eventPtr
  | event
  | propertyMap
  | propertyPtr
  | property
  | methodSemantics
  | methodImpl
  | moduleRef
  | typeSpec
  | implMap
  | fieldRva
  | encLog
  | encMap
  | assembly
  | assemblyProcessor
  | assemblyOs
  | assemblyRef
  | assemblyRefProcessor
  | assemblyRefOs
  | file
  | exportedType
  | manifestResource
  | nestedClass
  | genericParam
  | methodSpec
  | genericParamConstraint
  | document
  | methodDebugInformation
  | localScope
  | localVariable
  | localConstant
  | importScope
  | stateMachineMethod
  | customDebugInformation
  deriving DecidableEq, Repr, Inhabited

namespace TableId

def all : List TableId := [
  .module, .typeRef, .typeDef, .fieldPtr, .field, .methodPtr, .methodDef, .paramPtr, .param,
  .interfaceImpl, .memberRef, .constant, .customAttribute, .fieldMarshal, .declSecurity,
  .classLayout, .fieldLayout, .standAloneSig, .eventMap, .eventPtr, .event, .propertyMap,
  .propertyPtr, .property, .methodSemantics, .methodImpl, .moduleRef, .typeSpec, .implMap,
  .fieldRva, .encLog, .encMap, .assembly, .assemblyProcessor, .assemblyOs, .assemblyRef,
  .assemblyRefProcessor, .assemblyRefOs, .file, .exportedType, .manifestResource, .nestedClass,
  .genericParam, .methodSpec, .genericParamConstraint, .document, .methodDebugInformation,
  .localScope, .localVariable, .localConstant, .importScope, .stateMachineMethod,
  .customDebugInformation]

def count : Nat := 53

def slot (t : TableId) : Nat := t.ctorIdx

/-- The byte that stands for the table in a token. -/
def number (t : TableId) : Nat := if t.slot < 45 then t.slot else t.slot + 3

/-- The debug tables are those that a portable PDB adds. -/
def isDebug (t : TableId) : Bool := 0x30 ≤ t.number

def ofNumber? (n : Nat) : Option TableId := all.find? (·.number == n)

def name : TableId → String
  | .module => "Module"
  | .typeRef => "TypeRef"
  | .typeDef => "TypeDef"
  | .fieldPtr => "FieldPtr"
  | .field => "Field"
  | .methodPtr => "MethodPtr"
  | .methodDef => "MethodDef"
  | .paramPtr => "ParamPtr"
  | .param => "Param"
  | .interfaceImpl => "InterfaceImpl"
  | .memberRef => "MemberRef"
  | .constant => "Constant"
  | .customAttribute => "CustomAttribute"
  | .fieldMarshal => "FieldMarshal"
  | .declSecurity => "DeclSecurity"
  | .classLayout => "ClassLayout"
  | .fieldLayout => "FieldLayout"
  | .standAloneSig => "StandAloneSig"
  | .eventMap => "EventMap"
  | .eventPtr => "EventPtr"
  | .event => "Event"
  | .propertyMap => "PropertyMap"
  | .propertyPtr => "PropertyPtr"
  | .property => "Property"
  | .methodSemantics => "MethodSemantics"
  | .methodImpl => "MethodImpl"
  | .moduleRef => "ModuleRef"
  | .typeSpec => "TypeSpec"
  | .implMap => "ImplMap"
  | .fieldRva => "FieldRVA"
  | .encLog => "EncLog"
  | .encMap => "EncMap"
  | .assembly => "Assembly"
  | .assemblyProcessor => "AssemblyProcessor"
  | .assemblyOs => "AssemblyOS"
  | .assemblyRef => "AssemblyRef"
  | .assemblyRefProcessor => "AssemblyRefProcessor"
  | .assemblyRefOs => "AssemblyRefOS"
  | .file => "File"
  | .exportedType => "ExportedType"
  | .manifestResource => "ManifestResource"
  | .nestedClass => "NestedClass"
  | .genericParam => "GenericParam"
  | .methodSpec => "MethodSpec"
  | .genericParamConstraint => "GenericParamConstraint"
  | .document => "Document"
  | .methodDebugInformation => "MethodDebugInformation"
  | .localScope => "LocalScope"
  | .localVariable => "LocalVariable"
  | .localConstant => "LocalConstant"
  | .importScope => "ImportScope"
  | .stateMachineMethod => "StateMachineMethod"
  | .customDebugInformation => "CustomDebugInformation"

def ofName? (text : String) : Option TableId := all.find? (·.name == text)

theorem mem_all (t : TableId) : t ∈ all := by cases t <;> decide

theorem slot_lt (t : TableId) : t.slot < count := by cases t <;> decide

theorem number_lt (t : TableId) : t.number < 64 := by cases t <;> decide

theorem slot_injective {s t : TableId} (h : s.slot = t.slot) : s = t := by
  have : ∀ s ∈ all, ∀ t ∈ all, s.slot = t.slot → s = t := by decide
  exact this s (mem_all s) t (mem_all t) h

end TableId

end CliImage
