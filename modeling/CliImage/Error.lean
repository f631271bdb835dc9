import CliImage.Method.Clause
import CliImage.Table.CodedKind
import CliImage.Token

/-!
Why reading, resolving, injecting, signing or writing fails, and the text that says so.
-/

namespace CliImage

/-- What is wrong with the bytes or the values at hand. -/
inductive Fault
  | indexTooWide (value : UInt32)
  | cellTooWide (value : UInt32) (table : TableId)
  | compressedTooLarge (value : Nat)
  | compressedLead (lead : UInt8)
  | compressedToken (value : Nat)
  | noOptionalHeader
  | noCliDirectory
  | zeroAlignment
  | directoryAbsent (index : Nat)
  | rvaTooLarge (rva : Nat)
  | rvaUninitialized (rva : Nat) (inSection : String)
  | rvaUnmapped (rva : Nat)
  | offsetUnmapped (offset : Nat)
  | cellAbsent (table : TableId) (rid column : Nat)
  | rowWidth (table : TableId) (expected found : Nat)
  | noTables
  | unknownTable (number : Nat)
  | codedTag (tag : Nat) (kind : CodedKind)
  | codedTable (table : TableId) (kind : CodedKind)
  | rootMagic (found : UInt32)
  | noStreams
  | streamRange (name : String) (offset size : UInt32)
  | streamNameOpen
  | streamNameText
  | stringsHeap
  | stringText (index : Nat)
  | blobHeap
  | blobTooLarge (size : Nat)
  | guidHeap (size : Nat)
  | uncompressedTables
  | noTableStream
  | cliHeaderSize (found : UInt32)
  | noMetadata
  | bodyEmpty
  | bodyFormat (lead : UInt8)
  | bodyHeader (size : Nat)
  | bodySection (flags : UInt8)
  | bodyClause (clause : Clause) (codeSize : Nat)
  | bodyTooLarge (size : Nat)
  | signatureNesting
  | signatureGeneric (found : UInt8)
  | signatureElement (found : UInt8)
  | signatureConvention (found : UInt8)
  | opcode (value : UInt8)
  | opcodeExtended (value : UInt8)
  | opcodeReserved (value : Nat)
  | switchCases (count : Nat)
  | imageIsPdb
  | runRange (owner : TableId) (rid : Nat) (target : TableId) (first last : Nat)
  | methodRow (rid : Nat)
  | addedMethod (index : Nat)
  | addedRow (index : Nat)
  | tokenOperand (method : String)
  | debugRow (rid : Nat)
  | debugTable (number : Nat)
  | noPdbStream
  deriving DecidableEq, Repr, Inhabited

namespace Fault

def message : Fault → String
  | indexTooWide value => s!"Index {value.toNat} does not fit into a 2-byte column"
  | cellTooWide value table => s!"Value {value.toNat} does not fit into a u16 column of {table.name}"
  | compressedTooLarge value => s!"Value {value} is too large for a compressed integer"
  | compressedLead lead => s!"Invalid compressed uint - {lead.toNat}"
  | compressedToken value => s!"Invalid compressed token - {value}"
  | noOptionalHeader => "File does not have an OptionalHeader"
  | noCliDirectory => "File does not have a CLR runtime header directory"
  | zeroAlignment => "PE alignment values must not be zero"
  | directoryAbsent index => s!"Data directory {index} is not present in the optional header"
  | rvaTooLarge rva => s!"RVA too large to fit in u32: {rva}"
  | rvaUninitialized rva name =>
    s!"RVA {Hex.prefixed rva} points into uninitialized data of section {name}"
  | rvaUnmapped rva => s!"RVA could not be converted to offset - {Hex.prefixed rva}"
  | offsetUnmapped offset => s!"Offset could not be converted to RVA - {Hex.prefixed offset}"
  | cellAbsent table rid column => s!"{table.name} has no row {rid} column {column}"
  | rowWidth table expected found => s!"{table.name} rows have {expected} columns, got {found}"
  | noTables => "No valid rows in any of the tables"
  | unknownTable number => s!"Unknown metadata table 0x{Hex.padded 2 number}"
  | codedTag tag kind => s!"Invalid tag {tag} for coded index {kind.name}"
  | codedTable table kind => s!"Table {table.name} cannot be referenced by coded index {kind.name}"
  | rootMagic found => s!"CIL_HEADER_MAGIC does not match - {Hex.prefixed found.toNat}"
  | noStreams => "Metadata root does not list any streams"
  | streamRange name offset size =>
    s!"Stream {name} exceeds the metadata - {offset.toNat} + {size.toNat}"
  | streamNameOpen => "Stream header name is not terminated"
  | streamNameText => "Stream header name is not valid UTF-8"
  | stringsHeap => "Provided #Strings heap is empty"
  | stringText index => s!"Invalid string at index - {index}"
  | blobHeap => "Invalid memory for #Blob heap"
  | blobTooLarge size => s!"Blob of {size} bytes is too large"
  | guidHeap size => s!"#GUID heap size {size} is not a multiple of 16"
  | uncompressedTables => "Uncompressed metadata tables (#-) are not supported"
  | noTableStream => "Metadata has no #~ stream"
  | cliHeaderSize found => s!"Invalid CLR header size: expected 72, got {found.toNat}"
  | noMetadata => "Metadata directory cannot be empty"
  | bodyEmpty => "Provided data for body parsing is empty"
  | bodyFormat lead => s!"MethodHeader is neither FAT nor TINY - {lead.toNat}"
  | bodyHeader size => s!"Fat method header is too small - {size}"
  | bodySection flags => s!"Unsupported method data section - {Hex.prefixed flags.toNat}"
  | bodyClause clause codeSize =>
    s!"Exception clause {clause.text} lies outside of {codeSize} bytes of code"
  | bodyTooLarge size => s!"Method body of {size} bytes is too large"
  | signatureNesting => "Signature nesting exceeds 50 levels"
  | signatureGeneric found =>
    s!"GENERICINST - Next byte is not TYPE_CLASS or TYPE_VALUE - {found.toNat}"
  | signatureElement found => s!"Unsupported ELEMENT_TYPE - {found.toNat}"
  | signatureConvention found =>
    s!"Not a method signature - calling convention {Hex.prefixed found.toNat}"
  | opcode value => s!"Invalid opcode: {(Hex.padded 2 value.toNat).toUpper}"
  | opcodeExtended value => s!"Invalid opcode: FE {(Hex.padded 2 value.toNat).toUpper}"
  | opcodeReserved value => s!"Reserved opcode: {(Hex.padded 4 value).toUpper}"
  | switchCases count => s!"Switch with {count} cases exceeds the remaining code"
  | imageIsPdb => "The image metadata is a portable PDB"
  | runRange owner rid target first last =>
    s!"{owner.name} row {rid} owns an invalid {target.name} range {first}..{last}"
  | methodRow rid => s!"MethodDef row {rid} is missing"
  | addedMethod index => s!"Added method {index} is missing"
  | addedRow index => s!"No row for added method {index}"
  | tokenOperand method => s!"Token operand of {method} lies beyond the 32-bit address space"
  | debugRow rid => s!"MethodDebugInformation row {rid} is missing"
  | debugTable number => s!"#Pdb references unknown table 0x{Hex.padded 2 number}"
  | noPdbStream => "Rewritten symbols have no #Pdb stream"

end Fault

/-- Why symbols do not belong to an image. -/
inductive SymbolFault
  | unreadable
  | windows
  | noPdbStream
  | idDiffers
  | rowCount (described : Nat) (table : TableId) (found : Nat)
  | debugRows (rows methods : Nat)
  deriving DecidableEq, Repr, Inhabited

def SymbolFault.message (path : String) : SymbolFault → String
  | unreadable => path ++ " could not be read"
  | windows => path ++ " is a Windows PDB, only portable PDBs are supported"
  | noPdbStream => path ++ " has no #Pdb stream"
  | idDiffers => path ++ " does not match the image (PDB id differs from the CodeView entry)"
  | rowCount described table found =>
    path ++ s!" describes {described} {table.name} rows, the image has {found}"
  | debugRows rows methods =>
    path ++ s!" has {rows} MethodDebugInformation rows for {methods} methods"

/-- Why a key cannot be read or cannot sign. -/
inductive KeyFault
  | unreadable (path : String)
  | truncated
  | publicOnly
  | notPrivate (kind version : UInt8)
  | algorithm (found : UInt32)
  | magic (found : UInt32)
  | length (bits : Nat)
  | inconsistent
  | signing
  | notPublic
  | unusable
  | signatureSize (held signs : Nat)
  deriving DecidableEq, Repr, Inhabited

def KeyFault.message : KeyFault → String
  | unreadable path => path ++ " could not be read"
  | truncated => "Out of Bound read would have occurred!"
  | publicOnly => "The key file holds only a public key; delay signing is not supported"
  | notPrivate kind version =>
    s!"Not a private key blob (type 0x{Hex.padded 2 kind.toNat}, version {version.toNat})"
  | algorithm found => s!"Unsupported key algorithm 0x{Hex.padded 8 found.toNat}"
  | magic found => s!"Bad RSA private key magic 0x{Hex.padded 8 found.toNat}"
  | length bits => s!"Unsupported key length {bits}"
  | inconsistent => "Inconsistent RSA key"
  | signing => "Signing failed"
  | notPublic => "Not a public key blob"
  | unusable => "Unusable public key"
  | signatureSize held signs => s!"The signature blob holds {held} bytes, the key signs {signs}"

/-- What the library leaves undone. -/
inductive Unsupported
  | addedTarget (type method : String)
  | sectionSize
  | addressSpace
  | headerData
  | headerRoom (firstSection : Nat)
  | addedSignature (method : String)
  | unsignable
  deriving DecidableEq, Repr, Inhabited

def Unsupported.message : Unsupported → String
  | addedTarget type method => s!"{type}::{method} was added in this session and has no token yet"
  | sectionSize => "The rewritten data does not fit into a section"
  | addressSpace => "The image exceeds the 32-bit address space"
  | headerData => "The header area holds data behind the section table"
  | headerRoom first => "No room for another section header: the headers would overlap the first "
      ++ s!"section at RVA {Hex.prefixed first}"
  | addedSignature method => s!"Added method {method} has no encoded signature"
  | unsignable => "Only assemblies can be strong name signed, the image has no Assembly row"

inductive MethodPart
  | signature
  | body
  deriving DecidableEq, Repr, Inhabited

inductive Error
  | outOfBounds
  | empty
  | container
  | system
  | fault (fault : Fault)
  | inMethod (part : MethodPart) (method : String) (cause : Error)
  | image (cause : Error)
  | symbols (cause : Error)
  | pdb (path : String) (fault : SymbolFault)
  | key (fault : KeyFault)
  | unsupported (what : Unsupported)
  | notFound (path : String)
  | typeNotFound (name : String)
  | methodNotFound (type method : String)
  | hasParameters (method : String)
  | notVisible (method : String)
  | returnsValue (method found : String)
  | notStatic (method : String)
  | noModuleType
  | write (path : String)
  deriving DecidableEq, Repr, Inhabited

namespace Error

def message : Error → String
  | outOfBounds => "Out of Bound read would have occurred!"
  | empty => "Provided input was empty"
  | container => "Not a PE file"
  | system => "The system refused"
  | fault f => "Malformed - " ++ f.message
  | inMethod .signature method cause => "Malformed - Signature of method " ++ method ++ " - "
      ++ cause.message
  | inMethod .body method cause => "Malformed - Body of method " ++ method ++ " - " ++ cause.message
  | image cause => "Malformed image - " ++ cause.message
  | symbols cause => "Malformed symbols - " ++ cause.message
  | pdb path f => "Malformed symbols - " ++ f.message path
  | key f => "Invalid strong name key - " ++ f.message
  | unsupported what => "Not supported - " ++ what.message
  | notFound path => "'" ++ path ++ "' does not exist"
  | typeNotFound name => "No type found named '" ++ name ++ "'"
  | methodNotFound type method =>
    "No method named '" ++ method ++ "' exists in the type '" ++ type ++ "'"
  | hasParameters method =>
    "Module initializer method '" ++ method ++ "' must not have any parameters"
  | notVisible method => "Module initializer method '" ++ method
      ++ "' may not be private or protected, use public or internal instead"
  | returnsValue method found => "Module initializer method '" ++ method
      ++ "' must have 'void' as return type, found '" ++ found ++ "'"
  | notStatic method => "Module initializer method '" ++ method ++ "' must be static"
  | noModuleType => "No module class found"
  | write path => "Failed to write '" ++ path ++ "'"

/-- Whether the error speaks of the bytes that were read and not of a request. -/
def isMalformed : Error → Bool
  | outOfBounds | empty | container | fault _ | inMethod .. => true
  | _ => false

/-- Says that it was an image that could not be read. -/
def inImage (e : Error) : Error := if e.isMalformed then image e else e

/-- Says that it was a symbol file that could not be read. -/
def inSymbols (e : Error) : Error :=
  match e with
  | image _ | unsupported _ => symbols e
  | _ => if e.isMalformed then symbols e else e

end Error

abbrev Result := Except Error

end CliImage
