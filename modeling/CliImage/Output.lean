import CliImage.Checksum
import CliImage.Renumber.Sorting
import CliImage.StrongName.Signature
import CliImage.Symbols.PdbChecksum
import CliImage.Symbols.Renumber

/-!
Writing an image and its PDB with the methods that were added: a new section holds their bodies, the
metadata and a signature; what is left of the input is renumbered in place.
-/

namespace CliImage

structure Output where
  image : Bytes
  symbols : Option Bytes
  deriving DecidableEq, Repr

namespace Output

/-- What has been written of the added methods: the section, the heaps and a row for each. -/
structure AddedState where
  added : MetaSection
  metadata : Metadata
  rows : List (Nat × Row)

def addBody (plan : MethodPlan) (added : MetaSection) (m : Method) :
    Result (UInt32 × MetaSection) :=
  match m.encodedBody with
  | none => .ok (0, added)
  | some encoded => do
    let body ← plan.rids.body m encoded
    match MetaSection.push body added with
    | .ok rva added => .ok (rva, added)
    | .error e _ => .error e

def addMethod (image : Image) (plan : MethodPlan) (s : AddedState) (id : Nat) :
    Result AddedState := do
  let some m := image.methods[id]? | throw (.fault (.addedMethod id))
  let some signature := m.encodedSignature | throw (.unsupported (.addedSignature m.name))
  let (rva, added) ← addBody plan s.added m
  let (strings, name) := s.metadata.strings.intern m.name
  let (blobs, blob) ← s.metadata.blobs.intern signature
  let row : Row := #[rva, m.implFlags, m.flags, UInt32.ofNat name, UInt32.ofNat blob, 0]
  .ok { added, metadata := { s.metadata with strings, blobs }, rows := s.rows ++ [(id, row)] }

def addedRow (rows : List (Nat × Row)) (id : Nat) : Result Row :=
  match rows.lookup id with
  | some row => .ok row
  | none => .error (.fault (.addedRow id))

/-- Renumbers image and PDB where methods moved. -/
def renumber (plan : MethodPlan) (metadata : Metadata) (pdb : Option Metadata) :
    Result (Metadata × Option Metadata) :=
  if plan.isUnchanged then .ok (metadata, pdb)
  else do
    let tables ← metadata.tables.renumbered plan.rids
    match pdb with
    | none => .ok ({ metadata with tables }, none)
    | some pdb => do .ok ({ metadata with tables }, some (← pdb.renumberMethods plan))

/-- Puts the method rows in order and sorts what that has left unsorted. -/
def arrange (plan : MethodPlan) (rows : List (Nat × Row)) (metadata : Metadata)
    (pdb : Option Metadata) : Result (Metadata × Option Metadata) := do
  let (metadata, pdb) ← renumber plan metadata pdb
  let tables ← plan.apply metadata.tables (addedRow rows)
  let pair ← (TablePair.mk tables (pdb.map Metadata.tables)).sorted
  let pdb := match pdb, pair.symbols with
    | some pdb, some tables => some { pdb with tables }
    | pdb, _ => pdb
  .ok ({ metadata with tables := pair.image }, pdb)

/-- The flag of an assembly that carries its whole public key. -/
def publicKeyFlag : UInt32 := 0x0001

/-- Stores the public key in the assembly's row. -/
def storeKey (metadata : Metadata) (pair : KeyPair) : Result Metadata := do
  let some row := metadata.tables.row? .assembly 1 | throw (.unsupported .unsignable)
  let (blobs, index) ← metadata.blobs.intern pair.publicKey
  let tables := (metadata.tables.setCell .assembly 1 6 (UInt32.ofNat index)).setCell .assembly 1 5
    (row.getD 5 0 ||| publicKeyFlag)
  .ok { metadata with blobs, tables }

/-- Without a key an image that was signed is left unsigned. -/
def storeKey? (metadata : Metadata) (cli : CliHeader) :
    Option KeyPair → Result (Metadata × CliHeader)
  | some pair => do .ok (← storeKey metadata pair, cli)
  | none =>
    .ok (metadata, { cli with flags := cli.flags &&& ~~~CliHeader.strongNameSigned })

/-- Puts metadata and room for a signature into the section, and says so in the CLI header. -/
def pushMetadata (cli : CliHeader) (bytes : Bytes) (key : Option KeyPair) :
    MetaSection.Edit CliHeader := do
  let rva ← MetaSection.push bytes
  let cli := { cli with metadata := ⟨rva, UInt32.ofNat bytes.size⟩ }
  match key with
  | none => pure cli
  | some pair => do
    let rva ← MetaSection.reserve pair.signatureSize
    pure { cli with
      strongName := ⟨rva, UInt32.ofNat pair.signatureSize⟩
      flags := cli.flags ||| CliHeader.strongNameSigned }

def renumberEntryPoint (plan : MethodPlan) (cli : CliHeader) : CliHeader :=
  if cli.hasManagedEntryPoint then { cli with entryPoint := plan.rids.token cli.entryPoint } else cli

/-- The passes over the bytes that have been laid out: code, vtable slots and the CLI header. -/
def patch (image : Image) (plan : MethodPlan) (layout : LayoutPlan) (cli : CliHeader) :
    Edit Unit := do
  let offsetOf := layout.offset image.file
  if !plan.isUnchanged then do
    let _ ← plan.rids.code image.methods.toList offsetOf
    plan.rids.vtable image.cli.vtableFixups offsetOf
  let start ← Edit.lift (offsetOf image.file.cli.rva.toNat)
  Edit.put start cli.encode

/-- The PDB for the image's new tables; its hashes go into the image. -/
def writeSymbols (file : PeFile) (layout : LayoutPlan) (pdb : Metadata) (image : Tables)
    (data : Bytes) : Result (Bytes × Bytes) := do
  let (symbols, idOffset) ← pdb.encodePdb image
  let ((), data) ← (PdbChecksum.update file layout symbols idOffset).run data
  .ok (symbols, data)

def writeSymbols? (file : PeFile) (layout : LayoutPlan) (pdb : Option Metadata) (image : Tables)
    (data : Bytes) : Result (Option Bytes × Bytes) :=
  match pdb with
  | none => .ok (none, data)
  | some pdb => do
    let (symbols, data) ← writeSymbols file layout pdb image data
    .ok (some symbols, data)

/-- Signs the range that the CLI header names. -/
def signOutput (layout : LayoutPlan) (cli : CliHeader) (key : Option KeyPair) (data : Bytes) :
    Result Bytes :=
  match key with
  | none => .ok data
  | some pair =>
    let start := layout.sectionOffset cli.strongName.rva
    StrongName.sign data ⟨start, start + pair.signatureSize⟩ pair

end Output

open Output in
/-- The bytes of the image with its added methods, and of its PDB. -/
def Image.serialize (image : Image) (key : Option KeyPair) : Result Output := do
  let plan := MethodPlan.ofImage image
  let layout ← LayoutPlan.ofFile image.file
  let start : AddedState := ⟨⟨layout.sectionRva, #[]⟩, image.metadata, []⟩
  let s ← (plan.added.map Prod.snd).foldlM (Output.addMethod image plan) start
  let (metadata, pdb) ←
    arrange plan s.rows s.metadata (image.symbols.map Symbols.metadata)
  let (metadata, cli) ← storeKey? metadata image.cli key
  let (bytes, metadata) ← metadata.encode
  match pushMetadata cli bytes key s.added with
  | .error e _ => .error e
  | .ok cli added => do
    let cli := renumberEntryPoint plan cli
    let data ← layout.build image.file added
    let ((), data) ← (patch image plan layout cli).run data
    let (symbols, data) ← writeSymbols? image.file layout pdb metadata.tables data
    let data ← signOutput layout cli key data
    let (_, data) ← Checksum.update data image.file.headers.checksumOffset
    .ok { image := data, symbols }

end CliImage
