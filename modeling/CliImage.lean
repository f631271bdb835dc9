import CliImage.Main
import CliImage.Proofs.Layout.Build
import CliImage.Proofs.Metadata.RoundTrip
import CliImage.Proofs.Renumber.Code
import CliImage.Proofs.Renumber.Isomorphism
import CliImage.Proofs.Renumber.Ownership
import CliImage.Proofs.Instruction
import CliImage.Proofs.Method.Body
import CliImage.Proofs.Layout.Simulation
import CliImage.Proofs.Output.Frame
import CliImage.Proofs.Output.Signed
import CliImage.Proofs.Output.Symbols
import CliImage.Proofs.Patch
import CliImage.Proofs.Image.Legal
import CliImage.Proofs.CommandLine
import CliImage.Proofs.Table.Lossless
import CliImage.Proofs.Signature.Encoding
import CliImage.Proofs.Signature.RoundTrip
import CliImage.Proofs.Symbols.DebugRows
import CliImage.Proofs.Output.Hashes
import CliImage.Proofs.Checksum
import CliImage.Proofs.Renumber.Monotone
import CliImage.Proofs.Renumber.Sorted
import CliImage.Proofs.Table.Fits
import CliImage.Proofs.Renumber.Fits
import CliImage.Proofs.Output.Writable
import CliImage.Proofs.Renumber.Params
import CliImage.Proofs.Renumber.Scopes
import CliImage.Proofs.Instruction.Overwrite
import CliImage.Proofs.Renumber.Operands
import CliImage.Proofs.Image.Resolution
import CliImage.Proofs.Renumber.Slots
import CliImage.Proofs.Symbols.PdbChecksum
import CliImage.Proofs.Symbols.Stepping
import CliImage.Proofs.Table.Widths
import CliImage.Proofs.Method.Sections
import CliImage.Proofs.Heap.Interning
import CliImage.Proofs.Image.Session
import CliImage.Proofs.Method.Encoding
import CliImage.Proofs.Signature.Name
import CliImage.Proofs.Image.Params
import CliImage.Proofs.Pe.Translation
import CliImage.Proofs.Compressed
import CliImage.Proofs.Renumber.CodedOrder
import CliImage.Proofs.Image.TypeName
import CliImage.Proofs.Output.Reread
