/-!
A part of an image by its first address and its size.
-/

namespace CliImage

structure Span where
  rva : UInt32
  size : UInt32
  deriving DecidableEq, Repr, Inhabited

end CliImage
