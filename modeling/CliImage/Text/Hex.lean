/-!
Hexadecimal text, lowercase.
-/

namespace CliImage.Hex

def digits (n : Nat) : String := String.ofList (Nat.toDigits 16 n)

/-- At least `w` digits, zeros in front. -/
def padded (w n : Nat) : String :=
  let ds := Nat.toDigits 16 n
  String.ofList (List.replicate (w - ds.length) '0' ++ ds)

def prefixed (n : Nat) : String := "0x" ++ digits n

end CliImage.Hex
