import CliImage.Hash.Padding

/-!
SHA-1.
-/

namespace CliImage.Hash.Sha1

structure State where
  a : UInt32
  b : UInt32
  c : UInt32
  d : UInt32
  e : UInt32
  deriving DecidableEq, Repr, Inhabited

def start : State := ⟨0x67452301, 0xefcdab89, 0x98badcfe, 0x10325476, 0xc3d2e1f0⟩

def rotate (x n : UInt32) : UInt32 := (x <<< n) ||| (x >>> (32 - n))

def word (data : Bytes) (offset : Nat) : UInt32 :=
  (List.range 4).foldl (fun n i => (n <<< 8) ||| (data.getD (offset + i) 0).toUInt32) 0

def extend (w : Array UInt32) (i : Nat) : Array UInt32 :=
  w.push (rotate (w.getD (i - 3) 0 ^^^ w.getD (i - 8) 0 ^^^ w.getD (i - 14) 0
    ^^^ w.getD (i - 16) 0) 1)

def schedule (data : Bytes) (offset : Nat) : Array UInt32 :=
  (List.range' 16 64).foldl extend
    ((Array.range 16).map fun i => word data (offset + 4 * i))

/-- The function of three words and the constant of a round. -/
def mix (i : Nat) (b c d : UInt32) : UInt32 × UInt32 :=
  if i < 20 then ((b &&& c) ||| (~~~b &&& d), 0x5a827999)
  else if i < 40 then (b ^^^ c ^^^ d, 0x6ed9eba1)
  else if i < 60 then ((b &&& c) ||| (b &&& d) ||| (c &&& d), 0x8f1bbcdc)
  else (b ^^^ c ^^^ d, 0xca62c1d6)

def round (w : Array UInt32) (s : State) (i : Nat) : State :=
  let (f, k) := mix i s.b s.c s.d
  ⟨rotate s.a 5 + f + s.e + k + w.getD i 0, s.a, rotate s.b 30, s.c, s.d⟩

def compress (data : Bytes) (s : State) (block : Nat) : State :=
  let t := (List.range 80).foldl (round (schedule data (64 * block))) s
  ⟨s.a + t.a, s.b + t.b, s.c + t.c, s.d + t.d, s.e + t.e⟩

def encode (s : State) : Bytes :=
  #[s.a, s.b, s.c, s.d, s.e].flatMap fun n => Bytes.ofNatBE 4 n.toNat

def sha1 (data : Bytes) : Bytes :=
  let padded := pad 64 8 data
  encode ((List.range (padded.size / 64)).foldl (compress padded) start)

end CliImage.Hash.Sha1
