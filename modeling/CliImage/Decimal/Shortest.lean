/-!
The shortest decimal that a binary floating-point number can be told by, written without an
exponent.
-/

namespace CliImage.Decimal

/-- A binary fraction with the interval of reals that round to it: `below`, `value` and `above`
count units of `2 ^ scale`, and the ends belong to the interval where `closed` says so. -/
structure Interval where
  below : Nat
  value : Nat
  above : Nat
  scale : Int
  closed : Bool
  deriving DecidableEq, Repr

namespace Interval

/-- The interval's units in steps of `10 ^ place`: a number of units `n` lies at `n * num / den`. -/
def num (i : Interval) (place : Int) : Nat := 2 ^ i.scale.toNat * 10 ^ (-place).toNat

def den (i : Interval) (place : Int) : Nat := 2 ^ (-i.scale).toNat * 10 ^ place.toNat

def reachesDown (i : Interval) (place : Int) (n : Nat) : Bool :=
  let low := i.below * i.num place
  low < n * i.den place || (i.closed && low == n * i.den place)

def reachesUp (i : Interval) (place : Int) (n : Nat) : Bool :=
  let high := i.above * i.num place
  n * i.den place < high || (i.closed && n * i.den place == high)

/-- The multiple of `10 ^ place` next to the value that lies in the interval, if any; a tie goes
up. -/
def nearest? (i : Interval) (place : Int) : Option Nat :=
  let v := i.value * i.num place
  let floor := v / i.den place
  let down := i.reachesDown place floor
  let up := i.reachesUp place (floor + 1)
  let nearUp := i.den place ≤ 2 * (v - floor * i.den place)
  if up && (!down || nearUp) then some (floor + 1)
  else if down then some floor
  else none

/-- The coarsest place at or below `place` where a multiple lies in the interval. -/
def search (i : Interval) : Nat → Int → Nat × Int
  | 0, place => (0, place)
  | steps + 1, place =>
    match i.nearest? place with
    | some n => (n, place)
    | none => search i steps (place - 1)

end Interval

/-- Widths of the two fields of a binary floating-point format. -/
structure Format where
  fractionBits : Nat
  exponentBits : Nat
  deriving DecidableEq, Repr

def single : Format := ⟨23, 8⟩

def double : Format := ⟨52, 11⟩

namespace Format

def bias (f : Format) : Int := 2 ^ (f.exponentBits - 1) - 1 + f.fractionBits

/-- The interval of a positive finite number, by its fraction and exponent fields. -/
def interval (f : Format) (fraction exponent : Nat) : Interval :=
  if exponent = 0 then
    ⟨4 * fraction - 2, 4 * fraction, 4 * fraction + 2, 1 - f.bias - 2, fraction % 2 == 0⟩
  else
    let m := 2 ^ f.fractionBits + fraction
    let gap := if fraction = 0 ∧ 1 < exponent then 1 else 2
    ⟨4 * m - gap, 4 * m, 4 * m + 2, exponent - f.bias - 2, fraction % 2 == 0⟩

end Format

/-- Digits with the point `place` digits from the right, or zeros behind them. -/
def positional (digits : Nat) (place : Int) : String :=
  if 0 ≤ place then toString (digits * 10 ^ place.toNat)
  else
    let w := (-place).toNat
    let fraction := toString (digits % 10 ^ w)
    toString (digits / 10 ^ w) ++ "." ++ String.ofList (List.replicate (w - fraction.length) '0')
      ++ fraction

/-- The text of a number by its bits. -/
def text (f : Format) (bits : Nat) : String :=
  let fraction := bits % 2 ^ f.fractionBits
  let exponent := bits / 2 ^ f.fractionBits % 2 ^ f.exponentBits
  let sign := if bits.testBit (f.fractionBits + f.exponentBits) then "-" else ""
  if exponent = 2 ^ f.exponentBits - 1 then
    if fraction = 0 then sign ++ "inf" else "NaN"
  else if exponent = 0 ∧ fraction = 0 then sign ++ "0"
  else
    let (digits, place) := (f.interval fraction exponent).search 660 310
    sign ++ positional digits place

end CliImage.Decimal
