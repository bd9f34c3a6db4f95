/-
The shortest decimal of a binary floating-point number.

Of all decimals that read back as the number, those with the fewest digits are
taken, and of these the one nearest to it. On a grid of a given power of ten, a
decimal reads back exactly if one of the number's two neighbours on that grid
does, so the search takes the coarsest grid on which a neighbour lies in the
interval of reals that round to the number. The interval has its ends if the
significand is even.

The decimal is written in positional notation however long that is, without a
point when the number is whole.
-/
import Columnar.Binary

namespace Columnar

/-- A positive decimal, `digits * 10 ^ exponent`. -/
structure Decimal where
  digits : Nat
  exponent : Int
  deriving DecidableEq, Repr

namespace Decimal

/-- The digits of a whole number of zero or more, and the zeros or the point
that the exponent asks for. -/
def positional (d : Decimal) : String :=
  let digits := toString d.digits
  if 0 ≤ d.exponent then
    if d.digits = 0 then "0" else digits ++ String.ofList (List.replicate d.exponent.toNat '0')
  else
    let places := (-d.exponent).toNat
    let padded := String.ofList (List.replicate (places + 1 - digits.length) '0') ++ digits
    let whole := padded.length - places
    String.ofList (padded.toList.take whole) ++ "." ++ String.ofList (padded.toList.drop whole)

/-- The interval of reals that round to `m * 2 ^ e`, in quarters of the unit
`2 ^ e`: the number itself and the two ends. Below a power of two the numbers
lie twice as dense, unless it is the least normal one. -/
structure Interval where
  low : Nat
  value : Nat
  high : Nat
  closed : Bool

def Interval.around (p : Precision) (m : Nat) (e : Int) : Interval :=
  let below := if m = 2 ^ p.fractionBits ∧ p.leastExponent < e then 1 else 2
  { low := 4 * m - below, value := 4 * m, high := 4 * m + 2, closed := m % 2 == 0 }

/-- Whether `n / d`, in quarters of the unit, lies in the interval. -/
def Interval.contains (i : Interval) (n d : Nat) : Bool :=
  if i.closed then i.low * d ≤ n && n ≤ i.high * d else i.low * d < n && n < i.high * d

/-- Of the two neighbours of the number on the grid of multiples of
`10 ^ t`, the one in the interval that is nearer; a tie goes up. The scale
`q` is the exponent of the quarter unit. -/
def neighbour? (i : Interval) (q t : Int) : Option Nat :=
  -- a grid point `k` stands at `k * step / share` quarters
  let step := 10 ^ t.toNat * 2 ^ (-q).toNat
  let share := 10 ^ (-t).toNat * 2 ^ q.toNat
  let k := i.value * share / step
  let down := i.contains (k * step) share
  let up := i.contains ((k + 1) * step) share
  let upIsNearer := (k + 1) * step - i.value * share ≤ i.value * share - k * step
  if down && up then some (if upIsNearer then k + 1 else k)
  else if down then some k
  else if up then some (k + 1)
  else none

/-- The first grid with a neighbour in the interval, from the exponent `t`
downward. -/
def search (i : Interval) (q : Int) : (fuel : Nat) → (t : Int) → Decimal
  | 0, t => ⟨i.value * 10 ^ (-t).toNat, t⟩
  | fuel + 1, t =>
    match neighbour? i q t with
    | some digits => ⟨digits, t⟩
    | none => search i q fuel (t - 1)

/-- The least power of ten past `m * 2 ^ e`, from the count of bits: a bit is
worth a little more than three tenths of a digit. -/
def ceilingExponent (m : Nat) (e : Int) : Int := (e + m.log2 + 1) * 30103 / 100000 + 2

/-- The shortest decimal of `m * 2 ^ e`, where `m` is positive. Three digits
past the most that are ever needed bound the search. -/
def shortest (p : Precision) (m : Nat) (e : Int) : Decimal :=
  search (Interval.around p m e) (e - 2) (p.fractionBits + 8) (ceilingExponent m e)

end Decimal

/-- The text of a number: a sign, and the shortest decimal that reads back as it. -/
def Binary.text {p : Precision} (x : Binary p) : String :=
  match x.datum with
  | .nan => "NaN"
  | .infinite negative => if negative then "-inf" else "inf"
  | .finite negative m e =>
    let magnitude := if m = 0 then "0" else (Decimal.shortest p m e).positional
    if negative then "-" ++ magnitude else magnitude

end Columnar
