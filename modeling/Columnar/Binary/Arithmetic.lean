/-
Arithmetic on binary floating-point numbers.

Sums, products, quotients, remainders and whole parts are exact integer
computations on significands with one rounding at the end. A sum of zero is
positive unless both terms are negative zeros; a remainder has the sign of its
dividend.
-/
import Columnar.Binary

namespace Columnar.Binary

variable {p : Precision}

def negate (x : Binary p) : Binary p := ⟨x.bits ^^^ BitVec.ofNat p.bits (2 ^ (p.bits - 1))⟩

/-- A significand with its sign. -/
def signed (negative : Bool) (m : Nat) : Int := if negative then -(m : Int) else m

/-- The sum, rounded once. -/
def add (x y : Binary p) : Binary p :=
  match x.datum, y.datum with
  | .nan, _ => nan p
  | _, .nan => nan p
  | .infinite s, .infinite t => if s = t then infinity p s else nan p
  | .infinite s, _ => infinity p s
  | _, .infinite t => infinity p t
  | .finite s m e, .finite t n f =>
    let unit := min e f
    let sum := signed s (m * 2 ^ (e - unit).toNat) + signed t (n * 2 ^ (f - unit).toNat)
    let negative := if sum = 0 then s && t else decide (sum < 0)
    ofDyadic p negative sum.natAbs unit

def sub (x y : Binary p) : Binary p := add x (negate y)

/-- The product, rounded once. -/
def mul (x y : Binary p) : Binary p :=
  match x.datum, y.datum with
  | .nan, _ => nan p
  | _, .nan => nan p
  | .infinite s, .infinite t => infinity p (s != t)
  | .infinite s, .finite t n _ => if n = 0 then nan p else infinity p (s != t)
  | .finite s m _, .infinite t => if m = 0 then nan p else infinity p (s != t)
  | .finite s m e, .finite t n f => ofDyadic p (s != t) (m * n) (e + f)

/-- The nearest number to `(m * 2 ^ e) / (n * 2 ^ f)`. The quotient is taken
to at least two bits more than fit, with a last bit that tells whether
anything was left over; rounding it once more then rounds the exact value. -/
def divideFinite (p : Precision) (negative : Bool) (m : Nat) (e : Int) (n : Nat) (f : Int) :
    Binary p :=
  let shift := p.fractionBits + 3 + n.log2 - m.log2
  let scaled := m * 2 ^ shift
  let sticky := if scaled % n = 0 then 0 else 1
  ofDyadic p negative (2 * (scaled / n) + sticky) (e - f - shift - 1)

/-- The quotient, rounded once. -/
def div (x y : Binary p) : Binary p :=
  match x.datum, y.datum with
  | .nan, _ => nan p
  | _, .nan => nan p
  | .infinite _, .infinite _ => nan p
  | .infinite s, .finite t _ _ => infinity p (s != t)
  | .finite s _ _, .infinite t => ofParts p (s != t) 0
  | .finite s m e, .finite t n f =>
    if n = 0 then if m = 0 then nan p else infinity p (s != t)
    else divideFinite p (s != t) m e n f

/-- What is left of `x` after taking `y` away as often as it goes; exact. -/
def rem (x y : Binary p) : Binary p :=
  match x.datum, y.datum with
  | .nan, _ => nan p
  | _, .nan => nan p
  | .infinite _, _ => nan p
  | .finite _ _ _, .infinite _ => x
  | .finite s m e, .finite _ n f =>
    if n = 0 then nan p
    else
      let unit := min e f
      ofDyadic p s ((m * 2 ^ (e - unit).toNat) % (n * 2 ^ (f - unit).toNat)) unit

/-- The greatest whole number that is not greater. -/
def floor (x : Binary p) : Binary p :=
  match x.datum with
  | .finite negative m e =>
    if 0 ≤ e then x
    else
      let q := m / 2 ^ (-e).toNat
      let inexact := m % 2 ^ (-e).toNat != 0
      ofDyadic p negative (if negative && inexact then q + 1 else q) 0
  | _ => x

/-- The order of two numbers; a not-a-number has none, and the zeros are equal. -/
def compare (x y : Binary p) : Option Ordering :=
  match x.datum, y.datum with
  | .nan, _ => none
  | _, .nan => none
  | .infinite s, .infinite t => some (if s = t then .eq else if s then .lt else .gt)
  | .infinite s, .finite _ _ _ => some (if s then .lt else .gt)
  | .finite _ _ _, .infinite t => some (if t then .gt else .lt)
  | .finite s m e, .finite t n f =>
    let unit := min e f
    some (Ord.compare (signed s (m * 2 ^ (e - unit).toNat)) (signed t (n * 2 ^ (f - unit).toNat)))

/-- The machine's own number with the same bits. -/
def toFloat (x : Binary .double) : Float := Float.ofBits (UInt64.ofBitVec x.bits)

def ofFloat (x : Float) : Binary .double := ⟨x.toBits.toBitVec⟩

/-- The power, as the machine's mathematical library computes it: no rule short
of its algorithm fixes the last bit. -/
def pow (x y : Binary .double) : Binary .double := ofFloat (x.toFloat.pow y.toFloat)

end Columnar.Binary
