import MachineCodegen.Decimal.Numeral
set_option autoImplicit false

/-!
# The shortest decimal of a binary fraction (SPEC §4.7)

A finite positive double is `m · 2^q`.  Every real number nearer to it than to its neighbours
reads back as the same double; the two ends of that interval do so when `m` is even.  Among the
decimals of the interval this module picks one with the fewest digits, and of those the one
nearest to the double, the upper one on a tie.

The search runs over grids of powers of ten from coarse to fine and tests, on each, the two grid
points around the double.  All arithmetic is exact.

A literal of the source is written by these digits, in generated code and in documents alike.
-/

namespace MachineCodegen.Decimal

/-- A positive binary fraction `mantissa · 2^exponent`. -/
structure Binary where
  mantissa : Nat
  exponent : Int
  deriving DecidableEq, Repr, Inhabited

namespace Binary

/-- The weight of the bit that a normal double leaves out: its mantissa has 52 bits below it. -/
def hiddenBit : Nat := 0x10000000000000

/-- The weight of the sign among the bits of a double. -/
def signBit : Nat := 0x8000000000000000

/-- The magnitude of a finite double. -/
def ofFloat (f : Float) : Binary :=
  let bits := f.toBits.toNat % signBit
  let field : Nat := bits / hiddenBit
  let fraction : Nat := bits % hiddenBit
  if field = 0 then ⟨fraction, -1074⟩ else ⟨fraction + hiddenBit, (field : Int) - 1075⟩

/-- A positive rational number. -/
structure Ratio where
  num : Nat
  den : Nat

/-- `n · 2^e` -/
def Ratio.scaled (n : Nat) (e : Int) : Ratio :=
  match e with
  | .ofNat k => ⟨n * Nat.pow 2 k, 1⟩
  | .negSucc k => ⟨n, Nat.pow 2 (k + 1)⟩

/-- The ratio in units of `10^k`. -/
def Ratio.inUnits (r : Ratio) (k : Int) : Ratio :=
  match k with
  | .ofNat k => ⟨r.num, r.den * Nat.pow 10 k⟩
  | .negSucc k => ⟨r.num * Nat.pow 10 (k + 1), r.den⟩

/-- The upper end of the interval, in quarters of the last binary place. -/
def upper (b : Binary) : Nat := 4 * b.mantissa + 2

/-- The lower end, which is nearer at a power of two, where the spacing below is finer. -/
def lower (b : Binary) : Nat :=
  if b.mantissa = hiddenBit ∧ -1074 < b.exponent then 4 * b.mantissa - 1 else 4 * b.mantissa - 2

/-- The grid point `c · 10^k` reads back as the fraction. -/
def covers (b : Binary) (k : Int) (c : Nat) : Bool :=
  let low := (Ratio.scaled b.lower (b.exponent - 2)).inUnits k
  let high := (Ratio.scaled b.upper (b.exponent - 2)).inUnits k
  if b.mantissa % 2 = 0 then low.num ≤ c * low.den && c * high.den ≤ high.num
  else low.num < c * low.den && c * high.den < high.num

/-- The point of the grid of `10^k` that is taken, if one of the two around the fraction reads
back: the nearer of them, the upper one on a tie. -/
def onGrid? (b : Binary) (k : Int) : Option Nat :=
  let value := (Ratio.scaled b.mantissa b.exponent).inUnits k
  let below := value.num / value.den
  let rest := value.num % value.den
  match b.covers k below, b.covers k (below + 1) with
  | true, true => some (if 2 * rest < value.den then below else below + 1)
  | true, false => some below
  | false, true => some (below + 1)
  | false, false => none

/-- The first grid with a hit among `count` grids, from that of `10^k` downwards. -/
def search (b : Binary) : Nat → Int → Nat × Int
  | 0, k => (0, k)
  | count + 1, k =>
    match b.onGrid? k with
    | some c => (c, k)
    | none => search b count (k - 1)

/-- A power of ten above the fraction: a bit is worth less than 0.30103 decimal digits. -/
def topPower (b : Binary) : Int :=
  (b.mantissa.log2 + b.exponent + 1) * 30103 / 100000 + 2

/-- The shortest decimal `c · 10^k`.  Seventeen digits always read back, and the grids start at
most five places above the first of them. -/
def shortest (b : Binary) : Nat × Int := b.search 24 b.topPower

end Binary

/-- Where a number is written without an exponent: from `10^lowest` to below `10^highest`. -/
structure Notation where
  lowest : Int
  highest : Int
  deriving DecidableEq, Repr, Inhabited

namespace Notation

/-- The numeral of `0.d₁d₂… · 10^(place + 1)`.  A positional numeral always has a fraction; with
an exponent a fraction of no digits is left out. -/
def spell (style : Notation) (negative : Bool) (digits : List Char) (place : Int) : Numeral :=
  if place < style.lowest ∨ style.highest ≤ place then
    { negative, whole := digits.take 1, fraction := digits.drop 1, exponent := some place }
  else
    match place with
    | .ofNat p =>
      let whole := digits.take (p + 1)
      let fraction := digits.drop (p + 1)
      { negative,
        whole := whole ++ List.replicate (p + 1 - whole.length) '0',
        fraction := if fraction.isEmpty then ['0'] else fraction }
    | .negSucc p =>
      { negative, whole := ['0'], fraction := List.replicate p '0' ++ digits }

/-- The numeral of a finite double: its shortest decimal, the sign of zero kept. -/
def ofFloat (style : Notation) (f : Float) : Numeral :=
  let negative := decide (Binary.signBit ≤ f.toBits.toNat)
  let b := Binary.ofFloat f
  if b.mantissa = 0 then { negative, whole := ['0'], fraction := ['0'] }
  else
    let (c, k) := b.shortest
    let digits := Nat.toDigits 10 c
    style.spell negative digits (k + digits.length - 1)

end Notation

end MachineCodegen.Decimal
