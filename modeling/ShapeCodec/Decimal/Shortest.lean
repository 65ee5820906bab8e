import ShapeCodec.Decimal
/-! The shortest decimal text of a float: the fewest digits that read back as the same float, and of
those the nearest, an even last digit settling ties. Numbers from one hundred thousandth to below
ten to the sixteenth are written positionally, with at least one place behind the point; the others
with an exponent. -/
namespace ShapeCodec.Decimal.Shortest

/-- A finite float as `significand * 2 ^ exponent`; `narrow` tells that its lower neighbour is half
as far away as its upper one. -/
structure Binary where
  significand : Nat
  exponent : Int
  narrow : Bool

/-- The bit in front of the stored ones, which normal floats leave out. -/
def hiddenBit : Nat := 4503599627370496

/-- The parts of a finite float without its sign. -/
def Binary.ofFloat (x : Float) : Binary :=
  let bits : Nat := x.toBits.toNat
  let field : Nat := bits / hiddenBit % 2048
  let fraction : Nat := bits % hiddenBit
  if field = 0 then ⟨fraction, -1074, false⟩
  else ⟨fraction + hiddenBit, (field : Int) - 1075, fraction = 0 && 1 < field⟩

/-- The numbers that round to a float, over one denominator: the float itself and the ends, which
belong to them for an even significand. -/
structure Interval where
  low : Nat
  value : Nat
  high : Nat
  denominator : Nat
  closed : Bool

/-- The ends lie half way to the neighbours, so a quarter of the last place is the common unit. -/
def Interval.ofBinary (b : Binary) : Interval :=
  let unit := Nat.pow 2 (b.exponent - 2).toNat
  let below := if b.narrow then 1 else 2
  { low := (4 * b.significand - below) * unit
    value := 4 * b.significand * unit
    high := (4 * b.significand + 2) * unit
    denominator := Nat.pow 2 (2 - b.exponent).toNat
    closed := b.significand % 2 = 0 }

/-- A point of a decimal grid: `coefficient * 10 ^ exponent`. -/
structure Point where
  coefficient : Nat
  exponent : Int

namespace Interval

/-- A point and a numerator over one denominator. -/
def onGrid (i : Interval) (p : Point) (numerator : Nat) : Nat × Nat :=
  (p.coefficient * Nat.pow 10 p.exponent.toNat * i.denominator,
    numerator * Nat.pow 10 (-p.exponent).toNat)

def contains (i : Interval) (p : Point) : Bool :=
  let (x, low) := i.onGrid p i.low
  let (_, high) := i.onGrid p i.high
  if i.closed then low ≤ x && x ≤ high else low < x && x < high

def distance (i : Interval) (p : Point) : Nat :=
  let (x, value) := i.onGrid p i.value
  (x - value) + (value - x)

/-- The number of places in front of the point; for numbers below one tenth, the negative number of
zeros behind it. -/
def magnitude (i : Interval) : Int :=
  let whole := i.value / i.denominator
  if 0 < whole then (digits whole).length
  else
    let zeros := (List.range 325).find? fun n => i.denominator ≤ i.value * Nat.pow 10 (n + 1)
    0 - ((zeros.getD 0 : Nat) : Int)

/-- The nearer of two neighbours on one grid, or else the even one. -/
def nearer (i : Interval) (below above : Point) : Point :=
  if i.distance below < i.distance above then below
  else if i.distance above < i.distance below then above
  else if below.coefficient % 2 = 0 then below
  else above

/-- The point of the grid with so many digits that is in the interval and nearest to the value. -/
def point? (i : Interval) (count : Nat) : Option Point :=
  let exponent := i.magnitude - count
  let scaled := i.value * Nat.pow 10 (-exponent).toNat
  let below : Point := ⟨scaled / (i.denominator * Nat.pow 10 exponent.toNat), exponent⟩
  let above : Point := ⟨below.coefficient + 1, exponent⟩
  match i.contains below, i.contains above with
  | true, true => some (i.nearer below above)
  | true, false => some below
  | false, true => some above
  | false, false => none

/-- Seventeen digits always suffice. -/
def shortest (i : Interval) : Point :=
  ((List.range 17).findSome? fun n => i.point? (n + 1)).getD ⟨0, 0⟩

end Interval

namespace Point

/-- The digits from the first to the last that is not zero. -/
def digits (p : Point) : List Char :=
  ((Decimal.digits p.coefficient).reverse.dropWhile (· = '0')).reverse

/-- The number of digits in front of the point, negative for zeros behind it. -/
def whole (p : Point) : Int :=
  (Decimal.digits p.coefficient).length + p.exponent

/-- Whole numbers have a zero behind the point. -/
def positional (all : List Char) (whole : Int) : List Char :=
  if whole ≤ 0 then '0' :: '.' :: List.replicate whole.natAbs '0' ++ all
  else if all.length ≤ whole.toNat then
    all ++ List.replicate (whole.toNat - all.length) '0' ++ ['.', '0']
  else all.take whole.toNat ++ '.' :: all.drop whole.toNat

/-- One digit in front of the point, and no point if it is the only one. The exponent has a sign. -/
def scientific (all : List Char) (exponent : Int) : List Char :=
  let mantissa :=
    match all with
    | first :: rest => if rest.isEmpty then [first] else first :: '.' :: rest
    | [] => []
  mantissa ++ 'e' :: (if exponent < 0 then '-' else '+') :: Decimal.digits exponent.natAbs

def text (p : Point) : List Char :=
  if -5 < p.whole ∧ p.whole ≤ 16 then positional p.digits p.whole
  else scientific p.digits (p.whole - 1)

example : text ⟨1, 15⟩ = "1000000000000000.0".toList ∧ text ⟨15, 15⟩ = "1.5e+16".toList ∧
    text ⟨1, -5⟩ = "0.00001".toList ∧ text ⟨9999, -9⟩ = "9.999e-6".toList := by
  decide +kernel

end Point

/-- The text of a finite float. -/
def text (x : Float) : String :=
  let sign := if x.toBits.toNat / (2048 * hiddenBit) = 1 then ['-'] else []
  let b := Binary.ofFloat x
  let unsigned :=
    if b.significand = 0 then ['0', '.', '0'] else (Interval.ofBinary b).shortest.text
  String.ofList (sign ++ unsigned)

end ShapeCodec.Decimal.Shortest
