import LeaseCache.Decimal.Digits

/-!
# The shortest decimal of a binary fraction

A double stands for the interval of reals that round to it. `shortest` finds the fewest decimal
digits with which some decimal lies in that interval, and of the decimals with so many digits the
nearest one. On the grid of a given digit count only the two neighbours of the value can be nearest,
so only these are tried. All of it is exact arithmetic on natural numbers.

`Style` holds what a format decides: where positional writing ends and how an exponent looks.
-/

namespace LeaseCache.Shortest

/-- A positive binary fraction `mantissa * 2 ^ exponent` with what rounds to it. -/
structure Binary where
  mantissa : Nat
  exponent : Int
  /-- The next smaller double is only half as far away as the next larger one. -/
  lowestOfBinade : Bool

/-- A decimal `digits * 10 ^ exponent`. -/
structure Decimal where
  digits : Nat
  exponent : Int
  deriving DecidableEq, Repr

/-- A positive rational. -/
structure Ratio where
  num : Nat
  den : Nat

/-- The rational `n * b ^ e`. -/
def Ratio.scaled (n b : Nat) (e : Int) : Ratio :=
  match e with
  | .ofNat k => ⟨n * Nat.pow b k, 1⟩
  | .negSucc k => ⟨n, Nat.pow b (k + 1)⟩

/-- Whether a rational is at most another. -/
def Ratio.le (x y : Ratio) : Bool := x.num * y.den ≤ y.num * x.den

/-- Whether a rational is below another. -/
def Ratio.lt (x y : Ratio) : Bool := x.num * y.den < y.num * x.den

/-- The value, in quarters of its last binary place. -/
def Binary.quarters (b : Binary) (n : Nat) : Ratio := .scaled n 2 (b.exponent - 2)

/-- The value of a binary fraction. -/
def Binary.value (b : Binary) : Ratio := b.quarters (4 * b.mantissa)

/-- Whether a decimal rounds to the double; the ends of the interval do so if the mantissa is
even. -/
def Binary.admits (b : Binary) (d : Decimal) : Bool :=
  let x := Ratio.scaled d.digits 10 d.exponent
  let low := b.quarters (4 * b.mantissa - if b.lowestOfBinade then 1 else 2)
  let high := b.quarters (4 * b.mantissa + 2)
  if b.mantissa % 2 = 0 then low.le x && x.le high else low.lt x && x.lt high

/-- The least `k`, tried up to a bound, with `x.num * 10 ^ k` not below `x.den`. -/
def raise (x : Ratio) : Nat → Nat → Nat
  | 0, k => k
  | room + 1, k => if x.den ≤ x.num * Nat.pow 10 k then k else raise x room (k + 1)

/-- The decimal exponent of the first digit. -/
def Ratio.magnitude (x : Ratio) : Int :=
  if x.den ≤ x.num then ((Digits.ofNat (x.num / x.den)).length : Int) - 1
  else -((raise x 400 1 : Nat) : Int)

/-- The value in units of `10 ^ e`, cut to a whole number. -/
def Ratio.units (x : Ratio) (e : Int) : Nat :=
  match e with
  | .ofNat k => x.num / (x.den * Nat.pow 10 k)
  | .negSucc k => x.num * Nat.pow 10 (k + 1) / x.den

/-- Twice the middle between `n` and `n + 1` units of `10 ^ e` is not above twice the value. -/
def Ratio.pastMiddle (x : Ratio) (n : Nat) (e : Int) : Bool :=
  let middle := Ratio.scaled (2 * n + 1) 10 e
  middle.lt ⟨2 * x.num, x.den⟩ || (middle.le ⟨2 * x.num, x.den⟩ && decide (n % 2 = 1))

/-- The decimal nearest to the value on the grid of `10 ^ e`, if it rounds to the double. -/
def Binary.onGrid? (b : Binary) (e : Int) : Option Decimal :=
  let n := b.value.units e
  let below : Decimal := ⟨n, e⟩
  let above : Decimal := ⟨n + 1, e⟩
  let (near, far) := if b.value.pastMiddle n e then (above, below) else (below, above)
  if b.admits near then some near else if b.admits far then some far else none

/-- The first grid with a decimal for the double, from one digit on. -/
def Binary.search (b : Binary) (top : Int) : Nat → Nat → Decimal
  | 0, n => ⟨b.value.units (top - n), top - n⟩
  | room + 1, n =>
    match b.onGrid? (top - n) with
    | some d => d
    | none => b.search top room (n + 1)

/-- The shortest decimal of a binary fraction. -/
def Binary.shortest (b : Binary) : Decimal := b.search b.value.magnitude 17 0

/-- The number of fractions with one exponent, which take the lowest 52 bits of a double. -/
def fractions : Nat := 0x10000000000000

/-- The number of exponent fields, which take the next eleven bits. -/
def fields : Nat := 0x800

/-- A double taken apart: its sign, and its size unless it is zero, infinite or no number. -/
def split (x : Float) : Bool × Option Binary :=
  let bits := x.toBits.toNat
  let fraction : Nat := bits % fractions
  let field : Nat := bits / fractions % fields
  let negative := bits / fractions / fields == 1
  if field = 0 then
    (negative, if fraction = 0 then none else some ⟨fraction, -1074, false⟩)
  else if field = fields - 1 then (negative, none)
  else
    (negative,
      some ⟨fractions + fraction, (field : Int) - 1075, decide (fraction = 0 ∧ 1 < field)⟩)

/-! ## Writing -/

/-- How a decimal is written. -/
structure Style where
  /-- The least exponent of the first digit that is written positionally. -/
  leastPositional : Int
  /-- The first exponent of the first digit that is no longer written positionally. -/
  firstScientific : Int
  /-- The mark before a scientific exponent that is not negative. -/
  positiveMark : String

private def text (ds : List UInt8) : String := String.ofList (ds.map fun b => Char.ofNat b.toNat)

private def zeros (n : Nat) : String := String.ofList (List.replicate n '0')

/-- Digits without the zeros at their end, and the exponent that makes up for them. -/
def Decimal.trim : Nat → Decimal → Decimal
  | 0, d => d
  | room + 1, d =>
    if d.digits % 10 = 0 && 0 < d.digits then trim room ⟨d.digits / 10, d.exponent + 1⟩ else d

/-- A decimal in a style; a whole number keeps one zero after its point. -/
def Decimal.render (style : Style) (d : Decimal) : String :=
  let d := d.trim 20
  let ds := Digits.ofNat d.digits
  let first := d.exponent + ds.length - 1
  if style.leastPositional ≤ first && first < style.firstScientific then
    if 0 ≤ d.exponent then text ds ++ zeros d.exponent.toNat ++ ".0"
    else if 0 ≤ first then
      text (ds.take (first + 1).toNat) ++ "." ++ text (ds.drop (first + 1).toNat)
    else "0." ++ zeros (-first - 1).toNat ++ text ds
  else
    let lead := text (ds.take 1) ++ (if ds.length = 1 then "" else "." ++ text (ds.drop 1))
    lead ++ "e" ++ (if first < 0 then "-" else style.positiveMark) ++ toString first.natAbs

/-- A finite double in a style. -/
def render (style : Style) (x : Float) : String :=
  match split x with
  | (negative, none) => (if negative then "-" else "") ++ "0.0"
  | (negative, some b) => (if negative then "-" else "") ++ b.shortest.render style

end LeaseCache.Shortest
