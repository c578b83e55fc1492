import Asciidoc.Text.Decimal

/-!
# Binary floating-point numbers in decimal text

A number with a fraction is kept as one of the values of the 64-bit binary format: a whole
number of at most 53 bits times a power of two, an infinity, or the value that is no number.
All arithmetic is exact and in whole numbers.

Reading takes the nearest value of the format, and of two equally near ones that with the even
significand. Writing takes the fewest digits that read back as the same value, and of those the
nearest to it. The value `positional` says which exponents are written out.
-/

namespace Asciidoc

/-- A value of the 64-bit binary floating-point format. -/
inductive Binary64 where
  /-- A finite value: the sign, and the magnitude `significand * 2 ^ exponent`. -/
  | finite (negative : Bool) (significand : Nat) (exponent : Int)
  /-- An infinity. -/
  | infinite (negative : Bool)
  /-- The value that is no number. -/
  | undefined
deriving DecidableEq, Repr

namespace Binary64

/-- A power of two. -/
def twoTo (exponent : Nat) : Nat := Nat.pow 2 exponent

/-- A power of ten. -/
def tenTo (exponent : Nat) : Nat := Nat.pow 10 exponent

/-- The least exponent of the format. -/
def leastExponent : Int := -1074

/-- The greatest exponent of the format. -/
def greatestExponent : Int := 971

/-- The quotient, rounded to the nearest whole number and to the even one of two. -/
def roundedQuotient (numerator denominator : Nat) : Nat :=
  let whole := numerator / denominator
  let rest := 2 * (numerator % denominator)
  if rest < denominator then whole
  else if denominator < rest then whole + 1
  else if whole % 2 = 0 then whole else whole + 1

/-- A quotient of two numbers over a power of two, rounded. -/
def scaled (numerator denominator : Nat) (exponent : Int) : Nat :=
  if exponent < 0 then roundedQuotient (numerator * twoTo exponent.natAbs) denominator
  else roundedQuotient numerator (denominator * twoTo exponent.natAbs)

/-- The exponent at which a positive quotient has 53 bits before its point, or the least one. -/
def exponentOf (numerator denominator : Nat) : Int :=
  let guess : Int := (numerator.log2 : Int) - (denominator.log2 : Int) - 52
  let fits (exponent : Int) : Bool :=
    if exponent < 0 then twoTo 52 * denominator ≤ numerator * twoTo exponent.natAbs
    else twoTo 52 * (denominator * twoTo exponent.natAbs) ≤ numerator
  max leastExponent (if fits guess then guess else guess - 1)

/-- The value nearest to a quotient of two numbers. -/
def ofQuotient (negative : Bool) (numerator denominator : Nat) : Binary64 :=
  if numerator = 0 then .finite negative 0 leastExponent
  else
    let exponent := exponentOf numerator denominator
    let significand := scaled numerator denominator exponent
    let (significand, exponent) :=
      if significand = twoTo 53 then (twoTo 52, exponent + 1) else (significand, exponent)
    if greatestExponent < exponent then .infinite negative
    else .finite negative significand exponent

/-- The value nearest to `digits * 10 ^ power`. -/
def ofDecimal (negative : Bool) (digits : Nat) (power : Int) : Binary64 :=
  let size : Int := power + (Text.Decimal.ofNat digits).length
  if digits = 0 || size < -400 then .finite negative 0 leastExponent
  else if 400 < size then .infinite negative
  else if power < 0 then ofQuotient negative digits (tenTo power.natAbs)
  else ofQuotient negative (digits * tenTo power.natAbs) 1

/-- Whether a value is one of the two zeros. -/
def isZero : Binary64 → Bool
  | .finite _ significand _ => significand == 0
  | _ => false

/-- The whole number next to a finite value on the side of zero. -/
def truncate? : Binary64 → Option Int
  | .finite negative significand exponent =>
    let magnitude : Nat :=
      if exponent < 0 then significand / twoTo exponent.natAbs
      else significand * twoTo exponent.natAbs
    some (if negative then -(magnitude : Int) else magnitude)
  | _ => none

/-! ## The fewest digits that read back -/

/-- A positive fraction. -/
structure Fraction where
  /-- What is divided. -/
  numerator : Nat
  /-- What it is divided by. -/
  denominator : Nat

/-- A number of halves of a power of two. -/
def Fraction.halves (count : Nat) (exponent : Int) : Fraction :=
  if exponent - 1 < 0 then ⟨count, twoTo (exponent - 1).natAbs⟩
  else ⟨count * twoTo (exponent - 1).natAbs, 1⟩

/-- A number of units `10 ^ power`. -/
def Fraction.units (count : Nat) (power : Int) : Fraction :=
  if power < 0 then ⟨count, tenTo power.natAbs⟩ else ⟨count * tenTo power.natAbs, 1⟩

/-- The order of fractions. -/
def Fraction.le (a b : Fraction) : Bool :=
  a.numerator * b.denominator ≤ b.numerator * a.denominator

/-- The strict order of fractions. -/
def Fraction.lt (a b : Fraction) : Bool := !b.le a

/-- The distance of two fractions. -/
def Fraction.distance (a b : Fraction) : Fraction :=
  let x := a.numerator * b.denominator
  let y := b.numerator * a.denominator
  ⟨(x - y) + (y - x), a.denominator * b.denominator⟩

/-- The number of digits before the point of a fraction: the least `k` with `a < 10 ^ k`. -/
def Fraction.magnitude (a : Fraction) : Int :=
  let guess : Int := ((Text.Decimal.ofNat a.numerator).length : Int)
    - (Text.Decimal.ofNat a.denominator).length
  if a.lt (.units 1 guess) then guess else guess + 1

/-- Whether a decimal reads back as `significand * 2 ^ exponent`: it lies between the two points
half way to the neighbours, which belong to the even significand. -/
def readsBack (significand : Nat) (exponent : Int) (decimal : Fraction) : Bool :=
  let below : Fraction :=
    if significand = twoTo 52 && leastExponent < exponent then
      .halves (4 * significand - 1) (exponent - 1)
    else .halves (2 * significand - 1) exponent
  let above : Fraction := .halves (2 * significand + 1) exponent
  if significand % 2 = 0 then below.le decimal && decimal.le above
  else below.lt decimal && decimal.lt above

/-- The decimal of so many digits nearest to a value, if one of its two neighbours on that grid
reads back. -/
def candidate? (significand : Nat) (exponent : Int) (value : Fraction) (power : Int) :
    Option Nat :=
  let floor :=
    if power < 0 then value.numerator * tenTo power.natAbs / value.denominator
    else value.numerator / (value.denominator * tenTo power.natAbs)
  let low : Fraction := .units floor power
  let high : Fraction := .units (floor + 1) power
  match readsBack significand exponent low, readsBack significand exponent high with
  | true, true =>
    if (value.distance low).lt (value.distance high) then some floor
    else if (value.distance high).lt (value.distance low) then some (floor + 1)
    else if floor % 2 = 0 then some floor else some (floor + 1)
  | true, false => some floor
  | false, true => some (floor + 1)
  | false, false => none

/-- The fewest digits that read back as a positive value, and the power of ten of their unit. -/
def shortest (significand : Nat) (exponent : Int) : Nat × Int :=
  let value : Fraction := .halves (2 * significand) exponent
  let size := value.magnitude
  let found := (List.range 17).findSome? fun n =>
    let power := size - (n + 1 : Nat)
    (candidate? significand exponent value power).map (·, power)
  found.getD (value.numerator, 0)

/-- The digits without the zeros at their end, and the power that makes up for them. -/
def dropZeros (digits : Text) (power : Int) : Text × Int :=
  let kept := (digits.reverse.dropWhile (· == '0')).reverse
  (kept, power + ((digits.length - kept.length : Nat) : Int))

/-- The exponents of the leading digit that are written out with a point in place, from the
first to before the last; others are written after an `e` with a sign and two digits. -/
def positional : Int × Int := (-4, 16)

/-- The written form of a positive value from its digits and the power of their unit. -/
def written (digits : Text) (power : Int) : Text :=
  let point : Int := digits.length + power
  let leading := point - 1
  if positional.1 ≤ leading && leading < positional.2 then
    if point ≤ 0 then '0' :: '.' :: List.replicate point.natAbs '0' ++ digits
    else if digits.length ≤ point.natAbs then
      digits ++ List.replicate (point.natAbs - digits.length) '0' ++ ['.', '0']
    else digits.take point.natAbs ++ '.' :: digits.drop point.natAbs
  else
    let mantissa :=
      match digits with
      | [] => []
      | [d] => [d]
      | d :: ds => d :: '.' :: ds
    let exponent := Text.Decimal.ofNat leading.natAbs
    mantissa ++ 'e' :: (if leading < 0 then '-' else '+') ::
      (List.replicate (2 - exponent.length) '0' ++ exponent)

/-- The written form of a value. -/
def toText : Binary64 → Text
  | .undefined => ['n', 'a', 'n']
  | .infinite negative => if negative then ['-', 'i', 'n', 'f'] else ['i', 'n', 'f']
  | .finite negative significand exponent =>
    let magnitude :=
      if significand = 0 then ['0', '.', '0']
      else
        let (digits, power) := shortest significand exponent
        let (digits, power) := dropZeros (Text.Decimal.ofNat digits) power
        written digits power
    if negative then '-' :: magnitude else magnitude

end Binary64

end Asciidoc
