/-!
# Shortest decimals

A finite binary64 number other than zero is `mantissa * 2 ^ power`, and every real between two
bounds reads back as that number. `shortest` gives the fewest decimal digits that lie within those
bounds, and of several such decimals of one length the nearest one. The arithmetic is exact: all
quantities of one number are natural numbers over one common denominator.
-/
namespace LogCatalog.Decimal

/-- A positive number and the bounds within which a decimal reads back as it, each a numerator over
`denominator`. The bounds themselves count when `closed`. -/
structure Target where
  value : Nat
  lower : Nat
  upper : Nat
  denominator : Nat
  closed : Bool

/-- The fraction of a binary64 number lies below this. -/
def fractionRange : Nat := Nat.pow 2 52

/-- The target of a positive finite number, from the low 63 bits of its binary64 form. The gap to the
number below is half as wide at a power of two, and a bound counts when the mantissa is even. -/
def Target.ofBits (bits : Nat) : Target :=
  let biased := bits / fractionRange
  let fraction := bits % fractionRange
  let mantissa := if biased = 0 then fraction else fractionRange + fraction
  let power : Int := (if biased = 0 then 1 else biased : Nat) - 1077
  let below := if fraction = 0 ∧ biased > 1 then 1 else 2
  let scale := Nat.pow 2 power.toNat
  { value := 4 * mantissa * scale
    lower := (4 * mantissa - below) * scale
    upper := (4 * mantissa + 2) * scale
    denominator := Nat.pow 2 (-power).toNat
    closed := mantissa % 2 = 0 }

/-- The decimal `digits * 10 ^ exponent`. -/
structure Digits where
  digits : Nat
  exponent : Int

/-- Numerator and denominator of `10 ^ e`. -/
def powerOfTen (e : Int) : Nat × Nat := (Nat.pow 10 e.toNat, Nat.pow 10 (-e).toNat)

namespace Target

/-- The largest `e` with `10 ^ e` at most the target. -/
def magnitude (t : Target) : Int :=
  let guess : Int := (Nat.toDigits 10 t.value).length - (Nat.toDigits 10 t.denominator).length
  let (num, den) := powerOfTen guess
  if num * t.denominator ≤ t.value * den then guess else guess - 1

/-- Whether the decimal reads back as the target. -/
def admits (t : Target) (d : Digits) : Bool :=
  let (num, den) := powerOfTen d.exponent
  let numerator := d.digits * num * t.denominator
  if t.closed then t.lower * den ≤ numerator && numerator ≤ t.upper * den
  else t.lower * den < numerator && numerator < t.upper * den

/-- The nearer of the two multiples of `10 ^ exponent` around the target that read back as it, a tie
going to the even one. -/
def onGrid? (t : Target) (exponent : Int) : Option Digits :=
  let (num, den) := powerOfTen exponent
  let step := num * t.denominator
  let below := t.value * den / step
  let rest := 2 * (t.value * den % step)
  let low : Digits := ⟨below, exponent⟩
  let high : Digits := ⟨below + 1, exponent⟩
  let lowFirst := rest < step || (rest == step && below % 2 == 0)
  let (first, second) := if lowFirst then (low, high) else (high, low)
  if t.admits first then some first else if t.admits second then some second else none

/-- The first of the next `n` grids, each ten times finer, that has a decimal for the target. -/
def refine (t : Target) : Nat → Int → Digits
  | 0, exponent =>
    let (num, den) := powerOfTen exponent
    ⟨t.value * den / (t.denominator * num), exponent⟩
  | n + 1, exponent => (t.onGrid? exponent).getD (t.refine n (exponent - 1))

/-- Seventeen digits are enough for every binary64 number. -/
def shortest (t : Target) : Digits := t.refine 17 t.magnitude

end Target

/-- Where a decimal is written out by position, by the exponent of its first digit; outside of that
range it has one digit before the point and a signed exponent. -/
structure Layout where
  positionalFrom : Int
  positionalBelow : Int

/-- Drops the zeros at the end of the digits. -/
def trimZeros (digits : List Char) : List Char :=
  (digits.reverse.dropWhile (· == '0')).reverse

/-- The text of a positive decimal. By position it has at least one digit after the point. -/
def Layout.render (l : Layout) (d : Digits) : String :=
  let written := Nat.toDigits 10 d.digits
  let leading : Int := d.exponent + written.length - 1
  let digits := trimZeros written
  let text : List Char :=
    if l.positionalFrom ≤ leading ∧ leading < l.positionalBelow then
      if leading < 0 then
        '0' :: '.' :: (List.replicate (-leading - 1).toNat '0' ++ digits)
      else
        let whole := leading.toNat + 1
        let fraction := digits.drop whole
        digits.take whole ++ List.replicate (whole - digits.length) '0' ++
          '.' :: (if fraction.isEmpty then ['0'] else fraction)
    else
      let fraction := digits.drop 1
      digits.take 1 ++ (if fraction.isEmpty then [] else '.' :: fraction) ++
        'e' :: (if leading < 0 then '-' else '+') :: Nat.toDigits 10 leading.natAbs
  String.ofList text

end LogCatalog.Decimal
