import LogCatalog.Json.Basic
import LogCatalog.Text.Digit

/-!
# What scalars mean

Unquoted text is a null, a truth value, a number or else a text. Integers have a sign and, after a mark
for the base, digits of that base; with decimal digits a superfluous zero in front makes a text. An
integer that needs more than 64 bits is refused as long as 128 bits are enough, and is a float beyond
that. A float that is not finite is null.
-/
namespace LogCatalog.Yaml.Scalar

def isNull (s : String) : Bool := ["null", "Null", "NULL", "~"].contains s

def bool? (s : String) : Option Bool :=
  if ["true", "True", "TRUE"].contains s then some true
  else if ["false", "False", "FALSE"].contains s then some false
  else none

/-- Decimal digits of which the first one is a superfluous zero, after one sign if there is one. -/
def isPadded (cs : List Char) : Bool :=
  let digits := match cs with
    | '-' :: r => r
    | '+' :: r => r
    | _ => cs
  digits.length > 1 && digits.head? == some '0' && digits.all Char.isDigit

/-- A magnitude in the base that its mark gives, if it has one. -/
def marked? : List Char → Option Nat
  | '0' :: 'x' :: r => Text.natural? 16 r
  | '0' :: 'o' :: r => Text.natural? 8 r
  | '0' :: 'b' :: r => Text.natural? 2 r
  | _ => none

/-- The integers as they are written. -/
def integer? (cs : List Char) : Option Int :=
  let magnitude? (cs' : List Char) : Option Nat :=
    (marked? cs').or (if isPadded cs then none else Text.natural? 10 cs')
  match cs with
  | '+' :: r => (magnitude? r).map Int.ofNat
  | '-' :: r => (magnitude? r).map fun n => -Int.ofNat n
  | _ => (magnitude? cs).map Int.ofNat

/-- How an integer is taken: as a number, not at all, or as no integer because it is too large. -/
inductive Size where
  | number (v : Json)
  | refused
  | tooLarge

def Size.ofInt (n : Int) : Size :=
  let magnitude := n.natAbs
  if 0 ≤ n then
    if magnitude < Nat.pow 2 64 then .number (.natural (UInt64.ofNat magnitude))
    else if magnitude < Nat.pow 2 128 then .refused
    else .tooLarge
  else if magnitude ≤ Nat.pow 2 63 then .number (.negative magnitude)
  else if magnitude ≤ Nat.pow 2 127 then .refused
  else .tooLarge

/-- A decimal significand and a power of ten, of which nothing but the sign matters when it is large. -/
def scaled (significand : Nat) (exponent : Int) : Float :=
  let digits : Int := (Nat.toDigits 10 significand).length
  if significand = 0 ∨ exponent + digits < -400 then 0
  else if 400 < exponent + digits then 1 / 0
  else if 0 ≤ exponent then Float.ofScientific significand false exponent.toNat
  else Float.ofScientific significand true exponent.natAbs

/-- Reads an exponent, if there is one, up to the end. -/
def exponent? : List Char → Option Int
  | [] => some 0
  | e :: r =>
    if e = 'e' ∨ e = 'E' then
      match r with
      | '+' :: r => (Text.natural? 10 r).map Int.ofNat
      | '-' :: r => (Text.natural? 10 r).map fun n => -Int.ofNat n
      | _ => (Text.natural? 10 r).map Int.ofNat
    else none

/-- The decimals without a sign: digits, a point and an exponent, with a digit on either side of the
point. -/
def magnitude? (cs : List Char) : Option Float := do
  let whole := cs.takeWhile Char.isDigit
  let rest := cs.drop whole.length
  let (fraction, rest) := match rest with
    | '.' :: r => (r.takeWhile Char.isDigit, r.dropWhile Char.isDigit)
    | _ => ([], rest)
  let significand ← Text.natural? 10 (whole ++ fraction)
  let x := scaled significand ((← exponent? rest) - fraction.length)
  if x.isInf then none else some x

def infinities : List String := [".inf", ".Inf", ".INF"]

def isNonFinite (cs : List Char) : Bool :=
  infinities.any (fun s => [s.toList, '+' :: s.toList, '-' :: s.toList].contains cs) ||
    [".nan", ".NaN", ".NAN"].any fun s => s.toList == cs

/-- A float as it is written. -/
def float? (cs : List Char) : Option Json :=
  if isNonFinite cs then some .null
  else match cs with
  | '-' :: r => (magnitude? r).map fun x => .float (-x)
  | '+' :: r => (magnitude? r).map .float
  | _ => (magnitude? cs).map .float

/-- What unquoted text means. -/
def meaning? (s : String) : Option Json :=
  if s.isEmpty || isNull s then some .null
  else match bool? s with
  | some b => some (.bool b)
  | none =>
    let cs := s.toList
    match (integer? cs).map Size.ofInt with
    | some (.number v) => some v
    | some .refused => none
    | _ => some (((if isPadded cs then none else float? cs)).getD (.text s))

end LogCatalog.Yaml.Scalar
