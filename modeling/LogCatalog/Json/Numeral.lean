import LogCatalog.Json.Basic

/-!
# JSON numerals

An integer from -2^63 up to 2^64 - 1 is read exactly, except that -0 is a float. Every other numeral
is a float: the significand takes in digits for as long as it stays below 2^64, the exponent accounts
for the digits around them, and the significand is then scaled by a power of ten in binary64
arithmetic. A numeral too large for a float is refused.
-/
namespace LogCatalog.Json.Numeral

def isDigit (c : Char) : Bool := '0' ≤ c && c ≤ '9'

def digitValue (c : Char) : Nat := c.toNat - '0'.toNat

/-- Takes in digits for as long as the significand stays below 2^64, and counts them. -/
def absorb (significand : Nat) : List Char → Nat × Nat
  | [] => (significand, 0)
  | c :: r =>
    let next := significand * 10 + digitValue c
    if next < Nat.pow 2 64 then
      let (last, count) := absorb next r
      (last, count + 1)
    else (significand, 0)

/-- The largest power of ten that a float holds. -/
def maxPower : Nat := 308

def tenTo (n : Nat) : Float := Float.ofScientific 1 false n

/-- Divides by `10 ^ n`, at most the largest power at a time. -/
def scaleDown (x : Float) (n : Nat) : Float :=
  if n ≤ maxPower then x / tenTo n
  else if x == 0 then x
  else scaleDown (x / tenTo maxPower) (n - maxPower)
termination_by n
decreasing_by simp [maxPower] at *; omega

/-- The float `significand * 10 ^ exponent`, unless it is too large. -/
def scale? (significand : Nat) (exponent : Int) : Option Float :=
  let x := (UInt64.ofNat significand).toFloat
  if exponent < 0 then some (scaleDown x exponent.natAbs)
  else if exponent ≤ maxPower then
    let y := x * tenTo exponent.toNat
    if y.isInf then none else some y
  else if significand = 0 then some x
  else none

def signed (minus : Bool) (x : Float) : Float := if minus then -x else x

/-- A numeral with an exponent of more than 31 bits is zero or too large. -/
def maxExponent : Nat := Nat.pow 2 31 - 1

/-- Reads what follows the exponent mark. -/
def exponent (minus : Bool) (significand : Nat) (start : Int) (cs : List Char) :
    Option (Json × List Char) :=
  let (down, cs) := match cs with
    | '+' :: r => (false, r)
    | '-' :: r => (true, r)
    | _ => (false, cs)
  let digits := cs.takeWhile isDigit
  let rest := cs.dropWhile isDigit
  if digits.isEmpty then none
  else
    let size := digits.foldl (fun n c => n * 10 + digitValue c) 0
    if size > maxExponent then
      if significand ≠ 0 ∧ ¬down then none else some (.float (signed minus 0), rest)
    else
      (scale? significand (if down then start - size else start + size)).map
        fun x => (.float (signed minus x), rest)

/-- Reads the exponent, if there is one, and gives the float. -/
def scaled (minus : Bool) (significand : Nat) (start : Int) (cs : List Char) :
    Option (Json × List Char) :=
  match cs with
  | 'e' :: r => exponent minus significand start r
  | 'E' :: r => exponent minus significand start r
  | _ => (scale? significand start).map fun x => (.float (signed minus x), cs)

/-- Reads what follows the point. -/
def fraction (minus : Bool) (significand : Nat) (start : Int) (cs : List Char) :
    Option (Json × List Char) :=
  let digits := cs.takeWhile isDigit
  let (significand, count) := absorb significand digits
  if digits.isEmpty then none
  else scaled minus significand (start - count) (cs.dropWhile isDigit)

/-- The integer with this magnitude, as a float if it is -0 or below -2^63. -/
def integer (minus : Bool) (magnitude : Nat) : Json :=
  if ¬minus then .natural (UInt64.ofNat magnitude)
  else if 0 < magnitude ∧ magnitude ≤ Nat.pow 2 63 then .negative magnitude
  else .float (-(UInt64.ofNat magnitude).toFloat)

/-- Reads the numeral after its sign. A zero before another digit is refused. -/
def unsigned (minus : Bool) (cs : List Char) : Option (Json × List Char) :=
  let digits := cs.takeWhile isDigit
  let rest := cs.dropWhile isDigit
  let (significand, count) := absorb 0 digits
  let start : Int := digits.length - count
  if digits.isEmpty ∨ (digits.head? = some '0' ∧ digits.length > 1) then none
  else match rest with
  | '.' :: r => fraction minus significand start r
  | _ =>
    if start = 0 ∧ rest.head? ≠ some 'e' ∧ rest.head? ≠ some 'E' then
      some (integer minus significand, rest)
    else scaled minus significand start rest

def read (cs : List Char) : Option (Json × List Char) :=
  match cs with
  | '-' :: r => unsigned true r
  | _ => unsigned false cs

end LogCatalog.Json.Numeral
