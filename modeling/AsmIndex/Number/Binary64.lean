namespace AsmIndex

inductive Binary64
  | nan
  | infinite (negative : Bool)
  | finite (negative : Bool) (mantissa : Nat) (exponent : Int)
deriving DecidableEq

namespace Binary64

/-- The quotient rounded to the nearest number, a half to the even one. -/
def roundDiv (num den : Nat) : Nat :=
  let quotient := num / den
  let rest := num % den
  if 2 * rest < den then quotient
  else if den < 2 * rest then quotient + 1
  else quotient + quotient % 2

def leastExponent : Int := -1074

def greatestExponent : Int := 971

def scale (base num den : Nat) (exponent : Int) : Nat × Nat :=
  if 0 ≤ exponent then (num, den * Nat.pow base exponent.toNat)
  else (num * Nat.pow base (-exponent).toNat, den)

def ofRatio (negative : Bool) (num den : Nat) : Binary64 :=
  if num = 0 then .finite negative 0 leastExponent
  else
    let guess : Int := (Nat.log2 num : Int) - (Nat.log2 den : Int) - 52
    let (n, d) := scale 2 num den guess
    let exponent := max leastExponent (if n / d < 0x10000000000000 then guess - 1 else guess)
    let (n, d) := scale 2 num den exponent
    let mantissa := roundDiv n d
    let (mantissa, exponent) :=
      if mantissa = 0x20000000000000 then (0x10000000000000, exponent + 1) else (mantissa, exponent)
    if greatestExponent < exponent then .infinite negative
    else .finite negative mantissa exponent

def digitCount (n : Nat) : Nat :=
  (Nat.toDigits 10 n).length

def ofDecimal (negative : Bool) (digits : Nat) (exponent : Int) : Binary64 :=
  let magnitude := exponent + digitCount digits
  if digits = 0 ∨ magnitude < -400 then .finite negative 0 leastExponent
  else if 400 < magnitude then .infinite negative
  else
    let (num, den) := scale 10 digits 1 (-exponent)
    ofRatio negative num den

def isZero : Binary64 → Bool
  | .finite _ mantissa _ => mantissa == 0
  | _ => false

def leadingPower (num den : Nat) : Int :=
  if den ≤ num then (digitCount (num / den) : Int) - 1
  else -(digitCount ((den - 1) / num) : Int)

/-- A decimal with the given number of digits that reads back, the nearer one if there are two. -/
def decimalOf? (mantissa : Nat) (exponent : Int) (count : Nat) : Option (Nat × Int) :=
  let (num, den) := scale 2 mantissa 1 (-exponent)
  let power := leadingPower num den + 1 - count
  let (n, d) := scale 10 num den power
  let low := n / d
  let readsBack (digits : Nat) : Bool :=
    ofDecimal false digits power == .finite false mantissa exponent
  match readsBack low, readsBack (low + 1) with
  | true, true => some (if 2 * (n % d) ≤ d then low else low + 1, power)
  | true, false => some (low, power)
  | false, true => some (low + 1, power)
  | false, false => none

def shortest (mantissa : Nat) (exponent : Int) : Nat × Int :=
  ((List.range 17).findSome? fun n => decimalOf? mantissa exponent (n + 1)).getD (0, 0)

def positional (digits : Nat) (power : Int) : List Char :=
  let text := Nat.toDigits 10 digits
  if 0 ≤ power then text ++ List.replicate power.toNat '0'
  else
    let places := (-power).toNat
    let padded := List.replicate (places + 1 - text.length) '0' ++ text
    padded.take (padded.length - places) ++ '.' :: padded.drop (padded.length - places)

def text : Binary64 → String
  | .nan => "NaN"
  | .infinite negative => if negative then "-inf" else "inf"
  | .finite negative mantissa exponent =>
    let (digits, power) := if mantissa = 0 then (0, 0) else shortest mantissa exponent
    String.ofList ((if negative then ['-'] else []) ++ positional digits power)

def pointText (x : Binary64) : String :=
  match x with
  | .finite .. => if x.text.toList.contains '.' then x.text else x.text ++ ".0"
  | _ => x.text

def scientific (digits : List Char) (power : Int) : List Char :=
  let fraction := if digits.length ≤ 1 then [] else '.' :: digits.drop 1
  digits.take 1 ++ fraction ++ 'e' :: (toString power).toList

/-- The text with a point from five places behind it up to sixteen digits before it, and with a power of ten
elsewhere. -/
def compactText (x : Binary64) : String :=
  match x with
  | .finite negative mantissa exponent =>
    let (digits, power) := if mantissa = 0 then (0, 0) else shortest mantissa exponent
    let written := (toString digits).toList
    let whole := written.length + power
    if -5 < whole ∧ whole ≤ 16 then x.pointText
    else
      String.ofList ((if negative then ['-'] else []) ++ scientific written (whole - 1))
  | _ => x.pointText

end Binary64

end AsmIndex
