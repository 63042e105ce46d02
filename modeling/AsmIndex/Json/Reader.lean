import AsmIndex.Json.Basic

namespace AsmIndex.Json

def isSpace (c : Char) : Bool :=
  c == ' ' || c == '\n' || c == '\t' || c == '\r'

def skip (s : List Char) : List Char :=
  s.dropWhile isSpace

def digitValue (c : Char) : Nat :=
  c.toNat - 0x30

def decimalValue (digits : List Char) : Nat :=
  digits.foldl (fun n c => n * 10 + digitValue c) 0

/-- The number without a fraction or an exponent. Minus zero has no whole form. -/
def wholeNumber (negative : Bool) (digits : Nat) : JsonNumber :=
  if negative ∧ (digits = 0 ∨ 0x8000000000000000 < digits) then .real (Binary64.ofDecimal true digits 0)
  else if negative then .integer (-(digits : Int))
  else if digits < 0x10000000000000000 then .integer digits
  else .real (Binary64.ofDecimal false digits 0)

def exponent? (s : List Char) : Option (Option Int × List Char) :=
  match s with
  | c :: rest =>
    if c = 'e' ∨ c = 'E' then
      let (negative, rest) :=
        match rest with
        | '+' :: rest => (false, rest)
        | '-' :: rest => (true, rest)
        | _ => (false, rest)
      let digits := rest.takeWhile Char.isDigit
      if digits = [] then none
      else
        let value : Int := decimalValue digits
        some (some (if negative then -value else value), rest.dropWhile Char.isDigit)
    else some (none, s)
  | [] => some (none, s)

def fraction? (s : List Char) : Option (Option (List Char) × List Char) :=
  match s with
  | '.' :: rest =>
    let digits := rest.takeWhile Char.isDigit
    if digits = [] then none else some (some digits, rest.dropWhile Char.isDigit)
  | _ => some (none, s)

def number? (s : List Char) : Option (JsonNumber × List Char) := do
  let (negative, s) := match s with
    | '-' :: rest => (true, rest)
    | _ => (false, s)
  let whole := s.takeWhile Char.isDigit
  let s := s.dropWhile Char.isDigit
  guard (whole ≠ [] ∧ (whole.head? ≠ some '0' ∨ whole.length = 1))
  let (fraction, s) ← fraction? s
  let (exponent, s) ← exponent? s
  match fraction, exponent with
  | none, none => some (wholeNumber negative (decimalValue whole), s)
  | _, _ =>
    let digits := decimalValue (whole ++ fraction.getD [])
    let value :=
      Binary64.ofDecimal negative digits (exponent.getD 0 - ((fraction.getD []).length : Int))
    match value with
    | .infinite _ => none
    | _ => some (.real value, s)

def hexValue? (c : Char) : Option Nat :=
  if c.isDigit then some (c.toNat - 0x30)
  else if 'a' ≤ c ∧ c ≤ 'f' then some (c.toNat - 0x61 + 10)
  else if 'A' ≤ c ∧ c ≤ 'F' then some (c.toNat - 0x41 + 10)
  else none

def unit? (a b c d : Char) : Option Nat := do
  let a ← hexValue? a
  let b ← hexValue? b
  let c ← hexValue? c
  let d ← hexValue? d
  return a * 4096 + b * 256 + c * 16 + d

def plainEscape? (c : Char) : Option Char :=
  match c with
  | '"' | '\\' | '/' => some c
  | 'b' => some (Char.ofNat 8)
  | 'f' => some (Char.ofNat 12)
  | 'n' => some '\n'
  | 'r' => some '\r'
  | 't' => some '\t'
  | _ => none

/-- What follows an opening quote. Surrogates have to come in pairs. -/
def stringRest? : List Char → Option (List Char × List Char)
  | [] => none
  | '"' :: rest => some ([], rest)
  | '\\' :: 'u' :: a :: b :: c :: d :: rest => do
    let unit ← unit? a b c d
    if 0xdc00 ≤ unit ∧ unit ≤ 0xdfff then none
    else if 0xd800 ≤ unit ∧ unit ≤ 0xdbff then
      match rest with
      | '\\' :: 'u' :: e :: f :: g :: h :: rest =>
        let low ← unit? e f g h
        guard (0xdc00 ≤ low ∧ low ≤ 0xdfff)
        let char := Char.ofNat (0x10000 + (unit - 0xd800) * 0x400 + (low - 0xdc00))
        (stringRest? rest).map fun (s, after) => (char :: s, after)
      | _ => none
    else (stringRest? rest).map fun (s, after) => (Char.ofNat unit :: s, after)
  | '\\' :: c :: rest => do
    let char ← plainEscape? c
    (stringRest? rest).map fun (s, after) => (char :: s, after)
  | c :: rest =>
    if c.toNat < 0x20 ∨ c = '\\' then none
    else (stringRest? rest).map fun (s, after) => (c :: s, after)

def literal? (word : List Char) (value : Json) (s : List Char) : Option (Json × List Char) :=
  if word.isPrefixOf s then some (value, s.drop word.length) else none

mutual

/-- One value. The budget bounds the number of steps and the depth the nesting. -/
def value? (depth : Nat) : Nat → List Char → Option (Json × List Char)
  | 0, _ => none
  | budget + 1, s =>
    match s with
    | 'n' :: _ => literal? ['n', 'u', 'l', 'l'] .null s
    | 't' :: _ => literal? ['t', 'r', 'u', 'e'] (.bool true) s
    | 'f' :: _ => literal? ['f', 'a', 'l', 's', 'e'] (.bool false) s
    | '"' :: rest => (stringRest? rest).map fun (s, after) => (.string (String.ofList s), after)
    | '[' :: rest =>
      if depth ≤ 1 then none
      else
        match skip rest with
        | ']' :: after => some (.array [], after)
        | rest => (items? (depth - 1) budget rest).map fun (items, after) => (.array items, after)
    | '\x7b' :: rest =>
      if depth ≤ 1 then none
      else
        match skip rest with
        | '\x7d' :: after => some (.object [], after)
        | rest =>
          (fields? (depth - 1) budget rest).map fun (fields, after) => (ofFields fields, after)
    | _ => (number? s).map fun (n, after) => (.number n, after)

def items? (depth : Nat) : Nat → List Char → Option (List Json × List Char)
  | 0, _ => none
  | budget + 1, s => do
    let (item, s) ← value? depth budget s
    match skip s with
    | ',' :: rest =>
      let (items, after) ← items? depth budget (skip rest)
      return (item :: items, after)
    | ']' :: after => return ([item], after)
    | _ => none

def fields? (depth : Nat) : Nat → List Char → Option (List (String × Json) × List Char)
  | 0, _ => none
  | budget + 1, s => do
    match s with
    | '"' :: rest =>
      let (key, s) ← stringRest? rest
      match skip s with
      | ':' :: rest =>
        let (value, s) ← value? depth budget (skip rest)
        match skip s with
        | ',' :: rest =>
          let (fields, after) ← fields? depth budget (skip rest)
          return ((String.ofList key, value) :: fields, after)
        | '\x7d' :: after => return ([(String.ofList key, value)], after)
        | _ => none
      | _ => none
    | _ => none

end

def nestingLimit : Nat := 128

def parse? (text : String) : Option Json :=
  let s := text.toList
  match value? nestingLimit (2 * s.length + 2) (skip s) with
  | some (value, rest) => if skip rest = [] then some value else none
  | none => none

end AsmIndex.Json
