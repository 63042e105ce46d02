import AsmIndex.Settings.Value

namespace AsmIndex.Toml

/-- How a table came to be: on the way to another one, by its header, or by a dotted key. -/
inductive TableStyle
  | implied
  | header
  | dotted
deriving DecidableEq

inductive Node
  | value (value : ConfigValue)
  | table (style : TableStyle) (fields : List (String × Node))
  | rows (rows : List (List (String × Node)))

abbrev Fields := List (String × Node)

def isWs (c : Char) : Bool :=
  c == ' ' || c == '\t'

def skipWs (s : List Char) : List Char :=
  s.dropWhile isWs

def isControl (c : Char) : Bool :=
  (c.toNat < 0x20 && c != '\t') || c.toNat == 0x7f

def newline? : List Char → Option (List Char)
  | '\n' :: rest => some rest
  | '\r' :: '\n' :: rest => some rest
  | _ => none

def skipComment (s : List Char) : List Char :=
  match s with
  | '#' :: rest => rest.dropWhile fun c => !isControl c
  | _ => s

def endLine? (s : List Char) : Option (List Char) :=
  match skipComment (skipWs s) with
  | [] => some []
  | rest => newline? rest

def hexDigits? (count : Nat) (s : List Char) : Option (Nat × List Char) := do
  let digits ← (s.take count).mapM fun c =>
    if c.isDigit then some (c.toNat - 0x30)
    else if 'a' ≤ c ∧ c ≤ 'f' then some (c.toNat - 0x61 + 10)
    else if 'A' ≤ c ∧ c ≤ 'F' then some (c.toNat - 0x41 + 10)
    else none
  guard (digits.length = count)
  return (digits.foldl (fun n d => n * 16 + d) 0, s.drop count)

def scalar? (n : Nat) : Option Char :=
  if n < 0xd800 ∨ (0xdfff < n ∧ n < 0x110000) then some (Char.ofNat n) else none

def escape? : List Char → Option (Char × List Char)
  | 'b' :: rest => some (Char.ofNat 8, rest)
  | 't' :: rest => some ('\t', rest)
  | 'n' :: rest => some ('\n', rest)
  | 'f' :: rest => some (Char.ofNat 12, rest)
  | 'r' :: rest => some ('\r', rest)
  | '"' :: rest => some ('"', rest)
  | '\\' :: rest => some ('\\', rest)
  | 'u' :: rest => do
    let (n, rest) ← hexDigits? 4 rest
    return (← scalar? n, rest)
  | 'U' :: rest => do
    let (n, rest) ← hexDigits? 8 rest
    return (← scalar? n, rest)
  | _ => none

def basic? : Nat → List Char → Option (List Char × List Char)
  | 0, _ => none
  | budget + 1, s =>
    match s with
    | '"' :: rest => some ([], rest)
    | '\\' :: rest => do
      let (c, rest) ← escape? rest
      let (text, rest) ← basic? budget rest
      return (c :: text, rest)
    | c :: rest =>
      if isControl c then none
      else do
        let (text, rest) ← basic? budget rest
        return (c :: text, rest)
    | [] => none

def literal? : List Char → Option (List Char × List Char)
  | [] => none
  | c :: rest =>
    if c = '\'' then some ([], rest)
    else if isControl c then none
    else (literal? rest).map fun (text, rest) => (c :: text, rest)

def skipFirstNewline (s : List Char) : List Char :=
  (newline? s).getD s

def quoteRun (quote : Char) (s : List Char) : Nat :=
  (s.takeWhile (· = quote)).length

/-- What follows three opening quotes. Up to two quotes may stand before the three closing ones, and a
backslash at the end of a line takes away the space up to the next character. -/
def multiline? (quote : Char) (escapes : Bool) : Nat → List Char → Option (List Char × List Char)
  | 0, _ => none
  | budget + 1, s =>
    let plain (c : Char) (rest : List Char) : Option (List Char × List Char) := do
      let (text, rest) ← multiline? quote escapes budget rest
      return (c :: text, rest)
    match s with
    | [] => none
    | c :: rest =>
      if c = quote then
        let run := quoteRun quote s
        if run < 3 then plain c rest
        else
          let kept := min (run - 3) 2
          some (List.replicate kept quote, s.drop (kept + 3))
      else if c = '\\' ∧ escapes then
        match newline? (skipWs rest) with
        | some after =>
          multiline? quote escapes budget
            (after.dropWhile fun c => isWs c || c == '\n' || c == '\r')
        | none => do
          let (c, rest) ← escape? rest
          plain c rest
      else
        match newline? s with
        | some after => plain '\n' after
        | none => if isControl c then none else plain c rest

def string? (s : List Char) : Option (String × List Char) := do
  let (text, rest) ←
    match s with
    | '"' :: '"' :: '"' :: rest => multiline? '"' true (s.length + 1) (skipFirstNewline rest)
    | '\'' :: '\'' :: '\'' :: rest => multiline? '\'' false (s.length + 1) (skipFirstNewline rest)
    | '"' :: rest => basic? (s.length + 1) rest
    | '\'' :: rest => literal? rest
    | _ => none
  return (String.ofList text, rest)

def isBare (c : Char) : Bool :=
  c.isAlphanum || c == '_' || c == '-'

def simpleKey? (s : List Char) : Option (String × List Char) :=
  match s with
  | '"' :: rest => (basic? (s.length + 1) rest).map fun (key, rest) => (String.ofList key, rest)
  | '\'' :: rest => (literal? rest).map fun (key, rest) => (String.ofList key, rest)
  | _ =>
    if s.takeWhile isBare = [] then none
    else some (String.ofList (s.takeWhile isBare), s.dropWhile isBare)

def key? : Nat → List Char → Option (List String × List Char)
  | 0, _ => none
  | budget + 1, s => do
    let (first, rest) ← simpleKey? (skipWs s)
    match skipWs rest with
    | '.' :: rest =>
      let (more, rest) ← key? budget rest
      return (first :: more, rest)
    | rest => return ([first], rest)

def digits? (isDigit : Char → Bool) (s : List Char) : Option (List Char) :=
  let rec go : Bool → List Char → Option (List Char)
    | afterDigit, [] => if afterDigit then some [] else none
    | afterDigit, c :: rest =>
      if isDigit c then (go true rest).map (c :: ·)
      else if c = '_' ∧ afterDigit then go false rest
      else none
  go false s

def natOf (base : Nat) (digits : List Char) : Nat :=
  digits.foldl
    (fun n c =>
      let d :=
        if c.isDigit then c.toNat - 0x30
        else if c.isLower then c.toNat - 0x61 + 10
        else c.toNat - 0x41 + 10
      n * base + d)
    0

def isHex (c : Char) : Bool :=
  c.isDigit || ('a' ≤ c && c ≤ 'f') || ('A' ≤ c && c ≤ 'F')

def integer (n : Int) : Option ConfigValue :=
  if ConfigValue.isWord64 n then some (.integer n) else none

def sign (s : List Char) : Bool × List Char :=
  match s with
  | '-' :: rest => (true, rest)
  | '+' :: rest => (false, rest)
  | _ => (false, s)

def whole? (s : List Char) : Option (List Char) := do
  let digits ← digits? Char.isDigit s
  guard (digits.length = 1 ∨ digits.head? ≠ some '0')
  return digits

def float? (negative : Bool) (s : List Char) : Option ConfigValue := do
  let isExponent (c : Char) : Bool := c == 'e' || c == 'E'
  let mantissa := s.takeWhile fun c => !isExponent c
  let wholePart ← whole? (mantissa.takeWhile (· ≠ '.'))
  let fraction ←
    match mantissa.dropWhile (· ≠ '.') with
    | '.' :: rest => digits? Char.isDigit rest
    | _ => some []
  let exponent : Int ←
    match s.dropWhile fun c => !isExponent c with
    | _ :: rest =>
      let (down, rest) := sign rest
      (digits? Char.isDigit rest).map fun digits =>
        let n : Int := natOf 10 digits
        if down then -n else n
    | [] => some 0
  match Binary64.ofDecimal negative (natOf 10 (wholePart ++ fraction)) (exponent - fraction.length) with
  | .infinite _ => none
  | value => some (.real value)

def number? (s : List Char) : Option ConfigValue :=
  match s with
  | '0' :: 'x' :: rest => (digits? isHex rest).bind fun digits => integer (natOf 16 digits)
  | '0' :: 'o' :: rest =>
    (digits? (fun c => '0' ≤ c && c ≤ '7') rest).bind fun digits => integer (natOf 8 digits)
  | '0' :: 'b' :: rest =>
    (digits? (fun c => c == '0' || c == '1') rest).bind fun digits => integer (natOf 2 digits)
  | _ =>
    let (negative, rest) := sign s
    if rest = ['i', 'n', 'f'] then some (.real (.infinite negative))
    else if rest = ['n', 'a', 'n'] then some (.real .nan)
    else if rest.any fun c => c == '.' || c == 'e' || c == 'E' then float? negative rest
    else (whole? rest).bind fun digits =>
      let n : Int := natOf 10 digits
      integer (if negative then -n else n)

def fixed? (count : Nat) (s : List Char) : Option (Nat × List Char) :=
  let digits := s.take count
  if digits.length = count ∧ digits.all Char.isDigit then some (natOf 10 digits, s.drop count)
  else none

def expect? (c : Char) (s : List Char) : Option (List Char) :=
  if s.head? = some c then some (s.drop 1) else none

def daysIn (year month : Nat) : Nat :=
  if month = 2 then
    if year % 4 = 0 ∧ (year % 100 ≠ 0 ∨ year % 400 = 0) then 29 else 28
  else if [4, 6, 9, 11].contains month then 30
  else 31

def padded (count n : Nat) : List Char :=
  let digits := Nat.toDigits 10 n
  List.replicate (count - digits.length) '0' ++ digits

def date? (s : List Char) : Option (List Char × List Char) := do
  let (year, rest) ← fixed? 4 s
  let (month, rest) ← fixed? 2 (← expect? '-' rest)
  let (day, rest) ← fixed? 2 (← expect? '-' rest)
  guard (1 ≤ month ∧ month ≤ 12 ∧ 1 ≤ day ∧ day ≤ daysIn year month)
  return (padded 4 year ++ '-' :: padded 2 month ++ '-' :: padded 2 day, rest)

/-- The time of day. A fraction keeps nine places and loses the zeros at its end. -/
def time? (s : List Char) : Option (List Char × List Char) := do
  let (hour, rest) ← fixed? 2 s
  let (minute, rest) ← fixed? 2 (← expect? ':' rest)
  let (second, rest) ← fixed? 2 (← expect? ':' rest)
  guard (hour ≤ 23 ∧ minute ≤ 59 ∧ second ≤ 60)
  let base := padded 2 hour ++ ':' :: padded 2 minute ++ ':' :: padded 2 second
  match rest with
  | '.' :: rest =>
    let digits := rest.takeWhile Char.isDigit
    guard (digits ≠ [])
    let kept := ((digits.take 9).reverse.dropWhile (· = '0')).reverse
    return (if kept = [] then base else base ++ '.' :: kept, rest.dropWhile Char.isDigit)
  | _ => return (base, rest)

def offset? (s : List Char) : Option (List Char) :=
  match s with
  | [] => some []
  | ['Z'] | ['z'] => some ['Z']
  | c :: rest => do
    guard (c = '+' ∨ c = '-')
    let (hour, rest) ← fixed? 2 rest
    let (minute, rest) ← fixed? 2 (← expect? ':' rest)
    guard (hour ≤ 23 ∧ minute ≤ 59 ∧ rest = [])
    return c :: padded 2 hour ++ ':' :: padded 2 minute

def moment? (s : List Char) : Option ConfigValue :=
  match date? s with
  | some (date, []) => some (.text (String.ofList date))
  | some (date, c :: rest) => do
    guard (c = 'T' ∨ c = 't' ∨ c = ' ')
    let (time, rest) ← time? rest
    let offset ← offset? rest
    return .text (String.ofList (date ++ 'T' :: time ++ offset))
  | none => do
    let (time, rest) ← time? s
    guard (rest = [])
    return .text (String.ofList time)

def isWordChar (c : Char) : Bool :=
  c.isAlphanum || c == '+' || c == '-' || c == '_' || c == '.' || c == ':'

/-- The characters of a value that is no string, array or table. A date may be parted from its time by
a space. -/
def word (s : List Char) : List Char × List Char :=
  let first := s.takeWhile isWordChar
  match s.dropWhile isWordChar with
  | ' ' :: a :: b :: ':' :: rest =>
    if (date? first).map Prod.snd = some [] ∧ a.isDigit ∧ b.isDigit then
      let tail := a :: b :: ':' :: rest
      (first ++ ' ' :: tail.takeWhile isWordChar, tail.dropWhile isWordChar)
    else (first, s.dropWhile isWordChar)
  | rest => (first, rest)

def plain? (s : List Char) : Option ConfigValue :=
  if s = ['t', 'r', 'u', 'e'] then some (.boolean true)
  else if s = ['f', 'a', 'l', 's', 'e'] then some (.boolean false)
  else (number? s).or (moment? s)

def replaceField (key : String) (node : Node) : Fields → Fields
  | [] => []
  | (k, held) :: rest =>
    if k = key then (k, node) :: rest else (k, held) :: replaceField key node rest

/-- A value put at a key. Tables on the way are opened, but not those that have a header. -/
def put? (value : ConfigValue) : List String → Fields → Option Fields
  | [], _ => none
  | [key], fields =>
    match fields.lookup key with
    | some _ => none
    | none => some (fields ++ [(key, .value value)])
  | key :: more, fields =>
    match fields.lookup key with
    | none => (put? value more []).map fun inner => fields ++ [(key, .table .dotted inner)]
    | some (.table style inner) =>
      if style = .header then none
      else (put? value more inner).map fun inner => replaceField key (.table style inner) fields
    | some _ => none

/-- A change in the table at a path. In rows of tables the last one is meant. -/
def within? (change? : Fields → Option Fields) : List String → Fields → Option Fields
  | [], fields => change? fields
  | key :: more, fields =>
    match fields.lookup key with
    | some (.table style inner) =>
      (within? change? more inner).map fun inner => replaceField key (.table style inner) fields
    | some (.rows rows) => do
      let last ← rows.getLast?
      let last ← within? change? more last
      return replaceField key (.rows (rows.dropLast ++ [last])) fields
    | _ => none

def open? (here? : Option Node → Option Node) : List String → Fields → Option Fields
  | [], _ => none
  | [key], fields =>
    match fields.lookup key with
    | none => (here? none).map fun node => fields ++ [(key, node)]
    | some held => (here? (some held)).map fun node => replaceField key node fields
  | key :: more, fields =>
    match fields.lookup key with
    | none => (open? here? more []).map fun inner => fields ++ [(key, .table .implied inner)]
    | some (.table style inner) =>
      (open? here? more inner).map fun inner => replaceField key (.table style inner) fields
    | some (.rows rows) => do
      let last ← rows.getLast?
      let last ← open? here? more last
      return replaceField key (.rows (rows.dropLast ++ [last])) fields
    | some (.value _) => none

def asHeader? : Option Node → Option Node
  | none => some (.table .header [])
  | some (.table .implied fields) => some (.table .header fields)
  | some _ => none

def asRow? : Option Node → Option Node
  | none => some (.rows [[]])
  | some (.rows rows) => some (.rows (rows ++ [[]]))
  | some _ => none

mutual

def Node.toValue : Node → ConfigValue
  | .value value => value
  | .table _ fields => .table (fieldValues fields)
  | .rows rows => .list (rowValues rows)

def fieldValues : List (String × Node) → List (String × ConfigValue)
  | [] => []
  | (key, node) :: rest => (key, node.toValue) :: fieldValues rest

def rowValues : List (List (String × Node)) → List ConfigValue
  | [] => []
  | row :: rest => .table (fieldValues row) :: rowValues rest

end

def skipLines : Nat → List Char → List Char
  | 0, s => s
  | budget + 1, s =>
    let s := skipComment (skipWs s)
    match newline? s with
    | some rest => skipLines budget rest
    | none => s

mutual

/-- One value. The budget bounds the number of steps and the depth the nesting. -/
def value? (depth : Nat) : Nat → List Char → Option (ConfigValue × List Char)
  | 0, _ => none
  | budget + 1, s =>
    match s with
    | '"' :: _ | '\'' :: _ => (string? s).map fun (text, rest) => (.text text, rest)
    | '[' :: rest =>
      if depth ≤ 1 then none
      else
        (items? (depth - 1) budget (skipLines rest.length rest)).map fun (items, rest) =>
          (.list items, rest)
    | '\x7b' :: rest =>
      if depth ≤ 1 then none
      else
        match skipWs rest with
        | '\x7d' :: rest => some (.table [], rest)
        | rest =>
          (inline? (depth - 1) budget [] rest).map fun (fields, rest) =>
            (.table (fieldValues fields), rest)
    | _ =>
      let (text, rest) := word s
      (plain? text).map fun value => (value, rest)

def items? (depth : Nat) : Nat → List Char → Option (List ConfigValue × List Char)
  | 0, _ => none
  | budget + 1, s =>
    match s with
    | ']' :: rest => some ([], rest)
    | _ => do
      let (item, rest) ← value? depth budget s
      match skipLines rest.length rest with
      | ',' :: rest =>
        let (items, rest) ← items? depth budget (skipLines rest.length rest)
        return (item :: items, rest)
      | ']' :: rest => return ([item], rest)
      | _ => none

def inline? (depth : Nat) : Nat → Fields → List Char → Option (Fields × List Char)
  | 0, _, _ => none
  | budget + 1, fields, s => do
    let (key, rest) ← key? (s.length + 1) s
    let rest ← expect? '=' (skipWs rest)
    let (value, rest) ← value? depth budget (skipWs rest)
    let fields ← put? value key fields
    match skipWs rest with
    | ',' :: rest => inline? depth budget fields rest
    | '\x7d' :: rest => return (fields, rest)
    | _ => none

end

def nestingLimit : Nat := 80

def header? (s : List Char) : Option (List String × (Option Node → Option Node) × List Char) :=
  match s with
  | '[' :: '[' :: rest => do
    let (path, rest) ← key? (s.length + 1) rest
    let rest ← expect? ']' (← expect? ']' (skipWs rest))
    return (path, asRow?, rest)
  | '[' :: rest => do
    let (path, rest) ← key? (s.length + 1) rest
    let rest ← expect? ']' (skipWs rest)
    return (path, asHeader?, rest)
  | _ => none

def statements? : Nat → List String → Fields → List Char → Option Fields
  | 0, _, _, _ => none
  | budget + 1, place, fields, s =>
    match endLine? s with
    | some [] => some fields
    | some rest => statements? budget place fields rest
    | none =>
      match skipWs s with
      | '[' :: _ => do
        let (path, here?, rest) ← header? (skipWs s)
        let fields ← open? here? path fields
        let rest ← endLine? rest
        statements? budget path fields rest
      | _ => do
        let (key, rest) ← key? (s.length + 1) s
        let rest ← expect? '=' (skipWs rest)
        let (value, rest) ← value? nestingLimit (2 * rest.length + 2) (skipWs rest)
        let fields ← within? (put? value key) place fields
        let rest ← endLine? rest
        statements? budget place fields rest

/-- The fields of a document. A byte order mark in front is skipped. -/
def parse? (text : List Char) : Option (List (String × ConfigValue)) :=
  let s := match text with
    | '\ufeff' :: rest => rest
    | _ => text
  (statements? (s.length + 1) [] [] s).map fieldValues

end AsmIndex.Toml
