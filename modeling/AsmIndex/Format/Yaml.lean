import AsmIndex.Settings.Value
import AsmIndex.Source.Line

namespace AsmIndex.Yaml

abbrev Line := List Char

def isSpace (c : Char) : Bool :=
  c == ' ' || c == '\t'

def skipSpace (s : List Char) : List Char :=
  s.dropWhile isSpace

def trimRight (s : List Char) : List Char :=
  (s.reverse.dropWhile isSpace).reverse

def indent (line : Line) : Nat :=
  (line.takeWhile (· = ' ')).length

def isIdle (line : Line) : Bool :=
  match skipSpace line with
  | [] => true
  | c :: _ => c == '#'

def skipIdle (lines : List Line) : List Line :=
  lines.dropWhile isIdle

/-- The text before a comment, which a blank has to precede. -/
def beforeComment (afterSpace : Bool) : List Char → List Char
  | [] => []
  | c :: rest => if c = '#' ∧ afterSpace then [] else c :: beforeComment (isSpace c) rest

def digitsOf (base : Nat) (s : List Char) : Option Nat := do
  guard (s ≠ [])
  let digits ← s.mapM fun c =>
    let d :=
      if c.isDigit then c.toNat - 0x30
      else if 'a' ≤ c ∧ c ≤ 'f' then c.toNat - 0x61 + 10
      else if 'A' ≤ c ∧ c ≤ 'F' then c.toNat - 0x41 + 10
      else base
    if d < base then some d else none
  return digits.foldl (fun n d => n * base + d) 0

def signed (s : List Char) : Bool × List Char :=
  match s with
  | '-' :: rest => (true, rest)
  | '+' :: rest => (false, rest)
  | _ => (false, s)

def integerIn? (base : Nat) (s : List Char) : Option Int := do
  let (negative, digits) := signed s
  let n ← digitsOf base digits
  let value : Int := if negative then -n else n
  guard (ConfigValue.isWord64 value)
  return value

def integer? (s : List Char) : Option Int :=
  match s with
  | '0' :: 'x' :: rest => integerIn? 16 rest
  | '0' :: 'o' :: rest => integerIn? 8 rest
  | _ => integerIn? 10 s

def isExponent (c : Char) : Bool :=
  c == 'e' || c == 'E'

def decimal? (s : List Char) : Option Binary64 := do
  let (negative, body) := signed s
  let mantissa := body.takeWhile fun c => !isExponent c
  let whole := mantissa.takeWhile (· ≠ '.')
  let fraction := (mantissa.dropWhile (· ≠ '.')).drop 1
  let digits := whole ++ fraction
  let value ← digitsOf 10 digits
  let exponent : Int ←
    match body.dropWhile fun c => !isExponent c with
    | _ :: rest => do
      let (down, rest) := signed rest
      let n ← digitsOf 10 rest
      pure (if down then -(n : Int) else n)
    | [] => pure 0
  return Binary64.ofDecimal negative value (exponent - fraction.length)

def real? (s : List Char) : Option Binary64 :=
  let (negative, body) := signed s
  let name := String.ofList (body.map Char.toLower)
  if name = "inf" ∨ name = "infinity" then some (.infinite negative)
  else if name = "nan" then some .nan
  else decimal? s

def isOddReal (s : String) : Bool :=
  [".inf", ".Inf", ".INF", "+.inf", "+.Inf", "+.INF", "-.inf", "-.Inf", "-.INF", ".nan",
    ".NAN"].contains s

def plainValue? (s : List Char) : Option ConfigValue :=
  let text := String.ofList s
  if text = "~" ∨ text = "null" ∨ text = "" then some .nothing
  else if text = "true" then some (.boolean true)
  else if text = "false" then some (.boolean false)
  else if isOddReal text then none
  else
    match integer? s, real? s with
    | some n, _ => some (.integer n)
    | none, some x => some (.real x)
    | none, none => some (.text text)

def keyText (s : List Char) : String :=
  match integer? s with
  | some n => toString n
  | none => String.ofList s

def isIndicator (c : Char) : Bool :=
  [',', '[', ']', '\x7b', '\x7d', '#', '&', '*', '!', '|', '>', '\'', '"', '%', '@', '\x60'].contains c

def startsPlain (s : List Char) : Bool :=
  match s with
  | [] => false
  | c :: rest =>
    if c = '-' ∨ c = '?' ∨ c = ':' then
      match rest with
      | d :: _ => !isSpace d
      | [] => false
    else !isIndicator c

def splitColon? : List Char → Option (List Char × List Char)
  | [] => none
  | [':'] => some ([], [])
  | ':' :: c :: rest =>
    if isSpace c then some ([], rest)
    else (splitColon? (c :: rest)).map fun (key, rest) => (':' :: key, rest)
  | c :: rest => (splitColon? rest).map fun (key, rest) => (c :: key, rest)

def hex? (count : Nat) (s : List Char) : Option (Char × List Char) := do
  guard (count ≤ s.length)
  let n ← digitsOf 16 (s.take count)
  guard (n < 0xd800 ∨ (0xdfff < n ∧ n < 0x110000))
  return (Char.ofNat n, s.drop count)

def escape? : List Char → Option (Char × List Char)
  | '0' :: rest => some (Char.ofNat 0, rest)
  | 'a' :: rest => some (Char.ofNat 7, rest)
  | 'b' :: rest => some (Char.ofNat 8, rest)
  | 't' :: rest => some ('\t', rest)
  | '\t' :: rest => some ('\t', rest)
  | 'n' :: rest => some ('\n', rest)
  | 'v' :: rest => some (Char.ofNat 11, rest)
  | 'f' :: rest => some (Char.ofNat 12, rest)
  | 'r' :: rest => some ('\r', rest)
  | 'e' :: rest => some (Char.ofNat 27, rest)
  | ' ' :: rest => some (' ', rest)
  | '"' :: rest => some ('"', rest)
  | '/' :: rest => some ('/', rest)
  | '\\' :: rest => some ('\\', rest)
  | 'N' :: rest => some (Char.ofNat 0x85, rest)
  | '_' :: rest => some (Char.ofNat 0xa0, rest)
  | 'L' :: rest => some (Char.ofNat 0x2028, rest)
  | 'P' :: rest => some (Char.ofNat 0x2029, rest)
  | 'x' :: rest => hex? 2 rest
  | 'u' :: rest => hex? 4 rest
  | 'U' :: rest => hex? 8 rest
  | _ => none

/-- Line breaks inside a scalar: one is a space, and each further one stays. -/
def foldBreaks (s : List Char) : List Char × List Char :=
  let gap := s.takeWhile fun c => isSpace c || c == '\n'
  let breaks := (gap.filter (· = '\n')).length
  let rest := s.dropWhile fun c => isSpace c || c == '\n'
  (if breaks = 0 then gap else if breaks = 1 then [' '] else List.replicate (breaks - 1) '\n', rest)

def single? : Nat → List Char → Option (List Char × List Char)
  | 0, _ => none
  | budget + 1, s =>
    match s with
    | [] => none
    | '\'' :: '\'' :: rest => (single? budget rest).map fun (text, rest) => ('\'' :: text, rest)
    | '\'' :: rest => some ([], rest)
    | c :: rest =>
      if isSpace c ∨ c = '\n' then
        let (gap, rest) := foldBreaks s
        (single? budget rest).map fun (text, rest) => (gap ++ text, rest)
      else (single? budget rest).map fun (text, rest) => (c :: text, rest)

def double? : Nat → List Char → Option (List Char × List Char)
  | 0, _ => none
  | budget + 1, s =>
    match s with
    | [] => none
    | '"' :: rest => some ([], rest)
    | '\\' :: '\n' :: rest => double? budget (skipSpace rest)
    | '\\' :: rest => do
      let (c, rest) ← escape? rest
      let (text, rest) ← double? budget rest
      return (c :: text, rest)
    | c :: rest =>
      if isSpace c ∨ c = '\n' then
        let (gap, rest) := foldBreaks s
        (double? budget rest).map fun (text, rest) => (gap ++ text, rest)
      else (double? budget rest).map fun (text, rest) => (c :: text, rest)

def quoted? (s : List Char) : Option (List Char × List Char) :=
  match s with
  | '\'' :: rest => single? (s.length + 1) rest
  | '"' :: rest => double? (s.length + 1) rest
  | _ => none

def skipFlow : Nat → List Char → List Char
  | 0, s => s
  | budget + 1, s =>
    match s with
    | '#' :: rest => skipFlow budget (rest.dropWhile (· ≠ '\n'))
    | c :: rest => if isSpace c ∨ c = '\n' then skipFlow budget rest else s
    | [] => []

def skipGap (s : List Char) : List Char :=
  skipFlow (s.length + 1) s

def endsFlow (c : Char) : Bool :=
  [',', '[', ']', '\x7b', '\x7d'].contains c

def flowPlain (afterSpace : Bool) : List Char → List Char × List Char
  | [] => ([], [])
  | c :: rest =>
    let endsKey := c == ':' &&
      match rest with
      | d :: _ => isSpace d || d == '\n' || endsFlow d
      | [] => true
    if endsFlow c || endsKey || (c == '#' && afterSpace) then ([], c :: rest)
    else
      let (text, rest) := flowPlain (isSpace c || c == '\n') rest
      ((if c = '\n' then ' ' else c) :: text, rest)

def keyOf : ConfigValue → Option String
  | .text s => some s
  | .integer n => some (toString n)
  | _ => none

def insertField (key : String) (value : ConfigValue) (fields : List (String × ConfigValue)) :
    List (String × ConfigValue) :=
  if fields.any (·.1 = key) then fields.map fun (k, held) => (k, if k = key then value else held)
  else fields ++ [(key, value)]

mutual

def flow? : Nat → List Char → Option (ConfigValue × List Char)
  | 0, _ => none
  | budget + 1, s =>
    match s with
    | '[' :: rest => (flowItems? budget (skipGap rest)).map fun (items, rest) => (.list items, rest)
    | '\x7b' :: rest =>
      (flowFields? budget [] (skipGap rest)).map fun (fields, rest) => (.table fields, rest)
    | '"' :: _ | '\'' :: _ =>
      (quoted? s).map fun (text, rest) => (.text (String.ofList text), rest)
    | _ =>
      if startsPlain s then
        let (text, rest) := flowPlain false s
        (plainValue? (trimRight text)).map fun value => (value, rest)
      else none

/-- An item of a sequence. A key with a value is a mapping of its own. -/
def flowItems? : Nat → List Char → Option (List ConfigValue × List Char)
  | 0, _ => none
  | budget + 1, s =>
    match s with
    | ']' :: rest => some ([], rest)
    | _ => do
      let (item, rest) ← flow? budget s
      let (item, rest) ←
        match skipGap rest with
        | ':' :: rest => do
          let key ← keyOf item
          let (value, rest) ← flowValue? budget (skipGap rest)
          pure (ConfigValue.table [(key, value)], rest)
        | rest => pure (item, rest)
      match skipGap rest with
      | ',' :: rest =>
        let (items, rest) ← flowItems? budget (skipGap rest)
        return (item :: items, rest)
      | ']' :: rest => return ([item], rest)
      | _ => none

def flowValue? : Nat → List Char → Option (ConfigValue × List Char)
  | 0, _ => none
  | budget + 1, s =>
    match s with
    | ',' :: _ | ']' :: _ | '\x7d' :: _ => some (.nothing, s)
    | _ => flow? budget s

def flowFields? : Nat → List (String × ConfigValue) → List Char →
    Option (List (String × ConfigValue) × List Char)
  | 0, _, _ => none
  | budget + 1, fields, s =>
    match s with
    | '\x7d' :: rest => some (fields, rest)
    | _ => do
      let (key, rest) ← flow? budget s
      let key ← keyOf key
      let (value, rest) ←
        match skipGap rest with
        | ':' :: rest => flowValue? budget (skipGap rest)
        | rest => pure (.nothing, rest)
      let fields := insertField key value fields
      match skipGap rest with
      | ',' :: rest => flowFields? budget fields (skipGap rest)
      | '\x7d' :: rest => return (fields, rest)
      | _ => none

end

def key? (body : List Char) : Option (String × List Char) :=
  match quoted? body with
  | some (key, rest) =>
    match skipSpace rest with
    | [':'] => some (String.ofList key, [])
    | ':' :: c :: rest => if isSpace c then some (String.ofList key, rest) else none
    | _ => none
  | none =>
    if startsPlain body then
      (splitColon? (beforeComment false body)).map fun (key, rest) => (keyText (trimRight key), rest)
    else none

def isDash : List Char → Bool
  | ['-'] => true
  | '-' :: c :: _ => isSpace c
  | _ => false

def joinLines (first : List Char) (lines : List Line) : List Char :=
  first ++ lines.flatMap ('\n' :: ·)

def endValue? (rest : List Char) : Option (List Line) :=
  match Source.lines rest with
  | [] => some []
  | line :: lines => if isIdle (beforeComment true line) then some lines else none

/-- The further lines of a plain scalar: those deeper than its parent, up to a comment. -/
def plainRest (depth : Nat) (gap : Nat) : List Line → List Char × List Line
  | [] => ([], [])
  | line :: rest =>
    if skipSpace line = [] then
      let (text, after) := plainRest depth (gap + 1) rest
      if text = [] then ([], line :: rest) else (text, after)
    else if depth < indent line + 1 ∧ !isIdle line then
      let text := trimRight (beforeComment true (skipSpace line))
      let (more, after) := plainRest depth 0 rest
      ((if gap = 0 then [' '] else List.replicate gap '\n') ++ text ++ more, after)
    else ([], line :: rest)

def blockLines (depth : Nat) (lines : List Line) : List Line :=
  lines.takeWhile fun line => skipSpace line = [] || depth ≤ indent line

def dropBlankEnd (lines : List Line) : List Line :=
  (lines.reverse.dropWhile fun line => line = []).reverse

/-- Lines joined with breaks, or with spaces between two lines of text that are not deeper. -/
def foldLines : List Line → List Char
  | [] => []
  | [line] => line
  | line :: next :: rest =>
    let more := foldLines (next :: rest)
    if line ≠ [] ∧ next ≠ [] ∧ indent line = 0 ∧ indent next = 0 then line ++ ' ' :: more
    else if line ≠ [] ∧ next = [] ∧ indent line = 0 then line ++ more
    else line ++ '\n' :: more

def block? (least : Nat) (header : List Char) (lines : List Line) :
    Option (ConfigValue × List Line) := do
  let folded := header.head? = some '>'
  let marks := trimRight (beforeComment false (header.drop 1))
  guard (marks.all fun c => c == '-' || c == '+' || c.isDigit)
  let first := lines.find? fun line => skipSpace line ≠ []
  let depth :=
    match marks.find? Char.isDigit with
    | some d => least + (d.toNat - 0x30) - 1
    | none => max least ((first.map indent).getD 0)
  let held := (blockLines depth lines).map fun line => line.drop depth
  let text := dropBlankEnd held
  let body := if folded then foldLines text else ['\n'].intercalate text
  let tail :=
    if marks.contains '-' ∨ text = [] then []
    else if marks.contains '+' then List.replicate (held.length - text.length + 1) '\n'
    else ['\n']
  return (.text (String.ofList (body ++ tail)), lines.drop (blockLines depth lines).length)

def inline? (least : Nat) (text : List Char) (lines : List Line) :
    Option (ConfigValue × List Line) :=
  match text with
  | '|' :: _ | '>' :: _ => block? least text lines
  | '[' :: _ | '\x7b' :: _ => do
    let all := joinLines text lines
    let (value, rest) ← flow? (2 * all.length + 2) all
    return (value, ← endValue? rest)
  | '"' :: _ | '\'' :: _ => do
    let (value, rest) ← quoted? (joinLines text lines)
    return (.text (String.ofList value), ← endValue? rest)
  | _ => do
    guard (startsPlain text)
    let first := trimRight (beforeComment false text)
    let commented := first.length < (trimRight text).length
    let (more, rest) := if commented then ([], lines) else plainRest least 0 lines
    let whole := first ++ more
    guard (splitColon? whole = none)
    return (← plainValue? whole, rest)

mutual

def node? : Nat → Nat → List Line → Option (ConfigValue × List Line)
  | 0, _, _ => none
  | budget + 1, least, lines =>
    match skipIdle lines with
    | [] => some (.nothing, [])
    | line :: rest =>
      let depth := indent line
      let body := line.drop depth
      if depth < least then some (.nothing, line :: rest)
      else if body.head? = some '\t' then none
      else if isDash body then
        (sequence? budget depth (line :: rest)).map fun (items, rest) => (.list items, rest)
      else if (key? body).isSome then
        (mapping? budget depth [] (line :: rest)).map fun (fields, rest) => (.table fields, rest)
      else inline? least body rest

def sequence? : Nat → Nat → List Line → Option (List ConfigValue × List Line)
  | 0, _, _ => none
  | budget + 1, depth, lines =>
    match skipIdle lines with
    | [] => some ([], [])
    | line :: rest =>
      let body := line.drop depth
      if indent line < depth then some ([], line :: rest)
      else if indent line = depth ∧ isDash body then do
        let inner := List.replicate (depth + 1) ' ' ++ body.drop 1
        let (item, rest) ← node? budget (depth + 1) (inner :: rest)
        let (items, rest) ← sequence? budget depth rest
        return (item :: items, rest)
      else if indent line = depth then some ([], line :: rest)
      else none

def mapping? : Nat → Nat → List (String × ConfigValue) → List Line →
    Option (List (String × ConfigValue) × List Line)
  | 0, _, _, _ => none
  | budget + 1, depth, fields, lines =>
    match skipIdle lines with
    | [] => some (fields, [])
    | line :: rest =>
      if indent line < depth then some (fields, line :: rest)
      else if indent line = depth then do
        let (key, after) ← key? (line.drop depth)
        let (value, rest) ←
          if isIdle after then
            match skipIdle rest with
            | next :: more =>
              if indent next = depth ∧ isDash (next.drop depth) then
                (sequence? budget depth (next :: more)).map fun (items, rest) => (.list items, rest)
              else node? budget (depth + 1) (next :: more)
            | [] => pure (.nothing, [])
          else if isDash (skipSpace after) then none
          else inline? (depth + 1) (skipSpace after) rest
        mapping? budget depth (insertField key value fields) rest
      else none

end

def marker? (mark : List Char) (line : Line) : Option (List Char) :=
  if mark.isPrefixOf line then
    match line.drop 3 with
    | [] => some []
    | c :: rest => if isSpace c then some rest else none
  else none

def documentStart : List Char := ['-', '-', '-']

def documentEnd : List Char := ['.', '.', '.']

def isMarker (line : Line) : Bool :=
  (marker? documentStart line).isSome || (marker? documentEnd line).isSome

def document? (lines : List Line) : Option (List Line) :=
  let lines := (skipIdle lines).dropWhile fun line => line.head? = some '%' || isIdle line
  let body :=
    match lines with
    | line :: rest =>
      match marker? documentStart line with
      | some after => (List.replicate 4 ' ' ++ after) :: rest
      | none => lines
    | [] => []
  let after := body.dropWhile fun line => !isMarker line
  let isRest (line : Line) : Bool := !isIdle line && (marker? documentEnd line).isNone
  if after.any isRest then none else some (body.takeWhile fun line => !isMarker line)

/-- The fields of a document. An empty file has none, and any value but a mapping is refused. -/
def parse? (text : List Char) : Option (List (String × ConfigValue)) := do
  let text := match text with
    | '\ufeff' :: rest => rest
    | _ => text
  let lines ← document? (Source.lines text)
  if (Source.lines text).all isIdle then return []
  match ← node? (2 * text.length + 4) 0 lines with
  | (.table fields, rest) => if rest.all isIdle then return fields else none
  | _ => none

end AsmIndex.Yaml
