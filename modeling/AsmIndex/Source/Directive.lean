import AsmIndex.Text.Blank
import AsmIndex.Text.Mark
import AsmIndex.Text.Word

namespace AsmIndex.Source

open AsmIndex.Text

def isNameStart (c : Char) : Bool :=
  c.isAlpha || c == '_'

def isNameChar (c : Char) : Bool :=
  c.isAlphanum || c == '_' || c == '.'

def afterBlanks? : List Char → Option (List Char)
  | [] => none
  | c :: rest => if isBlank c then some (trimStart rest) else none

def name? (first rest : Char → Bool) : List Char → Option (List Char × List Char)
  | [] => none
  | c :: tail =>
    if first c then some (c :: tail.takeWhile rest, tail.dropWhile rest) else none

def definitionValue (s : List Char) : List Char :=
  trim (before ['/', '*'] (before ['/', '/'] s))

def definition? (line : List Char) : Option (List Char × List Char) := do
  let rest ← after? ['#'] (trimStart line)
  let rest ← after? ['d', 'e', 'f', 'i', 'n', 'e'] (trimStart rest)
  let rest ← afterBlanks? rest
  let (name, rest) ← name? isNameStart isWordChar rest
  return (name, definitionValue rest)

def externalName? (line : List Char) : Option (List Char) := do
  let rest ← after? ['.', 'e', 'x', 't', 'e', 'r', 'n'] (trimStart line)
  let rest ← afterBlanks? rest
  let (name, _) ← name? isNameStart isNameChar rest
  return name

def labelName? (line : List Char) : Option (List Char) := do
  let (name, rest) ← name? isNameStart isNameChar (trimStart line)
  let _ ← after? [':'] (trimStart rest)
  return name

def sectionName? (line : List Char) : Option (List Char) := do
  let rest ← after? ['.', 's', 'e', 'c', 't', 'i', 'o', 'n'] (trimStart line)
  let rest ← afterBlanks? rest
  let (name, _) ← name? isNameChar isNameChar rest
  return name

def isClosing (c : Char) : Bool :=
  c == '"' || c == '>'

def extension? : List Char → Option (List Char)
  | '.' :: a :: close :: rest =>
    if a.toLower = 'h' ∧ isClosing close then some ['.', a]
    else
      match rest with
      | c :: last :: _ =>
        if a.toLower = 'i' ∧ close.toLower = 'n' ∧ c.toLower = 'c' ∧ isClosing last then
          some ['.', a, close, c]
        else none
      | _ => none
  | _ => none

/-- The shortest text that ends in a header extension before a closing delimiter. -/
def headerName? : List Char → Option (List Char)
  | [] => none
  | c :: rest =>
    match extension? (c :: rest) with
    | some extension => some extension
    | none => (headerName? rest).map (c :: ·)

/-- The file that an include line names. Either delimiter opens and either one closes. -/
def includeName? (line : List Char) : Option (List Char) := do
  let rest ← after? ['#'] (trimStart line)
  let rest := trimStart rest
  guard ((rest.take 7).map Char.toLower = ['i', 'n', 'c', 'l', 'u', 'd', 'e'])
  let rest ← afterBlanks? (rest.drop 7)
  match rest with
  | '"' :: rest => headerName? rest
  | '<' :: rest => headerName? rest
  | _ => none

end AsmIndex.Source
