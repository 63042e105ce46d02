import AsmIndex.Buffer.Word
import AsmIndex.Instruction
import AsmIndex.Symbol.Table
import AsmIndex.Text.Mark

namespace AsmIndex

inductive TokenKind
  | definedMacro
  | label
  | instruction
  | register
  | number
  | comment
deriving DecidableEq

namespace TokenKind

def all : List TokenKind :=
  [.definedMacro, .label, .instruction, .register, .number, .comment]

def code : TokenKind → Nat
  | .definedMacro => 0
  | .label => 1
  | .instruction => 2
  | .register => 3
  | .number => 4
  | .comment => 5

def typeName : TokenKind → String
  | .definedMacro => "macro"
  | .label => "function"
  | .instruction => "keyword"
  | .register => "variable"
  | .number => "number"
  | .comment => "comment"

end TokenKind

structure Token where
  line : UInt32
  start : UInt32
  length : UInt32
  kind : TokenKind
deriving DecidableEq

/-- Where a token stands in the text. -/
structure TokenSpan where
  line : Nat
  start : Nat
  length : Nat
  kind : TokenKind
deriving DecidableEq

def TokenSpan.token (span : TokenSpan) : Token :=
  -- The numbers are cut to 32 bits.
  ⟨span.line.toUInt32, span.start.toUInt32, span.length.toUInt32, span.kind⟩

namespace Highlight

open AsmIndex.Text AsmIndex.Buffer

def isTokenStart (c : Char) : Bool :=
  Source.isNameStart c || c == '.'

def isHexDigit (c : Char) : Bool :=
  c.isDigit || ('a' ≤ c && c ≤ 'f') || ('A' ≤ c && c ≤ 'F')

def nameLength : List Char → Nat
  | c :: rest => if isTokenStart c then nameRun rest + 1 else 0
  | [] => 0

def markedNameLength : List Char → Nat :=
  marked '%' nameLength

def digitsLength (s : List Char) : Nat :=
  match s with
  | '0' :: x :: rest =>
    let hex := (rest.takeWhile isHexDigit).length
    if (x = 'x' ∨ x = 'X') ∧ hex ≠ 0 then hex + 2 else (s.takeWhile Char.isDigit).length
  | _ => (s.takeWhile Char.isDigit).length

def numberLength : List Char → Nat :=
  marked '$' digitsLength

def tokenLength (s : List Char) : Nat :=
  if markedNameLength s = 0 then numberLength s else markedNameLength s

def nameKind? (table : SymbolTable) (name : String) : Option TokenKind :=
  if table.macros.contains name then some .definedMacro
  else if table.labels.contains name then some .label
  else if (Opcode.find? name).isSome then some .instruction
  else none

def kind? (table : SymbolTable) (text : List Char) : Option TokenKind :=
  if markedNameLength text = 0 then some .number
  else if text.head? = some '%' then
    if (Register.find? (String.ofList text)).isSome then some .register else none
  else nameKind? table (String.ofList text)

def content (line : List Char) : List Char :=
  (line.reverse.dropWhile fun c => c = '\n' ∨ c = '\r').reverse

def lineSpans (table : SymbolTable) (number : Nat) (line : List Char) : List TokenSpan :=
  let code := before ['/', '/'] (content line)
  let names := (spans tokenLength code).filterMap fun span =>
    (kind? table span.text).map fun kind => ⟨number, span.start, width span.text, kind⟩
  let comment := (fromMark? ['/', '/'] (content line)).map fun comment =>
    ⟨number, width code, width comment, .comment⟩
  names ++ comment.toList

end Highlight

def tokenSpans (table : SymbolTable) (text : String) : List TokenSpan :=
  (Buffer.lines text.toList).zipIdx.flatMap fun (line, number) =>
    Highlight.lineSpans table number line

def tokens (table : SymbolTable) (text : String) : List Token :=
  (tokenSpans table text).map TokenSpan.token

/-- A token as it is sent: its line counts from the line of the token before it, and on one
line so does its start. -/
structure TokenDelta where
  line : UInt32
  start : UInt32
  length : UInt32
  kind : TokenKind
deriving DecidableEq

namespace TokenDelta

def numbers (delta : TokenDelta) : List Nat :=
  [delta.line.toNat, delta.start.toNat, delta.length.toNat, delta.kind.code, 0]

def between (line start : UInt32) (token : Token) : TokenDelta :=
  -- Both differences wrap.
  let down := token.line - line
  let across := if down = 0 then token.start - start else token.start
  ⟨down, across, token.length, token.kind⟩

def encodeFrom (line start : UInt32) : List Token → List TokenDelta
  | [] => []
  | token :: rest =>
    between line start token :: encodeFrom token.line token.start rest

def encode (tokens : List Token) : List TokenDelta :=
  encodeFrom 0 0 tokens

end TokenDelta

end AsmIndex
