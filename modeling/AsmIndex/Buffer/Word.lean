import AsmIndex.Buffer.Line
import AsmIndex.Buffer.Span
import AsmIndex.Source.Directive

namespace AsmIndex

structure Position where
  line : UInt32
  character : UInt32
deriving DecidableEq

namespace Buffer

def nameRun (s : List Char) : Nat :=
  (s.takeWhile Source.isNameChar).length

def wordLength : List Char → Nat :=
  marked '%' nameRun

structure Word where
  text : List Char
  start : UInt32
  stop : UInt32
deriving DecidableEq

/-- The columns are cut to 32 bits. -/
def Span.word (span : Span) : Word :=
  ⟨span.text, span.start.toUInt32, span.stop.toUInt32⟩

def wordSpan? (text : String) (position : Position) : Option Span := do
  let line ← line? text position.line.toNat
  (spans wordLength line).find? fun span =>
    span.start ≤ position.character.toNat ∧ position.character.toNat ≤ span.stop

def wordAt? (text : String) (position : Position) : Option Word :=
  (wordSpan? text position).map Span.word

def typedAt (text : String) (position : Position) : List Char :=
  match wordAt? text position with
  | some word => word.text.take (position.character - word.start).toNat
  | none => []

end Buffer

end AsmIndex
