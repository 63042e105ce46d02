import AsmIndex.Buffer.Word
import AsmIndex.Instruction
import AsmIndex.Settings.Basic
import AsmIndex.Symbol.Table

namespace AsmIndex

structure Hover where
  value : String
  line : UInt32
  start : UInt32
  stop : UInt32
deriving DecidableEq

namespace Hover

def code (s : String) : String :=
  "`" ++ s ++ "`"

def describeFile (root? : Option Path) (uri : Uri) : String :=
  match uri.toPath? with
  | some path =>
    let relative? := (root?.bind path.relativeTo?).filter fun relative => !relative.startsUp
    (relative?.getD path).display
  | none => uri.text

/-- File and line, counted from one. After the last number comes zero. -/
def describe (root? : Option Path) (location : Location) : String :=
  code (describeFile root? location.uri ++ ":" ++ toString (location.line + 1))

def registerText? (word : String) : Option String :=
  if word.toList.head? = some '%' then
    (Register.find? word).map fun register =>
      "**register** " ++ code register ++ "\n\n" ++ Register.summary register
  else none

def opcodeText? (word : String) : Option String :=
  (Opcode.find? word).map fun opcode =>
    "**instruction** " ++ code opcode.name ++ "\n\n" ++ opcode.summary

def macroText (root? : Option Path) (word : String) (definition : MacroDefinition) : String :=
  "**#define** " ++ code word ++ "\n---\n**Value:** " ++ code definition.value ++
    "\n\nDefined in " ++ describe root? definition.location

def labelText (root? : Option Path) (word : String) (location : Location) : String :=
  "**label** " ++ code word ++ "\n\nDefined in " ++ describe root? location

def text? (table : SymbolTable) (root? : Option Path) (word : String) : Option String :=
  match table.macros[word]?, table.labels[word]? with
  | some definition, _ => some (macroText root? word definition)
  | none, some location => some (labelText root? word location)
  | none, none => (registerText? word).or (opcodeText? word)

end Hover

def hover? (table : SymbolTable) (text : String) (position : Position) (settings : Settings)
    (root? : Option Path) : Option Hover := do
  guard settings.hover
  let word ← Buffer.wordAt? text position
  let value ← Hover.text? table root? (String.ofList word.text)
  return ⟨value, position.line, word.start, word.stop⟩

end AsmIndex
