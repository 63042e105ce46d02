import AsmIndex.Buffer.Word
import AsmIndex.Instruction
import AsmIndex.Settings.Basic
import AsmIndex.Symbol.Table
import AsmIndex.Text.Blank

namespace AsmIndex

inductive CompletionKind
  | definedMacro
  | label
  | instruction
  | register
deriving DecidableEq

def CompletionKind.code : CompletionKind → Nat
  | .definedMacro => 21
  | .label => 3
  | .instruction => 14
  | .register => 6

structure CompletionItem where
  label : String
  kind : CompletionKind
  detail : String
deriving DecidableEq

namespace Completion

def macroDetail (name value : String) : String :=
  String.ofList (Text.trimEnd ("#define " ++ name ++ " " ++ value).toList)

def macroItems (table : SymbolTable) : List CompletionItem :=
  table.macros.toList.map fun (name, definition) =>
    ⟨name, .definedMacro, macroDetail name definition.value⟩

def labelItems (table : SymbolTable) : List CompletionItem :=
  (table.labels.toList.mergeSort fun a b => a.2.line ≤ b.2.line).map fun (name, location) =>
    ⟨name, .label, "label, line " ++ toString (location.line + 1)⟩

def opcodeItems : List CompletionItem :=
  Opcode.all.map fun opcode => ⟨opcode.name, .instruction, opcode.summary⟩

def registerItems : List CompletionItem :=
  Register.all.map fun register => ⟨register, .register, Register.summary register⟩

end Completion

open Completion in
def completions (table : SymbolTable) (text : String) (position : Position) (settings : Settings) :
    List CompletionItem :=
  if (Buffer.typedAt text position).head? = some '%' then registerItems
  else
    macroItems table ++ labelItems table ++
      if settings.instructionCompletions then opcodeItems ++ registerItems else []

end AsmIndex
