import AsmIndex.Buffer.Word
import AsmIndex.Symbol.Table

namespace AsmIndex

def SymbolTable.location? (table : SymbolTable) (name : String) : Option Location :=
  (table.macros[name]?.map MacroDefinition.location).or table.labels[name]?

def definition? (table : SymbolTable) (text : String) (position : Position) : Option Location := do
  let word ← Buffer.wordAt? text position
  table.location? (String.ofList word.text)

end AsmIndex
