import AsmIndex.Symbol.Table

namespace AsmIndex

inductive SymbolKind
  | definedMacro
  | label
deriving DecidableEq

def SymbolKind.code : SymbolKind → Nat
  | .definedMacro => 14
  | .label => 12

structure Symbol where
  name : String
  kind : SymbolKind
  detail? : Option String
  location : Location
deriving DecidableEq

def SymbolTable.symbols (table : SymbolTable) : List Symbol :=
  table.macros.toList.map (fun (name, definition) =>
    { name := name
      kind := .definedMacro
      detail? := if definition.value = "" then none else some definition.value
      location := definition.location }) ++
  table.labels.toList.map (fun (name, location) =>
    { name := name, kind := .label, detail? := none, location := location })

end AsmIndex
