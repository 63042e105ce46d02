import AsmIndex.Source.Directive
import AsmIndex.Source.Line
import AsmIndex.Symbol.Table

namespace AsmIndex.Scan

open AsmIndex.Source

def collect {α : Type} (read? : List Char → Nat → Option (List Char × α)) (names : NameMap α)
    (lines : List (List Char)) : NameMap α :=
  lines.zipIdx.foldl
    (fun names (line, number) =>
      match read? line number with
      | some (name, value) => names.insert (String.ofList name) value
      | none => names)
    names

def macros (text : String) (uri : Uri) : NameMap MacroDefinition :=
  collect
    (fun line number =>
      (Source.definition? line).map fun (name, value) => (name, ⟨String.ofList value, .new uri number⟩))
    ∅ (lines text.toList)

/-- Labels come from three passes over all lines. What a later pass finds replaces what an earlier one
found, wherever the lines stand. -/
def labels (text : String) (uri : Uri) : NameMap Location :=
  [externalName?, labelName?, sectionName?].foldl
    (fun names read? =>
      collect (fun line number => (read? line).map fun name => (name, .new uri number)) names
        (lines text.toList))
    ∅

def includes (text : String) : List String :=
  ((lines text.toList).filterMap includeName?).map String.ofList

end AsmIndex.Scan

namespace AsmIndex

def scan (text : String) (uri : Uri) : SymbolTable :=
  ⟨Scan.macros text uri, Scan.labels text uri⟩

end AsmIndex
