import AsmIndex.Symbol.Listing

namespace AsmIndex

def Symbol.standsBefore (a b : Symbol) : Bool :=
  a.location.line < b.location.line ||
    (a.location.line == b.location.line && a.name ≤ b.name)

def outline? (table : SymbolTable) (uri : Uri) : Option (List Symbol) :=
  let symbols :=
    (table.symbols.filter fun symbol => symbol.location.uri = uri).mergeSort Symbol.standsBefore
  if symbols = [] then none else some symbols

end AsmIndex
