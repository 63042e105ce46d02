import AsmIndex.Uri.Basic

namespace AsmIndex

structure Location where
  uri : Uri
  line : UInt32
deriving DecidableEq

/-- The number of the line is cut to 32 bits. -/
def Location.new (uri : Uri) (number : Nat) : Location :=
  ⟨uri, number.toUInt32⟩

structure MacroDefinition where
  value : String
  location : Location
deriving DecidableEq

abbrev NameMap (α : Type) := Std.ExtTreeMap String α compare

structure SymbolTable where
  macros : NameMap MacroDefinition
  labels : NameMap Location
deriving DecidableEq

namespace SymbolTable

def empty : SymbolTable :=
  ⟨∅, ∅⟩

def isEmpty (table : SymbolTable) : Bool :=
  table.macros.isEmpty && table.labels.isEmpty

end SymbolTable

end AsmIndex
