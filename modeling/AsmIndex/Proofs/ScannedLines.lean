import AsmIndex.Proofs.DecidingLines
import AsmIndex.Symbol.Listing

namespace AsmIndex

namespace Source

open Text

namespace Directive

def kind : Directive → SymbolKind
  | .define => .definedMacro
  | .external | .label | .segment => .label

def Opens : Directive → List Char → Prop
  | .define, code => ∃ rest, code = '#' :: rest
  | .external, code => ∃ rest, code = '.' :: 'e' :: rest
  | .label, code => ∃ c rest, isNameStart c = true ∧ code = c :: rest
  | .segment, code => ∃ rest, code = '.' :: 's' :: rest

theorem opens_of_name? {directive : Directive} {line name : List Char}
    (read : directive.name? line = some name) : directive.Opens (trimStart line) := by
  have trimmed {indent rest : List Char} {c : Char} (blank : Blanks indent) (visible : isBlank c = false) :
      trimStart (indent ++ c :: rest) = c :: rest :=
    (trimStart_eq_iff _ _).mpr ⟨indent, blank, rfl, stops_cons visible rest⟩
  rw [name?_eq_some_iff] at read
  cases directive with
  | define =>
    obtain ⟨_, indent, _, _, blank, _, _, _, rfl, _⟩ := read
    exact ⟨_, trimmed blank (by decide)⟩
  | external =>
    obtain ⟨indent, _, _, blank, _, _, rfl, _⟩ := read
    rw [List.append_assoc, List.append_assoc, List.append_assoc]
    exact ⟨_, trimmed blank (by decide)⟩
  | label =>
    obtain ⟨indent, _, _, blank, _, rfl, longest⟩ := read
    obtain ⟨c, tail, rfl, starts, _⟩ := longest.chars
    rw [List.append_assoc, List.append_assoc]
    exact ⟨c, _, starts, trimmed blank (visible_of_isNameStart starts)⟩
  | segment =>
    obtain ⟨indent, _, _, blank, _, _, rfl, _⟩ := read
    rw [List.append_assoc, List.append_assoc, List.append_assoc]
    exact ⟨_, trimmed blank (by decide)⟩

theorem opens_unique {directive other : Directive} {code : List Char}
    (opens : directive.Opens code) (again : other.Opens code) : directive = other := by
  have hash : isNameStart '#' = false := by decide
  have dot : isNameStart '.' = false := by decide
  cases directive <;> cases other <;> simp only [Opens] at opens again <;> grind

theorem name?_unique {directive other : Directive} {line name again : List Char}
    (read : directive.name? line = some name) (readAgain : other.name? line = some again) :
    directive = other ∧ name = again := by
  obtain rfl := opens_unique (opens_of_name? read) (opens_of_name? readAgain)
  exact ⟨rfl, Option.some.inj (read.symm.trans readAgain)⟩

end Directive

end Source

namespace Scan

open Source

structure BroughtIn (text : String) (uri : Uri) (name : String) (location : Location)
    (directive : Directive) : Prop where
  uri : location.uri = uri
  line : ∃ (number : Nat) (line : List Char), location.line = number.toUInt32 ∧
    (lines text.toList)[number]? = some line ∧ directive.name? line = some name.toList

theorem macros_broughtIn {text : String} {uri : Uri} {name : String} {definition : MacroDefinition}
    (found : (macros text uri)[name]? = some definition) :
    BroughtIn text uri name definition.location .define := by
  rw [macros_eq_collect, getElem?_collect_eq_some_iff (names_define_iff uri name)] at found
  rcases found with ⟨number, line, decides, read⟩ | ⟨_, nothing⟩
  · obtain ⟨_, _, rfl⟩ := (macroAt?_eq_some_iff uri name line number definition).mp read
    exact ⟨rfl, number, line, rfl, decides.listed, (Directive.name?_eq_some_iff _ _ _).mpr decides.holds⟩
  · simp at nothing

theorem labels_broughtIn {text : String} {uri : Uri} {name : String} {location : Location}
    (found : (labels text uri)[name]? = some location) :
    ∃ directive, directive.kind = .label ∧ BroughtIn text uri name location directive := by
  obtain ⟨number, rfl, directive, other, ⟨line, decides⟩, _⟩ :=
    (getElem?_labels_eq_some_iff text uri name location).mp found
  have read := (Directive.name?_eq_some_iff _ _ _).mpr decides.holds
  refine ⟨directive, ?_, rfl, number, line, rfl, decides.listed, read⟩
  cases directive with
  | define => exact absurd rfl other
  | external | label | segment => rfl

end Scan

theorem SymbolTable.mem_symbols_iff (table : SymbolTable) (symbol : Symbol) :
    symbol ∈ table.symbols ↔
      (∃ definition, table.macros[symbol.name]? = some definition ∧
        symbol = ⟨symbol.name, .definedMacro,
          if definition.value = "" then none else some definition.value, definition.location⟩) ∨
      table.labels[symbol.name]? = some symbol.location ∧
        symbol = ⟨symbol.name, .label, none, symbol.location⟩ := by
  simp only [symbols, List.mem_append, List.mem_map, Prod.exists]
  constructor
  · rintro (⟨name, definition, listed, rfl⟩ | ⟨name, location, listed, rfl⟩)
    · exact .inl ⟨definition, Std.ExtTreeMap.mem_toList_iff_getElem?_eq_some.mp listed, rfl⟩
    · exact .inr ⟨Std.ExtTreeMap.mem_toList_iff_getElem?_eq_some.mp listed, rfl⟩
  · rintro (⟨definition, found, same⟩ | ⟨found, same⟩)
    · exact .inl ⟨symbol.name, definition, Std.ExtTreeMap.mem_toList_iff_getElem?_eq_some.mpr found,
        same.symm⟩
    · exact .inr ⟨symbol.name, symbol.location, Std.ExtTreeMap.mem_toList_iff_getElem?_eq_some.mpr found,
        same.symm⟩

namespace Scan

theorem symbols_broughtIn {text : String} {uri : Uri} {symbol : Symbol}
    (member : symbol ∈ (scan text uri).symbols) :
    ∃ directive, directive.kind = symbol.kind ∧
      BroughtIn text uri symbol.name symbol.location directive := by
  rcases ((scan text uri).mem_symbols_iff symbol).mp member with ⟨definition, found, same⟩ | ⟨found, same⟩
  · rw [same]
    exact ⟨.define, rfl, macros_broughtIn found⟩
  · obtain ⟨directive, kind, stands⟩ := labels_broughtIn found
    refine ⟨directive, ?_, stands⟩
    rw [same, kind]

end Scan

theorem SymbolTable.eq_of_name {table : SymbolTable} {symbol other : Symbol}
    (member : symbol ∈ table.symbols) (again : other ∈ table.symbols)
    (kind : symbol.kind = other.kind) (name : symbol.name = other.name) : symbol = other := by
  rw [mem_symbols_iff] at member again
  rw [← name] at again
  rcases member with ⟨definition, found, same⟩ | ⟨found, same⟩ <;>
    rcases again with ⟨definition', found', same'⟩ | ⟨found', same'⟩
  · obtain rfl := Option.some.inj (found.symm.trans found')
    exact same.trans same'.symm
  · rw [same, same'] at kind
    cases kind
  · rw [same, same'] at kind
    cases kind
  · have location := Option.some.inj (found.symm.trans found')
    rw [same, same', location]

theorem toUInt32_inj {number other : Nat} (fits : number < UInt32.size) (otherFits : other < UInt32.size)
    (same : number.toUInt32 = other.toUInt32) : number = other := by
  rw [← UInt32.toNat_ofNat_of_lt fits, ← UInt32.toNat_ofNat_of_lt otherFits]
  exact congrArg UInt32.toNat same

theorem Scan.eq_of_line {text : String} (few : (Source.lines text.toList).length < UInt32.size) {uri : Uri}
    {symbol other : Symbol} (member : symbol ∈ (scan text uri).symbols)
    (again : other ∈ (scan text uri).symbols)
    (line : symbol.location.line = other.location.line) : symbol = other := by
  obtain ⟨directive, kind, _, number, row, place, listed, read⟩ := symbols_broughtIn member
  obtain ⟨directive', kind', _, number', row', place', listed', read'⟩ := symbols_broughtIn again
  have inside := (List.getElem?_eq_some_iff.mp listed).1
  have inside' := (List.getElem?_eq_some_iff.mp listed').1
  obtain rfl := toUInt32_inj (Nat.lt_trans inside few) (Nat.lt_trans inside' few) (place.symm.trans (line.trans place'))
  obtain rfl := Option.some.inj (listed.symm.trans listed')
  obtain ⟨rfl, name⟩ := Source.Directive.name?_unique read read'
  exact SymbolTable.eq_of_name member again (kind.symm.trans kind') (String.toList_inj.mp name)

end AsmIndex
