import AsmIndex.Editor.Outline
import AsmIndex.Proofs.Provenance

namespace AsmIndex

theorem SymbolTable.nodup_symbols (table : SymbolTable) : table.symbols.Nodup := by
  refine List.pairwise_append.mpr ⟨List.pairwise_map.mpr ?_, List.pairwise_map.mpr ?_, ?_⟩
  · refine Std.ExtTreeMap.distinct_keys_toList.imp ?_
    rintro ⟨name, definition⟩ ⟨other, definition'⟩ distinct same
    exact distinct (Std.LawfulEqCmp.compare_eq_iff_eq.mpr (congrArg Symbol.name same))
  · refine Std.ExtTreeMap.distinct_keys_toList.imp ?_
    rintro ⟨name, location⟩ ⟨other, location'⟩ distinct same
    exact distinct (Std.LawfulEqCmp.compare_eq_iff_eq.mpr (congrArg Symbol.name same))
  · intro symbol isMacro other isLabel same
    obtain ⟨_, _, rfl⟩ := List.mem_map.mp isMacro
    obtain ⟨_, _, rfl⟩ := List.mem_map.mp isLabel
    have kind := congrArg Symbol.kind same
    cases kind

namespace Symbol

theorem standsBefore_iff (symbol other : Symbol) :
    symbol.standsBefore other = true ↔
      symbol.location.line < other.location.line ∨
        symbol.location.line = other.location.line ∧ symbol.name ≤ other.name := by
  simp [standsBefore]

theorem standsBefore_trans (first second third : Symbol) (before : first.standsBefore second = true)
    (later : second.standsBefore third = true) : first.standsBefore third = true := by
  rw [standsBefore_iff] at *
  rcases before with less | ⟨line, name⟩ <;> rcases later with less' | ⟨line', name'⟩
  · exact .inl (UInt32.lt_trans less less')
  · exact .inl (line' ▸ less)
  · exact .inl (line ▸ less')
  · exact .inr ⟨line.trans line', String.le_trans name name'⟩

theorem standsBefore_total (symbol other : Symbol) :
    (symbol.standsBefore other || other.standsBefore symbol) = true := by
  rw [Bool.or_eq_true, standsBefore_iff, standsBefore_iff]
  by_cases same : symbol.location.line = other.location.line
  · rcases String.le_total symbol.name other.name with name | name
    · exact .inl (.inr ⟨same, name⟩)
    · exact .inr (.inr ⟨same.symm, name⟩)
  · rcases UInt32.lt_or_lt_of_ne same with less | greater
    · exact .inl (.inl less)
    · exact .inr (.inl greater)

end Symbol

theorem outline?_cases (table : SymbolTable) (uri : Uri)
    (apart : ∀ symbol ∈ table.symbols, ∀ other ∈ table.symbols,
      symbol.location.uri = uri → other.location.uri = uri →
        symbol.location.line = other.location.line → symbol = other) :
    match outline? table uri with
    | none => ∀ symbol ∈ table.symbols, symbol.location.uri ≠ uri
    | some items =>
      items ≠ [] ∧ items.Pairwise (fun symbol next => symbol.location.line < next.location.line) ∧
        ∀ symbol, symbol ∈ items ↔ symbol ∈ table.symbols ∧ symbol.location.uri = uri := by
  let own := table.symbols.filter fun symbol => symbol.location.uri = uri
  let items := own.mergeSort Symbol.standsBefore
  have listed (symbol : Symbol) : symbol ∈ items ↔ symbol ∈ table.symbols ∧ symbol.location.uri = uri := by
    rw [List.mem_mergeSort, List.mem_filter, decide_eq_true_iff]
  have distinct : items.Nodup :=
    (List.mergeSort_perm own _).nodup_iff.mpr (table.nodup_symbols.filter _)
  have sorted : items.Pairwise fun symbol next => symbol.standsBefore next = true :=
    List.pairwise_mergeSort Symbol.standsBefore_trans Symbol.standsBefore_total own
  have ordered : items.Pairwise fun symbol next => symbol.location.line < next.location.line := by
    refine (sorted.and distinct).imp_of_mem ?_
    rintro symbol next member later ⟨before, other⟩
    obtain ⟨symbolMember, symbolHere⟩ := (listed symbol).mp member
    obtain ⟨nextMember, nextHere⟩ := (listed next).mp later
    rcases (symbol.standsBefore_iff next).mp before with less | ⟨same, _⟩
    · exact less
    · exact absurd (apart symbol symbolMember next nextMember symbolHere nextHere same) other
  have outlined : outline? table uri = if items = [] then none else some items := rfl
  rw [outlined]
  by_cases nothing : items = []
  · rw [if_pos nothing]
    intro symbol member here
    have inside := (listed symbol).mpr ⟨member, here⟩
    rw [nothing] at inside
    cases inside
  · rw [if_neg nothing]
    exact ⟨nothing, ordered, listed⟩

namespace View

/-- Another document that can be reached defines the macro as well. -/
def Shadows (view : View) (uri : Uri) (name : String) : Prop :=
  ∃ place entry, place ≠ uri ∧ view.Reaches uri place ∧ view place = some entry ∧
    name ∈ entry.table.macros

/-- What belongs into the outline of a document: its labels, and its macros that nothing shadows. -/
def Outlines (view : View) (uri : Uri) (entry : Entry) (symbol : Symbol) : Prop :=
  (∃ location, entry.table.labels[symbol.name]? = some location ∧
    symbol = ⟨symbol.name, .label, none, location⟩) ∨
  ∃ definition, entry.table.macros[symbol.name]? = some definition ∧
    ¬view.Shadows uri symbol.name ∧
    symbol = ⟨symbol.name, .definedMacro,
      if definition.value = "" then none else some definition.value, definition.location⟩

end View

namespace Cache

theorem Built.own_macro_iff {cache : Cache} (built : Built cache) {machine : Machine} {uri : Uri}
    {entry : Entry} (found : cache.view machine uri = some entry) (name : String)
    (definition : MacroDefinition) :
    (cache.get machine uri).1.macros[name]? = some definition ∧ definition.location.uri = uri ↔
      entry.table.macros[name]? = some definition ∧ ¬(cache.view machine).Shadows uri name := by
  have shows := cache.shows_get machine uri
  have elsewhere {place : Uri} {shown : MacroDefinition}
      (defines : (cache.view machine).definition? place name = some shown) :
      shown.location.uri = place := by
    obtain ⟨held, holds, own⟩ := Option.bind_eq_some_iff.mp defines
    exact (built.locatedIn_of_view holds).macros name shown own
  have shadows {place : Uri} {shown : MacroDefinition} (other : place ≠ uri)
      (reaches : (cache.view machine).Reaches uri place)
      (defines : (cache.view machine).definition? place name = some shown) :
      (cache.view machine).Shadows uri name := by
    obtain ⟨held, holds, own⟩ :=
      (View.definition?_ne_none_iff _ place name).mp (by rw [defines]; exact Option.some_ne_none shown)
    exact ⟨place, held, other, reaches, holds, own⟩
  constructor
  · rintro ⟨shown, here⟩
    rcases shows.definition_cases found shown with ⟨place, other, _, defines⟩ | ⟨own, silent⟩
    · exact absurd ((elsewhere defines).symm.trans here) other
    · refine ⟨own, ?_⟩
      rintro ⟨place, held, other, reaches, holds, member⟩
      have defined := (View.definition?_ne_none_iff _ place name).mpr ⟨held, holds, member⟩
      exact defined (silent place other reaches)
  · rintro ⟨own, unshadowed⟩
    have defined : (cache.view machine).definition? uri name ≠ none := by
      rw [View.definition?, found]
      exact fun nothing => Option.some_ne_none definition (own.symm.trans nothing)
    have member := (shows.mem_macros_iff name).mpr ⟨uri, .here found trivial, defined⟩
    obtain ⟨shown, showing⟩ :=
      Option.isSome_iff_exists.mp (Std.ExtTreeMap.mem_iff_isSome_getElem?.mp member)
    rcases shows.definition_cases found showing with ⟨place, other, reaches, defines⟩ | ⟨kept, _⟩
    · exact absurd (shadows other reaches defines) unshadowed
    · obtain rfl := Option.some.inj (kept.symm.trans own)
      exact ⟨showing, (built.locatedIn_of_view found).macros name shown own⟩

theorem Built.mem_own_symbols_iff {cache : Cache} (built : Built cache) {machine : Machine} {uri : Uri}
    {entry : Entry} (found : cache.view machine uri = some entry) (symbol : Symbol) :
    symbol ∈ (cache.get machine uri).1.symbols ∧ symbol.location.uri = uri ↔
      (cache.view machine).Outlines uri entry symbol := by
  have labels (name : String) : (cache.get machine uri).1.labels[name]? = entry.table.labels[name]? := by
    rw [labels_get, found]
    rfl
  rw [SymbolTable.mem_symbols_iff, labels]
  constructor
  · rintro ⟨⟨definition, shown, same⟩ | ⟨own, same⟩, here⟩
    · rw [same] at here
      obtain ⟨own, unshadowed⟩ := (built.own_macro_iff found symbol.name definition).mp ⟨shown, here⟩
      exact .inr ⟨definition, own, unshadowed, same⟩
    · exact .inl ⟨symbol.location, own, same⟩
  · rintro (⟨location, own, same⟩ | ⟨definition, own, unshadowed, same⟩)
    · have located : symbol.location = location := congrArg Symbol.location same
      subst located
      exact ⟨.inr ⟨own, same⟩, (built.locatedIn_of_view found).labels symbol.name symbol.location own⟩
    · obtain ⟨shown, here⟩ := (built.own_macro_iff found symbol.name definition).mpr ⟨own, unshadowed⟩
      refine ⟨.inl ⟨definition, shown, same⟩, ?_⟩
      rw [same]
      exact here

theorem mem_symbols_of_outlines {view : View} {uri : Uri} {entry : Entry} {symbol : Symbol}
    (outlines : view.Outlines uri entry symbol) : symbol ∈ entry.table.symbols := by
  rw [SymbolTable.mem_symbols_iff]
  rcases outlines with ⟨location, own, same⟩ | ⟨definition, own, _, same⟩
  · have located : symbol.location = location := congrArg Symbol.location same
    subst located
    exact .inr ⟨own, same⟩
  · exact .inl ⟨definition, own, same⟩

/-- The outline of a document with an entry lists its labels and its unshadowed macros, each once, by strictly
increasing lines, provided that the text that the entry was scanned from has no more lines than there are numbers.
There is none exactly if there is nothing to list. -/
theorem Built.outline_exact {cache : Cache} (built : Built cache) {machine : Machine} {uri : Uri}
    {entry : Entry} (found : cache.view machine uri = some entry) :
    (∃ text, entry.table = scan text uri) ∧
    ∀ text, entry.table = scan text uri → (Source.lines text.toList).length < UInt32.size →
      (match outline? (cache.get machine uri).1 uri with
      | none => ∀ symbol, ¬(cache.view machine).Outlines uri entry symbol
      | some items =>
        items ≠ [] ∧ items.Pairwise (fun symbol next => symbol.location.line < next.location.line) ∧
          ∀ symbol, symbol ∈ items ↔ (cache.view machine).Outlines uri entry symbol) ∧
      ∀ symbol, (cache.view machine).Outlines uri entry symbol →
        symbol.location.line.toNat < (Source.lines text.toList).length := by
  have own := built.mem_own_symbols_iff found
  constructor
  · obtain ⟨past, known, text, rfl⟩ := built.exists_scanEntry_of_view found
    exact ⟨text, rfl⟩
  · intro text table few
    have scannedSymbol {symbol : Symbol} (outlines : (cache.view machine).Outlines uri entry symbol) :
        symbol ∈ (scan text uri).symbols := by
      rw [← table]
      exact mem_symbols_of_outlines outlines
    constructor
    · have cases := outline?_cases (cache.get machine uri).1 uri ?_
      · cases outlined : outline? (cache.get machine uri).1 uri with
        | none =>
          simp only [outlined] at cases ⊢
          intro symbol outlines
          obtain ⟨member, here⟩ := (own symbol).mpr outlines
          exact cases symbol member here
        | some items =>
          simp only [outlined] at cases ⊢
          obtain ⟨nonempty, ordered, listed⟩ := cases
          exact ⟨nonempty, ordered, fun symbol => (listed symbol).trans (own symbol)⟩
      · intro symbol member other otherMember here otherHere line
        have outlines := (own symbol).mp ⟨member, here⟩
        have otherOutlines := (own other).mp ⟨otherMember, otherHere⟩
        exact Scan.eq_of_line few (scannedSymbol outlines) (scannedSymbol otherOutlines) line
    · intro symbol outlines
      obtain ⟨directive, _, _, number, row, place, listed, _⟩ := Scan.symbols_broughtIn (scannedSymbol outlines)
      have inside := (List.getElem?_eq_some_iff.mp listed).1
      rw [place]
      exact (UInt32.toNat_ofNat_of_lt (inside.trans few)).trans_lt inside

theorem shadowed_macro_outline_exact :
    let machine : Machine :=
      ⟨(Disk.empty.write (.ofString "/a.h")
        (Utf8.encodeString "#define A 3\n#include \"m.inc\"\n")).write
        (.ofString "/m.inc") [], .ofString "/", .ofString "/"⟩
    let main := Uri.ofPath (.ofString "/m.inc")
    let text := "#include \"a.h\"\n#define A 1\n#define B 2\nx:\n"
    let cache := Cache.empty.update machine main text
    let entry := Cache.empty.scanEntry machine main text
    Built cache ∧ cache.view machine main = some entry ∧ entry.table = scan text main ∧
      (Source.lines text.toList).length < UInt32.size ∧
      outline? (cache.get machine main).1 main =
        some [⟨"B", .definedMacro, some "2", ⟨main, 2⟩⟩, ⟨"x", .label, none, ⟨main, 3⟩⟩] ∧
      (cache.view machine).Outlines main entry ⟨"B", .definedMacro, some "2", ⟨main, 2⟩⟩ ∧
      ¬(cache.view machine).Outlines main entry ⟨"A", .definedMacro, some "1", ⟨main, 1⟩⟩ := by
  intro machine main text cache entry
  have built : Built cache := .update .empty machine main text
  have found : cache.view machine main = some entry :=
    effective?_of_stored ((entry?_store _ _ _ _).trans (if_pos rfl)) machine
  have ends : (visit machine 3 [] cache main).isSome := by decide +kernel
  have value : (cache.get machine main).1.symbols.filter (fun symbol => symbol.location.uri = main) =
      [⟨"B", .definedMacro, some "2", ⟨main, 2⟩⟩, ⟨"x", .label, none, ⟨main, 3⟩⟩] := by
    rw [get_eq_visit ends]
    decide +kernel
  have outlined : outline? (cache.get machine main).1 main =
      some [⟨"B", .definedMacro, some "2", ⟨main, 2⟩⟩, ⟨"x", .label, none, ⟨main, 3⟩⟩] := by
    unfold outline?
    rw [value, List.mergeSort_of_pairwise (by simp [Symbol.standsBefore])]
    rfl
  have few : (Source.lines text.toList).length < UInt32.size := by decide +kernel
  have whole := ((built.outline_exact found).2 text rfl few).1
  simp only [outlined] at whole
  obtain ⟨_, _, listed⟩ := whole
  refine ⟨built, found, rfl, few, outlined, (listed _).mp (by simp), fun outlines => ?_⟩
  simpa using (listed _).mpr outlines

end Cache

end AsmIndex
