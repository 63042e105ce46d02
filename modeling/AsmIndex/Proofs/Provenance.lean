import AsmIndex.Proofs.Recursion
import AsmIndex.Proofs.ScannedLines

namespace AsmIndex

namespace View

theorem arrival?_cons_ne {view : View} {uri place : Uri} {position : Nat} {route : List Nat}
    (simple : view.Simple uri (position :: route))
    (ends : view.arrival? uri (position :: route) = some place) : place ≠ uri := by
  obtain ⟨trail, followed, distinct⟩ := simple
  obtain ⟨entry, next, rest, found, taken, onward, rfl⟩ :=
    (view.trail?_cons_iff uri position route trail).mp followed
  rw [arrival?_cons found taken] at ends
  obtain ⟨again, sameTrail, member⟩ := arrival?_eq_some ends
  obtain rfl := Option.some.inj (onward.symm.trans sameTrail)
  have fresh : uri ∉ rest := (List.nodup_cons.mp distinct).1
  rintro rfl
  exact fresh member

theorem PreorderListing.exists_cons {view : View} {uri : Uri} {entry : Entry} {routes : List (List Nat)}
    (listed : view.PreorderListing uri routes) (found : view uri = some entry) :
    ∃ later, routes = [] :: later := by
  have stays : view.Simple uri [] := by
    have followed : view.trail? uri [] = some [uri] := (view.trail?_nil_iff uri _).mpr ⟨⟨entry, found⟩, rfl⟩
    exact ⟨[uri], followed, by simp⟩
  have member := (listed.complete []).mpr stays
  cases routes with
  | nil => cases member
  | cons first later =>
    rcases List.mem_cons.mp member with rfl | behind
    · exact ⟨later, rfl⟩
    · have less := (List.pairwise_cons.mp listed.ordered).1 [] behind
      exact absurd less (List.not_lt_nil first)

theorem Shows.definition_cases {view : View} {uri : Uri} {table : SymbolTable} {entry : Entry}
    {name : String} {definition : MacroDefinition} (shows : view.Shows uri table)
    (found : view uri = some entry) (shown : table.macros[name]? = some definition) :
    (∃ place, place ≠ uri ∧ view.Reaches uri place ∧ view.definition? place name = some definition) ∨
    entry.table.macros[name]? = some definition ∧
      ∀ place, place ≠ uri → view.Reaches uri place → view.definition? place name = none := by
  unfold Shows at shows
  simp only [found] at shows
  obtain ⟨_, routes, listed, macros⟩ := shows
  obtain ⟨later, rfl⟩ := listed.exists_cons found
  have own : (view.arrival? uri []).bind (view.definition? · name) = entry.table.macros[name]? := by
    simp [arrival?_nil found, definition?, found]
  rw [macros, lastDefinition?, List.reverse_cons, List.findSome?_append, List.findSome?_singleton, own,
    Option.or_eq_some_iff] at shown
  have nonempty {route : List Nat} (member : route ∈ later) : route ≠ [] := by
    rintro rfl
    exact List.lt_irrefl _ ((List.pairwise_cons.mp listed.ordered).1 [] member)
  rcases shown with overlaid | ⟨nothing, kept⟩
  · obtain ⟨route, member, picked⟩ := List.exists_of_findSome?_eq_some overlaid
    obtain ⟨place, ends, defines⟩ := Option.bind_eq_some_iff.mp picked
    have member : route ∈ later := List.mem_reverse.mp member
    have simple := (listed.complete route).mp (List.mem_cons_of_mem _ member)
    obtain ⟨position, onward, rfl⟩ := List.exists_cons_of_ne_nil (nonempty member)
    exact .inl ⟨place, arrival?_cons_ne simple ends, reaches_of_arrival? ends, defines⟩
  · refine .inr ⟨kept, fun place other reaches => ?_⟩
    by_contra defines
    obtain ⟨held, holds, _⟩ := (definition?_ne_none_iff view place name).mp defines
    obtain ⟨route, simple, ends⟩ := reaches.arrives (by simp [holds])
    have member := (listed.complete route).mpr ((view.simpleWithin_true_iff uri route).mp simple)
    rcases List.mem_cons.mp member with rfl | member
    · rw [arrival?_nil found] at ends
      exact other (Option.some.inj ends).symm
    · have silent := List.findSome?_eq_none_iff.mp nothing route (List.mem_reverse.mpr member)
      rw [ends] at silent
      exact defines silent

theorem Shows.exists_definition {view : View} {uri : Uri} {table : SymbolTable} {name : String}
    {definition : MacroDefinition} (shows : view.Shows uri table)
    (shown : table.macros[name]? = some definition) :
    ∃ place, view.Reaches uri place ∧ view.definition? place name = some definition := by
  cases found : view uri with
  | none =>
    unfold Shows at shows
    simp only [found] at shows
    rw [shows] at shown
    simp [SymbolTable.empty] at shown
  | some entry =>
    rcases shows.definition_cases found shown with ⟨place, _, reaches, defines⟩ | ⟨own, _⟩
    · exact ⟨place, reaches, defines⟩
    · exact ⟨uri, .refl, by rw [definition?, found]; exact own⟩

end View

/-- Every symbol of the entry is located in the document. -/
structure Entry.LocatedIn (entry : Entry) (uri : Uri) : Prop where
  macros : ∀ (name : String) (definition : MacroDefinition),
    entry.table.macros[name]? = some definition → definition.location.uri = uri
  labels : ∀ (name : String) (location : Location),
    entry.table.labels[name]? = some location → location.uri = uri

namespace Cache

theorem locatedIn_scanEntry (cache : Cache) (machine : Machine) (uri : Uri) (text : String) :
    (cache.scanEntry machine uri text).LocatedIn uri := by
  constructor
  · intro name definition found
    exact (Scan.macros_broughtIn found).uri
  · intro name location found
    obtain ⟨directive, _, stands⟩ := Scan.labels_broughtIn found
    exact stands.uri

theorem Built.locatedIn {cache : Cache} (built : Built cache) {uri : Uri} {entry : Entry}
    (stored : cache.entry? uri = some entry) : entry.LocatedIn uri := by
  obtain ⟨past, machine, text, rfl⟩ := built.exists_scanEntry stored
  exact past.locatedIn_scanEntry machine uri text

theorem Built.locatedIn_of_view {cache : Cache} (built : Built cache) {machine : Machine} {uri : Uri}
    {entry : Entry} (found : cache.view machine uri = some entry) : entry.LocatedIn uri := by
  obtain ⟨past, known, text, rfl⟩ := built.exists_scanEntry_of_view found
  exact past.locatedIn_scanEntry known uri text

theorem labels_get (cache : Cache) (machine : Machine) (uri : Uri) (name : String) :
    (cache.get machine uri).1.labels[name]? = (cache.view machine uri).bind (·.table.labels[name]?) := by
  have shows := cache.shows_get machine uri
  unfold View.Shows at shows
  cases found : cache.view machine uri with
  | none =>
    simp only [found] at shows
    rw [shows]
    rfl
  | some entry =>
    simp only [found] at shows
    rw [shows.1]
    rfl

/-- The symbols of every entry are located in its document. A macro that a lookup shows leads to an entry
that is stored after the lookup, that stored dependencies lead to and that has the same definition of the name;
a label is located in the document itself. -/
theorem Built.merged_symbols_located {cache : Cache} (built : Built cache) :
    (∀ uri entry, cache.entry? uri = some entry → entry.LocatedIn uri) ∧
    ∀ machine uri,
      (∀ (name : String) (definition : MacroDefinition),
        (cache.get machine uri).1.macros[name]? = some definition →
        ∃ entry, Cache.entry? (cache.get machine uri).2 definition.location.uri = some entry ∧
          View.Reaches (Cache.entry? (cache.get machine uri).2) uri definition.location.uri ∧
          entry.table.macros[name]? = some definition) ∧
      ∀ (name : String) (location : Location),
        (cache.get machine uri).1.labels[name]? = some location → location.uri = uri := by
  refine ⟨fun uri entry stored => built.locatedIn stored, fun machine uri => ⟨?_, ?_⟩⟩
  · intro name definition shown
    have shows : View.Shows (Cache.entry? (cache.get machine uri).2) uri (cache.get machine uri).1 :=
      (View.AgreesFrom.symm fun _ => entry?_get).shows (cache.shows_get machine uri)
    obtain ⟨place, reaches, defines⟩ := shows.exists_definition shown
    obtain ⟨entry, stored, own⟩ := Option.bind_eq_some_iff.mp defines
    have located := (built.get machine uri).locatedIn stored
    have same : definition.location.uri = place := located.macros name definition own
    rw [same]
    exact ⟨entry, stored, reaches, own⟩
  · intro name location shown
    rw [labels_get] at shown
    obtain ⟨entry, found, own⟩ := Option.bind_eq_some_iff.mp shown
    exact (built.locatedIn_of_view found).labels name location own

theorem nested_macro_located :
    let machine : Machine :=
      ⟨(Disk.empty.write (.ofString "/a.h") (Utf8.encodeString "#include \"b.h\"\n")).write
        (.ofString "/b.h") (Utf8.encodeString "\n#define B 2\n"), .ofString "/", .ofString "/"⟩
    let header := Uri.ofPath (.ofString "/b.h")
    let main := Uri.ofPath (.ofString "/m.S")
    let cache := Cache.empty.update machine main "#include \"a.h\"\n"
    Built cache ∧ cache.entry? header = none ∧
      (cache.get machine main).1.macros["B"]? = some ⟨"2", header, 1⟩ ∧
      ∃ entry, Cache.entry? (cache.get machine main).2 header = some entry ∧
        View.Reaches (Cache.entry? (cache.get machine main).2) main header ∧
        entry.table.macros["B"]? = some ⟨"2", header, 1⟩ := by
  intro machine header main cache
  have built : Built cache := .update .empty machine main _
  have ends : (visit machine 4 [] cache main).isSome := by decide +kernel
  have shown : (cache.get machine main).1.macros["B"]? = some ⟨"2", header, 1⟩ := by
    rw [get_eq_visit ends]
    decide +kernel
  exact ⟨built, by decide +kernel, shown, (built.merged_symbols_located.2 machine main).1 _ _ shown⟩

end Cache

end AsmIndex
