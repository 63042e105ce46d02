import AsmIndex.Proofs.Load
import Mathlib.Data.List.Perm.Subperm

namespace AsmIndex.Cache

def overlayAll (visitor : Cache → Uri → Option (SymbolTable × Cache)) (dependencies : List Uri)
    (macros : NameMap MacroDefinition) (cache : Cache) : Option (NameMap MacroDefinition × Cache) :=
  dependencies.foldlM
    (fun (macros, cache) dependency => do
      let (included, next) ← visitor cache dependency
      return (macros ∪ included.macros, next))
    (macros, cache)

/-- The visit of a document, with no result if visits are nested deeper than the budget. -/
def visit (machine : Machine) : Nat → List Uri → Cache → Uri → Option (SymbolTable × Cache)
  | 0, _, _, _ => none
  | budget + 1, path, cache, uri =>
    if uri ∈ path then some (.empty, cache)
    else
      match cache.effective? machine uri with
      | none => some (.empty, cache)
      | some entry => do
        let (macros, last) ← overlayAll (visit machine budget (uri :: path)) entry.dependencies
          entry.table.macros (cache.store uri entry)
        return ({ entry.table with macros }, last)

theorem overlayAll_cons (visitor : Cache → Uri → Option (SymbolTable × Cache)) (dependency : Uri)
    (rest : List Uri) (macros : NameMap MacroDefinition) (cache : Cache) :
    overlayAll visitor (dependency :: rest) macros cache =
      (visitor cache dependency).bind fun visited =>
        overlayAll visitor rest (macros ∪ visited.1.macros) visited.2 := by
  unfold overlayAll
  rw [List.foldlM_cons]
  dsimp only
  cases visitor cache dependency with
  | none => rfl
  | some visited => rfl

theorem overlayAll_cons_eq_some {visitor : Cache → Uri → Option (SymbolTable × Cache)}
    {dependency : Uri} {rest : List Uri} {macros result : NameMap MacroDefinition}
    {cache last : Cache}
    (run : overlayAll visitor (dependency :: rest) macros cache = some (result, last)) :
    ∃ included next, visitor cache dependency = some (included, next) ∧
      overlayAll visitor rest (macros ∪ included.macros) next = some (result, last) := by
  rw [overlayAll_cons, Option.bind_eq_some_iff] at run
  obtain ⟨⟨included, next⟩, visited, onward⟩ := run
  exact ⟨included, next, visited, onward⟩

theorem visit_eq_some {machine : Machine} {budget : Nat} {path : List Uri} {cache last : Cache}
    {uri : Uri} {table : SymbolTable}
    (run : visit machine budget path cache uri = some (table, last)) :
    ((uri ∈ path ∨ cache.effective? machine uri = none) ∧ table = .empty ∧ last = cache) ∨
    ∃ left entry macros, budget = left + 1 ∧ uri ∉ path ∧
      cache.effective? machine uri = some entry ∧
      overlayAll (visit machine left (uri :: path)) entry.dependencies entry.table.macros
        (cache.store uri entry) = some (macros, last) ∧
      table = { entry.table with macros } := by
  cases budget with
  | zero => cases run
  | succ left =>
    rw [visit] at run
    split at run
    · rename_i old
      cases run
      exact .inl ⟨.inl old, rfl, rfl⟩
    · rename_i new
      split at run
      · rename_i nothing
        cases run
        exact .inl ⟨.inr nothing, rfl, rfl⟩
      · rename_i entry found
        simp only [bind, Option.bind_eq_some_iff, pure, Option.some.injEq, Prod.mk.injEq] at run
        obtain ⟨⟨macros, final⟩, onward, rfl, rfl⟩ := run
        exact .inr ⟨left, entry, macros, rfl, new, found, onward, rfl⟩

theorem visit?_eq (machine : Machine) (path : List Uri) (cache : Cache) (uri : Uri) :
    visit? machine path cache uri =
      if uri ∈ path then some (.empty, cache)
      else
        match cache.effective? machine uri with
        | none => some (.empty, cache)
        | some entry => do
          let (macros, last) ← overlayAll (visit? machine (uri :: path)) entry.dependencies
            entry.table.macros (cache.store uri entry)
          return ({ entry.table with macros }, last) := by
  rw [visit?]
  rfl

theorem overlayAll_mono {visitor other : Cache → Uri → Option (SymbolTable × Cache)}
    (wider : ∀ cache uri result, visitor cache uri = some result → other cache uri = some result)
    {dependencies : List Uri} {macros : NameMap MacroDefinition} {cache : Cache}
    {result : NameMap MacroDefinition × Cache}
    (run : overlayAll visitor dependencies macros cache = some result) :
    overlayAll other dependencies macros cache = some result := by
  induction dependencies generalizing macros cache with
  | nil => exact run
  | cons dependency rest ih =>
    obtain ⟨included, next, visited, onward⟩ := overlayAll_cons_eq_some run
    rw [overlayAll_cons, wider _ _ _ visited]
    exact ih onward

theorem visit?_of_visit {machine : Machine} {budget : Nat} {path : List Uri} {cache : Cache} {uri : Uri}
    {result : SymbolTable × Cache} (run : visit machine budget path cache uri = some result) :
    visit? machine path cache uri = some result := by
  induction budget generalizing path cache uri result with
  | zero => cases run
  | succ budget ih =>
    obtain ⟨table, last⟩ := result
    rw [visit?_eq]
    rcases visit_eq_some run with ⟨barred, rfl, rfl⟩ | ⟨left, entry, macros, steps, new, found, onward, rfl⟩
    · split
      · rfl
      · rename_i new
        rw [barred.resolve_left new]
    · obtain rfl : budget = left := by omega
      have onward := overlayAll_mono (fun _ _ _ => ih) onward
      simp [new, found, onward]

/-- What a visit leaves: some documents of the region are stored, those that it came to all. -/
structure Visited (view : View) (machine : Machine) (region allowed : Uri → Prop) (uri : Uri)
    (cache last : Cache) : Prop where
  filled : cache.FilledWithin machine region last
  complete : ∀ place, view.Arrives allowed uri place → last.entry? place = view place

theorem overlayAll_filled {view : View} {machine : Machine} {region : Uri → Prop}
    {visitor : Cache → Uri → Option (SymbolTable × Cache)} {dependencies : List Uri}
    (fills : ∀ next ∈ dependencies, ∀ cache table last, cache.view machine = view →
      visitor cache next = some (table, last) → cache.FilledWithin machine region last)
    {macros result : NameMap MacroDefinition} {cache last : Cache}
    (same : cache.view machine = view)
    (run : overlayAll visitor dependencies macros cache = some (result, last)) :
    cache.FilledWithin machine region last := by
  induction dependencies generalizing macros cache with
  | nil =>
    cases run
    exact .refl _ _ _
  | cons dependency rest ih =>
    obtain ⟨included, next, visited, onward⟩ := overlayAll_cons_eq_some run
    have first := fills dependency (by simp) cache included next same visited
    refine first.trans (ih ?_ (first.effective?.trans same) onward)
    exact fun other member => fills other (List.mem_cons_of_mem _ member)

theorem overlayAll_spec {view : View} {machine : Machine} {region allowed : Uri → Prop}
    {path : List Uri} {layer : Uri → SymbolTable}
    (only : ∀ next table, view.Merges path next table → table = layer next)
    {visitor : Cache → Uri → Option (SymbolTable × Cache)} {dependencies : List Uri}
    (spec : ∀ next ∈ dependencies, ∀ cache table last, cache.view machine = view →
      visitor cache next = some (table, last) →
        Visited view machine region allowed next cache last ∧ view.Merges path next table)
    {macros result : NameMap MacroDefinition} {cache last : Cache}
    (same : cache.view machine = view)
    (run : overlayAll visitor dependencies macros cache = some (result, last)) :
    (∀ next ∈ dependencies, (∀ place, view.Arrives allowed next place → last.entry? place = view place) ∧
      view.Merges path next (layer next)) ∧
    result = dependencies.foldl (fun macros next => macros ∪ (layer next).macros) macros := by
  induction dependencies generalizing macros cache with
  | nil =>
    cases run
    exact ⟨by simp, rfl⟩
  | cons dependency rest ih =>
    obtain ⟨included, next, visited, onward⟩ := overlayAll_cons_eq_some run
    obtain ⟨first, merges⟩ := spec dependency (by simp) cache included next same visited
    obtain rfl := only dependency included merges
    have sameNext : next.view machine = view := first.filled.effective?.trans same
    have later := fun other member => spec other (List.mem_cons_of_mem dependency member)
    have filled := overlayAll_filled
      (fun other member cache table last same visited =>
        (later other member cache table last same visited).1.filled) sameNext onward
    obtain ⟨complete, whole⟩ := ih later sameNext onward
    refine ⟨List.forall_mem_cons.mpr ⟨⟨fun place arrives => ?_, merges⟩, complete⟩, whole⟩
    rw [← sameNext]
    refine filled.keeps ?_
    rw [sameNext]
    exact first.complete place arrives

theorem Visited.ofDependencies {view : View} {machine : Machine} {region : Uri → Prop}
    {path : List Uri} {uri : Uri} {entry : Entry} {cache last : Cache}
    (same : cache.view machine = view) (found : cache.effective? machine uri = some entry)
    (inside : region uri) (filled : (cache.store uri entry).FilledWithin machine region last)
    (complete : ∀ next ∈ entry.dependencies, ∀ place,
      view.Arrives (· ∉ uri :: path) next place → last.entry? place = view place) :
    Visited view machine region (· ∉ path) uri cache last := by
  refine ⟨(FilledWithin.store inside found).trans filled, fun place arrives => ?_⟩
  have sameStored : (cache.store uri entry).view machine = view := (view_store found).trans same
  have foundView : view uri = some entry := same ▸ found
  obtain ⟨_, held, again, rfl | ⟨next, taken, below⟩⟩ := (view.arrives_iff _ uri place).mp arrives
  · rw [← sameStored]
    refine filled.keeps ?_
    rw [sameStored, entry?_store, if_pos rfl, foundView]
  · obtain rfl := Option.some.inj (foundView.symm.trans again)
    refine complete next taken place (below.mono fun other allowed => ?_)
    rw [List.mem_cons, not_or]
    exact ⟨allowed.2, allowed.1⟩

theorem visit_spec {view : View} {root : Uri} {machine : Machine} {budget : Nat} {path : List Uri}
    {cache last : Cache} {uri : Uri} {table : SymbolTable}
    (same : cache.view machine = view) (inside : view.Reaches root uri)
    (run : visit machine budget path cache uri = some (table, last)) :
    Visited view machine (view.Reaches root) (· ∉ path) uri cache last ∧ view.Merges path uri table := by
  induction budget generalizing path cache uri table last with
  | zero => cases run
  | succ budget ih =>
    rcases visit_eq_some run with ⟨barred, rfl, rfl⟩ |
      ⟨left, entry, macros, steps, new, found, onward, rfl⟩
    · have nothing : uri ∈ path ∨ view uri = none := barred.imp id (same ▸ ·)
      refine ⟨⟨.refl _ _ _, fun place arrives => ?_⟩, .barred nothing⟩
      refine absurd arrives (View.not_arrives_of_barred place ?_)
      exact nothing.imp (fun old new => new old) id
    · obtain rfl : budget = left := by omega
      have foundView : view uri = some entry := same ▸ found
      have sameStored := (view_store found).trans same
      have spec : ∀ next ∈ entry.dependencies, ∀ cache table last, cache.view machine = view →
          visit machine budget (uri :: path) cache next = some (table, last) →
            Visited view machine (view.Reaches root) (· ∉ uri :: path) next cache last ∧
              view.Merges (uri :: path) next table :=
        fun next taken _ _ _ same visited => ih same (inside.tail ⟨entry, foundView, taken⟩) visited
      have filled := overlayAll_filled
        (fun next taken cache table last same visited =>
          (spec next taken cache table last same visited).1.filled) sameStored onward
      -- a document shows one thing only, however often it is visited
      have chosen (next : Uri) : ∃ table, ∀ other, view.Merges (uri :: path) next other → other = table := by
        by_cases shown : ∃ table, view.Merges (uri :: path) next table
        · obtain ⟨table, merges⟩ := shown
          exact ⟨table, fun _ again => merges.unique again⟩
        · exact ⟨.empty, fun other merges => absurd ⟨other, merges⟩ shown⟩
      choose layer only using chosen
      obtain ⟨complete, rfl⟩ := overlayAll_spec only spec sameStored onward
      exact ⟨.ofDependencies same found inside filled fun next taken => (complete next taken).1,
        .entered layer new foundView fun next taken => (complete next taken).2⟩

theorem overlayAll_total {view : View} {machine : Machine}
    {visitor : Cache → Uri → Option (SymbolTable × Cache)} {dependencies : List Uri}
    (total : ∀ next ∈ dependencies, ∀ cache, cache.view machine = view →
      ∃ table last, visitor cache next = some (table, last) ∧ last.view machine = view)
    (macros : NameMap MacroDefinition) {cache : Cache} (same : cache.view machine = view) :
    ∃ result last, overlayAll visitor dependencies macros cache = some (result, last) := by
  induction dependencies generalizing macros cache with
  | nil => exact ⟨macros, cache, rfl⟩
  | cons dependency rest ih =>
    obtain ⟨included, next, visited, sameNext⟩ := total dependency (by simp) cache same
    obtain ⟨result, last, onward⟩ :=
      ih (fun other member => total other (List.mem_cons_of_mem _ member))
        (macros ∪ included.macros) sameNext
    exact ⟨result, last, by rw [overlayAll_cons, visited]; exact onward⟩

theorem visit_total {view : View} {root : Uri} {machine : Machine} {documents : List Uri}
    (listed : ∀ place, view.Reaches root place → view place ≠ none → place ∈ documents)
    {budget : Nat} {path : List Uri} {cache : Cache} {uri : Uri} (same : cache.view machine = view)
    (inside : view.Reaches root uri) (enough : (documents.filter (· ∉ path)).length < budget) :
    ∃ table last, visit machine budget path cache uri = some (table, last) := by
  -- The documents that are not on the path yet are enough of a budget: each nested visit puts one more on it.
  induction budget generalizing path cache uri with
  | zero => exact absurd enough (Nat.not_lt_zero _)
  | succ budget ih =>
    by_cases old : uri ∈ path
    · exact ⟨.empty, cache, by simp [visit, old]⟩
    · cases found : cache.effective? machine uri with
      | none => exact ⟨.empty, cache, by simp [visit, old, found]⟩
      | some entry =>
        have foundView : view uri = some entry := same ▸ found
        have entered : uri ∈ documents.filter (· ∉ path) :=
          List.mem_filter.mpr ⟨listed uri inside (by simp [foundView]), by simpa using old⟩
        have fewer : (documents.filter (· ∉ uri :: path)).length < budget := by
          have split : documents.filter (· ∉ uri :: path) =
              (documents.filter (· ∉ path)).filter (· ≠ uri) := by
            rw [List.filter_filter]
            refine List.filter_congr fun place _ => ?_
            simp
          have shorter : ((documents.filter (· ∉ path)).filter (· ≠ uri)).length <
              (documents.filter (· ∉ path)).length :=
            List.length_filter_lt_length_iff_exists.mpr ⟨uri, entered, by simp⟩
          rw [split]
          omega
        have total : ∀ next ∈ entry.dependencies, ∀ cache, cache.view machine = view →
            ∃ table last, visit machine budget (uri :: path) cache next = some (table, last) ∧
              last.view machine = view := by
          intro next taken cache same
          have below := inside.tail ⟨entry, foundView, taken⟩
          obtain ⟨table, last, visited⟩ := ih same below fewer
          exact ⟨table, last, visited, (visit_spec same below visited).1.filled.effective?.trans same⟩
        obtain ⟨macros, last, onward⟩ :=
          overlayAll_total total entry.table.macros ((view_store found).trans same)
        exact ⟨{ entry.table with macros }, last, by simp [visit, old, found, onward]⟩

theorem exists_visit (cache : Cache) (machine : Machine) (path : List Uri) (uri : Uri) :
    ∃ budget table last, visit machine budget path cache uri = some (table, last) := by
  obtain ⟨documents, listed⟩ := cache.exists_documents machine uri
  refine ⟨_, visit_total (fun place reaches _ => listed place reaches) rfl .refl (Nat.lt_succ_self _)⟩

theorem visit?_spec {view : View} {root : Uri} {machine : Machine} {path : List Uri} {cache last : Cache}
    {uri : Uri} {table : SymbolTable} (same : cache.view machine = view) (inside : view.Reaches root uri)
    (run : visit? machine path cache uri = some (table, last)) :
    Visited view machine (view.Reaches root) (· ∉ path) uri cache last ∧ view.Merges path uri table := by
  obtain ⟨budget, found, left, ends⟩ := cache.exists_visit machine path uri
  cases (visit?_of_visit ends).symm.trans run
  exact visit_spec same inside ends

theorem visit_eq_get {cache : Cache} {machine : Machine} {uri : Uri} {budget : Nat}
    {result : SymbolTable × Cache} (run : visit machine budget [] cache uri = some result) :
    result = cache.get machine uri := by
  rw [get, visit?_of_visit run]
  rfl

theorem get_eq_visit {cache : Cache} {machine : Machine} {uri : Uri} {budget : Nat}
    (ends : (visit machine budget [] cache uri).isSome) :
    cache.get machine uri = (visit machine budget [] cache uri).getD (.empty, cache) := by
  obtain ⟨result, run⟩ := Option.isSome_iff_exists.mp ends
  rw [← visit_eq_get run, run, Option.getD_some]

theorem visit?_eq_get (cache : Cache) (machine : Machine) (uri : Uri) :
    visit? machine [] cache uri = some (cache.get machine uri) := by
  obtain ⟨budget, table, last, run⟩ := cache.exists_visit machine [] uri
  rw [visit?_of_visit run, visit_eq_get run]

theorem visited_get (cache : Cache) (machine : Machine) (uri : Uri) :
    Visited (cache.view machine) machine ((cache.view machine).Reaches uri) (· ∉ []) uri cache
        (cache.get machine uri).2 ∧
      (cache.view machine).Merges [] uri (cache.get machine uri).1 := by
  obtain ⟨budget, table, last, run⟩ := cache.exists_visit machine [] uri
  have spec := visit_spec rfl .refl run
  rwa [← visit_eq_get run]

theorem merges_get (cache : Cache) (machine : Machine) (uri : Uri) :
    (cache.view machine).Merges [] uri (cache.get machine uri).1 :=
  (cache.visited_get machine uri).2

theorem filledWithin_get (cache : Cache) (machine : Machine) (uri : Uri) :
    cache.FilledWithin machine ((cache.view machine).Reaches uri) (cache.get machine uri).2 :=
  (cache.visited_get machine uri).1.filled

theorem entry?_get {cache : Cache} {machine : Machine} {uri place : Uri}
    (reaches : (cache.view machine).Reaches uri place) :
    Cache.entry? (cache.get machine uri).2 place = cache.view machine place := by
  cases found : cache.view machine place with
  | none => exact (cache.filledWithin_get machine uri).entry?_of_effective?_none found
  | some entry =>
    have arrives := reaches.arrives (by simp [found])
    rw [← found]
    exact (cache.visited_get machine uri).1.complete place (arrives.mono (by simp))

end AsmIndex.Cache
