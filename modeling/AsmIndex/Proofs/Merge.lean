import AsmIndex.Proofs.Walk

namespace AsmIndex

namespace View

def definition? (view : View) (uri : Uri) (name : String) : Option MacroDefinition :=
  (view uri).bind (·.table.macros[name]?)

theorem definition?_ne_none_iff (view : View) (uri : Uri) (name : String) :
    view.definition? uri name ≠ none ↔
      ∃ entry, view uri = some entry ∧ name ∈ entry.table.macros := by
  unfold definition?
  cases view uri <;> simp

def lastDefinition? (view : View) (uri : Uri) (routes : List (List Nat)) (name : String) :
    Option MacroDefinition :=
  routes.reverse.findSome? fun route => (view.arrival? uri route).bind (view.definition? · name)

theorem lastDefinition?_eq_none_iff (view : View) (uri : Uri) (routes : List (List Nat))
    (name : String) :
    view.lastDefinition? uri routes name = none ↔
      ∀ route ∈ routes, ∀ place, view.arrival? uri route = some place →
        view.definition? place name = none := by
  simp [lastDefinition?]

theorem findSome?_reverse_flatMap {α β γ : Type} (items : List α) (parts : α → List β)
    (pick : β → Option γ) :
    (items.flatMap parts).reverse.findSome? pick =
      items.reverse.findSome? fun item => (parts item).reverse.findSome? pick := by
  induction items with
  | nil => rfl
  | cons item items ih => simp [List.findSome?_append, ih]

theorem findSome?_congr_of_mem {α γ : Type} {items : List α} {pick other : α → Option γ}
    (same : ∀ item ∈ items, pick item = other item) : items.findSome? pick = items.findSome? other := by
  induction items with
  | nil => rfl
  | cons item items ih =>
    have first := same item (by simp)
    have rest := ih fun item member => same item (List.mem_cons_of_mem _ member)
    simp only [List.findSome?_cons, first, rest]

theorem findSome?_reverse_zipIdx {α γ : Type} (items : List α) (pick : α → Option γ)
    (pickAt : α × Nat → Option γ)
    (same : ∀ item position, items[position]? = some item → pickAt (item, position) = pick item) :
    items.zipIdx.reverse.findSome? pickAt = items.reverse.findSome? pick := by
  have members : ∀ item ∈ items.zipIdx.reverse, pickAt item = (pick ∘ Prod.fst) item := by
    rintro ⟨item, position⟩ member
    exact same item position (List.mem_zipIdx_iff_getElem?.mp (List.mem_reverse.mp member))
  calc items.zipIdx.reverse.findSome? pickAt
      = items.zipIdx.reverse.findSome? (pick ∘ Prod.fst) := findSome?_congr_of_mem members
    _ = (items.zipIdx.map Prod.fst).reverse.findSome? pick := by
        rw [← List.map_reverse, List.findSome?_map]
    _ = items.reverse.findSome? pick := by rw [List.zipIdx_map_fst]

theorem lastDefinition?_branches {view : View} {uri : Uri} {entry : Entry} (found : view uri = some entry)
    (below : Uri → List (List Nat)) (name : String) :
    view.lastDefinition? uri (branches entry below) name =
      (entry.dependencies.reverse.findSome? fun next =>
        view.lastDefinition? next (below next) name).or entry.table.macros[name]? := by
  have here : (view.arrival? uri []).bind (view.definition? · name) = entry.table.macros[name]? := by
    simp [arrival?_nil found, definition?, found]
  have onward (next : Uri) (position : Nat) (taken : entry.dependencies[position]? = some next) :
      ((below next).map (position :: ·)).reverse.findSome?
        (fun route => (view.arrival? uri route).bind (view.definition? · name)) =
      view.lastDefinition? next (below next) name := by
    rw [← List.map_reverse, List.findSome?_map, lastDefinition?]
    congr 1
    funext route
    rw [Function.comp_apply, arrival?_cons found taken]
  rw [lastDefinition?, branches, List.reverse_cons, List.findSome?_append, findSome?_reverse_flatMap,
    findSome?_reverse_zipIdx _ _ _ onward]
  simp [here]

/-- The other view holds the same in every document that can be reached. -/
def AgreesFrom (view other : View) (uri : Uri) : Prop :=
  ∀ place, view.Reaches uri place → other place = view place

theorem AgreesFrom.onward {view other : View} {uri next : Uri} {entry : Entry}
    (agrees : view.AgreesFrom other uri) (found : view uri = some entry)
    (taken : next ∈ entry.dependencies) : view.AgreesFrom other next :=
  fun place reaches => agrees place (.head ⟨entry, found, taken⟩ reaches)

theorem AgreesFrom.trail? {view other : View} {uri : Uri} (agrees : view.AgreesFrom other uri)
    (route : List Nat) : other.trail? uri route = view.trail? uri route := by
  induction route generalizing uri with
  | nil => rw [View.trail?, View.trail?, agrees uri .refl]
  | cons position route ih =>
    rw [View.trail?, View.trail?, agrees uri .refl]
    cases found : view uri with
    | none => rfl
    | some entry =>
      cases taken : entry.dependencies[position]? with
      | none => simp [taken]
      | some next => simp [taken, ih (agrees.onward found (List.mem_of_getElem? taken))]

theorem AgreesFrom.symm {view other : View} {uri : Uri} (agrees : view.AgreesFrom other uri) :
    other.AgreesFrom view uri := by
  intro place reaches
  refine (agrees place ?_).symm
  induction reaches with
  | refl => exact .refl
  | tail _ depends ih =>
    obtain ⟨entry, found, taken⟩ := depends
    exact ih.tail ⟨entry, (agrees _ ih).symm.trans found, taken⟩

theorem AgreesFrom.preorderListing {view other : View} {uri : Uri} {routes : List (List Nat)}
    (agrees : view.AgreesFrom other uri) (listed : other.PreorderListing uri routes) :
    view.PreorderListing uri routes where
  ordered := listed.ordered
  complete route := by
    rw [listed.complete]
    simp only [Simple, agrees.trail?]

theorem AgreesFrom.lastDefinition? {view other : View} {uri : Uri}
    (agrees : view.AgreesFrom other uri) (routes : List (List Nat)) (name : String) :
    other.lastDefinition? uri routes name = view.lastDefinition? uri routes name := by
  refine findSome?_congr_of_mem fun route _ => ?_
  rw [View.arrival?, agrees.trail?]
  change (view.arrival? uri route).bind _ = (view.arrival? uri route).bind _
  cases ends : view.arrival? uri route with
  | none => rfl
  | some place =>
    change other.definition? place name = view.definition? place name
    rw [definition?, definition?, agrees place (reaches_of_arrival? ends)]

/-- The table is what the view shows from a document. -/
def Shows (view : View) (uri : Uri) (table : SymbolTable) : Prop :=
  match view uri with
  | none => table = .empty
  | some entry =>
    table.labels = entry.table.labels ∧
      ∃ routes, view.PreorderListing uri routes ∧
        ∀ name, table.macros[name]? = view.lastDefinition? uri routes name

theorem Shows.unique {view : View} {uri : Uri} {table other : SymbolTable}
    (first : view.Shows uri table) (second : view.Shows uri other) : other = table := by
  unfold Shows at first second
  cases found : view uri with
  | none =>
    simp only [found] at first second
    rw [first, second]
  | some entry =>
    simp only [found] at first second
    obtain ⟨labels, routes, listed, macros⟩ := first
    obtain ⟨otherLabels, others, otherListed, otherMacros⟩ := second
    obtain rfl := listed.unique otherListed
    have sameMacros : other.macros = table.macros := by
      apply Std.ExtTreeMap.ext_getElem?
      intro name
      rw [otherMacros, macros]
    cases table
    cases other
    simp_all

theorem Shows.mem_macros_iff {view : View} {uri : Uri} {table : SymbolTable}
    (shows : view.Shows uri table) (name : String) :
    name ∈ table.macros ↔
      ∃ place, view.Arrives (fun _ => True) uri place ∧ view.definition? place name ≠ none := by
  rw [Std.ExtTreeMap.mem_iff_isSome_getElem?]
  unfold Shows at shows
  cases found : view uri with
  | none =>
    simp only [found] at shows
    subst shows
    constructor
    · intro member
      simp [SymbolTable.empty] at member
    · rintro ⟨place, arrives, _⟩
      exact absurd arrives (not_arrives_of_barred place (.inr found))
  | some entry =>
    simp only [found] at shows
    obtain ⟨_, routes, listed, macros⟩ := shows
    rw [macros, ← Option.ne_none_iff_isSome, Ne, lastDefinition?_eq_none_iff]
    simp only [not_forall]
    constructor
    · rintro ⟨route, member, place, ends, defines⟩
      have simple := (listed.complete route).mp member
      exact ⟨place, ⟨route, (view.simpleWithin_true_iff uri route).mpr simple, ends⟩, defines⟩
    · rintro ⟨place, ⟨route, simple, ends⟩, defines⟩
      have member := (listed.complete route).mpr ((view.simpleWithin_true_iff uri route).mp simple)
      exact ⟨route, member, place, ends, defines⟩

theorem AgreesFrom.shows {view other : View} {uri : Uri} {table : SymbolTable}
    (agrees : view.AgreesFrom other uri) (shows : other.Shows uri table) : view.Shows uri table := by
  unfold Shows at *
  rw [agrees uri .refl] at shows
  cases found : view uri with
  | none => simpa only [found] using shows
  | some entry =>
    simp only [found] at shows ⊢
    obtain ⟨labels, routes, listed, macros⟩ := shows
    refine ⟨labels, routes, agrees.preorderListing listed, fun name => ?_⟩
    rw [macros, agrees.lastDefinition?]

end View

/-- The symbols of a document with the macros of its includes laid over them in order. -/
def Entry.overlaid (entry : Entry) (layer : Uri → SymbolTable) : SymbolTable :=
  { entry.table with
    macros := entry.dependencies.foldl (fun macros next => macros ∪ (layer next).macros)
      entry.table.macros }

theorem getElem?_overlay {α : Type} (layers : List α) (layer : α → NameMap MacroDefinition)
    (base : NameMap MacroDefinition) (name : String) :
    (layers.foldl (fun macros item => macros ∪ layer item) base)[name]? =
      (layers.reverse.findSome? fun item => (layer item)[name]?).or base[name]? := by
  induction layers generalizing base with
  | nil => simp
  | cons item layers ih =>
    rw [List.foldl_cons, ih, Std.ExtTreeMap.getElem?_union]
    simp [List.findSome?_append, Option.or_assoc]

theorem Entry.overlaid_congr {entry : Entry} {layer other : Uri → SymbolTable}
    (same : ∀ next ∈ entry.dependencies, other next = layer next) :
    entry.overlaid other = entry.overlaid layer := by
  have macros : entry.dependencies.foldl (fun macros next => macros ∪ (other next).macros)
        entry.table.macros =
      entry.dependencies.foldl (fun macros next => macros ∪ (layer next).macros) entry.table.macros := by
    apply List.foldl_ext
    intro macros next taken
    rw [same next taken]
  exact congrArg (SymbolTable.mk · entry.table.labels) macros

namespace View

/-- What the documents show one by one: a document on the path or without an entry shows nothing, and any other
shows its own symbols under those of its includes, for which it is on the path itself. -/
inductive Merges (view : View) : List Uri → Uri → SymbolTable → Prop
  | barred {path : List Uri} {uri : Uri} (nothing : uri ∈ path ∨ view uri = none) :
    Merges view path uri .empty
  | entered {path : List Uri} {uri : Uri} {entry : Entry} (layer : Uri → SymbolTable) (new : uri ∉ path)
    (found : view uri = some entry)
    (below : ∀ next ∈ entry.dependencies, Merges view (uri :: path) next (layer next)) :
    Merges view path uri (entry.overlaid layer)

theorem Merges.unique {view : View} {path : List Uri} {uri : Uri} {table other : SymbolTable}
    (merges : view.Merges path uri table) (again : view.Merges path uri other) : other = table := by
  induction merges generalizing other with
  | barred nothing =>
    cases again with
    | barred _ => rfl
    | entered _ new found _ =>
      rcases nothing with old | missing
      · exact absurd old new
      · exact absurd (missing.symm.trans found) (by simp)
  | entered layer new found _ ih =>
    cases again with
    | barred nothing =>
      rcases nothing with old | missing
      · exact absurd old new
      · exact absurd (missing.symm.trans found) (by simp)
    | entered others _ foundAgain below =>
      obtain rfl := Option.some.inj (found.symm.trans foundAgain)
      exact Entry.overlaid_congr fun next taken => ih next taken (below next taken)

theorem Merges.eq_empty {view : View} {path : List Uri} {uri : Uri} {table : SymbolTable}
    (merges : view.Merges path uri table) (nothing : view uri = none) : table = .empty :=
  (Merges.barred (.inr nothing)).unique merges

theorem Merges.exists_routes {view : View} {path : List Uri} {uri : Uri} {table : SymbolTable}
    (merges : view.Merges path uri table) :
    ∃ routes, view.ListsWithin (· ∉ path) uri routes ∧
      ∀ name, table.macros[name]? = view.lastDefinition? uri routes name := by
  induction merges with
  | @barred path uri nothing =>
    refine ⟨[], listsWithin_nil ?_, fun name => by simp [SymbolTable.empty, lastDefinition?]⟩
    exact nothing.imp (fun old new => new old) id
  | @entered path uri entry layer new found _ ih =>
    have chosen (next : Uri) : ∃ routes, next ∈ entry.dependencies →
        view.ListsWithin (· ∉ uri :: path) next routes ∧
          ∀ name, (layer next).macros[name]? = view.lastDefinition? next routes name := by
      by_cases taken : next ∈ entry.dependencies
      · obtain ⟨routes, spec⟩ := ih next taken
        exact ⟨routes, fun _ => spec⟩
      · exact ⟨[], fun other => absurd other taken⟩
    choose below spec using chosen
    refine ⟨branches entry below, listsWithin_branches new found fun next taken => ?_, fun name => ?_⟩
    · refine (spec next taken).1.congr fun place => ?_
      rw [List.mem_cons, not_or, and_comm]
    · rw [lastDefinition?_branches found, Entry.overlaid, getElem?_overlay]
      congr 1
      refine findSome?_congr_of_mem fun next member => ?_
      exact (spec next (List.mem_reverse.mp member)).2 name

theorem Merges.shows {view : View} {uri : Uri} {table : SymbolTable} (merges : view.Merges [] uri table) :
    view.Shows uri table := by
  obtain ⟨routes, listed, macros⟩ := merges.exists_routes
  have listing : view.PreorderListing uri routes :=
    (listed.congr fun place => by simp).preorderListing
  unfold Shows
  cases merges with
  | barred nothing =>
    have missing : view uri = none := nothing.resolve_left (by simp)
    rw [missing]
  | entered layer _ found _ =>
    rw [found]
    exact ⟨rfl, routes, listing, macros⟩

end View

end AsmIndex
