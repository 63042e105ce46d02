import AsmIndex.Proofs.Layers
import AsmIndex.Proofs.Provenance

namespace AsmIndex

theorem filterMap_sublist_filterMap {α β : Type} {read wider : α → Option β}
    (keeps : ∀ item result, read item = some result → wider item = some result) (items : List α) :
    (items.filterMap read).Sublist (items.filterMap wider) := by
  induction items with
  | nil => exact .slnil
  | cons item items ih =>
    cases first : read item with
    | some result =>
      rw [List.filterMap_cons_some first, List.filterMap_cons_some (keeps item result first)]
      exact ih.cons_cons result
    | none =>
      rw [List.filterMap_cons_none first]
      cases added : wider item with
      | some result =>
        rw [List.filterMap_cons_some added]
        exact ih.cons result
      | none =>
        rw [List.filterMap_cons_none added]
        exact ih

namespace Include

theorem resolve?_append (machine : Machine) (dir? : Option Path) (dirs more : List Path)
    (filename : String) :
    resolve? machine dir? (dirs ++ more) filename =
      (resolve? machine dir? dirs filename).or (resolve? machine none more filename) := by
  unfold resolve? candidates
  rw [← List.append_assoc, List.map_append, List.find?_append]
  rfl

end Include

/-- The wider entry has the same symbols, and all the dependencies in the same order with others among
them. -/
structure Entry.WidensTo (entry wide : Entry) : Prop where
  table : wide.table = entry.table
  dependencies : entry.dependencies.Sublist wide.dependencies

namespace View

def WidensTo (view wide : View) : Prop :=
  ∀ place entry, view place = some entry → ∃ held, wide place = some held ∧ entry.WidensTo held

theorem WidensTo.reaches {view wide : View} (widens : view.WidensTo wide) {uri place : Uri}
    (reaches : view.Reaches uri place) : wide.Reaches uri place := by
  refine Relation.ReflTransGen.mono ?_ _ _ reaches
  rintro source next ⟨entry, found, taken⟩
  obtain ⟨held, foundWide, wider⟩ := widens source entry found
  exact ⟨held, foundWide, wider.dependencies.subset taken⟩

theorem WidensTo.mem_macros {view wide : View} (widens : view.WidensTo wide) {uri : Uri}
    {table wideTable : SymbolTable} (shows : view.Shows uri table) (wideShows : wide.Shows uri wideTable)
    {name : String} (shown : name ∈ table.macros) : name ∈ wideTable.macros := by
  obtain ⟨place, ⟨route, _, ends⟩, defines⟩ := (shows.mem_macros_iff name).mp shown
  obtain ⟨entry, found, own⟩ := (view.definition?_ne_none_iff place name).mp defines
  obtain ⟨held, foundWide, wider⟩ := widens place entry found
  have reached := widens.reaches (reaches_of_arrival? ends)
  have defined : name ∈ held.table.macros := wider.table ▸ own
  refine (wideShows.mem_macros_iff name).mpr ⟨place, reached.arrives (by simp [foundWide]), ?_⟩
  exact (wide.definition?_ne_none_iff place name).mpr ⟨held, foundWide, defined⟩

end View

namespace Cache

theorem scanEntry_widensTo {cache wide : Cache} {more : List Path}
    (added : wide.includePaths = cache.includePaths ++ more) (machine : Machine) (uri : Uri)
    (text : String) : (cache.scanEntry machine uri text).WidensTo (wide.scanEntry machine uri text) where
  table := rfl
  dependencies := by
    refine (filterMap_sublist_filterMap (fun filename path leads => ?_) _).map Uri.ofPath
    rw [added, Include.resolve?_append, leads, Option.some_or]

theorem load?_widensTo {cache wide : Cache} {more : List Path}
    (added : wide.includePaths = cache.includePaths ++ more) {machine : Machine} {uri : Uri}
    {entry : Entry} (loaded : cache.load? machine uri = some entry) :
    ∃ held, wide.load? machine uri = some held ∧ entry.WidensTo held := by
  obtain ⟨path, bytes, backed, file, readable, rfl⟩ := (cache.load?_eq_some_iff machine uri entry).mp loaded
  refine ⟨wide.scanEntry machine uri (Utf8.decodeString bytes), ?_, scanEntry_widensTo added machine uri _⟩
  exact (wide.load?_eq_some_iff machine uri _).mpr ⟨path, bytes, backed, file, readable, rfl⟩

theorem view_fresh_widensTo (dirs more : List Path) (machine : Machine) :
    ((Cache.empty.setIncludePaths dirs).view machine).WidensTo
      ((Cache.empty.setIncludePaths (dirs ++ more)).view machine) := by
  intro place entry found
  have missing (dirs : List Path) : Cache.entry? (Cache.empty.setIncludePaths dirs) place = none :=
    Std.ExtTreeMap.getElem?_empty
  rw [view, effective?_of_missing (missing dirs)] at found
  rw [view, effective?_of_missing (missing (dirs ++ more))]
  exact load?_widensTo rfl found

theorem view_update_widensTo {cache wide : Cache} {more : List Path}
    (added : wide.includePaths = cache.includePaths ++ more) {machine : Machine}
    (widens : (cache.view machine).WidensTo (wide.view machine)) (uri : Uri) (text : String) :
    ((cache.update machine uri text).view machine).WidensTo
      ((wide.update machine uri text).view machine) := by
  intro place entry found
  by_cases here : place = uri
  · subst here
    rw [view_update_self] at found
    obtain rfl := Option.some.inj found
    exact ⟨_, view_update_self wide machine place text, scanEntry_widensTo added machine place text⟩
  · rw [view_update_of_ne here] at found ⊢
    exact widens place entry found

/-- With more search directories a document shows every macro name that it showed before and the same labels,
and its dependencies stay, in their order. -/
theorem more_dirs_hide_no_name (machine : Machine) (uri : Uri) (text : String) (dirs more : List Path) :
    let narrow := (Cache.empty.setIncludePaths dirs).update machine uri text
    let wide := (Cache.empty.setIncludePaths (dirs ++ more)).update machine uri text
    (∀ name, name ∈ (narrow.get machine uri).1.macros → name ∈ (wide.get machine uri).1.macros) ∧
    (wide.get machine uri).1.labels = (narrow.get machine uri).1.labels ∧
    ∃ few many, narrow.entry? uri = some few ∧ wide.entry? uri = some many ∧
      few.dependencies.Sublist many.dependencies := by
  intro narrow wide
  have added : (Cache.empty.setIncludePaths (dirs ++ more)).includePaths =
      (Cache.empty.setIncludePaths dirs).includePaths ++ more := rfl
  have widens : (narrow.view machine).WidensTo (wide.view machine) :=
    view_update_widensTo added (view_fresh_widensTo dirs more machine) uri text
  have wider := scanEntry_widensTo added machine uri text
  refine ⟨fun name => widens.mem_macros (narrow.shows_get machine uri) (wide.shows_get machine uri), ?_, _, _,
    entry?_update_self _ machine uri text, entry?_update_self _ machine uri text, wider.dependencies⟩
  apply Std.ExtTreeMap.ext_getElem?
  intro name
  rw [labels_get, labels_get, view_update_self, view_update_self]
  rfl

/-- A directory that lets a header include a second one, which includes it again and defines its macro anew:
the macro gets another definition and does not go away. -/
theorem added_cycle_hides_no_name :
    let machine : Machine :=
      ⟨(Disk.empty.write (.ofString "/inc/a.h")
          (Utf8.encodeString "#define A 1\n#include \"b.h\"\n")).write
        (.ofString "/more/b.h") (Utf8.encodeString "#include \"a.h\"\n#define A 2\n"),
        .ofString "/", .ofString "/"⟩
    let a := Uri.ofPath (.ofString "/inc/a.h")
    let b := Uri.ofPath (.ofString "/more/b.h")
    let main := Uri.ofPath (.ofString "/m.S")
    let text := "#include \"a.h\"\n"
    let inc := Path.ofString "/inc"
    let more := Path.ofString "/more"
    let narrow := (Cache.empty.setIncludePaths [inc]).update machine main text
    let wide := (Cache.empty.setIncludePaths ([inc] ++ [more])).update machine main text
    (narrow.view machine a).map Entry.dependencies = some [] ∧
      (wide.view machine a).map Entry.dependencies = some [b] ∧
      (wide.view machine b).map Entry.dependencies = some [a] ∧
      "A" ∈ (narrow.get machine main).1.macros ∧ "A" ∈ (wide.get machine main).1.macros := by
  intro machine a b main text inc more narrow wide
  have taken : a ∈ ((Cache.empty.setIncludePaths [inc]).scanEntry machine main text).dependencies := by
    decide +kernel
  have reaches : (narrow.view machine).Reaches main a :=
    .single ⟨_, view_update_self _ machine main text, taken⟩
  have holds : (narrow.view machine a).isSome := by decide +kernel
  have defines : View.definition? (narrow.view machine) a "A" ≠ none := by decide +kernel
  have shown : "A" ∈ (narrow.get machine main).1.macros :=
    ((narrow.shows_get machine main).mem_macros_iff "A").mpr ⟨a, reaches.arrives holds, defines⟩
  exact ⟨by decide +kernel, by decide +kernel, by decide +kernel, shown,
    (more_dirs_hide_no_name machine main text [inc] [more]).1 "A" shown⟩

end Cache

end AsmIndex
