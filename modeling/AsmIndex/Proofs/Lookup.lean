import AsmIndex.Proofs.Visit

namespace AsmIndex.Cache

theorem shows_get (cache : Cache) (machine : Machine) (uri : Uri) :
    (cache.view machine).Shows uri (cache.get machine uri).1 :=
  (cache.merges_get machine uri).shows

theorem get_congr {cache other : Cache} {machine machine' : Machine} {uri : Uri}
    (agrees : (cache.view machine).AgreesFrom (other.view machine') uri) :
    (other.get machine' uri).1 = (cache.get machine uri).1 :=
  (cache.shows_get machine uri).unique (agrees.shows (other.shows_get machine' uri))

theorem view_get (cache : Cache) (machine : Machine) (uri : Uri) :
    (cache.get machine uri).2.view machine = cache.view machine :=
  (cache.filledWithin_get machine uri).effective?

theorem getElem?_get_eq_none_iff (cache : Cache) (machine : Machine) (uri : Uri) (name : String) :
    (cache.get machine uri).1.macros[name]? = none ↔
      ∀ route trail, (cache.view machine).trail? uri route = some trail → trail.Nodup →
        ∀ place ∈ trail, (cache.view machine).definition? place name = none := by
  have shown := (cache.shows_get machine uri).mem_macros_iff name
  rw [getElem?_eq_none_iff, shown]
  constructor
  · intro absent route trail followed distinct place member
    by_contra defines
    exact absent ⟨place, View.arrives_of_mem_trail followed distinct (fun _ _ => trivial) member,
      defines⟩
  · rintro absent ⟨place, ⟨route, ⟨trail, followed, distinct, _⟩, ends⟩, defines⟩
    obtain ⟨_, again, member⟩ := View.arrival?_eq_some ends
    obtain rfl := Option.some.inj (followed.symm.trans again)
    exact defines (absent route trail followed distinct place member)

theorem entry?_update_self (cache : Cache) (machine : Machine) (uri : Uri) (text : String) :
    Cache.entry? (cache.update machine uri text) uri = some (cache.scanEntry machine uri text) := by
  rw [update, entry?_store, if_pos rfl]

theorem view_eq_some_iff (cache : Cache) (machine : Machine) (place : Uri) (entry : Entry) :
    cache.view machine place = some entry ↔
      cache.entry? place = some entry ∨
      cache.entry? place = none ∧ ∃ path bytes, place.toPath? = some path ∧ machine.isFile path = true ∧
        machine.read? path = some bytes ∧
        Cache.entry? (cache.update machine place (Utf8.decodeString bytes)) place = some entry := by
  rw [view, effective?, Option.or_eq_some_iff, load?_eq_some_iff]
  simp only [entry?_update_self, Option.some.injEq, @eq_comm _ entry]

/-- A lookup shows the document's own labels and, for each macro name, the definition in the last document
in preorder that has one. -/
theorem get_last_definition (cache : Cache) (machine : Machine) (uri : Uri) :
    (∀ place entry, cache.view machine place = some entry ↔
      cache.entry? place = some entry ∨
      cache.entry? place = none ∧ ∃ path bytes, place.toPath? = some path ∧ machine.isFile path = true ∧
        machine.read? path = some bytes ∧
        Cache.entry? (cache.update machine place (Utf8.decodeString bytes)) place = some entry) ∧
    match cache.view machine uri with
    | none => (cache.get machine uri).1 = .empty
    | some entry =>
      (cache.get machine uri).1.labels = entry.table.labels ∧
      ∃ routes, (cache.view machine).PreorderListing uri routes ∧
        (∀ others, (cache.view machine).PreorderListing uri others → others = routes) ∧
        ∀ name,
          (cache.get machine uri).1.macros[name]? =
            (cache.view machine).lastDefinition? uri routes name ∧
          ((cache.get machine uri).1.macros[name]? = none ↔
            ∀ route trail, (cache.view machine).trail? uri route = some trail → trail.Nodup →
              ∀ place ∈ trail, (cache.view machine).definition? place name = none) := by
  refine ⟨cache.view_eq_some_iff machine, ?_⟩
  have shows := cache.shows_get machine uri
  unfold View.Shows at shows
  cases found : cache.view machine uri with
  | none => simpa only [found] using shows
  | some entry =>
    simp only [found] at shows
    obtain ⟨labels, routes, listed, macros⟩ := shows
    refine ⟨labels, routes, listed, fun others other => listed.unique other, fun name => ?_⟩
    exact ⟨macros name, cache.getElem?_get_eq_none_iff machine uri name⟩

/-- No name is lost where a cycle ends: every document that any walk comes to is also at the end of a
simple route. -/
theorem mem_get_iff_reached (cache : Cache) (machine : Machine) (uri : Uri) (name : String) :
    name ∈ (cache.get machine uri).1.macros ↔
      ∃ place entry, (cache.view machine).Reaches uri place ∧
        cache.view machine place = some entry ∧ name ∈ entry.table.macros := by
  rw [(cache.shows_get machine uri).mem_macros_iff name]
  constructor
  · rintro ⟨place, ⟨route, _, ends⟩, defines⟩
    obtain ⟨entry, found, own⟩ := (View.definition?_ne_none_iff _ place name).mp defines
    exact ⟨place, entry, View.reaches_of_arrival? ends, found, own⟩
  · rintro ⟨place, entry, reaches, found, own⟩
    refine ⟨place, reaches.arrives (by simp [found]), ?_⟩
    exact (View.definition?_ne_none_iff _ place name).mpr ⟨entry, found, own⟩

def getAll (cache : Cache) (machine : Machine) : List Uri → List SymbolTable × Cache
  | [] => ([], cache)
  | uri :: uris =>
    let (table, next) := cache.get machine uri
    let (tables, last) := next.getAll machine uris
    (table :: tables, last)

inductive Removal
  | delete (uri : Uri)
  | retain (keep : Uri → Bool)
  | clear

def remove (cache : Cache) : Removal → Cache
  | .delete uri => cache.delete uri
  | .retain keep => cache.retain keep
  | .clear => cache.clear

def removeAll (cache : Cache) (removals : List Removal) : Cache :=
  removals.foldl remove cache

/-- Every removed entry is the one on disk. -/
def InSync (cache : Cache) (machine : Machine) (reduced : Cache) : Prop :=
  ∀ uri entry, cache.entry? uri = some entry → reduced.entry? uri = none →
    cache.load? machine uri = some entry

theorem getAll_tables (cache : Cache) (machine : Machine) (uris : List Uri)
    (first : Cache) (same : cache.view machine = first.view machine) :
    (cache.getAll machine uris).1 = uris.map fun uri => (first.get machine uri).1 := by
  induction uris generalizing cache with
  | nil => rfl
  | cons uri uris ih =>
    have table : (cache.get machine uri).1 = (first.get machine uri).1 :=
      get_congr fun place _ => congrFun same place
    have rest := ih (cache.get machine uri).2 ((cache.view_get machine uri).trans same)
    simp only [getAll, List.map_cons, table, rest]

@[simp] theorem includePaths_remove (cache : Cache) (removal : Removal) :
    (cache.remove removal).includePaths = cache.includePaths := by
  cases removal <;> rfl

theorem entry?_remove (cache : Cache) (removal : Removal) (place : Uri) :
    Cache.entry? (cache.remove removal) place = cache.entry? place ∨
      Cache.entry? (cache.remove removal) place = none := by
  cases removal with
  | delete uri =>
    simp only [remove, delete, entry?, Std.ExtTreeMap.getElem?_erase]
    split
    · exact .inr rfl
    · exact .inl rfl
  | retain keep =>
    simp only [remove, retain, entry?, Std.ExtTreeMap.getElem?_filter']
    cases cache.entries[place]? with
    | none => exact .inl rfl
    | some entry => cases keep place <;> simp
  | clear => exact .inr (by simp [remove, clear, entry?])

theorem includePaths_removeAll (cache : Cache) (removals : List Removal) :
    (cache.removeAll removals).includePaths = cache.includePaths := by
  induction removals generalizing cache with
  | nil => rfl
  | cons removal removals ih => exact (ih _).trans (cache.includePaths_remove removal)

theorem entry?_removeAll (cache : Cache) (removals : List Removal) (place : Uri) :
    Cache.entry? (cache.removeAll removals) place = cache.entry? place ∨
      Cache.entry? (cache.removeAll removals) place = none := by
  induction removals generalizing cache with
  | nil => exact .inl rfl
  | cons removal removals ih =>
    rcases ih (cache.remove removal) with same | gone
    · rcases cache.entry?_remove removal place with kept | gone
      · exact .inl (same.trans kept)
      · exact .inr (same.trans gone)
    · exact .inr gone

/-- The caches that operations can build, each on the machine as it is at that time. -/
inductive Built : Cache → Prop
  | empty : Built .empty
  | setIncludePaths {cache : Cache} (built : Built cache) (paths : List Path) :
    Built (cache.setIncludePaths paths)
  | update {cache : Cache} (built : Built cache) (machine : Machine) (uri : Uri) (text : String) :
    Built (cache.update machine uri text)
  | get {cache : Cache} (built : Built cache) (machine : Machine) (uri : Uri) :
    Built (cache.get machine uri).2
  | remove {cache : Cache} (built : Built cache) (removal : Removal) : Built (cache.remove removal)

theorem Built.exists_scanEntry {cache : Cache} (built : Built cache) {uri : Uri} {entry : Entry}
    (stored : cache.entry? uri = some entry) :
    ∃ (past : Cache) (machine : Machine) (text : String), entry = past.scanEntry machine uri text := by
  induction built generalizing uri entry with
  | empty => simp [Cache.empty, entry?] at stored
  | setIncludePaths _ paths ih => exact ih stored
  | @update cache _ machine uri' text ih =>
    rw [Cache.update, entry?_store] at stored
    split at stored
    · rename_i same
      subst same
      exact ⟨cache, machine, text, (Option.some.inj stored).symm⟩
    · exact ih stored
  | @get cache _ machine uri' ih =>
    rcases (cache.filledWithin_get machine uri').entries uri with same | ⟨_, loaded⟩
    · exact ih (same.symm.trans stored)
    · rcases effective?_eq_some (loaded.symm.trans stored) with old | ⟨_, onDisk⟩
      · exact ih old
      · obtain ⟨_, bytes, _, _, _, same⟩ := (cache.load?_eq_some_iff machine uri entry).mp onDisk
        exact ⟨cache, machine, _, same⟩
  | @remove cache _ removal ih =>
    rcases cache.entry?_remove removal uri with same | gone
    · exact ih (same.symm.trans stored)
    · exact absurd (gone.symm.trans stored) (by simp)

theorem Built.exists_scanEntry_of_view {cache : Cache} (built : Built cache) {machine : Machine} {uri : Uri}
    {entry : Entry} (found : cache.view machine uri = some entry) :
    ∃ (past : Cache) (known : Machine) (text : String), entry = past.scanEntry known uri text := by
  rcases effective?_eq_some found with stored | ⟨_, loaded⟩
  · exact built.exists_scanEntry stored
  · obtain ⟨_, bytes, _, _, _, same⟩ := (cache.load?_eq_some_iff machine uri entry).mp loaded
    exact ⟨cache, machine, _, same⟩

theorem Built.isSettled_of_reaches {cache : Cache} (built : Built cache) {machine : Machine}
    {uri place : Uri} (reaches : (cache.view machine).Reaches uri place) :
    place = uri ∨ place.IsSettled := by
  rcases Relation.ReflTransGen.cases_tail reaches with same | ⟨source, _, entry, found, taken⟩
  · exact .inl same
  · obtain ⟨past, known, text, rfl⟩ := built.exists_scanEntry_of_view found
    exact .inr (isSettled_of_mem_scanEntry taken)

theorem view_removeAll {cache : Cache} {machine : Machine} {removals : List Removal}
    (inSync : cache.InSync machine (cache.removeAll removals)) :
    (cache.removeAll removals).view machine = cache.view machine := by
  funext place
  have load := load?_congr (cache.includePaths_removeAll removals) machine place
  rcases cache.entry?_removeAll removals place with same | gone
  · simp only [view, effective?, same, load]
  · rw [view, effective?_of_missing gone, load]
    cases stored : cache.entry? place with
    | none => rw [view, effective?_of_missing stored]
    | some entry => rw [view, effective?_of_stored stored, inSync place entry stored gone]

/-- Neither lookups nor the removal of entries that stand on disk in the same way can be observed. -/
theorem lookups_and_removals_unobserved (cache : Cache) (machine : Machine) :
    (∀ uris, (cache.getAll machine uris).1 = uris.map fun uri => (cache.get machine uri).1) ∧
    ∀ removals, cache.InSync machine (cache.removeAll removals) →
      ∀ uri, ((cache.removeAll removals).get machine uri).1 = (cache.get machine uri).1 := by
  refine ⟨fun uris => cache.getAll_tables machine uris cache rfl, ?_⟩
  intro removals inSync uri
  exact get_congr fun place _ => congrFun (view_removeAll inSync) place

theorem cleared_header_unobserved :
    let text := "#define SIZE 4\n"
    let path := Path.ofString "/size.h"
    let machine : Machine :=
      ⟨Disk.empty.write path (Utf8.encodeString text), .ofString "/", .ofString "/"⟩
    let cache := Cache.empty.update machine (Uri.ofPath path) text
    cache.InSync machine (cache.removeAll [.clear]) ∧
      ((cache.removeAll [.clear]).get machine (Uri.ofPath path)).1 =
        (cache.get machine (Uri.ofPath path)).1 := by
  intro text path machine cache
  have onDisk : cache.load? machine (Uri.ofPath path) =
      some (Cache.empty.scanEntry machine (Uri.ofPath path) text) := by
    decide +kernel
  have inSync : cache.InSync machine (cache.removeAll [.clear]) := by
    intro place entry stored _
    change Cache.entry? (Cache.empty.store (Uri.ofPath path) _) place = some entry at stored
    rw [entry?_store] at stored
    split at stored
    · rename_i same
      rw [same, onDisk, stored]
    · simp [Cache.empty, entry?] at stored
  exact ⟨inSync, (lookups_and_removals_unobserved cache machine).2 [.clear] inSync (Uri.ofPath path)⟩

end AsmIndex.Cache
