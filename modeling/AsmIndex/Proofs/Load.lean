import AsmIndex.Proofs.Links
import AsmIndex.Proofs.Merge

namespace AsmIndex.Cache

abbrev view (cache : Cache) (machine : Machine) : View :=
  cache.effective? machine

theorem entry?_store (cache : Cache) (uri place : Uri) (entry : Entry) :
    Cache.entry? (cache.store uri entry) place = if place = uri then some entry else cache.entry? place := by
  simp only [store, entry?, Std.ExtTreeMap.getElem?_insert, Std.LawfulEqCmp.compare_eq_iff_eq]
  simp only [eq_comm]

theorem mem_keys_iff (cache : Cache) (uri : Uri) :
    uri ∈ cache.entries.keys ↔ ∃ entry, cache.entry? uri = some entry := by
  rw [Std.ExtTreeMap.mem_keys, Std.ExtTreeMap.mem_iff_isSome_getElem?, Option.isSome_iff_exists]
  rfl

theorem load?_congr {cache other : Cache} (same : other.includePaths = cache.includePaths)
    (machine : Machine) (uri : Uri) : other.load? machine uri = cache.load? machine uri := by
  unfold load? scanEntry
  rw [same]

theorem effective?_of_stored {cache : Cache} {uri : Uri} {entry : Entry}
    (stored : cache.entry? uri = some entry) (machine : Machine) :
    cache.effective? machine uri = some entry := by
  simp [effective?, stored]

theorem effective?_of_missing {cache : Cache} {uri : Uri} (missing : cache.entry? uri = none)
    (machine : Machine) : cache.effective? machine uri = cache.load? machine uri := by
  simp [effective?, missing]

/-- The cache with some documents of the region stored as they are on disk. -/
structure FilledWithin (cache : Cache) (machine : Machine) (region : Uri → Prop)
    (filled : Cache) : Prop where
  includePaths : filled.includePaths = cache.includePaths
  entries : ∀ place, filled.entry? place = cache.entry? place ∨
    region place ∧ filled.entry? place = cache.effective? machine place

namespace FilledWithin

theorem refl (cache : Cache) (machine : Machine) (region : Uri → Prop) :
    cache.FilledWithin machine region cache :=
  ⟨rfl, fun _ => .inl rfl⟩

theorem effective? {cache filled : Cache} {machine : Machine} {region : Uri → Prop}
    (fills : cache.FilledWithin machine region filled) :
    filled.effective? machine = cache.effective? machine := by
  funext place
  have load := load?_congr fills.includePaths machine place
  rcases fills.entries place with same | ⟨_, loaded⟩
  · simp only [Cache.effective?, same, load]
  · cases stored : filled.entry? place with
    | some entry => rw [effective?_of_stored stored, ← loaded, stored]
    | none =>
      have missing : cache.entry? place = none := by
        have nothing := loaded.symm.trans stored
        exact (Option.or_eq_none_iff.mp nothing).1
      rw [effective?_of_missing stored, effective?_of_missing missing, load]

theorem trans {first second third : Cache} {machine : Machine} {region : Uri → Prop}
    (fills : first.FilledWithin machine region second)
    (more : second.FilledWithin machine region third) : first.FilledWithin machine region third where
  includePaths := more.includePaths.trans fills.includePaths
  entries place := by
    rcases more.entries place with same | ⟨inside, loaded⟩
    · rw [same]
      exact fills.entries place
    · rw [fills.effective?] at loaded
      exact .inr ⟨inside, loaded⟩

theorem store {cache : Cache} {machine : Machine} {region : Uri → Prop} {uri : Uri} {entry : Entry}
    (inside : region uri) (found : cache.effective? machine uri = some entry) :
    cache.FilledWithin machine region (cache.store uri entry) where
  includePaths := rfl
  entries place := by
    rw [entry?_store]
    split
    · rename_i same
      subst same
      exact .inr ⟨inside, found.symm⟩
    · exact .inl rfl

theorem entry?_of_effective?_none {cache filled : Cache} {machine : Machine} {region : Uri → Prop}
    {place : Uri} (fills : cache.FilledWithin machine region filled)
    (nothing : cache.effective? machine place = none) : filled.entry? place = none := by
  rcases fills.entries place with same | ⟨_, loaded⟩
  · rw [same]
    exact (Option.or_eq_none_iff.mp nothing).1
  · rw [loaded, nothing]

theorem keeps {cache filled : Cache} {machine : Machine} {region : Uri → Prop}
    {place : Uri} (fills : cache.FilledWithin machine region filled)
    (stored : cache.entry? place = cache.view machine place) :
    filled.entry? place = cache.view machine place := by
  rcases fills.entries place with same | ⟨_, loaded⟩
  · rw [same, stored]
  · exact loaded

end FilledWithin

theorem view_store {cache : Cache} {machine : Machine} {uri : Uri} {entry : Entry}
    (found : cache.effective? machine uri = some entry) :
    (cache.store uri entry).view machine = cache.view machine := by
  have stored : cache.FilledWithin machine (fun _ => True) (cache.store uri entry) :=
    .store trivial found
  exact stored.effective?

theorem mem_dependencies_scanEntry {cache : Cache} {machine : Machine} {uri next : Uri}
    {text : String} (taken : next ∈ (cache.scanEntry machine uri text).dependencies) :
    ∃ path ∈ machine.filePaths, next = Uri.ofPath path := by
  obtain ⟨path, member, rfl⟩ := List.mem_map.mp taken
  obtain ⟨filename, _, resolved⟩ := List.mem_filterMap.mp member
  exact ⟨path, Include.mem_filePaths_of_resolve? resolved, rfl⟩

theorem isSettled_of_mem_scanEntry {cache : Cache} {machine : Machine} {uri next : Uri} {text : String}
    (taken : next ∈ (cache.scanEntry machine uri text).dependencies) : next.IsSettled := by
  obtain ⟨path, ⟨⟨names, plain, rfl⟩, _⟩, rfl⟩ := mem_dependencies_scanEntry taken
  exact ⟨names, plain, rfl⟩

theorem load?_eq_some_iff (cache : Cache) (machine : Machine) (uri : Uri) (entry : Entry) :
    cache.load? machine uri = some entry ↔
      ∃ path bytes, uri.toPath? = some path ∧ machine.isFile path = true ∧
        machine.read? path = some bytes ∧
        entry = cache.scanEntry machine uri (Utf8.decodeString bytes) := by
  constructor
  · intro loaded
    unfold load? at loaded
    split at loaded
    · cases loaded
    · rename_i path backed
      split at loaded
      · rename_i file
        split at loaded
        · rename_i bytes readable
          exact ⟨path, bytes, backed, file, readable, (Option.some.inj loaded).symm⟩
        · cases loaded
      · cases loaded
  · rintro ⟨path, bytes, backed, file, readable, rfl⟩
    simp [load?, backed, file, readable]

theorem load?_eq_map (cache : Cache) (machine : Machine) (uri : Uri) :
    cache.load? machine uri = (uri.toPath?.bind machine.read?).map fun bytes =>
      cache.scanEntry machine uri (Utf8.decodeString bytes) := by
  -- What can be read is a regular file.
  ext entry
  simp only [load?_eq_some_iff, Option.map_eq_some_iff, Option.bind_eq_some_iff]
  constructor
  · rintro ⟨path, bytes, backed, _, readable, rfl⟩
    exact ⟨bytes, ⟨path, backed, readable⟩, rfl⟩
  · rintro ⟨bytes, ⟨path, backed, readable⟩, rfl⟩
    exact ⟨path, bytes, backed, Machine.isFile_of_read? readable, readable, rfl⟩

theorem effective?_eq_some {cache : Cache} {machine : Machine} {uri : Uri} {entry : Entry}
    (found : cache.effective? machine uri = some entry) :
    cache.entry? uri = some entry ∨
      cache.entry? uri = none ∧ cache.load? machine uri = some entry := by
  simpa [effective?, Option.or_eq_some_iff] using found

theorem exists_documents (cache : Cache) (machine : Machine) (uri : Uri) :
    ∃ documents : List Uri, ∀ place, (cache.view machine).Reaches uri place → place ∈ documents := by
  have files : (Uri.ofPath '' machine.filePaths).Finite := machine.finite_filePaths.image _
  refine ⟨uri :: (cache.entries.toList.flatMap (·.2.dependencies) ++ files.toFinset.toList), fun place reaches => ?_⟩
  rcases Relation.ReflTransGen.cases_tail reaches with rfl | ⟨source, _, entry, found, taken⟩
  · exact List.mem_cons_self ..
  · refine List.mem_cons_of_mem _ (List.mem_append.mpr ?_)
    rcases effective?_eq_some found with stored | ⟨_, loaded⟩
    · have listed : (source, entry) ∈ cache.entries.toList :=
        Std.ExtTreeMap.mem_toList_iff_getElem?_eq_some.mpr stored
      exact .inl (List.mem_flatMap.mpr ⟨(source, entry), listed, taken⟩)
    · obtain ⟨_, bytes, _, _, _, rfl⟩ := (cache.load?_eq_some_iff machine source entry).mp loaded
      obtain ⟨path, file, rfl⟩ := mem_dependencies_scanEntry taken
      right
      rw [Finset.mem_toList, Set.Finite.mem_toFinset]
      exact ⟨path, file, rfl⟩

end AsmIndex.Cache
