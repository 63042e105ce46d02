import AsmIndex.Proofs.Lookup

namespace AsmIndex.Cache

theorem contains_iff (cache : Cache) (uri : Uri) :
    cache.contains uri = true ↔ ∃ entry, cache.entry? uri = some entry := by
  rw [contains, Std.ExtTreeMap.contains_eq_isSome_getElem?, Option.isSome_iff_exists]
  rfl

theorem not_contains_iff (cache : Cache) (uri : Uri) :
    cache.contains uri = false ↔ cache.entry? uri = none := by
  rw [← Bool.not_eq_true, contains_iff, Option.eq_none_iff_forall_ne_some]
  simp

theorem entry?_get_of_stored {cache : Cache} {place : Uri} {entry : Entry}
    (stored : cache.entry? place = some entry) (machine : Machine) (uri : Uri) :
    Cache.entry? (cache.get machine uri).2 place = some entry := by
  have same : cache.entry? place = cache.view machine place := by
    rw [stored, view, effective?_of_stored stored]
  exact ((cache.filledWithin_get machine uri).keeps same).trans (same.symm.trans stored)

theorem entry?_get_of_missing {cache : Cache} {machine : Machine} {uri place : Uri} {entry : Entry}
    (missing : cache.entry? place = none) :
    Cache.entry? (cache.get machine uri).2 place = some entry ↔
      (cache.view machine).Reaches uri place ∧ cache.load? machine place = some entry := by
  have load : cache.view machine place = cache.load? machine place := effective?_of_missing missing machine
  constructor
  · intro stored
    rcases (cache.filledWithin_get machine uri).entries place with same | ⟨reaches, loaded⟩
    · have nothing : some entry = none := stored.symm.trans (same.trans missing)
      cases nothing
    · exact ⟨reaches, load.symm.trans (loaded.symm.trans stored)⟩
  · rintro ⟨reaches, loaded⟩
    exact (entry?_get reaches).trans (load.trans loaded)

theorem exists_file_of_added {cache : Cache} {machine : Machine} {uri place : Uri} {entry : Entry}
    (missing : cache.entry? place = none) (stored : Cache.entry? (cache.get machine uri).2 place = some entry) :
    (cache.view machine).Reaches uri place ∧ ∃ path bytes, place.toPath? = some path ∧
      machine.isFile path = true ∧ machine.read? path = some bytes ∧
      entry = cache.scanEntry machine place (Utf8.decodeString bytes) := by
  obtain ⟨reaches, loaded⟩ := (entry?_get_of_missing missing).mp stored
  exact ⟨reaches, (cache.load?_eq_some_iff machine place entry).mp loaded⟩

/-- After a lookup every stored entry and the search directories are as before. What is added are the
documents that the lookup can come to, that had no entry and whose file can be read, each with the entry
that an update with the decoded content of the file stores. -/
theorem get_footprint (cache : Cache) (machine : Machine) (uri : Uri) :
    let after := (cache.get machine uri).2
    after.includePaths = cache.includePaths ∧
    (∀ place entry, cache.entry? place = some entry → after.entry? place = some entry) ∧
    (∀ place, after.contains place = true ↔
      cache.contains place = true ∨
        cache.contains place = false ∧ (cache.view machine).Reaches uri place ∧
          ∃ path bytes, place.toPath? = some path ∧ machine.isFile path = true ∧
            machine.read? path = some bytes) ∧
    (∀ place, cache.contains place = false → after.contains place = true →
      ∃ path bytes, place.toPath? = some path ∧ machine.isFile path = true ∧ machine.read? path = some bytes ∧
        after.entry? place = Cache.entry? (cache.update machine place (Utf8.decodeString bytes)) place) ∧
    ∀ place, cache.contains place = false →
      (∀ path, place.toPath? = some path → machine.isFile path = false ∨ machine.read? path = none) →
      after.contains place = false := by
  intro after
  refine ⟨(cache.filledWithin_get machine uri).includePaths,
    fun place entry stored => entry?_get_of_stored stored machine uri, fun place => ?_, ?_, ?_⟩
  · simp only [contains_iff, not_contains_iff]
    constructor
    · rintro ⟨entry, stored⟩
      cases before : cache.entry? place with
      | some old => exact .inl ⟨old, rfl⟩
      | none =>
        obtain ⟨reaches, path, bytes, backed, file, readable, _⟩ := exists_file_of_added before stored
        exact .inr ⟨rfl, reaches, path, bytes, backed, file, readable⟩
    · rintro (⟨entry, stored⟩ | ⟨missing, reaches, path, bytes, backed, file, readable⟩)
      · exact ⟨entry, entry?_get_of_stored stored machine uri⟩
      · have loaded := (cache.load?_eq_some_iff machine place _).mpr
          ⟨path, bytes, backed, file, readable, rfl⟩
        exact ⟨_, (entry?_get_of_missing missing).mpr ⟨reaches, loaded⟩⟩
  · intro place missing present
    rw [not_contains_iff] at missing
    obtain ⟨entry, stored⟩ := (contains_iff _ place).mp present
    obtain ⟨_, path, bytes, backed, file, readable, rfl⟩ := exists_file_of_added missing stored
    exact ⟨path, bytes, backed, file, readable, stored.trans (cache.entry?_update_self machine place _).symm⟩
  · intro place missing unreadable
    rw [not_contains_iff] at missing ⊢
    refine Option.eq_none_iff_forall_ne_some.mpr fun entry stored => ?_
    obtain ⟨_, path, bytes, backed, file, readable, _⟩ := exists_file_of_added missing stored
    rcases unreadable path backed with absent | failed
    · simp [absent] at file
    · simp [failed] at readable

/-- A header that can be read is added with its entry. A regular file that cannot be read is found as an include,
and not added. -/
theorem included_header_footprint :
    let machine : Machine :=
      ⟨(Disk.empty.write (.ofString "/a.h") (Utf8.encodeString "#define A 1\n")).put (.ofString "/b.h") (.file 7),
        .ofString "/", .ofString "/"⟩
    let header := Uri.ofPath (.ofString "/a.h")
    let unreadable := Uri.ofPath (.ofString "/b.h")
    let main := Uri.ofPath (.ofString "/m.S")
    let cache := Cache.empty.update machine main "#include \"a.h\"\n#include \"b.h\"\n"
    let after := (cache.get machine main).2
    (cache.contains header = false ∧ after.contains header = true ∧
      after.entry? header = Cache.entry? (cache.update machine header "#define A 1\n") header) ∧
    (cache.view machine).Depends main unreadable ∧ after.contains unreadable = false := by
  intro machine header unreadable main cache after
  have missing : cache.contains header = false := by decide +kernel
  have backed : header.toPath? = some (.ofString "/a.h") := by decide +kernel
  have file : machine.isFile (.ofString "/a.h") = true := by decide +kernel
  have content : machine.read? (.ofString "/a.h") = some (Utf8.encodeString "#define A 1\n") := by
    decide +kernel
  have stored : cache.view machine main = some _ :=
    effective?_of_stored (Cache.empty.entry?_update_self machine main _) machine
  have taken : header ∈ (Cache.empty.scanEntry machine main
      "#include \"a.h\"\n#include \"b.h\"\n").dependencies := by
    decide +kernel
  have depends : unreadable ∈ (Cache.empty.scanEntry machine main
      "#include \"a.h\"\n#include \"b.h\"\n").dependencies := by
    decide +kernel
  obtain ⟨_, _, keys, added, never⟩ := get_footprint cache machine main
  have present : after.contains header = true :=
    (keys header).mpr (.inr ⟨missing, .single ⟨_, stored, taken⟩, _, _, backed, file, content⟩)
  obtain ⟨path, bytes, again, _, read, entry⟩ := added header missing present
  obtain rfl := Option.some.inj (backed.symm.trans again)
  obtain rfl := Option.some.inj (content.symm.trans read)
  have text : Utf8.decodeString (Utf8.encodeString "#define A 1\n") = "#define A 1\n" := by decide +kernel
  rw [text] at entry
  refine ⟨⟨missing, present, entry⟩, ⟨_, stored, depends⟩, never unreadable (by decide +kernel) ?_⟩
  intro path backed
  have own : unreadable.toPath? = some (.ofString "/b.h") := by decide +kernel
  obtain rfl := Option.some.inj (own.symm.trans backed)
  exact .inr (by decide +kernel)

end AsmIndex.Cache
