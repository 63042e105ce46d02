import AsmIndex.Proofs.Rescan

namespace AsmIndex

namespace Event

def reported : Event → List FileChange
  | .filesChanged changes => changes
  | _ => []

end Event

namespace Server

theorem entry?_dropChanged_of_open {buffers : UriMap String} {place : Uri} (held : place ∈ buffers)
    (changes : List FileChange) (cache : Cache) :
    Cache.entry? (changes.foldl (dropChanged buffers) cache) place = cache.entry? place := by
  induction changes generalizing cache with
  | nil => rfl
  | cons change changes ih =>
    rw [List.foldl_cons, ih, dropChanged]
    split
    · rfl
    · rename_i dropped
      rw [Cache.entry?_delete, if_neg]
      rintro rfl
      exact dropped (by simp [held])

theorem entry?_dropChanged_of_closed {buffers : UriMap String} {place : Uri}
    (closed : buffers[place]? = none) (changes : List FileChange) (cache : Cache) :
    Cache.entry? (changes.foldl (dropChanged buffers) cache) place =
      if ⟨place, false⟩ ∈ changes then none else cache.entry? place := by
  induction changes generalizing cache with
  | nil => rfl
  | cons change changes ih =>
    obtain ⟨uri, created⟩ := change
    rw [List.foldl_cons, ih]
    cases created with
    | true => simp [dropChanged]
    | false =>
      by_cases same : place = uri
      · subst same
        simp [dropChanged, Std.ExtTreeMap.contains_eq_isSome_getElem?, closed, Cache.entry?_delete]
      · have kept : Cache.entry? (dropChanged buffers cache ⟨uri, false⟩) place = cache.entry? place := by
          unfold dropChanged
          split
          · rfl
          · rw [Cache.entry?_delete, if_neg same]
        simp [kept, same]

def emptied (server : Server) : Server :=
  { server with cache := server.cache.clear, buffers := ∅ }

theorem openAll_emptied (server : Server) (machine : Machine) {order : List (Uri × String)}
    (listed : order.Perm server.buffers.toList) :
    server.emptied.openAll machine order =
      { server with cache := server.cache.clear.updateAll machine order } := by
  have buffers : UriMap.insertAll server.emptied.buffers (fun _ text => text) order = server.buffers :=
    insertAll_buffers listed
  rw [openAll_eq_updateAll, buffers]
  rfl

/-- What an event can do to a document: scan its buffer, drop it, or leave it as it is. -/
inductive Handled (server next : Server) (machine : Machine) (event : Event) (place : Uri) : Prop
  | scanned (text : String) (held : next.buffers[place]? = some text)
    (stored : next.cache.entry? place = some (next.cache.scanEntry machine place text))
  | dropped (closed : next.buffers[place]? = none) (missing : next.cache.entry? place = none)
  | kept (buffer : next.buffers[place]? = server.buffers[place]?)
    (entry : next.cache.entry? place = server.cache.entry? place)
    (paths : next.cache.includePaths = server.cache.includePaths)
    (uncreated : ∀ change ∈ event.reported, change.created = false)
    (unreported : next.buffers[place]? = none → ⟨place, false⟩ ∉ event.reported)

theorem handled_setBuffer (server : Server) (machine : Machine) (uri : Uri) (text : String) {event : Event}
    (silent : event.reported = []) (place : Uri) :
    Handled server (server.setBuffer machine uri text) machine event place := by
  have buffer : (server.setBuffer machine uri text).buffers[place]? =
      if place = uri then some text else server.buffers[place]? :=
    UriMap.getElem?_insert_uri _ _ _ _
  have entry : Cache.entry? (server.setBuffer machine uri text).cache place =
      if place = uri then some (server.cache.scanEntry machine uri text) else server.cache.entry? place :=
    Cache.entry?_store _ _ _ _
  by_cases same : place = uri
  · subst same
    rw [if_pos rfl] at buffer entry
    exact .scanned text buffer entry
  · rw [if_neg same] at buffer entry
    exact .kept buffer entry rfl (by simp [silent]) (by simp [silent])

theorem handled_close (server : Server) (machine : Machine) (uri place : Uri) :
    Handled server (server.handle machine (.closed uri)).1 machine (.closed uri) place := by
  have buffer : (server.handle machine (.closed uri)).1.buffers[place]? =
      if place = uri then none else server.buffers[place]? :=
    UriMap.getElem?_erase_uri _ _ _
  have entry : Cache.entry? (server.handle machine (.closed uri)).1.cache place =
      if place = uri then none else server.cache.entry? place :=
    Cache.entry?_delete _ _ _
  by_cases same : place = uri
  · rw [if_pos same] at buffer entry
    exact .dropped buffer entry
  · rw [if_neg same] at buffer entry
    exact .kept buffer entry rfl (by simp [Event.reported]) (by simp [Event.reported])

theorem handled_openAll (server fresh : Server) (machine : Machine) (event : Event) (place : Uri)
    {buffers : UriMap String} :
    Handled server (fresh.emptied.openAll machine buffers.toList) machine event place := by
  have opened : fresh.emptied.openAll machine buffers.toList =
      { fresh with buffers, cache := fresh.cache.clear.updateAll machine buffers.toList } :=
    openAll_emptied { fresh with buffers } machine (.refl _)
  have paths : (fresh.cache.clear.updateAll machine buffers.toList).includePaths =
      fresh.cache.clear.includePaths := by
    rw [Cache.updateAll_eq_insertAll]
  have entry := Cache.entry?_updateAll (.refl buffers.toList) fresh.cache.clear machine place
  rw [Cache.entry?_clear, Option.or_none, ← Cache.scanEntry_congr paths] at entry
  rw [opened]
  cases held : buffers[place]? with
  | some text =>
    rw [held] at entry
    exact .scanned text held entry
  | none =>
    rw [held] at entry
    exact .dropped held entry

theorem handled (server : Server) (machine : Machine) (event : Event) (place : Uri) :
    Handled server (server.handle machine event).1 machine event place := by
  cases event with
  | opened uri text => exact server.handled_setBuffer machine uri text rfl place
  | changed uri texts =>
    cases last : texts.getLast? with
    | none =>
      have unchanged : (server.handle machine (.changed uri texts)).1 = server := by
        simp [handle, handleAlong, last]
      rw [unchanged]
      exact .kept rfl rfl rfl (by simp [Event.reported]) (by simp [Event.reported])
    | some text =>
      have sent : (server.handle machine (.changed uri texts)).1 = server.setBuffer machine uri text := by
        simp [handle, handleAlong, last]
      rw [sent]
      exact server.handled_setBuffer machine uri text rfl place
  | closed uri => exact server.handled_close machine uri place
  | configured values =>
    rw [handle, server.handleAlong_configured machine (.refl _) values (.refl _)]
    exact handled_openAll server
      (Server.new.setUp machine server.root? server.capabilities (.ofJson values)).1 machine _ place
  | filesChanged changes =>
    by_cases created : changes.any FileChange.created = true
    · rw [handle, server.handleAlong_created machine (.refl _) created (.refl _),
        ← openAll_emptied server machine (.refl _)]
      exact handled_openAll server server machine _ place
    · have cache : (server.handle machine (.filesChanged changes)).1.cache =
          changes.foldl (dropChanged server.buffers) server.cache := if_neg created
      have paths := dropChanged_includePaths server.buffers changes server.cache
      have uncreated : ∀ change ∈ changes, change.created = false := by simpa using created
      cases held : server.buffers[place]? with
      | some text =>
        have isOpen : place ∈ server.buffers := by
          rw [Std.ExtTreeMap.mem_iff_isSome_getElem?, held]
          rfl
        refine .kept rfl ?_ (cache ▸ paths) uncreated ?_
        · rw [cache, entry?_dropChanged_of_open isOpen]
        · intro closed
          exact absurd (held.symm.trans closed) (by simp)
      | none =>
        have entry := entry?_dropChanged_of_closed held changes server.cache
        rw [← cache] at entry
        by_cases reported : ⟨place, false⟩ ∈ changes
        · rw [if_pos reported] at entry
          exact .dropped held entry
        · rw [if_neg reported] at entry
          exact .kept rfl entry (cache ▸ paths) uncreated fun _ => reported

theorem emptied_of_paths (server : Server) (buffers : UriMap String) {cache : Cache}
    (paths : cache.includePaths = server.cache.includePaths) :
    ({ server with cache, buffers } : Server).emptied = server.emptied := by
  unfold emptied Cache.clear
  rw [paths]

theorem emptied_openAll (server : Server) (machine : Machine) (texts : List (Uri × String)) :
    (server.openAll machine texts).emptied = server.emptied := by
  rw [openAll_eq_updateAll]
  refine server.emptied_of_paths _ ?_
  rw [Cache.updateAll_eq_insertAll]

theorem emptied_handle (server : Server) (machine : Machine) (event : Event) :
    (server.handle machine event).1.emptied =
      match event with
      | .configured values =>
        (Server.new.setUp machine server.root? server.capabilities (.ofJson values)).1
      | _ => server.emptied := by
  cases event with
  | opened uri text => rfl
  | changed uri texts =>
    cases last : texts.getLast? with
    | none => simp [handle, handleAlong, last]
    | some text =>
      simp only [handle, handleAlong, last]
      rfl
  | closed uri => rfl
  | filesChanged changes =>
    by_cases created : changes.any FileChange.created = true
    · rw [handle, server.handleAlong_created machine (.refl _) created (.refl _),
        ← openAll_emptied server machine (.refl _), emptied_openAll]
      rfl
    · refine server.emptied_of_paths server.buffers ?_
      rw [applyChanges, if_neg created]
      exact dropChanged_includePaths server.buffers changes server.cache
  | configured values =>
    rw [handle, server.handleAlong_configured machine (.refl _) values (.refl _), emptied_openAll]
    rfl

end Server

end AsmIndex
