import AsmIndex.Proofs.OpenBuffers

namespace AsmIndex

namespace Server

/-- Apart from stale documents, the buffers have the entries that an update would store now, and all others
those that would be loaded now. -/
structure CurrentBut (server : Server) (machine : Machine) (stale : Uri → Prop) : Prop where
  buffers : ∀ uri text, server.buffers[uri]? = some text →
    server.cache.entry? uri = some (server.cache.scanEntry machine uri text)
  others : ∀ uri entry, server.buffers[uri]? = none → server.cache.entry? uri = some entry →
    ¬ stale uri → server.cache.load? machine uri = some entry

theorem CurrentBut.mono {server : Server} {machine : Machine} {stale more : Uri → Prop}
    (current : server.CurrentBut machine stale) (within : ∀ uri, stale uri → more uri) :
    server.CurrentBut machine more where
  buffers := current.buffers
  others uri entry closed stored fresh :=
    current.others uri entry closed stored fun old => fresh (within uri old)

def Current (server : Server) (machine : Machine) : Prop :=
  server.CurrentBut machine fun _ => False

def text? (server : Server) (machine : Machine) (place : Uri) : Option String :=
  server.buffers[place]?.or ((place.toPath?.bind machine.read?).map Utf8.decodeString)

def freshView (server : Server) (machine : Machine) : View := fun place =>
  (server.text? machine place).map (server.cache.scanEntry machine place)

theorem freshView_of_open {server : Server} {place : Uri} {text : String}
    (held : server.buffers[place]? = some text) (machine : Machine) :
    server.freshView machine place = some (server.cache.scanEntry machine place text) := by
  simp [freshView, text?, held]

theorem freshView_of_closed {server : Server} {place : Uri} (closed : server.buffers[place]? = none)
    (machine : Machine) : server.freshView machine place = server.cache.load? machine place := by
  rw [freshView, text?, closed, Option.none_or, Option.map_map, Cache.load?_eq_map]
  rfl

theorem Current.view {server : Server} {machine : Machine} (current : server.Current machine) :
    server.cache.view machine = server.freshView machine := by
  funext place
  cases held : server.buffers[place]? with
  | some text =>
    rw [freshView_of_open held]
    exact Cache.effective?_of_stored (current.buffers place text held) machine
  | none =>
    rw [freshView_of_closed held]
    cases stored : server.cache.entry? place with
    | none => exact Cache.effective?_of_missing stored machine
    | some entry =>
      rw [Cache.view, Cache.effective?_of_stored stored, current.others place entry held stored not_false]

theorem Current.isSettled {server : Server} {machine : Machine} (current : server.Current machine)
    {source next : Uri} (depends : (server.cache.view machine).Depends source next) : next.IsSettled := by
  obtain ⟨entry, found, taken⟩ := depends
  rw [current.view] at found
  obtain ⟨text, _, rfl⟩ := Option.map_eq_some_iff.mp found
  exact Cache.isSettled_of_mem_scanEntry taken

theorem current_emptied (server : Server) (machine : Machine) : server.emptied.Current machine := by
  constructor
  · intro uri text held
    exact absurd (Std.ExtTreeMap.getElem?_empty.symm.trans held) (by simp)
  · intro uri entry _ stored _
    exact absurd ((server.cache.entry?_clear uri).symm.trans stored) (by simp)

theorem Current.get {server : Server} {machine : Machine} (current : server.Current machine) (uri : Uri) :
    ({ server with cache := (server.cache.get machine uri).2 } : Server).Current machine := by
  have paths : (server.cache.get machine uri).2.includePaths = server.cache.includePaths :=
    (server.cache.filledWithin_get machine uri).includePaths
  constructor
  · intro place text held
    dsimp only at held ⊢
    rw [Cache.scanEntry_congr paths]
    exact Cache.entry?_get_of_stored (current.buffers place text held) machine uri
  · intro place entry closed stored _
    dsimp only at closed stored ⊢
    have found := Cache.effective?_of_stored stored machine
    rw [← Cache.view, server.cache.view_get machine uri, current.view, freshView_of_closed closed] at found
    rwa [Cache.load?_congr paths]

theorem view_updateAll_clear (server : Server) (machine : Machine) {order : List (Uri × String)}
    (listed : order.Perm server.buffers.toList) :
    (server.cache.clear.updateAll machine order).view machine = server.freshView machine := by
  funext place
  have paths : (server.cache.clear.updateAll machine order).includePaths = server.cache.includePaths := by
    rw [Cache.updateAll_eq_insertAll]
    rfl
  have scan : server.cache.clear.scanEntry machine = server.cache.scanEntry machine :=
    Cache.scanEntry_congr rfl machine
  rw [Cache.view, Cache.effective?, Cache.entry?_updateAll listed, Cache.entry?_clear,
    Cache.load?_congr paths, scan, Option.or_none]
  cases held : server.buffers[place]? with
  | some text => exact (freshView_of_open held machine).symm
  | none => exact (freshView_of_closed held machine).symm

/-- Of the cache, a question about a document takes nothing but the symbols of the document. -/
theorem answer_congr (server : Server) {machine : Machine} {cache other : Cache} {query : Query} {uri : Uri}
    (asked : query.uri? = some uri) (table : (other.get machine uri).1 = (cache.get machine uri).1) :
    ({ server with cache := other }.answer machine query).1 =
      ({ server with cache := cache }.answer machine query).1 := by
  have buffer {α : Type} (make : String → SymbolTable → α) :
      ({ server with cache := other }.withBuffer machine uri make).1 =
        ({ server with cache := cache }.withBuffer machine uri make).1 := by
    unfold withBuffer
    cases server.buffers[uri]? with
    | none => rfl
    | some text => simp only [table]
  cases query with
  | hover place position | completion place position | definition place position =>
    obtain rfl := Option.some.inj asked
    simp only [answer, buffer]
  | tokens place =>
    obtain rfl := Option.some.inj asked
    simp only [answer]
    split
    · simp only [buffer]
    · rfl
  | outline place =>
    obtain rfl := Option.some.inj asked
    simp only [answer, table]
  | search text => cases asked

theorem answer_definition_of_visit {server : Server} {machine : Machine} {uri : Uri} {text : String}
    (held : server.buffers[uri]? = some text) (position : Position) (budget : Nat)
    (ends : (Cache.visit machine budget [] server.cache uri).isSome) :
    server.answer machine (.definition uri position) =
      (.definition (definition? ((Cache.visit machine budget [] server.cache uri).getD (.empty, server.cache)).1 text
        position),
      { server with cache := ((Cache.visit machine budget [] server.cache uri).getD (.empty, server.cache)).2 }) := by
  simp [answer, withBuffer, held, Cache.get_eq_visit ends]

/-- A current server answers as one that has just opened the same buffers. -/
theorem Current.answer {server : Server} {machine : Machine} (current : server.Current machine)
    {query : Query} (asked : query.uri?.isSome = true) {order : List (Uri × String)}
    (listed : order.Perm server.buffers.toList) :
    (server.answer machine query).1 =
      ((server.emptied.openAll machine order).answer machine query).1 := by
  obtain ⟨uri, asked⟩ := Option.isSome_iff_exists.mp asked
  rw [openAll_emptied server machine listed]
  have table : (server.cache.get machine uri).1 =
      ((server.cache.clear.updateAll machine order).get machine uri).1 := by
    refine Cache.get_congr fun place _ => ?_
    rw [current.view, view_updateAll_clear server machine listed]
  exact server.answer_congr asked table

theorem CurrentBut.handle {server : Server} {machine : Machine} {event : Event} {stale : Uri → Prop}
    (current : (∀ change ∈ event.reported, change.created = false) → server.CurrentBut machine stale) :
    (server.handle machine event).1.CurrentBut machine fun uri =>
      stale uri ∧ ⟨uri, false⟩ ∉ event.reported := by
  constructor
  · intro uri text held
    cases server.handled machine event uri with
    | scanned sent opened stored =>
      obtain rfl := Option.some.inj (opened.symm.trans held)
      exact stored
    | dropped closed _ => exact absurd (closed.symm.trans held) (by simp)
    | kept buffer same paths uncreated _ =>
      rw [same, (current uncreated).buffers uri text (buffer.symm.trans held),
        Cache.scanEntry_congr paths]
  · intro uri entry closed stored fresh
    cases server.handled machine event uri with
    | scanned text held _ => exact absurd (held.symm.trans closed) (by simp)
    | dropped _ missing => exact absurd (missing.symm.trans stored) (by simp)
    | kept buffer same paths uncreated unreported =>
      rw [Cache.load?_congr paths]
      refine (current uncreated).others uri entry (buffer.symm.trans closed) (same.symm.trans stored) ?_
      exact fun old => fresh ⟨old, unreported closed⟩

theorem emptied_answer (server : Server) (machine : Machine) (query : Query) :
    (server.answer machine query).2.emptied = server.emptied := by
  rcases server.answer_server machine query with same | ⟨uri, _, same⟩
  · rw [same]
  · rw [same]
    exact server.emptied_of_paths server.buffers
      (server.cache.filledWithin_get machine uri).includePaths

end Server

end AsmIndex
