import AsmIndex.Proofs.Canonical
import AsmIndex.Proofs.Lookup
import AsmIndex.Server.Params

namespace AsmIndex

namespace UriMap

def insertAll {α β : Type} (map : UriMap β) (value : Uri → α → β) (items : List (Uri × α)) : UriMap β :=
  items.foldl (fun map (uri, item) => map.insert uri (value uri item)) map

theorem getElem?_insert_uri {β : Type} (map : UriMap β) (uri place : Uri) (value : β) :
    (map.insert uri value)[place]? = if place = uri then some value else map[place]? := by
  simp only [Std.ExtTreeMap.getElem?_insert, Std.LawfulEqCmp.compare_eq_iff_eq, eq_comm (a := uri)]

theorem getElem?_erase_uri {β : Type} (map : UriMap β) (uri place : Uri) :
    (map.erase uri)[place]? = if place = uri then none else map[place]? := by
  simp only [Std.ExtTreeMap.getElem?_erase, Std.LawfulEqCmp.compare_eq_iff_eq, eq_comm (a := uri)]

theorem getElem?_insertAll_of_absent {α β : Type} (value : Uri → α → β) {items : List (Uri × α)}
    {place : Uri} (absent : ∀ item, (place, item) ∉ items) (map : UriMap β) :
    (insertAll map value items)[place]? = map[place]? := by
  induction items generalizing map with
  | nil => rfl
  | cons first items ih =>
    obtain ⟨uri, item⟩ := first
    have other : place ≠ uri := by
      rintro rfl
      exact absent item (by simp)
    have rest := ih (fun later member => absent later (List.mem_cons_of_mem _ member))
      (map.insert uri (value uri item))
    rw [getElem?_insert_uri, if_neg other] at rest
    exact rest

theorem getElem?_insertAll_of_mem {α β : Type} (value : Uri → α → β) {items : List (Uri × α)}
    (distinct : items.Pairwise fun first later => first.1 ≠ later.1) {place : Uri} {item : α}
    (member : (place, item) ∈ items) (map : UriMap β) :
    (insertAll map value items)[place]? = some (value place item) := by
  induction items generalizing map with
  | nil => simp at member
  | cons first items ih =>
    obtain ⟨fresh, distinct⟩ := List.pairwise_cons.mp distinct
    rcases List.mem_cons.mp member with rfl | member
    · have absent : ∀ later, (place, later) ∉ items := fun later again => fresh _ again rfl
      have rest := getElem?_insertAll_of_absent value absent (map.insert place (value place item))
      rw [getElem?_insert_uri, if_pos rfl] at rest
      exact rest
    · exact ih distinct member _

theorem getElem?_insertAll {α β : Type} (value : Uri → α → β) {source : UriMap α}
    {items : List (Uri × α)} (listed : items.Perm source.toList) (map : UriMap β) (place : Uri) :
    (insertAll map value items)[place]? = (source[place]?.map (value place)).or map[place]? := by
  have member (item : α) : (place, item) ∈ items ↔ source[place]? = some item := by
    rw [listed.mem_iff, Std.ExtTreeMap.mem_toList_iff_getElem?_eq_some]
  have distinct : items.Pairwise fun first later => first.1 ≠ later.1 := by
    have keys : source.toList.Pairwise fun first later => first.1 ≠ later.1 := by
      refine Std.ExtTreeMap.distinct_keys_toList.imp fun differ same => differ ?_
      exact Std.LawfulEqCmp.compare_eq_iff_eq.mpr same
    exact (listed.pairwise_iff fun differ => differ.symm).mpr keys
  cases held : source[place]? with
  | none =>
    rw [getElem?_insertAll_of_absent value (by simp [member, held])]
    rfl
  | some item =>
    rw [getElem?_insertAll_of_mem value distinct ((member item).mpr held)]
    rfl

end UriMap

namespace Cache

theorem eq_of_entries {cache other : Cache} (paths : other.includePaths = cache.includePaths)
    (same : ∀ place : Uri, other.entries[place]? = cache.entries[place]?) : other = cache := by
  have entries : other.entries = cache.entries := Std.ExtTreeMap.ext_getElem? same
  cases cache
  cases other
  simp_all

theorem scanEntry_congr {cache other : Cache} (same : other.includePaths = cache.includePaths)
    (machine : Machine) : other.scanEntry machine = cache.scanEntry machine := by
  funext uri text
  unfold scanEntry
  rw [same]

theorem entry?_delete (cache : Cache) (uri place : Uri) :
    Cache.entry? (cache.delete uri) place = if place = uri then none else cache.entry? place :=
  UriMap.getElem?_erase_uri cache.entries uri place

theorem entry?_retain (cache : Cache) (keep : Uri → Bool) (place : Uri) :
    Cache.entry? (cache.retain keep) place = if keep place then cache.entry? place else none := by
  simp only [retain, entry?, Std.ExtTreeMap.getElem?_filter']
  cases cache.entries[place]? with
  | none => simp
  | some entry => cases keep place <;> simp

theorem entry?_clear (cache : Cache) (place : Uri) : Cache.entry? cache.clear place = none :=
  Std.ExtTreeMap.getElem?_empty

theorem updateAll_eq_insertAll (cache : Cache) (machine : Machine) (texts : List (Uri × String)) :
    cache.updateAll machine texts =
      { cache with entries := UriMap.insertAll cache.entries (cache.scanEntry machine) texts } := by
  induction texts generalizing cache with
  | nil => rfl
  | cons first texts ih =>
    obtain ⟨uri, text⟩ := first
    have rest := ih (cache.update machine uri text)
    rw [scanEntry_congr (rfl : (cache.update machine uri text).includePaths = cache.includePaths)] at rest
    exact rest

theorem entry?_updateAll {buffers : UriMap String} {texts : List (Uri × String)}
    (listed : texts.Perm buffers.toList) (cache : Cache) (machine : Machine) (place : Uri) :
    Cache.entry? (cache.updateAll machine texts) place =
      (buffers[place]?.map (cache.scanEntry machine place)).or (cache.entry? place) := by
  rw [updateAll_eq_insertAll]
  exact UriMap.getElem?_insertAll _ listed _ place

theorem updateAll_congr {buffers : UriMap String} {texts others : List (Uri × String)}
    (listed : texts.Perm buffers.toList) (otherListed : others.Perm buffers.toList)
    {cache other : Cache} (paths : other.includePaths = cache.includePaths) (machine : Machine)
    (same : ∀ place, buffers[place]? = none → other.entry? place = cache.entry? place) :
    other.updateAll machine others = cache.updateAll machine texts := by
  refine eq_of_entries ?_ fun place => ?_
  · rw [updateAll_eq_insertAll, updateAll_eq_insertAll]
    exact paths
  · change Cache.entry? (other.updateAll machine others) place =
      Cache.entry? (cache.updateAll machine texts) place
    rw [entry?_updateAll otherListed, entry?_updateAll listed, scanEntry_congr paths]
    cases held : buffers[place]? with
    | none => rw [same place held]
    | some text => rfl

end Cache

namespace Server

def openAll (server : Server) (machine : Machine) (texts : List (Uri × String)) : Server :=
  texts.foldl (fun server (uri, text) => (server.handle machine (.opened uri text)).1) server

theorem openAll_eq_updateAll (server : Server) (machine : Machine) (texts : List (Uri × String)) :
    server.openAll machine texts =
      { server with
        cache := server.cache.updateAll machine texts
        buffers := UriMap.insertAll server.buffers (fun _ text => text) texts } := by
  induction texts generalizing server with
  | nil => rfl
  | cons first texts ih => exact ih _

theorem insertAll_buffers {buffers : UriMap String} {texts : List (Uri × String)}
    (listed : texts.Perm buffers.toList) : UriMap.insertAll ∅ (fun _ text => text) texts = buffers := by
  apply Std.ExtTreeMap.ext_getElem?
  intro place
  rw [UriMap.getElem?_insertAll _ listed]
  cases buffers[place]? <;> simp

end Server

namespace Params

theorem start_eq_ok {fields : List (String × Json)} {start : Start}
    (read : Params.start (.object fields) = .ok start) :
    find (.object fields) "capabilities" capabilities = .ok (some start.capabilities) ∧
      ∃ options?, find (.object fields) "initializationOptions" (nullable anything) = .ok options? ∧
        start.client = (options?.join.map ClientSettings.ofJson).getD ClientSettings.empty := by
  unfold Params.start at read
  obtain ⟨params, same, read⟩ := bind_eq_ok read
  obtain rfl : Json.object fields = params := Except.ok.inj same
  obtain ⟨capabilities?, found, read⟩ := bind_eq_ok read
  obtain ⟨_, _, read⟩ := bind_eq_ok read
  obtain ⟨options?, options, read⟩ := bind_eq_ok read
  obtain ⟨_, _, read⟩ := bind_eq_ok read
  obtain ⟨_, _, read⟩ := bind_eq_ok read
  obtain ⟨_, _, read⟩ := bind_eq_ok read
  obtain ⟨_, _, read⟩ := bind_eq_ok read
  obtain ⟨_, _, read⟩ := bind_eq_ok read
  obtain ⟨_, _, read⟩ := bind_eq_ok read
  obtain ⟨taken, required, read⟩ := bind_eq_ok read
  obtain rfl := Except.ok.inj read
  refine ⟨?_, options?, options, rfl⟩
  cases capabilities? with
  | none => cases required
  | some given =>
    obtain rfl := Except.ok.inj required
    exact found

theorem client_of_start {fields : List (String × Json)} {start : Start} {values : Json}
    (read : Params.start (.object fields) = .ok start)
    (given : (Json.object fields).field? "initializationOptions" = some values) :
    start.client = .ofJson values := by
  obtain ⟨_, options?, found, client⟩ := start_eq_ok read
  rw [client]
  rw [find, given] at found
  cases values <;> (obtain rfl := Except.ok.inj found; rfl)

end Params

namespace Server

theorem handleAlong_configured (server : Server) (machine : Machine) {walk : List (Uri × String)}
    (walked : walk.Perm server.buffers.toList) (values : Json) {order : List (Uri × String)}
    (listed : order.Perm server.buffers.toList) :
    (server.handleAlong machine walk (.configured values)).1 =
      (Server.new.setUp machine server.root? server.capabilities (.ofJson values)).1.openAll
        machine order := by
  let fresh := (Server.new.setUp machine server.root? server.capabilities (.ofJson values)).1
  have handled : (server.handleAlong machine walk (.configured values)).1 =
      { fresh with
        cache := (server.cache.clear.setIncludePaths fresh.cache.includePaths).updateAll machine walk
        buffers := server.buffers } := rfl
  have cache : (server.cache.clear.setIncludePaths fresh.cache.includePaths).updateAll machine walk =
      fresh.cache.updateAll machine order :=
    Cache.updateAll_congr listed walked rfl machine fun _ _ => rfl
  have buffers : UriMap.insertAll fresh.buffers (fun _ text => text) order = server.buffers :=
    insertAll_buffers listed
  rw [handled, cache, openAll_eq_updateAll, buffers]

theorem dropChanged_includePaths (buffers : UriMap String) (changes : List FileChange) (cache : Cache) :
    (changes.foldl (dropChanged buffers) cache).includePaths = cache.includePaths := by
  induction changes generalizing cache with
  | nil => rfl
  | cons change changes ih =>
    rw [List.foldl_cons, ih, dropChanged]
    split <;> rfl

theorem handleAlong_created (server : Server) (machine : Machine) {walk : List (Uri × String)}
    (walked : walk.Perm server.buffers.toList) {changes : List FileChange}
    (created : changes.any FileChange.created = true) {order : List (Uri × String)}
    (listed : order.Perm server.buffers.toList) :
    (server.handleAlong machine walk (.filesChanged changes)).1 =
      { server with cache := server.cache.clear.updateAll machine order } := by
  let left := (changes.foldl (dropChanged server.buffers) server.cache).retain fun uri =>
    server.buffers.contains uri
  have handled : (server.handleAlong machine walk (.filesChanged changes)).1 =
      { server with cache := server.applyChanges machine walk changes } := rfl
  have rescanned : server.applyChanges machine walk changes = left.updateAll machine walk := by
    rw [applyChanges, if_pos created]
  have paths : left.includePaths = server.cache.clear.includePaths :=
    dropChanged_includePaths server.buffers changes server.cache
  rw [handled, rescanned, Cache.updateAll_congr listed walked paths]
  intro place closed
  have gone : server.buffers.contains place = false := by
    rw [Std.ExtTreeMap.contains_eq_isSome_getElem?, closed]
    rfl
  rw [Cache.entry?_retain, gone, Cache.entry?_clear]
  rfl

/-- The order in which the buffers are scanned again shows nowhere. -/
theorem handleAlong_eq_handle (server : Server) (machine : Machine) {walk : List (Uri × String)}
    (walked : walk.Perm server.buffers.toList) (event : Event) :
    (server.handleAlong machine walk event).1 = (server.handle machine event).1 := by
  cases event with
  | opened uri text | changed uri texts | closed uri => rfl
  | configured values =>
    rw [handle, handleAlong_configured server machine walked values (.refl _),
      handleAlong_configured server machine (.refl _) values (.refl _)]
  | filesChanged changes =>
    by_cases created : changes.any FileChange.created = true
    · rw [handle, handleAlong_created server machine walked created (.refl _),
        handleAlong_created server machine (.refl _) created (.refl _)]
    · simp only [handle, handleAlong, applyChanges, if_neg created]

/-- After new settings the server is the one that would have been started with them, and after news of
a created file its cache is the one scanned anew. In both cases it does not matter in which order the buffers are
scanned, here or there. -/
theorem rescan_eq_restart (server : Server) (machine : Machine) :
    (∀ walk values order, walk.Perm server.buffers.toList → order.Perm server.buffers.toList →
      (server.handleAlong machine walk (.configured values)).1 =
        (Server.new.setUp machine server.root? server.capabilities (.ofJson values)).1.openAll
          machine order) ∧
    (∀ fields start values, Params.start (.object fields) = .ok start →
      (Json.object fields).field? "initializationOptions" = some values →
      start.client = .ofJson values) ∧
    ∀ walk changes order, walk.Perm server.buffers.toList → changes.any FileChange.created = true →
      order.Perm server.buffers.toList →
      (server.handleAlong machine walk (.filesChanged changes)).1 =
        { server with cache := server.cache.clear.updateAll machine order } := by
  refine ⟨?_, ?_, ?_⟩
  · intro walk values order walked listed
    exact server.handleAlong_configured machine walked values listed
  · intro fields start values read given
    exact Params.client_of_start read given
  · intro walk changes order walked created listed
    exact server.handleAlong_created machine walked created listed

theorem two_buffers_rescan_eq_restart :
    let machine : Machine :=
      ⟨Disk.empty.write (.ofString "/inc/a.h") (Utf8.encodeString "#define A 1\n"),
        .ofString "/", .ofString "/"⟩
    let server := (Server.new.setBuffer machine (Uri.ofPath (.ofString "/m.S"))
      "#include \"a.h\"\n").setBuffer machine (Uri.ofPath (.ofString "/n.S")) "n:\n"
    let order := server.buffers.toList.reverse
    let values := Json.object [("includePaths", .array [.string "/inc"])]
    let fields := [("capabilities", .object []), ("initializationOptions", values)]
    let changes : List FileChange :=
      [⟨Uri.ofPath (.ofString "/m.S"), false⟩, ⟨Uri.ofPath (.ofString "/inc/a.h"), true⟩]
    (server.handleAlong machine order (.configured values)).1 =
        (Server.new.setUp machine none ⟨none⟩ (.ofJson values)).1.openAll machine order ∧
      (∃ start, Params.start (.object fields) = .ok start ∧ start.client = .ofJson values) ∧
      (server.handleAlong machine order (.filesChanged changes)).1 =
        { server with cache := server.cache.clear.updateAll machine order } := by
  intro machine server order values fields changes
  have listed : order.Perm server.buffers.toList := List.reverse_perm _
  obtain ⟨configured, client, created⟩ := rescan_eq_restart server machine
  have read : Params.start (.object fields) = .ok ⟨⟨none⟩, .ofJson values, none⟩ := rfl
  exact ⟨configured order values order listed listed, ⟨_, read, client fields _ values read rfl⟩,
    created order changes order listed rfl listed⟩

end Server

end AsmIndex
