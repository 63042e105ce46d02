import AsmIndex.Proofs.Lookup
import Mathlib.Data.Set.Card

namespace AsmIndex.Machine

theorem mem_namedFiles {disk : Disk} {place : List Bytes} {id : Nat}
    (node : disk.node? place = some (.file id)) : id ∈ disk.namedFiles := by
  have below : place ≠ [] := by
    rintro rfl
    simp [Disk.node?] at node
  rw [Disk.node?, if_neg below] at node
  have listed := Std.ExtTreeMap.mem_toList_iff_getElem?_eq_some.mpr node
  exact List.mem_filterMap.mpr ⟨_, listed, rfl⟩

theorem ncard_filePaths_le (machine : Machine)
    (apart : machine.filePaths.InjOn (machine.disk.file? machine.cwd)) :
    machine.filePaths.ncard ≤ machine.disk.namedFiles.dedup.length := by
  let files : Set (Option Nat) := some '' (machine.disk.namedFiles.toFinset : Set Nat)
  have counted : files.ncard = machine.disk.namedFiles.dedup.length := by
    rw [Set.ncard_image_of_injective _ (Option.some_injective Nat), Set.ncard_coe_finset, List.card_toFinset]
  rw [← counted]
  refine Set.ncard_le_ncard_of_injOn _ (fun path member => ?_) apart (Set.toFinite files)
  obtain ⟨place, id, placed, node⟩ := (machine.disk.isFile_iff _ _).mp member.2
  exact ⟨id, by simpa using mem_namedFiles node, by simp [Disk.file?, placed, node]⟩

end AsmIndex.Machine

namespace AsmIndex.Cache

structure Frame where
  path : List Uri
  cache : Cache
  uri : Uri

/-- The path while the visit is under way: a document that is entered is put on it. -/
def Frame.held (machine : Machine) (frame : Frame) : List Uri :=
  if frame.uri ∈ frame.path ∨ frame.cache.effective? machine frame.uri = none then frame.path
  else frame.uri :: frame.path

/-- A visit that has entered its document calls a visit for each dependency, in the cache that the
visits of the dependencies before it have left. -/
inductive Calls (machine : Machine) : Frame → Frame → Prop
  | call {path : List Uri} {cache next : Cache} {uri dependency : Uri} {entry : Entry}
    {before after : List Uri} {macros : NameMap MacroDefinition}
    (new : uri ∉ path) (found : cache.effective? machine uri = some entry)
    (order : entry.dependencies = before ++ dependency :: after)
    (earlier : overlayAll (visit? machine (uri :: path)) before entry.table.macros
      (cache.store uri entry) = some (macros, next)) :
    Calls machine ⟨path, cache, uri⟩ ⟨uri :: path, next, dependency⟩

structure Frame.Below (view : View) (root : Uri) (machine : Machine) (frame : Frame) : Prop where
  same : frame.cache.view machine = view
  inside : view.Reaches root frame.uri
  distinct : frame.path.Nodup
  known : ∀ place ∈ frame.path, view.Reaches root place ∧ view place ≠ none

theorem Frame.Below.entered {view : View} {root : Uri} {machine : Machine} {path : List Uri}
    {cache : Cache} {uri : Uri} {entry : Entry}
    (below : Frame.Below view root machine ⟨path, cache, uri⟩) (new : uri ∉ path)
    (found : cache.effective? machine uri = some entry) :
    (uri :: path).Nodup ∧ ∀ place ∈ uri :: path, view.Reaches root place ∧ view place ≠ none := by
  have foundView : view uri = some entry := below.same ▸ found
  refine ⟨List.nodup_cons.mpr ⟨new, below.distinct⟩, List.forall_mem_cons.mpr ⟨?_, below.known⟩⟩
  exact ⟨below.inside, by simp [foundView]⟩

theorem Frame.Below.step {view : View} {root : Uri} {machine : Machine} {frame callee : Frame}
    (below : frame.Below view root machine) (calls : Calls machine frame callee) :
    callee.Below view root machine := by
  cases calls with
  | @call path cache next uri dependency entry before after macros new found order earlier =>
    have foundView : view uri = some entry := below.same ▸ found
    obtain ⟨distinct, known⟩ := below.entered new found
    have reached {place : Uri} (taken : place ∈ entry.dependencies) : view.Reaches root place :=
      below.inside.tail ⟨entry, foundView, taken⟩
    have sameStored := (view_store found).trans below.same
    have filled := overlayAll_filled (fun place member cache table last same visited =>
      (visit?_spec same (reached (by rw [order]; simp [member])) visited).1.filled) sameStored earlier
    exact ⟨filled.effective?.trans sameStored, reached (by rw [order]; simp), distinct, known⟩

theorem Frame.Below.run {view : View} {root : Uri} {machine : Machine} {frame callee : Frame}
    (below : frame.Below view root machine)
    (calls : Relation.ReflTransGen (Calls machine) frame callee) :
    callee.Below view root machine := by
  induction calls with
  | refl => exact below
  | tail _ last ih => exact ih.step last

theorem Frame.Below.held {view : View} {root : Uri} {machine : Machine} {frame : Frame}
    (below : frame.Below view root machine) :
    (frame.held machine).Nodup ∧
      ∀ place ∈ frame.held machine, view.Reaches root place ∧ view place ≠ none := by
  unfold Frame.held
  split
  · exact ⟨below.distinct, below.known⟩
  · rename_i enters
    rw [not_or] at enters
    obtain ⟨entry, found⟩ := Option.ne_none_iff_exists'.mp enters.2
    exact below.entered enters.1 found

theorem Built.exists_listing {cache : Cache} (built : Built cache) (machine : Machine) (uri : Uri) :
    ∃ documents : List Uri, documents.length ≤ cache.entries.size + machine.filePaths.ncard + 1 ∧
      ∀ place, (cache.view machine).Reaches uri place → cache.view machine place ≠ none →
        place ∈ documents := by
  have files : (Uri.ofPath '' machine.filePaths).Finite := machine.finite_filePaths.image _
  refine ⟨uri :: (cache.entries.keys ++ files.toFinset.toList), ?_, fun place reaches holds => ?_⟩
  · rw [List.length_cons, List.length_append, Std.ExtTreeMap.length_keys, Finset.length_toList,
      ← Set.ncard_eq_toFinset_card _ files]
    have image := Set.ncard_image_le (f := Uri.ofPath) machine.finite_filePaths
    omega
  · rcases built.isSettled_of_reaches reaches with rfl | settled
    · exact List.mem_cons_self ..
    · refine List.mem_cons_of_mem _ (List.mem_append.mpr ?_)
      obtain ⟨held, found⟩ := Option.ne_none_iff_exists'.mp holds
      rcases effective?_eq_some found with stored | ⟨_, loaded⟩
      · exact .inl ((cache.mem_keys_iff place).mpr ⟨held, stored⟩)
      · obtain ⟨path, _, backed, file, _⟩ := (cache.load?_eq_some_iff machine place held).mp loaded
        right
        rw [Finset.mem_toList, Set.Finite.mem_toFinset]
        exact settled.mem_filePaths backed file

/-- No document is twice on the path, which never holds more than the stored documents, the paths of regular files
and the document looked up; every budget beyond that gives the lookup. Where no two paths lead to the same
file, there are no more of them than files. -/
theorem get_recursion_ends {cache : Cache} (built : Built cache) (machine : Machine) (uri : Uri) :
    visit? machine [] cache uri = some (cache.get machine uri) ∧
    machine.filePaths.Finite ∧
    (∀ frame, Relation.ReflTransGen (Calls machine) ⟨[], cache, uri⟩ frame →
      (frame.held machine).Nodup ∧
        (frame.held machine).length ≤ cache.entries.size + machine.filePaths.ncard + 1) ∧
    (∀ budget, cache.entries.size + machine.filePaths.ncard + 1 < budget →
      visit machine budget [] cache uri = some (cache.get machine uri)) ∧
    (machine.filePaths.InjOn (machine.disk.file? machine.cwd) →
      machine.filePaths.ncard ≤ machine.disk.namedFiles.dedup.length) := by
  obtain ⟨documents, bound, listed⟩ := built.exists_listing machine uri
  refine ⟨cache.visit?_eq_get machine uri, machine.finite_filePaths, ?_, ?_, machine.ncard_filePaths_le⟩
  · intro frame calls
    have start : Frame.Below (cache.view machine) uri machine ⟨[], cache, uri⟩ :=
      ⟨rfl, .refl, List.nodup_nil, by simp⟩
    obtain ⟨distinct, known⟩ := (start.run calls).held
    have within : (frame.held machine).length ≤ documents.length :=
      (distinct.subperm fun place member => listed place (known place member).1 (known place member).2).length_le
    exact ⟨distinct, within.trans bound⟩
  · intro budget enough
    have room : (documents.filter (· ∉ [])).length < budget :=
      (List.length_filter_le _ _).trans_lt (bound.trans_lt enough)
    obtain ⟨table, last, run⟩ := visit_total listed rfl .refl room
    rw [run, visit_eq_get run]

/-- A link to the directory that it stands in gives the one header another path at every level. -/
theorem looping_header_recursion_ends :
    let machine : Machine :=
      ⟨(Disk.empty.write (.ofString "/a.h") (Utf8.encodeString "#include \"loop/a.h\"\n")).put
        (.ofString "/loop") (.link (.ofString ".")), .ofString "/", .ofString "/"⟩
    let uri := Uri.ofPath (.ofString "/a.h")
    let cache := Cache.empty.update machine uri "#include \"loop/a.h\"\n"
    Built cache ∧
      visit? machine [] cache uri = some (cache.get machine uri) ∧
      ∀ frame, Relation.ReflTransGen (Calls machine) ⟨[], cache, uri⟩ frame →
        (frame.held machine).Nodup ∧ (frame.held machine).length ≤ 1 + machine.filePaths.ncard + 1 := by
  intro machine uri cache
  have built : Built cache := .update .empty machine uri _
  obtain ⟨ends, _, paths, _⟩ := get_recursion_ends built machine uri
  have size : cache.entries.size = 1 := by decide +kernel
  rw [size] at paths
  exact ⟨built, ends, paths⟩

/-- On that disk there is one regular file, and nothing is stored; still three documents are on the path at once. -/
theorem looping_header_on_longer_path :
    let machine : Machine :=
      ⟨(Disk.empty.write (.ofString "/a.h") (Utf8.encodeString "#include \"loop/a.h\"\n")).put
        (.ofString "/loop") (.link (.ofString ".")), .ofString "/", .ofString "/"⟩
    let uri := Uri.ofPath (.ofString "/a.h")
    ∃ frame, Relation.ReflTransGen (Calls machine) ⟨[], .empty, uri⟩ frame ∧
      Cache.empty.entries.size + machine.disk.namedFiles.dedup.length + 1 < (frame.held machine).length := by
  intro machine uri
  let text := "#include \"loop/a.h\"\n"
  let deeper := Uri.ofPath (.ofString "/loop/a.h")
  let deepest := Uri.ofPath (.ofString "/loop/loop/a.h")
  let next := Cache.empty.update machine uri text
  have found : Cache.empty.effective? machine uri = some (Cache.empty.scanEntry machine uri text) := by
    decide +kernel
  have foundNext : next.effective? machine deeper = some (next.scanEntry machine deeper text) := by
    decide +kernel
  have order : (Cache.empty.scanEntry machine uri text).dependencies = [] ++ [deeper] := by decide +kernel
  have orderNext : (next.scanEntry machine deeper text).dependencies = [] ++ [deepest] := by decide +kernel
  have first : Calls machine ⟨[], .empty, uri⟩ ⟨[uri], next, deeper⟩ := .call (by simp) found order rfl
  have second : Calls machine ⟨[uri], next, deeper⟩ ⟨[deeper, uri], next.update machine deeper text, deepest⟩ :=
    .call (by decide +kernel) foundNext orderNext rfl
  exact ⟨_, .tail (.tail .refl first) second, by decide +kernel⟩

end AsmIndex.Cache
