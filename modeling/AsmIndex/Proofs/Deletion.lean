import AsmIndex.Proofs.Current
import AsmIndex.Proofs.DiskChange

namespace AsmIndex

theorem Entry.overlaid_filter {entry : Entry} {layer : Uri → SymbolTable} {keep : Uri → Bool}
    (nothing : ∀ next ∈ entry.dependencies, keep next = false → layer next = .empty) :
    ({ entry with dependencies := entry.dependencies.filter keep } : Entry).overlaid layer =
      entry.overlaid layer := by
  have macros (dependencies : List Uri) (base : NameMap MacroDefinition)
      (nothing : ∀ next ∈ dependencies, keep next = false → layer next = .empty) :
      (dependencies.filter keep).foldl (fun macros next => macros ∪ (layer next).macros) base =
        dependencies.foldl (fun macros next => macros ∪ (layer next).macros) base := by
    induction dependencies generalizing base with
    | nil => rfl
    | cons next rest ih =>
      have later := fun other member => nothing other (List.mem_cons_of_mem next member)
      cases kept : keep next with
      | true => rw [List.filter_cons_of_pos kept, List.foldl_cons, List.foldl_cons, ih _ later]
      | false =>
        have same : base ∪ (layer next).macros = base := by
          apply Std.ExtTreeMap.ext_getElem?
          intro name
          rw [nothing next (by simp) kept, SymbolTable.empty, Std.ExtTreeMap.getElem?_union]
          simp
        rw [List.filter_cons_of_neg (by simp [kept]), List.foldl_cons, same, ih _ later]
  exact congrArg (SymbolTable.mk · entry.table.labels) (macros _ _ nothing)

namespace View

def pruned (view : View) : View := fun uri =>
  (view uri).map fun entry =>
    { entry with dependencies := entry.dependencies.filter fun next => (view next).isSome }

theorem pruned_of_entry {view : View} {uri : Uri} {entry : Entry} (found : view uri = some entry) :
    view.pruned uri =
      some { entry with dependencies := entry.dependencies.filter fun next => (view next).isSome } := by
  simp [pruned, found]

theorem pruned_of_none {view : View} {uri : Uri} (missing : view uri = none) :
    view.pruned uri = none := by
  simp [pruned, missing]

theorem pruned_eq_some {view : View} {uri : Uri} {entry : Entry} (found : view.pruned uri = some entry) :
    ∃ whole, view uri = some whole ∧ entry.dependencies ⊆ whole.dependencies := by
  obtain ⟨whole, held, rfl⟩ := Option.map_eq_some_iff.mp found
  exact ⟨whole, held, List.filter_sublist.subset⟩

theorem reaches_of_pruned {view : View} {uri place : Uri} (reaches : view.pruned.Reaches uri place) :
    view.Reaches uri place := by
  refine Relation.ReflTransGen.mono ?_ _ _ reaches
  rintro source next ⟨entry, found, taken⟩
  obtain ⟨whole, held, within⟩ := pruned_eq_some found
  exact ⟨whole, held, within taken⟩

theorem Merges.pruned {view : View} {path : List Uri} {uri : Uri} {table : SymbolTable}
    (merges : view.Merges path uri table) : view.pruned.Merges path uri table := by
  induction merges with
  | barred nothing => exact .barred (nothing.imp id pruned_of_none)
  | @entered path uri entry layer new found below ih =>
    have missing : ∀ next ∈ entry.dependencies, (view next).isSome = false → layer next = .empty :=
      fun next taken nothing => (below next taken).eq_empty (by simpa using nothing)
    rw [← Entry.overlaid_filter missing]
    exact .entered layer new (pruned_of_entry found) fun next kept => ih next (List.mem_filter.mp kept).1

end View

namespace Cache

theorem shows_pruned_get (cache : Cache) (machine : Machine) (uri : Uri) :
    (cache.view machine).pruned.Shows uri (cache.get machine uri).1 :=
  (cache.merges_get machine uri).pruned.shows

theorem get_congr_pruned {cache other : Cache} {machine machine' : Machine} {uri : Uri}
    (agrees : (cache.view machine).pruned.AgreesFrom (other.view machine').pruned uri) :
    (other.get machine' uri).1 = (cache.get machine uri).1 :=
  (cache.shows_pruned_get machine uri).unique (agrees.shows (other.shows_pruned_get machine' uri))

end Cache

namespace Include

variable {machine : Machine} {path : Path} {dir? : Option Path} {searchDirs : List Path} {filename : String}

theorem resolve?_remove {own : Path} (resolved : resolve? machine dir? searchDirs filename = some own)
    (still : (machine.remove path).isFile own = true) :
    resolve? (machine.remove path) dir? searchDirs filename = some own := by
  obtain ⟨_, front, back, order, earlier⟩ := List.find?_eq_some_iff_append.mp resolved
  refine List.find?_eq_some_iff_append.mpr ⟨still, front, back, order, fun candidate member => ?_⟩
  have absent := earlier candidate member
  simp only [Bool.not_eq_eq_eq_not, Bool.not_true] at absent ⊢
  rw [← Bool.not_eq_true] at absent ⊢
  exact fun file => absent (Machine.isFile_of_isFile_remove file)

theorem resolve?_remove_of_none (missing : resolve? machine dir? searchDirs filename = none) :
    resolve? (machine.remove path) dir? searchDirs filename = none := by
  have nowhere := List.find?_eq_none.mp missing
  exact List.find?_eq_none.mpr fun candidate member file =>
    nowhere candidate member (Machine.isFile_of_isFile_remove file)

end Include

namespace Cache

/-- An include of the text leads to another file than before. -/
def Redirects (cache : Cache) (machine other : Machine) (place : Uri) (text : String) : Prop :=
  ∃ filename ∈ Scan.includes text, ∃ own next,
    Include.resolve? machine (place.toPath?.bind Path.parent?) cache.includePaths filename = some own ∧
    Include.resolve? other (place.toPath?.bind Path.parent?) cache.includePaths filename = some next ∧ next ≠ own

/-- An include of the text led to a path where no file is any longer, and the document there has an entry still. -/
def Lingers (cache : Cache) (machine other : Machine) (place : Uri) (text : String) : Prop :=
  ∃ filename ∈ Scan.includes text, ∃ own,
    Include.resolve? machine (place.toPath?.bind Path.parent?) cache.includePaths filename = some own ∧
    other.isFile own = false ∧ cache.entry? (Uri.ofPath own) ≠ none

theorem resolve?_of_steady {machine : Machine} {path : Path} {cache : Cache} {place : Uri} {text : String}
    (steady : ¬ cache.Redirects machine (machine.remove path) place text) {filename : String}
    (listed : filename ∈ Scan.includes text) :
    Include.resolve? (machine.remove path) (place.toPath?.bind Path.parent?) cache.includePaths filename =
      (Include.resolve? machine (place.toPath?.bind Path.parent?) cache.includePaths filename).filter
        (machine.remove path).isFile := by
  cases resolved : Include.resolve? machine (place.toPath?.bind Path.parent?) cache.includePaths filename with
  | none => rw [Include.resolve?_remove_of_none resolved, Option.filter_none]
  | some own =>
    cases still : (machine.remove path).isFile own with
    | true => rw [Include.resolve?_remove resolved still, Option.filter_some_pos still]
    | false =>
      rw [Option.filter_some_neg (by simp [still])]
      refine Option.eq_none_iff_forall_ne_some.mpr fun next onward => ?_
      refine steady ⟨filename, listed, own, next, resolved, onward, ?_⟩
      rintro rfl
      have file : (machine.remove path).isFile next = true := List.find?_some onward
      simp [still] at file

theorem dependencies_remove {machine : Machine} {path : Path} {cache : Cache} {place : Uri} {text : String}
    (steady : ¬ cache.Redirects machine (machine.remove path) place text) :
    (cache.scanEntry (machine.remove path) place text).dependencies =
      (((Scan.includes text).filterMap
        (Include.resolve? machine (place.toPath?.bind Path.parent?) cache.includePaths)).filter
          (machine.remove path).isFile).map Uri.ofPath := by
  simp only [scanEntry]
  rw [List.filter_filterMap, List.filterMap_congr fun filename listed => resolve?_of_steady steady listed]

end Cache

namespace Server

structure Deletable (server : Server) (machine : Machine) (path : Path) : Prop where
  current : server.Current machine
  settled : path.IsSettled
  present : machine.isFile path = true
  closed : server.buffers[Uri.ofPath path]? = none

/-- The server after the file was removed and reported. -/
def afterDeletion (server : Server) (machine : Machine) (path : Path) : Server :=
  (server.handle (machine.remove path) (.filesChanged [⟨Uri.ofPath path, false⟩])).1

abbrev viewAfterDeletion (server : Server) (machine : Machine) (path : Path) : View :=
  (server.cache.delete (Uri.ofPath path)).view (machine.remove path)

def StillBacked (server : Server) (machine : Machine) (path : Path) (place : Uri) : Prop :=
  server.buffers[place]? = none → server.cache.entry? place ≠ none → place ≠ Uri.ofPath path →
    ∀ own, place.toPath? = some own → (machine.remove path).isFile own = true

/-- No include behind the answers for a document leads to another file now, or to a gone path with an entry. -/
def Steady (server : Server) (machine : Machine) (path : Path) (uri : Uri) : Prop :=
  ∀ place text, (server.viewAfterDeletion machine path).Reaches uri place →
    server.cache.entry? place ≠ none → server.text? machine place = some text →
    ¬ server.cache.Redirects machine (machine.remove path) place text ∧
      ¬ (server.cache.delete (Uri.ofPath path)).Lingers machine (machine.remove path) place text

namespace Deletable

variable {server : Server} {machine : Machine} {path : Path}

theorem afterDeletion_eq (deletable : Deletable server machine path) :
    server.afterDeletion machine path =
      { server with cache := server.cache.delete (Uri.ofPath path) } := by
  simp [afterDeletion, handle, handleAlong, applyChanges, dropChanged, deletable.closed,
    Std.ExtTreeMap.contains_eq_isSome_getElem?]

theorem text?_remove {place : Uri} (backed : server.buffers[place]? = none → ∀ own, place.toPath? = some own →
      (machine.remove path).isFile own = true) :
    server.text? (machine.remove path) place = server.text? machine place := by
  unfold text?
  cases held : server.buffers[place]? with
  | some text => rfl
  | none =>
    cases leads : place.toPath? with
    | none => rfl
    | some own => simp only [Option.bind_some, Machine.read?_remove (backed held own leads)]

theorem scanned_or_fresh (deletable : Deletable server machine path) {place : Uri}
    (backed : server.StillBacked machine path place) :
    server.viewAfterDeletion machine path place =
        server.freshView (machine.remove path) place ∨
      ∃ text, server.cache.entry? place ≠ none ∧ server.text? machine place = some text ∧
        server.viewAfterDeletion machine path place =
          some (server.cache.scanEntry machine place text) ∧
        server.freshView (machine.remove path) place =
          some (server.cache.scanEntry (machine.remove path) place text) := by
  have paths : (server.cache.delete (Uri.ofPath path)).includePaths = server.cache.includePaths := rfl
  have load := Cache.load?_congr paths (machine.remove path) place
  have entry := server.cache.entry?_delete (Uri.ofPath path) place
  by_cases same : place = Uri.ofPath path
  · subst same
    left
    rw [if_pos rfl] at entry
    rw [viewAfterDeletion, Cache.view, Cache.effective?_of_missing entry, load,
      freshView_of_closed deletable.closed]
  · rw [if_neg same] at entry
    cases stored : server.cache.entry? place with
    | none =>
      have closed : server.buffers[place]? = none := by
        by_contra held
        obtain ⟨text, held⟩ := Option.ne_none_iff_exists'.mp held
        rw [deletable.current.buffers place text held] at stored
        cases stored
      left
      rw [viewAfterDeletion, Cache.view, Cache.effective?_of_missing (entry.trans stored), load,
        freshView_of_closed closed]
    | some held =>
      right
      have found : server.freshView machine place = some held := by
        rw [← deletable.current.view]
        exact Cache.effective?_of_stored stored machine
      obtain ⟨text, own, rfl⟩ := Option.map_eq_some_iff.mp found
      refine ⟨text, by simp, own, Cache.effective?_of_stored (entry.trans stored) _, ?_⟩
      have kept := text?_remove fun closed own => backed closed (by simp [stored]) same own
      rw [freshView, kept, own]
      rfl

theorem load?_of_gone (cache : Cache) {other : Machine} {own : Path} (settled : own.IsSettled)
    (gone : other.isFile own = false) : cache.load? other (Uri.ofPath own) = none := by
  by_contra readable
  obtain ⟨entry, loaded⟩ := Option.ne_none_iff_exists'.mp readable
  obtain ⟨found, _, backed, file, _⟩ := (cache.load?_eq_some_iff other _ entry).mp loaded
  have identifier : (Uri.ofPath own).IsSettled := by
    obtain ⟨names, plain, rfl⟩ := settled
    exact ⟨names, plain, rfl⟩
  obtain ⟨foundSettled, same⟩ := identifier.own_of_isFile backed file
  obtain rfl := Uri.ofPath_injective foundSettled settled same
  simp [gone] at file

theorem view_deleted (deletable : Deletable server machine path) :
    server.viewAfterDeletion machine path (Uri.ofPath path) = none := by
  have missing := server.cache.entry?_delete (Uri.ofPath path) (Uri.ofPath path)
  rw [if_pos rfl] at missing
  rw [viewAfterDeletion, Cache.view, Cache.effective?_of_missing missing]
  exact load?_of_gone _ deletable.settled (Machine.not_isFile_remove deletable.settled deletable.present)

theorem stillBacked_of_reaches (deletable : Deletable server machine path) {uri place : Uri}
    (backed : server.StillBacked machine path uri) (steady : server.Steady machine path uri)
    (reaches : (server.viewAfterDeletion machine path).Reaches uri place) :
    server.StillBacked machine path place := by
  rcases Relation.ReflTransGen.cases_tail reaches with rfl | ⟨source, before, entry, found, taken⟩
  · exact backed
  · intro closed cached other own leads
    obtain ⟨held, stored⟩ := Option.ne_none_iff_exists'.mp cached
    have loaded := deletable.current.others place held closed stored not_false
    obtain ⟨_, _, again, file, _⟩ := (server.cache.load?_eq_some_iff machine place held).mp loaded
    obtain rfl := Option.some.inj (leads.symm.trans again)
    -- the include led to the path itself, on whichever machine it was resolved
    have there {known : Machine} {cache : Cache} {text : String}
        (taken : place ∈ (cache.scanEntry known source text).dependencies) :
        place = Uri.ofPath own ∧ ∃ filename ∈ Scan.includes text,
          Include.resolve? known (source.toPath?.bind Path.parent?) cache.includePaths filename = some own := by
      obtain ⟨settled, same⟩ := (Cache.isSettled_of_mem_scanEntry taken).own_of_isFile leads file
      obtain ⟨target, listed, leadsThere⟩ := List.mem_map.mp taken
      obtain ⟨filename, included, resolved⟩ := List.mem_filterMap.mp listed
      obtain rfl := Uri.ofPath_injective settled (Include.isSettled_of_resolve? resolved) (leadsThere.trans same)
      exact ⟨same, filename, included, resolved⟩
    rcases Cache.effective?_eq_some found with kept | ⟨_, loaded⟩
    · rw [Cache.entry?_delete] at kept
      split at kept
      · cases kept
      · have scanned : server.freshView machine source = some entry := by
          rw [← deletable.current.view]
          exact Cache.effective?_of_stored kept machine
        obtain ⟨text, sourceText, rfl⟩ := Option.map_eq_some_iff.mp scanned
        obtain ⟨rfl, filename, included, resolved⟩ := there taken
        by_contra gone
        refine (steady source text before (by simp [kept]) sourceText).2
          ⟨filename, included, own, resolved, (Bool.not_eq_true _).mp gone, ?_⟩
        rwa [Cache.entry?_delete, if_neg other]
    · obtain ⟨_, _, _, _, _, rfl⟩ := (Cache.load?_eq_some_iff _ _ source entry).mp loaded
      obtain ⟨_, _, _, resolved⟩ := there taken
      exact List.find?_some resolved

theorem agreesFrom_pruned (deletable : Deletable server machine path) {uri : Uri}
    (backed : server.StillBacked machine path uri) (steady : server.Steady machine path uri) :
    (server.viewAfterDeletion machine path).pruned.AgreesFrom
      (server.freshView (machine.remove path)).pruned uri := by
  intro place reaches
  have reached := View.reaches_of_pruned reaches
  have holds {next : Uri}
      (reaches : (server.viewAfterDeletion machine path).Reaches uri next) :
      (server.freshView (machine.remove path) next).isSome =
        (server.viewAfterDeletion machine path next).isSome := by
    rcases deletable.scanned_or_fresh (deletable.stillBacked_of_reaches backed steady reaches) with
      same | ⟨_, _, _, shown, fresh⟩
    · rw [same]
    · rw [shown, fresh]
      rfl
  rcases deletable.scanned_or_fresh (deletable.stillBacked_of_reaches backed steady reached) with
    same | ⟨text, cached, own, shown, fresh⟩
  · cases found : server.viewAfterDeletion machine path place with
    | none => rw [View.pruned_of_none found, View.pruned_of_none (same.symm.trans found)]
    | some entry =>
      rw [View.pruned_of_entry found, View.pruned_of_entry (same.symm.trans found)]
      rw [List.filter_congr fun next taken => holds (reached.tail ⟨entry, found, taken⟩)]
  · obtain ⟨unredirected, unlingering⟩ := steady place text reached cached own
    let targets := (Scan.includes text).filterMap
      (Include.resolve? machine (place.toPath?.bind Path.parent?) server.cache.includePaths)
    have kept : ((targets.filter (machine.remove path).isFile).map Uri.ofPath).filter
          (fun next => (server.freshView (machine.remove path) next).isSome) =
        (targets.map Uri.ofPath).filter fun next => (server.viewAfterDeletion machine path next).isSome := by
      rw [List.filter_map, List.filter_map, List.filter_filter]
      congr 1
      refine List.filter_congr fun own listed => ?_
      cases still : (machine.remove path).isFile own with
      | true => simp [holds (reached.tail ⟨_, shown, List.mem_map_of_mem listed⟩)]
      | false =>
        -- the scan before found the path, and the one now does not
        obtain ⟨filename, included, resolved⟩ := List.mem_filterMap.mp listed
        have missing : Cache.entry? (server.cache.delete (Uri.ofPath path)) (Uri.ofPath own) = none := by
          by_contra held
          exact unlingering ⟨filename, included, own, resolved, still, held⟩
        have gone := load?_of_gone (server.cache.delete (Uri.ofPath path))
          (Include.isSettled_of_resolve? resolved) still
        simp [viewAfterDeletion, Cache.view, Cache.effective?_of_missing missing, gone]
    rw [View.pruned_of_entry shown, View.pruned_of_entry fresh, Cache.dependencies_remove unredirected, kept]
    rfl

end Deletable
/-- The deletion of a file is picked up: its document shows nothing, and every other entry stays as it was. A
question is answered as by a fresh server, provided that no stored document behind the answer has an include
that leads to another file now, or that led to a path which is gone as well and has an entry still, and that the
document asked about was not loaded from such a path. -/
theorem answer_after_deletion {server : Server} {machine : Machine} {path : Path}
    (current : server.Current machine) (settled : path.IsSettled) (present : machine.isFile path = true)
    (closed : server.buffers[Uri.ofPath path]? = none) :
    let next := server.afterDeletion machine path
    let after := machine.remove path
    (next.cache.get after (Uri.ofPath path)).1 = .empty ∧
    (∀ place, next.cache.entry? place =
      if place = Uri.ofPath path then none else server.cache.entry? place) ∧
    ∀ query uri order, query.uri? = some uri → order.Perm server.buffers.toList →
      (server.buffers[uri]? = none → next.cache.entry? uri ≠ none →
        ∀ own, uri.toPath? = some own → after.isFile own = true) →
      (∀ place text, (next.cache.view after).Reaches uri place →
        server.cache.entry? place ≠ none → server.text? machine place = some text →
        ¬ server.cache.Redirects machine after place text ∧ ¬ next.cache.Lingers machine after place text) →
      (next.answer after query).1 = ((server.emptied.openAll after order).answer after query).1 := by
  have deletable : Deletable server machine path := ⟨current, settled, present, closed⟩
  rw [deletable.afterDeletion_eq]
  refine ⟨?_, fun place => server.cache.entry?_delete (Uri.ofPath path) place, ?_⟩
  · have shows := (server.cache.delete (Uri.ofPath path)).shows_get (machine.remove path) (Uri.ofPath path)
    have hidden := deletable.view_deleted
    unfold View.Shows at shows
    rw [viewAfterDeletion] at hidden
    rwa [hidden] at shows
  · intro query uri order asked listed backed steady
    rw [openAll_emptied server (machine.remove path) listed]
    refine server.answer_congr asked (Cache.get_congr_pruned ?_).symm
    rw [view_updateAll_clear server (machine.remove path) listed]
    refine deletable.agreesFrom_pruned (fun closed cached other => backed closed ?_) steady
    dsimp only
    rwa [Cache.entry?_delete, if_neg other]

theorem header_gone_answer_after_deletion :
    let machine : Machine :=
      ⟨(Disk.empty.write (.ofString "/a.h") (Utf8.encodeString "#define A 1\n")).write
        (.ofString "/b.h") (Utf8.encodeString "#define A 2\n"), .ofString "/", .ofString "/"⟩
    let path := Path.ofString "/b.h"
    let main := Uri.ofPath (.ofString "/m.S")
    let text := "#include \"a.h\"\n#include \"b.h\"\nA\n"
    let server := (Server.new.handle machine (.opened main text)).1
    let question := Query.definition main ⟨2, 0⟩
    server.Current machine ∧ path.IsSettled ∧ machine.isFile path = true ∧
      server.buffers[Uri.ofPath path]? = none ∧
      ((server.afterDeletion machine path).answer (machine.remove path) question).1 =
        ((server.emptied.openAll (machine.remove path) server.buffers.toList).answer (machine.remove path)
          question).1 := by
  intro machine path main text server question
  have current : server.Current machine :=
    (CurrentBut.handle fun _ => Server.new.current_emptied machine).mono fun _ => And.left
  have settled : path.IsSettled := (Path.isSettled_iff path).mpr (by decide)
  have present : machine.isFile path = true := by decide +kernel
  have closed : server.buffers[Uri.ofPath path]? = none := by decide +kernel
  have held : server.buffers[main]? = some text := by decide +kernel
  obtain ⟨_, _, answers⟩ := answer_after_deletion current settled present closed
  refine ⟨current, settled, present, closed, answers question main _ rfl (.refl _) ?_ ?_⟩
  · intro missing
    rw [held] at missing
    cases missing
  · intro place other _ cached own
    have only : place = main := by
      by_contra elsewhere
      refine cached ((Cache.entry?_store _ _ _ _).trans ((if_neg elsewhere).trans ?_))
      exact Std.ExtTreeMap.getElem?_empty
    subst only
    obtain rfl : text = other := by simpa [text?, held] using own
    have unredirected : ∀ filename ∈ Scan.includes text,
        Include.resolve? (machine.remove path) (main.toPath?.bind Path.parent?) [] filename = none ∨
        Include.resolve? (machine.remove path) (main.toPath?.bind Path.parent?) [] filename =
          Include.resolve? machine (main.toPath?.bind Path.parent?) [] filename := by
      decide +kernel
    have paths : (server.afterDeletion machine path).cache.includePaths = [] := by decide +kernel
    have unlingering : ∀ filename ∈ Scan.includes text,
        ((Include.resolve? machine (main.toPath?.bind Path.parent?) [] filename).all fun own =>
          (Cache.entry? (server.afterDeletion machine path).cache (Uri.ofPath own)).isNone) = true := by
      decide +kernel
    constructor
    · rintro ⟨filename, listed, _, _, leads, onward, other⟩
      rcases unredirected filename listed with nowhere | same
      · exact absurd (nowhere.symm.trans onward) (by simp)
      · exact other (Option.some.inj (onward.symm.trans (same.trans leads)))
    · rintro ⟨filename, listed, own, leads, _, stays⟩
      have gone := unlingering filename listed
      rw [paths] at leads
      rw [leads, Option.all_some, Option.isNone_iff_eq_none] at gone
      exact stays gone

/-- A header in the directory of the document hides one of the same name in a search directory. When it is
deleted, the other one does not take its place until the document is scanned again. -/
theorem hidden_header_not_uncovered :
    let machine : Machine :=
      ⟨(Disk.empty.write (.ofString "/a.h") (Utf8.encodeString "#define A 1\n")).write
        (.ofString "/inc/a.h") (Utf8.encodeString "#define A 2\n"), .ofString "/", .ofString "/"⟩
    let path := Path.ofString "/a.h"
    let main := Uri.ofPath (.ofString "/m.S")
    let text := "#include \"a.h\"\nA\n"
    let start := { Server.new with cache := Cache.empty.setIncludePaths [.ofString "/inc"] }
    let server := (start.handle machine (.opened main text)).1
    let question := Query.definition main ⟨1, 0⟩
    server.Current machine ∧ path.IsSettled ∧ machine.isFile path = true ∧
      server.buffers[Uri.ofPath path]? = none ∧
      ((server.afterDeletion machine path).answer (machine.remove path) question).1 = .definition none ∧
      ((server.emptied.openAll (machine.remove path) server.buffers.toList).answer (machine.remove path)
        question).1 = .definition (some ⟨Uri.ofPath (.ofString "/inc/a.h"), 0⟩) := by
  intro machine path main text start server question
  have current : server.Current machine :=
    (CurrentBut.handle fun _ => start.current_emptied machine).mono fun _ => And.left
  have settled : path.IsSettled := (Path.isSettled_iff path).mpr (by decide)
  have present : machine.isFile path = true := by decide +kernel
  have closed : server.buffers[Uri.ofPath path]? = none := by decide +kernel
  have held : server.buffers[main]? = some text := by decide +kernel
  have order : server.buffers.toList = [(main, text)] := by decide +kernel
  refine ⟨current, settled, present, closed, ?_, ?_⟩
  · rw [Deletable.afterDeletion_eq ⟨current, settled, present, closed⟩]
    let next : Server := { server with cache := server.cache.delete (Uri.ofPath path) }
    rw [answer_definition_of_visit (show next.buffers[main]? = some text from held) ⟨1, 0⟩ 3 (by decide +kernel)]
    decide +kernel
  · rw [openAll_emptied server (machine.remove path) (.refl _), order]
    let fresh : Server :=
      { server with cache := server.cache.clear.updateAll (machine.remove path) [(main, text)] }
    rw [answer_definition_of_visit (show fresh.buffers[main]? = some text from held) ⟨1, 0⟩ 3 (by decide +kernel)]
    decide +kernel

/-- A link to the header goes with it, but not its entry: the header is shown through the link until the entry is
dropped. -/
example :
    let linked := Path.ofString "/link.h"
    let path := Path.ofString "/a.h"
    let machine : Machine :=
      ⟨(Disk.empty.write path (Utf8.encodeString "#define A 1\n")).put linked (.link (.ofString "a.h")),
        .ofString "/", .ofString "/"⟩
    let main := Uri.ofPath (.ofString "/m.S")
    let text := "#include \"link.h\"\nA\n"
    let cache := (Cache.empty.update machine (Uri.ofPath linked) "#define A 1\n").update machine main text
    let server : Server := { Server.new with cache, buffers := (∅ : UriMap String).insert main text }
    server.cache.load? machine (Uri.ofPath linked) = server.cache.entry? (Uri.ofPath linked) ∧
      (server.afterDeletion machine path).cache.Lingers machine (machine.remove path) main text := by
  intro linked path machine main text cache server
  exact ⟨by decide +kernel, "link.h", by decide +kernel, linked, by decide +kernel, by decide +kernel,
    by decide +kernel⟩

end Server

end AsmIndex
