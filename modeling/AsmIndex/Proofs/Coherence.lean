import AsmIndex.Proofs.Current
import AsmIndex.Proofs.DiskChange

namespace AsmIndex

namespace Settings

variable {formats : List FileFormat} {machine other : Machine} {base : Path}

def candidatePaths (formats : List FileFormat) (machine : Machine) (base : Path) : List Path :=
  let base := machine.cwd.join base
  base :: formats.map fun format => ⟨base.bytes ++ Utf8.encodeString format.extension⟩

def filePaths (formats : List FileFormat) (machine : Machine) (root : Path) : List Path :=
  candidatePaths formats machine (userFile machine) ++ candidatePaths formats machine (workspaceFile root)

def ReadAlike (machine other : Machine) (path : Path) : Prop :=
  other.isFile path = machine.isFile path ∧ other.read? path = machine.read? path

instance (machine other : Machine) (path : Path) : Decidable (ReadAlike machine other path) :=
  inferInstanceAs (Decidable (_ ∧ _))

/-- The settings files are the same on both machines. -/
structure SameFiles (formats : List FileFormat) (machine other : Machine) (root : Path) : Prop where
  home : other.home = machine.home
  cwd : other.cwd = machine.cwd
  files : ∀ path ∈ filePaths formats machine root, ReadAlike machine other path

theorem file?_congr (cwd : other.cwd = machine.cwd)
    (same : ∀ path ∈ candidatePaths formats machine base, ReadAlike machine other path) :
    file? formats other base = file? formats machine base := by
  unfold file?
  rw [cwd]
  dsimp only
  rw [(same _ (by simp [candidatePaths])).1]
  split
  · rfl
  · rw [← List.head?_filter, ← List.head?_filter]
    congr 1
    refine List.filter_congr ?_
    rintro ⟨path, format⟩ member
    obtain ⟨_, listed, made⟩ := List.mem_map.mp member
    obtain ⟨rfl, _⟩ := Prod.mk.inj made
    exact (same _ (List.mem_cons_of_mem _ (List.mem_map.mpr ⟨_, listed, rfl⟩))).1

theorem mem_candidatePaths_of_file? {path : Path} {format : FileFormat}
    (found : file? formats machine base = some (path, format)) : path ∈ candidatePaths formats machine base := by
  unfold file? at found
  dsimp only at found
  split at found
  · cases found
  · obtain ⟨_, listed, made⟩ := List.mem_map.mp (List.mem_of_find?_eq_some found)
    obtain ⟨rfl, _⟩ := Prod.mk.inj made
    exact List.mem_cons_of_mem _ (List.mem_map.mpr ⟨_, listed, rfl⟩)

theorem fileFields_congr (cwd : other.cwd = machine.cwd)
    (same : ∀ path ∈ candidatePaths formats machine base, ReadAlike machine other path) :
    fileFields formats other base = fileFields formats machine base := by
  unfold fileFields
  rw [file?_congr cwd same]
  cases found : file? formats machine base with
  | none => rfl
  | some candidate =>
    obtain ⟨path, format⟩ := candidate
    simp only [(same path (mem_candidatePaths_of_file? found)).2, cwd]

theorem loadWith_congr {root : Path} (same : SameFiles formats machine other root) :
    loadWith formats other root = loadWith formats machine root := by
  have user : fileFields formats other (userFile other) = fileFields formats machine (userFile machine) := by
    have path : userFile other = userFile machine := by rw [userFile, userFile, same.home]
    rw [path]
    exact fileFields_congr same.cwd fun path member => same.files path (List.mem_append_left _ member)
  have workspace : fileFields formats other (workspaceFile root) =
      fileFields formats machine (workspaceFile root) :=
    fileFields_congr same.cwd fun path member => same.files path (List.mem_append_right _ member)
  funext capabilities client
  rw [loadWith, loadWith, user, workspace]

end Settings

namespace Server

theorem setUp_congr {machine other : Machine} {root? : Option Path}
    (same : Settings.SameFiles Settings.FileFormat.known machine other (root?.getD machine.cwd))
    (capabilities : Capabilities)
    (client : ClientSettings) :
    Server.new.setUp other root? capabilities client = Server.new.setUp machine root? capabilities client := by
  have resolve : IncludePath.resolve other root? = IncludePath.resolve machine root? := by
    funext raw
    simp only [IncludePath.resolve, IncludePath.fill, Machine.absolutize, same.home, same.cwd]
  have searchDirs (settings : Settings) :
      settings.searchDirs other root? = settings.searchDirs machine root? := by
    rw [Settings.searchDirs, Settings.searchDirs, resolve]
  simp only [setUp, bindSettings, Settings.load, same.cwd, Settings.loadWith_congr same, searchDirs]

end Server

namespace Event

def client (event : Event) (before : ClientSettings) : ClientSettings :=
  match event with
  | .configured values => .ofJson values
  | _ => before

end Event

/-- A server at work, with the settings that the client sent last and the files that are still to be
reported. -/
structure Deployment where
  machine : Machine
  server : Server
  client : ClientSettings
  unreported : List FileChange

namespace Deployment

def start (machine : Machine) (root? : Option Path) (capabilities : Capabilities)
    (client : ClientSettings) : Deployment :=
  ⟨machine, (Server.new.setUp machine root? capabilities client).1, client, []⟩

def notify (deployment : Deployment) (event : Event) : Deployment :=
  { deployment with
    server := (deployment.server.handle deployment.machine event).1
    client := event.client deployment.client
    unreported := deployment.unreported.filter (· ∉ event.reported) }

def ask (deployment : Deployment) (query : Query) : Deployment :=
  { deployment with server := (deployment.server.answer deployment.machine query).2 }

def create (deployment : Deployment) (disk : Disk) (uri : Uri) : Deployment :=
  { deployment with
    machine.disk := disk
    unreported := ⟨uri, true⟩ :: deployment.unreported }

/-- The closed documents with an entry whose paths lead to the file. -/
def heldUnder (deployment : Deployment) (id : Nat) : List Uri :=
  deployment.server.cache.entries.keys.filter fun uri =>
    deployment.server.buffers[uri]? = none ∧
      (uri.toPath?.bind (deployment.machine.disk.file? deployment.machine.cwd)) = some id

/-- A file is overwritten, and is to be reported as changed under all names by which the server has loaded it. -/
def overwrite (deployment : Deployment) (id : Nat) (content : Bytes) : Deployment :=
  { deployment with
    machine := deployment.machine.overwrite id content
    unreported := (deployment.heldUnder id).map (⟨·, false⟩) ++ deployment.unreported }

def restarted (deployment : Deployment) (root? : Option Path) (capabilities : Capabilities) : Server :=
  (Server.new.setUp deployment.machine root? capabilities deployment.client).1

/-- What can have happened since the start. Events come at any time, and questions when all that happened on the
disk is reported. The settings files stay as they are. -/
inductive Run (root? : Option Path) (capabilities : Capabilities) : Deployment → Prop
  | start (machine : Machine) (client : ClientSettings) :
    Run root? capabilities (start machine root? capabilities client)
  | notify {deployment : Deployment} (run : Run root? capabilities deployment) (event : Event) :
    Run root? capabilities (deployment.notify event)
  | ask {deployment : Deployment} (run : Run root? capabilities deployment)
    (reported : deployment.unreported = []) {query : Query}
    (canonical : ∀ uri, query.uri? = some uri → uri.IsCanonical) :
    Run root? capabilities (deployment.ask query)
  | create {deployment : Deployment} (run : Run root? capabilities deployment) (disk : Disk) (uri : Uri)
    (settings : Settings.SameFiles Settings.FileFormat.known deployment.machine
      (deployment.create disk uri).machine (root?.getD deployment.machine.cwd)) :
    Run root? capabilities (deployment.create disk uri)
  | overwrite {deployment : Deployment} (run : Run root? capabilities deployment) (id : Nat) (content : Bytes)
    (settings : Settings.SameFiles Settings.FileFormat.known deployment.machine
      (deployment.overwrite id content).machine (root?.getD deployment.machine.cwd)) :
    Run root? capabilities (deployment.overwrite id content)

/-- What holds along every run. As long as a created file is not reported nothing is said of the entries. -/
structure Coherent (root? : Option Path) (capabilities : Capabilities) (deployment : Deployment) :
    Prop where
  configured : deployment.server.emptied = deployment.restarted root? capabilities
  settled : ∀ uri entry path, deployment.server.buffers[uri]? = none →
    deployment.server.cache.entry? uri = some entry → uri.toPath? = some path → uri.IsSettled
  current : (∀ change ∈ deployment.unreported, change.created = false) →
    deployment.server.CurrentBut deployment.machine fun uri => ⟨uri, false⟩ ∈ deployment.unreported

variable {root? : Option Path} {capabilities : Capabilities} {deployment : Deployment}

theorem Coherent.currentOfReported (coherent : Coherent root? capabilities deployment)
    (reported : deployment.unreported = []) : deployment.server.Current deployment.machine :=
  (coherent.current (by simp [reported])).mono (by simp [reported])

theorem mem_notify_iff {event : Event} {change : FileChange} :
    change ∈ (deployment.notify event).unreported ↔
      change ∈ deployment.unreported ∧ change ∉ event.reported := by
  simp [notify]

theorem uncreated_of_notify {event : Event}
    (left : ∀ change ∈ (deployment.notify event).unreported, change.created = false)
    (uncreated : ∀ change ∈ event.reported, change.created = false) :
    ∀ change ∈ deployment.unreported, change.created = false := by
  intro change member
  by_cases told : change ∈ event.reported
  · exact uncreated change told
  · exact left change (mem_notify_iff.mpr ⟨member, told⟩)

theorem mem_heldUnder_iff {id : Nat} {uri : Uri} :
    uri ∈ deployment.heldUnder id ↔ (∃ entry, deployment.server.cache.entry? uri = some entry) ∧
      deployment.server.buffers[uri]? = none ∧
        ∃ own, uri.toPath? = some own ∧ deployment.machine.disk.file? deployment.machine.cwd own = some id := by
  rw [heldUnder, List.mem_filter, Cache.mem_keys_iff, decide_eq_true_eq, Option.bind_eq_some_iff]

theorem Coherent.start (machine : Machine) (root? : Option Path) (capabilities : Capabilities)
    (client : ClientSettings) :
    Coherent root? capabilities (start machine root? capabilities client) := by
  let server := (Server.new.setUp machine root? capabilities client).1
  refine ⟨rfl, ?_, fun _ => (server.current_emptied machine).mono fun _ => False.elim⟩
  intro uri entry path _ stored _
  exact absurd ((server.cache.entry?_clear uri).symm.trans stored) (by simp)

theorem Coherent.notify (coherent : Coherent root? capabilities deployment) (event : Event) :
    Coherent root? capabilities (deployment.notify event) := by
  refine ⟨?_, ?_, ?_⟩
  · refine (deployment.server.emptied_handle deployment.machine event).trans ?_
    cases event with
    | configured values =>
      have root : deployment.server.root? = root? := congrArg Server.root? coherent.configured
      have declared : deployment.server.capabilities = capabilities :=
        congrArg Server.capabilities coherent.configured
      rw [root, declared]
      rfl
    | opened uri text | changed uri texts | closed uri | filesChanged changes =>
      exact coherent.configured
  · intro uri entry path closed stored backed
    cases deployment.server.handled deployment.machine event uri with
    | scanned text held _ => exact absurd (held.symm.trans closed) (by simp)
    | dropped _ missing => exact absurd (missing.symm.trans stored) (by simp)
    | kept buffer same _ _ _ =>
      exact coherent.settled uri entry path (buffer.symm.trans closed) (same.symm.trans stored) backed
  · intro reported
    have current := Server.CurrentBut.handle fun uncreated =>
      coherent.current (uncreated_of_notify reported uncreated)
    exact current.mono fun uri stale => mem_notify_iff.mpr stale

theorem Coherent.configured_of_sameFiles (coherent : Coherent root? capabilities deployment) {other : Machine}
    (settings : Settings.SameFiles Settings.FileFormat.known deployment.machine other
      (root?.getD deployment.machine.cwd)) :
    deployment.server.emptied = (Server.new.setUp other root? capabilities deployment.client).1 := by
  refine coherent.configured.trans ?_
  exact (congrArg Prod.fst (Server.setUp_congr settings capabilities deployment.client)).symm

theorem Coherent.overwrite (coherent : Coherent root? capabilities deployment) {id : Nat} {content : Bytes}
    (settings : Settings.SameFiles Settings.FileFormat.known deployment.machine
      (deployment.overwrite id content).machine (root?.getD deployment.machine.cwd)) :
    Coherent root? capabilities (deployment.overwrite id content) := by
  refine ⟨coherent.configured_of_sameFiles settings, coherent.settled, fun uncreated => ?_⟩
  have current := coherent.current fun change member => uncreated change (List.mem_append_right _ member)
  constructor
  · intro uri text held
    refine (current.buffers uri text held).trans ?_
    rw [← Cache.scanEntry_overwrite _ _ id content]
    rfl
  · intro uri entry closed stored fresh
    have unreported : ⟨uri, false⟩ ∉ deployment.unreported := fun old => fresh (List.mem_append_right _ old)
    rw [← current.others uri entry closed stored unreported]
    refine Cache.load?_overwrite _ (fun own backed leads => fresh (List.mem_append_left _ ?_)) content
    exact List.mem_map_of_mem (mem_heldUnder_iff.mpr ⟨⟨entry, stored⟩, closed, own, backed, leads⟩)

theorem Coherent.ask (coherent : Coherent root? capabilities deployment) (reported : deployment.unreported = [])
    {query : Query} (canonical : ∀ uri, query.uri? = some uri → uri.IsCanonical) :
    Coherent root? capabilities (deployment.ask query) := by
  have current := coherent.currentOfReported reported
  rcases deployment.server.answer_server deployment.machine query with same | ⟨asked, document, same⟩
  · have unchanged : deployment.ask query = deployment := by
      unfold Deployment.ask
      rw [same]
    rw [unchanged]
    exact coherent
  · have loaded : deployment.ask query =
        { deployment with
          server.cache := (deployment.server.cache.get deployment.machine asked).2 } := by
      unfold Deployment.ask
      rw [same]
    refine ⟨(deployment.server.emptied_answer deployment.machine query).trans coherent.configured, ?_, ?_⟩
    · intro uri entry path closed stored backed
      rw [loaded] at closed stored
      rcases (deployment.server.cache.filledWithin_get deployment.machine asked).entries uri with
        old | ⟨reaches, _⟩
      · exact coherent.settled uri entry path closed (old.symm.trans stored) backed
      · rcases Relation.ReflTransGen.cases_tail reaches with rfl | ⟨source, _, depends⟩
        · exact (canonical uri document).isSettled backed
        · exact current.isSettled depends
    · intro _
      rw [loaded]
      exact (current.get asked).mono fun _ => False.elim

theorem Run.coherent (run : Run root? capabilities deployment) : Coherent root? capabilities deployment := by
  induction run with
  | start machine client => exact .start machine root? capabilities client
  | notify _ event ih => exact ih.notify event
  | ask _ reported canonical ih => exact ih.ask reported canonical
  | create _ disk uri settings ih =>
    refine ⟨ih.configured_of_sameFiles settings, ih.settled, fun uncreated => ?_⟩
    exact absurd (uncreated ⟨uri, true⟩ (List.mem_cons_self ..)) (by simp)
  | overwrite _ id content settings ih => exact ih.overwrite settings

/-- When all that happened on the disk has been reported, all questions are answered as by a server that has just
been started with the last settings and has opened the same buffers, in any order. A file to which one path
leads is to be reported under the canonical identifier of that path alone. -/
theorem Run.answer_eq_restart (run : Run root? capabilities deployment) :
    (∀ id path, (∀ other ∈ deployment.machine.filePaths,
        deployment.machine.disk.file? deployment.machine.cwd other = some id → other = path) →
      ∀ uri ∈ deployment.heldUnder id, uri = Uri.ofPath path) ∧
    (deployment.unreported = [] → ∀ query order, query.uri?.isSome = true →
      order.Perm deployment.server.buffers.toList →
      (deployment.server.answer deployment.machine query).1 =
        (((deployment.restarted root? capabilities).openAll deployment.machine order).answer
          deployment.machine query).1) := by
  have coherent := run.coherent
  constructor
  · intro id path only uri held
    obtain ⟨⟨entry, stored⟩, closed, own, backed, leads⟩ := mem_heldUnder_iff.mp held
    have file : deployment.machine.isFile own = true := Option.isSome_iff_exists.mpr ⟨id, leads⟩
    obtain ⟨settled, same⟩ := (coherent.settled uri entry own closed stored backed).own_of_isFile backed file
    rw [same, only own ⟨settled, file⟩ leads]
  · intro reported query order asked listed
    rw [(coherent.currentOfReported reported).answer asked listed, coherent.configured]

/-- A header that an open document includes appears, is reported and shown, and is then overwritten. -/
theorem overwritten_header_answer_eq_restart :
    let header := Path.ofString "/a.h"
    let main := Uri.ofPath (.ofString "/m.S")
    let question := Query.definition main ⟨1, 0⟩
    let shown := ((((start ⟨Disk.empty, .ofString "/", .ofString "/"⟩ none ⟨none⟩ .empty).notify
      (.opened main "#include \"a.h\"\nA\n")).create
      (Disk.empty.write header (Utf8.encodeString "#define A 1\n")) (Uri.ofPath header)).notify
      (.filesChanged [⟨Uri.ofPath header, true⟩])).ask question
    let last := (shown.overwrite 0 (Utf8.encodeString "\n#define A 2\n")).notify
      (.filesChanged [⟨Uri.ofPath header, false⟩])
    shown.heldUnder 0 = [Uri.ofPath header] ∧ Run none ⟨none⟩ last ∧ last.unreported = [] ∧
      (last.server.answer last.machine question).1 =
        (((last.restarted none ⟨none⟩).openAll last.machine last.server.buffers.toList).answer last.machine
          question).1 := by
  intro header main question shown last
  let text := "#include \"a.h\"\nA\n"
  let told := (((start ⟨Disk.empty, .ofString "/", .ofString "/"⟩ none ⟨none⟩ .empty).notify
    (.opened main text)).create
    (Disk.empty.write header (Utf8.encodeString "#define A 1\n")) (Uri.ofPath header)).notify
    (.filesChanged [⟨Uri.ofPath header, true⟩])
  have canonical : main.IsCanonical := by
    refine ⟨⟨"file:///m.S", by decide +kernel⟩, ?_⟩
    intro path backed
    have own : main.toPath? = some (.ofString "/m.S") := by decide +kernel
    rw [own] at backed
    obtain rfl := Option.some.inj backed
    rfl
  have held : told.server.buffers[main]? = some text := by decide +kernel
  have loaded : shown.heldUnder 0 = [Uri.ofPath header] := by
    change heldUnder { told with server := (told.server.answer told.machine question).2 } 0 = _
    rw [Server.answer_definition_of_visit held ⟨1, 0⟩ 3 (by decide +kernel)]
    decide +kernel
  have reported : last.unreported = [] := by
    change List.filter _ ((shown.heldUnder 0).map _ ++ shown.unreported) = []
    rw [loaded]
    decide +kernel
  have run : Run none ⟨none⟩ last := by
    refine .notify (.overwrite (.ask (.notify (.create (.notify (.start _ _) _) _ _ ?_) _) ?_ ?_) _ _ ?_) _
    · exact ⟨rfl, rfl, by decide +kernel⟩
    · decide +kernel
    · intro uri asked
      obtain rfl := Option.some.inj asked
      exact canonical
    · exact ⟨rfl, rfl, by decide +kernel⟩
  exact ⟨loaded, run, reported, run.answer_eq_restart.2 reported question _ rfl (.refl _)⟩

end Deployment

namespace Server

/-- The header is loaded through a link, and overwritten. The report names the file by its own path, so the entry
under the link stays as it was, while a fresh server reads the file as it is. -/
theorem linked_header_left_stale :
    let real := Path.ofString "/real.h"
    let linked := Path.ofString "/link.h"
    let main := Uri.ofPath (.ofString "/m.S")
    let text := "#include \"link.h\"\nA\n"
    let before : Machine :=
      ⟨(Disk.empty.write real (Utf8.encodeString "#define A 1\n")).put linked (.link (.ofString "real.h")),
        .ofString "/", .ofString "/"⟩
    let after := before.write real (Utf8.encodeString "\n#define A 2\n")
    let question := Query.definition main ⟨1, 0⟩
    let opened := ((Server.new.setUp before none ⟨none⟩ .empty).1.handle before (.opened main text)).1
    let told := ((opened.answer before question).2.handle after (.filesChanged [⟨Uri.ofPath real, false⟩])).1
    let fresh := ((Server.new.setUp after none ⟨none⟩ .empty).1.handle after (.opened main text)).1
    (told.answer after question).1 = .definition (some ⟨Uri.ofPath linked, 0⟩) ∧
      (fresh.answer after question).1 = .definition (some ⟨Uri.ofPath linked, 1⟩) := by
  intro real linked main text before after question opened told fresh
  let report := Event.filesChanged [⟨Uri.ofPath real, false⟩]
  let loaded : Server := { opened with
    cache := ((Cache.visit before 3 [] opened.cache main).getD (.empty, opened.cache)).2 }
  let known := (loaded.handle after report).1
  obtain ⟨held, ends⟩ : opened.buffers[main]? = some text ∧
      (Cache.visit before 3 [] opened.cache main).isSome := by decide +kernel
  obtain ⟨heldKnown, endsKnown, stale⟩ : known.buffers[main]? = some text ∧
      (Cache.visit after 3 [] known.cache main).isSome ∧
      definition? ((Cache.visit after 3 [] known.cache main).getD (.empty, known.cache)).1 text ⟨1, 0⟩ =
        some ⟨Uri.ofPath linked, 0⟩ := by decide +kernel
  obtain ⟨heldFresh, endsFresh, current⟩ : fresh.buffers[main]? = some text ∧
      (Cache.visit after 3 [] fresh.cache main).isSome ∧
      definition? ((Cache.visit after 3 [] fresh.cache main).getD (.empty, fresh.cache)).1 text ⟨1, 0⟩ =
        some ⟨Uri.ofPath linked, 1⟩ := by decide +kernel
  clear_value opened fresh
  have same : told = known := by
    change ((opened.answer before question).2.handle after report).1 = known
    rw [answer_definition_of_visit held ⟨1, 0⟩ 3 ends]
  rw [same, answer_definition_of_visit heldKnown ⟨1, 0⟩ 3 endsKnown, stale,
    answer_definition_of_visit heldFresh ⟨1, 0⟩ 3 endsFresh, current]
  exact ⟨rfl, rfl⟩

end Server

end AsmIndex
