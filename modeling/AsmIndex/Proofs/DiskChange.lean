import AsmIndex.Proofs.Lookup

namespace AsmIndex

open AsmIndex.Path (Component)

namespace Disk

section Shrinking

/-- Names are gone from the disk, and those that are left stand for what they did. -/
def Shrinks (disk other : Disk) : Prop :=
  ∀ names node, other.node? names = some node → disk.node? names = some node

variable {disk other : Disk}

theorem Shrinks.walkWith (shrinks : Shrinks disk other)
    {jump narrow : List Bytes → Path → List Component → Option (List Bytes)}
    (jumps : ∀ dir target rest result, narrow dir target rest = some result → jump dir target rest = some result)
    {place result : List Bytes} {steps : List Component}
    (walked : other.walkWith narrow place steps = some result) :
    disk.walkWith jump place steps = some result := by
  induction steps generalizing place with
  | nil => exact walked
  | cons step rest ih =>
    obtain ⟨directory, ⟨target, link, jumped⟩ | ⟨there, plain, onward⟩⟩ := walkWith_cons_eq_some walked
    · rw [walkWith_link (shrinks _ _ directory) (shrinks _ _ link)]
      exact jumps _ _ _ _ jumped
    · obtain ⟨node, found⟩ := Option.ne_none_iff_exists'.mp there
      have held := shrinks _ _ found
      rw [walkWith_step (shrinks _ _ directory) (by simp [held]) (by simpa [held, found] using plain)]
      exact ih onward

theorem Shrinks.walk? (shrinks : Shrinks disk other) {links : Nat} {place result : List Bytes}
    {steps : List Component} (walked : other.walk? links place steps = some result) :
    disk.walk? links place steps = some result := by
  induction links generalizing place steps result with
  | zero => exact shrinks.walkWith (fun _ _ _ _ jumped => by cases jumped) walked
  | succ links ih => exact shrinks.walkWith (fun _ _ _ _ jumped => ih jumped) walked

theorem Shrinks.file? (shrinks : Shrinks disk other) {cwd path : Path} {id : Nat}
    (found : other.file? cwd path = some id) : disk.file? cwd path = some id := by
  unfold Disk.file? at *
  split at found
  · rename_i node
    obtain ⟨place, placed, held⟩ := Option.bind_eq_some_iff.mp node
    have same : disk.place? (cwd.join path) = some place := shrinks.walk? placed
    simp only [same, Option.bind_some, shrinks _ _ held]
    exact found
  · cases found

theorem Shrinks.read? (shrinks : Shrinks disk other) (contents : other.contents = disk.contents) {cwd path : Path}
    (still : other.isFile cwd path = true) : other.read? cwd path = disk.read? cwd path := by
  obtain ⟨id, found⟩ := Option.isSome_iff_exists.mp still
  simp [Disk.read?, found, shrinks.file? found, contents]

end Shrinking

section Removing

variable {disk : Disk}

theorem walk?_append_eq_some {links : Nat} {place result : List Bytes} {front back : List Component}
    (walked : disk.walk? links place (front ++ back) = some result) :
    ∃ middle left, disk.walk? links place front = some middle ∧ disk.walk? left middle back = some result := by
  have walkWith {jump : List Bytes → Path → List Component → Option (List Bytes)}
      (here : ∀ place, disk.walkWith jump place back = some result →
        ∃ left, disk.walk? left place back = some result)
      (jumps : ∀ dir target rest, jump dir target (rest ++ back) = some result →
        ∃ middle left, jump dir target rest = some middle ∧ disk.walk? left middle back = some result)
      {place : List Bytes} {front : List Component}
      (walked : disk.walkWith jump place (front ++ back) = some result) :
      ∃ middle left, disk.walkWith jump place front = some middle ∧
        disk.walk? left middle back = some result := by
    induction front generalizing place with
    | nil =>
      obtain ⟨left, onward⟩ := here place walked
      exact ⟨place, left, rfl, onward⟩
    | cons step front ih =>
      obtain ⟨directory, ⟨target, link, jumped⟩ | ⟨there, plain, onward⟩⟩ := walkWith_cons_eq_some walked
      · rw [walkWith_link directory link]
        exact jumps _ target _ jumped
      · rw [walkWith_step directory there plain]
        exact ih onward
  induction links generalizing place front with
  | zero => exact walkWith (fun _ onward => ⟨0, onward⟩) (fun _ _ _ jumped => by cases jumped) walked
  | succ links ih =>
    refine walkWith (fun _ onward => ⟨links + 1, onward⟩) (fun dir target rest jumped => ?_) walked
    rw [← List.append_assoc] at jumped
    exact ih jumped

theorem node?_of_walk?_cons {links : Nat} {place result : List Bytes} {step : Component} {rest : List Component}
    (walked : disk.walk? links place (step :: rest) = some result) :
    disk.node? (Path.enter place step) ≠ none := by
  cases links <;> exact node?_of_walkWith_cons (Option.isSome_iff_exists.mpr ⟨result, walked⟩)

theorem place?_ofNames {names : List Bytes} (plain : ∀ name ∈ names, Path.PlainName name) (disk : Disk) :
    disk.place? (Path.ofNames names) = disk.walk? linkLimit [] (.here :: names.map .name) := by
  by_cases root : names = []
  · subst root
    rfl
  · rw [place?, Path.steps_ofNames plain root]

theorem place?_concat {front : List Bytes} {name : Bytes} {result : List Bytes}
    (plain : ∀ part ∈ front ++ [name], Path.PlainName part)
    (placed : disk.place? (Path.ofNames (front ++ [name])) = some result) :
    ∃ dir, disk.place? (Path.ofNames front) = some dir ∧ disk.node? (dir ++ [name]) ≠ none := by
  rw [place?_ofNames plain, List.map_append, ← List.cons_append] at placed
  obtain ⟨dir, left, walked, onward⟩ := walk?_append_eq_some placed
  refine ⟨dir, ?_, node?_of_walk?_cons onward⟩
  rwa [place?_ofNames fun part member => plain part (List.mem_append_left _ member)]

theorem site_concat {front : List Bytes} {name : Bytes} {dir : List Bytes}
    (plain : ∀ part ∈ front ++ [name], Path.PlainName part)
    (placed : disk.place? (Path.ofNames front) = some dir) :
    disk.site (Path.ofNames (front ++ [name])) = dir ++ [name] := by
  simp [site, Path.settle_ofNames plain, placed]

theorem node?_remove {path : Path} (deep : disk.site path ≠ []) (names : List Bytes) :
    (disk.remove path).node? names = if disk.site path <+: names then none else disk.node? names := by
  unfold remove
  simp only [node?, Std.ExtTreeMap.getElem?_filter']
  by_cases root : names = []
  · simp [root, deep]
  · simp only [root, if_false]
    cases disk.nodes[names]? with
    | none => simp
    | some node =>
      cases under : (disk.site path).isPrefixOf names <;>
        simp [Option.filter, ← List.isPrefixOf_iff_prefix, under]

theorem shrinks_remove (disk : Disk) (path : Path) : Shrinks disk (disk.remove path) := by
  intro names node held
  by_cases deep : disk.site path = []
  · unfold node? remove at *
    split at held
    · simp [*]
    · simp [deep] at held
  · rw [node?_remove deep] at held
    split at held
    · cases held
    · exact held

theorem not_isFile_remove {cwd : Path} {names : List Bytes} (plain : ∀ name ∈ names, Path.PlainName name)
    (present : disk.isFile cwd (Path.ofNames names) = true) :
    (disk.remove (Path.ofNames names)).isFile cwd (Path.ofNames names) = false := by
  rw [← Bool.not_eq_true]
  intro still
  obtain ⟨_, _, placed, node⟩ := (isFile_iff _ _ _).mp present
  obtain ⟨_, _, placedAfter, _⟩ := (isFile_iff _ _ _).mp still
  rw [Path.join_of_isAbsolute _ (Path.isAbsolute_ofNames names)] at placed placedAfter
  rcases List.eq_nil_or_concat' names with rfl | ⟨front, name, rfl⟩
  · obtain rfl : [] = _ := Option.some.inj placed
    simp [node?] at node
  · obtain ⟨dir, found, _⟩ := place?_concat plain placed
    obtain ⟨dirAfter, foundAfter, there⟩ := place?_concat plain placedAfter
    have site := site_concat plain found
    obtain rfl : dir = dirAfter := Option.some.inj (found.symm.trans ((disk.shrinks_remove _).walk? foundAfter))
    rw [node?_remove (by simp [site]), site, if_pos (List.prefix_refl _)] at there
    exact there rfl

end Removing

theorem file?_overwrite (disk : Disk) (id : Nat) (content : Bytes) (cwd path : Path) :
    (disk.overwrite id content).file? cwd path = disk.file? cwd path := by
  -- Overwriting a file leaves all names as they are, so every path leads where it led.
  have forward : Shrinks disk (disk.overwrite id content) := fun _ _ held => held
  have backward : Shrinks (disk.overwrite id content) disk := fun _ _ held => held
  exact Option.ext fun file => ⟨forward.file?, backward.file?⟩

theorem read?_overwrite {disk : Disk} {cwd path : Path} {id : Nat} (other : disk.file? cwd path ≠ some id)
    (content : Bytes) : (disk.overwrite id content).read? cwd path = disk.read? cwd path := by
  rw [read?, file?_overwrite, read?]
  cases found : disk.file? cwd path with
  | none => rfl
  | some file =>
    have differ : id ≠ file := by
      rintro rfl
      exact other found
    simp [overwrite, Std.ExtTreeMap.getElem?_insert, differ]

end Disk

namespace Machine

def overwrite (machine : Machine) (id : Nat) (content : Bytes) : Machine :=
  { machine with disk := machine.disk.overwrite id content }

def write (machine : Machine) (path : Path) (content : Bytes) : Machine :=
  { machine with disk := machine.disk.write path content }

def remove (machine : Machine) (path : Path) : Machine :=
  { machine with disk := machine.disk.remove path }

variable {machine : Machine} {path : Path}

theorem isFile_of_isFile_remove {own : Path} (still : (machine.remove path).isFile own = true) :
    machine.isFile own = true := by
  obtain ⟨id, found⟩ := Option.isSome_iff_exists.mp still
  exact Option.isSome_iff_exists.mpr ⟨id, (machine.disk.shrinks_remove path).file? found⟩

theorem read?_remove {own : Path} (still : (machine.remove path).isFile own = true) :
    (machine.remove path).read? own = machine.read? own :=
  (machine.disk.shrinks_remove path).read? rfl still

theorem not_isFile_remove (settled : path.IsSettled) (present : machine.isFile path = true) :
    (machine.remove path).isFile path = false := by
  obtain ⟨names, plain, rfl⟩ := settled
  exact Disk.not_isFile_remove plain present

end Machine

namespace Cache

theorem scanEntry_of_isFile {machine other : Machine} (cwd : other.cwd = machine.cwd)
    (same : ∀ path, other.isFile path = machine.isFile path) (cache : Cache) :
    cache.scanEntry other = cache.scanEntry machine := by
  have resolve : Include.resolve? other = Include.resolve? machine := by
    funext dir? searchDirs filename
    have candidates : Include.candidates other dir? searchDirs filename =
        Include.candidates machine dir? searchDirs filename := by
      simp only [Include.candidates, Machine.absolutize, cwd]
    rw [Include.resolve?, Include.resolve?, candidates, funext same]
  funext uri text
  rw [scanEntry, scanEntry, resolve]

theorem scanEntry_overwrite (cache : Cache) (machine : Machine) (id : Nat) (content : Bytes) :
    cache.scanEntry (machine.overwrite id content) = cache.scanEntry machine := by
  refine scanEntry_of_isFile (by rfl) (fun path => ?_) cache
  exact congrArg Option.isSome (machine.disk.file?_overwrite id content machine.cwd path)

theorem load?_overwrite (cache : Cache) {machine : Machine} {uri : Uri} {id : Nat}
    (elsewhere : ∀ own, uri.toPath? = some own → machine.disk.file? machine.cwd own ≠ some id) (content : Bytes) :
    cache.load? (machine.overwrite id content) uri = cache.load? machine uri := by
  rw [load?_eq_map, load?_eq_map, scanEntry_overwrite]
  cases backed : uri.toPath? with
  | none => rfl
  | some own =>
    have readable : (machine.overwrite id content).read? own = machine.read? own :=
      Disk.read?_overwrite (elsewhere own backed) content
    simp only [Option.bind_some, readable]

end Cache

end AsmIndex
