import AsmIndex.Include
import AsmIndex.Proofs.PathLaws
import Mathlib.Data.Set.Finite.Lattice

namespace AsmIndex

open AsmIndex.Path (Component)

namespace Disk

variable {disk : Disk} {jump : List Bytes → Path → List Component → Option (List Bytes)}

theorem walkWith_cons_eq_some {place result : List Bytes} {step : Component} {rest : List Component}
    (walked : disk.walkWith jump place (step :: rest) = some result) :
    disk.node? place = some .directory ∧
      ((∃ target, disk.node? (Path.enter place step) = some (.link target) ∧
        jump place target rest = some result) ∨
      (disk.node? (Path.enter place step) ≠ none ∧
        (∀ target, disk.node? (Path.enter place step) ≠ some (.link target)) ∧
        disk.walkWith jump (Path.enter place step) rest = some result)) := by
  rw [walkWith] at walked
  split at walked
  · rename_i directory
    refine ⟨directory, ?_⟩
    cases node : disk.node? (Path.enter place step) with
    | none => simp [node] at walked
    | some found =>
      cases found with
      | link target => exact .inl ⟨target, rfl, by simpa [node] using walked⟩
      | directory => exact .inr ⟨by simp, by simp, by simpa [node] using walked⟩
      | file id => exact .inr ⟨by simp, by simp, by simpa [node] using walked⟩
  · cases walked

theorem walkWith_link {place : List Bytes} {step : Component} {target : Path}
    (directory : disk.node? place = some .directory)
    (link : disk.node? (Path.enter place step) = some (.link target)) (rest : List Component) :
    disk.walkWith jump place (step :: rest) = jump place target rest := by
  simp [walkWith, directory, link]

theorem walkWith_step {place : List Bytes} {step : Component}
    (directory : disk.node? place = some .directory) (there : disk.node? (Path.enter place step) ≠ none)
    (plain : ∀ target, disk.node? (Path.enter place step) ≠ some (.link target)) (rest : List Component) :
    disk.walkWith jump place (step :: rest) = disk.walkWith jump (Path.enter place step) rest := by
  rw [walkWith, if_pos directory]
  split
  · contradiction
  · rename_i target link
    exact absurd link (plain target)
  · rfl

section Finite

def FinitelyWalked (walk : List Component → Option (List Bytes)) : Prop :=
  ∀ front : List Component, {names : List Bytes | (walk (front ++ names.map .name)).isSome}.Finite

theorem finite_behind (jumps : ∀ dir target, FinitelyWalked (jump dir target)) {place : List Bytes}
    {step : Component} (front : List Component)
    (onward : {names : List Bytes |
      (disk.walkWith jump (Path.enter place step) (front ++ names.map .name)).isSome}.Finite) :
    {names : List Bytes | (disk.walkWith jump place (step :: (front ++ names.map .name))).isSome}.Finite := by
  by_cases linked : ∃ target, disk.node? (Path.enter place step) = some (.link target)
  · obtain ⟨target, link⟩ := linked
    refine (jumps place target front).subset fun names walked => ?_
    obtain ⟨result, walked⟩ := Option.isSome_iff_exists.mp walked
    obtain ⟨_, ⟨other, again, jumped⟩ | ⟨_, plain, _⟩⟩ := walkWith_cons_eq_some walked
    · cases link.symm.trans again
      exact Option.isSome_iff_exists.mpr ⟨result, jumped⟩
    · exact absurd link (plain target)
  · refine onward.subset fun names walked => ?_
    obtain ⟨result, walked⟩ := Option.isSome_iff_exists.mp walked
    obtain ⟨_, ⟨target, link, _⟩ | ⟨_, _, walked⟩⟩ := walkWith_cons_eq_some walked
    · exact absurd ⟨target, link⟩ linked
    · exact Option.isSome_iff_exists.mpr ⟨result, walked⟩

theorem node?_of_walkWith_cons {place : List Bytes} {step : Component} {rest : List Component}
    (walked : (disk.walkWith jump place (step :: rest)).isSome) :
    disk.node? (Path.enter place step) ≠ none := by
  obtain ⟨result, walked⟩ := Option.isSome_iff_exists.mp walked
  obtain ⟨_, ⟨target, link, _⟩ | ⟨there, _⟩⟩ := walkWith_cons_eq_some walked
  · simp [link]
  · exact there

theorem finite_names (disk : Disk) (place : List Bytes) :
    {name : Bytes | disk.node? (place ++ [name]) ≠ none}.Finite := by
  have keys : {names | names ∈ disk.nodes.keys}.Finite := List.finite_toSet _
  refine (keys.preimage (f := fun name => place ++ [name]) ?_).subset fun name there => ?_
  · intro name _ other _ same
    simpa using same
  · have held : disk.nodes[place ++ [name]]? ≠ none := by simpa [node?] using there
    simpa [Std.ExtTreeMap.mem_keys] using held

theorem finite_walkWith_names (jumps : ∀ dir target, FinitelyWalked (jump dir target)) {depth : Nat}
    {place : List Bytes} (bound : ∀ names, disk.node? names ≠ none → names.length ≤ place.length + depth) :
    {names : List Bytes | (disk.walkWith jump place (names.map .name)).isSome}.Finite := by
  -- Each name that is walked without a link leads one place deeper, and no place is deeper than the deepest.
  induction depth generalizing place with
  | zero =>
    refine (Set.finite_singleton []).subset fun names walked => ?_
    cases names with
    | nil => rfl
    | cons name names =>
      have short := bound _ (node?_of_walkWith_cons walked)
      simp only [Path.enter, List.length_append, List.length_singleton] at short
      omega
  | succ depth ih =>
    have below (name : Bytes) : {names : List Bytes |
        (disk.walkWith jump place (.name name :: names.map .name)).isSome}.Finite := by
      refine finite_behind jumps [] (ih fun names there => (bound names there).trans ?_)
      simp only [Path.enter, List.length_append, List.length_singleton]
      omega
    have every := (disk.finite_names place).biUnion fun name _ => (below name).image (name :: ·)
    refine ((Set.finite_singleton []).union every).subset fun names walked => ?_
    cases names with
    | nil => exact .inl rfl
    | cons name names => exact .inr (Set.mem_biUnion (node?_of_walkWith_cons walked) ⟨names, walked, rfl⟩)

theorem exists_depth (disk : Disk) : ∃ depth, ∀ names, disk.node? names ≠ none → names.length ≤ depth := by
  obtain ⟨depth, bound⟩ := (disk.nodes.keys.map List.length).finite_toSet.bddAbove
  refine ⟨depth, fun names there => ?_⟩
  by_cases root : names = []
  · simp [root]
  · apply bound
    have held : disk.nodes[names]? ≠ none := by simpa [node?, root] using there
    have member : names ∈ disk.nodes.keys := by simpa [Std.ExtTreeMap.mem_keys] using held
    exact List.mem_map_of_mem member

theorem finitelyWalked_walkWith (disk : Disk) (jumps : ∀ dir target, FinitelyWalked (jump dir target))
    (place : List Bytes) : FinitelyWalked (disk.walkWith jump place) := by
  intro front
  induction front generalizing place with
  | nil =>
    obtain ⟨depth, bound⟩ := disk.exists_depth
    exact finite_walkWith_names jumps fun names there => (bound names there).trans (Nat.le_add_left _ _)
  | cons step front ih => exact finite_behind jumps front (ih (Path.enter place step))

theorem finitelyWalked (disk : Disk) (links : Nat) (place : List Bytes) :
    FinitelyWalked (disk.walk? links place) := by
  induction links generalizing place with
  | zero => exact disk.finitelyWalked_walkWith (fun _ _ _ => by simp) place
  | succ links ih =>
    refine disk.finitelyWalked_walkWith (fun dir target front => ?_) place
    simp only [← List.append_assoc]
    exact ih _ _

end Finite

end Disk

namespace Path

theorem steps_ofNames {names : List Bytes} (plain : ∀ name ∈ names, PlainName name) (deep : names ≠ []) :
    (ofNames names).steps = .here :: names.map .name := by
  rw [steps, split_ofNames plain deep, List.map_cons]
  exact congrArg _ (List.map_congr_left fun name member => (plain name member).ofPiece)

theorem steps_append_slash (bytes : Bytes) : (Path.mk (bytes ++ [slash])).steps = (Path.mk bytes).steps ++ [.here] := by
  rw [steps, split_append, List.map_append]
  rfl

end Path

namespace Disk

theorem isFile_iff (disk : Disk) (cwd path : Path) :
    disk.isFile cwd path = true ↔
      ∃ place id, disk.place? (cwd.join path) = some place ∧ disk.node? place = some (.file id) := by
  unfold isFile file?
  cases placed : disk.place? (cwd.join path) with
  | none => simp
  | some place =>
    cases node : disk.node? place with
    | none => simp [node]
    | some found => cases found <;> simp [node]

theorem isFile_of_read? {disk : Disk} {cwd path : Path} {bytes : Bytes}
    (readable : disk.read? cwd path = some bytes) : disk.isFile cwd path = true := by
  obtain ⟨id, found, _⟩ := Option.bind_eq_some_iff.mp readable
  simp [isFile, found]

theorem walk?_append_here {disk : Disk} {links : Nat} {place result : List Bytes} {steps : List Component}
    (walked : disk.walk? links place (steps ++ [.here]) = some result) :
    disk.node? result = some .directory := by
  have walkWith {jump : List Bytes → Path → List Component → Option (List Bytes)}
      (jumps : ∀ dir target rest, jump dir target (rest ++ [.here]) = some result →
        disk.node? result = some .directory) {place : List Bytes} {steps : List Component}
      (walked : disk.walkWith jump place (steps ++ [.here]) = some result) :
      disk.node? result = some .directory := by
    induction steps generalizing place with
    | nil =>
      obtain ⟨directory, ⟨target, link, _⟩ | ⟨_, _, onward⟩⟩ := walkWith_cons_eq_some walked
      · exact absurd (directory.symm.trans link) (by simp)
      · rwa [← Option.some.inj onward]
    | cons step steps ih =>
      obtain ⟨_, ⟨target, _, jumped⟩ | ⟨_, _, onward⟩⟩ := walkWith_cons_eq_some walked
      · exact jumps _ target _ jumped
      · exact ih onward
  induction links generalizing place steps with
  | zero => exact walkWith (fun _ _ _ jumped => by cases jumped) walked
  | succ links ih =>
    refine walkWith (fun dir target rest jumped => ?_) walked
    rw [← List.append_assoc] at jumped
    exact ih jumped

end Disk

namespace Machine

variable {machine : Machine}

theorem isFile_of_read? {path : Path} {bytes : Bytes} (readable : machine.read? path = some bytes) :
    machine.isFile path = true :=
  Disk.isFile_of_read? readable

theorem not_isFile_append_slash {bytes : Bytes} (absolute : (Path.mk (bytes ++ [Path.slash])).isAbsolute = true) :
    machine.isFile ⟨bytes ++ [Path.slash]⟩ = false := by
  by_contra file
  obtain ⟨place, id, placed, node⟩ := (machine.disk.isFile_iff _ _).mp ((Bool.not_eq_false _).mp file)
  rw [Path.join_of_isAbsolute _ absolute, Disk.place?, Path.steps_append_slash] at placed
  exact absurd (node.symm.trans (Disk.walk?_append_here placed)) (by simp)

/-- The settled paths of regular files. Links can lead to one file along several of them. -/
def filePaths (machine : Machine) : Set Path :=
  {path | path.IsSettled ∧ machine.isFile path = true}

/-- Every path leads through a limited number of links, so there are no more such paths than can be listed. -/
theorem finite_filePaths (machine : Machine) : machine.filePaths.Finite := by
  have walked := machine.disk.finitelyWalked Disk.linkLimit [] [.here]
  refine ((walked.union (Set.finite_singleton [])).image Path.ofNames).subset ?_
  rintro _ ⟨⟨names, plain, rfl⟩, file⟩
  refine ⟨names, ?_, rfl⟩
  by_cases root : names = []
  · exact .inr root
  · obtain ⟨place, _, placed, _⟩ := (machine.disk.isFile_iff _ _).mp file
    rw [Path.join_of_isAbsolute _ (Path.isAbsolute_ofNames names), Disk.place?,
      Path.steps_ofNames plain root] at placed
    exact .inl (Option.isSome_iff_exists.mpr ⟨place, placed⟩)

end Machine

namespace Uri

theorem target_of_toPath? {names : List Bytes} (plain : ∀ name ∈ names, Path.PlainName name)
    {path : Path} (backed : (ofPath (Path.ofNames names)).toPath? = some path) (cwd : Path) :
    Path.target cwd path = names := by
  rw [toPath?_ofPath_ofNames plain] at backed
  obtain rfl := Option.some.inj backed
  rw [Path.target, Path.join_of_isAbsolute _ (isAbsolute_closeDrive (Path.isAbsolute_ofNames names)),
    Path.settle_components, foldl_enter_closeDrive, Path.foldl_enter_ofNames plain]

theorem IsSettled.eq_ofPath {uri : Uri} (settled : uri.IsSettled) {own : Path}
    (backed : uri.toPath? = some own) (machine : Machine) : uri = ofPath (machine.absolutize own) := by
  obtain ⟨names, plain, rfl⟩ := settled
  exact congrArg (fun names => ofPath (Path.ofNames names)) (target_of_toPath? plain backed machine.cwd).symm

theorem ofPath_injective {path other : Path} (settled : path.IsSettled) (otherSettled : other.IsSettled)
    (same : ofPath other = ofPath path) : other = path := by
  obtain ⟨names, plain, rfl⟩ := settled
  obtain ⟨others, otherPlain, rfl⟩ := otherSettled
  have own := toPath?_ofPath_ofNames plain
  have leads := target_of_toPath? otherPlain (same ▸ own) ⟨[]⟩
  rw [← leads, target_of_toPath? plain own]

theorem IsSettled.own_of_isFile {uri : Uri} (settled : uri.IsSettled) {own : Path}
    (backed : uri.toPath? = some own) {machine : Machine} (file : machine.isFile own = true) :
    own.IsSettled ∧ uri = ofPath own := by
  obtain ⟨names, plain, rfl⟩ := settled
  rw [toPath?_ofPath_ofNames plain] at backed
  obtain rfl := Option.some.inj backed
  have absolute := isAbsolute_closeDrive (Path.isAbsolute_ofNames names)
  rcases closeDrive_cases (Path.ofNames names).bytes with same | closed
  · rw [same]
    exact ⟨⟨names, plain, rfl⟩, rfl⟩
  · rw [closed] at file absolute
    exact absurd file (by simp [Machine.not_isFile_append_slash absolute])

theorem IsSettled.mem_filePaths {uri : Uri} (settled : uri.IsSettled) {own : Path}
    (backed : uri.toPath? = some own) {machine : Machine} (file : machine.isFile own = true) :
    uri ∈ ofPath '' machine.filePaths := by
  obtain ⟨ownSettled, same⟩ := settled.own_of_isFile backed file
  exact ⟨own, ⟨ownSettled, file⟩, same.symm⟩

end Uri

namespace Include

variable {machine : Machine} {dir? : Option Path} {searchDirs : List Path} {filename : String} {path : Path}

theorem isSettled_of_resolve? (resolved : resolve? machine dir? searchDirs filename = some path) :
    path.IsSettled := by
  obtain ⟨dir, _, rfl⟩ := List.mem_map.mp (List.mem_of_find?_eq_some resolved)
  exact Path.isSettled_absolutize _ _

theorem mem_filePaths_of_resolve? (resolved : resolve? machine dir? searchDirs filename = some path) :
    path ∈ machine.filePaths :=
  ⟨isSettled_of_resolve? resolved, List.find?_some resolved⟩

end Include

end AsmIndex
