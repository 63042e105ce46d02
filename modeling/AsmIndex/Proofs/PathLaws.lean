import AsmIndex.Proofs.FileIdentity

namespace AsmIndex

namespace Path

def target (cwd path : Path) : List Bytes :=
  settle (cwd.join path).components

/-- The path is made of plain names below the root. -/
def IsSettled (path : Path) : Prop :=
  ∃ names, (∀ name ∈ names, PlainName name) ∧ path = ofNames names

/-- The place that a path leads to from a place. An absolute path starts from the root. -/
def follow (place : List Bytes) (path : Path) : List Bytes :=
  path.components.foldl enter place

theorem follow_eq (place : List Bytes) (path : Path) :
    follow place path =
      path.steps.foldl enter (if path.isAbsolute then [] else place) := by
  unfold follow components
  rw [List.foldl_append, foldl_enter_filter]
  congr 1
  split
  · rfl
  · split <;> rfl

theorem settle_components (path : Path) :
    settle path.components = path.steps.foldl enter [] := by
  have start := follow_eq [] path
  rwa [ite_self] at start

theorem follow_ofNames {names : List Bytes} (plain : ∀ name ∈ names, PlainName name) (place : List Bytes) :
    follow place (ofNames names) = names := by
  rw [follow_eq, isAbsolute_ofNames, if_pos rfl, foldl_enter_ofNames plain]

theorem settle_ofNames {names : List Bytes} (plain : ∀ name ∈ names, PlainName name) :
    settle (ofNames names).components = names :=
  follow_ofNames plain []

theorem target_ofNames (cwd : Path) {names : List Bytes} (plain : ∀ name ∈ names, PlainName name) :
    target cwd (ofNames names) = names := by
  rw [target, join_of_isAbsolute _ (isAbsolute_ofNames names), settle_ofNames plain]

theorem plainName_of_mem_target {cwd path : Path} {name : Bytes} (member : name ∈ target cwd path) :
    PlainName name :=
  plainName_of_mem_foldl_enter (fun _ inside => plainName_of_mem_components inside) (by simp) name member

theorem isSettled_absolutize (cwd path : Path) : (absolutize cwd path).IsSettled :=
  absolutize_eq_ofNames cwd path

theorem IsSettled.absolutize {path : Path} (settled : path.IsSettled) (cwd : Path) :
    Path.absolutize cwd path = path := by
  obtain ⟨names, plain, rfl⟩ := settled
  exact congrArg ofNames (target_ofNames cwd plain)

theorem isSettled_iff (path : Path) : path.IsSettled ↔ Path.absolutize ⟨[slash]⟩ path = path :=
  ⟨fun settled => settled.absolutize _, fun same => same ▸ isSettled_absolutize _ _⟩

theorem isAbsolute_join {dir path : Path} (relative : path.isAbsolute = false) (nonempty : dir.bytes ≠ []) :
    (dir.join path).isAbsolute = dir.isAbsolute := by
  obtain ⟨b, bytes, start⟩ := List.exists_cons_of_ne_nil nonempty
  unfold join
  rw [relative, start]
  simp only [Bool.false_eq_true, if_false]
  split <;> simp [isAbsolute, start]

theorem exists_front_of_join {dir path : Path} (relative : path.isAbsolute = false) (nonempty : dir.bytes ≠ []) :
    ∃ front, (dir.join path).bytes = front ++ slash :: path.bytes ∧
      (dir.bytes = front ∨ dir.bytes = front ++ [slash]) := by
  -- One slash stands between the two, which the directory can end in already.
  by_cases closed : dir.bytes.getLast? = some slash
  · obtain ⟨front, ends⟩ := List.getLast?_eq_some_iff.mp closed
    exact ⟨front, by simp [join, relative, ends], .inr ends⟩
  · exact ⟨dir.bytes, by simp [join, relative, nonempty, closed], .inl rfl⟩

theorem follow_join (place : List Bytes) (dir path : Path) :
    follow place (dir.join path) = follow (follow place dir) path := by
  by_cases absolute : path.isAbsolute = true
  · rw [join_of_isAbsolute dir absolute, follow_eq, follow_eq (follow place dir), if_pos absolute, if_pos absolute]
  · have relative : path.isAbsolute = false := by simpa using absolute
    by_cases empty : dir.bytes = []
    · have same : dir.join path = path := by simp [join, relative, empty]
      have stay : follow place dir = place := by
        rw [follow_eq, isAbsolute, steps, empty]
        rfl
      rw [same, stay]
    · -- the pieces of both stand one after the other, up to an empty one where the directory ends in a slash
      have start := isAbsolute_join relative empty
      rw [follow_eq, start, follow_eq (follow place dir), if_neg absolute, follow_eq place dir]
      generalize (if dir.isAbsolute then [] else place) = place
      obtain ⟨front, joined, ends⟩ := exists_front_of_join relative empty
      have whole : dir.join path = ⟨front ++ slash :: path.bytes⟩ := congrArg Path.mk joined
      rw [whole, foldl_enter_append]
      rcases ends with ends | closed
      · rw [← ends]
      · have last : dir = ⟨front ++ [slash]⟩ := congrArg Path.mk closed
        rw [last, foldl_enter_final_slash]

theorem isAbsolute_append {dir : Path} (absolute : dir.isAbsolute = true) (bytes : Bytes) :
    (⟨dir.bytes ++ bytes⟩ : Path).isAbsolute = true := by
  obtain ⟨rest, same⟩ := exists_bytes_of_isAbsolute absolute
  rw [same]
  rfl

theorem follow_append_slash {dir path : Path} (absolute : dir.isAbsolute = true)
    (relative : path.isAbsolute = false) (place : List Bytes) :
    follow place ⟨dir.bytes ++ slash :: path.bytes⟩ = follow (follow place dir) path := by
  rw [follow_eq, follow_eq (follow place dir), follow_eq place dir, isAbsolute_append absolute, absolute, relative,
    foldl_enter_append]
  rfl

theorem absolutize_eq_follow (cwd path : Path) : absolutize cwd path = ofNames (follow (follow [] cwd) path) :=
  congrArg ofNames (follow_join [] cwd path)

theorem absolutize_append_slash {dir path : Path} (absolute : dir.isAbsolute = true)
    (relative : path.isAbsolute = false) (cwd : Path) :
    absolutize cwd ⟨dir.bytes ++ slash :: path.bytes⟩ = absolutize cwd (dir.join path) := by
  rw [absolutize_eq_follow, absolutize_eq_follow, follow_append_slash absolute relative, follow_join]

theorem follow_absolutize (cwd path : Path) (place : List Bytes) :
    follow place (absolutize cwd path) = follow (follow [] cwd) path := by
  have same : target cwd path = follow (follow [] cwd) path := follow_join [] cwd path
  rw [absolutize_eq_follow, ← same]
  exact follow_ofNames (fun _ member => plainName_of_mem_target member) place

theorem absolutize_join (cwd dir path : Path) :
    absolutize cwd (dir.join path) = absolutize cwd ((absolutize cwd dir).join path) := by
  rw [absolutize_eq_follow, absolutize_eq_follow cwd ((absolutize cwd dir).join path), follow_join, follow_join,
    follow_absolutize]

theorem absolutize_cwd_join {cwd : Path} (absolute : cwd.isAbsolute = true) (path : Path) :
    absolutize cwd (cwd.join path) = absolutize cwd path := by
  have again : follow (follow [] cwd) cwd = follow [] cwd := by
    rw [follow_eq, follow_eq [], if_pos absolute, ite_self]
  rw [absolutize_eq_follow, absolutize_eq_follow, follow_join, again]

theorem IsSettled.level {path : Path} (settled : path.IsSettled) :
    ∀ part ∈ path.components, part ≠ .here ∧ part ≠ .up := by
  obtain ⟨names, plain, rfl⟩ := settled
  intro part member
  rw [components_ofNames plain] at member
  rcases List.mem_cons.mp member with rfl | member
  · simp
  · obtain ⟨name, _, rfl⟩ := List.mem_map.mp member
    simp

theorem IsSettled.piece_ne_dots {path : Path} (settled : path.IsSettled) :
    ∀ piece ∈ split path.bytes, piece ≠ [dot] ∧ piece ≠ [dot, dot] := by
  obtain ⟨names, plain, rfl⟩ := settled
  intro piece member
  by_cases root : names = []
  · subst root
    have pieces : split (ofNames []).bytes = [[], []] := by decide
    rw [pieces] at member
    simp_all
  · rw [split_ofNames plain root] at member
    rcases List.mem_cons.mp member with rfl | member
    · simp
    · exact ⟨(plain piece member).notHere, (plain piece member).notUp⟩

theorem exists_names_of_named {parts : List Component} (named : ∀ part ∈ parts, ∃ bytes, part = .name bytes) :
    ∃ names : List Bytes, parts = names.map .name := by
  induction parts with
  | nil => exact ⟨[], rfl⟩
  | cons part parts ih =>
    obtain ⟨bytes, rfl⟩ := named part (by simp)
    obtain ⟨names, rfl⟩ := ih fun other member => named other (List.mem_cons_of_mem _ member)
    exact ⟨bytes :: names, rfl⟩

theorem exists_names_of_level {path : Path} (absolute : path.isAbsolute = true) (level : .up ∉ path.components) :
    ∃ names : List Bytes, (∀ name ∈ names, PlainName name) ∧ path.components = .root :: names.map .name := by
  have parts := components_of_isAbsolute absolute
  have named : ∀ part ∈ path.steps.filter (· ≠ .here),
      ∃ bytes, part = .name bytes := by
    intro part member
    have listed : part ∈ path.components := by
      rw [parts]
      exact List.mem_cons_of_mem _ member
    obtain ⟨inside, other⟩ := List.mem_filter.mp member
    obtain ⟨piece, _, rfl⟩ := List.mem_map.mp inside
    rcases Component.ofPiece_cases piece with here | up | name
    · simp [here] at other
    · exact absurd (up ▸ listed) level
    · exact ⟨piece, name⟩
  obtain ⟨names, same⟩ := exists_names_of_named named
  rw [same] at parts
  refine ⟨names, ?_, parts⟩
  intro name member
  have listed : Component.name name ∈ path.components := by
    rw [parts]
    exact List.mem_cons_of_mem _ (List.mem_map_of_mem member)
  exact plainName_of_mem_components listed

theorem components_absolutize_of_level {path : Path} (absolute : path.isAbsolute = true)
    (level : .up ∉ path.components) (cwd : Path) : (absolutize cwd path).components = path.components := by
  obtain ⟨names, plain, parts⟩ := exists_names_of_level absolute level
  have settled : settle path.components = names := by
    rw [parts]
    exact foldl_enter_names names []
  rw [absolutize, join_of_isAbsolute cwd absolute, settled, components_ofNames plain, parts]

/-- From an absolute working directory every path has one absolute form, without dots, which stays as it is. It can
be taken of a directory before something is joined to it, a path counts from the working directory, and what has
that form already keeps its components. -/
theorem absolutize_normal_form {cwd : Path} (absolute : cwd.isAbsolute = true) :
    (∀ path, (absolutize cwd path).isAbsolute = true ∧
      (∀ part ∈ (absolutize cwd path).components, part ≠ .here ∧ part ≠ .up) ∧
      (∀ piece ∈ split (absolutize cwd path).bytes, piece ≠ [dot] ∧ piece ≠ [dot, dot]) ∧
      absolutize cwd (absolutize cwd path) = absolutize cwd path) ∧
    (∀ dir path, absolutize cwd (dir.join path) = absolutize cwd ((absolutize cwd dir).join path)) ∧
    (∀ path, absolutize cwd (cwd.join path) = absolutize cwd path) ∧
    ∀ path, path.isAbsolute = true → .up ∉ path.components →
      (absolutize cwd path).components = path.components := by
  refine ⟨fun path => ?_, absolutize_join cwd, absolutize_cwd_join absolute, fun path rooted level => ?_⟩
  · have settled := isSettled_absolutize cwd path
    exact ⟨isAbsolute_ofNames _, settled.level, settled.piece_ne_dots, settled.absolutize cwd⟩
  · exact components_absolutize_of_level rooted level cwd

theorem climbing_path_normal_form :
    let cwd := ofString "/work/asm"
    let dir := ofString "..//lib/./"
    let path := ofString "../../../macros.inc"
    cwd.isAbsolute = true ∧ absolutize cwd (dir.join path) = absolutize cwd ((absolutize cwd dir).join path) ∧
      absolutize cwd dir = ofString "/work/lib" ∧ absolutize cwd (dir.join path) = ofString "/macros.inc" := by
  intro cwd dir path
  have absolute : cwd.isAbsolute = true := by decide
  exact ⟨absolute, (absolutize_normal_form absolute).2.1 dir path, by decide +kernel, by decide +kernel⟩

end Path

end AsmIndex
