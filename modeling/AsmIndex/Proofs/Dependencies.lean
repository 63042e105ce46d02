import AsmIndex.Proofs.IncludeLines
import AsmIndex.Proofs.Layers
import Mathlib.Data.List.Forall2

namespace AsmIndex

namespace Source

def headerEnds : List Char :=
  ['h', 'H', 'c', 'C']

theorem IsHeader.ends {file : List Char} (header : IsHeader file) :
    ∃ c ∈ headerEnds, file.getLast? = some c := by
  obtain ⟨stem, _, rfl, letters, rfl, spelled⟩ := header
  rcases spelled with spelled | spelled
  · obtain ⟨a, rest, rfl, lower, none⟩ := List.map_eq_cons_iff.mp spelled
    obtain rfl := List.map_eq_nil_iff.mp none
    have letter : a = 'h' ∨ a = 'H' := eq_of_toLower (by decide) lower
    refine ⟨a, ?_, by simp⟩
    rcases letter with rfl | rfl <;> decide
  · obtain ⟨a, rest, rfl, _, spelled⟩ := List.map_eq_cons_iff.mp spelled
    obtain ⟨b, rest, rfl, _, spelled⟩ := List.map_eq_cons_iff.mp spelled
    obtain ⟨c, rest, rfl, lower, none⟩ := List.map_eq_cons_iff.mp spelled
    obtain rfl := List.map_eq_nil_iff.mp none
    have letter : c = 'c' ∨ c = 'C' := eq_of_toLower (by decide) lower
    refine ⟨c, ?_, by simp⟩
    rcases letter with rfl | rfl <;> decide

theorem includeName?_ends {line name : List Char} (read : includeName? line = some name) :
    ∃ c ∈ headerEnds, name.getLast? = some c := by
  obtain ⟨_, _, _, _, _, shortest⟩ := (includeName?_eq_some_iff line name).mp read
  exact shortest.closed.1.ends

end Source

namespace Path

def EndsInName (path : Path) : Prop :=
  ∃ b, path.bytes.getLast? = some b ∧ b ∉ [slash, dot, 0x3a, 0x7c]

theorem EndsInName.join {path : Path} (ends : path.EndsInName) (dir : Path) :
    (dir.join path).EndsInName := by
  obtain ⟨b, last, plain⟩ := ends
  refine ⟨b, ?_, plain⟩
  unfold Path.join
  split
  · exact last
  · split
    · simp [List.getLast?_append, last]
    · simp [List.getLast?_append, List.getLast?_cons, last]

theorem split_ends {bytes : Bytes} {b : UInt8} (last : bytes.getLast? = some b) (other : b ≠ slash) :
    ∃ before piece, split bytes = before ++ [piece] ∧ piece.getLast? = some b := by
  induction bytes with
  | nil => cases last
  | cons first bytes ih =>
    cases bytes with
    | nil =>
      obtain rfl : first = b := Option.some.inj last
      exact ⟨[], [first], split_of_unsplit (by simpa using other.symm), rfl⟩
    | cons second bytes =>
      rw [List.getLast?_cons_cons] at last
      obtain ⟨before, piece, pieces, ends⟩ := ih last
      -- a slash puts an empty piece in front, any other byte goes to the first piece
      by_cases same : first = slash
      · subst same
        refine ⟨[] :: before, piece, ?_, ends⟩
        rw [split_slash, pieces, List.cons_append]
      · cases before with
        | nil =>
          refine ⟨[], first :: piece, split_cons_of_ne same pieces, ?_⟩
          rw [List.getLast?_cons, ends]
          rfl
        | cons start before =>
          exact ⟨(first :: start) :: before, piece, split_cons_of_ne same pieces, ends⟩

theorem EndsInName.absolutize {path : Path} (ends : path.EndsInName) (cwd : Path) :
    (Path.absolutize cwd path).EndsInName := by
  obtain ⟨b, last, plain⟩ := ends.join cwd
  refine ⟨b, ?_, plain⟩
  simp only [List.mem_cons, not_or] at plain
  obtain ⟨before, piece, pieces, ending⟩ := split_ends last plain.1
  -- such a piece is no dot, so it is the last name of what the path settles to
  have named : Component.ofPiece piece = .name piece := by
    have nonempty : piece ≠ [] := by
      rintro rfl
      cases ending
    have notHere : piece ≠ [dot] := by
      rintro rfl
      exact plain.2.1 (Option.some.inj ending).symm
    have notUp : piece ≠ [dot, dot] := by
      rintro rfl
      exact plain.2.1 (Option.some.inj ending).symm
    simp [Component.ofPiece, nonempty, notHere, notUp]
  have settled : ∃ names, settle (cwd.join path).components = names ++ [piece] := by
    refine ⟨(before.map Component.ofPiece).foldl enter [], ?_⟩
    rw [settle_components, steps, pieces, List.map_append, List.foldl_append, List.map_singleton, named]
    rfl
  obtain ⟨names, settled⟩ := settled
  rw [Path.absolutize, settled, ofNames, if_neg (by simp)]
  simp [List.getLast?_append, List.getLast?_cons, ending]

theorem endsInName_of_mem_includes {text filename : String} (listed : filename ∈ Scan.includes text) :
    (ofString filename).EndsInName := by
  obtain ⟨name, member, rfl⟩ := List.mem_map.mp listed
  obtain ⟨line, _, read⟩ := List.mem_filterMap.mp member
  obtain ⟨c, ending, last⟩ := Source.includeName?_ends read
  have single : ∃ b, String.utf8EncodeChar c = [b] ∧ b ∉ [slash, dot, 0x3a, 0x7c] := by
    simp only [Source.headerEnds, List.mem_cons, List.not_mem_nil, or_false] at ending
    rcases ending with rfl | rfl | rfl | rfl <;> exact ⟨_, rfl, by decide⟩
  obtain ⟨b, encoded, plain⟩ := single
  obtain ⟨stem, rfl⟩ := List.getLast?_eq_some_iff.mp last
  refine ⟨b, ?_, plain⟩
  simp [ofString, Utf8.encodeString, Utf8.encode, encoded]

end Path

namespace Uri

theorem closeDrive_of_endsInName {path : Path} (ends : path.EndsInName) :
    closeDrive path.bytes = path.bytes := by
  obtain ⟨b, last, plain⟩ := ends
  obtain ⟨stem, same⟩ := List.getLast?_eq_some_iff.mp last
  rw [same]
  unfold closeDrive
  split
  · rename_i mark letter _ _ reversed
    obtain rfl : b = mark := by
      rw [List.reverse_append] at reversed
      exact (List.cons.inj reversed).1
    simp only [List.mem_cons, not_or] at plain
    simp [plain.2.2.1, plain.2.2.2.1]
  · rfl

theorem toPath?_ofPath {path : Path} (settled : path.IsSettled) (ends : path.EndsInName) :
    (ofPath path).toPath? = some path := by
  have kept := closeDrive_of_endsInName ends
  obtain ⟨names, plain, rfl⟩ := settled
  rw [toPath?_ofPath_ofNames plain, kept]

end Uri

namespace Machine

/-- The path is the first of the candidates that is a regular file. -/
def FirstFile (machine : Machine) (candidates : List Path) (path : Path) : Prop :=
  ∃ before after, candidates = before ++ path :: after ∧ machine.isFile path = true ∧
    ∀ other ∈ before, machine.isFile other = false

end Machine

namespace Include

theorem firstFile_of_resolve? {machine : Machine} {dir? : Option Path} {searchDirs : List Path}
    {filename : String} {path : Path} (leads : resolve? machine dir? searchDirs filename = some path) :
    machine.FirstFile (candidates machine dir? searchDirs filename) path := by
  obtain ⟨isFile, before, after, same, earlier⟩ := List.find?_eq_some_iff_append.mp leads
  exact ⟨before, after, same, isFile, by simpa using earlier⟩

theorem toPath?_of_resolve? {machine : Machine} {dir? : Option Path} {searchDirs : List Path}
    {filename : String} {path : Path} (ends : (Path.ofString filename).EndsInName)
    (leads : resolve? machine dir? searchDirs filename = some path) :
    (Uri.ofPath path).toPath? = some path := by
  refine Uri.toPath?_ofPath (isSettled_of_resolve? leads) ?_
  obtain ⟨dir, _, rfl⟩ := List.mem_map.mp (List.mem_of_find?_eq_some leads)
  exact (ends.join dir).absolutize machine.cwd

end Include

theorem forall₂_filterMap {α β : Type} (read : α → Option β) (items : List α) :
    List.Forall₂ (fun item result => read item = some result)
      (items.filter fun item => (read item).isSome) (items.filterMap read) := by
  induction items with
  | nil => exact .nil
  | cons item items ih =>
    cases found : read item with
    | none =>
      rw [List.filterMap_cons_none found, List.filter_cons_of_neg (by simp [found])]
      exact ih
    | some result =>
      rw [List.filterMap_cons_some found, List.filter_cons_of_pos (by simp [found])]
      exact .cons found ih

namespace Cache

theorem toPath?_of_mem_dependencies {cache : Cache} {machine : Machine} {uri next : Uri} {text : String}
    (taken : next ∈ (cache.scanEntry machine uri text).dependencies) :
    ∃ path, next = Uri.ofPath path ∧ next.toPath? = some path := by
  obtain ⟨path, member, rfl⟩ := List.mem_map.mp taken
  obtain ⟨filename, listed, leads⟩ := List.mem_filterMap.mp member
  exact ⟨path, rfl, Include.toPath?_of_resolve? (Path.endsInName_of_mem_includes listed) leads⟩

/-- An update records one dependency for each include with a candidate that is a regular file, in the order of the
text and as often as it is listed. The dependency stands for the first such candidate, so two dependencies are the
same exactly if their paths are. Nothing else in the cache changes. -/
theorem update_records_dependencies (cache : Cache) (machine : Machine) (uri : Uri) (text : String) :
    let after := cache.update machine uri text
    let dirs := (uri.toPath?.bind Path.parent?).toList ++ cache.includePaths
    let candidates (filename : String) :=
      dirs.map fun dir => machine.absolutize (dir.join (Path.ofString filename))
    (∃ entry, after.entry? uri = some entry ∧
      List.Forall₂
        (fun filename dependency => ∃ path, machine.FirstFile (candidates filename) path ∧
          dependency = Uri.ofPath path ∧ dependency.toPath? = some path)
        ((Scan.includes text).filter fun filename => (candidates filename).any machine.isFile)
        entry.dependencies ∧
      ∀ first ∈ entry.dependencies, ∀ second ∈ entry.dependencies,
        first = second ↔ first.toPath? = second.toPath?) ∧
    (∀ place, place ≠ uri → after.entry? place = cache.entry? place) ∧
    after.includePaths = cache.includePaths := by
  intro after dirs candidates
  let resolve := Include.resolve? machine (uri.toPath?.bind Path.parent?) cache.includePaths
  have found (filename : String) : (resolve filename).isSome = (candidates filename).any machine.isFile :=
    List.isSome_find?
  have recorded := forall₂_filterMap resolve (Scan.includes text)
  simp only [found] at recorded
  refine ⟨⟨cache.scanEntry machine uri text, cache.entry?_update_self machine uri text, ?_, ?_⟩,
    fun place other => entry?_update_of_ne other cache machine text, rfl⟩
  · have listed : ∀ filename ∈ (Scan.includes text).filter fun filename =>
        (candidates filename).any machine.isFile, (Path.ofString filename).EndsInName :=
      fun filename member => Path.endsInName_of_mem_includes (List.mem_of_mem_filter member)
    refine List.forall₂_map_right_iff.mpr (((List.forall₂_and_left _ _).mpr ⟨listed, recorded⟩).imp ?_)
    rintro filename path ⟨ends, leads⟩
    exact ⟨path, Include.firstFile_of_resolve? leads, rfl, Include.toPath?_of_resolve? ends leads⟩
  · intro first taken second also
    obtain ⟨path, canonical, backed⟩ := toPath?_of_mem_dependencies taken
    obtain ⟨other, otherCanonical, otherBacked⟩ := toPath?_of_mem_dependencies also
    constructor
    · exact congrArg Uri.toPath?
    · intro same
      rw [backed, otherBacked] at same
      rw [canonical, otherCanonical, Option.some.inj same]

end Cache

end AsmIndex
