import AsmIndex.Editor.Hover
import AsmIndex.Proofs.Canonical
import AsmIndex.Proofs.IncludeEntries

namespace AsmIndex

namespace Path

theorem leadFrom?_shared (part : Component) (parts base : List Component) :
    leadFrom? true (part :: parts) (part :: base) = leadFrom? true parts base := by
  rw [leadFrom?.eq_def]
  exact if_pos ⟨rfl, rfl⟩

theorem leadFrom?_append (base rest : List Component) : leadFrom? true (base ++ rest) base = some rest := by
  induction base with
  | nil => cases rest <;> rfl
  | cons step base ih =>
    rw [List.cons_append, leadFrom?_shared]
    exact ih

theorem head?_of_leadFrom? {parts base lead : List Component} (named : .here ∉ base) (apart : ¬base <+: parts)
    (leads : leadFrom? true parts base = some lead) : lead.head? = some .up := by
  induction base generalizing parts with
  | nil => exact absurd List.nil_prefix apart
  | cons step base ih =>
    cases parts with
    | nil =>
      obtain rfl := Option.some.inj leads
      rfl
    | cons part parts =>
      by_cases same : part = step
      · subst same
        rw [leadFrom?_shared] at leads
        exact ih (fun member => named (List.mem_cons_of_mem _ member))
          (fun below => apart (List.cons_prefix_cons.mpr ⟨rfl, below⟩)) leads
      · -- at the first difference every other component of the base is left by going up
        rw [leadFrom?.eq_def] at leads
        simp only [same, and_false, if_false] at leads
        cases step with
        | here => exact absurd (List.mem_cons_self ..) named
        | up => cases leads
        | root =>
          obtain rfl := Option.some.inj leads
          rfl
        | name bytes =>
          obtain rfl := Option.some.inj leads
          rfl

theorem split_intercalate_cons {piece : Bytes} (unsplit : slash ∉ piece) (next : Bytes) (pieces : List Bytes) :
    split ([slash].intercalate (piece :: next :: pieces)) =
      piece :: split ([slash].intercalate (next :: pieces)) := by
  rw [List.intercalate_cons_cons, List.append_assoc, List.singleton_append, split_append, split_of_unsplit unsplit]
  rfl

theorem split_intercalate {pieces : List Bytes} (nonempty : pieces ≠ [])
    (unsplit : ∀ piece ∈ pieces, slash ∉ piece) : split ([slash].intercalate pieces) = pieces := by
  induction pieces with
  | nil => contradiction
  | cons piece pieces ih =>
    have here := unsplit piece (List.mem_cons_self ..)
    cases pieces with
    | nil => rw [List.intercalate_singleton, split_of_unsplit here]
    | cons next pieces =>
      rw [split_intercalate_cons here,
        ih (List.cons_ne_nil _ _) fun other member => unsplit other (List.mem_cons_of_mem _ member)]

theorem components_of_split {path : Path} {piece : Bytes} {pieces : List Bytes}
    (parts : split path.bytes = piece :: pieces) (nonempty : piece ≠ []) (other : piece ≠ [dot]) :
    path.isAbsolute = false ∧
      path.components = ((piece :: pieces).map Component.ofPiece).filter (· ≠ .here) := by
  have relative : path.isAbsolute = false := by
    rw [Bool.eq_false_iff]
    intro absolute
    obtain ⟨rest, same⟩ := exists_bytes_of_isAbsolute absolute
    rw [same, split_slash] at parts
    exact nonempty (List.cons.inj parts).1.symm
  refine ⟨relative, ?_⟩
  simp [components, steps, relative, parts, other]

theorem startsUp_ofComponents {lead : List Component} (up : lead.head? = some .up) :
    (ofComponents lead).startsUp = true := by
  obtain ⟨rest, rfl⟩ := List.head?_eq_some_iff.mp up
  have split : ∃ pieces, split (ofComponents (.up :: rest)).bytes = [dot, dot] :: pieces := by
    cases rest with
    | nil => exact ⟨[], by decide⟩
    | cons next rest => exact ⟨_, split_intercalate_cons (by decide) next.bytes (rest.map Component.bytes)⟩
  obtain ⟨pieces, split⟩ := split
  rw [startsUp, (components_of_split split (by decide) (by decide)).2]
  rfl

theorem ofComponents_names (names : List Bytes) :
    ofComponents (names.map .name) = ⟨[slash].intercalate names⟩ := by
  have bytes : (names.map Component.name).map Component.bytes = names := by
    rw [List.map_map]
    exact List.map_id _
  cases names with
  | nil => rfl
  | cons name names => exact congrArg (fun names => Path.mk ([slash].intercalate names)) bytes

theorem components_ofComponents {names : List Bytes} (plain : ∀ name ∈ names, PlainName name) :
    (ofComponents (names.map .name)).isAbsolute = false ∧
      (ofComponents (names.map .name)).components = names.map .name := by
  rw [ofComponents_names]
  cases names with
  | nil => decide
  | cons name names =>
    have first := plain name (List.mem_cons_self ..)
    have parts : split (Path.mk ([slash].intercalate (name :: names))).bytes = name :: names :=
      split_intercalate (List.cons_ne_nil _ _) fun other member => (plain other member).unsplit
    obtain ⟨relative, components⟩ := components_of_split parts first.nonempty first.notHere
    exact ⟨relative, components.trans (components_of_plain plain)⟩

theorem components_join {dir path : Path} (absolute : dir.isAbsolute = true) (relative : path.isAbsolute = false)
    (named : .here ∉ path.components) : (dir.join path).components = dir.components ++ path.components := by
  have own : path.components = path.steps.filter (· ≠ .here) := by
    by_cases leading : (split path.bytes).head? = some [dot]
    · simp [components, relative, leading] at named
    · simp [components, relative, leading]
  have nonempty : dir.bytes ≠ [] := by
    obtain ⟨bytes, same⟩ := exists_bytes_of_isAbsolute absolute
    simp [same]
  have joined := isAbsolute_join relative nonempty
  rw [absolute] at joined
  rw [components_of_isAbsolute joined, components_of_isAbsolute absolute, own, List.cons_append,
    ← List.filter_append, steps, steps, steps, ← List.map_append]
  obtain ⟨front, bytes, ends | closed⟩ := exists_front_of_join relative nonempty
  · rw [bytes, ends, split_append]
  · -- the piece behind the slash at the end of the directory is empty and counts nowhere
    have last : split [] = [[]] := rfl
    have nowhere : Component.ofPiece [] = .here := by decide
    rw [bytes, closed, split_append, split_append, last]
    simp [nowhere]

end Path

namespace Utf8

theorem encode_cons (c : Char) (s : List Char) : encode (c :: s) = String.utf8EncodeChar c ++ encode s :=
  rfl

theorem encode_append (s t : List Char) : encode (s ++ t) = encode s ++ encode t :=
  List.flatMap_append

theorem eq_slash_of_mem_encodeChar {c : Char} (member : Path.slash ∈ String.utf8EncodeChar c) : c = '/' := by
  obtain ⟨front, back, bytes⟩ := List.append_of_mem member
  have whole : decode (String.utf8EncodeChar c) = [c] := by
    simpa [decode] using decode_encodeChar c []
  rw [bytes, decode_append_ascii (by decide)] at whole
  rcases List.append_eq_singleton_iff.mp whole with ⟨_, rest⟩ | ⟨_, rest⟩
  · exact (List.cons.inj rest).1.symm
  · cases rest

end Utf8

namespace Path

theorem split_append_of_unsplit {front back piece : Bytes} {pieces : List Bytes} (unsplit : slash ∉ front)
    (rest : split back = piece :: pieces) : split (front ++ back) = (front ++ piece) :: pieces := by
  induction front with
  | nil => exact rest
  | cons b front ih =>
    have other : b ≠ slash := fun same => unsplit (same ▸ List.mem_cons_self ..)
    exact split_cons_of_ne other (ih fun member => unsplit (List.mem_cons_of_mem _ member))

theorem exists_encode_of_mem_split {s : List Char} {piece : Bytes} (member : piece ∈ split (Utf8.encode s)) :
    ∃ t, piece = Utf8.encode t := by
  induction s generalizing piece with
  | nil =>
    obtain rfl := List.mem_singleton.mp member
    exact ⟨[], rfl⟩
  | cons c s ih =>
    rw [Utf8.encode_cons] at member
    by_cases same : c = '/'
    · subst same
      have bytes : String.utf8EncodeChar '/' = [slash] := by decide
      rw [bytes, List.singleton_append, split_slash] at member
      rcases List.mem_cons.mp member with rfl | member
      · exact ⟨[], rfl⟩
      · exact ih member
    · obtain ⟨first, pieces, rest⟩ := List.exists_cons_of_ne_nil (split_ne_nil (Utf8.encode s))
      rw [split_append_of_unsplit (fun inside => same (Utf8.eq_slash_of_mem_encodeChar inside)) rest] at member
      rcases List.mem_cons.mp member with rfl | member
      · obtain ⟨t, rfl⟩ := ih (rest ▸ List.mem_cons_self ..)
        exact ⟨c :: t, rfl⟩
      · exact ih (rest ▸ List.mem_cons_of_mem _ member)

theorem exists_encode_intercalate {pieces : List Bytes} (texts : ∀ piece ∈ pieces, ∃ t, piece = Utf8.encode t) :
    ∃ t, [slash].intercalate pieces = Utf8.encode t := by
  induction pieces with
  | nil => exact ⟨[], rfl⟩
  | cons piece pieces ih =>
    obtain ⟨t, rfl⟩ := texts piece (List.mem_cons_self ..)
    obtain ⟨rest, joined⟩ := ih fun other member => texts other (List.mem_cons_of_mem _ member)
    cases pieces with
    | nil => exact ⟨t, List.intercalate_singleton⟩
    | cons next pieces =>
      refine ⟨t ++ '/' :: rest, ?_⟩
      rw [List.intercalate_cons_cons, joined, List.append_assoc, Utf8.encode_append, Utf8.encode_cons]
      rfl

theorem ofString_display {path : Path} (text : ∃ t, path.bytes = Utf8.encode t) :
    ofString path.display = path := by
  obtain ⟨t, bytes⟩ := text
  rw [ofString, display, Utf8.decodeString, Utf8.encodeString, String.toList_ofList, bytes, Utf8.decode_encode,
    ← bytes]

theorem exists_names_of_below {path root : Path} {rest : List Component} (absolute : path.isAbsolute = true)
    (level : .up ∉ path.components) (rooted : root.isAbsolute = true)
    (below : path.components = root.components ++ rest) :
    ∃ names : List Bytes, rest = names.map .name ∧
      ∀ name ∈ names, PlainName name ∧ name ∈ split path.bytes := by
  obtain ⟨all, plain, parts⟩ := exists_names_of_level absolute level
  rw [parts, components_of_isAbsolute rooted, List.cons_append] at below
  obtain ⟨above, names, rfl, _, rfl⟩ := List.append_eq_map_iff.mp (List.cons.inj below).2.symm
  refine ⟨names, rfl, fun name member => ?_⟩
  have listed : Component.name name ∈ path.components := by
    rw [parts]
    exact List.mem_cons_of_mem _ (List.mem_map_of_mem (List.mem_append_right _ member))
  exact ⟨plainName_of_mem_components listed, (mem_split_of_mem_components listed).1⟩

theorem relativeTo?_eq {path root : Path} (absolute : path.isAbsolute = true) (rooted : root.isAbsolute = true) :
    path.relativeTo? root = (leadFrom? true path.components root.components).map ofComponents := by
  rw [relativeTo?, absolute, rooted, if_pos rfl]

end Path

namespace Hover

open AsmIndex.Path

theorem describeFile_below {uri : Uri} {path root : Path} {rest : List Component}
    (file : uri.toPath? = some path) (rooted : root.isAbsolute = true)
    (below : path.components = root.components ++ rest) (level : (ofComponents rest).startsUp = false) :
    describeFile (some root) uri = (ofComponents rest).display := by
  have kept : (path.relativeTo? root).filter (fun relative => !relative.startsUp) = some (ofComponents rest) := by
    rw [relativeTo?_eq (Uri.isAbsolute_of_toPath? file) rooted, below, leadFrom?_append, Option.map_some]
    simp [Option.filter_eq_some_iff, level]
  simp [describeFile, file, kept]

theorem describeFile_elsewhere {uri : Uri} {path root : Path} (file : uri.toPath? = some path)
    (rooted : root.isAbsolute = true) (apart : ¬root.components <+: path.components) :
    describeFile (some root) uri = path.display := by
  have dropped : (path.relativeTo? root).filter (fun relative => !relative.startsUp) = none := by
    rw [relativeTo?_eq (Uri.isAbsolute_of_toPath? file) rooted]
    cases leads : leadFrom? true path.components root.components with
    | none => rfl
    | some lead =>
      have named : .here ∉ root.components := by
        rw [components_of_isAbsolute rooted]
        simp
      simp [startsUp_ofComponents (head?_of_leadFrom? named apart leads)]
  simp [describeFile, file, dropped]

/-- Lines are shown counted from one, as long as there is a number for that. -/
def shownLine (location : Location) : Nat :=
  if location.line.toNat + 1 < UInt32.size then location.line.toNat + 1 else 0

theorem toString_line (location : Location) : toString (location.line + 1) = toString (shownLine location) := by
  have line : (location.line + 1).toNat = shownLine location := by
    have bound := location.line.toNat_lt_size
    rw [UInt32.toNat_add, shownLine]
    split
    · rename_i fits
      exact Nat.mod_eq_of_lt fits
    · rename_i full
      obtain last : location.line.toNat + 1 = UInt32.size := by omega
      exact last ▸ Nat.mod_self _
  rw [← line]
  rfl

end Hover

end AsmIndex
