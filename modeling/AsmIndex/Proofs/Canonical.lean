import AsmIndex.Proofs.FileIdentity
import AsmIndex.Uri.Reader

namespace AsmIndex

theorem bind_eq_ok {ε α β : Type} {first : Except ε α} {next : α → Except ε β} {result : β}
    (run : first >>= next = .ok result) : ∃ value, first = .ok value ∧ next value = .ok result := by
  cases first with
  | error problem => cases run
  | ok value => exact ⟨value, rfl, run⟩

theorem Utf8.encode_injective {s t : List Char} (same : Utf8.encode s = Utf8.encode t) : s = t := by
  have bytes : s.utf8Encode = t.utf8Encode := congrArg List.toByteArray same
  rw [← String.toByteArray_ofList, ← String.toByteArray_ofList] at bytes
  exact String.ofList_inj.mp (String.toByteArray_inj.mp bytes)

namespace Percent

theorem encodeByte_eq_dot {escaped : UInt8 → Bool} {b : UInt8} {rest tail : List Char}
    (written : encodeByte escaped b ++ rest = '.' :: tail) : b = Path.dot ∧ rest = tail := by
  have plain : ∀ n : Fin 256, Char.ofNat n = '.' → n = 46 := by decide +kernel
  unfold encodeByte at written
  split at written
  · cases written
  · obtain ⟨dot, rest⟩ := List.cons.inj written
    have value : b.toNat = 46 := congrArg Fin.val (plain ⟨b.toNat, b.toNat_lt⟩ dot)
    exact ⟨UInt8.toNat_inj.mp value, rest⟩

theorem encode_eq_dot_cons {escaped : UInt8 → Bool} {bytes : Bytes} {tail : List Char}
    (written : encode escaped bytes = '.' :: tail) :
    ∃ rest, bytes = Path.dot :: rest ∧ encode escaped rest = tail := by
  cases bytes with
  | nil => cases written
  | cons b rest =>
    obtain ⟨rfl, same⟩ := encodeByte_eq_dot written
    exact ⟨rest, rfl, same⟩

theorem encode_eq_nil {escaped : UInt8 → Bool} {bytes : Bytes} (written : encode escaped bytes = []) :
    bytes = [] := by
  cases bytes with
  | nil => rfl
  | cons b rest =>
    have first : encodeByte escaped b = [] := (List.append_eq_nil_iff.mp written).1
    unfold encodeByte at first
    split at first <;> cases first

end Percent

namespace Uri

def Folded : UriPath → Prop
  | .rootless _ => True
  | .rooted segments => ".." ∉ segments

theorem encodeSegment_ne_dots {segment : List Char} (other : plainDots segment ≠ ['.', '.'])
    (file : Bool) (before : List String) : encodeSegment file before segment ≠ ".." := by
  unfold encodeSegment
  split
  · intro same
    have text : segment.take 1 ++ [':'] = ['.', '.'] := String.ofList_inj.mp same
    have last := congrArg List.getLast? text
    simp at last
  · intro same
    have text : Percent.encode Percent.escapedInPath (Utf8.encode segment) = ['.', '.'] :=
      String.ofList_inj.mp same
    obtain ⟨rest, first, text⟩ := Percent.encode_eq_dot_cons text
    obtain ⟨last, second, text⟩ := Percent.encode_eq_dot_cons text
    have bytes : Utf8.encode segment = Utf8.encode ['.', '.'] := by
      rw [first, second, Percent.encode_eq_nil text]
      decide
    exact other (by rw [Utf8.encode_injective bytes]; rfl)

theorem shorten_subset (file : Bool) (segments : List String) : shorten file segments ⊆ segments := by
  unfold shorten
  split
  · split <;> simp
  · exact List.dropLast_subset segments

theorem foldSegments_folded (file : Bool) {before : List String} (folded : ".." ∉ before)
    (pieces : List (List Char)) : ".." ∉ foldSegments file before pieces := by
  have ending {segments : List String} (inner : ".." ∉ segments) (rest : List (List Char)) :
      ".." ∉ if rest = [] then segments ++ [""] else segments := by
    split <;> simp [inner]
  fun_induction foldSegments file before pieces with
  | case1 before => exact folded
  | case2 before segment rest atEnd up ih =>
    exact ih (ending (fun member => folded (shorten_subset file before member)) rest)
  | case3 before segment rest atEnd here ih => exact ih (ending folded rest)
  | case4 before segment rest other _ ih =>
    refine ih fun member => ?_
    rcases List.mem_append.mp member with member | member
    · exact folded member
    · exact encodeSegment_ne_dots other file before (List.mem_singleton.mp member).symm

theorem dropEmpty_subset (segments : List String) : dropEmpty segments ⊆ segments := by
  fun_induction dropEmpty segments with
  | case1 next rest ih => exact List.subset_cons_of_subset _ ih
  | case2 segments => exact List.Subset.refl _

theorem segments_folded (kind : SchemeKind) (s : List Char) : ".." ∉ segments kind s := by
  unfold segments
  split
  · exact fun member => foldSegments_folded true (by simp) _ (dropEmpty_subset _ member)
  · exact foldSegments_folded false (by simp) _

theorem readAuthority_folded {scheme : String} {kind : SchemeKind} {s : List Char} {uri : Uri}
    (read : readAuthority scheme kind s = .ok uri) : Folded uri.path := by
  unfold readAuthority at read
  obtain ⟨authority, _, read⟩ := bind_eq_ok read
  obtain rfl := Except.ok.inj read
  change ".." ∉ (if _ then _ else _)
  split
  · simp
  · exact segments_folded kind _

theorem readFile_folded {s : List Char} {uri : Uri} (read : readFile s = .ok uri) :
    Folded uri.path := by
  unfold readFile at read
  dsimp only at read
  -- the host is found in one of four ways, and after each of them the path is read alike
  have found : ∃ first : Except UriError (List Char × List Char), ∃ next,
      first >>= next = .ok uri ∧ ∀ place, ∃ authority query fragment path,
        next place = .ok ⟨"file", authority, .rooted (segments .file path), query, fragment⟩ := by
    split at read
    · split at read
      · split at read
        · exact ⟨_, _, read, fun _ => ⟨_, _, _, _, rfl⟩⟩
        · obtain ⟨host, _, read⟩ := bind_eq_ok read
          exact ⟨_, _, read, fun _ => ⟨_, _, _, _, rfl⟩⟩
      · exact ⟨_, _, read, fun _ => ⟨_, _, _, _, rfl⟩⟩
    · exact ⟨_, _, read, fun _ => ⟨_, _, _, _, rfl⟩⟩
  obtain ⟨first, next, read, alike⟩ := found
  obtain ⟨place, _, read⟩ := bind_eq_ok read
  obtain ⟨authority, query, fragment, path, same⟩ := alike place
  obtain rfl := Except.ok.inj (same.symm.trans read)
  exact segments_folded .file path

theorem readOther_folded {scheme : String} {s : List Char} {uri : Uri}
    (read : readOther scheme s = .ok uri) : Folded uri.path := by
  unfold readOther at read
  split at read
  · exact readAuthority_folded read
  · obtain rfl := Except.ok.inj read
    dsimp only
    split
    · exact segments_folded .other _
    · trivial

theorem parse_folded {text : String} {uri : Uri} (read : parse text = .ok uri) : Folded uri.path := by
  unfold parse at read
  split at read
  · cases read
  · split at read
    · exact readFile_folded read
    · exact readAuthority_folded read
    · exact readOther_folded read

/-- The identifier can be read, and it is the canonical one of its path if it has one. -/
def IsCanonical (uri : Uri) : Prop :=
  (∃ text, parse text = .ok uri) ∧ ∀ path, uri.toPath? = some path → uri = ofPath path

theorem isAbsolute_of_toPath? {uri : Uri} {path : Path} (backed : uri.toPath? = some path) :
    path.isAbsolute = true := by
  unfold toPath? at backed
  split at backed
  · cases backed
  · cases backed
  · rename_i segments nonempty _
    split at backed
    · obtain rfl := Option.some.inj backed
      obtain ⟨segment, segments, rfl⟩ := List.exists_cons_of_ne_nil nonempty
      have rooted : Path.isAbsolute
          ⟨(segment :: segments).flatMap fun s => Path.slash :: Percent.decode s.toList⟩ = true := by
        simp [Path.isAbsolute]
      exact isAbsolute_closeDrive rooted
    · cases backed

theorem exists_names_of_folded {path : Path} (absolute : path.isAbsolute = true)
    (folded : Folded (ofPath path).path) :
    ∃ names : List Bytes, (∀ name ∈ names, Path.PlainName name) ∧
      path.components.drop 1 = names.map .name := by
  have named : ∀ part ∈ path.components.drop 1, part = .name part.bytes := by
    intro part member
    have parts : path.components.drop 1 =
        path.steps.filter (· ≠ .here) := by
      simp only [Path.components, absolute, if_true, List.singleton_append, List.drop_one,
        List.tail_cons]
    have piece : part ≠ .here ∧ part ≠ .root := by
      rw [parts] at member
      obtain ⟨member, other⟩ := List.mem_filter.mp member
      obtain ⟨piece, _, rfl⟩ := List.mem_map.mp member
      refine ⟨by simpa using other, ?_⟩
      unfold Path.Component.ofPiece
      split
      · simp
      · split <;> simp
    cases part with
    | root => simp at piece
    | here => simp at piece
    | name bytes => rfl
    | up =>
      have written : String.ofList (Percent.encode Percent.escapedInName Path.Component.up.bytes) = ".." := by
        decide
      have segments : (ofPath path).path = .rooted ((path.components.drop 1).map fun part =>
          String.ofList (Percent.encode Percent.escapedInName part.bytes)) := by
        unfold ofPath
        split
        · rename_i nothing
          rw [nothing] at member
          cases member
        · rfl
      rw [segments] at folded
      exact absurd (List.mem_map.mpr ⟨.up, member, written⟩) folded
  refine ⟨(path.components.drop 1).map Path.Component.bytes, ?_, ?_⟩
  · intro name member
    obtain ⟨part, inside, rfl⟩ := List.mem_map.mp member
    exact Path.plainName_of_mem_components (named part inside ▸ List.mem_of_mem_drop inside)
  · rw [List.map_map]
    exact (List.map_id _).symm.trans (List.map_congr_left named)

theorem IsCanonical.isSettled {uri : Uri} (canonical : uri.IsCanonical) {path : Path}
    (backed : uri.toPath? = some path) : uri.IsSettled := by
  obtain ⟨⟨text, read⟩, own⟩ := canonical
  obtain rfl := own path backed
  obtain ⟨names, plain, parts⟩ :=
    exists_names_of_folded (isAbsolute_of_toPath? backed) (parse_folded read)
  refine ⟨names, plain, ?_⟩
  have same : (Path.ofNames names).components.drop 1 = path.components.drop 1 := by
    rw [Path.components_ofNames plain, parts, List.drop_one, List.tail_cons]
  unfold ofPath
  rw [same]

end Uri

end AsmIndex
