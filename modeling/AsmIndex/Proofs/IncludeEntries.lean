import AsmIndex.Proofs.Decoding
import AsmIndex.Proofs.LineGrammar
import AsmIndex.Proofs.PathLaws
import AsmIndex.Settings.IncludePath

namespace AsmIndex

namespace Text

theorem trim_eq_nil_iff (s : List Char) : trim s = [] ↔ Blanks s := by
  rw [trim_eq_iff]
  constructor
  · rintro ⟨⟨lead, tail, blankLead, blankTail, rfl⟩, _, _⟩ c member
    rw [List.append_nil] at member
    rcases List.mem_append.mp member with member | member
    · exact blankLead c member
    · exact blankTail c member
  · intro blank
    refine ⟨⟨s, [], blank, ?_, by simp⟩, ?_, ?_⟩
    · intro c member
      cases member
    · intro c first
      cases first
    · intro c last
      cases last

theorem not_blanks_of_mem {s : List Char} {c : Char} (member : c ∈ s) (visible : isBlank c = false) :
    ¬Blanks s := by
  intro blank
  rw [blank c member] at visible
  cases visible

theorem replace_of_not_infix {mark s : List Char} (absent : ¬mark <:+: s) (replacement : List Char) :
    replace mark replacement s = s := by
  induction s with
  | nil => rw [replace]
  | cons c rest ih =>
    rw [List.infix_cons_iff, not_or] at absent
    rw [replace_skip absent.1, ih absent.2]

theorem not_infix_append_cons {mark front back : List Char} {c : Char} (other : c ∉ mark)
    (absent : ¬mark <:+: front) (absentBack : ¬mark <:+: back) : ¬mark <:+: front ++ c :: back := by
  rw [List.infix_append_iff, List.infix_cons_iff]
  rintro (found | (here | found) | ⟨left, right, rfl, ending, start⟩)
  · exact absent found
  · rcases List.prefix_cons_iff.mp here with rfl | ⟨rest, rfl, _⟩
    · exact absent (List.nil_infix)
    · exact other (List.mem_cons_self ..)
  · exact absentBack found
  · rcases List.prefix_cons_iff.mp start with rfl | ⟨rest, rfl, _⟩
    · rw [List.append_nil] at absent
      exact absent ending.isInfix
    · exact other (List.mem_append_right _ (List.mem_cons_self ..))

theorem replace_mark_cons {mark rest : List Char} {c : Char} (nonempty : mark ≠ []) (other : c ∉ mark)
    (absent : ¬mark <:+: rest) (replacement : List Char) :
    replace mark replacement (mark ++ c :: rest) = replacement ++ c :: rest := by
  have alone : ¬mark <:+: [] := by simpa using nonempty
  have behind : ¬mark <:+: c :: rest := not_infix_append_cons other alone absent
  rw [replace_found mark replacement (c :: rest) nonempty, replace_of_not_infix behind]

end Text

namespace Path

theorem display_ofString (s : String) : (ofString s).display = s := by
  rw [display, ofString, Utf8.decodeString, Utf8.encodeString, Utf8.decode_encode, String.ofList_toList]

theorem text?_ofString (s : String) : (ofString s).text? = some s := by
  rw [text?, ofString, Utf8.encodeString, Utf8.decode?, Utf8.decode_encode, if_pos rfl, Option.map_some,
    String.ofList_toList]

theorem head?_of_isAbsolute {s : String} (absolute : (ofString s).isAbsolute = true) :
    s.toList.head? = some '/' := by
  obtain ⟨rest, starts⟩ := exists_bytes_of_isAbsolute absolute
  have bytes : Utf8.encode s.toList = slash :: rest := starts
  rw [← Utf8.decode_encode s.toList, bytes, Utf8.decode_ascii (by decide)]
  rfl

end Path

namespace IncludePath

open Text

/-- No placeholder stands in the text. -/
structure Plain (s : List Char) : Prop where
  home : ¬homePlaceholder.toList <:+: s
  workspace : ¬workspacePlaceholder.toList <:+: s

theorem Plain.append_slash {front back : List Char} (plain : Plain front) (plainBack : Plain back) :
    Plain (front ++ '/' :: back) :=
  ⟨not_infix_append_cons (by decide +kernel) plain.home plainBack.home,
    not_infix_append_cons (by decide +kernel) plain.workspace plainBack.workspace⟩

theorem expandTilde_of_head {s : List Char} (other : s.head? ≠ some '~') (home : List Char) :
    expandTilde home s = s := by
  unfold expandTilde
  split
  · exact absurd rfl other
  · exact absurd rfl other
  · rfl

theorem expandTilde_of_isAbsolute {dir : String} (absolute : (Path.ofString dir).isAbsolute = true)
    (home back : List Char) : expandTilde home (dir.toList ++ back) = dir.toList ++ back := by
  apply expandTilde_of_head
  rw [List.head?_append, Path.head?_of_isAbsolute absolute]
  simp

section Entry

variable {machine : Machine} {root home x : String} (homeText : machine.home = Path.ofString home)

include homeText

theorem fill_eq (raw : String) : fill machine (some (.ofString root)) raw =
    expandTilde home.toList (replace workspacePlaceholder.toList root.toList
      (replace homePlaceholder.toList home.toList raw.toList)) := by
  unfold fill
  rw [homeText, Path.display_ofString, Option.bind_some, Path.text?_ofString]

theorem fill_plain {raw : String} (plain : Plain raw.toList) :
    fill machine (some (.ofString root)) raw = expandTilde home.toList raw.toList := by
  rw [fill_eq homeText, replace_of_not_infix plain.home, replace_of_not_infix plain.workspace]

theorem fill_workspace (absolute : (Path.ofString root).isAbsolute = true) (plain : Plain x.toList) :
    fill machine (some (.ofString root)) (workspacePlaceholder ++ "/" ++ x) = root.toList ++ '/' :: x.toList := by
  have entry : (workspacePlaceholder ++ "/" ++ x).toList = workspacePlaceholder.toList ++ '/' :: x.toList := by
    simp
  have noHome : ¬homePlaceholder.toList <:+: workspacePlaceholder.toList ++ '/' :: x.toList :=
    not_infix_append_cons (by decide +kernel) (by decide +kernel) plain.home
  rw [fill_eq homeText, entry, replace_of_not_infix noHome,
    replace_mark_cons (by decide +kernel) (by decide +kernel) plain.workspace, expandTilde_of_isAbsolute absolute]

theorem fill_home (absolute : (Path.ofString home).isAbsolute = true) (homePlain : Plain home.toList)
    (plain : Plain x.toList) :
    fill machine (some (.ofString root)) (homePlaceholder ++ "/" ++ x) = home.toList ++ '/' :: x.toList := by
  have entry : (homePlaceholder ++ "/" ++ x).toList = homePlaceholder.toList ++ '/' :: x.toList := by
    simp
  rw [fill_eq homeText, entry, replace_mark_cons (by decide +kernel) (by decide +kernel) plain.home,
    replace_of_not_infix (homePlain.append_slash plain).workspace, expandTilde_of_isAbsolute absolute]

theorem fill_tilde (plain : Plain x.toList) :
    fill machine (some (.ofString root)) ("~/" ++ x) = home.toList ++ '/' :: x.toList := by
  have entry : ("~/" ++ x).toList = ['~'] ++ '/' :: x.toList := by
    simp
  have tilde : Plain ['~'] := ⟨by decide +kernel, by decide +kernel⟩
  have whole : Plain ("~/" ++ x).toList := entry ▸ tilde.append_slash plain
  rw [fill_plain homeText whole, entry]
  rfl

end Entry

theorem resolve_of_fill {machine : Machine} {root dir x : String} {raw : String}
    (absolute : (Path.ofString dir).isAbsolute = true) (relative : (Path.ofString x).isAbsolute = false)
    (filled : fill machine (some (.ofString root)) raw = dir.toList ++ '/' :: x.toList) :
    resolve machine (some (.ofString root)) raw = machine.absolutize ((Path.ofString dir).join (.ofString x)) := by
  have bytes : Utf8.encode (dir.toList ++ '/' :: x.toList) =
      (Path.ofString dir).bytes ++ Path.slash :: (Path.ofString x).bytes :=
    List.flatMap_append
  change Path.absolutize machine.cwd ((Path.ofString root).join ⟨Utf8.encode _⟩) = _
  rw [filled, bytes, Path.join_of_isAbsolute _ (Path.isAbsolute_append absolute _)]
  exact Path.absolutize_append_slash absolute relative machine.cwd

theorem resolve_plain {machine : Machine} {root home x : String} (homeText : machine.home = Path.ofString home)
    (plain : Plain x.toList) (other : x.toList.head? ≠ some '~') :
    resolve machine (some (.ofString root)) x = machine.absolutize ((Path.ofString root).join (.ofString x)) := by
  have filled : fill machine (some (.ofString root)) x = x.toList := by
    rw [fill_plain homeText plain, expandTilde_of_head other]
  change Path.absolutize machine.cwd ((Path.ofString root).join ⟨Utf8.encode _⟩) = _
  rw [filled]
  rfl

def entryDirs (machine : Machine) (root? : Option Path) (raw : String) : List Path :=
  if trim raw.toList = [] then [] else [resolve machine root? raw]

theorem entryDirs_of_visible {raw : String} (visible : ¬Blanks raw.toList) (machine : Machine)
    (root? : Option Path) : entryDirs machine root? raw = [resolve machine root? raw] := by
  apply if_neg
  rw [trim_eq_nil_iff]
  exact visible

theorem searchDirs_eq_flatMap (settings : Settings) (machine : Machine) (root? : Option Path) :
    settings.searchDirs machine root? = settings.includePaths.flatMap (entryDirs machine root?) := by
  unfold Settings.searchDirs
  induction settings.includePaths with
  | nil => rfl
  | cons raw rest ih =>
    by_cases blank : trim raw.toList = []
    · simpa [entryDirs, blank] using ih
    · simpa [entryDirs, blank] using ih

end IncludePath

namespace Settings

open Text IncludePath

/-- Every entry that is not blank adds one settled path, whatever entries stand around it. Without a placeholder it
is taken from the workspace, as it is behind the placeholder of the workspace. Behind the placeholder of the home
directory and behind a tilde it is taken from there. -/
theorem searchDirs_entrywise {machine : Machine} {root home : String}
    (rootAbsolute : (Path.ofString root).isAbsolute = true) (homeText : machine.home = .ofString home)
    (homeAbsolute : (Path.ofString home).isAbsolute = true) (homePlain : Plain home.toList) :
    ∃ expand : String → List Path,
      (∀ settings : Settings,
        settings.searchDirs machine (some (.ofString root)) = settings.includePaths.flatMap expand) ∧
      (∀ raw, Blanks raw.toList → expand raw = []) ∧
      (∀ raw, ¬Blanks raw.toList → ∃ path, expand raw = [path] ∧ path.isAbsolute = true ∧
        (∀ part ∈ path.components, part ≠ .here ∧ part ≠ .up) ∧
        ∀ piece ∈ Path.split path.bytes, piece ≠ [Path.dot] ∧ piece ≠ [Path.dot, Path.dot]) ∧
      ∀ x : String, (Path.ofString x).isAbsolute = false → ¬Blanks x.toList → Plain x.toList →
        x.toList.head? ≠ some '~' →
        let fromRoot := machine.absolutize ((Path.ofString root).join (.ofString x))
        let fromHome := machine.absolutize (machine.home.join (.ofString x))
        expand x = [fromRoot] ∧ expand (workspacePlaceholder ++ "/" ++ x) = [fromRoot] ∧
        expand (homePlaceholder ++ "/" ++ x) = [fromHome] ∧ expand ("~/" ++ x) = [fromHome] := by
  refine ⟨entryDirs machine (some (.ofString root)), ?_, ?_, ?_, ?_⟩
  · intro settings
    exact searchDirs_eq_flatMap settings machine _
  · intro raw blank
    exact if_pos ((trim_eq_nil_iff _).mpr blank)
  · intro raw visible
    have settled : (resolve machine (some (.ofString root)) raw).IsSettled := Path.isSettled_absolutize _ _
    refine ⟨_, entryDirs_of_visible visible machine _, ?_, settled.level, settled.piece_ne_dots⟩
    obtain ⟨names, _, same⟩ := settled
    rw [same, Path.isAbsolute_ofNames]
  · intro x relative visible plain other
    -- each of the prefixes has a slash behind it, so none of the entries is blank
    have slash : isBlank '/' = false := by decide
    have workspaceEntry := not_blanks_of_mem (s := (workspacePlaceholder ++ "/" ++ x).toList) (by simp) slash
    have homeEntry := not_blanks_of_mem (s := (homePlaceholder ++ "/" ++ x).toList) (by simp) slash
    have tildeEntry := not_blanks_of_mem (s := ("~/" ++ x).toList) (by simp) slash
    refine ⟨?_, ?_, ?_, ?_⟩
    · rw [entryDirs_of_visible visible, resolve_plain homeText plain other]
    · rw [entryDirs_of_visible workspaceEntry,
        resolve_of_fill rootAbsolute relative (fill_workspace homeText rootAbsolute plain)]
    · rw [entryDirs_of_visible homeEntry, homeText,
        resolve_of_fill homeAbsolute relative (fill_home homeText homeAbsolute homePlain plain)]
    · rw [entryDirs_of_visible tildeEntry, homeText,
        resolve_of_fill homeAbsolute relative (fill_tilde homeText plain)]

theorem climbing_entry_searchDirs :
    let machine : Machine := ⟨.empty, .ofString "/home/me", .ofString "/"⟩
    let root := "/work/$\x7buserHome\x7d"
    let x := "lib/../my inc//."
    let settings := { fallback with includePaths :=
      [x, " ", workspacePlaceholder ++ "/" ++ x, homePlaceholder ++ "/" ++ x, "~/" ++ x] }
    let inRoot := Path.ofString "/work/$\x7buserHome\x7d/my inc"
    let inHome := Path.ofString "/home/me/my inc"
    (Path.ofString root).isAbsolute = true ∧ Plain "/home/me".toList ∧ (Path.ofString x).isAbsolute = false ∧
      ¬Blanks x.toList ∧ Plain x.toList ∧ x.toList.head? ≠ some '~' ∧
      settings.searchDirs machine (some (.ofString root)) = [inRoot, inRoot, inHome, inHome] := by
  intro machine root x settings inRoot inHome
  have rootAbsolute : (Path.ofString root).isAbsolute = true := by decide +kernel
  have homePlain : Plain "/home/me".toList := ⟨by decide +kernel, by decide +kernel⟩
  have relative : (Path.ofString x).isAbsolute = false := by decide +kernel
  have visible : ¬Blanks x.toList := by
    rw [← trim_eq_nil_iff]
    decide +kernel
  have plain : Plain x.toList := ⟨by decide +kernel, by decide +kernel⟩
  have other : x.toList.head? ≠ some '~' := by decide +kernel
  have blank : Blanks " ".toList := by
    rw [← trim_eq_nil_iff]
    decide +kernel
  have rooted : machine.absolutize ((Path.ofString root).join (.ofString x)) = inRoot := by decide +kernel
  have housed : machine.absolutize (machine.home.join (.ofString x)) = inHome := by decide +kernel
  have homeText : machine.home = .ofString "/home/me" := rfl
  have homeAbsolute : (Path.ofString "/home/me").isAbsolute = true := by decide +kernel
  obtain ⟨expand, entrywise, blanks, _, spellings⟩ :=
    searchDirs_entrywise rootAbsolute homeText homeAbsolute homePlain
  obtain ⟨bare, workspace, home, tilde⟩ := spellings x relative visible plain other
  rw [rooted] at bare workspace
  rw [housed] at home tilde
  refine ⟨rootAbsolute, homePlain, relative, visible, plain, other, ?_⟩
  rw [entrywise]
  change expand x ++ (expand " " ++ (expand _ ++ (expand _ ++ (expand _ ++ [])))) = _
  rw [bare, blanks " " blank, workspace, home, tilde]
  rfl

end Settings

end AsmIndex
