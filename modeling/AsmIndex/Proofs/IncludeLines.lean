import AsmIndex.Proofs.LineGrammar

namespace AsmIndex

namespace Source

open Text

def IncludeLine (line argument : List Char) : Prop :=
  ∃ indent gap keyword space, Blanks indent ∧ Blanks gap ∧ Blanks space ∧ space ≠ [] ∧
    keyword.map Char.toLower = ['i', 'n', 'c', 'l', 'u', 'd', 'e'] ∧
    line = indent ++ '#' :: (gap ++ keyword ++ space ++ argument)

def IsExtension (s : List Char) : Prop :=
  ∃ letters, s = '.' :: letters ∧
    (letters.map Char.toLower = ['h'] ∨ letters.map Char.toLower = ['i', 'n', 'c'])

def IsHeader (file : List Char) : Prop :=
  ∃ stem extension, file = stem ++ extension ∧ IsExtension extension

def closer? : Char → Option Char
  | '"' => some '"'
  | '<' => some '>'
  | _ => none

/-- The argument of the line is a header between a pair of delimiters. -/
def Delimited (line file : List Char) : Prop :=
  ∃ opener closer tail, closer? opener = some closer ∧
    IncludeLine line (opener :: (file ++ closer :: tail)) ∧ closer ∉ file ∧ IsHeader file

def Closed (s file : List Char) : Prop :=
  IsHeader file ∧ ∃ close tail, isClosing close = true ∧ s = file ++ close :: tail

structure ShortestClosed (s file : List Char) : Prop where
  closed : Closed s file
  shortest : ∀ other, Closed s other → file.length ≤ other.length

/-- The shortest header behind the opening delimiter of the line. -/
def Included (line file : List Char) : Prop :=
  ∃ opener closer rest, closer? opener = some closer ∧ IncludeLine line (opener :: rest) ∧
    ShortestClosed rest file

/-- The header that the line gives runs over the delimiter that closes the argument, or another one ends it. -/
def Strays (line : List Char) : Prop :=
  ∃ opener closer file close tail, closer? opener = some closer ∧
    IncludeLine line (opener :: (file ++ close :: tail)) ∧
    ShortestClosed (file ++ close :: tail) file ∧ (closer ∈ file ∨ close ≠ closer)

theorem extension?_eq_some_iff (s extension : List Char) :
    extension? s = some extension ↔
      IsExtension extension ∧ ∃ close tail, isClosing close = true ∧ s = extension ++ close :: tail := by
  constructor
  · intro read
    unfold extension? at read
    split at read
    · rename_i a close rest
      split at read
      · rename_i single
        obtain rfl := Option.some.inj read
        exact ⟨⟨[a], rfl, .inl (by simp [single.1])⟩, close, rest, single.2, rfl⟩
      · split at read
        · rename_i c last tail
          split at read
          · rename_i triple
            obtain rfl := Option.some.inj read
            obtain ⟨first, second, third, closes⟩ := triple
            exact ⟨⟨[a, close, c], rfl, .inr (by simp [first, second, third])⟩, last, tail, closes, rfl⟩
          · cases read
        · cases read
    · cases read
  · rintro ⟨⟨letters, rfl, spelled⟩, close, tail, closes, rfl⟩
    rcases spelled with spelled | spelled
    · obtain ⟨a, rest, rfl, first, none⟩ := List.map_eq_cons_iff.mp spelled
      obtain rfl := List.map_eq_nil_iff.mp none
      simp [extension?, first, closes]
    · obtain ⟨a, rest, rfl, first, spelled⟩ := List.map_eq_cons_iff.mp spelled
      obtain ⟨b, rest, rfl, second, spelled⟩ := List.map_eq_cons_iff.mp spelled
      obtain ⟨c, rest, rfl, third, none⟩ := List.map_eq_cons_iff.mp spelled
      obtain rfl := List.map_eq_nil_iff.mp none
      simp [extension?, first, second, third, closes]

theorem closed_cons_iff {c : Char} {s : List Char} (missing : extension? (c :: s) = none) (file : List Char) :
    Closed (c :: s) file ↔ ∃ rest, file = c :: rest ∧ Closed s rest := by
  constructor
  · rintro ⟨⟨stem, extension, rfl, isExtension⟩, close, tail, closes, same⟩
    cases stem with
    | nil =>
      have read := (extension?_eq_some_iff (c :: s) extension).mpr ⟨isExtension, close, tail, closes, same⟩
      rw [missing] at read
      cases read
    | cons d stem =>
      obtain ⟨rfl, rfl⟩ := List.cons.inj same
      exact ⟨stem ++ extension, rfl, ⟨stem, extension, rfl, isExtension⟩, close, tail, closes, rfl⟩
  · rintro ⟨rest, rfl, ⟨stem, extension, rfl, isExtension⟩, close, tail, closes, rfl⟩
    exact ⟨⟨c :: stem, extension, rfl, isExtension⟩, close, tail, closes, rfl⟩

theorem Closed.isPrefix {s file : List Char} (closed : Closed s file) : file <+: s := by
  obtain ⟨_, close, tail, _, rfl⟩ := closed
  exact List.prefix_append file (close :: tail)

theorem IsExtension.dot_only_first {extension : List Char} (isExtension : IsExtension extension) :
    ∃ letters, extension = '.' :: letters ∧ '.' ∉ letters := by
  obtain ⟨letters, rfl, spelled⟩ := isExtension
  refine ⟨letters, rfl, fun member => ?_⟩
  have lowered : '.' ∈ letters.map Char.toLower := List.mem_map.mpr ⟨'.', member, by decide⟩
  rcases spelled with spelled | spelled
  · rw [spelled] at lowered
    simp at lowered
  · rw [spelled] at lowered
    simp at lowered

theorem length_le_of_extension? {s extension file : List Char} (read : extension? s = some extension)
    (closed : Closed s file) : extension.length ≤ file.length := by
  obtain ⟨isExtension, close, tail, _, same⟩ := (extension?_eq_some_iff s extension).mp read
  rcases Nat.lt_or_ge file.length extension.length with shorter | enough
  · have inside : file <+: extension :=
      List.prefix_of_prefix_length_le closed.isPrefix ⟨close :: tail, same.symm⟩ (Nat.le_of_lt shorter)
    obtain ⟨⟨stem, ending, rfl, isEnding⟩, follows⟩ := closed
    cases stem with
    | nil =>
      have again := (extension?_eq_some_iff s ending).mpr ⟨isEnding, follows⟩
      rw [Option.some.inj (read.symm.trans again)] at shorter
      simp at shorter
    | cons first stem =>
      -- its dot would stand among the letters of the extension
      obtain ⟨letters, rfl, single⟩ := isExtension.dot_only_first
      obtain ⟨more, rfl, _⟩ := isEnding
      obtain ⟨rest, whole⟩ := inside
      have letter : '.' ∈ letters := by
        rw [← (List.cons.inj whole).2]
        simp
      exact absurd letter single
  · exact enough

theorem shortestClosed_of_headerName? {s file : List Char} (read : headerName? s = some file) :
    ShortestClosed s file := by
  fun_induction headerName? s generalizing file with
  | case1 => cases read
  | case2 c s extension found =>
    obtain rfl := Option.some.inj read
    obtain ⟨isExtension, follows⟩ := (extension?_eq_some_iff (c :: s) extension).mp found
    exact ⟨⟨⟨[], extension, rfl, isExtension⟩, follows⟩, fun other => length_le_of_extension? found⟩
  | case3 c s missing ih =>
    obtain ⟨rest, found, rfl⟩ := Option.map_eq_some_iff.mp read
    obtain ⟨closed, shortest⟩ := ih found
    refine ⟨(closed_cons_iff missing _).mpr ⟨rest, rfl, closed⟩, ?_⟩
    intro other otherClosed
    obtain ⟨later, rfl, laterClosed⟩ := (closed_cons_iff missing other).mp otherClosed
    simpa using shortest later laterClosed

theorem exists_headerName? {s file : List Char} (closed : Closed s file) :
    ∃ found, headerName? s = some found := by
  fun_induction headerName? s generalizing file with
  | case1 =>
    obtain ⟨_, close, tail, _, same⟩ := closed
    simp at same
  | case2 c s extension found => exact ⟨extension, rfl⟩
  | case3 c s missing ih =>
    obtain ⟨rest, _, restClosed⟩ := (closed_cons_iff missing file).mp closed
    obtain ⟨found, read⟩ := ih restClosed
    exact ⟨c :: found, by rw [read]; rfl⟩

theorem ShortestClosed.isPrefix {s file other : List Char} (shortest : ShortestClosed s file)
    (closed : Closed s other) : file <+: other :=
  List.prefix_of_prefix_length_le shortest.closed.isPrefix closed.isPrefix (shortest.shortest other closed)

theorem headerName?_eq_some_iff (s file : List Char) :
    headerName? s = some file ↔ ShortestClosed s file := by
  constructor
  · exact shortestClosed_of_headerName?
  · intro shortest
    obtain ⟨found, read⟩ := exists_headerName? shortest.closed
    have again := shortestClosed_of_headerName? read
    have same : found = file :=
      (again.isPrefix shortest.closed).eq_of_length_le (shortest.shortest found again.closed)
    rw [read, same]

theorem eq_of_toLower {c small large : Char} (apart : large.val = small.val - ('a'.val - 'A'.val))
    (lower : c.toLower = small) : c = small ∨ c = large := by
  delta Char.toLower at lower
  split at lower
  · right
    have value : c.val + ('a'.val - 'A'.val) = small.val := congrArg Char.val lower
    apply Char.ext
    rw [apart, ← value, UInt32.add_sub_cancel]
  · exact .inl lower

theorem includeLine_iff {argument : List Char} (visible : Stops isBlank argument) (line : List Char) :
    IncludeLine line argument ↔
      ∃ behind, after? ['#'] (trimStart line) = some behind ∧
        ((trimStart behind).take 7).map Char.toLower = ['i', 'n', 'c', 'l', 'u', 'd', 'e'] ∧
        afterBlanks? ((trimStart behind).drop 7) = some argument := by
  constructor
  · rintro ⟨indent, gap, keyword, space, blankIndent, blankGap, blank, nonempty, spelled, rfl⟩
    have length : keyword.length = 7 := by simpa using congrArg List.length spelled
    have starts : Stops isBlank (keyword ++ (space ++ argument)) := by
      obtain ⟨first, rest, rfl, lower, _⟩ := List.map_eq_cons_iff.mp spelled
      have letter : first = 'i' ∨ first = 'I' := eq_of_toLower (by decide) lower
      apply stops_cons
      rcases letter with rfl | rfl <;> decide
    have behind : trimStart (gap ++ keyword ++ space ++ argument) = keyword ++ (space ++ argument) :=
      (trimStart_eq_iff _ _).mpr ⟨gap, blankGap, by simp, starts⟩
    refine ⟨gap ++ keyword ++ space ++ argument, ?_, ?_, ?_⟩
    · exact (after?_trimStart_eq_some_iff (by decide) [] _ _).mpr ⟨indent, blankIndent, rfl⟩
    · rw [behind, ← length, List.take_left, spelled]
    · rw [behind, ← length, List.drop_left, afterBlanks?_eq_some_iff]
      exact ⟨space, nonempty, blank, rfl, visible⟩
  · rintro ⟨behind, hash, spelled, spaced⟩
    obtain ⟨indent, blankIndent, rfl⟩ := (after?_trimStart_eq_some_iff (by decide) [] line behind).mp hash
    obtain ⟨space, nonempty, blank, tail, _⟩ := (afterBlanks?_eq_some_iff _ argument).mp spaced
    obtain ⟨gap, blankGap, same, _⟩ := (trimStart_eq_iff behind _).mp rfl
    refine ⟨indent, gap, (trimStart behind).take 7, space, blankIndent, blankGap, blank, nonempty, spelled, ?_⟩
    rw [List.append_assoc, List.append_assoc, ← tail, List.take_append_drop, ← same]
    rfl

theorem stops_opener {opener closer : Char} (opens : closer? opener = some closer) (rest : List Char) :
    Stops isBlank (opener :: rest) := by
  unfold closer? at opens
  split at opens
  · exact stops_cons (by decide) rest
  · exact stops_cons (by decide) rest
  · cases opens

theorem includeName?_eq_some_iff (line file : List Char) :
    includeName? line = some file ↔ Included line file := by
  constructor
  · intro read
    unfold includeName? at read
    obtain ⟨behind, hash, read⟩ := Option.bind_eq_some_iff.mp read
    obtain ⟨_, checked, read⟩ := Option.bind_eq_some_iff.mp read
    obtain ⟨argument, spaced, read⟩ := Option.bind_eq_some_iff.mp read
    have spelled : ((trimStart behind).take 7).map Char.toLower = ['i', 'n', 'c', 'l', 'u', 'd', 'e'] := by
      unfold guard at checked
      split at checked
      · assumption
      · cases checked
    have opened (opener closer : Char) {rest : List Char} (opens : closer? opener = some closer)
        (same : argument = opener :: rest) (found : headerName? rest = some file) : Included line file := by
      subst same
      exact ⟨opener, closer, rest, opens,
        (includeLine_iff (stops_opener opens rest) line).mpr ⟨behind, hash, spelled, spaced⟩,
        (headerName?_eq_some_iff rest file).mp found⟩
    split at read
    · exact opened '"' '"' rfl rfl read
    · exact opened '<' '>' rfl rfl read
    · cases read
  · rintro ⟨opener, closer, rest, opens, includes, shortest⟩
    obtain ⟨behind, hash, spelled, spaced⟩ := (includeLine_iff (stops_opener opens rest) line).mp includes
    have read := (headerName?_eq_some_iff rest file).mpr shortest
    unfold includeName?
    refine Option.bind_eq_some_iff.mpr ⟨behind, hash, Option.bind_eq_some_iff.mpr ⟨(), if_pos spelled, ?_⟩⟩
    refine Option.bind_eq_some_iff.mpr ⟨opener :: rest, spaced, ?_⟩
    unfold closer? at opens
    split at opens
    · exact read
    · exact read
    · cases opens

theorem Included.unique {line file other : List Char} (includes : Included line file)
    (again : Included line other) : file = other := by
  rw [← includeName?_eq_some_iff] at includes again
  exact Option.some.inj (includes.symm.trans again)

theorem IncludeLine.unique {line rest rest' : List Char} {opener opener' closer closer' : Char}
    (opens : closer? opener = some closer) (opens' : closer? opener' = some closer')
    (includes : IncludeLine line (opener :: rest)) (again : IncludeLine line (opener' :: rest')) :
    closer = closer' ∧ rest = rest' := by
  obtain ⟨behind, hash, _, spaced⟩ := (includeLine_iff (stops_opener opens rest) line).mp includes
  obtain ⟨behind', hash', _, spaced'⟩ := (includeLine_iff (stops_opener opens' rest') line).mp again
  obtain rfl := Option.some.inj (hash.symm.trans hash')
  obtain ⟨rfl, rfl⟩ := List.cons.inj (Option.some.inj (spaced.symm.trans spaced'))
  exact ⟨Option.some.inj (opens.symm.trans opens'), rfl⟩

theorem isClosing_of_closer? {opener closer : Char} (opens : closer? opener = some closer) :
    isClosing closer = true := by
  unfold closer? at opens
  split at opens
  · rw [← Option.some.inj opens]
    decide
  · rw [← Option.some.inj opens]
    decide
  · cases opens

theorem Delimited.exists_included {line file : List Char} (delimited : Delimited line file) :
    ∃ found, Included line found ∧ found <+: file := by
  obtain ⟨opener, closer, tail, opens, includes, _, header⟩ := delimited
  have closed : Closed (file ++ closer :: tail) file :=
    ⟨header, closer, tail, isClosing_of_closer? opens, rfl⟩
  obtain ⟨found, read⟩ := exists_headerName? closed
  have shortest := (headerName?_eq_some_iff _ found).mp read
  exact ⟨found, ⟨opener, closer, _, opens, includes, shortest⟩, shortest.isPrefix closed⟩

theorem Delimited.unique {line file other : List Char} (delimited : Delimited line file)
    (again : Delimited line other) : file = other := by
  obtain ⟨opener, closer, tail, opens, includes, inside, _⟩ := delimited
  obtain ⟨opener', closer', tail', opens', includes', inside', _⟩ := again
  obtain ⟨rfl, same⟩ := includes.unique opens opens' includes'
  -- both are what stands before the first closing delimiter
  have taken {s : List Char} (without : closer ∉ s) (rest : List Char) :
      (s ++ closer :: rest).takeWhile (· != closer) = s := by
    refine takeWhile_of_stops (fun c member => ?_) (stops_cons (by simp) rest)
    have different : c ≠ closer := fun same => without (same ▸ member)
    simpa using different
  rw [← taken inside tail, same, taken inside' tail']

theorem delimited_or_strays {line file : List Char} (includes : Included line file) :
    Delimited line file ∨ Strays line := by
  obtain ⟨opener, closer, rest, opens, line, shortest⟩ := includes
  obtain ⟨header, close, tail, _, rfl⟩ := shortest.closed
  by_cases strays : closer ∈ file ∨ close ≠ closer
  · exact .inr ⟨opener, closer, file, close, tail, opens, line, shortest, strays⟩
  · simp only [not_or, ne_eq, Decidable.not_not] at strays
    obtain ⟨inside, rfl⟩ := strays
    exact .inl ⟨opener, close, tail, opens, line, inside, header⟩

theorem Strays.exists_included {line : List Char} (strays : Strays line) :
    ∃ file, Included line file ∧ ¬Delimited line file := by
  obtain ⟨opener, closer, file, close, tail, opens, includes, shortest, wrong⟩ := strays
  refine ⟨file, ⟨opener, closer, _, opens, includes, shortest⟩, ?_⟩
  rintro ⟨opener', closer', tail', opens', includes', inside, _⟩
  obtain ⟨rfl, same⟩ := includes.unique opens opens' includes'
  have follows : close = closer := (List.cons.inj (List.append_cancel_left same)).1
  rcases wrong with crossing | other
  · exact inside crossing
  · exact other follows

end Source

namespace Scan

open Source

/-- One file for each line that names one, in the order of the lines, and nothing for the others. -/
inductive PerLine (named : List Char → List Char → Prop) : List (List Char) → List String → Prop
  | nil : PerLine named [] []
  | skip {line : List Char} {lines : List (List Char)} {files : List String}
    (silent : ∀ file, ¬named line file) (rest : PerLine named lines files) :
    PerLine named (line :: lines) files
  | take {line file : List Char} {lines : List (List Char)} {files : List String}
    (names : named line file) (rest : PerLine named lines files) :
    PerLine named (line :: lines) (String.ofList file :: files)

namespace PerLine

variable {named other : List Char → List Char → Prop} {lines : List (List Char)} {files files' : List String}

theorem filterMap {read? : List Char → Option (List Char)}
    (reads : ∀ line file, read? line = some file ↔ named line file) (lines : List (List Char)) :
    PerLine named lines ((lines.filterMap read?).map String.ofList) := by
  induction lines with
  | nil => exact .nil
  | cons line lines ih =>
    cases read : read? line with
    | none =>
      rw [List.filterMap_cons_none read]
      refine .skip (fun file names => ?_) ih
      rw [(reads line file).mpr names] at read
      cases read
    | some file =>
      rw [List.filterMap_cons_some read]
      exact .take ((reads line file).mp read) ih

theorem congr (per : PerLine named lines files)
    (same : ∀ line ∈ lines, ∀ file, named line file ↔ other line file) : PerLine other lines files := by
  induction per with
  | nil => exact .nil
  | @skip line _ _ silent _ ih =>
    have here := same line (List.mem_cons_self ..)
    exact .skip (fun file names => silent file ((here file).mpr names))
      (ih fun row member => same row (List.mem_cons_of_mem _ member))
  | @take line file _ _ names _ ih =>
    have here := same line (List.mem_cons_self ..)
    exact .take ((here file).mp names) (ih fun row member => same row (List.mem_cons_of_mem _ member))

theorem length_le (covered : ∀ line file, other line file → ∃ found, named line found)
    (per : PerLine named lines files) (again : PerLine other lines files') :
    files'.length ≤ files.length := by
  induction per generalizing files' with
  | nil =>
    cases again
    exact Nat.le_refl _
  | skip silent _ ih =>
    cases again with
    | skip _ rest => exact ih rest
    | take names _ =>
      obtain ⟨found, names⟩ := covered _ _ names
      exact absurd names (silent found)
  | take _ _ ih =>
    cases again with
    | skip _ rest =>
      have shorter := ih rest
      simp only [List.length_cons]
      omega
    | take _ rest =>
      have shorter := ih rest
      simp only [List.length_cons]
      omega

theorem agree (covered : ∀ line file, other line file → ∃ found, named line found)
    (unique : ∀ line file found, named line file → named line found → file = found)
    (per : PerLine named lines files) (again : PerLine other lines files) :
    ∀ line ∈ lines, ∀ file, named line file → other line file := by
  induction per with
  | nil =>
    intro line member
    cases member
  | @skip line _ _ silent _ ih =>
    cases again with
    | skip _ rest =>
      intro row member file names
      rcases List.mem_cons.mp member with rfl | member
      · exact absurd names (silent file)
      · exact ih rest row member file names
    | take names _ =>
      obtain ⟨found, names⟩ := covered _ _ names
      exact absurd names (silent found)
  | @take line first _ _ names per ih =>
    generalize listed : String.ofList first :: _ = files at again
    cases again with
    | skip _ rest =>
      subst listed
      have shorter := length_le covered per rest
      simp only [List.length_cons] at shorter
      omega
    | take otherNames rest =>
      obtain ⟨same, rfl⟩ := List.cons.inj listed
      intro row member file rowNames
      rcases List.mem_cons.mp member with rfl | member
      · obtain rfl := unique row file first rowNames names
        rw [String.ofList_inj.mp same]
        exact otherNames
      · exact ih rest row member file rowNames

end PerLine

theorem perLine_included (text : String) : PerLine Included (lines text.toList) (includes text) :=
  .filterMap includeName?_eq_some_iff (lines text.toList)

theorem not_strays_of_delimited {lines : List (List Char)} {files : List String}
    (listed : PerLine Included lines files) (delimited : PerLine Delimited lines files) :
    ∀ line ∈ lines, ¬Strays line := by
  intro line member strays
  obtain ⟨file, included, wrong⟩ := strays.exists_included
  refine wrong (listed.agree ?_ ?_ delimited line member file included)
  · intro row header rowDelimited
    obtain ⟨found, rowIncluded, _⟩ := rowDelimited.exists_included
    exact ⟨found, rowIncluded⟩
  · exact fun _ _ _ => Included.unique

/-- The includes of a text are the shortest headers of its include lines. They are its delimited headers exactly
if no line strays, and a line with a delimited header always gives a part of it at least. -/
theorem includes_delimited_iff_no_stray (text : String) :
    PerLine Included (lines text.toList) (includes text) ∧
    (PerLine Delimited (lines text.toList) (includes text) ↔ ∀ line ∈ lines text.toList, ¬Strays line) ∧
    ∀ line file, Delimited line file → ∃ found, Included line found ∧ found <+: file := by
  have listed := perLine_included text
  refine ⟨listed, ⟨not_strays_of_delimited listed, ?_⟩, fun _ _ => Delimited.exists_included⟩
  intro straight
  refine listed.congr fun line member file => ⟨fun included => ?_, fun delimited => ?_⟩
  · exact (delimited_or_strays included).resolve_right (straight line member)
  · obtain ⟨found, included, _⟩ := delimited.exists_included
    have whole := (delimited_or_strays included).resolve_right (straight line member)
    rwa [delimited.unique whole]

/-- A header in the comment behind a file that is none, and a header that the wrong delimiter ends. -/
theorem stray_headers_included :
    let text := "#include \"a.c\" // see \"b.h\"\n#include <c.h\"\n"
    includes text = ["a.c\" // see \"b.h", "c.h"] ∧
      Strays "#include \"a.c\" // see \"b.h\"".toList ∧ Strays "#include <c.h\"".toList ∧
      ¬PerLine Delimited (lines text.toList) (includes text) := by
  intro text
  have includeLine (argument : List Char) : IncludeLine ("#include ".toList ++ argument) argument :=
    ⟨[], [], "include".toList, [' '], by simp [Text.Blanks], by simp [Text.Blanks],
      by simp [Text.Blanks, Text.isBlank], by simp, by decide, rfl⟩
  have crossing : Strays "#include \"a.c\" // see \"b.h\"".toList :=
    ⟨'"', '"', "a.c\" // see \"b.h".toList, '"', [], rfl, includeLine _,
      (headerName?_eq_some_iff _ _).mp (by decide +kernel), .inl (by decide)⟩
  have mixed : Strays "#include <c.h\"".toList :=
    ⟨'<', '>', "c.h".toList, '"', [], rfl, includeLine _,
      (headerName?_eq_some_iff _ _).mp (by decide +kernel), .inr (by decide)⟩
  refine ⟨by decide +kernel, crossing, mixed, fun delimited => ?_⟩
  exact not_strays_of_delimited (perLine_included text) delimited _ (by decide +kernel) crossing

end Scan

end AsmIndex
