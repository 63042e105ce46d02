import AsmIndex.Proofs.LabelLookup

namespace AsmIndex

namespace Source

open Text Buffer

/-- A macro definition in parts: what stands before the name, the name and what follows it. -/
structure DefineParts (line lead name rest : List Char) : Prop where
  whole : line = lead ++ name ++ rest
  directive : ∃ indent gap space, Blanks indent ∧ Blanks gap ∧ Blanks space ∧ space ≠ [] ∧
    lead = indent ++ '#' :: (gap ++ "define".toList ++ space)
  longest : LongestName isNameStart isWordChar name rest

theorem DefineLine.exists_parts {line name rest : List Char} (holds : DefineLine line name rest) :
    ∃ lead, DefineParts line lead name rest := by
  obtain ⟨indent, gap, space, blankIndent, blankGap, blank, nonempty, same, longest⟩ := holds
  refine ⟨_, by rw [same]; simp, ⟨indent, gap, space, blankIndent, blankGap, blank, nonempty, rfl⟩, longest⟩

theorem DefineParts.edge {line lead name rest : List Char} (parts : DefineParts line lead name rest) : Edge lead := by
  obtain ⟨indent, gap, space, _, _, blank, nonempty, rfl⟩ := parts.directive
  rw [← List.cons_append, ← List.append_assoc]
  exact edge_of_space _ blank nonempty

theorem isWordChar_of_isNameChar {c : Char} (name : isNameChar c = true) (other : c ≠ '.') : isWordChar c = true := by
  simp only [isNameChar, Bool.or_eq_true, beq_iff_eq, other, or_false] at name
  simp [isWordChar, name]

def asciiWordRanges : Ranges :=
  [(0x30, 0x39), (0x41, 0x5a), (0x5f, 0x5f), (0x61, 0x7a)]

theorem mem_asciiWordRanges {range : Nat × Nat} (member : range ∈ wordRanges) (low : range.1 < 0x80) :
    range ∈ asciiWordRanges := by
  have all : wordRanges.all (fun range => decide (0x80 ≤ range.1) || decide (range ∈ asciiWordRanges)) = true := by
    decide +kernel
  have here := List.all_eq_true.mp all range member
  rw [Bool.or_eq_true, decide_eq_true_eq, decide_eq_true_eq] at here
  exact here.resolve_left (by omega)

theorem isNameChar_of_isWordChar {c : Char} (word : isWordChar c = true) (ascii : c.toNat < 0x80) :
    isNameChar c = true := by
  simp only [isWordChar, Bool.or_eq_true, Ranges.contains_iff] at word
  rcases word with (alphanumeric | line) | ⟨range, member, low, high⟩
  · simp [isNameChar, alphanumeric]
  · simp [isNameChar, line]
  · have all : ∀ range ∈ asciiWordRanges, ∀ n : Fin 128, range.1 ≤ n.val → n.val ≤ range.2 →
        isNameChar (Char.ofNat n) = true := by
      decide +kernel
    have here := all range (mem_asciiWordRanges member (by omega)) ⟨c.toNat, ascii⟩ low high
    rwa [Char.ofNat_toNat] at here

theorem LongestName.names_iff_ascii {name rest : List Char} (longest : LongestName isNameStart isWordChar name rest) :
    (∀ c ∈ name, isNameChar c = true) ↔ ∀ c ∈ name, c.toNat < 0x80 := by
  refine ⟨ascii_of_names, fun ascii c member => ?_⟩
  obtain ⟨first, tail, rfl, starts, inside⟩ := longest.chars
  rcases List.mem_cons.mp member with rfl | later
  · exact isNameChar_of_isNameStart starts
  · exact isNameChar_of_isWordChar (inside c later) (ascii c member)

theorem LongestName.stops_iff_no_dot {name rest ending : List Char}
    (longest : LongestName isNameStart isWordChar name rest) (breaks : ∀ c ∈ ending, isBreak c = true) :
    Stops isNameChar (rest ++ ending) ↔ rest.head? ≠ some '.' := by
  have dot : isNameChar '.' = true := by decide
  cases rest with
  | nil =>
    constructor
    · simp
    · intro _ c first
      exact not_name_of_isBreak (breaks c (List.mem_of_head? first))
  | cons d rest =>
    have other := longest.longest d rfl
    constructor
    · intro stops same
      obtain rfl := Option.some.inj same
      rw [stops '.' rfl] at dot
      cases dot
    · intro noDot
      apply stops_cons
      cases name : isNameChar d with
      | false => rfl
      | true =>
        rw [isWordChar_of_isNameChar name fun same => noDot (congrArg some same)] at other
        cases other

end Source

namespace Buffer

open Text Source

theorem wordSpan?_at_edge {text : String} {position : Position} {lead s : List Char}
    (row : line? text position.line.toNat = some (lead ++ s)) (here : position.character.toNat = width lead)
    (edge : Edge lead) (starts : s.takeWhile isNameChar ≠ []) :
    wordSpan? text position = some ⟨s.takeWhile isNameChar, width lead⟩ := by
  have between : WordBetween lead (s.takeWhile isNameChar) (s.dropWhile isNameChar) :=
    ⟨⟨_, starts, fun _ => List.mem_takeWhile_imp, .inr ⟨rfl, edge⟩⟩, stops_dropWhile isNameChar s⟩
  have parts : lead ++ s = lead ++ s.takeWhile isNameChar ++ s.dropWhile isNameChar := by
    rw [List.append_assoc, List.takeWhile_append_dropWhile]
  rw [parts] at row
  apply wordSpan?_of_edge row between edge
  rw [here]
  exact ⟨Nat.le_refl _, Nat.le_add_right _ _⟩

/-- In a text without soft breaks, take a line that defines a macro and the cursor where the name starts. The word
there is the name exactly if the name is ASCII and no dot follows it. -/
theorem macro_name_under_cursor {text : String} (hard : ∀ c ∈ text.toList, isSoftBreak c = false) {number : Nat}
    {line name value : List Char} (listed : (Source.lines text.toList)[number]? = some line)
    (read : Source.definition? line = some (name, value)) :
    (∃ lead rest, DefineParts line lead name rest) ∧
    ∀ lead rest, DefineParts line lead name rest →
      ∀ position : Position, position.line.toNat = number → position.character.toNat = width lead →
        ((∃ word, wordAt? text position = some word ∧ word.text = name) ↔
          (∀ c ∈ name, c.toNat < 0x80) ∧ rest.head? ≠ some '.') := by
  constructor
  · obtain ⟨rest, holds, _⟩ := (definition?_eq_some_iff line name value).mp read
    obtain ⟨lead, parts⟩ := holds.exists_parts
    exact ⟨lead, rest, parts⟩
  · rintro lead rest parts position rfl here
    obtain ⟨ending, row, breaks⟩ := line?_of_source_line hard listed
    rw [parts.whole, List.append_assoc, List.append_assoc, ← List.append_assoc name] at row
    have starts : (name ++ rest ++ ending).takeWhile isNameChar ≠ [] := by
      obtain ⟨c, tail, rfl, first, _⟩ := parts.longest.chars
      simp [isNameChar_of_isNameStart first]
    have under := wordAt?_of_wordSpan? (wordSpan?_at_edge row here parts.edge starts)
    have whole := takeWhile_append_eq_iff isNameChar name (rest ++ ending)
    rw [← List.append_assoc, parts.longest.names_iff_ascii, parts.longest.stops_iff_no_dot breaks] at whole
    rw [under, ← whole]
    simp [Span.word]

theorem indented_macro_name_under_cursor :
    let text := "\r\u00a0# define\tMAX(x) x\n"
    let line := "\u00a0# define\tMAX(x) x".toList
    (∀ c ∈ text.toList, isSoftBreak c = false) ∧ (Source.lines text.toList)[1]? = some line ∧
      Source.definition? line = some (['M', 'A', 'X'], "(x) x".toList) ∧
      DefineParts line "\u00a0# define\t".toList ['M', 'A', 'X'] "(x) x".toList ∧
      ((∃ word, wordAt? text ⟨1, 10⟩ = some word ∧ word.text = ['M', 'A', 'X']) ↔
        (∀ c ∈ ['M', 'A', 'X'], c.toNat < 0x80) ∧ "(x) x".toList.head? ≠ some '.') := by
  intro text line
  have hard : ∀ c ∈ text.toList, isSoftBreak c = false := by
    have none : text.toList.all (isSoftBreak · == false) = true := by decide
    exact fun c member => eq_of_beq (List.all_eq_true.mp none c member)
  have listed : (Source.lines text.toList)[1]? = some line := by decide +kernel
  have read : Source.definition? line = some (['M', 'A', 'X'], "(x) x".toList) := by decide +kernel
  have parts : DefineParts line "\u00a0# define\t".toList ['M', 'A', 'X'] "(x) x".toList := by
    have blank {c : Char} (white : isBlank c = true) : Blanks [c] := by simpa [Blanks] using white
    have inside : ∀ d ∈ ['A', 'X'], isWordChar d = true := by simp [isWordChar]
    have other : isWordChar '(' = false := by decide +kernel
    refine ⟨rfl, ⟨['\u00a0'], [' '], ['\t'], blank rfl, blank rfl, blank rfl, List.cons_ne_nil _ _, rfl⟩,
      ⟨'M', ['A', 'X'], rfl, by decide, inside⟩, stops_cons other _⟩
  exact ⟨hard, listed, read, parts,
    (macro_name_under_cursor hard listed read).2 _ _ parts ⟨1, 10⟩ rfl (by decide +kernel)⟩

/-- Here the word goes on behind the name, and there it ends inside of it. -/
example : wordAt? "#define A.b 1" ⟨0, 8⟩ = some ⟨['A', '.', 'b'], 8, 11⟩ ∧
    wordAt? "#define naïve 1" ⟨0, 8⟩ = some ⟨['n', 'a'], 8, 10⟩ := by
  decide +kernel

end Buffer

end AsmIndex
