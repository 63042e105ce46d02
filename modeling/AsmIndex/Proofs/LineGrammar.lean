import AsmIndex.Symbol.Scan
import Mathlib.Data.List.TakeWhile

namespace AsmIndex

namespace Text

def Blanks (s : List Char) : Prop :=
  ∀ c ∈ s, isBlank c = true

/-- The text is empty or starts with a character outside the class. -/
def Stops (p : Char → Bool) (s : List Char) : Prop :=
  ∀ c, s.head? = some c → p c = false

theorem stops_cons {p : Char → Bool} {c : Char} (other : p c = false) (s : List Char) :
    Stops p (c :: s) := by
  intro first same
  rw [← Option.some.inj same]
  exact other

theorem Stops.append {p : Char → Bool} {s : List Char} (stops : Stops p s) (nonempty : s ≠ [])
    (rest : List Char) : Stops p (s ++ rest) := by
  obtain ⟨c, more, rfl⟩ := List.exists_cons_of_ne_nil nonempty
  exact stops_cons (stops c rfl) (more ++ rest)

theorem stops_dropWhile (p : Char → Bool) (s : List Char) : Stops p (s.dropWhile p) := by
  intro c first
  simpa [first] using List.head?_dropWhile_not p s

theorem takeWhile_of_stops {p : Char → Bool} {run rest : List Char} (inside : ∀ c ∈ run, p c = true)
    (stops : Stops p rest) : (run ++ rest).takeWhile p = run := by
  rw [List.takeWhile_append_of_pos inside]
  cases rest with
  | nil => simp
  | cons c rest => simp [stops c rfl]

theorem dropWhile_of_stops {p : Char → Bool} {run rest : List Char} (inside : ∀ c ∈ run, p c = true)
    (stops : Stops p rest) : (run ++ rest).dropWhile p = rest := by
  rw [List.dropWhile_append_of_pos inside]
  cases rest with
  | nil => rfl
  | cons c rest => simp [stops c rfl]

theorem takeWhile_append_eq_iff (p : Char → Bool) (run rest : List Char) :
    (run ++ rest).takeWhile p = run ↔ (∀ c ∈ run, p c = true) ∧ Stops p rest := by
  constructor
  · intro same
    have parts : (run ++ rest).takeWhile p ++ (run ++ rest).dropWhile p = run ++ rest :=
      List.takeWhile_append_dropWhile
    rw [same, List.append_cancel_left_eq] at parts
    refine ⟨fun c member => List.mem_takeWhile_imp (same.symm ▸ member), ?_⟩
    rw [← parts]
    exact stops_dropWhile p (run ++ rest)
  · intro ⟨inside, stops⟩
    exact takeWhile_of_stops inside stops

theorem trimStart_eq_iff (s rest : List Char) :
    trimStart s = rest ↔ ∃ blanks, Blanks blanks ∧ s = blanks ++ rest ∧ Stops isBlank rest := by
  constructor
  · rintro rfl
    exact ⟨s.takeWhile isBlank, fun _ => List.mem_takeWhile_imp, List.takeWhile_append_dropWhile.symm,
      stops_dropWhile isBlank s⟩
  · rintro ⟨blanks, blank, rfl, stops⟩
    exact dropWhile_of_stops blank stops

theorem after?_trimStart_eq_some_iff {c : Char} (visible : isBlank c = false) (lead s rest : List Char) :
    after? (c :: lead) (trimStart s) = some rest ↔
      ∃ blanks, Blanks blanks ∧ s = blanks ++ (c :: lead ++ rest) := by
  rw [after?_eq_some_iff, trimStart_eq_iff]
  constructor
  · rintro ⟨blanks, blank, same, _⟩
    exact ⟨blanks, blank, same⟩
  · rintro ⟨blanks, blank, same⟩
    exact ⟨blanks, blank, same, stops_cons visible (lead ++ rest)⟩

structure IsTrimmed (s core : List Char) : Prop where
  parts : ∃ lead tail, Blanks lead ∧ Blanks tail ∧ s = lead ++ core ++ tail
  start : Stops isBlank core
  stop : ∀ c, core.getLast? = some c → isBlank c = false

theorem isTrimmed_trim (s : List Char) : IsTrimmed s (trim s) := by
  have lead : s.takeWhile isBlank ++ trimStart s = s := List.takeWhile_append_dropWhile
  have tail : trimEnd (trimStart s) ++ ((trimStart s).reverse.takeWhile isBlank).reverse = trimStart s := by
    rw [trimEnd, ← List.reverse_append, List.takeWhile_append_dropWhile, List.reverse_reverse]
  constructor
  · refine ⟨s.takeWhile isBlank, ((trimStart s).reverse.takeWhile isBlank).reverse, ?_, ?_, ?_⟩
    · exact fun _ => List.mem_takeWhile_imp
    · exact fun c member => List.mem_takeWhile_imp (List.mem_reverse.mp member)
    · rw [trim, List.append_assoc, tail, lead]
  · intro c first
    refine stops_dropWhile isBlank s c ?_
    change (trimStart s).head? = some c
    rw [← tail, List.head?_append]
    change (trimEnd (trimStart s)).head? = some c at first
    rw [first]
    rfl
  · intro c last
    refine stops_dropWhile isBlank (trimStart s).reverse c ?_
    rwa [trim, trimEnd, List.getLast?_reverse] at last

theorem IsTrimmed.eq_trim {s core : List Char} (trimmed : IsTrimmed s core) : core = trim s := by
  obtain ⟨⟨lead, tail, blankLead, blankTail, rfl⟩, start, stop⟩ := trimmed
  by_cases nothing : core = []
  · subst nothing
    have blank : Blanks (lead ++ [] ++ tail) := by
      intro c member
      simp only [List.append_nil, List.mem_append] at member
      rcases member with member | member
      · exact blankLead c member
      · exact blankTail c member
    have gone : trimStart (lead ++ [] ++ tail) = [] :=
      (trimStart_eq_iff _ _).mpr ⟨_, blank, (List.append_nil _).symm, fun c none => by cases none⟩
    rw [trim, gone]
    rfl
  · have started : trimStart (lead ++ core ++ tail) = core ++ tail :=
      (trimStart_eq_iff _ _).mpr
        ⟨lead, blankLead, List.append_assoc lead core tail, start.append nothing tail⟩
    have ended : (tail.reverse ++ core.reverse).dropWhile isBlank = core.reverse := by
      refine dropWhile_of_stops (fun c member => blankTail c (List.mem_reverse.mp member)) ?_
      intro c first
      exact stop c (by rwa [List.head?_reverse] at first)
    rw [trim, started, trimEnd, List.reverse_append, ended, List.reverse_reverse]

theorem trim_eq_iff (s core : List Char) : trim s = core ↔ IsTrimmed s core := by
  constructor
  · rintro rfl
    exact isTrimmed_trim s
  · exact fun trimmed => trimmed.eq_trim.symm

/-- The part of a text before the first place where the mark stands, or the whole text. -/
structure IsBefore (mark : List Char → Prop) (s code : List Char) : Prop where
  parts : ∃ rest, s = code ++ rest ∧ (rest = [] ∨ mark rest)
  first : ∀ lead rest, s = lead ++ rest → mark rest → code.length ≤ lead.length

namespace IsBefore

variable {mark : List Char → Prop} {s code other : List Char}

theorem here (marked : mark s) : IsBefore mark s [] :=
  ⟨⟨s, rfl, .inr marked⟩, fun _ _ _ _ => Nat.zero_le _⟩

theorem step {c : Char} (unmarked : ¬mark (c :: s)) (before : IsBefore mark s code) :
    IsBefore mark (c :: s) (c :: code) := by
  obtain ⟨⟨rest, same, ending⟩, first⟩ := before
  refine ⟨⟨rest, by rw [same, List.cons_append], ending⟩, ?_⟩
  intro lead later split marked
  cases lead with
  | nil =>
    rw [List.nil_append] at split
    exact absurd (split ▸ marked) unmarked
  | cons d lead =>
    have shorter := first lead later (List.cons.inj split).2 marked
    simp only [List.length_cons]
    omega

theorem length_le (before : IsBefore mark s code) (again : IsBefore mark s other) :
    code.length ≤ other.length := by
  obtain ⟨rest, same, ending⟩ := again.parts
  rcases ending with rfl | marked
  · obtain ⟨more, whole, _⟩ := before.parts
    have lengths := congrArg List.length (whole.symm.trans same)
    simp only [List.length_append, List.length_nil] at lengths
    omega
  · exact before.first other rest same marked

theorem unique (before : IsBefore mark s code) (again : IsBefore mark s other) : code = other := by
  obtain ⟨rest, same, _⟩ := before.parts
  obtain ⟨rest', same', _⟩ := again.parts
  exact List.append_inj_left (same.symm.trans same')
    (Nat.le_antisymm (before.length_le again) (again.length_le before))

end IsBefore

end Text

namespace Source

open Text

/-- A first character of one class, any number of a second class, and no more of these behind. -/
structure LongestName (first more : Char → Bool) (name rest : List Char) : Prop where
  chars : ∃ c tail, name = c :: tail ∧ first c = true ∧ ∀ d ∈ tail, more d = true
  longest : Stops more rest

theorem name?_eq_some_iff (first more : Char → Bool) (s name rest : List Char) :
    name? first more s = some (name, rest) ↔ s = name ++ rest ∧ LongestName first more name rest := by
  constructor
  · intro read
    unfold name? at read
    split at read
    · cases read
    · rename_i c tail
      split at read
      · rename_i starts
        obtain ⟨rfl, rfl⟩ := Prod.mk.inj (Option.some.inj read)
        refine ⟨by rw [List.cons_append, List.takeWhile_append_dropWhile],
          ⟨c, tail.takeWhile more, rfl, starts, fun _ => List.mem_takeWhile_imp⟩, stops_dropWhile more tail⟩
      · cases read
  · rintro ⟨rfl, ⟨c, tail, rfl, starts, inside⟩, longest⟩
    rw [List.cons_append, name?, if_pos starts, takeWhile_of_stops inside longest,
      dropWhile_of_stops inside longest]

theorem afterBlanks?_eq_some_iff (s rest : List Char) :
    afterBlanks? s = some rest ↔
      ∃ space, space ≠ [] ∧ Blanks space ∧ s = space ++ rest ∧ Stops isBlank rest := by
  constructor
  · intro read
    unfold afterBlanks? at read
    split at read
    · cases read
    · rename_i c tail
      split at read
      · rename_i blank
        obtain ⟨blanks, others, same, stops⟩ := (trimStart_eq_iff tail rest).mp (Option.some.inj read)
        refine ⟨c :: blanks, List.cons_ne_nil c blanks, ?_, by rw [same, List.cons_append], stops⟩
        intro d member
        rcases List.mem_cons.mp member with rfl | member
        · exact blank
        · exact others d member
      · cases read
  · rintro ⟨space, nonempty, blank, rfl, stops⟩
    obtain ⟨c, blanks, rfl⟩ := List.exists_cons_of_ne_nil nonempty
    rw [List.cons_append, afterBlanks?, if_pos (blank c (by simp)), Option.some.injEq, trimStart_eq_iff]
    exact ⟨blanks, fun d member => blank d (List.mem_cons_of_mem c member), rfl, stops⟩

theorem keyword_name_iff {c : Char} {first : Char → Bool} (visible : isBlank c = false)
    (visibleName : ∀ d, first d = true → isBlank d = false) (more : Char → Bool)
    (lead s name rest : List Char) :
    (∃ behind, after? (c :: lead) (trimStart s) = some behind ∧
      ∃ code, afterBlanks? behind = some code ∧ name? first more code = some (name, rest)) ↔
    ∃ indent space, Blanks indent ∧ Blanks space ∧ space ≠ [] ∧
      s = indent ++ c :: lead ++ space ++ name ++ rest ∧ LongestName first more name rest := by
  constructor
  · rintro ⟨behind, keyword, code, spaced, read⟩
    obtain ⟨indent, blankIndent, rfl⟩ := (after?_trimStart_eq_some_iff visible lead s behind).mp keyword
    obtain ⟨space, nonempty, blank, rfl, _⟩ := (afterBlanks?_eq_some_iff behind code).mp spaced
    obtain ⟨rfl, longest⟩ := (name?_eq_some_iff first more code name rest).mp read
    exact ⟨indent, space, blankIndent, blank, nonempty, by simp, longest⟩
  · rintro ⟨indent, space, blankIndent, blank, nonempty, rfl, longest⟩
    have stops : Stops isBlank (name ++ rest) := by
      obtain ⟨d, tail, rfl, starts, _⟩ := longest.chars
      exact stops_cons (visibleName d starts) (tail ++ rest)
    refine ⟨space ++ (name ++ rest), ?_, name ++ rest, ?_, ?_⟩
    · exact (after?_trimStart_eq_some_iff visible lead _ _).mpr ⟨indent, blankIndent, by simp⟩
    · exact (afterBlanks?_eq_some_iff _ _).mpr ⟨space, nonempty, blank, rfl, stops⟩
    · exact (name?_eq_some_iff first more _ name rest).mpr ⟨rfl, longest⟩

def DefineLine (line name rest : List Char) : Prop :=
  ∃ indent gap space, Blanks indent ∧ Blanks gap ∧ Blanks space ∧ space ≠ [] ∧
    line = indent ++ '#' :: (gap ++ "define".toList ++ space ++ name ++ rest) ∧
    LongestName isNameStart isWordChar name rest

def KeywordLine (keyword : String) (first : Char → Bool) (line name : List Char) : Prop :=
  ∃ indent space rest, Blanks indent ∧ Blanks space ∧ space ≠ [] ∧
    line = indent ++ keyword.toList ++ space ++ name ++ rest ∧ LongestName first isNameChar name rest

def LabelLine (line name : List Char) : Prop :=
  ∃ indent gap rest, Blanks indent ∧ Blanks gap ∧ line = indent ++ name ++ gap ++ ':' :: rest ∧
    LongestName isNameStart isNameChar name (gap ++ ':' :: rest)

inductive Directive
  | define
  | external
  | label
  | segment
deriving DecidableEq

def Directive.name? : Directive → List Char → Option (List Char)
  | .define => fun line => (definition? line).map Prod.fst
  | .external => externalName?
  | .label => labelName?
  | .segment => sectionName?

def Directive.Names : Directive → List Char → List Char → Prop
  | .define, line, name => ∃ rest, DefineLine line name rest
  | .external, line, name => KeywordLine ".extern" isNameStart line name
  | .label, line, name => LabelLine line name
  | .segment, line, name => KeywordLine ".section" isNameChar line name

theorem printed_of_isNameChar {c : Char} (name : isNameChar c = true) : 33 ≤ c.toNat ∧ c.toNat ≤ 126 := by
  have letter (alpha : c.isAlpha = true) : 65 ≤ c.toNat ∧ c.toNat ≤ 122 := by
    delta Char.isAlpha Char.isUpper Char.isLower at alpha
    simp only [Bool.or_eq_true, Bool.and_eq_true, decide_eq_true_eq, UInt32.le_iff_toNat_le, ge_iff_le]
      at alpha
    change 65 ≤ c.toNat ∧ c.toNat ≤ 90 ∨ 97 ≤ c.toNat ∧ c.toNat ≤ 122 at alpha
    omega
  have digit (decimal : c.isDigit = true) : 48 ≤ c.toNat ∧ c.toNat ≤ 57 := by
    delta Char.isDigit at decimal
    simp only [Bool.and_eq_true, decide_eq_true_eq, UInt32.le_iff_toNat_le, ge_iff_le] at decimal
    exact decimal
  simp only [isNameChar, Char.isAlphanum, Bool.or_eq_true, beq_iff_eq] at name
  rcases name with ((alpha | decimal) | rfl) | rfl
  · have := letter alpha
    omega
  · have := digit decimal
    omega
  · decide
  · decide

theorem visible_of_isNameChar {c : Char} (name : isNameChar c = true) : isBlank c = false := by
  have printed := printed_of_isNameChar name
  simp only [isBlank, Bool.or_eq_false_iff, Bool.and_eq_false_iff, decide_eq_false_iff_not, beq_eq_false_iff_ne]
  omega

theorem isNameChar_of_isNameStart {c : Char} (start : isNameStart c = true) : isNameChar c = true := by
  simp only [isNameStart, Bool.or_eq_true] at start
  rcases start with letter | underscore
  · simp [isNameChar, Char.isAlphanum, letter]
  · simp [isNameChar, underscore]

theorem visible_of_isNameStart {c : Char} (start : isNameStart c = true) : isBlank c = false :=
  visible_of_isNameChar (isNameChar_of_isNameStart start)

theorem definition?_eq_some_iff (line name value : List Char) :
    definition? line = some (name, value) ↔
      ∃ rest, DefineLine line name rest ∧ definitionValue rest = value := by
  have keyword (behind rest : List Char) := keyword_name_iff (c := 'd') (by decide)
    (fun _ => visible_of_isNameStart) isWordChar ['e', 'f', 'i', 'n', 'e'] behind name rest
  constructor
  · intro read
    simp only [definition?, bind, Option.bind_eq_some_iff, pure, Option.some.injEq, Prod.mk.injEq] at read
    obtain ⟨behind, hash, rest, lead, code, spaced, ⟨found, tail⟩, taken, rfl, rfl⟩ := read
    obtain ⟨indent, blankIndent, rfl⟩ := (after?_trimStart_eq_some_iff (by decide) _ _ _).mp hash
    obtain ⟨gap, space, blankGap, blank, nonempty, rfl, longest⟩ :=
      (keyword behind tail).mp ⟨rest, lead, code, spaced, taken⟩
    exact ⟨tail, ⟨indent, gap, space, blankIndent, blankGap, blank, nonempty, rfl, longest⟩, rfl⟩
  · rintro ⟨rest, ⟨indent, gap, space, blankIndent, blankGap, blank, nonempty, rfl, longest⟩, rfl⟩
    obtain ⟨behind, lead, code, spaced, taken⟩ :=
      (keyword _ rest).mpr ⟨gap, space, blankGap, blank, nonempty, rfl, longest⟩
    simp only [definition?, bind, Option.bind_eq_some_iff, pure, Option.some.injEq, Prod.mk.injEq]
    exact ⟨_, (after?_trimStart_eq_some_iff (by decide) _ _ _).mpr ⟨indent, blankIndent, rfl⟩,
      behind, lead, code, spaced, ⟨name, rest⟩, taken, rfl, rfl⟩

theorem keywordLine_iff {c : Char} {lead : List Char} {keyword : String} {first : Char → Bool}
    (spelled : keyword.toList = c :: lead) (visible : isBlank c = false)
    (visibleName : ∀ d, first d = true → isBlank d = false) (line name : List Char) :
    KeywordLine keyword first line name ↔
      ∃ behind, after? (c :: lead) (trimStart line) = some behind ∧
        ∃ code, afterBlanks? behind = some code ∧ ∃ rest, name? first isNameChar code = some (name, rest) := by
  constructor
  · rintro ⟨indent, space, rest, blankIndent, blank, nonempty, same, longest⟩
    rw [spelled] at same
    obtain ⟨behind, starts, code, spaced, taken⟩ :=
      (keyword_name_iff visible visibleName isNameChar lead line name rest).mpr
        ⟨indent, space, blankIndent, blank, nonempty, same, longest⟩
    exact ⟨behind, starts, code, spaced, rest, taken⟩
  · rintro ⟨behind, starts, code, spaced, rest, taken⟩
    obtain ⟨indent, space, blankIndent, blank, nonempty, same, longest⟩ :=
      (keyword_name_iff visible visibleName isNameChar lead line name rest).mp
        ⟨behind, starts, code, spaced, taken⟩
    exact ⟨indent, space, rest, blankIndent, blank, nonempty, by rw [spelled]; exact same, longest⟩

theorem labelName?_eq_some_iff (line name : List Char) :
    labelName? line = some name ↔ LabelLine line name := by
  constructor
  · intro read
    simp only [labelName?, bind, Option.bind_eq_some_iff, pure, Option.some.injEq] at read
    obtain ⟨⟨found, behind⟩, taken, rest, colon, rfl⟩ := read
    obtain ⟨same, longest⟩ := (name?_eq_some_iff _ _ _ _ _).mp taken
    obtain ⟨indent, blankIndent, rfl, _⟩ := (trimStart_eq_iff line _).mp same
    obtain ⟨gap, blankGap, rfl⟩ := (after?_trimStart_eq_some_iff (by decide) _ _ _).mp colon
    exact ⟨indent, gap, rest, blankIndent, blankGap, by simp, longest⟩
  · rintro ⟨indent, gap, rest, blankIndent, blankGap, rfl, longest⟩
    have trimmed : trimStart (indent ++ name ++ gap ++ ':' :: rest) = name ++ (gap ++ ':' :: rest) := by
      refine (trimStart_eq_iff _ _).mpr ⟨indent, blankIndent, by simp, ?_⟩
      obtain ⟨c, tail, rfl, starts, _⟩ := longest.chars
      exact stops_cons (visible_of_isNameStart starts) _
    simp only [labelName?, bind, Option.bind_eq_some_iff, pure, Option.some.injEq]
    exact ⟨⟨name, gap ++ ':' :: rest⟩, (name?_eq_some_iff _ _ _ _ _).mpr ⟨trimmed, longest⟩, rest,
      (after?_trimStart_eq_some_iff (by decide) _ _ _).mpr ⟨gap, blankGap, rfl⟩, rfl⟩

theorem Directive.name?_eq_some_iff (directive : Directive) (line name : List Char) :
    directive.name? line = some name ↔ directive.Names line name := by
  cases directive with
  | define =>
    simp only [name?, Names, Option.map_eq_some_iff, Prod.exists, definition?_eq_some_iff]
    constructor
    · rintro ⟨_, _, ⟨rest, holds, _⟩, rfl⟩
      exact ⟨rest, holds⟩
    · rintro ⟨rest, holds⟩
      exact ⟨name, definitionValue rest, ⟨rest, holds, rfl⟩, rfl⟩
  | external =>
    have spelled : ".extern".toList = ['.', 'e', 'x', 't', 'e', 'r', 'n'] := rfl
    rw [Names, keywordLine_iff spelled (by decide) fun _ => visible_of_isNameStart]
    simp [name?, externalName?, Option.bind_eq_some_iff]
  | label => exact labelName?_eq_some_iff line name
  | segment =>
    have spelled : ".section".toList = ['.', 's', 'e', 'c', 't', 'i', 'o', 'n'] := rfl
    rw [Names, keywordLine_iff spelled (by decide) fun _ => visible_of_isNameChar]
    simp [name?, sectionName?, Option.bind_eq_some_iff]

def CommentStarts (s : List Char) : Prop :=
  "//".toList <+: s ∨ "/*".toList <+: s

theorem isBefore_comment (s : List Char) :
    IsBefore CommentStarts s (before ['/', '*'] (before ['/', '/'] s)) := by
  -- Cutting at one mark and then at the other cuts at whichever comes first: the star of a block comment that is cut
  -- in two would have to be the slash of a line comment.
  induction s with
  | nil => exact ⟨⟨[], rfl, .inl rfl⟩, fun _ _ _ _ => Nat.zero_le _⟩
  | cons c s ih =>
    rw [before]
    split
    · rename_i line
      exact .here (.inl (List.isPrefixOf_iff_prefix.mp line))
    · rename_i noLine
      rw [before]
      split
      · rename_i block
        have kept : before ['/', '/'] s <+: s := ⟨_, before_append_fromMark? ['/', '/'] s⟩
        exact .here (.inr ((List.isPrefixOf_iff_prefix.mp block).trans ((List.prefix_cons_inj c).mpr kept)))
      · rename_i noBlock
        refine .step ?_ ih
        rintro (line | ⟨rest, same⟩)
        · exact noLine (List.isPrefixOf_iff_prefix.mpr line)
        · obtain ⟨rfl, rfl⟩ := List.cons.inj same
          exact noBlock rfl

theorem definitionValue_eq_iff (s value : List Char) :
    definitionValue s = value ↔ ∃ code, IsBefore CommentStarts s code ∧ IsTrimmed code value := by
  rw [definitionValue, trim_eq_iff]
  constructor
  · intro trimmed
    exact ⟨_, isBefore_comment s, trimmed⟩
  · rintro ⟨code, before, trimmed⟩
    rwa [(isBefore_comment s).unique before]

end Source

end AsmIndex
