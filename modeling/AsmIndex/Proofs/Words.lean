import AsmIndex.Proofs.Utf16
import AsmIndex.Proofs.WordTokens

namespace AsmIndex

namespace Buffer

open AsmIndex.Text AsmIndex.Source

structure LongestRun (lead run rest : List Char) : Prop where
  nonempty : run ≠ []
  names : ∀ c ∈ run, isNameChar c = true
  start : ∀ c, lead.getLast? = some c → isNameChar c = false
  stop : Stops isNameChar rest

def markedRun (lead run : List Char) : Span :=
  if lead.getLast? = some '%' then ⟨'%' :: run, width lead.dropLast⟩ else ⟨run, width lead⟩

def IsWord (line : List Char) (word : Span) : Prop :=
  ∃ lead run rest, line = lead ++ run ++ rest ∧ LongestRun lead run rest ∧ word = markedRun lead run

theorem markedRun_percent (lead run : List Char) :
    markedRun (lead ++ ['%']) run = ⟨'%' :: run, width lead⟩ := by
  simp [markedRun]

theorem markedRun_of_ne {lead : List Char} (other : lead.getLast? ≠ some '%') (run : List Char) :
    markedRun lead run = ⟨run, width lead⟩ :=
  if_neg other

/-- A word without a percent sign can start here: no name goes on, and no percent sign belongs to it. -/
def Edge (lead : List Char) : Prop :=
  ∀ c, lead.getLast? = some c → isNameChar c = false ∧ c ≠ '%'

structure WordBetween (lead text rest : List Char) : Prop where
  chars : ∃ run, run ≠ [] ∧ (∀ c ∈ run, isNameChar c = true) ∧ (text = '%' :: run ∨ text = run ∧ Edge lead)
  stop : Stops isNameChar rest

theorem isWord_iff (line : List Char) (word : Span) :
    IsWord line word ↔ ∃ lead rest, line = lead ++ word.text ++ rest ∧ word.start = width lead ∧
      WordBetween lead word.text rest := by
  constructor
  · rintro ⟨lead, run, rest, same, ⟨nonempty, names, start, stop⟩, rfl⟩
    by_cases percent : lead.getLast? = some '%'
    · obtain ⟨before, rfl⟩ := List.getLast?_eq_some_iff.mp percent
      rw [markedRun_percent]
      exact ⟨before, rest, by simpa using same, rfl, ⟨run, nonempty, names, .inl rfl⟩, stop⟩
    · rw [markedRun_of_ne percent]
      refine ⟨lead, rest, same, rfl, ⟨run, nonempty, names, .inr ⟨rfl, fun c last => ?_⟩⟩, stop⟩
      exact ⟨start c last, fun mark => percent (mark ▸ last)⟩
  · rintro ⟨lead, rest, same, start, ⟨run, nonempty, names, marked | ⟨plain, edge⟩⟩, stop⟩
    · refine ⟨lead ++ ['%'], run, rest, ?_, ⟨nonempty, names, ?_, stop⟩, ?_⟩
      · rw [same, marked]
        simp
      · intro c last
        rw [List.getLast?_concat, Option.some.injEq] at last
        subst last
        decide
      · rw [markedRun_percent, ← marked, ← start]
    · refine ⟨lead, run, rest, by rw [same, plain], ⟨nonempty, names, fun c last => (edge c last).1, stop⟩, ?_⟩
      rw [markedRun_of_ne fun last => (edge _ last).2 rfl, ← plain, ← start]

theorem ascii_of_names {run : List Char} (names : ∀ c ∈ run, isNameChar c = true) : ∀ c ∈ run, c.toNat < 0x80 := by
  intro c member
  have printed := printed_of_isNameChar (names c member)
  omega

theorem ascii_percent {run : List Char} (names : ∀ c ∈ run, isNameChar c = true) :
    ∀ c ∈ '%' :: run, c.toNat < 0x80 :=
  List.forall_mem_cons.mpr ⟨by decide, ascii_of_names names⟩

namespace WordBetween

variable {lead text rest : List Char} (word : WordBetween lead text rest)

include word

theorem ne_nil : text ≠ [] := by
  obtain ⟨run, nonempty, _, rfl | ⟨rfl, _⟩⟩ := word.chars
  · exact List.cons_ne_nil _ _
  · exact nonempty

theorem getLast?_name : ∃ c, text.getLast? = some c ∧ isNameChar c = true := by
  obtain ⟨run, nonempty, names, marked⟩ := word.chars
  have last := List.getLast?_eq_some_getLast nonempty
  refine ⟨run.getLast nonempty, ?_, names _ (List.getLast_mem nonempty)⟩
  rcases marked with rfl | ⟨rfl, _⟩
  · rw [← List.singleton_append, List.getLast?_append, last]
    rfl
  · exact last

theorem ascii : ∀ c ∈ text, c.toNat < 0x80 := by
  obtain ⟨run, _, names, rfl | ⟨rfl, _⟩⟩ := word.chars
  · exact ascii_percent names
  · exact ascii_of_names names

theorem wordLength_eq : wordLength (text ++ rest) = text.length := by
  rw [wordLength, marked_append '%' (nameRun_append word.stop) word.ne_nil]
  obtain ⟨run, nonempty, names, rfl | ⟨rfl, _⟩⟩ := word.chars
  · have positive := List.length_pos_iff.mpr nonempty
    rw [marked_mark, nameRun_of_names names, if_neg (by omega), List.length_cons]
  · exact wordLength_of_names names nonempty

end WordBetween

theorem wordLength_cases (c : Char) (s : List Char) :
    (wordLength (c :: s) = 0 ∧ isNameChar c = false ∧ (c = '%' → Stops isNameChar s)) ∨
    ∃ text rest, c :: s = text ++ rest ∧
      ∀ lead, Stops isNameChar (c :: s) ∨ Edge lead → WordBetween lead text rest := by
  have parts (t : List Char) : t = t.takeWhile isNameChar ++ t.dropWhile isNameChar :=
    List.takeWhile_append_dropWhile.symm
  by_cases name : isNameChar c = true
  · refine .inr ⟨_, _, parts (c :: s), fun lead seam => ⟨⟨_, ?_, fun _ => List.mem_takeWhile_imp, .inr ⟨rfl, ?_⟩⟩,
      stops_dropWhile isNameChar _⟩⟩
    · rw [List.takeWhile_cons_of_pos name]
      exact List.cons_ne_nil _ _
    · refine seam.resolve_left fun stops => ?_
      rw [stops c rfl] at name
      cases name
  · have other : isNameChar c = false := by simpa using name
    by_cases percent : c = '%'
    · subst percent
      by_cases nothing : s.takeWhile isNameChar = []
      · have stops := stops_dropWhile isNameChar s
        rw [← List.nil_append (s.dropWhile isNameChar), ← nothing, ← parts] at stops
        refine .inl ⟨?_, other, fun _ => stops⟩
        rw [wordLength, marked_mark, nameRun, nothing]
        rfl
      · refine .inr ⟨'%' :: s.takeWhile isNameChar, s.dropWhile isNameChar, ?_, fun lead _ =>
          ⟨⟨_, nothing, fun _ => List.mem_takeWhile_imp, .inl rfl⟩, stops_dropWhile isNameChar s⟩⟩
        rw [List.cons_append, ← parts]
    · refine .inl ⟨?_, other, fun same => absurd same percent⟩
      rw [wordLength, marked_of_ne percent, nameRun, List.takeWhile_cons_of_neg name]
      rfl

theorem isWord_of_mem_spansFrom {lead s : List Char} (seam : Stops isNameChar s ∨ Edge lead) {word : Span}
    (member : word ∈ spansFrom wordLength (width lead) s) : IsWord (lead ++ s) word := by
  -- The part that is read grows, and no word ever lies across its end.
  induction length : s.length using Nat.strongRecOn generalizing s lead with
  | ind n ih =>
    cases s with
    | nil => simp [spansFrom] at member
    | cons c s =>
      rcases wordLength_cases c s with ⟨nothing, other, percent⟩ | ⟨text, rest, split, here⟩
      · have onward : Stops isNameChar s ∨ Edge (lead ++ [c]) := by
          by_cases mark : c = '%'
          · exact .inl (percent mark)
          · refine .inr fun d last => ?_
            rw [List.getLast?_concat, Option.some.injEq] at last
            exact last ▸ ⟨other, mark⟩
        have column : width lead + units c = width (lead ++ [c]) := by simp
        rw [spansFrom_skip _ nothing, column] at member
        have found := ih s.length (by rw [← length, List.length_cons]; omega) onward member rfl
        rwa [List.append_assoc] at found
      · have between := here lead seam
        have positive := List.length_pos_iff.mpr between.ne_nil
        rw [split] at member length ⊢
        rw [spansFrom_take _ between.ne_nil between.wordLength_eq, ← width_append] at member
        rw [← List.append_assoc]
        rcases List.mem_cons.mp member with rfl | later
        · exact (isWord_iff _ _).mpr ⟨lead, rest, rfl, rfl, between⟩
        · exact ih rest.length (by rw [← length, List.length_append]; omega) (.inl between.stop) later rfl

theorem wordLength_append_of_edge {part run : List Char} (nonempty : part ≠ []) (edge : Edge part) :
    wordLength (part ++ run) = wordLength part := by
  have names {s : List Char} {c : Char} (last : s.getLast? = some c) (other : isNameChar c = false) :
      nameRun (s ++ run) = nameRun s := by
    rw [nameRun, nameRun, List.takeWhile_append, if_neg]
    intro whole
    have same := List.IsPrefix.eq_of_length (List.takeWhile_prefix isNameChar) whole
    have name : isNameChar c = true := List.mem_takeWhile_imp (same.symm ▸ List.mem_of_getLast? last)
    rw [name] at other
    cases other
  obtain ⟨c, more, rfl⟩ := List.exists_cons_of_ne_nil nonempty
  obtain ⟨d, last⟩ : ∃ d, (c :: more).getLast? = some d := ⟨_, List.getLast?_eq_some_getLast nonempty⟩
  obtain ⟨other, mark⟩ := edge d last
  by_cases percent : c = '%'
  · subst percent
    cases more with
    | nil => exact absurd (Option.some.inj last).symm mark
    | cons e more =>
      rw [List.getLast?_cons_cons] at last
      rw [List.cons_append, wordLength, marked_mark, marked_mark, names last other]
  · rw [List.cons_append, wordLength, marked_of_ne percent, marked_of_ne percent, ← List.cons_append,
      names last other]

theorem spans_of_wordBetween {lead text rest : List Char} (word : WordBetween lead text rest) :
    spans wordLength (lead ++ text ++ rest) =
      spans wordLength lead ++ ⟨text, width lead⟩ :: spansFrom wordLength (width lead + width text) rest := by
  have seam : ∀ part, part ≠ [] → part <:+ lead →
      wordLength (part ++ (text ++ rest)) = wordLength part := by
    intro part nonempty inside
    obtain ⟨run, _, _, rfl | ⟨_, edge⟩⟩ := word.chars
    · exact marked_append '%' (nameRun_append (stops_cons (by decide) (run ++ rest))) nonempty
    · refine wordLength_append_of_edge nonempty fun c last => edge c ?_
      obtain ⟨before, rfl⟩ := inside
      rw [List.getLast?_append, last]
      rfl
  have bounded : ∀ s, wordLength s ≤ s.length := marked_le '%' nameRun_le
  rw [List.append_assoc, spans, spansFrom_append bounded 0 seam,
    spansFrom_take _ word.ne_nil word.wordLength_eq, Nat.zero_add]
  rfl

theorem mem_words_iff (line : List Char) (word : Span) : word ∈ spans wordLength line ↔ IsWord line word := by
  constructor
  · intro member
    have edge : Edge [] := fun c last => by cases last
    exact isWord_of_mem_spansFrom (.inr edge) member
  · intro isWord
    obtain ⟨lead, rest, rfl, start, between⟩ := (isWord_iff line word).mp isWord
    rw [spans_of_wordBetween between, ← start]
    exact List.mem_append_right _ (List.mem_cons_self ..)

namespace Span

def Touches (span : Span) (column : Nat) : Prop :=
  span.start ≤ column ∧ column ≤ span.stop

end Span

section

variable {text : String} {position : Position} {line : List Char} {word : Span}

theorem wordSpan?_eq_some (under : wordSpan? text position = some word) :
    ∃ line, line? text position.line.toNat = some line ∧ IsWord line word ∧ word.Touches position.character.toNat ∧
      ∀ other, IsWord line other → other.Touches position.character.toNat → other = word ∨ word.stop ≤ other.start := by
  obtain ⟨line, row, taken⟩ := Option.bind_eq_some_iff.mp under
  obtain ⟨touches, earlier, later, split, passed⟩ := List.find?_eq_some_iff_append.mp taken
  have ordered : (spans wordLength line).Pairwise fun a b => a.stop ≤ b.start :=
    spansFrom_ordered wordLength 0 line
  rw [split] at ordered
  rw [decide_eq_true_eq] at touches
  refine ⟨line, row, (mem_words_iff line word).mp (List.mem_of_find?_eq_some taken), touches, ?_⟩
  intro other isWord touching
  have member := (mem_words_iff line other).mpr isWord
  rw [split] at member
  rcases List.mem_append.mp member with early | member
  · have apart := passed other early
    simp only [Bool.not_eq_true', decide_eq_false_iff_not] at apart
    exact absurd touching apart
  · rcases List.mem_cons.mp member with same | late
    · exact .inl same
    · exact .inr ((List.pairwise_cons.mp (List.pairwise_append.mp ordered).2.1).1 other late)

theorem toNat_start_of_touches (touches : word.Touches position.character.toNat) :
    word.word.start.toNat = word.start :=
  UInt32.toNat_ofNat_of_lt' (Nat.lt_of_le_of_lt touches.1 position.character.toNat_lt_size)

theorem toNat_sub_of_touches (touches : word.Touches position.character.toNat) :
    (position.character - word.word.start).toNat = position.character.toNat - word.start := by
  have start := toNat_start_of_touches touches
  have order : word.word.start ≤ position.character := by
    rw [UInt32.le_iff_toNat_le, start]
    exact touches.1
  rw [UInt32.toNat_sub_of_le _ _ order, start]

theorem typedAt_of_word (under : wordSpan? text position = some word) :
    typedAt text position = word.text.take (position.character.toNat - word.start) := by
  obtain ⟨_, _, _, touches, _⟩ := wordSpan?_eq_some under
  rw [typedAt, wordAt?_of_wordSpan? under]
  exact congrArg (fun n => word.text.take n) (toNat_sub_of_touches touches)

theorem exists_wordSpan? (row : line? text position.line.toNat = some line) (isWord : IsWord line word)
    (touches : word.Touches position.character.toNat) : ∃ found, wordSpan? text position = some found := by
  rw [wordSpan?, row, ← Option.isSome_iff_exists]
  change ((spans wordLength line).find? _).isSome = true
  rw [List.find?_isSome]
  exact ⟨word, (mem_words_iff line word).mpr isWord, decide_eq_true touches⟩

theorem wordSpan?_of_touches (row : line? text position.line.toNat = some line) (isWord : IsWord line word)
    (touches : word.Touches position.character.toNat)
    (alone : ∀ other, IsWord line other → other.stop ≤ word.start → ¬other.Touches position.character.toNat) :
    wordSpan? text position = some word := by
  obtain ⟨found, under⟩ := exists_wordSpan? row isWord touches
  obtain ⟨_, again, other, touching, leftmost⟩ := wordSpan?_eq_some under
  obtain rfl := Option.some.inj (row.symm.trans again)
  rcases leftmost word isWord touches with same | apart
  · rw [under, same]
  · exact absurd touching (alone found other apart)

theorem wordSpan?_of_inside (row : line? text position.line.toNat = some line) (isWord : IsWord line word)
    (inside : word.start < position.character.toNat) (within : position.character.toNat ≤ word.stop) :
    wordSpan? text position = some word := by
  apply wordSpan?_of_touches row isWord ⟨by omega, within⟩
  intro other _ apart touching
  have reached := touching.2
  omega

theorem wordSpan?_of_edge {lead name rest : List Char}
    (row : line? text position.line.toNat = some (lead ++ name ++ rest)) (between : WordBetween lead name rest)
    (edge : Edge lead) (touches : Span.Touches ⟨name, width lead⟩ position.character.toNat) :
    wordSpan? text position = some ⟨name, width lead⟩ := by
  apply wordSpan?_of_touches row ((isWord_iff _ _).mpr ⟨lead, rest, rfl, rfl, between⟩) touches
  intro other left apart touching
  obtain ⟨front, back, split, start, ended⟩ := (isWord_iff _ other).mp left
  -- a word to the left that touches the cursor ends where the lead ends, in a name character
  have wide : width lead = width (front ++ other.text) := by
    have begun := touches.1
    have reached := touching.2
    rw [Span.stop] at reached apart
    rw [width_append, ← start]
    simp only at begun apart
    omega
  rw [List.append_assoc] at split
  obtain ⟨same, _⟩ := append_inj_of_width split wide
  obtain ⟨c, last, name⟩ := ended.getLast?_name
  have outside := (edge c (by rw [same, List.getLast?_append, last]; rfl)).1
  rw [name] at outside
  cases outside

end

def CharAt (line : List Char) (column : Nat) (c : Char) : Prop :=
  ∃ lead rest, line = lead ++ c :: rest ∧ width lead = column

/-- The character stands at the column and belongs to a word of the line. -/
def InWord (line : List Char) (column : Nat) (c : Char) : Prop :=
  CharAt line column c ∧ ∃ word, IsWord line word ∧ word.start ≤ column ∧ column + units c ≤ word.stop

theorem IsWord.width_take {line : List Char} {word : Span} (isWord : IsWord line word) (n : Nat) :
    width (word.text.take n) = min n word.text.length := by
  obtain ⟨lead, rest, _, _, between⟩ := (isWord_iff line word).mp isWord
  rw [width_of_ascii fun c member => between.ascii c (List.mem_of_mem_take member), List.length_take]

theorem IsWord.stop_eq {line : List Char} {word : Span} (isWord : IsWord line word) :
    word.stop = word.start + word.text.length := by
  have whole := isWord.width_take word.text.length
  rw [List.take_length, Nat.min_self] at whole
  rw [Span.stop, whole]

theorem IsWord.inWord {line : List Char} {word : Span} (isWord : IsWord line word) {n : Nat}
    (inside : n < word.text.length) : ∃ c, units c = 1 ∧ InWord line (word.start + n) c := by
  have size := isWord.width_take n
  have stop := isWord.stop_eq
  obtain ⟨lead, rest, same, start, between⟩ := (isWord_iff line word).mp isWord
  have one : units word.text[n] = 1 := by
    have ascii := between.ascii _ (List.getElem_mem inside)
    exact if_pos (by omega)
  refine ⟨word.text[n], one, ⟨lead ++ word.text.take n, word.text.drop (n + 1) ++ rest, ?_, ?_⟩, word, isWord, ?_, ?_⟩
  · rw [same, List.append_assoc, List.append_assoc, ← List.cons_append, ← List.drop_eq_getElem_cons inside,
      ← List.append_assoc (word.text.take n), List.take_append_drop]
  · rw [width_append, size]
    omega
  · omega
  · omega

theorem utf16_typed {text : String} {position : Position} {line : List Char} {word : Span}
    (under : wordSpan? text position = some word) (isWord : IsWord line word)
    (touches : word.Touches position.character.toNat) :
    utf16 (typedAt text position) = unitsBetween line word.start position.character.toNat := by
  have stop := isWord.stop_eq
  obtain ⟨before, behind⟩ := touches
  obtain ⟨n, reached⟩ := Nat.exists_eq_add_of_le before
  have typed : typedAt text position = word.text.take n := by
    rw [typedAt_of_word under, reached, Nat.add_sub_cancel_left]
  have size : width (word.text.take n) = n := by
    rw [isWord.width_take]
    omega
  obtain ⟨lead, rest, same, start, _⟩ := (isWord_iff line word).mp isWord
  have parts : line = lead ++ word.text.take n ++ (word.text.drop n ++ rest) := by
    rw [List.append_assoc, ← List.append_assoc (word.text.take n), List.take_append_drop, ← List.append_assoc,
      ← same]
  have units := unitsBetween_append lead (word.text.take n) (word.text.drop n ++ rest)
  rw [← parts, size, ← start, ← reached] at units
  rw [typed, units]

theorem isSome_wordSpan?_iff (text : String) (position : Position) :
    (wordSpan? text position).isSome ↔ ∃ line, line? text position.line.toNat = some line ∧
      ∃ column c, InWord line column c ∧
        (column + units c = position.character.toNat ∨ column = position.character.toNat) := by
  rw [Option.isSome_iff_exists]
  constructor
  · rintro ⟨word, under⟩
    obtain ⟨line, row, isWord, ⟨before, behind⟩, _⟩ := wordSpan?_eq_some under
    have stop := isWord.stop_eq
    have positive := start_lt_stop ((mem_words_iff line word).mpr isWord)
    refine ⟨line, row, ?_⟩
    -- at the end of the word only its last character is beside the cursor
    by_cases last : position.character.toNat = word.stop
    · obtain ⟨c, one, member⟩ := isWord.inWord (n := word.text.length - 1) (by omega)
      exact ⟨_, c, member, .inl (by omega)⟩
    · obtain ⟨c, one, member⟩ := isWord.inWord (n := position.character.toNat - word.start) (by omega)
      exact ⟨_, c, member, .inr (by omega)⟩
  · rintro ⟨line, row, column, c, ⟨_, word, isWord, before, behind⟩, beside⟩
    have positive := units_pos c
    exact exists_wordSpan? row isWord ⟨by omega, by omega⟩

/-- Two words touch the cursor, and then none does, in the middle of a pair of surrogates. -/
example : wordAt? "a%b😀c" ⟨0, 1⟩ = some ⟨['a'], 0, 1⟩ ∧ wordAt? "a%b😀c" ⟨0, 4⟩ = none := by
  decide +kernel

end Buffer

end AsmIndex
