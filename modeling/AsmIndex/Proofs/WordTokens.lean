import AsmIndex.Proofs.TokenOrder

namespace AsmIndex

open AsmIndex.Text AsmIndex.Buffer AsmIndex.Highlight

namespace Buffer

def isNumeral : List Char → Bool
  | '%' :: c :: _ => c.isDigit
  | c :: _ => c.isDigit
  | [] => false

def NameEnds (rest : List Char) : Prop :=
  ∀ c, rest.head? = some c → Source.isNameChar c = false

theorem wordAt?_of_wordSpan? {text : String} {position : Position} {word : Span}
    (under : wordSpan? text position = some word) : wordAt? text position = some word.word := by
  rw [wordAt?, under, Option.map_some]

theorem isNameChar_of_isDigit {c : Char} (digit : c.isDigit = true) :
    Source.isNameChar c = true := by
  simp [Source.isNameChar, Char.isAlphanum, digit]

theorem isNameChar_of_isAlpha {c : Char} (letter : c.isAlpha = true) : Source.isNameChar c = true := by
  simp [Source.isNameChar, Char.isAlphanum, letter]

theorem isNameChar_of_isHexDigit {c : Char} (digit : isHexDigit c = true) :
    Source.isNameChar c = true := by
  simp only [isHexDigit, Bool.or_eq_true, Bool.and_eq_true, decide_eq_true_eq] at digit
  rcases digit with (digit | lower) | upper
  · exact isNameChar_of_isDigit digit
  · have letter : 97 ≤ c.toNat ∧ c.toNat ≤ 102 := lower
    have isLower : c.isLower = true := by
      delta Char.isLower
      simp only [Bool.and_eq_true, decide_eq_true_eq, UInt32.le_iff_toNat_le, ge_iff_le]
      change 97 ≤ c.toNat ∧ c.toNat ≤ 122
      omega
    exact isNameChar_of_isAlpha (Bool.or_eq_true_iff.mpr (.inr isLower))
  · have letter : 65 ≤ c.toNat ∧ c.toNat ≤ 70 := upper
    have isUpper : c.isUpper = true := by
      delta Char.isUpper
      simp only [decide_eq_true_eq, UInt32.le_iff_toNat_le, ge_iff_le]
      change 65 ≤ c.toNat ∧ c.toNat ≤ 90
      omega
    exact isNameChar_of_isAlpha (Bool.or_eq_true_iff.mpr (.inl isUpper))

theorem isTokenStart_of_isNameChar {c : Char} (name : Source.isNameChar c = true)
    (other : c.isDigit = false) : isTokenStart c = true := by
  simpa [isTokenStart, Source.isNameStart, Source.isNameChar, Char.isAlphanum, other] using name

theorem not_isTokenStart_of_not_isNameChar {c : Char} (other : Source.isNameChar c = false) :
    isTokenStart c = false := by
  simp only [Source.isNameChar, Char.isAlphanum, Bool.or_eq_false_iff] at other
  simp [isTokenStart, Source.isNameStart, other]

def hexRun : List Char → Nat
  | '0' :: x :: rest => if x = 'x' ∨ x = 'X' then (rest.takeWhile isHexDigit).length else 0
  | _ => 0

theorem hexRun_of_ne {c : Char} (other : c ≠ '0') (s : List Char) : hexRun (c :: s) = 0 := by
  unfold hexRun
  split
  · rename_i same
    exact absurd (List.cons.inj same).1 other
  · rfl

theorem digitsLength_eq (s : List Char) :
    digitsLength s = if hexRun s = 0 then (s.takeWhile Char.isDigit).length else hexRun s + 2 := by
  unfold digitsLength hexRun
  split
  · rename_i x rest
    by_cases mark : x = 'x' ∨ x = 'X'
    · by_cases digits : (rest.takeWhile isHexDigit).length = 0 <;> simp [mark, digits]
    · simp [mark]
  · simp

section

variable {rest : List Char} (ends : NameEnds rest)

include ends

theorem takeWhile_append_of_nameEnds {p : Char → Bool}
    (names : ∀ c, p c = true → Source.isNameChar c = true) (s : List Char) :
    (s ++ rest).takeWhile p = s.takeWhile p := by
  have stops : rest.takeWhile p = [] := by
    cases rest with
    | nil => rfl
    | cons c rest =>
      have other : ¬p c = true := fun member => by
        have outside := ends c rfl
        rw [names c member] at outside
        cases outside
      exact List.takeWhile_cons_of_neg other
  rw [List.takeWhile_append, stops, List.append_nil]
  split
  · rename_i whole
    exact (List.IsPrefix.eq_of_length (List.takeWhile_prefix p) whole).symm
  · rfl

theorem nameRun_append (s : List Char) : nameRun (s ++ rest) = nameRun s := by
  rw [nameRun, takeWhile_append_of_nameEnds ends (fun _ name => name), nameRun]

theorem nameLength_append (s : List Char) : nameLength (s ++ rest) = nameLength s := by
  cases s with
  | nil =>
    cases rest with
    | nil => rfl
    | cons c rest => simp [nameLength, not_isTokenStart_of_not_isNameChar (ends c rfl)]
  | cons c s => simp only [List.cons_append, nameLength, nameRun_append ends]

theorem hexRun_append (s : List Char) : hexRun (s ++ rest) = hexRun s := by
  cases s with
  | nil =>
    cases rest with
    | nil => rfl
    | cons c rest => exact hexRun_of_ne (fun same => absurd (ends c rfl) (by subst same; decide)) rest
  | cons a s =>
    by_cases zero : a = '0'
    · subst zero
      cases s with
      | nil =>
        cases rest with
        | nil => rfl
        | cons c rest =>
          have other : ¬(c = 'x' ∨ c = 'X') := by
            rintro (rfl | rfl) <;> exact absurd (ends _ rfl) (by decide)
          simp [hexRun, other]
      | cons x s =>
        simp only [List.cons_append, hexRun,
          takeWhile_append_of_nameEnds ends fun _ => isNameChar_of_isHexDigit]
    · rw [List.cons_append, hexRun_of_ne zero, hexRun_of_ne zero]

theorem digitsLength_append (s : List Char) : digitsLength (s ++ rest) = digitsLength s := by
  rw [digitsLength_eq, digitsLength_eq, hexRun_append ends,
    takeWhile_append_of_nameEnds ends fun _ => isNameChar_of_isDigit]

theorem tokenLength_append {s : List Char} (nonempty : s ≠ []) :
    tokenLength (s ++ rest) = tokenLength s := by
  have name : markedNameLength (s ++ rest) = markedNameLength s :=
    marked_append '%' (nameLength_append ends) nonempty
  have number : numberLength (s ++ rest) = numberLength s :=
    marked_append '$' (digitsLength_append ends) nonempty
  rw [tokenLength, name, number, tokenLength]

end

theorem nameRun_le (s : List Char) : nameRun s ≤ s.length :=
  (List.takeWhile_prefix Source.isNameChar).length_le

theorem nameLength_le (s : List Char) : nameLength s ≤ s.length := by
  fun_cases nameLength s with
  | case1 c rest _ =>
    have bound := nameRun_le rest
    rw [List.length_cons]
    omega
  | case2 c rest _ => omega
  | case3 => exact Nat.le_refl 0

theorem hexRun_le (s : List Char) : hexRun s = 0 ∨ hexRun s + 2 ≤ s.length := by
  fun_cases hexRun s with
  | case1 x rest _ =>
    have bound := (List.takeWhile_prefix (l := rest) isHexDigit).length_le
    simp only [List.length_cons]
    omega
  | case2 x rest _ => exact .inl rfl
  | case3 s _ => exact .inl rfl

theorem digitsLength_le (s : List Char) : digitsLength s ≤ s.length := by
  rw [digitsLength_eq]
  split
  · exact (List.takeWhile_prefix Char.isDigit).length_le
  · have bound := hexRun_le s
    omega

theorem tokenLength_le (s : List Char) : tokenLength s ≤ s.length := by
  unfold tokenLength
  split
  · exact marked_le '$' digitsLength_le s
  · exact marked_le '%' nameLength_le s

/-- A name that starts with no digit, with or without a percent sign. -/
def IsMarkedName (text : List Char) : Prop :=
  ∃ c run, isTokenStart c = true ∧ (∀ d ∈ run, Source.isNameChar d = true) ∧
    (text = c :: run ∨ text = '%' :: c :: run)

theorem nameRun_of_names {run : List Char} (names : ∀ d ∈ run, Source.isNameChar d = true) :
    nameRun run = run.length := by
  have whole : (run ++ []).takeWhile Source.isNameChar = run ++ [].takeWhile Source.isNameChar :=
    List.takeWhile_append_of_pos names
  rw [List.append_nil, List.takeWhile_nil, List.append_nil] at whole
  rw [nameRun, whole]

theorem digitsLength_of_not_digit {c : Char} (other : c.isDigit = false) (s : List Char) :
    digitsLength (c :: s) = 0 := by
  have zero : c ≠ '0' := by
    rintro rfl
    revert other
    decide
  rw [digitsLength_eq, hexRun_of_ne zero]
  simp [other]

theorem ne_percent_of_isNameChar {c : Char} (name : Source.isNameChar c = true) : c ≠ '%' := by
  rintro rfl
  revert name
  decide

theorem IsMarkedName.markedNameLength {text : List Char} (marked : IsMarkedName text) :
    markedNameLength text = text.length := by
  obtain ⟨c, run, first, names, rfl | rfl⟩ := marked
  · have other : c ≠ '%' := by
      rintro rfl
      revert first
      decide
    rw [Highlight.markedNameLength, marked_of_ne other, nameLength, if_pos first, nameRun_of_names names,
      List.length_cons]
  · simp [Highlight.markedNameLength, marked_mark, nameLength, first, nameRun_of_names names]

theorem IsMarkedName.ne_nil {text : List Char} (marked : IsMarkedName text) : text ≠ [] := by
  obtain ⟨c, run, _, _, rfl | rfl⟩ := marked <;> exact List.cons_ne_nil _ _

theorem IsMarkedName.tokenLength {text : List Char} (marked : IsMarkedName text) :
    tokenLength text = text.length := by
  have positive := List.length_pos_iff.mpr marked.ne_nil
  rw [Highlight.tokenLength, marked.markedNameLength, if_neg (by omega)]

theorem IsMarkedName.token (column : Nat) {text : List Char} (marked : IsMarkedName text) :
    spansFrom Highlight.tokenLength column text = [⟨text, column⟩] :=
  spansFrom_whole column marked.ne_nil marked.tokenLength

section

variable {c : Char} {run : List Char} (names : ∀ d ∈ run, Source.isNameChar d = true)

include names

theorem exists_start_of_names (nonempty : run ≠ []) (named : isNumeral run = false) :
    ∃ d more, run = d :: more ∧ isTokenStart d = true ∧ d.isDigit = false := by
  obtain ⟨d, run, rfl⟩ := List.exists_cons_of_ne_nil nonempty
  have first := names d (by simp)
  have digit : d.isDigit = false := by
    unfold isNumeral at named
    split at named
    · rename_i same
      exact absurd (List.cons.inj same).1 (ne_percent_of_isNameChar first)
    · rename_i same
      rwa [(List.cons.inj same).1]
    · rename_i same
      cases same
  exact ⟨d, run, rfl, isTokenStart_of_isNameChar first digit, digit⟩

theorem isMarkedName_of_names (nonempty : run ≠ []) (named : isNumeral run = false) :
    IsMarkedName run := by
  obtain ⟨d, more, rfl, first, _⟩ := exists_start_of_names names nonempty named
  exact ⟨d, more, first, (List.forall_mem_cons.mp names).2, .inl rfl⟩

theorem wordLength_of_names (nonempty : run ≠ []) : wordLength run = run.length := by
  obtain ⟨d, run, rfl⟩ := List.exists_cons_of_ne_nil nonempty
  rw [wordLength, marked_of_ne (ne_percent_of_isNameChar (names d (by simp))), nameRun_of_names names]

theorem tokenLength_of_other (other : Source.isNameChar c = false) (percent : c ≠ '%')
    (nonempty : run ≠ []) (named : isNumeral run = false) : tokenLength (c :: run) = 0 := by
  have noName : markedNameLength (c :: run) = 0 := by
    rw [markedNameLength, marked_of_ne percent, nameLength, not_isTokenStart_of_not_isNameChar other]
    rfl
  rw [tokenLength, noName, if_pos rfl]
  by_cases dollar : c = '$'
  · subst dollar
    obtain ⟨d, more, rfl, _, digit⟩ := exists_start_of_names names nonempty named
    rw [numberLength, marked_mark, digitsLength_of_not_digit digit, if_pos rfl]
  · have digit : c.isDigit = false := by
      cases isDigit : c.isDigit with
      | false => rfl
      | true =>
        rw [isNameChar_of_isDigit isDigit] at other
        cases other
    rw [numberLength, marked_of_ne dollar, digitsLength_of_not_digit digit]

theorem mem_tokens_of_mem_words_of_block {column : Nat} {word : Span}
    (member : word ∈ spansFrom wordLength column (c :: run)) (named : isNumeral word.text = false) :
    word ∈ spansFrom tokenLength column (c :: run) ∧ IsMarkedName word.text := by
  by_cases name : Source.isNameChar c = true
  · have all : ∀ d ∈ c :: run, Source.isNameChar d = true := List.forall_mem_cons.mpr ⟨name, names⟩
    rw [spansFrom_whole column (List.cons_ne_nil c run) (wordLength_of_names all (List.cons_ne_nil c run))]
      at member
    obtain rfl := List.mem_singleton.mp member
    have marked := isMarkedName_of_names all (List.cons_ne_nil c run) named
    rw [marked.token]
    exact ⟨List.mem_singleton.mpr rfl, marked⟩
  · have other : Source.isNameChar c = false := by simpa using name
    by_cases percent : c = '%'
    · subst percent
      by_cases nothing : run = []
      · subst nothing
        simp [spansFrom, wordLength, marked_mark, nameRun] at member
      · have length : wordLength ('%' :: run) = ('%' :: run).length := by
          have positive := List.length_pos_iff.mpr nothing
          rw [wordLength, marked_mark, nameRun_of_names names, if_neg (by omega), List.length_cons]
        rw [spansFrom_whole column (List.cons_ne_nil _ _) length] at member
        obtain rfl := List.mem_singleton.mp member
        obtain ⟨d, more, rfl⟩ := List.exists_cons_of_ne_nil nothing
        obtain ⟨first, names⟩ := List.forall_mem_cons.mp names
        have marked : IsMarkedName ('%' :: d :: more) :=
          ⟨d, more, isTokenStart_of_isNameChar first named, names, .inr rfl⟩
        rw [marked.token]
        exact ⟨List.mem_singleton.mpr rfl, marked⟩
    · have skips : wordLength (c :: run) = 0 := by
        rw [wordLength, marked_of_ne percent, nameRun, List.takeWhile_cons_of_neg name, List.length_nil]
      rw [spansFrom_skip column skips] at member
      by_cases nothing : run = []
      · subst nothing
        simp [spansFrom] at member
      · rw [spansFrom_whole _ nothing (wordLength_of_names names nothing)] at member
        obtain rfl := List.mem_singleton.mp member
        have marked := isMarkedName_of_names names nothing named
        rw [spansFrom_skip column (tokenLength_of_other names other percent nothing named), marked.token]
        exact ⟨List.mem_singleton.mpr rfl, marked⟩

end

theorem spansFrom_block (column : Nat) (c : Char) (rest : List Char) :
    spansFrom wordLength column (c :: rest) =
      spansFrom wordLength column (c :: rest.takeWhile Source.isNameChar) ++
        spansFrom wordLength (column + width (c :: rest.takeWhile Source.isNameChar))
          (rest.dropWhile Source.isNameChar) ∧
    spansFrom tokenLength column (c :: rest) =
      spansFrom tokenLength column (c :: rest.takeWhile Source.isNameChar) ++
        spansFrom tokenLength (column + width (c :: rest.takeWhile Source.isNameChar))
          (rest.dropWhile Source.isNameChar) := by
  have ends : NameEnds (rest.dropWhile Source.isNameChar) := stops_dropWhile Source.isNameChar rest
  have parts : c :: rest =
      (c :: rest.takeWhile Source.isNameChar) ++ rest.dropWhile Source.isNameChar := by
    rw [List.cons_append, List.takeWhile_append_dropWhile]
  constructor
  · conv => lhs; rw [parts]
    exact spansFrom_append (marked_le '%' nameRun_le) column fun _ nonempty _ =>
      marked_append '%' (nameRun_append ends) nonempty
  · conv => lhs; rw [parts]
    exact spansFrom_append tokenLength_le column fun _ nonempty _ => tokenLength_append ends nonempty

theorem mem_tokens_of_mem_words {s : List Char} {column : Nat} {word : Span}
    (member : word ∈ spansFrom wordLength column s) (named : isNumeral word.text = false) :
    word ∈ spansFrom tokenLength column s ∧ IsMarkedName word.text := by
  induction length : s.length using Nat.strongRecOn generalizing s column with
  | ind n ih =>
    cases s with
    | nil => simp [spansFrom] at member
    | cons c rest =>
      obtain ⟨words, tokens⟩ := spansFrom_block column c rest
      rw [words] at member
      rw [tokens]
      rcases List.mem_append.mp member with here | later
      · have names : ∀ d ∈ rest.takeWhile Source.isNameChar, Source.isNameChar d = true :=
          List.all_eq_true.mp List.all_takeWhile
        obtain ⟨token, marked⟩ := mem_tokens_of_mem_words_of_block names here named
        exact ⟨List.mem_append_left _ token, marked⟩
      · have shorter : (rest.dropWhile Source.isNameChar).length < n := by
          have bound := (List.dropWhile_suffix (l := rest) Source.isNameChar).length_le
          rw [← length, List.length_cons]
          omega
        obtain ⟨token, marked⟩ := ih _ shorter later rfl
        exact ⟨List.mem_append_right _ token, marked⟩

end Buffer

end AsmIndex
