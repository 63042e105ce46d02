import AsmIndex.Editor.Hover
import AsmIndex.Proofs.ScannedNames
import AsmIndex.Proofs.WordTokens

namespace AsmIndex

open AsmIndex.Text AsmIndex.Buffer

namespace Highlight

theorem fromMark?_eq_some {mark s found : List Char} (marked : fromMark? mark s = some found) :
    mark.isPrefixOf found = true := by
  induction s with
  | nil => cases marked
  | cons c s ih =>
    rw [fromMark?] at marked
    split at marked
    · rename_i here
      rwa [← Option.some.inj marked]
    · exact ih marked

theorem before_append {s found : List Char} (marked : fromMark? ['/', '/'] s = some found)
    (rest : List Char) : before ['/', '/'] (s ++ rest) = before ['/', '/'] s := by
  induction s with
  | nil => cases marked
  | cons c s ih =>
    rw [fromMark?] at marked
    rw [List.cons_append, before, before]
    split at marked
    · rename_i here
      cases s with
      | nil => simp at here
      | cons d s =>
        have alike : List.isPrefixOf ['/', '/'] (c :: (d :: s ++ rest)) = true := by
          simpa using here
        rw [if_pos alike, if_pos here]
    · rename_i later
      cases s with
      | nil => cases marked
      | cons d s =>
        have alike : ¬List.isPrefixOf ['/', '/'] (c :: (d :: s ++ rest)) = true := by
          simpa using later
        rw [if_neg alike, if_neg later, ih marked]

def remainder (line : List Char) : List Char :=
  (fromMark? ['/', '/'] (content line)).getD [] ++
    (line.reverse.takeWhile fun c => c = '\n' ∨ c = '\r').reverse

theorem code_append_remainder (line : List Char) : code line ++ remainder line = line := by
  rw [code, remainder, ← List.append_assoc, before_append_fromMark?, content_append]

theorem isBreak_of_mem_ending {line : List Char} {c : Char}
    (member : c ∈ (line.reverse.takeWhile fun c => c = '\n' ∨ c = '\r').reverse) :
    c = '\n' ∨ c = '\r' := by
  simpa using List.mem_takeWhile_imp (List.mem_reverse.mp member)

theorem nameEnds_remainder (line : List Char) : NameEnds (remainder line) := by
  intro c first
  unfold remainder at first
  cases marked : fromMark? ['/', '/'] (content line) with
  | some found =>
    have slashes := fromMark?_eq_some marked
    rw [marked, Option.getD_some] at first
    cases found with
    | nil => cases slashes
    | cons d found =>
      have same : d = c := by simpa using first
      have slash : '/' = d := by simp at slashes; exact slashes.1
      rw [← same, ← slash]
      decide
  | none =>
    rw [marked, Option.getD_none, List.nil_append] at first
    rcases isBreak_of_mem_ending (List.mem_of_head? first) with rfl | rfl <;> decide

theorem no_words_of_breaks {ending : List Char} (breaks : ∀ c ∈ ending, c = '\n' ∨ c = '\r')
    (column : Nat) : spansFrom wordLength column ending = [] := by
  induction ending generalizing column with
  | nil => rw [spansFrom]
  | cons c ending ih =>
    obtain ⟨first, breaks⟩ := List.forall_mem_cons.mp breaks
    have nothing : wordLength (c :: ending) = 0 := by
      rcases first with rfl | rfl <;>
        exact (marked_of_ne (by decide) ending).trans (by simp [nameRun, Source.isNameChar])
    rw [spansFrom_skip column nothing, ih breaks]

theorem mem_code_words {line : List Char} {word : Span} (member : word ∈ spans wordLength line)
    (early : word.stop ≤ width (before ['/', '/'] line)) : word ∈ spans wordLength (code line) := by
  have parts : spans wordLength line = spansFrom wordLength 0 (code line) ++
      spansFrom wordLength (0 + width (code line)) (remainder line) := by
    have joined : spansFrom wordLength 0 (code line ++ remainder line) = _ :=
      spansFrom_append (marked_le '%' nameRun_le) 0 fun _ nonempty _ =>
        marked_append '%' (nameRun_append (nameEnds_remainder line)) nonempty
    rwa [code_append_remainder] at joined
  rw [parts] at member
  rcases List.mem_append.mp member with inside | behind
  · exact inside
  · exfalso
    cases marked : fromMark? ['/', '/'] (content line) with
    | some found =>
      have same : before ['/', '/'] line = code line := by
        conv => lhs; rw [← content_append line]
        exact before_append marked _
      have low := (mem_spansFrom_bounds behind).1
      have positive := start_lt_stop behind
      rw [same] at early
      omega
    | none =>
      rw [remainder, marked, Option.getD_none, List.nil_append,
        no_words_of_breaks fun _ => isBreak_of_mem_ending] at behind
      cases behind

theorem apart_of_ordered {spans : List Span} (ordered : spans.Pairwise fun a b => a.stop ≤ b.start)
    {a b : Span} (first : a ∈ spans) (second : b ∈ spans) :
    a = b ∨ a.stop ≤ b.start ∨ b.stop ≤ a.start := by
  induction spans with
  | nil => cases first
  | cons span spans ih =>
    obtain ⟨before, ordered⟩ := List.pairwise_cons.mp ordered
    rcases List.mem_cons.mp first with here | first <;>
      rcases List.mem_cons.mp second with there | second
    · exact .inl (here.trans there.symm)
    · exact .inr (.inl (here ▸ before b second))
    · exact .inr (.inr (there ▸ before a first))
    · exact ih ordered first second

end Highlight

namespace Hover

/-- The text tells of the word as something of the kind. -/
def Describes (root? : Option Path) (word : String) : TokenKind → String → Prop
  | .definedMacro, value => ∃ definition, value = macroText root? word definition
  | .label, value => ∃ location, value = labelText root? word location
  | .register, value => registerText? word = some value
  | .instruction, value => opcodeText? word = some value
  | .number, _ => False
  | .comment, _ => False

/-- The answer tells of the word as something of the kind. -/
def Tells (answer? : Option Hover) (root? : Option Path) (word : String) (kind : TokenKind) : Prop :=
  ∃ answer, answer? = some answer ∧ Describes root? word kind answer.value

def letter : TokenKind → Char
  | .definedMacro => '#'
  | .label => 'l'
  | .register => 'r'
  | .instruction => 'i'
  | .number => 'n'
  | .comment => 'c'

theorem Describes.letter {root? : Option Path} {word value : String} {kind : TokenKind}
    (describes : Describes root? word kind value) : value.toList[2]? = some (letter kind) := by
  cases kind with
  | definedMacro =>
    obtain ⟨definition, rfl⟩ := describes
    -- opened without its equation, whose literals are slow to compare
    delta macroText
    simp [Hover.letter]
  | label =>
    obtain ⟨location, rfl⟩ := describes
    delta labelText
    simp [Hover.letter]
  | register =>
    have describes : registerText? word = some value := describes
    unfold registerText? at describes
    split at describes
    · obtain ⟨register, _, rfl⟩ := Option.map_eq_some_iff.mp describes
      simp [Hover.letter]
    · cases describes
  | instruction =>
    obtain ⟨opcode, _, rfl⟩ := Option.map_eq_some_iff.mp describes
    simp [Hover.letter]
  | number => cases describes
  | comment => cases describes

theorem letter_injective {kind other : TokenKind} (same : letter kind = letter other) :
    kind = other := by
  cases kind <;> cases other <;> simp_all [letter]

theorem Describes.unique {root? : Option Path} {word value : String} {kind other : TokenKind}
    (describes : Describes root? word kind value) (again : Describes root? word other value) :
    other = kind :=
  letter_injective (Option.some.inj (again.letter.symm.trans describes.letter))

def kind? (table : SymbolTable) (word : String) : Option TokenKind :=
  if table.macros.contains word then some .definedMacro
  else if table.labels.contains word then some .label
  else if (registerText? word).isSome then some .register
  else if (opcodeText? word).isSome then some .instruction
  else none

theorem text?_kind (table : SymbolTable) (root? : Option Path) (word : String) :
    match text? table root? word with
    | some value => ∃ kind, kind? table word = some kind ∧ Describes root? word kind value
    | none => kind? table word = none := by
  unfold text? kind?
  simp only [Std.ExtTreeMap.contains_eq_isSome_getElem?]
  cases table.macros[word]? with
  | some definition => exact ⟨.definedMacro, rfl, definition, rfl⟩
  | none =>
    cases table.labels[word]? with
    | some location => exact ⟨.label, rfl, location, rfl⟩
    | none =>
      cases register : registerText? word with
      | some value => exact ⟨.register, rfl, register⟩
      | none =>
        cases opcode : opcodeText? word with
        | some value => exact ⟨.instruction, rfl, opcode⟩
        | none => rfl

theorem kind?_eq_some_iff (table : SymbolTable) (root? : Option Path) (word : String)
    (kind : TokenKind) :
    kind? table word = some kind ↔
      ∃ value, text? table root? word = some value ∧ Describes root? word kind value := by
  have told := text?_kind table root? word
  cases shown : text? table root? word with
  | none =>
    rw [shown] at told
    simp [told]
  | some value =>
    rw [shown] at told
    obtain ⟨own, found, describes⟩ := told
    constructor
    · intro same
      obtain rfl := Option.some.inj (found.symm.trans same)
      exact ⟨value, rfl, describes⟩
    · rintro ⟨other, same, again⟩
      obtain rfl := Option.some.inj same
      rw [describes.unique again, found]

theorem kind?_eq_none_iff (table : SymbolTable) (root? : Option Path) (word : String) :
    kind? table word = none ↔ text? table root? word = none := by
  have told := text?_kind table root? word
  cases shown : text? table root? word with
  | none =>
    rw [shown] at told
    simp [told]
  | some value =>
    rw [shown] at told
    obtain ⟨kind, found, _⟩ := told
    simp [found]

theorem opcodeText?_percent (rest : List Char) : opcodeText? (String.ofList ('%' :: rest)) = none := by
  have letters : ∀ opcode ∈ Opcode.all, (opcode.name.toList.map Char.toLower).head? ≠ some '%' := by
    decide +kernel
  rw [opcodeText?, Option.map_eq_none_iff, Opcode.find?, List.find?_eq_none]
  intro opcode listed same
  apply letters opcode listed
  rw [beq_iff_eq.mp same, String.toList_ofList]
  rfl

theorem kind?_eq_highlight {table : SymbolTable} (unmarked : table.Unmarked) {text : List Char}
    (marked : IsMarkedName text) :
    Highlight.kind? table text = kind? table (String.ofList text) := by
  have positive := List.length_pos_iff.mpr marked.ne_nil
  rw [Highlight.kind?, marked.markedNameLength, if_neg (by omega), kind?]
  by_cases percent : text.head? = some '%'
  · obtain ⟨rest, rfl⟩ := List.head?_eq_some_iff.mp percent
    have inside : '%' ∈ (String.ofList ('%' :: rest)).toList := by simp
    have noMacro : table.macros.contains (String.ofList ('%' :: rest)) = false := by
      rw [← Bool.not_eq_true, Std.ExtTreeMap.contains_iff_mem]
      exact fun member => unmarked.macros _ member inside
    have noLabel : table.labels.contains (String.ofList ('%' :: rest)) = false := by
      rw [← Bool.not_eq_true, Std.ExtTreeMap.contains_iff_mem]
      exact fun member => unmarked.labels _ member inside
    rw [if_pos percent, noMacro, noLabel, opcodeText?_percent]
    simp [registerText?]
  · rw [if_neg percent, Highlight.nameKind?]
    simp [registerText?, percent, opcodeText?]

end Hover

section

variable {table : SymbolTable} {text : String} {line : List Char} {number : Nat} {word : Span}

theorem word_mem_token_spans (member : word ∈ spans wordLength line)
    (early : word.stop ≤ width (before ['/', '/'] line)) (named : isNumeral word.text = false) :
    word ∈ spans Highlight.tokenLength (Highlight.code line) ∧ IsMarkedName word.text ∧
      word.stop ≤ width (Highlight.code line) := by
  have inside := Highlight.mem_code_words member early
  obtain ⟨token, marked⟩ := mem_tokens_of_mem_words inside named
  have bound := (mem_spansFrom_bounds inside).2
  exact ⟨token, marked, by omega⟩

theorem token_on_word_or_apart (row : line? text number = some line)
    (member : word ∈ spans wordLength line) (early : word.stop ≤ width (before ['/', '/'] line))
    (named : isNumeral word.text = false) {token : TokenSpan} (shown : token ∈ tokenSpans table text)
    (same : token.line = number) :
    (∃ kind, Highlight.kind? table word.text = some kind ∧
      token = ⟨number, word.start, width word.text, kind⟩) ∨
    token.stop ≤ word.start ∨ word.stop ≤ token.start := by
  obtain ⟨own, marked, bound⟩ := word_mem_token_spans member early named
  obtain ⟨other, found, inside⟩ := mem_tokenSpans_iff.mp shown
  rw [same] at found inside
  obtain rfl := Option.some.inj (row.symm.trans found)
  rcases Highlight.mem_lineSpans_iff.mp inside with ⟨span, spanned, kind, kinded, rfl⟩ |
    ⟨comment, _, rfl⟩
  · rcases Highlight.apart_of_ordered (spansFrom_ordered _ 0 _) spanned own with rfl | apart
    · exact .inl ⟨kind, kinded, rfl⟩
    · exact .inr apart
  · exact .inr (.inr bound)

theorem word_token_mem_iff (row : line? text number = some line)
    (member : word ∈ spans wordLength line) (early : word.stop ≤ width (before ['/', '/'] line))
    (named : isNumeral word.text = false) (kind : TokenKind) :
    (⟨number, word.start, width word.text, kind⟩ : TokenSpan) ∈ tokenSpans table text ↔
      Highlight.kind? table word.text = some kind := by
  constructor
  · intro shown
    have positive := start_lt_stop member
    rcases token_on_word_or_apart row member early named shown rfl with ⟨other, kinded, same⟩ | apart
    · rw [kinded, (TokenSpan.mk.inj same).2.2.2]
    · simp only [TokenSpan.stop] at apart
      simp only [Span.stop] at apart positive
      omega
  · intro kinded
    obtain ⟨own, _, _⟩ := word_mem_token_spans member early named
    refine mem_tokenSpans_iff.mpr ⟨line, row, Highlight.mem_lineSpans_iff.mpr (.inl ?_)⟩
    exact ⟨word, own, kind, kinded, rfl⟩

end

theorem mem_words_of_wordSpan? {text : String} {position : Position} {line : List Char} {word : Span}
    (row : line? text position.line.toNat = some line) (under : wordSpan? text position = some word) :
    word ∈ spans wordLength line := by
  simp only [wordSpan?, bind, Option.bind_eq_some_iff] at under
  obtain ⟨other, found, taken⟩ := under
  obtain rfl := Option.some.inj (row.symm.trans found)
  exact List.mem_of_find?_eq_some taken

theorem hover?_of_word {table : SymbolTable} {text : String} {position : Position}
    {settings : Settings} (enabled : settings.hover = true) (root? : Option Path) {word : Span}
    (under : wordSpan? text position = some word) :
    hover? table text position settings root? =
      (Hover.text? table root? (String.ofList word.text)).map fun value =>
        ⟨value, position.line, word.word.start, word.word.stop⟩ := by
  have same : word.word.text = word.text := rfl
  simp only [hover?, enabled, wordAt?_of_wordSpan? under, same, guard, if_true, bind, Option.bind, pure]
  cases Hover.text? table root? (String.ofList word.text) <;> rfl

theorem tells_hover?_iff {table : SymbolTable} {text : String} {position : Position}
    {settings : Settings} (enabled : settings.hover = true) (root? : Option Path) {word : Span}
    (under : wordSpan? text position = some word) (kind : TokenKind) :
    Hover.Tells (hover? table text position settings root?) root? (String.ofList word.text) kind ↔
      Hover.kind? table (String.ofList word.text) = some kind := by
  rw [hover?_of_word enabled root? under, Hover.kind?_eq_some_iff table root?]
  constructor
  · rintro ⟨answer, shown, describes⟩
    obtain ⟨value, told, rfl⟩ := Option.map_eq_some_iff.mp shown
    exact ⟨value, told, describes⟩
  · rintro ⟨value, told, describes⟩
    exact ⟨_, Option.map_eq_some_iff.mpr ⟨value, told, rfl⟩, describes⟩

section

variable {table : SymbolTable} {text : String} {position : Position} {settings : Settings}
  (unmarked : table.Unmarked) (enabled : settings.hover = true) (root? : Option Path) {line : List Char}
  (row : line? text position.line.toNat = some line) {word : Span} (under : wordSpan? text position = some word)
  (early : word.stop ≤ width (before ['/', '/'] line)) (named : isNumeral word.text = false)

include unmarked enabled row under early named

theorem tells_iff_mem_tokenSpans (kind : TokenKind) :
    Hover.Tells (hover? table text position settings root?) root? (String.ofList word.text) kind ↔
      ⟨position.line.toNat, word.start, width word.text, kind⟩ ∈ tokenSpans table text := by
  have member := mem_words_of_wordSpan? row under
  have marked := (word_mem_token_spans member early named).2.1
  rw [word_token_mem_iff row member early named, Hover.kind?_eq_highlight unmarked marked]
  exact tells_hover?_iff enabled root? under kind

theorem apart_of_silent (silent : hover? table text position settings root? = none) {token : TokenSpan}
    (shown : token ∈ tokenSpans table text) (same : token.line = position.line.toNat) :
    token.stop ≤ word.start ∨ word.stop ≤ token.start := by
  have member := mem_words_of_wordSpan? row under
  have marked := (word_mem_token_spans member early named).2.1
  rw [hover?_of_word enabled root? under] at silent
  have untold := (Hover.kind?_eq_none_iff table root? _).mpr (Option.map_eq_none_iff.mp silent)
  rcases token_on_word_or_apart row member early named shown same with ⟨kind, kinded, _⟩ | apart
  · rw [Hover.kind?_eq_highlight unmarked marked, untold] at kinded
    cases kinded
  · exact apart

end

/-- The token that a word of the line has, if it has one of the kind. -/
def wordToken (position : Position) (word : Word) (kind : TokenKind) : Token :=
  ⟨position.line, word.start, word.stop - word.start, kind⟩

theorem token_of_word (position : Position) (word : Span) (kind : TokenKind) :
    TokenSpan.token ⟨position.line.toNat, word.start, width word.text, kind⟩ =
      wordToken position word.word kind := by
  have line : position.line.toNat.toUInt32 = position.line := UInt32.ofNat_toNat
  have length : (width word.text).toUInt32 = word.stop.toUInt32 - word.start.toUInt32 := by
    have sum : word.stop.toUInt32 = word.start.toUInt32 + (width word.text).toUInt32 := UInt32.ofNat_add _ _
    rw [sum, UInt32.add_comm, UInt32.add_sub_cancel]
  rw [TokenSpan.token, wordToken, Span.word, line, length]

namespace Cache

end Cache

end AsmIndex
