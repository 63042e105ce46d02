import AsmIndex.Proofs.HoverTokens

namespace AsmIndex

open AsmIndex.Text AsmIndex.Buffer

namespace Text

theorem isBefore_before (mark s : List Char) : IsBefore (mark <+: ·) s (before mark s) := by
  induction s with
  | nil => exact ⟨⟨[], rfl, .inl rfl⟩, fun _ _ _ _ => Nat.zero_le _⟩
  | cons c s ih =>
    rw [before]
    split
    · rename_i here
      exact .here (List.isPrefixOf_iff_prefix.mp here)
    · rename_i later
      exact .step (fun here => later (List.isPrefixOf_iff_prefix.mpr here)) ih

theorem isSome_fromMark?_iff {mark : List Char} (nonempty : mark ≠ []) (s : List Char) :
    (fromMark? mark s).isSome ↔ mark <:+: s := by
  induction s with
  | nil => simp [fromMark?, nonempty]
  | cons c s ih =>
    rw [fromMark?, List.infix_cons_iff, ← ih, ← List.isPrefixOf_iff_prefix]
    split
    · rename_i here
      simp [here]
    · rename_i later
      simp [later]

end Text

namespace Highlight

/-- The comment of a line, between what stands before it and the break characters at the end. -/
structure CommentPart (line lead comment ending : List Char) : Prop where
  parts : line = lead ++ comment ++ ending
  slashes : ['/', '/'] <+: comment
  first : IsBefore (['/', '/'] <+: ·) line lead
  breaks : ∀ c ∈ ending, c = '\n' ∨ c = '\r'
  last : ∀ c, comment.getLast? = some c → ¬(c = '\n' ∨ c = '\r')

theorem getLast?_content {line : List Char} {c : Char} (last : (content line).getLast? = some c) :
    ¬(c = '\n' ∨ c = '\r') := by
  rw [content, List.getLast?_reverse] at last
  simpa using stops_dropWhile (fun c => c = '\n' ∨ c = '\r') line.reverse c last

theorem commentPart_of_fromMark? {line comment : List Char}
    (found : fromMark? ['/', '/'] (content line) = some comment) :
    CommentPart line (code line) comment (line.reverse.takeWhile fun c => c = '\n' ∨ c = '\r').reverse := by
  have whole : code line ++ comment = content line := by
    have parts := before_append_fromMark? ['/', '/'] (content line)
    rwa [found] at parts
  have slashes := List.isPrefixOf_iff_prefix.mp (fromMark?_eq_some found)
  have first : IsBefore (['/', '/'] <+: ·) line (code line) := by
    have before := isBefore_before ['/', '/'] line
    conv at before => arg 3; rw [← content_append line]
    rwa [before_append found] at before
  refine ⟨by rw [whole, content_append], slashes, first, fun c => isBreak_of_mem_ending, fun c last => ?_⟩
  have ends : (content line).getLast? = some c := by
    rw [← whole, List.getLast?_append, last]
    rfl
  exact getLast?_content ends

theorem slashes_infix_content_iff (line : List Char) :
    ['/', '/'] <:+: content line ↔ ['/', '/'] <:+: line := by
  have parts := content_append line
  constructor
  · intro inside
    exact inside.trans (List.IsPrefix.isInfix ⟨_, parts⟩)
  · rintro ⟨lead, rest, same⟩
    rw [← parts] at same
    rcases List.append_eq_append_iff.mp same with ⟨more, split, _⟩ | ⟨more, split, behind⟩
    · exact ⟨lead, more, split.symm⟩
    · by_cases nothing : more = []
      · rw [nothing, List.append_nil] at split
        exact ⟨lead, [], by rw [List.append_nil, split]⟩
      · -- the second slash would be a break character
        have last := List.getLast?_eq_some_getLast nothing
        have slash := congrArg List.getLast? split
        rw [List.getLast?_append, List.getLast?_append, last] at slash
        have member : more.getLast nothing ∈ (line.reverse.takeWhile fun c => c = '\n' ∨ c = '\r').reverse := by
          rw [behind]
          exact List.mem_append_left rest (List.getLast_mem nothing)
        rw [← Option.some.inj slash] at member
        exact absurd (isBreak_of_mem_ending member) (by decide)

theorem kind?_ne_comment (table : SymbolTable) (text : List Char) : kind? table text ≠ some .comment := by
  unfold kind? nameKind?
  repeat' split
  all_goals simp

end Highlight

structure TokenSpan.WellFormed (text : String) (tokens : List TokenSpan) : Prop where
  ordered : tokens.Pairwise TokenSpan.StandsBefore
  inside : ∀ token ∈ tokens,
    0 < token.length ∧ ∃ line, line? text token.line = some line ∧ token.stop ≤ width line
  comment_iff : ∀ number line, line? text number = some line →
    ((∃ token ∈ tokens, token.line = number ∧ token.kind = .comment) ↔ ['/', '/'] <:+: line)
  comment_last : ∀ token ∈ tokens, token.kind = .comment →
    ∀ other ∈ tokens, other.line = token.line → other = token ∨ other.stop ≤ token.start
  comment_part : ∀ token ∈ tokens, token.kind = .comment →
    ∃ line lead comment ending, line? text token.line = some line ∧
      Highlight.CommentPart line lead comment ending ∧
      token.start = width lead ∧ token.stop = width (lead ++ comment)

section

variable {table : SymbolTable} {text : String} {token : TokenSpan} (member : token ∈ tokenSpans table text)

include member

theorem comment_of_mem_tokenSpans (kind : token.kind = .comment) :
    ∃ line comment, line? text token.line = some line ∧
      fromMark? ['/', '/'] (Highlight.content line) = some comment ∧
      token = ⟨token.line, width (Highlight.code line), width comment, .comment⟩ := by
  obtain ⟨line, row, inside⟩ := mem_tokenSpans_iff.mp member
  rcases Highlight.mem_lineSpans_iff.mp inside with ⟨span, _, other, kinded, same⟩ | ⟨comment, found, same⟩
  · rw [same] at kind
    exact absurd (kind ▸ kinded) (Highlight.kind?_ne_comment table span.text)
  · exact ⟨line, comment, row, found, same⟩

theorem token_inside_line :
    0 < token.length ∧ ∃ line, line? text token.line = some line ∧ token.stop ≤ width line := by
  obtain ⟨line, row, inside⟩ := mem_tokenSpans_iff.mp member
  have bound := (Highlight.mem_lineSpans_bounds inside).2
  have content := Highlight.width_content_le line
  refine ⟨?_, line, row, by omega⟩
  rcases Highlight.mem_lineSpans_iff.mp inside with ⟨span, spanned, kind, _, same⟩ | ⟨comment, found, same⟩
  · have positive := start_lt_stop spanned
    rw [Span.stop] at positive
    rw [same]
    simp only
    omega
  · obtain ⟨rest, slashes⟩ := (Highlight.commentPart_of_fromMark? found).slashes
    rw [same]
    apply width_pos
    rw [← slashes]
    exact List.cons_ne_nil _ _

theorem comment_after_tokens (kind : token.kind = .comment) {other : TokenSpan}
    (shown : other ∈ tokenSpans table text) (line : other.line = token.line) :
    other = token ∨ other.stop ≤ token.start := by
  obtain ⟨own, comment, row, found, same⟩ := comment_of_mem_tokenSpans member kind
  obtain ⟨again, rowAgain, inside⟩ := mem_tokenSpans_iff.mp shown
  rw [line] at rowAgain inside
  obtain rfl := Option.some.inj (row.symm.trans rowAgain)
  rcases Highlight.mem_lineSpans_iff.mp inside with ⟨span, spanned, _, _, rfl⟩ | ⟨further, foundAgain, rfl⟩
  · have bound := (mem_spansFrom_bounds spanned).2
    rw [Nat.zero_add] at bound
    rw [same]
    exact .inr bound
  · obtain rfl := Option.some.inj (found.symm.trans foundAgain)
    exact .inl same.symm

end

theorem exists_comment_token_iff {table : SymbolTable} {text : String} {number : Nat} {line : List Char}
    (row : line? text number = some line) :
    (∃ token ∈ tokenSpans table text, token.line = number ∧ token.kind = .comment) ↔ ['/', '/'] <:+: line := by
  rw [← Highlight.slashes_infix_content_iff, ← isSome_fromMark?_iff (List.cons_ne_nil _ _),
    Option.isSome_iff_exists]
  constructor
  · rintro ⟨token, member, rfl, kind⟩
    obtain ⟨own, comment, rowAgain, found, _⟩ := comment_of_mem_tokenSpans member kind
    obtain rfl := Option.some.inj (row.symm.trans rowAgain)
    exact ⟨comment, found⟩
  · rintro ⟨comment, found⟩
    refine ⟨⟨number, width (Highlight.code line), width comment, .comment⟩, ?_, rfl, rfl⟩
    exact mem_tokenSpans_iff.mpr ⟨line, row, Highlight.mem_lineSpans_iff.mpr (.inr ⟨comment, found, rfl⟩)⟩

/-- The tokens of a buffer whose lines can be counted and measured in 32 bits are well formed. -/
theorem tokens_wellFormed (table : SymbolTable) (text : String)
    (few : (Buffer.lines text.toList).length < UInt32.size)
    (short : ∀ line ∈ Buffer.lines text.toList, width line < UInt32.size) :
    TokenSpan.WellFormed text ((tokens table text).map Token.span) := by
  rw [map_span_tokens few short]
  refine ⟨tokenSpans_ordered table text, fun _ => token_inside_line, fun _ _ => exists_comment_token_iff,
    fun _ member kind _ => comment_after_tokens member kind, ?_⟩
  intro token member kind
  obtain ⟨line, comment, row, found, same⟩ := comment_of_mem_tokenSpans member kind
  refine ⟨line, Highlight.code line, comment, _, row, Highlight.commentPart_of_fromMark? found, ?_, ?_⟩
  · rw [same]
  · rw [same, TokenSpan.stop, width_append]

theorem four_lines_wellFormed :
    let text := "0x1f// a\r\nnop 😀// 😀 //\n/\n/ nop"
    let table := SymbolTable.empty
    (Buffer.lines text.toList).length < UInt32.size ∧
    (∀ line ∈ Buffer.lines text.toList, width line < UInt32.size) ∧
    tokens table text =
      [⟨0, 0, 4, .number⟩, ⟨0, 4, 4, .comment⟩, ⟨1, 0, 3, .instruction⟩, ⟨1, 6, 8, .comment⟩,
        ⟨3, 2, 3, .instruction⟩] ∧
    TokenSpan.WellFormed text ((tokens table text).map Token.span) := by
  intro text table
  have few : (Buffer.lines text.toList).length < UInt32.size := by decide
  have short : ∀ line ∈ Buffer.lines text.toList, width line < UInt32.size := by decide
  exact ⟨few, short, by decide +kernel, tokens_wellFormed table text few short⟩

end AsmIndex
