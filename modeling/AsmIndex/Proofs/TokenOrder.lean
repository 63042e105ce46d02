import AsmIndex.Editor.Highlight
import AsmIndex.Proofs.DecidingLines
import AsmIndex.Proofs.Spans

namespace AsmIndex

open AsmIndex.Text AsmIndex.Buffer

namespace Highlight

def code (line : List Char) : List Char :=
  before ['/', '/'] (content line)

theorem content_append (line : List Char) :
    content line ++ (line.reverse.takeWhile fun c => c = '\n' ∨ c = '\r').reverse = line := by
  rw [content, ← List.reverse_append, List.takeWhile_append_dropWhile, List.reverse_reverse]

theorem width_content_le (line : List Char) : width (content line) ≤ width line := by
  have parts := congrArg width (content_append line)
  rw [width_append] at parts
  omega

theorem width_code_add (line : List Char) :
    width (code line) + width ((fromMark? ['/', '/'] (content line)).getD []) =
      width (content line) := by
  rw [code, ← width_append, before_append_fromMark?]

theorem mem_lineSpans_iff {table : SymbolTable} {number : Nat} {line : List Char} {token : TokenSpan} :
    token ∈ lineSpans table number line ↔
      (∃ span ∈ spans tokenLength (code line), ∃ kind, kind? table span.text = some kind ∧
        token = ⟨number, span.start, width span.text, kind⟩) ∨
      ∃ comment, fromMark? ['/', '/'] (content line) = some comment ∧
        token = ⟨number, width (code line), width comment, .comment⟩ := by
  simp only [lineSpans, List.mem_append, List.mem_filterMap, Option.map_eq_some_iff,
    Option.mem_toList, @eq_comm _ token]
  rfl

end Highlight

namespace TokenSpan

def stop (token : TokenSpan) : Nat :=
  token.start + token.length

def StandsBefore (token other : TokenSpan) : Prop :=
  token.line < other.line ∨ token.line = other.line ∧ token.stop ≤ other.start

structure Fits (token : TokenSpan) : Prop where
  line : token.line < UInt32.size
  start : token.start < UInt32.size
  length : token.length < UInt32.size

end TokenSpan

/-- Where a token says that it stands. -/
def Token.span (token : Token) : TokenSpan :=
  ⟨token.line.toNat, token.start.toNat, token.length.toNat, token.kind⟩

theorem Token.span_injective {token other : Token} (same : token.span = other.span) : token = other := by
  obtain ⟨line, start, length, kind⟩ := TokenSpan.mk.inj same
  rw [Token.mk.injEq]
  exact ⟨UInt32.toNat_inj.mp line, UInt32.toNat_inj.mp start, UInt32.toNat_inj.mp length, kind⟩

theorem TokenSpan.Fits.span_token {token : TokenSpan} (fits : token.Fits) : token.token.span = token := by
  have line : token.line.toUInt32.toNat = token.line := UInt32.toNat_ofNat_of_lt' fits.line
  have start : token.start.toUInt32.toNat = token.start := UInt32.toNat_ofNat_of_lt' fits.start
  have length : token.length.toUInt32.toNat = token.length := UInt32.toNat_ofNat_of_lt' fits.length
  rw [TokenSpan.token, Token.span, line, start, length]

namespace Highlight

theorem mem_lineSpans_bounds {table : SymbolTable} {number : Nat} {line : List Char} {token : TokenSpan}
    (member : token ∈ lineSpans table number line) :
    token.line = number ∧ token.stop ≤ width (content line) := by
  have parts := width_code_add line
  rcases mem_lineSpans_iff.mp member with ⟨span, inside, kind, _, rfl⟩ | ⟨comment, found, rfl⟩
  · have bound := (mem_spansFrom_bounds inside).2
    simp only [Span.stop] at bound
    simp only [TokenSpan.stop, true_and]
    omega
  · rw [found, Option.getD_some] at parts
    simp only [TokenSpan.stop, true_and]
    omega

theorem lineSpans_ordered (table : SymbolTable) (number : Nat) (line : List Char) :
    (lineSpans table number line).Pairwise TokenSpan.StandsBefore := by
  refine List.pairwise_append.mpr ⟨?_, ?_, ?_⟩
  · refine List.Pairwise.filterMap _ ?_ (spansFrom_ordered tokenLength 0 (code line))
    intro a b apart token found other otherFound
    obtain ⟨kind, _, rfl⟩ := Option.map_eq_some_iff.mp found
    obtain ⟨otherKind, _, rfl⟩ := Option.map_eq_some_iff.mp otherFound
    exact .inr ⟨rfl, apart⟩
  · cases fromMark? ['/', '/'] (content line) with
    | none => exact .nil
    | some comment => exact List.pairwise_singleton _ _
  · intro token named other last
    obtain ⟨span, inside, found⟩ := List.mem_filterMap.mp named
    obtain ⟨kind, _, rfl⟩ := Option.map_eq_some_iff.mp found
    obtain ⟨comment, _, rfl⟩ := Option.map_eq_some_iff.mp (Option.mem_toList.mp last)
    have bound := (mem_spansFrom_bounds inside).2
    rw [Nat.zero_add] at bound
    exact .inr ⟨rfl, bound⟩

end Highlight

theorem mem_tokenSpans_iff {table : SymbolTable} {text : String} {token : TokenSpan} :
    token ∈ tokenSpans table text ↔ ∃ line, Buffer.line? text token.line = some line ∧
      token ∈ Highlight.lineSpans table token.line line := by
  rw [tokenSpans, List.mem_flatMap]
  constructor
  · rintro ⟨⟨line, number⟩, row, member⟩
    obtain rfl := (Highlight.mem_lineSpans_bounds member).1
    exact ⟨line, List.mem_zipIdx_iff_getElem?.mp row, member⟩
  · rintro ⟨line, row, member⟩
    exact ⟨(line, token.line), List.mem_zipIdx_iff_getElem?.mpr row, member⟩

theorem tokenSpans_ordered (table : SymbolTable) (text : String) :
    (tokenSpans table text).Pairwise TokenSpan.StandsBefore := by
  refine List.pairwise_flatMap.mpr ⟨fun row _ => Highlight.lineSpans_ordered table row.2 row.1, ?_⟩
  refine (zipIdx_ordered (Buffer.lines text.toList) 0).imp ?_
  intro row later below token member other otherMember
  have own := (Highlight.mem_lineSpans_bounds member).1
  have otherOwn := (Highlight.mem_lineSpans_bounds otherMember).1
  exact .inl (by omega)

section Bounded

variable {text : String} (few : (Buffer.lines text.toList).length < UInt32.size)
  (short : ∀ line ∈ Buffer.lines text.toList, width line < UInt32.size)

include few short

theorem tokenSpans_fit {table : SymbolTable} {token : TokenSpan} (member : token ∈ tokenSpans table text) :
    token.Fits := by
  obtain ⟨line, row, inside⟩ := mem_tokenSpans_iff.mp member
  obtain ⟨_, bound⟩ := Highlight.mem_lineSpans_bounds inside
  have lineBound : token.line < (Buffer.lines text.toList).length :=
    (List.getElem?_eq_some_iff.mp row).1
  have narrow := short line (List.mem_of_getElem? row)
  have content := Highlight.width_content_le line
  simp only [TokenSpan.stop] at bound
  exact ⟨by omega, by omega, by omega⟩

theorem map_span_tokens (table : SymbolTable) : (tokens table text).map Token.span = tokenSpans table text := by
  rw [tokens, List.map_map]
  have kept : (tokenSpans table text).map (Token.span ∘ TokenSpan.token) = (tokenSpans table text).map id :=
    List.map_congr_left fun token member => (tokenSpans_fit few short member).span_token
  rw [kept, List.map_id]

theorem mem_tokens_iff {table : SymbolTable} {token : Token} :
    token ∈ tokens table text ↔ token.span ∈ tokenSpans table text := by
  rw [← map_span_tokens few short]
  constructor
  · exact List.mem_map_of_mem
  · intro member
    obtain ⟨other, listed, same⟩ := List.mem_map.mp member
    rwa [← Token.span_injective same]

end Bounded

namespace TokenDelta

/-- Neither difference that is taken for the token wraps. -/
structure Exact (line start : UInt32) (token : Token) : Prop where
  line_le : line ≤ token.line
  start_le : token.line - line = 0 → start ≤ token.start

def ExactFrom (line start : UInt32) : List Token → Prop
  | [] => True
  | token :: rest => Exact line start token ∧ ExactFrom token.line token.start rest

/-- The tokens that a client reads from the numbers: a line counts from the line before it, and a start from
the start before it if the line is the same. -/
def decodeFrom? (line start : Nat) : List Nat → Option (List TokenSpan)
  | [] => some []
  | down :: across :: length :: code :: _ :: rest => do
    let kind ← TokenKind.all[code]?
    let next := line + down
    let column := if down = 0 then start + across else across
    let tokens ← decodeFrom? next column rest
    return ⟨next, column, length, kind⟩ :: tokens
  | _ => none

def decode? (data : List Nat) : Option (List TokenSpan) :=
  decodeFrom? 0 0 data

theorem all_code (kind : TokenKind) : TokenKind.all[kind.code]? = some kind := by
  cases kind <;> rfl

theorem decodeFrom?_numbers (line start : Nat) (delta : TokenDelta) (rest : List Nat) :
    decodeFrom? line start (delta.numbers ++ rest) =
      let next := line + delta.line.toNat
      let column := if delta.line.toNat = 0 then start + delta.start.toNat else delta.start.toNat
      (decodeFrom? next column rest).map (⟨next, column, delta.length.toNat, delta.kind⟩ :: ·) := by
  simp only [numbers, List.cons_append, List.nil_append, decodeFrom?, all_code]
  cases decodeFrom? (line + delta.line.toNat) _ rest <;> rfl

def Reaches (line start : UInt32) (token : Token) : Prop :=
  line < token.line ∨ line = token.line ∧ start ≤ token.start

section

variable {line start : UInt32} {token : Token}

theorem exact_of_reaches (reaches : Reaches line start token) : Exact line start token := by
  rcases reaches with above | ⟨rfl, before⟩
  · refine ⟨UInt32.le_of_lt above, fun zero => ?_⟩
    have down := UInt32.toNat_sub_of_le _ _ (UInt32.le_of_lt above)
    have order := UInt32.lt_iff_toNat_lt.mp above
    rw [zero, UInt32.toNat_zero] at down
    omega
  · exact ⟨UInt32.le_refl _, fun _ => before⟩

theorem decodeFrom?_between (reaches : Reaches line start token) (rest : List Nat) :
    decodeFrom? line.toNat start.toNat ((between line start token).numbers ++ rest) =
      (decodeFrom? token.line.toNat token.start.toNat rest).map (token.span :: ·) := by
  obtain ⟨below, startBelow⟩ := exact_of_reaches reaches
  have down := UInt32.toNat_sub_of_le _ _ below
  have next : line.toNat + (token.line - line).toNat = token.line.toNat := by
    have order := UInt32.le_iff_toNat_le.mp below
    omega
  rw [decodeFrom?_numbers]
  by_cases zero : token.line - line = 0
  · have order := UInt32.le_iff_toNat_le.mp (startBelow zero)
    have across : start.toNat + (token.start - start).toNat = token.start.toNat := by
      rw [UInt32.toNat_sub_of_le _ _ (startBelow zero)]
      omega
    rw [zero, UInt32.toNat_zero] at next
    simp only [between, zero, if_true, UInt32.toNat_zero, next, across]
    rfl
  · have moved : (token.line - line).toNat ≠ 0 := fun same => zero (UInt32.toNat_inj.mp same)
    simp only [between, zero, moved, if_false, next]
    rfl

end

theorem encodeFrom_cons (line start : UInt32) (token : Token) (rest : List Token) :
    (encodeFrom line start (token :: rest)).flatMap numbers =
      (between line start token).numbers ++ (encodeFrom token.line token.start rest).flatMap numbers :=
  rfl

theorem reaches_of_standsBefore {token other : Token} (ordered : token.span.StandsBefore other.span) :
    Reaches token.line token.start other := by
  rcases ordered with above | ⟨same, apart⟩
  · exact .inl (UInt32.lt_iff_toNat_lt.mpr above)
  · simp only [TokenSpan.stop, Token.span] at apart
    exact .inr ⟨UInt32.toNat_inj.mp same, UInt32.le_iff_toNat_le.mpr (by omega)⟩

theorem decodeFrom?_encodeFrom {tokens : List Token}
    (ordered : tokens.Pairwise fun token other => token.span.StandsBefore other.span) {line start : UInt32}
    (reaches : ∀ token ∈ tokens, Reaches line start token) :
    ExactFrom line start tokens ∧
      decodeFrom? line.toNat start.toNat ((encodeFrom line start tokens).flatMap numbers) =
        some (tokens.map Token.span) := by
  -- The place of the last token goes along: the tokens that are left all lie behind it.
  induction tokens generalizing line start with
  | nil => exact ⟨trivial, rfl⟩
  | cons token rest ih =>
    obtain ⟨first, ordered⟩ := List.pairwise_cons.mp ordered
    have reached := reaches token (List.mem_cons_self ..)
    obtain ⟨exact, decoded⟩ := ih ordered fun other member => reaches_of_standsBefore (first other member)
    refine ⟨⟨exact_of_reaches reached, exact⟩, ?_⟩
    rw [encodeFrom_cons, decodeFrom?_between reached, decoded]
    rfl

/-- In a document whose lines can be counted and measured in 32 bits, no difference of the encoding wraps, and
the data that is sent decodes to the tokens, each where it stands. -/
theorem decode?_encode_tokens (table : SymbolTable) (text : String)
    (few : (Buffer.lines text.toList).length < UInt32.size)
    (short : ∀ line ∈ Buffer.lines text.toList, width line < UInt32.size) :
    ExactFrom 0 0 (tokens table text) ∧
      decode? ((encode (tokens table text)).flatMap numbers) = some ((tokens table text).map Token.span) ∧
      (tokens table text).map Token.span = tokenSpans table text := by
  have whole := map_span_tokens few short table
  have ordered := tokenSpans_ordered table text
  rw [← whole, List.pairwise_map] at ordered
  have behind : ∀ token ∈ tokens table text, Reaches 0 0 token := by
    intro token _
    rcases Nat.eq_zero_or_pos token.line.toNat with zero | positive
    · exact .inr ⟨UInt32.toNat_inj.mp zero.symm, UInt32.le_iff_toNat_le.mpr (Nat.zero_le _)⟩
    · exact .inl (UInt32.lt_iff_toNat_lt.mpr positive)
  obtain ⟨exact, decoded⟩ := decodeFrom?_encodeFrom ordered behind
  exact ⟨exact, decoded, whole⟩

theorem five_tokens_decode :
    let text := "nop\n\n  nop A 0x10 // 😀\n"
    let table := scan "#define A 1" (Uri.ofPath (.ofString "/a.S"))
    (Buffer.lines text.toList).length < UInt32.size ∧
    (∀ line ∈ Buffer.lines text.toList, width line < UInt32.size) ∧
    (encode (tokens table text)).flatMap numbers =
      [0, 0, 3, 2, 0, 2, 2, 3, 2, 0, 0, 4, 1, 0, 0, 0, 2, 4, 4, 0, 0, 5, 5, 5, 0] ∧
    ExactFrom 0 0 (tokens table text) ∧
      decode? ((encode (tokens table text)).flatMap numbers) = some ((tokens table text).map Token.span) ∧
      (tokens table text).map Token.span = tokenSpans table text := by
  intro text table
  have few : (Buffer.lines text.toList).length < UInt32.size := by decide
  have short : ∀ line ∈ Buffer.lines text.toList, width line < UInt32.size := by decide
  exact ⟨few, short, by decide +kernel, decode?_encode_tokens table text few short⟩

end TokenDelta

end AsmIndex
