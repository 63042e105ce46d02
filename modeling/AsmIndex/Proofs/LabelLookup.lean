import AsmIndex.Editor.Definition
import AsmIndex.Proofs.Layers
import AsmIndex.Proofs.LineBreaks
import AsmIndex.Proofs.Provenance
import AsmIndex.Proofs.Words
import AsmIndex.Server.Reply

namespace AsmIndex

open AsmIndex.Text AsmIndex.Buffer

namespace Source

theorem edge_of_blank {lead : List Char} (blank : ∀ c, lead.getLast? = some c → isBlank c = true) : Edge lead := by
  intro c last
  have white := blank c last
  constructor
  · cases name : isNameChar c with
    | false => rfl
    | true =>
      rw [visible_of_isNameChar name] at white
      cases white
  · rintro rfl
    exact absurd white (by decide)

theorem edge_of_space (lead : List Char) {space : List Char} (blank : Blanks space) (nonempty : space ≠ []) :
    Edge (lead ++ space) := by
  apply edge_of_blank
  intro c last
  apply blank
  rw [List.getLast?_append, List.getLast?_eq_some_getLast nonempty] at last
  exact Option.some.inj last ▸ List.getLast_mem nonempty

theorem LongestName.wordBetween {first : Char → Bool} {lead name rest : List Char}
    (longest : LongestName first isNameChar name rest) (names : ∀ c, first c = true → isNameChar c = true)
    (edge : Edge lead) : WordBetween lead name rest := by
  obtain ⟨c, tail, rfl, starts, inside⟩ := longest.chars
  refine ⟨⟨c :: tail, List.cons_ne_nil c tail, ?_, .inr ⟨rfl, edge⟩⟩, longest.longest⟩
  exact List.forall_mem_cons.mpr ⟨names c starts, inside⟩

theorem KeywordLine.wordBetween {keyword : String} {first : Char → Bool} {line name : List Char}
    (holds : KeywordLine keyword first line name) (names : ∀ c, first c = true → isNameChar c = true) :
    ∃ lead rest, line = lead ++ name ++ rest ∧ Edge lead ∧ WordBetween lead name rest := by
  obtain ⟨indent, space, rest, _, blank, nonempty, same, longest⟩ := holds
  have edge := edge_of_space (indent ++ keyword.toList) blank nonempty
  exact ⟨_, rest, same, edge, longest.wordBetween names edge⟩

theorem Directive.wordBetween {directive : Directive} (kind : directive.kind = .label) {line name : List Char}
    (read : directive.name? line = some name) :
    ∃ lead rest, line = lead ++ name ++ rest ∧ Edge lead ∧ WordBetween lead name rest := by
  rw [name?_eq_some_iff] at read
  cases directive with
  | define => cases kind
  | external => exact KeywordLine.wordBetween read fun _ => isNameChar_of_isNameStart
  | label =>
    obtain ⟨indent, gap, rest, blank, _, same, longest⟩ := read
    have edge : Edge indent := edge_of_blank fun c last => blank c (List.mem_of_getLast? last)
    refine ⟨indent, gap ++ ':' :: rest, by rw [same, List.append_assoc], edge, ?_⟩
    exact longest.wordBetween (fun _ => isNameChar_of_isNameStart) edge
  | segment => exact KeywordLine.wordBetween read fun _ name => name

end Source

theorem Buffer.not_name_of_isBreak {c : Char} (breaks : isBreak c = true) : Source.isNameChar c = false := by
  cases name : Source.isNameChar c with
  | false => rfl
  | true =>
    have printed := Source.printed_of_isNameChar name
    simp only [isBreak, Bool.or_eq_true, Bool.and_eq_true, decide_eq_true_eq, beq_iff_eq] at breaks
    omega

theorem Buffer.WordBetween.append_breaks {lead name rest ending : List Char} (between : WordBetween lead name rest)
    (breaks : ∀ c ∈ ending, isBreak c = true) : WordBetween lead name (rest ++ ending) := by
  refine ⟨between.chars, fun c first => ?_⟩
  cases rest with
  | nil => exact not_name_of_isBreak (breaks c (List.mem_of_head? first))
  | cons d rest => exact between.stop c first

theorem definition?_of_word {text : String} {position : Position} {word : Span}
    (under : wordSpan? text position = some word) (table : SymbolTable) :
    definition? table text position = table.location? (String.ofList word.text) := by
  rw [definition?, wordAt?_of_wordSpan? under]
  rfl

namespace Cache

theorem labels_get_update (cache : Cache) (known machine : Machine) (uri : Uri) (text name : String) :
    ((cache.update known uri text).get machine uri).1.labels[name]? = (scan text uri).labels[name]? := by
  have stored := effective?_of_stored (cache.entry?_update_self known uri text) machine
  rw [labels_get, view, stored]
  rfl

end Cache

end AsmIndex
