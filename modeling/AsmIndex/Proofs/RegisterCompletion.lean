import AsmIndex.Editor.Completion
import AsmIndex.Proofs.Words
import AsmIndex.Symbol.Scan

namespace AsmIndex

open AsmIndex.Text AsmIndex.Buffer AsmIndex.Source

namespace Buffer

/-- The line, cut at the column, ends in a percent sign and the name characters. -/
structure PercentTyped (line : List Char) (column : Nat) (run : List Char) : Prop where
  names : ∀ c ∈ run, isNameChar c = true
  ends : utf16 ('%' :: run) <:+ (utf16 line).take column

theorem PercentTyped.parts {line run : List Char} {column : Nat} (typed : PercentTyped line column run)
    (within : column ≤ width line) :
    ∃ lead rest, line = lead ++ '%' :: run ++ rest ∧ width (lead ++ '%' :: run) = column := by
  obtain ⟨front, ends⟩ := typed.ends
  have whole : utf16 line = front ++ utf16 ('%' :: run) ++ (utf16 line).drop column := by
    rw [ends, List.take_append_drop]
  obtain ⟨lead, rest, same, before⟩ := exists_parts_of_utf16 (List.cons_ne_nil _ _) (ascii_percent typed.names) whole
  refine ⟨lead, rest, same, ?_⟩
  have length := congrArg List.length ends
  rw [← before, ← utf16_append, List.length_take, length_utf16, length_utf16] at length
  omega

theorem percentTyped_of_parts {lead run rest : List Char} (names : ∀ c ∈ run, isNameChar c = true) :
    PercentTyped (lead ++ '%' :: run ++ rest) (width (lead ++ '%' :: run)) run := by
  refine ⟨names, utf16 lead, ?_⟩
  rw [take_utf16, utf16_append]

theorem IsWord.marked {line : List Char} {word : Span} (isWord : IsWord line word)
    (percent : word.text.head? = some '%') :
    ∃ lead run rest, run ≠ [] ∧ (∀ c ∈ run, isNameChar c = true) ∧ word = ⟨'%' :: run, width lead⟩ ∧
      line = lead ++ '%' :: run ++ rest := by
  obtain ⟨lead, rest, same, start, ⟨run, nonempty, names, text | ⟨text, _⟩⟩, _⟩ := (isWord_iff line word).mp isWord
  · exact ⟨lead, run, rest, nonempty, names, by rw [← text, ← start], by rw [same, text]⟩
  · have name := names '%' (text ▸ List.mem_of_head? percent)
    exact absurd name (by decide)

theorem isWord_of_percent (lead : List Char) {run rest : List Char} (names : ∀ c ∈ run, isNameChar c = true)
    (nonempty : run ++ rest.takeWhile isNameChar ≠ []) :
    IsWord (lead ++ '%' :: run ++ rest) ⟨'%' :: (run ++ rest.takeWhile isNameChar), width lead⟩ := by
  have all : ∀ c ∈ run ++ rest.takeWhile isNameChar, isNameChar c = true := by
    intro c member
    rcases List.mem_append.mp member with member | member
    · exact names c member
    · exact List.mem_takeWhile_imp member
  refine (isWord_iff _ _).mpr ⟨lead, rest.dropWhile isNameChar, ?_, rfl, ⟨_, nonempty, all, .inl rfl⟩,
    stops_dropWhile isNameChar rest⟩
  simp

section

variable {text : String} {position : Position}

theorem percentTyped_of_typed (first : (typedAt text position).head? = some '%') :
    ∃ line run, line? text position.line.toNat = some line ∧ PercentTyped line position.character.toNat run ∧
      position.character.toNat ≤ width line ∧
      (run ≠ [] ∨ ∃ c, CharAt line position.character.toNat c ∧ isNameChar c = true) := by
  cases under : wordSpan? text position with
  | none => simp [typedAt, wordAt?, under] at first
  | some word =>
    obtain ⟨line, row, isWord, ⟨before, within⟩, _⟩ := wordSpan?_eq_some under
    have stop := isWord.stop_eq
    rw [typedAt_of_word under, List.head?_take] at first
    split at first
    · cases first
    · rename_i typed
      obtain ⟨lead, run, rest, nonempty, names, rfl, rfl⟩ := isWord.marked first
      -- the run is what is typed of it and what stands behind the cursor
      obtain ⟨front, back, rfl, size⟩ : ∃ front back, run = front ++ back ∧
          width lead + 1 + front.length = position.character.toNat := by
        refine ⟨run.take (position.character.toNat - (width lead + 1)), run.drop _,
          (List.take_append_drop _ _).symm, ?_⟩
        simp only [List.length_cons] at stop typed before
        rw [List.length_take]
        omega
      have inFront : ∀ c ∈ front, isNameChar c = true := fun c member =>
        names c (List.mem_append_left back member)
      have column : width (lead ++ '%' :: front) = position.character.toNat := by
        rw [width_append, width_of_ascii (ascii_percent inFront), ← size, List.length_cons]
        omega
      have parts : lead ++ '%' :: (front ++ back) ++ rest = lead ++ '%' :: front ++ (back ++ rest) := by simp
      refine ⟨_, front, row, ?_, ?_, ?_⟩
      · rw [parts, ← column]
        exact percentTyped_of_parts inFront
      · rw [parts, ← column, width_append (lead ++ _)]
        omega
      · cases front with
        | cons c front => exact .inl (List.cons_ne_nil _ _)
        | nil =>
          obtain ⟨c, back, rfl⟩ := List.exists_cons_of_ne_nil nonempty
          exact .inr ⟨c, ⟨lead ++ ['%'], back ++ rest, by simp, column⟩, names c (List.mem_cons_self ..)⟩

theorem typed_of_percentTyped {line run : List Char} (row : line? text position.line.toNat = some line)
    (typed : PercentTyped line position.character.toNat run) (within : position.character.toNat ≤ width line)
    (more : run ≠ [] ∨ ∃ c, CharAt line position.character.toNat c ∧ isNameChar c = true) :
    (typedAt text position).head? = some '%' := by
  obtain ⟨lead, rest, rfl, column⟩ := typed.parts within
  have nonempty : run ++ rest.takeWhile isNameChar ≠ [] := by
    rcases more with some | ⟨c, ⟨before, behind, same, wide⟩, name⟩
    · simp [some]
    · obtain ⟨_, rfl⟩ := append_inj_of_width same (column.trans wide.symm)
      simp [name]
  have isWord := isWord_of_percent lead typed.names nonempty
  rw [width_append, width_cons] at column
  have positive := units_pos '%'
  have under := wordSpan?_of_inside row isWord (by simp only; omega) (by
    simp only [Span.stop, width_cons, width_append]
    omega)
  rw [typedAt_of_word under, List.head?_take, if_neg (by simp only; omega)]
  rfl

end

theorem typed_percent_iff (text : String) (position : Position) :
    (typedAt text position).head? = some '%' ↔
      ∃ line run, line? text position.line.toNat = some line ∧ PercentTyped line position.character.toNat run ∧
        position.character.toNat ≤ width line ∧
        (run ≠ [] ∨ ∃ c, CharAt line position.character.toNat c ∧ isNameChar c = true) :=
  ⟨percentTyped_of_typed, fun ⟨_, _, row, typed, within, more⟩ => typed_of_percentTyped row typed within more⟩

end Buffer

namespace Completion

def everything (table : SymbolTable) (settings : Settings) : List CompletionItem :=
  macroItems table ++ labelItems table ++
    if settings.instructionCompletions then opcodeItems ++ registerItems else []

theorem completions_eq (table : SymbolTable) (text : String) (position : Position) (settings : Settings) :
    completions table text position settings =
      if (typedAt text position).head? = some '%' then registerItems else everything table settings :=
  rfl

theorem kind_of_mem_registerItems {item : CompletionItem} (member : item ∈ registerItems) :
    item.kind = .register := by
  obtain ⟨register, _, rfl⟩ := List.mem_map.mp member
  rfl

theorem everything_ne_registerItems (table : SymbolTable) (settings : Settings) :
    everything table settings ≠ registerItems := by
  intro same
  by_cases enabled : settings.instructionCompletions = true
  · have listed : (⟨"mov", .instruction, "Copy the source operand to the destination"⟩ : CompletionItem) ∈
        everything table settings := by
      simp [everything, enabled, opcodeItems, Opcode.all]
    rw [same] at listed
    cases kind_of_mem_registerItems listed
  · have listed : (⟨"%eax", .register, Register.summary "%eax"⟩ : CompletionItem) ∈ registerItems :=
      List.mem_map.mpr ⟨"%eax", List.mem_cons_self .., rfl⟩
    rw [← same] at listed
    simp [everything, enabled, macroItems, labelItems] at listed

/-- Registers alone are offered exactly where the line, cut at the cursor, ends in a percent sign and name
characters, and either there are such characters or one follows the cursor, which stands in the line. Everywhere
else the whole list is offered. -/
theorem registers_alone_iff (table : SymbolTable) (text : String) (position : Position) (settings : Settings) :
    (completions table text position settings = registerItems ↔
      ∃ line run, line? text position.line.toNat = some line ∧ PercentTyped line position.character.toNat run ∧
        position.character.toNat ≤ width line ∧
        (run ≠ [] ∨ ∃ c, CharAt line position.character.toNat c ∧ isNameChar c = true)) ∧
    (completions table text position settings = registerItems ∨
      completions table text position settings = everything table settings) := by
  rw [← typed_percent_iff, completions_eq]
  split
  · rename_i percent
    exact ⟨iff_of_true rfl percent, .inl rfl⟩
  · rename_i other
    exact ⟨iff_of_false (everything_ne_registerItems table settings) other, .inr rfl⟩

/-- A percent sign that has just been typed, with nothing behind it. -/
theorem bare_percent_offers_labels :
    let text := "main:\n mov %"
    let table := scan text (Uri.ofPath (.ofString "/m.S"))
    let settings : Settings := ⟨[], true, true, false⟩
    let line := " mov %".toList
    line? text 1 = some line ∧ PercentTyped line 6 [] ∧ 6 ≤ width line ∧
      completions table text ⟨1, 6⟩ settings = [⟨"main", .label, "label, line 1"⟩] ∧
      completions table text ⟨1, 6⟩ settings ≠ registerItems := by
  intro text table settings line
  have listed : table.labels.toList = [("main", ⟨Uri.ofPath (.ofString "/m.S"), 0⟩)] := by decide +kernel
  have macros : table.macros.toList = [] := by decide +kernel
  have offered : completions table text ⟨1, 6⟩ settings = [⟨"main", .label, "label, line 1"⟩] := by
    have typed : (typedAt text ⟨1, 6⟩).head? ≠ some '%' := by decide +kernel
    rw [completions_eq, if_neg typed, everything, macroItems, labelItems, macros, listed,
      List.mergeSort_singleton]
    rfl
  refine ⟨by decide +kernel, ⟨by simp, by decide +kernel⟩, by decide, offered, ?_⟩
  rw [offered]
  decide +kernel

end Completion

end AsmIndex
