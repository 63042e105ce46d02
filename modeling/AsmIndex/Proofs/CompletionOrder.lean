import AsmIndex.Editor.Completion
import AsmIndex.Proofs.Outline

namespace AsmIndex

theorem Scan.symbols_lines_apart {text : String} (few : (Source.lines text.toList).length < UInt32.size)
    (uri : Uri) :
    (scan text uri).symbols.Pairwise fun symbol other => symbol.location.line ≠ other.location.line := by
  refine (scan text uri).nodup_symbols.imp_of_mem ?_
  intro symbol other member again distinct line
  exact distinct (Scan.eq_of_line few member again line)

namespace Completion

def macroItem (entry : String × MacroDefinition) : CompletionItem :=
  ⟨entry.1, .definedMacro, macroDetail entry.1 entry.2.value⟩

def labelItem (entry : String × Location) : CompletionItem :=
  ⟨entry.1, .label, "label, line " ++ toString (entry.2.line + 1)⟩

def nameLe (a b : String × MacroDefinition) : Bool :=
  a.1 ≤ b.1

def lineLe (a b : String × Location) : Bool :=
  a.2.line ≤ b.2.line

/-- The symbols of a table as items, where its maps are walked in the given orders: the macros by name, then
the labels by line. -/
def symbolItems (macros : List (String × MacroDefinition)) (labels : List (String × Location)) :
    List CompletionItem :=
  (macros.mergeSort nameLe).map macroItem ++ (labels.mergeSort lineLe).map labelItem

theorem nameLe_sorted (macros : List (String × MacroDefinition)) :
    (macros.mergeSort nameLe).Pairwise fun a b => nameLe a b = true := by
  apply List.pairwise_mergeSort
  · intro a b c
    simpa [nameLe] using String.le_trans
  · intro a b
    simpa [nameLe] using String.le_total a.1 b.1

theorem lineLe_sorted (labels : List (String × Location)) :
    (labels.mergeSort lineLe).Pairwise fun a b => lineLe a b = true := by
  apply List.pairwise_mergeSort
  · intro a b c
    simpa [lineLe] using UInt32.le_trans
  · intro a b
    simpa [lineLe] using UInt32.le_total a.2.line b.2.line

theorem toList_ascending {α : Type} (names : NameMap α) : names.toList.Pairwise fun a b => a.1 < b.1 := by
  refine Std.ExtTreeMap.ordered_keys_toList.imp ?_
  intro a b less
  exact compareOfLessAndEq_eq_lt.mp less

theorem mergeSort_nameLe {macros : List (String × MacroDefinition)} {names : NameMap MacroDefinition}
    (walk : macros.Perm names.toList) : macros.mergeSort nameLe = names.toList := by
  have ordered : names.toList.Pairwise fun a b => nameLe a b = true := by
    refine (toList_ascending names).imp ?_
    intro a b less
    exact decide_eq_true (String.not_lt.mp (String.lt_asymm less))
  refine List.Perm.eq_of_pairwise ?_ (nameLe_sorted macros) ordered ((macros.mergeSort_perm nameLe).trans walk)
  rintro ⟨name, definition⟩ ⟨other, definition'⟩ member again before behind
  obtain rfl : name = other := String.le_antisymm (of_decide_eq_true before) (of_decide_eq_true behind)
  have listed := ((macros.mergeSort_perm nameLe).trans walk).mem_iff.mp member
  rw [Std.ExtTreeMap.mem_toList_iff_getElem?_eq_some] at listed again
  rw [Option.some.inj (listed.symm.trans again)]

theorem mergeSort_lineLe {labels walked : List (String × Location)} (walk : labels.Perm walked)
    (distinct : walked.Nodup) (apart : ∀ a ∈ walked, ∀ b ∈ walked, a.2.line = b.2.line → a = b) :
    labels.mergeSort lineLe = walked.mergeSort lineLe ∧
      (labels.mergeSort lineLe).Pairwise fun a b => a.2.line < b.2.line := by
  have perm : (labels.mergeSort lineLe).Perm walked := (labels.mergeSort_perm lineLe).trans walk
  constructor
  · refine List.Perm.eq_of_pairwise ?_ (lineLe_sorted labels) (lineLe_sorted walked)
      (perm.trans (walked.mergeSort_perm lineLe).symm)
    intro a b member again before behind
    have line := UInt32.le_antisymm (of_decide_eq_true before) (of_decide_eq_true behind)
    exact apart a (perm.mem_iff.mp member) b (List.mem_mergeSort.mp again) line
  · refine ((lineLe_sorted labels).and (perm.nodup_iff.mpr distinct)).imp_of_mem ?_
    rintro a b member again ⟨before, different⟩
    have lines : a.2.line ≠ b.2.line := fun same =>
      different (apart a (perm.mem_iff.mp member) b (perm.mem_iff.mp again) same)
    exact UInt32.lt_of_le_of_ne (of_decide_eq_true before) lines

end Completion

namespace Cache

open Completion

theorem label_lines_apart {cache : Cache} {machine : Machine} {uri : Uri}
    (few : ∀ entry, cache.view machine uri = some entry →
      ∃ text, entry.table = scan text uri ∧ (Source.lines text.toList).length < UInt32.size) :
    ∀ a ∈ (cache.get machine uri).1.labels.toList, ∀ b ∈ (cache.get machine uri).1.labels.toList,
      a.2.line = b.2.line → a = b := by
  rintro ⟨name, location⟩ member ⟨other, location'⟩ again line
  rw [Std.ExtTreeMap.mem_toList_iff_getElem?_eq_some, labels_get] at member again
  obtain ⟨entry, found, own⟩ := Option.bind_eq_some_iff.mp member
  obtain ⟨entry', found', own'⟩ := Option.bind_eq_some_iff.mp again
  obtain rfl := Option.some.inj (found.symm.trans found')
  obtain ⟨text, table, short⟩ := few entry found
  rw [table] at own own'
  have symbol {name : String} {location : Location}
      (own : (scan text uri).labels[name]? = some location) :
      (⟨name, .label, none, location⟩ : Symbol) ∈ (scan text uri).symbols :=
    ((scan text uri).mem_symbols_iff _).mpr (.inr ⟨own, rfl⟩)
  have same := Scan.eq_of_line short (symbol own) (symbol own') line
  rw [Prod.mk.injEq]
  exact ⟨congrArg Symbol.name same, congrArg Symbol.location same⟩

/-- All symbols of a text stand at different lines, as long as there are numbers for its lines. So the symbols of
a lookup come as the same completion items for every order in which its maps are walked: each macro once, strictly
by name, then each label once, strictly by line. -/
theorem completions_in_any_order :
    (∀ text uri, (Source.lines text.toList).length < UInt32.size →
      (scan text uri).symbols.Pairwise fun symbol other => symbol.location.line ≠ other.location.line) ∧
    ∀ cache, Built cache → ∀ machine uri,
      (∀ entry, cache.view machine uri = some entry → ∃ text, entry.table = scan text uri) ∧
      ∀ macros labels,
        let table := (cache.get machine uri).1
        macros.Perm table.macros.toList → labels.Perm table.labels.toList →
          ((macros.mergeSort nameLe).Pairwise fun a b => a.1 < b.1) ∧
          (∀ name definition,
            (name, definition) ∈ macros.mergeSort nameLe ↔ table.macros[name]? = some definition) ∧
          (∀ name location,
            (name, location) ∈ labels.mergeSort lineLe ↔ table.labels[name]? = some location) ∧
          ((∀ entry, cache.view machine uri = some entry →
            ∃ text, entry.table = scan text uri ∧ (Source.lines text.toList).length < UInt32.size) →
            ((labels.mergeSort lineLe).Pairwise fun a b => a.2.line < b.2.line) ∧
            ∀ text position settings, (Buffer.typedAt text position).head? ≠ some '%' →
              completions table text position settings = symbolItems macros labels ++
                if settings.instructionCompletions then opcodeItems ++ registerItems else []) := by
  refine ⟨fun _ uri few => Scan.symbols_lines_apart few uri, ?_⟩
  intro cache built machine uri
  constructor
  · intro entry found
    obtain ⟨past, known, text, rfl⟩ := built.exists_scanEntry_of_view found
    exact ⟨text, rfl⟩
  · intro macros labels table walk labelWalk
    have byName := mergeSort_nameLe walk
    refine ⟨?_, ?_, ?_, ?_⟩
    · rw [byName]
      exact toList_ascending _
    · intro name definition
      rw [byName]
      exact Std.ExtTreeMap.mem_toList_iff_getElem?_eq_some
    · intro name location
      rw [List.mem_mergeSort, labelWalk.mem_iff]
      exact Std.ExtTreeMap.mem_toList_iff_getElem?_eq_some
    · intro few
      have distinct : table.labels.toList.Nodup := by
        refine Std.ExtTreeMap.distinct_keys_toList.imp ?_
        rintro a b different rfl
        exact different (Std.LawfulEqCmp.compare_eq_iff_eq.mpr rfl)
      have byLine := mergeSort_lineLe labelWalk distinct (label_lines_apart few)
      refine ⟨byLine.2, ?_⟩
      intro text position settings plain
      rw [completions, if_neg plain, symbolItems, byName, byLine.1]
      rfl

theorem backward_walk_completions :
    let machine : Machine := ⟨Disk.empty, .ofString "/", .ofString "/"⟩
    let main := Uri.ofPath (.ofString "/m.S")
    let text := "z:\n#define B 2\n#define A\na:\n"
    let cache := Cache.empty.update machine main text
    let table := (cache.get machine main).1
    let macros := [("B", (⟨"2", main, 1⟩ : MacroDefinition)), ("A", ⟨"", main, 2⟩)]
    let labels := [("z", (⟨main, 0⟩ : Location)), ("a", ⟨main, 3⟩)]
    let settings : Settings := ⟨[], true, true, false⟩
    Built cache ∧
      (∀ entry, cache.view machine main = some entry →
        ∃ text, entry.table = scan text main ∧ (Source.lines text.toList).length < UInt32.size) ∧
      macros.Perm table.macros.toList ∧ labels.Perm table.labels.toList ∧
      (Buffer.typedAt text ⟨0, 0⟩).head? ≠ some '%' ∧
      completions table text ⟨0, 0⟩ settings = symbolItems macros labels ∧
      symbolItems macros labels =
        [⟨"A", .definedMacro, "#define A"⟩, ⟨"B", .definedMacro, "#define B 2"⟩,
          ⟨"z", .label, "label, line 1"⟩, ⟨"a", .label, "label, line 4"⟩] := by
  intro machine main text cache table macros labels settings
  have built : Built cache := .update .empty machine main text
  have ends : (visit machine 2 [] cache main).isSome := by decide +kernel
  have value : table.macros.toList = macros.reverse ∧ table.labels.toList = labels.reverse := by
    change (cache.get machine main).1.macros.toList = _ ∧ (cache.get machine main).1.labels.toList = _
    rw [get_eq_visit ends]
    decide +kernel
  have walk : macros.Perm table.macros.toList := by
    rw [value.1]
    exact macros.reverse_perm.symm
  have labelWalk : labels.Perm table.labels.toList := by
    rw [value.2]
    exact labels.reverse_perm.symm
  have plain : (Buffer.typedAt text ⟨0, 0⟩).head? ≠ some '%' := by decide +kernel
  have few : ∀ entry, cache.view machine main = some entry →
      ∃ text, entry.table = scan text main ∧ (Source.lines text.toList).length < UInt32.size := by
    intro entry found
    obtain rfl := Option.some.inj (found.symm.trans
      (effective?_of_stored (entry?_update_self Cache.empty machine main text) machine))
    exact ⟨text, rfl, by decide +kernel⟩
  have listed :=
    (((completions_in_any_order.2 cache built machine main).2 macros labels walk labelWalk).2.2.2 few).2
  refine ⟨built, few, walk, labelWalk, plain, ?_, ?_⟩
  · rw [listed text ⟨0, 0⟩ settings plain]
    exact List.append_nil _
  · have ordered : labels.Pairwise fun a b => lineLe a b = true := by simp [labels, lineLe]
    rw [symbolItems, mergeSort_nameLe walk, value.1, List.mergeSort_of_pairwise ordered]
    decide +kernel

end Cache

end AsmIndex
