import AsmIndex.Editor.Highlight
import AsmIndex.Symbol.Scan

namespace AsmIndex.Buffer

/-- VT, FF, NEL, LS and PS end a line of a buffer but not one of a source. -/
def isSoftBreak (c : Char) : Bool :=
  isBreak c && c ≠ '\r' && c ≠ '\n'

def withoutBreak (line : List Char) : List Char :=
  (line.reverse.dropWhile isBreak).reverse

theorem withoutBreak_cons {c : Char} (inner : isBreak c = false) (line : List Char) :
    withoutBreak (c :: line) = c :: withoutBreak line := by
  unfold withoutBreak
  rw [List.reverse_cons, List.dropWhile_append]
  split
  · rename_i nothing
    rw [List.isEmpty_iff.mp nothing]
    simp [inner]
  · simp

theorem map_withoutBreak_extendFirst {c : Char} (inner : isBreak c = false)
    (rows : List (List Char)) :
    (Source.extendFirst c rows).map withoutBreak = Source.extendFirst c (rows.map withoutBreak) := by
  cases rows with
  | nil => simp [Source.extendFirst, withoutBreak, inner]
  | cons line rows => simp [Source.extendFirst, withoutBreak_cons inner]

theorem splitOnP_softBreak_cons {c : Char} (inner : isSoftBreak c = false) (line : List Char) :
    List.splitOnP isSoftBreak (c :: line) =
      Source.extendFirst c (List.splitOnP isSoftBreak line) := by
  obtain ⟨piece, pieces, split⟩ :=
    List.exists_cons_of_ne_nil (List.splitOnP_ne_nil isSoftBreak line)
  rw [List.splitOnP_cons_eq_if_modifyHead, split]
  simp [inner, Source.extendFirst]

theorem flatMap_splitOnP_extendFirst {c : Char} (inner : isSoftBreak c = false)
    {rows : List (List Char)} (nonempty : rows ≠ []) :
    (Source.extendFirst c rows).flatMap (List.splitOnP isSoftBreak) =
      Source.extendFirst c (rows.flatMap (List.splitOnP isSoftBreak)) := by
  obtain ⟨line, rows, rfl⟩ := List.exists_cons_of_ne_nil nonempty
  obtain ⟨piece, pieces, split⟩ :=
    List.exists_cons_of_ne_nil (List.splitOnP_ne_nil isSoftBreak line)
  simp only [Source.extendFirst, List.flatMap_cons, splitOnP_softBreak_cons inner, split,
    List.cons_append]

theorem isSoftBreak_of_not_hard {c : Char} (other : ¬(c = '\r' ∨ c = '\n')) :
    isSoftBreak c = isBreak c := by
  rw [not_or] at other
  simp [isSoftBreak, other.1, other.2]

theorem isSoftBreak_of_hard {c : Char} (hard : c = '\r' ∨ c = '\n') :
    isBreak c = true ∧ isSoftBreak c = false := by
  rcases hard with rfl | rfl <;> decide

/-- A buffer cuts each source line at its soft breaks. -/
theorem map_withoutBreak_lines (text : List Char) :
    (lines text).map withoutBreak = (Source.lines text).flatMap (List.splitOnP isSoftBreak) := by
  fun_induction Source.lines text with
  | case1 => simp [lines, withoutBreak, List.splitOnP_nil]
  | case2 rest ih =>
    have ending : withoutBreak ['\r', '\n'] = [] := by decide
    rw [lines, List.map_cons, ending, ih, List.flatMap_cons, List.splitOnP_nil, List.singleton_append]
  | case3 c rest single hard ih =>
    have breaks := (isSoftBreak_of_hard hard).1
    have ending : withoutBreak [c] = [] := by simp [withoutBreak, breaks]
    rw [lines, if_pos breaks, List.map_cons, ending, ih, List.flatMap_cons, List.splitOnP_nil,
      List.singleton_append]
    exact single
  | case4 c rest single other ih =>
    have same := isSoftBreak_of_not_hard other
    rw [lines]
    · split
      · rename_i breaks
        -- the source line goes on behind the break, where the buffer starts a new one
        obtain ⟨line, rows, first⟩ := List.exists_cons_of_ne_nil (Source.lines_ne_nil rest)
        have ending : withoutBreak [c] = [] := by simp [withoutBreak, breaks]
        have cut : List.splitOnP isSoftBreak (c :: line) = [] :: List.splitOnP isSoftBreak line := by
          rw [List.splitOnP_cons_eq_if_modifyHead, same, if_pos breaks]
        simp only [List.map_cons, ending, ih, first, Source.extendFirst, List.flatMap_cons, cut,
          List.cons_append]
      · rename_i inner
        have inner : isBreak c = false := by simpa using inner
        rw [map_withoutBreak_extendFirst inner, ih,
          flatMap_splitOnP_extendFirst (same.trans inner) (Source.lines_ne_nil rest)]
    · exact single

theorem length_extendFirst (c : Char) {rows : List (List Char)} (nonempty : rows ≠ []) :
    (Source.extendFirst c rows).length = rows.length := by
  obtain ⟨line, rows, rfl⟩ := List.exists_cons_of_ne_nil nonempty
  rfl

theorem lines_ne_nil (text : List Char) : lines text ≠ [] := by
  fun_cases lines text <;> simp [Source.extendFirst_ne_nil]

theorem length_lines (text : List Char) :
    (lines text).length = (Source.lines text).length + text.countP isSoftBreak := by
  fun_induction Source.lines text with
  | case1 => rfl
  | case2 rest ih =>
    have feed : isSoftBreak '\n' = false := by decide
    have back : isSoftBreak '\r' = false := by decide
    rw [lines, List.length_cons, List.length_cons, ih, List.countP_cons, List.countP_cons, feed, back]
    simp
    omega
  | case3 c rest single hard ih =>
    obtain ⟨breaks, counted⟩ := isSoftBreak_of_hard hard
    rw [lines, if_pos breaks, List.length_cons, List.length_cons, ih, List.countP_cons, counted]
    · simp
      omega
    · exact single
  | case4 c rest single other ih =>
    have same := isSoftBreak_of_not_hard other
    have longer := length_extendFirst c (Source.lines_ne_nil rest)
    rw [lines, List.countP_cons, longer, same]
    · split
      · rw [List.length_cons, ih]
        omega
      · rw [length_extendFirst c (lines_ne_nil rest), ih]
        omega
    · exact single

theorem mem_text_of_mem_lines {text line : List Char} (row : line ∈ Source.lines text) {c : Char}
    (member : c ∈ line) : c ∈ text := by
  fun_induction Source.lines text generalizing line with
  | case1 =>
    rw [List.mem_singleton.mp row] at member
    exact absurd member (by simp)
  | case2 rest ih =>
    rcases List.mem_cons.mp row with rfl | row
    · exact absurd member (by simp)
    · exact List.mem_cons_of_mem _ (List.mem_cons_of_mem _ (ih row member))
  | case3 d rest single hard ih =>
    rcases List.mem_cons.mp row with rfl | row
    · exact absurd member (by simp)
    · exact List.mem_cons_of_mem _ (ih row member)
  | case4 d rest single other ih =>
    obtain ⟨first, rows, split⟩ := List.exists_cons_of_ne_nil (Source.lines_ne_nil rest)
    rw [split, Source.extendFirst] at row
    rcases List.mem_cons.mp row with rfl | row
    · rcases List.mem_cons.mp member with rfl | member
      · simp
      · exact List.mem_cons_of_mem _ (ih (by simp [split]) member)
    · exact List.mem_cons_of_mem _ (ih (by simp [split, row]) member)

theorem map_withoutBreak_of_hard {text : List Char} (hard : ∀ c ∈ text, isSoftBreak c = false) :
    (lines text).map withoutBreak = Source.lines text := by
  have whole : ∀ line ∈ Source.lines text, List.splitOnP isSoftBreak line = [line] :=
    fun line row => List.splitOnP_eq_singleton fun c member => hard c (mem_text_of_mem_lines row member)
  rw [map_withoutBreak_lines, List.flatMap_def, List.map_congr_left whole, ← List.flatMap_def,
    List.flatMap_singleton']

theorem line?_of_source_line {text : String} (hard : ∀ c ∈ text.toList, isSoftBreak c = false) {number : Nat}
    {row : List Char} (listed : (Source.lines text.toList)[number]? = some row) :
    ∃ ending, line? text number = some (row ++ ending) ∧ ∀ c ∈ ending, isBreak c = true := by
  rw [← map_withoutBreak_of_hard hard, List.getElem?_map] at listed
  obtain ⟨line, found, rfl⟩ := Option.map_eq_some_iff.mp listed
  refine ⟨(line.reverse.takeWhile isBreak).reverse, ?_, fun c member => ?_⟩
  · rw [withoutBreak, ← List.reverse_append, List.takeWhile_append_dropWhile, List.reverse_reverse]
    exact found
  · exact List.all_eq_true.mp List.all_takeWhile c (List.mem_reverse.mp member)

/-- The lines of a buffer, without their breaks, are the source lines cut at the soft breaks. So the two
ways to count agree in exactly the texts that have none. -/
theorem lines_agree_iff_no_soft_break (text : String) :
    (lines text.toList).map withoutBreak =
      (Source.lines text.toList).flatMap (List.splitOnP isSoftBreak) ∧
    ((lines text.toList).map withoutBreak = Source.lines text.toList ↔
      ∀ c ∈ text.toList, isSoftBreak c = false) := by
  refine ⟨map_withoutBreak_lines text.toList, fun same c member => ?_, fun none => ?_⟩
  · have counted := length_lines text.toList
    have sameLength : (lines text.toList).length = (Source.lines text.toList).length := by
      rw [← same, List.length_map]
    have zero : text.toList.countP isSoftBreak = 0 := by omega
    simpa using List.countP_eq_zero.mp zero c member
  · exact map_withoutBreak_of_hard none

/-- Behind a vertical tab the label of source line 0 stands on buffer line 1. -/
theorem vertical_tab_shifts_lines :
    let text := "\x0bx:\nx"
    let uri := Uri.ofPath (.ofString "/a.S")
    (lines text.toList).map withoutBreak ≠ Source.lines text.toList ∧
      (scan text uri).labels["x"]? = some ⟨uri, 0⟩ ∧
      line? text 0 = some ['\x0b'] ∧
      tokens (scan text uri) text = [⟨1, 0, 1, .label⟩, ⟨2, 0, 1, .label⟩] := by
  decide +kernel

end AsmIndex.Buffer
