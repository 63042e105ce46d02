import AsmIndex.Proofs.DecidingLines

namespace AsmIndex

namespace Source

open Text

theorem lines_feed (rest : List Char) : lines ('\n' :: rest) = [] :: lines rest := by
  simp [lines]

theorem lines_pair (rest : List Char) : lines ('\r' :: '\n' :: rest) = [] :: lines rest := by
  simp [lines]

theorem lines_return {rest : List Char} (lone : rest.head? ≠ some '\n') :
    lines ('\r' :: rest) = [] :: lines rest := by
  cases rest with
  | nil => rfl
  | cons c rest =>
    rw [lines, if_pos (.inl rfl)]
    intro _ _ same
    exact lone (congrArg List.head? same)

theorem lines_cons {c : Char} (inner : ¬(c = '\r' ∨ c = '\n')) (rest : List Char) :
    lines (c :: rest) = extendFirst c (lines rest) := by
  rw [lines, if_neg inner]
  intro _ same
  exact absurd (.inl same) inner

theorem head?_ne_feed {rest : List Char} (single : ∀ more, rest = '\n' :: more → False) :
    rest.head? ≠ some '\n' := by
  intro first
  obtain ⟨more, same⟩ := List.head?_eq_some_iff.mp first
  exact single more same

theorem extendFirst_append (c : Char) {rows : List (List Char)} (nonempty : rows ≠ []) (more : List (List Char)) :
    extendFirst c (rows ++ more) = extendFirst c rows ++ more := by
  obtain ⟨row, rows, rfl⟩ := List.exists_cons_of_ne_nil nonempty
  rfl

theorem lines_append_feed {front : List Char} (ended : front.getLast? ≠ some '\r') (back : List Char) :
    lines (front ++ '\n' :: back) = lines front ++ lines back := by
  have onward {c : Char} {rest : List Char} (ended : (c :: rest).getLast? ≠ some '\r') :
      rest.getLast? ≠ some '\r' := by
    intro last
    apply ended
    rw [List.getLast?_cons, last]
    rfl
  fun_induction lines front with
  | case1 => exact lines_feed back
  | case2 rest ih =>
    have rows := ih (onward (onward ended))
    rw [List.cons_append, List.cons_append, lines_pair, rows, List.cons_append]
  | case3 c rest single hard ih =>
    have rows := ih (onward ended)
    rcases hard with rfl | rfl
    · cases rest with
      | nil => exact absurd rfl ended
      | cons d rest =>
        have first : (d :: rest).head? ≠ some '\n' := head?_ne_feed fun more => single more rfl
        have lone : (d :: rest ++ '\n' :: back).head? ≠ some '\n' := first
        rw [List.cons_append, lines_return lone, rows, List.cons_append]
    · rw [List.cons_append, lines_feed, rows, List.cons_append]
  | case4 c rest single inner ih =>
    have rows := ih (onward ended)
    rw [List.cons_append, lines_cons inner, rows, extendFirst_append c (lines_ne_nil rest)]

/-- The text with a line feed for every CR LF and then for every CR that is left. -/
def feedEnded (text : List Char) : List Char :=
  replace ['\r'] ['\n'] (replace ['\r', '\n'] ['\n'] text)

theorem feedEnded_pair (rest : List Char) : feedEnded ('\r' :: '\n' :: rest) = '\n' :: feedEnded rest := by
  have pair := replace_found ['\r', '\n'] ['\n'] rest (by simp)
  have feed : ¬['\r'] <+: '\n' :: replace ['\r', '\n'] ['\n'] rest := by simp
  simp only [List.cons_append, List.nil_append] at pair
  rw [feedEnded, pair, replace_skip feed]
  rfl

theorem feedEnded_return {rest : List Char} (lone : rest.head? ≠ some '\n') :
    feedEnded ('\r' :: rest) = '\n' :: feedEnded rest := by
  have single : ¬['\r', '\n'] <+: '\r' :: rest := by
    rintro ⟨more, same⟩
    exact lone (congrArg List.head? (List.cons.inj same).2).symm
  rw [feedEnded, replace_skip single]
  exact replace_found ['\r'] ['\n'] _ (by simp)

theorem feedEnded_cons {c : Char} (other : c ≠ '\r') (rest : List Char) :
    feedEnded (c :: rest) = c :: feedEnded rest := by
  have skip (more text : List Char) : ¬ '\r' :: more <+: c :: text := by
    rintro ⟨_, same⟩
    exact other (List.cons.inj same).1.symm
  rw [feedEnded, replace_skip (skip _ _), replace_skip (skip _ _)]
  rfl

theorem lines_feedEnded (text : List Char) : lines (feedEnded text) = lines text := by
  fun_induction lines text with
  | case1 => simp [feedEnded, replace, lines]
  | case2 rest ih => rw [feedEnded_pair, lines_feed, ih]
  | case3 c rest single hard ih =>
    rcases hard with rfl | rfl
    · have lone := head?_ne_feed fun more => single more rfl
      rw [feedEnded_return lone, lines_feed, ih]
    · rw [feedEnded_cons (by decide), lines_feed, ih]
  | case4 c rest single inner ih =>
    rw [feedEnded_cons (fun same => inner (.inl same)), lines_cons inner, ih]

theorem return_not_mem_feedEnded (text : List Char) : '\r' ∉ feedEnded text := by
  unfold feedEnded
  generalize replace ['\r', '\n'] ['\n'] text = text
  induction text with
  | nil => simp [replace]
  | cons c rest ih =>
    by_cases same : c = '\r'
    · subst same
      have found := replace_found ['\r'] ['\n'] rest (by simp)
      simp only [List.cons_append, List.nil_append] at found
      simp [found, ih]
    · have skip : ¬['\r'] <+: c :: rest := by
        simpa using Ne.symm same
      simp [replace_skip skip, ih, Ne.symm same]

end Source

def MacroDefinition.lowered (definition : MacroDefinition) (count : Nat) : MacroDefinition :=
  { definition with location.line := count.toUInt32 + definition.location.line }

namespace Scan

open Source

theorem collect_append {α : Type} {read? : List Char → Nat → Option (List Char × α)} {move : α → α}
    {front : List (List Char)}
    (moved : ∀ line number, read? line (front.length + number) =
      (read? line number).map fun found => (found.1, move found.2))
    (names : NameMap α) (back : List (List Char)) :
    collect read? names (front ++ back) = collect read? names front ∪ (collect read? ∅ back).map fun _ => move := by
  -- A pass over more lines lays what these give over what it has so far, if what they give moves with them.
  apply Std.ExtTreeMap.ext_getElem?
  intro name
  have given (row : List Char × Nat) :
      given? read? name (row.1, front.length + row.2) = (given? read? name row).map move := by
    unfold given?
    rw [moved row.1 row.2]
    cases read? row.1 row.2 with
    | none => rfl
    | some found =>
      simp only [Option.map_some]
      split <;> rfl
  have later : (back.zipIdx front.length).reverse.findSome? (given? read? name) =
      (back.zipIdx.reverse.findSome? (given? read? name)).map move := by
    rw [List.zipIdx_eq_map_add, ← List.map_reverse, List.findSome?_map, List.map_findSome?]
    congr 1
    funext row
    exact given row
  rw [Std.ExtTreeMap.getElem?_union, Std.ExtTreeMap.getElem?_map, getElem?_collect, getElem?_collect,
    getElem?_collect, Std.ExtTreeMap.getElem?_empty, Option.or_none, List.zipIdx_append, List.reverse_append,
    List.findSome?_append, Nat.zero_add, later, Option.or_assoc]

theorem macroAt?_lowered (uri : Uri) (count : Nat) (line : List Char) (number : Nat) :
    macroAt? uri line (count + number) =
      (macroAt? uri line number).map fun found => (found.1, found.2.lowered count) := by
  have line : (count + number).toUInt32 = count.toUInt32 + number.toUInt32 := UInt32.ofNat_add count number
  unfold macroAt? Location.new
  rw [Option.map_map, line]
  rfl

/-- Two texts with a line feed between them are scanned one after the other. The macros of the second replace
those of the first and stand as many lines further down as the first has. -/
theorem scan_append_feed (front back : String) (uri : Uri) (ended : front.toList.getLast? ≠ some '\r') :
    macros (front ++ "\n" ++ back) uri =
      macros front uri ∪ (macros back uri).map (fun _ found => found.lowered (lines front.toList).length) ∧
    includes (front ++ "\n" ++ back) = includes front ++ includes back := by
  have rows : lines (front ++ "\n" ++ back).toList = lines front.toList ++ lines back.toList := by
    rw [String.toList_append, String.toList_append, List.append_assoc]
    exact lines_append_feed ended back.toList
  constructor
  · rw [macros_eq_collect, rows]
    exact collect_append (macroAt?_lowered uri _) ∅ _
  · rw [includes, rows, List.filterMap_append, List.map_append]
    rfl

theorem two_texts_append_feed :
    let front := "#define A 1\r\n#define B 2\r#include <a.h>"
    let back := "#include \"a.h\"\n#define A 3"
    let uri := Uri.ofPath (.ofString "/m.S")
    front.toList.getLast? ≠ some '\r' ∧
      macros (front ++ "\n" ++ back) uri =
        macros front uri ∪ (macros back uri).map (fun _ found => found.lowered (lines front.toList).length) ∧
      includes (front ++ "\n" ++ back) = includes front ++ includes back := by
  intro front back uri
  have ended : front.toList.getLast? ≠ some '\r' := by decide
  exact ⟨ended, scan_append_feed front back uri ended⟩

theorem scan_congr {text other : String} (same : lines text.toList = lines other.toList) (uri : Uri) :
    scan text uri = scan other uri := by
  simp only [scan, macros, labels, same]

/-- Whichever breaks end the lines of a text, it is scanned as the text that has line feeds alone. -/
theorem scan_eq_scan_feedEnded (text : String) (uri : Uri) :
    let fed := String.ofList (feedEnded text.toList)
    '\r' ∉ fed.toList ∧ scan text uri = scan fed uri ∧ includes text = includes fed := by
  intro fed
  have rows : lines text.toList = lines fed.toList := by
    rw [String.toList_ofList, lines_feedEnded]
  refine ⟨?_, scan_congr rows uri, ?_⟩
  · rw [String.toList_ofList]
    exact return_not_mem_feedEnded text.toList
  · rw [includes, includes, rows]

end Scan

end AsmIndex
