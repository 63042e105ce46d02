import AsmIndex.Buffer.Span

namespace AsmIndex.Buffer

open AsmIndex.Text

theorem width_pos {s : List Char} (nonempty : s ≠ []) : 0 < width s := by
  obtain ⟨c, rest, rfl⟩ := List.exists_cons_of_ne_nil nonempty
  have first := units_pos c
  rw [width_cons]
  omega

theorem width_take_add_drop (n : Nat) (s : List Char) :
    width (s.take n) + width (s.drop n) = width s := by
  rw [← width_append, List.take_append_drop]

section

variable {taken : List Char → Nat}

theorem marked_of_ne {mark c : Char} (other : c ≠ mark) (s : List Char) :
    marked mark taken (c :: s) = taken (c :: s) := by
  rw [marked, if_neg other]

theorem marked_mark (mark : Char) (s : List Char) :
    marked mark taken (mark :: s) = if taken s = 0 then 0 else taken s + 1 := by
  rw [marked, if_pos rfl]

theorem marked_append (mark : Char) {rest : List Char} (alike : ∀ s, taken (s ++ rest) = taken s) {s : List Char}
    (nonempty : s ≠ []) : marked mark taken (s ++ rest) = marked mark taken s := by
  obtain ⟨c, s, rfl⟩ := List.exists_cons_of_ne_nil nonempty
  by_cases same : c = mark
  · subst same
    rw [List.cons_append, marked_mark, marked_mark, alike]
  · rw [List.cons_append, marked_of_ne same, marked_of_ne same, ← List.cons_append, alike]

theorem marked_le (mark : Char) (bounded : ∀ s, taken s ≤ s.length) (s : List Char) :
    marked mark taken s ≤ s.length := by
  fun_cases marked mark taken s with
  | case1 => exact bounded []
  | case2 rest nothing => omega
  | case3 rest _ =>
    have bound := bounded rest
    rw [List.length_cons]
    omega
  | case4 c rest _ => exact bounded (c :: rest)

theorem spansFrom_skip (column : Nat) {c : Char} {rest : List Char} (nothing : taken (c :: rest) = 0) :
    spansFrom taken column (c :: rest) = spansFrom taken (column + units c) rest := by
  rw [spansFrom, nothing]

theorem spansFrom_take (column : Nat) {text rest : List Char} (nonempty : text ≠ [])
    (whole : taken (text ++ rest) = text.length) :
    spansFrom taken column (text ++ rest) =
      ⟨text, column⟩ :: spansFrom taken (column + width text) rest := by
  obtain ⟨c, text, rfl⟩ := List.exists_cons_of_ne_nil nonempty
  rw [List.cons_append, List.length_cons] at whole
  rw [List.cons_append, spansFrom, whole]
  simp only [List.take_left, List.drop_left]

theorem spansFrom_whole (column : Nat) {text : List Char} (nonempty : text ≠ [])
    (whole : taken text = text.length) : spansFrom taken column text = [⟨text, column⟩] := by
  obtain ⟨c, text, rfl⟩ := List.exists_cons_of_ne_nil nonempty
  rw [List.length_cons] at whole
  rw [spansFrom, whole]
  simp [spansFrom]

theorem start_lt_stop {column : Nat} {s : List Char} {span : Span}
    (member : span ∈ spansFrom taken column s) : span.start < span.stop := by
  fun_induction spansFrom taken column s with
  | case1 => cases member
  | case2 column c rest nothing ih => exact ih member
  | case3 column c rest n whole text ih =>
    rcases List.mem_cons.mp member with rfl | member
    · have positive : 0 < width text := width_pos (List.cons_ne_nil _ _)
      simp only [Span.stop]
      omega
    · exact ih member

theorem mem_spansFrom_bounds {column : Nat} {s : List Char} {span : Span}
    (member : span ∈ spansFrom taken column s) :
    column ≤ span.start ∧ span.stop ≤ column + width s := by
  fun_induction spansFrom taken column s with
  | case1 => cases member
  | case2 column c rest nothing ih =>
    obtain ⟨low, high⟩ := ih member
    rw [width_cons]
    omega
  | case3 column c rest n whole text ih =>
    have parts := width_take_add_drop n rest
    have own : width text = units c + width (rest.take n) := width_cons c _
    rw [width_cons]
    rcases List.mem_cons.mp member with rfl | member
    · simp only [Span.stop]
      omega
    · obtain ⟨low, high⟩ := ih member
      omega

theorem spansFrom_ordered (taken : List Char → Nat) (column : Nat) (s : List Char) :
    (spansFrom taken column s).Pairwise fun a b => a.stop ≤ b.start := by
  fun_induction spansFrom taken column s with
  | case1 => exact .nil
  | case2 column c rest nothing ih => exact ih
  | case3 column c rest n whole text ih =>
    refine List.pairwise_cons.mpr ⟨fun later member => ?_, ih⟩
    exact (mem_spansFrom_bounds member).1

theorem spansFrom_append (bounded : ∀ s, taken s ≤ s.length) (column : Nat) {s rest : List Char}
    (seam : ∀ part, part ≠ [] → part <:+ s → taken (part ++ rest) = taken part) :
    spansFrom taken column (s ++ rest) =
      spansFrom taken column s ++ spansFrom taken (column + width s) rest := by
  -- Only what is left to read of the first part matters at the seam.
  fun_induction spansFrom taken column s with
  | case1 column => simp
  | case2 column c s nothing ih =>
    have alike := seam (c :: s) (List.cons_ne_nil _ _) (List.suffix_refl _)
    rw [List.cons_append] at alike ⊢
    rw [spansFrom_skip column (alike.trans nothing), ih, width_cons, Nat.add_assoc]
    exact fun part nonempty inside => seam part nonempty (inside.trans (List.suffix_cons c s))
  | case3 column c s n whole text ih =>
    have alike := seam (c :: s) (List.cons_ne_nil _ _) (List.suffix_refl _)
    have inside : n ≤ s.length := by
      have bound := bounded (c :: s)
      rw [whole, List.length_cons] at bound
      omega
    have cut : c :: s = text ++ s.drop n := by simp [text]
    have size : text.length = n + 1 := by simp [text, inside]
    have parts := congrArg width cut
    rw [width_append] at parts
    have reads : taken (text ++ (s.drop n ++ rest)) = text.length := by
      rw [← List.append_assoc, ← cut, alike, whole, size]
    have later : ∀ part, part ≠ [] → part <:+ s.drop n → taken (part ++ rest) = taken part :=
      fun part nonempty within => seam part nonempty (within.trans ⟨text, cut.symm⟩)
    rw [cut, List.append_assoc, spansFrom_take column (List.cons_ne_nil _ _) reads, ih later,
      List.cons_append, ← cut, parts, Nat.add_assoc]

end

end AsmIndex.Buffer
