namespace AsmIndex.Text

def before (mark : List Char) : List Char → List Char
  | [] => []
  | c :: rest => if mark.isPrefixOf (c :: rest) then [] else c :: before mark rest

def fromMark? (mark : List Char) : List Char → Option (List Char)
  | [] => none
  | c :: rest => if mark.isPrefixOf (c :: rest) then some (c :: rest) else fromMark? mark rest

theorem before_append_fromMark? (mark s : List Char) :
    before mark s ++ (fromMark? mark s).getD [] = s := by
  induction s with
  | nil => rfl
  | cons c rest ih =>
    simp only [before, fromMark?]
    split
    · rfl
    · simpa using ih

def after? : List Char → List Char → Option (List Char)
  | [], s => some s
  | _ :: _, [] => none
  | a :: lead, c :: s => if a = c then after? lead s else none

theorem after?_eq_some_iff (lead s rest : List Char) :
    after? lead s = some rest ↔ s = lead ++ rest := by
  induction lead generalizing s with
  | nil => simp [after?]
  | cons a lead ih =>
    cases s with
    | nil => simp [after?]
    | cons c s =>
      by_cases same : a = c
      · simp [after?, same, ih]
      · simp [after?, same, Ne.symm same]

def replace (mark replacement : List Char) (s : List Char) : List Char :=
  match s with
  | [] => []
  | c :: rest =>
    if mark ≠ [] ∧ mark.isPrefixOf (c :: rest) then
      replacement ++ replace mark replacement ((c :: rest).drop mark.length)
    else c :: replace mark replacement rest
termination_by s.length
decreasing_by
  · rename_i found
    have positive := List.length_pos_iff.mpr found.1
    simp only [List.length_drop, List.length_cons]
    omega
  · simp

theorem replace_found (mark replacement rest : List Char) (nonempty : mark ≠ []) :
    replace mark replacement (mark ++ rest) = replacement ++ replace mark replacement rest := by
  obtain ⟨c, more, rfl⟩ := List.exists_cons_of_ne_nil nonempty
  have found : (c :: more).isPrefixOf (c :: (more ++ rest)) = true :=
    List.isPrefixOf_iff_prefix.mpr (List.prefix_append (c :: more) rest)
  rw [List.cons_append, replace, if_pos ⟨nonempty, found⟩, ← List.cons_append, List.drop_left]

theorem replace_skip {mark : List Char} {c : Char} {rest : List Char} (other : ¬mark <+: c :: rest)
    (replacement : List Char) :
    replace mark replacement (c :: rest) = c :: replace mark replacement rest := by
  rw [replace, if_neg]
  rintro ⟨_, found⟩
  exact other (List.isPrefixOf_iff_prefix.mp found)

end AsmIndex.Text
