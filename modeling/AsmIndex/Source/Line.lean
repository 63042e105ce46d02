namespace AsmIndex.Source

def extendFirst (c : Char) : List (List Char) → List (List Char)
  | [] => [[c]]
  | line :: rest => (c :: line) :: rest

def lines : List Char → List (List Char)
  | [] => [[]]
  | '\r' :: '\n' :: rest => [] :: lines rest
  | c :: rest =>
    if c = '\r' ∨ c = '\n' then [] :: lines rest else extendFirst c (lines rest)

theorem extendFirst_ne_nil (c : Char) (rows : List (List Char)) : extendFirst c rows ≠ [] := by
  cases rows <;> simp [extendFirst]

theorem lines_ne_nil (text : List Char) : lines text ≠ [] := by
  fun_cases lines text <;> simp [extendFirst_ne_nil]

end AsmIndex.Source
