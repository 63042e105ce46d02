namespace AsmIndex.Text

def units (c : Char) : Nat :=
  if c.toNat < 0x10000 then 1 else 2

def width (s : List Char) : Nat :=
  s.foldr (fun c width => units c + width) 0

@[simp] theorem width_nil : width [] = 0 := rfl

@[simp] theorem width_cons (c : Char) (s : List Char) : width (c :: s) = units c + width s := rfl

@[simp] theorem width_append (s t : List Char) : width (s ++ t) = width s + width t := by
  induction s with
  | nil => simp
  | cons c s ih => simp [ih, Nat.add_assoc]

theorem units_pos (c : Char) : 0 < units c := by
  unfold units
  split <;> decide

end AsmIndex.Text
