import AsmIndex.Text.Units

namespace AsmIndex.Text

def encodeUnits (c : Char) : List UInt16 :=
  if c.toNat < 0x10000 then [c.toNat.toUInt16]
  else
    [(0xd800 + (c.toNat - 0x10000) / 0x400).toUInt16, (0xdc00 + (c.toNat - 0x10000) % 0x400).toUInt16]

def utf16 (s : List Char) : List UInt16 :=
  s.flatMap encodeUnits

/-- The units of the text from one column to another. -/
def unitsBetween (s : List Char) (start stop : Nat) : List UInt16 :=
  ((utf16 s).drop start).take (stop - start)

theorem utf16_cons (c : Char) (s : List Char) : utf16 (c :: s) = encodeUnits c ++ utf16 s :=
  rfl

theorem utf16_append (s t : List Char) : utf16 (s ++ t) = utf16 s ++ utf16 t :=
  List.flatMap_append

theorem length_utf16 (s : List Char) : (utf16 s).length = width s := by
  induction s with
  | nil => rfl
  | cons c s ih =>
    have own : (encodeUnits c).length = units c := by
      unfold encodeUnits units
      split <;> rfl
    rw [utf16_cons, List.length_append, own, ih, width_cons]

theorem unitsBetween_append (lead text rest : List Char) :
    unitsBetween (lead ++ text ++ rest) (width lead) (width lead + width text) = utf16 text := by
  have size : width lead + width text - width lead = (utf16 text).length := by
    rw [length_utf16]
    omega
  rw [unitsBetween, List.append_assoc, utf16_append, utf16_append, size, ← length_utf16 lead,
    List.drop_left, List.take_left]

theorem width_of_ascii {s : List Char} (ascii : ∀ c ∈ s, c.toNat < 0x80) : width s = s.length := by
  induction s with
  | nil => rfl
  | cons c s ih =>
    obtain ⟨first, ascii⟩ := List.forall_mem_cons.mp ascii
    have one : units c = 1 := if_pos (by omega)
    rw [width_cons, ih ascii, one, List.length_cons, Nat.add_comm]

theorem append_inj_of_width {a b c d : List Char} (same : a ++ b = c ++ d) (wide : width a = width c) :
    a = c ∧ b = d := by
  have empty {more : List Char} (zero : width more = 0) : more = [] := by
    cases more with
    | nil => rfl
    | cons c more =>
      have positive := units_pos c
      rw [width_cons] at zero
      omega
  rcases List.append_eq_append_iff.mp same with ⟨more, rfl, rfl⟩ | ⟨more, rfl, rfl⟩
  · rw [width_append] at wide
    obtain rfl := @empty more (by omega)
    simp
  · rw [width_append] at wide
    obtain rfl := @empty more (by omega)
    simp

theorem take_utf16 (s rest : List Char) : (utf16 (s ++ rest)).take (width s) = utf16 s := by
  rw [utf16_append, ← length_utf16, List.take_left]

theorem encodeUnits_cases (c : Char) :
    (c.toNat < 0x10000 ∧ encodeUnits c = [c.toNat.toUInt16]) ∨
    ∃ high low, encodeUnits c = [high, low] ∧ 0xd800 ≤ high.toNat ∧ 0xdc00 ≤ low.toNat := by
  by_cases basic : c.toNat < 0x10000
  · exact .inl ⟨basic, if_pos basic⟩
  · have bound : c.toNat < 0x110000 := by
      have valid : c.toNat < 0xd800 ∨ 0xdfff < c.toNat ∧ c.toNat < 0x110000 := c.valid
      omega
    refine .inr ⟨_, _, if_neg basic, ?_, ?_⟩
    · rw [Nat.toUInt16, UInt16.toNat_ofNat_of_lt' (by change _ < 0x10000; omega)]
      omega
    · rw [Nat.toUInt16, UInt16.toNat_ofNat_of_lt' (by change _ < 0x10000; omega)]
      omega

theorem toNat_unit {c : Char} (basic : c.toNat < 0x10000) : c.toNat.toUInt16.toNat = c.toNat :=
  UInt16.toNat_ofNat_of_lt' basic

theorem exists_append_of_utf16 {s line : List Char} {back : List UInt16} (ascii : ∀ c ∈ s, c.toNat < 0x80)
    (same : utf16 line = utf16 s ++ back) : ∃ rest, line = s ++ rest ∧ utf16 rest = back := by
  induction s generalizing line with
  | nil => exact ⟨line, rfl, same⟩
  | cons d s ih =>
    obtain ⟨first, ascii⟩ := List.forall_mem_cons.mp ascii
    have unit : encodeUnits d = [d.toNat.toUInt16] := if_pos (by omega)
    have value := toNat_unit (c := d) (by omega)
    cases line with
    | nil => simp [utf16, unit] at same
    | cons c line =>
      rw [utf16_cons, utf16_cons, unit, List.singleton_append, List.cons_append] at same
      rcases encodeUnits_cases c with ⟨basic, own⟩ | ⟨high, low, own, large, _⟩
      · rw [own, List.singleton_append] at same
        obtain ⟨head, tail⟩ := List.cons.inj same
        have equal : c.toNat = d.toNat := by rw [← toNat_unit basic, head, value]
        obtain ⟨rest, rfl, ends⟩ := ih ascii tail
        exact ⟨rest, by rw [Char.toNat_inj.mp equal, List.cons_append], ends⟩
      · rw [own, List.cons_append] at same
        rw [(List.cons.inj same).1, value] at large
        omega

theorem exists_parts_of_utf16 {s line : List Char} {front back : List UInt16} (nonempty : s ≠ [])
    (ascii : ∀ c ∈ s, c.toNat < 0x80) (same : utf16 line = front ++ utf16 s ++ back) :
    ∃ lead rest, line = lead ++ s ++ rest ∧ utf16 lead = front := by
  obtain ⟨d, more, rfl⟩ := List.exists_cons_of_ne_nil nonempty
  have first := ascii d (List.mem_cons_self ..)
  have value := toNat_unit (c := d) (by omega)
  have units : utf16 (d :: more) = d.toNat.toUInt16 :: utf16 more := by
    rw [utf16_cons, encodeUnits, if_pos (by omega), List.singleton_append]
  induction line generalizing front with
  | nil =>
    rw [units] at same
    simp [utf16] at same
  | cons c line ih =>
    cases front with
    | nil =>
      obtain ⟨rest, whole, _⟩ := exists_append_of_utf16 ascii same
      exact ⟨[], rest, whole, rfl⟩
    | cons unit front =>
      rw [utf16_cons] at same
      rcases encodeUnits_cases c with ⟨basic, own⟩ | ⟨high, low, own, _, large⟩
      · rw [own] at same
        obtain ⟨head, tail⟩ := List.cons.inj same
        obtain ⟨lead, rest, rfl, before⟩ := ih tail
        exact ⟨c :: lead, rest, rfl, by rw [utf16_cons, own, before, head, List.singleton_append]⟩
      · rw [own] at same
        obtain ⟨head, tail⟩ := List.cons.inj same
        cases front with
        | nil =>
          rw [units] at tail
          have second : low = d.toNat.toUInt16 := (List.cons.inj tail).1
          rw [second, value] at large
          omega
        | cons second front =>
          obtain ⟨next, tail⟩ := List.cons.inj tail
          obtain ⟨lead, rest, rfl, before⟩ := ih tail
          exact ⟨c :: lead, rest, rfl, by rw [utf16_cons, own, before, head, next]; rfl⟩

end AsmIndex.Text
