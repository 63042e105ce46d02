import AsmIndex.Text.Utf8

namespace AsmIndex.Utf8

theorem isContinuation_iff (b : UInt8) : isContinuation b = true ↔ 0x80 ≤ b.toNat ∧ b.toNat ≤ 0xbf := by
  simp [isContinuation, UInt8.le_iff_toNat_le]

theorem isSecondOfThree_iff (a b : UInt8) :
    isSecondOfThree a b = true ↔ 0x80 ≤ b.toNat ∧ b.toNat ≤ 0xbf ∧
      (a.toNat = 0xe0 → 0xa0 ≤ b.toNat) ∧ (a.toNat = 0xed → b.toNat ≤ 0x9f) := by
  simp only [isSecondOfThree, isContinuation, UInt8.le_iff_toNat_le, beq_iff_eq, ← UInt8.toNat_inj,
    UInt8.toNat_ofNat]
  split <;> try split
  all_goals simp; omega

theorem isSecondOfFour_iff (a b : UInt8) :
    isSecondOfFour a b = true ↔ 0x80 ≤ b.toNat ∧ b.toNat ≤ 0xbf ∧
      (a.toNat = 0xf0 → 0x90 ≤ b.toNat) ∧ (a.toNat = 0xf4 → b.toNat ≤ 0x8f) := by
  simp only [isSecondOfFour, isContinuation, UInt8.le_iff_toNat_le, beq_iff_eq, ← UInt8.toNat_inj,
    UInt8.toNat_ofNat]
  split <;> try split
  all_goals simp; omega

/-- The classes of the bytes that have to follow a first one. None follows a byte that starts no sequence. -/
def followers (first : UInt8) : List (UInt8 → Bool) :=
  if 0xc2 ≤ first && first ≤ 0xdf then [isContinuation]
  else if 0xe0 ≤ first && first ≤ 0xef then [isSecondOfThree first, isContinuation]
  else if 0xf0 ≤ first && first ≤ 0xf4 then [isSecondOfFour first, isContinuation, isContinuation]
  else [fun _ => false]

def fitting : List (UInt8 → Bool) → Bytes → Bytes
  | fits :: more, b :: rest => if fits b then b :: fitting more rest else []
  | _, _ => []

def assemble : Bytes → Char
  | [a, b] => two a b
  | [a, b, c] => three a b c
  | [a, b, c, d] => four a b c d
  | _ => replacement

def partChar (first : UInt8) (part : Bytes) : Char :=
  if part.length = (followers first).length then assemble (first :: part) else replacement

theorem decode_ascii {a : UInt8} (ascii : a < 0x80) (rest : Bytes) :
    decode (a :: rest) = Char.ofNat a.toNat :: decode rest := by
  rw [decode.eq_def]
  exact if_pos ascii

theorem decode_part {a : UInt8} (high : ¬a < 0x80) (rest : Bytes) :
    decode (a :: rest) =
      partChar a (fitting (followers a) rest) :: decode (rest.drop (fitting (followers a) rest).length) := by
  rw [decode.eq_def]
  simp only [if_neg high, followers, partChar]
  split
  · cases rest with
    | nil => simp [fitting, decode]
    | cons b rest => by_cases second : isContinuation b = true <;> simp [fitting, second, assemble]
  split
  · cases rest with
    | nil => simp [fitting, decode]
    | cons b rest =>
      by_cases second : isSecondOfThree a b = true
      · cases rest with
        | nil => simp [fitting, decode, second]
        | cons c rest =>
          by_cases third : isContinuation c = true <;> simp [fitting, second, third, assemble]
      · simp [fitting, second]
  split
  · cases rest with
    | nil => simp [fitting, decode]
    | cons b rest =>
      by_cases second : isSecondOfFour a b = true
      · cases rest with
        | nil => simp [fitting, decode, second]
        | cons c rest =>
          by_cases third : isContinuation c = true
          · cases rest with
            | nil => simp [fitting, decode, second, third]
            | cons d rest =>
              by_cases fourth : isContinuation d = true <;>
                simp [fitting, second, third, fourth, assemble]
          · simp [fitting, second, third]
      · simp [fitting, second]
  · cases rest <;> simp [fitting]

theorem decode_induction {motive : Bytes → Prop} (empty : motive [])
    (ascii : ∀ a rest, a < 0x80 → motive rest → motive (a :: rest))
    (part : ∀ a rest, ¬a < 0x80 → motive (rest.drop (fitting (followers a) rest).length) →
      motive (a :: rest)) : ∀ bytes, motive bytes
  | [] => empty
  | a :: rest =>
    if low : a < 0x80 then ascii a rest low (decode_induction empty ascii part rest)
    else part a rest low (decode_induction empty ascii part _)
termination_by bytes => bytes.length
decreasing_by all_goals simp only [List.length_drop, List.length_cons]; omega

theorem fitting_isPrefix (classes : List (UInt8 → Bool)) (bytes : Bytes) : fitting classes bytes <+: bytes := by
  fun_induction fitting classes bytes with
  | case1 fits more b rest fit ih => exact List.cons_prefix_cons.mpr ⟨rfl, ih⟩
  | case2 => exact List.nil_prefix
  | case3 => exact List.nil_prefix

theorem followers_continue (a : UInt8) :
    ∀ fits ∈ followers a, ∀ b, fits b = true → isContinuation b = true := by
  have ofThree (b : UInt8) (second : isSecondOfThree a b = true) : isContinuation b = true := by
    rw [isSecondOfThree_iff] at second
    rw [isContinuation_iff]
    omega
  have ofFour (b : UInt8) (second : isSecondOfFour a b = true) : isContinuation b = true := by
    rw [isSecondOfFour_iff] at second
    rw [isContinuation_iff]
    omega
  unfold followers
  split
  · simp
  split
  · simpa using ofThree
  split
  · simpa using ofFour
  · simp

/-- The bytes do not go on with a part that started in front of them. -/
def StartsAfresh (bytes : Bytes) : Prop :=
  ∀ b, bytes.head? = some b → isContinuation b = false

theorem startsAfresh_ascii {a : UInt8} (ascii : a < 0x80) (rest : Bytes) : StartsAfresh (a :: rest) := by
  intro b first
  obtain rfl := Option.some.inj first
  rw [UInt8.lt_iff_toNat_lt] at ascii
  change a.toNat < 0x80 at ascii
  rw [← Bool.not_eq_true, isContinuation_iff]
  omega

theorem fitting_append {back : Bytes} (afresh : StartsAfresh back) {classes : List (UInt8 → Bool)}
    (continues : ∀ fits ∈ classes, ∀ b, fits b = true → isContinuation b = true) (front : Bytes) :
    fitting classes (front ++ back) = fitting classes front := by
  induction classes generalizing front with
  | nil => simp [fitting]
  | cons fits more ih =>
    cases front with
    | cons b rest =>
      have rest := ih (fun other member => continues other (List.mem_cons_of_mem _ member)) rest
      simp only [List.cons_append, fitting, rest]
    | nil =>
      cases back with
      | nil => rfl
      | cons b rest =>
        apply if_neg
        intro fit
        have continued := continues fits (List.mem_cons_self ..) b fit
        rw [afresh b rfl] at continued
        cases continued

theorem decode_append {back : Bytes} (afresh : StartsAfresh back) (front : Bytes) :
    decode (front ++ back) = decode front ++ decode back := by
  induction front using decode_induction with
  | empty => rfl
  | ascii a rest low ih =>
    rw [List.cons_append, decode_ascii low, decode_ascii low, ih, List.cons_append]
  | part a rest high ih =>
    have same := fitting_append afresh (followers_continue a) rest
    have inside := (fitting_isPrefix (followers a) rest).length_le
    rw [List.cons_append, decode_part high, decode_part high, same, List.drop_append_of_le_length inside, ih,
      List.cons_append]

theorem decode_append_ascii {a : UInt8} (ascii : a < 0x80) (front back : Bytes) :
    decode (front ++ a :: back) = decode front ++ Char.ofNat a.toNat :: decode back := by
  rw [decode_append (startsAfresh_ascii ascii back), decode_ascii ascii]

theorem toNat_ofNat_of_isValidChar {n : Nat} (valid : n.isValidChar) : (Char.ofNat n).toNat = n := by
  unfold Char.ofNat
  rw [dif_pos valid]
  rfl

theorem toNat_ofNat_byte (b : UInt8) : (Char.ofNat b.toNat).toNat = b.toNat :=
  toNat_ofNat_of_isValidChar (.inl (Nat.lt_trans b.toNat_lt (by decide)))

theorem bits_six (b : UInt8) : bits b 6 = b.toNat % 64 :=
  rfl

section Sequences

variable {a b : UInt8}

theorem two_high (lead : 0xc2 ≤ a.toNat ∧ a.toNat ≤ 0xdf) (b : UInt8) : 0x80 ≤ (two a b).toNat := by
  have first : bits a 5 = a.toNat % 32 := rfl
  rw [two, bits_six, first, toNat_ofNat_of_isValidChar]
  · omega
  · unfold Nat.isValidChar
    omega

theorem three_high (lead : 0xe0 ≤ a.toNat ∧ a.toNat ≤ 0xef) (second : isSecondOfThree a b = true) (c : UInt8) :
    0x80 ≤ (three a b c).toNat := by
  have first : bits a 4 = a.toNat % 16 := rfl
  rw [isSecondOfThree_iff] at second
  rw [three, bits_six, bits_six, first, toNat_ofNat_of_isValidChar]
  · omega
  · unfold Nat.isValidChar
    omega

theorem four_high (lead : 0xf0 ≤ a.toNat ∧ a.toNat ≤ 0xf4) (second : isSecondOfFour a b = true)
    (c d : UInt8) : 0x80 ≤ (four a b c d).toNat := by
  have first : bits a 3 = a.toNat % 8 := rfl
  rw [isSecondOfFour_iff] at second
  rw [four, bits_six, bits_six, bits_six, first, toNat_ofNat_of_isValidChar]
  · omega
  · unfold Nat.isValidChar
    omega

end Sequences

theorem fitting_whole {fits : UInt8 → Bool} {more : List (UInt8 → Bool)} {bytes : Bytes}
    (whole : (fitting (fits :: more) bytes).length = (fits :: more).length) :
    ∃ b rest, fits b = true ∧ fitting (fits :: more) bytes = b :: fitting more rest ∧
      (fitting more rest).length = more.length := by
  cases bytes with
  | nil => cases whole
  | cons b rest =>
    by_cases fit : fits b = true
    · have first : fitting (fits :: more) (b :: rest) = b :: fitting more rest := if_pos fit
      rw [first] at whole
      exact ⟨b, rest, fit, first, Nat.succ.inj whole⟩
    · have nothing : fitting (fits :: more) (b :: rest) = [] := if_neg fit
      rw [nothing] at whole
      cases whole

theorem partChar_high (a : UInt8) (rest : Bytes) : 0x80 ≤ (partChar a (fitting (followers a) rest)).toNat := by
  unfold partChar
  split
  case isFalse => decide
  case isTrue whole =>
    revert whole
    unfold followers
    split
    case isTrue lead =>
      intro whole
      have range : 0xc2 ≤ a.toNat ∧ a.toNat ≤ 0xdf := by simpa [UInt8.le_iff_toNat_le] using lead
      obtain ⟨b, _, _, first, _⟩ := fitting_whole whole
      rw [first]
      exact two_high range b
    split
    case isTrue lead =>
      intro whole
      have range : 0xe0 ≤ a.toNat ∧ a.toNat ≤ 0xef := by simpa [UInt8.le_iff_toNat_le] using lead
      obtain ⟨b, _, second, first, whole⟩ := fitting_whole whole
      obtain ⟨c, _, _, next, _⟩ := fitting_whole whole
      rw [first, next]
      exact three_high range second c
    split
    case isTrue lead =>
      intro whole
      have range : 0xf0 ≤ a.toNat ∧ a.toNat ≤ 0xf4 := by simpa [UInt8.le_iff_toNat_le] using lead
      obtain ⟨b, _, second, first, whole⟩ := fitting_whole whole
      obtain ⟨c, _, _, next, whole⟩ := fitting_whole whole
      obtain ⟨d, _, _, last, _⟩ := fitting_whole whole
      rw [first, next, last]
      exact four_high range second c d
    case isFalse =>
      intro whole
      obtain ⟨_, _, never, _⟩ := fitting_whole whole
      cases never

theorem mem_of_mem_decode {bytes : Bytes} {c : Char} (member : c ∈ decode bytes) (low : c.toNat < 0x80) :
    UInt8.ofNat c.toNat ∈ bytes := by
  induction bytes using decode_induction with
  | empty => cases member
  | ascii a rest ascii ih =>
    rw [decode_ascii ascii] at member
    rcases List.mem_cons.mp member with rfl | member
    · rw [toNat_ofNat_byte, UInt8.ofNat_toNat]
      exact List.mem_cons_self ..
    · exact List.mem_cons_of_mem _ (ih member)
  | part a rest high ih =>
    rw [decode_part high] at member
    rcases List.mem_cons.mp member with rfl | member
    · have := partChar_high a rest
      omega
    · exact List.mem_cons_of_mem _ (List.mem_of_mem_drop (ih member))

section Characters

variable {a b c d : UInt8} (char : Char) (rest : Bytes)

theorem decode_pair (first : a.toNat = char.toNat / 64 % 32 + 0xc0) (last : b.toNat = char.toNat % 64 + 0x80)
    (range : 0x80 ≤ char.toNat ∧ char.toNat ≤ 0x7ff) : decode (a :: b :: rest) = char :: decode rest := by
  have high : ¬a < 0x80 := by simp [UInt8.lt_iff_toNat_lt]; omega
  have classes : followers a = [isContinuation] := by
    simp [followers, UInt8.le_iff_toNat_le]
    omega
  have second : isContinuation b = true := by rw [isContinuation_iff]; omega
  have value : two a b = char := by
    rw [← Char.ofNat_toNat char, two, bits_six, show bits a 5 = a.toNat % 32 from rfl]
    congr 1
    omega
  rw [decode_part high]
  simp [partChar, classes, fitting, second, assemble, value]

theorem decode_triple (first : a.toNat = char.toNat / 4096 % 16 + 0xe0)
    (next : b.toNat = char.toNat / 64 % 64 + 0x80) (last : c.toNat = char.toNat % 64 + 0x80)
    (range : 0x800 ≤ char.toNat ∧ char.toNat ≤ 0xffff) :
    decode (a :: b :: c :: rest) = char :: decode rest := by
  have valid : char.toNat < 0xd800 ∨ 0xdfff < char.toNat ∧ char.toNat < 0x110000 := char.valid
  have high : ¬a < 0x80 := by simp [UInt8.lt_iff_toNat_lt]; omega
  have classes : followers a = [isSecondOfThree a, isContinuation] := by
    have other : ¬a.toNat ≤ 0xdf := by omega
    simp [followers, UInt8.le_iff_toNat_le, other]
    omega
  have second : isSecondOfThree a b = true := by rw [isSecondOfThree_iff]; omega
  have third : isContinuation c = true := by rw [isContinuation_iff]; omega
  have value : three a b c = char := by
    rw [← Char.ofNat_toNat char, three, bits_six, bits_six, show bits a 4 = a.toNat % 16 from rfl]
    congr 1
    omega
  rw [decode_part high]
  simp [partChar, classes, fitting, second, third, assemble, value]

theorem decode_quadruple (first : a.toNat = char.toNat / 262144 % 8 + 0xf0)
    (next : b.toNat = char.toNat / 4096 % 64 + 0x80) (later : c.toNat = char.toNat / 64 % 64 + 0x80)
    (last : d.toNat = char.toNat % 64 + 0x80) (range : 0x10000 ≤ char.toNat) :
    decode (a :: b :: c :: d :: rest) = char :: decode rest := by
  have valid : char.toNat < 0xd800 ∨ 0xdfff < char.toNat ∧ char.toNat < 0x110000 := char.valid
  have high : ¬a < 0x80 := by simp [UInt8.lt_iff_toNat_lt]; omega
  have classes : followers a = [isSecondOfFour a, isContinuation, isContinuation] := by
    have other : ¬a.toNat ≤ 0xdf ∧ ¬a.toNat ≤ 0xef := by omega
    simp [followers, UInt8.le_iff_toNat_le, other]
    omega
  have second : isSecondOfFour a b = true := by rw [isSecondOfFour_iff]; omega
  have third : isContinuation c = true := by rw [isContinuation_iff]; omega
  have fourth : isContinuation d = true := by rw [isContinuation_iff]; omega
  have value : four a b c d = char := by
    rw [← Char.ofNat_toNat char, four, bits_six, bits_six, bits_six, show bits a 3 = a.toNat % 8 from rfl]
    congr 1
    omega
  rw [decode_part high]
  simp [partChar, classes, fitting, second, third, fourth, assemble, value]

end Characters

theorem decode_encodeChar (c : Char) (rest : Bytes) :
    decode (String.utf8EncodeChar c ++ rest) = c :: decode rest := by
  have byte {n : Nat} (small : n < 256) : (UInt8.ofNat n).toNat = n := UInt8.toNat_ofNat_of_lt' small
  unfold String.utf8EncodeChar
  change decode ((if c.toNat ≤ 0x7f then _ else if c.toNat ≤ 0x7ff then _ else
    if c.toNat ≤ 0xffff then _ else _) ++ rest) = _
  split
  case isTrue ascii =>
    have value : (UInt8.ofNat c.toNat).toNat = c.toNat := byte (by omega)
    have low : UInt8.ofNat c.toNat < 0x80 := by
      rw [UInt8.lt_iff_toNat_lt, value]
      exact Nat.lt_succ_of_le ascii
    have here := decode_ascii low rest
    rwa [value, Char.ofNat_toNat] at here
  split
  case isTrue =>
    exact decode_pair c rest (byte (by omega)) (byte (by omega)) (by omega)
  split
  case isTrue =>
    exact decode_triple c rest (byte (by omega)) (byte (by omega)) (byte (by omega)) (by omega)
  case isFalse =>
    exact decode_quadruple c rest (byte (by omega)) (byte (by omega)) (byte (by omega)) (byte (by omega))
      (by omega)

theorem decode_encode (s : List Char) : decode (encode s) = s := by
  induction s with
  | nil => rfl
  | cons c s ih =>
    change decode (String.utf8EncodeChar c ++ encode s) = c :: s
    rw [decode_encodeChar, ih]

end AsmIndex.Utf8
