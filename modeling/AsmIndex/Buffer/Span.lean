import AsmIndex.Text.Units

namespace AsmIndex.Buffer

open AsmIndex.Text

structure Span where
  text : List Char
  start : Nat
deriving DecidableEq

def Span.stop (span : Span) : Nat :=
  span.start + width span.text

def spansFrom (taken : List Char → Nat) (column : Nat) : List Char → List Span
  | [] => []
  | c :: rest =>
    match taken (c :: rest) with
    | 0 => spansFrom taken (column + units c) rest
    | n + 1 =>
      let text := c :: rest.take n
      ⟨text, column⟩ :: spansFrom taken (column + width text) (rest.drop n)
termination_by s => s.length
decreasing_by
  · simp
  · simp only [List.length_drop, List.length_cons]
    omega

def marked (mark : Char) (taken : List Char → Nat) : List Char → Nat
  | [] => taken []
  | c :: rest =>
    if c = mark then if taken rest = 0 then 0 else taken rest + 1
    else taken (c :: rest)

def spans (taken : List Char → Nat) (line : List Char) : List Span :=
  spansFrom taken 0 line

end AsmIndex.Buffer
