import AsmIndex.Source.Line

namespace AsmIndex.Buffer

def isBreak (c : Char) : Bool :=
  let n := c.toNat
  (0x0a ≤ n && n ≤ 0x0d) || n == 0x85 || n == 0x2028 || n == 0x2029

def lines : List Char → List (List Char)
  | [] => [[]]
  | '\r' :: '\n' :: rest => ['\r', '\n'] :: lines rest
  | c :: rest => if isBreak c then [c] :: lines rest else Source.extendFirst c (lines rest)

def line? (text : String) (number : Nat) : Option (List Char) :=
  (lines text.toList)[number]?

end AsmIndex.Buffer
