import AsmIndex.Fuzzy.Query

namespace AsmIndex.Fuzzy

inductive CharClass
  | white
  | nonWord
  | delimiter
  | lower
  | upper
  | digit
deriving DecidableEq

def CharClass.ofChar (c : Char) : CharClass :=
  if c.isLower then .lower
  else if c.isUpper then .upper
  else if c.isDigit then .digit
  else if c = ' ' ∨ c = '\t' ∨ c = '\n' ∨ c = '\r' ∨ c.toNat = 12 then .white
  else if ['/', ',', ':', ';', '|'].contains c then .delimiter
  else .nonWord

def CharClass.isWord (k : CharClass) : Bool :=
  k = .lower || k = .upper || k = .digit

def matchScore : Nat := 16

def gapStart : Nat := 3

def gapExtension : Nat := 1

def boundaryBonus : Nat := 8

def runBonus : Nat := 4

def placeBonus (previous current : CharClass) : Nat :=
  if current.isWord ∧ previous = .white then 10
  else if current.isWord ∧ previous = .delimiter then 9
  else if current.isWord ∧ previous = .nonWord then 8
  else if (previous = .lower ∧ current = .upper) ∨ (previous ≠ .digit ∧ current = .digit) then 5
  else if current = .white then 10
  else if current = .nonWord then 8
  else 0

def bonusesFrom (previous : CharClass) : List Char → List Nat
  | [] => []
  | c :: rest => placeBonus previous (.ofChar c) :: bonusesFrom (.ofChar c) rest

structure Haystack where
  raw : List Char
  folded : List Char
  bonuses : List Nat

def Haystack.ofName (ignoresCase : Bool) (name : List Char) : Haystack where
  raw := name
  folded := if ignoresCase then name.map Char.toLower else name
  bonuses := bonusesFrom .white name

/-- A walk over the characters after the first match, of which each is the next one of the needle or
a gap. -/
structure Walk where
  score : Nat
  first : Nat
  inRun : Bool
  inGap : Bool
  needle : List Char

def Walk.step (walk : Walk) (c : Char) (bonus : Nat) : Walk :=
  match walk.needle with
  | next :: rest =>
    if c = next then
      let first :=
        if walk.inRun then
          if boundaryBonus ≤ bonus ∧ walk.first < bonus then bonus else walk.first
        else bonus
      let gained := if walk.inRun then max (max bonus first) runBonus else bonus
      { score := walk.score + matchScore + gained
        first := first
        inRun := true
        inGap := false
        needle := if rest = [] then walk.needle else rest }
    else
      { walk with
        score := walk.score - (if walk.inGap then gapExtension else gapStart)
        inRun := false
        inGap := true }
  | [] => walk

def laidScore (hay : Haystack) (needle : List Char) (start stop : Nat) : Nat :=
  let places := ((hay.folded.zip hay.bonuses).take stop).drop start
  match places with
  | [] => 0
  | (_, first) :: rest =>
    let walk : Walk :=
      { score := matchScore + 2 * first
        first := first
        inRun := true
        inGap := false
        needle := if needle.length ≤ 1 then needle else needle.drop 1 }
    (rest.foldl (fun walk (c, bonus) => walk.step c bonus) walk).score

/-- With case ignored the characters from start to stop have to be the needle; otherwise the whole
name has to be. -/
def exactScore? (ignoresCase : Bool) (hay : Haystack) (needle : List Char) (start stop : Nat) :
    Option Nat :=
  let same :=
    if ignoresCase then (hay.folded.take stop).drop start = needle else hay.raw = needle
  if needle.length = stop - start ∧ same then some (laidScore hay needle start stop) else none

def greatest? (scores : List Nat) : Option Nat :=
  scores.max?

def singleScore? (hay : Haystack) (c : Char) : Option Nat :=
  greatest? ((hay.folded.zip hay.bonuses).filterMap fun (d, bonus) =>
    if d = c then some (matchScore + 2 * bonus) else none)

def occurrencesFrom (needle : List Char) (place : Nat) : List Char → List Nat
  | [] => []
  | c :: rest =>
    if needle ≠ [] ∧ needle.isPrefixOf (c :: rest) then
      place :: occurrencesFrom needle (place + needle.length) ((c :: rest).drop needle.length)
    else occurrencesFrom needle (place + 1) rest
termination_by s => s.length
decreasing_by
  · rename_i found
    have positive := List.length_pos_iff.mpr found.1
    simp only [List.length_drop, List.length_cons]
    omega
  · simp

/-- The places at which a substring is tried. With case ignored it depends on where the first letter of
the needle stands. -/
def substringPlaces (ignoresCase : Bool) (hay : Haystack) (needle : List Char) : List Nat :=
  let letter? := if ignoresCase then needle.findIdx? Char.isLower else none
  match letter? with
  | none => occurrencesFrom needle 0 hay.raw
  | some (n + 2) =>
    occurrencesFrom needle 0 (hay.raw.take (hay.raw.length - needle.length + (n + 2)))
  | some n =>
    let heads := if n = 0 then hay.folded else hay.raw
    (List.range (hay.raw.length + 1 - needle.length)).filter fun place =>
      heads[place]? = needle.head? ∧
        ((hay.folded.drop (place + 1)).take (needle.length - 1)) = needle.drop 1

def bestPlace? (hay : Haystack) (places : List Nat) : Option Nat :=
  let worth (place : Nat) : Nat := (hay.bonuses[place]?).getD 0
  places.foldl
    (fun best place =>
      match best with
      | none => some place
      | some held => if worth held < worth place then some place else best)
    none

def substringScore? (ignoresCase : Bool) (hay : Haystack) (needle : List Char) : Option Nat :=
  let size := hay.raw.length
  if size < needle.length then none
  else if needle.length = size then exactScore? ignoresCase hay needle 0 size
  else
    match needle with
    | [c] => singleScore? hay c
    | _ =>
      (bestPlace? hay (substringPlaces ignoresCase hay needle)).map fun place =>
        laidScore hay needle place (place + needle.length)

/-- A cell of the placement table: the best score that ends here and the bonus of the run it is in. -/
structure Cell where
  score : Nat
  run : Nat
deriving DecidableEq

def leftmostFrom? (place : Nat) : List Char → List Char → Option (List Nat)
  | [], _ => some []
  | _ :: _, [] => none
  | n :: needle, c :: rest =>
    if c = n then (leftmostFrom? (place + 1) needle rest).map (place :: ·)
    else leftmostFrom? (place + 1) (n :: needle) rest

def firstRow (needle : Char) (columns : List (Char × Nat)) : List (Option Cell) :=
  columns.map fun (c, bonus) =>
    if c = needle then some ⟨matchScore + 2 * bonus, bonus⟩ else none

def Cell.extend (before : Option Cell) (carried bonus : Nat) : Cell :=
  match before with
  | none => ⟨carried + bonus + matchScore, bonus⟩
  | some cell =>
    let run := max cell.run runBonus
    let run := if boundaryBonus ≤ bonus ∧ run < bonus then bonus else run
    let joined := cell.score + max run bonus
    let apart := carried + bonus
    if apart < joined then ⟨joined + matchScore, run⟩ else ⟨apart + matchScore, bonus⟩

def nextCells (carried previous : Nat) :
    List (Option Cell) → List (Bool × Nat) → List (Option Cell)
  | above :: rest, (hit, bonus) :: columns =>
    let carried := max (previous - gapStart) (carried - gapExtension)
    let cell := if hit then some (Cell.extend above carried bonus) else none
    let score := match above with
      | some cell => cell.score
      | none => 0
    cell :: nextCells carried score rest columns
  | _, _ => []

/-- The row of the next needle character. The row above starts to count at its leftmost place, and so does
this one. -/
def nextRow (row : List (Option Cell)) (above here : Nat) (needle : Char)
    (columns : List (Char × Nat)) : List (Option Cell) :=
  let marked := columns.zipIdx.map fun ((c, bonus), column) =>
    (decide (c = needle ∧ here ≤ column), bonus)
  List.replicate (above + 1) none ++ nextCells 0 0 (row.drop above) (marked.drop (above + 1))

def lastRow (columns : List (Char × Nat)) :
    List (Option Cell) → Nat → List (Char × Nat) → List (Option Cell)
  | row, _, [] => row
  | row, above, (needle, here) :: rest =>
    lastRow columns (nextRow row above here needle columns) here rest

def fuzzyScore? (ignoresCase : Bool) (hay : Haystack) (needle : List Char) : Option Nat :=
  let size := hay.raw.length
  if size < needle.length then none
  else if needle.length = size then exactScore? ignoresCase hay needle 0 size
  else
    match needle with
    | [] => none
    | [c] => singleScore? hay c
    | head :: others => do
      let leftmost ← leftmostFrom? 0 needle hay.folded
      let start ← leftmost.head?
      let last ← needle.getLast?
      let fromEnd ← hay.folded.reverse.findIdx? (· = last)
      let stop := size - fromEnd
      if stop - start = needle.length then return laidScore hay needle start stop
      let columns := ((hay.folded.zip hay.bonuses).take stop).drop start
      let offsets := leftmost.map (· - start)
      let cells := lastRow columns (firstRow head columns) 0 (others.zip (offsets.drop 1))
      greatest? (cells.filterMap fun cell => cell.map Cell.score)

def Atom.match? (atom : Atom) (name : List Char) : Option Nat :=
  let hay := Haystack.ofName atom.ignoresCase name
  let size := name.length
  let count := atom.needle.length
  match atom.kind with
  | .fuzzy => fuzzyScore? atom.ignoresCase hay atom.needle
  | .substring => substringScore? atom.ignoresCase hay atom.needle
  | .leading => if size < count then none else exactScore? atom.ignoresCase hay atom.needle 0 count
  | .trailing =>
    if size < count then none else exactScore? atom.ignoresCase hay atom.needle (size - count) size
  | .exact => exactScore? atom.ignoresCase hay atom.needle 0 size

def Atom.score? (atom : Atom) (name : List Char) : Option Nat :=
  if atom.excludes then
    match atom.match? name with
    | some _ => none
    | none => some 0
  else atom.match? name

def score (query name : String) : Nat :=
  (((atoms query).mapM fun (atom : Atom) => atom.score? name.toList).map (List.foldr (· + ·) 0)).getD 0

end AsmIndex.Fuzzy
