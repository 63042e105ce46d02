namespace AsmIndex.Fuzzy

inductive AtomKind
  | fuzzy
  | substring
  | leading
  | trailing
  | exact
deriving DecidableEq

structure Atom where
  kind : AtomKind
  excludes : Bool
  ignoresCase : Bool
  needle : List Char
deriving DecidableEq

/-- The pieces between spaces. A space right after a backslash does not separate. -/
def pieces (escaped : Bool) : List Char → List (List Char)
  | [] => [[]]
  | c :: rest =>
    if c = ' ' ∧ !escaped then [] :: pieces false rest
    else
      match pieces (c == '\\') rest with
      | [] => [[c]]
      | piece :: pieces => (c :: piece) :: pieces

def exclusion (s : List Char) : Bool × List Char :=
  match s with
  | '!' :: rest => (true, rest)
  | '\\' :: '!' :: rest => (false, '!' :: rest)
  | _ => (false, s)

def leadingKind (s : List Char) : AtomKind × List Char :=
  match s with
  | '^' :: rest => (.leading, rest)
  | '\'' :: rest => (.substring, rest)
  | '\\' :: '^' :: rest => (.fuzzy, '^' :: rest)
  | '\\' :: '\'' :: rest => (.fuzzy, '\'' :: rest)
  | _ => (.fuzzy, s)

def trailingKind (kind : AtomKind) (s : List Char) : AtomKind × List Char × List Char :=
  match s.reverse with
  | '$' :: '\\' :: rest => (kind, rest.reverse, ['$'])
  | '$' :: rest => (if kind = .fuzzy then .trailing else .exact, rest.reverse, [])
  | _ => (kind, s, [])

def plainSpaces : List Char → List Char
  | '\\' :: ' ' :: rest => ' ' :: plainSpaces rest
  | c :: rest => c :: plainSpaces rest
  | [] => []

def Atom.ofPiece (piece : List Char) : Atom :=
  let (excludes, s) := exclusion piece
  let (kind, s) := leadingKind s
  let (kind, s, appended) := trailingKind kind s
  { kind := if excludes ∧ kind = .fuzzy then .substring else kind
    excludes := excludes
    ignoresCase := !s.any Char.isUpper
    needle := plainSpaces s ++ appended }

def atoms (query : String) : List Atom :=
  ((pieces false query.toList).map Atom.ofPiece).filter fun atom => atom.needle ≠ []

end AsmIndex.Fuzzy
