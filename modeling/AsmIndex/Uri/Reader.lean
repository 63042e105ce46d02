import AsmIndex.Uri.Basic

namespace AsmIndex

inductive UriError
  | relativeWithoutBase
  | emptyHost
  | invalidPort
  | invalidDomain
deriving DecidableEq

def UriError.message : UriError → String
  | .relativeWithoutBase => "relative URL without a base"
  | .emptyHost => "empty host"
  | .invalidPort => "invalid port number"
  | .invalidDomain => "invalid domain character"

namespace Uri

inductive SchemeKind
  | file
  | network (defaultPort : Nat)
  | other
deriving DecidableEq

def SchemeKind.ofScheme (scheme : String) : SchemeKind :=
  match scheme with
  | "file" => .file
  | "http" | "ws" => .network 80
  | "https" | "wss" => .network 443
  | "ftp" => .network 21
  | _ => .other

def SchemeKind.isSpecial (kind : SchemeKind) : Bool :=
  kind != .other

/-- The text without surrounding controls and spaces, and without tabs and line breaks. -/
def clean (s : List Char) : List Char :=
  let isEdge (c : Char) : Bool := c.toNat ≤ 0x20
  let kept := ((s.dropWhile isEdge).reverse.dropWhile isEdge).reverse
  kept.filter fun c => c ≠ '\t' ∧ c ≠ '\n' ∧ c ≠ '\r'

def isSchemeChar (c : Char) : Bool :=
  c.isAlphanum || c == '+' || c == '-' || c == '.'

def scheme? (s : List Char) : Option (String × List Char) :=
  match s with
  | c :: _ =>
    match c.isAlpha, s.dropWhile isSchemeChar with
    | true, ':' :: rest => some (String.ofList ((s.takeWhile isSchemeChar).map Char.toLower), rest)
    | _, _ => none
  | [] => none

def tail (special : Bool) (s : List Char) : Option String × Option String :=
  let encoded (escaped : UInt8 → Bool) (s : List Char) : String :=
    String.ofList (Percent.encode escaped (Utf8.encode s))
  let fragment (s : List Char) : Option String :=
    match s with
    | '#' :: rest => some (encoded Percent.escapedInFragment rest)
    | _ => none
  match s with
  | '?' :: rest =>
    (some (encoded (Percent.escapedInQuery special) (rest.takeWhile (· ≠ '#'))),
      fragment (rest.dropWhile (· ≠ '#')))
  | _ => (none, fragment s)

def endsPath (c : Char) : Bool :=
  c == '?' || c == '#'

def isSeparator (special : Bool) (c : Char) : Bool :=
  c == '/' || (special && c == '\\')

def splitSegments (special : Bool) : List Char → List (List Char)
  | [] => [[]]
  | c :: rest =>
    if isSeparator special c then [] :: splitSegments special rest
    else
      match splitSegments special rest with
      | [] => [[c]]
      | segment :: segments => (c :: segment) :: segments

def plainDots : List Char → List Char
  | '%' :: '2' :: c :: rest =>
    if c = 'e' ∨ c = 'E' then '.' :: plainDots rest else '%' :: '2' :: c :: plainDots rest
  | c :: rest => c :: plainDots rest
  | [] => []

def isDriveLetter : List Char → Bool
  | [letter, mark] => letter.isAlpha && (mark == ':' || mark == '|')
  | _ => false

def isDrive (segment : String) : Bool :=
  match segment.toList with
  | [letter, ':'] => letter.isAlpha
  | _ => false

/-- The segments without the last one. The drive of a file stays. -/
def shorten (file : Bool) (segments : List String) : List String :=
  match segments with
  | [only] => if file ∧ isDrive only then segments else []
  | _ => segments.dropLast

def encodeSegment (file : Bool) (before : List String) (segment : List Char) : String :=
  if file ∧ before = [] ∧ isDriveLetter segment then String.ofList (segment.take 1 ++ [':'])
  else String.ofList (Percent.encode Percent.escapedInPath (Utf8.encode segment))

/-- The segments after the given ones, with dot segments folded. A dot segment at the end leaves an
empty one. -/
def foldSegments (file : Bool) (before : List String) : List (List Char) → List String
  | [] => before
  | segment :: rest =>
    let atEnd (segments : List String) : List String :=
      if rest = [] then segments ++ [""] else segments
    match plainDots segment with
    | ['.', '.'] => foldSegments file (atEnd (shorten file before)) rest
    | ['.'] => foldSegments file (atEnd before) rest
    | _ => foldSegments file (before ++ [encodeSegment file before segment]) rest

def splitDrive : List (List Char) → List (List Char)
  | (letter :: ':' :: c :: more) :: rest =>
    if letter.isAlpha then [letter, ':'] :: (c :: more) :: rest
    else (letter :: ':' :: c :: more) :: rest
  | segments => segments

def dropEmpty : List String → List String
  | "" :: next :: rest => dropEmpty (next :: rest)
  | segments => segments

def segments (kind : SchemeKind) (s : List Char) : List String :=
  let pieces := splitSegments kind.isSpecial s
  if kind = .file then dropEmpty (foldSegments true [] (splitDrive pieces))
  else foldSegments false [] pieces

def userText (s : List Char) : List Char :=
  let encoded (s : List Char) : List Char := Percent.encode Percent.escapedInUser (Utf8.encode s)
  let name := encoded (s.takeWhile (· ≠ ':'))
  let password := encoded ((s.dropWhile (· ≠ ':')).drop 1)
  let full := if password = [] then name else name ++ ':' :: password
  if full = [] then [] else full ++ ['@']

def isForbiddenInDomain (c : Char) : Bool :=
  c.toNat ≤ 0x20 || c.toNat == 0x7f ||
    ['#', '%', '/', ':', '<', '>', '?', '@', '[', '\\', ']', '^', '|'].contains c

def hostText (special : Bool) (s : List Char) : Except UriError (List Char) :=
  if !special then .ok (Percent.encode Percent.isControl (Utf8.encode s))
  else if s.head? = some '[' then .ok (s.map Char.toLower)
  else
    let domain := (Utf8.decode (Percent.decode s)).map Char.toLower
    if domain.any isForbiddenInDomain then .error .invalidDomain else .ok domain

def portText (kind : SchemeKind) (s : List Char) : Except UriError (List Char) :=
  if s.all Char.isDigit then
    let port := s.foldl (fun n c => n * 10 + (c.toNat - 0x30)) 0
    if s = [] ∨ kind = .network port then .ok []
    else if port < 65536 then .ok (':' :: (toString port).toList)
    else .error .invalidPort
  else .error .invalidPort

def splitPort (s : List Char) : List Char × List Char :=
  match s with
  | '[' :: _ =>
    let inside := s.takeWhile (· ≠ ']')
    let after := (s.dropWhile (· ≠ ']')).drop 1
    (inside ++ [']'], after.drop 1)
  | _ => (s.takeWhile (· ≠ ':'), (s.dropWhile (· ≠ ':')).drop 1)

def authorityText (kind : SchemeKind) (s : List Char) : Except UriError String := do
  let afterUser := (s.reverse.takeWhile (· ≠ '@')).reverse
  let user := userText ((s.take (s.length - afterUser.length)).dropLast)
  let (hostPart, portPart) := splitPort afterUser
  let host ← hostText kind.isSpecial hostPart
  if host = [] ∧ (kind.isSpecial ∨ user ≠ [] ∨ portPart ≠ []) then throw .emptyHost
  let port ← portText kind portPart
  return String.ofList (user ++ host ++ port)

def readAuthority (scheme : String) (kind : SchemeKind) (s : List Char) : Except UriError Uri := do
  let endsAuthority (c : Char) : Bool := endsPath c || isSeparator kind.isSpecial c
  let authority ← authorityText kind (s.takeWhile fun c => !endsAuthority c)
  let rest := s.dropWhile fun c => !endsAuthority c
  let path := rest.takeWhile fun c => !endsPath c
  let (query, fragment) := tail kind.isSpecial (rest.dropWhile fun c => !endsPath c)
  let segments := if path = [] ∧ !kind.isSpecial then [] else segments kind (path.drop 1)
  return ⟨scheme, some authority, .rooted segments, query, fragment⟩

def isLocal (host : List Char) : Bool :=
  host = [] || host = ['l', 'o', 'c', 'a', 'l', 'h', 'o', 's', 't']

/-- What follows the scheme of a file. Its path is rooted even when no slash says so. -/
def readFile (s : List Char) : Except UriError Uri := do
  let isSlash := isSeparator true
  let (host, rest) ←
    match s with
    | a :: b :: rest =>
      if isSlash a && isSlash b then
        let endsHost (c : Char) : Bool := endsPath c || isSlash c
        let host := rest.takeWhile fun c => !endsHost c
        if isDriveLetter host then pure ([], rest)
        else
          let host ← hostText true host
          pure (if isLocal host then [] else host, rest.dropWhile fun c => !endsHost c)
      else pure ([], s)
    | _ => pure ([], s)
  let path := rest.takeWhile fun c => !endsPath c
  let (query, fragment) := tail true (rest.dropWhile fun c => !endsPath c)
  let path := if (path.head?.map isSlash).getD false then path.drop 1 else path
  let segments := segments .file path
  let host := if (segments.head?.map isDrive).getD false then [] else host
  return ⟨"file", some (String.ofList host), .rooted segments, query, fragment⟩

def readOther (scheme : String) (s : List Char) : Except UriError Uri :=
  match s with
  | '/' :: '/' :: rest => readAuthority scheme .other rest
  | _ =>
    let path := s.takeWhile fun c => !endsPath c
    let (query, fragment) := tail false (s.dropWhile fun c => !endsPath c)
    let path :=
      match path with
      | '/' :: rest => UriPath.rooted (segments .other rest)
      | _ => .rootless (String.ofList (Percent.encode Percent.isControl (Utf8.encode path)))
    .ok ⟨scheme, none, path, query, fragment⟩

def parse (text : String) : Except UriError Uri :=
  match scheme? (clean text.toList) with
  | none => .error .relativeWithoutBase
  | some (scheme, rest) =>
    match SchemeKind.ofScheme scheme with
    | .file => readFile rest
    | .network port => readAuthority scheme (.network port) (rest.dropWhile (isSeparator true))
    | .other => readOther scheme rest

end Uri

end AsmIndex
