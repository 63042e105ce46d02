import AsmIndex.Path
import AsmIndex.Uri.Percent
import Std.Data.ExtTreeMap

namespace AsmIndex

inductive UriPath
  | rootless (text : String)
  | rooted (segments : List String)
deriving DecidableEq

structure Uri where
  scheme : String
  authority : Option String
  path : UriPath
  query : Option String
  fragment : Option String
deriving DecidableEq

namespace Uri

def pathText : UriPath → String
  | .rootless text => text
  | .rooted segments => String.join (segments.map ("/" ++ ·))

def text (uri : Uri) : String :=
  let authority := match uri.authority with
    | some authority => "//" ++ authority
    | none => ""
  let query := match uri.query with
    | some query => "?" ++ query
    | none => ""
  let fragment := match uri.fragment with
    | some fragment => "#" ++ fragment
    | none => ""
  uri.scheme ++ ":" ++ authority ++ pathText uri.path ++ query ++ fragment

def key (uri : Uri) : List (Option String) :=
  some uri.scheme :: uri.authority :: uri.query :: uri.fragment ::
    match uri.path with
    | .rootless text => [none, some text]
    | .rooted segments => segments.map some

theorem key_injective (a b : Uri) (same : a.key = b.key) : a = b := by
  obtain ⟨schemeA, authorityA, pathA, queryA, fragmentA⟩ := a
  obtain ⟨schemeB, authorityB, pathB, queryB, fragmentB⟩ := b
  simp only [key, List.cons.injEq, Option.some.injEq] at same
  obtain ⟨rfl, rfl, rfl, rfl, path⟩ := same
  have samePath : pathA = pathB := by
    cases pathA with
    | rootless textA =>
      cases pathB with
      | rootless textB => simpa using path
      | rooted segmentsB => cases segmentsB <;> simp at path
    | rooted segmentsA =>
      cases pathB with
      | rootless textB => cases segmentsA <;> simp at path
      | rooted segmentsB =>
        exact congrArg _ ((List.map_inj_right fun _ _ h => Option.some.inj h).mp path)
  rw [samePath]

def compare : Uri → Uri → Ordering :=
  compareOn key

instance : Std.TransCmp compare :=
  inferInstanceAs (Std.TransCmp (compareOn key))

instance : Std.LawfulEqCmp compare where
  compare_self := Std.ReflCmp.compare_self
  eq_of_compare {a b} h := key_injective a b (Std.LawfulEqCmp.eq_of_compare h)

def host (uri : Uri) : String :=
  let authority := (uri.authority.getD "").toList
  let afterUser := (authority.reverse.takeWhile (· ≠ '@')).reverse
  match afterUser with
  | '[' :: _ => String.ofList afterUser
  | _ => String.ofList (afterUser.takeWhile (· ≠ ':'))

/-- A path that ends in a drive letter is closed with a slash. -/
def closeDrive (bytes : Bytes) : Bytes :=
  match bytes.reverse with
  | mark :: letter :: _ :: _ =>
    if (mark == 0x3a || mark == 0x7c) && (Char.ofNat letter.toNat).isAlpha && letter < 0x80 then
      bytes ++ [Path.slash]
    else bytes
  | _ => bytes

/-- The file path of a document: it has a rooted path and is on no other host. The scheme, the query
and the fragment play no part. -/
def toPath? (uri : Uri) : Option Path :=
  match uri.path with
  | .rootless _ => none
  | .rooted [] => none
  | .rooted segments =>
    if uri.host = "" ∨ uri.host = "localhost" then
      some ⟨closeDrive (segments.flatMap fun s => Path.slash :: Percent.decode s.toList)⟩
    else none

/-- The canonical identifier of the file with an absolute path. -/
def ofPath (path : Path) : Uri where
  scheme := "file"
  authority := some ""
  path :=
    match path.components.drop 1 with
    | [] => .rooted [""]
    | parts =>
      .rooted (parts.map fun part =>
        String.ofList (Percent.encode Percent.escapedInName part.bytes))
  query := none
  fragment := none

end Uri

abbrev UriMap (α : Type) := Std.ExtTreeMap Uri α Uri.compare

end AsmIndex
