import AsmIndex.Text.Utf8

namespace AsmIndex

structure Path where
  bytes : Bytes
deriving DecidableEq

namespace Path

inductive Component
  | root
  | here
  | up
  | name (bytes : Bytes)
deriving DecidableEq

def slash : UInt8 := 0x2f

def dot : UInt8 := 0x2e

def ofString (s : String) : Path :=
  ⟨Utf8.encodeString s⟩

def display (path : Path) : String :=
  Utf8.decodeString path.bytes

def text? (path : Path) : Option String :=
  (Utf8.decode? path.bytes).map String.ofList

def isAbsolute (path : Path) : Bool :=
  path.bytes.head? == some slash

def split : Bytes → List Bytes
  | [] => [[]]
  | b :: rest =>
    if b = slash then [] :: split rest
    else
      match split rest with
      | [] => [[b]]
      | piece :: pieces => (b :: piece) :: pieces

def Component.ofPiece (piece : Bytes) : Component :=
  if piece = [] ∨ piece = [dot] then .here
  else if piece = [dot, dot] then .up
  else .name piece

def steps (path : Path) : List Component :=
  (split path.bytes).map Component.ofPiece

/-- A dot counts only at the start of a relative path, and empty pieces count nowhere. -/
def components (path : Path) : List Component :=
  let pieces := split path.bytes
  let start :=
    if path.isAbsolute then [.root] else if pieces.head? = some [dot] then [.here] else []
  start ++ path.steps.filter (· ≠ .here)

def Component.bytes : Component → Bytes
  | .root => []
  | .here => [dot]
  | .up => [dot, dot]
  | .name bytes => bytes

def ofComponents : List Component → Path
  | .root :: rest => ⟨slash :: [slash].intercalate (rest.map Component.bytes)⟩
  | parts => ⟨[slash].intercalate (parts.map Component.bytes)⟩

def join (dir path : Path) : Path :=
  if path.isAbsolute then path
  else if dir.bytes = [] ∨ dir.bytes.getLast? = some slash then ⟨dir.bytes ++ path.bytes⟩
  else ⟨dir.bytes ++ slash :: path.bytes⟩

def parent? (path : Path) : Option Path :=
  match path.components.reverse with
  | [] => none
  | .root :: _ => none
  | _ :: rest => some (ofComponents rest.reverse)

/-- The names below the root after one more component. Going up from the root stays there. -/
def enter (names : List Bytes) : Component → List Bytes
  | .root => []
  | .here => names
  | .up => names.dropLast
  | .name bytes => names ++ [bytes]

def settle (parts : List Component) : List Bytes :=
  parts.foldl enter []

def ofNames (names : List Bytes) : Path :=
  if names = [] then ⟨[slash]⟩ else ⟨names.flatMap (slash :: ·)⟩

def absolutize (cwd path : Path) : Path :=
  ofNames (settle (cwd.join path).components)

def leadFrom? : Bool → List Component → List Component → Option (List Component)
  | _, [], base => some (base.map fun _ => .up)
  | _, parts, [] => some parts
  | sharing, part :: parts, step :: base =>
    if sharing ∧ part = step then leadFrom? true parts base
    else
      match step with
      | .here => (leadFrom? false parts base).map (part :: ·)
      | .up => none
      | _ => some (.up :: base.map (fun _ => .up) ++ part :: parts)

/-- The path as seen from the base. A relative path is not seen from an absolute base. -/
def relativeTo? (path base : Path) : Option Path :=
  if path.isAbsolute = base.isAbsolute then
    (leadFrom? true path.components base.components).map ofComponents
  else if path.isAbsolute then some path
  else none

def startsUp (path : Path) : Bool :=
  path.components.head? == some .up

end Path

end AsmIndex
