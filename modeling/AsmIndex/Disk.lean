import AsmIndex.Path
import Std.Data.ExtTreeMap

namespace AsmIndex

/-- What a name stands for. Several names may stand for the same file. -/
inductive DiskNode
  | directory
  | file (id : Nat)
  | link (target : Path)
deriving DecidableEq

/-- The names below the root, and the bytes of the files. A file without bytes cannot be read. -/
structure Disk where
  nodes : Std.ExtTreeMap (List Bytes) DiskNode compare
  contents : Std.ExtTreeMap Nat Bytes compare

namespace Disk

def empty : Disk :=
  ⟨∅, ∅⟩

-- The root itself is always a directory.
def node? (disk : Disk) (names : List Bytes) : Option DiskNode :=
  if names = [] then some .directory else disk.nodes[names]?

/-- Where the steps lead from a place, up to the first link. There `jump` takes over, with the directory of the
link, its target and the steps that are left. -/
def walkWith (disk : Disk) (jump : List Bytes → Path → List Path.Component → Option (List Bytes)) :
    List Bytes → List Path.Component → Option (List Bytes)
  | place, [] => some place
  | place, step :: rest =>
    if disk.node? place = some .directory then
      match disk.node? (Path.enter place step) with
      | none => none
      | some (.link target) => jump place target rest
      | some _ => disk.walkWith jump (Path.enter place step) rest
    else none

def walk? (disk : Disk) : Nat → List Bytes → List Path.Component → Option (List Bytes)
  | 0 => disk.walkWith fun _ _ _ => none
  | links + 1 => disk.walkWith fun dir target rest =>
    disk.walk? links (if target.isAbsolute then [] else dir) (target.steps ++ rest)

/-- A path that leads through more links than this leads nowhere. -/
def linkLimit : Nat := 40

def place? (disk : Disk) (path : Path) : Option (List Bytes) :=
  disk.walk? linkLimit [] path.steps

def file? (disk : Disk) (cwd path : Path) : Option Nat :=
  match (disk.place? (cwd.join path)).bind disk.node? with
  | some (.file id) => some id
  | _ => none

def isFile (disk : Disk) (cwd path : Path) : Bool :=
  (disk.file? cwd path).isSome

def read? (disk : Disk) (cwd path : Path) : Option Bytes := do
  let id ← disk.file? cwd path
  disk.contents[id]?

/-- Where the last name of an absolute path stands. Links above it are followed, but not one at the name itself. -/
def site (disk : Disk) (path : Path) : List Bytes :=
  let names := Path.settle path.components
  match names.getLast?, disk.place? (Path.ofNames names.dropLast) with
  | some name, some dir => dir ++ [name]
  | _, _ => names

def put (disk : Disk) (path : Path) (node : DiskNode) : Disk :=
  let names := disk.site path
  let above := (List.range names.length).map fun n => names.take n
  let nodes := above.foldl (fun nodes place => nodes.insertIfNew place .directory) disk.nodes
  { disk with nodes := nodes.insert names node }

def overwrite (disk : Disk) (id : Nat) (content : Bytes) : Disk :=
  { disk with contents := disk.contents.insert id content }

def namedFiles (disk : Disk) : List Nat :=
  disk.nodes.toList.filterMap fun (_, node) =>
    match node with
    | .file id => some id
    | _ => none

def unusedId (disk : Disk) : Nat :=
  (disk.namedFiles ++ disk.contents.keys).foldl (fun bound id => max bound (id + 1)) 0

def write (disk : Disk) (path : Path) (content : Bytes) : Disk :=
  match disk.file? ⟨[Path.slash]⟩ path with
  | some id => disk.overwrite id content
  | none => (disk.put path (.file disk.unusedId)).overwrite disk.unusedId content

def remove (disk : Disk) (path : Path) : Disk :=
  let names := disk.site path
  { disk with nodes := disk.nodes.filter fun place _ => !names.isPrefixOf place }

end Disk

structure Machine where
  disk : Disk
  home : Path
  cwd : Path

namespace Machine

def isFile (machine : Machine) (path : Path) : Bool :=
  machine.disk.isFile machine.cwd path

def read? (machine : Machine) (path : Path) : Option Bytes :=
  machine.disk.read? machine.cwd path

def absolutize (machine : Machine) (path : Path) : Path :=
  Path.absolutize machine.cwd path

end Machine

end AsmIndex
