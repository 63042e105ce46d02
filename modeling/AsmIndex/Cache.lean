import AsmIndex.Include
import AsmIndex.Symbol.Scan

namespace AsmIndex

structure Entry where
  table : SymbolTable
  dependencies : List Uri
deriving DecidableEq

structure Cache where
  entries : UriMap Entry
  includePaths : List Path

namespace Cache

def empty : Cache :=
  ⟨∅, []⟩

def entry? (cache : Cache) (uri : Uri) : Option Entry :=
  cache.entries[uri]?

def contains (cache : Cache) (uri : Uri) : Bool :=
  cache.entries.contains uri

def store (cache : Cache) (uri : Uri) (entry : Entry) : Cache :=
  { cache with entries := cache.entries.insert uri entry }

def setIncludePaths (cache : Cache) (paths : List Path) : Cache :=
  { cache with includePaths := paths }

def delete (cache : Cache) (uri : Uri) : Cache :=
  { cache with entries := cache.entries.erase uri }

def retain (cache : Cache) (keep : Uri → Bool) : Cache :=
  { cache with entries := cache.entries.filter fun uri _ => keep uri }

def clear (cache : Cache) : Cache :=
  { cache with entries := ∅ }

def scanEntry (cache : Cache) (machine : Machine) (uri : Uri) (text : String) : Entry where
  table := scan text uri
  dependencies :=
    let dir? := uri.toPath?.bind Path.parent?
    ((Scan.includes text).filterMap (Include.resolve? machine dir? cache.includePaths)).map
      Uri.ofPath

def update (cache : Cache) (machine : Machine) (uri : Uri) (text : String) : Cache :=
  cache.store uri (cache.scanEntry machine uri text)

def updateAll (cache : Cache) (machine : Machine) (texts : List (Uri × String)) : Cache :=
  texts.foldl (fun cache (uri, text) => cache.update machine uri text) cache

/-- The entry of a document as it stands on disk. There is none without a regular file, nor if reading the file
fails. -/
def load? (cache : Cache) (machine : Machine) (uri : Uri) : Option Entry :=
  match uri.toPath? with
  | none => none
  | some path =>
    if machine.isFile path then
      match machine.read? path with
      | some bytes => some (cache.scanEntry machine uri (Utf8.decodeString bytes))
      | none => none
    else none

def effective? (cache : Cache) (machine : Machine) (uri : Uri) : Option Entry :=
  (cache.entry? uri).or (cache.load? machine uri)

/-- The symbols seen from a document, and the cache with what was loaded for them. A document's own macros are
laid down first and those of its includes over them in order, so an include can shadow a macro of the document
that includes it; the labels are the document's own. A document on the path or without an entry shows nothing. -/
def visit? (machine : Machine) (path : List Uri) (cache : Cache) (uri : Uri) :
    Option (SymbolTable × Cache) :=
  if uri ∈ path then some (.empty, cache)
  else
    match cache.effective? machine uri with
    | none => some (.empty, cache)
    | some entry => do
      let (macros, last) ← entry.dependencies.foldlM
        (fun (macros, cache) dependency => do
          let (included, next) ← cache |>.visit? machine (uri :: path) dependency
          return (macros ∪ included.macros, next))
        (entry.table.macros, cache.store uri entry)
      return ({ entry.table with macros }, last)
partial_fixpoint

/-- Every visit comes to an end (`visit?_eq_get`), so the default is never taken. -/
def get (cache : Cache) (machine : Machine) (uri : Uri) : SymbolTable × Cache :=
  (visit? machine [] cache uri).getD (.empty, cache)

end Cache

end AsmIndex
