import AsmIndex.Editor.Completion
import AsmIndex.Editor.Definition
import AsmIndex.Editor.Highlight
import AsmIndex.Editor.Hover
import AsmIndex.Editor.Outline
import AsmIndex.Editor.Search
import AsmIndex.Settings.IncludePath
import AsmIndex.Settings.Layer

namespace AsmIndex

structure Server where
  cache : Cache
  buffers : UriMap String
  settings : Settings
  root? : Option Path
  capabilities : Capabilities

/-- A file that was created, or else changed or deleted, on disk. -/
structure FileChange where
  uri : Uri
  created : Bool
deriving DecidableEq

inductive Event
  | opened (uri : Uri) (text : String)
  | changed (uri : Uri) (texts : List String)
  | closed (uri : Uri)
  | filesChanged (changes : List FileChange)
  | configured (values : Json)

inductive Query
  | hover (uri : Uri) (position : Position)
  | completion (uri : Uri) (position : Position)
  | definition (uri : Uri) (position : Position)
  | tokens (uri : Uri)
  | outline (uri : Uri)
  | search (text : String)
deriving DecidableEq

inductive Reply
  | hover (hover? : Option Hover)
  | completion (items? : Option (List CompletionItem))
  | definition (location? : Option Location)
  | tokens (tokens? : Option (List TokenDelta))
  | outline (symbols? : Option (List Symbol))
  | search (symbols : List Symbol)
deriving DecidableEq

namespace Server

def new : Server where
  cache := .empty
  buffers := ∅
  settings := .fallback
  root? := none
  capabilities := ⟨none⟩

/-- The settings made anew from the files and the client. When they cannot be read the fallback holds, and
the problem is reported. Cached entries are left alone. -/
def bindSettings (server : Server) (machine : Machine) (client : ClientSettings) :
    Server × Option SettingsError :=
  let loaded :=
    Settings.load machine (server.root?.getD machine.cwd) server.capabilities client
  let (settings, problem?) :=
    match loaded with
    | .ok settings => (settings, none)
    | .error problem => (Settings.fallback, some problem)
  let cache := server.cache.setIncludePaths (settings.searchDirs machine server.root?)
  ({ server with cache, settings }, problem?)

def setUp (server : Server) (machine : Machine) (root? : Option Path)
    (capabilities : Capabilities) (client : ClientSettings) : Server × Option SettingsError :=
  { server with root?, capabilities }.bindSettings machine client

def setBuffer (server : Server) (machine : Machine) (uri : Uri) (text : String) : Server :=
  { server with
    buffers := server.buffers.insert uri text
    cache := server.cache.update machine uri text }

def dropChanged (buffers : UriMap String) (cache : Cache) (change : FileChange) : Cache :=
  if change.created || buffers.contains change.uri then cache else cache.delete change.uri

/-- A new file may satisfy an include that failed before, in any document. Entries from disk are
dropped, and open buffers are scanned again. -/
def applyChanges (server : Server) (machine : Machine) (walk : List (Uri × String))
    (changes : List FileChange) : Cache :=
  let cache := changes.foldl (dropChanged server.buffers) server.cache
  if changes.any FileChange.created then
    (cache.retain fun uri => server.buffers.contains uri).updateAll machine walk
  else cache

/-- Where all buffers are scanned again, they are taken in the order of the walk. -/
def handleAlong (server : Server) (machine : Machine) (walk : List (Uri × String)) (event : Event) :
    Server × Option SettingsError :=
  match event with
  | .opened uri text => (server.setBuffer machine uri text, none)
  | .changed uri texts =>
    match texts.getLast? with
    | some text => (server.setBuffer machine uri text, none)
    | none => (server, none)
  | .closed uri =>
    ({ server with buffers := server.buffers.erase uri, cache := server.cache.delete uri }, none)
  | .filesChanged changes => ({ server with cache := server.applyChanges machine walk changes }, none)
  | .configured values =>
    let (server, problem?) := server.bindSettings machine (.ofJson values)
    ({ server with cache := server.cache.clear.updateAll machine walk }, problem?)

def handle (server : Server) (machine : Machine) (event : Event) : Server × Option SettingsError :=
  server.handleAlong machine server.buffers.toList event

def withBuffer {α : Type} (server : Server) (machine : Machine) (uri : Uri)
    (answer : String → SymbolTable → α) : Option α × Server :=
  match server.buffers[uri]? with
  | none => (none, server)
  | some text =>
    let (table, cache) := server.cache.get machine uri
    (some (answer text table), { server with cache })

def answer (server : Server) (machine : Machine) (query : Query) : Reply × Server :=
  match query with
  | .hover uri position =>
    let (hover, server) := server.withBuffer machine uri fun text table =>
      hover? table text position server.settings server.root?
    (.hover hover.join, server)
  | .completion uri position =>
    let (items, server) := server.withBuffer machine uri fun text table =>
      completions table text position server.settings
    (.completion items, server)
  | .definition uri position =>
    let (location, server) := server.withBuffer machine uri fun text table =>
      definition? table text position
    (.definition location.join, server)
  | .tokens uri =>
    if server.settings.semanticTokens then
      let (deltas, server) := server.withBuffer machine uri fun text table =>
        TokenDelta.encode (tokens table text)
      (.tokens deltas, server)
    else (.tokens none, server)
  | .outline uri =>
    let (table, cache) := server.cache.get machine uri
    (.outline (outline? table uri), { server with cache })
  | .search text => (.search (search server.cache text), server)

end Server

end AsmIndex
