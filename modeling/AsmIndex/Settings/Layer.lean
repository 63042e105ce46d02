import AsmIndex.Disk
import AsmIndex.Format.Toml
import AsmIndex.Format.Yaml
import AsmIndex.Json.Reader
import AsmIndex.Settings.Basic
import AsmIndex.Settings.Client
import AsmIndex.Text.Lowercase
import AsmIndex.Text.Quoted

namespace AsmIndex

structure TextDocumentSupport where
  semanticTokens : Bool
deriving DecidableEq

structure Capabilities where
  textDocument? : Option TextDocumentSupport
deriving DecidableEq

inductive SettingsError
  | rootNotText
  | malformedFile
  | wrongType (found expected : String) (key? origin? : Option String)
deriving DecidableEq

def SettingsError.message : SettingsError → String
  | .rootNotText => "Can't convert root_dir to str"
  | .malformedFile => "Build err"
  | .wrongType found expected key? origin? =>
    let key := match key? with
      | some key => " for key `" ++ key ++ "`"
      | none => ""
    let origin := match origin? with
      | some origin => " in " ++ origin
      | none => ""
    "invalid type: " ++ found ++ ", expected " ++ expected ++ key ++ origin

namespace Settings

structure Sourced where
  value : ConfigValue
  origin? : Option String

abbrev Layers := Std.ExtTreeMap String Sourced compare

/-- An incoming value over a held one. An empty table leaves what is held, and a merged table comes
from no single file. -/
def overlay (held : Option Sourced) (incoming : Sourced) : Sourced :=
  match incoming.value, held with
  | .table [], some held => held
  | .table fields, some ⟨.table below, _⟩ => ⟨.table (below ++ fields), none⟩
  | .table fields, _ => ⟨.table fields, none⟩
  | _, _ => incoming

def set (layers : Layers) (key : String) (incoming : Sourced) : Layers :=
  let key := String.ofList (Text.lowercase key.toList)
  layers.insert key (overlay layers[key]? incoming)

abbrev Fields := List (String × Sourced)

-- Fields whose keys differ in case alone are taken in the order in which they are given.
def lay (layers : Layers) (fields : Fields) : Layers :=
  fields.foldl (fun layers field => set layers field.1 field.2) layers

def defaultFields : List (String × Sourced) :=
  [("include_paths", ⟨.list [], none⟩), ("hover", ⟨.boolean true, none⟩),
    ("semantic_tokens", ⟨.boolean true, none⟩),
    ("instruction_completions", ⟨.boolean true, none⟩)]

def defaults : Layers :=
  .ofList defaultFields

/-- A format of settings files. A text has to be a table at its top level, and reading it gives the fields. A key
that leads into a table is given as that table. -/
structure FileFormat where
  extension : String
  parse? : List Char → Option (List (String × ConfigValue))

namespace FileFormat

def toml : FileFormat :=
  ⟨".toml", Toml.parse?⟩

def json : FileFormat where
  extension := ".json"
  parse? text :=
    match (Json.parse? (String.ofList text)).map ConfigValue.ofJson with
    | some (.table fields) => some fields
    | _ => none

def yaml (extension : String) : FileFormat :=
  ⟨extension, Yaml.parse?⟩

def known : List FileFormat :=
  [toml, json, yaml ".yaml", yaml ".yml"]

end FileFormat

/-- The settings file with a base name. A regular file with the bare name hides all others. -/
def file? (formats : List FileFormat) (machine : Machine) (base : Path) : Option (Path × FileFormat) :=
  let base := machine.cwd.join base
  if machine.isFile base then none
  else
    -- A directory is taken to hold one settings file; of several the first format counts.
    let candidates := formats.map fun format =>
      ((⟨base.bytes ++ Utf8.encodeString format.extension⟩ : Path), format)
    candidates.find? fun (path, _) => machine.isFile path

def fileFields (formats : List FileFormat) (machine : Machine) (base : Path) :
    Except SettingsError Fields :=
  match file? formats machine base with
  | none => .ok []
  | some (path, format) =>
    match (machine.read? path).bind Utf8.decode? with
    | none => .ok []
    | some text =>
      match format.parse? text with
      | none => .error .malformedFile
      | some fields =>
        let origin := ((path.relativeTo? machine.cwd).getD path).display
        .ok (fields.map fun field => (field.1, ⟨field.2, some origin⟩))

/-- A client that lists what it supports in text documents, but no semantic tokens, gets none. -/
def tokenChoice? (capabilities : Capabilities) (client : ClientSettings) : Option Bool :=
  match capabilities.textDocument? with
  | some support => if support.semanticTokens then client.semanticTokens? else some false
  | none => client.semanticTokens?

def clientFields (capabilities : Capabilities) (client : ClientSettings) : Fields :=
  (client.includePaths?.map fun paths => ("include_paths", ⟨.list (paths.map .text), none⟩)).toList ++
  ((client.hover?.map fun choice => ("hover", ⟨.boolean choice, none⟩)).toList ++
  ((client.instructionCompletions?.map fun choice =>
    ("instruction_completions", ⟨.boolean choice, none⟩)).toList ++
  ((tokenChoice? capabilities client).map fun choice => ("semantic_tokens", ⟨.boolean choice, none⟩)).toList))

def textKind (s : String) : String :=
  "string " ++ Text.quoted s

def kindName : ConfigValue → String
  | .nothing => "unit value"
  | .boolean value => "boolean `" ++ (if value then "true" else "false") ++ "`"
  | .integer value => "integer `" ++ toString value ++ "`"
  | .real value => "floating point `" ++ value.pointText ++ "`"
  | .text value => textKind value
  | .list _ => "sequence"
  | .table _ => "map"

/-- A switch: a truth value, a number that is not zero, or a word for one of them. -/
def readSwitch (layers : Layers) (key : String) : Except SettingsError Bool :=
  match layers[key]? with
  | none => .ok false
  | some ⟨value, origin?⟩ =>
    let refuse (found : String) : Except SettingsError Bool :=
      .error (.wrongType found "a boolean" (some key) origin?)
    match value with
    | .boolean value => .ok value
    | .integer value => .ok (value != 0)
    | .real value => .ok !value.isZero
    | .text value =>
      let word := String.ofList (Text.lowercase value.toList)
      if ["1", "true", "on", "yes"].contains word then .ok true
      else if ["0", "false", "off", "no"].contains word then .ok false
      else refuse (textKind word)
    | other => refuse (kindName other)

def readText (key : String) (origin? : Option String) (value : ConfigValue) :
    Except SettingsError String :=
  match value with
  | .text value => .ok value
  | .boolean value => .ok (if value then "true" else "false")
  | .integer value => .ok (toString value)
  | .real value => .ok value.text
  | other => .error (.wrongType (kindName other) "a string" (some key) origin?)

def readTexts (layers : Layers) (key : String) : Except SettingsError (List String) :=
  match layers[key]? with
  | none => .ok []
  | some ⟨.list items, origin?⟩ =>
    items.zipIdx.mapM fun (item, n) => readText (key ++ "[" ++ toString n ++ "]") origin? item
  | some ⟨other, _⟩ => .error (.wrongType (kindName other) "a sequence" none none)

def ofLayers (layers : Layers) : Except SettingsError Settings := do
  return ⟨← readTexts layers "include_paths", ← readSwitch layers "hover",
    ← readSwitch layers "semantic_tokens", ← readSwitch layers "instruction_completions"⟩

def userFile (machine : Machine) : Path :=
  ⟨machine.home.bytes ++ Utf8.encodeString "/.config/gas-macro-lsp/settings"⟩

def workspaceFile (root : Path) : Path :=
  ⟨root.bytes ++ Utf8.encodeString "/.gas-macro-lsp"⟩

def ofFields (layers : List Fields) : Except SettingsError Settings :=
  ofLayers (layers.foldl lay defaults)

def loadWith (formats : List FileFormat) (machine : Machine) (root : Path) (capabilities : Capabilities)
    (client : ClientSettings) : Except SettingsError Settings := do
  if root.text?.isNone then throw .rootNotText
  let user ← fileFields formats machine (userFile machine)
  let workspace ← fileFields formats machine (workspaceFile root)
  ofFields [user, workspace, clientFields capabilities client]

def load (machine : Machine) (root : Path) (capabilities : Capabilities) (client : ClientSettings) :
    Except SettingsError Settings :=
  loadWith FileFormat.known machine root capabilities client

end Settings

end AsmIndex
