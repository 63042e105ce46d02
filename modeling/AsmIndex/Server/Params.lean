import AsmIndex.Server.State
import AsmIndex.Uri.Reader

namespace AsmIndex

inductive ParamsError
  | absent
  | notExpected (params : Json)
  | missingField (name : String)
  | invalidType (found expected : String)
  | invalidValue (found expected : String)
  | invalidLength (count : Nat) (expected : String)
  | unknownVariant (found expected : String)
  | noVariant (type : String)
  | badUri (problem : UriError) (text : String)

def ParamsError.message : ParamsError → String
  | .absent => "Missing params field"
  | .notExpected params => "Unexpected params: " ++ params.render
  | .missingField name => "missing field `" ++ name ++ "`"
  | .invalidType found expected => "invalid type: " ++ found ++ ", expected " ++ expected
  | .invalidValue found expected => "invalid value: " ++ found ++ ", expected " ++ expected
  | .invalidLength count expected =>
    "invalid length " ++ toString count ++ ", expected " ++ expected
  | .unknownVariant found expected => "unknown variant `" ++ found ++ "`, expected " ++ expected
  | .noVariant type => "data did not match any variant of untagged enum " ++ type
  | .badUri problem text => problem.message ++ ": " ++ Text.quoted text

namespace Params

abbrev Decoder (α : Type) := Json → Except ParamsError α

def kindName : Json → String
  | .null => "null"
  | .bool value => "boolean `" ++ (if value then "true" else "false") ++ "`"
  | .number (.integer value) => "integer `" ++ toString value ++ "`"
  | .number (.real value) => "floating point `" ++ value.compactText ++ "`"
  | .string value => "string " ++ Text.quoted value
  | .array _ => "sequence"
  | .object _ => "map"

def refuse {α : Type} (value : Json) (expected : String) : Except ParamsError α :=
  .error (.invalidType (kindName value) expected)

def anything : Decoder Json :=
  .ok

def nothing : Decoder Unit
  | .null => .ok ()
  | other => refuse other "unit"

def text : Decoder String
  | .string value => .ok value
  | other => refuse other "a string"

def flag : Decoder Bool
  | .bool value => .ok value
  | other => refuse other "a boolean"

def number (low high : Int) (type : String) : Decoder Int
  | .number (.integer value) =>
    if low ≤ value ∧ value < high then .ok value
    else .error (.invalidValue (kindName (.number (.integer value))) type)
  | other => refuse other type

def unsigned (value : Json) : Except ParamsError UInt32 := do
  return (← number 0 0x100000000 "u32" value).toNat.toUInt32

def signed : Decoder Int :=
  number (-0x80000000) 0x80000000 "i32"

def uri : Decoder Uri
  | .string value =>
    match Uri.parse value with
    | .ok uri => .ok uri
    | .error problem => .error (.badUri problem value)
  | other => refuse other "a string representing an URL"

def list {α : Type} (item : Decoder α) : Decoder (List α)
  | .array items => items.mapM item
  | other => refuse other "a sequence"

def nullable {α : Type} (inner : Decoder α) : Decoder (Option α)
  | .null => .ok none
  | other => do return some (← inner other)

def find {α : Type} (params : Json) (name : String) (decoder : Decoder α) :
    Except ParamsError (Option α) :=
  match params.field? name with
  | some value => do return some (← decoder value)
  | none => .ok none

def require {α : Type} (name : String) : Option α → Except ParamsError α
  | some value => .ok value
  | none => .error (.missingField name)

def object (name : String) : Json → Except ParamsError Unit
  | .object _ => .ok ()
  | other => refuse other ("struct " ++ name)

inductive Surplus
  | counted
  | fewer

def Surplus.expected (surplus : Surplus) (count : Nat) : String :=
  match surplus with
  | .counted => elements count ++ " in sequence"
  | .fewer => "fewer elements in array"
where
  elements (count : Nat) : String :=
    if count = 1 then "1 element" else toString count ++ " elements"

abbrev Field := String × Decoder Unit

def field {α : Type} (name : String) (decoder : Decoder α) : Field :=
  (name, fun value => do let _ ← decoder value)

/-- The items of an array checked against the fields, in order. A fault in an item comes before a wrong
length. -/
def checkItems (name : String) (surplus : Surplus) (fields : List Field) (items : List Json) :
    Except ParamsError Unit := do
  (fields.zip items).forM fun ((_, check), item) => check item
  if items.length < fields.length then
    throw (.invalidLength items.length
      ("struct " ++ name ++ " with " ++ Surplus.expected.elements fields.length))
  if fields.length < items.length then
    throw (.invalidLength items.length (surplus.expected fields.length))

/-- An object, or an array with the fields in the order in which they are declared. -/
def struct (name : String) (surplus : Surplus) (fields : List Field) (value : Json) :
    Except ParamsError Json :=
  match value with
  | .object given => .ok (.object given)
  | .array items => do
    checkItems name surplus fields items
    return .object ((fields.map Prod.fst).zip items)
  | other => refuse other ("struct " ++ name)

def position (value : Json) : Except ParamsError Position := do
  let value ← struct "Position" .counted [field "line" unsigned, field "character" unsigned] value
  let character? ← find value "character" unsigned
  let line? ← find value "line" unsigned
  let line ← require "line" line?
  let character ← require "character" character?
  return ⟨line, character⟩

def document (surplus : Surplus) (value : Json) : Except ParamsError Uri := do
  let value ← struct "TextDocumentIdentifier" surplus [field "uri" uri] value
  require "uri" (← find value "uri" uri)

def choices : List String → String
  | [] => "there are no variants"
  | [one] => "`" ++ one ++ "`"
  | [one, other] => "`" ++ one ++ "` or `" ++ other ++ "`"
  | names => "one of " ++ ", ".intercalate (names.map fun name => "`" ++ name ++ "`")

def choose (names : List String) (name : String) : Except ParamsError Unit :=
  if names.contains name then .ok () else .error (.unknownVariant name (choices names))

def variant (names : List String) : Decoder Unit
  | .string name => choose names name
  | .object [(name, value)] => do
    choose names name
    nothing value
  | .object _ => .error (.invalidValue "map" "map with a single key")
  | other => refuse other "string or map"

def progressToken : Decoder Unit
  | .string _ | .null => .ok ()
  | value =>
    match signed value with
    | .ok _ => .ok ()
    | .error _ => .error (.noVariant "NumberOrString")

def progress (params : Json) (names : List String) : Except ParamsError Unit :=
  names.forM fun name => do
    let _ ← find params name progressToken

def place (params : Json) : Except ParamsError (Uri × Position) := do
  let position? ← find params "position" position
  let document? ← find params "textDocument" (document .counted)
  let uri ← require "textDocument" document?
  let position ← require "position" position?
  return (uri, position)

def hover (params : Json) : Except ParamsError Query := do
  object "HoverParams" params
  let (uri, position) ← place params
  progress params ["workDoneToken"]
  return .hover uri position

def completionContext (value : Json) : Except ParamsError Unit := do
  let value ← struct "CompletionContext" .fewer
    [field "triggerKind" signed, field "triggerCharacter" (nullable text)] value
  let _ ← find value "triggerCharacter" (nullable text)
  let kind? ← find value "triggerKind" signed
  let _ ← require "triggerKind" kind?

def completion (params : Json) : Except ParamsError Query := do
  object "CompletionParams" params
  let _ ← find params "context" (nullable completionContext)
  let (uri, position) ← place params
  progress params ["workDoneToken", "partialResultToken"]
  return .completion uri position

def definition (params : Json) : Except ParamsError Query := do
  object "GotoDefinitionParams" params
  let (uri, position) ← place params
  progress params ["workDoneToken", "partialResultToken"]
  return .definition uri position

def ofDocument (name : String) (query : Uri → Query) (params : Json) :
    Except ParamsError Query := do
  object name params
  let uri ← require "textDocument" (← find params "textDocument" (document .fewer))
  progress params ["workDoneToken", "partialResultToken"]
  return query uri

def tokens : Decoder Query :=
  ofDocument "SemanticTokensParams" Query.tokens

def outline : Decoder Query :=
  ofDocument "DocumentSymbolParams" Query.outline

def search (params : Json) : Except ParamsError Query := do
  object "WorkspaceSymbolParams" params
  let query ← require "query" (← find params "query" text)
  progress params ["partialResultToken", "workDoneToken"]
  return .search query

def openedDocument (value : Json) : Except ParamsError (Uri × String) := do
  let value ← struct "TextDocumentItem" .fewer
    [field "uri" uri, field "languageId" text, field "version" signed, field "text" text] value
  let language? ← find value "languageId" text
  let text? ← find value "text" text
  let uri? ← find value "uri" uri
  let version? ← find value "version" signed
  let uri ← require "uri" uri?
  let _ ← require "languageId" language?
  let _ ← require "version" version?
  return (uri, ← require "text" text?)

def opened (params : Json) : Except ParamsError Event := do
  let params ← struct "DidOpenTextDocumentParams" .fewer
    [field "textDocument" openedDocument] params
  let (uri, text) ← require "textDocument" (← find params "textDocument" openedDocument)
  return .opened uri text

def range (value : Json) : Except ParamsError Unit := do
  let value ← struct "Range" .fewer [field "start" position, field "end" position] value
  let stop? ← find value "end" position
  let start? ← find value "start" position
  let _ ← require "start" start?
  let _ ← require "end" stop?

def change (value : Json) : Except ParamsError String := do
  let value ← struct "TextDocumentContentChangeEvent" .fewer
    [field "range" (nullable range), field "rangeLength" (nullable unsigned), field "text" text]
    value
  let _ ← find value "range" (nullable range)
  let _ ← find value "rangeLength" (nullable unsigned)
  require "text" (← find value "text" text)

def versionedDocument (value : Json) : Except ParamsError Uri := do
  let value ← struct "VersionedTextDocumentIdentifier" .fewer
    [field "uri" uri, field "version" signed] value
  let uri? ← find value "uri" uri
  let version? ← find value "version" signed
  let uri ← require "uri" uri?
  let _ ← require "version" version?
  return uri

def changed (params : Json) : Except ParamsError Event := do
  let params ← struct "DidChangeTextDocumentParams" .fewer
    [field "textDocument" versionedDocument, field "contentChanges" (list change)] params
  let changes? ← find params "contentChanges" (list change)
  let document? ← find params "textDocument" versionedDocument
  let uri ← require "textDocument" document?
  return .changed uri (← require "contentChanges" changes?)

def closed (params : Json) : Except ParamsError Event := do
  let params ← struct "DidCloseTextDocumentParams" .fewer
    [field "textDocument" (document .fewer)] params
  return .closed (← require "textDocument" (← find params "textDocument" (document .fewer)))

def createdCode : Int := 1

def fileChange (value : Json) : Except ParamsError FileChange := do
  let value ← struct "FileEvent" .fewer [field "uri" uri, field "type" signed] value
  let kind? ← find value "type" signed
  let uri? ← find value "uri" uri
  let uri ← require "uri" uri?
  return ⟨uri, (← require "type" kind?) == createdCode⟩

def filesChanged (params : Json) : Except ParamsError Event := do
  let params ← struct "DidChangeWatchedFilesParams" .fewer
    [field "changes" (list fileChange)] params
  return .filesChanged (← require "changes" (← find params "changes" (list fileChange)))

def configured (params : Json) : Except ParamsError Event := do
  let params ← struct "DidChangeConfigurationParams" .fewer
    [field "settings" anything] params
  return .configured (← require "settings" (← find params "settings" anything))

def fullRequests : Decoder Unit
  | .null | .bool _ => .ok ()
  | value =>
    match value.field? "delta" with
    | some (.bool _) | some .null => .ok ()
    | some _ => .error (.noVariant "SemanticTokensFullOptions")
    | none =>
      match value with
      | .object _ => .ok ()
      | _ => .error (.noVariant "SemanticTokensFullOptions")

def tokenRequests (value : Json) : Except ParamsError Unit := do
  let value ← struct "SemanticTokensClientCapabilitiesRequests" .fewer
    [field "range" (nullable flag), field "full" fullRequests] value
  let _ ← find value "full" fullRequests
  let _ ← find value "range" (nullable flag)

def tokenSupport (value : Json) : Except ParamsError Unit := do
  object "SemanticTokensClientCapabilities" value
  let _ ← find value "augmentsSyntaxTokens" (nullable flag)
  let _ ← find value "dynamicRegistration" (nullable flag)
  let formats? ← find value "formats" (list (variant ["relative"]))
  let _ ← find value "multilineTokenSupport" (nullable flag)
  let _ ← find value "overlappingTokenSupport" (nullable flag)
  let requests? ← find value "requests" tokenRequests
  let _ ← find value "serverCancelSupport" (nullable flag)
  let modifiers? ← find value "tokenModifiers" (list text)
  let types? ← find value "tokenTypes" (list text)
  require "requests" requests?
  let _ ← require "tokenTypes" types?
  let _ ← require "tokenModifiers" modifiers?
  let _ ← require "formats" formats?

def textDocumentSupport (value : Json) : Except ParamsError TextDocumentSupport := do
  object "TextDocumentClientCapabilities" value
  let tokens? ← find value "semanticTokens" (nullable tokenSupport)
  return ⟨tokens?.join.isSome⟩

def capabilities (value : Json) : Except ParamsError Capabilities := do
  object "ClientCapabilities" value
  let document? ← find value "textDocument" (nullable textDocumentSupport)
  return ⟨document?.join⟩

structure Start where
  capabilities : Capabilities
  client : ClientSettings
  root? : Option Path

def clientInfo (value : Json) : Except ParamsError Unit := do
  let value ← struct "ClientInfo" .fewer [field "name" text, field "version" (nullable text)] value
  let name? ← find value "name" text
  let _ ← find value "version" (nullable text)
  let _ ← require "name" name?

def folder (value : Json) : Except ParamsError Uri := do
  let value ← struct "WorkspaceFolder" .fewer [field "uri" uri, field "name" text] value
  let name? ← find value "name" text
  let uri? ← find value "uri" uri
  let uri ← require "uri" uri?
  let _ ← require "name" name?
  return uri

def trace : Decoder Unit :=
  variant ["off", "messages", "verbose"]

def startFields : List Field := [
  field "processId" (nullable unsigned),
  field "rootPath" (nullable text),
  field "rootUri" (nullable uri),
  field "initializationOptions" anything,
  field "capabilities" capabilities,
  field "trace" (nullable trace),
  field "workspaceFolders" (nullable (list folder)),
  field "clientInfo" (nullable clientInfo),
  field "locale" (nullable text)]

/-- The first workspace folder is the root, and without folders the root that is given. -/
def start (params : Json) : Except ParamsError Start := do
  let params ← struct "InitializeParams" .fewer startFields params
  let capabilities? ← find params "capabilities" capabilities
  let _ ← find params "clientInfo" (nullable clientInfo)
  let options? ← find params "initializationOptions" (nullable anything)
  let _ ← find params "locale" (nullable text)
  let _ ← find params "processId" (nullable unsigned)
  let _ ← find params "rootPath" (nullable text)
  let root? ← find params "rootUri" (nullable uri)
  let _ ← find params "trace" (nullable trace)
  let folders? ← find params "workspaceFolders" (nullable (list folder))
  let capabilities ← require "capabilities" capabilities?
  let rootUri? := (folders?.join.bind List.head?).or root?.join
  return {
    capabilities := capabilities
    client := (options?.join.map ClientSettings.ofJson).getD ClientSettings.empty
    root? := rootUri?.bind Uri.toPath? }

end Params

end AsmIndex
