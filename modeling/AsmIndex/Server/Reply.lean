import AsmIndex.Server.State

namespace AsmIndex

namespace Reply

def positionJson (line character : UInt32) : Json :=
  .object [("character", .nat character.toNat), ("line", .nat line.toNat)]

def rangeJson (line start stop : UInt32) : Json :=
  .object [("end", positionJson line stop), ("start", positionJson line start)]

def locationJson (location : Location) : Json :=
  .object [("range", rangeJson location.line 0 0), ("uri", .string location.uri.text)]

def hoverJson (hover : Hover) : Json :=
  .object [
    ("contents", .object [("kind", .string "markdown"), ("value", .string hover.value)]),
    ("range", rangeJson hover.line hover.start hover.stop)]

def itemJson (item : CompletionItem) : Json :=
  .object [("detail", .string item.detail), ("kind", .nat item.kind.code),
    ("label", .string item.label)]

def itemsJson (items : List CompletionItem) : Json :=
  .object [("isIncomplete", .bool false), ("items", .array (items.map itemJson))]

def tokensJson (tokens : List TokenDelta) : Json :=
  .object [("data", .array ((tokens.flatMap TokenDelta.numbers).map .nat))]

def outlineJson (symbol : Symbol) : Json :=
  let range := rangeJson symbol.location.line 0 0
  let detail := (symbol.detail?.map fun detail => ("detail", Json.string detail)).toList
  .object (detail ++ [("kind", .nat symbol.kind.code), ("name", .string symbol.name),
    ("range", range), ("selectionRange", range)])

def symbolJson (symbol : Symbol) : Json :=
  .object [("kind", .nat symbol.kind.code), ("location", locationJson symbol.location),
    ("name", .string symbol.name)]

def orNull {α : Type} (encode : α → Json) : Option α → Json
  | some value => encode value
  | none => .null

def toJson : Reply → Json
  | .hover hover? => orNull hoverJson hover?
  | .completion items? => orNull itemsJson items?
  | .definition location? => orNull (fun location => .array [locationJson location]) location?
  | .tokens tokens? => orNull tokensJson tokens?
  | .outline symbols? => orNull (fun symbols => .array (symbols.map outlineJson)) symbols?
  | .search symbols => .array (symbols.map symbolJson)

end Reply

def TokenKind.legend : Json :=
  .object [("tokenModifiers", .array []),
    ("tokenTypes", .array (TokenKind.all.map fun kind => .string kind.typeName))]

def Server.offer (server : Server) : Json :=
  let tokens := ("semanticTokensProvider", Json.object [("full", .bool true),
    ("legend", TokenKind.legend), ("range", .bool false)])
  let capabilities := Json.object ([
    ("completionProvider", .object [("resolveProvider", .bool false),
      ("triggerCharacters", .array [.string "%", .string "#"])]),
    ("definitionProvider", .bool true),
    ("documentSymbolProvider", .bool true),
    ("hoverProvider", .bool true)] ++
    (if server.settings.semanticTokens then [tokens] else []) ++
    [("textDocumentSync", .nat 1), ("workspaceSymbolProvider", .bool true)])
  .object [("capabilities", capabilities),
    ("serverInfo", .object [("name", .string "gas-macro-lsp"), ("version", .string "0.1.0")])]

inductive Severity
  | error
  | info
deriving DecidableEq

def Severity.code : Severity → Nat
  | .error => 1
  | .info => 3

inductive Notice
  | watchFiles (id : Nat)
  | log (severity : Severity) (message : String)
deriving DecidableEq

namespace Notice

def watchedFiles : String := "**/*.\x7bs,S,asm,h,inc\x7d"

def ofProblem (problem : SettingsError) : Notice :=
  .log .error ("Failed to load settings: " ++ problem.message)

def ready : Notice :=
  .log .info "GNU assembler macro language server initialized"

def registration : Json :=
  .object [("id", .string "gas-macro-lsp-file-watcher"),
    ("method", .string "workspace/didChangeWatchedFiles"),
    ("registerOptions", .object [
      ("watchers", .array [.object [("globPattern", .string watchedFiles)]])])]

def toJson : Notice → Json
  | .watchFiles id =>
    .object [("id", .nat id), ("method", .string "client/registerCapability"),
      ("params", .object [("registrations", .array [registration])])]
  | .log severity message =>
    .object [("method", .string "window/logMessage"),
      ("params", .object [("message", .string message), ("type", .nat severity.code)])]

end Notice

end AsmIndex
