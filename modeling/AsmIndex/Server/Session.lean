import AsmIndex.Server.Params
import AsmIndex.Server.Reply

namespace AsmIndex

inductive Phase
  | uninitialized
  | running
  | shutDown
  | exited
deriving DecidableEq

structure Session where
  server : Server
  phase : Phase
  nextRequest : Nat

/-- A message of the client. One with an identifier is a request and is answered under it. -/
structure Message where
  method : String
  params? : Option Json
  id? : Option Json

inductive SessionError
  | notInitialized
  | invalidRequest
  | unknownMethod (method : String)
  | methodNotOffered
  | invalidParams (problem : ParamsError)

namespace SessionError

def code : SessionError → Int
  | .notInitialized => -32002
  | .invalidRequest => -32600
  | .unknownMethod _ => -32601
  | .methodNotOffered => -32601
  | .invalidParams _ => -32602

def message : SessionError → String
  | .notInitialized => "Server not initialized"
  | .invalidRequest => "Invalid request"
  | .unknownMethod _ => "Method not found"
  | .methodNotOffered => "Method not found"
  | .invalidParams problem => problem.message

def toJson (problem : SessionError) : Json :=
  let data := match problem with
    | .unknownMethod method => [("data", Json.string method)]
    | _ => []
  .object (("code", .int problem.code) :: data ++ [("message", .string problem.message)])

end SessionError

structure Outcome where
  answer? : Option (Except SessionError Json)
  sent : List Notice

namespace Outcome

def silent : Outcome :=
  ⟨none, []⟩

def responseJson (id : Json) : Except SessionError Json → Json
  | .ok result => .object [("id", id), ("result", result)]
  | .error problem => .object [("error", problem.toJson), ("id", id)]

end Outcome

inductive Method
  | start
  | initialized
  | shutdown
  | exit
  | cancel
  | event (read : Params.Decoder Event)
  | query (read : Params.Decoder Query)
  | otherRequest
  | otherNotification

namespace Method

def offered : List (String × Method) := [
  ("initialize", .start),
  ("initialized", .initialized),
  ("shutdown", .shutdown),
  ("exit", .exit),
  ("$/cancelRequest", .cancel),
  ("textDocument/didOpen", .event Params.opened),
  ("textDocument/didChange", .event Params.changed),
  ("textDocument/didClose", .event Params.closed),
  ("workspace/didChangeWatchedFiles", .event Params.filesChanged),
  ("workspace/didChangeConfiguration", .event Params.configured),
  ("textDocument/hover", .query Params.hover),
  ("textDocument/completion", .query Params.completion),
  ("textDocument/definition", .query Params.definition),
  ("textDocument/semanticTokens/full", .query Params.tokens),
  ("textDocument/documentSymbol", .query Params.outline),
  ("workspace/symbol", .query Params.search)]

/-- Requests of the protocol that this server knows but does not offer. -/
def otherRequests : List String := [
  "textDocument/willSaveWaitUntil", "textDocument/declaration", "textDocument/typeDefinition",
  "textDocument/implementation", "textDocument/references", "textDocument/prepareCallHierarchy",
  "callHierarchy/incomingCalls", "callHierarchy/outgoingCalls", "textDocument/prepareTypeHierarchy",
  "typeHierarchy/supertypes", "typeHierarchy/subtypes", "textDocument/documentHighlight",
  "textDocument/documentLink", "documentLink/resolve", "textDocument/codeLens", "codeLens/resolve",
  "textDocument/foldingRange", "textDocument/selectionRange",
  "textDocument/semanticTokens/full/delta", "textDocument/semanticTokens/range",
  "textDocument/inlineValue", "textDocument/inlayHint", "inlayHint/resolve", "textDocument/moniker",
  "completionItem/resolve", "textDocument/diagnostic", "workspace/diagnostic",
  "textDocument/signatureHelp", "textDocument/codeAction", "codeAction/resolve",
  "textDocument/documentColor", "textDocument/colorPresentation", "textDocument/formatting",
  "textDocument/rangeFormatting", "textDocument/onTypeFormatting", "textDocument/rename",
  "textDocument/prepareRename", "textDocument/linkedEditingRange", "workspaceSymbol/resolve",
  "workspace/willCreateFiles", "workspace/willRenameFiles", "workspace/willDeleteFiles",
  "workspace/executeCommand"]

def otherNotifications : List String := [
  "textDocument/willSave", "textDocument/didSave", "workspace/didChangeWorkspaceFolders",
  "workspace/didCreateFiles", "workspace/didRenameFiles", "workspace/didDeleteFiles"]

def find? (name : String) : Option Method :=
  (offered.lookup name).or
    (if otherRequests.contains name then some .otherRequest
    else if otherNotifications.contains name then some .otherNotification
    else none)

end Method

namespace Session

def new : Session :=
  ⟨.new, .uninitialized, 0⟩

def reply (message : Message) (answer : Except SessionError Json) : Outcome :=
  ⟨message.id?.map fun _ => answer, []⟩

def fail (message : Message) (problem : SessionError) : Outcome :=
  reply message (.error problem)

def phaseProblem : Phase → SessionError
  | .uninitialized => .notInitialized
  | _ => .invalidRequest

def params {α : Type} (message : Message) (read : Params.Decoder α) : Except ParamsError α :=
  match message.params? with
  | some value => read value
  | none => .error .absent

def notices (problem? : Option SettingsError) : List Notice :=
  (problem?.map Notice.ofProblem).toList

def start (session : Session) (machine : Machine) (message : Message) : Outcome × Session :=
  match session.phase, message.id? with
  | .uninitialized, some _ =>
    match params message Params.start with
    | .error problem => (fail message (.invalidParams problem), session)
    | .ok start =>
      let (server, problem?) :=
        session.server.setUp machine start.root? start.capabilities start.client
      (⟨some (.ok server.offer), notices problem?⟩, { session with server, phase := .running })
  | .uninitialized, none => (.silent, session)
  | _, _ => (fail message .invalidRequest, session)

/-- The server stops in any case, also when the request turns out to be malformed. -/
def shutDown (session : Session) (message : Message) : Outcome × Session :=
  match session.phase with
  | .running =>
    let answer : Except SessionError Json :=
      match message.params? with
      | some params => .error (.invalidParams (.notExpected params))
      | none => .ok .null
    (reply message answer, { session with phase := .shutDown })
  | phase => (fail message (phaseProblem phase), session)

/-- A notification of a running server. As a request it is invalid, and with malformed parameters it
is passed over. -/
def notified {α : Type} (session : Session) (message : Message) (read : Params.Decoder α)
    (act : α → List Notice × Session) : Outcome × Session :=
  match session.phase with
  | .running =>
    match message.id?, params message read with
    | some _, _ => (fail message .invalidRequest, session)
    | none, .error _ => (.silent, session)
    | none, .ok value =>
      let (sent, session) := act value
      (⟨none, sent⟩, session)
  | phase => (fail message (phaseProblem phase), session)

def requested {α : Type} (session : Session) (message : Message) (read : Params.Decoder α)
    (act : α → Except SessionError Json × Session) : Outcome × Session :=
  match session.phase with
  | .running =>
    match message.id?, params message read with
    | none, _ => (.silent, session)
    | some _, .error problem => (fail message (.invalidParams problem), session)
    | some _, .ok value =>
      let (answer, session) := act value
      (reply message answer, session)
  | phase => (fail message (phaseProblem phase), session)

def ready (session : Session) : List Notice × Session :=
  ([.watchFiles session.nextRequest, .ready],
    { session with nextRequest := session.nextRequest + 1 })

def unknown (message : Message) : Outcome :=
  if ['$', '/'].isPrefixOf message.method.toList then .silent
  else fail message (.unknownMethod message.method)

def handle? (session : Session) (machine : Machine) (message : Message) :
    Option (Outcome × Session) :=
  if session.phase = .exited then none
  else
    some <|
      match Method.find? message.method with
      | none => (unknown message, session)
      | some .start => session.start machine message
      | some .initialized =>
        session.notified message (Params.struct "InitializedParams" .fewer []) fun _ => session.ready
      | some .shutdown => session.shutDown message
      | some .exit => (.silent, { session with phase := .exited })
      | some .cancel =>
        (match message.id? with
          | some _ => fail message .invalidRequest
          | none => .silent, session)
      | some (.event read) =>
        session.notified message read fun event =>
          let (server, problem?) := session.server.handle machine event
          (notices problem?, { session with server })
      | some (.query read) =>
        session.requested message read fun query =>
          let (answer, server) := session.server.answer machine query
          (.ok answer.toJson, { session with server })
      | some .otherRequest =>
        session.requested message Params.anything fun _ => (.error .methodNotOffered, session)
      | some .otherNotification => session.notified message Params.anything fun _ => ([], session)

end Session

end AsmIndex
