import AsmIndex.Proofs.Current
import AsmIndex.Proofs.SettingsLayers
import AsmIndex.Server.Session

namespace AsmIndex

namespace Settings

theorem load_of_tokenChoice? {capabilities other : Capabilities}
    (alike : tokenChoice? other = tokenChoice? capabilities) (machine : Machine) (root : Path)
    (client : ClientSettings) : load machine root other client = load machine root capabilities client := by
  unfold load loadWith clientFields
  rw [alike]

end Settings

/-- The client lists its support for text documents, and semantic tokens are not in it. -/
def Capabilities.declining : Capabilities :=
  ⟨some ⟨false⟩⟩

def Capabilities.declaring : Capabilities :=
  ⟨some ⟨true⟩⟩

def Capabilities.silent : Capabilities :=
  ⟨none⟩

namespace Server

structure Withholds (server : Server) : Prop where
  capabilities : server.capabilities = .declining
  settings : server.settings.semanticTokens = false

theorem withholds_bindSettings {server : Server} (declines : server.capabilities = .declining)
    (machine : Machine) (client : ClientSettings) : (server.bindSettings machine client).1.Withholds := by
  refine ⟨declines, ?_⟩
  unfold bindSettings
  cases loaded : Settings.load machine (server.root?.getD machine.cwd) server.capabilities client with
  | error problem => rfl
  | ok settings =>
    have chosen : Settings.tokenChoice? server.capabilities client = some false := by
      rw [declines]
      rfl
    exact (Settings.loadWith_takes_client loaded).2.2.2 false chosen

theorem Withholds.of_emptied {server next : Server} (withholds : server.Withholds)
    (same : next.emptied = server.emptied) : next.Withholds where
  capabilities := (congrArg Server.capabilities same).trans withholds.capabilities
  settings := (congrArg (fun server : Server => server.settings.semanticTokens) same).trans withholds.settings

theorem Withholds.handle {server : Server} (withholds : server.Withholds) (machine : Machine)
    (event : Event) : (server.handle machine event).1.Withholds := by
  cases event with
  | configured values =>
    obtain ⟨capabilities, settings⟩ :=
      withholds_bindSettings withholds.capabilities machine (.ofJson values)
    exact ⟨capabilities, settings⟩
  | opened uri text => exact withholds.of_emptied (server.emptied_handle machine (.opened uri text))
  | changed uri texts => exact withholds.of_emptied (server.emptied_handle machine (.changed uri texts))
  | closed uri => exact withholds.of_emptied (server.emptied_handle machine (.closed uri))
  | filesChanged changes =>
    exact withholds.of_emptied (server.emptied_handle machine (.filesChanged changes))

theorem Withholds.answer {server : Server} (withholds : server.Withholds) (machine : Machine)
    (query : Query) : (server.answer machine query).2.Withholds :=
  withholds.of_emptied (server.emptied_answer machine query)

theorem Withholds.answer_tokens {server : Server} (withholds : server.Withholds) (machine : Machine)
    (uri : Uri) : (server.answer machine (.tokens uri)).1 = .tokens none := by
  simp [Server.answer, withholds.settings]

theorem offer_tokens (server : Server) :
    ((server.offer.field? "capabilities").bind (Json.field? "semanticTokensProvider")).isSome =
      server.settings.semanticTokens := by
  have offered (tokens : Bool) (same : server.settings.semanticTokens = tokens) :
      ((server.offer.field? "capabilities").bind (Json.field? "semanticTokensProvider")).isSome = tokens := by
    unfold offer
    rw [same]
    cases tokens <;> rfl
  exact offered _ rfl

def withCapabilities (server : Server) (capabilities : Capabilities) : Server :=
  { server with capabilities }

variable {server : Server} {capabilities : Capabilities}

theorem bindSettings_withCapabilities
    (alike : Settings.tokenChoice? capabilities = Settings.tokenChoice? server.capabilities)
    (machine : Machine) (client : ClientSettings) :
    (server.withCapabilities capabilities).bindSettings machine client =
      ((server.bindSettings machine client).1.withCapabilities capabilities,
        (server.bindSettings machine client).2) := by
  have loaded := Settings.load_of_tokenChoice? alike machine (server.root?.getD machine.cwd) client
  unfold bindSettings withCapabilities
  simp only [loaded]

theorem handle_withCapabilities
    (alike : Settings.tokenChoice? capabilities = Settings.tokenChoice? server.capabilities)
    (machine : Machine) (event : Event) :
    (server.withCapabilities capabilities).handle machine event =
      ((server.handle machine event).1.withCapabilities capabilities, (server.handle machine event).2) := by
  cases event with
  | opened uri text => rfl
  | changed uri texts =>
    cases last : texts.getLast? with
    | none => simp only [handle, handleAlong, last]
    | some text =>
      simp only [handle, handleAlong, last]
      rfl
  | closed uri => rfl
  | filesChanged changes => rfl
  | configured values =>
    simp only [handle, handleAlong, bindSettings_withCapabilities alike]
    rfl

theorem answer_withCapabilities (server : Server) (capabilities : Capabilities) (machine : Machine)
    (query : Query) :
    (server.withCapabilities capabilities).answer machine query =
      ((server.answer machine query).1, (server.answer machine query).2.withCapabilities capabilities) := by
  have buffer {α : Type} (uri : Uri) (reply : String → SymbolTable → α) :
      (server.withCapabilities capabilities).withBuffer machine uri reply =
        ((server.withBuffer machine uri reply).1,
          (server.withBuffer machine uri reply).2.withCapabilities capabilities) := by
    unfold withBuffer withCapabilities
    cases server.buffers[uri]? <;> rfl
  cases query with
  | hover uri position =>
    simp only [answer, buffer]
    rfl
  | completion uri position =>
    simp only [answer, buffer]
    rfl
  | definition uri position => simp only [answer, buffer]
  | tokens uri =>
    have settings : (server.withCapabilities capabilities).settings = server.settings := rfl
    simp only [answer, buffer, settings]
    split <;> rfl
  | outline uri => rfl
  | search text => rfl

end Server

namespace Json

def present? : Json → Option Json
  | .null => none
  | value => some value

end Json

namespace Params

theorem nullable_eq_ok {α : Type} {inner : Decoder α} {value : Json} {result : Option α}
    (read : nullable inner value = .ok result) :
    (value.present? = none ∧ result = none) ∨
      ∃ inside, value.present? = some value ∧ result = some inside ∧ inner value = .ok inside := by
  cases value with
  | null => exact .inl ⟨rfl, (Except.ok.inj read).symm⟩
  | _ =>
    obtain ⟨inside, taken, read⟩ := bind_eq_ok read
    exact .inr ⟨inside, rfl, (Except.ok.inj read).symm, taken⟩

theorem find_nullable_eq_ok {α : Type} {inner : Decoder α} {params : Json} {name : String}
    {result : Option (Option α)} (read : find params name (nullable inner) = .ok result) :
    match (params.field? name).bind Json.present? with
    | none => result.join = none
    | some value => ∃ inside, result.join = some inside ∧ inner value = .ok inside := by
  unfold find at read
  cases given : params.field? name with
  | none =>
    simp only [given] at read
    obtain rfl := Except.ok.inj read
    rfl
  | some value =>
    simp only [given] at read
    obtain ⟨optional, taken, read⟩ := bind_eq_ok read
    obtain rfl := Except.ok.inj read
    rcases nullable_eq_ok taken with ⟨absent, rfl⟩ | ⟨inside, present, rfl, decoded⟩
    · simp [absent]
    · simp [present, decoded]

def declared (capabilities : Json) : Capabilities :=
  ⟨((capabilities.field? "textDocument").bind Json.present?).map fun document =>
    ⟨((document.field? "semanticTokens").bind Json.present?).isSome⟩⟩

theorem textDocumentSupport_eq_ok {value : Json} {support : TextDocumentSupport}
    (read : textDocumentSupport value = .ok support) :
    support = ⟨((value.field? "semanticTokens").bind Json.present?).isSome⟩ := by
  unfold textDocumentSupport at read
  obtain ⟨_, _, read⟩ := bind_eq_ok read
  obtain ⟨tokens, found, read⟩ := bind_eq_ok read
  obtain rfl := Except.ok.inj read
  have cases := find_nullable_eq_ok found
  cases given : (value.field? "semanticTokens").bind Json.present? with
  | none =>
    simp only [given] at cases
    simp [cases]
  | some inner =>
    simp only [given] at cases
    obtain ⟨inside, joined, _⟩ := cases
    simp [joined]

theorem capabilities_eq_ok {value : Json} {result : Capabilities}
    (read : capabilities value = .ok result) : result = declared value := by
  unfold capabilities at read
  obtain ⟨_, _, read⟩ := bind_eq_ok read
  obtain ⟨document, found, read⟩ := bind_eq_ok read
  obtain rfl := Except.ok.inj read
  have cases := find_nullable_eq_ok found
  unfold declared
  cases given : (value.field? "textDocument").bind Json.present? with
  | none =>
    simp only [given] at cases
    simp [cases]
  | some inner =>
    simp only [given] at cases
    obtain ⟨support, joined, taken⟩ := cases
    rw [joined, textDocumentSupport_eq_ok taken]
    rfl

theorem capabilities_of_start {fields : List (String × Json)} {start : Start} {value : Json}
    (read : Params.start (.object fields) = .ok start)
    (given : (Json.object fields).field? "capabilities" = some value) :
    start.capabilities = declared value := by
  obtain ⟨found, _⟩ := start_eq_ok read
  rw [find, given] at found
  obtain ⟨inside, decoded, found⟩ := bind_eq_ok found
  obtain rfl := Option.some.inj (Except.ok.inj found)
  exact capabilities_eq_ok decoded

theorem tokens_eq_ok {params : Json} {query : Query} (read : tokens params = .ok query) :
    ∃ uri, query = .tokens uri := by
  unfold tokens ofDocument at read
  obtain ⟨_, _, read⟩ := bind_eq_ok read
  obtain ⟨_, _, read⟩ := bind_eq_ok read
  obtain ⟨uri, _, read⟩ := bind_eq_ok read
  obtain ⟨_, _, read⟩ := bind_eq_ok read
  exact ⟨uri, (Except.ok.inj read).symm⟩

end Params

namespace Session

def outcome? (session : Session) (machine : Machine) (message : Message) : Option Outcome :=
  (session.handle? machine message).map Prod.fst

def next (session : Session) (machine : Machine) (message : Message) : Session :=
  ((session.handle? machine message).map Prod.snd).getD session

def after (session : Session) (history : List (Machine × Message)) : Session :=
  history.foldl (fun session (machine, message) => session.next machine message) session

theorem after_induction {P : Session → Prop} {session : Session} (start : P session)
    (step : ∀ session machine message, P session → P (session.next machine message))
    (history : List (Machine × Message)) : P (session.after history) := by
  induction history generalizing session with
  | nil => exact start
  | cons first rest ih => exact ih (step session first.1 first.2 start)

theorem notified_session {α : Type} (session : Session) (message : Message) (read : Params.Decoder α)
    (act : α → List Notice × Session) :
    (session.notified message read act).2 = session ∨
      ∃ value, (session.notified message read act).2 = (act value).2 := by
  unfold notified
  split
  · split
    · exact .inl rfl
    · exact .inl rfl
    · rename_i value _ _
      exact .inr ⟨value, rfl⟩
  · exact .inl rfl

theorem requested_session {α : Type} (session : Session) (message : Message) (read : Params.Decoder α)
    (act : α → Except SessionError Json × Session) :
    (session.requested message read act).2 = session ∨
      ∃ value, (session.requested message read act).2 = (act value).2 := by
  unfold requested
  split
  · split
    · exact .inl rfl
    · exact .inl rfl
    · rename_i value _ _
      exact .inr ⟨value, rfl⟩
  · exact .inl rfl

theorem start_of_started {session : Session} (started : session.phase ≠ .uninitialized) (machine : Machine)
    (message : Message) : session.start machine message = (fail message .invalidRequest, session) := by
  unfold start
  split
  · contradiction
  · contradiction
  · rfl

inductive Moves (session : Session) (machine : Machine) : Session → Prop
  | stays (next : Session) (server : next.server = session.server)
    (phase : next.phase ≠ .uninitialized) : Moves session machine next
  | event (event : Event) : Moves session machine
      { session with server := (session.server.handle machine event).1 }
  | query (query : Query) : Moves session machine
      { session with server := (session.server.answer machine query).2 }

theorem moves_next {session : Session} (started : session.phase ≠ .uninitialized) (machine : Machine)
    (message : Message) : session.Moves machine (session.next machine message) := by
  unfold next handle?
  split
  · exact .stays session rfl started
  · simp only [Option.map_some, Option.getD_some]
    split
    · exact .stays session rfl started
    · rw [start_of_started started]
      exact .stays session rfl started
    · rcases session.notified_session message _ _ with same | ⟨value, same⟩
      · rw [same]
        exact .stays session rfl started
      · rw [same]
        exact .stays _ rfl started
    · unfold shutDown
      split
      · exact .stays _ rfl (by simp)
      · exact .stays session rfl started
    · exact .stays _ rfl (by simp)
    · exact .stays session rfl started
    · rcases session.notified_session message _ _ with same | ⟨event, same⟩
      · rw [same]
        exact .stays session rfl started
      · rw [same]
        exact .event event
    · rcases session.requested_session message _ _ with same | ⟨query, same⟩
      · rw [same]
        exact .stays session rfl started
      · rw [same]
        exact .query query
    · rcases session.requested_session message _ _ with same | ⟨value, same⟩ <;>
        exact .stays _ (by rw [same]) (by rw [same]; exact started)
    · rcases session.notified_session message _ _ with same | ⟨value, same⟩ <;>
        exact .stays _ (by rw [same]) (by rw [same]; exact started)

structure Withholds (session : Session) : Prop where
  started : session.phase ≠ .uninitialized
  server : session.server.Withholds

theorem Withholds.next {session : Session} (withholds : session.Withholds) (machine : Machine)
    (message : Message) : (session.next machine message).Withholds := by
  have moves := moves_next withholds.started machine message
  generalize session.next machine message = later at moves
  cases moves with
  | stays _ server phase => exact ⟨phase, by rw [server]; exact withholds.server⟩
  | event event => exact ⟨withholds.started, withholds.server.handle machine event⟩
  | query query => exact ⟨withholds.started, withholds.server.answer machine query⟩

theorem Withholds.after {session : Session} (withholds : session.Withholds)
    (history : List (Machine × Message)) : (session.after history).Withholds :=
  after_induction withholds (fun _ machine message withholds => withholds.next machine message) history

def tokensMethod : String := "textDocument/semanticTokens/full"

theorem find?_tokensMethod : Method.find? tokensMethod = some (.query Params.tokens) := rfl

theorem Withholds.outcome_tokens {session : Session} (withholds : session.Withholds) (machine : Machine)
    {message : Message} (asks : message.method = tokensMethod) {outcome : Outcome}
    (brings : session.outcome? machine message = some outcome) :
    (∀ result, outcome.answer? = some (.ok result) → result = .null) ∧
    (session.phase = .running → message.id? ≠ none →
      (∃ query, params message Params.tokens = .ok query) → outcome.answer? = some (.ok .null)) := by
  have handled : outcome = (session.requested message Params.tokens fun query =>
      (.ok (session.server.answer machine query).1.toJson,
        { session with server := (session.server.answer machine query).2 })).1 := by
    unfold outcome? handle? at brings
    split at brings
    · cases brings
    · rw [asks, find?_tokensMethod] at brings
      exact (Option.some.inj brings).symm
  have null {query : Query} (read : params message Params.tokens = .ok query) :
      (session.server.answer machine query).1.toJson = .null := by
    unfold params at read
    split at read
    · obtain ⟨uri, rfl⟩ := Params.tokens_eq_ok read
      rw [withholds.server.answer_tokens machine uri]
      rfl
    · cases read
  rw [handled]
  unfold requested
  split
  · cases id : message.id? with
    | none => exact ⟨fun result answered => (by cases answered), fun _ asked => absurd rfl asked⟩
    | some value =>
      cases read : params message Params.tokens with
      | error problem =>
        refine ⟨fun result answered => ?_, fun _ _ readable => ?_⟩
        · simp [fail, reply, id] at answered
        · obtain ⟨query, impossible⟩ := readable
          cases impossible
      | ok query => simp [reply, id, null read]
  · rename_i phase other
    refine ⟨fun result answered => ?_, fun running => (other running).elim⟩
    cases id : message.id? <;> simp [fail, reply, id] at answered

def withCapabilities (session : Session) (capabilities : Capabilities) : Session :=
  { session with server := session.server.withCapabilities capabilities }

variable {session : Session} {capabilities : Capabilities}

theorem notified_withCapabilities {α : Type} (message : Message) (read : Params.Decoder α)
    {act other : α → List Notice × Session}
    (same : ∀ value, other value = ((act value).1, (act value).2.withCapabilities capabilities)) :
    (session.withCapabilities capabilities).notified message read other =
      ((session.notified message read act).1,
        (session.notified message read act).2.withCapabilities capabilities) := by
  have phase : (session.withCapabilities capabilities).phase = session.phase := rfl
  unfold notified
  rw [phase]
  split
  · split
    · rfl
    · rfl
    · rw [same]
  · rfl

theorem requested_withCapabilities {α : Type} (message : Message) (read : Params.Decoder α)
    {act other : α → Except SessionError Json × Session}
    (same : ∀ value, other value = ((act value).1, (act value).2.withCapabilities capabilities)) :
    (session.withCapabilities capabilities).requested message read other =
      ((session.requested message read act).1,
        (session.requested message read act).2.withCapabilities capabilities) := by
  have phase : (session.withCapabilities capabilities).phase = session.phase := rfl
  unfold requested
  rw [phase]
  split
  · split
    · rfl
    · rfl
    · rw [same]
  · rfl

theorem handle?_withCapabilities (started : session.phase ≠ .uninitialized)
    (alike : Settings.tokenChoice? capabilities = Settings.tokenChoice? session.server.capabilities)
    (machine : Machine) (message : Message) :
    (session.withCapabilities capabilities).handle? machine message =
      (session.handle? machine message).map fun (outcome, later) =>
        (outcome, later.withCapabilities capabilities) := by
  have phase : (session.withCapabilities capabilities).phase = session.phase := rfl
  have server : (session.withCapabilities capabilities).server =
      session.server.withCapabilities capabilities := rfl
  unfold handle?
  rw [phase]
  split
  · rfl
  · simp only [Option.map_some]
    congr 1
    cases Method.find? message.method with
    | none => rfl
    | some method =>
      cases method with
      | start =>
        have again : (session.withCapabilities capabilities).phase ≠ .uninitialized := started
        simp only [start_of_started started, start_of_started again]
      | initialized => exact notified_withCapabilities message _ fun _ => rfl
      | shutdown =>
        simp only [shutDown, phase]
        split <;> rfl
      | exit => rfl
      | cancel => rfl
      | event read =>
        refine notified_withCapabilities message read fun event => ?_
        simp only [server, Server.handle_withCapabilities alike]
        rfl
      | query read =>
        refine requested_withCapabilities message read fun query => ?_
        simp only [server, Server.answer_withCapabilities]
        rfl
      | otherRequest => exact requested_withCapabilities message _ fun _ => rfl
      | otherNotification => exact notified_withCapabilities message _ fun _ => rfl

structure Alike (session other : Session) (capabilities : Capabilities) : Prop where
  started : session.phase ≠ .uninitialized
  choice : Settings.tokenChoice? capabilities = Settings.tokenChoice? session.server.capabilities
  same : other = session.withCapabilities capabilities

theorem Alike.outcome? {other : Session} (alike : session.Alike other capabilities) (machine : Machine)
    (message : Message) : other.outcome? machine message = session.outcome? machine message := by
  rw [alike.same, Session.outcome?, handle?_withCapabilities alike.started alike.choice, Option.map_map]
  rfl

theorem capabilities_of_moves {later : Session} {machine : Machine} (moves : session.Moves machine later) :
    later.server.capabilities = session.server.capabilities := by
  cases moves with
  | stays _ server _ => rw [server]
  | query query =>
    have emptied := congrArg Server.capabilities (session.server.emptied_answer machine query)
    exact emptied
  | event event =>
    have emptied := congrArg Server.capabilities (session.server.emptied_handle machine event)
    cases event <;> exact emptied

theorem phase_of_moves {later : Session} {machine : Machine} (started : session.phase ≠ .uninitialized)
    (moves : session.Moves machine later) : later.phase ≠ .uninitialized := by
  cases moves with
  | stays _ _ phase => exact phase
  | event event => exact started
  | query query => exact started

theorem Alike.next {other : Session} (alike : session.Alike other capabilities) (machine : Machine)
    (message : Message) :
    (session.next machine message).Alike (other.next machine message) capabilities := by
  have moves := moves_next alike.started machine message
  refine ⟨phase_of_moves alike.started moves, ?_, ?_⟩
  · rw [capabilities_of_moves moves]
    exact alike.choice
  · rw [alike.same, Session.next, Session.next, handle?_withCapabilities alike.started alike.choice]
    cases session.handle? machine message <;> rfl

theorem Alike.after {other : Session} (alike : session.Alike other capabilities)
    (history : List (Machine × Message)) :
    (session.after history).Alike (other.after history) capabilities := by
  induction history generalizing session other with
  | nil => exact alike
  | cons first rest ih => exact ih (alike.next first.1 first.2)

end Session

/-- The message is a request to start the server with what is read from its parameters. -/
structure Message.Starts (message : Message) (start : Params.Start) : Prop where
  method : message.method = "initialize"
  request : message.id? ≠ none
  read : Session.params message Params.start = .ok start

namespace Session

def started (machine : Machine) (start : Params.Start) : Session :=
  ⟨(Server.new.setUp machine start.root? start.capabilities start.client).1, .running, 0⟩

theorem phase_started (machine : Machine) (start : Params.Start) :
    (started machine start).phase ≠ .uninitialized := by
  intro phase
  cases phase

theorem handle?_start {message : Message} {start : Params.Start} (starts : message.Starts start)
    (machine : Machine) :
    Session.new.handle? machine message =
      some (⟨some (.ok (started machine start).server.offer),
        notices (Server.new.setUp machine start.root? start.capabilities start.client).2⟩,
        started machine start) := by
  obtain ⟨id, request⟩ := Option.ne_none_iff_exists'.mp starts.request
  have fresh : Session.new.phase = .uninitialized := rfl
  have found : Method.find? message.method = some .start := by
    rw [starts.method]
    rfl
  unfold handle?
  rw [if_neg (by rw [fresh]; decide), found]
  simp only [Session.start, fresh, request, starts.read]
  rfl

theorem outcome?_start {message : Message} {start : Params.Start} (starts : message.Starts start)
    (machine : Machine) :
    Session.new.outcome? machine message =
      some ⟨some (.ok (started machine start).server.offer),
        notices (Server.new.setUp machine start.root? start.capabilities start.client).2⟩ := by
  rw [outcome?, handle?_start starts]
  rfl

theorem after_start {message : Message} {start : Params.Start} (starts : message.Starts start)
    (machine : Machine) (history : List (Machine × Message)) :
    Session.new.after ((machine, message) :: history) = (started machine start).after history := by
  have first : Session.new.next machine message = started machine start := by
    rw [next, handle?_start starts]
    rfl
  rw [← first]
  rfl

theorem setUp_silent (machine : Machine) {start : Params.Start} (silent : start.capabilities = .silent) :
    Server.new.setUp machine start.root? .declaring start.client =
      ((Server.new.setUp machine start.root? start.capabilities start.client).1.withCapabilities .declaring,
        (Server.new.setUp machine start.root? start.capabilities start.client).2) := by
  have choice : Settings.tokenChoice? .declaring = Settings.tokenChoice? start.capabilities := by
    rw [silent]
    rfl
  let base : Server := { Server.new with root? := start.root?, capabilities := start.capabilities }
  have bound : (base.withCapabilities .declaring).bindSettings machine start.client =
      ((base.bindSettings machine start.client).1.withCapabilities .declaring,
        (base.bindSettings machine start.client).2) :=
    Server.bindSettings_withCapabilities choice machine start.client
  exact bound

theorem alike_started (machine : Machine) {start : Params.Start} (silent : start.capabilities = .silent) :
    (started machine start).Alike (started machine { start with capabilities := .declaring }) .declaring := by
  refine ⟨phase_started machine start, ?_, ?_⟩
  · change Settings.tokenChoice? .declaring = Settings.tokenChoice? start.capabilities
    rw [silent]
    rfl
  · unfold started
    rw [setUp_silent machine silent]
    rfl

/-- A client that lists its support for text documents without semantic tokens is not offered any, and along
its whole run every request for them is answered with null unless it is refused for its phase or its parameters.
A client that lists nothing about text documents gets, message by message, what one gets that
declares them. -/
theorem tokens_withheld_if_declined (machine : Machine) {message : Message} {start : Params.Start}
    (starts : message.Starts start) :
    (∀ fields value, message.params? = some (.object fields) →
      (Json.object fields).field? "capabilities" = some value →
        start.capabilities = Params.declared value) ∧
    (start.capabilities = .declining →
      (∃ offer sent, Session.new.outcome? machine message = some ⟨some (.ok offer), sent⟩ ∧
        (offer.field? "capabilities").bind (Json.field? "semanticTokensProvider") = none) ∧
      ∀ history now request outcome,
        let session := Session.new.after ((machine, message) :: history)
        request.method = tokensMethod → session.outcome? now request = some outcome →
          (∀ result, outcome.answer? = some (.ok result) → result = .null) ∧
          (session.phase = .running → request.id? ≠ none →
            (∃ query, params request Params.tokens = .ok query) →
              outcome.answer? = some (.ok .null))) ∧
    (start.capabilities = .silent →
      ∀ other, Message.Starts other { start with capabilities := .declaring } →
        Session.new.outcome? machine message = Session.new.outcome? machine other ∧
        ∀ history now request,
          (Session.new.after ((machine, message) :: history)).outcome? now request =
            (Session.new.after ((machine, other) :: history)).outcome? now request) := by
  refine ⟨?_, ?_, ?_⟩
  · intro fields value given capabilities
    have read := starts.read
    unfold params at read
    rw [given] at read
    exact Params.capabilities_of_start read capabilities
  · intro declines
    have server : (started machine start).server.Withholds :=
      Server.withholds_bindSettings declines machine start.client
    have withholds : (started machine start).Withholds := ⟨phase_started machine start, server⟩
    refine ⟨⟨_, _, outcome?_start starts machine, ?_⟩, ?_⟩
    · rw [← Option.isNone_iff_eq_none, ← Option.not_isSome, Server.offer_tokens, server.settings]
      rfl
    · intro history now request outcome session asks brings
      have kept : session.Withholds := by
        change (Session.new.after ((machine, message) :: history)).Withholds
        rw [after_start starts]
        exact withholds.after history
      exact kept.outcome_tokens now asks brings
  · intro silent other otherStarts
    have alike := alike_started machine silent
    refine ⟨?_, fun history now request => ?_⟩
    · rw [outcome?_start starts, outcome?_start otherStarts, alike.same, setUp_silent machine silent]
      rfl
    · rw [after_start starts, after_start otherStarts]
      exact ((alike.after history).outcome? now request).symm

theorem hover_only_client_tokens_withheld :
    let machine : Machine := ⟨Disk.empty, .ofString "/", .ofString "/"⟩
    let capabilities := Json.object [("textDocument", .object [("hover", .object [])])]
    let options := Json.object [("semanticTokens", .bool true)]
    let message : Message := ⟨"initialize",
      some (.object [("capabilities", capabilities), ("initializationOptions", options)]), some (.nat 1)⟩
    let start : Params.Start := ⟨.declining, ⟨none, none, some true, none⟩, none⟩
    message.Starts start ∧ Params.declared capabilities = .declining ∧
      ∃ offer sent, Session.new.outcome? machine message = some ⟨some (.ok offer), sent⟩ ∧
        (offer.field? "capabilities").bind (Json.field? "semanticTokensProvider") = none := by
  intro machine capabilities options message start
  have starts : message.Starts start := ⟨rfl, by simp [message], rfl⟩
  obtain ⟨read, withheld, _⟩ := tokens_withheld_if_declined machine starts
  exact ⟨starts, (read _ capabilities rfl rfl).symm, (withheld rfl).1⟩

/-- A client that declares nothing at all is offered tokens and gets them for the buffer that it opens. -/
theorem silent_client_gets_tokens :
    let machine : Machine := ⟨Disk.empty, .ofString "/", .ofString "/"⟩
    let capabilities := Json.object []
    let message : Message := ⟨"initialize", some (.object [("capabilities", capabilities)]), some (.nat 1)⟩
    let opened : Message := ⟨"textDocument/didOpen", some (.object [("textDocument", .object [
      ("languageId", .string "asm"), ("text", .string "a:\n"), ("uri", .string "file:///m.S"),
      ("version", .nat 1)])]), none⟩
    let request : Message := ⟨tokensMethod,
      some (.object [("textDocument", .object [("uri", .string "file:///m.S")])]), some (.nat 2)⟩
    let session := Session.new.after [(machine, message), (machine, opened)]
    Params.declared capabilities = .silent ∧
      (∃ offer sent, Session.new.outcome? machine message = some ⟨some (.ok offer), sent⟩ ∧
        ((offer.field? "capabilities").bind (Json.field? "semanticTokensProvider")).isSome = true) ∧
      ∃ deltas, (session.outcome? machine request).map Outcome.answer? =
        some (some (.ok (.object [("data", .array deltas)]))) := by
  intro machine capabilities message opened request session
  let start : Params.Start := ⟨.silent, .empty, none⟩
  have starts : message.Starts start := ⟨rfl, by simp [message], rfl⟩
  have enabled : (started machine start).server.settings.semanticTokens = true := by decide +kernel
  have same : session = (started machine start).next machine opened := after_start starts machine _
  let uri := Uri.ofPath (.ofString "/m.S")
  have reached : session.phase = .running ∧ session.server.settings.semanticTokens = true ∧
      session.server.buffers[uri]? = some "a:\n" := by
    rw [same]
    decide +kernel
  obtain ⟨running, stillEnabled, held⟩ := reached
  have read : params request Params.tokens = .ok (.tokens uri) := by
    have decoded : (params request Params.tokens).toOption = some (.tokens uri) := by decide +kernel
    cases result : params request Params.tokens with
    | error problem =>
      rw [result] at decoded
      cases decoded
    | ok query =>
      rw [result] at decoded
      rw [Option.some.inj decoded]
  refine ⟨rfl, ⟨_, _, outcome?_start starts machine, ?_⟩, ?_⟩
  · rw [Server.offer_tokens, enabled]
  · have answered : (session.server.answer machine (.tokens uri)).1 =
        .tokens (some (TokenDelta.encode (tokens (session.server.cache.get machine uri).1 "a:\n"))) := by
      simp [Server.answer, Server.withBuffer, stillEnabled, held]
    have asked : Method.find? request.method = some (.query Params.tokens) := find?_tokensMethod
    have brings : (session.outcome? machine request).map Outcome.answer? =
        some (some (.ok (session.server.answer machine (.tokens uri)).1.toJson)) := by
      unfold outcome? handle?
      rw [running, if_neg (by decide), asked]
      simp only [requested, running, read]
      rfl
    rw [brings, answered]
    exact ⟨_, rfl⟩

end Session

end AsmIndex
