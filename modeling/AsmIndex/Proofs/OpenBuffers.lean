import AsmIndex.Proofs.Events
import AsmIndex.Proofs.Footprint
import Mathlib.Data.List.Induction

namespace AsmIndex

namespace Query

def uri? : Query → Option Uri
  | .hover uri _ => some uri
  | .completion uri _ => some uri
  | .definition uri _ => some uri
  | .tokens uri => some uri
  | .outline uri => some uri
  | .search _ => none

end Query

namespace Server

theorem answer_server (server : Server) (machine : Machine) (query : Query) :
    (server.answer machine query).2 = server ∨
      ∃ uri, query.uri? = some uri ∧
        (server.answer machine query).2 =
          { server with cache := (server.cache.get machine uri).2 } := by
  cases query with
  | hover uri position | completion uri position | definition uri position =>
    cases held : server.buffers[uri]? with
    | none => exact .inl (by simp [answer, withBuffer, held])
    | some text => exact .inr ⟨uri, rfl, by simp [answer, withBuffer, held]⟩
  | tokens uri =>
    cases offered : server.settings.semanticTokens with
    | false => exact .inl (by simp [answer, offered])
    | true =>
      cases held : server.buffers[uri]? with
      | none => exact .inl (by simp [answer, withBuffer, offered, held])
      | some text => exact .inr ⟨uri, rfl, by simp [answer, withBuffer, offered, held]⟩
  | outline uri => exact .inr ⟨uri, rfl, rfl⟩
  | search text => exact .inl rfl

/-- What a client can have the server do. -/
inductive Move
  | setUp (root? : Option Path) (capabilities : Capabilities) (client : ClientSettings)
  | event (event : Event)
  | query (query : Query)

def perform (server : Server) (machine : Machine) : Move → Server
  | .setUp root? capabilities client => (server.setUp machine root? capabilities client).1
  | .event event => (server.handle machine event).1
  | .query query => (server.answer machine query).2

abbrev History := List (Machine × Move)

def after (history : History) : Server :=
  history.foldl (fun server (machine, move) => server.perform machine move) .new

def Move.sentText? (uri : Uri) : Move → Option String
  | .event (.opened place text) => if place = uri then some text else none
  | .event (.changed place texts) => if place = uri then texts.getLast? else none
  | _ => none

/-- The text was the last one sent for the document, which has not been closed since. -/
def Stands (history : History) (uri : Uri) (text : String) : Prop :=
  ∃ before machine move since, history = before ++ (machine, move) :: since ∧
    move.sentText? uri = some text ∧
    ∀ later ∈ since, later.2.sentText? uri = none ∧ later.2 ≠ .event (.closed uri)

/-- Every buffer has an entry with the symbols of its text. -/
def InStep (server : Server) : Prop :=
  ∀ uri text, server.buffers[uri]? = some text →
    ∃ entry, server.cache.entry? uri = some entry ∧ entry.table = scan text uri

theorem after_append (history later : History) :
    after (history ++ later) =
      later.foldl (fun server (machine, move) => server.perform machine move) (after history) :=
  List.foldl_append

theorem stands_append_iff (history : History) (machine : Machine) (move : Move) (uri : Uri)
    (text : String) :
    Stands (history ++ [(machine, move)]) uri text ↔
      move.sentText? uri = some text ∨
        move.sentText? uri = none ∧ move ≠ .event (.closed uri) ∧ Stands history uri text := by
  constructor
  · rintro ⟨before, machine', sender, since, order, sent, quiet⟩
    rcases List.eq_nil_or_concat since with rfl | ⟨earlier, last, rfl⟩
    · obtain ⟨_, same⟩ := List.append_inj' order rfl
      obtain ⟨rfl, rfl⟩ := Prod.mk.inj (List.singleton_inj.mp same)
      exact .inl sent
    · rw [List.concat_eq_append, ← List.cons_append, ← List.append_assoc] at order
      obtain ⟨rfl, same⟩ := List.append_inj' order rfl
      obtain rfl := List.singleton_inj.mp same
      obtain ⟨silent, stays⟩ := quiet (machine, move) (by simp)
      refine .inr ⟨silent, stays, before, machine', sender, earlier, rfl, sent, ?_⟩
      intro later member
      exact quiet later (by simp [member])
  · rintro (sent | ⟨silent, stays, before, machine', sender, since, rfl, sent, quiet⟩)
    · exact ⟨history, machine, move, [], rfl, sent, by simp⟩
    · refine ⟨before, machine', sender, since ++ [(machine, move)], by simp, sent, ?_⟩
      intro later member
      rcases List.mem_append.mp member with member | member
      · exact quiet later member
      · obtain rfl := List.mem_singleton.mp member
        exact ⟨silent, stays⟩

theorem Stands.append {history : History} {uri : Uri} {text : String}
    (stands : Stands history uri text) {later : History}
    (quiet : ∀ step ∈ later, step.2.sentText? uri = none ∧ step.2 ≠ .event (.closed uri)) :
    Stands (history ++ later) uri text := by
  obtain ⟨before, machine, move, since, rfl, sent, still⟩ := stands
  refine ⟨before, machine, move, since ++ later, by simp, sent, ?_⟩
  intro step member
  rcases List.mem_append.mp member with member | member
  · exact still step member
  · exact quiet step member

theorem perform_cases (server : Server) (machine : Machine) (move : Move) :
    (∃ uri text, (∀ place, move.sentText? place = if uri = place then some text else none) ∧
      (∀ place, move ≠ .event (.closed place)) ∧
      server.perform machine move = server.setBuffer machine uri text) ∨
    (∃ uri, move = .event (.closed uri)) ∨
    ((∀ place, move.sentText? place = none ∧ move ≠ .event (.closed place)) ∧
      (server.perform machine move).buffers = server.buffers) := by
  cases move with
  | setUp root? capabilities client => exact .inr (.inr ⟨by simp [Move.sentText?], rfl⟩)
  | query query =>
    refine .inr (.inr ⟨by simp [Move.sentText?], ?_⟩)
    rcases server.answer_server machine query with same | ⟨asked, _, same⟩
    · rw [perform, same]
    · rw [perform, same]
  | event event =>
    cases event with
    | opened uri text => exact .inl ⟨uri, text, fun _ => rfl, by simp, rfl⟩
    | changed uri texts =>
      cases last : texts.getLast? with
      | none => exact .inr (.inr ⟨by simp [Move.sentText?, last], by simp [perform, handle, handleAlong, last]⟩)
      | some text =>
        refine .inl ⟨uri, text, fun place => ?_, by simp, ?_⟩
        · simp [Move.sentText?, last]
        · simp [perform, handle, handleAlong, last]
    | closed uri => exact .inr (.inl ⟨uri, rfl⟩)
    | filesChanged changes | configured values => exact .inr (.inr ⟨by simp [Move.sentText?], rfl⟩)

theorem buffers_perform_iff (server : Server) (machine : Machine) (move : Move) (uri : Uri)
    (text : String) :
    (server.perform machine move).buffers[uri]? = some text ↔
      move.sentText? uri = some text ∨
        move.sentText? uri = none ∧ move ≠ .event (.closed uri) ∧
          server.buffers[uri]? = some text := by
  rcases server.perform_cases machine move with
    ⟨place, sent, sends, stays, performed⟩ | ⟨place, rfl⟩ | ⟨silent, buffers⟩
  · have put : (server.perform machine move).buffers[uri]? =
        if uri = place then some sent else server.buffers[uri]? := by
      rw [performed]
      exact UriMap.getElem?_insert_uri _ _ _ _
    rw [put, sends]
    by_cases same : place = uri
    · simp [same]
    · simp [same, Ne.symm same, stays uri]
  · change (server.buffers.erase place)[uri]? = _ ↔ _
    rw [UriMap.getElem?_erase_uri]
    by_cases same : place = uri
    · simp [same, Move.sentText?]
    · simp [same, Ne.symm same, Move.sentText?]
  · rw [buffers]
    simp [silent uri]

theorem InStep.perform {server : Server} (inStep : server.InStep) (machine : Machine) (move : Move) :
    (server.perform machine move).InStep := by
  intro uri text held
  cases move with
  | setUp root? capabilities client => exact inStep uri text held
  | query query =>
    rcases server.answer_server machine query with same | ⟨asked, _, same⟩
    · rw [Server.perform, same] at held ⊢
      exact inStep uri text held
    · rw [Server.perform, same] at held ⊢
      obtain ⟨entry, stored, own⟩ := inStep uri text held
      exact ⟨entry, Cache.entry?_get_of_stored stored machine asked, own⟩
  | event event =>
    cases server.handled machine event uri with
    | scanned sent opened stored =>
      obtain rfl := Option.some.inj (opened.symm.trans held)
      exact ⟨_, stored, rfl⟩
    | dropped closed _ => exact absurd (closed.symm.trans held) (by simp)
    | kept buffer same _ _ _ =>
      obtain ⟨entry, stored, own⟩ := inStep uri text (buffer.symm.trans held)
      exact ⟨entry, same.trans stored, own⟩

theorem inStep_after (history : History) : (after history).InStep := by
  induction history using List.reverseRecOn with
  | nil =>
    intro uri text held
    simp [after, new] at held
  | append_singleton history last ih =>
    rw [after_append]
    exact ih.perform last.1 last.2

theorem buffers_after_iff (history : History) (uri : Uri) (text : String) :
    (after history).buffers[uri]? = some text ↔ Stands history uri text := by
  induction history using List.reverseRecOn generalizing text with
  | nil => simp [after, new, Stands]
  | append_singleton history last ih =>
    rw [after_append, stands_append_iff, ← ih]
    exact buffers_perform_iff _ last.1 last.2 uri text

/-- The buffers are the texts that stand, and each has an entry with the symbols of its text. Nothing but
another text for the document or its closing ever replaces them. -/
theorem open_buffers_in_step (history : History) (uri : Uri) (text : String) :
    ((after history).buffers[uri]? = some text ↔ Stands history uri text) ∧
    ((after history).buffers[uri]? = some text →
      ∃ entry, (after history).cache.entry? uri = some entry ∧ entry.table = scan text uri) ∧
    (Stands history uri text → ∀ later : History,
      (∀ step ∈ later, step.2.sentText? uri = none ∧ step.2 ≠ .event (.closed uri)) →
        (after (history ++ later)).buffers[uri]? = some text ∧
        ∃ entry, (after (history ++ later)).cache.entry? uri = some entry ∧
          entry.table = scan text uri) := by
  refine ⟨buffers_after_iff history uri text, inStep_after history uri text, ?_⟩
  intro stands later quiet
  have held := (buffers_after_iff _ uri text).mpr (stands.append quiet)
  exact ⟨held, inStep_after _ uri text held⟩

/-- A document that is changed without having been opened again keeps the symbols of its last text, although
a file appears in its place. -/
theorem changed_document_in_step :
    let path := Path.ofString "/m.S"
    let uri := Uri.ofPath path
    let before : Machine := ⟨Disk.empty, .ofString "/", .ofString "/"⟩
    let since : Machine :=
      ⟨Disk.empty.write path (Utf8.encodeString "d:\n"), .ofString "/", .ofString "/"⟩
    let history : History := [(before, .setUp none ⟨none⟩ .empty), (before, .event (.opened uri "a:\n")),
      (before, .event (.closed uri)), (before, .event (.changed uri ["b:\n", "c:\n"]))]
    let later : History := [(since, .event (.filesChanged [⟨uri, false⟩, ⟨uri, true⟩])),
      (since, .query (.outline uri)), (since, .event (.configured .null))]
    Stands history uri "c:\n" ∧ (after (history ++ later)).buffers[uri]? = some "c:\n" ∧
      ∃ entry, (after (history ++ later)).cache.entry? uri = some entry ∧
        entry.table = scan "c:\n" uri := by
  intro path uri before since history later
  have stands : Stands history uri "c:\n" :=
    ⟨history.dropLast, before, .event (.changed uri ["b:\n", "c:\n"]), [], rfl,
      by simp [Move.sentText?], by simp⟩
  obtain ⟨_, _, kept⟩ := open_buffers_in_step history uri "c:\n"
  exact ⟨stands, kept stands later (by simp [later, Move.sentText?])⟩

end Server

end AsmIndex
