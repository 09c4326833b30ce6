import PullIngest.Proofs.Coordinator.Turn
import PullIngest.Proofs.Wire.Payload
import PullIngest.Server

/-!
# Answering a create request

* `Serves`: which session a request has (`acceptedSession?_eq_some`);
* `handleCreate_cases`: everything that a server can do with a create request;
* `publish_of_handleCreate`: whatever it does, it only replies.
-/

namespace PullIngest.Server

/-- The session was opened for a request and is still registered. -/
def Serves (s : Server) (correlation session : String) : Prop :=
  s.accepted.get? correlation = some session ∧ s.registry.has session = true

theorem acceptedSession?_eq_some {s : Server} {correlation session : String} :
    s.acceptedSession? correlation = some session ↔ s.Serves correlation session := by
  unfold acceptedSession? Serves
  rw [Option.bind_eq_some_iff]
  constructor
  · rintro ⟨id, hid, h⟩
    split_ifs at h with hr
    obtain rfl := Option.some.inj h
    exact ⟨hid, hr⟩
  · rintro ⟨hid, hr⟩
    exact ⟨session, hid, if_pos hr⟩

theorem acceptedSession?_eq_none {s : Server} {correlation : String}
    (h : ∀ session, ¬ s.Serves correlation session) : s.acceptedSession? correlation = none := by
  cases hs : s.acceptedSession? correlation with
  | none => rfl
  | some session => exact absurd (acceptedSession?_eq_some.1 hs) (h session)

/-- A request is repeated, refused, or opens a session, which is taken back if it gets no sink. -/
inductive Answers (s : Server) (accepts : Channel → Bool) (now : ℕ) (storage : Storage)
    (fresh : String) (request : Message) : Turn → Prop
  /-- The session that was opened for the request still lives. -/
  | repeats {session : String} (h : s.acceptedSession? request.id = some session) :
      Answers s accepts now storage fresh request
        { server := s, storage, actions := reply accepts (createdReply request session) }
  | refuses (h : s.acceptedSession? request.id = none) (code : Int32) (line text : String) :
      Answers s accepts now storage fresh request
        (s.refuse accepts storage request code line text)
  | withdraws (h : s.acceptedSession? request.id = none) {create : CreateSession}
      {e : TransferError} {storage' : Storage}
      (hc : request.payloadAs CreateSession .createSession = .ok create)
      (hv : Name.validate create.name = .ok ())
      (hk : s.destination.openSink fresh create.name create.size storage = (.error e, storage')) :
      Answers s accepts now storage fresh request
        { ((s.register fresh create).unregister fresh).refuse accepts storage' request (refusal e).1
            (refusal e).2 e.message with entries := 2 }
  | opens (h : s.acceptedSession? request.id = none) {create : CreateSession} {sink : Sink}
      {storage' : Storage}
      (hc : request.payloadAs CreateSession .createSession = .ok create)
      (hv : Name.validate create.name = .ok ())
      (hk : s.destination.openSink fresh create.name create.size storage = (.ok sink, storage')) :
      Answers s accepts now storage fresh request
        { server := { s with registry := s.registry.create fresh create.name create.size
                             accepted := s.accepted.set request.id fresh }
          storage := storage'
          actions := [.subscribe (.start fresh), .subscribe (.response fresh),
            .subscribe (.cancel fresh)] ++ reply accepts (createdReply request fresh)
          opened := some (.new s.policy (.new fresh create.name create.size) sink now)
          entries := 1 }

/-- Everything that a server can do with a create request. -/
theorem handleCreate_cases (s : Server) (accepts : Channel → Bool) (now : ℕ) (storage : Storage)
    (fresh : String) (request : Message) :
    Answers s accepts now storage fresh request
      (s.handleCreate accepts now storage fresh request) := by
  unfold handleCreate
  -- In the order of the code: a known request, the payload, the name, the sink.
  cases h : s.acceptedSession? request.id with
  | some session => exact .repeats h
  | none =>
    dsimp only
    split
    · exact .refuses h _ _ _
    · next create hc =>
      split
      · exact .refuses h _ _ _
      · next hv =>
        unfold openSession
        dsimp only
        split
        · next hk => exact .withdraws h hc hv hk
        · next hk => exact .opens h hc hv hk

/-- An answer tells which session was opened. -/
theorem createdReply_inj {request request' : Message} {session session' : String}
    (h : createdReply request session = createdReply request' session') : session = session' := by
  have hp := congrArg (fun m => m.payloadAs SessionCreated .sessionCreated) h
  simp only [createdReply, payloadAs_carrying] at hp
  exact congrArg SessionCreated.id (Except.ok.inj hp)

/-- A reply is published once, whether the bus takes it or not. -/
theorem published_reply (accepts : Channel → Bool) (answer : Message) :
    Action.published (reply accepts answer) = [(.reply answer.id, answer)] := by
  unfold reply
  dsimp only
  split_ifs <;> rfl

theorem publish_of_reply {accepts : Channel → Bool} {answer : Message} {channel : Channel}
    {m : Message} {id : String} (h : .publish channel m ∈ reply accepts answer)
    (hid : answer.id = id) : channel = .reply id := by
  subst hid
  unfold reply at h
  dsimp only at h
  split_ifs at h <;> simp at h <;> exact h.1

theorem publish_of_refusal {accepts : Channel → Bool} {request : Message} {code : Int32}
    {line text : String} {channel : Channel} {m : Message}
    (h : .publish channel m ∈ .log line :: reply accepts (.failure request.id code text)) :
    channel = .reply request.id := by
  rcases List.mem_cons.1 h with h | h
  · cases h
  · exact publish_of_reply h rfl

/-- Whatever a server does with a create request, it only replies. -/
theorem publish_of_handleCreate {s : Server} {accepts : Channel → Bool} {now : ℕ}
    {storage : Storage} {fresh : String} {request : Message} {channel : Channel} {m : Message}
    (h : .publish channel m ∈ (s.handleCreate accepts now storage fresh request).actions) :
    channel = .reply request.id := by
  have ha := s.handleCreate_cases accepts now storage fresh request
  generalize s.handleCreate accepts now storage fresh request = t at ha h
  cases ha with
  | repeats hr => exact publish_of_reply h rfl
  | refuses hr code line text => exact publish_of_refusal h
  | withdraws hr hc hv hk => exact publish_of_refusal h
  | opens hr hc hv hk =>
    rcases List.mem_append.1 h with h | h
    · simp at h
    · exact publish_of_reply h rfl

end PullIngest.Server
