import PullIngest.Proofs.Bus.FanOut
import PullIngest.Proofs.Bus.Inboxes
import PullIngest.Proofs.Server.Run
import PullIngest.Proofs.Storage.Claims

/-!
# One answer to each create request

A create request is answered once, on its own reply channel and with its own id. Whatever is
refused leaves nothing behind, although a session is registered before its sink is opened; and
whoever reads the id of a new session can write to its channels at once.

* `Network.Listens`, `listens_perform`: a task that has subscribed to channels;
* `Refused`, `Repeated`, `Opened`: what an answer leaves behind;
* `AnswersOnce`, `answers_once`: which requests are answered how.
-/

namespace PullIngest

namespace Network

/-- A task has a mailbox that gets what is published on a channel. -/
def Listens (s : Network) (mailboxes : Table Channel ℕ) (c : Channel) : Prop :=
  ∃ n, mailboxes.get? c = some n ∧ n ∈ s.bus.subscribers c.name

variable {s : Network} {mailboxes : Table Channel ℕ} {c : Channel}

theorem listens_subscribe (party : Party) (c' : Channel) (h : s.Listens mailboxes c ∨ c = c') :
    (act party (s, mailboxes) (.subscribe c')).1.Listens
      (act party (s, mailboxes) (.subscribe c')).2 c := by
  show ∃ n, (mailboxes.set c' s.bus.nextMailbox).get? c = some n ∧
    n ∈ (s.bus.subscribe c'.name).2.subscribers c.name
  have hnew : s.bus.nextMailbox ∈ (s.bus.subscribe c'.name).2.subscribers c'.name := by
    rw [Bus.mem_subscribers, Bus.listed_subscribe, if_pos rfl, Bus.unread?_subscribe, if_pos rfl]
    exact ⟨by simp, rfl⟩
  rw [Table.get?_set]
  by_cases hc : c' = c
  · subst hc
    rw [if_pos rfl]
    exact ⟨_, rfl, hnew⟩
  · rw [if_neg hc]
    obtain ⟨n, hn, hmem⟩ := h.resolve_right fun e => hc e.symm
    refine ⟨n, hn, ?_⟩
    obtain ⟨hlisted, hlive⟩ := Bus.mem_subscribers.1 hmem
    rw [Bus.mem_subscribers, Bus.listed_subscribe, Bus.unread?_subscribe]
    refine ⟨?_, ?_⟩
    · split_ifs with he
      · exact List.mem_append_left _ (he ▸ hlisted)
      · exact hlisted
    · split_ifs
      · rfl
      · exact hlive

/-- A task listens on every channel that it has subscribed to. -/
theorem listens_perform (party : Party) (cs : List Channel)
    (h : s.Listens mailboxes c ∨ c ∈ cs) :
    (s.perform party mailboxes (cs.map .subscribe)).1.Listens
      (s.perform party mailboxes (cs.map .subscribe)).2 c := by
  induction cs generalizing s mailboxes with
  | nil => exact h.resolve_right List.not_mem_nil
  | cons c' cs ih =>
    refine ih ?_
    rcases h with h | h
    · exact .inl (listens_subscribe party c' (.inl h))
    · rcases List.mem_cons.1 h with h | h
      · exact .inl (listens_subscribe party c' (.inr h))
      · exact .inr h

end Network

namespace Server

open Action

variable {s : Server} {accepts : Channel → Bool} {now : ℕ} {storage storage' : Storage}
  {fresh session : String} {request : Message} {create : CreateSession} {sink : Sink}
  {e : TransferError}

/-! ### What an answer leaves behind -/

/-- The session of the request is named again, and nothing changes. -/
structure Repeated (s : Server) (storage : Storage) (request : Message) (session : String)
    (t : Turn) : Prop where
  published_eq : published t.actions = [(.reply request.id, createdReply request session)]
  server_eq : t.server = s
  storage_eq : t.storage = storage
  opened_eq : t.opened = none

/-- An error is told, and registry, accepted requests and claims are as before. -/
structure Refused (s : Server) (storage : Storage) (request : Message) (code : Int32)
    (text : String) (t : Turn) : Prop where
  published_eq : published t.actions = [(.reply request.id, .failure request.id code text)]
  server_eq : t.server = s
  claims_eq : t.storage.claims = storage.claims
  opened_eq : t.opened = none

/-- A session is opened under a fresh id and named in the answer. -/
structure Opened (s : Server) (now : ℕ) (storage : Storage) (fresh : String) (request : Message)
    (create : CreateSession) (sink : Sink) (storage' : Storage) (t : Turn) : Prop where
  published_eq : published t.actions = [(.reply request.id, createdReply request fresh)]
  lookup_eq : ∀ id, t.server.registry.lookup? id =
    if fresh = id then some (.new fresh create.name create.size) else s.registry.lookup? id
  ids_eq : t.server.registry.ids = s.registry.ids ++ [fresh]
  accepted_eq : ∀ correlation, t.server.accepted.get? correlation =
    if request.id = correlation then some fresh else s.accepted.get? correlation
  settings_eq : t.server.policy = s.policy ∧ t.server.destination = s.destination
  storage_eq : t.storage = storage'
  claims_eq : t.storage.claims = storage.claims ++ sink.claim?.toList
  opened_eq : t.opened = some (.new s.policy (.new fresh create.name create.size) sink now)
  /-- On whatever bus, the three channels have subscribers when the answer is published. -/
  listens : ∃ before after, t.actions =
      before ++ .publish (.reply request.id) (createdReply request fresh) :: after ∧
    ∀ net : Network, ∀ c ∈ [Channel.start fresh, .response fresh, .cancel fresh],
      (net.perform .server ∅ before).1.Listens (net.perform .server ∅ before).2 c

/-- **A create request is answered once, and all or nothing is done.** -/
structure AnswersOnce (s : Server) (accepts : Channel → Bool) (now : ℕ) (storage : Storage)
    (fresh : String) (request : Message) (t : Turn) : Prop where
  once : ∃ m, published t.actions = [(.reply request.id, m)] ∧ m.id = request.id
  /-- Whatever the request says, if its session lives. -/
  repeats : ∀ session, s.Serves request.id session → Repeated s storage request session t
  malformed : (∀ session, ¬ s.Serves request.id session) →
    ∀ e, request.payloadAs CreateSession .createSession = .error e →
      Refused s storage request 400 e.message t ∧ t.storage = storage
  misnamed : (∀ session, ¬ s.Serves request.id session) →
    ∀ create e, request.payloadAs CreateSession .createSession = .ok create →
      Name.validate create.name = .error e →
      Refused s storage request 400 e.message t ∧ t.storage = storage
  unopened : (∀ session, ¬ s.Serves request.id session) →
    ∀ create e storage', request.payloadAs CreateSession .createSession = .ok create →
      Name.validate create.name = .ok () →
      s.destination.openSink fresh create.name create.size storage = (.error e, storage') →
      ((∃ name, e = .conflict name) → Refused s storage request 409 e.message t) ∧
        ((¬ ∃ name, e = .conflict name) → Refused s storage request 500 e.message t)
  opens : (∀ session, ¬ s.Serves request.id session) →
    ∀ create sink storage', request.payloadAs CreateSession .createSession = .ok create →
      Name.validate create.name = .ok () →
      s.destination.openSink fresh create.name create.size storage = (.ok sink, storage') →
      Opened s now storage fresh request create sink storage' t

/-! ### The answers -/

theorem refused_refuse (hc : storage'.claims = storage.claims) (code : Int32)
    (line text : String) :
    Refused s storage request code text (s.refuse accepts storage' request code line text) where
  published_eq := published_reply accepts (.failure request.id code text)
  server_eq := rfl
  claims_eq := hc
  opened_eq := rfl

theorem refusal_code (e : TransferError) :
    ((∃ name, e = .conflict name) → (refusal e).1 = 409) ∧
      ((¬ ∃ name, e = .conflict name) → (refusal e).1 = 500) := by
  cases e with
  | conflict name => exact ⟨fun _ => rfl, fun h => absurd ⟨name, rfl⟩ h⟩
  | _ => exact ⟨nofun, fun _ => rfl⟩

/-- A session that gets no sink is taken back. -/
theorem unregister_register (hf : s.registry.has fresh = false) :
    (s.register fresh create).unregister fresh = s := by
  unfold register unregister
  dsimp only
  rw [Registry.remove_create hf]

theorem refused_openSession (hf : s.registry.has fresh = false)
    (hk : s.destination.openSink fresh create.name create.size storage = (.error e, storage')) :
    Refused s storage request (refusal e).1 e.message
      (s.openSession accepts now storage fresh request create) := by
  unfold openSession
  rw [hk]
  dsimp only
  rw [unregister_register hf]
  have h : Refused s storage request (refusal e).1 e.message
      (s.refuse accepts storage' request (refusal e).1 (refusal e).2 e.message) :=
    refused_refuse (Sink.claims_openSink_error hk) _ _ _
  exact ⟨h.published_eq, h.server_eq, h.claims_eq, h.opened_eq⟩

theorem opened_openSession (hf : s.registry.has fresh = false)
    (hk : s.destination.openSink fresh create.name create.size storage = (.ok sink, storage')) :
    Opened s now storage fresh request create sink storage'
      (s.openSession accepts now storage fresh request create) := by
  have hkeys : fresh ∉ s.registry.sessions.keys := by
    rw [Table.mem_keys]
    rintro ⟨session, hsession⟩
    simp [Registry.has, Table.has, hsession] at hf
  unfold openSession
  rw [hk]
  exact
    { published_eq := published_reply accepts (createdReply request fresh)
      lookup_eq := fun id => Table.get?_set _ _ _ _
      ids_eq := Table.keys_set_of_notMem hkeys _
      accepted_eq := fun correlation => Table.get?_set _ _ _ _
      settings_eq := ⟨rfl, rfl⟩
      storage_eq := rfl
      claims_eq := Sink.claims_openSink hk
      opened_eq := rfl
      listens := ⟨[Channel.start fresh, .response fresh, .cancel fresh].map .subscribe, _, rfl,
        fun net c hc => Network.listens_perform .server _ (.inr hc)⟩ }

theorem answers_once (hf : s.registry.has fresh = false) (accepts : Channel → Bool) (now : ℕ)
    (storage : Storage) (request : Message) :
    AnswersOnce s accepts now storage fresh request
      (s.handleCreate accepts now storage fresh request) := by
  have hnone (h : ∀ session, ¬ s.Serves request.id session) :
      s.acceptedSession? request.id = none := acceptedSession?_eq_none h
  refine ⟨?_, fun session h => ?_, fun h e hc => ?_, fun h create e hc hv => ?_,
    fun h create e storage' hc hv hk => ?_, fun h create sink storage' hc hv hk => ?_⟩
  · have ha := s.handleCreate_cases accepts now storage fresh request
    generalize s.handleCreate accepts now storage fresh request = t at ha
    cases ha with
    | repeats h => exact ⟨_, published_reply accepts (createdReply request _), rfl⟩
    | refuses h code line text =>
      exact ⟨_, published_reply accepts (.failure request.id code text), rfl⟩
    | @withdraws h create e storage' hc hv hk =>
      exact ⟨_, published_reply accepts (.failure request.id (refusal e).1 e.message), rfl⟩
    | opens h hc hv hk => exact ⟨_, published_reply accepts (createdReply request fresh), rfl⟩
  · unfold handleCreate
    rw [acceptedSession?_eq_some.2 h]
    exact ⟨published_reply accepts (createdReply request session), rfl, rfl, rfl⟩
  · unfold handleCreate
    rw [hnone h, hc]
    exact ⟨refused_refuse rfl _ _ _, rfl⟩
  · unfold handleCreate
    rw [hnone h, hc]
    dsimp only
    rw [hv]
    exact ⟨refused_refuse rfl _ _ _, rfl⟩
  · have hrefused : Refused s storage request (refusal e).1 e.message
        (s.handleCreate accepts now storage fresh request) := by
      unfold handleCreate
      rw [hnone h, hc]
      dsimp only
      rw [hv]
      exact refused_openSession hf hk
    obtain ⟨hconflict, hother⟩ := refusal_code e
    exact ⟨fun he => hconflict he ▸ hrefused, fun he => hother he ▸ hrefused⟩
  · unfold handleCreate
    rw [hnone h, hc]
    dsimp only
    rw [hv]
    exact opened_openSession hf hk

/-- A server, and the claim of a session that another one has opened in its directory. -/
def busy : Server := { destination := .directory "out".toList false }

def busyStorage : Storage := { claims := [Path.components "out/a/b".toList] }

/-- A request for the claimed file, spelled in another way. -/
def rival : Message := .carrying "k" .createSession (CreateSession.mk "a/./b" 1)

theorem rival_refused :
    busy.registry.has "s" = false ∧
      Refused busy busyStorage rival 409 (TransferError.conflict "a/./b").message
        (busy.handleCreate (fun _ => true) 0 busyStorage "s" rival) := by
  have hnobody : ∀ session, ¬ busy.Serves rival.id session := fun session h => nomatch h.1
  have hclaimed : busy.destination.openSink "s" "a/./b" 1 busyStorage =
      (.error (.conflict "a/./b"), busyStorage) := rfl
  have hfree : busy.registry.has "s" = false := rfl
  have h := answers_once hfree (fun _ => true) 0 busyStorage rival
  exact ⟨hfree, (h.unopened hnobody _ _ _ (payloadAs_carrying _ _ _) rfl hclaimed).1 ⟨_, rfl⟩⟩

end Server

end PullIngest
