import PullIngest.Proofs.Bus.Inboxes
import PullIngest.Proofs.Coordinator.Custody
import PullIngest.Proofs.Server.Run

/-!
# A server from its start to its return

A server takes create requests until it is told to stop or the create channel closes, waits for its
coordinators, and returns. A session is registered before its sink is opened and struck out again if
there is no sink for it, and the coordinators of other sessions go on meanwhile. They keep going in
any order, until they exit and are reaped.

* `Tenure`, `Step`, `Reachable`: states, steps and runs;
* `reachable_answer`: a request that nobody interrupts is answered as `Server.handleCreate` says;
* `Sound`, `Sound.step`, `sound_of_reachable`: what is registered, remembered, told and claimed.
-/

namespace PullIngest

open Coordinator

/-- The create request that a server has in hand, once a session is registered for it. -/
inductive Hand where
  | empty
  /-- The sink of the session is still to be opened. -/
  | registered (session : String) (request : Message) (create : CreateSession)
  /-- There is no sink for the session, and it is still to be struck out. -/
  | unopened (session : String) (request : Message) (cause : TransferError)

/-- The session that is registered and has no coordinator yet. -/
def Hand.session? : Hand → Option String
  | .empty => none
  | .registered session _ _ => some session
  | .unopened session _ _ => some session

/-- How far a server has come. -/
inductive Watch where
  /-- It takes create requests. -/
  | serving
  /-- It waits for its coordinators. -/
  | draining
  | returned
  deriving DecidableEq

/-- A server with its coordinators, and what they have said and done. -/
structure Tenure extends Service where
  hand : Hand := .empty
  watch : Watch := .serving
  /-- Everything that the server and its coordinators have published, whether the bus took it or
  not. -/
  told : List (Channel × Message) := []
  /-- The sessions of coordinators that have exited, as they were then. -/
  ended : List Session := []

namespace Tenure

/-- A server that has not taken any request. -/
def start (policy : Policy) (destination : Destination) (storage : Storage) : Tenure where
  toService := .start policy destination storage

/-- The server answers a create request in one go. -/
def answer (t : Tenure) (accepts : Channel → Bool) (now : ℕ) (fresh : String)
    (request : Message) : Tenure :=
  { t with
    toService := t.toService.answer accepts now fresh request
    told := t.told ++
      Action.published (t.server.handleCreate accepts now t.storage fresh request).actions }

/-- The server registers a session for a create request. -/
def register (t : Tenure) (fresh : String) (request : Message) (create : CreateSession) : Tenure :=
  { t with server := t.server.register fresh create
           issued := fresh :: t.issued
           hand := .registered fresh request create }

/-- The server opens the sink of the session in hand, and with it the session. -/
def openSink (t : Tenure) (accepts : Channel → Bool) (now : ℕ) (session : String)
    (request : Message) (create : CreateSession) : Tenure :=
  match t.server.destination.openSink session create.name create.size t.storage with
  | (.error e, storage) => { t with storage, hand := .unopened session request e }
  | (.ok sink, storage) =>
    let c := Coordinator.new t.server.policy (.new session create.name create.size) sink now
    { t with
      server := { t.server with accepted := t.server.accepted.set request.id session }
      storage
      running := t.running ++ [(request.id, c)]
      hand := .empty
      told := t.told ++
        Action.published (Server.reply accepts (Server.createdReply request session)) }

/-- The server strikes out the session in hand and refuses the request. -/
def withdraw (t : Tenure) (accepts : Channel → Bool) (session : String) (request : Message)
    (cause : TransferError) : Tenure :=
  { t with
    server := t.server.unregister session
    hand := .empty
    told := t.told ++ Action.published
      (Server.reply accepts (.failure request.id (Server.refusal cause).1 cause.message)) }

/-- One coordinator takes a turn and goes on. -/
def advance (t : Tenure) (before after : List (String × Coordinator)) (k : String) (u : Turn) :
    Tenure :=
  { t with toService := t.toService.advance before after k u
           told := t.told ++ Action.published u.actions }

/-- One coordinator takes its last turn. -/
def retire (t : Tenure) (before after : List (String × Coordinator)) (k : String) (u : Turn) :
    Tenure :=
  { t with toService := t.toService.retire before after k u
           told := t.told ++ Action.published u.actions
           ended := t.ended ++ [u.coordinator.session] }

/-- The server notices that one coordinator has exited. -/
def reap (t : Tenure) (before after : List String) (k : String) : Tenure :=
  { t with server := t.server.reap k, exited := before ++ after }

/-- The steps of a server and its coordinators. -/
inductive Step : Tenure → Tenure → Prop
  /-- A request for which no session is registered. -/
  | answer {t : Tenure} (hw : t.watch = .serving) (hh : t.hand = .empty)
      (accepts : Channel → Bool) (now : ℕ) (fresh : String) (request : Message)
      (he : (t.server.handleCreate accepts now t.storage fresh request).entries = 0) :
      Step t (t.answer accepts now fresh request)
  | register {t : Tenure} (hw : t.watch = .serving) (hh : t.hand = .empty) {fresh : String}
      (hf : fresh ∉ t.issued) {request : Message} {create : CreateSession}
      (ha : t.server.acceptedSession? request.id = none)
      (hc : request.payloadAs CreateSession .createSession = .ok create)
      (hv : Name.validate create.name = .ok ()) : Step t (t.register fresh request create)
  | openSink {t : Tenure} {session : String} {request : Message} {create : CreateSession}
      (hh : t.hand = .registered session request create) (accepts : Channel → Bool) (now : ℕ) :
      Step t (t.openSink accepts now session request create)
  | withdraw {t : Tenure} {session : String} {request : Message} {cause : TransferError}
      (hh : t.hand = .unopened session request cause) (accepts : Channel → Bool) :
      Step t (t.withdraw accepts session request cause)
  | advance {t : Tenure} {before after : List (String × Coordinator)} {k : String}
      {c : Coordinator} (hr : t.running = before ++ (k, c) :: after) {e : Event}
      (he : e = .shutdown → t.stopping = true) (accepts : Channel → Bool) (now : ℕ)
      (hn : (c.take ⟨e, accepts, now, t.storage⟩).coordinator.stage ≠ .exited) :
      Step t (t.advance before after k (c.take ⟨e, accepts, now, t.storage⟩))
  | retire {t : Tenure} {before after : List (String × Coordinator)} {k : String}
      {c : Coordinator} (hr : t.running = before ++ (k, c) :: after) {e : Event}
      (he : e = .shutdown → t.stopping = true) (accepts : Channel → Bool) (now : ℕ)
      (hx : (c.take ⟨e, accepts, now, t.storage⟩).coordinator.stage = .exited) :
      Step t (t.retire before after k (c.take ⟨e, accepts, now, t.storage⟩))
  | reap {t : Tenure} (hw : t.watch ≠ .returned) (hh : t.hand = .empty) {before after : List String}
      {k : String} (hx : t.exited = before ++ k :: after) : Step t (t.reap before after k)
  /-- Somebody tells the server to stop. -/
  | shutdown {t : Tenure} : Step t { t with stopping := true }
  /-- The server takes no more requests, since it was told to stop or the create channel is
  closed. -/
  | leave {t : Tenure} (hw : t.watch = .serving) (hh : t.hand = .empty) :
      Step t { t with stopping := true, watch := .draining }
  | finish {t : Tenure} (hw : t.watch = .draining) (hr : t.running = []) (hx : t.exited = []) :
      Step t { t with watch := .returned }
  /-- Somebody else changes the disk. -/
  | disturb {t : Tenure} (disk : Disk) : Step t { t with storage := { t.storage with disk } }

/-- What can be reached from a state, in any order of steps. -/
inductive Reachable (t₀ : Tenure) : Tenure → Prop
  | start : Reachable t₀ t₀
  | step {t t' : Tenure} (h : Reachable t₀ t) (hs : Step t t') : Reachable t₀ t'

variable {t t' : Tenure} {accepts : Channel → Bool} {now : ℕ} {fresh session id : String}
  {request : Message} {create : CreateSession} {c : Coordinator} {k : String}

/-! ### A request that nobody interrupts -/

theorem openSink_of_error {e : TransferError} {storage : Storage}
    (hk : t.server.destination.openSink session create.name create.size t.storage =
      (.error e, storage)) (accepts : Channel → Bool) (now : ℕ) (request : Message) :
    t.openSink accepts now session request create =
      { t with storage, hand := .unopened session request e } := by
  unfold openSink
  rw [hk]

theorem openSink_of_ok {sink : Sink} {storage : Storage}
    (hk : t.server.destination.openSink session create.name create.size t.storage =
      (.ok sink, storage)) (accepts : Channel → Bool) (now : ℕ) (request : Message) :
    t.openSink accepts now session request create =
      { t with
        server := { t.server with accepted := t.server.accepted.set request.id session }
        storage
        running := t.running ++
          [(request.id, .new t.server.policy (.new session create.name create.size) sink now)]
        hand := .empty
        told := t.told ++ [(.reply request.id, Server.createdReply request session)] } := by
  unfold openSink
  rw [hk, Server.published_reply]
  rfl

/-- The steps that answer a request make up `Server.handleCreate`. -/
theorem reachable_answer (hw : t.watch = .serving) (hh : t.hand = .empty)
    (hf : fresh ∉ t.issued) (accepts : Channel → Bool) (now : ℕ) (request : Message) :
    Reachable t (t.answer accepts now fresh request) := by
  cases he : (t.server.handleCreate accepts now t.storage fresh request).entries with
  | zero => exact .step .start (.answer hw hh accepts now fresh request he)
  | succ n =>
    have hanswers := t.server.handleCreate_cases accepts now t.storage fresh request
    unfold answer Service.answer
    generalize t.server.handleCreate accepts now t.storage fresh request = u at hanswers he ⊢
    cases hanswers with
    | repeats => cases he
    | refuses => cases he
    | @withdraws ha create e storage hc hv hk =>
      have hregister := Reachable.step .start (.register hw hh hf ha hc hv)
      have hopen := Reachable.step hregister (.openSink rfl accepts now)
      rw [openSink_of_error (t := t.register fresh request create) hk] at hopen
      have hwithdraw := Reachable.step hopen (.withdraw rfl accepts)
      simpa [withdraw, register, hh, Server.refuse, Action.published] using hwithdraw
    | @opens ha create sink storage hc hv hk =>
      have hregister := Reachable.step .start (.register hw hh hf ha hc hv)
      have hopen := Reachable.step hregister (.openSink rfl accepts now)
      rw [openSink_of_ok (t := t.register fresh request create) hk] at hopen
      have htold : Action.published (.subscribe (.start fresh) :: .subscribe (.response fresh) ::
          .subscribe (.cancel fresh) :: Server.reply accepts (Server.createdReply request fresh)) =
            [(.reply request.id, Server.createdReply request fresh)] := Server.published_reply _ _
      simpa [register, hh, Server.register, htold] using hopen

/-! ### What is registered, remembered, told and claimed -/

/-- Some answer named a session. -/
def Answered (told : List (Channel × Message)) (session : String) : Prop :=
  ∃ request, (.reply request.id, Server.createdReply request session) ∈ told

/-- The claims that the sinks of coordinators hold. -/
def claimed (running : List (String × Coordinator)) : List (List Path.Component) :=
  running.filterMap fun p => p.2.sink.claim?

/-- Registered are the sessions with a running coordinator and the one in hand. A request that is
remembered has a coordinator that is not reaped yet, and a session that was named has one that runs
or has told its verdict. The claims are those of the sinks of running coordinators. -/
structure Sound (t : Tenure) : Prop where
  has_iff : ∀ id, t.server.registry.has id = true ↔ id ∈ t.liveIds ∨ t.hand.session? = some id
  nodup : t.liveIds.Nodup
  apart : ∀ id ∈ t.liveIds, t.hand.session? ≠ some id
  issued : ∀ id, t.server.registry.has id = true → id ∈ t.issued
  remembered : ∀ k id, t.server.accepted.get? k = some id → k ∈ t.running.map Prod.fst ++ t.exited
  honest : ∀ p ∈ t.running, Honest t.told p.2
  answered : ∀ id, Answered t.told id → id ∈ t.liveIds ∨ ∃ s ∈ t.ended, s.id = id
  ended : ∀ s ∈ t.ended, ∃ success, s.outcome? = some (.ofBool success) ∧
    Told t.told s.id success
  claims : t.storage.claims.Perm (claimed t.running)
  idle : t.watch ≠ .serving → t.hand = .empty
  returned : t.watch = .returned → t.running = [] ∧ t.exited = []

theorem sound_start (policy : Policy) (destination : Destination) {storage : Storage}
    (hc : storage.claims = []) : Sound (start policy destination storage) where
  has_iff id := by simp [start, Service.start, Service.liveIds, Hand.session?, Registry.has,
    Table.has]
  nodup := List.nodup_nil
  apart id h := absurd h List.not_mem_nil
  issued id h := by simp [start, Service.start, Registry.has, Table.has] at h
  remembered k id h := by simp [start, Service.start] at h
  honest p h := absurd h List.not_mem_nil
  answered := fun id ⟨_, h⟩ => absurd h List.not_mem_nil
  ended s h := absurd h List.not_mem_nil
  claims := List.Perm.of_eq hc
  idle h := absurd rfl h
  returned h := nomatch h

/-! ### What is told -/

theorem answered_append {told told' : List (Channel × Message)}
    (h : Answered (told ++ told') session) : Answered told session ∨ Answered told' session := by
  obtain ⟨request, h⟩ := h
  exact (List.mem_append.1 h).imp (fun h => ⟨request, h⟩) fun h => ⟨request, h⟩

/-- A coordinator answers no create requests. -/
theorem not_answered_turn {x : Occasion} (h : Staged c) :
    ¬ Answered (Action.published (c.take x).actions) session := by
  rintro ⟨request, hm⟩
  rcases publish_of_take h (Action.mem_published.1 hm) with ⟨_, hs⟩ | ⟨_, hs, -⟩ <;> cases hs

theorem not_answered_failure {code : Int32} {text : String} :
    ¬ Answered [(.reply request.id, .failure request.id code text)] session := by
  rintro ⟨request', hm⟩
  have hmessage := congrArg (fun p => p.2.type) (List.mem_singleton.1 hm)
  cases hmessage

theorem answered_createdReply
    (h : Answered [(.reply request.id, Server.createdReply request session)] id) : id = session := by
  obtain ⟨request', hm⟩ := h
  exact Server.createdReply_inj (congrArg Prod.snd (List.mem_singleton.1 hm))

/-! ### Steps of the server -/

/-- More is told, but of no other sessions. -/
theorem Sound.told (h : Sound t) {told' : List (Channel × Message)}
    (hnew : ∀ id, Answered told' id → id ∈ t.liveIds) :
    Sound { t with told := t.told ++ told' } := by
  have hsub : t.told ⊆ t.told ++ told' := List.subset_append_left _ _
  refine ⟨h.has_iff, h.nodup, h.apart, h.issued, h.remembered, fun p hp => (h.honest p hp).mono hsub,
    fun id ha => ?_, fun s hs => ?_, h.claims, h.idle, h.returned⟩
  · exact (answered_append ha).elim (h.answered id) fun ha => .inl (hnew id ha)
  · obtain ⟨success, ho, ht⟩ := h.ended s hs
    exact ⟨success, ho, hsub ht⟩

theorem Sound.issue (h : Sound t) (fresh : String) :
    Sound { t with issued := fresh :: t.issued } :=
  ⟨h.has_iff, h.nodup, h.apart, fun id hid => List.mem_cons_of_mem _ (h.issued id hid),
    h.remembered, h.honest, h.answered, h.ended, h.claims, h.idle, h.returned⟩

theorem Sound.answer (h : Sound t) (hh : t.hand = .empty) (accepts : Channel → Bool) (now : ℕ)
    (fresh : String) (request : Message)
    (he : (t.server.handleCreate accepts now t.storage fresh request).entries = 0) :
    Sound (t.answer accepts now fresh request) := by
  have hanswers := t.server.handleCreate_cases accepts now t.storage fresh request
  unfold Tenure.answer Service.answer
  generalize t.server.handleCreate accepts now t.storage fresh request = u at hanswers he ⊢
  cases hanswers with
  | @repeats session ha =>
    -- The session that is named is registered, and nothing is in hand.
    have hregistered := (Server.acceptedSession?_eq_some.1 ha).2
    have hlive : session ∈ t.liveIds :=
      ((h.has_iff _).1 hregistered).resolve_right (by rw [hh]; exact nofun)
    simp only [Option.map_none, Option.toList_none, List.append_nil, Server.published_reply]
    exact (h.told fun id ha => answered_createdReply ha ▸ hlive).issue fresh
  | refuses ha code line text =>
    have htold := Server.published_reply accepts (.failure request.id code text)
    simp only [Server.refuse, Option.map_none, Option.toList_none, List.append_nil]
    exact (h.told fun id ha => absurd (htold ▸ ha) not_answered_failure).issue fresh
  | withdraws => cases he
  | opens => cases he

theorem Sound.register (h : Sound t) (hw : t.watch = .serving) (hh : t.hand = .empty)
    (hf : fresh ∉ t.issued) (request : Message) (create : CreateSession) :
    Sound (t.register fresh request create) where
  has_iff id := by
    show (t.server.registry.create fresh create.name create.size).has id = true ↔
      id ∈ t.liveIds ∨ some fresh = some id
    rw [Registry.has_create, h.has_iff, hh]
    simp [Hand.session?, or_comm]
  nodup := h.nodup
  apart id hid he := by
    obtain rfl := Option.some.inj he
    exact hf (h.issued _ ((h.has_iff _).2 (.inl hid)))
  issued id hid := by
    rcases (Registry.has_create _ _ _ _ _).1 hid with rfl | hid
    · exact List.mem_cons_self
    · exact List.mem_cons_of_mem _ (h.issued id hid)
  remembered := h.remembered
  honest := h.honest
  answered := h.answered
  ended := h.ended
  claims := h.claims
  idle hw' := absurd hw hw'
  returned hw' := by cases hw.symm.trans hw'

/-- Only a server that takes requests has one in hand. -/
theorem Sound.serving (h : Sound t) (hh : t.hand ≠ .empty) : t.watch = .serving := by
  by_contra hw
  exact hh (h.idle hw)

/-- A session in hand gets its coordinator. -/
theorem Sound.opened (h : Sound t) (hh : t.hand = .registered session request create) {sink : Sink}
    {storage : Storage} (hc : storage.claims = t.storage.claims ++ sink.claim?.toList) (now : ℕ) :
    Sound { t with
      server := { t.server with accepted := t.server.accepted.set request.id session }
      storage
      running := t.running ++
        [(request.id, .new t.server.policy (.new session create.name create.size) sink now)]
      hand := .empty } := by
  have hhand : t.hand.session? = some session := by rw [hh]; rfl
  set c : Coordinator := .new t.server.policy (.new session create.name create.size) sink now
  have hlive : ((t.running ++ [(request.id, c)]).map fun p => p.2.session.id) =
      t.liveIds ++ [session] := by simp [Service.liveIds, c, Coordinator.new, Session.new]
  have hmem (id : String) :
      id ∈ (t.running ++ [(request.id, c)]).map (fun p => p.2.session.id) ↔
        id ∈ t.liveIds ∨ some session = some id := by
    rw [hlive, List.mem_append, List.mem_singleton, Option.some_inj, eq_comm (a := id)]
  have hempty (id : String) : Hand.empty.session? ≠ some id := (Option.some_ne_none id).symm
  refine ⟨fun id => ?_, ?_, fun id _ => hempty id, h.issued, fun k id hk => ?_, fun p hp => ?_,
    fun id ha => ?_, h.ended, ?_, fun _ => rfl, fun hw => ?_⟩
  · -- The session was registered when it came into hand.
    refine ((h.has_iff id).trans ?_).trans (or_iff_left (hempty id)).symm
    rw [hhand]
    exact (hmem id).symm
  · show ((t.running ++ [(request.id, c)]).map fun p => p.2.session.id).Nodup
    rw [hlive]
    simpa [List.nodup_append] using
      ⟨h.nodup, fun id hid he => h.apart id hid (hhand.trans (congrArg some he.symm))⟩
  · simp only [Table.get?_set] at hk
    split_ifs at hk with he
    · simp [he]
    · have hbefore := h.remembered k id hk
      simp only [List.map_append, List.mem_append] at hbefore ⊢
      tauto
  · rcases List.mem_append.1 hp with hp | hp
    · exact h.honest p hp
    · obtain rfl := List.mem_singleton.1 hp
      exact honest_new _ _ _ _ _ _ _
  · exact (h.answered id ha).imp_left fun hid => (hmem id).2 (.inl hid)
  · show storage.claims.Perm (claimed (t.running ++ [(request.id, c)]))
    have hclaimed : claimed (t.running ++ [(request.id, c)]) =
        claimed t.running ++ sink.claim?.toList := by
      unfold claimed
      rw [List.filterMap_append]
      cases hk : sink.claim? <;> simp [c, Coordinator.new, hk]
    rw [hclaimed, hc]
    exact h.claims.append_right _
  · have hbusy : t.hand ≠ .empty := by simp [hh]
    cases (h.serving hbusy).symm.trans hw

theorem Sound.openSink (h : Sound t) (hh : t.hand = .registered session request create)
    (accepts : Channel → Bool) (now : ℕ) :
    Sound (t.openSink accepts now session request create) := by
  cases hk : t.server.destination.openSink session create.name create.size t.storage with
  | mk r storage =>
    cases r with
    | error e =>
      have hhand : t.hand.session? = some session := by rw [hh]; rfl
      have hserving := h.serving (by rw [hh]; exact nofun)
      rw [openSink_of_error hk]
      refine ⟨fun id => ?_, h.nodup, fun id hid => ?_, h.issued, h.remembered, h.honest, h.answered,
        h.ended, ?_, fun hw => absurd hserving hw, h.returned⟩
      · rw [h.has_iff, hhand]
        rfl
      · show some session ≠ some id
        exact hhand ▸ h.apart id hid
      · exact Sink.claims_openSink_error hk ▸ h.claims
    | ok sink =>
      rw [openSink_of_ok hk]
      refine (h.opened hh (Sink.claims_openSink hk) now).told fun id ha => ?_
      obtain rfl := answered_createdReply ha
      simp [Service.liveIds, Coordinator.new, Session.new]

theorem Sound.withdraw (h : Sound t) {cause : TransferError}
    (hh : t.hand = .unopened session request cause) (accepts : Channel → Bool) :
    Sound (t.withdraw accepts session request cause) := by
  have hhand : t.hand.session? = some session := by rw [hh]; rfl
  have hout : Sound { t with server := t.server.unregister session, hand := .empty } := by
    refine ⟨fun id => ?_, h.nodup, fun id _ => nofun, fun id hid => ?_, h.remembered, h.honest,
      h.answered, h.ended, h.claims, fun _ => rfl, h.returned⟩
    · show (t.server.registry.remove session).has id = true ↔ id ∈ t.liveIds ∨ none = some id
      rw [Registry.has_remove, h.has_iff, hhand]
      have hne : id ∈ t.liveIds → session ≠ id := fun hid he => h.apart id hid (he ▸ hhand)
      constructor
      · rintro ⟨hne, hid | he⟩
        · exact .inl hid
        · exact absurd (Option.some.inj he) hne
      · rintro (hid | he)
        · exact ⟨hne hid, .inl hid⟩
        · cases he
    · exact h.issued id ((Registry.has_remove _ _ _).1 hid).2
  have htold := Server.published_reply accepts
    (.failure request.id (Server.refusal cause).1 cause.message)
  exact hout.told fun id ha => absurd (htold ▸ ha) not_answered_failure

theorem Sound.reap (h : Sound t) (hw : t.watch ≠ .returned) {before after : List String}
    (hx : t.exited = before ++ k :: after) : Sound (t.reap before after k) := by
  refine ⟨h.has_iff, h.nodup, h.apart, h.issued, fun k' id hk => ?_, h.honest, h.answered, h.ended,
    h.claims, h.idle, fun hr => absurd hr hw⟩
  -- Whatever session the request had last, it is forgotten now.
  simp only [Tenure.reap, Server.reap, Table.get?_erase] at hk
  split_ifs at hk with hne
  have hbefore := h.remembered k' id hk
  rw [hx] at hbefore
  simp only [List.mem_append, List.mem_cons] at hbefore
  simp only [Tenure.reap, List.mem_append]
  tauto

/-! ### Steps of the coordinators -/

/-- All claims, with that of one coordinator first. -/
theorem claimed_middle (before after : List (String × Coordinator)) (k : String)
    (c : Coordinator) : (claimed (before ++ (k, c) :: after)).Perm
      (c.sink.claim?.toList ++ claimed (before ++ after)) := by
  unfold claimed
  cases hk : c.sink.claim? with
  | none => simp [hk]
  | some steps =>
    simp only [List.filterMap_append, List.filterMap_cons, hk, Option.toList_some]
    exact List.perm_middle

section Turn

variable {before after : List (String × Coordinator)}
  (hr : t.running = before ++ (k, c) :: after) (x : Occasion)

include hr

theorem Sound.turn_told (h : Sound t) :
    Sound { t with told := t.told ++ Action.published (c.take x).actions } := by
  have hc : (k, c) ∈ t.running := by simp [hr]
  exact h.told fun id ha => absurd ha (not_answered_turn (h.honest _ hc).staged)

/-- The claims after a turn. -/
theorem Sound.claims_turn (h : Sound t) (hx : x.storage = t.storage) :
    (c.take x).storage.claims.Perm
      ((c.take x).coordinator.sink.claim?.toList ++ claimed (before ++ after)) := by
  have hc : Honest t.told c := h.honest (k, c) (by simp [hr])
  have hclaims := h.claims
  rw [hr] at hclaims
  exact hc.claims_take (hx ▸ hclaims.trans (claimed_middle before after k c))

theorem Sound.advance (h : Sound t) (hx : x.storage = t.storage)
    (hn : (c.take x).coordinator.stage ≠ .exited) :
    Sound (t.advance before after k (c.take x)) := by
  have htold := h.turn_told hr x
  have hc : Honest t.told c := h.honest (k, c) (by simp [hr])
  have hlive : (t.advance before after k (c.take x)).liveIds = t.liveIds :=
    Service.liveIds_advance hr x
  have hhas (id : String) : (t.advance before after k (c.take x)).server.registry.has id =
      t.server.registry.has id := Registry.has_update _ _ _
  refine ⟨fun id => ?_, ?_, fun id hid => ?_, fun id hid => ?_, fun k' id hk => ?_, fun p hp => ?_,
    fun id ha => ?_, htold.ended, ?_, h.idle, fun hw => ?_⟩
  · rw [hhas, hlive]
    exact h.has_iff id
  · rw [hlive]
    exact h.nodup
  · exact h.apart id (hlive ▸ hid)
  · exact h.issued id ((hhas id).symm.trans hid)
  · have hbefore := h.remembered k' id hk
    rw [hr] at hbefore
    simpa [Tenure.advance, Service.advance] using hbefore
  · rcases List.mem_append.1 hp with hp | hp
    · exact htold.honest p (by simp [hr, hp])
    · rcases List.mem_cons.1 hp with rfl | hp
      · exact hc.take hn
      · exact htold.honest p (by simp [hr, hp])
  · rw [hlive]
    exact htold.answered id ha
  · exact (h.claims_turn hr x hx).trans (claimed_middle before after k _).symm
  · have hnone := (h.returned hw).1
    rw [hr] at hnone
    simp at hnone

theorem Sound.retire (h : Sound t) (hx : x.storage = t.storage)
    (he : (c.take x).coordinator.stage = .exited) :
    Sound (t.retire before after k (c.take x)) := by
  have htold := h.turn_told hr x
  have hdeparts := (h.honest (k, c) (by simp [hr])).exit he
  have hmem (id : String) : id ∈ (t.retire before after k (c.take x)).liveIds ↔
      c.session.id ≠ id ∧ id ∈ t.liveIds := Service.mem_liveIds_retire hr x h.nodup id
  have hhas (id : String) :
      (t.retire before after k (c.take x)).server.registry.has id = true ↔
        c.session.id ≠ id ∧ t.server.registry.has id = true := by
    rw [← hdeparts.session_eq, ← Registry.has_update t.server.registry]
    exact Registry.has_remove _ _ _
  have hmine : c.session.id ∈ t.liveIds := by simp [Service.liveIds, hr]
  refine ⟨fun id => ?_, ?_, fun id hid => ?_, fun id hid => ?_, fun k' id hk => ?_, fun p hp => ?_,
    fun id ha => ?_, fun s hs => ?_, ?_, h.idle, fun hw => ?_⟩
  · -- The session in hand is not the one that ends.
    have hother : t.hand.session? = some id → c.session.id ≠ id :=
      fun hid he => h.apart _ hmine (he ▸ hid)
    rw [hhas, hmem, h.has_iff]
    show _ ↔ _ ∨ t.hand.session? = some id
    tauto
  · have hsub : (t.retire before after k (c.take x)).liveIds.Sublist t.liveIds := by
      rw [Service.liveIds_eq hr]
      simp [Service.liveIds, Tenure.retire, Service.retire]
    exact h.nodup.sublist hsub
  · exact h.apart id ((hmem id).1 hid).2
  · exact h.issued id ((hhas id).1 hid).2
  · -- The request of the coordinator that exits is still to be reaped.
    have hbefore := h.remembered k' id hk
    rw [hr] at hbefore
    simp only [List.map_append, List.map_cons, List.mem_append, List.mem_cons] at hbefore
    simp only [Tenure.retire, Service.retire, List.map_append, List.mem_append, List.mem_singleton]
    tauto
  · refine htold.honest p ?_
    have hp : p ∈ before ++ after := hp
    simp only [hr, List.mem_append, List.mem_cons] at hp ⊢
    tauto
  · rcases htold.answered id ha with hid | ⟨s, hs, hid⟩
    · by_cases he : c.session.id = id
      · exact .inr ⟨_, List.mem_append_right _ (List.mem_singleton_self _),
          hdeparts.session_eq ▸ he⟩
      · exact .inl ((hmem id).2 ⟨he, hid⟩)
    · exact .inr ⟨s, List.mem_append_left _ hs, hid⟩
  · rcases List.mem_append.1 hs with hs | hs
    · exact htold.ended s hs
    · obtain rfl := List.mem_singleton.1 hs
      obtain ⟨success, ho, ht⟩ := hdeparts.verdict
      rw [hdeparts.session_eq]
      exact ⟨success, ho, List.mem_append_left _ ht⟩
  · have hclaims := h.claims_turn hr x hx
    rwa [hdeparts.sink_eq, hdeparts.unclaimed] at hclaims
  · have hnone := (h.returned hw).1
    rw [hr] at hnone
    simp at hnone

end Turn

/-- The server only goes from one stage to the next, or the disk changes. -/
theorem Sound.passes (h : Sound t) (stopping : Bool) (watch : Watch) (disk : Disk)
    (hidle : watch ≠ .serving → t.hand = .empty)
    (hreturned : watch = .returned → t.running = [] ∧ t.exited = []) :
    Sound { t with stopping, watch, storage := { t.storage with disk } } :=
  ⟨h.has_iff, h.nodup, h.apart, h.issued, h.remembered, h.honest, h.answered, h.ended, h.claims,
    hidle, hreturned⟩

/-- Every step keeps a server sound. -/
theorem Sound.step (h : Sound t) (hs : Step t t') : Sound t' := by
  cases hs with
  | answer hw hh accepts now fresh request he => exact h.answer hh accepts now fresh request he
  | register hw hh hf ha hc hv => exact h.register hw hh hf _ _
  | openSink hh accepts now => exact h.openSink hh accepts now
  | withdraw hh accepts => exact h.withdraw hh accepts
  | advance hr he accepts now hn => exact h.advance hr _ rfl hn
  | retire hr he accepts now hx => exact h.retire hr _ rfl hx
  | reap hw hh hx => exact h.reap hw hx
  | shutdown => exact h.passes true t.watch t.storage.disk h.idle h.returned
  | leave hw hh => exact h.passes true .draining t.storage.disk (fun _ => hh) nofun
  | finish hw hr hx =>
    have hidle : t.hand = .empty := h.idle (by rw [hw]; exact nofun)
    exact h.passes t.stopping .returned t.storage.disk (fun _ => hidle) fun _ => ⟨hr, hx⟩
  | disturb disk => exact h.passes t.stopping t.watch disk h.idle h.returned

/-- Every state that a server can reach is sound. -/
theorem sound_of_reachable {policy : Policy} {destination : Destination} {storage : Storage}
    (hc : storage.claims = []) (h : Reachable (start policy destination storage) t) : Sound t := by
  induction h with
  | start => exact sound_start policy destination hc
  | step _ hstep ih => exact ih.step hstep

/-! ### When a server returns -/

/-- What a server leaves when it returns. -/
structure Cleared (t : Tenure) : Prop where
  registry : t.server.registry.ids = []
  accepted : t.server.accepted.keys = []
  claims : t.storage.claims = []
  /-- Every session that was named has its verdict, and the verdict was told. -/
  verdict : ∀ id, Answered t.told id → ∃ s ∈ t.ended, s.id = id ∧
    ∃ success, s.outcome? = some (.ofBool success) ∧ Told t.told id success

theorem Sound.cleared (h : Sound t) (hw : t.watch = .returned) : Cleared t := by
  obtain ⟨hrunning, hexited⟩ := h.returned hw
  have hhand : t.hand = .empty := h.idle (by rw [hw]; exact nofun)
  have hlive : t.liveIds = [] := by simp [Service.liveIds, hrunning]
  refine ⟨?_, ?_, ?_, fun id ha => ?_⟩
  · refine List.eq_nil_iff_forall_not_mem.2 fun id hid => ?_
    obtain ⟨s, hs⟩ := Table.mem_keys.1 hid
    have hhas : t.server.registry.has id = true := by simp [Registry.has, Table.has, hs]
    simpa [hlive, hhand, Hand.session?] using (h.has_iff id).1 hhas
  · refine List.eq_nil_iff_forall_not_mem.2 fun k hk => ?_
    obtain ⟨id, hid⟩ := Table.mem_keys.1 hk
    simpa [hrunning, hexited] using h.remembered k id hid
  · have hclaims := h.claims
    rw [hrunning] at hclaims
    exact hclaims.eq_nil
  · obtain ⟨s, hs, rfl⟩ := (h.answered id ha).resolve_left (by simp [hlive])
    obtain ⟨success, ho, ht⟩ := h.ended s hs
    exact ⟨s, hs, rfl, success, ho, ht⟩

/-- While no request is in hand, the registered sessions are those whose coordinators run. When the
server returns, nothing is registered, remembered or claimed, and all verdicts have been told. -/
theorem leaves_nothing {policy : Policy} {destination : Destination} {storage : Storage}
    (hc : storage.claims = []) (h : Reachable (start policy destination storage) t) :
    (t.hand = .empty → ∀ id, t.server.registry.has id = true ↔ id ∈ t.liveIds) ∧
      (t.watch = .returned → Cleared t) := by
  have hsound := sound_of_reachable hc h
  refine ⟨fun hh id => ?_, hsound.cleared⟩
  rw [hsound.has_iff, hh]
  exact or_iff_left nofun

section Example

/-- A request for one byte. -/
def order : Message := .carrying "k" .createSession (CreateSession.mk "a" 1)

def started : Tenure := start {} (.directory "out".toList false) {}

/-- The server has opened a session and is told to stop. -/
def draining : Tenure :=
  { started.answer (fun _ => true) 0 "s" order with stopping := true, watch := .draining }

def sink : FileSink where
  partPath := "out/.s.part".toList
  finalPath := "out/a".toList
  size := 1
  file := some 0
  claim := some (Path.components "out/a".toList)

/-- The session fails, and its coordinator exits. -/
def failing : Turn :=
  (Coordinator.new {} (.new "s" "a" 1) (.file sink) 0).take
    ⟨.shutdown, fun _ => true, 0, draining.storage⟩

def exiting : Turn := failing.coordinator.take ⟨.shutdown, fun _ => true, 0, failing.storage⟩

def deserted : Tenure := (draining.advance [] [] "k" failing).retire [] [] "k" exiting

def returned : Tenure := { deserted.reap [] [] "k" with watch := .returned }

theorem reachable_returned : Reachable started returned := by
  have hopen : Reachable started (started.answer (fun _ => true) 0 "s" order) :=
    reachable_answer rfl rfl List.not_mem_nil _ 0 order
  have hleave : Reachable started draining := .step hopen (.leave rfl rfl)
  have hfail : Reachable started (draining.advance [] [] "k" failing) :=
    .step hleave (.advance rfl (fun _ => rfl) _ 0 nofun)
  have hexit : Reachable started deserted := .step hfail (.retire rfl (fun _ => rfl) _ 0 rfl)
  have hwaits : deserted.watch ≠ .returned := nofun
  have hreap : Reachable started (deserted.reap [] [] "k") := .step hexit (.reap hwaits rfl rfl)
  exact .step hreap (.finish rfl rfl rfl)

theorem returned_leaves_nothing :
    Reachable started returned ∧ Answered returned.told "s" ∧ Cleared returned := by
  have h := reachable_returned
  exact ⟨h, ⟨order, List.mem_cons_self⟩, (leaves_nothing rfl h).2 rfl⟩

end Example

end Tenure

end PullIngest
