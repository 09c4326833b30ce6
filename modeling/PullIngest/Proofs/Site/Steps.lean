import PullIngest.Proofs.Bus.FanOut
import PullIngest.Proofs.Bus.Inboxes
import PullIngest.Proofs.Coordinator.Turn
import PullIngest.Proofs.Server.Create

/-!
# A server among others

A server with its coordinators on a bus that anybody else may use: others publish on any channel,
and they subscribe to any channel, those of the sessions among them. What happens is told by a list
of moves. A move says what comes in, at what time, and which coordinator has its turn, but nothing
about numbers of mailboxes.

* `Site`: the state;
* `Move`, `Step`, `Run`: moves, what they do, and runs of them;
* `Speaks`, `speaks_take`: a coordinator publishes on two channels of its own session;
* `carryAll_of_speaks`: carrying out what a coordinator does.
-/

namespace PullIngest

open Action

/-- The channel of a mailbox of a coordinator. -/
def Inbox.channel (id : String) : Inbox → Channel
  | start => .start id
  | response => .response id
  | cancel => .cancel id

/-- A message from a mailbox, as a coordinator takes it. -/
def Inbox.event (m : Message) : Inbox → Event
  | start => .start m
  | response => .response m
  | cancel => .cancel m

/-- The session of a task. -/
def SessionTask.id (t : SessionTask) : String := t.coordinator.session.id

/-- What a list of actions publishes, by the names of the channels. -/
def Action.told (as : List Action) : List (String × Message) :=
  (published as).map fun p => (p.1.name, p.2)

/-- Everything that happens around a server. -/
structure Site where
  bus : Bus Message := {}
  server : Server
  storage : Storage := {}
  /-- The coordinators that run. -/
  running : List SessionTask := []
  /-- The request ids of coordinators that have exited and are not reaped yet. -/
  exited : List String := []
  /-- The mailboxes of others, each under a number of their own and the channel it listens on. -/
  guests : Table (ℕ × String) ℕ := ∅
  stopping : Bool := false
  /-- What was published, by anybody. -/
  sent : List (String × Message) := []

/-- What a coordinator takes next. -/
inductive Cue where
  | inbox (i : Inbox)
  | timer
  | shutdown
  deriving DecidableEq

/-- What happens in one step. -/
inductive Move where
  /-- The server answers a create request, and opens a session or not. -/
  | create (request : Message) (fresh : String) (now : ℕ) (opened : Bool)
  /-- The coordinator of a session has its turn. -/
  | turn (id : String) (cue : Cue) (now : ℕ)
  /-- Others publish. -/
  | publish (channel : String) (m : Message)
  /-- Others open a mailbox, take a message out of it, and give it up. -/
  | subscribe (guest : ℕ) (channel : String)
  | receive (guest : ℕ) (channel : String)
  | drop (guest : ℕ) (channel : String)
  /-- The server forgets the request behind a coordinator that has exited. -/
  | reap (correlation : String)
  | stop

/-- Whether the move opens a session. -/
def Move.opens (id : String) : Move → Bool
  | create _ fresh _ opened => opened && fresh = id
  | _ => false

namespace Site

/-- A server that keeps everything in memory, before anybody has used the bus. -/
def start (policy : Policy) (reject : Bool) (refuseFrom : Option UInt64) : Site where
  server := { policy, destination := .memory reject refuseFrom }

/-- The server has answered a create request. -/
def answer (s : Site) (request : Message) (fresh : String) (now : ℕ) : Site :=
  let t := s.server.handleCreate s.bus.takes now s.storage fresh request
  let r := s.bus.carryAll ∅ t.actions
  { s with bus := r.1, server := t.server, storage := t.storage
           running := s.running ++ (t.opened.map fun c => ⟨request.id, c, r.2⟩).toList
           sent := s.sent ++ told t.actions }

/-- A coordinator has done what its turn says. -/
def advance (s : Site) (before after : List SessionTask) (t : SessionTask)
    (r : Coordinator.Turn) : Site :=
  let c := s.bus.carryAll t.mailboxes r.actions
  { s with bus := c.1, server := s.server.report r.coordinator.session, storage := r.storage
           running := before ++ ⟨t.correlation, r.coordinator, c.2⟩ :: after
           sent := s.sent ++ told r.actions }

/-- A coordinator has exited. -/
def leave (s : Site) (before after : List SessionTask) (t : SessionTask) : Site :=
  { s with bus := s.bus.release t.mailboxes, server := s.server.unregister t.id
           running := before ++ after, exited := s.exited ++ [t.correlation] }

/-- A coordinator has had its turn. -/
def turn (s : Site) (before after : List SessionTask) (t : SessionTask)
    (r : Coordinator.Turn) : Site :=
  let s' := s.advance before after t r
  if r.coordinator.stage = .exited then
    s'.leave before after ⟨t.correlation, r.coordinator, (s.bus.carryAll t.mailboxes r.actions).2⟩
  else s'

/-- Somebody else has opened a mailbox. -/
def listen (s : Site) (guest : ℕ) (channel : String) : Site :=
  { s with bus := (s.bus.subscribe channel).2
           guests := s.guests.set (guest, channel) (s.bus.subscribe channel).1 }

/-- Somebody else has given up a mailbox. -/
def ignore (s : Site) (guest : ℕ) (channel : String) (mailbox : ℕ) : Site :=
  { s with bus := s.bus.unsubscribe mailbox, guests := s.guests.erase (guest, channel) }

/-- A coordinator takes an event, and the bus is `b` after that. -/
inductive Takes (s : Site) (t : SessionTask) (now : ℕ) : Cue → Event → Bus Message → Prop
  | inbox (i : Inbox) {m : Message} {b : Bus Message}
      (hm : s.bus.Hears t.mailboxes (i.channel t.id) m b) : Takes s t now (.inbox i) (i.event m) b
  | timer {time : ℕ} (ht : t.coordinator.timer? = some time) (hd : time ≤ now) :
      Takes s t now .timer .timer s.bus
  | shutdown (hs : s.stopping = true) : Takes s t now .shutdown .shutdown s.bus

/-- What a move does. -/
inductive Step (s : Site) : Move → Site → Prop
  | create (hs : s.stopping = false) (request : Message) (fresh : String) (now : ℕ) :
      Step s (.create request fresh now
          (s.server.handleCreate s.bus.takes now s.storage fresh request).opened.isSome)
        (s.answer request fresh now)
  | turn {before after : List SessionTask} {t : SessionTask}
      (hr : s.running = before ++ t :: after) {cue : Cue} {e : Event} {b : Bus Message}
      {now : ℕ} (he : s.Takes t now cue e b) :
      Step s (.turn t.id cue now) ({ s with bus := b }.turn before after t
        (t.coordinator.take ⟨e, b.takes, now, s.storage⟩))
  | publish (channel : String) (m : Message) :
      Step s (.publish channel m)
        { s with bus := s.bus.publish channel m, sent := s.sent ++ [(channel, m)] }
  | subscribe {guest : ℕ} {channel : String} (hg : s.guests.get? (guest, channel) = none) :
      Step s (.subscribe guest channel) (s.listen guest channel)
  | receive {guest : ℕ} {channel : String} {n : ℕ} (hg : s.guests.get? (guest, channel) = some n) :
      Step s (.receive guest channel) { s with bus := (s.bus.receive n).2 }
  | drop {guest : ℕ} {channel : String} {n : ℕ} (hg : s.guests.get? (guest, channel) = some n) :
      Step s (.drop guest channel) (s.ignore guest channel n)
  | reap {before after : List String} {key : String} (hx : s.exited = before ++ key :: after) :
      Step s (.reap key) { s with server := s.server.reap key, exited := before ++ after }
  | stop : Step s .stop { s with stopping := true }

/-- A run with its moves. -/
inductive Run (s₀ : Site) : List Move → Site → Prop
  | start : Run s₀ [] s₀
  | step {xs : List Move} {s s' : Site} (h : Run s₀ xs s) {x : Move} (hs : Step s x s') :
      Run s₀ (xs ++ [x]) s'

end Site

/-! ### What a coordinator does on the bus -/

/-- An action that opens and closes no mailbox, and publishes only on channels of the kind `P`. -/
def Action.Speaks (P : Channel → Prop) : Action → Prop
  | publish c _ => P c
  | sink _ => True
  | log _ => True
  | _ => False

/-- The two channels that a coordinator publishes on. -/
def Channel.IsSaid (id : String) (c : Channel) : Prop := c = .request id ∨ c = .done id

namespace Action

variable {P : Channel → Prop}

theorem speaks_of_outward {as : List Action} (h : ∀ a ∈ outward as, a.Speaks P) :
    ∀ a ∈ as, a.Speaks P := by
  intro a ha
  cases a with
  | log line => trivial
  | _ => exact h _ ((mem_outward rfl).2 ha)

theorem of_mem_told {as : List Action} (h : ∀ a ∈ as, a.Speaks P) {p : String × Message}
    (hp : p ∈ told as) : ∃ c, P c ∧ p.1 = c.name := by
  obtain ⟨⟨c, m⟩, hmem, rfl⟩ := List.mem_map.1 hp
  exact ⟨c, h _ (mem_published.1 hmem), rfl⟩

theorem published_outward (as : List Action) : published (outward as) = published as := by
  induction as with
  | nil => rfl
  | cons a as ih =>
    cases a with
    | log line => simpa [published] using ih
    | _ => simpa [published, outward, isLog] using ih

end Action

namespace Coordinator

variable {c : Coordinator} {accepts : Channel → Bool} {now : ℕ} {storage : Storage}
  {actions : List Action} {id : String}

theorem speaks_concludes {t : Turn} {call : SinkCall} {success : Bool}
    (ht : Concludes c actions call success t) (hid : c.session.id = id)
    (h : ∀ a ∈ outward actions, a.Speaks (Channel.IsSaid id)) :
    ∀ a ∈ outward t.actions, a.Speaks (Channel.IsSaid id) := by
  rw [ht.outward_eq]
  intro a ha
  rcases List.mem_append.1 ha with ha | ha
  · exact h a ha
  · simp only [List.mem_cons, List.not_mem_nil, or_false] at ha
    rcases ha with rfl | rfl
    · trivial
    · exact .inr (by rw [hid])

theorem speaks_continues {t : Turn} (ht : Continues c accepts now storage actions t)
    (hid : c.session.id = id)
    (h : ∀ a ∈ outward actions, a.Speaks (Channel.IsSaid id)) :
    ∀ a ∈ outward t.actions, a.Speaks (Channel.IsSaid id) := by
  have hasked : ∀ r, ∀ a ∈ outward (actions ++ [asksFor c.session.id r]),
      a.Speaks (Channel.IsSaid id) := by
    intro r a ha
    rw [outward_append] at ha
    rcases List.mem_append.1 ha with ha | ha
    · exact h a ha
    · obtain rfl : a = asksFor c.session.id r := by simpa [asksFor] using ha
      exact .inl (by rw [hid])
  cases ht with
  | asks hr hc => exact hasked _
  | unheard hr hc why =>
    exact speaks_concludes (abort_concludes _ accepts now storage _ why) hid (hasked _)
  | completes hr => exact speaks_concludes (finalize_concludes c accepts now storage _) hid h
  | fails why => exact speaks_concludes (abort_concludes c accepts now storage _ why) hid h

/-- A coordinator publishes on two channels of its session, and does nothing else on the bus. -/
theorem speaks_take (c : Coordinator) (x : Occasion) :
    ∀ a ∈ (c.take x).actions, a.Speaks (Channel.IsSaid c.session.id) := by
  refine speaks_of_outward ?_
  cases hs : c.stage with
  | pulling deadline =>
    have hpulls := pulls_take hs x
    have hlogs : ∀ lines, ∀ a ∈ outward (logs lines), a.Speaks (Channel.IsSaid c.session.id) := by
      simp
    generalize c.take x = t at hpulls ⊢
    cases hpulls with
    | waits violations lines => exact hlogs lines
    | fails violations why lines =>
      exact speaks_concludes (abort_concludes _ x.accepts x.now x.storage _ why) rfl (hlogs lines)
    | starts hp =>
      exact speaks_continues (continues_requestNext _ x.accepts x.now _ _ (.inl rfl)) rfl (by simp)
    | refuses ha why =>
      exact speaks_concludes (abort_concludes _ x.accepts x.now x.storage _ why) rfl
        (by simp [Speaks])
    | takes ha hk =>
      exact speaks_continues (continues_requestNext _ x.accepts x.now _ _ (.inr rfl)) rfl
        (by simp [Speaks])
  | lingering success expiry =>
    rw [(lingers_take hs x).outward_eq]
    split_ifs
    · simp [tellsVerdict, Speaks, Channel.IsSaid]
    · simp
  | exited =>
    rw [take_exited hs]
    simp

end Coordinator

namespace Bus

variable {b : Bus Message} {P : Channel → Prop}

/-- The operations on the bus that publish these messages. -/
def publishing (ps : List (String × Message)) : List (Op Message) :=
  ps.map fun p => .publish p.1 p.2

theorem carryAll_append (b : Bus Message) (mailboxes : Table Channel ℕ) (as as' : List Action) :
    b.carryAll mailboxes (as ++ as') =
      (b.carryAll mailboxes as).1.carryAll (b.carryAll mailboxes as).2 as' := List.foldl_append

/-- Carrying out such actions publishes what they tell, and the mailboxes stay. -/
theorem carryAll_of_speaks {as : List Action} (h : ∀ a ∈ as, a.Speaks P)
    (mailboxes : Table Channel ℕ) :
    b.carryAll mailboxes as = (b.applyAll (publishing (told as)), mailboxes) := by
  induction as generalizing b with
  | nil => rfl
  | cons a as ih =>
    have has : ∀ a ∈ as, a.Speaks P := fun a' ha' => h a' (List.mem_cons_of_mem a ha')
    have ha := h a List.mem_cons_self
    show (b.carry mailboxes a).1.carryAll (b.carry mailboxes a).2 as = _
    cases a with
    | publish c m => exact ih has
    | sink call => exact ih has
    | log line => exact ih has
    | subscribe c => exact ha.elim
    | unsubscribe c => exact ha.elim

/-- Taking a message is receiving it. -/
theorem eq_receive_of_take {n : ℕ} {m : Message} {b' : Bus Message} (h : b.take? n = some (m, b')) :
    b' = b.apply (.receive n) := by
  unfold take? at h
  split at h
  · next hreceive =>
    obtain ⟨-, rfl⟩ := Prod.mk.inj (Option.some.inj h)
    show _ = (b.receive n).2
    rw [hreceive]
  · cases h

theorem release_eq (b : Bus Message) (mailboxes : Table Channel ℕ) :
    b.release mailboxes = b.applyAll (mailboxes.values.map .drop) := by
  unfold release applyAll
  rw [List.foldl_map]
  rfl

end Bus

end PullIngest
