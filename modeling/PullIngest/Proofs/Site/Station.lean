import PullIngest.Proofs.Coordinator.Footing
import PullIngest.Proofs.Site.Order

/-!
# A coordinator on a bus

One coordinator with its mailboxes on a bus that others use as they like. They cannot take messages
out of its mailboxes and cannot give these up, and the bus cannot close while the coordinator uses
it. Nothing else is assumed about them, about the time, or about the storage.

* `Station`, `Step`, `Reaches`: the coordinator, its mailboxes and the bus, and how they go on;
* `Takes`: what the coordinator takes next, among it the news that a mailbox is closed;
* `Sound`: the invariant (`Sound.step`). Every mailbox stays on the list of its channel;
* `never_on_the_defensive`: what the coordinator never meets, and which ranges it asks for.
-/

namespace PullIngest

namespace Bus

variable {α : Type}

/-- Whether the operation takes something out of a mailbox or gives it up. -/
def Op.uses (n : ℕ) : Op α → Bool
  | .receive mailbox => mailbox = n
  | .drop mailbox => mailbox = n
  | _ => false

theorem Op.drops_of_uses {n : ℕ} {op : Op α} (h : op.uses n = false) : op.drops n = false := by
  cases op with
  | drop mailbox => exact h
  | _ => rfl

theorem isOpen_receive (b : Bus α) (n : ℕ) : (b.receive n).2.isOpen = b.isOpen := by
  unfold receive
  split <;> rfl

theorem isOpen_apply (b : Bus α) (op : Op α) : (b.apply op).isOpen = b.isOpen := by
  cases op with
  | publish channel m => exact isOpen_publish b channel m
  | receive n => exact isOpen_receive b n
  | _ => rfl

theorem isOpen_applyAll (b : Bus α) (ops : List (Op α)) :
    (b.applyAll ops).isOpen = b.isOpen := by
  induction ops generalizing b with
  | nil => rfl
  | cons op ops ih => exact (ih _).trans (isOpen_apply b op)

/-- A mailbox that is not given up stays on the list of its channel. -/
theorem mem_subscribers_apply {b : Bus α} (hb : b.Tidy) {channel : String} {n : ℕ}
    (hn : n ∈ b.subscribers channel) {op : Op α} (hop : op.drops n = false) :
    n ∈ (b.apply op).subscribers channel := by
  rw [subscribers_apply hb]
  exact List.mem_append_left _ (List.mem_filter.2 ⟨hn, by simp [hop]⟩)

end Bus

open Action Coordinator

/-- A coordinator with its mailboxes, the bus, and all that the coordinator has done. -/
structure Station where
  bus : Bus Message
  mailboxes : Table Channel ℕ
  coordinator : Coordinator
  done : List Action

namespace Station

/-- A new session on a bus with any history. -/
def start (ops : List (Bus.Op Message)) (policy : Policy) (id name : String) (size : UInt64)
    (sink : Sink) (now : ℕ) : Station where
  bus := (Bus.run ops).opening id
  mailboxes := Bus.inboxesFrom id (Bus.run ops).nextMailbox
  coordinator := .new policy (.new id name size) sink now
  done := []

/-- Whether nobody can send to a mailbox: the bus is closed, or has lost the mailbox. -/
def Severed (b : Bus Message) (c : Channel) (n : ℕ) : Prop :=
  b.isOpen = false ∨ n ∉ b.subscribers c.name

/-- The coordinator takes an event, and the bus is `b` after that. It may take from its mailboxes
in any order, and the timer may go off at any time. -/
inductive Takes (s : Station) : Event → Bus Message → Prop
  | message (i : Inbox) {m : Message} {b : Bus Message}
      (h : s.bus.Hears s.mailboxes (i.channel s.coordinator.session.id) m b) :
      Takes s (i.event m) b
  | closed (i : Inbox) {n : ℕ}
      (hn : s.mailboxes.get? (i.channel s.coordinator.session.id) = some n)
      (h : Severed s.bus (i.channel s.coordinator.session.id) n) : Takes s (.closed i) s.bus
  | timer : Takes s .timer s.bus
  | shutdown : Takes s .shutdown s.bus

/-- The coordinator has done what its turn says. -/
def turn (s : Station) (b : Bus Message) (t : Turn) : Station where
  bus := (b.carryAll s.mailboxes t.actions).1
  mailboxes := (b.carryAll s.mailboxes t.actions).2
  coordinator := t.coordinator
  done := s.done ++ t.actions

/-- What happens next. -/
inductive Step (s : Station) : Station → Prop
  | others {op : Bus.Op Message} (h : ∀ n ∈ s.mailboxes.values, op.uses n = false) :
      Step s { s with bus := s.bus.apply op }
  | turn {e : Event} {b : Bus Message} (h : s.Takes e b) (accepts : Channel → Bool) (now : ℕ)
      (storage : Storage) :
      Step s (s.turn b (s.coordinator.take ⟨e, accepts, now, storage⟩))

/-- A station and what becomes of it. -/
inductive Reaches (s₀ : Station) : Station → Prop
  | refl : Reaches s₀ s₀
  | step {s s' : Station} (h : Reaches s₀ s) (hs : Step s s') : Reaches s₀ s'

variable {s s₀ s' : Station} {id : String} {e : Event} {b : Bus Message}

/-- What holds all the time. -/
structure Sound (s : Station) (id : String) : Prop where
  sureFooted : SureFooted s.coordinator s.done
  id_eq : s.coordinator.session.id = id
  tidy : s.bus.Tidy
  isOpen : s.bus.isOpen = true
  inboxes : ∃ n, s.mailboxes = Bus.inboxesFrom id n ∧
    ∀ i : Inbox, n + Bus.place i ∈ s.bus.subscribers (i.channel id).name

theorem sound_start (ops : List (Bus.Op Message)) {policy : Policy} {name : String}
    {size : UInt64} {sink : Sink} (hc : policy.chunkSize ≠ 0) (hk : sink.Opened id name size)
    (now : ℕ) : Sound (start ops policy id name size sink now) id where
  sureFooted := sureFooted_new hc hk now
  id_eq := rfl
  tidy := Bus.tidy_opening (Bus.tidy_run ops) id
  isOpen := Bus.isOpen_applyAll {} ops
  inboxes := ⟨_, rfl, fun i =>
    (Bus.mem_subscribers_opening (Bus.tidy_run ops)).2 (.inr ⟨i, rfl, rfl⟩)⟩

/-- The bus has gone on and has kept the mailboxes. -/
theorem Sound.of_bus (h : Sound s id) (hb : b.Tidy) (ho : b.isOpen = s.bus.isOpen)
    (hkeeps : ∀ n ∈ s.mailboxes.values, ∀ c, n ∈ s.bus.subscribers c → n ∈ b.subscribers c) :
    Sound { s with bus := b } id := by
  obtain ⟨n, hn, hlisten⟩ := h.inboxes
  refine ⟨h.sureFooted, h.id_eq, hb, ho.trans h.isOpen, n, hn, fun i => ?_⟩
  refine hkeeps _ ?_ _ (hlisten i)
  rw [hn]
  exact Bus.mem_values_inboxesFrom.2 ⟨i, rfl⟩

theorem Sound.others (h : Sound s id) {op : Bus.Op Message}
    (hop : ∀ n ∈ s.mailboxes.values, op.uses n = false) :
    Sound { s with bus := s.bus.apply op } id :=
  h.of_bus (h.tidy.apply op) (Bus.isOpen_apply s.bus op) fun n hn _ hlisten =>
    Bus.mem_subscribers_apply h.tidy hlisten (Bus.Op.drops_of_uses (hop n hn))

/-- Taking an event out of a mailbox. -/
theorem Sound.takes (h : Sound s id) (he : s.Takes e b) : Sound { s with bus := b } id := by
  cases he with
  | message i hm =>
    obtain ⟨n, -, htake⟩ := hm
    obtain rfl := Bus.eq_receive_of_take htake
    exact h.of_bus (h.tidy.apply _) (Bus.isOpen_apply s.bus _) fun _ _ _ hlisten =>
      Bus.mem_subscribers_apply h.tidy hlisten rfl
  | _ => exact h

/-- Every mailbox is there, and somebody can still send to it. -/
theorem Sound.connected (h : Sound s id) (i : Inbox) :
    ∃ n, s.mailboxes.get? (i.channel id) = some n ∧ ¬ Severed s.bus (i.channel id) n := by
  obtain ⟨n, hn, hlisten⟩ := h.inboxes
  refine ⟨n + Bus.place i, by rw [hn]; exact Bus.get?_inboxesFrom id n i, ?_⟩
  rintro (hclosed | hlost)
  · rw [h.isOpen] at hclosed
    cases hclosed
  · exact hlost (hlisten i)

theorem Sound.not_closed (h : Sound s id) (he : s.Takes e b) (i : Inbox) : e ≠ .closed i := by
  cases he with
  | message j hm => cases j <;> exact nofun
  | closed j hn hsevered =>
    obtain ⟨n, hn', hconnected⟩ := h.connected j
    rw [h.id_eq] at hn hsevered
    obtain rfl := Option.some.inj (hn'.symm.trans hn)
    exact absurd hsevered hconnected
  | timer => exact nofun
  | shutdown => exact nofun

/-- What the coordinator does opens and closes no mailbox. -/
theorem Sound.turn (h : Sound s id) (he : s.Takes e b) (accepts : Channel → Bool) (now : ℕ)
    (storage : Storage) :
    Sound (s.turn b (s.coordinator.take ⟨e, accepts, now, storage⟩)) id := by
  have htakes := h.takes he
  generalize hx : (⟨e, accepts, now, storage⟩ : Occasion) = x
  have hclosed : ∀ i, x.event ≠ .closed i := by
    rw [← hx]
    exact h.not_closed he
  obtain ⟨n, hn, hlisten⟩ := htakes.inboxes
  dsimp only at hn hlisten
  unfold Station.turn
  rw [Bus.carryAll_of_speaks (speaks_take s.coordinator x)]
  refine ⟨h.sureFooted.take hclosed, ?_, htakes.tidy.applyAll _, ?_, n, hn, fun i => ?_⟩
  · exact (sameFile_take s.coordinator x).id_eq.trans h.id_eq
  · exact (Bus.isOpen_applyAll b _).trans htakes.isOpen
  · dsimp only
    rw [Bus.subscribers_of_steady htakes.tidy (Bus.steady_publishing _)]
    exact hlisten i

theorem Sound.step (h : Sound s id) (hs : Step s s') : Sound s' id := by
  cases hs with
  | others hop => exact h.others hop
  | turn he accepts now storage => exact h.turn he accepts now storage

theorem Sound.reaches (h : Sound s₀ id) (hr : Reaches s₀ s) : Sound s id := by
  induction hr with
  | refl => exact h
  | step _ hs ih => exact ih.step hs

/-- **A coordinator is never on the defensive.** Let a session with a chunk size and a new sink
begin on a bus with any history, and let it go on in any way. Then it has not been given up for a
sink that refused its bytes, for a range that could not be asked for, or for a mailbox that was
closed, and no mailbox is closed. Whatever the coordinator takes next, it asks for a range only when
that starts the session or is a response that moves it on. This range begins where the bytes that
have been delivered end, and every range that was asked for before ends there or earlier. -/
theorem never_on_the_defensive {ops : List (Bus.Op Message)} {policy : Policy} {name : String}
    {size : UInt64} {sink : Sink} {now₀ : ℕ} (hc : policy.chunkSize ≠ 0)
    (hk : sink.Opened id name size)
    (hr : Reaches (start ops policy id name size sink now₀) s) :
    (∀ why : Abort, why.Defensive → .sink (.fail why.message) ∉ s.done) ∧
      (∀ i : Inbox, ∃ n, s.mailboxes.get? (i.channel id) = some n ∧
        ¬ Severed s.bus (i.channel id) n) ∧
      ∀ e b accepts now storage, s.Takes e b →
        let t := s.coordinator.take ⟨e, accepts, now, storage⟩
        (∀ i, e ≠ .closed i) ∧
        ∀ a ∈ requests t.actions, s.coordinator.MovesOn e ∧
          ∃ r, a = asksFor id r ∧ r.offset = t.coordinator.session.delivered ∧ 0 < r.size ∧
            ∀ r', asksFor id r' ∈ s.done → r'.offset.toNat + r'.size.toNat ≤ r.offset.toNat := by
  have h : Sound s id := (sound_start ops hc hk now₀).reaches hr
  refine ⟨h.sureFooted.calm, h.connected, fun e b accepts now storage he => ?_⟩
  refine ⟨h.not_closed he, fun a ha => ?_⟩
  obtain ⟨deadline, hs⟩ := pulling_of_request ha
  obtain ⟨hm, r, hasks, hfresh⟩ := (h.sureFooted.footing deadline hs).fresh_take hs ha
  have hid := (sameFile_take s.coordinator ⟨e, accepts, now, storage⟩).id_eq.trans h.id_eq
  have hasked := hfresh.asked
  rw [hid] at hasked
  rw [h.id_eq] at hasks
  exact ⟨hm, r, hasks, hfresh.offset_eq, hfresh.size_pos, hasked⟩

namespace TwoParts

/-- A session of three bytes that are asked for in two parts. -/
def begun : Station :=
  start [.subscribe (Channel.request "s").name] { chunkSize := 2 } "s" "f" 3
    (.memory { session := "s", size := 3 }) 0

def starting : Message := .signal "s" .start

def first : Message := .carrying "s" .chunkResponse (ChunkResponse.ofBytes 0 [7, 8])

/-- The session when it has asked for the first two bytes. -/
def asking : Coordinator :=
  { begun.coordinator with session := begun.coordinator.session.awaiting ⟨0, 2⟩
                           stage := .pulling 30000 }

/-- The turn on the first two bytes. -/
def next (c : Coordinator) : Turn := c.take ⟨.response first, fun _ => true, 1, {}⟩

theorem next_asking : requests (next asking).actions = [asksFor "s" ⟨2, 1⟩] ∧
    (next asking).coordinator.session.delivered = 2 := by
  have hpayload : first.payloadAs ChunkResponse .chunkResponse
      = .ok (ChunkResponse.ofBytes 0 [7, 8]) := payloadAs_carrying ..
  have hnext : next asking = asking.onResponse (fun _ => true) 1 {} first := rfl
  rw [hnext]
  unfold onResponse
  rw [hpayload]
  dsimp only
  rw [ChunkResponse.bytes_ofBytes]
  exact ⟨rfl, rfl⟩

/-- The session is started, and the first two bytes are in the mailbox. -/
theorem reaches : ∃ s b, Reaches begun s ∧ s.Takes (.response first) b ∧
    s.coordinator = asking := by
  have h₁ : Reaches begun _ := .step .refl
    (@Step.others _ (.publish (Channel.start "s").name starting) fun _ _ => rfl)
  have h₂ : Reaches begun _ := .step h₁
    (.turn (.message .start ⟨_, rfl, rfl⟩) (fun _ => true) 0 {})
  have h₃ : Reaches begun _ := .step h₂
    (@Step.others _ (.publish (Channel.response "s").name first) fun _ _ => rfl)
  exact ⟨_, _, h₃, .message .response ⟨_, rfl, rfl⟩, rfl⟩

end TwoParts

/-- The third byte is asked for when the first two have come. -/
theorem third_byte_fresh : ∃ s b, Reaches TwoParts.begun s ∧
    s.Takes (.response TwoParts.first) b ∧
    (∀ why : Abort, why.Defensive → .sink (.fail why.message) ∉ s.done) ∧
    requests (TwoParts.next s.coordinator).actions = [asksFor "s" ⟨2, 1⟩] ∧
    s.coordinator.MovesOn (.response TwoParts.first) ∧
    ∀ r, asksFor "s" r ∈ s.done → r.offset.toNat + r.size.toNat ≤ 2 := by
  obtain ⟨s, b, hr, he, hasking⟩ := TwoParts.reaches
  obtain ⟨hcalm, -, hnext⟩ := never_on_the_defensive (by decide) (.memory false) hr
  obtain ⟨hrequests, hdelivered⟩ := TwoParts.next_asking
  rw [← hasking] at hrequests hdelivered
  have hmem : asksFor "s" ⟨2, 1⟩ ∈ requests (TwoParts.next s.coordinator).actions := by
    rw [hrequests]
    exact List.mem_singleton_self _
  obtain ⟨hm, r, -, hoffset, -, hasked⟩ := (hnext _ _ (fun _ => true) 1 {} he).2 _ hmem
  refine ⟨s, b, hr, he, hcalm, hrequests, hm, fun r' hr' => ?_⟩
  have hle := hasked r' hr'
  rw [hoffset] at hle
  exact hle.trans (Nat.le_of_eq (congrArg UInt64.toNat hdelivered))

end Station

end PullIngest
