import PullIngest.Proofs.Coordinator.Agreement
import PullIngest.Proofs.Site.Steps

/-!
# Who listens to whom

The mailboxes of one session among all others on the bus: its coordinator has three of them, and
others listen for its requests. Numbers of mailboxes tell all of these apart, so what is done to a
mailbox of somebody else leaves them alone.

* `Bus.opening`, `Bus.inboxesFrom`: the mailboxes of a coordinator that is new;
* `Site.ear?`, `Site.Owns`, `Site.Alien`: the mailboxes that matter to a session, and all others;
* `Site.Sound`: the invariant, for one session of the site;
* `Sound.listen`, `Sound.ignore`, `Sound.moved`, `Sound.leave`: what keeps it.
-/

namespace PullIngest

namespace Table

variable {α β : Type} [DecidableEq α]

theorem mem_values_of_get? {t : Table α β} {k : α} {v : β} (h : t.get? k = some v) :
    v ∈ t.values := by
  obtain ⟨p, hp, rfl⟩ := Option.map_eq_some_iff.1 h
  exact List.mem_map_of_mem (List.mem_of_find?_eq_some hp)

end Table

namespace Bus

variable {b : Bus Message} {c : String} {n : ℕ}

/-- An operation that opens and drops no mailbox. -/
def Op.isSteady : Op Message → Bool
  | .publish _ _ => true
  | .receive _ => true
  | _ => false

theorem subscribers_of_steady (hb : b.Tidy) {ops : List (Op Message)}
    (h : ∀ op ∈ ops, op.isSteady = true) (c : String) :
    (b.applyAll ops).subscribers c = b.subscribers c := by
  induction ops generalizing b with
  | nil => rfl
  | cons op ops ih =>
    have hop := h op List.mem_cons_self
    rw [applyAll_cons, ih (hb.apply op) fun o ho => h o (List.mem_cons_of_mem op ho),
      subscribers_apply hb]
    cases op with
    | publish c' m => simp [Op.drops]
    | receive k => simp [Op.drops]
    | subscribe c' => cases hop
    | drop k => cases hop

theorem nextMailbox_of_steady (b : Bus Message) {ops : List (Op Message)}
    (h : ∀ op ∈ ops, op.isSteady = true) : (b.applyAll ops).nextMailbox = b.nextMailbox := by
  induction ops generalizing b with
  | nil => rfl
  | cons op ops ih =>
    have hop := h op List.mem_cons_self
    rw [applyAll_cons, ih _ fun o ho => h o (List.mem_cons_of_mem op ho), nextMailbox_apply]
    cases op with
    | publish c' m => rfl
    | receive k => rfl
    | subscribe c' => cases hop
    | drop k => cases hop

theorem steady_publishing (ps : List (String × Message)) :
    ∀ op ∈ publishing ps, op.isSteady = true := by
  intro op hop
  obtain ⟨p, -, rfl⟩ := List.mem_map.1 hop
  rfl

theorem lt_of_mem_subscribers (hb : b.Tidy) (hn : n ∈ b.subscribers c) : n < b.nextMailbox :=
  hb.listed_lt c n (mem_subscribers.1 hn).1

/-- A mailbox listens on one channel. -/
theorem eq_of_mem_subscribers (hb : b.Tidy) (hn : n ∈ b.subscribers c) {c' : String}
    (hn' : n ∈ b.subscribers c') : c = c' :=
  hb.unique c c' n (mem_subscribers.1 hn).1 (mem_subscribers.1 hn').1

theorem mem_subscribers_subscribe (hb : b.Tidy) {c' : String} :
    n ∈ (b.subscribe c).2.subscribers c' ↔
      n ∈ b.subscribers c' ∨ (c = c' ∧ n = b.nextMailbox) := by
  have h := subscribers_apply hb (.subscribe c) c'
  simp only [apply, Op.drops] at h
  rw [h]
  split_ifs with hc <;> simp [hc]

theorem mem_subscribers_unsubscribe (hb : b.Tidy) {k : ℕ} :
    n ∈ (b.unsubscribe k).subscribers c ↔ n ∈ b.subscribers c ∧ k ≠ n := by
  have h := subscribers_apply hb (.drop k) c
  simp only [apply, Op.drops] at h
  rw [h]
  simp

/-- Dropping several mailboxes. -/
theorem mem_subscribers_release (hb : b.Tidy) (mailboxes : Table Channel ℕ) :
    n ∈ (b.release mailboxes).subscribers c ↔ n ∈ b.subscribers c ∧ n ∉ mailboxes.values := by
  unfold release
  induction mailboxes.values generalizing b with
  | nil => simp
  | cons k ks ih =>
    rw [List.foldl_cons, ih (hb.unsubscribe k), mem_subscribers_unsubscribe hb]
    simp only [List.mem_cons, not_or]
    constructor
    · rintro ⟨⟨hn, hk⟩, hks⟩
      exact ⟨hn, fun e => hk e.symm, hks⟩
    · rintro ⟨hn, hk, hks⟩
      exact ⟨⟨hn, fun e => hk e.symm⟩, hks⟩

theorem tidy_release (hb : b.Tidy) (mailboxes : Table Channel ℕ) : (b.release mailboxes).Tidy := by
  rw [release_eq]
  exact hb.applyAll _

theorem nextMailbox_release (b : Bus Message) (mailboxes : Table Channel ℕ) :
    (b.release mailboxes).nextMailbox = b.nextMailbox := by
  unfold release
  induction mailboxes.values generalizing b with
  | nil => rfl
  | cons k ks ih => exact ih (b.unsubscribe k)

/-! ### The mailboxes of a coordinator -/

/-- The place of a mailbox among the three of a coordinator. -/
def place : Inbox → ℕ
  | .start => 0
  | .response => 1
  | .cancel => 2

theorem place_lt (i : Inbox) : place i < 3 := by cases i <;> decide

/-- The mailboxes of a coordinator, numbered from `n` on. -/
def inboxesFrom (id : String) (n : ℕ) : Table Channel ℕ :=
  ⟨[(.start id, n), (.response id, n + 1), (.cancel id, n + 2)]⟩

theorem get?_inboxesFrom (id : String) (n : ℕ) (i : Inbox) :
    (inboxesFrom id n).get? (i.channel id) = some (n + place i) := by
  cases i <;> simp [inboxesFrom, Table.get?, Inbox.channel, place]

theorem mem_values_inboxesFrom {id : String} {n k : ℕ} :
    k ∈ (inboxesFrom id n).values ↔ ∃ i, k = n + place i := by
  constructor
  · intro h
    simp only [inboxesFrom, Table.values, List.map_cons, List.map_nil, List.mem_cons,
      List.not_mem_nil, or_false] at h
    rcases h with h | h | h
    · exact ⟨.start, h⟩
    · exact ⟨.response, h⟩
    · exact ⟨.cancel, h⟩
  · rintro ⟨i, rfl⟩
    exact Table.mem_values_of_get? (get?_inboxesFrom id n i)

/-- The bus with the mailboxes of a coordinator. -/
def opening (b : Bus Message) (id : String) : Bus Message :=
  (((b.subscribe (Channel.start id).name).2.subscribe (Channel.response id).name).2.subscribe
    (Channel.cancel id).name).2

/-- Opening the mailboxes of a coordinator, and then only publishing. -/
theorem carryAll_opening {P : Channel → Prop} {as : List Action} (h : ∀ a ∈ as, a.Speaks P)
    (b : Bus Message) (id : String) :
    b.carryAll ∅
        ([.subscribe (.start id), .subscribe (.response id), .subscribe (.cancel id)] ++ as) =
      ((b.opening id).applyAll (publishing (Action.told as)), inboxesFrom id b.nextMailbox) := by
  rw [carryAll_append, carryAll_of_speaks h]
  rfl

theorem tidy_opening (hb : b.Tidy) (id : String) : (b.opening id).Tidy :=
  ((hb.subscribe _).subscribe _).subscribe _

theorem mem_subscribers_opening (hb : b.Tidy) {id : String} :
    n ∈ (b.opening id).subscribers c ↔
      n ∈ b.subscribers c ∨ ∃ i : Inbox, (i.channel id).name = c ∧ n = b.nextMailbox + place i := by
  unfold opening
  rw [mem_subscribers_subscribe ((hb.subscribe _).subscribe _),
    mem_subscribers_subscribe (hb.subscribe _), mem_subscribers_subscribe hb]
  constructor
  · rintro (((h | h) | h) | h)
    · exact .inl h
    · exact .inr ⟨.start, h⟩
    · exact .inr ⟨.response, h⟩
    · exact .inr ⟨.cancel, h⟩
  · rintro (h | ⟨i, h⟩)
    · exact .inl (.inl (.inl h))
    · cases i with
      | start => exact .inl (.inl (.inr h))
      | response => exact .inl (.inr h)
      | cancel => exact .inr h

end Bus

/-- A mailbox that matters to a session. -/
inductive Ear where
  /-- One of those of its coordinator. -/
  | inbox (i : Inbox)
  /-- The one in which somebody listens for its requests. -/
  | guest (g : ℕ)
  deriving DecidableEq

/-- Whether the mailbox is one of the coordinator. -/
def Ear.isInbox : Ear → Bool
  | inbox _ => true
  | guest _ => false

/-- The channel of such a mailbox. -/
def Ear.channel (id : String) : Ear → Channel
  | inbox i => i.channel id
  | guest _ => .request id

namespace Site

variable {s s' : Site} {id : String} {c : String} {n : ℕ} {e e' : Ear} {t : SessionTask}
  {before after : List SessionTask}

/-! ### The mailboxes of a session -/

/-- The coordinators that run, with their mailboxes. -/
def roster (s : Site) : List (String × Table Channel ℕ) :=
  s.running.map fun t => (t.id, t.mailboxes)

/-- How many coordinators a session has. -/
def tasks (s : Site) (id : String) : ℕ := s.roster.countP fun r => r.1 = id

/-- The number of a mailbox of the coordinator. -/
def inbox? (s : Site) (id : String) (i : Inbox) : Option ℕ :=
  (s.roster.find? fun r => r.1 = id).bind fun r => r.2.get? (i.channel id)

/-- The number of a mailbox that matters to a session. -/
def ear? (s : Site) (id : String) : Ear → Option ℕ
  | .inbox i => s.inbox? id i
  | .guest g => s.guests.get? (g, (Channel.request id).name)

/-- A mailbox that matters to the session, with the channel that it listens on. -/
def Owns (s : Site) (id : String) (c : String) (n : ℕ) : Prop :=
  ∃ e, s.ear? id e = some n ∧ (e.channel id).name = c

/-- Any other mailbox that somebody knows of. -/
def Alien (s : Site) (id : String) (n : ℕ) : Prop :=
  (∃ r ∈ s.roster, r.1 ≠ id ∧ n ∈ r.2.values) ∨
    ∃ g c, c ≠ (Channel.request id).name ∧ s.guests.get? (g, c) = some n

/-- What holds of a site all the time, as far as one session is concerned. -/
structure Sound (s : Site) (id : String) : Prop where
  tidy : s.bus.Tidy
  memory : ∃ reject refuseFrom, s.server.destination = .memory reject refuseFrom
  sinks : ∀ t ∈ s.running, t.coordinator.sink.IsMemory t.id
  alone : s.tasks id ≤ 1
  inboxes : ∀ r ∈ s.roster, ∃ n, r.2 = Bus.inboxesFrom r.1 n
  owned : ∀ c n, s.Owns id c n → n ∈ s.bus.subscribers c
  guests : ∀ g g' n, s.ear? id (.guest g) = some n → s.ear? id (.guest g') = some n → g = g'
  readers : ∀ n ∈ s.bus.subscribers (Channel.request id).name, ∃ g, s.ear? id (.guest g) = some n
  alien : ∀ n, s.Alien id n → n < s.bus.nextMailbox ∧ ∀ c, ¬ s.Owns id c n

theorem sound_start (policy : Policy) (reject : Bool) (refuseFrom : Option UInt64) (id : String) :
    Sound (start policy reject refuseFrom) id where
  tidy := Bus.tidy_empty
  memory := ⟨reject, refuseFrom, rfl⟩
  sinks _ h := by cases h
  alone := Nat.zero_le _
  inboxes _ h := by cases h
  owned c n h := by
    obtain ⟨i | g, h, -⟩ := h <;> cases h
  guests _ _ _ h := by cases h
  readers _ h := by cases h
  alien n h := by
    rcases h with ⟨t, h, -⟩ | ⟨g, c, -, h⟩ <;> cases h

theorem ear?_congr (hroster : s'.roster = s.roster) (hguests : s'.guests = s.guests) (e : Ear) :
    s'.ear? id e = s.ear? id e := by
  cases e with
  | inbox i =>
    unfold ear? inbox?
    rw [hroster]
  | guest g =>
    unfold ear?
    rw [hguests]

theorem owns_congr (hear : ∀ e, s'.ear? id e = s.ear? id e) :
    s'.Owns id c n ↔ s.Owns id c n := by
  unfold Owns
  simp only [hear]

/-- The invariant looks at the mailboxes, but not at what is unread in them. -/
theorem Sound.congr (h : Sound s id) (hbus : s'.bus.Tidy)
    (hsubs : ∀ c, s'.bus.subscribers c = s.bus.subscribers c)
    (hnext : s'.bus.nextMailbox = s.bus.nextMailbox)
    (hdestination : s'.server.destination = s.server.destination)
    (hsinks : ∀ t ∈ s'.running, t.coordinator.sink.IsMemory t.id)
    (hroster : s'.roster = s.roster) (hguests : s'.guests = s.guests) : Sound s' id := by
  have hear : ∀ e, s'.ear? id e = s.ear? id e := ear?_congr hroster hguests
  constructor
  · exact hbus
  · rw [hdestination]
    exact h.memory
  · exact hsinks
  · unfold tasks
    rw [hroster]
    exact h.alone
  · rw [hroster]
    exact h.inboxes
  · intro c n hn
    rw [hsubs]
    exact h.owned c n ((owns_congr hear).1 hn)
  · intro g g' n
    rw [hear, hear]
    exact h.guests g g' n
  · intro n hn
    rw [hsubs] at hn
    obtain ⟨g, hg⟩ := h.readers n hn
    exact ⟨g, by rw [hear, hg]⟩
  · intro n hn
    rw [hnext]
    unfold Alien at hn
    rw [hroster, hguests] at hn
    obtain ⟨hlt, hno⟩ := h.alien n hn
    exact ⟨hlt, fun c hc => hno c ((owns_congr hear).1 hc)⟩

/-- Traffic on the bus. -/
theorem Sound.steady (h : Sound s id) (ops : List (Bus.Op Message))
    (hops : ∀ op ∈ ops, op.isSteady = true) : Sound { s with bus := s.bus.applyAll ops } id :=
  h.congr (h.tidy.applyAll ops) (Bus.subscribers_of_steady h.tidy hops)
    (Bus.nextMailbox_of_steady s.bus hops) rfl h.sinks rfl rfl

/-- Several messages have been published. -/
def publishAll (s : Site) (ps : List (String × Message)) : Site :=
  { s with bus := s.bus.applyAll (Bus.publishing ps), sent := s.sent ++ ps }

theorem roster_publishAll (s : Site) (ps : List (String × Message)) :
    (s.publishAll ps).roster = s.roster := rfl

theorem Sound.publishAll (h : Sound s id) (ps : List (String × Message)) :
    Sound (s.publishAll ps) id := by
  have hsteady := h.steady _ (Bus.steady_publishing ps)
  exact hsteady.congr hsteady.tidy (fun _ => rfl) rfl rfl h.sinks rfl rfl

theorem Sound.mem_subscribers (h : Sound s id) (he : s.ear? id e = some n) :
    n ∈ s.bus.subscribers (e.channel id).name := h.owned _ n ⟨e, he, rfl⟩

theorem Sound.lt_of_ear (h : Sound s id) (he : s.ear? id e = some n) : n < s.bus.nextMailbox :=
  Bus.lt_of_mem_subscribers h.tidy (h.mem_subscribers he)

/-- Different mailboxes have different numbers. -/
theorem Sound.ear_inj (h : Sound s id) (he : s.ear? id e = some n) (he' : s.ear? id e' = some n) :
    e = e' := by
  have hc := Channel.name_injective
    (Bus.eq_of_mem_subscribers h.tidy (h.mem_subscribers he) (h.mem_subscribers he'))
  cases e with
  | inbox i =>
    cases e' with
    | inbox j => cases i <;> cases j <;> first | rfl | cases hc
    | guest g => cases i <;> cases hc
  | guest g =>
    cases e' with
    | inbox j => cases j <;> cases hc
    | guest g' => rw [h.guests g g' n he he']

/-! ### Others -/

theorem guest_key_iff {g g' : ℕ} {c c' : String} :
    (g, c) = (g', c') ↔ c = c' ∧ Ear.guest g' = .guest g := by
  simp only [Prod.mk.injEq, Ear.guest.injEq]
  constructor
  · rintro ⟨rfl, rfl⟩
    exact ⟨rfl, rfl⟩
  · rintro ⟨rfl, rfl⟩
    exact ⟨rfl, rfl⟩

theorem ear?_listen (s : Site) (id : String) (g : ℕ) (c : String) (e : Ear) :
    (s.listen g c).ear? id e =
      if c = (Channel.request id).name ∧ e = .guest g then some s.bus.nextMailbox
      else s.ear? id e := by
  cases e with
  | inbox i =>
    rw [if_neg (by simp)]
    rfl
  | guest g' =>
    show (s.guests.set (g, c) s.bus.nextMailbox).get? (g', _) = _
    rw [Table.get?_set]
    simp only [guest_key_iff]
    rfl

theorem ear?_ignore (s : Site) (id : String) (g : ℕ) (c : String) (k : ℕ) (e : Ear) :
    (s.ignore g c k).ear? id e =
      if c = (Channel.request id).name ∧ e = .guest g then none else s.ear? id e := by
  cases e with
  | inbox i =>
    rw [if_neg (by simp)]
    rfl
  | guest g' =>
    show (s.guests.erase (g, c)).get? (g', _) = _
    rw [Table.get?_erase]
    simp only [guest_key_iff]
    rfl

/-- The mailboxes of the session are those it had, and perhaps the new one. -/
theorem ear_of_listen {g : ℕ} (he : (s.listen g c).ear? id e = some n) :
    s.ear? id e = some n ∨
      (n = s.bus.nextMailbox ∧ e = .guest g ∧ c = (Channel.request id).name) := by
  rw [ear?_listen] at he
  split_ifs at he with hnew
  · exact .inr ⟨(Option.some.inj he).symm, hnew.2, hnew.1⟩
  · exact .inl he

theorem Sound.alien_listen (h : Sound s id) {g : ℕ} (hn : (s.listen g c).Alien id n) :
    n < s.bus.nextMailbox + 1 ∧ ∀ c', ¬ (s.listen g c).Owns id c' n := by
  have hknown : s.Alien id n →
      n < s.bus.nextMailbox + 1 ∧ ∀ c', ¬ (s.listen g c).Owns id c' n := by
    intro hn
    obtain ⟨hlt, hno⟩ := h.alien n hn
    refine ⟨by omega, ?_⟩
    rintro c' ⟨e, he, hc'⟩
    rcases ear_of_listen he with he | ⟨hn', -, -⟩
    · exact hno c' ⟨e, he, hc'⟩
    · omega
  rcases hn with hn | ⟨g', c', hc', hg'⟩
  · exact hknown (.inl hn)
  · replace hg' : (s.guests.set (g, c) s.bus.nextMailbox).get? (g', c') = some n := hg'
    rw [Table.get?_set] at hg'
    split_ifs at hg' with hsame
    · -- The new mailbox, which listens elsewhere.
      obtain rfl : s.bus.nextMailbox = n := Option.some.inj hg'
      refine ⟨by omega, ?_⟩
      rintro c'' ⟨e, he, -⟩
      rcases ear_of_listen he with he | ⟨-, -, hc⟩
      · exact absurd (h.lt_of_ear he) (Nat.lt_irrefl _)
      · exact hc' ((Prod.mk.inj hsame).2 ▸ hc)
    · exact hknown (.inr ⟨g', c', hc', hg'⟩)

/-- Somebody opens a mailbox. -/
theorem Sound.listen (h : Sound s id) {g : ℕ} {c : String} (hg : s.guests.get? (g, c) = none) :
    Sound (s.listen g c) id := by
  have hbus : (s.listen g c).bus = (s.bus.subscribe c).2 := rfl
  constructor
  · exact h.tidy.subscribe c
  · exact h.memory
  · exact h.sinks
  · exact h.alone
  · exact h.inboxes
  · rintro c' n ⟨e, he, rfl⟩
    rw [hbus, Bus.mem_subscribers_subscribe h.tidy]
    rcases ear_of_listen he with he | ⟨hn, rfl, hc⟩
    · exact .inl (h.mem_subscribers he)
    · exact .inr ⟨hc, hn⟩
  · intro g₁ g₂ n h₁ h₂
    rcases ear_of_listen h₁ with h₁ | ⟨hn₁, he₁, -⟩
    · rcases ear_of_listen h₂ with h₂ | ⟨hn₂, -, -⟩
      · exact h.guests g₁ g₂ n h₁ h₂
      · have := h.lt_of_ear h₁
        omega
    · rcases ear_of_listen h₂ with h₂ | ⟨-, he₂, -⟩
      · have := h.lt_of_ear h₂
        omega
      · rw [Ear.guest.inj he₁, Ear.guest.inj he₂]
  · intro n hn
    rw [hbus, Bus.mem_subscribers_subscribe h.tidy] at hn
    rcases hn with hn | ⟨rfl, rfl⟩
    · obtain ⟨g', hg'⟩ := h.readers n hn
      refine ⟨g', ?_⟩
      rw [ear?_listen, if_neg]
      · exact hg'
      · rintro ⟨rfl, he⟩
        rw [he] at hg'
        cases hg.symm.trans hg'
    · exact ⟨g, by rw [ear?_listen, if_pos ⟨rfl, rfl⟩]⟩
  · exact fun n hn => h.alien_listen hn

/-- What somebody gives up does not matter to the session afterwards. -/
theorem Sound.ne_of_ear_ignore (h : Sound s id) {g : ℕ} {c : String} {k : ℕ}
    (hg : s.guests.get? (g, c) = some k) (he : (s.ignore g c k).ear? id e = some n) :
    s.ear? id e = some n ∧ k ≠ n := by
  rw [ear?_ignore] at he
  split_ifs at he with hgone
  refine ⟨he, ?_⟩
  rintro rfl
  by_cases hc : c = (Channel.request id).name
  · subst hc
    exact hgone ⟨rfl, h.ear_inj he hg⟩
  · exact (h.alien k (.inr ⟨g, c, hc, hg⟩)).2 _ ⟨e, he, rfl⟩

/-- Somebody gives up a mailbox. -/
theorem Sound.ignore (h : Sound s id) {g : ℕ} {c : String} {k : ℕ}
    (hg : s.guests.get? (g, c) = some k) : Sound (s.ignore g c k) id := by
  have hbus : (s.ignore g c k).bus = s.bus.unsubscribe k := rfl
  constructor
  · exact h.tidy.unsubscribe k
  · exact h.memory
  · exact h.sinks
  · exact h.alone
  · exact h.inboxes
  · rintro c' n ⟨e, he, rfl⟩
    obtain ⟨he, hk⟩ := h.ne_of_ear_ignore hg he
    rw [hbus, Bus.mem_subscribers_unsubscribe h.tidy]
    exact ⟨h.mem_subscribers he, hk⟩
  · intro g₁ g₂ n h₁ h₂
    exact h.guests g₁ g₂ n (h.ne_of_ear_ignore hg h₁).1 (h.ne_of_ear_ignore hg h₂).1
  · intro n hn
    rw [hbus, Bus.mem_subscribers_unsubscribe h.tidy] at hn
    obtain ⟨g', hg'⟩ := h.readers n hn.1
    refine ⟨g', ?_⟩
    rw [ear?_ignore, if_neg]
    · exact hg'
    · rintro ⟨rfl, he⟩
      rw [he] at hg'
      exact hn.2 (Option.some.inj (hg.symm.trans hg'))
  · intro n hn
    have hknown : s.Alien id n := by
      rcases hn with hn | ⟨g', c', hc', hg'⟩
      · exact .inl hn
      · replace hg' : (s.guests.erase (g, c)).get? (g', c') = some n := hg'
        rw [Table.get?_erase] at hg'
        split_ifs at hg'
        exact .inr ⟨g', c', hc', hg'⟩
    obtain ⟨hlt, hno⟩ := h.alien n hknown
    refine ⟨hlt, ?_⟩
    rintro c' ⟨e, he, hc'⟩
    exact hno c' ⟨e, (h.ne_of_ear_ignore hg he).1, hc'⟩

/-! ### Turns -/

/-- A coordinator has moved on, and what it says is not said yet. -/
def moved (s : Site) (before after : List SessionTask) (t : SessionTask)
    (r : Coordinator.Turn) : Site :=
  { s with server := s.server.report r.coordinator.session, storage := r.storage
           running := before ++ ⟨t.correlation, r.coordinator, t.mailboxes⟩ :: after }

theorem advance_eq {r : Coordinator.Turn} {P : Channel → Prop}
    (hspeaks : ∀ a ∈ r.actions, a.Speaks P) :
    s.advance before after t r = (s.moved before after t r).publishAll (Action.told r.actions) := by
  unfold advance publishAll moved
  rw [Bus.carryAll_of_speaks hspeaks]

/-- A coordinator has had its turn. -/
theorem turn_eq {r : Coordinator.Turn} {P : Channel → Prop}
    (hspeaks : ∀ a ∈ r.actions, a.Speaks P) :
    s.turn before after t r =
      if r.coordinator.stage = .exited then
        ((s.moved before after t r).publishAll (Action.told r.actions)).leave before after
          ⟨t.correlation, r.coordinator, t.mailboxes⟩
      else (s.moved before after t r).publishAll (Action.told r.actions) := by
  unfold turn
  rw [Bus.carryAll_of_speaks hspeaks, advance_eq hspeaks]

theorem roster_moved (hr : s.running = before ++ t :: after) {r : Coordinator.Turn}
    (hid : r.coordinator.session.id = t.id) : (s.moved before after t r).roster = s.roster := by
  unfold roster moved
  rw [hr]
  simp [SessionTask.id, hid]

theorem Sound.moved (h : Sound s id) (hr : s.running = before ++ t :: after)
    {r : Coordinator.Turn} (hid : r.coordinator.session.id = t.id)
    (hk : r.coordinator.sink.IsMemory t.id) : Sound (s.moved before after t r) id := by
  refine h.congr h.tidy (fun _ => rfl) rfl rfl ?_ (roster_moved hr hid) rfl
  intro t' ht'
  rcases List.mem_append.1 ht' with ht' | ht'
  · exact h.sinks t' (by rw [hr]; exact List.mem_append_left _ ht')
  · rcases List.mem_cons.1 ht' with rfl | ht'
    · show r.coordinator.sink.IsMemory r.coordinator.session.id
      rw [hid]
      exact hk
    · exact h.sinks t' (by rw [hr]; exact List.mem_append_right _ (List.mem_cons_of_mem t ht'))

/-- There is one coordinator for the session, if there is any. -/
theorem Sound.others (h : Sound s id) (hr : s.running = before ++ t :: after) (ht : t.id = id) :
    (∀ t' ∈ before, t'.id ≠ id) ∧ ∀ t' ∈ after, t'.id ≠ id := by
  have halone := h.alone
  unfold tasks roster at halone
  rw [hr, List.countP_map, List.countP_append, List.countP_cons] at halone
  simp only [Function.comp_def, ht, decide_true, if_true] at halone
  have hbefore : before.countP (fun t => decide (t.id = id)) = 0 := by omega
  have hafter : after.countP (fun t => decide (t.id = id)) = 0 := by omega
  exact ⟨by simpa using List.countP_eq_zero.1 hbefore, by simpa using List.countP_eq_zero.1 hafter⟩

theorem find?_running (hr : s.running = before ++ t :: after)
    (hbefore : ∀ t' ∈ before, t'.id ≠ id) (ht : t.id = id) :
    s.running.find? (fun t => t.id = id) = some t := by
  rw [hr, List.find?_append, List.find?_eq_none.2 (by simpa using hbefore),
    List.find?_cons_of_pos (by simp [ht])]
  rfl

/-- The numbers that a coordinator knows are those of its mailboxes. -/
theorem Sound.inbox_eq (h : Sound s id) (hr : s.running = before ++ t :: after) (ht : t.id = id)
    (i : Inbox) : s.ear? id (.inbox i) = t.mailboxes.get? (i.channel id) := by
  unfold ear? inbox? roster
  dsimp only
  rw [List.find?_map]
  have hfind := find?_running hr (h.others hr ht).1 ht
  unfold Function.comp
  rw [hfind]
  rfl

theorem Sound.exists_inbox (h : Sound s id) (hr : s.running = before ++ t :: after)
    (ht : t.id = id) (hn : n ∈ t.mailboxes.values) : ∃ i, s.ear? id (.inbox i) = some n := by
  obtain ⟨k, hk⟩ := h.inboxes (t.id, t.mailboxes) (by unfold roster; rw [hr]; simp)
  dsimp only at hk
  rw [hk] at hn
  obtain ⟨i, rfl⟩ := Bus.mem_values_inboxesFrom.1 hn
  refine ⟨i, ?_⟩
  rw [h.inbox_eq hr ht, hk, ← ht]
  exact Bus.get?_inboxesFrom t.id k i

theorem alien_of_mem_values (hr : s.running = before ++ t :: after) (ht : t.id ≠ id)
    (hn : n ∈ t.mailboxes.values) : s.Alien id n :=
  .inl ⟨(t.id, t.mailboxes), by unfold roster; rw [hr]; simp, ht, hn⟩

theorem roster_leave (hr : s.running = before ++ t :: after) :
    s.roster = (before.map fun t => (t.id, t.mailboxes)) ++ (t.id, t.mailboxes) ::
        after.map (fun t => (t.id, t.mailboxes)) ∧
      (s.leave before after t).roster = (before.map fun t => (t.id, t.mailboxes)) ++
        after.map (fun t => (t.id, t.mailboxes)) := by
  unfold roster leave
  rw [hr]
  simp

/-- A coordinator that exits takes its own mailboxes with it, and no others. -/
theorem Sound.ear?_leave (h : Sound s id) (hr : s.running = before ++ t :: after) (e : Ear) :
    (s.leave before after t).ear? id e =
      if t.id = id ∧ e.isInbox = true then none else s.ear? id e := by
  cases e with
  | guest g => simp [ear?, leave, Ear.isInbox]
  | inbox i =>
    obtain ⟨hroster, hleft⟩ := roster_leave hr
    by_cases ht : t.id = id
    · obtain ⟨hbefore, hafter⟩ := h.others hr ht
      rw [if_pos ⟨ht, rfl⟩]
      unfold ear? inbox?
      rw [hleft, List.find?_eq_none.2]
      · rfl
      · intro r hmem
        rcases List.mem_append.1 hmem with hmem | hmem
        · obtain ⟨t', ht', rfl⟩ := List.mem_map.1 hmem
          simpa using hbefore t' ht'
        · obtain ⟨t', ht', rfl⟩ := List.mem_map.1 hmem
          simpa using hafter t' ht'
    · rw [if_neg fun hc => ht hc.1]
      unfold ear? inbox?
      rw [hleft, hroster]
      simp [List.find?_append, ht]

/-- What a coordinator gives up when it exits does not matter to the session afterwards. -/
theorem Sound.notMem_values (h : Sound s id) (hr : s.running = before ++ t :: after)
    (he : (s.leave before after t).ear? id e = some n) :
    s.ear? id e = some n ∧ n ∉ t.mailboxes.values := by
  rw [h.ear?_leave hr] at he
  split_ifs at he with hc
  refine ⟨he, fun hn => ?_⟩
  by_cases ht : t.id = id
  · obtain ⟨i, hi⟩ := h.exists_inbox hr ht hn
    obtain rfl := h.ear_inj he hi
    exact hc ⟨ht, rfl⟩
  · exact (h.alien n (alien_of_mem_values hr ht hn)).2 _ ⟨e, he, rfl⟩

/-- A coordinator has exited. -/
theorem Sound.leave (h : Sound s id) (hr : s.running = before ++ t :: after) :
    Sound (s.leave before after t) id := by
  obtain ⟨hroster, hleft⟩ := roster_leave hr
  have hsub : ∀ r ∈ (s.leave before after t).roster, r ∈ s.roster := by
    rw [hroster, hleft]
    intro r hmem
    rcases List.mem_append.1 hmem with hmem | hmem
    · exact List.mem_append_left _ hmem
    · exact List.mem_append_right _ (List.mem_cons_of_mem _ hmem)
  have hbus : (s.leave before after t).bus = s.bus.release t.mailboxes := rfl
  constructor
  · exact Bus.tidy_release h.tidy t.mailboxes
  · exact h.memory
  · intro t' ht'
    refine h.sinks t' ?_
    rw [hr]
    rcases List.mem_append.1 ht' with ht' | ht'
    · exact List.mem_append_left _ ht'
    · exact List.mem_append_right _ (List.mem_cons_of_mem t ht')
  · have halone := h.alone
    unfold tasks at halone ⊢
    rw [hroster, List.countP_append, List.countP_cons] at halone
    rw [hleft, List.countP_append]
    omega
  · exact fun r hmem => h.inboxes r (hsub r hmem)
  · rintro c n ⟨e, he, rfl⟩
    obtain ⟨he, hn⟩ := h.notMem_values hr he
    rw [hbus, Bus.mem_subscribers_release h.tidy]
    exact ⟨h.mem_subscribers he, hn⟩
  · intro g g' n hg hg'
    exact h.guests g g' n (h.notMem_values hr hg).1 (h.notMem_values hr hg').1
  · intro n hn
    rw [hbus, Bus.mem_subscribers_release h.tidy] at hn
    exact h.readers n hn.1
  · intro n hn
    have hknown : s.Alien id n := by
      rcases hn with ⟨r, hmem, hr', hn⟩ | hn
      · exact .inl ⟨r, hsub r hmem, hr', hn⟩
      · exact .inr hn
    obtain ⟨hlt, hno⟩ := h.alien n hknown
    rw [hbus, Bus.nextMailbox_release]
    refine ⟨hlt, ?_⟩
    rintro c ⟨e, he, hc⟩
    exact hno c ⟨e, (h.notMem_values hr he).1, hc⟩

end Site

end PullIngest
