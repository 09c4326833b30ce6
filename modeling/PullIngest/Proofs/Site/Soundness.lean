import PullIngest.Proofs.Site.Order

/-!
# What the server does keeps the order

A server that keeps everything in memory either replies to a create request or opens a session with
mailboxes that are new. So the mailboxes of a session are in order all the time, if its id is given
out once.

* `Site.Answered`, `answered`: what a create request leads to;
* `Sound.step`, `sound_of_run`: every move keeps the invariant, and so does every run.
-/

namespace PullIngest.Site

variable {s s' : Site} {id : String} {c : String} {n : ℕ} {e : Ear} {t : SessionTask}
  {before after : List SessionTask}

/-! ### Sessions that are opened -/

/-- The server has opened a session, and its coordinator is there, with new mailboxes. -/
def opened (s : Site) (request : Message) (fresh : String) (now : ℕ) (create : CreateSession)
    (sink : Sink) : Site :=
  { s with bus := s.bus.opening fresh
           server := { s.server with
             registry := s.server.registry.create fresh create.name create.size
             accepted := s.server.accepted.set request.id fresh }
           running := s.running ++ [⟨request.id,
             .new s.server.policy (.new fresh create.name create.size) sink now,
             Bus.inboxesFrom fresh s.bus.nextMailbox⟩] }

variable {request : Message} {fresh : String} {now : ℕ} {create : CreateSession} {sink : Sink}

theorem roster_opened : (s.opened request fresh now create sink).roster =
    s.roster ++ [(fresh, Bus.inboxesFrom fresh s.bus.nextMailbox)] := by
  simp [roster, opened, SessionTask.id, Coordinator.new, Session.new]

theorem find?_roster_of_tasks (h : s.tasks id = 0) : s.roster.find? (fun r => r.1 = id) = none :=
  List.find?_eq_none.2 (List.countP_eq_zero.1 h)

/-- A coordinator that is new has its own mailboxes, and others have those that they had. -/
theorem inbox_opened (hnew : fresh = id → s.tasks id = 0) (i : Inbox) :
    (s.opened request fresh now create sink).ear? id (.inbox i) =
      if fresh = id then some (s.bus.nextMailbox + Bus.place i) else s.ear? id (.inbox i) := by
  show ((s.opened request fresh now create sink).roster.find? fun r => r.1 = id).bind _ = _
  rw [roster_opened, List.find?_append]
  split_ifs with hid
  · subst hid
    rw [find?_roster_of_tasks (hnew rfl)]
    simpa using Bus.get?_inboxesFrom fresh s.bus.nextMailbox i
  · simp [ear?, inbox?, hid]

theorem tasks_opened (s : Site) (id : String) :
    (s.opened request fresh now create sink).tasks id =
      s.tasks id + (if fresh = id then 1 else 0) := by
  unfold tasks
  rw [roster_opened, List.countP_append, List.countP_singleton]
  by_cases hid : fresh = id <;> simp [hid]

/-- The mailboxes of the session are those it had, or the new ones. -/
theorem ear_of_opened (hnew : fresh = id → s.tasks id = 0)
    (he : (s.opened request fresh now create sink).ear? id e = some n) :
    s.ear? id e = some n ∨
      (fresh = id ∧ ∃ i, e = .inbox i ∧ n = s.bus.nextMailbox + Bus.place i) := by
  cases e with
  | guest g => exact .inl he
  | inbox i =>
    rw [inbox_opened hnew] at he
    split_ifs at he with hid
    · exact .inr ⟨hid, i, rfl, (Option.some.inj he).symm⟩
    · exact .inl he

theorem Sound.alien_opened (h : Sound s id) (hnew : fresh = id → s.tasks id = 0)
    (hn : (s.opened request fresh now create sink).Alien id n) :
    n < s.bus.nextMailbox + 3 ∧ ∀ c, ¬ (s.opened request fresh now create sink).Owns id c n := by
  have hknown : s.Alien id n → n < s.bus.nextMailbox + 3 ∧
      ∀ c, ¬ (s.opened request fresh now create sink).Owns id c n := by
    intro hn
    obtain ⟨hlt, hno⟩ := h.alien n hn
    refine ⟨by omega, ?_⟩
    rintro c ⟨e, he, hc⟩
    rcases ear_of_opened hnew he with he | ⟨-, i, -, hn'⟩
    · exact hno c ⟨e, he, hc⟩
    · omega
  rcases hn with ⟨r, hr, hne, hn⟩ | hn
  · rw [roster_opened] at hr
    rcases List.mem_append.1 hr with hr | hr
    · exact hknown (.inl ⟨r, hr, hne, hn⟩)
    · -- A mailbox of the new coordinator, if that is one of another session.
      obtain rfl := List.mem_singleton.1 hr
      obtain ⟨i, rfl⟩ := Bus.mem_values_inboxesFrom.1 hn
      have hplace := Bus.place_lt i
      refine ⟨by omega, ?_⟩
      rintro c ⟨e, he, hc⟩
      rcases ear_of_opened hnew he with he | ⟨hid, -⟩
      · have := h.lt_of_ear he
        omega
      · exact hne hid
  · exact hknown (.inr hn)

theorem Sound.opened (h : Sound s id) (hk : sink.IsMemory fresh)
    (hnew : fresh = id → s.tasks id = 0) :
    Sound (s.opened request fresh now create sink) id := by
  have hsubs : ∀ c n, n ∈ (s.opened request fresh now create sink).bus.subscribers c ↔
      n ∈ s.bus.subscribers c ∨
        ∃ i : Inbox, (i.channel fresh).name = c ∧ n = s.bus.nextMailbox + Bus.place i :=
    fun c n => Bus.mem_subscribers_opening h.tidy
  constructor
  · exact Bus.tidy_opening h.tidy fresh
  · exact h.memory
  · intro t' ht'
    rcases List.mem_append.1 ht' with ht' | ht'
    · exact h.sinks t' ht'
    · obtain rfl := List.mem_singleton.1 ht'
      exact hk
  · rw [tasks_opened]
    have halone := h.alone
    split_ifs with hid
    · have hzero := hnew hid
      omega
    · exact halone
  · intro r hr
    rw [roster_opened] at hr
    rcases List.mem_append.1 hr with hr | hr
    · exact h.inboxes r hr
    · obtain rfl := List.mem_singleton.1 hr
      exact ⟨_, rfl⟩
  · rintro c n ⟨e, he, rfl⟩
    rw [hsubs]
    rcases ear_of_opened hnew he with he | ⟨rfl, i, rfl, rfl⟩
    · exact .inl (h.mem_subscribers he)
    · exact .inr ⟨i, rfl, rfl⟩
  · exact h.guests
  · intro n hn
    rcases (hsubs _ n).1 hn with hn | ⟨i, hc, -⟩
    · exact h.readers n hn
    · have hne := Channel.name_injective hc
      cases i <;> cases hne
  · exact fun n hn => h.alien_opened hnew hn

/-- A new sink in memory. -/
def memorySink (session : String) (size : UInt64) (reject : Bool) (refuseFrom : Option UInt64) :
    Sink := .memory { session, size, reject, refuseFrom }

theorem isMemory_memorySink (session : String) (size : UInt64) (reject : Bool)
    (refuseFrom : Option UInt64) :
    Sink.IsMemory session (memorySink session size reject refuseFrom) := ⟨_, rfl, rfl⟩

/-- What the server leaves behind with a create request, if it keeps everything in memory. -/
inductive Answered (s : Site) (request : Message) (fresh : String) (now : ℕ) : Bool → Site → Prop
  | quiet (ps : List (String × Message))
      (hps : ∀ p ∈ ps, p.1 = (Channel.reply request.id).name) :
      Answered s request fresh now false (s.publishAll ps)
  | opens {create : CreateSession} {reject : Bool} {refuseFrom : Option UInt64}
      (hc : request.payloadAs CreateSession .createSession = .ok create)
      (hd : s.server.destination = .memory reject refuseFrom)
      (ps : List (String × Message)) (hps : ∀ p ∈ ps, p.1 = (Channel.reply request.id).name) :
      Answered s request fresh now true
        ((s.opened request fresh now create
          (memorySink fresh create.size reject refuseFrom)).publishAll ps)

theorem speaks_reply (accepts : Channel → Bool) (answer : Message) :
    ∀ a ∈ Server.reply accepts answer, a.Speaks (· = .reply answer.id) := by
  unfold Server.reply
  dsimp only
  split_ifs <;> simp [Action.Speaks]

theorem answered (hd : ∃ reject refuseFrom, s.server.destination = .memory reject refuseFrom)
    (request : Message) (fresh : String) (now : ℕ) :
    Answered s request fresh now
      (s.server.handleCreate s.bus.takes now s.storage fresh request).opened.isSome
      (s.answer request fresh now) := by
  obtain ⟨reject, refuseFrom, hd⟩ := hd
  have hcases := s.server.handleCreate_cases s.bus.takes now s.storage fresh request
  unfold answer
  generalize s.server.handleCreate s.bus.takes now s.storage fresh request = turn at hcases ⊢
  have htold : ∀ as : List Action, (∀ a ∈ as, a.Speaks (· = .reply request.id)) →
      ∀ p ∈ Action.told as, p.1 = (Channel.reply request.id).name := by
    intro as has p hp
    obtain ⟨c, rfl, hname⟩ := Action.of_mem_told has hp
    exact hname
  cases hcases with
  | @repeats session h =>
    have hspeaks := speaks_reply s.bus.takes (Server.createdReply request session)
    dsimp only
    rw [Bus.carryAll_of_speaks hspeaks, Option.map_none, Option.toList_none, List.append_nil]
    exact .quiet _ (htold _ hspeaks)
  | refuses h code line text =>
    have hspeaks : ∀ a ∈ (s.server.refuse s.bus.takes s.storage request code line text).actions,
        a.Speaks (· = .reply request.id) := by
      intro a ha
      rcases List.mem_cons.1 ha with rfl | ha
      · trivial
      · exact speaks_reply s.bus.takes (.failure request.id code text) a ha
    dsimp only
    rw [Bus.carryAll_of_speaks hspeaks]
    dsimp only [Server.refuse]
    rw [Option.map_none, Option.toList_none, List.append_nil]
    exact .quiet _ (htold _ hspeaks)
  | withdraws h hc hv hk =>
    -- A sink in memory is always there.
    rw [hd] at hk
    cases hk
  | @opens h create sink storage' hc hv hk =>
    rw [hd] at hk
    obtain ⟨hsink, rfl⟩ := Prod.mk.inj hk
    obtain rfl := Except.ok.inj hsink
    have hspeaks := speaks_reply s.bus.takes (Server.createdReply request fresh)
    dsimp only
    rw [Bus.carryAll_opening hspeaks]
    exact .opens hc hd _ (htold _ hspeaks)

/-! ### Runs -/

/-- What a create request leads to, told by the move. -/
theorem Step.answered (h : Sound s id) {opened : Bool}
    (hs : Step s (.create request fresh now opened) s') :
    Answered s request fresh now opened s' := by
  generalize hx : Move.create request fresh now opened = x at hs
  cases hs with
  | create hs request fresh now =>
    obtain ⟨rfl, rfl, rfl, rfl⟩ := Move.create.inj hx
    exact Site.answered h.memory _ _ _
  | _ => cases hx

/-- Whose turn it was, and what it found. -/
theorem Step.had_turn {id' : String} {cue : Cue} (hs : Step s (.turn id' cue now) s') :
    ∃ before t after e b, s.running = before ++ t :: after ∧ t.id = id' ∧
      s.Takes t now cue e b ∧ s' = { s with bus := b }.turn before after t
        (t.coordinator.take ⟨e, b.takes, now, s.storage⟩) := by
  generalize hx : Move.turn id' cue now = x at hs
  cases hs with
  | @turn before after t hr cue e b now he =>
    obtain ⟨rfl, rfl, rfl⟩ := Move.turn.inj hx
    exact ⟨before, t, after, e, b, hr, rfl, he, rfl⟩
  | _ => cases hx

theorem Sound.takes (h : Sound s id) {now : ℕ} {cue : Cue} {e : Event} {b : Bus Message}
    (he : s.Takes t now cue e b) : Sound { s with bus := b } id := by
  cases he with
  | inbox i hm =>
    obtain ⟨n, -, htake⟩ := hm
    rw [Bus.eq_receive_of_take htake]
    exact h.steady [.receive n] (by simp [Bus.Op.isSteady])
  | timer ht hd => exact h
  | shutdown hs => exact h

/-- A coordinator has had its turn. -/
theorem Sound.turn (h : Sound s id) (hr : s.running = before ++ t :: after)
    (x : Coordinator.Occasion) : Sound (s.turn before after t (t.coordinator.take x)) id := by
  have hk := h.sinks t (by rw [hr]; simp)
  have hmoved := h.moved hr (Coordinator.sameFile_take t.coordinator x).id_eq
    (Coordinator.take_elsewhere hk x).1
  have hadvance := hmoved.publishAll (Action.told (t.coordinator.take x).actions)
  rw [turn_eq (Coordinator.speaks_take t.coordinator x)]
  split_ifs
  · exact hadvance.leave rfl
  · exact hadvance

/-- Every move keeps the invariant, as long as it opens no session that is there already. -/
theorem Sound.step (h : Sound s id) {x : Move} (hs : Step s x s')
    (hnew : x.opens id = true → s.tasks id = 0) : Sound s' id := by
  cases x with
  | create request fresh now opened =>
    cases hs.answered h with
    | quiet ps hps => exact h.publishAll ps
    | @opens create reject refuseFrom hc hd ps hps =>
      have hid : fresh = id → s.tasks id = 0 := fun hid => hnew (by simp [Move.opens, hid])
      exact (h.opened (isMemory_memorySink ..) hid).publishAll ps
  | turn id' cue now =>
    obtain ⟨before, t, after, e, b, hr, rfl, he, rfl⟩ := hs.had_turn
    exact (h.takes he).turn hr _
  | publish c m =>
    cases hs
    exact h.publishAll [(c, m)]
  | subscribe g c =>
    cases hs with
    | subscribe hg => exact h.listen hg
  | receive g c =>
    cases hs
    exact h.steady [.receive _] (by simp [Bus.Op.isSteady])
  | drop g c =>
    cases hs with
    | drop hg => exact h.ignore hg
  | reap key =>
    cases hs
    exact h.congr h.tidy (fun _ => rfl) rfl rfl h.sinks rfl rfl
  | stop =>
    cases hs
    exact h.congr h.tidy (fun _ => rfl) rfl rfl h.sinks rfl rfl

theorem tasks_turn (hr : s.running = before ++ t :: after) (x : Coordinator.Occasion) :
    (s.turn before after t (t.coordinator.take x)).tasks id ≤ s.tasks id := by
  have hmoved := roster_moved hr (Coordinator.sameFile_take t.coordinator x).id_eq
  rw [turn_eq (Coordinator.speaks_take t.coordinator x)]
  unfold tasks
  rw [← hmoved]
  split_ifs
  · have hrunning : ((s.moved before after t (t.coordinator.take x)).publishAll
        (Action.told (t.coordinator.take x).actions)).running = before ++ _ :: after := rfl
    obtain ⟨hroster, hleft⟩ := roster_leave hrunning
    rw [roster_publishAll] at hroster
    rw [hleft, hroster, List.countP_append, List.countP_append, List.countP_cons]
    omega
  · exact Nat.le_refl _

/-- A session has no more coordinators than moves have opened. -/
theorem tasks_step (h : Sound s id) {x : Move} (hs : Step s x s') :
    s'.tasks id ≤ s.tasks id + (if x.opens id = true then 1 else 0) := by
  cases x with
  | create request fresh now opened =>
    cases hs.answered h with
    | quiet ps hps => exact Nat.le_add_right _ _
    | opens hc hd ps hps =>
      show (s.opened request fresh now _ _).tasks id ≤ _
      rw [tasks_opened]
      simp [Move.opens]
  | turn id' cue now =>
    obtain ⟨before, t, after, e, b, hr, rfl, he, rfl⟩ := hs.had_turn
    exact Nat.le_trans (tasks_turn (s := { s with bus := b }) hr _) (Nat.le_add_right _ _)
  | _ =>
    cases hs
    exact Nat.le_add_right _ _

/-- A session that is opened once at most is in order all the time. -/
theorem sound_of_run {policy : Policy} {reject : Bool} {refuseFrom : Option UInt64}
    {xs : List Move} (h : Run (start policy reject refuseFrom) xs s)
    (honce : xs.countP (Move.opens id) ≤ 1) :
    Sound s id ∧ s.tasks id ≤ xs.countP (Move.opens id) := by
  induction h with
  | start => exact ⟨sound_start policy reject refuseFrom id, Nat.le_refl 0⟩
  | @step xs s s' h x hs ih =>
    rw [List.countP_append, List.countP_singleton] at honce ⊢
    obtain ⟨hsound, htasks⟩ := ih (by omega)
    refine ⟨hsound.step hs fun hx => ?_, Nat.le_trans (tasks_step hsound hs) (by omega)⟩
    rw [if_pos hx] at honce
    omega

end PullIngest.Site
