import PullIngest.Proofs.Site.Soundness

/-!
# What a session sees of a site

The part of a site that a session depends on, and all that it leaves behind. A move changes this
part in a way that the part itself determines, and a move that does not concern the session leaves
it as it is.

* `Site.View`, `Site.view`: the part;
* `View.post`, `View.pop`, `View.listen`, `View.moved`, `View.opened`, …: what can happen to it;
* `view_publishAll`, `view_receive`, `view_listen`, `view_moved`, `view_opened`, …: when it happens.
-/

namespace PullIngest

/-- The names of the channels of a session. -/
def Channel.namesOf (id : String) : List String :=
  [name (.start id), name (.request id), name (.response id), name (.cancel id), name (.done id)]

/-- Whether something was published on one of the two channels on which a session speaks. -/
def Channel.saysFor (id : String) (p : String × Message) : Bool :=
  p.1 = name (.request id) || p.1 = name (.done id)

/-- The part of a site that a session depends on. -/
@[ext]
structure Site.View where
  policy : Policy
  destination : Destination
  coordinator : Option Coordinator
  /-- What is unread in the mailboxes that matter. -/
  hears : Ear → Option (List Message)
  /-- What was published on the channels on which the session speaks. -/
  said : List (String × Message)
  registered : Option Session
  kept : Option (List UInt8) × Option String

namespace Site

/-- The coordinator of a session. -/
def coordinator? (s : Site) (id : String) : Option Coordinator :=
  (s.running.find? fun t => t.id = id).map SessionTask.coordinator

/-- What is unread in a mailbox that matters to a session. -/
def hears (s : Site) (id : String) (e : Ear) : Option (List Message) :=
  (s.ear? id e).bind s.bus.unread?

/-- What was published on the two channels on which a session speaks. -/
def said (s : Site) (id : String) : List (String × Message) := s.sent.filter (Channel.saysFor id)

/-- What a session sees. -/
def view (s : Site) (id : String) : View where
  policy := s.server.policy
  destination := s.server.destination
  coordinator := s.coordinator? id
  hears := s.hears id
  said := s.said id
  registered := s.server.registry.lookup? id
  kept := Coordinator.kept id s.storage

variable {s s' : Site} {id : String} {c : String} {n : ℕ} {e : Ear} {t : SessionTask}
  {before after : List SessionTask} {ps : List (String × Message)}

theorem mem_namesOf (id : String) (e : Ear) : (e.channel id).name ∈ Channel.namesOf id := by
  cases e with
  | inbox i => cases i <;> simp [Ear.channel, Inbox.channel, Channel.namesOf]
  | guest g => simp [Ear.channel, Channel.namesOf]

theorem saysFor_eq_false {p : String × Message} (h : p.1 ∉ Channel.namesOf id) :
    Channel.saysFor id p = false := by
  unfold Channel.saysFor
  simp only [Bool.or_eq_false_iff, decide_eq_false_iff_not]
  constructor <;> intro he <;> exact h (by rw [he]; simp [Channel.namesOf])

/-- Channels of other sessions have other names, and so have those of replies. -/
theorem name_notMem_namesOf {c : Channel} (h : ∀ c' ∈ [Channel.start id, .request id, .response id,
    .cancel id, .done id], c ≠ c') : c.name ∉ Channel.namesOf id := by
  intro hc
  have hmap : Channel.namesOf id = [Channel.start id, .request id, .response id, .cancel id,
      .done id].map Channel.name := rfl
  rw [hmap] at hc
  obtain ⟨c', hc', he⟩ := List.mem_map.1 hc
  exact h c' hc' (Channel.name_injective he).symm

/-! ### Messages -/

namespace View

/-- A message has been published. -/
def post (id : String) (v : View) (p : String × Message) : View :=
  { v with hears := fun e =>
             if (e.channel id).name = p.1 then (v.hears e).map (Bus.pushed p.2) else v.hears e
           said := v.said ++ [p].filter (Channel.saysFor id) }

/-- A message has been taken out of a mailbox. -/
def pop (e : Ear) (v : View) : View :=
  { v with hears := fun e' => if e' = e then (v.hears e').map List.tail else v.hears e' }

theorem post_eq (v : View) {p : String × Message} (h : p.1 ∉ Channel.namesOf id) :
    v.post id p = v := by
  have hne : ∀ e : Ear, (e.channel id).name ≠ p.1 := fun e he => h (he ▸ mem_namesOf id e)
  unfold post
  simp [hne, saysFor_eq_false h]

theorem postAll_eq (v : View) (h : ∀ p ∈ ps, p.1 ∉ Channel.namesOf id) :
    ps.foldl (View.post id) v = v := by
  induction ps with
  | nil => rfl
  | cons p ps ih =>
    rw [List.foldl_cons, post_eq v (h p List.mem_cons_self)]
    exact ih fun p' hp' => h p' (List.mem_cons_of_mem p hp')

end View

theorem publishAll_cons (s : Site) (p : String × Message) (ps : List (String × Message)) :
    s.publishAll (p :: ps) = (s.publishAll [p]).publishAll ps := by
  unfold publishAll
  simp only [List.append_assoc, List.singleton_append]
  rfl

theorem view_publishAll (h : Sound s id) (ps : List (String × Message)) :
    (s.publishAll ps).view id = ps.foldl (View.post id) (s.view id) := by
  induction ps generalizing s with
  | nil =>
    unfold publishAll
    simp only [List.append_nil]
    rfl
  | cons p ps ih =>
    rw [publishAll_cons, ih (h.publishAll [p]), List.foldl_cons]
    congr 1
    ext1
    · rfl
    · rfl
    · rfl
    · funext e
      show (s.ear? id e).bind (s.bus.publish p.1 p.2).unread? =
        if _ then ((s.ear? id e).bind s.bus.unread?).map _ else (s.ear? id e).bind s.bus.unread?
      cases he : s.ear? id e with
      | none => simp
      | some n =>
        have hmem := h.mem_subscribers he
        have hiff : n ∈ s.bus.subscribers p.1 ↔ (e.channel id).name = p.1 :=
          ⟨fun hn => Bus.eq_of_mem_subscribers h.tidy hmem hn, fun hc => hc ▸ hmem⟩
        rw [Option.bind_some, Option.bind_some, h.tidy.unread?_publish]
        simp only [hiff]
    · exact List.filter_append _ _
    · rfl
    · rfl

theorem view_publishAll_of_notMem (h : Sound s id) (hps : ∀ p ∈ ps, p.1 ∉ Channel.namesOf id) :
    (s.publishAll ps).view id = s.view id := by
  rw [view_publishAll h, View.postAll_eq _ hps]

/-- Only what is unread in the mailboxes may differ. -/
theorem view_of_hears {f : Ear → Option (List Message)}
    (hears_eq : s'.hears id = f) (server_eq : s'.server = s.server)
    (coordinator_eq : s'.coordinator? id = s.coordinator? id) (sent_eq : s'.sent = s.sent)
    (storage_eq : s'.storage = s.storage) : s'.view id = { s.view id with hears := f } := by
  unfold view said
  rw [hears_eq, server_eq, coordinator_eq, sent_eq, storage_eq]

/-- A message is taken out of a mailbox that matters. -/
theorem view_receive (h : Sound s id) (he : s.ear? id e = some n) :
    view { s with bus := (s.bus.receive n).2 } id = (s.view id).pop e := by
  refine view_of_hears ?_ rfl rfl rfl rfl
  funext e'
  show (s.ear? id e').bind (s.bus.receive n).2.unread? =
    if _ then ((s.ear? id e').bind s.bus.unread?).map _ else (s.ear? id e').bind s.bus.unread?
  cases he' : s.ear? id e' with
  | none => simp
  | some n' =>
    have hiff : n = n' ↔ e' = e := by
      constructor
      · rintro rfl
        exact h.ear_inj he' he
      · rintro rfl
        exact Option.some.inj (he.symm.trans he')
    rw [Option.bind_some, Option.bind_some, Bus.unread?_receive]
    simp only [hiff]

/-- A message is taken out of any other mailbox. -/
theorem view_receive_of_alien (h : Sound s id) (hn : s.Alien id n) :
    view { s with bus := (s.bus.receive n).2 } id = s.view id := by
  refine view_of_hears ?_ rfl rfl rfl rfl
  funext e'
  show (s.ear? id e').bind (s.bus.receive n).2.unread? = (s.ear? id e').bind s.bus.unread?
  cases he' : s.ear? id e' with
  | none => rfl
  | some n' =>
    have hne : n ≠ n' := by
      rintro rfl
      exact (h.alien n hn).2 _ ⟨e', he', rfl⟩
    rw [Option.bind_some, Option.bind_some, Bus.unread?_receive, if_neg hne]

/-! ### Those who listen -/

/-- Somebody begins to listen for requests of the session. -/
def View.listen (g : ℕ) (v : View) : View :=
  { v with hears := fun e => if e = .guest g then some [] else v.hears e }

/-- Somebody no longer listens for requests of the session. -/
def View.ignore (g : ℕ) (v : View) : View :=
  { v with hears := fun e => if e = .guest g then none else v.hears e }

/-- Some mailboxes are gone, and what is unread in the others stays. -/
theorem hears_of_ear {p : Prop} [Decidable p]
    (hear : s'.ear? id e = if p then none else s.ear? id e)
    (hkeep : ∀ n, s'.ear? id e = some n → s'.bus.unread? n = s.bus.unread? n) :
    s'.hears id e = if p then none else s.hears id e := by
  unfold hears
  split_ifs at hear ⊢ with hgone
  · rw [hear]
    rfl
  · rw [hear] at hkeep ⊢
    cases he : s.ear? id e with
    | none => rfl
    | some n => exact hkeep n he

theorem hears_listen (h : Sound s id) (g : ℕ) (c : String) (e : Ear) :
    (s.listen g c).hears id e =
      if c = (Channel.request id).name ∧ e = .guest g then some [] else s.hears id e := by
  show ((s.listen g c).ear? id e).bind (s.bus.subscribe c).2.unread? = _
  rw [ear?_listen]
  split_ifs
  · rw [Option.bind_some, Bus.unread?_subscribe, if_pos rfl]
  · unfold hears
    cases he : s.ear? id e with
    | none => rfl
    | some n =>
      have hlt := h.lt_of_ear he
      rw [Option.bind_some, Option.bind_some, Bus.unread?_subscribe, if_neg (by omega)]

theorem hears_ignore (h : Sound s id) {g : ℕ} {k : ℕ} (hg : s.guests.get? (g, c) = some k)
    (e : Ear) : (s.ignore g c k).hears id e =
      if c = (Channel.request id).name ∧ e = .guest g then none else s.hears id e := by
  refine hears_of_ear (ear?_ignore s id g c k e) fun n he => ?_
  exact (Bus.unread?_unsubscribe s.bus k n).trans (if_neg (h.ne_of_ear_ignore hg he).2)

theorem view_listen (h : Sound s id) (g : ℕ) :
    (s.listen g (Channel.request id).name).view id = (s.view id).listen g := by
  refine view_of_hears (funext fun e => ?_) rfl rfl rfl rfl
  rw [hears_listen h]
  simp only [true_and]
  rfl

theorem view_listen_of_ne (h : Sound s id) (g : ℕ) (hc : c ≠ (Channel.request id).name) :
    (s.listen g c).view id = s.view id := by
  refine view_of_hears (funext fun e => ?_) rfl rfl rfl rfl
  rw [hears_listen h, if_neg fun hcond => hc hcond.1]

theorem view_ignore (h : Sound s id) {g k : ℕ}
    (hg : s.guests.get? (g, (Channel.request id).name) = some k) :
    (s.ignore g (Channel.request id).name k).view id = (s.view id).ignore g := by
  refine view_of_hears (funext fun e => ?_) rfl rfl rfl rfl
  rw [hears_ignore h hg]
  simp only [true_and]
  rfl

theorem view_ignore_of_ne (h : Sound s id) {g k : ℕ} (hg : s.guests.get? (g, c) = some k)
    (hc : c ≠ (Channel.request id).name) : (s.ignore g c k).view id = s.view id := by
  refine view_of_hears (funext fun e => ?_) rfl rfl rfl rfl
  rw [hears_ignore h hg, if_neg fun hcond => hc hcond.1]

/-! ### Turns -/

theorem lookup?_update (r : Registry) (x : Session) (id : String) :
    (r.update x).lookup? id =
      if x.id = id then (r.lookup? id).map fun _ => x else r.lookup? id := by
  show (r.sessions.modify x.id fun _ => x).get? id = _
  unfold Table.modify
  split
  · next v hv =>
    rw [Table.get?_set]
    split_ifs with hid
    · subst hid
      unfold Registry.lookup?
      rw [hv]
      rfl
    · rfl
  · next hv =>
    split_ifs with hid
    · subst hid
      unfold Registry.lookup?
      rw [hv]
      rfl
    · rfl

/-- Coordinators of other sessions come and go. -/
theorem find?_other (ht : t.id ≠ id) :
    (before ++ t :: after).find? (fun t => t.id = id) =
      (before ++ after).find? fun t => t.id = id := by
  simp [List.find?_append, ht]

/-- The coordinator of the session has had its turn, and has not spoken yet. -/
def View.moved (id : String) (r : Coordinator.Turn) (v : View) : View :=
  { v with coordinator := some r.coordinator
           registered := v.registered.map fun _ => r.coordinator.session
           kept := Coordinator.kept id r.storage }

/-- The coordinator of the session is gone. -/
def View.left (v : View) : View :=
  { v with coordinator := none, registered := none
           hears := fun e => if e.isInbox = true then none else v.hears e }

theorem hears_congr (hear : s'.ear? id e = s.ear? id e) (hbus : s'.bus = s.bus) :
    s'.hears id e = s.hears id e := by
  unfold hears
  rw [hear, hbus]

theorem Sound.coordinator?_eq (h : Sound s id) (hr : s.running = before ++ t :: after)
    (ht : t.id = id) : s.coordinator? id = some t.coordinator := by
  unfold coordinator?
  rw [find?_running hr (h.others hr ht).1 ht]
  rfl

theorem view_moved (h : Sound s id) (hr : s.running = before ++ t :: after) (ht : t.id = id)
    {r : Coordinator.Turn} (hid : r.coordinator.session.id = t.id) :
    (s.moved before after t r).view id = (s.view id).moved id r := by
  have hfind : (s.moved before after t r).running.find? (fun t => t.id = id) =
      some ⟨t.correlation, r.coordinator, t.mailboxes⟩ :=
    find?_running rfl (h.others hr ht).1 (hid.trans ht)
  ext1
  · rfl
  · rfl
  · show ((s.moved before after t r).running.find? _).map _ = _
    rw [hfind]
    rfl
  · funext e
    exact hears_congr (ear?_congr (roster_moved hr hid) rfl e) rfl
  · rfl
  · show (s.server.registry.update r.coordinator.session).lookup? id = _
    rw [lookup?_update, if_pos (hid.trans ht)]
    rfl
  · rfl

theorem view_moved_of_ne (hr : s.running = before ++ t :: after) (ht : t.id ≠ id)
    {r : Coordinator.Turn} (hid : r.coordinator.session.id = t.id)
    (hkept : Coordinator.kept id r.storage = Coordinator.kept id s.storage) :
    (s.moved before after t r).view id = s.view id := by
  have ht' : SessionTask.id ⟨t.correlation, r.coordinator, t.mailboxes⟩ ≠ id := fun he =>
    ht (hid.symm.trans he)
  ext1
  · rfl
  · rfl
  · show ((before ++ _ :: after).find? _).map _ = (s.running.find? _).map _
    rw [hr, find?_other ht, find?_other ht']
  · funext e
    exact hears_congr (ear?_congr (roster_moved hr hid) rfl e) rfl
  · rfl
  · show (s.server.registry.update r.coordinator.session).lookup? id = _
    rw [lookup?_update, if_neg fun he => ht (hid.symm.trans he)]
    rfl
  · exact hkept

theorem unread?_release (b : Bus Message) (mailboxes : Table Channel ℕ)
    (hn : n ∉ mailboxes.values) : (b.release mailboxes).unread? n = b.unread? n := by
  unfold Bus.release
  generalize mailboxes.values = ns at hn
  induction ns generalizing b with
  | nil => rfl
  | cons k ks ih =>
    rw [List.mem_cons, not_or] at hn
    rw [List.foldl_cons, ih _ hn.2, Bus.unread?_unsubscribe, if_neg fun he => hn.1 he.symm]

theorem hears_leave (h : Sound s id) (hr : s.running = before ++ t :: after) (e : Ear) :
    (s.leave before after t).hears id e =
      if t.id = id ∧ e.isInbox = true then none else s.hears id e :=
  hears_of_ear (h.ear?_leave hr e) fun _ he => unread?_release _ _ (h.notMem_values hr he).2

theorem lookup?_remove (r : Registry) (id' id : String) :
    (r.remove id').lookup? id = if id' = id then none else r.lookup? id := Table.get?_erase ..

theorem view_leave (h : Sound s id) (hr : s.running = before ++ t :: after) (ht : t.id = id) :
    (s.leave before after t).view id = (s.view id).left := by
  obtain ⟨hbefore, hafter⟩ := h.others hr ht
  ext1
  · rfl
  · rfl
  · show ((before ++ after).find? _).map _ = none
    rw [List.find?_eq_none.2]
    · rfl
    · intro t' ht'
      rcases List.mem_append.1 ht' with ht' | ht'
      · simpa using hbefore t' ht'
      · simpa using hafter t' ht'
  · funext e
    show (s.leave before after t).hears id e = if _ then _ else _
    rw [hears_leave h hr]
    simp only [ht, true_and]
    rfl
  · rfl
  · show (s.server.registry.remove t.id).lookup? id = none
    rw [lookup?_remove, if_pos ht]
  · rfl

theorem view_leave_of_ne (h : Sound s id) (hr : s.running = before ++ t :: after)
    (ht : t.id ≠ id) : (s.leave before after t).view id = s.view id := by
  ext1
  · rfl
  · rfl
  · show ((before ++ after).find? _).map _ = (s.running.find? _).map _
    rw [hr, find?_other ht]
  · funext e
    show (s.leave before after t).hears id e = s.hears id e
    rw [hears_leave h hr, if_neg fun hc => ht hc.1]
  · rfl
  · show (s.server.registry.remove t.id).lookup? id = _
    rw [lookup?_remove, if_neg ht]
    rfl
  · rfl

/-! ### Sessions that are opened -/

/-- The session has been opened. -/
def View.opened (id : String) (now : ℕ) (create : CreateSession) (sink : Sink) (v : View) : View :=
  { v with coordinator := some (.new v.policy (.new id create.name create.size) sink now)
           hears := fun e => if e.isInbox = true then some [] else v.hears e
           registered := some (.new id create.name create.size) }

theorem unread?_opening (b : Bus Message) (id : String) (k : ℕ) :
    (b.opening id).unread? k =
      if k < b.nextMailbox ∨ b.nextMailbox + 3 ≤ k then b.unread? k else some [] := by
  unfold Bus.opening
  rw [Bus.unread?_subscribe, Bus.unread?_subscribe, Bus.unread?_subscribe]
  show (if b.nextMailbox + 1 + 1 = k then _ else if b.nextMailbox + 1 = k then _ else _) = _
  split_ifs <;> first | rfl | omega

variable {request : Message} {fresh : String} {now : ℕ} {create : CreateSession} {sink : Sink}

theorem hears_opened (h : Sound s id) (hnew : fresh = id → s.tasks id = 0) (e : Ear) :
    (s.opened request fresh now create sink).hears id e =
      if fresh = id ∧ e.isInbox = true then some [] else s.hears id e := by
  have hkept : (s.ear? id e).bind (s.bus.opening fresh).unread? = s.hears id e := by
    unfold hears
    cases he : s.ear? id e with
    | none => rfl
    | some n =>
      rw [Option.bind_some, Option.bind_some, unread?_opening, if_pos (.inl (h.lt_of_ear he))]
  cases e with
  | guest g =>
    rw [if_neg (by simp [Ear.isInbox])]
    exact hkept
  | inbox i =>
    show ((s.opened request fresh now create sink).ear? id (.inbox i)).bind
      (s.bus.opening fresh).unread? = _
    rw [inbox_opened hnew]
    by_cases hid : fresh = id
    · have hplace := Bus.place_lt i
      rw [if_pos hid, if_pos ⟨hid, rfl⟩, Option.bind_some, unread?_opening, if_neg (by omega)]
    · rw [if_neg hid, if_neg fun hc => hid hc.1]
      exact hkept

theorem lookup?_create (r : Registry) (fresh name : String) (size : UInt64) (id : String) :
    (r.create fresh name size).lookup? id =
      if fresh = id then some (.new fresh name size) else r.lookup? id := Table.get?_set ..

theorem find?_running_of_tasks (h : s.tasks id = 0) :
    s.running.find? (fun t => t.id = id) = none := by
  have hnone := find?_roster_of_tasks h
  unfold roster at hnone
  rw [List.find?_map] at hnone
  exact Option.map_eq_none_iff.1 hnone

theorem view_opened (h : Sound s id) (hnew : s.tasks id = 0) :
    (s.opened request id now create sink).view id = (s.view id).opened id now create sink := by
  ext1
  · rfl
  · rfl
  · show ((s.running ++ [_]).find? _).map _ = _
    rw [List.find?_append, find?_running_of_tasks hnew, List.find?_cons_of_pos (by
      simp [SessionTask.id, Coordinator.new, Session.new])]
    rfl
  · funext e
    show (s.opened request id now create sink).hears id e = if _ then _ else _
    rw [hears_opened h fun _ => hnew]
    simp only [true_and]
    rfl
  · rfl
  · show (s.server.registry.create id create.name create.size).lookup? id = _
    rw [lookup?_create, if_pos rfl]
    rfl
  · rfl

theorem view_opened_of_ne (h : Sound s id) (hid : fresh ≠ id) :
    (s.opened request fresh now create sink).view id = s.view id := by
  ext1
  · rfl
  · rfl
  · show ((s.running ++ [_]).find? _).map _ = (s.running.find? _).map _
    rw [List.find?_append, List.find?_cons_of_neg (by
      simp [SessionTask.id, Coordinator.new, Session.new, hid])]
    simp
  · funext e
    show (s.opened request fresh now create sink).hears id e = s.hears id e
    rw [hears_opened h fun he => absurd he hid, if_neg fun hc => hid hc.1]
  · rfl
  · show (s.server.registry.create fresh create.name create.size).lookup? id = _
    rw [lookup?_create, if_neg hid]
    rfl
  · rfl

end Site

end PullIngest
