import Mathlib.Data.List.Induction
import PullIngest.Proofs.Site.View

/-!
# Sessions are isolated from each other

Two runs of a server that keeps everything in memory. If they agree on what concerns a session,
they agree on what becomes of it, whatever else happens in each of them: on other channels, to
other sessions, and in between.

* `Move.concerns`: the moves that concern a session;
* `view_of_hidden`: the other moves do not change what the session sees;
* `view_of_visible`: what the session sees decides what the moves that concern it do to it;
* `view_of_runs`: so runs with the same moves that concern the session lead to the same view;
* `isolated`: what becomes of the session does not depend on others.
-/

namespace PullIngest

/-- Whether a move concerns a session: it opens the session, is a turn of its coordinator, publishes
on one of its channels, or is made by somebody who listens for its requests. -/
def Move.concerns (id : String) : Move → Bool
  | create request fresh now opened => (create request fresh now opened).opens id
  | turn id' _ _ => id' = id
  | publish c _ => c ∈ Channel.namesOf id
  | subscribe _ c => c = (Channel.request id).name
  | receive _ c => c = (Channel.request id).name
  | drop _ c => c = (Channel.request id).name
  | reap _ => false
  | stop => false

/-- Whether the move is a create request with this id. -/
def Move.asks (correlation : String) : Move → Bool
  | create request _ _ _ => request.id = correlation
  | _ => false

namespace Site

variable {s s' u u' : Site} {id : String} {n : ℕ} {t : SessionTask}
  {before after : List SessionTask} {x : Move}

/-! ### Turns of a coordinator -/

/-- What a coordinator finds when it has its turn. -/
def View.event? (v : View) : Cue → Option Event
  | .inbox i => ((v.hears (.inbox i)).bind List.head?).map fun m => i.event m
  | .timer => some .timer
  | .shutdown => some .shutdown

/-- The coordinator has taken what it found. -/
def View.taken (v : View) : Cue → View
  | .inbox i => v.pop (.inbox i)
  | _ => v

/-- The coordinator has had its turn. -/
def View.turned (id : String) (r : Coordinator.Turn) (v : View) : View :=
  let v := (Action.told r.actions).foldl (View.post id) (v.moved id r)
  if r.coordinator.stage = .exited then v.left else v

theorem view_taken (h : Sound s id) (hr : s.running = before ++ t :: after) (ht : t.id = id)
    {now : ℕ} {cue : Cue} {e : Event} {b : Bus Message} (he : s.Takes t now cue e b) :
    (s.view id).event? cue = some e ∧ view { s with bus := b } id = (s.view id).taken cue := by
  cases he with
  | @inbox i m b hm =>
    obtain ⟨n, hn, htake⟩ := hm
    have hear : s.ear? id (.inbox i) = some n := by
      rw [h.inbox_eq hr ht, ← ht]
      exact hn
    obtain ⟨q, hq, -⟩ := Bus.take?_eq_some.1 htake
    refine ⟨?_, ?_⟩
    · show (((s.ear? id (.inbox i)).bind s.bus.unread?).bind _).map _ = _
      rw [hear, Option.bind_some, hq]
      rfl
    · rw [Bus.eq_receive_of_take htake]
      exact view_receive h hear
  | timer _ _ => exact ⟨rfl, rfl⟩
  | shutdown _ => exact ⟨rfl, rfl⟩

theorem view_taken_of_ne (h : Sound s id) (hr : s.running = before ++ t :: after) (ht : t.id ≠ id)
    {now : ℕ} {cue : Cue} {e : Event} {b : Bus Message} (he : s.Takes t now cue e b) :
    view { s with bus := b } id = s.view id := by
  cases he with
  | inbox i hm =>
    obtain ⟨n, hn, htake⟩ := hm
    rw [Bus.eq_receive_of_take htake]
    exact view_receive_of_alien h (alien_of_mem_values hr ht (Table.mem_values_of_get? hn))
  | timer _ _ => rfl
  | shutdown _ => rfl

theorem view_turn (h : Sound s id) (hr : s.running = before ++ t :: after) (ht : t.id = id)
    (o : Coordinator.Occasion) :
    (s.turn before after t (t.coordinator.take o)).view id =
      (s.view id).turned id (t.coordinator.take o) := by
  have hid := (Coordinator.sameFile_take t.coordinator o).id_eq
  have hk := h.sinks t (by rw [hr]; simp)
  have hmoved := h.moved hr hid (Coordinator.take_elsewhere hk o).1
  rw [turn_eq (Coordinator.speaks_take t.coordinator o)]
  unfold View.turned
  dsimp only
  rw [← view_moved h hr ht hid, ← view_publishAll hmoved]
  split_ifs
  · exact view_leave (hmoved.publishAll _) rfl (hid.trans ht)
  · rfl

theorem view_turn_of_ne (h : Sound s id) (hr : s.running = before ++ t :: after) (ht : t.id ≠ id)
    (o : Coordinator.Occasion) (ho : o.storage = s.storage) :
    (s.turn before after t (t.coordinator.take o)).view id = s.view id := by
  have hid := (Coordinator.sameFile_take t.coordinator o).id_eq
  have hspeaks := Coordinator.speaks_take t.coordinator o
  have hk := h.sinks t (by rw [hr]; simp)
  obtain ⟨hmemory, hkept⟩ := Coordinator.take_elsewhere hk o
  have hmoved := h.moved hr hid hmemory
  have hview : (s.moved before after t (t.coordinator.take o)).view id = s.view id :=
    view_moved_of_ne hr ht hid ((hkept id fun he => ht he.symm).trans (by rw [ho]))
  have htold : ∀ p ∈ Action.told (t.coordinator.take o).actions, p.1 ∉ Channel.namesOf id := by
    intro p hp
    obtain ⟨c, hc, hname⟩ := Action.of_mem_told hspeaks hp
    rw [hname]
    refine name_notMem_namesOf ?_
    rcases hc with rfl | rfl <;> simpa [SessionTask.id] using ht
  have hsaid := view_publishAll_of_notMem hmoved htold
  rw [turn_eq hspeaks]
  split_ifs
  · exact (view_leave_of_ne (hmoved.publishAll _) rfl fun he => ht (hid.symm.trans he)).trans
      (hsaid.trans hview)
  · exact hsaid.trans hview

/-! ### Moves that concern others -/

theorem notMem_namesOf_of_reply {ps : List (String × Message)} {correlation : String}
    (hps : ∀ p ∈ ps, p.1 = (Channel.reply correlation).name) :
    ∀ p ∈ ps, p.1 ∉ Channel.namesOf id := by
  intro p hp
  rw [hps p hp]
  exact name_notMem_namesOf (by simp)

/-- A move that does not concern the session leaves what it sees. -/
theorem view_of_hidden (h : Sound s id) (hs : Step s x s') (hx : x.concerns id = false) :
    s'.view id = s.view id := by
  cases x with
  | create request fresh now opened =>
    cases hs.answered h with
    | quiet ps hps => exact view_publishAll_of_notMem h (notMem_namesOf_of_reply hps)
    | @opens create reject refuseFrom hc hd ps hps =>
      have hid : fresh ≠ id := by simpa [Move.concerns, Move.opens] using hx
      have hopened : Sound (s.opened request fresh now create
          (memorySink fresh create.size reject refuseFrom)) id :=
        h.opened (isMemory_memorySink ..) fun he => absurd he hid
      have hview := view_publishAll_of_notMem hopened (notMem_namesOf_of_reply hps)
      exact hview.trans (view_opened_of_ne h hid)
  | turn id' cue now =>
    obtain ⟨before, t, after, e, b, hr, rfl, he, rfl⟩ := hs.had_turn
    have ht : t.id ≠ id := by simpa [Move.concerns] using hx
    exact (view_turn_of_ne (h.takes he) hr ht _ rfl).trans (view_taken_of_ne h hr ht he)
  | publish c m =>
    cases hs
    have hc : c ∉ Channel.namesOf id := by simpa [Move.concerns] using hx
    exact @view_publishAll_of_notMem s id [(c, m)] h (by simpa using hc)
  | subscribe g c =>
    have hc : c ≠ (Channel.request id).name := by simpa [Move.concerns] using hx
    cases hs
    exact view_listen_of_ne h g hc
  | receive g c =>
    have hc : c ≠ (Channel.request id).name := by simpa [Move.concerns] using hx
    cases hs with
    | receive hg => exact view_receive_of_alien h (.inr ⟨g, c, hc, hg⟩)
  | drop g c =>
    have hc : c ≠ (Channel.request id).name := by simpa [Move.concerns] using hx
    cases hs with
    | drop hg => exact view_ignore_of_ne h hg hc
  | reap key =>
    cases hs
    rfl
  | stop =>
    cases hs
    rfl

/-! ### Moves that concern the session -/

/-- The bus refuses requests of the session exactly if all who listen for them are behind. -/
theorem takes_request_eq_false (h : Sound s id) : s.bus.takes (.request id) = false ↔
    (∃ g, s.hears id (.guest g) ≠ none) ∧
      ∀ g q, s.hears id (.guest g) = some q → q.length = Bus.capacity := by
  have hears_eq : ∀ g n, s.ear? id (.guest g) = some n →
      s.hears id (.guest g) = s.bus.unread? n := by
    intro g n hg
    unfold hears
    rw [hg, Option.bind_some]
  show s.bus.accepts (Channel.request id).name = false ↔ _
  rw [Bus.accepts_eq_false]
  constructor
  · rintro ⟨hsome, hfull⟩
    constructor
    · obtain ⟨n, hn⟩ := List.exists_mem_of_ne_nil _ hsome
      obtain ⟨g, hg⟩ := h.readers n hn
      refine ⟨g, fun hnone => ?_⟩
      rw [hears_eq g n hg] at hnone
      have hlive := (Bus.mem_subscribers.1 hn).2
      rw [hnone] at hlive
      cases hlive
    · intro g q hq
      obtain ⟨n, hg, hn⟩ := Option.bind_eq_some_iff.1 hq
      obtain ⟨q', hq', hlen⟩ := (Bus.isFull_iff h.tidy).1 (hfull n (h.mem_subscribers hg))
      obtain rfl : q = q' := Option.some.inj (hn.symm.trans hq')
      exact hlen
  · rintro ⟨⟨g, hg⟩, hfull⟩
    constructor
    · obtain ⟨q, hq⟩ := Option.ne_none_iff_exists'.1 hg
      obtain ⟨n, hn, -⟩ := Option.bind_eq_some_iff.1 hq
      exact List.ne_nil_of_mem (h.mem_subscribers hn)
    · intro n hn
      obtain ⟨g', hg'⟩ := h.readers n hn
      obtain ⟨q, hq⟩ := Option.isSome_iff_exists.1 (Bus.mem_subscribers.1 hn).2
      exact (Bus.isFull_iff h.tidy).2 ⟨q, hq, hfull g' q ((hears_eq g' n hg').trans hq)⟩

theorem takes_request_congr (hs : Sound s id) (hu : Sound u id) (hv : u.view id = s.view id) :
    u.bus.takes (.request id) = s.bus.takes (.request id) := by
  have hhears : u.hears id = s.hears id := congrArg View.hears hv
  have hiff : u.bus.takes (.request id) = false ↔ s.bus.takes (.request id) = false := by
    rw [takes_request_eq_false hs, takes_request_eq_false hu, hhears]
  cases hb : s.bus.takes (.request id) with
  | false => exact hiff.2 hb
  | true =>
    cases hb' : u.bus.takes (.request id) with
    | false => exact absurd (hiff.1 hb') (by rw [hb]; simp)
    | true => rfl

/-- A sink in memory needs to know no more of the storage than what is kept there of one session,
and leaves no less. -/
theorem blind_kept (session id : String) : Sink.Blind (Sink.IsMemory session)
    fun x y => Coordinator.kept id y = Coordinator.kept id x := by
  refine Sink.blind_memory session ?_ ?_
  · intro x y bytes h
    obtain ⟨hcompleted, hfailures⟩ := Prod.mk.inj h
    unfold Coordinator.kept Storage.complete
    rw [Table.get?_set, Table.get?_set, hcompleted, hfailures]
  · intro x y reason h
    obtain ⟨hcompleted, hfailures⟩ := Prod.mk.inj h
    unfold Coordinator.kept Storage.recordFailure
    rw [Table.get?_set, Table.get?_set, hcompleted, hfailures]

/-- A turn of the coordinator, in two places. -/
theorem view_of_turns (hs : Sound s id) (hu : Sound u id) (hv : u.view id = s.view id) {cue : Cue}
    {now : ℕ} (hsx : Step s (.turn id cue now) s') (hux : Step u (.turn id cue now) u') :
    u'.view id = s'.view id := by
  obtain ⟨before, t, after, e, b, hr, ht, he, rfl⟩ := hsx.had_turn
  obtain ⟨before', t', after', e', b', hr', ht', he', rfl⟩ := hux.had_turn
  obtain ⟨hevent, htaken⟩ := view_taken hs hr ht he
  obtain ⟨hevent', htaken'⟩ := view_taken hu hr' ht' he'
  have hcoordinator : t'.coordinator = t.coordinator := by
    have hc : u.coordinator? id = s.coordinator? id := congrArg View.coordinator hv
    rw [hs.coordinator?_eq hr ht, hu.coordinator?_eq hr' ht'] at hc
    exact Option.some.inj hc
  obtain rfl : e' = e := by
    rw [hv, hevent] at hevent'
    exact (Option.some.inj hevent').symm
  have hview : view { u with bus := b' } id = view { s with bus := b } id := by
    rw [htaken, htaken', hv]
  -- The two turns are alike, so what they do to the two views is the same.
  have hk := hs.sinks t (by rw [hr]; simp)
  have hagree : Coordinator.Agree (fun x y => Coordinator.kept id y = Coordinator.kept id x) t.id
      ⟨e', b.takes, now, s.storage⟩ ⟨e', b'.takes, now, u.storage⟩ := by
    refine ⟨rfl, rfl, ?_, congrArg View.kept hv⟩
    rw [ht]
    exact takes_request_congr (hs.takes he) (hu.takes he') hview
  have halike := Coordinator.take_alike (blind_kept t.id id) hk hagree
  rw [view_turn (hs.takes he) hr ht, view_turn (hu.takes he') hr' ht', hview, hcoordinator]
  unfold View.turned View.moved
  have htold : Action.told (t.coordinator.take ⟨e', b'.takes, now, u.storage⟩).actions =
      Action.told (t.coordinator.take ⟨e', b.takes, now, s.storage⟩).actions := by
    unfold Action.told
    rw [← Action.published_outward, halike.outward_eq, Action.published_outward]
  rw [htold, halike.coordinator_eq, halike.storage]

/-- A move that concerns the session does the same to it wherever the session sees the same. -/
theorem view_of_visible (hs : Sound s id) (hu : Sound u id) (hv : u.view id = s.view id)
    (hsx : Step s x s') (hux : Step u x u') (hx : x.concerns id = true)
    (hnew : x.opens id = true → s.tasks id = 0 ∧ u.tasks id = 0) : u'.view id = s'.view id := by
  cases x with
  | create request fresh now opened =>
    obtain ⟨rfl, rfl⟩ : opened = true ∧ fresh = id := by
      simpa [Move.concerns, Move.opens] using hx
    obtain ⟨hnews, hnewu⟩ := hnew (by simp [Move.opens])
    cases hsx.answered hs with
    | @opens create reject refuseFrom hc hd ps hps =>
      cases hux.answered hu with
      | @opens create' reject' refuseFrom' hc' hd' ps' hps' =>
        obtain rfl := Except.ok.inj (hc'.symm.trans hc)
        have hdestination : u.server.destination = s.server.destination :=
          congrArg View.destination hv
        obtain ⟨rfl, rfl⟩ := Destination.memory.inj (hd'.symm.trans (hdestination.trans hd))
        have hk := isMemory_memorySink fresh create'.size reject' refuseFrom'
        rw [view_publishAll_of_notMem (hs.opened hk fun _ => hnews) (notMem_namesOf_of_reply hps),
          view_publishAll_of_notMem (hu.opened hk fun _ => hnewu) (notMem_namesOf_of_reply hps'),
          view_opened hs hnews, view_opened hu hnewu, hv]
  | turn id' cue now =>
    obtain rfl : id' = id := by simpa [Move.concerns] using hx
    exact view_of_turns hs hu hv hsx hux
  | publish c m =>
    cases hsx
    cases hux
    have hviews := view_publishAll hs [(c, m)]
    have hviewu := view_publishAll hu [(c, m)]
    rw [hv] at hviewu
    exact hviewu.trans hviews.symm
  | subscribe g c =>
    obtain rfl : c = (Channel.request id).name := by simpa [Move.concerns] using hx
    cases hsx
    cases hux
    rw [view_listen hs, view_listen hu, hv]
  | receive g c =>
    obtain rfl : c = (Channel.request id).name := by simpa [Move.concerns] using hx
    cases hsx with
    | receive hg =>
      cases hux with
      | receive hg' =>
        rw [view_receive hs (e := .guest g) hg, view_receive hu (e := .guest g) hg', hv]
  | drop g c =>
    obtain rfl : c = (Channel.request id).name := by simpa [Move.concerns] using hx
    cases hsx with
    | drop hg =>
      cases hux with
      | drop hg' => rw [view_ignore hs hg, view_ignore hu hg', hv]
  | reap key => cases hx
  | stop => cases hx

/-! ### Runs -/

variable {s₀ : Site} {xs ys zs : List Move} {policy : Policy} {reject : Bool}
  {refuseFrom : Option UInt64}

theorem countP_concerns (id : String) (xs : List Move) :
    (xs.filter (Move.concerns id)).countP (Move.opens id) = xs.countP (Move.opens id) := by
  rw [List.countP_filter]
  refine List.countP_congr fun x _ => ?_
  cases x with
  | create request fresh now opened => simp [Move.concerns]
  | _ => simp [Move.opens]

/-- The last move that concerns the session, and what the session sees after it. -/
theorem last_concern (h : Run (start policy reject refuseFrom) xs s)
    (honce : xs.countP (Move.opens id) ≤ 1) :
    (xs.filter (Move.concerns id) = [] ∧ s.view id = (start policy reject refuseFrom).view id) ∨
      ∃ ys x v v', Run (start policy reject refuseFrom) ys v ∧ x.concerns id = true ∧
        xs.filter (Move.concerns id) = ys.filter (Move.concerns id) ++ [x] ∧ Step v x v' ∧
        s.view id = v'.view id := by
  induction h with
  | start => exact .inl ⟨rfl, rfl⟩
  | @step xs s s' h x hs ih =>
    rw [List.countP_append] at honce
    have honce' : xs.countP (Move.opens id) ≤ 1 := by omega
    rw [List.filter_append]
    cases hx : x.concerns id with
    | true =>
      refine .inr ⟨xs, x, s, s', h, hx, ?_, hs, rfl⟩
      rw [List.filter_cons_of_pos hx, List.filter_nil]
    | false =>
      have hview := view_of_hidden (sound_of_run h honce').1 hs hx
      rw [List.filter_cons_of_neg (by simp [hx]), List.filter_nil, List.append_nil, hview]
      exact ih honce'

theorem countP_opens_congr
    (h : xs.filter (Move.concerns id) = ys.filter (Move.concerns id)) :
    xs.countP (Move.opens id) = ys.countP (Move.opens id) := by
  rw [← countP_concerns, h, countP_concerns]

/-- Runs with the same moves that concern the session lead to the same view of it. -/
theorem view_of_runs (hxs : Run (start policy reject refuseFrom) xs s)
    (hys : Run (start policy reject refuseFrom) ys u)
    (hsame : xs.filter (Move.concerns id) = ys.filter (Move.concerns id))
    (honce : xs.countP (Move.opens id) ≤ 1) : u.view id = s.view id := by
  -- On the moves that concern the session, from the last one back.
  generalize hzs : xs.filter (Move.concerns id) = zs at hsame
  induction zs using List.reverseRecOn generalizing xs ys s u with
  | nil =>
    have honce' : ys.countP (Move.opens id) ≤ 1 := countP_opens_congr (hzs.trans hsame) ▸ honce
    rcases last_concern hxs honce with ⟨-, hs⟩ | ⟨_, _, _, _, _, _, hlast, -⟩
    · rcases last_concern hys honce' with ⟨-, hu⟩ | ⟨_, _, _, _, _, _, hlast, -⟩
      · rw [hs, hu]
      · simp [← hsame] at hlast
    · simp [hzs] at hlast
  | append_singleton zs x ih =>
    have honce' : ys.countP (Move.opens id) ≤ 1 := countP_opens_congr (hzs.trans hsame) ▸ honce
    rcases last_concern hxs honce with ⟨hnil, -⟩ | ⟨xs', x', v, v', hv, hx, hlast, hstep, hview⟩
    · simp [hzs] at hnil
    rcases last_concern hys honce' with ⟨hnil, -⟩ | ⟨ys', y', w, w', hw, hy, hlast', hstep', hview'⟩
    · simp [← hsame] at hnil
    obtain ⟨hxs', hxx⟩ := List.append_inj' (hlast.symm.trans hzs) rfl
    obtain ⟨hys', hyx⟩ := List.append_inj' (hlast'.symm.trans hsame.symm) rfl
    obtain rfl := List.singleton_inj.1 hxx
    obtain rfl := List.singleton_inj.1 hyx
    -- Before the last of these moves none or all of the openings have happened.
    have hopens : xs.countP (Move.opens id) =
        xs'.countP (Move.opens id) + [y'].countP (Move.opens id) := by
      rw [← countP_concerns, hlast, List.countP_append, countP_concerns]
    have hopens' := countP_opens_congr (hxs'.trans hys'.symm)
    obtain ⟨hsound, htasks⟩ : Sound v id ∧ v.tasks id ≤ _ := sound_of_run hv (by omega)
    obtain ⟨hsound', htasks'⟩ : Sound w id ∧ w.tasks id ≤ _ := sound_of_run hw (by omega)
    rw [hview, hview']
    refine view_of_visible hsound hsound' (ih hv hw (by omega) hxs' hys'.symm) hstep hstep' hy ?_
    intro hnew
    rw [List.countP_singleton, if_pos hnew] at hopens
    omega

/-! ### Whether a session is opened -/

/-- A request that nobody has made before is judged by itself. -/
theorem opened_congr {server server' : Server}
    (hd : ∃ reject refuseFrom, server.destination = .memory reject refuseFrom)
    (hd' : ∃ reject refuseFrom, server'.destination = .memory reject refuseFrom)
    {request : Message} (hn : server.acceptedSession? request.id = none)
    (hn' : server'.acceptedSession? request.id = none) (accepts accepts' : Channel → Bool)
    (storage storage' : Storage) (fresh : String) (now : ℕ) :
    (server.handleCreate accepts now storage fresh request).opened.isSome =
      (server'.handleCreate accepts' now storage' fresh request).opened.isSome := by
  obtain ⟨reject, refuseFrom, hd⟩ := hd
  obtain ⟨reject', refuseFrom', hd'⟩ := hd'
  unfold Server.handleCreate Server.openSession
  rw [hn, hn', hd, hd']
  dsimp only [Destination.openSink]
  cases request.payloadAs CreateSession .createSession with
  | error e => rfl
  | ok create =>
    dsimp only
    cases Name.validate create.name with
    | error e => rfl
    | ok _ => rfl

theorem accepted_step {correlation : String} (hs : Step s x s') (hx : x.asks correlation = false)
    (h : s.server.accepted.get? correlation = none) :
    s'.server.accepted.get? correlation = none := by
  cases hs with
  | create hs request fresh now =>
    have hne : request.id ≠ correlation := by simpa [Move.asks] using hx
    have hcases := s.server.handleCreate_cases s.bus.takes now s.storage fresh request
    show (s.server.handleCreate s.bus.takes now s.storage fresh request).server.accepted.get? _ = _
    generalize s.server.handleCreate s.bus.takes now s.storage fresh request = turn at hcases ⊢
    cases hcases with
    | repeats _ => exact h
    | refuses _ _ _ _ => exact h
    | withdraws _ _ _ _ => exact h
    | opens _ _ _ _ => exact (Table.get?_set_ne _ hne _).trans h
  | turn hr he =>
    unfold turn
    dsimp only
    split_ifs
    · exact h
    · exact h
  | reap hx' =>
    show (s.server.accepted.erase _).get? correlation = none
    rw [Table.get?_erase]
    split_ifs
    · rfl
    · exact h
  | _ => exact h

/-- The server remembers no request that nobody has made. -/
theorem accepted_of_run (h : Run (start policy reject refuseFrom) xs s) {correlation : String}
    (hxs : ∀ x ∈ xs, x.asks correlation = false) :
    s.server.acceptedSession? correlation = none := by
  have hnone : s.server.accepted.get? correlation = none := by
    induction h with
    | start => rfl
    | step h hs ih =>
      refine accepted_step hs (hxs _ (by simp)) (ih fun x hx => hxs x ?_)
      exact List.mem_append_left _ hx
  exact Server.acceptedSession?_eq_none fun _ hs => nomatch hnone.symm.trans hs.1

/-! ### Isolation -/

/-- The verdict on a session, once it is in. -/
def verdict? (s : Site) (id : String) : Option Outcome :=
  (s.coordinator? id).bind fun c => c.session.outcome?

/-- The verdicts that were published for a session. -/
def verdicts (s : Site) (id : String) : List Bool :=
  (s.said id).filterMap fun p =>
    if p.1 = (Channel.done id).name then ((p.2.payloadAs Done .done).toOption).map Done.success
    else none

/-- A session is the same at two sites, and so is all that it has left behind. -/
structure SameFor (id : String) (s u : Site) : Prop where
  /-- What was published on its request channel and on its done channel. -/
  said : u.said id = s.said id
  /-- The coordinator with the session, the sink and the timer. -/
  coordinator : u.coordinator? id = s.coordinator? id
  registered : u.server.registry.lookup? id = s.server.registry.lookup? id
  completed : u.storage.completed.get? id = s.storage.completed.get? id
  failure : u.storage.failure? id = s.storage.failure? id
  verdict : u.verdict? id = s.verdict? id
  verdicts : u.verdicts id = s.verdicts id

theorem SameFor.of_view (h : u.view id = s.view id) : SameFor id s u := by
  have hsaid : u.said id = s.said id := congrArg View.said h
  have hcoordinator : u.coordinator? id = s.coordinator? id := congrArg View.coordinator h
  obtain ⟨hcompleted, hfailure⟩ := Prod.mk.inj (congrArg View.kept h)
  constructor
  · exact hsaid
  · exact hcoordinator
  · exact congrArg View.registered h
  · exact hcompleted
  · exact hfailure
  · unfold verdict?
    rw [hcoordinator]
  · unfold Site.verdicts
    rw [hsaid]

/-- Two runs have the same moves that concern a session, which is opened once at most; otherwise
they may differ in everything. Then the session is the same after both. And whether a request that
is new to both opens a session does not depend on what else has happened either. -/
theorem isolated (hxs : Run (start policy reject refuseFrom) xs s)
    (hys : Run (start policy reject refuseFrom) ys u)
    (hsame : xs.filter (Move.concerns id) = ys.filter (Move.concerns id))
    (honce : xs.countP (Move.opens id) ≤ 1) :
    SameFor id s u ∧ ∀ request : Message, (∀ x ∈ xs ++ ys, x.asks request.id = false) →
      ∀ (fresh : String) (now : ℕ),
        (u.server.handleCreate u.bus.takes now u.storage fresh request).opened.isSome =
          (s.server.handleCreate s.bus.takes now s.storage fresh request).opened.isSome := by
  refine ⟨.of_view (view_of_runs hxs hys hsame honce), fun request hnew fresh now => ?_⟩
  have hs : Sound s id := (sound_of_run hxs honce).1
  have hu : Sound u id := (sound_of_run hys (countP_opens_congr hsame ▸ honce)).1
  exact opened_congr hu.memory hs.memory
    (accepted_of_run hys fun x hx => hnew x (List.mem_append_right _ hx))
    (accepted_of_run hxs fun x hx => hnew x (List.mem_append_left _ hx)) _ _ _ _ fresh now

namespace TwoSessions

/-- A server that nobody has asked for anything. -/
def idle : Site := start {} false none

/-- The request for the first session, and one for another session. -/
def mine : Message := .carrying "a" .createSession (CreateSession.mk "one" 1)

def other : Message := .carrying "b" .createSession (CreateSession.mk "two" 1)

def starting : Message := ⟨"1", .start, none, none⟩

def cancelling : Message := .carrying "2" .cancel (Cancel.mk "")

/-- The first session is opened and started, and nothing else happens. -/
def alone : List Move :=
  [.create mine "1" 1 true, .publish (Channel.start "1").name starting, .turn "1" (.inbox .start) 3]

/-- Meanwhile the other session is opened, watched and cancelled, and its coordinator exits. -/
def among : List Move :=
  [.create other "2" 0 true, .subscribe 0 (Channel.done "2").name, .create mine "1" 1 true,
    .publish (Channel.cancel "2").name cancelling, .turn "2" (.inbox .cancel) 2,
    .publish (Channel.start "1").name starting, .turn "1" (.inbox .start) 3,
    .receive 0 (Channel.done "2").name, .turn "2" .timer 5002, .reap "b"]

/-- A coordinator that is new. -/
def task (correlation id name : String) (now n : ℕ) : SessionTask where
  correlation
  coordinator := .new {} (.new id name 1) (.memory { session := id, size := 1 }) now
  mailboxes := Bus.inboxesFrom id n

theorem run_alone : ∃ s, Run idle alone s ∧
    (s.said "1").map Prod.fst = [(Channel.request "1").name] := by
  have h₁ : Run idle ([] ++ [.create mine "1" 1 true]) _ := .step .start (.create rfl mine "1" 1)
  have h₂ : Run idle _ _ := .step h₁ (.publish (Channel.start "1").name starting)
  have h₃ : Run idle _ _ := .step h₂ (@Step.turn _ [] [] (task "a" "1" "one" 1 0) rfl
    (.inbox .start) _ _ 3 (.inbox .start ⟨_, rfl, rfl⟩))
  exact ⟨_, h₃, rfl⟩

theorem run_among : ∃ u, Run idle among u := by
  have h₁ : Run idle ([] ++ [.create other "2" 0 true]) _ := .step .start (.create rfl other "2" 0)
  have h₂ : Run idle _ _ := .step h₁ (@Step.subscribe _ 0 (Channel.done "2").name rfl)
  have h₃ : Run idle (_ ++ [.create mine "1" 1 true]) _ := .step h₂ (.create rfl mine "1" 1)
  have h₄ : Run idle _ _ := .step h₃ (.publish (Channel.cancel "2").name cancelling)
  have h₅ : Run idle _ _ := .step h₄ (@Step.turn _ [] [task "a" "1" "one" 1 4]
    (task "b" "2" "two" 0 0) rfl (.inbox .cancel) _ _ 2 (.inbox .cancel ⟨_, rfl, rfl⟩))
  have h₆ : Run idle _ _ := .step h₅ (.publish (Channel.start "1").name starting)
  have h₇ : Run idle _ _ := .step h₆ (@Step.turn _ [_] [] (task "a" "1" "one" 1 4) rfl
    (.inbox .start) _ _ 3 (.inbox .start ⟨_, rfl, rfl⟩))
  have h₈ : Run idle _ _ := .step h₇ (@Step.receive _ 0 (Channel.done "2").name _ rfl)
  have h₉ : Run idle _ _ :=
    .step h₈ (@Step.turn _ [] [_] _ rfl .timer _ _ 5002 (.timer rfl (by decide)))
  have h₁₀ : Run idle _ _ := .step h₉ (@Step.reap _ [] [] "b" rfl)
  exact ⟨_, h₁₀⟩

/-- The first session asks for its byte, whatever happens to the other one. -/
theorem same_alone_and_among : ∃ s u, Run idle alone s ∧ Run idle among u ∧
    alone.filter (Move.concerns "1") = among.filter (Move.concerns "1") ∧
    alone.countP (Move.opens "1") ≤ 1 ∧
    (s.said "1").map Prod.fst = [(Channel.request "1").name] ∧ SameFor "1" s u := by
  obtain ⟨s, hs, hsaid⟩ := run_alone
  obtain ⟨u, hu⟩ := run_among
  have hsame : alone.filter (Move.concerns "1") = among.filter (Move.concerns "1") := rfl
  have honce : alone.countP (Move.opens "1") ≤ 1 := by decide
  exact ⟨s, u, hs, hu, hsame, honce, hsaid, (isolated hs hu hsame honce).1⟩

end TwoSessions

end Site

end PullIngest
