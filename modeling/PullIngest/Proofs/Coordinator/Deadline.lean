import Mathlib.Data.List.Induction
import Mathlib.Order.Bounds.Basic
import PullIngest.Proofs.Coordinator.Reasons

/-!
# The deadline of a session

A session that makes no progress for some time fails. Its deadline moves when it is started and when
a response moves it on, and nothing else moves it, however much comes in.

* `MovesOn`, `take_of_movesOn`, `take_of_not_movesOn`: what a turn does to the deadline;
* `Progress`, `progressTimes`: the first start and the responses that move the session on, in a run;
* `Timed`: runs in which time does not go back and a timer does not go off early;
* `Fruitless`: traffic that is no progress;
* `idle_deadline`: where the deadline is, what leaves it there, and when it is met.
-/

namespace PullIngest.Coordinator

open Action

variable {c : Coordinator} {x : Occasion} {xs : List Occasion} {m : Message} {deadline now t : ℕ}

/-! ### What moves a session on -/

/-- The event starts the session, or it is a response that moves it on. -/
def MovesOn (c : Coordinator) (e : Event) : Prop :=
  (e.isStart = true ∧ c.session.phase = .created) ∨ ∃ m, e = .response m ∧ c.Advances m

/-- What a session makes of a response that moves it on. -/
theorem Advances.answer (h : c.Advances m) {r : ChunkResponse} {data : List UInt8}
    (hm : m.payloadAs ChunkResponse .chunkResponse = .ok r) (hr : r.bytes = .ok data) :
    c.session.outstanding = some ⟨r.offset, r.size⟩ ∧ data.length = r.size.toNat ∧
      (c.session.acceptPayload r.offset r.size data.length).1 ≠ .ok .stale := by
  obtain ⟨-, r', data', delivered, complete, hm', hr', h⟩ := h
  rw [hm] at hm'
  cases hm'
  rw [hr] at hr'
  cases hr'
  rcases c.session.acceptPayload_cases r.offset r.size data.length with
    ⟨_, e⟩ | e | ⟨-, ho, hl, _, e⟩
  · rw [e] at h
    cases h
  · rw [e] at h
    cases h
  · exact ⟨ho, hl, by rw [e]; exact nofun⟩

theorem Advances.outstanding_isSome (h : c.Advances m) : c.session.outstanding.isSome = true := by
  have h' := h
  obtain ⟨-, r, data, -, -, hm, hr, -⟩ := h'
  rw [(h.answer hm hr).1]
  rfl

/-- A response that moves the session on is no fault. -/
theorem Advances.not_faulty (h : c.Advances m) : ¬ c.session.Faulty m := by
  intro hf
  have h' := h
  obtain ⟨-, r, data, -, -, hm, hr, -⟩ := h'
  exact (hf.wrong_length hm hr).2 (h.answer hm hr).2.1

/-- An event that is ignored moves nothing on. -/
theorem Ignored.not_movesOn {e : Event} (h : c.Ignored e) : ¬ c.MovesOn e := by
  rintro (⟨he, hc⟩ | ⟨m', rfl, ha⟩)
  · cases h with
    | start m hp => exact hp hc
    | stale hm hr h => cases he
  · cases h with
    | stale hm hr h => exact (ha.answer hm hr).2.2 h

/-! ### What a turn does to the deadline -/

theorem Concludes.not_pulling {before : List Action} {call : SinkCall} {success : Bool} {u : Turn}
    (h : Concludes c before call success u) : u.coordinator.stage ≠ .pulling deadline := by
  obtain ⟨expiry, hs⟩ := h.lingers
  rw [hs]
  exact nofun

theorem stage_progress {accepts : Channel → Bool} {storage : Storage} {actions : List Action}
    (hp : c.session.phase = .started ∨ c.session.phase = .requesting)
    (hs : (c.progress accepts now storage actions).coordinator.stage = .pulling deadline) :
    deadline = now + c.policy.idleTimeout.millis := by
  have h := continues_requestNext
    { c with stage := .pulling (now + c.policy.idleTimeout.millis) } accepts now storage actions hp
  unfold progress at hs
  generalize requestNext _ accepts now storage actions = u at h hs
  cases h with
  | asks hr hc =>
    cases hs
    rfl
  | unheard hr hc why => exact absurd hs (abort_concludes _ accepts now storage _ why).not_pulling
  | completes hr => exact absurd hs (finalize_concludes _ accepts now storage actions).not_pulling
  | fails why => exact absurd hs (abort_concludes _ accepts now storage actions why).not_pulling

/-- When an event moves the session on, it gets new time. -/
theorem take_of_movesOn {deadline' : ℕ} (hs : c.stage = .pulling deadline)
    (hm : c.MovesOn x.event) (hs' : (c.take x).coordinator.stage = .pulling deadline') :
    deadline' = x.now + c.policy.idleTimeout.millis := by
  have hd := drives_take hs x
  generalize c.take x = u at hd hs'
  cases hd with
  | ignores h => exact absurd hm h.not_movesOn
  | counts hx h text =>
    rcases hm with ⟨he, -⟩ | ⟨m', he, ha⟩
    · rw [hx] at he
      cases he
    · rw [hx] at he
      cases he
      exact absurd h ha.not_faulty
  | breaks h => exact absurd hs' (abort_concludes c x.accepts x.now x.storage [] _).not_pulling
  | starts hx hp =>
    exact stage_progress (c := { c with session := { c.session with phase := .started } })
      (.inl rfl) hs'
  | refuses hx ha hr hk =>
    exact absurd hs' (abort_concludes _ x.accepts x.now x.storage _ _).not_pulling
  | @takes m hx ha r data sink storage hr hk =>
    exact stage_progress (c := { c with session := c.session.advancedBy r.size, sink })
      (.inr rfl) hs'

/-- When an event does not move the session on, a violation may be counted, or the session fails. -/
theorem take_of_not_movesOn (hs : c.stage = .pulling deadline) (hm : ¬ c.MovesOn x.event) :
    (∃ violations, (c.take x).coordinator = c.recount violations) ∨
      ∃ expiry, (c.take x).coordinator.stage = .lingering false expiry := by
  have hd := drives_take hs x
  generalize c.take x = u at hd
  cases hd with
  | ignores h => exact .inl ⟨c.session.violations, rfl⟩
  | counts hx h text =>
    rw [violation_eq]
    split_ifs
    · exact .inr (abort_concludes _ x.accepts x.now x.storage _ _).lingers
    · exact .inl ⟨_, rfl⟩
  | breaks h => exact .inr (abort_concludes c x.accepts x.now x.storage [] _).lingers
  | starts hx hp => exact absurd (.inl ⟨hx, hp⟩) hm
  | refuses hx ha hr hk => exact absurd (.inr ⟨_, hx, ha⟩) hm
  | takes hx ha hr hk => exact absurd (.inr ⟨_, hx, ha⟩) hm

/-! ### Progress in a run -/

/-- Behind the run `xs`, the event is the first start, or it is a response that moves the session
on. -/
def Progress (c : Coordinator) (xs : List Occasion) (x : Occasion) : Prop :=
  (x.event.isStart = true ∧ ∀ y ∈ xs, y.event.isStart = false) ∨
    ∃ m, x.event = .response m ∧ (c.after xs).Advances m

/-- The times of progress in a run that begins at the time `now`. Its beginning is one of them. -/
def progressTimes (c : Coordinator) (now : ℕ) (xs : List Occasion) : Set ℕ :=
  { p | p = now ∨ ∃ ys x zs, xs = ys ++ x :: zs ∧ c.Progress ys x ∧ p = x.now }

/-- A run in which time does not go back and a timer does not go off before it is due. It begins at
the time `now` and has come to the time `t`. -/
inductive Timed (c : Coordinator) (now : ℕ) : List Occasion → ℕ → Prop
  | start : Timed c now [] now
  | next {xs : List Occasion} {x : Occasion} {t : ℕ} (h : Timed c now xs t) (hle : t ≤ x.now)
      (hdue : x.event = .timer → ∃ due, (c.after xs).timer? = some due ∧ due ≤ x.now) :
      Timed c now (xs ++ [x]) x.now

theorem Timed.last (h : Timed c now (xs ++ [x]) t) :
    x.event = .timer → ∃ due, (c.after xs).timer? = some due ∧ due ≤ x.now := by
  generalize hys : xs ++ [x] = ys at h
  cases h with
  | start => simp at hys
  | next h hle hdue =>
    obtain ⟨rfl, hx⟩ := List.append_inj' hys rfl
    cases hx
    exact hdue

theorem mem_progressTimes_concat {p : ℕ} :
    p ∈ c.progressTimes now (xs ++ [x]) ↔
      p ∈ c.progressTimes now xs ∨ c.Progress xs x ∧ p = x.now := by
  constructor
  · rintro (rfl | ⟨ys, y, zs, h, hy, rfl⟩)
    · exact .inl (.inl rfl)
    · rcases List.eq_nil_or_concat zs with rfl | ⟨zs, z, rfl⟩
      · obtain ⟨rfl, hyx⟩ := List.append_inj' h rfl
        cases hyx
        exact .inr ⟨hy, rfl⟩
      · rw [List.concat_eq_append, ← List.cons_append, ← List.append_assoc] at h
        obtain ⟨rfl, -⟩ := List.append_inj' h rfl
        exact .inl (.inr ⟨ys, y, zs, rfl, hy, rfl⟩)
  · rintro ((rfl | ⟨ys, y, zs, rfl, hy, rfl⟩) | ⟨hx, rfl⟩)
    · exact .inl rfl
    · exact .inr ⟨ys, y, zs ++ [x], by simp, hy, rfl⟩
    · exact .inr ⟨xs, x, [], rfl, hx, rfl⟩

/-- As long as no start has come, nobody has started the session. -/
theorem created_after (hd : Delivers c []) (hp : c.session.phase = .created)
    (h : ∀ y ∈ xs, y.event.isStart = false) (hs : (c.after xs).stage = .pulling deadline) :
    (c.after xs).session.phase = .created := by
  induction xs using List.reverseRecOn generalizing deadline with
  | nil => exact hp
  | append_singleton xs x ih =>
    rw [after_concat] at hs ⊢
    obtain ⟨deadline', hs'⟩ := pulling_of_take hs
    have hcreated := ih (fun y hy => h y (List.mem_append_left _ hy)) hs'
    have hm : ¬ (c.after xs).MovesOn x.event := by
      rintro (⟨hx, -⟩ | ⟨m, -, ha⟩)
      · rw [h x (by simp)] at hx
        cases hx
      · -- Nothing is outstanding before the start.
        have hawaiting := (hd.after xs).sound.outstanding_iff.1 ha.outstanding_isSome
        rw [hcreated] at hawaiting
        cases hawaiting
    rcases take_of_not_movesOn hs' hm with ⟨violations, e⟩ | ⟨expiry, e⟩
    · rw [e]
      exact hcreated
    · rw [e] at hs
      cases hs

theorem progress_iff (hd : Delivers c []) (hp : c.session.phase = .created)
    (hs : (c.after xs).stage = .pulling deadline) :
    c.Progress xs x ↔ (c.after xs).MovesOn x.event := by
  unfold Progress MovesOn
  refine or_congr (and_congr_right fun _ => ⟨fun h => created_after hd hp h hs, fun h y hy => ?_⟩)
    Iff.rfl
  by_contra hstart
  exact begun_after ⟨y, hy, by simpa using hstart⟩ deadline hs h

/-- Traffic that is no progress: a start that comes again, a response that answers no open request,
and a response that is counted as a violation. -/
inductive Fruitless (c : Coordinator) (xs : List Occasion) (x : Occasion) : Prop
  | start (hx : x.event.isStart = true) (h : ∃ y ∈ xs, y.event.isStart = true)
  | stale {m : Message} {r : ChunkResponse} {data : List UInt8} (hx : x.event = .response m)
      (hm : m.payloadAs ChunkResponse .chunkResponse = .ok r) (hr : r.bytes = .ok data)
      (h : ((c.after xs).session.acceptPayload r.offset r.size data.length).1 = .ok .stale)
  | counted {m : Message} (hx : x.event = .response m)
      (h : (c.after xs).Charged x)

/-- Such traffic leaves the deadline where it is, unless it is one violation too many. -/
theorem Fruitless.stage_take (hs : (c.after xs).stage = .pulling deadline) (h : c.Fruitless xs x) :
    let c' := ((c.after xs).take x).coordinator
    c'.stage = .pulling deadline ∨
      c.policy.maxViolations < c'.session.violations ∧
        ∃ expiry, c'.stage = .lingering false expiry := by
  intro c'
  cases h with
  | start hx h =>
    left
    cases he : x.event with
    | start m =>
      rw [show c' = c.after xs from ((begun_after h).unmoved he).coordinator_eq, hs]
    | _ =>
      rw [he] at hx
      cases hx
  | @stale m r data hx hm hr h =>
    have htake : (c.after xs).take x = ⟨c.after xs, x.storage, []⟩ := by
      unfold take step
      rw [hs, hx]
      dsimp only
      unfold onResponse
      rw [hm]
      dsimp only
      rw [hr]
      dsimp only
      rcases (c.after xs).session.acceptPayload_cases r.offset r.size data.length with
        ⟨_, e⟩ | e | ⟨-, -, -, _, e⟩
      · rw [e] at h
        cases h
      · rw [e]
      · rw [e] at h
        cases h
    left
    rw [show c' = c.after xs from congrArg Turn.coordinator htake, hs]
  | counted hx h =>
    obtain ⟨-, -, text, e⟩ := h.cause
    have hviolation : c' = ((c.after xs).violation x.accepts x.now x.storage text).coordinator :=
      congrArg Turn.coordinator e
    have hcount := violations_violation (c := c.after xs) x.accepts x.now x.storage text
    have hpolicy := (sameFile_after c xs).policy_eq
    rw [hviolation, hcount, violation_eq]
    split_ifs with hv
    · rw [hpolicy] at hv
      exact .inr ⟨hv, (abort_concludes _ x.accepts x.now x.storage _ _).lingers⟩
    · exact .inl hs

/-- The timeout is measured from the latest progress. -/
structure Dated (c : Coordinator) (now : ℕ) (xs : List Occasion) (t : ℕ) : Prop where
  le : ∀ p ∈ c.progressTimes now xs, p ≤ t
  deadline : ∀ deadline, (c.after xs).stage = .pulling deadline →
    ∃ p, IsGreatest (c.progressTimes now xs) p ∧ deadline = p + c.policy.idleTimeout.millis

theorem Timed.dated (h : Timed c now xs t) (hd : Delivers c []) (hp : c.session.phase = .created)
    (hs : c.stage = .pulling (now + c.policy.idleTimeout.millis)) : Dated c now xs t := by
  induction h with
  | start =>
    have hnow (p : ℕ) (h : p ∈ c.progressTimes now []) : p = now := by
      rcases h with rfl | ⟨ys, x, zs, h, -⟩
      · rfl
      · simp at h
    refine ⟨fun p h => (hnow p h).le, fun deadline hs' => ⟨now, ⟨.inl rfl, ?_⟩, ?_⟩⟩
    · exact fun p h => (hnow p h).le
    · rw [after_nil, hs] at hs'
      cases hs'
      rfl
  | @next xs x t h hle hdue ih =>
    refine ⟨fun p hp' => ?_, fun deadline hs' => ?_⟩
    · rcases mem_progressTimes_concat.1 hp' with h' | ⟨-, rfl⟩
      · exact (ih.le p h').trans hle
      · exact le_rfl
    · rw [after_concat] at hs'
      obtain ⟨before, hbefore⟩ := pulling_of_take hs'
      have hiff := progress_iff (x := x) hd hp hbefore
      by_cases hm : (c.after xs).MovesOn x.event
      · -- What comes last is the latest progress.
        have hdeadline := take_of_movesOn hbefore hm hs'
        rw [(sameFile_after c xs).policy_eq] at hdeadline
        refine ⟨x.now, ⟨mem_progressTimes_concat.2 (.inr ⟨hiff.2 hm, rfl⟩), fun p hp' => ?_⟩,
          hdeadline⟩
        rcases mem_progressTimes_concat.1 hp' with h' | ⟨-, rfl⟩
        · exact (ih.le p h').trans hle
        · exact le_rfl
      · have hsame : before = deadline := by
          rcases take_of_not_movesOn hbefore hm with ⟨violations, e⟩ | ⟨expiry, e⟩
          · rw [e] at hs'
            exact Stage.pulling.inj (hbefore.symm.trans hs')
          · rw [e] at hs'
            cases hs'
        obtain ⟨p, ⟨hmem, hgreatest⟩, hdeadline⟩ := ih.deadline before hbefore
        refine ⟨p, ⟨mem_progressTimes_concat.2 (.inl hmem), fun p' hp' => ?_⟩, hsame ▸ hdeadline⟩
        rcases mem_progressTimes_concat.1 hp' with h' | ⟨hprogress, -⟩
        · exact hgreatest h'
        · exact absurd (hiff.1 hprogress) hm

/-- Without progress the deadline stays where it is. -/
theorem deadline_of_no_progress (hd : Delivers c []) (hp : c.session.phase = .created)
    (hs : (c.after xs).stage = .pulling deadline) {zs : List Occasion}
    (hz : ∀ ws z vs, zs = ws ++ z :: vs → ¬ c.Progress (xs ++ ws) z) {deadline' : ℕ}
    (hs' : (c.after (xs ++ zs)).stage = .pulling deadline') : deadline' = deadline := by
  induction zs using List.reverseRecOn generalizing deadline' with
  | nil =>
    rw [List.append_nil, hs] at hs'
    cases hs'
    rfl
  | append_singleton zs z ih =>
    rw [← List.append_assoc, after_concat] at hs'
    obtain ⟨before, hbefore⟩ := pulling_of_take hs'
    have hm : ¬ (c.after (xs ++ zs)).MovesOn z.event :=
      (progress_iff hd hp hbefore).not.1 (hz zs z [] rfl)
    rw [← ih (fun ws y vs h => hz ws y (vs ++ [z]) (by rw [h]; simp)) hbefore]
    rcases take_of_not_movesOn hbefore hm with ⟨violations, e⟩ | ⟨expiry, e⟩
    · rw [e] at hs'
      exact Stage.pulling.inj (hs'.symm.trans hbefore)
    · rw [e] at hs'
      cases hs'

/-! ### The timeout -/

/-- A session is given up for its idle time exactly when the timer goes off before the verdict. -/
theorem idle_fail_iff :
    .sink (.fail (Abort.idle c.policy.idleTimeout).message) ∈ (c.take x).actions ↔
      x.event = .timer ∧ ∃ deadline, c.stage = .pulling deadline := by
  constructor
  · intro h
    obtain ⟨deadline, hs⟩ := pulling_of_sink h
    exact ⟨timer_of_fail hs h, deadline, hs⟩
  · rintro ⟨hx, deadline, hs⟩
    have htake : c.take x = c.abort x.accepts x.now x.storage [] (.idle c.policy.idleTimeout) := by
      unfold take step
      rw [hs, hx]
    rw [htake]
    exact fail_mem_of_abort ..

/-- **The deadline moves only on real progress.** In a run of a new session, the deadline is the
idle timeout behind the latest progress, as long as there is no verdict: behind the beginning, the
first start, or the last response that moved the session on. A start that comes again, a stale
response or one that is counted as a violation leaves the deadline where it is or, after too many
violations, ends the session. A session is given up for its idle time exactly when the timer goes
off, and that is never earlier than the timeout after any progress. No amount of other traffic puts
that moment off. -/
theorem idle_deadline (policy : Policy) (id name : String) (size : UInt64) (sink : Sink) (now : ℕ)
    {xs : List Occasion} {t : ℕ} (h : Timed (new policy (.new id name size) sink now) now xs t) :
    let c := new policy (.new id name size) sink now
    let expired := Action.sink (.fail (Abort.idle policy.idleTimeout).message)
    (∀ deadline, (c.after xs).stage = .pulling deadline →
        (c.after xs).timer? = some deadline ∧
        ∃ p, IsGreatest (c.progressTimes now xs) p ∧
          deadline = p + policy.idleTimeout.millis) ∧
      (∀ x deadline, (c.after xs).stage = .pulling deadline → c.Fruitless xs x →
        (c.after (xs ++ [x])).stage = .pulling deadline ∨
          policy.maxViolations < (c.after (xs ++ [x])).session.violations ∧
            ∃ expiry, (c.after (xs ++ [x])).stage = .lingering false expiry) ∧
      (∀ x, expired ∈ ((c.after xs).take x).actions ↔
        x.event = .timer ∧ ∃ deadline, (c.after xs).stage = .pulling deadline) ∧
      (∀ x, Timed c now (xs ++ [x]) x.now → expired ∈ ((c.after xs).take x).actions →
        ∀ p ∈ c.progressTimes now xs, p + policy.idleTimeout.millis ≤ x.now) ∧
      (∀ zs deadline deadline', (c.after xs).stage = .pulling deadline →
        (∀ ws z vs, zs = ws ++ z :: vs → ¬ c.Progress (xs ++ ws) z) →
        (c.after (xs ++ zs)).stage = .pulling deadline' → deadline' = deadline) := by
  intro c expired
  have hd : Delivers c [] := delivers_new policy id name size sink now
  have hdated : Dated c now xs t := h.dated hd rfl rfl
  have hpolicy : (c.after xs).policy = policy := (sameFile_after c xs).policy_eq
  have hexpired (x : Occasion) : expired ∈ ((c.after xs).take x).actions ↔
      x.event = .timer ∧ ∃ deadline, (c.after xs).stage = .pulling deadline := by
    have hiff : .sink (.fail (Abort.idle (c.after xs).policy.idleTimeout).message)
        ∈ ((c.after xs).take x).actions ↔ _ := idle_fail_iff
    rwa [hpolicy] at hiff
  refine ⟨fun deadline hs => ⟨?_, hdated.deadline deadline hs⟩, fun x deadline hs hx => ?_,
    hexpired, fun x hnext hx p hp => ?_, fun zs deadline deadline' hs hz hs' =>
      deadline_of_no_progress hd rfl hs hz hs'⟩
  · rw [timer?, hs]
  · rw [after_concat]
    exact hx.stage_take hs
  · obtain ⟨htimer, deadline, hs⟩ := (hexpired x).1 hx
    obtain ⟨due, hdue, hle⟩ := hnext.last htimer
    obtain ⟨latest, ⟨-, hgreatest⟩, hdeadline⟩ := hdated.deadline deadline hs
    rw [timer?, hs] at hdue
    cases hdue
    have := hgreatest hp
    have hidle : c.policy.idleTimeout = policy.idleTimeout := rfl
    rw [hidle] at hdeadline
    omega

namespace LateStart

/-- A session of one byte that nobody has started, at the time 0. -/
def fresh : Coordinator :=
  .new {} (.new "s" "f" 1) (.memory { session := "s", size := 1 }) 0

/-- A start on a bus that takes everything. -/
def start (now : ℕ) : Occasion := ⟨.start (.signal "s" .start), fun _ => true, now, {}⟩

theorem timed : Timed fresh 0 [start 5, start 10] 10 :=
  .next (.next .start (x := start 5) (Nat.zero_le 5) nofun) (x := start 10) (by decide) nofun

end LateStart

/-- The start at the time 5 is the latest progress, and the one at the time 10 is none. -/
theorem lateStart_deadline :
    Timed LateStart.fresh 0 [LateStart.start 5, LateStart.start 10] 10 ∧
      (LateStart.fresh.after [LateStart.start 5, LateStart.start 10]).stage = .pulling 30005 ∧
      IsGreatest (LateStart.fresh.progressTimes 0 [LateStart.start 5, LateStart.start 10]) 5 := by
  have hstage : (LateStart.fresh.after [LateStart.start 5, LateStart.start 10]).stage
    = .pulling 30005 := rfl
  obtain ⟨-, p, hp, hdeadline⟩ := (idle_deadline {} "s" "f" 1 _ 0 LateStart.timed).1 30005 hstage
  have hfive : p = 5 := by
    have : 30005 = p + 30000 := hdeadline
    omega
  rw [hfive] at hp
  exact ⟨LateStart.timed, hstage, hp⟩

end PullIngest.Coordinator
