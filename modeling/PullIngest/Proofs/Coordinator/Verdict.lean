import PullIngest.Proofs.Coordinator.Delivery

/-!
# One verdict for each session

However a session ends, it ends once: the sink is called for the last time, the verdict is told
right after that, and from then on the same verdict is repeated to whoever starts the session
again.

* `Undecided`: no verdict yet. `settles_take` is what a turn does then;
* `repeated_deeds`: everything that is done after the verdict, in any run;
* `Decides`: a run that is split at the turn with the verdict, and what each part does;
* `one_verdict`: every run of a new session is undecided or splits like that.
-/

namespace PullIngest

/-- Whether an action hands bytes to the sink or asks for bytes. -/
def Action.isPull : Action → Bool
  | .sink (.accept _ _) => true
  | .publish (.request _) _ => true
  | _ => false

namespace Coordinator

open Action

/-- No verdict has been given. -/
def Undecided (c : Coordinator) : Prop :=
  (∃ deadline, c.stage = .pulling deadline) ∧ c.session.outcome? = none

/-- The starts that are heard until the time of repetition ends. -/
def startsHeard (zs : List Occasion) : ℕ :=
  (zs.takeWhile fun z => !z.event.endsGrace).countP fun z => z.event.isStart

/-- How a verdict is asked for: the sink gives it on a complete file, or it is told to give up. -/
def Gives (call : SinkCall) (success : Bool) : Prop :=
  call = .finalize success ∨ success = false ∧ ∃ reason, call = .fail reason

/-- The turns `ys` give no verdict, the turn on `x` gives one, and the turns `zs` repeat it. -/
structure Decides (c : Coordinator) (ys : List Occasion) (x : Occasion) (zs : List Occasion)
    (call : SinkCall) (success : Bool) : Prop where
  undecided : ∀ ws, ws <+: ys → Undecided (c.after ws)
  pulled : ∀ a ∈ outward (c.deeds ys), a.isPull
  gives : Gives call success
  verdict : ∃ before, (∀ a ∈ before, Action.isPull a) ∧
    outward ((c.after ys).take x).actions
      = before ++ [.sink call, tellsVerdict c.session.id success]
  repeated : outward ((c.after (ys ++ [x])).deeds zs)
    = List.replicate (startsHeard zs) (tellsVerdict c.session.id success)
  outcome : ∀ ws, ws <+: zs →
    (c.after (ys ++ x :: ws)).session.outcome? = some (.ofBool success)

variable {c c' : Coordinator} {before actions : List Action} {x : Occasion} {t : Turn}

/-! ### Before the verdict -/

/-- How far a turn that began in `c` has come without a verdict. -/
structure Midway (c c' : Coordinator) (actions : List Action) : Prop where
  outcome_eq : c'.session.outcome? = none
  id_eq : c'.session.id = c.session.id
  pulled : ∀ a ∈ outward actions, a.isPull

/-- A turn of a session that has no verdict. -/
inductive Settles (c : Coordinator) : Turn → Prop
  | goesOn {t : Turn} (hu : Undecided t.coordinator) (hp : ∀ a ∈ outward t.actions, a.isPull) :
      Settles c t
  | concludes {c' : Coordinator} {before : List Action} {call : SinkCall} {success : Bool}
      {t : Turn} (hm : Midway c c' before) (ht : Concludes c' before call success t)
      (hg : Gives call success) : Settles c t

theorem Midway.abort (h : Midway c c' actions) (accepts : Channel → Bool) (now : ℕ)
    (storage : Storage) (why : Abort) : Settles c (c'.abort accepts now storage actions why) :=
  .concludes h (abort_concludes c' accepts now storage actions why) (.inr ⟨rfl, _, rfl⟩)

/-- Asking for the next range is a pull, and what else can come of it is a verdict. -/
theorem Midway.continues {accepts : Channel → Bool} {now : ℕ} {storage : Storage}
    (h : Midway c c' actions) (hs : ∃ deadline, c'.stage = .pulling deadline)
    (ht : Continues c' accepts now storage actions t) : Settles c t := by
  have hasks (r : ByteRange) :
      Midway c { c' with session := c'.session.awaiting r }
        (actions ++ [asksFor c'.session.id r]) := by
    refine ⟨rfl, h.id_eq, fun a ha => ?_⟩
    rw [outward_append] at ha
    rcases List.mem_append.1 ha with ha | ha
    · exact h.pulled a ha
    · obtain rfl : a = asksFor c'.session.id r := by simpa [asksFor] using ha
      rfl
  cases ht with
  | asks hr hc => exact .goesOn ⟨hs, rfl⟩ (hasks _).pulled
  | unheard hr hc why => exact (hasks _).abort accepts now storage why
  | completes hr => exact .concludes h (finalize_concludes c' accepts now storage actions) (.inl rfl)
  | fails why => exact h.abort accepts now storage why

theorem Midway.progress (h : Midway c c' actions)
    (hp : c'.session.phase = .started ∨ c'.session.phase = .requesting)
    (accepts : Channel → Bool) (now : ℕ) (storage : Storage) :
    Settles c (c'.progress accepts now storage actions) := by
  have hmoved : Midway c { c' with stage := .pulling (now + c'.policy.idleTimeout.millis) }
      actions := ⟨h.outcome_eq, h.id_eq, h.pulled⟩
  exact hmoved.continues ⟨_, rfl⟩ (continues_requestNext _ accepts now storage actions hp)

theorem settles_take (h : Undecided c) (x : Occasion) : Settles c (c.take x) := by
  obtain ⟨⟨deadline, hs⟩, hu⟩ := h
  have hpulls := pulls_take hs x
  generalize c.take x = t at hpulls ⊢
  cases hpulls with
  | waits violations lines => exact .goesOn ⟨⟨deadline, hs⟩, hu⟩ (by simp)
  | fails violations why lines =>
    have hm : Midway c { c with session := { c.session with violations } } (logs lines) :=
      ⟨hu, rfl, by simp⟩
    exact hm.abort x.accepts x.now x.storage why
  | starts hp =>
    have hm : Midway c { c with session := { c.session with phase := .started } } [] :=
      ⟨rfl, rfl, by simp⟩
    exact hm.progress (.inl rfl) x.accepts x.now x.storage
  | @refuses r data ha why =>
    have hm : Midway c { c with session := c.session.advancedBy r.size }
        [.sink (.accept r.offset data)] := ⟨rfl, rfl, by simp [isPull]⟩
    exact hm.abort x.accepts x.now x.storage why
  | @takes r data sink storage ha hs =>
    have hm : Midway c { c with session := c.session.advancedBy r.size, sink }
        [.sink (.accept r.offset data)] := ⟨rfl, rfl, by simp [isPull]⟩
    exact hm.progress (.inr rfl) x.accepts x.now storage

/-! ### After the verdict -/

theorem exited_run (h : c.stage = .exited) (zs : List Occasion) :
    c.deeds zs = [] ∧ c.after zs = c := by
  induction zs with
  | nil => exact ⟨rfl, rfl⟩
  | cons z zs ih => simpa [take_exited h] using ih

theorem startsHeard_cons_of_ends {z : Occasion} (h : z.event.endsGrace = true)
    (zs : List Occasion) : startsHeard (z :: zs) = 0 := by
  simp [startsHeard, h]

theorem startsHeard_cons {z : Occasion} (h : z.event.endsGrace = false) (zs : List Occasion) :
    startsHeard (z :: zs) = (if z.event.isStart then 1 else 0) + startsHeard zs := by
  simp [startsHeard, h, List.countP_cons, Nat.add_comm]

/-- After the verdict nothing is done but repeating it, once for each start that is heard. -/
theorem repeated_deeds {success : Bool} {expiry : ℕ} (h : c.stage = .lingering success expiry)
    (zs : List Occasion) :
    outward (c.deeds zs) = List.replicate (startsHeard zs) (tellsVerdict c.session.id success) ∧
      (c.after zs).session = c.session := by
  induction zs generalizing c with
  | nil => exact ⟨rfl, rfl⟩
  | cons z zs ih =>
    have hl := lingers_take h z
    have hstage := hl.stage_eq
    rw [deeds_cons, outward_append, hl.outward_eq, after_cons]
    cases hz : z.event.endsGrace with
    | true =>
      -- Nothing is heard any more, whatever comes.
      rw [hz, if_pos rfl] at hstage
      obtain ⟨hdeeds, hafter⟩ := exited_run hstage zs
      have hstart : z.event.isStart = false := by
        cases he : z.event <;> simp_all [Event.endsGrace, Event.isStart]
      rw [hdeeds, hafter, startsHeard_cons_of_ends hz, hstart]
      exact ⟨rfl, hl.session_eq⟩
    | false =>
      rw [hz, if_neg (by simp), h] at hstage
      obtain ⟨hdeeds, hafter⟩ := ih hstage
      rw [hdeeds, hafter, startsHeard_cons hz, List.replicate_add, hl.session_eq]
      refine ⟨?_, rfl⟩
      split_ifs <;> rfl

/-! ### Whole runs -/

theorem Decides.of_concludes {zs : List Occasion} {call : SinkCall} {success : Bool}
    (hc : Undecided c) (hm : Midway c c' before)
    (ht : Concludes c' before call success (c.take x)) (hg : Gives call success) :
    Decides c [] x zs call success := by
  obtain ⟨expiry, hstage⟩ := ht.lingers
  have hdone := Session.outcome?_eq_none_iff.1 hm.outcome_eq
  have hid := (sameFile_take c x).id_eq
  exact
    { undecided := by
        intro ws hws
        rw [List.prefix_nil.1 hws]
        exact hc
      pulled := by simp
      gives := hg
      verdict := ⟨outward before, hm.pulled, by rw [after_nil, ht.outward_eq, hm.id_eq]⟩
      repeated := by
        rw [List.nil_append, after_cons, after_nil, (repeated_deeds hstage zs).1, hid]
      outcome := by
        intro ws _
        rw [List.nil_append, after_cons, (repeated_deeds hstage ws).2, ht.session_eq]
        exact Session.finish_outcome? hdone success }

/-- A turn without a verdict can be put in front. -/
theorem Decides.cons {y : Occasion} {ys zs : List Occasion} {call : SinkCall} {success : Bool}
    (hc : Undecided c) (hp : ∀ a ∈ outward (c.take y).actions, a.isPull)
    (h : Decides (c.take y).coordinator ys x zs call success) :
    Decides c (y :: ys) x zs call success := by
  have hid := (sameFile_take c y).id_eq
  exact
    { undecided := by
        intro ws hws
        rcases List.prefix_cons_iff.1 hws with rfl | ⟨ws', rfl, hws'⟩
        · exact hc
        · exact h.undecided ws' hws'
      pulled := by
        intro a ha
        rw [deeds_cons, outward_append] at ha
        rcases List.mem_append.1 ha with ha | ha
        · exact hp a ha
        · exact h.pulled a ha
      gives := h.gives
      verdict := hid ▸ h.verdict
      repeated := hid ▸ h.repeated
      outcome := h.outcome }

/-- Every run from an undecided coordinator stays undecided or gives one verdict. -/
theorem undecided_or_decides (hc : Undecided c) (xs : List Occasion) :
    (Undecided (c.after xs) ∧ ∀ a ∈ outward (c.deeds xs), a.isPull) ∨
      ∃ ys x zs call success, xs = ys ++ x :: zs ∧ Decides c ys x zs call success := by
  induction xs generalizing c with
  | nil => exact .inl ⟨hc, by simp⟩
  | cons y ys ih =>
    have hsettles := settles_take hc y
    cases hsettles with
    | goesOn hu hp =>
      rcases ih hu with ⟨hu', hp'⟩ | ⟨ys', x, zs, call, success, rfl, hd⟩
      · left
        refine ⟨hu', fun a ha => ?_⟩
        rw [deeds_cons, outward_append] at ha
        rcases List.mem_append.1 ha with ha | ha
        · exact hp a ha
        · exact hp' a ha
      · exact .inr ⟨y :: ys', x, zs, call, success, rfl, hd.cons hc hp⟩
    | concludes hm ht hg =>
      -- The rest of the run comes after the verdict.
      exact .inr ⟨[], y, ys, _, _, rfl, .of_concludes hc hm ht hg⟩

/-- **A session gets one verdict, on every path.** Behind any run of a new session, either there is
no verdict and nothing was done but pulling, or the run splits at the turn that gave the verdict
(`Decides`). A good verdict is one that the sink gave on all the bytes that were declared. -/
theorem one_verdict (policy : Policy) (id name : String) (size : UInt64) (sink : Sink) (now : ℕ)
    (xs : List Occasion) :
    let c := new policy (.new id name size) sink now
    (Undecided (c.after xs) ∧ ∀ a ∈ outward (c.deeds xs), a.isPull) ∨
      ∃ ys x zs call success, xs = ys ++ x :: zs ∧ Decides c ys x zs call success ∧
        (success = true → call = .finalize true ∧ (c.after xs).session.delivered = size) := by
  intro c
  have hc : Undecided c := ⟨⟨_, rfl⟩, rfl⟩
  rcases undecided_or_decides hc xs with h | ⟨ys, x, zs, call, success, rfl, hd⟩
  · exact .inl h
  · refine .inr ⟨ys, x, zs, call, success, rfl, hd, ?_⟩
    rintro rfl
    -- A sink that is told to give up gives a bad verdict.
    obtain rfl : call = .finalize true := by
      rcases hd.gives with h | ⟨h, -⟩
      · exact h
      · cases h
    refine ⟨rfl, ?_⟩
    -- The sink was asked in the run, and `Delivers` says that all bytes were there by then.
    obtain ⟨before, -, hverdict⟩ := hd.verdict
    have hmem : .sink (.finalize true) ∈ c.deeds (ys ++ x :: zs) := by
      rw [deeds_append, deeds_cons]
      refine List.mem_append_right _ (List.mem_append_left _ ?_)
      rw [← mem_outward rfl, hverdict]
      simp
    have hfull := (delivers_after policy id name size sink now (ys ++ x :: zs)).finalized true hmem
    rw [(sameFile_after c (ys ++ x :: zs)).declaredSize_eq] at hfull
    exact hfull

end Coordinator

end PullIngest
