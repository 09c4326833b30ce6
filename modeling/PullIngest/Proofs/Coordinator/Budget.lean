import PullIngest.Proofs.Coordinator.Recount

/-!
# The budget of violations

Some violations are forgiven. Until they are used up, a faulty message changes nothing but their
count, and a session ends as it would without such messages. One more ends it.

* `Budgeted`: what the turns that count a violation do, and which turns these are;
* `Metered`: the invariant, the count is within the budget (`Metered.budgeted`, `Metered.take`);
* `blameless`: a run without the messages that were counted;
* `violations_budgeted`: every turn of every run, and the runs in which all violations are forgiven.
-/

namespace PullIngest.Coordinator

open Action

variable {c : Coordinator} {x : Occasion} {xs : List Occasion} {m : Message} {done : List Action}

/-- What a turn has to do with violations. -/
structure Budgeted (c : Coordinator) (x : Occasion) : Prop where
  /-- What is counted are the faulty messages that come before the verdict. -/
  charged_iff : c.Charged x ↔
    (∃ deadline, c.stage = .pulling deadline) ∧ ∃ m, x.event = .response m ∧ c.session.Faulty m
  count_eq : c.Charged x →
    (c.take x).coordinator.session.violations.toNat = c.session.violations.toNat + 1
  /-- Only the count changes, and nothing is done but writing a line to the log. -/
  forgiven : c.Charged x →
    (c.take x).coordinator.session.violations ≤ c.policy.maxViolations →
    ∃ line, c.take x
      = ⟨c.recount (c.take x).coordinator.session.violations, x.storage, [.log line]⟩
  overdrawn : c.Charged x →
    c.policy.maxViolations < (c.take x).coordinator.session.violations →
    ∃ line, c.take x
      = (c.recount (c.take x).coordinator.session.violations).abort x.accepts x.now x.storage
          [.log line] (.violations (c.take x).coordinator.session.violations)
  /-- Behind the verdict nothing is done with a response, faulty or not. -/
  dropped : (∀ deadline, c.stage ≠ .pulling deadline) → (∃ m, x.event = .response m) →
    c.take x = ⟨c, x.storage, []⟩
  /-- A session is given up for its violations at the one that is not forgiven. -/
  aborts_iff :
    (∃ count, .sink (.fail (Abort.violations count).message) ∈ (c.take x).actions) ↔
      c.Charged x ∧ (c.take x).coordinator.session.violations.toNat
        = c.policy.maxViolations.toNat + 1

/-- The count is within the budget, and the budget leaves room to count one more. -/
structure Metered (c : Coordinator) : Prop where
  max_lt : c.policy.maxViolations.toNat < UInt32.size - 1
  count_le : c.session.violations.toNat ≤ c.policy.maxViolations.toNat + 1
  pulling : ∀ deadline, c.stage = .pulling deadline →
    c.session.violations.toNat ≤ c.policy.maxViolations.toNat

/-! ### One turn -/

/-- A session that goes on can count one more. -/
theorem Metered.toNat_succ (h : Metered c) {deadline : ℕ} (hs : c.stage = .pulling deadline) :
    (c.session.violations + 1).toNat = c.session.violations.toNat + 1 := by
  have hlt : c.session.violations.toNat + 1 < UInt32.size :=
    Nat.add_lt_of_lt_sub (Nat.lt_of_le_of_lt (h.pulling deadline hs) h.max_lt)
  rw [UInt32.toNat_add]
  exact Nat.mod_eq_of_lt hlt

theorem take_of_faulty (hsound : c.session.Sound) {deadline : ℕ} (hs : c.stage = .pulling deadline)
    (hx : x.event = .response m) (hf : c.session.Faulty m) :
    ∃ text, c.take x = c.violation x.accepts x.now x.storage text := by
  obtain ⟨text, e⟩ := onResponse_of_faulty hsound hf x.accepts x.now x.storage
  refine ⟨text, ?_⟩
  unfold take step
  rw [hs, hx]
  exact e

theorem take_of_late (hs : ∀ deadline, c.stage ≠ .pulling deadline) (hx : x.event = .response m) :
    c.take x = ⟨c, x.storage, []⟩ := by
  unfold take step
  rw [hx]
  cases hstage : c.stage with
  | pulling deadline => exact absurd hstage (hs deadline)
  | lingering success expiry => rfl
  | exited => rfl

theorem Metered.charged_iff (h : Metered c) (hsound : c.session.Sound) : c.Charged x ↔
    (∃ deadline, c.stage = .pulling deadline) ∧
      ∃ m, x.event = .response m ∧ c.session.Faulty m := by
  constructor
  · intro hc
    exact ⟨hc.cause.1, hc.cause.2.1⟩
  · rintro ⟨⟨deadline, hs⟩, m, hx, hf⟩ e
    obtain ⟨text, htake⟩ := take_of_faulty hsound hs hx hf
    rw [htake, violations_violation] at e
    have hnext := h.toNat_succ hs
    rw [e] at hnext
    omega

/-- What a turn that counts a violation does. -/
theorem Metered.take_of_charged (h : Metered c) (hc : c.Charged x) :
    (c.take x).coordinator.session.violations = c.session.violations + 1 ∧
      (c.take x).coordinator.session.violations.toNat = c.session.violations.toNat + 1 ∧
      ∃ text, c.take x = c.violation x.accepts x.now x.storage text := by
  obtain ⟨⟨deadline, hs⟩, -, text, htake⟩ := hc.cause
  have hcount : (c.take x).coordinator.session.violations = c.session.violations + 1 := by
    rw [htake, violations_violation]
  exact ⟨hcount, by rw [hcount, h.toNat_succ hs], text, htake⟩

theorem Metered.budgeted (h : Metered c) (hsound : c.session.Sound) (x : Occasion) :
    Budgeted c x where
  charged_iff := h.charged_iff hsound
  count_eq hc := (h.take_of_charged hc).2.1
  forgiven hc hle := by
    obtain ⟨hcount, -, text, htake⟩ := h.take_of_charged hc
    rw [hcount] at hle ⊢
    exact ⟨_, by rw [htake, violation_eq, if_neg (UInt32.not_lt.2 hle)]⟩
  overdrawn hc hlt := by
    obtain ⟨hcount, -, text, htake⟩ := h.take_of_charged hc
    rw [hcount] at hlt ⊢
    exact ⟨_, by rw [htake, violation_eq, if_pos hlt]⟩
  dropped hs hx := by
    obtain ⟨m, hx⟩ := hx
    exact take_of_late hs hx
  aborts_iff := by
    constructor
    · rintro ⟨count, hfail⟩
      obtain ⟨deadline, hs⟩ := pulling_of_sink hfail
      obtain ⟨hf, hlt⟩ := overdrawn_of_fail hs hfail
      have hc := (h.charged_iff hsound).2 ⟨⟨deadline, hs⟩, hf⟩
      refine ⟨hc, ?_⟩
      have hle := h.pulling deadline hs
      rw [UInt32.lt_iff_toNat_lt, h.toNat_succ hs] at hlt
      rw [(h.take_of_charged hc).2.1]
      omega
    · rintro ⟨hc, hcount⟩
      obtain ⟨heq, -, text, htake⟩ := h.take_of_charged hc
      have hlt : c.policy.maxViolations < c.session.violations + 1 := by
        rw [UInt32.lt_iff_toNat_lt, ← heq, hcount]
        omega
      refine ⟨c.session.violations + 1, ?_⟩
      rw [htake, violation_eq, if_pos hlt]
      exact fail_mem_of_abort ..

/-! ### Runs -/

theorem metered_new (policy : Policy) (id name : String) (size : UInt64) (sink : Sink) (now : ℕ)
    (hmax : policy.maxViolations.toNat < UInt32.size - 1) :
    Metered (new policy (.new id name size) sink now) :=
  ⟨hmax, Nat.zero_le _, fun _ _ => Nat.zero_le _⟩

/-- A turn keeps the count within the budget. -/
theorem Metered.take (h : Metered c) (hsound : c.session.Sound) (x : Occasion) :
    Metered (c.take x).coordinator := by
  have hpolicy : (c.take x).coordinator.policy = c.policy := (sameFile_take c x).policy_eq
  have hb := h.budgeted hsound x
  by_cases hc : c.Charged x
  · have hcount := hb.count_eq hc
    obtain ⟨⟨deadline, hs⟩, -⟩ := hb.charged_iff.1 hc
    have hbefore := h.pulling deadline hs
    refine ⟨hpolicy ▸ h.max_lt, by rw [hpolicy]; omega, fun deadline' hs' => ?_⟩
    rw [hpolicy]
    by_contra hlt
    -- The session would have been given up.
    obtain ⟨line, htake⟩ := hb.overdrawn hc (UInt32.lt_iff_toNat_lt.2 (Nat.lt_of_not_le hlt))
    rw [htake] at hs'
    cases hs'
  · have hsame : (c.take x).coordinator.session.violations = c.session.violations := not_not.1 hc
    refine ⟨hpolicy ▸ h.max_lt, by rw [hpolicy, hsame]; exact h.count_le, fun deadline' hs' => ?_⟩
    obtain ⟨deadline, hs⟩ := pulling_of_take hs'
    rw [hpolicy, hsame]
    exact h.pulling deadline hs

theorem Metered.after (h : Metered c) (hd : Delivers c done) (xs : List Occasion) :
    Metered (c.after xs) := by
  induction xs generalizing c done with
  | nil => exact h
  | cons x xs ih => exact ih (h.take hd.sound x) (hd.take x)

/-- The run without the messages that were counted in it. -/
def blameless (c : Coordinator) : List Occasion → List Occasion
  | [] => []
  | x :: xs =>
    if c.Charged x then (c.take x).coordinator.blameless xs
    else x :: (c.take x).coordinator.blameless xs

theorem blameless_sublist (c : Coordinator) (xs : List Occasion) :
    (c.blameless xs).Sublist xs := by
  induction xs generalizing c with
  | nil => exact .slnil
  | cons x xs ih =>
    unfold blameless
    split_ifs
    · exact (ih _).cons x
    · exact (ih _).cons_cons x

/-- The count is the number of messages that were counted. -/
theorem Metered.length_eq (h : Metered c) (hd : Delivers c done) (xs : List Occasion) :
    xs.length + c.session.violations.toNat
      = (c.blameless xs).length + (c.after xs).session.violations.toNat := by
  induction xs generalizing c done with
  | nil => rfl
  | cons x xs ih =>
    have hrest := ih (h.take hd.sound x) (hd.take x)
    unfold blameless
    rw [after_cons]
    split_ifs with hc
    · have hcount := (h.budgeted hd.sound x).count_eq hc
      rw [List.length_cons]
      omega
    · have hsame : (c.take x).coordinator.session.violations = c.session.violations := not_not.1 hc
      rw [hsame] at hrest
      simp only [List.length_cons]
      omega

/-- Violations are not forgotten. -/
theorem Metered.violations_le_after (h : Metered c) (hd : Delivers c done) (xs : List Occasion) :
    c.session.violations.toNat ≤ (c.after xs).session.violations.toNat := by
  have hlength := h.length_eq hd xs
  have hsub := (c.blameless_sublist xs).length_le
  omega

/-- As long as all violations are forgiven, a run goes as it would without the messages that were
counted, whatever was counted before. -/
theorem Metered.after_blameless (h : Metered c) (hd : Delivers c done)
    (hle : (c.after xs).session.violations ≤ c.policy.maxViolations) (v : UInt32) :
    (c.recount v).after (c.blameless xs) = (c.after xs).recount v ∧
      outward ((c.recount v).deeds (c.blameless xs)) = outward (c.deeds xs) := by
  induction xs generalizing c done with
  | nil => exact ⟨rfl, rfl⟩
  | cons x xs ih =>
    have hb := h.budgeted hd.sound x
    have hnext := h.take hd.sound x
    have hdnext := hd.take x
    have hpolicy : (c.take x).coordinator.policy = c.policy := (sameFile_take c x).policy_eq
    rw [after_cons] at hle ⊢
    obtain ⟨hafter, hdeeds⟩ := ih hnext hdnext (hpolicy ▸ hle)
    unfold blameless
    rw [deeds_cons, outward_append]
    split_ifs with hc
    · -- The message was forgiven, so another count is all that it left behind.
      have hforgiven : (c.take x).coordinator.session.violations ≤ c.policy.maxViolations :=
        UInt32.le_trans (UInt32.le_iff_toNat_le.2 (hnext.violations_le_after hdnext xs)) hle
      obtain ⟨line, htake⟩ := hb.forgiven hc hforgiven
      have hcoordinator : (c.take x).coordinator.recount v = c.recount v := by
        rw [htake, recount_recount]
      have hquiet : outward (c.take x).actions = [] := by
        rw [htake]
        rfl
      rw [hcoordinator] at hafter hdeeds
      rw [hquiet, List.nil_append]
      exact ⟨hafter, hdeeds⟩
    · have htake : (c.recount v).take x = (c.take x).recount v :=
        take_recount c v fun m hx deadline hs hf =>
          hc (hb.charged_iff.2 ⟨⟨deadline, hs⟩, m, hx, hf⟩)
      rw [after_cons, deeds_cons, outward_append, htake]
      exact ⟨hafter, congrArg _ hdeeds⟩

/-- **The budget of violations is exact.** In every run of a new session a turn counts one violation
or none. It counts one for a faulty message that comes before the verdict, and for nothing else: a
response that comes later is dropped. As long as the count is within the budget, nothing else changes
and nothing is published, and one more than that gives the session up, which happens in no other
turn (`Budgeted`). So the count never exceeds the budget by more than one, and it is the number of
messages that were counted. When all of them were forgiven, the run without them leaves the same
session behind, apart from the count, and it has done the same outside the log. -/
theorem violations_budgeted (policy : Policy) (id name : String) (size : UInt64) (sink : Sink)
    (now : ℕ) (hmax : policy.maxViolations.toNat < UInt32.size - 1) (xs : List Occasion) :
    let c := new policy (.new id name size) sink now
    let count := (c.after xs).session.violations
    (∀ x, Budgeted (c.after xs) x) ∧
      count.toNat ≤ policy.maxViolations.toNat + 1 ∧
      (c.blameless xs).Sublist xs ∧
      xs.length = (c.blameless xs).length + count.toNat ∧
      (count ≤ policy.maxViolations →
        c.after (c.blameless xs) = (c.after xs).recount 0 ∧
          outward (c.deeds (c.blameless xs)) = outward (c.deeds xs)) := by
  intro c count
  have hd : Delivers c [] := delivers_new policy id name size sink now
  have hm : Metered c := metered_new policy id name size sink now hmax
  have hafter := hm.after hd xs
  have hsound := (delivers_after policy id name size sink now xs).sound
  have hpolicy : (c.after xs).policy = policy := (sameFile_after c xs).policy_eq
  refine ⟨hafter.budgeted hsound, ?_, c.blameless_sublist xs, ?_, fun hle => ?_⟩
  · rw [← hpolicy]
    exact hafter.count_le
  · exact hm.length_eq hd xs
  · exact hm.after_blameless hd hle 0

namespace Faults

/-- A session of one byte that nobody has started, with a budget of violations. -/
def fresh (max : UInt32) : Coordinator :=
  .new { maxViolations := max } (.new "s" "f" 1) (.memory { session := "s", size := 1 }) 0

/-- A start on a bus that takes everything. -/
def start : Occasion := ⟨.start (.signal "s" .start), fun _ => true, 0, {}⟩

/-- The client gives up. -/
def cancel : Occasion := ⟨.cancel (.signal "s" .cancel), fun _ => true, 0, {}⟩

/-- An error message in place of a response. -/
def fault : Occasion := ⟨.response (.failure "s" 500 "boom"), fun _ => true, 0, {}⟩

end Faults

/-- A fault between the request and the response is forgiven. -/
theorem fault_forgiven :
    (Faults.fresh 1).policy.maxViolations.toNat < UInt32.size - 1 ∧
      ((Faults.fresh 1).after [Faults.start, Faults.fault]).session.violations = 1 ∧
      (Faults.fresh 1).after [Faults.start]
        = ((Faults.fresh 1).after [Faults.start, Faults.fault]).recount 0 := by
  have hcount : ((Faults.fresh 1).after [Faults.start, Faults.fault]).session.violations = 1 := rfl
  obtain ⟨-, -, -, -, h⟩ := violations_budgeted { maxViolations := 1 } "s" "f" 1
    (.memory { session := "s", size := 1 }) 0 (by decide) [Faults.start, Faults.fault]
  exact ⟨by decide, hcount, (h (by decide)).1⟩

/-- A fault behind the verdict is not counted, and one that is not forgiven changes the phase. -/
theorem faults_at_verdict :
    (¬ ∀ (policy : Policy) (id name : String) (size : UInt64) (sink : Sink) (now : ℕ)
        (xs : List Occasion) (x : Occasion) (m : Message),
      let c := (new policy (.new id name size) sink now).after xs
      policy.maxViolations.toNat < UInt32.size - 1 → x.event = .response m → m.error.isSome = true →
        c.Charged x) ∧
    ¬ ∀ (policy : Policy) (id name : String) (size : UInt64) (sink : Sink) (now : ℕ)
        (xs : List Occasion) (x : Occasion),
      let c := (new policy (.new id name size) sink now).after xs
      policy.maxViolations.toNat < UInt32.size - 1 → c.Charged x →
        (c.take x).coordinator.session.phase = c.session.phase := by
  constructor
  · intro h
    exact h { maxViolations := 0 } "s" "f" 1 (.memory { session := "s", size := 1 }) 0
      [Faults.cancel] Faults.fault _ (by decide) rfl rfl rfl
  · intro h
    have hphase := h { maxViolations := 0 } "s" "f" 1 (.memory { session := "s", size := 1 }) 0
      [] Faults.fault (by decide) (by decide)
    cases hphase

end PullIngest.Coordinator
