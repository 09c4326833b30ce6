import PullIngest.Proofs.Session.Run

/-!
# Calls that a session refuses

A session refuses a start after the first one, a request for a range while one is outstanding or
none is left, a response to anything but the outstanding range, and a second verdict. A call that is
refused leaves no trace: a run without it goes on in the same way.

* `refuses`: the answers that refuse a call;
* `Sound.refuses_iff`: a call is refused exactly when it leaves the session as it is;
* `granted`: the calls of a run that are not refused, with their answers;
* `refused_calls_vanish`: a run of these calls alone ends alike and gets the same answers.
-/

namespace PullIngest.Session

/-- Whether an answer refuses the call. A range that was outstanding before is only repeated. -/
def refuses (s : Session) : Answer → Bool
  | .start result => result = .alreadyStarted
  | .request (.ok (some r)) => s.outstanding = some r
  | .request (.ok none) => true
  | .request (.error _) => true
  | .response (.ok (.advanced _ _)) => false
  | .response (.ok .stale) => true
  | .response (.error _) => true
  | .violations _ => false
  | .finish first => !first
  | .touch => false

variable {s : Session} {c : Call}

/-! ### One call -/

/-- A range is never asked for twice: a new one is not the one that was outstanding. -/
theorem Sound.outstanding_ne (hs : s.Sound) (hp : s.phase = .started ∨ s.phase = .requesting)
    (r : ByteRange) : s.outstanding ≠ some r := by
  have hne : s.phase ≠ .awaitingResponse := by
    rcases hp with hp | hp <;> simp [hp]
  rw [hs.outstanding_eq_none hne]
  exact nofun

/-- A call that is not a mere sign of activity is refused exactly when it leaves the session as it
is: its phase, the count of its bytes, the outstanding range and the count of violations. -/
theorem Sound.refuses_iff (hs : s.Sound) (hc : c ≠ .touch) :
    s.refuses (s.serve c).1 = true ↔ (s.serve c).2 = s := by
  cases c with
  | start =>
    dsimp only [serve]
    rcases s.start_cases with ⟨hp, e⟩ | ⟨-, e⟩
    · rw [e]
      have hmoved : ({ s with phase := .started } : Session) ≠ s := fun h => by
        rw [← h] at hp
        cases hp
      simp [refuses, hmoved]
    · rw [e]
      simp [refuses]
  | nextRequest chunk =>
    dsimp only [serve]
    rcases s.nextRequest_cases chunk with ⟨_, e⟩ | ⟨hp, e⟩ | ⟨-, -, e⟩ | ⟨hp, -, -, e⟩
    · rw [e]
      simp [refuses]
    · rw [e]
      cases ho : s.outstanding <;> simp [refuses, ho]
    · rw [e]
      simp [refuses]
    · rw [e]
      have hmoved : s.awaiting (s.nextRange chunk) ≠ s := fun h =>
        hs.outstanding_ne hp (s.nextRange chunk) (congrArg Session.outstanding h).symm
      simp [refuses, hs.outstanding_ne hp, hmoved]
  | acceptResponse offset size held =>
    dsimp only [serve, acceptResponse]
    rcases s.acceptPayload_cases offset size held.toNat with ⟨_, e⟩ | e | ⟨-, ho, -, _, e⟩
    · rw [e]
      simp [refuses]
    · rw [e]
      simp [refuses]
    · rw [e]
      have hmoved : s.advancedBy size ≠ s := fun h => by
        have := (congrArg Session.outstanding h).symm
        rw [ho] at this
        cases this
      simp [refuses, hmoved]
  | recordViolation =>
    have hmoved : s.recordViolation.2 ≠ s := fun h => by
      have hcount : s.violations + 1 = s.violations := congrArg Session.violations h
      simp at hcount
    simp [serve, refuses, hmoved]
  | finish success =>
    dsimp only [serve]
    rcases s.finish_cases success with ⟨-, e⟩ | ⟨hp, e⟩
    · rw [e]
      simp [refuses]
    · rw [e]
      have hmoved : ({ s with phase := .done (.ofBool success), outstanding := none } : Session)
          ≠ s := fun h => by
        rw [← h] at hp
        cases hp
      simp [refuses, hmoved]
  | touch => exact absurd rfl hc

/-- A call that is refused leaves the session as it is. -/
theorem Sound.serve_of_refused (hs : s.Sound) (h : s.refuses (s.serve c).1 = true) :
    (s.serve c).2 = s := by
  have hc : c ≠ .touch := by
    rintro rfl
    cases h
  exact (hs.refuses_iff hc).1 h

/-! ### Runs -/

/-- The calls of a run that are not refused, with the answers that they get in it. -/
def granted (s : Session) : List Call → List (Call × Answer)
  | [] => []
  | c :: calls =>
    if s.refuses (s.serve c).1 then (s.serve c).2.granted calls
    else (c, (s.serve c).1) :: (s.serve c).2.granted calls

theorem granted_sublist_log (s : Session) (calls : List Call) :
    (s.granted calls).Sublist (s.log calls) := by
  induction calls generalizing s with
  | nil => exact .slnil
  | cons c calls ih =>
    rw [granted, log_cons]
    split_ifs
    · exact (ih _).cons _
    · exact (ih _).cons_cons _

/-- Without the calls that it refuses, a run ends alike. -/
theorem Sound.after_granted (hs : s.Sound) (calls : List Call) :
    s.after ((s.granted calls).map Prod.fst) = s.after calls := by
  induction calls generalizing s with
  | nil => rfl
  | cons c calls ih =>
    have hrest := ih (hs.moves (s.moves_serve c))
    rw [granted]
    split_ifs with h
    · rw [hs.serve_of_refused h] at hrest ⊢
      rw [hrest, after_cons, hs.serve_of_refused h]
    · rw [List.map_cons, after_cons, hrest, after_cons]

/-- Without the calls that it refuses, a run gives the same answers to the others. -/
theorem Sound.log_granted (hs : s.Sound) (calls : List Call) :
    s.log ((s.granted calls).map Prod.fst) = s.granted calls := by
  induction calls generalizing s with
  | nil => rfl
  | cons c calls ih =>
    have hrest := ih (hs.moves (s.moves_serve c))
    rw [granted]
    split_ifs with h
    · rw [hs.serve_of_refused h] at hrest ⊢
      exact hrest
    · rw [List.map_cons, log_cons, hrest]

/-- **Refused calls leave no trace.** Behind any run of a new session, a call that is refused leaves
the session exactly as it is, and no other call does, apart from a mere sign of activity. A response
is refused as stale, or for its range or its length, and for no other reason. When all calls that
are refused are taken out of the run, it ends in the same state, and the calls that are left get the
answers that they got before. -/
theorem refused_calls_vanish (id name : String) (size : UInt64) (calls : List Call) :
    let start := new id name size
    let s := start.after calls
    (∀ c, s.refuses (s.serve c).1 = true → (s.serve c).2 = s) ∧
      (∀ c, c ≠ .touch → (s.serve c).2 = s → s.refuses (s.serve c).1 = true) ∧
      (∀ offset sent held e, (s.acceptResponse offset sent held).1 = .error e →
        e = .range offset sent size ∨ e = .violation (.payloadLength held.toNat sent)) ∧
      (start.granted calls).Sublist (start.log calls) ∧
      start.after ((start.granted calls).map Prod.fst) = s ∧
      start.log ((start.granted calls).map Prod.fst) = start.granted calls := by
  intro start s
  have hstart : start.Sound := sound_new id name size
  have hs : s.Sound := hstart.after calls
  refine ⟨fun c h => hs.serve_of_refused h, fun c hc h => (hs.refuses_iff hc).2 h,
    fun offset sent held e h => ?_, start.granted_sublist_log calls, hstart.after_granted calls,
    hstart.log_granted calls⟩
  have hsize : s.declaredSize = size := after_declaredSize start calls
  rw [← hsize]
  exact (acceptPayload_error h).imp_right And.left

end PullIngest.Session
