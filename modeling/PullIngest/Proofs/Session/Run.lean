import Mathlib.Data.List.Induction
import PullIngest.Proofs.Session.Soundness

/-!
# Runs of a session

What holds of a session behind any calls, in any order and with any arguments.

* `Call`, `Answer`, `serve`, `after`, `log`: one call, and a run of calls with their answers;
* `Moves`: everything that a call can do (`moves_serve`);
* `sound_after_calls`: the invariant, and that no 64-bit sum or difference wraps around;
* `runs_forward`: how the phase and the count of bytes go on, and which ranges are taken.
-/

namespace PullIngest

/-- The phases that can come next. -/
inductive Phase.Next : Phase → Phase → Prop
  | start : Next .created .started
  | firstRequest : Next .started .awaitingResponse
  | request : Next .requesting .awaitingResponse
  | response : Next .awaitingResponse .requesting
  | finish {p : Phase} (h : p.isDone = false) (o : Outcome) : Next p (.done o)

namespace Session

/-- What can be asked of a session. -/
inductive Call where
  | start
  | nextRequest (chunk : UInt64)
  | acceptResponse (offset size held : UInt64)
  | recordViolation
  | finish (success : Bool)
  /-- The session is active. The time of that is not kept. -/
  | touch
  deriving DecidableEq, Repr

/-- What a session answers. -/
inductive Answer where
  | start (result : StartResult)
  | request (result : Except TransferError (Option ByteRange))
  | response (result : Except TransferError ResponseResult)
  | violations (count : UInt32)
  | finish (first : Bool)
  | touch

/-- Answer one call. -/
def serve (s : Session) : Call → Answer × Session
  | .start => let (result, s) := s.start; (.start result, s)
  | .nextRequest chunk => let (result, s) := s.nextRequest chunk; (.request result, s)
  | .acceptResponse offset size held =>
    let (result, s) := s.acceptResponse offset size held
    (.response result, s)
  | .recordViolation => let (count, s) := s.recordViolation; (.violations count, s)
  | .finish success => let (first, s) := s.finish success; (.finish first, s)
  | .touch => (.touch, s)

/-- The session behind a run of calls. -/
def after (s : Session) (calls : List Call) : Session := calls.foldl (fun s c => (s.serve c).2) s

/-- The calls of a run with their answers. -/
def log (s : Session) : List Call → List (Call × Answer)
  | [] => []
  | c :: calls => (c, (s.serve c).1) :: (s.serve c).2.log calls

@[simp] theorem after_nil (s : Session) : s.after [] = s := rfl

@[simp] theorem after_cons (s : Session) (c : Call) (calls : List Call) :
    s.after (c :: calls) = (s.serve c).2.after calls := rfl

theorem after_append (s : Session) (calls calls' : List Call) :
    s.after (calls ++ calls') = (s.after calls).after calls' := List.foldl_append

@[simp] theorem log_nil (s : Session) : s.log [] = [] := rfl

@[simp] theorem log_cons (s : Session) (c : Call) (calls : List Call) :
    s.log (c :: calls) = (c, (s.serve c).1) :: (s.serve c).2.log calls := rfl

theorem log_append (s : Session) (calls calls' : List Call) :
    s.log (calls ++ calls') = s.log calls ++ (s.after calls).log calls' := by
  induction calls generalizing s with
  | nil => rfl
  | cons c calls ih => simp [ih]

/-- What holds at first and is kept by every call holds behind every run, together with its log. -/
theorem run_induction {motive : Session → List (Call × Answer) → Prop} {s : Session}
    (start : motive s [])
    (step : ∀ s l c, motive s l → motive (s.serve c).2 (l ++ [(c, (s.serve c).1)]))
    (calls : List Call) : motive (s.after calls) (s.log calls) := by
  -- The induction is on the run from behind: the last call comes after all others.
  induction calls using List.reverseRecOn with
  | nil => exact start
  | append_singleton calls c ih =>
    rw [after_append, log_append]
    exact step _ _ c ih

/-! ### What a call does -/

/-- The range that a call has moved the session on by. -/
def advance? : Call × Answer → Option ByteRange
  | (.acceptResponse offset size _, .response (.ok (.advanced _ _))) => some ⟨offset, size⟩
  | _ => none

/-- Whether a call has brought the last byte. -/
def isComplete : Call × Answer → Bool
  | (_, .response (.ok (.advanced _ true))) => true
  | _ => false

/-- Everything that a call can do. -/
inductive Moves (s : Session) : Call → Answer × Session → Prop
  /-- Nothing moves, but a violation may be counted. -/
  | stays {c : Call} {a : Answer} (ha : advance? (c, a) = none) (hc : isComplete (c, a) = false)
      (violations : UInt32) : Moves s c (a, { s with violations })
  | starts (hp : s.phase = .created) : Moves s .start (.start .started, { s with phase := .started })
  | asks {chunk : UInt64} (hp : s.phase = .started ∨ s.phase = .requesting)
      (hr : s.declaredSize - s.delivered ≠ 0) (hc : chunk ≠ 0) :
      Moves s (.nextRequest chunk)
        (.request (.ok (some (s.nextRange chunk))), s.awaiting (s.nextRange chunk))
  | advances {offset size held : UInt64} (ho : s.outstanding = some ⟨offset, size⟩) :
      Moves s (.acceptResponse offset size held)
        (.response (.ok (.advanced (s.delivered + size) (s.delivered + size = s.declaredSize))),
          s.advancedBy size)
  | finishes {success : Bool} (hp : s.phase.isDone = false) :
      Moves s (.finish success)
        (.finish true, { s with phase := .done (.ofBool success), outstanding := none })

theorem moves_serve (s : Session) (c : Call) : Moves s c (s.serve c) := by
  cases c with
  | start =>
    dsimp only [serve]
    rcases s.start_cases with ⟨hp, e⟩ | ⟨-, e⟩
    · rw [e]; exact .starts hp
    · rw [e]; exact .stays rfl rfl s.violations
  | nextRequest chunk =>
    dsimp only [serve]
    rcases s.nextRequest_cases chunk with ⟨_, e⟩ | ⟨-, e⟩ | ⟨-, -, e⟩ | ⟨hp, hr, hc, e⟩
    · rw [e]; exact .stays rfl rfl s.violations
    · rw [e]; exact .stays rfl rfl s.violations
    · rw [e]; exact .stays rfl rfl s.violations
    · rw [e]; exact .asks hp hr hc
  | acceptResponse offset size held =>
    dsimp only [serve, acceptResponse]
    rcases s.acceptPayload_cases offset size held.toNat with ⟨_, e⟩ | e | ⟨-, ho, -, complete, e⟩
    · rw [e]; exact .stays rfl rfl s.violations
    · rw [e]; exact .stays rfl rfl s.violations
    · obtain rfl := complete_of_advanced (congrArg Prod.fst e)
      rw [e]; exact .advances ho
  | recordViolation => exact .stays rfl rfl _
  | finish success =>
    dsimp only [serve]
    rcases s.finish_cases success with ⟨-, e⟩ | ⟨hp, e⟩
    · rw [e]; exact .stays rfl rfl s.violations
    · rw [e]; exact .finishes hp
  | touch => exact .stays rfl rfl s.violations

variable {s : Session} {c : Call} {r : Answer × Session}

theorem Moves.declaredSize_eq (h : Moves s c r) : r.2.declaredSize = s.declaredSize := by
  cases h <;> rfl

theorem Sound.moves (hs : s.Sound) (h : Moves s c r) : r.2.Sound := by
  cases h with
  | stays ha hc violations => exact hs.counted violations
  | starts hp => exact hs.started hp
  | asks hp hr hc => exact hs.awaiting hr hc
  | advances ho => exact hs.advancedBy ho
  | finishes hp => exact hs.finished _

theorem Sound.after (hs : s.Sound) (calls : List Call) : (s.after calls).Sound :=
  run_induction (motive := fun s _ => s.Sound) hs (fun s _ c h => h.moves (s.moves_serve c)) calls

theorem after_declaredSize (s : Session) (calls : List Call) :
    (s.after calls).declaredSize = s.declaredSize :=
  run_induction (motive := fun s' _ => s'.declaredSize = s.declaredSize) rfl
    (fun s' _ c h => (s'.moves_serve c).declaredSize_eq.trans h) calls

/-! ### The invariant behind every run -/

/-- No 64-bit sum or difference that a session computes wraps around. -/
structure Exact (s : Session) : Prop where
  remaining : (s.declaredSize - s.delivered).toNat = s.declaredSize.toNat - s.delivered.toNat
  advanced : ∀ offset size held delivered complete,
    (s.acceptResponse offset size held).1 = .ok (.advanced delivered complete) →
      delivered.toNat = s.delivered.toNat + size.toNat
  stop : ∀ chunk r, (s.nextRequest chunk).1 = .ok (some r) →
    r.stop.toNat = r.offset.toNat + r.size.toNat

/-- A range that ends inside the file ends where it should. -/
theorem toNat_stop_of_le {r : ByteRange} {n : UInt64}
    (h : r.offset.toNat + r.size.toNat ≤ n.toNat) : r.stop.toNat = r.offset.toNat + r.size.toNat := by
  have := n.toNat_lt
  unfold ByteRange.stop
  rw [UInt64.toNat_add, Nat.mod_eq_of_lt (by omega)]

theorem Sound.exact (h : s.Sound) : s.Exact where
  remaining := h.toNat_remaining
  advanced := by
    intro offset size held delivered complete ha
    have hm := s.moves_serve (.acceptResponse offset size held)
    have he : (s.serve (.acceptResponse offset size held)).1 =
      .response (.ok (.advanced delivered complete)) := congrArg Answer.response ha
    generalize s.serve (.acceptResponse offset size held) = r at hm he
    cases hm with
    | stays ha' hc violations => cases he; cases ha'
    | advances ho =>
      cases he
      exact (h.toNat_advanced ho).1
  stop := by
    intro chunk r hr
    rcases s.nextRequest_cases chunk with ⟨_, e⟩ | ⟨-, e⟩ | ⟨-, -, e⟩ | ⟨-, hrem, hc, e⟩
    · rw [e] at hr; cases hr
    · rw [e] at hr
      exact toNat_stop_of_le (h.range_of_outstanding r (Except.ok.inj hr)).2.2
    · rw [e] at hr; cases hr
    · rw [e] at hr
      cases hr
      exact toNat_stop_of_le (h.nextRange hrem hc).2.2.1

/-- **Sessions stay sound.** Behind any calls a new session is sound, still has its declared size,
and has computed and will compute everything without wrapping around. -/
theorem sound_after_calls (id name : String) (size : UInt64) (calls : List Call) :
    let s := (new id name size).after calls
    s.declaredSize = size ∧ s.Sound ∧ s.Exact :=
  have h := (sound_new id name size).after calls
  ⟨after_declaredSize _ calls, h, h.exact⟩

/-! ### The law of runs -/

/-- Ranges that follow each other from one offset to another, none of them empty. -/
def Tiles : ℕ → List ByteRange → ℕ → Prop
  | start, [], stop => start = stop
  | start, r :: rs, stop => r.offset.toNat = start ∧ 0 < r.size ∧ Tiles (start + r.size.toNat) rs stop

theorem tiles_append_singleton {start stop : ℕ} {rs : List ByteRange} {r : ByteRange}
    (h : Tiles start rs stop) (hr : r.offset.toNat = stop) (hpos : 0 < r.size) :
    Tiles start (rs ++ [r]) (stop + r.size.toNat) := by
  induction rs generalizing start with
  | nil =>
    obtain rfl : start = stop := h
    exact ⟨hr, hpos, rfl⟩
  | cons r' rs ih => exact ⟨h.1, h.2.1, ih h.2.2⟩

/-- The phase stays or goes on to a next one. -/
theorem Moves.phase (hs : s.Sound) (h : Moves s c r) :
    r.2.phase = s.phase ∨ s.phase.Next r.2.phase := by
  cases h with
  | stays ha hc violations => exact .inl rfl
  | starts hp =>
    right
    rw [hp]
    exact .start
  | asks hp hr hc =>
    right
    rcases hp with hp | hp <;> rw [hp]
    · exact .firstRequest
    · exact .request
  | advances ho =>
    right
    rw [hs.outstanding_iff.1 (by simp [ho])]
    exact .response
  | finishes hp => exact .inr (.finish hp _)

/-- Bytes are counted when a range arrives and at no other time. -/
theorem Moves.delivered (hs : s.Sound) (h : Moves s c r) (hd : r.2.delivered ≠ s.delivered) :
    s.phase = .awaitingResponse ∧ r.2.phase = .requesting := by
  cases h with
  | advances ho => exact ⟨hs.outstanding_iff.1 (by simp [ho]), rfl⟩
  | _ => exact absurd rfl hd

/-- A verdict stands. -/
theorem Moves.done {o : Outcome} (h : Moves s c r) (hs : s.Sound) (hp : s.phase = .done o) :
    r.2.phase = .done o := by
  rcases h.phase hs with e | hn
  · rw [e, hp]
  · rw [hp] at hn
    generalize r.2.phase = p at hn
    cases hn with
    | finish h => cases h

theorem Sound.after_done {o : Outcome} (hs : s.Sound) (hp : s.phase = .done o)
    (calls : List Call) : (s.after calls).phase = .done o := by
  have h := run_induction (motive := fun s _ => s.Sound ∧ s.phase = .done o) ⟨hs, hp⟩
    (fun s _ c h => ⟨h.1.moves (s.moves_serve c), (s.moves_serve c).done h.1 h.2⟩) calls
  exact h.2

/-- The range that has arrived begins where the bytes that were counted end. -/
theorem Moves.tiles {done : List ByteRange} (hs : s.Sound) (h : Moves s c r)
    (ht : Tiles 0 done s.delivered.toNat) :
    Tiles 0 (done ++ (advance? (c, r.1)).toList) r.2.delivered.toNat := by
  cases h with
  | stays ha hc violations =>
    rw [ha]
    simpa using ht
  | @advances offset size held ho =>
    obtain ⟨hoff, hpos, -⟩ := hs.range_of_outstanding _ ho
    have hadd := (hs.toNat_advanced ho).1
    show Tiles 0 (done ++ [⟨offset, size⟩]) (s.delivered + size).toNat
    rw [hadd]
    exact tiles_append_singleton ht (congrArg UInt64.toNat hoff) hpos
  | starts hp => simpa [advance?] using ht
  | asks hp hr hc => simpa [advance?, awaiting] using ht
  | finishes hp => simpa [advance?] using ht

theorem tiles_log (hs : s.Sound) (hd : s.delivered = 0) (calls : List Call) :
    Tiles 0 ((s.log calls).filterMap advance?) (s.after calls).delivered.toNat := by
  have h := run_induction (s := s)
    (motive := fun s l => s.Sound ∧ Tiles 0 (l.filterMap advance?) s.delivered.toNat)
    ⟨hs, by rw [hd]; rfl⟩ (fun s l c h => ⟨h.1.moves (s.moves_serve c), ?_⟩) calls
  · exact h.2
  · have := (s.moves_serve c).tiles h.1 h.2
    rw [List.filterMap_append]
    cases ha : advance? (c, (s.serve c).1) <;> simpa [ha] using this

/-! ### The last byte -/

/-- A session with all its bytes has nothing outstanding, so that no response moves it on. -/
theorem Moves.full (hs : s.Sound) (h : Moves s c r) (hf : s.delivered = s.declaredSize) :
    advance? (c, r.1) = none ∧ isComplete (c, r.1) = false ∧ r.2.delivered = r.2.declaredSize := by
  cases h with
  | stays ha hc violations => exact ⟨ha, hc, hf⟩
  | advances ho =>
    obtain ⟨hoff, hpos, hle⟩ := hs.range_of_outstanding _ ho
    rw [UInt64.lt_iff_toNat_lt, UInt64.toNat_zero] at hpos
    rw [hoff, hf] at hle
    simp only at hle hpos
    omega
  | starts hp => exact ⟨rfl, rfl, hf⟩
  | asks hp hr hc => exact ⟨rfl, rfl, hf⟩
  | finishes hp => exact ⟨rfl, rfl, hf⟩

/-- The call that brings the last byte is the one that says so. -/
theorem Moves.isComplete_iff (hs : s.Sound) (h : Moves s c r) :
    isComplete (c, r.1) = true ↔ r.2.delivered ≠ s.delivered ∧ r.2.delivered = r.2.declaredSize := by
  cases h with
  | stays ha hc violations => simp [hc]
  | @advances offset size held ho =>
    have hpos := (hs.range_of_outstanding _ ho).2.1
    have hadd := (hs.toNat_advanced ho).1
    have hne : s.delivered + size ≠ s.delivered := by
      intro e
      rw [e] at hadd
      rw [UInt64.lt_iff_toNat_lt, UInt64.toNat_zero] at hpos
      simp only at hpos
      omega
    by_cases hfull : s.delivered + size = s.declaredSize
    · simp [isComplete, advancedBy, hfull, hfull ▸ hne]
    · simp [isComplete, advancedBy, hfull]
  | starts hp => simp [isComplete]
  | asks hp hr hc => simp [isComplete, awaiting]
  | finishes hp => simp [isComplete]

theorem Sound.advances_nil (hs : s.Sound) (hf : s.delivered = s.declaredSize)
    (calls : List Call) : (s.log calls).filterMap advance? = [] := by
  have h := run_induction (s := s) (motive := fun s l => s.Sound ∧ s.delivered = s.declaredSize ∧
      l.filterMap advance? = []) ⟨hs, hf, rfl⟩ (fun s l c h => ?_) calls
  · exact h.2.2
  · obtain ⟨ha, -, hf'⟩ := (s.moves_serve c).full h.1 h.2.1
    refine ⟨h.1.moves (s.moves_serve c), hf', ?_⟩
    rw [List.filterMap_append, h.2.2]
    simp [ha]

/-- At most one call brings the last byte. -/
theorem Sound.countP_isComplete_le (hs : s.Sound) (calls : List Call) :
    (s.log calls).countP isComplete ≤ 1 := by
  -- As long as bytes are missing, no call has brought the last one.
  have h := run_induction (s := s) (motive := fun s l => s.Sound ∧ l.countP isComplete ≤ 1 ∧
      (s.delivered ≠ s.declaredSize → l.countP isComplete = 0)) ⟨hs, by simp, by simp⟩
    (fun s l c h => ?_) calls
  · exact h.2.1
  · obtain ⟨hs, hle, hzero⟩ := h
    have hm := s.moves_serve c
    refine ⟨hs.moves hm, ?_, fun hmissing => ?_⟩
    · rw [List.countP_append, List.countP_singleton]
      by_cases hf : s.delivered = s.declaredSize
      · simp [(hm.full hs hf).2.1, hle]
      · rw [hzero hf]
        split_ifs <;> simp
    · have hc : isComplete (c, (s.serve c).1) ≠ true := fun hc =>
        hmissing ((hm.isComplete_iff hs).1 hc).2
      have hf : s.delivered ≠ s.declaredSize := fun hf => hmissing (hm.full hs hf).2.2
      rw [List.countP_append, List.countP_singleton, if_neg hc, hzero hf]

/-- A session that has all its bytes and no verdict finds no range to ask for. -/
theorem nextRequest_of_full {chunk : UInt64} (hc : chunk ≠ 0) (hp : s.phase = .requesting)
    (hf : s.delivered = s.declaredSize) : (s.nextRequest chunk).1 = .ok none := by
  simp [nextRequest, hc, hp, hf]

theorem Sound.requesting_after (hs : s.Sound) (hp : s.phase = .requesting)
    (hf : s.delivered = s.declaredSize) {calls : List Call}
    (hno : ∀ success, .finish success ∉ calls) :
    (s.after calls).phase = .requesting ∧ (s.after calls).delivered = (s.after calls).declaredSize := by
  induction calls generalizing s with
  | nil => exact ⟨hp, hf⟩
  | cons c calls ih =>
    have hm := s.moves_serve c
    obtain ⟨-, -, hf'⟩ := hm.full hs hf
    have hp' : (s.serve c).2.phase = .requesting := ?_
    · exact ih (hs.moves hm) hp' hf' fun success h => hno success (List.mem_cons_of_mem c h)
    generalize s.serve c = r at hm
    cases hm with
    | stays ha hc violations => exact hp
    | starts hp' => rw [hp] at hp'; cases hp'
    | asks hp' hr hc => exact absurd (by simp [hf]) hr
    | advances ho => rfl
    | @finishes success hp' => exact absurd List.mem_cons_self (hno success)

/-- **The law of runs.** Let a new session have answered any calls, and let one more call come and
then others. The phase stays or goes on to a next one, and a verdict stands. Bytes are counted when
an awaited range arrives and at no other time. The ranges that have arrived follow each other from
the first byte to the last one counted. Exactly the call that brings the last byte says so, there is
at most one such call, and after it no range arrives any more and none is asked for before the
verdict. -/
theorem runs_forward (id name : String) (size : UInt64) (calls : List Call) (c : Call)
    (later : List Call) :
    let s := (new id name size).after calls
    let log := (new id name size).log calls
    let r := s.serve c
    (r.2.phase = s.phase ∨ s.phase.Next r.2.phase) ∧
      (∀ o, s.phase = .done o → (s.after later).phase = .done o) ∧
      (r.2.delivered ≠ s.delivered → s.phase = .awaitingResponse ∧ r.2.phase = .requesting) ∧
      Tiles 0 (log.filterMap advance?) s.delivered.toNat ∧
      log.countP isComplete ≤ 1 ∧
      (isComplete (c, r.1) = true ↔ r.2.delivered ≠ s.delivered ∧ r.2.delivered = size) ∧
      (isComplete (c, r.1) = true →
        (r.2.log later).filterMap advance? = [] ∧
        ((∀ success, .finish success ∉ later) →
          ∀ chunk, chunk ≠ 0 → ((r.2.after later).nextRequest chunk).1 = .ok none)) := by
  intro s log r
  have hs : s.Sound := (sound_new id name size).after calls
  have hm : Moves s c r := s.moves_serve c
  have hsize : r.2.declaredSize = size :=
    hm.declaredSize_eq.trans (after_declaredSize _ calls)
  have hiff := hm.isComplete_iff hs
  refine ⟨hm.phase hs, fun o ho => hs.after_done ho later, hm.delivered hs,
    tiles_log (sound_new id name size) rfl calls,
    (sound_new id name size).countP_isComplete_le calls, hsize ▸ hiff, fun hc => ?_⟩
  obtain ⟨hne, hf⟩ := hiff.1 hc
  have hp := (hm.delivered hs hne).2
  refine ⟨(hs.moves hm).advances_nil hf later, fun hno chunk hchunk => ?_⟩
  obtain ⟨hp', hf'⟩ := (hs.moves hm).requesting_after hp hf hno
  exact nextRequest_of_full hchunk hp' hf'

end Session

end PullIngest
