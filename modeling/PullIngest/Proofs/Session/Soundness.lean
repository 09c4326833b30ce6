import Mathlib.Tactic.Common
import PullIngest.Session

/-!
# Sound sessions

What holds of a session whatever it was asked to do: no more bytes have arrived than were
declared, a range is outstanding exactly while its response is awaited, and that range begins where
the last one ended and stays inside the file.

* `start_cases`, `nextRequest_cases`, `acceptPayload_cases`, `finish_cases`: everything that an
  operation can do. Later proofs use these and never open an operation.
* `Sound`: the invariant, with one lemma for each operation that keeps it.
-/

namespace PullIngest.Session

variable {s : Session} {chunk offset size : UInt64} {held : ℕ}

theorem toNat_min (a b : UInt64) : (min a b).toNat = min a.toNat b.toNat := by
  show (if a ≤ b then a else b).toNat = min a.toNat b.toNat
  split_ifs with h <;> rw [UInt64.le_iff_toNat_le] at h <;> omega

/-! ### What the operations do -/

/-- The range that a session asks for when it has none outstanding. -/
def nextRange (s : Session) (chunk : UInt64) : ByteRange :=
  ⟨s.delivered, min (s.declaredSize - s.delivered) chunk⟩

/-- The session with a range outstanding. -/
def awaiting (s : Session) (r : ByteRange) : Session :=
  { s with outstanding := some r, phase := .awaitingResponse }

/-- The session after the bytes of its outstanding range. -/
def advancedBy (s : Session) (size : UInt64) : Session :=
  { s with delivered := s.delivered + size, outstanding := none, phase := .requesting }

theorem start_cases (s : Session) :
    (s.phase = .created ∧ s.start = (.started, { s with phase := .started })) ∨
      (s.phase ≠ .created ∧ s.start = (.alreadyStarted, s)) := by
  unfold start
  split_ifs with h
  · exact .inl ⟨h, rfl⟩
  · exact .inr ⟨h, rfl⟩

/-- Asking for the next range fails, repeats the outstanding one, finds none left, or makes a new
one outstanding. -/
theorem nextRequest_cases (s : Session) (chunk : UInt64) :
    (∃ e, s.nextRequest chunk = (.error e, s)) ∨
      (s.phase = .awaitingResponse ∧ s.nextRequest chunk = (.ok s.outstanding, s)) ∨
      ((s.phase = .started ∨ s.phase = .requesting) ∧ s.declaredSize - s.delivered = 0 ∧
        s.nextRequest chunk = (.ok none, s)) ∨
      ((s.phase = .started ∨ s.phase = .requesting) ∧ s.declaredSize - s.delivered ≠ 0 ∧
        chunk ≠ 0 ∧
        s.nextRequest chunk = (.ok (some (s.nextRange chunk)), s.awaiting (s.nextRange chunk))) := by
  unfold nextRequest
  split_ifs with h0
  · exact .inl ⟨_, rfl⟩
  · cases hp : s.phase with
    | created => exact .inl ⟨_, rfl⟩
    | done o => exact .inl ⟨_, rfl⟩
    | awaitingResponse => exact .inr (.inl ⟨rfl, rfl⟩)
    | started =>
      by_cases hr : s.declaredSize - s.delivered = 0
      · exact .inr (.inr (.inl ⟨.inl rfl, hr, by simp [hr]⟩))
      · exact .inr (.inr (.inr ⟨.inl rfl, hr, h0, by simp [hr, nextRange, awaiting]⟩))
    | requesting =>
      by_cases hr : s.declaredSize - s.delivered = 0
      · exact .inr (.inr (.inl ⟨.inr rfl, hr, by simp [hr]⟩))
      · exact .inr (.inr (.inr ⟨.inr rfl, hr, h0, by simp [hr, nextRange, awaiting]⟩))

/-- Between two ranges, asking for the next one finds it unless none is left. -/
theorem nextRequest_eq (hc : chunk ≠ 0) (hp : s.phase = .started ∨ s.phase = .requesting) :
    s.nextRequest chunk = if s.declaredSize - s.delivered = 0 then (.ok none, s)
      else (.ok (some (s.nextRange chunk)), s.awaiting (s.nextRange chunk)) := by
  unfold nextRequest
  rw [if_neg hc]
  rcases hp with hp | hp <;> rw [hp] <;> rfl

/-- A response leaves the session as it is, or it carries exactly the outstanding range. -/
theorem acceptPayload_cases (s : Session) (offset size : UInt64) (held : ℕ) :
    (∃ e, s.acceptPayload offset size held = (.error e, s)) ∨
      s.acceptPayload offset size held = (.ok .stale, s) ∨
      (s.phase.isDone = false ∧ s.outstanding = some ⟨offset, size⟩ ∧ held = size.toNat ∧
        ∃ complete, s.acceptPayload offset size held =
          (.ok (.advanced (s.delivered + size) complete), s.advancedBy size)) := by
  unfold acceptPayload
  split_ifs with h1 h2 h3 h4
  · exact .inr (.inl rfl)
  · exact .inl ⟨_, rfl⟩
  · exact .inr (.inl rfl)
  · exact .inl ⟨_, rfl⟩
  · exact .inr (.inr ⟨by simpa using h1, not_not.1 h3, not_not.1 h4, _, rfl⟩)

/-- A response fails because its range is not in the file, or because it is the outstanding one and
the payload has another length. -/
theorem acceptPayload_error {e : TransferError}
    (h : (s.acceptPayload offset size held).1 = .error e) :
    e = .range offset size s.declaredSize ∨
      e = .violation (.payloadLength held size) ∧ s.outstanding = some ⟨offset, size⟩ ∧
        held ≠ size.toNat := by
  unfold acceptPayload at h
  split_ifs at h with h1 h2 h3 h4 <;> cases h
  · exact .inl rfl
  · exact .inr ⟨rfl, not_not.1 h3, h4⟩

/-- The answer to a response tells whether all bytes have arrived. -/
theorem complete_of_advanced {delivered : UInt64} {complete : Bool}
    (h : (s.acceptPayload offset size held).1 = .ok (.advanced delivered complete)) :
    complete = decide (s.delivered + size = s.declaredSize) := by
  unfold acceptPayload at h
  split_ifs at h <;> cases h
  rfl

theorem finish_cases (s : Session) (success : Bool) :
    (s.phase.isDone = true ∧ s.finish success = (false, s)) ∨
      (s.phase.isDone = false ∧ s.finish success =
        (true, { s with phase := .done (.ofBool success), outstanding := none })) := by
  unfold finish
  split_ifs with h
  · exact .inl ⟨h, rfl⟩
  · exact .inr ⟨by simpa using h, rfl⟩

theorem outcome?_eq_none_iff : s.outcome? = none ↔ s.phase.isDone = false := by
  unfold outcome?
  cases s.phase <;> simp [Phase.isDone]

@[simp] theorem finish_declaredSize (s : Session) (success : Bool) :
    (s.finish success).2.declaredSize = s.declaredSize := by
  rcases s.finish_cases success with ⟨-, h⟩ | ⟨-, h⟩ <;> rw [h]

@[simp] theorem finish_delivered (s : Session) (success : Bool) :
    (s.finish success).2.delivered = s.delivered := by
  rcases s.finish_cases success with ⟨-, h⟩ | ⟨-, h⟩ <;> rw [h]

@[simp] theorem finish_name (s : Session) (success : Bool) :
    (s.finish success).2.name = s.name := by
  rcases s.finish_cases success with ⟨-, h⟩ | ⟨-, h⟩ <;> rw [h]

@[simp] theorem finish_id (s : Session) (success : Bool) : (s.finish success).2.id = s.id := by
  rcases s.finish_cases success with ⟨-, h⟩ | ⟨-, h⟩ <;> rw [h]

@[simp] theorem finish_violations (s : Session) (success : Bool) :
    (s.finish success).2.violations = s.violations := by
  rcases s.finish_cases success with ⟨-, h⟩ | ⟨-, h⟩ <;> rw [h]

/-- The first verdict is the outcome. -/
theorem finish_outcome? (h : s.phase.isDone = false) (success : Bool) :
    (s.finish success).2.outcome? = some (.ofBool success) := by
  rcases s.finish_cases success with ⟨h', -⟩ | ⟨-, e⟩
  · simp [h] at h'
  · rw [e]; rfl

/-! ### The invariant -/

/-- What holds of every session. -/
structure Sound (s : Session) : Prop where
  delivered_le : s.delivered ≤ s.declaredSize
  outstanding_iff : s.outstanding.isSome ↔ s.phase = .awaitingResponse
  range_of_outstanding : ∀ r, s.outstanding = some r →
    r.offset = s.delivered ∧ 0 < r.size ∧ r.offset.toNat + r.size.toNat ≤ s.declaredSize.toNat
  delivered_eq_zero : s.phase = .created ∨ s.phase = .started → s.delivered = 0
  delivered_pos : s.phase = .requesting → 0 < s.delivered

theorem sound_new (id name : String) (size : UInt64) : (new id name size).Sound where
  delivered_le := UInt64.zero_le
  outstanding_iff := by simp [new]
  range_of_outstanding := by simp [new]
  delivered_eq_zero := fun _ => rfl
  delivered_pos := by simp [new]

/-- Nothing is outstanding before the first request and between two requests. -/
theorem Sound.outstanding_eq_none (h : s.Sound) (hp : s.phase ≠ .awaitingResponse) :
    s.outstanding = none := by
  have := h.outstanding_iff
  cases ho : s.outstanding with
  | none => rfl
  | some r => exact absurd (this.1 (by simp [ho])) hp

theorem Sound.started (h : s.Sound) (hp : s.phase = .created) :
    Sound { s with phase := .started } where
  delivered_le := h.delivered_le
  outstanding_iff := by simp [h.outstanding_eq_none (show s.phase ≠ .awaitingResponse by simp [hp])]
  range_of_outstanding := h.range_of_outstanding
  delivered_eq_zero := fun _ => h.delivered_eq_zero (.inl hp)
  delivered_pos := by simp

theorem Sound.start (h : s.Sound) : s.start.2.Sound := by
  rcases s.start_cases with ⟨hp, e⟩ | ⟨-, e⟩
  · rw [e]; exact h.started hp
  · rw [e]; exact h

/-- The bytes that are missing, counted without wrapping around. -/
theorem Sound.toNat_remaining (h : s.Sound) :
    (s.declaredSize - s.delivered).toNat = s.declaredSize.toNat - s.delivered.toNat :=
  UInt64.toNat_sub_of_le _ _ h.delivered_le

/-- A new range begins where the last one ended, is not empty, and stays in the file and within the
chunk size. -/
theorem Sound.nextRange (h : s.Sound) (hr : s.declaredSize - s.delivered ≠ 0) (hc : chunk ≠ 0) :
    (s.nextRange chunk).offset = s.delivered ∧ 0 < (s.nextRange chunk).size ∧
      (s.nextRange chunk).offset.toNat + (s.nextRange chunk).size.toNat ≤ s.declaredSize.toNat ∧
      (s.nextRange chunk).size ≤ chunk := by
  have hrem := h.toNat_remaining
  have hle := UInt64.le_iff_toNat_le.1 h.delivered_le
  have hmin := toNat_min (s.declaredSize - s.delivered) chunk
  -- From here on everything is a statement about natural numbers.
  have hpos : (s.declaredSize - s.delivered).toNat ≠ 0 := fun e => hr (UInt64.toNat_inj.1 e)
  have hcpos : chunk.toNat ≠ 0 := fun e => hc (UInt64.toNat_inj.1 e)
  refine ⟨rfl, ?_, ?_, ?_⟩
  · rw [UInt64.lt_iff_toNat_lt]
    show 0 < (min (s.declaredSize - s.delivered) chunk).toNat
    omega
  · show s.delivered.toNat + (min (s.declaredSize - s.delivered) chunk).toNat ≤ _
    omega
  · rw [UInt64.le_iff_toNat_le]
    show (min (s.declaredSize - s.delivered) chunk).toNat ≤ _
    omega

theorem Sound.awaiting (h : s.Sound) (hr : s.declaredSize - s.delivered ≠ 0) (hc : chunk ≠ 0) :
    (s.awaiting (s.nextRange chunk)).Sound := by
  obtain ⟨h1, h2, h3, -⟩ := h.nextRange hr hc
  exact
    { delivered_le := h.delivered_le
      outstanding_iff := by simp [Session.awaiting]
      range_of_outstanding := by
        intro r hr
        obtain rfl : s.nextRange chunk = r := Option.some.inj hr
        exact ⟨h1, h2, h3⟩
      delivered_eq_zero := by simp [Session.awaiting]
      delivered_pos := by simp [Session.awaiting] }

/-- When no bytes are missing, as many have arrived as were declared. -/
theorem Sound.delivered_eq (h : s.Sound) (hr : s.declaredSize - s.delivered = 0) :
    s.delivered = s.declaredSize := by
  have hrem := h.toNat_remaining
  have hle := UInt64.le_iff_toNat_le.1 h.delivered_le
  rw [hr, UInt64.toNat_zero] at hrem
  exact UInt64.toNat_inj.1 (by omega)

theorem Sound.nextRequest (h : s.Sound) : (s.nextRequest chunk).2.Sound := by
  rcases s.nextRequest_cases chunk with ⟨_, e⟩ | ⟨-, e⟩ | ⟨-, -, e⟩ | ⟨hp, hr, hc, e⟩
  · rw [e]; exact h
  · rw [e]; exact h
  · rw [e]; exact h
  · rw [e]; exact h.awaiting hr hc

/-- A response that moves the session on adds its size without wrapping around. -/
theorem Sound.toNat_advanced (h : s.Sound) (ho : s.outstanding = some ⟨offset, size⟩) :
    (s.delivered + size).toNat = s.delivered.toNat + size.toNat ∧
      s.delivered.toNat + size.toNat ≤ s.declaredSize.toNat := by
  obtain ⟨h1, -, h3⟩ := h.range_of_outstanding _ ho
  simp only at h1 h3
  subst h1
  refine ⟨?_, h3⟩
  have := s.declaredSize.toNat_lt
  rw [UInt64.toNat_add, Nat.mod_eq_of_lt (by omega)]

/-- The bytes of the outstanding range move a session on. -/
theorem Sound.acceptPayload_eq (h : s.Sound) (ho : s.outstanding = some ⟨offset, size⟩) :
    ∃ complete, s.acceptPayload offset size size.toNat =
      (.ok (.advanced (s.delivered + size) complete), s.advancedBy size) := by
  obtain ⟨hoff, hpos, hle⟩ := h.range_of_outstanding _ ho
  obtain ⟨hadd, -⟩ := h.toNat_advanced ho
  simp only at hoff hpos hle
  have hphase : s.phase = .awaitingResponse := h.outstanding_iff.1 (by simp [ho])
  have hin : s.inBounds offset size = true := by
    have hmax := s.declaredSize.toNat_lt
    rw [UInt64.lt_iff_toNat_lt, UInt64.toNat_zero] at hpos
    unfold inBounds
    simp only [Bool.and_eq_true, decide_eq_true_eq]
    refine ⟨⟨Nat.lt_of_le_of_lt hle hmax, ?_⟩, ?_⟩
    · rw [UInt64.lt_iff_toNat_lt]
      omega
    · rw [UInt64.le_iff_toNat_le, hoff, hadd, ← hoff]
      exact hle
  unfold acceptPayload
  simp [hphase, Phase.isDone, hin, ho, Session.advancedBy]

theorem Sound.advancedBy (h : s.Sound) (ho : s.outstanding = some ⟨offset, size⟩) :
    (s.advancedBy size).Sound := by
  obtain ⟨hadd, hle⟩ := h.toNat_advanced ho
  have hpos := (h.range_of_outstanding _ ho).2.1
  exact
    { delivered_le := by
        rw [UInt64.le_iff_toNat_le]
        show (s.delivered + size).toNat ≤ s.declaredSize.toNat
        omega
      outstanding_iff := by simp [Session.advancedBy]
      range_of_outstanding := by simp [Session.advancedBy]
      delivered_eq_zero := by simp [Session.advancedBy]
      delivered_pos := by
        intro _
        rw [UInt64.lt_iff_toNat_lt] at hpos ⊢
        show 0 < (s.delivered + size).toNat
        simp only [UInt64.toNat_zero] at hpos
        omega }

theorem Sound.acceptPayload (h : s.Sound) : (s.acceptPayload offset size held).2.Sound := by
  rcases s.acceptPayload_cases offset size held with ⟨_, e⟩ | e | ⟨-, ho, -, _, e⟩
  · rw [e]; exact h
  · rw [e]; exact h
  · rw [e]; exact h.advancedBy ho

/-- The count of violations is not part of the invariant. -/
theorem Sound.counted (h : s.Sound) (violations : UInt32) : Sound { s with violations } :=
  ⟨h.delivered_le, h.outstanding_iff, h.range_of_outstanding, h.delivered_eq_zero, h.delivered_pos⟩

theorem Sound.recordViolation (h : s.Sound) : s.recordViolation.2.Sound := h.counted _

theorem Sound.finished (h : s.Sound) (o : Outcome) :
    Sound { s with phase := .done o, outstanding := none } where
  delivered_le := h.delivered_le
  outstanding_iff := by simp
  range_of_outstanding := by simp
  delivered_eq_zero := by simp
  delivered_pos := by simp

theorem Sound.finish (h : s.Sound) (success : Bool) : (s.finish success).2.Sound := by
  rcases s.finish_cases success with ⟨-, e⟩ | ⟨-, e⟩
  · rw [e]; exact h
  · rw [e]; exact h.finished _

end PullIngest.Session
