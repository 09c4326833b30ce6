import PullIngest.Proofs.Coordinator.Reasons

/-!
# Responses that answer no open request

A response may come twice, come too late, or be for a range that nobody has asked for. A coordinator
decodes the payload before it looks at the range. So such a response does nothing if its payload
can be decoded, and is a violation if it cannot.

* `Late`: a response to a range of the file that is not outstanding;
* `Late.take_of_bytes`, `Late.take_of_garbled`: what a turn does with it;
* `Interspersed`: a run with such responses in it (`Interspersed.same`);
* `late_harmless_iff`: when a late response is harmless;
* `late_charged`: one that is not.
-/

namespace PullIngest

/-- A range that does not reach beyond the file. -/
theorem Session.inBounds_of_le {s : Session} {offset size : UInt64}
    (hlt : offset.toNat < s.declaredSize.toNat)
    (hle : offset.toNat + size.toNat ≤ s.declaredSize.toNat) : s.inBounds offset size = true := by
  have hmax := s.declaredSize.toNat_lt
  have hadd : (offset + size).toNat = offset.toNat + size.toNat := by
    rw [UInt64.toNat_add, Nat.mod_eq_of_lt (by omega)]
  unfold inBounds
  simp only [Bool.and_eq_true, decide_eq_true_eq]
  refine ⟨⟨Nat.lt_of_le_of_lt hle hmax, UInt64.lt_iff_toNat_lt.2 hlt⟩, ?_⟩
  rw [UInt64.le_iff_toNat_le, hadd]
  exact hle

/-- A response for a range of the file that is not outstanding is stale, however long its payload
is. -/
theorem Session.acceptPayload_of_not_outstanding {s : Session} {offset size : UInt64}
    (hin : s.inBounds offset size = true) (ho : s.outstanding ≠ some ⟨offset, size⟩) (held : ℕ) :
    s.acceptPayload offset size held = (.ok .stale, s) := by
  unfold acceptPayload
  split_ifs with hdone
  · rfl
  · simp [hin] at *
  · rfl

namespace Coordinator

open Action

variable {c : Coordinator} {x : Occasion} {r : ChunkResponse} {xs ys : List Occasion}

/-- The event is a response that can be read, for a range of the file that is not outstanding.
Nothing is said about its payload. -/
structure Late (c : Coordinator) (x : Occasion) (r : ChunkResponse) : Prop where
  event : ∃ m, x.event = .response m ∧ m.payloadAs ChunkResponse .chunkResponse = .ok r
  offset_lt : r.offset.toNat < c.session.declaredSize.toNat
  stop_le : r.offset.toNat + r.size.toNat ≤ c.session.declaredSize.toNat
  not_outstanding : c.session.outstanding ≠ some ⟨r.offset, r.size⟩

/-- A late response with a payload that can be decoded does nothing. -/
theorem Late.take_of_bytes (h : Late c x r) {data : List UInt8} (hr : r.bytes = .ok data) :
    c.take x = ⟨c, x.storage, []⟩ := by
  obtain ⟨m, hx, hm⟩ := h.event
  have hin := Session.inBounds_of_le h.offset_lt h.stop_le
  unfold Coordinator.take step
  rw [hx]
  cases c.stage with
  | pulling deadline =>
    dsimp only
    unfold onResponse
    rw [hm]
    dsimp only
    rw [hr]
    dsimp only
    rw [Session.acceptPayload_of_not_outstanding hin h.not_outstanding]
  | lingering success expiry => rfl
  | exited => rfl

/-- A late response with another payload is a violation, although its bytes are not wanted. -/
theorem Late.take_of_garbled (h : Late c x r) {deadline : ℕ} (hs : c.stage = .pulling deadline)
    {e : Base64.DecodeError} (hr : r.bytes = .error e) :
    c.take x = c.violation x.accepts x.now x.storage (TransferError.codec e).message := by
  obtain ⟨m, hx, hm⟩ := h.event
  unfold Coordinator.take step
  rw [hs, hx]
  dsimp only
  unfold onResponse
  rw [hm]
  dsimp only
  rw [hr]

theorem Late.charged_iff (h : Late c x r) {deadline : ℕ} (hs : c.stage = .pulling deadline) :
    c.Charged x ↔ ∃ e, r.bytes = .error e := by
  constructor
  · intro hc
    cases hr : r.bytes with
    | error e => exact ⟨e, rfl⟩
    | ok data =>
      unfold Charged at hc
      rw [h.take_of_bytes hr] at hc
      exact absurd rfl hc
  · rintro ⟨e, hr⟩ hsame
    rw [h.take_of_garbled hs hr, violations_violation] at hsame
    -- Even a count that wraps around is another one.
    have hcount := congrArg UInt32.toNat hsame
    have hlt := c.session.violations.toNat_lt
    rw [UInt32.toNat_add, UInt32.toNat_one] at hcount
    omega

/-- The run `ys` is the run `xs` with late responses in it whose payloads can be decoded. -/
inductive Interspersed : Coordinator → List Occasion → List Occasion → Prop
  | nil (c : Coordinator) : Interspersed c [] []
  | cons {c : Coordinator} (x : Occasion) {xs ys : List Occasion}
      (h : Interspersed (c.take x).coordinator xs ys) : Interspersed c (x :: xs) (x :: ys)
  | late {c : Coordinator} {y : Occasion} {r : ChunkResponse} {data : List UInt8}
      {xs ys : List Occasion} (hl : Late c y r) (hr : r.bytes = .ok data)
      (h : Interspersed c xs ys) : Interspersed c xs (y :: ys)

/-- Such responses leave the rest of a run as it is. -/
theorem Interspersed.same (h : Interspersed c xs ys) :
    c.after ys = c.after xs ∧ c.deeds ys = c.deeds xs := by
  induction h with
  | nil c => exact ⟨rfl, rfl⟩
  | cons x h ih =>
    rw [after_cons, after_cons, deeds_cons, deeds_cons]
    exact ⟨ih.1, congrArg _ ih.2⟩
  | late hl hr h ih =>
    rw [after_cons, deeds_cons, hl.take_of_bytes hr]
    exact ih

/-- **A late response is harmless exactly if its payload can be decoded.** In any run of a new
session that has no verdict yet, such a response with a payload that can be decoded changes nothing
at all, and a run with any number of them goes as it would without them. With another payload it is
counted as a violation. Then nothing else changes as long as the count is within the budget, and
the session fails at the next one. -/
theorem late_harmless_iff (policy : Policy) (id name : String) (size : UInt64) (sink : Sink)
    (now : ℕ) (xs : List Occasion) :
    let c := (new policy (.new id name size) sink now).after xs
    (∀ x r deadline, c.stage = .pulling deadline → Late c x r →
      (c.take x = ⟨c, x.storage, []⟩ ↔ ∃ data, r.bytes = .ok data) ∧
      ∀ e, r.bytes = .error e →
        let line := Action.log ("WARN protocol violation: " ++ (TransferError.codec e).message)
        let count := c.session.violations + 1
        c.take x = if policy.maxViolations < count then
            (c.recount count).abort x.accepts x.now x.storage [line] (.violations count)
          else ⟨c.recount count, x.storage, [line]⟩) ∧
    ∀ ys zs, Interspersed c ys zs → c.after zs = c.after ys ∧ c.deeds zs = c.deeds ys := by
  intro c
  have hpolicy : c.policy = policy := (sameFile_after _ xs).policy_eq
  refine ⟨fun x r deadline hs h => ⟨⟨fun htake => ?_, ?_⟩, fun e hr => ?_⟩, fun ys zs h => h.same⟩
  · cases hr : r.bytes with
    | ok data => exact ⟨data, rfl⟩
    | error e =>
      have hcharged := (h.charged_iff hs).2 ⟨e, hr⟩
      unfold Charged at hcharged
      rw [htake] at hcharged
      exact absurd rfl hcharged
  · rintro ⟨data, hr⟩
    exact h.take_of_bytes hr
  · rw [h.take_of_garbled hs hr, violation_eq, hpolicy]

namespace Early

/-- A session of two bytes that nobody has started, with a budget of violations. -/
def fresh (max : UInt32) : Coordinator :=
  .new { chunkSize := 1, maxViolations := max } (.new "s" "f" 2)
    (.memory { session := "s", size := 2 }) 0

/-- A start on a bus that takes everything. -/
def start : Occasion := ⟨.start (.signal "s" .start), fun _ => true, 0, {}⟩

/-- A response for the second byte. -/
def second (payload : String) : Occasion :=
  ⟨.response (.carrying "s" .chunkResponse (ChunkResponse.mk 1 1 payload)), fun _ => true, 0, {}⟩

/-- The session when it has asked for its first byte. -/
def asking (max : UInt32) : Coordinator :=
  { fresh max with session := (fresh max).session.awaiting ⟨0, 1⟩, stage := .pulling 30000 }

theorem nextRequest_started : (Session.new "s" "f" 2).start.2.nextRequest 1
    = (.ok (some ⟨0, 1⟩), (Session.new "s" "f" 2).awaiting ⟨0, 1⟩) := rfl

theorem after_start (max : UInt32) : (fresh max).after [start] = asking max := by
  have hchunk : (fresh max).policy.chunkSize = 1 := rfl
  have hidle : (fresh max).policy.idleTimeout.millis = 30000 := rfl
  show (requestNext { fresh max with
      session := (Session.new "s" "f" 2).start.2
      stage := .pulling (0 + (fresh max).policy.idleTimeout.millis) }
    (fun _ => true) 0 {} []).coordinator = asking max
  unfold requestNext
  dsimp only
  rw [hchunk, nextRequest_started]
  dsimp only
  rw [if_pos rfl, hidle]
  rfl

theorem stage_eq (max : UInt32) : ((fresh max).after [start]).stage = .pulling 30000 := by
  rw [after_start]
  rfl

/-- The second byte comes while the first is asked for. -/
theorem late (max : UInt32) (payload : String) :
    Late ((fresh max).after [start]) (second payload) ⟨1, 1, payload⟩ := by
  rw [after_start]
  refine ⟨⟨_, rfl, payloadAs_carrying ..⟩, ?_, ?_, ?_⟩
  · show (1 : UInt64).toNat < (2 : UInt64).toNat
    decide
  · show (1 : UInt64).toNat + (1 : UInt64).toNat ≤ (2 : UInt64).toNat
    decide
  · show some (ByteRange.mk 0 1) ≠ some ⟨1, 1⟩
    decide

theorem bytes_good : (ChunkResponse.mk 1 1 "AQ==").bytes = .ok [1] :=
  ChunkResponse.bytes_ofBytes 1 [1]

theorem bytes_bad : ∃ e, (ChunkResponse.mk 1 1 "!").bytes = .error e := by
  have hascii : ∀ b ∈ ([33] : List UInt8), b.toNat < 128 := by simp
  have hbytes : "!".toUTF8.toList = [33] := toUTF8_of_ascii hascii
  unfold ChunkResponse.bytes
  rw [hbytes]
  exact ⟨_, rfl⟩

end Early

/-- A byte that comes too early is dropped. -/
theorem early_byte_dropped :
    ((Early.fresh 0).after [Early.start]).stage = .pulling 30000 ∧
      Late ((Early.fresh 0).after [Early.start]) (Early.second "AQ==") ⟨1, 1, "AQ=="⟩ ∧
      ((Early.fresh 0).after [Early.start]).take (Early.second "AQ==")
        = ⟨(Early.fresh 0).after [Early.start], {}, []⟩ ∧
      ((Early.fresh 0).after [Early.start]).after [Early.second "AQ=="]
        = (Early.fresh 0).after [Early.start] := by
  have hs := Early.stage_eq 0
  have hl := Early.late 0 "AQ=="
  have hi : Interspersed ((Early.fresh 0).after [Early.start]) [] [Early.second "AQ=="] :=
    .late hl Early.bytes_good (.nil _)
  obtain ⟨hturn, hrun⟩ := late_harmless_iff { chunkSize := 1, maxViolations := 0 } "s" "f" 2
    (.memory { session := "s", size := 2 }) 0 [Early.start]
  exact ⟨hs, hl, (hturn _ _ 30000 hs hl).1.2 ⟨_, Early.bytes_good⟩, (hrun _ _ hi).1⟩

/-- A late response may be counted as a violation, and it may end the session. -/
theorem late_charged :
    (¬ ∀ (policy : Policy) (id name : String) (size : UInt64) (sink : Sink) (now : ℕ)
        (xs : List Occasion) (x : Occasion) (r : ChunkResponse) (deadline : ℕ),
      let c := (new policy (.new id name size) sink now).after xs
      c.stage = .pulling deadline → Late c x r → (c.take x).coordinator.session = c.session) ∧
    ¬ ∀ (policy : Policy) (id name : String) (size : UInt64) (sink : Sink) (now : ℕ)
        (xs : List Occasion) (x : Occasion) (r : ChunkResponse) (deadline : ℕ),
      let c := (new policy (.new id name size) sink now).after xs
      c.stage = .pulling deadline → Late c x r → (c.take x).coordinator.stage = c.stage := by
  obtain ⟨e, hbad⟩ := Early.bytes_bad
  have htake (max : UInt32) := (Early.late max "!").take_of_garbled (Early.stage_eq max) hbad
  constructor
  · intro h
    have hsame : (((Early.fresh 8).after [Early.start]).take (Early.second "!")).coordinator.session
        = ((Early.fresh 8).after [Early.start]).session :=
      h _ _ _ _ _ _ _ _ _ 30000 (Early.stage_eq 8) (Early.late 8 "!")
    rw [htake, Early.after_start] at hsame
    have hcount := congrArg Session.violations hsame
    cases hcount
  · intro h
    have hsame : (((Early.fresh 0).after [Early.start]).take (Early.second "!")).coordinator.stage
        = ((Early.fresh 0).after [Early.start]).stage :=
      h _ _ _ _ _ _ _ _ _ 30000 (Early.stage_eq 0) (Early.late 0 "!")
    rw [htake, Early.after_start] at hsame
    cases hsame

end Coordinator

end PullIngest
