import PullIngest.Proofs.Coordinator.Reasons

/-!
# Turns that do not look at the count of violations

Apart from a faulty message, a turn does the same whatever number of violations was counted before.

* `Session.start_recount` and the like: what a session does with another count;
* `take_recount`: a turn with another count is the same turn with another count (`Turn.recount`).
-/

namespace PullIngest

namespace Session

variable (s : Session) (violations : UInt32)

theorem start_recount :
    (s.recount violations).start = (s.start.1, s.start.2.recount violations) := by
  rcases s.start_cases with ⟨hp, e⟩ | ⟨hp, e⟩
  · rw [e, start, if_pos (show (s.recount violations).phase = .created from hp)]
    rfl
  · rw [e, start, if_neg (show (s.recount violations).phase ≠ .created from hp)]

theorem nextRequest_recount (chunk : UInt64) :
    (s.recount violations).nextRequest chunk
      = ((s.nextRequest chunk).1, (s.nextRequest chunk).2.recount violations) := by
  by_cases hc : chunk = 0
  · unfold nextRequest
    rw [if_pos hc, if_pos hc]
  · obtain ⟨id, name, size, phase, delivered, outstanding, count⟩ := s
    unfold nextRequest recount
    rw [if_neg hc, if_neg hc]
    cases phase with
    | created | awaitingResponse | done => rfl
    | started | requesting =>
      dsimp only
      split_ifs <;> rfl

theorem acceptPayload_recount (offset size : UInt64) (held : ℕ) :
    (s.recount violations).acceptPayload offset size held
      = ((s.acceptPayload offset size held).1,
        (s.acceptPayload offset size held).2.recount violations) := by
  unfold acceptPayload recount inBounds
  dsimp only
  split_ifs <;> rfl

theorem finish_recount (success : Bool) :
    ((s.recount violations).finish success).2 = (s.finish success).2.recount violations := by
  unfold finish recount
  dsimp only
  split_ifs <;> rfl

end Session

namespace Coordinator

/-- The turn with another count of violations behind it. -/
def Turn.recount (t : Turn) (violations : UInt32) : Turn :=
  { t with coordinator := t.coordinator.recount violations }

@[simp] theorem recount_recount (c : Coordinator) (v w : UInt32) :
    (c.recount v).recount w = c.recount w := rfl

variable (c : Coordinator) (accepts : Channel → Bool) (now : ℕ) (storage : Storage)
  (actions : List Action) (v : UInt32)

theorem conclude_recount (success : Bool) :
    (c.recount v).conclude accepts now success storage actions
      = (c.conclude accepts now success storage actions).recount v := by
  have hfinish := c.session.finish_recount v success
  unfold conclude Turn.recount recount at *
  dsimp only at *
  rw [hfinish]
  rfl

theorem finalize_recount :
    (c.recount v).finalize accepts now storage actions
      = (c.finalize accepts now storage actions).recount v := by
  unfold finalize
  exact conclude_recount { c with sink := (c.sink.finalize storage).2.1 } accepts now _ _ v _

theorem abort_recount (why : Abort) :
    (c.recount v).abort accepts now storage actions why
      = (c.abort accepts now storage actions why).recount v := by
  unfold abort
  exact conclude_recount { c with sink := (c.sink.fail storage why.message).1 } accepts now _ _ v _

theorem requestNext_recount :
    (c.recount v).requestNext accepts now storage actions
      = (c.requestNext accepts now storage actions).recount v := by
  have hnext := c.session.nextRequest_recount v c.policy.chunkSize
  unfold requestNext
  rw [show (c.recount v).session.nextRequest (c.recount v).policy.chunkSize = _ from hnext]
  generalize c.session.nextRequest c.policy.chunkSize = answer
  obtain ⟨outcome, session⟩ := answer
  cases outcome with
  | error e => exact abort_recount { c with session } accepts now storage actions v _
  | ok range =>
    cases range with
    | none => exact finalize_recount { c with session } accepts now storage actions v
    | some r =>
      dsimp only
      rw [show (session.recount v).id = session.id from rfl]
      split_ifs
      · rfl
      · exact abort_recount { c with session } accepts now storage _ v _

theorem progress_recount :
    (c.recount v).progress accepts now storage actions
      = (c.progress accepts now storage actions).recount v :=
  requestNext_recount { c with stage := .pulling (now + c.policy.idleTimeout.millis) } accepts now
    storage actions v

theorem onStart_recount :
    (c.recount v).onStart accepts now storage = (c.onStart accepts now storage).recount v := by
  unfold onStart
  rw [show (c.recount v).session.start = _ from c.session.start_recount v]
  generalize c.session.start = answer
  obtain ⟨result, session⟩ := answer
  cases result with
  | started => exact progress_recount { c with session } accepts now storage [] v
  | alreadyStarted => rfl

theorem onResponse_recount {m : Message} (hf : ¬ c.session.Faulty m) :
    (c.recount v).onResponse accepts now storage m
      = (c.onResponse accepts now storage m).recount v := by
  unfold onResponse
  cases hm : m.payloadAs ChunkResponse .chunkResponse with
  | error e => exact absurd (Session.faulty_of_payloadAs hm) hf
  | ok r =>
    dsimp only
    cases hr : r.bytes with
    | error e => exact absurd (Session.faulty_of_bytes hm hr) hf
    | ok data =>
      have herror := @Session.acceptPayload_error c.session r.offset r.size data.length
      dsimp only
      rw [show (c.recount v).session.acceptPayload r.offset r.size data.length = _ from
        c.session.acceptPayload_recount v r.offset r.size data.length]
      generalize c.session.acceptPayload r.offset r.size data.length = answer at herror ⊢
      obtain ⟨outcome, session⟩ := answer
      cases outcome with
      | error e =>
        rcases herror rfl with rfl | ⟨-, ho, hl⟩
        · exact abort_recount c accepts now storage [] v _
        · exact absurd (Session.faulty_of_length hm hr ho hl) hf
      | ok result =>
        cases result with
        | stale => rfl
        | advanced delivered complete =>
          dsimp only
          rw [show (c.recount v).sink = c.sink from rfl]
          cases c.sink.accept storage r.offset data with
          | error e => exact abort_recount { c with session } accepts now storage _ v _
          | ok next =>
            exact progress_recount { c with session, sink := next.1 } accepts now next.2 _ v

/-- Only a faulty message makes a turn look at the count of violations. -/
theorem take_recount {x : Occasion}
    (hx : ∀ m, x.event = .response m → ∀ deadline, c.stage = .pulling deadline →
      ¬ c.session.Faulty m) :
    (c.recount v).take x = (c.take x).recount v := by
  unfold take step
  rw [show (c.recount v).stage = c.stage from rfl]
  cases hs : c.stage with
  | pulling deadline =>
    cases he : x.event with
    | start m => exact onStart_recount c x.accepts x.now x.storage v
    | response m => exact onResponse_recount c x.accepts x.now x.storage v (hx m he deadline hs)
    | cancel m => exact abort_recount c x.accepts x.now x.storage [] v _
    | closed inbox => exact abort_recount c x.accepts x.now x.storage [] v _
    | timer => exact abort_recount c x.accepts x.now x.storage [] v _
    | shutdown => exact abort_recount c x.accepts x.now x.storage [] v _
  | lingering success expiry =>
    cases x.event with
    | closed inbox => cases inbox <;> rfl
    | _ => rfl
  | exited => rfl

end Coordinator

end PullIngest
