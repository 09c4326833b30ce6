import Mathlib.Data.List.Nodup
import PullIngest.Proofs.Server.Create

/-!
# Runs of a server

A server with the coordinators of all its sessions. Create requests, events of the coordinators,
exits and reaps come in any order, at any times, and what the bus takes is arbitrary in every step.

* `Service`, `Step`, `Reachable`: states, steps and runs;
* `Sound`: the registered sessions are those with a running coordinator, and ids are given once;
* `sound_of_reachable`: every reachable state is sound.
-/

namespace PullIngest

namespace Registry

theorem has_create (r : Registry) (id name : String) (size : UInt64) (j : String) :
    (r.create id name size).has j = true ↔ id = j ∨ r.has j = true := by
  simp only [has, create, Table.has, Table.get?_set]
  split_ifs with h <;> simp [h]

theorem has_remove (r : Registry) (id j : String) :
    (r.remove id).has j = true ↔ id ≠ j ∧ r.has j = true := by
  simp only [has, remove, Table.has, Table.get?_erase]
  split_ifs with h <;> simp [h]

/-- A session that is taken back leaves nothing behind. -/
theorem remove_create {r : Registry} {id name : String} {size : UInt64} (h : r.has id = false) :
    (r.create id name size).remove id = r := by
  unfold create remove
  rw [Table.erase_set h]

theorem has_update (r : Registry) (s : Session) (j : String) : (r.update s).has j = r.has j := by
  unfold has update Table.has Table.modify
  cases h : r.sessions.get? s.id with
  | none => rfl
  | some old =>
    dsimp only
    rw [Table.get?_set]
    split_ifs with e
    · rw [← e, h]; rfl
    · rfl

end Registry

open Coordinator

/-- A server with the coordinators of its sessions. -/
structure Service where
  server : Server
  storage : Storage
  /-- The coordinators that run, each with the id of the request that opened its session. -/
  running : List (String × Coordinator) := []
  /-- The request ids of coordinators that have exited and are not reaped yet. -/
  exited : List String := []
  /-- The session ids that were drawn so far. -/
  issued : List String := []
  stopping : Bool := false

namespace Service

/-- A server that has not taken any request. -/
def start (policy : Policy) (destination : Destination) (storage : Storage) : Service where
  server := { policy, destination }
  storage

/-- The service after a create request, with a fresh id at hand. -/
def answer (s : Service) (accepts : Channel → Bool) (now : ℕ) (fresh : String)
    (request : Message) : Service :=
  let t := s.server.handleCreate accepts now s.storage fresh request
  { s with server := t.server, storage := t.storage
           running := s.running ++ (t.opened.map fun c => (request.id, c)).toList
           issued := fresh :: s.issued }

/-- The service after a turn of one coordinator that goes on. -/
def advance (s : Service) (before after : List (String × Coordinator)) (k : String) (t : Turn) :
    Service :=
  { s with server := s.server.report t.coordinator.session
           storage := t.storage
           running := before ++ (k, t.coordinator) :: after }

/-- The service after the last turn of one coordinator. -/
def retire (s : Service) (before after : List (String × Coordinator)) (k : String) (t : Turn) :
    Service :=
  { s with server := (s.server.report t.coordinator.session).unregister t.coordinator.session.id
           storage := t.storage
           running := before ++ after
           exited := s.exited ++ [k] }

/-- The steps of a service. -/
inductive Step : Service → Service → Prop
  | create {s : Service} (hs : s.stopping = false) {fresh : String} (hf : fresh ∉ s.issued)
      (accepts : Channel → Bool) (now : ℕ) (request : Message) :
      Step s (s.answer accepts now fresh request)
  | advance {s : Service} {before after : List (String × Coordinator)} {k : String}
      {c : Coordinator} (hr : s.running = before ++ (k, c) :: after) {e : Event}
      (he : e = .shutdown → s.stopping = true) (accepts : Channel → Bool) (now : ℕ)
      (hn : (c.take ⟨e, accepts, now, s.storage⟩).coordinator.stage ≠ .exited) :
      Step s (s.advance before after k (c.take ⟨e, accepts, now, s.storage⟩))
  | retire {s : Service} {before after : List (String × Coordinator)} {k : String}
      {c : Coordinator} (hr : s.running = before ++ (k, c) :: after) {e : Event}
      (he : e = .shutdown → s.stopping = true) (accepts : Channel → Bool) (now : ℕ)
      (hx : (c.take ⟨e, accepts, now, s.storage⟩).coordinator.stage = .exited) :
      Step s (s.retire before after k (c.take ⟨e, accepts, now, s.storage⟩))
  /-- The server notices that some coordinator has exited. -/
  | reap {s : Service} {before after : List String} {k : String}
      (hx : s.exited = before ++ k :: after) :
      Step s { s with server := s.server.reap k, exited := before ++ after }
  | stop {s : Service} : Step s { s with stopping := true }
  /-- Somebody else changes the disk. -/
  | disturb {s : Service} (disk : Disk) : Step s { s with storage := { s.storage with disk } }

/-- What can be reached from a state, in any order of steps. -/
inductive Reachable (s₀ : Service) : Service → Prop
  | start : Reachable s₀ s₀
  | step {s s' : Service} (h : Reachable s₀ s) (hs : Step s s') : Reachable s₀ s'

/-! ### What is registered -/

/-- The ids of the sessions whose coordinators run. -/
def liveIds (s : Service) : List String := s.running.map fun p => p.2.session.id

/-- The registered sessions are those with a running coordinator, and no id is given twice. -/
structure Sound (s : Service) : Prop where
  has_iff : ∀ id, s.server.registry.has id = true ↔ id ∈ s.liveIds
  nodup : s.liveIds.Nodup
  live_issued : ∀ id ∈ s.liveIds, id ∈ s.issued
  accepted_issued : ∀ k id, s.server.accepted.get? k = some id → id ∈ s.issued

theorem sound_start (policy : Policy) (destination : Destination) (storage : Storage) :
    Sound (start policy destination storage) where
  has_iff id := by simp [start, liveIds, Registry.has, Table.has]
  nodup := List.nodup_nil
  live_issued id h := absurd h List.not_mem_nil
  accepted_issued k id h := by simp [start] at h

variable {s s' : Service}

section Create

variable {accepts : Channel → Bool} {now : ℕ} {fresh : String} {request : Message}

/-- What a create request does to a service: only the id is drawn, and a session that was registered
under it is struck out again, or a session is opened that no accepted session stands against. -/
theorem answer_cases (s : Service) (accepts : Channel → Bool) (now : ℕ) (fresh : String)
    (request : Message) :
    (s.server.handleCreate accepts now s.storage fresh request).opened = none ∧
      (∃ storage registry, (∀ id, registry.has id = true → s.server.registry.has id = true) ∧
        (s.server.registry.has fresh = false → registry = s.server.registry) ∧
        s.answer accepts now fresh request =
          { s with server := { s.server with registry }, storage, issued := fresh :: s.issued }) ∨
    s.server.acceptedSession? request.id = none ∧
      ∃ c name size storage, c.session = .new fresh name size ∧
        s.answer accepts now fresh request =
          { s with
            server := { s.server with
              registry := s.server.registry.create fresh name size
              accepted := s.server.accepted.set request.id fresh }
            storage
            running := s.running ++ [(request.id, c)]
            issued := fresh :: s.issued } := by
  have ha := s.server.handleCreate_cases accepts now s.storage fresh request
  unfold answer
  generalize s.server.handleCreate accepts now s.storage fresh request = t at ha ⊢
  cases ha with
  | repeats h =>
    exact .inl ⟨rfl, s.storage, s.server.registry, fun _ hi => hi, fun _ => rfl, by simp⟩
  | refuses h code line text =>
    exact .inl ⟨rfl, s.storage, s.server.registry, fun _ hi => hi, fun _ => rfl,
      by simp [Server.refuse]⟩
  | @withdraws h create e storage' hc hv hk =>
    refine .inl ⟨rfl, storage', (s.server.registry.create fresh create.name create.size).remove fresh,
      fun id hi => ?_, Registry.remove_create, by simp [Server.refuse, Server.unregister,
        Server.register]⟩
    obtain ⟨hne, hi⟩ := (Registry.has_remove _ _ _).1 hi
    exact ((Registry.has_create _ _ _ _ _).1 hi).resolve_left hne
  | @opens h create sink storage' hc hv hk =>
    exact .inr ⟨h, _, create.name, create.size, storage', rfl, rfl⟩

theorem Sound.answer (h : Sound s) (hf : fresh ∉ s.issued) (accepts : Channel → Bool) (now : ℕ)
    (request : Message) : Sound (s.answer accepts now fresh request) := by
  obtain ⟨-, storage, registry, -, hsame, e⟩ | ⟨-, c, name, size, storage, hc, e⟩ :=
    s.answer_cases accepts now fresh request
  · have hnew : s.server.registry.has fresh = false :=
      Bool.eq_false_iff.2 fun hi => hf (h.live_issued fresh ((h.has_iff fresh).1 hi))
    rw [e, hsame hnew]
    exact
      { has_iff := h.has_iff
        nodup := h.nodup
        live_issued := fun id hi => List.mem_cons_of_mem _ (h.live_issued id hi)
        accepted_issued := fun k id hk => List.mem_cons_of_mem _ (h.accepted_issued k id hk) }
  · have hlive : (s.answer accepts now fresh request).liveIds = s.liveIds ++ [fresh] := by
      rw [e]; simp [liveIds, hc, Session.new]
    rw [e] at hlive ⊢
    constructor
    · intro id
      rw [hlive, Registry.has_create, h.has_iff, List.mem_append, List.mem_singleton, or_comm,
        eq_comm]
    · rw [hlive]
      -- The id was not drawn before, so no live session has it.
      have hnew : fresh ∉ s.liveIds := fun hi => hf (h.live_issued fresh hi)
      simpa [List.nodup_append] using ⟨h.nodup, fun id hi e => hnew (e ▸ hi)⟩
    · intro id hi
      rw [hlive, List.mem_append, List.mem_singleton] at hi
      rcases hi with hi | rfl
      · exact List.mem_cons_of_mem _ (h.live_issued id hi)
      · exact List.mem_cons_self
    · intro k id hk
      simp only [Table.get?_set] at hk
      split_ifs at hk
      · obtain rfl := Option.some.inj hk
        exact List.mem_cons_self
      · exact List.mem_cons_of_mem _ (h.accepted_issued k id hk)

end Create

section Turn

variable {before after : List (String × Coordinator)} {k : String} {c : Coordinator}
  (hr : s.running = before ++ (k, c) :: after) (x : Occasion)

include hr

theorem liveIds_eq : s.liveIds = before.map (fun p => p.2.session.id) ++
    c.session.id :: after.map fun p => p.2.session.id := by
  simp [liveIds, hr]

theorem liveIds_advance : (s.advance before after k (c.take x)).liveIds = s.liveIds := by
  rw [liveIds_eq hr, liveIds_eq (c := (c.take x).coordinator) rfl, (sameFile_take c x).id_eq]

theorem mem_liveIds_retire (h : s.liveIds.Nodup) (id : String) :
    id ∈ (s.retire before after k (c.take x)).liveIds ↔ c.session.id ≠ id ∧ id ∈ s.liveIds := by
  have hlive : (s.retire before after k (c.take x)).liveIds
      = before.map (fun p => p.2.session.id) ++ after.map fun p => p.2.session.id := by
    simp [liveIds, retire]
  -- The id of the session that ends is not among the others.
  rw [liveIds_eq hr, List.nodup_middle, List.nodup_cons] at h
  rw [hlive, liveIds_eq hr]
  simp only [List.mem_append, List.mem_cons] at h ⊢
  constructor
  · intro hi
    refine ⟨fun e => h.1 (e ▸ hi), ?_⟩
    tauto
  · rintro ⟨hne, hi⟩
    have : id ≠ c.session.id := hne.symm
    tauto

theorem Sound.advance (h : Sound s) : Sound (s.advance before after k (c.take x)) := by
  have hlive := liveIds_advance hr x
  refine ⟨fun id => ?_, ?_, ?_, h.accepted_issued⟩
  · rw [hlive, ← h.has_iff]
    exact iff_of_eq (congrArg (· = true) (Registry.has_update _ _ _))
  · rw [hlive]; exact h.nodup
  · rw [hlive]; exact h.live_issued

theorem Sound.retire (h : Sound s) : Sound (s.retire before after k (c.take x)) := by
  have hmem := mem_liveIds_retire hr x h.nodup
  refine ⟨fun id => ?_, ?_, fun id hi => h.live_issued id ((hmem id).1 hi).2, h.accepted_issued⟩
  · rw [hmem, ← h.has_iff, ← (sameFile_take c x).id_eq]
    unfold Service.retire Server.unregister Server.report
    rw [Registry.has_remove, Registry.has_update]
  · have hsub : (s.retire before after k (c.take x)).liveIds.Sublist s.liveIds := by
      rw [liveIds_eq hr]
      simp [liveIds, Service.retire]
    exact h.nodup.sublist hsub

end Turn

/-- Every step keeps a service sound. -/
theorem Sound.step (h : Sound s) (hs : Step s s') : Sound s' := by
  cases hs with
  | create hn hf accepts now request => exact h.answer hf accepts now request
  | advance hr he accepts now hn => exact h.advance hr _
  | retire hr he accepts now hx => exact h.retire hr _
  | @reap before after k hx =>
    refine ⟨h.has_iff, h.nodup, h.live_issued, fun k' id hk => h.accepted_issued k' id ?_⟩
    -- What is left after forgetting one request was there before.
    simp only [Server.reap, Table.get?_erase] at hk
    split_ifs at hk
    exact hk
  | stop => exact ⟨h.has_iff, h.nodup, h.live_issued, h.accepted_issued⟩
  | disturb disk => exact ⟨h.has_iff, h.nodup, h.live_issued, h.accepted_issued⟩

/-- Every reachable state is sound. -/
theorem Sound.reachable (h : Sound s) (hs : Reachable s s') : Sound s' := by
  induction hs with
  | start => exact h
  | step _ hstep ih => exact ih.step hstep

theorem sound_of_reachable {policy : Policy} {destination : Destination} {storage : Storage}
    (h : Reachable (start policy destination storage) s) : Sound s :=
  (sound_start policy destination storage).reachable h

end Service

end PullIngest
