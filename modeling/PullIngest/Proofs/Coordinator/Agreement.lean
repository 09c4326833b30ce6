import PullIngest.Proofs.Coordinator.Turn

/-!
# Turns that agree

What a turn does outside the log depends on little of what the coordinator finds: on the event, on
the time, on whether the bus takes a request for the session, and on what the sink makes of the
storage. So one coordinator does the same in two places that agree on this much.

* `Sink.Blind`: sinks that do not tell two storages apart, those that keep everything in memory
  among them (`Sink.blind_memory`);
* `Agree`, `Alike`: what the two places have in common, and what two turns have in common;
* `take_alike`: turns in places that agree are alike;
* `take_elsewhere`: a turn of a session that is kept in memory leaves what is kept of others.
-/

namespace PullIngest

@[simp] theorem Session.nextRequest_id (s : Session) (chunk : UInt64) :
    (s.nextRequest chunk).2.id = s.id := by
  rcases s.nextRequest_cases chunk with ⟨_, e⟩ | ⟨-, e⟩ | ⟨-, -, e⟩ | ⟨-, -, -, e⟩ <;> rw [e]
  rfl

/-- Sinks of the kind `P` do the same with two storages that are related by `R`, and leave two
storages that are still related. -/
structure Sink.Blind (P : Sink → Prop) (R : Storage → Storage → Prop) : Prop where
  accept : ∀ {k s s'}, P k → R s s' → ∀ offset data,
    (∃ e, k.accept s offset data = .error e ∧ k.accept s' offset data = .error e) ∨
      ∃ k' t t', k.accept s offset data = .ok (k', t) ∧ k.accept s' offset data = .ok (k', t') ∧
        P k' ∧ R t t'
  finalize : ∀ {k s s'}, P k → R s s' → ∃ verdict k' t t' log log',
    k.finalize s = (verdict, k', t, log) ∧ k.finalize s' = (verdict, k', t', log') ∧ P k' ∧ R t t'
  fail : ∀ {k s s'}, P k → R s s' → ∀ reason, ∃ k' t t' log log',
    k.fail s reason = (k', t, log) ∧ k.fail s' reason = (k', t', log') ∧ P k' ∧ R t t'

/-- Every sink does the same with the same storage. -/
theorem Sink.blind_eq : Sink.Blind (fun _ => True) Eq where
  accept {k s s'} _ h offset data := by
    subst h
    cases ha : k.accept s offset data with
    | error e => exact .inl ⟨e, rfl, rfl⟩
    | ok r => exact .inr ⟨r.1, r.2, r.2, rfl, rfl, trivial, rfl⟩
  finalize {k s s'} _ h := by
    subst h
    exact ⟨_, _, _, _, _, _, rfl, rfl, trivial, rfl⟩
  fail {k s s'} _ h reason := by
    subst h
    exact ⟨_, _, _, _, _, rfl, rfl, trivial, rfl⟩

/-- The sink keeps the bytes of a session in memory. -/
def Sink.IsMemory (session : String) (k : Sink) : Prop := ∃ m, k = .memory m ∧ m.session = session

/-- Such a sink never looks at the storage, and leaves the verdict on its session there. -/
theorem Sink.blind_memory {R : Storage → Storage → Prop} (session : String)
    (hcomplete : ∀ s s' bytes, R s s' → R (s.complete session bytes) (s'.complete session bytes))
    (hfailure : ∀ s s' reason, R s s' →
      R (s.recordFailure session reason) (s'.recordFailure session reason)) :
    Sink.Blind (Sink.IsMemory session) R where
  accept := by
    rintro k s s' ⟨m, rfl, hm⟩ h offset data
    unfold Sink.accept MemorySink.accept
    dsimp only
    split_ifs
    · exact .inl ⟨_, rfl, rfl⟩
    · exact .inl ⟨_, rfl, rfl⟩
    · exact .inr ⟨_, s, s', rfl, rfl, ⟨_, rfl, hm⟩, h⟩
  finalize := by
    rintro k s s' ⟨m, rfl, rfl⟩ h
    unfold Sink.finalize MemorySink.finalize
    dsimp only
    split_ifs
    · exact ⟨_, _, _, _, _, _, rfl, rfl, ⟨_, rfl, rfl⟩, hfailure s s' _ h⟩
    · exact ⟨_, _, _, _, _, _, rfl, rfl, ⟨_, rfl, rfl⟩, hcomplete s s' _ h⟩
  fail := by
    rintro k s s' ⟨m, rfl, rfl⟩ h reason
    exact ⟨_, _, _, _, _, rfl, rfl, ⟨_, rfl, rfl⟩, hfailure s s' reason h⟩

namespace Coordinator

open Action

variable {P : Sink → Prop} {R : Storage → Storage → Prop}

/-- Two occasions agree on everything that matters to a session outside the log. -/
structure Agree (R : Storage → Storage → Prop) (session : String) (x y : Occasion) : Prop where
  event_eq : y.event = x.event
  now_eq : y.now = x.now
  accepts_eq : y.accepts (.request session) = x.accepts (.request session)
  storage : R x.storage y.storage

/-- Two turns leave the same coordinator behind and do the same outside the log. -/
structure Alike (P : Sink → Prop) (R : Storage → Storage → Prop) (t u : Turn) : Prop where
  coordinator_eq : u.coordinator = t.coordinator
  outward_eq : outward u.actions = outward t.actions
  storage : R t.storage u.storage
  sink : P t.coordinator.sink

section Parts

variable {c : Coordinator} {accepts accepts' : Channel → Bool} {s s' : Storage}
  {as as' : List Action}

theorem conclude_alike (hk : P c.sink) (hs : R s s') (ha : outward as' = outward as) (now : ℕ)
    (success : Bool) :
    Alike P R (c.conclude accepts now success s as) (c.conclude accepts' now success s' as') :=
  ⟨rfl, by simp [conclude, ha], hs, hk⟩

theorem finalize_alike (hb : Sink.Blind P R) (hk : P c.sink) (hs : R s s')
    (ha : outward as' = outward as) (now : ℕ) :
    Alike P R (c.finalize accepts now s as) (c.finalize accepts' now s' as') := by
  obtain ⟨verdict, k', t, t', log, log', h, h', hk', ht⟩ := hb.finalize hk hs
  unfold finalize
  rw [h, h']
  exact conclude_alike hk' ht (by simp [ha]) now verdict

theorem abort_alike (hb : Sink.Blind P R) (hk : P c.sink) (hs : R s s')
    (ha : outward as' = outward as) (now : ℕ) (why : Abort) :
    Alike P R (c.abort accepts now s as why) (c.abort accepts' now s' as' why) := by
  obtain ⟨k', t, t', log, log', h, h', hk', ht⟩ := hb.fail hk hs why.message
  unfold abort
  rw [h, h']
  exact conclude_alike hk' ht (by simp [ha]) now false

theorem requestNext_alike (hb : Sink.Blind P R) (hk : P c.sink) (hs : R s s')
    (ha : outward as' = outward as)
    (hacc : accepts' (.request c.session.id) = accepts (.request c.session.id)) (now : ℕ) :
    Alike P R (c.requestNext accepts now s as) (c.requestNext accepts' now s' as') := by
  have hid := c.session.nextRequest_id c.policy.chunkSize
  unfold requestNext
  generalize c.session.nextRequest c.policy.chunkSize = answer at hid ⊢
  obtain ⟨outcome, session⟩ := answer
  dsimp only at hid
  cases outcome with
  | error e => exact abort_alike (c := { c with session }) hb hk hs ha now (.transfer e)
  | ok range =>
    cases range with
    | none => exact finalize_alike (c := { c with session }) hb hk hs ha now
    | some r =>
      -- Only here does it matter what the bus takes.
      dsimp only
      rw [hid, hacc]
      split_ifs
      · exact ⟨rfl, by simp [ha], hs, hk⟩
      · exact abort_alike (c := { c with session }) hb hk hs (by simp [ha]) now _

theorem progress_alike (hb : Sink.Blind P R) (hk : P c.sink) (hs : R s s')
    (ha : outward as' = outward as)
    (hacc : accepts' (.request c.session.id) = accepts (.request c.session.id)) (now : ℕ) :
    Alike P R (c.progress accepts now s as) (c.progress accepts' now s' as') :=
  requestNext_alike (c := { c with stage := .pulling (now + c.policy.idleTimeout.millis) }) hb hk
    hs ha hacc now

theorem violation_alike (hb : Sink.Blind P R) (hk : P c.sink) (hs : R s s') (now : ℕ)
    (text : String) :
    Alike P R (c.violation accepts now s text) (c.violation accepts' now s' text) := by
  unfold violation
  dsimp only
  split_ifs
  · exact abort_alike (c := { c with session := c.session.recordViolation.2 }) hb hk hs rfl now _
  · exact ⟨rfl, rfl, hs, hk⟩

theorem onStart_alike (hb : Sink.Blind P R) (hk : P c.sink) (hs : R s s')
    (hacc : accepts' (.request c.session.id) = accepts (.request c.session.id)) (now : ℕ) :
    Alike P R (c.onStart accepts now s) (c.onStart accepts' now s') := by
  unfold onStart
  rcases c.session.start_cases with ⟨-, e⟩ | ⟨-, e⟩
  · rw [e]
    exact progress_alike (c := { c with session := { c.session with phase := .started } }) hb hk hs
      rfl hacc now
  · rw [e]
    exact ⟨rfl, rfl, hs, hk⟩

theorem onResponse_alike (hb : Sink.Blind P R) (hk : P c.sink) (hs : R s s')
    (hacc : accepts' (.request c.session.id) = accepts (.request c.session.id)) (now : ℕ)
    (m : Message) :
    Alike P R (c.onResponse accepts now s m) (c.onResponse accepts' now s' m) := by
  unfold onResponse
  split
  · exact violation_alike hb hk hs now _
  · next r hr =>
    split
    · exact violation_alike hb hk hs now _
    · next data hd =>
      rcases c.session.acceptPayload_cases r.offset r.size data.length with
        ⟨e, h⟩ | h | ⟨-, -, -, _, h⟩
      · rw [h]
        dsimp only
        split_ifs
        · exact abort_alike hb hk hs rfl now _
        · exact violation_alike hb hk hs now _
      · rw [h]
        exact ⟨rfl, rfl, hs, hk⟩
      · rw [h]
        dsimp only
        rcases hb.accept hk hs r.offset data with
          ⟨e, he, he'⟩ | ⟨k', t, t', he, he', hk', ht⟩
        · rw [he, he']
          exact abort_alike (c := { c with session := c.session.advancedBy r.size }) hb hk hs rfl
            now _
        · rw [he, he']
          exact progress_alike (c := { c with session := c.session.advancedBy r.size, sink := k' })
            hb hk' ht rfl hacc now

end Parts

/-- Turns on occasions that agree are alike. -/
theorem take_alike (hb : Sink.Blind P R) {c : Coordinator} (hk : P c.sink) {x y : Occasion}
    (h : Agree R c.session.id x y) : Alike P R (c.take x) (c.take y) := by
  obtain ⟨hevent, hnow, hacc, hs⟩ := h
  unfold take step
  rw [hevent, hnow]
  cases hstage : c.stage with
  | pulling deadline =>
    cases x.event with
    | start m => exact onStart_alike hb hk hs hacc x.now
    | response m => exact onResponse_alike hb hk hs hacc x.now m
    | cancel m => exact abort_alike hb hk hs rfl x.now _
    | closed inbox => exact abort_alike hb hk hs rfl x.now _
    | timer => exact abort_alike hb hk hs rfl x.now _
    | shutdown => exact abort_alike hb hk hs rfl x.now _
  | lingering success expiry =>
    cases x.event with
    | start m => exact ⟨rfl, by simp, hs, hk⟩
    | closed inbox => cases inbox <;> exact ⟨rfl, rfl, hs, hk⟩
    | _ => exact ⟨rfl, rfl, hs, hk⟩
  | exited => exact ⟨rfl, rfl, hs, hk⟩

/-- What is kept in memory of one session. -/
def kept (id : String) (s : Storage) : Option (List UInt8) × Option String :=
  (s.completed.get? id, s.failures.get? id)

/-- A session that is kept in memory stays there, and what is kept of others stays as it is. -/
theorem take_elsewhere {c : Coordinator} (hk : c.sink.IsMemory c.session.id) (x : Occasion) :
    (c.take x).coordinator.sink.IsMemory c.session.id ∧
      ∀ id, id ≠ c.session.id → kept id (c.take x).storage = kept id x.storage := by
  have hself {R : Storage → Storage → Prop} (hs : R x.storage x.storage) :
      Agree R c.session.id x x := ⟨rfl, rfl, rfl, hs⟩
  constructor
  · have hb := Sink.blind_memory (R := fun _ _ => True) c.session.id (fun _ _ _ _ => trivial)
      fun _ _ _ _ => trivial
    exact (take_alike hb hk (hself trivial)).sink
  · intro id hid
    -- One storage stands on both sides of the relation.
    have hb := Sink.blind_memory (R := fun s _ => kept id s = kept id x.storage) c.session.id
      (fun s s' bytes h => by
        rw [← h]
        unfold kept Storage.complete
        rw [Table.get?_set_ne _ hid.symm])
      fun s s' reason h => by
        rw [← h]
        unfold kept Storage.recordFailure
        rw [Table.get?_set_ne _ hid.symm]
    exact (take_alike hb hk (hself rfl)).storage

end Coordinator

end PullIngest
