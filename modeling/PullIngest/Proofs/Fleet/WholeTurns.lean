import PullIngest.Proofs.Fleet.Steps

/-!
# Whole turns

A task that nobody interrupts does one action of its turn after the other.

* `Fleet.reachable_acts`: the actions of a task, whichever it is;
* `Fleet.reachable_uploadTurn`, `Fleet.reachable_runTurn`, `Fleet.reachable_answer`: a turn from the
  event to the last action.
-/

namespace PullIngest

open Action

namespace Fleet

variable {k : ℕ} {s s' s'' : Fleet k} {key : String}

theorem Reachable.trans (h : Reachable s s') (h' : Reachable s' s'') : Reachable s s'' := by
  induction h' with
  | start => exact h
  | step _ hs ih => exact ih.step hs

theorem Reachable.of_step (h : Step s key s') : Reachable s s' := .step .start h

theorem published_cons (a : Action) (as : List Action) :
    published (a :: as) = published [a] ++ published as := List.filterMap_append (l := [a])

/-! ### What is left of a turn -/

/-- A task does everything that its turn has left to do. The states in between are `f` of the bus,
of the mailboxes of the task, of what is left and of what was published. -/
theorem reachable_acts
    {f : Bus Message → Table Channel ℕ → List Action → List (Channel × Message) → Fleet k}
    (hf : ∀ b mailboxes a rest sent, ∃ key, Step (f b mailboxes (a :: rest) sent) key
      (f (b.carry mailboxes a).1 (b.carry mailboxes a).2 rest (sent ++ published [a])))
    (b : Bus Message) (mailboxes : Table Channel ℕ) (todo : List Action)
    (sent : List (Channel × Message)) :
    Reachable (f b mailboxes todo sent) (f (b.carryAll mailboxes todo).1
      (b.carryAll mailboxes todo).2 [] (sent ++ published todo)) := by
  induction todo generalizing b mailboxes sent with
  | nil =>
    rw [show sent ++ published [] = sent from List.append_nil sent]
    exact .start
  | cons a rest ih =>
    obtain ⟨key, hstep⟩ := hf b mailboxes a rest sent
    have hrest := ih (b.carry mailboxes a).1 (b.carry mailboxes a).2 (sent ++ published [a])
    rw [List.append_assoc, ← published_cons] at hrest
    exact (Reachable.of_step hstep).trans hrest

/-- An uploader finishes its turn. -/
theorem reachable_uploadActs {i : Fin k} {u : Uploader} {mailboxes : Table Channel ℕ}
    {todo : List Action} (h : s.uploads i = ⟨u, mailboxes, todo⟩) :
    Reachable s { s with
      bus := (s.bus.carryAll mailboxes todo).1
      uploads := Function.update s.uploads i ⟨u, (s.bus.carryAll mailboxes todo).2, []⟩
      sent := s.sent ++ published todo } := by
  have hacts := reachable_acts (f := fun bus mailboxes todo sent =>
    { s with bus, uploads := Function.update s.uploads i ⟨u, mailboxes, todo⟩, sent })
    (fun b mailboxes a rest sent => by
      have hself := Function.update_self i ⟨u, mailboxes, a :: rest⟩ s.uploads
      have hstep : Step { s with
        bus := b, uploads := Function.update s.uploads i ⟨u, mailboxes, a :: rest⟩, sent } _ _ :=
        .uploadAct (congrArg Upload.todo hself)
      unfold Fleet.uploadAct at hstep
      dsimp only at hstep
      rw [hself, Function.update_idem] at hstep
      exact ⟨_, hstep⟩) s.bus mailboxes todo s.sent
  rw [← h, Function.update_eq_self] at hacts
  exact hacts

/-- The server finishes its answer. -/
theorem reachable_deskActs {mailboxes : Table Channel ℕ} {todo : List Action}
    {opened : Option Coordinator} (h : s.desk = .answering key todo mailboxes opened) :
    Reachable s { s with
      bus := (s.bus.carryAll mailboxes todo).1
      desk := .answering key [] (s.bus.carryAll mailboxes todo).2 opened
      sent := s.sent ++ published todo } := by
  have hacts := reachable_acts (f := fun bus mailboxes todo sent =>
    { s with bus, desk := .answering key todo mailboxes opened, sent })
    (fun b mailboxes a rest sent => ⟨_, .deskAct rfl⟩) s.bus mailboxes todo s.sent
  rw [← h] at hacts
  exact hacts

/-- A coordinator finishes its turn. -/
theorem reachable_runActs {before after : List Run} {c : Coordinator} {mailboxes : Table Channel ℕ}
    {todo : List Action} (h : s.runs key = before ++ ⟨c, mailboxes, todo⟩ :: after) :
    Reachable s { s with
      bus := (s.bus.carryAll mailboxes todo).1
      runs := Function.update s.runs key
        (before ++ ⟨c, (s.bus.carryAll mailboxes todo).2, []⟩ :: after)
      sent := s.sent ++ published todo } := by
  have hacts := reachable_acts (f := fun bus mailboxes todo sent =>
    { s with bus, sent, runs := Function.update s.runs key (before ++ ⟨c, mailboxes, todo⟩ :: after) })
    (fun b mailboxes a rest sent => by
      have hself := Function.update_self key (before ++ ⟨c, mailboxes, a :: rest⟩ :: after) s.runs
      have hstep : Step { s with
        bus := b, sent
        runs := Function.update s.runs key (before ++ ⟨c, mailboxes, a :: rest⟩ :: after) } _ _ :=
        .runAct hself rfl
      unfold Fleet.runAct at hstep
      dsimp only at hstep
      rw [Function.update_idem] at hstep
      exact ⟨_, hstep⟩) s.bus mailboxes todo s.sent
  rw [← h, Function.update_eq_self] at hacts
  exact hacts

/-! ### Whole turns -/

/-- A turn of an uploader. -/
theorem reachable_uploadTurn {i : Fin k} (ht : (s.uploads i).todo = []) {e : UploadEvent}
    {b : Bus Message} (he : (s.uploads i).Hears s.bus e b) (now : ℕ) {u : Uploader}
    {todo : List Action}
    (hr : (s.uploads i).uploader.step b.takes now s.storage.disk e = (u, todo)) :
    Reachable s { s with
      bus := (b.carryAll (s.uploads i).mailboxes todo).1
      uploads := Function.update s.uploads i
        ⟨u, (b.carryAll (s.uploads i).mailboxes todo).2, []⟩
      sent := s.sent ++ published todo } := by
  have huploads : (s.uploadTurn i e b now).uploads =
      Function.update s.uploads i ⟨u, (s.uploads i).mailboxes, todo⟩ := by
    unfold Fleet.uploadTurn
    rw [hr]
  have hacts := reachable_uploadActs (s := s.uploadTurn i e b now) (i := i)
    (by rw [huploads, Function.update_self])
  rw [huploads, Function.update_idem] at hacts
  exact (Reachable.of_step (.uploadTurn ht he now)).trans hacts

/-- An uploader that has returned has no mailboxes in the end. -/
theorem reachable_uploadLeave {i : Fin k} {u : Uploader} {mailboxes : Table Channel ℕ}
    (h : s.uploads i = ⟨u, mailboxes, []⟩) (hu : u.result?.isSome) :
    Reachable s { s with
      bus := s.bus.release mailboxes
      uploads := Function.update s.uploads i ⟨u, ∅, []⟩ } := by
  by_cases hkeys : mailboxes.keys = []
  · obtain ⟨ps⟩ := mailboxes
    obtain rfl : ps = [] := List.map_eq_nil_iff.1 hkeys
    have he : Function.update s.uploads i ⟨u, ∅, []⟩ = s.uploads := by
      rw [show (⟨u, ∅, []⟩ : Upload) = s.uploads i from h.symm, Function.update_eq_self]
    rw [he]
    exact .start
  · have hstep : Step s _ (s.uploadLeave i) :=
      .uploadLeave (by rw [h]) (by rw [h]; exact hu) (by rw [h]; exact hkeys)
    unfold Fleet.uploadLeave at hstep
    rw [h] at hstep
    exact .of_step hstep

/-- A turn of a coordinator. -/
theorem reachable_runTurn {before after : List Run} {c c' : Coordinator}
    {mailboxes : Table Channel ℕ} (h : s.runs key = before ++ ⟨c, mailboxes, []⟩ :: after)
    {e : Event} {b : Bus Message} (he : Run.Hears s.bus ⟨c, mailboxes, []⟩ e b) (now : ℕ)
    {storage : Storage} {todo : List Action}
    (hr : c.step b.takes now s.storage e = ⟨c', storage, todo⟩) :
    Reachable s { s with
      bus := (b.carryAll mailboxes todo).1
      storage
      server := s.server.report c'.session
      runs := Function.update s.runs key
        (before ++ ⟨c', (b.carryAll mailboxes todo).2, []⟩ :: after)
      sent := s.sent ++ published todo } := by
  have hstep : Step s key (s.runTurn key before ⟨c, mailboxes, []⟩ after e b now) :=
    .runTurn h rfl he now
  unfold Fleet.runTurn at hstep
  dsimp only at hstep
  rw [hr] at hstep
  have hacts := reachable_runActs (s := { s with
    bus := b
    storage
    server := s.server.report c'.session
    runs := Function.update s.runs key (before ++ ⟨c', mailboxes, todo⟩ :: after) })
    (Function.update_self _ _ _)
  rw [Function.update_idem] at hacts
  exact (Reachable.of_step hstep).trans hacts

/-- The whole answer to a create request. -/
theorem reachable_answer {m : Message} (hd : s.desk = .holding m) {fresh : String}
    (hf : fresh ∉ s.issued.map Prod.snd) (now : ℕ) {y : Server.Turn}
    (hy : s.server.handleCreate s.bus.takes now s.storage fresh m = y) :
    Reachable s { s with
      server := y.server
      storage := y.storage
      bus := (s.bus.carryAll ∅ y.actions).1
      desk := .idle
      runs := Function.update s.runs m.id (s.runs m.id ++
        (y.opened.map fun c => ⟨c, (s.bus.carryAll ∅ y.actions).2, []⟩).toList)
      issued := (m.id, fresh) :: s.issued
      sent := s.sent ++ published y.actions } := by
  have hstep : Step s m.id (s.answer m fresh now) := .answer hd hf now
  unfold Fleet.answer at hstep
  dsimp only at hstep
  rw [hy] at hstep
  have hacts := (Reachable.of_step hstep).trans (reachable_deskActs rfl)
  exact hacts.trans (.of_step (.launch rfl))

end Fleet

end PullIngest
