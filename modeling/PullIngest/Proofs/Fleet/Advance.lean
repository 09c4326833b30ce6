import PullIngest.Proofs.Fleet.Lanes

/-!
# What the steps of a fleet do to its dialogues

Each kind of step carries the dialogue of one upload on and leaves all others alone.

* `Advances.of_bus`: a step that changes the bus on the channels of one dialogue only;
* `Shows.uploadTurn`, `Shows.uploadAct`, …: the dialogue after each kind of step.
-/

namespace PullIngest

open Action

variable {k : ℕ} {policy : Policy} {disk : Disk} {u : Uploader} {s s' : Fleet k} {i : Fin k}
  {x x' : Dialogue} {mailboxes : Table Channel ℕ} {key : String} {a : Action} {rest : List Action}

/-- A mailbox that is there is on a channel of its task alone. -/
theorem disjoint_of_nodup {boxes boxes' : List (Channel × List Message)}
    (h : ((boxes ++ boxes').map Prod.fst).Nodup) :
    ∀ c ∈ boxes.map Prod.fst, c ∉ boxes'.map Prod.fst := by
  rw [List.map_append] at h
  exact fun c hc hc' => (List.nodup_append.1 h).2.2 c hc c hc' rfl

/-- Only the dialogue of the session is asked for ranges. -/
theorem countP_published {session : Option String} {b : Bus Message}
    {mailboxes' : Table Channel ℕ} {boxes boxes' : List (Channel × List Message)}
    (hw : Wires (Channel.belongs key session) b mailboxes mailboxes' boxes boxes')
    (ha : a.Smooth (Channel.belongs key session) boxes boxes') (id : String) :
    (published [a]).countP (fun p => p.1 = .request id) = if session = some id then a.asks else 0 := by
  cases a with
  | publish c m =>
    have hown : c.belongs key session := by
      apply hw.own_of_mem
      exact ha.imp (fun hc => List.mem_map_of_mem hc) fun hc => List.mem_map_of_mem hc
    cases c with
    | request id' =>
      obtain rfl : session = some id' := hown
      simp [published, asks, List.countP_singleton]
    | _ => simp [published, asks]
  | _ => simp [published, asks]

namespace Fleet

/-- Nothing changes but the bus and what is done for one upload. -/
structure Steady (key : String) (i : Fin k) (s s' : Fleet k) : Prop where
  uploads : ∀ j, j ≠ i → s'.uploads j = s.uploads j
  desk : ∀ key', key' ≠ key → s'.desk.about key' = s.desk.about key'
  runs : ∀ key', key' ≠ key → s'.runs key' = s.runs key'
  requests : s'.requests = s.requests
  policy : s'.server.policy = s.server.policy
  destination : s'.server.destination = s.server.destination
  accepted : s'.server.accepted = s.server.accepted
  disk : s'.storage.disk = s.storage.disk
  issued : s'.issued = s.issued

/-- A step is given by what it changes: `{ Steady.refl key i s with … }`. -/
theorem Steady.refl (key : String) (i : Fin k) (s : Fleet k) : Steady key i s s where
  uploads _ _ := rfl
  desk _ _ := rfl
  runs _ _ := rfl
  requests := rfl
  policy := rfl
  destination := rfl
  accepted := rfl
  disk := rfl
  issued := rfl

theorem calls_eq_of_on (h : s'.bus.on .create = s.bus.on .create) (key : String) :
    s'.calls key = s.calls key := by
  unfold calls
  rw [h]

/-- A step on the channels of one dialogue. -/
theorem Advances.of_bus (ho : s.Orderly policy disk) (hs : s.Shows u i x mailboxes)
    (ht : Steady u.correlation i s s')
    (hg : Wires.Goes (Channel.belongs u.correlation x.session) s.bus s'.bus)
    (hasked : ∀ id, x.session ≠ some id → s'.asked id = s.asked id)
    (hs' : ∃ mailboxes, s'.Shows u i x' mailboxes) : Advances policy disk u s s' i x' := by
  have hcreate : s'.bus.on .create = s.bus.on .create := hg.elsewhere .create fun h => h
  have hsession : s'.issued.lookup u.correlation = x.session := by rw [ht.issued, hs.session]
  refine ⟨?_, ?_, hs'⟩
  · exact
      { wired := hg.wired
        requests := by
          rw [hcreate, ht.requests]
          exact ho.requests
        policy_eq := ht.policy.trans ho.policy_eq
        destination_eq := ht.destination.trans ho.destination_eq
        disk_eq := ht.disk.trans ho.disk_eq
        accepted := by
          rw [ht.issued, ht.accepted]
          exact ho.accepted
        distinct := by
          rw [ht.issued]
          exact ho.distinct
        asked := fun id hid => by
          rw [ht.issued]
          by_cases he : x.session = some id
          · rw [← hs.session] at he
            exact List.mem_map_of_mem (mem_of_lookup he)
          · rw [hasked id he] at hid
            exact ho.asked id hid }
  · exact
      { uploads := ht.uploads
        desk := ht.desk
        runs := ht.runs
        calls := fun key _ => calls_eq_of_on hcreate key
        issued := fun key _ => by rw [ht.issued]
        grows := fun id hid => by rw [ht.issued, hid]
        asked := fun id hid => hasked id (hsession ▸ hid)
        bus := fun c _ hc => hg.elsewhere c (hsession ▸ hc) }

/-! ### Uploaders -/

/-- What is published counts. -/
theorem asked_append (s : Fleet k) {s' : Fleet k} {ps : List (Channel × Message)}
    (h : s'.sent = s.sent ++ ps) (id : String) :
    s'.asked id = s.asked id + ps.countP fun p => p.1 = .request id := by
  unfold asked
  rw [h, List.countP_append]

/-- Actions of a dialogue count for its own session only. -/
theorem asked_published (s' : Fleet k) (h : s.Shows u i x mailboxes)
    (hps : ∀ id, (published [a]).countP (fun p => p.1 = .request id) =
      if x.session = some id then a.asks else 0) (hsent : s'.sent = s.sent ++ published [a]) :
    (∀ id, x.session ≠ some id → s'.asked id = s.asked id) ∧
      ∀ id, x.session = some id → s'.asked id = x.asked + a.asks := by
  refine ⟨fun id hid => ?_, fun id hid => ?_⟩
  · rw [asked_append s hsent, hps, if_neg hid, Nat.add_zero]
  · rw [asked_append s hsent, hps, if_pos hid, h.asked id hid]

theorem Shows.uploadAct (h : s.Shows u i x mailboxes) (ho : s.Orderly policy disk)
    (ha : a.Smooth (Channel.belongs u.correlation x.session) x.ins x.outs) (rest : List Action) :
    Advances policy disk u s (s.uploadAct i a rest) i (x.uploadAct a rest) := by
  obtain ⟨hwires, hgoes⟩ := h.wires.carry ho.wired ha
  obtain ⟨hothers, hasked⟩ :=
    asked_published (s.uploadAct i a rest) h (countP_published h.wires ha) rfl
  have hself : (s.uploadAct i a rest).uploads i =
      ⟨(s.uploads i).uploader, (s.bus.carry (s.uploads i).mailboxes a).2, rest⟩ :=
    Function.update_self _ _ _
  refine .of_bus ho h
    { Steady.refl u.correlation i s with uploads := fun j hj => Function.update_of_ne hj _ _ }
    hgoes hothers ⟨mailboxes, ?_⟩
  exact
    { uploader := by
        rw [hself]
        exact h.uploader
      todo := by
        rw [hself]
        rfl
      staff := h.staff
      wires := by
        rw [hself]
        exact hwires
      calls := (calls_eq_of_on (hgoes.elsewhere .create fun hc => hc) _).trans h.calls
      session := h.session
      asked := hasked }

/-- The uploader takes an event that the dialogue has for it. -/
theorem Shows.hears (h : s.Shows u i x mailboxes) (ho : s.Orderly policy disk)
    (hn : ((x.ins ++ x.outs).map Prod.fst).Nodup) {e : UploadEvent} {b : Bus Message}
    (he : (s.uploads i).Hears s.bus e b) :
    ∃ ins, x.UploadHears u e ins ∧
      Wires (Channel.belongs u.correlation x.session) b (s.uploads i).mailboxes mailboxes ins x.outs ∧
      Wires.Goes (Channel.belongs u.correlation x.session) s.bus b := by
  have htake : ∀ {c : Channel} {m : Message} {b : Bus Message},
      s.bus.Hears (s.uploads i).mailboxes c m b → (∃ q, (c, m :: q) ∈ x.ins) ∧
        Wires (Channel.belongs u.correlation x.session) b (s.uploads i).mailboxes mailboxes
          (pop c x.ins) x.outs ∧
        Wires.Goes (Channel.belongs u.correlation x.session) s.bus b := by
    rintro c m b ⟨n, hget, htake⟩
    obtain ⟨q, hq, -⟩ := h.wires.near.of_get? hget
    exact h.wires.take ho.wired hget htake (disjoint_of_nodup hn c (List.mem_map_of_mem hq))
  have hstage := h.stage_eq
  have hcorrelation : (s.uploads i).uploader.correlation = u.correlation := by rw [h.uploader]
  cases he with
  | begin hs => exact ⟨x.ins, .begin (hstage ▸ hs), h.wires, ho.wired, fun _ _ => rfl⟩
  | reply hs hm =>
    rw [hcorrelation] at hm
    obtain ⟨⟨q, hq⟩, hwires, hgoes⟩ := htake hm
    exact ⟨_, .reply (hstage.symm.trans hs) hq, hwires, hgoes⟩
  | request hs hm =>
    obtain ⟨⟨q, hq⟩, hwires, hgoes⟩ := htake hm
    exact ⟨_, .request (hstage.symm.trans hs) hq, hwires, hgoes⟩
  | done hs hm =>
    obtain ⟨⟨q, hq⟩, hwires, hgoes⟩ := htake hm
    exact ⟨_, .done (hstage.symm.trans hs) hq, hwires, hgoes⟩

theorem Shows.uploadTurn (h : s.Shows u i x mailboxes) (ho : s.Orderly policy disk)
    {e : UploadEvent} {b : Bus Message} {ins : List (Channel × List Message)}
    (hw : Wires (Channel.belongs u.correlation x.session) b (s.uploads i).mailboxes mailboxes ins
      x.outs)
    (hg : Wires.Goes (Channel.belongs u.correlation x.session) s.bus b) {now : ℕ}
    {stage : UploadStage} {todo : List Action}
    (ht : { u with stage := x.stage }.step b.takes now disk e = ({ u with stage }, todo)) :
    Advances policy disk u s (s.uploadTurn i e b now) i { x with stage, todo, ins } := by
  have hself : (s.uploadTurn i e b now).uploads i =
      ⟨{ u with stage }, (s.uploads i).mailboxes, todo⟩ := by
    rw [← ho.disk_eq, ← h.uploader] at ht
    unfold Fleet.uploadTurn
    rw [ht]
    exact Function.update_self _ _ _
  refine .of_bus ho h
    { Steady.refl u.correlation i s with uploads := fun j hj => Function.update_of_ne hj _ _ }
    hg (fun _ _ => rfl) ⟨mailboxes, ?_⟩
  exact
    { uploader := by rw [hself]
      todo := by rw [hself]
      staff := h.staff
      wires := by
        rw [hself]
        exact hw
      calls := (calls_eq_of_on (hg.elsewhere .create fun hc => hc) _).trans h.calls
      session := h.session
      asked := h.asked }

theorem Shows.uploadLeave (h : s.Shows u i x mailboxes) (ho : s.Orderly policy disk)
    (hn : ((x.ins ++ x.outs).map Prod.fst).Nodup) :
    Advances policy disk u s (s.uploadLeave i) i { x with ins := [] } := by
  have hins : (x.ins.map Prod.fst).Nodup := by
    rw [List.map_append] at hn
    exact (List.nodup_append.1 hn).1
  obtain ⟨hwires, hgoes⟩ := h.wires.release ho.wired hins (disjoint_of_nodup hn)
  have hself : (s.uploadLeave i).uploads i = ⟨(s.uploads i).uploader, ∅, (s.uploads i).todo⟩ :=
    Function.update_self _ _ _
  refine .of_bus ho h
    { Steady.refl u.correlation i s with uploads := fun j hj => Function.update_of_ne hj _ _ }
    hgoes (fun _ _ => rfl) ⟨mailboxes, ?_⟩
  exact
    { uploader := by
        rw [hself]
        exact h.uploader
      todo := by
        rw [hself]
        exact h.todo
      staff := h.staff
      wires := by
        rw [hself]
        exact hwires
      calls := (calls_eq_of_on (hgoes.elsewhere .create fun hc => hc) _).trans h.calls
      session := h.session
      asked := h.asked }

/-! ### The server -/

theorem about_self {d : Desk} (hd : d.correlation? = some key) : d.about key = d := if_pos hd

theorem about_of_ne {d : Desk} (hd : d.correlation? = some key) {key' : String} (hk : key' ≠ key) :
    d.about key' = .idle := by
  unfold Desk.about
  rw [hd, if_neg fun e => hk (Option.some.inj e).symm]

@[simp] theorem about_idle (key : String) : Desk.idle.about key = .idle := rfl

/-- The answer that the server is at. -/
theorem Shows.answering (h : s.Shows u i x mailboxes) {todo : List Action}
    {mailboxes' : Table Channel ℕ} {opened : Option Coordinator}
    (hd : s.desk = .answering u.correlation todo mailboxes' opened) :
    mailboxes = mailboxes' ∧ x.staff = .answering todo opened ∧ s.runs u.correlation = [] := by
  have hstaff := h.staff
  rw [hd, about_self rfl] at hstaff
  generalize s.runs u.correlation = runs, x.staff = staff at hstaff ⊢
  cases hstaff
  exact ⟨rfl, rfl, rfl⟩

theorem Shows.deskAct (h : s.Shows u i x mailboxes) (ho : s.Orderly policy disk)
    {mailboxes' : Table Channel ℕ} {opened : Option Coordinator}
    (hd : s.desk = .answering u.correlation (a :: rest) mailboxes' opened)
    (ha : a.Smooth (Channel.belongs u.correlation x.session) x.outs x.ins) :
    Advances policy disk u s (s.deskAct u.correlation a rest mailboxes' opened) i
      (x.deskAct a rest opened) := by
  obtain ⟨rfl, hstaff, hruns⟩ := h.answering hd
  obtain ⟨hwires, hgoes⟩ := h.wires.symm.carry ho.wired ha
  obtain ⟨hothers, hasked⟩ := asked_published
    (s.deskAct u.correlation a rest mailboxes opened) h (countP_published h.wires.symm ha) rfl
  refine .of_bus ho h { Steady.refl u.correlation i s with desk := fun key' hk => ?_ }
    hgoes hothers ⟨(s.bus.carry mailboxes a).2, ?_⟩
  · have hold : s.desk.about key' = .idle := by
      rw [hd]
      exact about_of_ne rfl hk
    exact (about_of_ne (by rfl) hk).trans hold.symm
  · exact
      { uploader := h.uploader
        todo := h.todo
        staff := by
          show (Staff.answering rest opened).Shows u.correlation (Desk.about _ u.correlation)
            (s.runs u.correlation) _
          rw [hruns, about_self rfl]
          exact .answering
        wires := hwires.symm
        calls := (calls_eq_of_on (hgoes.elsewhere .create fun hc => hc) _).trans h.calls
        session := h.session
        asked := hasked }

theorem Shows.launch (h : s.Shows u i x mailboxes) (ho : s.Orderly policy disk)
    {mailboxes' : Table Channel ℕ} {c : Coordinator}
    (hd : s.desk = .answering u.correlation [] mailboxes' (some c)) :
    Advances policy disk u s (s.launch u.correlation mailboxes' (some c)) i
      { x with staff := .running c [] } := by
  obtain ⟨rfl, hstaff, hruns⟩ := h.answering hd
  refine .of_bus ho h
    { Steady.refl u.correlation i s with
      desk := fun key' hk => ?_
      runs := fun key' hk => Function.update_of_ne hk _ _ }
    ⟨ho.wired, fun _ _ => rfl⟩ (fun _ _ => rfl) ⟨mailboxes, ?_⟩
  · have hold : s.desk.about key' = .idle := by
      rw [hd]
      exact about_of_ne rfl hk
    exact hold.symm
  · exact
      { uploader := h.uploader
        todo := h.todo
        staff := by
          show Staff.Shows u.correlation .idle (Function.update s.runs u.correlation _ u.correlation)
            _ _
          rw [Function.update_self, hruns]
          exact .running
        wires := h.wires
        calls := h.calls
        session := h.session
        asked := h.asked }

/-! ### Coordinators -/

/-- The coordinator of a dialogue is the only one for its request. -/
theorem Shows.run (h : s.Shows u i x mailboxes) {before after : List Run} {r : Run}
    (hr : s.runs u.correlation = before ++ r :: after) :
    before = [] ∧ after = [] ∧ mailboxes = r.mailboxes ∧ x.staff = .running r.coordinator r.todo ∧
      s.desk.about u.correlation = .idle := by
  have hstaff := h.staff
  rw [hr] at hstaff
  generalize hd : s.desk.about u.correlation = d, hruns : before ++ r :: after = runs,
    x.staff = staff at hstaff ⊢
  cases hstaff with
  | absent | holding | answering => simp at hruns
  | running =>
    obtain ⟨rfl, rfl, rfl⟩ : before = [] ∧ r = _ ∧ after = [] := by
      cases before with
      | nil => simpa using hruns
      | cons => simp at hruns
    exact ⟨rfl, rfl, rfl, rfl, rfl⟩

theorem Shows.runAct (h : s.Shows u i x mailboxes) (ho : s.Orderly policy disk)
    {before after : List Run} {r : Run} (hr : s.runs u.correlation = before ++ r :: after)
    (ha : a.Smooth (Channel.belongs u.correlation x.session) x.outs x.ins) (rest : List Action) :
    Advances policy disk u s (s.runAct u.correlation before r after a rest) i
      (x.runAct r.coordinator a rest) := by
  obtain ⟨rfl, rfl, rfl, hstaff, hdesk⟩ := h.run hr
  obtain ⟨hwires, hgoes⟩ := h.wires.symm.carry ho.wired ha
  obtain ⟨hothers, hasked⟩ := asked_published
    (s.runAct u.correlation [] r [] a rest) h (countP_published h.wires.symm ha) rfl
  refine .of_bus ho h
    { Steady.refl u.correlation i s with runs := fun key' hk => Function.update_of_ne hk _ _ }
    hgoes hothers ⟨(s.bus.carry r.mailboxes a).2, ?_⟩
  exact
    { uploader := h.uploader
      todo := h.todo
      staff := by
        show (Staff.running r.coordinator rest).Shows u.correlation (s.desk.about u.correlation)
          (Function.update s.runs u.correlation _ u.correlation) _
        rw [hdesk, Function.update_self]
        exact .running
      wires := hwires.symm
      calls := (calls_eq_of_on (hgoes.elsewhere .create fun hc => hc) _).trans h.calls
      session := h.session
      asked := hasked }

/-- The coordinator takes an event that the dialogue has for it. -/
theorem Shows.runHears (h : s.Shows u i x mailboxes) (ho : s.Orderly policy disk)
    (hn : ((x.ins ++ x.outs).map Prod.fst).Nodup) {r : Run} (hr : mailboxes = r.mailboxes)
    {e : Event} {b : Bus Message} (he : r.Hears s.bus e b) :
    ∃ outs, x.RunHears r.coordinator e outs ∧
      Wires (Channel.belongs u.correlation x.session) b (s.uploads i).mailboxes mailboxes x.ins outs ∧
      Wires.Goes (Channel.belongs u.correlation x.session) s.bus b := by
  subst hr
  have htake : ∀ {c : Channel} {m : Message} {b : Bus Message}, s.bus.Hears r.mailboxes c m b →
      (∃ q, (c, m :: q) ∈ x.outs) ∧
        Wires (Channel.belongs u.correlation x.session) b (s.uploads i).mailboxes r.mailboxes x.ins
          (pop c x.outs) ∧
        Wires.Goes (Channel.belongs u.correlation x.session) s.bus b := by
    rintro c m b ⟨n, hget, htake⟩
    obtain ⟨q, hq, -⟩ := h.wires.far.of_get? hget
    have hc : c ∉ x.ins.map Prod.fst := fun hc =>
      disjoint_of_nodup hn c hc (List.mem_map_of_mem hq)
    obtain ⟨hm, hwires, hgoes⟩ := h.wires.symm.take ho.wired hget htake hc
    exact ⟨hm, hwires.symm, hgoes⟩
  cases he with
  | start hs hm =>
    obtain ⟨⟨q, hq⟩, hwires, hgoes⟩ := htake hm
    exact ⟨_, .start hq, hwires, hgoes⟩
  | response hs hm =>
    obtain ⟨⟨q, hq⟩, hwires, hgoes⟩ := htake hm
    exact ⟨_, .response hq, hwires, hgoes⟩
  | cancel hs hm =>
    obtain ⟨⟨q, hq⟩, hwires, hgoes⟩ := htake hm
    exact ⟨_, .cancel hq, hwires, hgoes⟩
  | grace hs => exact ⟨_, .grace hs, h.wires, ho.wired, fun _ _ => rfl⟩

theorem Shows.runTurn (h : s.Shows u i x mailboxes) (ho : s.Orderly policy disk)
    {before after : List Run} {r : Run} (hr : s.runs u.correlation = before ++ r :: after)
    {e : Event} {b : Bus Message} {outs : List (Channel × List Message)}
    (hw : Wires (Channel.belongs u.correlation x.session) b (s.uploads i).mailboxes mailboxes x.ins
      outs)
    (hg : Wires.Goes (Channel.belongs u.correlation x.session) s.bus b) {now : ℕ}
    (hdisk : (r.coordinator.step b.takes now s.storage e).storage.disk = s.storage.disk) :
    Advances policy disk u s (s.runTurn u.correlation before r after e b now) i
      { x with
        staff := .running (r.coordinator.step b.takes now s.storage e).coordinator
          (r.coordinator.step b.takes now s.storage e).actions
        outs } := by
  obtain ⟨rfl, rfl, rfl, hstaff, hdesk⟩ := h.run hr
  refine .of_bus ho h
    { Steady.refl u.correlation i s with
      runs := fun key' hk => Function.update_of_ne hk _ _
      disk := hdisk }
    hg (fun _ _ => rfl) ⟨r.mailboxes, ?_⟩
  exact
    { uploader := h.uploader
      todo := h.todo
      staff := by
        show Staff.Shows u.correlation (s.desk.about u.correlation)
          (Function.update s.runs u.correlation _ u.correlation) _ _
        rw [hdesk, Function.update_self]
        exact .running
      wires := hw
      calls := (calls_eq_of_on (hg.elsewhere .create fun hc => hc) _).trans h.calls
      session := h.session
      asked := h.asked }

theorem Shows.runLeave (h : s.Shows u i x mailboxes) (ho : s.Orderly policy disk)
    (hn : ((x.ins ++ x.outs).map Prod.fst).Nodup) {before after : List Run} {r : Run}
    (hr : s.runs u.correlation = before ++ r :: after) :
    Advances policy disk u s (s.runLeave u.correlation before r after) i
      { x with staff := .absent, outs := [] } := by
  obtain ⟨rfl, rfl, rfl, hstaff, hdesk⟩ := h.run hr
  have houts : (x.outs.map Prod.fst).Nodup := by
    rw [List.map_append] at hn
    exact (List.nodup_append.1 hn).2.1
  have hfar : ∀ c ∈ x.outs.map Prod.fst, c ∉ x.ins.map Prod.fst := fun c hc hc' =>
    disjoint_of_nodup hn c hc' hc
  obtain ⟨hwires, hgoes⟩ := h.wires.symm.release ho.wired houts hfar
  refine .of_bus ho h
    { Steady.refl u.correlation i s with runs := fun key' hk => Function.update_of_ne hk _ _ }
    hgoes (fun _ _ => rfl) ⟨∅, ?_⟩
  exact
    { uploader := h.uploader
      todo := h.todo
      staff := by
        show Staff.Shows u.correlation (s.desk.about u.correlation)
          (Function.update s.runs u.correlation _ u.correlation) _ _
        rw [hdesk, Function.update_self]
        exact .absent
      wires := hwires.symm
      calls := (calls_eq_of_on (hgoes.elsewhere .create fun hc => hc) _).trans h.calls
      session := h.session
      asked := h.asked }

end Fleet

end PullIngest
