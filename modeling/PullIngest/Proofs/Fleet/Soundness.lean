import PullIngest.Proofs.Fleet.Queue

/-!
# Soundness of a fleet

In every state that a fleet reaches all of its uploads are dialogues that go well
(`sound_of_reachable`), and every step leaves less to do (`Sound.step`).
-/

namespace PullIngest.Fleet

open Action

variable {k : ℕ} {policy : Policy} {disk : Disk} {us : Fin k → Uploader} {s s' : Fleet k}
  {i : Fin k} {x x' : Dialogue} {mailboxes : Table Channel ℕ} {key : String}

/-- Uploads that a server can serve at the same time. -/
structure Setting (policy : Policy) (disk : Disk) (us : Fin k → Uploader) : Prop where
  few : k ≤ Bus.capacity
  chunk_ne_zero : policy.chunkSize ≠ 0
  apart : Function.Injective fun i => (us i).correlation
  fit : ∀ i, (us i).Fit disk

/-! ### Steps -/

section

variable (hu : Setting policy disk us)
include hu

theorem Sound.ahead (h : s.Sound policy disk us) (hs : s.Shows (us i) i x mailboxes)
    (ha : Advances policy disk (us i) s s' i x') (hx : x.Ahead policy.chunkSize (us i) x')
    (hexited : s'.exited = s.exited) : s'.Sound policy disk us ∧ s'.measure < s.measure := by
  refine ⟨h.advance hu.apart ha hx.position, h.measure_lt hu.apart hs ha ?_⟩
  rw [hexited]
  have := hx.load_lt
  omega

theorem Sound.uploadTurn (h : s.Sound policy disk us) (ht : (s.uploads i).todo = [])
    {e : UploadEvent} {b : Bus Message} (he : (s.uploads i).Hears s.bus e b) (now : ℕ) :
    (s.uploadTurn i e b now).Sound policy disk us ∧
      (s.uploadTurn i e b now).measure < s.measure := by
  obtain ⟨x, mailboxes, hs, hp⟩ := h.lanes i
  obtain ⟨ins, hx, hw, hg⟩ := hs.hears h.toOrderly hp.nodup he
  have hcreate : x.calls = [] → b.takes .create = true := by
    intro hcalls
    obtain ⟨q, hq, hroom⟩ := h.room hu.few hs hcalls
    exact Bus.accepts_of_unreadOn ((hg.elsewhere .create fun hc => hc).trans hq) hroom
  have hopen : ∀ c, (c, []) ∈ x.outs → b.takes c = true := fun c hc => hw.accepts (.inr hc)
  obtain ⟨stage, todo, hstep, hahead⟩ :=
    hp.uploadTurn (hs.todo ▸ ht) hx hu.chunk_ne_zero (hu.fit i) hcreate hopen now
  exact h.ahead hu hs (hs.uploadTurn h.toOrderly hw hg hstep) hahead rfl

theorem Sound.uploadAct (h : s.Sound policy disk us) {a : Action} {rest : List Action}
    (ht : (s.uploads i).todo = a :: rest) :
    (s.uploadAct i a rest).Sound policy disk us ∧ (s.uploadAct i a rest).measure < s.measure := by
  obtain ⟨x, mailboxes, hs, hp⟩ := h.lanes i
  have ht' : x.todo = a :: rest := hs.todo ▸ ht
  by_cases hcall : ∃ m, a = .publish .create m
  · obtain ⟨m, rfl⟩ := hcall
    obtain ⟨rfl, hcalls, hahead⟩ := hp.uploadCall ht'
    obtain ⟨q, hq, hroom⟩ := h.room hu.few hs hcalls
    exact h.ahead hu hs (hs.uploadCall h.toOrderly hq hroom rfl hcalls rest) hahead rfl
  · obtain ⟨hsmooth, hahead⟩ := hp.uploadAct ht' fun he => hcall ⟨_, he⟩
    exact h.ahead hu hs (hs.uploadAct h.toOrderly hsmooth rest) hahead rfl

theorem Sound.uploadLeave (h : s.Sound policy disk us)
    (hr : (s.uploads i).uploader.result?.isSome) (hm : (s.uploads i).mailboxes.keys ≠ []) :
    (s.uploadLeave i).Sound policy disk us ∧ (s.uploadLeave i).measure < s.measure := by
  obtain ⟨x, mailboxes, hs, hp⟩ := h.lanes i
  obtain ⟨r, hr⟩ := Option.isSome_iff_exists.1 hr
  have hstage : x.stage = .finished r := hs.stage_eq ▸ Uploader.result?_eq_some.1 hr
  have hins : x.ins ≠ [] := by
    intro he
    rw [hs.wires.near.keys, he] at hm
    exact hm rfl
  exact h.ahead hu hs (hs.uploadLeave h.toOrderly hp.nodup) (hp.uploadLeave hstage hins) rfl

theorem Sound.take (h : s.Sound policy disk us) (hd : s.desk = .idle) {m : Message}
    {b : Bus Message} (hm : s.bus.take? s.requests = some (m, b)) :
    ({ s with bus := b, desk := .holding m } : Fleet k).Sound policy disk us ∧
      ({ s with bus := b, desk := .holding m } : Fleet k).measure < s.measure := by
  obtain ⟨q', hq⟩ := h.requests
  obtain ⟨q, rfl, -⟩ := Bus.unreadOn_take h.wired hq hm
  have hcalls : s.calls m.id = m :: q.filter fun m' => m'.id = m.id := by
    rw [calls_eq hq]
    simp
  obtain ⟨i, hid⟩ := h.exists_lane (.inr (.inr (by rw [hcalls]; simp)))
  obtain ⟨x, mailboxes, hs, hp⟩ := h.lanes i
  rw [hid, hs.calls] at hcalls
  obtain ⟨hstaff, hahead⟩ := hp.take hcalls
  exact h.ahead hu hs (hs.take h.toOrderly hd hm hid hcalls hstaff) hahead rfl

theorem Sound.answer (h : s.Sound policy disk us) {m : Message} (hd : s.desk = .holding m)
    {fresh : String} (hf : fresh ∉ s.issued.map Prod.snd) (now : ℕ) :
    (s.answer m fresh now).Sound policy disk us ∧ (s.answer m fresh now).measure < s.measure := by
  have habout : s.desk.about m.id = .holding m := by
    rw [hd]
    exact about_self rfl
  obtain ⟨i, hid⟩ := h.exists_lane (.inl (by rw [habout]; simp))
  obtain ⟨x, mailboxes, hs, hp⟩ := h.lanes i
  have hstaff : x.staff = .holding m := by
    have hstaff := hs.staff
    rw [← hid, habout] at hstaff
    generalize s.runs m.id = runs, x.staff = staff at hstaff ⊢
    cases hstaff
    rfl
  obtain ⟨hm, hins, hsession, hasked, hahead⟩ := hp.answer hstaff
  have hvacant : ∀ c, c.belongs (us i).correlation (some fresh) →
      ¬ c.belongs (us i).correlation none → s.bus.on c = [] := by
    intro c hc hnone
    by_contra hne
    rcases h.vacant c hne with rfl | ⟨j, hj⟩
    · exact hc
    · cases c with
      | create => exact hc
      | reply => exact hnone hc
      | start | request | response | cancel | done =>
        -- The session of another upload would have the fresh id.
        obtain rfl := Option.some.inj hc
        exact hf (List.mem_map_of_mem (mem_of_lookup hj))
  obtain ⟨c, hphase, hserving, ha⟩ := hs.answer h.toOrderly hd hm hins hsession hasked (hu.fit i) hf
    hvacant now
  exact h.ahead hu hs ha (hahead fresh c hserving hphase) rfl

theorem Sound.deskAct (h : s.Sound policy disk us) {a : Action} {rest : List Action}
    {mailboxes : Table Channel ℕ} {opened : Option Coordinator}
    (hd : s.desk = .answering key (a :: rest) mailboxes opened) :
    (s.deskAct key a rest mailboxes opened).Sound policy disk us ∧
      (s.deskAct key a rest mailboxes opened).measure < s.measure := by
  obtain ⟨i, x, rfl, hs, hp, hstaff⟩ := h.exists_answering hd
  obtain ⟨hsmooth, hahead⟩ := hp.deskAct hstaff
  exact h.ahead hu hs (hs.deskAct h.toOrderly hd hsmooth) hahead rfl

theorem Sound.launch (h : s.Sound policy disk us) {mailboxes : Table Channel ℕ}
    {opened : Option Coordinator} (hd : s.desk = .answering key [] mailboxes opened) :
    (s.launch key mailboxes opened).Sound policy disk us ∧
      (s.launch key mailboxes opened).measure < s.measure := by
  obtain ⟨i, x, rfl, hs, hp, hstaff⟩ := h.exists_answering hd
  obtain ⟨c, rfl, hahead⟩ := hp.launch hstaff
  exact h.ahead hu hs (hs.launch h.toOrderly hd) hahead rfl

omit hu in
/-- Forgetting a request changes nothing for the uploads. -/
theorem Sound.reap (h : s.Sound policy disk us) {before after : List String}
    (hx : s.exited = before ++ key :: after) :
    let s' : Fleet k := { s with server := s.server.reap key, exited := before ++ after }
    s'.Sound policy disk us ∧ s'.measure < s.measure := by
  intro s'
  refine ⟨?_, ?_⟩
  · exact
      { wired := h.wired
        requests := h.requests
        policy_eq := h.policy_eq
        destination_eq := h.destination_eq
        disk_eq := h.disk_eq
        accepted := fun key' hkey' => by
          show (s.server.accepted.erase key).get? key' = none
          rw [Table.get?_erase]
          split_ifs
          · rfl
          · exact h.accepted key' hkey'
        distinct := h.distinct
        asked := h.asked
        lanes := fun i => by
          obtain ⟨x, mailboxes, hs, hp⟩ := h.lanes i
          exact ⟨x, mailboxes, { hs with }, hp⟩
        vacant := h.vacant
        known := h.known }
  · show ∑ i, s.load i + (before ++ after).length < ∑ i, s.load i + s.exited.length
    rw [hx]
    simp

theorem Sound.runTurn (h : s.Sound policy disk us) {before after : List Run} {r : Run}
    (hr : s.runs key = before ++ r :: after) (ht : r.todo = []) {e : Event} {b : Bus Message}
    (he : r.Hears s.bus e b) (now : ℕ) :
    (s.runTurn key before r after e b now).Sound policy disk us ∧
      (s.runTurn key before r after e b now).measure < s.measure := by
  obtain ⟨i, x, rfl, hs, hp, hstaff⟩ := h.exists_running hr
  rw [ht] at hstaff
  obtain ⟨outs, hx, hw, hg⟩ := hs.runHears h.toOrderly hp.nodup rfl he
  have hopen : ∀ c, (c, []) ∈ x.ins → b.takes c = true := fun c hc => hw.accepts (.inl hc)
  obtain ⟨hdisk, hahead⟩ := hp.runTurn hstaff hx hu.chunk_ne_zero hopen now s.storage
  exact h.ahead hu hs (hs.runTurn h.toOrderly hr hw hg hdisk) hahead rfl

theorem Sound.runAct (h : s.Sound policy disk us) {before after : List Run} {r : Run} {a : Action}
    {rest : List Action} (hr : s.runs key = before ++ r :: after) (ht : r.todo = a :: rest) :
    (s.runAct key before r after a rest).Sound policy disk us ∧
      (s.runAct key before r after a rest).measure < s.measure := by
  obtain ⟨i, x, rfl, hs, hp, hstaff⟩ := h.exists_running hr
  rw [ht] at hstaff
  obtain ⟨hsmooth, hahead⟩ := hp.runAct hstaff
  exact h.ahead hu hs (hs.runAct h.toOrderly hr hsmooth rest) hahead rfl

theorem Sound.runLeave (h : s.Sound policy disk us) {before after : List Run} {r : Run}
    (hr : s.runs key = before ++ r :: after) (ht : r.todo = [])
    (hx : r.coordinator.stage = .exited) :
    (s.runLeave key before r after).Sound policy disk us ∧
      (s.runLeave key before r after).measure < s.measure := by
  obtain ⟨i, x, rfl, hs, hp, hstaff⟩ := h.exists_running hr
  rw [ht] at hstaff
  obtain ⟨hposition, hload⟩ := hp.runLeave hstaff hx
  have ha := hs.runLeave h.toOrderly hp.nodup hr
  refine ⟨h.advance hu.apart ha hposition, h.measure_lt hu.apart hs ha ?_⟩
  -- What is left to do for the upload pays for what is left to reap.
  show _ + (s.exited ++ [(us i).correlation]).length < _
  rw [List.length_append, List.length_singleton]
  omega

/-- Every step leaves less to do. -/
theorem Sound.step (h : s.Sound policy disk us) (hs : Step s key s') :
    s'.Sound policy disk us ∧ s'.measure < s.measure := by
  cases hs with
  | uploadTurn ht he now => exact h.uploadTurn hu ht he now
  | uploadAct ht => exact h.uploadAct hu ht
  | uploadLeave ht hr hm => exact h.uploadLeave hu hr hm
  | take hd hm => exact h.take hu hd hm
  | answer hd hf now => exact h.answer hu hd hf now
  | deskAct hd => exact h.deskAct hu hd
  | launch hd => exact h.launch hu hd
  | reap hd hx => exact h.reap hx
  | runTurn hr ht he now => exact h.runTurn hu hr ht he now
  | runAct hr ht => exact h.runAct hu hr ht
  | runLeave hr ht hx => exact h.runLeave hu hr ht hx

end

/-! ### Runs -/

theorem on_start (policy : Policy) (storage : Storage) (us : Fin k → Uploader) :
    (start policy storage us).bus.on =
      Function.update (fun _ : Channel => []) .create [((start policy storage us).requests, [])] :=
  Bus.on_update (Bus.unreadOn_subscribe Bus.wired_empty Channel.create.name)

theorem sound_start {storage : Storage} (hw : ∀ i, (us i).stage = .waiting) :
    (start policy storage us).Sound policy storage.disk us := by
  have hon := on_start policy storage us
  have hcalls : ∀ key, (start policy storage us).calls key = [] := by
    intro key
    unfold calls
    rw [hon, Function.update_self]
    rfl
  have hvacant : ∀ c, c ≠ .create → (start policy storage us).bus.on c = [] := by
    intro c hc
    rw [hon, Function.update_of_ne hc]
  refine ⟨?_, fun i => ⟨{ stage := .waiting }, ∅, ?_, .waiting⟩, fun c hc => ?_, fun key _ => ?_⟩
  · exact
      { wired := Bus.wired_empty.subscribe _
        requests := ⟨[], by rw [hon, Function.update_self]⟩
        policy_eq := rfl
        destination_eq := rfl
        disk_eq := rfl
        accepted := fun _ _ => rfl
        distinct := List.nodup_nil
        asked := fun _ h => absurd rfl h }
  · exact
      { uploader := by
          rw [← hw i]
          rfl
        todo := rfl
        staff := .absent
        wires := ⟨.empty _, .empty _, by simp, fun c hc hne => absurd (hvacant c hc.ne_create) hne⟩
        calls := hcalls _
        session := rfl
        asked := fun _ h => by cases h }
  · by_contra hnot
    exact hc (hvacant c fun he => hnot (.inl he))
  · exact ⟨rfl, rfl, hcalls key⟩

theorem sound_of_reachable {storage : Storage} (hu : Setting policy storage.disk us)
    (hw : ∀ i, (us i).stage = .waiting) (h : Reachable (start policy storage us) s) :
    s.Sound policy storage.disk us := by
  induction h with
  | start => exact sound_start hw
  | step _ hs ih => exact (ih.step hu hs).1

end PullIngest.Fleet
