import PullIngest.Proofs.Fleet.Soundness

/-!
# A fleet never stalls

Up to as many uploads as a mailbox holds messages, on one bus with a server whose sinks are content:
in every state that is reached by any interleaving of their steps, no message is lost, every upload
that has not returned can go on or has its request in the queue of the server, and every step
leaves less to do. So all uploads return, and they return with success, having been asked for each
range of their files once.

* `Fleet.Due`: what the tasks are about to do;
* `Fleet.Healthy`: what holds in a state that goes well;
* `Fleet.never_stalls`: every state that is reached goes well.
-/

namespace PullIngest

/-- A message that is published arrives at the one mailbox of its channel. -/
def Bus.Delivers (b : Bus Message) (c : Channel) (m : Message) : Prop :=
  b.accepts c.name = true ∧ ∃ n q, b.unreadOn c.name = [(n, q)] ∧
    (b.publish c.name m).unreadOn c.name = [(n, q ++ [m])]

namespace Fleet

open Action

variable {k : ℕ} {policy : Policy} {disk : Disk} {u : Uploader} {us : Fin k → Uploader}
  {s : Fleet k} {i : Fin k} {x : Dialogue} {mailboxes : Table Channel ℕ} {c : Channel} {m : Message}

/-- What a task is about to do. -/
inductive Due (s : Fleet k) : Action → Prop
  | upload {i : Fin k} {a : Action} {rest : List Action} (ht : (s.uploads i).todo = a :: rest) :
      Due s a
  | desk {key : String} {a : Action} {rest : List Action} {mailboxes : Table Channel ℕ}
      {opened : Option Coordinator} (hd : s.desk = .answering key (a :: rest) mailboxes opened) :
      Due s a
  | run {key : String} {r : Run} {a : Action} {rest : List Action} (hr : r ∈ s.runs key)
      (ht : r.todo = a :: rest) : Due s a

/-- A state that goes well, of uploads that were `us` in the beginning. -/
structure Healthy (chunk : ℕ) (us : Fin k → Uploader) (s : Fleet k) : Prop where
  /-- No message is refused or dropped: what a task decides to send when its turn begins arrives when
  the task gets to it, whatever the others have done in between. -/
  delivers : ∀ c m, s.Due (.publish c m) → s.bus.Delivers c m
  /-- A message on a channel of a session or for an answer is taken before the next one comes. -/
  unread_le_one : ∀ c : Channel, c ≠ .create → ∀ p ∈ s.bus.unreadOn c.name, p.2.length ≤ 1
  /-- An upload that has not returned can go on, or its request waits for the server. -/
  goes_on : ∀ i, (s.uploads i).uploader.result? = none →
    (∃ s', Step s (us i).correlation s') ∨
      ∃ p ∈ s.bus.unreadOn Channel.create.name, ∃ m ∈ p.2, m.id = (us i).correlation
  /-- As long as an upload has not returned something happens. -/
  not_stuck : (∃ i, (s.uploads i).uploader.result? = none) → ∃ key s', Step s key s'
  /-- Whatever happens leaves less to do. -/
  measure_lt : ∀ key s', Step s key s' → s'.measure < s.measure
  /-- An upload that has returned has sent its whole file, asked for range by range. -/
  result : ∀ i r, (s.uploads i).uploader.result? = some r →
    ∃ id, r = .ok ⟨id, true, (us i).source.length⟩ ∧
      s.issued.lookup (us i).correlation = some id ∧
      s.asked id = rangeCount chunk (us i).source.length.toNat

/-! ### Messages arrive -/

theorem delivers_of_on (hb : s.bus.Wired) {n : ℕ} {q : List Message} (hq : s.bus.on c = [(n, q)])
    (hroom : q.length < Bus.capacity) : s.bus.Delivers c m := by
  refine ⟨Bus.accepts_of_unreadOn hq hroom, n, q, hq, ?_⟩
  rw [Bus.unreadOn_publish hb hq hroom, Function.update_self]

theorem delivers_of_smooth (hb : s.bus.Wired) {own : Channel → Prop}
    {mailboxes mailboxes' : Table Channel ℕ} {boxes boxes' : List (Channel × List Message)}
    (hw : Wires own s.bus mailboxes mailboxes' boxes boxes')
    (ha : (publish c m).Smooth own boxes boxes') : s.bus.Delivers c m := by
  obtain ⟨n, hn⟩ : ∃ n, s.bus.on c = [(n, [])] := by
    rcases ha with hc | hc
    · exact (hw.near.alone _ hc).imp fun n hn => hn.2
    · exact (hw.far.alone _ hc).imp fun n hn => hn.2
  exact delivers_of_on hb hn (by decide)

theorem Sound.delivers (hk : k ≤ Bus.capacity) (h : s.Sound policy disk us)
    (hd : s.Due (.publish c m)) : s.bus.Delivers c m := by
  cases hd with
  | @upload i _ rest ht =>
    obtain ⟨x, mailboxes, hs, hp⟩ := h.lanes i
    rw [hs.todo] at ht
    by_cases hc : c = .create
    · subst hc
      obtain ⟨-, hcalls, -⟩ := hp.uploadCall ht
      obtain ⟨q, hq, hroom⟩ := h.room hk hs hcalls
      exact delivers_of_on h.wired hq hroom
    · have hcall : Action.publish c m ≠ .publish .create (us i).createRequest := by
        intro he
        cases he
        exact hc rfl
      exact delivers_of_smooth h.wired hs.wires (hp.uploadAct ht hcall).1
  | @desk key _ rest mailboxes opened hd =>
    obtain ⟨i, x, rfl, hs, hp, hstaff⟩ := h.exists_answering hd
    exact delivers_of_smooth h.wired hs.wires.symm (hp.deskAct hstaff).1
  | @run key r _ rest hr ht =>
    obtain ⟨before, after, hr⟩ := List.append_of_mem hr
    obtain ⟨i, x, rfl, hs, hp, hstaff⟩ := h.exists_running hr
    rw [ht] at hstaff
    exact delivers_of_smooth h.wired hs.wires.symm (hp.runAct hstaff).1

theorem Sound.unread_le_one (h : s.Sound policy disk us) (hc : c ≠ .create)
    {p : ℕ × List Message} (hp : p ∈ s.bus.unreadOn c.name) : p.2.length ≤ 1 := by
  have hne : s.bus.on c ≠ [] := List.ne_nil_of_mem hp
  obtain hcreate | ⟨i, hi⟩ := h.vacant c hne
  · exact absurd hcreate hc
  obtain ⟨x, mailboxes, hs, hx⟩ := h.lanes i
  rw [hs.session] at hi
  obtain ⟨j, hj, rfl, n, hn⟩ : ∃ j ∈ x.ins ++ x.outs, j.1 = c ∧ ∃ n, s.bus.on c = [(n, j.2)] := by
    rcases hs.wires.mem_of_own c hi hne with hmem | hmem
    · obtain ⟨j, hj, rfl⟩ := List.mem_map.1 hmem
      obtain ⟨n, -, hn⟩ := hs.wires.near.alone j hj
      exact ⟨j, List.mem_append_left _ hj, rfl, n, hn⟩
    · obtain ⟨j, hj, rfl⟩ := List.mem_map.1 hmem
      obtain ⟨n, -, hn⟩ := hs.wires.far.alone j hj
      exact ⟨j, List.mem_append_right _ hj, rfl, n, hn⟩
  have he : p ∈ s.bus.on j.1 := hp
  rw [hn] at he
  obtain rfl : p = (n, j.2) := by simpa using he
  exact hx.length_le_one j hj

/-! ### Something happens -/

theorem exists_fresh (s : Fleet k) : ∃ fresh, fresh ∉ s.issued.map Prod.snd := by
  obtain ⟨fresh, hf⟩ := Infinite.exists_notMem_finset (s.issued.map Prod.snd).toFinset
  exact ⟨fresh, by simpa using hf⟩

/-- The server goes on as long as it has a request at hand. -/
theorem exists_step_desk {key : String} (hd : s.desk.correlation? = some key) :
    ∃ s', Step s key s' := by
  cases he : s.desk with
  | idle =>
    rw [he] at hd
    cases hd
  | holding m =>
    rw [he] at hd
    obtain rfl : m.id = key := Option.some.inj hd
    obtain ⟨fresh, hf⟩ := s.exists_fresh
    exact ⟨_, .answer he hf 0⟩
  | answering key' todo mailboxes opened =>
    rw [he] at hd
    obtain rfl : key' = key := Option.some.inj hd
    cases todo with
    | nil => exact ⟨_, .launch he⟩
    | cons a rest => exact ⟨_, .deskAct he⟩

/-- A message in a mailbox can be taken. -/
theorem exists_hears {b : Bus Message} {boxes : List (Channel × List Message)} {q : List Message}
    (h : Inboxes b.on mailboxes boxes) (hm : (c, m :: q) ∈ boxes) :
    ∃ b', b.Hears mailboxes c m b' := by
  obtain ⟨n, hget, hon⟩ := h.alone _ hm
  obtain ⟨b', htake⟩ := Bus.exists_take hon
  exact ⟨b', n, hget, htake⟩

theorem Shows.exists_uploadTurn (h : s.Shows u i x mailboxes) (ht : x.todo = [])
    {e : UploadEvent} {ins : List (Channel × List Message)} (he : x.UploadHears u e ins) :
    ∃ s', Step s (s.correlation i) s' := by
  have hstage := h.stage_eq
  have hcorrelation : (s.uploads i).uploader.correlation = u.correlation := by rw [h.uploader]
  have ht' : (s.uploads i).todo = [] := h.todo.trans ht
  cases he with
  | begin hs => exact ⟨_, .uploadTurn ht' (.begin (hstage.trans hs)) 0⟩
  | reply hs hm =>
    rw [← hcorrelation] at hm
    obtain ⟨b, hb⟩ := exists_hears h.wires.near hm
    exact ⟨_, .uploadTurn ht' (.reply (hstage.trans hs) hb) 0⟩
  | request hs hm =>
    obtain ⟨b, hb⟩ := exists_hears h.wires.near hm
    exact ⟨_, .uploadTurn ht' (.request (hstage.trans hs) hb) 0⟩
  | done hs hm =>
    obtain ⟨b, hb⟩ := exists_hears h.wires.near hm
    exact ⟨_, .uploadTurn ht' (.done (hstage.trans hs) hb) 0⟩

theorem Shows.exists_runTurn (h : s.Shows u i x mailboxes) {c : Coordinator}
    (hr : s.runs u.correlation = [⟨c, mailboxes, []⟩]) (hc : c.stage ≠ .exited) {e : Event}
    {outs : List (Channel × List Message)} (he : x.RunHears c e outs) :
    ∃ s', Step s u.correlation s' := by
  have hr' : s.runs u.correlation = [] ++ ⟨c, mailboxes, []⟩ :: [] := hr
  cases he with
  | start hm =>
    obtain ⟨b, hb⟩ := exists_hears h.wires.far hm
    exact ⟨_, .runTurn hr' rfl (.start hc hb) 0⟩
  | response hm =>
    obtain ⟨b, hb⟩ := exists_hears h.wires.far hm
    exact ⟨_, .runTurn hr' rfl (.response hc hb) 0⟩
  | cancel hm =>
    obtain ⟨b, hb⟩ := exists_hears h.wires.far hm
    exact ⟨_, .runTurn hr' rfl (.cancel hc hb) 0⟩
  | grace hs => exact ⟨_, .runTurn hr' rfl (.grace hs) 0⟩

theorem correlation?_of_about {d : Desk} {key : String} (h : d.about key ≠ .idle) :
    d.correlation? = some key := by
  by_contra hne
  exact h (if_neg hne)

/-- What can be done for a dialogue can be done in the fleet. -/
theorem Shows.exists_step (h : s.Shows u i x mailboxes) (hx : x.Enabled u) :
    ∃ s', Step s u.correlation s' := by
  have hstaff := h.staff
  generalize hd : s.desk.about u.correlation = d, hruns : s.runs u.correlation = runs at hstaff
  cases hx with
  | uploadAct ht => exact h.correlation_eq ▸ ⟨_, .uploadAct (h.todo.trans ht)⟩
  | uploadTurn ht he => exact h.correlation_eq ▸ h.exists_uploadTurn ht he
  | answer hs =>
    rw [hs] at hstaff
    cases hstaff
    exact exists_step_desk (correlation?_of_about (by rw [hd]; simp))
  | deskAct hs | launch hs =>
    rw [hs] at hstaff
    cases hstaff
    exact exists_step_desk (correlation?_of_about (by rw [hd]; simp))
  | runAct hs =>
    rw [hs] at hstaff
    cases hstaff
    have hr : s.runs u.correlation = [] ++ _ :: [] := hruns
    exact ⟨_, .runAct hr rfl⟩
  | runTurn hs hc he =>
    rw [hs] at hstaff
    cases hstaff
    exact h.exists_runTurn hruns hc he

/-- An upload that has not returned can go on, or its request waits for the server. -/
theorem Sound.goes_on (h : s.Sound policy disk us) (hr : (s.uploads i).uploader.result? = none) :
    (∃ s', Step s (us i).correlation s') ∨
      ∃ p ∈ s.bus.unreadOn Channel.create.name, ∃ m ∈ p.2, m.id = (us i).correlation := by
  obtain ⟨x, mailboxes, hs, hp⟩ := h.lanes i
  by_cases hcalls : x.calls = []
  · refine .inl (hs.exists_step (hp.enabled hcalls fun r hx => ?_))
    rw [Uploader.result?_eq_some.2 (hs.stage_eq.trans hx)] at hr
    cases hr
  · obtain ⟨m, hm⟩ := List.exists_mem_of_ne_nil _ hcalls
    obtain ⟨q, hq⟩ := h.requests
    rw [← hs.calls, calls_eq hq, List.mem_filter] at hm
    exact .inr ⟨(s.requests, q), by rw [show s.bus.unreadOn _ = _ from hq]; simp, m, hm.1,
      by simpa using hm.2⟩

theorem Sound.not_stuck (h : s.Sound policy disk us)
    (hr : (s.uploads i).uploader.result? = none) : ∃ key s', Step s key s' := by
  rcases h.goes_on hr with ⟨s', hs⟩ | ⟨p, hp, m, hm, -⟩
  · exact ⟨_, s', hs⟩
  cases hd : s.desk.correlation? with
  | some key => exact ⟨key, exists_step_desk hd⟩
  | none =>
    -- The server takes the oldest request.
    obtain ⟨q, hq⟩ := h.requests
    obtain rfl : p = (s.requests, q) := by
      have : p ∈ s.bus.on .create := hp
      rw [hq] at this
      simpa using this
    have hidle : s.desk = .idle := by
      cases he : s.desk with
      | idle => rfl
      | holding | answering =>
        rw [he] at hd
        cases hd
    obtain ⟨m', q', rfl⟩ := List.exists_cons_of_ne_nil (List.ne_nil_of_mem hm)
    obtain ⟨b, hb⟩ := Bus.exists_take hq
    exact ⟨_, _, .take hidle hb⟩

theorem Sound.result (h : s.Sound policy disk us) {r : Except UploadError UploadOutcome}
    (hr : (s.uploads i).uploader.result? = some r) :
    ∃ id, r = .ok ⟨id, true, (us i).source.length⟩ ∧
      s.issued.lookup (us i).correlation = some id ∧
      s.asked id = rangeCount policy.chunkSize.toNat (us i).source.length.toNat := by
  obtain ⟨x, mailboxes, hs, hp⟩ := h.lanes i
  have hstage : x.stage = .finished r := hs.stage_eq ▸ Uploader.result?_eq_some.1 hr
  obtain ⟨id, hid, hsession, hasked⟩ := hp.result hstage
  exact ⟨id, hid, hs.session.trans hsession, (hs.asked id hsession).trans hasked⟩

/-- Every state that is reached goes well. -/
theorem never_stalls {storage : Storage} (hu : Setting policy storage.disk us)
    (hw : ∀ i, (us i).stage = .waiting) (h : Reachable (start policy storage us) s) :
    s.Healthy policy.chunkSize.toNat us := by
  have hsound := sound_of_reachable hu hw h
  exact
    { delivers := fun c m hd => hsound.delivers hu.few hd
      unread_le_one := fun c hc p hp => hsound.unread_le_one hc hp
      goes_on := fun i hr => hsound.goes_on hr
      not_stuck := fun ⟨i, hr⟩ => hsound.not_stuck hr
      measure_lt := fun key s' hs => (hsound.step hu hs).2
      result := fun i r hr => hsound.result hr }

namespace TwoFiles

/-- A file of three bytes and an empty one. -/
def storage : Storage := { disk := { contents := ⟨[(0, [1, 2, 3]), (1, [])]⟩ } }

/-- Two bytes at a time. -/
def pairs : Policy := { chunkSize := 2 }

def uploaders : Fin 2 → Uploader
  | 0 => { correlation := "a", name := "three", source := ⟨.file 0, 3⟩ }
  | 1 => { correlation := "b", name := "none", source := ⟨.file 1, 0⟩ }

theorem setting : Setting pairs storage.disk uploaders where
  few := by decide
  chunk_ne_zero := by decide
  apart := by decide
  fit i := by
    match i with
    | 0 => exact ⟨by rfl, 0, rfl, by rfl⟩
    | 1 => exact ⟨by rfl, 1, rfl, by rfl⟩

theorem waiting (i : Fin 2) : (uploaders i).stage = .waiting := by
  match i with
  | 0 => rfl
  | 1 => rfl

/-- The first upload has begun. -/
def begun : Fleet 2 :=
  (start pairs storage uploaders).uploadTurn 0 .begin (start pairs storage uploaders).bus 0

theorem reachable_begun : Reachable (start pairs storage uploaders) begun :=
  .step .start (.uploadTurn rfl (.begin rfl) 0)

end TwoFiles

theorem twoFiles_healthy : Setting TwoFiles.pairs TwoFiles.storage.disk TwoFiles.uploaders ∧
    (∀ i, (TwoFiles.uploaders i).stage = .waiting) ∧
    Reachable (start TwoFiles.pairs TwoFiles.storage TwoFiles.uploaders) TwoFiles.begun ∧
    TwoFiles.begun.Healthy 2 TwoFiles.uploaders :=
  ⟨TwoFiles.setting, TwoFiles.waiting, TwoFiles.reachable_begun,
    never_stalls TwoFiles.setting TwoFiles.waiting TwoFiles.reachable_begun⟩

end Fleet

end PullIngest
