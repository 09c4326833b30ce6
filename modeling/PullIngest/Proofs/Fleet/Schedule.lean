import Mathlib.Data.List.OfFn
import PullIngest.Proofs.Fleet.Health
import PullIngest.Proofs.Fleet.WholeTurns
import PullIngest.Proofs.Text.Hex

/-!
# A network is a schedule of a fleet

A network lets one task after the other take a whole turn. As long as nobody runs out of time, what
it does is one of the things that a fleet can do.

* `Fleet.Covers`: a fleet that is in the same state as a network;
* `Fleet.Covers.run`: a turn in the network is a run of steps of the fleet;
* `Network.InTime`, `Network.Runs`: turns in a network without timeouts;
* `Network.uploads_succeed`: every upload of a network that returns has succeeded.
-/

namespace PullIngest

open Action

/-! ### Ids -/

theorem Network.freshId_injective : Function.Injective Network.freshId := by
  intro m n h
  have hlist := congrArg String.toList h
  unfold freshId at hlist
  simp only [String.toList_append, String.toList_ofList] at hlist
  have hread := congrArg (Hex.extend? 0) (List.append_cancel_left hlist)
  rw [Hex.extend?_zeros, Hex.extend?_zeros] at hread
  have hm : Hex.extend? 0 (Nat.toDigits 16 m) = some m := Hex.extend?_ofNat m
  have hn : Hex.extend? 0 (Nat.toDigits 16 n) = some n := Hex.extend?_ofNat n
  rw [hm, hn] at hread
  exact Option.some.inj hread

/-! ### Events -/

theorem Bus.isOpen_hears {b b' : Bus Message} {mailboxes : Table Channel ℕ} {c : Channel}
    {m : Message} (h : b.Hears mailboxes c m b') : b'.isOpen = b.isOpen := by
  obtain ⟨n, -, ht⟩ := h
  obtain ⟨q, -, rfl⟩ := take?_eq_some.1 ht
  rfl

theorem Upload.Hears.isOpen_eq {b b' : Bus Message} {u : Upload} {e : UploadEvent}
    (h : u.Hears b e b') : b'.isOpen = b.isOpen := by
  cases h with
  | begin => rfl
  | reply _ hm | request _ hm | done _ hm => exact Bus.isOpen_hears hm

theorem Run.Hears.isOpen_eq {b b' : Bus Message} {r : Run} {e : Event} (h : r.Hears b e b') :
    b'.isOpen = b.isOpen := by
  cases h with
  | start _ hm | response _ hm | cancel _ hm => exact Bus.isOpen_hears hm
  | grace => rfl

namespace Network

variable {n n' : Network} {mailboxes : Table Channel ℕ} {c : Channel} {m : Message}

theorem hears_of_take? (h : n.take? mailboxes c = some (m, n')) :
    ∃ b, n.bus.Hears mailboxes c m b ∧ n' = { n with bus := b } := by
  unfold take? at h
  obtain ⟨mailbox, hget, h⟩ := Option.bind_eq_some_iff.1 h
  obtain ⟨⟨m', b⟩, htake, h⟩ := Option.bind_eq_some_iff.1 h
  obtain ⟨rfl, rfl⟩ : m' = m ∧ _ = n' := by simpa using h
  exact ⟨b, ⟨mailbox, hget, htake⟩, rfl⟩

/-- What an uploader takes before its time has come. -/
theorem hears_of_nextUploadEvent? {t : UploadTask} {e : UploadEvent}
    (h : n.nextUploadEvent? t = some (e, n')) (htime : n.isDue t.uploader.timer? = false)
    (todo : List Action) :
    ∃ b, Upload.Hears n.bus ⟨t.uploader, t.mailboxes, todo⟩ e b ∧ n' = { n with bus := b } := by
  unfold nextUploadEvent? at h
  split at h
  · next hs =>
    obtain ⟨rfl, rfl⟩ : _ ∧ _ := by simpa using h
    exact ⟨n.bus, .begin hs, rfl⟩
  · next deadline hs =>
    split at h
    · next m n'' ht =>
      obtain ⟨rfl, rfl⟩ : _ ∧ _ := by simpa using h
      obtain ⟨b, hb, rfl⟩ := hears_of_take? ht
      exact ⟨b, .reply hs hb, rfl⟩
    · rw [htime] at h
      cases h
  · next transfer hs =>
    split at h
    · next m n'' ht =>
      obtain ⟨rfl, rfl⟩ : _ ∧ _ := by simpa using h
      obtain ⟨b, hb, rfl⟩ := hears_of_take? ht
      exact ⟨b, .done hs hb, rfl⟩
    · split at h
      · next m n'' ht =>
        obtain ⟨rfl, rfl⟩ : _ ∧ _ := by simpa using h
        obtain ⟨b, hb, rfl⟩ := hears_of_take? ht
        exact ⟨b, .request hs hb, rfl⟩
      · rw [htime] at h
        cases h
  · cases h

/-- What a coordinator takes before its time has come, while nobody stops the server. -/
theorem hears_of_nextEvent? {t : SessionTask} {e : Event} (h : n.nextEvent? t = some (e, n'))
    (hstop : n.stopping = false) (hopen : n.bus.isOpen = true)
    (hrunning : t.coordinator.stage ≠ .exited)
    (htime : ∀ deadline, t.coordinator.stage = .pulling deadline → n.now < deadline)
    (todo : List Action) :
    ∃ b, Run.Hears n.bus ⟨t.coordinator, t.mailboxes, todo⟩ e b ∧ n' = { n with bus := b } := by
  unfold nextEvent? at h
  rw [hstop, hopen] at h
  dsimp only at h
  split at h
  · contradiction
  split at h
  · next m n'' ht =>
    obtain ⟨rfl, rfl⟩ : _ ∧ _ := by simpa using h
    obtain ⟨b, hb, rfl⟩ := hears_of_take? ht
    exact ⟨b, .start hrunning hb, rfl⟩
  split at h
  · next m n'' ht =>
    obtain ⟨rfl, rfl⟩ : _ ∧ _ := by simpa using h
    obtain ⟨b, hb, rfl⟩ := hears_of_take? ht
    exact ⟨b, .response hrunning hb, rfl⟩
  split at h
  · next m n'' ht =>
    obtain ⟨rfl, rfl⟩ : _ ∧ _ := by simpa using h
    obtain ⟨b, hb, rfl⟩ := hears_of_take? ht
    exact ⟨b, .cancel hrunning hb, rfl⟩
  split at h
  · contradiction
  split at h
  · next hdue =>
    obtain ⟨rfl, rfl⟩ : _ ∧ _ := by simpa using h
    cases hs : t.coordinator.stage with
    | pulling deadline =>
      have hlt := htime deadline hs
      unfold Coordinator.timer? at hdue
      rw [hs] at hdue
      have hle : deadline ≤ n.now := by simpa [isDue] using hdue
      omega
    | lingering success expiry => exact ⟨n.bus, .grace hs, rfl⟩
    | exited => exact absurd hs hrunning
  · cases h

/-- A turn of an uploader, as what it does to the bus. -/
theorem runUpload_eq (n : Network) (index : ℕ) (t : UploadTask) (e : UploadEvent) {u : Uploader}
    {todo : List Action} (hr : t.uploader.step n.accepts n.now n.storage.disk e = (u, todo)) :
    ∃ published logged, n.runUpload index t e =
      if u.result?.isSome then
        { n with
          bus := (n.bus.carryAll t.mailboxes todo).1.release (n.bus.carryAll t.mailboxes todo).2
          uploads := n.uploads.set index ⟨u, ∅⟩
          published
          logged }
      else
        { n with
          bus := (n.bus.carryAll t.mailboxes todo).1
          uploads := n.uploads.set index ⟨u, (n.bus.carryAll t.mailboxes todo).2⟩
          published
          logged } := by
  obtain ⟨published, logged, hperform⟩ := Bus.perform_eq_carryAll .client n t.mailboxes todo
  refine ⟨published, logged, ?_⟩
  unfold runUpload
  rw [hr]
  dsimp only
  rw [hperform]
  dsimp only
  unfold Uploader.result?
  cases u.stage <;> rfl

/-- A turn of a coordinator, as what it does to the bus. -/
theorem runSession_eq (n : Network) (index : ℕ) (t : SessionTask) (e : Event) {c : Coordinator}
    {storage : Storage} {todo : List Action}
    (hr : t.coordinator.step n.accepts n.now n.storage e = ⟨c, storage, todo⟩) :
    ∃ history published logged, n.runSession index t e =
      if c.stage = .exited then
        { n with
          bus := (n.bus.carryAll t.mailboxes todo).1.release (n.bus.carryAll t.mailboxes todo).2
          storage
          server := (n.server.report c.session).unregister c.session.id
          sessions := n.sessions.eraseIdx index
          exited := n.exited ++ [t.correlation]
          history
          published
          logged }
      else
        { n with
          bus := (n.bus.carryAll t.mailboxes todo).1
          storage
          server := n.server.report c.session
          sessions := n.sessions.set index
            ⟨t.correlation, c, (n.bus.carryAll t.mailboxes todo).2⟩
          history
          published
          logged } := by
  obtain ⟨published, logged, hperform⟩ := Bus.perform_eq_carryAll .server
    { n with storage, server := n.server.report c.session
             history := n.history.set c.session.id c.session } t.mailboxes todo
  refine ⟨n.history.set c.session.id c.session, published, logged, ?_⟩
  unfold runSession
  rw [hr]
  dsimp only
  rw [hperform]
  dsimp only
  cases c.stage <;> rfl

/-- The answer to a create request, as what it does to the bus. -/
theorem answerCreate?_eq_some {m : Message} (h : n.answerCreate? m = some n') {y : Server.Turn}
    (hy : n.server.handleCreate n.accepts n.now n.storage (freshId n.nextId) m = y) :
    ∃ share history published logged, n' = { n with
      server := y.server
      storage := y.storage
      bus := (n.bus.carryAll ∅ y.actions).1
      inHand := none
      sessions := n.sessions ++
        (y.opened.map fun c => ⟨m.id, c, (n.bus.carryAll ∅ y.actions).2⟩).toList
      nextId := n.nextId + 1
      share
      history
      published
      logged } := by
  unfold answerCreate? at h
  dsimp only at h
  rw [hy] at h
  split_ifs at h
  obtain ⟨published, logged, hperform⟩ := Bus.perform_eq_carryAll .server { n with
    server := y.server, storage := y.storage, inHand := none
    share := n.share - ((n.server.accepted.get? m.id).toList.length + y.entries)
    nextId := n.nextId + 1 } ∅ y.actions
  rw [hperform] at h
  dsimp only at h
  generalize n.share - _ = share at h
  cases hopened : y.opened with
  | none =>
    rw [hopened] at h
    obtain rfl := Option.some.inj h
    refine ⟨share, n.history, published, logged, ?_⟩
    rw [Option.map_none, Option.toList_none, List.append_nil]
  | some c =>
    rw [hopened] at h
    obtain rfl := Option.some.inj h
    exact ⟨share, _, published, logged, rfl⟩

/-- Nobody runs out of time. -/
structure InTime (n : Network) : Prop where
  uploads : ∀ t ∈ n.uploads, n.isDue t.uploader.timer? = false
  sessions : ∀ t ∈ n.sessions, ∀ deadline, t.coordinator.stage = .pulling deadline →
    n.now < deadline

end Network

/-! ### The same state -/

/-- An upload between two turns, as a network has it. -/
def Upload.task (u : Upload) : UploadTask := ⟨u.uploader, u.mailboxes⟩

/-- A coordinator between two turns, as a fleet has it. -/
def SessionTask.run (t : SessionTask) : Run := ⟨t.coordinator, t.mailboxes, []⟩

namespace Fleet

variable {k : ℕ} {n n' : Network} {s s' : Fleet k} {index : ℕ}

/-- The coordinators of a request among those of a list. -/
def runsOf (key : String) (ts : List SessionTask) : List Run :=
  (ts.filter fun t => t.correlation = key).map SessionTask.run

theorem runsOf_append (key : String) (ts ts' : List SessionTask) :
    runsOf key (ts ++ ts') = runsOf key ts ++ runsOf key ts' := by
  simp [runsOf]

theorem runsOf_self {key : String} {ts : List SessionTask} (h : ∀ t ∈ ts, t.correlation = key) :
    runsOf key ts = ts.map SessionTask.run := by
  unfold runsOf
  rw [List.filter_eq_self.2 (by simpa using h)]

theorem runsOf_other {key key' : String} {ts : List SessionTask}
    (h : ∀ t ∈ ts, t.correlation = key) (hk : key' ≠ key) : runsOf key' ts = [] := by
  unfold runsOf
  rw [List.filter_eq_nil_iff.2, List.map_nil]
  intro t ht
  simpa [h t ht] using Ne.symm hk

/-- The coordinators of one request change. -/
theorem runs_update {key : String} {before old after new : List SessionTask}
    (h : ∀ key, s.runs key = runsOf key (before ++ (old ++ after)))
    (hold : ∀ t ∈ old, t.correlation = key) (hnew : ∀ t ∈ new, t.correlation = key) (key' : String) :
    Function.update s.runs key
        (runsOf key before ++ (new.map SessionTask.run ++ runsOf key after)) key' =
      runsOf key' (before ++ (new ++ after)) := by
  by_cases hk : key' = key
  · subst hk
    rw [Function.update_self, runsOf_append, runsOf_append, runsOf_self hnew]
  · rw [Function.update_of_ne hk, h, runsOf_append, runsOf_append, runsOf_append, runsOf_append,
      runsOf_other hold hk, runsOf_other hnew hk]

theorem exists_split {α : Type} {l : List α} {i : ℕ} {a : α} (h : l[i]? = some a) :
    ∃ l₁ l₂, l = l₁ ++ a :: l₂ ∧ l₁.length = i := by
  obtain ⟨hi, rfl⟩ := List.getElem?_eq_some_iff.1 h
  obtain ⟨l₁, l₂, hl, hlength, -⟩ := @List.exists_of_set α i l[i] l hi
  exact ⟨l₁, l₂, hl, hlength⟩

/-- A fleet is in the same state as a network that runs. -/
structure Covers (n : Network) (s : Fleet k) : Prop where
  bus : n.bus = s.bus
  server : n.server = s.server
  storage : n.storage = s.storage
  requests : n.requests = some s.requests
  desk : s.desk = (n.inHand.map Desk.holding).getD .idle
  runs : ∀ key, s.runs key = runsOf key n.sessions
  exited : n.exited = s.exited
  uploads : n.uploads = List.ofFn fun i => (s.uploads i).task
  idle : ∀ i, (s.uploads i).todo = []
  issued : ∀ id ∈ s.issued.map Prod.snd, ∃ j < n.nextId, id = Network.freshId j
  running : ∀ t ∈ n.sessions, t.coordinator.stage ≠ .exited
  isOpen : n.bus.isOpen = true
  stopping : n.stopping = false

theorem set_ofFn_task (f : Fin k → Upload) (i : Fin k) (u : Upload) :
    (List.ofFn fun j => (f j).task).set i u.task =
      List.ofFn fun j => (Function.update f i u j).task := by
  refine List.ext_getElem (by simp) fun j hj hj' => ?_
  rw [List.getElem_set, List.getElem_ofFn]
  by_cases hji : (i : ℕ) = j
  · subst hji
    simp
  · rw [if_neg hji, List.getElem_ofFn, Function.update_of_ne]
    exact fun e => hji (by rw [← e])

/-- The bus and one upload change. -/
theorem Covers.of_upload (h : Covers n s) (i : Fin k) {u : Upload} (hu : u.todo = [])
    {b : Bus Message} (hb : b.isOpen = true) (sent : List (Channel × Message))
    (published : List Publication) (logged : List String) :
    Covers { n with bus := b, uploads := n.uploads.set i u.task, published, logged }
      { s with bus := b, uploads := Function.update s.uploads i u, sent } :=
  { h with
    bus := rfl
    isOpen := hb
    uploads := by
      rw [h.uploads]
      exact set_ofFn_task s.uploads i u
    idle := fun j => by
      show (Function.update s.uploads i u j).todo = []
      by_cases hj : j = i
      · subst hj
        rw [Function.update_self, hu]
      · rw [Function.update_of_ne hj, h.idle j] }

/-- An uploader has its turn. -/
theorem Covers.upload (h : Covers n s) (ht : n.InTime) (hr : n.run? (.upload index) = some n') :
    ∃ s', Reachable s s' ∧ Covers n' s' := by
  unfold Network.run? at hr
  obtain ⟨t, htask, hr⟩ := Option.bind_eq_some_iff.1 hr
  obtain ⟨⟨e, n₁⟩, hevent, hr⟩ := Option.bind_eq_some_iff.1 hr
  obtain rfl : n₁.runUpload index t e = n' := Option.some.inj hr
  obtain ⟨b, hb, rfl⟩ :=
    Network.hears_of_nextUploadEvent? hevent (ht.uploads t (List.mem_of_getElem? htask)) []
  rw [h.uploads, List.getElem?_ofFn] at htask
  split at htask
  · next hindex =>
    obtain rfl := Option.some.inj htask
    generalize hi : (⟨index, hindex⟩ : Fin k) = i at hb ⊢
    obtain rfl : (i : ℕ) = index := by rw [← hi]
    have hupload : (⟨(s.uploads i).uploader, (s.uploads i).mailboxes, []⟩ : Upload) =
        s.uploads i := by rw [← h.idle i]
    rw [h.bus] at hb
    have hears : (s.uploads i).Hears s.bus e b := hupload ▸ hb
    obtain ⟨u, todo, hstep⟩ : ∃ u todo,
        (s.uploads i).uploader.step b.takes n.now s.storage.disk e = (u, todo) := ⟨_, _, rfl⟩
    have hturn := reachable_uploadTurn (h.idle i) hears n.now hstep
    rw [← h.storage] at hstep
    obtain ⟨published, logged, hrun⟩ := Network.runUpload_eq { n with bus := b } i
      (s.uploads i).task e hstep
    have hopen : (b.carryAll (s.uploads i).mailboxes todo).1.isOpen = true := by
      rw [Bus.isOpen_carryAll, hears.isOpen_eq, ← h.bus, h.isOpen]
    rw [hrun]
    split_ifs with hdone
    · have hleave := hturn.trans (reachable_uploadLeave (i := i) (Function.update_self _ _ _) hdone)
      rw [Function.update_idem] at hleave
      exact ⟨_, hleave, h.of_upload i (u := ⟨u, ∅, []⟩) rfl
        ((Bus.isOpen_release _ _).trans hopen) _ _ _⟩
    · exact ⟨_, hturn, h.of_upload i (u := ⟨u, _, []⟩) rfl hopen _ _ _⟩
  · cases htask

/-- The bus, the server and the coordinators of one request change. -/
theorem Covers.of_session (h : Covers n s) {key : String} {before old after new : List SessionTask}
    (hl : n.sessions = before ++ (old ++ after)) {sessions : List SessionTask}
    (hl' : sessions = before ++ (new ++ after)) (hold : ∀ t ∈ old, t.correlation = key)
    (hnew : ∀ t ∈ new, t.correlation = key) (hrunning : ∀ t ∈ new, t.coordinator.stage ≠ .exited)
    {b : Bus Message} (hb : b.isOpen = true) {server server' : Server} (hserver : server' = server)
    {exited exited' : List String} (hexited : exited' = exited) (storage : Storage)
    (sent : List (Channel × Message)) (history : Table String Session)
    (published : List Publication) (logged : List String) :
    Covers
      { n with bus := b, server := server', storage, sessions, exited := exited', history
               published, logged }
      { s with bus := b, server, storage, exited, sent
               runs := Function.update s.runs key
                 (runsOf key before ++ (new.map SessionTask.run ++ runsOf key after)) } :=
  { h with
    bus := rfl
    isOpen := hb
    server := hserver
    storage := rfl
    exited := hexited
    runs := fun key' => by
      have hruns := h.runs
      rw [hl] at hruns
      exact hl' ▸ runs_update hruns hold hnew key'
    running := fun t ht => by
      subst hl'
      have hmem : ∀ t ∈ before ++ (old ++ after), t.coordinator.stage ≠ .exited := hl ▸ h.running
      simp only [List.mem_append] at ht hmem
      rcases ht with ht | ht | ht
      · exact hmem t (.inl ht)
      · exact hrunning t ht
      · exact hmem t (.inr (.inr ht)) }

/-- A coordinator has its turn. -/
theorem Covers.session (h : Covers n s) (ht : n.InTime) (hr : n.run? (.session index) = some n') :
    ∃ s', Reachable s s' ∧ Covers n' s' := by
  unfold Network.run? at hr
  obtain ⟨t, htask, hr⟩ := Option.bind_eq_some_iff.1 hr
  obtain ⟨⟨e, n₁⟩, hevent, hr⟩ := Option.bind_eq_some_iff.1 hr
  obtain rfl : n₁.runSession index t e = n' := Option.some.inj hr
  have hmem := List.mem_of_getElem? htask
  obtain ⟨b, hb, rfl⟩ := Network.hears_of_nextEvent? hevent h.stopping h.isOpen (h.running t hmem)
    (ht.sessions t hmem) []
  obtain ⟨l₁, l₂, hsessions, rfl⟩ := exists_split htask
  have hone : ∀ t' ∈ [t], t'.correlation = t.correlation := by simp
  have hruns : s.runs t.correlation =
      runsOf t.correlation l₁ ++ ⟨t.coordinator, t.mailboxes, []⟩ :: runsOf t.correlation l₂ := by
    rw [h.runs, hsessions, ← List.singleton_append, runsOf_append, runsOf_append, runsOf_self hone]
    rfl
  rw [h.bus] at hb
  obtain ⟨c, storage, todo, hstep⟩ : ∃ c storage todo,
      t.coordinator.step b.takes n.now s.storage e = ⟨c, storage, todo⟩ := ⟨_, _, _, rfl⟩
  have hturn := reachable_runTurn hruns hb n.now hstep
  rw [← h.storage] at hstep
  obtain ⟨history, published, logged, hrun⟩ :=
    Network.runSession_eq { n with bus := b } l₁.length t e hstep
  have hopen : (b.carryAll t.mailboxes todo).1.isOpen = true := by
    rw [Bus.isOpen_carryAll, hb.isOpen_eq, ← h.bus, h.isOpen]
  have herase : n.sessions.eraseIdx l₁.length = l₁ ++ ([] ++ l₂) := by
    rw [hsessions, List.eraseIdx_append_of_length_le (Nat.le_refl _)]
    simp
  have hset : ∀ t', n.sessions.set l₁.length t' = l₁ ++ ([t'] ++ l₂) := by
    intro t'
    rw [hsessions]
    simp
  rw [hrun]
  split_ifs with hdone
  · have hleave := hturn.trans (.of_step (.runLeave (Function.update_self _ _ _) rfl hdone))
    unfold Fleet.runLeave at hleave
    rw [Function.update_idem] at hleave
    exact ⟨_, hleave, h.of_session hsessions herase hone (by simp) (by simp)
      ((Bus.isOpen_release _ _).trans hopen) (by rw [h.server]) (by rw [h.exited]) _ _ _ _ _⟩
  · exact ⟨_, hturn, h.of_session hsessions (hset _) hone (by simp) (by simpa using hdone) hopen
      (by rw [h.server]) h.exited _ _ _ _ _⟩

/-- The server answers the request that it has at hand. -/
theorem Covers.answer (h : Covers n s) (hr : n.run? .answer = some n') :
    ∃ s', Reachable s s' ∧ Covers n' s' := by
  unfold Network.run? at hr
  obtain ⟨m, hm, hr⟩ := Option.bind_eq_some_iff.1 hr
  have hdesk : s.desk = .holding m := by
    rw [h.desk, hm]
    rfl
  have hf : Network.freshId n.nextId ∉ s.issued.map Prod.snd := by
    intro hid
    obtain ⟨j, hj, he⟩ := h.issued _ hid
    have := Network.freshId_injective he
    omega
  obtain ⟨y, hy⟩ : ∃ y, s.server.handleCreate s.bus.takes n.now s.storage
      (Network.freshId n.nextId) m = y := ⟨_, rfl⟩
  have hreach := reachable_answer hdesk hf n.now hy
  rw [← h.server, ← h.storage, ← h.bus] at hy
  obtain ⟨share, history, published, logged, rfl⟩ := Network.answerCreate?_eq_some hr hy
  refine ⟨_, hreach, ?_⟩
  rw [h.bus]
  -- What the server opens is one more coordinator, at work.
  generalize htasks : (y.opened.map fun c =>
    (⟨m.id, c, (s.bus.carryAll ∅ y.actions).2⟩ : SessionTask)).toList = tasks
  have hnew : ∀ t ∈ tasks, t.correlation = m.id ∧ t.coordinator.stage ≠ .exited := by
    intro t ht
    rw [← htasks] at ht
    obtain ⟨c, hc, rfl⟩ := Option.map_eq_some_iff.1 (Option.mem_toList.1 ht)
    refine ⟨rfl, ?_⟩
    have hcases := n.server.handleCreate_cases n.bus.takes n.now n.storage
      (Network.freshId n.nextId) m
    rw [hy] at hcases
    cases hcases with
    | repeats | refuses | withdraws => cases hc
    | opens =>
      obtain rfl := Option.some.inj hc
      exact fun he => by cases he
  have hmap : (y.opened.map fun c => (⟨c, (s.bus.carryAll ∅ y.actions).2, []⟩ : Run)).toList =
      tasks.map SessionTask.run := by
    rw [← htasks]
    cases y.opened <;> rfl
  have hruns : ∀ key, s.runs key = runsOf key (n.sessions ++ ([] ++ [])) := by
    intro key
    rw [List.append_nil, List.append_nil]
    exact h.runs key
  exact
    { h with
      bus := rfl
      server := rfl
      storage := rfl
      desk := rfl
      runs := fun key => by
        have hupdate := runs_update hruns (by simp) (fun t ht => (hnew t ht).1) key
        rw [hmap, h.runs m.id]
        have hnil : runsOf m.id [] = [] := rfl
        rw [hnil, List.append_nil, List.append_nil] at hupdate
        exact hupdate
      issued := fun id hid => by
        rcases List.mem_cons.1 hid with rfl | hid
        · exact ⟨n.nextId, Nat.lt_succ_self _, rfl⟩
        · obtain ⟨j, hj, he⟩ := h.issued id hid
          exact ⟨j, Nat.lt_succ_of_lt hj, he⟩
      running := fun t ht => by
        rcases List.mem_append.1 ht with ht | ht
        · exact h.running t ht
        · exact (hnew t ht).2
      isOpen := by
        rw [Bus.isOpen_carryAll, ← h.bus, h.isOpen] }

theorem Covers.take (h : Covers n s) (hr : n.run? .create = some n') :
    ∃ s', Reachable s s' ∧ Covers n' s' := by
  unfold Network.run? at hr
  obtain ⟨mailbox, hmailbox, hr⟩ := Option.bind_eq_some_iff.1 hr
  split_ifs at hr with hbusy
  obtain ⟨⟨m, b⟩, hm, hr⟩ := Option.bind_eq_some_iff.1 hr
  obtain rfl : _ = n' := Option.some.inj hr
  obtain ⟨-, hnone, -⟩ : n.stopping = false ∧ n.inHand = none ∧ n.share ≠ 0 := by simpa using hbusy
  obtain rfl : s.requests = mailbox := by simpa [h.requests] using hmailbox
  have hdesk : s.desk = .idle := by
    rw [h.desk, hnone]
    rfl
  rw [h.bus] at hm
  refine ⟨_, .of_step (.take hdesk hm), { h with bus := rfl, desk := rfl, isOpen := ?_ }⟩
  obtain ⟨q, -, rfl⟩ := Bus.take?_eq_some.1 hm
  rw [← h.isOpen, h.bus]

theorem Covers.reap (h : Covers n s) (hr : n.run? .reap = some n') :
    ∃ s', Reachable s s' ∧ Covers n' s' := by
  unfold Network.run? at hr
  dsimp only at hr
  split at hr
  · next key rest hx =>
    split_ifs at hr with hbusy
    obtain rfl : _ = n' := Option.some.inj hr
    have hnone : n.inHand = none := by
      simp only [not_or, Bool.not_eq_true, Option.isSome_eq_false_iff, Option.isNone_iff_eq_none]
        at hbusy
      exact hbusy.1
    have hdesk : s.desk = .idle := by
      rw [h.desk, hnone]
      rfl
    have hexited : s.exited = [] ++ key :: rest := by rw [← h.exited, hx]; rfl
    exact ⟨_, .of_step (.reap hdesk hexited), { h with server := by rw [h.server], exited := rfl }⟩
  · cases hr

/-- What a task does in its turn is a run of steps. -/
theorem Covers.run (h : Covers n s) (ht : n.InTime) {task : Task} (hr : n.run? task = some n') :
    ∃ s', Reachable s s' ∧ Covers n' s' := by
  cases task with
  | answer => exact h.answer hr
  | create => exact h.take hr
  | session index => exact h.session ht hr
  | reap => exact h.reap hr
  | stop =>
    -- Nobody has told the server to stop.
    unfold Network.run? at hr
    obtain ⟨mailbox, -, hr⟩ := Option.bind_eq_some_iff.1 hr
    split_ifs at hr with hstop
    rw [h.stopping] at hstop
    cases hstop.1
  | upload index => exact h.upload ht hr
  | renew =>
    unfold Network.run? at hr
    dsimp only at hr
    split_ifs at hr
    obtain rfl := Option.some.inj hr
    exact ⟨s, .start, { h with }⟩

end Fleet

/-! ### Runs of a network -/

namespace Network

variable {k : ℕ} {policy : Policy} {disk : Disk} {us : Fin k → Uploader} {n : Network}

/-- A network with uploads that have not begun. -/
def withUploads (policy : Policy) (disk : Disk) (us : Fin k → Uploader) : Network :=
  (List.ofFn us).foldl addUpload (start { policy } disk)

/-- Tasks have their turns in any order and at any times, and nobody runs out of time. -/
inductive Runs (n₀ : Network) : Network → Prop
  | start : Runs n₀ n₀
  | task {n n' : Network} (h : Runs n₀ n) (ht : n.InTime) {task : Task}
      (hr : n.run? task = some n') : Runs n₀ n'
  | wait {n : Network} (h : Runs n₀ n) (now : ℕ) : Runs n₀ { n with now }

theorem foldl_addUpload (n : Network) (uploaders : List Uploader) :
    uploaders.foldl addUpload n =
      { n with uploads := n.uploads ++ uploaders.map fun u => { uploader := u } } := by
  induction uploaders generalizing n with
  | nil => simp
  | cons u uploaders ih =>
    rw [List.foldl_cons, ih]
    simp [addUpload]

theorem covers_withUploads (policy : Policy) (disk : Disk) (us : Fin k → Uploader) :
    Fleet.Covers (withUploads policy disk us) (Fleet.start policy { disk } us) := by
  unfold withUploads
  rw [foldl_addUpload]
  exact
    { bus := rfl
      server := rfl
      storage := rfl
      requests := rfl
      desk := rfl
      runs := fun _ => rfl
      exited := rfl
      uploads := by
        show [] ++ (List.ofFn us).map _ = _
        rw [List.nil_append, List.map_ofFn]
        rfl
      idle := fun _ => rfl
      issued := fun _ h => by cases h
      running := fun _ h => by cases h
      isOpen := rfl
      stopping := rfl }

/-- A network is always in a state that a fleet reaches. -/
theorem covers_of_runs (h : Runs (withUploads policy disk us) n) :
    ∃ s, Fleet.Reachable (Fleet.start policy { disk } us) s ∧ Fleet.Covers n s := by
  induction h with
  | start => exact ⟨_, .start, covers_withUploads policy disk us⟩
  | task _ ht hr ih =>
    obtain ⟨s, hs, hcovers⟩ := ih
    obtain ⟨s', hs', hcovers'⟩ := hcovers.run ht hr
    exact ⟨s', hs.trans hs', hcovers'⟩
  | wait _ now ih =>
    obtain ⟨s, hs, hcovers⟩ := ih
    exact ⟨s, hs, { hcovers with }⟩

/-- An upload of a network returns with success only, and has sent its whole file. -/
theorem uploads_succeed (hu : Fleet.Setting policy disk us) (hw : ∀ i, (us i).stage = .waiting)
    (h : Runs (withUploads policy disk us) n) {i : Fin k} {t : UploadTask}
    (ht : n.uploads[(i : ℕ)]? = some t) {r : Except UploadError UploadOutcome}
    (hr : t.uploader.result? = some r) :
    ∃ id, r = .ok ⟨id, true, (us i).source.length⟩ := by
  obtain ⟨s, hs, hcovers⟩ := covers_of_runs h
  rw [hcovers.uploads, List.getElem?_ofFn, dif_pos i.isLt] at ht
  obtain rfl := Option.some.inj ht
  obtain ⟨id, hid, -⟩ := (Fleet.sound_of_reachable hu hw hs).result hr
  exact ⟨id, hid⟩

end Network

end PullIngest
