import PullIngest.Proofs.Fleet.Steps
import PullIngest.Proofs.Fleet.Turns

/-!
# The dialogue of one upload

An upload is a dialogue between an uploader and whoever works for it on the other side: first the
server, then a coordinator. Each of them is alone on the channels that it listens on, so a dialogue
does not need the bus: a message goes from one side to the boxes of the other.

* `Dialogue`: both sides, with what is in their boxes;
* `Position`: how far a dialogue without trouble has come;
* `Dialogue.load`: how much there is left to do in it;
* `Dialogue.UploadHears`, `Dialogue.RunHears`, `Dialogue.Enabled`: what can be done at once;
* `Position.nodup`, `length_le_one`, `result`, `enabled`: what holds in every position.
-/

namespace PullIngest

open Action

/-- Who works for an upload on the other side. -/
inductive Staff where
  | absent
  | holding (request : Message)
  | answering (todo : List Action) (opened : Option Coordinator)
  | running (coordinator : Coordinator) (todo : List Action)

/-- An upload seen from both sides. -/
structure Dialogue where
  stage : UploadStage
  /-- What the uploader has left to do. -/
  todo : List Action := []
  /-- The mailboxes of the uploader. -/
  ins : List (Channel × List Message) := []
  staff : Staff := .absent
  /-- The mailboxes of the other side. -/
  outs : List (Channel × List Message) := []
  /-- The create requests that are on their way. -/
  calls : List Message := []
  session : Option String := none
  /-- How often a range was asked for. -/
  asked : ℕ := 0

/-- The channels of a dialogue. -/
def Channel.belongs (correlation : String) (session : Option String) : Channel → Prop
  | create => False
  | reply c => c = correlation
  | start id | request id | response id | cancel id | done id => session = some id

/-- The channels that a coordinator listens on. -/
def Channel.posts (id : String) : List Channel := [.start id, .response id, .cancel id]

/-- The channels that an uploader listens on. -/
def Channel.listens (id : String) : List Channel := [.request id, .done id]

/-- Mailboxes without messages. -/
def empties (cs : List Channel) : List (Channel × List Message) := cs.map fun c => (c, [])

/-- Whether an action leaves the bus alone. -/
def Action.isQuiet : Action → Prop
  | sink _ => True
  | log _ => True
  | _ => False

/-- A transfer that has sent `n` bytes. -/
structure Transfer.At (id : String) (n : ℕ) (t : Transfer) : Prop where
  session : t.session = id
  open_ : t.cancelled = false
  sent : t.bytesSent.toNat = n

/-- A session that waits to be started. -/
inductive Ready (id : String) (chunk : UInt64) (size : ℕ) : Staff → Prop
  | answering {c : Coordinator} (hc : c.Serving id chunk size 0) (hp : c.session.phase = .created) :
      Ready id chunk size (.answering [] (some c))
  | running {c : Coordinator} (hc : c.Serving id chunk size 0) (hp : c.session.phase = .created) :
      Ready id chunk size (.running c [])

/-- A coordinator after its verdict. -/
inductive Leaving (id : String) : Staff → List (Channel × List Message) → Prop
  | lingers {c : Coordinator} (hid : c.session.id = id)
      (hs : c.stage = .exited ∨ ∃ expiry, c.stage = .lingering true expiry) :
      Leaving id (.running c []) (empties (Channel.posts id))
  | gone : Leaving id .absent []

/-- How far a dialogue has come. -/
inductive Position (chunk : UInt64) (u : Uploader) : Dialogue → Prop
  | waiting : Position chunk u { stage := .waiting }
  | calling {deadline : ℕ} : Position chunk u
      { stage := .creating deadline
        todo := [.subscribe (.reply u.correlation), .publish .create u.createRequest] }
  | dialled {deadline : ℕ} : Position chunk u
      { stage := .creating deadline
        todo := [.publish .create u.createRequest]
        ins := [(.reply u.correlation, [])] }
  | called {deadline : ℕ} : Position chunk u
      { stage := .creating deadline
        ins := [(.reply u.correlation, [])]
        calls := [u.createRequest] }
  | held {deadline : ℕ} : Position chunk u
      { stage := .creating deadline
        ins := [(.reply u.correlation, [])]
        staff := .holding u.createRequest }
  /-- The server opens the mailboxes of the session. -/
  | opening {deadline : ℕ} {id : String} {before after : List Channel}
      (hcs : before ++ after = Channel.posts id) {c : Coordinator}
      (hc : c.Serving id chunk u.source.length.toNat 0) (hp : c.session.phase = .created) :
      Position chunk u
        { stage := .creating deadline
          ins := [(.reply u.correlation, [])]
          staff := .answering (after.map .subscribe ++
            [.publish (.reply u.correlation) (createdMessage u.correlation id)]) (some c)
          outs := empties before
          session := some id }
  | answered {deadline : ℕ} {id : String} {staff : Staff}
      (hw : Ready id chunk u.source.length.toNat staff) :
      Position chunk u
        { stage := .creating deadline
          ins := [(.reply u.correlation, [createdMessage u.correlation id])]
          staff
          outs := empties (Channel.posts id)
          session := some id }
  | greeting {id : String} {t : Transfer} (ht : t.At id 0) {staff : Staff}
      (hw : Ready id chunk u.source.length.toNat staff) :
      Position chunk u
        { stage := .transferring t
          todo := [.unsubscribe (.reply u.correlation), .subscribe (.request id),
            .subscribe (.done id), .publish (.start id) (.signal id .start)]
          ins := [(.reply u.correlation, [])]
          staff
          outs := empties (Channel.posts id)
          session := some id }
  /-- The uploader opens its mailboxes. -/
  | joining {id : String} {before after : List Channel}
      (hcs : before ++ after = Channel.listens id) {t : Transfer} (ht : t.At id 0) {staff : Staff}
      (hw : Ready id chunk u.source.length.toNat staff) :
      Position chunk u
        { stage := .transferring t
          todo := after.map .subscribe ++ [.publish (.start id) (.signal id .start)]
          ins := empties before
          staff
          outs := empties (Channel.posts id)
          session := some id }
  | started {id : String} {t : Transfer} (ht : t.At id 0) {staff : Staff}
      (hw : Ready id chunk u.source.length.toNat staff) :
      Position chunk u
        { stage := .transferring t
          ins := empties (Channel.listens id)
          staff
          outs := [(.start id, [.signal id .start]), (.response id, []), (.cancel id, [])]
          session := some id }
  /-- The coordinator is about to ask for a range. -/
  | asking {id : String} {n asked : ℕ} {r : ByteRange} {t : Transfer} (ht : t.At id n)
      {todo before : List Action} (hq : ∀ a ∈ todo, a.isQuiet) (hb : ∀ a ∈ before, a.isQuiet)
      {c : Coordinator} (hc : c.Awaiting id chunk u.source.length.toNat n r)
      (ha : asked + rangeCount chunk.toNat (u.source.length.toNat - n) =
        rangeCount chunk.toNat u.source.length.toNat) :
      Position chunk u
        { stage := .transferring t
          todo
          ins := empties (Channel.listens id)
          staff := .running c (before ++ [.publish (.request id) (rangeMessage id r)])
          outs := empties (Channel.posts id)
          session := some id
          asked }
  | asked {id : String} {n asked : ℕ} {r : ByteRange} {t : Transfer} (ht : t.At id n)
      {todo : List Action} (hq : ∀ a ∈ todo, a.isQuiet)
      {c : Coordinator} (hc : c.Awaiting id chunk u.source.length.toNat n r)
      (ha : asked + rangeCount chunk.toNat (u.source.length.toNat - n) =
        rangeCount chunk.toNat u.source.length.toNat + 1) :
      Position chunk u
        { stage := .transferring t
          todo
          ins := [(.request id, [rangeMessage id r]), (.done id, [])]
          staff := .running c []
          outs := empties (Channel.posts id)
          session := some id
          asked }
  /-- The uploader is about to send the bytes. -/
  | answering {id : String} {n asked : ℕ} {r : ByteRange} {t : Transfer}
      (ht : t.At id (n + r.size.toNat)) {todo : List Action} (hq : ∀ a ∈ todo, a.isQuiet)
      {data : List UInt8} (hdata : data.length = r.size.toNat)
      {c : Coordinator} (hc : c.Awaiting id chunk u.source.length.toNat n r)
      (ha : asked + rangeCount chunk.toNat (u.source.length.toNat - (n + r.size.toNat)) =
        rangeCount chunk.toNat u.source.length.toNat) :
      Position chunk u
        { stage := .transferring t
          todo := .publish (.response id) (bytesMessage id r data) :: todo
          ins := empties (Channel.listens id)
          staff := .running c []
          outs := empties (Channel.posts id)
          session := some id
          asked }
  | responded {id : String} {n asked : ℕ} {r : ByteRange} {t : Transfer}
      (ht : t.At id (n + r.size.toNat)) {todo : List Action} (hq : ∀ a ∈ todo, a.isQuiet)
      {data : List UInt8} (hdata : data.length = r.size.toNat)
      {c : Coordinator} (hc : c.Awaiting id chunk u.source.length.toNat n r)
      (ha : asked + rangeCount chunk.toNat (u.source.length.toNat - (n + r.size.toNat)) =
        rangeCount chunk.toNat u.source.length.toNat) :
      Position chunk u
        { stage := .transferring t
          todo
          ins := empties (Channel.listens id)
          staff := .running c []
          outs := [(.start id, []), (.response id, [bytesMessage id r data]), (.cancel id, [])]
          session := some id
          asked }
  /-- The coordinator is about to tell the verdict. -/
  | concluding {id : String} {t : Transfer} (ht : t.At id u.source.length.toNat)
      {todo before : List Action} (hq : ∀ a ∈ todo, a.isQuiet) (hb : ∀ a ∈ before, a.isQuiet)
      {c : Coordinator} (hid : c.session.id = id) (hs : ∃ expiry, c.stage = .lingering true expiry) :
      Position chunk u
        { stage := .transferring t
          todo
          ins := empties (Channel.listens id)
          staff := .running c (before ++ [.publish (.done id) (doneMessage id)])
          outs := empties (Channel.posts id)
          session := some id
          asked := rangeCount chunk.toNat u.source.length.toNat }
  | concluded {id : String} {t : Transfer} (ht : t.At id u.source.length.toNat)
      {todo : List Action} (hq : ∀ a ∈ todo, a.isQuiet) {staff : Staff}
      {outs : List (Channel × List Message)} (hw : Leaving id staff outs) :
      Position chunk u
        { stage := .transferring t
          todo
          ins := [(.request id, []), (.done id, [doneMessage id])]
          staff
          outs
          session := some id
          asked := rangeCount chunk.toNat u.source.length.toNat }
  /-- The uploader has returned and may still have its mailboxes. -/
  | returned {id : String} {ins : List (Channel × List Message)}
      (hins : ins = empties (Channel.listens id) ∨ ins = []) {staff : Staff}
      {outs : List (Channel × List Message)} (hw : Leaving id staff outs) :
      Position chunk u
        { stage := .finished (.ok ⟨id, true, u.source.length⟩)
          ins
          staff
          outs
          session := some id
          asked := rangeCount chunk.toNat u.source.length.toNat }

/-! ### What is left to do -/

/-- What mailboxes with their messages lead to. -/
def boxesLoad (boxes : List (Channel × List Message)) : ℕ :=
  (boxes.map fun i => 1 + i.1.load * i.2.length).sum

/-- What the other side leads to. -/
def Staff.load : Staff → ℕ
  | absent => 0
  | holding _ => 21
  | answering todo opened => 1 + loads todo + (opened.map fun c => c.stage.load).getD 0
  | running c todo => c.stage.load + loads todo

/-- What a dialogue leads to. -/
def Dialogue.load (chunk : ℕ) (u : Uploader) (x : Dialogue) : ℕ :=
  { u with stage := x.stage }.load chunk + loads x.todo + boxesLoad x.ins + x.staff.load
    + boxesLoad x.outs + Channel.create.load * x.calls.length

@[simp] theorem rangeCount_zero (chunk : ℕ) : rangeCount chunk 0 = 0 := zero_ceilDiv chunk

/-- A range less. -/
theorem rangeCount_sub {chunk n : ℕ} (hc : 0 < chunk) (hn : 0 < n) :
    rangeCount chunk n = rangeCount chunk (n - min n chunk) + 1 := by
  unfold rangeCount
  rcases Nat.le_total n chunk with hle | hle
  · rw [Nat.min_eq_left hle, Nat.sub_self, zero_ceilDiv, Nat.ceilDiv_eq_add_pred_div]
    exact Nat.div_eq_of_lt_le (by omega) (by omega)
  · rw [Nat.min_eq_right hle, Nat.ceilDiv_eq_add_pred_div, Nat.ceilDiv_eq_add_pred_div,
      ← Nat.add_div_right _ hc]
    congr 1
    omega

@[simp] theorem Action.loads_nil : loads [] = 0 := rfl

@[simp] theorem Action.loads_cons (a : Action) (as : List Action) : loads (a :: as) = a.load + loads as := by
  simp [loads]

@[simp] theorem Action.loads_append (as bs : List Action) : loads (as ++ bs) = loads as + loads bs := by
  simp [loads]

@[simp] theorem Action.loads_logs (lines : List String) : loads (logs lines) = lines.length := by
  induction lines with
  | nil => rfl
  | cons line lines ih =>
    rw [show logs (line :: lines) = .log line :: logs lines from rfl, loads_cons, ih]
    exact Nat.add_comm 1 _

@[simp] theorem boxesLoad_nil : boxesLoad [] = 0 := rfl

@[simp] theorem boxesLoad_cons (i : Channel × List Message) (boxes : List (Channel × List Message)) :
    boxesLoad (i :: boxes) = 1 + i.1.load * i.2.length + boxesLoad boxes := by
  simp [boxesLoad]

@[simp] theorem boxesLoad_append (boxes boxes' : List (Channel × List Message)) :
    boxesLoad (boxes ++ boxes') = boxesLoad boxes + boxesLoad boxes' := by
  simp [boxesLoad]

/-! ### Actions -/

/-- How often an action asks for a range. -/
def Action.asks : Action → ℕ
  | publish (.request _) _ => 1
  | _ => 0

namespace Action

variable {a : Action}

theorem isQuiet.mine (h : a.isQuiet) (boxes : List (Channel × List Message)) :
    a.mine boxes = boxes := by
  cases a <;> first | rfl | exact h.elim

theorem isQuiet.theirs (h : a.isQuiet) (boxes : List (Channel × List Message)) :
    a.theirs boxes = boxes := by
  cases a <;> first | rfl | exact h.elim

theorem isQuiet.asks (h : a.isQuiet) : a.asks = 0 := by
  cases a <;> first | rfl | exact h.elim

theorem isQuiet.load (h : a.isQuiet) : a.load = 1 := by
  cases a <;> first | rfl | exact h.elim

theorem isQuiet.smooth (h : a.isQuiet) (own : Channel → Prop)
    (boxes boxes' : List (Channel × List Message)) : a.Smooth own boxes boxes' := by
  cases a with
  | sink => trivial
  | log => trivial
  | publish | subscribe | unsubscribe => exact h.elim

end Action

@[simp] theorem map_fst_empties (cs : List Channel) : (empties cs).map Prod.fst = cs := by
  simp [empties, Function.comp_def]

@[simp] theorem cons_notMem_empties (c : Channel) (m : Message) (q : List Message)
    (cs : List Channel) : (c, m :: q) ∉ empties cs := by
  simp [empties]

theorem empties_append (cs cs' : List Channel) :
    empties (cs ++ cs') = empties cs ++ empties cs' := List.map_append

namespace Dialogue

/-- The uploader does the next thing of its turn. -/
def uploadAct (x : Dialogue) (a : Action) (rest : List Action) : Dialogue :=
  { x with todo := rest, ins := a.mine x.ins, outs := a.theirs x.outs, asked := x.asked + a.asks }

/-- The server does the next thing of its answer. -/
def deskAct (x : Dialogue) (a : Action) (rest : List Action) (opened : Option Coordinator) :
    Dialogue :=
  { x with staff := .answering rest opened, ins := a.theirs x.ins, outs := a.mine x.outs
           asked := x.asked + a.asks }

/-- The coordinator does the next thing of its turn. -/
def runAct (x : Dialogue) (c : Coordinator) (a : Action) (rest : List Action) : Dialogue :=
  { x with staff := .running c rest, ins := a.theirs x.ins, outs := a.mine x.outs
           asked := x.asked + a.asks }

/-- What the uploader can take an event from, and its mailboxes after that. -/
inductive UploadHears (u : Uploader) (x : Dialogue) :
    UploadEvent → List (Channel × List Message) → Prop
  | begin (hs : x.stage = .waiting) : UploadHears u x .begin x.ins
  | reply {deadline : ℕ} (hs : x.stage = .creating deadline) {m : Message} {q : List Message}
      (hm : (.reply u.correlation, m :: q) ∈ x.ins) :
      UploadHears u x (.reply m) (pop (.reply u.correlation) x.ins)
  | request {t : Transfer} (hs : x.stage = .transferring t) {m : Message} {q : List Message}
      (hm : (.request t.session, m :: q) ∈ x.ins) :
      UploadHears u x (.request m) (pop (.request t.session) x.ins)
  | done {t : Transfer} (hs : x.stage = .transferring t) {m : Message} {q : List Message}
      (hm : (.done t.session, m :: q) ∈ x.ins) :
      UploadHears u x (.done m) (pop (.done t.session) x.ins)

/-- What a coordinator can take an event from, and its mailboxes after that. -/
inductive RunHears (c : Coordinator) (x : Dialogue) : Event → List (Channel × List Message) → Prop
  | start {m : Message} {q : List Message} (hm : (.start c.session.id, m :: q) ∈ x.outs) :
      RunHears c x (.start m) (pop (.start c.session.id) x.outs)
  | response {m : Message} {q : List Message} (hm : (.response c.session.id, m :: q) ∈ x.outs) :
      RunHears c x (.response m) (pop (.response c.session.id) x.outs)
  | cancel {m : Message} {q : List Message} (hm : (.cancel c.session.id, m :: q) ∈ x.outs) :
      RunHears c x (.cancel m) (pop (.cancel c.session.id) x.outs)
  | grace {success : Bool} {expiry : ℕ} (hs : c.stage = .lingering success expiry) :
      RunHears c x .timer x.outs

/-- Something can be done for an upload at once. -/
inductive Enabled (u : Uploader) (x : Dialogue) : Prop
  | uploadAct {a : Action} {rest : List Action} (ht : x.todo = a :: rest)
  | uploadTurn (ht : x.todo = []) {e : UploadEvent} {ins : List (Channel × List Message)}
      (he : x.UploadHears u e ins)
  | answer {m : Message} (hs : x.staff = .holding m)
  | deskAct {a : Action} {rest : List Action} {opened : Option Coordinator}
      (hs : x.staff = .answering (a :: rest) opened)
  | launch {opened : Option Coordinator} (hs : x.staff = .answering [] opened)
  | runAct {c : Coordinator} {a : Action} {rest : List Action} (hs : x.staff = .running c (a :: rest))
  | runTurn {c : Coordinator} (hs : x.staff = .running c []) (hx : c.stage ≠ .exited) {e : Event}
      {outs : List (Channel × List Message)} (he : x.RunHears c e outs)

variable {u : Uploader} {x : Dialogue} {e : UploadEvent} {boxes : List (Channel × List Message)}

theorem UploadHears.ne_finished (h : x.UploadHears u e boxes)
    {r : Except UploadError UploadOutcome} : x.stage ≠ .finished r := by
  intro hr
  cases h <;> simp_all

/-- An uploader that has begun takes a message. -/
theorem UploadHears.exists_message (h : x.UploadHears u e boxes) (hs : x.stage ≠ .waiting) :
    ∃ c m q, (c, m :: q) ∈ x.ins := by
  cases h with
  | begin hw => exact absurd hw hs
  | reply _ hm | request _ hm | done _ hm => exact ⟨_, _, _, hm⟩

/-- A coordinator that has given no verdict takes a message. -/
theorem RunHears.ne_empties {c : Coordinator} {e : Event} (h : x.RunHears c e boxes)
    (hs : ∃ deadline, c.stage = .pulling deadline) (cs : List Channel) : x.outs ≠ empties cs := by
  intro hx
  cases h with
  | start hm | response hm | cancel hm => simp [hx] at hm
  | grace hl =>
    obtain ⟨deadline, hs⟩ := hs
    rw [hl] at hs
    cases hs

/-- A dialogue is in a position with less to do than another one. -/
structure Ahead (chunk : UInt64) (u : Uploader) (x x' : Dialogue) : Prop where
  position : Position chunk u x'
  load_lt : x'.load chunk.toNat u < x.load chunk.toNat u

end Dialogue

namespace Position

variable {chunk : UInt64} {u : Uploader} {x : Dialogue}

/-! ### What holds in every position -/

/-- All mailboxes are on different channels. -/
theorem nodup (h : Position chunk u x) : ((x.ins ++ x.outs).map Prod.fst).Nodup := by
  have hleaving : ∀ {id staff outs}, Leaving id staff outs →
      outs = empties (Channel.posts id) ∨ outs = [] := by
    intro id staff outs hw
    cases hw
    · exact .inl rfl
    · exact .inr rfl
  cases h
  case opening deadline id before after hcs _ _ _ =>
    have hsub : before.Sublist (Channel.posts id) := hcs ▸ List.sublist_append_left before after
    have hall : (.reply u.correlation :: Channel.posts id).Nodup := by simp [Channel.posts]
    simpa using hall.sublist (hsub.cons_cons _)
  case joining id before after hcs _ _ _ _ =>
    have hsub : before.Sublist (Channel.listens id) := hcs ▸ List.sublist_append_left before after
    have hall : (Channel.listens id ++ Channel.posts id).Nodup := by
      simp [Channel.listens, Channel.posts]
    simpa using hall.sublist (hsub.append_right _)
  case concluded hw => rcases hleaving hw with rfl | rfl <;> simp [Channel.posts]
  case returned hins _ _ hw =>
    rcases hleaving hw with rfl | rfl <;> rcases hins with rfl | rfl <;>
      simp [Channel.posts, Channel.listens]
  all_goals simp [Channel.listens, Channel.posts]

/-- No mailbox holds more than one message. -/
theorem length_le_one (h : Position chunk u x) : ∀ i ∈ x.ins ++ x.outs, i.2.length ≤ 1 := by
  have hempty : ∀ cs, ∀ i ∈ empties cs, i.2.length ≤ 1 := by simp [empties]
  have hleaving : ∀ {id staff outs}, Leaving id staff outs → ∀ i ∈ outs, i.2.length ≤ 1 := by
    intro id staff outs hw
    cases hw with
    | lingers => exact hempty _
    | gone => simp
  rw [List.forall_mem_append]
  cases h
  case concluded hw => exact ⟨by simp, hleaving hw⟩
  case returned hins _ _ hw =>
    refine ⟨?_, hleaving hw⟩
    rcases hins with rfl | rfl
    · exact hempty _
    · simp
  all_goals exact ⟨by simp [empties], by simp [empties]⟩

/-- A request is not repeated. -/
theorem calls_le_one (h : Position chunk u x) : x.calls.length ≤ 1 := by
  cases h <;> simp

/-- An upload that has returned has sent its file, each range once. -/
theorem result (h : Position chunk u x) {r : Except UploadError UploadOutcome}
    (hs : x.stage = .finished r) : ∃ id, r = .ok ⟨id, true, u.source.length⟩ ∧
      x.session = some id ∧ x.asked = rangeCount chunk.toNat u.source.length.toNat := by
  cases h
  case returned id _ _ _ _ _ =>
    obtain rfl : _ = r := by simpa using hs
    exact ⟨id, rfl, rfl, rfl⟩
  all_goals cases hs

/-- An upload that has not returned waits for nobody but a server that has yet to take its
request. -/
theorem enabled (h : Position chunk u x) (hc : x.calls = [])
    (hs : ∀ r, x.stage ≠ .finished r) : x.Enabled u := by
  cases h
  case waiting => exact .uploadTurn rfl (.begin rfl)
  case calling => exact .uploadAct rfl
  case dialled => exact .uploadAct rfl
  case called => cases hc
  case held => exact .answer rfl
  case opening after _ _ _ _ => cases after <;> exact .deskAct rfl
  case answered => exact .uploadTurn rfl (.reply rfl (List.mem_singleton_self _))
  case greeting => exact .uploadAct rfl
  case joining after _ _ _ _ _ => cases after <;> exact .uploadAct rfl
  case started hw =>
    cases hw with
    | answering => exact .launch rfl
    | running hserving =>
      obtain rfl := hserving.id_eq
      exact .runTurn rfl hserving.ne_exited (.start List.mem_cons_self)
  case asking before _ _ _ _ _ => cases before <;> exact .runAct rfl
  case asked ht todo _ _ _ _ =>
    cases todo with
    | nil =>
      obtain rfl := ht.session
      exact .uploadTurn rfl (.request rfl List.mem_cons_self)
    | cons => exact .uploadAct rfl
  case answering => exact .uploadAct rfl
  case responded hcoord _ =>
    obtain rfl := hcoord.id_eq
    exact .runTurn rfl hcoord.ne_exited (.response (List.mem_cons_of_mem _ List.mem_cons_self))
  case concluding before _ _ _ _ _ => cases before <;> exact .runAct rfl
  case concluded ht todo _ _ _ _ =>
    cases todo with
    | nil =>
      obtain rfl := ht.session
      exact .uploadTurn rfl (.done rfl (List.mem_cons_of_mem _ List.mem_cons_self))
    | cons => exact .uploadAct rfl
  case returned => exact absurd rfl (hs _)

end Position

end PullIngest
