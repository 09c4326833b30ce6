import PullIngest.Coordinator
import PullIngest.Proofs.Session.Soundness

/-!
# Turns and runs of a coordinator

One coordinator takes any events in any order. An `Occasion` is an event with everything that the
coordinator finds when it takes it, so nothing is assumed about the clock, about which channels the
bus takes messages on, or about what other sessions did to the shared storage meanwhile.

* `take`, `after`, `deeds`: one turn, and a run of turns with everything that was done in it;
* `Pulls`, `Continues`: everything that a turn can do before the verdict (`pulls_take`,
  `continues_requestNext`);
* `Concludes`: what a turn does that gives the verdict;
* `Lingers`: what a turn does while the verdict is repeated (`lingers_take`).
-/

namespace PullIngest

/-- Whether an action is a line in the log. -/
def Action.isLog : Action → Bool
  | .log _ => true
  | _ => false

/-- What is seen of a list of actions outside the log. -/
def Action.outward (as : List Action) : List Action := as.filter fun a => !a.isLog

namespace Action

@[simp] theorem outward_nil : outward [] = [] := rfl

@[simp] theorem outward_append (as bs : List Action) :
    outward (as ++ bs) = outward as ++ outward bs := List.filter_append as bs

@[simp] theorem outward_logs (lines : List String) : outward (logs lines) = [] := by
  simp [outward, logs, isLog]

@[simp] theorem outward_log (line : String) (as : List Action) :
    outward (.log line :: as) = outward as := rfl

@[simp] theorem outward_sink (call : SinkCall) (as : List Action) :
    outward (.sink call :: as) = .sink call :: outward as := rfl

@[simp] theorem outward_publish (channel : Channel) (m : Message) (as : List Action) :
    outward (.publish channel m :: as) = .publish channel m :: outward as := rfl

/-- The messages that a list of actions publishes. -/
def published (as : List Action) : List (Channel × Message) :=
  as.filterMap fun
    | .publish channel m => some (channel, m)
    | _ => none

@[simp] theorem published_append (as bs : List Action) :
    published (as ++ bs) = published as ++ published bs := List.filterMap_append

@[simp] theorem published_logs (lines : List String) : published (logs lines) = [] := by
  simp [published, logs]

theorem mem_published {channel : Channel} {m : Message} {as : List Action} :
    (channel, m) ∈ published as ↔ .publish channel m ∈ as := by
  simp only [published, List.mem_filterMap]
  constructor
  · rintro ⟨a, ha, h⟩
    split at h
    · next channel' m' =>
      obtain ⟨rfl, rfl⟩ : channel' = channel ∧ m' = m := by simpa using h
      exact ha
    · cases h
  · intro h
    exact ⟨_, h, rfl⟩

theorem mem_outward {a : Action} (ha : a.isLog = false) {as : List Action} :
    a ∈ outward as ↔ a ∈ as := by
  simp [outward, List.mem_filter, ha]

end Action

/-- Whether an event asks for the verdict once more. -/
def Event.isStart : Event → Bool
  | .start _ => true
  | _ => false

/-- Whether an event ends the time in which the verdict is repeated. -/
def Event.endsGrace : Event → Bool
  | .timer | .shutdown | .closed .start => true
  | _ => false

namespace Coordinator

open Action

/-- An event with everything that a coordinator finds when it takes it. -/
structure Occasion where
  event : Event
  /-- Whether the bus takes a message on a channel now. -/
  accepts : Channel → Bool
  now : ℕ
  /-- What sinks write to. Other sessions may have changed it since the last turn. -/
  storage : Storage

/-- One turn of a coordinator. -/
def take (c : Coordinator) (x : Occasion) : Turn := c.step x.accepts x.now x.storage x.event

/-- The coordinator behind a run. -/
def after (c : Coordinator) (xs : List Occasion) : Coordinator :=
  xs.foldl (fun c x => (c.take x).coordinator) c

/-- Everything that is done in a run, in order. -/
def deeds (c : Coordinator) : List Occasion → List Action
  | [] => []
  | x :: xs => (c.take x).actions ++ (c.take x).coordinator.deeds xs

@[simp] theorem after_nil (c : Coordinator) : c.after [] = c := rfl

@[simp] theorem after_cons (c : Coordinator) (x : Occasion) (xs : List Occasion) :
    c.after (x :: xs) = (c.take x).coordinator.after xs := rfl

theorem after_append (c : Coordinator) (xs ys : List Occasion) :
    c.after (xs ++ ys) = (c.after xs).after ys := List.foldl_append

@[simp] theorem deeds_nil (c : Coordinator) : c.deeds [] = [] := rfl

@[simp] theorem deeds_cons (c : Coordinator) (x : Occasion) (xs : List Occasion) :
    c.deeds (x :: xs) = (c.take x).actions ++ (c.take x).coordinator.deeds xs := rfl

theorem deeds_append (c : Coordinator) (xs ys : List Occasion) :
    c.deeds (xs ++ ys) = c.deeds xs ++ (c.after xs).deeds ys := by
  induction xs generalizing c with
  | nil => rfl
  | cons x xs ih => simp [ih]

/-- What holds at first and is kept by every turn holds behind every run, together with what was
done in it. -/
theorem run_induction {motive : Coordinator → List Action → Prop}
    (step : ∀ c done x, motive c done → motive (c.take x).coordinator (done ++ (c.take x).actions))
    {c : Coordinator} (start : motive c []) (xs : List Occasion) :
    motive (c.after xs) (c.deeds xs) := by
  -- The induction is on the run, with any actions in front of it.
  suffices key : ∀ (xs : List Occasion) (c : Coordinator) (done : List Action), motive c done →
      motive (c.after xs) (done ++ c.deeds xs) from key xs c [] start
  intro xs
  induction xs with
  | nil => intro c done h; simpa using h
  | cons x xs ih =>
    intro c done h
    have := ih _ _ (step c done x h)
    simpa [List.append_assoc] using this

/-! ### Giving the verdict -/

/-- Telling a verdict. -/
def tellsVerdict (session : String) (success : Bool) : Action :=
  .publish (.done session) (.carrying session .done (Done.mk success))

/-- Asking for a range. -/
def asksFor (session : String) (r : ByteRange) : Action :=
  .publish (.request session) (.carrying session .chunkRequest (ChunkRequest.mk r.offset r.size))

/-- A turn that gives the verdict on what `c` has taken in, after the actions `before`: the sink is
called once, and the verdict is told right after that. -/
structure Concludes (c : Coordinator) (before : List Action) (call : SinkCall) (success : Bool)
    (t : Turn) : Prop where
  session_eq : t.coordinator.session = (c.session.finish success).2
  policy_eq : t.coordinator.policy = c.policy
  lingers : ∃ expiry, t.coordinator.stage = .lingering success expiry
  outward_eq :
    outward t.actions = outward before ++ [.sink call, tellsVerdict c.session.id success]

theorem Concludes.delivered_eq {c : Coordinator} {before : List Action} {call : SinkCall}
    {success : Bool} {t : Turn} (h : Concludes c before call success t) :
    t.coordinator.session.delivered = c.session.delivered := by
  rw [h.session_eq, Session.finish_delivered]

theorem Concludes.declaredSize_eq {c : Coordinator} {before : List Action} {call : SinkCall}
    {success : Bool} {t : Turn} (h : Concludes c before call success t) :
    t.coordinator.session.declaredSize = c.session.declaredSize := by
  rw [h.session_eq, Session.finish_declaredSize]

section Ending

variable (c : Coordinator) (accepts : Channel → Bool) (now : ℕ) (storage : Storage)
  (actions : List Action)

@[simp] theorem outward_publishDone (success : Bool) :
    outward (c.publishDone accepts success) = [tellsVerdict c.session.id success] := by
  unfold publishDone
  dsimp only
  split_ifs <;> rfl

theorem abort_concludes (why : Abort) :
    Concludes c actions (.fail why.message) false (c.abort accepts now storage actions why) where
  session_eq := rfl
  policy_eq := rfl
  lingers := ⟨_, rfl⟩
  outward_eq := by simp [abort, conclude]

theorem finalize_concludes :
    Concludes c actions (.finalize (c.sink.finalize storage).1) (c.sink.finalize storage).1
      (c.finalize accepts now storage actions) where
  session_eq := rfl
  policy_eq := rfl
  lingers := ⟨_, rfl⟩
  outward_eq := by
    simp only [finalize, conclude]
    split_ifs <;> simp

end Ending

/-! ### Everything that a turn can do before the verdict -/

/-- What asking for the next range can lead to, in a session that has none outstanding. -/
inductive Continues (c : Coordinator) (accepts : Channel → Bool) (now : ℕ) (storage : Storage)
    (actions : List Action) : Turn → Prop
  | asks (hr : c.session.declaredSize - c.session.delivered ≠ 0) (hc : c.policy.chunkSize ≠ 0) :
      Continues c accepts now storage actions
        ⟨{ c with session := c.session.awaiting (c.session.nextRange c.policy.chunkSize) }, storage,
          actions ++ [asksFor c.session.id (c.session.nextRange c.policy.chunkSize)]⟩
  /-- The bus refuses the request. -/
  | unheard (hr : c.session.declaredSize - c.session.delivered ≠ 0) (hc : c.policy.chunkSize ≠ 0)
      (why : Abort) :
      Continues c accepts now storage actions
        ({ c with session :=
            c.session.awaiting (c.session.nextRange c.policy.chunkSize) }.abort accepts now storage
          (actions ++ [asksFor c.session.id (c.session.nextRange c.policy.chunkSize)]) why)
  | completes (hr : c.session.declaredSize - c.session.delivered = 0) :
      Continues c accepts now storage actions (c.finalize accepts now storage actions)
  | fails (why : Abort) :
      Continues c accepts now storage actions (c.abort accepts now storage actions why)

theorem continues_requestNext (c : Coordinator) (accepts : Channel → Bool) (now : ℕ)
    (storage : Storage) (actions : List Action)
    (hp : c.session.phase = .started ∨ c.session.phase = .requesting) :
    Continues c accepts now storage actions (c.requestNext accepts now storage actions) := by
  unfold requestNext
  rcases c.session.nextRequest_cases c.policy.chunkSize with
    ⟨e, h⟩ | ⟨ha, -⟩ | ⟨-, hr, h⟩ | ⟨-, hr, hc, h⟩
  · rw [h]; exact .fails _
  · rcases hp with hp | hp <;> rw [hp] at ha <;> cases ha
  · rw [h]; exact .completes hr
  · rw [h]
    dsimp only
    split_ifs
    · exact .asks hr hc
    · exact .unheard hr hc _

/-- The event is a response that carries exactly the outstanding range. -/
structure Answers (c : Coordinator) (x : Occasion) (r : ChunkResponse) (data : List UInt8) :
    Prop where
  event : ∃ m, x.event = .response m ∧ m.payloadAs ChunkResponse .chunkResponse = .ok r
  bytes : r.bytes = .ok data
  outstanding : c.session.outstanding = some ⟨r.offset, r.size⟩
  length : data.length = r.size.toNat

/-- What a turn can do before the verdict. -/
inductive Pulls (c : Coordinator) (x : Occasion) : Turn → Prop
  /-- Nothing moves, but a violation may be counted. -/
  | waits (violations : UInt32) (lines : List String) :
      Pulls c x ⟨{ c with session := { c.session with violations } }, x.storage, logs lines⟩
  | fails (violations : UInt32) (why : Abort) (lines : List String) :
      Pulls c x ({ c with session := { c.session with violations } }.abort x.accepts x.now
        x.storage (logs lines) why)
  | starts (hp : c.session.phase = .created) :
      Pulls c x ({ c with session := { c.session with phase := .started } }.progress x.accepts
        x.now x.storage [])
  /-- The sink refuses the bytes of the outstanding range. -/
  | refuses {r : ChunkResponse} {data : List UInt8} (h : Answers c x r data) (why : Abort) :
      Pulls c x ({ c with session := c.session.advancedBy r.size }.abort x.accepts x.now x.storage
        [.sink (.accept r.offset data)] why)
  /-- The sink takes the bytes of the outstanding range. -/
  | takes {r : ChunkResponse} {data : List UInt8} {sink : Sink} {storage : Storage}
      (h : Answers c x r data) (hs : c.sink.accept x.storage r.offset data = .ok (sink, storage)) :
      Pulls c x ({ c with session := c.session.advancedBy r.size, sink }.progress x.accepts x.now
        storage [.sink (.accept r.offset data)])

theorem pulls_violation (c : Coordinator) (x : Occasion) (text : String) :
    Pulls c x (c.violation x.accepts x.now x.storage text) := by
  unfold violation Session.recordViolation
  dsimp only
  split_ifs
  · exact .fails (c.session.violations + 1) _ ["WARN protocol violation: " ++ text]
  · exact .waits (c.session.violations + 1) ["WARN protocol violation: " ++ text]

theorem pulls_onResponse {c : Coordinator} {x : Occasion} {m : Message}
    (hx : x.event = .response m) :
    Pulls c x (c.onResponse x.accepts x.now x.storage m) := by
  unfold onResponse
  split
  · exact pulls_violation c x _
  · next r hm =>
    split
    · exact pulls_violation c x _
    · next data hd =>
      rcases c.session.acceptPayload_cases r.offset r.size data.length with
        ⟨e, h⟩ | h | ⟨-, ho, hl, _, h⟩
      · rw [h]
        dsimp only
        split_ifs
        · exact .fails c.session.violations _ []
        · exact pulls_violation c x _
      · rw [h]; exact .waits c.session.violations []
      · have ha : Answers c x r data := ⟨⟨m, hx, hm⟩, hd, ho, hl⟩
        rw [h]
        dsimp only
        split
        · exact .refuses ha _
        · next hs => exact .takes ha hs

/-- Everything that a turn can do before the verdict. -/
theorem pulls_take {c : Coordinator} {deadline : ℕ} (h : c.stage = .pulling deadline)
    (x : Occasion) : Pulls c x (c.take x) := by
  unfold take step
  rw [h]
  cases hx : x.event with
  | start m =>
    dsimp only
    unfold onStart
    rcases c.session.start_cases with ⟨hp, e⟩ | ⟨-, e⟩
    · rw [e]; exact .starts hp
    · rw [e]; exact .waits c.session.violations []
  | response m => exact pulls_onResponse hx
  | cancel m => exact .fails c.session.violations _ []
  | closed inbox => exact .fails c.session.violations _ []
  | timer => exact .fails c.session.violations _ []
  | shutdown => exact .fails c.session.violations _ []

/-! ### After the verdict -/

/-- What a turn does while the verdict is repeated. -/
structure Lingers (c : Coordinator) (success : Bool) (x : Occasion) (t : Turn) : Prop where
  session_eq : t.coordinator.session = c.session
  policy_eq : t.coordinator.policy = c.policy
  sink_eq : t.coordinator.sink = c.sink
  storage_eq : t.storage = x.storage
  stage_eq : t.coordinator.stage = if x.event.endsGrace then .exited else c.stage
  outward_eq :
    outward t.actions = if x.event.isStart then [tellsVerdict c.session.id success] else []

theorem lingers_take {c : Coordinator} {success : Bool} {expiry : ℕ}
    (h : c.stage = .lingering success expiry) (x : Occasion) : Lingers c success x (c.take x) := by
  unfold take step
  rw [h]
  cases hx : x.event with
  | closed inbox =>
    cases inbox <;>
      exact ⟨rfl, rfl, rfl, rfl, by simp [hx, h, Event.endsGrace], by simp [hx, Event.isStart]⟩
  | _ => exact ⟨rfl, rfl, rfl, rfl, by simp [hx, h, Event.endsGrace], by simp [hx, Event.isStart]⟩

theorem take_exited {c : Coordinator} (h : c.stage = .exited) (x : Occasion) :
    c.take x = ⟨c, x.storage, []⟩ := by
  unfold take step
  rw [h]

/-! ### What a run never changes -/

/-- The same file under the same rules. -/
structure SameFile (c c' : Coordinator) : Prop where
  id_eq : c'.session.id = c.session.id
  name_eq : c'.session.name = c.session.name
  declaredSize_eq : c'.session.declaredSize = c.session.declaredSize
  policy_eq : c'.policy = c.policy

theorem SameFile.refl (c : Coordinator) : SameFile c c := ⟨rfl, rfl, rfl, rfl⟩

theorem SameFile.trans {c c' c'' : Coordinator} (h : SameFile c c') (h' : SameFile c' c'') :
    SameFile c c'' :=
  ⟨h'.id_eq.trans h.id_eq, h'.name_eq.trans h.name_eq,
    h'.declaredSize_eq.trans h.declaredSize_eq, h'.policy_eq.trans h.policy_eq⟩

section

variable {c₀ c : Coordinator} {accepts : Channel → Bool} {now : ℕ} {storage : Storage}
  {actions : List Action} {t : Turn}

theorem SameFile.concludes {call : SinkCall} {success : Bool} (h : SameFile c₀ c)
    (ht : Concludes c actions call success t) : SameFile c₀ t.coordinator :=
  h.trans
    { id_eq := by rw [ht.session_eq, Session.finish_id]
      name_eq := by rw [ht.session_eq, Session.finish_name]
      declaredSize_eq := ht.declaredSize_eq
      policy_eq := ht.policy_eq }

theorem SameFile.abort (h : SameFile c₀ c) (accepts : Channel → Bool) (now : ℕ)
    (storage : Storage) (actions : List Action) (why : Abort) :
    SameFile c₀ (c.abort accepts now storage actions why).coordinator :=
  h.concludes (abort_concludes c accepts now storage actions why)

theorem SameFile.continues (h : SameFile c₀ c) (ht : Continues c accepts now storage actions t) :
    SameFile c₀ t.coordinator := by
  have hasked : SameFile c₀
      { c with session := c.session.awaiting (c.session.nextRange c.policy.chunkSize) } :=
    h.trans ⟨rfl, rfl, rfl, rfl⟩
  cases ht with
  | asks hr hc => exact hasked
  | unheard hr hc why => exact hasked.abort accepts now storage _ why
  | completes hr => exact h.concludes (finalize_concludes c accepts now storage actions)
  | fails why => exact h.abort accepts now storage actions why

theorem SameFile.progress (h : SameFile c₀ c)
    (hp : c.session.phase = .started ∨ c.session.phase = .requesting) (accepts : Channel → Bool)
    (now : ℕ) (storage : Storage) (actions : List Action) :
    SameFile c₀ (c.progress accepts now storage actions).coordinator := by
  have hmoved : SameFile c₀ { c with stage := .pulling (now + c.policy.idleTimeout.millis) } :=
    h.trans ⟨rfl, rfl, rfl, rfl⟩
  exact hmoved.continues (continues_requestNext _ accepts now storage actions hp)

end

theorem sameFile_take (c : Coordinator) (x : Occasion) : SameFile c (c.take x).coordinator := by
  -- Before the verdict a turn replaces only the session and the sink.
  have moved (session : Session) (sink : Sink) (hi : session.id = c.session.id)
      (hn : session.name = c.session.name) (hd : session.declaredSize = c.session.declaredSize) :
      SameFile c { c with session, sink } := ⟨hi, hn, hd, rfl⟩
  cases hs : c.stage with
  | pulling deadline =>
    have hpulls := pulls_take hs x
    generalize c.take x = t at hpulls ⊢
    cases hpulls with
    | waits violations lines => exact moved _ c.sink rfl rfl rfl
    | fails violations why lines =>
      have hcounted := moved { c.session with violations } c.sink rfl rfl rfl
      exact hcounted.abort x.accepts x.now x.storage _ why
    | starts hp =>
      have hstarted := moved { c.session with phase := .started } c.sink rfl rfl rfl
      exact hstarted.progress (.inl rfl) x.accepts x.now x.storage []
    | @refuses r data ha why =>
      have hadvanced := moved (c.session.advancedBy r.size) c.sink rfl rfl rfl
      exact hadvanced.abort x.accepts x.now x.storage _ why
    | @takes r data sink storage ha hs =>
      have hadvanced := moved (c.session.advancedBy r.size) sink rfl rfl rfl
      exact hadvanced.progress (.inr rfl) x.accepts x.now storage _
  | lingering success expiry =>
    have hl := lingers_take hs x
    exact ⟨by rw [hl.session_eq], by rw [hl.session_eq], by rw [hl.session_eq], hl.policy_eq⟩
  | exited =>
    rw [take_exited hs]
    exact .refl c

theorem sameFile_after (c : Coordinator) (xs : List Occasion) : SameFile c (c.after xs) :=
  run_induction (motive := fun c' _ => SameFile c c')
    (fun c' _ x h => h.trans (sameFile_take c' x)) (.refl c) xs

end Coordinator

end PullIngest
