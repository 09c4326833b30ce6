import PullIngest.Proofs.Coordinator.Redelivery

/-!
# Why a turn does what it does

What a turn does before the verdict, together with what in the event makes it do so: which messages
are ignored, which are counted as violations, which move the session on, and what ends it.

* `Session.Faulty`: the messages that are no proper answer (`onResponse_of_faulty`);
* `recount`: the same session with another count of violations (`violation_eq`);
* `Drives`: everything that a turn can do before the verdict, with its cause (`drives_take`);
* `Charged`: the turns that count a violation, and why (`Charged.cause`);
* `Reason`: everything that can end a session before its last byte (`reason_of_fail`);
* `timer_of_fail`, `overdrawn_of_fail`: two reasons that are known by their texts.
-/

namespace PullIngest

/-- The payload of a message is read only if nothing else is wrong with the message. -/
theorem Message.payloadAs_eq_ok {α : Type} [Wire α] {m : Message} {type : MessageType} {a : α} :
    m.payloadAs α type = .ok a ↔
      m.error = none ∧ m.type = type ∧ ∃ v, m.payload = some v ∧ Wire.decode? v = some a := by
  unfold payloadAs payload?
  cases m.error with
  | some detail => simp
  | none =>
    by_cases ht : m.type = type
    · cases m.payload with
      | none => simp [ht]
      | some v => cases hv : (Wire.decode? v : Option α) <;> simp [ht, hv]
    · simp [ht]

/-! ### Messages that are no proper answer -/

/-- A message in place of a response that the protocol does not allow. -/
inductive Session.Faulty (s : Session) (m : Message) : Prop
  | failure {detail : ErrorDetail} (h : m.error = some detail)
  | otherType (h : m.type ≠ .chunkResponse)
  | noPayload (h : m.payload = none)
  | malformed {v : Json.Value} (h : m.payload = some v)
      (hv : (Wire.decode? v : Option ChunkResponse) = none)
  | undecodable {v : Json.Value} {r : ChunkResponse} {e : Base64.DecodeError}
      (h : m.payload = some v) (hv : Wire.decode? v = some r) (hr : r.bytes = .error e)
  /-- A response to the outstanding range that does not have its length. -/
  | wrongLength {v : Json.Value} {r : ChunkResponse} {data : List UInt8} (h : m.payload = some v)
      (hv : Wire.decode? v = some r) (hr : r.bytes = .ok data)
      (ho : s.outstanding = some ⟨r.offset, r.size⟩) (hl : data.length ≠ r.size.toNat)

namespace Session

/-- The session with another count of violations. -/
def recount (s : Session) (violations : UInt32) : Session := { s with violations }

variable {s : Session} {m : Message} {r : ChunkResponse} {data : List UInt8}

theorem faulty_of_payloadAs {e : MessageError}
    (h : m.payloadAs ChunkResponse .chunkResponse = .error e) : s.Faulty m := by
  by_contra hf
  have herror : m.error = none := by
    cases he : m.error with
    | none => rfl
    | some detail => exact absurd (.failure he) hf
  have htype : m.type = .chunkResponse := not_not.1 fun ht => hf (.otherType ht)
  cases hp : m.payload with
  | none => exact hf (.noPayload hp)
  | some v =>
    cases hv : (Wire.decode? v : Option ChunkResponse) with
    | none => exact hf (.malformed hp hv)
    | some r =>
      rw [Message.payloadAs_eq_ok.2 ⟨herror, htype, v, hp, hv⟩] at h
      cases h

theorem faulty_of_bytes {e : Base64.DecodeError}
    (hm : m.payloadAs ChunkResponse .chunkResponse = .ok r) (hr : r.bytes = .error e) :
    s.Faulty m := by
  obtain ⟨-, -, v, hp, hv⟩ := Message.payloadAs_eq_ok.1 hm
  exact .undecodable hp hv hr

theorem faulty_of_length (hm : m.payloadAs ChunkResponse .chunkResponse = .ok r)
    (hr : r.bytes = .ok data) (ho : s.outstanding = some ⟨r.offset, r.size⟩)
    (hl : data.length ≠ r.size.toNat) : s.Faulty m := by
  obtain ⟨-, -, v, hp, hv⟩ := Message.payloadAs_eq_ok.1 hm
  exact .wrongLength hp hv hr ho hl

/-- What is wrong with a message that can be read is its length. -/
theorem Faulty.wrong_length (h : s.Faulty m)
    (hm : m.payloadAs ChunkResponse .chunkResponse = .ok r) (hr : r.bytes = .ok data) :
    s.outstanding = some ⟨r.offset, r.size⟩ ∧ data.length ≠ r.size.toNat := by
  obtain ⟨herror, htype, v, hp, hv⟩ := Message.payloadAs_eq_ok.1 hm
  cases h with
  | failure h => rw [herror] at h; cases h
  | otherType h => exact absurd htype h
  | noPayload h => rw [hp] at h; cases h
  | malformed h hv' =>
    rw [hp] at h
    cases h
    rw [hv] at hv'
    cases hv'
  | undecodable h hv' hr' =>
    rw [hp] at h
    cases h
    rw [hv] at hv'
    cases hv'
    rw [hr] at hr'
    cases hr'
  | wrongLength h hv' hr' ho hl =>
    rw [hp] at h
    cases h
    rw [hv] at hv'
    cases hv'
    rw [hr] at hr'
    cases hr'
    exact ⟨ho, hl⟩

/-- A response to the outstanding range that does not have its length breaks the protocol. -/
theorem Sound.acceptPayload_wrong_length {offset size : UInt64} {held : ℕ} (hs : s.Sound)
    (ho : s.outstanding = some ⟨offset, size⟩) (hl : held ≠ size.toNat) :
    s.acceptPayload offset size held = (.error (.violation (.payloadLength held size)), s) := by
  -- With the right length the response would have been taken.
  obtain ⟨complete, e⟩ := hs.acceptPayload_eq ho
  unfold Session.acceptPayload at e ⊢
  split_ifs at e with h1 h2 h3 h4
  · cases e
  · cases e
  · exact absurd ho h3
  · exact absurd rfl h4
  · rw [if_neg h1, if_neg h2, if_neg h3, if_pos hl]

end Session

namespace Coordinator

open Action

variable {c : Coordinator} {x : Occasion} {m : Message} {t : Turn} {why : Abort}

/-- A faulty message is counted. -/
theorem onResponse_of_faulty (hs : c.session.Sound) (h : c.session.Faulty m)
    (accepts : Channel → Bool) (now : ℕ) (storage : Storage) :
    ∃ text, c.onResponse accepts now storage m = c.violation accepts now storage text := by
  unfold onResponse
  cases hm : m.payloadAs ChunkResponse .chunkResponse with
  | error e => exact ⟨_, rfl⟩
  | ok r =>
    dsimp only
    cases hr : r.bytes with
    | error e => exact ⟨_, rfl⟩
    | ok data =>
      obtain ⟨ho, hl⟩ := h.wrong_length hm hr
      dsimp only
      rw [hs.acceptPayload_wrong_length ho hl]
      exact ⟨_, rfl⟩

/-! ### Counting a violation -/

/-- The coordinator with another count of violations. -/
def recount (c : Coordinator) (violations : UInt32) : Coordinator :=
  { c with session := c.session.recount violations }

theorem violation_eq (c : Coordinator) (accepts : Channel → Bool) (now : ℕ) (storage : Storage)
    (text : String) :
    c.violation accepts now storage text
      = if c.policy.maxViolations < c.session.violations + 1 then
          (c.recount (c.session.violations + 1)).abort accepts now storage
            [.log ("WARN protocol violation: " ++ text)] (.violations (c.session.violations + 1))
        else
          ⟨c.recount (c.session.violations + 1), storage,
            [.log ("WARN protocol violation: " ++ text)]⟩ := rfl

/-! ### Everything that a turn can do before the verdict -/

/-- Events that do nothing. -/
inductive Ignored (c : Coordinator) : Event → Prop
  | start (m : Message) (hp : c.session.phase ≠ .created) : Ignored c (.start m)
  | stale {m : Message} {r : ChunkResponse} {data : List UInt8}
      (hm : m.payloadAs ChunkResponse .chunkResponse = .ok r) (hr : r.bytes = .ok data)
      (h : (c.session.acceptPayload r.offset r.size data.length).1 = .ok .stale) :
      Ignored c (.response m)

/-- Events that end a session at once, and for what reason. -/
inductive Breaks (c : Coordinator) : Event → Abort → Prop
  | cancelled (m : Message) : Breaks c (.cancel m) (.cancelled (cancelReason m))
  | disconnected (inbox : Inbox) : Breaks c (.closed inbox) .disconnected
  | idle : Breaks c .timer (.idle c.policy.idleTimeout)
  | shutdown : Breaks c .shutdown .shutdown
  /-- The range of a response is not in the file. -/
  | outside (m : Message) (r : ChunkResponse) :
      Breaks c (.response m) (.transfer (.range r.offset r.size c.session.declaredSize))

/-- What a turn can do before the verdict, with what makes it do so. -/
inductive Drives (c : Coordinator) (x : Occasion) : Turn → Prop
  | ignores (h : c.Ignored x.event) : Drives c x ⟨c, x.storage, []⟩
  | counts {m : Message} (hx : x.event = .response m) (h : c.session.Faulty m) (text : String) :
      Drives c x (c.violation x.accepts x.now x.storage text)
  | breaks {why : Abort} (h : c.Breaks x.event why) :
      Drives c x (c.abort x.accepts x.now x.storage [] why)
  | starts (hx : x.event.isStart = true) (hp : c.session.phase = .created) :
      Drives c x ({ c with session := { c.session with phase := .started } }.progress x.accepts
        x.now x.storage [])
  /-- The response moves the session on, but the sink refuses its bytes. -/
  | refuses {m : Message} (hx : x.event = .response m) (ha : c.Advances m) {r : ChunkResponse}
      {data : List UInt8} {cause : TransferError} (h : Answers c x r data)
      (hk : c.sink.accept x.storage r.offset data = .error cause) :
      Drives c x ({ c with session := c.session.advancedBy r.size }.abort x.accepts x.now x.storage
        [.sink (.accept r.offset data)] (.sink cause))
  | takes {m : Message} (hx : x.event = .response m) (ha : c.Advances m) {r : ChunkResponse}
      {data : List UInt8} {sink : Sink} {storage : Storage} (h : Answers c x r data)
      (hk : c.sink.accept x.storage r.offset data = .ok (sink, storage)) :
      Drives c x ({ c with session := c.session.advancedBy r.size, sink }.progress x.accepts x.now
        storage [.sink (.accept r.offset data)])

theorem drives_onResponse {deadline : ℕ} (hs : c.stage = .pulling deadline)
    (hx : x.event = .response m) : Drives c x (c.onResponse x.accepts x.now x.storage m) := by
  unfold onResponse
  cases hm : m.payloadAs ChunkResponse .chunkResponse with
  | error e => exact .counts hx (Session.faulty_of_payloadAs hm) _
  | ok r =>
    dsimp only
    cases hr : r.bytes with
    | error e => exact .counts hx (Session.faulty_of_bytes hm hr) _
    | ok data =>
      dsimp only
      generalize ha : c.session.acceptPayload r.offset r.size data.length = answer
      obtain ⟨outcome, session⟩ := answer
      cases outcome with
      | error e =>
        rcases Session.acceptPayload_error (congrArg Prod.fst ha) with rfl | ⟨rfl, ho, hl⟩
        · exact .breaks (hx ▸ .outside m r)
        · exact .counts hx (Session.faulty_of_length hm hr ho hl) _
      | ok result =>
        cases result with
        | stale => exact .ignores (hx ▸ .stale hm hr (congrArg Prod.fst ha))
        | advanced delivered complete =>
          have hadv : c.Advances m :=
            ⟨⟨deadline, hs⟩, r, data, delivered, complete, hm, hr, congrArg Prod.fst ha⟩
          obtain ⟨ho, hl, rfl⟩ : c.session.outstanding = some ⟨r.offset, r.size⟩ ∧
              data.length = r.size.toNat ∧ session = c.session.advancedBy r.size := by
            rcases c.session.acceptPayload_cases r.offset r.size data.length with
              ⟨_, e⟩ | e | ⟨-, ho, hl, _, e⟩ <;> rw [e] at ha <;> cases ha
            exact ⟨ho, hl, rfl⟩
          have hanswers : Answers c x r data := ⟨⟨m, hx, hm⟩, hr, ho, hl⟩
          dsimp only
          split
          · next hk => exact .refuses hx hadv hanswers hk
          · next hk => exact .takes hx hadv hanswers hk

theorem drives_take {deadline : ℕ} (hs : c.stage = .pulling deadline) (x : Occasion) :
    Drives c x (c.take x) := by
  unfold take step
  rw [hs]
  cases hx : x.event with
  | start m =>
    dsimp only
    unfold onStart
    rcases c.session.start_cases with ⟨hp, e⟩ | ⟨hp, e⟩
    · rw [e]
      exact .starts (by rw [hx]; rfl) hp
    · rw [e]
      exact .ignores (hx ▸ .start m hp)
  | response m => exact drives_onResponse hs hx
  | cancel m => exact .breaks (hx ▸ .cancelled m)
  | closed inbox => exact .breaks (hx ▸ .disconnected inbox)
  | timer => exact .breaks (hx ▸ .idle)
  | shutdown => exact .breaks (hx ▸ .shutdown)

/-- A coordinator that is still pulling was pulling before. -/
theorem pulling_of_take {deadline : ℕ} (hs : (c.take x).coordinator.stage = .pulling deadline) :
    ∃ deadline, c.stage = .pulling deadline := by
  cases hc : c.stage with
  | pulling deadline => exact ⟨deadline, rfl⟩
  | lingering success expiry =>
    rw [(lingers_take hc x).stage_eq, hc] at hs
    split_ifs at hs
  | exited =>
    rw [take_exited hc, hc] at hs
    cases hs

/-! ### What a turn counts as a violation -/

theorem Concludes.violations_eq {before : List Action} {call : SinkCall} {success : Bool}
    (h : Concludes c before call success t) :
    t.coordinator.session.violations = c.session.violations := by
  rw [h.session_eq, Session.finish_violations]

theorem Continues.violations_eq {accepts : Channel → Bool} {now : ℕ} {storage : Storage}
    {actions : List Action} (h : Continues c accepts now storage actions t) :
    t.coordinator.session.violations = c.session.violations := by
  cases h with
  | asks hr hc => rfl
  | unheard hr hc why => exact (abort_concludes _ accepts now storage _ why).violations_eq
  | completes hr => exact (finalize_concludes c accepts now storage actions).violations_eq
  | fails why => exact (abort_concludes c accepts now storage actions why).violations_eq

/-- A violation is counted whether or not it is forgiven. -/
theorem violations_violation (accepts : Channel → Bool) (now : ℕ) (storage : Storage)
    (text : String) :
    (c.violation accepts now storage text).coordinator.session.violations
      = c.session.violations + 1 := by
  rw [violation_eq]
  split_ifs
  · exact (abort_concludes _ accepts now storage _ _).violations_eq
  · rfl

/-- The turn counts a violation. -/
def Charged (c : Coordinator) (x : Occasion) : Prop :=
  (c.take x).coordinator.session.violations ≠ c.session.violations

instance (c : Coordinator) (x : Occasion) : Decidable (c.Charged x) :=
  inferInstanceAs (Decidable (_ ≠ _))

/-- What is counted is a faulty message that comes before the verdict. -/
theorem Charged.cause (h : c.Charged x) :
    (∃ deadline, c.stage = .pulling deadline) ∧
      (∃ m, x.event = .response m ∧ c.session.Faulty m) ∧
      ∃ text, c.take x = c.violation x.accepts x.now x.storage text := by
  unfold Charged at h
  cases hs : c.stage with
  | pulling deadline =>
    have hd := drives_take hs x
    generalize c.take x = u at hd h ⊢
    cases hd with
    | ignores h' => exact absurd rfl h
    | counts hx hf text => exact ⟨⟨deadline, rfl⟩, ⟨_, hx, hf⟩, text, rfl⟩
    | breaks h' =>
      exact absurd (abort_concludes c x.accepts x.now x.storage [] _).violations_eq h
    | starts hx hp =>
      exact absurd (continues_requestNext _ x.accepts x.now _ _ (.inl rfl)).violations_eq h
    | refuses hx ha hr hk =>
      exact absurd (abort_concludes _ x.accepts x.now x.storage _ _).violations_eq h
    | takes hx ha hr hk =>
      exact absurd (continues_requestNext _ x.accepts x.now _ _ (.inr rfl)).violations_eq h
  | lingering success expiry =>
    rw [(lingers_take hs x).session_eq] at h
    exact absurd rfl h
  | exited =>
    rw [take_exited hs] at h
    exact absurd rfl h

/-! ### Reasons -/

/-- What ends a session before its last byte. -/
inductive Reason (c : Coordinator) (x : Occasion) : Abort → Prop
  | breaks {why : Abort} (h : c.Breaks x.event why) : Reason c x why
  /-- One violation more than is forgiven. -/
  | overdrawn {m : Message} (hx : x.event = .response m) (h : c.session.Faulty m)
      (hv : c.policy.maxViolations < c.session.violations + 1) :
      Reason c x (.violations (c.session.violations + 1))
  | sink {r : ChunkResponse} {data : List UInt8} {cause : TransferError} (h : Answers c x r data)
      (hk : c.sink.accept x.storage r.offset data = .error cause) : Reason c x (.sink cause)
  | chunkSize (h : c.policy.chunkSize = 0) : Reason c x (.transfer .invalidChunkSize)
  | bus (channel : String) : Reason c x (.bus (.full channel))

theorem Concludes.fail_mem {before : List Action} {call : SinkCall} {success : Bool}
    {reason : String} (h : Concludes c before call success t)
    (hr : .sink (.fail reason) ∈ t.actions) :
    .sink (.fail reason) ∈ before ∨ call = .fail reason := by
  have hout := (mem_outward rfl).2 hr
  rw [h.outward_eq] at hout
  rcases List.mem_append.1 hout with hout | hout
  · exact .inl ((mem_outward rfl).1 hout)
  · right
    simpa [tellsVerdict, eq_comm] using hout

/-- After the verdict the sink is left alone. -/
theorem pulling_of_sink {call : SinkCall} (h : .sink call ∈ (c.take x).actions) :
    ∃ deadline, c.stage = .pulling deadline := by
  cases hs : c.stage with
  | pulling deadline => exact ⟨deadline, rfl⟩
  | lingering success expiry =>
    have hout := (mem_outward rfl).2 h
    rw [(lingers_take hs x).outward_eq] at hout
    split_ifs at hout <;> simp [tellsVerdict] at hout
  | exited =>
    rw [take_exited hs] at h
    cases h

/-- Whoever gives a session up tells the sink why. -/
theorem fail_mem_of_abort (accepts : Channel → Bool) (now : ℕ) (storage : Storage)
    (actions : List Action) (why : Abort) :
    .sink (.fail why.message) ∈ (c.abort accepts now storage actions why).actions := by
  rw [← mem_outward rfl, (abort_concludes c accepts now storage actions why).outward_eq]
  simp

/-- A reason that is told when a session is given up. -/
theorem fail_mem_abort {accepts : Channel → Bool} {now : ℕ} {storage : Storage}
    {actions : List Action} {reason : String}
    (hr : .sink (.fail reason) ∈ (c.abort accepts now storage actions why).actions) :
    .sink (.fail reason) ∈ actions ∨ reason = why.message := by
  rcases (abort_concludes c accepts now storage actions why).fail_mem hr with h | h
  · exact .inl h
  · cases h
    exact .inr rfl

/-- Asking for the next range ends a session that has no chunk size or is not heard. -/
theorem fail_mem_progress {accepts : Channel → Bool} {now : ℕ} {storage : Storage}
    {actions : List Action} {reason : String}
    (hp : c.session.phase = .started ∨ c.session.phase = .requesting)
    (hr : .sink (.fail reason) ∈ (c.progress accepts now storage actions).actions) :
    .sink (.fail reason) ∈ actions ∨
      (c.policy.chunkSize = 0 ∧ reason = (Abort.transfer .invalidChunkSize).message) ∨
      ∃ channel, reason = (Abort.bus (.full channel)).message := by
  unfold progress requestNext at hr
  dsimp only at hr
  by_cases hc : c.policy.chunkSize = 0
  · have hnext : c.session.nextRequest c.policy.chunkSize
        = (.error .invalidChunkSize, c.session) := by
      unfold Session.nextRequest
      rw [if_pos hc]
    rw [hnext] at hr
    rcases fail_mem_abort hr with h | h
    · exact .inl h
    · exact .inr (.inl ⟨hc, h⟩)
  · rw [Session.nextRequest_eq hc hp] at hr
    split_ifs at hr with hfull
    · rcases (finalize_concludes _ accepts now storage actions).fail_mem hr with h | h
      · exact .inl h
      · cases h
    · dsimp only at hr
      split_ifs at hr
      · left
        simpa using hr
      · rcases fail_mem_abort hr with h | h
        · left
          simpa using h
        · exact .inr (.inr ⟨_, h⟩)

/-- Whatever a sink is told when a session is given up is the text of a reason. -/
theorem reason_of_fail {deadline : ℕ} {reason : String} (hs : c.stage = .pulling deadline)
    (hr : .sink (.fail reason) ∈ (c.take x).actions) :
    ∃ why, Reason c x why ∧ reason = why.message := by
  -- What asking for the next range adds to actions that give no reason.
  have progress {c' : Coordinator} {storage : Storage} {as : List Action}
      (hp : c'.session.phase = .started ∨ c'.session.phase = .requesting)
      (has : .sink (.fail reason) ∉ as)
      (hr : .sink (.fail reason) ∈ (c'.progress x.accepts x.now storage as).actions)
      (hpolicy : c'.policy = c.policy) :
      ∃ why, Reason c x why ∧ reason = why.message := by
    rcases fail_mem_progress hp hr with h | ⟨hc, h⟩ | ⟨channel, h⟩
    · exact absurd h has
    · exact ⟨_, .chunkSize (hpolicy ▸ hc), h⟩
    · exact ⟨_, .bus channel, h⟩
  have hd := drives_take hs x
  generalize c.take x = t at hd hr
  cases hd with
  | ignores h => cases hr
  | counts hx h text =>
    rw [violation_eq] at hr
    split_ifs at hr with hv
    · rcases fail_mem_abort hr with h' | h'
      · simp at h'
      · exact ⟨_, .overdrawn hx h hv, h'⟩
    · simp at hr
  | breaks h =>
    rcases fail_mem_abort hr with h' | h'
    · cases h'
    · exact ⟨_, .breaks h, h'⟩
  | starts hx hp => exact progress (.inl rfl) (by simp) hr rfl
  | refuses hx ha h hk =>
    rcases fail_mem_abort hr with h' | h'
    · simp at h'
    · exact ⟨_, .sink h hk, h'⟩
  | takes hx ha h hk => exact progress (.inr rfl) (by simp) hr rfl

/-! ### Reasons and their texts -/

theorem head?_append {s t : String} {d : Char} (h : s.toList.head? = some d) :
    (s ++ t).toList.head? = some d := by
  rw [String.toList_append, List.head?_append, h]
  rfl

theorem head?_message_idle (timeout : Duration) :
    (Abort.idle timeout).message.toList.head? = some 'n' := head?_append rfl

/-- A number of violations begins with a digit. -/
theorem head?_message_violations (count : UInt32) :
    ∃ d, (Abort.violations count).message.toList.head? = some d ∧ d.isDigit = true := by
  have hdigits : (toString count.toNat).toList = Nat.toDigits 10 count.toNat := Nat.toList_repr
  obtain ⟨d, rest, hd⟩ :=
    List.exists_cons_of_ne_nil (Nat.toDigits_ne_nil : Nat.toDigits 10 count.toNat ≠ [])
  have hmem : d ∈ Nat.toDigits 10 count.toNat := hd ▸ List.mem_cons_self
  refine ⟨d, head?_append ?_, Nat.isDigit_of_mem_toDigits (by decide) (by decide) hmem⟩
  rw [hdigits, hd, List.head?_cons]

/-- The reasons other than these two begin with letters of their own. -/
theorem Reason.head?_message (h : Reason c x why) :
    (x.event = .timer ∧ why = .idle c.policy.idleTimeout) ∨
      ((∃ m, x.event = .response m ∧ c.session.Faulty m) ∧
        c.policy.maxViolations < c.session.violations + 1 ∧
        why = .violations (c.session.violations + 1)) ∨
      ∃ d ∈ ['b', 'c', 'r', 's'], why.message.toList.head? = some d := by
  cases h with
  | overdrawn hx h hv => exact .inr (.inl ⟨⟨_, hx, h⟩, hv, rfl⟩)
  | breaks h =>
    generalize x.event = e at h ⊢
    cases h with
    | idle => exact .inl ⟨rfl, rfl⟩
    | cancelled m => exact .inr (.inr ⟨'c', by decide, head?_append rfl⟩)
    | disconnected inbox => exact .inr (.inr ⟨'s', by decide, rfl⟩)
    | shutdown => exact .inr (.inr ⟨'s', by decide, rfl⟩)
    | outside m r =>
      refine .inr (.inr ⟨'r', by decide, ?_⟩)
      unfold Abort.message TransferError.message
      dsimp only
      -- The first word is the beginning of all that is appended to it.
      iterate 6 apply head?_append
      rfl
  | sink h hk => exact .inr (.inr ⟨'s', by decide, head?_append rfl⟩)
  | chunkSize h => exact .inr (.inr ⟨'c', by decide, rfl⟩)
  | bus channel => exact .inr (.inr ⟨'b', by decide, head?_append rfl⟩)

/-- A session is given up for its idle time when the timer goes off, and at no other time. -/
theorem timer_of_fail {deadline : ℕ} {timeout : Duration} (hs : c.stage = .pulling deadline)
    (hr : .sink (.fail (Abort.idle timeout).message) ∈ (c.take x).actions) : x.event = .timer := by
  obtain ⟨why, h, hmessage⟩ := reason_of_fail hs hr
  have hn := head?_message_idle timeout
  rw [hmessage] at hn
  rcases h.head?_message with ⟨hx, -⟩ | ⟨-, -, rfl⟩ | ⟨d, hd, hhead⟩
  · exact hx
  · obtain ⟨d, hhead, hdigit⟩ := head?_message_violations (c.session.violations + 1)
    rw [hn] at hhead
    cases hhead
    cases hdigit
  · rw [hn] at hhead
    cases hhead
    simp at hd

/-- A session is given up for its violations when one comes that is not forgiven any more, and at
no other time. -/
theorem overdrawn_of_fail {deadline : ℕ} {count : UInt32} (hs : c.stage = .pulling deadline)
    (hr : .sink (.fail (Abort.violations count).message) ∈ (c.take x).actions) :
    (∃ m, x.event = .response m ∧ c.session.Faulty m) ∧
      c.policy.maxViolations < c.session.violations + 1 := by
  obtain ⟨why, h, hmessage⟩ := reason_of_fail hs hr
  obtain ⟨d, hhead, hdigit⟩ := head?_message_violations count
  rw [hmessage] at hhead
  rcases h.head?_message with ⟨-, rfl⟩ | ⟨hfault, hv, -⟩ | ⟨d', hd', hhead'⟩
  · rw [head?_message_idle] at hhead
    cases hhead
    cases hdigit
  · exact ⟨hfault, hv⟩
  · rw [hhead'] at hhead
    cases hhead
    simp only [List.mem_cons, List.not_mem_nil, or_false] at hd'
    rcases hd' with rfl | rfl | rfl | rfl <;> cases hdigit

end Coordinator

end PullIngest
