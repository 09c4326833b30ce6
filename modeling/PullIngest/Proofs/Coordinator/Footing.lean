import PullIngest.Proofs.Coordinator.Deadline
import PullIngest.Proofs.Coordinator.Intake

/-!
# Failures that never occur

A coordinator has an answer to a sink that refuses its bytes, to a session that cannot be asked for
a range, and to a mailbox that is closed. With a proper sink and a chunk size, and with mailboxes
that stay open, it never gives these answers.

* `Abort.Defensive`: these reasons; no other reason has their texts (`Reason.message_ne`);
* `Sink.Opened`, `Sink.Ready`: a sink that is new, and one that takes whatever comes next;
* `Footing`: what holds while bytes are missing. It leaves none of these reasons
  (`Footing.not_defensive`), and every range that is asked for is a fresh one
  (`Footing.fresh_take`);
* `SureFooted`, `SureFooted.take`: the invariant.
-/

namespace PullIngest

/-! ### Reasons -/

/-- The reasons that a coordinator is only prepared for. -/
inductive Abort.Defensive : Abort → Prop
  | sink (cause : TransferError) : Defensive (.sink cause)
  | invalidState (phase : Phase) : Defensive (.transfer (.invalidState phase))
  | invalidChunkSize : Defensive (.transfer .invalidChunkSize)
  | disconnected : Defensive .disconnected

namespace Coordinator

open Action

variable {c : Coordinator} {x : Occasion} {why why' : Abort} {done actions : List Action}
  {a : Action} {deadline : ℕ}

/-- The beginning of a text, long enough to tell the reasons apart. -/
def lead (s : String) : List Char := s.toList.take 4

theorem lead_append {s t : String} {w : List Char} (h : lead s = w) (hw : w.length = 4) :
    lead (s ++ t) = w := by
  have hlength : 4 ≤ s.toList.length := by
    rw [← hw, ← h]
    unfold lead
    rw [List.length_take]
    omega
  unfold lead at h ⊢
  rw [String.toList_append, List.take_append_of_le_length hlength, h]

/-- How the texts of these reasons begin. -/
def defensiveLeads : List (List Char) :=
  ["sink".toList, "cann".toList, "chun".toList, "sess".toList]

/-- How the texts of the other reasons begin, apart from the one with a number. -/
def ordinaryLeads : List (List Char) :=
  ["no p".toList, "canc".toList, "serv".toList, "rang".toList, "bus ".toList]

theorem lead_of_defensive (h : why.Defensive) : lead why.message ∈ defensiveLeads := by
  cases h with
  | sink cause =>
    have : lead (Abort.sink cause).message = "sink".toList := lead_append rfl rfl
    rw [this]
    decide
  | invalidState phase =>
    have : lead (Abort.transfer (.invalidState phase)).message = "cann".toList :=
      lead_append rfl rfl
    rw [this]
    decide
  | invalidChunkSize => decide
  | disconnected => decide

theorem Reason.lead_message (h : Reason c x why) (hn : ¬ why.Defensive) :
    lead why.message ∈ ordinaryLeads ∨
      ∃ d, (lead why.message).head? = some d ∧ d.isDigit = true := by
  -- Each text is a fixed beginning with something appended to it.
  have begins {w : List Char} (hw : w ∈ ordinaryLeads) (hm : lead why.message = w) :
      lead why.message ∈ ordinaryLeads ∨
        ∃ d, (lead why.message).head? = some d ∧ d.isDigit = true := .inl (hm ▸ hw)
  cases h with
  | overdrawn hx h hv =>
    obtain ⟨d, hhead, hdigit⟩ := head?_message_violations (c.session.violations + 1)
    exact .inr ⟨d, by unfold lead; rw [List.head?_take, if_neg (by decide), hhead], hdigit⟩
  | breaks h =>
    generalize x.event = e at h
    cases h with
    | idle => exact begins (w := "no p".toList) (by decide) (lead_append rfl rfl)
    | cancelled m => exact begins (w := "canc".toList) (by decide) (lead_append rfl rfl)
    | disconnected inbox => exact absurd .disconnected hn
    | shutdown => exact .inl (by decide)
    | outside m r =>
      refine begins (w := "rang".toList) (by decide) ?_
      unfold Abort.message TransferError.message
      dsimp only
      iterate 6 refine lead_append ?_ rfl
      rfl
  | sink h hk => exact absurd (.sink _) hn
  | chunkSize h => exact absurd .invalidChunkSize hn
  | bus channel => exact begins (w := "bus ".toList) (by decide) (lead_append rfl rfl)

/-- A session that fails for another reason does not fail with the text of one of these. -/
theorem Reason.message_ne (h : Reason c x why) (hn : ¬ why.Defensive) (hd : why'.Defensive) :
    why.message ≠ why'.message := by
  intro he
  have hlead := lead_of_defensive hd
  rw [← he] at hlead
  rcases h.lead_message hn with hmem | ⟨d, hhead, hdigit⟩
  · have hdisjoint : ∀ w ∈ ordinaryLeads, w ∉ defensiveLeads := by decide
    exact hdisjoint _ hmem hlead
  · have hletters : ∀ w ∈ defensiveLeads, w.head?.any Char.isDigit = false := by decide
    have hletter := hletters _ hlead
    rw [hhead, Option.any_some, hdigit] at hletter
    cases hletter

end Coordinator

/-! ### Sinks -/

namespace Sink

/-- A sink that has just been opened, in memory or on the disk. -/
inductive Opened (session name : String) (size : UInt64) : Sink → Prop
  | memory (reject : Bool) : Opened session name size (.memory { session, size, reject })
  | created {base : List Char} {onlyKnown : Bool} {d d' : Disk} {f : FileSink}
      (h : FileSink.create base session name size onlyKnown d = (.ok f, d')) :
      Opened session name size (.file f)
  | claimed {base : List Char} {onlyKnown : Bool} {s s' : Storage} {f : FileSink}
      (h : FileSink.openClaimed base session name size onlyKnown s = (.ok f, s')) :
      Opened session name size (.file f)

/-- The sink has no verdict, and takes any bytes from this offset on. -/
inductive Ready : Sink → UInt64 → Prop
  | memory {m : MemorySink} (h : m.refuseFrom = none) : Ready (.memory m) m.written
  | file {f : FileSink} (h : f.file ≠ none) : Ready (.file f) f.written

variable {k : Sink} {session name : String} {size offset : UInt64}

theorem Opened.ready (h : k.Opened session name size) : k.Ready 0 := by
  cases h with
  | memory reject => exact .memory rfl
  | created h =>
    obtain ⟨directory, d₁, n, -, -, rfl⟩ := create_cases h
    exact .file nofun
  | claimed h =>
    obtain ⟨f', hc, rfl⟩ := openClaimed_cases h
    obtain ⟨directory, d₁, n, -, -, rfl⟩ := create_cases hc
    exact .file nofun

/-- Whatever others have done to the storage, the next bytes are taken. -/
theorem Ready.accept (h : k.Ready offset) (s : Storage) (data : List UInt8) :
    ∃ k' s', k.accept s offset data = .ok (k', s') ∧ k'.Ready (offset + .ofNat data.length) := by
  cases h with
  | @memory m h =>
    have htakes : m.accept m.written data = .ok { m with data := m.data.append data } := by
      unfold MemorySink.accept MemorySink.refuses
      rw [h]
      simp
    refine ⟨.memory { m with data := m.data.append data }, s, ?_, ?_⟩
    · unfold Sink.accept
      dsimp only
      rw [htakes]
      rfl
    · have hwritten : ({ m with data := m.data.append data } : MemorySink).written
          = m.written + .ofNat data.length := by
        unfold MemorySink.written
        rw [← UInt64.ofNat_add]
        rfl
      rw [← hwritten]
      exact .memory h
  | @file f h =>
    obtain ⟨n, hn⟩ := Option.ne_none_iff_exists'.1 h
    obtain ⟨f', disk, htakes⟩ : ∃ f' disk, f.accept s.disk f.written data = .ok (f', disk) := by
      unfold FileSink.accept
      rw [if_neg (not_not.2 rfl), hn]
      exact ⟨_, _, rfl⟩
    obtain ⟨n', head, hn', -, -, rfl⟩ := file_accept htakes
    refine ⟨_, { s with disk }, ?_, .file (f := { f with head, written := _ }) h⟩
    unfold Sink.accept
    dsimp only
    rw [htakes]
    rfl

end Sink

/-! ### The invariant -/

/-- The offset behind the last byte that was asked for. -/
def Session.reached (s : Session) : ℕ :=
  s.delivered.toNat + s.outstanding.elim 0 fun r => r.size.toNat

namespace Coordinator

open Action

variable {c : Coordinator} {x : Occasion} {why why' : Abort} {done actions : List Action}
  {a : Action} {deadline : ℕ}

theorem asksFor_inj {id : String} {r r' : ByteRange} (h : asksFor id r = asksFor id r') :
    r = r' := by
  have hm : Message.carrying id .chunkRequest (ChunkRequest.mk r.offset r.size)
      = .carrying id .chunkRequest (ChunkRequest.mk r'.offset r'.size) := (Action.publish.inj h).2
  have hp := congrArg (fun m => m.payloadAs ChunkRequest .chunkRequest) hm
  simp only [payloadAs_carrying, Except.ok.injEq, ChunkRequest.mk.injEq] at hp
  cases r
  cases r'
  simp_all

/-- What holds while bytes are missing. The sink and the session stand at the same offset, and
nothing behind the outstanding range has been asked for. -/
structure Footing (c : Coordinator) (done : List Action) : Prop where
  sound : c.session.Sound
  chunkSize_ne : c.policy.chunkSize ≠ 0
  ready : c.sink.Ready c.session.delivered
  asked : ∀ r, asksFor c.session.id r ∈ done →
    r.offset.toNat + r.size.toNat ≤ c.session.reached

namespace Footing

theorem quiet (h : Footing c done) (hq : ∀ r, asksFor c.session.id r ∉ actions) :
    Footing c (done ++ actions) :=
  ⟨h.sound, h.chunkSize_ne, h.ready, fun r hr =>
    h.asked r ((List.mem_append.1 hr).resolve_right (hq r))⟩

theorem counted (h : Footing c done) (violations : UInt32) :
    Footing (c.recount violations) done :=
  ⟨h.sound.counted violations, h.chunkSize_ne, h.ready, h.asked⟩

theorem started (h : Footing c done) (hp : c.session.phase = .created) :
    Footing { c with session := { c.session with phase := .started } } (done ++ []) :=
  ⟨h.sound.started hp, h.chunkSize_ne, h.ready, by rw [List.append_nil]; exact h.asked⟩

/-- The sink stands where the outstanding range begins. -/
theorem ready_of_answers (h : Footing c done) {r : ChunkResponse} {data : List UInt8}
    (ha : Answers c x r data) : c.sink.Ready r.offset := by
  obtain ⟨hoffset, -⟩ := h.sound.range_of_outstanding _ ha.outstanding
  dsimp only at hoffset
  rw [hoffset]
  exact h.ready

/-- The bytes of the outstanding range have been taken. -/
theorem advanced (h : Footing c done) {r : ChunkResponse} {data : List UInt8} {sink : Sink}
    {storage : Storage} (ha : Answers c x r data)
    (hk : c.sink.accept x.storage r.offset data = .ok (sink, storage)) :
    Footing { c with session := c.session.advancedBy r.size, sink }
      (done ++ [.sink (.accept r.offset data)]) := by
  obtain ⟨hoffset, -⟩ := h.sound.range_of_outstanding _ ha.outstanding
  obtain ⟨hadd, -⟩ := h.sound.toNat_advanced ha.outstanding
  obtain ⟨sink', storage', hk', hready⟩ := (h.ready_of_answers ha).accept x.storage data
  obtain ⟨rfl, rfl⟩ := Prod.mk.inj (Except.ok.inj (hk.symm.trans hk'))
  refine ⟨h.sound.advancedBy ha.outstanding, h.chunkSize_ne, ?_, fun r' hr' => ?_⟩
  · dsimp only at hoffset
    rw [ha.length, UInt64.ofNat_toNat, hoffset] at hready
    exact hready
  · -- What was outstanding is delivered now.
    have hquiet : Footing c (done ++ [.sink (.accept r.offset data)]) := h.quiet (by simp [asksFor])
    have hasked := hquiet.asked r' hr'
    unfold Session.reached at hasked ⊢
    rw [ha.outstanding] at hasked
    show _ ≤ (c.session.delivered + r.size).toNat + 0
    rw [hadd]
    exact hasked

/-- Between two ranges all that was asked for is delivered. -/
theorem reached_eq (h : Footing c done)
    (hp : c.session.phase = .started ∨ c.session.phase = .requesting) :
    c.session.reached = c.session.delivered.toNat := by
  have hne : c.session.phase ≠ .awaitingResponse := by
    rcases hp with hp | hp <;> rw [hp] <;> exact nofun
  unfold Session.reached
  rw [h.sound.outstanding_eq_none hne]
  rfl

/-- Asking for the next range. -/
theorem progress (h : Footing c (done ++ actions))
    (hp : c.session.phase = .started ∨ c.session.phase = .requesting)
    {accepts : Channel → Bool} {now : ℕ} {storage : Storage}
    (hs : (c.progress accepts now storage actions).coordinator.stage = .pulling deadline) :
    Footing (c.progress accepts now storage actions).coordinator
      (done ++ (c.progress accepts now storage actions).actions) := by
  have hcontinues := continues_requestNext
    { c with stage := .pulling (now + c.policy.idleTimeout.millis) } accepts now storage actions hp
  unfold Coordinator.progress at hs ⊢
  generalize requestNext _ accepts now storage actions = t at hcontinues hs ⊢
  cases hcontinues with
  | unheard hr hc why => exact absurd hs (abort_concludes _ accepts now storage _ why).not_pulling
  | completes hr => exact absurd hs (finalize_concludes _ accepts now storage actions).not_pulling
  | fails why => exact absurd hs (abort_concludes _ accepts now storage actions why).not_pulling
  | asks hr hc =>
    refine ⟨h.sound.awaiting hr hc, hc, h.ready, fun r hmem => ?_⟩
    rw [← List.append_assoc] at hmem
    rcases List.mem_append.1 hmem with hmem | hmem
    · refine Nat.le_trans (h.asked r hmem) ?_
      rw [h.reached_eq hp]
      exact Nat.le_add_right _ _
    · obtain rfl := asksFor_inj (List.mem_singleton.1 hmem)
      exact Nat.le_refl _

/-- A coordinator with a footing fails for none of these reasons unless a mailbox is closed. -/
theorem not_defensive (h : Footing c done) (hx : ∀ i, x.event ≠ .closed i)
    (hr : Reason c x why) : ¬ why.Defensive := by
  cases hr with
  | breaks hb =>
    generalize x.event = e at hb hx
    cases hb with
    | disconnected inbox => exact absurd rfl (hx inbox)
    | _ => exact nofun
  | overdrawn _ _ _ => exact nofun
  | sink ha hk =>
    obtain ⟨k', s', hk', -⟩ := (h.ready_of_answers ha).accept x.storage _
    rw [hk] at hk'
    cases hk'
  | chunkSize hc => exact absurd hc h.chunkSize_ne
  | bus channel => exact nofun

end Footing

/-! ### Requests -/

/-- A range behind all that was asked for, which begins where the bytes that are delivered end. -/
structure Fresh (c : Coordinator) (done : List Action) (r : ByteRange) : Prop where
  offset_eq : r.offset = c.session.delivered
  size_pos : 0 < r.size
  asked : ∀ r', asksFor c.session.id r' ∈ done →
    r'.offset.toNat + r'.size.toNat ≤ r.offset.toNat

/-- Whoever goes on to the next range asks for a fresh one, or for none. -/
theorem Footing.fresh_progress (h : Footing c (done ++ actions))
    (hp : c.session.phase = .started ∨ c.session.phase = .requesting)
    (hactions : requests actions = []) {accepts : Channel → Bool} {now : ℕ} {storage : Storage}
    (ha : a ∈ requests (c.progress accepts now storage actions).actions) :
    ∃ r, a = asksFor c.session.id r ∧
      Fresh (c.progress accepts now storage actions).coordinator done r := by
  have hcontinues := continues_requestNext
    { c with stage := .pulling (now + c.policy.idleTimeout.millis) } accepts now storage actions hp
  have hdelivered := hcontinues.delivered_eq
  have hid := ((SameFile.refl c).progress hp accepts now storage actions).id_eq
  have fresh (hr : c.session.declaredSize - c.session.delivered ≠ 0)
      (ha : a ∈ requests
        (actions ++ [asksFor c.session.id (c.session.nextRange c.policy.chunkSize)])) :
      ∃ r, a = asksFor c.session.id r ∧
        Fresh (c.progress accepts now storage actions).coordinator done r := by
    obtain ⟨-, hpos, -⟩ := h.sound.nextRange hr h.chunkSize_ne
    rw [requests_append, hactions, List.nil_append] at ha
    refine ⟨_, List.mem_singleton.1 ha, hdelivered.symm, hpos, fun r' hr' => ?_⟩
    rw [hid] at hr'
    have hasked := h.asked r' (List.mem_append_left _ hr')
    rw [h.reached_eq hp] at hasked
    exact hasked
  unfold Coordinator.progress at ha fresh ⊢
  generalize requestNext _ accepts now storage actions = t at hcontinues ha fresh ⊢
  cases hcontinues with
  | asks hr hc => exact fresh hr ha
  | unheard hr hc why =>
    rw [(abort_concludes _ accepts now storage _ why).requests_eq] at ha
    exact fresh hr ha
  | completes hr =>
    rw [(finalize_concludes _ accepts now storage actions).requests_eq, hactions] at ha
    cases ha
  | fails why =>
    rw [(abort_concludes _ accepts now storage actions why).requests_eq, hactions] at ha
    cases ha

/-- No range is asked for after the verdict. -/
theorem pulling_of_request (ha : a ∈ requests (c.take x).actions) :
    ∃ deadline, c.stage = .pulling deadline := by
  cases hs : c.stage with
  | pulling deadline => exact ⟨deadline, rfl⟩
  | lingering success expiry =>
    rw [← requests_outward, (lingers_take hs x).outward_eq] at ha
    split_ifs at ha <;> cases ha
  | exited =>
    rw [take_exited hs] at ha
    cases ha

/-- A range is asked for when the session is started or a response moves it on, and it is a fresh
one. -/
theorem Footing.fresh_take (h : Footing c done) (hs : c.stage = .pulling deadline)
    (ha : a ∈ requests (c.take x).actions) :
    c.MovesOn x.event ∧
      ∃ r, a = asksFor c.session.id r ∧ Fresh (c.take x).coordinator done r := by
  have hdrives := drives_take hs x
  generalize c.take x = t at hdrives ha ⊢
  cases hdrives with
  | ignores hi => cases ha
  | counts hx hf text =>
    rw [violation_eq] at ha
    split_ifs at ha
    · rw [(abort_concludes _ x.accepts x.now x.storage _ _).requests_eq] at ha
      cases ha
    · cases ha
  | breaks hb =>
    rw [(abort_concludes _ x.accepts x.now x.storage _ _).requests_eq] at ha
    cases ha
  | starts hx hp => exact ⟨.inl ⟨hx, hp⟩, (h.started hp).fresh_progress (.inl rfl) rfl ha⟩
  | refuses hx hm hr hk =>
    rw [(abort_concludes _ x.accepts x.now x.storage _ _).requests_eq] at ha
    cases ha
  | takes hx hm hr hk =>
    exact ⟨.inr ⟨_, hx, hm⟩, (h.advanced hr hk).fresh_progress (.inr rfl) rfl ha⟩

/-! ### Turns -/

/-- The invariant. There is a footing until the verdict, and nothing was given up for one of these
reasons. -/
structure SureFooted (c : Coordinator) (done : List Action) : Prop where
  footing : ∀ deadline, c.stage = .pulling deadline → Footing c done
  calm : ∀ why : Abort, why.Defensive → .sink (.fail why.message) ∉ done

theorem sureFooted_new {policy : Policy} {id name : String} {size : UInt64} {sink : Sink}
    (hc : policy.chunkSize ≠ 0) (hk : sink.Opened id name size) (now : ℕ) :
    SureFooted (new policy (.new id name size) sink now) [] where
  footing _ _ := ⟨Session.sound_new id name size, hc, hk.ready, fun _ h => by cases h⟩
  calm _ _ h := by cases h

/-- A turn that leaves bytes missing keeps the footing. -/
theorem Footing.take (h : Footing c done) (hs : (c.take x).coordinator.stage = .pulling deadline) :
    Footing (c.take x).coordinator (done ++ (c.take x).actions) := by
  obtain ⟨deadline', hs'⟩ := pulling_of_take hs
  have hdrives := drives_take hs' x
  generalize c.take x = t at hdrives hs ⊢
  cases hdrives with
  | ignores hi => exact h.quiet (by simp)
  | counts hx hf text =>
    rw [violation_eq] at hs ⊢
    split_ifs at hs ⊢
    · exact absurd hs (abort_concludes _ x.accepts x.now x.storage _ _).not_pulling
    · exact (h.counted _).quiet (by simp [asksFor])
  | breaks hb => exact absurd hs (abort_concludes c x.accepts x.now x.storage [] _).not_pulling
  | starts hx hp => exact (h.started hp).progress (.inl rfl) hs
  | refuses hx hm hr hk =>
    exact absurd hs (abort_concludes _ x.accepts x.now x.storage _ _).not_pulling
  | takes hx hm hr hk => exact (h.advanced hr hk).progress (.inr rfl) hs

/-- A turn keeps the invariant unless a mailbox is closed. -/
theorem SureFooted.take (h : SureFooted c done) (hx : ∀ i, x.event ≠ .closed i) :
    SureFooted (c.take x).coordinator (done ++ (c.take x).actions) where
  footing deadline hs := by
    obtain ⟨deadline', hs'⟩ := pulling_of_take hs
    exact (h.footing deadline' hs').take hs
  calm why hd hmem := by
    rcases List.mem_append.1 hmem with hmem | hmem
    · exact h.calm why hd hmem
    · obtain ⟨deadline, hs⟩ := pulling_of_sink hmem
      obtain ⟨why', hr, hmessage⟩ := reason_of_fail hs hmem
      have hn := (h.footing deadline hs).not_defensive hx hr
      exact hr.message_ne hn hd hmessage.symm

end Coordinator

end PullIngest
