import PullIngest.Proofs.Coordinator.Verdict
import PullIngest.Proofs.Storage.Sink
import PullIngest.Proofs.Wire.Payload

/-!
# What a coordinator takes in

As long as every answer carries the bytes of a fixed file, the sink of a session holds the
beginning of that file, and a good verdict keeps all of it.

* `Staged`: the stage of a coordinator agrees with the outcome of its session;
* `publish_of_take`: everything that a coordinator publishes;
* `Intake`: the invariant, and `Intake.take` for a turn.
-/

namespace PullIngest.Coordinator

open Action

/-- The stage of a coordinator agrees with the outcome of its session. -/
structure Staged (c : Coordinator) : Prop where
  pulling : ∀ deadline, c.stage = .pulling deadline → c.session.outcome? = none
  lingering : ∀ success expiry, c.stage = .lingering success expiry →
    c.session.outcome? = some (.ofBool success)

variable {c c' : Coordinator} {before actions : List Action} {x : Occasion} {t : Turn}

theorem Concludes.outcome {call : SinkCall} {success : Bool}
    (h : Concludes c before call success t) (hu : c.session.outcome? = none) :
    t.coordinator.session.outcome? = some (.ofBool success) := by
  rw [h.session_eq]
  exact Session.finish_outcome? (Session.outcome?_eq_none_iff.1 hu) success

theorem Concludes.staged {call : SinkCall} {success : Bool}
    (h : Concludes c before call success t) (hu : c.session.outcome? = none) :
    Staged t.coordinator := by
  obtain ⟨expiry, hs⟩ := h.lingers
  refine ⟨fun deadline hp => ?_, fun success' expiry' hl => ?_⟩
  · rw [hs] at hp
    cases hp
  · rw [hs] at hl
    cases hl
    exact h.outcome hu

theorem staged_new (policy : Policy) (id name : String) (size : UInt64) (sink : Sink) (now : ℕ) :
    Staged (new policy (.new id name size) sink now) :=
  ⟨fun _ _ => rfl, fun _ _ h => by cases h⟩

/-- A turn keeps the stage and the outcome in agreement. -/
theorem Staged.take (h : Staged c) (x : Occasion) : Staged (c.take x).coordinator := by
  cases hs : c.stage with
  | pulling deadline =>
    have hsettles := settles_take ⟨⟨deadline, hs⟩, h.pulling _ hs⟩ x
    generalize c.take x = t at hsettles ⊢
    cases hsettles with
    | goesOn hu hp =>
      obtain ⟨⟨deadline', hs'⟩, ho⟩ := hu
      refine ⟨fun _ _ => ho, fun success expiry hl => ?_⟩
      rw [hs'] at hl
      cases hl
    | concludes hm ht hg => exact ht.staged hm.outcome_eq
  | lingering success expiry =>
    have hl := lingers_take hs x
    refine ⟨fun deadline hp => ?_, fun success' expiry' hl' => ?_⟩
    · rw [hl.stage_eq, hs] at hp
      split_ifs at hp
    · rw [hl.stage_eq] at hl'
      split_ifs at hl'
      rw [hl.session_eq]
      exact h.lingering _ _ hl'
  | exited =>
    rw [take_exited hs]
    exact h

/-- A verdict is not taken back. -/
theorem Staged.outcome_take (h : Staged c) {o : Outcome} (ho : c.session.outcome? = some o)
    (x : Occasion) : (c.take x).coordinator.session.outcome? = some o := by
  cases hs : c.stage with
  | pulling deadline =>
    rw [h.pulling _ hs] at ho
    cases ho
  | lingering success expiry => rw [(lingers_take hs x).session_eq, ho]
  | exited => rw [take_exited hs, ho]

/-- A coordinator publishes requests, and the verdict that its session has. -/
theorem publish_of_take (h : Staged c) {channel : Channel} {m : Message}
    (hm : .publish channel m ∈ (c.take x).actions) :
    (∃ session, channel = .request session) ∨
      ∃ success, channel = .done c.session.id ∧
        m = .carrying c.session.id .done (Done.mk success) ∧
        (c.take x).coordinator.session.outcome? = some (.ofBool success) := by
  have hout := (mem_outward rfl).2 hm
  have pulls {as : List Action} (hp : ∀ a ∈ as, a.isPull) (ha : .publish channel m ∈ as) :
      ∃ session, channel = .request session := by
    have := hp _ ha
    cases channel <;> simp [isPull] at this ⊢
  cases hs : c.stage with
  | pulling deadline =>
    have hsettles := settles_take ⟨⟨deadline, hs⟩, h.pulling _ hs⟩ x
    generalize c.take x = t at hsettles hout ⊢
    cases hsettles with
    | goesOn hu hp => exact .inl (pulls hp hout)
    | @concludes c' before call success _ hmid ht hg =>
      rw [ht.outward_eq] at hout
      rcases List.mem_append.1 hout with hout | hout
      · exact .inl (pulls hmid.pulled hout)
      · obtain ⟨rfl, rfl⟩ : channel = .done c'.session.id ∧
            m = .carrying c'.session.id .done (Done.mk success) := by
          simpa [tellsVerdict] using hout
        rw [hmid.id_eq]
        exact .inr ⟨success, rfl, rfl, ht.outcome hmid.outcome_eq⟩
  | lingering success expiry =>
    have hl := lingers_take hs x
    rw [hl.outward_eq] at hout
    split_ifs at hout
    · obtain ⟨rfl, rfl⟩ : channel = .done c.session.id ∧
          m = .carrying c.session.id .done (Done.mk success) := by
        simpa [tellsVerdict] using hout
      exact .inr ⟨success, rfl, rfl, by rw [hl.session_eq, h.lingering _ _ hs]⟩
    · cases hout
  | exited =>
    rw [take_exited hs] at hm
    cases hm

/-! ### What a turn counts -/

theorem Continues.delivered_eq {accepts : Channel → Bool} {now : ℕ} {storage : Storage}
    (h : Continues c accepts now storage actions t) :
    t.coordinator.session.delivered = c.session.delivered := by
  cases h with
  | asks hr hc => rfl
  | unheard hr hc why => exact (abort_concludes _ accepts now storage _ why).delivered_eq
  | completes hr => exact (finalize_concludes c accepts now storage actions).delivered_eq
  | fails why => exact (abort_concludes c accepts now storage actions why).delivered_eq

/-- A turn counts nothing but the bytes of the outstanding range. -/
theorem delivered_take (c : Coordinator) (x : Occasion) :
    (c.take x).coordinator.session.delivered = c.session.delivered ∨
      ∃ r data, Answers c x r data ∧
        (c.take x).coordinator.session.delivered = c.session.delivered + r.size := by
  cases hs : c.stage with
  | pulling deadline =>
    have hpulls := pulls_take hs x
    generalize c.take x = t at hpulls ⊢
    cases hpulls with
    | waits violations lines => exact .inl rfl
    | fails violations why lines =>
      left
      exact (abort_concludes _ x.accepts x.now x.storage _ why).delivered_eq
    | starts hp =>
      left
      exact (continues_requestNext _ x.accepts x.now x.storage [] (.inl rfl)).delivered_eq
    | refuses ha why =>
      -- The bytes are counted before the sink refuses them.
      refine .inr ⟨_, _, ha, ?_⟩
      exact (abort_concludes _ x.accepts x.now x.storage _ why).delivered_eq
    | takes ha hk =>
      refine .inr ⟨_, _, ha, ?_⟩
      exact (continues_requestNext _ x.accepts x.now _ _ (.inr rfl)).delivered_eq
  | lingering success expiry =>
    left
    rw [(lingers_take hs x).session_eq]
  | exited =>
    left
    rw [take_exited hs]

/-! ### The bytes of a file -/

/-- What a session has taken in of a file, and what is kept of it. -/
structure Intake (dest : Destination) (file : List UInt8) (c : Coordinator) (s : Storage) :
    Prop where
  sound : c.session.Sound
  declared : c.session.declaredSize.toNat = file.length
  holds : c.session.outcome? = none → c.sink.Serves dest c.session.id c.session.name ∧
    c.sink.Holds s (file.take c.session.delivered.toNat)
  kept : c.session.outcome? = some .success →
    dest.kept? c.session.id c.session.name s = some file ∧
      c.session.delivered.toNat = file.length

variable {dest : Destination} {file : List UInt8} {s storage : Storage}

/-- Only the session, the sink and the storage matter. -/
theorem Intake.of_eq (h : Intake dest file c s) (hs : c'.session = c.session)
    (hk : c'.sink = c.sink) : Intake dest file c' s where
  sound := hs ▸ h.sound
  declared := hs ▸ h.declared
  holds := by rw [hs, hk]; exact h.holds
  kept := by rw [hs]; exact h.kept

/-- A bad verdict keeps nothing. -/
theorem Concludes.intake {call : SinkCall} (ht : Concludes c before call false t)
    (hs : c.session.Sound) (hd : c.session.declaredSize.toNat = file.length)
    (hu : c.session.outcome? = none) : Intake dest file t.coordinator storage := by
  have ho := ht.outcome hu
  exact
    { sound := ht.session_eq ▸ hs.finish false
      declared := by rw [ht.declaredSize_eq, hd]
      holds := by rw [ho]; simp
      kept := by rw [ho]; simp [Outcome.ofBool] }

theorem Intake.abort (h : Intake dest file c s) (hu : c.session.outcome? = none)
    (accepts : Channel → Bool) (now : ℕ) (storage : Storage) (actions : List Action)
    (why : Abort) :
    Intake dest file (c.abort accepts now storage actions why).coordinator
      (c.abort accepts now storage actions why).storage :=
  (abort_concludes c accepts now storage actions why).intake h.sound h.declared hu

/-- The verdict of the sink on all bytes keeps them. -/
theorem Intake.finalize (h : Intake dest file c s) (hu : c.session.outcome? = none)
    (hfull : c.session.delivered = c.session.declaredSize) (accepts : Channel → Bool) (now : ℕ)
    (actions : List Action) :
    Intake dest file (c.finalize accepts now s actions).coordinator
      (c.finalize accepts now s actions).storage := by
  have ht := finalize_concludes c accepts now s actions
  have hstorage : (c.finalize accepts now s actions).storage = (c.sink.finalize s).2.2.1 := rfl
  rw [hstorage]
  generalize c.finalize accepts now s actions = t at ht ⊢
  cases hv : c.sink.finalize s with
  | mk verdict rest =>
    obtain ⟨sink, storage, log⟩ := rest
    rw [hv] at ht
    cases verdict with
    | false => exact ht.intake h.sound h.declared hu
    | true =>
      obtain ⟨hserves, hholds⟩ := h.holds hu
      -- What the sink holds of the file is all of it.
      have hlen : c.session.delivered.toNat = file.length := by rw [hfull, h.declared]
      rw [hlen, List.take_length] at hholds
      exact
        { sound := ht.session_eq ▸ h.sound.finish true
          declared := by rw [ht.declaredSize_eq, h.declared]
          holds := by rw [ht.outcome hu]; simp
          kept := by
            intro _
            rw [ht.session_eq, Session.finish_id, Session.finish_name, Session.finish_delivered]
            exact ⟨hholds.finalize hserves hv, hlen⟩ }

theorem Intake.continues {accepts : Channel → Bool} {now : ℕ} (h : Intake dest file c s)
    (hu : c.session.outcome? = none) (ht : Continues c accepts now s actions t) :
    Intake dest file t.coordinator t.storage := by
  have asks (hr : c.session.declaredSize - c.session.delivered ≠ 0)
      (hc : c.policy.chunkSize ≠ 0) :
      Intake dest file
        { c with session := c.session.awaiting (c.session.nextRange c.policy.chunkSize) } s :=
    { sound := h.sound.awaiting hr hc
      declared := h.declared
      holds := fun _ => h.holds hu
      kept := by simp [Session.awaiting, Session.outcome?] }
  cases ht with
  | asks hr hc => exact asks hr hc
  | unheard hr hc why => exact (asks hr hc).abort rfl accepts now s _ why
  | completes hr => exact h.finalize hu (h.sound.delivered_eq hr) accepts now actions
  | fails why => exact h.abort hu accepts now s actions why

theorem Intake.progress (h : Intake dest file c s)
    (hp : c.session.phase = .started ∨ c.session.phase = .requesting) (accepts : Channel → Bool)
    (now : ℕ) (actions : List Action) :
    Intake dest file (c.progress accepts now s actions).coordinator
      (c.progress accepts now s actions).storage := by
  have hu : c.session.outcome? = none := by
    rcases hp with hp | hp <;> simp [Session.outcome?, hp]
  have hmoved : Intake dest file
      { c with stage := .pulling (now + c.policy.idleTimeout.millis) } s := h.of_eq rfl rfl
  exact hmoved.continues hu (continues_requestNext _ accepts now s actions hp)

/-- The bytes of the outstanding range move a session on, whatever the sink does with them. -/
theorem Intake.advanced {r : ChunkResponse} {data : List UInt8} (h : Intake dest file c s)
    (ha : Answers c x r data) (sink : Sink)
    (hk : sink.Serves dest c.session.id c.session.name ∧
      sink.Holds storage (file.take c.session.delivered.toNat ++ data))
    (hdata : data = bytesAt file r.offset r.size) :
    Intake dest file { c with session := c.session.advancedBy r.size, sink } storage := by
  obtain ⟨hoff, -, -⟩ := h.sound.range_of_outstanding _ ha.outstanding
  obtain ⟨hadd, hle⟩ := h.sound.toNat_advanced ha.outstanding
  have htake : file.take c.session.delivered.toNat ++ data
      = file.take (c.session.delivered.toNat + r.size.toNat) := by
    simp only at hoff
    rw [hdata, bytesAt, hoff, List.take_add]
  exact
    { sound := h.sound.advancedBy ha.outstanding
      declared := h.declared
      holds := by
        intro _
        show _ ∧ sink.Holds storage (file.take (c.session.delivered + r.size).toNat)
        rw [hadd, ← htake]
        exact hk
      kept := by simp [Session.advancedBy, Session.outcome?] }

/-- A turn takes in nothing but bytes of the file, as long as answers carry nothing else. -/
theorem Intake.take (h : Intake dest file c x.storage) (hst : Staged c)
    (hx : ∀ r data, Answers c x r data → data = bytesAt file r.offset r.size) :
    Intake dest file (c.take x).coordinator (c.take x).storage := by
  cases hs : c.stage with
  | pulling deadline =>
    have hu := hst.pulling _ hs
    have hpulls := pulls_take hs x
    generalize c.take x = t at hpulls ⊢
    have counted (violations : UInt32) :
        Intake dest file { c with session := { c.session with violations } } x.storage :=
      ⟨h.sound.counted violations, h.declared, h.holds, h.kept⟩
    cases hpulls with
    | waits violations lines => exact counted violations
    | fails violations why lines =>
      exact (counted violations).abort hu x.accepts x.now x.storage _ why
    | starts hp =>
      have hstarted : Intake dest file { c with session := { c.session with phase := .started } }
          x.storage :=
        { sound := h.sound.started hp
          declared := h.declared
          holds := fun _ => h.holds hu
          kept := by simp [Session.outcome?] }
      exact hstarted.progress (.inl rfl) x.accepts x.now []
    | @refuses r data ha why =>
      have hsound : (c.session.advancedBy r.size).Sound := h.sound.advancedBy ha.outstanding
      exact (abort_concludes _ x.accepts x.now x.storage _ why).intake hsound h.declared rfl
    | @takes r data sink storage ha hk =>
      obtain ⟨hserves, hholds⟩ := h.holds hu
      -- The range begins behind the last byte that the sink holds.
      have hoff : r.offset.toNat = (file.take c.session.delivered.toNat).length := by
        have hrange := (h.sound.range_of_outstanding _ ha.outstanding).1
        have hle := UInt64.le_iff_toNat_le.1 h.sound.delivered_le
        have hdeclared := h.declared
        simp only at hrange
        rw [hrange, List.length_take]
        omega
      have hadv := h.advanced ha sink ⟨hserves.accept hk, hholds.accept hoff hk⟩ (hx r data ha)
      exact hadv.progress (.inr rfl) x.accepts x.now _
  | lingering success expiry =>
    have hl := lingers_take hs x
    rw [hl.storage_eq]
    exact h.of_eq hl.session_eq hl.sink_eq
  | exited =>
    rw [take_exited hs]
    exact h

end PullIngest.Coordinator
