import PullIngest.Proofs.Storage.Ranges
import PullIngest.Proofs.Wire.Payload
import PullIngest.Uploader

/-!
# Steps of an uploader

Everything that an uploader can do in one step while its file does not change.

* `Reads`: the file has the bytes that it had when it was opened;
* `Moves`: everything that a step can do (`moves_step`);
* `sentTo?`: how far the bytes reach that an uploader has sent.
-/

namespace PullIngest.Uploader

open Action

/-- The file of an uploader has these bytes, as many as when it was opened. -/
structure Reads (u : Uploader) (file : List UInt8) (d : Disk) : Prop where
  entry : ∃ n, u.source.entry = .file n ∧ d.read n = file
  length : u.source.length.toNat = file.length

/-- A stage in which an upload ends because a message could not be published, or another one. -/
def UnlessFull (next : UploadStage → Prop) (stage : UploadStage) : Prop :=
  (∃ why, stage = .finished (.error why)) ∨ next stage

/-- Everything that a step can do. -/
inductive Moves (file : List UInt8) (u : Uploader) (e : UploadEvent) :
    Uploader × List Action → Prop
  | ignores : Moves file u e (u, [])
  | fails (why : UploadError) (lines : List String) :
      Moves file u e ({ u with stage := .finished (.error why) }, logs lines)
  /-- The create request. -/
  | creates (hu : u.stage = .waiting) {stage : UploadStage}
      (hs : UnlessFull (fun s => ∃ deadline, s = .creating deadline) stage) :
      Moves file u e ({ u with stage }, [.subscribe (.reply u.correlation), .publish .create
        (.carrying u.correlation .createSession (CreateSession.mk u.name u.source.length))])
  /-- The start of the session that was opened. -/
  | starts {deadline : ℕ} (hu : u.stage = .creating deadline) (id : String) {stage : UploadStage}
      (hs : UnlessFull (fun s => ∃ t : Transfer, s = .transferring t ∧ t.bytesSent = 0) stage) :
      Moves file u e ({ u with stage }, [.unsubscribe (.reply u.correlation),
        .subscribe (.request id), .subscribe (.done id),
        .publish (.start id) (.signal id .start)])
  /-- A request that is not answered. -/
  | hears {t t' : Transfer} (hu : u.stage = .transferring t) (ht : t'.bytesSent = t.bytesSent)
      (lines : List String) : Moves file u e ({ u with stage := .transferring t' }, logs lines)
  /-- The bytes of a range. -/
  | answers {t : Transfer} (hu : u.stage = .transferring t) {offset size : UInt64}
      (hle : offset.toNat + size.toNat ≤ file.length) {stage : UploadStage}
      (hs : UnlessFull (fun s => ∃ t' : Transfer, s = .transferring t' ∧
        t'.bytesSent = max t.bytesSent (offset + size)) stage) (before after : List String) :
      Moves file u e ({ u with stage }, logs before ++ .publish (.response t.session)
        (.carrying t.session .chunkResponse (ChunkResponse.ofBytes offset
          (bytesAt file offset size))) :: logs after)
  /-- A range cannot be read. -/
  | cancels {t : Transfer} (hu : u.stage = .transferring t) (m : Message) {stage : UploadStage}
      (hs : UnlessFull (fun s => ∃ t' : Transfer, s = .transferring t' ∧
        t'.bytesSent = t.bytesSent) stage) (before after : List String) :
      Moves file u e ({ u with stage }, logs before ++ .publish (.cancel t.session) m ::
        logs after)
  /-- The verdict. -/
  | ends {t : Transfer} (hu : u.stage = .transferring t) {m : Message} {success : Bool}
      (he : e = .done m) (hm : m.payloadAs Done .done = .ok ⟨success⟩) :
      Moves file u e
        ({ u with stage := .finished (.ok ⟨t.session, success, t.bytesSent⟩) }, [])

variable {file : List UInt8} {u : Uploader} {d : Disk} {e : UploadEvent}

/-- Publishing goes on in the next stage or ends the upload. -/
theorem publish_eq (u : Uploader) (accepts : Channel → Bool) (channel : Channel) (m : Message)
    (next : UploadStage) (actions : List Action) :
    ∃ stage, UnlessFull (· = next) stage ∧
      u.publish accepts channel m next actions = ({ u with stage }, actions ++ [.publish channel m]) := by
  unfold publish
  dsimp only
  split_ifs
  · exact ⟨next, .inr rfl, rfl⟩
  · exact ⟨_, .inl ⟨_, rfl⟩, rfl⟩

/-- An upload that did not end with an error has reached the next stage. -/
theorem UnlessFull.reached {p : UploadStage → Prop} {stage : UploadStage} (h : UnlessFull p stage)
    (hn : ∀ why, stage ≠ .finished (.error why)) : p stage := by
  rcases h with ⟨why, rfl⟩ | h
  · exact absurd rfl (hn why)
  · exact h

theorem UnlessFull.mono {p q : UploadStage → Prop} {stage : UploadStage} (h : UnlessFull p stage)
    (hpq : ∀ s, p s → q s) : UnlessFull q stage :=
  h.imp id (hpq stage)

/-- Bytes that are read are those of the file. -/
theorem Reads.read (h : u.Reads file d) {offset size : UInt64} {data : List UInt8}
    {log : List String}
    (hr : (u.source.handle d).read u.source.length offset size = (.ok data, log)) :
    offset.toNat + size.toNat ≤ file.length ∧ data = bytesAt file offset size := by
  obtain ⟨n, hentry, hfile⟩ := h.entry
  unfold Source.handle at hr
  rw [hentry] at hr
  dsimp only at hr
  rw [hfile, Source.Handle.read_eq, h.length] at hr
  dsimp only at hr
  split_ifs at hr with h1 h2
  · cases hr
  · cases hr
    exact ⟨Nat.not_lt.1 h1, by rw [h2]; rfl⟩
  · cases hr
  · cases hr
    exact ⟨Nat.not_lt.1 h1, rfl⟩

/-- Reporting is a line in the log at most, and changes only the time of the last report. -/
theorem report_eq (u : Uploader) (now : ℕ) (t : Transfer) :
    ∃ lastReport lines, u.report now t = ({ t with lastReport }, logs lines) ∧
      lines.length ≤ 1 := by
  unfold report
  split_ifs
  · exact ⟨now, [_], rfl, Nat.le_refl 1⟩
  · exact ⟨t.lastReport, [], rfl, Nat.zero_le 1⟩

theorem answer_eq (u : Uploader) (accepts : Channel → Bool) (now : ℕ) (channel : Channel)
    (m : Message) (t : Transfer) (before : List String) :
    ∃ stage after, UnlessFull (fun s => ∃ t' : Transfer, s = .transferring t' ∧
        t'.bytesSent = t.bytesSent) stage ∧
      u.answer accepts now channel m t (logs before)
        = ({ u with stage }, logs before ++ .publish channel m :: logs after) := by
  obtain ⟨lastReport, lines, hreport, -⟩ := u.report_eq now t
  obtain ⟨stage, hs, hp⟩ :=
    u.publish_eq accepts channel m (.transferring { t with lastReport }) (logs before)
  unfold answer
  rw [hreport]
  dsimp only
  rw [hp]
  refine ⟨stage, if accepts channel then lines else [], hs.mono ?_, ?_⟩
  · rintro s rfl
    exact ⟨_, rfl, rfl⟩
  · dsimp only
    split_ifs
    · simp [logs]
    · simp [logs]

theorem moves_onRequest (h : u.Reads file d) (accepts : Channel → Bool) (now : ℕ) {t : Transfer}
    (hu : u.stage = .transferring t) (m : Message) :
    Moves file u e (u.onRequest accepts now (u.source.handle d) t m) := by
  unfold onRequest
  dsimp only
  split
  · next why _ => exact .hears hu (by rfl) ["WARN malformed chunk request: " ++ why.message]
  · next request _ =>
    split_ifs
    · exact .hears hu (by rfl) []
    · split
      · next data log hr =>
        obtain ⟨hle, rfl⟩ := h.read hr
        obtain ⟨stage, after, hs, ha⟩ := u.answer_eq accepts now (.response t.session) _ _ log
        rw [ha]
        exact .answers hu hle hs log after
      · next why log hr =>
        -- The line about the failure is one more line before the cancel message.
        have hlogs : logs log ++ [.log ("ERROR cannot read requested range, cancelling: "
            ++ why.message)] = logs (log ++ ["ERROR cannot read requested range, cancelling: "
            ++ why.message]) := by simp [logs]
        rw [hlogs]
        obtain ⟨stage, after, hs, ha⟩ := u.answer_eq accepts now (.cancel t.session) _ _
          (log ++ ["ERROR cannot read requested range, cancelling: " ++ why.message])
        rw [ha]
        exact .cancels hu _ hs _ after

/-- Everything that a step can do while the file does not change. -/
theorem moves_step (h : u.Reads file d) (accepts : Channel → Bool) (now : ℕ) (e : UploadEvent) :
    Moves file u e (u.step accepts now d e) := by
  unfold step react
  split
  · next hu =>
    obtain ⟨stage, hs, hp⟩ := u.publish_eq accepts .create
      (.carrying u.correlation .createSession (CreateSession.mk u.name u.source.length))
      (.creating (now + u.patience.create.millis)) [.subscribe (.reply u.correlation)]
    unfold create
    rw [hp]
    exact .creates hu (hs.mono fun s hs => ⟨_, hs⟩)
  · next deadline m hu =>
    unfold onReply
    split
    · exact .fails _ []
    · next created _ =>
      obtain ⟨stage, hs, hp⟩ := u.publish_eq accepts (.start created.id)
        (.signal created.id .start)
        (.transferring ⟨created.id, 0, false, now + u.patience.silence.millis, now⟩)
        [.unsubscribe (.reply u.correlation), .subscribe (.request created.id),
          .subscribe (.done created.id)]
      rw [hp]
      exact .starts hu created.id (hs.mono fun s hs => ⟨_, hs, rfl⟩)
  · exact .fails .timeout []
  · next t m hu => exact moves_onRequest h accepts now hu m
  · next t m hu =>
    unfold onDone
    split
    · exact .fails _ []
    · next done hm => exact .ends hu rfl hm
  · exact .fails .timeout ["WARN server went silent"]
  · exact .ignores

/-! ### What follows for every step -/

/-- How far the bytes reach that were sent. An upload that ended with an error does not tell. -/
def sentTo? (u : Uploader) : Option ℕ :=
  match u.stage with
  | .waiting => some 0
  | .creating _ => some 0
  | .transferring t => some t.bytesSent.toNat
  | .finished (.ok o) => some o.bytesSent.toNat
  | .finished (.error _) => none

theorem sentTo?_of_result {o : UploadOutcome} (h : u.result? = some (.ok o)) :
    u.sentTo? = some o.bytesSent.toNat := by
  unfold result? at h
  unfold sentTo?
  cases hs : u.stage with
  | finished r =>
    rw [hs] at h
    obtain rfl : r = .ok o := Option.some.inj h
    rfl
  | _ => rw [hs] at h; cases h

section Consequences

variable {r : Uploader × List Action} {m : Message}

theorem Moves.same (h : Moves file u e r) :
    r.1.source = u.source ∧ r.1.correlation = u.correlation ∧ r.1.name = u.name := by
  cases h <;> exact ⟨rfl, rfl, rfl⟩

theorem UnlessFull.sentTo {p : UploadStage → Prop} {stage : UploadStage} (h : UnlessFull p stage)
    {n : ℕ} (hn : ({ u with stage } : Uploader).sentTo? = some n) : p stage := by
  apply h.reached
  rintro why rfl
  cases hn

theorem toNat_max (a b : UInt64) : (max a b).toNat = max a.toNat b.toNat := by
  show (if a ≤ b then b else a).toNat = max a.toNat b.toNat
  split_ifs with h <;> rw [UInt64.le_iff_toNat_le] at h <;> omega

theorem toNat_stop {length : ℕ} {offset size : UInt64} (hfile : length < UInt64.size)
    (h : offset.toNat + size.toNat ≤ length) :
    (offset + size).toNat = offset.toNat + size.toNat := by
  have hsize : UInt64.size = 2 ^ 64 := rfl
  rw [UInt64.toNat_add, Nat.mod_eq_of_lt (by omega)]

/-- The bytes that were sent reach farther and farther, but not beyond the file. -/
theorem Moves.sentTo (h : Moves file u e r) (hfile : file.length < UInt64.size) {n' : ℕ}
    (hn : r.1.sentTo? = some n') :
    ∃ n, u.sentTo? = some n ∧ n ≤ n' ∧ n' ≤ max n file.length := by
  cases h with
  | ignores => exact ⟨n', hn, Nat.le_refl _, Nat.le_max_left _ _⟩
  | fails why lines => cases hn
  | creates hu hs =>
    obtain ⟨deadline, rfl⟩ := hs.sentTo hn
    obtain rfl : 0 = n' := Option.some.inj hn
    exact ⟨0, by simp [sentTo?, hu], Nat.le_refl _, Nat.zero_le _⟩
  | starts hu id hs =>
    obtain ⟨t, rfl, ht⟩ := hs.sentTo hn
    obtain rfl : t.bytesSent.toNat = n' := Option.some.inj hn
    exact ⟨0, by simp [sentTo?, hu], Nat.zero_le _, by simp [ht]⟩
  | @hears t t' hu ht lines =>
    obtain rfl : t'.bytesSent.toNat = n' := Option.some.inj hn
    refine ⟨t.bytesSent.toNat, by simp [sentTo?, hu], Nat.le_of_eq (by rw [ht]), ?_⟩
    rw [ht]
    exact Nat.le_max_left _ _
  | @answers t hu offset size hle stage hs before after =>
    obtain ⟨t', rfl, ht⟩ := hs.sentTo hn
    obtain rfl : t'.bytesSent.toNat = n' := Option.some.inj hn
    -- The end of the range is in the file, so that it does not wrap around.
    have hstop := toNat_stop hfile hle
    refine ⟨t.bytesSent.toNat, by simp [sentTo?, hu], ?_, ?_⟩ <;> rw [ht, toNat_max] <;> omega
  | @cancels t hu m stage hs before after =>
    obtain ⟨t', rfl, ht⟩ := hs.sentTo hn
    obtain rfl : t'.bytesSent.toNat = n' := Option.some.inj hn
    refine ⟨t.bytesSent.toNat, by simp [sentTo?, hu], Nat.le_of_eq (by rw [ht]), ?_⟩
    rw [ht]
    exact Nat.le_max_left _ _
  | @ends t hu m success he hm =>
    obtain rfl : t.bytesSent.toNat = n' := Option.some.inj hn
    exact ⟨t.bytesSent.toNat, by simp [sentTo?, hu], Nat.le_refl _, Nat.le_max_left _ _⟩

/-- A response carries bytes of the file, and the bytes that were sent reach behind them. -/
theorem Moves.response (h : Moves file u e r) (hfile : file.length < UInt64.size)
    {session : String} (hm : .publish (.response session) m ∈ r.2) :
    ∃ offset size, m = .carrying session .chunkResponse
        (ChunkResponse.ofBytes offset (bytesAt file offset size)) ∧
      offset.toNat + size.toNat ≤ file.length ∧
      ∀ n, r.1.sentTo? = some n → offset.toNat + size.toNat ≤ n := by
  cases h with
  | @answers t hu offset size hle stage hs before after =>
    obtain ⟨rfl, rfl⟩ : session = t.session ∧ m = .carrying t.session .chunkResponse
        (ChunkResponse.ofBytes offset (bytesAt file offset size)) := by
      simpa [logs] using hm
    refine ⟨offset, size, rfl, hle, fun n hn => ?_⟩
    obtain ⟨t', rfl, ht⟩ := hs.sentTo hn
    obtain rfl : t'.bytesSent.toNat = n := Option.some.inj hn
    rw [ht, toNat_max, toNat_stop hfile hle]
    exact Nat.le_max_right _ _
  | _ => simp [logs] at hm

theorem Moves.create (h : Moves file u e r) (hm : .publish .create m ∈ r.2) :
    m = .carrying u.correlation .createSession (CreateSession.mk u.name u.source.length) := by
  cases h with
  | creates hu hs => simpa using hm
  | _ => simp [logs] at hm

/-- Verdicts are left to the server. -/
theorem Moves.not_done (h : Moves file u e r) (session : String) :
    .publish (.done session) m ∉ r.2 := by
  cases h <;> simp [logs]

/-- An upload that has a verdict was told it. -/
theorem Moves.result (h : Moves file u e r) {o : UploadOutcome}
    (hr : r.1.result? = some (.ok o)) :
    u.result? = some (.ok o) ∨ ∃ t m, u.stage = .transferring t ∧ e = .done m ∧
      m.payloadAs Done .done = .ok ⟨o.success⟩ := by
  have reached {p : UploadStage → Prop} {stage : UploadStage} (hs : UnlessFull p stage)
      (hr : ({ u with stage } : Uploader).result? = some (.ok o)) : p stage := by
    apply hs.reached
    rintro why rfl
    cases hr
  cases h with
  | ignores => exact .inl hr
  | fails why lines => cases hr
  | creates hu hs => obtain ⟨deadline, rfl⟩ := reached hs hr; cases hr
  | starts hu id hs => obtain ⟨t, rfl, -⟩ := reached hs hr; cases hr
  | hears hu ht lines => cases hr
  | answers hu hle hs before after => obtain ⟨t, rfl, -⟩ := reached hs hr; cases hr
  | cancels hu m hs before after => obtain ⟨t, rfl, -⟩ := reached hs hr; cases hr
  | @ends t hu m success he hm =>
    cases hr
    exact .inr ⟨t, m, hu, he, hm⟩

end Consequences

end PullIngest.Uploader
