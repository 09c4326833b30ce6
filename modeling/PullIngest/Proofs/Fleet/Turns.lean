import PullIngest.Proofs.Coordinator.Turn
import PullIngest.Proofs.Server.Create
import PullIngest.Proofs.Uploader.Step

/-!
# Turns of an upload without trouble

What the tasks do when the file is as it was, the name is a good one, the sink is one in memory and
the bus takes every message: one lemma for each turn of the protocol.

* `Uploader.Fit`: an uploader whose file and name are as they should be;
* `Uploader.step_begin`, `step_reply`, `step_request`, `step_done`: the turns of an uploader;
* `Server.handleCreate_fit`: the answer of the server;
* `Coordinator.Serving`, `Awaiting`, `Next`: a coordinator between two turns, and what it does when
  the next range is due (`Serving.start`, `Awaiting.response`).
-/

namespace PullIngest

open Action

/-! ### Messages -/

/-- The request for a session. -/
def Uploader.createRequest (u : Uploader) : Message :=
  .carrying u.correlation .createSession (CreateSession.mk u.name u.source.length)

/-- The answer to it. -/
def createdMessage (correlation session : String) : Message :=
  .carrying correlation .sessionCreated (SessionCreated.mk session)

/-- The request for a range. -/
def rangeMessage (session : String) (r : ByteRange) : Message :=
  .carrying session .chunkRequest (ChunkRequest.mk r.offset r.size)

/-- The bytes of a range. -/
def bytesMessage (session : String) (r : ByteRange) (data : List UInt8) : Message :=
  .carrying session .chunkResponse (ChunkResponse.ofBytes r.offset data)

/-- A good verdict. -/
def doneMessage (session : String) : Message := .carrying session .done (Done.mk true)

/-! ### Uploaders -/

namespace Uploader

variable {u : Uploader} {accepts : Channel → Bool} {d : Disk}

/-- The file of an uploader is as it was when it was opened, and its name is a good one. -/
structure Fit (d : Disk) (u : Uploader) : Prop where
  name : Name.validate u.name = .ok ()
  file : ∃ n, u.source.entry = .file n ∧ u.source.length.toNat = (d.read n).length

theorem result?_eq_some {r : Except UploadError UploadOutcome} :
    u.result? = some r ↔ u.stage = .finished r := by
  unfold result?
  split <;> simp_all

theorem step_begin (hs : u.stage = .waiting) (ha : accepts .create = true) (now : ℕ) (d : Disk) :
    ∃ deadline, u.step accepts now d .begin = ({ u with stage := .creating deadline },
      [.subscribe (.reply u.correlation), .publish .create u.createRequest]) := by
  refine ⟨now + u.patience.create.millis, ?_⟩
  unfold step react
  rw [hs]
  dsimp only
  unfold create publish
  rw [if_pos ha]
  rfl

theorem step_reply {deadline : ℕ} {id : String} (hs : u.stage = .creating deadline)
    (ha : accepts (.start id) = true) (now : ℕ) (d : Disk) :
    ∃ t : Transfer, t.session = id ∧ t.bytesSent = 0 ∧ t.cancelled = false ∧
      u.step accepts now d (.reply (createdMessage u.correlation id)) =
        ({ u with stage := .transferring t }, [.unsubscribe (.reply u.correlation),
          .subscribe (.request id), .subscribe (.done id),
          .publish (.start id) (.signal id .start)]) := by
  refine ⟨⟨id, 0, false, now + u.patience.silence.millis, now⟩, rfl, rfl, rfl, ?_⟩
  unfold step react
  rw [hs]
  dsimp only
  unfold onReply createdMessage
  rw [payloadAs_carrying]
  dsimp only
  unfold publish
  rw [if_pos ha]
  rfl

/-- A range of the file is read as it is asked for. -/
theorem Fit.read (h : u.Fit d) {r : ByteRange}
    (hr : r.offset.toNat + r.size.toNat ≤ u.source.length.toNat) :
    ∃ data : List UInt8,
      (u.source.handle d).read u.source.length r.offset r.size = (.ok data, []) ∧
      data.length = r.size.toNat := by
  obtain ⟨n, hentry, hlength⟩ := h.file
  have hdata : (bytesAt (d.read n) r.offset r.size).length = r.size.toNat :=
    length_bytesAt (by rw [← hlength]; exact hr)
  refine ⟨bytesAt (d.read n) r.offset r.size, ?_, hdata⟩
  unfold Source.handle
  rw [hentry, Source.Handle.read_eq, if_neg (Nat.not_lt.2 hr)]
  by_cases hsize : r.size = 0
  · rw [if_pos hsize, hsize]
    rfl
  rw [if_neg hsize]
  dsimp only
  rw [if_neg (by omega)]

theorem step_request {t : Transfer} (hs : u.stage = .transferring t) (ht : t.cancelled = false)
    (hu : u.Fit d) {r : ByteRange}
    (hr : r.offset.toNat + r.size.toNat ≤ u.source.length.toNat)
    (ha : accepts (.response t.session) = true) (now : ℕ) :
    ∃ (t' : Transfer) (data : List UInt8) (lines : List String), t'.session = t.session ∧
      t'.cancelled = false ∧ t'.bytesSent = max t.bytesSent (r.offset + r.size) ∧
      data.length = r.size.toNat ∧ lines.length ≤ 1 ∧
      u.step accepts now d (.request (rangeMessage t.session r)) =
        ({ u with stage := .transferring t' },
          .publish (.response t.session) (bytesMessage t.session r data) :: logs lines) := by
  obtain ⟨data, hread, hdata⟩ := hu.read hr
  let sent : Transfer :=
    { t with deadline := now + u.patience.silence.millis
             bytesSent := max t.bytesSent (r.offset + r.size) }
  obtain ⟨lastReport, lines, hreport, hlines⟩ := u.report_eq now sent
  refine ⟨{ sent with lastReport }, data, lines, rfl, ht, rfl, hdata, hlines, ?_⟩
  unfold step react
  rw [hs]
  dsimp only
  unfold onRequest rangeMessage
  rw [payloadAs_carrying]
  dsimp only
  rw [if_neg (by simp [ht]), hread]
  dsimp only
  unfold answer
  rw [hreport]
  dsimp only
  unfold publish
  rw [if_pos ha]
  simp [ha, logs, bytesMessage]

theorem step_done {t : Transfer} (hs : u.stage = .transferring t) (accepts : Channel → Bool)
    (now : ℕ) (d : Disk) :
    u.step accepts now d (.done (doneMessage t.session)) =
      ({ u with stage := .finished (.ok ⟨t.session, true, t.bytesSent⟩) }, []) := by
  unfold step react
  rw [hs]
  dsimp only
  unfold onDone doneMessage
  rw [payloadAs_carrying]
  rfl

end Uploader

/-! ### Coordinators -/

namespace Coordinator

/-- A coordinator that has taken in `n` of `size` bytes and goes on. -/
structure Serving (id : String) (chunk : UInt64) (size n : ℕ) (c : Coordinator) : Prop where
  id_eq : c.session.id = id
  chunk_eq : c.policy.chunkSize = chunk
  size_eq : c.session.declaredSize.toNat = size
  delivered_eq : c.session.delivered.toNat = n
  sound : c.session.Sound
  pulling : ∃ deadline, c.stage = .pulling deadline
  sink : ∃ m, c.sink = .memory m ∧ m.size = c.session.declaredSize ∧ m.data.size = n ∧
    m.reject = false ∧ m.refuseFrom = none

/-- One that waits for the bytes of a range. -/
structure Awaiting (id : String) (chunk : UInt64) (size n : ℕ) (r : ByteRange)
    (c : Coordinator) : Prop extends Serving id chunk size n c where
  lt : n < size
  outstanding : c.session.outstanding = some r
  offset : r.offset.toNat = n
  width : r.size.toNat = min (size - n) chunk.toNat

/-- What a coordinator does that has taken in `n` bytes, after the actions `before`: it asks for the
next range, or the file is complete and it tells the verdict. -/
inductive Next (id : String) (chunk : UInt64) (size n : ℕ) (storage : Storage)
    (before : List Action) : Turn → Prop
  | asks {c : Coordinator} {r : ByteRange} (hc : Awaiting id chunk size n r c) :
      Next id chunk size n storage before
        ⟨c, storage, before ++ [.publish (.request id) (rangeMessage id r)]⟩
  | ends {c : Coordinator} {storage' : Storage} (hn : n = size)
      (hd : storage'.disk = storage.disk) (hid : c.session.id = id)
      (hl : ∃ expiry, c.stage = .lingering true expiry) :
      Next id chunk size n storage before ⟨c, storage',
        before ++ [.sink (.finalize true), .publish (.done id) (doneMessage id)]⟩

variable {id : String} {chunk : UInt64} {size n : ℕ} {c : Coordinator}
  {accepts : Channel → Bool} {now : ℕ} {storage : Storage}

theorem Serving.ne_exited (h : Serving id chunk size n c) : c.stage ≠ .exited := by
  obtain ⟨deadline, hs⟩ := h.pulling
  rw [hs]
  exact fun he => by cases he

/-- The sink of a complete file is content. -/
theorem Serving.finalize (h : Serving id chunk size n c) (hn : n = size)
    (ha : accepts (.done id) = true) (actions : List Action) :
    Next id chunk size n storage actions (c.finalize accepts now storage actions) := by
  obtain ⟨m, hsink, hmsize, hdata, hreject, -⟩ := h.sink
  have hwritten : m.written = m.size := by
    unfold MemorySink.written
    rw [hmsize, hdata, hn, ← h.size_eq, UInt64.ofNat_toNat]
  have hfinalize : c.sink.finalize storage =
      (true, .memory { m with data := .empty }, storage.complete m.session m.data.toList, []) := by
    rw [hsink]
    unfold Sink.finalize MemorySink.finalize
    simp [hreject, hwritten]
  unfold Coordinator.finalize
  rw [hfinalize]
  dsimp only
  unfold conclude publishDone
  dsimp only
  rw [Session.finish_id, h.id_eq, if_pos ha]
  have hnext : Next id chunk size n storage actions
      ⟨{ c with session := (c.session.finish true).2
                sink := .memory { m with data := .empty }
                stage := .lingering true (now + c.policy.grace.millis) },
        storage.complete m.session m.data.toList,
        actions ++ [.sink (.finalize true), .publish (.done id) (doneMessage id)]⟩ :=
    .ends hn rfl ((Session.finish_id _ _).trans h.id_eq) ⟨_, rfl⟩
  simpa [tell, h.id_eq, doneMessage, logs] using hnext

/-- A coordinator between two ranges asks for the next one, or finishes the file. -/
theorem Serving.requestNext (h : Serving id chunk size n c) (hc : chunk ≠ 0)
    (hp : c.session.phase = .started ∨ c.session.phase = .requesting)
    (hrequest : accepts (.request id) = true) (hdone : accepts (.done id) = true)
    (actions : List Action) :
    Next id chunk size n storage actions (c.requestNext accepts now storage actions) := by
  have hrem := h.sound.toNat_remaining
  have hle := UInt64.le_iff_toNat_le.1 h.sound.delivered_le
  rw [h.size_eq, h.delivered_eq] at hrem hle
  unfold Coordinator.requestNext
  rw [h.chunk_eq, Session.nextRequest_eq hc hp]
  split_ifs with hzero
  · -- All bytes have arrived.
    rw [hzero, UInt64.toNat_zero] at hrem
    exact h.finalize (by omega) hdone actions
  · have hpos : (c.session.declaredSize - c.session.delivered).toNat ≠ 0 := fun e =>
      hzero (UInt64.toNat_inj.1 e)
    have hserving : Serving id chunk size n
        { c with session := c.session.awaiting (c.session.nextRange chunk) } :=
      { h with sound := h.sound.awaiting hzero hc }
    have hsize : (c.session.nextRange chunk).size.toNat = min (size - n) chunk.toNat := by
      show (min (c.session.declaredSize - c.session.delivered) chunk).toNat = _
      rw [Session.toNat_min, hrem]
    have hawaiting : Awaiting id chunk size n (c.session.nextRange chunk)
        { c with session := c.session.awaiting (c.session.nextRange chunk) } :=
      { hserving with
        lt := by omega
        outstanding := rfl
        offset := h.delivered_eq
        width := hsize }
    obtain rfl := h.id_eq
    have hnext : Next c.session.id chunk size n storage actions _ := .asks hawaiting
    have hopen : accepts (.request (c.session.awaiting (c.session.nextRange chunk)).id) = true :=
      hrequest
    dsimp only
    rw [if_pos hopen]
    exact hnext

theorem Serving.progress (h : Serving id chunk size n c) (hc : chunk ≠ 0)
    (hp : c.session.phase = .started ∨ c.session.phase = .requesting)
    (hrequest : accepts (.request id) = true) (hdone : accepts (.done id) = true)
    (actions : List Action) :
    Next id chunk size n storage actions (c.progress accepts now storage actions) := by
  have hmoved : Serving id chunk size n
      { c with stage := .pulling (now + c.policy.idleTimeout.millis) } :=
    { h with pulling := ⟨_, rfl⟩ }
  exact hmoved.requestNext hc hp hrequest hdone actions

/-- The start of the session. -/
theorem Serving.start (h : Serving id chunk size 0 c) (hc : chunk ≠ 0)
    (hp : c.session.phase = .created) (hrequest : accepts (.request id) = true)
    (hdone : accepts (.done id) = true) (now : ℕ) (storage : Storage) (m : Message) :
    Next id chunk size 0 storage [] (c.step accepts now storage (.start m)) := by
  obtain ⟨deadline, hs⟩ := h.pulling
  have hstarted : Serving id chunk size 0
      { c with session := { c.session with phase := .started } } :=
    { h with sound := h.sound.started hp }
  unfold step
  rw [hs]
  dsimp only
  unfold onStart
  rcases c.session.start_cases with ⟨-, he⟩ | ⟨hne, -⟩
  · rw [he]
    exact hstarted.progress hc (.inl rfl) hrequest hdone []
  · exact absurd hp hne

/-- The bytes of the outstanding range. -/
theorem Awaiting.response {r : ByteRange} (h : Awaiting id chunk size n r c) (hc : chunk ≠ 0)
    {data : List UInt8} (hdata : data.length = r.size.toNat)
    (hrequest : accepts (.request id) = true) (hdone : accepts (.done id) = true) (now : ℕ)
    (storage : Storage) :
    Next id chunk size (n + r.size.toNat) storage [.sink (.accept r.offset data)]
      (c.step accepts now storage (.response (bytesMessage id r data))) := by
  obtain ⟨deadline, hs⟩ := h.pulling
  obtain ⟨m, hsink, hmsize, hmdata, hreject, hrefuse⟩ := h.sink
  have ho := h.outstanding
  obtain ⟨complete, haccept⟩ := h.sound.acceptPayload_eq ho
  obtain ⟨hoff, -, -⟩ := h.sound.range_of_outstanding _ ho
  obtain ⟨hadd, -⟩ := h.sound.toNat_advanced ho
  have hsize : (ChunkResponse.ofBytes r.offset data).size = r.size := by
    show UInt64.ofNat data.length = r.size
    rw [hdata, UInt64.ofNat_toNat]
  have hoffset : (ChunkResponse.ofBytes r.offset data).offset = r.offset := rfl
  have hwritten : m.written = r.offset := by
    unfold MemorySink.written
    rw [hoff, hmdata, ← h.delivered_eq, UInt64.ofNat_toNat]
  have hsinkAccept : c.sink.accept storage r.offset data =
      .ok (.memory { m with data := m.data.append data }, storage) := by
    rw [hsink]
    unfold Sink.accept MemorySink.accept MemorySink.refuses
    dsimp only
    rw [hrefuse]
    simp [hwritten]
    rfl
  have hadvanced : Serving id chunk size (n + r.size.toNat)
      { c with session := c.session.advancedBy r.size
               sink := .memory { m with data := m.data.append data } } :=
    { id_eq := h.id_eq
      chunk_eq := h.chunk_eq
      size_eq := h.size_eq
      delivered_eq := by
        show (c.session.delivered + r.size).toNat = _
        rw [hadd, h.delivered_eq]
      sound := h.sound.advancedBy ho
      pulling := h.pulling
      sink := ⟨_, rfl, hmsize, by
        show m.data.size + data.length = _
        rw [hmdata, hdata], hreject, hrefuse⟩ }
  unfold step
  rw [hs]
  dsimp only
  unfold onResponse bytesMessage
  rw [payloadAs_carrying]
  dsimp only
  rw [ChunkResponse.bytes_ofBytes]
  dsimp only
  rw [hsize, hoffset, hdata, haccept]
  dsimp only
  rw [hsinkAccept]
  exact hadvanced.progress hc (.inr rfl) hrequest hdone _

end Coordinator

/-! ### The server -/

/-- What the server does when it opens a session: it opens the mailboxes and answers. -/
def Server.welcome (correlation session : String) : List Action :=
  [.subscribe (.start session), .subscribe (.response session), .subscribe (.cancel session),
    .publish (.reply correlation) (createdMessage correlation session)]

/-- The answer to the create request of a fit uploader. -/
theorem Server.handleCreate_fit {s : Server} {u : Uploader} {d : Disk} (hu : u.Fit d)
    (hs : s.acceptedSession? u.correlation = none) (hd : s.destination = .memory false none)
    {accepts : Channel → Bool} (ha : accepts (.reply u.correlation) = true) (now : ℕ)
    (storage : Storage) (id : String) :
    ∃ c : Coordinator, c.session.phase = .created ∧
      c.Serving id s.policy.chunkSize u.source.length.toNat 0 ∧
      s.handleCreate accepts now storage id u.createRequest =
        { server := { s with registry := s.registry.create id u.name u.source.length
                             accepted := s.accepted.set u.correlation id }
          storage
          actions := welcome u.correlation id
          opened := some c
          entries := 1 } := by
  refine ⟨.new s.policy (.new id u.name u.source.length)
    (.memory { session := id, size := u.source.length }) now, rfl, ?_, ?_⟩
  · exact
      { id_eq := rfl
        chunk_eq := rfl
        size_eq := rfl
        delivered_eq := rfl
        sound := Session.sound_new _ _ _
        pulling := ⟨_, rfl⟩
        sink := ⟨_, rfl, rfl, rfl, rfl, rfl⟩ }
  · have haccepted : s.acceptedSession? u.createRequest.id = none := hs
    unfold handleCreate
    rw [haccepted]
    dsimp only
    unfold Uploader.createRequest
    rw [payloadAs_carrying]
    dsimp only
    rw [hu.name]
    dsimp only
    unfold openSession register Destination.openSink
    rw [hd]
    dsimp only
    unfold reply createdReply
    dsimp only [Message.carrying]
    rw [if_pos ha]
    rfl

end PullIngest
