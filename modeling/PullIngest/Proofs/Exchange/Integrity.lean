import PullIngest.Proofs.Coordinator.Intake
import PullIngest.Proofs.Exchange.Transport

/-!
# Files arrive whole or not at all

Whatever the transport does, a good verdict means that exactly the bytes of the file are kept, and
that the uploader counts exactly these.

* `Faithful`: the invariant. It ties what was published to the bytes of the file, and what the
  session has taken in to what the uploader has sent;
* `Faithful.client`, `.create`, `.turn`, `.others`: one lemma for each kind of step;
* `arrives_whole`: what holds of every run.
-/

namespace PullIngest.Exchange

open Action Coordinator

/-- What the messages and the states of an exchange have to do with the file. -/
structure Faithful (number : ℕ) (file : List UInt8) (dest : Destination) (name : String)
    (x : Exchange) : Prop where
  source : x.client.source = ⟨.file number, .ofNat file.length⟩
  name_eq : x.client.name = name
  destination_eq : x.server.destination = dest
  creates : ∀ m, (.create, m) ∈ x.sent → m = .carrying x.client.correlation .createSession
    (CreateSession.mk name (.ofNat file.length))
  responses : ∀ session m, (.response session, m) ∈ x.sent → ∃ offset size,
    m = .carrying session .chunkResponse (ChunkResponse.ofBytes offset (bytesAt file offset size)) ∧
      offset.toNat + size.toNat ≤ file.length ∧
      ∀ n, x.client.sentTo? = some n → offset.toNat + size.toNat ≤ n
  within : ∀ n, x.client.sentTo? = some n → n ≤ file.length
  session : ∀ c, x.session = some c → c.session.name = name ∧ Staged c ∧
    Intake dest file c x.storage ∧
    ∀ n, x.client.sentTo? = some n → c.session.delivered.toNat ≤ n
  verdicts : ∀ session m, (.done session, m) ∈ x.sent → ∃ c success, x.session = some c ∧
    m = .carrying c.session.id .done (Done.mk success) ∧
    c.session.outcome? = some (.ofBool success)
  result : ∀ o, x.client.result? = some (.ok o) → o.success = true →
    ∃ c, x.session = some c ∧ c.session.outcome? = some .success

variable {number : ℕ} {file : List UInt8} {dest : Destination} {name : String} {x y : Exchange}

theorem mem_sent {as : List Action} {channel : Channel} {m : Message}
    {sent : List (Channel × Message)} :
    (channel, m) ∈ sent ++ published as ↔ (channel, m) ∈ sent ∨ .publish channel m ∈ as := by
  rw [List.mem_append, mem_published]

theorem faithful_fresh {client : Uploader} {server : Server} {storage : Storage}
    (hc : client.stage = .waiting) (hs : client.source = ⟨.file number, .ofNat file.length⟩) :
    Faithful number file server.destination client.name (fresh client server storage) where
  source := hs
  name_eq := rfl
  destination_eq := rfl
  creates := by simp [fresh]
  responses := by simp [fresh]
  within := by
    intro n hn
    obtain rfl : 0 = n := by simpa [fresh, Uploader.sentTo?, hc] using hn
    exact Nat.zero_le _
  session := by simp [fresh]
  verdicts := by simp [fresh]
  result := by simp [fresh, Uploader.result?, hc]

/-- Whoever asks for no session keeps the create requests as they are. -/
theorem Faithful.creates_append (h : Faithful number file dest name x) {as : List Action}
    (hno : ∀ m, .publish .create m ∉ as) (m : Message)
    (hm : (.create, m) ∈ x.sent ++ published as) :
    m = .carrying x.client.correlation .createSession
      (CreateSession.mk name (.ofNat file.length)) := by
  rcases mem_sent.1 hm with hm | hm
  · exact h.creates m hm
  · exact absurd hm (hno m)

/-- Whoever sends no bytes keeps the responses as they are. -/
theorem Faithful.responses_append (h : Faithful number file dest name x) {as : List Action}
    (hno : ∀ session m, .publish (.response session) m ∉ as) (session : String) (m : Message)
    (hm : (.response session, m) ∈ x.sent ++ published as) : ∃ offset size,
    m = .carrying session .chunkResponse (ChunkResponse.ofBytes offset (bytesAt file offset size)) ∧
      offset.toNat + size.toNat ≤ file.length ∧
      ∀ n, x.client.sentTo? = some n → offset.toNat + size.toNat ≤ n := by
  rcases mem_sent.1 hm with hm | hm
  · exact h.responses session m hm
  · exact absurd hm (hno session m)

/-- Nobody but the uploader's server tells verdicts, and the uploader sends nothing but its file. -/
theorem Faithful.client (h : Faithful number file dest name x) (hfile : file.length < UInt64.size)
    {e : UploadEvent} (he : x.ReachesClient e) (accepts : Channel → Bool) (now : ℕ) {d : Disk}
    (hd : Sees number file d) : Faithful number file dest name (x.clientTurn accepts now d e) := by
  have hreads : x.client.Reads file d := by
    refine ⟨⟨number, by rw [h.source], hd⟩, ?_⟩
    rw [h.source]
    exact UInt64.toNat_ofNat_of_lt' hfile
  have hm := Uploader.moves_step hreads accepts now e
  unfold clientTurn
  generalize x.client.step accepts now d e = r at hm ⊢
  obtain ⟨hsource, hcorrelation, hname⟩ := hm.same
  exact
    { source := by rw [hsource, h.source]
      name_eq := hname.trans h.name_eq
      destination_eq := h.destination_eq
      creates := by
        intro m hmem
        rw [hcorrelation]
        rcases mem_sent.1 hmem with hmem | hmem
        · exact h.creates m hmem
        · rw [hm.create hmem, h.name_eq, h.source]
      responses := by
        intro session m hmem
        rcases mem_sent.1 hmem with hmem | hmem
        · obtain ⟨offset, size, hm', hle, hsent⟩ := h.responses session m hmem
          refine ⟨offset, size, hm', hle, fun n hn => ?_⟩
          obtain ⟨n', hn', hle', -⟩ := hm.sentTo hfile hn
          exact Nat.le_trans (hsent n' hn') hle'
        · exact hm.response hfile hmem
      within := by
        intro n hn
        obtain ⟨n', hn', -, hmax⟩ := hm.sentTo hfile hn
        have := h.within n' hn'
        omega
      session := by
        intro c hc
        obtain ⟨hn, hstaged, hintake, hle⟩ := h.session c hc
        refine ⟨hn, hstaged, hintake, fun n hn => ?_⟩
        obtain ⟨n', hn', hle', -⟩ := hm.sentTo hfile hn
        exact Nat.le_trans (hle n' hn') hle'
      verdicts := by
        intro session m hmem
        rcases mem_sent.1 hmem with hmem | hmem
        · exact h.verdicts session m hmem
        · exact absurd hmem (hm.not_done session)
      result := by
        intro o ho hsuccess
        rcases hm.result ho with ho | ⟨t, m, ht, rfl, hdone⟩
        · exact h.result o ho hsuccess
        · -- The verdict that the uploader was told is one that the coordinator has published.
          obtain ⟨c, success, hc, rfl, houtcome⟩ := h.verdicts t.session m (he t ht)
          rw [payloadAs_carrying] at hdone
          obtain rfl : success = o.success := by simpa using hdone
          rw [hsuccess] at houtcome
          exact ⟨c, hc, houtcome⟩ }

/-- The server opens the session for what the create request declares. -/
theorem Faithful.create (h : Faithful number file dest name x) (hfile : file.length < UInt64.size)
    (hx : x.session = none) {m : Message} (hm : (.create, m) ∈ x.sent) (accepts : Channel → Bool)
    (now : ℕ) (id : String) : Faithful number file dest name (x.createTurn accepts now id m) := by
  have hreply : ∀ channel m', .publish channel m' ∈
      (x.server.handleCreate accepts now x.storage id m).actions → channel = .reply m.id :=
    fun channel m' hp => Server.publish_of_handleCreate hp
  have ha := x.server.handleCreate_cases accepts now x.storage id m
  unfold createTurn
  dsimp only
  generalize x.server.handleCreate accepts now x.storage id m = t at ha hreply ⊢
  have hdestination : t.server.destination = dest := by
    cases ha <;> exact h.destination_eq
  have hopened : ∀ c, t.opened = some c → c.session.name = name ∧ Staged c ∧
      Intake dest file c t.storage ∧ c.session.delivered = 0 := by
    intro c hc
    cases ha with
    | repeats hr => cases hc
    | refuses hr code line text => cases hc
    | withdraws hr hcreate hv hk => cases hc
    | @opens hr create sink storage' hcreate hv hk =>
      obtain rfl := Option.some.inj hc
      -- The request is the uploader's own, so the session has its name and its length.
      rw [h.creates m hm, payloadAs_carrying] at hcreate
      obtain rfl := Except.ok.inj hcreate
      rw [h.destination_eq] at hk
      obtain ⟨hserves, hholds⟩ := Sink.openSink_holds hk
      refine ⟨rfl, ⟨fun _ _ => rfl, fun _ _ hl => by cases hl⟩, ?_, rfl⟩
      exact
        { sound := Session.sound_new id name (.ofNat file.length)
          declared := UInt64.toNat_ofNat_of_lt' hfile
          holds := fun _ => ⟨hserves, hholds⟩
          kept := fun ho => by cases ho }
  have hnone : ∀ c, x.session ≠ some c := by simp [hx]
  exact
    { source := h.source
      name_eq := h.name_eq
      destination_eq := hdestination
      creates := h.creates_append fun m' hp => by cases hreply _ _ hp
      responses := h.responses_append fun session m' hp => by cases hreply _ _ hp
      within := h.within
      session := by
        intro c hc
        obtain ⟨hname, hstaged, hintake, hzero⟩ := hopened c hc
        exact ⟨hname, hstaged, hintake, fun n _ => by rw [hzero]; exact Nat.zero_le n⟩
      verdicts := by
        intro session m' hmem
        rcases mem_sent.1 hmem with hmem | hmem
        · obtain ⟨c, -, hc, -⟩ := h.verdicts session m' hmem
          exact absurd hc (hnone c)
        · cases hreply _ _ hmem
      result := by
        intro o ho hsuccess
        obtain ⟨c, hc, -⟩ := h.result o ho hsuccess
        exact absurd hc (hnone c) }

/-- A response that was published carries the bytes that it says. -/
theorem Faithful.answers (h : Faithful number file dest name x) {c : Coordinator} {e : Event}
    (he : x.ReachesSession c e) {accepts : Channel → Bool} {now : ℕ} {r : ChunkResponse} {data : List UInt8}
    (ha : Answers c ⟨e, accepts, now, x.storage⟩ r data) :
    data = bytesAt file r.offset r.size ∧
      ∀ n, x.client.sentTo? = some n → r.offset.toNat + r.size.toNat ≤ n := by
  obtain ⟨m, rfl, hm⟩ := ha.event
  rcases he with hmem | hbad
  · obtain ⟨offset, size, rfl, hle, hsent⟩ := h.responses _ _ hmem
    rw [payloadAs_carrying] at hm
    obtain rfl := Except.ok.inj hm
    have hbytes := ha.bytes
    rw [ChunkResponse.bytes_ofBytes] at hbytes
    obtain rfl := Except.ok.inj hbytes
    have hsize : (ChunkResponse.ofBytes offset (bytesAt file offset size)).size = size := by
      show UInt64.ofNat (bytesAt file offset size).length = size
      rw [length_bytesAt hle, UInt64.ofNat_toNat]
    rw [hsize]
    exact ⟨rfl, hsent⟩
  · exact absurd ha.length (hbad r data hm ha.bytes)

/-- The session takes in nothing but the file, and tells no verdict but its own. -/
theorem Faithful.turn (h : Faithful number file dest name x) {c : Coordinator} (hx : x.session = some c)
    {e : Event} (he : x.ReachesSession c e) (accepts : Channel → Bool) (now : ℕ) :
    Faithful number file dest name (x.sessionTurn c accepts now e) := by
  obtain ⟨hname, hstaged, hintake, hle⟩ := h.session c hx
  let o : Occasion := ⟨e, accepts, now, x.storage⟩
  have hpublish : ∀ channel m, .publish channel m ∈ (c.take o).actions →
      (∃ session, channel = .request session) ∨ ∃ success, channel = .done c.session.id ∧
        m = .carrying c.session.id .done (Done.mk success) ∧
        (c.take o).coordinator.session.outcome? = some (.ofBool success) :=
    fun channel m hm => publish_of_take hstaged hm
  have hsame := sameFile_take c o
  have hdelivered : ∀ n, x.client.sentTo? = some n →
      (c.take o).coordinator.session.delivered.toNat ≤ n := by
    intro n hn
    rcases delivered_take c o with heq | ⟨r, data, ha, heq⟩
    · rw [heq]; exact hle n hn
    · -- What is counted now ends where the range ends, and the response with it was sent.
      have hrange := (hintake.sound.range_of_outstanding _ ha.outstanding).1
      have hsum := (hintake.sound.toNat_advanced ha.outstanding).1
      have hstop := (h.answers he ha).2 n hn
      simp only at hrange
      rw [heq, hsum, ← hrange]
      exact hstop
  exact
    { source := h.source
      name_eq := h.name_eq
      destination_eq := h.destination_eq
      creates := h.creates_append fun m hp => by
        rcases hpublish _ _ hp with ⟨session, hc⟩ | ⟨success, hc, -⟩ <;> cases hc
      responses := h.responses_append fun session m hp => by
        rcases hpublish _ _ hp with ⟨session, hc⟩ | ⟨success, hc, -⟩ <;> cases hc
      within := h.within
      session := by
        intro c' hc'
        obtain rfl : (c.take o).coordinator = c' := Option.some.inj hc'
        exact ⟨hsame.name_eq.trans hname, hstaged.take o,
          hintake.take hstaged fun r data ha => (h.answers he ha).1, hdelivered⟩
      verdicts := by
        intro session m hmem
        rcases mem_sent.1 hmem with hmem | hmem
        · obtain ⟨c', success, hc', rfl, houtcome⟩ := h.verdicts session m hmem
          obtain rfl : c = c' := Option.some.inj (hx.symm.trans hc')
          exact ⟨_, success, rfl, by rw [hsame.id_eq], hstaged.outcome_take houtcome o⟩
        · rcases hpublish _ _ hmem with ⟨session, hc⟩ | ⟨success, -, rfl, houtcome⟩
          · cases hc
          · exact ⟨_, success, rfl, by rw [hsame.id_eq], houtcome⟩
      result := by
        intro outcome ho hsuccess
        obtain ⟨c', hc', houtcome⟩ := h.result outcome ho hsuccess
        obtain rfl : c = c' := Option.some.inj (hx.symm.trans hc')
        exact ⟨_, rfl, hstaged.outcome_take houtcome o⟩ }

/-- Other sessions change nothing that is kept for this one. -/
theorem Faithful.others (h : Faithful number file dest name x) {s : Storage} (hs : x.Undisturbed s) :
    Faithful number file dest name { x with storage := s } := by
  obtain ⟨⟨reject, refuseFrom, hdest⟩, hcompleted⟩ := hs
  rw [h.destination_eq] at hdest
  exact
    { source := h.source
      name_eq := h.name_eq
      destination_eq := h.destination_eq
      creates := h.creates
      responses := h.responses
      within := h.within
      session := by
        intro c hc
        obtain ⟨hname, hstaged, hintake, hle⟩ := h.session c hc
        refine ⟨hname, hstaged, ?_, hle⟩
        exact
          { sound := hintake.sound
            declared := hintake.declared
            holds := by
              intro hu
              obtain ⟨hserves, hholds⟩ := hintake.holds hu
              refine ⟨hserves, ?_⟩
              cases hk : c.sink with
              | memory m => rw [hk] at hholds; exact hholds
              | file f =>
                -- A file sink belongs to a directory, but others disturb only what is in memory.
                rw [hk] at hserves
                obtain ⟨base, onlyKnown, hdest', -⟩ := hserves
                rw [hdest] at hdest'
                cases hdest'
            kept := by
              intro ho
              obtain ⟨hkept, hfull⟩ := hintake.kept ho
              rw [hdest] at hkept
              refine ⟨?_, hfull⟩
              rw [hdest]
              exact (hcompleted c hc).trans hkept }
      verdicts := h.verdicts
      result := h.result }

theorem Faithful.step (h : Faithful number file dest name x) (hfile : file.length < UInt64.size)
    (hs : Step number file x y) : Faithful number file dest name y := by
  cases hs with
  | client e he accepts now hd => exact h.client hfile he accepts now hd
  | create hx hm accepts now id => exact h.create hfile hx hm accepts now id
  | session hx e he accepts now => exact h.turn hx he accepts now
  | others hs => exact h.others hs

theorem faithful_of_reachable {x₀ : Exchange} (h : Faithful number file dest name x₀)
    (hfile : file.length < UInt64.size) (hx : Reachable number file x₀ x) :
    Faithful number file dest name x := by
  induction hx with
  | start => exact h
  | step _ hs ih => exact ih.step hfile hs

/-- **A file arrives whole or not at all.** Whatever the transport does in a run, once the verdict
on the session is good, exactly the bytes of the file are kept for it, and an upload that is told
so has counted exactly these bytes. -/
theorem arrives_whole {client : Uploader} {server : Server} {storage : Storage}
    (hc : client.stage = .waiting) (hs : client.source = ⟨.file number, .ofNat file.length⟩)
    (hfile : file.length < UInt64.size)
    (hx : Reachable number file (fresh client server storage) x) :
    (∀ c, x.session = some c → c.session.outcome? = some .success →
      server.destination.kept? c.session.id client.name x.storage = some file) ∧
    ∀ o, x.client.result? = some (.ok o) → o.success = true →
      o.bytesSent.toNat = file.length := by
  have h := faithful_of_reachable (faithful_fresh hc hs) hfile hx
  constructor
  · intro c hsession houtcome
    obtain ⟨hname, -, hintake, -⟩ := h.session c hsession
    have hkept := (hintake.kept houtcome).1
    rw [hname] at hkept
    exact hkept
  · intro o ho hsuccess
    obtain ⟨c, hsession, houtcome⟩ := h.result o ho hsuccess
    obtain ⟨-, -, hintake, hle⟩ := h.session c hsession
    have hsent := Uploader.sentTo?_of_result ho
    have hfull := (hintake.kept houtcome).2
    have hleast := hle _ hsent
    have hmost := h.within _ hsent
    omega

/-! ### A run in which a file of one byte arrives -/

namespace OneByte

/-- The file. -/
def content : List UInt8 := [7]

/-- The disk of the uploader. -/
def disk : Disk := { contents := ⟨[(0, content)]⟩ }

/-- The uploader before it begins. -/
def uploader : Uploader where
  correlation := "k"
  name := "f"
  source := ⟨.file 0, .ofNat content.length⟩

/-- A bus that takes everything. -/
def takesAll : Channel → Bool := fun _ => true

/-- The coordinator when the session is open. -/
def coordinator : Coordinator :=
  .new {} (.new "s" "f" 1) (.memory { session := "s", size := 1 }) 0

/-- The coordinator when it has asked for the byte. -/
def asking : Coordinator :=
  { coordinator with session := coordinator.session.awaiting ⟨0, 1⟩
                     stage := .pulling 30000 }

/-- The response with the byte. -/
def response : Message :=
  .carrying "s" .chunkResponse (ChunkResponse.ofBytes 0 (bytesAt content 0 1))

/-- The run up to the session. -/
def opened : Exchange :=
  ((fresh uploader {} {}).clientTurn takesAll 0 disk .begin).createTurn takesAll 0 "s"
    (.carrying "k" .createSession (CreateSession.mk "f" 1))

/-- The run up to the request for the byte. -/
def requested : Exchange :=
  (opened.clientTurn takesAll 0 disk
    (.reply (.carrying "k" .sessionCreated (SessionCreated.mk "s")))).sessionTurn coordinator takesAll
    0 (.start (.signal "s" .start))

/-- The run up to the verdict. -/
def concluded : Exchange :=
  (requested.clientTurn takesAll 0 disk
    (.request (.carrying "s" .chunkRequest (ChunkRequest.mk 0 1)))).sessionTurn asking takesAll 0
    (.response response)

/-- The whole run. -/
def told : Exchange :=
  concluded.clientTurn takesAll 0 disk (.done (.carrying "s" .done (Done.mk true)))

/-- The coordinator when the byte has come. -/
def complete : Coordinator where
  policy := {}
  session := asking.session.advancedBy 1
  sink := .memory (MemorySink.mk "s" 1 (Buffer.empty.append content) false none)
  stage := asking.stage

theorem take_response : asking.take ⟨.response response, takesAll, 0, {}⟩
    = complete.progress takesAll 0 {} [.sink (.accept 0 content)] := by
  show asking.onResponse takesAll 0 {} response = _
  unfold onResponse response
  rw [payloadAs_carrying]
  dsimp only
  rw [ChunkResponse.bytes_ofBytes]
  rfl

theorem concluded_eq : concluded = { requested with
    client := (requested.clientTurn takesAll 0 disk
      (.request (.carrying "s" .chunkRequest (ChunkRequest.mk 0 1)))).client
    session := some (complete.progress takesAll 0 {} [.sink (.accept 0 content)]).coordinator
    storage := (complete.progress takesAll 0 {} [.sink (.accept 0 content)]).storage
    sent := requested.sent ++ [(.response "s", response)] ++
      published (complete.progress takesAll 0 {} [.sink (.accept 0 content)]).actions } := by
  rw [← take_response]
  rfl

theorem reachable_told : Reachable 0 content (fresh uploader {} {}) told := by
  have hopened : Reachable 0 content (fresh uploader {} {}) opened := by
    refine .step (.step .start (.client .begin trivial takesAll 0 (d := disk) rfl))
      (.create rfl ?_ takesAll 0 "s")
    exact List.mem_singleton.2 rfl
  have hrequested : Reachable 0 content (fresh uploader {} {}) requested := by
    refine .step (.step hopened (.client (.reply _) trivial takesAll 0 (d := disk) rfl))
      (.session ?_ (.start _) trivial takesAll 0)
    rfl
  have hconcluded : Reachable 0 content (fresh uploader {} {}) concluded := by
    refine .step (.step hrequested (.client (.request _) trivial takesAll 0 (d := disk) rfl))
      (.session ?_ (.response _) (.inl ?_) takesAll 0)
    · rfl
    · exact List.mem_of_getElem? (i := 4) rfl
  refine .step hconcluded (.client (.done _) ?_ takesAll 0 (d := disk) rfl)
  intro t ht
  rw [concluded_eq] at ht ⊢
  obtain rfl : (⟨"s", 1, false, 60000, 0⟩ : Transfer) = t := UploadStage.transferring.inj ht
  exact List.mem_of_getElem? (i := 5) rfl

end OneByte

/-- The byte arrives, and it is counted. -/
theorem oneByte_arrives :
    Reachable 0 [7] (fresh OneByte.uploader {} {}) OneByte.told ∧
    (∃ c, OneByte.told.session = some c ∧ c.session.outcome? = some .success ∧
      (Destination.memory false none).kept? c.session.id "f" OneByte.told.storage = some [7]) ∧
    ∃ o, OneByte.told.client.result? = some (.ok o) ∧ o.success = true ∧ o.bytesSent.toNat = 1 := by
  have hx := OneByte.reachable_told
  obtain ⟨hkept, hcounted⟩ := arrives_whole (by rfl) (by rfl) (by decide) hx
  have hsession : OneByte.told.session = some (OneByte.complete.progress OneByte.takesAll 0 {}
      [.sink (.accept 0 OneByte.content)]).coordinator := by
    show OneByte.concluded.session = _
    rw [OneByte.concluded_eq]
  have hresult : OneByte.told.client.result? = some (.ok ⟨"s", true, 1⟩) := by
    unfold OneByte.told
    rw [OneByte.concluded_eq]
    rfl
  exact ⟨hx, ⟨_, hsession, rfl, hkept _ hsession rfl⟩, _, hresult, rfl, hcounted _ hresult rfl⟩

end PullIngest.Exchange
