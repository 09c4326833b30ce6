import Mathlib.Data.List.Perm.Basic
import PullIngest.Proofs.Coordinator.Agreement
import PullIngest.Proofs.Coordinator.Intake

/-!
# Redelivery changes nothing

A start may come again after the first one, and a response may come again after it has moved the
session on, any number of times and at any later time. A coordinator then does nothing, or it
repeats its verdict to the start.

* `Session.Spent`: a range that has arrived already. No response to it is an answer any more
  (`acceptPayload_of_spent`);
* `Begun`: the session has been started, or it is past that (`begun_after`);
* `Redelivered`, `take_redelivered`: the messages that come again, and the turns on them;
* `Redelivers`: a run with such messages added to it;
* `redelivery_changes_nothing`: what the two runs have in common.
-/

namespace PullIngest

/-! ### Ranges that have arrived -/

namespace Session

variable {s : Session} {offset size : UInt64}

/-- The range is not empty and lies before the first byte that is missing. -/
def Spent (s : Session) (offset size : UInt64) : Prop :=
  0 < size.toNat ∧ offset.toNat + size.toNat ≤ s.delivered.toNat

/-- A range that has arrived lies in the file. -/
theorem Spent.inBounds (h : s.Spent offset size) (hs : s.Sound) : s.inBounds offset size = true := by
  obtain ⟨hpos, hle⟩ := h
  have hdelivered := UInt64.le_iff_toNat_le.1 hs.delivered_le
  have hmax := s.declaredSize.toNat_lt
  have hlt : offset.toNat + size.toNat < UInt64.size := by
    show _ < 2 ^ 64
    omega
  have hadd : (offset + size).toNat = offset.toNat + size.toNat := by
    rw [UInt64.toNat_add, Nat.mod_eq_of_lt hlt]
  unfold Session.inBounds
  simp only [Bool.and_eq_true, decide_eq_true_eq]
  refine ⟨⟨hlt, ?_⟩, ?_⟩
  · rw [UInt64.lt_iff_toNat_lt]
    omega
  · rw [UInt64.le_iff_toNat_le, hadd]
    omega

/-- A range that has arrived is not outstanding: that one begins where the last one ended. -/
theorem Spent.not_outstanding (h : s.Spent offset size) (hs : s.Sound) :
    s.outstanding ≠ some ⟨offset, size⟩ := by
  intro ho
  obtain ⟨hoffset, -, -⟩ := hs.range_of_outstanding _ ho
  obtain ⟨hpos, hle⟩ := h
  dsimp only at hoffset
  rw [← hoffset] at hle
  omega

/-- A response to a range that has arrived does nothing, and it is no violation. -/
theorem acceptPayload_of_spent (h : s.Spent offset size) (hs : s.Sound) (held : ℕ) :
    s.acceptPayload offset size held = (.ok .stale, s) := by
  unfold acceptPayload
  by_cases hd : s.phase.isDone = true
  · rw [if_pos hd]
  · rw [if_neg hd, if_neg (by simp [h.inBounds hs]), if_pos (h.not_outstanding hs)]

theorem Spent.mono {s' : Session} (h : s.Spent offset size)
    (hle : s.delivered.toNat ≤ s'.delivered.toNat) : s'.Spent offset size :=
  ⟨h.1, Nat.le_trans h.2 hle⟩

end Session

namespace Coordinator

open Action

variable {c c' : Coordinator} {done : List Action} {x y : Occasion} {xs ys : List Occasion}
  {m : Message} {n : ℕ}

/-! ### What has been delivered stays delivered -/

theorem Delivers.delivered_le_take (h : Delivers c done) (x : Occasion) :
    c.session.delivered.toNat ≤ (c.take x).coordinator.session.delivered.toNat := by
  rcases delivered_take c x with e | ⟨r, data, ha, e⟩
  · exact Nat.le_of_eq (congrArg UInt64.toNat e.symm)
  · have hadd := (h.sound.toNat_advanced ha.outstanding).1
    rw [e]
    omega

theorem Delivers.delivered_le_after (h : Delivers c done) (xs : List Occasion) :
    c.session.delivered.toNat ≤ (c.after xs).session.delivered.toNat := by
  induction xs generalizing c done with
  | nil => exact Nat.le_refl _
  | cons x xs ih => exact Nat.le_trans (h.delivered_le_take x) (ih (h.take x))

theorem Delivers.after (h : Delivers c done) (xs : List Occasion) :
    Delivers (c.after xs) (done ++ c.deeds xs) :=
  run_induction (motive := fun c' as => Delivers c' (done ++ as))
    (fun c' as x h => by rw [← List.append_assoc]; exact h.take x) (by simpa using h) xs

/-- The message is a response that moves the session on. -/
def Advances (c : Coordinator) (m : Message) : Prop :=
  (∃ deadline, c.stage = .pulling deadline) ∧
    ∃ (r : ChunkResponse) (data : List UInt8) (delivered : UInt64) (complete : Bool),
      m.payloadAs ChunkResponse .chunkResponse = .ok r ∧ r.bytes = .ok data ∧
      (c.session.acceptPayload r.offset r.size data.length).1 = .ok (.advanced delivered complete)

/-- A response that moves the session on leaves its range spent. -/
theorem Advances.spent (h : c.Advances m) (hd : Delivers c done) (hx : x.event = .response m) :
    ∃ (r : ChunkResponse) (data : List UInt8),
      m.payloadAs ChunkResponse .chunkResponse = .ok r ∧ r.bytes = .ok data ∧
      (c.take x).coordinator.session.Spent r.offset r.size := by
  obtain ⟨⟨deadline, hs⟩, r, data, delivered, complete, hm, hr, hadv⟩ := h
  refine ⟨r, data, hm, hr, ?_⟩
  rcases c.session.acceptPayload_cases r.offset r.size data.length with
    ⟨e, h⟩ | h | ⟨-, ho, -, _, h⟩
  · rw [h] at hadv
    cases hadv
  · rw [h] at hadv
    cases hadv
  · -- The bytes are counted whether or not the sink takes them.
    have hcount : (c.take x).coordinator.session.delivered = c.session.delivered + r.size := by
      unfold take step
      rw [hs, hx]
      dsimp only
      unfold onResponse
      rw [hm]
      dsimp only
      rw [hr]
      dsimp only
      rw [h]
      dsimp only
      split
      · exact (abort_concludes _ x.accepts x.now x.storage _ _).delivered_eq
      · exact (continues_requestNext _ x.accepts x.now _ _ (.inr rfl)).delivered_eq
    obtain ⟨hoffset, hpos, -⟩ := hd.sound.range_of_outstanding _ ho
    have hadd := (hd.sound.toNat_advanced ho).1
    dsimp only at hoffset hpos
    refine ⟨UInt64.lt_iff_toNat_lt.1 hpos, ?_⟩
    exact Nat.le_of_eq (by rw [hcount, hadd, hoffset])

/-! ### Sessions that have been started -/

/-- The first start has come, or it is too late for it. -/
def Begun (c : Coordinator) : Prop :=
  ∀ deadline, c.stage = .pulling deadline → c.session.phase ≠ .created

theorem Concludes.isDone {before : List Action} {call : SinkCall} {success : Bool} {t : Turn}
    (h : Concludes c before call success t) : t.coordinator.session.phase.isDone = true := by
  rw [h.session_eq]
  rcases c.session.finish_cases success with ⟨hd, e⟩ | ⟨-, e⟩
  · rw [e, hd]
  · rw [e]
    rfl

theorem ne_created_of_isDone {p : Phase} (h : p.isDone = true) : p ≠ .created := by
  rintro rfl
  cases h

theorem Continues.ne_created {accepts : Channel → Bool} {now : ℕ} {storage : Storage}
    {actions : List Action} {t : Turn} (h : Continues c accepts now storage actions t) :
    t.coordinator.session.phase ≠ .created := by
  cases h with
  | asks hr hc => simp [Session.awaiting]
  | unheard hr hc why =>
    exact ne_created_of_isDone (abort_concludes _ accepts now storage _ why).isDone
  | completes hr => exact ne_created_of_isDone (finalize_concludes c accepts now storage _).isDone
  | fails why => exact ne_created_of_isDone (abort_concludes c accepts now storage _ why).isDone

theorem Begun.take (h : c.Begun) (x : Occasion) : (c.take x).coordinator.Begun := by
  intro deadline' hd
  cases hs : c.stage with
  | pulling deadline =>
    have hpulls := pulls_take hs x
    generalize c.take x = t at hpulls hd ⊢
    cases hpulls with
    | waits violations lines => exact h deadline hs
    | fails violations why lines =>
      exact ne_created_of_isDone (abort_concludes _ x.accepts x.now x.storage _ why).isDone
    | starts hp => exact (continues_requestNext _ x.accepts x.now _ _ (.inl rfl)).ne_created
    | refuses ha why =>
      exact ne_created_of_isDone (abort_concludes _ x.accepts x.now x.storage _ why).isDone
    | takes ha hk => exact (continues_requestNext _ x.accepts x.now _ _ (.inr rfl)).ne_created
  | lingering success expiry =>
    -- A coordinator that has given its verdict does not pull again.
    rw [(lingers_take hs x).stage_eq, hs] at hd
    split_ifs at hd
  | exited =>
    rw [take_exited hs, hs] at hd
    cases hd

theorem begun_of_start (hx : x.event.isStart = true) : (c.take x).coordinator.Begun := by
  intro deadline' hd
  cases hs : c.stage with
  | pulling deadline =>
    cases he : x.event with
    | start m =>
      unfold Coordinator.take step
      rw [hs, he]
      dsimp only
      unfold onStart
      rcases c.session.start_cases with ⟨-, e⟩ | ⟨hp, e⟩
      · rw [e]
        exact (continues_requestNext _ x.accepts x.now _ _ (.inl rfl)).ne_created
      · rw [e]
        exact hp
    | _ =>
      rw [he] at hx
      cases hx
  | lingering success expiry =>
    rw [(lingers_take hs x).stage_eq, hs] at hd
    split_ifs at hd
  | exited =>
    rw [take_exited hs, hs] at hd
    cases hd

theorem Begun.after (h : c.Begun) (xs : List Occasion) : (c.after xs).Begun := by
  induction xs generalizing c with
  | nil => exact h
  | cons x xs ih => exact ih (h.take x)

/-- Behind a run in which a start came, the session has been started or it is too late for it. -/
theorem begun_after (h : ∃ x ∈ xs, x.event.isStart = true) : (c.after xs).Begun := by
  obtain ⟨x, hx, hstart⟩ := h
  obtain ⟨ws, zs, rfl⟩ := List.append_of_mem hx
  rw [after_append, after_cons]
  exact (begun_of_start hstart).after zs

/-! ### Messages that come again -/

/-- Events that repeat something which came in a run. -/
inductive Redelivered (c : Coordinator) (xs : List Occasion) : Event → Prop
  /-- A start after the first one. -/
  | start (m : Message) (h : ∃ x ∈ xs, x.event.isStart = true) : Redelivered c xs (.start m)
  /-- A response that has moved the session on. -/
  | response {ys zs : List Occasion} {x : Occasion} {m : Message} (h : xs = ys ++ x :: zs)
      (hx : x.event = .response m) (ha : (c.after ys).Advances m) :
      Redelivered c xs (.response m)

/-- The verdict that is told again to an event. -/
def answers (c : Coordinator) (e : Event) : List Action :=
  match c.stage, e with
  | .lingering success _, .start _ => [tellsVerdict c.session.id success]
  | _, _ => []

theorem answers_cases (c : Coordinator) (e : Event) :
    c.answers e = [] ∨ ∃ success expiry, c.stage = .lingering success expiry ∧
      c.answers e = [tellsVerdict c.session.id success] := by
  unfold answers
  cases hs : c.stage with
  | lingering success expiry =>
    cases e with
    | start m => exact .inr ⟨success, expiry, rfl, rfl⟩
    | _ => exact .inl rfl
  | _ => exact .inl rfl

/-- A turn on a message that comes again: nothing moves, and at most the verdict is told again. -/
structure Unmoved (c : Coordinator) (x : Occasion) : Prop where
  coordinator_eq : (c.take x).coordinator = c
  storage_eq : (c.take x).storage = x.storage
  outward_eq : outward (c.take x).actions = c.answers x.event

/-- After the first start, another one does nothing but ask for the verdict. -/
theorem Begun.unmoved (h : c.Begun) (hx : x.event = .start m) : Unmoved c x := by
  cases hs : c.stage with
  | pulling deadline =>
    have htake : c.take x = ⟨c, x.storage, []⟩ := by
      unfold Coordinator.take step
      rw [hs, hx]
      dsimp only
      unfold onStart
      rcases c.session.start_cases with ⟨hp, -⟩ | ⟨-, e⟩
      · exact absurd hp (h deadline hs)
      · rw [e]
    exact ⟨by rw [htake], by rw [htake], by rw [htake]; simp [answers, hs]⟩
  | lingering success expiry =>
    have htake : c.take x = ⟨c, x.storage, c.publishDone x.accepts success⟩ := by
      unfold Coordinator.take step
      rw [hs, hx]
    exact ⟨by rw [htake], by rw [htake], by rw [htake]; simp [answers, hs, hx]⟩
  | exited =>
    have htake := take_exited hs x
    exact ⟨by rw [htake], by rw [htake], by rw [htake]; simp [answers, hs]⟩

/-- A response to a range that has arrived does nothing at all. -/
theorem unmoved_of_spent (hs : c.session.Sound) (hx : x.event = .response m) {r : ChunkResponse}
    {data : List UInt8} (hm : m.payloadAs ChunkResponse .chunkResponse = .ok r)
    (hr : r.bytes = .ok data) (h : c.session.Spent r.offset r.size) : Unmoved c x := by
  have htake : c.take x = ⟨c, x.storage, []⟩ := by
    unfold Coordinator.take step
    rw [hx]
    cases c.stage with
    | pulling deadline =>
      dsimp only
      unfold onResponse
      rw [hm]
      dsimp only
      rw [hr]
      dsimp only
      rw [Session.acceptPayload_of_spent h hs]
    | lingering success expiry => rfl
    | exited => rfl
  have hanswers : c.answers x.event = [] := by
    rw [hx]
    unfold answers
    cases c.stage <;> rfl
  exact ⟨by rw [htake], by rw [htake], by rw [htake, hanswers]; rfl⟩

/-- What comes again moves nothing. -/
theorem Redelivered.unmoved {e : Event} (h : Redelivered c xs e) (hd : Delivers c done)
    (hy : y.event = e) : Unmoved (c.after xs) y := by
  cases h with
  | start m h => exact (begun_after h).unmoved hy
  | @response ys zs x m hxs hx ha =>
    subst hxs
    have hbefore := hd.after ys
    have hbehind := hbefore.take x
    obtain ⟨r, data, hm, hr, hspent⟩ := ha.spent hbefore hx
    refine unmoved_of_spent (hd.after _).sound hy hm hr ?_
    rw [after_append, after_cons]
    exact hspent.mono (hbehind.delivered_le_after zs)

/-! ### Runs with messages that come again -/

/-- The run `ys` is the run `xs` with messages in it that come again, and `n` times the verdict was
told again to one of them. Apart from the event, the time, the storage and whether a request is
taken, the two runs need not meet the same. -/
inductive Redelivers (c : Coordinator) : List Occasion → List Occasion → ℕ → Prop
  | start : Redelivers c [] [] 0
  | same {xs ys : List Occasion} {n : ℕ} {x y : Occasion} (h : Redelivers c xs ys n)
      (ha : Agree Eq c.session.id x y) : Redelivers c (xs ++ [x]) (ys ++ [y]) n
  | again {xs ys : List Occasion} {n : ℕ} {y : Occasion} (h : Redelivers c xs ys n)
      (hy : Redelivered c xs y.event) :
      Redelivers c xs (ys ++ [y]) (n + ((c.after xs).answers y.event).length)

/-- What a run has in common with the same run with messages in it that come again. -/
structure SameCourse (c : Coordinator) (xs ys : List Occasion) (n : ℕ) : Prop where
  after_eq : c.after ys = c.after xs
  requests_eq : requests (c.deeds ys) = requests (c.deeds xs)
  handed_eq : handed (c.deeds ys) = handed (c.deeds xs)
  told : ∃ success, (0 < n → (c.after xs).session.outcome? = some (.ofBool success)) ∧
    (outward (c.deeds xs)).Sublist (outward (c.deeds ys)) ∧
    (outward (c.deeds ys)).Perm
      (outward (c.deeds xs) ++ List.replicate n (tellsVerdict c.session.id success))

theorem after_concat (c : Coordinator) (xs : List Occasion) (x : Occasion) :
    c.after (xs ++ [x]) = ((c.after xs).take x).coordinator := by
  rw [after_append, after_cons, after_nil]

theorem deeds_concat (c : Coordinator) (xs : List Occasion) (x : Occasion) :
    c.deeds (xs ++ [x]) = c.deeds xs ++ ((c.after xs).take x).actions := by
  rw [deeds_append, deeds_cons, deeds_nil, List.append_nil]

theorem Staged.after (h : Staged c) (xs : List Occasion) : Staged (c.after xs) :=
  run_induction (motive := fun c' _ => Staged c') (fun _ _ x h => h.take x) h xs

theorem outcome?_ofBool_inj {success success' : Bool}
    (h : some (Outcome.ofBool success) = some (Outcome.ofBool success')) : success = success' := by
  cases success <;> cases success' <;> first | rfl | cases h

theorem requests_congr {as bs : List Action} (h : outward as = outward bs) :
    requests as = requests bs := by
  rw [← requests_outward as, h, requests_outward]

theorem handed_congr {as bs : List Action} (h : outward as = outward bs) :
    handed as = handed bs := by
  rw [← handed_outward as, h, handed_outward]

/-- Turns on occasions that agree keep the course the same. -/
theorem SameCourse.same (h : SameCourse c xs ys n) (hs : Staged c)
    (ha : Agree Eq c.session.id x y) : SameCourse c (xs ++ [x]) (ys ++ [y]) n := by
  have ht : Alike (fun _ => True) Eq ((c.after xs).take x) ((c.after xs).take y) := by
    refine take_alike Sink.blind_eq trivial ?_
    rw [(sameFile_after c xs).id_eq]
    exact ha
  obtain ⟨hafter, hrequests, hhanded, success, houtcome, hsub, hperm⟩ := h
  constructor
  · rw [after_concat, after_concat, hafter, ht.coordinator_eq]
  · rw [deeds_concat, deeds_concat, requests_append, requests_append, hafter, hrequests,
      requests_congr ht.outward_eq]
  · rw [deeds_concat, deeds_concat, handed_append, handed_append, hafter, hhanded,
      handed_congr ht.outward_eq]
  · refine ⟨success, fun hn => ?_, ?_, ?_⟩
    · rw [after_concat]
      exact (hs.after xs).outcome_take (houtcome hn) x
    · rw [deeds_concat, deeds_concat, outward_append, outward_append, hafter, ht.outward_eq]
      exact hsub.append (List.Sublist.refl _)
    · rw [deeds_concat, deeds_concat, outward_append, outward_append, hafter, ht.outward_eq,
        List.append_assoc]
      -- The verdicts told again move behind what is done now.
      exact (hperm.append_right _).trans
        (by rw [List.append_assoc]; exact List.perm_append_comm.append_left _)

/-- A turn on a message that comes again adds at most the verdict that was given. -/
theorem SameCourse.again (h : SameCourse c xs ys n) (hs : Staged c) (hy : Unmoved (c.after xs) y) :
    SameCourse c xs (ys ++ [y]) (n + ((c.after xs).answers y.event).length) := by
  obtain ⟨hafter, hrequests, hhanded, success, houtcome, hsub, hperm⟩ := h
  have houtward := hy.outward_eq
  have hid := (sameFile_after c xs).id_eq
  -- A verdict that is told again is the one that was told before.
  obtain ⟨success', hgiven, hsame, htold⟩ : ∃ success',
      (0 < n + ((c.after xs).answers y.event).length →
        (c.after xs).session.outcome? = some (.ofBool success')) ∧
      (0 < n → success' = success) ∧
      (c.after xs).answers y.event = List.replicate ((c.after xs).answers y.event).length
        (tellsVerdict c.session.id success') := by
    rcases (c.after xs).answers_cases y.event with hnone | ⟨success', expiry, hstage, hone⟩
    · exact ⟨success, by simpa [hnone] using houtcome, fun _ => rfl, by rw [hnone]; rfl⟩
    · have hgiven := (hs.after xs).lingering success' expiry hstage
      refine ⟨success', fun _ => hgiven, fun hn => ?_, by rw [hone, hid]; rfl⟩
      exact outcome?_ofBool_inj (hgiven.symm.trans (houtcome hn))
  generalize ((c.after xs).answers y.event).length = k at hgiven htold ⊢
  rw [htold] at houtward
  constructor
  · rw [after_concat, hafter, hy.coordinator_eq]
  · rw [deeds_concat, requests_append, hafter, hrequests, ← requests_outward ((c.after xs).take y).actions,
      houtward]
    simp [requests, isRequest, tellsVerdict]
  · rw [deeds_concat, handed_append, hafter, hhanded, ← handed_outward ((c.after xs).take y).actions,
      houtward]
    simp [handed, tellsVerdict]
  · refine ⟨success', hgiven, ?_, ?_⟩
    · rw [deeds_concat, outward_append]
      exact hsub.trans (List.sublist_append_left _ _)
    · rw [deeds_concat, outward_append, hafter, houtward, List.replicate_add, ← List.append_assoc]
      refine List.Perm.append_right _ ?_
      by_cases hn : 0 < n
      · rw [hsame hn]
        exact hperm
      · obtain rfl : n = 0 := by omega
        exact hperm

theorem Redelivers.sameCourse (h : Redelivers c xs ys n) (hd : Delivers c []) (hs : Staged c) :
    SameCourse c xs ys n := by
  induction h with
  | start => exact ⟨rfl, rfl, rfl, true, by simp, .refl _, by simp⟩
  | same h ha ih => exact ih.same hs ha
  | again h hy ih => exact ih.again hs (hy.unmoved hd rfl)

/-- **Redelivery changes nothing.** Into any run of a new session, starts may be put after the first
one, and responses after they have moved the session on. The coordinator then ends in the same
state, with the same count of violations, the same verdict and the same deadline. It asks for the
same ranges and hands the same chunks to the sink. What it does is the same apart from telling the
same verdict more often, once for each start that was put in while the verdict is repeated. A
message that is put in leaves the storage as it is. -/
theorem redelivery_changes_nothing (policy : Policy) (id name : String) (size : UInt64)
    (sink : Sink) (now : ℕ) {xs ys : List Occasion} {n : ℕ}
    (h : Redelivers (new policy (.new id name size) sink now) xs ys n) :
    let c := new policy (.new id name size) sink now
    c.after ys = c.after xs ∧ requests (c.deeds ys) = requests (c.deeds xs) ∧
      handed (c.deeds ys) = handed (c.deeds xs) ∧
      (∃ success, (0 < n → (c.after xs).session.outcome? = some (.ofBool success)) ∧
        (outward (c.deeds xs)).Sublist (outward (c.deeds ys)) ∧
        (outward (c.deeds ys)).Perm
          (outward (c.deeds xs) ++ List.replicate n (tellsVerdict id success))) ∧
      ∀ y, Redelivered c xs y.event → ((c.after ys).take y).storage = y.storage := by
  intro c
  have hd := delivers_new policy id name size sink now
  obtain ⟨hafter, hrequests, hhanded, htold⟩ :=
    h.sameCourse hd (staged_new policy id name size sink now)
  refine ⟨hafter, hrequests, hhanded, htold, fun y hy => ?_⟩
  rw [hafter]
  exact (hy.unmoved hd rfl).storage_eq

namespace Twice

/-- A session of one byte that nobody has started. -/
def fresh : Coordinator :=
  .new {} (.new "s" "f" 1) (.memory { session := "s", size := 1 }) 0

/-- The session when it has asked for its byte. -/
def asking : Coordinator :=
  { fresh with session := fresh.session.awaiting ⟨0, 1⟩, stage := .pulling 30000 }

/-- The response with the byte. -/
def response : Message := .carrying "s" .chunkResponse (ChunkResponse.ofBytes 0 [7])

/-- An event on a bus that takes everything, with an empty storage. -/
def occasion (e : Event) : Occasion := ⟨e, fun _ => true, 0, {}⟩

/-- The start. -/
def start : Occasion := occasion (.start (.signal "s" .start))

theorem response_payload :
    response.payloadAs ChunkResponse .chunkResponse = .ok (ChunkResponse.ofBytes 0 [7]) :=
  payloadAs_carrying ..

theorem asking_advances : asking.Advances response := by
  refine ⟨⟨30000, rfl⟩, ChunkResponse.ofBytes 0 [7], [7], 1, true, response_payload,
    ChunkResponse.bytes_ofBytes 0 [7], ?_⟩
  rfl

/-- The byte has come, and the verdict is in. -/
theorem after_response :
    (fresh.after [start, occasion (.response response)]).stage = .lingering true 5000 := by
  rw [after_cons, after_cons, after_nil]
  show (asking.onResponse (fun _ => true) 0 {} response).coordinator.stage = _
  unfold onResponse
  rw [response_payload]
  dsimp only
  rw [ChunkResponse.bytes_ofBytes]
  rfl

/-- A start comes again before the byte and after it, and the byte comes again. -/
theorem redelivers :
    Redelivers fresh [start, occasion (.response response)]
      [start, start, occasion (.response response), occasion (.response response), start] 1 := by
  have agrees : ∀ x : Occasion, Agree Eq fresh.session.id x x := fun x => ⟨rfl, rfl, rfl, rfl⟩
  have hstarted : Redelivers fresh [start] [start] 0 := .same .start (agrees _)
  have hagain : Redelivers fresh [start] [start, start] 0 :=
    hstarted.again (.start _ ⟨start, by simp, rfl⟩)
  have hbyte : Redelivers fresh [start, occasion (.response response)]
      [start, start, occasion (.response response)] 0 := hagain.same (agrees _)
  have hcame : Redelivered fresh [start, occasion (.response response)] (.response response) :=
    @Redelivered.response _ _ [start] [] _ _ rfl rfl asking_advances
  have htold : ((fresh.after [start, occasion (.response response)]).answers start.event).length
      = 1 := by
    unfold answers
    rw [after_response]
    rfl
  have hstale : Redelivers fresh [start, occasion (.response response)]
      [start, start, occasion (.response response), occasion (.response response)] 0 := by
    have h := hbyte.again (y := occasion (.response response)) hcame
    unfold answers at h
    rw [after_response] at h
    exact h
  have hlast := hstale.again (y := start) (.start _ ⟨start, by simp, rfl⟩)
  rw [htold] at hlast
  exact hlast

end Twice

/-- The verdict is told once more, to the start that came again behind it. -/
theorem oneByte_redelivered :
    Redelivers Twice.fresh [Twice.start, Twice.occasion (.response Twice.response)]
      [Twice.start, Twice.start, Twice.occasion (.response Twice.response),
        Twice.occasion (.response Twice.response), Twice.start] 1 ∧
    Twice.fresh.after [Twice.start, Twice.start, Twice.occasion (.response Twice.response),
        Twice.occasion (.response Twice.response), Twice.start] =
      Twice.fresh.after [Twice.start, Twice.occasion (.response Twice.response)] :=
  ⟨Twice.redelivers, (redelivery_changes_nothing {} "s" "f" 1 _ 0 Twice.redelivers).1⟩

end Coordinator

end PullIngest
