import Mathlib.Data.List.TakeWhile
import PullIngest.Proofs.Coordinator.Turn
import PullIngest.Proofs.Uploader.Step

/-!
# What an uploader answers

An uploader that has its session answers the requests for bytes, in any order and as often as they
come, until a range cannot be read. Whatever is published on the channel of its requests, what it
publishes itself is told by the requests that can be read and by what the file gives at their times.

* `Source.Handle.failure?`: why a range cannot be read (`failure?_eq_none_iff`);
* `Inquiry`, `replies`, `reach`: requests with what the file gives, and how they are answered;
* `Occasion`, `take`, `after`, `deeds`: turns and runs of an uploader that everybody hears;
* `Attends`: everything that a turn can do in a transfer (`attends_take`);
* `answers_faithfully`: what every run publishes, and how far the bytes reach that were sent.
-/

namespace PullIngest

namespace Source.Handle

variable {h : Handle} {limit offset size : UInt64}

/-- Why a range cannot be read now: it is not in the file, there is trouble with the file, or the
file has become too short. -/
def failure? (h : Handle) (limit offset size : UInt64) : Option TransferError :=
  if limit.toNat < offset.toNat + size.toNat then some (.range offset size limit)
  else if size = 0 then none
  else
    match h.trouble with
    | some e => some (.io e)
    | none =>
      if (bytesAt h.content offset size).length < size.toNat then some (.range offset size limit)
      else none

theorem length_bytesAt_le (file : List UInt8) (offset size : UInt64) :
    (bytesAt file offset size).length ≤ size.toNat := by
  rw [length_bytesAt_eq_min]
  exact Nat.min_le_left _ _

theorem bytesAt_zero (file : List UInt8) (offset : UInt64) : bytesAt file offset 0 = [] := rfl

/-- What can be read is in the file as it was and as it is. -/
theorem failure?_eq_none_iff : h.failure? limit offset size = none ↔
    offset.toNat + size.toNat ≤ limit.toNat ∧ (size = 0 ∨ h.trouble = none) ∧
      (bytesAt h.content offset size).length = size.toNat := by
  have hle := length_bytesAt_le h.content offset size
  unfold failure?
  by_cases hlimit : limit.toNat < offset.toNat + size.toNat
  · rw [if_pos hlimit]
    constructor
    · exact nofun
    · rintro ⟨hin, -⟩
      omega
  rw [if_neg hlimit]
  by_cases hsize : size = 0
  · subst hsize
    exact iff_of_true (if_pos rfl) ⟨Nat.not_lt.1 hlimit, .inl rfl, by rw [bytesAt_zero]; rfl⟩
  rw [if_neg hsize]
  cases h.trouble with
  | some e => simp [hsize]
  | none =>
    dsimp only
    split_ifs with hshort
    · constructor
      · exact nofun
      · rintro ⟨-, -, hlength⟩
        omega
    · exact iff_of_true rfl ⟨by omega, .inr rfl, by omega⟩

/-- Reading gives the bytes of the range or tells why it cannot. -/
theorem read_cases (h : Handle) (limit offset size : UInt64) :
    (h.failure? limit offset size = none ∧
        h.read limit offset size = (.ok (bytesAt h.content offset size), [])) ∨
      ∃ e log, h.failure? limit offset size = some e ∧
        h.read limit offset size = (.error e, log) := by
  unfold failure?
  rw [read_eq]
  by_cases hlimit : limit.toNat < offset.toNat + size.toNat
  · rw [if_pos hlimit, if_pos hlimit]
    exact .inr ⟨_, _, rfl, rfl⟩
  rw [if_neg hlimit, if_neg hlimit]
  by_cases hsize : size = 0
  · subst hsize
    exact .inl ⟨if_pos rfl, if_pos rfl⟩
  rw [if_neg hsize, if_neg hsize]
  cases h.trouble with
  | some e => exact .inr ⟨_, _, rfl, rfl⟩
  | none =>
    by_cases hshort : (bytesAt h.content offset size).length < size.toNat
    · exact .inr ⟨_, _, if_pos hshort, if_pos hshort⟩
    · exact .inl ⟨if_neg hshort, if_neg hshort⟩

end Source.Handle

/-! ### Requests and their answers -/

/-- A request for bytes, with what the file gives when it is taken. -/
structure Inquiry where
  request : ChunkRequest
  handle : Source.Handle

namespace Inquiry

variable {limit : UInt64} {q : Inquiry} {qs qs' : List Inquiry}

/-- Why the request cannot be answered. -/
def failure? (limit : UInt64) (q : Inquiry) : Option TransferError :=
  q.handle.failure? limit q.request.offset q.request.size

/-- The offset behind the last byte that is asked for. It may be beyond the file. -/
def stop (q : Inquiry) : ℕ := q.request.offset.toNat + q.request.size.toNat

/-- The answer with the bytes that the file has now. -/
def response (session : String) (q : Inquiry) : Channel × Message :=
  (.response session, .carrying session .chunkResponse
    (ChunkResponse.ofBytes q.request.offset
      (bytesAt q.handle.content q.request.offset q.request.size)))

/-- Giving up. -/
def refusal (session : String) (e : TransferError) : Channel × Message :=
  (.cancel session, .carrying session .cancel (Cancel.mk e.message))

/-- The requests before the first that cannot be answered. -/
def answered (limit : UInt64) (qs : List Inquiry) : List Inquiry :=
  qs.takeWhile fun q => (q.failure? limit).isNone

/-- Why the first request that cannot be answered cannot be. -/
def failed? (limit : UInt64) (qs : List Inquiry) : Option TransferError :=
  qs.findSome? (failure? limit)

/-- The answers to requests that come one after the other. -/
def replies (session : String) (limit : UInt64) (qs : List Inquiry) : List (Channel × Message) :=
  (answered limit qs).map (response session) ++ ((failed? limit qs).map (refusal session)).toList

/-- How far the bytes reach that are asked for. -/
def reach (qs : List Inquiry) : ℕ := qs.foldr (fun q n => max q.stop n) 0

theorem stop_le (h : q.failure? limit = none) : q.stop ≤ limit.toNat :=
  (Source.Handle.failure?_eq_none_iff.1 h).1

theorem failed?_cons_of_none (h : q.failure? limit = none) :
    failed? limit (q :: qs) = failed? limit qs := by
  simp [failed?, h]

theorem failed?_cons_of_some {e : TransferError} (h : q.failure? limit = some e) :
    failed? limit (q :: qs) = some e := by
  simp [failed?, h]

theorem answered_cons_of_none (h : q.failure? limit = none) :
    answered limit (q :: qs) = q :: answered limit qs := by
  simp [answered, h]

theorem answered_cons_of_some {e : TransferError} (h : q.failure? limit = some e) :
    answered limit (q :: qs) = [] := by
  simp [answered, h]

theorem replies_cons_of_none (session : String) (h : q.failure? limit = none) :
    replies session limit (q :: qs) = q.response session :: replies session limit qs := by
  unfold replies
  rw [answered_cons_of_none h, failed?_cons_of_none h]
  rfl

theorem replies_cons_of_some (session : String) {e : TransferError}
    (h : q.failure? limit = some e) :
    replies session limit (q :: qs) = [refusal session e] := by
  unfold replies
  rw [answered_cons_of_some h, failed?_cons_of_some h]
  rfl

theorem failure?_of_mem_answered (hq : q ∈ answered limit qs) : q.failure? limit = none := by
  unfold answered at hq
  have hnone := List.mem_takeWhile_imp hq
  exact Option.isNone_iff_eq_none.1 hnone

theorem reach_answered_le (limit : UInt64) (qs : List Inquiry) :
    reach (answered limit qs) ≤ limit.toNat := by
  induction qs with
  | nil => exact Nat.zero_le _
  | cons q qs ih =>
    cases h : q.failure? limit with
    | none =>
      rw [answered_cons_of_none h]
      exact Nat.max_le.2 ⟨stop_le h, ih⟩
    | some e =>
      rw [answered_cons_of_some h]
      exact Nat.zero_le _

theorem reach_answered_append_le (limit : UInt64) (qs qs' : List Inquiry) :
    reach (answered limit qs) ≤ reach (answered limit (qs ++ qs')) := by
  induction qs with
  | nil => exact Nat.zero_le _
  | cons q qs ih =>
    rw [List.cons_append]
    cases h : q.failure? limit with
    | none =>
      rw [answered_cons_of_none h, answered_cons_of_none h]
      exact Nat.max_le.2 ⟨Nat.le_max_left _ _, Nat.le_trans ih (Nat.le_max_right _ _)⟩
    | some e =>
      rw [answered_cons_of_some h]
      exact Nat.zero_le _

end Inquiry

namespace Uploader

open Action Inquiry

/-! ### Turns and runs -/

/-- An event with what the file gives and the time when the uploader takes it. -/
structure Occasion where
  event : UploadEvent
  handle : Source.Handle
  now : ℕ

namespace Occasion

/-- Whether the event ends a transfer. -/
def ends (x : Occasion) : Bool :=
  match x.event with
  | .done _ => true
  | .timer => true
  | _ => false

/-- The request that the event brings, if it brings one that can be read. -/
def inquiry? (x : Occasion) : Option Inquiry :=
  match x.event with
  | .request m =>
    match m.payloadAs ChunkRequest .chunkRequest with
    | .ok request => some ⟨request, x.handle⟩
    | .error _ => none
  | _ => none

end Occasion

/-- The requests that come before the end. -/
def heard (xs : List Occasion) : List Inquiry :=
  (xs.takeWhile fun x => !x.ends).filterMap Occasion.inquiry?

/-- One turn of an uploader, on a bus that takes everything. -/
def take (u : Uploader) (x : Occasion) : Uploader × List Action :=
  u.react (fun _ => true) x.now x.handle x.event

/-- The uploader behind a run. -/
def after (u : Uploader) (xs : List Occasion) : Uploader := xs.foldl (fun u x => (u.take x).1) u

/-- Everything that is done in a run, in order. -/
def deeds (u : Uploader) : List Occasion → List Action
  | [] => []
  | x :: xs => (u.take x).2 ++ (u.take x).1.deeds xs

variable {u : Uploader} {t : Transfer} {x : Occasion} {xs ys : List Occasion}

theorem after_cons (u : Uploader) (x : Occasion) (xs : List Occasion) :
    u.after (x :: xs) = (u.take x).1.after xs := rfl

theorem deeds_cons (u : Uploader) (x : Occasion) (xs : List Occasion) :
    u.deeds (x :: xs) = (u.take x).2 ++ (u.take x).1.deeds xs := rfl

theorem heard_cons_of_ends (h : x.ends = true) : heard (x :: xs) = [] := by
  simp [heard, h]

theorem heard_cons_of_none (h : x.ends = false) (hq : x.inquiry? = none) :
    heard (x :: xs) = heard xs := by
  simp [heard, h, hq]

theorem heard_cons_of_some {q : Inquiry} (hq : x.inquiry? = some q) :
    heard (x :: xs) = q :: heard xs := by
  have h : x.ends = false := by
    unfold Occasion.inquiry? at hq
    unfold Occasion.ends
    cases he : x.event with
    | request m => rfl
    | _ => simp [he] at hq
  simp [heard, h, hq]

theorem heard_append (xs ys : List Occasion) : ∃ qs, heard (xs ++ ys) = heard xs ++ qs := by
  induction xs with
  | nil => exact ⟨heard ys, rfl⟩
  | cons x xs ih =>
    obtain ⟨qs, ih⟩ := ih
    rw [List.cons_append]
    cases h : x.ends with
    | true => exact ⟨[], by rw [heard_cons_of_ends h, heard_cons_of_ends h]; rfl⟩
    | false =>
      refine ⟨qs, ?_⟩
      cases hq : x.inquiry? with
      | none => rw [heard_cons_of_none h hq, heard_cons_of_none h hq, ih]
      | some q => rw [heard_cons_of_some hq, heard_cons_of_some hq, ih, List.cons_append]

/-- An upload that has ended does nothing any more. -/
theorem deeds_finished {r : Except UploadError UploadOutcome} (hu : u.stage = .finished r)
    (xs : List Occasion) : u.deeds xs = [] ∧ u.after xs = u := by
  have htake (x : Occasion) : u.take x = (u, []) := by
    unfold take react
    rw [hu]
  induction xs with
  | nil => exact ⟨rfl, rfl⟩
  | cons x xs ih =>
    rw [deeds_cons, after_cons, htake]
    exact ih

/-! ### What a turn does -/

/-- Everything that a turn can do in a transfer. -/
inductive Attends (u : Uploader) (t : Transfer) (x : Occasion) : Uploader × List Action → Prop
  /-- There is nothing to answer, or it is too late for answers. -/
  | silent (he : x.ends = false) (hq : x.inquiry? = none ∨ t.cancelled = true)
      (deadline lastReport : ℕ) (lines : List String) :
      Attends u t x ({ u with stage := .transferring { t with deadline, lastReport } }, logs lines)
  | answers {q : Inquiry} (hq : x.inquiry? = some q) (hc : t.cancelled = false)
      (hf : q.failure? u.source.length = none) (deadline lastReport : ℕ) (lines : List String) :
      Attends u t x ({ u with stage := .transferring { t with
          deadline, lastReport
          bytesSent := max t.bytesSent (q.request.offset + q.request.size) } },
        .publish (q.response t.session).1 (q.response t.session).2 :: logs lines)
  | cancels {q : Inquiry} (hq : x.inquiry? = some q) (hc : t.cancelled = false) {e : TransferError}
      (hf : q.failure? u.source.length = some e) (deadline lastReport : ℕ)
      (before after : List String) :
      Attends u t x
        ({ u with stage := .transferring { t with deadline, lastReport, cancelled := true } },
          logs before ++ .publish (refusal t.session e).1 (refusal t.session e).2 :: logs after)
  | ends (he : x.ends = true) {r : Except UploadError UploadOutcome}
      (hr : ∀ o, r = .ok o → o.bytesSent = t.bytesSent) (lines : List String) :
      Attends u t x ({ u with stage := .finished r }, logs lines)

/-- An answer that the bus takes. -/
theorem answer_eq_publish (u : Uploader) (now : ℕ) (channel : Channel) (m : Message)
    (t : Transfer) (actions : List Action) :
    ∃ lastReport lines, u.answer (fun _ => true) now channel m t actions =
      ({ u with stage := .transferring { t with lastReport } },
        actions ++ .publish channel m :: logs lines) := by
  obtain ⟨lastReport, lines, hreport, -⟩ := u.report_eq now t
  refine ⟨lastReport, lines, ?_⟩
  unfold answer
  rw [hreport]
  simp [publish]

theorem attends_onRequest {m : Message} (hx : x.event = .request m) :
    Attends u t x (u.onRequest (fun _ => true) x.now x.handle t m) := by
  have he : x.ends = false := by simp [Occasion.ends, hx]
  unfold onRequest
  dsimp only
  cases hm : m.payloadAs ChunkRequest .chunkRequest with
  | error e =>
    have hq : x.inquiry? = none := by simp [Occasion.inquiry?, hx, hm]
    exact .silent he (.inl hq) _ t.lastReport ["WARN malformed chunk request: " ++ e.message]
  | ok request =>
    have hq : x.inquiry? = some ⟨request, x.handle⟩ := by simp [Occasion.inquiry?, hx, hm]
    dsimp only
    split_ifs with hc
    · exact .silent he (.inr hc) _ t.lastReport []
    · have hc : t.cancelled = false := Bool.eq_false_iff.2 hc
      rcases x.handle.read_cases u.source.length request.offset request.size with
        ⟨hf, hread⟩ | ⟨e, log, hf, hread⟩
      · rw [hread]
        dsimp only
        obtain ⟨lastReport, lines, ha⟩ := u.answer_eq_publish x.now (.response t.session)
          (.carrying t.session .chunkResponse (ChunkResponse.ofBytes request.offset
            (bytesAt x.handle.content request.offset request.size)))
          { t with deadline := x.now + u.patience.silence.millis
                   bytesSent := max t.bytesSent (request.offset + request.size) } (logs [])
        rw [ha]
        exact .answers hq hc hf _ lastReport lines
      · rw [hread]
        dsimp only
        -- The line about the failure is one more line before the cancel message.
        have hlogs : logs log ++ [.log ("ERROR cannot read requested range, cancelling: "
            ++ e.message)] = logs (log ++ ["ERROR cannot read requested range, cancelling: "
            ++ e.message]) := by simp [logs]
        rw [hlogs]
        obtain ⟨lastReport, lines, ha⟩ := u.answer_eq_publish x.now (.cancel t.session)
          (.carrying t.session .cancel (Cancel.mk e.message))
          { t with deadline := x.now + u.patience.silence.millis, cancelled := true }
          (logs (log ++ ["ERROR cannot read requested range, cancelling: " ++ e.message]))
        rw [ha]
        exact .cancels hq hc hf _ lastReport _ lines

/-- Everything that a turn can do in a transfer. -/
theorem attends_take (hu : u.stage = .transferring t) (x : Occasion) :
    Attends u t x (u.take x) := by
  have stays (he : x.ends = false) (hq : x.inquiry? = none) : Attends u t x (u, []) := by
    have hsame : u = { u with stage := .transferring { t with
        deadline := t.deadline, lastReport := t.lastReport } } := by rw [← hu]
    rw [hsame]
    exact .silent he (.inl hq) t.deadline t.lastReport []
  unfold take react
  rw [hu]
  cases hx : x.event with
  | begin => exact stays (by simp [Occasion.ends, hx]) (by simp [Occasion.inquiry?, hx])
  | reply m => exact stays (by simp [Occasion.ends, hx]) (by simp [Occasion.inquiry?, hx])
  | request m => exact attends_onRequest hx
  | done m =>
    have he : x.ends = true := by simp [Occasion.ends, hx]
    dsimp only
    unfold onDone
    cases m.payloadAs Done .done with
    | error e => exact .ends he (fun o ho => by cases ho) []
    | ok d => exact .ends he (fun o ho => by cases ho; rfl) []
  | timer =>
    have he : x.ends = true := by simp [Occasion.ends, hx]
    exact .ends he (fun o ho => by cases ho) ["WARN server went silent"]

/-! ### Runs of a transfer -/

/-- The requests that a transfer still has to answer. -/
def owed (cancelled : Bool) (xs : List Occasion) : List Inquiry :=
  if cancelled then [] else heard xs

theorem owed_true (xs : List Occasion) : owed true xs = [] := rfl

theorem owed_false (xs : List Occasion) : owed false xs = heard xs := rfl

/-- What a run makes of a transfer. -/
structure Served (u : Uploader) (t : Transfer) (xs : List Occasion) : Prop where
  published_eq : published (u.deeds xs) = replies t.session u.source.length (owed t.cancelled xs)
  sentTo : ∀ n, (u.after xs).sentTo? = some n →
    n = max t.bytesSent.toNat (reach (answered u.source.length (owed t.cancelled xs)))
  goes : (∀ x ∈ xs, x.ends = false) → ∃ t', (u.after xs).stage = .transferring t' ∧
    t'.cancelled = (t.cancelled || (failed? u.source.length (owed t.cancelled xs)).isSome)

theorem served_nil (hu : u.stage = .transferring t) : Served u t [] := by
  have howed : owed t.cancelled [] = [] := ite_self []
  refine ⟨by rw [howed]; rfl, fun n hn => ?_, fun _ => ⟨t, hu, ?_⟩⟩
  · have hn : some t.bytesSent.toNat = some n := by
      rw [← hn]
      simp [sentTo?, after, hu]
    rw [howed, ← Option.some.inj hn]
    exact (Nat.max_eq_left (Nat.zero_le _)).symm
  · rw [howed]
    simp [failed?]

/-- The end of a transfer. -/
theorem served_ends (he : x.ends = true) {r : Except UploadError UploadOutcome}
    (hr : ∀ o, r = .ok o → o.bytesSent = t.bytesSent) {lines : List String}
    (htake : u.take x = ({ u with stage := .finished r }, logs lines)) :
    Served u t (x :: xs) := by
  have howed : owed t.cancelled (x :: xs) = [] := by
    unfold owed
    rw [heard_cons_of_ends he, ite_self]
  obtain ⟨hdeeds, hafter⟩ := deeds_finished (u := { u with stage := .finished r }) rfl xs
  constructor
  · rw [howed, deeds_cons, htake, hdeeds, published_append, published_logs]
    rfl
  · intro n hn
    rw [after_cons, htake, hafter] at hn
    cases r with
    | error why => cases hn
    | ok o =>
      have hn : o.bytesSent.toNat = n := Option.some.inj hn
      rw [howed, ← hn, hr o rfl]
      exact (Nat.max_eq_left (Nat.zero_le _)).symm
  · intro hends
    rw [hends x List.mem_cons_self] at he
    cases he

/-- A turn that leaves a transfer, and a run behind it. -/
theorem Served.cons {t' : Transfer} {actions : List Action}
    (h : Served { u with stage := .transferring t' } t' xs)
    (htake : u.take x = ({ u with stage := .transferring t' }, actions))
    (hpublished : published actions ++ replies t'.session u.source.length (owed t'.cancelled xs)
      = replies t.session u.source.length (owed t.cancelled (x :: xs)))
    (hreach : max t'.bytesSent.toNat (reach (answered u.source.length (owed t'.cancelled xs)))
      = max t.bytesSent.toNat (reach (answered u.source.length (owed t.cancelled (x :: xs)))))
    (hcancelled : (t'.cancelled || (failed? u.source.length (owed t'.cancelled xs)).isSome)
      = (t.cancelled || (failed? u.source.length (owed t.cancelled (x :: xs))).isSome)) :
    Served u t (x :: xs) where
  published_eq := by
    rw [deeds_cons, htake, published_append, h.published_eq]
    exact hpublished
  sentTo n hn := by
    rw [after_cons, htake] at hn
    exact (h.sentTo n hn).trans hreach
  goes hends := by
    obtain ⟨t'', hstage, ht''⟩ := h.goes fun y hy => hends y (List.mem_cons_of_mem x hy)
    rw [after_cons, htake]
    exact ⟨t'', hstage, ht''.trans hcancelled⟩

/-- Behind any run of a transfer, what was owed has been answered. -/
theorem served (hu : u.stage = .transferring t) (xs : List Occasion) : Served u t xs := by
  -- The induction is on the run, for every transfer.
  induction xs generalizing u t with
  | nil => exact served_nil hu
  | cons x xs ih =>
    have hattends := attends_take hu x
    generalize htake : u.take x = r at hattends
    cases hattends with
    | ends he hr lines => exact served_ends he hr htake
    | silent he hq deadline lastReport lines =>
      have howed : owed t.cancelled (x :: xs) = owed t.cancelled xs := by
        unfold owed
        rcases hq with hq | hc
        · rw [heard_cons_of_none he hq]
        · rw [if_pos hc, if_pos hc]
      refine (ih rfl).cons htake ?_ ?_ ?_
      · rw [howed, published_logs]
        rfl
      · rw [howed]
      · rw [howed]
    | @answers q hq hc hf deadline lastReport lines =>
      have howed : owed t.cancelled (x :: xs) = q :: heard xs := by
        rw [hc, owed_false, heard_cons_of_some hq]
      refine (ih rfl).cons htake ?_ ?_ ?_
      · rw [howed, replies_cons_of_none _ hf, hc, owed_false]
        show (q.response t.session :: published (logs lines)) ++ _ = _
        rw [published_logs]
        rfl
      · -- The end of the range is in the file, so that it does not wrap around.
        have hstop := toNat_stop u.source.length.toNat_lt (stop_le hf)
        rw [howed, answered_cons_of_none hf, hc, owed_false, toNat_max, hstop]
        exact Nat.max_assoc ..
      · rw [howed, failed?_cons_of_none hf, hc, owed_false]
    | @cancels q hq hc e hf deadline lastReport before after =>
      have howed : owed t.cancelled (x :: xs) = q :: heard xs := by
        rw [hc, owed_false, heard_cons_of_some hq]
      refine (ih rfl).cons htake ?_ ?_ ?_
      · rw [howed, replies_cons_of_some _ hf, owed_true, published_append,
          published_logs]
        show (refusal t.session e :: published (logs after)) ++ _ = _
        rw [published_logs]
        rfl
      · rw [howed, answered_cons_of_some hf, owed_true]
        rfl
      · rw [howed, failed?_cons_of_some hf, hc]
        rfl

/-! ### Runs of an upload -/

/-- The answer to its create request gives an uploader a session. -/
theorem take_reply {deadline : ℕ} (hu : u.stage = .creating deadline) {m : Message}
    {created : SessionCreated} (hm : m.payloadAs SessionCreated .sessionCreated = .ok created)
    (h : Source.Handle) (now : ℕ) :
    u.take ⟨.reply m, h, now⟩ =
      ({ u with stage := .transferring { session := created.id
                                         deadline := now + u.patience.silence.millis
                                         lastReport := now } },
        [.unsubscribe (.reply u.correlation), .subscribe (.request created.id),
          .subscribe (.done created.id), .publish (.start created.id)
            (.signal created.id .start)]) := by
  unfold take react
  rw [hu]
  simp [onReply, hm, publish]

/-- **An uploader answers faithfully**, whatever comes as a request and whatever the file gives. It
publishes one response for every request before the first that cannot be answered, in order, then
one cancel message for that request if there is one, and nothing else. A response carries the whole
range as the file has it then. The bytes that were sent reach as far as the answered ranges do,
never beyond the file, and never back when the run goes on. -/
theorem answers_faithfully {deadline : ℕ} (hu : u.stage = .creating deadline) {m : Message}
    {created : SessionCreated} (hm : m.payloadAs SessionCreated .sessionCreated = .ok created)
    (h : Source.Handle) (now : ℕ) (xs : List Occasion) :
    let opened := u.take ⟨.reply m, h, now⟩
    let limit := u.source.length
    let good := answered limit (heard xs)
    published opened.2 = [(.start created.id, .signal created.id .start)] ∧
    published (opened.1.deeds xs) = good.map (response created.id)
      ++ ((failed? limit (heard xs)).map (refusal created.id)).toList ∧
    (∀ q ∈ good, q.stop ≤ limit.toNat ∧
      (bytesAt q.handle.content q.request.offset q.request.size).length = q.request.size.toNat) ∧
    (∀ n, (opened.1.after xs).sentTo? = some n → n = reach good ∧ n ≤ limit.toNat ∧
      ∀ ys n', (opened.1.after (xs ++ ys)).sentTo? = some n' → n ≤ n') ∧
    ((∀ x ∈ xs, x.ends = false) → ∃ t, (opened.1.after xs).stage = .transferring t ∧
      t.cancelled = (failed? limit (heard xs)).isSome) := by
  intro opened limit good
  have hopened : opened = _ := take_reply hu hm h now
  have hserved (zs : List Occasion) := served (congrArg (fun r => r.1.stage) hopened) zs
  have hlimit : opened.1.source.length = limit := by rw [hopened]
  have hreach (zs : List Occasion) (n : ℕ) (hn : (opened.1.after zs).sentTo? = some n) :
      n = reach (answered limit (heard zs)) := by
    have hmax := (hserved zs).sentTo n hn
    rw [hlimit, owed_false] at hmax
    rw [hmax]
    exact Nat.max_eq_right (Nat.zero_le _)
  refine ⟨?_, ?_, fun q hq => ?_, fun n hn => ⟨hreach xs n hn, ?_, fun ys n' hn' => ?_⟩,
    fun hends => ?_⟩
  · rw [hopened]
    rfl
  · have hpublished := (hserved xs).published_eq
    rw [hlimit, owed_false] at hpublished
    exact hpublished
  · obtain ⟨hstop, -, hlength⟩ := Source.Handle.failure?_eq_none_iff.1 (failure?_of_mem_answered hq)
    exact ⟨hstop, hlength⟩
  · rw [hreach xs n hn]
    exact reach_answered_le limit (heard xs)
  · obtain ⟨qs, hqs⟩ := heard_append xs ys
    rw [hreach xs n hn, hreach (xs ++ ys) n' hn', hqs]
    exact reach_answered_append_le limit (heard xs) qs
  · obtain ⟨t, ht, hcancelled⟩ := (hserved xs).goes hends
    rw [hlimit, owed_false] at hcancelled
    exact ⟨t, ht, hcancelled⟩

namespace Hostile

/-- An upload of three bytes that waits for its session. -/
def uploader : Uploader :=
  { correlation := "c", name := "f", source := ⟨.file 0, 3⟩, stage := .creating 10000 }

/-- The answer to its create request. -/
def reply : Message := .carrying "c" .sessionCreated (SessionCreated.mk "s")

/-- The three bytes. -/
def file : Source.Handle := { content := [7, 8, 9] }

/-- A request for bytes. -/
def asks (offset size : UInt64) : Occasion :=
  ⟨.request (.carrying "s" .chunkRequest (ChunkRequest.mk offset size)), file, 0⟩

/-- The last byte and then the first two, which are asked for twice; between them a message that is
no request, and behind them a range that ends where offsets wrap around. -/
def run : List Occasion :=
  [asks 2 1, asks 0 2, ⟨.request (.signal "s" .start), file, 0⟩, asks 0 2,
    asks 18446744073709551615 1, asks 0 2]

theorem inquiry?_asks (offset size : UInt64) :
    (asks offset size).inquiry? = some ⟨⟨offset, size⟩, file⟩ := by
  simp [asks, Occasion.inquiry?]

theorem heard_run : heard run = [⟨⟨2, 1⟩, file⟩, ⟨⟨0, 2⟩, file⟩, ⟨⟨0, 2⟩, file⟩,
    ⟨⟨18446744073709551615, 1⟩, file⟩, ⟨⟨0, 2⟩, file⟩] := by
  unfold run
  rw [heard_cons_of_some (inquiry?_asks 2 1), heard_cons_of_some (inquiry?_asks 0 2),
    heard_cons_of_none rfl rfl, heard_cons_of_some (inquiry?_asks 0 2),
    heard_cons_of_some (inquiry?_asks 18446744073709551615 1),
    heard_cons_of_some (inquiry?_asks 0 2)]
  rfl

theorem answered_run : answered 3 (heard run) =
    [⟨⟨2, 1⟩, file⟩, ⟨⟨0, 2⟩, file⟩, ⟨⟨0, 2⟩, file⟩] := by
  rw [heard_run]
  rfl

theorem failed?_run : failed? 3 (heard run) = some (.range 18446744073709551615 1 3) := by
  rw [heard_run]
  rfl

end Hostile

/-- Requests that come twice are answered twice, and nothing is answered behind a request that
cannot be. -/
theorem hostile_requests_answered :
    let opened := Hostile.uploader.take ⟨.reply Hostile.reply, Hostile.file, 0⟩
    published (opened.1.deeds Hostile.run) =
      [(.response "s", .carrying "s" .chunkResponse (ChunkResponse.ofBytes 2 [9])),
        (.response "s", .carrying "s" .chunkResponse (ChunkResponse.ofBytes 0 [7, 8])),
        (.response "s", .carrying "s" .chunkResponse (ChunkResponse.ofBytes 0 [7, 8])),
        refusal "s" (.range 18446744073709551615 1 3)] ∧
      (opened.1.after Hostile.run).sentTo? = some 3 := by
  intro opened
  obtain ⟨-, hpublished, -, hsent, hgoes⟩ := answers_faithfully (u := Hostile.uploader) rfl
    (payloadAs_carrying "c" .sessionCreated (SessionCreated.mk "s")) Hostile.file 0 Hostile.run
  obtain ⟨t, ht, -⟩ := hgoes (by simp [Hostile.run, Hostile.asks, Occasion.ends])
  have hsome : (opened.1.after Hostile.run).sentTo? = some t.bytesSent.toNat := by
    unfold sentTo?
    rw [show (opened.1.after Hostile.run).stage = .transferring t from ht]
  constructor
  · refine hpublished.trans ?_
    rw [show Hostile.uploader.source.length = 3 from rfl, Hostile.answered_run, Hostile.failed?_run]
    rfl
  · rw [hsome, (hsent _ hsome).1, show Hostile.uploader.source.length = 3 from rfl,
      Hostile.answered_run]
    rfl

end Uploader

end PullIngest
