import Mathlib.Data.List.Basic
import PullIngest.Proofs.Coordinator.Turn

/-!
# Delivery in order, exactly once

Whatever a coordinator meets in a run, the chunks that it hands to its sink are consecutive ranges
from the first byte on, and they count what the session has taken in.

* `handed`, `requests`: the chunks handed to the sink in a run, and the requests published in it;
* `InOrder`: chunks that leave no gap, do not overlap, and keep within the chunk size;
* `Delivers`: the invariant. It ties the count of the session and the outstanding range to what was
  done so far (`Delivers.take` for a turn);
* `handed_in_order`: what holds of every run.
-/

namespace PullIngest.Coordinator

open Action

/-- The chunks that are handed to the sink, in order. -/
def handed (as : List Action) : List (UInt64 × List UInt8) :=
  as.filterMap fun
    | .sink (.accept offset data) => some (offset, data)
    | _ => none

/-- Whether an action publishes a request for bytes. -/
def isRequest : Action → Bool
  | .publish (.request _) _ => true
  | _ => false

/-- The requests for bytes that are published, in order. -/
def requests (as : List Action) : List Action := as.filter isRequest

/-- The number of bytes in a list of chunks. -/
def bytesIn : List (UInt64 × List UInt8) → ℕ
  | [] => 0
  | (_, data) :: rest => data.length + bytesIn rest

/-- Chunks that follow each other from an offset on, none of them empty or longer than a limit. -/
def InOrder (limit : ℕ) : ℕ → List (UInt64 × List UInt8) → Prop
  | _, [] => True
  | start, (offset, data) :: rest =>
    offset.toNat = start ∧ data ≠ [] ∧ data.length ≤ limit ∧
      InOrder limit (start + data.length) rest

@[simp] theorem bytesIn_append (xs ys : List (UInt64 × List UInt8)) :
    bytesIn (xs ++ ys) = bytesIn xs + bytesIn ys := by
  induction xs with
  | nil => simp [bytesIn]
  | cons p xs ih => simp [bytesIn, ih, Nat.add_assoc]

theorem inOrder_append {limit start : ℕ} {xs ys : List (UInt64 × List UInt8)} :
    InOrder limit start (xs ++ ys) ↔
      InOrder limit start xs ∧ InOrder limit (start + bytesIn xs) ys := by
  induction xs generalizing start with
  | nil => simp [InOrder, bytesIn]
  | cons p xs ih =>
    obtain ⟨offset, data⟩ := p
    simp [InOrder, ih, bytesIn, Nat.add_assoc, and_assoc]

@[simp] theorem handed_append (as bs : List Action) : handed (as ++ bs) = handed as ++ handed bs :=
  List.filterMap_append

@[simp] theorem requests_append (as bs : List Action) :
    requests (as ++ bs) = requests as ++ requests bs := List.filter_append as bs

/-- Log lines hand nothing to the sink. -/
theorem handed_outward (as : List Action) : handed (outward as) = handed as := by
  simp only [handed, outward, List.filterMap_filter]
  refine List.filterMap_congr fun a _ => ?_
  cases a <;> simp [isLog]

/-- Log lines request nothing. -/
theorem requests_outward (as : List Action) : requests (outward as) = requests as := by
  simp only [requests, outward, List.filter_filter]
  refine List.filter_congr fun a _ => ?_
  cases a <;> simp [isRequest, isLog]

@[simp] theorem handed_logs (lines : List String) : handed (logs lines) = [] := by
  rw [← handed_outward, outward_logs]; rfl

@[simp] theorem requests_logs (lines : List String) : requests (logs lines) = [] := by
  rw [← requests_outward, outward_logs]; rfl

theorem mem_handed {as : List Action} {offset : UInt64} {data : List UInt8} :
    (offset, data) ∈ handed as ↔ .sink (.accept offset data) ∈ as := by
  simp only [handed, List.mem_filterMap]
  constructor
  · rintro ⟨a, ha, h⟩
    split at h
    · next offset' data' =>
      obtain ⟨rfl, rfl⟩ : offset' = offset ∧ data' = data := by simpa using h
      exact ha
    · cases h
  · intro h
    exact ⟨_, h, rfl⟩

variable {c : Coordinator} {done before actions : List Action} {x : Occasion} {t : Turn}

/-! ### What a turn hands over -/

theorem Concludes.handed_eq {call : SinkCall} {success : Bool}
    (h : Concludes c before call success t) (hcall : ∀ offset data, call ≠ .accept offset data) :
    handed t.actions = handed before := by
  rw [← handed_outward, h.outward_eq, handed_append, handed_outward]
  cases call with
  | accept offset data => exact absurd rfl (hcall offset data)
  | finalize verdict => simp [handed, tellsVerdict]
  | fail reason => simp [handed, tellsVerdict]

theorem Concludes.requests_eq {call : SinkCall} {success : Bool}
    (h : Concludes c before call success t) : requests t.actions = requests before := by
  rw [← requests_outward, h.outward_eq, requests_append, requests_outward]
  simp [requests, isRequest, tellsVerdict]

theorem handed_abort (c : Coordinator) (accepts : Channel → Bool) (now : ℕ) (storage : Storage)
    (actions : List Action) (why : Abort) :
    handed (c.abort accepts now storage actions why).actions = handed actions :=
  (abort_concludes c accepts now storage actions why).handed_eq (by simp)

theorem handed_progress (accepts : Channel → Bool) (now : ℕ) (storage : Storage)
    (hp : c.session.phase = .started ∨ c.session.phase = .requesting) :
    handed (c.progress accepts now storage actions).actions = handed actions := by
  have ht := continues_requestNext
    { c with stage := .pulling (now + c.policy.idleTimeout.millis) } accepts now storage actions hp
  unfold progress
  generalize requestNext _ accepts now storage actions = t at ht ⊢
  cases ht with
  | asks hr hc => simp [handed, asksFor]
  | unheard hr hc why =>
    rw [handed_abort]
    simp [handed, asksFor]
  | completes hr => exact (finalize_concludes _ accepts now storage actions).handed_eq (by simp)
  | fails why => exact handed_abort _ accepts now storage actions why

/-- A turn hands over nothing but the bytes of the outstanding range. -/
theorem handed_take (c : Coordinator) (x : Occasion) :
    handed (c.take x).actions = [] ∨
      ∃ r data, Answers c x r data ∧ handed (c.take x).actions = [(r.offset, data)] := by
  cases hs : c.stage with
  | pulling deadline =>
    have hpulls := pulls_take hs x
    generalize c.take x = t at hpulls ⊢
    cases hpulls with
    | waits violations lines => exact .inl (handed_logs lines)
    | fails violations why lines =>
      left
      rw [handed_abort, handed_logs]
    | starts hp =>
      left
      rw [handed_progress _ _ _ (.inl rfl)]
      rfl
    | @refuses r data ha why =>
      -- The bytes are handed over before the sink refuses them.
      refine .inr ⟨r, data, ha, ?_⟩
      rw [handed_abort]
      rfl
    | @takes r data sink storage ha hs =>
      refine .inr ⟨r, data, ha, ?_⟩
      rw [handed_progress _ _ _ (.inr rfl)]
      rfl
  | lingering success expiry =>
    left
    rw [← handed_outward, (lingers_take hs x).outward_eq]
    split_ifs <;> rfl
  | exited =>
    rw [take_exited hs]
    exact .inl rfl

/-! ### The invariant -/

/-- What the actions done so far say about a coordinator. -/
structure Delivers (c : Coordinator) (done : List Action) : Prop where
  sound : c.session.Sound
  inOrder : InOrder c.policy.chunkSize.toNat 0 (handed done)
  bytesIn_eq : bytesIn (handed done) = c.session.delivered.toNat
  asked : ∀ r, c.session.outstanding = some r →
    r.size ≤ c.policy.chunkSize ∧ (requests done).getLast? = some (asksFor c.session.id r)
  finalized : ∀ verdict, Action.sink (.finalize verdict) ∈ done →
    c.session.delivered = c.session.declaredSize

theorem delivers_new (policy : Policy) (id name : String) (size : UInt64) (sink : Sink)
    (now : ℕ) : Delivers (new policy (.new id name size) sink now) [] where
  sound := Session.sound_new id name size
  inOrder := trivial
  bytesIn_eq := rfl
  asked := by simp [new, Session.new]
  finalized := by simp

/-- The sink and the stage are not part of the invariant. -/
theorem Delivers.of_eq {c' : Coordinator} (h : Delivers c done) (hs : c'.session = c.session)
    (hp : c'.policy = c.policy) : Delivers c' done where
  sound := hs ▸ h.sound
  inOrder := hp ▸ h.inOrder
  bytesIn_eq := hs ▸ h.bytesIn_eq
  asked := by rw [hs, hp]; exact h.asked
  finalized := hs ▸ h.finalized

/-- A turn that hands over, requests and finalizes nothing keeps the invariant. -/
theorem Delivers.unmoved (h : Delivers c done) (hs : t.coordinator.session = c.session)
    (hp : t.coordinator.policy = c.policy) (hh : handed t.actions = [])
    (hr : requests t.actions = []) (hf : ∀ verdict, Action.sink (.finalize verdict) ∉ t.actions) :
    Delivers t.coordinator (done ++ t.actions) := by
  refine Delivers.of_eq (c := c) ?_ hs hp
  constructor
  · exact h.sound
  · rw [handed_append, hh, List.append_nil]
    exact h.inOrder
  · rw [handed_append, hh, List.append_nil]
    exact h.bytesIn_eq
  · rw [requests_append, hr, List.append_nil]
    exact h.asked
  · intro verdict hv
    rcases List.mem_append.1 hv with hv | hv
    · exact h.finalized verdict hv
    · exact absurd hv (hf verdict)

/-- Lines in the log change nothing. -/
theorem Delivers.quiet (h : Delivers c done) (hq : outward actions = []) :
    Delivers c (done ++ actions) := by
  refine Delivers.unmoved (t := ⟨c, {}, actions⟩) h rfl rfl ?_ ?_ fun verdict hv => ?_
  · rw [← handed_outward, hq]; rfl
  · rw [← requests_outward, hq]; rfl
  · have hv' := (mem_outward rfl).2 hv
    simp [hq] at hv'

/-- A verdict hands nothing over, and the bytes are complete when the sink is asked for it. -/
theorem Delivers.concludes {call : SinkCall} {success : Bool}
    (h : Delivers c (done ++ before)) (ht : Concludes c before call success t)
    (hcall : ∀ offset data, call ≠ .accept offset data)
    (hfull : ∀ verdict, call = .finalize verdict → c.session.delivered = c.session.declaredSize) :
    Delivers t.coordinator (done ++ t.actions) := by
  have hhanded := ht.handed_eq hcall
  have hrequests := ht.requests_eq
  have hi := h.inOrder
  have hb := h.bytesIn_eq
  exact
    { sound := by rw [ht.session_eq]; exact h.sound.finish success
      inOrder := by
        rw [ht.policy_eq, handed_append, hhanded]
        rwa [handed_append] at hi
      bytesIn_eq := by
        rw [ht.delivered_eq, handed_append, hhanded]
        rwa [handed_append] at hb
      asked := by
        intro r hr
        rw [ht.session_eq] at hr ⊢
        rw [ht.policy_eq, requests_append, hrequests, ← requests_append, Session.finish_id]
        -- A verdict clears the outstanding range, unless there was a verdict before.
        rcases c.session.finish_cases success with ⟨-, e⟩ | ⟨-, e⟩
        · rw [e] at hr; exact h.asked r hr
        · rw [e] at hr; cases hr
      finalized := by
        intro verdict hv
        rw [ht.delivered_eq, ht.declaredSize_eq]
        rcases List.mem_append.1 hv with hv | hv
        · exact h.finalized verdict (List.mem_append_left _ hv)
        · -- The call of this turn is the only one that is not in the actions before it.
          have hv' := (mem_outward rfl).2 hv
          rw [ht.outward_eq] at hv'
          rcases List.mem_append.1 hv' with hv' | hv'
          · exact h.finalized verdict (List.mem_append_right _ ((mem_outward rfl).1 hv'))
          · have : call = .finalize verdict := by simpa [tellsVerdict, eq_comm] using hv'
            exact hfull verdict this }

theorem Delivers.abort (h : Delivers c (done ++ actions)) (accepts : Channel → Bool) (now : ℕ)
    (storage : Storage) (why : Abort) :
    Delivers (c.abort accepts now storage actions why).coordinator
      (done ++ (c.abort accepts now storage actions why).actions) :=
  h.concludes (abort_concludes c accepts now storage actions why) (by simp) (by simp)

/-- Asking for the next range keeps the invariant. -/
theorem Delivers.continues {accepts : Channel → Bool} {now : ℕ} {storage : Storage}
    (h : Delivers c (done ++ actions)) (ht : Continues c accepts now storage actions t) :
    Delivers t.coordinator (done ++ t.actions) := by
  -- A request is needed in two cases: the bus takes it, or the session ends because it does not.
  have asks (hr : c.session.declaredSize - c.session.delivered ≠ 0)
      (hc : c.policy.chunkSize ≠ 0) :
      Delivers { c with session := c.session.awaiting (c.session.nextRange c.policy.chunkSize) }
        (done ++ (actions ++
          [asksFor c.session.id (c.session.nextRange c.policy.chunkSize)])) := by
    obtain ⟨-, -, -, hsize⟩ := h.sound.nextRange hr hc
    rw [← List.append_assoc]
    exact
      { sound := h.sound.awaiting hr hc
        inOrder := by
          rw [handed_append]
          simpa [handed, asksFor] using h.inOrder
        bytesIn_eq := by
          rw [handed_append]
          simpa [handed, asksFor, Session.awaiting] using h.bytesIn_eq
        asked := by
          intro r hr
          obtain rfl := Option.some.inj hr
          refine ⟨hsize, ?_⟩
          rw [requests_append]
          simp [requests, isRequest, asksFor, Session.awaiting]
        finalized := by
          intro verdict hv
          refine h.finalized verdict ?_
          simpa [asksFor] using hv }
  cases ht with
  | asks hr hc => exact asks hr hc
  | unheard hr hc why => exact (asks hr hc).abort accepts now storage why
  | completes hr =>
    exact h.concludes (finalize_concludes c accepts now storage actions) (by simp)
      fun _ _ => h.sound.delivered_eq hr
  | fails why => exact h.abort accepts now storage why

theorem Delivers.progress (h : Delivers c (done ++ actions))
    (hp : c.session.phase = .started ∨ c.session.phase = .requesting) (accepts : Channel → Bool)
    (now : ℕ) (storage : Storage) :
    Delivers (c.progress accepts now storage actions).coordinator
      (done ++ (c.progress accepts now storage actions).actions) := by
  have hmoved : Delivers { c with stage := .pulling (now + c.policy.idleTimeout.millis) }
      (done ++ actions) := h.of_eq rfl rfl
  exact hmoved.continues (continues_requestNext _ accepts now storage actions hp)

/-- The bytes of the outstanding range come next in order. -/
theorem Delivers.hand {r : ChunkResponse} {data : List UInt8} (h : Delivers c done)
    (ha : Answers c x r data) :
    Delivers { c with session := c.session.advancedBy r.size }
      (done ++ [.sink (.accept r.offset data)]) := by
  obtain ⟨hoff, hpos, hle⟩ := h.sound.range_of_outstanding _ ha.outstanding
  obtain ⟨hadd, -⟩ := h.sound.toNat_advanced ha.outstanding
  obtain ⟨hsize, -⟩ := h.asked _ ha.outstanding
  simp only at hoff hpos hle hsize
  have hlen := ha.length
  exact
    { sound := h.sound.advancedBy ha.outstanding
      inOrder := by
        rw [handed_append, inOrder_append, h.bytesIn_eq]
        refine ⟨h.inOrder, ?_, ?_, ?_, trivial⟩
        · rw [hoff, Nat.zero_add]
        · rw [UInt64.lt_iff_toNat_lt, ← hlen] at hpos
          exact List.length_pos_iff.1 hpos
        · rw [UInt64.le_iff_toNat_le, ← hlen] at hsize
          exact hsize
      bytesIn_eq := by
        rw [handed_append, bytesIn_append, h.bytesIn_eq]
        show c.session.delivered.toNat + bytesIn [(r.offset, data)]
          = (c.session.delivered + r.size).toNat
        rw [hadd, ← hlen]
        simp [bytesIn]
      asked := by simp [Session.advancedBy]
      finalized := by
        -- The bytes were not complete while a range was outstanding.
        intro verdict hv
        have hfull := h.finalized verdict (by simpa using hv)
        rw [UInt64.lt_iff_toNat_lt] at hpos
        rw [hoff, hfull] at hle
        simp only [UInt64.toNat_zero] at hpos
        omega }

/-- A turn keeps the invariant. -/
theorem Delivers.take (h : Delivers c done) (x : Occasion) :
    Delivers (c.take x).coordinator (done ++ (c.take x).actions) := by
  have counted (violations : UInt32) :
      Delivers { c with session := { c.session with violations } } done :=
    ⟨h.sound.counted violations, h.inOrder, h.bytesIn_eq, h.asked, h.finalized⟩
  cases hs : c.stage with
  | pulling deadline =>
    have hpulls := pulls_take hs x
    generalize c.take x = t at hpulls ⊢
    cases hpulls with
    | waits violations lines => exact (counted violations).quiet (outward_logs lines)
    | fails violations why lines =>
      exact ((counted violations).quiet (outward_logs lines)).abort x.accepts x.now x.storage why
    | starts hp =>
      have hstarted : Delivers { c with session := { c.session with phase := .started } }
          (done ++ []) := by
        rw [List.append_nil]
        exact ⟨h.sound.started hp, h.inOrder, h.bytesIn_eq, h.asked, h.finalized⟩
      exact hstarted.progress (.inl rfl) x.accepts x.now x.storage
    | refuses ha why => exact (h.hand ha).abort x.accepts x.now x.storage why
    | @takes r data sink storage ha hs =>
      have hhand : Delivers { c with session := c.session.advancedBy r.size, sink }
          (done ++ [.sink (.accept r.offset data)]) := (h.hand ha).of_eq rfl rfl
      exact hhand.progress (.inr rfl) x.accepts x.now storage
  | lingering success expiry =>
    have hl := lingers_take hs x
    refine h.unmoved hl.session_eq hl.policy_eq ?_ ?_ fun verdict hv => ?_
    · rw [← handed_outward, hl.outward_eq]
      split_ifs <;> rfl
    · rw [← requests_outward, hl.outward_eq]
      split_ifs <;> rfl
    · have hv' := (mem_outward rfl).2 hv
      rw [hl.outward_eq] at hv'
      split_ifs at hv' <;> simp [tellsVerdict] at hv'
  | exited =>
    rw [take_exited hs]
    exact h.quiet rfl

/-- The invariant holds behind every run of a new session. -/
theorem delivers_after (policy : Policy) (id name : String) (size : UInt64) (sink : Sink)
    (now : ℕ) (xs : List Occasion) :
    Delivers ((new policy (.new id name size) sink now).after xs)
      ((new policy (.new id name size) sink now).deeds xs) :=
  run_induction (fun _ _ x h => h.take x) (delivers_new policy id name size sink now) xs

/-- **Every byte is handed to the sink once and in order.** Behind any run of a new session, the
chunks handed over follow each other from the first byte on, none of them empty or longer than the
chunk size. Together they are as long as the session has counted, which is never more than
declared, and as long as declared when the sink is asked for its verdict. Each of them is what was
decoded from a response to the range that was outstanding, and that range was the last one asked
for. -/
theorem handed_in_order (policy : Policy) (id name : String) (size : UInt64) (sink : Sink)
    (now : ℕ) (xs : List Occasion) :
    let c := new policy (.new id name size) sink now
    InOrder policy.chunkSize.toNat 0 (handed (c.deeds xs)) ∧
      bytesIn (handed (c.deeds xs)) = (c.after xs).session.delivered.toNat ∧
      (c.after xs).session.delivered ≤ size ∧
      (∀ verdict, .sink (.finalize verdict) ∈ c.deeds xs →
        bytesIn (handed (c.deeds xs)) = size.toNat) ∧
      ∀ x offset data, .sink (.accept offset data) ∈ ((c.after xs).take x).actions →
        ∃ r, r.offset = offset ∧ Answers (c.after xs) x r data ∧
          (requests (c.deeds xs)).getLast? = some (asksFor id ⟨r.offset, r.size⟩) := by
  intro c
  have h := delivers_after policy id name size sink now xs
  obtain ⟨hid, -, hsize, hpolicy⟩ := sameFile_after c xs
  have hin := h.inOrder
  have hle := h.sound.delivered_le
  rw [hpolicy] at hin
  rw [hsize] at hle
  refine ⟨hin, h.bytesIn_eq, hle, ?_, ?_⟩
  · intro verdict hv
    rw [h.bytesIn_eq, h.finalized verdict hv]
    exact congrArg UInt64.toNat hsize
  · intro x offset data hx
    rcases handed_take (c.after xs) x with hnone | ⟨r, data', ha, hone⟩
    · rw [← mem_handed, hnone] at hx
      cases hx
    · rw [← mem_handed, hone, List.mem_singleton, Prod.mk.injEq] at hx
      obtain ⟨rfl, rfl⟩ := hx
      refine ⟨r, rfl, ha, ?_⟩
      rw [(h.asked _ ha.outstanding).2, hid]
      rfl

end PullIngest.Coordinator
