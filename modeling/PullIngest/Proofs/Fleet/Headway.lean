import PullIngest.Proofs.Fleet.Dialogue

/-!
# Headway in a dialogue

From every position each step that can be taken leads to another position with less to do: one lemma
for each kind of step, by cases on the position.

* `Position.uploadCall`, `uploadAct`, `uploadTurn`, `uploadLeave`: steps of the uploader;
* `Position.take`, `answer`, `deskAct`, `launch`: steps of the server;
* `Position.runTurn`, `runAct`, `runLeave`: steps of the coordinator.
-/

namespace PullIngest

open Action Dialogue

namespace Position

variable {chunk : UInt64} {u : Uploader} {x : Dialogue} {a : Action} {rest : List Action}

/-- A channel that is opened in its turn is a new one. -/
theorem opens {cs before after : List Channel} {c : Channel} (hcs : before ++ c :: after = cs)
    (hn : cs.Nodup) : c ∈ cs ∧ c ∉ (empties before).map Prod.fst := by
  subst hcs
  rw [map_fst_empties]
  exact ⟨by simp, fun hc => (List.nodup_append.1 hn).2.2 c hc c (by simp) rfl⟩

/-- Things that do not concern the bus. -/
theorem uploadAct_quiet (ha : a.isQuiet) (ht : x.todo = a :: rest)
    (h : Position chunk u { x with todo := rest }) :
    a.Smooth (Channel.belongs u.correlation x.session) x.ins x.outs ∧
      x.Ahead chunk u (x.uploadAct a rest) := by
  have he : x.uploadAct a rest = { x with todo := rest } := by
    simp [Dialogue.uploadAct, ha.mine, ha.theirs, ha.asks]
  refine ⟨ha.smooth _ _ _, ?_⟩
  rw [he]
  refine ⟨h, ?_⟩
  simp only [Dialogue.load, ht, loads_cons, ha.load]
  omega

theorem uploadAct (h : Position chunk u x) (ht : x.todo = a :: rest)
    (hcall : a ≠ .publish .create u.createRequest) :
    a.Smooth (Channel.belongs u.correlation x.session) x.ins x.outs ∧
      x.Ahead chunk u (x.uploadAct a rest) := by
  cases h
  case calling =>
    obtain ⟨rfl, rfl⟩ : _ ∧ _ := by simpa using ht.symm
    refine ⟨⟨rfl, by simp, by simp⟩, .dialled, ?_⟩
    simp [Dialogue.load, Dialogue.uploadAct, mine, theirs, Action.load]
    omega
  case dialled => exact absurd (List.cons.inj ht).1.symm hcall
  case greeting id t hid staff hw =>
    obtain ⟨rfl, rfl⟩ : _ ∧ _ := by simpa using ht.symm
    refine ⟨⟨by simp, by simp [Channel.posts]⟩, ?_, ?_⟩
    · have hcs : [] ++ Channel.listens id = Channel.listens id := rfl
      have hp := joining hcs hid hw
      simpa [Dialogue.uploadAct, mine, theirs, asks, Channel.listens, empties] using hp
    · simp only [Dialogue.load, Dialogue.uploadAct, mine, theirs, Action.load, loads_cons,
        boxesLoad_cons, ne_eq, not_true_eq_false, decide_false, Bool.false_eq_true,
        not_false_eq_true, List.filter_cons_of_neg, List.filter_nil, boxesLoad_nil]
      omega
  case joining id before after hcs t hid staff hw =>
    cases after with
    | nil =>
      obtain ⟨rfl, rfl⟩ : _ ∧ _ := by simpa using ht.symm
      obtain rfl : before = Channel.listens id := by simpa using hcs
      refine ⟨.inr (by simp [empties, Channel.posts]), ?_, ?_⟩
      · simpa [Dialogue.uploadAct, mine, theirs, asks, Channel.listens, Channel.posts, empties,
          post, adjust] using started hid hw
      · simp [Dialogue.load, Dialogue.uploadAct, mine, theirs, Action.load, Channel.listens,
          Channel.posts, empties, post, adjust, Channel.load]
        omega
    | cons c after =>
      obtain ⟨rfl, rfl⟩ : _ ∧ _ := by simpa using ht.symm
      obtain ⟨hmem, hnew⟩ := opens hcs (by simp [Channel.listens])
      refine ⟨⟨?_, hnew, ?_⟩, ?_, ?_⟩
      · rcases hmem with _ | ⟨_, _ | ⟨_, ⟨⟩⟩⟩ <;> rfl
      · rcases hmem with _ | ⟨_, _ | ⟨_, ⟨⟩⟩⟩ <;> simp [Channel.posts]
      · have hcs' : (before ++ [c]) ++ after = Channel.listens id := by simpa using hcs
        have hp := joining hcs' hid hw
        simpa [Dialogue.uploadAct, mine, theirs, asks, empties_append, empties] using hp
      · simp [Dialogue.load, Dialogue.uploadAct, mine, theirs, Action.load]
        omega
  case asking hid todo before hq hb c hc hasked =>
    obtain rfl : todo = a :: rest := ht
    exact uploadAct_quiet (hq a (by simp)) rfl
      (.asking hid (fun b hb => hq b (List.mem_cons_of_mem _ hb)) hb hc hasked)
  case asked hid todo hq c hc hasked =>
    obtain rfl : todo = a :: rest := ht
    exact uploadAct_quiet (hq a (by simp)) rfl
      (.asked hid (fun b hb => hq b (List.mem_cons_of_mem _ hb)) hc hasked)
  case answering id n asked r t hid todo hq data hdata c hc hasked =>
    obtain ⟨rfl, rfl⟩ : _ ∧ _ := by simpa using ht.symm
    refine ⟨.inr (by simp [empties, Channel.posts]), ?_, ?_⟩
    · simpa [Dialogue.uploadAct, mine, theirs, asks, Channel.listens, Channel.posts, empties,
        post, adjust] using responded hid hq hdata hc hasked
    · simp [Dialogue.load, Dialogue.uploadAct, mine, theirs, Action.load, Channel.listens,
        Channel.posts, empties, post, adjust, Channel.load]
      omega
  case responded hid todo hq data hdata c hc hasked =>
    obtain rfl : todo = a :: rest := ht
    exact uploadAct_quiet (hq a (by simp)) rfl
      (.responded hid (fun b hb => hq b (List.mem_cons_of_mem _ hb)) hdata hc hasked)
  case concluding hid todo before hq hb c hcid hs =>
    obtain rfl : todo = a :: rest := ht
    exact uploadAct_quiet (hq a (by simp)) rfl
      (.concluding hid (fun b hb => hq b (List.mem_cons_of_mem _ hb)) hb hcid hs)
  case concluded hid todo hq staff outs hw =>
    obtain rfl : todo = a :: rest := ht
    exact uploadAct_quiet (hq a (by simp)) rfl
      (.concluded hid (fun b hb => hq b (List.mem_cons_of_mem _ hb)) hw)
  -- Nothing is left to do in any other position.
  all_goals cases ht

theorem deskAct (h : Position chunk u x) {opened : Option Coordinator}
    (hs : x.staff = .answering (a :: rest) opened) :
    a.Smooth (Channel.belongs u.correlation x.session) x.outs x.ins ∧
      x.Ahead chunk u (x.deskAct a rest opened) := by
  cases h
  case opening deadline id before after hcs c hc hp =>
    cases after with
    | nil =>
      obtain ⟨⟨rfl, rfl⟩, rfl⟩ : (_ ∧ _) ∧ _ := by simpa using hs.symm
      obtain rfl : before = Channel.posts id := by simpa using hcs
      refine ⟨.inr (by simp), ?_, ?_⟩
      · have hp' := @answered chunk u deadline _ _ (.answering hc hp)
        simpa [Dialogue.deskAct, mine, theirs, asks, Channel.posts, empties, post, adjust] using hp'
      · simp [Dialogue.load, Dialogue.deskAct, mine, theirs, Action.load, Staff.load,
          Channel.posts, empties, post, adjust, Channel.load]
        omega
    | cons d after =>
      obtain ⟨⟨rfl, rfl⟩, rfl⟩ : (_ ∧ _) ∧ _ := by simpa using hs.symm
      obtain ⟨hmem, hnew⟩ := opens hcs (by simp [Channel.posts])
      refine ⟨⟨?_, hnew, ?_⟩, ?_, ?_⟩
      · rcases hmem with _ | ⟨_, _ | ⟨_, _ | ⟨_, ⟨⟩⟩⟩⟩ <;> rfl
      · rcases hmem with _ | ⟨_, _ | ⟨_, _ | ⟨_, ⟨⟩⟩⟩⟩ <;> simp
      · have hcs' : (before ++ [d]) ++ after = Channel.posts id := by simpa using hcs
        have hp' := @opening chunk u deadline _ _ _ hcs' _ hc hp
        simpa [Dialogue.deskAct, mine, theirs, asks, empties_append, empties] using hp'
      · simp [Dialogue.load, Dialogue.deskAct, mine, theirs, Action.load, Staff.load]
        omega
  -- Nobody else is at an answer, or the answer is complete.
  all_goals first
    | cases hs; done
    | rename_i hw
      cases hw <;> cases hs

theorem launch (h : Position chunk u x) {opened : Option Coordinator}
    (hs : x.staff = .answering [] opened) :
    ∃ c, opened = some c ∧ x.Ahead chunk u { x with staff := .running c [] } := by
  cases h
  case opening => simp at hs
  case answered hw =>
    cases hw <;> cases hs
    next c hc hp =>
      refine ⟨c, rfl, .answered (.running hc hp), ?_⟩
      simp [Dialogue.load, Staff.load]
  case greeting ht _ hw =>
    cases hw <;> cases hs
    next c hc hp =>
      refine ⟨c, rfl, .greeting ht (.running hc hp), ?_⟩
      simp [Dialogue.load, Staff.load]
  case joining hcs _ ht _ hw =>
    cases hw <;> cases hs
    next c hc hp =>
      refine ⟨c, rfl, .joining hcs ht (.running hc hp), ?_⟩
      simp [Dialogue.load, Staff.load]
  case started ht _ hw =>
    cases hw <;> cases hs
    next c hc hp =>
      refine ⟨c, rfl, .started ht (.running hc hp), ?_⟩
      simp [Dialogue.load, Staff.load]
  case concluded hw => cases hw <;> cases hs
  case returned hw => cases hw <;> cases hs
  all_goals cases hs

theorem runAct_quiet {c : Coordinator} (ha : a.isQuiet) (hs : x.staff = .running c (a :: rest))
    (h : Position chunk u { x with staff := .running c rest }) :
    a.Smooth (Channel.belongs u.correlation x.session) x.outs x.ins ∧
      x.Ahead chunk u (x.runAct c a rest) := by
  have he : x.runAct c a rest = { x with staff := .running c rest } := by
    simp [Dialogue.runAct, ha.mine, ha.theirs, ha.asks]
  refine ⟨ha.smooth _ _ _, ?_⟩
  rw [he]
  refine ⟨h, ?_⟩
  simp only [Dialogue.load, hs, Staff.load, loads_cons, ha.load]
  omega

theorem runAct (h : Position chunk u x) {c : Coordinator} (hs : x.staff = .running c (a :: rest)) :
    a.Smooth (Channel.belongs u.correlation x.session) x.outs x.ins ∧
      x.Ahead chunk u (x.runAct c a rest) := by
  cases h
  case asking id n asked r t ht todo before hq hb c' hc hasked =>
    cases before with
    | nil =>
      obtain ⟨rfl, rfl, rfl⟩ : _ ∧ _ ∧ _ := by simpa using hs.symm
      refine ⟨.inr (by simp [empties, Channel.listens]), ?_, ?_⟩
      · have hp := Position.asked ht hq hc (show asked + 1 + _ = _ by rw [← hasked]; omega)
        simpa [Dialogue.runAct, mine, theirs, asks, Channel.posts, Channel.listens, empties, post,
          adjust] using hp
      · simp [Dialogue.load, Dialogue.runAct, mine, theirs, Action.load, Staff.load,
          Channel.posts, Channel.listens, empties, post, adjust, Channel.load]
        omega
    | cons b before =>
      obtain ⟨rfl, rfl, rfl⟩ : _ ∧ _ ∧ _ := by simpa using hs.symm
      exact runAct_quiet (hb a (by simp)) rfl
        (.asking ht hq (fun b' hb' => hb b' (List.mem_cons_of_mem _ hb')) hc hasked)
  case concluding id t ht todo before hq hb c' hid hl =>
    cases before with
    | nil =>
      obtain ⟨rfl, rfl, rfl⟩ : _ ∧ _ ∧ _ := by simpa using hs.symm
      refine ⟨.inr (by simp [empties, Channel.listens]), ?_, ?_⟩
      · have hp := @concluded chunk u id t ht todo hq _ _ (.lingers hid (.inr hl))
        simpa [Dialogue.runAct, mine, theirs, asks, Channel.posts, Channel.listens, empties, post,
          adjust] using hp
      · simp [Dialogue.load, Dialogue.runAct, mine, theirs, Action.load, Staff.load,
          Channel.posts, Channel.listens, empties, post, adjust, Channel.load]
        omega
    | cons b before =>
      obtain ⟨rfl, rfl, rfl⟩ : _ ∧ _ ∧ _ := by simpa using hs.symm
      exact runAct_quiet (hb a (by simp)) rfl
        (.concluding ht hq (fun b' hb' => hb b' (List.mem_cons_of_mem _ hb')) hid hl)
  -- A coordinator has nothing left to do in any other position.
  all_goals first
    | cases hs; done
    | rename_i hw
      cases hw <;> cases hs

theorem take (h : Position chunk u x) {m : Message} {calls : List Message}
    (hm : x.calls = m :: calls) : x.staff = .absent ∧
      x.Ahead chunk u { x with staff := .holding m, calls } := by
  cases h
  case called =>
    obtain ⟨rfl, rfl⟩ : _ ∧ _ := by simpa using hm.symm
    refine ⟨rfl, .held, ?_⟩
    simp [Dialogue.load, Staff.load, Channel.load]
  all_goals cases hm

/-- The request that the server is at is that of the uploader. -/
theorem answer (h : Position chunk u x) {m : Message} (hs : x.staff = .holding m) :
    m = u.createRequest ∧ (Channel.reply u.correlation, []) ∈ x.ins ∧
      x.session = none ∧ x.asked = 0 ∧
      ∀ (id : String) (c : Coordinator), c.Serving id chunk u.source.length.toNat 0 →
        c.session.phase = .created → x.Ahead chunk u
          { x with staff := .answering (Server.welcome u.correlation id) (some c)
                   session := some id } := by
  cases h
  case held deadline =>
    obtain rfl : u.createRequest = m := by simpa using hs
    refine ⟨rfl, by simp, rfl, rfl, fun id c hc hp => ⟨?_, ?_⟩⟩
    · exact @opening chunk u deadline id [] (Channel.posts id) rfl c hc hp
    · obtain ⟨expiry, hstage⟩ := hc.pulling
      simp [Dialogue.load, Staff.load, Server.welcome, Action.load, Channel.load, hstage, Stage.load]
  -- The server has answered, or has no request yet.
  all_goals first
    | cases hs; done
    | rename_i hw
      cases hw <;> cases hs

theorem uploadLeave (h : Position chunk u x) {r : Except UploadError UploadOutcome}
    (hs : x.stage = .finished r) (hm : x.ins ≠ []) : x.Ahead chunk u { x with ins := [] } := by
  cases h
  case returned ins hins staff outs hw =>
    refine ⟨.returned (.inr rfl) hw, ?_⟩
    rcases hins with rfl | rfl
    · simp [Dialogue.load, empties, Channel.listens]
    · exact absurd rfl hm
  all_goals cases hs

theorem runLeave (h : Position chunk u x) {c : Coordinator} (hs : x.staff = .running c [])
    (hx : c.stage = .exited) :
    Position chunk u { x with staff := .absent, outs := [] } ∧
      Dialogue.load chunk.toNat u { x with staff := .absent, outs := [] } + 1 <
        x.load chunk.toNat u := by
  cases h
  case concluded ht todo hq staff outs hw =>
    cases hw with
    | gone => cases hs
    | lingers hid hl =>
      refine ⟨.concluded ht hq .gone, ?_⟩
      simp [Dialogue.load, Staff.load, empties, Channel.posts]
      omega
  case returned ins hins staff outs hw =>
    cases hw with
    | gone => cases hs
    | lingers hid hl =>
      refine ⟨.returned hins .gone, ?_⟩
      simp [Dialogue.load, Staff.load, empties, Channel.posts]
      omega
  case asking => simp at hs
  case concluding => simp at hs
  -- Any other coordinator is at work.
  case asked hc _ => cases hs; exact absurd hx hc.ne_exited
  case answering hc _ => cases hs; exact absurd hx hc.ne_exited
  case responded hc _ => cases hs; exact absurd hx hc.ne_exited
  all_goals first
    | cases hs; done
    | rename_i hw
      cases hw <;> cases hs
      next hc _ => exact absurd hx hc.ne_exited

/-! ### Turns -/

/-- The uploader reads the range that it is asked for and sends its bytes. -/
theorem answer_range {id : String} {n asked : ℕ} {r : ByteRange} {t : Transfer} (hid : t.At id n)
    {c : Coordinator} (hcoord : c.Awaiting id chunk u.source.length.toNat n r)
    (hasked : asked + rangeCount chunk.toNat (u.source.length.toNat - n) =
      rangeCount chunk.toNat u.source.length.toNat + 1)
    (hc : chunk ≠ 0) {d : Disk} (hu : u.Fit d) {accepts : Channel → Bool}
    (ha : accepts (.response t.session) = true) (now : ℕ) :
    ∃ stage todo,
      { u with stage := .transferring t }.step accepts now d (.request (rangeMessage id r)) =
        ({ u with stage }, todo) ∧
      Ahead chunk u
        { stage := .transferring t
          ins := [(.request id, [rangeMessage id r]), (.done id, [])]
          staff := .running c []
          outs := empties (Channel.posts id)
          session := some id
          asked }
        { stage
          todo
          ins := empties (Channel.listens id)
          staff := .running c []
          outs := empties (Channel.posts id)
          session := some id
          asked } := by
  have hcpos : 0 < chunk.toNat := Nat.pos_of_ne_zero fun e => hc (UInt64.toNat_inj.1 e)
  have hwidth := hcoord.width
  have hlt := hcoord.lt
  have hoffset := hcoord.offset
  have hfit : { u with stage := .transferring t }.Fit d := ⟨hu.name, hu.file⟩
  obtain ⟨t', data, lines, hsession, hcancelled, hsent, hdata, hlines, hstep⟩ :=
    Uploader.step_request rfl hid.open_ hfit
      (show r.offset.toNat + r.size.toNat ≤ u.source.length.toNat by omega) ha now
  rw [hid.session] at hsession hstep
  have hsum : (r.offset + r.size).toNat = n + r.size.toNat := by
    have := u.source.length.toNat_lt
    rw [UInt64.toNat_add, hoffset, Nat.mod_eq_of_lt (by omega)]
  have hat : t'.At id (n + r.size.toNat) := by
    refine ⟨hsession, hcancelled, ?_⟩
    rw [hsent, Uploader.toNat_max, hid.sent, hsum]
    omega
  have hranges := rangeCount_sub hcpos (show 0 < u.source.length.toNat - n by omega)
  rw [← hwidth, Nat.sub_sub] at hranges
  have hquiet : ∀ a ∈ logs lines, a.isQuiet := by
    intro a ha
    obtain ⟨line, -, rfl⟩ := List.mem_map.1 ha
    trivial
  refine ⟨_, _, hstep, answering hat hquiet hdata hcoord (by omega), ?_⟩
  simp only [Dialogue.load, Uploader.load, Action.load, Channel.load, hid.sent, hat.sent, loads_cons,
    loads_nil, loads_logs, boxesLoad_cons, boxesLoad_nil, Channel.listens, empties, List.map_cons,
    List.map_nil, List.length_cons, List.length_nil]
  omega

/-- The uploader takes an event. -/
theorem uploadTurn (h : Position chunk u x) (ht : x.todo = []) {e : UploadEvent}
    {ins : List (Channel × List Message)} (he : x.UploadHears u e ins) (hc : chunk ≠ 0) {d : Disk}
    (hu : u.Fit d) {accepts : Channel → Bool}
    (hcreate : x.calls = [] → accepts .create = true)
    (ha : ∀ c, (c, []) ∈ x.outs → accepts c = true) (now : ℕ) :
    ∃ stage todo, { u with stage := x.stage }.step accepts now d e = ({ u with stage }, todo) ∧
      x.Ahead chunk u { x with stage, todo, ins } := by
  cases h
  case waiting =>
    cases he
    case begin =>
      obtain ⟨deadline, hstep⟩ :=
        { u with stage := .waiting }.step_begin rfl (hcreate rfl) now d
      refine ⟨_, _, hstep, .calling, ?_⟩
      simp [Dialogue.load, Uploader.load, Action.load, Channel.load]
      omega
    all_goals contradiction
  case answered deadline id staff hw =>
    cases he
    case reply hs hm =>
      obtain ⟨rfl, rfl⟩ : _ ∧ _ := by simpa using hm
      obtain ⟨t, hid, hsent, hopen, hstep⟩ := { u with stage := .creating deadline }.step_reply rfl
        (ha (.start id) (by simp [empties, Channel.posts])) now d
      refine ⟨_, _, hstep, ?_, ?_⟩
      · simpa [pop, adjust] using greeting ⟨hid, hopen, by simp [hsent]⟩ hw
      · simp [Dialogue.load, Uploader.load, Action.load, Channel.load, pop, adjust, hsent]
    all_goals contradiction
  case asked id n asked r t hid todo hq c hcoord hasked =>
    cases he
    case request t' hs m q hm =>
      obtain rfl : t = t' := by simpa using hs
      obtain ⟨rfl, rfl⟩ : _ ∧ _ := by simpa [hid.session] using hm
      obtain rfl : todo = [] := ht
      have hopen : accepts (.response t.session) = true :=
        ha _ (by simp [empties, Channel.posts, hid.session])
      obtain ⟨stage, todo, hstep, hahead⟩ := answer_range hid hcoord hasked hc hu hopen now
      refine ⟨stage, todo, hstep, ?_⟩
      simpa [hid.session, pop, adjust, empties, Channel.listens] using hahead
    case done t' hs m q hm =>
      obtain rfl : t = t' := by simpa using hs
      simp [hid.session] at hm
    all_goals contradiction
  case concluded id t hid todo hq staff outs hw =>
    cases he
    case done t' hs m q hm =>
      obtain rfl : t = t' := by simpa using hs
      obtain ⟨rfl, rfl⟩ : _ ∧ _ := by simpa [hid.session] using hm
      obtain rfl : todo = [] := ht
      have hstep := { u with stage := .transferring t }.step_done rfl accepts now d
      rw [hid.session] at hstep
      have hlength : t.bytesSent = u.source.length := UInt64.toNat_inj.1 hid.sent
      refine ⟨_, _, hstep, ?_, ?_⟩
      · rw [hlength]
        simpa [hid.session, pop, adjust, empties, Channel.listens] using
          @returned chunk u id _ (.inl rfl) _ _ hw
      · simp [Dialogue.load, Uploader.load, Channel.load, pop, adjust, hid.session]
    case request t' hs m q hm =>
      obtain rfl : t = t' := by simpa using hs
      simp [hid.session] at hm
    all_goals contradiction
  case joining => simp at ht
  case returned hins _ _ hw => exact (he.ne_finished rfl).elim
  -- The uploader has not done everything, or there is nothing in its mailboxes.
  all_goals first
    | cases ht; done
    | obtain ⟨c, m, q, hm⟩ := he.exists_message (by simp)
      simp at hm

theorem of_next {id : String} {n asked : ℕ} {t : Transfer} (ht : t.At id n) {todo : List Action}
    (hq : ∀ a ∈ todo, a.isQuiet)
    (hasked : asked + rangeCount chunk.toNat (u.source.length.toNat - n) =
      rangeCount chunk.toNat u.source.length.toNat)
    {before : List Action} (hb : ∀ a ∈ before, a.isQuiet) {storage : Storage} {y : Coordinator.Turn}
    (h : Coordinator.Next id chunk u.source.length.toNat n storage before y) :
    y.storage.disk = storage.disk ∧
      Staff.load (.running y.coordinator y.actions) ≤ 4 + loads before ∧
      Position chunk u
        { stage := .transferring t
          todo
          ins := empties (Channel.listens id)
          staff := .running y.coordinator y.actions
          outs := empties (Channel.posts id)
          session := some id
          asked } := by
  cases h with
  | asks hc =>
    obtain ⟨deadline, hs⟩ := hc.pulling
    refine ⟨rfl, ?_, asking ht hq hb hc hasked⟩
    simp [Staff.load, hs, Stage.load, Action.load, Channel.load]
    omega
  | ends hn hd hid hl =>
    obtain ⟨expiry, hs⟩ := hl
    subst hn
    rw [Nat.sub_self, rangeCount_zero, Nat.add_zero] at hasked
    refine ⟨hd, ?_, ?_⟩
    · simp [Staff.load, hs, Stage.load, Action.load, Channel.load]
      omega
    · have hb' : ∀ a ∈ before ++ [.sink (.finalize true)], a.isQuiet := by
        intro a ha
        rcases List.mem_append.1 ha with ha | ha
        · exact hb a ha
        · obtain rfl : a = .sink (.finalize true) := by simpa using ha
          trivial
      have hp := @concluding chunk u id t ht todo _ hq hb' _ hid ⟨expiry, hs⟩
      rw [hasked]
      simpa using hp

/-- After the verdict a coordinator only waits for the end of its time. -/
theorem exits {id : String} (hw : Leaving id x.staff x.outs) {c : Coordinator}
    (hs : x.staff = .running c []) {e : Event} {outs : List (Channel × List Message)}
    (he : x.RunHears c e outs) (accepts : Channel → Bool) (now : ℕ) (storage : Storage) :
    outs = x.outs ∧ c.step accepts now storage e = ⟨{ c with stage := .exited }, storage, []⟩ ∧
      Leaving id (.running { c with stage := .exited } []) x.outs ∧
      Staff.load (.running { c with stage := .exited } []) < Staff.load (.running c []) := by
  rw [hs] at hw
  generalize hx : x.outs = boxes at hw
  cases hw with
  | lingers hid hl =>
    cases he with
    | start hm | response hm | cancel hm => simp [hx] at hm
    | grace hg =>
      refine ⟨hx, ?_, .lingers hid (.inl rfl), ?_⟩
      · unfold Coordinator.step
        rw [hg]
      · simp [Staff.load, hg, Stage.load]

/-- A coordinator that waits for the start of its session. -/
theorem hears_start {id : String} {c : Coordinator} (hid : c.session.id = id)
    (hs : ∃ deadline, c.stage = .pulling deadline) {m : Message}
    (hx : x.outs = [(.start id, [m]), (.response id, []), (.cancel id, [])]) {e : Event}
    {outs : List (Channel × List Message)} (he : x.RunHears c e outs) :
    e = .start m ∧ outs = empties (Channel.posts id) := by
  subst hid
  cases he with
  | start hm =>
    obtain ⟨rfl, rfl⟩ : _ ∧ _ := by simpa [hx] using hm
    exact ⟨rfl, by simp [hx, pop, adjust, empties, Channel.posts]⟩
  | response hm | cancel hm => simp [hx] at hm
  | grace hg =>
    obtain ⟨deadline, hs⟩ := hs
    rw [hg] at hs
    cases hs

/-- A coordinator that waits for bytes. -/
theorem hears_response {id : String} {c : Coordinator} (hid : c.session.id = id)
    (hs : ∃ deadline, c.stage = .pulling deadline) {m : Message}
    (hx : x.outs = [(.start id, []), (.response id, [m]), (.cancel id, [])]) {e : Event}
    {outs : List (Channel × List Message)} (he : x.RunHears c e outs) :
    e = .response m ∧ outs = empties (Channel.posts id) := by
  subst hid
  cases he with
  | response hm =>
    obtain ⟨rfl, rfl⟩ : _ ∧ _ := by simpa [hx] using hm
    exact ⟨rfl, by simp [hx, pop, adjust, empties, Channel.posts]⟩
  | start hm | cancel hm => simp [hx] at hm
  | grace hg =>
    obtain ⟨deadline, hs⟩ := hs
    rw [hg] at hs
    cases hs

/-- The coordinator takes an event. -/
theorem runTurn (h : Position chunk u x) {c : Coordinator} (hs : x.staff = .running c []) {e : Event}
    {outs : List (Channel × List Message)} (he : x.RunHears c e outs) (hc : chunk ≠ 0)
    {accepts : Channel → Bool} (ha : ∀ c, (c, []) ∈ x.ins → accepts c = true) (now : ℕ)
    (storage : Storage) :
    (c.step accepts now storage e).storage.disk = storage.disk ∧
      x.Ahead chunk u { x with
        staff := .running (c.step accepts now storage e).coordinator
          (c.step accepts now storage e).actions
        outs } := by
  cases h
  case started id t ht staff hw =>
    cases hw <;> cases hs
    next hserving hphase =>
    obtain ⟨rfl, rfl⟩ := hears_start hserving.id_eq hserving.pulling rfl he
    have hnext := hserving.start hc hphase (ha _ (by simp [empties, Channel.listens]))
      (ha _ (by simp [empties, Channel.listens])) now storage (.signal id .start)
    have hasked : 0 + rangeCount chunk.toNat (u.source.length.toNat - 0) =
        rangeCount chunk.toNat u.source.length.toNat := Nat.zero_add _
    obtain ⟨hdisk, hload, hp⟩ :=
      of_next ht (List.forall_mem_nil _) hasked (List.forall_mem_nil _) hnext
    obtain ⟨deadline, hstage⟩ := hserving.pulling
    refine ⟨hdisk, hp, ?_⟩
    simp [Dialogue.load, Staff.load, hstage, Stage.load, Channel.load, empties, Channel.posts]
      at hload ⊢
    omega
  case responded id n asked r t ht todo hq data hdata c' hcoord hasked =>
    cases hs
    obtain ⟨rfl, rfl⟩ := hears_response hcoord.id_eq hcoord.pulling rfl he
    have hnext := hcoord.response hc hdata (ha _ (by simp [empties, Channel.listens]))
      (ha _ (by simp [empties, Channel.listens])) now storage
    have hb : ∀ a ∈ [Action.sink (.accept r.offset data)], a.isQuiet := by
      intro a ha
      obtain rfl : a = .sink (.accept r.offset data) := by simpa using ha
      trivial
    obtain ⟨hdisk, hload, hp⟩ := of_next ht hq hasked hb hnext
    obtain ⟨deadline, hstage⟩ := hcoord.pulling
    refine ⟨hdisk, hp, ?_⟩
    simp [Dialogue.load, Staff.load, hstage, Stage.load, Channel.load, empties, Channel.posts,
      Action.load] at hload ⊢
    omega
  case concluded id t ht todo hq staff outs' hw =>
    obtain ⟨rfl, hstep, hw', hlt⟩ := exits hw hs he accepts now storage
    obtain rfl : staff = .running c [] := hs
    rw [hstep]
    exact ⟨rfl, .concluded ht hq hw', by simp only [Dialogue.load]; omega⟩
  case returned id ins hins staff outs' hw =>
    obtain ⟨rfl, hstep, hw', hlt⟩ := exits hw hs he accepts now storage
    obtain rfl : staff = .running c [] := hs
    rw [hstep]
    exact ⟨rfl, .returned hins hw', by simp only [Dialogue.load]; omega⟩
  case asking => simp at hs
  case concluding => simp at hs
  -- There is nothing in the mailboxes of any other coordinator.
  case answered hw =>
    cases hw <;> cases hs
    next hserving _ => exact absurd rfl (he.ne_empties hserving.pulling _)
  case greeting hw =>
    cases hw <;> cases hs
    next hserving _ => exact absurd rfl (he.ne_empties hserving.pulling _)
  case joining hw =>
    cases hw <;> cases hs
    next hserving _ => exact absurd rfl (he.ne_empties hserving.pulling _)
  case asked hcoord _ =>
    cases hs
    exact absurd rfl (he.ne_empties hcoord.pulling _)
  case answering hcoord _ =>
    cases hs
    exact absurd rfl (he.ne_empties hcoord.pulling _)
  all_goals cases hs

/-- The first action of a call is to the create channel. -/
theorem uploadCall (h : Position chunk u x) {m : Message} (ht : x.todo = .publish .create m :: rest) :
    m = u.createRequest ∧ x.calls = [] ∧
      x.Ahead chunk u { x with todo := rest, calls := [m] } := by
  have hquiet : ∀ {todo : List Action}, (∀ a ∈ todo, a.isQuiet) → todo ≠ .publish .create m :: rest := by
    rintro todo hq rfl
    exact hq _ List.mem_cons_self
  cases h
  case dialled =>
    obtain ⟨rfl, rfl⟩ : _ ∧ _ := by simpa using ht.symm
    refine ⟨rfl, rfl, .called, ?_⟩
    simp [Dialogue.load, Action.load]
    omega
  case joining id before after hcs t hid staff hw => cases after <;> simp at ht
  case asking hq _ _ _ _ => exact absurd ht (hquiet hq)
  case asked hq _ _ _ => exact absurd ht (hquiet hq)
  case responded hq _ _ _ _ _ => exact absurd ht (hquiet hq)
  case concluding hq _ _ _ _ => exact absurd ht (hquiet hq)
  case concluded hq _ _ _ => exact absurd ht (hquiet hq)
  all_goals simp at ht

end Position

end PullIngest
