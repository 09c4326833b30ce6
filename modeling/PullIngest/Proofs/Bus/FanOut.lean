import Mathlib.Algebra.Ring.Nat
import PullIngest.Proofs.Bus.View

/-!
# Fan-out

A bus under any history of subscriptions, messages, receptions and dropped subscriptions. Clones of
a bus share its table, so a history does not say through which of them an operation came.

* `Bus.Tidy`: what holds behind every history (`tidy_run`);
* `listeners`: the live subscribers of a channel, read off the history (`subscribers_run`);
* `heard`, `received`: what came to a mailbox and what has been taken out of it (`mailbox_run`);
* `FansOut`, `fans_out`: what subscribers and publishers may rely on.
-/

namespace PullIngest.Bus

variable {α : Type} {b : Bus α} {channel : String} {n : ℕ} {m : α}

/-! ### What holds behind every history -/

/-- A bus with its numbers in order: every mailbox listens on one channel, once, and is never
overfull. -/
structure Tidy (b : Bus α) : Prop extends b.Wired where
  nodup : ∀ channel, (b.listed channel).Nodup
  unread_lt : ∀ n q, b.unread? n = some q → n < b.nextMailbox
  bounded : ∀ n q, b.unread? n = some q → q.length ≤ capacity

theorem tidy_empty : ({} : Bus α).Tidy where
  toWired := wired_empty
  nodup _ := List.nodup_nil
  unread_lt _ _ h := by cases h
  bounded _ _ h := by cases h

theorem unread?_subscribe (b : Bus α) (channel : String) (k : ℕ) :
    (b.subscribe channel).2.unread? k = if b.nextMailbox = k then some [] else b.unread? k :=
  Table.get?_set ..

theorem unread?_unsubscribe (b : Bus α) (n k : ℕ) :
    (b.unsubscribe n).unread? k = if n = k then none else b.unread? k :=
  Table.get?_erase ..

/-- Taking a message out of a mailbox. -/
theorem unread?_receive (b : Bus α) (n k : ℕ) :
    (b.receive n).2.unread? k = if n = k then (b.unread? k).map List.tail else b.unread? k := by
  unfold receive
  cases hn : b.unread? n with
  | none =>
    by_cases hk : n = k
    · subst hk
      simp [hn]
    · simp [hk]
  | some queue =>
    cases queue with
    | nil =>
      by_cases hk : n = k
      · subst hk
        simp [hn]
      · simp [hk]
    | cons m queue =>
      by_cases hk : n = k
      · subst hk
        rw [if_pos rfl, hn]
        exact Table.get?_set_self _ _ _
      · rw [if_neg hk]
        exact Table.get?_set_ne _ hk _

theorem channels_receive (b : Bus α) (n : ℕ) : (b.receive n).2.channels = b.channels := by
  unfold receive
  split <;> rfl

theorem nextMailbox_receive (b : Bus α) (n : ℕ) :
    (b.receive n).2.nextMailbox = b.nextMailbox := by
  unfold receive
  split <;> rfl

theorem length_pushed_le {q : List α} (h : q.length ≤ capacity) (m : α) :
    (pushed m q).length ≤ capacity := by
  unfold pushed
  split_ifs with hq
  · rw [List.length_append, List.length_singleton]
    omega
  · exact h

namespace Tidy

theorem subscribe (hb : b.Tidy) (channel : String) : (b.subscribe channel).2.Tidy where
  toWired := hb.toWired.subscribe channel
  nodup c := by
    rw [listed_subscribe]
    split_ifs with hc
    · have hnew : b.nextMailbox ∉ b.listed channel := fun h =>
        Nat.lt_irrefl _ (hb.listed_lt channel _ h)
      exact (hb.nodup channel).append (List.nodup_singleton _) (by simpa using hnew)
    · exact hb.nodup c
  unread_lt k q h := by
    show k < b.nextMailbox + 1
    rw [unread?_subscribe] at h
    split_ifs at h with hk
    · omega
    · exact Nat.lt_succ_of_lt (hb.unread_lt k q h)
  bounded k q h := by
    rw [unread?_subscribe] at h
    split_ifs at h with hk
    · obtain rfl : [] = q := Option.some.inj h
      exact Nat.zero_le _
    · exact hb.bounded k q h

theorem unread?_publish (hb : b.Tidy) (channel : String) (m : α) (k : ℕ) :
    (b.publish channel m).unread? k =
      if k ∈ b.subscribers channel then (b.unread? k).map (pushed m) else b.unread? k :=
  Bus.unread?_publish ((hb.nodup channel).filter _) m k

theorem publish (hb : b.Tidy) (channel : String) (m : α) : (b.publish channel m).Tidy := by
  have hold : ∀ k q, (b.publish channel m).unread? k = some q →
      ∃ q', b.unread? k = some q' ∧ (q = q' ∨ q = pushed m q') := by
    intro k q h
    rw [hb.unread?_publish] at h
    split_ifs at h with hk
    · obtain ⟨q', hq', rfl⟩ := Option.map_eq_some_iff.1 h
      exact ⟨q', hq', .inr rfl⟩
    · exact ⟨q, h, .inl rfl⟩
  constructor
  · exact hb.toWired.publish channel m
  · intro c
    rw [listed_publish]
    split_ifs
    · exact (hb.nodup channel).filter _
    · exact hb.nodup c
  · intro k q h
    obtain ⟨q', hq', -⟩ := hold k q h
    rw [nextMailbox_publish]
    exact hb.unread_lt k q' hq'
  · intro k q h
    obtain ⟨q', hq', rfl | rfl⟩ := hold k q h
    · exact hb.bounded k _ hq'
    · exact length_pushed_le (hb.bounded k q' hq') m

theorem receive (hb : b.Tidy) (n : ℕ) : (b.receive n).2.Tidy := by
  have hlisted : (b.receive n).2.listed = b.listed := by
    unfold listed
    rw [channels_receive]
  have hnext := nextMailbox_receive b n
  have hold : ∀ k q, (b.receive n).2.unread? k = some q →
      ∃ q', b.unread? k = some q' ∧ q.length ≤ q'.length := by
    intro k q h
    rw [unread?_receive] at h
    split_ifs at h with hk
    · obtain ⟨q', hq', rfl⟩ := Option.map_eq_some_iff.1 h
      exact ⟨q', hq', by simp⟩
    · exact ⟨q, h, Nat.le_refl _⟩
  constructor
  · exact hb.toWired.of_listed hlisted hnext
  · intro c
    rw [hlisted]
    exact hb.nodup c
  · intro k q h
    obtain ⟨q', hq', -⟩ := hold k q h
    rw [hnext]
    exact hb.unread_lt k q' hq'
  · intro k q h
    obtain ⟨q', hq', hle⟩ := hold k q h
    exact Nat.le_trans hle (hb.bounded k q' hq')

theorem unsubscribe (hb : b.Tidy) (n : ℕ) : (b.unsubscribe n).Tidy := by
  have hold : ∀ k q, (b.unsubscribe n).unread? k = some q → b.unread? k = some q := by
    intro k q h
    rw [unread?_unsubscribe] at h
    split_ifs at h
    exact h
  exact { toWired := hb.toWired.unsubscribe n
          nodup := hb.nodup
          unread_lt := fun k q h => hb.unread_lt k q (hold k q h)
          bounded := fun k q h => hb.bounded k q (hold k q h) }

end Tidy

/-! ### Histories -/

/-- An operation on a bus. Mailboxes are known by their numbers. -/
inductive Op (α : Type) where
  | subscribe (channel : String)
  | publish (channel : String) (m : α)
  | receive (mailbox : ℕ)
  | drop (mailbox : ℕ)

/-- The bus after an operation. -/
def apply (b : Bus α) : Op α → Bus α
  | .subscribe channel => (b.subscribe channel).2
  | .publish channel m => b.publish channel m
  | .receive mailbox => (b.receive mailbox).2
  | .drop mailbox => b.unsubscribe mailbox

/-- The bus after several operations. -/
def applyAll (b : Bus α) (ops : List (Op α)) : Bus α := ops.foldl apply b

/-- A new bus after a history. -/
def run (ops : List (Op α)) : Bus α := ({} : Bus α).applyAll ops

/-- What publishing on a channel returns. -/
def answer (b : Bus α) (channel : String) : Except BusError Unit :=
  if b.accepts channel then .ok () else .error (.full channel)

/-- Whether the operation drops a mailbox. -/
def Op.drops (n : ℕ) : Op α → Bool
  | .drop mailbox => mailbox = n
  | _ => false

/-- The number of mailboxes that the operation opens. -/
def Op.opens : Op α → ℕ
  | .subscribe _ => 1
  | _ => 0

/-- The number of mailboxes that a history opens. They are numbered in their order. -/
def opened (ops : List (Op α)) : ℕ := (ops.map Op.opens).sum

/-- The mailboxes that are opened on a channel and not dropped again, when the next one to be opened
has the number `next`. -/
def listenersFrom (channel : String) (next : ℕ) : List (Op α) → List ℕ
  | [] => []
  | .subscribe c :: ops =>
    (if c = channel ∧ ops.any (Op.drops next) = false then [next] else []) ++
      listenersFrom channel (next + 1) ops
  | _ :: ops => listenersFrom channel next ops

/-- The mailboxes that listen on a channel after a history, in the order in which they were
opened. -/
def listeners (channel : String) (ops : List (Op α)) : List ℕ := listenersFrom channel 0 ops

/-- The message that an operation brings to a mailbox of a channel: one that is published on the
channel while the mailbox holds fewer than it can. -/
def Op.brings (b : Bus α) (channel : String) (n : ℕ) : Op α → List α
  | .publish c m =>
    if c = channel ∧ (b.unread? n).any (fun q => q.length < capacity) = true then [m] else []
  | _ => []

/-- The message that an operation takes out of a mailbox. -/
def Op.takes (b : Bus α) (n : ℕ) : Op α → List α
  | .receive k =>
    if k = n then
      match (b.receive k).1 with
      | .message m => [m]
      | _ => []
    else []
  | _ => []

/-- The messages that come to a mailbox in a history. -/
def heard (channel : String) (n : ℕ) (b : Bus α) : List (Op α) → List α
  | [] => []
  | op :: ops => op.brings b channel n ++ heard channel n (b.apply op) ops

/-- The messages that are taken out of a mailbox in a history. -/
def received (n : ℕ) (b : Bus α) : List (Op α) → List α
  | [] => []
  | op :: ops => op.takes b n ++ received n (b.apply op) ops

theorem Tidy.apply (hb : b.Tidy) (op : Op α) : (b.apply op).Tidy := by
  cases op with
  | subscribe c => exact hb.subscribe c
  | publish c m => exact hb.publish c m
  | receive k => exact hb.receive k
  | drop k => exact hb.unsubscribe k

theorem Tidy.applyAll (hb : b.Tidy) (ops : List (Op α)) : (b.applyAll ops).Tidy := by
  induction ops generalizing b with
  | nil => exact hb
  | cons op ops ih => exact ih (hb.apply op)

theorem tidy_run (ops : List (Op α)) : (run ops).Tidy := tidy_empty.applyAll ops

theorem applyAll_cons (b : Bus α) (op : Op α) (ops : List (Op α)) :
    b.applyAll (op :: ops) = (b.apply op).applyAll ops := rfl

/-! ### Subscribers -/

theorem nextMailbox_apply (b : Bus α) (op : Op α) :
    (b.apply op).nextMailbox = b.nextMailbox + op.opens := by
  cases op with
  | subscribe c => rfl
  | publish c m => exact nextMailbox_publish b c m
  | receive k => exact nextMailbox_receive b k
  | drop k => rfl

theorem nextMailbox_run (ops : List (Op α)) : (run ops).nextMailbox = opened ops := by
  have h : ∀ b : Bus α, (b.applyAll ops).nextMailbox = b.nextMailbox + opened ops := by
    induction ops with
    | nil => exact fun b => rfl
    | cons op ops ih =>
      intro b
      rw [applyAll_cons, ih, nextMailbox_apply]
      simp [opened, Nat.add_assoc]
  unfold run
  rw [h]
  exact Nat.zero_add _

/-- What an operation does to the live subscribers of a channel. -/
theorem subscribers_apply (hb : b.Tidy) (op : Op α) (channel : String) :
    (b.apply op).subscribers channel =
      (b.subscribers channel).filter (fun n => !op.drops n) ++
        match op with
        | .subscribe c => if c = channel then [b.nextMailbox] else []
        | _ => [] := by
  have hkeep : ∀ ns : List ℕ, ns.filter (fun _ => !false) = ns := fun ns => by simp
  have hlisted : ∀ (b : Bus α) c, b.subscribers c = (b.listed c).filter b.isLive := fun _ _ => rfl
  cases op with
  | subscribe c =>
    have hlive : ∀ n ∈ b.listed channel, (b.subscribe c).2.isLive n = b.isLive n := by
      intro n hn
      have hlt := hb.listed_lt channel n hn
      rw [isLive_eq, isLive_eq, unread?_subscribe, if_neg (by omega)]
    have hnew : (b.subscribe c).2.isLive b.nextMailbox = true := by
      rw [isLive_eq, unread?_subscribe, if_pos rfl]
      rfl
    simp only [apply, Op.drops]
    rw [hkeep, hlisted, hlisted, listed_subscribe]
    split_ifs with hc
    · subst hc
      rw [List.filter_append, List.filter_congr hlive]
      simp [hnew]
    · rw [List.filter_congr hlive, List.append_nil]
  | publish c m =>
    have hlive : ∀ n, (b.publish c m).isLive n = b.isLive n := by
      intro n
      rw [isLive_eq, isLive_eq, hb.unread?_publish]
      split_ifs <;> simp
    simp only [apply, Op.drops]
    rw [hkeep, hlisted, hlisted, listed_publish, List.append_nil,
      List.filter_congr fun n _ => hlive n]
    split_ifs with hc
    · subst hc
      rw [hlisted, List.filter_filter]
      simp
    · rfl
  | receive k =>
    have hlive : ∀ n, (b.receive k).2.isLive n = b.isLive n := by
      intro n
      rw [isLive_eq, isLive_eq, unread?_receive]
      split_ifs <;> simp
    simp only [apply, Op.drops]
    rw [hkeep, hlisted, hlisted, List.append_nil, List.filter_congr fun n _ => hlive n]
    unfold listed
    rw [channels_receive]
  | drop k =>
    have hlive : ∀ n, (b.unsubscribe k).isLive n = (b.isLive n && !decide (k = n)) := by
      intro n
      rw [isLive_eq, isLive_eq, unread?_unsubscribe]
      split_ifs with hk <;> simp [hk]
    simp only [apply, Op.drops]
    rw [hlisted, hlisted, List.append_nil, List.filter_filter,
      List.filter_congr fun n _ => hlive n]
    exact List.filter_congr fun n _ => Bool.and_comm _ _

/-- The table and the mailboxes together know who listens. -/
theorem subscribers_applyAll (hb : b.Tidy) (ops : List (Op α)) (channel : String) :
    (b.applyAll ops).subscribers channel =
      (b.subscribers channel).filter (fun n => !ops.any (Op.drops n)) ++
        listenersFrom channel b.nextMailbox ops := by
  induction ops generalizing b with
  | nil => simp [applyAll, listenersFrom]
  | cons op ops ih =>
    rw [applyAll_cons, ih (hb.apply op), subscribers_apply hb, nextMailbox_apply,
      List.filter_append, List.filter_filter, List.append_assoc]
    have hold : ∀ n, (!(op :: ops).any (Op.drops n)) = (!ops.any (Op.drops n) && !op.drops n) := by
      intro n
      rw [List.any_cons, Bool.not_or, Bool.and_comm]
    rw [List.filter_congr fun n _ => hold n]
    congr 1
    cases op with
    | subscribe c =>
      simp only [listenersFrom, Op.opens]
      congr 1
      by_cases hc : c = channel
      · cases hd : ops.any (Op.drops b.nextMailbox) <;> simp [hc, hd]
      · simp [hc]
    | _ => simp [listenersFrom, Op.opens]

theorem subscribers_run (ops : List (Op α)) (channel : String) :
    (run ops).subscribers channel = listeners channel ops := by
  have h := subscribers_applyAll tidy_empty ops channel
  simpa [run, listeners, subscribers] using h

/-! ### Mailboxes -/

/-- What an operation that does not drop a mailbox brings to it comes last, and what it takes out of
it was first. -/
theorem unread?_apply (hb : b.Tidy) (hn : n ∈ b.subscribers channel) {q : List α}
    (hq : b.unread? n = some q) {op : Op α} (hop : op.drops n = false) :
    ∃ q', (b.apply op).unread? n = some q' ∧
      q ++ op.brings b channel n = op.takes b n ++ q' := by
  have hlt := hb.unread_lt n q hq
  cases op with
  | subscribe c =>
    refine ⟨q, ?_, List.append_nil q⟩
    show (b.subscribe c).2.unread? n = _
    rw [unread?_subscribe, if_neg (by omega), hq]
  | publish c m =>
    have hlisted := (mem_subscribers.1 hn).1
    have hmem : n ∈ b.subscribers c ↔ c = channel := by
      constructor
      · intro h
        exact hb.unique c channel n (mem_subscribers.1 h).1 hlisted
      · rintro rfl
        exact hn
    simp only [apply, Op.brings, Op.takes, List.nil_append]
    rw [hb.unread?_publish, hq]
    by_cases hc : c = channel
    · rw [if_pos (hmem.2 hc)]
      refine ⟨pushed m q, rfl, ?_⟩
      unfold pushed
      by_cases hroom : q.length < capacity
      · simp [hc, hroom]
      · simp [hroom]
    · rw [if_neg fun h => hc (hmem.1 h)]
      exact ⟨q, rfl, by simp [hc]⟩
  | receive k =>
    simp only [apply, Op.brings, Op.takes, List.append_nil]
    rw [unread?_receive, hq]
    by_cases hk : k = n
    · subst hk
      refine ⟨q.tail, by simp, ?_⟩
      unfold receive
      rw [hq]
      cases q with
      | nil => cases b.isOpen <;> simp
      | cons m q => simp
    · exact ⟨q, by simp [hk], by simp [hk]⟩
  | drop k =>
    have hk : k ≠ n := by simpa [Op.drops] using hop
    refine ⟨q, ?_, List.append_nil q⟩
    show (b.unsubscribe k).unread? n = _
    rw [unread?_unsubscribe, if_neg hk, hq]

/-- A mailbox that is dropped is gone. -/
theorem unread?_apply_of_drops {op : Op α} (hop : op.drops n = true) :
    (b.apply op).unread? n = none := by
  cases op with
  | drop k =>
    have hk : k = n := by simpa [Op.drops] using hop
    show (b.unsubscribe k).unread? n = none
    rw [unread?_unsubscribe, if_pos hk]
  | _ => cases hop

theorem lt_nextMailbox_apply (hlt : n < b.nextMailbox) (op : Op α) :
    n < (b.apply op).nextMailbox := by
  rw [nextMailbox_apply]
  omega

/-- Numbers are given out once: a mailbox that is gone does not come again. -/
theorem unread?_applyAll_none (hlt : n < b.nextMailbox) (hn : b.unread? n = none) (hb : b.Tidy)
    (ops : List (Op α)) : (b.applyAll ops).unread? n = none := by
  induction ops generalizing b with
  | nil => exact hn
  | cons op ops ih =>
    refine ih (lt_nextMailbox_apply hlt op) ?_ (hb.apply op)
    cases op with
    | subscribe c =>
      show (b.subscribe c).2.unread? n = none
      rw [unread?_subscribe, if_neg (by omega), hn]
    | publish c m =>
      show (b.publish c m).unread? n = none
      rw [hb.unread?_publish, hn]
      simp
    | receive k =>
      show (b.receive k).2.unread? n = none
      rw [unread?_receive, hn]
      simp
    | drop k =>
      show (b.unsubscribe k).unread? n = none
      rw [unread?_unsubscribe, hn]
      simp

/-- A mailbox is a queue: it holds what came to it and has not been taken out, until it is
dropped. -/
theorem unread?_applyAll (hb : b.Tidy) (hn : n ∈ b.subscribers channel) {q : List α}
    (hq : b.unread? n = some q) (ops : List (Op α)) :
    if ops.any (Op.drops n) = true then (b.applyAll ops).unread? n = none
    else ∃ q', (b.applyAll ops).unread? n = some q' ∧
      q ++ heard channel n b ops = received n b ops ++ q' := by
  induction ops generalizing b q with
  | nil => exact ⟨q, hq, List.append_nil q⟩
  | cons op ops ih =>
    rw [List.any_cons, applyAll_cons]
    cases hop : op.drops n with
    | true =>
      exact unread?_applyAll_none (lt_nextMailbox_apply (hb.unread_lt n q hq) op)
        (unread?_apply_of_drops hop) (hb.apply op) ops
    | false =>
      obtain ⟨q', hq', hstep⟩ := unread?_apply hb hn hq hop
      have hn' : n ∈ (b.apply op).subscribers channel := by
        rw [subscribers_apply hb]
        exact List.mem_append_left _ (List.mem_filter.2 ⟨hn, by simp [hop]⟩)
      have hrest := ih (hb.apply op) hn' hq'
      rw [Bool.false_or]
      by_cases hd : ops.any (Op.drops n) = true
      · rw [if_pos hd] at hrest ⊢
        exact hrest
      · rw [if_neg hd] at hrest ⊢
        obtain ⟨q'', hq'', heq⟩ := hrest
        refine ⟨q'', hq'', ?_⟩
        calc q ++ (op.brings b channel n ++ heard channel n (b.apply op) ops)
            = (q ++ op.brings b channel n) ++ heard channel n (b.apply op) ops :=
              (List.append_assoc ..).symm
          _ = op.takes b n ++ (q' ++ heard channel n (b.apply op) ops) := by
              rw [hstep, List.append_assoc]
          _ = (op.takes b n ++ received n (b.apply op) ops) ++ q'' := by
              rw [heq, List.append_assoc]

/-- A history goes on behind a subscription. -/
theorem run_append_subscribe (before : List (Op α)) (channel : String) (after : List (Op α)) :
    run (before ++ .subscribe channel :: after) =
      (run (before ++ [.subscribe channel])).applyAll after := by
  unfold run applyAll
  rw [← List.foldl_append, List.append_assoc]
  rfl

/-- A subscription opens an empty mailbox that listens on its channel. -/
theorem opens_run (before : List (Op α)) (channel : String) :
    opened before ∈ (run (before ++ [.subscribe channel])).subscribers channel ∧
      (run (before ++ [.subscribe channel])).unread? (opened before) = some [] := by
  have hstart : run (before ++ [.subscribe channel]) = ((run before).subscribe channel).2 := by
    unfold run applyAll
    rw [List.foldl_append]
    rfl
  have hnew : (run (before ++ [.subscribe channel])).unread? (opened before) = some [] := by
    rw [hstart, unread?_subscribe, nextMailbox_run, if_pos rfl]
  refine ⟨mem_subscribers.2 ⟨?_, by rw [hnew]; rfl⟩, hnew⟩
  rw [hstart, listed_subscribe, if_pos rfl, nextMailbox_run]
  exact List.mem_append_right _ (List.mem_singleton_self _)

/-! ### What may be relied on -/

theorem isFull_iff (hb : b.Tidy) : b.isFull n = true ↔
    ∃ q, b.unread? n = some q ∧ q.length = capacity := by
  unfold isFull
  cases hn : b.unread? n with
  | none => simp
  | some q =>
    have hle := hb.bounded n q hn
    constructor
    · intro h
      exact ⟨q, rfl, Nat.le_antisymm hle (of_decide_eq_true h)⟩
    · rintro ⟨q', hq', hlen⟩
      obtain rfl : q = q' := Option.some.inj hq'
      exact decide_eq_true (Nat.le_of_eq hlen.symm)

theorem accepts_eq_false : b.accepts channel = false ↔
    b.subscribers channel ≠ [] ∧ ∀ n ∈ b.subscribers channel, b.isFull n = true := by
  unfold accepts
  simp [List.isEmpty_eq_false_iff]

/-- What subscribers and publishers may rely on behind a history. -/
structure FansOut (ops : List (Op α)) : Prop where
  /-- A mailbox that has not been dropped holds exactly what came to it since it was opened and has
  not been taken out, in order, and never more than it can. -/
  mailbox : ∀ before channel after, ops = before ++ .subscribe channel :: after →
    if after.any (Op.drops (opened before)) = true then
      (run ops).unread? (opened before) = none
    else ∃ q, (run ops).unread? (opened before) = some q ∧ q.length ≤ capacity ∧
      heard channel (opened before) (run (before ++ [.subscribe channel])) after =
        received (opened before) (run (before ++ [.subscribe channel])) after ++ q
  /-- Publishing fails exactly if somebody listens and everybody who does is full. -/
  refuses : ∀ channel, (run ops).answer channel = .error (.full channel) ↔
    listeners channel ops ≠ [] ∧ ∀ n ∈ listeners channel ops,
      ∃ q, (run ops).unread? n = some q ∧ q.length = capacity
  /-- Publishing has no other error. -/
  succeeds : ∀ channel, (run ops).answer channel = .ok () ↔
    (run ops).answer channel ≠ .error (.full channel)
  /-- Publishing does not touch the subscribers and the mailboxes of another channel. -/
  elsewhere : ∀ channel m channel', channel' ≠ channel →
    ((run ops).publish channel m).channels.get? channel' = (run ops).channels.get? channel' ∧
    ∀ n ∈ listeners channel' ops, ((run ops).publish channel m).unread? n = (run ops).unread? n
  /-- Publishing leaves exactly the live subscribers of its channel in the table. -/
  entry : ∀ channel m, ((run ops).publish channel m).channels.get? channel =
    if listeners channel ops = [] then none else some (listeners channel ops)

/-- **Fan-out.** Under any history of subscriptions, messages, receptions and dropped subscriptions,
a bus hands every message to all who listen on its channel and have room for it. -/
theorem fans_out (ops : List (Op α)) : FansOut ops := by
  have hb := tidy_run ops
  constructor
  · intro before channel after hops
    subst hops
    obtain ⟨hmem, hnew⟩ := opens_run before channel
    have h := unread?_applyAll (tidy_run _) hmem hnew after
    rw [← run_append_subscribe] at h
    by_cases hd : after.any (Op.drops (opened before)) = true
    · rw [if_pos hd] at h ⊢
      exact h
    · rw [if_neg hd] at h ⊢
      obtain ⟨q, hq, heq⟩ := h
      exact ⟨q, hq, hb.bounded _ q hq, heq⟩
  · intro channel
    have hfull : (run ops).answer channel = .error (.full channel) ↔
        (run ops).accepts channel = false := by
      unfold answer
      split_ifs with h <;> simp [h]
    rw [hfull, accepts_eq_false, subscribers_run]
    exact and_congr Iff.rfl (forall_congr' fun n => imp_congr Iff.rfl (isFull_iff hb))
  · intro channel
    unfold answer
    split_ifs <;> simp
  · intro channel m channel' hne
    refine ⟨?_, fun n hn => ?_⟩
    · rw [get?_publish, if_neg hne.symm]
    · rw [← subscribers_run] at hn
      rw [hb.unread?_publish, if_neg]
      intro hn'
      exact hne (hb.unique _ _ n (mem_subscribers.1 hn).1 (mem_subscribers.1 hn').1)
  · intro channel m
    rw [get?_publish, if_pos rfl, subscribers_run]

end PullIngest.Bus
