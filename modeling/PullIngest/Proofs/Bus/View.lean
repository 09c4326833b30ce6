import Mathlib.Data.List.Nodup
import PullIngest.Bus
import PullIngest.Proofs.Wire.Channel

/-!
# What is unread on the channels of a bus

The mailboxes that listen on a channel, each with its unread messages. As long as a mailbox listens
on one channel only, an operation on one channel leaves all others alone.

* `Bus.unreadOn`: the mailboxes of a channel;
* `Bus.Wired`: every mailbox listens on one channel;
* `unread?_publish`, `listed_publish`: what a message does to the mailboxes and to the table,
  however many subscribers its channel has;
* `unreadOn_subscribe`, `unreadOn_publish`, `unreadOn_take`, `unreadOn_unsubscribe`: what the
  operations do on a channel with one mailbox, and nowhere else.
-/

namespace PullIngest.Bus

variable {α : Type} {b b' : Bus α} {channel : String} {n : ℕ} {m : α} {q : List α}

/-- The numbers in the table of a channel, those of mailboxes that are gone among them. -/
def listed (b : Bus α) (channel : String) : List ℕ := (b.channels.get? channel).getD []

/-- The mailboxes that listen on a channel, each with its unread messages. -/
def unreadOn (b : Bus α) (channel : String) : List (ℕ × List α) :=
  (b.listed channel).filterMap fun n => (b.unread? n).map (Prod.mk n)

/-- Every mailbox listens on one channel, and numbers are given out once. -/
structure Wired (b : Bus α) : Prop where
  listed_lt : ∀ channel n, n ∈ b.listed channel → n < b.nextMailbox
  unique : ∀ channel channel' n, n ∈ b.listed channel → n ∈ b.listed channel' → channel = channel'

theorem wired_empty : ({} : Bus α).Wired where
  listed_lt _ _ h := by cases h
  unique _ _ _ h := by cases h

/-! ### Looking -/

theorem mem_unreadOn {p : ℕ × List α} :
    p ∈ b.unreadOn channel ↔ p.1 ∈ b.listed channel ∧ b.unread? p.1 = some p.2 := by
  unfold unreadOn
  rw [List.mem_filterMap]
  constructor
  · rintro ⟨n, hn, h⟩
    obtain ⟨q, hq, rfl⟩ := Option.map_eq_some_iff.1 h
    exact ⟨hn, hq⟩
  · rintro ⟨hn, hq⟩
    exact ⟨p.1, hn, by rw [hq]; rfl⟩

theorem isLive_eq (b : Bus α) (n : ℕ) : b.isLive n = (b.unread? n).isSome := rfl

theorem subscribers_eq (b : Bus α) (channel : String) :
    b.subscribers channel = (b.unreadOn channel).map Prod.fst := by
  unfold subscribers unreadOn listed
  induction (b.channels.get? channel).getD [] with
  | nil => rfl
  | cons n ns ih =>
    cases h : b.unread? n with
    | none => simp [isLive_eq, h, ih]
    | some q => simp [isLive_eq, h, ih]

/-- A mailbox that is alone on its channel and is not full is not missed. -/
theorem accepts_of_unreadOn (h : b.unreadOn channel = [(n, q)]) (hq : q.length < capacity) :
    b.accepts channel = true := by
  obtain ⟨-, hunread⟩ := mem_unreadOn.1 (show (n, q) ∈ b.unreadOn channel by simp [h])
  have hroom : b.isFull n = false := by
    unfold isFull
    rw [hunread]
    simpa using hq
  unfold accepts
  rw [subscribers_eq, h]
  simp [hroom]

/-- Two buses with the same numbers on a channel and the same mailboxes behind them. -/
theorem unreadOn_congr (hl : b'.listed channel = b.listed channel)
    (hu : ∀ n ∈ b.listed channel, b'.unread? n = b.unread? n) :
    b'.unreadOn channel = b.unreadOn channel := by
  unfold unreadOn
  rw [hl]
  exact List.filterMap_congr fun n hn => by rw [hu n hn]

/-- Mailboxes of other channels are other mailboxes. -/
theorem Wired.ne (hb : b.Wired) (hn : n ∈ b.listed channel) {channel' : String} {n' : ℕ}
    (hn' : n' ∈ b.listed channel') (hne : channel' ≠ channel) : n ≠ n' := by
  rintro rfl
  exact hne (hb.unique _ _ _ hn' hn)

/-! ### Subscribing -/

theorem listed_subscribe (b : Bus α) (channel channel' : String) :
    (b.subscribe channel).2.listed channel' =
      if channel = channel' then b.listed channel ++ [b.nextMailbox] else b.listed channel' := by
  unfold listed subscribe
  dsimp only
  rw [Table.get?_set]
  split_ifs <;> rfl

theorem Wired.subscribe (hb : b.Wired) (channel : String) : (b.subscribe channel).2.Wired := by
  -- The new number is on no other channel.
  have hnew : ∀ c, b.nextMailbox ∉ b.listed c := fun c h => Nat.lt_irrefl _ (hb.listed_lt c _ h)
  have hmem : ∀ c n, n ∈ (b.subscribe channel).2.listed c →
      n ∈ b.listed c ∨ (c = channel ∧ n = b.nextMailbox) := by
    intro c n hn
    rw [listed_subscribe] at hn
    split_ifs at hn with hc
    · subst hc
      rcases List.mem_append.1 hn with hn | hn
      · exact .inl hn
      · exact .inr ⟨rfl, by simpa using hn⟩
    · exact .inl hn
  constructor
  · intro c n hn
    show n < b.nextMailbox + 1
    rcases hmem c n hn with hn | ⟨-, rfl⟩
    · have := hb.listed_lt c n hn
      omega
    · omega
  · intro c c' n hn hn'
    rcases hmem c n hn with hold | ⟨hc, hnext⟩ <;> rcases hmem c' n hn' with hold' | ⟨hc', hnext'⟩
    · exact hb.unique c c' n hold hold'
    · exact absurd (hnext' ▸ hold) (hnew c)
    · exact absurd (hnext ▸ hold') (hnew c')
    · rw [hc, hc']

theorem unreadOn_subscribe (hb : b.Wired) (channel : String) :
    (b.subscribe channel).2.unreadOn =
      Function.update b.unreadOn channel (b.unreadOn channel ++ [(b.nextMailbox, [])]) := by
  have hold : ∀ c, ∀ n ∈ b.listed c, (b.subscribe channel).2.unread? n = b.unread? n := by
    intro c n hn
    have hlt := hb.listed_lt c n hn
    exact Table.get?_set_ne _ (by omega) _
  have hnew : (b.subscribe channel).2.unread? b.nextMailbox = some [] := Table.get?_set_self _ _ _
  funext c
  by_cases hc : c = channel
  · subst hc
    rw [Function.update_self]
    unfold unreadOn
    rw [listed_subscribe, if_pos rfl, List.filterMap_append]
    congr 1
    · exact List.filterMap_congr fun n hn => by rw [hold c n hn]
    · simp [hnew]
  · rw [Function.update_of_ne hc]
    refine unreadOn_congr ?_ (hold c)
    rw [listed_subscribe, if_neg (Ne.symm hc)]

/-! ### Publishing -/

/-- The unread messages of a mailbox after a message. -/
def pushed (m : α) (queue : List α) : List α :=
  if queue.length < capacity then queue ++ [m] else queue

theorem unread?_deliver (b : Bus α) (m : α) (n k : ℕ) :
    (b.deliver m n).unread? k = if n = k then (b.unread? k).map (pushed m) else b.unread? k := by
  unfold deliver isFull
  cases hn : b.unread? n with
  | none =>
    -- The mailbox is gone, and delivering does nothing.
    have hget : b.mailboxes.get? n = none := hn
    have hsame : b.mailboxes.modify n (fun queue => queue ++ [m]) = b.mailboxes := by
      unfold Table.modify
      rw [hget]
    by_cases hk : n = k
    · subst hk
      simp [hsame, hn]
    · simp [hsame, hk]
  | some queue =>
    have hget : b.mailboxes.get? n = some queue := hn
    by_cases hk : n = k
    · subst hk
      by_cases hfull : capacity ≤ queue.length
      · simp [hfull, hn, pushed, Nat.not_lt.2 hfull]
      · simp [hfull, pushed, Nat.lt_of_not_le hfull, unread?, Table.modify, hget]
    · by_cases hfull : capacity ≤ queue.length
      · simp [hfull, hk]
      · simp [hfull, hk, unread?, Table.modify, hget, Table.get?_set_ne _ hk]

theorem unread?_deliverAll (m : α) {ns : List ℕ} (hns : ns.Nodup) (b : Bus α) (k : ℕ) :
    (ns.foldl (fun b n => b.deliver m n) b).unread? k =
      if k ∈ ns then (b.unread? k).map (pushed m) else b.unread? k := by
  induction ns generalizing b with
  | nil => simp
  | cons n ns ih =>
    obtain ⟨hn, hns⟩ := List.nodup_cons.1 hns
    rw [List.foldl_cons, ih hns, unread?_deliver]
    by_cases hk : n = k
    · subst hk
      simp [hn]
    · have hk' : k ≠ n := fun e => hk e.symm
      simp [hk, hk']

theorem channels_deliverAll (m : α) (ns : List ℕ) (b : Bus α) :
    (ns.foldl (fun b n => b.deliver m n) b).channels = b.channels := by
  induction ns generalizing b with
  | nil => rfl
  | cons n ns ih =>
    rw [List.foldl_cons, ih]
    unfold deliver
    split_ifs <;> rfl

theorem nextMailbox_deliverAll (m : α) (ns : List ℕ) (b : Bus α) :
    (ns.foldl (fun b n => b.deliver m n) b).nextMailbox = b.nextMailbox := by
  induction ns generalizing b with
  | nil => rfl
  | cons n ns ih =>
    rw [List.foldl_cons, ih]
    unfold deliver
    split_ifs <;> rfl

@[simp] theorem unread?_prune (b : Bus α) (channel : String) (k : ℕ) :
    (b.prune channel).unread? k = b.unread? k := by
  unfold prune
  split <;> rfl

theorem get?_prune (b : Bus α) (channel channel' : String) :
    (b.prune channel).channels.get? channel' =
      if channel = channel' then
        (if b.subscribers channel = [] then none else some (b.subscribers channel))
      else b.channels.get? channel' := by
  unfold prune
  cases b.subscribers channel with
  | nil => exact Table.get?_erase ..
  | cons n ns => exact Table.get?_set ..

theorem mem_subscribers : n ∈ b.subscribers channel ↔
    n ∈ b.listed channel ∧ (b.unread? n).isSome = true := List.mem_filter

theorem subscribers_of_unknown (h : b.channels.has channel = false) :
    b.subscribers channel = [] ∧ b.channels.get? channel = none := by
  have hnone : b.channels.get? channel = none := by simpa [Table.has] using h
  exact ⟨by simp [subscribers, hnone], hnone⟩

/-- A message comes to every live subscriber of its channel that is not full, and nowhere else. -/
theorem unread?_publish (hsubs : (b.subscribers channel).Nodup) (m : α) (k : ℕ) :
    (b.publish channel m).unread? k =
      if k ∈ b.subscribers channel then (b.unread? k).map (pushed m) else b.unread? k := by
  unfold publish
  by_cases hknown : b.channels.has channel = true
  · rw [if_pos hknown, unread?_deliverAll m hsubs, unread?_prune]
  · rw [if_neg hknown, (subscribers_of_unknown (by simpa using hknown)).1]
    simp

/-- After a message the table lists exactly the live subscribers of its channel. -/
theorem get?_publish (b : Bus α) (channel : String) (m : α) (channel' : String) :
    (b.publish channel m).channels.get? channel' =
      if channel = channel' then
        (if b.subscribers channel = [] then none else some (b.subscribers channel))
      else b.channels.get? channel' := by
  unfold publish
  by_cases hknown : b.channels.has channel = true
  · rw [if_pos hknown, channels_deliverAll, get?_prune]
  · obtain ⟨hnobody, hnone⟩ := subscribers_of_unknown (by simpa using hknown)
    rw [if_neg hknown, hnobody]
    by_cases hc : channel = channel'
    · subst hc
      rw [if_pos rfl, if_pos rfl, hnone]
    · rw [if_neg hc]

theorem listed_publish (b : Bus α) (channel : String) (m : α) (channel' : String) :
    (b.publish channel m).listed channel' =
      if channel = channel' then b.subscribers channel else b.listed channel' := by
  unfold listed
  rw [get?_publish]
  split_ifs with hc hnobody
  · exact hnobody.symm
  · rfl
  · rfl

theorem nextMailbox_publish (b : Bus α) (channel : String) (m : α) :
    (b.publish channel m).nextMailbox = b.nextMailbox := by
  unfold publish
  split_ifs
  · rw [nextMailbox_deliverAll]
    unfold prune
    split <;> rfl
  · rfl

theorem Wired.publish (hb : b.Wired) (channel : String) (m : α) :
    (b.publish channel m).Wired := by
  have hmem : ∀ c k, k ∈ (b.publish channel m).listed c → k ∈ b.listed c := by
    intro c k hk
    rw [listed_publish] at hk
    split_ifs at hk with hc
    · subst hc
      exact (mem_subscribers.1 hk).1
    · exact hk
  constructor
  · intro c k hk
    rw [nextMailbox_publish]
    exact hb.listed_lt c k (hmem c k hk)
  · exact fun c c' k hk hk' => hb.unique c c' k (hmem c k hk) (hmem c' k hk')

/-- A message to the only mailbox of a channel arrives there and nowhere else. -/
theorem unreadOn_publish (hb : b.Wired) (h : b.unreadOn channel = [(n, q)])
    (hq : q.length < capacity) (m : α) :
    (b.publish channel m).unreadOn = Function.update b.unreadOn channel [(n, q ++ [m])] := by
  obtain ⟨hlisted, hunread⟩ := mem_unreadOn.1 (show (n, q) ∈ b.unreadOn channel by simp [h])
  have hsubs : b.subscribers channel = [n] := by
    rw [subscribers_eq, h]
    rfl
  have hnew := @unread?_publish α b channel (by simp [hsubs]) m
  simp only [hsubs, List.mem_singleton] at hnew
  funext c
  by_cases hc : c = channel
  · subst hc
    rw [Function.update_self]
    unfold unreadOn
    rw [listed_publish, if_pos rfl, hsubs]
    simp [hnew, hunread, pushed, hq]
  · rw [Function.update_of_ne hc]
    refine unreadOn_congr ?_ fun k hk => ?_
    · rw [listed_publish, if_neg (Ne.symm hc)]
    · rw [hnew, if_neg (Ne.symm (hb.ne hlisted hk hc))]

theorem isOpen_publish (b : Bus α) (channel : String) (m : α) :
    (b.publish channel m).isOpen = b.isOpen := by
  have hdeliver : ∀ (ns : List ℕ) (b : Bus α),
      (ns.foldl (fun b n => b.deliver m n) b).isOpen = b.isOpen := by
    intro ns
    induction ns with
    | nil => exact fun _ => rfl
    | cons n ns ih =>
      intro b
      rw [List.foldl_cons, ih]
      unfold deliver
      split_ifs <;> rfl
  unfold publish
  split_ifs
  · rw [hdeliver]
    unfold prune
    split <;> rfl
  · rfl

/-! ### Taking a message -/

theorem take?_eq_some : b.take? n = some (m, b') ↔
    ∃ q, b.unread? n = some (m :: q) ∧ b' = { b with mailboxes := b.mailboxes.set n q } := by
  unfold take? receive
  cases hn : b.unread? n with
  | none => cases b.isOpen <;> simp
  | some ms =>
    cases ms with
    | nil => cases b.isOpen <;> simp
    | cons m' q =>
      simp only [Option.some.injEq, Prod.mk.injEq, List.cons.injEq]
      constructor
      · rintro ⟨rfl, rfl⟩
        exact ⟨q, ⟨rfl, rfl⟩, rfl⟩
      · rintro ⟨q', ⟨rfl, rfl⟩, rfl⟩
        exact ⟨rfl, rfl⟩

theorem Wired.of_listed (hb : b.Wired) (hl : b'.listed = b.listed)
    (hn : b'.nextMailbox = b.nextMailbox) : b'.Wired := by
  refine ⟨fun c k hk => ?_, fun c c' k hk hk' => ?_⟩
  · rw [hl] at hk
    rw [hn]
    exact hb.listed_lt c k hk
  · rw [hl] at hk hk'
    exact hb.unique c c' k hk hk'

theorem Wired.take (hb : b.Wired) (ht : b.take? n = some (m, b')) : b'.Wired := by
  obtain ⟨q, -, rfl⟩ := take?_eq_some.1 ht
  exact hb.of_listed rfl rfl

/-- What is taken from the only mailbox of a channel is its oldest message. -/
theorem unreadOn_take (hb : b.Wired) (h : b.unreadOn channel = [(n, q)])
    (ht : b.take? n = some (m, b')) :
    ∃ q', q = m :: q' ∧ b'.unreadOn = Function.update b.unreadOn channel [(n, q')] := by
  obtain ⟨hlisted, hunread⟩ := mem_unreadOn.1 (show (n, q) ∈ b.unreadOn channel by simp [h])
  obtain ⟨q', hq', rfl⟩ := take?_eq_some.1 ht
  obtain rfl : q = m :: q' := Option.some.inj (hunread.symm.trans hq')
  refine ⟨q', rfl, funext fun c => ?_⟩
  by_cases hc : c = channel
  · subst hc
    rw [Function.update_self]
    -- Only the unread messages of the mailbox are others.
    have hsame : ({ b with mailboxes := b.mailboxes.set n q' } : Bus α).unreadOn c =
        (b.unreadOn c).map fun p => if p.1 = n then (n, q') else p := by
      unfold unreadOn
      rw [List.map_filterMap]
      refine List.filterMap_congr fun k hk => ?_
      by_cases hkn : k = n
      · subst hkn
        have hnew : ({ b with mailboxes := b.mailboxes.set k q' } : Bus α).unread? k = some q' :=
          Table.get?_set_self _ _ _
        simp [hnew, hunread]
      · have hne : n ≠ k := Ne.symm hkn
        simp [unread?, Table.get?_set_ne _ hne, hkn, Function.comp_def]
    rw [hsame, h]
    simp
  · rw [Function.update_of_ne hc]
    exact unreadOn_congr rfl fun k hk => Table.get?_set_ne _ (hb.ne hlisted hk hc) _

/-- A message that is unread can be taken. -/
theorem exists_take (h : b.unreadOn channel = [(n, m :: q)]) : ∃ b', b.take? n = some (m, b') := by
  obtain ⟨-, hunread⟩ := mem_unreadOn.1 (show (n, m :: q) ∈ b.unreadOn channel by simp [h])
  exact ⟨_, take?_eq_some.2 ⟨q, hunread, rfl⟩⟩

/-! ### Giving up a mailbox -/

theorem Wired.unsubscribe (hb : b.Wired) (n : ℕ) : (b.unsubscribe n).Wired := hb.of_listed rfl rfl

theorem unreadOn_unsubscribe (hb : b.Wired) (h : b.unreadOn channel = [(n, q)]) :
    (b.unsubscribe n).unreadOn = Function.update b.unreadOn channel [] := by
  obtain ⟨hlisted, hunread⟩ := mem_unreadOn.1 (show (n, q) ∈ b.unreadOn channel by simp [h])
  have hother : ∀ k, n ≠ k → (b.unsubscribe n).unread? k = b.unread? k := by
    intro k hk
    show (b.mailboxes.erase n).get? k = _
    rw [Table.get?_erase, if_neg hk]
    rfl
  funext c
  by_cases hc : c = channel
  · subst hc
    rw [Function.update_self, List.eq_nil_iff_forall_not_mem]
    intro p hp
    obtain ⟨hp1, hp2⟩ := mem_unreadOn.1 hp
    by_cases hpn : n = p.1
    · have hgone : (b.unsubscribe n).unread? n = none := by
        show (b.mailboxes.erase n).get? n = none
        rw [Table.get?_erase, if_pos rfl]
      rw [← hpn, hgone] at hp2
      cases hp2
    · -- There is no other mailbox on the channel.
      rw [hother _ hpn] at hp2
      have hmem : p ∈ b.unreadOn c := mem_unreadOn.2 ⟨hp1, hp2⟩
      rw [h] at hmem
      obtain rfl : p = (n, q) := by simpa using hmem
      exact hpn rfl
  · rw [Function.update_of_ne hc]
    exact unreadOn_congr rfl fun k hk => hother k (hb.ne hlisted hk hc)

end PullIngest.Bus
