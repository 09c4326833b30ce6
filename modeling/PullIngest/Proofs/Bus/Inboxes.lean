import Mathlib.Tactic.SplitIfs
import PullIngest.Network
import PullIngest.Proofs.Bus.View

/-!
# Inboxes of tasks

A task knows its mailboxes by channel. Two tasks that talk to each other over channels of their own
are each alone on the channels that they listen on, so that what one publishes is what the other
finds.

* `Bus.carry`: one action of a task on the bus, as `Network.act` carries it out;
* `Bus.Hears`, `Bus.takes`: what a task takes from a mailbox, and what the bus takes;
* `Inboxes`: what the mailboxes of a task hold;
* `Wires`: two tasks with channels of their own, and nobody else on these channels;
* `Wires.subscribe`, `Wires.publish`, …: what an action of one task does to both.
-/

namespace PullIngest

namespace Table

variable {α β : Type} [DecidableEq α]

theorem mem_keys {t : Table α β} {k : α} : k ∈ t.keys ↔ ∃ v, t.get? k = some v := by
  unfold keys get?
  constructor
  · intro h
    obtain ⟨p, hp, rfl⟩ := List.mem_map.1 h
    have hsome : (t.pairs.find? fun q => q.1 = p.1).isSome := by
      rw [List.find?_isSome]
      exact ⟨p, hp, by simp⟩
    obtain ⟨q, hq⟩ := Option.isSome_iff_exists.1 hsome
    exact ⟨q.2, by rw [hq]; rfl⟩
  · rintro ⟨v, hv⟩
    obtain ⟨p, hp, -⟩ := Option.map_eq_some_iff.1 hv
    have hk : p.1 = k := by simpa using List.find?_some hp
    exact List.mem_map.2 ⟨p, List.mem_of_find?_eq_some hp, hk⟩

theorem keys_set_of_notMem {t : Table α β} {k : α} (h : k ∉ t.keys) (v : β) :
    (t.set k v).keys = t.keys ++ [k] := by
  have hno : t.has k = false := by
    unfold has
    cases hk : t.get? k with
    | none => rfl
    | some w => exact absurd (mem_keys.2 ⟨w, hk⟩) h
  unfold set
  rw [hno]
  simp [keys]

theorem keys_erase (t : Table α β) (k : α) : (t.erase k).keys = t.keys.filter (· ≠ k) := by
  unfold keys erase
  rw [List.filter_map]
  rfl

end Table

namespace Bus

/-- The mailboxes that listen on a channel of the protocol, each with its unread messages. -/
def on (b : Bus Message) (c : Channel) : List (ℕ × List Message) := b.unreadOn c.name

/-- Carry out one action for a task with the given mailboxes. -/
def carry (b : Bus Message) (mailboxes : Table Channel ℕ) : Action → Bus Message × Table Channel ℕ
  | .publish c m => (b.publish c.name m, mailboxes)
  | .subscribe c => ((b.subscribe c.name).2, mailboxes.set c (b.subscribe c.name).1)
  | .unsubscribe c =>
    match mailboxes.get? c with
    | some n => (b.unsubscribe n, mailboxes.erase c)
    | none => (b, mailboxes)
  | .sink _ => (b, mailboxes)
  | .log _ => (b, mailboxes)

/-- The bus and the mailboxes of a task after several actions. -/
def carryAll (b : Bus Message) (mailboxes : Table Channel ℕ) (as : List Action) :
    Bus Message × Table Channel ℕ :=
  as.foldl (fun p a => p.1.carry p.2 a) (b, mailboxes)

/-- Give up all mailboxes of a task. -/
def release (b : Bus Message) (mailboxes : Table Channel ℕ) : Bus Message :=
  mailboxes.values.foldl unsubscribe b

/-- A task takes the oldest message from its mailbox of a channel. -/
def Hears (b : Bus Message) (mailboxes : Table Channel ℕ) (c : Channel) (m : Message)
    (b' : Bus Message) : Prop :=
  ∃ n, mailboxes.get? c = some n ∧ b.take? n = some (m, b')

/-- Whether the bus takes a message on a channel of the protocol. -/
def takes (b : Bus Message) (c : Channel) : Bool := b.accepts c.name

/-- In a network an action does the same to the bus and the mailboxes, and nothing else but what is
kept of it. -/
theorem act_eq_carry (party : Party) (s : Network) (mailboxes : Table Channel ℕ) (a : Action) :
    ∃ published logged, Network.act party (s, mailboxes) a =
      ({ s with bus := (s.bus.carry mailboxes a).1, published, logged },
        (s.bus.carry mailboxes a).2) := by
  cases a with
  | unsubscribe c =>
    unfold Network.act carry
    dsimp only
    cases mailboxes.get? c <;> exact ⟨_, _, rfl⟩
  | _ => exact ⟨_, _, rfl⟩

theorem perform_eq_carryAll (party : Party) (n : Network) (mailboxes : Table Channel ℕ)
    (as : List Action) :
    ∃ published logged, n.perform party mailboxes as =
      ({ n with bus := (n.bus.carryAll mailboxes as).1, published, logged },
        (n.bus.carryAll mailboxes as).2) := by
  induction as generalizing n mailboxes with
  | nil => exact ⟨n.published, n.logged, rfl⟩
  | cons a as ih =>
    obtain ⟨published, logged, ha⟩ := act_eq_carry party n mailboxes a
    obtain ⟨published', logged', has⟩ :=
      ih { n with bus := (n.bus.carry mailboxes a).1, published, logged } (n.bus.carry mailboxes a).2
    refine ⟨published', logged', ?_⟩
    unfold Network.perform at has ⊢
    rw [List.foldl_cons, ha, has]
    rfl

theorem isOpen_carry (b : Bus Message) (mailboxes : Table Channel ℕ) (a : Action) :
    (b.carry mailboxes a).1.isOpen = b.isOpen := by
  cases a with
  | publish c m => exact isOpen_publish b c.name m
  | unsubscribe c =>
    unfold carry
    dsimp only
    cases mailboxes.get? c <;> rfl
  | _ => rfl

theorem isOpen_carryAll (b : Bus Message) (mailboxes : Table Channel ℕ) (as : List Action) :
    (b.carryAll mailboxes as).1.isOpen = b.isOpen := by
  induction as generalizing b mailboxes with
  | nil => rfl
  | cons a as ih => exact (ih _ _).trans (isOpen_carry b mailboxes a)

theorem isOpen_release (b : Bus Message) (mailboxes : Table Channel ℕ) :
    (b.release mailboxes).isOpen = b.isOpen := by
  unfold release
  induction mailboxes.values generalizing b with
  | nil => rfl
  | cons n ns ih => exact ih (b.unsubscribe n)

variable {b b' : Bus Message} {c : Channel} {n : ℕ} {m : Message} {q : List Message}

theorem on_update {v : List (ℕ × List Message)}
    (h : b'.unreadOn = Function.update b.unreadOn c.name v) : b'.on = Function.update b.on c v := by
  funext c'
  unfold on
  rw [h]
  by_cases hc : c' = c
  · subst hc
    rw [Function.update_self, Function.update_self]
  · rw [Function.update_of_ne hc, Function.update_of_ne fun e => hc (Channel.name_injective e)]

end Bus

/-! ### The mailboxes of one task -/

/-- Change the queue of one channel. -/
def adjust (c : Channel) (f : List Message → List Message)
    (boxes : List (Channel × List Message)) : List (Channel × List Message) :=
  boxes.map fun i => if i.1 = c then (c, f i.2) else i

theorem keys_adjust (c : Channel) (f : List Message → List Message)
    (boxes : List (Channel × List Message)) :
    (adjust c f boxes).map Prod.fst = boxes.map Prod.fst := by
  unfold adjust
  rw [List.map_map]
  refine List.map_congr_left fun i _ => ?_
  simp only [Function.comp_apply]
  split_ifs with hc
  · exact hc.symm
  · rfl

/-- Put a message into the mailbox of a channel. -/
def post (c : Channel) (m : Message) : List (Channel × List Message) → List (Channel × List Message) :=
  adjust c (· ++ [m])

/-- Take the oldest message out of the mailbox of a channel. -/
def pop (c : Channel) : List (Channel × List Message) → List (Channel × List Message) :=
  adjust c List.tail

/-- A task has exactly these mailboxes, each alone on its channel and with these unread messages. -/
structure Inboxes (v : Channel → List (ℕ × List Message)) (mailboxes : Table Channel ℕ)
    (boxes : List (Channel × List Message)) : Prop where
  keys : mailboxes.keys = boxes.map Prod.fst
  alone : ∀ i ∈ boxes, ∃ n, mailboxes.get? i.1 = some n ∧ v i.1 = [(n, i.2)]

namespace Inboxes

variable {v v' : Channel → List (ℕ × List Message)} {mailboxes : Table Channel ℕ}
  {boxes : List (Channel × List Message)} {c : Channel} {n : ℕ} {q : List Message}

theorem empty (v : Channel → List (ℕ × List Message)) : Inboxes v ∅ [] := ⟨rfl, by simp⟩

theorem of_get? (h : Inboxes v mailboxes boxes) (hn : mailboxes.get? c = some n) :
    ∃ q, (c, q) ∈ boxes ∧ v c = [(n, q)] := by
  have hc : c ∈ boxes.map Prod.fst := by
    rw [← h.keys]
    exact Table.mem_keys.2 ⟨n, hn⟩
  obtain ⟨i, hi, rfl⟩ := List.mem_map.1 hc
  obtain ⟨n', hn', hv⟩ := h.alone i hi
  obtain rfl : n = n' := Option.some.inj (hn.symm.trans hn')
  exact ⟨i.2, hi, hv⟩

theorem congr (h : Inboxes v mailboxes boxes) (hv : ∀ c ∈ boxes.map Prod.fst, v' c = v c) :
    Inboxes v' mailboxes boxes := by
  refine ⟨h.keys, fun i hi => ?_⟩
  rw [hv i.1 (List.mem_map_of_mem hi)]
  exact h.alone i hi

theorem set (h : Inboxes v mailboxes boxes) (hc : c ∉ boxes.map Prod.fst) (n : ℕ) :
    Inboxes (Function.update v c [(n, [])]) (mailboxes.set c n) (boxes ++ [(c, [])]) := by
  refine ⟨?_, fun i hi => ?_⟩
  · rw [Table.keys_set_of_notMem (by rw [h.keys]; exact hc), h.keys]
    simp
  · rcases List.mem_append.1 hi with hi | hi
    · have hne : i.1 ≠ c := fun e => hc (e ▸ List.mem_map_of_mem hi)
      rw [Table.get?_set_ne _ (Ne.symm hne), Function.update_of_ne hne]
      exact h.alone i hi
    · obtain rfl : i = (c, []) := by simpa using hi
      exact ⟨n, Table.get?_set_self _ _ _, Function.update_self _ _ _⟩

theorem erase (h : Inboxes v mailboxes boxes) (c : Channel) :
    Inboxes (Function.update v c []) (mailboxes.erase c) (boxes.filter fun i => i.1 ≠ c) := by
  refine ⟨?_, fun i hi => ?_⟩
  · rw [Table.keys_erase, h.keys, List.filter_map]
    rfl
  · obtain ⟨hi, hne⟩ := List.mem_filter.1 hi
    have hne : i.1 ≠ c := by simpa using hne
    rw [Table.get?_erase, if_neg (Ne.symm hne), Function.update_of_ne hne]
    exact h.alone i hi

/-- What happens on a channel that the task does not listen on. -/
theorem elsewhere (h : Inboxes v mailboxes boxes) (hc : c ∉ boxes.map Prod.fst)
    (x : List (ℕ × List Message)) : Inboxes (Function.update v c x) mailboxes boxes := by
  refine h.congr fun c' hc' => Function.update_of_ne ?_ _ _
  rintro rfl
  exact hc hc'

/-- Another queue in one of the mailboxes. -/
theorem adjust (h : Inboxes v mailboxes boxes) (hv : v c = [(n, q)])
    (f : List Message → List Message) :
    Inboxes (Function.update v c [(n, f q)]) mailboxes (adjust c f boxes) := by
  refine ⟨by rw [h.keys, keys_adjust], fun j hj => ?_⟩
  obtain ⟨i, hi, rfl⟩ := List.mem_map.1 hj
  obtain ⟨k, hk, hvi⟩ := h.alone i hi
  split_ifs with hc
  · -- There is one queue on the channel, and it is the adjusted one.
    subst hc
    obtain ⟨rfl, rfl⟩ : n = k ∧ q = i.2 := by simpa [hv] using hvi
    exact ⟨n, hk, Function.update_self _ _ _⟩
  · rw [Function.update_of_ne hc]
    exact ⟨k, hk, hvi⟩

end Inboxes

/-! ### Actions -/

namespace Action

/-- What an action does to the mailboxes of its task. -/
def mine (a : Action) (boxes : List (Channel × List Message)) : List (Channel × List Message) :=
  match a with
  | publish c m => post c m boxes
  | subscribe c => boxes ++ [(c, [])]
  | unsubscribe c => boxes.filter fun i => i.1 ≠ c
  | _ => boxes

/-- What it does to the mailboxes of the other task. -/
def theirs (a : Action) (boxes : List (Channel × List Message)) : List (Channel × List Message) :=
  match a with
  | publish c m => post c m boxes
  | _ => boxes

/-- An action of a task on the channels `own` that finds everything as it should be: a message is
published to somebody who has read all that came before. -/
def Smooth (own : Channel → Prop) (boxes boxes' : List (Channel × List Message)) : Action → Prop
  | publish c _ => (c, []) ∈ boxes ∨ (c, []) ∈ boxes'
  | subscribe c => own c ∧ c ∉ boxes.map Prod.fst ∧ c ∉ boxes'.map Prod.fst
  | unsubscribe c => c ∈ boxes.map Prod.fst ∧ c ∉ boxes'.map Prod.fst
  | _ => True

end Action

/-! ### Two tasks with channels of their own -/

/-- Two tasks with the channels `own`, one listening on those of `boxes` and the other on those of
`boxes'`. Nobody else listens on these channels. -/
structure Wires (own : Channel → Prop) (b : Bus Message) (mailboxes mailboxes' : Table Channel ℕ)
    (boxes boxes' : List (Channel × List Message)) : Prop where
  near : Inboxes b.on mailboxes boxes
  far : Inboxes b.on mailboxes' boxes'
  own_of_mem : ∀ c, c ∈ boxes.map Prod.fst ∨ c ∈ boxes'.map Prod.fst → own c
  mem_of_own : ∀ c, own c → b.on c ≠ [] → c ∈ boxes.map Prod.fst ∨ c ∈ boxes'.map Prod.fst

namespace Wires

open Bus

variable {own : Channel → Prop} {b b' : Bus Message} {mailboxes mailboxes' : Table Channel ℕ}
  {boxes boxes' : List (Channel × List Message)} {c : Channel} {n : ℕ} {m : Message}
  {q : List Message}

theorem symm (h : Wires own b mailboxes mailboxes' boxes boxes') :
    Wires own b mailboxes' mailboxes boxes' boxes :=
  ⟨h.far, h.near, fun c hc => h.own_of_mem c hc.symm, fun c hc hv => (h.mem_of_own c hc hv).symm⟩

/-- What happens on channels of others does not matter. -/
theorem congr (h : Wires own b mailboxes mailboxes' boxes boxes')
    (hv : ∀ c, own c → b'.on c = b.on c) : Wires own b' mailboxes mailboxes' boxes boxes' where
  near := h.near.congr fun c hc => hv c (h.own_of_mem c (.inl hc))
  far := h.far.congr fun c hc => hv c (h.own_of_mem c (.inr hc))
  own_of_mem := h.own_of_mem
  mem_of_own c hc hne := h.mem_of_own c hc (by rwa [hv c hc] at hne)

theorem own_channel (h : Wires own b mailboxes mailboxes' boxes boxes')
    (hn : mailboxes.get? c = some n) : own c := by
  obtain ⟨q, hq, -⟩ := h.near.of_get? hn
  exact h.own_of_mem c (.inl (List.mem_map_of_mem hq))

/-- The bus goes on, and elsewhere nothing changes. -/
structure Goes (own : Channel → Prop) (b b' : Bus Message) : Prop where
  wired : b'.Wired
  elsewhere : ∀ c, ¬ own c → b'.on c = b.on c

theorem Goes.of_update (hb : b'.Wired) (hc : own c) {v : List (ℕ × List Message)}
    (hv : b'.on = Function.update b.on c v) : Goes own b b' := by
  refine ⟨hb, fun c' hc' => ?_⟩
  have hne : c' ≠ c := by
    rintro rfl
    exact hc' hc
  rw [hv, Function.update_of_ne hne]

theorem subscribe (hb : b.Wired) (h : Wires own b mailboxes mailboxes' boxes boxes') (hc : own c)
    (hnear : c ∉ boxes.map Prod.fst) (hfar : c ∉ boxes'.map Prod.fst) :
    let r := b.carry mailboxes (.subscribe c)
    Wires own r.1 r.2 mailboxes' (boxes ++ [(c, [])]) boxes' ∧ Goes own b r.1 := by
  intro r
  have hvacant : b.on c = [] := by
    by_contra hne
    exact (h.mem_of_own c hc hne).elim hnear hfar
  have hv : r.1.on = Function.update b.on c [(b.nextMailbox, [])] := by
    have := on_update (unreadOn_subscribe hb c.name)
    rwa [show b.unreadOn c.name = [] from hvacant] at this
  refine ⟨⟨?_, ?_, fun c' hc' => ?_, fun c' hc' hne => ?_⟩, .of_update (hb.subscribe _) hc hv⟩
  · rw [hv]
    exact h.near.set hnear _
  · rw [hv]
    exact h.far.elsewhere hfar _
  · rw [List.map_append, List.mem_append] at hc'
    rcases hc' with (hc' | hc') | hc'
    · exact h.own_of_mem c' (.inl hc')
    · obtain rfl : c' = c := by simpa using hc'
      exact hc
    · exact h.own_of_mem c' (.inr hc')
  · rw [List.map_append, List.mem_append]
    by_cases he : c' = c
    · exact .inl (.inr (by simp [he]))
    · rw [hv, Function.update_of_ne he] at hne
      exact (h.mem_of_own c' hc' hne).imp_left .inl

/-- A message that is published arrives at the one who listens. -/
theorem publish (hb : b.Wired) (h : Wires own b mailboxes mailboxes' boxes boxes')
    (hq : (c, q) ∈ boxes ∨ (c, q) ∈ boxes') (hroom : q.length < capacity) (m : Message) :
    Wires own (b.publish c.name m) mailboxes mailboxes' (post c m boxes) (post c m boxes') ∧
      Goes own b (b.publish c.name m) := by
  obtain ⟨n, hn⟩ : ∃ n, b.on c = [(n, q)] := by
    rcases hq with hq | hq
    · exact (h.near.alone _ hq).imp fun n hn => hn.2
    · exact (h.far.alone _ hq).imp fun n hn => hn.2
  have hv := on_update (unreadOn_publish hb hn hroom m)
  have hkeys (l : List (Channel × List Message)) : (post c m l).map Prod.fst = l.map Prod.fst :=
    keys_adjust c _ l
  have hown : own c := by
    apply h.own_of_mem
    exact hq.imp (fun hq => List.mem_map_of_mem hq) fun hq => List.mem_map_of_mem hq
  refine ⟨⟨?_, ?_, fun c' hc' => ?_, fun c' hc' hne => ?_⟩,
    .of_update (hb.publish _ m) hown hv⟩
  · rw [hv]
    exact h.near.adjust hn (· ++ [m])
  · rw [hv]
    exact h.far.adjust hn (· ++ [m])
  · rw [hkeys, hkeys] at hc'
    exact h.own_of_mem c' hc'
  · rw [hkeys, hkeys]
    by_cases he : c' = c
    · subst he
      exact hq.imp (fun hq => List.mem_map_of_mem hq) fun hq => List.mem_map_of_mem hq
    · rw [hv, Function.update_of_ne he] at hne
      exact h.mem_of_own c' hc' hne

/-- What a task takes is the oldest message in its mailbox. -/
theorem take (hb : b.Wired) (h : Wires own b mailboxes mailboxes' boxes boxes')
    (hn : mailboxes.get? c = some n) (ht : b.take? n = some (m, b'))
    (hfar : c ∉ boxes'.map Prod.fst) :
    (∃ q, (c, m :: q) ∈ boxes) ∧ Wires own b' mailboxes mailboxes' (pop c boxes) boxes' ∧
      Goes own b b' := by
  obtain ⟨q, hq, hon⟩ := h.near.of_get? hn
  obtain ⟨q', rfl, hview⟩ := unreadOn_take hb hon ht
  have hv := on_update hview
  have hkeys : (pop c boxes).map Prod.fst = boxes.map Prod.fst := keys_adjust c _ boxes
  refine ⟨⟨q', hq⟩, ⟨?_, ?_, fun c' hc' => ?_, fun c' hc' hne => ?_⟩,
    .of_update (hb.take ht) (h.own_channel hn) hv⟩
  · rw [hv]
    exact h.near.adjust hon List.tail
  · rw [hv]
    exact h.far.elsewhere hfar _
  · rw [hkeys] at hc'
    exact h.own_of_mem c' hc'
  · rw [hkeys]
    by_cases he : c' = c
    · subst he
      exact .inl (List.mem_map_of_mem hq)
    · rw [hv, Function.update_of_ne he] at hne
      exact h.mem_of_own c' hc' hne

theorem unsubscribe (hb : b.Wired) (h : Wires own b mailboxes mailboxes' boxes boxes')
    (hn : mailboxes.get? c = some n) (hfar : c ∉ boxes'.map Prod.fst) :
    Wires own (b.unsubscribe n) (mailboxes.erase c) mailboxes'
      (boxes.filter fun i => i.1 ≠ c) boxes' ∧ Goes own b (b.unsubscribe n) := by
  obtain ⟨q, hq, hon⟩ := h.near.of_get? hn
  have hv := on_update (unreadOn_unsubscribe hb hon)
  refine ⟨⟨?_, ?_, fun c' hc' => ?_, fun c' hc' hne => ?_⟩,
    .of_update (hb.unsubscribe n) (h.own_channel hn) hv⟩
  · rw [hv]
    exact h.near.erase c
  · rw [hv]
    exact h.far.elsewhere hfar _
  · refine h.own_of_mem c' (hc'.imp_left fun hc' => ?_)
    obtain ⟨i, hi, rfl⟩ := List.mem_map.1 hc'
    exact List.mem_map_of_mem (List.mem_filter.1 hi).1
  · by_cases he : c' = c
    · rw [hv, he, Function.update_self] at hne
      exact absurd rfl hne
    · rw [hv, Function.update_of_ne he] at hne
      refine (h.mem_of_own c' hc' hne).imp_left fun hc' => ?_
      obtain ⟨i, hi, rfl⟩ := List.mem_map.1 hc'
      exact List.mem_map_of_mem (List.mem_filter.2 ⟨hi, by simpa using he⟩)

/-- A task that gives up its mailboxes leaves the other one alone on the channels. -/
theorem release (hb : b.Wired) (h : Wires own b mailboxes mailboxes' boxes boxes')
    (hnodup : (boxes.map Prod.fst).Nodup)
    (hfar : ∀ c ∈ boxes.map Prod.fst, c ∉ boxes'.map Prod.fst) :
    Wires own (b.release mailboxes) ∅ mailboxes' [] boxes' ∧ Goes own b (b.release mailboxes) := by
  -- The mailboxes go one by one.
  obtain ⟨ps⟩ := mailboxes
  induction ps generalizing b boxes with
  | nil =>
    obtain rfl : boxes = [] := List.map_eq_nil_iff.1 h.near.keys.symm
    exact ⟨h, ⟨hb, fun _ _ => rfl⟩⟩
  | cons p ps ih =>
    obtain ⟨i, rest, rfl, hi, hrest⟩ :
        ∃ i rest, boxes = i :: rest ∧ p.1 = i.1 ∧ ps.map Prod.fst = rest.map Prod.fst := by
      have hkeys := h.near.keys
      cases boxes with
      | nil => simp [Table.keys] at hkeys
      | cons i rest =>
        simp only [Table.keys, List.map_cons, List.cons.injEq] at hkeys
        exact ⟨i, rest, rfl, hkeys.1, hkeys.2⟩
    rw [List.map_cons, List.nodup_cons] at hnodup
    have hget : (⟨p :: ps⟩ : Table Channel ℕ).get? i.1 = some p.2 := by
      simp [Table.get?, hi]
    obtain ⟨hwires, hgoes⟩ := h.unsubscribe hb hget (hfar i.1 (by simp))
    have herase : (⟨p :: ps⟩ : Table Channel ℕ).erase i.1 = ⟨ps⟩ := by
      unfold Table.erase
      congr 1
      rw [List.filter_cons_of_neg (by simp [hi]), List.filter_eq_self]
      intro r hr
      have hne : r.1 ≠ i.1 := by
        intro he
        exact hnodup.1 (he ▸ hrest ▸ List.mem_map_of_mem hr)
      simpa using hne
    have hfilter : ((i :: rest).filter fun j => j.1 ≠ i.1) = rest := by
      rw [List.filter_cons_of_neg (by simp), List.filter_eq_self]
      intro j hj
      have hne : j.1 ≠ i.1 := by
        intro he
        exact hnodup.1 (he ▸ List.mem_map_of_mem hj)
      simpa using hne
    rw [herase, hfilter] at hwires
    obtain ⟨hwires', hgoes'⟩ := ih hgoes.wired hnodup.2
      (fun c hc => hfar c (List.mem_cons_of_mem _ hc)) hwires
    exact ⟨hwires', ⟨hgoes'.wired, fun c hc => (hgoes'.elsewhere c hc).trans (hgoes.elsewhere c hc)⟩⟩

/-- An action that finds everything as it should be. -/
theorem carry (hb : b.Wired) (h : Wires own b mailboxes mailboxes' boxes boxes') {a : Action}
    (ha : a.Smooth own boxes boxes') :
    Wires own (b.carry mailboxes a).1 (b.carry mailboxes a).2 mailboxes' (a.mine boxes)
      (a.theirs boxes') ∧ Goes own b (b.carry mailboxes a).1 := by
  cases a with
  | publish c m => exact h.publish hb ha (by decide) m
  | subscribe c => exact h.subscribe hb ha.1 ha.2.1 ha.2.2
  | unsubscribe c =>
    obtain ⟨n, hn⟩ : ∃ n, mailboxes.get? c = some n := by
      rw [← Table.mem_keys, h.near.keys]
      exact ha.1
    have he : b.carry mailboxes (.unsubscribe c) = (b.unsubscribe n, mailboxes.erase c) := by
      unfold Bus.carry
      dsimp only
      rw [hn]
    rw [he]
    exact h.unsubscribe hb hn ha.2
  | sink call => exact ⟨h, hb, fun _ _ => rfl⟩
  | log line => exact ⟨h, hb, fun _ _ => rfl⟩

/-- The bus takes a message for somebody who has read all that came before. -/
theorem accepts (h : Wires own b mailboxes mailboxes' boxes boxes')
    (hc : (c, []) ∈ boxes ∨ (c, []) ∈ boxes') : b.accepts c.name = true := by
  obtain ⟨n, hn⟩ : ∃ n, b.on c = [(n, [])] := by
    rcases hc with hc | hc
    · exact (h.near.alone _ hc).imp fun n hn => hn.2
    · exact (h.far.alone _ hc).imp fun n hn => hn.2
  exact accepts_of_unreadOn hn (by decide)

end Wires

end PullIngest
