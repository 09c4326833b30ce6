import PullIngest.Proofs.Bus.FanOut
import PullIngest.Proofs.Wire.Channel

/-!
# Routing by name

The bus knows channels by their names only, and ids are put into names as they are. No two channels
share a name, so what is published on one of them does not reach another.

* `received_prefix`: whatever is taken out of a mailbox came to it before;
* `Labelled`, `label_of_mem_heard`: messages that tell under which name they were published;
* `Channel.never_collide`: names and deliveries of all kinds of channels.
-/

namespace PullIngest

namespace Bus

variable {α : Type} {b : Bus α} {channel : String} {n : ℕ}

/-! ### What a mailbox sees -/

/-- From a mailbox that is gone nothing is taken any more. -/
theorem received_of_gone (hb : b.Tidy) (hlt : n < b.nextMailbox) (hn : b.unread? n = none)
    (ops : List (Op α)) : received n b ops = [] := by
  induction ops generalizing b with
  | nil => rfl
  | cons op ops ih =>
    have htakes : op.takes b n = [] := by
      cases op with
      | receive k =>
        dsimp only [Op.takes]
        split_ifs with hk
        · subst hk
          unfold receive
          rw [hn]
          cases b.isOpen <;> rfl
        · rfl
      | _ => rfl
    have hgone : (b.apply op).unread? n = none := unread?_applyAll_none hlt hn hb [op]
    rw [received, htakes, ih (hb.apply op) (lt_nextMailbox_apply hlt op) hgone, List.append_nil]

/-- What is taken out of a mailbox was in it or came to it, in this order. -/
theorem received_prefix (hb : b.Tidy) (hn : n ∈ b.subscribers channel) {q : List α}
    (hq : b.unread? n = some q) (ops : List (Op α)) :
    received n b ops <+: q ++ heard channel n b ops := by
  induction ops generalizing b q with
  | nil => exact List.nil_prefix
  | cons op ops ih =>
    cases hop : op.drops n with
    | true =>
      have htakes : op.takes b n = [] := by
        cases op with
        | drop k => rfl
        | _ => cases hop
      rw [received, htakes, received_of_gone (hb.apply op)
        (lt_nextMailbox_apply (hb.unread_lt n q hq) op) (unread?_apply_of_drops hop)]
      exact List.nil_prefix
    | false =>
      obtain ⟨q', hq', hstep⟩ := unread?_apply hb hn hq hop
      have hn' : n ∈ (b.apply op).subscribers channel := by
        rw [subscribers_apply hb]
        exact List.mem_append_left _ (List.mem_filter.2 ⟨hn, by simp [hop]⟩)
      obtain ⟨rest, hrest⟩ := ih (hb.apply op) hn' hq'
      refine ⟨rest, ?_⟩
      calc (op.takes b n ++ received n (b.apply op) ops) ++ rest
          = op.takes b n ++ (q' ++ heard channel n (b.apply op) ops) := by
            rw [List.append_assoc, hrest]
        _ = q ++ (op.brings b channel n ++ heard channel n (b.apply op) ops) := by
            rw [← List.append_assoc, ← hstep, List.append_assoc]

/-! ### Labels -/

/-- Every message tells the name of the channel that it is published on. -/
def Labelled (ops : List (Op (String × α))) : Prop :=
  ∀ name p, .publish name p ∈ ops → p.1 = name

theorem label_of_mem_heard {b : Bus (String × α)} {ops : List (Op (String × α))}
    (h : Labelled ops) {p : String × α} (hp : p ∈ heard channel n b ops) : p.1 = channel := by
  induction ops generalizing b with
  | nil => cases hp
  | cons op ops ih =>
    rcases List.mem_append.1 hp with hp | hp
    · cases op with
      | publish name m =>
        dsimp only [Op.brings] at hp
        split_ifs at hp with hc
        · obtain rfl := List.mem_singleton.1 hp
          exact (h name p (by simp)).trans hc.1
        · cases hp
      | _ => cases hp
    · exact ih (fun name p hmem => h name p (by simp [hmem])) hp

/-- The messages that a mailbox, opened behind `before`, ever hands out or still holds at the end of
the history. -/
def seen (before : List (Op α)) (channel : String) (after : List (Op α)) : List α :=
  received (opened before) (run (before ++ [.subscribe channel])) after ++
    ((run (before ++ .subscribe channel :: after)).unread? (opened before)).getD []

/-- A mailbox sees only what came to it. -/
theorem mem_heard_of_mem_seen {before after : List (Op α)} {m : α}
    (h : m ∈ seen before channel after) :
    m ∈ heard channel (opened before) (run (before ++ [.subscribe channel])) after := by
  obtain ⟨hmem, hnew⟩ := opens_run before channel
  have hprefix := received_prefix (tidy_run _) hmem hnew after
  have hall := unread?_applyAll (tidy_run _) hmem hnew after
  rw [← run_append_subscribe] at hall
  rcases List.mem_append.1 h with h | h
  · exact hprefix.subset h
  · by_cases hd : after.any (Op.drops (opened before)) = true
    · rw [if_pos hd] at hall
      rw [hall] at h
      cases h
    · rw [if_neg hd] at hall
      obtain ⟨q, hq, heq⟩ := hall
      rw [hq] at h
      rw [List.nil_append] at heq
      rw [heq]
      exact List.mem_append_right _ h

/-- A mailbox sees no label but the name of its channel. -/
theorem label_of_mem_seen {before after : List (Op (String × α))} {p : String × α}
    (hl : Labelled (before ++ .subscribe channel :: after)) (h : p ∈ seen before channel after) :
    p.1 = channel :=
  label_of_mem_heard (fun name p hmem => hl name p (by simp [hmem])) (mem_heard_of_mem_seen h)

end Bus

namespace Channel

/-- The kinds of channels that are made for an id. -/
inductive Kind where
  | start
  | request
  | response
  | cancel
  | done
  | reply
  deriving DecidableEq

/-- The channel of a kind for an id. -/
def Kind.channel : Kind → String → Channel
  | .start => .start
  | .request => .request
  | .response => .response
  | .cancel => .cancel
  | .done => .done
  | .reply => .reply

/-- The kind and the id of a channel can be told. -/
theorem Kind.channel_inj {k k' : Kind} {id id' : String} :
    k.channel id = k'.channel id' ↔ k = k' ∧ id = id' := by
  cases k <;> cases k' <;> simp [Kind.channel]

theorem Kind.channel_ne_create (k : Kind) (id : String) : k.channel id ≠ .create := by
  cases k <;> simp [Kind.channel]

/-- For all ids, whatever they contain, the names of each kind are
different, no name belongs to two kinds, and none is the name of the channel for create requests.
Hence, in every history of a bus, what is published on one channel is never seen by a mailbox that
was opened on another. -/
theorem never_collide :
    (∀ k : Kind, Function.Injective fun id => (k.channel id).name) ∧
    (∀ k k' : Kind, k ≠ k' → ∀ id id' : String, (k.channel id).name ≠ (k'.channel id').name) ∧
    (∀ (k : Kind) (id : String), (k.channel id).name ≠ create.name) ∧
    ∀ {α : Type} (before after : List (Bus.Op (String × α))) (c c' : Channel) (m : α),
      Bus.Labelled (before ++ .subscribe c'.name :: after) → c ≠ c' →
      (c.name, m) ∉ Bus.seen before c'.name after := by
  refine ⟨fun k id id' h => ?_, fun k k' hne id id' h => ?_, fun k id h => ?_, ?_⟩
  · exact (Kind.channel_inj.1 (name_injective h)).2
  · exact hne (Kind.channel_inj.1 (name_injective h)).1
  · exact k.channel_ne_create id (name_injective h)
  · intro α before after c c' m hl hne hseen
    exact hne (name_injective (Bus.label_of_mem_seen hl hseen))

/-- A message for a session whose id is made to look like another channel, and one for the mailbox
itself. -/
def disguised : List (Bus.Op (String × ℕ)) :=
  [.publish (start "a/start").name ((start "a/start").name, 1),
    .publish (start "a").name ((start "a").name, 2), .receive 0]

theorem disguised_unseen :
    Bus.Labelled ([] ++ .subscribe (start "a").name :: disguised) ∧ start "a/start" ≠ start "a" ∧
      ((start "a/start").name, 1) ∉ Bus.seen [] (start "a").name disguised ∧
      ((start "a").name, 2) ∈ Bus.seen [] (start "a").name disguised := by
  have hl : Bus.Labelled ([] ++ .subscribe (start "a").name :: disguised) := by
    intro name p h
    simp only [disguised, List.nil_append, List.mem_cons, List.not_mem_nil, reduceCtorEq,
      Bus.Op.publish.injEq, false_or, or_false] at h
    rcases h with ⟨rfl, rfl⟩ | ⟨rfl, rfl⟩ <;> rfl
  have hne : start "a/start" ≠ start "a" := by decide
  exact ⟨hl, hne, never_collide.2.2.2 [] disguised _ _ 1 hl hne, by decide⟩

end Channel

end PullIngest
