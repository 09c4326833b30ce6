import PullIngest.Proofs.Fleet.Advance

/-!
# The queue of create requests

All uploads share one channel, that of the create requests. No upload has more than one request in
it, so that it has room for the requests of as many uploads as a mailbox holds messages.

* `Sound.room`: an upload without a request finds room for one;
* `Shows.uploadCall`, `Shows.take`, `Shows.answer`: a request is made, taken and answered.
-/

namespace PullIngest.Fleet

open Action

variable {k : ℕ} {policy : Policy} {disk : Disk} {u : Uploader} {us : Fin k → Uploader}
  {s s' : Fleet k} {i : Fin k} {x : Dialogue} {mailboxes : Table Channel ℕ} {q : List Message}
  {m : Message}

theorem calls_eq (hq : s.bus.on .create = [(s.requests, q)]) (key : String) :
    s.calls key = q.filter fun m => m.id = key := by
  unfold calls
  rw [hq]
  simp

theorem Sound.room (hk : k ≤ Bus.capacity)
    (h : s.Sound policy disk us) (hs : s.Shows (us i) i x mailboxes) (hx : x.calls = []) :
    ∃ q, s.bus.on .create = [(s.requests, q)] ∧ q.length < Bus.capacity := by
  obtain ⟨q, hq⟩ := h.requests
  refine ⟨q, hq, ?_⟩
  -- Every id is in the queue at most once.
  have hcount : ∀ key, (s.calls key).length = (q.map Message.id).count key := by
    intro key
    rw [calls_eq hq, List.count_eq_countP, List.countP_map, List.countP_eq_length_filter]
    congr 2
  have hnodup : (q.map Message.id).Nodup := by
    rw [List.nodup_iff_count_le_one]
    intro key
    rw [← hcount]
    by_cases hkey : ∀ j, key ≠ (us j).correlation
    · simp [(h.known key hkey).2.2]
    · obtain ⟨j, hj⟩ := not_forall.1 hkey
      obtain ⟨y, mailboxes, hy, hp⟩ := h.lanes j
      rw [not_not.1 hj, hy.calls]
      exact hp.calls_le_one
  -- The ids are those of other uploads.
  have hsub : (q.map Message.id).toFinset ⊆
      (Finset.univ.erase i).image fun j => (us j).correlation := by
    intro key hmem
    have hne : s.calls key ≠ [] := by
      intro he
      have hzero : (q.map Message.id).count key = 0 := by rw [← hcount, he]; rfl
      exact List.count_eq_zero.1 hzero (List.mem_toFinset.1 hmem)
    by_cases hkey : ∀ j, key ≠ (us j).correlation
    · exact absurd (h.known key hkey).2.2 hne
    · obtain ⟨j, hj⟩ := not_forall.1 hkey
      refine Finset.mem_image.2 ⟨j, Finset.mem_erase.2 ⟨?_, Finset.mem_univ j⟩, (not_not.1 hj).symm⟩
      rintro rfl
      rw [not_not.1 hj, hs.calls, hx] at hne
      exact hne rfl
  have hle := Finset.card_le_card hsub
  rw [List.toFinset_card_of_nodup hnodup, List.length_map] at hle
  have himage := Finset.card_image_le (s := Finset.univ.erase i) (f := fun j => (us j).correlation)
  rw [Finset.card_erase_of_mem (Finset.mem_univ i), Finset.card_univ, Fintype.card_fin] at himage
  have hpos : 0 < k := i.pos
  omega

theorem Shows.uploadCall (h : s.Shows u i x mailboxes) (ho : s.Orderly policy disk)
    (hq : s.bus.on .create = [(s.requests, q)]) (hroom : q.length < Bus.capacity)
    (hm : m.id = u.correlation) (hx : x.calls = []) (rest : List Action) :
    Advances policy disk u s (s.uploadAct i (.publish .create m) rest) i
      { x with todo := rest, calls := [m] } := by
  have hon := Bus.on_update (Bus.unreadOn_publish ho.wired hq hroom m)
  have hself : (s.uploadAct i (.publish .create m) rest).uploads i =
      ⟨(s.uploads i).uploader, (s.uploads i).mailboxes, rest⟩ := Function.update_self _ _ _
  have hnew : (s.uploadAct i (.publish .create m) rest).bus.on .create =
      [(s.requests, q ++ [m])] := by
    show (s.bus.publish Channel.create.name m).on .create = _
    rw [hon, Function.update_self]
  have hbus : ∀ c, c ≠ .create →
      (s.uploadAct i (.publish .create m) rest).bus.on c = s.bus.on c := by
    intro c hc
    show (s.bus.publish Channel.create.name m).on c = _
    rw [hon, Function.update_of_ne hc]
  have hcalls : ∀ key, (s.uploadAct i (.publish .create m) rest).calls key =
      s.calls key ++ if m.id = key then [m] else [] := by
    intro key
    rw [calls_eq hq, calls_eq hnew, List.filter_append, List.filter_singleton]
    simp
  have hasked : ∀ id, (s.uploadAct i (.publish .create m) rest).asked id = s.asked id := by
    intro id
    rw [asked_append s rfl]
    simp [published]
  refine ⟨?_, ?_, mailboxes, ?_⟩
  · exact
      { wired := ho.wired.publish _ m
        requests := ⟨_, hnew⟩
        policy_eq := ho.policy_eq
        destination_eq := ho.destination_eq
        disk_eq := ho.disk_eq
        accepted := ho.accepted
        distinct := ho.distinct
        asked := fun id hid => ho.asked id (hasked id ▸ hid) }
  · exact
      { Elsewhere.refl u.correlation i s with
        uploads := fun j hj => Function.update_of_ne hj _ _
        calls := fun key hk => by
          rw [hcalls, hm, if_neg (Ne.symm hk), List.append_nil]
        asked := fun id _ => hasked id
        bus := fun c hc _ => hbus c hc }
  · exact
      { uploader := by
          rw [hself]
          exact h.uploader
        todo := by rw [hself]
        staff := h.staff
        wires := by
          rw [hself]
          exact h.wires.congr fun c hc => hbus c hc.ne_create
        calls := by rw [hcalls, if_pos hm, h.calls, hx]; rfl
        session := h.session
        asked := fun id hid => (hasked id).trans (h.asked id hid) }

/-- Every request is that of some upload. -/
theorem Sound.exists_lane (h : s.Sound policy disk us) {key : String}
    (hkey : s.desk.about key ≠ .idle ∨ s.runs key ≠ [] ∨ s.calls key ≠ []) :
    ∃ i, key = (us i).correlation := by
  by_contra hnone
  obtain ⟨hdesk, hruns, hcalls⟩ := h.known key fun i hi => hnone ⟨i, hi⟩
  exact hkey.elim (· hdesk) (·.elim (· hruns) (· hcalls))

/-- The answer that the server is at is part of a dialogue. -/
theorem Sound.exists_answering (h : s.Sound policy disk us) {key : String} {todo : List Action}
    {mailboxes : Table Channel ℕ} {opened : Option Coordinator}
    (hd : s.desk = .answering key todo mailboxes opened) :
    ∃ i x, key = (us i).correlation ∧ s.Shows (us i) i x mailboxes ∧
      Position policy.chunkSize (us i) x ∧ x.staff = .answering todo opened := by
  have habout : s.desk.about key = .answering key todo mailboxes opened := by
    rw [hd]
    exact about_self rfl
  obtain ⟨i, rfl⟩ := h.exists_lane (.inl (by rw [habout]; simp))
  obtain ⟨x, mailboxes', hs, hp⟩ := h.lanes i
  obtain ⟨rfl, hstaff, -⟩ := hs.answering hd
  exact ⟨i, x, rfl, hs, hp, hstaff⟩

/-- A coordinator is part of a dialogue. -/
theorem Sound.exists_running (h : s.Sound policy disk us) {key : String} {before after : List Run}
    {r : Run} (hr : s.runs key = before ++ r :: after) :
    ∃ i x, key = (us i).correlation ∧ s.Shows (us i) i x r.mailboxes ∧
      Position policy.chunkSize (us i) x ∧ x.staff = .running r.coordinator r.todo := by
  obtain ⟨i, rfl⟩ := h.exists_lane (.inr (.inl (by rw [hr]; simp)))
  obtain ⟨x, mailboxes, hs, hp⟩ := h.lanes i
  obtain ⟨-, -, rfl, hstaff, -⟩ := hs.run hr
  exact ⟨i, x, rfl, hs, hp, hstaff⟩

theorem Shows.take (h : s.Shows u i x mailboxes) (ho : s.Orderly policy disk) (hd : s.desk = .idle)
    {b : Bus Message} (ht : s.bus.take? s.requests = some (m, b)) (hm : m.id = u.correlation)
    {calls : List Message} (hx : x.calls = m :: calls) (hstaff : x.staff = .absent) :
    Advances policy disk u s { s with bus := b, desk := .holding m } i
      { x with staff := .holding m, calls } := by
  obtain ⟨q', hq⟩ := ho.requests
  obtain ⟨q, rfl, hview⟩ := Bus.unreadOn_take ho.wired hq ht
  have hon := Bus.on_update hview
  have hnew : b.on .create = [(s.requests, q)] := by rw [hon, Function.update_self]
  have hcalls : ∀ key, s.calls key = (if m.id = key then [m] else []) ++
      ({ s with bus := b, desk := .holding m } : Fleet k).calls key := by
    intro key
    rw [calls_eq hq, calls_eq hnew, List.filter_cons]
    split_ifs <;> simp_all
  have hbus : ∀ c, c ≠ .create → b.on c = s.bus.on c := by
    intro c hc
    rw [hon, Function.update_of_ne hc]
  have hdesk : (Desk.holding m).correlation? = some u.correlation := congrArg some hm
  refine ⟨?_, ?_, mailboxes, ?_⟩
  · exact { ho with wired := ho.wired.take ht, requests := ⟨q, hnew⟩ }
  · exact
      { Elsewhere.refl u.correlation i s with
        desk := fun key hk => by
          rw [hd]
          exact about_of_ne hdesk hk
        calls := fun key hk => by
          rw [hcalls key, hm, if_neg (Ne.symm hk), List.nil_append]
        bus := fun c hc _ => hbus c hc }
  · exact
      { uploader := h.uploader
        todo := h.todo
        staff := by
          have hs := h.staff
          rw [hstaff, hd, about_idle] at hs
          show (Staff.holding m).Shows u.correlation ((Desk.holding m).about u.correlation)
            (s.runs u.correlation) mailboxes
          rw [about_self hdesk]
          generalize s.runs u.correlation = runs at hs ⊢
          cases hs
          exact .holding
        wires := h.wires.congr fun c hc => hbus c hc.ne_create
        calls := by
          have he := hcalls u.correlation
          rw [if_pos hm, h.calls, hx] at he
          exact (List.cons.inj he).2.symm
        session := h.session
        asked := h.asked }

/-! ### Answers -/

/-- The server accepts a request. -/
theorem Orderly.accept (ho : s.Orderly policy disk) {key fresh : String}
    (hf : fresh ∉ s.issued.map Prod.snd) (registry : Registry) (desk : Desk) :
    ({ s with server := { s.server with registry, accepted := s.server.accepted.set key fresh }
              desk
              issued := (key, fresh) :: s.issued } : Fleet k).Orderly policy disk where
  wired := ho.wired
  requests := ho.requests
  policy_eq := ho.policy_eq
  destination_eq := ho.destination_eq
  disk_eq := ho.disk_eq
  accepted key' hkey' := by
    obtain ⟨hk, hnone⟩ : key' ≠ key ∧ s.issued.lookup key' = none := by
      by_cases hk : key' = key
      · subst hk
        rw [List.lookup_cons_self] at hkey'
        cases hkey'
      · rw [List.lookup_cons, beq_false_of_ne hk] at hkey'
        exact ⟨hk, hkey'⟩
    exact (Table.get?_set_ne _ (Ne.symm hk) _).trans (ho.accepted key' hnone)
  distinct := List.nodup_cons.2 ⟨hf, ho.distinct⟩
  asked id hid := List.mem_cons_of_mem _ (ho.asked id hid)

/-- A dialogue that gets a session owns the channels of the session too. -/
theorem wires_accept {b : Bus Message} {mailboxes mailboxes' : Table Channel ℕ}
    {boxes boxes' : List (Channel × List Message)} {key fresh : String}
    (h : Wires (Channel.belongs key none) b mailboxes mailboxes' boxes boxes')
    (hvacant : ∀ c : Channel, c.belongs key (some fresh) → ¬ c.belongs key none → b.on c = []) :
    Wires (Channel.belongs key (some fresh)) b mailboxes mailboxes' boxes boxes' where
  near := h.near
  far := h.far
  own_of_mem c hc := (h.own_of_mem c hc).mono fun _ hid => by cases hid
  mem_of_own c hc hne := by
    by_cases hold : c.belongs key none
    · exact h.mem_of_own c hold hne
    · exact absurd (hvacant c hc hold) hne

theorem Shows.answer (h : s.Shows u i x mailboxes) (ho : s.Orderly policy disk) {fresh : String}
    (hd : s.desk = .holding m) (hm : m = u.createRequest) (hins : (.reply u.correlation, []) ∈ x.ins)
    (hsession : x.session = none) (hx : x.asked = 0) (hu : u.Fit disk)
    (hf : fresh ∉ s.issued.map Prod.snd)
    (hvacant : ∀ c, c.belongs u.correlation (some fresh) → ¬ c.belongs u.correlation none →
      s.bus.on c = []) (now : ℕ) :
    ∃ c : Coordinator, c.session.phase = .created ∧
      c.Serving fresh policy.chunkSize u.source.length.toNat 0 ∧
      Advances policy disk u s (s.answer m fresh now) i
        { x with
          staff := .answering (Server.welcome u.correlation fresh) (some c)
          session := some fresh } := by
  subst hm
  have hlookup : s.issued.lookup u.correlation = none := h.session.trans hsession
  have haccepted : s.server.acceptedSession? u.correlation = none :=
    Server.acceptedSession?_eq_none fun _ hs => nomatch (ho.accepted _ hlookup).symm.trans hs.1
  have hopen : s.bus.takes (.reply u.correlation) = true := h.wires.accepts (.inl hins)
  obtain ⟨c, hphase, hserving, hcreate⟩ :=
    Server.handleCreate_fit hu haccepted ho.destination_eq hopen now s.storage fresh
  rw [ho.policy_eq] at hserving
  refine ⟨c, hphase, hserving, ?_⟩
  obtain ⟨rfl, hruns⟩ : mailboxes = ∅ ∧ s.runs u.correlation = [] := by
    have hs := h.staff
    rw [hd, about_self rfl] at hs
    generalize s.runs u.correlation = runs, x.staff = staff at hs ⊢
    cases hs
    exact ⟨rfl, rfl⟩
  have hstate : s.answer u.createRequest fresh now = { s with
      server := { s.server with registry := s.server.registry.create fresh u.name u.source.length
                                accepted := s.server.accepted.set u.correlation fresh }
      desk := .answering u.correlation (Server.welcome u.correlation fresh) ∅ (some c)
      issued := (u.correlation, fresh) :: s.issued } := by
    unfold Fleet.answer
    rw [hcreate]
    rfl
  rw [hstate]
  have hwires := h.wires
  rw [hsession] at hwires
  refine ⟨ho.accept hf _ _, ?_, ∅, ?_⟩
  · exact
      { Elsewhere.refl u.correlation i s with
        desk := fun key hk => by
          have hdesk : (Desk.holding u.createRequest).correlation? = some u.correlation := rfl
          rw [hd, about_of_ne hdesk hk]
          exact about_of_ne rfl hk
        issued := fun key hk => by
          rw [List.lookup_cons, beq_false_of_ne hk]
        grows := fun id hid => by
          rw [hlookup] at hid
          cases hid
        asked := fun _ _ => rfl
        bus := fun _ _ _ => rfl }
  · exact
      { uploader := h.uploader
        todo := h.todo
        staff := by
          show Staff.Shows u.correlation (Desk.about (.answering u.correlation _ _ _) u.correlation)
            (s.runs u.correlation) _ _
          rw [hruns, about_self rfl]
          exact .answering
        wires := wires_accept hwires hvacant
        calls := h.calls
        session := List.lookup_cons_self
        asked := fun id hid => by
          obtain rfl : fresh = id := Option.some.inj hid
          rw [hx]
          by_contra hne
          exact hf (ho.asked fresh hne) }

end PullIngest.Fleet
