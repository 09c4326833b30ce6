import PullIngest.Proofs.Fleet.Headway

/-!
# The dialogues of a fleet

Every upload of a fleet is a dialogue of its own: it has channels that no other one uses, and what
is done on its behalf changes nothing for the others.

* `Fleet.Shows`: a fleet shows the dialogue of an upload;
* `Fleet.Orderly`: what holds of the bus and the server as a whole;
* `Fleet.Elsewhere`: nothing changes but one dialogue;
* `Fleet.Advances`: a step for one dialogue.
-/

namespace PullIngest

/-! ### Whose a channel is -/

theorem Channel.belongs.disjoint {c : Channel} {key key' : String} {session session' : Option String}
    (h : c.belongs key session) (hk : key ≠ key')
    (hs : ∀ id, session = some id → session' ≠ some id) : ¬ c.belongs key' session' := by
  intro h'
  cases c with
  | create => exact h
  | reply => exact hk (h.symm.trans h')
  | start | request | response | cancel | done => exact hs _ h h'

theorem Channel.belongs.mono {c : Channel} {key : String} {session session' : Option String}
    (h : c.belongs key session) (hs : ∀ id, session = some id → session' = some id) :
    c.belongs key session' := by
  cases c with
  | create => exact h
  | reply => exact h
  | start | request | response | cancel | done => exact hs _ h

theorem Channel.belongs.ne_create {c : Channel} {key : String} {session : Option String}
    (h : c.belongs key session) : c ≠ .create := by
  rintro rfl
  exact h

theorem mem_of_lookup {l : List (String × String)} {key id : String} (h : l.lookup key = some id) :
    (key, id) ∈ l := by
  obtain ⟨l₁, l₂, rfl, -⟩ := List.lookup_eq_some_iff.1 h
  simp

/-- Ids that were drawn for different requests are different. -/
theorem lookup_ne {l : List (String × String)} (hl : (l.map Prod.snd).Nodup) {key key' id : String}
    (hk : key ≠ key') (h : l.lookup key = some id) : l.lookup key' ≠ some id := by
  intro h'
  have he := List.inj_on_of_nodup_map hl (mem_of_lookup h) (mem_of_lookup h') rfl
  exact hk (congrArg Prod.fst he)

/-! ### Dialogues -/

/-- Who works for a request, with the mailboxes. -/
inductive Staff.Shows (key : String) : Desk → List Run → Staff → Table Channel ℕ → Prop
  | absent : Shows key .idle [] .absent ∅
  | holding {m : Message} : Shows key (.holding m) [] (.holding m) ∅
  | answering {todo : List Action} {mailboxes : Table Channel ℕ} {opened : Option Coordinator} :
      Shows key (.answering key todo mailboxes opened) [] (.answering todo opened) mailboxes
  | running {c : Coordinator} {mailboxes : Table Channel ℕ} {todo : List Action} :
      Shows key .idle [⟨c, mailboxes, todo⟩] (.running c todo) mailboxes

theorem Inboxes.load_eq {b : Bus Message} {mailboxes : Table Channel ℕ}
    {boxes : List (Channel × List Message)} (h : Inboxes b.on mailboxes boxes) :
    b.load mailboxes.keys = boxesLoad boxes := by
  unfold Bus.load boxesLoad
  rw [h.keys, List.map_map]
  congr 1
  refine List.map_congr_left fun i hi => ?_
  obtain ⟨n, -, hv⟩ := h.alone i hi
  simp [hv]

namespace Fleet

variable {k : ℕ} {policy : Policy} {disk : Disk} {u : Uploader} {us : Fin k → Uploader}
  {s s' : Fleet k} {i j : Fin k} {x x' : Dialogue} {mailboxes : Table Channel ℕ} {key : String}

/-- A fleet shows a dialogue. The other side has the given mailboxes. -/
structure Shows (u : Uploader) (s : Fleet k) (i : Fin k) (x : Dialogue)
    (mailboxes : Table Channel ℕ) : Prop where
  uploader : (s.uploads i).uploader = { u with stage := x.stage }
  todo : (s.uploads i).todo = x.todo
  staff : x.staff.Shows u.correlation (s.desk.about u.correlation) (s.runs u.correlation) mailboxes
  wires : Wires (Channel.belongs u.correlation x.session) s.bus (s.uploads i).mailboxes mailboxes
    x.ins x.outs
  calls : s.calls u.correlation = x.calls
  session : s.issued.lookup u.correlation = x.session
  asked : ∀ id, x.session = some id → s.asked id = x.asked

/-- The bus and the server are as they should be. -/
structure Orderly (policy : Policy) (disk : Disk) (s : Fleet k) : Prop where
  wired : s.bus.Wired
  requests : ∃ q, s.bus.on .create = [(s.requests, q)]
  policy_eq : s.server.policy = policy
  destination_eq : s.server.destination = .memory false none
  disk_eq : s.storage.disk = disk
  accepted : ∀ key, s.issued.lookup key = none → s.server.accepted.get? key = none
  distinct : (s.issued.map Prod.snd).Nodup
  asked : ∀ id, s.asked id ≠ 0 → id ∈ s.issued.map Prod.snd

/-- Nothing changes but the dialogue of one upload. -/
structure Elsewhere (key : String) (i : Fin k) (s s' : Fleet k) : Prop where
  uploads : ∀ j, j ≠ i → s'.uploads j = s.uploads j
  desk : ∀ key', key' ≠ key → s'.desk.about key' = s.desk.about key'
  runs : ∀ key', key' ≠ key → s'.runs key' = s.runs key'
  calls : ∀ key', key' ≠ key → s'.calls key' = s.calls key'
  issued : ∀ key', key' ≠ key → s'.issued.lookup key' = s.issued.lookup key'
  grows : ∀ id, s.issued.lookup key = some id → s'.issued.lookup key = some id
  asked : ∀ id, s'.issued.lookup key ≠ some id → s'.asked id = s.asked id
  bus : ∀ c, c ≠ .create → ¬ c.belongs key (s'.issued.lookup key) → s'.bus.on c = s.bus.on c

/-- A step is given by what it changes: `{ Elsewhere.refl key i s with … }`. -/
theorem Elsewhere.refl (key : String) (i : Fin k) (s : Fleet k) : Elsewhere key i s s where
  uploads _ _ := rfl
  desk _ _ := rfl
  runs _ _ := rfl
  calls _ _ := rfl
  issued _ _ := rfl
  grows _ h := h
  asked _ _ := rfl
  bus _ _ _ := rfl

/-- The dialogue of one upload goes on. -/
structure Advances (policy : Policy) (disk : Disk) (u : Uploader) (s s' : Fleet k) (i : Fin k)
    (x' : Dialogue) : Prop where
  orderly : s'.Orderly policy disk
  elsewhere : Elsewhere u.correlation i s s'
  shows : ∃ mailboxes, s'.Shows u i x' mailboxes

/-- All uploads are dialogues that go well. -/
structure Sound (policy : Policy) (disk : Disk) (us : Fin k → Uploader) (s : Fleet k) : Prop
    extends Orderly policy disk s where
  lanes : ∀ i, ∃ x mailboxes, s.Shows (us i) i x mailboxes ∧ Position policy.chunkSize (us i) x
  /-- Nobody else listens to anything. -/
  vacant : ∀ c, s.bus.on c ≠ [] →
    c = .create ∨ ∃ i, c.belongs (us i).correlation (s.issued.lookup (us i).correlation)
  /-- Nobody else asks for anything. -/
  known : ∀ key, (∀ i, key ≠ (us i).correlation) →
    s.desk.about key = .idle ∧ s.runs key = [] ∧ s.calls key = []

/-! ### What a fleet shows -/

theorem Shows.correlation_eq (h : s.Shows u i x mailboxes) : s.correlation i = u.correlation := by
  unfold correlation
  rw [h.uploader]

theorem Shows.stage_eq (h : s.Shows u i x mailboxes) : (s.uploads i).uploader.stage = x.stage := by
  rw [h.uploader]

theorem Shows.load_eq (h : s.Shows u i x mailboxes) :
    s.load i = x.load s.server.policy.chunkSize.toNat u := by
  have hnear := h.wires.near.load_eq
  have hfar := h.wires.far.load_eq
  unfold load Dialogue.load Upload.load
  rw [h.correlation_eq, h.uploader, h.todo, h.calls, hnear, ← hfar]
  have hnone : s.bus.load (∅ : Table Channel ℕ).keys = 0 := rfl
  have hstaff := h.staff
  generalize s.desk.about u.correlation = d, s.runs u.correlation = runs, x.staff = staff at hstaff
  cases hstaff with
  | absent | holding => simp [Desk.load, Staff.load, hnone]
  | answering =>
    simp only [Desk.load, Staff.load, List.map_nil, List.sum_nil]
    omega
  | running =>
    simp only [Desk.load, Run.load, Staff.load, List.map_cons, List.map_nil, List.sum_cons,
      List.sum_nil]
    omega

/-- The dialogue of another upload is as it was. -/
theorem Shows.elsewhere (h : s.Shows u j x mailboxes) (ho : s'.Orderly policy disk)
    (he : Elsewhere key i s s') (hj : j ≠ i) (hk : u.correlation ≠ key) :
    s'.Shows u j x mailboxes := by
  have hsession : s'.issued.lookup u.correlation = x.session := by
    rw [he.issued _ hk, h.session]
  have hother : ∀ id, x.session = some id → s'.issued.lookup key ≠ some id := by
    intro id hid
    exact lookup_ne ho.distinct hk (hsession.trans hid)
  exact
    { uploader := by rw [he.uploads j hj, h.uploader]
      todo := by rw [he.uploads j hj, h.todo]
      staff := by
        rw [he.desk _ hk, he.runs _ hk]
        exact h.staff
      wires := by
        rw [he.uploads j hj]
        exact h.wires.congr fun c hc => he.bus c hc.ne_create (hc.disjoint hk hother)
      calls := by rw [he.calls _ hk, h.calls]
      session := hsession
      asked := fun id hid => by rw [he.asked id (hother id hid), h.asked id hid] }

/-! ### One dialogue goes on -/

section

variable (hus : Function.Injective fun i => (us i).correlation)
include hus

theorem Sound.advance (h : s.Sound policy disk us) (ha : Advances policy disk (us i) s s' i x')
    (hp : Position policy.chunkSize (us i) x') : s'.Sound policy disk us where
  toOrderly := ha.orderly
  lanes j := by
    by_cases hj : j = i
    · subst hj
      obtain ⟨mailboxes, hs⟩ := ha.shows
      exact ⟨x', mailboxes, hs, hp⟩
    · obtain ⟨x, mailboxes, hs, hx⟩ := h.lanes j
      exact ⟨x, mailboxes, hs.elsewhere ha.orderly ha.elsewhere hj (hus.ne hj), hx⟩
  vacant c hc := by
    by_cases hcreate : c = .create
    · exact .inl hcreate
    by_cases hown : c.belongs (us i).correlation (s'.issued.lookup (us i).correlation)
    · exact .inr ⟨i, hown⟩
    rw [ha.elsewhere.bus c hcreate hown] at hc
    obtain hc | ⟨j, hj⟩ := h.vacant c hc
    · exact absurd hc hcreate
    · by_cases hji : j = i
      · subst hji
        exact absurd (hj.mono ha.elsewhere.grows) hown
      · exact .inr ⟨j, by rwa [ha.elsewhere.issued _ (hus.ne hji)]⟩
  known key hkey := by
    rw [ha.elsewhere.desk key (hkey i), ha.elsewhere.runs key (hkey i),
      ha.elsewhere.calls key (hkey i)]
    exact h.known key hkey

theorem Sound.measure_lt (h : s.Sound policy disk us) (hs : s.Shows (us i) i x mailboxes)
    (ha : Advances policy disk (us i) s s' i x')
    (hlt : x'.load policy.chunkSize.toNat (us i) + s'.exited.length <
      x.load policy.chunkSize.toNat (us i) + s.exited.length) : s'.measure < s.measure := by
  have hothers : ∑ j ∈ Finset.univ.erase i, s'.load j = ∑ j ∈ Finset.univ.erase i, s.load j := by
    refine Finset.sum_congr rfl fun j hj => ?_
    have hji : j ≠ i := Finset.ne_of_mem_erase hj
    obtain ⟨y, mailboxes, hs, -⟩ := h.lanes j
    rw [hs.load_eq, (hs.elsewhere ha.orderly ha.elsewhere hji (hus.ne hji)).load_eq,
      h.policy_eq, ha.orderly.policy_eq]
  obtain ⟨mailboxes', hs'⟩ := ha.shows
  have hload := hs.load_eq
  have hload' := hs'.load_eq
  rw [h.policy_eq] at hload
  rw [ha.orderly.policy_eq] at hload'
  unfold measure
  rw [← Finset.add_sum_erase _ _ (Finset.mem_univ i), ← Finset.add_sum_erase _ _ (Finset.mem_univ i),
    hothers]
  omega

end

end Fleet

end PullIngest
