import PullIngest.Proofs.Coordinator.Intake
import PullIngest.Proofs.Storage.Claims

/-!
# What a coordinator holds until its verdict

The sink of a session keeps its claim on the destination while bytes are missing, and gives it up
with the verdict, which is told in the same turn. A coordinator exits only after that.

* `Custody`, `custody_take`: what a turn makes of the claim;
* `Honest`, `Honest.take`, `Honest.claims_take`: a verdict that is in has been told, and no claim is
  left;
* `Honest.exit`: what a coordinator that exits leaves behind.
-/

namespace PullIngest

theorem Storage.claims_release_congr {s s' : Storage} (h : s'.claims = s.claims)
    (claim : Option (List Path.Component)) :
    (s'.release claim).claims = (s.release claim).claims := by
  cases claim with
  | none => exact h
  | some steps =>
    show s'.claims.erase steps = s.claims.erase steps
    rw [h]

/-- What is given up is what is no longer held. -/
theorem Storage.claims_release_perm {s : Storage} {claim : Option (List Path.Component)}
    {others : List (List Path.Component)} (h : s.claims.Perm (claim.toList ++ others)) :
    (s.release claim).claims.Perm others := by
  cases claim with
  | none => exact h
  | some steps =>
    have herase := h.erase steps
    rwa [Option.toList_some, List.singleton_append, List.erase_cons_head] at herase

namespace Coordinator

open Action

variable {c : Coordinator} {accepts : Channel → Bool} {now : ℕ} {s storage : Storage}
  {actions : List Action} {x : Occasion} {t : Turn} {k : Sink}
  {told told' : List (Channel × Message)}

/-- What a turn makes of the claim of a sink that had no verdict. -/
inductive Custody (k : Sink) (s : Storage) (t : Turn) : Prop
  /-- There is still no verdict. -/
  | keeps (hs : ∃ deadline, t.coordinator.stage = .pulling deadline)
      (hc : t.storage.claims = s.claims) (hk : t.coordinator.sink.claim? = k.claim?)
  /-- The claim goes with the verdict. -/
  | yields (hs : ∃ success expiry, t.coordinator.stage = .lingering success expiry)
      (hc : t.storage.claims = (s.release k.claim?).claims)
      (hk : t.coordinator.sink.claim? = none)

section Parts

variable (c) (accepts) (now) (actions)

theorem custody_abort (hc : storage.claims = s.claims) (hk : c.sink.claim? = k.claim?)
    (why : Abort) : Custody k s (c.abort accepts now storage actions why) := by
  obtain ⟨hclaims, hnone⟩ := c.sink.claims_fail storage why.message
  refine .yields ⟨_, _, rfl⟩ ?_ hnone
  rw [← hk, ← Storage.claims_release_congr hc]
  exact hclaims

theorem custody_finalize (hc : storage.claims = s.claims) (hk : c.sink.claim? = k.claim?) :
    Custody k s (c.finalize accepts now storage actions) := by
  obtain ⟨hclaims, hnone⟩ := c.sink.claims_finalize storage
  refine .yields ⟨_, _, rfl⟩ ?_ hnone
  rw [← hk, ← Storage.claims_release_congr hc]
  exact hclaims

variable {c accepts now actions} in
theorem custody_continues (hs : ∃ deadline, c.stage = .pulling deadline)
    (hc : storage.claims = s.claims) (hk : c.sink.claim? = k.claim?)
    (ht : Continues c accepts now storage actions t) : Custody k s t := by
  cases ht with
  | asks hr hsize => exact .keeps hs hc hk
  | unheard hr hsize why =>
    exact custody_abort { c with session := c.session.awaiting _ } accepts now _ hc hk why
  | completes hr => exact custody_finalize c accepts now actions hc hk
  | fails why => exact custody_abort c accepts now actions hc hk why

theorem custody_progress (hp : c.session.phase = .started ∨ c.session.phase = .requesting)
    (hc : storage.claims = s.claims) (hk : c.sink.claim? = k.claim?) :
    Custody k s (c.progress accepts now storage actions) := by
  have hcontinues := continues_requestNext
    { c with stage := .pulling (now + c.policy.idleTimeout.millis) } accepts now storage actions hp
  exact custody_continues (c := { c with stage := .pulling _ }) ⟨_, rfl⟩ hc hk hcontinues

end Parts

/-- A turn keeps the claim of a sink without a verdict, or gives it up with the verdict. -/
theorem custody_take {deadline : ℕ} (h : c.stage = .pulling deadline) (x : Occasion) :
    Custody c.sink x.storage (c.take x) := by
  have hpulls := pulls_take h x
  generalize c.take x = t at hpulls ⊢
  cases hpulls with
  | waits violations lines => exact .keeps ⟨deadline, h⟩ rfl rfl
  | fails violations why lines =>
    exact custody_abort { c with session := { c.session with violations } } x.accepts x.now _ rfl
      rfl why
  | starts hp =>
    exact custody_progress { c with session := { c.session with phase := .started } } x.accepts
      x.now [] (.inl rfl) rfl rfl
  | @refuses r data ha why =>
    exact custody_abort { c with session := c.session.advancedBy r.size } x.accepts x.now _ rfl rfl
      why
  | @takes r data sink storage ha hs =>
    obtain ⟨hc, hk⟩ := Sink.claims_accept hs
    exact custody_progress { c with session := c.session.advancedBy r.size, sink } x.accepts x.now
      _ (.inr rfl) hc hk

/-! ### Verdicts that have been told -/

/-- The verdict on a session is among what was published. -/
def Told (told : List (Channel × Message)) (session : String) (success : Bool) : Prop :=
  (.done session, .carrying session .done (Done.mk success)) ∈ told

theorem told_of_outward {session : String} {success : Bool}
    (h : tellsVerdict session success ∈ outward actions) :
    Told (told ++ published actions) session success :=
  List.mem_append_right _ (mem_published.2 ((mem_outward rfl).1 h))

/-- A coordinator that runs has told its verdict if it is in, and its sink has no claim then. -/
structure Honest (told : List (Channel × Message)) (c : Coordinator) : Prop where
  staged : Staged c
  runs : c.stage ≠ .exited
  verdict : ∀ success expiry, c.stage = .lingering success expiry →
    Told told c.session.id success ∧ c.sink.claim? = none

theorem Honest.mono (h : Honest told c) (ht : told ⊆ told') : Honest told' c :=
  ⟨h.staged, h.runs, fun success expiry hs => (h.verdict success expiry hs).imp_left (ht ·)⟩

theorem honest_new (policy : Policy) (id name : String) (size : UInt64) (sink : Sink) (now : ℕ)
    (told : List (Channel × Message)) :
    Honest told (.new policy (.new id name size) sink now) :=
  ⟨staged_new policy id name size sink now, nofun, nofun⟩

/-- A turn of a coordinator that goes on. -/
theorem Honest.take (h : Honest told c) (hn : (c.take x).coordinator.stage ≠ .exited) :
    Honest (told ++ published (c.take x).actions) (c.take x).coordinator := by
  refine ⟨h.staged.take x, hn, fun success expiry hl => ?_⟩
  cases hs : c.stage with
  | pulling deadline =>
    have hcustody := custody_take hs x
    have hsettles := settles_take ⟨⟨deadline, hs⟩, h.staged.pulling _ hs⟩ x
    generalize c.take x = t at hcustody hsettles hl ⊢
    refine ⟨?_, ?_⟩
    · cases hsettles with
      | goesOn hu hp =>
        obtain ⟨⟨deadline', hs'⟩, -⟩ := hu
        cases hs'.symm.trans hl
      | @concludes c' before call success' _ hm ht hg =>
        obtain ⟨expiry', hl'⟩ := ht.lingers
        obtain ⟨rfl, -⟩ : success' = success ∧ expiry' = expiry := by simpa using hl'.symm.trans hl
        have hid : t.coordinator.session.id = c'.session.id := by
          rw [ht.session_eq, Session.finish_id]
        rw [hid]
        exact told_of_outward (by rw [ht.outward_eq]; simp)
    · cases hcustody with
      | keeps hs' =>
        obtain ⟨deadline', hs'⟩ := hs'
        cases hs'.symm.trans hl
      | yields _ _ hk => exact hk
  | lingering success' expiry' =>
    have hlingers := lingers_take hs x
    rw [hlingers.stage_eq] at hl
    split_ifs at hl
    obtain ⟨htold, hk⟩ := h.verdict success expiry hl
    rw [hlingers.session_eq, hlingers.sink_eq]
    exact ⟨List.mem_append_left _ htold, hk⟩
  | exited => exact absurd hs h.runs

/-- The sinks of other sessions keep their claims. -/
theorem Honest.claims_take (h : Honest told c) {others : List (List Path.Component)}
    (hp : x.storage.claims.Perm (c.sink.claim?.toList ++ others)) :
    (c.take x).storage.claims.Perm ((c.take x).coordinator.sink.claim?.toList ++ others) := by
  cases hs : c.stage with
  | pulling deadline =>
    have hcustody := custody_take hs x
    generalize c.take x = t at hcustody ⊢
    cases hcustody with
    | keeps _ hc hk =>
      rw [hc, hk]
      exact hp
    | yields _ hc hk =>
      rw [hc, hk]
      exact Storage.claims_release_perm hp
  | lingering success expiry =>
    have hlingers := lingers_take hs x
    rw [hlingers.storage_eq, hlingers.sink_eq]
    exact hp
  | exited => exact absurd hs h.runs

/-- What is left of a coordinator after its last turn. -/
structure Departs (told : List (Channel × Message)) (c : Coordinator) (t : Turn) : Prop where
  session_eq : t.coordinator.session = c.session
  sink_eq : t.coordinator.sink = c.sink
  unclaimed : c.sink.claim? = none
  verdict : ∃ success, c.session.outcome? = some (.ofBool success) ∧ Told told c.session.id success

/-- A coordinator exits with a verdict that has been told, and without a claim. -/
theorem Honest.exit (h : Honest told c) (hx : (c.take x).coordinator.stage = .exited) :
    Departs told c (c.take x) := by
  cases hs : c.stage with
  | pulling deadline =>
    have hcustody := custody_take hs x
    generalize c.take x = t at hcustody hx
    cases hcustody with
    | keeps hs' =>
      obtain ⟨deadline', hs'⟩ := hs'
      cases hs'.symm.trans hx
    | yields hs' =>
      obtain ⟨success, expiry, hs'⟩ := hs'
      cases hs'.symm.trans hx
  | lingering success expiry =>
    have hlingers := lingers_take hs x
    obtain ⟨htold, hk⟩ := h.verdict success expiry hs
    exact ⟨hlingers.session_eq, hlingers.sink_eq, hk, success, h.staged.lingering _ _ hs, htold⟩
  | exited => exact absurd hs h.runs

end Coordinator

end PullIngest
