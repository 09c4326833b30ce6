import PullIngest.Proofs.Storage.Claims
import PullIngest.Proofs.Text.Path

/-!
# Who holds which destination

Any number of sinks are opened in one directory, under any names and for any sessions, and used and
dropped in any order, while others change the disk as they like. A destination is claimed by the one
sink that was opened for it and has no verdict yet, and by nobody else.

* `Roster`, `perform`, `Reachable`: the sinks that are held, one operation, and runs;
* `Outcome`, `perform_outcome`: everything that an operation does to sinks and claims;
* `Sound`, `sound_of_reachable`: the claims are the destinations of the sinks without a verdict;
* `exclusive_of_reachable`: what the claims promise to whoever opens, judges or drops a sink.
-/

namespace PullIngest

open FileSink

/-- A sink with the name that it was opened under. -/
structure Holder where
  name : String
  sink : FileSink
  /-- Whether the sink has its verdict. -/
  judged : Bool := false

/-- A directory with the sinks that were opened in it and are still held, each by a number. -/
structure Roster where
  base : List Char
  onlyKnown : Bool := false
  storage : Storage := {}
  holders : Table ℕ Holder := ∅

namespace Roster

/-- What can be asked for. -/
inductive Op where
  | openSink (session name : String) (size : UInt64)
  | accept (offset : UInt64) (data : List UInt8)
  | finalize
  | fail
  | drop
  deriving DecidableEq

/-- Whether an operation is the last that a sink is good for. -/
def Op.ends : Op → Bool
  | finalize | fail | drop => true
  | _ => false

/-- What is answered. -/
inductive Answer where
  | done
  | verdict (stored : Bool)
  | refused (e : TransferError)
  /-- The number is not free, or nobody has it. -/
  | idle
  deriving DecidableEq

/-- One operation on the sink with a number. -/
def perform (r : Roster) (h : ℕ) (op : Op) : Answer × Roster :=
  match op, r.holders.get? h with
  | .openSink session name size, none =>
    match openClaimed r.base session name size r.onlyKnown r.storage with
    | (.ok sink, storage) =>
      (.done, { r with storage, holders := r.holders.set h { name, sink } })
    | (.error e, storage) => (.refused e, { r with storage })
  | .accept offset data, some w =>
    match w.sink.accept r.storage.disk offset data with
    | .ok (sink, disk) =>
      (.done, { r with storage := { r.storage with disk }
                       holders := r.holders.set h { w with sink } })
    | .error e => (.refused e, r)
  | .finalize, some w =>
    let (stored, sink, storage, _) := w.sink.finalize r.storage
    (.verdict stored,
      { r with storage, holders := r.holders.set h { w with sink, judged := true } })
  | .fail, some w =>
    let (sink, storage, _) := w.sink.fail r.storage
    (.done, { r with storage, holders := r.holders.set h { w with sink, judged := true } })
  | .drop, some w =>
    (.done, { r with storage := (w.sink.drop r.storage).1, holders := r.holders.erase h })
  | _, _ => (.idle, r)

/-- What can be reached from a directory without sinks. -/
inductive Reachable : Roster → Prop
  | start {r : Roster} (hh : r.holders = ∅) (hc : r.storage.claims = []) : Reachable r
  | step {r : Roster} (hr : Reachable r) (h : ℕ) (op : Op) : Reachable (r.perform h op).2
  /-- Somebody else changes the disk. -/
  | disturb {r : Roster} (hr : Reachable r) (disk : Disk) :
      Reachable { r with storage := { r.storage with disk } }

/-- The final path of a name, by its steps. -/
def destination (r : Roster) (name : String) : List Path.Component :=
  Path.components (Path.join r.base name.toList)

/-- A sink that was opened for a destination has no verdict yet. -/
def Holds (r : Roster) (h : ℕ) (steps : List Path.Component) : Prop :=
  ∃ w, r.holders.get? h = some w ∧ w.judged = false ∧ r.destination w.name = steps

variable {r r' : Roster} {h h' : ℕ} {op : Op} {w w' : Holder} {steps : List Path.Component}

/-! ### One operation -/

/-- What an operation on the sink with a number does to the sinks and to the claims. -/
inductive Outcome (r : Roster) (h : ℕ) : Op → Answer × Roster → Prop
  | idle (op : Op) (hop : op.ends → r.holders.get? h = none) : Outcome r h op (.idle, r)
  | refuses {op : Op} (hop : op.ends = false) (e : TransferError) {storage : Storage}
      (hc : storage.claims = r.storage.claims) :
      Outcome r h op (.refused e, { r with storage })
  | opens {session name : String} {size : UInt64} {storage : Storage} {sink : FileSink}
      (hn : r.holders.get? h = none) (hfree : r.destination name ∉ r.storage.claims)
      (hc : storage.claims = r.storage.claims ++ [r.destination name])
      (hclaim : sink.claim = some (r.destination name))
      (hpath : sink.finalPath = Path.join r.base name.toList) :
      Outcome r h (.openSink session name size)
        (.done, { r with storage, holders := r.holders.set h { name, sink } })
  | accepts {offset : UInt64} {data : List UInt8} {w : Holder} {storage : Storage}
      {sink : FileSink} (hw : r.holders.get? h = some w) (hc : storage.claims = r.storage.claims)
      (hclaim : sink.claim = w.sink.claim) (hpath : sink.finalPath = w.sink.finalPath)
      (hfile : w.sink.file ≠ none) :
      Outcome r h (.accept offset data)
        (.done, { r with storage, holders := r.holders.set h { w with sink } })
  | judges {op : Op} (hop : op.ends = true) {w : Holder} (hw : r.holders.get? h = some w)
      (answer : Answer) {storage : Storage}
      (hc : storage.claims = (r.storage.release w.sink.claim).claims) :
      Outcome r h op (answer, { r with storage
                                       holders := r.holders.set h
                                         { w with sink := w.sink.closed, judged := true } })
  | drops {w : Holder} (hw : r.holders.get? h = some w) {storage : Storage}
      (hc : storage.claims = (r.storage.release w.sink.claim).claims) :
      Outcome r h .drop (.done, { r with storage, holders := r.holders.erase h })

theorem perform_outcome (r : Roster) (h : ℕ) (op : Op) : Outcome r h op (r.perform h op) := by
  cases op with
  | openSink session name size =>
    unfold perform
    cases hw : r.holders.get? h with
    | some w => exact .idle _ nofun
    | none =>
      dsimp only
      have hopens := opens_openClaimed r.base session name size r.onlyKnown r.storage
      generalize openClaimed r.base session name size r.onlyKnown r.storage = t at hopens ⊢
      cases hopens with
      | invalid cause hv => exact .refuses rfl _ rfl
      | claimed hv hc => exact .refuses rfl _ rfl
      | fails hv hc cause disk => exact .refuses rfl _ rfl
      | opens hv hc hf =>
        obtain ⟨directory, d, n, -, -, rfl⟩ := Sink.create_cases hf
        exact .opens hw hc rfl rfl rfl
  | accept offset data =>
    unfold perform
    cases hw : r.holders.get? h with
    | none => exact .idle _ nofun
    | some w =>
      dsimp only
      split
      · next ha =>
        obtain ⟨n, head, hn, -, -, rfl⟩ := Sink.file_accept ha
        exact .accepts hw rfl rfl rfl (by rw [hn]; exact nofun)
      · exact .refuses rfl _ rfl
  | finalize =>
    unfold perform
    cases hw : r.holders.get? h with
    | none => exact .idle _ fun _ => hw
    | some w =>
      have hclosed := w.sink.closed_of_finalize r.storage
      have hclaims := w.sink.claims_finalize r.storage
      dsimp only
      rw [hclosed]
      exact .judges rfl hw _ hclaims
  | fail =>
    unfold perform
    cases hw : r.holders.get? h with
    | none => exact .idle _ fun _ => hw
    | some w => exact .judges rfl hw _ (w.sink.claims_fail r.storage)
  | drop =>
    unfold perform
    cases hw : r.holders.get? h with
    | none => exact .idle _ fun _ => hw
    | some w => exact .drops hw (w.sink.claims_drop r.storage)

/-! ### Sound rosters -/

/-- A sink writes for the name that it was opened under, and holds the claim until its verdict. -/
structure Fits (base : List Char) (w : Holder) : Prop where
  path : w.sink.finalPath = Path.join base w.name.toList
  claim : w.sink.claim = if w.judged then none else some (Path.components w.sink.finalPath)
  file : w.judged = true → w.sink.file = none

/-- The claims are the destinations of the sinks without a verdict, and no two of these have the
same. -/
structure Sound (r : Roster) : Prop where
  nodup : r.storage.claims.Nodup
  mem_claims : ∀ steps, steps ∈ r.storage.claims ↔ ∃ h, r.Holds h steps
  apart : ∀ h h' steps, r.Holds h steps → r.Holds h' steps → h = h'
  fits : ∀ h w, r.holders.get? h = some w → Fits r.base w

theorem Fits.claim_of_free (hw : Fits r.base w) (hj : w.judged = false) :
    w.sink.claim = some (r.destination w.name) := by
  rw [hw.claim, hj, hw.path]
  rfl

/-- The sink after its verdict. -/
theorem Fits.closed (hw : Fits r.base w) :
    Fits r.base { w with sink := w.sink.closed, judged := true } :=
  ⟨hw.path, rfl, fun _ => rfl⟩

/-- Who holds what once a sink is put under a number. -/
theorem holds_set {storage : Storage} :
    ({ r with storage, holders := r.holders.set h w } : Roster).Holds h' steps ↔
      (h' = h ∧ w.judged = false ∧ r.destination w.name = steps) ∨
        (h' ≠ h ∧ r.Holds h' steps) := by
  unfold Holds
  dsimp only
  rw [Table.get?_set]
  by_cases he : h = h'
  · subst he
    rw [if_pos rfl]
    constructor
    · rintro ⟨w', hw', hj, hd⟩
      obtain rfl := Option.some.inj hw'
      exact .inl ⟨rfl, hj, hd⟩
    · rintro (⟨-, hj, hd⟩ | ⟨hne, -⟩)
      · exact ⟨w, rfl, hj, hd⟩
      · exact absurd rfl hne
  · rw [if_neg he]
    constructor
    · exact fun hh => .inr ⟨fun e => he e.symm, hh⟩
    · rintro (⟨rfl, -⟩ | ⟨-, hh⟩)
      · exact absurd rfl he
      · exact hh

/-- Who holds what once a number is free again. -/
theorem holds_erase {storage : Storage} :
    ({ r with storage, holders := r.holders.erase h } : Roster).Holds h' steps ↔
      r.Holds h' steps ∧ h' ≠ h := by
  unfold Holds
  dsimp only
  rw [Table.get?_erase]
  by_cases he : h = h'
  · simp [he]
  · rw [if_neg he]
    exact ⟨fun hh => ⟨hh, fun e => he e.symm⟩, fun hh => hh.1⟩

theorem Sound.fits_set (hs : Sound r) (hw : Fits r.base w) (k : ℕ) (w' : Holder)
    (hk : (r.holders.set h w).get? k = some w') : Fits r.base w' := by
  rw [Table.get?_set] at hk
  split_ifs at hk
  · obtain rfl := Option.some.inj hk
    exact hw
  · exact hs.fits k w' hk

theorem Sound.of_eq (hs : Sound r) (hb : r'.base = r.base)
    (hc : r'.storage.claims = r.storage.claims)
    (hholds : ∀ h steps, r'.Holds h steps ↔ r.Holds h steps)
    (hfits : ∀ h w, r'.holders.get? h = some w → Fits r.base w) : Sound r' where
  nodup := hc ▸ hs.nodup
  mem_claims steps := by simp only [hc, hs.mem_claims, hholds]
  apart h h' steps hh hh' := hs.apart h h' steps ((hholds _ _).1 hh) ((hholds _ _).1 hh')
  fits h w hw := hb ▸ hfits h w hw

/-- The sink with a number has no claim any more, and the others have theirs. -/
theorem Sound.released (hs : Sound r) (hw : r.holders.get? h = some w) (hb : r'.base = r.base)
    (hc : r'.storage.claims = (r.storage.release w.sink.claim).claims)
    (hholds : ∀ k steps, r'.Holds k steps ↔ r.Holds k steps ∧ k ≠ h)
    (hfits : ∀ h w, r'.holders.get? h = some w → Fits r.base w) : Sound r' := by
  cases hj : w.judged with
  | true =>
    -- The claim went with the verdict.
    rw [(hs.fits h w hw).claim, if_pos hj] at hc
    have hnot : ∀ k steps, r.Holds k steps → k ≠ h := by
      rintro k steps ⟨w', hw', hj', -⟩ rfl
      obtain rfl := Option.some.inj (hw.symm.trans hw')
      rw [hj] at hj'
      cases hj'
    exact hs.of_eq hb hc (fun k steps => (hholds k steps).trans
      ⟨fun hk => hk.1, fun hk => ⟨hk, hnot k steps hk⟩⟩) hfits
  | false =>
    rw [(hs.fits h w hw).claim_of_free hj] at hc
    have hown : r.Holds h (r.destination w.name) := ⟨w, hw, hj, rfl⟩
    change r'.storage.claims = r.storage.claims.erase (r.destination w.name) at hc
    refine ⟨hc ▸ hs.nodup.erase _, fun steps => ?_, fun k k' steps hk hk' => ?_,
      fun k w' hk => hb ▸ hfits k w' hk⟩
    · rw [hc, hs.nodup.mem_erase_iff, hs.mem_claims]
      constructor
      · rintro ⟨hne, k, hk⟩
        refine ⟨k, (hholds k steps).2 ⟨hk, ?_⟩⟩
        rintro rfl
        obtain ⟨w', hw', -, rfl⟩ := hk
        obtain rfl := Option.some.inj (hw.symm.trans hw')
        exact hne rfl
      · rintro ⟨k, hk⟩
        obtain ⟨hk, hne⟩ := (hholds k steps).1 hk
        refine ⟨?_, k, hk⟩
        rintro rfl
        exact hne (hs.apart k h _ hk hown)
    · exact hs.apart k k' steps ((hholds _ _).1 hk).1 ((hholds _ _).1 hk').1

/-- A destination that nobody claims goes to the sink that is opened for it. -/
theorem Sound.opened (hs : Sound r) (hn : r.holders.get? h = none)
    (hw : Fits r.base w) (hj : w.judged = false)
    (hfree : r.destination w.name ∉ r.storage.claims) {storage : Storage}
    (hc : storage.claims = r.storage.claims ++ [r.destination w.name]) :
    Sound { r with storage, holders := r.holders.set h w } := by
  have hne : ∀ {k steps}, r.Holds k steps → k ≠ h := by
    rintro k steps ⟨w', hw', -⟩ rfl
    rw [hn] at hw'
    cases hw'
  have hother : ∀ {k}, ¬ r.Holds k (r.destination w.name) :=
    fun hk => hfree ((hs.mem_claims _).2 ⟨_, hk⟩)
  refine ⟨?_, fun steps => ?_, fun k k' steps hk hk' => ?_, hs.fits_set hw⟩
  · show storage.claims.Nodup
    rw [hc, List.nodup_append]
    refine ⟨hs.nodup, by simp, fun a ha b hb => ?_⟩
    rintro rfl
    exact hfree (List.mem_singleton.1 hb ▸ ha)
  · show steps ∈ storage.claims ↔ _
    simp only [hc, List.mem_append, List.mem_singleton, hs.mem_claims, holds_set]
    constructor
    · rintro (⟨k, hk⟩ | rfl)
      · exact ⟨k, .inr ⟨hne hk, hk⟩⟩
      · exact ⟨h, .inl ⟨rfl, hj, rfl⟩⟩
    · rintro ⟨k, ⟨-, -, rfl⟩ | ⟨-, hk⟩⟩
      · exact .inr rfl
      · exact .inl ⟨k, hk⟩
  · rcases holds_set.1 hk with ⟨hkh, -, rfl⟩ | ⟨-, hk⟩
    · rcases holds_set.1 hk' with ⟨hkh', -, -⟩ | ⟨-, hk'⟩
      · exact hkh.trans hkh'.symm
      · exact absurd hk' hother
    · rcases holds_set.1 hk' with ⟨-, -, rfl⟩ | ⟨-, hk'⟩
      · exact absurd hk hother
      · exact hs.apart k k' steps hk hk'

/-- **No operation upsets the roster.** -/
theorem Sound.step (hs : Sound r) (h : ℕ) (op : Op) : Sound (r.perform h op).2 := by
  have ho := perform_outcome r h op
  generalize r.perform h op = t at ho ⊢
  cases ho with
  | idle => exact hs
  | refuses hop e hc => exact hs.of_eq rfl hc (fun _ _ => Iff.rfl) hs.fits
  | @opens session name size storage sink hn hfree hc hclaim hpath =>
    have hfits : Fits r.base { name, sink } := by
      refine ⟨hpath, ?_, fun hj => absurd hj Bool.false_ne_true⟩
      rw [hclaim, hpath]
      rfl
    exact hs.opened hn hfits rfl hfree hc
  | @accepts _ _ w storage sink hw hc hclaim hpath hfile =>
    have hfits := hs.fits h w hw
    have hsame : Fits r.base { w with sink } :=
      ⟨hpath.trans hfits.path, by rw [hclaim, hpath]; exact hfits.claim,
        fun hj => absurd (hfits.file hj) hfile⟩
    refine hs.of_eq rfl hc (fun k steps => ?_) (hs.fits_set hsame)
    rw [holds_set]
    constructor
    · rintro (⟨rfl, hj, hd⟩ | ⟨-, hk⟩)
      · exact ⟨w, hw, hj, hd⟩
      · exact hk
    · intro hk
      by_cases he : k = h
      · subst he
        obtain ⟨w', hw', hj, hd⟩ := hk
        obtain rfl := Option.some.inj (hw.symm.trans hw')
        exact .inl ⟨rfl, hj, hd⟩
      · exact .inr ⟨he, hk⟩
  | judges hop hw answer hc =>
    refine hs.released hw rfl hc (fun k steps => ?_) (hs.fits_set (hs.fits h _ hw).closed)
    rw [holds_set]
    simp [and_comm]
  | drops hw hc =>
    refine hs.released hw rfl hc (fun k steps => holds_erase) fun k w' hk => ?_
    change (r.holders.erase h).get? k = some w' at hk
    rw [Table.get?_erase] at hk
    split_ifs at hk
    exact hs.fits k w' hk

theorem sound_of_reachable (hr : Reachable r) : Sound r := by
  induction hr with
  | @start r hh hc =>
    have hnone : ∀ h w, r.holders.get? h ≠ some w := fun h w => by rw [hh]; exact nofun
    refine ⟨by rw [hc]; exact .nil, fun steps => ?_, fun h h' steps => ?_,
      fun h w hw => absurd hw (hnone h w)⟩
    · rw [hc]
      exact ⟨nofun, fun ⟨h, w, hw, _⟩ => absurd hw (hnone h w)⟩
    · exact fun ⟨w, hw, _⟩ => absurd hw (hnone h w)
  | step _ h op ih => exact ih.step h op
  | disturb _ disk ih => exact ih.of_eq rfl rfl (fun _ _ => Iff.rfl) ih.fits

/-! ### What claims promise -/

theorem destination_spelling (r : Roster) (before after : List Char) :
    r.destination (.ofList (before ++ '/' :: '/' :: after)) =
        r.destination (.ofList (before ++ '/' :: after)) ∧
      r.destination (.ofList (before ++ '/' :: '.' :: '/' :: after)) =
        r.destination (.ofList (before ++ '/' :: after)) := by
  unfold destination
  rw [String.toList_ofList, String.toList_ofList, String.toList_ofList]
  exact ⟨Path.components_join_double _ _ _, Path.components_join_dot _ _ _⟩

theorem perform_openSink_taken {session name : String} {size : UInt64}
    (hw : r.holders.get? h = some w) :
    r.perform h (.openSink session name size) = (.idle, r) := by
  unfold perform
  rw [hw]

/-- Everything that opening a sink does to the claims. -/
theorem perform_openSink (r : Roster) (session name : String) (size : UInt64)
    (hn : r.holders.get? h = none) :
    ((∃ sink storage, r.perform h (.openSink session name size) =
        (.done, { r with storage, holders := r.holders.set h { name, sink } }) ∧
        storage.claims = r.storage.claims ++ [r.destination name]) ∧
      r.destination name ∉ r.storage.claims) ∨
    ∃ e storage, r.perform h (.openSink session name size) = (.refused e, { r with storage }) ∧
      storage.claims = r.storage.claims ∧
      (Name.validate name = .ok () →
        (e = .conflict name ↔ r.destination name ∈ r.storage.claims)) := by
  unfold perform
  rw [hn]
  dsimp only
  have hopens := opens_openClaimed r.base session name size r.onlyKnown r.storage
  generalize openClaimed r.base session name size r.onlyKnown r.storage = t at hopens ⊢
  cases hopens with
  | invalid cause hv =>
    refine .inr ⟨_, _, rfl, rfl, fun hv' => ?_⟩
    rw [hv] at hv'
    cases hv'
  | claimed hv hc => exact .inr ⟨_, _, rfl, rfl, fun _ => ⟨fun _ => hc, fun _ => rfl⟩⟩
  | fails hv hc cause disk => exact .inr ⟨_, _, rfl, rfl, fun _ => ⟨nofun, fun h => absurd h hc⟩⟩
  | opens hv hc hf => exact .inl ⟨⟨_, _, rfl, rfl⟩, hc⟩

/-- **A destination belongs to one sink at a time.** It is claimed while a sink that was opened for
it waits for its verdict, and is given up with the verdict or when the sink is dropped, whichever
comes first. -/
structure Exclusive (r : Roster) : Prop where
  mem_claims : ∀ steps, steps ∈ r.storage.claims ↔ ∃ h, r.Holds h steps
  apart : ∀ h h' steps, r.Holds h steps → r.Holds h' steps → h = h'
  nodup : r.storage.claims.Nodup
  /-- Slashes that are doubled and dots between slashes make no other destination. -/
  spelling : ∀ before after,
    r.destination (.ofList (before ++ '/' :: '/' :: after)) =
        r.destination (.ofList (before ++ '/' :: after)) ∧
      r.destination (.ofList (before ++ '/' :: '.' :: '/' :: after)) =
        r.destination (.ofList (before ++ '/' :: after))
  /-- A valid name is in conflict if and only if its destination is claimed. -/
  conflict_iff : ∀ h session name size, r.holders.get? h = none → Name.validate name = .ok () →
    ((r.perform h (.openSink session name size)).1 = .refused (.conflict name) ↔
      r.destination name ∈ r.storage.claims)
  opened : ∀ h session name size, (r.perform h (.openSink session name size)).1 = .done →
    (r.perform h (.openSink session name size)).2.storage.claims =
      r.storage.claims ++ [r.destination name]
  /-- Whatever the reason, nothing is left of an opening that is refused. -/
  refused : ∀ h session name size e,
    (r.perform h (.openSink session name size)).1 = .refused e →
    (r.perform h (.openSink session name size)).2.storage.claims = r.storage.claims ∧
      (r.perform h (.openSink session name size)).2.holders = r.holders
  accepted : ∀ h offset data,
    (r.perform h (.accept offset data)).2.storage.claims = r.storage.claims
  /-- The first verdict or drop gives up the sink's own claim. -/
  ended : ∀ h w op, op.ends = true → r.holders.get? h = some w → w.judged = false →
    r.destination w.name ∈ r.storage.claims ∧
      (r.perform h op).2.storage.claims = r.storage.claims.erase (r.destination w.name) ∧
      r.destination w.name ∉ (r.perform h op).2.storage.claims ∧
      ∀ steps, ¬ (r.perform h op).2.Holds h steps
  /-- What comes after it gives up nothing. -/
  ended_late : ∀ h w op, op.ends = true → r.holders.get? h = some w → w.judged = true →
    (r.perform h op).2.storage.claims = r.storage.claims ∧
      ∀ steps, ¬ (r.perform h op).2.Holds h steps
  /-- A sink that is dropped late changes neither a claim nor a file, and another one that has its
  destination by then keeps it. -/
  dropped_late : ∀ h w, r.holders.get? h = some w → w.judged = true →
    (r.perform h .drop).2.storage = r.storage ∧
      ∀ k steps, r.Holds k steps → (r.perform h .drop).2.Holds k steps

/-- What an operation that ends a sink does to the claims. -/
theorem perform_ends (hop : op.ends = true) (hw : r.holders.get? h = some w) :
    (r.perform h op).2.storage.claims = (r.storage.release w.sink.claim).claims ∧
      ∀ steps, ¬ (r.perform h op).2.Holds h steps := by
  have ho := perform_outcome r h op
  generalize r.perform h op = t at ho ⊢
  cases ho with
  | idle _ hnone => cases hw.symm.trans (hnone hop)
  | refuses hop' => cases hop.symm.trans hop'
  | opens => cases hop
  | accepts => cases hop
  | judges _ hw' answer hc =>
    obtain rfl := Option.some.inj (hw.symm.trans hw')
    refine ⟨hc, fun steps hk => ?_⟩
    rcases holds_set.1 hk with ⟨-, hj, -⟩ | ⟨hne, -⟩
    · cases hj
    · exact hne rfl
  | drops hw' hc =>
    obtain rfl := Option.some.inj (hw.symm.trans hw')
    exact ⟨hc, fun steps hk => (holds_erase.1 hk).2 rfl⟩

theorem perform_accept (r : Roster) (h : ℕ) (offset : UInt64) (data : List UInt8) :
    (r.perform h (.accept offset data)).2.storage.claims = r.storage.claims := by
  have ho := perform_outcome r h (.accept offset data)
  generalize r.perform h (.accept offset data) = t at ho ⊢
  cases ho with
  | idle => rfl
  | refuses _ _ hc => exact hc
  | accepts _ hc => exact hc
  | judges hop => cases hop

/-- A sink that has its verdict is dropped without a trace. -/
theorem perform_drop_late (hfits : Fits r.base w) (hw : r.holders.get? h = some w)
    (hj : w.judged = true) :
    (r.perform h .drop).2 = { r with holders := r.holders.erase h } := by
  have hclosed : w.sink.drop r.storage = (r.storage, []) := by
    unfold FileSink.drop
    rw [if_pos (hfits.file hj), hfits.claim, if_pos hj]
    rfl
  unfold perform
  rw [hw]
  dsimp only
  rw [hclosed]

theorem Sound.exclusive (hs : Sound r) : Exclusive r where
  mem_claims := hs.mem_claims
  apart := hs.apart
  nodup := hs.nodup
  spelling := r.destination_spelling
  conflict_iff h session name size hn hv := by
    rcases perform_openSink r session name size hn with
      ⟨⟨sink, storage, heq, -⟩, hfree⟩ | ⟨e, storage, heq, -, hiff⟩
    · rw [heq]
      exact ⟨nofun, fun hc => absurd hc hfree⟩
    · rw [heq, ← hiff hv]
      exact ⟨fun he => by cases he; rfl, fun he => by rw [he]⟩
  opened h session name size hdone := by
    cases hn : r.holders.get? h with
    | some w => rw [perform_openSink_taken hn] at hdone; cases hdone
    | none =>
      rcases perform_openSink r session name size hn with
        ⟨⟨sink, storage, heq, hc⟩, -⟩ | ⟨e, storage, heq, -⟩
      · rw [heq]
        exact hc
      · rw [heq] at hdone
        cases hdone
  refused h session name size e hrefused := by
    cases hn : r.holders.get? h with
    | some w => rw [perform_openSink_taken hn] at hrefused; cases hrefused
    | none =>
      rcases perform_openSink r session name size hn with
        ⟨⟨sink, storage, heq, -⟩, -⟩ | ⟨e', storage, heq, hc, -⟩
      · rw [heq] at hrefused
        cases hrefused
      · rw [heq]
        exact ⟨hc, rfl⟩
  accepted := perform_accept r
  ended h w op hop hw hj := by
    obtain ⟨hc, hgone⟩ := perform_ends hop hw
    rw [(hs.fits h w hw).claim_of_free hj] at hc
    refine ⟨(hs.mem_claims _).2 ⟨h, w, hw, hj, rfl⟩, hc, ?_, hgone⟩
    rw [hc]
    exact hs.nodup.not_mem_erase
  ended_late h w op hop hw hj := by
    obtain ⟨hc, hgone⟩ := perform_ends hop hw
    rw [(hs.fits h w hw).claim, if_pos hj] at hc
    exact ⟨hc, hgone⟩
  dropped_late h w hw hj := by
    rw [perform_drop_late (hs.fits h w hw) hw hj]
    refine ⟨rfl, fun k steps hk => holds_erase.2 ⟨hk, ?_⟩⟩
    rintro rfl
    obtain ⟨w', hw', hj', -⟩ := hk
    obtain rfl := Option.some.inj (hw.symm.trans hw')
    cases hj.symm.trans hj'

theorem exclusive_of_reachable (hr : Reachable r) : Exclusive r := (sound_of_reachable hr).exclusive

/-- The directory after some operations. -/
def after (r : Roster) (ops : List (ℕ × Op)) : Roster :=
  ops.foldl (fun r p => (r.perform p.1 p.2).2) r

/-- One sink has failed and is still held when another one is opened for its destination. -/
def reopened : Roster :=
  ({ base := "out".toList } : Roster).after
    [(0, .openSink "s" "a//b" 1), (0, .fail), (1, .openSink "t" "a/./b" 1)]

theorem reopened_exclusive : Reachable reopened ∧ Exclusive reopened ∧
    reopened.storage.claims = [reopened.destination "a/b"] ∧
    (reopened.perform 0 .drop).2.storage = reopened.storage ∧
    (reopened.perform 2 (.openSink "u" "a/b" 1)).1 = .refused (.conflict "a/b") := by
  have hr : Reachable reopened := .step (.step (.step (.start rfl rfl) _ _) _ _) _ _
  have he := exclusive_of_reachable hr
  have hclaims : reopened.storage.claims = [reopened.destination "a/b"] := rfl
  refine ⟨hr, he, hclaims, (he.dropped_late 0 _ rfl rfl).1, ?_⟩
  exact (he.conflict_iff 2 "u" "a/b" 1 rfl rfl).2 (hclaims ▸ List.mem_singleton.2 rfl)

end Roster

end PullIngest
