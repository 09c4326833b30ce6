import Mathlib.Data.List.Perm.Basic
import PullIngest.Proofs.Storage.Sink

/-!
# Claims on destinations

A sink in a directory claims its destination before it creates anything. It gives the claim up when
nothing can be created, and else when it gets its verdict, or is dropped without one.

* `Opens`, `opens_openClaimed`: everything that opening a sink in a directory can lead to;
* `Sink.claim?`: the claim that a sink holds, with what each call does to it and to the claims of
  all sinks (`claims_openSink`, `claims_accept`, `claims_finalize`, `claims_fail`).
-/

namespace PullIngest

namespace Storage

variable {s : Storage} {steps : List Path.Component}

theorem isClaimed_iff : s.isClaimed steps = true ↔ steps ∈ s.claims := by
  simp [isClaimed]

/-- A claim that is given up at once leaves the others as they were. -/
theorem release_claim (h : steps ∉ s.claims) (disk : Disk) :
    ({ s.claim steps with disk } : Storage).release (some steps) = { s with disk } := by
  have herase : (s.claims ++ [steps]).erase steps = s.claims := by
    rw [List.erase_append_right _ h]
    simp
  show ({ disk, claims := (s.claims ++ [steps]).erase steps, completed := s.completed,
          failures := s.failures } : Storage) = _
  rw [herase]

end Storage

namespace FileSink

variable {base : List Char} {session name : String} {size : UInt64} {onlyKnown : Bool}
  {s : Storage} {f : FileSink}

/-! ### Opening -/

/-- Everything that opening a sink in a directory can lead to. -/
inductive Opens (base : List Char) (session name : String) (size : UInt64) (onlyKnown : Bool)
    (s : Storage) : Except TransferError FileSink × Storage → Prop
  | invalid (cause : NameError) (hv : Name.validate name = .error (.invalidName cause name)) :
      Opens base session name size onlyKnown s (.error (.invalidName cause name), s)
  | claimed (hv : Name.validate name = .ok ())
      (hc : Path.components (Path.join base name.toList) ∈ s.claims) :
      Opens base session name size onlyKnown s (.error (.conflict name), s)
  /-- Nothing can be created, and the claim is given up. -/
  | fails (hv : Name.validate name = .ok ())
      (hc : Path.components (Path.join base name.toList) ∉ s.claims) (cause : IoError)
      (disk : Disk) :
      Opens base session name size onlyKnown s (.error (.io cause), { s with disk })
  | opens (hv : Name.validate name = .ok ())
      (hc : Path.components (Path.join base name.toList) ∉ s.claims) {f : FileSink} {disk : Disk}
      (hf : create base session name size onlyKnown s.disk = (.ok f, disk)) :
      Opens base session name size onlyKnown s
        (.ok { f with claim := some (Path.components (Path.join base name.toList)) },
          { s with disk
                   claims := s.claims ++ [Path.components (Path.join base name.toList)] })

/-- A file of a valid name is refused by the file system only. -/
theorem io_of_create {d d' : Disk} {e : TransferError} (hv : Name.validate name = .ok ())
    (h : create base session name size onlyKnown d = (.error e, d')) : ∃ cause, e = .io cause := by
  unfold create at h
  rw [hv] at h
  dsimp only at h
  split at h
  · cases h
    exact ⟨_, rfl⟩
  · split at h
    · cases h
      exact ⟨_, rfl⟩
    · cases h

theorem opens_openClaimed (base : List Char) (session name : String) (size : UInt64)
    (onlyKnown : Bool) (s : Storage) :
    Opens base session name size onlyKnown s
      (openClaimed base session name size onlyKnown s) := by
  unfold openClaimed
  cases hv : Name.validate name with
  | error e =>
    obtain ⟨cause, rfl⟩ : ∃ cause, e = .invalidName cause name := by
      unfold Name.validate at hv
      split at hv
      · cases hv
      · next cause _ =>
        cases hv
        exact ⟨cause, rfl⟩
    exact .invalid cause hv
  | ok _ =>
    dsimp only
    split_ifs with hc
    · exact .claimed hv (Storage.isClaimed_iff.1 hc)
    · have hfree : Path.components (Path.join base name.toList) ∉ s.claims :=
        fun h => hc (Storage.isClaimed_iff.2 h)
      -- A claim changes nothing on the disk.
      generalize hr : create base session name size onlyKnown (s.claim _).disk = r
      change create base session name size onlyKnown s.disk = r at hr
      obtain ⟨r, disk⟩ := r
      cases r with
      | error e =>
        obtain ⟨cause, rfl⟩ := io_of_create hv hr
        dsimp only
        rw [Storage.release_claim hfree]
        exact .fails hv hfree cause disk
      | ok f => exact .opens hv hfree hr

/-! ### The verdict and after -/

theorem closed_of_finalize (f : FileSink) (s : Storage) : (f.finalize s).2.1 = f.closed := by
  unfold finalize
  split <;> rfl

theorem claims_finalize (f : FileSink) (s : Storage) :
    (f.finalize s).2.2.1.claims = (s.release f.claim).claims := by
  unfold finalize
  split <;> cases f.claim <;> rfl

theorem claims_fail (f : FileSink) (s : Storage) :
    (f.fail s).2.1.claims = (s.release f.claim).claims := by
  unfold fail
  cases f.claim <;> rfl

theorem claims_drop (f : FileSink) (s : Storage) :
    (f.drop s).1.claims = (s.release f.claim).claims := by
  unfold drop
  split_ifs
  · rfl
  · cases f.claim <;> rfl

end FileSink

/-! ### Sinks of both kinds -/

namespace Sink

/-- The claim that a sink holds. -/
def claim? : Sink → Option (List Path.Component)
  | .memory _ => none
  | .file f => f.claim

variable {dest : Destination} {session name : String} {size : UInt64} {k k' : Sink}
  {s s' : Storage} {offset : UInt64} {data : List UInt8}

theorem claims_openSink (h : dest.openSink session name size s = (.ok k, s')) :
    s'.claims = s.claims ++ k.claim?.toList := by
  unfold Destination.openSink at h
  cases dest with
  | memory reject refuseFrom =>
    cases h
    exact (List.append_nil _).symm
  | directory base onlyKnown =>
    have hopens := FileSink.opens_openClaimed base session name size onlyKnown s
    dsimp only at h
    generalize FileSink.openClaimed base session name size onlyKnown s = r at hopens h
    cases hopens with
    | opens hv hc hf =>
      cases h
      rfl
    | _ => cases h

/-- A sink that cannot be opened leaves no claim behind. -/
theorem claims_openSink_error {e : TransferError}
    (h : dest.openSink session name size s = (.error e, s')) : s'.claims = s.claims := by
  unfold Destination.openSink at h
  cases dest with
  | memory reject refuseFrom => cases h
  | directory base onlyKnown =>
    have hopens := FileSink.opens_openClaimed base session name size onlyKnown s
    dsimp only at h
    generalize FileSink.openClaimed base session name size onlyKnown s = r at hopens h
    cases hopens with
    | opens hv hc hf => cases h
    | _ => cases h; rfl

theorem claims_accept (h : k.accept s offset data = .ok (k', s')) :
    s'.claims = s.claims ∧ k'.claim? = k.claim? := by
  unfold Sink.accept at h
  cases k with
  | memory m =>
    dsimp only at h
    cases hm : m.accept offset data with
    | error e => rw [hm] at h; cases h
    | ok m' =>
      rw [hm] at h
      cases h
      exact ⟨rfl, rfl⟩
  | file f =>
    dsimp only at h
    cases hf : f.accept s.disk offset data with
    | error e => rw [hf] at h; cases h
    | ok r =>
      obtain ⟨f', disk⟩ := r
      obtain ⟨n, head, -, -, -, rfl⟩ := file_accept hf
      rw [hf] at h
      cases h
      exact ⟨rfl, rfl⟩

theorem claims_finalize (k : Sink) (s : Storage) :
    (k.finalize s).2.2.1.claims = (s.release k.claim?).claims ∧
      (k.finalize s).2.1.claim? = none := by
  cases k with
  | memory m =>
    refine ⟨?_, rfl⟩
    show (m.finalize s).2.2.claims = s.claims
    unfold MemorySink.finalize
    split_ifs <;> rfl
  | file f =>
    refine ⟨f.claims_finalize s, ?_⟩
    show (f.finalize s).2.1.claim = none
    rw [f.closed_of_finalize]
    rfl

theorem claims_fail (k : Sink) (s : Storage) (reason : String) :
    (k.fail s reason).2.1.claims = (s.release k.claim?).claims ∧
      (k.fail s reason).1.claim? = none := by
  cases k with
  | memory m => exact ⟨rfl, rfl⟩
  | file f => exact ⟨f.claims_fail s, rfl⟩

end Sink

end PullIngest
