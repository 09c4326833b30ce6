import PullIngest.Proofs.Storage.Disk
import PullIngest.Sink.Basic

/-!
# Sinks hold what they accept

Between its opening and its verdict a sink holds the bytes it has accepted, in memory or in its
partial file, and a good verdict keeps exactly these.

* `Destination.kept?`: the bytes that are kept for a session;
* `Sink.Serves`, `Sink.Holds`: whom a sink works for, and what it holds;
* `openSink_holds`, `Sink.Holds.accept`, `Sink.Holds.finalize`: a sink's life up to a good verdict.
-/

namespace PullIngest

/-- The bytes that a destination keeps for a session: in memory, or in the file of the declared
name. -/
def Destination.kept? (dest : Destination) (session name : String) (s : Storage) :
    Option (List UInt8) :=
  match dest with
  | .memory _ _ => s.completed.get? session
  | .directory base _ => (s.disk.readFile (Path.join base name.toList)).toOption

namespace Sink

/-- The sink was opened at a destination for a session. -/
def Serves (dest : Destination) (session name : String) : Sink → Prop
  | .memory m => ∃ reject refuseFrom, dest = .memory reject refuseFrom ∧ m.session = session
  | .file f => ∃ base onlyKnown, dest = .directory base onlyKnown ∧
      f.finalPath = Path.join base name.toList

/-- What a sink without a verdict holds. -/
def Holds (s : Storage) (bytes : List UInt8) : Sink → Prop
  | .memory m => m.data.toList = bytes
  | .file f => ∃ n, f.file = some n ∧ s.disk.find f.partPath = .ok (.file n) ∧
      s.disk.read n = bytes

variable {dest : Destination} {session name : String} {size : UInt64} {k k' : Sink}
  {s s' : Storage} {offset : UInt64} {bytes data : List UInt8}

/-! ### Opening -/

/-- What creating a partial file does when nothing is refused. -/
theorem create_cases {base : List Char} {onlyKnown : Bool} {d d' : Disk} {f : FileSink}
    (h : FileSink.create base session name size onlyKnown d = (.ok f, d')) :
    ∃ directory d₁ n, d.makeDirectories directory = (d₁, .ok ()) ∧
      d₁.createFile (Path.join directory (FileSink.partName session)) = .ok (d', n) ∧
      f = { partPath := Path.join directory (FileSink.partName session)
            finalPath := Path.join base name.toList, size, onlyKnown, file := some n } := by
  unfold FileSink.create at h
  cases hv : Name.validate name with
  | error e => rw [hv] at h; cases h
  | ok _ =>
    rw [hv] at h
    dsimp only at h
    split at h
    · cases h
    · next hmade =>
      split at h
      · cases h
      · next hc =>
        cases h
        exact ⟨_, _, _, hmade, hc, rfl⟩

/-- What opening a sink in a directory does when nothing is refused. -/
theorem openClaimed_cases {base : List Char} {onlyKnown : Bool} {f : FileSink}
    (h : FileSink.openClaimed base session name size onlyKnown s = (.ok f, s')) :
    ∃ f', FileSink.create base session name size onlyKnown s.disk = (.ok f', s'.disk) ∧
      f = { f' with claim := some (Path.components (Path.join base name.toList)) } := by
  unfold FileSink.openClaimed at h
  cases hv : Name.validate name with
  | error e => rw [hv] at h; cases h
  | ok _ =>
    rw [hv] at h
    dsimp only at h
    split_ifs at h
    · cases h
    · split at h
      · cases h
      · next hc =>
        cases h
        exact ⟨_, hc, rfl⟩

/-- A sink that is opened serves its session and holds nothing yet. -/
theorem openSink_holds (h : dest.openSink session name size s = (.ok k, s')) :
    k.Serves dest session name ∧ k.Holds s' [] := by
  unfold Destination.openSink at h
  cases dest with
  | memory reject refuseFrom =>
    cases h
    exact ⟨⟨reject, refuseFrom, rfl, rfl⟩, rfl⟩
  | directory base onlyKnown =>
    dsimp only at h
    split at h
    · next f s'' hf =>
      cases h
      obtain ⟨f', hc, rfl⟩ := openClaimed_cases hf
      obtain ⟨directory, d₁, n, -, hfile, rfl⟩ := create_cases hc
      exact ⟨⟨base, onlyKnown, rfl, rfl⟩, n, rfl, Disk.createFile_spec hfile⟩
    · cases h

/-! ### Accepting -/

theorem memory_accept {m m' : MemorySink} (h : m.accept offset data = .ok m') :
    m' = { m with data := m.data.append data } := by
  unfold MemorySink.accept at h
  split_ifs at h
  exact (Except.ok.inj h).symm

theorem file_accept {f f' : FileSink} {d d' : Disk}
    (h : f.accept d offset data = .ok (f', d')) :
    ∃ n head, f.file = some n ∧ offset = f.written ∧ d' = d.writeAt n offset.toNat data ∧
      f' = { f with head, written := f.written + .ofNat data.length } := by
  unfold FileSink.accept at h
  split_ifs at h with ho
  cases hf : f.file with
  | none => rw [hf] at h; cases h
  | some n =>
    rw [hf] at h
    cases h
    exact ⟨n, _, rfl, not_not.1 ho, rfl, rfl⟩

/-- What accepting does. -/
theorem accept_cases (h : k.accept s offset data = .ok (k', s')) :
    (∃ m, k = .memory m ∧ k' = .memory { m with data := m.data.append data } ∧ s' = s) ∨
      ∃ f f' n, k = .file f ∧ k' = .file f' ∧ f.file = some n ∧ f'.file = some n ∧
        f'.partPath = f.partPath ∧ f'.finalPath = f.finalPath ∧
        s' = { s with disk := s.disk.writeAt n offset.toNat data } := by
  unfold Sink.accept at h
  cases k with
  | memory m =>
    dsimp only at h
    cases hm : m.accept offset data with
    | error e => rw [hm] at h; cases h
    | ok m' =>
      rw [hm] at h
      cases h
      exact .inl ⟨m, rfl, by rw [memory_accept hm], rfl⟩
  | file f =>
    dsimp only at h
    cases hf : f.accept s.disk offset data with
    | error e => rw [hf] at h; cases h
    | ok r =>
      obtain ⟨f', d'⟩ := r
      rw [hf] at h
      cases h
      obtain ⟨n, head, hn, -, rfl, rfl⟩ := file_accept hf
      exact .inr ⟨f, _, n, rfl, rfl, hn, hn, rfl, rfl, rfl⟩

theorem Serves.accept (h : k.Serves dest session name)
    (ha : k.accept s offset data = .ok (k', s')) : k'.Serves dest session name := by
  rcases accept_cases ha with ⟨m, rfl, rfl, -⟩ | ⟨f, f', n, rfl, rfl, -, -, -, hfinal, -⟩
  · exact h
  · obtain ⟨base, onlyKnown, hdest, hpath⟩ := h
    exact ⟨base, onlyKnown, hdest, hfinal.trans hpath⟩

/-- Bytes that are accepted behind the last one are held with the others. -/
theorem Holds.accept (h : k.Holds s bytes) (ho : offset.toNat = bytes.length)
    (ha : k.accept s offset data = .ok (k', s')) : k'.Holds s' (bytes ++ data) := by
  rcases accept_cases ha with ⟨m, rfl, rfl, rfl⟩ | ⟨f, f', n, rfl, rfl, hn, hn', hpart, -, rfl⟩
  · have hm : m.data.toList = bytes := h
    show (m.data.append data).toList = bytes ++ data
    rw [Buffer.toList_append, hm]
  · obtain ⟨n', hfile, hfind, hread⟩ := h
    obtain rfl : n = n' := Option.some.inj (hn.symm.trans hfile)
    refine ⟨n, hn', ?_, ?_⟩
    · rw [hpart]
      exact Disk.find_writeAt hfind
    · -- The offset is the length of the partial file.
      show (s.disk.writeAt n offset.toNat data).read n = bytes ++ data
      rw [ho, ← hread, Disk.read_writeAt]

/-! ### The verdict -/

theorem file_complete {f : FileSink} {d d' : Disk} (h : f.complete d = .ok d') :
    f.file ≠ none ∧ d.rename f.partPath f.finalPath = .ok d' := by
  unfold FileSink.complete at h
  split_ifs at h with hfile
  split at h
  · cases h
  · split at h
    · cases h
    · next hr =>
      cases h
      exact ⟨hfile, hr⟩

theorem release_disk (s : Storage) (claim : Option (List Path.Component)) :
    (s.release claim).disk = s.disk := by
  cases claim <;> rfl

/-- A verdict is good when the partial file got its last name, and else the partial file goes. -/
theorem file_finalize (f : FileSink) (s : Storage) :
    (∃ disk, f.file ≠ none ∧ s.disk.rename f.partPath f.finalPath = .ok disk ∧
      f.finalize s = (true, f.closed, ({ s with disk } : Storage).release f.claim, [])) ∨
    ∃ log, f.finalize s = (false, f.closed,
      ({ s with disk := (f.discard s.disk).1 } : Storage).release f.claim, log) := by
  unfold FileSink.finalize
  cases hc : f.complete s.disk with
  | error e => exact .inr ⟨_, rfl⟩
  | ok disk =>
    obtain ⟨hfile, hr⟩ := file_complete hc
    exact .inl ⟨disk, hfile, hr, rfl⟩

/-- **A good verdict keeps exactly what the sink holds.** -/
theorem Holds.finalize {log : List String} (h : k.Holds s bytes) (hk : k.Serves dest session name)
    (hf : k.finalize s = (true, k', s', log)) : dest.kept? session name s' = some bytes := by
  unfold Sink.finalize at hf
  cases k with
  | memory m =>
    obtain ⟨reject, refuseFrom, rfl, rfl⟩ := hk
    dsimp only at hf
    unfold MemorySink.finalize at hf
    split_ifs at hf
    · cases hf
    · cases hf
      obtain rfl : m.data.toList = bytes := h
      exact Table.get?_set_self _ _ _
  | file f =>
    obtain ⟨base, onlyKnown, rfl, hpath⟩ := hk
    obtain ⟨n, hfile, hfind, hread⟩ := h
    dsimp only at hf
    rcases file_finalize f s with ⟨disk, -, hr, heq⟩ | ⟨log, heq⟩
    · rw [heq] at hf
      obtain ⟨hfind', hcontents⟩ := Disk.find_rename hr hfind
      have hread' : disk.read n = bytes := by
        rw [← hread]
        unfold Disk.read
        rw [hcontents]
      cases hf
      show (((_ : Storage).release f.claim).disk.readFile (Path.join base name.toList)).toOption = _
      rw [release_disk, ← hpath, Disk.readFile_of_find hfind', hread']
      rfl
    · rw [heq] at hf
      cases hf

end Sink

end PullIngest
