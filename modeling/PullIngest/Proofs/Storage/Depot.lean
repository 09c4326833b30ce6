import PullIngest.Proofs.Storage.Footprint

/-!
# Sinks side by side

Sinks that were opened in one directory for different sessions. Each writes to a file of its own,
and as long as its partial file has its name, a good verdict keeps exactly what it accepted. Only
the final names are claimed, though: a session that declares the name of the partial file of
another one puts its own file there.

* `Depot`, `perform`: a directory with its sinks, and one operation of one of them;
* `Overwrites`: the one way in which a sink reaches another's partial file, and
  `Overwrites.declares`: it has declared the name of that file;
* `Undisturbed`: the runs in which nobody did that to a given session;
* `keeps_own_file`: in these runs the file is the sink's own, up to the verdict;
* `sharedName_stored`: the run in which a session is stored with the bytes of another one.
-/

namespace PullIngest

open Disk FileSink

/-- A sink with the bytes it has accepted. -/
structure Work where
  sink : FileSink
  accepted : List UInt8 := []

/-- A directory with the sinks that were opened in it and are still held. -/
structure Depot where
  base : List Char
  onlyKnown : Bool := false
  storage : Storage := {}
  works : Table String Work := ∅

namespace Depot

/-- The operations of a sink. -/
inductive Op where
  | openSink (name : String) (size : UInt64)
  | accept (offset : UInt64) (data : List UInt8)
  | finalize
  | fail
  | drop
  deriving DecidableEq

/-- Whether an operation of a session goes well, and the directory afterwards. A sink stays with
its session until it is dropped, and one that is not there does nothing. -/
def perform (d : Depot) (session : String) (op : Op) : Bool × Depot :=
  match op, d.works.get? session with
  | .openSink name size, none =>
    match openClaimed d.base session name size d.onlyKnown d.storage with
    | (.ok f, storage) => (true, { d with storage, works := d.works.set session { sink := f } })
    | (.error _, storage) => (false, { d with storage })
  | .accept offset data, some w =>
    match w.sink.accept d.storage.disk offset data with
    | .ok (f, disk) =>
      (true, { d with storage := { d.storage with disk }
                      works := d.works.set session ⟨f, w.accepted ++ data⟩ })
    | .error _ => (false, d)
  | .finalize, some w =>
    let (verdict, f, storage, _) := w.sink.finalize d.storage
    (verdict, { d with storage, works := d.works.set session { w with sink := f } })
  | .fail, some w =>
    let (f, storage, _) := w.sink.fail d.storage
    (true, { d with storage, works := d.works.set session { w with sink := f } })
  | .drop, some w =>
    (true, { d with storage := (w.sink.drop d.storage).1, works := d.works.erase session })
  | _, _ => (false, d)

/-- What an operation of one session does. -/
inductive Outcome (d : Depot) (session : String) : Op → Bool × Depot → Prop
  | refused {op : Op} {storage : Storage} (h : Touches ∅ ∅ d.storage.disk storage.disk) :
      Outcome d session op (false, { d with storage })
  | opened {name : String} {size : UInt64} {storage : Storage} {f : FileSink}
      (h : openClaimed d.base session name size d.onlyKnown d.storage = (.ok f, storage)) :
      Outcome d session (.openSink name size)
        (true, { d with storage, works := d.works.set session { sink := f } })
  | accepted {offset : UInt64} {data : List UInt8} {w : Work} {f : FileSink} {disk : Disk}
      (hw : d.works.get? session = some w)
      (h : w.sink.accept d.storage.disk offset data = .ok (f, disk)) :
      Outcome d session (.accept offset data)
        (true, { d with storage := { d.storage with disk }
                        works := d.works.set session ⟨f, w.accepted ++ data⟩ })
  | stored {w : Work} {storage : Storage} (hw : d.works.get? session = some w)
      (hf : w.sink.file ≠ none)
      (h : d.storage.disk.rename w.sink.partPath w.sink.finalPath = .ok storage.disk) :
      Outcome d session .finalize
        (true, { d with storage, works := d.works.set session { w with sink := w.sink.closed } })
  /-- The partial file goes, by a bad verdict or without one. -/
  | retired {op : Op} {b : Bool} {w : Work} {storage : Storage} {works : Table String Work}
      (hw : d.works.get? session = some w) (hb : op = .finalize → b = false)
      (h : Touches (d.storage.disk.leadsTo w.sink.partPath) ∅ d.storage.disk storage.disk)
      (hworks : works = d.works.set session { w with sink := w.sink.closed } ∨
        works = d.works.erase session) :
      Outcome d session op (b, { d with storage, works })

theorem perform_outcome (d : Depot) (session : String) (op : Op) :
    Outcome d session op (d.perform session op) := by
  have hstill : Outcome d session op (false, d) := .refused (.refl _ _ _)
  unfold perform
  split
  · split
    · next h => exact .opened h
    · next h => exact .refused (touches_openClaimed h)
  · next offset data w hw =>
    split
    · next h => exact .accepted hw h
    · exact hstill
  · next w hw =>
    rcases Sink.file_finalize w.sink d.storage with ⟨disk, hf, hr, h⟩ | ⟨log, h⟩
    · rw [h]
      exact .stored hw hf (by rw [Sink.release_disk]; exact hr)
    · rw [h]
      refine .retired hw (fun _ => rfl) ?_ (.inl rfl)
      rw [Sink.release_disk]
      exact touches_discard _ _
  · next w hw => exact .retired hw (by simp) (touches_fail _ _) (.inl rfl)
  · next w hw => exact .retired hw (by simp) (touches_drop _ _) (.inr rfl)
  · exact hstill

/-- A session is stored under the name of the partial file of another one. -/
def Overwrites (d : Depot) (session : String) (op : Op) (other : String) : Prop :=
  op = .finalize ∧ (d.perform session op).1 = true ∧
    ∃ w w', d.works.get? session = some w ∧ d.works.get? other = some w' ∧
      ∃ place ∈ d.storage.disk.leadsTo w.sink.finalPath,
        place ∈ d.storage.disk.leadsTo w'.sink.partPath

variable {d : Depot} {session other : String} {op : Op} {w w' : Work}

/-! ### What an operation leaves alone -/

theorem Outcome.others {r : Bool × Depot} (h : Outcome d session op r) (hne : session ≠ other) :
    r.2.works.get? other = d.works.get? other := by
  cases h with
  | refused h => rfl
  | opened h => exact Table.get?_set_ne _ hne _
  | accepted hw h => exact Table.get?_set_ne _ hne _
  | stored hw hf h => exact Table.get?_set_ne _ hne _
  | retired hw hb h hworks =>
    rcases hworks with rfl | rfl
    · exact Table.get?_set_ne _ hne _
    · rw [Table.get?_erase, if_neg hne]

/-- An operation changes the session's own file, and the places of its partial file and, by a good
verdict, of its final one. -/
theorem Outcome.touches {r : Bool × Depot} (h : Outcome d session op r) :
    Touches {p | ∃ w, d.works.get? session = some w ∧
        (p ∈ d.storage.disk.leadsTo w.sink.partPath ∨
          op = .finalize ∧ r.1 = true ∧ p ∈ d.storage.disk.leadsTo w.sink.finalPath)}
      {n | ∃ w, d.works.get? session = some w ∧ w.sink.file = some n}
      d.storage.disk r.2.storage.disk := by
  cases h with
  | refused h => exact h.mono (Set.empty_subset _) (Set.empty_subset _)
  | opened h => exact (touches_openClaimed h).mono (Set.empty_subset _) (Set.empty_subset _)
  | accepted hw h =>
    obtain ⟨n, head, hn, -, rfl, -⟩ := Sink.file_accept h
    refine (touches_writeAt _ _ _ _).mono (Set.empty_subset _) ?_
    rintro m rfl
    exact ⟨_, hw, hn⟩
  | stored hw hf h =>
    refine (touches_rename h).mono ?_ (Set.empty_subset _)
    rintro p (hp | hp)
    · exact ⟨_, hw, .inl hp⟩
    · exact ⟨_, hw, .inr ⟨rfl, rfl, hp⟩⟩
  | retired hw hb h hworks => exact h.mono (fun p hp => ⟨_, hw, .inl hp⟩) (Set.empty_subset _)

/-! ### Sound directories -/

/-- A sink writes to a partial file that is named after its session, and counts what it accepts. -/
structure Fits (session : String) (disk : Disk) (w : Work) : Prop where
  slash : '/' ∉ session.toList
  part : ∃ directory, w.sink.partPath = Path.join directory (partName session)
  number_lt : ∀ n, w.sink.file = some n → n < disk.nextFile
  counted : w.sink.written.toNat = w.accepted.length

theorem Fits.mono {disk disk' : Disk} (h : Fits session disk w)
    (hle : disk.nextFile ≤ disk'.nextFile) : Fits session disk' w :=
  { h with number_lt := fun n hn => Nat.lt_of_lt_of_le (h.number_lt n hn) hle }

theorem Fits.closed {disk : Disk} (h : Fits session disk w) :
    Fits session disk { w with sink := w.sink.closed } :=
  { h with number_lt := fun _ hn => nomatch hn }

/-- Partial files of different sessions are at different places. -/
theorem Fits.places_ne {disk disk' : Disk} (h : Fits session disk w) (h' : Fits other disk' w')
    (hne : session ≠ other) {p : Place} (hp : p ∈ disk.leadsTo w.sink.partPath) :
    p ∉ disk.leadsTo w'.sink.partPath := by
  rintro ⟨l', hl', hp'⟩
  obtain ⟨l, hl, rfl⟩ := hp
  obtain ⟨directory, hpart⟩ := h.part
  obtain ⟨directory', hpart'⟩ := h'.part
  rw [hpart] at hl
  rw [hpart'] at hl'
  obtain ⟨parent, rfl⟩ := last_join_partName h.slash hl
  obtain ⟨parent', rfl⟩ := last_join_partName h'.slash hl'
  have hname : partName other = partName session := by
    simpa using (List.append_inj' hp' rfl).2
  exact hne (partName_inj hname).symm

/-- Every sink fits its session, and no two write to one file. -/
structure Sound (d : Depot) : Prop where
  numbered : d.storage.disk.Numbered
  fits : ∀ session w, d.works.get? session = some w → Fits session d.storage.disk w
  apart : ∀ session other w w' n, d.works.get? session = some w → d.works.get? other = some w' →
    w.sink.file = some n → w'.sink.file = some n → session = other

/-- What the sessions are that may open sinks, and that no file grows beyond what can be counted. -/
def Allows (d : Depot) (session : String) : Op → Prop
  | .openSink _ _ => '/' ∉ session.toList
  | .accept _ data =>
    ∀ w, d.works.get? session = some w → w.accepted.length + data.length < UInt64.size
  | _ => True

/-- A directory stays sound when one session gets a sink that fits and that writes to its old file
or to a new one. -/
theorem Sound.update (h : Sound d) {r : Bool × Depot} (hr : Outcome d session op r)
    (hfits : ∀ w', r.2.works.get? session = some w' → Fits session r.2.storage.disk w')
    (hfile : ∀ w' n, r.2.works.get? session = some w' → w'.sink.file = some n →
      (∃ w, d.works.get? session = some w ∧ w.sink.file = some n) ∨ d.storage.disk.nextFile ≤ n) :
    Sound r.2 := by
  have htouches := hr.touches
  -- Nobody else writes to the file of this session.
  have hown : ∀ k w₁ w₂ n, session ≠ k → r.2.works.get? session = some w₁ →
      r.2.works.get? k = some w₂ → w₁.sink.file = some n → w₂.sink.file ≠ some n := by
    intro k w₁ w₂ n hk h₁ h₂ hn hn'
    rw [hr.others hk] at h₂
    rcases hfile w₁ n h₁ hn with ⟨w, hw, hnw⟩ | hnew
    · exact hk (h.apart session k w w₂ n hw h₂ hnw hn')
    · have hlt := (h.fits k w₂ h₂).number_lt n hn'
      omega
  refine ⟨htouches.numbered h.numbered, fun k w₁ h₁ => ?_, fun k k' w₁ w₂ n h₁ h₂ hn hn' => ?_⟩
  · by_cases hk : session = k
    · subst hk
      exact hfits w₁ h₁
    · rw [hr.others hk] at h₁
      exact (h.fits k w₁ h₁).mono htouches.next_le
  · by_cases hk : session = k
    · subst hk
      by_contra hk'
      exact hown k' w₁ w₂ n hk' h₁ h₂ hn hn'
    · by_cases hk' : session = k'
      · subst hk'
        exact absurd hn (hown k w₂ w₁ n hk h₂ h₁ hn')
      · rw [hr.others hk] at h₁
        rw [hr.others hk'] at h₂
        exact h.apart k k' w₁ w₂ n h₁ h₂ hn hn'

theorem Sound.step (h : Sound d) (ha : d.Allows session op) : Sound (d.perform session op).2 := by
  have hr := perform_outcome d session op
  generalize d.perform session op = r at hr ⊢
  have hle := hr.touches.next_le
  cases hr with
  | refused ht =>
    have hr : Outcome d session op (false, _) := .refused ht
    refine h.update hr (fun w' hw' => (h.fits session w' hw').mono hle)
      fun w' n hw' hn => .inl ⟨w', hw', hn⟩
  | opened ho =>
    obtain ⟨directory, n, hpart, hwritten, hfile, hnew, hlt, -, -⟩ := openClaimed_fresh ho
    refine h.update (.opened ho) (fun w' hw' => ?_) fun w' m hw' hm => ?_
    · obtain rfl := Option.some.inj ((Table.get?_set_self _ _ _).symm.trans hw')
      refine ⟨ha, ⟨directory, hpart⟩, fun m hm => ?_, ?_⟩
      · obtain rfl := Option.some.inj (hfile.symm.trans hm)
        exact hlt
      · rw [hwritten]
        rfl
    · obtain rfl := Option.some.inj ((Table.get?_set_self _ _ _).symm.trans hw')
      obtain rfl := Option.some.inj (hfile.symm.trans hm)
      exact .inr hnew
  | accepted hw hacc =>
    obtain ⟨n, head, hn, -, -, rfl⟩ := Sink.file_accept hacc
    have hfits := h.fits session _ hw
    refine h.update (.accepted hw hacc) (fun w' hw' => ?_) fun w' m hw' hm => ?_
    · obtain rfl := Option.some.inj ((Table.get?_set_self _ _ _).symm.trans hw')
      refine ⟨hfits.slash, hfits.part, fun m hm => ?_, ?_⟩
      · exact Nat.lt_of_lt_of_le (hfits.number_lt m hm) hle
      · -- The count does not wrap.
        have hsize := ha _ hw
        have hcounted := hfits.counted
        simp only [UInt64.toNat_add, UInt64.toNat_ofNat', hcounted, List.length_append]
        unfold UInt64.size at hsize
        omega
    · obtain rfl := Option.some.inj ((Table.get?_set_self _ _ _).symm.trans hw')
      exact .inl ⟨_, hw, hm⟩
  | stored hw hf hrename =>
    refine h.update (.stored hw hf hrename) (fun w' hw' => ?_) fun w' n hw' hn => ?_
    · obtain rfl := Option.some.inj ((Table.get?_set_self _ _ _).symm.trans hw')
      exact ((h.fits session _ hw).mono hle).closed
    · obtain rfl := Option.some.inj ((Table.get?_set_self _ _ _).symm.trans hw')
      cases hn
  | retired hw hb ht hworks =>
    -- Either the sink is closed, or it is not there any more.
    have hgone : ∀ w', (d.works.erase session).get? session ≠ some w' := by
      simp [Table.get?_erase]
    refine h.update (.retired hw hb ht hworks) (fun w' hw' => ?_) fun w' n hw' hn => ?_
    · rcases hworks with rfl | rfl
      · obtain rfl := Option.some.inj ((Table.get?_set_self _ _ _).symm.trans hw')
        exact ((h.fits session _ hw).mono hle).closed
      · exact absurd hw' (hgone w')
    · rcases hworks with rfl | rfl
      · obtain rfl := Option.some.inj ((Table.get?_set_self _ _ _).symm.trans hw')
        cases hn
      · exact absurd hw' (hgone w')

/-! ### Runs -/

/-- What can be reached from a directory without sinks, in any order of operations. -/
inductive Reachable : Depot → Prop
  | start {d : Depot} (hw : d.works = ∅) (hd : d.storage.disk.Numbered) : Reachable d
  | step {d : Depot} (h : Reachable d) {session : String} {op : Op} (ha : d.Allows session op) :
      Reachable (d.perform session op).2

/-- The runs in which nobody overwrote the partial file of a session since it was opened. -/
inductive Undisturbed (session : String) : Depot → Prop
  | fresh {d : Depot} (h : Reachable d) (hw : d.works.get? session = none) : Undisturbed session d
  | step {d : Depot} (h : Undisturbed session d) {k : String} {op : Op} (ha : d.Allows k op)
      (ho : ¬ d.Overwrites k op session) : Undisturbed session (d.perform k op).2

theorem sound_of_reachable (h : Reachable d) : Sound d := by
  induction h with
  | start hw hd =>
    refine ⟨hd, fun _ _ h => ?_, fun _ _ _ _ _ h => ?_⟩
    · rw [hw] at h; cases h
    · rw [hw] at h; cases h
  | step _ ha ih => exact ih.step ha

theorem Undisturbed.reachable (h : Undisturbed session d) : Reachable d := by
  induction h with
  | fresh h _ => exact h
  | step _ ha _ ih => exact ih.step ha

/-- The partial file of a session is its own and holds what was accepted. -/
def Intact (d : Depot) (session : String) : Prop :=
  ∀ w n, d.works.get? session = some w → w.sink.file = some n →
    d.storage.disk.find w.sink.partPath = .ok (.file n) ∧ d.storage.disk.read n = w.accepted

/-- Somebody else's operation leaves the partial file of a session alone. -/
theorem Outcome.spares {r : Bool × Depot} (hr : Outcome d session op r) (hd : Sound d)
    (hne : session ≠ other) (hw : d.works.get? other = some w) {n : ℕ}
    (hn : w.sink.file = some n) (hf : d.storage.disk.find w.sink.partPath = .ok (.file n))
    (ho : op = .finalize → r.1 = true → ∀ w₁, d.works.get? session = some w₁ →
      ∀ p ∈ d.storage.disk.leadsTo w₁.sink.finalPath,
        p ∉ d.storage.disk.leadsTo w.sink.partPath) :
    r.2.storage.disk.find w.sink.partPath = .ok (.file n) ∧
      r.2.storage.disk.read n = d.storage.disk.read n := by
  have htouches := hr.touches
  have hfits := hd.fits other w hw
  refine ⟨htouches.find hf ?_, htouches.read n (hfits.number_lt n hn) ?_⟩
  · rintro p hp ⟨w₁, hw₁, hpart | ⟨hop, hverdict, hfinal⟩⟩
    · exact (hd.fits session w₁ hw₁).places_ne hfits hne hpart hp
    · exact ho hop hverdict w₁ hw₁ p hfinal hp
  · rintro ⟨w₁, hw₁, hn₁⟩
    exact hne (hd.apart session other w₁ w n hw₁ hw hn₁ hn)

/-- The session's own operations keep its partial file up to date. -/
theorem Intact.own (h : Intact d session) (hd : Sound d) {r : Bool × Depot}
    (hr : Outcome d session op r) : Intact r.2 session := by
  intro w' m hw' hm
  cases hr with
  | refused ht =>
    obtain ⟨hfind, hread⟩ := h w' m hw' hm
    have hlt := (hd.fits session w' hw').number_lt m hm
    exact ⟨ht.find hfind fun p _ => Set.notMem_empty p,
      (ht.read m hlt (Set.notMem_empty m)).trans hread⟩
  | opened ho =>
    obtain rfl := Option.some.inj ((Table.get?_set_self _ _ _).symm.trans hw')
    obtain ⟨directory, n, -, -, hfile, -, -, hfind, hread⟩ := openClaimed_fresh ho
    obtain rfl := Option.some.inj (hfile.symm.trans hm)
    exact ⟨hfind, hread⟩
  | accepted hw hacc =>
    obtain rfl := Option.some.inj ((Table.get?_set_self _ _ _).symm.trans hw')
    obtain ⟨n, head, hn, ho, rfl, rfl⟩ := Sink.file_accept hacc
    obtain rfl := Option.some.inj (hn.symm.trans hm)
    obtain ⟨hfind, hread⟩ := h _ n hw hn
    refine ⟨find_writeAt hfind, ?_⟩
    -- The offset is the length of the file, so the bytes are added at its end.
    show (d.storage.disk.writeAt n _ _).read n = _
    rw [ho, (hd.fits session _ hw).counted, ← hread, read_writeAt]
  | stored hw hf hrename =>
    obtain rfl := Option.some.inj ((Table.get?_set_self _ _ _).symm.trans hw')
    cases hm
  | retired hw hb ht hworks =>
    rcases hworks with rfl | rfl
    · obtain rfl := Option.some.inj ((Table.get?_set_self _ _ _).symm.trans hw')
      cases hm
    · simp [Table.get?_erase] at hw'

theorem intact_of_undisturbed (h : Undisturbed session d) : Intact d session := by
  induction h with
  | fresh h hw =>
    intro w n hw'
    rw [hw] at hw'
    cases hw'
  | @step d h k op ha ho ih =>
    have hd := sound_of_reachable h.reachable
    have hr := perform_outcome d k op
    by_cases hk : k = session
    · subst hk
      exact ih.own hd hr
    · intro w n hw hn
      rw [hr.others hk] at hw
      obtain ⟨hfind, hread⟩ := ih w n hw hn
      obtain ⟨hfind', hread'⟩ := hr.spares hd hk hw hn hfind fun hop hverdict w₁ hw₁ p hp hp' =>
        ho ⟨hop, hverdict, w₁, w, hw₁, hw, p, hp, hp'⟩
      exact ⟨hfind', hread'.trans hread⟩

/-- A good verdict gives the final name to what has the name of the partial file. -/
theorem rename_of_verdict (hv : (d.perform session .finalize).1 = true)
    (hw : d.works.get? session = some w) :
    w.sink.file ≠ none ∧ d.storage.disk.rename w.sink.partPath w.sink.finalPath =
      .ok (d.perform session .finalize).2.storage.disk := by
  have hr := perform_outcome d session .finalize
  generalize d.perform session .finalize = r at hr hv ⊢
  cases hr with
  | refused ht => cases hv
  | retired hw₁ hb ht hworks =>
    rw [hb rfl] at hv
    cases hv
  | stored hw₁ hf hrename =>
    obtain rfl := Option.some.inj (hw₁.symm.trans hw)
    exact ⟨hf, hrename⟩

theorem Intact.find_of_verdict (h : Intact d session)
    (hv : (d.perform session .finalize).1 = true) (hw : d.works.get? session = some w) :
    ∃ n, w.sink.file = some n ∧
      (d.perform session .finalize).2.storage.disk.find w.sink.finalPath = .ok (.file n) ∧
      (d.perform session .finalize).2.storage.disk.read n = w.accepted := by
  obtain ⟨hf, hrename⟩ := rename_of_verdict hv hw
  obtain ⟨n, hn⟩ := Option.ne_none_iff_exists'.1 hf
  obtain ⟨hfind, hread⟩ := h w n hw hn
  obtain ⟨hfind', hcontents⟩ := find_rename hrename hfind
  refine ⟨n, hn, hfind', ?_⟩
  rw [← hread]
  unfold Disk.read
  rw [hcontents]

/-- Who overwrites a partial file has declared its name. -/
theorem Overwrites.declares (h : d.Overwrites session op other) (hd : Sound d) :
    ∃ w, d.works.get? session = some w ∧
      ((Path.segments w.sink.finalPath).filter (· ≠ [])).getLast? = some (partName other) := by
  obtain ⟨rfl, hv, w, w', hw, hw', p, ⟨l, hl, hp⟩, l', hl', hp'⟩ := h
  refine ⟨w, hw, ?_⟩
  obtain ⟨parent, s, parent₁, s₁, n, -, htarget, -⟩ := rename_cases (rename_of_verdict hv hw).2
  obtain rfl := Except.ok.inj (hl.symm.trans htarget)
  obtain ⟨directory, hpart⟩ := (hd.fits other w' hw').part
  rw [hpart] at hl'
  obtain ⟨parent₂, rfl⟩ := last_join_partName (hd.fits other w' hw').slash hl'
  have hname : s₁ = partName other := by
    simpa using (List.append_inj' (hp.trans hp'.symm) rfl).2
  rcases last_cases htarget with ⟨q, hq, -⟩ | ⟨parent₃, s₃, hs₃, hlast⟩
  · cases hq
  · obtain ⟨-, rfl⟩ : parent₁ = parent₃ ∧ s₁ = s₃ := by simpa using hs₃
    rw [hlast, hname]

/-- The path stands for the same file as before, with the same bytes. -/
def Spares (d d' : Depot) (path : List Char) : Prop :=
  d'.storage.disk.find path = d.storage.disk.find path ∧
    d'.storage.disk.readFile path = d.storage.disk.readFile path

/-- **The file of a session is its own until another session is stored under its name.** A good
verdict keeps exactly the bytes that the session accepted. Before it the partial file holds them,
and somebody else's operation changes or removes that file only by overwriting it, and does so then. -/
theorem keeps_own_file (h : Undisturbed session d) (hw : d.works.get? session = some w) :
    ((d.perform session .finalize).1 = true →
      (d.perform session .finalize).2.storage.disk.readFile w.sink.finalPath = .ok w.accepted) ∧
    (w.sink.file ≠ none → d.storage.disk.readFile w.sink.partPath = .ok w.accepted ∧
      ∀ other op, other ≠ session →
        (¬ d.Overwrites other op session →
          Spares d (d.perform other op).2 w.sink.partPath) ∧
        (d.Overwrites other op session → Undisturbed other d →
          ¬ Spares d (d.perform other op).2 w.sink.partPath)) := by
  have hd := sound_of_reachable h.reachable
  have hintact := intact_of_undisturbed h
  refine ⟨fun hv => ?_, fun hlive => ?_⟩
  · obtain ⟨n, -, hfind, hread⟩ := hintact.find_of_verdict hv hw
    rw [readFile_of_find hfind, hread]
  · obtain ⟨n, hn⟩ := Option.ne_none_iff_exists'.1 hlive
    obtain ⟨hfind, hread⟩ := hintact w n hw hn
    refine ⟨by rw [readFile_of_find hfind, hread], fun other op hne => ⟨fun ho => ?_, ?_⟩⟩
    · obtain ⟨hfind', hread'⟩ := (perform_outcome d other op).spares hd hne hw hn hfind
        fun hop hverdict w₁ hw₁ p hp hp' => ho ⟨hop, hverdict, w₁, w, hw₁, hw, p, hp, hp'⟩
      exact ⟨hfind'.trans hfind.symm, by
        rw [readFile_of_find hfind', readFile_of_find hfind, hread']⟩
    · -- After an overwriting the path stands for the other session's file.
      rintro ⟨rfl, hv, w₁, w₂, hw₁, hw₂, p, ⟨l, hl, hp⟩, l', hl', hp'⟩ hother ⟨hsame, -⟩
      obtain rfl := Option.some.inj (hw₂.symm.trans hw)
      obtain ⟨m, hm, hfinal, -⟩ := (intact_of_undisturbed hother).find_of_verdict hv hw₁
      rw [hfind] at hsame
      have hkeeps := (perform_outcome d other .finalize).touches.keeps
      obtain ⟨parent, s, hs, -, hat, -⟩ := find_eq_file.1 hsame
      obtain ⟨parent₁, s₁, hs₁, -, hat₁, -⟩ := find_eq_file.1 hfinal
      obtain rfl := Except.ok.inj ((hkeeps.last hl').symm.trans hs)
      obtain rfl := Except.ok.inj ((hkeeps.last hl).symm.trans hs₁)
      have hplace : parent ++ [s] = parent₁ ++ [s₁] := hp'.trans hp.symm
      rw [hplace, hat₁] at hat
      obtain rfl : m = n := by simpa using hat
      exact hne (hd.apart other session w₁ w₂ m hw₁ hw hm hn)

/-- The directory after some operations. -/
def after (d : Depot) (ops : List (String × Op)) : Depot :=
  ops.foldl (fun d p => (d.perform p.1 p.2).2) d

/-- One session has accepted its byte while another waits for its own. -/
def twoNames : Depot :=
  ({ base := "out".toList } : Depot).after
    [("a", .openSink "x" 1), ("b", .openSink "y" 1), ("a", .accept 0 [1])]

theorem twoNames_undisturbed : twoNames.Undisturbed "a" := by
  refine .step (.step (.step (.fresh (.start rfl numbered_empty) rfl) ?_ ?_) ?_ ?_) ?_ ?_
  · simp [Allows]
  · simp [Overwrites]
  · simp [Allows]
  · simp [Overwrites]
  · intro w hw
    cases hw
    decide
  · simp [Overwrites]

theorem twoNames_kept : twoNames.Undisturbed "a" ∧
    (twoNames.perform "a" .finalize).2.storage.disk.readFile "out/x".toList = .ok [1] ∧
    Spares twoNames (twoNames.perform "b" .finalize).2 "out/.a.part".toList := by
  obtain ⟨hstored, hlive⟩ := keeps_own_file twoNames_undisturbed rfl
  -- `b` has not got its byte yet, so its verdict is a bad one.
  have hb : (twoNames.perform "b" .finalize).1 = false := rfl
  have hspared := ((hlive nofun).2 "b" .finalize (by decide)).1 (by simp [Overwrites, hb])
  exact ⟨twoNames_undisturbed, hstored rfl, hspared⟩

/-- One session declares the name of the partial file of another one and has accepted its byte. -/
def sharedName : Depot :=
  ({ base := "out".toList } : Depot).after
    [("a", .openSink "x" 1), ("b", .openSink ".a.part" 1), ("b", .accept 0 [2])]

/-- The verdict of `b` replaces the partial file of `a`, which then accepts the byte 1, gets a good
verdict, and is stored with the byte 2. -/
theorem sharedName_stored : Reachable sharedName ∧
    sharedName.storage.disk.readFile "out/.a.part".toList = .ok [] ∧
    (sharedName.perform "b" .finalize).2.storage.disk.readFile "out/.a.part".toList = .ok [2] ∧
    let d := sharedName.after [("b", .finalize), ("a", .accept 0 [1])]
    (d.works.get? "a").map Work.accepted = some [1] ∧ (d.perform "a" .finalize).1 = true ∧
      (d.perform "a" .finalize).2.storage.disk.readFile "out/x".toList = .ok [2] := by
  refine ⟨.step (.step (.step (.start rfl numbered_empty) ?_) ?_) ?_, rfl, rfl, rfl, rfl, rfl⟩
  · simp [Allows]
  · simp [Allows]
  · intro w hw
    cases hw
    decide

end Depot

end PullIngest
