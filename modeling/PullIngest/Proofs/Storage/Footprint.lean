import Mathlib.Data.Set.Insert
import PullIngest.Proofs.Storage.Sink
import PullIngest.Proofs.Text.Path

/-!
# What sinks touch on a disk

An operation of a sink changes its own file and the places that its two paths lead to. All other
files keep their names and their bytes.

* `Disk.Touches`: the second disk differs from the first at some places and in some files only,
  with one lemma for each operation of disks and of sinks;
* `last_join_partName`: the place of a partial file tells the session.
-/

namespace PullIngest

namespace Disk

variable {d d' d'' : Disk} {path source target : List Char} {n : ℕ} {places : Set Place}
  {files : Set ℕ}

/-- Every file that has a name has a number that was given out. -/
def Numbered (d : Disk) : Prop := ∀ p n, d.at? p = some (.file n) → n < d.nextFile

theorem numbered_empty : Numbered {} := by
  intro p n h
  unfold Disk.at? at h
  split_ifs at h
  · cases h
  · change (∅ : Table Place Entry).get? p = some (.file n) at h
    rw [Table.get?_empty] at h
    cases h

/-- The place that a path leads to, if it leads to one. -/
def leadsTo (d : Disk) (path : List Char) : Set Place := {p | ∃ l, d.last path = .ok l ∧ l.place = p}

/-- No directory goes away, and elsewhere every file keeps its names and its bytes. -/
structure Touches (places : Set Place) (files : Set ℕ) (d d' : Disk) : Prop where
  keeps : Keeps d d'
  file : ∀ p, p ∉ places → ∀ n, d.at? p = some (.file n) → d'.at? p = some (.file n)
  read : ∀ n, n < d.nextFile → n ∉ files → d'.read n = d.read n
  next_le : d.nextFile ≤ d'.nextFile
  numbered : d.Numbered → d'.Numbered

theorem Touches.refl (places : Set Place) (files : Set ℕ) (d : Disk) : Touches places files d d :=
  ⟨⟨rfl, fun _ h => h⟩, fun _ _ _ h => h, fun _ _ _ => rfl, Nat.le_refl _, id⟩

theorem Touches.trans (h : Touches places files d d') (h' : Touches places files d' d'') :
    Touches places files d d'' where
  keeps := h.keeps.trans h'.keeps
  file p hp n hn := h'.file p hp n (h.file p hp n hn)
  read n hn hf := (h'.read n (Nat.lt_of_lt_of_le hn h.next_le) hf).trans (h.read n hn hf)
  next_le := Nat.le_trans h.next_le h'.next_le
  numbered hd := h'.numbered (h.numbered hd)

theorem Touches.mono {places' : Set Place} {files' : Set ℕ} (h : Touches places files d d')
    (hp : places ⊆ places') (hf : files ⊆ files') : Touches places' files' d d' where
  keeps := h.keeps
  file p hp' := h.file p fun hmem => hp' (hp hmem)
  read n hn hf' := h.read n hn fun hmem => hf' (hf hmem)
  next_le := h.next_le
  numbered := h.numbered

/-- What the last segment of a path says about where the path leads. -/
theorem last_cases {l : Last} (hl : d.last path = .ok l) :
    (∃ p, l = .directory p ∧ ∀ s, ((Path.segments path).filter (· ≠ [])).getLast? = some s →
      s = Path.dot ∨ s = Path.dotDot) ∨
    ∃ parent s, l = .name parent s ∧
      ((Path.segments path).filter (· ≠ [])).getLast? = some s := by
  obtain ⟨-, ⟨hs, rfl⟩ | ⟨before, s, parent, hs, -, rfl⟩⟩ := last_eq_ok.1 hl
  · refine .inl ⟨_, rfl, fun s hlast => ?_⟩
    change (steps path).getLast? = some s at hlast
    simp [hs] at hlast
  · have hlast : (steps path).getLast? = some s := by simp [hs]
    unfold ending
    split_ifs with hdot hdots
    · exact .inl ⟨_, rfl, fun t ht => .inl ((Option.some.inj (ht.symm.trans hlast)).trans hdot)⟩
    · exact .inl ⟨_, rfl, fun t ht => .inr ((Option.some.inj (ht.symm.trans hlast)).trans hdots)⟩
    · exact .inr ⟨parent, s, rfl, hlast⟩

/-- A path that leads elsewhere leads to the same file as before. -/
theorem Touches.find (h : Touches places files d d') (hf : d.find path = .ok (.file n))
    (hp : ∀ p ∈ d.leadsTo path, p ∉ places) : d'.find path = .ok (.file n) := by
  obtain ⟨parent, s, hl, hs, hat, hd⟩ := find_eq_file.1 hf
  exact find_eq_file.2 ⟨parent, s, h.keeps.last hl, hs, h.file _ (hp _ ⟨_, hl, rfl⟩) n hat, hd⟩

/-! ### Operations of disks -/

/-- A name that was free is nobody's. -/
theorem touches_set_free {p : Place} (hp : p ≠ []) (h : d.at? p = none) (e : Entry)
    (he : ∀ n, e = .file n → n < d.nextFile) :
    Touches ∅ ∅ d { d with entries := d.entries.set p e } where
  keeps := keeps_set hp (by simp [h]) e
  file q _ n hq := by
    rw [at?_set d hp, if_neg]
    · exact hq
    · rintro rfl
      rw [h] at hq
      cases hq
  read _ _ _ := rfl
  next_le := Nat.le_refl _
  numbered hd q n hq := by
    rw [at?_set d hp] at hq
    split_ifs at hq
    · exact he n (Option.some.inj hq)
    · exact hd q n hq

theorem touches_makeDirectory (h : d.makeDirectory path = .ok d') : Touches ∅ ∅ d d' := by
  obtain ⟨parent, s, hat, rfl⟩ := makeDirectory_cases h
  exact touches_set_free (place_ne_nil parent s) hat .directory (by simp)

/-- What each new directory keeps is kept when several are made. -/
theorem makeDirectoriesAt_induction {R : Disk → Disk → Prop} (hrefl : ∀ d, R d d)
    (htrans : ∀ {d d' d''}, R d d' → R d' d'' → R d d'')
    (hstep : ∀ {d d' : Disk} {path}, d.makeDirectory path = .ok d' → R d d') (d : Disk)
    (steps : List Path.Component) : R d (d.makeDirectoriesAt steps).1 := by
  induction steps with
  | nil => exact hrefl d
  | cons c above ih =>
    unfold makeDirectoriesAt
    dsimp only
    split
    · next h => exact hstep h
    · generalize d.makeDirectoriesAt above = r at ih
      obtain ⟨d₁, e⟩ := r
      cases e with
      | error e => exact ih
      | ok u =>
        dsimp only
        split
        · next h => exact htrans ih (hstep h)
        · exact ih
    · exact hrefl d

theorem touches_makeDirectoriesAt (d : Disk) (steps : List Path.Component) :
    Touches ∅ ∅ d (d.makeDirectoriesAt steps).1 :=
  makeDirectoriesAt_induction (.refl ∅ ∅) .trans touches_makeDirectory d steps

/-- New directories hold no bytes. -/
theorem contents_makeDirectoriesAt (d : Disk) (steps : List Path.Component) :
    (d.makeDirectoriesAt steps).1.contents = d.contents :=
  makeDirectoriesAt_induction (R := fun d d' => d'.contents = d.contents) (fun _ => rfl)
    (fun h h' => h'.trans h) (fun h => by obtain ⟨_, _, -, rfl⟩ := makeDirectory_cases h; rfl) d steps

theorem touches_addFile {p : Place} (hp : p ≠ []) (h : d.at? p = none) (bytes : List UInt8) :
    Touches ∅ ∅ d (d.addFile p bytes) where
  keeps := keeps_addFile hp h bytes
  file q _ n hq := by
    show ({ d with entries := d.entries.set p (.file d.nextFile) } : Disk).at? q = _
    rw [at?_set d hp, if_neg]
    · exact hq
    · rintro rfl
      rw [h] at hq
      cases hq
  read n hn _ := by
    have hne : d.nextFile ≠ n := Nat.ne_of_gt hn
    simp [Disk.read, addFile, Table.get?_set_ne _ hne]
  next_le := Nat.le_succ _
  numbered hd q n hq := by
    have hq' : ({ d with entries := d.entries.set p (.file d.nextFile) } : Disk).at? q
        = some (.file n) := hq
    rw [at?_set d hp] at hq'
    split_ifs at hq'
    · obtain rfl : d.nextFile = n := by simpa using hq'
      exact Nat.lt_succ_self _
    · exact Nat.lt_succ_of_lt (hd q n hq')

theorem touches_createFile (h : d.createFile path = .ok (d', n)) : Touches ∅ ∅ d d' := by
  obtain ⟨parent, s, -, -, -, hat, rfl, -⟩ := createFile_cases h
  exact touches_addFile (place_ne_nil parent s) hat []

theorem touches_writeAt (d : Disk) (n offset : ℕ) (data : List UInt8) :
    Touches ∅ {n} d (d.writeAt n offset data) := by
  have hread : ∀ m, m < d.nextFile → m ∉ ({n} : Set ℕ) →
      (d.writeAt n offset data).read m = d.read m :=
    fun m _ hm => read_writeAt_ne d hm offset data
  unfold writeAt at hread ⊢
  split_ifs at hread ⊢
  · exact .refl _ _ d
  · exact ⟨⟨rfl, fun _ h => h⟩, fun _ _ _ h => h, hread, Nat.le_refl _, id⟩

theorem touches_erase {p : Place} (hp : p ≠ []) (h : d.at? p ≠ some .directory) :
    Touches {p} ∅ d { d with entries := d.entries.erase p } where
  keeps := keeps_erase hp h
  file q hq n hn := by
    rw [at?_erase d hp, if_neg]
    · exact hn
    · rintro rfl
      exact hq rfl
  read _ _ _ := rfl
  next_le := Nat.le_refl _
  numbered hd q n hq := by
    rw [at?_erase d hp] at hq
    split_ifs at hq
    exact hd q n hq

theorem touches_removeFile (h : d.removeFile path = .ok d') :
    Touches (d.leadsTo path) ∅ d d' := by
  obtain ⟨parent, s, m, hl, hat, rfl⟩ := removeFile_cases h
  refine (touches_erase (place_ne_nil parent s) (by simp [hat])).mono ?_ (Set.Subset.refl _)
  rintro p rfl
  exact ⟨_, hl, rfl⟩

theorem touches_rename (h : d.rename source target = .ok d') :
    Touches (d.leadsTo source ∪ d.leadsTo target) ∅ d d' := by
  have hkeeps := keeps_rename h
  obtain ⟨parent, s, parent', s', m, hl, hl', -, -, -, hat, -, rfl⟩ := rename_cases h
  have hat? := at?_move d (place_ne_nil parent s) (place_ne_nil parent' s') (.file m)
  refine ⟨hkeeps, fun p hp n hn => ?_, fun _ _ _ => rfl, Nat.le_refl _, fun hd p n hp => ?_⟩
  · obtain ⟨hsource, htarget⟩ := not_or.1 hp
    have hne : parent ++ [s] ≠ p := fun e => hsource ⟨_, hl, e⟩
    have hne' : parent' ++ [s'] ≠ p := fun e => htarget ⟨_, hl', e⟩
    rw [hat?, if_neg hne', if_neg hne]
    exact hn
  · rw [hat?] at hp
    split_ifs at hp
    · obtain rfl : m = n := by simpa using hp
      exact hd _ _ hat
    · exact hd p n hp

end Disk

/-! ### Operations of sinks -/

namespace FileSink

open Disk

variable {d d' : Disk} {f f' : FileSink} {s : Storage} {base : List Char} {session name : String}
  {size : UInt64} {onlyKnown : Bool}

theorem touches_create (base : List Char) (session name : String) (size : UInt64)
    (onlyKnown : Bool) (d : Disk) :
    Touches ∅ ∅ d (create base session name size onlyKnown d).2 := by
  unfold create
  split
  · exact .refl _ _ d
  · have hmade := touches_makeDirectoriesAt d
      (Path.components ((Path.parent? (Path.join base name.toList)).getD base)).reverse
    change Touches ∅ ∅ d (d.makeDirectories _).1 at hmade
    dsimp only
    split
    · next h =>
      rw [h] at hmade
      exact hmade
    · next h =>
      rw [h] at hmade
      split
      · exact hmade
      · next hc => exact hmade.trans (touches_createFile hc)

theorem touches_openClaimed {s' : Storage} {r : Except TransferError FileSink}
    (h : openClaimed base session name size onlyKnown s = (r, s')) :
    Touches ∅ ∅ s.disk s'.disk := by
  have hmade := touches_create base session name size onlyKnown s.disk
  unfold openClaimed at h
  split at h
  · cases h
    exact .refl _ _ _
  · dsimp only at h
    split_ifs at h
    · cases h
      exact .refl _ _ _
    · split at h
      · next hc =>
        change create base session name size onlyKnown s.disk = _ at hc
        rw [hc] at hmade
        cases h
        exact hmade
      · next hc =>
        change create base session name size onlyKnown s.disk = _ at hc
        rw [hc] at hmade
        cases h
        exact hmade

/-- A sink that was opened has a new file, and no bytes in it. -/
theorem openClaimed_fresh {s' : Storage}
    (h : openClaimed base session name size onlyKnown s = (.ok f, s')) :
    ∃ directory n, f.partPath = Path.join directory (partName session) ∧ f.written = 0 ∧
      f.file = some n ∧ s.disk.nextFile ≤ n ∧ n < s'.disk.nextFile ∧
      s'.disk.find f.partPath = .ok (.file n) ∧ s'.disk.read n = [] := by
  obtain ⟨f', hc, rfl⟩ := Sink.openClaimed_cases h
  obtain ⟨directory, d₁, n, hmade, hfile, rfl⟩ := Sink.create_cases hc
  obtain ⟨hfind, hread⟩ := createFile_spec hfile
  refine ⟨directory, n, rfl, rfl, rfl, ?_, ?_, hfind, hread⟩
  · have hle := (touches_makeDirectoriesAt s.disk (Path.components directory).reverse).next_le
    change s.disk.nextFile ≤ (s.disk.makeDirectories directory).1.nextFile at hle
    obtain ⟨parent, t, -, -, -, -, -, rfl⟩ := createFile_cases hfile
    rwa [hmade] at hle
  · obtain ⟨parent, t, -, -, -, -, hd, rfl⟩ := createFile_cases hfile
    rw [hd]
    exact Nat.lt_succ_self _

theorem touches_discard (f : FileSink) (d : Disk) :
    Touches (d.leadsTo f.partPath) ∅ d (f.discard d).1 := by
  unfold discard
  split
  · next h => exact touches_removeFile h
  · exact .refl _ _ d
  · exact .refl _ _ d

theorem touches_fail (f : FileSink) (s : Storage) :
    Touches (s.disk.leadsTo f.partPath) ∅ s.disk (f.fail s).2.1.disk := by
  have h := touches_discard f s.disk
  unfold fail
  rwa [Sink.release_disk]

theorem touches_drop (f : FileSink) (s : Storage) :
    Touches (s.disk.leadsTo f.partPath) ∅ s.disk (f.drop s).1.disk := by
  have h := touches_discard f s.disk
  unfold drop
  split_ifs
  · rw [Sink.release_disk]
    exact .refl _ _ _
  · rwa [Sink.release_disk]

/-- The name of a partial file has no slashes, and no other file has it by being a dot or two. -/
theorem partName_plain {session : String} (h : '/' ∉ session.toList) :
    '/' ∉ partName session ∧ partName session ≠ [] ∧ partName session ≠ Path.dot ∧
      partName session ≠ Path.dotDot := by
  have hpart : ".part".toList = ['.', 'p', 'a', 'r', 't'] := rfl
  unfold partName
  rw [hpart]
  refine ⟨by simpa using h, by simp, ?_, ?_⟩
  · simp [Path.dot]
  · intro e
    have := congrArg List.length e
    simp [Path.dotDot] at this

theorem partName_inj {session session' : String} (h : partName session = partName session') :
    session = session' := by
  unfold partName at h
  have h' := List.append_cancel_right h
  exact String.toList_inj.1 (List.cons.inj h').2

/-- A path to the partial file of a session ends in its name. -/
theorem last_join_partName {base : List Char} (h : '/' ∉ session.toList) {l : Last}
    (hl : d.last (Path.join base (partName session)) = .ok l) :
    ∃ parent, l = .name parent (partName session) := by
  obtain ⟨hslash, hne, hdot, hdots⟩ := partName_plain h
  obtain ⟨before, hseg⟩ := Path.segments_join_of_no_slash base hslash
  rcases last_cases hl with ⟨p, -, hlast⟩ | ⟨parent, s, rfl, hlast⟩
  · rw [hseg] at hlast
    simp [List.filter_append, hne, hdot, hdots] at hlast
  · rw [hseg] at hlast
    obtain rfl : partName session = s := by simpa [List.filter_append, hne] using hlast
    exact ⟨parent, rfl⟩

end FileSink

end PullIngest
