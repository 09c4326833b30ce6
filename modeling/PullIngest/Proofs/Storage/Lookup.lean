import PullIngest.Proofs.Storage.Disk
import PullIngest.Proofs.Text.Path

/-!
# What stands at a path

A path stands for nothing, for a directory, or for a file with its bytes. That can only change with
the entry that the path leads to and with the bytes of its file.

* `stands?`, `stands?_congr`: what a path stands for, and when it stays so;
* `bytesAt?`: the bytes of the file at a place;
* `fileName?_of_last`: the name that a path leads to is its last step;
* `rename_of_find`, `rename_contents`, `removeFile_of_find`: operations on a file that is there.
-/

namespace PullIngest.Disk

variable {d d' : Disk} {path source target : List Char} {n : ℕ}

/-- A path that leads to a name has it as its last step. -/
theorem fileName?_of_last {parent : Place} {s : List Char}
    (hl : d.last path = .ok (.name parent s)) : Path.fileName? path = some s := by
  -- Empty segments are no steps.
  have hempty : (steps path).filterMap Path.step? =
      (Path.segments path).filterMap Path.step? := by
    unfold steps
    rw [List.filterMap_filter]
    congr 1
    funext t
    by_cases ht : t = [] <;> simp [Path.step?, ht]
  obtain ⟨-, ⟨-, hroot⟩ | ⟨before, t, parent', hs, -, hname⟩⟩ := last_eq_ok.1 hl
  · cases hroot
  · unfold ending at hname
    split_ifs at hname with hdot hdots
    obtain ⟨rfl, rfl⟩ : parent = parent' ∧ s = t := by simpa using hname
    have hne : s ≠ [] := by
      have hmem : s ∈ steps path := by simp [hs]
      simpa using (List.mem_filter.1 hmem).2
    rw [Path.fileName?_eq_some, ← hempty, hs, List.filterMap_append, List.getLast?_append]
    simp [Path.step?, hne, hdot, hdots]

/-! ### What stands at a path -/

/-- What stands at a path: nothing, a directory, or a file with its bytes. -/
def stands? (d : Disk) (path : List Char) : Option (Option (List UInt8)) :=
  match d.find path with
  | .ok .directory => some none
  | .ok (.file n) => some (some (d.read n))
  | .error _ => none

/-- The bytes of the file at a place. -/
def bytesAt? (d : Disk) (p : Place) : Option (List UInt8) :=
  match d.at? p with
  | some (.file n) => some (d.read n)
  | _ => none

/-- What a path stands for, by where it leads. -/
theorem find_eq_ok {e : Entry} : d.find path = .ok e ↔
    ∃ l, d.last path = .ok l ∧ d.entry? l = .ok (some e) ∧
      ∀ n, e = .file n → namesDirectory path = false := by
  unfold find
  rw [bind_eq_ok]
  constructor
  · rintro ⟨l, hl, h⟩
    obtain ⟨e', he, h⟩ := bind_eq_ok.1 h
    refine ⟨l, hl, ?_⟩
    cases e' with
    | none => cases h
    | some e' =>
      cases e' with
      | directory =>
        cases h
        exact ⟨he, nofun⟩
      | file m =>
        dsimp only at h
        split_ifs at h with hd
        cases h
        exact ⟨he, fun _ _ => by simpa using hd⟩
  · rintro ⟨l, hl, he, hd⟩
    refine ⟨l, hl, bind_eq_ok.2 ⟨_, he, ?_⟩⟩
    cases e with
    | directory => rfl
    | file m => simp [hd m rfl]

theorem Keeps.find_ok (h : Keeps d d') {e : Entry} (hf : d.find path = .ok e)
    (hat : ∀ parent s, d.last path = .ok (.name parent s) →
      d'.at? (parent ++ [s]) = d.at? (parent ++ [s])) : d'.find path = .ok e := by
  obtain ⟨l, hl, he, hd⟩ := find_eq_ok.1 hf
  refine find_eq_ok.2 ⟨l, h.last hl, ?_, hd⟩
  rw [entry?_eq_ok] at he ⊢
  refine he.imp id ?_
  rintro ⟨parent, s, rfl, hs, heq⟩
  exact ⟨parent, s, rfl, hs, heq.trans (hat parent s hl).symm⟩

/-! ### Bytes lead nowhere -/

theorem keeps_contents (d : Disk) (contents : Table ℕ (List UInt8)) :
    Keeps d { d with contents } ∧ Keeps { d with contents } d :=
  ⟨⟨rfl, fun _ h => h⟩, ⟨rfl, fun _ h => h⟩⟩

/-- A file can be given the name that a path leads to, unless it is the name of a directory. -/
theorem rename_of_find {parent' : Place} {s' : List Char} (hf : d.find source = .ok (.file n))
    (hl' : d.last target = .ok (.name parent' s')) (hs' : byteLength s' ≤ maxName)
    (hd' : namesDirectory target = false) (hat' : d.at? (parent' ++ [s']) ≠ some .directory) :
    ∃ parent s, d.last source = .ok (.name parent s) ∧
      d.rename source target = .ok { d with
        entries := (d.entries.erase (parent ++ [s])).set (parent' ++ [s']) (.file n) } := by
  obtain ⟨parent, s, hl, hs, hat, hd⟩ := find_eq_file.1 hf
  refine ⟨parent, s, hl, bind_eq_ok.2 ⟨_, hl, bind_eq_ok.2 ⟨_, hl', ?_⟩⟩⟩
  refine bind_eq_ok.2 ⟨_, entry?_eq_ok.2 (.inr ⟨parent, s, rfl, hs, rfl⟩), ?_⟩
  rw [hat]
  refine bind_eq_ok.2 ⟨_, entry?_eq_ok.2 (.inr ⟨parent', s', rfl, hs', rfl⟩), ?_⟩
  rw [if_neg (by simp [hd, hd']), if_neg hat']
  rfl

/-- Whether a file can be given a name does not depend on the bytes of files. -/
theorem rename_contents {contents : Table ℕ (List UInt8)} (hf : d.find source = .ok (.file n))
    (h : d.rename source target = .ok d') :
    ({ d with contents } : Disk).rename source target = .ok { d' with contents } := by
  obtain ⟨hkeeps, -⟩ := keeps_contents d contents
  obtain ⟨parent, s, parent', s', m, hl, hl', hs', -, hd', hat, hat', rfl⟩ := rename_cases h
  obtain ⟨parent₁, s₁, hl₁, hr⟩ := rename_of_find (d := { d with contents })
    (hkeeps.find hf fun _ h => h) (hkeeps.last hl') hs' hd' hat'
  obtain ⟨rfl, rfl⟩ : parent = parent₁ ∧ s = s₁ := by
    simpa using (hkeeps.last hl).symm.trans hl₁
  obtain ⟨parent₂, s₂, hl₂, -, hat₂, -⟩ := find_eq_file.1 hf
  obtain ⟨rfl, rfl⟩ : parent = parent₂ ∧ s = s₂ := by simpa using hl.symm.trans hl₂
  obtain rfl : m = n := by simpa using hat.symm.trans hat₂
  exact hr

theorem removeFile_of_find (hf : d.find path = .ok (.file n)) :
    ∃ parent s, d.last path = .ok (.name parent s) ∧
      d.removeFile path = .ok { d with entries := d.entries.erase (parent ++ [s]) } := by
  obtain ⟨parent, s, hl, hs, hat, hd⟩ := find_eq_file.1 hf
  refine ⟨parent, s, hl, bind_eq_ok.2 ⟨_, hl, ?_⟩⟩
  refine bind_eq_ok.2 ⟨_, entry?_eq_ok.2 (.inr ⟨parent, s, rfl, hs, rfl⟩), ?_⟩
  rw [hat]
  simp [hd, Last.place]

/-- A path whose place is free stands for nothing. -/
theorem find_of_free {parent : Place} {s : List Char} (hl : d.last path = .ok (.name parent s))
    (hs : byteLength s ≤ maxName) (hat : d.at? (parent ++ [s]) = none) :
    d.find path = .error .notFound := by
  unfold Disk.find
  rw [hl]
  show (d.entry? (.name parent s) >>= _) = _
  rw [entry?_eq_ok.2 (.inr ⟨parent, s, rfl, hs, rfl⟩), hat]
  rfl

/-- A path that leads to a name whose entry stays, in a file whose bytes stay, stands for the
same. -/
theorem stands?_congr (h : Keeps d d') (h' : Keeps d' d)
    (hat : ∀ parent s, d.last path = .ok (.name parent s) →
      d'.at? (parent ++ [s]) = d.at? (parent ++ [s]) ∧
        ∀ m, d.at? (parent ++ [s]) = some (.file m) → d'.read m = d.read m) :
    d'.stands? path = d.stands? path := by
  have hfind : ∀ e, d'.find path = .ok e ↔ d.find path = .ok e := by
    refine fun e => ⟨fun hf => h'.find_ok hf fun parent s hl => ?_,
      fun hf => h.find_ok hf fun parent s hl => (hat parent s hl).1⟩
    exact ((hat parent s (h'.last hl)).1).symm
  unfold stands?
  cases hd : d.find path with
  | ok e =>
    rw [(hfind e).2 hd]
    cases e with
    | directory => rfl
    | file m =>
      obtain ⟨parent, s, hl, -, hm, -⟩ := find_eq_file.1 hd
      exact congrArg (fun bytes => some (some bytes)) ((hat parent s hl).2 m hm)
  | error e =>
    cases hd' : d'.find path with
    | ok e' =>
      rw [(hfind e').1 hd'] at hd
      cases hd
    | error e' => rfl

end PullIngest.Disk
