import Mathlib.Tactic.Common
import PullIngest.Disk

/-!
# Files keep their bytes

What changes on a disk while a file is made, written and renamed. A path leads through directories
only, so it leads to the same place as long as no directory goes away.

* `last_eq_ok`: where a path leads, up to its last segment;
* `Keeps`: the second disk has every directory of the first, and `Keeps.last` for paths;
* `createFile_cases`, `rename_cases`, …: everything that an operation does when it succeeds. Later
  proofs use these and never open an operation;
* `createFile_spec`, `read_writeAt`, `find_rename`: a file's life up to its last name.
-/

namespace PullIngest.Disk

variable {d d' : Disk} {path source target : List Char} {n : ℕ}

/-- The second disk has every directory of the first. -/
structure Keeps (d d' : Disk) : Prop where
  current_eq : d'.current = d.current
  directories : ∀ p, d.at? p = some .directory → d'.at? p = some .directory

theorem Keeps.walk (h : Keeps d d') {p q : Place} {segments : List (List Char)}
    (hw : d.walk p segments = .ok q) : d'.walk p segments = .ok q := by
  induction segments generalizing p with
  | nil => exact hw
  | cons s r ih =>
    unfold Disk.walk at hw ⊢
    split_ifs at hw ⊢ with h1 h2 h3
    · exact ih hw
    · exact ih hw
    · cases he : d.at? (p ++ [s]) with
      | none => rw [he] at hw; cases hw
      | some e =>
        rw [he] at hw
        cases e with
        | file m => cases hw
        | directory =>
          rw [h.directories _ he]
          exact ih hw

/-- A computation that ends well goes through every one of its steps. -/
theorem bind_eq_ok {α β : Type} {x : Except IoError α} {f : α → Except IoError β} {b : β} :
    (x >>= f) = .ok b ↔ ∃ a, x = .ok a ∧ f a = .ok b := by
  cases x with
  | error e => simp [bind, Except.bind]
  | ok a => simp [bind, Except.bind]

/-- The segments of a path that the file system reads. -/
def steps (path : List Char) : List (List Char) := (Path.segments path).filter (· ≠ [])

/-- Where a path starts. -/
def origin (d : Disk) (path : List Char) : Place := if path.head? = some '/' then [] else d.current

/-- The last segment of a path, below a directory. -/
def ending (parent : Place) (s : List Char) : Last :=
  if s = Path.dot then .directory parent
  else if s = Path.dotDot then .directory parent.dropLast
  else .name parent s

theorem last_eq_ok {l : Last} : d.last path = .ok l ↔
    ('\x00' ∉ path ∧ path ≠ [] ∧ byteLength path < maxPath) ∧
      (steps path = [] ∧ l = .directory (d.origin path) ∨
        ∃ before s parent, steps path = before ++ [s] ∧
          d.walk (d.origin path) before = .ok parent ∧ l = ending parent s) := by
  unfold Disk.last
  by_cases h1 : '\x00' ∈ path
  · simp [h1]
  by_cases h2 : path = []
  · simp [h2]
  by_cases h3 : maxPath ≤ byteLength path
  · simp [h1, h2, h3, Nat.not_lt.2 h3]
  have hfits : byteLength path < maxPath := Nat.not_le.1 h3
  rw [if_neg h1, if_neg h2, if_neg h3, and_iff_right ⟨h1, h2, hfits⟩]
  dsimp only
  cases hrev : ((Path.segments path).filter (· ≠ [])).reverse with
  | nil =>
    have hsteps : steps path = [] := List.reverse_eq_nil_iff.1 hrev
    show Except.ok (Last.directory (d.origin path)) = _ ↔ _
    simp [hsteps, eq_comm (a := l)]
  | cons s before =>
    have hsteps : steps path = before.reverse ++ [s] := by
      rw [← List.reverse_reverse (steps path), show (steps path).reverse = _ from hrev,
        List.reverse_cons]
    have hending (parent : Place) :
        (if s = Path.dot then Except.ok (Last.directory parent)
          else if s = Path.dotDot then .ok (.directory parent.dropLast)
          else .ok (.name parent s)) = (.ok l : Except IoError Last) ↔ l = ending parent s := by
      unfold ending
      split_ifs <;> simp [eq_comm (a := l)]
    show (d.walk (d.origin path) before.reverse >>= _) = _ ↔ _
    rw [bind_eq_ok]
    simp only [hending, hsteps]
    constructor
    · rintro ⟨parent, hw, hl⟩
      exact .inr ⟨_, _, parent, rfl, hw, hl⟩
    · rintro (⟨hnil, -⟩ | ⟨before', s', parent, he, hw, hl⟩)
      · simp at hnil
      · obtain ⟨rfl, rfl⟩ : before.reverse = before' ∧ s = s' := by simpa using he
        exact ⟨parent, hw, hl⟩

theorem Keeps.last (h : Keeps d d') {l : Last} (hl : d.last path = .ok l) :
    d'.last path = .ok l := by
  have horigin : d'.origin path = d.origin path := by
    unfold origin
    rw [h.current_eq]
  obtain ⟨hfits, hcases⟩ := last_eq_ok.1 hl
  refine last_eq_ok.2 ⟨hfits, ?_⟩
  rw [horigin]
  rcases hcases with hroot | ⟨before, s, parent, hs, hw, hl⟩
  · exact .inl hroot
  · exact .inr ⟨before, s, parent, hs, h.walk hw, hl⟩

/-! ### What a path to a file is -/

theorem at?_name (d : Disk) (parent : Place) (s : List Char) :
    d.at? (parent ++ [s]) = d.entries.get? (parent ++ [s]) := if_neg (by simp)

theorem entry?_eq_ok {l : Last} {e : Option Entry} :
    d.entry? l = .ok e ↔ (∃ p, l = .directory p ∧ e = some .directory) ∨
      ∃ parent s, l = .name parent s ∧ byteLength s ≤ maxName ∧ e = d.at? (parent ++ [s]) := by
  unfold entry?
  cases l with
  | directory p => simp [eq_comm]
  | name parent s =>
    dsimp only
    split_ifs with h
    · simp [Nat.not_le.2 h]
    · simp [Nat.not_lt.1 h, eq_comm]

/-- A path to a file leads to a name that the file has. -/
theorem find_eq_file : d.find path = .ok (.file n) ↔
    ∃ parent s, d.last path = .ok (.name parent s) ∧ byteLength s ≤ maxName ∧
      d.at? (parent ++ [s]) = some (.file n) ∧ namesDirectory path = false := by
  unfold find
  rw [bind_eq_ok]
  constructor
  · rintro ⟨l, hl, h⟩
    obtain ⟨e, he, h⟩ := bind_eq_ok.1 h
    rcases entry?_eq_ok.1 he with ⟨p, rfl, rfl⟩ | ⟨parent, s, rfl, hs, rfl⟩
    · cases h
    · refine ⟨parent, s, hl, hs, ?_⟩
      cases hat : d.at? (parent ++ [s]) with
      | none => rw [hat] at h; cases h
      | some e =>
        rw [hat] at h
        cases e with
        | directory => cases h
        | file m =>
          dsimp only at h
          split_ifs at h with hd
          cases h
          exact ⟨rfl, by simpa using hd⟩
  · rintro ⟨parent, s, hl, hs, hat, hd⟩
    refine ⟨_, hl, bind_eq_ok.2 ⟨_, entry?_eq_ok.2 (.inr ⟨parent, s, rfl, hs, rfl⟩), ?_⟩⟩
    rw [hat]
    simp [hd]

theorem readFile_of_find (h : d.find path = .ok (.file n)) : d.readFile path = .ok (d.read n) := by
  unfold readFile
  rw [h]
  rfl

theorem Keeps.find (h : Keeps d d') (hf : d.find path = .ok (.file n))
    (hat : ∀ p, d.at? p = some (.file n) → d'.at? p = some (.file n)) :
    d'.find path = .ok (.file n) := by
  obtain ⟨parent, s, hl, hs, hp, hd⟩ := find_eq_file.1 hf
  exact find_eq_file.2 ⟨parent, s, h.last hl, hs, hat _ hp, hd⟩

/-! ### What the operations do -/

theorem at?_set (d : Disk) {p : Place} (hp : p ≠ []) (e : Entry) (q : Place) :
    ({ d with entries := d.entries.set p e } : Disk).at? q = if p = q then some e else d.at? q := by
  unfold at?
  dsimp only
  by_cases hq : q = []
  · simp [hq, hp]
  · simp [hq, Table.get?_set]

theorem at?_erase (d : Disk) {p : Place} (hp : p ≠ []) (q : Place) :
    ({ d with entries := d.entries.erase p } : Disk).at? q = if p = q then none else d.at? q := by
  unfold at?
  dsimp only
  by_cases hq : q = []
  · simp [hq, hp]
  · simp [hq, Table.get?_erase]

/-- What is where after a name has gone from one place to another. -/
theorem at?_move (d : Disk) {p q : Place} (hp : p ≠ []) (hq : q ≠ []) (e : Entry) (r : Place) :
    ({ d with entries := (d.entries.erase p).set q e } : Disk).at? r =
      if q = r then some e else if p = r then none else d.at? r := by
  rw [at?_set { d with entries := d.entries.erase p } hq, at?_erase d hp]

theorem makeDirectory_cases (h : d.makeDirectory path = .ok d') :
    ∃ parent s, d.at? (parent ++ [s]) = none ∧
      d' = { d with entries := d.entries.set (parent ++ [s]) .directory } := by
  obtain ⟨l, -, h⟩ := bind_eq_ok.1 h
  obtain ⟨e, he, h⟩ := bind_eq_ok.1 h
  rcases entry?_eq_ok.1 he with ⟨p, rfl, rfl⟩ | ⟨parent, s, rfl, -, rfl⟩
  · cases h
  · cases hat : d.at? (parent ++ [s]) with
    | some e => rw [hat] at h; cases h
    | none =>
      rw [hat] at h
      exact ⟨parent, s, hat, (Except.ok.inj h).symm⟩

/-- A file is made where nothing is, under the next number. -/
theorem createFile_cases (h : d.createFile path = .ok (d', n)) :
    ∃ parent s, d.last path = .ok (.name parent s) ∧ byteLength s ≤ maxName ∧
      namesDirectory path = false ∧ d.at? (parent ++ [s]) = none ∧
      d' = d.addFile (parent ++ [s]) [] ∧ n = d.nextFile := by
  obtain ⟨l, hl, h⟩ := bind_eq_ok.1 h
  cases hd : namesDirectory path with
  | true => rw [hd] at h; cases h
  | false =>
    rw [hd] at h
    obtain ⟨e, he, h⟩ := bind_eq_ok.1 h
    rcases entry?_eq_ok.1 he with ⟨p, rfl, rfl⟩ | ⟨parent, s, rfl, hs, rfl⟩
    · cases h
    · cases hat : d.at? (parent ++ [s]) with
      | some e => rw [hat] at h; cases h
      | none =>
        rw [hat] at h
        obtain ⟨rfl, rfl⟩ : d.addFile (parent ++ [s]) [] = d' ∧ d.nextFile = n := by
          simpa [Last.place] using h
        exact ⟨parent, s, hl, hs, rfl, hat, rfl, rfl⟩

/-- Everything that writing a file does when it succeeds. -/
theorem writeFile_cases {bytes : List UInt8} (h : d.writeFile path bytes = .ok d') :
    ∃ parent s, d.last path = .ok (.name parent s) ∧ byteLength s ≤ maxName ∧
      namesDirectory path = false ∧
      ((∃ n, d.at? (parent ++ [s]) = some (.file n) ∧ d' = d.replace n bytes) ∨
        d.at? (parent ++ [s]) = none ∧ d' = d.addFile (parent ++ [s]) bytes) := by
  obtain ⟨l, hl, h⟩ := bind_eq_ok.1 h
  cases hd : namesDirectory path with
  | true => rw [hd] at h; cases h
  | false =>
    rw [hd] at h
    obtain ⟨e, he, h⟩ := bind_eq_ok.1 h
    rcases entry?_eq_ok.1 he with ⟨p, rfl, rfl⟩ | ⟨parent, s, rfl, hs, rfl⟩
    · cases h
    · refine ⟨parent, s, hl, hs, rfl, ?_⟩
      cases hat : d.at? (parent ++ [s]) with
      | none =>
        rw [hat] at h
        exact .inr ⟨rfl, (Except.ok.inj h).symm⟩
      | some e =>
        rw [hat] at h
        cases e with
        | directory => cases h
        | file n => exact .inl ⟨n, rfl, (Except.ok.inj h).symm⟩

/-- Whether a file can be written does not depend on its bytes. -/
theorem writeFile_error {bytes : List UInt8} {e : IoError} (h : d.writeFile path bytes = .error e)
    (bytes' : List UInt8) : d.writeFile path bytes' = .error e := by
  unfold writeFile at h ⊢
  cases hl : d.last path with
  | error e' => rw [hl] at h; exact h
  | ok l =>
    rw [hl] at h
    show (if namesDirectory path = true then _ else _) = _
    change (if namesDirectory path = true then _ else _) = _ at h
    split_ifs at h ⊢ with hd
    · exact h
    · cases hentry : d.entry? l with
      | error e' => rw [hentry] at h; exact h
      | ok there =>
        rw [hentry] at h
        rcases there with - | - | n
        · cases h
        · exact h
        · cases h

theorem removeFile_cases (h : d.removeFile path = .ok d') :
    ∃ parent s m, d.last path = .ok (.name parent s) ∧ d.at? (parent ++ [s]) = some (.file m) ∧
      d' = { d with entries := d.entries.erase (parent ++ [s]) } := by
  obtain ⟨l, hl, h⟩ := bind_eq_ok.1 h
  obtain ⟨e, he, h⟩ := bind_eq_ok.1 h
  rcases entry?_eq_ok.1 he with ⟨p, rfl, rfl⟩ | ⟨parent, s, rfl, -, rfl⟩
  · cases h
  · cases hat : d.at? (parent ++ [s]) with
    | none => rw [hat] at h; cases h
    | some e =>
      rw [hat] at h
      cases e with
      | directory => cases h
      | file m =>
        dsimp only at h
        split_ifs at h
        exact ⟨parent, s, m, hl, hat, (Except.ok.inj h).symm⟩

/-- A file is given another name, unless that is the name of a directory. -/
theorem rename_cases (h : d.rename source target = .ok d') :
    ∃ parent s parent' s' m, d.last source = .ok (.name parent s) ∧
      d.last target = .ok (.name parent' s') ∧ byteLength s' ≤ maxName ∧
      namesDirectory source = false ∧ namesDirectory target = false ∧
      d.at? (parent ++ [s]) = some (.file m) ∧ d.at? (parent' ++ [s']) ≠ some .directory ∧
      d' = { d with
        entries := (d.entries.erase (parent ++ [s])).set (parent' ++ [s']) (.file m) } := by
  obtain ⟨l, hl, h⟩ := bind_eq_ok.1 h
  obtain ⟨l', hl', h⟩ := bind_eq_ok.1 h
  cases l with
  | directory p => cases h
  | name parent s =>
    cases l' with
    | directory p => cases h
    | name parent' s' =>
      obtain ⟨e, he, h⟩ := bind_eq_ok.1 h
      obtain ⟨p, hp, -⟩ | ⟨parent₁, s₁, hname, -, rfl⟩ := entry?_eq_ok.1 he
      · cases hp
      obtain ⟨rfl, rfl⟩ : parent = parent₁ ∧ s = s₁ := by simpa using hname
      cases hat : d.at? (parent ++ [s]) with
      | none => rw [hat] at h; cases h
      | some e =>
        rw [hat] at h
        cases e with
        | directory => cases h
        | file m =>
          obtain ⟨there, he', h⟩ := bind_eq_ok.1 h
          obtain ⟨p, hp, -⟩ | ⟨parent₂, s₂, hname, hs', rfl⟩ := entry?_eq_ok.1 he'
          · cases hp
          obtain ⟨rfl, rfl⟩ : parent' = parent₂ ∧ s' = s₂ := by simpa using hname
          split_ifs at h with h1 h2
          obtain ⟨hsource, htarget⟩ := not_or.1 h1
          exact ⟨parent, s, parent', s', m, hl, hl', hs', by simpa using hsource,
            by simpa using htarget, hat, h2, (Except.ok.inj h).symm⟩

/-- The directories stay when a file is put where no directory is. -/
theorem keeps_set {p : Place} (hp : p ≠ []) (h : d.at? p ≠ some .directory) (e : Entry) :
    Keeps d { d with entries := d.entries.set p e } := by
  refine ⟨rfl, fun q hq => ?_⟩
  rw [at?_set d hp, if_neg]
  · exact hq
  · rintro rfl
    exact h hq

theorem keeps_addFile {p : Place} (hp : p ≠ []) (h : d.at? p = none) (bytes : List UInt8) :
    Keeps d (d.addFile p bytes) :=
  have := keeps_set hp (by simp [h]) (.file d.nextFile)
  ⟨this.current_eq, this.directories⟩

theorem keeps_erase {p : Place} (hp : p ≠ []) (h : d.at? p ≠ some .directory) :
    Keeps d { d with entries := d.entries.erase p } := by
  refine ⟨rfl, fun q hq => ?_⟩
  rw [at?_erase d hp, if_neg]
  · exact hq
  · rintro rfl
    exact h hq

theorem Keeps.trans {d'' : Disk} (h : Keeps d d') (h' : Keeps d' d'') : Keeps d d'' :=
  ⟨h'.current_eq.trans h.current_eq, fun p hp => h'.directories p (h.directories p hp)⟩

theorem place_ne_nil (parent : Place) (s : List Char) : parent ++ [s] ≠ [] := by simp

/-! ### The life of a file -/

/-- A file that was made has the name it was made under, and no bytes. -/
theorem createFile_spec (h : d.createFile path = .ok (d', n)) :
    d'.find path = .ok (.file n) ∧ d'.read n = [] := by
  obtain ⟨parent, s, hl, hs, hd, hat, rfl, rfl⟩ := createFile_cases h
  -- The name was free, so no directory is lost.
  have hkeeps := keeps_addFile (place_ne_nil parent s) hat []
  refine ⟨find_eq_file.2 ⟨parent, s, hkeeps.last hl, hs, ?_, hd⟩, ?_⟩
  · rw [at?_name]
    exact Table.get?_set_self _ _ _
  · simp [read, addFile]

theorem find_replace {bytes : List UInt8} {m : ℕ} (h : d.find path = .ok (.file n)) :
    (d.replace m bytes).find path = .ok (.file n) := by
  have hkeeps : Keeps d (d.replace m bytes) := ⟨rfl, fun _ hp => hp⟩
  exact hkeeps.find h fun _ hp => hp

/-- The path to which a file was written leads to a file with these bytes. -/
theorem writeFile_spec {bytes : List UInt8} (h : d.writeFile path bytes = .ok d') :
    ∃ n, d'.find path = .ok (.file n) ∧ d'.read n = bytes := by
  obtain ⟨parent, s, hl, hs, hd, ⟨n, hat, rfl⟩ | ⟨hat, rfl⟩⟩ := writeFile_cases h
  · refine ⟨n, find_replace (find_eq_file.2 ⟨parent, s, hl, hs, hat, hd⟩), ?_⟩
    simp [read, replace]
  · refine ⟨d.nextFile, find_eq_file.2 ⟨parent, s, ?_, hs, ?_, hd⟩, ?_⟩
    · exact (keeps_addFile (place_ne_nil parent s) hat bytes).last hl
    · rw [at?_name]
      exact Table.get?_set_self _ _ _
    · simp [read, addFile]

theorem find_writeAt {m offset : ℕ} {data : List UInt8} (h : d.find path = .ok (.file n)) :
    (d.writeAt m offset data).find path = .ok (.file n) := by
  unfold writeAt
  split_ifs
  · exact h
  · exact find_replace h

/-- Bytes that are written behind the last one are added at the end. -/
theorem read_writeAt (d : Disk) (n : ℕ) (data : List UInt8) :
    (d.writeAt n (d.read n).length data).read n = d.read n ++ data := by
  unfold writeAt
  split_ifs with h
  · simp [h]
  · simp [read, replace, firstBytes]

theorem read_writeAt_ne (d : Disk) {m : ℕ} (h : m ≠ n) (offset : ℕ) (data : List UInt8) :
    (d.writeAt n offset data).read m = d.read m := by
  unfold writeAt
  split_ifs
  · rfl
  · simp [read, replace, Table.get?_set_ne _ h.symm]

/-- The directories stay when a file is renamed. -/
theorem keeps_rename (h : d.rename source target = .ok d') : Keeps d d' := by
  obtain ⟨parent, s, parent', s', m, -, -, -, -, -, hat, hnew, rfl⟩ := rename_cases h
  have herase : Keeps d { d with entries := d.entries.erase (parent ++ [s]) } :=
    keeps_erase (place_ne_nil parent s) (by simp [hat])
  refine herase.trans (keeps_set (place_ne_nil parent' s') ?_ (.file m))
  rw [at?_erase d (place_ne_nil parent s)]
  split_ifs
  · simp
  · exact hnew

/-- A file that is renamed has the new name. -/
theorem find_rename (h : d.rename source target = .ok d')
    (hf : d.find source = .ok (.file n)) :
    d'.find target = .ok (.file n) ∧ d'.contents = d.contents := by
  have hkeeps := keeps_rename h
  obtain ⟨parent, s, parent', s', m, hl, hl', hs', -, hd', hat, -, rfl⟩ := rename_cases h
  -- What is moved is the file that the old path leads to.
  obtain ⟨parent₁, s₁, hl₁, -, hat₁, -⟩ := find_eq_file.1 hf
  obtain ⟨rfl, rfl⟩ : parent = parent₁ ∧ s = s₁ := by simpa [hl] using hl₁
  obtain rfl : m = n := by simpa [hat] using hat₁
  refine ⟨find_eq_file.2 ⟨parent', s', hkeeps.last hl', hs', ?_, hd'⟩, rfl⟩
  rw [at?_name]
  exact Table.get?_set_self _ _ _

end PullIngest.Disk
