import Mathlib.Algebra.Ring.Nat
import PullIngest.Proofs.Json.Rewording
import PullIngest.Proofs.Storage.Footprint
import PullIngest.Proofs.Text.Utf8
import PullIngest.Proofs.Toml.Documents
import PullIngest.Settings

/-!
# Settings that are saved are loaded again

* `Writable`: the numbers fit into a TOML document; only such settings have a text
  (`isSome_text?_iff`);
* `ofText?_text`: the text is read as the settings;
* `Disk.Refuses`: why a file cannot be put somewhere (`save_cases`);
* `saved_and_loaded`: what becomes of the file when settings are saved and loaded.
-/

namespace PullIngest

/-- Make the directories above a path. -/
def Disk.makeAbove (d : Disk) (path : List Char) : Disk × Except IoError Unit :=
  match Path.parent? path with
  | some parent => d.makeDirectories parent
  | none => (d, .ok ())

/-- No file can be put at a path: a directory above it cannot be made, or the path itself does not
take a file, whatever the bytes are. -/
def Disk.Refuses (d : Disk) (path : List Char) (e : IoError) : Prop :=
  (d.makeAbove path).2 = .error e ∨
    (d.makeAbove path).2 = .ok () ∧ ∀ bytes, (d.makeAbove path).1.writeFile path bytes = .error e

namespace Settings

open Toml

variable {s : Settings} {d d' : Disk} {path text : List Char}

/-- Settings that something can be transferred with. -/
structure Usable (s : Settings) : Prop where
  chunkSize_pos : 1 ≤ s.chunkSize.toNat
  idleSeconds_pos : 1 ≤ s.idleSeconds.toNat

/-- The numbers of 64 bits fit into the 63 bits that a document has for them. -/
structure Writable (s : Settings) : Prop where
  chunkSize_le : s.chunkSize.toNat ≤ 2 ^ 63 - 1
  idleSeconds_le : s.idleSeconds.toNat ≤ 2 ^ 63 - 1
  graceSeconds_le : s.graceSeconds.toNat ≤ 2 ^ 63 - 1

/-! ### The text -/

theorem isInteger64_natCast {n : ℕ} : isInteger64 n = true ↔ n ≤ 2 ^ 63 - 1 := by
  simp only [isInteger64, Bool.and_eq_true, decide_eq_true_eq]
  omega

theorem isSome_line?_natural (k : Key) (n : ℕ) :
    (line? (k, .integer n)).isSome = true ↔ n ≤ 2 ^ 63 - 1 := by
  rw [line?, Option.isSome_map, Scalar.text?, ← isInteger64_natCast]
  split_ifs with h <;> simp [h]

/-- Settings have a text if every line has one. -/
theorem isSome_text?_iff : s.text?.isSome = true ↔ s.Writable := by
  have hall : ∀ es : List (Key × Scalar),
      (es.mapM line?).isSome = true ↔ ∀ e ∈ es, (line? e).isSome = true := by
    intro es
    induction es with
    | nil => simp
    | cons e es ih =>
      rw [List.mapM_cons, List.forall_mem_cons, ← ih]
      cases line? e <;> cases es.mapM line? <;> simp
  rw [text?, Option.isSome_map, hall]
  have hsmall : s.maxViolations.toNat ≤ 2 ^ 63 - 1 :=
    Nat.le_trans (Nat.le_of_lt s.maxViolations.toNat_lt) (by decide)
  simp only [entries, List.forall_mem_cons, isSome_line?_natural]
  constructor
  · rintro ⟨hchunk, hidle, hgrace, -⟩
    exact ⟨hchunk, hidle, hgrace⟩
  · rintro ⟨hchunk, hidle, hgrace⟩
    exact ⟨hchunk, hidle, hgrace, hsmall, rfl, rfl, nofun⟩

theorem lines_of_forall₂ {es : List (Key × Scalar)} {ls : List (List Char)}
    (h : List.Forall₂ (fun e l => line? e = some l) es ls)
    (hes : ∀ e ∈ es, Bare e.1 ∧ Flat e.2) : Lines es ls.flatten := by
  induction h with
  | nil => exact .nil
  | @cons e l es ls hl _ ih =>
    obtain ⟨k, v⟩ := e
    obtain ⟨hk, hv⟩ := hes (k, v) (by simp)
    obtain ⟨text, ht, rfl⟩ := Option.map_eq_some_iff.1 hl
    have hlines := Lines.cons hk hv ht (ih fun e he => hes e (by simp [he]))
    simpa using hlines

theorem lines_text (h : s.text? = some text) : Lines s.entries text := by
  obtain ⟨ls, hls, rfl⟩ := Option.map_eq_some_iff.1 h
  refine lines_of_forall₂ (Json.mapM_eq_some_iff.1 hls) ?_
  simp only [entries, List.forall_mem_cons]
  exact ⟨⟨by decide, .natural _⟩, ⟨by decide, .natural _⟩, ⟨by decide, .natural _⟩,
    ⟨by decide, .natural _⟩, ⟨by decide, .string _⟩, ⟨by decide, .boolean _⟩, nofun⟩

theorem readNat_of_get? {t : Entries} {k : Key} {n limit : ℕ} (default : ℕ) (hn : n < limit)
    (h : t.get? k = some (.scalar (.integer n))) : readNat t k limit default = some n := by
  rw [readNat, h]
  simp [hn]

theorem nodup_keys (s : Settings) : (s.entries.map Prod.fst).Nodup := by
  show [chunkSizeKey, idleSecondsKey, graceSecondsKey, maxViolationsKey, outputDirKey,
    onlyKnownKey].Nodup
  decide

/-- The text of settings is read as the settings. -/
theorem ofText?_text (h : s.text? = some text) : ofText? text = some s := by
  obtain ⟨t, hparse, hget⟩ := parse?_lines (lines_text h) s.nodup_keys
  simp only [entries, List.forall_mem_cons] at hget
  obtain ⟨hchunk, hidle, hgrace, hmax, hdir, hknown, -⟩ := hget
  have hstring : readString t outputDirKey ({} : Settings).outputDir = some s.outputDir := by
    rw [readString, hdir]
    simp
  have hbool : readBool t onlyKnownKey ({} : Settings).onlyKnown = some s.onlyKnown := by
    rw [readBool, hknown]
  rw [ofText?, hparse, Option.bind_some, ofEntries?]
  simp only [readNat_of_get? _ s.chunkSize.toNat_lt hchunk,
    readNat_of_get? _ s.idleSeconds.toNat_lt hidle, readNat_of_get? _ s.graceSeconds.toNat_lt hgrace,
    readNat_of_get? _ s.maxViolations.toNat_lt hmax, hstring, hbool]
  simp

/-! ### The file -/

theorem save_eq (s : Settings) (d : Disk) (path : List Char) : s.save d path =
    match (d.makeAbove path).2, s.text? with
    | .error e, _ => (.error (.io e), (d.makeAbove path).1)
    | .ok (), none => (.error .unwritable, (d.makeAbove path).1)
    | .ok (), some text =>
      match (d.makeAbove path).1.writeFile path (Utf8.encode (String.ofList text)) with
      | .ok d' => (.ok (), d')
      | .error e => (.error (.io e), (d.makeAbove path).1) := by
  unfold save Disk.makeAbove
  cases Path.parent? path with
  | none => cases s.text? <;> rfl
  | some parent =>
    rcases hmake : d.makeDirectories parent with ⟨d₁, e | u⟩
    · simp [hmake]
    · cases s.text? with
      | none => simp [hmake]
      | some text =>
        cases hwrite : d₁.writeFile path (Utf8.encode (String.ofList text)) with
        | error e => simp [hmake, hwrite]
        | ok d' => simp [hmake, hwrite]

/-- Everything that saving can do. -/
theorem save_cases (s : Settings) (d : Disk) (path : List Char) :
    (∃ e, d.Refuses path e ∧ s.save d path = (.error (.io e), (d.makeAbove path).1)) ∨
      (s.text? = none ∧ s.save d path = (.error .unwritable, (d.makeAbove path).1)) ∨
      ∃ text d', s.text? = some text ∧
        (d.makeAbove path).1.writeFile path (Utf8.encode (String.ofList text)) = .ok d' ∧
        s.save d path = (.ok (), d') := by
  rw [save_eq]
  cases hmade : (d.makeAbove path).2 with
  | error e => exact .inl ⟨e, .inl hmade, rfl⟩
  | ok u =>
    cases htext : s.text? with
    | none => exact .inr (.inl ⟨rfl, rfl⟩)
    | some text =>
      dsimp only
      cases hwrite : (d.makeAbove path).1.writeFile path (Utf8.encode (String.ofList text)) with
      | error e => exact .inl ⟨e, .inr ⟨hmade, Disk.writeFile_error hwrite⟩, rfl⟩
      | ok d' => exact .inr (.inr ⟨text, d', rfl, hwrite, rfl⟩)

/-- A file with the text of settings is read as the settings. -/
theorem readFile_of_text (htext : s.text? = some text) {n : ℕ} (hf : d.find path = .ok (.file n))
    (hbytes : d.read n = Utf8.encode (String.ofList text)) : readFile d path = .ok s := by
  rw [readFile, Disk.readFile_of_find hf, hbytes]
  dsimp only
  rw [Utf8.decode?_encode]
  dsimp only
  rw [String.toList_ofList, ofText?_text htext]

theorem check_of_usable (h : s.Usable) : s.check = .ok s := by
  have hchunk : s.chunkSize ≠ 0 := by
    rintro h0
    have := h.chunkSize_pos
    simp [h0] at this
  have hidle : s.idleSeconds ≠ 0 := by
    rintro h0
    have := h.idleSeconds_pos
    simp [h0] at this
  rw [check, if_neg hchunk, if_neg hidle]

/-- Settings that were saved are there. -/
theorem load_of_save (hs : s.Usable) (h : s.save d path = (.ok (), d')) :
    (∃ n, d'.find path = .ok (.file n)) ∧ load d' path = (.ok s, d') := by
  rcases save_cases s d path with ⟨e, -, he⟩ | ⟨-, he⟩ | ⟨text, d₁, htext, hwrite, he⟩
  · rw [he] at h; cases h
  · rw [he] at h; cases h
  · rw [he] at h
    cases h
    obtain ⟨n, hf, hbytes⟩ := Disk.writeFile_spec hwrite
    have hexists : d'.pathExists path = true := by rw [Disk.pathExists, hf]
    refine ⟨⟨n, hf⟩, ?_⟩
    rw [load, if_pos hexists, readFile_of_text htext hf hbytes]
    exact congrArg (·, d') (check_of_usable hs)

/-- Making directories leaves files alone. -/
theorem makeAbove_file {n : ℕ} (hf : d.find path = .ok (.file n)) (target : List Char) :
    (d.makeAbove target).1.find path = .ok (.file n) ∧ (d.makeAbove target).1.read n = d.read n := by
  unfold Disk.makeAbove Disk.makeDirectories
  cases Path.parent? target with
  | none => exact ⟨hf, rfl⟩
  | some parent =>
    refine ⟨(Disk.touches_makeDirectoriesAt d _).find hf fun _ _ => id, ?_⟩
    unfold Disk.read
    rw [Disk.contents_makeDirectoriesAt]

theorem usable_default : ({} : Settings).Usable := ⟨by decide, by decide⟩

theorem writable_default : ({} : Settings).Writable := ⟨by decide, by decide, by decide⟩

/-- Settings whose numbers fit are saved if the disk takes the file. -/
theorem save_of_writable (hs : s.Writable) (d : Disk) (path : List Char) :
    (∃ e, d.Refuses path e ∧ s.save d path = (.error (.io e), (d.makeAbove path).1)) ∨
      ∃ d', s.save d path = (.ok (), d') := by
  rcases save_cases s d path with he | ⟨hnone, -⟩ | ⟨-, d', -, -, he⟩
  · exact .inl he
  · have hsome := isSome_text?_iff.2 hs
    rw [hnone] at hsome
    cases hsome
  · exact .inr ⟨d', he⟩

/-- Where no file is, the default settings are saved and used. -/
theorem load_of_missing (hmissing : d.pathExists path = false) : load d path =
    match ({} : Settings).save d path with
    | (.ok (), d) => (({} : Settings).check, d)
    | (.error e, d) => (.error e, d) := by
  rw [load, hmissing]
  rfl

/-- Settings that can be used and written are saved and loaded again, as often as one likes; what
cannot be written leaves the file that is there; and where no file is, one with the settings that
are returned is made. Only the disk can prevent it. -/
theorem saved_and_loaded (s : Settings) (d : Disk) (path : List Char) :
    (s.Usable → s.Writable →
      (∃ e, d.Refuses path e ∧ (s.save d path).1 = .error (.io e)) ∨
      ∃ d', s.save d path = (.ok (), d') ∧ load d' path = (.ok s, d') ∧
        load (load d' path).2 path = (.ok s, d')) ∧
    (¬s.Writable →
      (∃ e, (s.save d path).1 = .error e) ∧
      ∀ n, d.find path = .ok (.file n) →
        (s.save d path).2.find path = .ok (.file n) ∧ (s.save d path).2.read n = d.read n) ∧
    (d.pathExists path = false →
      (∃ e, d.Refuses path e ∧ (load d path).1 = .error (.io e)) ∨
      ∃ d' n, load d path = (.ok {}, d') ∧ d'.find path = .ok (.file n) ∧
        load d' path = (.ok {}, d')) := by
  refine ⟨fun hu hw => ?_, fun hw => ?_, fun hmissing => ?_⟩
  · rcases save_of_writable hw d path with ⟨e, he, hsave⟩ | ⟨d', hsave⟩
    · exact .inl ⟨e, he, by rw [hsave]⟩
    · obtain ⟨-, hload⟩ := load_of_save hu hsave
      exact .inr ⟨d', hsave, hload, by rw [hload]; exact hload⟩
  · have hnone : s.text? = none := by
      rw [← Option.not_isSome_iff_eq_none, isSome_text?_iff]
      exact hw
    rcases save_cases s d path with ⟨e, -, he⟩ | ⟨-, he⟩ | ⟨text, -, htext, -⟩
    · rw [he]
      exact ⟨⟨_, rfl⟩, fun n hf => makeAbove_file hf path⟩
    · rw [he]
      exact ⟨⟨_, rfl⟩, fun n hf => makeAbove_file hf path⟩
    · rw [hnone] at htext
      cases htext
  · rw [load_of_missing hmissing]
    rcases save_of_writable writable_default d path with ⟨e, he, hsave⟩ | ⟨d', hsave⟩
    · exact .inl ⟨e, he, by rw [hsave]⟩
    · obtain ⟨⟨n, hf⟩, hagain⟩ := load_of_save usable_default hsave
      refine .inr ⟨d', n, ?_, hf, hagain⟩
      rw [hsave]
      exact congrArg (·, d') (check_of_usable usable_default)

namespace Awkward

/-- Settings with a directory whose name needs nearly every kind of escape. -/
def settings : Settings where
  chunkSize := 1
  idleSeconds := 9223372036854775807
  outputDir := "\"\"\"'''\\\n\x07é"
  onlyKnown := true

/-- Settings that cannot be written. -/
def endless : Settings := { graceSeconds := 9223372036854775808 }

/-- Where the settings are kept. -/
def place : List Char := "c.toml".toList

/-- A disk on which something is there already. -/
def occupied : Disk := Disk.addFile {} [place] [7]

theorem not_refuses_place (e : IoError) : ¬Disk.Refuses {} place e := by
  have hmade : (Disk.makeAbove {} place).2 = .ok () := by decide
  have hwrite : (Disk.writeFile (Disk.makeAbove {} place).1 place []).isOk = true := by decide
  rintro (h | ⟨-, h⟩)
  · rw [hmade] at h; cases h
  · rw [h []] at hwrite; cases hwrite

theorem awkward_loaded :
    (settings.Usable ∧ settings.Writable ∧
      ∃ d', settings.save {} place = (.ok (), d') ∧ load d' place = (.ok settings, d') ∧
        load (load d' place).2 place = (.ok settings, d')) ∧
    (¬endless.Writable ∧ occupied.find place = .ok (.file 0) ∧
      (∃ e, (endless.save occupied place).1 = .error e) ∧
      (endless.save occupied place).2.find place = .ok (.file 0) ∧
      (endless.save occupied place).2.read 0 = [7]) ∧
    (Disk.pathExists {} place = false ∧
      ∃ d' n, load {} place = (.ok {}, d') ∧ d'.find place = .ok (.file n) ∧
        load d' place = (.ok {}, d')) := by
  have husable : settings.Usable := ⟨by decide, by decide⟩
  have hwritable : settings.Writable := ⟨by decide, by decide, by decide⟩
  have hendless : ¬endless.Writable := fun h => absurd h.graceSeconds_le (by decide)
  have hfind : occupied.find place = .ok (.file 0) := by decide
  have hmissing : Disk.pathExists {} place = false := by decide
  obtain ⟨hsaved, -, -⟩ := saved_and_loaded settings {} place
  obtain ⟨-, hkept, -⟩ := saved_and_loaded endless occupied place
  obtain ⟨-, -, hmade⟩ := saved_and_loaded settings {} place
  refine ⟨⟨husable, hwritable, ?_⟩, ⟨hendless, hfind, (hkept hendless).1, ?_⟩, hmissing, ?_⟩
  · rcases hsaved husable hwritable with ⟨e, he, -⟩ | h
    · exact absurd he (not_refuses_place e)
    · exact h
  · obtain ⟨hstays, hbytes⟩ := (hkept hendless).2 0 hfind
    exact ⟨hstays, hbytes.trans rfl⟩
  · rcases hmade hmissing with ⟨e, he, -⟩ | h
    · exact absurd he (not_refuses_place e)
    · exact h

end Awkward

end Settings

end PullIngest
