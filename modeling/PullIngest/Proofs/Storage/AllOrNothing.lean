import Mathlib.Data.List.TakeDrop
import PullIngest.Proofs.Storage.Footprint
import PullIngest.Proofs.Storage.Lookup

/-!
# All or nothing

A sink in a directory is offered chunks at any offsets and then gets its verdict, fails, or is
dropped. Until then the destination stays as it is. A good verdict puts exactly the bytes of the
chunks that came in order there, and everything else leaves the destination alone; the partial file
is gone in any case.

* `offers`, `taken`: the calls, and the bytes of those that come in order;
* `Fresh`, `fresh_create`: a sink that has just been created;
* `Wrote`, `Wrote.accept`, `wrote_offers`: what a sink has done so far, call after call;
* `Stored`, `Unstored`, `all_or_nothing`: how it ends.
-/

namespace PullIngest

/-! ### Signatures -/

namespace Format

theorem length_le_of_mem_signatures {f : Format} {s : List UInt8} (h : s ∈ f.signatures) :
    s.length ≤ signatureLength := by
  cases f <;> simp only [signatures, List.mem_cons, List.not_mem_nil, or_false] at h
  · subst h; decide
  · rcases h with rfl | rfl <;> decide
  · subst h; decide
  · subst h; decide

/-- The first bytes of a file tell its format. -/
theorem detect?_take (bytes : List UInt8) :
    detect? (bytes.take signatureLength) = detect? bytes := by
  have hany (f : Format) : (f.signatures.any fun s => s.isPrefixOf (bytes.take signatureLength)) =
      f.signatures.any fun s => s.isPrefixOf bytes := by
    rw [Bool.eq_iff_iff, List.any_eq_true, List.any_eq_true]
    refine exists_congr fun s => and_congr_right fun hs => ?_
    rw [List.isPrefixOf_iff_prefix, List.isPrefixOf_iff_prefix, List.prefix_take_iff]
    exact and_iff_left (length_le_of_mem_signatures hs)
  unfold detect?
  simp only [hany]

end Format

namespace FileSink

open Disk

/-- Offer chunks one after another, whatever is answered. -/
def offers (f : FileSink) (d : Disk) : List (UInt64 × List UInt8) → FileSink × Disk
  | [] => (f, d)
  | (offset, data) :: calls =>
    match f.accept d offset data with
    | .ok (f, d) => f.offers d calls
    | .error _ => f.offers d calls

/-- The bytes of the chunks that come in order, behind those that are there. -/
def taken (bytes : List UInt8) : List (UInt64 × List UInt8) → List UInt8
  | [] => bytes
  | (offset, data) :: calls =>
    taken (if offset.toNat = bytes.length then bytes ++ data else bytes) calls

theorem length_le_taken (bytes : List UInt8) (calls : List (UInt64 × List UInt8)) :
    bytes.length ≤ (taken bytes calls).length := by
  induction calls generalizing bytes with
  | nil => exact Nat.le_refl _
  | cons call calls ih =>
    refine Nat.le_trans ?_ (ih _)
    split_ifs
    · simp
    · exact Nat.le_refl _

variable {base : List Char} {session name : String} {size : UInt64} {onlyKnown : Bool}
  {d d₁ d' : Disk} {f₀ f f' : FileSink} {s : Storage} {n : ℕ} {bytes data : List UInt8}

/-! ### Creation -/

/-- A sink that has just been created, with the number of its file. -/
structure Fresh (f₀ : FileSink) (d₁ : Disk) (n : ℕ) : Prop where
  file : f₀.file = some n
  head : f₀.head = []
  written : f₀.written = 0
  find : d₁.find f₀.partPath = .ok (.file n)
  empty : d₁.read n = []
  /-- The file has no other name. -/
  alone : ∀ p, d₁.at? p = some (.file n) → p ∈ d₁.leadsTo f₀.partPath
  /-- The destination is not the partial file. -/
  apart : Path.fileName? f₀.finalPath ≠ Path.fileName? f₀.partPath

/-- A valid name ends in an ordinary step. -/
theorem fileName?_of_valid (hv : Name.validate name = .ok ()) :
    ∃ s, Path.fileName? name.toList = some s := by
  unfold Name.validate at hv
  cases hfault : Name.fault? name.toList with
  | some cause => rw [hfault] at hv; cases hv
  | none =>
    unfold Name.fault? at hfault
    split_ifs at hfault with h1 h2 h3 h4 h5 h6
    obtain ⟨c, hc, hnormal⟩ := List.any_eq_true.1 h6
    have hnil : (Path.segments name.toList).filterMap Path.step? ≠ [] := by
      intro hnil
      unfold Path.components at hc
      rw [hnil, List.append_nil] at hc
      cases c with
      | normal s => exact Path.normal_not_mem_start _ _ hc
      | _ => cases hnormal
    obtain ⟨c', hlast⟩ := Option.ne_none_iff_exists'.1 (mt List.getLast?_eq_none_iff.1 hnil)
    have hmem := List.mem_of_getLast? hlast
    obtain ⟨t, -, ht⟩ := List.mem_filterMap.1 hmem
    unfold Path.step? at ht
    split_ifs at ht
    · cases ht
      exact absurd (List.mem_append_right _ hmem) h5
    · cases ht
      exact ⟨t, Path.fileName?_eq_some.2 hlast⟩

/-- The name of a partial file ends in an ordinary step. -/
theorem fileName?_partName (session : String) :
    ∃ s, Path.fileName? (partName session) = some s := by
  have hslash : '/' ∉ ".part".toList := by decide
  obtain ⟨before, s, hseg⟩ := Path.segments_append_of_no_slash ('.' :: session.toList) hslash
  refine ⟨_, Path.fileName?_of_segments hseg ?_ ?_ ?_⟩ <;> intro he <;>
    have hlen := congrArg List.length he <;>
    simp [Path.dot, Path.dotDot] at hlen

/-- A session without slashes names its partial file by a single step. -/
theorem fileName?_partName_of_no_slash (h : '/' ∉ session.toList) :
    Path.fileName? (partName session) = some (partName session) := by
  obtain ⟨hslash, hne, hdot, hdots⟩ := partName_plain h
  have hseg : Path.segments (partName session) = [] ++ [partName session] :=
    Path.segments_of_no_slash hslash
  exact Path.fileName?_of_segments hseg hne hdot hdots

theorem fresh_create (hd : d.Numbered)
    (hn : Path.fileName? name.toList ≠ Path.fileName? (partName session))
    (hc : create base session name size onlyKnown d = (.ok f₀, d₁)) : ∃ n, Fresh f₀ d₁ n := by
  have hv : Name.validate name = .ok () := by
    unfold create at hc
    cases hv : Name.validate name with
    | ok _ => rfl
    | error e => rw [hv] at hc; cases hc
  obtain ⟨directory, d₂, n, hmade, hfile, rfl⟩ := Sink.create_cases hc
  obtain ⟨hfind, hread⟩ := createFile_spec hfile
  refine ⟨n, rfl, rfl, rfl, hfind, hread, fun p hp => ?_, ?_⟩
  · -- The number was not in use before.
    have hnumbered : d₂.Numbered := by
      have := (touches_makeDirectoriesAt d (Path.components directory).reverse).numbered hd
      change (d.makeDirectories directory).1.Numbered at this
      rwa [hmade] at this
    obtain ⟨parent, t, hl, -, -, -, rfl, rfl⟩ := createFile_cases hfile
    change ({ d₂ with entries := d₂.entries.set (parent ++ [t]) (.file d₂.nextFile) } : Disk).at? p
      = _ at hp
    rw [at?_set d₂ (place_ne_nil parent t)] at hp
    split_ifs at hp with he
    · exact ⟨_, (touches_createFile hfile).keeps.last hl, he⟩
    · exact absurd (hnumbered _ _ hp) (Nat.lt_irrefl _)
  · obtain ⟨t, ht⟩ := fileName?_of_valid hv
    obtain ⟨u, hu⟩ := fileName?_partName session
    rw [ht, hu] at hn
    show Path.fileName? (Path.join base name.toList) ≠
      Path.fileName? (Path.join directory (partName session))
    rwa [Path.fileName?_join base ht, Path.fileName?_join directory hu]

/-! ### Writing -/

/-- A sink has taken bytes into its file, and nothing else has changed. -/
structure Wrote (f₀ : FileSink) (d₁ : Disk) (n : ℕ) (bytes : List UInt8) (f : FileSink)
    (d : Disk) : Prop where
  sink : f = { f₀ with head := bytes.take Format.signatureLength
                       written := .ofNat bytes.length }
  disk : d = { d₁ with contents := d.contents }
  own : d.read n = bytes
  others : ∀ m, m ≠ n → d.read m = d₁.read m

theorem Fresh.wrote (h : Fresh f₀ d₁ n) : Wrote f₀ d₁ n [] f₀ d₁ := by
  refine ⟨?_, rfl, h.empty, fun _ _ => rfl⟩
  obtain ⟨part, final, size, written, head, onlyKnown, file, claim⟩ := f₀
  obtain rfl : head = [] := h.head
  obtain rfl : written = 0 := h.written
  rfl

/-- A chunk at another offset than the next one is refused, and the next one is taken. -/
theorem Wrote.accept (h : Wrote f₀ d₁ n bytes f d) (hn : f₀.file = some n)
    (hl : bytes.length < UInt64.size) (offset : UInt64) (data : List UInt8) :
    (offset.toNat ≠ bytes.length → f.accept d offset data =
      .error (.violation (.outOfOrder offset (.ofNat bytes.length)))) ∧
    (offset.toNat = bytes.length → ∃ f' d', f.accept d offset data = .ok (f', d') ∧
      Wrote f₀ d₁ n (bytes ++ data) f' d') := by
  have hoffset : offset = .ofNat bytes.length ↔ offset.toNat = bytes.length := by
    rw [← UInt64.toNat_inj, UInt64.toNat_ofNat_of_lt' hl]
  obtain ⟨rfl, hdisk, hown, hothers⟩ := h
  unfold FileSink.accept
  refine ⟨fun ho => if_pos (mt hoffset.1 ho), fun ho => ?_⟩
  rw [if_neg (not_not.2 (hoffset.2 ho))]
  dsimp only
  rw [hn]
  refine ⟨_, _, rfl, ?_, ?_, ?_, fun m hm => ?_⟩
  · have hhead : bytes.take Format.signatureLength ++
        data.take (Format.signatureLength - (bytes.take Format.signatureLength).length) =
          (bytes ++ data).take Format.signatureLength := by
      rw [List.take_append, List.length_take]
      congr 2
      omega
    rw [hhead, List.length_append, UInt64.ofNat_add, hn]
  · rw [hdisk]
    unfold writeAt
    split_ifs <;> rfl
  · rw [ho, ← hown, read_writeAt]
  · exact (read_writeAt_ne d hm offset.toNat data).trans (hothers m hm)

theorem wrote_offers (hn : f₀.file = some n) (calls : List (UInt64 × List UInt8))
    (h : Wrote f₀ d₁ n bytes f d) (hl : (taken bytes calls).length < UInt64.size) :
    Wrote f₀ d₁ n (taken bytes calls) (f.offers d calls).1 (f.offers d calls).2 := by
  induction calls generalizing bytes f d with
  | nil => exact h
  | cons call calls ih =>
    obtain ⟨offset, data⟩ := call
    have hlen : bytes.length < UInt64.size := Nat.lt_of_le_of_lt (length_le_taken bytes _) hl
    obtain ⟨hrefused, htaken⟩ := h.accept hn hlen offset data
    rw [taken] at hl ⊢
    rw [offers]
    by_cases ho : offset.toNat = bytes.length
    · obtain ⟨f', d', ha, hw⟩ := htaken ho
      rw [if_pos ho] at hl ⊢
      rw [ha]
      exact ih hw hl
    · rw [if_neg ho] at hl ⊢
      rw [hrefused ho]
      exact ih h hl

/-! ### The end -/

/-- The bytes are at the destination, and the partial file is gone. -/
structure Stored (d₁ d : Disk) (f : FileSink) (bytes : List UInt8) : Prop where
  gone : d.find f.partPath = .error .notFound
  destination : d.stands? f.finalPath = some (some bytes)
  others : ∀ p, p ∉ d₁.leadsTo f.partPath → p ∉ d₁.leadsTo f.finalPath →
    d.bytesAt? p = d₁.bytesAt? p

/-- The destination is as it was, and the partial file is gone. -/
structure Unstored (d₁ d : Disk) (f : FileSink) : Prop where
  gone : d.find f.partPath = .error .notFound
  destination : d.stands? f.finalPath = d₁.stands? f.finalPath
  others : ∀ p, p ∉ d₁.leadsTo f.partPath → d.bytesAt? p = d₁.bytesAt? p

/-- The file system lets the partial file have the name of the destination. -/
def Nameable (f : FileSink) (d : Disk) : Prop := ∃ e, d.rename f.partPath f.finalPath = .ok e

theorem Wrote.keeps (h : Wrote f₀ d₁ n bytes f d) : Keeps d₁ d ∧ Keeps d d₁ := by
  rw [h.disk]
  exact keeps_contents d₁ d.contents

theorem Wrote.at? (h : Wrote f₀ d₁ n bytes f d) (p : Place) : d.at? p = d₁.at? p := by
  rw [h.disk]
  rfl

theorem Wrote.find (h : Wrote f₀ d₁ n bytes f d) (hf : Fresh f₀ d₁ n) :
    d.find f₀.partPath = .ok (.file n) :=
  h.keeps.1.find hf.find fun p hp => (h.at? p).trans hp

/-- The bytes of a file that is not the partial file are those from before. -/
theorem Wrote.read (h : Wrote f₀ d₁ n bytes f d) (hf : Fresh f₀ d₁ n) {p : Place} {m : ℕ}
    (hp : p ∉ d₁.leadsTo f₀.partPath) (hat : d₁.at? p = some (.file m)) : d.read m = d₁.read m := by
  refine h.others m ?_
  rintro rfl
  exact hp (hf.alone p hat)

theorem Wrote.bytesAt? (h : Wrote f₀ d₁ n bytes f d) (hf : Fresh f₀ d₁ n) {p : Place}
    (hp : p ∉ d₁.leadsTo f₀.partPath) : d.bytesAt? p = d₁.bytesAt? p := by
  unfold Disk.bytesAt?
  rw [h.at?]
  split
  · next m hm => rw [h.read hf hp hm]
  · rfl

/-- The name at the end of the destination is not that of the partial file. -/
theorem Fresh.place_ne (hf : Fresh f₀ d₁ n) {parent parent' : Place} {t t' : List Char}
    (hl : d₁.last f₀.partPath = .ok (.name parent t))
    (hl' : d₁.last f₀.finalPath = .ok (.name parent' t')) : parent ++ [t] ≠ parent' ++ [t'] := by
  intro he
  obtain ⟨-, ht⟩ := List.append_inj' he rfl
  apply hf.apart
  rw [fileName?_of_last hl, fileName?_of_last hl', List.singleton_inj.1 ht]

theorem Fresh.not_leadsTo (hf : Fresh f₀ d₁ n) {parent' : Place} {t' : List Char}
    (hl' : d₁.last f₀.finalPath = .ok (.name parent' t')) :
    parent' ++ [t'] ∉ d₁.leadsTo f₀.partPath := by
  rintro ⟨l, hl, he⟩
  obtain ⟨parent, t, hl₁, -⟩ := find_eq_file.1 hf.find
  obtain rfl := Except.ok.inj (hl₁.symm.trans hl)
  exact hf.place_ne hl₁ hl' he

/-- Until the verdict the destination stays as it is. -/
theorem Wrote.stands? (h : Wrote f₀ d₁ n bytes f d) (hf : Fresh f₀ d₁ n) :
    d.stands? f₀.finalPath = d₁.stands? f₀.finalPath :=
  stands?_congr h.keeps.1 h.keeps.2 fun _ _ hl' =>
    ⟨h.at? _, fun _ hm => h.read hf (hf.not_leadsTo hl') hm⟩

/-- The partial file goes, and nothing else. -/
theorem unstored_discard (h : Wrote f₀ d₁ n bytes f d) (hf : Fresh f₀ d₁ n) :
    Unstored d₁ (f.discard d).1 f₀ := by
  have hpart : f.partPath = f₀.partPath := by rw [h.sink]
  obtain ⟨parent, t, hl, ht, hat, -⟩ := find_eq_file.1 (h.find hf)
  obtain ⟨parent₁, t₁, hl₁, hr⟩ := removeFile_of_find (h.find hf)
  obtain ⟨rfl, rfl⟩ : parent = parent₁ ∧ t = t₁ := by simpa using hl.symm.trans hl₁
  have hne := place_ne_nil parent t
  have hdisk : (f.discard d).1 = { d with entries := d.entries.erase (parent ++ [t]) } := by
    unfold discard
    rw [hpart, hr]
  have hat? := at?_erase d hne
  have hkeeps := keeps_erase hne (show d.at? _ ≠ some .directory by simp [hat])
  have hkeeps' : Keeps { d with entries := d.entries.erase (parent ++ [t]) } d := by
    refine ⟨rfl, fun p hp => ?_⟩
    rw [hat?] at hp
    split_ifs at hp
    exact hp
  rw [hdisk]
  refine ⟨find_of_free (hkeeps.last hl) ht (by rw [hat?, if_pos rfl]), ?_, fun p hp => ?_⟩
  · rw [← h.stands? hf]
    refine stands?_congr hkeeps hkeeps' fun parent' t' hl' => ⟨?_, fun _ _ => rfl⟩
    rw [hat?, if_neg (hf.place_ne (h.keeps.2.last hl) (h.keeps.2.last hl'))]
  · have hne' : parent ++ [t] ≠ p := fun he => hp ⟨_, h.keeps.2.last hl, he⟩
    rw [← h.bytesAt? hf hp]
    unfold Disk.bytesAt?
    rw [hat?, if_neg hne']
    rfl

/-- The partial file becomes the destination. -/
theorem stored_rename (h : Wrote f₀ d₁ n bytes f d) (hf : Fresh f₀ d₁ n)
    (hr : d.rename f₀.partPath f₀.finalPath = .ok d') : Stored d₁ d' f₀ bytes := by
  have hfind := h.find hf
  obtain ⟨hfinal, hcontents⟩ := find_rename hr hfind
  have hkeeps := keeps_rename hr
  obtain ⟨parent, t, parent', t', m, hl, hl', -, -, -, hat, -, rfl⟩ := rename_cases hr
  obtain ⟨parent₁, t₁, hl₁, ht₁, hat₁, -⟩ := find_eq_file.1 hfind
  obtain ⟨rfl, rfl⟩ : parent = parent₁ ∧ t = t₁ := by simpa using hl.symm.trans hl₁
  have hl₀ := h.keeps.2.last hl
  have hl₀' := h.keeps.2.last hl'
  have hplaces := hf.place_ne hl₀ hl₀'
  have hat? := at?_move d (place_ne_nil parent t) (place_ne_nil parent' t') (.file m)
  refine ⟨find_of_free (hkeeps.last hl) ht₁ ?_, ?_, fun p hp hp' => ?_⟩
  · rw [hat?, if_neg hplaces.symm, if_pos rfl]
  · unfold Disk.stands?
    rw [hfinal]
    exact congrArg (fun bytes => some (some bytes)) h.own
  · have hne : parent ++ [t] ≠ p := fun he => hp ⟨_, hl₀, he⟩
    have hne' : parent' ++ [t'] ≠ p := fun he => hp' ⟨_, hl₀', he⟩
    rw [← h.bytesAt? hf hp]
    unfold Disk.bytesAt?
    rw [hat?, if_neg hne', if_neg hne]
    rfl

/-- The partial file can be given the name of the destination after writing if and only if it could
be given that name before. -/
theorem Wrote.nameable (h : Wrote f₀ d₁ n bytes f d) (hf : Fresh f₀ d₁ n) :
    f₀.Nameable d ↔ f₀.Nameable d₁ := by
  constructor
  · rintro ⟨e, he⟩
    have hd₁ : d₁ = { d with contents := d₁.contents } := by rw [h.disk]
    rw [Nameable, hd₁]
    exact ⟨_, rename_contents (h.find hf) he⟩
  · rintro ⟨e, he⟩
    rw [Nameable, h.disk]
    exact ⟨_, rename_contents hf.find he⟩

/-- The partial file is complete, of a known format if that matters, and gets its name. -/
theorem Wrote.complete (h : Wrote f₀ d₁ n bytes f d) (hf : Fresh f₀ d₁ n)
    (hl : bytes.length < UInt64.size) :
    (∃ e, f.complete d = .ok e) ↔ bytes.length = f₀.size.toNat ∧
      (f₀.onlyKnown = true → Format.detect? bytes ≠ none) ∧ f₀.Nameable d₁ := by
  have hsize : UInt64.ofNat bytes.length = f₀.size ↔ bytes.length = f₀.size.toNat := by
    rw [← UInt64.toNat_inj, UInt64.toNat_ofNat_of_lt' hl]
  have hread : d.readFile f₀.partPath = .ok bytes := by
    rw [readFile_of_find (h.find hf), h.own]
  rw [← h.nameable hf, ← hsize, h.sink]
  unfold FileSink.complete
  dsimp only
  rw [hf.file, if_neg nofun, Format.detect?_take, hread]
  by_cases h1 : UInt64.ofNat bytes.length = f₀.size
  · rw [if_neg (not_not.2 h1)]
    by_cases h2 : f₀.onlyKnown = true ∧ Format.detect? bytes = none
    · rw [if_pos h2]
      exact ⟨nofun, fun hk => absurd h2.2 (hk.2.1 h2.1)⟩
    · rw [if_neg h2]
      have hknown : f₀.onlyKnown = true → Format.detect? bytes ≠ none :=
        fun hk hnone => h2 ⟨hk, hnone⟩
      rw [and_iff_right h1, and_iff_right hknown, Nameable]
      cases d.rename f₀.partPath f₀.finalPath with
      | ok e => simp
      | error e => simp
  · rw [if_pos h1]
    exact ⟨nofun, fun hk => absurd hk.1 h1⟩

theorem finalize_complete (f : FileSink) (s : Storage) :
    (∃ e, f.complete s.disk = .ok e ∧ (f.finalize s).1 = true ∧ (f.finalize s).2.2.1.disk = e) ∨
      (¬ ∃ e, f.complete s.disk = .ok e) ∧ (f.finalize s).1 = false ∧
        (f.finalize s).2.2.1.disk = (f.discard s.disk).1 := by
  unfold FileSink.finalize
  cases f.complete s.disk with
  | ok e => exact .inl ⟨e, rfl, rfl, Sink.release_disk _ _⟩
  | error e => exact .inr ⟨nofun, rfl, Sink.release_disk _ _⟩

/-- What a sink does next that has taken some bytes since it was created, and how it ends. -/
structure AllOrNothing (f₀ : FileSink) (d₁ : Disk) (bytes : List UInt8) (f : FileSink)
    (s : Storage) : Prop where
  refuses : ∀ offset data, offset.toNat ≠ bytes.length →
    f.accept s.disk offset data = .error (.violation (.outOfOrder offset (.ofNat bytes.length)))
  accepts : ∀ offset data, offset.toNat = bytes.length → ∃ r, f.accept s.disk offset data = .ok r
  untouched : s.disk.stands? f₀.finalPath = d₁.stands? f₀.finalPath
  /-- The verdict depends on the bytes alone, if only the file can have its name. -/
  verdict_iff : (f.finalize s).1 = true ↔ bytes.length = f₀.size.toNat ∧
    (f₀.onlyKnown = true → Format.detect? bytes ≠ none) ∧ f₀.Nameable d₁
  stored : (f.finalize s).1 = true → Stored d₁ (f.finalize s).2.2.1.disk f₀ bytes
  rejected : (f.finalize s).1 = false → Unstored d₁ (f.finalize s).2.2.1.disk f₀
  failed : Unstored d₁ (f.fail s).2.1.disk f₀
  dropped : Unstored d₁ (f.drop s).1.disk f₀

theorem Wrote.allOrNothing (h : Wrote f₀ d₁ n bytes f s.disk) (hf : Fresh f₀ d₁ n)
    (hl : bytes.length < UInt64.size) : AllOrNothing f₀ d₁ bytes f s := by
  have hdiscard := unstored_discard h hf
  have hcomplete := h.complete hf hl
  have hfile : f.file = some n := by rw [h.sink, hf.file]
  refine ⟨fun offset data => (h.accept hf.file hl offset data).1, fun offset data ho => ?_,
    h.stands? hf, ?_, fun hv => ?_, fun hv => ?_, ?_, ?_⟩
  · obtain ⟨f', d', ha, -⟩ := (h.accept hf.file hl offset data).2 ho
    exact ⟨_, ha⟩
  · rw [← hcomplete]
    rcases finalize_complete f s with ⟨e, he, hv, -⟩ | ⟨hnot, hv, -⟩
    · exact ⟨fun _ => ⟨e, he⟩, fun _ => hv⟩
    · rw [hv]
      exact ⟨nofun, fun he => absurd he hnot⟩
  · rcases finalize_complete f s with ⟨e, he, -, hdisk⟩ | ⟨-, hv', -⟩
    · have hr := (Sink.file_complete he).2
      rw [h.sink] at hr
      rw [hdisk]
      exact stored_rename h hf hr
    · cases hv.symm.trans hv'
  · rcases finalize_complete f s with ⟨e, -, hv', -⟩ | ⟨-, -, hdisk⟩
    · cases hv.symm.trans hv'
    · rw [hdisk]
      exact hdiscard
  · unfold FileSink.fail
    rw [Sink.release_disk]
    exact hdiscard
  · unfold FileSink.drop
    rw [if_neg (by rw [hfile]; exact nofun), Sink.release_disk]
    exact hdiscard

/-- **A sink stores all or nothing.** After any calls the next chunk is refused unless it is in
order, and the destination is as it was. The verdict is good if and only if all bytes of the file
have come in order, in however many chunks, are of a known format if they must be, and the file
system lets the file have its name. These bytes are then at the destination, which stays as it was
after a bad verdict, a failure or a drop. No file system holds more bytes than a counter can
tell. -/
theorem all_or_nothing {claim : Option (List Path.Component)} (hd : d.Numbered)
    (hn : Path.fileName? name.toList ≠ Path.fileName? (partName session))
    (hc : create base session name size onlyKnown d = (.ok f, d₁)) (hf : f₀ = { f with claim })
    (calls : List (UInt64 × List UInt8)) (hl : (taken [] calls).length < UInt64.size)
    (s : Storage) :
    (f₀.finalPath = Path.join base name.toList ∧ f₀.size = size ∧ f₀.onlyKnown = onlyKnown) ∧
      AllOrNothing f₀ d₁ (taken [] calls) (f₀.offers d₁ calls).1
        { s with disk := (f₀.offers d₁ calls).2 } := by
  obtain ⟨n, hfresh⟩ := fresh_create hd hn hc
  -- The claim has no part in any of this.
  have hfresh₀ : Fresh f₀ d₁ n := by
    subst hf
    exact ⟨hfresh.file, hfresh.head, hfresh.written, hfresh.find, hfresh.empty, hfresh.alone,
      hfresh.apart⟩
  refine ⟨?_, (wrote_offers hfresh₀.file calls hfresh₀.wrote hl).allOrNothing hfresh₀ hl⟩
  obtain ⟨directory, d₂, m, -, -, rfl⟩ := Sink.create_cases hc
  subst hf
  exact ⟨rfl, rfl, rfl⟩

/-- A sink for a picture of four bytes, and the disk with its empty partial file. -/
def picture : FileSink where
  partPath := "out/.s.part".toList
  finalPath := "out/a.jpg".toList
  size := 4
  onlyKnown := true
  file := some 0

def pictureDisk : Disk := (create "out".toList "s" "a.jpg" 4 true {}).2

/-- The signature comes in two chunks, with one that is out of order between them. -/
def splitSignature : List (UInt64 × List UInt8) := [(0, [0xff]), (3, [7]), (1, [0xd8, 0xff, 9])]

theorem picture_stored :
    create "out".toList "s" "a.jpg" 4 true {} = (.ok picture, pictureDisk) ∧
      (let (f, disk) := picture.offers pictureDisk splitSignature
       AllOrNothing picture pictureDisk [0xff, 0xd8, 0xff, 9] f { disk } ∧
         (f.finalize { disk }).1 = true) := by
  have hc : create "out".toList "s" "a.jpg" 4 true {} = (.ok picture, pictureDisk) := rfl
  have hname : Path.fileName? "a.jpg".toList ≠ Path.fileName? (partName "s") := by
    rw [fileName?_partName_of_no_slash (by decide)]
    decide
  exact ⟨hc, (all_or_nothing numbered_empty hname hc rfl splitSignature (by decide) {}).2, rfl⟩

end FileSink

end PullIngest
