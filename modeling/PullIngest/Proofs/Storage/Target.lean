import PullIngest.Proofs.Storage.AllOrNothing
import PullIngest.Proofs.Storage.Containment

/-!
# Names that a file can be given

An accepted name has an ordinary step, but it may end in a dot behind it. Such a name leads to a
directory: a sink is opened for it and takes all bytes, and only the verdict is bad, because the
partial file cannot be given that name. Every other accepted name ends in an ordinary segment, and
its file can have it.

* `Path.filterMap_word?_components`: what is looked up of a path, read off its steps;
* `Disk.walk_filter_dot`, `Disk.last_of_walk`: dots are walked past;
* `Disk.rename_of_lastSegment_dot`: no file is given a name that ends in a dot;
* `FileSink.nameable_iff`: a partial file can be given the name that its directory was made for;
* `Name.designates_file_iff`: which accepted names can be given to a file;
* `Name.dotted_refused_late`: one that cannot.
-/

namespace PullIngest

/-! ### Steps and what is looked up -/

namespace Path

/-- The name under which a step is looked up. Neither the root nor a dot at the beginning is. -/
def Component.word? : Component → Option (List Char)
  | .up => some dotDot
  | .normal name => some name
  | _ => none

/-- The segments of a path that lead somewhere. -/
def words (path : List Char) : List (List Char) :=
  (segments path).filter fun s => s ≠ [] ∧ s ≠ dot

theorem step?_bind_word? (s : List Char) :
    (step? s).bind Component.word? = if s ≠ [] ∧ s ≠ dot then some s else none := by
  unfold step?
  by_cases h : s = [] ∨ s = dot
  · rw [if_pos h, if_neg (by tauto)]
    rfl
  · rw [if_neg h, if_pos (not_or.1 h)]
    split_ifs with hdots
    · rw [hdots]
      rfl
    · rfl

/-- What is looked up of a path depends on its steps alone. -/
theorem filterMap_word?_components (path : List Char) :
    (components path).filterMap Component.word? = words path := by
  have hstart : (start path).filterMap Component.word? = [] := by
    unfold start
    split
    · split_ifs <;> rfl
    · rfl
  unfold components words
  rw [List.filterMap_append, hstart, List.nil_append, List.filterMap_filterMap,
    ← List.filterMap_eq_filter]
  refine List.filterMap_congr fun s _ => ?_
  rw [step?_bind_word?]
  simp [Option.guard]

/-- A path begins with a slash if and only if its first step is the root. -/
theorem head?_eq_slash_iff {path : List Char} :
    path.head? = some '/' ↔ (components path).head? = some .root := by
  have hlater : ((segments path).filterMap step?).head? ≠ some .root := by
    intro h
    obtain ⟨s, hs, hstep⟩ := List.mem_filterMap.1 (List.mem_of_head? h)
    exact later_of_step? (slash_notMem_of_mem_segments hs) hstep
  obtain ⟨s, ss, hs⟩ := List.exists_cons_of_ne_nil (segments_ne_nil path)
  unfold components start
  rw [hs]
  dsimp only
  rw [← hs]
  split_ifs with h1 h2
  · simp [h1]
  · simp [h1]
  · simpa [h1] using hlater

/-- The last part of a text between slashes. -/
def lastSegment (path : List Char) : List Char := (path.splitOn '/').getLastD []

theorem lastSegment_eq {path s : List Char} {before : List (List Char)}
    (h : segments path = before ++ [s]) : lastSegment path = s := by
  unfold lastSegment
  rw [← segments_eq_splitOn, h]
  simp

theorem segments_eq_append_lastSegment (path : List Char) :
    ∃ before, segments path = before ++ [lastSegment path] := by
  obtain ⟨before, s, hs⟩ := (List.eq_nil_or_concat _).resolve_left (segments_ne_nil path)
  rw [List.concat_eq_append] at hs
  exact ⟨before, by rw [lastSegment_eq hs, hs]⟩

/-- Only a path that ends in a slash has an empty last segment. -/
theorem lastSegment_eq_nil_iff {path : List Char} :
    lastSegment path = [] ↔ path = [] ∨ path.getLast? = some '/' := by
  rcases List.eq_nil_or_concat path with rfl | ⟨before, c, rfl⟩
  · simp [lastSegment]
  · rw [List.concat_eq_append]
    by_cases hc : c = '/'
    · subst hc
      have hseg : segments (before ++ ['/']) = segments before ++ [[]] :=
        segments_append_slash before []
      simp [lastSegment_eq hseg]
    · have hslash : '/' ∉ [c] := by simp [Ne.symm hc]
      obtain ⟨others, s, hseg⟩ := segments_append_of_no_slash before hslash
      simp [lastSegment_eq hseg, hc]

/-- The last segment of a name is that of its path below a base. -/
theorem lastSegment_join (base : List Char) {name : List Char} (h : name.head? ≠ some '/') :
    lastSegment (join base name) = lastSegment name := by
  obtain ⟨before, hbefore⟩ := segments_join base h
  obtain ⟨before', hname⟩ := segments_eq_append_lastSegment name
  have hseg : segments (join base name) = (before ++ before') ++ [lastSegment name] := by
    rw [hbefore, List.append_assoc, ← hname]
  exact lastSegment_eq hseg

/-- Steps below a directory come behind those of the directory. -/
theorem steps_join {directory name : List Char} (h : name.head? ≠ some '/') :
    Disk.steps (join directory name) = Disk.steps directory ++ Disk.steps name := by
  unfold Disk.steps join
  rw [if_neg h]
  split_ifs with hslash
  · rcases List.eq_nil_or_concat directory with rfl | ⟨before, c, rfl⟩
    · simp [segments]
    · obtain rfl : c = '/' := by simpa using hslash
      rw [List.concat_eq_append, List.append_assoc, List.singleton_append, segments_append_slash,
        segments_append_slash]
      simp [segments]
  · rw [segments_append_slash, List.filter_append]

theorem head?_join {directory name : List Char} (h : name.head? ≠ some '/') :
    (join directory name).head? = some '/' ↔ directory.head? = some '/' := by
  unfold join
  rw [if_neg h]
  cases directory with
  | nil => simp [h]
  | cons c directory => split_ifs <;> simp

end Path

/-! ### Dots are walked past -/

namespace Disk

open Path

variable {d d' : Disk} {path source target : List Char} {n : ℕ}

theorem walk_filter_dot (d : Disk) (p : Place) (segs : List (List Char)) :
    d.walk p (segs.filter (· ≠ dot)) = d.walk p segs := by
  induction segs generalizing p with
  | nil => rfl
  | cons s segs ih =>
    by_cases hs : s = dot
    · rw [List.filter_cons_of_neg (by simp [hs]), ih, walk, if_pos hs]
    · rw [List.filter_cons_of_pos (by simp [hs])]
      simp only [walk, ih]

theorem walk_append (d : Disk) (p : Place) (a b : List (List Char)) :
    d.walk p (a ++ b) = d.walk p a >>= fun q => d.walk q b := by
  induction a generalizing p with
  | nil => rfl
  | cons s a ih =>
    simp only [List.cons_append, walk, ih]
    split_ifs
    · rfl
    · rfl
    · rfl
    · cases d.at? (p ++ [s]) with
      | none => rfl
      | some e => cases e <;> rfl

/-- The steps of a path without its dots. -/
theorem filter_dot_steps (path : List Char) : (steps path).filter (· ≠ dot) = words path := by
  unfold steps words
  rw [List.filter_filter]
  refine List.filter_congr fun s _ => ?_
  simp [and_comm]

/-- A text that the file system takes as a path. -/
structure Fits (path : List Char) : Prop where
  no_nul : '\x00' ∉ path
  ne_nil : path ≠ []
  short : byteLength path < maxPath

/-- A path that ends in an ordinary segment leads to that name, below the place that the words
before it lead to. -/
theorem last_of_walk {before : List (List Char)} {s : List Char} {q : Place} (h : Fits path)
    (hs : Ordinary s) (hseg : segments path = before ++ [s])
    (hw : d.walk (d.origin path) (before.filter fun s => s ≠ [] ∧ s ≠ dot) = .ok q) :
    d.last path = .ok (.name q s) := by
  have hsteps : steps path = before.filter (· ≠ []) ++ [s] := by
    simp [steps, hseg, hs.ne_nil]
  refine last_eq_ok.2 ⟨⟨h.no_nul, h.ne_nil, h.short⟩, .inr ⟨_, s, q, hsteps, ?_, ?_⟩⟩
  · rw [← walk_filter_dot, List.filter_filter, ← hw]
    congr 1
    exact List.filter_congr fun t _ => by simp [and_comm]
  · simp [ending, hs.ne_dot, hs.ne_dotDot]

/-- No file is given a name that ends in a dot. -/
theorem rename_of_lastSegment_dot (h : lastSegment target = dot) :
    d.rename source target ≠ .ok d' := by
  intro hr
  obtain ⟨-, -, parent, s, -, -, hl, -⟩ := rename_cases hr
  obtain ⟨before, hseg⟩ := segments_eq_append_lastSegment target
  have hsteps : steps target = before.filter (· ≠ []) ++ [dot] := by
    simp [steps, hseg, h, dot]
  obtain ⟨-, ⟨hnil, -⟩ | ⟨before', t, q, hs, -, hname⟩⟩ := last_eq_ok.1 hl
  · simp [hsteps] at hnil
  · obtain ⟨-, ht⟩ := List.append_inj' (hsteps.symm.trans hs) rfl
    rw [← List.singleton_inj.1 ht] at hname
    cases hname

/-- Where a path below a directory leads somewhere, the directory can be walked to. -/
theorem walk_of_last_join {directory name : List Char} {l : Last}
    (hname : name.head? ≠ some '/') (hne : steps name ≠ [])
    (hl : d.last (join directory name) = .ok l) :
    ∃ q, d.walk (d.origin (join directory name)) (words directory) = .ok q := by
  obtain ⟨before, s, hs⟩ := (List.eq_nil_or_concat (steps name)).resolve_left hne
  have hsteps : steps (join directory name) = (steps directory ++ before) ++ [s] := by
    rw [steps_join hname, hs, List.concat_eq_append, List.append_assoc]
  obtain ⟨-, ⟨hnil, -⟩ | ⟨before', t, parent, hs', hw, -⟩⟩ := last_eq_ok.1 hl
  · simp [hsteps] at hnil
  · obtain ⟨rfl, -⟩ := List.append_inj' (hsteps.symm.trans hs') rfl
    rw [walk_append] at hw
    obtain ⟨q, hq, -⟩ := bind_eq_ok.1 hw
    exact ⟨q, by rw [← filter_dot_steps, walk_filter_dot, hq]⟩

end Disk

namespace FileSink

open Path Disk

variable {base : List Char} {session name : String} {size : UInt64} {onlyKnown : Bool}
  {d d₁ : Disk} {f : FileSink}

theorem head?_partName (session : String) : (partName session).head? ≠ some '/' := by
  unfold partName
  simp

theorem steps_partName_ne_nil (session : String) : steps (partName session) ≠ [] := by
  obtain ⟨s, hs⟩ := fileName?_partName session
  have hmem : .normal s ∈ components (partName session) :=
    List.mem_append_right _ (List.mem_of_getLast? (fileName?_eq_some.1 hs))
  obtain ⟨hseg, hord⟩ := normal_mem_components.1 hmem
  exact List.ne_nil_of_mem (List.mem_filter.2 ⟨hseg, by simpa using hord.ne_nil⟩)

/-- A sink is made for a valid name, with its partial file beside the destination. -/
theorem create_beside (hc : create base session name size onlyKnown d = (.ok f, d₁)) :
    Name.validate name = .ok () ∧ f.finalPath = join base name.toList ∧
      ∃ (d₂ : Disk) (n : ℕ), f.partPath = join ((parent? f.finalPath).getD base) (partName session) ∧
        d₂.createFile f.partPath = .ok (d₁, n) := by
  unfold create at hc
  cases hv : Name.validate name with
  | error e => rw [hv] at hc; cases hc
  | ok _ =>
    rw [hv] at hc
    dsimp only at hc
    split at hc
    · cases hc
    · split at hc
      · cases hc
      · next hfile =>
        cases hc
        exact ⟨rfl, rfl, _, _, rfl, hfile⟩

/-- The destination is in the directory of the partial file, under its last segment. -/
theorem last_finalPath (hc : create base session name size onlyKnown d = (.ok f, d₁))
    (hs : Ordinary (lastSegment name.toList)) (hfits : Fits f.finalPath) :
    ∃ q, d₁.last f.finalPath = .ok (.name q (lastSegment name.toList)) := by
  obtain ⟨hv, hfinal, d₂, n, hpart, hfile⟩ := create_beside hc
  obtain ⟨before, hseg⟩ := segments_eq_append_lastSegment f.finalPath
  have hrelative := (Name.validate_eq_ok_iff.1 hv).relative
  have hlast : lastSegment f.finalPath = lastSegment name.toList := by
    rw [hfinal, lastSegment_join base hrelative]
  rw [hlast] at hseg
  -- The steps of the directory are those of the destination but the last.
  have hsteps : components f.finalPath =
      (start f.finalPath ++ before.filterMap step?) ++ [.normal (lastSegment name.toList)] := by
    have hstep : step? (lastSegment name.toList) = some (.normal (lastSegment name.toList)) :=
      step?_text (c := .normal _) hs
    unfold components
    rw [hseg, List.filterMap_append, List.append_assoc]
    simp [hstep]
  obtain ⟨directory, hparent, hdirectory⟩ := parent?_eq_some hsteps
  rw [hparent, Option.getD_some] at hpart
  have hwords : before.filter (fun s => s ≠ [] ∧ s ≠ dot) = words directory := by
    have hall : words f.finalPath = words directory ++ [lastSegment name.toList] := by
      rw [← filterMap_word?_components, ← filterMap_word?_components, hdirectory, hsteps,
        List.filterMap_append]
      rfl
    unfold words at hall
    rw [hseg, List.filter_append] at hall
    have hkept : [lastSegment name.toList].filter (fun s => s ≠ [] ∧ s ≠ dot) =
        [lastSegment name.toList] := by
      simp [hs.ne_nil, hs.ne_dot]
    rw [hkept] at hall
    exact List.append_cancel_right hall
  have horigin : d₂.origin f.partPath = d₂.origin f.finalPath := by
    have hhead : f.partPath.head? = some '/' ↔ f.finalPath.head? = some '/' := by
      rw [hpart, head?_join (head?_partName session), head?_eq_slash_iff, head?_eq_slash_iff,
        hdirectory, hsteps]
      generalize start f.finalPath ++ before.filterMap step? = cs
      cases cs <;> simp
    unfold origin
    simp only [hhead]
  obtain ⟨parent, t, hl, -, -, -, rfl, -⟩ := createFile_cases hfile
  rw [hpart] at hl
  obtain ⟨q, hq⟩ := walk_of_last_join (head?_partName session) (steps_partName_ne_nil session) hl
  rw [← hpart, horigin, ← hwords] at hq
  exact ⟨q, (touches_createFile hfile).keeps.last (last_of_walk hfits hs hseg hq)⟩

/-- **A partial file can be given the name that ends in an ordinary segment** unless the file system
takes no path or name of that length, or a directory has the name. -/
theorem nameable_iff (hc : create base session name size onlyKnown d = (.ok f, d₁))
    (hs : Ordinary (lastSegment name.toList)) :
    f.Nameable d₁ ↔ Fits f.finalPath ∧ byteLength (lastSegment name.toList) ≤ maxName ∧
      d₁.find f.finalPath ≠ .ok .directory := by
  obtain ⟨hv, hfinal, d₂, n, hpart, hfile⟩ := create_beside hc
  have hlast : lastSegment f.finalPath = lastSegment name.toList := by
    rw [hfinal, lastSegment_join base (Name.validate_eq_ok_iff.1 hv).relative]
  constructor
  · rintro ⟨d', hr⟩
    obtain ⟨-, -, parent, s, m, -, hl, hlen, -, -, -, hat, -⟩ := rename_cases hr
    obtain ⟨⟨hnul, hnil, hshort⟩, -⟩ := last_eq_ok.1 hl
    obtain ⟨q, hq⟩ := last_finalPath hc hs ⟨hnul, hnil, hshort⟩
    obtain ⟨rfl, rfl⟩ : parent = q ∧ s = lastSegment name.toList := by
      simpa using hl.symm.trans hq
    refine ⟨⟨hnul, hnil, hshort⟩, hlen, fun hfind => ?_⟩
    obtain ⟨l, hl', he, -⟩ := find_eq_ok.1 hfind
    obtain rfl := Except.ok.inj (hl.symm.trans hl')
    obtain ⟨p, hp, -⟩ | ⟨parent', s', hp, -, he⟩ := entry?_eq_ok.1 he
    · cases hp
    · cases hp
      exact hat he.symm
  · rintro ⟨hfits, hlen, hfree⟩
    obtain ⟨q, hq⟩ := last_finalPath hc hs hfits
    obtain ⟨hfind, -⟩ := createFile_spec hfile
    have hat : d₁.at? (q ++ [lastSegment name.toList]) ≠ some .directory := by
      refine fun hat => hfree (find_eq_ok.2 ⟨_, hq, ?_, nofun⟩)
      exact entry?_eq_ok.2 (.inr ⟨q, _, rfl, hlen, hat.symm⟩)
    have hplain : namesDirectory f.finalPath = false := by
      have hne := mt lastSegment_eq_nil_iff.2 (hlast ▸ hs.ne_nil)
      simpa [namesDirectory] using (not_or.1 hne).2
    obtain ⟨_, _, -, hr⟩ := rename_of_find hfind hq hlen hplain hat
    exact ⟨_, hr⟩

/-- A sink whose destination ends in a dot has a bad verdict, whatever it has taken. -/
theorem finalize_of_lastSegment_dot {f : FileSink} (h : lastSegment f.finalPath = dot)
    (s : Storage) : (f.finalize s).1 = false := by
  rcases finalize_complete f s with ⟨e, he, -⟩ | ⟨-, hv, -⟩
  · exact absurd (Sink.file_complete he).2 (rename_of_lastSegment_dot h)
  · exact hv

end FileSink

/-! ### Names -/

namespace Name

open Path Disk

/-- The last segment of an accepted name is an ordinary file name unless it is a dot. -/
theorem Allowed.ordinary_lastSegment_iff {name : List Char} (h : Allowed name) :
    Ordinary (lastSegment name) ↔ lastSegment name ≠ dot := by
  refine ⟨Ordinary.ne_dot, fun hdot => ?_⟩
  have hdots := h.no_dotDot
  rw [← segments_eq_splitOn] at hdots
  obtain ⟨before, hseg⟩ := segments_eq_append_lastSegment name
  have hmem : lastSegment name ∈ segments name := by simp [hseg]
  refine ordinary_of_mem_segments hdots hmem ⟨fun hnil => ?_, hdot⟩
  rcases lastSegment_eq_nil_iff.1 hnil with hname | hslash
  · exact h.ne_nil hname
  · exact h.no_separator_last.1 hslash

/-- **An accepted name designates a file exactly if its last segment is not a dot.** Then that
segment is an ordinary file name, and a partial file made for the name can be given it, unless a
directory has the name or the file system takes no path or no name of that length. A sink for any
other accepted name can be made and has a bad verdict whatever it has taken. -/
theorem designates_file_iff (name : String) (hv : validate name = .ok ()) :
    (Ordinary (lastSegment name.toList) ↔ lastSegment name.toList ≠ dot) ∧
      ∀ (base : List Char) (session : String) (size : UInt64) (onlyKnown : Bool) (d d₁ : Disk)
        (f : FileSink), FileSink.create base session name size onlyKnown d = (.ok f, d₁) →
          lastSegment f.finalPath = lastSegment name.toList ∧
          (lastSegment name.toList ≠ dot →
            (f.Nameable d₁ ↔ Fits f.finalPath ∧ byteLength (lastSegment name.toList) ≤ maxName ∧
              d₁.find f.finalPath ≠ .ok .directory)) ∧
          (lastSegment name.toList = dot →
            ∀ (g : FileSink) (s : Storage), g.finalPath = f.finalPath → (g.finalize s).1 = false) := by
  have hallowed := validate_eq_ok_iff.1 hv
  refine ⟨hallowed.ordinary_lastSegment_iff, fun base session size onlyKnown d d₁ f hc => ?_⟩
  obtain ⟨-, hfinal, -⟩ := FileSink.create_beside hc
  have hlast : lastSegment f.finalPath = lastSegment name.toList := by
    rw [hfinal, lastSegment_join base hallowed.relative]
  refine ⟨hlast, fun hdot => ?_, fun hdot g s hg => ?_⟩
  · exact FileSink.nameable_iff hc (hallowed.ordinary_lastSegment_iff.2 hdot)
  · exact FileSink.finalize_of_lastSegment_dot (by rw [hg, hlast, hdot]) s

/-- The sink of a name with a dot and doubled slashes before its last segment. -/
def doubled : FileSink where
  partPath := "out/a/.s.part".toList
  finalPath := "out/./a//b".toList
  size := 0
  file := some 0

def doubledDisk : Disk := (FileSink.create "out".toList "s" "./a//b" 0 false {}).2

theorem doubled_nameable :
    validate "./a//b" = .ok () ∧
      FileSink.create "out".toList "s" "./a//b" 0 false {} = (.ok doubled, doubledDisk) ∧
      Ordinary (lastSegment "./a//b".toList) ∧ doubled.Nameable doubledDisk := by
  have hv : validate "./a//b" = .ok () := by cbv
  have hc : FileSink.create "out".toList "s" "./a//b" 0 false {} = (.ok doubled, doubledDisk) := rfl
  have hlast : lastSegment "./a//b".toList = ['b'] := rfl
  have hdot : lastSegment "./a//b".toList ≠ dot := by decide
  obtain ⟨hordinary, hsink⟩ := designates_file_iff "./a//b" hv
  obtain ⟨-, hnameable, -⟩ := hsink _ _ _ _ _ _ _ hc
  refine ⟨hv, hc, hordinary.2 hdot, (hnameable hdot).2 ⟨⟨?_, ?_, ?_⟩, ?_, ?_⟩⟩
  · decide
  · decide
  · decide
  · decide
  · have hfind : doubledDisk.find doubled.finalPath = .error .notFound := rfl
    rw [hfind]
    intro h
    cases h

/-- The sink of a name that ends in a dot. -/
def dotted : FileSink where
  partPath := "out/.s.part".toList
  finalPath := "out/a/.".toList
  size := 1
  file := some 0

def dottedDisk : Disk := (FileSink.create "out".toList "s" "a/." 1 false {}).2

/-- **A name that ends in a dot is accepted and refused late.** Its last segment is no file name,
the sink takes the only byte of the file, and the verdict is bad. -/
theorem dotted_refused_late :
    (¬ ∀ name, validate name = .ok () → Ordinary (lastSegment name.toList)) ∧
      validate "a/." = .ok () ∧
      FileSink.create "out".toList "s" "a/." 1 false {} = (.ok dotted, dottedDisk) ∧
      (let (f, d) := dotted.offers dottedDisk [(0, [7])]
       f.written = f.size ∧ (f.finalize { disk := d }).1 = false) := by
  have hv : validate "a/." = .ok () := by cbv
  refine ⟨fun h => (h "a/." hv).ne_dot rfl, hv, rfl, rfl, rfl⟩

end Name

end PullIngest
