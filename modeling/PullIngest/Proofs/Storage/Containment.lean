import PullIngest.Proofs.Text.Path
import PullIngest.Sink.File

/-!
# Names stay below the base

A client may declare any text as the name of its file. The texts that are accepted lead to a place
below the base, whatever the base is.

* `Name.Allowed`: the names that are accepted (`Name.validate_eq_ok_iff`);
* `Path.Below`: a path with the steps of a base and ordinary steps behind them;
* `Name.Allowed.below_join`: where a file of an allowed name goes;
* `Path.Below.parent`: where its partial file goes;
* `Name.stays_below`: all of it together.
-/

namespace PullIngest

open Path

namespace Name

/-- The names that may be declared. -/
structure Allowed (name : List Char) : Prop where
  ne_nil : name ≠ []
  no_nul : '\x00' ∉ name
  no_separator_last : name.getLast? ≠ some '/' ∧ name.getLast? ≠ some '\\'
  relative : name.head? ≠ some '/'
  no_dotDot : dotDot ∉ name.splitOn '/'
  named : ∃ s ∈ name.splitOn '/', s ≠ [] ∧ s ≠ dot

/-- A segment of a name that does not lead upwards is an ordinary step unless it is empty or a
dot. -/
theorem ordinary_of_mem_segments {name s : List Char} (h : dotDot ∉ segments name)
    (hs : s ∈ segments name) (hne : s ≠ [] ∧ s ≠ dot) : Ordinary s :=
  ⟨hne.1, hne.2, fun e => h (e ▸ hs), slash_notMem_of_mem_segments hs⟩

theorem fault?_eq_none_iff {name : List Char} : fault? name = none ↔ Allowed name := by
  unfold fault?
  constructor
  · intro h
    split_ifs at h with h1 h2 h3 h4 h5 h6
    refine ⟨h1, h2, not_or.1 h3, h4, ?_, ?_⟩
    · rw [← segments_eq_splitOn]
      exact mt up_mem_components.2 h5
    · obtain ⟨c, hc, hnormal⟩ := List.any_eq_true.1 h6
      cases c with
      | normal s =>
        obtain ⟨hs, hord⟩ := normal_mem_components.1 hc
        exact ⟨s, segments_eq_splitOn name ▸ hs, hord.ne_nil, hord.ne_dot⟩
      | _ => cases hnormal
  · rintro ⟨h1, h2, h3, h4, h5, s, hs, hne⟩
    rw [← segments_eq_splitOn] at h5 hs
    have hnormal : .normal s ∈ components name :=
      normal_mem_components.2 ⟨hs, ordinary_of_mem_segments h5 hs hne⟩
    rw [if_neg h1, if_neg h2, if_neg (not_or.2 h3), if_neg h4, if_neg (mt up_mem_components.1 h5)]
    split_ifs with h6
    · rfl
    · exact absurd (List.any_eq_true.2 ⟨_, hnormal, rfl⟩) h6

theorem validate_eq_ok_iff {name : String} : validate name = .ok () ↔ Allowed name.toList := by
  rw [← fault?_eq_none_iff]
  unfold validate
  cases fault? name.toList <;> simp

end Name

namespace Path

/-- The steps of a path are those of a base, and then ordinary ones. -/
structure Below (base : List Char) (names : List (List Char)) (path : List Char) : Prop where
  ordinary : ∀ s ∈ names, Ordinary s
  components_eq : components path = components base ++ names.map .normal

/-- The directory of a path below a base has one step less. -/
theorem Below.parent {base path : List Char} {names : List (List Char)}
    (h : Below base names path) (hne : names ≠ []) :
    ∃ directory, parent? path = some directory ∧ Below base names.dropLast directory := by
  obtain ⟨before, last, rfl⟩ := (List.eq_nil_or_concat names).resolve_left hne
  have hsteps := h.components_eq
  rw [List.concat_eq_append, List.map_append, ← List.append_assoc] at hsteps
  obtain ⟨directory, hparent, hcomponents⟩ := parent?_eq_some hsteps
  refine ⟨directory, hparent, fun s hs => ?_, ?_⟩
  · exact h.ordinary s (List.dropLast_subset _ hs)
  · rw [hcomponents, List.concat_eq_append, List.dropLast_concat]

end Path

namespace Name

variable {base name : List Char}

/-- The steps of an allowed name are its segments that are neither empty nor dots. -/
theorem Allowed.filterMap_step? (h : Allowed name) :
    (segments name).filterMap step?
      = ((segments name).filter fun s => s ≠ [] ∧ s ≠ dot).map .normal := by
  have hdots := h.no_dotDot
  rw [← segments_eq_splitOn] at hdots
  rw [← List.filterMap_eq_map, List.filterMap_filter]
  refine List.filterMap_congr fun s hs => ?_
  by_cases hne : s ≠ [] ∧ s ≠ dot
  · rw [if_pos (by simpa using hne)]
    exact step?_text (c := .normal s) (ordinary_of_mem_segments hdots hs hne)
  · rw [if_neg (by simpa using hne)]
    unfold step?
    rw [if_pos (by tauto)]

/-- A file of an allowed name goes below the base. -/
theorem Allowed.below_join (h : Allowed name) (hbase : base ≠ []) :
    ∃ names, names ≠ [] ∧ Below base names (join base name) := by
  have hdots := h.no_dotDot
  obtain ⟨s, hs, hne⟩ := h.named
  rw [← segments_eq_splitOn] at hdots hs
  refine ⟨(segments name).filter fun s => s ≠ [] ∧ s ≠ dot, ?_, fun t ht => ?_, ?_⟩
  · exact List.ne_nil_of_mem (List.mem_filter.2 ⟨hs, by simpa using hne⟩)
  · obtain ⟨hmem, hne⟩ := List.mem_filter.1 ht
    exact ordinary_of_mem_segments hdots hmem (by simpa using hne)
  · rw [components_join hbase h.relative, h.filterMap_step?]

/-- **An accepted name stays below the base.** A name is accepted exactly if it is a relative path
without NUL that does not end in a separator, does not lead upwards, and has an ordinary step. The
path of its file then has the steps of the base, whatever base that is, and one or more ordinary
steps behind them. The directory above it, in which the partial file is made, has all of these but
the last. -/
theorem stays_below (name : String) :
    (validate name = .ok () ↔ Allowed name.toList) ∧
      (validate name = .ok () → ∀ base : List Char, base ≠ [] →
        ∃ names directory, names ≠ [] ∧
          Below base names (join base name.toList) ∧
          parent? (join base name.toList) = some directory ∧
          Below base names.dropLast directory ∧
          ∀ (session : String) (size : UInt64) (onlyKnown : Bool) (d d' : Disk) (f : FileSink),
            FileSink.create base session name size onlyKnown d = (.ok f, d') →
              f.finalPath = join base name.toList ∧
                f.partPath = join directory (FileSink.partName session)) := by
  refine ⟨validate_eq_ok_iff, fun hv base hbase => ?_⟩
  obtain ⟨names, hne, hbelow⟩ := (validate_eq_ok_iff.1 hv).below_join hbase
  obtain ⟨directory, hparent, hdirectory⟩ := hbelow.parent hne
  refine ⟨names, directory, hne, hbelow, hparent, hdirectory, ?_⟩
  intro session size onlyKnown d d' f hc
  unfold FileSink.create at hc
  rw [hv] at hc
  dsimp only at hc
  rw [hparent] at hc
  split at hc
  · cases hc
  · split at hc
    · cases hc
    · cases hc
      exact ⟨rfl, rfl⟩

/-- A name may hold dots and doubled slashes, and the base may be the parent of the current
directory. -/
theorem dotted_stays_below :
    validate "./a//./b" = .ok () ∧ "../out/".toList ≠ [] ∧
      ∃ names directory, names ≠ [] ∧
        Below "../out/".toList names (join "../out/".toList "./a//./b".toList) ∧
        parent? (join "../out/".toList "./a//./b".toList) = some directory ∧
        Below "../out/".toList names.dropLast directory := by
  have hv : validate "./a//./b" = .ok () := by cbv
  have hbase : "../out/".toList ≠ [] := by decide
  obtain ⟨names, directory, hne, hbelow, hparent, hdirectory, -⟩ :=
    (stays_below "./a//./b").2 hv "../out/".toList hbase
  exact ⟨hv, hbase, names, directory, hne, hbelow, hparent, hdirectory⟩

end Name

end PullIngest
