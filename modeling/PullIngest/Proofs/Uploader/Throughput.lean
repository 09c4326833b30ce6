import Mathlib.Data.List.Induction
import PullIngest.Throughput

/-!
# The window of an estimate

Samples leave from the front, one by one, for two reasons: they are too old or too many. When times
do not go back, what is left is what one would cut out of the whole history. Only differences of
times are compared, so that the unit of time does not matter.

* `Fits`, `IsWindow`: what the window may show, and the longest end of a history that fits;
* `Runs`, `runs_evict`, `isWindow_evict`: the loop that evicts, and where it ends;
* `IsWindow.suffix_append`: a later window shows nothing that has left this one;
* `IsWindow.record`, `isWindow_recorded`: one sample more, and behind every history;
* `window_maximal`: all of it.
-/

namespace PullIngest.Throughput

variable {w m now now' : ℕ} {t : Throughput} {s q kept history later : List Sample} {x : Sample}

/-- The estimate behind a history. -/
def recorded (w m : ℕ) (history : List Sample) : Throughput :=
  history.foldl record { window := w, maxSamples := m }

/-- Times do not go back. -/
def Chronological (history : List Sample) : Prop := history.Pairwise fun a b => a.time ≤ b.time

/-! ### What the window should show -/

/-- The window may show these samples: there are not too many, and the oldest one is not too old. -/
structure Fits (w m now : ℕ) (s : List Sample) : Prop where
  few : s.length ≤ max m 1
  recent : ∀ oldest ∈ s.head?, now ≤ oldest.time + w

/-- The longest end of a history that fits. -/
structure IsWindow (w m now : ℕ) (history kept : List Sample) : Prop where
  suffix : kept <:+ history
  fits : Fits w m now kept
  longest : ∀ s, s <:+ history → Fits w m now s → s.length ≤ kept.length

/-- There is only one longest end. -/
theorem IsWindow.unique (h : IsWindow w m now history s) (h' : IsWindow w m now history kept) :
    s = kept := by
  have hle := h.longest kept h'.suffix h'.fits
  have hsuffix := List.suffix_of_suffix_length_le h'.suffix h.suffix hle
  exact (hsuffix.eq_of_length_le (h'.longest s h.suffix h.fits)).symm

/-- Every end that fits is an end of the longest one. -/
theorem IsWindow.suffix_of_fits (h : IsWindow w m now history kept) (hs : s <:+ history)
    (hfits : Fits w m now s) : s <:+ kept :=
  List.suffix_of_suffix_length_le hs h.suffix (h.longest s hs hfits)

theorem fits_singleton (w m : ℕ) (x : Sample) : Fits w m x.time [x] where
  few := Nat.le_max_right m 1
  recent oldest h := by
    obtain rfl : x = oldest := by simpa using h
    exact Nat.le_add_right _ _

/-- What fits later fitted already before the last samples came. -/
theorem Fits.of_append (h : Fits w m now' (s ++ later)) (hnow : now ≤ now') : Fits w m now s where
  few := by
    have hfew := h.few
    rw [List.length_append] at hfew
    omega
  recent oldest ho := by
    have hrecent := h.recent oldest (by rw [List.head?_append, ho]; rfl)
    omega

/-- What is not in the window will not be in a later one: every end that fits later lies within the
window and what comes behind it. -/
theorem IsWindow.suffix_append (h : IsWindow w m now history kept) (hnow : now ≤ now')
    (hs : s <:+ history ++ later) (hfits : Fits w m now' s) : s <:+ kept ++ later := by
  rcases List.suffix_or_suffix_of_suffix hs (List.suffix_append history later) with hsl | hls
  · exact hsl.trans (List.suffix_append kept later)
  · obtain ⟨r, rfl⟩ := hls
    have hr : r <:+ history := List.suffix_append_self_iff.1 hs
    exact List.suffix_append_self_iff.2 (h.suffix_of_fits hr (hfits.of_append hnow))

/-! ### The loop -/

/-- One round of the loop that evicts: the oldest sample goes if it must. Otherwise the loop ends. -/
def round? (t : Throughput) (now : ℕ) : List Sample → Option (List Sample)
  | [] => none
  | s :: r => if t.mustEvict now s (r.length + 1) then some r else none

/-- The loop ends after a number of rounds. -/
inductive Runs (t : Throughput) (now : ℕ) : (rounds : ℕ) → (start finish : List Sample) → Prop
  | stop {q : List Sample} (h : t.round? now q = none) : Runs t now 0 q q
  | round {n : ℕ} {q r e : List Sample} (h : t.round? now q = some r) (hr : Runs t now n r e) :
      Runs t now (n + 1) q e

theorem runs_evict (t : Throughput) (now : ℕ) (q : List Sample) :
    ∃ n ≤ q.length, Runs t now n q (t.evict now q) := by
  induction q with
  | nil => exact ⟨0, Nat.le_refl 0, .stop rfl⟩
  | cons a r ih =>
    unfold evict
    split_ifs with ha
    · obtain ⟨n, hn, hruns⟩ := ih
      exact ⟨n + 1, Nat.succ_le_succ hn, .round (by simp [round?, ha]) hruns⟩
    · exact ⟨0, Nat.zero_le _, .stop (by simp [round?, ha])⟩

/-- The oldest sample stays exactly if all that is there fits. -/
theorem mustEvict_eq_false_iff {a : Sample} {r : List Sample} :
    t.mustEvict now a (r.length + 1) = false ↔ Fits t.window t.maxSamples now (a :: r) := by
  simp only [mustEvict, Bool.or_eq_false_iff, decide_eq_false_iff_not, Nat.not_lt]
  constructor
  · rintro ⟨hrecent, hfew⟩
    refine ⟨hfew, fun oldest h => ?_⟩
    obtain rfl : a = oldest := by simpa using h
    omega
  · rintro ⟨hfew, hrecent⟩
    have := hrecent a rfl
    exact ⟨by omega, hfew⟩

/-- The loop stops at the longest end that fits. -/
theorem isWindow_evict (t : Throughput) (now : ℕ) (q : List Sample) :
    IsWindow t.window t.maxSamples now q (t.evict now q) := by
  induction q with
  | nil =>
    refine ⟨List.suffix_rfl, ⟨Nat.zero_le _, nofun⟩, fun s hs _ => ?_⟩
    exact hs.length_le
  | cons a r ih =>
    unfold evict
    cases ha : t.mustEvict now a (r.length + 1) with
    | true =>
      rw [if_pos rfl]
      refine ⟨ih.suffix.trans (List.suffix_cons a r), ih.fits, fun s hs hfits => ?_⟩
      rcases List.suffix_cons_iff.1 hs with rfl | hs
      · rw [mustEvict_eq_false_iff.2 hfits] at ha
        cases ha
      · exact ih.longest s hs hfits
    | false =>
      rw [if_neg Bool.false_ne_true]
      exact ⟨List.suffix_rfl, mustEvict_eq_false_iff.1 ha, fun s hs _ => hs.length_le⟩

/-! ### One sample more -/

@[simp]
theorem window_record (t : Throughput) (x : Sample) : (t.record x).window = t.window := rfl

@[simp]
theorem maxSamples_record (t : Throughput) (x : Sample) :
    (t.record x).maxSamples = t.maxSamples := rfl

theorem recorded_append (w m : ℕ) (history : List Sample) (x : Sample) :
    recorded w m (history ++ [x]) = (recorded w m history).record x := by
  rw [recorded, List.foldl_append]
  rfl

@[simp]
theorem window_recorded (w m : ℕ) (history : List Sample) :
    (recorded w m history).window = w := by
  induction history using List.reverseRecOn with
  | nil => rfl
  | append_singleton history x ih => rw [recorded_append, window_record, ih]

@[simp]
theorem maxSamples_recorded (w m : ℕ) (history : List Sample) :
    (recorded w m history).maxSamples = m := by
  induction history using List.reverseRecOn with
  | nil => rfl
  | append_singleton history x ih => rw [recorded_append, maxSamples_record, ih]

/-- The window over a history and one sample more is cut out of the last window and that sample. -/
theorem IsWindow.record (h : IsWindow t.window t.maxSamples now history t.samples)
    (hx : now ≤ x.time) :
    IsWindow t.window t.maxSamples x.time (history ++ [x]) (t.record x).samples := by
  have hw := isWindow_evict t x.time (t.samples ++ [x])
  refine ⟨hw.suffix.trans (List.suffix_append_self_iff.2 h.suffix), hw.fits, fun s hs hfits => ?_⟩
  exact hw.longest s (h.suffix_append hx hs hfits) hfits

/-- What is shown behind every history is its window at the time of the last sample. -/
theorem isWindow_recorded (h : Chronological history)
    (hnow : ∀ last ∈ history.getLast?, last.time = now) :
    IsWindow w m now history (recorded w m history).samples := by
  induction history using List.reverseRecOn generalizing now with
  | nil => exact ⟨List.suffix_rfl, ⟨Nat.zero_le _, nofun⟩, fun s hs _ => hs.length_le⟩
  | append_singleton history x ih =>
    obtain rfl : x.time = now := hnow x List.getLast?_concat
    obtain ⟨hpast, -, hx⟩ := List.pairwise_append.1 h
    -- with nothing before, any earlier time is as good as another
    have hearlier : ∃ earlier ≤ x.time, ∀ last ∈ history.getLast?, last.time = earlier := by
      cases hl : history.getLast? with
      | none => exact ⟨x.time, Nat.le_refl _, nofun⟩
      | some last =>
        have hle := hx last (List.mem_of_getLast? hl) x (List.mem_singleton_self x)
        exact ⟨last.time, hle, fun b hb => by rw [Option.mem_some.1 hb]⟩
    obtain ⟨earlier, hle, hlast⟩ := hearlier
    let t := recorded w m history
    have hw : IsWindow t.window t.maxSamples earlier history t.samples := by
      simpa [t] using ih hpast hlast
    have hnext := hw.record hle
    rw [recorded_append]
    simpa [t] using hnext

/-- Behind every history whose times do not go back, the samples that are left are the longest end
of it with at most as many samples as are allowed, or one, of which the oldest is not older than
the window allows. There is always a sample left; the loop that evicts ends after at most as many
rounds as there are samples; and whatever comes later, a sample that has left is in no later
window. -/
theorem window_maximal (w m : ℕ) (past : List Sample) (latest : Sample)
    (h : Chronological (past ++ [latest])) :
    let before := recorded w m past
    let kept := (recorded w m (past ++ [latest])).samples
    (∀ s, s = kept ↔ IsWindow w m latest.time (past ++ [latest]) s) ∧
      kept ≠ [] ∧
      (∃ n ≤ before.samples.length + 1,
        Runs before latest.time n (before.samples ++ [latest]) kept) ∧
      ∀ later final, Chronological (past ++ [latest] ++ later ++ [final]) →
        ∀ s, IsWindow w m final.time (past ++ [latest] ++ later ++ [final]) s →
          s <:+ kept ++ later ++ [final] := by
  intro before kept
  have hw : IsWindow w m latest.time (past ++ [latest]) kept := isWindow_recorded h (by simp)
  refine ⟨fun s => ⟨fun hs => hs ▸ hw, fun hs => hs.unique hw⟩, ?_, ?_, ?_⟩
  · have hlast : [latest] <:+ kept :=
      hw.suffix_of_fits (List.suffix_append past [latest]) (fits_singleton w m latest)
    rintro hkept
    rw [hkept] at hlast
    cases List.suffix_nil.1 hlast
  · have hruns := runs_evict before latest.time (before.samples ++ [latest])
    rw [List.length_append, List.length_singleton] at hruns
    have hkept : kept = before.evict latest.time (before.samples ++ [latest]) := by
      simp only [kept, recorded_append]
      rfl
    rw [hkept]
    exact hruns
  · intro later final hlater s hs
    have hle : latest.time ≤ final.time := by
      have hcross := (List.pairwise_append.1 hlater).2.2
      exact hcross latest (by simp) final (List.mem_singleton_self final)
    have hsuffix := hs.suffix
    rw [List.append_assoc _ later] at hsuffix ⊢
    exact hw.suffix_append hle hsuffix hs.fits

/-- The first of four samples leaves because it is too old, the second one because there would be
three; and the window that is left is no longer than what both reasons allow. -/
theorem window_maximal_both_reasons :
    Chronological ([⟨0, 10⟩, ⟨3000000, 20⟩, ⟨4000000, 30⟩] ++ [⟨4500000, 40⟩]) ∧
      (recorded 2000000 2 [⟨0, 10⟩, ⟨3000000, 20⟩, ⟨4000000, 30⟩, ⟨4500000, 40⟩]).samples =
        [⟨4000000, 30⟩, ⟨4500000, 40⟩] ∧
      IsWindow 2000000 2 4500000
        ([⟨0, 10⟩, ⟨3000000, 20⟩, ⟨4000000, 30⟩] ++ [⟨4500000, 40⟩])
        [⟨4000000, 30⟩, ⟨4500000, 40⟩] := by
  have h : Chronological ([⟨0, 10⟩, ⟨3000000, 20⟩, ⟨4000000, 30⟩] ++ [⟨4500000, 40⟩]) := by
    simp [Chronological]
  exact ⟨h, rfl, ((window_maximal 2000000 2 _ _ h).1 _).1 rfl⟩

end PullIngest.Throughput
