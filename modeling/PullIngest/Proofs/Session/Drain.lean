import Mathlib.Algebra.Order.Floor.Div
import PullIngest.Proofs.Session.Run

/-!
# Pulling a whole file

A session that is asked for one range after the other, each of them answered in full, takes its file
in rounds of one chunk each, and the last round takes what is left.

* `pulled`: the session after a number of rounds;
* `AfterRounds`: how far it has come by then (`Sound.afterRounds`);
* `Round`: what one round asks for and how it moves the session on (`AfterRounds.round`);
* `pullAll_eq`: a drain goes through the rounds until none is left;
* `drain_partitions`: how many rounds there are, and how they divide the file.
-/

namespace PullIngest

/-- The bytes from one offset on up to another. -/
def ByteRange.between (start stop : ℕ) : ByteRange := ⟨.ofNat start, .ofNat (stop - start)⟩

namespace Session

/-- The session after a number of rounds. -/
def pulled (chunk : UInt64) (rounds : ℕ) (s : Session) : Session :=
  (fun s => (s.pull chunk).2)^[rounds] s

/-- What a round does that takes the range `r`, the bytes from `start` on up to `stop`: the session
asks for the range, a full response moves it on behind that, and no 64-bit sum or difference wraps
around. -/
structure Round (s : Session) (chunk : UInt64) (r : ByteRange) (start stop : ℕ) : Prop where
  asks : s.nextRequest chunk = (.ok (some r), s.awaiting r)
  offset_eq : r.offset.toNat = start
  stop_eq : r.stop.toNat = stop
  stop_le : start < stop ∧ stop ≤ s.declaredSize.toNat
  advances : (s.awaiting r).acceptResponse r.offset r.size r.size =
    (.ok (.advanced r.stop (r.stop = s.declaredSize)), (s.awaiting r).advancedBy r.size)
  exact : s.Exact ∧ (s.awaiting r).Exact

variable {s t : Session} {chunk : UInt64} {i : ℕ}

/-- The first round comes before the others. -/
theorem pulled_succ (chunk : UInt64) (i : ℕ) (s : Session) :
    pulled chunk (i + 1) s = pulled chunk i (s.pull chunk).2 :=
  Function.iterate_succ_apply _ i s

/-- The last round comes after the others. -/
theorem pulled_succ' (chunk : UInt64) (i : ℕ) (s : Session) :
    pulled chunk (i + 1) s = ((pulled chunk i s).pull chunk).2 :=
  Function.iterate_succ_apply' _ i s

/-! ### One round -/

/-- The bytes of the next range move the session on behind them. -/
theorem Sound.acceptResponse_awaiting (hs : s.Sound) (hr : s.declaredSize - s.delivered ≠ 0)
    (hc : chunk ≠ 0) :
    let r := s.nextRange chunk
    (s.awaiting r).acceptResponse r.offset r.size r.size =
      (.ok (.advanced r.stop (r.stop = s.declaredSize)), (s.awaiting r).advancedBy r.size) := by
  intro r
  have ho : (s.awaiting r).outstanding = some ⟨r.offset, r.size⟩ := rfl
  obtain ⟨complete, e⟩ := (hs.awaiting hr hc).acceptPayload_eq ho
  obtain rfl := complete_of_advanced (congrArg Prod.fst e)
  exact e

/-- As long as bytes are missing, a round takes the next range. -/
theorem Sound.pull_eq (hs : s.Sound) (hp : s.phase = .started ∨ s.phase = .requesting)
    (hr : s.declaredSize - s.delivered ≠ 0) (hc : chunk ≠ 0) :
    s.pull chunk = (.ok (some (s.nextRange chunk)),
      (s.awaiting (s.nextRange chunk)).advancedBy (s.nextRange chunk).size) := by
  unfold pull
  rw [nextRequest_eq hc hp, if_neg hr]
  dsimp only
  rw [hs.acceptResponse_awaiting hr hc]

/-- When no bytes are missing, there is no round. -/
theorem pull_of_full (hp : s.phase = .started ∨ s.phase = .requesting)
    (hr : s.declaredSize - s.delivered = 0) (hc : chunk ≠ 0) : s.pull chunk = (.ok none, s) := by
  unfold pull
  rw [nextRequest_eq hc hp, if_pos hr]

/-! ### Many rounds -/

/-- How far the session `t` has come that was `s` some rounds ago. -/
structure AfterRounds (s : Session) (chunk : UInt64) (i : ℕ) (t : Session) : Prop where
  sound : t.Sound
  ready : t.phase = .started ∨ t.phase = .requesting
  declaredSize_eq : t.declaredSize = s.declaredSize
  delivered_eq :
    t.delivered.toNat = min (s.delivered.toNat + i * chunk.toNat) s.declaredSize.toNat

/-- Bytes are missing as long as the rounds have not reached the end of the file. -/
theorem AfterRounds.remaining_eq_zero_iff (h : AfterRounds s chunk i t) :
    t.declaredSize - t.delivered = 0 ↔
      s.declaredSize.toNat ≤ s.delivered.toNat + i * chunk.toNat := by
  have hrem := h.sound.toNat_remaining
  have hdelivered := h.delivered_eq
  rw [h.declaredSize_eq] at hrem ⊢
  rw [← UInt64.toNat_inj, hrem, UInt64.toNat_zero]
  omega

/-- The next range begins where the rounds before it ended, and ends one chunk later or with the
file. -/
theorem AfterRounds.nextRange_eq (h : AfterRounds s chunk i t)
    (hi : s.delivered.toNat + i * chunk.toNat < s.declaredSize.toNat) :
    (t.nextRange chunk).offset.toNat = s.delivered.toNat + i * chunk.toNat ∧
      (t.nextRange chunk).offset.toNat + (t.nextRange chunk).size.toNat =
        min (s.delivered.toNat + (i + 1) * chunk.toNat) s.declaredSize.toNat := by
  have hdelivered := h.delivered_eq
  have hrem := h.sound.toNat_remaining
  have hmin := toNat_min (t.declaredSize - t.delivered) chunk
  rw [h.declaredSize_eq] at hrem hmin
  have hstep : (i + 1) * chunk.toNat = i * chunk.toNat + chunk.toNat := Nat.succ_mul i _
  constructor
  · show t.delivered.toNat = _
    omega
  · show t.delivered.toNat + (min (t.declaredSize - t.delivered) chunk).toNat = _
    rw [h.declaredSize_eq]
    omega

theorem AfterRounds.succ (h : AfterRounds s chunk i t) (hc : chunk ≠ 0) :
    AfterRounds s chunk (i + 1) (t.pull chunk).2 := by
  by_cases hr : t.declaredSize - t.delivered = 0
  · -- The file has ended already, and one more round changes nothing.
    have hend := h.remaining_eq_zero_iff.1 hr
    have hdelivered := h.delivered_eq
    rw [pull_of_full h.ready hr hc]
    refine ⟨h.sound, h.ready, h.declaredSize_eq, ?_⟩
    show t.delivered.toNat = _
    rw [Nat.succ_mul]
    omega
  · have hi := Nat.lt_of_not_le fun hend => hr (h.remaining_eq_zero_iff.2 hend)
    obtain ⟨-, hstop⟩ := h.nextRange_eq hi
    have hsound := h.sound.awaiting hr hc
    rw [h.sound.pull_eq h.ready hr hc]
    refine ⟨hsound.advancedBy rfl, .inr rfl, h.declaredSize_eq, ?_⟩
    rw [← hstop]
    exact (hsound.toNat_advanced rfl).1

theorem Sound.afterRounds (hs : s.Sound) (hp : s.phase = .started ∨ s.phase = .requesting)
    (hc : chunk ≠ 0) (i : ℕ) : AfterRounds s chunk i (pulled chunk i s) := by
  induction i with
  | zero =>
    have hle := UInt64.le_iff_toNat_le.1 hs.delivered_le
    refine ⟨hs, hp, rfl, ?_⟩
    show s.delivered.toNat = _
    omega
  | succ i ih =>
    rw [pulled_succ']
    exact ih.succ hc

/-- A range that ends in the file is the one between its first offset and its last. -/
theorem eq_between {r : ByteRange} {start stop : ℕ} (hstart : r.offset.toNat = start)
    (hstop : r.offset.toNat + r.size.toNat = stop) : r = .between start stop := by
  have hsize : stop - start = r.size.toNat := by omega
  unfold ByteRange.between
  rw [hsize, ← hstart, UInt64.ofNat_toNat, UInt64.ofNat_toNat]

/-- What the next round does. -/
theorem AfterRounds.round (h : AfterRounds s chunk i t) (hc : chunk ≠ 0)
    (hi : s.delivered.toNat + i * chunk.toNat < s.declaredSize.toNat) :
    t.Round chunk (t.nextRange chunk) (s.delivered.toNat + i * chunk.toNat)
      (min (s.delivered.toNat + (i + 1) * chunk.toNat) s.declaredSize.toNat) := by
  have hr : t.declaredSize - t.delivered ≠ 0 := fun hr =>
    absurd (h.remaining_eq_zero_iff.1 hr) (by omega)
  obtain ⟨hstart, hstop⟩ := h.nextRange_eq hi
  obtain ⟨-, hpos, hle, -⟩ := h.sound.nextRange hr hc
  rw [UInt64.lt_iff_toNat_lt, UInt64.toNat_zero] at hpos
  exact
    { asks := by rw [nextRequest_eq hc h.ready, if_neg hr]
      offset_eq := hstart
      stop_eq := (toNat_stop_of_le hle).trans hstop
      stop_le := by omega
      advances := h.sound.acceptResponse_awaiting hr hc
      exact := ⟨h.sound.exact, (h.sound.awaiting hr hc).exact⟩ }

/-- A drain goes through the rounds until none is left. -/
theorem pullAll_eq {ranges : ℕ → ByteRange} {rounds fuel : ℕ}
    (hask : ∀ i < rounds, ((pulled chunk i s).pull chunk).1 = .ok (some (ranges i)))
    (hend : (pulled chunk rounds s).pull chunk = (.ok none, pulled chunk rounds s))
    (hfuel : rounds < fuel) (done : List ByteRange) :
    pullAll chunk fuel s done =
      (.ok (done.reverse ++ (List.range rounds).map ranges), pulled chunk rounds s) := by
  induction rounds generalizing s ranges fuel done with
  | zero =>
    obtain ⟨fuel, rfl⟩ := Nat.exists_eq_add_of_lt hfuel
    have hstop : s.pull chunk = (.ok none, s) := hend
    rw [Nat.zero_add, pullAll, hstop]
    simp [pulled]
  | succ rounds ih =>
    obtain ⟨fuel, rfl⟩ := Nat.exists_eq_add_of_lt (Nat.zero_lt_of_lt hfuel)
    have hfirst : s.pull chunk = (.ok (some (ranges 0)), (s.pull chunk).2) :=
      Prod.ext (hask 0 (Nat.succ_pos rounds)) rfl
    have hrest : pullAll chunk fuel (s.pull chunk).2 (ranges 0 :: done) =
        (.ok ((ranges 0 :: done).reverse ++ (List.range rounds).map fun i => ranges (i + 1)),
          pulled chunk rounds (s.pull chunk).2) :=
      ih (fun i hi => hask (i + 1) (Nat.succ_lt_succ hi)) hend (by omega) _
    rw [Nat.zero_add, pullAll, hfirst]
    dsimp only
    rw [hrest, List.range_succ_eq_map]
    simp [pulled_succ, Function.comp_def]

/-! ### The whole file -/

/-- **A drain divides the file into chunks.** A session that has been started and is then asked for
chunks of one size, each of them answered in full, takes its file in as many rounds as the chunk
size goes into the declared size, rounded up. Round `i` takes the bytes from `i` chunks on up to
`i + 1` chunks or to the end of the file, and nothing in it wraps around. After that all bytes are
there, and no range is left to ask for. -/
theorem drain_partitions (id name : String) (size chunk : UInt64) (calls : List Call)
    (hc : chunk ≠ 0) (hp : ((new id name size).after calls).phase = .started) :
    let s := (new id name size).after calls
    let rounds := size.toNat ⌈/⌉ chunk.toNat
    let range := fun i =>
      ByteRange.between (i * chunk.toNat) (min ((i + 1) * chunk.toNat) size.toNat)
    (∀ i < rounds, (pulled chunk i s).Round chunk (range i) (i * chunk.toNat)
        (min ((i + 1) * chunk.toNat) size.toNat)) ∧
      (pulled chunk rounds s).delivered = size ∧
      (pulled chunk rounds s).nextRequest chunk = (.ok none, pulled chunk rounds s) ∧
      s.drain chunk = (.ok ((List.range rounds).map range), pulled chunk rounds s) := by
  intro s rounds range
  have hs : s.Sound := (sound_new id name size).after calls
  have hsize : s.declaredSize = size := after_declaredSize _ calls
  have hzero : s.delivered.toNat = 0 := congrArg UInt64.toNat (hs.delivered_eq_zero (.inr hp))
  have hcpos : 0 < chunk.toNat := Nat.pos_of_ne_zero fun h => hc (UInt64.toNat_inj.1 h)
  have hafter := hs.afterRounds (.inl hp) hc
  -- A round begins in the file exactly if it is one of the first `rounds` ones.
  have hlt (i : ℕ) : i < rounds ↔ i * chunk.toNat < size.toNat := by
    rw [← not_le, ceilDiv_le_iff_le_mul hcpos, not_le, Nat.mul_comm]
  have hround (i : ℕ) (hi : i < rounds) : (pulled chunk i s).Round chunk (range i)
      (i * chunk.toNat) (min ((i + 1) * chunk.toNat) size.toNat) := by
    have hin : s.delivered.toNat + i * chunk.toNat < s.declaredSize.toNat := by
      rw [hzero, hsize, Nat.zero_add]
      exact (hlt i).1 hi
    have hrange := eq_between ((hafter i).nextRange_eq hin).1 ((hafter i).nextRange_eq hin).2
    have h := (hafter i).round hc hin
    rw [hrange, hzero, hsize, Nat.zero_add, Nat.zero_add] at h
    exact h
  have hend : (pulled chunk rounds s).declaredSize - (pulled chunk rounds s).delivered = 0 := by
    rw [(hafter rounds).remaining_eq_zero_iff, hzero, hsize, Nat.zero_add, ← not_lt, ← hlt]
    exact lt_irrefl rounds
  have hnone : (pulled chunk rounds s).nextRequest chunk = (.ok none, pulled chunk rounds s) := by
    rw [nextRequest_eq hc (hafter rounds).ready, if_pos hend]
  refine ⟨hround, ?_, hnone, ?_⟩
  · rw [(hafter rounds).sound.delivered_eq hend, (hafter rounds).declaredSize_eq, hsize]
  · have hask (i : ℕ) (hi : i < rounds) :
        ((pulled chunk i s).pull chunk).1 = .ok (some (range i)) := by
      unfold pull
      rw [(hround i hi).asks]
    -- Every round takes at least one byte, so that the drain does not give up before the end.
    have hfuel : rounds < s.declaredSize.toNat - s.delivered.toNat + 1 := by
      rw [hzero, hsize, Nat.lt_succ_iff, ceilDiv_le_iff_le_mul hcpos]
      exact Nat.le_mul_of_pos_left _ hcpos
    exact pullAll_eq hask (pull_of_full (hafter rounds).ready hend hc) hfuel []

/-- The largest file in the largest chunks that take more than one round: twice the chunk size is
more than 64 bits hold. -/
theorem largest_partitioned :
    (0x8000000000000000 : UInt64) ≠ 0 ∧
      ((new "s" "f" 0xffffffffffffffff).after [.start]).phase = .started ∧
      (((new "s" "f" 0xffffffffffffffff).after [.start]).drain 0x8000000000000000).1 =
        .ok [⟨0, 0x8000000000000000⟩, ⟨0x8000000000000000, 0x7fffffffffffffff⟩] := by
  refine ⟨by decide, rfl, ?_⟩
  have h := drain_partitions "s" "f" 0xffffffffffffffff 0x8000000000000000 [.start] (by decide) rfl
  exact congrArg Prod.fst h.2.2.2

end Session

end PullIngest
