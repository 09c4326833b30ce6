import PullIngest.Proofs.Wire.Payload
import PullIngest.Source

/-!
# Ranges of an open file

A range is read into a buffer of zeros, by as many system calls as it takes, from a cursor that all
reads share. What comes out has no trace of that: the bytes of the range as the file is now, or an
error.

* `Reader.transfer_cases`, `Reader.fill_eq`: one system call, and all of them;
* `Reader.snd_read`, `Handle.read_eq`: a read, wherever the cursor stands;
* `answers_eq_map`: reads that share a cursor;
* `Readable`, `read_of_readable`, `read_of_not_readable`: which ranges are given out;
* `reads_exactly`: any reads of a file that changes between them.
-/

namespace PullIngest.Source

namespace Reader

variable {r : Reader} {limit offset size : UInt64} {calls filled : ℕ} {buffer : List UInt8}

/-! ### System calls -/

/-- A system call finds the end of the file, or it transfers some of the bytes that come next. -/
theorem transfer_cases (hr : r.handle.trouble = none) {room : ℕ} (hroom : 0 < room) :
    (r.handle.content.length ≤ r.position ∧ r.transfer room = (r, .ok [])) ∨
      ∃ n, 0 < n ∧ n ≤ room ∧ r.position + n ≤ r.handle.content.length ∧
        r.transfer room = ({ r with position := r.position + n },
          .ok ((r.handle.content.drop r.position).take n)) := by
  have hmax : 0 < maxTransfer := by decide
  unfold transfer
  rw [hr]
  dsimp only
  rcases Nat.lt_or_ge r.position r.handle.content.length with hin | hend
  · right
    let n := min (min room maxTransfer) (r.handle.content.length - r.position)
    have hlength : ((r.handle.content.drop r.position).take (min room maxTransfer)).length = n := by
      rw [List.length_take, List.length_drop]
    refine ⟨n, by omega, by omega, by omega, ?_⟩
    rw [hlength, List.take_eq_take_min, List.length_drop]
  · left
    rw [List.drop_eq_nil_of_le hend, List.take_nil]
    exact ⟨hend, rfl⟩

/-- Nothing is left of the zeros up to where bytes have come. -/
theorem take_overwrite {data : List UInt8} (h : filled ≤ buffer.length) :
    (overwrite buffer filled data).take (filled + data.length) = buffer.take filled ++ data := by
  have hlength : (buffer.take filled ++ data).length = filled + data.length := by
    rw [List.length_append, List.length_take, Nat.min_eq_left h]
  rw [overwrite, ← hlength]
  exact List.take_left

theorem length_overwrite {data : List UInt8} (h : filled + data.length ≤ buffer.length) :
    (overwrite buffer filled data).length = buffer.length := by
  simp only [overwrite, List.length_append, List.length_take, List.length_drop]
  omega

/-- The buffer is filled with what comes next if there is as much; otherwise the cursor stops at the
end of the file. -/
theorem fill_eq (hr : r.handle.trouble = none) (hfilled : filled ≤ buffer.length)
    (hcalls : buffer.length - filled ≤ calls) :
    r.fill calls buffer filled =
      if buffer.length = filled ∨
          r.position + (buffer.length - filled) ≤ r.handle.content.length then
        ({ r with position := r.position + (buffer.length - filled) },
          .ok (buffer.take filled ++
            (r.handle.content.drop r.position).take (buffer.length - filled)))
      else ({ r with position := max r.position r.handle.content.length }, .error .endOfFile) := by
  -- by induction on the calls, each of which leaves less to be filled
  induction calls generalizing r buffer filled with
  | zero =>
    have hfull : buffer.length = filled := by omega
    subst hfull
    simp [fill]
  | succ calls ih =>
    rcases Nat.eq_or_lt_of_le hfilled with rfl | hroom
    · simp [fill]
    unfold fill
    rw [if_neg (by omega)]
    rcases transfer_cases hr (Nat.sub_pos_of_lt hroom) with
      ⟨hend, htransfer⟩ | ⟨n, hn, hle, hin, htransfer⟩
    · rw [htransfer, if_neg (by omega), Nat.max_eq_left hend]
    rw [htransfer]
    generalize hdata : (r.handle.content.drop r.position).take n = data
    have hlength : data.length = n := by
      rw [← hdata, List.length_take, List.length_drop]
      omega
    obtain ⟨b, bs, rfl⟩ := List.exists_cons_of_length_pos (hlength ▸ hn)
    have hbuffer : (overwrite buffer filled (b :: bs)).length = buffer.length :=
      length_overwrite (by omega)
    have hfilled' : filled + (b :: bs).length ≤ (overwrite buffer filled (b :: bs)).length := by
      omega
    have hrest := ih (r := { r with position := r.position + n }) hr hfilled' (by omega)
    dsimp only at hrest ⊢
    rw [hrest, hbuffer, take_overwrite hfilled, hlength]
    -- what is missing comes in two parts
    have hparts : buffer.length - filled = n + (buffer.length - (filled + n)) := by omega
    by_cases hall : r.position + (buffer.length - filled) ≤ r.handle.content.length
    · rw [if_pos (.inr (by omega)), if_pos (.inr hall), hparts, List.take_add, hdata,
        List.drop_drop, List.append_assoc, Nat.add_assoc]
    · rw [if_neg (by omega), if_neg (by omega), Nat.max_eq_right hin, Nat.max_eq_right (by omega)]

theorem fill_of_trouble {e : IoError} (hr : r.handle.trouble = some e)
    (hroom : filled < buffer.length) (hcalls : 0 < calls) :
    r.fill calls buffer filled = (r, .error (.io e)) := by
  obtain ⟨calls, rfl⟩ := Nat.exists_eq_add_of_lt hcalls
  have htransfer : r.transfer (buffer.length - filled) = (r, .error e) := by
    unfold transfer
    rw [hr]
  rw [Nat.zero_add]
  unfold fill
  rw [if_neg (by omega), htransfer]

/-- A buffer of zeros is filled with the range, unless the file ends before the range does. -/
theorem fill_zeros (hr : r.handle.trouble = none) (offset size : UInt64) :
    (r.seek offset).fill size.toNat (List.replicate size.toNat 0) 0 =
      if size.toNat = 0 ∨ offset.toNat + size.toNat ≤ r.handle.content.length then
        ({ r with position := offset.toNat + size.toNat }, .ok (bytesAt r.handle.content offset size))
      else ({ r with position := max offset.toNat r.handle.content.length }, .error .endOfFile) := by
  have hzeros : (List.replicate size.toNat (0 : UInt8)).length = size.toNat := List.length_replicate
  have hfill := fill_eq (r := r.seek offset) hr (Nat.zero_le _) (Nat.le_of_eq hzeros)
  simp only [hzeros, Nat.sub_zero, List.take_zero, List.nil_append] at hfill
  exact hfill

/-! ### Reads -/

/-- A sum that overflows is not within any limit. -/
theorem exists_checkedAdd?_iff : (∃ stop, checkedAdd? offset size = some stop ∧ stop ≤ limit) ↔
    offset.toNat + size.toNat ≤ limit.toNat := by
  have hlimit := limit.toNat_lt_size
  unfold checkedAdd?
  split_ifs with hadd
  · have hstop : (offset + size).toNat = offset.toNat + size.toNat := by
      rw [UInt64.toNat_add]
      exact Nat.mod_eq_of_lt hadd
    simp [UInt64.le_iff_toNat_le, hstop]
  · refine iff_of_false ?_ (by omega)
    rintro ⟨stop, hstop, -⟩
    cases hstop

/-- A range beyond the recorded length is refused before anything is read. -/
theorem read_of_beyond (h : limit.toNat < offset.toNat + size.toNat) :
    r.read limit offset size = (r, .error (.range offset size limit), []) := by
  unfold read
  cases hadd : checkedAdd? offset size with
  | none => rfl
  | some stop =>
    have hstop : ¬stop ≤ limit := fun hle =>
      absurd (exists_checkedAdd?_iff.1 ⟨stop, hadd, hle⟩) (Nat.not_le.2 h)
    dsimp only
    rw [if_neg hstop]

/-- Otherwise a buffer is filled from where the range begins. -/
theorem read_of_within (h : offset.toNat + size.toNat ≤ limit.toNat) {r' : Reader}
    {outcome : Except Shortfall (List UInt8)}
    (hfill : (r.seek offset).fill size.toNat (List.replicate size.toNat 0) 0 = (r', outcome)) :
    r.read limit offset size = (r', told (.range offset size limit) outcome) := by
  obtain ⟨stop, hadd, hstop⟩ := exists_checkedAdd?_iff.2 h
  unfold read
  rw [hadd]
  dsimp only
  rw [if_pos hstop, hfill]

/-- What a read answers does not depend on where the cursor stands, for it moves first. -/
theorem snd_read (r : Reader) (limit offset size : UInt64) :
    (r.read limit offset size).2 = r.handle.read limit offset size := by
  unfold Handle.read read
  cases checkedAdd? offset size with
  | none => rfl
  | some stop =>
    dsimp only
    split_ifs
    · rfl
    · rfl

end Reader

open Reader

/-- Everything that a read can answer. -/
theorem Handle.read_eq (h : Handle) (limit offset size : UInt64) :
    h.read limit offset size =
      if limit.toNat < offset.toNat + size.toNat then (.error (.range offset size limit), [])
      else if size = 0 then (.ok [], [])
      else
        match h.trouble with
        | some e => (.error (.io e), [])
        | none =>
          if (bytesAt h.content offset size).length < size.toNat then
            (.error (.range offset size limit), [shrunkWarning])
          else (.ok (bytesAt h.content offset size), []) := by
  obtain ⟨r, rfl⟩ : ∃ r : Reader, r.handle = h := ⟨{ handle := h }, rfl⟩
  rw [← r.snd_read]
  by_cases hbeyond : limit.toNat < offset.toNat + size.toNat
  · rw [if_pos hbeyond, read_of_beyond hbeyond]
  have hwithin := Nat.not_lt.1 hbeyond
  rw [if_neg hbeyond]
  by_cases hsize : size = 0
  · subst hsize
    rw [if_pos rfl, read_of_within hwithin rfl]
    rfl
  have hpos : 0 < size.toNat := Nat.pos_of_ne_zero fun h => hsize (UInt64.toNat_inj.1 h)
  rw [if_neg hsize]
  cases htrouble : r.handle.trouble with
  | some e =>
    have hroom : 0 < (List.replicate size.toNat (0 : UInt8)).length := by simpa using hpos
    rw [read_of_within hwithin (fill_of_trouble (r := r.seek offset) htrouble hroom hpos)]
    rfl
  | none =>
    have hlength := length_bytesAt_eq_min r.handle.content offset size
    have hfill := fill_zeros htrouble offset size
    by_cases hin : offset.toNat + size.toNat ≤ r.handle.content.length
    · rw [if_pos (.inr hin)] at hfill
      rw [read_of_within hwithin hfill]
      dsimp only
      rw [if_neg (by omega)]
      rfl
    · rw [if_neg (by omega)] at hfill
      rw [read_of_within hwithin hfill]
      dsimp only
      rw [if_pos (by omega)]
      rfl

/-! ### A file that changes -/

/-- Which ranges are given out. They do not overflow, they lie within the recorded length, and
unless they are empty they lie within the file as it is now. -/
structure Readable (limit : UInt64) (content : List UInt8) (offset size : UInt64) : Prop where
  bounded : offset.toNat + size.toNat < UInt64.size
  recorded : offset.toNat + size.toNat ≤ limit.toNat
  present : size = 0 ∨ offset.toNat + size.toNat ≤ content.length

/-- A range to be read when the disk is in some state. -/
structure Visit where
  disk : Disk
  offset : UInt64
  size : UInt64

variable {s : Source} {d : Disk} {n : ℕ} {limit offset size : UInt64}

/-- The answers to one read after the other, which share a cursor. -/
def answers (s : Source) : (position : ℕ) → List Visit →
    List (Except TransferError (List UInt8) × List String)
  | _, [] => []
  | position, v :: r =>
    let turn := ({ handle := s.handle v.disk, position } : Reader).read s.length v.offset v.size
    turn.2 :: s.answers turn.1.position r

/-- Each read is answered as if it was the only one. -/
theorem answers_eq_map (s : Source) (position : ℕ) (visits : List Visit) :
    s.answers position visits = visits.map fun v => s.read v.disk v.offset v.size := by
  induction visits generalizing position with
  | nil => rfl
  | cons v r ih =>
    unfold answers
    dsimp only
    rw [List.map_cons, ih, Reader.snd_read]
    rfl

theorem read_of_readable (hs : s = ⟨.file n, limit⟩) (h : Readable limit (d.read n) offset size) :
    s.read d offset size = (.ok (bytesAt (d.read n) offset size), []) := by
  subst hs
  have hlimit : ¬limit.toNat < offset.toNat + size.toNat := Nat.not_lt.2 h.recorded
  unfold read handle
  rw [Handle.read_eq, if_neg hlimit]
  by_cases hsize : size = 0
  · rw [if_pos hsize, hsize]
    rfl
  have hlength := length_bytesAt (h.present.resolve_left hsize)
  rw [if_neg hsize]
  dsimp only
  rw [if_neg (by omega)]

theorem read_of_not_readable (hs : s = ⟨.file n, limit⟩)
    (h : ¬Readable limit (d.read n) offset size) :
    s.read d offset size = (.error (.range offset size limit),
      if offset.toNat + size.toNat ≤ limit.toNat then [shrunkWarning] else []) := by
  subst hs
  unfold read handle
  rw [Handle.read_eq]
  by_cases hlimit : limit.toNat < offset.toNat + size.toNat
  · rw [if_pos hlimit, if_neg (Nat.not_le.2 hlimit)]
  have hwithin := Nat.not_lt.1 hlimit
  have hbounded := Nat.lt_of_le_of_lt hwithin limit.toNat_lt_size
  have hsize : size ≠ 0 := fun hsize => h ⟨hbounded, hwithin, .inl hsize⟩
  have hshort : ¬offset.toNat + size.toNat ≤ (d.read n).length := fun hin =>
    h ⟨hbounded, hwithin, .inr hin⟩
  have hpos : 0 < size.toNat := Nat.pos_of_ne_zero fun h => hsize (UInt64.toNat_inj.1 h)
  have hlength := length_bytesAt_eq_min (d.read n) offset size
  rw [if_neg hlimit, if_neg hsize, if_pos hwithin]
  dsimp only
  rw [if_pos (by omega)]

/-- What is recorded is the length of the file when it is opened. -/
theorem length_of_open? {path : List Char} (h : open? d path = .ok ⟨.file n, limit⟩) :
    limit = .ofNat (d.read n).length := by
  unfold open? at h
  cases hfind : d.find path with
  | error e =>
    rw [hfind] at h
    cases h
  | ok entry =>
    rw [hfind] at h
    cases entry with
    | directory => cases h
    | file m =>
      cases h
      rfl

/-- However a file changes after it was opened, and whatever was read before: a range that can be
read is given out whole, byte by byte as the file is now, and every other range is refused with the
recorded length, which is the length that the file had at first. -/
theorem reads_exactly (n : ℕ) (limit : UInt64) :
    let s : Source := ⟨.file n, limit⟩
    (∀ d path, open? d path = .ok s → limit = .ofNat (d.read n).length) ∧
      (∀ position visits,
        s.answers position visits = visits.map fun v => s.read v.disk v.offset v.size) ∧
      ∀ (d : Disk) (offset size : UInt64),
        (Readable limit (d.read n) offset size →
          ∃ data, s.read d offset size = (.ok data, []) ∧ data.length = size.toNat ∧
            ∀ i < size.toNat, data[i]? = (d.read n)[offset.toNat + i]?) ∧
        (¬Readable limit (d.read n) offset size →
          s.read d offset size = (.error (.range offset size limit),
            if offset.toNat + size.toNat ≤ limit.toNat then [shrunkWarning] else [])) := by
  intro s
  refine ⟨fun d path => length_of_open?, s.answers_eq_map, fun d offset size => ⟨fun h => ?_,
    read_of_not_readable rfl⟩⟩
  refine ⟨_, read_of_readable rfl h, ?_, fun i hi => ?_⟩
  · rcases h.present with rfl | hin
    · rfl
    · exact length_bytesAt hin
  · rw [bytesAt, List.getElem?_take_of_lt hi, List.getElem?_drop]

namespace Shrinking

/-- A disk with a single file. -/
def disk (bytes : List UInt8) : Disk := Disk.addFile {} ["f".toList] bytes

/-- The file as it is opened with five bytes. -/
def source : Source := ⟨.file 0, 5⟩

theorem readable : Readable 5 [9, 8, 7] 1 2 := ⟨by decide, by decide, .inr (by decide)⟩

theorem not_readable : ¬Readable 5 [9, 8, 7] 1 3 := fun h =>
  absurd h.present (by decide)

/-- A file that has become shorter, with other bytes in it, is read as far as it goes, before and
behind a range that is refused. -/
theorem shrunk_read :
    open? (disk [0, 1, 2, 3, 4]) "f".toList = .ok source ∧
      Readable 5 [9, 8, 7] 1 2 ∧ ¬Readable 5 [9, 8, 7] 1 3 ∧
      (∃ data, source.read (disk [9, 8, 7]) 1 2 = (.ok data, []) ∧ data.length = 2 ∧
        data[1]? = some 7) ∧
      source.read (disk [9, 8, 7]) 1 3 = (.error (.range 1 3 5), [shrunkWarning]) ∧
      source.answers 0 [⟨disk [9, 8, 7], 1, 2⟩, ⟨disk [9, 8, 7], 1, 3⟩, ⟨disk [9, 8, 7], 1, 2⟩] =
        [(.ok [8, 7], []), (.error (.range 1 3 5), [shrunkWarning]), (.ok [8, 7], [])] := by
  obtain ⟨-, hanswers, hread⟩ := reads_exactly 0 5
  have hopen : open? (disk [0, 1, 2, 3, 4]) "f".toList = .ok source := by decide
  obtain ⟨data, hdata, hlength, hbytes⟩ := (hread (disk [9, 8, 7]) 1 2).1 readable
  refine ⟨hopen, readable, not_readable, ⟨data, hdata, hlength, ?_⟩,
    (hread (disk [9, 8, 7]) 1 3).2 not_readable, ?_⟩
  · exact hbytes 1 (by decide)
  · exact (hanswers 0 _).trans (by decide)

end Shrinking

end PullIngest.Source
