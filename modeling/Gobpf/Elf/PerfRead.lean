import Mathlib.Data.List.TakeDrop
import Mathlib.Tactic.IntervalCases

/-!
# Reading one record from a perf ring

`perf_event_read`, the C helper of `PollStart`, reads the record at `data_tail` of a CPU's ring
into `state->buf`, wrapping around the end of the ring's data area, and advances `data_tail`.
`PollStart` then cuts the bytes of a `PERF_RECORD_SAMPLE` out of the buffer with
`C.GoBytes(&sample.data, sample.Size - 4)`.

The read is faithful: on a non-empty ring, the buffer starts with the `header.size` bytes at
`data_tail + k` modulo the ring's size, whether the record lies inside the data area, wraps past
its end or ends exactly at it (`perfEventRead_eq`). The cut is not: the kernel pads a raw sample
so that `Size` is `round_up(n + 4, 8) - 4` for a payload of `n` bytes, and `PollStart` subtracts 4
once more, so it keeps `round_up(n + 4, 8) - 8` bytes (`goBytesSample_sampleRecord`), fewer than
`n` exactly when `n % 8` is 1, 2, 3 or 4 (`sampleLength_lt_iff`).

The ring's counters are unbounded here: `data_tail` wraps at `2^64` only after as many bytes.
-/

namespace Gobpf.Elf

/-- `PERF_RECORD_SAMPLE`. -/
def perfRecordSample : Nat := 9

/-- The little-endian value of a sequence of bytes. -/
def leValue : List UInt8 → Nat
  | [] => 0
  | b :: bs => b.toNat + 256 * leValue bs

/-- The `k` little-endian bytes of `v`. -/
def leBytes : Nat → Nat → List UInt8
  | 0, _ => []
  | k + 1, v => UInt8.ofNat (v % 256) :: leBytes k (v / 256)

/-- The ring of one CPU as `perf_event_read` sees it: the page count and page size it is passed,
the `data_head` and `data_tail` of the header page, and the memory from the data area on. -/
structure PerfRing where
  pageCount : Nat
  pageSize : Nat
  dataHead : Nat
  dataTail : Nat
  data : Nat → UInt8

namespace PerfRing

/-- `raw_size`, the size of the data area. -/
def rawSize (r : PerfRing) : Nat := r.pageCount * r.pageSize

/-- `memcpy` of `len` bytes from offset `off` of the data area. -/
def copy (r : PerfRing) (off len : Nat) : List UInt8 :=
  (List.range len).map fun k => r.data (off + k)

/-- `e->header.size`: the `u16` at offset 6 of the header at `data_tail`. -/
def headerSize (r : PerfRing) : Nat :=
  leValue (r.copy (r.dataTail % r.rawSize + 6) 2)

/-- The `len` bytes from `data_tail` on, modulo the size of the data area. -/
def window (r : PerfRing) (len : Nat) : List UInt8 :=
  (List.range len).map fun k => r.data ((r.dataTail + k) % r.rawSize)

end PerfRing

/-- `perf_event_read`: the record type, the new contents of `state->buf`, and the ring after the
read; type `0` and nothing changed on an empty ring. A buffer shorter than the record is
reallocated to its size; a longer one keeps its bytes past the record. -/
def perfEventRead (r : PerfRing) (buf : List UInt8) : Nat × List UInt8 × PerfRing :=
  if r.dataHead = r.dataTail then (0, buf, r)
  else
    let rawSize := r.rawSize
    let beginPos := r.dataTail % rawSize
    let size := r.headerSize
    let endPos := (r.dataTail + size) % rawSize
    let record :=
      if endPos < beginPos then
        let len := rawSize - beginPos
        r.copy beginPos len ++ r.copy 0 (size - len)
      else r.copy beginPos size
    let buf := record ++ buf.drop size
    (leValue (buf.take 4), buf, { r with dataTail := r.dataTail + size })

/-- What `PollStart` sends for a sample in `state->buf`: `sample.Size - 4` in `uint32`, converted to
`C.int`, is the length `C.GoBytes` copies from `&sample.data`, at offset 12; `GoBytes` panics on a
negative length, and here past the end of the buffer. -/
def goBytesSample (buf : List UInt8) : Option (List UInt8) :=
  let size := (leValue ((buf.drop 8).take 4) + 2 ^ 32 - 4) % 2 ^ 32
  if 2 ^ 31 ≤ size then none
  else if 12 + size ≤ buf.length then some ((buf.drop 12).take size)
  else none

/-- `round_up(x, 8)`. -/
def roundUp8 (x : Nat) : Nat := (x + 7) / 8 * 8

/-- A `PERF_RECORD_SAMPLE` holding raw data as the kernel writes it: the header (type, `misc`,
size), the `u32` size of the raw data padded so that it and its size fill whole 8-byte words, the
payload, and zero padding. -/
def sampleRecord (misc : Nat) (payload : List UInt8) : List UInt8 :=
  let size := roundUp8 (payload.length + 4) - 4
  leBytes 4 perfRecordSample ++ leBytes 2 misc ++ leBytes 2 (12 + size) ++ leBytes 4 size ++
    payload ++ List.replicate (size - payload.length) 0

/-! ## Bytes -/

@[simp] theorem length_leBytes (k v : Nat) : (leBytes k v).length = k := by
  induction k generalizing v with
  | zero => rfl
  | succ k ih => simp [leBytes, ih]

theorem leValue_leBytes (k v : Nat) : leValue (leBytes k v) = v % 256 ^ k := by
  induction k generalizing v with
  | zero => simp [leBytes, leValue, Nat.mod_one]
  | succ k ih =>
    have hbyte : v % 256 % 2 ^ 8 = v % 256 := Nat.mod_eq_of_lt (Nat.mod_lt v (by decide))
    rw [leBytes, leValue, ih, UInt8.toNat_ofNat', hbyte, Nat.pow_succ', Nat.mod_mul]

/-- The value of the first bytes of a list that starts with a little-endian number. -/
theorem leValue_take_append (k v : Nat) (rest : List UInt8) :
    leValue ((leBytes k v ++ rest).take k) = v % 256 ^ k := by
  rw [List.take_left' (length_leBytes k v), leValue_leBytes]

/-! ## What `perf_event_read` copies -/

section Read
variable {r : PerfRing} {buf : List UInt8}

theorem perfEventRead_empty (h : r.dataHead = r.dataTail) : perfEventRead r buf = (0, buf, r) := by
  simp [perfEventRead, h]

theorem length_copy (r : PerfRing) (off len : Nat) : (r.copy off len).length = len := by
  simp [PerfRing.copy]

/-- Inside the data area, a copy from `data_tail % raw_size` is the window at `data_tail`. -/
theorem copy_eq_window (hfit : r.dataTail % r.rawSize + r.headerSize < r.rawSize) :
    r.copy (r.dataTail % r.rawSize) r.headerSize = r.window r.headerSize := by
  unfold PerfRing.copy PerfRing.window
  refine List.map_congr_left fun k hk => ?_
  have hk := List.mem_range.1 hk
  have hpos : (r.dataTail + k) % r.rawSize = r.dataTail % r.rawSize + k := by
    rw [Nat.add_mod, Nat.mod_eq_of_lt (show k < r.rawSize by omega), Nat.mod_eq_of_lt (by omega)]
  rw [hpos]

/-- Past the end of the data area, the two copies are the window at `data_tail`. -/
theorem copy_append_copy_eq_window (hraw : 0 < r.rawSize) (hsize : r.headerSize < r.rawSize)
    (hwrap : r.rawSize ≤ r.dataTail % r.rawSize + r.headerSize) :
    r.copy (r.dataTail % r.rawSize) (r.rawSize - r.dataTail % r.rawSize) ++
      r.copy 0 (r.headerSize - (r.rawSize - r.dataTail % r.rawSize)) =
      r.window r.headerSize := by
  have hlt := Nat.mod_lt r.dataTail hraw
  set b := r.dataTail % r.rawSize with hb
  set len := r.rawSize - b
  have hsplit : List.range r.headerSize =
      List.range len ++ (List.range (r.headerSize - len)).map (len + ·) := by
    rw [← List.range_add, show len + (r.headerSize - len) = r.headerSize by omega]
  rw [PerfRing.window, hsplit, List.map_append, List.map_map]
  congr 1
  · refine List.map_congr_left fun k hk => ?_
    have hk := List.mem_range.1 hk
    have hpos : (r.dataTail + k) % r.rawSize = b + k := by
      rw [Nat.add_mod, ← hb, Nat.mod_eq_of_lt (show k < r.rawSize by omega),
        Nat.mod_eq_of_lt (by omega)]
    rw [hpos]
  · refine List.map_congr_left fun k hk => ?_
    have hk := List.mem_range.1 hk
    have hwr : (r.dataTail + (len + k)) % r.rawSize = k := by
      have hk' : k < r.rawSize := by omega
      rw [Nat.add_mod, ← hb, Nat.mod_eq_of_lt (show len + k < r.rawSize by omega),
        show b + (len + k) = k + r.rawSize by omega, Nat.add_mod_right, Nat.mod_eq_of_lt hk']
    simp [hwr]

/-- **`perf_event_read` is faithful.** On a non-empty ring whose record at `data_tail` is shorter
than the data area, it returns the type at the start of the record, fills the buffer with the
record's bytes at `data_tail + k` modulo the size of the data area, and advances `data_tail` by
the record's size. -/
theorem perfEventRead_eq (hne : r.dataHead ≠ r.dataTail) (hraw : 0 < r.rawSize)
    (hsize : r.headerSize < r.rawSize) :
    perfEventRead r buf =
      (leValue ((r.window r.headerSize ++ buf.drop r.headerSize).take 4),
        r.window r.headerSize ++ buf.drop r.headerSize,
        { r with dataTail := r.dataTail + r.headerSize }) := by
  have hlt := Nat.mod_lt r.dataTail hraw
  have hrecord : (if (r.dataTail + r.headerSize) % r.rawSize < r.dataTail % r.rawSize then
      r.copy (r.dataTail % r.rawSize) (r.rawSize - r.dataTail % r.rawSize) ++
        r.copy 0 (r.headerSize - (r.rawSize - r.dataTail % r.rawSize))
      else r.copy (r.dataTail % r.rawSize) r.headerSize) = r.window r.headerSize := by
    have hend : (r.dataTail + r.headerSize) % r.rawSize =
        if r.dataTail % r.rawSize + r.headerSize < r.rawSize then
          r.dataTail % r.rawSize + r.headerSize
        else r.dataTail % r.rawSize + r.headerSize - r.rawSize := by
      rw [Nat.add_mod, Nat.mod_eq_of_lt hsize]
      split_ifs with h
      · exact Nat.mod_eq_of_lt h
      · rw [Nat.mod_eq_sub_mod (by omega), Nat.mod_eq_of_lt (by omega)]
    by_cases hfit : r.dataTail % r.rawSize + r.headerSize < r.rawSize
    · rw [if_neg (by rw [hend, if_pos hfit]; omega)]
      exact copy_eq_window hfit
    · rw [if_pos (by rw [hend, if_neg hfit]; omega)]
      exact copy_append_copy_eq_window hraw hsize (by omega)
  simp only [perfEventRead, if_neg hne]
  rw [hrecord]

end Read

/-! ## What `PollStart` keeps of a sample -/

theorem roundUp8_ge (x : Nat) : x ≤ roundUp8 x := by
  unfold roundUp8
  omega

theorem roundUp8_lt (x : Nat) : roundUp8 x < x + 8 := by
  unfold roundUp8
  omega

/-- The raw size of a sample of `n` bytes is at least 4 and leaves room for the payload. -/
theorem sampleSize_bounds (n : Nat) :
    4 ≤ roundUp8 (n + 4) - 4 ∧ n ≤ roundUp8 (n + 4) - 4 := by
  unfold roundUp8
  omega

@[simp] theorem length_sampleRecord (misc : Nat) (p : List UInt8) :
    (sampleRecord misc p).length = 12 + (roundUp8 (p.length + 4) - 4) := by
  have := (sampleSize_bounds p.length).2
  simp only [sampleRecord, List.length_append, length_leBytes, List.length_replicate]
  omega

/-- The fields of a sample record: the type and `misc`, the size of the record, `sample.Size`, and
the padded payload. -/
theorem sampleRecord_eq (misc : Nat) (p : List UInt8) :
    sampleRecord misc p =
      (leBytes 4 perfRecordSample ++ leBytes 2 misc) ++
        (leBytes 2 (12 + (roundUp8 (p.length + 4) - 4)) ++
          (leBytes 4 (roundUp8 (p.length + 4) - 4) ++
            (p ++ List.replicate (roundUp8 (p.length + 4) - 4 - p.length) 0))) := by
  simp [sampleRecord, List.append_assoc]

/-- The size in the header of a sample record is the record's length. -/
theorem sampleRecord_size (misc : Nat) (p : List UInt8) (hp : (sampleRecord misc p).length < 2 ^ 16) :
    leValue (((sampleRecord misc p).drop 6).take 2) = (sampleRecord misc p).length := by
  rw [length_sampleRecord] at hp ⊢
  rw [sampleRecord_eq, List.drop_left' (by simp), leValue_take_append,
    Nat.mod_eq_of_lt (by simpa using hp)]

/-- **What `PollStart` keeps of a sample**: the first `round_up(n + 4, 8) - 8` bytes of the padded
payload. -/
theorem goBytesSample_sampleRecord (misc : Nat) (p rest : List UInt8) (hp : p.length + 8 < 2 ^ 31) :
    goBytesSample (sampleRecord misc p ++ rest) =
      some ((p ++ List.replicate (roundUp8 (p.length + 4) - 4 - p.length) 0).take
        (roundUp8 (p.length + 4) - 8)) := by
  obtain ⟨h4, hn⟩ := sampleSize_bounds p.length
  have hr := roundUp8_lt (p.length + 4)
  set S := roundUp8 (p.length + 4) - 4 with hS
  set body := p ++ List.replicate (S - p.length) 0
  have hbody : body.length = S := by simp [body]; omega
  have hlayout : sampleRecord misc p ++ rest =
      (leBytes 4 perfRecordSample ++ leBytes 2 misc ++ leBytes 2 (12 + S)) ++
        (leBytes 4 S ++ (body ++ rest)) := by
    rw [sampleRecord_eq]
    simp only [List.append_assoc, hS, body]
  have hsize : leValue (((sampleRecord misc p ++ rest).drop 8).take 4) = S := by
    rw [hlayout, List.drop_left' (by simp), leValue_take_append, Nat.mod_eq_of_lt (by omega)]
  have hdata : (sampleRecord misc p ++ rest).drop 12 = body ++ rest := by
    rw [hlayout, ← List.append_assoc]
    exact List.drop_left' (by simp)
  have hlen : (sampleRecord misc p ++ rest).length = 12 + S + rest.length := by
    rw [hlayout]
    simp only [List.length_append, length_leBytes, hbody]
    omega
  have hcut : (S + 2 ^ 32 - 4) % 2 ^ 32 = roundUp8 (p.length + 4) - 8 := by omega
  simp only [goBytesSample, hsize, hcut, hdata, hlen]
  rw [if_neg (by omega), if_pos (by omega), List.take_append_of_le_length (by omega)]

/-- The bytes kept are fewer than the payload exactly when `n % 8` is 1, 2, 3 or 4. -/
theorem sampleLength_lt_iff (n : Nat) :
    roundUp8 (n + 4) - 8 < n ↔ n % 8 = 1 ∨ n % 8 = 2 ∨ n % 8 = 3 ∨ n % 8 = 4 := by
  unfold roundUp8
  omega

/-- The bytes `PollStart` sends for a sample start with its payload exactly when `n % 8` is not
1, 2, 3 or 4. -/
theorem payload_prefix_goBytesSample_iff (misc : Nat) (p rest s : List UInt8)
    (hp : p.length + 8 < 2 ^ 31) (hs : goBytesSample (sampleRecord misc p ++ rest) = some s) :
    p <+: s ↔ ¬ (p.length % 8 = 1 ∨ p.length % 8 = 2 ∨ p.length % 8 = 3 ∨ p.length % 8 = 4) := by
  obtain ⟨-, hn⟩ := sampleSize_bounds p.length
  rw [goBytesSample_sampleRecord misc p rest hp, Option.some.injEq] at hs
  subst hs
  rw [← sampleLength_lt_iff, Nat.not_lt]
  constructor
  · intro h
    have hle := h.length_le
    rw [List.length_take, List.length_append, List.length_replicate] at hle
    omega
  · intro h
    rw [List.take_append, List.take_of_length_le h]
    exact List.prefix_append _ _

/-! ## A sample read from the ring -/

theorem window_take (r : PerfRing) {m n : Nat} (h : m ≤ n) : (r.window n).take m = r.window m := by
  rw [PerfRing.window, ← List.map_take, List.take_range, Nat.min_eq_left h, PerfRing.window]

/-- The size in a header that lies inside the data area is read from the window. -/
theorem headerSize_eq (r : PerfRing) (hhdr : r.dataTail % r.rawSize + 8 ≤ r.rawSize) {n : Nat}
    (hn : 8 ≤ n) : r.headerSize = leValue (((r.window n).drop 6).take 2) := by
  have hpos : ∀ k < 8, (r.dataTail + k) % r.rawSize = r.dataTail % r.rawSize + k := by
    intro k hk
    rw [Nat.add_mod, Nat.mod_eq_of_lt (show k < r.rawSize by omega), Nat.mod_eq_of_lt (by omega)]
  have h8 : ((r.window n).drop 6).take 2 = ((r.window 8).drop 6).take 2 := by
    rw [← window_take r hn, List.drop_take, List.take_take]
    rfl
  rw [h8]
  simp only [PerfRing.headerSize, PerfRing.copy, PerfRing.window]
  simp [List.range_succ, hpos, Nat.add_assoc]

/-- **The bytes `PollStart` sends for a sample read from the ring.** When the ring holds a sample
record at `data_tail`, `perf_event_read` returns `PERF_RECORD_SAMPLE` and advances past the
record, and the bytes sent are the first `round_up(n + 4, 8) - 8` bytes of the padded payload. -/
theorem perfEventRead_sampleRecord {r : PerfRing} {buf : List UInt8} {misc : Nat}
    {p : List UInt8} (hne : r.dataHead ≠ r.dataTail) (h8 : 8 ∣ r.dataTail) (hraw8 : 8 ∣ r.rawSize)
    (hrec : r.window (sampleRecord misc p).length = sampleRecord misc p)
    (hsize : (sampleRecord misc p).length < r.rawSize)
    (hp : (sampleRecord misc p).length < 2 ^ 16) :
    (perfEventRead r buf).1 = perfRecordSample ∧
      (perfEventRead r buf).2.2.dataTail = r.dataTail + (sampleRecord misc p).length ∧
      goBytesSample (perfEventRead r buf).2.1 =
        some ((p ++ List.replicate (roundUp8 (p.length + 4) - 4 - p.length) 0).take
          (roundUp8 (p.length + 4) - 8)) := by
  have hraw : 0 < r.rawSize := by omega
  have hhdr : r.dataTail % r.rawSize + 8 ≤ r.rawSize := by
    have hlt := Nat.mod_lt r.dataTail hraw
    have hdvd : 8 ∣ r.dataTail % r.rawSize := (Nat.dvd_mod_iff hraw8).2 h8
    omega
  have h12 : 12 ≤ (sampleRecord misc p).length := by simp
  have hsz : r.headerSize = (sampleRecord misc p).length := by
    rw [headerSize_eq r hhdr (show 8 ≤ (sampleRecord misc p).length by omega), hrec]
    exact sampleRecord_size misc p hp
  rw [perfEventRead_eq hne hraw (by omega), hsz, hrec]
  refine ⟨?_, rfl, goBytesSample_sampleRecord misc p _ ?_⟩
  · rw [sampleRecord_eq, List.append_assoc, List.append_assoc, leValue_take_append]
    rfl
  · have hge := roundUp8_ge (p.length + 4)
    rw [length_sampleRecord] at hp
    omega

/-- A sample of four bytes that ends exactly at the end of a one-page ring: `perf_event_read`
reads it whole, as a `PERF_RECORD_SAMPLE`, and `PollStart` sends none of its payload. -/
theorem goBytesSample_four_byte_payload :
    (perfEventRead ⟨1, 4096, 4096, 4080, fun i => (sampleRecord 0 [1, 2, 3, 4]).getD (i - 4080) 0⟩
      []).1 = perfRecordSample ∧
    (perfEventRead ⟨1, 4096, 4096, 4080, fun i => (sampleRecord 0 [1, 2, 3, 4]).getD (i - 4080) 0⟩
      []).2.1 = sampleRecord 0 [1, 2, 3, 4] ∧
    goBytesSample (perfEventRead ⟨1, 4096, 4096, 4080,
      fun i => (sampleRecord 0 [1, 2, 3, 4]).getD (i - 4080) 0⟩ []).2.1 = some [] := by
  decide

end Gobpf.Elf
