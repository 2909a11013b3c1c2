import Mathlib.Data.List.ReduceOption
import Gobpf.Elf.PerfRead
import Gobpf.Data.Circular

/-!
# A perf ring is a queue of records

The kernel outputs records to a CPU's perf ring at `data_head`, and `perf_event_read` reads them
at `data_tail`; both positions grow without bound and index the data area modulo its size. This
module proves that the two, interleaved in any order, implement a queue: every read returns the
oldest record not yet read, or `0` when there is none.

The kernel's side is `kernelOutput`: a record is written at `data_head` when the ring has room for
it beyond `data_tail`, and is dropped otherwise. `Holds r q` lays the records `q` out in the ring
`r`, oldest first, from `data_tail` to `data_head`; each is a record as the kernel writes it
(`WellFormedRecord`): an 8-byte header with a type other than 0 and its own length as
`header.size`, in whole 8-byte words.

* an output appends the record to `q` when it fits (`Holds.output`), by `Circular.read_write_append`;
* a read of a ring that holds `rec :: q` returns the type of `rec` with `rec` at the start of
  `state->buf`, and leaves a ring that holds `q` (`Holds.read_cons`); on a ring that holds no
  record it returns `0` (`Holds.read_nil`).

Over every sequence of outputs and reads the reads agree one by one with the pops of a queue with
room for the size of the data area (`ringRun_refines`), which delivers every record it accepted once
and in order (`queueRun_conserves`).
-/

namespace Gobpf.Elf

/-- A record as the kernel writes it to a ring of `rawSize` bytes: its header, whose type is not
`0` and whose `size` is the record's length, and whole 8-byte words, fewer than the ring holds. -/
structure WellFormedRecord (rawSize : Nat) (rec : List UInt8) : Prop where
  header_le : 8 ≤ rec.length
  aligned : 8 ∣ rec.length
  lt_rawSize : rec.length < rawSize
  type_ne_zero : leValue (rec.take 4) ≠ 0
  size_eq : leValue ((rec.drop 6).take 2) = rec.length

/-- The kernel's output of a record to the ring: written at `data_head`, modulo the size of the
data area, with `data_head` moved past it, when the ring has room for it beyond `data_tail`. A
record without room is dropped; the kernel counts it and reports the count later in a
`PERF_RECORD_LOST`, which is an output of its own. -/
def kernelOutput (r : PerfRing) (rec : List UInt8) : PerfRing :=
  if r.dataHead - r.dataTail + rec.length ≤ r.rawSize then
    { r with
      data := Circular.write r.rawSize r.data r.dataHead rec
      dataHead := r.dataHead + rec.length }
  else r

/-- The ring holds the records `q`, oldest first: they fill the data area from `data_tail` to
`data_head`, modulo its size. -/
structure Holds (r : PerfRing) (q : List (List UInt8)) : Prop where
  rawSize_pos : 0 < r.rawSize
  rawSize_aligned : 8 ∣ r.rawSize
  tail_le : r.dataTail ≤ r.dataHead
  tail_aligned : 8 ∣ r.dataTail
  used_le : r.dataHead - r.dataTail ≤ r.rawSize
  contents : r.window (r.dataHead - r.dataTail) = q.flatten
  records : ∀ rec ∈ q, WellFormedRecord r.rawSize rec

/-! ## The queue the ring implements -/

/-- An output to the queue of records with room for `capacity` bytes: appended when it fits. -/
def queuePush (capacity : Nat) (q : List (List UInt8)) (rec : List UInt8) : List (List UInt8) :=
  if q.flatten.length + rec.length ≤ capacity then q ++ [rec] else q

/-- What happens to one ring: the kernel outputs a record, or `perf_event_read` reads. -/
inductive RingEvent where
  | output (rec : List UInt8)
  | read

/-- The reads of the queue over a sequence of events: the oldest record, if there is one. -/
def queueRun (capacity : Nat) : List RingEvent → List (List UInt8) → List (Option (List UInt8))
  | [], _ => []
  | .output rec :: evs, q => queueRun capacity evs (queuePush capacity q rec)
  | .read :: evs, q => q.head? :: queueRun capacity evs q.tail

/-- The queue after a sequence of events. -/
def queueAfter (capacity : Nat) : List RingEvent → List (List UInt8) → List (List UInt8)
  | [], q => q
  | .output rec :: evs, q => queueAfter capacity evs (queuePush capacity q rec)
  | .read :: evs, q => queueAfter capacity evs q.tail

/-- The records of a sequence of events that the queue accepts. -/
def queueAccepted (capacity : Nat) : List RingEvent → List (List UInt8) → List (List UInt8)
  | [], _ => []
  | .output rec :: evs, q =>
    (if q.flatten.length + rec.length ≤ capacity then [rec] else []) ++
      queueAccepted capacity evs (queuePush capacity q rec)
  | .read :: evs, q => queueAccepted capacity evs q.tail

/-- **The queue loses and repeats nothing.** The records read, followed by those left, are the
records held at the start followed by those accepted. The induction is on the events, with the
queue generalised. -/
theorem queueRun_conserves (capacity : Nat) :
    ∀ (evs : List RingEvent) (q : List (List UInt8)),
      (queueRun capacity evs q).reduceOption ++ queueAfter capacity evs q =
        q ++ queueAccepted capacity evs q
  | [], q => by simp [queueRun, queueAfter, queueAccepted, List.reduceOption]
  | .output rec :: evs, q => by
    have ih := queueRun_conserves capacity evs (queuePush capacity q rec)
    simp only [queueRun, queueAfter, queueAccepted]
    rw [ih]
    unfold queuePush
    split_ifs <;> simp
  | .read :: evs, [] => by
    have ih := queueRun_conserves capacity evs []
    simp only [queueRun, queueAfter, queueAccepted, List.head?_nil, List.tail_nil,
      List.reduceOption_cons_of_none]
    exact ih
  | .read :: evs, rec :: q => by
    have ih := queueRun_conserves capacity evs q
    simp only [queueRun, queueAfter, queueAccepted, List.head?_cons, List.tail_cons]
    rw [List.reduceOption_cons_of_some, List.cons_append, ih, List.cons_append]

/-! ## The ring -/

/-- The concrete run: what each `perf_event_read` returns, its type and `state->buf`. -/
def ringRun : List RingEvent → PerfRing → List UInt8 → List (Nat × List UInt8)
  | [], _, _ => []
  | .output rec :: evs, r, buf => ringRun evs (kernelOutput r rec) buf
  | .read :: evs, r, buf =>
    match perfEventRead r buf with
    | (type, buf', r') => (type, buf') :: ringRun evs r' buf'

/-- A read of the ring agrees with a read of the queue: `0` when the queue is empty, and
otherwise the type of its oldest record, with that record at the start of `state->buf`. -/
def ReadAgrees : Nat × List UInt8 → Option (List UInt8) → Prop
  | (type, _), none => type = 0
  | (type, buf), some rec => type = leValue (rec.take 4) ∧ rec <+: buf

theorem window_eq_read (r : PerfRing) (len : Nat) :
    r.window len = Circular.read r.data r.rawSize r.dataTail len := rfl

@[simp] theorem length_window (r : PerfRing) (len : Nat) : (r.window len).length = len := by
  simp [PerfRing.window]

@[simp] theorem rawSize_kernelOutput (r : PerfRing) (rec : List UInt8) :
    (kernelOutput r rec).rawSize = r.rawSize := by
  unfold kernelOutput
  split_ifs <;> rfl

@[simp] theorem rawSize_perfEventRead (r : PerfRing) (buf : List UInt8) :
    (perfEventRead r buf).2.2.rawSize = r.rawSize := by
  unfold perfEventRead
  split_ifs <;> rfl

section Holds
variable {r : PerfRing} {q : List (List UInt8)} {rec : List UInt8}

/-- The bytes between `data_tail` and `data_head` are those of the records held. -/
theorem Holds.used_eq (h : Holds r q) : r.dataHead - r.dataTail = q.flatten.length := by
  simpa using congrArg List.length h.contents

/-- Step: an output keeps the layout, and appends the record to the queue when it fits. -/
theorem Holds.output (h : Holds r q) (hrec : WellFormedRecord r.rawSize rec) :
    Holds (kernelOutput r rec) (queuePush r.rawSize q rec) := by
  have hused := h.used_eq
  unfold kernelOutput queuePush
  by_cases hroom : r.dataHead - r.dataTail + rec.length ≤ r.rawSize
  · rw [if_pos hroom, if_pos (by omega)]
    have htl := h.tail_le
    have hlen : r.dataHead + rec.length - r.dataTail = r.dataHead - r.dataTail + rec.length := by
      omega
    refine ⟨h.rawSize_pos, h.rawSize_aligned, show r.dataTail ≤ r.dataHead + rec.length by omega,
      h.tail_aligned, show r.dataHead + rec.length - r.dataTail ≤ r.rawSize by omega, ?_, ?_⟩
    · change Circular.read (Circular.write r.rawSize r.data r.dataHead rec) r.rawSize r.dataTail
        (r.dataHead + rec.length - r.dataTail) = (q ++ [rec]).flatten
      rw [hlen, Circular.read_write_append h.tail_le hroom, ← window_eq_read, h.contents]
      simp
    · intro rec' hrec'
      rcases List.mem_append.1 hrec' with hq | hnew
      · exact h.records rec' hq
      · rw [List.mem_singleton.1 hnew]
        exact hrec
  · rw [if_neg hroom, if_neg (by omega)]
    exact h

/-- A ring that holds no record is empty: `perf_event_read` returns `0` and changes nothing. -/
theorem Holds.read_nil (h : Holds r []) (buf : List UInt8) : perfEventRead r buf = (0, buf, r) := by
  have hused := h.used_eq
  have := h.tail_le
  exact perfEventRead_empty (by simp at hused; omega)

/-- The header at an 8-aligned `data_tail` of an 8-aligned ring lies inside the data area. -/
theorem Holds.header_inside (h : Holds r q) : r.dataTail % r.rawSize + 8 ≤ r.rawSize := by
  have hlt := Nat.mod_lt r.dataTail h.rawSize_pos
  have hdvd : 8 ∣ r.dataTail % r.rawSize := (Nat.dvd_mod_iff h.rawSize_aligned).2 h.tail_aligned
  have := h.rawSize_aligned
  omega

/-- Step: a read of a ring that holds `rec :: q` returns the type of `rec` and puts `rec` at the
start of `state->buf`, and the ring then holds `q`. -/
theorem Holds.read_cons (h : Holds r (rec :: q)) (buf : List UInt8) :
    perfEventRead r buf = (leValue (rec.take 4), rec ++ buf.drop rec.length,
        { r with dataTail := r.dataTail + rec.length }) ∧
      Holds { r with dataTail := r.dataTail + rec.length } q := by
  have hwf := h.records rec List.mem_cons_self
  have h8 := hwf.header_le
  have htl := h.tail_le
  have hused := h.used_eq
  have hwin : r.window (r.dataHead - r.dataTail) = rec ++ q.flatten := by
    rw [h.contents, List.flatten_cons]
  have hle : rec.length ≤ r.dataHead - r.dataTail := by simp [hused]
  have hrec : r.window rec.length = rec := by
    rw [← window_take r hle, hwin, List.take_left' rfl]
  have hsz : r.headerSize = rec.length := by
    rw [headerSize_eq r h.header_inside (show 8 ≤ r.dataHead - r.dataTail by omega), hwin,
      List.drop_append_of_le_length (by omega),
      List.take_append_of_le_length (by simp; omega), hwf.size_eq]
  have hne : r.dataHead ≠ r.dataTail := by omega
  have hread := @perfEventRead_eq r buf hne h.rawSize_pos (hsz ▸ hwf.lt_rawSize)
  rw [hsz, hrec, List.take_append_of_le_length (by omega)] at hread
  refine ⟨hread, ?_⟩
  have hrest : Circular.read r.data r.rawSize (r.dataTail + rec.length)
      (r.dataHead - r.dataTail - rec.length) = q.flatten := by
    have hsplit := Circular.read_add r.data r.rawSize r.dataTail rec.length
      (r.dataHead - r.dataTail - rec.length)
    rw [Nat.add_sub_cancel' hle, ← window_eq_read, ← window_eq_read, hwin, hrec] at hsplit
    exact (List.append_cancel_left hsplit).symm
  refine ⟨h.rawSize_pos, h.rawSize_aligned, show r.dataTail + rec.length ≤ r.dataHead by omega,
    Nat.dvd_add h.tail_aligned hwf.aligned,
    show r.dataHead - (r.dataTail + rec.length) ≤ r.rawSize by have := h.used_le; omega, ?_,
    fun rec' hrec' => h.records rec' (List.mem_cons_of_mem _ hrec')⟩
  · change Circular.read r.data r.rawSize (r.dataTail + rec.length)
      (r.dataHead - (r.dataTail + rec.length)) = q.flatten
    rw [← Nat.sub_sub, hrest]

end Holds

/-- **The ring implements the queue.** From a ring that holds `q`, over every sequence of outputs
of well-formed records and reads, in any order, each `perf_event_read` agrees with the read of the
queue with room for the data area: it returns `0` exactly when the queue is empty, and otherwise
the type of the queue's oldest record with that record at the start of `state->buf`. The
induction is on the events, with `Holds` as the invariant. -/
theorem ringRun_refines :
    ∀ (evs : List RingEvent) {r : PerfRing} {q : List (List UInt8)} (buf : List UInt8),
      Holds r q → (∀ rec, RingEvent.output rec ∈ evs → WellFormedRecord r.rawSize rec) →
      List.Forall₂ ReadAgrees (ringRun evs r buf) (queueRun r.rawSize evs q)
  | [], _, _, _, _, _ => .nil
  | .output rec :: evs, r, q, buf, h, hrecs => by
    have hout := h.output (hrecs rec List.mem_cons_self)
    have ih := ringRun_refines evs buf hout fun rec' hrec' => by
      rw [rawSize_kernelOutput]
      exact hrecs rec' (List.mem_cons_of_mem _ hrec')
    simpa [ringRun, queueRun] using ih
  | .read :: evs, r, q, buf, h, hrecs => by
    have hrecs' : ∀ rec, RingEvent.output rec ∈ evs → WellFormedRecord r.rawSize rec :=
      fun rec hrec => hrecs rec (List.mem_cons_of_mem _ hrec)
    cases q with
    | nil =>
      have ih := ringRun_refines evs buf h hrecs'
      simp only [ringRun, queueRun, h.read_nil buf, List.head?_nil, List.tail_nil]
      exact .cons rfl ih
    | cons rec q =>
      obtain ⟨hread, hnext⟩ := h.read_cons buf
      have ih := ringRun_refines evs (rec ++ buf.drop rec.length) hnext hrecs'
      simp only [ringRun, queueRun, hread, List.head?_cons, List.tail_cons]
      exact .cons ⟨rfl, List.prefix_append _ _⟩ ih

/-- A ring of 64 bytes, empty with its head and tail at offset 56, to which the kernel writes two
samples of four bytes, read three times: the first sample lies across the end of the data area,
bytes 56 to 63 and 0 to 7; the reads return the two samples, then `0`. -/
theorem ringRun_refines_wrap :
    Holds ⟨1, 64, 56, 56, fun _ => 0⟩ [] ∧
      (∀ rec, RingEvent.output rec ∈ [.output (sampleRecord 0 [1, 2, 3, 4]),
          .output (sampleRecord 0 [5, 6, 7, 8]), .read, .read, .read] →
        WellFormedRecord (PerfRing.rawSize ⟨1, 64, 56, 56, fun _ => 0⟩) rec) ∧
      List.Forall₂ ReadAgrees
        (ringRun [.output (sampleRecord 0 [1, 2, 3, 4]), .output (sampleRecord 0 [5, 6, 7, 8]),
          .read, .read, .read] ⟨1, 64, 56, 56, fun _ => 0⟩ [])
        (queueRun (PerfRing.rawSize ⟨1, 64, 56, 56, fun _ => 0⟩)
          [.output (sampleRecord 0 [1, 2, 3, 4]), .output (sampleRecord 0 [5, 6, 7, 8]),
            .read, .read, .read] []) := by
  have hempty : Holds ⟨1, 64, 56, 56, fun _ => 0⟩ [] :=
    ⟨by decide, by decide, le_refl _, by decide, by decide, rfl, nofun⟩
  have hrecs : ∀ rec, RingEvent.output rec ∈ [.output (sampleRecord 0 [1, 2, 3, 4]),
      .output (sampleRecord 0 [5, 6, 7, 8]), .read, .read, .read] →
      WellFormedRecord (PerfRing.rawSize ⟨1, 64, 56, 56, fun _ => 0⟩) rec := by
    intro rec hrec
    obtain rfl | rfl : rec = sampleRecord 0 [1, 2, 3, 4] ∨ rec = sampleRecord 0 [5, 6, 7, 8] := by
      simpa using hrec
    · exact ⟨by decide, by decide, by decide, by decide, by decide⟩
    · exact ⟨by decide, by decide, by decide, by decide, by decide⟩
  exact ⟨hempty, hrecs, ringRun_refines _ [] hempty hrecs⟩

end Gobpf.Elf
