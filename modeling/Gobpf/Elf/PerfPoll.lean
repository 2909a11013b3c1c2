import Mathlib.Logic.Relation
import Mathlib.Logic.Function.Basic

/-!
# The polling goroutine of `PerfMap.PollStart`

`PerfMap.PollStart` (`src/elf/perf.go:154`) starts a goroutine that drains the per-CPU perf rings
of a map into the buffer `incoming` (an `OrderedBytesArray`), sorts it by the timestamp callback
that `SetTimestampFunc` registered, and sends on `receiverChan` every record not later than the
time `nowNanoseconds` returned when the harvest began. The rest waits for a later harvest.

The goroutine is modelled as a step relation `Step` on its control point and variables
(`PollState`), interleaved in any order with the kernel's writes to the rings and with
`PollStop`. The kernel's writes keep two assumptions on the timestamps of samples: each ring
receives them in non-decreasing order (`ringFloor`), and a sample stamped at most `T` is written
before `nowNanoseconds` returns `T` (`settled`). From these, every run keeps

* `OrderInv`: what has been sent is sorted, and nothing still in `incoming` or in a ring is
  earlier than it. The phase of the harvest (`PhaseInv`) records which rings hold only samples
  later than `beforeHarvest`;
* `Conserved`: every sample read from a ring has been sent once or is still in `incoming`, and
  without a timestamp callback in the order it was read;

and `pollStart_ordered_lossless` assembles them over every reachable state.
-/

namespace Gobpf.Elf

variable {α : Type}

/-! ## The model -/

/-- A record of a perf ring, told apart by the `header.type` that `perf_event_read` returns
(`src/elf/perf.go:204`). The kernel writes no record of type 0, so the `case 0` of the switch is
taken only on an empty ring. -/
inductive PerfRecord (α : Type) where
  /-- `PERF_RECORD_SAMPLE`, with the bytes `C.GoBytes` copies out of it. -/
  | sample (data : α)
  /-- `PERF_RECORD_LOST`, with its count `lost.Lost`. -/
  | lost (lost : Nat)
  /-- Any other record type; the goroutine ignores it. -/
  | other (type : Nat)

/-- The fields of the `PerfMap` and of its `Map` that the goroutine reads. -/
structure PerfMapPoll (α : Type) where
  /-- `len(m.pmuFDs)`, the number of rings. -/
  cpuCount : Nat
  /-- `pm.timestamp`, the callback of `SetTimestampFunc`, if one was registered. -/
  timestamp : Option (α → Nat)
  /-- `pm.lostChan != nil`. -/
  lostChan : Bool

/-- The control points of the goroutine. -/
inductive PollPc where
  /-- The top of the outer `for`: the `select` on `pollStop` and `perfEventPoll`. -/
  | poll
  /-- The top of `harvestLoop`. -/
  | harvest
  /-- `ringBufferLoop` on ring `cpu`; past the last ring, the end of the `for cpu` loop. -/
  | read (cpu : Nat)
  /-- Blocked in `pm.lostChan <- lost.Lost` while reading ring `cpu`. -/
  | sendLost (cpu lost : Nat)
  /-- The `sort.Sort(incoming)` after the rings are drained. -/
  | sort
  /-- The `for incoming.Len() > 0` loop that sends on `receiverChan`. -/
  | send
  /-- The goroutine has returned. -/
  | done

/-- The goroutine's variables, the rings, and the channels as the logs of what was sent on them.
`consumed`, `settled` and `ringFloor` are ghost state: the samples read so far with their ring,
and the two bounds that the kernel's writes respect. -/
structure PollState (α : Type) where
  rings : Nat → List (PerfRecord α)
  incoming : List α
  sent : List α
  lostSent : List Nat
  pc : PollPc
  stopped : Bool
  beforeHarvest : Nat
  harvestCount : Nat
  consumed : List (Nat × α)
  settled : Nat
  ringFloor : Nat → Nat

/-- The state in which `PollStart` starts the goroutine: empty rings and buffers. -/
def pollStart : PollState α where
  rings := fun _ => []
  incoming := []
  sent := []
  lostSent := []
  pc := .poll
  stopped := false
  beforeHarvest := 0
  harvestCount := 0
  consumed := []
  settled := 0
  ringFloor := fun _ => 0

/-- Where `ringBufferLoop` goes after appending sample `b`: `continue` without a timestamp
callback or for a sample not later than `beforeHarvest`, and `break` to the next ring for a
later one. -/
def afterSample (P : PerfMapPoll α) (beforeHarvest cpu : Nat) (b : α) : PollPc :=
  match P.timestamp with
  | none => .read cpu
  | some f => if beforeHarvest < f b then .read (cpu + 1) else .read cpu

theorem afterSample_ne_done (P : PerfMapPoll α) (T cpu : Nat) (b : α) :
    afterSample P T cpu b ≠ .done := by
  unfold afterSample
  split
  · nofun
  · split <;> nofun

/-- The head of `incoming` may be sent: there is no callback, or it is not later than
`beforeHarvest` (`src/elf/perf.go:237`). -/
def Due (P : PerfMapPoll α) (beforeHarvest : Nat) (b : α) : Prop :=
  ∀ f, P.timestamp = some f → f b ≤ beforeHarvest

/-- `l` is sorted by the timestamps `f`. -/
def SortedBy (f : α → Nat) (l : List α) : Prop :=
  l.Pairwise (fun a b => f a ≤ f b)

/-- What `if incoming.timestamp != nil { sort.Sort(incoming) }` may leave in `incoming`.
`sort.Sort` is not stable and promises only a permutation ordered by `Less`. -/
def SortResult (P : PerfMapPoll α) (l l' : List α) : Prop :=
  match P.timestamp with
  | none => l' = l
  | some f => l'.Perm l ∧ SortedBy f l'

/-- The bound on a ring's next sample after the kernel wrote `r` to it. -/
def floorAfter (P : PerfMapPoll α) (floor : Nat) : PerfRecord α → Nat
  | .sample b => P.timestamp.elim floor (· b)
  | _ => floor

/-- A write of `r` the kernel may make to a ring whose last sample is bounded by `floor`: a
sample is not earlier than that one, nor than any time `nowNanoseconds` has returned. -/
def Writable (P : PerfMapPoll α) (settled floor : Nat) : PerfRecord α → Prop
  | .sample b => ∀ f, P.timestamp = some f → settled ≤ f b ∧ floor ≤ f b
  | _ => True

/-- One step of the goroutine, of the kernel, or of `PollStop`. -/
inductive Step (P : PerfMapPoll α) : PollState α → PollState α → Prop where
  /-- `select { case <-pm.pollStop: break; default: perfEventPoll(m.pmuFDs) }`: either way the
  goroutine enters `harvestLoop`. -/
  | poll {s : PollState α} (hpc : s.pc = .poll) : Step P s { s with pc := .harvest }
  /-- The `select` at the top of `harvestLoop` returns once `pollStop` is closed. -/
  | harvestStop {s : PollState α} (hpc : s.pc = .harvest) (hst : s.stopped = true) :
      Step P s { s with pc := .done }
  /-- A harvest begins and `nowNanoseconds()` returns `T`. -/
  | harvest {s : PollState α} (T : Nat) (hpc : s.pc = .harvest) (hst : s.stopped = false) :
      Step P s { s with
        pc := .read 0, beforeHarvest := T, harvestCount := 0, settled := max s.settled (T + 1) }
  /-- `cpu < cpuCount` fails: the rings are drained. -/
  | readDone {s : PollState α} {cpu : Nat} (hpc : s.pc = .read cpu) (hcpu : P.cpuCount ≤ cpu) :
      Step P s { s with pc := .sort }
  /-- `perf_event_read` returns 0: `break ringBufferLoop`. -/
  | readEmpty {s : PollState α} {cpu : Nat} (hpc : s.pc = .read cpu) (hcpu : cpu < P.cpuCount)
      (hr : s.rings cpu = []) : Step P s { s with pc := .read (cpu + 1) }
  /-- `case C.PERF_RECORD_SAMPLE`: the sample is appended to `incoming`. -/
  | readSample {s : PollState α} {cpu : Nat} {b : α} {rest : List (PerfRecord α)}
      (hpc : s.pc = .read cpu) (hcpu : cpu < P.cpuCount) (hr : s.rings cpu = .sample b :: rest) :
      Step P s { s with
        rings := Function.update s.rings cpu rest, incoming := s.incoming ++ [b],
        harvestCount := s.harvestCount + 1, consumed := s.consumed ++ [(cpu, b)],
        pc := afterSample P s.beforeHarvest cpu b }
  /-- `case C.PERF_RECORD_LOST`: the count goes to `lostChan`, if there is one. -/
  | readLost {s : PollState α} {cpu n : Nat} {rest : List (PerfRecord α)}
      (hpc : s.pc = .read cpu) (hcpu : cpu < P.cpuCount) (hr : s.rings cpu = .lost n :: rest) :
      Step P s { s with
        rings := Function.update s.rings cpu rest,
        pc := if P.lostChan then .sendLost cpu n else .read cpu }
  /-- `default`: an unknown record is skipped. -/
  | readOther {s : PollState α} {cpu t : Nat} {rest : List (PerfRecord α)}
      (hpc : s.pc = .read cpu) (hcpu : cpu < P.cpuCount) (hr : s.rings cpu = .other t :: rest) :
      Step P s { s with rings := Function.update s.rings cpu rest }
  /-- The receiver of `lostChan` takes the count. -/
  | lostSend {s : PollState α} {cpu n : Nat} (hpc : s.pc = .sendLost cpu n) :
      Step P s { s with lostSent := s.lostSent ++ [n], pc := .read cpu }
  /-- `case <-pm.pollStop: return` while blocked on `lostChan`. -/
  | lostStop {s : PollState α} {cpu n : Nat} (hpc : s.pc = .sendLost cpu n)
      (hst : s.stopped = true) : Step P s { s with pc := .done }
  /-- `sort.Sort(incoming)`, if there is a timestamp callback. -/
  | sort {s : PollState α} {l : List α} (hpc : s.pc = .sort) (hl : SortResult P s.incoming l) :
      Step P s { s with incoming := l, pc := .send }
  /-- `incoming` is empty: `break harvestLoop` when nothing was harvested, else harvest again. -/
  | sendEmpty {s : PollState α} (hpc : s.pc = .send) (hi : s.incoming = []) :
      Step P s { s with pc := if s.harvestCount = 0 then .poll else .harvest }
  /-- The head of `incoming` is later than `beforeHarvest`: `break harvestLoop`. -/
  | sendLate {s : PollState α} {f : α → Nat} {b : α} {rest : List α} (hpc : s.pc = .send)
      (hi : s.incoming = b :: rest) (hf : P.timestamp = some f) (hlate : s.beforeHarvest < f b) :
      Step P s { s with pc := .poll }
  /-- The receiver of `receiverChan` takes the head of `incoming`. -/
  | send {s : PollState α} {b : α} {rest : List α} (hpc : s.pc = .send)
      (hi : s.incoming = b :: rest) (hdue : Due P s.beforeHarvest b) :
      Step P s { s with sent := s.sent ++ [b], incoming := rest }
  /-- `case <-pm.pollStop: return` while blocked on `receiverChan`. -/
  | sendStop {s : PollState α} {b : α} {rest : List α} (hpc : s.pc = .send)
      (hi : s.incoming = b :: rest) (hdue : Due P s.beforeHarvest b) (hst : s.stopped = true) :
      Step P s { s with pc := .done }
  /-- The kernel writes `r` to ring `c`. -/
  | produce {s : PollState α} {c : Nat} {r : PerfRecord α} (hc : c < P.cpuCount)
      (hw : Writable P s.settled (s.ringFloor c) r) :
      Step P s { s with
        rings := Function.update s.rings c (s.rings c ++ [r]),
        ringFloor := Function.update s.ringFloor c (floorAfter P (s.ringFloor c) r) }
  /-- `PollStop` closes `pollStop`. -/
  | pollStop {s : PollState α} (hst : s.stopped = false) : Step P s { s with stopped := true }

/-- The states of the goroutine and its environment reachable from `pollStart`. -/
def Reachable (P : PerfMapPoll α) (s : PollState α) : Prop :=
  Relation.ReflTransGen (Step P) pollStart s

/-! ## Samples of a ring -/

/-- The samples of a ring, oldest first. -/
def samples : List (PerfRecord α) → List α :=
  List.filterMap fun
    | .sample b => some b
    | _ => none

@[simp] theorem samples_nil : samples ([] : List (PerfRecord α)) = [] := rfl

@[simp] theorem samples_cons_sample (b : α) (l : List (PerfRecord α)) :
    samples (.sample b :: l) = b :: samples l := rfl

@[simp] theorem samples_cons_lost (n : Nat) (l : List (PerfRecord α)) :
    samples (.lost n :: l) = samples l := rfl

@[simp] theorem samples_cons_other (t : Nat) (l : List (PerfRecord α)) :
    samples (.other t :: l) = samples l := rfl

@[simp] theorem samples_append (l l' : List (PerfRecord α)) :
    samples (l ++ l') = samples l ++ samples l' := List.filterMap_append

/-- Every ring of `rings'` holds a sublist of the samples of the same ring of `rings`. -/
def RingsSub (rings' rings : Nat → List (PerfRecord α)) : Prop :=
  ∀ c, (samples (rings' c)).Sublist (samples (rings c))

/-- Reading the head of a ring removes at most its first sample. -/
theorem ringsSub_pop {rings : Nat → List (PerfRecord α)} {cpu : Nat} {r : PerfRecord α}
    {rest : List (PerfRecord α)} (hr : rings cpu = r :: rest) :
    RingsSub (Function.update rings cpu rest) rings := by
  intro c
  by_cases hc : c = cpu
  · subst hc
    rw [Function.update_self, hr]
    cases r <;> simp
  · simp only [Function.update_of_ne hc, List.Sublist.refl]

/-- A sample of a ring after the kernel wrote `r` to ring `c` was there before, or is `r`. -/
theorem mem_samples_produce {rings : Nat → List (PerfRecord α)} {c c' : Nat}
    {r : PerfRecord α} {b : α} (hb : b ∈ samples (Function.update rings c (rings c ++ [r]) c')) :
    b ∈ samples (rings c') ∨ (c' = c ∧ r = .sample b) := by
  by_cases hc : c' = c
  · subst hc
    rw [Function.update_self, samples_append, List.mem_append] at hb
    rcases hb with hb | hb
    · exact .inl hb
    · cases r <;> simp_all
  · rw [Function.update_of_ne hc] at hb
    exact .inl hb

/-! ## The order of what is sent -/

variable {P : PerfMapPoll α} {f : α → Nat}

theorem sortedBy_append_singleton {l : List α} {b : α} :
    SortedBy f (l ++ [b]) ↔ SortedBy f l ∧ ∀ a ∈ l, f a ≤ f b := by
  simp [SortedBy, List.pairwise_append]

theorem sortedBy_cons {l : List α} {b : α} :
    SortedBy f (b :: l) ↔ (∀ a ∈ l, f b ≤ f a) ∧ SortedBy f l := List.pairwise_cons

/-- What has been sent is sorted, earlier than `settled`, and not later than anything still in
`incoming` or in a ring. -/
structure SentInv (f : α → Nat) (sent incoming : List α) (rings : Nat → List (PerfRecord α))
    (settled : Nat) : Prop where
  sorted : SortedBy f sent
  lt_settled : ∀ a ∈ sent, f a < settled
  le_incoming : ∀ a ∈ sent, ∀ b ∈ incoming, f a ≤ f b
  le_rings : ∀ a ∈ sent, ∀ c, ∀ b ∈ samples (rings c), f a ≤ f b

/-- Each ring holds its samples in order and none later than its floor, and rings past the last
CPU stay empty. -/
structure RingInv (P : PerfMapPoll α) (f : α → Nat) (rings : Nat → List (PerfRecord α))
    (ringFloor : Nat → Nat) : Prop where
  sorted : ∀ c, SortedBy f (samples (rings c))
  le_floor : ∀ c, ∀ b ∈ samples (rings c), f b ≤ ringFloor c
  idle : ∀ c, P.cpuCount ≤ c → rings c = []

/-- Rings `0 .. i-1` hold only samples later than `T`. -/
def LaterFrom (f : α → Nat) (T i : Nat) (rings : Nat → List (PerfRecord α)) : Prop :=
  ∀ c < i, ∀ b ∈ samples (rings c), T < f b

/-- What the phase of the harvest knows, at control point `pc` with `beforeHarvest = T`. In
`ringBufferLoop` on ring `i`, the rings before it hold only samples later than `T`; after the
loop all of them do, and once sorted, `incoming` is in order. `T < settled` throughout, so that
the kernel's later writes keep all this. -/
def PhaseInv (P : PerfMapPoll α) (f : α → Nat) :
    PollPc → Nat → Nat → (Nat → List (PerfRecord α)) → List α → Prop
  | .read i, T, settled, rings, _ | .sendLost i _, T, settled, rings, _ =>
      T < settled ∧ LaterFrom f T i rings
  | .sort, T, settled, rings, _ => T < settled ∧ LaterFrom f T P.cpuCount rings
  | .send, T, settled, rings, incoming =>
      T < settled ∧ LaterFrom f T P.cpuCount rings ∧ SortedBy f incoming
  | _, _, _, _, _ => True

/-- The invariant that orders what is sent, under the timestamp callback `f`. -/
structure OrderInv (P : PerfMapPoll α) (f : α → Nat) (s : PollState α) : Prop where
  sent : SentInv f s.sent s.incoming s.rings s.settled
  rings : RingInv P f s.rings s.ringFloor
  phase : PhaseInv P f s.pc s.beforeHarvest s.settled s.rings s.incoming

/-! ### What each step keeps -/

namespace SentInv

variable {sent incoming : List α} {rings : Nat → List (PerfRecord α)} {settled : Nat}

/-- `settled` only grows. -/
theorem mono_settled (h : SentInv f sent incoming rings settled) {settled' : Nat}
    (hle : settled ≤ settled') : SentInv f sent incoming rings settled' :=
  { h with lt_settled := fun a ha => Nat.lt_of_lt_of_le (h.lt_settled a ha) hle }

/-- Reading a ring only drops samples from it. -/
theorem ringsSub (h : SentInv f sent incoming rings settled)
    {rings' : Nat → List (PerfRecord α)} (hsub : RingsSub rings' rings) :
    SentInv f sent incoming rings' settled :=
  { h with le_rings := fun a ha c b hb => h.le_rings a ha c b ((hsub c).subset hb) }

/-- A sample read from ring `cpu` moves to the end of `incoming`. -/
theorem readSample (h : SentInv f sent incoming rings settled) {cpu : Nat} {b : α}
    {rest : List (PerfRecord α)} (hr : rings cpu = .sample b :: rest) :
    SentInv f sent (incoming ++ [b]) (Function.update rings cpu rest) settled where
  sorted := h.sorted
  lt_settled := h.lt_settled
  le_incoming a ha x hx := by
    rcases List.mem_append.1 hx with hx | hx
    · exact h.le_incoming a ha x hx
    · rw [List.mem_singleton.1 hx]
      exact h.le_rings a ha cpu b (by simp [hr])
  le_rings := (h.ringsSub (ringsSub_pop hr)).le_rings

/-- `sort.Sort` only permutes `incoming`. -/
theorem perm (h : SentInv f sent incoming rings settled) {l : List α} (hl : l.Perm incoming) :
    SentInv f sent l rings settled :=
  { h with le_incoming := fun a ha b hb => h.le_incoming a ha b (hl.mem_iff.1 hb) }

/-- Sending the head `b` of a sorted `incoming`, not later than `T`, while every ring holds
only samples later than `T`. -/
theorem send {b : α} {rest : List α} {floor : Nat → Nat} {T : Nat}
    (h : SentInv f sent (b :: rest) rings settled) (hR : RingInv P f rings floor)
    (hT : T < settled) (hL : LaterFrom f T P.cpuCount rings) (hs : SortedBy f (b :: rest))
    (hb : f b ≤ T) : SentInv f (sent ++ [b]) rest rings settled where
  sorted := sortedBy_append_singleton.2
    ⟨h.sorted, fun a ha => h.le_incoming a ha b List.mem_cons_self⟩
  lt_settled a ha := by
    rcases List.mem_append.1 ha with ha | ha
    · exact h.lt_settled a ha
    · rw [List.mem_singleton.1 ha]
      omega
  le_incoming a ha x hx := by
    rcases List.mem_append.1 ha with ha | ha
    · exact h.le_incoming a ha x (List.mem_cons_of_mem _ hx)
    · rw [List.mem_singleton.1 ha]
      exact (sortedBy_cons.1 hs).1 x hx
  le_rings a ha c x hx := by
    rcases List.mem_append.1 ha with ha | ha
    · exact h.le_rings a ha c x hx
    · rw [List.mem_singleton.1 ha]
      have hc : c < P.cpuCount := by
        by_contra hc
        rw [hR.idle c (by omega)] at hx
        simp at hx
      have := hL c hc x hx
      omega

/-- The kernel writes `r` to ring `c`; a new sample is not earlier than `settled`. -/
theorem produce (h : SentInv f sent incoming rings settled) {c : Nat} {r : PerfRecord α}
    (hw : ∀ b, r = .sample b → settled ≤ f b) :
    SentInv f sent incoming (Function.update rings c (rings c ++ [r])) settled :=
  { h with
    le_rings := fun a ha c' x hx => by
      rcases mem_samples_produce hx with hx | ⟨-, rfl⟩
      · exact h.le_rings a ha c' x hx
      · have := h.lt_settled a ha
        have := hw x rfl
        omega }

end SentInv

namespace RingInv

variable {rings : Nat → List (PerfRecord α)} {floor : Nat → Nat}

/-- Reading the head of a ring of a CPU. -/
theorem pop (h : RingInv P f rings floor) {cpu : Nat} {r : PerfRecord α}
    {rest : List (PerfRecord α)} (hcpu : cpu < P.cpuCount) (hr : rings cpu = r :: rest) :
    RingInv P f (Function.update rings cpu rest) floor where
  sorted c := (h.sorted c).sublist (ringsSub_pop hr c)
  le_floor c b hb := h.le_floor c b ((ringsSub_pop hr c).subset hb)
  idle c hc := by
    rw [Function.update_of_ne (by omega)]
    exact h.idle c hc

/-- The kernel writes `r` to the ring of a CPU, not earlier than the ring's last sample. -/
theorem produce (h : RingInv P f rings floor) (hf : P.timestamp = some f) {c : Nat}
    {r : PerfRecord α} {settled : Nat} (hc : c < P.cpuCount) (hw : Writable P settled (floor c) r) :
    RingInv P f (Function.update rings c (rings c ++ [r]))
      (Function.update floor c (floorAfter P (floor c) r)) where
  sorted c' := by
    by_cases hc' : c' = c
    · subst hc'
      rw [Function.update_self, samples_append]
      cases r with
      | sample b =>
        exact sortedBy_append_singleton.2
          ⟨h.sorted c', fun a ha => Nat.le_trans (h.le_floor c' a ha) (hw f hf).2⟩
      | lost n => simpa using h.sorted c'
      | other t => simpa using h.sorted c'
    · rw [Function.update_of_ne hc']
      exact h.sorted c'
  le_floor c' b hb := by
    by_cases hc' : c' = c
    · subst hc'
      rw [Function.update_self]
      rcases mem_samples_produce hb with hold | ⟨-, rfl⟩
      · cases r with
        | sample x =>
          simpa [floorAfter, hf] using Nat.le_trans (h.le_floor c' b hold) (hw f hf).2
        | lost n => exact h.le_floor c' b hold
        | other t => exact h.le_floor c' b hold
      · simp [floorAfter, hf]
    · rw [Function.update_of_ne hc'] at hb ⊢
      exact h.le_floor c' b hb
  idle c' hc' := by
    rw [Function.update_of_ne (by omega)]
    exact h.idle c' hc'

end RingInv

namespace LaterFrom

variable {T i : Nat} {rings : Nat → List (PerfRecord α)}

theorem mono (h : LaterFrom f T i rings) {j : Nat} (hj : j ≤ i) : LaterFrom f T j rings :=
  fun c hc => h c (by omega)

theorem ringsSub (h : LaterFrom f T i rings) {rings' : Nat → List (PerfRecord α)}
    (hsub : RingsSub rings' rings) : LaterFrom f T i rings' :=
  fun c hc b hb => h c hc b ((hsub c).subset hb)

/-- An empty ring `i` holds no sample earlier than `T`. -/
theorem succ_of_nil (h : LaterFrom f T i rings) (hr : rings i = []) :
    LaterFrom f T (i + 1) rings := by
  intro c hc b hb
  rcases Nat.lt_succ_iff_lt_or_eq.1 hc with hc | rfl
  · exact h c hc b hb
  · simp [hr] at hb

/-- A sample later than `T` read from the head of a sorted ring `i`: what is left of that ring
is later than `T` too. -/
theorem succ_of_pop (h : LaterFrom f T i rings) {b : α} {rest : List (PerfRecord α)}
    (hr : rings i = .sample b :: rest) (hs : SortedBy f (samples (rings i))) (hb : T < f b) :
    LaterFrom f T (i + 1) (Function.update rings i rest) := by
  intro c hc x hx
  rcases Nat.lt_succ_iff_lt_or_eq.1 hc with hc | rfl
  · rw [Function.update_of_ne (by omega)] at hx
    exact h c hc x hx
  · rw [Function.update_self] at hx
    rw [hr, samples_cons_sample] at hs
    exact Nat.lt_of_lt_of_le hb ((sortedBy_cons.1 hs).1 x hx)

/-- The kernel's write is later than `T`, if it is a sample. -/
theorem produce (h : LaterFrom f T i rings) {c : Nat} {r : PerfRecord α}
    (hw : ∀ b, r = .sample b → T < f b) :
    LaterFrom f T i (Function.update rings c (rings c ++ [r])) := by
  intro c' hc' x hx
  rcases mem_samples_produce hx with hx | ⟨-, rfl⟩
  · exact h c' hc' x hx
  · exact hw x rfl

end LaterFrom

/-- A sample the kernel may write is not earlier than `settled`. -/
theorem Writable.settled_le {settled floor : Nat} {r : PerfRecord α}
    (hw : Writable P settled floor r) (hf : P.timestamp = some f) :
    ∀ b, r = .sample b → settled ≤ f b := by
  rintro b rfl
  exact (hw f hf).1

/-- Under a timestamp callback, `sort.Sort` leaves a sorted permutation. -/
theorem SortResult.of_some {l l' : List α} (hl : SortResult P l l') (hf : P.timestamp = some f) :
    l'.Perm l ∧ SortedBy f l' := by
  unfold SortResult at hl
  rw [hf] at hl
  exact hl

/-- Without one, it leaves `incoming` as it is. -/
theorem SortResult.of_none {l l' : List α} (hl : SortResult P l l') (hn : P.timestamp = none) :
    l' = l := by
  unfold SortResult at hl
  rw [hn] at hl
  exact hl

/-- The kernel's write keeps what the phase knows: a sample is not earlier than `settled`,
which is later than `beforeHarvest`. -/
theorem PhaseInv.produce {pc : PollPc} {T settled : Nat} {rings : Nat → List (PerfRecord α)}
    {incoming : List α} {c : Nat} {r : PerfRecord α} (h : PhaseInv P f pc T settled rings incoming)
    (hw : ∀ b, r = .sample b → settled ≤ f b) :
    PhaseInv P f pc T settled (Function.update rings c (rings c ++ [r])) incoming := by
  have later (hT : T < settled) : ∀ b, r = .sample b → T < f b :=
    fun b hb => Nat.lt_of_lt_of_le hT (hw b hb)
  cases pc with
  | read i => exact ⟨h.1, h.2.produce (later h.1)⟩
  | sendLost i n => exact ⟨h.1, h.2.produce (later h.1)⟩
  | sort => exact ⟨h.1, h.2.produce (later h.1)⟩
  | send => exact ⟨h.1, h.2.1.produce (later h.1), h.2.2⟩
  | poll | harvest | done => trivial

section
variable {s s' : PollState α}

/-- Every action of the goroutine, of the kernel and of `PollStop` keeps the order invariant. -/
theorem OrderInv.step (hf : P.timestamp = some f) (h : OrderInv P f s) (hs : Step P s s') :
    OrderInv P f s' := by
  obtain ⟨hS, hR, hP⟩ := h
  cases hs with
  | poll => exact ⟨hS, hR, trivial⟩
  | harvestStop => exact ⟨hS, hR, trivial⟩
  | harvest T =>
    refine ⟨hS.mono_settled (Nat.le_max_left _ _), hR, ?_, fun c hc => absurd hc (Nat.not_lt_zero c)⟩
    exact Nat.lt_of_lt_of_le (Nat.lt_succ_self T) (Nat.le_max_right _ _)
  | readDone hpc hcpu =>
    rw [hpc] at hP
    exact ⟨hS, hR, hP.1, hP.2.mono hcpu⟩
  | readEmpty hpc hcpu hr =>
    rw [hpc] at hP
    exact ⟨hS, hR, hP.1, hP.2.succ_of_nil hr⟩
  | @readSample cpu b rest hpc hcpu hr =>
    rw [hpc] at hP
    refine ⟨hS.readSample hr, hR.pop hcpu hr, ?_⟩
    dsimp only
    by_cases hlate : s.beforeHarvest < f b
    · rw [show afterSample P s.beforeHarvest cpu b = .read (cpu + 1) by
        simp [afterSample, hf, hlate]]
      exact ⟨hP.1, hP.2.succ_of_pop hr (hR.sorted cpu) hlate⟩
    · rw [show afterSample P s.beforeHarvest cpu b = .read cpu by simp [afterSample, hf, hlate]]
      exact ⟨hP.1, hP.2.ringsSub (ringsSub_pop hr)⟩
  | readLost hpc hcpu hr =>
    rw [hpc] at hP
    refine ⟨hS.ringsSub (ringsSub_pop hr), hR.pop hcpu hr, ?_⟩
    dsimp only
    split <;> exact ⟨hP.1, hP.2.ringsSub (ringsSub_pop hr)⟩
  | readOther hpc hcpu hr =>
    rw [hpc] at hP
    refine ⟨hS.ringsSub (ringsSub_pop hr), hR.pop hcpu hr, ?_⟩
    dsimp only
    rw [hpc]
    exact ⟨hP.1, hP.2.ringsSub (ringsSub_pop hr)⟩
  | lostSend hpc =>
    rw [hpc] at hP
    exact ⟨hS, hR, hP⟩
  | lostStop => exact ⟨hS, hR, trivial⟩
  | sort hpc hl =>
    rw [hpc] at hP
    obtain ⟨hperm, hsorted⟩ := hl.of_some hf
    exact ⟨hS.perm hperm, hR, hP.1, hP.2, hsorted⟩
  | sendEmpty =>
    refine ⟨hS, hR, ?_⟩
    dsimp only
    split <;> trivial
  | sendLate => exact ⟨hS, hR, trivial⟩
  | send hpc hi hdue =>
    rw [hpc, hi] at hP
    rw [hi] at hS
    refine ⟨hS.send hR hP.1 hP.2.1 hP.2.2 (hdue f hf), hR, ?_⟩
    dsimp only
    rw [hpc]
    exact ⟨hP.1, hP.2.1, (sortedBy_cons.1 hP.2.2).2⟩
  | sendStop => exact ⟨hS, hR, trivial⟩
  | produce hc hw => exact ⟨hS.produce (hw.settled_le hf), hR.produce hf hc hw, hP.produce (hw.settled_le hf)⟩
  | pollStop => exact ⟨hS, hR, hP⟩

/-! ## Nothing is lost or sent twice -/

/-- Every sample read from a ring has been sent once or is still in `incoming`; without a
timestamp callback, `receiverChan` carries them in the order they were read. -/
structure Conserved (P : PerfMapPoll α) (s : PollState α) : Prop where
  perm : (s.sent ++ s.incoming).Perm (s.consumed.map Prod.snd)
  fifo : P.timestamp = none → s.sent ++ s.incoming = s.consumed.map Prod.snd

/-- Reading appends to `incoming` and to the log of what was read, sorting permutes
`incoming`, and sending moves its head to `sent`. -/
theorem Conserved.step (h : Conserved P s) (hs : Step P s s') : Conserved P s' := by
  obtain ⟨hp, hq⟩ := h
  cases hs with
  | @readSample cpu b rest hpc hcpu hr =>
    refine ⟨?_, fun hn => ?_⟩
    · simpa using hp.append_right [b]
    · simp [← hq hn]
  | @sort l hpc hl =>
    cases ht : P.timestamp with
    | none =>
      rw [hl.of_none ht]
      exact ⟨hp, hq⟩
    | some f =>
      refine ⟨((hl.of_some ht).1.append_left s.sent).trans hp, fun hn => ?_⟩
      rw [ht] at hn
      cases hn
  | send hpc hi =>
    rw [hi] at hp hq
    exact ⟨by simpa using hp, fun hn => by simpa using hq hn⟩
  | poll | harvestStop | harvest | readDone | readEmpty | readLost | readOther | lostSend
  | lostStop | sendEmpty | sendLate | sendStop | produce | pollStop => exact ⟨hp, hq⟩

/-- The goroutine returns only once `pollStop` is closed. -/
theorem halted_step (h : s.pc = .done → s.stopped = true) (hs : Step P s s') :
    s'.pc = .done → s'.stopped = true := by
  intro hd
  cases hs with
  | harvestStop _ hst | lostStop _ hst | sendStop _ _ _ hst => exact hst
  | readOther | send | produce => exact h hd
  | pollStop => rfl
  | readSample => exact absurd hd (afterSample_ne_done _ _ _ _)
  | readLost | sendEmpty => dsimp only at hd; split at hd <;> cases hd
  | poll | harvest | readDone | readEmpty | lostSend | sort | sendLate => cases hd

/-! ## Every run -/

/-- The invariant of every reachable state. -/
structure PollInv (P : PerfMapPoll α) (s : PollState α) : Prop where
  order : ∀ f, P.timestamp = some f → OrderInv P f s
  conserved : Conserved P s
  halted : s.pc = .done → s.stopped = true

theorem PollInv.start : PollInv P pollStart where
  order _ _ :=
    { sent := ⟨List.Pairwise.nil, nofun, nofun, nofun⟩
      rings := ⟨fun _ => List.Pairwise.nil, fun _ _ => nofun, fun _ _ => rfl⟩
      phase := trivial }
  conserved := ⟨List.Perm.nil, fun _ => rfl⟩
  halted := nofun

theorem PollInv.step (h : PollInv P s) (hs : Step P s s') : PollInv P s' where
  order f hf := (h.order f hf).step hf hs
  conserved := h.conserved.step hs
  halted := halted_step h.halted hs

/-- The run lemma: the invariant holds in every state reachable from `pollStart`. -/
theorem PollInv.reachable (hs : Reachable P s) : PollInv P s := by
  induction hs with
  | refl => exact PollInv.start
  | tail _ hstep ih => exact ih.step hstep

end

/-- **`PollStart` sends in order and loses nothing.** In every state reachable from the start
of the goroutine, under any interleaving with the kernel's writes and with `PollStop`: with a
timestamp callback `f`, what `receiverChan` carried is sorted by `f`; every sample read from a
ring has been sent exactly once or is still in `incoming`; without a callback, `receiverChan`
carries the samples in the order they were read, so those of each ring in that ring's order;
and the goroutine has returned only after `PollStop`. -/
theorem pollStart_ordered_lossless (P : PerfMapPoll α) (s : PollState α) (hs : Reachable P s) :
    (∀ f, P.timestamp = some f → SortedBy f s.sent) ∧
    (s.sent ++ s.incoming).Perm (s.consumed.map Prod.snd) ∧
    (P.timestamp = none → s.sent ++ s.incoming = s.consumed.map Prod.snd) ∧
    (s.pc = .done → s.stopped = true) := by
  have h := PollInv.reachable hs
  exact ⟨fun f hf => (h.order f hf).sent.sorted, h.conserved.perm, h.conserved.fifo, h.halted⟩

/-- A goroutine polling two rings, with the identity as the timestamp callback. -/
def twoRingPoll : PerfMapPoll Nat where
  cpuCount := 2
  timestamp := some id
  lostChan := true

/-- The kernel writes a sample stamped 5 to ring 0 and one stamped 3 to ring 1; one harvest at
time 10 reads ring 0, then ring 1, sorts them and sends 3, then 5. -/
theorem pollStart_ordered_lossless_twoRings :
    ∃ s : PollState Nat, Reachable twoRingPoll s ∧ s.consumed = [(0, 5), (1, 3)] ∧
      s.sent = [3, 5] ∧ s.incoming = [] ∧
      ((∀ f, twoRingPoll.timestamp = some f → SortedBy f s.sent) ∧
        (s.sent ++ s.incoming).Perm (s.consumed.map Prod.snd) ∧
        (twoRingPoll.timestamp = none → s.sent ++ s.incoming = s.consumed.map Prod.snd) ∧
        (s.pc = .done → s.stopped = true)) := by
  have hdue : ∀ b, b ≤ 10 → Due twoRingPoll 10 b := fun b hb f hf => by
    cases hf
    exact hb
  have h₀ : Reachable twoRingPoll pollStart := Relation.ReflTransGen.refl
  have h₁ := Relation.ReflTransGen.tail h₀
    (@Step.produce _ _ _ 0 (.sample 5) (by decide) fun _ _ => ⟨Nat.zero_le _, Nat.zero_le _⟩)
  have h₂ := Relation.ReflTransGen.tail h₁
    (@Step.produce _ _ _ 1 (.sample 3) (by decide) fun _ _ => ⟨Nat.zero_le _, Nat.zero_le _⟩)
  have h₃ := Relation.ReflTransGen.tail h₂ (Step.poll rfl)
  have h₄ := Relation.ReflTransGen.tail h₃ (Step.harvest 10 rfl rfl)
  have h₅ := Relation.ReflTransGen.tail h₄ (@Step.readSample _ _ _ 0 5 [] rfl (by decide) rfl)
  have h₆ := Relation.ReflTransGen.tail h₅ (@Step.readEmpty _ _ _ 0 rfl (by decide) rfl)
  have h₇ := Relation.ReflTransGen.tail h₆ (@Step.readSample _ _ _ 1 3 [] rfl (by decide) rfl)
  have h₈ := Relation.ReflTransGen.tail h₇ (@Step.readEmpty _ _ _ 1 rfl (by decide) rfl)
  have h₉ := Relation.ReflTransGen.tail h₈ (@Step.readDone _ _ _ 2 rfl (Nat.le_refl _))
  have h₁₀ := Relation.ReflTransGen.tail h₉
    (@Step.sort _ _ _ [3, 5] rfl ⟨List.Perm.swap 5 3 [], by unfold SortedBy; decide⟩)
  have h₁₁ := Relation.ReflTransGen.tail h₁₀ (Step.send rfl rfl (hdue 3 (by decide)))
  have h₁₂ := Relation.ReflTransGen.tail h₁₁ (Step.send rfl rfl (hdue 5 (by decide)))
  exact ⟨_, h₁₂, rfl, rfl, rfl, pollStart_ordered_lossless twoRingPoll _ h₁₂⟩

end Gobpf.Elf
