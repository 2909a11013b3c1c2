import Gobpf.CpuOnline
import Gobpf.Go.Int

/-!
# Filling a `BPF_MAP_TYPE_PERF_EVENT_ARRAY`

A BPF program sends perf output on CPU `c` to the perf event stored at index `c` of a
`BPF_MAP_TYPE_PERF_EVENT_ARRAY`. Both packages of the repository open one perf event per online
CPU and store its fd in such an array, in two ways:

* elf's `initializePerfMaps` stores the fd opened on CPU `c` at key `c`
  (`openPerfRings_entries`);
* bcc's `InitPerfMap` stores the fd opened on the `i`-th online CPU at the `i`-th key of the walk
  `bpf_get_next_key` makes from key 0, which is `i` in an array (`initPerfMapLoop_entries`).

The two agree when the online CPUs are `0, 1, …, n-1` (`initPerfMapLoop_range`). With a CPU
offline they do not: on a host whose online CPUs are `0,2`, bcc stores CPU 2's fd at index 1 and
leaves index 2 empty, so what the program outputs on CPU 2 reaches no reader
(`initPerfMap_cpu_gap`).

The kernel's array is `PerfArray`: `bpf_map_update_elem` fails for an index past `max_entries`,
and `bpf_get_next_key` follows `array_map_get_next_key`. The perf events are opened by an oracle
that gives the fd opened on each CPU, or fails.
-/

namespace Gobpf

open CpuOnline Go

/-- A `BPF_MAP_TYPE_PERF_EVENT_ARRAY`: its `max_entries` and the perf event fd at each index. -/
structure PerfArray where
  maxEntries : Nat
  entries : Nat → Option Nat

namespace PerfArray

/-- `bpf_map_update_elem(fd, &key, &value, ...)`: fails for an index past the array. -/
def update (a : PerfArray) (key value : Nat) : Option PerfArray :=
  if key < a.maxEntries then some { a with entries := Function.update a.entries key (some value) }
  else none

/-- `bpf_get_next_key` on an array: from an index past the array to 0, from the last index to
`ENOENT`, and otherwise to the next index. -/
def getNextKey (a : PerfArray) (key : Nat) : Option Nat :=
  if a.maxEntries ≤ key then some 0
  else if key + 1 = a.maxEntries then none
  else some (key + 1)

theorem update_eq_some {a a' : PerfArray} {key value : Nat} (h : a.update key value = some a') :
    key < a.maxEntries ∧ a' = { a with entries := Function.update a.entries key (some value) } := by
  unfold update at h
  split at h
  · exact ⟨by assumption, (Option.some.inj h).symm⟩
  · cases h

theorem update_of_lt (a : PerfArray) {key : Nat} (value : Nat) (h : key < a.maxEntries) :
    a.update key value = some { a with entries := Function.update a.entries key (some value) } := by
  simp [update, h]

end PerfArray

/-- A run whose result is mapped succeeds only when the run does. -/
theorem map_eq_ok {ε α β : Type} {x : Except ε α} {f : α → β} {b : β} (h : x.map f = .ok b) :
    ∃ a, x = .ok a ∧ f a = b := by
  cases x <;> simp_all [Except.map]

/-! ## elf: the fd of CPU `c` at key `c` -/

/-- What the kernel answers elf while it sets up the ring of one CPU: the fd of
`perf_event_open_map` on a CPU (or a negative result), whether `mmap` of a length on an fd
succeeds, and whether the `PERF_EVENT_IOC_ENABLE` ioctl on an fd does. -/
structure PerfEnv where
  perfEventOpen : Nat → Option Nat
  mmap : Nat → Int → Bool
  enable : Nat → Bool

/-- `mmapSize := pageSize * (b.maps[name].pageCount + 1)`, the length of the mapping of a ring and
its header page, in Go's `int`. -/
def mmapSize (pageSize pageCount : Nat) : Int := goInt (pageSize * (pageCount + 1))

/-- The errors of the CPU loop of `initializePerfMaps`. -/
inductive PerfRingError where
  /-- `perf_event_open for map error: %v`. -/
  | perfEventOpen
  /-- `mmap error: %v`. -/
  | mmap
  /-- `error enabling perf event: %v`. -/
  | enable
  /-- `cannot assign perf fd to map %q: %v (cpu %d)`. -/
  | assign (cpu : Nat)
  deriving DecidableEq, Repr

/-- The CPU loop of `initializePerfMaps` for one map: for each online CPU, open a perf event on
it, map its ring of `pageCount` pages after the header page, enable it, and store its fd at key
`cpu`. Returns the array and the fds in `pmuFDs` order. -/
def openPerfRings (env : PerfEnv) (pageSize pageCount : Nat) :
    List Nat → PerfArray → Except PerfRingError (PerfArray × List Nat)
  | [], a => .ok (a, [])
  | cpu :: cpus, a =>
    match env.perfEventOpen cpu with
    | none => .error .perfEventOpen
    | some pmuFD =>
      if !env.mmap pmuFD (mmapSize pageSize pageCount) then .error .mmap
      else if !env.enable pmuFD then .error .enable
      else
        match a.update cpu pmuFD with
        | none => .error (.assign cpu)
        | some a' => (openPerfRings env pageSize pageCount cpus a').map fun r => (r.1, pmuFD :: r.2)

/-- **elf stores the fd opened on CPU `c` at index `c`**, and leaves the other indices alone. -/
theorem openPerfRings_entries {env : PerfEnv} {pageSize pageCount : Nat} :
    ∀ {cpus : List Nat} {a a' : PerfArray} {fds : List Nat},
      openPerfRings env pageSize pageCount cpus a = .ok (a', fds) →
      (∀ c ∈ cpus, ∃ fd, env.perfEventOpen c = some fd ∧ a'.entries c = some fd) ∧
        (∀ j ∉ cpus, a'.entries j = a.entries j) := by
  intro cpus
  induction cpus with
  | nil =>
    intro a a' fds h
    simp only [openPerfRings, Except.ok.injEq, Prod.mk.injEq] at h
    obtain ⟨rfl, -⟩ := h
    exact ⟨nofun, fun _ _ => rfl⟩
  | cons cpu cpus ih =>
    intro a a' fds h
    simp only [openPerfRings] at h
    split at h
    · cases h
    · rename_i pmuFD hopen
      split at h
      · cases h
      split at h
      · cases h
      split at h
      · cases h
      rename_i a₁ hupd
      obtain ⟨-, rfl⟩ := PerfArray.update_eq_some hupd
      obtain ⟨r, hrest, hr⟩ := map_eq_ok h
      obtain ⟨hold, hnew⟩ := ih hrest
      obtain ⟨rfl, -⟩ := Prod.mk.inj hr
      refine ⟨fun c hc => ?_, fun j hj => ?_⟩
      · by_cases hcs : c ∈ cpus
        · exact hold c hcs
        · obtain rfl : c = cpu := (List.mem_cons.1 hc).resolve_right hcs
          refine ⟨pmuFD, hopen, ?_⟩
          rw [hnew c hcs]
          exact Function.update_self _ _ _
      · rw [hnew j (fun h => hj (List.mem_cons_of_mem _ h))]
        exact Function.update_of_ne (by rintro rfl; exact hj List.mem_cons_self) _ _

/-! ## bcc: the fd of the `i`-th CPU at the `i`-th key -/

/-- The errors of bcc's `InitPerfMap`. -/
inductive InitPerfMapError where
  /-- `passed table has wrong size`. -/
  | wrongSize
  /-- `failed to determine online cpus: %v`. -/
  | onlineCpus (err : GetError)
  /-- `failed to open perf buffer: %v`. -/
  | openPerfBuffer
  /-- `unable to initialize perf map: %v`. -/
  | updateElem

/-- The CPU loop of bcc's `InitPerfMap`: for each online CPU, open a perf reader on it, store its
fd at the current key, and step the key with `bpf_get_next_key`, leaving the loop when that
fails. Returns the array and the fds of the readers opened. -/
def initPerfMapLoop (openReader : Nat → Option Nat) :
    List Nat → Nat → PerfArray → Except InitPerfMapError (PerfArray × List Nat)
  | [], _, a => .ok (a, [])
  | cpu :: cpus, key, a =>
    match openReader cpu with
    | none => .error .openPerfBuffer
    | some perfFd =>
      match a.update key perfFd with
      | none => .error .updateElem
      | some a' =>
        match a'.getNextKey key with
        | none => .ok (a', [perfFd])
        | some key' => (initPerfMapLoop openReader cpus key' a').map fun r => (r.1, perfFd :: r.2)

/-- bcc's `InitPerfMap` on a table of key and leaf size `keySize` and `leafSize` backed by the
array `a`, with the contents of `/sys/devices/system/cpu/online`: the walk starts at key 0. -/
def initPerfMap (keySize leafSize : Nat) (a : PerfArray) (online : Option (List Char))
    (openReader : Nat → Option Nat) : Except InitPerfMapError (PerfArray × List Nat) :=
  if keySize ≠ 4 ∨ leafSize ≠ 4 then .error .wrongSize
  else
    match get online with
    | .error err => .error (.onlineCpus err)
    | .ok cpus => initPerfMapLoop openReader cpus 0 a

/-- **bcc stores the fd opened on the `i`-th CPU at index `key + i`**, and leaves the other
indices alone, when the walk fits in the array. -/
theorem initPerfMapLoop_entries {openReader : Nat → Option Nat} :
    ∀ {cpus : List Nat} {key : Nat} {a a' : PerfArray} {fds : List Nat},
      key + cpus.length ≤ a.maxEntries →
      initPerfMapLoop openReader cpus key a = .ok (a', fds) →
      (∀ i (hi : i < cpus.length), a'.entries (key + i) = openReader cpus[i]) ∧
        (∀ j, j < key ∨ key + cpus.length ≤ j → a'.entries j = a.entries j) ∧
        a'.maxEntries = a.maxEntries := by
  intro cpus
  induction cpus with
  | nil =>
    intro key a a' fds _ h
    simp only [initPerfMapLoop, Except.ok.injEq, Prod.mk.injEq] at h
    obtain ⟨rfl, -⟩ := h
    exact ⟨nofun, fun _ _ => rfl, rfl⟩
  | cons cpu cpus ih =>
    intro key a a' fds hlen h
    simp only [List.length_cons] at hlen
    simp only [initPerfMapLoop] at h
    split at h
    · cases h
    rename_i perfFd hopen
    rw [PerfArray.update_of_lt a perfFd (by omega)] at h
    set a₁ : PerfArray := { a with entries := Function.update a.entries key (some perfFd) }
    have hnext : a₁.getNextKey key = if key + 1 = a.maxEntries then none else some (key + 1) := by
      simp only [PerfArray.getNextKey, a₁]
      rw [if_neg (by omega)]
    dsimp only at h
    rw [hnext] at h
    by_cases hlast : key + 1 = a.maxEntries
    · rw [if_pos hlast] at h
      simp only [Except.ok.injEq, Prod.mk.injEq] at h
      obtain ⟨rfl, -⟩ := h
      have hnil : cpus = [] := List.eq_nil_of_length_eq_zero (by omega)
      subst hnil
      refine ⟨fun i hi => ?_, fun j hj => ?_, rfl⟩
      · obtain rfl : i = 0 := by simpa using hi
        simp [a₁, hopen]
      · exact Function.update_of_ne (by simp at hj; omega) _ _
    · rw [if_neg hlast] at h
      dsimp only at h
      obtain ⟨r, hrest, hr⟩ := map_eq_ok h
      obtain ⟨rfl, -⟩ := Prod.mk.inj hr
      obtain ⟨hset, hkeep, hmax⟩ := ih (by simp [a₁]; omega) hrest
      refine ⟨fun i hi => ?_, fun j hj => ?_, hmax⟩
      · cases i with
        | zero =>
          rw [Nat.add_zero, hkeep key (by omega)]
          simp [a₁, hopen]
        | succ i =>
          have := hset i (by simpa using hi)
          rw [show key + (i + 1) = key + 1 + i by omega, this]
          rfl
      · rw [hkeep j (by simp at hj; omega)]
        exact Function.update_of_ne (by simp at hj; omega) _ _

/-- **bcc's `InitPerfMap` stores the fd opened on the `i`-th online CPU at index `i`**, when the
online CPUs fit in the array. -/
theorem initPerfMap_entries {a a' : PerfArray} {online : Option (List Char)}
    {openReader : Nat → Option Nat} {cpus fds : List Nat}
    (h : initPerfMap 4 4 a online openReader = .ok (a', fds)) (hcpus : get online = .ok cpus)
    (hlen : cpus.length ≤ a.maxEntries) :
    ∀ i (hi : i < cpus.length), a'.entries i = openReader cpus[i] := by
  simp only [initPerfMap, ne_eq, not_true_eq_false, or_self, if_false, hcpus] at h
  intro i hi
  have := (initPerfMapLoop_entries (by simpa using hlen) h).1 i hi
  rwa [Nat.zero_add] at this

/-! ## The two agree on contiguous CPUs only -/

/-- **On CPUs `0, …, n-1` bcc stores what elf stores**: the fd opened on CPU `c` at index `c`, and
nothing else. -/
theorem initPerfMapLoop_range {env : PerfEnv} {pageSize pageCount n : Nat} {a aB aE : PerfArray}
    {fdsB fdsE : List Nat} (hn : n ≤ a.maxEntries)
    (hB : initPerfMapLoop env.perfEventOpen (List.range n) 0 a = .ok (aB, fdsB))
    (hE : openPerfRings env pageSize pageCount (List.range n) a = .ok (aE, fdsE)) :
    aB.entries = aE.entries := by
  obtain ⟨hsetB, hkeepB, -⟩ := initPerfMapLoop_entries (by simpa using hn) hB
  obtain ⟨hsetE, hkeepE⟩ := openPerfRings_entries hE
  funext c
  by_cases hc : c < n
  · obtain ⟨fd, hfd, hE'⟩ := hsetE c (List.mem_range.2 hc)
    have := hsetB c (by simpa using hc)
    rw [Nat.zero_add, List.getElem_range] at this
    rw [this, hfd, hE']
  · rw [hkeepB c (by simp; omega), hkeepE c (by simpa using hc)]

/-- On the online CPUs `0,2`, with an array of four entries, bcc stores CPU 2's fd at index 1 and
leaves index 2 empty, where elf stores it at index 2. -/
theorem initPerfMap_cpu_gap :
    (get (some ['0', ',', '2', '\n'])).toOption = some [0, 2] ∧
    ((initPerfMap 4 4 ⟨4, fun _ => none⟩ (some ['0', ',', '2', '\n']) fun c => some (10 + c)).map
      fun r => (r.1.entries 0, r.1.entries 1, r.1.entries 2)).toOption =
      some (some 10, some 12, none) ∧
    ((openPerfRings ⟨fun c => some (10 + c), fun _ _ => true, fun _ => true⟩ 4096 8 [0, 2]
      ⟨4, fun _ => none⟩).map fun r => (r.1.entries 0, r.1.entries 1, r.1.entries 2)).toOption =
      some (some 10, none, some 12) := by
  decide

end Gobpf
