import Gobpf.PerfEventArray
import Gobpf.Elf.PerfPoll
import Gobpf.Elf.PerfRead
import Gobpf.Elf.Pinning

/-!
# The perf maps of a loaded module, and the goroutine that polls one

The last step of `Module.Load` is `initializePerfMaps`: for each map of type
`BPF_MAP_TYPE_PERF_EVENT_ARRAY` it settles the number of pages of the rings (8, or a positive
power of two given as `PerfRingBufferPageCount`), and opens and maps one ring per online CPU,
keeping the fds in `pmuFDs` and the header pages in `headers`. A map of another type, or one whose
`SectionParams` sets `SkipPerfMapInitialization`, gets no rings.

`InitPerfMap` accepts any map of the module, and the goroutine of `PollStart` begins with
`perfEventPoll(m.pmuFDs)`, which takes `&pfds[0]`. So a `PerfMap` on a map without rings panics
as soon as it is started (`pollStart_panics_iff`, `pollStart_hash_map`); the harvest loop itself
never indexes past `headers`, which `initializePerfMaps` fills in step with `pmuFDs`
(`initializePerfMaps_headers`).

The page count then flows through three widths: the `int` of `mmapSize`, the `C.int` that
`PollStart` passes to `perf_event_read`, and the `uint64_t` of its `raw_size`. The two sizes agree
with the ring mapped only while the page count is below `2^31` (`rawSize_of_lt`); the power-of-two
check lets through `2^31`, whose `raw_size` is not the size mapped, and `2^52`, whose `mmapSize`
wraps (`perfPageCount_wrap`).
-/

namespace Gobpf.Elf

open Go

/-- `BPF_MAP_TYPE_PERF_EVENT_ARRAY`. -/
def bpfMapTypePerfEventArray : Nat := 4

/-- `SectionParams` in full: the pin path that the map paths read, and the two fields that
`initializePerfMaps` reads. -/
structure PerfSectionParams extends SectionParams where
  perfRingBufferPageCount : Int := 0
  skipPerfMapInitialization : Bool := false

/-- A map of a loaded `Module` as `initializePerfMaps`, `InitPerfMap` and `PollStart` read it: its
name, the `type` of its `bpf_map_def`, the kernel's array behind its fd, and the fields that
`initializePerfMaps` fills for a perf map. A header page is named by the fd of the ring it maps. -/
structure ModuleMap where
  name : List Char
  mapType : Nat
  array : PerfArray
  pmuFDs : List Nat
  headers : List Nat
  pageCount : Int

/-- A map as `elfReadMaps` leaves it: no rings, and the zero page count. -/
def ModuleMap.loaded (name : List Char) (mapType : Nat) (array : PerfArray) : ModuleMap :=
  ⟨name, mapType, array, [], [], 0⟩

/-- The errors of `initializePerfMaps`. -/
inductive PerfMapsError where
  /-- `number of pages (%d) must be stricly positive and a power of 2` -/
  | pageCount (n : Int)
  /-- `failed to determine online cpus: %v` -/
  | onlineCpus (err : CpuOnline.GetError)
  /-- An error of the loop over the online CPUs. -/
  | ring (err : PerfRingError)

/-- The page count that `initializePerfMaps` settles for a perf map with the section parameters
`params`; `none` when the map is skipped. `PerfRingBufferPageCount & (PerfRingBufferPageCount - 1)`
is taken of a positive `int`, where it is the `Nat` conjunction. -/
def perfPageCount : Option PerfSectionParams → Except PerfMapsError (Option Int)
  | none => .ok (some 8)
  | some params =>
    if params.skipPerfMapInitialization then .ok none
    else if 0 < params.perfRingBufferPageCount then
      let n := params.perfRingBufferPageCount.toNat
      if n &&& (n - 1) ≠ 0 then .error (.pageCount params.perfRingBufferPageCount)
      else .ok (some params.perfRingBufferPageCount)
    else .ok (some 8)

section Init

variable (env : PerfEnv) (pageSize : Nat) (online : Option (List Char))
  (parameters : List Char → Option PerfSectionParams)

/-- The rings of a perf map whose page count is settled: one per CPU that `cpuonline.Get` lists,
appended to `pmuFDs` and `headers`. -/
def openRings (m : ModuleMap) : Except PerfMapsError ModuleMap :=
  match CpuOnline.get online with
  | .error err => .error (.onlineCpus err)
  | .ok cpus =>
    match openPerfRings env pageSize m.pageCount.toNat cpus m.array with
    | .error err => .error (.ring err)
    | .ok (array, fds) => .ok { m with array, pmuFDs := m.pmuFDs ++ fds, headers := m.headers ++ fds }

/-- The body of the loop of `initializePerfMaps` for the map `m`. The default page count is set
before `SkipPerfMapInitialization` is read, so a skipped map keeps it. -/
def initializePerfMap (m : ModuleMap) : Except PerfMapsError ModuleMap :=
  if m.mapType ≠ bpfMapTypePerfEventArray then .ok m
  else
    match perfPageCount (parameters (mapsPrefix ++ m.name)) with
    | .error err => .error err
    | .ok none => .ok { m with pageCount := 8 }
    | .ok (some pageCount) => openRings env pageSize online { m with pageCount }

/-- `initializePerfMaps`, over the maps in the order the `range` over `b.maps` visits them. -/
def initializePerfMaps : List ModuleMap → Except PerfMapsError (List ModuleMap)
  | [] => .ok []
  | m :: ms =>
    match initializePerfMap env pageSize online parameters m with
    | .error err => .error err
    | .ok m' => (initializePerfMaps ms).map (m' :: ·)

end Init

/-- A `PerfMap`, with the fields `PollStart` reads: the name of its map, its page count, and
whether `lostChan` is set. -/
structure PerfMap where
  name : List Char
  pageCount : Int
  lostChan : Bool

/-- The errors of `InitPerfMap`. -/
inductive PerfMapError where
  /-- `no map with name %s` -/
  | noMap (mapName : List Char)
  /-- `receiverChan is nil` -/
  | receiverChanNil

/-- `InitPerfMap(b, mapName, receiverChan, lostChan)`, given whether the channels are non-nil: it
accepts every map of the module. -/
def initPerfMap (maps : List ModuleMap) (mapName : List Char) (receiverChan lostChan : Bool) :
    Except PerfMapError PerfMap :=
  match maps.find? (·.name == mapName) with
  | none => .error (.noMap mapName)
  | some m => if !receiverChan then .error .receiverChanNil else .ok ⟨mapName, m.pageCount, lostChan⟩

/-- A run-time panic of `PollStart` or of its goroutine. -/
inductive PollPanic where
  /-- `cannot find map %q` -/
  | noMap (name : List Char)
  /-- An index out of range. -/
  | indexOutOfRange

/-- The map that `PollStart` polls: `pm.program.maps[pm.name]`, or a panic. -/
def pollStartMap (maps : List ModuleMap) (pm : PerfMap) : Except PollPanic ModuleMap :=
  match maps.find? (·.name == pm.name) with
  | none => .error (.noMap pm.name)
  | some m => .ok m

/-- `POLLIN`. -/
def pollIn : Nat := 1

/-- A `struct pollfd` as `perfEventPoll` fills it. -/
structure PollFd where
  fd : Nat
  events : Nat

/-- `perfEventPoll(fds)`: the array of `pollfd` whose first element it passes to `poll`;
`&pfds[0]` panics on an empty array. The result of `poll` is dropped by `PollStart`. -/
def perfEventPoll (fds : List Nat) : Except PollPanic (List PollFd) :=
  match fds.map fun fd => (⟨fd, pollIn⟩ : PollFd) with
  | [] => .error .indexOutOfRange
  | pfds => .ok pfds

/-- The fields of the goroutine's `PerfMapPoll` that come from the map: one ring per entry of
`pmuFDs`. -/
def ModuleMap.poll {α : Type} (m : ModuleMap) (timestamp : Option (α → Nat)) (lostChan : Bool) :
    PerfMapPoll α :=
  ⟨m.pmuFDs.length, timestamp, lostChan⟩

/-- The goroutine polling `m` panics in the state `s`: it calls `perfEventPoll` (the `default` of
the first `select`, taken while `pollStop` is open) on fds it cannot index, or it reads the header
of a ring past the end of `headers`. -/
def Panics {α : Type} (m : ModuleMap) (s : PollState α) : Prop :=
  (s.pc = .poll ∧ s.stopped = false ∧ perfEventPoll m.pmuFDs = .error .indexOutOfRange) ∨
    ∃ cpu, s.pc = .read cpu ∧ cpu < m.pmuFDs.length ∧ m.headers[cpu]? = none

/-- `raw_size` of `perf_event_read`, from the page count of the `PerfMap`: `C.int(pm.pageCount)`
and `C.int(pageSize)`, each widened to `uint64_t`, multiplied modulo `2^64`. -/
def rawSize (pageCount : Int) (pageSize : Nat) : Nat :=
  toUint64 (toInt32 pageCount) * toUint64 (toInt32 pageSize) % 2 ^ 64

/-! ## The page count -/

/-- The page counts `initializePerfMaps` settles are powers of two. -/
theorem perfPageCount_pow {params : Option PerfSectionParams} {n : Int}
    (h : perfPageCount params = .ok (some n)) : ∃ k, n = 2 ^ k := by
  cases params with
  | none =>
    obtain rfl : n = 8 := by simpa [perfPageCount] using h.symm
    exact ⟨3, rfl⟩
  | some params =>
    simp only [perfPageCount] at h
    split_ifs at h with hskip hpos hand
    · cases h
    · obtain rfl : params.perfRingBufferPageCount = n := by simpa using h
      have hc : params.perfRingBufferPageCount.toNat ≠ 0 := by omega
      obtain ⟨k, hk⟩ := (Nat.and_sub_one_eq_zero_iff_isPowerOfTwo hc).1 (not_not.1 hand)
      refine ⟨k, ?_⟩
      rw [← Int.toNat_of_nonneg hpos.le, hk]
      push_cast
      rfl
    · obtain rfl : n = 8 := by simpa using h.symm
      exact ⟨3, rfl⟩

/-- Every power of two given as `PerfRingBufferPageCount` is accepted. -/
theorem perfPageCount_of_pow {params : PerfSectionParams} {k : Nat}
    (hp : params.perfRingBufferPageCount = 2 ^ k) (hs : params.skipPerfMapInitialization = false) :
    perfPageCount (some params) = .ok (some (2 ^ k)) := by
  have hpow : ((2 : Int) ^ k).toNat = 2 ^ k := by
    rw [Int.toNat_pow_of_nonneg (by norm_num)]
    rfl
  have hand : 2 ^ k &&& (2 ^ k - 1) = 0 :=
    (Nat.and_sub_one_eq_zero_iff_isPowerOfTwo (by positivity)).2 ⟨k, rfl⟩
  simp [perfPageCount, hp, hs, hpow, hand]

/-! ## Rings and headers -/

/-- A header page for each ring: what the harvest loop of `PollStart` reads at `m.headers[cpu]`
for each `cpu` below `len(m.pmuFDs)`. -/
def ModuleMap.Aligned (m : ModuleMap) : Prop :=
  m.headers.length = m.pmuFDs.length

section Init

variable {env : PerfEnv} {pageSize : Nat} {online : Option (List Char)}
  {parameters : List Char → Option PerfSectionParams}

theorem openRings_aligned {m m' : ModuleMap} (h : openRings env pageSize online m = .ok m')
    (hm : m.Aligned) : m'.Aligned ∧ m'.name = m.name := by
  unfold openRings at h
  split at h
  · cases h
  · split at h
    · cases h
    · obtain rfl := Except.ok.inj h
      refine ⟨?_, rfl⟩
      simp only [ModuleMap.Aligned, List.length_append] at hm ⊢
      omega

/-- Step: one map keeps a header for each of its fds, and its name. -/
theorem initializePerfMap_aligned {m m' : ModuleMap} (hm : m.Aligned)
    (h : initializePerfMap env pageSize online parameters m = .ok m') :
    m'.Aligned ∧ m'.name = m.name := by
  unfold initializePerfMap at h
  split_ifs at h
  · obtain rfl := Except.ok.inj h
    exact ⟨hm, rfl⟩
  · split at h
    · cases h
    · obtain rfl := Except.ok.inj h
      exact ⟨hm, rfl⟩
    · exact (openRings_aligned h hm :)

/-- Run: every map keeps a header for each of its fds, and the maps keep their names. -/
theorem initializePerfMaps_aligned :
    ∀ {maps maps' : List ModuleMap}, (∀ m ∈ maps, m.Aligned) →
      initializePerfMaps env pageSize online parameters maps = .ok maps' →
      (∀ m ∈ maps', m.Aligned) ∧ maps'.map (·.name) = maps.map (·.name)
  | [], _, _, h => by
    obtain rfl := (Except.ok.inj h).symm
    exact ⟨fun _ hm => absurd hm List.not_mem_nil, rfl⟩
  | m :: ms, maps', hms, h => by
    unfold initializePerfMaps at h
    split at h
    · cases h
    · rename_i m' hm'
      obtain ⟨rest, hrest, rfl⟩ := map_eq_ok h
      obtain ⟨halign, hname⟩ := initializePerfMap_aligned (hms m List.mem_cons_self) hm'
      obtain ⟨hrest_align, hrest_names⟩ :=
        initializePerfMaps_aligned (fun m hm => hms m (List.mem_cons_of_mem _ hm)) hrest
      refine ⟨fun m'' hm'' => ?_, by simp [hname, hrest_names]⟩
      rcases List.mem_cons.1 hm'' with rfl | hm''
      · exact halign
      · exact hrest_align m'' hm''

/-- A map of another type than `BPF_MAP_TYPE_PERF_EVENT_ARRAY` is left as it is. -/
theorem initializePerfMap_not_perf {m : ModuleMap} (h : m.mapType ≠ bpfMapTypePerfEventArray) :
    initializePerfMap env pageSize online parameters m = .ok m := by
  simp [initializePerfMap, h]

/-- A perf map whose section parameters set `SkipPerfMapInitialization` gets no rings. -/
theorem initializePerfMap_skip {m : ModuleMap} {params : PerfSectionParams}
    (ht : m.mapType = bpfMapTypePerfEventArray) (hp : parameters (mapsPrefix ++ m.name) = some params)
    (hs : params.skipPerfMapInitialization = true) :
    initializePerfMap env pageSize online parameters m = .ok { m with pageCount := 8 } := by
  simp [initializePerfMap, ht, hp, perfPageCount, hs]

end Init

/-! ## The goroutine of `PollStart` -/

theorem perfEventPoll_eq_error_iff {fds : List Nat} :
    perfEventPoll fds = .error .indexOutOfRange ↔ fds = [] := by
  cases fds <;> simp [perfEventPoll]

/-- With a header for each fd, the harvest loop never reads past `headers`: the goroutine panics
only in `perfEventPoll`, on a map without rings. -/
theorem panics_iff {α : Type} {m : ModuleMap} (hm : m.Aligned) (s : PollState α) :
    Panics m s ↔ s.pc = .poll ∧ s.stopped = false ∧ m.pmuFDs = [] := by
  unfold Panics
  rw [perfEventPoll_eq_error_iff]
  have hread : ¬ ∃ cpu, s.pc = .read cpu ∧ cpu < m.pmuFDs.length ∧ m.headers[cpu]? = none := by
    rintro ⟨cpu, -, hcpu, hnone⟩
    rw [List.getElem?_eq_none_iff] at hnone
    unfold ModuleMap.Aligned at hm
    omega
  simp only [hread, or_false]

/-- **`PollStart` panics exactly on the maps without rings.** After `initializePerfMaps` succeeded on
the maps as `elfReadMaps` leaves them, every `PerfMap` that `InitPerfMap` returns is polled on a
map `PollStart` finds; in every state of its goroutine, under any interleaving, the goroutine
panics exactly when it calls `perfEventPoll` on a map without rings. -/
theorem pollStart_panics_iff {env : PerfEnv} {pageSize : Nat} {online : Option (List Char)}
    {parameters : List Char → Option PerfSectionParams} {maps maps' : List ModuleMap}
    {mapName : List Char} {receiverChan lostChan : Bool} {pm : PerfMap}
    (hmaps : ∀ m ∈ maps, m.pmuFDs = [] ∧ m.headers = [])
    (hload : initializePerfMaps env pageSize online parameters maps = .ok maps')
    (hpm : initPerfMap maps' mapName receiverChan lostChan = .ok pm) :
    ∃ m ∈ maps', pollStartMap maps' pm = .ok m ∧ m.name = mapName ∧
      ∀ {α : Type} (s : PollState α), Panics m s ↔ s.pc = .poll ∧ s.stopped = false ∧ m.pmuFDs = [] := by
  have haligned : ∀ m ∈ maps, m.Aligned := fun m hm => by
    simp [ModuleMap.Aligned, (hmaps m hm).1, (hmaps m hm).2]
  have hall := (initializePerfMaps_aligned haligned hload).1
  unfold initPerfMap at hpm
  split at hpm
  · cases hpm
  · rename_i m hfind
    split_ifs at hpm
    obtain rfl := Except.ok.inj hpm
    have hname : m.name = mapName := by simpa using List.find?_some hfind
    refine ⟨m, List.mem_of_find?_eq_some hfind, ?_, hname, fun s => panics_iff (hall m ?_) s⟩
    · simp [pollStartMap, hfind]
    · exact List.mem_of_find?_eq_some hfind

/-- On a module whose only map is a hash map, or a perf map whose section parameters set
`SkipPerfMapInitialization`, `Load` succeeds whatever the kernel answers, `InitPerfMap` accepts the
map, and the goroutine of `PollStart` panics in its first step. -/
theorem pollStart_hash_map (env : PerfEnv) (pageSize : Nat) (online : Option (List Char))
    (array : PerfArray) :
    (initializePerfMaps env pageSize online (fun _ => none) [ModuleMap.loaded ['m'] 1 array]).isOk ∧
    (initPerfMap [ModuleMap.loaded ['m'] 1 array] ['m'] true false).isOk ∧
    Panics (ModuleMap.loaded ['m'] 1 array) (pollStart (α := List UInt8)) ∧
    (initializePerfMaps env pageSize online (fun _ => some { skipPerfMapInitialization := true })
      [ModuleMap.loaded ['m'] bpfMapTypePerfEventArray array]).isOk ∧
    Panics { ModuleMap.loaded ['m'] bpfMapTypePerfEventArray array with pageCount := 8 }
      (pollStart (α := List UInt8)) := by
  have hhash : initializePerfMap env pageSize online (fun _ => none) (ModuleMap.loaded ['m'] 1 array) =
      .ok (ModuleMap.loaded ['m'] 1 array) :=
    initializePerfMap_not_perf (by simp [ModuleMap.loaded, bpfMapTypePerfEventArray])
  have hskip : initializePerfMap env pageSize online
      (fun _ => some { skipPerfMapInitialization := true })
      (ModuleMap.loaded ['m'] bpfMapTypePerfEventArray array) =
      .ok { ModuleMap.loaded ['m'] bpfMapTypePerfEventArray array with pageCount := 8 } :=
    initializePerfMap_skip rfl rfl rfl
  refine ⟨?_, rfl, (panics_iff (by rfl) _).2 ⟨rfl, rfl, rfl⟩, ?_,
    (panics_iff (by rfl) _).2 ⟨rfl, rfl, rfl⟩⟩
  · simp only [initializePerfMaps, hhash]
    rfl
  · simp only [initializePerfMaps, hskip]
    rfl

/-! ## The page count through `int`, `C.int` and `uint64_t` -/

/-- The mapping of a ring has its size while the size fits in `int`. -/
theorem mmapSize_of_lt {pageSize pageCount : Nat} (h : pageSize * (pageCount + 1) < 2 ^ 63) :
    mmapSize pageSize pageCount = pageSize * (pageCount + 1) := by
  have h' : ((pageSize * (pageCount + 1) : Nat) : Int) < 2 ^ 63 := by exact_mod_cast h
  have h0 : (0 : Int) ≤ pageSize * (pageCount + 1) := by positivity
  push_cast at h'
  exact goInt_of_lt (by omega) h'

/-- `mmapSize` is the size of the ring and its header page exactly when that size fits in `int`. -/
theorem mmapSize_eq_iff {pageSize pageCount : Nat} :
    mmapSize pageSize pageCount = pageSize * (pageCount + 1) ↔ pageSize * (pageCount + 1) < 2 ^ 63 := by
  refine ⟨fun h => ?_, mmapSize_of_lt⟩
  have hlt := Int.bmod_lt (x := pageSize * (pageCount + 1)) (m := 2 ^ 64) (by norm_num)
  rw [← goInt, ← mmapSize, h] at hlt
  norm_num at hlt
  exact_mod_cast hlt

/-- `raw_size` is the size of the ring's data area while the page count and the page size fit in
`C.int`: the ring `perf_event_read` reads is the ring mapped. -/
theorem rawSize_of_lt {pageCount : Int} {pageSize : Nat} (h0 : 0 ≤ pageCount)
    (hc : pageCount < 2 ^ 31) (hs : pageSize < 2 ^ 31) :
    rawSize pageCount pageSize = pageCount.toNat * pageSize := by
  rw [rawSize, toUint64_toInt32_of_lt h0 hc, toUint64_toInt32_natCast hs, Nat.mod_eq_of_lt]
  calc pageCount.toNat * pageSize < 2 ^ 31 * 2 ^ 31 := by
        apply Nat.mul_lt_mul'' <;> omega
    _ < 2 ^ 64 := by norm_num

/-- **`raw_size` is the data area mapped exactly below `2^31` pages.** Of the powers of two that
`initializePerfMaps` accepts, `C.int` keeps those below `2^31`; it makes `2^31` negative, which
`uint64_t` turns into `2^64 - 2^31`, and the higher ones zero. -/
theorem rawSize_pow_eq_iff {k pageSize : Nat} (hs0 : 0 < pageSize) (hs : pageSize < 2 ^ 31) :
    rawSize (2 ^ k) pageSize = 2 ^ k * pageSize ↔ k < 31 := by
  have hs' := toUint64_toInt32_natCast hs
  constructor
  · intro h
    by_contra hk
    rcases Nat.lt_or_ge k 32 with hk32 | hk32
    · obtain rfl : k = 31 := by omega
      have hneg : toUint64 (-2 ^ 31) = 2 ^ 64 - 2 ^ 31 := by decide
      rw [rawSize, toInt32_two_pow_31, hneg, hs'] at h
      omega
    · rw [rawSize, toInt32_two_pow_of_le hk32, hs'] at h
      have hpos : 0 < 2 ^ k * pageSize := by positivity
      simp [toUint64] at h
      omega
  · intro hk
    have hlt : (2 : Int) ^ k < 2 ^ 31 := by exact_mod_cast Nat.pow_lt_pow_right (by norm_num) hk
    rw [rawSize_of_lt (by positivity) hlt hs, Int.toNat_pow_of_nonneg (by norm_num)]
    rfl

/-- The default page count. -/
theorem rawSize_default {pageSize : Nat} (hs : pageSize < 2 ^ 31) :
    mmapSize pageSize 8 = pageSize * 9 ∧ rawSize 8 pageSize = 8 * pageSize :=
  ⟨mmapSize_of_lt (by omega), rawSize_of_lt (by norm_num) (by norm_num) hs⟩

/-- With pages of 4096 bytes, the accepted page count `2^31` maps `2^43 + 4096` bytes while
`perf_event_read` takes the ring to be `2^64 - 2^43` bytes long; the accepted `2^52` wraps
`mmapSize` to a single page, and makes `raw_size` zero. -/
theorem perfPageCount_wrap :
    perfPageCount (some { perfRingBufferPageCount := 2 ^ 31 }) = .ok (some (2 ^ 31)) ∧
    mmapSize 4096 (2 ^ 31) = 4096 * (2 ^ 31 + 1) ∧
    rawSize (2 ^ 31) 4096 = 2 ^ 64 - 2 ^ 43 ∧
    perfPageCount (some { perfRingBufferPageCount := 2 ^ 52 }) = .ok (some (2 ^ 52)) ∧
    mmapSize 4096 (2 ^ 52) = 4096 ∧
    rawSize (2 ^ 52) 4096 = 0 := by
  refine ⟨perfPageCount_of_pow rfl rfl, ?_, ?_, perfPageCount_of_pow rfl rfl, ?_, ?_⟩ <;> decide

end Gobpf.Elf
