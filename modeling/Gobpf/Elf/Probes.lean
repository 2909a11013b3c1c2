import Mathlib
import Gobpf.Go.Strings

/-!
# Enabling kprobes and closing a module's programs

`EnableKprobe` attaches a loaded kprobe or kretprobe program: it defines a kprobe event for the
function in the kernel's `kprobe_events`, reads the event's id, opens a perf event on it and
attaches the program. `Close` undoes it: `closeProbes` closes each probe's perf event and program
fds and removes its event, and `closeTracepointPrograms`, `closeCgroupPrograms` and
`closeSocketFilters` close the other programs' fds.

`EnableKprobe` names the event `p<func>` or `r<func>`, and `closeProbes` removes the event it
names the same way (`disableName_eq_eventName`). On a kernel that reads the `maxactive` of a return
probe, enabling every probe of a module and closing them, in any order, leaves `kprobe_events` as
it was and closes exactly the perf events they opened and the probes' program fds
(`closeProbes_enableKprobes`): `closeProbes` closes a
probe's perf event before it removes the event, which the kernel refuses while a perf event is
open. On an older kernel, a `maxactive` makes the kernel define the event under a name of its own;
`EnableKprobe` then falls back to a command without it, and the first event is never removed
(`enableKprobe_legacy_leaks`).

`Load` registers a tracepoint program with the perf event fd `efd` left at Go's zero value, where a
kprobe gets `-1`, and `closeTracepointPrograms` closes any `efd` but `-1`: closing a module with a
tracepoint program that was never enabled closes the process's fd `0`, and with two such
programs the loop fails at the second, whatever the kernel
(`closeTracepointPrograms_error_of_efd_zero_twice`).

The kernel is reduced to what these functions observe: the kprobe events by name with their ids,
and the fds of the process. Reading an event's `id` file is taken to give its id; which functions
can be probed and the answers of the perf event calls are oracles. Fds are numbered by a counter
rather than as the lowest free number, which only the numbering depends on.
-/

namespace Gobpf.Elf

open Gobpf.Go

/-! ## The kernel -/

/-- What an fd of the process refers to. -/
inductive FdKind where
  | program
  | perfEvent (id : Nat)
  | other
  deriving DecidableEq, Repr

/-- The kernel's tracing state as the elf package observes it: the events of `kprobe_events` by
name, with their ids, and the next id; whether it reads the `maxactive` of a return probe (Linux
4.12 and later); and the open fds of the process, with the number the next one gets. -/
structure Tracing where
  kprobeEvents : AList (fun _ : List Char => Nat)
  nextId : Nat
  maxactive : Bool
  fds : AList (fun _ : Int => FdKind)
  nextFd : Nat

/-- The errors of a write of `-:<event>` to `kprobe_events`. -/
inductive RemoveError where
  /-- `ENOENT`: no such event. -/
  | enoent
  /-- `EBUSY`: a perf event on it is open. -/
  | ebusy
  deriving DecidableEq, Repr

namespace Tracing

/-- `syscall.Close(fd)`, which fails with `EBADF` on an fd that is not open. -/
def close (t : Tracing) (fd : Int) : Option Tracing :=
  if fd ∈ t.fds then some { t with fds := t.fds.erase fd } else none

/-- The name under which the kernel defines the probe of a command
`<type><maxactive>:<event> <func>`: the command's, unless the kernel cannot read a `maxactive`
and so names the event itself, `<type>_<func>_0`. -/
def kprobeName (t : Tracing) (probeType maxactiveStr eventName funcName : List Char) : List Char :=
  if maxactiveStr ≠ [] ∧ t.maxactive = false then probeType ++ ['_'] ++ funcName ++ ['_', '0']
  else eventName

/-- A write of `<type><maxactive>:<event> <func>` to `kprobe_events`: the kernel defines the event
under `kprobeName` with a new id, unless that name is taken or the function cannot be probed. -/
def addKprobe (probeable : List Char → Bool) (t : Tracing)
    (probeType maxactiveStr eventName funcName : List Char) : Option Tracing :=
  let name := t.kprobeName probeType maxactiveStr eventName funcName
  if name ∈ t.kprobeEvents ∨ probeable funcName = false then none
  else some { t with kprobeEvents := t.kprobeEvents.insert name t.nextId, nextId := t.nextId + 1 }

/-- Whether a perf event on the event `id` is open. -/
def perfEventOpen (t : Tracing) (id : Nat) : Bool :=
  t.fds.entries.any fun s => s.2 == .perfEvent id

/-- A write of `-:<event>` to `kprobe_events`. -/
def removeKprobe (t : Tracing) (eventName : List Char) : Except RemoveError Tracing :=
  match t.kprobeEvents.lookup eventName with
  | none => .error .enoent
  | some id =>
    if t.perfEventOpen id then .error .ebusy
    else .ok { t with kprobeEvents := t.kprobeEvents.erase eventName }

/-- `perf_event_open` on the event `id`, when it succeeds: a new fd. -/
def openPerfEvent (t : Tracing) (id : Nat) : Int × Tracing :=
  (t.nextFd, { t with fds := t.fds.insert t.nextFd (.perfEvent id), nextFd := t.nextFd + 1 })

end Tracing

/-- The answers of the calls on a perf event: whether `perf_event_open` opens one on an event id,
and whether the `PERF_EVENT_IOC_ENABLE` and `PERF_EVENT_IOC_SET_BPF` ioctls on an fd succeed. -/
structure PerfCalls where
  openOk : Nat → Bool
  enableOk : Int → Bool
  setBpfOk : Int → Int → Bool

/-! ## `EnableKprobe` -/

/-- A `Kprobe` of a module: its section's name, its program's fd, and the fd of its perf event,
`-1` for none. -/
structure Kprobe where
  name : List Char
  fd : Int
  efd : Int
  deriving DecidableEq, Repr

/-- The errors of `EnableKprobe`. -/
inductive EnableError where
  /-- `no such kprobe %q` -/
  | noSuchKprobe (secName : List Char)
  /-- `cannot write %q to kprobe_events: %v` -/
  | cannotWrite (cmd : List Char)
  /-- `kprobeIDNotExist`: `kprobe id file doesn't exist` -/
  | kprobeIdNotExist
  /-- `perf_event_open error: %v` -/
  | perfEventOpen
  /-- `error enabling perf event: %v` -/
  | enablePerfEvent
  /-- `error attaching bpf program to perf event: %v` -/
  | attachBpf
  deriving DecidableEq, Repr

/-- `writeKprobeEvent(probeType, eventName, funcName, maxactiveStr)`: the event's id, read from
`events/kprobes/<eventName>/id` once the command is written. -/
def writeKprobeEvent (probeable : List Char → Bool) (probeType eventName funcName maxactiveStr : List Char)
    (t : Tracing) : Except EnableError Nat × Tracing :=
  let cmd := probeType ++ maxactiveStr ++ [':'] ++ eventName ++ [' '] ++ funcName ++ ['\n']
  match t.addKprobe probeable probeType maxactiveStr eventName funcName with
  | none => (.error (.cannotWrite cmd), t)
  | some t' =>
    match t'.kprobeEvents.lookup eventName with
    | none => (.error .kprobeIdNotExist, t')
    | some kprobeId => (.ok kprobeId, t')

/-- `perfEventOpenTracepoint(id, progFd)`: the perf event's fd. After the fd is opened, a failed
ioctl returns `-1` and leaves it open. -/
def perfEventOpenTracepoint (perf : PerfCalls) (id : Nat) (progFd : Int) (t : Tracing) :
    Except EnableError Int × Tracing :=
  if perf.openOk id = false then (.error .perfEventOpen, t)
  else
    let (efd, t) := t.openPerfEvent id
    if perf.enableOk efd = false then (.error .enablePerfEvent, t)
    else if perf.setBpfOk efd progFd = false then (.error .attachBpf, t)
    else (.ok efd, t)

/-- `isKretprobe`. -/
def isKretprobe (secName : List Char) : Bool :=
  hasPrefix secName "kretprobe/".toList

/-- `probeType` of `EnableKprobe`. -/
def kprobeType (secName : List Char) : List Char :=
  if isKretprobe secName then ['r'] else ['p']

/-- `funcName` of `EnableKprobe`. -/
def kprobeFuncName (secName : List Char) : List Char :=
  if isKretprobe secName then trimPrefix secName "kretprobe/".toList
  else trimPrefix secName "kprobe/".toList

/-- `maxactiveStr`: `fmt.Sprintf("%d", maxactive)` for a kretprobe with `maxactive > 0`. -/
def maxactiveStr (secName : List Char) (maxactive : Int) : List Char :=
  if isKretprobe secName ∧ 0 < maxactive then Nat.toDigits 10 maxactive.toNat else []

/-- `eventName := probeType + funcName`. -/
def kprobeEventName (secName : List Char) : List Char :=
  kprobeType secName ++ kprobeFuncName secName

/-- `EnableKprobe(secName, maxactive)` on the module's kprobes: the kprobes after it, in which
`probe.efd` is the perf event's fd, or `-1` when opening it failed, and how it ends. -/
def enableKprobe (probeable : List Char → Bool) (perf : PerfCalls) (secName : List Char)
    (maxactive : Int) (probes : AList (fun _ : List Char => Kprobe)) (t : Tracing) :
    AList (fun _ : List Char => Kprobe) × Except EnableError Unit × Tracing :=
  match probes.lookup secName with
  | none => (probes, .error (.noSuchKprobe secName), t)
  | some probe =>
    let probeType := kprobeType secName
    let funcName := kprobeFuncName secName
    let eventName := kprobeEventName secName
    let (r, t) := writeKprobeEvent probeable probeType eventName funcName
      (maxactiveStr secName maxactive) t
    -- fallback without maxactive
    let (r, t) := match r with
      | .error .kprobeIdNotExist => writeKprobeEvent probeable probeType eventName funcName [] t
      | r => (r, t)
    match r with
    | .error err => (probes, .error err, t)
    | .ok kprobeId =>
      -- `probe.efd, err = perfEventOpenTracepoint(kprobeId, progFd)`
      match perfEventOpenTracepoint perf kprobeId probe.fd t with
      | (.ok efd, t) => (probes.insert secName { probe with efd }, .ok (), t)
      | (.error err, t) => (probes.insert secName { probe with efd := -1 }, .error err, t)

/-- `EnableKprobes(maxactive)`: `EnableKprobe(kprobe.Name, maxactive)` for each kprobe, in the
order in which the loop visits the map, up to the first error. -/
def enableKprobes (probeable : List Char → Bool) (perf : PerfCalls) (maxactive : Int) :
    List Kprobe → AList (fun _ : List Char => Kprobe) → Tracing →
      AList (fun _ : List Char => Kprobe) × Except EnableError Unit × Tracing
  | [], probes, t => (probes, .ok (), t)
  | kprobe :: ks, probes, t =>
    match enableKprobe probeable perf kprobe.name maxactive probes t with
    | (probes, .ok (), t) => enableKprobes probeable perf maxactive ks probes t
    | (probes, .error err, t) => (probes, .error err, t)

/-! ## Closing the programs -/

/-- The errors of the `close` functions of `CloseExt`. -/
inductive ProgramCloseError where
  /-- `error closing perf event fd: %v` -/
  | perfEventFd
  /-- `error closing probe fd: %v` -/
  | probeFd
  /-- `error clearing probe: cannot write %q to kprobe_events: %v` -/
  | clearProbe (cmd : List Char)
  /-- `error closing tracepoint program fd: %v` -/
  | tracepointFd
  /-- `error closing cgroup program fd: %v` -/
  | cgroupFd
  /-- `error closing socket filter fd: %v` -/
  | socketFilterFd
  deriving DecidableEq, Repr

/-- `disableKprobe(eventName)`: an event that does not exist is not an error, as when two modules
of one object file are both closed. -/
def disableKprobe (eventName : List Char) (t : Tracing) : Except ProgramCloseError Tracing :=
  match t.removeKprobe eventName with
  | .ok t => .ok t
  | .error .enoent => .ok t
  | .error .ebusy => .error (.clearProbe (['-', ':'] ++ eventName ++ ['\n']))

/-- The event `closeProbes` removes for a probe: `"r" + funcName` or `"p" + funcName`. -/
def disableName (name : List Char) : List Char :=
  if hasPrefix name "kretprobe/".toList then 'r' :: trimPrefix name "kretprobe/".toList
  else 'p' :: trimPrefix name "kprobe/".toList

/-- `closeProbes` over the kprobes in the order in which the loop visits the map: each probe's perf
event fd, when it has one, then its program's fd, then its event; up to the first error. Returns
the kprobes after it, those it went past with `efd = -1`. -/
def closeProbes : List Kprobe → Tracing → List Kprobe × Except ProgramCloseError Unit × Tracing
  | [], t => ([], .ok (), t)
  | probe :: ps, t =>
    let closeEfd : Except ProgramCloseError (Kprobe × Tracing) :=
      if probe.efd ≠ -1 then
        match t.close probe.efd with
        | none => .error .perfEventFd
        | some t => .ok ({ probe with efd := -1 }, t)
      else .ok (probe, t)
    match closeEfd with
    | .error err => (probe :: ps, .error err, t)
    | .ok (probe, t) =>
      match t.close probe.fd with
      | none => (probe :: ps, .error .probeFd, t)
      | some t =>
        match disableKprobe (disableName probe.name) t with
        | .error err => (probe :: ps, .error err, t)
        | .ok t =>
          let (ps, r, t) := closeProbes ps t
          (probe :: ps, r, t)

/-- A `TracepointProgram`: `Load` leaves `efd` at Go's zero value, `0`. -/
structure TracepointProgram where
  name : List Char
  fd : Int
  efd : Int
  deriving DecidableEq, Repr

/-- The `TracepointProgram` that `Load` registers for a program loaded as `fd`. -/
def TracepointProgram.ofLoad (secName : List Char) (fd : Int) : TracepointProgram :=
  { name := secName, fd := fd, efd := 0 }

/-- The `Kprobe` that `Load` registers for a program loaded as `fd`. -/
def Kprobe.ofLoad (secName : List Char) (fd : Int) : Kprobe :=
  { name := secName, fd := fd, efd := -1 }

/-- `closeTracepointPrograms`: each program's perf event fd unless it is `-1`, then its fd, up to
the first error. Returns the programs after it, those it went past with `efd = -1`. -/
def closeTracepointPrograms : List TracepointProgram → Tracing →
    List TracepointProgram × Except ProgramCloseError Unit × Tracing
  | [], t => ([], .ok (), t)
  | program :: ps, t =>
    let closeEfd : Except ProgramCloseError (TracepointProgram × Tracing) :=
      if program.efd ≠ -1 then
        match t.close program.efd with
        | none => .error .perfEventFd
        | some t => .ok ({ program with efd := -1 }, t)
      else .ok (program, t)
    match closeEfd with
    | .error err => (program :: ps, .error err, t)
    | .ok (program, t) =>
      match t.close program.fd with
      | none => (program :: ps, .error .tracepointFd, t)
      | some t =>
        let (ps, r, t) := closeTracepointPrograms ps t
        (program :: ps, r, t)

/-- The loop of `closeCgroupPrograms` and `closeSocketFilters`: each program's fd, up to the first
error, which is `err`. -/
def closeProgramFds (err : ProgramCloseError) : List Int → Tracing → Except ProgramCloseError Unit × Tracing
  | [], t => (.ok (), t)
  | fd :: fds, t =>
    match t.close fd with
    | none => (.error err, t)
    | some t => closeProgramFds err fds t

/-- `closeCgroupPrograms`, over the programs' fds. -/
def closeCgroupPrograms : List Int → Tracing → Except ProgramCloseError Unit × Tracing :=
  closeProgramFds .cgroupFd

/-- `closeSocketFilters`, over the filters' fds. -/
def closeSocketFilters : List Int → Tracing → Except ProgramCloseError Unit × Tracing :=
  closeProgramFds .socketFilterFd

/-! ## The kernel's calls -/

namespace Tracing

theorem close_eq_some {t t' : Tracing} {fd : Int} (h : t.close fd = some t') :
    fd ∈ t.fds ∧ t' = { t with fds := t.fds.erase fd } := by
  unfold close at h
  split_ifs at h with hfd
  exact ⟨hfd, (Option.some.inj h).symm⟩

theorem close_of_mem {t : Tracing} {fd : Int} (h : fd ∈ t.fds) :
    t.close fd = some { t with fds := t.fds.erase fd } :=
  if_pos h

theorem mem_fds_of_lookup {t : Tracing} {fd : Int} {k : FdKind} (h : t.fds.lookup fd = some k) :
    fd ∈ t.fds :=
  AList.lookup_isSome.1 (by simp [h])

theorem perfEventOpen_iff (t : Tracing) (id : Nat) :
    t.perfEventOpen id = true ↔ ∃ fd, t.fds.lookup fd = some (.perfEvent id) := by
  simp only [perfEventOpen, List.any_eq_true, beq_iff_eq]
  constructor
  · rintro ⟨⟨fd, k⟩, hs, rfl⟩
    exact ⟨fd, AList.mem_lookup_iff.2 hs⟩
  · rintro ⟨fd, hfd⟩
    exact ⟨⟨fd, .perfEvent id⟩, AList.mem_lookup_iff.1 hfd, rfl⟩

/-- The kernel removes an event once no perf event on it is open. -/
theorem removeKprobe_of_lookup {t : Tracing} {e : List Char} {id : Nat}
    (h : t.kprobeEvents.lookup e = some id) (hfree : ∀ fd, t.fds.lookup fd ≠ some (.perfEvent id)) :
    t.removeKprobe e = .ok { t with kprobeEvents := t.kprobeEvents.erase e } := by
  have hclosed : t.perfEventOpen id = false := by
    rw [Bool.eq_false_iff, ne_eq, perfEventOpen_iff]
    exact fun ⟨fd, hfd⟩ => hfree fd hfd
  simp [removeKprobe, h, hclosed]

/-- The state after `closeProbes` has released a probe: its perf event and program fds closed and
its event removed. -/
def detach (t : Tracing) (q : Kprobe) : Tracing :=
  { t with fds := (t.fds.erase q.efd).erase q.fd,
           kprobeEvents := t.kprobeEvents.erase (kprobeEventName q.name) }

end Tracing

/-! ## `closeProbes` -/

/-- `closeProbes` removes the event `EnableKprobe` defines. -/
theorem disableName_eq_eventName (name : List Char) : disableName name = kprobeEventName name := by
  unfold disableName kprobeEventName kprobeType kprobeFuncName isKretprobe
  split_ifs <;> rfl

/-- What `closeProbes` needs of a probe to release it: its perf event is open on the event
`EnableKprobe` defined for it, the only perf event open on it, and its program fd is open. -/
structure Attached (t : Tracing) (q : Kprobe) (id : Nat) : Prop where
  efd_ne : q.efd ≠ -1
  perf : t.fds.lookup q.efd = some (.perfEvent id)
  event : t.kprobeEvents.lookup (kprobeEventName q.name) = some id
  program : t.fds.lookup q.fd = some .program
  only : ∀ fd, t.fds.lookup fd = some (.perfEvent id) → fd = q.efd

/-- **`closeProbes` releases an attached probe**: it closes the perf event, then the program, and
the kernel then removes the event. -/
theorem closeProbes_cons {q : Kprobe} {id : Nat} {t : Tracing} (h : Attached t q id)
    (qs : List Kprobe) :
    closeProbes (q :: qs) t =
      ({ q with efd := -1 } :: (closeProbes qs (t.detach q)).1,
        (closeProbes qs (t.detach q)).2.1, (closeProbes qs (t.detach q)).2.2) := by
  have hne : q.fd ≠ q.efd := fun heq => by
    have := h.perf
    rw [← heq, h.program] at this
    cases this
  have hclose₁ := Tracing.close_of_mem (Tracing.mem_fds_of_lookup h.perf)
  have hclose₂ : Tracing.close { t with fds := t.fds.erase q.efd } q.fd =
      some { t with fds := (t.fds.erase q.efd).erase q.fd } :=
    Tracing.close_of_mem (Tracing.mem_fds_of_lookup
      (show (t.fds.erase q.efd).lookup q.fd = some .program by
        rw [AList.lookup_erase_ne hne]; exact h.program))
  have hfree : ∀ fd, ((t.fds.erase q.efd).erase q.fd).lookup fd ≠ some (.perfEvent id) := by
    intro fd hfd
    by_cases hfd₁ : fd = q.fd
    · subst hfd₁
      simp at hfd
    by_cases hfd₂ : fd = q.efd
    · subst hfd₂
      simp [AList.lookup_erase_ne hfd₁] at hfd
    rw [AList.lookup_erase_ne hfd₁, AList.lookup_erase_ne hfd₂] at hfd
    exact hfd₂ (h.only fd hfd)
  have hremove := Tracing.removeKprobe_of_lookup
    (t := { t with fds := (t.fds.erase q.efd).erase q.fd }) h.event hfree
  simp only [closeProbes, if_pos h.efd_ne, hclose₁, hclose₂, disableName_eq_eventName,
    disableKprobe, hremove]
  rfl

theorem lookup_of_lookup_erase {α : Type} {β : α → Type} [DecidableEq α] {s : AList β} {a x : α}
    {b : β x} (h : (s.erase a).lookup x = some b) : s.lookup x = some b := by
  by_cases hx : x = a
  · subst hx
    simp at h
  · rwa [AList.lookup_erase_ne hx] at h

/-- The probes that `closeProbes` has left to release: each attached, each on an event, a perf
event fd and a program fd of its own. -/
structure AllAttached (t : Tracing) (qs : List Kprobe) : Prop where
  attached : ∀ q ∈ qs, ∃ id, Attached t q id
  events_nodup : (qs.map fun q => kprobeEventName q.name).Nodup
  efds_nodup : (qs.map Kprobe.efd).Nodup
  fds_nodup : (qs.map Kprobe.fd).Nodup

/-- Releasing one probe leaves the others attached. -/
theorem AllAttached.detach {t : Tracing} {q : Kprobe} {qs : List Kprobe}
    (h : AllAttached t (q :: qs)) : AllAttached (t.detach q) qs := by
  obtain ⟨hatt, hev, hefd, hfd⟩ := h
  simp only [List.map_cons, List.nodup_cons, List.mem_map] at hev hefd hfd
  obtain ⟨idq, hq⟩ := hatt q List.mem_cons_self
  refine ⟨fun r hr => ?_, hev.2, hefd.2, hfd.2⟩
  obtain ⟨id, hr'⟩ := hatt r (List.mem_cons_of_mem _ hr)
  have hefd_q : r.efd ≠ q.efd := fun he => hefd.1 ⟨r, hr, he⟩
  have hfd_q : r.fd ≠ q.fd := fun he => hfd.1 ⟨r, hr, he⟩
  have hev_q : kprobeEventName r.name ≠ kprobeEventName q.name := fun he => hev.1 ⟨r, hr, he⟩
  have hefd_fd : r.efd ≠ q.fd := fun he => by
    have := hr'.perf
    rw [he, hq.program] at this
    cases this
  have hfd_efd : r.fd ≠ q.efd := fun he => by
    have := hr'.program
    rw [he, hq.perf] at this
    cases this
  refine ⟨id, hr'.efd_ne, ?_, ?_, ?_, fun fd hfd' => hr'.only fd ?_⟩
  · simp only [Tracing.detach, AList.lookup_erase_ne hefd_fd, AList.lookup_erase_ne hefd_q]
    exact hr'.perf
  · simp only [Tracing.detach, AList.lookup_erase_ne hev_q]
    exact hr'.event
  · simp only [Tracing.detach, AList.lookup_erase_ne hfd_q, AList.lookup_erase_ne hfd_efd]
    exact hr'.program
  · exact lookup_of_lookup_erase (lookup_of_lookup_erase hfd')

/-- **`closeProbes` releases every attached probe**, in any order: it ends without error, with
every probe's `efd` reset, the probes' events removed and their fds closed, and nothing else
changed. -/
theorem closeProbes_of_allAttached :
    ∀ {qs : List Kprobe} {t : Tracing}, AllAttached t qs →
      (closeProbes qs t).1 = qs.map (fun q => { q with efd := -1 }) ∧
      (closeProbes qs t).2.1 = .ok () ∧
      (∀ e, (closeProbes qs t).2.2.kprobeEvents.lookup e =
        if e ∈ qs.map (fun q => kprobeEventName q.name) then none else t.kprobeEvents.lookup e) ∧
      (∀ fd, (closeProbes qs t).2.2.fds.lookup fd =
        if fd ∈ qs.map Kprobe.efd ∨ fd ∈ qs.map Kprobe.fd then none else t.fds.lookup fd)
  | [], t, _ => ⟨rfl, rfl, fun _ => rfl, fun _ => by simp [closeProbes]⟩
  | q :: qs, t, h => by
    obtain ⟨id, hq⟩ := h.attached q List.mem_cons_self
    obtain ⟨hps, hr, hev, hfd⟩ := closeProbes_of_allAttached h.detach
    rw [closeProbes_cons hq qs]
    refine ⟨by rw [hps]; rfl, hr, fun e => ?_, fun fd => ?_⟩
    · rw [hev e]
      by_cases he : e = kprobeEventName q.name
      · subst he
        simp [Tracing.detach]
      · simp [he, Tracing.detach, AList.lookup_erase_ne he]
    · rw [hfd fd]
      by_cases hq' : fd = q.efd ∨ fd = q.fd
      · have hnone : ((t.fds.erase q.efd).erase q.fd).lookup fd = none := by
          rw [AList.lookup_eq_none, AList.mem_erase, AList.mem_erase]
          tauto
        rw [if_pos (show fd ∈ (q :: qs).map Kprobe.efd ∨ fd ∈ (q :: qs).map Kprobe.fd by
          simp only [List.map_cons, List.mem_cons]; tauto)]
        split_ifs
        · rfl
        · exact hnone
      · obtain ⟨h₁, h₂⟩ := not_or.1 hq'
        simp [h₁, h₂, Tracing.detach, AList.lookup_erase_ne h₁, AList.lookup_erase_ne h₂]

/-! ## `EnableKprobe` on a kernel that takes its command as written -/

/-- The perf event calls all succeed. -/
structure PerfCalls.Succeed (perf : PerfCalls) : Prop where
  openOk : ∀ id, perf.openOk id = true
  enableOk : ∀ fd, perf.enableOk fd = true
  setBpfOk : ∀ fd progFd, perf.setBpfOk fd progFd = true

/-- The state after `EnableKprobe` has attached a probe under the event `e`: the event defined
with the next id, and a perf event open on it. -/
def Tracing.attach (t : Tracing) (e : List Char) : Tracing :=
  { t with kprobeEvents := t.kprobeEvents.insert e t.nextId, nextId := t.nextId + 1,
           fds := t.fds.insert t.nextFd (.perfEvent t.nextId), nextFd := t.nextFd + 1 }

/-- The kernel names the event as the command does unless it must ignore a `maxactive`. -/
theorem kprobeName_eq {t : Tracing} {secName : List Char} {maxactive : Int}
    (h : t.maxactive = true ∨ maxactiveStr secName maxactive = []) :
    t.kprobeName (kprobeType secName) (maxactiveStr secName maxactive) (kprobeEventName secName)
      (kprobeFuncName secName) = kprobeEventName secName := by
  unfold Tracing.kprobeName
  rw [if_neg]
  rintro ⟨hne, hold⟩
  rcases h with h | h
  · simp [h] at hold
  · exact hne h

theorem writeKprobeEvent_eq_ok {probeable : List Char → Bool} {t : Tracing}
    {probeType eventName funcName maxStr : List Char}
    (hname : t.kprobeName probeType maxStr eventName funcName = eventName)
    (habs : eventName ∉ t.kprobeEvents) (hp : probeable funcName = true) :
    writeKprobeEvent probeable probeType eventName funcName maxStr t =
      (.ok t.nextId,
        { t with kprobeEvents := t.kprobeEvents.insert eventName t.nextId, nextId := t.nextId + 1 }) := by
  have hadd : t.addKprobe probeable probeType maxStr eventName funcName =
      some { t with kprobeEvents := t.kprobeEvents.insert eventName t.nextId,
                    nextId := t.nextId + 1 } := by
    simp [Tracing.addKprobe, hname, habs, hp]
  simp [writeKprobeEvent, hadd]

theorem perfEventOpenTracepoint_eq_ok {perf : PerfCalls} (hperf : perf.Succeed) (id : Nat)
    (progFd : Int) (t : Tracing) :
    perfEventOpenTracepoint perf id progFd t =
      (.ok t.nextFd, { t with fds := t.fds.insert t.nextFd (.perfEvent id), nextFd := t.nextFd + 1 }) := by
  simp [perfEventOpenTracepoint, Tracing.openPerfEvent, hperf.openOk, hperf.enableOk, hperf.setBpfOk]

/-- A failed ioctl leaves the perf event open. -/
theorem perfEventOpenTracepoint_ioctl_error {perf : PerfCalls} {id : Nat} {progFd : Int}
    {t : Tracing} (hopen : perf.openOk id = true)
    (hioctl : perf.enableOk t.nextFd = false ∨ perf.setBpfOk t.nextFd progFd = false) :
    ∃ err, perfEventOpenTracepoint perf id progFd t = (.error err, (t.openPerfEvent id).2) := by
  by_cases hen : perf.enableOk t.nextFd = false
  · exact ⟨.enablePerfEvent, by simp [perfEventOpenTracepoint, Tracing.openPerfEvent, hopen, hen]⟩
  · exact ⟨.attachBpf, by simp [perfEventOpenTracepoint, Tracing.openPerfEvent, hopen, hen,
      hioctl.resolve_left hen]⟩

/-- **`EnableKprobe` attaches a probe** whose event is not defined yet, on a kernel that takes the
command as written: the probe gets a new perf event, open on its new event. -/
theorem enableKprobe_eq_ok {probeable : List Char → Bool} {perf : PerfCalls} {maxactive : Int}
    {probes : AList (fun _ : List Char => Kprobe)} {t : Tracing} {secName : List Char}
    {probe : Kprobe} (hp : probes.lookup secName = some probe)
    (habs : kprobeEventName secName ∉ t.kprobeEvents)
    (hprobeable : probeable (kprobeFuncName secName) = true)
    (hmax : t.maxactive = true ∨ maxactiveStr secName maxactive = []) (hperf : perf.Succeed) :
    enableKprobe probeable perf secName maxactive probes t =
      (probes.insert secName { probe with efd := t.nextFd }, .ok (),
        t.attach (kprobeEventName secName)) := by
  simp only [enableKprobe, hp, writeKprobeEvent_eq_ok (kprobeName_eq hmax) habs hprobeable,
    perfEventOpenTracepoint_eq_ok hperf]
  rfl

/-! ## Event names -/

/-- The name of a section that `Load` registers as a kprobe: `kprobe/<func>` or
`kretprobe/<func>`. -/
def IsKprobeName (n : List Char) : Prop :=
  hasPrefix n "kprobe/".toList = true ∨ hasPrefix n "kretprobe/".toList = true

theorem kprobeEventName_kprobe (x : List Char) :
    kprobeEventName ("kprobe/".toList ++ x) = 'p' :: x := by
  have hret : isKretprobe ("kprobe/".toList ++ x) = false := rfl
  simp only [kprobeEventName, kprobeType, kprobeFuncName, hret, Bool.false_eq_true, if_false,
    trimPrefix_append, List.singleton_append]

theorem kprobeEventName_kretprobe (x : List Char) :
    kprobeEventName ("kretprobe/".toList ++ x) = 'r' :: x := by
  have hret : isKretprobe ("kretprobe/".toList ++ x) = true := hasPrefix_append _ _
  simp only [kprobeEventName, kprobeType, kprobeFuncName, hret, if_true, trimPrefix_append,
    List.singleton_append]

/-- The event name tells the probe type and the function apart, so distinct kprobe sections have
distinct events. -/
theorem kprobeEventName_inj {a b : List Char} (ha : IsKprobeName a) (hb : IsKprobeName b)
    (h : kprobeEventName a = kprobeEventName b) : a = b := by
  rcases ha with ha | ha <;> rcases hb with hb | hb <;>
    obtain ⟨x, rfl⟩ := hasPrefix_iff.1 ha <;> obtain ⟨y, rfl⟩ := hasPrefix_iff.1 hb <;>
    simp only [kprobeEventName_kprobe, kprobeEventName_kretprobe, List.cons.injEq] at h
  · rw [h.2]
  · exact absurd h.1 (by decide)
  · exact absurd h.1 (by decide)
  · rw [h.2]

/-! ## `EnableKprobes`, then `closeProbes` -/

/-- The kprobes as `Load` registers them: each under its section's name, a kprobe name, each with
a program fd of its own. -/
structure Registered (probes : AList (fun _ : List Char => Kprobe)) : Prop where
  name_eq : ∀ n p, probes.lookup n = some p → p.name = n
  kprobeName : ∀ n ∈ probes, IsKprobeName n
  fd_inj : ∀ n m p q, probes.lookup n = some p → probes.lookup m = some q → p.fd = q.fd → n = m

/-- Every fd, id and perf event of the kernel is below the counters that number the next ones. -/
structure Tracing.Fresh (t : Tracing) : Prop where
  fds_lt : ∀ fd ∈ t.fds, fd < t.nextFd
  events_lt : ∀ e id, t.kprobeEvents.lookup e = some id → id < t.nextId
  perf_lt : ∀ fd id, t.fds.lookup fd = some (.perfEvent id) → id < t.nextId

namespace Tracing

@[simp] theorem attach_maxactive (t : Tracing) (e : List Char) : (t.attach e).maxactive = t.maxactive :=
  rfl

@[simp] theorem attach_nextFd (t : Tracing) (e : List Char) : (t.attach e).nextFd = t.nextFd + 1 :=
  rfl

theorem attach_events_lookup (t : Tracing) (e x : List Char) :
    (t.attach e).kprobeEvents.lookup x = if x = e then some t.nextId else t.kprobeEvents.lookup x := by
  split_ifs with hx
  · subst hx
    exact AList.lookup_insert _
  · exact AList.lookup_insert_ne hx

theorem attach_fds_lookup (t : Tracing) (e : List Char) (fd : Int) :
    (t.attach e).fds.lookup fd =
      if fd = t.nextFd then some (.perfEvent t.nextId) else t.fds.lookup fd := by
  split_ifs with hfd
  · subst hfd
    exact AList.lookup_insert _
  · exact AList.lookup_insert_ne hfd

theorem Fresh.lt_of_lookup {t : Tracing} (h : t.Fresh) {fd : Int} {k : FdKind}
    (hfd : t.fds.lookup fd = some k) : fd < t.nextFd :=
  h.fds_lt fd (mem_fds_of_lookup hfd)

/-- Attaching keeps the counters ahead. -/
theorem Fresh.attach {t : Tracing} (h : t.Fresh) (e : List Char) : (t.attach e).Fresh := by
  refine ⟨fun fd hfd => ?_, fun x id hx => ?_, fun fd id hfd => ?_⟩
  · rw [← AList.lookup_isSome, attach_fds_lookup] at hfd
    split_ifs at hfd with h'
    · simp [h']
    · have := h.fds_lt fd (AList.lookup_isSome.1 hfd)
      simp only [attach_nextFd]
      omega
  · rw [attach_events_lookup] at hx
    split_ifs at hx
    · cases hx
      exact Nat.lt_succ_self _
    · exact Nat.lt_succ_of_lt (h.events_lt x id hx)
  · rw [attach_fds_lookup] at hfd
    split_ifs at hfd
    · cases hfd
      exact Nat.lt_succ_self _
    · exact Nat.lt_succ_of_lt (h.perf_lt fd id hfd)

/-- Defining an event with the next id keeps the counters ahead. -/
theorem Fresh.addEvent {t : Tracing} (h : t.Fresh) (e : List Char) :
    ({ t with kprobeEvents := t.kprobeEvents.insert e t.nextId, nextId := t.nextId + 1 } :
      Tracing).Fresh := by
  refine ⟨h.fds_lt, fun x id hx => ?_, fun fd id hfd => Nat.lt_succ_of_lt (h.perf_lt fd id hfd)⟩
  by_cases hxe : x = e
  · subst hxe
    rw [AList.lookup_insert] at hx
    cases hx
    exact Nat.lt_succ_self _
  · rw [AList.lookup_insert_ne hxe] at hx
    exact Nat.lt_succ_of_lt (h.events_lt x id hx)

end Tracing

/-- An attached probe stays attached when another event is attached. -/
theorem Attached.attach {t : Tracing} {q : Kprobe} {id : Nat} (h : Attached t q id)
    (hfresh : t.Fresh) {e : List Char} (he : kprobeEventName q.name ≠ e) :
    Attached (t.attach e) q id := by
  have hefd : q.efd ≠ t.nextFd := (hfresh.lt_of_lookup h.perf).ne
  have hfd : q.fd ≠ t.nextFd := (hfresh.lt_of_lookup h.program).ne
  refine ⟨h.efd_ne, ?_, ?_, ?_, fun fd hfd' => ?_⟩
  · rw [Tracing.attach_fds_lookup, if_neg hefd]
    exact h.perf
  · rw [Tracing.attach_events_lookup, if_neg he]
    exact h.event
  · rw [Tracing.attach_fds_lookup, if_neg hfd]
    exact h.program
  · rw [Tracing.attach_fds_lookup] at hfd'
    split_ifs at hfd' with hnew
    · cases hfd'
      exact absurd (hfresh.events_lt _ _ h.event) (lt_irrefl _)
    · exact h.only fd hfd'

/-- The probe that `EnableKprobe` attaches is attached. -/
theorem attached_attach_self {t : Tracing} (hfresh : t.Fresh) {p : Kprobe}
    (hprog : t.fds.lookup p.fd = some .program) :
    Attached (t.attach (kprobeEventName p.name)) { p with efd := t.nextFd } t.nextId := by
  have hfd : p.fd ≠ t.nextFd := (hfresh.lt_of_lookup hprog).ne
  refine ⟨show (t.nextFd : Int) ≠ -1 by omega, ?_, ?_, ?_, fun fd hfd' => ?_⟩
  · rw [Tracing.attach_fds_lookup, if_pos rfl]
  · rw [Tracing.attach_events_lookup, if_pos rfl]
  · rw [Tracing.attach_fds_lookup, if_neg hfd]
    exact hprog
  · rw [Tracing.attach_fds_lookup] at hfd'
    split_ifs at hfd' with hnew
    · exact hnew
    · exact absurd (hfresh.perf_lt fd _ hfd') (lt_irrefl _)

/-- Setting a probe's `efd` keeps the map as `Load` registered it. -/
theorem Registered.insert_efd {probes : AList (fun _ : List Char => Kprobe)} (h : Registered probes)
    {n : List Char} {p : Kprobe} (hp : probes.lookup n = some p) (efd : Int) :
    Registered (probes.insert n { p with efd := efd }) := by
  have hlookup : ∀ m, (probes.insert n { p with efd := efd }).lookup m =
      if m = n then some { p with efd := efd } else probes.lookup m := fun m => by
    split_ifs with hm
    · subst hm
      exact AList.lookup_insert _
    · exact AList.lookup_insert_ne hm
  refine ⟨fun m q hq => ?_, fun m hm => ?_, fun m m' q q' hq hq' hfd => ?_⟩
  · rw [hlookup] at hq
    split_ifs at hq with hm
    · cases hq
      exact (h.name_eq n p hp).trans hm.symm
    · exact h.name_eq m q hq
  · rcases (AList.mem_insert _).1 hm with rfl | hm
    · exact h.kprobeName _ (AList.lookup_isSome.1 (by simp [hp]))
    · exact h.kprobeName m hm
  · have hold : ∀ k r, (probes.insert n { p with efd := efd }).lookup k = some r →
        ∃ r', probes.lookup k = some r' ∧ r'.fd = r.fd := fun k r hr => by
      rw [hlookup] at hr
      split_ifs at hr with hk
      · cases hr
        exact ⟨p, hk ▸ hp, rfl⟩
      · exact ⟨r, hr, rfl⟩
    obtain ⟨r, hr, hrfd⟩ := hold m q hq
    obtain ⟨r', hr', hr'fd⟩ := hold m' q' hq'
    exact h.fd_inj m m' r r' hr hr' (by rw [hrfd, hr'fd, hfd])

/-- Where `EnableKprobes` is, started on the kernel `t₀` and the kprobes `probes₀`: it has
attached every kprobe but the `pending` ones, each on a perf event it opened, and left the pending
ones as `Load` registered them; the kernel is `t₀` but for the events and perf events it added. -/
structure Enabling (t₀ : Tracing) (probes₀ : AList (fun _ : List Char => Kprobe)) (t : Tracing)
    (probes : AList (fun _ : List Char => Kprobe)) (pending : List Kprobe) : Prop where
  registered : Registered probes
  keys_iff : ∀ n, n ∈ probes ↔ n ∈ probes₀
  fd_eq : ∀ n q, probes.lookup n = some q → ∃ p, probes₀.lookup n = some p ∧ q.fd = p.fd
  fresh : t.Fresh
  maxactive_eq : t.maxactive = t₀.maxactive
  nextFd_le : t₀.nextFd ≤ t.nextFd
  done : ∀ n p, probes.lookup n = some p → n ∉ pending.map Kprobe.name →
    (∃ id, Attached t p id) ∧ (t₀.nextFd : Int) ≤ p.efd
  waiting : ∀ k ∈ pending, ∃ p, probes.lookup k.name = some p ∧ p.efd = -1 ∧
    t.fds.lookup p.fd = some .program ∧ kprobeEventName k.name ∉ t.kprobeEvents
  pending_nodup : (pending.map Kprobe.name).Nodup
  efd_inj : ∀ n m p q, probes.lookup n = some p → probes.lookup m = some q →
    n ∉ pending.map Kprobe.name → m ∉ pending.map Kprobe.name → p.efd = q.efd → n = m
  events_frame : ∀ e, (∀ n ∈ probes, n ∉ pending.map Kprobe.name → e ≠ kprobeEventName n) →
    t.kprobeEvents.lookup e = t₀.kprobeEvents.lookup e
  fds_frame : ∀ fd : Int, fd < t₀.nextFd → t.fds.lookup fd = t₀.fds.lookup fd
  fds_new : ∀ fd : Int, (t₀.nextFd : Int) ≤ fd → t.fds.lookup fd ≠ none →
    ∃ n p, probes.lookup n = some p ∧ n ∉ pending.map Kprobe.name ∧ p.efd = fd

theorem mem_of_lookup {probes : AList (fun _ : List Char => Kprobe)} {n : List Char} {p : Kprobe}
    (h : probes.lookup n = some p) : n ∈ probes :=
  AList.lookup_isSome.1 (by simp [h])

/-- **One turn of `EnableKprobes`**: attaching the next kprobe keeps `Enabling`. -/
theorem Enabling.step {t₀ t : Tracing} {probes₀ probes : AList (fun _ : List Char => Kprobe)}
    {k : Kprobe} {ks : List Kprobe} (h : Enabling t₀ probes₀ t probes (k :: ks)) {p : Kprobe}
    (hp : probes.lookup k.name = some p) :
    Enabling t₀ probes₀ (t.attach (kprobeEventName k.name))
      (probes.insert k.name { p with efd := t.nextFd }) ks := by
  obtain ⟨p₀, hp₀, -, hprog, -⟩ := h.waiting k List.mem_cons_self
  rw [Option.some.inj (hp₀.symm.trans hp)] at hprog
  have hname : p.name = k.name := h.registered.name_eq _ _ hp
  have hk : k.name ∉ ks.map Kprobe.name := (List.nodup_cons.1 h.pending_nodup).1
  have hkmem : k.name ∈ probes := mem_of_lookup hp
  have hlookup : ∀ m, (probes.insert k.name { p with efd := t.nextFd }).lookup m =
      if m = k.name then some { p with efd := t.nextFd } else probes.lookup m := fun m => by
    split_ifs with hm
    · subst hm
      exact AList.lookup_insert _
    · exact AList.lookup_insert_ne hm
  have hev : ∀ m ∈ probes, m ≠ k.name → kprobeEventName m ≠ kprobeEventName k.name :=
    fun m hm hne he => hne (kprobeEventName_inj (h.registered.kprobeName m hm)
      (h.registered.kprobeName _ hkmem) he)
  have hnot : ∀ m, m ∉ ks.map Kprobe.name → m ≠ k.name → m ∉ (k :: ks).map Kprobe.name :=
    fun m hm hne hm' => by
      simp only [List.map_cons, List.mem_cons] at hm'
      exact hm'.elim hne hm
  refine ⟨h.registered.insert_efd hp _, fun m => ?_, fun m q hq => ?_, h.fresh.attach _,
    h.maxactive_eq,
    le_trans h.nextFd_le (Nat.le_succ _), fun m q hq hm => ?_, fun k' hk' => ?_,
    (List.nodup_cons.1 h.pending_nodup).2, fun m m' q q' hq hq' hm hm' hqq' => ?_,
    fun e he => ?_, fun fd hfd => ?_, fun fd hfd hsome => ?_⟩
  · rw [AList.mem_insert, ← h.keys_iff m]
    exact ⟨fun hm => hm.elim (· ▸ hkmem) id, .inr⟩
  · rw [hlookup] at hq
    split_ifs at hq with hmk
    · cases hq
      obtain ⟨p₀, hp₀, hfd⟩ := h.fd_eq _ _ hp
      exact ⟨p₀, hmk ▸ hp₀, hfd⟩
    · exact h.fd_eq m q hq
  · rw [hlookup] at hq
    split_ifs at hq with hmk
    · cases hq
      refine ⟨⟨t.nextId, ?_⟩, show (t₀.nextFd : Int) ≤ t.nextFd by exact_mod_cast h.nextFd_le⟩
      simpa [hname] using attached_attach_self h.fresh hprog
    · obtain ⟨⟨id, hatt⟩, hle⟩ := h.done m q hq (hnot m hm hmk)
      refine ⟨⟨id, hatt.attach h.fresh ?_⟩, hle⟩
      rw [h.registered.name_eq m q hq]
      exact hev m (mem_of_lookup hq) hmk
  · obtain ⟨q, hq, hefd, hqprog, habs⟩ := h.waiting k' (List.mem_cons_of_mem _ hk')
    have hne : k'.name ≠ k.name := fun he => hk (he ▸ List.mem_map_of_mem hk')
    refine ⟨q, by rw [hlookup, if_neg hne]; exact hq, hefd, ?_, ?_⟩
    · rw [Tracing.attach_fds_lookup, if_neg (h.fresh.lt_of_lookup hqprog).ne]
      exact hqprog
    · intro hmem
      rcases (AList.mem_insert _).1 hmem with he | he
      · exact hev _ (mem_of_lookup hq) hne he
      · exact habs he
  · rw [hlookup] at hq hq'
    have hold : ∀ r n, probes.lookup n = some r → n ≠ k.name → n ∉ ks.map Kprobe.name →
        r.efd < t.nextFd := fun r n hr hn hn' => by
      obtain ⟨⟨id, hatt⟩, -⟩ := h.done n r hr (hnot n hn' hn)
      exact h.fresh.lt_of_lookup hatt.perf
    split_ifs at hq hq' with h₁ h₂ h₂
    · exact h₁.trans h₂.symm
    · cases hq
      exact absurd hqq' (hold q' m' hq' h₂ hm').ne'
    · cases hq'
      exact absurd hqq' (hold q m hq h₁ hm).ne
    · exact h.efd_inj m m' q q' hq hq' (hnot m hm h₁) (hnot m' hm' h₂) hqq'
  · have hek : e ≠ kprobeEventName k.name :=
      he k.name ((AList.mem_insert _).2 (.inl rfl)) hk
    rw [Tracing.attach_events_lookup, if_neg hek]
    refine h.events_frame e fun n hn hn' => ?_
    by_cases hnk : n = k.name
    · exact hnk ▸ hek
    · exact he n ((AList.mem_insert _).2 (.inr hn)) fun hks => hn' (by
        simp only [List.map_cons, List.mem_cons]; exact .inr hks)
  · have hne : fd ≠ t.nextFd := by
      have := h.nextFd_le
      omega
    rw [Tracing.attach_fds_lookup, if_neg hne]
    exact h.fds_frame fd hfd
  · rw [Tracing.attach_fds_lookup] at hsome
    split_ifs at hsome with hnew
    · exact ⟨k.name, _, by rw [hlookup, if_pos rfl], hk, hnew.symm⟩
    · obtain ⟨n, r, hr, hn, hrfd⟩ := h.fds_new fd hfd hsome
      have hnk : n ≠ k.name := fun he => hn (by simp [he])
      refine ⟨n, r, by rw [hlookup, if_neg hnk]; exact hr, fun hks => hn ?_, hrfd⟩
      simp only [List.map_cons, List.mem_cons]
      exact .inr hks

theorem mem_values_iff {probes : AList (fun _ : List Char => Kprobe)} {p : Kprobe} :
    p ∈ probes.entries.map Sigma.snd ↔ ∃ n, probes.lookup n = some p := by
  rw [List.mem_map]
  constructor
  · rintro ⟨⟨n, q⟩, hs, rfl⟩
    exact ⟨n, AList.mem_lookup_iff.2 hs⟩
  · rintro ⟨n, hn⟩
    exact ⟨⟨n, p⟩, AList.mem_lookup_iff.1 hn, rfl⟩

/-- A list of the kprobes' values, visited once each, names every key. -/
theorem mem_names {probes : AList (fun _ : List Char => Kprobe)} (hreg : Registered probes)
    {ks : List Kprobe} (hks : ks.Perm (probes.entries.map Sigma.snd)) {n : List Char} {p : Kprobe}
    (hp : probes.lookup n = some p) : n ∈ ks.map Kprobe.name :=
  List.mem_map.2 ⟨p, hks.mem_iff.2 (mem_values_iff.2 ⟨n, hp⟩), hreg.name_eq n p hp⟩

/-- The values of a map, mapped by a function that tells its keys apart, have no duplicates. -/
theorem nodup_map_values {γ : Type} {probes : AList (fun _ : List Char => Kprobe)} (f : Kprobe → γ)
    (hf : ∀ n m p q, probes.lookup n = some p → probes.lookup m = some q → f p = f q → n = m) :
    ((probes.entries.map Sigma.snd).map f).Nodup := by
  rw [List.map_map]
  refine List.Nodup.map_on (fun x hx y hy hxy => ?_) probes.nodupKeys.nodup
  obtain ⟨a, b⟩ := x
  obtain ⟨c, d⟩ := y
  have hb : probes.lookup a = some b := AList.mem_lookup_iff.2 hx
  have hd : probes.lookup c = some d := AList.mem_lookup_iff.2 hy
  obtain rfl : a = c := hf a c b d hb hd hxy
  obtain rfl : b = d := Option.some.inj (hb.symm.trans hd)
  rfl

/-- **Before the loop**, with the kprobes as `Load` registered them, and a visit of each. -/
theorem Enabling.init {t : Tracing} {probes : AList (fun _ : List Char => Kprobe)} {ks : List Kprobe}
    (hreg : Registered probes) (hfresh : t.Fresh)
    (hload : ∀ n p, probes.lookup n = some p → p.efd = -1 ∧ t.fds.lookup p.fd = some .program ∧
      kprobeEventName n ∉ t.kprobeEvents)
    (hks : ks.Perm (probes.entries.map Sigma.snd)) : Enabling t probes t probes ks := by
  have hnames : (ks.map Kprobe.name).Nodup := by
    refine (hks.map Kprobe.name).nodup_iff.2 (nodup_map_values _ fun n m p q hp hq hpq => ?_)
    rw [← hreg.name_eq n p hp, ← hreg.name_eq m q hq, hpq]
  refine ⟨hreg, fun _ => Iff.rfl, fun n q hq => ⟨q, hq, rfl⟩, hfresh, rfl, le_refl _,
    fun n p hp hn => absurd (mem_names hreg hks hp) hn, fun k hk => ?_, hnames,
    fun n _ p _ hp _ hn => absurd (mem_names hreg hks hp) hn, fun _ _ => rfl, fun _ _ => rfl,
    fun fd hfd hsome => ?_⟩
  · obtain ⟨n, hn⟩ := mem_values_iff.1 (hks.mem_iff.1 hk)
    have hname := hreg.name_eq n k hn
    obtain ⟨hefd, hprog, habs⟩ := hload n k hn
    exact ⟨k, hname ▸ hn, hefd, hprog, hname ▸ habs⟩
  · obtain ⟨k, hk⟩ := Option.ne_none_iff_exists'.1 hsome
    exact absurd (hfresh.lt_of_lookup hk) (not_lt.2 hfd)

/-- **`EnableKprobes` attaches every kprobe** from `Enabling`, on a kernel that takes the commands
as written, when every function can be probed and the perf event calls succeed. -/
theorem enableKprobes_of_enabling {probeable : List Char → Bool} {perf : PerfCalls}
    {maxactive : Int} (hperf : perf.Succeed) {t₀ : Tracing}
    {probes₀ : AList (fun _ : List Char => Kprobe)} :
    ∀ {ks : List Kprobe} {t : Tracing} {probes : AList (fun _ : List Char => Kprobe)},
      Enabling t₀ probes₀ t probes ks → (∀ k ∈ ks, probeable (kprobeFuncName k.name) = true) →
      (t₀.maxactive = true ∨ maxactive ≤ 0) →
      ∃ probes' t', enableKprobes probeable perf maxactive ks probes t = (probes', .ok (), t') ∧
        Enabling t₀ probes₀ t' probes' []
  | [], t, probes, h, _, _ => ⟨probes, t, rfl, h⟩
  | k :: ks, t, probes, h, hpr, hmax => by
    obtain ⟨p, hp, -, -, habs⟩ := h.waiting k List.mem_cons_self
    have hmax' : t.maxactive = true ∨ maxactiveStr k.name maxactive = [] := by
      rw [h.maxactive_eq]
      refine hmax.imp id fun hle => ?_
      simp [maxactiveStr, not_lt.2 hle]
    have henable := enableKprobe_eq_ok hp habs (hpr k List.mem_cons_self) hmax' hperf
    have hrun : enableKprobes probeable perf maxactive (k :: ks) probes t =
        enableKprobes probeable perf maxactive ks
          (probes.insert k.name { p with efd := t.nextFd }) (t.attach (kprobeEventName k.name)) := by
      simp only [enableKprobes, henable]
    rw [hrun]
    exact enableKprobes_of_enabling hperf (h.step hp)
      (fun k' hk' => hpr k' (List.mem_cons_of_mem _ hk')) hmax

/-- **After the loop**, every kprobe is attached, on an event and perf event of its own. -/
theorem Enabling.allAttached {t₀ t : Tracing} {probes₀ probes : AList (fun _ : List Char => Kprobe)}
    (h : Enabling t₀ probes₀ t probes []) {qs : List Kprobe}
    (hqs : qs.Perm (probes.entries.map Sigma.snd)) : AllAttached t qs := by
  have hnodup : ∀ f : Kprobe → Int,
      (∀ n m p q, probes.lookup n = some p → probes.lookup m = some q → f p = f q → n = m) →
      (qs.map f).Nodup :=
    fun f hf => (hqs.map f).nodup_iff.2 (nodup_map_values f hf)
  refine ⟨fun q hq => ?_, ?_, hnodup _ fun n m p q hp hq hpq =>
    h.efd_inj n m p q hp hq List.not_mem_nil List.not_mem_nil hpq, hnodup _ ?_⟩
  · obtain ⟨n, hn⟩ := mem_values_iff.1 (hqs.mem_iff.1 hq)
    exact (h.done n q hn List.not_mem_nil).1
  · refine (hqs.map _).nodup_iff.2 (nodup_map_values _ fun n m p q hp hq hpq => ?_)
    rw [h.registered.name_eq n p hp, h.registered.name_eq m q hq] at hpq
    exact kprobeEventName_inj (h.registered.kprobeName n (mem_of_lookup hp))
      (h.registered.kprobeName m (mem_of_lookup hq)) hpq
  · intro n m p q hp hq hpq
    exact h.registered.fd_inj n m p q hp hq hpq

section Visited

variable {t₀ t : Tracing} {probes₀ probes : AList (fun _ : List Char => Kprobe)}
  {pending qs : List Kprobe}

/-- A kprobe the loop visits is the one registered under its name, with the fd it was loaded
with. -/
theorem Enabling.mem_probes (h : Enabling t₀ probes₀ t probes pending)
    (hqs : qs.Perm (probes.entries.map Sigma.snd)) {q : Kprobe} (hq : q ∈ qs) :
    ∃ p, probes.lookup q.name = some q ∧ probes₀.lookup q.name = some p ∧ q.fd = p.fd := by
  obtain ⟨n, hn⟩ := mem_values_iff.1 (hqs.mem_iff.1 hq)
  obtain ⟨p, hp, hfd⟩ := h.fd_eq n q hn
  rw [h.registered.name_eq n q hn]
  exact ⟨p, hn, hp, hfd⟩

/-- The kprobes keep the fds they were loaded with. -/
theorem Enabling.mem_fds_iff (h : Enabling t₀ probes₀ t probes pending)
    (hqs : qs.Perm (probes.entries.map Sigma.snd)) (fd : Int) :
    fd ∈ qs.map Kprobe.fd ↔ fd ∈ probes₀.entries.map (fun s => s.2.fd) := by
  constructor
  · rintro hm
    obtain ⟨q, hq, rfl⟩ := List.mem_map.1 hm
    obtain ⟨p, -, hp, hfd⟩ := h.mem_probes hqs hq
    exact List.mem_map.2 ⟨⟨q.name, p⟩, AList.mem_lookup_iff.1 hp, hfd.symm⟩
  · rintro hm
    obtain ⟨⟨n, p⟩, hs, rfl⟩ := List.mem_map.1 hm
    have hp : probes₀.lookup n = some p := AList.mem_lookup_iff.2 hs
    obtain ⟨q, hq⟩ := Option.isSome_iff_exists.1
      (AList.lookup_isSome.2 ((h.keys_iff n).2 (mem_of_lookup hp)))
    obtain ⟨p', hp', hfd⟩ := h.fd_eq n q hq
    obtain rfl : p' = p := Option.some.inj (hp'.symm.trans hp)
    exact List.mem_map.2 ⟨q, hqs.mem_iff.2 (mem_values_iff.2 ⟨n, hq⟩), hfd⟩

/-- The perf events opened lie above every fd of the kernel the loop started on. -/
theorem Enabling.efd_ge (h : Enabling t₀ probes₀ t probes [])
    (hqs : qs.Perm (probes.entries.map Sigma.snd)) {q : Kprobe} (hq : q ∈ qs) :
    (t₀.nextFd : Int) ≤ q.efd := by
  obtain ⟨n, hn⟩ := mem_values_iff.1 (hqs.mem_iff.1 hq)
  exact (h.done n q hn List.not_mem_nil).2

end Visited

/-- **Enabling a module's kprobes and closing them leaves the kernel as it was.** With the kprobes
as `Load` registered them and none of their events defined, on a kernel that reads a kretprobe's
`maxactive` or with no `maxactive`, with every function probeable and the perf event calls
succeeding: `EnableKprobes`, visiting each kprobe once, succeeds; then `closeProbes`, visiting
each once in any order, succeeds, leaves `kprobe_events` as before, and leaves open exactly the
fds open before but the programs'. -/
theorem closeProbes_enableKprobes {probeable : List Char → Bool} {perf : PerfCalls}
    {maxactive : Int} {probes : AList (fun _ : List Char => Kprobe)} {t : Tracing}
    {ks qs : List Kprobe} (hreg : Registered probes) (hfresh : t.Fresh)
    (hload : ∀ n p, probes.lookup n = some p → p.efd = -1 ∧ t.fds.lookup p.fd = some .program ∧
      kprobeEventName n ∉ t.kprobeEvents ∧ probeable (kprobeFuncName n) = true)
    (hmax : t.maxactive = true ∨ maxactive ≤ 0) (hperf : perf.Succeed)
    (hks : ks.Perm (probes.entries.map Sigma.snd))
    (hqs : qs.Perm ((enableKprobes probeable perf maxactive ks probes t).1.entries.map Sigma.snd)) :
    (enableKprobes probeable perf maxactive ks probes t).2.1 = .ok () ∧
      (closeProbes qs (enableKprobes probeable perf maxactive ks probes t).2.2).2.1 = .ok () ∧
      (∀ e, (closeProbes qs (enableKprobes probeable perf maxactive ks probes t).2.2).2.2.kprobeEvents.lookup e =
        t.kprobeEvents.lookup e) ∧
      (∀ fd, (closeProbes qs (enableKprobes probeable perf maxactive ks probes t).2.2).2.2.fds.lookup fd =
        if fd ∈ probes.entries.map (fun s => s.2.fd) then none else t.fds.lookup fd) := by
  have hinit := Enabling.init hreg hfresh
    (fun n p hp => ⟨(hload n p hp).1, (hload n p hp).2.1, (hload n p hp).2.2.1⟩) hks
  have hpr : ∀ k ∈ ks, probeable (kprobeFuncName k.name) = true := fun k hk => by
    obtain ⟨p, hp, -⟩ := hinit.waiting k hk
    exact (hload _ p hp).2.2.2
  obtain ⟨probes', t', hrun, hen⟩ := enableKprobes_of_enabling hperf hinit hpr hmax
  rw [hrun] at hqs ⊢
  obtain ⟨-, hok, hev, hfd⟩ := closeProbes_of_allAttached (hen.allAttached hqs)
  refine ⟨rfl, hok, fun e => ?_, fun fd => ?_⟩
  · rw [hev e]
    split_ifs with he
    · obtain ⟨q, hq, rfl⟩ := List.mem_map.1 he
      obtain ⟨p, -, hp, -⟩ := hen.mem_probes hqs hq
      exact (AList.lookup_eq_none.2 (hload _ p hp).2.2.1).symm
    · refine hen.events_frame e fun n hn _ hen' => he ?_
      obtain ⟨q, hq⟩ := Option.isSome_iff_exists.1 (AList.lookup_isSome.2 hn)
      refine List.mem_map.2 ⟨q, hqs.mem_iff.2 (mem_values_iff.2 ⟨n, hq⟩), ?_⟩
      rw [hen.registered.name_eq n q hq, hen']
  · simp only [hfd fd, hen.mem_fds_iff hqs fd]
    by_cases hlt : fd < t.nextFd
    · have hefd : fd ∉ qs.map Kprobe.efd := fun hm => by
        obtain ⟨q, hq, rfl⟩ := List.mem_map.1 hm
        have := hen.efd_ge hqs hq
        omega
      rw [hen.fds_frame fd hlt]
      simp only [hefd, false_or]
    · have hnone : t.fds.lookup fd = none :=
        AList.lookup_eq_none.2 fun hm => hlt (hfresh.fds_lt fd hm)
      have hnprog : fd ∉ probes.entries.map (fun s => s.2.fd) := fun hm => by
        obtain ⟨⟨n, p⟩, hs, rfl⟩ := List.mem_map.1 hm
        exact hlt (hfresh.lt_of_lookup (hload n p (AList.mem_lookup_iff.2 hs)).2.1)
      rw [if_neg hnprog, hnone]
      split_ifs with hclosed
      · rfl
      · by_contra hsome
        obtain ⟨n, q, hq, -, rfl⟩ := hen.fds_new fd (by omega) hsome
        exact hclosed (.inl (List.mem_map.2 ⟨q, hqs.mem_iff.2 (mem_values_iff.2 ⟨n, hq⟩), rfl⟩))

theorem lookup_singleton_eq_some {α β : Type} [DecidableEq α] {a n : α} {b p : β}
    (h : (AList.singleton a b : AList (fun _ : α => β)).lookup n = some p) : n = a ∧ p = b := by
  by_cases hn : n = a
  · subst hn
    simp [AList.singleton, AList.lookup] at h
    exact ⟨rfl, h.symm⟩
  · simp only [AList.singleton, AList.lookup] at h
    rw [List.dlookup_cons_ne [] (⟨a, b⟩ : Sigma (fun _ : α => β)) hn, List.dlookup_nil] at h
    cases h

/-- A single kprobe, registered under its name. -/
theorem registered_singleton {p : Kprobe} (hp : IsKprobeName p.name) :
    Registered (AList.singleton p.name p) := by
  refine ⟨fun n q hq => ?_, fun n hn => ?_, fun n m q q' hq hq' _ => ?_⟩
  · obtain ⟨rfl, rfl⟩ := lookup_singleton_eq_some hq
    rfl
  · rw [AList.mem_keys, AList.keys_singleton, List.mem_singleton] at hn
    exact hn ▸ hp
  · exact (lookup_singleton_eq_some hq).1.trans (lookup_singleton_eq_some hq').1.symm

/-- A kernel with no kprobe event whose process has one program fd open is fresh. -/
theorem Tracing.fresh_singleton_program (maxactive : Bool) {fd : Int} {n : Nat} (h : fd < n) :
    (⟨∅, 0, maxactive, AList.singleton fd .program, n⟩ : Tracing).Fresh := by
  refine ⟨fun fd' hfd => ?_, fun e id he => by simp at he, fun fd' id hfd => ?_⟩
  · rw [AList.mem_keys, AList.keys_singleton, List.mem_singleton] at hfd
    exact hfd ▸ h
  · cases (lookup_singleton_eq_some hfd).2

/-- One kprobe `kprobe/f`, loaded as fd `3`, enabled and closed on a kernel with no kprobe event
and no other fd. -/
theorem closeProbes_enableKprobes_one :
    let p : Kprobe := ⟨"kprobe/f".toList, 3, -1⟩
    let probes : AList (fun _ : List Char => Kprobe) := AList.singleton p.name p
    let t : Tracing := ⟨∅, 0, true, AList.singleton 3 .program, 4⟩
    let perf : PerfCalls := ⟨fun _ => true, fun _ => true, fun _ _ => true⟩
    let qs := [{ p with efd := 4 }]
    Registered probes ∧ t.Fresh ∧
      (∀ n q, probes.lookup n = some q → q.efd = -1 ∧ t.fds.lookup q.fd = some .program ∧
        kprobeEventName n ∉ t.kprobeEvents ∧ (fun _ => true) (kprobeFuncName n) = true) ∧
      (t.maxactive = true ∨ (0 : Int) ≤ 0) ∧ perf.Succeed ∧
      [p].Perm (probes.entries.map Sigma.snd) ∧
      qs.Perm ((enableKprobes (fun _ => true) perf 0 [p] probes t).1.entries.map Sigma.snd) ∧
      ((enableKprobes (fun _ => true) perf 0 [p] probes t).2.1 = .ok () ∧
        (closeProbes qs (enableKprobes (fun _ => true) perf 0 [p] probes t).2.2).2.1 = .ok () ∧
        (∀ e, (closeProbes qs (enableKprobes (fun _ => true) perf 0 [p] probes t).2.2).2.2.kprobeEvents.lookup e =
          t.kprobeEvents.lookup e) ∧
        (∀ fd, (closeProbes qs (enableKprobes (fun _ => true) perf 0 [p] probes t).2.2).2.2.fds.lookup fd =
          if fd ∈ probes.entries.map (fun s => s.2.fd) then none else t.fds.lookup fd)) := by
  intro p probes t perf qs
  have hreg : Registered probes := registered_singleton (.inl rfl)
  have hfresh : t.Fresh := Tracing.fresh_singleton_program _ (by decide)
  have hload : ∀ n q, probes.lookup n = some q → q.efd = -1 ∧ t.fds.lookup q.fd = some .program ∧
      kprobeEventName n ∉ t.kprobeEvents ∧ (fun _ => true) (kprobeFuncName n) = true := by
    intro n q hq
    obtain ⟨rfl, rfl⟩ := lookup_singleton_eq_some hq
    exact ⟨rfl, rfl, by simp [t], rfl⟩
  have hperf : perf.Succeed := ⟨fun _ => rfl, fun _ => rfl, fun _ _ => rfl⟩
  have hks : [p].Perm (probes.entries.map Sigma.snd) := List.Perm.refl _
  have hqs : qs.Perm ((enableKprobes (fun _ => true) perf 0 [p] probes t).1.entries.map Sigma.snd) := by
    decide
  exact ⟨hreg, hfresh, hload, .inl rfl, hperf, hks, hqs,
    closeProbes_enableKprobes hreg hfresh hload (.inl rfl) hperf hks hqs⟩

/-! ## A kretprobe's `maxactive` on an older kernel -/

/-- The name an older kernel gives the event of a `maxactive` kretprobe is not the one
`EnableKprobe` asked for. -/
theorem legacyName_ne (func : List Char) : ['r', '_'] ++ func ++ ['_', '0'] ≠ 'r' :: func := by
  intro h
  have := congrArg List.length h
  simp at this
  omega

/-- **On a kernel without `maxactive`, enabling and closing a kretprobe leaks an event.** The
kernel defines the event of the command with a `maxactive` as `r_<func>_0`; `EnableKprobe` finds no
`rfunc` id, falls back to a command without `maxactive` and attaches `r<func>`, which
`closeProbes` removes; `r_<func>_0` stays defined. -/
theorem enableKprobe_legacy_leaks {probeable : List Char → Bool} {perf : PerfCalls}
    (hperf : perf.Succeed) {probes : AList (fun _ : List Char => Kprobe)} {t : Tracing}
    {func : List Char} {probe : Kprobe} {maxactive : Int}
    (hp : probes.lookup ("kretprobe/".toList ++ func) = some probe)
    (hname : probe.name = "kretprobe/".toList ++ func) (hpos : 0 < maxactive)
    (hold : t.maxactive = false) (hfresh : t.Fresh)
    (hprog : t.fds.lookup probe.fd = some .program) (hprobeable : probeable func = true)
    (hlegacy : ['r', '_'] ++ func ++ ['_', '0'] ∉ t.kprobeEvents)
    (hfree : 'r' :: func ∉ t.kprobeEvents) :
    ∃ t₂, enableKprobe probeable perf ("kretprobe/".toList ++ func) maxactive probes t =
        (probes.insert ("kretprobe/".toList ++ func) { probe with efd := t.nextFd }, .ok (), t₂) ∧
      (closeProbes [{ probe with efd := t.nextFd }] t₂).2.1 = .ok () ∧
      (closeProbes [{ probe with efd := t.nextFd }] t₂).2.2.kprobeEvents.lookup
        (['r', '_'] ++ func ++ ['_', '0']) = some t.nextId := by
  have hret : isKretprobe ("kretprobe/".toList ++ func) = true := hasPrefix_append _ _
  have hfunc : kprobeFuncName ("kretprobe/".toList ++ func) = func := by
    simp only [kprobeFuncName, hret, if_true, trimPrefix_append]
  have htype : kprobeType ("kretprobe/".toList ++ func) = ['r'] := by
    simp only [kprobeType, hret, if_true]
  have hevent : kprobeEventName ("kretprobe/".toList ++ func) = 'r' :: func :=
    kprobeEventName_kretprobe func
  have hmaxStr : maxactiveStr ("kretprobe/".toList ++ func) maxactive ≠ [] := by
    rw [maxactiveStr, if_pos ⟨hret, hpos⟩]
    exact Nat.toDigits_ne_nil
  set t₁ : Tracing :=
    { t with kprobeEvents := t.kprobeEvents.insert (['r', '_'] ++ func ++ ['_', '0']) t.nextId,
             nextId := t.nextId + 1 } with ht₁
  have hwrite₁ : writeKprobeEvent probeable ['r'] ('r' :: func) func
      (maxactiveStr ("kretprobe/".toList ++ func) maxactive) t = (.error .kprobeIdNotExist, t₁) := by
    have hname₁ : t.kprobeName ['r'] (maxactiveStr ("kretprobe/".toList ++ func) maxactive)
        ('r' :: func) func = ['r', '_'] ++ func ++ ['_', '0'] := by
      rw [Tracing.kprobeName, if_pos ⟨hmaxStr, hold⟩]
      rfl
    have hadd : t.addKprobe probeable ['r'] (maxactiveStr ("kretprobe/".toList ++ func) maxactive)
        ('r' :: func) func = some t₁ := by
      unfold Tracing.addKprobe
      rw [hname₁, if_neg (by rw [hprobeable]; exact fun h => h.elim hlegacy nofun)]
    have hnone : t₁.kprobeEvents.lookup ('r' :: func) = none := by
      rw [ht₁, AList.lookup_insert_ne (legacyName_ne func).symm]
      exact AList.lookup_eq_none.2 hfree
    simp only [writeKprobeEvent, hadd, hnone]
  set t₁' : Tracing :=
    { t₁ with kprobeEvents := t₁.kprobeEvents.insert ('r' :: func) t₁.nextId,
              nextId := t₁.nextId + 1 } with ht₁'
  have hwrite₂ : writeKprobeEvent probeable ['r'] ('r' :: func) func [] t₁ = (.ok t₁.nextId, t₁') :=
    @writeKprobeEvent_eq_ok probeable t₁ ['r'] ('r' :: func) func [] (by simp [Tracing.kprobeName])
      (by
        rw [ht₁, AList.mem_insert]
        exact fun h => h.elim (legacyName_ne func).symm hfree) hprobeable
  set t₂ : Tracing :=
    { t₁' with fds := t₁'.fds.insert t₁'.nextFd (.perfEvent t₁.nextId),
               nextFd := t₁'.nextFd + 1 } with ht₂
  have henable : enableKprobe probeable perf ("kretprobe/".toList ++ func) maxactive probes t =
      (probes.insert ("kretprobe/".toList ++ func) { probe with efd := t.nextFd }, .ok (), t₂) := by
    simp only [enableKprobe, hp, htype, hfunc, hevent, hwrite₁, hwrite₂,
      perfEventOpenTracepoint_eq_ok hperf]
    rfl
  have hatt : Attached t₂ { probe with efd := t.nextFd } (t.nextId + 1) := by
    have h := attached_attach_self (hfresh.addEvent (['r', '_'] ++ func ++ ['_', '0'])) hprog
    have he : kprobeEventName probe.name = 'r' :: func := by rw [hname, hevent]
    rw [he] at h
    exact h
  refine ⟨t₂, henable, ?_, ?_⟩
  · rw [closeProbes_cons hatt]
    rfl
  · rw [closeProbes_cons hatt]
    show ((t₁'.kprobeEvents).erase (kprobeEventName probe.name)).lookup
      (['r', '_'] ++ func ++ ['_', '0']) = some t.nextId
    rw [hname, hevent, AList.lookup_erase_ne (legacyName_ne func),
      AList.lookup_insert_ne (legacyName_ne func)]
    exact AList.lookup_insert _

/-- A kretprobe on `f` with `maxactive` 5, on a kernel that cannot read it. -/
theorem enableKprobe_legacy_leaks_f :
    let probe : Kprobe := ⟨"kretprobe/".toList ++ ['f'], 3, -1⟩
    let probes : AList (fun _ : List Char => Kprobe) := AList.singleton probe.name probe
    let t : Tracing := ⟨∅, 0, false, AList.singleton 3 .program, 4⟩
    let perf : PerfCalls := ⟨fun _ => true, fun _ => true, fun _ _ => true⟩
    perf.Succeed ∧ probes.lookup ("kretprobe/".toList ++ ['f']) = some probe ∧
      probe.name = "kretprobe/".toList ++ ['f'] ∧ (0 : Int) < 5 ∧ t.maxactive = false ∧ t.Fresh ∧
      t.fds.lookup probe.fd = some .program ∧ (fun _ => true) ['f'] = true ∧
      ['r', '_'] ++ ['f'] ++ ['_', '0'] ∉ t.kprobeEvents ∧ 'r' :: ['f'] ∉ t.kprobeEvents ∧
      ∃ t₂, enableKprobe (fun _ => true) perf ("kretprobe/".toList ++ ['f']) 5 probes t =
          (probes.insert ("kretprobe/".toList ++ ['f']) { probe with efd := t.nextFd }, .ok (), t₂) ∧
        (closeProbes [{ probe with efd := t.nextFd }] t₂).2.1 = .ok () ∧
        (closeProbes [{ probe with efd := t.nextFd }] t₂).2.2.kprobeEvents.lookup
          (['r', '_'] ++ ['f'] ++ ['_', '0']) = some t.nextId := by
  intro probe probes t perf
  have hperf : perf.Succeed := ⟨fun _ => rfl, fun _ => rfl, fun _ _ => rfl⟩
  have hp : probes.lookup ("kretprobe/".toList ++ ['f']) = some probe := by
    show (AList.singleton ("kretprobe/".toList ++ ['f']) probe : AList (fun _ : List Char => Kprobe)).lookup
      ("kretprobe/".toList ++ ['f']) = some probe
    rw [← AList.insert_empty]
    exact AList.lookup_insert _
  have hfresh : t.Fresh := Tracing.fresh_singleton_program _ (by decide)
  have hlegacy : ['r', '_'] ++ ['f'] ++ ['_', '0'] ∉ t.kprobeEvents := by simp [t]
  have hfree : 'r' :: ['f'] ∉ t.kprobeEvents := by simp [t]
  exact ⟨hperf, hp, rfl, by decide, rfl, hfresh, rfl, rfl, hlegacy, hfree,
    enableKprobe_legacy_leaks hperf hp rfl (by decide) rfl hfresh rfl rfl hlegacy hfree⟩

/-! ## Closing a tracepoint program that was never enabled -/

theorem Tracing.close_lookup_none {t t' : Tracing} {fd x : Int} (h : t.close fd = some t')
    (hx : t.fds.lookup x = none) : t'.fds.lookup x = none := by
  obtain ⟨-, rfl⟩ := Tracing.close_eq_some h
  rw [AList.lookup_eq_none] at hx ⊢
  exact fun hm => hx (AList.mem_erase.1 hm).2

/-- `closeTracepointPrograms` closes fds and opens none. -/
theorem closeTracepointPrograms_lookup_none :
    ∀ {ps : List TracepointProgram} {t : Tracing} {x : Int}, t.fds.lookup x = none →
      (closeTracepointPrograms ps t).2.2.fds.lookup x = none
  | [], _, _, hx => hx
  | program :: ps, t, x, hx => by
    have hrest : ∀ (prog : TracepointProgram) (f : Int) (t₁ : Tracing), t₁.fds.lookup x = none →
        (match t₁.close f with
          | none => (prog :: ps, Except.error ProgramCloseError.tracepointFd, t₁)
          | some t₂ => (prog :: (closeTracepointPrograms ps t₂).1, (closeTracepointPrograms ps t₂).2) :
          List TracepointProgram × Except ProgramCloseError Unit × Tracing).2.2.fds.lookup x = none :=
      fun prog f t₁ hx₁ => by
        cases h₂ : t₁.close f with
        | none => exact hx₁
        | some t₂ => exact closeTracepointPrograms_lookup_none (Tracing.close_lookup_none h₂ hx₁)
    by_cases hefd : program.efd ≠ -1
    · cases h₁ : t.close program.efd with
      | none => simpa [closeTracepointPrograms, hefd, h₁] using hx
      | some t₁ =>
        simpa [closeTracepointPrograms, hefd, h₁] using
          hrest _ _ _ (Tracing.close_lookup_none h₁ hx)
    · simpa [closeTracepointPrograms, hefd] using hrest _ _ t hx

/-- Closing a perf event fd or not, and then any fd, keeps an fd that was closed closed. -/
theorem Tracing.closeIf_lookup_none {t t₁ : Tracing} {c : Prop} [Decidable c] {fd x : Int}
    (h : (if c then t.close fd else some t) = some t₁) (hx : t.fds.lookup x = none) :
    t₁.fds.lookup x = none := by
  split_ifs at h
  · exact Tracing.close_lookup_none h hx
  · cases h
    exact hx

/-- One program of `closeTracepointPrograms`: the loop fails at it, or closes its perf event fd
unless it is `-1`, then its fd, and goes on with the rest. -/
theorem closeTracepointPrograms_cons_cases (p : TracepointProgram) (ps : List TracepointProgram)
    (t : Tracing) :
    (∃ err, (closeTracepointPrograms (p :: ps) t).2.1 = .error err) ∨
      ∃ t₁ t₂, (if p.efd ≠ -1 then t.close p.efd else some t) = some t₁ ∧
        t₁.close p.fd = some t₂ ∧
        (closeTracepointPrograms (p :: ps) t).2.1 = (closeTracepointPrograms ps t₂).2.1 := by
  by_cases hefd : p.efd ≠ -1
  · cases h₁ : t.close p.efd with
    | none => exact .inl ⟨.perfEventFd, by simp [closeTracepointPrograms, hefd, h₁]⟩
    | some t₁ =>
      cases h₂ : t₁.close p.fd with
      | none => exact .inl ⟨.tracepointFd, by simp [closeTracepointPrograms, hefd, h₁, h₂]⟩
      | some t₂ =>
        exact .inr ⟨t₁, t₂, by simp [hefd], h₂, by simp [closeTracepointPrograms, hefd, h₁, h₂]⟩
  · cases h₂ : t.close p.fd with
    | none => exact .inl ⟨.tracepointFd, by simp [closeTracepointPrograms, hefd, h₂]⟩
    | some t₂ => exact .inr ⟨t, t₂, by simp [hefd], h₂, by simp [closeTracepointPrograms, hefd, h₂]⟩

/-- Once fd `0` is closed, a program whose `efd` is `0` makes `closeTracepointPrograms` fail, at
that program if not before. -/
theorem closeTracepointPrograms_error_of_efd_zero :
    ∀ {ps : List TracepointProgram} {t : Tracing} {q : TracepointProgram}, q ∈ ps → q.efd = 0 →
      t.fds.lookup 0 = none → ∃ err, (closeTracepointPrograms ps t).2.1 = .error err
  | p :: ps, t, q, hq, hq0, h0 => by
    rcases closeTracepointPrograms_cons_cases p ps t with herr | ⟨t₁, t₂, h₁, h₂, heq⟩
    · exact herr
    rw [heq]
    rcases List.mem_cons.1 hq with rfl | hq
    · rw [hq0, if_pos (by decide)] at h₁
      exact absurd (Tracing.close_eq_some h₁).1 (AList.lookup_eq_none.1 h0)
    · exact closeTracepointPrograms_error_of_efd_zero hq hq0
        (Tracing.close_lookup_none h₂ (Tracing.closeIf_lookup_none h₁ h0))

/-- **Two programs whose `efd` is `0` make `closeTracepointPrograms` fail**, on every kernel: the
loop closes fd `0` for the first, and closing it again for the second fails, if nothing failed
before. -/
theorem closeTracepointPrograms_error_of_efd_zero_twice :
    ∀ {ps : List TracepointProgram} {t : Tracing} {p q : TracepointProgram}, [p, q].Sublist ps →
      p.efd = 0 → q.efd = 0 → ∃ err, (closeTracepointPrograms ps t).2.1 = .error err
  | [], _, _, _, hpq, _, _ => by simp at hpq
  | r :: ps, t, p, q, hpq, hp0, hq0 => by
    rcases closeTracepointPrograms_cons_cases r ps t with herr | ⟨t₁, t₂, h₁, h₂, heq⟩
    · exact herr
    rw [heq]
    cases hpq with
    | cons _ hpq => exact closeTracepointPrograms_error_of_efd_zero_twice hpq hp0 hq0
    | cons_cons _ hq =>
      rw [hp0, if_pos (by decide)] at h₁
      have h0₁ : t₁.fds.lookup 0 = none := by
        obtain ⟨-, rfl⟩ := Tracing.close_eq_some h₁
        exact AList.lookup_erase _ _
      exact closeTracepointPrograms_error_of_efd_zero (hq.subset (List.mem_singleton_self q)) hq0
        (Tracing.close_lookup_none h₂ h0₁)

end Gobpf.Elf
