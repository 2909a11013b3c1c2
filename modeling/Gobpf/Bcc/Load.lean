import Mathlib.Data.List.AList
import Mathlib.Data.List.Nodup

/-!
# Loading the programs of a bcc module

`Module.Load(name, progType)` loads the function `name` of the compiled module as a BPF program of
type `progType` and keeps its fd in `funcs`, under the name: a later `Load` of the name returns the
kept fd and loads nothing (`load_of_lookup`). The cache is keyed by the name alone, so the type of
a later `Load` is never looked at: after `LoadKprobe(name)`, `LoadNet(name)` returns the kprobe
program, not one of type `BPF_PROG_TYPE_SCHED_ACT`.

`Close` closes every fd of `funcs`. Over any run of `Load` calls on a new module, those are exactly
the fds the calls returned, each closed once, and all the calls that returned an fd for a name
returned the same one (`closeFuncs_loadRun`). The invariant that carries it (`Accounted`) rests on
the kernel handing out a fresh fd for every program it loads, and on `Load` loading a name only
while it has no fd kept.
-/

namespace Gobpf.Bcc

/-- `BPF_PROG_TYPE_KPROBE`. -/
def bpfProgTypeKprobe : Nat := 2

/-- `BPF_PROG_TYPE_SCHED_ACT`. -/
def bpfProgTypeSchedAct : Nat := 4

/-- What libbcc and the kernel answer `load`. -/
structure ProgEnv where
  /-- `bpf_function_start(bpf.p, name) != nil`: the module has a function of that name. -/
  hasFunction : List Char → Bool
  /-- Whether `bpf_prog_load` of the function as a program of the type succeeds. -/
  accepts : Nat → List Char → Bool
  /-- The log of a failed `bpf_prog_load`, up to its first NUL byte. -/
  log : Nat → List Char → List Char

/-- The errors of `Load`. -/
inductive LoadError where
  /-- `Module: unable to find %s` -/
  | unableToFind (name : List Char)
  /-- `error loading BPF program:\n%s`, with the log. -/
  | loadingLog (msg : List Char)
  /-- `error loading BPF program: %v`, when the log is empty. -/
  | loading
  deriving DecidableEq, Repr

/-- `Module.funcs`, the fd of each function loaded, and the fd the kernel gives the next program it
loads. -/
structure ProgState where
  funcs : AList (fun _ : List Char => Int)
  nextFd : Nat

/-- A module as `newModule` creates it, `funcs` empty. -/
def ProgState.init (nextFd : Nat) : ProgState := ⟨∅, nextFd⟩

/-- `load(name, progType)`: the fd of the program, or the error of a function the module does not
have or of a program the kernel rejects. -/
def loadProgram (env : ProgEnv) (name : List Char) (progType : Nat) (s : ProgState) :
    Except LoadError Int × ProgState :=
  if env.hasFunction name = false then (.error (.unableToFind name), s)
  else if env.accepts progType name then (.ok s.nextFd, { s with nextFd := s.nextFd + 1 })
  else
    let msg := env.log progType name
    (.error (if 0 < msg.length then .loadingLog msg else .loading), s)

/-- `Load(name, progType)`: the fd kept for `name`, or `load` it and keep its fd. -/
def load (env : ProgEnv) (name : List Char) (progType : Nat) (s : ProgState) :
    Except LoadError Int × ProgState :=
  match s.funcs.lookup name with
  | some fd => (.ok fd, s)
  | none =>
    match loadProgram env name progType s with
    | (.ok fd, s') => (.ok fd, { s' with funcs := s'.funcs.insert name fd })
    | (.error err, s') => (.error err, s')

/-- `LoadNet(name)`. -/
def loadNet (env : ProgEnv) (name : List Char) : ProgState → Except LoadError Int × ProgState :=
  load env name bpfProgTypeSchedAct

/-- `LoadKprobe(name)`. -/
def loadKprobe (env : ProgEnv) (name : List Char) : ProgState → Except LoadError Int × ProgState :=
  load env name bpfProgTypeKprobe

/-- `LoadUprobe(name)`, also of type `BPF_PROG_TYPE_KPROBE`. -/
def loadUprobe (env : ProgEnv) (name : List Char) : ProgState → Except LoadError Int × ProgState :=
  load env name bpfProgTypeKprobe

/-- The fds that `Close` passes to `syscall.Close`, one for each entry of `funcs`. -/
def closeFuncs (s : ProgState) : List Int := s.funcs.entries.map (·.2)

/-- A run of `Load` calls, each with its name and its result. -/
def loadRun (env : ProgEnv) :
    List (List Char × Nat) → ProgState → List (List Char × Except LoadError Int) × ProgState
  | [], s => ([], s)
  | (name, progType) :: calls, s =>
    let step := load env name progType s
    let rest := loadRun env calls step.2
    ((name, step.1) :: rest.1, rest.2)

/-! ## One call -/

section Call
variable {env : ProgEnv} {name : List Char} {progType : Nat} {s : ProgState}

/-- **A kept fd is returned as it is**, whatever the type asked for. -/
theorem load_of_lookup {fd : Int} (h : s.funcs.lookup name = some fd) :
    load env name progType s = (.ok fd, s) := by
  simp [load, h]

/-- What `load` does: a failure changes nothing, a success takes the next fd. -/
theorem loadProgram_cases (env : ProgEnv) (name : List Char) (progType : Nat) (s : ProgState) :
    (∃ err, loadProgram env name progType s = (.error err, s)) ∨
      loadProgram env name progType s = (.ok s.nextFd, { s with nextFd := s.nextFd + 1 }) := by
  unfold loadProgram
  split_ifs <;> simp

/-- What `Load` does: return the kept fd; or keep the next fd under a name with none; or fail and
change nothing. -/
theorem load_cases (env : ProgEnv) (name : List Char) (progType : Nat) (s : ProgState) :
    (∃ fd, s.funcs.lookup name = some fd ∧ load env name progType s = (.ok fd, s)) ∨
    (s.funcs.lookup name = none ∧ load env name progType s =
      (.ok s.nextFd, ⟨s.funcs.insert name s.nextFd, s.nextFd + 1⟩)) ∨
    (∃ err, load env name progType s = (.error err, s)) := by
  cases hl : s.funcs.lookup name with
  | some fd => exact .inl ⟨fd, rfl, load_of_lookup hl⟩
  | none =>
    rcases loadProgram_cases env name progType s with ⟨err, herr⟩ | hok
    · exact .inr (.inr ⟨err, by simp [load, hl, herr]⟩)
    · exact .inr (.inl ⟨rfl, by simp [load, hl, hok]⟩)

end Call

/-! ## Runs -/

/-- What a run has done: the fds that `Close` would close are below the next fd and distinct, and
they are the fds returned so far, each kept under the name it was returned for. -/
structure Accounted (s : ProgState) (hist : List (List Char × Except LoadError Int)) : Prop where
  lt_nextFd : ∀ fd ∈ closeFuncs s, fd < s.nextFd
  nodup : (closeFuncs s).Nodup
  mem_iff : ∀ fd, fd ∈ closeFuncs s ↔ ∃ name, (name, .ok fd) ∈ hist
  kept : ∀ name fd, (name, .ok fd) ∈ hist → s.funcs.lookup name = some fd

theorem mem_closeFuncs_of_lookup {s : ProgState} {name : List Char} {fd : Int}
    (h : s.funcs.lookup name = some fd) : fd ∈ closeFuncs s :=
  List.mem_map.2 ⟨⟨name, fd⟩, AList.mem_lookup_iff.1 h, rfl⟩

theorem closeFuncs_insert {s : ProgState} {name : List Char} {fd : Int}
    (h : s.funcs.lookup name = none) :
    closeFuncs ⟨s.funcs.insert name fd, s.nextFd + 1⟩ = fd :: closeFuncs s := by
  simp only [closeFuncs, AList.entries_insert_of_notMem (AList.lookup_eq_none.1 h), List.map_cons]

section Account
variable {s : ProgState} {hist : List (List Char × Except LoadError Int)} {name : List Char}

theorem mem_append_singleton_ok {n : List Char} {r : Except LoadError Int} {fd : Int} :
    (n, .ok fd) ∈ hist ++ [(name, r)] ↔ (n, .ok fd) ∈ hist ∨ (n = name ∧ r = .ok fd) := by
  simp [eq_comm]

/-- A failed call returns no fd and changes nothing. -/
theorem Accounted.error (h : Accounted s hist) (err : LoadError) :
    Accounted s (hist ++ [(name, .error err)]) := by
  refine ⟨h.lt_nextFd, h.nodup, fun fd => ?_, fun n fd hmem => ?_⟩
  · simp only [h.mem_iff, mem_append_singleton_ok, reduceCtorEq, and_false, or_false]
  · simp only [mem_append_singleton_ok, reduceCtorEq, and_false, or_false] at hmem
    exact h.kept n fd hmem

/-- A call that returns the kept fd adds nothing to close. -/
theorem Accounted.cached {fd : Int} (h : Accounted s hist) (hl : s.funcs.lookup name = some fd) :
    Accounted s (hist ++ [(name, .ok fd)]) := by
  refine ⟨h.lt_nextFd, h.nodup, fun fd' => ?_, fun n fd' hmem => ?_⟩
  · rw [h.mem_iff]
    simp only [mem_append_singleton_ok, Except.ok.injEq]
    constructor
    · rintro ⟨n, hn⟩
      exact ⟨n, .inl hn⟩
    · rintro ⟨n, hn | ⟨-, rfl⟩⟩
      · exact ⟨n, hn⟩
      · exact (h.mem_iff fd).1 (mem_closeFuncs_of_lookup hl)
  · rcases mem_append_singleton_ok.1 hmem with hmem | ⟨rfl, hfd⟩
    · exact h.kept n fd' hmem
    · rw [hl, ← Except.ok.inj hfd]

/-- A call that loads a new program keeps its fd, the next one, above every fd kept so far. -/
theorem Accounted.fresh (h : Accounted s hist) (hl : s.funcs.lookup name = none) :
    Accounted ⟨s.funcs.insert name s.nextFd, s.nextFd + 1⟩ (hist ++ [(name, .ok s.nextFd)]) := by
  have hnew : (s.nextFd : Int) ∉ closeFuncs s := fun hm => Int.lt_irrefl _ (h.lt_nextFd _ hm)
  refine ⟨fun fd hfd => ?_, ?_, fun fd => ?_, fun n fd hmem => ?_⟩
  · rw [closeFuncs_insert hl] at hfd
    rcases List.mem_cons.1 hfd with rfl | hfd
    · push_cast; omega
    · have := h.lt_nextFd fd hfd
      push_cast; omega
  · rw [closeFuncs_insert hl]
    exact List.nodup_cons.2 ⟨hnew, h.nodup⟩
  · rw [closeFuncs_insert hl, List.mem_cons, h.mem_iff]
    simp only [mem_append_singleton_ok, Except.ok.injEq]
    constructor
    · rintro (rfl | ⟨n, hn⟩)
      · exact ⟨name, .inr ⟨rfl, rfl⟩⟩
      · exact ⟨n, .inl hn⟩
    · rintro ⟨n, hn | ⟨-, rfl⟩⟩
      · exact .inr ⟨n, hn⟩
      · exact .inl rfl
  · rcases mem_append_singleton_ok.1 hmem with hmem | ⟨rfl, hfd⟩
    · have hk := h.kept n fd hmem
      have hne : n ≠ name := fun heq => by rw [heq, hl] at hk; cases hk
      exact (AList.lookup_insert_ne hne).trans hk
    · rw [← Except.ok.inj hfd]
      exact AList.lookup_insert _

/-- **One call keeps the account.** -/
theorem Accounted.step (env : ProgEnv) (name : List Char) (progType : Nat) (h : Accounted s hist) :
    Accounted (load env name progType s).2 (hist ++ [(name, (load env name progType s).1)]) := by
  rcases load_cases env name progType s with ⟨fd, hl, hload⟩ | ⟨hl, hload⟩ | ⟨err, hload⟩
  · rw [hload]
    exact h.cached hl
  · rw [hload]
    exact h.fresh hl
  · rw [hload]
    exact h.error err

end Account

/-- The account over a run, by induction on the calls. -/
theorem Accounted.run (env : ProgEnv) :
    ∀ (calls : List (List Char × Nat)) {s : ProgState}
      {hist : List (List Char × Except LoadError Int)}, Accounted s hist →
      Accounted (loadRun env calls s).2 (hist ++ (loadRun env calls s).1)
  | [], _, _, h => by simpa [Bcc.loadRun] using h
  | (name, progType) :: calls, s, hist, h => by
    have ih := Accounted.run env calls (h.step env name progType)
    simpa [Bcc.loadRun] using ih

/-- **`Close` closes what `Load` returned.** Over any run of `Load` calls on a new module, the fds
that `Close` closes are distinct and are exactly the fds the calls returned, and every call that
returned an fd for a name returned the one kept for it. -/
theorem closeFuncs_loadRun (env : ProgEnv) (calls : List (List Char × Nat)) (nextFd : Nat) :
    (closeFuncs (loadRun env calls (ProgState.init nextFd)).2).Nodup ∧
      (∀ fd, fd ∈ closeFuncs (loadRun env calls (ProgState.init nextFd)).2 ↔
        ∃ name, (name, .ok fd) ∈ (loadRun env calls (ProgState.init nextFd)).1) ∧
      ∀ name fd, (name, .ok fd) ∈ (loadRun env calls (ProgState.init nextFd)).1 →
        (loadRun env calls (ProgState.init nextFd)).2.funcs.lookup name = some fd := by
  have hinit : Accounted (ProgState.init nextFd) [] :=
    ⟨by simp [closeFuncs, ProgState.init], by simp [closeFuncs, ProgState.init],
      by simp [closeFuncs, ProgState.init], by simp⟩
  have h := Accounted.run env calls hinit
  rw [List.nil_append] at h
  exact ⟨h.nodup, h.mem_iff, h.kept⟩

end Gobpf.Bcc
