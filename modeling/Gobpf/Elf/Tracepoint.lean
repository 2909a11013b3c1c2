import Gobpf.Elf.Close

/-!
# Enabling tracepoint programs

`EnableTracepoint(secName)` finds the tracepoint program registered under `secName`, takes the
tracepoint's category and name from `tracepoint/<category>/<name>`, reads the tracepoint's id with
`writeTracepointEvent`, opens a perf event on it and attaches the program, and stores the perf
event's fd in the program's `efd`: `-1` when `perfEventOpenTracepoint` fails.

Nothing keeps a program from being enabled twice. The second call opens a second perf event and
overwrites `efd` (`Module.setTracepointEfd_setTracepointEfd`), so no program refers to the first
one any more, and `CloseExt`, which closes only the fds the module refers to, leaves it open
(`enableTracepoint_twice_leaks`).

Reading the id file is an oracle, `tracepointIds`, as reading a kprobe's id is in `Probes`. The
map of tracepoint programs is the module's list, searched by name.
-/

namespace Gobpf.Elf

open Gobpf.Go

/-- The errors of `EnableTracepoint`. -/
inductive EnableTracepointError where
  /-- `no such tracepoint program %q` -/
  | noSuchProgram (secName : List Char)
  /-- A run-time panic: `tracepointGroup[1]` or `tracepointGroup[2]` out of range. -/
  | panic
  /-- `cannot read tracepoint id %q: %v` or `invalid tracepoint id: %v` -/
  | readId (category name : List Char)
  /-- An error of `perfEventOpenTracepoint`. -/
  | perfEvent (err : EnableError)
  deriving DecidableEq, Repr

/-- `writeTracepointEvent(category, name)`: the id read from `events/<category>/<name>/id`.
`tracepointIds` gives what the file holds, `none` when it cannot be read or is not a number. -/
def writeTracepointEvent (tracepointIds : List Char → List Char → Option Nat)
    (category name : List Char) : Except EnableTracepointError Nat :=
  match tracepointIds category name with
  | none => .error (.readId category name)
  | some tracepointId => .ok tracepointId

/-- `prog.efd = efd` on the program registered under `secName`. -/
def Module.setTracepointEfd (b : Module) (secName : List Char) (efd : Int) : Module :=
  { b with tracepointPrograms := b.tracepointPrograms.map fun p =>
      if p.name = secName then { p with efd } else p }

/-- `EnableTracepoint(secName)`. -/
def Module.enableTracepoint (tracepointIds : List Char → List Char → Option Nat)
    (perf : PerfCalls) (secName : List Char) (b : Module) (t : Tracing) :
    Except EnableTracepointError Unit × Module × Tracing :=
  match b.tracepointPrograms.find? fun p => decide (p.name = secName) with
  | none => (.error (.noSuchProgram secName), b, t)
  | some prog =>
    let tracepointGroup := splitN secName '/' 3
    match tracepointGroup[1]?, tracepointGroup[2]? with
    | some category, some name =>
      match writeTracepointEvent tracepointIds category name with
      | .error err => (.error err, b, t)
      | .ok tracepointId =>
        -- `prog.efd, err = perfEventOpenTracepoint(tracepointId, progFd)`
        match perfEventOpenTracepoint perf tracepointId prog.fd t with
        | (.ok efd, t) => (.ok (), b.setTracepointEfd secName efd, t)
        | (.error err, t) => (.error (.perfEvent err), b.setTracepointEfd secName (-1), t)
    | _, _ => (.error .panic, b, t)

/-! ## One call -/

section Enable

variable {tracepointIds : List Char → List Char → Option Nat} {perf : PerfCalls}
  {secName category name : List Char} {id : Nat}

/-- The tracepoint of a section's name, as `EnableTracepoint` reads it, with its id. -/
structure TracepointOf (tracepointIds : List Char → List Char → Option Nat) (secName : List Char)
    (id : Nat) : Prop where
  group : ∃ category name, (splitN secName '/' 3)[1]? = some category ∧
    (splitN secName '/' 3)[2]? = some name ∧ tracepointIds category name = some id

/-- **`EnableTracepoint` attaches a registered program** to a new perf event, when the
perf event calls succeed. -/
theorem Module.enableTracepoint_eq_ok (hperf : perf.Succeed) {b : Module} {prog : TracepointProgram}
    (hfind : b.tracepointPrograms.find? (fun p => decide (p.name = secName)) = some prog)
    (htp : TracepointOf tracepointIds secName id) (t : Tracing) :
    b.enableTracepoint tracepointIds perf secName t =
      (.ok (), b.setTracepointEfd secName t.nextFd, (t.openPerfEvent id).2) := by
  obtain ⟨category, name, h₁, h₂, hid⟩ := htp.group
  simp [Module.enableTracepoint, hfind, h₁, h₂, writeTracepointEvent, hid,
    perfEventOpenTracepoint_eq_ok hperf, Tracing.openPerfEvent]

/-- A change that keeps the programs' names keeps the program found under a name. -/
theorem find?_map_of_name {l : List TracepointProgram} {f : TracepointProgram → TracepointProgram}
    (hf : ∀ p, (f p).name = p.name) {prog : TracepointProgram}
    (hfind : l.find? (fun p => decide (p.name = secName)) = some prog) :
    (l.map f).find? (fun p => decide (p.name = secName)) = some (f prog) := by
  have hcomp : ((fun p => decide (p.name = secName)) ∘ f) = fun p => decide (p.name = secName) := by
    funext p
    simp [hf]
  rw [List.find?_map, hcomp, hfind]
  rfl

/-- Setting `efd` keeps the program registered under its name. -/
theorem Module.find?_setTracepointEfd {b : Module} {prog : TracepointProgram} {efd : Int}
    (hfind : b.tracepointPrograms.find? (fun p => decide (p.name = secName)) = some prog) :
    (b.setTracepointEfd secName efd).tracepointPrograms.find? (fun p => decide (p.name = secName)) =
      some { prog with efd } := by
  have hname : prog.name = secName := by simpa using List.find?_some hfind
  rw [Module.setTracepointEfd, find?_map_of_name (fun p => by split_ifs <;> rfl) hfind, if_pos hname]

/-- **A second `efd` replaces the first.** -/
theorem Module.setTracepointEfd_setTracepointEfd (b : Module) (efd efd' : Int) :
    (b.setTracepointEfd secName efd).setTracepointEfd secName efd' =
      b.setTracepointEfd secName efd' := by
  simp only [Module.setTracepointEfd, List.map_map]
  congr 2
  funext p
  by_cases hp : p.name = secName <;> simp [hp]

/-- The fds `CloseExt` visits after setting `efd`: those it visited before, and `efd`. -/
theorem Module.mem_closedFds_setTracepointEfd {b : Module} {efd x : Int}
    (hx : x ∈ (b.setTracepointEfd secName efd).closedFds) : x ∈ b.closedFds ∨ x = efd := by
  simp only [Module.closedFds, Module.programFds, Module.setTracepointEfd, Module.mapFds,
    List.mem_append, List.flatMap_map] at hx
  rcases hx with hx | (((hx | hx) | hx) | hx)
  · exact .inl (List.mem_append_left _ hx)
  · exact .inl (List.mem_append_right _ (List.mem_append_left _ (List.mem_append_left _
      (List.mem_append_left _ hx))))
  · exact .inl (List.mem_append_right _ (List.mem_append_left _ (List.mem_append_left _
      (List.mem_append_right _ hx))))
  · obtain ⟨p, hp, hxp⟩ := List.mem_flatMap.1 hx
    have hmem : ∀ y ∈ efdFds p.efd p.fd, y ∈ b.closedFds := fun y hy =>
      List.mem_append_right _ (List.mem_append_left _ (List.mem_append_right _
        (List.mem_flatMap.2 ⟨p, hp, hy⟩)))
    split_ifs at hxp with hname
    · rcases mem_efdFds.1 hxp with ⟨-, rfl⟩ | rfl
      · exact .inr rfl
      · exact .inl (hmem _ (mem_efdFds.2 (.inr rfl)))
    · exact .inl (hmem x hxp)
  · exact .inl (List.mem_append_right _ (List.mem_append_right _ hx))

end Enable

/-! ## Enabling twice -/

/-- **Enabling a tracepoint program twice leaks a perf event.** On a kernel whose counters are
ahead of the module's fds, with the perf event calls succeeding, `EnableTracepoint` twice on a
registered program succeeds both times. The first perf event stays open, and no program refers to
it: `CloseExt` with any options, however it ends, leaves it open. -/
theorem enableTracepoint_twice_leaks {tracepointIds : List Char → List Char → Option Nat}
    {perf : PerfCalls} (hperf : perf.Succeed) {options : List Char → Option CloseOptions}
    {b : Module} {k : Kernel} {secName : List Char} {prog : TracepointProgram} {id : Nat}
    (hfind : b.tracepointPrograms.find? (fun p => decide (p.name = secName)) = some prog)
    (htp : TracepointOf tracepointIds secName id)
    (hheld : ∀ fd ∈ b.closedFds, fd < k.tracing.nextFd) :
    ∃ b₁ t₁ b₂ t₂, b.enableTracepoint tracepointIds perf secName k.tracing = (.ok (), b₁, t₁) ∧
      b₁.enableTracepoint tracepointIds perf secName t₁ = (.ok (), b₂, t₂) ∧
      (k.tracing.nextFd : Int) ∉ b₂.closedFds ∧
      (b₂.closeExt options { k with tracing := t₂ }).2.2.tracing.fds.lookup
        (k.tracing.nextFd : Int) = some (FdKind.perfEvent id) := by
  set t := k.tracing
  have hfind₁ : (b.setTracepointEfd secName t.nextFd).tracepointPrograms.find?
      (fun p => decide (p.name = secName)) = some { prog with efd := (t.nextFd : Int) } :=
    Module.find?_setTracepointEfd hfind
  have e₁ := Module.enableTracepoint_eq_ok hperf hfind htp t
  have e₂ := Module.enableTracepoint_eq_ok hperf hfind₁ htp (t.openPerfEvent id).2
  have hnot : (t.nextFd : Int) ∉ ((b.setTracepointEfd secName t.nextFd).setTracepointEfd secName
      (t.openPerfEvent id).2.nextFd).closedFds := by
    rw [Module.setTracepointEfd_setTracepointEfd]
    intro hmem
    rcases Module.mem_closedFds_setTracepointEfd hmem with hmem | heq
    · exact lt_irrefl _ (hheld _ hmem)
    · simp [Tracing.openPerfEvent] at heq
  refine ⟨_, _, _, _, e₁, e₂, hnot, ?_⟩
  rw [(Module.closeExt_touches _ _).fds _ hnot]
  simp [Tracing.openPerfEvent]

/-- A module with one tracepoint program, `tracepoint/sched/sched_switch` loaded as fd `3`, whose
`efd` is still the `0` that `Load` leaves. -/
def switchModule : Module where
  maps := []
  probes := []
  cgroupPrograms := []
  socketFilters := []
  tracepointPrograms := [⟨"tracepoint/sched/sched_switch".toList, 3, 0⟩]
  schedPrograms := []

theorem enableTracepoint_twice_leaks_switch :
    (⟨fun _ => true, fun _ => true, fun _ _ => true⟩ : PerfCalls).Succeed ∧
      switchModule.tracepointPrograms.find?
          (fun p => decide (p.name = "tracepoint/sched/sched_switch".toList)) =
        some ⟨"tracepoint/sched/sched_switch".toList, 3, 0⟩ ∧
      TracepointOf (fun _ _ => some 7) "tracepoint/sched/sched_switch".toList 7 ∧
      (∀ fd ∈ switchModule.closedFds, fd < (4 : Nat)) ∧
      ∃ b₁ t₁ b₂ t₂, switchModule.enableTracepoint (fun _ _ => some 7)
          ⟨fun _ => true, fun _ => true, fun _ _ => true⟩ "tracepoint/sched/sched_switch".toList
          ⟨∅, 0, true, ∅, 4⟩ = (.ok (), b₁, t₁) ∧
        b₁.enableTracepoint (fun _ _ => some 7) ⟨fun _ => true, fun _ => true, fun _ _ => true⟩
          "tracepoint/sched/sched_switch".toList t₁ = (.ok (), b₂, t₂) ∧
        ((4 : Nat) : Int) ∉ b₂.closedFds ∧
        (b₂.closeExt (fun _ => none) ⟨t₂, ⟨[], ∅⟩⟩).2.2.tracing.fds.lookup ((4 : Nat) : Int) =
          some (FdKind.perfEvent 7) := by
  have hperf : (⟨fun _ => true, fun _ => true, fun _ _ => true⟩ : PerfCalls).Succeed :=
    ⟨fun _ => rfl, fun _ => rfl, fun _ _ => rfl⟩
  have hfind : switchModule.tracepointPrograms.find?
      (fun p => decide (p.name = "tracepoint/sched/sched_switch".toList)) =
      some ⟨"tracepoint/sched/sched_switch".toList, 3, 0⟩ := by decide
  have htp : TracepointOf (fun _ _ => some 7) "tracepoint/sched/sched_switch".toList 7 :=
    ⟨"sched".toList, "sched_switch".toList, rfl, rfl, rfl⟩
  have hheld : ∀ fd ∈ switchModule.closedFds, fd < (4 : Nat) := by decide
  exact ⟨hperf, hfind, htp, hheld, @enableTracepoint_twice_leaks _ _ hperf (fun _ => none)
    switchModule ⟨⟨∅, 0, true, ∅, 4⟩, ⟨[], ∅⟩⟩ _ _ _ hfind htp hheld⟩

/-! ## Enabling each program once -/

/-- A client's calls of `EnableTracepoint`, one for each name in order, up to the first error. -/
def Module.enableTracepoints (tracepointIds : List Char → List Char → Option Nat)
    (perf : PerfCalls) : List (List Char) → Module → Tracing →
      Except EnableTracepointError Unit × Module × Tracing
  | [], b, t => (.ok (), b, t)
  | secName :: names, b, t =>
    match b.enableTracepoint tracepointIds perf secName t with
    | (.ok (), b, t) => Module.enableTracepoints tracepointIds perf names b t
    | (.error err, b, t) => (.error err, b, t)

/-- The module `b₀` with the programs named in `done` given the perf event fds `e`. -/
def Module.withEfds (b₀ : Module) (done : List (List Char)) (e : List Char → Int) : Module :=
  { b₀ with tracepointPrograms := b₀.tracepointPrograms.map fun p =>
      if p.name ∈ done then { p with efd := e p.name } else p }

/-- Enabling one more program, not enabled yet, adds its name to `done`. -/
theorem Module.setTracepointEfd_withEfds {b₀ : Module} {done : List (List Char)}
    {e : List Char → Int} {secName : List Char} (hnew : secName ∉ done) (efd : Int) :
    (b₀.withEfds done e).setTracepointEfd secName efd =
      b₀.withEfds (done ++ [secName]) (Function.update e secName efd) := by
  simp only [Module.setTracepointEfd, Module.withEfds, List.map_map]
  congr 2
  funext p
  by_cases h₁ : p.name = secName
  · simp [h₁, hnew]
  · by_cases h₂ : p.name ∈ done <;> simp [h₁, h₂]

/-- Where the calls are, started on the module `b₀` and the kernel `t₀`: the programs named in
`done` are enabled, each on a perf event of its own that the calls opened, and the kernel before
them is the kernel now with those perf events closed. -/
structure TracepointsEnabled (t₀ : Tracing) (b₀ : Module) (done : List (List Char))
    (e : List Char → Int) (t : Tracing) (b : Module) : Prop where
  module : b = b₀.withEfds done e
  perf : ∀ n ∈ done, (t₀.nextFd : Int) ≤ e n ∧ ∃ id, t.fds.lookup (e n) = some (.perfEvent id)
  nodup : (done.map e).Nodup
  released : t.Released (done.map e) [] t₀
  fresh : ∀ fd ∈ t.fds, fd < t.nextFd
  nextFd_le : t₀.nextFd ≤ t.nextFd

section Run

variable {tracepointIds : List Char → List Char → Option Nat} {perf : PerfCalls} {t₀ : Tracing}
  {b₀ : Module}

/-- Before the first call. -/
theorem TracepointsEnabled.init (hfresh : ∀ fd ∈ t₀.fds, fd < t₀.nextFd) (e : List Char → Int) :
    TracepointsEnabled t₀ b₀ [] e t₀ b₀ := by
  refine ⟨?_, by simp, List.nodup_nil, Tracing.Released.refl, hfresh, le_refl _⟩
  simp [Module.withEfds]

/-- Opening a perf event is undone by closing it, on a kernel whose counter is ahead of its fds. -/
theorem Tracing.released_openPerfEvent {t : Tracing} (hfresh : ∀ fd ∈ t.fds, fd < t.nextFd)
    (id : Nat) : (t.openPerfEvent id).2.Released [(t.nextFd : Int)] [] t := by
  refine ⟨fun x => ?_, fun _ => rfl⟩
  by_cases hx : x = t.nextFd
  · subst hx
    simp only [List.mem_singleton, if_true]
    exact AList.lookup_eq_none.2 fun hm => lt_irrefl _ (hfresh _ hm)
  · simp [hx, Tracing.openPerfEvent, AList.lookup_insert_ne hx]

/-- Opening a perf event keeps the counter ahead of the fds. -/
theorem Tracing.openPerfEvent_fds_lt {t : Tracing} (hfresh : ∀ fd ∈ t.fds, fd < t.nextFd)
    (id : Nat) : ∀ fd ∈ (t.openPerfEvent id).2.fds, fd < (t.openPerfEvent id).2.nextFd := by
  intro fd hfd
  simp only [Tracing.openPerfEvent, AList.mem_insert] at hfd
  rcases hfd with rfl | hfd
  · simp only [Tracing.openPerfEvent]
    push_cast
    omega
  · have := hfresh fd hfd
    simp only [Tracing.openPerfEvent]
    omega

/-- **One call keeps the invariant**: enabling a program not enabled yet gives it the next fd. -/
theorem TracepointsEnabled.step (hperf : perf.Succeed) {done : List (List Char)}
    {e : List Char → Int} {t : Tracing} {b : Module} (h : TracepointsEnabled t₀ b₀ done e t b)
    {secName : List Char} {prog : TracepointProgram} {id : Nat} (hnew : secName ∉ done)
    (hfind : b₀.tracepointPrograms.find? (fun p => decide (p.name = secName)) = some prog)
    (htp : TracepointOf tracepointIds secName id) :
    b.enableTracepoint tracepointIds perf secName t =
        (.ok (), b.setTracepointEfd secName t.nextFd, (t.openPerfEvent id).2) ∧
      TracepointsEnabled t₀ b₀ (done ++ [secName]) (Function.update e secName t.nextFd)
        (t.openPerfEvent id).2 (b.setTracepointEfd secName t.nextFd) := by
  have hname : prog.name = secName := by simpa using List.find?_some hfind
  have hfind' : b.tracepointPrograms.find? (fun p => decide (p.name = secName)) = some prog := by
    rw [h.module, Module.withEfds, find?_map_of_name (fun p => by split_ifs <;> rfl) hfind,
      if_neg (hname ▸ hnew)]
  have hlt : ∀ n ∈ done, e n < t.nextFd := fun n hn => by
    obtain ⟨-, id', hid⟩ := (h.perf n hn)
    exact h.fresh _ (Tracing.mem_fds_of_lookup hid)
  have hmap : (done ++ [secName]).map (Function.update e secName t.nextFd) =
      done.map e ++ [(t.nextFd : Int)] := by
    rw [List.map_append, List.map_singleton, Function.update_self]
    congr 1
    exact List.map_congr_left fun n hn =>
      Function.update_of_ne (fun he : n = secName => hnew (he ▸ hn)) _ _
  refine ⟨Module.enableTracepoint_eq_ok hperf hfind' htp t, ⟨?_, fun n hn => ?_, ?_, ?_, ?_, ?_⟩⟩
  · rw [h.module, Module.setTracepointEfd_withEfds hnew]
  · rcases List.mem_append.1 hn with hn | hn
    · have hne : n ≠ secName := fun he => hnew (he ▸ hn)
      obtain ⟨hge, id', hid⟩ := h.perf n hn
      refine ⟨by rw [Function.update_of_ne hne]; exact hge, id', ?_⟩
      rw [Function.update_of_ne hne]
      simp [Tracing.openPerfEvent, AList.lookup_insert_ne (hlt n hn).ne, hid]
    · rw [List.mem_singleton.1 hn, Function.update_self]
      exact ⟨by exact_mod_cast h.nextFd_le, id, by simp [Tracing.openPerfEvent]⟩
  · rw [hmap]
    refine List.nodup_append.2 ⟨h.nodup, List.nodup_singleton _, ?_⟩
    intro x hx y hy hxy
    obtain ⟨n, hn, rfl⟩ := List.mem_map.1 hx
    rw [List.mem_singleton.1 hy] at hxy
    exact (hlt n hn).ne hxy
  · rw [hmap]
    have hrel := (Tracing.released_openPerfEvent h.fresh id).trans h.released
    have hiff : ∀ x, x ∈ [(t.nextFd : Int)] ++ done.map e ↔ x ∈ done.map e ++ [(t.nextFd : Int)] :=
      fun x => by simp only [List.mem_append, or_comm]
    exact hrel.of_absent (fun x hx => (hiff x).2 hx) (List.Subset.refl _)
      (fun x hx hnot => absurd ((hiff x).1 hx) hnot) (fun _ he => absurd he List.not_mem_nil)
  · exact Tracing.openPerfEvent_fds_lt h.fresh id
  · exact Nat.le_succ_of_le h.nextFd_le

/-- **A run keeps the invariant**: calls on distinct programs not enabled yet each succeed. -/
theorem TracepointsEnabled.run (hperf : perf.Succeed) :
    ∀ {names done : List (List Char)} {e : List Char → Int} {t : Tracing} {b : Module},
      TracepointsEnabled t₀ b₀ done e t b → names.Nodup → (∀ n ∈ names, n ∉ done) →
      (∀ n ∈ names, ∃ prog id, b₀.tracepointPrograms.find? (fun p => decide (p.name = n)) =
        some prog ∧ TracepointOf tracepointIds n id) →
      ∃ e' t' b', b.enableTracepoints tracepointIds perf names t = (.ok (), b', t') ∧
        TracepointsEnabled t₀ b₀ (done ++ names) e' t' b'
  | [], _, e, t, b, h, _, _, _ => ⟨e, t, b, rfl, by simpa using h⟩
  | n :: names, done, e, t, b, h, hnd, hnew, hreg => by
    obtain ⟨prog, id, hfind, htp⟩ := hreg n List.mem_cons_self
    obtain ⟨e₁, h₁⟩ := h.step hperf (hnew n List.mem_cons_self) hfind htp
    have hnd' := List.nodup_cons.1 hnd
    obtain ⟨e', t', b', hrun, h'⟩ := TracepointsEnabled.run hperf h₁ hnd'.2
      (fun m hm hmem => by
        rcases List.mem_append.1 hmem with hmem | hmem
        · exact hnew m (List.mem_cons_of_mem _ hm) hmem
        · exact hnd'.1 (List.mem_singleton.1 hmem ▸ hm))
      fun m hm => hreg m (List.mem_cons_of_mem _ hm)
    refine ⟨e', t', b', ?_, by simpa using h'⟩
    simp only [Module.enableTracepoints, e₁]
    exact hrun

/-- Every loaded program is found by its own name, as a program of that name. -/
theorem find?_name_of_mem {ps : List TracepointProgram} {p : TracepointProgram} (hp : p ∈ ps) :
    ∃ q, ps.find? (fun q => decide (q.name = p.name)) = some q ∧ q ∈ ps ∧ q.name = p.name := by
  have hsome : (ps.find? fun q => decide (q.name = p.name)).isSome :=
    List.find?_isSome.2 ⟨p, hp, decide_eq_true rfl⟩
  obtain ⟨q, hq⟩ := Option.isSome_iff_exists.1 hsome
  have hqn : q.name = p.name := by
    have := List.find?_some hq
    exact of_decide_eq_true this
  exact ⟨q, hq, List.mem_of_find?_eq_some hq, hqn⟩

/-- With every program enabled, each carries its own perf event. -/
theorem TracepointsEnabled.tracepointPrograms_of_all {done : List (List Char)} {e : List Char → Int}
    {t : Tracing} {b : Module} (h : TracepointsEnabled t₀ b₀ done e t b)
    (hall : ∀ p ∈ b₀.tracepointPrograms, p.name ∈ done) :
    b.tracepointPrograms = b₀.tracepointPrograms.map fun p => { p with efd := e p.name } := by
  rw [h.module, Module.withEfds]
  exact List.map_congr_left fun p hp => if_pos (hall p hp)

/-- With every program enabled, the fds `closeTracepointPrograms` visits are the perf events and
the programs' fds. -/
theorem TracepointsEnabled.visited_perm {done : List (List Char)} {e : List Char → Int}
    {t : Tracing} {b : Module} (h : TracepointsEnabled t₀ b₀ done e t b)
    (hall : ∀ p ∈ b₀.tracepointPrograms, p.name ∈ done) :
    (b.tracepointPrograms.flatMap fun p => efdFds p.efd p.fd).Perm
      ((b₀.tracepointPrograms.map fun p => e p.name) ++ b₀.tracepointPrograms.map TracepointProgram.fd) := by
  have hps := h.tracepointPrograms_of_all hall
  have hne : ∀ p ∈ b.tracepointPrograms, p.efd ≠ -1 := by
    rw [hps]
    intro p hp
    obtain ⟨q, hq, rfl⟩ := List.mem_map.1 hp
    have := (h.perf _ (hall q hq)).1
    simp only
    omega
  have := flatMap_efdFds_perm TracepointProgram.efd TracepointProgram.fd hne
  rw [hps, List.map_map, List.map_map] at this
  rw [hps]
  exact this

/-- **After the run**: with every program enabled, `closeTracepointPrograms` succeeds, and seen
from the kernel before the first call it closes exactly the programs' fds. -/
theorem TracepointsEnabled.close {done : List (List Char)} {e : List Char → Int} {t : Tracing}
    {b : Module} (h : TracepointsEnabled t₀ b₀ done e t b)
    (hdone : done.Perm (b₀.tracepointPrograms.map TracepointProgram.name))
    (hfds : (b₀.tracepointPrograms.map TracepointProgram.fd).Nodup)
    (hopen : ∀ p ∈ b₀.tracepointPrograms, p.fd ∈ t₀.fds) (hfresh : ∀ fd ∈ t₀.fds, fd < t₀.nextFd) :
    (closeTracepointPrograms b.tracepointPrograms t).2.1 = .ok () ∧
      t₀.Released (b₀.tracepointPrograms.map TracepointProgram.fd) []
        (closeTracepointPrograms b.tracepointPrograms t).2.2 := by
  have hall : ∀ p ∈ b₀.tracepointPrograms, p.name ∈ done := fun p hp =>
    hdone.mem_iff.2 (List.mem_map_of_mem hp)
  have hge : ∀ p ∈ b₀.tracepointPrograms, (t₀.nextFd : Int) ≤ e p.name := fun p hp =>
    (h.perf _ (hall p hp)).1
  have hlt : ∀ p ∈ b₀.tracepointPrograms, p.fd < t₀.nextFd := fun p hp => hfresh _ (hopen p hp)
  have hperm := h.visited_perm hall
  have hefds : ∀ x, x ∈ done.map e ↔ x ∈ b₀.tracepointPrograms.map fun p => e p.name := fun x => by
    rw [(hdone.map e).mem_iff, List.map_map]
    rfl
  have hnd : (b₀.tracepointPrograms.map fun p => e p.name).Nodup := by
    have := (hdone.map e).nodup_iff.1 h.nodup
    rwa [List.map_map] at this
  obtain ⟨-, hok, hrel⟩ := closeTracepointPrograms_of_open
    (hperm.nodup_iff.2 (List.nodup_append.2 ⟨hnd, hfds, fun x hx y hy hxy => by
      obtain ⟨p, hp, rfl⟩ := List.mem_map.1 hx
      obtain ⟨q, hq, rfl⟩ := List.mem_map.1 hy
      have := hge p hp
      have := hlt q hq
      omega⟩))
    (fun fd hfd => by
      rcases List.mem_append.1 (hperm.mem_iff.1 hfd) with hfd | hfd
      · obtain ⟨p, hp, rfl⟩ := List.mem_map.1 hfd
        obtain ⟨-, id, hid⟩ := h.perf _ (hall p hp)
        exact Tracing.mem_fds_of_lookup hid
      · obtain ⟨p, hp, rfl⟩ := List.mem_map.1 hfd
        have hnot : p.fd ∉ done.map e := fun hm => by
          obtain ⟨q, hq, hqe⟩ := List.mem_map.1 ((hefds _).1 hm)
          have := hge q hq
          have := hlt p hp
          omega
        have hsome := hopen p hp
        rw [← AList.lookup_isSome, h.released.fds, if_neg hnot, AList.lookup_isSome] at hsome
        exact hsome)
  refine ⟨hok, ?_⟩
  have hfrom := h.released.cancel hrel
    (fun x hx => hperm.mem_iff.2 (List.mem_append_left _ ((hefds x).1 hx))) (List.Subset.refl _)
  refine hfrom.of_absent (fun x hx => hperm.mem_iff.2 (List.mem_append_right _ hx))
    (List.Subset.refl _) (fun x hx hnot => ?_) (fun _ he => absurd he List.not_mem_nil)
  rcases List.mem_append.1 (hperm.mem_iff.1 hx) with hx | hx
  · obtain ⟨p, hp, rfl⟩ := List.mem_map.1 hx
    have := hge p hp
    exact AList.lookup_eq_none.2 fun hm => by
      have := hfresh _ hm
      omega
  · exact absurd hx hnot

end Run

/-- **Enabling each tracepoint program once and closing them leaves nothing behind.** Take a
module whose tracepoint programs have distinct names and fds, each open, each section naming a
tracepoint whose id can be read, on a kernel whose counter is ahead of its fds, with the perf event
calls succeeding. Calls of `EnableTracepoint` naming each program once, in any order, all succeed;
`closeTracepointPrograms` then succeeds, and the kernel after it is the kernel before the calls
with the programs' fds closed: every perf event the calls opened is closed, and nothing else has
changed. -/
theorem closeTracepointPrograms_enableTracepoints {tracepointIds : List Char → List Char → Option Nat}
    {perf : PerfCalls} (hperf : perf.Succeed) {b : Module} {t : Tracing} {names : List (List Char)}
    (hnames : names.Perm (b.tracepointPrograms.map TracepointProgram.name))
    (hnodup : (b.tracepointPrograms.map TracepointProgram.name).Nodup)
    (htp : ∀ p ∈ b.tracepointPrograms, ∃ id, TracepointOf tracepointIds p.name id)
    (hfds : (b.tracepointPrograms.map TracepointProgram.fd).Nodup)
    (hopen : ∀ p ∈ b.tracepointPrograms, p.fd ∈ t.fds) (hfresh : ∀ fd ∈ t.fds, fd < t.nextFd) :
    ∃ b' t', b.enableTracepoints tracepointIds perf names t = (.ok (), b', t') ∧
      (closeTracepointPrograms b'.tracepointPrograms t').2.1 = .ok () ∧
      t.Released (b.tracepointPrograms.map TracepointProgram.fd) []
        (closeTracepointPrograms b'.tracepointPrograms t').2.2 := by
  have hreg : ∀ n ∈ names, ∃ prog id, b.tracepointPrograms.find? (fun p => decide (p.name = n)) =
      some prog ∧ TracepointOf tracepointIds n id := by
    intro n hn
    obtain ⟨p, hp, rfl⟩ := List.mem_map.1 (hnames.mem_iff.1 hn)
    obtain ⟨q, hq, hmem, hqn⟩ := find?_name_of_mem hp
    obtain ⟨id, hid⟩ := htp q hmem
    exact ⟨q, id, hq, hqn ▸ hid⟩
  have hinit : TracepointsEnabled t b [] (fun _ => 0) t b := TracepointsEnabled.init hfresh _
  obtain ⟨e, t', b', hrun, h⟩ := hinit.run hperf (hnames.nodup_iff.2 hnodup)
    (fun _ _ => List.not_mem_nil) hreg
  rw [List.nil_append] at h
  exact ⟨b', t', hrun, h.close hnames hfds hopen hfresh⟩

/-- A module with two tracepoint programs, `sched_switch` loaded as fd `3` and `sched_wakeup` as
fd `4`. -/
def schedModule : Module where
  maps := []
  probes := []
  cgroupPrograms := []
  socketFilters := []
  tracepointPrograms := [⟨"tracepoint/sched/sched_switch".toList, 3, 0⟩,
    ⟨"tracepoint/sched/sched_wakeup".toList, 4, 0⟩]
  schedPrograms := []

/-- The kernel holding the two programs of `schedModule`. -/
def schedTracing : Tracing :=
  ⟨∅, 0, true, (AList.singleton 3 .program).insert 4 .program, 5⟩

/-- `sched_wakeup`, then `sched_switch`, enabled and closed. -/
theorem closeTracepointPrograms_enableTracepoints_sched :
    (⟨fun _ => true, fun _ => true, fun _ _ => true⟩ : PerfCalls).Succeed ∧
      ["tracepoint/sched/sched_wakeup".toList, "tracepoint/sched/sched_switch".toList].Perm
        (schedModule.tracepointPrograms.map TracepointProgram.name) ∧
      (schedModule.tracepointPrograms.map TracepointProgram.name).Nodup ∧
      (∀ p ∈ schedModule.tracepointPrograms, ∃ id, TracepointOf (fun _ _ => some 7) p.name id) ∧
      (schedModule.tracepointPrograms.map TracepointProgram.fd).Nodup ∧
      (∀ p ∈ schedModule.tracepointPrograms, p.fd ∈ schedTracing.fds) ∧
      (∀ fd ∈ schedTracing.fds, fd < schedTracing.nextFd) ∧
      ∃ b' t', schedModule.enableTracepoints (fun _ _ => some 7)
          ⟨fun _ => true, fun _ => true, fun _ _ => true⟩
          ["tracepoint/sched/sched_wakeup".toList, "tracepoint/sched/sched_switch".toList]
          schedTracing = (.ok (), b', t') ∧
        (closeTracepointPrograms b'.tracepointPrograms t').2.1 = .ok () ∧
        schedTracing.Released (schedModule.tracepointPrograms.map TracepointProgram.fd) []
          (closeTracepointPrograms b'.tracepointPrograms t').2.2 := by
  have hperf : (⟨fun _ => true, fun _ => true, fun _ _ => true⟩ : PerfCalls).Succeed :=
    ⟨fun _ => rfl, fun _ => rfl, fun _ _ => rfl⟩
  have hnames : ["tracepoint/sched/sched_wakeup".toList, "tracepoint/sched/sched_switch".toList].Perm
      (schedModule.tracepointPrograms.map TracepointProgram.name) := List.Perm.swap _ _ _
  have hnodup : (schedModule.tracepointPrograms.map TracepointProgram.name).Nodup := by decide
  have htp : ∀ p ∈ schedModule.tracepointPrograms, ∃ id,
      TracepointOf (fun _ _ => some 7) p.name id := fun p hp => by
    simp only [schedModule, List.mem_cons, List.not_mem_nil, or_false] at hp
    rcases hp with rfl | rfl
    · exact ⟨7, "sched".toList, "sched_switch".toList, rfl, rfl, rfl⟩
    · exact ⟨7, "sched".toList, "sched_wakeup".toList, rfl, rfl, rfl⟩
  have hfds : (schedModule.tracepointPrograms.map TracepointProgram.fd).Nodup := by decide
  have hopen : ∀ p ∈ schedModule.tracepointPrograms, p.fd ∈ schedTracing.fds := fun p hp => by
    simp only [schedModule, List.mem_cons, List.not_mem_nil, or_false] at hp
    rcases hp with rfl | rfl <;> decide
  have hfresh : ∀ fd ∈ schedTracing.fds, fd < schedTracing.nextFd := fun fd hfd => by
    have hkeys : schedTracing.fds.keys = [4, 3] := by decide
    rw [AList.mem_keys, hkeys] at hfd
    simp only [List.mem_cons, List.not_mem_nil, or_false] at hfd
    rcases hfd with rfl | rfl <;> decide
  exact ⟨hperf, hnames, hnodup, htp, hfds, hopen, hfresh,
    closeTracepointPrograms_enableTracepoints hperf hnames hnodup htp hfds hopen hfresh⟩

/-! ## Programs never enabled -/

/-- `closePrograms` fails when its tracepoint loop fails on every kernel. -/
theorem Module.closePrograms_error_of_tracepoints {b : Module}
    (h : ∀ t, ∃ err, (closeTracepointPrograms b.tracepointPrograms t).2.1 = .error err)
    (t : Tracing) : ∃ err, (b.closePrograms t).1 = .error err := by
  cases hp : closeProbes b.probes t with
  | mk qs rest =>
    obtain ⟨r₁, t₁⟩ := rest
    cases r₁ with
    | error err => exact ⟨err, by simp only [Module.closePrograms, hp]⟩
    | ok u =>
      cases hc : closeCgroupPrograms b.cgroupPrograms t₁ with
      | mk r₂ t₂ =>
        cases r₂ with
        | error err => exact ⟨err, by simp only [Module.closePrograms, hp, hc]⟩
        | ok u =>
          obtain ⟨err, herr⟩ := h t₂
          cases ht : closeTracepointPrograms b.tracepointPrograms t₂ with
          | mk tps rest =>
            obtain ⟨r₃, t₃⟩ := rest
            rw [ht] at herr
            obtain rfl : r₃ = .error err := herr
            exact ⟨err, by simp only [Module.closePrograms, hp, hc, ht]⟩

/-- `CloseExt` fails when `closePrograms` fails on every kernel, with any options. -/
theorem Module.closeExt_error_of_programs {b : Module}
    (h : ∀ t, ∃ err, (b.closePrograms t).1 = .error err) (options : List Char → Option CloseOptions)
    (k : Kernel) : ∃ err, (b.closeExt options k).1 = .error err := by
  cases hm : Module.closeMaps options b.maps k with
  | mk r k₁ =>
    cases r with
    | error err => exact ⟨.maps err, by simp only [Module.closeExt, hm]⟩
    | ok u =>
      obtain ⟨err, herr⟩ := h k₁.tracing
      cases hc : b.closePrograms k₁.tracing with
      | mk r₂ rest =>
        obtain ⟨b', t'⟩ := rest
        rw [hc] at herr
        obtain rfl : r₂ = .error err := herr
        exact ⟨.programs err, by simp only [Module.closeExt, hm, hc]⟩

/-- **A module with two tracepoint programs that were never enabled cannot be closed.** `Load`
registers each tracepoint program with the `efd` `0`, and `closeTracepointPrograms` closes every
`efd` but `-1`: it closes fd `0` for the first and fails at the second, if nothing failed before.
`CloseExt` therefore returns an error, with any options and on any kernel. -/
theorem closeExt_unenabled_tracepoints (options : List Char → Option CloseOptions) (k : Kernel)
    {b : Module} {s₁ s₂ : List Char} {fd₁ fd₂ : Int}
    (h : [TracepointProgram.ofLoad s₁ fd₁, TracepointProgram.ofLoad s₂ fd₂].Sublist
      b.tracepointPrograms) :
    ∃ err, (b.closeExt options k).1 = .error err :=
  Module.closeExt_error_of_programs
    (Module.closePrograms_error_of_tracepoints fun _ =>
      closeTracepointPrograms_error_of_efd_zero_twice h rfl rfl) options k

/-- `Close` of `schedModule`, neither of whose programs was enabled, on a kernel holding fd `0` and
the two programs. -/
theorem closeExt_unenabled_tracepoints_sched :
    [TracepointProgram.ofLoad "tracepoint/sched/sched_switch".toList 3,
        TracepointProgram.ofLoad "tracepoint/sched/sched_wakeup".toList 4].Sublist
      schedModule.tracepointPrograms ∧
      ∃ err, (schedModule.closeExt (fun _ => none)
        ⟨{ schedTracing with fds := schedTracing.fds.insert 0 .other }, ⟨[], ∅⟩⟩).1 = .error err :=
  ⟨List.Sublist.refl _, closeExt_unenabled_tracepoints _ _ (List.Sublist.refl _)⟩

end Gobpf.Elf
