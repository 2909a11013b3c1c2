import Gobpf.Elf.Probes
import Gobpf.Elf.MapStore

/-!
# Closing a module

`CloseExt` releases what a module holds in five loops. Each stops at its first error, and that error
stops `CloseExt`: `closeMaps` unpins each map whose `CloseOptions` set `Unpin` and closes the map's
perf event fds and its fd; `closeProbes`, `closeCgroupPrograms`, `closeTracepointPrograms` and
`closeSocketFilters` then release the programs. `Close` is `CloseExt` with no options, and so
unpins nothing.

Take a module that holds its fds, each open and none twice, with its probes attached as
`EnableKprobes` leaves them. When the pins it is asked to remove are in place, `CloseExt`
succeeds: it closes the module's fds, removes the probes' events and unlinks the paths that
`closeMaps` of `Pinning` lists, and changes nothing else. No loop visits the programs of the
`sched_cls/` and `sched_act/` sections, so their fds are the only fds of the module still open
afterwards (`closeExt_releases`).

A map to unpin whose pin is gone makes `CloseExt` fail in `closeMaps`, before any program is
released. A pin is gone, for instance, when another module sharing it was closed first. Every fd
but the maps' and every kprobe event is then left as it was (`closeExt_unpin_missing`).

Closing an fd is `Tracing.close`. `syscall.Unlink` in the bpf filesystem is `Kernel.unlink`, which
fails where nothing is pinned. `C.free` of the map is left out.
-/

namespace Gobpf.Elf

open Gobpf.Go

/-! ## The module and the kernel -/

/-- The kernel as `CloseExt` observes it: the process's fds and the kprobe events, and the bpf
filesystem's pins. -/
structure Kernel where
  tracing : Tracing
  bpf : BpfKernel

/-- `syscall.Unlink(path)` in the bpf filesystem, which fails with `ENOENT` where nothing is
pinned. -/
def Kernel.unlink (k : Kernel) (path : List Char) : Option Kernel :=
  if path ∈ k.bpf.pins then some { k with bpf := k.bpf.unlink path } else none

/-- A map of a loaded module as `closeMaps` reads it: the map `elfReadMaps` loaded, the fd of its
`bpf_map`, and the fds of its perf rings (none, for a map that is not a perf map). -/
structure LoadedMap extends Map where
  fd : Int
  pmuFDs : List Int

/-- A `Module` as `CloseExt` reads it: its registries, each in the order the loop over it visits
it. A cgroup program, a socket filter and a sched program are their fds. -/
structure Module where
  maps : List LoadedMap
  probes : List Kprobe
  cgroupPrograms : List Int
  socketFilters : List Int
  tracepointPrograms : List TracepointProgram
  schedPrograms : List Int

/-- The errors of `closeMaps`. -/
inductive MapCloseError where
  /-- An error of the unpinning, as `closeMaps` of `Pinning` has them. -/
  | unpin (err : CloseError)
  /-- `error closing perf event fd: %v` -/
  | perfEventFd
  /-- `error closing map fd: %v` -/
  | mapFd

/-- The errors of `CloseExt`: those of `closeMaps`, and those of the loops over the programs. -/
inductive CloseExtError where
  | maps (err : MapCloseError)
  | programs (err : ProgramCloseError)

/-! ## `CloseExt` -/

section CloseExt

variable (options : List Char → Option CloseOptions)

/-- The unpinning in the loop of `closeMaps`: the kernel after it, when the map's `CloseOptions`
set `Unpin`. -/
def closeMapsUnpin (m : LoadedMap) (k : Kernel) : Except MapCloseError Kernel :=
  if ((options (mapsPrefix ++ m.name)).getD {}).unpin then
    match closePinPath options m.toMap with
    | .error err => .error (.unpin err)
    | .ok pinPath =>
      match unpinMap m.toMap pinPath with
      | .error err => .error (.unpin (.unpinPath m.name err))
      | .ok mapPath =>
        match k.unlink mapPath with
        | none => .error (.unpin (.unlink m.name))
        | some k => .ok k
  else .ok k

/-- The closing in the loop of `closeMaps`: the map's perf event fds, then its fd. -/
def closeMapFds (m : LoadedMap) (t : Tracing) : Except MapCloseError Unit × Tracing :=
  match closeProgramFds .perfEventFd m.pmuFDs t with
  | (.error _, t) => (.error .perfEventFd, t)
  | (.ok (), t) =>
    match t.close m.fd with
    | none => (.error .mapFd, t)
    | some t => (.ok (), t)

/-- `closeMaps`, over the maps in the order the loop visits `b.maps`, up to the first error. -/
def Module.closeMaps : List LoadedMap → Kernel → Except MapCloseError Unit × Kernel
  | [], k => (.ok (), k)
  | m :: ms, k =>
    match closeMapsUnpin options m k with
    | .error err => (.error err, k)
    | .ok k =>
      match closeMapFds m k.tracing with
      | (.error err, t) => (.error err, { k with tracing := t })
      | (.ok (), t) => Module.closeMaps ms { k with tracing := t }

/-- The loops of `CloseExt` after `closeMaps`: `closeProbes`, `closeCgroupPrograms`,
`closeTracepointPrograms` and `closeSocketFilters`, each run once the one before has succeeded.
The module keeps the perf event fds that `closeProbes` and `closeTracepointPrograms` reset. -/
def Module.closePrograms (b : Module) (t : Tracing) :
    Except ProgramCloseError Unit × Module × Tracing :=
  match closeProbes b.probes t with
  | (probes, .error err, t) => (.error err, { b with probes }, t)
  | (probes, .ok (), t) =>
    match closeCgroupPrograms b.cgroupPrograms t with
    | (.error err, t) => (.error err, { b with probes }, t)
    | (.ok (), t) =>
      match closeTracepointPrograms b.tracepointPrograms t with
      | (tracepointPrograms, .error err, t) =>
        (.error err, { b with probes, tracepointPrograms }, t)
      | (tracepointPrograms, .ok (), t) =>
        let (r, t) := closeSocketFilters b.socketFilters t
        (r, { b with probes, tracepointPrograms }, t)

/-- `CloseExt(options)`. -/
def Module.closeExt (b : Module) (k : Kernel) : Except CloseExtError Unit × Module × Kernel :=
  match Module.closeMaps options b.maps k with
  | (.error err, k) => (.error (.maps err), b, k)
  | (.ok (), k) =>
    match b.closePrograms k.tracing with
    | (.error err, b, t) => (.error (.programs err), b, { k with tracing := t })
    | (.ok (), b, t) => (.ok (), b, { k with tracing := t })

end CloseExt

/-- `Close`: `CloseExt(nil)`, under which no map is unpinned. -/
def Module.close (b : Module) (k : Kernel) : Except CloseExtError Unit × Module × Kernel :=
  b.closeExt (fun _ => none) k

/-! ## What a module holds -/

/-- The fds of a program with a perf event, in the order `closeProbes` and
`closeTracepointPrograms` close them: the perf event's unless it is `-1`, then the program's. -/
def efdFds (efd fd : Int) : List Int :=
  if efd = -1 then [fd] else [efd, fd]

/-- The fds of programs that all have a perf event: the perf events', then the programs'. -/
theorem flatMap_efdFds_perm {α : Type} (efd fd : α → Int) :
    ∀ {l : List α}, (∀ a ∈ l, efd a ≠ -1) →
      (l.flatMap fun a => efdFds (efd a) (fd a)).Perm (l.map efd ++ l.map fd)
  | [], _ => List.Perm.refl _
  | a :: l, h => by
    have ih := flatMap_efdFds_perm efd fd fun b hb => h b (List.mem_cons_of_mem _ hb)
    simp only [List.flatMap_cons, efdFds, if_neg (h a List.mem_cons_self), List.map_cons,
      List.cons_append]
    exact ((ih.cons _).trans List.perm_middle.symm).cons _

/-- The fds `closeMaps` closes for a map. -/
def LoadedMap.fds (m : LoadedMap) : List Int := m.pmuFDs ++ [m.fd]

/-- The fds of the maps. -/
def Module.mapFds (b : Module) : List Int := b.maps.flatMap LoadedMap.fds

/-- The fds of the programs that `CloseExt` visits. -/
def Module.programFds (b : Module) : List Int :=
  b.probes.flatMap (fun q => efdFds q.efd q.fd) ++ b.cgroupPrograms ++
    b.tracepointPrograms.flatMap (fun p => efdFds p.efd p.fd) ++ b.socketFilters

/-- The fds of the maps and of the programs `CloseExt` visits. -/
def Module.closedFds (b : Module) : List Int := b.mapFds ++ b.programFds

/-- Every fd the module holds: those of `closedFds`, and the sched programs'. -/
def Module.fds (b : Module) : List Int := b.closedFds ++ b.schedPrograms

/-- A module that holds its fds: each open and none held twice, with its probes attached. -/
structure Module.Holds (b : Module) (t : Tracing) : Prop where
  nodup : b.fds.Nodup
  mem : ∀ fd ∈ b.fds, fd ∈ t.fds
  probes : AllAttached t b.probes

/-- The module after a `CloseExt` that succeeds: the perf event fds of its probes and tracepoint
programs reset to `-1`. -/
def Module.closed (b : Module) : Module :=
  { b with probes := b.probes.map fun q => { q with efd := -1 },
           tracepointPrograms := b.tracepointPrograms.map fun p => { p with efd := -1 } }

/-! ## Releasing -/

/-- `t'` is `t` with the fds `xs` closed and the kprobe events `es` removed. -/
structure Tracing.Released (xs : List Int) (es : List (List Char)) (t t' : Tracing) : Prop where
  fds : ∀ x, t'.fds.lookup x = if x ∈ xs then none else t.fds.lookup x
  events : ∀ e, t'.kprobeEvents.lookup e = if e ∈ es then none else t.kprobeEvents.lookup e

/-- `k'` is `k` with the fds `xs` closed, the kprobe events `es` removed and the pins at `paths`
unlinked. -/
structure Kernel.Released (xs : List Int) (es : List (List Char)) (paths : List (List Char))
    (k k' : Kernel) : Prop where
  tracing : k.tracing.Released xs es k'.tracing
  pins : ∀ p, k'.bpf.pins.lookup p = if p ∈ paths then none else k.bpf.pins.lookup p

/-- Removing `xs`, then `ys`, removes `xs ++ ys`. -/
theorem ite_mem_none_trans {α β : Type} [BEq α] [LawfulBEq α] {f g h : α → Option β} {xs ys : List α}
    (h₁ : ∀ x, g x = if x ∈ xs then none else f x) (h₂ : ∀ x, h x = if x ∈ ys then none else g x)
    (x : α) : h x = if x ∈ xs ++ ys then none else f x := by
  rw [h₂, h₁]
  by_cases hy : x ∈ ys
  · simp [hy]
  · by_cases hx : x ∈ xs <;> simp [hx, hy]

/-- Removing `zs` from `f` is removing them from `g`, when `g` is `f` with some of them removed. -/
theorem ite_mem_none_cancel {α β : Type} [BEq α] [LawfulBEq α] {f g h : α → Option β}
    {xs zs : List α} (h₀ : ∀ x, g x = if x ∈ xs then none else f x)
    (h₁ : ∀ x, h x = if x ∈ zs then none else f x) (hsub : xs ⊆ zs) (x : α) :
    h x = if x ∈ zs then none else g x := by
  rw [h₁, h₀]
  by_cases hz : x ∈ zs
  · simp [hz]
  · have hx : x ∉ xs := fun hx => hz (hsub hx)
    simp [hz, hx]

/-- Removing what `f` does not have removes nothing: removing `xs` is removing those of them that
`f` has. -/
theorem ite_mem_none_of_absent {α β : Type} [BEq α] [LawfulBEq α] {f g : α → Option β}
    {xs ys : List α} (h : ∀ x, g x = if x ∈ xs then none else f x) (hsub : ys ⊆ xs)
    (habs : ∀ x ∈ xs, x ∉ ys → f x = none) (x : α) : g x = if x ∈ ys then none else f x := by
  rw [h]
  by_cases hy : x ∈ ys
  · simp [hy, hsub hy]
  · by_cases hx : x ∈ xs
    · simp [hx, hy, habs x hx hy]
    · simp [hx, hy]

namespace Tracing

variable {t t' t'' : Tracing} {xs ys : List Int} {es fs : List (List Char)}

theorem Released.refl : t.Released [] [] t :=
  ⟨fun _ => rfl, fun _ => rfl⟩

theorem Released.trans (h₁ : t.Released xs es t') (h₂ : t'.Released ys fs t'') :
    t.Released (xs ++ ys) (es ++ fs) t'' :=
  ⟨ite_mem_none_trans h₁.fds h₂.fds, ite_mem_none_trans h₁.events h₂.events⟩

theorem released_close {fd : Int} (h : t.close fd = some t') : t.Released [fd] [] t' := by
  obtain ⟨-, rfl⟩ := close_eq_some h
  refine ⟨fun x => ?_, fun _ => rfl⟩
  by_cases hx : x = fd
  · subst hx
    simp
  · simp [hx, AList.lookup_erase_ne hx]

theorem Released.mem_fds_iff {x : Int} (h : t.Released xs es t') (hx : x ∉ xs) :
    x ∈ t'.fds ↔ x ∈ t.fds := by
  rw [← AList.lookup_isSome, h.fds x, if_neg hx, AList.lookup_isSome]

theorem Released.not_mem_fds {x : Int} (h : t.Released xs es t') (hx : x ∈ xs) : x ∉ t'.fds := by
  rw [← AList.lookup_isSome, h.fds x, if_pos hx]
  simp

/-- After closing `xs`, the fds of `ys` that were open are open, when no fd is in both. -/
theorem Released.mem_of_nodup (h : t.Released xs es t') (hnd : (xs ++ ys).Nodup)
    (hmem : ∀ y ∈ ys, y ∈ t.fds) : ∀ y ∈ ys, y ∈ t'.fds := fun y hy =>
  (h.mem_fds_iff fun hx => List.disjoint_of_nodup_append hnd hx hy).2 (hmem y hy)

/-- After closing `xs` of the open and distinct fds `xs ++ ys`, those of them still open are
`ys`. -/
theorem Released.mem_fds_iff_mem (h : t.Released xs es t') (hnd : (xs ++ ys).Nodup)
    (hmem : ∀ x ∈ xs ++ ys, x ∈ t.fds) : ∀ x ∈ xs ++ ys, x ∈ t'.fds ↔ x ∈ ys := by
  intro x hx
  by_cases hxs : x ∈ xs
  · have hys : x ∉ ys := List.disjoint_of_nodup_append hnd hxs
    simp only [hys, iff_false]
    exact h.not_mem_fds hxs
  · have hys : x ∈ ys := (List.mem_append.1 hx).resolve_left hxs
    simp only [hys, iff_true]
    exact (h.mem_fds_iff hxs).2 (hmem x hx)

/-- Releasing from `t` what `t₀` has released, and more, releases from `t₀` the same. -/
theorem Released.cancel {t₀ : Tracing} {zs : List Int} {gs : List (List Char)}
    (h₀ : t.Released xs es t₀) (h₁ : t.Released zs gs t') (hxs : xs ⊆ zs) (hes : es ⊆ gs) :
    t₀.Released zs gs t' :=
  ⟨ite_mem_none_cancel h₀.fds h₁.fds hxs, ite_mem_none_cancel h₀.events h₁.events hes⟩

/-- Releasing fds that are not open and events that are not defined changes nothing. -/
theorem Released.of_absent (h : t.Released xs es t') (hys : ys ⊆ xs) (hfs : fs ⊆ es)
    (hxs : ∀ x ∈ xs, x ∉ ys → t.fds.lookup x = none)
    (hes : ∀ e ∈ es, e ∉ fs → t.kprobeEvents.lookup e = none) : t.Released ys fs t' :=
  ⟨ite_mem_none_of_absent h.fds hys hxs, ite_mem_none_of_absent h.events hfs hes⟩

/-- `t'` is `t` with at most the fds `xs` closed: no fd is opened, none but those of `xs` is
closed, and the kprobe events are those of `t`. -/
structure ClosesOnly (xs : List Int) (t t' : Tracing) : Prop where
  fds : ∀ x, t'.fds.lookup x = t.fds.lookup x ∨ x ∈ xs ∧ t'.fds.lookup x = none
  events : ∀ e, t'.kprobeEvents.lookup e = t.kprobeEvents.lookup e

theorem ClosesOnly.refl : t.ClosesOnly xs t :=
  ⟨fun _ => .inl rfl, fun _ => rfl⟩

theorem ClosesOnly.mono (h : t.ClosesOnly xs t') (hsub : xs ⊆ ys) : t.ClosesOnly ys t' :=
  ⟨fun x => (h.fds x).imp_right fun ⟨hx, hn⟩ => ⟨hsub hx, hn⟩, h.events⟩

theorem ClosesOnly.trans (h₁ : t.ClosesOnly xs t') (h₂ : t'.ClosesOnly ys t'') :
    t.ClosesOnly (xs ++ ys) t'' := by
  refine ⟨fun x => ?_, fun e => (h₂.events e).trans (h₁.events e)⟩
  rcases h₂.fds x with hx | ⟨hy, hn⟩
  · rcases h₁.fds x with hx' | ⟨hxs, hn⟩
    · exact .inl (hx.trans hx')
    · exact .inr ⟨List.mem_append_left _ hxs, hx.trans hn⟩
  · exact .inr ⟨List.mem_append_right _ hy, hn⟩

theorem ClosesOnly.lookup_of_not_mem {x : Int} (h : t.ClosesOnly xs t') (hx : x ∉ xs) :
    t'.fds.lookup x = t.fds.lookup x :=
  (h.fds x).resolve_right fun ⟨hx', _⟩ => hx hx'

theorem closesOnly_close {fd : Int} (h : t.close fd = some t') : t.ClosesOnly [fd] t' := by
  have hrel := released_close h
  refine ⟨fun x => ?_, fun e => by rw [hrel.events e]; rfl⟩
  by_cases hx : x = fd
  · subst hx
    exact .inr ⟨List.mem_singleton_self _, by rw [hrel.fds x]; simp⟩
  · exact .inl (by rw [hrel.fds x]; simp [hx])

end Tracing

namespace Kernel

variable {k k' k'' : Kernel} {xs ys : List Int} {es fs : List (List Char)}
  {ps qs : List (List Char)}

theorem Released.trans (h₁ : k.Released xs es ps k') (h₂ : k'.Released ys fs qs k'') :
    k.Released (xs ++ ys) (es ++ fs) (ps ++ qs) k'' :=
  ⟨h₁.tracing.trans h₂.tracing, ite_mem_none_trans h₁.pins h₂.pins⟩

/-- A step that changes only the fds and the kprobe events. -/
theorem released_tracing {t : Tracing} (h : k.tracing.Released xs es t) :
    k.Released xs es [] { k with tracing := t } :=
  ⟨h, fun _ => rfl⟩

theorem unlink_eq_some {p : List Char} (h : k.unlink p = some k') :
    p ∈ k.bpf.pins ∧ k' = { k with bpf := k.bpf.unlink p } := by
  unfold unlink at h
  split_ifs at h with hp
  exact ⟨hp, (Option.some.inj h).symm⟩

theorem released_unlink {p : List Char} (h : k.unlink p = some k') : k.Released [] [] [p] k' := by
  obtain ⟨-, rfl⟩ := unlink_eq_some h
  refine ⟨Tracing.Released.refl, fun x => ?_⟩
  by_cases hx : x = p
  · subst hx
    simp [BpfKernel.unlink]
  · simp [hx, BpfKernel.unlink, AList.lookup_erase_ne hx]

theorem Released.mem_pins {p : List Char} (h : k.Released xs es ps k') (hp : p ∉ ps)
    (hmem : p ∈ k.bpf.pins) : p ∈ k'.bpf.pins := by
  rw [← AList.lookup_isSome, h.pins p, if_neg hp, AList.lookup_isSome]
  exact hmem

end Kernel

/-! ## The loops over fds -/

/-- **The loop of `closeCgroupPrograms` and `closeSocketFilters` closes its fds** when they are
open and distinct. -/
theorem closeProgramFds_of_open (err : ProgramCloseError) :
    ∀ {fds : List Int} {t : Tracing}, fds.Nodup → (∀ fd ∈ fds, fd ∈ t.fds) →
      (closeProgramFds err fds t).1 = .ok () ∧ t.Released fds [] (closeProgramFds err fds t).2
  | [], _, _, _ => ⟨rfl, Tracing.Released.refl⟩
  | fd :: fds, t, hnd, hmem => by
    have hclose := Tracing.close_of_mem (hmem fd List.mem_cons_self)
    have hrel := Tracing.released_close hclose
    obtain ⟨hok, hrest⟩ := closeProgramFds_of_open err (List.nodup_cons.1 hnd).2
      (hrel.mem_of_nodup hnd fun x hx => hmem x (List.mem_cons_of_mem _ hx))
    simp only [closeProgramFds, hclose]
    exact ⟨hok, hrel.trans hrest⟩

/-- The loop closes at most its fds, whichever of them fails. -/
theorem closeProgramFds_closesOnly (err : ProgramCloseError) :
    ∀ (fds : List Int) (t : Tracing), t.ClosesOnly fds (closeProgramFds err fds t).2
  | [], _ => Tracing.ClosesOnly.refl
  | fd :: fds, t => by
    unfold closeProgramFds
    cases hclose : t.close fd with
    | none => exact Tracing.ClosesOnly.refl
    | some t' =>
      exact (Tracing.closesOnly_close hclose).trans (closeProgramFds_closesOnly err fds t')

theorem mem_efdFds {efd fd x : Int} : x ∈ efdFds efd fd ↔ efd ≠ -1 ∧ x = efd ∨ x = fd := by
  unfold efdFds
  split_ifs with h <;> simp [h]

/-- The first step of `closeTracepointPrograms`, on a program whose fds are open and distinct. -/
theorem closeTracepointPrograms_cons_of_open {p : TracepointProgram} {t : Tracing}
    (ps : List TracepointProgram) (hnd : (efdFds p.efd p.fd).Nodup)
    (hmem : ∀ fd ∈ efdFds p.efd p.fd, fd ∈ t.fds) :
    ∃ t₁, t.Released (efdFds p.efd p.fd) [] t₁ ∧
      closeTracepointPrograms (p :: ps) t =
        ({ p with efd := -1 } :: (closeTracepointPrograms ps t₁).1,
          (closeTracepointPrograms ps t₁).2) := by
  have hfd : p.fd ∈ t.fds := hmem p.fd (mem_efdFds.2 (.inr rfl))
  by_cases hefd : p.efd = -1
  · have hclose := Tracing.close_of_mem hfd
    have hp : { p with efd := -1 } = p := by
      cases p
      simp only at hefd
      rw [hefd]
    refine ⟨_, by simpa [efdFds, hefd] using Tracing.released_close hclose, ?_⟩
    simp [closeTracepointPrograms, hefd, hclose, hp]
  · have hclose₁ := Tracing.close_of_mem (hmem p.efd (mem_efdFds.2 (.inl ⟨hefd, rfl⟩)))
    have hrel := Tracing.released_close hclose₁
    have hne : p.fd ≠ p.efd := by
      intro h
      simp [efdFds, hefd, h] at hnd
    have hclose₂ := Tracing.close_of_mem ((hrel.mem_fds_iff (by simpa using hne)).2 hfd)
    refine ⟨_, by simpa [efdFds, hefd] using hrel.trans (Tracing.released_close hclose₂), ?_⟩
    simp [closeTracepointPrograms, hefd, hclose₁, hclose₂]

/-- **`closeTracepointPrograms` closes the programs' fds** when they are open and distinct, and
resets their perf event fds. -/
theorem closeTracepointPrograms_of_open :
    ∀ {ps : List TracepointProgram} {t : Tracing}, (ps.flatMap fun p => efdFds p.efd p.fd).Nodup →
      (∀ fd ∈ ps.flatMap (fun p => efdFds p.efd p.fd), fd ∈ t.fds) →
      (closeTracepointPrograms ps t).1 = ps.map (fun p => { p with efd := -1 }) ∧
      (closeTracepointPrograms ps t).2.1 = .ok () ∧
      t.Released (ps.flatMap fun p => efdFds p.efd p.fd) [] (closeTracepointPrograms ps t).2.2
  | [], _, _, _ => ⟨rfl, rfl, Tracing.Released.refl⟩
  | p :: ps, t, hnd, hmem => by
    rw [List.flatMap_cons] at hnd hmem ⊢
    obtain ⟨t₁, hrel₁, heq⟩ := closeTracepointPrograms_cons_of_open ps
      (hnd.sublist (List.sublist_append_left _ _)) fun fd hfd => hmem fd (List.mem_append_left _ hfd)
    obtain ⟨hps, hok, hrest⟩ := closeTracepointPrograms_of_open
      (hnd.sublist (List.sublist_append_right _ _))
      (hrel₁.mem_of_nodup hnd fun x hx => hmem x (List.mem_append_right _ hx))
    rw [heq]
    exact ⟨by rw [hps]; rfl, hok, hrel₁.trans hrest⟩

/-- **`closeProbes` releases attached probes**, in the terms of `Tracing.Released`. -/
theorem released_closeProbes {qs : List Kprobe} {t : Tracing} (h : AllAttached t qs) :
    (closeProbes qs t).1 = qs.map (fun q => { q with efd := -1 }) ∧
      (closeProbes qs t).2.1 = .ok () ∧
      t.Released (qs.flatMap fun q => efdFds q.efd q.fd) (qs.map fun q => kprobeEventName q.name)
        (closeProbes qs t).2.2 := by
  obtain ⟨hps, hr, hev, hfd⟩ := closeProbes_of_allAttached h
  refine ⟨hps, hr, fun x => ?_, hev⟩
  have hmem : x ∈ qs.flatMap (fun q => efdFds q.efd q.fd) ↔
      x ∈ qs.map Kprobe.efd ∨ x ∈ qs.map Kprobe.fd := by
    simp only [List.mem_flatMap, List.mem_map, mem_efdFds]
    constructor
    · rintro ⟨q, hq, ⟨-, rfl⟩ | rfl⟩
      · exact .inl ⟨q, hq, rfl⟩
      · exact .inr ⟨q, hq, rfl⟩
    · rintro (⟨q, hq, rfl⟩ | ⟨q, hq, rfl⟩)
      · obtain ⟨_, hat⟩ := h.attached q hq
        exact ⟨q, hq, .inl ⟨hat.efd_ne, rfl⟩⟩
      · exact ⟨q, hq, .inr rfl⟩
  rw [hfd x]
  by_cases hx : x ∈ qs.flatMap (fun q => efdFds q.efd q.fd)
  · rw [if_pos hx, if_pos (hmem.1 hx)]
  · rw [if_neg hx, if_neg (mt hmem.2 hx)]

/-- Closing fds of no probe leaves the probes attached. -/
theorem AllAttached.of_released {t t' : Tracing} {qs : List Kprobe} {xs : List Int}
    (h : AllAttached t qs) (hrel : t.Released xs [] t')
    (hdis : ∀ q ∈ qs, q.efd ∉ xs ∧ q.fd ∉ xs) : AllAttached t' qs := by
  obtain ⟨hatt, hev, hefd, hfd⟩ := h
  refine ⟨fun q hq => ?_, hev, hefd, hfd⟩
  obtain ⟨id, hq'⟩ := hatt q hq
  obtain ⟨he, hf⟩ := hdis q hq
  refine ⟨id, hq'.efd_ne, ?_, ?_, ?_, fun fd hfd' => hq'.only fd ?_⟩
  · rw [hrel.fds, if_neg he]
    exact hq'.perf
  · simpa [hrel.events] using hq'.event
  · rw [hrel.fds, if_neg hf]
    exact hq'.program
  · rw [hrel.fds] at hfd'
    split_ifs at hfd'
    exact hfd'

/-! ## `closeMaps` -/

section Maps

variable {options : List Char → Option CloseOptions}

/-- The paths `closeMaps` unlinks for the map `m`: none when its `CloseOptions` do not set
`Unpin`, and else the one `unpinMap` gives. -/
def UnpinsAt (options : List Char → Option CloseOptions) (m : Map) (pre : List (List Char)) :
    Prop :=
  ((options (mapsPrefix ++ m.name)).getD {}).unpin = false ∧ pre = [] ∨
    ∃ pinPath path, ((options (mapsPrefix ++ m.name)).getD {}).unpin = true ∧
      closePinPath options m = .ok pinPath ∧ unpinMap m pinPath = .ok path ∧ pre = [path]

/-- When `closeMaps` of `Pinning` succeeds, it has unlinked the paths of the first map, then
those of the others. -/
theorem closeMaps_cons_eq_ok {m : Map} {ms : List Map} {paths : List (List Char)}
    (h : closeMaps (fun _ => true) options (m :: ms) = (paths, .ok ())) :
    ∃ pre rest, paths = pre ++ rest ∧ closeMaps (fun _ => true) options ms = (rest, .ok ()) ∧
      UnpinsAt options m pre := by
  rw [closeMaps] at h
  by_cases hu : ((options (mapsPrefix ++ m.name)).getD {}).unpin = true
  · rw [if_pos hu] at h
    cases hpin : closePinPath options m with
    | error err => simp [hpin] at h
    | ok pinPath =>
      cases hpath : unpinMap m pinPath with
      | error err => simp [hpin, hpath] at h
      | ok path =>
        simp only [hpin, hpath, if_true, Prod.mk.injEq] at h
        exact ⟨[path], _, h.1.symm, Prod.ext rfl h.2, .inr ⟨pinPath, path, hu, hpin, hpath, rfl⟩⟩
  · rw [if_neg hu] at h
    exact ⟨[], paths, rfl, h, .inl ⟨by simpa using hu, rfl⟩⟩

/-- What the unpinning can do: leave the kernel as it is, or unlink one path. -/
theorem closeMapsUnpin_cases {m : LoadedMap} {k k' : Kernel}
    (h : closeMapsUnpin options m k = .ok k') : k' = k ∨ ∃ p, k.unlink p = some k' := by
  unfold closeMapsUnpin at h
  split_ifs at h
  · cases hpin : closePinPath options m.toMap with
    | error err => simp [hpin] at h
    | ok pinPath =>
      cases hpath : unpinMap m.toMap pinPath with
      | error err => simp [hpin, hpath] at h
      | ok path =>
        cases hk : k.unlink path with
        | none => simp [hpin, hpath, hk] at h
        | some k₁ =>
          simp only [hpin, hpath, hk, Except.ok.injEq] at h
          exact .inr ⟨path, h ▸ hk⟩
  · exact .inl (Except.ok.inj h).symm

theorem closeMapsUnpin_tracing {m : LoadedMap} {k k' : Kernel}
    (h : closeMapsUnpin options m k = .ok k') : k'.tracing = k.tracing := by
  rcases closeMapsUnpin_cases h with rfl | ⟨p, hp⟩
  · rfl
  · rw [(Kernel.unlink_eq_some hp).2]

theorem closeMapsUnpin_pins {m : LoadedMap} {k k' : Kernel}
    (h : closeMapsUnpin options m k = .ok k') {p : List Char} (hp : p ∈ k'.bpf.pins) :
    p ∈ k.bpf.pins := by
  rcases closeMapsUnpin_cases h with rfl | ⟨q, hq⟩
  · exact hp
  · obtain ⟨-, rfl⟩ := Kernel.unlink_eq_some hq
    exact (AList.mem_erase.1 hp).2

/-- The unpinning unlinks the paths `closeMaps` of `Pinning` lists for the map, when they are
pinned. -/
theorem closeMapsUnpin_of_unpinsAt {m : LoadedMap} {k : Kernel} {pre : List (List Char)}
    (hpre : UnpinsAt options m.toMap pre) (hpins : ∀ p ∈ pre, p ∈ k.bpf.pins) :
    ∃ k', closeMapsUnpin options m k = .ok k' ∧ k.Released [] [] pre k' := by
  rcases hpre with ⟨hu, rfl⟩ | ⟨pinPath, path, hu, hpin, hpath, rfl⟩
  · refine ⟨k, by simp [closeMapsUnpin, hu], Tracing.Released.refl, fun _ => by simp⟩
  · have hunlink : k.unlink path = some { k with bpf := k.bpf.unlink path } :=
      if_pos (hpins path (List.mem_singleton_self _))
    refine ⟨_, ?_, Kernel.released_unlink hunlink⟩
    simp [closeMapsUnpin, hu, hpin, hpath, hunlink]

theorem closeMapFds_of_open {m : LoadedMap} {t : Tracing} (hnd : m.fds.Nodup)
    (hmem : ∀ fd ∈ m.fds, fd ∈ t.fds) :
    (closeMapFds m t).1 = .ok () ∧ t.Released m.fds [] (closeMapFds m t).2 := by
  unfold LoadedMap.fds at hnd hmem ⊢
  obtain ⟨hok, hrel⟩ := closeProgramFds_of_open .perfEventFd
    (hnd.sublist (List.sublist_append_left _ _)) fun fd hfd => hmem fd (List.mem_append_left _ hfd)
  obtain ⟨t₁, heq⟩ : ∃ t₁, closeProgramFds .perfEventFd m.pmuFDs t = (.ok (), t₁) :=
    ⟨_, Prod.ext hok rfl⟩
  rw [heq] at hrel
  have hclose := Tracing.close_of_mem (hrel.mem_of_nodup hnd
    (fun fd hfd => hmem fd (List.mem_append_right _ hfd)) m.fd (List.mem_singleton_self _))
  simp only [closeMapFds, heq, hclose, true_and]
  exact hrel.trans (Tracing.released_close hclose)

theorem closeMapFds_closesOnly (m : LoadedMap) (t : Tracing) :
    t.ClosesOnly m.fds (closeMapFds m t).2 := by
  have hpmu := closeProgramFds_closesOnly .perfEventFd m.pmuFDs t
  unfold LoadedMap.fds
  cases hr : closeProgramFds .perfEventFd m.pmuFDs t with
  | mk r t₁ =>
    rw [hr] at hpmu
    cases r with
    | error err =>
      simp only [closeMapFds, hr]
      exact hpmu.mono (List.subset_append_left _ _)
    | ok u =>
      cases hclose : t₁.close m.fd with
      | none =>
        simp only [closeMapFds, hr, hclose]
        exact hpmu.mono (List.subset_append_left _ _)
      | some t₂ =>
        simp only [closeMapFds, hr, hclose]
        exact hpmu.trans (Tracing.closesOnly_close hclose)

/-- `closeMaps` closes at most the maps' fds and unlinks pins, however it ends. -/
theorem Module.closeMaps_closesOnly :
    ∀ (ms : List LoadedMap) (k : Kernel),
      k.tracing.ClosesOnly (ms.flatMap LoadedMap.fds) (Module.closeMaps options ms k).2.tracing ∧
        ∀ p ∈ (Module.closeMaps options ms k).2.bpf.pins, p ∈ k.bpf.pins
  | [], _ => ⟨Tracing.ClosesOnly.refl, fun _ hp => hp⟩
  | m :: ms, k => by
    rw [List.flatMap_cons]
    cases hu : closeMapsUnpin options m k with
    | error err =>
      simp only [Module.closeMaps, hu]
      exact ⟨Tracing.ClosesOnly.refl, fun _ hp => hp⟩
    | ok k₁ =>
      have hfds := closeMapFds_closesOnly m k₁.tracing
      cases hc : closeMapFds m k₁.tracing with
      | mk r t =>
        rw [hc, closeMapsUnpin_tracing hu] at hfds
        cases r with
        | error err =>
          simp only [Module.closeMaps, hu, hc]
          exact ⟨hfds.mono (List.subset_append_left _ _), fun p hp => closeMapsUnpin_pins hu hp⟩
        | ok u =>
          obtain ⟨ih₁, ih₂⟩ := Module.closeMaps_closesOnly ms { k₁ with tracing := t }
          simp only [Module.closeMaps, hu, hc]
          exact ⟨hfds.trans ih₁, fun p hp => closeMapsUnpin_pins hu (ih₂ p hp)⟩

/-- **`closeMaps` releases the maps**: when their fds are open and distinct and the paths that
`closeMaps` of `Pinning` lists are pinned, each once, it closes the fds and unlinks the paths. -/
theorem Module.closeMaps_of_open :
    ∀ {ms : List LoadedMap} {k : Kernel} {paths : List (List Char)},
      Elf.closeMaps (fun _ => true) options (ms.map LoadedMap.toMap) = (paths, .ok ()) →
      paths.Nodup → (∀ p ∈ paths, p ∈ k.bpf.pins) →
      (ms.flatMap LoadedMap.fds).Nodup → (∀ fd ∈ ms.flatMap LoadedMap.fds, fd ∈ k.tracing.fds) →
      (Module.closeMaps options ms k).1 = .ok () ∧
        k.Released (ms.flatMap LoadedMap.fds) [] paths (Module.closeMaps options ms k).2
  | [], k, paths, h, _, _, _, _ => by
    simp only [List.map_nil, Elf.closeMaps, Prod.mk.injEq] at h
    obtain ⟨rfl, -⟩ := h
    exact ⟨rfl, Tracing.Released.refl, fun _ => by simp [Module.closeMaps]⟩
  | m :: ms, k, paths, h, hpaths, hpins, hnd, hmem => by
    obtain ⟨pre, rest, rfl, hrest, hpre⟩ := closeMaps_cons_eq_ok h
    obtain ⟨k₁, hu, hrel₁⟩ := closeMapsUnpin_of_unpinsAt hpre
      fun p hp => hpins p (List.mem_append_left _ hp)
    have htr := closeMapsUnpin_tracing hu
    rw [List.flatMap_cons] at hnd hmem ⊢
    obtain ⟨hok, hrel₂⟩ := closeMapFds_of_open (hnd.sublist (List.sublist_append_left _ _))
      fun fd hfd => htr ▸ hmem fd (List.mem_append_left _ hfd)
    obtain ⟨t₂, heq⟩ : ∃ t₂, closeMapFds m k₁.tracing = (.ok (), t₂) := ⟨_, Prod.ext hok rfl⟩
    rw [heq] at hrel₂
    have hrel₁₂ := hrel₁.trans (Kernel.released_tracing hrel₂)
    simp only [List.nil_append, List.append_nil] at hrel₁₂
    obtain ⟨hok', hrel₃⟩ := Module.closeMaps_of_open hrest
      (hpaths.sublist (List.sublist_append_right _ _))
      (fun p hp => hrel₁₂.mem_pins (List.disjoint_of_nodup_append hpaths · hp |>.elim)
        (hpins p (List.mem_append_right _ hp)))
      (hnd.sublist (List.sublist_append_right _ _))
      (hrel₂.mem_of_nodup hnd fun fd hfd => htr ▸ hmem fd (List.mem_append_right _ hfd))
    simp only [Module.closeMaps, hu, heq]
    exact ⟨hok', by simpa using hrel₁₂.trans hrel₃⟩

/-- **A map to unpin whose pin is gone stops `closeMaps`**, at it or at a map before it. -/
theorem Module.closeMaps_error_of_missing {m : LoadedMap} {pinPath path : List Char}
    (hunpin : ((options (mapsPrefix ++ m.name)).getD {}).unpin = true)
    (hpin : closePinPath options m.toMap = .ok pinPath)
    (hpath : unpinMap m.toMap pinPath = .ok path) :
    ∀ {ms : List LoadedMap} {k : Kernel}, m ∈ ms → path ∉ k.bpf.pins →
      ∃ err, (Module.closeMaps options ms k).1 = .error err
  | m' :: ms, k, hm, hgone => by
    cases hu : closeMapsUnpin options m' k with
    | error err => exact ⟨err, by simp [Module.closeMaps, hu]⟩
    | ok k₁ =>
      rcases List.mem_cons.1 hm with rfl | hm
      · have hk : k.unlink path = none := if_neg hgone
        simp [closeMapsUnpin, hunpin, hpin, hpath, hk] at hu
      · cases hc : closeMapFds m' k₁.tracing with
        | mk r t =>
          cases r with
          | error err => exact ⟨err, by simp [Module.closeMaps, hu, hc]⟩
          | ok u =>
            obtain ⟨err, herr⟩ := Module.closeMaps_error_of_missing hunpin hpin hpath hm
              (show path ∉ ({ k₁ with tracing := t } : Kernel).bpf.pins from
                fun hp => hgone (closeMapsUnpin_pins hu hp))
            exact ⟨err, by simpa [Module.closeMaps, hu, hc] using herr⟩

end Maps

/-! ## The programs -/

/-- **The loops over the programs release them**: when their fds are open and distinct and the
probes are attached, they close the fds, remove the probes' events and reset the perf event fds. -/
theorem Module.closePrograms_of_open {b : Module} {t : Tracing} (hnd : b.programFds.Nodup)
    (hmem : ∀ fd ∈ b.programFds, fd ∈ t.fds) (hprobes : AllAttached t b.probes) :
    ∃ t', b.closePrograms t = (.ok (), b.closed, t') ∧
      t.Released b.programFds (b.probes.map fun q => kprobeEventName q.name) t' := by
  unfold Module.programFds at hnd hmem ⊢
  have hnd₃ := hnd.sublist (List.sublist_append_left _ _)
  have hnd₂ := hnd₃.sublist (List.sublist_append_left _ _)
  obtain ⟨hps, hok₁, hrel₁⟩ := released_closeProbes hprobes
  obtain ⟨t₁, e₁⟩ : ∃ t₁, closeProbes b.probes t =
      (b.probes.map fun q => { q with efd := -1 }, .ok (), t₁) :=
    ⟨_, Prod.ext hps (Prod.ext hok₁ rfl)⟩
  rw [e₁] at hrel₁
  obtain ⟨hok₂, hrel₂⟩ := closeProgramFds_of_open .cgroupFd
    (hnd₂.sublist (List.sublist_append_right _ _))
    (hrel₁.mem_of_nodup hnd₂ fun x hx => hmem x (by simp [hx]))
  obtain ⟨t₂, e₂⟩ : ∃ t₂, closeProgramFds .cgroupFd b.cgroupPrograms t₁ = (.ok (), t₂) :=
    ⟨_, Prod.ext hok₂ rfl⟩
  rw [e₂] at hrel₂
  have hrel₁₂ := hrel₁.trans hrel₂
  obtain ⟨htps, hok₃, hrel₃⟩ := closeTracepointPrograms_of_open
    (hnd₃.sublist (List.sublist_append_right _ _))
    (hrel₁₂.mem_of_nodup hnd₃ fun x hx => hmem x (by simp [hx]))
  obtain ⟨t₃, e₃⟩ : ∃ t₃, closeTracepointPrograms b.tracepointPrograms t₂ =
      (b.tracepointPrograms.map fun p => { p with efd := -1 }, .ok (), t₃) :=
    ⟨_, Prod.ext htps (Prod.ext hok₃ rfl)⟩
  rw [e₃] at hrel₃
  have hrel₁₂₃ := hrel₁₂.trans hrel₃
  obtain ⟨hok₄, hrel₄⟩ := closeProgramFds_of_open .socketFilterFd
    (hnd.sublist (List.sublist_append_right _ _))
    (hrel₁₂₃.mem_of_nodup hnd fun x hx => hmem x (by simp [hx]))
  obtain ⟨t₄, e₄⟩ : ∃ t₄, closeProgramFds .socketFilterFd b.socketFilters t₃ = (.ok (), t₄) :=
    ⟨_, Prod.ext hok₄ rfl⟩
  rw [e₄] at hrel₄
  refine ⟨t₄, ?_, by simpa using hrel₁₂₃.trans hrel₄⟩
  simp only [Module.closePrograms, closeCgroupPrograms, closeSocketFilters, e₁, e₂, e₃, e₄]
  rfl

/-! ## What `CloseExt` may change -/

/-- `t'` differs from `t` at most at the fds `xs` and the kprobe events `es`. -/
structure Tracing.Touches (xs : List Int) (es : List (List Char)) (t t' : Tracing) : Prop where
  fds : ∀ x ∉ xs, t'.fds.lookup x = t.fds.lookup x
  events : ∀ e ∉ es, t'.kprobeEvents.lookup e = t.kprobeEvents.lookup e

namespace Tracing

variable {t t' t'' : Tracing} {xs ys : List Int} {es fs : List (List Char)}

theorem Touches.refl : t.Touches xs es t :=
  ⟨fun _ _ => rfl, fun _ _ => rfl⟩

theorem Touches.mono (h : t.Touches xs es t') (hxs : xs ⊆ ys) (hes : es ⊆ fs) :
    t.Touches ys fs t' :=
  ⟨fun x hx => h.fds x fun hx' => hx (hxs hx'), fun e he => h.events e fun he' => he (hes he')⟩

theorem Touches.trans (h₁ : t.Touches xs es t') (h₂ : t'.Touches ys fs t'') :
    t.Touches (xs ++ ys) (es ++ fs) t'' := by
  refine ⟨fun x hx => ?_, fun e he => ?_⟩
  · rw [List.mem_append, not_or] at hx
    rw [h₂.fds x hx.2, h₁.fds x hx.1]
  · rw [List.mem_append, not_or] at he
    rw [h₂.events e he.2, h₁.events e he.1]

theorem ClosesOnly.touches (h : t.ClosesOnly xs t') : t.Touches xs es t' :=
  ⟨fun _ hx => h.lookup_of_not_mem hx, fun e _ => h.events e⟩

end Tracing

/-- `disableKprobe` changes at most the event it removes. -/
theorem disableKprobe_touches {e : List Char} {t t' : Tracing} (h : disableKprobe e t = .ok t') :
    t.Touches [] [e] t' := by
  cases hr : t.removeKprobe e with
  | ok t₁ =>
    simp only [disableKprobe, hr, Except.ok.injEq] at h
    subst h
    unfold Tracing.removeKprobe at hr
    split at hr
    · cases hr
    · split_ifs at hr
      cases hr
      exact ⟨fun _ _ => rfl, fun x hx => AList.lookup_erase_ne (by simpa using hx)⟩
  | error err =>
    cases err with
    | enoent =>
      simp only [disableKprobe, hr, Except.ok.injEq] at h
      subst h
      exact Tracing.Touches.refl
    | ebusy => simp [disableKprobe, hr] at h

/-- Once a probe's perf event is closed, `closeProbes` goes on as for the probe without one. -/
theorem closeProbes_cons_of_close {q : Kprobe} {qs : List Kprobe} {t t₁ : Tracing}
    (hefd : q.efd ≠ -1) (hc : t.close q.efd = some t₁) :
    closeProbes (q :: qs) t = closeProbes ({ q with efd := -1 } :: qs) t₁ := by
  simp [closeProbes, hefd, hc]

/-- The same for `closeTracepointPrograms`. -/
theorem closeTracepointPrograms_cons_of_close {p : TracepointProgram} {ps : List TracepointProgram}
    {t t₁ : Tracing} (hefd : p.efd ≠ -1) (hc : t.close p.efd = some t₁) :
    closeTracepointPrograms (p :: ps) t = closeTracepointPrograms ({ p with efd := -1 } :: ps) t₁ := by
  simp [closeTracepointPrograms, hefd, hc]

/-- A probe without a perf event: `closeProbes` closes its program's fd and removes its event,
then goes on with the others. -/
theorem closeProbes_cons_touches {q : Kprobe} (hefd : q.efd = -1) (qs : List Kprobe) (t : Tracing)
    (hrest : ∀ t : Tracing, t.Touches (qs.flatMap fun q => efdFds q.efd q.fd)
      (qs.map fun q => kprobeEventName q.name) (closeProbes qs t).2.2) :
    t.Touches (q.fd :: qs.flatMap fun q => efdFds q.efd q.fd)
      (kprobeEventName q.name :: qs.map fun q => kprobeEventName q.name)
      (closeProbes (q :: qs) t).2.2 := by
  cases hc : t.close q.fd with
  | none =>
    simp only [closeProbes, hefd, ne_eq, not_true_eq_false, if_false, hc]
    exact Tracing.Touches.refl
  | some t₂ =>
    have h₂ : t.Touches [q.fd] [] t₂ := (Tracing.closesOnly_close hc).touches
    cases hd : disableKprobe (disableName q.name) t₂ with
    | error err =>
      simp only [closeProbes, hefd, ne_eq, not_true_eq_false, if_false, hc, hd]
      exact h₂.mono (by simp) (by simp)
    | ok t₃ =>
      have h₃ := disableKprobe_touches hd
      rw [disableName_eq_eventName] at h₃
      simp only [closeProbes, hefd, ne_eq, not_true_eq_false, if_false, hc, hd]
      exact (h₂.trans (h₃.trans (hrest t₃))).mono (by simp) (by simp)

/-- **`closeProbes` changes only the probes' fds and events**, however it ends. -/
theorem closeProbes_touches :
    ∀ (qs : List Kprobe) (t : Tracing),
      t.Touches (qs.flatMap fun q => efdFds q.efd q.fd) (qs.map fun q => kprobeEventName q.name)
        (closeProbes qs t).2.2
  | [], _ => Tracing.Touches.refl
  | q :: qs, t => by
    have hrest := closeProbes_touches qs
    rw [List.flatMap_cons, List.map_cons]
    by_cases hefd : q.efd = -1
    · exact (closeProbes_cons_touches hefd qs t hrest).mono (by simp [efdFds, hefd])
        (List.Subset.refl _)
    · cases hc₁ : t.close q.efd with
      | none =>
        simp only [closeProbes, hefd, ne_eq, not_false_eq_true, if_true, hc₁]
        exact Tracing.Touches.refl
      | some t₁ =>
        have h₁ : t.Touches [q.efd] [] t₁ := (Tracing.closesOnly_close hc₁).touches
        rw [closeProbes_cons_of_close hefd hc₁]
        exact (h₁.trans (closeProbes_cons_touches (q := { q with efd := -1 }) rfl qs t₁ hrest)).mono
          (by simp [efdFds, hefd]) (by simp)

/-- A program without a perf event: `closeTracepointPrograms` closes its fd, then goes on with
the others. -/
theorem closeTracepointPrograms_cons_closesOnly {p : TracepointProgram} (hefd : p.efd = -1)
    (ps : List TracepointProgram) (t : Tracing)
    (hrest : ∀ t : Tracing, t.ClosesOnly (ps.flatMap fun p => efdFds p.efd p.fd)
      (closeTracepointPrograms ps t).2.2) :
    t.ClosesOnly (p.fd :: ps.flatMap fun p => efdFds p.efd p.fd)
      (closeTracepointPrograms (p :: ps) t).2.2 := by
  cases hc : t.close p.fd with
  | none =>
    simp only [closeTracepointPrograms, hefd, ne_eq, not_true_eq_false, if_false, hc]
    exact Tracing.ClosesOnly.refl
  | some t₂ =>
    simp only [closeTracepointPrograms, hefd, ne_eq, not_true_eq_false, if_false, hc]
    exact ((Tracing.closesOnly_close hc).trans (hrest t₂)).mono (by simp)

/-- **`closeTracepointPrograms` closes only the programs' fds**, however it ends. -/
theorem closeTracepointPrograms_closesOnly :
    ∀ (ps : List TracepointProgram) (t : Tracing),
      t.ClosesOnly (ps.flatMap fun p => efdFds p.efd p.fd) (closeTracepointPrograms ps t).2.2
  | [], _ => Tracing.ClosesOnly.refl
  | p :: ps, t => by
    have hrest := closeTracepointPrograms_closesOnly ps
    rw [List.flatMap_cons]
    by_cases hefd : p.efd = -1
    · exact (closeTracepointPrograms_cons_closesOnly hefd ps t hrest).mono (by simp [efdFds, hefd])
    · cases hc₁ : t.close p.efd with
      | none =>
        simp only [closeTracepointPrograms, hefd, ne_eq, not_false_eq_true, if_true, hc₁]
        exact Tracing.ClosesOnly.refl
      | some t₁ =>
        rw [closeTracepointPrograms_cons_of_close hefd hc₁]
        exact ((Tracing.closesOnly_close hc₁).trans (closeTracepointPrograms_cons_closesOnly
          (p := { p with efd := -1 }) rfl ps t₁ hrest)).mono (by simp [efdFds, hefd])

/-- The loops over the programs change only the programs' fds and the probes' events, however
they end. -/
theorem Module.closePrograms_touches (b : Module) (t : Tracing) :
    t.Touches b.programFds (b.probes.map fun q => kprobeEventName q.name) (b.closePrograms t).2.2 := by
  have h₁ := closeProbes_touches b.probes t
  unfold Module.programFds
  cases hp : closeProbes b.probes t with
  | mk qs rest =>
    obtain ⟨r₁, t₁⟩ := rest
    rw [hp] at h₁
    cases r₁ with
    | error err =>
      simp only [Module.closePrograms, hp]
      exact h₁.mono (by simp) (List.Subset.refl _)
    | ok u =>
      have h₂ : t₁.Touches b.cgroupPrograms [] _ :=
        (closeProgramFds_closesOnly .cgroupFd b.cgroupPrograms t₁).touches
      cases hc : closeCgroupPrograms b.cgroupPrograms t₁ with
      | mk r₂ t₂ =>
        rw [show closeProgramFds .cgroupFd b.cgroupPrograms t₁ = (r₂, t₂) from hc] at h₂
        cases r₂ with
        | error err =>
          simp only [Module.closePrograms, hp, hc]
          exact (h₁.trans h₂).mono
            (fun x hx => List.mem_append_left _ (List.mem_append_left _ hx)) (by simp)
        | ok u =>
          have h₃ : t₂.Touches (b.tracepointPrograms.flatMap fun p => efdFds p.efd p.fd) [] _ :=
            (closeTracepointPrograms_closesOnly b.tracepointPrograms t₂).touches
          cases ht : closeTracepointPrograms b.tracepointPrograms t₂ with
          | mk tps rest =>
            obtain ⟨r₃, t₃⟩ := rest
            rw [ht] at h₃
            cases r₃ with
            | error err =>
              simp only [Module.closePrograms, hp, hc, ht]
              exact ((h₁.trans h₂).trans h₃).mono (fun x hx => List.mem_append_left _ hx) (by simp)
            | ok u =>
              have h₄ : t₃.Touches b.socketFilters [] _ :=
                (closeProgramFds_closesOnly .socketFilterFd b.socketFilters t₃).touches
              simp only [Module.closePrograms, hp, hc, ht]
              exact (((h₁.trans h₂).trans h₃).trans h₄).mono (List.Subset.refl _) (by simp)

section Frame

variable {options : List Char → Option CloseOptions}

/-- The unpinning of a map unlinks at most the path that `closeMaps` of `Pinning` lists first for
it; the paths it lists for the maps after follow. -/
theorem closeMapsUnpin_pins_lookup {m : LoadedMap} {ms : List Map} {k k₁ : Kernel}
    (hu : closeMapsUnpin options m k = .ok k₁) {p : List Char}
    (hp : p ∉ (Elf.closeMaps (fun _ => true) options (m.toMap :: ms)).1) :
    k₁.bpf.pins.lookup p = k.bpf.pins.lookup p ∧
      p ∉ (Elf.closeMaps (fun _ => true) options ms).1 := by
  by_cases hunpin : ((options (mapsPrefix ++ m.name)).getD {}).unpin = true
  · rw [closeMapsUnpin, if_pos hunpin] at hu
    rw [Elf.closeMaps, if_pos hunpin] at hp
    cases hpin : closePinPath options m.toMap with
    | error err => simp [hpin] at hu
    | ok pinPath =>
      cases hpath : unpinMap m.toMap pinPath with
      | error err => simp [hpin, hpath] at hu
      | ok path =>
        cases hk : k.unlink path with
        | none => simp [hpin, hpath, hk] at hu
        | some k₂ =>
          simp only [hpin, hpath, hk, Except.ok.injEq] at hu
          subst hu
          simp only [hpin, hpath, if_true, List.mem_cons, not_or] at hp
          obtain ⟨-, rfl⟩ := Kernel.unlink_eq_some hk
          exact ⟨AList.lookup_erase_ne hp.1, hp.2⟩
  · rw [closeMapsUnpin, if_neg hunpin, Except.ok.injEq] at hu
    rw [Elf.closeMaps, if_neg hunpin] at hp
    subst hu
    exact ⟨rfl, hp⟩

/-- `closeMaps` unlinks no path but those `closeMaps` of `Pinning` lists, however it ends. -/
theorem Module.closeMaps_pins_lookup :
    ∀ (ms : List LoadedMap) (k : Kernel) {p : List Char},
      p ∉ (Elf.closeMaps (fun _ => true) options (ms.map LoadedMap.toMap)).1 →
      (Module.closeMaps options ms k).2.bpf.pins.lookup p = k.bpf.pins.lookup p
  | [], _, _, _ => rfl
  | m :: ms, k, p, hp => by
    cases hu : closeMapsUnpin options m k with
    | error err => simp only [Module.closeMaps, hu]
    | ok k₁ =>
      obtain ⟨h₁, hrest⟩ := closeMapsUnpin_pins_lookup hu hp
      cases hc : closeMapFds m k₁.tracing with
      | mk r t =>
        cases r with
        | error err =>
          simp only [Module.closeMaps, hu, hc]
          exact h₁
        | ok u =>
          simp only [Module.closeMaps, hu, hc]
          rw [Module.closeMaps_pins_lookup ms _ hrest]
          exact h₁

/-- `CloseExt` changes at most the fds it visits and the events of the probes, however it ends. -/
theorem Module.closeExt_touches (b : Module) (k : Kernel) :
    k.tracing.Touches b.closedFds (b.probes.map fun q => kprobeEventName q.name)
      (b.closeExt options k).2.2.tracing := by
  have h₁ : k.tracing.Touches b.mapFds [] (Module.closeMaps options b.maps k).2.tracing :=
    (@Module.closeMaps_closesOnly options b.maps k).1.touches
  cases hm : Module.closeMaps options b.maps k with
  | mk r k₁ =>
    rw [hm] at h₁
    cases r with
    | error err =>
      simp only [Module.closeExt, hm]
      exact h₁.mono (fun x hx => List.mem_append_left _ hx) (by simp)
    | ok u =>
      have h₂ := Module.closePrograms_touches b k₁.tracing
      cases hp : b.closePrograms k₁.tracing with
      | mk r₂ rest =>
        obtain ⟨b₂, t₂⟩ := rest
        rw [hp] at h₂
        cases r₂ <;> simp only [Module.closeExt, hm, hp] <;>
          exact (h₁.trans h₂).mono (List.Subset.refl _) (by simp)

/-- Only `closeMaps` changes the bpf filesystem: after `CloseExt` it is as `closeMaps` left it. -/
theorem Module.closeExt_bpf (b : Module) (k : Kernel) :
    (b.closeExt options k).2.2.bpf = (Module.closeMaps options b.maps k).2.bpf := by
  cases hm : Module.closeMaps options b.maps k with
  | mk r k₁ =>
    cases r with
    | error err => simp only [Module.closeExt, hm]
    | ok u =>
      cases hp : b.closePrograms k₁.tracing with
      | mk r₂ rest =>
        obtain ⟨b₂, t₂⟩ := rest
        cases r₂ <;> simp only [Module.closeExt, hm, hp]

/-- **`CloseExt` touches only what the module holds.** However it ends, with success or at any
error, it changes no fd but those of the maps and programs it visits, no kprobe event but those of
the module's probes, and no pin but those `closeMaps` of `Pinning` lists for the options. -/
theorem Module.closeExt_frame (b : Module) (k : Kernel) :
    k.tracing.Touches b.closedFds (b.probes.map fun q => kprobeEventName q.name)
        (b.closeExt options k).2.2.tracing ∧
      ∀ p ∉ (Elf.closeMaps (fun _ => true) options (b.maps.map LoadedMap.toMap)).1,
        (b.closeExt options k).2.2.bpf.pins.lookup p = k.bpf.pins.lookup p := by
  refine ⟨Module.closeExt_touches b k, fun p hp => ?_⟩
  rw [Module.closeExt_bpf]
  exact Module.closeMaps_pins_lookup b.maps k hp

end Frame

/-! ## A probe whose perf event could not be enabled -/

/-- **A failed ioctl in `EnableKprobe` makes closing the probe fail, and its event stays.**
`perfEventOpenTracepoint` opens the perf event and then fails on `PERF_EVENT_IOC_ENABLE` or
`PERF_EVENT_IOC_SET_BPF`. It returns `-1` and leaves the perf event open, and `EnableKprobe`
stores the `-1` in the probe. `closeProbes` then closes the program's fd only. The kernel refuses
to remove an event while a perf event on it is open, so `closeProbes` fails with `EBUSY` at this
probe, before any probe after it. The event stays defined and its perf event stays open. -/
theorem closeProbes_after_failed_ioctl {probeable : List Char → Bool} {perf : PerfCalls}
    {secName : List Char} {maxactive : Int} {probes : AList (fun _ : List Char => Kprobe)}
    {t : Tracing} {probe : Kprobe} (hp : probes.lookup secName = some probe)
    (hname : probe.name = secName) (hefd : probe.efd = -1) (hfresh : t.Fresh)
    (hprog : t.fds.lookup probe.fd = some .program) (habs : kprobeEventName secName ∉ t.kprobeEvents)
    (hprobeable : probeable (kprobeFuncName secName) = true)
    (hmax : t.maxactive = true ∨ maxactiveStr secName maxactive = [])
    (hopen : perf.openOk t.nextId = true)
    (hioctl : perf.enableOk t.nextFd = false ∨ perf.setBpfOk t.nextFd probe.fd = false)
    (qs : List Kprobe) :
    ∃ (err : EnableError) (t₂ : Tracing), enableKprobe probeable perf secName maxactive probes t =
        (probes.insert secName probe, .error err, t₂) ∧
      (closeProbes (probe :: qs) t₂).2.1 =
        .error (.clearProbe (['-', ':'] ++ kprobeEventName secName ++ ['\n'])) ∧
      (closeProbes (probe :: qs) t₂).2.2.kprobeEvents.lookup (kprobeEventName secName) =
        some t.nextId ∧
      (closeProbes (probe :: qs) t₂).2.2.fds.lookup (t.nextFd : Int) =
        some (FdKind.perfEvent t.nextId) := by
  obtain ⟨err, hperf⟩ := @perfEventOpenTracepoint_ioctl_error perf t.nextId probe.fd
    { t with kprobeEvents := t.kprobeEvents.insert (kprobeEventName secName) t.nextId,
             nextId := t.nextId + 1 } hopen hioctl
  have hprobe : { probe with efd := -1 } = probe := by
    cases probe
    cases hefd
    rfl
  have henable : enableKprobe probeable perf secName maxactive probes t =
      (probes.insert secName probe, .error err, t.attach (kprobeEventName secName)) := by
    simp only [enableKprobe, hp, writeKprobeEvent_eq_ok (kprobeName_eq hmax) habs hprobeable, hperf,
      hprobe]
    rfl
  have hfd : probe.fd ≠ t.nextFd := (hfresh.lt_of_lookup hprog).ne
  have hclose := Tracing.close_of_mem (Tracing.mem_fds_of_lookup
    (show (t.attach (kprobeEventName secName)).fds.lookup probe.fd = some .program by
      rw [Tracing.attach_fds_lookup, if_neg hfd]
      exact hprog))
  set t₃ : Tracing := { t.attach (kprobeEventName secName) with
    fds := (t.attach (kprobeEventName secName)).fds.erase probe.fd }
  have hperf₃ : t₃.fds.lookup (t.nextFd : Int) = some (FdKind.perfEvent t.nextId) := by
    simp [t₃, AList.lookup_erase_ne hfd.symm, Tracing.attach_fds_lookup]
  have hev₃ : t₃.kprobeEvents.lookup (kprobeEventName secName) = some t.nextId := by
    simp [t₃, Tracing.attach_events_lookup]
  have hbusy : t₃.removeKprobe (kprobeEventName secName) = .error .ebusy := by
    have hopen₃ : t₃.perfEventOpen t.nextId = true :=
      (Tracing.perfEventOpen_iff _ _).2 ⟨_, hperf₃⟩
    simp [Tracing.removeKprobe, hev₃, hopen₃]
  have hclose₂ : closeProbes (probe :: qs) (t.attach (kprobeEventName secName)) =
      (probe :: qs, .error (.clearProbe (['-', ':'] ++ kprobeEventName secName ++ ['\n'])), t₃) := by
    simp only [closeProbes, hefd, ne_eq, not_true_eq_false, if_false, hclose,
      disableName_eq_eventName, hname, disableKprobe]
    rw [hbusy]
  refine ⟨err, _, henable, ?_, ?_, ?_⟩ <;> rw [hclose₂]
  · exact hev₃
  · exact hperf₃

/-- A kprobe on `f`, loaded as fd `3`, whose `PERF_EVENT_IOC_ENABLE` fails. -/
theorem closeProbes_after_failed_ioctl_f :
    let probe : Kprobe := ⟨"kprobe/f".toList, 3, -1⟩
    let probes : AList (fun _ : List Char => Kprobe) := AList.singleton probe.name probe
    let t : Tracing := ⟨∅, 0, true, AList.singleton 3 .program, 4⟩
    let perf : PerfCalls := ⟨fun _ => true, fun _ => false, fun _ _ => true⟩
    probes.lookup probe.name = some probe ∧ t.Fresh ∧ kprobeEventName probe.name ∉ t.kprobeEvents ∧
      ∃ (err : EnableError) (t₂ : Tracing),
        enableKprobe (fun _ => true) perf probe.name 0 probes t =
          (probes.insert probe.name probe, .error err, t₂) ∧
        (closeProbes [probe] t₂).2.1 =
          .error (.clearProbe (['-', ':'] ++ kprobeEventName probe.name ++ ['\n'])) ∧
        (closeProbes [probe] t₂).2.2.kprobeEvents.lookup (kprobeEventName probe.name) =
          some t.nextId ∧
        (closeProbes [probe] t₂).2.2.fds.lookup (t.nextFd : Int) =
          some (FdKind.perfEvent t.nextId) := by
  intro probe probes t perf
  have hp : probes.lookup probe.name = some probe := by
    show (AList.singleton probe.name probe : AList (fun _ : List Char => Kprobe)).lookup
      probe.name = some probe
    rw [← AList.insert_empty]
    exact AList.lookup_insert _
  have hfresh : t.Fresh := Tracing.fresh_singleton_program _ (by decide)
  have habs : kprobeEventName probe.name ∉ t.kprobeEvents := by simp [t]
  exact ⟨hp, hfresh, habs,
    closeProbes_after_failed_ioctl hp rfl rfl hfresh rfl habs rfl (.inl rfl) rfl (.inl rfl) []⟩

/-! ## `CloseExt` -/

section Close

variable {options : List Char → Option CloseOptions}

/-- `CloseExt` succeeds on a module whose fds it visits are open and distinct, with its probes
attached and the pins to remove in place: it closes those fds, removes the probes' events, unlinks
the pins and resets the perf event fds the module keeps, and changes nothing else. -/
theorem Module.closeExt_of_holds {b : Module} {k : Kernel} {paths : List (List Char)}
    (hclosed : b.closedFds.Nodup) (hmem : ∀ fd ∈ b.closedFds, fd ∈ k.tracing.fds)
    (hprobes : AllAttached k.tracing b.probes)
    (hunpin : Elf.closeMaps (fun _ => true) options (b.maps.map LoadedMap.toMap) = (paths, .ok ()))
    (hpaths : paths.Nodup) (hpins : ∀ p ∈ paths, p ∈ k.bpf.pins) :
    ∃ k', b.closeExt options k = (.ok (), b.closed, k') ∧
      k.Released b.closedFds (b.probes.map fun q => kprobeEventName q.name) paths k' := by
  obtain ⟨hok₁, hrel₁⟩ := Module.closeMaps_of_open hunpin hpaths hpins
    (hclosed.sublist (List.sublist_append_left _ _))
    fun fd hfd => hmem fd (List.mem_append_left _ hfd)
  set k₁ := (Module.closeMaps options b.maps k).2
  have hdis : ∀ q ∈ b.probes, q.efd ∉ b.mapFds ∧ q.fd ∉ b.mapFds := by
    intro q hq
    obtain ⟨_, hat⟩ := hprobes.attached q hq
    have hin : ∀ x, q.efd ≠ -1 ∧ x = q.efd ∨ x = q.fd → x ∈ b.programFds := fun x hx =>
      List.mem_append_left _ (List.mem_append_left _ (List.mem_append_left _
        (List.mem_flatMap.2 ⟨q, hq, mem_efdFds.2 hx⟩)))
    exact ⟨fun hm => List.disjoint_of_nodup_append hclosed hm (hin _ (.inl ⟨hat.efd_ne, rfl⟩)),
      fun hm => List.disjoint_of_nodup_append hclosed hm (hin _ (.inr rfl))⟩
  obtain ⟨t', heq, hrel₂⟩ := Module.closePrograms_of_open
    (hclosed.sublist (List.sublist_append_right _ _))
    (hrel₁.tracing.mem_of_nodup hclosed fun fd hfd => hmem fd (List.mem_append_right _ hfd))
    (hprobes.of_released hrel₁.tracing hdis)
  refine ⟨{ k₁ with tracing := t' }, ?_, ?_⟩
  · have e₁ : Module.closeMaps options b.maps k = (.ok (), k₁) := Prod.ext hok₁ rfl
    simp only [Module.closeExt, e₁, heq]
  · have hrel := hrel₁.trans (Kernel.released_tracing hrel₂)
    simp only [List.nil_append, List.append_nil] at hrel
    exact hrel

/-- **`CloseExt` releases a module, but for its sched programs.** Take a module that holds its fds,
each open and none twice, with its probes attached, and a kernel where the paths `closeMaps` of
`Pinning` lists are pinned, each once. `CloseExt` succeeds. It closes the fds of the maps and of
the programs it visits, removes the probes' events, unlinks those paths, and resets the perf event
fds the module keeps. It changes no other fd, event or pin. Of the fds the module holds, those
still open are exactly the sched programs'. -/
theorem closeExt_releases {b : Module} {k : Kernel} {paths : List (List Char)}
    (h : b.Holds k.tracing)
    (hunpin : closeMaps (fun _ => true) options (b.maps.map LoadedMap.toMap) = (paths, .ok ()))
    (hpaths : paths.Nodup) (hpins : ∀ p ∈ paths, p ∈ k.bpf.pins) :
    ∃ k', b.closeExt options k = (.ok (), b.closed, k') ∧
      k.Released b.closedFds (b.probes.map fun q => kprobeEventName q.name) paths k' ∧
      ∀ fd ∈ b.fds, fd ∈ k'.tracing.fds ↔ fd ∈ b.schedPrograms := by
  obtain ⟨k', heq, hrel⟩ := Module.closeExt_of_holds
    (h.nodup.sublist (List.sublist_append_left _ _))
    (fun fd hfd => h.mem fd (List.mem_append_left _ hfd)) h.probes hunpin hpaths hpins
  exact ⟨k', heq, hrel, hrel.tracing.mem_fds_iff_mem h.nodup h.mem⟩

/-- A perf map `m` pinned under the namespace `n`, with one ring. -/
def pinnedMap : LoadedMap :=
  { name := ['m'], mapDef := ⟨pinGlobalNs, ['n']⟩, path := [], fd := 3, pmuFDs := [4] }

/-- A module with the map `pinnedMap`, a cgroup program, an enabled tracepoint program and a sched
program. -/
def pinnedModule : Module where
  maps := [pinnedMap]
  probes := []
  cgroupPrograms := [5]
  socketFilters := []
  tracepointPrograms := [⟨"tracepoint/sched/sched_switch".toList, 6, 7⟩]
  schedPrograms := [8]

/-- The path at which `pinnedModule`'s map is pinned. -/
def pinnedPath : List Char := join [bpffsPath, ['n'], bpfDirGlobals, ['m']]

/-- `CloseOptions` that unpin the map `m`. -/
def unpinOptions (s : List Char) : Option CloseOptions :=
  if s = mapsPrefix ++ ['m'] then some { unpin := true } else none

/-- The fds `3` to `8` open, and the map pinned. -/
def pinnedKernel (pins : AList (fun _ : List Char => Nat)) : Kernel where
  tracing := ⟨∅, 0, true, [3, 4, 5, 6, 7, 8].foldl (fun s fd => s.insert fd .other) ∅, 9⟩
  bpf := ⟨[], pins⟩

/-- A module of every kind `CloseExt` visits: the map `pinnedMap`, a kprobe on `sys_open` loaded
as fd `5` and attached by the perf event `6`, a cgroup program, a socket filter, an enabled
tracepoint program and a sched program. -/
def fullModule : Module where
  maps := [pinnedMap]
  probes := [⟨"kprobe/sys_open".toList, 5, 6⟩]
  cgroupPrograms := [7]
  socketFilters := [8]
  tracepointPrograms := [⟨"tracepoint/sched/sched_switch".toList, 9, 10⟩]
  schedPrograms := [11]

/-- The fds `3` to `11` of `fullModule` open, the kprobe's event defined with id `0`, and the map
pinned. -/
def fullKernel : Kernel where
  tracing := ⟨AList.singleton "psys_open".toList 0, 1, true,
    [(3, FdKind.other), (4, .other), (5, .program), (6, .perfEvent 0), (7, .other), (8, .other),
      (9, .program), (10, .other), (11, .other)].foldl (fun s p => s.insert p.1 p.2) ∅, 12⟩
  bpf := ⟨[], AList.singleton pinnedPath 0⟩

theorem closeExt_releases_full :
    fullModule.Holds fullKernel.tracing ∧
      closeMaps (fun _ => true) unpinOptions (fullModule.maps.map LoadedMap.toMap) =
        ([pinnedPath], .ok ()) ∧
      [pinnedPath].Nodup ∧ (∀ p ∈ [pinnedPath], p ∈ fullKernel.bpf.pins) ∧
      ∃ k', fullModule.closeExt unpinOptions fullKernel = (.ok (), fullModule.closed, k') ∧
        fullKernel.Released fullModule.closedFds
          (fullModule.probes.map fun q => kprobeEventName q.name) [pinnedPath] k' ∧
        ∀ fd ∈ fullModule.fds, fd ∈ k'.tracing.fds ↔ fd ∈ fullModule.schedPrograms := by
  have hkeys : fullKernel.tracing.fds.keys = [11, 10, 9, 8, 7, 6, 5, 4, 3] := by decide
  have hprobe : Attached fullKernel.tracing ⟨"kprobe/sys_open".toList, 5, 6⟩ 0 := by
    refine ⟨by decide, by decide, by decide, by decide, fun fd hfd => ?_⟩
    have hm := Tracing.mem_fds_of_lookup hfd
    rw [AList.mem_keys, hkeys] at hm
    simp only [List.mem_cons, List.not_mem_nil, or_false] at hm
    rcases hm with rfl | rfl | rfl | rfl | rfl | rfl | rfl | rfl | rfl <;> revert hfd <;> decide
  have h : fullModule.Holds fullKernel.tracing := by
    refine ⟨by decide, by decide, ⟨fun q hq => ?_, by decide, by decide, by decide⟩⟩
    rw [List.mem_singleton.1 hq]
    exact ⟨0, hprobe⟩
  have hunpin : closeMaps (fun _ => true) unpinOptions (fullModule.maps.map LoadedMap.toMap) =
      ([pinnedPath], .ok ()) := rfl
  have hpins : ∀ p ∈ [pinnedPath], p ∈ fullKernel.bpf.pins := by
    simp [fullKernel, AList.mem_keys]
  exact ⟨h, hunpin, List.nodup_singleton _, hpins,
    closeExt_releases h hunpin (List.nodup_singleton _) hpins⟩

/-- **A missing pin makes `CloseExt` fail before it releases any program.** When the options ask
to unpin a map of the module whose pin is no longer in the bpf filesystem, `CloseExt` fails in
`closeMaps`. It has closed at most fds of the maps: every other fd, among them those of the
programs and probes, and every kprobe event are as they were. -/
theorem closeExt_unpin_missing {b : Module} {k : Kernel} {m : LoadedMap} {pinPath path : List Char}
    (hm : m ∈ b.maps) (hunpin : ((options (mapsPrefix ++ m.name)).getD {}).unpin = true)
    (hpin : closePinPath options m.toMap = .ok pinPath)
    (hpath : unpinMap m.toMap pinPath = .ok path) (hgone : path ∉ k.bpf.pins) :
    ∃ err, (b.closeExt options k).1 = .error (.maps err) ∧
      k.tracing.ClosesOnly b.mapFds (b.closeExt options k).2.2.tracing := by
  obtain ⟨err, herr⟩ := Module.closeMaps_error_of_missing hunpin hpin hpath hm hgone
  have hframe := (@Module.closeMaps_closesOnly options b.maps k).1
  obtain ⟨k', e⟩ : ∃ k', Module.closeMaps options b.maps k = (.error err, k') :=
    ⟨_, Prod.ext herr rfl⟩
  rw [e] at hframe
  simp only [Module.closeExt, e]
  exact ⟨err, rfl, hframe⟩

/-- Closing `pinnedModule` with its map to unpin when nothing is pinned. -/
theorem closeExt_unpin_missing_unpinned :
    pinnedMap ∈ pinnedModule.maps ∧ ((unpinOptions (mapsPrefix ++ pinnedMap.name)).getD {}).unpin ∧
      closePinPath unpinOptions pinnedMap.toMap = .ok [] ∧
      unpinMap pinnedMap.toMap [] = .ok pinnedPath ∧ pinnedPath ∉ (pinnedKernel ∅).bpf.pins ∧
      ∃ err, (pinnedModule.closeExt unpinOptions (pinnedKernel ∅)).1 = .error (.maps err) ∧
        (pinnedKernel ∅).tracing.ClosesOnly pinnedModule.mapFds
          (pinnedModule.closeExt unpinOptions (pinnedKernel ∅)).2.2.tracing := by
  have hm : pinnedMap ∈ pinnedModule.maps := List.mem_singleton_self _
  have hgone : pinnedPath ∉ (pinnedKernel ∅).bpf.pins := by simp [pinnedKernel]
  exact ⟨hm, rfl, rfl, rfl, hgone, closeExt_unpin_missing hm rfl rfl rfl hgone⟩

end Close

end Gobpf.Elf
