import Gobpf.Elf.Close

/-!
# A module's kprobes, from `EnableKprobes` to `CloseExt`

`Load` leaves each kprobe of a module loaded but not attached: its program fd is open, its `efd` is
`-1` and its event is not defined. `EnableKprobes` then defines an event for each and opens a perf
event on it, and `CloseExt` closes the module.

Enabling adds and changes nothing else: the kernel before `EnableKprobes` is the kernel after it
with the perf events it opened closed and the events it defined removed (`Enabling.released`).
After it the module holds its fds as `CloseExt` needs them, the perf events included
(`Module.Loaded.holds`). So `EnableKprobes` followed by `CloseExt` is, on the kernel,
closing the module as `Load` left it: every fd `CloseExt` visits is closed, every pin it is asked
to remove is unlinked, and every event and perf event that `EnableKprobes` created is gone
(`closeExt_enableKprobes`). The module's map of kprobes is visited in any order, by each loop. This
holds for a module that holds each fd once, which is one with at most one tracepoint program never
enabled, since `Load` gives each the `efd` `0`.
-/

namespace Gobpf.Elf

open Gobpf.Go

/-- A module as `Load` leaves it on the kernel `t`, holding each of its fds once: the fds open and
distinct, with the kernel's counters ahead of them, and its kprobes registered in `probes`, whose
values its list visits once each, none of them attached. `Load` gives every tracepoint program the
`efd` `0`, which counts among the fds, so such a module has at most one tracepoint program that was
never enabled; with two, `CloseExt` fails (`closeExt_unenabled_tracepoints`). -/
structure Module.Loaded (b : Module) (probes : AList (fun _ : List Char => Kprobe)) (t : Tracing) :
    Prop where
  nodup : b.fds.Nodup
  mem : ∀ fd ∈ b.fds, fd ∈ t.fds
  fresh : t.Fresh
  registered : Registered probes
  perm : b.probes.Perm (probes.entries.map Sigma.snd)
  unattached : ∀ n p, probes.lookup n = some p → p.efd = -1 ∧ t.fds.lookup p.fd = some .program ∧
    kprobeEventName n ∉ t.kprobeEvents

/-! ## What `EnableKprobes` leaves -/

section Enabling

variable {t₀ t : Tracing} {probes₀ probes : AList (fun _ : List Char => Kprobe)}
  {pending qs : List Kprobe}

/-- **`EnableKprobes` only adds.** Once every kprobe is attached, the kernel the loop started on is
the kernel after it with the perf events closed and the events removed: no fd or event that was
there has changed. -/
theorem Enabling.released (h : Enabling t₀ probes₀ t probes [])
    (hqs : qs.Perm (probes.entries.map Sigma.snd)) (hfresh₀ : t₀.Fresh)
    (habs : ∀ n ∈ probes₀, kprobeEventName n ∉ t₀.kprobeEvents) :
    t.Released (qs.map Kprobe.efd) (qs.map fun q => kprobeEventName q.name) t₀ := by
  refine ⟨fun fd => ?_, fun e => ?_⟩
  · by_cases hlt : fd < t₀.nextFd
    · have hefd : fd ∉ qs.map Kprobe.efd := fun hm => by
        obtain ⟨q, hq, rfl⟩ := List.mem_map.1 hm
        have := h.efd_ge hqs hq
        omega
      rw [if_neg hefd, h.fds_frame fd hlt]
    · have hnone : t₀.fds.lookup fd = none :=
        AList.lookup_eq_none.2 fun hm => hlt (hfresh₀.fds_lt fd hm)
      rw [hnone]
      split_ifs with hefd
      · rfl
      · by_contra hsome
        obtain ⟨n, q, hq, -, rfl⟩ := h.fds_new fd (by omega) (Ne.symm hsome)
        exact hefd (List.mem_map.2 ⟨q, hqs.mem_iff.2 (mem_values_iff.2 ⟨n, hq⟩), rfl⟩)
  · split_ifs with he
    · obtain ⟨q, hq, rfl⟩ := List.mem_map.1 he
      obtain ⟨p, -, hp, -⟩ := h.mem_probes hqs hq
      exact AList.lookup_eq_none.2 (habs _ (mem_of_lookup hp))
    · refine (h.events_frame e fun n hn _ hen => he ?_).symm
      obtain ⟨q, hq⟩ := Option.isSome_iff_exists.1 (AList.lookup_isSome.2 hn)
      refine List.mem_map.2 ⟨q, hqs.mem_iff.2 (mem_values_iff.2 ⟨n, hq⟩), ?_⟩
      rw [h.registered.name_eq n q hq, hen]

end Enabling

/-! ## The module's fds after `EnableKprobes` -/

/-- The fds of probes that are not attached: their programs'. -/
theorem flatMap_efdFds_unattached {qs : List Kprobe} (h : ∀ q ∈ qs, q.efd = -1) :
    (qs.flatMap fun q => efdFds q.efd q.fd) = qs.map Kprobe.fd := by
  induction qs with
  | nil => rfl
  | cons q qs ih =>
    rw [List.flatMap_cons, efdFds, if_pos (h q List.mem_cons_self), List.map_cons,
      ih fun r hr => h r (List.mem_cons_of_mem _ hr)]
    rfl

/-- Replacing the probes of a module replaces their fds among those `CloseExt` visits. -/
theorem Module.closedFds_perm {b : Module} {qs : List Kprobe} {xs : List Int}
    (h : (qs.flatMap fun q => efdFds q.efd q.fd).Perm
      (xs ++ b.probes.flatMap fun q => efdFds q.efd q.fd)) :
    ({ b with probes := qs } : Module).closedFds.Perm (xs ++ b.closedFds) := by
  refine List.perm_iff_count.2 fun a => ?_
  simp only [Module.closedFds, Module.programFds, Module.mapFds, List.count_append,
    h.count_eq]
  omega

section Loaded

variable {b : Module} {probes probes' : AList (fun _ : List Char => Kprobe)} {t t' : Tracing}
  {qs : List Kprobe}

/-- Before `EnableKprobes`, with the kprobes visited in any order. -/
theorem Module.Loaded.enabling (hb : b.Loaded probes t) {ks : List Kprobe}
    (hks : ks.Perm (probes.entries.map Sigma.snd)) : Enabling t probes t probes ks :=
  Enabling.init hb.registered hb.fresh hb.unattached hks

/-- Once `EnableKprobes` has attached every kprobe, the module's fds that `CloseExt` visits are
those it held, and the perf events. -/
theorem Module.Loaded.closedFds_perm (hb : b.Loaded probes t) (hen : Enabling t probes t' probes' [])
    (hqs : qs.Perm (probes'.entries.map Sigma.snd)) :
    ({ b with probes := qs } : Module).closedFds.Perm (qs.map Kprobe.efd ++ b.closedFds) := by
  have hatt := hen.allAttached hqs
  have hbfd : (b.probes.map Kprobe.fd).Perm (probes.entries.map fun s => s.2.fd) := by
    have := hb.perm.map Kprobe.fd
    rwa [List.map_map] at this
  have hfds : (qs.map Kprobe.fd).Perm (b.probes.map Kprobe.fd) := by
    refine (List.perm_ext_iff_of_nodup hatt.fds_nodup
      (hbfd.nodup_iff.2 ?_)).2 fun fd => (hen.mem_fds_iff hqs fd).trans hbfd.mem_iff.symm
    have := nodup_map_values Kprobe.fd hb.registered.fd_inj
    rwa [List.map_map] at this
  have hunatt : ∀ q ∈ b.probes, q.efd = -1 := fun q hq => by
    obtain ⟨n, hn⟩ := mem_values_iff.1 (hb.perm.mem_iff.1 hq)
    exact (hb.unattached n q hn).1
  refine Module.closedFds_perm ?_
  rw [flatMap_efdFds_unattached hunatt]
  exact (flatMap_efdFds_perm Kprobe.efd Kprobe.fd fun q hq =>
    ((hatt.attached q hq).choose_spec).efd_ne).trans
    (hfds.append_left _)

/-- **After `EnableKprobes`, the module holds its fds**, the perf events included, as `CloseExt`
needs them. -/
theorem Module.Loaded.holds (hb : b.Loaded probes t) (hen : Enabling t probes t' probes' [])
    (hqs : qs.Perm (probes'.entries.map Sigma.snd)) : ({ b with probes := qs } : Module).Holds t' := by
  have hatt := hen.allAttached hqs
  have hperm : ({ b with probes := qs } : Module).fds.Perm (qs.map Kprobe.efd ++ b.fds) := by
    have := (hb.closedFds_perm hen hqs).append_right b.schedPrograms
    rwa [List.append_assoc] at this
  have hlt : ∀ fd ∈ b.fds, fd < t.nextFd := fun fd hfd => hb.fresh.fds_lt fd (hb.mem fd hfd)
  refine ⟨hperm.nodup_iff.2 (List.nodup_append.2 ⟨hatt.efds_nodup, hb.nodup, ?_⟩),
    fun fd hfd => ?_, hatt⟩
  · intro x hx y hy hxy
    obtain ⟨q, hq, rfl⟩ := List.mem_map.1 hx
    have := hen.efd_ge hqs hq
    have := hlt y hy
    omega
  · rcases List.mem_append.1 (hperm.mem_iff.1 hfd) with hfd | hfd
    · obtain ⟨q, hq, rfl⟩ := List.mem_map.1 hfd
      obtain ⟨_, hat⟩ := hatt.attached q hq
      exact Tracing.mem_fds_of_lookup hat.perf
    · rw [← AList.lookup_isSome, hen.fds_frame fd (hlt fd hfd), AList.lookup_isSome]
      exact hb.mem fd hfd

end Loaded

/-! ## `EnableKprobes`, then `CloseExt` -/

/-- **Enabling a module's kprobes and closing the module leaves nothing behind.** Take a module as
`Load` leaves it, holding each fd once, whose kprobes can all be probed, on a kernel that reads a kretprobe's
`maxactive` or with no `maxactive`, with the perf event calls succeeding and the pins to remove in
place. `EnableKprobes` succeeds, visiting the kprobes in any order; `CloseExt` then succeeds,
visiting them in any order. The kernel after both is the kernel before `EnableKprobes` with the
fds `CloseExt` visits closed and the pins unlinked: every event and perf event `EnableKprobes`
created is gone, and nothing else has changed. -/
theorem closeExt_enableKprobes {probeable : List Char → Bool} {perf : PerfCalls}
    {maxactive : Int} {options : List Char → Option CloseOptions} {b : Module}
    {probes : AList (fun _ : List Char => Kprobe)} {k : Kernel} {ks qs : List Kprobe}
    {paths : List (List Char)} (hb : b.Loaded probes k.tracing)
    (hprobeable : ∀ n ∈ probes, probeable (kprobeFuncName n) = true)
    (hmax : k.tracing.maxactive = true ∨ maxactive ≤ 0) (hperf : perf.Succeed)
    (hks : ks.Perm (probes.entries.map Sigma.snd))
    (hqs : qs.Perm
      ((enableKprobes probeable perf maxactive ks probes k.tracing).1.entries.map Sigma.snd))
    (hunpin : closeMaps (fun _ => true) options (b.maps.map LoadedMap.toMap) = (paths, .ok ()))
    (hpaths : paths.Nodup) (hpins : ∀ p ∈ paths, p ∈ k.bpf.pins) :
    (enableKprobes probeable perf maxactive ks probes k.tracing).2.1 = .ok () ∧
      ∃ k', ({ b with probes := qs } : Module).closeExt options
          { k with tracing := (enableKprobes probeable perf maxactive ks probes k.tracing).2.2 } =
          (.ok (), ({ b with probes := qs } : Module).closed, k') ∧
        k.Released b.closedFds [] paths k' := by
  have hinit := hb.enabling hks
  have hpr : ∀ q ∈ ks, probeable (kprobeFuncName q.name) = true := fun q hq => by
    obtain ⟨p, hp, -⟩ := hinit.waiting q hq
    exact hprobeable _ (mem_of_lookup hp)
  obtain ⟨probes', t', hrun, hen⟩ := enableKprobes_of_enabling hperf hinit hpr hmax
  rw [hrun] at hqs ⊢
  have hholds := hb.holds hen hqs
  obtain ⟨k', hclose, hrel⟩ := Module.closeExt_of_holds
    (k := { k with tracing := t' }) (hholds.nodup.sublist (List.sublist_append_left _ _))
    (fun fd hfd => hholds.mem fd (List.mem_append_left _ hfd)) hholds.probes hunpin hpaths hpins
  have hback := hen.released hqs hb.fresh fun n hn => (hb.unattached n _
    (Option.get_mem (AList.lookup_isSome.2 hn))).2.2
  have hperm := hb.closedFds_perm hen hqs
  have hfrom : k.tracing.Released ({ b with probes := qs } : Module).closedFds
      (qs.map fun q => kprobeEventName q.name) k'.tracing :=
    hback.cancel hrel.tracing (fun x hx => hperm.mem_iff.2 (List.mem_append_left _ hx))
      (List.Subset.refl _)
  refine ⟨rfl, k', hclose, hfrom.of_absent (fun x hx => hperm.mem_iff.2 (List.mem_append_right _ hx))
    (List.nil_subset _) (fun x hx hnot => ?_) (fun e he _ => hback.events e ▸ if_pos he), hrel.pins⟩
  rcases List.mem_append.1 (hperm.mem_iff.1 hx) with hx | hx
  · rw [hback.fds x, if_pos hx]
  · exact absurd hx hnot

/-- The kprobe `kprobe/f`, loaded as fd `3`. -/
def loadedKprobe : Kprobe := ⟨"kprobe/f".toList, 3, -1⟩

/-- A module whose only program is `loadedKprobe`. -/
def kprobeModule : Module where
  maps := []
  probes := [loadedKprobe]
  cgroupPrograms := []
  socketFilters := []
  tracepointPrograms := []
  schedPrograms := []

/-- A kernel with no kprobe event, on which the process has the fd `3` open. -/
def kprobeKernel : Kernel where
  tracing := ⟨∅, 0, true, AList.singleton 3 .program, 4⟩
  bpf := ⟨[], ∅⟩

/-- Perf event calls that all succeed. -/
def perfOk : PerfCalls := ⟨fun _ => true, fun _ => true, fun _ _ => true⟩

theorem closeExt_enableKprobes_one :
    kprobeModule.Loaded (AList.singleton loadedKprobe.name loadedKprobe) kprobeKernel.tracing ∧
      perfOk.Succeed ∧
      [{ loadedKprobe with efd := 4 }].Perm ((enableKprobes (fun _ => true) perfOk 0 [loadedKprobe]
        (AList.singleton loadedKprobe.name loadedKprobe) kprobeKernel.tracing).1.entries.map
          Sigma.snd) ∧
      ((enableKprobes (fun _ => true) perfOk 0 [loadedKprobe]
          (AList.singleton loadedKprobe.name loadedKprobe) kprobeKernel.tracing).2.1 = .ok () ∧
        ∃ k', ({ kprobeModule with probes := [{ loadedKprobe with efd := 4 }] } : Module).closeExt
            (fun _ => none)
            { kprobeKernel with tracing := (enableKprobes (fun _ => true) perfOk 0 [loadedKprobe]
              (AList.singleton loadedKprobe.name loadedKprobe) kprobeKernel.tracing).2.2 } =
            (.ok (), ({ kprobeModule with probes := [{ loadedKprobe with efd := 4 }] } : Module).closed,
              k') ∧
          kprobeKernel.Released kprobeModule.closedFds [] [] k') := by
  have hb : kprobeModule.Loaded (AList.singleton loadedKprobe.name loadedKprobe)
      kprobeKernel.tracing := by
    refine ⟨by decide, by decide, Tracing.fresh_singleton_program _ (by decide),
      registered_singleton (.inl rfl), List.Perm.refl _, fun n q hq => ?_⟩
    obtain ⟨rfl, rfl⟩ := lookup_singleton_eq_some hq
    exact ⟨rfl, rfl, by simp [kprobeKernel]⟩
  have hperf : perfOk.Succeed := ⟨fun _ => rfl, fun _ => rfl, fun _ _ => rfl⟩
  have hqs : [{ loadedKprobe with efd := 4 }].Perm ((enableKprobes (fun _ => true) perfOk 0
      [loadedKprobe] (AList.singleton loadedKprobe.name loadedKprobe)
      kprobeKernel.tracing).1.entries.map Sigma.snd) := by
    decide
  exact ⟨hb, hperf, hqs, closeExt_enableKprobes hb (fun _ _ => rfl) (.inl rfl) hperf
    (List.Perm.refl _) hqs rfl List.nodup_nil (by simp)⟩

end Gobpf.Elf
