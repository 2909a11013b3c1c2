import Mathlib
import Gobpf.Elf.Pinning
import Gobpf.Data.Interleave

/-!
# Pinned maps shared through the bpf filesystem

`elfReadMaps` creates each map of an object file with `bpf_load_map`. A map whose definition sets
`PIN_GLOBAL_NS` or `PIN_CUSTOM_NS` is shared through the bpf filesystem: `bpf_load_map` `stat`s its
path and, when something is there, opens the map pinned there with `BPF_OBJ_GET`; otherwise it
creates the map with `BPF_MAP_CREATE` and pins it with `BPF_OBJ_PIN`, which fails on a path that
exists. Any number of programs may run it at once on the same path, each syscall atomic but the
four of a call interleaved with the others' and with `unlink`s of pins.

The loader is modelled twice: as the C function run without interruption (`bpfLoadMap`), and as a
process that makes one syscall per step (`loadStep`), the first being the second run alone
(`run_bpfLoadMap`). Over every interleaving of any number of loaders, no pin is ever moved
(`loadStep_lookup_of_lookup`), and so every loader that has finished a load at a pinned path
holds the map pinned there, as long as the path is not unlinked (`run_holdsPinned`): two loaders
that finish at the same path share one map (`run_agree`), whatever definitions they pass. The
definition a loaded map carries is the one the object file gave, never compared with that of the
map pinned (`bpfLoadMap_of_stat`).

The kernel is reduced to what the loader observes: the maps created, with the attributes they were
created with, and the maps pinned in the bpf filesystem by path. `calloc` is taken to succeed, and
`bpf_create_map`'s answer, after its retry with an unlimited `RLIMIT_MEMLOCK`, is an oracle.
-/

namespace Gobpf.Elf

open Interleave

/-- A `bpf_map_def`: the pin fields that `getMapPath` reads, and the attributes that
`bpf_create_map` passes to the kernel. -/
structure BpfMapDef extends MapDef where
  mapType : Nat
  keySize : Nat
  valueSize : Nat
  maxEntries : Nat
  deriving DecidableEq

/-- Whether `bpf_load_map` shares the map through its path: `PIN_GLOBAL_NS` and `PIN_CUSTOM_NS`. -/
def BpfMapDef.doPin (d : BpfMapDef) : Bool :=
  d.pinning == pinGlobalNs || d.pinning == pinCustomNs

/-- What the loader observes of the kernel: the maps created, by id in order of creation, with the
attributes each was created with, and the bpf filesystem's pins, each naming a map. `maps` is a log
of creations: the kernel frees a map that is not pinned once its last fd is closed, which no
modelled function observes, so the model never removes one. -/
structure BpfKernel where
  maps : List BpfMapDef
  pins : AList (fun _ : List Char => Nat)

/-- `struct bpf_map` as `bpf_load_map` returns it: the map opened, by its id, standing for the fd,
and the definition copied from the object file. -/
structure BpfMap where
  fd : Nat
  mapDef : BpfMapDef
  deriving DecidableEq

namespace BpfKernel

/-- `stat(path, &st) == 0`. -/
def stat (k : BpfKernel) (path : List Char) : Bool :=
  decide (path ∈ k.pins)

/-- `get_pinned_obj_fd(path)`: `BPF_OBJ_GET`, the map pinned at the path. -/
def objGet (k : BpfKernel) (path : List Char) : Option Nat :=
  k.pins.lookup path

/-- `BPF_MAP_CREATE` when the kernel creates the map: its id, the next one. -/
def mapCreate (k : BpfKernel) (d : BpfMapDef) : Nat × BpfKernel :=
  (k.maps.length, { k with maps := k.maps ++ [d] })

/-- `bpf_pin_object(fd, path)`: `BPF_OBJ_PIN`, which fails with `EEXIST` on a path that exists. -/
def objPin (k : BpfKernel) (fd : Nat) (path : List Char) : Option BpfKernel :=
  if path ∈ k.pins then none else some { k with pins := k.pins.insert path fd }

/-- `unlink(path)` in the bpf filesystem, as `closeMaps` unpins a map. -/
def unlink (k : BpfKernel) (path : List Char) : BpfKernel :=
  { k with pins := k.pins.erase path }

end BpfKernel

/-- `bpf_create_map`: `BPF_MAP_CREATE`, retried once after raising `RLIMIT_MEMLOCK` when it fails
with `EPERM`. `accepts` says whether the kernel creates the map in the end. -/
def bpfCreateMap (accepts : BpfMapDef → Bool) (k : BpfKernel) (d : BpfMapDef) :
    Option (Nat × BpfKernel) :=
  if accepts d then some (k.mapCreate d) else none

/-- `bpf_load_map(map_def, path)`, run without interruption: the map it returns, `NULL` being
`none`, and the kernel after it. -/
def bpfLoadMap (accepts : BpfMapDef → Bool) (d : BpfMapDef) (path : List Char) (k : BpfKernel) :
    Option BpfMap × BpfKernel :=
  -- `case 1: // PIN_OBJECT_NS`: `TODO to be implemented`
  if d.pinning = pinObjectNs then (none, k)
  else if d.doPin ∧ k.stat path then
    match k.objGet path with
    | none => (none, k)
    | some fd => (some ⟨fd, d⟩, k)
  else
    -- `do_pin` is set exactly for the two shared settings
    match bpfCreateMap accepts k d with
    | none => (none, k)
    | some (fd, k') =>
      if d.doPin then
        match k'.objPin fd path with
        | none => (none, k')
        | some k'' => (some ⟨fd, d⟩, k'')
      else (some ⟨fd, d⟩, k')

/-! ## The loader one syscall at a time -/

/-- Where a loader is in `bpf_load_map`: before the `switch`, before the `stat`, the
`BPF_OBJ_GET`, the `BPF_MAP_CREATE` or the `BPF_OBJ_PIN` of the map `fd`, or returned. -/
inductive LoadPc where
  | start
  | stat
  | get
  | create
  | pin (fd : Nat)
  | done (m : BpfMap)
  | failed
  deriving DecidableEq

/-- A call of `bpf_load_map`: its arguments, and where it is. -/
structure Loader where
  mapDef : BpfMapDef
  path : List Char
  pc : LoadPc
  deriving DecidableEq

/-- How a call that returns ends: with the map, or with `NULL`. -/
def LoadPc.ofResult : Option BpfMap → LoadPc
  | some m => .done m
  | none => .failed

/-- One step of a call of `bpf_load_map`: at most one syscall. -/
def loadStep (accepts : BpfMapDef → Bool) : BpfKernel × Loader → BpfKernel × Loader
  | (k, l) =>
    match l.pc with
    | .start =>
      if l.mapDef.pinning = pinObjectNs then (k, { l with pc := .failed })
      else if l.mapDef.doPin then (k, { l with pc := .stat })
      else (k, { l with pc := .create })
    | .stat => if k.stat l.path then (k, { l with pc := .get }) else (k, { l with pc := .create })
    | .get =>
      match k.objGet l.path with
      | none => (k, { l with pc := .failed })
      | some fd => (k, { l with pc := .done ⟨fd, l.mapDef⟩ })
    | .create =>
      match bpfCreateMap accepts k l.mapDef with
      | none => (k, { l with pc := .failed })
      | some (fd, k') =>
        if l.mapDef.doPin then (k', { l with pc := .pin fd })
        else (k', { l with pc := .done ⟨fd, l.mapDef⟩ })
    | .pin fd =>
      match k.objPin fd l.path with
      | none => (k, { l with pc := .failed })
      | some k' => (k', { l with pc := .done ⟨fd, l.mapDef⟩ })
    | .done _ => (k, l)
    | .failed => (k, l)

/-- A system of loaders `ι` over one kernel; the environment unlinks pins. -/
abbrev LoadConfig (ι : Type) := Config BpfKernel ι Loader

variable {ι : Type} [DecidableEq ι] (accepts : BpfMapDef → Bool)

/-- A schedule of loader steps and `unlink`s. -/
def loadRun (evs : List (Event ι (List Char))) (c : LoadConfig ι) : LoadConfig ι :=
  run (loadStep accepts) (fun path k => k.unlink path) evs c

/-! ## The C function is the loader run alone -/

theorem loadStep_start_stat {k : BpfKernel} {d : BpfMapDef} {path : List Char}
    (hobj : d.pinning ≠ pinObjectNs) (hpin : d.doPin = true) :
    loadStep accepts (k, ⟨d, path, .start⟩) = (k, ⟨d, path, .stat⟩) := by
  simp [loadStep, hobj, hpin]

/-- Four steps take a call that starts to where the uninterrupted call ends. -/
theorem iterate_loadStep (d : BpfMapDef) (path : List Char) (k : BpfKernel) :
    (loadStep accepts)^[4] (k, ⟨d, path, .start⟩) =
      ((bpfLoadMap accepts d path k).2, ⟨d, path, .ofResult (bpfLoadMap accepts d path k).1⟩) := by
  simp only [Function.iterate_succ_apply, Function.iterate_zero_apply]
  by_cases hobj : d.pinning = pinObjectNs
  · simp [loadStep, bpfLoadMap, hobj, LoadPc.ofResult]
  by_cases hpin : d.doPin = true
  · rw [loadStep_start_stat accepts hobj hpin]
    by_cases hstat : k.stat path = true
    · cases hget : k.objGet path <;>
        simp [loadStep, bpfLoadMap, hobj, hpin, hstat, hget, LoadPc.ofResult]
    · cases hcreate : bpfCreateMap accepts k d with
      | none => simp [loadStep, bpfLoadMap, hobj, hpin, hstat, hcreate, LoadPc.ofResult]
      | some r =>
        cases hpinned : r.2.objPin r.1 path <;>
          simp [loadStep, bpfLoadMap, hobj, hpin, hstat, hcreate, hpinned, LoadPc.ofResult]
  · cases hcreate : bpfCreateMap accepts k d <;>
      simp [loadStep, bpfLoadMap, hobj, hpin, hcreate, LoadPc.ofResult]

/-- **`bpf_load_map` is a loader run alone.** Four steps of loader `i` and nothing else from the
start of its call leave the kernel as the uninterrupted call does and end the call with its
result, the other loaders untouched. -/
theorem run_bpfLoadMap (i : ι) (d : BpfMapDef) (path : List Char) (k : BpfKernel)
    (procs : ι → Loader) :
    loadRun accepts (List.replicate 4 (Event.proc i)) ⟨k, Function.update procs i ⟨d, path, .start⟩⟩ =
      ⟨(bpfLoadMap accepts d path k).2,
        Function.update procs i ⟨d, path, .ofResult (bpfLoadMap accepts d path k).1⟩⟩ := by
  rw [loadRun, run_replicate_proc]
  simp only [Function.update_self, iterate_loadStep, Function.update_idem]

/-! ## Pins are never moved -/

/-- A map opened through a pin carries the caller's definition, whatever the pinned map was
created with. -/
theorem bpfLoadMap_of_stat {d : BpfMapDef} {path : List Char} {k : BpfKernel} {fd : Nat}
    (hobj : d.pinning ≠ pinObjectNs) (hpin : d.doPin = true) (hfd : k.pins.lookup path = some fd) :
    bpfLoadMap accepts d path k = (some ⟨fd, d⟩, k) := by
  have hstat : k.stat path = true := by
    simp [BpfKernel.stat, ← AList.lookup_isSome, hfd]
  simp [bpfLoadMap, hobj, hpin, hstat, BpfKernel.objGet, hfd]

theorem bpfCreateMap_pins {k k' : BpfKernel} {d : BpfMapDef} {fd : Nat}
    (h : bpfCreateMap accepts k d = some (fd, k')) : k'.pins = k.pins := by
  unfold bpfCreateMap at h
  split_ifs at h
  obtain ⟨-, rfl⟩ := Prod.mk.inj (Option.some.inj h)
  rfl

theorem objPin_eq_some {k k' : BpfKernel} {fd : Nat} {path : List Char}
    (h : k.objPin fd path = some k') : path ∉ k.pins ∧ k'.pins = k.pins.insert path fd := by
  unfold BpfKernel.objPin at h
  split_ifs at h with hmem
  obtain rfl := Option.some.inj h
  exact ⟨hmem, rfl⟩

@[simp] theorem loadStep_path (k : BpfKernel) (l : Loader) :
    (loadStep accepts (k, l)).2.path = l.path := by
  obtain ⟨d, path, pc⟩ := l
  cases pc <;> simp only [loadStep] <;> (repeat' split) <;> rfl

@[simp] theorem loadStep_mapDef (k : BpfKernel) (l : Loader) :
    (loadStep accepts (k, l)).2.mapDef = l.mapDef := by
  obtain ⟨d, path, pc⟩ := l
  cases pc <;> simp only [loadStep] <;> (repeat' split) <;> rfl

/-- **What a step does to the pins**: nothing, or it pins a map at the loader's path, which was
free. -/
theorem loadStep_pins (k : BpfKernel) (l : Loader) :
    (loadStep accepts (k, l)).1.pins = k.pins ∨
      ∃ fd, l.path ∉ k.pins ∧ (loadStep accepts (k, l)).1.pins = k.pins.insert l.path fd := by
  obtain ⟨d, path, pc⟩ := l
  cases pc with
  | start => simp only [loadStep]; split_ifs <;> exact .inl rfl
  | stat => simp only [loadStep]; split_ifs <;> exact .inl rfl
  | get => simp only [loadStep]; split <;> exact .inl rfl
  | create =>
    simp only [loadStep]
    split
    · exact .inl rfl
    · rename_i fd k' hcreate
      split_ifs <;> exact .inl (bpfCreateMap_pins accepts hcreate)
  | pin fd =>
    simp only [loadStep]
    split
    · exact .inl rfl
    · rename_i k' hpin
      exact .inr ⟨fd, objPin_eq_some hpin⟩
  | done m => exact .inl rfl
  | failed => exact .inl rfl

/-- **How a call of a shared map finishes**: it had finished, or its map is the one pinned at its
path after the step, read by `BPF_OBJ_GET` or pinned by `BPF_OBJ_PIN`. -/
theorem loadStep_eq_done {k : BpfKernel} {l : Loader} {m : BpfMap}
    (h : (loadStep accepts (k, l)).2.pc = .done m) (hpin : l.mapDef.doPin = true) :
    l.pc = .done m ∨ (loadStep accepts (k, l)).1.pins.lookup l.path = some m.fd := by
  obtain ⟨d, path, pc⟩ := l
  cases pc with
  | start => simp only [loadStep] at h; split_ifs at h
  | stat => simp only [loadStep] at h; split_ifs at h
  | get =>
    cases hget : k.objGet path with
    | none => simp [loadStep, hget] at h
    | some fd =>
      simp only [loadStep, hget, LoadPc.done.injEq] at h
      subst h
      exact .inr (by simp only [loadStep, hget]; exact hget)
  | create =>
    cases hcreate : bpfCreateMap accepts k d with
    | none => simp [loadStep, hcreate] at h
    | some r => simp [loadStep, hcreate, hpin] at h
  | pin fd =>
    cases hobj : k.objPin fd path with
    | none => simp [loadStep, hobj] at h
    | some k' =>
      simp only [loadStep, hobj, LoadPc.done.injEq] at h ⊢
      subst h
      rw [(objPin_eq_some hobj).2]
      exact .inr (AList.lookup_insert _)
  | done m' => exact .inl h
  | failed => cases h

/-- A step of a loader keeps every pin: `BPF_OBJ_PIN` only pins at a free path. -/
theorem loadStep_lookup_of_lookup {k : BpfKernel} {l : Loader} {P : List Char} {fd : Nat}
    (h : k.pins.lookup P = some fd) : (loadStep accepts (k, l)).1.pins.lookup P = some fd := by
  rcases loadStep_pins accepts k l with hk | ⟨fd', hfree, hk⟩
  · rwa [hk]
  · have hne : P ≠ l.path := fun hP => hfree (hP ▸ AList.lookup_isSome.1 (by simp [h]))
    rwa [hk, AList.lookup_insert_ne hne]

/-- Every loader that has finished a load at the shared path `P` holds the map pinned there. -/
def HoldsPinned (P : List Char) (c : LoadConfig ι) : Prop :=
  ∀ i m, (c.procs i).pc = .done m → (c.procs i).path = P → (c.procs i).mapDef.doPin = true →
    c.shared.pins.lookup P = some m.fd

/-- The loader that steps keeps `HoldsPinned` for itself. -/
theorem loadStep_done {k : BpfKernel} {l : Loader} {P : List Char}
    (hl : ∀ m, l.pc = .done m → l.path = P → l.mapDef.doPin = true → k.pins.lookup P = some m.fd)
    {m : BpfMap} (hdone : (loadStep accepts (k, l)).2.pc = .done m)
    (hpath : (loadStep accepts (k, l)).2.path = P)
    (hpin : (loadStep accepts (k, l)).2.mapDef.doPin = true) :
    (loadStep accepts (k, l)).1.pins.lookup P = some m.fd := by
  rw [loadStep_path] at hpath
  rw [loadStep_mapDef] at hpin
  subst hpath
  rcases loadStep_eq_done accepts hdone hpin with hold | hnew
  · exact loadStep_lookup_of_lookup accepts (hl m hold rfl hpin)
  · exact hnew

/-- One event of a schedule that does not unlink `P` keeps `HoldsPinned P`. -/
theorem apply_holdsPinned {P : List Char} (ev : Event ι (List Char)) (c : LoadConfig ι)
    (hev : ev ≠ .env P) (hc : HoldsPinned P c) :
    HoldsPinned P (Interleave.apply (loadStep accepts) (fun path k => k.unlink path) ev c) := by
  cases ev with
  | proc j =>
    intro i m
    by_cases hij : i = j
    · subst hij
      simp only [Interleave.apply, Function.update_self]
      exact loadStep_done accepts (hc i)
    · simp only [Interleave.apply, Function.update_of_ne hij]
      intro hdone hpath hpin
      exact loadStep_lookup_of_lookup accepts (hc i m hdone hpath hpin)
  | env Q =>
    have hQ : P ≠ Q := fun h => hev (h ▸ rfl)
    intro i m hdone hpath hpin
    simp only [Interleave.apply, BpfKernel.unlink, AList.lookup_erase_ne hQ]
    exact hc i m hdone hpath hpin

/-- **Loaders agree with the bpf filesystem.** Over any interleaving of the loaders' syscalls and
of `unlink`s that spares the shared path `P`, every loader that has finished a load at `P` holds
the map pinned at `P`. -/
theorem run_holdsPinned {P : List Char} (evs : List (Event ι (List Char))) (c : LoadConfig ι)
    (hevs : Event.env P ∉ evs) (hc : HoldsPinned P c) : HoldsPinned P (loadRun accepts evs c) :=
  run_inv _ _ (fun ev => ev ≠ .env P) (HoldsPinned P)
    (fun ev c hev hc => apply_holdsPinned accepts ev c hev hc) evs c
    (fun _ hev h => hevs (h ▸ hev)) hc

/-- **Loaders of one pinned path share one map.** From a start where no loader has finished a
load, in any interleaving that does not unlink `P`, two loaders that finish a load at `P` of a
shared map hold the same map, whatever the definitions they pass. -/
theorem run_agree {P : List Char} (evs : List (Event ι (List Char))) (c : LoadConfig ι)
    (hevs : Event.env P ∉ evs) (hstart : ∀ i m, (c.procs i).pc ≠ .done m) {i j : ι}
    {mi mj : BpfMap} (hi : ((loadRun accepts evs c).procs i).pc = .done mi)
    (hj : ((loadRun accepts evs c).procs j).pc = .done mj)
    (hpi : ((loadRun accepts evs c).procs i).path = P)
    (hpj : ((loadRun accepts evs c).procs j).path = P)
    (hdi : ((loadRun accepts evs c).procs i).mapDef.doPin = true)
    (hdj : ((loadRun accepts evs c).procs j).mapDef.doPin = true) :
    mi.fd = mj.fd := by
  have hinv := run_holdsPinned accepts evs c hevs (fun i m h => absurd h (hstart i m))
  have hmi := hinv i mi hi hpi hdi
  rw [hinv j mj hj hpj hdj] at hmi
  exact (Option.some.inj hmi).symm

/-- Two loaders of one `PIN_GLOBAL_NS` map at `/sys/fs/bpf/n/globals/m`, from an empty kernel:
the first loads it alone, then the second finds it pinned. -/
theorem run_agree_two :
    let d : BpfMapDef := ⟨⟨pinGlobalNs, ['n']⟩, 1, 4, 4, 1⟩
    let P := bpffsPath ++ ['n', '/', 'g', 'l', 'o', 'b', 'a', 'l', 's', '/', 'm']
    let c : LoadConfig Bool := ⟨⟨[], ∅⟩, fun _ => ⟨d, P, .start⟩⟩
    let evs := List.replicate 4 (Event.proc false) ++ List.replicate 4 (Event.proc true)
    Event.env P ∉ evs ∧ (∀ i m, (c.procs i).pc ≠ .done m) ∧
      ((loadRun (fun _ => true) evs c).procs false).pc = .done ⟨0, d⟩ ∧
      ((loadRun (fun _ => true) evs c).procs true).pc = .done ⟨0, d⟩ ∧
      ((loadRun (fun _ => true) evs c).procs false).path = P ∧
      ((loadRun (fun _ => true) evs c).procs true).path = P ∧
      ((loadRun (fun _ => true) evs c).procs false).mapDef.doPin = true ∧
      ((loadRun (fun _ => true) evs c).procs true).mapDef.doPin = true ∧
      (⟨0, d⟩ : BpfMap).fd = (⟨0, d⟩ : BpfMap).fd := by
  intro d P c evs
  have hevs : Event.env P ∉ evs := by simp [evs]
  have hstart : ∀ i m, (c.procs i).pc ≠ .done m := fun _ _ h => by cases h
  have hfalse : ((loadRun (fun _ => true) evs c).procs false).pc = .done ⟨0, d⟩ := by decide
  have htrue : ((loadRun (fun _ => true) evs c).procs true).pc = .done ⟨0, d⟩ := by decide
  have hpf : ((loadRun (fun _ => true) evs c).procs false).path = P := by decide
  have hpt : ((loadRun (fun _ => true) evs c).procs true).path = P := by decide
  have hdf : ((loadRun (fun _ => true) evs c).procs false).mapDef.doPin = true := by decide
  have hdt : ((loadRun (fun _ => true) evs c).procs true).mapDef.doPin = true := by decide
  exact ⟨hevs, hstart, hfalse, htrue, hpf, hpt, hdf, hdt,
    run_agree (fun _ => true) evs c hevs hstart hfalse htrue hpf hpt hdf hdt⟩

end Gobpf.Elf
