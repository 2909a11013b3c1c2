import Mathlib
import Gobpf.Data.Circular

/-!
# The callback registry of bcc perf maps

A bcc `PerfMap` hands its receiver channel to libbcc's perf reader as a number: `InitPerfMap`
registers the channel in the package's `callbackRegister` under a fresh `uint64` index, passes the
index as the reader's cookie, and the C side calls `callback_to_go` with that cookie for every
sample, which looks the channel up again.

`registerCallback` counts `callbackIndex` on from the last index it handed out, modulo `2^64`,
until it finds an index the map does not hold (`Circular.firstFree`). With fewer than `2^64`
callbacks registered it returns the first such index and inserts the new callback there, leaving
every other index alone (`registerCallback_fresh`), so a registration never overwrites a live
callback: over any run of registrations and removals, a sample for a cookie is delivered to the
channel registered under it until the cookie is unregistered (`callbackToGo_after_run`). From the
empty registry, and before the counter wraps, the search never moves past the incremented counter:
the `n`-th registration gets index `n`, whatever was unregistered in between
(`registryRun_indices`).
-/

namespace Gobpf.Bcc

/-- `callbackRegister` and `callbackIndex`: the registered callbacks by their `uint64` index, and
the last index handed out. `α` is the `callbackData` the map points to, never `nil`. -/
structure CallbackRegister (α : Type) where
  callbacks : AList (fun _ : Nat => α)
  index : Nat

variable {α : Type}

/-- The registry at program start: an empty map, and `callbackIndex = 0`. -/
def CallbackRegister.init : CallbackRegister α := ⟨∅, 0⟩

/-- `registerCallback(data)`: `callbackIndex++`, then `callbackIndex++` while
`callbackRegister[callbackIndex] != nil`, both wrapping modulo `2^64`; the callback is stored
under the index reached, which is returned. When all `2^64` indices hold a callback the loop never
ends: `none`. -/
def registerCallback (data : α) (reg : CallbackRegister α) : Option (Nat × CallbackRegister α) :=
  match Circular.firstFree (2 ^ 64) (fun i => (reg.callbacks.lookup i).isSome) (2 ^ 64)
      ((reg.index + 1) % 2 ^ 64) with
  | none => none
  | some i => some (i, ⟨reg.callbacks.insert i data, i⟩)

/-- `unregisterCallback(i)`: `delete(callbackRegister, i)`. -/
def unregisterCallback (i : Nat) (reg : CallbackRegister α) : CallbackRegister α :=
  { reg with callbacks := reg.callbacks.erase i }

@[simp] theorem index_unregisterCallback (i : Nat) (reg : CallbackRegister α) :
    (unregisterCallback i reg).index = reg.index := rfl

/-- `lookupCallback(i)`: `callbackRegister[i]`, `nil` (`none`) when absent. -/
def lookupCallback (reg : CallbackRegister α) (i : Nat) : Option α :=
  reg.callbacks.lookup i

/-- `callback_to_go(cbCookie, raw, rawSize)`: the callback registered under the cookie, and the
`rawSize` bytes at `raw` that a goroutine sends on its `receiverChan`. `none` is the nil pointer
dereference of `callbackData.receiverChan` for a cookie with no callback. -/
def callbackToGo (reg : CallbackRegister α) (cbCookie : Nat) (raw : List UInt8) :
    Option (α × List UInt8) :=
  (lookupCallback reg cbCookie).map fun callbackData => (callbackData, raw)

/-- What the package does to the registry: `InitPerfMap` registers a callback, and
`unregisterCallback` removes one. -/
inductive RegistryEvent (α : Type) where
  | register (data : α)
  | unregister (i : Nat)

/-- The registry after a run of events, with the indices the registrations returned; `none` when
a registration never returns. -/
def registryRun : List (RegistryEvent α) → CallbackRegister α → Option (List Nat × CallbackRegister α)
  | [], reg => some ([], reg)
  | .register data :: evs, reg =>
    match registerCallback data reg with
    | none => none
    | some (i, reg') => (registryRun evs reg').map fun r => (i :: r.1, r.2)
  | .unregister i :: evs, reg => registryRun evs (unregisterCallback i reg)

/-- The number of registrations in a run. -/
def registrations : List (RegistryEvent α) → Nat
  | [] => 0
  | .register _ :: evs => registrations evs + 1
  | .unregister _ :: evs => registrations evs

/-! ## One registration -/

/-- The search of `registerCallback` marks exactly the indices that hold a callback. -/
theorem lookup_isSome_iff (reg : CallbackRegister α) (i : Nat) :
    (reg.callbacks.lookup i).isSome = true ↔ i ∈ reg.callbacks :=
  AList.lookup_isSome

theorem registerCallback_eq_some {data : α} {reg reg' : CallbackRegister α} {i : Nat}
    (h : registerCallback data reg = some (i, reg')) :
    Circular.firstFree (2 ^ 64) (fun i => (reg.callbacks.lookup i).isSome) (2 ^ 64)
        ((reg.index + 1) % 2 ^ 64) = some i ∧ reg' = ⟨reg.callbacks.insert i data, i⟩ := by
  unfold registerCallback at h
  split at h
  · exact absurd h nofun
  · obtain ⟨rfl, rfl⟩ := Prod.mk.inj (Option.some.inj h)
    exact ⟨by assumption, rfl⟩

/-- A registration stores its callback under an index that held none. -/
theorem registerCallback_not_mem {data : α} {reg reg' : CallbackRegister α} {i : Nat}
    (h : registerCallback data reg = some (i, reg')) : i ∉ reg.callbacks := by
  obtain ⟨hfree, -⟩ := registerCallback_eq_some h
  obtain ⟨-, -, -, hnot, -⟩ := Circular.firstFree_spec (Nat.mod_lt _ (by positivity)) hfree
  exact fun hm => by simp [(lookup_isSome_iff reg i).2 hm] at hnot

/-- **A registration overwrites no callback**: after it, its index looks its callback up and every
other index looks up what it did before. -/
theorem lookupCallback_registerCallback {data : α} {reg reg' : CallbackRegister α} {i : Nat}
    (h : registerCallback data reg = some (i, reg')) (k : Nat) :
    lookupCallback reg' k = if k = i then some data else lookupCallback reg k := by
  obtain ⟨-, rfl⟩ := registerCallback_eq_some h
  split_ifs with hk
  · subst hk
    exact AList.lookup_insert _
  · exact AList.lookup_insert_ne hk

/-- **Registering finds a fresh index.** With fewer than `2^64` callbacks registered,
`registerCallback` returns: it counts on from `callbackIndex + 1` by `k < 2^64` steps modulo
`2^64`, past indices that all hold a callback, to one that holds none, and inserts the callback
there. -/
theorem registerCallback_fresh (data : α) (reg : CallbackRegister α)
    (h : reg.callbacks.keys.length < 2 ^ 64) :
    ∃ k < 2 ^ 64,
      registerCallback data reg = some ((reg.index + 1 + k) % 2 ^ 64,
        ⟨reg.callbacks.insert ((reg.index + 1 + k) % 2 ^ 64) data, (reg.index + 1 + k) % 2 ^ 64⟩) ∧
      (reg.index + 1 + k) % 2 ^ 64 ∉ reg.callbacks ∧
      ∀ k' < k, (reg.index + 1 + k') % 2 ^ 64 ∈ reg.callbacks := by
  have hstart : (reg.index + 1) % 2 ^ 64 < 2 ^ 64 := Nat.mod_lt _ (by positivity)
  have hsome := Circular.firstFree_isSome_of_length_lt h
    (fun i hi => (AList.mem_keys).2 ((lookup_isSome_iff reg i).1 hi)) hstart
  obtain ⟨i, hi⟩ := Option.isSome_iff_exists.1 hsome
  obtain ⟨k, hk, rfl, hfree, hbefore⟩ := Circular.firstFree_spec hstart hi
  have hmod : ∀ k, ((reg.index + 1) % 2 ^ 64 + k) % 2 ^ 64 = (reg.index + 1 + k) % 2 ^ 64 :=
    fun k => Nat.mod_add_mod _ _ _
  refine ⟨k, hk, ?_, ?_, fun k' hk' => ?_⟩
  · rw [← hmod, registerCallback, hi]
  · rw [← hmod]
    exact fun hm => absurd ((lookup_isSome_iff reg _).2 hm) (by simpa using hfree)
  · rw [← hmod, ← lookup_isSome_iff]
    exact hbefore k' hk'

/-- A registry whose counter is at `2^64 - 2`, with callbacks under `2^64 - 1` and `0`: the
search skips both, wrapping past `2^64 - 1`, and the callback goes under `1`. -/
theorem registerCallback_fresh_wrap :
    let reg : CallbackRegister Unit :=
      ⟨((∅ : AList (fun _ : Nat => Unit)).insert (2 ^ 64 - 1) ()).insert 0 (), 2 ^ 64 - 2⟩
    reg.callbacks.keys.length < 2 ^ 64 ∧
      registerCallback () reg = some (1, ⟨reg.callbacks.insert 1 (), 1⟩) := by
  intro reg
  have h : reg.callbacks.keys.length < 2 ^ 64 := by decide
  obtain ⟨k, -, hreg, hfree, hbefore⟩ := registerCallback_fresh () reg h
  have hk : k = 2 := by
    match k, hfree, hbefore with
    | 0, hfree, _ => exact absurd (by decide) hfree
    | 1, hfree, _ => exact absurd (by decide) hfree
    | 2, _, _ => rfl
    | k + 3, _, hbefore => exact absurd (hbefore 2 (by omega)) (by decide)
  subst hk
  have hone : (reg.index + 1 + 2) % 2 ^ 64 = 1 := by decide
  rw [hone] at hreg
  exact ⟨h, hreg⟩

/-! ## The counter before it wraps -/

/-- While every registered index is at most `callbackIndex` and the counter has not reached
`2^64 - 1`, a registration takes `callbackIndex + 1` without searching. -/
theorem registerCallback_of_le_index {data : α} {reg : CallbackRegister α}
    (hle : ∀ k ∈ reg.callbacks, k ≤ reg.index) (hlt : reg.index + 1 < 2 ^ 64) :
    registerCallback data reg =
      some (reg.index + 1, ⟨reg.callbacks.insert (reg.index + 1) data, reg.index + 1⟩) := by
  have hfree : (reg.callbacks.lookup (reg.index + 1)).isSome = false := by
    rw [Bool.eq_false_iff, ne_eq, lookup_isSome_iff]
    exact fun hm => absurd (hle _ hm) (by omega)
  have hfuel : (2 : Nat) ^ 64 = (2 ^ 64 - 1) + 1 := by omega
  rw [registerCallback, Nat.mod_eq_of_lt hlt, hfuel,
    @Circular.firstFree_of_not_used (2 ^ 64 - 1 + 1) (fun i => (reg.callbacks.lookup i).isSome) _
      hfree]

/-- **Before the counter wraps, the `n`-th registration gets index `callbackIndex + n`.** While
every registered index is at most `callbackIndex`, a run whose registrations keep the counter
below `2^64` hands out the indices after `callbackIndex` in order, removals notwithstanding, and
keeps the bound. -/
theorem registryRun_counter :
    ∀ (evs : List (RegistryEvent α)) (reg : CallbackRegister α),
      (∀ k ∈ reg.callbacks, k ≤ reg.index) → reg.index + registrations evs < 2 ^ 64 →
      ∃ reg', registryRun evs reg = some (List.range' (reg.index + 1) (registrations evs), reg') ∧
        reg'.index = reg.index + registrations evs
  | [], reg, _, _ => ⟨reg, rfl, rfl⟩
  | .register data :: evs, reg, hle, hlt => by
    have hlt' : reg.index + 1 < 2 ^ 64 := by simp [registrations] at hlt; omega
    have hle₁ : ∀ k ∈ reg.callbacks.insert (reg.index + 1) data, k ≤ reg.index + 1 := by
      intro k hk
      rcases (AList.mem_insert _).1 hk with rfl | hk
      · exact le_refl _
      · exact Nat.le_succ_of_le (hle k hk)
    obtain ⟨reg', hrun, hidx⟩ := registryRun_counter evs
      ⟨reg.callbacks.insert (reg.index + 1) data, reg.index + 1⟩ hle₁
      (by simp [registrations] at hlt ⊢; omega)
    refine ⟨reg', ?_, by simp [registrations] at hidx ⊢; omega⟩
    simp [registryRun, registerCallback_of_le_index hle hlt', hrun, registrations, List.range'_succ]
  | .unregister j :: evs, reg, hle, hlt => by
    have hle₁ : ∀ k ∈ (unregisterCallback j reg).callbacks, k ≤ (unregisterCallback j reg).index :=
      fun k hk => hle k (AList.mem_erase.1 hk).2
    simpa [registryRun, registrations] using registryRun_counter evs _ hle₁ hlt

/-! ## Runs -/

/-- A callback stays registered over a run that does not unregister its index. -/
theorem lookupCallback_registryRun :
    ∀ {evs : List (RegistryEvent α)} {reg reg' : CallbackRegister α} {is : List Nat} {i : Nat}
      {d : α}, registryRun evs reg = some (is, reg') → lookupCallback reg i = some d →
      RegistryEvent.unregister i ∉ evs → lookupCallback reg' i = some d
  | [], _, _, _, _, _, h, hd, _ => by
    obtain ⟨-, rfl⟩ := Prod.mk.inj (Option.some.inj h)
    exact hd
  | .register data :: evs, reg, reg', is, i, d, h, hd, hkeep => by
    unfold registryRun at h
    split at h
    · exact absurd h nofun
    · rename_i j reg₁ hreg
      obtain ⟨r, hr, hrr⟩ := Option.map_eq_some_iff.1 h
      have hne : i ≠ j := fun hij => registerCallback_not_mem hreg
        (AList.lookup_isSome.1 (by rw [← hij, show reg.callbacks.lookup i = some d from hd]; rfl))
      have hd₁ : lookupCallback reg₁ i = some d := by
        rw [lookupCallback_registerCallback hreg, if_neg hne, hd]
      obtain rfl : r.2 = reg' := congrArg Prod.snd hrr
      exact lookupCallback_registryRun hr hd₁ (fun hm => hkeep (List.mem_cons_of_mem _ hm))
  | .unregister j :: evs, reg, reg', is, i, d, h, hd, hkeep => by
    rw [registryRun] at h
    have hne : i ≠ j := fun hij => hkeep (by simp [hij])
    have hd₁ : lookupCallback (unregisterCallback j reg) i = some d := by
      rw [lookupCallback, unregisterCallback, AList.lookup_erase_ne hne]
      exact hd
    exact lookupCallback_registryRun h hd₁ (fun hm => hkeep (List.mem_cons_of_mem _ hm))

/-- **A sample reaches the channel registered under its cookie.** After `registerCallback`
registers `d` under `i`, and any later run of registrations and removals that does not unregister
`i`, `callback_to_go` with the cookie `i` sends the sample to `d`'s channel. -/
theorem callbackToGo_after_run {d : α} {reg reg₁ reg' : CallbackRegister α} {i : Nat}
    {evs : List (RegistryEvent α)} {is : List Nat}
    (hreg : registerCallback d reg = some (i, reg₁)) (hrun : registryRun evs reg₁ = some (is, reg'))
    (hkeep : RegistryEvent.unregister i ∉ evs) (raw : List UInt8) :
    callbackToGo reg' i raw = some (d, raw) := by
  have hd₁ : lookupCallback reg₁ i = some d := by
    rw [lookupCallback_registerCallback hreg, if_pos rfl]
  rw [callbackToGo, lookupCallback_registryRun hrun hd₁ hkeep, Option.map_some]

/-- The first perf map's callback is still delivered after a second one is registered and
removed. -/
theorem callbackToGo_after_run_second_removed :
    ∃ (reg₁ reg' : CallbackRegister Unit) (is : List Nat),
      registerCallback () CallbackRegister.init = some (1, reg₁) ∧
      registryRun [RegistryEvent.register (), .unregister 2] reg₁ = some (is, reg') ∧
      (RegistryEvent.unregister 1 : RegistryEvent Unit) ∉ [.register (), .unregister 2] ∧
      callbackToGo reg' 1 [7] = some ((), [7]) := by
  have hinit : ∀ k ∈ (CallbackRegister.init : CallbackRegister Unit).callbacks, k ≤ 0 :=
    fun k hk => absurd (AList.mem_keys.1 hk) (by simp [CallbackRegister.init])
  have hreg := @registerCallback_of_le_index Unit () CallbackRegister.init hinit (by decide)
  have hle₁ : ∀ k ∈ (CallbackRegister.init.callbacks.insert 1 () : AList (fun _ : Nat => Unit)),
      k ≤ 1 := by
    intro k hk
    rcases (AList.mem_insert _).1 hk with rfl | hk
    · exact le_refl _
    · exact absurd hk (by simp [CallbackRegister.init])
  obtain ⟨reg', hrun, -⟩ := registryRun_counter [RegistryEvent.register (), .unregister 2]
    ⟨CallbackRegister.init.callbacks.insert 1 (), 1⟩ hle₁ (by simp [registrations])
  have hkeep : (RegistryEvent.unregister 1 : RegistryEvent Unit) ∉ [.register (), .unregister 2] := by
    simp
  exact ⟨_, reg', _, hreg, hrun, hkeep, callbackToGo_after_run hreg hrun hkeep [7]⟩

/-- **From program start, the `n`-th registration gets index `n`**, whatever was unregistered in
between, for fewer than `2^64` registrations: no index is handed out twice. -/
theorem registryRun_indices (evs : List (RegistryEvent α)) (h : registrations evs < 2 ^ 64) :
    ∃ reg', registryRun evs CallbackRegister.init = some (List.range' 1 (registrations evs), reg') := by
  obtain ⟨reg', hrun, -⟩ := registryRun_counter evs CallbackRegister.init
    (fun k hk => absurd (AList.mem_keys.1 hk) (by simp [CallbackRegister.init]))
    (by simpa [CallbackRegister.init] using h)
  exact ⟨reg', hrun⟩

/-- Two registrations around the removal of the first: the second gets index 2, not the freed 1. -/
theorem registryRun_indices_reregister :
    registrations [RegistryEvent.register (), .unregister 1, .register ()] < 2 ^ 64 ∧
    ∃ reg', registryRun [RegistryEvent.register (), .unregister 1, .register ()]
      CallbackRegister.init = some ([1, 2], reg') :=
  ⟨by simp [registrations], registryRun_indices _ (by simp [registrations])⟩

end Gobpf.Bcc
