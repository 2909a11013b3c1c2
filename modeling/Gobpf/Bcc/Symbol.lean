import Mathlib.Data.List.AList
import Gobpf.Go.Regexp

/-!
# The symbol cache of the bcc package

`getUserSymbolsAndAddresses` lists the symbols of a module once and keeps the list in the global
`symbolCache`. On a miss it first stores an empty list for the module and makes the module
`currentModule`; `bcc_foreach_symbol` then calls `foreach_symbol_callback` for each symbol it
finds, which appends the symbol to the list of `currentModule`, and returns its status last. A
negative status is reported as an error, but the list stays in the cache with the symbols
delivered before the failure.

So a call that fails changes the cache (`getUserSymbolsAndAddresses_error`), and a later call for
the same module returns what the failed listing left, without error. What does hold over every
sequence of calls is weaker: a call that succeeds returns the whole list that one run of
`bcc_foreach_symbol` on that module delivered, whatever status that run returned
(`runCalls_delivered`).

`bcc_foreach_symbol` is an oracle: each call is given the run it would make, that is the symbols
it passes to the callback and the status it returns. The lock serialises the calls, which are
therefore taken one after another.
-/

namespace Gobpf.Bcc

open Go

/-- A `symbolAddress`: a symbol's name and address. -/
structure SymbolAddress where
  name : List Char
  addr : Nat
  deriving DecidableEq, Repr

/-- The global `symbolCache`: the list cached for each module, and `currentModule`. -/
structure SymbolCache where
  cache : AList (fun _ : List Char => List SymbolAddress)
  currentModule : List Char

/-- `symbolCache` as the package initialises it. -/
def SymbolCache.init : SymbolCache := ⟨∅, []⟩

/-- `foreach_symbol_callback(symname, addr)`: appends the symbol to the list of `currentModule`; a
missing list reads as `nil`. -/
def foreachSymbolCallback (sc : SymbolCache) (sym : SymbolAddress) : SymbolCache :=
  { sc with
    cache := sc.cache.insert sc.currentModule ((sc.cache.lookup sc.currentModule).getD [] ++ [sym]) }

/-- A run of `bcc_foreach_symbol(module, foreach_symbol_callback)`: the symbols it passes to the
callback, in order, and the status it returns. -/
structure ForeachRun where
  symbols : List SymbolAddress
  status : Int

/-- The error of `getUserSymbolsAndAddresses`: `unable to list symbols for %s`. -/
structure ListSymbolsError where
  module : List Char
  deriving DecidableEq, Repr

/-- `getUserSymbolsAndAddresses(module)`, making the run `run` of `bcc_foreach_symbol` on a miss. -/
def getUserSymbolsAndAddresses (run : ForeachRun) (module : List Char) (sc : SymbolCache) :
    Except ListSymbolsError (List SymbolAddress) × SymbolCache :=
  match sc.cache.lookup module with
  | some syms => (.ok syms, sc)
  | none =>
    let sc := run.symbols.foldl foreachSymbolCallback ⟨sc.cache.insert module [], module⟩
    if run.status < 0 then (.error ⟨module⟩, sc)
    else (.ok ((sc.cache.lookup module).getD []), sc)

/-- The errors of `matchUserSymbols`. -/
inductive MatchError where
  /-- `invalid regex %s : %s` -/
  | invalidRegex (pattern : List Char)
  /-- The error of `getUserSymbolsAndAddresses`, returned as it is. -/
  | listSymbols (err : ListSymbolsError)
  deriving DecidableEq, Repr

/-- `matchUserSymbols(module, match)`: the symbols of the module whose name the pattern matches.
`regexp.Compile` is given as `compile`, which fails on a pattern it rejects. -/
def matchUserSymbols (compile : List Char → Option Regex) (run : ForeachRun)
    (module pattern : List Char) (sc : SymbolCache) :
    Except MatchError (List SymbolAddress) × SymbolCache :=
  match compile pattern with
  | none => (.error (.invalidRegex pattern), sc)
  | some r =>
    match getUserSymbolsAndAddresses run module sc with
    | (.error err, sc) => (.error (.listSymbols err), sc)
    | (.ok symbols, sc) => (.ok (symbols.filter fun sym => matchString r sym.name), sc)

/-- A sequence of calls of `getUserSymbolsAndAddresses`, each on a module with the run that
`bcc_foreach_symbol` would make: what each call returns, and the cache at the end. -/
def runCalls : List (List Char × ForeachRun) → SymbolCache →
    List (Except ListSymbolsError (List SymbolAddress)) × SymbolCache
  | [], sc => ([], sc)
  | (module, run) :: calls, sc =>
    let (res, sc) := getUserSymbolsAndAddresses run module sc
    let (ress, sc) := runCalls calls sc
    (res :: ress, sc)

/-! ## One call -/

/-- The callbacks of a run append its symbols to the list of `currentModule`. -/
theorem foldl_foreachSymbolCallback_lookup {module : List Char} :
    ∀ (syms : List SymbolAddress) {c : AList (fun _ : List Char => List SymbolAddress)}
      {l : List SymbolAddress}, c.lookup module = some l →
      (syms.foldl foreachSymbolCallback ⟨c, module⟩).currentModule = module ∧
      ∀ m, (syms.foldl foreachSymbolCallback ⟨c, module⟩).cache.lookup m =
        if m = module then some (l ++ syms) else c.lookup m
  | [], c, l, hl => by
    refine ⟨rfl, fun m => ?_⟩
    split_ifs with hm
    · subst hm
      simpa using hl
    · rfl
  | sym :: syms, c, l, hl => by
    rw [List.foldl_cons]
    have hstep : (foreachSymbolCallback ⟨c, module⟩ sym) =
        ⟨c.insert module (l ++ [sym]), module⟩ := by
      simp [foreachSymbolCallback, hl]
    rw [hstep]
    obtain ⟨hcur, hlook⟩ := foldl_foreachSymbolCallback_lookup syms (AList.lookup_insert _)
    refine ⟨hcur, fun m => ?_⟩
    rw [hlook m]
    split_ifs with hm
    · simp
    · exact AList.lookup_insert_ne hm

/-- A cached list is returned as it is, and the cache is left alone. -/
theorem getUserSymbolsAndAddresses_hit {run : ForeachRun} {module : List Char} {sc : SymbolCache}
    {syms : List SymbolAddress} (h : sc.cache.lookup module = some syms) :
    getUserSymbolsAndAddresses run module sc = (.ok syms, sc) := by
  simp [getUserSymbolsAndAddresses, h]

/-- On a miss the run's symbols are cached for the module, whatever its status, and the status
decides only what the call returns. -/
theorem getUserSymbolsAndAddresses_miss (run : ForeachRun) {module : List Char}
    {sc : SymbolCache} (h : sc.cache.lookup module = none) :
    (getUserSymbolsAndAddresses run module sc).1 =
        (if run.status < 0 then .error ⟨module⟩ else .ok run.symbols) ∧
      ∀ m, (getUserSymbolsAndAddresses run module sc).2.cache.lookup m =
        if m = module then some run.symbols else sc.cache.lookup m := by
  have hnil : (sc.cache.insert module []).lookup module = some [] := AList.lookup_insert _
  obtain ⟨-, hlook⟩ := foldl_foreachSymbolCallback_lookup run.symbols hnil
  have hcache : ∀ m, (run.symbols.foldl foreachSymbolCallback
      ⟨sc.cache.insert module [], module⟩).cache.lookup m =
        if m = module then some run.symbols else sc.cache.lookup m := by
    intro m
    rw [hlook m]
    split_ifs with hm
    · simp
    · exact AList.lookup_insert_ne hm
  simp only [getUserSymbolsAndAddresses, h]
  split_ifs with hst
  · exact ⟨rfl, hcache⟩
  · exact ⟨by simp [hcache], hcache⟩

/-- **A failed listing is cached.** On a miss, a run of `bcc_foreach_symbol` that returns a
negative status makes the call fail, and leaves the symbols it delivered in the cache. -/
theorem getUserSymbolsAndAddresses_error {run : ForeachRun} {module : List Char}
    {sc : SymbolCache} (h : sc.cache.lookup module = none) (hst : run.status < 0) :
    (getUserSymbolsAndAddresses run module sc).1 = .error ⟨module⟩ ∧
      (getUserSymbolsAndAddresses run module sc).2.cache.lookup module = some run.symbols := by
  obtain ⟨hres, hlook⟩ := getUserSymbolsAndAddresses_miss run h
  rw [if_pos hst] at hres
  exact ⟨hres, by simp [hlook]⟩

/-! ## Every sequence of calls -/

/-- Every list in the cache is the whole list that one of the runs `calls` made on its module
delivered. -/
def Delivered (calls : List (List Char × ForeachRun)) (sc : SymbolCache) : Prop :=
  ∀ m l, sc.cache.lookup m = some l → ∃ run, (m, run) ∈ calls ∧ l = run.symbols

/-- Step: a call keeps every cached list delivered, and what it returns without error is a
delivered list. -/
theorem Delivered.step {calls : List (List Char × ForeachRun)} {sc : SymbolCache}
    (h : Delivered calls sc) (module : List Char) (run : ForeachRun) :
    Delivered (calls ++ [(module, run)]) (getUserSymbolsAndAddresses run module sc).2 ∧
      ∀ l, (getUserSymbolsAndAddresses run module sc).1 = .ok l →
        ∃ run', (module, run') ∈ calls ++ [(module, run)] ∧ l = run'.symbols := by
  have hmem : (module, run) ∈ calls ++ [(module, run)] := by simp
  have hold : ∀ m l, sc.cache.lookup m = some l →
      ∃ run', (m, run') ∈ calls ++ [(module, run)] ∧ l = run'.symbols := fun m l hl => by
    obtain ⟨run', hr, rfl⟩ := h m l hl
    exact ⟨run', List.mem_append_left _ hr, rfl⟩
  cases hc : sc.cache.lookup module with
  | some syms =>
    rw [getUserSymbolsAndAddresses_hit hc]
    exact ⟨hold, fun l hl => hold module l (hc.trans (Except.ok.inj hl ▸ rfl))⟩
  | none =>
    obtain ⟨hres, hlook⟩ := getUserSymbolsAndAddresses_miss run hc
    refine ⟨fun m l hl => ?_, fun l hl => ?_⟩
    · rw [hlook m] at hl
      split_ifs at hl with hm
      · exact ⟨run, hm ▸ hmem, (Option.some.inj hl).symm⟩
      · exact hold m l hl
    · rw [hres] at hl
      split_ifs at hl
      exact ⟨run, hmem, (Except.ok.inj hl).symm⟩

/-- Run: over a sequence of calls, every call that returns a list without error returns the whole
list that a run of `bcc_foreach_symbol` made in the sequence on that module delivered. -/
theorem runCalls_delivered :
    ∀ (calls : List (List Char × ForeachRun)) {prior : List (List Char × ForeachRun)}
      {sc : SymbolCache}, Delivered prior sc →
      ∀ p ∈ calls.zip (runCalls calls sc).1, ∀ l, p.2 = .ok l →
        ∃ run, (p.1.1, run) ∈ prior ++ calls ∧ l = run.symbols
  | [], _, _, _ => by simp
  | (module, run) :: calls, prior, sc, h => by
    obtain ⟨hnext, hres⟩ := h.step module run
    intro p hp l hl
    rw [List.append_cons]
    simp only [runCalls, List.zip_cons_cons, List.mem_cons] at hp
    rcases hp with rfl | hp
    · obtain ⟨run', hr, rfl⟩ := hres l hl
      exact ⟨run', List.mem_append_left _ hr, rfl⟩
    · exact runCalls_delivered calls hnext p hp l hl

end Gobpf.Bcc
