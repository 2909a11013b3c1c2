import Mathlib.Logic.Function.Basic
import Mathlib.Logic.Function.Iterate

/-!
# Interleaved runs of processes over a shared state

Processes indexed by `ι`, each with a local state in `π`, share a state in `σ`. A process takes
one atomic step at a time, reading and writing the shared state and its own local state
(`step`); between the steps of the processes the environment may change the shared state
(`envStep`). A schedule is a list of such events, and `run` applies it. A property of every run
of every schedule holds for every interleaving of the processes' steps.

Two rules carry the proofs about runs. An invariant that every allowed event preserves holds
after every schedule of allowed events (`run_inv`). A process run alone for `n` steps moves as
its own step function iterated `n` times and leaves the other processes where they were
(`run_replicate_proc`): a sequential implementation of a process is one schedule among the
others.
-/

namespace Gobpf.Interleave

/-- An event of a schedule: a step of process `i`, or a change `e` of the shared state by the
environment. -/
inductive Event (ι ε : Type*) where
  | proc (i : ι)
  | env (e : ε)
  deriving DecidableEq

/-- The shared state, and the local state of every process. -/
structure Config (σ ι π : Type*) where
  shared : σ
  procs : ι → π

variable {σ ι π ε : Type*} [DecidableEq ι]
variable (step : σ × π → σ × π) (envStep : ε → σ → σ)

/-- One event on a configuration. -/
def apply : Event ι ε → Config σ ι π → Config σ ι π
  | .proc i, c =>
    let r := step (c.shared, c.procs i)
    ⟨r.1, Function.update c.procs i r.2⟩
  | .env e, c => ⟨envStep e c.shared, c.procs⟩

/-- A schedule run from a configuration. -/
def run (evs : List (Event ι ε)) (c : Config σ ι π) : Config σ ι π :=
  evs.foldl (fun c ev => apply step envStep ev c) c

@[simp] theorem run_nil (c : Config σ ι π) : run step envStep [] c = c := rfl

@[simp] theorem run_cons (ev : Event ι ε) (evs : List (Event ι ε)) (c : Config σ ι π) :
    run step envStep (ev :: evs) c = run step envStep evs (apply step envStep ev c) := rfl

theorem run_append (evs evs' : List (Event ι ε)) (c : Config σ ι π) :
    run step envStep (evs ++ evs') c = run step envStep evs' (run step envStep evs c) :=
  List.foldl_append

/-- **Invariants of runs.** An invariant that every allowed event preserves holds after every
schedule of allowed events. -/
theorem run_inv (allowed : Event ι ε → Prop) (I : Config σ ι π → Prop)
    (hstep : ∀ ev c, allowed ev → I c → I (apply step envStep ev c)) :
    ∀ (evs : List (Event ι ε)) (c : Config σ ι π), (∀ ev ∈ evs, allowed ev) → I c →
      I (run step envStep evs c)
  | [], _, _, hc => hc
  | ev :: evs, c, hevs, hc =>
    run_inv allowed I hstep evs _ (fun ev' h => hevs ev' (List.mem_cons_of_mem _ h))
      (hstep ev c (hevs ev List.mem_cons_self) hc)

/-- **A process run alone** moves as its step function iterated, and the others stay where they
were. -/
theorem run_replicate_proc (i : ι) :
    ∀ (n : Nat) (c : Config σ ι π),
      run step envStep (List.replicate n (Event.proc i)) c =
        ⟨(step^[n] (c.shared, c.procs i)).1,
          Function.update c.procs i (step^[n] (c.shared, c.procs i)).2⟩
  | 0, c => by simp
  | n + 1, c => by
    rw [List.replicate_succ, run_cons, run_replicate_proc i n, Function.iterate_succ_apply]
    simp [apply]

end Gobpf.Interleave
