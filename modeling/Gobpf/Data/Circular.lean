import Mathlib.Logic.Function.Basic
import Mathlib.Data.List.Nodup
import Mathlib.Data.List.Perm.Subperm
import Mathlib.Tactic.SplitIfs

/-!
# Circular memory

A ring buffer of `size` cells lays its contents out at the positions `pos, pos + 1, …` taken
modulo `size`. `read` takes `len` cells from a position and `write` stores a list from one, each
cell at its position modulo `size`.

Between a tail and a head at most `size` apart, the cells read from the tail are the ring's
contents, oldest first. Writing a list at the head, when it fits, appends it to them
(`read_write_append`); moving the tail forward drops their first cells (`read_add`). Both rest on
one fact of modular arithmetic: positions less than `size` apart fall in distinct cells
(`mod_ne_of_lt_of_lt_add`).

The same fact makes a counter that counts modulo `size` visit every value once in `size` steps.
`firstFree` searches from a position for the first one, counting modulo `size`, that a predicate
does not mark: what it returns is that first one (`firstFree_spec`), and it finds one within
`size` steps whenever fewer than `size` positions are marked (`firstFree_isSome_of_length_lt`).
-/

namespace Gobpf.Circular

variable {α : Type*}

/-- The `len` cells from position `pos`, each at its position modulo `size`. -/
def read (mem : Nat → α) (size pos len : Nat) : List α :=
  (List.range len).map fun k => mem ((pos + k) % size)

/-- `xs` stored from position `pos`, each element at its position modulo `size`. -/
def write (size : Nat) : (Nat → α) → Nat → List α → Nat → α
  | mem, _, [] => mem
  | mem, pos, x :: xs => write size (Function.update mem (pos % size) x) (pos + 1) xs

/-- Positions less than `size` apart fall in distinct cells. -/
theorem mod_ne_of_lt_of_lt_add {size a b : Nat} (hab : a < b) (hba : b < a + size) :
    a % size ≠ b % size := by
  intro h
  have hdvd : size ∣ b - a := Nat.dvd_of_mod_eq_zero (Nat.sub_mod_eq_zero_of_mod_eq h.symm)
  have hle := Nat.le_of_dvd (by omega) hdvd
  omega

@[simp] theorem length_read (mem : Nat → α) (size pos len : Nat) :
    (read mem size pos len).length = len := by
  simp [read]

/-- A read splits where its range does. -/
theorem read_add (mem : Nat → α) (size pos a b : Nat) :
    read mem size pos (a + b) = read mem size pos a ++ read mem size (pos + a) b := by
  simp only [read, List.range_add, List.map_append, List.map_map]
  congr 1
  refine List.map_congr_left fun k _ => ?_
  simp [Function.comp, Nat.add_assoc]

/-- A cell that a write does not reach keeps its contents. -/
theorem write_apply_of_forall_ne {size i : Nat} :
    ∀ {mem : Nat → α} {pos : Nat} {xs : List α}, (∀ k < xs.length, (pos + k) % size ≠ i) →
      write size mem pos xs i = mem i
  | _, _, [], _ => rfl
  | mem, pos, x :: xs, h => by
    have hrest : ∀ k < xs.length, (pos + 1 + k) % size ≠ i := fun k hk => by
      simpa [Nat.add_assoc, Nat.add_comm 1 k] using h (k + 1) (by simp; omega)
    rw [write, write_apply_of_forall_ne hrest]
    exact Function.update_of_ne (by simpa using (h 0 (by simp)).symm) _ _

/-- A read that a write does not reach is unchanged. -/
theorem read_write_of_disjoint {mem : Nat → α} {size pos p len : Nat} {xs : List α}
    (h : ∀ k < len, ∀ j < xs.length, (pos + j) % size ≠ (p + k) % size) :
    read (write size mem pos xs) size p len = read mem size p len := by
  unfold read
  refine List.map_congr_left fun k hk => ?_
  exact write_apply_of_forall_ne (h k (List.mem_range.1 hk))

/-- **A read of what was just written returns it**, when it fits in the ring. -/
theorem read_write_self (size : Nat) :
    ∀ {mem : Nat → α} {pos : Nat} {xs : List α}, xs.length ≤ size →
      read (write size mem pos xs) size pos xs.length = xs
  | _, _, [], _ => rfl
  | mem, pos, x :: xs, hlen => by
    have hrest : read (write size (Function.update mem (pos % size) x) (pos + 1) xs) size
        (pos + 1) xs.length = xs := read_write_self size (by simp at hlen; omega)
    have hfirst : write size (Function.update mem (pos % size) x) (pos + 1) xs (pos % size) = x := by
      rw [write_apply_of_forall_ne fun k hk => (mod_ne_of_lt_of_lt_add (by omega)
        (by simp at hlen; omega)).symm]
      exact Function.update_self _ _ _
    rw [List.length_cons, ← Nat.add_comm 1, read_add, write]
    simp only [read, List.range_one, List.map_singleton, Nat.add_zero, hfirst,
      List.singleton_append]
    exact congrArg (x :: ·) hrest

/-- **Writing at the head appends to the contents.** With the head at most `size` ahead of the
tail and room for `xs`, the cells from the tail to the new head are the old contents followed by
`xs`. -/
theorem read_write_append {mem : Nat → α} {size tail head : Nat} {xs : List α}
    (htail : tail ≤ head) (hroom : head - tail + xs.length ≤ size) :
    read (write size mem head xs) size tail (head - tail + xs.length) =
      read mem size tail (head - tail) ++ xs := by
  rw [read_add, Nat.add_sub_cancel' htail, read_write_self size (by omega)]
  congr 1
  exact read_write_of_disjoint fun k hk j hj => (mod_ne_of_lt_of_lt_add (by omega) (by omega)).symm

/-! ## Searching a cyclic counter -/

/-- The first position from `i` on, counting modulo `size`, that `used` does not mark, within
`fuel` steps. -/
def firstFree (size : Nat) (used : Nat → Bool) : Nat → Nat → Option Nat
  | 0, _ => none
  | fuel + 1, i => if used i then firstFree size used fuel ((i + 1) % size) else some i

section FirstFree
variable {size : Nat} {used : Nat → Bool}

theorem firstFree_of_not_used {i : Nat} (h : used i = false) (fuel : Nat) :
    firstFree size used (fuel + 1) i = some i := by
  simp [firstFree, h]

/-- What `firstFree` returns is the first position from `i`, counting modulo `size`, that `used`
does not mark. -/
theorem firstFree_spec :
    ∀ {fuel i j : Nat}, i < size → firstFree size used fuel i = some j →
      ∃ k < fuel, j = (i + k) % size ∧ used j = false ∧ ∀ k' < k, used ((i + k') % size) = true
  | 0, _, _, _, h => nomatch h
  | fuel + 1, i, j, hi, h => by
    unfold firstFree at h
    split_ifs at h with hused
    · obtain ⟨k, hk, rfl, hfree, hbefore⟩ := firstFree_spec (Nat.mod_lt _ (by omega)) h
      refine ⟨k + 1, by omega, by rw [Nat.mod_add_mod, Nat.add_right_comm, Nat.add_assoc], hfree,
        fun k' hk' => ?_⟩
      cases k' with
      | zero => simpa [Nat.mod_eq_of_lt hi] using hused
      | succ k' =>
        have := hbefore k' (by omega)
        rwa [Nat.mod_add_mod, Nat.add_right_comm, Nat.add_assoc] at this
    · obtain rfl := Option.some.inj h
      exact ⟨0, by omega, by simp [Nat.mod_eq_of_lt hi], by simpa using hused, nofun⟩

/-- The search succeeds when a position it reaches within its fuel is not marked. -/
theorem firstFree_isSome :
    ∀ {fuel i k : Nat}, k < fuel → used ((i + k) % size) = false → i < size →
      (firstFree size used fuel i).isSome
  | 0, _, _, hk, _, _ => absurd hk (Nat.not_lt_zero _)
  | fuel + 1, i, k, hk, hfree, hi => by
    unfold firstFree
    split_ifs with hused
    · cases k with
      | zero => simp [Nat.mod_eq_of_lt hi, hused] at hfree
      | succ k =>
        refine firstFree_isSome (k := k) (by omega) ?_ (Nat.mod_lt _ (by omega))
        rwa [Nat.mod_add_mod, Nat.add_right_comm, Nat.add_assoc]
    · rfl

/-- **A counter modulo `size` meets a free position.** When fewer than `size` positions are
marked, the search from any position finds a free one within `size` steps: the `size` positions it
visits are distinct, so they cannot all be marked. -/
theorem firstFree_isSome_of_length_lt {S : List Nat} (hS : S.length < size)
    (hused : ∀ i, used i = true → i ∈ S) {i : Nat} (hi : i < size) :
    (firstFree size used size i).isSome := by
  by_contra hnone
  have hall : ∀ k < size, used ((i + k) % size) = true := fun k hk => by
    by_contra hfree
    exact hnone (firstFree_isSome hk (by simpa using hfree) hi)
  have hnodup : ((List.range size).map fun k => (i + k) % size).Nodup := by
    refine List.Nodup.map_on (fun a ha b hb hab => ?_) List.nodup_range
    by_contra hne
    rcases Nat.lt_or_gt_of_ne hne with hlt | hlt
    · exact mod_ne_of_lt_of_lt_add (by omega) (by simp at hb; omega) hab
    · exact mod_ne_of_lt_of_lt_add (by omega) (by simp at ha; omega) hab.symm
  have hsub : ((List.range size).map fun k => (i + k) % size) ⊆ S := by
    intro x hx
    obtain ⟨k, hk, rfl⟩ := List.mem_map.1 hx
    exact hused _ (hall k (List.mem_range.1 hk))
  have hle := (hnodup.subperm hsub).length_le
  simp at hle
  omega

end FirstFree

end Gobpf.Circular
