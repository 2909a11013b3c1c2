import Mathlib.Data.List.DropRight

/-!
# Go's `strings` package

The functions of Go's `strings` package that the repository calls, on a string as its list of
characters. Each follows the package's documented behaviour for what the callers pass: a
separator of one character, and a cutset of one-byte characters. `split` is `List.splitOn`,
whose lemmas come with the core library; `splitN` is the loop of `genSplit` with a limit.
-/

namespace Gobpf.Go

/-- `strings.HasPrefix(s, prefix)`. -/
def hasPrefix (s pre : List Char) : Bool :=
  pre.isPrefixOf s

/-- `strings.TrimPrefix(s, prefix)`: `s` without `prefix`, if it begins with it. -/
def trimPrefix (s pre : List Char) : List Char :=
  if pre.isPrefixOf s then s.drop pre.length else s

/-- `strings.Trim(s, cutset)`: `s` without its leading and trailing characters in `cutset`. -/
def trim (s cutset : List Char) : List Char :=
  (s.dropWhile (cutset.contains ·)).rdropWhile (cutset.contains ·)

/-- `strings.Split(s, sep)` for a one-character separator: the pieces between the separators,
one more than there are separators. -/
def split (s : List Char) (sep : Char) : List (List Char) :=
  s.splitOn sep

/-- `strings.SplitN(s, sep, n)` for a one-character separator and `n ≥ 0`: at most `n` pieces,
the last of which is the rest of `s`. -/
def splitN (s : List Char) (sep : Char) : Nat → List (List Char)
  | 0 => []
  | 1 => [s]
  | n + 2 =>
    if sep ∈ s then s.takeWhile (· != sep) :: splitN (s.dropWhile (· != sep)).tail sep (n + 1)
    else [s]

/-! ## `HasPrefix` and `TrimPrefix` -/

@[simp] theorem hasPrefix_append (pre s : List Char) : hasPrefix (pre ++ s) pre = true := by
  simp [hasPrefix]

theorem hasPrefix_iff {s pre : List Char} : hasPrefix s pre = true ↔ ∃ t, s = pre ++ t := by
  rw [hasPrefix, List.isPrefixOf_iff_prefix]
  exact ⟨fun ⟨t, ht⟩ => ⟨t, ht.symm⟩, fun ⟨t, ht⟩ => ⟨t, ht.symm⟩⟩

@[simp] theorem trimPrefix_append (pre s : List Char) : trimPrefix (pre ++ s) pre = s := by
  simp [trimPrefix]

/-! ## `SplitN` with a limit of two -/

/-- Without a separator, `SplitN(s, sep, 2)` is `[s]`. -/
theorem splitN_two_of_not_mem {s : List Char} {sep : Char} (h : sep ∉ s) :
    splitN s sep 2 = [s] := by
  simp [splitN, h]

/-- `SplitN(s, sep, 2)` cuts at the first separator only. -/
theorem splitN_two_append {x y : List Char} {sep : Char} (hx : sep ∉ x) :
    splitN (x ++ sep :: y) sep 2 = [x, y] := by
  have htake : (x ++ sep :: y).takeWhile (· != sep) = x := by
    rw [List.takeWhile_append_of_pos (fun c hc => by simpa using ne_of_mem_of_not_mem hc hx)]
    simp
  have hdrop : (x ++ sep :: y).dropWhile (· != sep) = sep :: y := by
    rw [List.dropWhile_append_of_pos (fun c hc => by simpa using ne_of_mem_of_not_mem hc hx)]
    simp
  simp [splitN, htake, hdrop]

/-- A string with a separator is cut at its first one. -/
theorem exists_append_of_mem {s : List Char} {sep : Char} (h : sep ∈ s) :
    ∃ x y, sep ∉ x ∧ s = x ++ sep :: y := by
  induction s with
  | nil => cases h
  | cons c s ih =>
    by_cases hc : c = sep
    · exact ⟨[], s, List.not_mem_nil, by rw [hc]; rfl⟩
    · have hs : sep ∈ s := by
        rcases List.mem_cons.1 h with h | h
        · exact absurd h.symm hc
        · exact h
      obtain ⟨x, y, hx, rfl⟩ := ih hs
      refine ⟨c :: x, y, ?_, rfl⟩
      rintro (_ | ⟨_, h'⟩)
      · exact hc rfl
      · exact hx h'

/-- A character of strings joined by `sep` is `sep` or a character of one of them. -/
theorem mem_intercalate {sep c : Char} {ls : List (List Char)} (h : c ∈ [sep].intercalate ls) :
    c = sep ∨ ∃ l ∈ ls, c ∈ l := by
  induction ls with
  | nil => cases h
  | cons l ls ih =>
    cases ls with
    | nil => exact .inr ⟨l, List.mem_singleton_self l, by simpa using h⟩
    | cons l' ls' =>
      rw [List.intercalate_cons_cons] at h
      rcases List.mem_append.1 h with h | h
      · rcases List.mem_append.1 h with h | h
        · exact .inr ⟨l, List.mem_cons_self, h⟩
        · exact .inl (List.mem_singleton.1 h)
      · rcases ih h with h | ⟨l'', hl'', hc⟩
        · exact .inl h
        · exact .inr ⟨l'', List.mem_cons_of_mem _ hl'', hc⟩

/-! ## `Trim` -/

/-- Trimming a string none of whose characters is in the cutset, followed by one that is. -/
theorem trim_append_cut {x : List Char} {cutset : List Char} {c : Char} (hc : c ∈ cutset)
    (hx : ∀ d ∈ x, d ∉ cutset) : trim (x ++ [c]) cutset = x := by
  cases x with
  | nil => simp [trim, hc]
  | cons d x =>
    have hdrop : (d :: x ++ [c]).dropWhile (cutset.contains ·) = d :: x ++ [c] := by
      simp [hx d List.mem_cons_self]
    rw [trim, hdrop, List.rdropWhile_concat_pos _ _ c (by simpa using hc),
      List.rdropWhile_eq_self_iff]
    intro hne
    simpa using hx _ (List.getLast_mem hne)

/-- Trimming the padding of a string that neither starts nor ends with the padding character. -/
theorem trim_replicate_append {c : Char} {t : List Char} (k : Nat)
    (hh : ∀ d ∈ t.head?, d ≠ c) (hl : ∀ d ∈ t.getLast?, d ≠ c) :
    trim (List.replicate k c ++ t) [c] = t := by
  have hdrop : (List.replicate k c ++ t).dropWhile ([c].contains ·) = t := by
    induction k with
    | zero =>
      cases t with
      | nil => rfl
      | cons d t => simp [hh d rfl]
    | succ k ih => simpa [List.replicate_succ] using ih
  rw [trim, hdrop, List.rdropWhile_eq_self_iff]
  intro hne
  have hlast := hl (t.getLast hne) (List.getLast?_eq_some_getLast hne)
  simpa using hlast

/-! ## A separator found from the right -/

/-- Text after the last occurrence of a separator determines both sides of it. -/
theorem append_cons_inj_of_not_mem {c : Char} {t t' : List Char} (ht : c ∉ t) (ht' : c ∉ t') :
    ∀ {s s' : List Char}, s ++ c :: t = s' ++ c :: t' → s = s' ∧ t = t'
  | [], [], h => ⟨rfl, (List.cons.inj h).2⟩
  | [], d :: s', h => by
    obtain ⟨rfl, rfl⟩ := List.cons.inj h
    exact absurd (List.mem_append_right _ List.mem_cons_self) ht
  | d :: s, [], h => by
    obtain ⟨rfl, rfl⟩ := List.cons.inj h
    exact absurd (List.mem_append_right _ List.mem_cons_self) ht'
  | d :: s, d' :: s', h => by
    obtain ⟨rfl, hrest⟩ := List.cons.inj h
    obtain ⟨rfl, rfl⟩ := append_cons_inj_of_not_mem ht ht' hrest
    exact ⟨rfl, rfl⟩

end Gobpf.Go
