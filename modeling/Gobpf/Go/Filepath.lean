import Mathlib.Data.List.Basic
import Mathlib.Tactic.SplitIfs
import Mathlib.Tactic.Push

/-!
# Go's `path/filepath` on Unix

`filepath.Clean` and `filepath.Join` on a path as its list of characters, with `/` as the only
separator. `Clean` applies the four lexical rules of its documentation to the path's elements (the
pieces between separators), holding the elements kept so far as a stack:

1. multiple separators become one, so an empty element is dropped;
2. each `.` element is dropped;
3. each inner `..` element is dropped together with the non-`..` element before it;
4. a `..` that begins a rooted path is dropped.

The result ends in a separator only when it is the root, and an empty result is `.`. The standard
library computes the same in one pass over a byte buffer.

On a rooted path the stack only ever holds names (`foldl_cleanElem_rooted`), so the result is `/`
followed by names (`clean_rooted`); a path of that form is its own result (`clean_names`), and these
are the rooted fixed points of `Clean` (`clean_eq_self_iff`).
-/

namespace Gobpf.Go

/-- An element that `Clean` keeps in a rooted path: not empty, not `.` or `..`, and without a
separator. -/
def IsName (e : List Char) : Prop :=
  e ≠ [] ∧ e ≠ ['.'] ∧ e ≠ ['.', '.'] ∧ '/' ∉ e

instance : DecidablePred IsName := fun _ => inferInstanceAs (Decidable (_ ∧ _))

/-- One element of the path, applied to the elements kept so far (the last one first). -/
def cleanElem (rooted : Bool) (kept : List (List Char)) (e : List Char) : List (List Char) :=
  if e = [] ∨ e = ['.'] then kept
  else if e = ['.', '.'] then
    match kept with
    | d :: rest => if d = ['.', '.'] then e :: kept else rest
    -- nothing to remove: a rooted path drops the element, a relative one keeps it
    | [] => if rooted then [] else [e]
  else e :: kept

/-- `filepath.Clean(path)`. -/
def clean (path : List Char) : List Char :=
  let rooted := path.head? == some '/'
  let body := ['/'].intercalate ((path.splitOn '/').foldl (cleanElem rooted) []).reverse
  if rooted then '/' :: body
  else if body = [] then ['.'] else body

/-- `filepath.Join(elem...)`: the elements from the first non-empty one on, joined by separators
and cleaned; the empty string when every element is empty. -/
def join (elem : List (List Char)) : List Char :=
  match elem.dropWhile (·.isEmpty) with
  | [] => []
  | es => clean (['/'].intercalate es)

/-! ## Splitting at separators -/

/-- No element of a split holds a character it was split at. -/
theorem not_of_mem_splitOnP {α : Type*} {p : α → Bool} :
    ∀ {xs e : List α}, e ∈ xs.splitOnP p → ∀ c ∈ e, p c = false
  | [], e, he => by
    rw [List.splitOnP_nil, List.mem_singleton] at he
    simp [he]
  | x :: xs, e, he => by
    rw [List.splitOnP_cons_eq_if_modifyHead] at he
    split_ifs at he with hx
    · rcases List.mem_cons.1 he with rfl | he
      · simp
      · exact not_of_mem_splitOnP he
    · obtain ⟨r, rs, hr⟩ := List.exists_cons_of_ne_nil (List.splitOnP_ne_nil p xs)
      rw [hr, List.modifyHead_cons] at he
      rcases List.mem_cons.1 he with rfl | he
      · intro c hc
        rcases List.mem_cons.1 hc with rfl | hc
        · simpa using hx
        · exact not_of_mem_splitOnP (hr ▸ List.mem_cons_self) c hc
      · exact not_of_mem_splitOnP (hr ▸ List.mem_cons_of_mem _ he)

theorem notMem_of_mem_splitOn {path e : List Char} (he : e ∈ path.splitOn '/') : '/' ∉ e := by
  rw [List.splitOn_eq_splitOnP] at he
  intro hc
  simpa using not_of_mem_splitOnP he '/' hc

theorem splitOn_sep_cons (path : List Char) : ('/' :: path).splitOn '/' = [] :: path.splitOn '/' := by
  simp [List.splitOn_eq_splitOnP, List.splitOnP_cons_eq_if_modifyHead]

/-- A separator closes the element before it. -/
theorem splitOn_append_sep {e : List Char} (he : '/' ∉ e) (path : List Char) :
    (e ++ '/' :: path).splitOn '/' = e :: path.splitOn '/' := by
  rw [List.splitOn_eq_splitOnP, List.splitOnP_append_cons_of_forall_mem _ _ (by simp),
    List.splitOn_eq_splitOnP]
  intro c hc
  simpa using ne_of_mem_of_not_mem hc he

/-! ## The stack of a rooted path -/

/-- Step: on a rooted path, an element without a separator keeps the stack made of names. -/
theorem cleanElem_rooted {kept : List (List Char)} {e : List Char}
    (hkept : ∀ d ∈ kept, IsName d) (he : '/' ∉ e) : ∀ d ∈ cleanElem true kept e, IsName d := by
  simp only [cleanElem, ↓reduceIte]
  split_ifs with h₁ h₂
  · exact hkept
  · split
    · rename_i d rest
      have hd : IsName d := hkept d List.mem_cons_self
      rw [if_neg hd.2.2.1]
      exact fun d' hd' => hkept d' (List.mem_cons_of_mem _ hd')
    · simp
  · rw [not_or] at h₁
    intro d hd
    rcases List.mem_cons.1 hd with rfl | hd
    · exact ⟨h₁.1, h₁.2, h₂, he⟩
    · exact hkept d hd

/-- Run: the stack of a rooted path is made of names. -/
theorem foldl_cleanElem_rooted :
    ∀ {es kept : List (List Char)}, (∀ e ∈ es, '/' ∉ e) → (∀ d ∈ kept, IsName d) →
      ∀ d ∈ es.foldl (cleanElem true) kept, IsName d
  | [], _, _, hkept => hkept
  | e :: es, _, hes, hkept => by
    rw [List.foldl_cons]
    exact foldl_cleanElem_rooted (fun e' he' => hes e' (List.mem_cons_of_mem _ he'))
      (cleanElem_rooted hkept (hes e List.mem_cons_self))

/-- Names are pushed as they are, and empty elements are dropped. -/
theorem foldl_cleanElem_names (rooted : Bool) :
    ∀ {es kept : List (List Char)}, (∀ e ∈ es, e = [] ∨ IsName e) →
      es.foldl (cleanElem rooted) kept = (es.filter (· ≠ [])).reverse ++ kept
  | [], _, _ => rfl
  | e :: es, kept, hes => by
    have hrest : es.foldl (cleanElem rooted) (cleanElem rooted kept e) =
        (es.filter (· ≠ [])).reverse ++ cleanElem rooted kept e :=
      foldl_cleanElem_names rooted fun e' he' => hes e' (List.mem_cons_of_mem _ he')
    rw [List.foldl_cons, hrest]
    rcases hes e List.mem_cons_self with rfl | he
    · simp [cleanElem]
    · simp [cleanElem, he.1, he.2.1, he.2.2.1]

/-! ## `Clean` on rooted paths -/

/-- `Clean` turns a rooted path into `/` followed by names. -/
theorem clean_rooted {path : List Char} (h : path.head? = some '/') :
    ∃ cs, (∀ c ∈ cs, IsName c) ∧ clean path = '/' :: ['/'].intercalate cs := by
  refine ⟨((path.splitOn '/').foldl (cleanElem true) []).reverse, ?_, ?_⟩
  · intro c hc
    rw [List.mem_reverse] at hc
    exact foldl_cleanElem_rooted (fun e he => notMem_of_mem_splitOn he) (by simp) c hc
  · simp [clean, h]

/-- A rooted path of names and empty elements is cleaned by dropping the empty ones. -/
theorem clean_sep_intercalate {es : List (List Char)} (hes : ∀ e ∈ es, e = [] ∨ IsName e) :
    clean ('/' :: ['/'].intercalate es) = '/' :: ['/'].intercalate (es.filter (· ≠ [])) := by
  have hsplit : ('/' :: ['/'].intercalate es).splitOn '/' = [] :: (if es = [] then [[]] else es) := by
    rw [splitOn_sep_cons]
    split_ifs with hnil
    · simp [hnil]
    · rw [List.splitOn_intercalate _ (fun e he => ?_) hnil]
      rcases hes e he with rfl | he
      · simp
      · exact he.2.2.2
  have hfold : (if es = [] then [[]] else es).foldl (cleanElem true) [] =
      (es.filter (· ≠ [])).reverse := by
    split_ifs with hnil
    · simp [hnil, cleanElem]
    · exact (foldl_cleanElem_names true hes).trans (List.append_nil _)
  simp only [clean, List.head?_cons, beq_self_eq_true, if_true, hsplit, List.foldl_cons]
  rw [show cleanElem true [] [] = [] by simp [cleanElem], hfold, List.reverse_reverse]

theorem clean_names {cs : List (List Char)} (hcs : ∀ c ∈ cs, IsName c) :
    clean ('/' :: ['/'].intercalate cs) = '/' :: ['/'].intercalate cs := by
  rw [clean_sep_intercalate fun c hc => Or.inr (hcs c hc), List.filter_eq_self.2]
  intro c hc
  simpa using (hcs c hc).1

/-- The rooted paths that `Clean` leaves unchanged are `/` followed by names. -/
theorem clean_eq_self_iff {path : List Char} (h : path.head? = some '/') :
    clean path = path ↔ ∃ cs, (∀ c ∈ cs, IsName c) ∧ path = '/' :: ['/'].intercalate cs := by
  constructor
  · intro hclean
    obtain ⟨cs, hcs, hpath⟩ := clean_rooted h
    exact ⟨cs, hcs, hclean ▸ hpath⟩
  · rintro ⟨cs, hcs, rfl⟩
    exact clean_names hcs

/-! ## `Join` -/

theorem join_cons {e : List Char} (he : e ≠ []) (es : List (List Char)) :
    join (e :: es) = clean (['/'].intercalate (e :: es)) := by
  have : (e :: es).dropWhile (·.isEmpty) = e :: es := by
    simp [List.isEmpty_iff, he]
  rw [join, this]

end Gobpf.Go
