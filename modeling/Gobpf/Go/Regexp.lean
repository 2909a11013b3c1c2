import Mathlib.Computability.Language
import Mathlib.Logic.Function.Basic

/-!
# Go's `regexp`: leftmost-first matching with submatches

Go's `regexp` package documents its matching as leftmost-first: a match begins as early in the
text as possible, and among the matches that begin there it is the one that a backtracking
implementation would find first. `Regex.backtrack` is that backtracking search, written as the
list of every way to match in the order a backtracking implementation tries them: a greedy star
tries one more iteration before stopping, a lazy one stops first. `findStringSubmatch` takes the
first start position with a match and the first match there, as `Regexp.FindStringSubmatch` does.

A star iteration that matches the empty string is dropped, as the visited set of Go's
backtracker drops it. This decides nothing for the patterns here, whose stars all repeat
one-character classes, and bounds every search by the length of the text.

What the search returns is sound for the regular language of the pattern (`lang_sound`), and
what a group captures is in the language of the group's body (`caps_sound`). The first match is
computed piece by piece: the first match of a sequence comes from the first match of its head
that the tail can continue (`head?_seq`), and the first match of `+`, `*`, `*?` and `{k}` over a
class is given in closed form.
-/

open Computability

namespace Gobpf.Go

/-- The syntax of Go's regular expressions that the repository's patterns use. A literal is the
class of one character. -/
inductive Regex where
  /-- The empty pattern. -/
  | empty
  /-- A class of characters, such as `\d`, or `.` without the `s` flag. -/
  | cls (p : Char → Bool)
  /-- `r u`. -/
  | seq (r u : Regex)
  /-- `r*` when `greedy`, else `r*?`. -/
  | star (greedy : Bool) (r : Regex)
  /-- The capture group `(r)` numbered `i`. -/
  | group (i : Nat) (r : Regex)
  /-- `^` without the `m` flag: the beginning of the text. -/
  | beginText
  /-- `$` without the `m` flag: the end of the text. -/
  | endText

/-- A point of a backtracking search: the text still to match and the groups captured so far. -/
structure Thread where
  rest : List Char
  caps : Nat → Option (List Char)

namespace Regex

/-- The literal character `c`. -/
def char (c : Char) : Regex := cls (· == c)

/-- `\d`: an ASCII digit. -/
def digit : Regex := cls Char.isDigit

/-- `.` without the `s` flag: any character but a newline. -/
def dot : Regex := cls (· != '\n')

/-- `r+`. -/
def plus (r : Regex) : Regex := seq r (star true r)

/-- `r{k}`. -/
def rep (r : Regex) : Nat → Regex
  | 0 => empty
  | k + 1 => seq r (rep r k)

/-- The iterations of a star, with `fuel` bounding their number. An iteration must consume
text; a greedy star tries another iteration before stopping, a lazy one after. -/
def starLoop (greedy : Bool) (body : Thread → List Thread) : Nat → Thread → List Thread
  | 0, t => [t]
  | fuel + 1, t =>
    let more := ((body t).filter (·.rest.length < t.rest.length)).flatMap (starLoop greedy body fuel)
    if greedy then more ++ [t] else t :: more

/-- Every way `r` matches at the start of `t.rest`, in the order of a backtracking search, in a
text of length `n`. A group records the text it matched. -/
def backtrack (n : Nat) : Regex → Thread → List Thread
  | empty, t => [t]
  | cls p, t =>
    match t.rest with
    | d :: s => if p d then [{ t with rest := s }] else []
    | [] => []
  | seq r u, t => (backtrack n r t).flatMap (backtrack n u)
  | star g r, t => starLoop g (backtrack n r) t.rest.length t
  | group i r, t =>
    (backtrack n r t).map fun t' =>
      { t' with caps := Function.update t'.caps i (some (t.rest.take (t.rest.length - t'.rest.length))) }
  | beginText, t => if t.rest.length = n then [t] else []
  | endText, t => if t.rest = [] then [t] else []

/-- The leftmost match of `r` in a text of length `n`, trying the start positions from `s` on:
the matched text and the captures of the first match at the first position that has one. -/
def leftmost (r : Regex) (n : Nat) : List Char → Option (List Char × (Nat → Option (List Char)))
  | [] => (backtrack n r ⟨[], fun _ => none⟩).head?.map fun t => ([], t.caps)
  | c :: s =>
    match backtrack n r ⟨c :: s, fun _ => none⟩ with
    | t :: _ => some ((c :: s).take ((c :: s).length - t.rest.length), t.caps)
    | [] => leftmost r n s

end Regex

/-- `re.FindStringSubmatch(s)` for a pattern with `k` groups: the leftmost match followed by the
text of each group, `""` for a group that took no part; `nil` when there is no match. -/
def findStringSubmatch (r : Regex) (k : Nat) (s : List Char) : List (List Char) :=
  match r.leftmost s.length s with
  | some (m, caps) => m :: (List.range k).map fun i => (caps (i + 1)).getD []
  | none => []

/-- `re.MatchString(s)`: the pattern matches somewhere in `s`. -/
def matchString (r : Regex) (s : List Char) : Bool :=
  (r.leftmost s.length s).isSome

/-- `re.ReplaceAllString(src, repl)` for a pattern that is one character class and a `repl` without
`$`: the matches are the characters of the class, one at a time, and each is replaced by `repl`. -/
def replaceAllClass (p : Char → Bool) (repl src : List Char) : List Char :=
  src.flatMap fun c => if p c then repl else [c]

namespace Regex

/-! ## The language of a pattern -/

/-- The strings `r` matches, with the anchors read as the empty string. -/
def lang : Regex → Language Char
  | empty => 1
  | cls p => {w | ∃ d, p d = true ∧ w = [d]}
  | seq r u => r.lang * u.lang
  | star _ r => r.lang∗
  | group _ r => r.lang
  | beginText => 1
  | endText => 1

/-- The strings the groups numbered `i` of `r` can capture. -/
def captures : Regex → Nat → Language Char
  | seq r u, i => r.captures i + u.captures i
  | star _ r, i => r.captures i
  | group j r, i => (if j = i then r.lang else 0) + r.captures i
  | _, _ => 0

section
variable {n : Nat}

/-! ## One equation per constructor -/

@[simp] theorem backtrack_empty (t : Thread) : backtrack n empty t = [t] := rfl

@[simp] theorem backtrack_cls_cons (p : Char → Bool) (d : Char) (s : List Char)
    (caps : Nat → Option (List Char)) :
    backtrack n (cls p) ⟨d :: s, caps⟩ = if p d then [⟨s, caps⟩] else [] := rfl

@[simp] theorem backtrack_cls_nil (p : Char → Bool) (caps : Nat → Option (List Char)) :
    backtrack n (cls p) ⟨[], caps⟩ = [] := rfl

@[simp] theorem backtrack_seq (r u : Regex) (t : Thread) :
    backtrack n (seq r u) t = (backtrack n r t).flatMap (backtrack n u) := rfl

theorem backtrack_star (g : Bool) (r : Regex) (t : Thread) :
    backtrack n (star g r) t = starLoop g (backtrack n r) t.rest.length t := rfl

@[simp] theorem backtrack_group (i : Nat) (r : Regex) (t : Thread) :
    backtrack n (group i r) t = (backtrack n r t).map fun t' =>
      { t' with
        caps := Function.update t'.caps i (some (t.rest.take (t.rest.length - t'.rest.length))) } :=
  rfl

@[simp] theorem backtrack_beginText (t : Thread) :
    backtrack n beginText t = if t.rest.length = n then [t] else [] := rfl

@[simp] theorem backtrack_endText (t : Thread) :
    backtrack n endText t = if t.rest = [] then [t] else [] := rfl

theorem starLoop_succ (g : Bool) (body : Thread → List Thread) (fuel : Nat) (t : Thread) :
    starLoop g body (fuel + 1) t =
      let more := ((body t).filter (·.rest.length < t.rest.length)).flatMap
        (starLoop g body fuel)
      if g then more ++ [t] else t :: more := rfl

/-! ## Soundness: matches are in the language, captures in the groups' languages -/

/-- The induction rule of a star: a reflexive and transitive relation that relates a thread to
every result of one iteration relates it to every result of the loop. -/
theorem starLoop_rel {R : Thread → Thread → Prop} (hrefl : ∀ t, R t t)
    (htrans : ∀ a b c, R a b → R b c → R a c) {body : Thread → List Thread}
    (hbody : ∀ t, ∀ t' ∈ body t, R t t') (g : Bool) :
    ∀ fuel t, ∀ t' ∈ starLoop g body fuel t, R t t' := by
  intro fuel
  induction fuel with
  | zero =>
    intro t t' h
    rw [starLoop, List.mem_singleton] at h
    exact h ▸ hrefl t
  | succ fuel ih =>
    intro t t' h
    have hmore : ∀ t' ∈ ((body t).filter (·.rest.length < t.rest.length)).flatMap
        (starLoop g body fuel), R t t' := by
      intro t' h'
      obtain ⟨t₁, ht₁, h₁⟩ := List.mem_flatMap.1 h'
      exact htrans _ _ _ (hbody t t₁ (List.mem_filter.1 ht₁).1) (ih t₁ t' h₁)
    rw [starLoop_succ] at h
    cases g with
    | false =>
      rcases List.mem_cons.1 h with rfl | h
      · exact hrefl _
      · exact hmore t' h
    | true =>
      rcases List.mem_append.1 h with h | h
      · exact hmore t' h
      · exact List.mem_singleton.1 h ▸ hrefl t

theorem mem_kstar_of_mem {l : Language Char} {w : List Char} (h : w ∈ l) : w ∈ l∗ :=
  Set.mem_of_mem_of_subset h (le_kstar (a := l))

theorem append_mem_kstar {l : Language Char} {a b : List Char} (ha : a ∈ l∗) (hb : b ∈ l∗) :
    a ++ b ∈ l∗ :=
  kstar_mul_kstar l ▸ Language.append_mem_mul ha hb

/-- **Soundness.** Every match consumes a string of the pattern's language. -/
theorem lang_sound (r : Regex) : ∀ t, ∀ t' ∈ backtrack n r t, ∃ w ∈ r.lang, t.rest = w ++ t'.rest := by
  induction r with
  | empty =>
    intro t t' h
    rw [backtrack_empty, List.mem_singleton] at h
    exact ⟨[], Language.nil_mem_one, by rw [h, List.nil_append]⟩
  | cls p =>
    rintro ⟨rest, caps⟩ t' h
    cases rest with
    | nil => simp at h
    | cons d s =>
      rw [backtrack_cls_cons] at h
      split at h
      · rw [List.mem_singleton] at h
        exact ⟨[d], ⟨d, by assumption, rfl⟩, by rw [h]; rfl⟩
      · cases h
  | seq r u ihr ihu =>
    intro t t' h
    obtain ⟨t₁, h₁, h₂⟩ := List.mem_flatMap.1 h
    obtain ⟨w₁, hw₁, e₁⟩ := ihr t t₁ h₁
    obtain ⟨w₂, hw₂, e₂⟩ := ihu t₁ t' h₂
    exact ⟨w₁ ++ w₂, Language.append_mem_mul hw₁ hw₂, by rw [e₁, e₂, List.append_assoc]⟩
  | star g r ih =>
    intro t t' h
    refine starLoop_rel (R := fun t t' => ∃ w ∈ r.lang∗, t.rest = w ++ t'.rest) ?_ ?_ ?_ g _ t t' h
    · exact fun t => ⟨[], Language.nil_mem_kstar _, rfl⟩
    · rintro a b c ⟨w₁, hw₁, e₁⟩ ⟨w₂, hw₂, e₂⟩
      exact ⟨w₁ ++ w₂, append_mem_kstar hw₁ hw₂, by rw [e₁, e₂, List.append_assoc]⟩
    · intro t t' h
      obtain ⟨w, hw, e⟩ := ih t t' h
      exact ⟨w, mem_kstar_of_mem hw, e⟩
  | group i r ih =>
    intro t t' h
    obtain ⟨t₁, h₁, rfl⟩ := List.mem_map.1 (by simpa using h)
    exact ih t t₁ h₁
  | beginText | endText =>
    intro t t' h
    simp only [backtrack_beginText, backtrack_endText] at h
    split at h
    · rw [List.mem_singleton] at h
      exact ⟨[], Language.nil_mem_one, by rw [h, List.nil_append]⟩
    · cases h

/-- The text a group records is the text its body consumed. -/
@[simp] theorem take_length_sub_append (w s : List Char) :
    (w ++ s).take ((w ++ s).length - s.length) = w := by
  rw [List.length_append, Nat.add_sub_cancel]
  exact List.take_left' rfl

/-- **Captures.** A match records for group `i` either what the thread had before or a string
that a group numbered `i` of the pattern can match. -/
theorem caps_sound (r : Regex) (i : Nat) (w : List Char) :
    ∀ t, ∀ t' ∈ backtrack n r t, t'.caps i = some w → t.caps i = some w ∨ w ∈ r.captures i := by
  induction r with
  | empty =>
    intro t t' h hw
    rw [backtrack_empty, List.mem_singleton] at h
    exact .inl (h ▸ hw)
  | cls p =>
    rintro ⟨rest, caps⟩ t' h hw
    cases rest with
    | nil => simp at h
    | cons d s =>
      rw [backtrack_cls_cons] at h
      split at h
      · rw [List.mem_singleton] at h
        subst h
        exact .inl hw
      · cases h
  | seq r u ihr ihu =>
    intro t t' h hw
    obtain ⟨t₁, h₁, h₂⟩ := List.mem_flatMap.1 h
    rcases ihu t₁ t' h₂ hw with hw₁ | hw₁
    · rcases ihr t t₁ h₁ hw₁ with hw₂ | hw₂
      · exact .inl hw₂
      · exact .inr (Or.inl hw₂)
    · exact .inr (Or.inr hw₁)
  | star g r ih =>
    intro t t' h hw
    exact starLoop_rel
      (R := fun t t' => t'.caps i = some w → t.caps i = some w ∨ w ∈ r.captures i)
      (fun _ => .inl) (fun a b c hab hbc hc => (hbc hc).elim hab .inr) ih g _ t t' h hw
  | group j r ih =>
    intro t t' h hw
    obtain ⟨t₁, h₁, rfl⟩ := List.mem_map.1 (by simpa using h)
    dsimp only at hw
    rw [captures, Language.mem_add]
    by_cases hj : i = j
    · subst hj
      obtain ⟨v, hv, e⟩ := lang_sound r t t₁ h₁
      rw [Function.update_self, Option.some.injEq, e, take_length_sub_append] at hw
      exact .inr (.inl (by rw [if_pos rfl]; exact hw ▸ hv))
    · rw [Function.update_of_ne hj] at hw
      rcases ih t t₁ h₁ hw with hw | hw
      · exact .inl hw
      · exact .inr (.inr hw)
  | beginText | endText =>
    intro t t' h hw
    simp only [backtrack_beginText, backtrack_endText] at h
    split at h
    · rw [List.mem_singleton] at h
      exact .inl (h ▸ hw)
    · cases h

@[simp] theorem mem_ite_zero {c : Prop} [Decidable c] {L : Language Char} {w : List Char} :
    w ∈ (if c then L else 0) ↔ c ∧ w ∈ L := by
  split_ifs with h <;> simp [h]

/-- The strings of a star of a class are strings of that class. -/
theorem mem_of_mem_lang_star_cls {g : Bool} {p : Char → Bool} {w : List Char}
    (h : w ∈ (star g (cls p)).lang) : ∀ c ∈ w, p c = true := by
  obtain ⟨L, rfl, hL⟩ := Language.mem_kstar.1 (show w ∈ (cls p).lang∗ from h)
  intro c hc
  obtain ⟨y, hy, hcy⟩ := List.mem_flatten.1 hc
  obtain ⟨d, hd, rfl⟩ := hL y hy
  exact List.mem_singleton.1 hcy ▸ hd

/-- The strings of `+` over a class are the non-empty strings of that class. -/
theorem mem_of_mem_lang_plus_cls {p : Char → Bool} {w : List Char}
    (h : w ∈ (plus (cls p)).lang) : w ≠ [] ∧ ∀ c ∈ w, p c = true := by
  obtain ⟨a, ⟨d, hd, rfl⟩, b, hb, rfl⟩ := Language.mem_mul.1 h
  refine ⟨List.cons_ne_nil _ _, ?_⟩
  rintro c (_ | ⟨_, hc⟩)
  · exact hd
  · exact mem_of_mem_lang_star_cls hb c hc

/-! ## Closed forms over a class -/

section Classes
variable {p : Char → Bool} {caps : Nat → Option (List Char)}

/-- A class does not match at the end of the text or before a character outside it. -/
theorem backtrack_cls_of_stop {s : List Char} (hs : ∀ d ∈ s.head?, p d = false) :
    backtrack n (cls p) ⟨s, caps⟩ = [] := by
  cases s with
  | nil => rfl
  | cons d s => simp [hs d rfl]

@[simp] theorem backtrack_char_self (c : Char) (s : List Char) :
    backtrack n (char c) ⟨c :: s, caps⟩ = [⟨s, caps⟩] := by
  simp [char]

theorem backtrack_char_of_ne {c d : Char} (h : d ≠ c) (s : List Char) :
    backtrack n (char c) ⟨d :: s, caps⟩ = [] := by
  simp [char, h]

theorem head?_cls_cons {d : Char} (hd : p d = true) (s : List Char) :
    (backtrack n (cls p) ⟨d :: s, caps⟩).head? = some ⟨s, caps⟩ := by
  simp [hd]

theorem head?_char_self (c : Char) (s : List Char) :
    (backtrack n (char c) ⟨c :: s, caps⟩).head? = some ⟨s, caps⟩ := by
  simp

theorem head?_beginText {t : Thread} (h : t.rest.length = n) :
    (backtrack n beginText t).head? = some t := by
  simp [h]

theorem head?_endText (caps : Nat → Option (List Char)) :
    (backtrack n endText ⟨[], caps⟩).head? = some ⟨[], caps⟩ := by
  simp

/-- A greedy star over a class first consumes the whole run of the class. -/
theorem starLoop_greedy_cls {w s : List Char} (hw : ∀ c ∈ w, p c = true)
    (hs : ∀ d ∈ s.head?, p d = false) {fuel : Nat} (hf : w.length ≤ fuel) :
    ∃ post, starLoop true (backtrack n (cls p)) fuel ⟨w ++ s, caps⟩ = ⟨s, caps⟩ :: post := by
  induction w generalizing fuel with
  | nil =>
    cases fuel with
    | zero => exact ⟨[], rfl⟩
    | succ fuel => exact ⟨[], by simp [starLoop_succ, backtrack_cls_of_stop hs]⟩
  | cons c w ih =>
    cases fuel with
    | zero => simp at hf
    | succ fuel =>
    obtain ⟨post, hpost⟩ :=
      ih (fun d hd => hw d (List.mem_cons_of_mem c hd)) (by simpa using hf)
    refine ⟨post ++ [⟨c :: w ++ s, caps⟩], ?_⟩
    simp [starLoop_succ, hw c List.mem_cons_self, hpost]

/-- A lazy star over a class tries the positions of a run of the class one after the other. -/
theorem starLoop_lazy_cls {x y : List Char} (hx : ∀ c ∈ x, p c = true) {fuel : Nat}
    (hf : x.length ≤ fuel) :
    starLoop false (backtrack n (cls p)) fuel ⟨x ++ y, caps⟩ =
      (List.range x.length).map (fun k => ⟨x.drop k ++ y, caps⟩) ++
        starLoop false (backtrack n (cls p)) (fuel - x.length) ⟨y, caps⟩ := by
  induction x generalizing fuel with
  | nil => simp
  | cons c x ih =>
    cases fuel with
    | zero => simp at hf
    | succ fuel =>
    have hrest := ih (fun d hd => hx d (List.mem_cons_of_mem c hd))
      (show x.length ≤ fuel by simpa using hf)
    simp [starLoop_succ, hx c List.mem_cons_self, hrest, List.range_succ_eq_map,
      Nat.add_sub_add_right]

/-- A lazy star first stops. -/
theorem starLoop_lazy_head (body : Thread → List Thread) (fuel : Nat) (t : Thread) :
    ∃ post, starLoop false body fuel t = t :: post := by
  cases fuel with
  | zero => exact ⟨[], rfl⟩
  | succ fuel => exact ⟨_, starLoop_succ false body fuel t⟩

/-- `r{k}` over a class consumes exactly `k` characters of the class. -/
theorem backtrack_rep_cls {w s : List Char} (hw : ∀ c ∈ w, p c = true) {k : Nat}
    (hk : w.length = k) : backtrack n (rep (cls p) k) ⟨w ++ s, caps⟩ = [⟨s, caps⟩] := by
  induction w generalizing k with
  | nil => subst hk; rfl
  | cons c w ih =>
    subst hk
    simp [rep, hw c List.mem_cons_self, ih (fun d hd => hw d (List.mem_cons_of_mem c hd)) rfl]

theorem head?_rep_cls {w s : List Char} (hw : ∀ c ∈ w, p c = true) {k : Nat}
    (hk : w.length = k) : (backtrack n (rep (cls p) k) ⟨w ++ s, caps⟩).head? = some ⟨s, caps⟩ := by
  rw [backtrack_rep_cls hw hk]
  rfl

/-- The first match of a greedy star over a class is the whole run. -/
theorem head?_star_cls {w s : List Char} (hw : ∀ c ∈ w, p c = true)
    (hs : ∀ d ∈ s.head?, p d = false) :
    (backtrack n (star true (cls p)) ⟨w ++ s, caps⟩).head? = some ⟨s, caps⟩ := by
  have hloop : ∃ post, starLoop true (backtrack n (cls p)) (w ++ s).length ⟨w ++ s, caps⟩ =
      ⟨s, caps⟩ :: post := starLoop_greedy_cls hw hs (by simp)
  obtain ⟨post, hpost⟩ := hloop
  rw [backtrack_star, hpost]
  rfl

/-- The first match of `+` over a class is the whole run, which must not be empty. -/
theorem head?_plus_cls {w s : List Char} (hne : w ≠ []) (hw : ∀ c ∈ w, p c = true)
    (hs : ∀ d ∈ s.head?, p d = false) :
    (backtrack n (plus (cls p)) ⟨w ++ s, caps⟩).head? = some ⟨s, caps⟩ := by
  obtain ⟨c, w, rfl⟩ := List.exists_cons_of_ne_nil hne
  have hstar : (backtrack n (star true (cls p)) ⟨w ++ s, caps⟩).head? = some ⟨s, caps⟩ :=
    head?_star_cls (fun d hd => hw d (List.mem_cons_of_mem c hd)) hs
  simpa [plus, hw c List.mem_cons_self] using hstar

end Classes

/-! ## The first match -/

section First
variable {r u : Regex} {t t₁ T : Thread}

/-- **The first match of a sequence**: the first match of the tail from the first match of the
head that the tail can continue. -/
theorem head?_seq {pre post : List Thread} (h : backtrack n r t = pre ++ t₁ :: post)
    (hpre : ∀ z ∈ pre, backtrack n u z = []) (hu : (backtrack n u t₁).head? = some T) :
    (backtrack n (seq r u) t).head? = some T := by
  have hnil : pre.flatMap (backtrack n u) = [] := List.flatMap_eq_nil_iff.2 hpre
  rw [backtrack_seq, h, List.flatMap_append, hnil, List.nil_append, List.flatMap_cons,
    List.head?_append, hu]
  rfl

theorem head?_seq_of_head? (h : (backtrack n r t).head? = some t₁)
    (hu : (backtrack n u t₁).head? = some T) : (backtrack n (seq r u) t).head? = some T := by
  obtain ⟨post, hpost⟩ := List.head?_eq_some_iff.1 h
  exact head?_seq (hpost.trans (List.nil_append _).symm) (fun _ h => nomatch h) hu

/-- The first match of a group records the text of the first match of its body. -/
theorem head?_group {i : Nat} {x y : List Char} {caps' : Nat → Option (List Char)}
    (hx : t.rest = x ++ y) (h : (backtrack n r t).head? = some ⟨y, caps'⟩) :
    (backtrack n (group i r) t).head? = some ⟨y, Function.update caps' i (some x)⟩ := by
  rw [backtrack_group, List.head?_map, h, hx]
  simp

/-- **A lazy group.** `(c*?)` followed by `u` stops at the first position of a run of the class
`c` where `u` matches. -/
theorem head?_seq_group_lazy {p : Char → Bool} {i : Nat} {x y : List Char}
    {caps : Nat → Option (List Char)} (hx : ∀ c ∈ x, p c = true)
    (hfail : ∀ k < x.length, ∀ caps', backtrack n u ⟨x.drop k ++ y, caps'⟩ = [])
    (hu : (backtrack n u ⟨y, Function.update caps i (some x)⟩).head? = some T) :
    (backtrack n (seq (group i (star false (cls p))) u) ⟨x ++ y, caps⟩).head? = some T := by
  obtain ⟨post, hpost⟩ := starLoop_lazy_head (backtrack n (cls p)) ((x ++ y).length - x.length)
    ⟨y, caps⟩
  have hloop : starLoop false (backtrack n (cls p)) (x ++ y).length ⟨x ++ y, caps⟩ =
      (List.range x.length).map (fun k => ⟨x.drop k ++ y, caps⟩) ++ ⟨y, caps⟩ :: post := by
    rw [starLoop_lazy_cls hx (by simp), hpost]
  have hlist : backtrack n (group i (star false (cls p))) ⟨x ++ y, caps⟩ =
      ((List.range x.length).map fun k => (⟨x.drop k ++ y, caps⟩ : Thread)).map
        (fun t' => { t' with caps := Function.update t'.caps i (some ((x ++ y).take
          ((x ++ y).length - t'.rest.length))) }) ++
      ⟨y, Function.update caps i (some x)⟩ :: post.map
        (fun t' => { t' with caps := Function.update t'.caps i (some ((x ++ y).take
          ((x ++ y).length - t'.rest.length))) }) := by
    rw [backtrack_group, backtrack_star, hloop, List.map_append, List.map_cons,
      take_length_sub_append]
  refine head?_seq hlist ?_ hu
  intro z hz
  obtain ⟨z', hz', rfl⟩ := List.mem_map.1 hz
  obtain ⟨k, hk, rfl⟩ := List.mem_map.1 hz'
  exact hfail k (List.mem_range.1 hk) _

end First

/-! ## Literals and a greedy prefix -/

/-- The literal string `L` followed by `u`, as a pattern concatenates the characters of a
literal. -/
def lit : List Char → Regex → Regex
  | [], u => u
  | c :: cs, u => seq (char c) (lit cs u)

section Greedy
variable {u : Regex} {T : Thread} {caps : Nat → Option (List Char)}

@[simp] theorem backtrack_lit_append (L s : List Char) :
    backtrack n (lit L u) ⟨L ++ s, caps⟩ = backtrack n u ⟨s, caps⟩ := by
  induction L with
  | nil => rfl
  | cons c L ih => simp [lit, ih]

/-- A literal does not match a text that does not start with it. -/
theorem backtrack_lit_eq_nil :
    ∀ {L s : List Char}, ¬ L <+: s → backtrack n (lit L u) ⟨s, caps⟩ = []
  | [], s, h => absurd (List.nil_prefix) h
  | c :: L, [], _ => rfl
  | c :: L, d :: s, h => by
    by_cases hdc : d = c
    · subst hdc
      have hL : ¬ L <+: s := fun hp => h (List.cons_prefix_cons.2 ⟨rfl, hp⟩)
      simp [lit, backtrack_lit_eq_nil hL]
    · simp [lit, backtrack_char_of_ne hdc]

variable {p : Char → Bool}

/-- **The threads of a greedy star over a class**, in the order it tries them: from the whole run
of the class down to none of it. -/
theorem starLoop_greedy_cls_tails {w s : List Char} (hw : ∀ c ∈ w, p c = true)
    (hs : ∀ d ∈ s.head?, p d = false) {fuel : Nat} (hf : w.length ≤ fuel) :
    starLoop true (backtrack n (cls p)) fuel ⟨w ++ s, caps⟩ =
      w.tails.reverse.map fun z => ⟨z ++ s, caps⟩ := by
  induction w generalizing fuel with
  | nil =>
    cases fuel with
    | zero => rfl
    | succ fuel => simp [starLoop_succ, backtrack_cls_of_stop hs]
  | cons c w ih =>
    cases fuel with
    | zero => simp at hf
    | succ fuel =>
    have hrest := ih (fun d hd => hw d (List.mem_cons_of_mem c hd))
      (show w.length ≤ fuel by simpa using hf)
    simp [starLoop_succ, hw c List.mem_cons_self, hrest]

/-- The threads of a greedy star over a class on `x ++ y ++ s` begin with those that consume more
than `x`, then the one that consumes `x` exactly. -/
theorem starLoop_greedy_cls_append {x y s : List Char} (hx : ∀ c ∈ x, p c = true)
    (hy : ∀ c ∈ y, p c = true) (hs : ∀ d ∈ s.head?, p d = false) {fuel : Nat}
    (hf : (x ++ y).length ≤ fuel) :
    ∃ post, starLoop true (backtrack n (cls p)) fuel ⟨x ++ (y ++ s), caps⟩ =
      (y.tails.tail.reverse.map fun z => ⟨z ++ s, caps⟩) ++ ⟨y ++ s, caps⟩ :: post := by
  induction x generalizing fuel with
  | nil =>
    have htails : y.tails = y :: y.tails.tail := by cases y <;> rfl
    refine ⟨[], ?_⟩
    rw [List.nil_append, starLoop_greedy_cls_tails hy hs (by simpa using hf), htails]
    simp
  | cons c x ih =>
    cases fuel with
    | zero => simp at hf
    | succ fuel =>
    obtain ⟨post, hpost⟩ := ih (fun d hd => hx d (List.mem_cons_of_mem c hd))
      (show (x ++ y).length ≤ fuel by simp at hf ⊢; omega)
    refine ⟨post ++ [⟨c :: x ++ (y ++ s), caps⟩], ?_⟩
    simp [starLoop_succ, hx c List.mem_cons_self, hpost]

/-- **A greedy prefix.** A greedy star over a class followed by `u` takes the longest run of the
class after which `u` matches: on `x ++ (y ++ s)`, when `u` fails after every longer run and
matches after `x`, the first match is that of `u` on `y ++ s`. -/
theorem head?_seq_greedy_cls {x y s : List Char} (hx : ∀ c ∈ x, p c = true)
    (hy : ∀ c ∈ y, p c = true) (hs : ∀ d ∈ s.head?, p d = false)
    (hfail : ∀ z ∈ y.tails.tail, backtrack n u ⟨z ++ s, caps⟩ = [])
    (hu : (backtrack n u ⟨y ++ s, caps⟩).head? = some T) :
    (backtrack n (seq (star true (cls p)) u) ⟨x ++ (y ++ s), caps⟩).head? = some T := by
  obtain ⟨post, hpost⟩ := @starLoop_greedy_cls_append n caps p x y s hx hy hs _
    (show (x ++ y).length ≤ (x ++ (y ++ s)).length by simp)
  refine head?_seq (by rw [backtrack_star]; exact hpost) ?_ hu
  intro t ht
  obtain ⟨z, hz, rfl⟩ := List.mem_map.1 ht
  exact hfail z (List.mem_reverse.1 hz)

end Greedy


/-! ## The leftmost match -/

/-- A match at the first position is the leftmost match. -/
theorem leftmost_of_head? {r : Regex} {s : List Char} {T : Thread}
    (h : (backtrack n r ⟨s, fun _ => none⟩).head? = some T) :
    r.leftmost n s = some (s.take (s.length - T.rest.length), T.caps) := by
  cases s with
  | nil => simp [leftmost, h]
  | cons c s =>
    obtain ⟨post, hpost⟩ := List.head?_eq_some_iff.1 h
    simp [leftmost, hpost]

/-- The leftmost match is a match at some position, from no captures. -/
theorem leftmost_sound {r : Regex} {m : List Char} {caps : Nat → Option (List Char)} :
    ∀ {s : List Char}, r.leftmost n s = some (m, caps) →
      ∃ s' T, T ∈ backtrack n r ⟨s', fun _ => none⟩ ∧ T.caps = caps := by
  intro s
  induction s with
  | nil =>
    intro h
    simp only [leftmost, Option.map_eq_some_iff, Prod.mk.injEq] at h
    obtain ⟨T, hT, -, rfl⟩ := h
    exact ⟨[], T, List.mem_of_mem_head? hT, rfl⟩
  | cons c s ih =>
    intro h
    simp only [leftmost] at h
    split at h
    · rename_i T post hT
      simp only [Option.some.injEq, Prod.mk.injEq] at h
      exact ⟨c :: s, T, hT ▸ List.mem_cons_self, h.2⟩
    · exact ih h

end

/-- `FindStringSubmatch` at a text whose first position has a match. -/
theorem findStringSubmatch_of_head? {r : Regex} {k : Nat} {s : List Char} {T : Thread}
    (h : (backtrack s.length r ⟨s, fun _ => none⟩).head? = some T) :
    findStringSubmatch r k s =
      s.take (s.length - T.rest.length) :: (List.range k).map fun i => (T.caps (i + 1)).getD [] := by
  simp [findStringSubmatch, leftmost_of_head? h]

/-- **What `FindStringSubmatch` captures.** Each submatch it returns is `""` or a string that a
group of that number can match. -/
theorem findStringSubmatch_captures {r : Regex} {k : Nat} {s m : List Char}
    {parts : List (List Char)} (h : findStringSubmatch r k s = m :: parts) :
    ∃ caps : Nat → Option (List Char), (∀ i w, caps i = some w → w ∈ r.captures i) ∧
      parts = (List.range k).map fun i => (caps (i + 1)).getD [] := by
  unfold findStringSubmatch at h
  split at h
  · rename_i m' caps hl
    obtain ⟨s', T, hT, rfl⟩ := leftmost_sound hl
    refine ⟨T.caps, fun i w hw => ?_, (List.cons.inj h).2.symm⟩
    rcases caps_sound r i w _ T hT hw with h0 | h0
    · cases h0
    · exact h0
  · cases h

end Regex

end Gobpf.Go
