import Mathlib.Data.List.Basic

/-!
# `fmt.Sscanf` with `%s` verbs

`fmt.Sscanf(str, "%s %s … %s", …)` reads one word per verb. A `%s` discards the spaces before its
word and fails at a newline (`unexpected newline`) or at the end of the input (`unexpected EOF`);
its word runs up to the next space or newline. A space of the format needs a space of the input
or its end, but not a newline, and discards the spaces that follow. The spaces are those of the
scanner's `space` table (`isSpace`); a newline is one of them, but `Sscanf` never discards it.

What a text of words, each separated from the next by one space, is read back as those words
(`sscanfWords_intercalate`), whatever follows the last word after a space, a newline or nothing.
-/

namespace Gobpf.Go

/-- The errors of `Sscanf` with these formats. -/
inductive ScanError where
  /-- `unexpected EOF`: a verb found no input. -/
  | unexpectedEOF
  /-- `unexpected newline`: a verb found a newline before its word. -/
  | unexpectedNewline
  /-- `newline in input does not match format`: a space of the format met a newline. -/
  | newlineInInput
  /-- `expected space in input to match format`. -/
  | expectedSpace
  deriving DecidableEq, Repr

/-- `isSpace` of the scanner: the ranges of its `space` table. -/
def isSpace (c : Char) : Bool :=
  (0x09 ≤ c.toNat && c.toNat ≤ 0x0d) || c.toNat == 0x20 || c.toNat == 0x85 ||
    c.toNat == 0xa0 || c.toNat == 0x1680 || (0x2000 ≤ c.toNat && c.toNat ≤ 0x200a) ||
    c.toNat == 0x2028 || c.toNat == 0x2029 || c.toNat == 0x202f || c.toNat == 0x205f ||
    c.toNat == 0x3000

/-- `SkipSpace`, with newlines not spaces (`nlIsSpace` false): spaces are discarded, and a newline
is an error. -/
def skipSpace : List Char → Except ScanError (List Char)
  | [] => .ok []
  | c :: s =>
    if c = '\n' then .error .unexpectedNewline
    else if isSpace c then skipSpace s
    else .ok (c :: s)

/-- The verb `%s` (`convertString`): `SkipSpace`, `notEOF`, then the word up to the next space,
and the input after it. -/
def scanString (s : List Char) : Except ScanError (List Char × List Char) := do
  let s ← skipSpace s
  if s = [] then throw .unexpectedEOF
  return (s.takeWhile (!isSpace ·), s.dropWhile (!isSpace ·))

/-- A space of the format (`advance`): the input must go on with a space other than a newline, or
end; the spaces other than newlines are then discarded. -/
def scanSpace : List Char → Except ScanError (List Char)
  | [] => .ok []
  | c :: s =>
    if !isSpace c then .error .expectedSpace
    else if c = '\n' then .error .newlineInInput
    else .ok ((c :: s).dropWhile fun d => isSpace d && d != '\n')

/-- `Sscanf(str, "%s %s … %s", …)` with `k` verbs, each but the last followed by one space: the
words read, in the order of the verbs. -/
def sscanfWords : Nat → List Char → Except ScanError (List (List Char))
  | 0, _ => .ok []
  | 1, s => do
    let (u, _) ← scanString s
    return [u]
  | k + 2, s => do
    let (u, s) ← scanString s
    let s ← scanSpace s
    let us ← sscanfWords (k + 1) s
    return u :: us

/-! ## Reading words back -/

section Words
variable {w rest : List Char}

theorem isSpace_newline : isSpace '\n' = true := by decide

theorem isSpace_space : isSpace ' ' = true := by decide

/-- A word is read up to the space or the end that follows it. -/
theorem scanString_append (hne : w ≠ []) (hw : ∀ c ∈ w, isSpace c = false)
    (hrest : ∀ c ∈ rest.head?, isSpace c = true) : scanString (w ++ rest) = .ok (w, rest) := by
  obtain ⟨c, w', rfl⟩ := List.exists_cons_of_ne_nil hne
  have hc : isSpace c = false := hw c List.mem_cons_self
  have hcn : c ≠ '\n' := fun h => by simp [h, isSpace_newline] at hc
  have htake : (w' ++ rest).takeWhile (!isSpace ·) = w' ++ rest.takeWhile (!isSpace ·) :=
    List.takeWhile_append_of_pos fun d hd => by simp [hw d (List.mem_cons_of_mem c hd)]
  have hdrop : (w' ++ rest).dropWhile (!isSpace ·) = rest.dropWhile (!isSpace ·) :=
    List.dropWhile_append_of_pos fun d hd => by simp [hw d (List.mem_cons_of_mem c hd)]
  have hstop : rest.takeWhile (!isSpace ·) = [] ∧ rest.dropWhile (!isSpace ·) = rest := by
    cases rest with
    | nil => simp
    | cons d rest => simp [hrest d rfl]
  simp [scanString, skipSpace, hcn, hc, bind, Except.bind, pure, Except.pure, htake, hdrop,
    hstop.1, hstop.2]

/-- One space before a word is discarded. -/
theorem scanSpace_cons (hne : w ≠ []) (hw : ∀ c ∈ w, isSpace c = false) :
    scanSpace (' ' :: (w ++ rest)) = .ok (w ++ rest) := by
  obtain ⟨c, w', rfl⟩ := List.exists_cons_of_ne_nil hne
  simp [scanSpace, isSpace_space, hw c List.mem_cons_self]

end Words

/-- **The words of a text are read back.** `k` words, none empty and with no space in them,
written with one space between two of them and followed by a space, a newline or nothing, are what
`Sscanf` with `k` verbs reads. -/
theorem sscanfWords_intercalate {rest : List Char} (hrest : ∀ c ∈ rest.head?, isSpace c = true) :
    ∀ {ws : List (List Char)}, (∀ w ∈ ws, w ≠ [] ∧ ∀ c ∈ w, isSpace c = false) →
      sscanfWords ws.length ([' '].intercalate ws ++ rest) = .ok ws
  | [], _ => rfl
  | [w], hws => by
    obtain ⟨hne, hw⟩ := hws w List.mem_cons_self
    simp [sscanfWords, scanString_append hne hw hrest, bind, Except.bind, pure, Except.pure]
  | w :: w' :: ws, hws => by
    obtain ⟨hne, hw⟩ := hws w List.mem_cons_self
    obtain ⟨hne', hw'⟩ := hws w' (List.mem_cons_of_mem _ List.mem_cons_self)
    have ih := @sscanfWords_intercalate rest hrest (w' :: ws)
      fun v hv => hws v (List.mem_cons_of_mem _ hv)
    have hsecond : [' '].intercalate (w' :: ws) ++ rest = w' ++ ([' '].intercalate (w' :: ws) ++
        rest).drop w'.length := by
      cases ws <;> simp [List.intercalate_cons_cons]
    have hword : scanString (w ++ ' ' :: ([' '].intercalate (w' :: ws) ++ rest)) =
        .ok (w, ' ' :: ([' '].intercalate (w' :: ws) ++ rest)) :=
      scanString_append hne hw (by simp [isSpace_space])
    have hspace : scanSpace (' ' :: ([' '].intercalate (w' :: ws) ++ rest)) =
        .ok ([' '].intercalate (w' :: ws) ++ rest) := by
      rw [hsecond]
      exact scanSpace_cons hne' hw'
    simp only [List.length_cons] at ih ⊢
    simp [sscanfWords, hword, hspace, ih, bind, Except.bind, pure, Except.pure]

end Gobpf.Go
