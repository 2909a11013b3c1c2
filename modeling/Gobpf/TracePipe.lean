import Gobpf.Go.Regexp
import Gobpf.Go.Strings

/-!
# `tracepipe`: the lines of `trace_pipe`

`parseTraceLine` matches a line of `/sys/kernel/debug/tracing/trace_pipe` against
`traceLineRegexp` and reads its seven groups into a `TraceEvent`; `ReadLine` takes the next line
from the pipe and parses it.

A line as the kernel writes it (`traceLine`: the task padded to 16 characters, the pid, the CPU,
the flags, the timestamp, the function and the message) is read back field by field
(`parseTraceLine_traceLine`). The pattern is unanchored, but its first match already starts at
the first column (`traceLineRegexp_head?`); the lazy function group stops at the first `": "`,
which is the one after the function when the function holds none (`colonSpace_fail`), so a
message may hold `": "` itself.

The goroutine of `Channel` calls `ReadLine` once a turn until `Close` closes `stop`, and sends each
event or error it returns. It sends every complete line of the pipe once, in order, and drops the
piece it reads at `io.EOF` (`channel_lines`).
-/

namespace Gobpf.TracePipe

open Gobpf.Go Regex

/-- `traceLineRegexp`, `(.{16})-(\d+) +\[(\d{3})\] (.{4}) +(\d+\.\d+)\: (.*?)\: (.*)`. -/
def traceLineRegexp : Regex :=
  seq (group 1 (rep dot 16)) (seq (char '-') (seq (group 2 (plus digit))
    (seq (plus (char ' ')) (seq (char '[') (seq (group 3 (rep digit 3)) (seq (char ']')
    (seq (char ' ') (seq (group 4 (rep dot 4)) (seq (plus (char ' '))
    (seq (group 5 (seq (plus digit) (seq (char '.') (plus digit))))
    (seq (char ':') (seq (char ' ') (seq (group 6 (star false dot))
    (seq (char ':') (seq (char ' ') (group 7 (star true dot)))))))))))))))))

/-- `TraceEvent`: the raw line and the text of each of its fields. -/
structure TraceEvent where
  raw : List Char
  task : List Char
  pid : List Char
  cpu : List Char
  flags : List Char
  timestamp : List Char
  function : List Char
  message : List Char
  deriving DecidableEq, Repr

/-- The errors of `parseTraceLine` and `ReadLine`. -/
inductive TraceError where
  /-- `received unexpected input %q`. -/
  | unexpectedInput (raw : List Char)
  /-- `io.EOF` from `ReadString`: the pipe holds no newline. -/
  | eof
  deriving DecidableEq, Repr

/-- `parseTraceLine`: the check that `FindStringSubmatch` returned eight strings is the match on
a list of eight; the task is trimmed of the spaces that pad it. -/
def parseTraceLine (raw : List Char) : Except TraceError TraceEvent :=
  match findStringSubmatch traceLineRegexp 7 raw with
  | [_, task, pid, cpu, flags, timestamp, function, message] =>
    .ok { raw := raw, task := trim task [' '], pid := pid, cpu := cpu, flags := flags,
          timestamp := timestamp, function := function, message := message }
  | _ => .error (.unexpectedInput raw)

/-- `ReadLine` on what the pipe holds, with what it leaves there: `ReadString('\n')` takes
everything up to and with the first newline, which is parsed; without a newline it takes
everything and returns `io.EOF`. -/
def readLine (pipe : List Char) : Except TraceError TraceEvent × List Char :=
  if '\n' ∈ pipe then
    (parseTraceLine (pipe.takeWhile (· != '\n') ++ ['\n']), (pipe.dropWhile (· != '\n')).tail)
  else (.error .eof, [])

/-- A line of `trace_pipe` as the kernel writes it: the task padded on the left to 16 characters,
`-`, the pid, `s₁` spaces, the CPU in brackets, a space, the flags, `s₂` spaces, the timestamp
`ts₁.ts₂`, `": "`, the function, `": "`, the message and a newline. -/
def traceLine (task pid : List Char) (s₁ : Nat) (cpu flags : List Char) (s₂ : Nat)
    (ts₁ ts₂ function message : List Char) : List Char :=
  List.leftpad 16 ' ' task ++ '-' :: (pid ++ (List.replicate s₁ ' ' ++ '[' :: (cpu ++ ']' ::
    ' ' :: (flags ++ (List.replicate s₂ ' ' ++ (ts₁ ++ '.' :: (ts₂ ++ ':' :: ' ' ::
    (function ++ ':' :: ' ' :: (message ++ ['\n'])))))))))

/-! ## The lazy function group -/

/-- `\: ` does not match inside a non-empty string without `": "` that is followed by `": "`. -/
theorem colonSpace_fail {n : Nat} (r : Regex) {v z : List Char} (hv : v ≠ [])
    (hinf : ¬ [':', ' '] <:+: v) (caps : Nat → Option (List Char)) :
    backtrack n (seq (char ':') (seq (char ' ') r)) ⟨v ++ ':' :: ' ' :: z, caps⟩ = [] := by
  obtain ⟨d, v, rfl⟩ := List.exists_cons_of_ne_nil hv
  by_cases hd : d = ':'
  · subst hd
    cases v with
    | nil => simp [backtrack_char_of_ne (show ':' ≠ ' ' by decide)]
    | cons e v =>
      have he : e ≠ ' ' := by
        rintro rfl
        exact hinf ⟨[], v, rfl⟩
      simp [backtrack_char_of_ne he]
  · simp [backtrack_char_of_ne hd]

/-! ## The first match of a line -/

section Line
variable {t p c f ts₁ ts₂ fn m : List Char} {s₁ s₂ : Nat}

/-- The first match of `traceLineRegexp` at the start of a line as the kernel writes it takes
each field as its group. -/
theorem traceLineRegexp_head? {n : Nat} (ht : t.length ≤ 16) (htn : '\n' ∉ t)
    (hp : p ≠ [] ∧ ∀ d ∈ p, d.isDigit = true) (hc : c.length = 3 ∧ ∀ d ∈ c, d.isDigit = true)
    (hf : f.length = 4 ∧ '\n' ∉ f) (hts₁ : ts₁ ≠ [] ∧ ∀ d ∈ ts₁, d.isDigit = true)
    (hts₂ : ts₂ ≠ [] ∧ ∀ d ∈ ts₂, d.isDigit = true) (hfn : ¬ [':', ' '] <:+: fn ∧ '\n' ∉ fn)
    (hm : '\n' ∉ m) (hs₁ : 0 < s₁) (hs₂ : 0 < s₂) :
    (backtrack n traceLineRegexp ⟨traceLine t p s₁ c f s₂ ts₁ ts₂ fn m, fun _ => none⟩).head? =
      some ⟨['\n'], Function.update (Function.update (Function.update (Function.update
        (Function.update (Function.update (Function.update (fun _ => none)
        1 (some (List.leftpad 16 ' ' t))) 2 (some p)) 3 (some c)) 4 (some f))
        5 (some (ts₁ ++ '.' :: ts₂))) 6 (some fn)) 7 (some m)⟩ := by
  have hnl : ∀ {w : List Char}, '\n' ∉ w → ∀ d ∈ w, (d != '\n') = true := fun hw d hd => by
    simpa using ne_of_mem_of_not_mem hd hw
  have hpad : ∀ d ∈ List.leftpad 16 ' ' t, (d != '\n') = true := by
    intro d hd
    simp only [List.leftpad, List.mem_append, List.mem_replicate] at hd
    rcases hd with ⟨-, rfl⟩ | hd
    · decide
    · exact hnl htn d hd
  have hsp : ∀ {k : Nat}, ∀ d ∈ List.replicate k ' ', (d == ' ') = true := by
    intro k d hd
    rw [(List.mem_replicate.1 hd).2]
    rfl
  have hlen : (List.leftpad 16 ' ' t).length = 16 := by
    simp only [List.leftpad, List.length_append, List.length_replicate]
    omega
  have hdigit : ∀ {w z : List Char}, w ≠ [] → (∀ d ∈ w, d.isDigit = true) →
      ∀ d ∈ (w ++ z).head?, (d == ' ') = false := by
    intro w z hw hd d hdw
    rw [List.head?_append_of_ne_nil _ hw] at hdw
    have hdig := hd d (List.mem_of_mem_head? hdw)
    cases h : d == ' '
    · rfl
    · rw [beq_iff_eq.1 h] at hdig
      cases hdig
  unfold traceLine traceLineRegexp
  refine head?_seq_of_head? (head?_group rfl (head?_rep_cls hpad hlen)) ?_
  refine head?_seq_of_head? (head?_char_self '-' _) ?_
  refine head?_seq_of_head? (head?_group rfl (head?_plus_cls hp.1 hp.2
    (by obtain ⟨k, rfl⟩ := Nat.exists_eq_add_of_lt hs₁; simp [List.replicate_succ]))) ?_
  refine head?_seq_of_head? (head?_plus_cls (List.ne_nil_of_length_pos (by simpa using hs₁))
    hsp (by simp)) ?_
  refine head?_seq_of_head? (head?_char_self '[' _) ?_
  refine head?_seq_of_head? (head?_group rfl (head?_rep_cls hc.2 hc.1)) ?_
  refine head?_seq_of_head? (head?_char_self ']' _) ?_
  refine head?_seq_of_head? (head?_char_self ' ' _) ?_
  refine head?_seq_of_head? (head?_group rfl (head?_rep_cls (hnl hf.2) hf.1)) ?_
  refine head?_seq_of_head? (head?_plus_cls (List.ne_nil_of_length_pos (by simpa using hs₂))
    hsp (hdigit hts₁.1 hts₁.2)) ?_
  refine head?_seq_of_head? (head?_group (x := ts₁ ++ '.' :: ts₂) (by simp)
    (head?_seq_of_head? (head?_plus_cls hts₁.1 hts₁.2 (by simp))
      (head?_seq_of_head? (head?_char_self '.' _)
        (head?_plus_cls hts₂.1 hts₂.2 (by simp))))) ?_
  refine head?_seq_of_head? (head?_char_self ':' _) ?_
  refine head?_seq_of_head? (head?_char_self ' ' _) ?_
  refine head?_seq_group_lazy (hnl hfn.2) ?_ ?_
  · intro k hk caps'
    refine colonSpace_fail _ ?_ ?_ caps'
    · simpa using hk
    · exact fun h => hfn.1 (h.trans (List.drop_suffix k fn).isInfix)
  refine head?_seq_of_head? (head?_char_self ':' _) ?_
  refine head?_seq_of_head? (head?_char_self ' ' _) ?_
  exact head?_group rfl (head?_star_cls (hnl hm) (by simp))

/-- **`parseTraceLine` reads back every field of a line as the kernel writes it**, for a task of
at most 16 characters without surrounding spaces, decimal pid, CPU and timestamp, flags of four
characters, a function name without `": "`, and no newline in any field. -/
theorem parseTraceLine_traceLine (ht : t.length ≤ 16) (hth : ∀ d ∈ t.head?, d ≠ ' ')
    (htl : ∀ d ∈ t.getLast?, d ≠ ' ') (htn : '\n' ∉ t) (hp : p ≠ [] ∧ ∀ d ∈ p, d.isDigit = true)
    (hc : c.length = 3 ∧ ∀ d ∈ c, d.isDigit = true) (hf : f.length = 4 ∧ '\n' ∉ f)
    (hts₁ : ts₁ ≠ [] ∧ ∀ d ∈ ts₁, d.isDigit = true) (hts₂ : ts₂ ≠ [] ∧ ∀ d ∈ ts₂, d.isDigit = true)
    (hfn : ¬ [':', ' '] <:+: fn ∧ '\n' ∉ fn) (hm : '\n' ∉ m) (hs₁ : 0 < s₁) (hs₂ : 0 < s₂) :
    parseTraceLine (traceLine t p s₁ c f s₂ ts₁ ts₂ fn m) =
      .ok ⟨traceLine t p s₁ c f s₂ ts₁ ts₂ fn m, t, p, c, f, ts₁ ++ '.' :: ts₂, fn, m⟩ := by
  have hparts := findStringSubmatch_of_head? (k := 7)
    (traceLineRegexp_head? ht htn hp hc hf hts₁ hts₂ hfn hm hs₁ hs₂)
  simp only [List.range_succ, List.range_zero, List.map_cons, List.map_nil, List.nil_append,
    List.cons_append, Function.update_apply, Nat.reduceEqDiff, reduceIte, Option.getD_some]
    at hparts
  rw [parseTraceLine, hparts]
  simp only [List.leftpad, trim_replicate_append _ hth htl]

/-- A line of a task `sh` whose message holds `": "`. -/
theorem parseTraceLine_traceLine_sh :
    parseTraceLine (traceLine ['s', 'h'] ['7'] 1 ['0', '0', '0'] ['d', '.', '.', '.'] 2 ['1']
      ['5'] ['f'] ['a', ':', ' ', 'b']) =
    .ok ⟨traceLine ['s', 'h'] ['7'] 1 ['0', '0', '0'] ['d', '.', '.', '.'] 2 ['1'] ['5'] ['f']
      ['a', ':', ' ', 'b'], ['s', 'h'], ['7'], ['0', '0', '0'], ['d', '.', '.', '.'],
      ['1', '.', '5'], ['f'], ['a', ':', ' ', 'b']⟩ :=
  -- the bounded quantifiers over characters go through simp: with all of Mathlib imported,
  -- decide would pick the instance that enumerates every character
  parseTraceLine_traceLine (by decide) (by simp) (by simp) (by decide) (by simp)
    (by simp) (by decide) (by simp) (by simp) (by decide) (by decide) (by decide)
    (by decide)

end Line

/-! ## `Channel` -/

/-- What the goroutine of `Channel` sends: an event on the events channel, or an error on the
errors channel. -/
inductive Sent where
  | event (ev : TraceEvent)
  | error (err : TraceError)
  deriving DecidableEq, Repr

/-- What the goroutine sends for a result of `ReadLine` other than `io.EOF`. -/
def Sent.ofResult : Except TraceError TraceEvent → Sent
  | .ok ev => .event ev
  | .error err => .error err

/-- The goroutine of `Channel`, for the `turns` turns of its loop it makes before it finds `stop`
closed, on what the pipe holds: what it sends, in order. A turn that meets `io.EOF` sends nothing
and drops what `ReadString` read. -/
def channel : Nat → List Char → List Sent
  | 0, _ => []
  | n + 1, pipe =>
    match readLine pipe with
    | (.error .eof, pipe) => channel n pipe
    | (.error err, pipe) => .error err :: channel n pipe
    | (.ok ev, pipe) => .event ev :: channel n pipe

section Lines

variable {l rest : List Char}

theorem parseTraceLine_ne_eof (raw : List Char) : parseTraceLine raw ≠ .error .eof := by
  unfold parseTraceLine
  split <;> simp

/-- `ReadLine` takes one line, up to and with its newline. -/
theorem readLine_append (hl : '\n' ∉ l) :
    readLine (l ++ '\n' :: rest) = (parseTraceLine (l ++ ['\n']), rest) := by
  have htake : (l ++ '\n' :: rest).takeWhile (· != '\n') = l := by
    rw [List.takeWhile_append_of_pos fun c hc => by simpa using ne_of_mem_of_not_mem hc hl]
    simp
  have hdrop : (l ++ '\n' :: rest).dropWhile (· != '\n') = '\n' :: rest := by
    rw [List.dropWhile_append_of_pos fun c hc => by simpa using ne_of_mem_of_not_mem hc hl]
    simp
  simp [readLine, htake, hdrop]

theorem channel_nil : ∀ n, channel n [] = []
  | 0 => rfl
  | n + 1 => by simp [channel, readLine, channel_nil n]

/-- Without a newline, every turn meets `io.EOF`, and nothing is sent. -/
theorem channel_of_not_mem (hrest : '\n' ∉ rest) : ∀ n, channel n rest = []
  | 0 => rfl
  | n + 1 => by simp [channel, readLine, hrest, channel_nil n]

/-- **`Channel` sends each complete line once, in order**: for a pipe holding lines, each ended by
a newline, then a last piece without one, a goroutine that makes a turn for each line (and any
more) sends the result of `parseTraceLine` for every line, the events on the events channel and
the errors on the errors channel, and nothing else. The last piece is read at `io.EOF` and
dropped. -/
theorem channel_lines (hrest : '\n' ∉ rest) :
    ∀ (lines : List (List Char)), (∀ l ∈ lines, '\n' ∉ l) → ∀ n,
      channel (lines.length + n) (lines.flatMap (· ++ ['\n']) ++ rest) =
        lines.map fun l => Sent.ofResult (parseTraceLine (l ++ ['\n']))
  | [], _, n => by simpa using channel_of_not_mem hrest n
  | l :: ls, hls, n => by
    have hl := hls l List.mem_cons_self
    have ih := channel_lines hrest ls (fun l' hl' => hls l' (List.mem_cons_of_mem _ hl')) n
    have hlen : (l :: ls).length + n = ls.length + n + 1 := by simp; omega
    rw [hlen, List.flatMap_cons, List.append_assoc, List.append_assoc, List.singleton_append,
      channel, readLine_append hl]
    cases hparse : parseTraceLine (l ++ ['\n']) with
    | ok ev => simp [Sent.ofResult, hparse, ih]
    | error err =>
      have hne : err ≠ .eof := fun h => parseTraceLine_ne_eof _ (h ▸ hparse)
      cases err with
      | eof => exact absurd rfl hne
      | unexpectedInput raw => simp [Sent.ofResult, hparse, ih]

/-- Two lines and a last piece without a newline, read in three turns. -/
theorem channel_lines_two :
    '\n' ∉ ['z'] ∧ (∀ l ∈ [['x'], ['y']], '\n' ∉ l) ∧
      channel 3 ([['x'], ['y']].flatMap (· ++ ['\n']) ++ ['z']) =
        [['x'], ['y']].map fun l => Sent.ofResult (parseTraceLine (l ++ ['\n'])) :=
  ⟨by decide, by simp, channel_lines (by decide) [['x'], ['y']] (by simp) 1⟩

end Lines

end Gobpf.TracePipe
