import Gobpf.Go.Strings
import Gobpf.Go.Strconv
import Mathlib.Data.Finset.Sort

/-!
# `cpuonline`: parsing the list of online CPUs

`readCPURange` (`src/pkg/cpuonline/cpu_range.go:12`) parses the kernel's cpulist format, in which
`/sys/devices/system/cpu/online` lists the online CPUs, and `Get` reads that file. Every list of
CPUs that the `elf` and `bcc` packages open perf rings on comes from here.

`readCPURange_eq_ok_iff` characterises it over every string: it succeeds exactly when the
trimmed string is a comma-separated list of one or more items `N` or `N-M` of decimal numbers
below `2^32`, and then returns the items' CPUs in order. `readCPURange_cpulist` reads back the
kernel's rendering of any non-empty set of CPUs; the rendering of the empty set, `"\n"`, is
rejected (`readCPURange_cpulist_empty`), as the repository's test of `""` expects.
-/

namespace Gobpf.CpuOnline

open Gobpf.Go

/-! ## The model -/

/-- `for n := first; n <= last; n++ { cpus = append(cpus, uint(n)) }`. The counter is a `uint64`
and `last < 2^32`, so it never wraps. -/
def appendRange (cpus : List Nat) (n last : Nat) : List Nat :=
  if n ≤ last then appendRange (cpus ++ [n]) (n + 1) last else cpus
termination_by last + 1 - n

/-- The body of the loop over the comma-separated items of `readCPURange`. -/
def readCPURangeItem (cpus : List Nat) (cpuRange : List Char) : Except NumError (List Nat) :=
  let rangeOp := splitN cpuRange '-' 2
  match parseUint (rangeOp.getD 0 []) 32 with
  | .error err => .error err
  | .ok first =>
    if rangeOp.length = 1 then .ok (cpus ++ [first])
    else
      match parseUint (rangeOp.getD 1 []) 32 with
      | .error err => .error err
      | .ok last => .ok (appendRange cpus first last)

/-- `readCPURange(cpuRangeStr)`: the loop returns the first error of an item. -/
def readCPURange (cpuRangeStr : List Char) : Except NumError (List Nat) :=
  (split (trim cpuRangeStr ['\n', ' ']) ',').foldlM readCPURangeItem []

/-- The errors of `Get`: that of `ioutil.ReadFile`, or that of `readCPURange`. -/
inductive GetError where
  | readFile
  | parse (err : NumError)

/-- `cpuonline.Get()`, given the contents of `/sys/devices/system/cpu/online`, or `none` when
`ioutil.ReadFile` fails. -/
def get (online : Option (List Char)) : Except GetError (List Nat) :=
  match online with
  | none => .error .readFile
  | some buf => (readCPURange buf).mapError .parse

/-- The loop appends the numbers from `n` to `last`. -/
theorem appendRange_eq (cpus : List Nat) (n last : Nat) :
    appendRange cpus n last = cpus ++ List.range' n (last + 1 - n) := by
  fun_induction appendRange cpus n last with
  | case1 cpus n hle ih =>
    rw [ih, List.append_assoc]
    have hlen : last + 1 - n = (last + 1 - (n + 1)) + 1 := by omega
    rw [hlen, List.range'_succ]
    rfl
  | case2 cpus n hlt =>
    have : last + 1 - n = 0 := by omega
    simp [this]

/-! ## The cpulist format -/

/-- A CPU number of the format: a non-empty decimal digit string of value below `2^32`. -/
def CpuNumber (w : List Char) : Prop :=
  w ≠ [] ∧ (∀ c ∈ w, c.isDigit) ∧ Nat.ofDigitChars 10 w 0 < 2 ^ 32

/-- An item of a cpulist, as text: `N`, or `N-M`. -/
inductive CpuItem where
  | single (n : List Char)
  | range (n m : List Char)

namespace CpuItem

/-- Its numbers are CPU numbers. -/
def Valid : CpuItem → Prop
  | single n => CpuNumber n
  | range n m => CpuNumber n ∧ CpuNumber m

/-- How it is written. -/
def text : CpuItem → List Char
  | single n => n
  | range n m => n ++ '-' :: m

/-- The CPUs it stands for: `[N]`, or `[N, N+1, ..., M]`, empty when `N > M`. -/
def cpus : CpuItem → List Nat
  | single n => [Nat.ofDigitChars 10 n 0]
  | range n m =>
    List.range' (Nat.ofDigitChars 10 n 0) (Nat.ofDigitChars 10 m 0 + 1 - Nat.ofDigitChars 10 n 0)

end CpuItem

/-- Items written comma-separated. -/
def cpuListText (items : List CpuItem) : List Char :=
  [','].intercalate (items.map CpuItem.text)

theorem not_mem_of_digits {w : List Char} {c : Char} (hw : ∀ d ∈ w, d.isDigit) (hc : ¬c.isDigit) :
    c ∉ w :=
  fun h => hc (hw c h)

/-- A valid item is written with digits and at most one `-`. -/
theorem CpuItem.mem_text {i : CpuItem} (hi : i.Valid) {c : Char} (hc : c ∈ i.text) :
    c.isDigit ∨ c = '-' := by
  cases i with
  | single n => exact .inl (hi.2.1 c hc)
  | range n m =>
    simp only [text, List.mem_append, List.mem_cons] at hc
    rcases hc with hc | hc | hc
    · exact .inl (hi.1.2.1 c hc)
    · exact .inr hc
    · exact .inl (hi.2.2.1 c hc)

/-- Valid items are written with digits, `-` and `,`. -/
theorem mem_cpuListText {items : List CpuItem} (hv : ∀ i ∈ items, i.Valid) {c : Char}
    (hc : c ∈ cpuListText items) : c.isDigit ∨ c = '-' ∨ c = ',' := by
  rcases mem_intercalate hc with rfl | ⟨w, hw, hcw⟩
  · exact .inr (.inr rfl)
  · obtain ⟨i, hi, rfl⟩ := List.mem_map.1 hw
    rcases CpuItem.mem_text (hv i hi) hcw with h | h
    · exact .inl h
    · exact .inr (.inl h)

/-- `ParseUint` reads a CPU number back. -/
theorem parseUint_cpuNumber {w : List Char} (hw : CpuNumber w) :
    parseUint w 32 = .ok (Nat.ofDigitChars 10 w 0) :=
  (parseUint_eq_ok_iff (by decide)).2 ⟨hw.1, hw.2.1, rfl, hw.2.2⟩

/-- What `ParseUint` accepts in 32 bits is a CPU number. -/
theorem cpuNumber_of_parseUint {w : List Char} {v : Nat} (h : parseUint w 32 = .ok v) :
    CpuNumber w ∧ v = Nat.ofDigitChars 10 w 0 := by
  obtain ⟨h0, hd, rfl, hlt⟩ := (parseUint_eq_ok_iff (by decide)).1 h
  exact ⟨⟨h0, hd, hlt⟩, rfl⟩

/-- A valid item written with a `-` is the range cut at that `-`. -/
theorem CpuItem.eq_range {i : CpuItem} (hi : i.Valid) {x y : List Char} (hx : '-' ∉ x)
    (h : x ++ '-' :: y = i.text) : i = .range x y := by
  cases i with
  | single n =>
    have hn : '-' ∈ n := by rw [← show x ++ '-' :: y = n from h]; simp
    exact absurd (hi.2.1 '-' hn) (by decide)
  | range n m =>
    have hn : '-' ∉ n := not_mem_of_digits hi.1.2.1 (by decide)
    have hsplit := splitN_two_append (y := m) hn
    rw [← show x ++ '-' :: y = n ++ '-' :: m from h, splitN_two_append hx] at hsplit
    simp only [List.cons.injEq, and_true] at hsplit
    rw [hsplit.1, hsplit.2]

/-- A valid item written without a `-` is a single number. -/
theorem CpuItem.eq_single {i : CpuItem} (hi : i.Valid) {w : List Char} (hw : '-' ∉ w)
    (h : w = i.text) : i = .single w := by
  cases i with
  | single n => rw [h]; rfl
  | range n m => exact absurd (h ▸ List.mem_append_right n List.mem_cons_self) hw

/-- One item of the loop succeeds exactly on the text of a valid item, and appends its CPUs. -/
theorem readCPURangeItem_eq_ok_iff (cpus : List Nat) (w : List Char) (cpus' : List Nat) :
    readCPURangeItem cpus w = .ok cpus' ↔
      ∃ i : CpuItem, i.Valid ∧ w = i.text ∧ cpus' = cpus ++ i.cpus := by
  by_cases hw : '-' ∈ w
  · obtain ⟨x, y, hx, rfl⟩ := exists_append_of_mem hw
    simp only [readCPURangeItem, splitN_two_append hx, List.getD_cons_zero,
      List.getD_cons_succ, List.length_cons, List.length_nil, Nat.reduceAdd, Nat.reduceEqDiff,
      reduceIte]
    constructor
    · intro h
      cases hpx : parseUint x 32 with
      | error e => simp [hpx] at h
      | ok first =>
        cases hpy : parseUint y 32 with
        | error e => simp [hpx, hpy] at h
        | ok last =>
          simp only [hpx, hpy, Except.ok.injEq] at h
          obtain ⟨hxn, rfl⟩ := cpuNumber_of_parseUint hpx
          obtain ⟨hyn, rfl⟩ := cpuNumber_of_parseUint hpy
          exact ⟨.range x y, ⟨hxn, hyn⟩, rfl, by rw [← h, appendRange_eq]; rfl⟩
    · rintro ⟨i, hi, hwi, rfl⟩
      obtain rfl := CpuItem.eq_range hi hx hwi
      simp [parseUint_cpuNumber hi.1, parseUint_cpuNumber hi.2, appendRange_eq, CpuItem.cpus]
  · simp only [readCPURangeItem, splitN_two_of_not_mem hw, List.getD_cons_zero,
      List.length_singleton, if_true]
    constructor
    · intro h
      cases hpw : parseUint w 32 with
      | error e => simp [hpw] at h
      | ok first =>
        simp only [hpw, Except.ok.injEq] at h
        obtain ⟨hwn, rfl⟩ := cpuNumber_of_parseUint hpw
        exact ⟨.single w, hwn, rfl, h.symm⟩
    · rintro ⟨i, hi, hwi, rfl⟩
      obtain rfl := CpuItem.eq_single hi hw hwi
      simp [parseUint_cpuNumber hi, CpuItem.cpus]

/-- The loop over the items succeeds exactly on the texts of valid items, and appends their
CPUs in order. -/
theorem foldlM_readCPURangeItem_eq_ok_iff (ws : List (List Char)) (acc cpus : List Nat) :
    ws.foldlM readCPURangeItem acc = .ok cpus ↔
      ∃ items : List CpuItem, (∀ i ∈ items, i.Valid) ∧ ws = items.map CpuItem.text ∧
        cpus = acc ++ items.flatMap CpuItem.cpus := by
  induction ws generalizing acc with
  | nil =>
    constructor
    · intro h
      cases h
      exact ⟨[], nofun, rfl, by simp⟩
    · rintro ⟨items, -, hws, rfl⟩
      rw [List.eq_nil_of_map_eq_nil hws.symm]
      simp only [List.flatMap_nil, List.append_nil]
      rfl
  | cons w ws ih =>
    cases hw : readCPURangeItem acc w with
    | error e =>
      constructor
      · intro h
        simp only [List.foldlM_cons, hw] at h
        cases h
      · rintro ⟨items, hv, hws, rfl⟩
        obtain ⟨i, items', rfl, -⟩ := List.map_eq_cons_iff.1 hws.symm
        have := (readCPURangeItem_eq_ok_iff acc w (acc ++ i.cpus)).2
          ⟨i, hv i List.mem_cons_self, by simp_all, rfl⟩
        rw [hw] at this
        cases this
    | ok acc' =>
      obtain ⟨i, hi, rfl, rfl⟩ := (readCPURangeItem_eq_ok_iff acc w acc').1 hw
      simp only [List.foldlM_cons, hw]
      change ws.foldlM readCPURangeItem (acc ++ i.cpus) = .ok cpus ↔ _
      rw [ih]
      constructor
      · rintro ⟨items, hv, rfl, rfl⟩
        refine ⟨i :: items, ?_, rfl, by simp⟩
        rintro j (_ | ⟨_, hj⟩)
        · exact hi
        · exact hv j hj
      · rintro ⟨items, hv, hws, rfl⟩
        obtain ⟨j, items', rfl, hws'⟩ := List.map_eq_cons_iff.1 hws.symm
        have hij : j = i := by
          have hj := hv j List.mem_cons_self
          by_cases hd : '-' ∈ j.text
          · obtain ⟨x, y, hx, hxy⟩ := exists_append_of_mem hd
            rw [CpuItem.eq_range hj hx hxy.symm, CpuItem.eq_range hi hx (hxy.symm.trans hws'.1)]
          · rw [CpuItem.eq_single hj hd rfl, CpuItem.eq_single hi hd hws'.1]
        subst hij
        refine ⟨items', fun k hk => hv k (List.mem_cons_of_mem _ hk), hws'.2.symm, by simp⟩

/-- **What `readCPURange` accepts, and what it returns.** It succeeds exactly when the string,
trimmed of newlines and spaces, is a comma-separated list of one or more valid items, and then
returns the CPUs of the items in order. -/
theorem readCPURange_eq_ok_iff (s : List Char) (cpus : List Nat) :
    readCPURange s = .ok cpus ↔
      ∃ items : List CpuItem, items ≠ [] ∧ (∀ i ∈ items, i.Valid) ∧
        trim s ['\n', ' '] = cpuListText items ∧ cpus = items.flatMap CpuItem.cpus := by
  rw [readCPURange, foldlM_readCPURangeItem_eq_ok_iff]
  constructor
  · rintro ⟨items, hv, hws, rfl⟩
    refine ⟨items, ?_, hv, ?_, by simp⟩
    · rintro rfl
      exact List.splitOn_ne_nil _ _ hws
    · rw [cpuListText, ← hws, split, List.intercalate_splitOn]
  · rintro ⟨items, hne, hv, ht, rfl⟩
    refine ⟨items, hv, ?_, by simp⟩
    rw [split, ht, cpuListText, List.splitOn_intercalate]
    · intro w hw hcomma
      obtain ⟨i, hi, rfl⟩ := List.mem_map.1 hw
      rcases CpuItem.mem_text (hv i hi) hcomma with h | h
      · exact absurd h (by decide)
      · exact absurd h (by decide)
    · simpa using hne

/-! ## The kernel's rendering of a set of CPUs -/

/-- The maximal runs of consecutive numbers of a list, as pairs of their first and last. -/
def runs : List Nat → List (Nat × Nat)
  | [] => []
  | n :: rest =>
    match runs rest with
    | (a, b) :: rs => if n + 1 = a then (n, b) :: rs else (n, n) :: (a, b) :: rs
    | [] => [(n, n)]

/-- A run as an item of the format: `a` alone, or `a-b`. -/
def runItem (r : Nat × Nat) : CpuItem :=
  if r.1 = r.2 then .single (Nat.toDigits 10 r.1)
  else .range (Nat.toDigits 10 r.1) (Nat.toDigits 10 r.2)

/-- How the kernel prints a set of CPUs in its cpulist format, as
`/sys/devices/system/cpu/online` holds it: the maximal runs of the sorted CPUs, a run of one
CPU as `a` and a longer one as `a-b`, separated by commas, followed by a newline. -/
def cpulist (S : Finset Nat) : List Char :=
  cpuListText ((runs (S.sort (· ≤ ·))).map runItem) ++ ['\n']

/-- The runs of a list begin at its first number. -/
theorem runs_cons (n : Nat) (rest : List Nat) :
    ∃ b rs, runs (n :: rest) = (n, b) :: rs := by
  rw [runs]
  split
  · next a b rs _ =>
    by_cases h : n + 1 = a
    · exact ⟨b, rs, if_pos h⟩
    · exact ⟨n, (a, b) :: rs, if_neg h⟩
  · exact ⟨n, [], rfl⟩

/-- The runs of a list are bounds that occur in it, the first below the last. -/
theorem runs_mem (l : List Nat) : ∀ r ∈ runs l, r.1 ∈ l ∧ r.2 ∈ l ∧ r.1 ≤ r.2 := by
  induction l with
  | nil => nofun
  | cons n rest ih =>
    intro r hr
    rw [runs] at hr
    split at hr
    · next a b rs hrest =>
      have hab := ih (a, b) (by rw [hrest]; exact List.mem_cons_self)
      split at hr
      · rcases List.mem_cons.1 hr with rfl | hr
        · exact ⟨List.mem_cons_self, List.mem_cons_of_mem _ hab.2.1, by omega⟩
        · have := ih r (by rw [hrest]; exact List.mem_cons_of_mem _ hr)
          exact ⟨List.mem_cons_of_mem _ this.1, List.mem_cons_of_mem _ this.2.1, this.2.2⟩
      · rcases List.mem_cons.1 hr with rfl | hr
        · exact ⟨List.mem_cons_self, List.mem_cons_self, le_refl n⟩
        · have := ih r (by rw [hrest]; exact hr)
          exact ⟨List.mem_cons_of_mem _ this.1, List.mem_cons_of_mem _ this.2.1, this.2.2⟩
    · rcases List.mem_singleton.1 hr with rfl
      exact ⟨List.mem_cons_self, List.mem_cons_self, le_refl n⟩

/-- Expanding the runs of a list gives the list back. -/
theorem runs_flatMap (l : List Nat) :
    (runs l).flatMap (fun r => List.range' r.1 (r.2 + 1 - r.1)) = l := by
  induction l with
  | nil => rfl
  | cons n rest ih =>
    rw [runs]
    split
    · next a b rs hrest =>
      rw [hrest, List.flatMap_cons] at ih
      split
      · next hna =>
        have hab := (runs_mem rest (a, b) (by rw [hrest]; exact List.mem_cons_self)).2.2
        have hlen : b + 1 - n = (b + 1 - a) + 1 := by omega
        rw [List.flatMap_cons, hlen, List.range'_succ, List.cons_append, hna, ih]
      · rw [List.flatMap_cons, List.flatMap_cons, ← ih]
        simp
    · next hrest =>
      have : rest = [] := by
        cases rest with
        | nil => rfl
        | cons m rest' =>
          obtain ⟨b, rs, h⟩ := runs_cons m rest'
          rw [h] at hrest
          cases hrest
      subst this
      simp

/-- A run of CPU numbers below `2^32` is a valid item, standing for the CPUs of the run. -/
theorem runItem_valid {r : Nat × Nat} (h1 : r.1 < 2 ^ 32) (h2 : r.2 < 2 ^ 32) :
    (runItem r).Valid ∧ (runItem r).cpus = List.range' r.1 (r.2 + 1 - r.1) := by
  have hnum (n : Nat) (hn : n < 2 ^ 32) : CpuNumber (Nat.toDigits 10 n) :=
    ⟨Nat.toDigits_ne_nil, fun _ hc => Nat.isDigit_of_mem_toDigits (by decide) (by decide) hc,
      by rw [Nat.ofDigitChars_ten_toDigits]; exact hn⟩
  unfold runItem
  split
  · next heq =>
    refine ⟨hnum r.1 h1, ?_⟩
    simp [CpuItem.cpus, heq]
  · exact ⟨⟨hnum r.1 h1, hnum r.2 h2⟩, by simp [CpuItem.cpus]⟩

/-- **`readCPURange` reads back the kernel's rendering of a non-empty set of CPUs**, as the
sorted list of its CPUs. -/
theorem readCPURange_cpulist (S : Finset Nat) (hS : S.Nonempty) (hlt : ∀ n ∈ S, n < 2 ^ 32) :
    readCPURange (cpulist S) = .ok (S.sort (· ≤ ·)) := by
  have hl : S.sort (· ≤ ·) ≠ [] := by
    intro h
    have := congrArg List.length h
    rw [Finset.length_sort] at this
    exact Finset.card_ne_zero_of_mem hS.choose_spec this
  have hrun : ∀ r ∈ runs (S.sort (· ≤ ·)),
      (runItem r).Valid ∧ (runItem r).cpus = List.range' r.1 (r.2 + 1 - r.1) := by
    intro r hr
    obtain ⟨h1, h2, -⟩ := runs_mem _ r hr
    exact runItem_valid (hlt _ (Finset.mem_sort _ |>.1 h1)) (hlt _ (Finset.mem_sort _ |>.1 h2))
  have hv : ∀ i ∈ (runs (S.sort (· ≤ ·))).map runItem, i.Valid := by
    intro i hi
    obtain ⟨r, hr, rfl⟩ := List.mem_map.1 hi
    exact (hrun r hr).1
  refine (readCPURange_eq_ok_iff _ _).2 ⟨_, ?_, hv, ?_, ?_⟩
  · obtain ⟨n, rest, hnr⟩ := List.exists_cons_of_ne_nil hl
    obtain ⟨b, rs, h⟩ := runs_cons n rest
    simp [hnr, h]
  · rw [cpulist, trim_append_cut (by simp)]
    intro d hd
    rcases mem_cpuListText hv hd with h | h | h
    · intro hcut
      simp only [List.mem_cons, List.not_mem_nil, or_false] at hcut
      rcases hcut with rfl | rfl <;> exact absurd h (by decide)
    · subst h
      decide
    · subst h
      decide
  · rw [List.flatMap_map]
    conv_lhs => rw [← runs_flatMap (S.sort (· ≤ ·))]
    exact (List.flatMap_congr fun r hr => (hrun r hr).2).symm

/-- The kernel renders the empty set of CPUs as `"\n"`, which `readCPURange` rejects. -/
theorem readCPURange_cpulist_empty :
    readCPURange (cpulist ∅) ≠ .ok ((∅ : Finset Nat).sort (· ≤ ·)) := by
  rw [cpulist, Finset.sort_empty]
  decide

/-- **The cpulist grammar of `readCPURange`.** Over every string, `readCPURange` succeeds exactly
when the trimmed string is a comma-separated list of one or more items `N` or `N-M` of decimal
numbers below `2^32`, and then returns the CPUs of the items in order; and it reads back the
kernel's rendering of every non-empty set of CPUs below `2^32` as the sorted list of them. -/
theorem readCPURange_grammar :
    (∀ s cpus, readCPURange s = .ok cpus ↔
      ∃ items : List CpuItem, items ≠ [] ∧ (∀ i ∈ items, i.Valid) ∧
        trim s ['\n', ' '] = cpuListText items ∧ cpus = items.flatMap CpuItem.cpus) ∧
    (∀ S : Finset Nat, S.Nonempty → (∀ n ∈ S, n < 2 ^ 32) →
      readCPURange (cpulist S) = .ok (S.sort (· ≤ ·))) :=
  ⟨readCPURange_eq_ok_iff, readCPURange_cpulist⟩

end Gobpf.CpuOnline
