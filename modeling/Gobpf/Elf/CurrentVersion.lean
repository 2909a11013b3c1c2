import Gobpf.Elf.KernelVersion
import Gobpf.Go.Fmt
import Gobpf.Go.Strings

/-!
# `CurrentKernelVersion`

`CurrentKernelVersion` asks three sources in turn and returns the first version one of them gives.
Ubuntu and Debian change the patch number of the release string that `uname` reports, so the
upstream version is read first from `/proc/version_signature` (Ubuntu), as the third word that
`Sscanf` reads from it, then from `/proc/version` (Debian), as the group of `debianVersionRegex`;
only when both fail is the `uname` release used.

* On Ubuntu the version is that of the signature's third word (`currentKernelVersion_ubuntu`), by
  the round trip of `Sscanf` (`sscanfWords_intercalate`).
* On Debian it is that of the package version after ` SMP Debian ` (`currentKernelVersion_debian`).
  The pattern begins with a greedy `.*`, so the match is the last place in the line where the rest
  of the pattern matches; the version is the one after the marker when the line does not mention
  the marker again (`debianVersionRegex_head?_format`, by `head?_seq_greedy_cls`).
* Elsewhere it is that of the `uname` release (`currentKernelVersion_uname`). `utsnameStr` makes
  its output with `len(in)` zero bytes and appends the release after them (`utsnameStr_eq`); the
  `strings.Trim` of `currentVersionUname` removes them again, so the release reaches
  `KernelVersionFromReleaseString` whole (`trim_utsnameStr`).
-/

namespace Gobpf.Elf

open Gobpf.Go Regex

/-- ` SMP Debian `, the text before the package version in a Debian kernel's `/proc/version`. -/
def smpDebian : List Char := [' ', 'S', 'M', 'P', ' ', 'D', 'e', 'b', 'i', 'a', 'n', ' ']

/-- `\d+\.\d+.\d+-\d+`, the group of `debianVersionRegex`. -/
def debianRelease : Regex :=
  seq (plus digit) (seq (char '.') (seq (plus digit) (seq dot (seq (plus digit)
    (seq (char '-') (plus digit))))))

/-- `debianVersionRegex`, `.* SMP Debian (\d+\.\d+.\d+-\d+) .*`. -/
def debianVersionRegex : Regex :=
  seq (star true dot) (lit smpDebian (seq (group 1 debianRelease) (seq (char ' ') (star true dot))))

/-- What the machine answers `CurrentKernelVersion`: the contents of `/proc/version_signature` and
of `/proc/version`, `none` where `ioutil.ReadFile` fails, and the `Release` field of `uname`, `none`
where `syscall.Uname` fails. -/
structure KernelSources where
  versionSignature : Option (List Char)
  procVersion : Option (List Char)
  release : Option (List UInt8)

/-- The errors of the three sources. -/
inductive CurrentVersionError where
  /-- The error of `ioutil.ReadFile("/proc/version_signature")`. -/
  | readVersionSignature
  /-- The error of `ioutil.ReadFile("/proc/version")`. -/
  | readProcVersion
  /-- The error of `syscall.Uname`. -/
  | uname
  /-- The error of `fmt.Sscanf`. -/
  | scan (err : ScanError)
  /-- `failed to get kernel version from /proc/version: %s` -/
  | debianVersion (procVersion : List Char)
  /-- The error of `KernelVersionFromReleaseString`. -/
  | release (err : KernelVersionError)

/-- A byte of a C string as a character of the Go string. -/
def byteChar (b : UInt8) : Char := Char.ofNat b.toNat

/-- The loop of `utsnameStr`: the bytes up to the first `0` are appended to `out`. -/
def utsnameAppend : List UInt8 → List UInt8 → List UInt8
  | out, [] => out
  | out, b :: bs => if b = 0 then out else utsnameAppend (out ++ [b]) bs

/-- `utsnameStr(in)`: `out` is made with `len(in)` bytes, all zero, and the loop appends to it. -/
def utsnameStr (input : List UInt8) : List Char :=
  (utsnameAppend (List.replicate input.length 0) input).map byteChar

/-- `currentVersionUname`. -/
def currentVersionUname (release : Option (List UInt8)) : Except CurrentVersionError Nat :=
  match release with
  | none => throw .uname
  | some release =>
    (kernelVersionFromReleaseString (trim (utsnameStr release) ['\x00'])).mapError .release

/-- `currentVersionUbuntu`: `Sscanf(procVersion, "%s %s %s", &u1, &u2, &releaseString)`. -/
def currentVersionUbuntu (versionSignature : Option (List Char)) :
    Except CurrentVersionError Nat :=
  match versionSignature with
  | none => throw .readVersionSignature
  | some procVersion =>
    match sscanfWords 3 procVersion with
    | .error err => throw (.scan err)
    -- `releaseString` is the third variable, `""` until `Sscanf` assigns it
    | .ok words => (kernelVersionFromReleaseString (words.getD 2 [])).mapError .release

/-- `currentVersionDebian`: the check that `FindStringSubmatch` returned two strings is the match on
a list of two. -/
def currentVersionDebian (procVersion : Option (List Char)) : Except CurrentVersionError Nat :=
  match procVersion with
  | none => throw .readProcVersion
  | some procVersion =>
    match findStringSubmatch debianVersionRegex 1 procVersion with
    | [_, releaseString] => (kernelVersionFromReleaseString releaseString).mapError .release
    | _ => throw (.debianVersion procVersion)

/-- `CurrentKernelVersion`: Ubuntu's signature, then Debian's `/proc/version`, then `uname`. -/
def currentKernelVersion (src : KernelSources) : Except CurrentVersionError Nat :=
  match currentVersionUbuntu src.versionSignature with
  | .ok version => .ok version
  | .error _ =>
    match currentVersionDebian src.procVersion with
    | .ok version => .ok version
    | .error _ => currentVersionUname src.release

/-! ## Characters -/

theorem toNat_byteChar (b : UInt8) : (byteChar b).toNat = b.toNat := by
  have := b.toNat_lt
  simp [byteChar, Char.toNat_ofNat]
  omega

theorem byteChar_eq_zero_iff {b : UInt8} : byteChar b = '\x00' ↔ b = 0 := by
  constructor
  · intro h
    have h' := congrArg Char.toNat h
    rw [toNat_byteChar] at h'
    exact UInt8.toNat_inj.1 h'
  · rintro rfl
    rfl

theorem isSpace_of_isDigit {c : Char} (h : c.isDigit = true) : isSpace c = false := by
  simp only [Char.isDigit, Bool.and_eq_true, decide_eq_true_eq, UInt32.le_iff_toNat_le] at h
  have h1 : 48 ≤ c.toNat := h.1
  have h2 : c.toNat ≤ 57 := h.2
  simp only [isSpace]
  simp
  omega

theorem ne_newline_of_isDigit {c : Char} (h : c.isDigit = true) : c ≠ '\n' := by
  rintro rfl
  simp at h

/-! ## `uname` -/

theorem utsnameAppend_eq : ∀ (out input : List UInt8),
    utsnameAppend out input = out ++ input.takeWhile (· != 0)
  | out, [] => by simp [utsnameAppend]
  | out, b :: bs => by
    by_cases hb : b = 0
    · simp [utsnameAppend, hb]
    · rw [utsnameAppend, if_neg hb, utsnameAppend_eq]
      simp [hb]

/-- `utsnameStr` returns `len(in)` zero characters, then the bytes before the first `0`. -/
theorem utsnameStr_eq (input : List UInt8) :
    utsnameStr input =
      List.replicate input.length '\x00' ++ (input.takeWhile (· != 0)).map byteChar := by
  simp only [utsnameStr, utsnameAppend_eq, List.map_append, List.map_replicate]
  rfl

/-- **The release reaches `KernelVersionFromReleaseString` whole.** For a `Release` field holding a
release without zero bytes, ended by a zero byte, `strings.Trim` removes the zero characters that
`utsnameStr` put before it. -/
theorem trim_utsnameStr {R : List UInt8} (pad : List UInt8) (hR : 0 ∉ R) :
    trim (utsnameStr (R ++ 0 :: pad)) ['\x00'] = R.map byteChar := by
  have hne : ∀ b ∈ R, b ≠ 0 := fun b hb h => hR (h ▸ hb)
  have htake : (R ++ 0 :: pad).takeWhile (· != 0) = R := by
    rw [List.takeWhile_append_of_pos (by simpa using hne)]
    simp
  have hchars : ∀ d ∈ R.map byteChar, d ≠ '\x00' := by
    intro d hd
    obtain ⟨b, hb, rfl⟩ := List.mem_map.1 hd
    exact fun h => hne b hb (byteChar_eq_zero_iff.1 h)
  rw [utsnameStr_eq, htake]
  exact trim_replicate_append _ (fun d hd => hchars d (List.mem_of_mem_head? hd))
    (fun d hd => hchars d (List.mem_of_mem_getLast? hd))

theorem currentVersionUname_release {R : List UInt8} (pad : List UInt8) (hR : 0 ∉ R) :
    currentVersionUname (some (R ++ 0 :: pad)) =
      (kernelVersionFromReleaseString (R.map byteChar)).mapError .release := by
  rw [currentVersionUname, trim_utsnameStr pad hR]

/-! ## Ubuntu -/

section Ubuntu
variable {u₁ u₂ releaseString rest : List Char}

/-- The signature's third word is the release string. -/
theorem currentVersionUbuntu_signature (hu₁ : u₁ ≠ [] ∧ ∀ c ∈ u₁, isSpace c = false)
    (hu₂ : u₂ ≠ [] ∧ ∀ c ∈ u₂, isSpace c = false)
    (hr : releaseString ≠ [] ∧ ∀ c ∈ releaseString, isSpace c = false)
    (hrest : ∀ c ∈ rest.head?, isSpace c = true) :
    currentVersionUbuntu (some (u₁ ++ ' ' :: (u₂ ++ ' ' :: (releaseString ++ rest)))) =
      (kernelVersionFromReleaseString releaseString).mapError .release := by
  have hwords : sscanfWords 3 (u₁ ++ ' ' :: (u₂ ++ ' ' :: (releaseString ++ rest))) =
      .ok [u₁, u₂, releaseString] := by
    have h := @sscanfWords_intercalate rest hrest [u₁, u₂, releaseString] (by
      intro w hw
      simp only [List.mem_cons, List.not_mem_nil, or_false] at hw
      rcases hw with rfl | rfl | rfl
      exacts [hu₁, hu₂, hr])
    simpa [List.intercalate_cons_cons] using h
  rw [currentVersionUbuntu, hwords]
  rfl

end Ubuntu

/-! ## Debian -/

section Debian
variable {n : Nat} {P S more A B C D : List Char} {caps : Nat → Option (List Char)}

/-- A pattern that starts with a literal without newlines fails at a text that does not start
with it, whatever follows a newline. -/
theorem not_prefix_append_newline {L z : List Char} (hL : '\n' ∉ L) (h : ¬ L <+: z) :
    ¬ L <+: z ++ '\n' :: more := by
  intro hp
  rcases le_or_gt L.length z.length with hle | hlt
  · exact h (List.prefix_of_prefix_length_le hp (List.prefix_append z _) hle)
  · obtain ⟨t, rfl⟩ := List.prefix_of_prefix_length_le (List.prefix_append z _) hp hlt.le
    have ht : t <+: '\n' :: more := (List.prefix_append_right_inj z).1 hp
    have hne : t ≠ [] := by rintro rfl; simp at hlt
    obtain ⟨d, t', rfl⟩ := List.exists_cons_of_ne_nil hne
    obtain rfl : d = '\n' := (List.cons_prefix_cons.1 ht).1
    exact hL (List.mem_append_right z List.mem_cons_self)

/-- The proper suffixes of ` SMP Debian ` that begin it are the empty one and the last space. -/
theorem smpDebian_tails : ∀ m ∈ smpDebian.tails.tail,
    m.length < smpDebian.length ∧ (m <+: smpDebian → m = [] ∨ m = [' ']) := by
  decide

theorem smpDebian_ne_newline : ∀ c ∈ smpDebian, (c != '\n') = true := by
  simp [smpDebian]

/-- ` SMP Debian ` occurs at the start of `smpDebian ++ W` only, when `W` does not begin with `S`
and does not contain it. -/
theorem smpDebian_at_start_only {W : List Char} (hW : ∀ d ∈ W.head?, d ≠ 'S')
    (hone : ¬ smpDebian <:+: W) : ∀ z ∈ (smpDebian ++ W).tails.tail, ¬ smpDebian <+: z := by
  intro z hz hp
  have htails : smpDebian.tails = smpDebian :: smpDebian.tails.tail := rfl
  rw [List.tails_append, htails, List.map_cons, List.cons_append, List.tail_cons] at hz
  rcases List.mem_append.1 hz with hz | hz
  · obtain ⟨m, hm, rfl⟩ := List.mem_map.1 hz
    obtain ⟨hlen, hpre⟩ := smpDebian_tails m hm
    rcases hpre (List.prefix_of_prefix_length_le (List.prefix_append m W) hp hlen.le) with
      rfl | rfl
    · exact hone hp.isInfix
    · have hS : ['S', 'M', 'P', ' ', 'D', 'e', 'b', 'i', 'a', 'n', ' '] <+: W := by
        simpa using (List.cons_prefix_cons.1 hp).2
      obtain ⟨t, rfl⟩ := hS
      exact hW 'S' rfl rfl
  · have hsuf : z <:+ W := (List.mem_tails _ _).1 (List.mem_of_mem_tail hz)
    exact hone (hp.isInfix.trans hsuf.isInfix)

/-- The group `\d+\.\d+.\d+-\d+` takes `A.B.C-D`, followed by a character other than a digit. -/
theorem debianRelease_head? (hA : A ≠ [] ∧ ∀ c ∈ A, c.isDigit = true)
    (hB : B ≠ [] ∧ ∀ c ∈ B, c.isDigit = true) (hC : C ≠ [] ∧ ∀ c ∈ C, c.isDigit = true)
    (hD : D ≠ [] ∧ ∀ c ∈ D, c.isDigit = true) {s : List Char}
    (hs : ∀ d ∈ s.head?, d.isDigit = false) :
    (backtrack n debianRelease ⟨A ++ '.' :: (B ++ '.' :: (C ++ '-' :: (D ++ s))), caps⟩).head? =
      some ⟨s, caps⟩ := by
  unfold debianRelease
  refine head?_seq_of_head? (head?_plus_cls hA.1 hA.2 (by simp)) ?_
  refine head?_seq_of_head? (head?_char_self '.' _) ?_
  refine head?_seq_of_head? (head?_plus_cls hB.1 hB.2 (by simp)) ?_
  refine head?_seq_of_head? (head?_cls_cons (by decide) _) ?_
  refine head?_seq_of_head? (head?_plus_cls hC.1 hC.2 (by simp)) ?_
  refine head?_seq_of_head? (head?_char_self '-' _) ?_
  exact head?_plus_cls hD.1 hD.2 hs

/-- **The version after ` SMP Debian `.** In a `/proc/version` whose first line is
`P SMP Debian A.B.C-D S`, with digit strings `A`, `B`, `C` and `D` and without another ` SMP Debian `
after the first, the first match of `debianVersionRegex` captures `A.B.C-D` as its group. -/
theorem debianVersionRegex_head?_format (hP : '\n' ∉ P) (hA : A ≠ [] ∧ ∀ c ∈ A, c.isDigit = true)
    (hB : B ≠ [] ∧ ∀ c ∈ B, c.isDigit = true) (hC : C ≠ [] ∧ ∀ c ∈ C, c.isDigit = true)
    (hD : D ≠ [] ∧ ∀ c ∈ D, c.isDigit = true) (hS : '\n' ∉ S)
    (hone : ¬ smpDebian <:+: A ++ '.' :: (B ++ '.' :: (C ++ '-' :: D)) ++ ' ' :: S) :
    (backtrack n debianVersionRegex
        ⟨P ++ (smpDebian ++ (A ++ '.' :: (B ++ '.' :: (C ++ '-' :: D)) ++ ' ' :: S)) ++
          '\n' :: more, caps⟩).head? =
      some ⟨'\n' :: more, Function.update caps 1 (some (A ++ '.' :: (B ++ '.' :: (C ++ '-' :: D))))⟩ := by
  have hV : ∀ c ∈ A ++ '.' :: (B ++ '.' :: (C ++ '-' :: D)), c ≠ '\n' := by
    intro c hc
    simp only [List.mem_append, List.mem_cons] at hc
    rcases hc with hc | rfl | hc | rfl | hc | rfl | hc
    all_goals first
      | exact ne_newline_of_isDigit (hA.2 c hc)
      | exact ne_newline_of_isDigit (hB.2 c hc)
      | exact ne_newline_of_isDigit (hC.2 c hc)
      | exact ne_newline_of_isDigit (hD.2 c hc)
      | decide
  have hline : ∀ c ∈ smpDebian ++ (A ++ '.' :: (B ++ '.' :: (C ++ '-' :: D)) ++ ' ' :: S),
      (c != '\n') = true := by
    intro c hc
    rcases List.mem_append.1 hc with hc | hc
    · exact smpDebian_ne_newline c hc
    rcases List.mem_append.1 hc with hc | hc
    · simpa using hV c hc
    rcases List.mem_cons.1 hc with rfl | hc
    · decide
    · simpa using ne_of_mem_of_not_mem hc hS
  have hW : ∀ d ∈ (A ++ '.' :: (B ++ '.' :: (C ++ '-' :: D)) ++ ' ' :: S).head?, d ≠ 'S' := by
    obtain ⟨a, A', rfl⟩ := List.exists_cons_of_ne_nil hA.1
    intro d hd
    obtain rfl : a = d := by simpa using hd
    exact fun h => by simpa [h] using hA.2 a List.mem_cons_self
  rw [List.append_assoc P]
  refine head?_seq_greedy_cls (fun c hc => by simpa using ne_of_mem_of_not_mem hc hP) hline
    (by simp) (fun z hz => ?_) ?_
  · exact backtrack_lit_eq_nil
      (not_prefix_append_newline (by decide) (smpDebian_at_start_only hW hone z hz))
  · simp only [List.append_assoc, List.cons_append, backtrack_lit_append]
    refine head?_seq_of_head? (head?_group (x := A ++ '.' :: (B ++ '.' :: (C ++ '-' :: D)))
      (by simp) (debianRelease_head? (s := ' ' :: (S ++ '\n' :: more)) hA hB hC hD (by simp))) ?_
    refine head?_seq_of_head? (head?_char_self ' ' _) ?_
    exact head?_star_cls (fun c hc => by simpa using ne_of_mem_of_not_mem hc hS) (by simp)

/-- **`currentVersionDebian` reads the package version.** -/
theorem currentVersionDebian_format (hP : '\n' ∉ P) (hA : A ≠ [] ∧ ∀ c ∈ A, c.isDigit = true)
    (hB : B ≠ [] ∧ ∀ c ∈ B, c.isDigit = true) (hC : C ≠ [] ∧ ∀ c ∈ C, c.isDigit = true)
    (hD : D ≠ [] ∧ ∀ c ∈ D, c.isDigit = true) (hS : '\n' ∉ S)
    (hone : ¬ smpDebian <:+: A ++ '.' :: (B ++ '.' :: (C ++ '-' :: D)) ++ ' ' :: S)
    (ha : Nat.ofDigitChars 10 A 0 < 2 ^ 63) (hb : Nat.ofDigitChars 10 B 0 < 2 ^ 63)
    (hc : Nat.ofDigitChars 10 C 0 < 2 ^ 63) :
    currentVersionDebian (some (P ++ (smpDebian ++ (A ++ '.' :: (B ++ '.' :: (C ++ '-' :: D)) ++
        ' ' :: S)) ++ '\n' :: more)) =
      .ok (toUint32 ((Nat.ofDigitChars 10 A 0 : Int) * 65536 + Nat.ofDigitChars 10 B 0 * 256 +
        Nat.ofDigitChars 10 C 0)) := by
  have hparts := findStringSubmatch_of_head? (k := 1)
    (@debianVersionRegex_head?_format _ _ _ more _ _ _ _ (fun _ => none) hP hA hB hC hD hS hone)
  simp only [List.range_one, List.map_cons, List.map_nil, Function.update_self,
    Option.getD_some] at hparts
  have hD' : '\n' ∉ '-' :: D := by
    simp only [List.mem_cons, not_or]
    exact ⟨by decide, fun h => ne_newline_of_isDigit (hD.2 _ h) rfl⟩
  rw [currentVersionDebian, hparts]
  have hR : ∀ d ∈ ('-' :: D).head?, d.isDigit = false := fun d hd => by
    obtain rfl : '-' = d := by simpa using hd
    decide
  simp only [kernelVersionFromReleaseString_format hA hB hC hR hD' ha hb hc, Except.mapError]

end Debian

/-! ## The three sources in turn -/

section Sources
variable {src : KernelSources}

/-- **On Ubuntu, the version of the signature.** When `/proc/version_signature` reads
`u₁ u₂ A.B.C R`, as Ubuntu writes it with the upstream release third, `CurrentKernelVersion` is the
version `A.B.C`. -/
theorem currentKernelVersion_ubuntu {u₁ u₂ A B C R rest : List Char}
    (hsig : src.versionSignature =
      some (u₁ ++ ' ' :: (u₂ ++ ' ' :: (A ++ '.' :: (B ++ '.' :: (C ++ R)) ++ rest))))
    (hu₁ : u₁ ≠ [] ∧ ∀ c ∈ u₁, isSpace c = false) (hu₂ : u₂ ≠ [] ∧ ∀ c ∈ u₂, isSpace c = false)
    (hA : A ≠ [] ∧ ∀ c ∈ A, c.isDigit = true) (hB : B ≠ [] ∧ ∀ c ∈ B, c.isDigit = true)
    (hC : C ≠ [] ∧ ∀ c ∈ C, c.isDigit = true) (hR : ∀ d ∈ R.head?, d.isDigit = false)
    (hRs : ∀ c ∈ R, isSpace c = false) (hrest : ∀ c ∈ rest.head?, isSpace c = true)
    (ha : Nat.ofDigitChars 10 A 0 < 2 ^ 63) (hb : Nat.ofDigitChars 10 B 0 < 2 ^ 63)
    (hc : Nat.ofDigitChars 10 C 0 < 2 ^ 63) :
    currentKernelVersion src =
      .ok (toUint32 ((Nat.ofDigitChars 10 A 0 : Int) * 65536 + Nat.ofDigitChars 10 B 0 * 256 +
        Nat.ofDigitChars 10 C 0)) := by
  have hword : A ++ '.' :: (B ++ '.' :: (C ++ R)) ≠ [] ∧
      ∀ c ∈ A ++ '.' :: (B ++ '.' :: (C ++ R)), isSpace c = false := by
    refine ⟨by simp, fun c hc => ?_⟩
    simp only [List.mem_append, List.mem_cons] at hc
    rcases hc with hc | rfl | hc | rfl | hc | hc
    · exact isSpace_of_isDigit (hA.2 c hc)
    · decide
    · exact isSpace_of_isDigit (hB.2 c hc)
    · decide
    · exact isSpace_of_isDigit (hC.2 c hc)
    · exact hRs c hc
  have hRn : '\n' ∉ R := fun h => by simpa [isSpace_newline] using hRs _ h
  have hubuntu := currentVersionUbuntu_signature hu₁ hu₂ hword hrest
  rw [kernelVersionFromReleaseString_format hA hB hC hR hRn ha hb hc] at hubuntu
  rw [currentKernelVersion, hsig, hubuntu]
  rfl

/-- Ubuntu 18.04's signature: the upstream `4.15.17`, where `uname` says `4.15.0-20-generic`. -/
theorem currentKernelVersion_ubuntu_bionic :
    currentKernelVersion ⟨some (['U', 'b', 'u', 'n', 't', 'u'] ++ ' ' ::
      (['4', '.', '1', '5', '.', '0', '-', '2', '0', '.', '2', '1', '-', 'g', 'e', 'n', 'e', 'r',
        'i', 'c'] ++ ' ' :: (['4'] ++ '.' :: (['1', '5'] ++ '.' :: (['1', '7'] ++ [])) ++ ['\n']))),
      none, none⟩ = .ok 266001 :=
  (currentKernelVersion_ubuntu rfl (by simp [isSpace]) (by simp [isSpace]) (by simp) (by simp)
    (by simp) (by simp) (by simp) (by simp [isSpace_newline]) (by decide) (by decide)
    (by decide)).trans rfl

/-- **On Debian, the version of the kernel package.** When the signature gives no version and the
first line of `/proc/version` is `P SMP Debian A.B.C-D S`, without another ` SMP Debian ` after the
first, `CurrentKernelVersion` is the version `A.B.C`, whatever `uname` says. -/
theorem currentKernelVersion_debian {e : CurrentVersionError} {P S more A B C D : List Char}
    (hsig : currentVersionUbuntu src.versionSignature = .error e)
    (hproc : src.procVersion = some (P ++ (smpDebian ++ (A ++ '.' :: (B ++ '.' :: (C ++ '-' :: D)) ++
        ' ' :: S)) ++ '\n' :: more))
    (hP : '\n' ∉ P) (hA : A ≠ [] ∧ ∀ c ∈ A, c.isDigit = true)
    (hB : B ≠ [] ∧ ∀ c ∈ B, c.isDigit = true) (hC : C ≠ [] ∧ ∀ c ∈ C, c.isDigit = true)
    (hD : D ≠ [] ∧ ∀ c ∈ D, c.isDigit = true) (hS : '\n' ∉ S)
    (hone : ¬ smpDebian <:+: A ++ '.' :: (B ++ '.' :: (C ++ '-' :: D)) ++ ' ' :: S)
    (ha : Nat.ofDigitChars 10 A 0 < 2 ^ 63) (hb : Nat.ofDigitChars 10 B 0 < 2 ^ 63)
    (hc : Nat.ofDigitChars 10 C 0 < 2 ^ 63) :
    currentKernelVersion src =
      .ok (toUint32 ((Nat.ofDigitChars 10 A 0 : Int) * 65536 + Nat.ofDigitChars 10 B 0 * 256 +
        Nat.ofDigitChars 10 C 0)) := by
  rw [currentKernelVersion, hsig, hproc,
    currentVersionDebian_format hP hA hB hC hD hS hone ha hb hc]

/-- Debian 9: the package version `4.9.130`, where `uname` says `4.9.0-8-amd64`. -/
theorem currentKernelVersion_debian_stretch :
    currentKernelVersion ⟨none, some (['#', '1'] ++ (smpDebian ++ (['4'] ++ '.' :: (['9'] ++ '.' ::
      (['1', '3', '0'] ++ '-' :: ['2'])) ++ ' ' :: ['(', '2', '0', '1', '8', ')'])) ++ ['\n']),
      some [0x34, 0x2e, 0x39, 0x2e, 0x30, 0x2d, 0x38, 0x2d, 0x61, 0x6d, 0x64, 0x36, 0x34, 0]⟩ =
      .ok 264578 :=
  (currentKernelVersion_debian rfl rfl (by decide) (by simp) (by simp) (by simp) (by simp)
    (by decide) (by decide) (by decide) (by decide) (by decide)).trans rfl

/-- **Elsewhere, the `uname` release.** When neither file gives a version, `CurrentKernelVersion`
reads the release that `uname` returns, up to its first zero byte. -/
theorem currentKernelVersion_uname {e₁ e₂ : CurrentVersionError} {R pad : List UInt8}
    (hsig : currentVersionUbuntu src.versionSignature = .error e₁)
    (hproc : currentVersionDebian src.procVersion = .error e₂)
    (hrel : src.release = some (R ++ 0 :: pad)) (hR : 0 ∉ R) :
    currentKernelVersion src =
      (kernelVersionFromReleaseString (R.map byteChar)).mapError .release := by
  rw [currentKernelVersion, hsig, hproc, hrel, currentVersionUname_release pad hR]

/-- A release `5.4.0-42` padded with zero bytes, on a machine without either file. -/
theorem currentKernelVersion_uname_focal :
    currentKernelVersion ⟨none, none, some ([0x35, 0x2e, 0x34, 0x2e, 0x30, 0x2d, 0x34, 0x32] ++
      0 :: List.replicate 56 0)⟩ = .ok 328704 := by
  have hrelease : ([0x35, 0x2e, 0x34, 0x2e, 0x30, 0x2d, 0x34, 0x32] : List UInt8).map byteChar =
      ['5'] ++ '.' :: (['4'] ++ '.' :: (['0'] ++ ['-', '4', '2'])) := by decide
  rw [currentKernelVersion_uname rfl rfl rfl (by decide), hrelease,
    kernelVersionFromReleaseString_format (by simp) (by simp) (by simp) (by simp) (by decide)
      (by decide) (by decide) (by decide)]
  rfl

end Sources

end Gobpf.Elf
