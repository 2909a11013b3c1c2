import Gobpf.Bcc.Symbol
import Gobpf.Go.Strconv
import Gobpf.Go.Strings

/-!
# The probes of a bcc module

A bcc `Module` keeps the perf reader of each probe it attached under the probe's kernel event name:
kprobes in `kprobes`, uprobes in `uprobes`. `Close` frees every reader and detaches every event
name of both maps.

The event names come from two builders. `AttachKprobe` and `AttachKretprobe` prefix the function's
name, with `+` and `.` replaced, by `p_` and `r_`; two names of kprobes are equal exactly when the
kinds and the replaced names are (`kprobeEvName_eq_iff`), so the entry and the return probe on a
function are two events (`attachKprobe_kretprobe`). `AttachUprobe` and `AttachUretprobe` both
format `p_%s_0x%x` of the binary's path and the symbol's address: the name determines the path,
once replaced, and the address (`uprobeEvName_eq_iff`), but not the kind. So a return uprobe on the
target of an entry uprobe takes its event name and its entry in `uprobes`, and the entry probe's
reader is never freed by `Close` (`attachUretprobe_overwrites`, `attachUretprobe_same_evName`).

`AttachMatchingUprobes` lists the symbols of the binary through the cache of `getUserSymbolsAndAddresses`,
so after a failed listing it reports that no symbol matches (`attachMatchingUprobes_retry`).

libbcc and the kernel are an oracle (`BccEnv`): the reader `bpf_attach_kprobe` and
`bpf_attach_uprobe` return, or `nil`, and what `bcc_resolve_symname` resolves a symbol to.
-/

namespace Gobpf.Bcc

open Go

/-- `BPF_PROBE_ENTRY`. -/
def bpfProbeEntry : Nat := 0

/-- `BPF_PROBE_RETURN`. -/
def bpfProbeReturn : Nat := 1

/-- `kprobeRegexp`, `[+.]`, as the class of characters it matches. -/
def kprobeRegexp (c : Char) : Bool := c == '+' || c == '.'

/-- `uprobeRegexp`, `[^a-zA-Z0-9_]`, as the class of characters it matches. -/
def uprobeRegexp (c : Char) : Bool := !(c.isAlphanum || c == '_')

/-- The fields of a bcc `Module` that the probe functions write: the perf reader of each kprobe and
of each uprobe, by event name. A reader is named by a number. -/
structure Module where
  kprobes : AList (fun _ : List Char => Nat)
  uprobes : AList (fun _ : List Char => Nat)

/-- A module as `newModule` creates it. -/
def Module.init : Module := ⟨∅, ∅⟩

/-- What libbcc and the kernel answer the probe functions. -/
structure BccEnv where
  /-- `bpf_attach_kprobe(fd, attachType, evName, fnName, ...)`: a perf reader, or `nil`. -/
  bpfAttachKprobe : Int → Nat → List Char → List Char → Option Nat
  /-- `bpf_attach_uprobe(fd, attachType, evName, path, addr, pid, ...)`: a perf reader, or `nil`. -/
  bpfAttachUprobe : Int → Nat → List Char → List Char → Nat → Int → Option Nat
  /-- `bcc_resolve_symname(module, symname, addr, pid, &symbol)`: the path of the module and the
  offset of the symbol, or a failure. -/
  bccResolveSymname : List Char → List Char → Nat → Int → Option (List Char × Nat)

/-- The errors of the probe functions. -/
inductive AttachError where
  /-- `unable to locate symbol %s in module %s: %v` -/
  | locateSymbol (symname module : List Char)
  /-- `failed to attach BPF kprobe: %v` -/
  | attachKprobe
  /-- `failed to attach BPF uprobe: %v` -/
  | attachUprobe
  /-- `unable to match symbols: %s` -/
  | matchSymbols (err : MatchError)
  /-- `no symbols matching %s for %s found` -/
  | noSymbolsMatching (pattern name : List Char)
  deriving DecidableEq, Repr

/-- What `Close` does with a probe. -/
inductive CloseAction where
  /-- `perf_reader_free` of a reader. -/
  | freeReader (reader : Nat)
  /-- `bpf_detach_kprobe` of an event name. -/
  | detachKprobe (evName : List Char)
  /-- `bpf_detach_uprobe` of an event name. -/
  | detachUprobe (evName : List Char)
  deriving DecidableEq, Repr

/-- `Close`, on the probes: for each kprobe and then each uprobe, in the order the `range` over the
maps visits them, the reader is freed and the event detached. -/
def Module.close (b : Module) : List CloseAction :=
  b.kprobes.entries.flatMap (fun e => [.freeReader e.2, .detachKprobe e.1]) ++
    b.uprobes.entries.flatMap fun e => [.freeReader e.2, .detachUprobe e.1]

section Attach

variable (env : BccEnv)

/-- `resolveSymbolPath(module, symname, addr, pid)`: a `pid` of `-1` is passed as 0. -/
def resolveSymbolPath (module symname : List Char) (addr : Nat) (pid : Int) :
    Except AttachError (List Char × Nat) :=
  match env.bccResolveSymname module symname addr (if pid = -1 then 0 else pid) with
  | some r => .ok r
  | none => .error (.locateSymbol symname module)

/-- `attachProbe`: an event name already in `kprobes` is left as it is. -/
def attachProbe (evName : List Char) (attachType : Nat) (fnName : List Char) (fd : Int)
    (b : Module) : Except AttachError Module :=
  if (b.kprobes.lookup evName).isSome then .ok b
  else
    match env.bpfAttachKprobe fd attachType evName fnName with
    | none => .error .attachKprobe
    | some res => .ok { b with kprobes := b.kprobes.insert evName res }

/-- `attachUProbe`: the reader is stored under the event name, over whatever was there. -/
def attachUProbe (evName : List Char) (attachType : Nat) (path : List Char) (addr : Nat)
    (fd pid : Int) (b : Module) : Except AttachError Module :=
  match env.bpfAttachUprobe fd attachType evName path addr pid with
  | none => .error .attachUprobe
  | some res => .ok { b with uprobes := b.uprobes.insert evName res }

/-- The event name of a kprobe: `pre ++ kprobeRegexp.ReplaceAllString(fnName, "_")`. -/
def kprobeEvName (pre fnName : List Char) : List Char :=
  pre ++ replaceAllClass kprobeRegexp ['_'] fnName

/-- `AttachKprobe` and `AttachKretprobe`: the event name with the prefix `pre` of the kind, attached
with the kind's `attachType`. -/
def attachKprobeAs (pre : List Char) (attachType : Nat) (fnName : List Char) (fd : Int)
    (b : Module) : Except AttachError Module :=
  attachProbe env (kprobeEvName pre fnName) attachType fnName fd b

/-- `AttachKprobe(fnName, fd)`. -/
def attachKprobe : List Char → Int → Module → Except AttachError Module :=
  attachKprobeAs env ['p', '_'] bpfProbeEntry

/-- `AttachKretprobe(fnName, fd)`. -/
def attachKretprobe : List Char → Int → Module → Except AttachError Module :=
  attachKprobeAs env ['r', '_'] bpfProbeReturn

/-- The event name of a uprobe: `fmt.Sprintf(pre ++ "%s_0x%x", uprobeRegexp.ReplaceAllString(path,
"_"), addr)`. -/
def uprobeEvName (pre path : List Char) (addr : Nat) : List Char :=
  pre ++ replaceAllClass uprobeRegexp ['_'] path ++ ['_', '0', 'x'] ++ formatHex addr

/-- `AttachUprobe` and `AttachUretprobe`: the symbol is resolved in the binary, and the event name
formatted with the prefix `pre`, attached with the kind's `attachType`. -/
def attachUprobeAs (pre : List Char) (attachType : Nat) (name symbol : List Char) (fd pid : Int)
    (b : Module) : Except AttachError Module :=
  match resolveSymbolPath env name symbol 0 pid with
  | .error err => .error err
  | .ok (path, addr) => attachUProbe env (uprobeEvName pre path addr) attachType path addr fd pid b

/-- `AttachUprobe(name, symbol, fd, pid)`, with the format `p_%s_0x%x`. -/
def attachUprobe : List Char → List Char → Int → Int → Module → Except AttachError Module :=
  attachUprobeAs env ['p', '_'] bpfProbeEntry

/-- `AttachUretprobe(name, symbol, fd, pid)`, with the format `p_%s_0x%x`. -/
def attachUretprobe : List Char → List Char → Int → Int → Module → Except AttachError Module :=
  attachUprobeAs env ['p', '_'] bpfProbeReturn

/-- The loop of `AttachMatchingUprobes`: each symbol in turn, up to the first error; the probes
attached before it stay. -/
def attachEach (attach : List Char → Module → Except AttachError Module) :
    List SymbolAddress → Module → Except AttachError Unit × Module
  | [], b => (.ok (), b)
  | sym :: syms, b =>
    match attach sym.name b with
    | .error err => (.error err, b)
    | .ok b' => attachEach attach syms b'

/-- `AttachMatchingUprobes` and `AttachMatchingUretprobes`: the matching symbols of the binary,
each attached with `attach`. -/
def attachMatchingAs (attach : List Char → List Char → Int → Int → Module → Except AttachError Module)
    (compile : List Char → Option Regex) (run : ForeachRun) (name pattern : List Char) (fd pid : Int)
    (sc : SymbolCache) (b : Module) : Except AttachError Unit × Module × SymbolCache :=
  match matchUserSymbols compile run name pattern sc with
  | (.error err, sc) => (.error (.matchSymbols err), b, sc)
  | (.ok [], sc) => (.error (.noSymbolsMatching pattern name), b, sc)
  | (.ok symbols, sc) =>
    let (res, b) := attachEach (fun symbol => attach name symbol fd pid) symbols b
    (res, b, sc)

/-- `AttachMatchingUprobes(name, match, fd, pid)`. -/
def attachMatchingUprobes := attachMatchingAs (attachUprobe env)

/-- `AttachMatchingUretprobes(name, match, fd, pid)`. -/
def attachMatchingUretprobes := attachMatchingAs (attachUretprobe env)

end Attach

/-! ## Event names -/

/-- Two kprobe event names with prefixes of one length are equal exactly when the prefixes and the
replaced function names are. -/
theorem kprobeEvName_eq_iff {pre pre' fnName fnName' : List Char} (hlen : pre.length = pre'.length) :
    kprobeEvName pre fnName = kprobeEvName pre' fnName' ↔
      pre = pre' ∧
        replaceAllClass kprobeRegexp ['_'] fnName = replaceAllClass kprobeRegexp ['_'] fnName' := by
  unfold kprobeEvName
  constructor
  · intro h
    exact List.append_inj h hlen
  · rintro ⟨rfl, h⟩
    rw [h]

/-- Two uprobe event names with prefixes of one length are equal exactly when the prefixes, the
replaced paths and the addresses are: the address is written after the last `_`, in hexadecimal. -/
theorem uprobeEvName_eq_iff {pre pre' path path' : List Char} {addr addr' : Nat}
    (hlen : pre.length = pre'.length) :
    uprobeEvName pre path addr = uprobeEvName pre' path' addr' ↔
      pre = pre' ∧
        replaceAllClass uprobeRegexp ['_'] path = replaceAllClass uprobeRegexp ['_'] path' ∧
        addr = addr' := by
  unfold uprobeEvName
  constructor
  · intro h
    simp only [List.append_assoc, List.cons_append, List.nil_append] at h
    obtain ⟨rfl, hrest⟩ := List.append_inj h hlen
    have hnot : ∀ a, '_' ∉ '0' :: 'x' :: formatHex a := fun a => by
      simp [underscore_not_mem_formatHex]
    obtain ⟨hpath, hhex⟩ := append_cons_inj_of_not_mem (hnot addr) (hnot addr') hrest
    exact ⟨rfl, hpath, formatHex_injective (List.cons.inj (List.cons.inj hhex).2).2⟩
  · rintro ⟨rfl, hpath, rfl⟩
    rw [hpath]

/-- The entry and the return kprobe on a function have two event names. -/
theorem kprobeEvName_p_ne_r (fnName fnName' : List Char) :
    kprobeEvName ['p', '_'] fnName ≠ kprobeEvName ['r', '_'] fnName' := fun h => by
  simpa using ((kprobeEvName_eq_iff (by rfl)).1 h).1

/-! ## Attaching -/

section Attach

variable {env : BccEnv}

/-- `attachProbe` leaves an event name it attached, or found, in `kprobes`, and no other name
changes. -/
theorem attachProbe_lookup {evName fnName : List Char} {attachType : Nat} {fd : Int}
    {b b' : Module} (h : attachProbe env evName attachType fnName fd b = .ok b') :
    (b'.kprobes.lookup evName).isSome ∧ ∀ k ≠ evName, b'.kprobes.lookup k = b.kprobes.lookup k := by
  unfold attachProbe at h
  split_ifs at h with hfound
  · obtain rfl := Except.ok.inj h
    exact ⟨hfound, fun _ _ => rfl⟩
  · split at h
    · cases h
    · obtain rfl := Except.ok.inj h
      exact ⟨by simp, fun k hk => AList.lookup_insert_ne hk⟩

/-- `attachUProbe` stores what `bpf_attach_uprobe` returned under the event name. -/
theorem attachUProbe_eq_ok {evName path : List Char} {attachType addr : Nat} {fd pid : Int}
    {b b' : Module} (h : attachUProbe env evName attachType path addr fd pid b = .ok b') :
    ∃ res, env.bpfAttachUprobe fd attachType evName path addr pid = some res ∧
      b' = { b with uprobes := b.uprobes.insert evName res } := by
  unfold attachUProbe at h
  split at h
  · cases h
  · rename_i res hres
    exact ⟨res, hres, (Except.ok.inj h).symm⟩

/-- `AttachUprobe` and `AttachUretprobe` resolve the symbol, then attach under the name the format
`pre ++ "%s_0x%x"` gives. -/
theorem attachUprobeAs_eq_ok {pre name symbol : List Char} {attachType : Nat} {fd pid : Int}
    {b b' : Module} (h : attachUprobeAs env pre attachType name symbol fd pid b = .ok b') :
    ∃ path addr, resolveSymbolPath env name symbol 0 pid = .ok (path, addr) ∧
      attachUProbe env (uprobeEvName pre path addr) attachType path addr fd pid b = .ok b' := by
  unfold attachUprobeAs at h
  split at h
  · cases h
  · rename_i path addr hres
    exact ⟨path, addr, hres, h⟩

/-- **An entry and a return kprobe on a function are two probes.** After `AttachKprobe` and
`AttachKretprobe` on a function, `kprobes` holds both event names, which differ, so `Close`
detaches both. -/
theorem attachKprobe_kretprobe {fnName : List Char} {fd : Int} {b b₁ b₂ : Module}
    (h₁ : attachKprobe env fnName fd b = .ok b₁) (h₂ : attachKretprobe env fnName fd b₁ = .ok b₂) :
    kprobeEvName ['p', '_'] fnName ≠ kprobeEvName ['r', '_'] fnName ∧
      (b₂.kprobes.lookup (kprobeEvName ['p', '_'] fnName)).isSome ∧
      (b₂.kprobes.lookup (kprobeEvName ['r', '_'] fnName)).isSome := by
  have hne := kprobeEvName_p_ne_r fnName fnName
  obtain ⟨hentry, -⟩ := attachProbe_lookup h₁
  obtain ⟨hret, hkeep⟩ := attachProbe_lookup h₂
  exact ⟨hne, by rw [hkeep _ hne]; exact hentry, hret⟩

/-- **A return uprobe takes the entry uprobe's place.** After `AttachUprobe` and then
`AttachUretprobe` on one symbol of one binary, both attached under one event name: `uprobes` keeps
only the return probe's reader under it, and has no more names than after the entry probe. -/
theorem attachUretprobe_overwrites {name symbol : List Char} {fd pid : Int} {b b₁ b₂ : Module}
    (h₁ : attachUprobe env name symbol fd pid b = .ok b₁)
    (h₂ : attachUretprobe env name symbol fd pid b₁ = .ok b₂) :
    ∃ path addr r₁ r₂, resolveSymbolPath env name symbol 0 pid = .ok (path, addr) ∧
      env.bpfAttachUprobe fd bpfProbeEntry (uprobeEvName ['p', '_'] path addr) path addr pid =
        some r₁ ∧
      env.bpfAttachUprobe fd bpfProbeReturn (uprobeEvName ['p', '_'] path addr) path addr pid =
        some r₂ ∧
      b₂.uprobes.lookup (uprobeEvName ['p', '_'] path addr) = some r₂ ∧
      b₂.uprobes.keys = b₁.uprobes.keys := by
  obtain ⟨path, addr, hres, hu₁⟩ := attachUprobeAs_eq_ok h₁
  obtain ⟨path', addr', hres', hu₂⟩ := attachUprobeAs_eq_ok h₂
  obtain ⟨rfl, rfl⟩ := Prod.mk.inj (Except.ok.inj (hres.symm.trans hres'))
  obtain ⟨r₁, hr₁, rfl⟩ := attachUProbe_eq_ok hu₁
  obtain ⟨r₂, hr₂, rfl⟩ := attachUProbe_eq_ok hu₂
  refine ⟨path, addr, r₁, r₂, hres, hr₁, hr₂, by simp, ?_⟩
  simp [AList.keys_insert]

end Attach

/-- With `bcc_resolve_symname` resolving `malloc` in `c` to the offset `0x9a0c0` of
`/lib/libc.so.6` and `bpf_attach_uprobe` returning the reader `1` for an entry and `2` for a return
probe, `AttachUprobe` and then `AttachUretprobe` use the one event name `p__lib_libc_so_6_0x9a0c0`:
`uprobes` holds the return probe's reader only, and `Close` detaches one uprobe and never frees
the reader `1`. -/
theorem attachUretprobe_same_evName :
    let env : BccEnv :=
      ⟨fun _ _ _ _ => none, fun _ attachType _ _ _ _ => some (attachType + 1),
        fun _ _ _ _ => some ("/lib/libc.so.6".toList, 0x9a0c0)⟩
    ((attachUprobe env ['c'] "malloc".toList 3 (-1) Module.init).toOption.bind fun b₁ =>
      (attachUretprobe env ['c'] "malloc".toList 3 (-1) b₁).toOption.map fun b₂ =>
        (b₁.uprobes.keys, b₂.uprobes.keys, b₂.close)) =
      some (["p__lib_libc_so_6_0x9a0c0".toList], ["p__lib_libc_so_6_0x9a0c0".toList],
        [.freeReader 2, .detachUprobe "p__lib_libc_so_6_0x9a0c0".toList]) := by
  decide

/-- A listing of the symbols of `c` that fails having delivered none is cached: the next call
returns the empty list without error, where the listing would now deliver `malloc`; and
`AttachMatchingUprobes` reports the failed listing once, and then that no symbol matches. -/
theorem attachMatchingUprobes_retry :
    (runCalls [(['c'], ⟨[], -1⟩), (['c'], ⟨[⟨"malloc".toList, 0x9a0c0⟩], 0⟩)] SymbolCache.init).1 =
      [.error ⟨['c']⟩, .ok []] ∧
    let env : BccEnv :=
      ⟨fun _ _ _ _ => none, fun _ _ _ _ _ _ => some 1,
        fun _ _ _ _ => some ("/lib/libc.so.6".toList, 0x9a0c0)⟩
    let compile : List Char → Option Regex := fun _ => some (Regex.char 'm')
    let first := attachMatchingUprobes env compile ⟨[], -1⟩ ['c'] "malloc".toList 3 (-1)
      SymbolCache.init Module.init
    first.1 = .error (.matchSymbols (.listSymbols ⟨['c']⟩)) ∧
      (attachMatchingUprobes env compile ⟨[⟨"malloc".toList, 0x9a0c0⟩], 0⟩ ['c'] "malloc".toList 3
        (-1) first.2.2 first.2.1).1 = .error (.noSymbolsMatching "malloc".toList ['c']) := by
  decide

end Gobpf.Bcc
