import Gobpf.Elf.Relocate

/-!
# Loading the programs of an object file

After reading the maps, `Module.Load` makes two passes over the sections of the object file,
sharing an array `processed` of the sections already handled:

1. each non-empty `SHT_REL` section marks itself and the section its `sh_info` names; when that
   section holds a program, it is relocated and loaded;
2. each section not yet processed that holds a program is loaded as it is.

A section holds a program when its name has one of the prefixes `kprobe/`, `kretprobe/`,
`cgroup/skb`, `cgroup/sock`, `socket`, `tracepoint/`, `sched_cls/`, `sched_act/`; the prefix
decides the program type and the registry the program is kept in, under the section's name.

The passes read `file.Sections[section.Info]` without a bound, and `relocate` indexes its tables
with the entries' numbers, so an object file can make `Load` panic: a relocation entry for the
symbol number `0` does (`loadPrograms_symbol_zero`). `EnableTracepoint` takes the group and the
name of a tracepoint from the section's name without checking that it has them.

The passes are modelled by the programs they load, in order; `bpf_prog_load` is an oracle that
says whether the kernel accepts a program. The license, the version and the maps are read before
and are left out.
-/

namespace Gobpf.Elf

open Gobpf.Go

/-- The kinds of program, by the prefix of their section's name. -/
inductive ProgKind where
  | kprobe
  | kretprobe
  | cgroupSkb
  | cgroupSock
  | socketFilter
  | tracepoint
  | schedCls
  | schedAct
  deriving DecidableEq, Repr

/-- The kind of program a section holds, from `isKprobe`, `isKretprobe`, ...: the first prefix its
name has. -/
def progKind (secName : List Char) : Option ProgKind :=
  if hasPrefix secName "kprobe/".toList then some .kprobe
  else if hasPrefix secName "kretprobe/".toList then some .kretprobe
  else if hasPrefix secName "cgroup/skb".toList then some .cgroupSkb
  else if hasPrefix secName "cgroup/sock".toList then some .cgroupSock
  else if hasPrefix secName "socket".toList then some .socketFilter
  else if hasPrefix secName "tracepoint/".toList then some .tracepoint
  else if hasPrefix secName "sched_cls/".toList then some .schedCls
  else if hasPrefix secName "sched_act/".toList then some .schedAct
  else none

/-- `progType`: `BPF_PROG_TYPE_KPROBE` and the others, as `include/bpf.h` numbers them. -/
def ProgKind.progType : ProgKind → Nat
  | .kprobe | .kretprobe => 2
  | .cgroupSkb => 8
  | .cgroupSock => 9
  | .socketFilter => 1
  | .tracepoint => 5
  | .schedCls => 3
  | .schedAct => 4

/-- The registries of a `Module`. -/
inductive Registry where
  | probes
  | cgroupPrograms
  | socketFilters
  | tracepointPrograms
  | schedPrograms
  deriving DecidableEq, Repr

/-- The registry a program is kept in. -/
def ProgKind.registry : ProgKind → Registry
  | .kprobe | .kretprobe => .probes
  | .cgroupSkb | .cgroupSock => .cgroupPrograms
  | .socketFilter => .socketFilters
  | .tracepoint => .tracepointPrograms
  | .schedCls | .schedAct => .schedPrograms

/-- A call of `bpf_prog_load` that succeeded: the program's kind, the name of its section, under
which it is registered, and its instructions. -/
structure Program where
  kind : ProgKind
  secName : List Char
  insns : List UInt8
  deriving DecidableEq, Repr

section Passes

variable (file : File) (mapFd : List Char → Option Nat) (progLoad : Nat → List UInt8 → Bool)

/-- The first loop of `Load`, from section `i` on. -/
def loadRel : Nat → List Section → List Nat → List Program →
    Except LoadError (List Nat × List Program)
  | _, [], processed, progs => .ok (processed, progs)
  | i, s :: rest, processed, progs =>
    if i ∈ processed then loadRel (i + 1) rest processed progs
    else if s.data = [] then loadRel (i + 1) rest processed progs
    else if s.type = .shtRel then
      match file.sections[s.info]? with
      | none => .error .panic
      | some rsection =>
        let processed := s.info :: i :: processed
        match progKind rsection.name with
        | none => loadRel (i + 1) rest processed progs
        | some kind =>
          if rsection.data = [] then loadRel (i + 1) rest processed progs
          else
            match relocate file mapFd s.data rsection.data with
            | .error err => .error err
            | .ok insns =>
              if progLoad kind.progType insns then
                loadRel (i + 1) rest processed (progs ++ [⟨kind, rsection.name, insns⟩])
              else .error (.progLoad rsection.name)
    else loadRel (i + 1) rest processed progs

/-- The second loop of `Load`, from section `i` on. -/
def loadProgs (processed : List Nat) : Nat → List Section → List Program →
    Except LoadError (List Program)
  | _, [], progs => .ok progs
  | i, s :: rest, progs =>
    if i ∈ processed then loadProgs processed (i + 1) rest progs
    else
      match progKind s.name with
      | none => loadProgs processed (i + 1) rest progs
      | some kind =>
        if s.data = [] then loadProgs processed (i + 1) rest progs
        else if progLoad kind.progType s.data then
          loadProgs processed (i + 1) rest (progs ++ [⟨kind, s.name, s.data⟩])
        else .error (.progLoad s.name)

/-- The two loops of `Module.Load`: the programs it loads, in order. -/
def loadPrograms : Except LoadError (List Program) :=
  match loadRel file mapFd progLoad 0 file.sections [] [] with
  | .error err => .error err
  | .ok (processed, progs) => loadProgs progLoad processed 0 file.sections progs

end Passes

/-- The program registered in `registry` under `secName`: the last one loaded, since a later
assignment to the Go map replaces an earlier one. -/
def registered (progs : List Program) (registry : Registry) (secName : List Char) :
    Option Program :=
  (progs.filter fun p => p.kind.registry = registry ∧ p.secName = secName).getLast?

/-- The errors of `EnableTracepoint`. -/
inductive TracepointError where
  /-- `no such tracepoint program %q` -/
  | noSuchProgram (secName : List Char)
  /-- A run-time panic: an index out of range. -/
  | panic
  deriving DecidableEq, Repr

/-- `EnableTracepoint(secName)`: the category and the name of the tracepoint it writes with
`writeTracepointEvent`, before it opens the perf event. -/
def enableTracepoint (progs : List Program) (secName : List Char) :
    Except TracepointError (List Char × List Char) :=
  match registered progs .tracepointPrograms secName with
  | none => .error (.noSuchProgram secName)
  | some _ =>
    let tracepointGroup := splitN secName '/' 3
    match tracepointGroup[1]?, tracepointGroup[2]? with
    | some category, some name => .ok (category, name)
    | _, _ => .error .panic

/-- A relocation entry for the symbol number `0` makes `Load` panic, on an object file whose
symbol table and map would serve an entry for symbol `1`; and a tracepoint program in a section
named `tracepoint/<name>`, which `Load` registers, makes `EnableTracepoint` panic. -/
theorem loadPrograms_symbol_zero :
    loadPrograms
      ⟨.elfClass64, .littleEndian,
        [⟨[], .other, 0, []⟩,
          ⟨"kprobe/f".toList, .other, 0, [0x18, 0, 0, 0, 0, 0, 0, 0, 0, 0, 0, 0, 0, 0, 0, 0]⟩,
          ⟨"maps/m".toList, .other, 0, [0]⟩,
          ⟨".relkprobe/f".toList, .shtRel, 1, List.replicate 16 0⟩],
        some [⟨['m'], 2⟩]⟩
      (fun name => if name = ['m'] then some 7 else none) (fun _ _ => true) = .error .panic ∧
    ((loadPrograms
      ⟨.elfClass64, .littleEndian, [⟨"tracepoint/f".toList, .other, 0, List.replicate 8 0⟩], none⟩
      (fun _ => none) (fun _ _ => true)).toOption.map
        fun progs => (enableTracepoint progs "tracepoint/f".toList).toOption) = some none := by
  decide

end Gobpf.Elf
