import Gobpf.Elf.PerfRead
import Gobpf.Elf.Pinning

/-!
# Relocating a BPF program

`relocate` reads the entries of an `SHT_REL` section one after the other, and patches the
instruction each names in the program's bytes `rdata` so that it loads the fd of a map. It checks
each entry only in part:

* `symbols[symNo-1]` panics for the symbol number `0` and for one past the symbol table;
* `&rdata[offset]` panics for an offset past the program;
* `file.Sections[symbol.Section]` panics for a special section index such as `SHN_ABS`;
* `bpf_apply_relocation` writes bytes 1 to 7 of the instruction through an unsafe pointer, past
  the end of `rdata` for an offset in its last seven bytes.

The model returns each of these as an error of its own (`LoadError.panic`,
`LoadError.outsideSlice`), so that the faults are visible. A run that succeeds has patched every
entry's instruction with the fd of the map its symbol lies in (`relocate_eq_ok`), which is
`relocated`, the meaning of a relocation section.

The object file is taken as `debug/elf` parses it: its class and byte order, its sections with
their name, type, `sh_info` and data, and its symbol table without the null symbol.
-/

namespace Gobpf.Elf

open Gobpf.Go

/-- `ELFCLASS32`, `ELFCLASS64`, or a class the loader does not support. -/
inductive ElfClass where
  | elfClass32
  | elfClass64
  | other
  deriving DecidableEq, Repr

/-- `binary.LittleEndian` or `binary.BigEndian`, `file.ByteOrder`. -/
inductive ByteOrder where
  | littleEndian
  | bigEndian
  deriving DecidableEq, Repr

/-- The unsigned integer `binary.Read` reads from bytes in this order. -/
def ByteOrder.uint : ByteOrder → List UInt8 → Nat
  | .littleEndian, bs => leValue bs
  | .bigEndian, bs => leValue bs.reverse

/-- `SHT_REL`, or any other section type. -/
inductive SectionType where
  | shtRel
  | other
  deriving DecidableEq, Repr

/-- An `elf.Section`: its name, type, `sh_info`, and what `section.Data()` returns. -/
structure Section where
  name : List Char
  type : SectionType
  info : Nat
  data : List UInt8
  deriving DecidableEq, Repr

/-- An `elf.Symbol`: its name and `st_shndx`, `symbol.Section`. -/
structure Symbol where
  name : List Char
  sectionIndex : Nat
  deriving DecidableEq, Repr

/-- An `elf.File`: `file.Symbols()` is `none` for its error. -/
structure File where
  elfClass : ElfClass
  byteOrder : ByteOrder
  sections : List Section
  symbols : Option (List Symbol)

/-- The errors of `relocate` and `Load`, and the faults of the Go run time. -/
inductive LoadError where
  /-- A run-time panic: an index out of range. -/
  | panic
  /-- A write through an unsafe pointer past the end of a slice. -/
  | outsideSlice
  /-- The error of `file.Symbols()`. -/
  | symbols
  /-- The error of `binary.Read` on a truncated entry, `io.ErrUnexpectedEOF`. -/
  | unexpectedEOF
  /-- `architecture not supported` -/
  | architecture
  /-- `invalid relocation: insn code=%#x, symbol name=%s ...` -/
  | invalidRelocation (code : UInt8) (symbolName : List Char)
  /-- `map location not supported: map %q is in section %q instead of "maps/%s"` -/
  | mapLocation (symbolName sectionName : List Char)
  /-- `relocation error, symbol %q not found in section %q` -/
  | relocation (symbolName sectionName : List Char)
  /-- `error while loading %q (%v):\n%s` -/
  | progLoad (secName : List Char)
  deriving DecidableEq, Repr

/-- The faults: what Go does not return as an error. -/
def LoadError.isFault : LoadError → Bool
  | .panic | .outsideSlice => true
  | _ => false

/-- The size of an `elf.Rel64` or an `elf.Rel32`. -/
def ElfClass.relSize : ElfClass → Nat
  | .elfClass64 => 16
  | .elfClass32 => 8
  | .other => 0

/-- `rel.Off` and the symbol number of an entry: `rel.Info >> 32` of an `elf.Rel64`,
`rel.Info >> 8` of an `elf.Rel32`. -/
def ElfClass.readRel (cls : ElfClass) (order : ByteOrder) (entry : List UInt8) : Nat × Nat :=
  match cls with
  | .elfClass64 => (order.uint (entry.take 8), order.uint (entry.drop 8) >>> 32)
  | .elfClass32 => (order.uint (entry.take 4), order.uint (entry.drop 4) >>> 8)
  | .other => (0, 0)

/-- `BPF_LD | BPF_IMM | BPF_DW`, the code of a 64-bit immediate load. -/
def bpfLdImmDw : UInt8 := 0x18

/-- `BPF_PSEUDO_MAP_FD`. -/
def bpfPseudoMapFd : UInt8 := 1

/-- `bpf_apply_relocation(fd, insn)` on the eight bytes of a `struct bpf_insn` as a little-endian
host lays it out: `src_reg`, the high half of byte 1, becomes `BPF_PSEUDO_MAP_FD`, and `imm`,
bytes 4 to 7, becomes `fd`. -/
def applyRelocation (fd : Nat) : List UInt8 → List UInt8
  | code :: regs :: off₀ :: off₁ :: _ =>
    code :: (regs &&& (0x0f : UInt8) ||| bpfPseudoMapFd <<< (4 : UInt8)) :: off₀ :: off₁ ::
      leBytes 4 fd
  | insn => insn

/-- The instruction at `off` of `rdata` replaced by `f` of it. -/
def patchAt (off : Nat) (f : List UInt8 → List UInt8) (rdata : List UInt8) : List UInt8 :=
  rdata.take off ++ f ((rdata.drop off).take 8) ++ rdata.drop (off + 8)

/-- One turn of `relocate`'s loop, on the entry `(off, symNo)`: the program with the entry's
instruction patched. -/
def relocateEntry (sections : List Section) (symbols : List Symbol)
    (mapFd : List Char → Option Nat) (off symNo : Nat) (rdata : List UInt8) :
    Except LoadError (List UInt8) :=
  -- `symbols[symNo-1]`, where `symNo - 1` wraps around for `symNo = 0`
  match (if symNo = 0 then none else symbols[symNo - 1]?) with
  | none => .error .panic
  | some symbol =>
    match rdata[off]? with
    | none => .error .panic
    | some code =>
      -- both branches read `file.Sections[symbol.Section]`
      match sections[symbol.sectionIndex]? with
      | none => .error .panic
      | some symbolSec =>
        if code ≠ bpfLdImmDw then .error (.invalidRelocation code symbol.name)
        else if !hasPrefix symbolSec.name mapsPrefix then
          .error (.mapLocation symbol.name symbolSec.name)
        else
          match mapFd (trimPrefix symbolSec.name mapsPrefix) with
          | none => .error (.relocation symbol.name symbolSec.name)
          | some fd =>
            if rdata.length < off + 8 then .error .outsideSlice
            else .ok (patchAt off (applyRelocation fd) rdata)

/-- The loop of `relocate` over the entries of the relocation section, as `binary.Read` reads
them: a last entry shorter than the others is `io.ErrUnexpectedEOF`, and the end is `io.EOF`. -/
def relocateEntries (file : File) (symbols : List Symbol) (mapFd : List Char → Option Nat) :
    List (List UInt8) → List UInt8 → Except LoadError (List UInt8)
  | [], rdata => .ok rdata
  | entry :: entries, rdata =>
    if entry.length < file.elfClass.relSize then .error .unexpectedEOF
    else
      let (off, symNo) := file.elfClass.readRel file.byteOrder entry
      match relocateEntry file.sections symbols mapFd off symNo rdata with
      | .error err => .error err
      | .ok rdata' => relocateEntries file symbols mapFd entries rdata'

/-- `relocate(data, rdata)`: the program `rdata` as the relocation section `data` patches it.
`mapFd` gives the fd of the module's map of each name, `b.Map(name)`. -/
def relocate (file : File) (mapFd : List Char → Option Nat) (data rdata : List UInt8) :
    Except LoadError (List UInt8) :=
  match file.symbols with
  | none => .error .symbols
  | some symbols =>
    if file.elfClass = .other then .error .architecture
    else relocateEntries file symbols mapFd (data.toChunks file.elfClass.relSize) rdata

/-! ## What a relocation section means -/

/-- The name of the map an entry's symbol lies in: its section is `maps/<name>`. -/
def entryMap (sections : List Section) (symbols : List Symbol) (symNo : Nat) :
    Option (List Char) := do
  let symbol ← symbols[symNo - 1]?
  let symbolSec ← sections[symbol.sectionIndex]?
  return trimPrefix symbolSec.name mapsPrefix

/-- The program with every instruction named by an entry of `data` loading the fd of the map its
symbol lies in. -/
def relocated (file : File) (symbols : List Symbol) (mapFd : List Char → Option Nat)
    (data rdata : List UInt8) : List UInt8 :=
  (data.toChunks file.elfClass.relSize).foldl (fun r entry =>
    let (off, symNo) := file.elfClass.readRel file.byteOrder entry
    patchAt off (applyRelocation (((entryMap file.sections symbols symNo).bind mapFd).getD 0)) r)
    rdata

/-! ## One entry -/

/-- An entry that `relocateEntry` accepts patches its instruction with the fd of its map. -/
theorem relocateEntry_eq_ok {sections : List Section} {symbols : List Symbol}
    {mapFd : List Char → Option Nat} {off symNo : Nat} {rdata r : List UInt8}
    (h : relocateEntry sections symbols mapFd off symNo rdata = .ok r) :
    ∃ fd, (entryMap sections symbols symNo).bind mapFd = some fd ∧
      r = patchAt off (applyRelocation fd) rdata := by
  unfold relocateEntry at h
  split at h
  · cases h
  · rename_i symbol hsym
    have hsym' : symbols[symNo - 1]? = some symbol := by
      split_ifs at hsym
      exact hsym
    split at h
    · cases h
    · split at h
      · cases h
      · rename_i symbolSec hsec
        split_ifs at h <;> split at h <;> cases h
        rename_i fd hfd
        exact ⟨fd, by simp [entryMap, hsym', hsec, hfd], rfl⟩

/-- The faults of one entry: an entry within the tables and the program does not fault. -/
theorem relocateEntry_not_fault {sections : List Section} {symbols : List Symbol}
    {mapFd : List Char → Option Nat} {off symNo : Nat} {rdata : List UInt8}
    (hsym : 0 < symNo ∧ symNo ≤ symbols.length)
    (hsec : ∀ symbol, symbols[symNo - 1]? = some symbol → symbol.sectionIndex < sections.length)
    (hoff : off + 8 ≤ rdata.length) {err : LoadError}
    (h : relocateEntry sections symbols mapFd off symNo rdata = .error err) : err.isFault = false := by
  have hsome : symbols[symNo - 1]? = some symbols[symNo - 1] := List.getElem?_eq_getElem (by omega)
  have hsec' := hsec _ hsome
  unfold relocateEntry at h
  rw [if_neg (by omega), hsome] at h
  dsimp only at h
  rw [List.getElem?_eq_getElem (by omega)] at h
  dsimp only at h
  rw [List.getElem?_eq_getElem hsec'] at h
  dsimp only at h
  split_ifs at h with hcode hpre hlen
  · cases h
    rfl
  · cases h
    rfl
  · omega
  · split at h
    · cases h
      rfl
    · cases h

/-- `bpf_apply_relocation` writes eight bytes over eight bytes. -/
theorem length_applyRelocation (fd : Nat) {insn : List UInt8} (h : insn.length = 8) :
    (applyRelocation fd insn).length = 8 := by
  obtain _ | ⟨code, _ | ⟨regs, _ | ⟨off₀, _ | ⟨off₁, rest⟩⟩⟩⟩ := insn
  all_goals simp [applyRelocation] at h ⊢

/-- Patching an instruction inside the program keeps its length. -/
theorem length_patchAt_applyRelocation (fd : Nat) {off : Nat} {rdata : List UInt8}
    (h : off + 8 ≤ rdata.length) : (patchAt off (applyRelocation fd) rdata).length = rdata.length := by
  have hinsn : ((rdata.drop off).take 8).length = 8 := by simp; omega
  simp only [patchAt, List.length_append, length_applyRelocation fd hinsn, List.length_take,
    List.length_drop]
  omega

/-! ## The loop -/

/-- A run of the loop that succeeds is the fold of its entries' patches. -/
theorem relocateEntries_eq_ok {file : File} {symbols : List Symbol}
    {mapFd : List Char → Option Nat} :
    ∀ {entries : List (List UInt8)} {rdata r : List UInt8},
      relocateEntries file symbols mapFd entries rdata = .ok r →
      r = entries.foldl (fun r entry =>
        let (off, symNo) := file.elfClass.readRel file.byteOrder entry
        patchAt off (applyRelocation (((entryMap file.sections symbols symNo).bind mapFd).getD 0))
          r) rdata
  | [], _, _, h => by
    cases h
    rfl
  | entry :: entries, rdata, r, h => by
    unfold relocateEntries at h
    split_ifs at h
    rcases hrel : file.elfClass.readRel file.byteOrder entry with ⟨off, symNo⟩
    rw [hrel] at h
    dsimp only at h
    split at h
    · cases h
    · rename_i rdata' hentry
      obtain ⟨fd, hfd, rfl⟩ := relocateEntry_eq_ok hentry
      rw [List.foldl_cons, hrel]
      simpa [hfd] using relocateEntries_eq_ok h

/-- **A relocation that succeeds patches every entry's instruction with the fd of its map.** -/
theorem relocate_eq_ok {file : File} {mapFd : List Char → Option Nat} {data rdata r : List UInt8}
    (h : relocate file mapFd data rdata = .ok r) :
    ∃ symbols, file.symbols = some symbols ∧ r = relocated file symbols mapFd data rdata := by
  unfold relocate at h
  split at h
  · cases h
  · rename_i symbols hsymbols
    split_ifs at h
    exact ⟨symbols, hsymbols, relocateEntries_eq_ok h⟩

/-! ## Entries within the tables -/

/-- An entry that names a symbol of the table, whose section is a section of the file, and an
instruction within a program of `len` bytes. -/
def EntryInRange (file : File) (symbols : List Symbol) (len : Nat) (entry : List UInt8) : Prop :=
  let rel := file.elfClass.readRel file.byteOrder entry
  (0 < rel.2 ∧ rel.2 ≤ symbols.length) ∧
    (∀ symbol ∈ symbols[rel.2 - 1]?, symbol.sectionIndex < file.sections.length) ∧
    rel.1 + 8 ≤ len

instance (file : File) (symbols : List Symbol) (len : Nat) (entry : List UInt8) :
    Decidable (EntryInRange file symbols len entry) := by
  unfold EntryInRange
  infer_instance

/-- Run: a loop over entries within the tables does not fault. -/
theorem relocateEntries_not_fault {file : File} {symbols : List Symbol}
    {mapFd : List Char → Option Nat} :
    ∀ {entries : List (List UInt8)} {rdata : List UInt8} {err : LoadError},
      (∀ entry ∈ entries, file.elfClass.relSize ≤ entry.length →
        EntryInRange file symbols rdata.length entry) →
      relocateEntries file symbols mapFd entries rdata = .error err → err.isFault = false
  | [], _, _, _, h => by cases h
  | entry :: entries, rdata, err, hin, h => by
    unfold relocateEntries at h
    split_ifs at h with hshort
    · cases h
      rfl
    rcases hrel : file.elfClass.readRel file.byteOrder entry with ⟨off, symNo⟩
    have hentry := hin entry List.mem_cons_self (Nat.le_of_not_lt hshort)
    simp only [EntryInRange, hrel] at hentry
    obtain ⟨hsym, hsec, hoff⟩ := hentry
    rw [hrel] at h
    dsimp only at h
    split at h
    · rename_i err' hentry
      cases h
      exact relocateEntry_not_fault hsym hsec hoff hentry
    · rename_i rdata' hentry
      obtain ⟨fd, -, rfl⟩ := relocateEntry_eq_ok hentry
      refine relocateEntries_not_fault (fun e he hlen => ?_) h
      rw [length_patchAt_applyRelocation fd hoff]
      exact hin e (List.mem_cons_of_mem _ he) hlen

/-- **A relocation whose entries lie within the tables does not fault.** -/
theorem relocate_not_fault {file : File} {mapFd : List Char → Option Nat}
    {data rdata : List UInt8} {err : LoadError}
    (hin : ∀ symbols, file.symbols = some symbols →
      ∀ entry ∈ data.toChunks file.elfClass.relSize, file.elfClass.relSize ≤ entry.length →
        EntryInRange file symbols rdata.length entry)
    (h : relocate file mapFd data rdata = .error err) : err.isFault = false := by
  unfold relocate at h
  split at h
  · cases h
    rfl
  · rename_i symbols hsymbols
    split_ifs at h
    · cases h
      rfl
    · exact relocateEntries_not_fault (hin symbols hsymbols) h

end Gobpf.Elf
