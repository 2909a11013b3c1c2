import Gobpf.Go.Filepath
import Gobpf.Go.Strings

/-!
# Where the elf package pins and unpins BPF objects

The elf package pins maps and objects in the bpf filesystem at `BPFFSPath`, `/sys/fs/bpf/`, and
unpins maps there when a module is closed. Every path is built by `filepath.Join`, which cleans it
and so resolves the `..` elements of the namespace, section name or pin path it is given.

* `validateMapPath` and `validPinPath` accept only a clean path strictly inside the bpf filesystem
  (`cleanUnder_inBpffs`), so the maps that `elfReadMaps` pins are pinned there
  (`elfReadMaps_inBpffs`), and so are the objects that `PinObject` pins (`pinObject_inBpffs`).
* `PinObjectGlobal` and `unpinMap` check nothing. A namespace and a name that are single names pin
  at `/sys/fs/bpf/<namespace>/globals/<name>` (`pinObjectGlobal_names`), but a pin path given to
  `CloseExt`, or a namespace given to `PinObjectGlobal`, can leave the bpf filesystem
  (`closeMaps_unpin_escapes`).

The filesystem and the bpf syscalls are left out: a pinning function is modelled by the path it
pins at, and `closeMaps` by the paths it unlinks, given which unlinks succeed.
-/

namespace Gobpf.Elf

open Gobpf.Go

/-- `BPFFSPath`, `/sys/fs/bpf/`, where the bpf filesystem is mounted. -/
def bpffsPath : List Char := ['/', 's', 'y', 's', '/', 'f', 's', '/', 'b', 'p', 'f', '/']

/-- `BPFDirGlobals`, `globals`, as in iproute2's `BPF_DIR_GLOBALS`. -/
def bpfDirGlobals : List Char := ['g', 'l', 'o', 'b', 'a', 'l', 's']

/-- `maps/`, the prefix of the name of a map's section. -/
def mapsPrefix : List Char := ['m', 'a', 'p', 's', '/']

/-- `PIN_OBJECT_NS`. -/
def pinObjectNs : Nat := 1

/-- `PIN_GLOBAL_NS`. -/
def pinGlobalNs : Nat := 2

/-- `PIN_CUSTOM_NS`. -/
def pinCustomNs : Nat := 3

/-- `BUF_SIZE_MAP_NS`. -/
def bufSizeMapNs : Nat := 256

/-- The fields of a `bpf_map_def` that its pin path reads. -/
structure MapDef where
  pinning : Nat
  /-- The bytes of `namespace[BUF_SIZE_MAP_NS]`. -/
  ns : List Char
  deriving DecidableEq, Repr

/-- `SectionParams`, of which the map paths read `PinPath`. -/
structure SectionParams where
  pinPath : List Char := []

/-- `CloseOptions`. -/
structure CloseOptions where
  unpin : Bool := false
  pinPath : List Char := []

/-- The errors of the pin-path functions. -/
inductive PinPathError where
  /-- `not implemented yet` -/
  | notImplemented
  /-- `map %q has empty namespace` -/
  | emptyNamespace (mapName : List Char)
  /-- `no pin path given for map %q with PIN_CUSTOM_NS` -/
  | noPinPath (mapName : List Char)
  /-- `invalid path %q` -/
  | invalidPath (path : List Char)
  /-- `not a valid pin path: %s` -/
  | notValidPinPath (pinPath : List Char)
  deriving DecidableEq, Repr

/-- `getMapNamespace`: the namespace up to its first NUL, `C.GoStringN` of `C.strnlen`. -/
def getMapNamespace (mapDef : MapDef) : List Char :=
  (mapDef.ns.take bufSizeMapNs).takeWhile (· != '\x00')

/-- `getMapPath`: where a map is pinned, by its pin setting; `""` for a map that is not pinned. -/
def getMapPath (mapDef : MapDef) (mapName pinPath : List Char) : Except PinPathError (List Char) :=
  if mapDef.pinning = pinObjectNs then .error .notImplemented
  else if mapDef.pinning = pinGlobalNs then
    let nsName := getMapNamespace mapDef
    if nsName = [] then .error (.emptyNamespace mapName)
    else .ok (join [bpffsPath, nsName, bpfDirGlobals, mapName])
  else if mapDef.pinning = pinCustomNs then
    if pinPath = [] then .error (.noPinPath mapName)
    else .ok (join [bpffsPath, pinPath])
  else .ok []

/-- The check that `validateMapPath` and `validPinPath` both make: `path` begins with `root`, and
`filepath.Clean` leaves it unchanged. -/
def cleanUnder (root path : List Char) : Bool :=
  hasPrefix path root && clean path == path

/-- `validateMapPath`. -/
def validateMapPath (path : List Char) : Bool :=
  cleanUnder bpffsPath path

/-- `validPinPath`. -/
def validPinPath (pinPath : List Char) : Bool :=
  cleanUnder bpffsPath pinPath

/-- `createMapPath`: the path at which `elfReadMaps` loads the map, `""` for a map that is not
pinned. -/
def createMapPath (mapDef : MapDef) (mapName : List Char) (params : SectionParams) :
    Except PinPathError (List Char) :=
  match getMapPath mapDef mapName params.pinPath with
  | .error err => .error err
  | .ok mapPath =>
    if mapPath = [] then .ok []
    else if !validateMapPath mapPath then .error (.invalidPath mapPath)
    -- `createPinPath` mounts the bpf filesystem and creates the path's directory
    else .ok mapPath

/-- A section of the object file as `elfReadMaps` reads it: its name, and its data as a
`bpf_map_def` when it has that struct's size. -/
structure MapSection where
  name : List Char
  mapDef : Option MapDef

/-- A map that `elfReadMaps` loaded: its name, its definition and the path it gave
`bpf_load_map`. -/
structure Map where
  name : List Char
  mapDef : MapDef
  path : List Char

/-- Whether `bpf_load_map` pins the map at its path, or opens the object pinned there. -/
def Map.pinned (m : Map) : Bool :=
  m.mapDef.pinning == pinGlobalNs || m.mapDef.pinning == pinCustomNs

/-- The errors of `elfReadMaps`. -/
inductive ReadMapsError where
  /-- `only one map with size %d bytes allowed per section (check bpf_map_def)` -/
  | mapSize
  /-- An error of `createMapPath`. -/
  | mapPath (err : PinPathError)
  /-- `duplicate map: %q and %q` -/
  | duplicateMap (name : List Char)

/-- `elfReadMaps`: the maps of the `maps/` sections, in the order of the sections, after `maps`.
`bpf_load_map` is taken to succeed. -/
def elfReadMaps (params : List Char → SectionParams) :
    List MapSection → List Map → Except ReadMapsError (List Map)
  | [], maps => .ok maps
  | s :: ss, maps =>
    if !hasPrefix s.name mapsPrefix then elfReadMaps params ss maps
    else match s.mapDef with
      | none => .error .mapSize
      | some mapDef =>
        let name := trimPrefix s.name mapsPrefix
        match createMapPath mapDef name (params s.name) with
        | .error err => .error (.mapPath err)
        | .ok mapPath =>
          -- `bpf_load_map` has pinned the map before a duplicate is noticed
          if maps.any (·.name == name) then .error (.duplicateMap name)
          else elfReadMaps params ss (maps ++ [⟨name, mapDef, mapPath⟩])

/-- The errors of `closeMaps`. -/
inductive CloseError where
  /-- `close option for maps/%s must have PinPath set` -/
  | noCloseOption (name : List Char)
  /-- `unpinning with PIN_OBJECT_NS is to be implemented` -/
  | objectNs
  /-- `error unpinning map %q: %v`, with the error of `getMapPath`. -/
  | unpinPath (name : List Char) (err : PinPathError)
  /-- `error unpinning map %q: %v`, with the error of `syscall.Unlink`. -/
  | unlink (name : List Char)

/-- The `pinPath` that `closeMaps` passes to `unpinMap`. -/
def closePinPath (options : List Char → Option CloseOptions) (m : Map) :
    Except CloseError (List Char) :=
  if m.mapDef.pinning = pinCustomNs then
    match options (mapsPrefix ++ m.name) with
    | some closeOption => .ok closeOption.pinPath
    | none => .error (.noCloseOption m.name)
  -- a `PIN_GLOBAL_NS` map's path is read from its namespace
  else if m.mapDef.pinning = pinGlobalNs then .ok []
  else if m.mapDef.pinning = pinObjectNs then .error .objectNs
  else .ok []

/-- `unpinMap`: the path it passes to `syscall.Unlink`. -/
def unpinMap (m : Map) (pinPath : List Char) : Except PinPathError (List Char) :=
  getMapPath m.mapDef m.name pinPath

/-- `closeMaps`: the paths it passes to `syscall.Unlink`, in order, and how it ends. `unlink` says
which unlinks succeed; closing the maps' fds is taken to succeed. -/
def closeMaps (unlink : List Char → Bool) (options : List Char → Option CloseOptions) :
    List Map → List (List Char) × Except CloseError Unit
  | [] => ([], .ok ())
  | m :: ms =>
    if ((options (mapsPrefix ++ m.name)).getD {}).unpin then
      match closePinPath options m with
      | .error err => ([], .error err)
      | .ok pinPath =>
        match unpinMap m pinPath with
        | .error err => ([], .error (.unpinPath m.name err))
        | .ok mapPath =>
          if unlink mapPath then
            let rest := closeMaps unlink options ms
            (mapPath :: rest.1, rest.2)
          else ([mapPath], .error (.unlink m.name))
    else closeMaps unlink options ms

/-- `PinObjectGlobal(fd, namespace, name)`: the path it hands to `pinObject`, which pins the object
there once the bpf filesystem is mounted and the path is free. -/
def pinObjectGlobal (nsName name : List Char) : List Char :=
  join [bpffsPath, nsName, bpfDirGlobals, name]

/-- `PinObject(fd, pinPath)`: the path it hands to `pinObject`. -/
def pinObject (pinPath : List Char) : Except PinPathError (List Char) :=
  if !validPinPath pinPath then .error (.notValidPinPath pinPath) else .ok pinPath

/-! ## Paths inside the bpf filesystem -/

/-- A clean path strictly inside the bpf filesystem: `BPFFSPath` followed by one or more names. -/
def InBpffs (path : List Char) : Prop :=
  hasPrefix path bpffsPath = true ∧ ∀ c ∈ (path.drop bpffsPath.length).splitOn '/', IsName c

instance : DecidablePred InBpffs := fun _ => inferInstanceAs (Decidable (_ ∧ _))

theorem inBpffs_iff {path : List Char} :
    InBpffs path ↔
      ∃ cs, cs ≠ [] ∧ (∀ c ∈ cs, IsName c) ∧ path = bpffsPath ++ ['/'].intercalate cs := by
  constructor
  · rintro ⟨hpre, hcs⟩
    obtain ⟨t, rfl⟩ := hasPrefix_iff.1 hpre
    rw [List.drop_left] at hcs
    exact ⟨t.splitOn '/', List.splitOnP_ne_nil _ _, hcs, by rw [List.intercalate_splitOn]⟩
  · rintro ⟨cs, hne, hcs, rfl⟩
    refine ⟨hasPrefix_append _ _, ?_⟩
    rwa [List.drop_left, List.splitOn_intercalate _ (fun c hc => (hcs c hc).2.2.2) hne]

/-- The elements of a path below `BPFFSPath`: those of `BPFFSPath`, then the path's own. -/
theorem splitOn_bpffsPath_append (t : List Char) :
    (bpffsPath ++ t).splitOn '/' =
      [[], ['s', 'y', 's'], ['f', 's'], ['b', 'p', 'f']] ++ t.splitOn '/' := by
  have hpath : bpffsPath ++ t =
      '/' :: (['s', 'y', 's'] ++ '/' :: (['f', 's'] ++ '/' :: (['b', 'p', 'f'] ++ '/' :: t))) := by
    simp [bpffsPath]
  rw [hpath, splitOn_sep_cons, splitOn_append_sep (by simp), splitOn_append_sep (by simp),
    splitOn_append_sep (by simp)]
  rfl

/-- **`validateMapPath` and `validPinPath` accept only clean paths strictly inside the bpf
filesystem.** -/
theorem cleanUnder_inBpffs {path : List Char} (h : cleanUnder bpffsPath path = true) :
    InBpffs path := by
  simp only [cleanUnder, Bool.and_eq_true, beq_iff_eq] at h
  obtain ⟨⟨t, rfl⟩, hclean⟩ := And.imp_left hasPrefix_iff.1 h
  have hhead : (bpffsPath ++ t).head? = some '/' := by simp [bpffsPath]
  obtain ⟨cs, hcs, hpath⟩ := (clean_eq_self_iff hhead).1 hclean
  refine ⟨hasPrefix_append _ _, ?_⟩
  have hsplit := congrArg (List.splitOn '/') hpath
  rw [splitOn_bpffsPath_append, splitOn_sep_cons] at hsplit
  rcases eq_or_ne cs [] with rfl | hne
  · simp at hsplit
  · rw [List.splitOn_intercalate _ (fun c hc => (hcs c hc).2.2.2) hne, List.cons_append,
      List.cons.injEq] at hsplit
    intro c hc
    rw [List.drop_left] at hc
    exact hcs c (hsplit.2 ▸ List.mem_append_right _ hc)

example : validateMapPath "/sys/fs/bpf/good/path".toList = true ∧
    validateMapPath "/sys/fs/bpf/../../bad/path".toList = false ∧
    validateMapPath "/sys/fs/bpf/./bad/path".toList = false ∧
    validateMapPath "/bad/path".toList = false := by
  decide

/-- `Join(BPFFSPath, ...)` is `/` followed by names. -/
theorem join_bpffsPath (es : List (List Char)) :
    ∃ cs, (∀ c ∈ cs, IsName c) ∧ join (bpffsPath :: es) = '/' :: ['/'].intercalate cs := by
  rw [join_cons (by simp [bpffsPath])]
  exact clean_rooted (by cases es <;> simp [bpffsPath, List.intercalate_cons_cons])

/-! ## The pin paths of maps -/

/-- A map with a pin setting gets a non-empty path. -/
theorem getMapPath_ne_nil {mapDef : MapDef} {mapName pinPath path : List Char}
    (hpin : mapDef.pinning = pinGlobalNs ∨ mapDef.pinning = pinCustomNs)
    (h : getMapPath mapDef mapName pinPath = .ok path) : path ≠ [] := by
  have hobj : mapDef.pinning ≠ pinObjectNs := by
    rcases hpin with hpin | hpin <;> simp [hpin, pinGlobalNs, pinCustomNs, pinObjectNs]
  have hjoin : ∀ es, join (bpffsPath :: es) ≠ [] := fun es => by
    obtain ⟨cs, -, hcs⟩ := join_bpffsPath es
    simp [hcs]
  simp only [getMapPath, if_neg hobj] at h
  split_ifs at h with hg hn hc hp
  · cases h
    exact hjoin _
  · cases h
    exact hjoin _
  · exact absurd hpin (by simp [hg, hc])

/-- `createMapPath` returns a non-empty path only when `getMapPath` gives it and it is valid. -/
theorem createMapPath_eq_ok {mapDef : MapDef} {mapName path : List Char} {params : SectionParams}
    (h : createMapPath mapDef mapName params = .ok path) (hne : path ≠ []) :
    getMapPath mapDef mapName params.pinPath = .ok path ∧ validateMapPath path = true := by
  unfold createMapPath at h
  split at h
  · cases h
  · rename_i mapPath hget
    split_ifs at h with hnil hvalid
    · cases h
      exact absurd rfl hne
    · cases h
      exact ⟨hget, by simpa using hvalid⟩

/-- A map with a pin setting that `createMapPath` accepts gets a non-empty path. -/
theorem createMapPath_ne_nil {mapDef : MapDef} {mapName path : List Char} {params : SectionParams}
    (hpin : mapDef.pinning = pinGlobalNs ∨ mapDef.pinning = pinCustomNs)
    (h : createMapPath mapDef mapName params = .ok path) : path ≠ [] := by
  unfold createMapPath at h
  split at h
  · cases h
  · rename_i mapPath hget
    have hne := getMapPath_ne_nil hpin hget
    rw [if_neg hne] at h
    split_ifs at h
    cases h
    exact hne

/-- The path of a pinned map that `createMapPath` accepts lies inside the bpf filesystem. -/
theorem createMapPath_inBpffs {mapDef : MapDef} {mapName path : List Char}
    {params : SectionParams} (h : createMapPath mapDef mapName params = .ok path)
    (hne : path ≠ []) : InBpffs path :=
  cleanUnder_inBpffs (createMapPath_eq_ok h hne).2

/-! ## The maps of a module -/

section ReadMaps

variable (params : List Char → SectionParams)

/-- The map's path is what `createMapPath` computes for its section. -/
def LoadedBy (m : Map) : Prop :=
  createMapPath m.mapDef m.name (params (mapsPrefix ++ m.name)) = .ok m.path

/-- A map loaded at the path of its section with a pin setting lies inside the bpf filesystem. -/
theorem LoadedBy.inBpffs {params : List Char → SectionParams} {m : Map}
    (hload : LoadedBy params m)
    (hpin : m.mapDef.pinning = pinGlobalNs ∨ m.mapDef.pinning = pinCustomNs) : InBpffs m.path :=
  createMapPath_inBpffs hload (createMapPath_ne_nil hpin hload)

/-- Run: every map of `elfReadMaps` is loaded at the path of its section. -/
theorem elfReadMaps_loadedBy :
    ∀ {ss : List MapSection} {maps maps' : List Map}, elfReadMaps params ss maps = .ok maps' →
      (∀ m ∈ maps, LoadedBy params m) → ∀ m ∈ maps', LoadedBy params m
  | [], _, _, h, hmaps => by
    cases h
    exact hmaps
  | s :: ss, maps, _, h, hmaps => by
    unfold elfReadMaps at h
    split_ifs at h with hpre
    · exact elfReadMaps_loadedBy h hmaps
    · obtain ⟨name, hname⟩ := hasPrefix_iff.1 (by simpa using hpre)
      dsimp only at h
      split at h
      · cases h
      · rename_i mapDef _
        split at h
        · cases h
        · rename_i mapPath hcreate
          split_ifs at h
          refine elfReadMaps_loadedBy h fun m hm => ?_
          rcases List.mem_append.1 hm with hm | hm
          · exact hmaps m hm
          · rw [List.mem_singleton] at hm
            subst hm
            rw [hname, trimPrefix_append] at hcreate ⊢
            exact hcreate

/-- **Every map that `elfReadMaps` pins, it pins inside the bpf filesystem.** -/
theorem elfReadMaps_inBpffs {ss : List MapSection} {maps : List Map}
    (h : elfReadMaps params ss [] = .ok maps) : ∀ m ∈ maps, m.pinned = true → InBpffs m.path := by
  intro m hm hpinned
  refine (elfReadMaps_loadedBy params h (by simp) m hm).inBpffs ?_
  simpa [Map.pinned] using hpinned

end ReadMaps

/-! ## Unpinning -/

/-- A `PIN_GLOBAL_NS` map's path does not read the pin path. -/
theorem getMapPath_global {mapDef : MapDef} (mapName : List Char) {pinPath pinPath' : List Char}
    (h : mapDef.pinning = pinGlobalNs) :
    getMapPath mapDef mapName pinPath = getMapPath mapDef mapName pinPath' := by
  simp [getMapPath, h]

/-- **`closeMaps` unlinks a `PIN_GLOBAL_NS` map at the path it was loaded at.** So when every map
that the options unpin is a `PIN_GLOBAL_NS` map loaded by `elfReadMaps`, every path it unlinks lies
inside the bpf filesystem. -/
theorem closeMaps_global_inBpffs (params : List Char → SectionParams)
    (unlink : List Char → Bool) (options : List Char → Option CloseOptions) :
    ∀ {ms : List Map}, (∀ m ∈ ms, LoadedBy params m) →
      (∀ m ∈ ms, ((options (mapsPrefix ++ m.name)).getD {}).unpin = true →
        m.mapDef.pinning = pinGlobalNs) →
      ∀ p ∈ (closeMaps unlink options ms).1, InBpffs p
  | [], _, _ => by simp [closeMaps]
  | m :: ms, hload, hglobal => by
    have ih := closeMaps_global_inBpffs params unlink options
      (fun m' hm' => hload m' (List.mem_cons_of_mem _ hm'))
      (fun m' hm' => hglobal m' (List.mem_cons_of_mem _ hm'))
    unfold closeMaps
    split_ifs with hunpin
    · have hg := hglobal m List.mem_cons_self hunpin
      have hm := hload m List.mem_cons_self
      have hne := createMapPath_ne_nil (Or.inl hg) hm
      have hclose : closePinPath options m = .ok [] := by
        simp [closePinPath, hg, pinGlobalNs, pinCustomNs]
      have hpath : unpinMap m [] = .ok m.path := by
        rw [unpinMap, getMapPath_global _ hg]
        exact (createMapPath_eq_ok hm hne).1
      have hin : InBpffs m.path := hm.inBpffs (Or.inl hg)
      simp only [hclose, hpath]
      split_ifs
      · intro p hp
        rcases List.mem_cons.1 hp with rfl | hp
        · exact hin
        · exact ih p hp
      · simpa using hin
    · exact ih

/-! ## `PinObject` and `PinObjectGlobal` -/

theorem isName_bpfDirGlobals : IsName bpfDirGlobals := by
  decide

/-- **`PinObject` pins only inside the bpf filesystem.** -/
theorem pinObject_inBpffs {pinPath path : List Char} (h : pinObject pinPath = .ok path) :
    InBpffs path := by
  unfold pinObject at h
  split_ifs at h with hvalid
  cases h
  exact cleanUnder_inBpffs (by simpa [validPinPath] using hvalid)

/-- A namespace and a name that are single names pin at `/sys/fs/bpf/<namespace>/globals/<name>`. -/
theorem pinObjectGlobal_names {nsName name : List Char} (hns : IsName nsName)
    (hname : IsName name) :
    pinObjectGlobal nsName name = bpffsPath ++ ['/'].intercalate [nsName, bpfDirGlobals, name] := by
  have hpath : ['/'].intercalate [bpffsPath, nsName, bpfDirGlobals, name] =
      '/' :: ['/'].intercalate [['s', 'y', 's'], ['f', 's'], ['b', 'p', 'f'], [], nsName,
        bpfDirGlobals, name] := by
    simp [bpffsPath, List.intercalate_cons_cons]
  have hes : ∀ e ∈ [['s', 'y', 's'], ['f', 's'], ['b', 'p', 'f'], [], nsName, bpfDirGlobals, name],
      e = [] ∨ IsName e := by
    simp only [List.mem_cons, List.not_mem_nil, or_false]
    rintro e (rfl | rfl | rfl | rfl | rfl | rfl | rfl)
    all_goals first | exact Or.inl rfl | exact Or.inr (by decide) | exact Or.inr ‹_›
  rw [pinObjectGlobal, join_cons (by simp [bpffsPath]), hpath, clean_sep_intercalate hes]
  simp [hns.1, hname.1, isName_bpfDirGlobals.1, bpffsPath, List.intercalate_cons_cons]

theorem pinObjectGlobal_inBpffs {nsName name : List Char} (hns : IsName nsName)
    (hname : IsName name) : InBpffs (pinObjectGlobal nsName name) := by
  rw [pinObjectGlobal_names hns hname, inBpffs_iff]
  refine ⟨_, by simp, ?_, rfl⟩
  simp only [List.mem_cons, List.not_mem_nil, or_false]
  rintro c (rfl | rfl | rfl)
  exacts [hns, isName_bpfDirGlobals, hname]

/-- A pin path given to `CloseExt` for a map loaded inside the bpf filesystem is unlinked outside
it, a map that is not pinned is unlinked at `""`, and a namespace given to `PinObjectGlobal` pins
outside the bpf filesystem. -/
theorem closeMaps_unpin_escapes :
    ((elfReadMaps (fun _ => ⟨['m']⟩) [⟨mapsPrefix ++ ['m'], some ⟨pinCustomNs, []⟩⟩] []).toOption.map
        fun maps => (closeMaps (fun _ => true)
          (fun _ => some ⟨true, "../../../etc/passwd".toList⟩) maps).1) =
      some ["/etc/passwd".toList] ∧
    ¬ InBpffs "/etc/passwd".toList ∧
    (closeMaps (fun _ => true) (fun _ => some ⟨true, []⟩) [⟨['m'], ⟨0, []⟩, []⟩]).1 = [[]] ∧
    pinObjectGlobal "../../../etc".toList ['x'] = "/etc/globals/x".toList ∧
    ¬ InBpffs "/etc/globals/x".toList := by
  decide

end Gobpf.Elf
