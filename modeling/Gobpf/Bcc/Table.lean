import Mathlib

/-!
# Iterating over a bcc table

`Table.Iter` sends the entries of a table's BPF map on a channel from a goroutine. It walks the
map with `bpf_get_next_key`, which gives the first key of the map for a key the map does not hold
and the key after it for one it holds, so the walk has to start from a key the map does not hold.
To find one, the goroutine looks the all-`0x00` key up and then, while the last lookup succeeded,
the key filled with `alternateKeys[i]` for `i = 0, 1, 2`. `alternateKeys` has two bytes only: on a
map that holds the all-`0x00`, all-`0xff` and all-`0x55` keys the loop reads `alternateKeys[2]`
and the goroutine panics (`iter_panics_iff`). On every other map it walks from the first absent
key among the three and sends one entry per entry of the map, in the map's order, before it closes
the channel (`iter_eq_entries`).

The calls the goroutine makes are oracles (`TableEnv`); `BpfMap.env` gives them as the kernel
answers them on a map that does not change during the walk.
-/

namespace Gobpf.Bcc

/-- The calls that the goroutine of `Iter` makes: the map's `key_size` and `leaf_size`, the
kernel's `bpf_lookup_elem`, which gives the leaf it copies to `leafP`, and `bpf_get_next_key`,
which gives the key it copies to `keyP`, and libbcc's `bpf_table_key_snprintf` and
`bpf_table_leaf_snprintf`, which give what they write up to its NUL byte. A call that fails, with
a non-zero result, is `none`. -/
structure TableEnv where
  keySize : Nat
  leafSize : Nat
  lookupElem : List UInt8 → Option (List UInt8)
  getNextKey : List UInt8 → Option (List UInt8)
  keySnprintf : List UInt8 → Option (List Char)
  leafSnprintf : List UInt8 → Option (List Char)

/-- An `Entry` of a table, as `Iter` sends it. -/
structure Entry where
  key : List Char
  value : List Char
  deriving DecidableEq, Repr

/-- The panic of the goroutine: `index out of range [i] with length n`. -/
inductive IterPanic where
  | indexOutOfRange (i n : Nat)
  deriving DecidableEq, Repr

/-- `alternateKeys` of `Iter`. -/
def alternateKeys : List UInt8 := [0xff, 0x55]

/-- `alternateKeys[i]`. -/
def alternateKey (i : Nat) : Except IterPanic UInt8 :=
  match alternateKeys[i]? with
  | some b => .ok b
  | none => .error (.indexOutOfRange i alternateKeys.length)

/-- The loop `for i := 0; i <= len(alternateKeys); i++`, over the indices `is` that are left, from
the key `key` whose lookup gave `res`: the key it leaves in `key`, and the last lookup's result. -/
def probeKeys (env : TableEnv) : List Nat → List UInt8 → Option (List UInt8) →
    Except IterPanic (List UInt8 × Option (List UInt8))
  | [], key, res => .ok (key, res)
  | i :: is, key, res =>
    match res with
    -- `res < 0`: break
    | none => .ok (key, none)
    | some _ => do
      -- `for j := range key { key[j] = alternateKeys[i] }`
      let key ← key.mapM fun _ => alternateKey i
      probeKeys env is key (env.lookupElem key)

/-- The loop `for res = C.bpf_get_next_key(fd, keyP, keyP); res == 0; ...` from the key `key`, for
at most `fuel` turns: the entries it sends, or `none` when the fuel runs out first. -/
def walk (env : TableEnv) : Nat → List UInt8 → Option (List Entry)
  | 0, _ => none
  | fuel + 1, key =>
    match env.getNextKey key with
    | none => some []
    | some key =>
      match env.lookupElem key with
      -- `continue`, to the next `bpf_get_next_key`
      | none => walk env fuel key
      | some leaf =>
        match env.keySnprintf key with
        | none => some []
        | some k =>
          match env.leafSnprintf leaf with
          | none => some []
          | some v => (walk env fuel key).map (⟨k, v⟩ :: ·)

/-- The goroutine of `Table.Iter`, with at most `fuel` turns of its last loop: the entries it sends
before it closes the channel, or the panic that stops it. -/
def iter (env : TableEnv) (fuel : Nat) : Except IterPanic (Option (List Entry)) := do
  -- `&key[0]` and `&leaf[0]` on the slices of `key_size` and `leaf_size` bytes
  if env.keySize = 0 then throw (.indexOutOfRange 0 0)
  if env.leafSize = 0 then throw (.indexOutOfRange 0 0)
  let key := List.replicate env.keySize 0
  let (key, res) ← probeKeys env (List.range (alternateKeys.length + 1)) key (env.lookupElem key)
  if res.isSome then return some []
  return walk env fuel key

/-! ## The map behind the table -/

/-- A BPF map that does not change while `Iter` walks it: its entries, in the order in which
`bpf_get_next_key` enumerates them, each key of `keySize ≥ 1` bytes. -/
structure BpfMap where
  keySize : Nat
  leafSize : Nat
  map : AList (fun _ : List UInt8 => List UInt8)
  keySize_pos : 0 < keySize
  keys_length : ∀ k ∈ map.keys, k.length = keySize

/-- `bpf_get_next_key` on the map: the first key for a key the map does not hold, and the key
after it for a key it holds, failing after the last. -/
def BpfMap.getNextKey (M : BpfMap) (key : List UInt8) : Option (List UInt8) :=
  match M.map.keys.idxOf? key with
  | none => M.map.keys.head?
  | some i => M.map.keys[i + 1]?

/-- The calls of `Iter` on the map, with libbcc's two `snprintf`s. -/
def BpfMap.env (M : BpfMap) (keySnprintf leafSnprintf : List UInt8 → Option (List Char)) :
    TableEnv :=
  ⟨M.keySize, M.leafSize, M.map.lookup, M.getNextKey, keySnprintf, leafSnprintf⟩

/-- The key of `keySize` bytes `b`, as the probe loop fills it. -/
def BpfMap.probeKey (M : BpfMap) (b : UInt8) : List UInt8 := List.replicate M.keySize b

/-! ## The probe loop -/

/-- Filling a key with a byte of `alternateKeys`. -/
theorem mapM_alternateKey_ok {i : Nat} {b : UInt8} (h : alternateKey i = .ok b) :
    ∀ key : List UInt8, key.mapM (fun _ => alternateKey i) = .ok (List.replicate key.length b)
  | [] => rfl
  | _ :: key => by
    rw [List.mapM_cons, mapM_alternateKey_ok h key, h]
    rfl

/-- Filling a key that is not empty with `alternateKeys[i]`, for `i` out of range, panics. -/
theorem mapM_alternateKey_error {i : Nat} {p : IterPanic} (h : alternateKey i = .error p) :
    ∀ {key : List UInt8}, key ≠ [] → key.mapM (fun _ => alternateKey i) = .error p
  | _ :: _, _ => by
    rw [List.mapM_cons, h]
    rfl

/-- A turn of the probe loop after a lookup that succeeded: the key is filled with
`alternateKeys[i]` and looked up. -/
theorem probeKeys_some (env : TableEnv) {i : Nat} {b : UInt8} (h : alternateKey i = .ok b)
    (is : List Nat) (key l : List UInt8) :
    probeKeys env (i :: is) key (some l) =
      probeKeys env is (List.replicate key.length b)
        (env.lookupElem (List.replicate key.length b)) := by
  simp only [probeKeys, mapM_alternateKey_ok h]
  rfl

/-- A turn of the probe loop, with `i` out of range, after a lookup that succeeded. -/
theorem probeKeys_error (env : TableEnv) {i : Nat} {p : IterPanic} (h : alternateKey i = .error p)
    (is : List Nat) {key : List UInt8} (hkey : key ≠ []) (l : List UInt8) :
    probeKeys env (i :: is) key (some l) = .error p := by
  simp only [probeKeys, mapM_alternateKey_error h hkey]
  rfl

/-! ## On the map behind the table -/

namespace BpfMap

variable (M : BpfMap) (keySnprintf leafSnprintf : List UInt8 → Option (List Char))

@[simp] theorem env_keySize : (M.env keySnprintf leafSnprintf).keySize = M.keySize := rfl

@[simp] theorem env_leafSize : (M.env keySnprintf leafSnprintf).leafSize = M.leafSize := rfl

@[simp] theorem env_lookupElem : (M.env keySnprintf leafSnprintf).lookupElem = M.map.lookup := rfl

@[simp] theorem env_getNextKey : (M.env keySnprintf leafSnprintf).getNextKey = M.getNextKey := rfl

@[simp] theorem env_keySnprintf : (M.env keySnprintf leafSnprintf).keySnprintf = keySnprintf := rfl

@[simp] theorem env_leafSnprintf :
    (M.env keySnprintf leafSnprintf).leafSnprintf = leafSnprintf := rfl

theorem probeKey_ne_nil (b : UInt8) : M.probeKey b ≠ [] :=
  List.ne_nil_of_length_pos (by simpa [probeKey] using M.keySize_pos)

/-- The probe loop fills a probe key with another byte into the other probe key. -/
@[simp] theorem replicate_length_probeKey (b b' : UInt8) :
    List.replicate (M.probeKey b).length b' = M.probeKey b' := by
  simp [probeKey]

theorem exists_lookup_of_mem {key : List UInt8} (h : key ∈ M.map) :
    ∃ l, M.map.lookup key = some l :=
  Option.isSome_iff_exists.1 (AList.lookup_isSome.2 h)

/-- `bpf_get_next_key` from a key that the map does not hold gives its first key. -/
theorem getNextKey_of_not_mem {key : List UInt8} (h : key ∉ M.map) :
    M.getNextKey key = M.map.keys[0]? := by
  have hidx : M.map.keys.idxOf? key = none := List.idxOf?_eq_none_iff.2 (mt AList.mem_keys.2 h)
  simp [getNextKey, hidx, List.head?_eq_getElem?]

/-- `bpf_get_next_key` from the `j`-th key gives the next one; the keys are distinct, so the
`j`-th is found at `j`. -/
theorem getNextKey_of_getElem? {j : Nat} {key : List UInt8} (h : M.map.keys[j]? = some key) :
    M.getNextKey key = M.map.keys[j + 1]? := by
  obtain ⟨hj, rfl⟩ := List.getElem?_eq_some_iff.1 h
  have hidx : M.map.keys.idxOf? M.map.keys[j] = some j := by
    rw [List.idxOf?_eq_some_iff]
    refine ⟨hj, rfl, fun j' hj' heq => ?_⟩
    have := (M.map.keys_nodup.getElem_inj_iff).1 heq
    omega
  simp [getNextKey, hidx]

/-- A turn of the probe loop on the map, from the probe key `b`: when the map holds it, the loop
goes on with the probe key `alternateKeys[i]`. -/
theorem probeKeys_probeKey {i : Nat} {b' : UInt8} (h : alternateKey i = .ok b') (is : List Nat)
    (b : UInt8) :
    probeKeys (M.env keySnprintf leafSnprintf) (i :: is) (M.probeKey b)
        (M.map.lookup (M.probeKey b)) =
      if M.probeKey b ∈ M.map then
        probeKeys (M.env keySnprintf leafSnprintf) is (M.probeKey b')
          (M.map.lookup (M.probeKey b'))
      else .ok (M.probeKey b, none) := by
  split_ifs with hb
  · obtain ⟨l, hl⟩ := M.exists_lookup_of_mem hb
    rw [hl, probeKeys_some _ h, replicate_length_probeKey, env_lookupElem]
  · rw [AList.lookup_eq_none.2 hb]
    rfl

/-- The last turn of the probe loop on the map: `alternateKeys[i]` is out of range. -/
theorem probeKeys_probeKey_error {i : Nat} {p : IterPanic} (h : alternateKey i = .error p)
    (is : List Nat) (b : UInt8) :
    probeKeys (M.env keySnprintf leafSnprintf) (i :: is) (M.probeKey b)
        (M.map.lookup (M.probeKey b)) =
      if M.probeKey b ∈ M.map then .error p else .ok (M.probeKey b, none) := by
  split_ifs with hb
  · obtain ⟨l, hl⟩ := M.exists_lookup_of_mem hb
    rw [hl, probeKeys_error _ h _ (M.probeKey_ne_nil b)]
  · rw [AList.lookup_eq_none.2 hb]
    rfl

/-- The probe loop on the map: it stops at the first of the all-`0x00`, all-`0xff` and all-`0x55`
keys that the map does not hold, and panics on `alternateKeys[2]` when it holds all three. -/
theorem probeKeys_env :
    probeKeys (M.env keySnprintf leafSnprintf) (List.range (alternateKeys.length + 1))
        (M.probeKey 0) (M.map.lookup (M.probeKey 0)) =
      match ([0, 0xff, 0x55] : List UInt8).find? (fun b => M.probeKey b ∉ M.map) with
      | some b => .ok (M.probeKey b, none)
      | none => .error (.indexOutOfRange 2 2) := by
  have hrange : List.range (alternateKeys.length + 1) = [0, 1, 2] := rfl
  rw [hrange, probeKeys_probeKey _ _ _ (rfl : alternateKey 0 = .ok 0xff),
    probeKeys_probeKey _ _ _ (rfl : alternateKey 1 = .ok 0x55),
    probeKeys_probeKey_error _ _ _ (rfl : alternateKey 2 = .error (.indexOutOfRange 2 2))]
  split_ifs with h0 h1 h2
  · simp [h0, h1, h2, alternateKeys]
  · simp [h0, h1, h2]
  · simp [h0, h1]
  · simp [h0]

/-- Walk: from a key after which `bpf_get_next_key` gives the `j`-th key, with enough fuel and the
`snprintf`s succeeding, the loop sends one entry for each entry of the map from the `j`-th on, and
ends. The induction is on the fuel, one turn per key. -/
theorem walk_env (f g : List UInt8 → List Char) :
    ∀ (fuel j : Nat) (key : List UInt8), M.getNextKey key = M.map.keys[j]? →
      M.map.entries.length - j < fuel →
      walk (M.env (some ∘ f) (some ∘ g)) fuel key =
        some ((M.map.entries.drop j).map fun s => ⟨f s.1, g s.2⟩)
  | 0, _, _, _, hfuel => absurd hfuel (Nat.not_lt_zero _)
  | fuel + 1, j, key, hnext, hfuel => by
    have hkeys : M.map.keys[j]? = (M.map.entries[j]?).map Sigma.fst := List.getElem?_map
    cases hj : M.map.entries[j]? with
    | none =>
      have hdrop : M.map.entries.drop j = [] :=
        List.drop_eq_nil_of_le (List.getElem?_eq_none_iff.1 hj)
      rw [hj] at hkeys
      simp [walk, hnext, hkeys, hdrop]
    | some s =>
      obtain ⟨hlt, hs⟩ := List.getElem?_eq_some_iff.1 hj
      have hdrop : M.map.entries.drop j = s :: M.map.entries.drop (j + 1) := by
        rw [List.drop_eq_getElem_cons hlt, hs]
      rw [hj] at hkeys
      have hlookup : M.map.lookup s.1 = some s.2 :=
        AList.mem_lookup_iff.2 (List.mem_of_getElem? hj)
      have hrest := walk_env f g fuel (j + 1) s.1 (M.getNextKey_of_getElem? hkeys) (by omega)
      simp [walk, hnext, hkeys, hlookup, hrest, hdrop]

/-- `Iter`'s goroutine on the map: it panics on an empty `leaf` slice, and otherwise walks from the
first probe key that the map does not hold, or panics on `alternateKeys[2]` when there is none. -/
theorem iter_env (fuel : Nat) :
    iter (M.env keySnprintf leafSnprintf) fuel =
      if M.leafSize = 0 then .error (.indexOutOfRange 0 0) else
        match ([0, 0xff, 0x55] : List UInt8).find? (fun b => M.probeKey b ∉ M.map) with
        | some b => .ok (walk (M.env keySnprintf leafSnprintf) fuel (M.probeKey b))
        | none => .error (.indexOutOfRange 2 2) := by
  have hzero : List.replicate M.keySize 0 = M.probeKey 0 := rfl
  simp only [iter, env_keySize, env_leafSize, env_lookupElem, if_neg M.keySize_pos.ne', hzero,
    M.probeKeys_env]
  split_ifs with hleaf
  · rfl
  · split <;> rfl

/-- **`Iter` sends every entry once.** On a map with non-empty leaves that does not hold one of the
three probe keys, with the `snprintf`s succeeding and fuel for one turn per key and one more, the
goroutine sends one entry for each entry of the map, in the map's order, and closes the channel. -/
theorem iter_eq_entries (f g : List UInt8 → List Char) {fuel : Nat} (hleaf : 0 < M.leafSize)
    (habs : ∃ b ∈ ([0, 0xff, 0x55] : List UInt8), M.probeKey b ∉ M.map)
    (hfuel : M.map.entries.length < fuel) :
    iter (M.env (some ∘ f) (some ∘ g)) fuel =
      .ok (some (M.map.entries.map fun s => ⟨f s.1, g s.2⟩)) := by
  have hsome : (([0, 0xff, 0x55] : List UInt8).find? (fun b => M.probeKey b ∉ M.map)).isSome := by
    rw [List.find?_isSome]
    simpa using habs
  obtain ⟨b, hf⟩ := Option.isSome_iff_exists.1 hsome
  have hb : M.probeKey b ∉ M.map := by simpa using List.find?_some hf
  have hwalk := M.walk_env f g fuel 0 (M.probeKey b) (M.getNextKey_of_not_mem hb) (by omega)
  rw [List.drop_zero] at hwalk
  rw [iter_env, if_neg hleaf.ne', hf]
  exact congrArg Except.ok hwalk

/-- **When the goroutine panics.** On a map with keys of at least one byte, `Iter`'s goroutine
panics exactly when the leaves are empty or the map holds all of the all-`0x00`, all-`0xff` and
all-`0x55` keys, whatever the `snprintf`s do. -/
theorem iter_panics_iff (fuel : Nat) :
    (∃ p, iter (M.env keySnprintf leafSnprintf) fuel = .error p) ↔
      M.leafSize = 0 ∨ ∀ b ∈ ([0, 0xff, 0x55] : List UInt8), M.probeKey b ∈ M.map := by
  rw [iter_env]
  split_ifs with hleaf
  · simp [hleaf]
  · simp only [hleaf, false_or]
    cases hf : ([0, 0xff, 0x55] : List UInt8).find? (fun b => M.probeKey b ∉ M.map) with
    | none =>
      have hall := List.find?_eq_none.1 hf
      constructor
      · intro _ b hb
        simpa using hall b hb
      · intro _
        exact ⟨_, rfl⟩
    | some b =>
      have hb : M.probeKey b ∉ M.map := by simpa using List.find?_some hf
      constructor
      · rintro ⟨p, hp⟩
        cases hp
      · intro hall
        exact absurd (hall b (List.mem_of_find?_eq_some hf)) hb

end BpfMap

/-- A map with one-byte keys and leaves that holds the all-`0x00`, all-`0xff` and all-`0x55`
keys. -/
def probedMap : BpfMap where
  keySize := 1
  leafSize := 1
  map := (((∅ : AList fun _ : List UInt8 => List UInt8).insert [0x55] [1]).insert [0xff] [1]).insert
    [0] [1]
  keySize_pos := Nat.one_pos
  keys_length := by decide

/-- On that map, whatever the `snprintf`s do and however long it runs, `Iter`'s goroutine panics on
`alternateKeys[2]` before it sends an entry. -/
theorem iter_probedMap_panics (keySnprintf leafSnprintf : List UInt8 → Option (List Char))
    (fuel : Nat) :
    iter (probedMap.env keySnprintf leafSnprintf) fuel = .error (.indexOutOfRange 2 2) := by
  rw [BpfMap.iter_env]
  rfl

end Gobpf.Bcc
