import Gobpf.Bcc.Table

/-!
# `Table.Get`, `Table.Set` and `Table.Delete`

The three functions turn the strings they are given into the table's bytes with libbcc's
`sscanf`s, call the kernel on the table's map, and `Get` turns the leaf it finds back into a string
with libbcc's `snprintf`. The map is a hash map of `max_entries` entries: an update of a key it
does not hold fails when it is full, and a delete of a key it does not hold fails. A table keeps
both bounds as fields (`Table`), so no call can break them; a call that fails changes nothing.

* After a successful `Set(k, v)`, `Get(k)` returns `v` as libbcc prints the bytes it scanned from
  `v` (`get_set`), and `v` itself when `v` is in the form libbcc prints (`get_set_self`); `Get` of a
  key that scans to other bytes is unchanged (`get_set_of_ne`).
* After a successful `Delete(k)`, `Get(k)` fails (`get_delete`).
* `Get` reads back what `Iter` sends: when libbcc's key format reads back the keys it prints, every
  entry `Iter` sends is the one `Get` returns for its key (`get_of_mem_iter`).
-/

namespace Gobpf.Bcc

/-- libbcc's formats of a table: `bpf_table_key_sscanf` and `bpf_table_leaf_sscanf`, which fill a
buffer of `key_size` and `leaf_size` bytes from a string or fail, and `bpf_table_key_snprintf` and
`bpf_table_leaf_snprintf`, which print bytes up to a NUL byte or fail. -/
structure TableFormat where
  keySize : Nat
  keySscanf : List Char → Option (List UInt8)
  leafSscanf : List Char → Option (List UInt8)
  keySnprintf : List UInt8 → Option (List Char)
  leafSnprintf : List UInt8 → Option (List Char)
  keySscanf_length : ∀ s key, keySscanf s = some key → key.length = keySize

/-- A table: libbcc's formats, and the kernel's map behind its fd, whose keys have the size of the
format and whose entries do not outnumber `max_entries`. -/
structure Table where
  fmt : TableFormat
  map : BpfMap
  maxEntries : Nat
  keySize_eq : map.keySize = fmt.keySize
  size_le : map.map.keys.length ≤ maxEntries

/-- The errors of `Set` and `Delete`. -/
inductive TableError where
  /-- `error scanning key (%v) from string` -/
  | scanKey (keyStr : List Char)
  /-- `error scanning leaf (%v) from string` -/
  | scanLeaf (leafStr : List Char)
  /-- `Table.Set: unable to update element (%s=%s): %v` -/
  | update (keyStr leafStr : List Char)
  /-- `Table.Delete: unable to delete element (%s): %v` -/
  | delete (keyStr : List Char)
  deriving DecidableEq, Repr

/-! ## The kernel's hash map -/

section Keys
variable {k : List UInt8} {v : List UInt8} {s : AList (fun _ : List UInt8 => List UInt8)}

theorem keys_length_insert_of_mem (h : k ∈ s) : (s.insert k v).keys.length = s.keys.length := by
  have hpos : 0 < s.keys.length := List.length_pos_of_mem (AList.mem_keys.1 h)
  rw [AList.keys_insert, List.length_cons,
    @List.length_erase_of_mem _ instBEqOfDecidableEq _ _ _ (AList.mem_keys.1 h)]
  omega

theorem keys_length_insert_of_not_mem (h : k ∉ s) :
    (s.insert k v).keys.length = s.keys.length + 1 := by
  rw [AList.keys_insert, List.length_cons,
    @List.erase_of_not_mem _ instBEqOfDecidableEq _ _ _ (fun hm => h (AList.mem_keys.2 hm))]

theorem keys_length_erase_le : (s.erase k).keys.length ≤ s.keys.length := by
  rw [AList.keys_erase]
  exact @List.length_erase_le _ instBEqOfDecidableEq _ _

/-- An update that replaces an entry, or adds one to a map that is not full, keeps the bound. -/
theorem keys_length_insert_le {n : Nat} (hroom : k ∈ s ∨ s.keys.length < n) (hle : s.keys.length ≤ n) :
    (s.insert k v).keys.length ≤ n := by
  by_cases hk : k ∈ s
  · rw [keys_length_insert_of_mem hk]
    exact hle
  · rw [keys_length_insert_of_not_mem hk]
    exact hroom.resolve_left hk

end Keys

namespace Table

/-- `keyToBytes(keyStr)`: the buffer of `key_size` bytes that `bpf_table_key_sscanf` fills. -/
def keyToBytes (T : Table) (keyStr : List Char) :
    Except TableError {key : List UInt8 // key.length = T.map.keySize} :=
  match h : T.fmt.keySscanf keyStr with
  | some key => .ok ⟨key, (T.fmt.keySscanf_length keyStr key h).trans T.keySize_eq.symm⟩
  | none => .error (.scanKey keyStr)

/-- `leafToBytes(leafStr)`. -/
def leafToBytes (T : Table) (leafStr : List Char) : Except TableError (List UInt8) :=
  match T.fmt.leafSscanf leafStr with
  | some leaf => .ok leaf
  | none => .error (.scanLeaf leafStr)

/-- The map with the key's entry set, as the kernel stores it. -/
def insertKey (T : Table) (key : {key : List UInt8 // key.length = T.map.keySize})
    (leaf : List UInt8) : BpfMap :=
  { T.map with
    map := T.map.map.insert key.1 leaf
    keys_length := fun k hk => by
      rcases (AList.mem_insert _).1 (AList.mem_keys.1 hk) with rfl | hk
      · exact key.2
      · exact T.map.keys_length k (AList.mem_keys.2 hk) }

/-- `bpf_update_elem(fd, key, leaf, 0)` on the hash map: the key's entry is replaced or added,
unless the key is new and the map holds `max_entries` entries. -/
def updateElem (T : Table) (key : {key : List UInt8 // key.length = T.map.keySize})
    (leaf : List UInt8) : Option Table :=
  if hroom : key.1 ∈ T.map.map ∨ T.map.map.keys.length < T.maxEntries then
    some { T with
      map := T.insertKey key leaf
      keySize_eq := T.keySize_eq
      size_le := keys_length_insert_le hroom T.size_le }
  else none

/-- `bpf_delete_elem(fd, key)`: the key's entry is removed, or the call fails when there is none. -/
def deleteElem (T : Table) (key : List UInt8) : Option Table :=
  if key ∈ T.map.map then
    some { T with
      map := { T.map with
        map := T.map.map.erase key
        keys_length := fun k hk =>
          T.map.keys_length k (AList.mem_keys.2 (AList.mem_erase.1 (AList.mem_keys.1 hk)).2) }
      keySize_eq := T.keySize_eq
      size_le := keys_length_erase_le.trans T.size_le }
  else none

/-- `Get(keyStr)`: the entry, or `nil, false` when the key does not scan, the lookup fails or the
leaf does not print. -/
def get (T : Table) (keyStr : List Char) : Option Entry :=
  match T.keyToBytes keyStr with
  | .error _ => none
  | .ok key =>
    match T.map.map.lookup key.1 with
    | none => none
    | some leaf => (T.fmt.leafSnprintf leaf).map fun value => ⟨keyStr, value⟩

/-- `Set(keyStr, leafStr)`, with the table after the call. -/
def set (T : Table) (keyStr leafStr : List Char) : Except TableError Unit × Table :=
  match T.keyToBytes keyStr with
  | .error err => (.error err, T)
  | .ok key =>
    match T.leafToBytes leafStr with
    | .error err => (.error err, T)
    | .ok leaf =>
      match T.updateElem key leaf with
      | none => (.error (.update keyStr leafStr), T)
      | some T' => (.ok (), T')

/-- `Delete(keyStr)`, with the table after the call. -/
def delete (T : Table) (keyStr : List Char) : Except TableError Unit × Table :=
  match T.keyToBytes keyStr with
  | .error err => (.error err, T)
  | .ok key =>
    match T.deleteElem key.1 with
    | none => (.error (.delete keyStr), T)
    | some T' => (.ok (), T')

/-! ## One call -/

section Calls
variable {T T' : Table} {keyStr keyStr' leafStr : List Char}

/-- The bytes `keyToBytes` returns are those of `bpf_table_key_sscanf`. -/
theorem keyToBytes_val {key : {key : List UInt8 // key.length = T.map.keySize}}
    (h : T.keyToBytes keyStr = .ok key) : T.fmt.keySscanf keyStr = some key.1 := by
  unfold keyToBytes at h
  split at h
  · rename_i key' hk
    cases h
    exact hk
  · cases h

theorem keyToBytes_of_none (h : T.fmt.keySscanf keyStr = none) :
    T.keyToBytes keyStr = .error (.scanKey keyStr) := by
  unfold keyToBytes
  split
  · rename_i key' hk
    rw [h] at hk
    cases hk
  · rfl

theorem leafToBytes_val {leaf : List UInt8} (h : T.leafToBytes leafStr = .ok leaf) :
    T.fmt.leafSscanf leafStr = some leaf := by
  unfold leafToBytes at h
  split at h
  · rename_i leaf' hl
    cases h
    exact hl
  · cases h

theorem updateElem_eq_some {key : {key : List UInt8 // key.length = T.map.keySize}}
    {leaf : List UInt8} (h : T.updateElem key leaf = some T') :
    T'.fmt = T.fmt ∧ T'.map.map = T.map.map.insert key.1 leaf := by
  unfold updateElem at h
  split_ifs at h
  cases h
  exact ⟨rfl, rfl⟩

theorem deleteElem_eq_some {key : List UInt8} (h : T.deleteElem key = some T') :
    T'.fmt = T.fmt ∧ T'.map.map = T.map.map.erase key := by
  unfold deleteElem at h
  split_ifs at h
  cases h
  exact ⟨rfl, rfl⟩

/-- `Get` as the three calls it makes. -/
theorem get_eq (T : Table) (keyStr : List Char) :
    T.get keyStr = (T.fmt.keySscanf keyStr).bind fun key =>
      (T.map.map.lookup key).bind fun leaf => (T.fmt.leafSnprintf leaf).map fun value =>
        ⟨keyStr, value⟩ := by
  unfold get
  cases hk : T.keyToBytes keyStr with
  | error err =>
    have hnone : T.fmt.keySscanf keyStr = none := by
      cases hs : T.fmt.keySscanf keyStr with
      | none => rfl
      | some key =>
        obtain ⟨key', hkey'⟩ : ∃ key', T.keyToBytes keyStr = .ok key' := by
          unfold keyToBytes
          split
          · exact ⟨_, rfl⟩
          · rename_i hn
            rw [hs] at hn
            cases hn
        rw [hk] at hkey'
        cases hkey'
    rw [hnone]
    rfl
  | ok key =>
    dsimp only
    rw [keyToBytes_val hk, Option.bind_some]
    cases T.map.map.lookup key.1 <;> rfl

/-- **What `Set` does**: it fails and changes nothing, or it scans the key and the leaf and sets
the key's entry. -/
theorem set_cases (T : Table) (keyStr leafStr : List Char) :
    (∃ err, T.set keyStr leafStr = (.error err, T)) ∨
      ∃ key leaf T', T.fmt.keySscanf keyStr = some key ∧ T.fmt.leafSscanf leafStr = some leaf ∧
        T.set keyStr leafStr = (.ok (), T') ∧ T'.fmt = T.fmt ∧
          T'.map.map = T.map.map.insert key leaf := by
  unfold set
  cases hk : T.keyToBytes keyStr with
  | error err => exact .inl ⟨err, rfl⟩
  | ok key =>
    dsimp only
    cases hl : T.leafToBytes leafStr with
    | error err => exact .inl ⟨err, rfl⟩
    | ok leaf =>
      dsimp only
      cases hu : T.updateElem key leaf with
      | none => exact .inl ⟨_, rfl⟩
      | some T'' =>
        obtain ⟨hfmt, hmap⟩ := updateElem_eq_some hu
        exact .inr ⟨key.1, leaf, T'', keyToBytes_val hk, leafToBytes_val hl, rfl, hfmt, hmap⟩

/-- What `Delete` does: it fails and changes nothing, or it scans the key and removes its entry. -/
theorem delete_cases (T : Table) (keyStr : List Char) :
    (∃ err, T.delete keyStr = (.error err, T)) ∨
      ∃ key T', T.fmt.keySscanf keyStr = some key ∧ T.delete keyStr = (.ok (), T') ∧
        T'.fmt = T.fmt ∧ T'.map.map = T.map.map.erase key := by
  unfold delete
  cases hk : T.keyToBytes keyStr with
  | error err => exact .inl ⟨err, rfl⟩
  | ok key =>
    dsimp only
    cases hd : T.deleteElem key.1 with
    | none => exact .inl ⟨_, rfl⟩
    | some T'' =>
      obtain ⟨hfmt, hmap⟩ := deleteElem_eq_some hd
      exact .inr ⟨key.1, T'', keyToBytes_val hk, rfl, hfmt, hmap⟩

theorem set_eq_ok (h : T.set keyStr leafStr = (.ok (), T')) :
    ∃ key leaf, T.fmt.keySscanf keyStr = some key ∧ T.fmt.leafSscanf leafStr = some leaf ∧
      T'.fmt = T.fmt ∧ T'.map.map = T.map.map.insert key leaf := by
  rcases set_cases T keyStr leafStr with ⟨err, herr⟩ | ⟨key, leaf, T'', hkey, hleaf, hset, hfmt, hmap⟩
  · rw [herr] at h
    cases h
  · rw [hset] at h
    cases h
    exact ⟨key, leaf, hkey, hleaf, hfmt, hmap⟩

theorem delete_eq_ok (h : T.delete keyStr = (.ok (), T')) :
    ∃ key, T.fmt.keySscanf keyStr = some key ∧ T'.fmt = T.fmt ∧ T'.map.map = T.map.map.erase key := by
  rcases delete_cases T keyStr with ⟨err, herr⟩ | ⟨key, T'', hkey, hdel, hfmt, hmap⟩
  · rw [herr] at h
    cases h
  · rw [hdel] at h
    cases h
    exact ⟨key, hkey, hfmt, hmap⟩

/-- **`Get` after `Set`** returns the leaf as libbcc prints the bytes it scanned. -/
theorem get_set (h : T.set keyStr leafStr = (.ok (), T')) :
    ∃ leaf, T.fmt.leafSscanf leafStr = some leaf ∧
      T'.get keyStr = (T.fmt.leafSnprintf leaf).map fun value => ⟨keyStr, value⟩ := by
  obtain ⟨key, leaf, hkey, hleaf, hfmt, hmap⟩ := set_eq_ok h
  refine ⟨leaf, hleaf, ?_⟩
  rw [get_eq, hfmt, hmap, hkey]
  simp [AList.lookup_insert]

/-- A leaf in the form libbcc prints is read back as it was set. -/
theorem get_set_self (h : T.set keyStr leafStr = (.ok (), T'))
    (hcanon : ∀ leaf, T.fmt.leafSscanf leafStr = some leaf → T.fmt.leafSnprintf leaf = some leafStr) :
    T'.get keyStr = some ⟨keyStr, leafStr⟩ := by
  obtain ⟨leaf, hleaf, hget⟩ := get_set h
  rw [hget, hcanon leaf hleaf]
  rfl

/-- `Set` changes `Get` of no key that scans to other bytes. -/
theorem get_set_of_ne (h : T.set keyStr leafStr = (.ok (), T'))
    (hne : T.fmt.keySscanf keyStr' ≠ T.fmt.keySscanf keyStr) : T'.get keyStr' = T.get keyStr' := by
  obtain ⟨key, leaf, hkey, -, hfmt, hmap⟩ := set_eq_ok h
  rw [get_eq, get_eq, hfmt, hmap]
  cases hk' : T.fmt.keySscanf keyStr' with
  | none => rfl
  | some key' =>
    have hkk : key' ≠ key := fun heq => hne (by rw [hk', hkey, heq])
    simp [AList.lookup_insert_ne hkk]

/-- **`Get` after `Delete`** fails. -/
theorem get_delete (h : T.delete keyStr = (.ok (), T')) : T'.get keyStr = none := by
  obtain ⟨key, hkey, hfmt, hmap⟩ := delete_eq_ok h
  rw [get_eq, hfmt, hmap, hkey]
  simp [AList.lookup_erase]

end Calls

/-! ## Runs: the table is a map from scanned keys -/

/-- A call on the table. -/
inductive Op where
  | set (keyStr leafStr : List Char)
  | delete (keyStr : List Char)

/-- The key string of a call. -/
def Op.keyStr : Op → List Char
  | .set keyStr _ => keyStr
  | .delete keyStr => keyStr

/-- The leaf a successful call leaves under its key: the scanned leaf of a `Set`, none after a
`Delete`. -/
def Op.leaf (fmt : TableFormat) : Op → Option (List UInt8)
  | .set _ leafStr => fmt.leafSscanf leafStr
  | .delete _ => none

/-- A call on the table, with the table after it. -/
def apply (T : Table) : Op → Except TableError Unit × Table
  | .set keyStr leafStr => T.set keyStr leafStr
  | .delete keyStr => T.delete keyStr

/-- A run of calls, with the result of each. -/
def run (T : Table) : List Op → List (Except TableError Unit) × Table
  | [] => ([], T)
  | op :: ops =>
    let step := T.apply op
    let rest := step.2.run ops
    (step.1 :: rest.1, rest.2)

/-- The specification: what the last successful call whose key scans to `key` left under it, in
a history of calls with their results; `none` when there is no such call. -/
def lastWrite (fmt : TableFormat) (key : List UInt8) :
    List (Op × Except TableError Unit) → Option (Option (List UInt8))
  | [] => none
  | (op, r) :: rest =>
    match lastWrite fmt key rest with
    | some w => some w
    | none => if r.toBool ∧ fmt.keySscanf op.keyStr = some key then some (op.leaf fmt) else none

section Run
variable {T : Table} {key : List UInt8}

theorem apply_fmt (T : Table) (op : Op) : (T.apply op).2.fmt = T.fmt := by
  cases op with
  | set keyStr leafStr =>
    rcases set_cases T keyStr leafStr with ⟨err, herr⟩ | ⟨-, -, T', -, -, hset, hfmt, -⟩
    · simp [apply, herr]
    · simp [apply, hset, hfmt]
  | delete keyStr =>
    rcases delete_cases T keyStr with ⟨err, herr⟩ | ⟨-, T', -, hdel, hfmt, -⟩
    · simp [apply, herr]
    · simp [apply, hdel, hfmt]

/-- **One call on the map**: a successful call sets or removes the entry of the key it scans, and
a failed one changes nothing. -/
theorem apply_lookup (T : Table) (op : Op) (key : List UInt8) :
    (T.apply op).2.map.map.lookup key =
      if (T.apply op).1.toBool ∧ T.fmt.keySscanf op.keyStr = some key then op.leaf T.fmt
      else T.map.map.lookup key := by
  cases op with
  | set keyStr leafStr =>
    rcases set_cases T keyStr leafStr with
      ⟨err, herr⟩ | ⟨key', leaf, T', hkey, hleaf, hset, -, hmap⟩
    · simp [apply, herr, Except.toBool]
    · simp only [apply, hset, hmap, Op.keyStr, Op.leaf, hkey, hleaf, Except.toBool, true_and,
        Option.some.injEq]
      by_cases hk : key' = key
      · subst hk
        simp
      · simp [hk, AList.lookup_insert_ne (Ne.symm hk)]
  | delete keyStr =>
    rcases delete_cases T keyStr with ⟨err, herr⟩ | ⟨key', T', hkey, hdel, -, hmap⟩
    · simp [apply, herr, Except.toBool]
    · simp only [apply, hdel, hmap, Op.keyStr, Op.leaf, hkey, Except.toBool, true_and,
        Option.some.injEq]
      by_cases hk : key' = key
      · subst hk
        simp
      · simp [hk, AList.lookup_erase_ne (Ne.symm hk)]

theorem run_fmt : ∀ (ops : List Op) (T : Table), (T.run ops).2.fmt = T.fmt
  | [], _ => rfl
  | op :: ops, T => by
    simp only [run]
    rw [run_fmt ops, apply_fmt]

/-- **The map after a run** holds, under each key, what the last successful call on the key left
there, and what it held before when no call succeeded on it. -/
theorem run_lookup (key : List UInt8) : ∀ (ops : List Op) (T : Table),
    (T.run ops).2.map.map.lookup key =
      match lastWrite T.fmt key (ops.zip (T.run ops).1) with
      | some w => w
      | none => T.map.map.lookup key
  | [], _ => rfl
  | op :: ops, T => by
    have ih := run_lookup key ops (T.apply op).2
    rw [apply_fmt] at ih
    simp only [run, List.zip_cons_cons, lastWrite]
    rw [ih]
    cases lastWrite T.fmt key (ops.zip ((T.apply op).2.run ops).1) with
    | some w => rfl
    | none =>
      rw [apply_lookup]
      split_ifs <;> rfl

/-- **`Get` after a run** returns, for a key that scans, the leaf that the last successful call on
its bytes left, as libbcc prints it: the table is a map from scanned keys to leaves, whatever the
calls that failed. -/
theorem get_run {keyStr : List Char} (ops : List Op) (hkey : T.fmt.keySscanf keyStr = some key) :
    (T.run ops).2.get keyStr =
      ((match lastWrite T.fmt key (ops.zip (T.run ops).1) with
        | some w => w
        | none => T.map.map.lookup key).bind fun leaf =>
          (T.fmt.leafSnprintf leaf).map fun value => ⟨keyStr, value⟩) := by
  rw [get_eq, run_fmt, hkey, Option.bind_some, run_lookup]

end Run

/-- A format of keys and leaves of one byte, written as one character. -/
def byteFormat : TableFormat where
  keySize := 1
  keySscanf s := if s.length = 1 then some (s.map fun c => c.toNat.toUInt8) else none
  leafSscanf s := if s.length = 1 then some (s.map fun c => c.toNat.toUInt8) else none
  keySnprintf b := some (b.map fun x => Char.ofNat x.toNat)
  leafSnprintf b := some (b.map fun x => Char.ofNat x.toNat)
  keySscanf_length s key h := by
    by_cases hs : s.length = 1
    · simp only [hs, if_true, Option.some.injEq] at h
      rw [← h, List.length_map, hs]
    · simp [hs] at h

/-- An empty table of `byteFormat` with room for two entries. -/
def byteTable : Table where
  fmt := byteFormat
  map := ⟨1, 1, ∅, Nat.one_pos, by simp⟩
  maxEntries := 2
  keySize_eq := rfl
  size_le := by simp

/-- `Set(1, 5)`, a failed `Delete(2)` and `Set(1, 6)`: `Get(1)` returns the last leaf set. -/
theorem get_run_byteTable :
    byteFormat.keySscanf ['1'] = some [49] ∧
      (byteTable.run [.set ['1'] ['5'], .delete ['2'], .set ['1'] ['6']]).2.get ['1'] =
        some ⟨['1'], ['6']⟩ :=
  ⟨rfl, (Table.get_run (T := byteTable) [.set ['1'] ['5'], .delete ['2'], .set ['1'] ['6']]
    rfl).trans rfl⟩

/-! ## `Get` and `Iter` -/

/-- **`Get` reads back what `Iter` sends.** When libbcc prints keys and leaves without failing and
reads back every key it prints, and `Iter` walks the whole map, every entry it sends is the one
that `Get` returns for its key. -/
theorem get_of_mem_iter (T : Table) (f g : List UInt8 → List Char)
    (hks : T.fmt.keySnprintf = some ∘ f) (hls : T.fmt.leafSnprintf = some ∘ g)
    (hround : ∀ key ∈ T.map.map, T.fmt.keySscanf (f key) = some key) {fuel : Nat}
    (hleaf : 0 < T.map.leafSize)
    (habs : ∃ b ∈ ([0, 0xff, 0x55] : List UInt8), T.map.probeKey b ∉ T.map.map)
    (hfuel : T.map.map.entries.length < fuel) :
    ∃ es, iter (T.map.env T.fmt.keySnprintf T.fmt.leafSnprintf) fuel = .ok (some es) ∧
      ∀ e ∈ es, T.get e.key = some e := by
  rw [hks, hls]
  refine ⟨_, T.map.iter_eq_entries f g hleaf habs hfuel, fun e he => ?_⟩
  obtain ⟨⟨key, leaf⟩, hmem, rfl⟩ := List.mem_map.1 he
  have hlookup : T.map.map.lookup key = some leaf := AList.mem_lookup_iff.2 hmem
  rw [get_eq, hround key (AList.mem_keys.2 (List.mem_map_of_mem hmem)), Option.bind_some,
    hlookup, Option.bind_some, hls]
  rfl

/-- A table of `byteFormat` holding `1 ↦ 6` and `2 ↦ 7`. -/
def byteTablePair : Table where
  fmt := byteFormat
  map := ⟨1, 1, ((∅ : AList _).insert [49] [54]).insert [50] [55], Nat.one_pos, by decide⟩
  maxEntries := 2
  keySize_eq := rfl
  size_le := by decide

/-- `Iter` on `byteTablePair` sends its two entries, and `Get` returns each for its key. -/
theorem get_of_mem_iter_pair :
    ∃ es, iter (byteTablePair.map.env byteFormat.keySnprintf byteFormat.leafSnprintf) 3 =
      .ok (some es) ∧ ∀ e ∈ es, byteTablePair.get e.key = some e :=
  get_of_mem_iter byteTablePair (fun b => b.map fun x => Char.ofNat x.toNat)
    (fun b => b.map fun x => Char.ofNat x.toNat) rfl rfl
    (fun key hk => by
      simp only [byteTablePair, AList.mem_insert, AList.notMem_empty, or_false] at hk
      rcases hk with rfl | rfl <;> rfl)
    Nat.one_pos ⟨0, by simp, by decide⟩ (by decide)

end Table

end Gobpf.Bcc
