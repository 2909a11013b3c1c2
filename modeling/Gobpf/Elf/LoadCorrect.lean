import Gobpf.Elf.Load
import Mathlib.Data.List.Nodup

/-!
# What `Load` loads

The meaning of the two passes of `Module.Load`: each section that holds a program with data is
loaded once, relocated by its `SHT_REL` section when it has one, and nothing else is loaded
(`expectedProgram`). The passes meet that meaning on the object files whose section names are
distinct and whose non-empty `SHT_REL` sections each relocate a section of their own that is not
itself `SHT_REL` (`WellLinked`): the programs loaded under a section's name are exactly its
expected program (`loadPrograms_filter_secName`).

The two guards beyond distinct names are needed. Two non-empty `SHT_REL` sections that relocate
the same program make `Load` load it twice (`loadPrograms_rel_twice`), and a relocation section
that relocates another one makes the program of the latter load without its relocations.

The proof follows the passes: the first loads `relLoad` of each section in order and leaves the
set `Processed` of the relocation sections and their targets (`loadRel_eq_ok`), the second loads
`plainLoad` of each section outside it (`loadProgs_eq_ok`); a program's name then names one
section of the file.
-/

namespace Gobpf.Elf

open Gobpf.Go

/-- A non-empty `SHT_REL` section, the kind the first pass handles. -/
def Section.IsRel (s : Section) : Prop :=
  s.type = .shtRel ∧ s.data ≠ []

instance : DecidablePred Section.IsRel := fun _ => inferInstanceAs (Decidable (_ ∧ _))

/-- The relocation section of section `j`: the first non-empty `SHT_REL` section naming it. -/
def companion (file : File) (j : Nat) : Option Section :=
  file.sections.find? fun r => r.IsRel ∧ r.info = j

/-- The instructions a section's program is meant to be loaded with. -/
def expectedInsns (file : File) (mapFd : List Char → Option Nat) (j : Nat) (t : Section) :
    List UInt8 :=
  match companion file j with
  | some r => relocated file (file.symbols.getD []) mapFd r.data t.data
  | none => t.data

/-- The program `Load` is meant to load from section `j`: one for a section that holds a program
and data and is not a relocation section. -/
def expectedProgram (file : File) (mapFd : List Char → Option Nat) (j : Nat) : Option Program :=
  match file.sections[j]? with
  | none => none
  | some t =>
    if t.type = .shtRel ∨ t.data = [] then none
    else (progKind t.name).map fun kind => ⟨kind, t.name, expectedInsns file mapFd j t⟩

/-- The object files on which `Load` loads what it is meant to. -/
structure WellLinked (file : File) : Prop where
  names_nodup : (file.sections.map (·.name)).Nodup
  target : ∀ r ∈ file.sections, r.IsRel → ∃ t ∈ file.sections[r.info]?, t.type ≠ .shtRel
  target_inj : ∀ r ∈ file.sections, ∀ r' ∈ file.sections, r.IsRel → r'.IsRel →
    r.info = r'.info → r = r'

instance (file : File) : Decidable (WellLinked file) :=
  decidable_of_iff (_ ∧ _ ∧ _) ⟨fun ⟨h₁, h₂, h₃⟩ => ⟨h₁, h₂, h₃⟩, fun h => ⟨h.1, h.2, h.3⟩⟩

/-! ## The two passes -/

/-- What the first pass loads for a section: when it is a non-empty `SHT_REL` section, the
section it names, relocated, if that holds a program with data. -/
def relLoad (file : File) (mapFd : List Char → Option Nat) (r : Section) : Option Program :=
  if r.IsRel then
    match file.sections[r.info]? with
    | none => none
    | some t =>
      if t.data = [] then none
      else (progKind t.name).map fun kind =>
        ⟨kind, t.name, relocated file (file.symbols.getD []) mapFd r.data t.data⟩
  else none

/-- What the second pass loads for the section `sk.1` of index `sk.2`. -/
def plainLoad (processed : List Nat) (sk : Section × Nat) : Option Program :=
  if sk.2 ∈ processed ∨ sk.1.data = [] then none
  else (progKind sk.1.name).map fun kind => ⟨kind, sk.1.name, sk.1.data⟩

/-- The sections marked as processed by the non-empty `SHT_REL` sections before index `i`: those
sections and the sections they name. -/
def Processed (secs : List Section) (i x : Nat) : Prop :=
  ∃ k < i, ∃ r, secs[k]? = some r ∧ r.IsRel ∧ (x = k ∨ x = r.info)

theorem processed_succ_of_not_rel {secs : List Section} {i x : Nat} {s : Section}
    (hs : secs[i]? = some s) (hrel : ¬ s.IsRel) :
    Processed secs (i + 1) x ↔ Processed secs i x := by
  constructor
  · rintro ⟨k, hk, r, hr, hrel', hx⟩
    rcases Nat.lt_succ_iff_lt_or_eq.1 hk with hk | rfl
    · exact ⟨k, hk, r, hr, hrel', hx⟩
    · exact absurd (Option.some.inj (hs.symm.trans hr) ▸ hrel') hrel
  · rintro ⟨k, hk, r, hr, hrel', hx⟩
    exact ⟨k, Nat.lt_succ_of_lt hk, r, hr, hrel', hx⟩

theorem processed_succ_of_rel {secs : List Section} {i x : Nat} {s : Section}
    (hs : secs[i]? = some s) (hrel : s.IsRel) :
    Processed secs (i + 1) x ↔ x = s.info ∨ x = i ∨ Processed secs i x := by
  constructor
  · rintro ⟨k, hk, r, hr, hrel', hx⟩
    rcases Nat.lt_succ_iff_lt_or_eq.1 hk with hk | rfl
    · exact Or.inr (Or.inr ⟨k, hk, r, hr, hrel', hx⟩)
    · obtain rfl := Option.some.inj (hs.symm.trans hr)
      rcases hx with rfl | rfl
      · exact Or.inr (Or.inl rfl)
      · exact Or.inl rfl
  · rintro (rfl | rfl | ⟨k, hk, r, hr, hrel', hx⟩)
    · exact ⟨i, Nat.lt_succ_self i, s, hs, hrel, Or.inr rfl⟩
    · exact ⟨x, Nat.lt_succ_self x, s, hs, hrel, Or.inl rfl⟩
    · exact ⟨k, Nat.lt_succ_of_lt hk, r, hr, hrel', hx⟩

/-- A section already processed when the first pass reaches it was named by a relocation section,
so it is not one. -/
theorem not_rel_of_processed {file : File} (hw : WellLinked file) {i : Nat} {s : Section}
    (hs : file.sections[i]? = some s) (hi : Processed file.sections i i) : ¬ s.IsRel := by
  obtain ⟨k, hk, r, hr, hrel, rfl | hinfo⟩ := hi
  · omega
  · obtain ⟨t, ht, htype⟩ := hw.target r (List.mem_of_getElem? hr) hrel
    rw [← hinfo, hs, Option.mem_def] at ht
    obtain rfl := Option.some.inj ht
    exact fun h => htype h.1

section Passes

variable {file : File} {mapFd : List Char → Option Nat} {progLoad : Nat → List UInt8 → Bool}

/-- **The first pass** loads `relLoad` of each section in order and marks `Processed`. -/
theorem loadRel_eq_ok (hw : WellLinked file) :
    ∀ {ss : List Section} {i : Nat} {P P' : List Nat} {L L' : List Program},
      file.sections.drop i = ss → (∀ x, x ∈ P ↔ Processed file.sections i x) →
      loadRel file mapFd progLoad i ss P L = .ok (P', L') →
      L' = L ++ ss.filterMap (relLoad file mapFd) ∧
        ∀ x, x ∈ P' ↔ Processed file.sections (i + ss.length) x
  | [], i, P, P', L, L', _, hP, h => by
    cases h
    exact ⟨by simp, by simpa using hP⟩
  | s :: rest, i, P, P', L, L', hdrop, hP, h => by
    have hs : file.sections[i]? = some s := by rw [← List.head?_drop, hdrop]; rfl
    have hrest : file.sections.drop (i + 1) = rest := by rw [← List.tail_drop, hdrop]; rfl
    have hlen : i + (s :: rest).length = i + 1 + rest.length := by simp; omega
    have hskip : ¬ s.IsRel → loadRel file mapFd progLoad (i + 1) rest P L = .ok (P', L') →
        L' = L ++ (s :: rest).filterMap (relLoad file mapFd) ∧
          ∀ x, x ∈ P' ↔ Processed file.sections (i + (s :: rest).length) x := by
      intro hrel h
      have hP' : ∀ x, x ∈ P ↔ Processed file.sections (i + 1) x := fun x =>
        (hP x).trans (processed_succ_of_not_rel hs hrel).symm
      obtain ⟨hL, hPx⟩ := loadRel_eq_ok hw hrest hP' h
      refine ⟨?_, hlen ▸ hPx⟩
      rw [hL, List.filterMap_cons, relLoad, if_neg hrel]
    unfold loadRel at h
    split_ifs at h with hi hdata htype
    · exact hskip (not_rel_of_processed hw hs ((hP i).1 hi)) h
    · exact hskip (fun hrel => hrel.2 hdata) h
    · have hrel : s.IsRel := ⟨htype, hdata⟩
      have hP' : ∀ x, x ∈ s.info :: i :: P ↔ Processed file.sections (i + 1) x := fun x => by
        rw [processed_succ_of_rel hs hrel, List.mem_cons, List.mem_cons, hP x]
      have hload : ∀ {L₁ : List Program},
          loadRel file mapFd progLoad (i + 1) rest (s.info :: i :: P) L₁ = .ok (P', L') →
          L₁ ++ rest.filterMap (relLoad file mapFd) =
            L ++ (s :: rest).filterMap (relLoad file mapFd) →
          L' = L ++ (s :: rest).filterMap (relLoad file mapFd) ∧
            ∀ x, x ∈ P' ↔ Processed file.sections (i + (s :: rest).length) x := by
        intro L₁ h hL₁
        obtain ⟨hL, hPx⟩ := loadRel_eq_ok hw hrest hP' h
        exact ⟨hL.trans hL₁, hlen ▸ hPx⟩
      obtain ⟨t, ht, -⟩ := hw.target s (List.mem_of_getElem? hs) hrel
      rw [Option.mem_def] at ht
      rw [ht] at h
      dsimp only at h
      split at h
      · rename_i hkind
        exact hload h (by simp [relLoad, hrel, ht, hkind])
      · rename_i kind hkind
        split_ifs at h with htdata
        · exact hload h (by simp [relLoad, hrel, ht, htdata])
        · split at h
          · cases h
          · rename_i insns hinsns
            split_ifs at h
            obtain ⟨symbols, hsymbols, rfl⟩ := relocate_eq_ok hinsns
            exact hload h (by simp [relLoad, hrel, ht, htdata, hkind, hsymbols])
    · exact hskip (fun hrel => htype hrel.1) h

/-- **The second pass** loads `plainLoad` of each section in order. -/
theorem loadProgs_eq_ok (P : List Nat) :
    ∀ {ss : List Section} {i : Nat} {L L' : List Program},
      loadProgs progLoad P i ss L = .ok L' → L' = L ++ (ss.zipIdx i).filterMap (plainLoad P)
  | [], _, _, _, h => by
    cases h
    simp
  | s :: rest, i, L, L', h => by
    have hskip : plainLoad P (s, i) = none → loadProgs progLoad P (i + 1) rest L = .ok L' →
        L' = L ++ ((s :: rest).zipIdx i).filterMap (plainLoad P) := by
      intro hnone h
      rw [loadProgs_eq_ok P h, List.zipIdx_cons, List.filterMap_cons, hnone]
    unfold loadProgs at h
    split_ifs at h with hi hdata
    · exact hskip (by simp [plainLoad, hi]) h
    · split at h <;> exact hskip (by simp [plainLoad, hdata]) h
    · split at h
      · rename_i hkind
        exact hskip (by simp [plainLoad, hkind]) h
      · rename_i kind hkind
        split_ifs at h
        rw [loadProgs_eq_ok P h, List.zipIdx_cons, List.filterMap_cons]
        simp [plainLoad, hi, hdata, hkind]

/-- The programs `Load` loads: those of the first pass, then those of the second outside the
sections the first one processed. -/
theorem loadPrograms_eq_ok (hw : WellLinked file) {progs : List Program}
    (h : loadPrograms file mapFd progLoad = .ok progs) :
    ∃ P : List Nat, (∀ x, x ∈ P ↔ Processed file.sections file.sections.length x) ∧
      progs = file.sections.filterMap (relLoad file mapFd) ++
        file.sections.zipIdx.filterMap (plainLoad P) := by
  unfold loadPrograms at h
  split at h
  · cases h
  · rename_i P L hrel
    obtain ⟨hL, hP⟩ := loadRel_eq_ok hw (List.drop_zero) (by simp [Processed]) hrel
    refine ⟨P, by simpa using hP, ?_⟩
    rw [loadProgs_eq_ok P h, hL, List.nil_append]

end Passes

/-! ## One section's programs -/

/-- When at most one element of a list without duplicates satisfies `p`, and `g` is defined only
there, `filterMap g` keeps what `g` gives at the first element satisfying `p`. -/
theorem filterMap_eq_find? {α β : Type*} {l : List α} (hl : l.Nodup) (p : α → Bool)
    (g : α → Option β) (hg : ∀ a ∈ l, (g a).isSome → p a)
    (huniq : ∀ a ∈ l, ∀ b ∈ l, p a → p b → a = b) :
    l.filterMap g = ((l.find? p).bind g).toList := by
  induction l with
  | nil => rfl
  | cons a l ih =>
    obtain ⟨ha, hl⟩ := List.nodup_cons.1 hl
    by_cases hpa : p a
    · have hrest : l.filterMap g = [] := by
        refine List.filterMap_eq_nil_iff.2 fun b hb => Option.not_isSome_iff_eq_none.1 fun hgb => ?_
        have hab := huniq a List.mem_cons_self b (List.mem_cons_of_mem _ hb) hpa
          (hg b (List.mem_cons_of_mem _ hb) hgb)
        exact ha (hab ▸ hb)
      rw [List.filterMap_cons, List.find?_cons_of_pos hpa, hrest, Option.bind_some]
      cases g a <;> rfl
    · have hga : g a = none :=
        Option.not_isSome_iff_eq_none.1 fun h => hpa (hg a List.mem_cons_self h)
      rw [List.filterMap_cons, hga, List.find?_cons_of_neg hpa,
        ih hl (fun b hb => hg b (List.mem_cons_of_mem _ hb))
          (fun b hb c hc => huniq b (List.mem_cons_of_mem _ hb) c (List.mem_cons_of_mem _ hc))]

/-- With distinct names, a section's name names its index. -/
theorem index_eq_of_name {secs : List Section} (hnd : (secs.map (·.name)).Nodup) {k j : Nat}
    {s t : Section} (hk : secs[k]? = some s) (hj : secs[j]? = some t) (h : s.name = t.name) :
    k = j := by
  have hlen : k < (secs.map (·.name)).length := by
    simpa using (List.getElem?_eq_some_iff.1 hk).1
  exact (List.getElem?_inj hlen hnd).1 (by simp [hk, hj, h])

/-- A program built for a section keeps the section's name through the filter by that name. -/
@[simp] theorem filter_secName_map (o : Option ProgKind) (n : List Char) (insns : List UInt8) :
    (o.map fun kind => (⟨kind, n, insns⟩ : Program)).filter (fun p => p.secName = n) =
      o.map fun kind => ⟨kind, n, insns⟩ := by
  cases o <;> simp [Option.filter]

/-- What the filter by a name keeps is a program of that name. -/
theorem exists_of_isSome_filter_secName {o : Option Program} {n : List Char}
    (h : (o.filter fun p => p.secName = n).isSome) : ∃ p, o = some p ∧ p.secName = n := by
  obtain ⟨p, hp⟩ := Option.isSome_iff_exists.1 h
  obtain ⟨hp, hname⟩ := Option.filter_eq_some_iff.1 hp
  exact ⟨p, hp, by simpa using hname⟩

section Filter

variable {file : File} {mapFd : List Char → Option Nat} {j : Nat} {t : Section}

/-- The first pass loads under section `j`'s name only for its relocation section. -/
theorem relLoad_filter_secName (hw : WellLinked file) (ht : file.sections[j]? = some t) :
    (file.sections.filterMap (relLoad file mapFd)).filter (fun p => p.secName = t.name) =
      ((companion file j).bind (relLoad file mapFd)).toList := by
  rw [List.filter_filterMap, companion]
  rw [filterMap_eq_find? (List.Nodup.of_map _ hw.names_nodup) _ _ ?_ ?_]
  · cases hfind : file.sections.find? (fun r => r.IsRel ∧ r.info = j) with
    | none => rfl
    | some r =>
      have hr : r.IsRel ∧ r.info = j := by simpa using List.find?_some hfind
      simp only [Option.bind_some, relLoad, if_pos hr.1, hr.2, ht]
      split_ifs <;> simp
  · intro r hr hsome
    obtain ⟨p, hp, hname⟩ := exists_of_isSome_filter_secName hsome
    unfold relLoad at hp
    split_ifs at hp with hrel
    split at hp
    · cases hp
    · rename_i t' ht'
      split_ifs at hp
      obtain ⟨kind, -, rfl⟩ := Option.map_eq_some_iff.1 hp
      exact decide_eq_true ⟨hrel, index_eq_of_name hw.names_nodup ht' ht hname⟩
  · intro r hr r' hr' hp hp'
    simp only [decide_eq_true_eq] at hp hp'
    exact hw.target_inj r hr r' hr' hp.1 hp'.1 (hp.2.trans hp'.2.symm)

/-- The second pass loads under section `j`'s name only for section `j`. -/
theorem plainLoad_filter_secName (hw : WellLinked file) (P : List Nat)
    (ht : file.sections[j]? = some t) :
    (file.sections.zipIdx.filterMap (plainLoad P)).filter (fun p => p.secName = t.name) =
      (plainLoad P (t, j)).toList := by
  have hmem : (t, j) ∈ file.sections.zipIdx := List.mem_zipIdx_iff_getElem?.2 ht
  have huniq : ∀ a ∈ file.sections.zipIdx, ∀ b ∈ file.sections.zipIdx,
      decide (a.2 = j) = true → decide (b.2 = j) = true → a = b := by
    rintro ⟨s, k⟩ hs ⟨s', k'⟩ hs' hk hk'
    simp only [decide_eq_true_eq] at hk hk'
    subst hk hk'
    rw [List.mem_zipIdx_iff_getElem?] at hs hs'
    obtain rfl := Option.some.inj (hs.symm.trans hs')
    rfl
  have hnodup : file.sections.zipIdx.Nodup := by
    refine List.Nodup.of_map Prod.snd ?_
    rw [List.zipIdx_map_snd]
    exact List.nodup_range' 1 (by omega)
  have hfind : file.sections.zipIdx.find? (fun sk => decide (sk.2 = j)) = some (t, j) := by
    cases h : file.sections.zipIdx.find? (fun sk => decide (sk.2 = j)) with
    | none => exact absurd (List.find?_eq_none.1 h _ hmem) (by simp)
    | some a =>
      have ha : decide (a.2 = j) = true := by simpa using List.find?_some h
      exact congrArg some (huniq a (List.mem_of_find?_eq_some h) _ hmem ha (by simp))
  rw [List.filter_filterMap, filterMap_eq_find? hnodup (fun sk => decide (sk.2 = j)) _ ?_ huniq,
    hfind, Option.bind_some]
  · unfold plainLoad
    split_ifs <;> simp
  · rintro ⟨s, k⟩ hs hsome
    obtain ⟨p, hp, hname⟩ := exists_of_isSome_filter_secName hsome
    unfold plainLoad at hp
    split_ifs at hp
    obtain ⟨kind, -, rfl⟩ := Option.map_eq_some_iff.1 hp
    exact decide_eq_true
      (index_eq_of_name hw.names_nodup (List.mem_zipIdx_iff_getElem?.1 hs) ht hname)

/-- **`Load` loads, under each section's name, the program the section is meant to hold**: one
for a section that holds a program with data and is not a relocation section, relocated by its
relocation section, of the type and in the registry of its prefix; none for any other. -/
theorem loadPrograms_filter_secName {progLoad : Nat → List UInt8 → Bool} (hw : WellLinked file)
    {progs : List Program} (h : loadPrograms file mapFd progLoad = .ok progs)
    (ht : file.sections[j]? = some t) :
    progs.filter (fun p => p.secName = t.name) = (expectedProgram file mapFd j).toList := by
  obtain ⟨P, hP, rfl⟩ := loadPrograms_eq_ok hw h
  have hjlen : j < file.sections.length := (List.getElem?_eq_some_iff.1 ht).1
  rw [List.filter_append, relLoad_filter_secName hw ht, plainLoad_filter_secName hw P ht]
  cases hcomp : companion file j with
  | some r =>
    have hr : r.IsRel ∧ r.info = j := by simpa using List.find?_some hcomp
    have hrmem : r ∈ file.sections := List.mem_of_find?_eq_some hcomp
    obtain ⟨k, hk⟩ := List.mem_iff_getElem?.1 hrmem
    have hj : j ∈ P := (hP j).2
      ⟨k, (List.getElem?_eq_some_iff.1 hk).1, r, hk, hr.1, Or.inr hr.2.symm⟩
    obtain ⟨t', ht', htype⟩ := hw.target r hrmem hr.1
    rw [hr.2, ht, Option.mem_def] at ht'
    obtain rfl := Option.some.inj ht'
    simp [plainLoad, hj, relLoad, hr.1, hr.2, ht, expectedProgram, htype, expectedInsns, hcomp]
  | none =>
    have hnone : ∀ r ∈ file.sections, ¬ (r.IsRel ∧ r.info = j) := by
      simpa [companion, List.find?_eq_none] using hcomp
    have hj : j ∈ P ↔ t.IsRel := by
      rw [hP j]
      constructor
      · rintro ⟨k, -, r, hk, hrel, rfl | hinfo⟩
        · exact Option.some.inj (hk.symm.trans ht) ▸ hrel
        · exact absurd ⟨hrel, hinfo.symm⟩ (hnone r (List.mem_of_getElem? hk))
      · intro hrel
        exact ⟨j, hjlen, t, ht, hrel, Or.inl rfl⟩
    unfold Section.IsRel at hj
    by_cases htype : t.type = .shtRel <;> by_cases hdata : t.data = [] <;>
      simp [plainLoad, hj, htype, hdata, expectedProgram, ht, expectedInsns, hcomp]

/-- The registries after `Load`: under a section's name, the registry of its prefix holds the
section's expected program, and the other registries hold nothing. -/
theorem loadPrograms_registered {progLoad : Nat → List UInt8 → Bool} (hw : WellLinked file)
    {progs : List Program} (h : loadPrograms file mapFd progLoad = .ok progs)
    (ht : file.sections[j]? = some t) (registry : Registry) :
    registered progs registry t.name =
      (expectedProgram file mapFd j).filter (fun p => p.kind.registry = registry) := by
  have hfilter : progs.filter (fun p => p.kind.registry = registry ∧ p.secName = t.name) =
      (progs.filter fun p => p.secName = t.name).filter fun p => p.kind.registry = registry := by
    rw [List.filter_filter]
    congr 1
    funext p
    rw [Bool.decide_and, Bool.and_comm]
  rw [registered, hfilter, loadPrograms_filter_secName hw h ht]
  cases expectedProgram file mapFd j with
  | none => rfl
  | some p => by_cases hp : p.kind.registry = registry <;> simp [Option.filter, hp]

theorem loadPrograms_filter_secName_kprobe :
    WellLinked ⟨.elfClass64, .littleEndian,
      [⟨[], .other, 0, []⟩, ⟨"kprobe/f".toList, .other, 0, [0x18, 0, 0, 0, 0, 0, 0, 0, 0, 0, 0, 0, 0, 0, 0, 0]⟩, ⟨"maps/m".toList, .other, 0, [0]⟩,
        ⟨".relkprobe/f".toList, .shtRel, 1, [0, 0, 0, 0, 0, 0, 0, 0, 0, 0, 0, 0, 1, 0, 0, 0]⟩], some [⟨['m'], 2⟩]⟩ ∧
    loadPrograms ⟨.elfClass64, .littleEndian,
      [⟨[], .other, 0, []⟩, ⟨"kprobe/f".toList, .other, 0, [0x18, 0, 0, 0, 0, 0, 0, 0, 0, 0, 0, 0, 0, 0, 0, 0]⟩, ⟨"maps/m".toList, .other, 0, [0]⟩,
        ⟨".relkprobe/f".toList, .shtRel, 1, [0, 0, 0, 0, 0, 0, 0, 0, 0, 0, 0, 0, 1, 0, 0, 0]⟩], some [⟨['m'], 2⟩]⟩
      (fun name => if name = ['m'] then some 7 else none) (fun _ _ => true) =
      .ok [⟨.kprobe, "kprobe/f".toList, [0x18, 0x10, 0, 0, 7, 0, 0, 0, 0, 0, 0, 0, 0, 0, 0, 0]⟩] ∧
    ([⟨[], .other, 0, []⟩, ⟨"kprobe/f".toList, .other, 0, [0x18, 0, 0, 0, 0, 0, 0, 0, 0, 0, 0, 0, 0, 0, 0, 0]⟩, ⟨"maps/m".toList, .other, 0, [0]⟩,
        ⟨".relkprobe/f".toList, .shtRel, 1, [0, 0, 0, 0, 0, 0, 0, 0, 0, 0, 0, 0, 1, 0, 0, 0]⟩] : List Section)[1]? =
      some ⟨"kprobe/f".toList, .other, 0, [0x18, 0, 0, 0, 0, 0, 0, 0, 0, 0, 0, 0, 0, 0, 0, 0]⟩ ∧
    [(⟨.kprobe, "kprobe/f".toList, [0x18, 0x10, 0, 0, 7, 0, 0, 0, 0, 0, 0, 0, 0, 0, 0, 0]⟩ :
        Program)].filter (fun p => p.secName = "kprobe/f".toList) =
      (expectedProgram ⟨.elfClass64, .littleEndian,
        [⟨[], .other, 0, []⟩, ⟨"kprobe/f".toList, .other, 0, [0x18, 0, 0, 0, 0, 0, 0, 0, 0, 0, 0, 0, 0, 0, 0, 0]⟩,
          ⟨"maps/m".toList, .other, 0, [0]⟩, ⟨".relkprobe/f".toList, .shtRel, 1, [0, 0, 0, 0, 0, 0, 0, 0, 0, 0, 0, 0, 1, 0, 0, 0]⟩],
        some [⟨['m'], 2⟩]⟩ (fun name => if name = ['m'] then some 7 else none) 1).toList :=
  ⟨by decide, by decide, rfl, @loadPrograms_filter_secName _ _ _
    ⟨"kprobe/f".toList, .other, 0, [0x18, 0, 0, 0, 0, 0, 0, 0, 0, 0, 0, 0, 0, 0, 0, 0]⟩
    (fun _ _ => true) (by decide) _ (by decide) rfl⟩

end Filter

/-- The guards are needed: two relocation sections for one program load it twice, and a
relocation section that names another one leaves the program of that one unrelocated, though
its entry names the program's first instruction. -/
theorem loadPrograms_rel_twice :
    ((loadPrograms ⟨.elfClass64, .littleEndian,
        [⟨[], .other, 0, []⟩, ⟨"kprobe/f".toList, .other, 0, [0x18, 0, 0, 0, 0, 0, 0, 0, 0, 0, 0, 0, 0, 0, 0, 0]⟩,
          ⟨"maps/m".toList, .other, 0, [0]⟩, ⟨".rel1".toList, .shtRel, 1, [0, 0, 0, 0, 0, 0, 0, 0, 0, 0, 0, 0, 1, 0, 0, 0]⟩,
          ⟨".rel2".toList, .shtRel, 1, [0, 0, 0, 0, 0, 0, 0, 0, 0, 0, 0, 0, 1, 0, 0, 0]⟩], some [⟨['m'], 2⟩]⟩
        (fun name => if name = ['m'] then some 7 else none) (fun _ _ => true)).toOption.map
      fun progs => progs.map (·.secName)) = some ["kprobe/f".toList, "kprobe/f".toList] ∧
    loadPrograms ⟨.elfClass64, .littleEndian,
        [⟨[], .other, 0, []⟩, ⟨"kprobe/f".toList, .other, 0, [0x18, 0, 0, 0, 0, 0, 0, 0, 0, 0, 0, 0, 0, 0, 0, 0]⟩,
          ⟨"maps/m".toList, .other, 0, [0]⟩, ⟨".rel0".toList, .shtRel, 4, [0, 0, 0, 0, 0, 0, 0, 0, 0, 0, 0, 0, 1, 0, 0, 0]⟩,
          ⟨".relkprobe/f".toList, .shtRel, 1, [0, 0, 0, 0, 0, 0, 0, 0, 0, 0, 0, 0, 1, 0, 0, 0]⟩], some [⟨['m'], 2⟩]⟩
        (fun name => if name = ['m'] then some 7 else none) (fun _ _ => true) =
      .ok [⟨.kprobe, "kprobe/f".toList, [0x18, 0, 0, 0, 0, 0, 0, 0, 0, 0, 0, 0, 0, 0, 0, 0]⟩] := by
  decide

/-! ## Faults -/

/-- The object files on which `Load` cannot fault: every non-empty relocation section names a
section of the file, and each entry it has in full names a symbol of the table, a section of the
file and an instruction of the program it relocates. -/
def InRange (file : File) : Prop :=
  ∀ r ∈ file.sections, r.IsRel → ∃ t ∈ file.sections[r.info]?, ∀ symbols ∈ file.symbols,
    ∀ entry ∈ r.data.toChunks file.elfClass.relSize, file.elfClass.relSize ≤ entry.length →
      EntryInRange file symbols t.data.length entry

instance (file : File) : Decidable (InRange file) := by
  unfold InRange
  infer_instance

section Faults

variable {file : File} {mapFd : List Char → Option Nat} {progLoad : Nat → List UInt8 → Bool}

/-- Run: the first pass over sections of a file within range does not fault. -/
theorem loadRel_not_fault (hin : InRange file) :
    ∀ {ss : List Section} {i : Nat} {P : List Nat} {L : List Program} {err : LoadError},
      (∀ s ∈ ss, s ∈ file.sections) →
      loadRel file mapFd progLoad i ss P L = .error err → err.isFault = false
  | [], _, _, _, _, _, h => by cases h
  | s :: rest, i, P, L, err, hss, h => by
    have hrest : ∀ s' ∈ rest, s' ∈ file.sections := fun s' hs' => hss s' (List.mem_cons_of_mem _ hs')
    unfold loadRel at h
    split_ifs at h with hi hdata htype
    · exact loadRel_not_fault hin hrest h
    · exact loadRel_not_fault hin hrest h
    · obtain ⟨t, ht, hentries⟩ := hin s (hss s List.mem_cons_self) ⟨htype, hdata⟩
      rw [Option.mem_def] at ht
      rw [ht] at h
      dsimp only at h
      split at h
      · exact loadRel_not_fault hin hrest h
      · split_ifs at h
        · exact loadRel_not_fault hin hrest h
        · split at h
          · rename_i hrelocate
            cases h
            exact relocate_not_fault (fun symbols hsymbols => hentries symbols hsymbols) hrelocate
          · split_ifs at h
            · exact loadRel_not_fault hin hrest h
            · cases h
              rfl
    · exact loadRel_not_fault hin hrest h

/-- Run: the second pass fails only when the kernel refuses a program. -/
theorem loadProgs_not_fault (P : List Nat) :
    ∀ {ss : List Section} {i : Nat} {L : List Program} {err : LoadError},
      loadProgs progLoad P i ss L = .error err → err.isFault = false
  | [], _, _, _, h => by cases h
  | s :: rest, i, L, err, h => by
    unfold loadProgs at h
    split_ifs at h
    · exact loadProgs_not_fault P h
    · split at h <;> exact loadProgs_not_fault P h
    · split at h
      · exact loadProgs_not_fault P h
      · split_ifs at h
        · exact loadProgs_not_fault P h
        · cases h
          rfl

/-- **`Load` does not fault on an object file whose relocations lie within its tables**: it
returns its programs or an error. -/
theorem loadPrograms_not_fault (hin : InRange file) {err : LoadError}
    (h : loadPrograms file mapFd progLoad = .error err) : err.isFault = false := by
  unfold loadPrograms at h
  split at h
  · rename_i err' hrel
    cases h
    exact loadRel_not_fault hin (fun _ hs => hs) hrel
  · exact loadProgs_not_fault _ h

end Faults

end Gobpf.Elf
