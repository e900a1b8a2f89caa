import Mathlib

/-!
# StitchEditor.Lib.Table

What the standard ordered map (`Std.ExtTreeMap`) needs to serve as a
canonically iterated table: its `toList` is the one sorted listing of its
entries, so a table is known from any listing up to order
(`toList_eq_of_perm`), grows at the end when the new key is the largest
(`toList_insert_of_lt`), and is rebuilt by inserting a listing entry by
entry (`foldlM_addFresh_iff`).
-/

namespace Table

open Std

variable {κ ν : Type} {cmp : κ → κ → Ordering} [TransCmp cmp]

/-! ## the sorted listing -/

theorem nodup_toList (t : ExtTreeMap κ ν cmp) : t.toList.Nodup :=
  ExtTreeMap.distinct_keys_toList.imp fun hne heq => hne (by rw [heq]; exact ReflCmp.compare_self)

theorem nodup_map_fst_toList (t : ExtTreeMap κ ν cmp) : (t.toList.map Prod.fst).Nodup := by
  rw [List.Nodup, List.pairwise_map]
  exact ExtTreeMap.distinct_keys_toList.imp fun hne heq =>
    hne (by rw [heq]; exact ReflCmp.compare_self)

/-- A sorted listing of the entries is the listing. -/
theorem toList_eq_of_perm {t : ExtTreeMap κ ν cmp} {l : List (κ × ν)} (hperm : t.toList.Perm l)
    (hsorted : l.Pairwise fun a b => cmp a.1 b.1 = .lt) : t.toList = l := by
  refine hperm.eq_of_pairwise ?_ ExtTreeMap.ordered_keys_toList hsorted
  intro a b _ _ hab hba
  have hswap : cmp a.1 b.1 = (cmp b.1 a.1).swap := OrientedCmp.eq_swap
  rw [hab, hba] at hswap
  cases hswap

theorem mem_iff_exists {t : ExtTreeMap κ ν cmp} {k : κ} : k ∈ t ↔ ∃ v, t[k]? = some v := by
  rw [ExtTreeMap.mem_iff_isSome_getElem?, Option.isSome_iff_exists]

theorem not_mem_iff {t : ExtTreeMap κ ν cmp} {k : κ} : k ∉ t ↔ t[k]? = none := by
  rw [ExtTreeMap.mem_iff_isSome_getElem?, Option.not_isSome_iff_eq_none]

theorem not_mem_erase_self {t : ExtTreeMap κ ν cmp} {k : κ} : k ∉ t.erase k :=
  not_mem_iff.mpr ExtTreeMap.getElem?_erase_self

theorem eq_empty_of_size_eq_zero {t : ExtTreeMap κ ν cmp} (h : t.size = 0) : t = ∅ := by
  rw [← ExtTreeMap.length_toList, List.length_eq_zero_iff] at h
  exact ExtTreeMap.toList_eq_nil_iff.mp h

/-- Replacing the value of a key that is present keeps the number of
entries. -/
theorem size_insert_of_mem {t : ExtTreeMap κ ν cmp} {k : κ} {v : ν} (h : k ∈ t) :
    (t.insert k v).size = t.size := by
  rw [ExtTreeMap.size_insert, if_pos (ExtTreeMap.mem_iff_contains.mp h)]

theorem size_insert_of_not_mem {t : ExtTreeMap κ ν cmp} {k : κ} {v : ν} (h : k ∉ t) :
    (t.insert k v).size = t.size + 1 := by
  rw [ExtTreeMap.size_insert, if_neg (mt ExtTreeMap.mem_iff_contains.mpr h)]

theorem size_erase_add_one {t : ExtTreeMap κ ν cmp} {k : κ} (h : k ∈ t) :
    (t.erase k).size + 1 = t.size := by
  have hpos : 0 < t.size := by
    rw [← ExtTreeMap.length_keys]
    exact List.length_pos_iff.mpr fun hnil => by
      rw [ExtTreeMap.keys_eq_nil_iff] at hnil
      simp [hnil] at h
  rw [ExtTreeMap.size_erase, if_pos (ExtTreeMap.mem_iff_contains.mp h)]
  omega

/-! ## keys compared by equality -/

variable [LawfulEqCmp cmp]

theorem mem_toList_iff {t : ExtTreeMap κ ν cmp} {k : κ} {v : ν} :
    (k, v) ∈ t.toList ↔ t[k]? = some v := ExtTreeMap.mem_toList_iff_getElem?_eq_some

/-- `get?` after an insertion, by equality of keys. -/
theorem getElem?_insert_eq [DecidableEq κ] (t : ExtTreeMap κ ν cmp) (k a : κ) (v : ν) :
    (t.insert k v)[a]? = if a = k then some v else t[a]? := by
  rw [ExtTreeMap.getElem?_insert]
  simp only [LawfulEqCmp.compare_eq_iff_eq, eq_comm (a := a)]

theorem getElem?_erase_eq [DecidableEq κ] (t : ExtTreeMap κ ν cmp) (k a : κ) :
    (t.erase k)[a]? = if a = k then none else t[a]? := by
  rw [ExtTreeMap.getElem?_erase]
  simp only [LawfulEqCmp.compare_eq_iff_eq, eq_comm (a := a)]

/-- An entry after an insertion is the new one, or an old one of another
key. -/
theorem getElem?_insert_eq_some_iff {t : ExtTreeMap κ ν cmp} {k a : κ} {v w : ν} :
    (t.insert k v)[a]? = some w ↔ (a = k ∧ v = w) ∨ (a ≠ k ∧ t[a]? = some w) := by
  classical
  rw [getElem?_insert_eq]
  by_cases h : a = k <;> simp [h]

theorem getElem?_erase_eq_some_iff {t : ExtTreeMap κ ν cmp} {k a : κ} {w : ν} :
    (t.erase k)[a]? = some w ↔ a ≠ k ∧ t[a]? = some w := by
  classical
  rw [getElem?_erase_eq]
  by_cases h : a = k <;> simp [h]

theorem getElem?_modify_eq [DecidableEq κ] (t : ExtTreeMap κ ν cmp) (k a : κ) (f : ν → ν) :
    (t.modify k f)[a]? = if a = k then t[k]?.map f else t[a]? := by
  rw [ExtTreeMap.getElem?_modify]
  simp only [LawfulEqCmp.compare_eq_iff_eq, eq_comm (a := a)]

/-- Modifying an entry that is there. -/
theorem modify_eq_insert {t : ExtTreeMap κ ν cmp} {k : κ} {v : ν} (f : ν → ν) (h : t[k]? = some v) :
    t.modify k f = t.insert k (f v) := by
  classical
  refine ExtTreeMap.ext_getElem? fun a => ?_
  rw [getElem?_modify_eq, getElem?_insert_eq, h]
  rfl

/-- Mapping the entries where only one of them changes. -/
theorem map_eq_insert {t : ExtTreeMap κ ν cmp} {k : κ} {v : ν} (f : ν → ν) (h : t[k]? = some v)
    (hother : ∀ a w, a ≠ k → t[a]? = some w → f w = w) :
    (t.map fun _ => f) = t.insert k (f v) := by
  classical
  refine ExtTreeMap.ext_getElem? fun a => ?_
  rw [ExtTreeMap.getElem?_map, getElem?_insert_eq]
  by_cases ha : a = k
  · simp [ha, h]
  · cases hw : t[a]? with
    | none => simp [ha]
    | some w => simp [ha, hother a w ha hw]

/-- Putting an erased entry back. -/
theorem insert_erase_self {t : ExtTreeMap κ ν cmp} {k : κ} {v : ν} (h : t[k]? = some v) :
    (t.erase k).insert k v = t := by
  classical
  refine ExtTreeMap.ext_getElem? fun a => ?_
  rw [getElem?_insert_eq, getElem?_erase_eq]
  by_cases ha : a = k
  · rw [if_pos ha, ha, h]
  · rw [if_neg ha, if_neg ha]

/-- Removing what was just put in. -/
theorem erase_insert_self {t : ExtTreeMap κ ν cmp} {k : κ} {v : ν} :
    (t.insert k v).erase k = t.erase k := by
  classical
  refine ExtTreeMap.ext_getElem? fun a => ?_
  rw [getElem?_erase_eq, getElem?_erase_eq, getElem?_insert_eq]
  by_cases ha : a = k
  · rw [if_pos ha, if_pos ha]
  · rw [if_neg ha, if_neg ha, if_neg ha]

/-- Removing what was put in anew. -/
theorem erase_insert_of_not_mem {t : ExtTreeMap κ ν cmp} {k : κ} {v : ν} (h : k ∉ t) :
    (t.insert k v).erase k = t := by
  classical
  refine ExtTreeMap.ext_getElem? fun a => ?_
  rw [getElem?_erase_eq, getElem?_insert_eq]
  by_cases ha : a = k
  · rw [if_pos ha, ha, not_mem_iff.mp h]
  · rw [if_neg ha, if_neg ha]

/-- The last insertion counts. -/
theorem insert_insert {t : ExtTreeMap κ ν cmp} {k : κ} {v w : ν} :
    (t.insert k v).insert k w = t.insert k w := by
  classical
  refine ExtTreeMap.ext_getElem? fun a => ?_
  rw [getElem?_insert_eq, getElem?_insert_eq, getElem?_insert_eq]
  by_cases ha : a = k
  · rw [if_pos ha, if_pos ha]
  · rw [if_neg ha, if_neg ha, if_neg ha]

/-- Putting an overwritten entry back. -/
theorem insert_insert_self {t : ExtTreeMap κ ν cmp} {k : κ} {v w : ν} (h : t[k]? = some v) :
    (t.insert k w).insert k v = t := by
  classical
  refine ExtTreeMap.ext_getElem? fun a => ?_
  rw [getElem?_insert_eq, getElem?_insert_eq]
  by_cases ha : a = k
  · rw [if_pos ha, ha, h]
  · rw [if_neg ha, if_neg ha]

/-- Inserting a fresh key lists one more entry. -/
theorem perm_toList_insert {t : ExtTreeMap κ ν cmp} {k : κ} (v : ν) (h : k ∉ t) :
    (t.insert k v).toList.Perm ((k, v) :: t.toList) := by
  classical
  have hk : ∀ w, (k, w) ∉ t.toList := fun w hw =>
    h (mem_iff_exists.mpr ⟨w, mem_toList_iff.mp hw⟩)
  refine (List.perm_ext_iff_of_nodup (nodup_toList _)
    (List.nodup_cons.mpr ⟨hk v, nodup_toList t⟩)).mpr ?_
  rintro ⟨a, w⟩
  rw [mem_toList_iff, getElem?_insert_eq, List.mem_cons, mem_toList_iff]
  by_cases ha : a = k
  · subst ha
    simp [not_mem_iff.mp h, eq_comm]
  · simp [ha]

/-- A key beyond all others is listed last. -/
theorem toList_insert_of_lt {t : ExtTreeMap κ ν cmp} {k : κ} (v : ν)
    (h : ∀ e ∈ t.toList, cmp e.1 k = .lt) : (t.insert k v).toList = t.toList ++ [(k, v)] := by
  have hk : k ∉ t := fun hmem => by
    obtain ⟨w, hw⟩ := mem_iff_exists.mp hmem
    have hlt := h (k, w) (mem_toList_iff.mpr hw)
    exact absurd (hlt.symm.trans ReflCmp.compare_self) (by decide)
  refine toList_eq_of_perm ((perm_toList_insert v hk).trans ?_) ?_
  · rw [← List.singleton_append]
    exact List.perm_append_comm
  · refine List.pairwise_append.mpr ⟨ExtTreeMap.ordered_keys_toList, by simp, ?_⟩
    intro a ha b hb
    rw [List.mem_singleton] at hb
    subst hb
    exact h a ha

/-- A table that is not empty has an entry. -/
theorem exists_getElem?_of_size_pos {t : ExtTreeMap κ ν cmp} (h : 0 < t.size) :
    ∃ (k : κ) (v : ν), t[k]? = some v := by
  rw [← ExtTreeMap.length_toList] at h
  obtain ⟨⟨k, v⟩, hmem⟩ := List.exists_mem_of_length_pos h
  exact ⟨k, v, mem_toList_iff.mp hmem⟩

/-- The last entry of the listing has the largest key. -/
theorem getLast?_toList_eq_some_iff {t : ExtTreeMap κ ν cmp} {k : κ} {v : ν} :
    t.toList.getLast? = some (k, v) ↔ t[k]? = some v ∧ ∀ a ∈ t, (cmp a k).isLE := by
  have hlast : ∀ {e : κ × ν}, t.toList.getLast? = some e →
      t[e.1]? = some e.2 ∧ ∀ a ∈ t, (cmp a e.1).isLE := by
    intro e he
    obtain ⟨front, hfront⟩ := List.getLast?_eq_some_iff.mp he
    have hsorted : t.toList.Pairwise fun a b => cmp a.1 b.1 = .lt := ExtTreeMap.ordered_keys_toList
    rw [hfront, List.pairwise_append] at hsorted
    refine ⟨mem_toList_iff.mp (by rw [hfront]; simp), fun a ha => ?_⟩
    obtain ⟨w, hw⟩ := mem_iff_exists.mp ha
    have hmem := mem_toList_iff.mpr hw
    rw [hfront, List.mem_append, List.mem_singleton] at hmem
    rcases hmem with hmem | heq
    · rw [hsorted.2.2 (a, w) hmem e (by simp)]
      rfl
    · rw [← heq]
      exact ReflCmp.isLE_rfl
  constructor
  · exact hlast
  · rintro ⟨hk, hmax⟩
    cases hget : t.toList.getLast? with
    | none =>
        rw [List.getLast?_eq_none_iff] at hget
        have hmem := mem_toList_iff.mpr hk
        rw [hget] at hmem
        cases hmem
    | some e =>
        obtain ⟨he, hle⟩ := hlast hget
        have heq : e.1 = k := LawfulEqCmp.eq_of_compare (OrientedCmp.isLE_antisymm
          (hmax e.1 (mem_iff_exists.mpr ⟨_, he⟩)) (hle k (mem_iff_exists.mpr ⟨_, hk⟩)))
        rw [heq, hk] at he
        obtain ⟨a, w⟩ := e
        cases heq
        cases he
        rfl

/-! ## building a table entry by entry -/

/-- Insert an entry whose key must be new. -/
def addFresh (t : ExtTreeMap κ ν cmp) (e : κ × ν) : Option (ExtTreeMap κ ν cmp) :=
  if e.1 ∈ t then none else some (t.insert e.1 e.2)

/-- Inserting a listing succeeds with the table that has the entries of the
start and of the listing, and fails when a key repeats. -/
theorem foldlM_addFresh_iff {t₀ t : ExtTreeMap κ ν cmp} {l : List (κ × ν)} :
    l.foldlM addFresh t₀ = some t ↔ t.toList.Perm (t₀.toList ++ l) := by
  induction l generalizing t₀ with
  | nil =>
      rw [List.foldlM_nil, List.append_nil]
      constructor
      · intro h; cases h; exact List.Perm.refl _
      · intro h; rw [ExtTreeMap.ext_toList h]; rfl
  | cons e l ih =>
      rw [List.foldlM_cons, addFresh]
      by_cases he : e.1 ∈ t₀
      · rw [if_pos he]
        constructor
        · intro h; cases h
        · intro hperm
          -- the key would be listed twice
          obtain ⟨w, hw⟩ := mem_iff_exists.mp he
          have hnd := (hperm.map Prod.fst).nodup_iff.mp (nodup_map_fst_toList t)
          rw [List.map_append, List.nodup_append] at hnd
          have hin : e.1 ∈ t₀.toList.map Prod.fst :=
            List.mem_map.mpr ⟨(e.1, w), mem_toList_iff.mpr hw, rfl⟩
          exact absurd rfl (hnd.2.2 _ hin e.1 (by simp))
      · rw [if_neg he, Option.bind_eq_bind, Option.bind_some, ih]
        have hstep : ((t₀.insert e.1 e.2).toList ++ l).Perm (t₀.toList ++ e :: l) :=
          ((perm_toList_insert e.2 he).append_right l).trans List.perm_middle.symm
        exact ⟨fun h => h.trans hstep, fun h => h.trans hstep.symm⟩

/-- The table built from a listing lists it up to order. -/
theorem foldlM_addFresh_empty_iff {t : ExtTreeMap κ ν cmp} {l : List (κ × ν)} :
    l.foldlM addFresh (∅ : ExtTreeMap κ ν cmp) = some t ↔ t.toList.Perm l := by
  rw [foldlM_addFresh_iff, ExtTreeMap.toList_eq_nil_iff.mpr rfl, List.nil_append]

/-! ## sets filled from a list -/

theorem mem_foldl_insert {s : ExtTreeSet κ cmp} {l : List κ} {a : κ} :
    a ∈ l.foldl ExtTreeSet.insert s ↔ a ∈ s ∨ a ∈ l := by
  induction l generalizing s with
  | nil => simp
  | cons k l ih =>
      rw [List.foldl_cons, ih, ExtTreeSet.mem_insert, LawfulEqCmp.compare_eq_iff_eq, List.mem_cons]
      tauto

/-- New and distinct elements are counted one by one. -/
theorem size_foldl_insert {s : ExtTreeSet κ cmp} {l : List κ} (hnodup : l.Nodup)
    (hfresh : ∀ a ∈ l, a ∉ s) : (l.foldl ExtTreeSet.insert s).size = s.size + l.length := by
  induction l generalizing s with
  | nil => rfl
  | cons k l ih =>
      obtain ⟨hk, hl⟩ := List.nodup_cons.mp hnodup
      rw [List.foldl_cons, ih hl, ExtTreeSet.size_insert,
        if_neg (mt ExtTreeSet.mem_iff_contains.mpr (hfresh k List.mem_cons_self)),
        List.length_cons]
      · omega
      · intro a ha
        rw [ExtTreeSet.mem_insert, LawfulEqCmp.compare_eq_iff_eq]
        rintro (rfl | hmem)
        · exact hk ha
        · exact hfresh a (List.mem_cons_of_mem _ ha) hmem

/-- A duplicate-free list of keys, as long as the table, holds every key. -/
theorem mem_of_length_eq_size {t : ExtTreeMap κ ν cmp} {l : List κ} (hnodup : l.Nodup)
    (hkeys : ∀ a ∈ l, a ∈ t) (hlen : l.length = t.size) {k : κ} (hk : k ∈ t) : k ∈ l := by
  have hsub : l.Subperm t.keys :=
    List.subperm_of_subset hnodup fun a ha => ExtTreeMap.mem_keys.mpr (hkeys a ha)
  have hperm : l.Perm t.keys := hsub.perm_of_length_le (by rw [ExtTreeMap.length_keys, hlen])
  exact hperm.mem_iff.mpr (ExtTreeMap.mem_keys.mpr hk)

theorem length_eq_size_of_mem_iff {t : ExtTreeMap κ ν cmp} {l : List κ} (hnodup : l.Nodup)
    (hmem : ∀ a, a ∈ l ↔ a ∈ t) : l.length = t.size := by
  have hkeys : t.keys.Nodup := ExtTreeMap.distinct_keys.imp fun hne heq =>
    hne (by rw [heq]; exact ReflCmp.compare_self)
  have hperm : l.Perm t.keys := (List.perm_ext_iff_of_nodup hnodup hkeys).mpr fun a => by
    rw [hmem, ExtTreeMap.mem_keys]
  rw [hperm.length_eq, ExtTreeMap.length_keys]

end Table
