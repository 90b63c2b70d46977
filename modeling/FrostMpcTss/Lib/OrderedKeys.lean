import Mathlib

/-!
# `FrostMpcTss.Lib.OrderedKeys`: sets and maps that fill up

A loop that collects one entry for each of some keys stops when the
collection has as many entries as there are keys. `mapSize_lt_iff` says that
this counts the right thing as long as no other key gets in: the collection
is smaller exactly when a key is missing.
-/

set_option autoImplicit false

namespace FrostMpcTss.Lib

open Std

variable {κ α : Type} {cmp : κ → κ → Ordering} {keys : List κ} {m : TreeMap κ α cmp}

/-- A list within another one is shorter exactly when it misses something. -/
theorem length_lt_iff_of_nodup {l : List κ} (hl : l.Nodup) (hkeys : keys.Nodup)
    (hsub : ∀ k ∈ l, k ∈ keys) : l.length < keys.length ↔ ∃ k ∈ keys, k ∉ l := by
  have hle : l.Subperm keys := List.subperm_of_subset hl hsub
  constructor
  · intro hlt
    by_contra hall
    have hback : keys.Subperm l := List.subperm_of_subset hkeys fun k hk => by
      by_contra hmissing
      exact hall ⟨k, hk, hmissing⟩
    exact absurd hback.length_le (Nat.not_le.mpr hlt)
  · rintro ⟨k, hk, hmissing⟩
    refine Nat.lt_of_le_of_ne hle.length_le fun hlength => ?_
    have hperm := hle.perm_of_length_le (Nat.le_of_eq hlength.symm)
    exact hmissing (hperm.mem_iff.mpr hk)

theorem nodup_of_distinct (cmp : κ → κ → Ordering) [ReflCmp cmp] {l : List κ}
    (h : l.Pairwise fun a b => ¬ cmp a b = Ordering.eq) : l.Nodup := by
  refine List.Pairwise.imp (fun {a b} hne heq => hne ?_) h
  rw [heq]
  exact ReflCmp.compare_self

variable [TransCmp cmp]

theorem nodup_keys (m : TreeMap κ α cmp) : m.keys.Nodup :=
  nodup_of_distinct cmp TreeMap.distinct_keys

theorem nodup_toList (t : TreeSet κ cmp) : t.toList.Nodup :=
  nodup_of_distinct cmp TreeSet.distinct_toList

variable [LawfulEqCmp cmp]

/-- A map over some keys is smaller than the keys exactly when one is
missing. -/
theorem mapSize_lt_iff (hkeys : keys.Nodup) (hsub : ∀ k ∈ m, k ∈ keys) :
    m.size < keys.length ↔ ∃ k ∈ keys, k ∉ m := by
  rw [← TreeMap.length_keys, length_lt_iff_of_nodup (nodup_keys m) hkeys
    fun k hk => hsub k (TreeMap.mem_keys.mp hk)]
  simp only [TreeMap.mem_keys]

/-- The same for a set. -/
theorem setSize_lt_iff {t : TreeSet κ cmp} (hkeys : keys.Nodup) (hsub : ∀ k ∈ t, k ∈ keys) :
    t.size < keys.length ↔ ∃ k ∈ keys, k ∉ t := by
  rw [← TreeSet.length_toList, length_lt_iff_of_nodup (nodup_toList t) hkeys
    fun k hk => hsub k (TreeSet.mem_toList.mp hk)]
  simp only [TreeSet.mem_toList]

/-- A map that has every key and no other is as large as the keys. -/
theorem mapSize_eq_of_mem_iff (hkeys : keys.Nodup) (h : ∀ k, k ∈ m ↔ k ∈ keys) :
    m.size = keys.length := by
  rw [← TreeMap.length_keys]
  refine ((List.perm_ext_iff_of_nodup (nodup_keys m) hkeys).mpr fun k => ?_).length_eq
  rw [TreeMap.mem_keys, h]

/-- The keys of a map in their order are those of a set with the same
members. -/
theorem keys_eq_toList {t : TreeSet κ cmp} (h : ∀ k, k ∈ m ↔ k ∈ t) : m.keys = t.toList := by
  refine List.Perm.eq_of_pairwise (fun a b _ _ hab hba => ?_) TreeMap.ordered_keys
    TreeSet.ordered_toList ((List.perm_ext_iff_of_nodup (nodup_keys m) (nodup_toList t)).mpr
      fun k => by rw [TreeMap.mem_keys, TreeSet.mem_toList, h])
  rw [OrientedCmp.gt_of_lt hab] at hba
  cases hba

/-- The entries of a map in their order are any ordered list of them. -/
theorem toList_eq_of_mem_iff {l : List (κ × α)} (hsorted : l.Pairwise fun a b => cmp a.1 b.1 = .lt)
    (h : ∀ e, m[e.1]? = some e.2 ↔ e ∈ l) : m.toList = l := by
  have hlt : ∀ {a b : κ}, cmp a b = .lt → cmp b a = .lt → False := fun hab hba => by
    rw [OrientedCmp.gt_of_lt hab] at hba
    cases hba
  have hnodup : ∀ {l : List (κ × α)}, l.Pairwise (fun a b => cmp a.1 b.1 = .lt) → l.Nodup := by
    intro l hl
    refine List.Pairwise.imp (fun {a b} hab heq => ?_) hl
    rw [heq] at hab
    exact hlt hab hab
  have hentries : m.toList.Pairwise fun a b => cmp a.1 b.1 = .lt := TreeMap.ordered_keys_toList
  refine List.Perm.eq_of_pairwise (fun a b _ _ hab hba => (hlt hab hba).elim) hentries hsorted
    ((List.perm_ext_iff_of_nodup (hnodup hentries) (hnodup hsorted)).mpr fun e => ?_)
  rw [TreeMap.mem_toList_iff_getElem?_eq_some, h]

/-! ### One entry more -/

omit [TransCmp cmp] in
theorem compare_eq_iff {k a : κ} : cmp k a = .eq ↔ a = k :=
  LawfulEqCmp.compare_eq_iff_eq.trans eq_comm

/-- The entry of a key, among all entries. -/
theorem find?_toList_map (m : TreeMap κ α cmp) (k : κ) :
    (m.toList.find? fun e => cmp e.1 k == .eq).map Prod.snd = m[k]? := by
  ext v
  rw [Option.map_eq_some_iff]
  constructor
  · rintro ⟨⟨k', v'⟩, hfind, rfl⟩
    exact (TreeMap.find?_toList_eq_some_iff_getKey?_eq_some_and_getElem?_eq_some.mp hfind).2
  · intro hv
    have hmem : k ∈ m := TreeMap.mem_iff_isSome_getElem?.mpr (by rw [hv]; rfl)
    exact ⟨(k, v), TreeMap.find?_toList_eq_some_iff_getKey?_eq_some_and_getElem?_eq_some.mpr
      ⟨TreeMap.getKey?_eq_some hmem, hv⟩, rfl⟩

variable [DecidableEq κ]

theorem getElem?_insert_eq (m : TreeMap κ α cmp) (k a : κ) (v : α) :
    (m.insert k v)[a]? = if a = k then some v else m[a]? := by
  rw [TreeMap.getElem?_insert]
  exact if_congr compare_eq_iff rfl rfl

theorem getElem?_insertIfNew_eq (m : TreeMap κ α cmp) (k a : κ) (v : α) :
    (m.insertIfNew k v)[a]? = if a = k ∧ m[k]? = none then some v else m[a]? := by
  rw [TreeMap.getElem?_insertIfNew]
  refine if_congr (and_congr compare_eq_iff ?_) rfl rfl
  rw [TreeMap.mem_iff_isSome_getElem?, Option.not_isSome_iff_eq_none]

theorem contains_insert_eq (t : TreeSet κ cmp) (k a : κ) :
    (t.insert k).contains a = (decide (a = k) || t.contains a) := by
  rw [TreeSet.contains_insert, Bool.beq_eq_decide_eq]
  simp only [compare_eq_iff]

end FrostMpcTss.Lib
