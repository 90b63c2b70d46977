import Mathlib

/-!
# `FrostMpcTss.Lib.OpenItems`: a table of the open items of a list

A component numbers its items, keeps them in a list, and has a table that
leads from keys to the items that are still open. `Matching` says that
the table is right: it leads to open items only, every open item is in
it, and no two keys lead to the same item. An item is opened under a new
key (`Matching.insert`) and closed together with its key
(`Matching.erase`).

`Tracks` is for a table that leads from keys to values: it has those
entries of a list whose keys have not ended.

The other lemmas are about `List.modify`, which changes the item of a
given number.
-/

set_option autoImplicit false

namespace FrostMpcTss.Lib

/-- `leads k i`: the table leads from the key `k` to the item `i`. -/
structure Matching {κ ι : Type} (leads : κ → ι → Prop) (isOpen : ι → Prop) : Prop where
  isOpen_of_leads : ∀ {k i}, leads k i → isOpen i
  key_unique : ∀ {k k' i}, leads k i → leads k' i → k = k'
  item_unique : ∀ {k i i'}, leads k i → leads k i' → i = i'
  exists_key : ∀ {i}, isOpen i → ∃ k, leads k i

namespace Matching

variable {κ ι : Type} {leads leads' : κ → ι → Prop} {isOpen isOpen' : ι → Prop}

theorem congr (h : Matching leads isOpen) (hleads : ∀ k i, leads' k i ↔ leads k i)
    (hopen : ∀ i, isOpen' i ↔ isOpen i) : Matching leads' isOpen' := by
  have hl : leads' = leads := funext₂ fun k i => propext (hleads k i)
  have ho : isOpen' = isOpen := funext fun i => propext (hopen i)
  rw [hl, ho]
  exact h

/-- A new item under a new key. -/
theorem insert (h : Matching leads isOpen) (k₀ : κ) (i₀ : ι) (hkey : ∀ i, ¬ leads k₀ i)
    (hitem : ¬ isOpen i₀) (hleads : ∀ k i, leads' k i ↔ (k = k₀ ∧ i = i₀) ∨ leads k i)
    (hopen : ∀ i, isOpen' i ↔ i = i₀ ∨ isOpen i) : Matching leads' isOpen' where
  isOpen_of_leads {k i} hk := by
    rcases (hleads k i).mp hk with ⟨-, rfl⟩ | hk
    · exact (hopen i).mpr (.inl rfl)
    · exact (hopen i).mpr (.inr (h.isOpen_of_leads hk))
  key_unique {k k' i} hk hk' := by
    rcases (hleads k i).mp hk with ⟨rfl, rfl⟩ | hk <;>
      rcases (hleads k' _).mp hk' with ⟨rfl, hi⟩ | hk'
    · rfl
    · exact absurd (h.isOpen_of_leads hk') hitem
    · exact absurd (h.isOpen_of_leads (hi ▸ hk)) hitem
    · exact h.key_unique hk hk'
  item_unique {k i i'} hi hi' := by
    rcases (hleads k i).mp hi with ⟨rfl, rfl⟩ | hi <;>
      rcases (hleads _ i').mp hi' with ⟨hk, rfl⟩ | hi'
    · rfl
    · exact absurd hi' (hkey _)
    · exact absurd (hk ▸ hi) (hkey _)
    · exact h.item_unique hi hi'
  exists_key {i} hi := by
    rcases (hopen i).mp hi with rfl | hi
    · exact ⟨k₀, (hleads k₀ i).mpr (.inl ⟨rfl, rfl⟩)⟩
    · obtain ⟨k, hk⟩ := h.exists_key hi
      exact ⟨k, (hleads k i).mpr (.inr hk)⟩

/-- An item is closed, and its key leaves the table. -/
theorem erase (h : Matching leads isOpen) {k₀ : κ} {i₀ : ι} (hkey : leads k₀ i₀)
    (hleads : ∀ k i, leads' k i ↔ k ≠ k₀ ∧ leads k i)
    (hopen : ∀ i, isOpen' i ↔ i ≠ i₀ ∧ isOpen i) : Matching leads' isOpen' where
  isOpen_of_leads {k i} hk := by
    obtain ⟨hne, hk⟩ := (hleads k i).mp hk
    refine (hopen i).mpr ⟨fun hi => hne ?_, h.isOpen_of_leads hk⟩
    exact h.key_unique hk (hi ▸ hkey)
  key_unique {k k' i} hk hk' := h.key_unique ((hleads k i).mp hk).2 ((hleads k' i).mp hk').2
  item_unique {k i i'} hi hi' := h.item_unique ((hleads k i).mp hi).2 ((hleads k i').mp hi').2
  exists_key {i} hi := by
    obtain ⟨hne, hi⟩ := (hopen i).mp hi
    obtain ⟨k, hk⟩ := h.exists_key hi
    refine ⟨k, (hleads k i).mpr ⟨fun hkk => hne ?_, hk⟩⟩
    exact h.item_unique (hkk ▸ hk) hkey

end Matching

/-- The table has the entries of the list whose keys have not ended. -/
def Tracks {κ β : Type} [DecidableEq κ] (table : AList fun _ : κ => β) (entries : List (κ × β))
    (ended : κ → Prop) : Prop :=
  ∀ k v, table.lookup k = some v ↔ (k, v) ∈ entries ∧ ¬ ended k

namespace Tracks

variable {κ β : Type} [DecidableEq κ] {table : AList fun _ : κ => β} {entries : List (κ × β)}
  {ended : κ → Prop}

theorem empty (ended : κ → Prop) : Tracks (∅ : AList fun _ : κ => β) [] ended := by
  intro k v
  simp

/-- A new entry under a key that has none. -/
theorem insert (h : Tracks table entries ended) {k₀ : κ} {v₀ : β} {entries' : List (κ × β)}
    (hnone : ∀ v, (k₀, v) ∉ entries) (hended : ¬ ended k₀)
    (hentries : ∀ e, e ∈ entries' ↔ e ∈ entries ∨ e = (k₀, v₀)) :
    Tracks (table.insert k₀ v₀) entries' ended := by
  intro k v
  rw [hentries]
  by_cases hk : k = k₀
  · subst hk
    rw [AList.lookup_insert]
    constructor
    · intro heq
      cases heq
      exact ⟨.inr rfl, hended⟩
    · rintro ⟨hmem | heq, -⟩
      · exact absurd hmem (hnone v)
      · cases heq
        rfl
  · rw [AList.lookup_insert_ne hk, h]
    simp [hk]

/-- Only the members of the list matter. -/
theorem congr (h : Tracks table entries ended) {entries' : List (κ × β)}
    (hentries : ∀ e, e ∈ entries' ↔ e ∈ entries) : Tracks table entries' ended := by
  intro k v
  rw [hentries]
  exact h k v

/-- A key has ended, and its entry leaves the table. -/
theorem erase (h : Tracks table entries ended) {k₀ : κ} {ended' : κ → Prop}
    (hended : ∀ k, ended' k ↔ ended k ∨ k = k₀) : Tracks (table.erase k₀) entries ended' := by
  intro k v
  rw [hended]
  by_cases hk : k = k₀
  · subst hk
    simp [AList.lookup_erase]
  · rw [AList.lookup_erase_ne hk, h]
    simp [hk]

end Tracks

variable {α β : Type} {l : List α} {i : Nat} {f : α → α}

/-- The members after a change: the old ones, and the changed one. -/
theorem mem_modify {a : α} (h : a ∈ l.modify i f) : a ∈ l ∨ ∃ x, l[i]? = some x ∧ a = f x := by
  obtain ⟨j, hj⟩ := List.mem_iff_getElem?.mp h
  rw [List.getElem?_modify] at hj
  obtain ⟨x, hx, rfl⟩ := Option.map_eq_some_iff.mp hj
  by_cases hij : i = j
  · subst hij
    exact .inr ⟨x, hx, if_pos rfl⟩
  · rw [if_neg hij]
    exact .inl (List.mem_of_getElem? hx)

/-- The members after a change to the item `x`. -/
theorem mem_modify_iff {x : α} (hx : l[i]? = some x) {a : α} :
    a ∈ l.modify i f ↔ a = f x ∨ ∃ j, i ≠ j ∧ l[j]? = some a := by
  rw [List.mem_iff_getElem?]
  constructor
  · rintro ⟨j, hj⟩
    by_cases hij : i = j
    · subst hij
      rw [List.getElem?_modify_eq, hx] at hj
      exact .inl (Option.some.inj hj).symm
    · rw [List.getElem?_modify_ne f l hij] at hj
      exact .inr ⟨j, hij, hj⟩
  · rintro (rfl | ⟨j, hij, hj⟩)
    · exact ⟨i, by rw [List.getElem?_modify_eq, hx]; rfl⟩
    · exact ⟨j, by rw [List.getElem?_modify_ne f l hij, hj]⟩

/-- A property that the changed item has exactly if it had it before. -/
theorem exists_mem_modify {x : α} (hx : l[i]? = some x) {Q : α → Prop} (hQ : Q (f x) ↔ Q x) :
    (∃ a ∈ l.modify i f, Q a) ↔ ∃ a ∈ l, Q a := by
  constructor
  · rintro ⟨a, ha, hQa⟩
    rcases (mem_modify_iff hx).mp ha with rfl | ⟨j, -, hj⟩
    · exact ⟨x, List.mem_of_getElem? hx, hQ.mp hQa⟩
    · exact ⟨a, List.mem_of_getElem? hj, hQa⟩
  · rintro ⟨a, ha, hQa⟩
    obtain ⟨j, hj⟩ := List.mem_iff_getElem?.mp ha
    by_cases hij : i = j
    · subst hij
      cases hx.symm.trans hj
      exact ⟨f x, (mem_modify_iff hx).mpr (.inl rfl), hQ.mpr hQa⟩
    · exact ⟨a, (mem_modify_iff hx).mpr (.inr ⟨j, hij, hj⟩), hQa⟩

/-- A property that the changed item did not have before. -/
theorem exists_mem_modify_of_not {x : α} (hx : l[i]? = some x) {Q : α → Prop} (hQ : ¬ Q x) :
    (∃ a ∈ l.modify i f, Q a) ↔ (∃ a ∈ l, Q a) ∨ Q (f x) := by
  constructor
  · rintro ⟨a, ha, hQa⟩
    rcases (mem_modify_iff hx).mp ha with rfl | ⟨j, -, hj⟩
    · exact .inr hQa
    · exact .inl ⟨a, List.mem_of_getElem? hj, hQa⟩
  · rintro (⟨a, ha, hQa⟩ | hQf)
    · obtain ⟨j, hj⟩ := List.mem_iff_getElem?.mp ha
      refine ⟨a, (mem_modify_iff hx).mpr (.inr ⟨j, ?_, hj⟩), hQa⟩
      rintro rfl
      cases hx.symm.trans hj
      exact hQ hQa
    · exact ⟨f x, (mem_modify_iff hx).mpr (.inl rfl), hQf⟩

/-- The last item of a list is the one whose number is the length of what
comes before. -/
theorem modify_length_concat (l : List α) (a : α) (f : α → α) :
    (l ++ [a]).modify l.length f = l ++ [f a] := by
  induction l with
  | nil => rfl
  | cons x l ih => exact congrArg (x :: ·) ih

/-- What the change to this item leaves alone. -/
theorem map_modify_of_getElem? {g : α → β} {x : α} (hx : l[i]? = some x) (h : g (f x) = g x) :
    (l.modify i f).map g = l.map g := by
  refine List.ext_getElem? fun j => ?_
  rw [List.getElem?_map, List.getElem?_map, List.getElem?_modify]
  by_cases hij : i = j
  · subst hij
    simp [hx, h]
  · simp [hij]

/-- What a change leaves alone. -/
theorem map_modify_of_eq {g : α → β} (h : ∀ a, g (f a) = g a) (l : List α) (i : Nat) :
    (l.modify i f).map g = l.map g := by
  refine List.ext_getElem? fun j => ?_
  rw [List.getElem?_map, List.getElem?_map, List.getElem?_modify]
  cases l[j]? with
  | none => rfl
  | some a =>
      by_cases hij : i = j
      · simp [hij, h]
      · simp [hij]

/-- If the changed item contributes `x` more to a concatenation, then so
does the list, up to order. -/
theorem flatMap_modify_perm {g : α → List β} {x : List β} {a : α} (ha : l[i]? = some a)
    (h : g (f a) = g a ++ x) : ((l.modify i f).flatMap g).Perm (l.flatMap g ++ x) := by
  induction l generalizing i with
  | nil => cases ha
  | cons y l ih =>
      cases i with
      | zero =>
          cases ha
          show (g (f a) ++ l.flatMap g).Perm (g a ++ l.flatMap g ++ x)
          rw [h, List.append_assoc, List.append_assoc]
          exact List.perm_append_comm.append_left (g a)
      | succ i =>
          show (g y ++ (l.modify i f).flatMap g).Perm (g y ++ l.flatMap g ++ x)
          rw [List.append_assoc]
          exact (ih ha).append_left (g y)

end FrostMpcTss.Lib
