import FrostMpcTss.Lib.OrderedKeys
import FrostMpcTss.Service.Execution

/-!
# `FrostMpcTss.Proofs.Gathering`: a value from each of the other parties

Both agents collect one value from each other party, under its
identifier, next to a value of their own or none. `known` says what such a
collection holds after some requests, `complete` what it holds at the end.
`known_append` is the rule for a request that carries a value, and
`mapSize_known_lt_iff` says that the size of a collection tells whether a
value is missing.
-/

set_option autoImplicit false

namespace FrostMpcTss.Proofs

open Lib Service

variable {α : Type} {own : Nat} {others : List Nat} {mine : Option α} {value : Nat → α}
  {request : Nat → AgentRequest} {taken : List AgentRequest} {id : Nat} {req : AgentRequest}

/-- A value for every party. -/
def complete (own : Nat) (others : List Nat) (mine : Option α) (value : Nat → α) (id : Nat) :
    Option α :=
  if id = own then mine else if id ∈ others then some (value id) else none

/-- The own value, and those whose requests have been taken. -/
def known (own : Nat) (others : List Nat) (mine : Option α) (value : Nat → α)
    (request : Nat → AgentRequest) (taken : List AgentRequest) (id : Nat) : Option α :=
  if id = own then mine
  else if id ∈ others ∧ request id ∈ taken then some (value id) else none

/-- The identifiers of a complete collection. -/
def holders (own : Nat) (others : List Nat) (mine : Option α) : List Nat :=
  if mine.isSome then own :: others else others

/-- The others are other parties. -/
structure Parties (own : Nat) (others : List Nat) : Prop where
  nodup : others.Nodup
  not_mem : own ∉ others

theorem Parties.ne (h : Parties own others) (hid : id ∈ others) : id ≠ own :=
  fun heq => h.not_mem (heq ▸ hid)

/-- Everyone but one. -/
theorem parties_filter {ids : List Nat} (h : ids.Nodup) (own : Nat) :
    Parties own (ids.filter (· ≠ own)) :=
  ⟨h.filter _, by simp⟩

theorem length_filter_ne {ids : List Nat} (h : ids.Nodup) (hown : own ∈ ids) :
    ids.length = (ids.filter (· ≠ own)).length + 1 := by
  have hperm : ids.Perm (own :: ids.filter (· ≠ own)) := by
    refine (List.perm_ext_iff_of_nodup h ?_).mpr fun id => ?_
    · exact List.nodup_cons.mpr ⟨(parties_filter h own).not_mem, (parties_filter h own).nodup⟩
    · by_cases hid : id = own
      · simp [hid, hown]
      · simp [hid]
  exact hperm.length_eq

/-! ### Another request -/

theorem known_of_mem (h : Parties own others) (hid : id ∈ others) (htaken : request id ∈ taken) :
    known own others mine value request taken id = some (value id) := by
  rw [known, if_neg (h.ne hid), if_pos ⟨hid, htaken⟩]

theorem known_of_isSome (h : Parties own others) (hid : id ∈ others)
    (hsome : (known own others mine value request taken id).isSome = true) :
    known own others mine value request taken id = some (value id) := by
  rw [known, if_neg (h.ne hid)] at hsome ⊢
  split at hsome
  · rename_i hknown
    rw [if_pos hknown]
  · cases hsome

/-- A request adds its value. -/
theorem known_append (h : Parties own others) (hid : id ∈ others)
    (hreq : ∀ key ∈ others, request key = req ↔ key = id) (key : Nat) :
    known own others mine value request (taken ++ [req]) key
      = if key = id then some (value id) else known own others mine value request taken key := by
  by_cases hkey : key = id
  · subst hkey
    rw [if_pos rfl, known_of_mem h hid]
    rw [(hreq key hid).mpr rfl]
    exact List.mem_append_right _ List.mem_cons_self
  · rw [if_neg hkey]
    unfold known
    by_cases hother : key ∈ others
    · -- the request is not that of another party
      have hne : request key ≠ req := fun heq => hkey ((hreq key hother).mp heq)
      simp only [List.mem_append, List.mem_singleton, hne, or_false]
    · simp only [hother, false_and]

/-- A request that comes again adds nothing. -/
theorem known_append_of_isSome (h : Parties own others) (hid : id ∈ others)
    (hreq : ∀ key ∈ others, request key = req ↔ key = id)
    (hsome : (known own others mine value request taken id).isSome = true) (key : Nat) :
    known own others mine value request (taken ++ [req]) key
      = known own others mine value request taken key := by
  rw [known_append h hid hreq]
  split
  · rename_i hkey
    rw [hkey]
    exact (known_of_isSome h hid hsome).symm
  · rfl

/-- A request of another kind adds nothing. -/
theorem known_append_of_ne (hreq : ∀ key ∈ others, request key ≠ req) (key : Nat) :
    known own others mine value request (taken ++ [req]) key
      = known own others mine value request taken key := by
  unfold known
  by_cases hother : key ∈ others
  · simp only [List.mem_append, List.mem_singleton, hreq key hother, or_false]
  · simp only [hother, false_and]

theorem known_nil :
    known own others mine value request [] id = if id = own then mine else none := by
  simp [known]

/-! ### Complete collections -/

theorem known_congr {taken' : List AgentRequest}
    (h : ∀ id ∈ others, request id ∈ taken ↔ request id ∈ taken') :
    known own others mine value request taken id
      = known own others mine value request taken' id := by
  unfold known
  by_cases hother : id ∈ others
  · simp only [h id hother]
  · simp only [hother, false_and]

/-- With all requests taken, every value is there. -/
theorem known_eq_complete (h : ∀ id ∈ others, request id ∈ taken) (id : Nat) :
    known own others mine value request taken id = complete own others mine value id := by
  unfold known complete
  refine if_congr Iff.rfl rfl (if_congr ?_ rfl rfl)
  exact ⟨fun hknown => hknown.1, fun hid => ⟨hid, h id hid⟩⟩

theorem isSome_known_iff (h : Parties own others) :
    (known own others mine value request taken id).isSome = true ↔
      id ∈ holders own others mine ∧ (id ∈ others → request id ∈ taken) := by
  unfold known holders
  by_cases hown : id = own
  · subst hown
    -- the own value is held whatever was taken
    have hnot := h.not_mem
    cases mine <;> simp [hnot]
  · by_cases hother : id ∈ others
    · cases mine <;> simp [hown, hother]
    · cases mine <;> simp [hown, hother]

theorem isSome_complete_iff (h : Parties own others) :
    (complete own others mine value id).isSome = true ↔ id ∈ holders own others mine := by
  unfold complete holders
  by_cases hown : id = own
  · subst hown
    have hnot := h.not_mem
    cases mine <;> simp [hnot]
  · by_cases hother : id ∈ others
    · cases mine <;> simp [hown, hother]
    · cases mine <;> simp [hown, hother]

theorem nodup_holders (h : Parties own others) : (holders own others mine).Nodup := by
  unfold holders
  split
  · exact List.nodup_cons.mpr ⟨h.not_mem, h.nodup⟩
  · exact h.nodup

/-- A holder that is missing is another party whose request is missing. -/
theorem missing_iff :
    (∃ id ∈ holders own others mine,
      ¬ (id ∈ holders own others mine ∧ (id ∈ others → request id ∈ taken))) ↔
      ∃ id ∈ others, request id ∉ taken := by
  constructor
  · rintro ⟨id, hid, hmissing⟩
    rw [not_and, Classical.not_imp] at hmissing
    exact ⟨id, hmissing hid⟩
  · rintro ⟨id, hid, hmissing⟩
    refine ⟨id, ?_, fun hheld => hmissing (hheld.2 hid)⟩
    unfold holders
    split
    · exact List.mem_cons_of_mem _ hid
    · exact hid

/-- A map is smaller than a complete one exactly when a request is missing. -/
theorem mapSize_known_lt_iff (h : Parties own others) {m : Std.TreeMap Nat α}
    (hm : ∀ id, m[id]? = known own others mine value request taken id) :
    m.size < (holders own others mine).length ↔ ∃ id ∈ others, request id ∉ taken := by
  have hmem : ∀ id, id ∈ m ↔
      id ∈ holders own others mine ∧ (id ∈ others → request id ∈ taken) := by
    intro id
    rw [Std.TreeMap.mem_iff_isSome_getElem?, hm, isSome_known_iff h]
  rw [mapSize_lt_iff (nodup_holders h) fun id hid => ((hmem id).mp hid).1]
  simp only [hmem]
  exact missing_iff

/-- The same for the set of the parties. -/
theorem setSize_known_lt_iff (h : Parties own others) {received : Std.TreeSet Nat}
    (hreceived : ∀ id,
      received.contains id = (known own others mine value request taken id).isSome) :
    received.size < (holders own others mine).length ↔ ∃ id ∈ others, request id ∉ taken := by
  have hmem : ∀ id, id ∈ received ↔
      id ∈ holders own others mine ∧ (id ∈ others → request id ∈ taken) := by
    intro id
    rw [Std.TreeSet.mem_iff_contains, hreceived, isSome_known_iff h]
  rw [setSize_lt_iff (nodup_holders h) fun id hid => ((hmem id).mp hid).1]
  simp only [hmem]
  exact missing_iff

end FrostMpcTss.Proofs
