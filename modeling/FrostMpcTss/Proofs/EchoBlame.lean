import FrostMpcTss.Proofs.Echo
import FrostMpcTss.Service.Peerset

/-!
# `FrostMpcTss.Proofs.EchoBlame`: whom an inconsistent echo names

`proceed_round` raises `InconsistentEcho` in two places. The loop over the
group names the sender it has seen twice. The comparison of the echoes
names the position of the first echo that differs, counted from zero in the
order the echoes have arrived, and not the peer the echo is from.

`echoRound` runs the gadget from a complete group over the echoes of the
remotes. `blamesRightly_iff` says when the number it reports is that of a
party at fault: when a sender is there twice, when no echo differs, or when
as many echoes came before the first one that differs as the number of a
party whose echo differs.
-/

set_option autoImplicit false

namespace FrostMpcTss.Proofs

open Network Service
open Service.EchoGadget

variable {echoHash : Bytes}

section Rounds

variable {P ρ : Type} [Blake2s256]

/-- `proceed_round` reads the echoes one after the other. -/
def readEchoes : EchoGadget P ρ → List (RemoteEcho P) → Step P ρ
  | _, [] => .pending
  | g, echo :: rest =>
      match g.step [] false (fun _ => { queue := [echo], closed := false }) noneGone with
      | .echoed g' _ => readEchoes g' rest
      | other => other

/-- `proceed_round` from a group on: it hashes the group, and reads the
echoes. -/
def echoRound (g : EchoGadget P ρ) (messageId : Nat) (group : List (EchoMessage ρ))
    (echoes : List (RemoteEcho P)) : Step P ρ :=
  match ({ g with round := .gather messageId group } : EchoGadget P ρ).step [] false
      (fun _ => { queue := [], closed := false }) noneGone with
  | .hashed g' _ _ _ _ => readEchoes g' echoes
  | other => other

/-- The hash of a group. -/
def groupHash (group : List (EchoMessage ρ)) : Bytes :=
  Blake2s256.digest (payloads (sortBySender group))

omit [Blake2s256] in
/-- A round fails with the first echo that is wrong. -/
theorem finishRound_eq_failed (g : EchoGadget P ρ) (messageId respRx : Nat)
    {echoes : List (RemoteEcho P)} {e : Error} :
    g.finishRound messageId echoHash respRx echoes = .failed e ↔
      checkEchoes echoHash 0 echoes = some e := by
  unfold finishRound
  cases checkEchoes echoHash 0 echoes with
  | some e' => simp
  | none => cases succU16 g.r <;> simp

/-- All echoes are collected, and then compared. -/
theorem readEchoes_eq_failed {g : EchoGadget P ρ} {messageId respRx : Nat}
    {collected : List (RemoteEcho P)} (echoes : List (RemoteEcho P)) {e : Error}
    (hround : g.round = .responses messageId echoHash respRx collected) (hne : echoes ≠ [])
    (hlength : collected.length + echoes.length + 1 = g.n) :
    readEchoes g echoes = .failed e ↔
      checkEchoes echoHash 0 (collected ++ echoes) = some e := by
  -- on the echoes still to come; `collected` grows with each of them
  induction echoes generalizing g collected with
  | nil => exact absurd rfl hne
  | cons echo rest ih =>
      have hpred : predUnsigned g.n = .ok (g.n - 1) := if_pos (by omega)
      simp only [readEchoes, EchoGadget.step, hround, hpred]
      cases rest with
      | nil =>
          -- the last echo: the hashes are compared
          have hfull : (collected ++ [echo]).length = g.n - 1 := by
            rw [List.length_append]
            rw [List.length_singleton] at hlength ⊢
            omega
          rw [if_pos hfull, ← finishRound_eq_failed g messageId respRx]
          unfold finishRound
          cases checkEchoes echoHash 0 (collected ++ [echo]) with
          | some e' => rfl
          | none => cases succU16 g.r <;> rfl
      | cons echo' rest =>
          have hmore : (collected ++ [echo]).length ≠ g.n - 1 := by
            rw [List.length_append]
            rw [List.length_cons, List.length_cons] at hlength
            rw [List.length_singleton]
            omega
          rw [if_neg hmore]
          have hnext := ih (g := { g with
            round := .responses messageId echoHash respRx (collected ++ [echo]) }) rfl
            (List.cons_ne_nil _ _) (by
              rw [List.length_append]
              rw [List.length_cons] at hlength
              simp only [List.length_singleton]
              omega)
          rw [List.append_assoc] at hnext
          exact hnext

end Rounds

section Group

variable {ρ : Type}

/-- The loop stops with a sender that is there twice. -/
theorem count_of_tally_eq_error {t : Tally ρ} {ms : List (EchoMessage ρ)} {sender : Nat}
    (h : tally t ms = .error sender) : 2 ≤ (t.senders ++ ms.map (·.sender)).count sender := by
  induction ms generalizing t with
  | nil => cases h
  | cons m ms ih =>
      rw [tally] at h
      split at h
      · rename_i hmem
        cases h
        have hbefore : 0 < t.senders.count m.sender := List.count_pos_iff.mpr hmem
        rw [List.count_append, List.map_cons, List.count_cons_self]
        omega
      · have hsenders : (t.add m).senders = t.senders ++ [m.sender] := by
          unfold Tally.add
          cases m.response <;> rfl
        have hcount := ih h
        rwa [hsenders, List.append_assoc] at hcount

theorem nodup_sortBySender_iff {group : List (EchoMessage ρ)} :
    ((sortBySender group).map (·.sender)).Nodup ↔ (group.map (·.sender)).Nodup :=
  ((List.perm_insertionSort _ group).map _).nodup_iff

theorem outgoing_of_any {group : List (EchoMessage ρ)} (h : group.any isOutgoing = true) :
    ∃ respRx, (outgoingRxs (sortBySender group)).getLast? = some respRx := by
  obtain ⟨m, hm, hout⟩ := List.any_eq_true.mp h
  have hne : outgoingRxs (sortBySender group) ≠ [] := by
    cases hresponse : m.response with
    | incoming tx =>
        rw [isOutgoing, hresponse] at hout
        cases hout
    | outgoing respRx =>
        have hmem : respRx ∈ outgoingRxs (sortBySender group) :=
          List.mem_filterMap.mpr ⟨m, mem_sortBySender.mpr hm, by simp only [hresponse]⟩
        exact List.ne_nil_of_mem hmem
  exact ⟨_, List.getLast?_eq_some_getLast hne⟩

end Group

section Blame

variable {P ρ : Type} [Blake2s256]

/-- How a round over a complete group fails. -/
theorem echoRound_eq_failed {g : EchoGadget P ρ} (messageId : Nat)
    {group : List (EchoMessage ρ)} {echoes : List (RemoteEcho P)} {e : Error}
    (hready : ready g.n group = true) (hlength : echoes.length + 1 = g.n) :
    echoRound g messageId group echoes = .failed e ↔
      (∃ sender, tally .empty (sortBySender group) = .error sender ∧
        e = .inconsistentEcho sender) ∨
      ((group.map (·.sender)).Nodup ∧ checkEchoes (groupHash group) 0 echoes = some e) := by
  obtain ⟨hfull, hany⟩ := Bool.and_eq_true_iff.mp hready
  have hfull : group.length = g.n := of_decide_eq_true hfull
  simp only [echoRound, EchoGadget.step, hfull, if_true, hashGroup]
  cases htally : tally .empty (sortBySender group) with
  | error sender =>
      -- a sender that is there twice ends the round before any echo
      have hdup : ¬ (group.map (·.sender)).Nodup := by
        intro hnodup
        have hok := tally_empty_eq_ok.mpr ⟨nodup_sortBySender_iff.mpr hnodup, rfl⟩
        rw [hok] at htally
        cases htally
      simp [hdup, eq_comm]
  | ok t =>
      obtain ⟨hnodup, rfl⟩ := tally_empty_eq_ok.mp htally
      obtain ⟨respRx, hlast⟩ := outgoing_of_any hany
      simp only [hlast, any_noneGone, Bool.false_eq_true, if_false, reduceCtorEq, false_and,
        exists_false, false_or, nodup_sortBySender_iff.mp hnodup, true_and]
      cases echoes with
      | nil => simp [readEchoes, checkEchoes]
      | cons echo rest =>
          have hread := readEchoes_eq_failed (g := { g with
            round := .responses messageId (groupHash group) respRx [] }) (echo :: rest) (e := e)
            rfl (List.cons_ne_nil _ _) (by rw [List.length_nil, Nat.zero_add]; exact hlength)
          exact hread

/-- The echo of a remote: what it answered, under its peer id. -/
def echoOf (answer : P → Except RequestFailure Bytes) (p : P) : RemoteEcho P :=
  (answer p).map fun hash => (p, hash)

/-- The remote returned another hash. -/
def Disagrees (echoHash : Bytes) (answer : P → Except RequestFailure Bytes) (p : P) : Prop :=
  ∃ hash, answer p = .ok hash ∧ hash ≠ echoHash

/-- The number a party goes by as a sender. -/
def PartyNumber [DecidableEq P] (peerset : Peerset P) (p : P) (number : Nat) : Prop :=
  ∃ index, peerset.indexOf p = some index ∧ number = index + 1

omit [Blake2s256] in
/-- The comparison names the position of the first echo that differs. -/
theorem checkEchoes_eq_inconsistent {answer : P → Except RequestFailure Bytes} (order : List P)
    (index : Nat) {k : Nat} :
    checkEchoes echoHash index (order.map (echoOf answer)) = some (.inconsistentEcho k) ↔
      ∃ before peer after, order = before ++ peer :: after ∧
        (∀ q ∈ before, answer q = .ok echoHash) ∧ Disagrees echoHash answer peer ∧
        k = asU16 (index + before.length) := by
  induction order generalizing index with
  | nil => simp [checkEchoes]
  | cons p order ih =>
      rw [List.map_cons]
      cases hp : answer p with
      -- a failed request ends the loop with another error
      | error failure =>
          simp only [echoOf, hp]
          constructor
          · intro h
            cases h
          · rintro ⟨before, peer, after, heq, hbefore, ⟨hash, hhash, _⟩, _⟩
            cases before with
            | nil =>
                cases heq
                rw [hp] at hhash
                cases hhash
            | cons q before =>
                cases heq
                have hq := hbefore p List.mem_cons_self
                rw [hp] at hq
                cases hq
      | ok hash =>
          have hecho : echoOf answer p = .ok (p, hash) := by rw [echoOf, hp]; rfl
          rw [hecho, checkEchoes]
          -- an echo that agrees moves the index on, one that does not is blamed
          by_cases hhash : hash = echoHash
          · subst hhash
            rw [if_neg fun hne => hne rfl, ih]
            constructor
            · rintro ⟨before, peer, after, rfl, hbefore, hpeer, rfl⟩
              refine ⟨p :: before, peer, after, rfl, ?_, hpeer, ?_⟩
              · exact List.forall_mem_cons.mpr ⟨hp, hbefore⟩
              · rw [List.length_cons, Nat.add_right_comm]
                rfl
            · rintro ⟨before, peer, after, heq, hbefore, hpeer, rfl⟩
              cases before with
              | nil =>
                  cases heq
                  obtain ⟨hash', hhash', hne⟩ := hpeer
                  cases hp.symm.trans hhash'
                  exact absurd rfl hne
              | cons q before =>
                  cases heq
                  refine ⟨before, peer, after, rfl, (List.forall_mem_cons.mp hbefore).2, hpeer, ?_⟩
                  rw [List.length_cons, Nat.add_right_comm]
                  rfl
          · rw [if_pos hhash]
            constructor
            · intro h
              cases h
              exact ⟨[], p, order, rfl, List.forall_mem_nil _, ⟨hash, hp, hhash⟩, rfl⟩
            · rintro ⟨before, peer, after, heq, hbefore, _, rfl⟩
              cases before with
              | nil => rfl
              | cons q before =>
                  cases heq
                  cases hp.symm.trans (hbefore p List.mem_cons_self)
                  exact absurd rfl hhash

variable [DecidableEq P]

/-- If the round fails with `InconsistentEcho`, the number is that of a
party that is in the group twice, or whose echo differs. -/
def BlamesRightly (peerset : Peerset P) (group : List (EchoMessage ρ))
    (answer : P → Except RequestFailure Bytes) (order : List P) (result : Step P ρ) : Prop :=
  ∀ k, result = .failed (.inconsistentEcho k) →
    2 ≤ (group.map (·.sender)).count k ∨
    ∃ culprit ∈ order, Disagrees (groupHash group) answer culprit ∧
      PartyNumber peerset culprit k

/-- The first echo that differs comes after as many echoes as the number of
a party whose echo differs. -/
def PositionFits (peerset : Peerset P) (echoHash : Bytes)
    (answer : P → Except RequestFailure Bytes) (order : List P) : Prop :=
  ∀ before peer after, order = before ++ peer :: after →
    (∀ q ∈ before, answer q = .ok echoHash) → Disagrees echoHash answer peer →
    ∃ culprit ∈ order, Disagrees echoHash answer culprit ∧
      PartyNumber peerset culprit (asU16 before.length)

/-- A round over a complete group and the echoes of the remotes, in the
order they come in, names a party at fault if and only if the senders are
not distinct or the position of the first echo that differs fits. -/
theorem blamesRightly_iff (peerset : Peerset P) (g : EchoGadget P ρ) (messageId : Nat)
    (group : List (EchoMessage ρ)) (answer : P → Except RequestFailure Bytes) (order : List P)
    (hready : ready g.n group = true) (horder : order.length + 1 = g.n) :
    BlamesRightly peerset group answer order
        (echoRound g messageId group (order.map (echoOf answer))) ↔
      ((group.map (·.sender)).Nodup → PositionFits peerset (groupHash group) answer order) := by
  have hlength : (order.map (echoOf answer)).length + 1 = g.n := by rwa [List.length_map]
  constructor
  · intro h hnodup before peer after heq hbefore hpeer
    have hfailed := (echoRound_eq_failed messageId hready hlength).mpr (.inr
      ⟨hnodup, (checkEchoes_eq_inconsistent order 0).mpr
        ⟨before, peer, after, heq, hbefore, hpeer, rfl⟩⟩)
    rcases h _ hfailed with htwice | hculprit
    · have hle := List.nodup_iff_count_le_one.mp hnodup (asU16 (0 + before.length))
      omega
    · rwa [Nat.zero_add] at hculprit
  · intro h k hfailed
    rcases (echoRound_eq_failed messageId hready hlength).mp hfailed with ⟨sender, htally, heq⟩ |
      ⟨hnodup, hcheck⟩
    · cases heq
      have hcount := count_of_tally_eq_error htally
      have hperm := (List.perm_insertionSort (fun a b : EchoMessage ρ => a.sender ≤ b.sender)
        group).map (·.sender)
      rw [show (Tally.empty : Tally ρ).senders = [] from rfl, List.nil_append] at hcount
      exact .inl (hperm.count_eq k ▸ hcount)
    · obtain ⟨before, peer, after, heq, hbefore, hpeer, rfl⟩ :=
        (checkEchoes_eq_inconsistent order 0).mp hcheck
      rw [Nat.zero_add]
      exact .inr (h hnodup before peer after heq hbefore hpeer)

end Blame

namespace WrongParty

open scoped IdentityHash

/-- Three peers in order. The third one is local. -/
def peerset : Peerset (Fin 3) where
  localPeerId := 2
  peers := [0, 1, 2]
  parties := [0, 1, 2]

/-- A broadcast of each party. -/
def group : List (EchoMessage Unit) :=
  [{ messageId := 0, sender := 1, payload := [7], response := .incoming () },
    { messageId := 0, sender := 2, payload := [8], response := .incoming () },
    { messageId := 0, sender := 3, payload := [9], response := .outgoing 0 }]

/-- The first party returns another hash. -/
def answer (p : Fin 3) : Except RequestFailure Bytes :=
  if p = 0 then .ok [0] else .ok [7, 8, 9]

/-- A round of three parties over these echoes. -/
def round (order : List (Fin 3)) : Step (Fin 3) Unit :=
  echoRound (EchoGadget.new 3) 0 group (order.map (echoOf answer))

/-- The echo of the first party comes second, and its position is its
number by accident. -/
theorem positionFits_second : PositionFits peerset (groupHash group) answer [1, 0] := by
  intro before peer after heq _ hpeer
  rcases before with _ | ⟨q, _ | ⟨r, before⟩⟩
  · -- the echo of the second party is the hash of the group
    cases heq
    obtain ⟨_, ⟨⟩, hne⟩ := hpeer
    exact absurd rfl hne
  · cases heq
    exact ⟨0, by decide, ⟨[0], rfl, by decide⟩, 0, rfl, rfl⟩
  · have hlength := congrArg List.length heq
    simp at hlength

/-- So the round names the first party. -/
theorem blamesRightly_second :
    round [1, 0] = .failed (.inconsistentEcho 1) ∧
      BlamesRightly peerset group answer [1, 0] (round [1, 0]) :=
  ⟨rfl, (blamesRightly_iff peerset (EchoGadget.new 3) 0 group answer [1, 0] rfl rfl).mpr
    fun _ => positionFits_second⟩

/-- The echo of the first party comes first, and party zero is named. -/
theorem not_blamesRightly_first :
    round [0, 1] = .failed (.inconsistentEcho 0) ∧
      ¬ BlamesRightly peerset group answer [0, 1] (round [0, 1]) := by
  have hround : round [0, 1] = .failed (.inconsistentEcho 0) := rfl
  refine ⟨hround, fun h => ?_⟩
  rcases h 0 hround with htwice | ⟨culprit, _, _, index, _, hnumber⟩
  · exact absurd htwice (by decide)
  · exact absurd hnumber (Nat.succ_ne_zero index).symm

end WrongParty

end FrostMpcTss.Proofs
