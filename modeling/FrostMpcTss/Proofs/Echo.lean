import FrostMpcTss.Service.Echo

/-!
# `FrostMpcTss.Proofs.Echo`: what the echo gadget can do

`Steps` lists the ways one stretch of `proceed_round` can go, with the
conditions of each. `tally_eq_ok` says what the loop over the sorted
group computes: it succeeds exactly on pairwise distinct senders, and
then the hasher has been fed the payloads in the order of the senders
and nothing else.
-/

set_option autoImplicit false

namespace FrostMpcTss.Proofs

open Network Service
open Service.EchoGadget

section Tally

variable {ρ : Type}

/-- The bytes fed to the hasher for a list of messages. -/
def payloads (ms : List (EchoMessage ρ)) : Bytes := ms.flatMap (·.payload)

/-- The answer handles of the incoming messages of a list. -/
def incomingTxs (ms : List (EchoMessage ρ)) : List ρ :=
  ms.filterMap fun m =>
    match m.response with
    | .incoming tx => some tx
    | .outgoing _ => none

/-- The response channels of the outgoing messages of a list. -/
def outgoingRxs (ms : List (EchoMessage ρ)) : List Nat :=
  ms.filterMap fun m =>
    match m.response with
    | .incoming _ => none
    | .outgoing respRx => some respRx

/-- The loop over the group, from any accumulators. -/
theorem tally_eq_ok {t t' : Tally ρ} {ms : List (EchoMessage ρ)} (hnodup : t.senders.Nodup) :
    tally t ms = .ok t' ↔
      (t.senders ++ ms.map (·.sender)).Nodup ∧
      t' = { senders := t.senders ++ ms.map (·.sender)
             hashed := t.hashed ++ payloads ms
             incomingAcks := t.incomingAcks ++ incomingTxs ms
             outgoingRespRx := (outgoingRxs ms).getLast?.or t.outgoingRespRx } := by
  induction ms generalizing t with
  | nil =>
      simp only [tally, Except.ok.injEq, List.map_nil, List.append_nil, payloads, incomingTxs,
        outgoingRxs, List.flatMap_nil, List.filterMap_nil, List.getLast?_nil, Option.none_or]
      exact ⟨fun h => ⟨hnodup, h.symm⟩, fun h => h.2.symm⟩
  | cons m ms ih =>
      by_cases hmem : m.sender ∈ t.senders
      · -- a sender seen before ends the loop
        simp only [tally, hmem, if_true, List.map_cons, reduceCtorEq, false_iff, not_and]
        intro h
        have hdisj := List.nodup_append.mp h
        exact absurd rfl (hdisj.2.2 m.sender hmem m.sender List.mem_cons_self)
      · have hsenders : (t.add m).senders = t.senders ++ [m.sender] := by
          unfold Tally.add
          cases m.response <;> rfl
        have hnodup' : (t.add m).senders.Nodup := by
          rw [hsenders, List.nodup_append]
          refine ⟨hnodup, List.nodup_singleton _, ?_⟩
          rintro a ha b hb rfl
          rw [List.mem_singleton] at hb
          exact hmem (hb ▸ ha)
        simp only [tally, hmem, if_false]
        rw [ih hnodup', hsenders]
        have hlist : (t.senders ++ [m.sender]) ++ ms.map (·.sender)
            = t.senders ++ (m :: ms).map (·.sender) := by simp
        rw [hlist]
        refine and_congr_right fun _ => ?_
        cases hresp : m.response with
        | incoming tx =>
            simp [Tally.add, hresp, payloads, incomingTxs, outgoingRxs, List.append_assoc]
        | outgoing respRx =>
            have hrxs : outgoingRxs (m :: ms) = respRx :: outgoingRxs ms := by
              simp [outgoingRxs, hresp]
            have hlast : (outgoingRxs ms).getLast?.or (some respRx)
                = (respRx :: outgoingRxs ms).getLast?.or t.outgoingRespRx := by
              rw [List.getLast?_cons]
              cases (outgoingRxs ms).getLast? <;> rfl
            simp only [Tally.add, hresp, hrxs, hlast]
            simp [payloads, incomingTxs, hresp]

/-- The loop over a whole group. -/
theorem tally_empty_eq_ok {t : Tally ρ} {ms : List (EchoMessage ρ)} :
    tally .empty ms = .ok t ↔
      (ms.map (·.sender)).Nodup ∧
      t = { senders := ms.map (·.sender)
            hashed := payloads ms
            incomingAcks := incomingTxs ms
            outgoingRespRx := (outgoingRxs ms).getLast? } := by
  have hnil : (Tally.empty : Tally ρ).senders.Nodup := List.nodup_nil
  rw [tally_eq_ok hnil]
  simp [Tally.empty]

end Tally

section Steps

variable {P ρ : Type}

/-- All echoes are `Ok` and equal the local hash. -/
def AllEqual (echoHash : Bytes) (echoHashes : List (RemoteEcho P)) : Prop :=
  ∀ e ∈ echoHashes, ∃ peer, e = .ok (peer, echoHash)

theorem checkEchoes_eq_none {echoHash : Bytes} {index : Nat} {echoHashes : List (RemoteEcho P)} :
    checkEchoes echoHash index echoHashes = none ↔ AllEqual echoHash echoHashes := by
  induction echoHashes generalizing index with
  | nil => exact ⟨fun _ => nofun, fun _ => rfl⟩
  | cons e rest ih =>
      cases e with
      | error failure =>
          refine ⟨nofun, fun h => ?_⟩
          obtain ⟨peer, hpeer⟩ := h _ List.mem_cons_self
          cases hpeer
      | ok pair =>
          obtain ⟨peer, hash⟩ := pair
          by_cases heq : hash = echoHash
          · subst heq
            simp only [checkEchoes, ne_eq, not_true_eq_false, if_false]
            rw [ih]
            constructor
            · intro h e he
              rcases List.mem_cons.mp he with rfl | he
              · exact ⟨peer, rfl⟩
              · exact h e he
            · exact fun h e he => h e (List.mem_cons_of_mem _ he)
          · simp only [checkEchoes, ne_eq, heq, not_false_eq_true, if_true, reduceCtorEq,
              false_iff]
            intro h
            obtain ⟨peer', hpeer⟩ := h _ List.mem_cons_self
            cases hpeer
            exact heq rfl

/-- Why a stretch of `proceed_round` fails. -/
inductive Fails (g : EchoGadget P ρ) (rxClosed : Bool) (responses : Nat → ResponseRx P) :
    Error → Prop where
  | closed {e : Error} : rxClosed = true → (∀ i, e ≠ .inconsistentEcho i) →
      Fails g rxClosed responses e
  | senderTwice {messageId : Nat} {group : List (EchoMessage ρ)} {e : Error} :
      g.round = .gather messageId group → group.length = g.n →
      ¬ (group.map (·.sender)).Nodup → Fails g rxClosed responses e
  /-- The round is complete, and an echo is wrong. -/
  | echoes {messageId respRx : Nat} {echoHash : Bytes} {echoHashes rest : List (RemoteEcho P)}
      {echo : RemoteEcho P} {e : Error} :
      g.round = .responses messageId echoHash respRx echoHashes →
      (responses respRx).queue = echo :: rest → (echoHashes ++ [echo]).length = g.n - 1 →
      checkEchoes echoHash 0 (echoHashes ++ [echo]) = some e → Fails g rxClosed responses e

/-- Why a stretch of `proceed_round` panics. -/
inductive Panics (g : EchoGadget P ρ) (responses : Nat → ResponseRx P) (gone : ρ → Bool) :
    Panic → Prop where
  | noOwn {messageId : Nat} {group : List (EchoMessage ρ)} :
      g.round = .gather messageId group → group.length = g.n →
      (outgoingRxs (sortBySender group)).getLast? = none →
      Panics g responses gone .outgoingMessageMissing
  | unacknowledged {messageId : Nat} {group : List (EchoMessage ρ)} :
      g.round = .gather messageId group → group.length = g.n →
      (incomingTxs (sortBySender group)).any gone = true →
      Panics g responses gone .acknowledgmentFailed
  | terminated {messageId respRx : Nat} {echoHash : Bytes} {echoHashes : List (RemoteEcho P)} :
      g.round = .responses messageId echoHash respRx echoHashes →
      (responses respRx).queue = [] → (responses respRx).closed = true →
      Panics g responses gone .polledAfterTerminated
  | noParty {messageId respRx : Nat} {echoHash : Bytes} {echoHashes rest : List (RemoteEcho P)}
      {echo : RemoteEcho P} : g.round = .responses messageId echoHash respRx echoHashes →
      (responses respRx).queue = echo :: rest → g.n = 0 →
      Panics g responses gone .subtractOverflow
  /-- The round that ends cannot be counted. -/
  | rounds {messageId respRx : Nat} {echoHash : Bytes} {echoHashes rest : List (RemoteEcho P)}
      {echo : RemoteEcho P} : g.round = .responses messageId echoHash respRx echoHashes →
      (responses respRx).queue = echo :: rest → (echoHashes ++ [echo]).length = g.n - 1 →
      2 ^ 16 ≤ g.r + 1 → Panics g responses gone .addOverflow

theorem Panics.ne_full {g : EchoGadget P ρ} {responses : Nat → ResponseRx P} {gone : ρ → Bool}
    {why : Panic} (h : Panics g responses gone why) : why ≠ .applicationChannelFull := by
  rintro rfl
  cases h

/-- The ways one stretch of `proceed_round` can go. -/
inductive Steps [Blake2s256] (g : EchoGadget P ρ) (rx : List (EchoMessage ρ)) (rxClosed : Bool)
    (responses : Nat → ResponseRx P) (gone : ρ → Bool) : Step P ρ → Prop where
  | pending : Steps g rx rxClosed responses gone .pending
  | ready {messageId : Nat} : g.round = .collect → g.readyMessageId = some messageId →
      Steps g rx rxClosed responses gone
        (.took
          { g with
              msgs := g.msgs.filter (·.messageId ≠ messageId)
              round := .gather messageId (group g.msgs messageId) } rx)
  | collects {msg : EchoMessage ρ} {rest : List (EchoMessage ρ)} : g.round = .collect →
      rx = msg :: rest →
      Steps g rx rxClosed responses gone
        (.took { g with msgs := g.msgs ++ [msg], round := .collect } rest)
  | gathers {messageId : Nat} {group : List (EchoMessage ρ)} {msg : EchoMessage ρ}
      {rest : List (EchoMessage ρ)} : g.round = .gather messageId group → rx = msg :: rest →
      msg.messageId = messageId →
      Steps g rx rxClosed responses gone
        (.took { g with round := .gather messageId (group ++ [msg]) } rest)
  | setsAside {messageId : Nat} {group : List (EchoMessage ρ)} {msg : EchoMessage ρ}
      {rest : List (EchoMessage ρ)} : g.round = .gather messageId group → rx = msg :: rest →
      Steps g rx rxClosed responses gone
        (.took { g with msgs := g.msgs ++ [msg], round := .gather messageId group } rest)
  | hashed {messageId respRx : Nat} {group : List (EchoMessage ρ)} :
      g.round = .gather messageId group → group.length = g.n →
      ((sortBySender group).map (·.sender)).Nodup →
      (outgoingRxs (sortBySender group)).getLast? = some respRx →
      Steps g rx rxClosed responses gone
        (.hashed
          { g with
              round := .responses messageId
                (Blake2s256.digest (payloads (sortBySender group))) respRx [] }
          messageId (sortBySender group) (Blake2s256.digest (payloads (sortBySender group)))
          (incomingTxs (sortBySender group)))
  | echoed {messageId respRx : Nat} {echoHash : Bytes} {echoHashes : List (RemoteEcho P)}
      {echo : RemoteEcho P} {rest : List (RemoteEcho P)} :
      g.round = .responses messageId echoHash respRx echoHashes →
      (responses respRx).queue = echo :: rest →
      (echoHashes ++ [echo]).length + 1 ≠ g.n →
      Steps g rx rxClosed responses gone
        (.echoed
          { g with
              round := .responses messageId echoHash respRx (echoHashes ++ [echo]) } respRx)
  | verified {messageId respRx : Nat} {echoHash : Bytes} {echoHashes : List (RemoteEcho P)}
      {echo : RemoteEcho P} {rest : List (RemoteEcho P)} :
      g.round = .responses messageId echoHash respRx echoHashes →
      (responses respRx).queue = echo :: rest →
      (echoHashes ++ [echo]).length + 1 = g.n → AllEqual echoHash (echoHashes ++ [echo]) →
      Steps g rx rxClosed responses gone
        (.verified { g with r := g.r + 1, round := .collect } messageId echoHash respRx
          (echoHashes ++ [echo]))
  | finished : g.round = .collect → rx = [] → rxClosed = true → g.msgs = [] →
      Steps g rx rxClosed responses gone .finished
  | failed {e : Error} : Fails g rxClosed responses e →
      Steps g rx rxClosed responses gone (.failed e)
  | panic {why : Panic} : Panics g responses gone why →
      Steps g rx rxClosed responses gone (.panic why)

/-- Every stretch of `proceed_round` goes one of these ways. -/
theorem steps_step [Blake2s256] (g : EchoGadget P ρ) (rx : List (EchoMessage ρ))
    (rxClosed : Bool) (responses : Nat → ResponseRx P) (gone : ρ → Bool) :
    Steps g rx rxClosed responses gone (g.step rx rxClosed responses gone) := by
  cases hround : g.round with
  | collect =>
      -- a group that is complete goes first, then the channel
      simp only [EchoGadget.step, hround]
      cases hready : g.readyMessageId with
      | some messageId => exact .ready hround hready
      | none =>
          cases rx with
          | cons msg rest => exact .collects hround rfl
          | nil =>
              cases rxClosed with
              | false => exact .pending
              | true =>
                  by_cases hmsgs : g.msgs = []
                  · simp only [if_true, hmsgs]
                    exact .finished hround rfl rfl hmsgs
                  · simp only [if_true, hmsgs, if_false]
                    exact .failed (.closed rfl nofun)
  | gather messageId group =>
      simp only [EchoGadget.step, hround]
      by_cases hfull : group.length = g.n
      · simp only [hfull, if_true, hashGroup]
        cases htally : tally .empty (sortBySender group) with
        | error sender =>
            refine .failed (.senderTwice hround hfull fun hnodup => ?_)
            have hperm : (sortBySender group).Perm group := List.perm_insertionSort _ group
            have hsorted := (hperm.map (·.sender)).nodup_iff.mpr hnodup
            cases htally.symm.trans (tally_empty_eq_ok.mpr ⟨hsorted, rfl⟩)
        | ok t =>
            obtain ⟨hnodup, rfl⟩ := tally_empty_eq_ok.mp htally
            -- without an own message `expect` fails
            cases hlast : (outgoingRxs (sortBySender group)).getLast? with
            | none => exact .panic (.noOwn hround hfull hlast)
            | some respRx =>
                simp only
                split
                · exact .panic (.unacknowledged hround hfull ‹_›)
                · exact .hashed hround hfull hnodup hlast
      · simp only [hfull, if_false]
        cases rx with
        | cons msg rest =>
            by_cases hid : msg.messageId = messageId
            · simp only [hid, if_true]
              exact .gathers hround rfl hid
            · simp only [hid, if_false]
              exact .setsAside hround rfl
        | nil =>
            cases rxClosed with
            | false => exact .pending
            | true => exact .failed (.closed rfl nofun)
  | responses messageId echoHash respRx echoHashes =>
      simp only [EchoGadget.step, hround]
      cases hqueue : (responses respRx).queue with
      | nil =>
          cases hclosed : (responses respRx).closed with
          | false => exact .pending
          | true => exact .panic (.terminated hround hqueue hclosed)
      | cons echo rest =>
          simp only [predUnsigned]
          by_cases hpos : 0 < g.n
          · simp only [hpos, if_true]
            -- the echo that completes the round is checked with all the others
            by_cases hlen : (echoHashes ++ [echo]).length = g.n - 1
            · simp only [hlen, if_true, finishRound]
              cases hcheck : checkEchoes echoHash 0 (echoHashes ++ [echo]) with
              | some e => exact .failed (.echoes hround hqueue hlen hcheck)
              | none =>
                  have hall := checkEchoes_eq_none.mp hcheck
                  simp only [succU16]
                  by_cases hr : g.r + 1 < 2 ^ 16
                  · simp only [hr, if_true]
                    exact .verified hround hqueue (by omega) hall
                  · simp only [hr, if_false]
                    exact .panic (.rounds hround hqueue hlen (Nat.le_of_not_lt hr))
            · simp only [hlen, if_false]
              exact .echoed hround hqueue (by omega)
          · simp only [hpos, if_false]
            exact .panic (.noParty hround hqueue (Nat.eq_zero_of_not_pos hpos))

/-- The group is sorted, not changed. -/
theorem mem_sortBySender {group : List (EchoMessage ρ)} {m : EchoMessage ρ} :
    m ∈ sortBySender group ↔ m ∈ group :=
  (List.perm_insertionSort _ group).mem_iff

theorem pairwise_sortBySender (group : List (EchoMessage ρ)) :
    (sortBySender group).Pairwise (fun a b => a.sender ≤ b.sender) := by
  have : Std.Total (fun a b : EchoMessage ρ => a.sender ≤ b.sender) :=
    ⟨fun a b => Nat.le_total a.sender b.sender⟩
  have : IsTrans (EchoMessage ρ) (fun a b => a.sender ≤ b.sender) :=
    ⟨fun a b c => Nat.le_trans⟩
  exact List.pairwise_insertionSort _ group

end Steps

end FrostMpcTss.Proofs
