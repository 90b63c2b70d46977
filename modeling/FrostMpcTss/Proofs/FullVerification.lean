import FrostMpcTss.Lib.Transition
import FrostMpcTss.Proofs.GadgetLedger
import FrostMpcTss.Service.WrapFuture

/-!
# `FrostMpcTss.Proofs.FullVerification`: what `Ok` of `wrap_execution` means

`wrap_execution` returns `Ok` when the future has returned `Ok` and
`proceed_round` has returned `Ok(None)`. By then everything that entered
the gadget has been hashed, and every hashed group has been verified
against `n - 1` responses of its own channel (`Settled`).

`FullyVerified` asks for more: that the messages of an id are one such
group. The gadget does not see to that. A group with two outgoing
messages is verified against the responses to one of them, and after a
verified round further messages of its id make a new group. `Ok` means
full verification if and only if no id has two outgoing messages
(`fullyVerified_iff`).
-/

set_option autoImplicit false

namespace FrostMpcTss.Proofs

open Lib Network Service
open Service.EchoGadget

section

variable {P ρ κ : Type} [Blake2s256]

/-- The messages of an id, in the order of their senders. -/
def groupOf (trace : List (Effect P ρ κ)) (k : Nat) : List (EchoMessage ρ) :=
  sortBySender ((enteredIn trace).filter (·.messageId = k))

/-- A group has been verified in full. -/
structure VerifiedGroup (n : Nat) (t : WrapRun P ρ κ) (ms : List (EchoMessage ρ)) : Prop where
  size : ms.length = n
  senders : (ms.map (·.sender)).Pairwise (· < ·)
  /-- Every incoming message was answered with the hash. -/
  answered : ∀ tx ∈ incomingTxs ms,
    .respond tx (.ok (Blake2s256.digest (payloads ms))) ∈ t.trace
  /-- One message is outgoing, and the `n - 1` responses to it are `Ok`
  and equal the hash. -/
  echoed : ∃ respRx echoHashes, outgoingRxs ms = [respRx] ∧ echoHashes <+: t.arrived respRx ∧
    echoHashes.length + 1 = n ∧ AllEqual (Blake2s256.digest (payloads ms)) echoHashes

/-- The computation returned `Ok`, and the messages of every id that ever
entered have been verified. -/
structure FullyVerified (n : Nat) (t : WrapRun P ρ κ) : Prop where
  completed : t.completed = some (.ok ())
  verified : ∀ m, .entered m ∈ t.trace → VerifiedGroup n t (groupOf t.trace m.messageId)

/-- Every hashed group was acknowledged. -/
def Acknowledged (trace : List (Effect P ρ κ)) : Prop :=
  ∀ k group echoHash, .hashed k group echoHash ∈ trace →
    ∀ tx ∈ incomingTxs group, .respond tx (.ok echoHash) ∈ trace

/-- Every hashed group was verified against the first responses of its
channel, unless the gadget is still reading them. -/
def Echoed (trace : List (Effect P ρ κ)) (arrived : Nat → List (RemoteEcho P))
    (reading : Nat → Bytes → Nat → Prop) : Prop :=
  ∀ k group echoHash respRx, .hashed k group echoHash ∈ trace →
    (outgoingRxs group).getLast? = some respRx →
    (∃ echoHashes, .verified k echoHash echoHashes ∈ trace ∧ echoHashes <+: arrived respRx) ∨
      reading k echoHash respRx

/-- The gadget is reading the responses of this channel, and has lost
none. -/
def Reading (w : WrapFuture P ρ) (arrived : Nat → List (RemoteEcho P)) (k : Nat)
    (echoHash : Bytes) (respRx : Nat) : Prop :=
  ∃ echoHashes, w.echo.round = .responses k echoHash respRx echoHashes ∧
    echoHashes ++ (w.responses respRx).queue = arrived respRx

/-- Nothing is left to do for the gadget. -/
structure Idle (w : WrapFuture P ρ) : Prop where
  round : w.echo.round = .collect
  msgs : w.echo.msgs = []
  echoRx : w.echoRx = []
  rxClosed : w.rxClosed = true

/-- What holds while the future is wrapped. -/
structure RunLive (n : Nat) (t : WrapRun P ρ κ) (w : WrapFuture P ρ) : Prop where
  ledger : GadgetLedger n w.echo w.echoRx t.trace
  numbered : ∀ respRx ∈ outgoingRxs (enteredIn t.trace), respRx < w.nextRx
  unread : ∀ respRx, respRx ∉ outgoingRxs (hashedIn t.trace) →
    (w.responses respRx).queue = t.arrived respRx
  echoed : Echoed t.trace t.arrived (Reading w t.arrived)
  done : w.computationDone = true → t.completed = some (.ok ())
  idle : w.echoFinished = true → Idle w

/-- What holds when `Ok` has been returned. -/
structure Settled (t : WrapRun P ρ κ) : Prop where
  completed : t.completed = some (.ok ())
  conserved : (enteredIn t.trace).Perm (hashedIn t.trace)
  echoed : Echoed t.trace t.arrived fun _ _ _ => False

/-- The invariant of a run. -/
structure RunLedger (n : Nat) (t : WrapRun P ρ κ) : Prop where
  gadget : GadgetTrace n t.trace
  acked : Acknowledged t.trace
  fresh : (outgoingRxs (enteredIn t.trace)).Nodup
  live : ∀ w, t.state = .running w → RunLive n t w
  settled : t.state = .returned (.ok ()) → Settled t

section Steps

variable {n : Nat} {t : WrapRun P ρ κ} {w : WrapFuture P ρ} {trace effects : List (Effect P ρ κ)}
  {echoHash : Bytes}

omit [Blake2s256] in
theorem outgoingRxs_append (ms ms' : List (EchoMessage ρ)) :
    outgoingRxs (ms ++ ms') = outgoingRxs ms ++ outgoingRxs ms' :=
  List.filterMap_append

omit [Blake2s256] in
/-- Effects that are not the gadget's own. -/
theorem mem_of_not_byGadget {effect : Effect P ρ κ}
    (hexec : ∀ effect ∈ effects, byGadget effect = false) (hgadget : byGadget effect = true)
    (h : effect ∈ trace ++ effects) : effect ∈ trace := by
  refine (List.mem_append.mp h).resolve_right fun hmem => ?_
  rw [hexec effect hmem] at hgadget
  cases hgadget

omit [Blake2s256] in
/-- The execution acknowledges nothing. -/
theorem Acknowledged.append (h : Acknowledged trace)
    (hexec : ∀ effect ∈ effects, byGadget effect = false) : Acknowledged (trace ++ effects) := by
  intro k group echoHash hmem tx htx
  exact List.mem_append_left _
    (h k group echoHash (mem_of_not_byGadget hexec rfl hmem) tx htx)

omit [Blake2s256] in
/-- More is in the trace, but no group; more has arrived; and what is
being read is being read still. -/
theorem Echoed.mono {arrived arrived' : Nat → List (RemoteEcho P)}
    {reading reading' : Nat → Bytes → Nat → Prop} (h : Echoed trace arrived reading)
    (hhashed : ∀ k group echoHash, .hashed k group echoHash ∈ trace ++ effects →
      .hashed k group echoHash ∈ trace) (harrived : ∀ respRx, arrived respRx <+: arrived' respRx)
    (hreading : ∀ k echoHash respRx, reading k echoHash respRx →
      (∃ echoHashes, .verified k echoHash echoHashes ∈ trace ++ effects ∧
        echoHashes <+: arrived' respRx) ∨ reading' k echoHash respRx) :
    Echoed (trace ++ effects) arrived' reading' := by
  intro k group echoHash respRx hgroup hlast
  rcases h k group echoHash respRx (hhashed k group echoHash hgroup) hlast with
    ⟨echoHashes, hverified, hpre⟩ | hread
  · exact .inl ⟨echoHashes, List.mem_append_left _ hverified, hpre.trans (harrived respRx)⟩
  · exact hreading k echoHash respRx hread

omit [Blake2s256] in
/-- The future pushes a message. -/
theorem RunLive.push {m : EchoMessage ρ} {next : Nat} (hlive : RunLive n t w)
    (hpush : w.canPush = true) (hle : w.nextRx ≤ next)
    (hnext : ∀ respRx ∈ outgoingRxs [m], respRx < next) :
    RunLive n { t with trace := t.trace ++ [.entered m] }
      { w with echoRx := w.echoRx ++ [m], nextRx := next } := by
  have hexec : ∀ effect ∈ ([.entered m] : List (Effect P ρ κ)), byGadget effect = false := by
    intro effect heffect
    rw [List.mem_singleton.mp heffect]
    rfl
  refine ⟨hlive.ledger.longerChannel hexec, ?_, ?_, ?_, hlive.done, ?_⟩
  · intro respRx hmem
    rw [enteredIn_append, outgoingRxs_append] at hmem
    rcases List.mem_append.mp hmem with hmem | hmem
    · exact Nat.lt_of_lt_of_le (hlive.numbered respRx hmem) hle
    · exact hnext respRx hmem
  · intro respRx hmem
    rw [hashedIn_append, hashedIn_eq_nil hexec, List.append_nil] at hmem
    exact hlive.unread respRx hmem
  · exact hlive.echoed.mono (fun k group echoHash => mem_of_not_byGadget hexec rfl)
      (fun _ => List.prefix_rfl) fun _ _ _ hread => .inr hread
  · intro hfinished
    -- the channel is closed by then
    have hclosed := (hlive.idle hfinished).rxClosed
    rw [WrapFuture.canPush, hclosed] at hpush
    cases hpush

/-- A message that enters the echo channel brings a receiver that was not
used. -/
theorem RunLedger.push {m : EchoMessage ρ} {next : Nat} (ht : RunLedger n t)
    (hw : t.state = .running w) (hpush : w.canPush = true) (hle : w.nextRx ≤ next)
    (hfresh : outgoingRxs [m] = [] ∨ outgoingRxs [m] = [w.nextRx] ∧ w.nextRx < next) :
    RunLedger n
      { t with
          state := .running { w with echoRx := w.echoRx ++ [m], nextRx := next }
          trace := t.trace ++ [.entered m] } := by
  have hlive := ht.live w hw
  have hexec : ∀ effect ∈ ([.entered m] : List (Effect P ρ κ)), byGadget effect = false := by
    intro effect heffect
    rw [List.mem_singleton.mp heffect]
    rfl
  refine ⟨ht.gadget.append hexec, ht.acked.append hexec, ?_, ?_, nofun⟩
  · rw [enteredIn_append, outgoingRxs_append]
    show (_ ++ outgoingRxs [m]).Nodup
    rcases hfresh with hnone | ⟨hone, _⟩
    · rw [hnone, List.append_nil]
      exact ht.fresh
    · rw [hone, List.nodup_append]
      refine ⟨ht.fresh, List.nodup_singleton _, ?_⟩
      rintro a ha b hb rfl
      have hlt := hlive.numbered a ha
      rw [List.mem_singleton.mp hb] at hlt
      exact Nat.lt_irrefl _ hlt
  · rintro w' ⟨⟩
    have hnext : ∀ respRx ∈ outgoingRxs [m], respRx < next := by
      intro respRx hmem
      rcases hfresh with hnone | ⟨hone, hlt⟩
      · rw [hnone] at hmem
        cases hmem
      · rw [hone] at hmem
        rw [List.mem_singleton.mp hmem]
        exact hlt
    have hpushed := hlive.push hpush hle hnext
    exact ⟨hpushed.ledger, hpushed.numbered, hpushed.unread, hpushed.echoed, hpushed.done,
      hpushed.idle⟩

omit [Blake2s256] in
/-- The gadget is through and the future has returned `Ok`. -/
theorem RunLive.settle {t' : WrapRun P ρ κ} (hlive : RunLive n t w) (hidle : Idle w)
    (htrace : t'.trace = t.trace) (harrived : t'.arrived = t.arrived)
    (hcompleted : t'.completed = some (.ok ())) : Settled t' := by
  refine ⟨hcompleted, ?_, ?_⟩
  · have hconserved := hlive.ledger.conserved
    rw [hidle.round, hidle.msgs, hidle.echoRx] at hconserved
    rw [htrace]
    simpa [gathered] using hconserved
  · rw [htrace, harrived]
    intro k group echoHash respRx hgroup hlast
    refine (hlive.echoed k group echoHash respRx hgroup hlast).imp_right ?_
    rintro ⟨_, hround, _⟩
    rw [hidle.round] at hround
    cases hround

omit [Blake2s256] in
/-- The channel of a gathered group has not been read. -/
theorem RunLedger.unread_of_gather {k respRx : Nat} {group : List (EchoMessage ρ)}
    (hfresh : (outgoingRxs (enteredIn t.trace)).Nodup) (hlive : RunLive n t w)
    (hround : w.echo.round = .gather k group) (hrx : respRx ∈ outgoingRxs group) :
    (w.responses respRx).queue = t.arrived respRx := by
  refine hlive.unread respRx fun hmem => ?_
  have hnodup := (hlive.ledger.conserved.filterMap _).nodup_iff.mp hfresh
  rw [hround, List.filterMap_append, List.filterMap_append] at hnodup
  exact (List.nodup_append.mp hnodup).2.2 respRx hmem respRx (List.mem_append_left _ hrx) rfl

/-- The effects of hashing a group. -/
def hashEffects (k : Nat) (group : List (EchoMessage ρ)) (echoHash : Bytes) :
    List (Effect P ρ κ) :=
  (incomingTxs group).map (fun tx => .respond tx (.ok echoHash)) ++ [.hashed k group echoHash]

omit [Blake2s256] in
theorem Acknowledged.hash {k : Nat} {group : List (EchoMessage ρ)} (h : Acknowledged trace) :
    Acknowledged (trace ++ hashEffects k group echoHash) := by
  intro k' group' echoHash' hmem tx htx
  rcases mem_acks rfl hmem with hmem | hmem
  · exact List.mem_append_left _ (h k' group' echoHash' hmem tx htx)
  · cases hmem
    exact List.mem_append_right _ (List.mem_append_left _ (List.mem_map_of_mem htx))

/-- A group is hashed, and the gadget turns to its channel. -/
theorem RunLedger.hash {k respRx : Nat} {group sorted : List (EchoMessage ρ)} {g : EchoGadget P ρ}
    (ht : RunLedger n t) (hw : t.state = .running w) (hnot : w.echoFinished = false)
    (hround : w.echo.round = .gather k group) (hsorted : sorted.Perm group)
    (hlast : (outgoingRxs sorted).getLast? = some respRx)
    (hg : g.round = .responses k echoHash respRx [])
    (hgadget : GadgetTrace n (t.trace ++ hashEffects k sorted echoHash))
    (hledger : GadgetLedger n g w.echoRx (t.trace ++ hashEffects k sorted echoHash)) :
    RunLedger n
      { t with
          state := .running { w with echo := g }
          trace := t.trace ++ hashEffects k sorted echoHash } := by
  have hlive := ht.live w hw
  have hentered : enteredIn (t.trace ++ hashEffects k sorted echoHash) = enteredIn t.trace := by
    rw [enteredIn_append, hashEffects, enteredIn_acks, List.append_nil]
  have hrx : respRx ∈ outgoingRxs group :=
    (hsorted.filterMap _).subset (List.mem_of_getLast? hlast)
  have hunread := RunLedger.unread_of_gather ht.fresh hlive hround hrx
  refine ⟨hgadget, ht.acked.hash, by rw [hentered]; exact ht.fresh, ?_, nofun⟩
  rintro w' ⟨⟩
  refine ⟨hledger, by rw [hentered]; exact hlive.numbered, ?_, ?_, hlive.done, ?_⟩
  · intro respRx' hmem
    rw [hashedIn_append, outgoingRxs_append] at hmem
    exact hlive.unread respRx' fun hold => hmem (List.mem_append_left _ hold)
  · intro k' group' echoHash' respRx' hgroup' hlast'
    rcases mem_acks rfl hgroup' with hgroup' | hgroup'
    · rcases hlive.echoed k' group' echoHash' respRx' hgroup' hlast' with
        ⟨echoHashes, hverified, hpre⟩ | ⟨_, hr, _⟩
      · exact .inl ⟨echoHashes, List.mem_append_left _ hverified, hpre⟩
      · rw [hround] at hr
        cases hr
    · cases hgroup'
      rw [hlast] at hlast'
      cases hlast'
      exact .inr ⟨[], hg, hunread⟩
  · intro hfinished
    rw [hnot] at hfinished
    cases hfinished

/-- A response is taken out of its channel. -/
theorem RunLedger.echo {k respRx : Nat} {echoHashes rest : List (RemoteEcho P)}
    {echo : RemoteEcho P} {g : EchoGadget P ρ} (ht : RunLedger n t) (hw : t.state = .running w)
    (hnot : w.echoFinished = false)
    (hround : w.echo.round = .responses k echoHash respRx echoHashes)
    (hqueue : (w.responses respRx).queue = echo :: rest) (hentered : enteredIn effects = [])
    (hhashed : ∀ k group echoHash, .hashed k group echoHash ∉ effects)
    (hnext : .verified k echoHash (echoHashes ++ [echo]) ∈ effects ∨
      g.round = .responses k echoHash respRx (echoHashes ++ [echo]))
    (hgadget : GadgetTrace n (t.trace ++ effects))
    (hledger : GadgetLedger n g w.echoRx (t.trace ++ effects)) :
    RunLedger n
      { t with
          state := .running { w.popEcho respRx with echo := g }
          trace := t.trace ++ effects } := by
  have hlive := ht.live w hw
  have hsame : enteredIn (t.trace ++ effects) = enteredIn t.trace := by
    rw [enteredIn_append, hentered, List.append_nil]
  have hold : ∀ k group echoHash, .hashed k group echoHash ∈ t.trace ++ effects →
      .hashed k group echoHash ∈ t.trace :=
    fun k group echoHash hmem => (List.mem_append.mp hmem).resolve_right (hhashed k group echoHash)
  have hother : ∀ respRx', respRx' ≠ respRx →
      (w.popEcho respRx).responses respRx' = w.responses respRx' :=
    fun respRx' hne => Function.update_of_ne hne _ _
  have hpopped : ((w.popEcho respRx).responses respRx).queue = rest := by
    show (Function.update w.responses respRx _ respRx).queue = rest
    rw [Function.update_self]
    show (w.responses respRx).queue.tail = rest
    rw [hqueue]
    rfl
  refine ⟨hgadget, ?_, by rw [hsame]; exact ht.fresh, ?_, nofun⟩
  · intro k' group' echoHash' hmem tx htx
    exact List.mem_append_left _ (ht.acked k' group' echoHash' (hold _ _ _ hmem) tx htx)
  rintro w' ⟨⟩
  refine ⟨hledger, by rw [hsame]; exact hlive.numbered, ?_, ?_, hlive.done, ?_⟩
  · intro respRx' hmem
    rw [hashedIn_append, outgoingRxs_append] at hmem
    have hmem : respRx' ∉ outgoingRxs (hashedIn t.trace) :=
      fun hin => hmem (List.mem_append_left _ hin)
    -- the channel that is read belongs to a hashed group
    have hne : respRx' ≠ respRx := by
      rintro rfl
      obtain ⟨group, hgroup, hrx⟩ := hlive.ledger.awaiting _ _ _ _ hround
      obtain ⟨m, hm, hresp⟩ := mem_outgoingRxs.mp hrx
      exact hmem (mem_outgoingRxs.mpr ⟨m, mem_hashedIn hgroup hm, hresp⟩)
    show ((w.popEcho respRx).responses respRx').queue = t.arrived respRx'
    rw [hother respRx' hne]
    exact hlive.unread respRx' hmem
  · refine hlive.echoed.mono hold (fun _ => List.prefix_rfl) ?_
    rintro k' echoHash' respRx' ⟨echoHashes', hr, hread⟩
    rw [hround] at hr
    cases hr
    rw [hqueue] at hread
    have hread : (echoHashes ++ [echo]) ++ rest = t.arrived respRx := by
      rw [List.append_assoc]
      exact hread
    rcases hnext with hverified | hg
    · exact .inl ⟨_, List.mem_append_right _ hverified, rest, hread⟩
    · refine .inr ⟨_, hg, ?_⟩
      show _ ++ ((w.popEcho respRx).responses respRx).queue = _
      rw [hpopped]
      exact hread
  · intro hfinished
    rw [show (w.popEcho respRx).echoFinished = w.echoFinished from rfl, hnot] at hfinished
    cases hfinished

/-- A stretch of the gadget. -/
theorem runLedger_pollEcho {state : FutureState P ρ} (ht : RunLedger n t)
    (hw : t.state = .running w) (hnot : w.echoFinished = false) {gone : ρ → Bool}
    (h : w.pollEcho gone = some (state, effects)) :
    RunLedger n { t with state := state, trace := t.trace ++ effects } := by
  have hlive := ht.live w hw
  have hsteps := steps_step w.echo w.echoRx w.rxClosed w.responses gone
  unfold WrapFuture.pollEcho at h
  generalize w.echo.step w.echoRx w.rxClosed w.responses gone = step at hsteps h
  obtain ⟨hgadget, hledger⟩ := gadgetLedger_steps ht.gadget hlive.ledger hsteps
  -- the gadget moves messages about, or ends
  have hmoves : ∀ g rx, gadgetAfter w.echoRx step = some (g, rx) → echoEffects (κ := κ) step = [] →
      (∀ k echoHash respRx echoHashes, w.echo.round ≠ .responses k echoHash respRx echoHashes) →
      RunLedger n { t with
        state := .running { w with echo := g, echoRx := rx }, trace := t.trace ++ [] } := by
    intro g rx hafter hnone hround
    have hmoved := hledger g rx hafter
    rw [hnone, List.append_nil] at hmoved
    rw [List.append_nil]
    refine ⟨ht.gadget, ht.acked, ht.fresh, ?_, nofun⟩
    rintro w' ⟨⟩
    refine ⟨hmoved, hlive.numbered, hlive.unread, ?_, hlive.done, ?_⟩
    · intro k group echoHash respRx hgroup hlast
      refine (hlive.echoed k group echoHash respRx hgroup hlast).imp_right ?_
      rintro ⟨_, hr, _⟩
      exact absurd hr (hround _ _ _ _)
    · intro hfinished
      rw [hnot] at hfinished
      cases hfinished
  have hends : ∀ state : FutureState P ρ, (∀ w', state ≠ .running w') →
      state ≠ .returned (.ok ()) →
      RunLedger n { t with state := state, trace := t.trace ++ [] } := by
    intro state hrunning hreturned
    rw [List.append_nil]
    exact ⟨ht.gadget, ht.acked, ht.fresh, fun w' hw' => absurd hw' (hrunning w'),
      fun hok => absurd hok hreturned⟩
  cases hsteps with
  | pending => cases h
  | failed => cases h; exact hends _ nofun nofun
  | panic => cases h; exact hends _ nofun nofun
  | ready hround _ => cases h; exact hmoves _ _ rfl rfl (by simp [hround])
  | collects hround _ => cases h; exact hmoves _ _ rfl rfl (by simp [hround])
  | gathers hround _ _ => cases h; exact hmoves _ _ rfl rfl (by simp [hround])
  | setsAside hround _ => cases h; exact hmoves _ _ rfl rfl (by simp [hround])
  | finished hround hrx hclosed hmsgs =>
      have hidle : Idle w := ⟨hround, hmsgs, hrx, hclosed⟩
      cases hdone : w.computationDone with
      | true =>
          simp only [hdone, if_true] at h
          cases h
          rw [List.append_nil]
          exact ⟨ht.gadget, ht.acked, ht.fresh, nofun,
            fun _ => hlive.settle hidle rfl rfl (hlive.done hdone)⟩
      | false =>
          simp only [hdone, Bool.false_eq_true, if_false] at h
          cases h
          rw [List.append_nil]
          refine ⟨ht.gadget, ht.acked, ht.fresh, ?_, nofun⟩
          rintro w' ⟨⟩
          exact ⟨hlive.ledger, hlive.numbered, hlive.unread, hlive.echoed, nofun,
            fun _ => ⟨hround, hmsgs, hrx, hclosed⟩⟩
  | hashed hround _ _ hlast =>
      cases h
      exact ht.hash hw hnot hround (List.perm_insertionSort _ _) hlast rfl hgadget
        (hledger _ _ rfl)
  | echoed hround hqueue _ =>
      cases h
      exact ht.echo hw hnot hround hqueue rfl nofun (.inr rfl) hgadget (hledger _ _ rfl)
  | verified hround hqueue _ _ =>
      cases h
      refine ht.echo hw hnot hround hqueue rfl ?_ (.inl List.mem_cons_self) hgadget
        (hledger _ _ rfl)
      intro k group echoHash hmem
      cases List.mem_singleton.mp hmem

/-- Something happens to the channels from outside: responses come in,
senders go away. -/
theorem RunLedger.outside {rxClosed : Bool} {responses : Nat → ResponseRx P}
    {arrived : Nat → List (RemoteEcho P)} (ht : RunLedger n t) (hw : t.state = .running w)
    (hclosed : w.rxClosed = true → rxClosed = true)
    (hmore : ∀ respRx, ∃ more, (responses respRx).queue = (w.responses respRx).queue ++ more ∧
      arrived respRx = t.arrived respRx ++ more) :
    RunLedger n
      { t with
          state := .running { w with rxClosed := rxClosed, responses := responses }
          arrived := arrived } := by
  have hlive := ht.live w hw
  refine ⟨ht.gadget, ht.acked, ht.fresh, ?_, nofun⟩
  rintro w' ⟨⟩
  refine ⟨hlive.ledger, hlive.numbered, ?_, ?_, hlive.done, fun hfinished => ?_⟩
  · intro respRx hmem
    obtain ⟨more, hqueue, harrived⟩ := hmore respRx
    show (responses respRx).queue = arrived respRx
    rw [harrived, ← hlive.unread respRx hmem]
    exact hqueue
  · intro k group echoHash respRx hgroup hlast
    obtain ⟨more, hqueue, harrived⟩ := hmore respRx
    show _ ∨ Reading _ arrived k echoHash respRx
    rcases hlive.echoed k group echoHash respRx hgroup hlast with
      ⟨echoHashes, hverified, hpre⟩ | ⟨echoHashes, hround, hread⟩
    · refine .inl ⟨echoHashes, hverified, hpre.trans ⟨more, harrived.symm⟩⟩
    · refine .inr ⟨echoHashes, hround, ?_⟩
      rw [harrived, ← hread, List.append_assoc]
      exact congrArg _ hqueue
  · have hidle := hlive.idle hfinished
    exact ⟨hidle.round, hidle.msgs, hidle.echoRx, hclosed hidle.rxClosed⟩

/-- The future returns. -/
theorem RunLedger.complete {result : Except Error Unit} (ht : RunLedger n t)
    (hw : t.state = .running w) :
    RunLedger n { t with state := w.complete result, completed := some result } := by
  have hlive := ht.live w hw
  cases result with
  | error e => exact ⟨ht.gadget, ht.acked, ht.fresh, nofun, nofun⟩
  | ok u =>
      unfold WrapFuture.complete
      simp only
      split
      · rename_i hfinished
        exact ⟨ht.gadget, ht.acked, ht.fresh, nofun,
          fun _ => hlive.settle (hlive.idle hfinished) rfl rfl rfl⟩
      · refine ⟨ht.gadget, ht.acked, ht.fresh, ?_, nofun⟩
        rintro w' ⟨⟩
        refine ⟨hlive.ledger, hlive.numbered, hlive.unread, hlive.echoed, fun _ => rfl,
          fun hfinished => ?_⟩
        have hidle := hlive.idle hfinished
        exact ⟨hidle.round, hidle.msgs, hidle.echoRx, hidle.rxClosed⟩

/-- Every step keeps the invariant. -/
theorem runLedger_step {t' : WrapRun P ρ κ} {l : FutureLabel P ρ} (ht : RunLedger n t)
    (h : t.step l = some t') : RunLedger n t' := by
  unfold WrapRun.step at h
  cases hw : t.state with
  | returned _ => rw [hw] at h; cases h
  | panicked _ => rw [hw] at h; cases h
  | running w =>
      rw [hw] at h
      obtain ⟨result, hstep, rfl⟩ := Option.map_eq_some_iff.mp h
      cases l with
      | pushIncoming messageId sender payload tx =>
          obtain ⟨hpush, heq⟩ := Option.ite_none_right_eq_some.mp hstep
          cases heq
          exact ht.push hw hpush (Nat.le_refl _) (.inl rfl)
      | pushOutgoing messageId sender payload =>
          obtain ⟨hpush, heq⟩ := Option.ite_none_right_eq_some.mp hstep
          cases heq
          exact ht.push hw hpush (Nat.le_succ _) (.inr ⟨rfl, Nat.lt_succ_self _⟩)
      | dropSender =>
          cases hstep
          rw [List.append_nil]
          exact ht.outside hw (fun _ => rfl) fun _ =>
            ⟨[], (List.append_nil _).symm, (List.append_nil _).symm⟩
      | echoResponse respRx echo =>
          cases hstep
          rw [List.append_nil]
          refine ht.outside hw id fun respRx' => ?_
          -- what has arrived at a receiver grows with its queue
          by_cases hrx : respRx' = respRx
          · subst hrx
            refine ⟨[echo], ?_, Function.update_self ..⟩
            show (Function.update w.responses respRx' _ respRx').queue = _
            rw [Function.update_self]
          · refine ⟨[], ?_, ?_⟩
            · show (Function.update w.responses respRx _ respRx').queue = _
              rw [Function.update_of_ne hrx, List.append_nil]
            · show Function.update t.arrived respRx _ respRx' = _
              rw [Function.update_of_ne hrx, List.append_nil]
      | closeResponses respRx =>
          cases hstep
          rw [List.append_nil]
          refine ht.outside hw id fun respRx' => ⟨[], ?_, (List.append_nil _).symm⟩
          rw [List.append_nil]
          by_cases hrx : respRx' = respRx
          · subst hrx
            show (Function.update w.responses respRx' _ respRx').queue = _
            rw [Function.update_self]
          · show (Function.update w.responses respRx _ respRx').queue = _
            rw [Function.update_of_ne hrx]
      | complete result =>
          obtain ⟨_, heq⟩ := Option.ite_none_left_eq_some.mp hstep
          cases heq
          rw [List.append_nil]
          exact ht.complete hw
      | pollEcho gone =>
          obtain ⟨hnot, heq⟩ := Option.ite_none_left_eq_some.mp hstep
          exact runLedger_pollEcho ht hw (Bool.not_eq_true _ ▸ hnot) heq

end Steps

/-- Nothing has been hashed at the start. -/
theorem runLedger_start (n : Nat) : RunLedger n (WrapRun.start n : WrapRun P ρ κ) := by
  refine ⟨.nil n, nofun, List.nodup_nil, ?_, nofun⟩
  rintro w ⟨⟩
  exact ⟨.new n, nofun, fun _ _ => rfl, nofun, nofun, nofun⟩

section Verified

variable {n : Nat} {t : WrapRun P ρ κ}

omit [Blake2s256] in
/-- Messages of one id, sorted: the hashed group, if they are the same
messages. -/
theorem sortBySender_eq {ms group : List (EchoMessage ρ)} (hperm : ms.Perm group)
    (hsenders : (group.map (·.sender)).Pairwise (· < ·)) : sortBySender ms = group := by
  have hgroup : group.Pairwise (fun a b => a.sender ≤ b.sender) :=
    (List.pairwise_map.mp hsenders).imp Nat.le_of_lt
  have hall : (sortBySender ms).Perm group := (List.perm_insertionSort _ ms).trans hperm
  refine hall.eq_of_pairwise (fun a b ha hb hab hba => ?_) (pairwise_sortBySender ms) hgroup
  -- different messages have different senders
  refine List.inj_on_of_nodup_map (hsenders.imp Nat.ne_of_lt) (hall.subset ha) hb ?_
  exact Nat.le_antisymm hab hba

omit [Blake2s256] in
theorem length_outgoingRxs (ms : List (EchoMessage ρ)) :
    (outgoingRxs ms).length = ms.countP isOutgoing := by
  induction ms with
  | nil => rfl
  | cons m ms ih =>
      rw [outgoingRxs, List.filterMap_cons, List.countP_cons, isOutgoing]
      cases m.response with
      | incoming tx => exact ih
      | outgoing respRx => exact congrArg (· + 1) ih

/-- If no id has two outgoing messages, `Ok` means full verification. -/
theorem fullyVerified_of_settled (ht : RunLedger n t) (hsettled : Settled t)
    (hown : ∀ k, ((enteredIn t.trace).filter (·.messageId = k)).countP isOutgoing ≤ 1) :
    FullyVerified n t := by
  refine ⟨hsettled.completed, fun m hm => ?_⟩
  -- the message is in a hashed group
  have hin : m ∈ hashedIn t.trace := hsettled.conserved.subset (mem_enteredIn.mpr hm)
  obtain ⟨effect, heffect, hmem⟩ := List.mem_flatMap.mp hin
  cases effect with
  | hashed k group echoHash =>
      have hgroup := ht.gadget.hashed k group echoHash heffect
      obtain rfl : m.messageId = k := hgroup.ids m hmem
      have hcount : (enteredIn t.trace).countP
          (fun m' => isOutgoing m' && m'.messageId = m.messageId) ≤ 1 := by
        have hk := hown m.messageId
        rwa [List.countP_filter] at hk
      -- and there is no other group of the id
      have hsame : groupOf t.trace m.messageId = group := by
        refine sortBySender_eq ?_ hgroup.senders
        rw [← ht.gadget.filter_hashedIn hcount heffect]
        exact hsettled.conserved.filter _
      rw [hsame]
      have hone : (outgoingRxs group).length ≤ 1 := by
        rw [length_outgoingRxs, ← ht.gadget.filter_hashedIn hcount heffect, List.countP_filter,
          ← hsettled.conserved.countP_eq]
        exact hcount
      obtain ⟨own, hown, hout⟩ := hgroup.own
      obtain ⟨respRx, hrx⟩ : ∃ respRx, outgoingRxs group = [respRx] := by
        refine List.length_eq_one_iff.mp (Nat.le_antisymm hone ?_)
        rw [length_outgoingRxs]
        exact List.countP_pos_iff.mpr ⟨own, hown, hout⟩
      have hlast : (outgoingRxs group).getLast? = some respRx := by
        rw [hrx]
        rfl
      refine ⟨hgroup.size, hgroup.senders, ?_, ?_⟩
      · rw [← hgroup.hash]
        exact ht.acked _ group echoHash heffect
      · rcases hsettled.echoed _ group echoHash respRx heffect hlast with
          ⟨echoHashes, hverified, hpre⟩ | hfalse
        · obtain ⟨hlen, hall, _⟩ := ht.gadget.verified _ _ _ hverified
          rw [← hgroup.hash]
          exact ⟨respRx, echoHashes, hrx, hpre, hlen, hall⟩
        · exact absurd hfalse id
  | _ => cases hmem

/-- Take any run of `wrap_execution`, whatever the future pushes and
whatever is answered, that has returned `Ok`. Then everything that
entered the gadget has been verified in full if and only if no id has
two outgoing messages. -/
theorem fullyVerified_iff (hreach : Reach WrapRun.step Always (WrapRun.start n) t)
    (hok : t.state = .returned (.ok ())) :
    FullyVerified n t ↔
      ∀ k, ((enteredIn t.trace).filter (·.messageId = k)).countP isOutgoing ≤ 1 := by
  have ht : RunLedger n t :=
    hreach.invariant (runLedger_start n) fun _ _ _ ht _ hstep => runLedger_step ht hstep
  constructor
  · intro h k
    by_contra hmany
    obtain ⟨m, hm, hout⟩ := List.countP_pos_iff.mp (Nat.lt_of_not_le fun hzero => hmany
      (Nat.le_trans hzero (Nat.zero_le _)))
    obtain ⟨hmem, hid⟩ := List.mem_filter.mp hm
    obtain ⟨respRx, _, hrx, _⟩ := (h.verified m (mem_enteredIn.mp hmem)).echoed
    have hone := length_outgoingRxs (groupOf t.trace m.messageId)
    rw [hrx, of_decide_eq_true hid, groupOf, sortBySender,
      (List.perm_insertionSort _ _).countP_eq] at hone
    exact hmany (Nat.le_of_eq hone.symm)
  · exact fullyVerified_of_settled ht (ht.settled hok)

end Verified

end

namespace SecondGroup

open scoped IdentityHash

/-- Two parties' messages of an id, and the echo to the own one. -/
def round (k respRx : Nat) (own remote : Bytes) : List (FutureLabel Nat Nat) :=
  [.pushOutgoing k 1 own, .pushIncoming k 2 remote (10 + respRx),
    .pollEcho noneGone, .pollEcho noneGone, .pollEcho noneGone, .pollEcho noneGone,
    .echoResponse respRx (.ok (2, own ++ remote)), .pollEcho noneGone]

/-- The future ends. -/
def ending : List (FutureLabel Nat Nat) := [.dropSender, .complete (.ok ()), .pollEcho noneGone]

/-- Rounds of different ids. -/
theorem fullyVerified_twoIds :
    ∃ t : WrapRun Nat Nat Unit,
      run WrapRun.step (WrapRun.start 2) (round 0 0 [5] [6] ++ round 1 1 [7] [8] ++ ending)
        = some t ∧
      t.state = .returned (.ok ()) ∧ FullyVerified 2 t := by
  obtain ⟨t, hrun, hok, hentered⟩ : ∃ t : WrapRun Nat Nat Unit,
      run WrapRun.step (WrapRun.start 2) (round 0 0 [5] [6] ++ round 1 1 [7] [8] ++ ending)
        = some t ∧
      t.state = .returned (.ok ()) ∧ enteredIn t.trace =
        [⟨0, 1, [5], .outgoing 0⟩, ⟨0, 2, [6], .incoming 10⟩,
          ⟨1, 1, [7], .outgoing 1⟩, ⟨1, 2, [8], .incoming 11⟩] :=
    ⟨_, rfl, rfl, rfl⟩
  refine ⟨t, hrun, hok, (fullyVerified_iff (reach_of_run _ hrun) hok).mpr fun k => ?_⟩
  rw [hentered]
  -- the ids are zero and one
  match k with
  | 0 => decide
  | 1 => decide
  | k + 2 => simp

/-- After its round, messages of the same id come again. They make a
second group, and the run returns `Ok` all the same. -/
theorem not_fullyVerified_sameId :
    ∃ t : WrapRun Nat Nat Unit,
      run WrapRun.step (WrapRun.start 2) (round 0 0 [5] [6] ++ round 0 1 [7] [8] ++ ending)
        = some t ∧
      t.state = .returned (.ok ()) ∧ ¬ FullyVerified 2 t := by
  refine ⟨_, rfl, rfl, fun h => ?_⟩
  have hsize := (h.verified ⟨0, 1, [5], .outgoing 0⟩ List.mem_cons_self).size
  exact absurd hsize (by decide)

end SecondGroup

end FrostMpcTss.Proofs
