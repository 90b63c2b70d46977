import FrostMpcTss.Lib.Transition
import FrostMpcTss.Proofs.AgentSpec
import FrostMpcTss.Proofs.Echo

/-!
# `FrostMpcTss.Proofs.NoOverflow`: the arithmetic of a session

A computation that may panic is free of arithmetic panics (`NoOverflow`) if
its parts are. For a poll of an execution the parts are the stages, and what
they need is `Guarded`: at least two parties, a position below the top of
`u16`, and messages that name parties. A poll keeps that, if the agent
addresses parties.

The gadget counts its rounds in a `u16`. Every round it verifies takes one of
the own broadcasts (`counted`), and an agent makes few of them. `Bounded`
puts this together for the steps of a session.
-/

set_option autoImplicit false

namespace FrostMpcTss.Proofs

open Lib Network Service FrostMpcTss.Session
open Service.ProtocolExecution Service.EchoGadget

/-- The panics of integer operations, and of a channel without capacity. -/
def isArithmetic : Panic → Bool
  | .subtractOverflow => true
  | .addOverflow => true
  | .zeroCapacity => true
  | _ => false

/-- The computation does not end in such a panic. -/
def NoOverflow {α : Type} (x : Except Panic α) : Prop :=
  ∀ why, x = .error why → isArithmetic why = false

variable {why : Panic}

section Rules

variable {α β : Type}

theorem noOverflow_ok (a : α) : NoOverflow (.ok a) := nofun

theorem noOverflow_error (h : isArithmetic why = false) :
    NoOverflow (.error why : Except Panic α) := by
  rintro _ ⟨⟩
  exact h

/-- Steps without overflow make a sequence without. -/
theorem NoOverflow.bind {x : Except Panic α} {f : α → Except Panic β} (hx : NoOverflow x)
    (hf : ∀ a, NoOverflow (f a)) : NoOverflow (x >>= f) := by
  intro why hwhy
  rcases Except.bind_eq_error.mp hwhy with hx' | ⟨a, _, hf'⟩
  · exact hx why hx'
  · exact hf a why hf'

theorem noOverflow_predUnsigned {a : Nat} (h : 0 < a) : NoOverflow (predUnsigned a) := by
  rw [predUnsigned, if_pos h]
  exact noOverflow_ok _

theorem noOverflow_succU16 {a : Nat} (h : a + 1 < 2 ^ 16) : NoOverflow (succU16 a) := by
  rw [succU16, if_pos h]
  exact noOverflow_ok _

/-- A loop of steps that do not overflow. -/
theorem noOverflow_foldlM {step : β → α → Except Panic β} (h : ∀ b a, NoOverflow (step b a))
    (as : List α) (b : β) : NoOverflow (as.foldlM step b) := by
  induction as generalizing b with
  | nil => exact noOverflow_ok b
  | cons a as ih =>
      rw [List.foldlM_cons]
      exact (h b a).bind ih

end Rules

variable {now : Nat} {turn : AgentTurn}

section Execution

variable {P ρ κ : Type} {st : PollState P ρ κ}

theorem noOverflow_index (p : Peerset P) (k : Nat) : NoOverflow (p.index k) := by
  unfold Peerset.index
  split
  · exact noOverflow_ok _
  · exact noOverflow_error rfl

theorem noOverflow_echoTrySend (st : PollState P ρ κ) (m : EchoMessage ρ) :
    NoOverflow (echoTrySend st m) := by
  unfold echoTrySend
  split
  · exact noOverflow_error rfl
  · exact noOverflow_ok _

theorem noOverflow_protocolTrySend (st : PollState P ρ κ) (req : AgentRequest) :
    NoOverflow (protocolTrySend st req) := by
  intro why hwhy
  rcases protocolTrySend_eq_error.mp hwhy with ⟨_, rfl⟩ | ⟨_, _, rfl⟩
  · rfl
  · rfl

theorem noOverflow_forwardOne (messageId : Nat) (st : PollState P ρ κ) (sender : Nat) :
    NoOverflow (forwardOne messageId st sender) := by
  unfold forwardOne
  split
  · exact noOverflow_error rfl
  · exact (noOverflow_echoTrySend _ _).bind fun st => noOverflow_protocolTrySend st _

/-- The loop only puts messages into channels. -/
theorem noOverflow_forwardLoop (fuel : Nat) (st : PollState P ρ κ) :
    NoOverflow (forwardLoop fuel st) := by
  induction fuel generalizing st with
  | zero => exact noOverflow_ok st
  | succ fuel ih =>
      rw [forwardLoop]
      split
      · exact noOverflow_ok st
      · exact (noOverflow_foldlM (noOverflow_forwardOne _) _ st).bind fun st => ih _

theorem noOverflow_forwardBufferedMessages (st : PollState P ρ κ) :
    NoOverflow (forwardBufferedMessages st) :=
  noOverflow_forwardLoop _ st

/-- What the arithmetic of a poll needs. -/
structure Guarded (s : ProtocolExecution P ρ κ) : Prop where
  two_le : 2 ≤ s.n
  position : s.i + 1 < 2 ^ 16
  recipients : ∀ m ∈ s.fromProtocol, m.recipient ≠ some 0
  senders : ∀ m ∈ s.fromNetwork, m.peerIndex + 1 < 2 ^ 16

/-- The own position and a recipient from one on are all that
`send_outgoing` computes with. -/
theorem noOverflow_sendOutgoing [DecidableEq P] {m : AgentMessage} (hto : m.recipient ≠ some 0)
    (hn : 0 < st.exec.n) (hposition : st.exec.i + 1 < 2 ^ 16) : NoOverflow (sendOutgoing st m) := by
  unfold sendOutgoing
  split
  · rename_i remoteIndex hrecipient
    have hpos : 0 < remoteIndex := by
      rw [Nat.pos_iff_ne_zero]
      rintro rfl
      exact hto hrecipient
    -- the position of the recipient is its number minus one
    exact (noOverflow_predUnsigned hpos).bind fun index =>
      (noOverflow_index _ index).bind fun _ => noOverflow_ok _
  · -- a broadcast makes a response channel for `n - 1` echoes
    exact (noOverflow_predUnsigned hn).bind fun _ =>
      (noOverflow_succU16 hposition).bind fun _ => noOverflow_echoTrySend _ _

/-- The recipient is at least one, and the own index fits a `u16`. -/
theorem Guarded.noOverflow_takeOutgoing [DecidableEq P] (h : Guarded st.exec) :
    NoOverflow (takeOutgoing st) := by
  unfold takeOutgoing
  split
  · exact noOverflow_ok _
  · rename_i m rest hqueue
    have hto : m.recipient ≠ some 0 := h.recipients m (by rw [hqueue]; exact List.mem_cons_self)
    exact noOverflow_sendOutgoing hto (Nat.lt_of_lt_of_le Nat.two_pos h.two_le) h.position

/-- A sender's index is what the intake computes with. -/
theorem noOverflow_takeIncoming {m : IncomingRequest P ρ} (hsender : m.peerIndex + 1 < 2 ^ 16)
    (hposition : st.exec.i + 1 < 2 ^ 16) : NoOverflow (takeIncoming now st m) := by
  have hbuffer : NoOverflow (bufferBroadcast st m) :=
    (noOverflow_succU16 hsender).bind fun _ => noOverflow_ok _
  have hforward : NoOverflow (forwardDirectMessage st m) :=
    (noOverflow_succU16 hsender).bind fun _ =>
      (noOverflow_succU16 hposition).bind fun _ => noOverflow_protocolTrySend _ _
  unfold takeIncoming
  simp only
  split
  · exact hbuffer.bind fun _ => noOverflow_ok _
  · exact hforward.bind fun _ => noOverflow_ok _

/-- The end of a poll computes nothing. -/
theorem noOverflow_finish {x : Except Panic (PollState P ρ κ)} (hx : NoOverflow x)
    (h : finish now turn x = .panic why) : isArithmetic why = false := by
  cases x with
  | error why' =>
      cases h
      exact hx why rfl
  | ok st =>
      -- behind the channels there is no arithmetic left, only a missing result
      have hcompletes := completes_completeOrPollAgent now turn st
      simp only [finish] at h
      rw [h] at hcompletes
      generalize hpoll : (ExecPoll.panic why : ExecPoll P ρ κ) = poll at hcompletes
      cases hcompletes with
      | @reports _ r _ _ _ => cases r <;> cases hpoll
      | missing _ _ =>
          cases hpoll
          rfl
      | waits _ _ => cases hpoll
      | agent _ _ => cases hpoll
      | idle _ _ => cases hpoll

/-- No poll of a guarded execution ends in an arithmetic panic. -/
theorem Guarded.noOverflow_poll [DecidableEq P] {s : ProtocolExecution P ρ κ} (h : Guarded s)
    {echoTx : List (EchoMessage ρ)} (hpoll : s.poll echoTx now turn = .panic why) :
    isArithmetic why = false := by
  have hout : NoOverflow (takeOutgoing { exec := s, echoTx := echoTx, effects := [] }) :=
    Guarded.noOverflow_takeOutgoing h
  unfold ProtocolExecution.poll at hpoll
  cases htake : takeOutgoing { exec := s, echoTx := echoTx, effects := [] } with
  | error why' =>
      rw [htake] at hpoll
      cases hpoll
      exact hout why htake
  | ok st =>
      rw [htake] at hpoll
      have hpoll : pollNetwork now turn st = .panic why := hpoll
      have htakes := takeOutgoing_eq_ok.mp htake
      have hqueue : st.exec.fromNetwork = s.fromNetwork := fromNetwork_takesOutgoing htakes
      have hposition : st.exec.i + 1 < 2 ^ 16 := by
        rw [(frame_takesOutgoing now htakes).i]
        exact h.position
      unfold pollNetwork at hpoll
      cases hnet : st.exec.fromNetwork with
      | nil =>
          simp only [hnet] at hpoll
          exact noOverflow_finish (noOverflow_forwardBufferedMessages st) hpoll
      | cons m rest =>
          have hsender : m.peerIndex + 1 < 2 ^ 16 :=
            h.senders m (by rw [← hqueue, hnet]; exact List.mem_cons_self)
          simp only [hnet] at hpoll
          split at hpoll
          · have hin : NoOverflow (takeIncoming now (withoutHead st) m) :=
              noOverflow_takeIncoming hsender hposition
            exact noOverflow_finish (hin.bind noOverflow_forwardBufferedMessages) hpoll
          · cases hpoll

end Execution

section Broadcasts

variable {P ρ κ : Type} {s : ProtocolExecution P ρ κ} {echoTx : List (EchoMessage ρ)}
  {st : PollState P ρ κ}

/-- The own messages in a list of the gadget. -/
def outgoings (ms : List (EchoMessage ρ)) : Nat := ms.countP isOutgoing

theorem outgoings_append (ms ms' : List (EchoMessage ρ)) :
    outgoings (ms ++ ms') = outgoings ms + outgoings ms' :=
  List.countP_append

theorem outgoings_cons (m : EchoMessage ρ) (ms : List (EchoMessage ρ)) :
    outgoings (m :: ms) = outgoings [m] + outgoings ms :=
  outgoings_append [m] ms

/-- A round of the other parties has no own message. -/
theorem outgoings_incoming (messageId : Nat) (round : List (Nat × IncomingRequest P ρ)) :
    outgoings (round.map (incomingEcho messageId)) = 0 := by
  rw [outgoings, List.countP_eq_zero]
  intro m hm
  obtain ⟨r, _, rfl⟩ := List.mem_map.mp hm
  exact Bool.false_ne_true

/-- The queues of the agent and of the gadget before the agent is polled:
the message taken has moved on. -/
structure Moved (s : ProtocolExecution P ρ κ) (echoTx : List (EchoMessage ρ))
    (st : PollState P ρ κ) : Prop where
  fromProtocol : st.exec.fromProtocol = s.fromProtocol.tail
  nextOutgoing : st.exec.nextOutgoingBroadcastId
    = s.nextOutgoingBroadcastId + broadcasts (s.fromProtocol.take 1)
  outgoings : outgoings st.echoTx = outgoings echoTx + broadcasts (s.fromProtocol.take 1)

/-- One message of the agent moves into the channel. -/
theorem moved_takesOutgoing [DecidableEq P]
    (h : TakesOutgoing { exec := s, echoTx := echoTx, effects := [] } st) : Moved s echoTx st := by
  obtain ⟨hfrom, hnext, -⟩ := taken_takesOutgoing h
  refine ⟨hfrom, hnext, ?_⟩
  cases h with
  | nothing hqueue =>
      have hqueue : s.fromProtocol = [] := hqueue
      rw [hqueue]
      rfl
  | @direct m rest k peer hqueue hto _ =>
      have hqueue : s.fromProtocol = m :: rest := hqueue
      rw [hqueue]
      simp [sentDirect, broadcasts, hto]
  | @broadcast m rest hqueue hto _ _ _ =>
      have hqueue : s.fromProtocol = m :: rest := hqueue
      have hone : broadcasts (List.take 1 (m :: rest)) = 1 := by simp [broadcasts, hto]
      rw [hqueue, hone]
      exact outgoings_append echoTx [outgoingEcho s m]

theorem Moved.restartQuietPeriod (h : Moved s echoTx st) :
    Moved s echoTx (restartQuietPeriod now st) := by
  unfold ProtocolExecution.restartQuietPeriod
  split
  · exact ⟨h.fromProtocol, h.nextOutgoing, h.outgoings⟩
  · exact h

/-- The intake moves none of the own messages. -/
theorem Moved.intake {st' : PollState P ρ κ} (h : Moved s echoTx st) (hintake : Intake now st st') :
    Moved s echoTx st' := by
  cases hintake with
  | nothing _ => exact h
  | message _ _ htakes =>
      cases htakes with
      | broadcast _ _ =>
          refine Moved.restartQuietPeriod ?_
          exact ⟨h.fromProtocol, h.nextOutgoing, h.outgoings⟩
      | direct _ _ _ _ _ =>
          refine Moved.restartQuietPeriod ?_
          exact ⟨h.fromProtocol, h.nextOutgoing, h.outgoings⟩

theorem Moved.forwardRound (h : Moved s echoTx st) : Moved s echoTx (forwardRound st) := by
  refine ⟨h.fromProtocol, h.nextOutgoing, ?_⟩
  show Proofs.outgoings (st.echoTx ++ (readyRound st.exec).map _) = _
  rw [outgoings_append, outgoings_incoming, Nat.add_zero]
  exact h.outgoings

/-- What a poll that does not return leaves: the queues have moved on, and
the agent's turn may have been added. -/
theorem moved_of_pending [DecidableEq P] (hn : 2 ≤ s.n) (h : s.poll echoTx now turn = .pending st) :
    st.exec.nextOutgoingBroadcastId
        = s.nextOutgoingBroadcastId + broadcasts (s.fromProtocol.take 1) ∧
      outgoings st.echoTx = outgoings echoTx + broadcasts (s.fromProtocol.take 1) ∧
      (st.exec.fromProtocol = s.fromProtocol.tail ∨
        st.exec.fromProtocol = s.fromProtocol.tail ++ turn.sent) := by
  cases pends_of_pending hn h with
  | refuses hout _ _ =>
      have hmoved := moved_takesOutgoing hout
      exact ⟨hmoved.nextOutgoing, hmoved.outgoings, .inl hmoved.fromProtocol⟩
  | forwards hout hintake hfwd hst =>
      have hmoved := forwards_induction (Moved s echoTx) hfwd
        ((moved_takesOutgoing hout).intake hintake) fun _ _ hst => hst.forwardRound
      rcases hst with rfl | rfl
      · exact ⟨hmoved.nextOutgoing, hmoved.outgoings, .inl hmoved.fromProtocol⟩
      · rw [← hmoved.fromProtocol]
        unfold pollAgent
        cases turn.result <;> exact ⟨hmoved.nextOutgoing, hmoved.outgoings, .inr rfl⟩

/-- A poll keeps the party's place. -/
theorem identity_of_pending [DecidableEq P] (hn : 2 ≤ s.n)
    (h : s.poll echoTx now turn = .pending st) :
    st.exec.n = s.n ∧ st.exec.i = s.i ∧ st.exec.peerset = s.peerset := by
  have hframed : ∀ st st' : PollState P ρ κ, Frame now st st' →
      st.exec.n = s.n ∧ st.exec.i = s.i ∧ st.exec.peerset = s.peerset →
      st'.exec.n = s.n ∧ st'.exec.i = s.i ∧ st'.exec.peerset = s.peerset :=
    fun st st' hframe hst =>
      ⟨hframe.n.trans hst.1, hframe.i.trans hst.2.1, hframe.peerset.trans hst.2.2⟩
  refine pending_induction
    (fun st => st.exec.n = s.n ∧ st.exec.i = s.i ∧ st.exec.peerset = s.peerset) hn h
    ?_ ?_ ?_ ?_ ?_
  · exact fun st hout => hframed _ st (frame_takesOutgoing now hout) ⟨rfl, rfl, rfl⟩
  · exact fun st m _ hst => hst
  · exact fun st st' hintake => hframed st st' (frame_intake hintake)
  · exact fun st _ => hframed st _ (frame_forwardRound now st)
  · intro st hst
    unfold pollAgent
    cases turn.result <;> exact hst

/-- A poll keeps what the arithmetic needs. -/
theorem Guarded.pending [DecidableEq P] (h : Guarded s)
    (hturn : ∀ m ∈ turn.sent, m.recipient ≠ some 0) (hpoll : s.poll echoTx now turn = .pending st) :
    Guarded st.exec := by
  obtain ⟨hn, hi, -⟩ := identity_of_pending h.two_le hpoll
  refine ⟨hn ▸ h.two_le, hi ▸ h.position, ?_, ?_⟩
  · intro m hm
    rcases (moved_of_pending h.two_le hpoll).2.2 with hfrom | hfrom
    · rw [hfrom] at hm
      exact h.recipients m (List.mem_of_mem_tail hm)
    · rw [hfrom, List.mem_append] at hm
      cases hm with
      | inl hm => exact h.recipients m (List.mem_of_mem_tail hm)
      | inr hm => exact hturn m hm
  · intro m hm
    rw [fromNetwork_of_pending h.two_le hpoll] at hm
    exact h.senders m (List.mem_of_mem_tail hm)

end Broadcasts

section Gadget

variable {P ρ : Type}

/-- The own messages a suspended round holds. -/
def outgoingsOf : Round P ρ → Nat
  | .collect => 0
  | .gather _ group => outgoings group
  | .responses _ _ _ _ => 1

/-- The own broadcasts that have come to the gadget: those of the rounds it
has verified, and those it has not. -/
def counted (g : EchoGadget P ρ) (rx : List (EchoMessage ρ)) : Nat :=
  g.r + outgoings rx + outgoings g.msgs + outgoingsOf g.round

/-- An outgoing message is found in the group by its response channel. -/
theorem outgoings_pos {group : List (EchoMessage ρ)} {respRx : Nat}
    (h : (outgoingRxs (sortBySender group)).getLast? = some respRx) : 0 < outgoings group := by
  have hmem : respRx ∈ outgoingRxs (sortBySender group) := List.mem_of_getLast? h
  obtain ⟨m, hm, hresponse⟩ := List.mem_filterMap.mp hmem
  rw [outgoings, List.countP_pos_iff]
  refine ⟨m, mem_sortBySender.mp hm, ?_⟩
  unfold isOutgoing
  split
  · rename_i hin
    rw [hin] at hresponse
    cases hresponse
  · rfl

/-- The heap of one id is taken out. -/
theorem outgoings_group (ms : List (EchoMessage ρ)) (messageId : Nat) :
    outgoings (ms.filter (·.messageId ≠ messageId)) + outgoings (group ms messageId)
      = outgoings ms := by
  have hsplit := List.countP_eq_countP_filter_add ms isOutgoing (·.messageId = messageId)
  simp only [← decide_not] at hsplit
  rw [Nat.add_comm]
  exact hsplit.symm

/-- What a step of `proceed_round` makes of the count. -/
def StepKeeps (g : EchoGadget P ρ) (rx : List (EchoMessage ρ)) : Step P ρ → Prop
  | .took g' rx' => g'.n = g.n ∧ counted g' rx' = counted g rx
  | .hashed g' _ _ _ _ => g'.n = g.n ∧ counted g' rx ≤ counted g rx
  | .echoed g' _ => g'.n = g.n ∧ counted g' rx = counted g rx
  | .verified g' _ _ _ _ => g'.n = g.n ∧ counted g' rx = counted g rx
  | _ => True

/-- A step of the gadget counts no message twice. -/
theorem stepKeeps_of_steps [Blake2s256] {g : EchoGadget P ρ} {rx : List (EchoMessage ρ)}
    {rxClosed : Bool} {responses : Nat → ResponseRx P} {gone : ρ → Bool} {result : Step P ρ}
    (h : Steps g rx rxClosed responses gone result) : StepKeeps g rx result := by
  cases h with
  | pending => trivial
  | @ready messageId hround _ =>
      -- the heap moves from `msgs` into the round
      have hsplit := outgoings_group g.msgs messageId
      refine ⟨rfl, ?_⟩
      simp only [counted, outgoingsOf, hround]
      omega
  | @collects msg rest hround hrx =>
      have hcons := outgoings_cons msg rest
      refine ⟨rfl, ?_⟩
      simp only [counted, outgoingsOf, hround, hrx, outgoings_append]
      omega
  | @gathers _ _ msg rest hround hrx _ =>
      have hcons := outgoings_cons msg rest
      refine ⟨rfl, ?_⟩
      simp only [counted, outgoingsOf, hround, hrx, outgoings_append]
      omega
  | @setsAside _ _ msg rest hround hrx =>
      have hcons := outgoings_cons msg rest
      refine ⟨rfl, ?_⟩
      simp only [counted, outgoingsOf, hround, hrx, outgoings_append]
      omega
  | hashed hround _ _ hlast =>
      -- one own message of the group is waited for, and any others are dropped
      have hpos := outgoings_pos hlast
      refine ⟨rfl, ?_⟩
      simp only [counted, outgoingsOf, hround]
      omega
  | echoed hround _ _ =>
      refine ⟨rfl, ?_⟩
      simp only [counted, outgoingsOf, hround]
  | verified hround _ _ _ =>
      refine ⟨rfl, ?_⟩
      simp only [counted, outgoingsOf, hround]
      omega
  | finished _ _ _ _ => trivial
  | failed => trivial
  | panic _ => trivial

/-- The gadget's own arithmetic. A round that waits for its echoes has an own
broadcast. -/
theorem noOverflow_gadget [Blake2s256] {g : EchoGadget P ρ} {rx : List (EchoMessage ρ)}
    {rxClosed : Bool} {responses : Nat → ResponseRx P} (hn : 0 < g.n)
    (hcounted : counted g rx < 2 ^ 16) {gone : ρ → Bool}
    (h : g.step rx rxClosed responses gone = .panic why) : isArithmetic why = false := by
  have hsteps := steps_step g rx rxClosed responses gone
  rw [h] at hsteps
  cases hsteps with
  | panic hpanics =>
      cases hpanics with
      | noOwn _ _ _ => rfl
      | unacknowledged _ _ _ => rfl
      | terminated _ _ _ => rfl
      | noParty _ _ hzero => omega
      | rounds hround _ _ hfull =>
          -- the round itself holds an own broadcast that `r` does not count yet
          simp only [counted, outgoingsOf, hround] at hcounted
          omega

end Gadget

section Bounds

variable {P ρ κ : Type} {s : ProtocolExecution P ρ κ} {w : WrapExecution P ρ κ}

/-- An execution of `n` parties whose gadget has seen `held` own broadcasts.
The agent may make `budget` more of them, and `limit` at most in all. -/
structure BoundedExecution (limit budget n held : Nat) (s : ProtocolExecution P ρ κ) : Prop where
  completion : Completion s
  guarded : Guarded s
  parties : s.n = n
  peerset : asU16 s.peerset.size = n
  held_le : held ≤ s.nextOutgoingBroadcastId
  budget_le : s.nextOutgoingBroadcastId + broadcasts s.fromProtocol + budget ≤ limit

/-- A session within these bounds. -/
structure Bounded (limit budget n : Nat) (w : WrapExecution P ρ κ) : Prop where
  parties : w.echo.n = n
  counted_le : counted w.echo w.echoRx ≤ limit
  execution : ∀ s, w.computation = some s →
    BoundedExecution limit budget n (counted w.echo w.echoRx) s

/-- The session, running or over: if it panicked, then not in an integer
operation. -/
def StateBounded (limit budget n : Nat) : WrapState P ρ κ → Prop
  | .running w => Bounded limit budget n w
  | .returned _ => True
  | .panicked why => isArithmetic why = false

variable {limit budget n : Nat}

theorem BoundedExecution.mono {held held' : Nat} (h : BoundedExecution limit budget n held s)
    (hheld : held' ≤ held) : BoundedExecution limit budget n held' s :=
  { h with held_le := Nat.le_trans hheld h.held_le }

/-- The execution goes on as it is, and the count does not grow. -/
theorem Bounded.of_counted_le {w' : WrapExecution P ρ κ} (h : Bounded limit budget n w)
    (hparties : w'.echo.n = w.echo.n) (hcomputation : w'.computation = w.computation)
    (hcounted : counted w'.echo w'.echoRx ≤ counted w.echo w.echoRx) :
    Bounded limit budget n w' := by
  refine ⟨hparties.trans h.parties, Nat.le_trans hcounted h.counted_le, fun s hs => ?_⟩
  rw [hcomputation] at hs
  exact (h.execution s hs).mono hcounted

/-- A message enters the execution's queue. -/
theorem Bounded.deliver {m : IncomingRequest P ρ} (h : Bounded limit budget n w)
    (hs : w.computation = some s) (hm : m.peerIndex + 1 < 2 ^ 16) :
    Bounded limit budget n
      { w with computation := some { s with fromNetwork := s.fromNetwork ++ [m] } } := by
  have hexec := h.execution s hs
  refine ⟨h.parties, h.counted_le, ?_⟩
  rintro _ ⟨⟩
  refine ⟨⟨hexec.completion.two_le, hexec.completion.agentFuture,
      hexec.completion.completionDelay⟩,
    ⟨hexec.guarded.two_le, hexec.guarded.position, hexec.guarded.recipients, ?_⟩,
    hexec.parties, hexec.peerset, hexec.held_le, hexec.budget_le⟩
  intro m' hm'
  rcases List.mem_append.mp hm' with hm' | hm'
  · exact hexec.guarded.senders m' hm'
  · rw [List.mem_singleton.mp hm']
    exact hm

/-- The execution is polled. The agent pays for its broadcasts. -/
theorem bounded_pollComputation [DecidableEq P] {budget' : Nat} (h : Bounded limit budget n w)
    (hs : w.computation = some s) (hrecipients : ∀ m ∈ turn.sent, m.recipient ≠ some 0)
    (hbudget : budget' + broadcasts turn.sent ≤ budget) :
    StateBounded limit budget' n (w.pollComputation s now turn).1 := by
  have hexec := h.execution s hs
  have hsplit := broadcasts_take_tail s.fromProtocol
  have hheld := hexec.held_le
  have hpaid := hexec.budget_le
  unfold WrapExecution.pollComputation
  cases hpoll : s.poll w.echoRx now turn with
  | pending st =>
      obtain ⟨hnext, houtgoings, hfrom⟩ := moved_of_pending hexec.guarded.two_le hpoll
      obtain ⟨hn, hi, hpeerset⟩ := identity_of_pending hexec.guarded.two_le hpoll
      -- a broadcast that is taken moves from the agent's queue to the gadget's
      have hcounted : counted w.echo st.echoTx
          = counted w.echo w.echoRx + broadcasts (s.fromProtocol.take 1) := by
        simp only [counted, houtgoings]
        omega
      have hqueue : broadcasts st.exec.fromProtocol
          ≤ broadcasts s.fromProtocol.tail + broadcasts turn.sent := by
        rcases hfrom with hfrom | hfrom
        · rw [hfrom]
          exact Nat.le_add_right _ _
        · rw [hfrom, broadcasts_append]
      refine ⟨h.parties, ?_, ?_⟩
      · show counted w.echo st.echoTx ≤ limit
        omega
      · rintro _ ⟨⟩
        refine ⟨(completion_poll hexec.completion hpoll).1,
          hexec.guarded.pending hrecipients hpoll, hn.trans hexec.parties, ?_, ?_, ?_⟩
        · rw [hpeerset]
          exact hexec.peerset
        · show counted w.echo st.echoTx ≤ _
          omega
        · omega
  | ready result echoTx' effects =>
      -- the execution is gone, and the gadget has what it took in its last poll
      obtain ⟨r, _, st, _, _, _, _, hout, hreport⟩ := ready_cases hexec.completion hpoll
      obtain ⟨rfl, -⟩ := report_effects hreport
      have houtgoings := (moved_takesOutgoing hout).outgoings
      have hcounted : counted w.echo st.echoTx ≤ limit := by
        simp only [counted] at hheld ⊢
        omega
      cases result with
      | error e => trivial
      | ok u =>
          simp only
          split
          · trivial
          · exact ⟨h.parties, hcounted, nofun⟩
  | panic why => exact hexec.guarded.noOverflow_poll hpoll

/-- The gadget runs. -/
theorem bounded_pollEcho [Blake2s256] {state : WrapState P ρ κ} {effects : List (Effect P ρ κ)}
    (h : Bounded limit budget n w) (hn : 0 < n) (hlimit : limit < 2 ^ 16) {gone : ρ → Bool}
    (hstep : w.pollEcho gone = some (state, effects)) : StateBounded limit budget n state := by
  have hkeeps := stepKeeps_of_steps
    (steps_step w.echo w.echoRx w.computation.isNone w.responses gone)
  have hpositive : 0 < w.echo.n := by
    rw [h.parties]
    exact hn
  have hsmall : counted w.echo w.echoRx < 2 ^ 16 := Nat.lt_of_le_of_lt h.counted_le hlimit
  unfold WrapExecution.pollEcho at hstep
  cases hgadget : w.echo.step w.echoRx w.computation.isNone w.responses gone with
  | pending => rw [hgadget] at hstep; cases hstep
  | took g rx =>
      rw [hgadget] at hstep hkeeps
      cases hstep
      exact h.of_counted_le hkeeps.1 rfl (Nat.le_of_eq hkeeps.2)
  | hashed g messageId group echoHash acks =>
      rw [hgadget] at hstep hkeeps
      cases hstep
      exact h.of_counted_le hkeeps.1 rfl hkeeps.2
  | echoed g respRx =>
      rw [hgadget] at hstep hkeeps
      cases hstep
      exact h.of_counted_le hkeeps.1 rfl (Nat.le_of_eq hkeeps.2)
  | verified g messageId echoHash respRx echoHashes =>
      rw [hgadget] at hstep hkeeps
      cases hstep
      exact h.of_counted_le hkeeps.1 rfl (Nat.le_of_eq hkeeps.2)
  | finished =>
      rw [hgadget] at hstep
      simp only at hstep
      split at hstep
      · cases hstep
        trivial
      · cases hstep
        exact h.of_counted_le rfl rfl (Nat.le_refl _)
  | failed e =>
      rw [hgadget] at hstep
      cases hstep
      trivial
  | panic why =>
      rw [hgadget] at hstep
      cases hstep
      exact noOverflow_gadget hpositive hsmall hgadget

/-- A session starts within its bounds. -/
theorem bounded_new [DecidableEq P] (sessionId : SessionId) (protocolId : Nat)
    (peerset : Peerset P) (pendingResponse : Option κ)
    (hlocal : peerset.localPeerId ∈ peerset.peers) (hsize : peerset.size = n) (htwo : 2 ≤ n)
    (hsmall : n < 2 ^ 16) (hbudget : budget ≤ limit) :
    ∃ w : WrapExecution P ρ κ,
      WrapExecution.new n sessionId protocolId peerset pendingResponse = .ok w ∧
      Bounded limit budget n w := by
  have hu16 : asU16 peerset.size = n := by
    rw [hsize]
    exact Nat.mod_eq_of_lt hsmall
  obtain ⟨s, hs, hnew⟩ := new_eq_ok (ρ := ρ) sessionId protocolId peerset pendingResponse hlocal
    (by rw [hu16]; exact htwo)
  have hposition : s.i + 1 < 2 ^ 16 := by
    have hindex := List.idxOf_lt_length_of_mem hlocal
    have hlength : peerset.peers.length = n := hsize
    rw [hnew.i_eq, asU16, Nat.mod_eq_of_lt (by omega)]
    omega
  unfold WrapExecution.new
  rw [hs]
  refine ⟨_, rfl, rfl, Nat.zero_le _, ?_⟩
  rintro _ ⟨⟩
  refine ⟨(completion_new hs).1, ⟨?_, hposition, ?_, ?_⟩, hnew.n_eq.trans hu16, ?_,
    Nat.zero_le _, ?_⟩
  · rw [hnew.n_eq, hu16]
    exact htwo
  · rw [hnew.fromProtocol_eq]
    nofun
  · rw [hnew.fromNetwork_eq]
    nofun
  · rw [hnew.peerset_eq]
    exact hu16
  · rw [hnew.nextOutgoing_eq, hnew.fromProtocol_eq]
    show 0 + 0 + budget ≤ limit
    omega

variable [DecidableEq P] [Blake2s256] {session session' : Session P ρ κ}

/-- A step in which nothing is delivered and the execution is not polled. -/
theorem stateBounded_quiet {l : WrapLabel P ρ} (hn : 0 < n) (hlimit : limit < 2 ^ 16)
    (h : StateBounded limit budget n session.state) (hdeliver : ∀ m, l ≠ .deliver m)
    (hpoll : ∀ now turn, l ≠ .pollComputation now turn) (hstep : session.step l = some session') :
    StateBounded limit budget n session'.state := by
  obtain ⟨w, state, effects, hstate, hresult, rfl⟩ := Session.step_eq_some.mp hstep
  rw [hstate] at h
  have h : Bounded limit budget n w := h
  cases l with
  | deliver m => exact absurd rfl (hdeliver m)
  | pollComputation now turn => exact absurd rfl (hpoll now turn)
  | echoResponse respRx echo =>
      cases hresult
      exact h.of_counted_le rfl rfl (Nat.le_refl _)
  | closeResponses respRx =>
      cases hresult
      exact h.of_counted_le rfl rfl (Nat.le_refl _)
  | pollEcho gone =>
      simp only [WrapExecution.step] at hresult
      split at hresult
      · cases hresult
      · exact bounded_pollEcho h hn hlimit hresult

/-- Messages of parties are delivered. -/
theorem stateBounded_deliver {feed : List (IncomingRequest P ρ)}
    (hfeed : ∀ m ∈ feed, m.peerIndex + 1 < 2 ^ 16)
    (h : StateBounded limit budget n session.state)
    (hrun : run Session.step session (feed.map .deliver) = some session') :
    StateBounded limit budget n session'.state := by
  induction feed generalizing session with
  | nil =>
      cases hrun
      exact h
  | cons m feed ih =>
      obtain ⟨session₁, hstep, hrun⟩ := Option.bind_eq_some_iff.mp hrun
      refine ih (fun m' hm' => hfeed m' (List.mem_cons_of_mem _ hm')) ?_ hrun
      obtain ⟨w, state, effects, hstate, hresult, rfl⟩ := Session.step_eq_some.mp hstep
      obtain ⟨s, hs, heq⟩ := Option.map_eq_some_iff.mp hresult
      cases heq
      rw [hstate] at h
      exact Bounded.deliver h hs (hfeed m List.mem_cons_self)

/-- The execution is polled with a turn that the agent pays for. -/
theorem stateBounded_poll {budget' : Nat} (h : StateBounded limit budget n session.state)
    (hrecipients : ∀ m ∈ turn.sent, m.recipient ≠ some 0)
    (hbudget : budget' + broadcasts turn.sent ≤ budget)
    (hstep : session.step (.pollComputation now turn) = some session') :
    StateBounded limit budget' n session'.state := by
  obtain ⟨w, state, effects, hstate, hresult, rfl⟩ := Session.step_eq_some.mp hstep
  obtain ⟨s, hs, heq⟩ := Option.map_eq_some_iff.mp hresult
  rw [hstate] at h
  have hs := (Option.filter_eq_some_iff.mp hs).1
  have hbounded : StateBounded limit budget' n (w.pollComputation s now turn).1 :=
    bounded_pollComputation h hs hrecipients hbudget
  rw [heq] at hbounded
  exact hbounded

end Bounds

end FrostMpcTss.Proofs
