import FrostMpcTss.Proofs.GadgetLedger

/-!
# `FrostMpcTss.Proofs.Ledger`: what a session's trace accounts for

`ExecLedger` relates the execution to what it has put into the echo
channel. Own broadcasts carry increasing ids, and everything remote
goes back to a message that was delivered. `ExecTrace` is what the
trace alone shows of this, also after the execution has returned.

`SessionLedger` joins it with the gadget's ledger and with the echoes:
those that arrived for a broadcast are those of its verified round,
those collected so far and those still queued, in this order. Every
step of a session keeps it (`sessionLedger_step`).

`D` stands for what is known of delivered messages, and `arrived` for
the echoes that have arrived.
-/

set_option autoImplicit false

namespace FrostMpcTss.Proofs

open Lib Network Service
open Service.ProtocolExecution

variable {i : Nat}

section Exec

variable {P ρ κ : Type} {trace effects : List (Effect P ρ κ)} {D : IncomingRequest P ρ → Prop}
  {s : ProtocolExecution P ρ κ} {st : PollState P ρ κ}

/-- An own broadcast that entered the echo channel. -/
def OwnBroadcast (trace : List (Effect P ρ κ)) (i : Nat) (m : EchoMessage ρ) : Prop :=
  m.response = .outgoing m.messageId ∧ m.sender = i + 1 ∧
    ∃ peers, .multicast m.messageId m.payload peers ∈ trace

/-- A delivered broadcast that entered the echo channel. -/
def RemoteBroadcast (D : IncomingRequest P ρ → Prop) (m : EchoMessage ρ) : Prop :=
  ∃ req, D req ∧ req.isBroadcast = true ∧
    m = incomingEcho req.context.messageId (req.peerIndex + 1, req)

/-- The number of own broadcasts that entered under an id. -/
def ownCount (trace : List (Effect P ρ κ)) (k : Nat) : Nat :=
  (enteredIn trace).countP fun m => EchoGadget.isOutgoing m && m.messageId = k

/-- The handle belongs to a delivered direct message. -/
def DirectAck (D : IncomingRequest P ρ → Prop) (tx : ρ) : Prop :=
  ∃ req, D req ∧ req.isBroadcast = false ∧ req.pendingResponse = tx

/-- The handle belongs to a message of a group with this hash. -/
def EchoAck (trace : List (Effect P ρ κ)) (tx : ρ) (echoHash : Bytes) : Prop :=
  ∃ k group, .hashed k group echoHash ∈ trace ∧ tx ∈ incomingTxs group

/-- What the trace shows of the execution. -/
structure ExecTrace (D : IncomingRequest P ρ → Prop) (i : Nat) (trace : List (Effect P ρ κ)) :
    Prop where
  sent_unique : ∀ k body peers body' peers', .multicast k body peers ∈ trace →
    .multicast k body' peers' ∈ trace → body = body'
  entered : ∀ m, .entered m ∈ trace → OwnBroadcast trace i m ∨ RemoteBroadcast D m
  own_le : ∀ k, ownCount trace k ≤ 1
  acked : ∀ tx echoHash, .respond tx (.ok echoHash) ∈ trace →
    DirectAck D tx ∨ EchoAck trace tx echoHash

/-- What the buffer of broadcasts holds. -/
def Buffered (D : IncomingRequest P ρ → Prop) (pending : PendingIncoming P ρ) : Prop :=
  ∀ key m, pending[key]? = some m →
    D m ∧ m.isBroadcast = true ∧ key = (m.peerIndex + 1, m.context.messageId)

/-- What a running execution holds, against the trace. -/
structure ExecLedger (D : IncomingRequest P ρ → Prop) (i : Nat) (trace : List (Effect P ρ κ))
    (s : ProtocolExecution P ρ κ) : Prop extends ExecTrace D i trace where
  index : s.i = i
  queued : ∀ m ∈ s.fromNetwork, D m
  buffered : Buffered D s.pendingIncoming
  sent_lt : ∀ k body peers, .multicast k body peers ∈ trace → k < s.nextOutgoingBroadcastId
  own_eq_zero : ∀ k, s.nextOutgoingBroadcastId ≤ k → ownCount trace k = 0

/-- Effects that send and enter nothing, and acknowledge rightly. -/
structure Quiet (D : IncomingRequest P ρ → Prop) (trace effects : List (Effect P ρ κ)) :
    Prop where
  entered : enteredIn effects = []
  multicast : ∀ k body peers, .multicast k body peers ∉ effects
  acked : ∀ tx echoHash, .respond tx (.ok echoHash) ∈ effects →
    DirectAck D tx ∨ EchoAck (trace ++ effects) tx echoHash

theorem Quiet.nil (D : IncomingRequest P ρ → Prop) (trace : List (Effect P ρ κ)) :
    Quiet D trace [] :=
  ⟨rfl, nofun, nofun⟩

theorem OwnBroadcast.append {m : EchoMessage ρ} (h : OwnBroadcast trace i m)
    (effects : List (Effect P ρ κ)) : OwnBroadcast (trace ++ effects) i m := by
  obtain ⟨hresp, hsender, peers, hmem⟩ := h
  exact ⟨hresp, hsender, peers, List.mem_append_left _ hmem⟩

theorem EchoAck.append {tx : ρ} {echoHash : Bytes} (h : EchoAck trace tx echoHash)
    (effects : List (Effect P ρ κ)) : EchoAck (trace ++ effects) tx echoHash := by
  obtain ⟨k, group, hmem, htx⟩ := h
  exact ⟨k, group, List.mem_append_left _ hmem, htx⟩

theorem ownCount_append (trace effects : List (Effect P ρ κ)) (k : Nat) :
    ownCount (trace ++ effects) k = ownCount trace k + ownCount effects k := by
  unfold ownCount
  rw [enteredIn_append, List.countP_append]

theorem Quiet.ownCount_eq (h : Quiet D trace effects) (k : Nat) :
    ownCount (trace ++ effects) k = ownCount trace k := by
  rw [ownCount_append, ownCount, ownCount, h.entered, List.countP_nil, Nat.add_zero]

/-- Quiet effects send no broadcast. -/
theorem Quiet.mem_multicast (h : Quiet D trace effects) {k : Nat} {body : Bytes} {peers : List P}
    (hmem : .multicast k body peers ∈ trace ++ effects) : .multicast k body peers ∈ trace :=
  (List.mem_append.mp hmem).resolve_right (h.multicast k body peers)

/-- Quiet effects keep the trace in order. -/
theorem ExecTrace.append (h : ExecTrace D i trace) (hquiet : Quiet D trace effects) :
    ExecTrace D i (trace ++ effects) where
  sent_unique k body peers body' peers' hmem hmem' :=
    h.sent_unique k body peers body' peers' (hquiet.mem_multicast hmem)
      (hquiet.mem_multicast hmem')
  entered m hm := by
    rcases List.mem_append.mp hm with hm | hm
    · exact (h.entered m hm).imp_left fun hown => hown.append effects
    · rw [← mem_enteredIn, hquiet.entered] at hm
      cases hm
  own_le k := by
    rw [hquiet.ownCount_eq]
    exact h.own_le k
  acked tx echoHash hmem := by
    rcases List.mem_append.mp hmem with hmem | hmem
    · exact (h.acked tx echoHash hmem).imp_right fun hack => hack.append effects
    · exact hquiet.acked tx echoHash hmem

/-- Quiet effects, and a state that keeps what the ledger reads. -/
theorem ExecLedger.append {s' : ProtocolExecution P ρ κ} (h : ExecLedger D i trace s)
    (hquiet : Quiet D trace effects) (hi : s'.i = s.i)
    (hout : s'.nextOutgoingBroadcastId = s.nextOutgoingBroadcastId)
    (hqueued : ∀ m ∈ s'.fromNetwork, D m) (hbuffered : Buffered D s'.pendingIncoming) :
    ExecLedger D i (trace ++ effects) s' where
  toExecTrace := h.toExecTrace.append hquiet
  index := hi.trans h.index
  queued := hqueued
  buffered := hbuffered
  sent_lt k body peers hmem := by
    rw [hout]
    exact h.sent_lt k body peers (hquiet.mem_multicast hmem)
  own_eq_zero k hk := by
    rw [hout] at hk
    rw [hquiet.ownCount_eq, h.own_eq_zero k hk]

/-- More may be known of delivered messages. -/
theorem ExecTrace.mono {D' : IncomingRequest P ρ → Prop} (hD : ∀ req, D req → D' req)
    (h : ExecTrace D i trace) : ExecTrace D' i trace where
  sent_unique := h.sent_unique
  entered m hm := (h.entered m hm).imp_right fun ⟨req, hreq, hrest⟩ => ⟨req, hD req hreq, hrest⟩
  own_le := h.own_le
  acked tx echoHash hmem :=
    (h.acked tx echoHash hmem).imp_left fun ⟨req, hreq, hrest⟩ => ⟨req, hD req hreq, hrest⟩

theorem ExecLedger.mono {D' : IncomingRequest P ρ → Prop} (hD : ∀ req, D req → D' req)
    (h : ExecLedger D i trace s) : ExecLedger D' i trace s where
  toExecTrace := h.toExecTrace.mono hD
  index := h.index
  queued m hm := hD m (h.queued m hm)
  buffered key m hm := ⟨hD m (h.buffered key m hm).1, (h.buffered key m hm).2⟩
  sent_lt := h.sent_lt
  own_eq_zero := h.own_eq_zero

/-- A broadcast of the agent. -/
theorem ExecLedger.sentBroadcast [DecidableEq P] {rest : List AgentMessage} {m : AgentMessage}
    (h : ExecLedger D i (trace ++ st.effects) st.exec) :
    ExecLedger D i (trace ++ (sentBroadcast st rest m).effects)
      (sentBroadcast st rest m).exec := by
  have htrace : trace ++ (Proofs.sentBroadcast st rest m).effects
      = (trace ++ st.effects) ++
        [.multicast st.exec.nextOutgoingBroadcastId m.body st.exec.peerset.remotesIter,
          .entered (outgoingEcho st.exec m)] := (List.append_assoc _ _ _).symm
  rw [htrace]
  generalize trace ++ st.effects = tr at h
  have hnew : ∀ k, ownCount ([.multicast st.exec.nextOutgoingBroadcastId m.body
      st.exec.peerset.remotesIter, .entered (outgoingEcho st.exec m)] : List (Effect P ρ κ)) k
      = if st.exec.nextOutgoingBroadcastId = k then 1 else 0 := by
    intro k
    simp [ownCount, enteredIn, outgoingEcho, EchoGadget.isOutgoing, List.countP_cons]
  have hmem : ∀ k body peers, (.multicast k body peers : Effect P ρ κ) ∈ tr ++
      [.multicast st.exec.nextOutgoingBroadcastId m.body st.exec.peerset.remotesIter,
        .entered (outgoingEcho st.exec m)] →
      .multicast k body peers ∈ tr ∨
        (k = st.exec.nextOutgoingBroadcastId ∧ body = m.body) := by
    intro k body peers hk
    rcases List.mem_append.mp hk with hk | hk
    · exact .inl hk
    · rcases List.mem_cons.mp hk with hk | hk
      · cases hk
        exact .inr ⟨rfl, rfl⟩
      · cases List.mem_singleton.mp hk
  refine ⟨⟨?_, ?_, ?_, ?_⟩, h.index, h.queued, h.buffered, ?_, ?_⟩
  · -- the new id is larger than the ids before
    intro k body peers body' peers' hk hk'
    rcases hmem k body peers hk with hk | ⟨rfl, rfl⟩
    · rcases hmem k body' peers' hk' with hk' | ⟨rfl, _⟩
      · exact h.sent_unique k body peers body' peers' hk hk'
      · exact absurd (h.sent_lt _ body peers hk) (Nat.lt_irrefl _)
    · rcases hmem _ body' peers' hk' with hk' | ⟨_, rfl⟩
      · exact absurd (h.sent_lt _ body' peers' hk') (Nat.lt_irrefl _)
      · rfl
  · intro m' hm'
    rcases List.mem_append.mp hm' with hm' | hm'
    · exact (h.entered m' hm').imp_left fun hown => hown.append _
    · rcases List.mem_cons.mp hm' with hm' | hm'
      · cases hm'
      · cases List.mem_singleton.mp hm'
        refine .inl ⟨rfl, ?_, _, List.mem_append_right _ List.mem_cons_self⟩
        show st.exec.i + 1 = i + 1
        rw [h.index]
  · intro k
    rw [ownCount_append, hnew]
    by_cases hk : st.exec.nextOutgoingBroadcastId = k
    · rw [if_pos hk, h.own_eq_zero k (Nat.le_of_eq hk)]
    · rw [if_neg hk]
      exact h.own_le k
  · intro tx echoHash hin
    rcases List.mem_append.mp hin with hin | hin
    · exact (h.acked tx echoHash hin).imp_right fun hack => hack.append _
    · rcases List.mem_cons.mp hin with hin | hin
      · cases hin
      · cases List.mem_singleton.mp hin
  · intro k body peers hk
    rcases hmem k body peers hk with hk | ⟨rfl, _⟩
    · exact Nat.lt_succ_of_lt (h.sent_lt k body peers hk)
    · exact Nat.lt_succ_self _
  · intro k hk
    have hk : st.exec.nextOutgoingBroadcastId + 1 ≤ k := hk
    rw [ownCount_append, hnew, if_neg (by omega), h.own_eq_zero k (by omega)]

theorem getElem?_of_foldl_erase {messageId : Nat} {round : List (Nat × IncomingRequest P ρ)}
    {pending : PendingIncoming P ρ} {key : Nat × Nat} {m : IncomingRequest P ρ}
    (h : (round.foldl (fun pending r => pending.erase (r.1, messageId)) pending)[key]?
      = some m) : pending[key]? = some m := by
  induction round generalizing pending with
  | nil => exact h
  | cons r round ih =>
      have herased := ih h
      rw [Std.TreeMap.getElem?_erase] at herased
      split at herased
      · cases herased
      · exact herased

/-- A round of the remotes has no own broadcast. -/
theorem ownCount_round (messageId : Nat) (round : List (Nat × IncomingRequest P ρ)) (k : Nat) :
    ownCount (round.flatMap fun r =>
      ([.entered (incomingEcho messageId r), .delivered (broadcastRequest r)] :
        List (Effect P ρ κ))) k = 0 := by
  unfold ownCount
  rw [enteredIn_round, List.countP_map, List.countP_eq_zero]
  intro r _
  simp [incomingEcho, EchoGadget.isOutgoing]

/-- A complete round of the remotes. -/
theorem ExecLedger.forwardRound (h : ExecLedger D i (trace ++ st.effects) st.exec) :
    ExecLedger D i (trace ++ (forwardRound st).effects) (forwardRound st).exec := by
  have htrace : trace ++ (Proofs.forwardRound st).effects
      = (trace ++ st.effects) ++ (readyRound st.exec).flatMap fun r =>
        [Effect.entered (incomingEcho st.exec.nextIncomingBroadcastId r),
          Effect.delivered (broadcastRequest r)] := (List.append_assoc _ _ _).symm
  rw [htrace]
  generalize trace ++ st.effects = tr at h
  -- only `entered` and `delivered` effects are new
  have hmem : ∀ effect : Effect P ρ κ, (∀ m, effect ≠ .entered m) →
      (∀ req, effect ≠ .delivered req) → effect ∈ tr ++
      ((readyRound st.exec).flatMap fun r =>
        [Effect.entered (incomingEcho st.exec.nextIncomingBroadcastId r),
          Effect.delivered (broadcastRequest r)]) → effect ∈ tr := by
    intro effect hentered hdelivered hk
    rcases List.mem_append.mp hk with hk | hk
    · exact hk
    · obtain ⟨r, _, hr⟩ := List.mem_flatMap.mp hk
      rcases List.mem_cons.mp hr with hr | hr
      · exact absurd hr (hentered _)
      · exact absurd (List.mem_singleton.mp hr) (hdelivered _)
  refine ⟨⟨?_, ?_, ?_, ?_⟩, h.index, h.queued, ?_, ?_, ?_⟩
  · intro k body peers body' peers' hk hk'
    exact h.sent_unique k body peers body' peers' (hmem _ nofun nofun hk)
      (hmem _ nofun nofun hk')
  · intro m hm
    rcases List.mem_append.mp hm with hm | hm
    · exact (h.entered m hm).imp_left fun hown => hown.append _
    · -- what enters now was buffered under its sender and id
      right
      rw [← mem_enteredIn, enteredIn_round] at hm
      obtain ⟨r, hr, rfl⟩ := List.mem_map.mp hm
      obtain ⟨hD, hb, hkey⟩ := h.buffered _ _ (mem_readyRound.mp hr)
      obtain ⟨hsender, hid⟩ := Prod.mk.inj hkey
      refine ⟨r.2, hD, hb, ?_⟩
      rw [← hid, ← hsender]
  · intro k
    rw [ownCount_append, ownCount_round]
    exact h.own_le k
  · intro tx echoHash hin
    exact (h.acked tx echoHash (hmem _ nofun nofun hin)).imp_right fun hack => hack.append _
  · intro key m hm
    exact h.buffered key m (getElem?_of_foldl_erase hm)
  · intro k body peers hk
    exact h.sent_lt k body peers (hmem _ nofun nofun hk)
  · intro k hk
    rw [ownCount_append, ownCount_round, h.own_eq_zero k hk]

/-- What the agent sends. -/
theorem ExecLedger.takesOutgoing [DecidableEq P] {st' : PollState P ρ κ}
    (hout : TakesOutgoing st st') (h : ExecLedger D i (trace ++ st.effects) st.exec) :
    ExecLedger D i (trace ++ st'.effects) st'.exec := by
  cases hout with
  | nothing _ => exact h
  | direct _ _ _ =>
      show ExecLedger D i (trace ++ (st.effects ++ _)) _
      rw [← List.append_assoc]
      refine h.append ⟨rfl, ?_, ?_⟩ rfl rfl h.queued h.buffered
      · intro k body peers hmem
        cases List.mem_singleton.mp hmem
      · intro tx echoHash hmem
        cases List.mem_singleton.mp hmem
  | broadcast _ _ _ _ _ => exact h.sentBroadcast

/-- A state that differs in nothing the ledger reads. -/
theorem ExecLedger.congr {s' : ProtocolExecution P ρ κ} (h : ExecLedger D i trace s)
    (hi : s'.i = s.i) (hout : s'.nextOutgoingBroadcastId = s.nextOutgoingBroadcastId)
    (hqueued : ∀ m ∈ s'.fromNetwork, D m) (hbuffered : Buffered D s'.pendingIncoming) :
    ExecLedger D i trace s' := by
  have hsame := h.append (.nil D trace) hi hout hqueued hbuffered
  rw [List.append_nil] at hsame
  exact hsame

theorem ExecLedger.restartQuietPeriod (now : Nat)
    (h : ExecLedger D i (trace ++ st.effects) st.exec) :
    ExecLedger D i (trace ++ (restartQuietPeriod now st).effects)
      (restartQuietPeriod now st).exec := by
  unfold ProtocolExecution.restartQuietPeriod
  split
  · exact h.congr rfl rfl h.queued h.buffered
  · exact h

/-- A broadcast that is buffered has been delivered. -/
theorem Buffered.insert {pending : PendingIncoming P ρ} {m : IncomingRequest P ρ}
    (h : Buffered D pending) (hD : D m) (hb : m.isBroadcast = true) :
    Buffered D (pending.insert (m.peerIndex + 1, m.context.messageId) m) := by
  intro key m' hm'
  rw [Std.TreeMap.getElem?_insert] at hm'
  split at hm'
  · rename_i heq
    cases hm'
    exact ⟨hD, hb, (Std.LawfulEqCmp.eq_of_compare heq).symm⟩
  · exact h key m' hm'

/-- A message of the network. -/
theorem ExecLedger.intake {now : Nat} {st' : PollState P ρ κ} (hintake : Intake now st st')
    (h : ExecLedger D i (trace ++ st.effects) st.exec) :
    ExecLedger D i (trace ++ st'.effects) st'.exec := by
  cases hintake with
  | nothing _ => exact h
  | @message m st' hhead _ htakes =>
      have hD : D m := h.queued m (List.mem_of_mem_head? hhead)
      have hrest : ∀ m' ∈ (withoutHead st).exec.fromNetwork, D m' :=
        fun m' hm' => h.queued m' (List.mem_of_mem_tail hm')
      cases htakes with
      | broadcast hb _ =>
          refine ExecLedger.restartQuietPeriod now ?_
          exact h.congr rfl rfl hrest (h.buffered.insert hD hb)
      | direct hb _ _ _ _ =>
          refine ExecLedger.restartQuietPeriod now ?_
          show ExecLedger D i (trace ++ ((st.effects ++ _) ++ _)) _
          rw [← List.append_assoc, ← List.append_assoc, List.append_assoc]
          refine h.append ⟨rfl, ?_, ?_⟩ rfl rfl hrest h.buffered
          · intro k body peers hmem
            rcases List.mem_cons.mp hmem with hmem | hmem
            · cases hmem
            · cases List.mem_singleton.mp hmem
          · intro tx echoHash hmem
            rcases List.mem_cons.mp hmem with hmem | hmem
            · cases hmem
              exact .inl ⟨m, hD, hb, rfl⟩
            · cases List.mem_singleton.mp hmem

/-- A poll that does not return keeps the ledger. -/
theorem ExecLedger.pending [DecidableEq P] {echoTx : List (EchoMessage ρ)} {now : Nat}
    {turn : AgentTurn} (h : ExecLedger D i trace s) (hn : 2 ≤ s.n)
    (hpoll : s.poll echoTx now turn = .pending st) :
    ExecLedger D i (trace ++ st.effects) st.exec := by
  refine pending_induction (fun st => ExecLedger D i (trace ++ st.effects) st.exec) hn hpoll
    ?_ ?_ (fun _ _ => ExecLedger.intake) (fun _ _ => ExecLedger.forwardRound) ?_
  · refine fun st hout => ExecLedger.takesOutgoing hout ?_
    rw [List.append_nil]
    exact h
  · intro st m hhead hst
    show ExecLedger D i (trace ++ (st.effects ++ _)) _
    rw [← List.append_assoc]
    refine hst.append ⟨rfl, ?_, ?_⟩ rfl rfl
      (fun m' hm' => hst.queued m' (List.mem_of_mem_tail hm')) hst.buffered
    · intro k body peers hmem
      cases List.mem_singleton.mp hmem
    · intro tx echoHash hmem
      cases List.mem_singleton.mp hmem
  · intro st hst
    unfold pollAgent
    cases turn.result <;> exact hst.congr rfl rfl hst.queued hst.buffered

/-- A poll that returns leaves the trace in order. -/
theorem ExecLedger.ready [DecidableEq P] {echoTx echoTx' : List (EchoMessage ρ)} {now : Nat}
    {turn : AgentTurn} {result : Except Error Unit} (h : ExecLedger D i trace s) (hc : Completion s)
    (hpoll : s.poll echoTx now turn = .ready result echoTx' effects) :
    ExecTrace D i (trace ++ effects) := by
  obtain ⟨r, _, st, _, _, _, _, hout, hreport⟩ := ready_cases hc hpoll
  have hstart : ExecLedger D i
      (trace ++ ({ exec := s, echoTx := echoTx, effects := [] } : PollState P ρ κ).effects) s := by
    rw [List.append_nil]
    exact h
  have hst := (hstart.takesOutgoing hout).toExecTrace
  rcases (report_effects hreport).2 with ⟨_, rfl⟩ | ⟨tx, _, rfl⟩
  · exact hst
  · rw [← List.append_assoc]
    refine hst.append ⟨rfl, ?_, ?_⟩
    · intro k body peers hmem
      cases List.mem_singleton.mp hmem
    · intro tx echoHash hmem
      cases List.mem_singleton.mp hmem

end Exec

section Session

variable {P ρ κ : Type} [Blake2s256] {D : IncomingRequest P ρ → Prop} {w : WrapExecution P ρ κ}
  {state : WrapState P ρ κ} {effects trace : List (Effect P ρ κ)} {gone : ρ → Bool}
  {t : Session P ρ κ}

/-- What a stretch of the gadget does is quiet for the execution. -/
theorem quiet_pollEcho (trace : List (Effect P ρ κ)) (h : w.pollEcho gone = some (state, effects)) :
    Quiet D trace effects := by
  have hsteps := steps_step w.echo w.echoRx w.computation.isNone w.responses gone
  unfold WrapExecution.pollEcho at h
  generalize w.echo.step w.echoRx w.computation.isNone w.responses gone = step at hsteps h
  cases hsteps with
  | pending => cases h
  | failed => cases h; exact .nil D trace
  | panic => cases h; exact .nil D trace
  | finished _ _ _ _ =>
      simp only at h
      split at h <;> (cases h; exact .nil D trace)
  | ready _ _ => cases h; exact .nil D trace
  | collects _ _ => cases h; exact .nil D trace
  | gathers _ _ _ => cases h; exact .nil D trace
  | setsAside _ _ => cases h; exact .nil D trace
  | echoed _ _ _ => cases h; exact .nil D trace
  | @hashed k respRx group _ _ _ _ =>
      cases h
      refine ⟨enteredIn_acks _ _ _ _, ?_, ?_⟩
      · intro k' body peers hmem
        rcases List.mem_append.mp hmem with hmem | hmem
        · obtain ⟨tx, _, htx⟩ := List.mem_map.mp hmem
          cases htx
        · cases List.mem_singleton.mp hmem
      · intro tx echoHash hmem
        rcases List.mem_append.mp hmem with hmem | hmem
        · obtain ⟨tx', htx', heq⟩ := List.mem_map.mp hmem
          cases heq
          refine .inr ⟨k, EchoGadget.sortBySender group, ?_, htx'⟩
          exact List.mem_append_right _ (List.mem_append_right _ List.mem_cons_self)
        · cases List.mem_singleton.mp hmem
  | verified _ _ _ _ =>
      cases h
      refine ⟨rfl, ?_, ?_⟩
      · intro k body peers hmem
        cases List.mem_singleton.mp hmem
      · intro tx echoHash hmem
        cases List.mem_singleton.mp hmem

/-- The gadget ends a session without a word. -/
theorem effects_eq_nil_of_over (h : w.pollEcho gone = some (state, effects))
    (hover : ∀ w', state ≠ .running w') : effects = [] := by
  unfold WrapExecution.pollEcho at h
  generalize w.echo.step w.echoRx w.computation.isNone w.responses gone = step at h
  cases step with
  | pending => cases h
  | took g rx => cases h; exact absurd rfl (hover _)
  | hashed g k group echoHash acks => cases h; exact absurd rfl (hover _)
  | echoed g respRx => cases h; exact absurd rfl (hover _)
  | verified g k echoHash respRx echoHashes => cases h; exact absurd rfl (hover _)
  | finished =>
      simp only at h
      split at h <;> (cases h; rfl)
  | failed e => cases h; rfl
  | panic why => cases h; rfl

/-- The echoes of an id collected so far. -/
def collected (round : Round P ρ) (k : Nat) : List (RemoteEcho P) :=
  match round with
  | .responses k' _ _ echoHashes => if k' = k then echoHashes else []
  | _ => []

/-- The echoes that arrived, against the trace. -/
def EchoLedger (arrived : Nat → List (RemoteEcho P)) (w : WrapExecution P ρ κ)
    (trace : List (Effect P ρ κ)) : Prop :=
  ∀ k, verifiedIn trace k ++ (collected w.echo.round k ++ (w.responses k).queue) = arrived k

/-- The echoes of a broadcast are read from its own channel. -/
theorem GadgetLedger.channel {n : Nat} {g : EchoGadget P ρ} {rx : List (EchoMessage ρ)}
    (hl : GadgetLedger n g rx trace) (ht : GadgetTrace n trace) (he : ExecTrace D i trace)
    {k respRx : Nat} {echoHash : Bytes} {echoHashes : List (RemoteEcho P)}
    (hround : g.round = .responses k echoHash respRx echoHashes) : respRx = k := by
  obtain ⟨group, hgroup, hrx⟩ := hl.awaiting k echoHash respRx echoHashes hround
  obtain ⟨m, hm, hresp⟩ := mem_outgoingRxs.mp hrx
  have hentered := ht.conserved.subset (mem_hashedIn hgroup hm)
  have hid := (ht.hashed k group echoHash hgroup).ids m hm
  rcases he.entered m (mem_enteredIn.mp hentered) with ⟨hown, _, _⟩ | ⟨req, _, _, rfl⟩
  · rw [hresp, hid] at hown
    exact EchoResponse.outgoing.inj hown
  · cases hresp

omit [Blake2s256] in
/-- Hashing a group verifies nothing. -/
theorem verifiedIn_acks (acks : List ρ) (k' : Nat) (group : List (EchoMessage ρ))
    (echoHash : Bytes) (k : Nat) :
    verifiedIn (acks.map (fun tx => Effect.respond tx (.ok echoHash)) ++
      [Effect.hashed k' group echoHash] : List (Effect P ρ κ)) k = [] := by
  induction acks with
  | nil => rfl
  | cons tx acks ih => exact ih

/-- A stretch of the gadget keeps the ledger of the echoes. -/
theorem echoLedger_pollEcho {arrived : Nat → List (RemoteEcho P)} {w' : WrapExecution P ρ κ}
    (hl : EchoLedger arrived w trace) (hchannel : ∀ k echoHash respRx echoHashes,
      w.echo.round = .responses k echoHash respRx echoHashes → respRx = k)
    (h : w.pollEcho gone = some (.running w', effects)) :
    EchoLedger arrived w' (trace ++ effects) := by
  have hsteps := steps_step w.echo w.echoRx w.computation.isNone w.responses gone
  unfold WrapExecution.pollEcho at h
  generalize w.echo.step w.echoRx w.computation.isNone w.responses gone = step at hsteps h
  intro k
  have hold := hl k
  rw [verifiedIn_append]
  cases hsteps with
  | pending => cases h
  | failed => cases h
  | panic => cases h
  | finished _ _ hclosed _ =>
      simp only [hclosed, if_true] at h
      cases h
  | ready hround _ =>
      cases h
      rw [hround] at hold
      simpa only [collected, verifiedIn, List.flatMap_nil, List.append_nil] using hold
  | collects hround _ =>
      cases h
      rw [hround] at hold
      simpa only [collected, verifiedIn, List.flatMap_nil, List.append_nil] using hold
  | gathers hround _ _ =>
      cases h
      rw [hround] at hold
      simpa only [collected, verifiedIn, List.flatMap_nil, List.append_nil] using hold
  | setsAside hround _ =>
      cases h
      rw [hround] at hold
      simpa only [collected, verifiedIn, List.flatMap_nil, List.append_nil] using hold
  | hashed hround _ _ _ =>
      cases h
      rw [hround] at hold
      rw [verifiedIn_acks, List.append_nil]
      simpa only [collected, ite_self] using hold
  | @echoed k' respRx echoHash echoHashes echo rest hround hqueue _ =>
      obtain rfl := hchannel _ _ _ _ hround
      cases h
      rw [hround] at hold
      by_cases hk : respRx = k
      · -- the head of the queue is the newest collected echo
        subst hk
        simp only [collected, if_true, hqueue] at hold
        simpa [collected, verifiedIn, WrapExecution.popEcho, hqueue] using hold
      · simp only [collected, hk, if_false] at hold
        simpa [collected, verifiedIn, WrapExecution.popEcho, hk,
          Function.update_of_ne (Ne.symm hk)] using hold
  | @verified k' respRx echoHash echoHashes echo rest hround hqueue _ _ =>
      obtain rfl := hchannel _ _ _ _ hround
      cases h
      rw [hround] at hold
      by_cases hk : respRx = k
      · subst hk
        simp only [collected, if_true, hqueue] at hold
        simpa [collected, verifiedIn, WrapExecution.popEcho, hqueue] using hold
      · simp only [collected, hk, if_false] at hold
        simpa [collected, verifiedIn, WrapExecution.popEcho, hk,
          Function.update_of_ne (Ne.symm hk)] using hold

/-- What holds of a running session. -/
structure RunningLedger (D : IncomingRequest P ρ → Prop) (i n : Nat)
    (arrived : Nat → List (RemoteEcho P)) (w : WrapExecution P ρ κ)
    (trace : List (Effect P ρ κ)) : Prop where
  exec : ∀ s, w.computation = some s → ExecLedger D i trace s ∧ Completion s
  gadget : GadgetLedger n w.echo w.echoRx trace
  echoes : EchoLedger arrived w trace

/-- What holds of a session, running or over. -/
structure SessionLedger (D : IncomingRequest P ρ → Prop) (i n : Nat)
    (arrived : Nat → List (RemoteEcho P)) (t : Session P ρ κ) : Prop where
  exec : ExecTrace D i t.trace
  gadget : GadgetTrace n t.trace
  echoes : ∀ k, verifiedIn t.trace k <+: arrived k
  running : ∀ w, t.state = .running w → RunningLedger D i n arrived w t.trace

omit [Blake2s256] in
theorem EchoLedger.isPrefix {arrived : Nat → List (RemoteEcho P)} (h : EchoLedger arrived w trace)
    (k : Nat) : verifiedIn trace k <+: arrived k :=
  ⟨_, h k⟩

/-- More may be known of delivered messages. -/
theorem SessionLedger.mono {D' : IncomingRequest P ρ → Prop} {n : Nat}
    {arrived : Nat → List (RemoteEcho P)} (hD : ∀ req, D req → D' req)
    (h : SessionLedger D i n arrived t) : SessionLedger D' i n arrived t where
  exec := h.exec.mono hD
  gadget := h.gadget
  echoes := h.echoes
  running w hw :=
    { exec := fun s hs => ((h.running w hw).exec s hs).imp_left (·.mono hD)
      gadget := (h.running w hw).gadget
      echoes := (h.running w hw).echoes }

/-- The echoes that have arrived after a step of the outside. -/
def arrivedAfter (arrived : Nat → List (RemoteEcho P)) :
    WrapLabel P ρ → Nat → List (RemoteEcho P)
  | .echoResponse respRx echo =>
      Function.update arrived respRx (arrived respRx ++ [echo])
  | _ => arrived

/-- A poll of the computation keeps the ledger of the session. -/
theorem sessionLedger_pollComputation [DecidableEq P] {n : Nat} (now : Nat) (turn : AgentTurn)
    {arrived : Nat → List (RemoteEcho P)} {s : ProtocolExecution P ρ κ}
    (ht : SessionLedger D i n arrived t) (hw : t.state = .running w) (hs : w.computation = some s) :
    SessionLedger D i n arrived
      { state := (w.pollComputation s now turn).1
        trace := t.trace ++ (w.pollComputation s now turn).2 } := by
  have hlive := ht.running w hw
  obtain ⟨hexec, hc⟩ := hlive.exec s hs
  -- the execution's effects leave the echoes alone
  have hechoes : ∀ (effects : List (Effect P ρ κ)) (w' : WrapExecution P ρ κ),
      (∀ effect ∈ effects, byGadget effect = false) → w'.echo = w.echo →
      w'.responses = w.responses → EchoLedger arrived w' (t.trace ++ effects) := by
    intro effects w' hby hecho hresponses k
    rw [verifiedIn_append, verifiedIn_eq_nil hby, List.append_nil, hecho, hresponses]
    exact hlive.echoes k
  have hinitial : ∀ effects : List (Effect P ρ κ),
      (∀ effect ∈ effects, byGadget effect = false) →
      ∀ k, verifiedIn (t.trace ++ effects) k <+: arrived k :=
    fun effects hby k => (hechoes effects w hby rfl rfl).isPrefix k
  unfold WrapExecution.pollComputation
  cases hpoll : s.poll w.echoRx now turn with
  | pending st =>
      have hby := byGadget_pending hc.two_le hpoll
      have hledger := hexec.pending hc.two_le hpoll
      refine ⟨hledger.toExecTrace, ht.gadget.append hby, hinitial _ hby, fun w' hw' => ?_⟩
      obtain rfl := WrapState.running.inj hw'
      refine ⟨?_, ?_, hechoes _ _ hby rfl rfl⟩
      · rintro s' ⟨⟩
        exact ⟨hledger, (completion_poll hc hpoll).1⟩
      · show GadgetLedger n w.echo st.echoTx _
        rw [(logged_pending hc.two_le hpoll).1]
        exact hlive.gadget.longerChannel hby
  | ready result echoTx' effects =>
      have hby := byGadget_ready hc hpoll
      have htrace := hexec.ready hc hpoll
      cases result with
      | error e =>
          exact ⟨htrace, ht.gadget.append hby, hinitial _ hby, fun w' hw' => by cases hw'⟩
      | ok u =>
          simp only
          split
          · exact ⟨htrace, ht.gadget.append hby, hinitial _ hby, fun w' hw' => by cases hw'⟩
          · refine ⟨htrace, ht.gadget.append hby, hinitial _ hby, fun w' hw' => ?_⟩
            obtain rfl := WrapState.running.inj hw'
            refine ⟨nofun, ?_, hechoes _ _ hby rfl rfl⟩
            show GadgetLedger n w.echo echoTx' _
            rw [logged_ready hc hpoll]
            exact hlive.gadget.longerChannel hby
  | panic why =>
      rw [List.append_nil]
      exact ⟨ht.exec, ht.gadget, ht.echoes, fun w' hw' => by cases hw'⟩

/-- A stretch of the gadget keeps it. -/
theorem sessionLedger_pollEcho {n : Nat} {arrived : Nat → List (RemoteEcho P)}
    (ht : SessionLedger D i n arrived t) (hw : t.state = .running w)
    (h : w.pollEcho gone = some (state, effects)) :
    SessionLedger D i n arrived { state := state, trace := t.trace ++ effects } := by
  have hlive := ht.running w hw
  have hquiet := quiet_pollEcho (D := D) t.trace h
  obtain ⟨hgadget, hrunning⟩ := gadgetLedger_pollEcho ht.gadget hlive.gadget h
  have hchannel : ∀ k echoHash respRx echoHashes,
      w.echo.round = .responses k echoHash respRx echoHashes → respRx = k :=
    fun _ _ _ _ hround => hlive.gadget.channel ht.gadget ht.exec hround
  have hledger : ∀ w', state = .running w' →
      RunningLedger D i n arrived w' (t.trace ++ effects) := by
    rintro w' rfl
    obtain ⟨hl, hcomp⟩ := hrunning w' rfl
    refine ⟨fun s hs => ?_, hl, echoLedger_pollEcho hlive.echoes hchannel h⟩
    obtain ⟨hexec, hc⟩ := hlive.exec s (hcomp.symm.trans hs)
    exact ⟨hexec.append hquiet rfl rfl hexec.queued hexec.buffered, hc⟩
  refine ⟨ht.exec.append hquiet, hgadget, ?_, hledger⟩
  intro k
  cases state with
  | running w' => exact (hledger w' rfl).echoes.isPrefix k
  | returned result =>
      rw [effects_eq_nil_of_over h (WrapState.returned_ne_running result), List.append_nil]
      exact ht.echoes k
  | panicked why =>
      rw [effects_eq_nil_of_over h (WrapState.panicked_ne_running why), List.append_nil]
      exact ht.echoes k

/-- Every step of a session keeps the ledger. -/
theorem sessionLedger_step [DecidableEq P] {n : Nat} {arrived : Nat → List (RemoteEcho P)}
    {t' : Session P ρ κ} {l : WrapLabel P ρ} (ht : SessionLedger D i n arrived t)
    (hD : ∀ m, l = .deliver m → D m) (h : t.step l = some t') :
    SessionLedger D i n (arrivedAfter arrived l) t' := by
  obtain ⟨w, state, effects, hw, hstep, rfl⟩ := Session.step_eq_some.mp h
  have hlive := ht.running w hw
  cases l with
  | deliver m =>
      obtain ⟨s, hs, heq⟩ := Option.map_eq_some_iff.mp hstep
      cases heq
      rw [List.append_nil]
      refine ⟨ht.exec, ht.gadget, ht.echoes, fun w' hw' => ?_⟩
      obtain rfl := WrapState.running.inj hw'
      refine ⟨?_, hlive.gadget, hlive.echoes⟩
      rintro s' ⟨⟩
      obtain ⟨hexec, hc⟩ := hlive.exec s hs
      refine ⟨hexec.congr rfl rfl ?_ hexec.buffered,
        ⟨hc.two_le, hc.agentFuture, hc.completionDelay⟩⟩
      intro m' hm'
      rcases List.mem_append.mp hm' with hm' | hm'
      · exact hexec.queued m' hm'
      · rw [List.mem_singleton.mp hm']
        exact hD m rfl
  | echoResponse respRx echo =>
      cases hstep
      rw [List.append_nil]
      -- the echo is in the queue of its receiver, behind those that were verified
      have hpushed : EchoLedger (arrivedAfter arrived (.echoResponse respRx echo :
          WrapLabel P ρ)) (w.pushEcho respRx echo) t.trace := by
        intro k
        have hold := hlive.echoes k
        by_cases hk : k = respRx
        · subst hk
          simp only [arrivedAfter, WrapExecution.pushEcho, Function.update_self]
          rw [← hold, List.append_assoc, List.append_assoc]
        · simp only [arrivedAfter, WrapExecution.pushEcho, Function.update_of_ne hk]
          exact hold
      refine ⟨ht.exec, ht.gadget, hpushed.isPrefix, fun w' hw' => ?_⟩
      obtain rfl := WrapState.running.inj hw'
      exact ⟨hlive.exec, hlive.gadget, hpushed⟩
  | closeResponses respRx =>
      cases hstep
      rw [List.append_nil]
      refine ⟨ht.exec, ht.gadget, ht.echoes, fun w' hw' => ?_⟩
      obtain rfl := WrapState.running.inj hw'
      refine ⟨hlive.exec, hlive.gadget, fun k => ?_⟩
      have hold := hlive.echoes k
      by_cases hk : k = respRx
      · subst hk
        simpa only [arrivedAfter, WrapExecution.closeResponses, Function.update_self] using hold
      · simpa only [arrivedAfter, WrapExecution.closeResponses, Function.update_of_ne hk]
          using hold
  | pollComputation now turn =>
      obtain ⟨s, hfilter, heq⟩ := Option.map_eq_some_iff.mp hstep
      have hs := (Option.filter_eq_some_iff.mp hfilter).1
      have hledger := sessionLedger_pollComputation now turn ht hw hs
      rw [heq] at hledger
      exact hledger
  | pollEcho gone =>
      simp only [WrapExecution.step] at hstep
      split at hstep
      · cases hstep
      · exact sessionLedger_pollEcho ht hw hstep

end Session

end FrostMpcTss.Proofs
