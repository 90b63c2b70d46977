import FrostMpcTss.Lib.Transition
import FrostMpcTss.Service.NetworkProxy
import FrostMpcTss.Proofs.Rounds

/-!
# `FrostMpcTss.Proofs.RoundDelivery`: complete rounds, as soon as they are complete

`Inbox` is a session together with the messages its execution has taken
from the network. They come through the receiver proxy, so each is from
a remote member and carries its index (`fromRemote`), in any order, with
any ids, and as often as the sender likes.

`roundSynchronous` says what the agent and the echo gadget get of them:
the rounds `0, 1, 2, …`, each with one message of every remote member in
the order of the members, and a round in the same poll that takes its
last message.

The number of members is truncated to `u16`, so this needs fewer than
`2 ^ 16` members. With more of them a round is forwarded when the
truncated number of messages is there.
-/

set_option autoImplicit false

namespace FrostMpcTss.Proofs

open Lib Network Service FrostMpcTss.Session
open Service.ProtocolExecution

variable {P ρ κ : Type} [DecidableEq P] {sessionId : SessionId} {m : IncomingRequest P ρ}
  {s : ProtocolExecution P ρ κ} {st : PollState P ρ κ} {now : Nat} {echoTx : List (EchoMessage ρ)}
  {turn : AgentTurn}

/-- A session, and what its execution has taken from the network. -/
structure Inbox (P ρ κ : Type) where
  session : Session P ρ κ
  received : List (IncomingRequest P ρ)

/-- The message a step takes from the network: a poll of the execution
takes the head of its queue. -/
def takenBy {P ρ κ : Type} (t : Session P ρ κ) : WrapLabel P ρ → List (IncomingRequest P ρ)
  | .pollComputation _ _ =>
      match t.execution with
      | some (s, _) => s.fromNetwork.take 1
      | none => []
  | _ => []

namespace Inbox

/-- The session as the worker starts it. -/
def start (sessionId : SessionId) (protocolId : Nat) (peerset : Peerset P)
    (pendingResponse : Option κ) : Inbox P ρ κ where
  session :=
    { state :=
        match WrapExecution.new peerset.size sessionId protocolId peerset pendingResponse with
        | .ok w => .running w
        | .error why => .panicked why
      trace := [] }
  received := []

def step [Blake2s256] (t : Inbox P ρ κ) (l : WrapLabel P ρ) : Option (Inbox P ρ κ) :=
  (t.session.step l).map fun session =>
    { session := session, received := t.received ++ takenBy t.session l }

end Inbox

/-- A message as the receiver proxy hands it on: a computation message of
the session, from a remote member, with the member's index. -/
def fromRemote (sessionId : SessionId) (peerset : Peerset P) (m : IncomingRequest P ρ) : Bool :=
  ReceiverProxy.shouldForwardMessage m sessionId && m.peerId ≠ peerset.localPeerId &&
    peerset.indexOf m.peerId = some m.peerIndex

/-- What is put into the execution's queue comes through the proxy. -/
def deliversRemote (sessionId : SessionId) (peerset : Peerset P) : WrapLabel P ρ → Bool
  | .deliver m => fromRemote sessionId peerset m
  | _ => true

theorem fromRemote_iff {peerset : Peerset P} :
    fromRemote sessionId peerset m = true ↔
      ReceiverProxy.shouldForwardMessage m sessionId = true ∧ m.peerId ≠ peerset.localPeerId ∧
        peerset.indexOf m.peerId = some m.peerIndex := by
  simp only [fromRemote, Bool.and_eq_true, decide_eq_true_eq, and_assoc]

/-- The proxy hands on messages of this form only. -/
theorem fromRemote_of_sent {peerset : Peerset P} {queued : Nat} {m' : IncomingRequest P ρ}
    (hremote : m.peerId ≠ peerset.localPeerId)
    (h : ReceiverProxy.forwardOrReject m sessionId peerset queued = .sent m') :
    fromRemote sessionId peerset m' = true := by
  unfold ReceiverProxy.forwardOrReject at h
  split at h
  · rename_i hforward
    split at h
    · rename_i i hindex
      split at h
      · cases h
        exact fromRemote_iff.mpr ⟨hforward, hremote, hindex⟩
      · cases h
    · cases h
  · cases h

/-- The numbers of the remote members, in increasing order: their indices
plus one. -/
def remoteNumbers (p : Peerset P) : List Nat :=
  ((List.range p.size).filter fun i => p.peers[i]? ≠ some p.localPeerId).map (· + 1)

/-- The broadcasts of the remotes are handed on in complete rounds. -/
structure RoundSynchronous (peerset : Peerset P) (t : Inbox P ρ κ) : Prop where
  /-- These rounds are what agent and gadget got. -/
  rounds : ∃ rounds : List (List (Nat × IncomingRequest P ρ)),
    broadcastRequestsIn t.session.trace = requestsOf rounds ∧
    remotesIn t.session.trace = echoesOf rounds ∧
    (∀ (k : Nat) (round : List (Nat × IncomingRequest P ρ)), rounds[k]? = some round →
      round.map Prod.fst = remoteNumbers peerset ∧
      ∀ r ∈ round, r.2 ∈ t.received ∧ r.2.isBroadcast = true ∧
        r.1 = r.2.peerIndex + 1 ∧ r.2.context.messageId = k) ∧
    -- the next round is not complete while the execution runs
    (t.session.execution.isSome = true →
      ∃ sender ∈ remoteNumbers peerset, ∀ m ∈ t.received, m.isBroadcast = true →
        m.peerIndex + 1 = sender → m.context.messageId ≠ rounds.length)
  /-- Nothing is handed on twice. -/
  nodup : ((remotesIn t.session.trace).map fun m => (m.messageId, m.sender)).Nodup
  /-- The own broadcasts are numbered in the order they are sent. -/
  sent : ∃ count, multicastIds t.session.trace = List.range count

section Members

variable {peerset : Peerset P}

/-- Of the members all but one are remote. -/
theorem length_remoteNumbers (hnodup : peerset.peers.Nodup)
    (hlocal : peerset.localPeerId ∈ peerset.peers) :
    (remoteNumbers peerset).length = peerset.size - 1 := by
  have hlt := List.idxOf_lt_length_of_mem hlocal
  have hfilter : ((List.range peerset.size).filter fun i =>
      peerset.peers[i]? ≠ some peerset.localPeerId)
      = (List.range peerset.size).erase (peerset.peers.idxOf peerset.localPeerId) := by
    rw [List.nodup_range.erase_eq_filter]
    refine List.filter_congr fun i hi => ?_
    have hi : i < peerset.peers.length := List.mem_range.mp hi
    have hiff : peerset.peers[i]? = some peerset.localPeerId ↔
        i = peerset.peers.idxOf peerset.localPeerId := by
      rw [List.getElem?_eq_getElem hi, Option.some.injEq]
      constructor
      · intro h
        rw [← h, hnodup.idxOf_getElem i hi]
      · rintro rfl
        exact List.getElem_idxOf hlt
    rw [bne, beq_eq_decide]
    simp only [hiff, ne_eq, decide_not]
  rw [remoteNumbers, hfilter, List.length_map, List.length_erase_of_mem, List.length_range]
  exact List.mem_range.mpr hlt

theorem pairwise_remoteNumbers (peerset : Peerset P) :
    (remoteNumbers peerset).Pairwise (· < ·) := by
  refine List.pairwise_map.mpr ?_
  exact (List.pairwise_lt_range.filter _).imp fun h => Nat.succ_lt_succ h

/-- A message of a remote member carries one of their numbers. -/
theorem mem_remoteNumbers (hsmall : peerset.size < 2 ^ 16)
    (h : fromRemote sessionId peerset m = true) : m.peerIndex + 1 ∈ remoteNumbers peerset := by
  obtain ⟨_, hremote, hindex⟩ := fromRemote_iff.mp h
  by_cases hmem : m.peerId ∈ peerset.peers
  · have hlt : peerset.peers.idxOf m.peerId < peerset.size := List.idxOf_lt_length_of_mem hmem
    rw [indexOf_eq_some_of_mem hmem, Option.some.injEq, asU16, Nat.mod_eq_of_lt (by omega)]
      at hindex
    refine List.mem_map_of_mem (List.mem_filter.mpr ⟨List.mem_range.mpr (hindex ▸ hlt), ?_⟩)
    rw [← hindex, List.getElem?_eq_getElem hlt, List.getElem_idxOf hlt]
    simpa using hremote
  · rw [indexOf_eq_none_of_not_mem hmem] at hindex
    cases hindex

/-- Increasing numbers of remote members, as many as there are. -/
theorem eq_remoteNumbers {senders : List Nat} (hnodup : peerset.peers.Nodup)
    (hlocal : peerset.localPeerId ∈ peerset.peers) (hlength : senders.length = peerset.size - 1)
    (hlt : senders.Pairwise (· < ·)) (hsub : senders ⊆ remoteNumbers peerset) :
    senders = remoteNumbers peerset := by
  have hperm : senders.Perm (remoteNumbers peerset) := by
    refine (List.subperm_of_subset (hlt.imp Nat.ne_of_lt) hsub).perm_of_length_le ?_
    rw [length_remoteNumbers hnodup hlocal, hlength]
  exact hperm.eq_of_pairwise (fun a b _ _ hab hba => absurd hab (Nat.lt_asymm hba)) hlt
    (pairwise_remoteNumbers peerset)

end Members

section Kept

/-- Every broadcast of a later round is buffered. -/
def Kept (received : List (IncomingRequest P ρ)) (s : ProtocolExecution P ρ κ) : Prop :=
  ∀ m ∈ received, m.isBroadcast = true → s.nextIncomingBroadcastId ≤ m.context.messageId →
    (m.peerIndex + 1, m.context.messageId) ∈ s.pendingIncoming

omit [DecidableEq P] in
/-- A broadcast is kept under its sender and its id. -/
theorem Kept.insert {received : List (IncomingRequest P ρ)} {s' : ProtocolExecution P ρ κ}
    (h : Kept received s) (hin : s'.nextIncomingBroadcastId = s.nextIncomingBroadcastId)
    (hpending : s'.pendingIncoming
      = s.pendingIncoming.insert (m.peerIndex + 1, m.context.messageId) m) :
    Kept (received ++ [m]) s' := by
  intro m' hm' hb hid
  rw [hpending, Std.TreeMap.mem_insert]
  rw [hin] at hid
  rcases List.mem_append.mp hm' with hm' | hm'
  · exact .inr (h m' hm' hb hid)
  · rw [List.mem_singleton.mp hm']
    exact .inl Std.ReflCmp.compare_self

omit [DecidableEq P] in
theorem Kept.restartQuietPeriod {received : List (IncomingRequest P ρ)} (now : Nat)
    (h : Kept received st.exec) :
    Kept received (ProtocolExecution.restartQuietPeriod now st).exec := by
  unfold ProtocolExecution.restartQuietPeriod
  split <;> exact h

omit [DecidableEq P] in
/-- A broadcast that is taken is kept, and nothing is lost. -/
theorem Kept.intake {received : List (IncomingRequest P ρ)} {st' : PollState P ρ κ}
    (hintake : Intake now st st') (h : Kept received st.exec) :
    Kept (received ++ st.exec.fromNetwork.take 1) st'.exec := by
  cases hintake with
  | nothing hnil =>
      rw [hnil, List.take_nil, List.append_nil]
      exact h
  | @message m st' hhead _ htakes =>
      obtain ⟨rest, hrest⟩ := List.head?_eq_some_iff.mp hhead
      rw [hrest]
      cases htakes with
      | broadcast _ _ => exact Kept.restartQuietPeriod now (h.insert rfl rfl)
      | direct hb _ _ _ _ =>
          refine Kept.restartQuietPeriod now fun m' hm' hb' hid => ?_
          rcases List.mem_append.mp hm' with hm' | hm'
          · exact h m' hm' hb' hid
          · -- a direct message is not buffered
            have hm' : m' ∈ [m] := hm'
            rw [List.mem_singleton.mp hm', hb] at hb'
            cases hb'

omit [DecidableEq P] in
/-- A round removes the messages of its id only. -/
theorem Kept.forwardRound {received : List (IncomingRequest P ρ)} (h : Kept received st.exec) :
    Kept received (forwardRound st).exec := by
  intro m hm hb hid
  have hid : st.exec.nextIncomingBroadcastId + 1 ≤ m.context.messageId := hid
  refine (mem_foldl_erase ?_ _ _).mpr (h m hm hb (by omega))
  show m.context.messageId ≠ _
  omega

/-- A poll that does not return takes the head of the queue, and leaves
no round complete. -/
theorem Kept.pending {received : List (IncomingRequest P ρ)} (h : Kept received s) (hn : 2 ≤ s.n)
    (hacc : ∀ m ∈ s.fromNetwork, s.accepts m = true)
    (hpoll : s.poll echoTx now turn = .pending st) :
    Kept (received ++ s.fromNetwork.take 1) st.exec ∧ ¬ RoundComplete st.exec := by
  cases pends_of_pending hn hpoll with
  | refuses hout hhead hrefused =>
      -- the proxy has let through what the execution accepts
      rw [accepts_head hacc hout hhead] at hrefused
      cases hrefused
  | @forwards st₁ st₂ st₃ _ hout hintake hfwd hst =>
      have hstart : Kept received st₁.exec := by
        cases hout <;> exact h
      have hintaken := hstart.intake hintake
      rw [fromNetwork_takesOutgoing hout] at hintaken
      have hforwarded := forwards_induction
        (fun st => Kept (received ++ s.fromNetwork.take 1) st.exec) hfwd hintaken
        fun _ _ => Kept.forwardRound
      have hincomplete := not_roundComplete_of_forwards hfwd
      rcases hst with rfl | rfl
      · exact ⟨hforwarded, hincomplete⟩
      · unfold ProtocolExecution.pollAgent
        cases turn.result <;> exact ⟨hforwarded, hincomplete⟩

end Kept

section Run

variable {sessionId : SessionId} {peerset : Peerset P}

/-- What holds of the running execution. -/
structure InboxLive (sessionId : SessionId) (peerset : Peerset P)
    (received : List (IncomingRequest P ρ)) (s : ProtocolExecution P ρ κ) : Prop where
  session : s.sessionId = sessionId
  queued : ∀ m ∈ s.fromNetwork, fromRemote sessionId peerset m = true
  kept : Kept received s
  incomplete : ¬ RoundComplete s

/-- The invariant of the run. -/
structure InboxLedger (sessionId : SessionId) (peerset : Peerset P) (t : Inbox P ρ κ) :
    Prop where
  rounds : SessionRounds (· ∈ t.received) (asU16 peerset.size - 1) t.session
  received : ∀ m ∈ t.received, fromRemote sessionId peerset m = true
  live : ∀ s echoTx, t.session.execution = some (s, echoTx) →
    InboxLive sessionId peerset t.received s

/-- Nothing has been received at the start. -/
theorem inboxLedger_start (protocolId : Nat) (pendingResponse : Option κ) :
    InboxLedger (ρ := ρ) sessionId peerset
      (Inbox.start sessionId protocolId peerset pendingResponse) := by
  have hnew : ∀ s echoTx, (Inbox.start (ρ := ρ) sessionId protocolId peerset
      pendingResponse).session.execution = some (s, echoTx) →
      ProtocolExecution.new sessionId protocolId peerset pendingResponse = .ok s := by
    refine fun s echoTx => new_of_execution (n := peerset.size) fun w hw => ?_
    unfold Inbox.start at hw
    simp only at hw
    split at hw
    · rename_i hnew
      cases hw
      exact hnew
    · cases hw
  refine ⟨⟨⟨⟨[], rfl, rfl, nofun⟩, 0, rfl⟩, fun s echoTx hs => ?_⟩, nofun,
    fun s echoTx hs => ?_⟩
  · exact ⟨roundLedger_new (hnew s echoTx hs), (completion_new (hnew s echoTx hs)).1⟩
  · obtain ⟨_, hsize, hisNew⟩ := isNew_of_new_eq_ok (hnew s echoTx hs)
    refine ⟨hisNew.sessionId_eq, ?_, nofun, ?_⟩
    · rw [hisNew.fromNetwork_eq]
      nofun
    · -- nothing is buffered yet
      unfold RoundComplete
      rw [length_readyRound, hisNew.pendingIncoming_eq, hisNew.n_eq]
      show 0 ≠ _
      omega

omit [DecidableEq P] in
theorem takenBy_eq_nil {t : Session P ρ κ} {l : WrapLabel P ρ}
    (h : ∀ now turn, l ≠ .pollComputation now turn) : takenBy t l = [] := by
  cases l with
  | pollComputation now turn => exact absurd rfl (h now turn)
  | _ => rfl

/-- A poll that does not return keeps the session's id. -/
theorem sessionId_of_pending (hn : 2 ≤ s.n) (hpoll : s.poll echoTx now turn = .pending st) :
    st.exec.sessionId = s.sessionId := by
  refine pending_induction (fun st => st.exec.sessionId = s.sessionId) hn hpoll
    (fun st hout => (frame_takesOutgoing now hout).sessionId) (fun _ _ _ hst => hst)
    (fun st st' hintake hst => (frame_intake hintake).sessionId.trans hst)
    (fun _ _ hst => hst) fun st hst => ?_
  unfold ProtocolExecution.pollAgent
  cases turn.result <;> exact hst

/-- A poll that does not return. -/
theorem InboxLive.pending {received : List (IncomingRequest P ρ)}
    (h : InboxLive sessionId peerset received s) (hn : 2 ≤ s.n)
    (hpoll : s.poll echoTx now turn = .pending st) :
    InboxLive sessionId peerset (received ++ s.fromNetwork.take 1) st.exec := by
  have hacc : ∀ m ∈ s.fromNetwork, s.accepts m = true := by
    intro m hm
    rw [ProtocolExecution.accepts, h.session, Bool.and_comm]
    exact (fromRemote_iff.mp (h.queued m hm)).1
  obtain ⟨hkept, hincomplete⟩ := h.kept.pending hn hacc hpoll
  refine ⟨(sessionId_of_pending hn hpoll).trans h.session, fun m hm => h.queued m ?_, hkept,
    hincomplete⟩
  rw [fromNetwork_of_pending hn hpoll] at hm
  exact List.mem_of_mem_tail hm

/-- Every step keeps the ledger. -/
theorem inboxLedger_step [Blake2s256] {t t' : Inbox P ρ κ} {l : WrapLabel P ρ}
    (ht : InboxLedger sessionId peerset t) (hl : deliversRemote sessionId peerset l = true)
    (h : t.step l = some t') : InboxLedger sessionId peerset t' := by
  obtain ⟨session, hstep, rfl⟩ := Option.map_eq_some_iff.mp h
  have htaken : ∀ m ∈ takenBy t.session l, fromRemote sessionId peerset m = true := by
    intro m hm
    unfold takenBy at hm
    split at hm
    · split at hm
      · rename_i s echoTx hs
        exact (ht.live s echoTx hs).queued m (List.mem_of_mem_take hm)
      · cases hm
    · cases hm
  refine ⟨?_, ?_, ?_⟩
  · -- a poll hands on what it or an earlier poll has taken
    have hgrow : ∀ m, m ∈ t.received → m ∈ t.received ++ takenBy t.session l :=
      fun m hm => List.mem_append_left _ hm
    refine sessionRounds_step (ht.rounds.mono hgrow) ?_ hstep
    rintro now turn s echoTx m rfl hs hhead
    obtain ⟨rest, hrest⟩ := List.head?_eq_some_iff.mp hhead
    refine List.mem_append_right _ ?_
    rw [takenBy, hs]
    show m ∈ s.fromNetwork.take 1
    rw [hrest]
    exact List.mem_cons_self
  · intro m hm
    rcases List.mem_append.mp hm with hm | hm
    · exact ht.received m hm
    · exact htaken m hm
  · intro s' echoTx' hs'
    show InboxLive sessionId peerset (t.received ++ takenBy t.session l) s'
    cases sessionSteps_step hstep with
    | @pending _ now turn s echoTx st hs hpoll hexec _ _ =>
        rw [hexec] at hs'
        cases hs'
        rw [takenBy, hs]
        exact (ht.live s echoTx hs).pending (ht.rounds.running s echoTx hs).2.two_le hpoll
    | ready _ _ hexec _ _ =>
        rw [hexec] at hs'
        cases hs'
    | panics _ _ hstate _ =>
        rw [Session.execution, hstate] at hs'
        cases hs'
    | @delivers _ m s echoTx hs hexec _ _ =>
        rw [hexec] at hs'
        cases hs'
        have hlive := ht.live s _ hs
        have htakes : takenBy t.session (.deliver m) = [] := rfl
        rw [htakes, List.append_nil]
        refine ⟨hlive.session, fun m' hm' => ?_, hlive.kept, hlive.incomplete⟩
        rcases List.mem_append.mp hm' with hm' | hm'
        · exact hlive.queued m' hm'
        · rw [List.mem_singleton.mp hm']
          exact hl
    | keeps _ hpoll hexec _ _ _ =>
        obtain ⟨_, hs⟩ := hexec s' _ hs'
        rw [takenBy_eq_nil hpoll, List.append_nil]
        exact ht.live s' _ hs

/-- A round of the ledger has one message of every remote member. -/
theorem map_fst_of_completeRound {received : List (IncomingRequest P ρ)} {k : Nat}
    {round : List (Nat × IncomingRequest P ρ)} (hnodup : peerset.peers.Nodup)
    (hlocal : peerset.localPeerId ∈ peerset.peers) (hsmall : peerset.size < 2 ^ 16)
    (hreceived : ∀ m ∈ received, fromRemote sessionId peerset m = true)
    (h : CompleteRound (· ∈ received) (asU16 peerset.size - 1) k round) :
    round.map Prod.fst = remoteNumbers peerset := by
  refine eq_remoteNumbers hnodup hlocal ?_ h.senders ?_
  · rw [List.length_map, h.length, asU16, Nat.mod_eq_of_lt hsmall]
  · intro sender hsender
    obtain ⟨r, hr, rfl⟩ := List.mem_map.mp hsender
    obtain ⟨hm, _, hkey⟩ := h.messages r hr
    rw [(Prod.mk.inj hkey).1]
    exact mem_remoteNumbers hsmall (hreceived r.2 hm)

/-- If every remote member's message of the next round were there, the
round would be complete. -/
theorem InboxLive.missing {received : List (IncomingRequest P ρ)} {trace : List (Effect P ρ κ)}
    (hnodup : peerset.peers.Nodup) (hlocal : peerset.localPeerId ∈ peerset.peers)
    (hsmall : peerset.size < 2 ^ 16)
    (hreceived : ∀ m ∈ received, fromRemote sessionId peerset m = true)
    (hledger : RoundLedger (· ∈ received) (asU16 peerset.size - 1) trace s)
    (h : InboxLive sessionId peerset received s) :
    ∃ sender ∈ remoteNumbers peerset, ∀ m ∈ received, m.isBroadcast = true →
      m.peerIndex + 1 = sender → m.context.messageId ≠ s.nextIncomingBroadcastId := by
  by_contra hall
  push Not at hall
  refine h.incomplete ?_
  -- the buffered senders of the round are the remote members
  have hiff : ∀ sender,
      sender ∈ readySenders s.pendingIncoming s.nextIncomingBroadcastId ↔
        sender ∈ remoteNumbers peerset := by
    intro sender
    rw [mem_readySenders]
    constructor
    · intro hmem
      obtain ⟨m, hm⟩ := Option.isSome_iff_exists.mp
        (Std.TreeMap.isSome_getElem?_iff_mem.mpr hmem)
      obtain ⟨hin, _, hkey⟩ := hledger.buffered _ m hm
      rw [(Prod.mk.inj hkey).1]
      exact mem_remoteNumbers hsmall (hreceived m hin)
    · intro hmem
      obtain ⟨m, hm, hb, hsender, hid⟩ := hall sender hmem
      rw [← hsender, ← hid]
      exact h.kept m hm hb (Nat.le_of_eq hid.symm)
  have hperm := (List.perm_ext_iff_of_nodup (nodup_readySenders _ _)
    ((pairwise_remoteNumbers peerset).imp Nat.ne_of_lt)).mpr hiff
  show (readyRound s).length = s.n - 1
  rw [length_readyRound, hperm.length_eq, length_remoteNumbers hnodup hlocal, hledger.n_eq,
    asU16, Nat.mod_eq_of_lt hsmall]
  rfl

/-- The rounds handed in are those that all remotes have sent, in order. -/
theorem roundSynchronous_of_inboxLedger {t : Inbox P ρ κ} (hnodup : peerset.peers.Nodup)
    (hlocal : peerset.localPeerId ∈ peerset.peers) (hsmall : peerset.size < 2 ^ 16)
    (h : InboxLedger sessionId peerset t) : RoundSynchronous peerset t := by
  have hcomplete : ∀ rounds, Rounds (· ∈ t.received) (asU16 peerset.size - 1) rounds
      t.session.trace → ∀ (k : Nat) (round : List (Nat × IncomingRequest P ρ)),
      rounds[k]? = some round → round.map Prod.fst = remoteNumbers peerset ∧
      ∀ r ∈ round, r.2 ∈ t.received ∧ r.2.isBroadcast = true ∧
        r.1 = r.2.peerIndex + 1 ∧ r.2.context.messageId = k := by
    intro rounds hrounds k round hround
    have hk := hrounds.complete k round hround
    refine ⟨map_fst_of_completeRound hnodup hlocal hsmall h.received hk, fun r hr => ?_⟩
    obtain ⟨hm, hb, hkey⟩ := hk.messages r hr
    exact ⟨hm, hb, (Prod.mk.inj hkey).1, (Prod.mk.inj hkey).2.symm⟩
  obtain ⟨⟨rounds, hrounds⟩, hsent⟩ := h.rounds.trace
  refine ⟨?_, hrounds.nodup, hsent⟩
  cases hexec : t.session.execution with
  | none => exact ⟨rounds, hrounds.agent, hrounds.gadget, hcomplete rounds hrounds, nofun⟩
  | some running =>
      obtain ⟨hledger, _⟩ := h.rounds.running running.1 running.2 hexec
      obtain ⟨rounds, hlength, hrounds⟩ := hledger.rounds
      refine ⟨rounds, hrounds.agent, hrounds.gadget, hcomplete rounds hrounds, fun _ => ?_⟩
      rw [hlength]
      exact (h.live running.1 running.2 hexec).missing hnodup hlocal hsmall h.received hledger

/-- Take a session of distinct peers, fewer than `2 ^ 16` of them, and
any run in which the remote members send it what they like. In every
state of it the broadcasts have been handed on round by round. -/
theorem roundSynchronous [Blake2s256] (sessionId : SessionId) (protocolId : Nat)
    (peerset : Peerset P) (pendingResponse : Option κ) {t : Inbox P ρ κ}
    (hnodup : peerset.peers.Nodup) (hlocal : peerset.localPeerId ∈ peerset.peers)
    (hsmall : peerset.size < 2 ^ 16)
    (hreach : Reach Inbox.step (fun _ l => deliversRemote sessionId peerset l = true)
      (Inbox.start sessionId protocolId peerset pendingResponse) t) :
    RoundSynchronous peerset t :=
  roundSynchronous_of_inboxLedger hnodup hlocal hsmall
    (hreach.invariant (inboxLedger_start protocolId pendingResponse) fun _ _ _ ht hl hstep =>
      inboxLedger_step ht hl hstep)

end Run

namespace LateBroadcasts

open scoped IdentityHash

def peerset : Peerset Nat where
  localPeerId := 10
  peers := [10, 11, 12]
  parties := []

/-- A broadcast of the member with this index. -/
def broadcast (index messageId : Nat) (body : Bytes) : IncomingRequest Nat Nat where
  context :=
    { messageType := .computation, protocolId := 1, sessionId := noSessionId,
      messageId := messageId }
  peerId := 10 + index
  isBroadcast := true
  peerIndex := index
  payload := body
  pendingResponse := 0

/-- A poll in which the agent takes what is there. -/
def poll : WrapLabel Nat Nat := .pollComputation 0 { received := 2, sent := [], result := none }

/-- The broadcasts of the third peer come in the wrong order, and one of
the second comes twice. -/
def labels : List (WrapLabel Nat Nat) :=
  [.deliver (broadcast 2 1 [21]), poll, .deliver (broadcast 1 0 [10]), poll,
    .deliver (broadcast 1 0 [10]), poll, .deliver (broadcast 2 0 [20]), poll,
    .deliver (broadcast 1 1 [11]), poll]

/-- Both rounds come out in order. -/
theorem roundSynchronous_lateBroadcasts :
    ∃ t : Inbox Nat Nat Unit,
      runIf Inbox.step (fun _ l => deliversRemote noSessionId peerset l)
        (Inbox.start noSessionId 1 peerset none) labels = some t ∧
      broadcastRequestsIn t.session.trace =
        [⟨2, none, [10]⟩, ⟨3, none, [20]⟩, ⟨2, none, [11]⟩, ⟨3, none, [21]⟩] ∧
      RoundSynchronous peerset t := by
  refine ⟨_, rfl, rfl, ?_⟩
  exact roundSynchronous noSessionId 1 peerset none (by decide) (by decide) (by decide)
    (reach_of_runIf labels rfl)

end LateBroadcasts

namespace CrowdedRoom

open LateBroadcasts (poll)

open scoped IdentityHash

/-- More members than `u16` has values. -/
def peerset : Peerset Nat where
  localPeerId := 10
  peers := 10 :: 11 :: List.range' 12 65536
  parties := []

/-- The execution the worker starts with a peerset whose truncated size
is two. -/
def running (p : Peerset Nat) : Inbox Nat Nat Unit where
  session :=
    { state := .running
        { echo := EchoGadget.new p.size
          echoRx := []
          responses := fun _ => { queue := [], closed := false }
          computation := some
            { sessionId := noSessionId
              protocolId := 1
              peerset := p
              fromNetwork := []
              toProtocol := []
              fromProtocol := []
              agentFuture := true
              agentResult := none
              completionDelay := none
              pendingResponse := none
              nextOutgoingBroadcastId := 0
              nextIncomingBroadcastId := 0
              pendingIncoming := ∅
              i := 0
              n := 2 }
          echoFinished := false }
      trace := [] }
  received := []

/-- One message makes a round there. -/
theorem run_running (p : Peerset Nat) :
    ∃ t, run Inbox.step (running p) [.deliver (LateBroadcasts.broadcast 1 0 [10]), poll]
        = some t ∧ broadcastRequestsIn t.session.trace = [⟨2, none, [10]⟩] :=
  ⟨_, rfl, rfl⟩

theorem size_peerset : peerset.size = 65538 := by
  simp [Peerset.size, peerset]

theorem start_peerset : Inbox.start noSessionId 1 peerset none = running peerset := by
  have hindex : peerset.indexOf peerset.localPeerId = some 0 := rfl
  have hsize : asU16 peerset.size = 2 := by
    rw [size_peerset]
    rfl
  rw [Inbox.start, WrapExecution.new, ProtocolExecution.new, hindex, hsize]
  rfl

/-- A single broadcast is handed on as a complete round, although 65536
others are missing. -/
theorem not_roundSynchronous_crowdedRoom :
    peerset.peers.Nodup ∧ peerset.localPeerId ∈ peerset.peers ∧
    ∃ t : Inbox Nat Nat Unit,
      Reach Inbox.step (fun _ l => deliversRemote noSessionId peerset l = true)
        (Inbox.start noSessionId 1 peerset none) t ∧ ¬ RoundSynchronous peerset t := by
  have hnodup : peerset.peers.Nodup := by
    simp [peerset, List.nodup_range']
  have hlocal : peerset.localPeerId ∈ peerset.peers := List.mem_cons_self
  refine ⟨hnodup, hlocal, ?_⟩
  obtain ⟨t, hrun, hbroadcasts⟩ := run_running peerset
  obtain ⟨t₁, ht₁, hrest⟩ := Option.bind_eq_some_iff.mp hrun
  obtain ⟨t₂, ht₂, hend⟩ := Option.bind_eq_some_iff.mp hrest
  cases hend
  refine ⟨t, ?_, fun h => ?_⟩
  · rw [start_peerset]
    refine Reach.next poll (Reach.next _ Reach.start ?_ ht₁) rfl ht₂
    rfl
  · -- every round would have 65537 messages
    obtain ⟨rounds, hagent, _, hcomplete, _⟩ := h.rounds
    rw [hbroadcasts] at hagent
    cases rounds with
    | nil => cases hagent
    | cons round rounds =>
        have hlength := congrArg List.length (hcomplete 0 round rfl).1
        rw [length_remoteNumbers hnodup hlocal, size_peerset, List.length_map] at hlength
        have hone := congrArg List.length hagent
        rw [requestsOf, List.length_map, List.flatten_cons, List.length_append, hlength] at hone
        simp only [List.length_singleton] at hone
        omega

end CrowdedRoom

end FrostMpcTss.Proofs
