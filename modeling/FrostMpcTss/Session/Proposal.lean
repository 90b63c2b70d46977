import FrostMpcTss.Lib.Transition
import FrostMpcTss.Service.Coordination

/-!
# `FrostMpcTss.Session.Proposal`: a proposer and the peers it proposes to

One node runs a `NegotiationChannel`. The others listen in
`Phase1Channel`s, and in the `Phase2Channel` of a session after they have
answered its proposal. All of them read one clock.

Every broadcast puts a proposal on its way to each of the other peers. A
proposal may be read at any later time or never, and so may the answers
and the start messages. What the proposer finds in its response channel
is up to the environment, except that an `Ok` is the answer of a peer. The
other messages a peer may find are those of other sessions.
-/

set_option autoImplicit false

namespace FrostMpcTss.Session

open Lib Network Service

/-- Where a peer's receiver is. A peer that runs a session or negotiates
itself has left. -/
inductive PeerStage (P ρ : Type) where
  | phase1 (c : Phase1Channel P ρ)
  | phase2 (c : Phase2Channel P ρ)
  | left

/-- A peer, and when it last answered a proposal of the session. -/
structure ListeningPeer (P ρ : Type) where
  stage : PeerStage P ρ
  answeredAt : Option Nat

inductive Proposer (P κ : Type) where
  | negotiating (c : NegotiationChannel P κ)
  /-- It has returned `Start`. -/
  | started (peerset : Peerset P)
  | ended

/-- What the negotiation is made from, and to whom it is broadcast. -/
structure ProposalConfig (P κ : Type) where
  roomId : RoomId
  localPeerId : P
  others : List P
  n : Nat
  request : Bytes
  protocolId : Nat
  sessionId : SessionId
  pendingResponse : κ

/-- The proposals, the answers and the start message with its recipients
are those that may still be read. -/
structure Proposal (P ρ κ : Type) where
  clock : Nat
  proposer : Proposer P κ
  proposals : List P
  answers : List P
  startMsg : Option (Bytes × List P)
  peers : P → ListeningPeer P ρ

/-- What `try_next` finds for a peer. -/
inductive PeerMessage (P ρ : Type) where
  | nothing
  | proposal (tx : ρ)
  | start (tx : ρ)
  | other (m : IncomingRequest P ρ)

inductive ProposalLabel (P ρ κ : Type) where
  | tick (d : Nat)
  | pollProposer (response : ResponsePoll P) (connected : Option Nat)
  | pollPeer (x : P) (message : PeerMessage P ρ) (request : TryRecv (LocalRpcMsg κ))
      (sessionId : SessionId) (makesAgent : Bool) (fresh : Nat)
  /-- A session or a negotiation of the peer is over. -/
  | comeBack (x : P) (c : Phase1Channel P ρ)

namespace Proposal

variable {P ρ κ : Type}

def start (cfg : ProposalConfig P κ) : Proposal P ρ κ where
  clock := 0
  proposer := .negotiating
    (NegotiationChannel.new cfg.roomId 0 cfg.n cfg.request cfg.localPeerId cfg.protocolId
      cfg.pendingResponse cfg.sessionId 0)
  proposals := []
  answers := []
  startMsg := none
  peers := fun _ => { stage := .phase1 (Phase1Channel.new cfg.roomId 0 0), answeredAt := none }

/-- A coordination message of the proposer. -/
def message (cfg : ProposalConfig P κ) (payload : Bytes) (tx : ρ) : IncomingRequest P ρ where
  context :=
    { messageType := .coordination
      protocolId := cfg.protocolId
      sessionId := cfg.sessionId
      messageId := 0 }
  peerId := cfg.localPeerId
  isBroadcast := true
  peerIndex := 0
  payload := payload
  pendingResponse := tx

/-- A coordination message of the proposer's session. -/
def ofSession (cfg : ProposalConfig P κ) (m : IncomingRequest P ρ) : Bool :=
  m.context.messageType = .coordination && m.context.sessionId = cfg.sessionId

/-- The message a peer reads, if it can be there. A proposal has no
payload. -/
def nextFor [DecidableEq P] (cfg : ProposalConfig P κ) (t : Proposal P ρ κ) (x : P) :
    PeerMessage P ρ → Option (Option (IncomingRequest P ρ))
  | .nothing => some none
  | .proposal tx => if x ∈ t.proposals then some (some (message cfg [] tx)) else none
  | .start tx =>
      match t.startMsg with
      | some (payload, recipients) =>
          if x ∈ recipients then some (some (message cfg payload tx)) else none
      | none => none
  | .other m => if ofSession cfg m then none else some (some m)

/-- What is left to be read. -/
def remove [DecidableEq P] (t : Proposal P ρ κ) (x : P) : PeerMessage P ρ → Proposal P ρ κ
  | .proposal _ => { t with proposals := t.proposals.erase x }
  | .start _ => { t with startMsg := t.startMsg.map fun s => (s.1, s.2.erase x) }
  | _ => t

def setStage [DecidableEq P] (t : Proposal P ρ κ) (x : P) (stage : PeerStage P ρ) :
    Proposal P ρ κ :=
  { t with peers := Function.update t.peers x { t.peers x with stage := stage } }

/-- The worker of a peer has answered a proposal, and awaits phase 2. -/
def answer [DecidableEq P] (t : Proposal P ρ κ) (x : P) (channel : Phase2Channel P ρ) :
    PeerMessage P ρ → Proposal P ρ κ
  | .proposal _ =>
      { t with
          answers := t.answers ++ [x]
          peers := Function.update t.peers x
            { stage := .phase2 channel, answeredAt := some t.clock } }
  | _ => t.setStage x (.phase2 channel)

def afterPhase1 [DecidableEq P] (t : Proposal P ρ κ) (x : P) (message : PeerMessage P ρ)
    (makesAgent : Bool) (fresh : Nat) : Phase1Poll P ρ κ → Proposal P ρ κ
  | .pending c _ => t.setStage x (.phase1 c)
  | .fromRemote _ _ _ _ channel =>
      if makesAgent then t.answer x channel message
      else t.setStage x (.phase1 (channel.abort fresh).2.1)
  | .fromLocal _ _ _ _ => t.setStage x .left
  | .panic _ => t.setStage x .left

def afterPhase2 [DecidableEq P] (t : Proposal P ρ κ) (x : P) : Phase2Poll P ρ → Proposal P ρ κ
  | .pending c _ => t.setStage x (.phase2 c)
  | .start _ _ _ _ _ => t.setStage x .left
  | .abort _ phase1 _ => t.setStage x (.phase1 phase1)
  | .panic _ => t.setStage x .left

def afterNegotiation (cfg : ProposalConfig P κ) (t : Proposal P ρ κ) :
    NegotiationPoll P ρ κ → Proposal P ρ κ
  | .pending c => { t with proposer := .negotiating c }
  | .proposed c =>
      { t with proposer := .negotiating c, proposals := t.proposals ++ cfg.others }
  | .start _ _ _ peerset _ _ peers startMsg =>
      { t with proposer := .started peerset, startMsg := some (startMsg, peers) }
  | .abort _ _ _ => { t with proposer := .ended }
  | .panic _ => { t with proposer := .ended }

/-- The answers that are left after a response was read. -/
def takeAnswer [DecidableEq P] (t : Proposal P ρ κ) : ResponsePoll P → Option (Proposal P ρ κ)
  | .ok x => if x ∈ t.answers then some { t with answers := t.answers.erase x } else none
  | _ => some t

def step [DecidableEq P] [PeerIdCodec P] [UnsignedVarint] (cfg : ProposalConfig P κ)
    (t : Proposal P ρ κ) : ProposalLabel P ρ κ → Option (Proposal P ρ κ)
  | .tick d => some { t with clock := t.clock + d }
  | .pollProposer response connected =>
      match t.proposer with
      | .negotiating c =>
          (t.takeAnswer response).map fun t =>
            t.afterNegotiation cfg
              (c.poll { now := t.clock, response := response, connected := connected } 0)
      | _ => none
  | .pollPeer x message request sessionId makesAgent fresh =>
      (t.nextFor cfg x message).bind fun next =>
        match (t.peers x).stage with
        | .phase1 c =>
            some ((t.remove x message).afterPhase1 x message makesAgent fresh
              (c.poll x next request sessionId t.clock))
        | .phase2 c =>
            some ((t.remove x message).afterPhase2 x (c.poll x next t.clock fresh))
        | .left => none
  | .comeBack x c =>
      match (t.peers x).stage with
      | .left => some (t.setStage x (.phase1 c))
      | _ => none

end Proposal

end FrostMpcTss.Session
