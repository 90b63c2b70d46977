import FrostMpcTss.Lib.Transition
import FrostMpcTss.Service.Coordination
import FrostMpcTss.Session.AgentNet

/-!
# `FrostMpcTss.Session.Joiner`: a peer that joins a session

A joiner listens to its room in a `Phase1Channel`. The first proposal it
reads makes a `Phase2Channel` of it, and the start message of that
session makes a `ReceiverProxy` and an execution, whose queue is the
proxy's channel. Each hands its buffer on to the next.

The environment decides what `try_next` finds in a poll, so the messages
`read` are any sequence. A session that ends otherwise, or a request of
the local node, takes the room out of sight (`left`).
-/

set_option autoImplicit false

namespace FrostMpcTss.Session

open Lib Network Service

/-- Where the room's receiver is. `protocolId` is the one of the
proposal, which the worker makes the agent for. -/
inductive JoinerStage (P ρ κ : Type) where
  | phase1 (c : Phase1Channel P ρ)
  | phase2 (protocolId : Nat) (c : Phase2Channel P ρ)
  | started (proxy : ReceiverProxy P ρ) (session : Session P ρ κ)
  | left

/-- A joiner and the fate of the messages it has read: the proposal and
the start message are `coordination`, and `accepted` are those which the
execution has taken from its queue and not refused. The answers are
those of the channels and the proxy. -/
structure Joiner (P ρ κ : Type) where
  stage : JoinerStage P ρ κ
  read : List (IncomingRequest P ρ)
  coordination : List (IncomingRequest P ρ)
  accepted : List (IncomingRequest P ρ)
  answers : Answers ρ

/-- What can happen next. `makesAgent` says whether the agent factory
knows the proposal's protocol. -/
inductive JoinerLabel (P ρ κ : Type) where
  | pollPhase1 (next : Option (IncomingRequest P ρ)) (request : TryRecv (LocalRpcMsg κ))
      (sessionId : SessionId) (now : Nat) (makesAgent : Bool)
  | pollPhase2 (next : Option (IncomingRequest P ρ)) (now fresh : Nat)
  | pollProxy (next : Option (IncomingRequest P ρ)) (request : Nat)
  | session (l : WrapLabel P ρ)

namespace Joiner

variable {P ρ κ : Type}

/-- The joiner when its `Phase1Channel` is made. -/
def start (roomId : RoomId) (roomRx request : Nat) : Joiner P ρ κ where
  stage := .phase1 (Phase1Channel.new roomId roomRx request)
  read := []
  coordination := []
  accepted := []
  answers := []

/-- The session as the worker starts it for a joiner: nobody waits for
its result. -/
def startSession [DecidableEq P] (sessionId : SessionId) (protocolId : Nat)
    (peerset : Peerset P) : Session P ρ κ where
  state :=
    match WrapExecution.new peerset.size sessionId protocolId peerset none with
    | .ok w => .running w
    | .error why => .panicked why
  trace := []

/-- The messages in the proxy's channel. -/
def queue (session : Session P ρ κ) : List (IncomingRequest P ρ) :=
  match session.execution with
  | some (s, _) => s.fromNetwork
  | none => []

/-- The message a step of the session accepts: a poll of the execution
takes the head of its queue and checks it. -/
def acceptedBy (session : Session P ρ κ) : WrapLabel P ρ → List (IncomingRequest P ρ)
  | .pollComputation _ _ =>
      match session.execution with
      | some (s, _) => (s.fromNetwork.take 1).filter s.accepts
      | none => []
  | _ => []

/-- The worker takes the room's proposal: it answers it and awaits
phase 2, or gives up if it cannot make an agent. -/
def afterPhase1 (t : Joiner P ρ κ) (next : Option (IncomingRequest P ρ)) (makesAgent : Bool) :
    Phase1Poll P ρ κ → Joiner P ρ κ
  | .pending c answers =>
      { t with
          stage := .phase1 c
          read := t.read ++ next.toList
          answers := t.answers ++ answers }
  | .fromRemote _ protocolId _ _ channel =>
      if makesAgent then
        { t with
            stage := .phase2 protocolId channel
            read := t.read ++ next.toList
            coordination := t.coordination ++ next.toList }
      else { t with stage := .left }
  | .fromLocal _ _ _ _ => { t with stage := .left }
  | .panic _ => { t with stage := .left }

def afterPhase2 [DecidableEq P] (t : Joiner P ρ κ) (protocolId : Nat)
    (next : Option (IncomingRequest P ρ)) : Phase2Poll P ρ → Joiner P ρ κ
  | .pending c answers =>
      { t with
          stage := .phase2 protocolId c
          read := t.read ++ next.toList
          answers := t.answers ++ answers }
  | .start _ receiverProxy peerset _ sessionId =>
      { t with
          stage := .started receiverProxy (startSession sessionId protocolId peerset)
          read := t.read ++ next.toList
          coordination := t.coordination ++ next.toList }
  | .abort _ _ _ => { t with stage := .left }
  | .panic _ => { t with stage := .left }

/-- What the proxy sends enters the execution's queue. -/
def afterProxy [DecidableEq P] [Blake2s256] (t : Joiner P ρ κ) (session : Session P ρ κ)
    (next : Option (IncomingRequest P ρ)) : ProxyPoll P ρ → Option (Joiner P ρ κ)
  | .ready _ _ => some { t with stage := .left }
  | .pending proxy tookNext feed answers =>
      (run Session.step session (feed.map .deliver)).map fun session =>
        { t with
            stage := .started proxy session
            read := t.read ++ if tookNext then next.toList else []
            answers := t.answers ++ answers }

/-- One step of the joiner. Only the proxy delivers to the session. -/
def step [DecidableEq P] [Blake2s256] [PeerIdCodec P] [UnsignedVarint] (localPeerId : P)
    (t : Joiner P ρ κ) : JoinerLabel P ρ κ → Option (Joiner P ρ κ)
  | .pollPhase1 next request sessionId now makesAgent =>
      match t.stage with
      | .phase1 c =>
          some (t.afterPhase1 next makesAgent (c.poll localPeerId next request sessionId now))
      | _ => none
  | .pollPhase2 next now fresh =>
      match t.stage with
      | .phase2 protocolId c =>
          some (t.afterPhase2 protocolId next (c.poll localPeerId next now fresh))
      | _ => none
  | .pollProxy next request =>
      match t.stage with
      | .started proxy session =>
          t.afterProxy session next
            (proxy.poll session.execution.isNone (queue session).length next request)
      | _ => none
  | .session (.deliver _) => none
  | .session l =>
      match t.stage with
      | .started proxy session =>
          (session.step l).map fun session' =>
            { t with
                stage := .started proxy session'
                accepted := t.accepted ++ acceptedBy session l }
      | _ => none

end Joiner

end FrostMpcTss.Session
