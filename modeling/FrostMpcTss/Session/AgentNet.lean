import FrostMpcTss.Session.Net

/-!
# `FrostMpcTss.Session.AgentNet`: honest parties with their agents

In `Net` an agent may do anything in its turns. Here every party is
honest and runs a given agent, whose turn is computed from what it finds
in its channels when the execution polls it. A message is delivered to
each of its recipients once, in any order.
-/

set_option autoImplicit false

namespace FrostMpcTss.Service

/-- The execution of a session and the gadget's channel, while the
execution runs. -/
def Session.execution {P ρ κ : Type} (t : Session P ρ κ) :
    Option (ProtocolExecution P ρ κ × List (EchoMessage ρ)) :=
  match t.state with
  | .running w => w.computation.map fun s => (s, w.echoRx)
  | _ => none

end FrostMpcTss.Service

namespace FrostMpcTss.Session

open Network Service

/-- The agents of the parties: their state before the first poll, and a
poll with what is in the incoming channel and with the own messages not
yet taken. -/
structure Agents (σ : Type) (n : Nat) where
  start : Fin n → σ
  poll : Fin n → σ → List AgentRequest → List AgentMessage → σ × AgentTurn

/-- A message on its way: its sender, its recipient, and its id if it is
a broadcast. -/
structure Delivery (n : Nat) where
  sender : Fin n
  recipient : Fin n
  messageId : Option Nat
deriving Repr, DecidableEq

/-- The parties, their agents and the messages delivered so far. -/
structure AgentNet (P κ σ : Type) (n : Nat) where
  net : Net P κ n
  agents : Fin n → σ
  delivered : List (Delivery n)

/-- What can happen next. -/
inductive AgentLabel (n : Nat) where
  | poll (j : Fin n) (now : Nat)
  | echo (j : Fin n)
  | close (j : Fin n) (messageId : Nat)
  | broadcast (s r : Fin n) (messageId : Nat) (payload : Bytes)
  | direct (s r : Fin n) (payload : Bytes)
  | respond (s r : Fin n) (messageId : Nat) (response : Except RequestFailure Bytes)

variable {P κ σ : Type} {n : Nat}

/-- The turn in which an agent does nothing. -/
def idleTurn : AgentTurn where
  received := 0
  sent := []
  result := none

/-- What the agent finds in its channels when this poll reaches it. -/
def agentView {ρ : Type} [DecidableEq P] (s : ProtocolExecution P ρ κ)
    (echoTx : List (EchoMessage ρ)) (now : Nat) :
    Option (List AgentRequest × List AgentMessage) :=
  if s.agentFuture && s.fromNetwork.head?.all s.accepts then
    match s.poll echoTx now idleTurn with
    | .pending st => some (st.exec.toProtocol, st.exec.fromProtocol)
    | _ => none
  else none

namespace AgentNet

/-- All parties have just started. -/
def start [DecidableEq P] (cfg : Config P κ n) (agents : Agents σ n) : AgentNet P κ σ n where
  net := cfg.start
  agents := agents.start
  delivered := []

/-- A party's execution is polled, and its agent with it. -/
def pollParty [DecidableEq P] [Blake2s256] (cfg : Config P κ n) (agents : Agents σ n)
    (t : AgentNet P κ σ n) (j : Fin n) (now : Nat) : Option (AgentNet P κ σ n) :=
  match (t.net.sessions j).execution with
  | none => none
  | some (s, echoTx) =>
      match agentView s echoTx now with
      | some (incoming, outgoing) =>
          let (agent, turn) := agents.poll j (t.agents j) incoming outgoing
          (t.net.step cfg (.poll j now turn)).map fun net =>
            { t with net := net, agents := Function.update t.agents j agent }
      | none => (t.net.step cfg (.poll j now idleTurn)).map fun net => { t with net := net }

/-- A message is delivered for the first time. -/
def deliver [DecidableEq P] [Blake2s256] (cfg : Config P κ n) (t : AgentNet P κ σ n)
    (d : Delivery n) (l : NetLabel n) : Option (AgentNet P κ σ n) :=
  if d ∈ t.delivered then none
  else
    (t.net.step cfg l).map fun net => { t with net := net, delivered := t.delivered ++ [d] }

/-- One step of the parties, their agents and their network. -/
def step [DecidableEq P] [Blake2s256] (cfg : Config P κ n) (agents : Agents σ n)
    (t : AgentNet P κ σ n) : AgentLabel n → Option (AgentNet P κ σ n)
  | .poll j now => t.pollParty cfg agents j now
  | .echo j => (t.net.step cfg (.echo j)).map fun net => { t with net := net }
  | .close j messageId =>
      (t.net.step cfg (.close j messageId)).map fun net => { t with net := net }
  | .broadcast s r messageId payload =>
      t.deliver cfg { sender := s, recipient := r, messageId := some messageId }
        (.broadcast s r messageId payload)
  | .direct s r payload =>
      t.deliver cfg { sender := s, recipient := r, messageId := none } (.direct s r payload)
  | .respond s r messageId response =>
      (t.net.step cfg (.respond s r messageId response)).map fun net => { t with net := net }

end AgentNet

end FrostMpcTss.Session
