import FrostMpcTss.Tss.Agent

/-!
# `FrostMpcTss.Session.AgentRun`: one agent and its two channels

An agent on its own: the requests of the other parties arrive in some
order, the execution takes the agent's messages, and the agent is polled,
each at any time. A request that has arrived stays in the channel until the
agent takes it.
-/

set_option autoImplicit false

namespace FrostMpcTss.Session

open Network Service

/-- What can happen to the agent. -/
inductive AgentEvent where
  /-- The next request arrives. -/
  | deliver
  /-- The execution takes a message of the agent. -/
  | take
  | poll
deriving Repr, DecidableEq

/-- An agent with its channels. -/
structure AgentRun (σ : Type) where
  agent : σ
  /-- The requests that have not arrived. -/
  pending : List AgentRequest
  incoming : List AgentRequest
  outgoing : List AgentMessage
  result : Option AgentResult

namespace AgentRun

variable {σ : Type}

def start (agent : σ) (order : List AgentRequest) : AgentRun σ where
  agent := agent
  pending := order
  incoming := []
  outgoing := []
  result := none

/-- A future that has returned is not polled again. -/
def step (poll : σ → List AgentRequest → List AgentMessage → σ × AgentTurn) (t : AgentRun σ) :
    AgentEvent → AgentRun σ
  | .deliver =>
      match t.pending with
      | [] => t
      | req :: pending => { t with pending := pending, incoming := t.incoming ++ [req] }
  | .take => { t with outgoing := t.outgoing.drop 1 }
  | .poll =>
      match t.result with
      | some _ => t
      | none =>
          let (agent, turn) := poll t.agent t.incoming t.outgoing
          { t with
              agent := agent
              incoming := t.incoming.drop turn.received
              outgoing := t.outgoing ++ turn.sent
              result := turn.result }

/-- The events one after the other. -/
def run (poll : σ → List AgentRequest → List AgentMessage → σ × AgentTurn) (t : AgentRun σ)
    (events : List AgentEvent) : AgentRun σ :=
  events.foldl (step poll) t

end AgentRun

end FrostMpcTss.Session
