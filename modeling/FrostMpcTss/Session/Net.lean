import FrostMpcTss.Service.WrapExecution

/-!
# `FrostMpcTss.Session.Net`: the parties of one session and their network

`n` parties run one session over the same ordered peerset. Each honest
party is a `Session`, with any agent and any clock. A party that is
not honest has no session of its own: it may send anything, to every
peer something else, and answer anything.

The network delivers in any order. A message of an honest party is
delivered only if that party has sent it, and an honest party's echo
reaches the requester only if that party has given it. Of each
broadcast every peer gives one response at most, or the request fails:
a request has one response.

Messages reach an execution through the receiver proxy, which lets
only the session's computation messages of members pass and writes the
sender's index into them; `Net.step` delivers them in that form.
-/

set_option autoImplicit false

namespace FrostMpcTss.Session

open Network Service

/-- The answer handle of a request: whose it was, and which broadcast. -/
inductive Handle (n : Nat) where
  | echo (requester : Fin n) (messageId : Nat)
  | direct (requester : Fin n)
deriving Repr, DecidableEq

/-- A session's parties. -/
structure Config (P κ : Type) (n : Nat) where
  sessionId : SessionId
  protocolId : Nat
  peers : Fin n → P
  peers_injective : Function.Injective peers
  honest : Fin n → Bool
  rpcCaller : Fin n → Option κ

/-- Parties that are all honest. Their peer ids are their positions. -/
def Config.numbered {κ : Type} (n protocolId : Nat) : Config Nat κ n where
  sessionId := noSessionId
  protocolId := protocolId
  peers := Fin.val
  peers_injective := Fin.val_injective
  honest _ := true
  rpcCaller _ := none

/-- A response that reached its requester. -/
structure Answer (P : Type) (n : Nat) where
  requester : Fin n
  messageId : Nat
  responder : Fin n
  echo : RemoteEcho P

/-- The sessions of the parties and the responses delivered so far. -/
structure Net (P κ : Type) (n : Nat) where
  sessions : Fin n → Session P (Handle n) κ
  answered : List (Answer P n)

/-- What can happen next. -/
inductive NetLabel (n : Nat) where
  /-- A party's execution is polled. -/
  | poll (j : Fin n) (now : Nat) (turn : AgentTurn)
  /-- A party's echo gadget runs. -/
  | echo (j : Fin n)
  /-- The last sender of a party's response channel goes away. -/
  | close (j : Fin n) (messageId : Nat)
  | broadcast (s r : Fin n) (messageId : Nat) (payload : Bytes)
  | direct (s r : Fin n) (payload : Bytes)
  /-- The response of `r` to a broadcast of `s` arrives, or its failure. -/
  | respond (s r : Fin n) (messageId : Nat) (response : Except RequestFailure Bytes)

variable {P κ : Type} {n : Nat}

namespace Config

/-- The peerset as party `j` sees it. -/
def peerset (cfg : Config P κ n) (j : Fin n) : Peerset P where
  localPeerId := cfg.peers j
  peers := List.ofFn cfg.peers
  parties := (List.range n).map Nat.toUInt64

/-- A session as the worker starts it. -/
def startSession [DecidableEq P] (cfg : Config P κ n) (j : Fin n) :
    Session P (Handle n) κ where
  state :=
    match WrapExecution.new n cfg.sessionId cfg.protocolId (cfg.peerset j)
        (cfg.rpcCaller j) with
    | .ok w => .running w
    | .error why => .panicked why
  trace := []

/-- All parties have just started. -/
def start [DecidableEq P] (cfg : Config P κ n) : Net P κ n where
  sessions := cfg.startSession
  answered := []

/-- A broadcast of `s` as the receiver's proxy hands it on. The index is
the one that `forwardOrReject` writes (`forwardOrReject_of_party`). -/
def broadcastRequest (cfg : Config P κ n) (s : Fin n) (messageId : Nat) (payload : Bytes) :
    IncomingRequest P (Handle n) where
  context :=
    { messageType := .computation
      protocolId := cfg.protocolId
      sessionId := cfg.sessionId
      messageId := messageId }
  peerId := cfg.peers s
  isBroadcast := true
  peerIndex := asU16 s
  payload := payload
  pendingResponse := .echo s messageId

/-- A direct message of `s` as the receiver's proxy hands it on. -/
def directRequest (cfg : Config P κ n) (s : Fin n) (payload : Bytes) :
    IncomingRequest P (Handle n) where
  context :=
    { messageType := .computation
      protocolId := cfg.protocolId
      sessionId := cfg.sessionId
      messageId := 0 }
  peerId := cfg.peers s
  isBroadcast := false
  peerIndex := asU16 s
  payload := payload
  pendingResponse := .direct s

/-- A response of `r` as the requester's channel delivers it. -/
def remoteEcho (cfg : Config P κ n) (r : Fin n) :
    Except RequestFailure Bytes → RemoteEcho P
  | .ok hash => .ok (cfg.peers r, hash)
  | .error failure => .error failure

end Config

/-- The trace has this broadcast. -/
def multicasts (trace : List (Effect P (Handle n) κ)) (messageId : Nat) (payload : Bytes) :
    Bool :=
  trace.any fun
    | .multicast messageId' body _ => messageId' = messageId && body = payload
    | _ => false

/-- The trace has this direct message. -/
def sends [DecidableEq P] (trace : List (Effect P (Handle n) κ)) (peer : P)
    (payload : Bytes) : Bool :=
  trace.any fun
    | .sendDirect peer' body => peer' = peer && body = payload
    | _ => false

/-- The trace has this echo. -/
def echoes (trace : List (Effect P (Handle n) κ)) (tx : Handle n) (hash : Bytes) : Bool :=
  trace.any fun
    | .respond tx' (.ok hash') => tx' = tx && hash' = hash
    | _ => false

namespace Net

/-- One party takes a step of its own. -/
def stepAt [DecidableEq P] [Blake2s256] (t : Net P κ n) (j : Fin n)
    (l : WrapLabel P (Handle n)) : Option (Net P κ n) :=
  ((t.sessions j).step l).map fun session =>
    { t with sessions := Function.update t.sessions j session }

/-- `r` may give this response to broadcast `messageId` of `s`: anything
if `r` is not honest, otherwise the echo it has given or a failure. -/
def mayRespond (cfg : Config P κ n) (t : Net P κ n) (s r : Fin n) (messageId : Nat) :
    Except RequestFailure Bytes → Bool
  | .ok hash => !cfg.honest r || echoes (t.sessions r).trace (.echo s messageId) hash
  | .error _ => true

/-- One step of the parties and their network. -/
def step [DecidableEq P] [Blake2s256] (cfg : Config P κ n) (t : Net P κ n) :
    NetLabel n → Option (Net P κ n)
  | .poll j now turn =>
      if cfg.honest j then t.stepAt j (.pollComputation now turn) else none
  | .echo j => if cfg.honest j then t.stepAt j (.pollEcho noneGone) else none
  | .close j messageId => if cfg.honest j then t.stepAt j (.closeResponses messageId) else none
  | .broadcast s r messageId payload =>
      if cfg.honest r && s ≠ r
          && (!cfg.honest s || multicasts (t.sessions s).trace messageId payload) then
        t.stepAt r (.deliver (cfg.broadcastRequest s messageId payload))
      else none
  | .direct s r payload =>
      if cfg.honest r && s ≠ r
          && (!cfg.honest s || sends (t.sessions s).trace (cfg.peers r) payload) then
        t.stepAt r (.deliver (cfg.directRequest s payload))
      else none
  | .respond s r messageId response =>
      if cfg.honest s && s ≠ r
          && !t.answered.any (fun a =>
            a.requester = s && a.messageId = messageId && a.responder = r)
          && t.mayRespond cfg s r messageId response then
        (t.stepAt s (.echoResponse messageId (cfg.remoteEcho r response))).map fun t' =>
          { t' with
              answered := t.answered ++
                [{ requester := s
                   messageId := messageId
                   responder := r
                   echo := cfg.remoteEcho r response }] }
      else none

end Net

end FrostMpcTss.Session
