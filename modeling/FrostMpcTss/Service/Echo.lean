import FrostMpcTss.Service.Basic

/-!
# `FrostMpcTss.Service.Echo`: the echo gadget

`EchoGadget::proceed_round` is an async function. Its model is the
state machine the compiler makes of it: `Round` says at which `await`
it stands, and `EchoGadget.step` runs it from one suspension point
towards the next.

* `collect`: the first loop. Messages go into `msgs` until one message
  id has `n` of them with an outgoing one among them.
* `gather`: the second loop, over the group taken out of `msgs`.
* `responses`: the group has been hashed and its incoming messages
  have been acknowledged; the echoes of the `n - 1` remotes are read
  one by one.

The hash is fed the payloads in the order of the senders, one after
the other (`Tally.hashed`).

`msgs` is one list here. The source keeps a map from message ids to
heaps, with no empty heap in it; the heap of an id is the sublist with
that id. The order a heap is drained in does not matter, since the
group is sorted by sender and a repeated sender is an error.
-/

set_option autoImplicit false

namespace FrostMpcTss.Service

open Network

/-- `Blake2s256`: the digest of everything written to the hasher. -/
class Blake2s256 where
  digest : Bytes → Bytes

namespace IdentityHash

/-- The hash of runs on fixed inputs: what was written. -/
scoped instance : Blake2s256 where
  digest := id

end IdentityHash

/-- `EchoResponse`. A receiver of echoes is named by a number. -/
inductive EchoResponse (ρ : Type) where
  | incoming (tx : ρ)
  | outgoing (respRx : Nat)
deriving Repr, DecidableEq

/-- `EchoMessage`. -/
structure EchoMessage (ρ : Type) where
  messageId : Nat
  sender : Nat
  payload : Bytes
  response : EchoResponse ρ
deriving Repr, DecidableEq

/-- What the response channel of a broadcast delivers for one remote. -/
abbrev RemoteEcho (P : Type) := Except RequestFailure (P × Bytes)

/-- The receiving end of a response channel: what has arrived, and
whether every sender is gone. -/
structure ResponseRx (P : Type) where
  queue : List (RemoteEcho P)
  closed : Bool

/-- Where `proceed_round` is suspended. -/
inductive Round (P ρ : Type) where
  | collect
  | gather (messageId : Nat) (group : List (EchoMessage ρ))
  | responses (messageId : Nat) (echoHash : Bytes) (respRx : Nat)
      (echoHashes : List (RemoteEcho P))

/-- `EchoGadget` together with the suspended `proceed_round`. Its
channel `rx` is passed to `step`. -/
structure EchoGadget (P ρ : Type) where
  r : Nat
  n : Nat
  msgs : List (EchoMessage ρ)
  round : Round P ρ

/-- The receivers of all acknowledgements are there. -/
def noneGone {ρ : Type} : ρ → Bool := fun _ => false

@[simp]
theorem any_noneGone {ρ : Type} (txs : List ρ) : txs.any noneGone = false := by
  simp [noneGone]

namespace EchoGadget

variable {P ρ : Type}

/-- `EchoGadget::new`, with the first `proceed_round` not yet polled. -/
def new (n : Nat) : EchoGadget P ρ where
  r := 0
  n := n
  msgs := []
  round := .collect

/-- The heap of one message id. -/
def group (msgs : List (EchoMessage ρ)) (messageId : Nat) : List (EchoMessage ρ) :=
  msgs.filter (·.messageId = messageId)

/-- `matches!(&msg.response, EchoResponse::Outgoing(_))`. -/
def isOutgoing (m : EchoMessage ρ) : Bool :=
  match m.response with
  | .incoming _ => false
  | .outgoing _ => true

/-- The condition on one heap in `ready_message_id`. -/
def ready (n : Nat) (group : List (EchoMessage ρ)) : Bool :=
  group.length = n && group.any isOutgoing

/-- `ready_message_id`: the first ready id in increasing order. -/
def readyMessageId (g : EchoGadget P ρ) : Option Nat :=
  ((g.msgs.map (·.messageId)).insertionSort (· ≤ ·)).find? fun messageId =>
    ready g.n (group g.msgs messageId)

/-- The accumulators of the loop over the sorted group. -/
structure Tally (ρ : Type) where
  senders : List Nat
  /-- Everything written to the hasher so far. -/
  hashed : Bytes
  incomingAcks : List ρ
  outgoingRespRx : Option Nat

/-- The accumulators before the loop. -/
def Tally.empty : Tally ρ where
  senders := []
  hashed := []
  incomingAcks := []
  outgoingRespRx := none

/-- One turn of the loop. -/
def Tally.add (t : Tally ρ) (m : EchoMessage ρ) : Tally ρ :=
  match m.response with
  | .incoming tx =>
      { t with
          senders := t.senders ++ [m.sender]
          hashed := t.hashed ++ m.payload
          incomingAcks := t.incomingAcks ++ [tx] }
  | .outgoing respRx =>
      { t with
          senders := t.senders ++ [m.sender]
          hashed := t.hashed ++ m.payload
          outgoingRespRx := some respRx }

/-- The loop: it stops with the first sender seen twice. -/
def tally : Tally ρ → List (EchoMessage ρ) → Except Nat (Tally ρ)
  | t, [] => .ok t
  | t, m :: ms => if m.sender ∈ t.senders then .error m.sender else tally (t.add m) ms

/-- `msgs_vec.sort_by_key(|m| m.sender)`. -/
def sortBySender (group : List (EchoMessage ρ)) : List (EchoMessage ρ) :=
  group.insertionSort (·.sender ≤ ·.sender)

/-- The comparison of the collected echoes with the local hash, from
position `index` on. -/
def checkEchoes (echoHash : Bytes) : Nat → List (RemoteEcho P) → Option Error
  | _, [] => none
  | index, .ok (_, hash) :: rest =>
      if hash ≠ echoHash then some (.inconsistentEcho (asU16 index))
      else checkEchoes echoHash (index + 1) rest
  | _, .error e :: _ => some (.echoFailed e)

/-- What `proceed_round` does when it is run. -/
inductive Step (P ρ : Type) where
  /-- It waits for its channel or for an echo. -/
  | pending
  /-- It took one message out of its channel, or moved on without one. -/
  | took (g : EchoGadget P ρ) (rx : List (EchoMessage ρ))
  /-- It hashed the group and acknowledged its incoming messages. -/
  | hashed (g : EchoGadget P ρ) (messageId : Nat) (group : List (EchoMessage ρ))
      (echoHash : Bytes) (acks : List ρ)
  /-- It took one echo. -/
  | echoed (g : EchoGadget P ρ) (respRx : Nat)
  /-- `Ok(Some(self))`: all echoes of `messageId` equal the local hash. -/
  | verified (g : EchoGadget P ρ) (messageId : Nat) (echoHash : Bytes) (respRx : Nat)
      (echoHashes : List (RemoteEcho P))
  /-- `Ok(None)`. -/
  | finished
  | failed (e : Error)
  | panic (why : Panic)

/-- The group is complete: sort, hash, acknowledge. It panics if the
receiver of an acknowledgement is `gone`. -/
def hashGroup [Blake2s256] (g : EchoGadget P ρ) (messageId : Nat)
    (group : List (EchoMessage ρ)) (gone : ρ → Bool) : Step P ρ :=
  match tally .empty (sortBySender group) with
  | .error sender => .failed (.inconsistentEcho sender)
  | .ok t =>
      match t.outgoingRespRx with
      | none => .panic .outgoingMessageMissing
      | some respRx =>
          let echoHash := Blake2s256.digest t.hashed
          if t.incomingAcks.any gone then .panic .acknowledgmentFailed
          else .hashed { g with round := .responses messageId echoHash respRx [] } messageId
            (sortBySender group) echoHash t.incomingAcks

/-- All echoes are in: compare them, count the round. -/
def finishRound (g : EchoGadget P ρ) (messageId : Nat) (echoHash : Bytes) (respRx : Nat)
    (echoHashes : List (RemoteEcho P)) : Step P ρ :=
  match checkEchoes echoHash 0 echoHashes with
  | some e => .failed e
  | none =>
      match succU16 g.r with
      | .error why => .panic why
      | .ok r =>
          .verified { g with r := r, round := .collect } messageId echoHash respRx echoHashes

/-- Run `proceed_round` to its next channel operation. `rx` holds the
messages in the gadget's channel, `rxClosed` says that the sender is
gone, `responses` are the response channels of the broadcasts, and `gone`
tells of whom the receiver of the acknowledgement is gone. -/
def step [Blake2s256] (g : EchoGadget P ρ) (rx : List (EchoMessage ρ)) (rxClosed : Bool)
    (responses : Nat → ResponseRx P) (gone : ρ → Bool) : Step P ρ :=
  match g.round with
  | .collect =>
      match g.readyMessageId with
      | some messageId =>
          .took
            { g with
                msgs := g.msgs.filter (·.messageId ≠ messageId)
                round := .gather messageId (group g.msgs messageId) } rx
      | none =>
          match rx with
          | msg :: rest => .took { g with msgs := g.msgs ++ [msg] } rest
          | [] =>
              if rxClosed then
                if g.msgs = [] then .finished
                else .failed (.internalError "echo channel closed with pending messages")
              else .pending
  | .gather messageId group =>
      if group.length = g.n then g.hashGroup messageId group gone
      else
        match rx with
        | msg :: rest =>
            if msg.messageId = messageId then
              .took { g with round := .gather messageId (group ++ [msg]) } rest
            else .took { g with msgs := g.msgs ++ [msg] } rest
        | [] =>
            if rxClosed then
              .failed (.internalError s!"echo channel closed before message {messageId} completed")
            else .pending
  | .responses messageId echoHash respRx echoHashes =>
      match (responses respRx).queue with
      | echo :: _ =>
          match predUnsigned g.n with
          | .error why => .panic why
          | .ok remotes =>
              if (echoHashes ++ [echo]).length = remotes then
                g.finishRound messageId echoHash respRx (echoHashes ++ [echo])
              else
                .echoed
                  { g with
                      round := .responses messageId echoHash respRx (echoHashes ++ [echo]) }
                  respRx
      | [] => if (responses respRx).closed then .panic .polledAfterTerminated else .pending

end EchoGadget

end FrostMpcTss.Service
