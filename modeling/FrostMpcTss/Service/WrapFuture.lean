import FrostMpcTss.Service.WrapExecution

/-!
# `FrostMpcTss.Service.WrapFuture`: the echo gadget around any computation

`EchoGadget::wrap_execution` takes any future. `WrapFuture` is its state
with a future of which nothing is known: at any time it may push a
message into the gadget's channel, drop the sender of that channel, or
return. `WrapExecution` is the same around a `ProtocolExecution`.

The receivers of echoes are numbered in the order in which messages with
one are pushed, since a receiver is moved into its message.
-/

set_option autoImplicit false

namespace FrostMpcTss.Service

open Network

/-- `wrap_execution` between two steps: `rxClosed` is set once the sender
of the gadget's channel is gone, `computationDone` once the future has
returned `Ok`, `echoFinished` once `proceed_round` has returned
`Ok(None)`. -/
structure WrapFuture (P ρ : Type) where
  echo : EchoGadget P ρ
  echoRx : List (EchoMessage ρ)
  rxClosed : Bool
  /-- The next receiver's number. -/
  nextRx : Nat
  responses : Nat → ResponseRx P
  computationDone : Bool
  echoFinished : Bool

inductive FutureState (P ρ : Type) where
  | running (w : WrapFuture P ρ)
  | returned (result : Except Error Unit)
  | panicked (why : Panic)

/-- What can happen to it. -/
inductive FutureLabel (P ρ : Type) where
  | pushIncoming (messageId sender : Nat) (payload : Bytes) (tx : ρ)
  | pushOutgoing (messageId sender : Nat) (payload : Bytes)
  | dropSender
  | echoResponse (respRx : Nat) (echo : RemoteEcho P)
  | closeResponses (respRx : Nat)
  | complete (result : Except Error Unit)
  | pollEcho (gone : ρ → Bool)

namespace WrapFuture

variable {P ρ κ : Type}

/-- `EchoGadget::new(n)`, wrapped around a future that has not begun. -/
def new (n : Nat) : WrapFuture P ρ where
  echo := EchoGadget.new n
  echoRx := []
  rxClosed := false
  nextRx := 0
  responses := fun _ => { queue := [], closed := false }
  computationDone := false
  echoFinished := false

/-- `mpsc::channel(n)` with one sender takes `n + 1` messages. -/
def canPush (w : WrapFuture P ρ) : Bool :=
  !w.rxClosed && w.echoRx.length < w.echo.n + 1

/-- `Some(response)` of a response channel is taken out of it. -/
def popEcho (w : WrapFuture P ρ) (respRx : Nat) : WrapFuture P ρ :=
  let rx := w.responses respRx
  { w with responses := Function.update w.responses respRx { rx with queue := rx.queue.tail } }

/-- The future returns. -/
def complete (w : WrapFuture P ρ) : Except Error Unit → FutureState P ρ
  | .error e => .returned (.error e)
  | .ok () =>
      if w.echoFinished then .returned (.ok ()) else .running { w with computationDone := true }

/-- `proceed_round` is run to its next channel operation. -/
def pollEcho [Blake2s256] (w : WrapFuture P ρ) (gone : ρ → Bool) :
    Option (FutureState P ρ × List (Effect P ρ κ)) :=
  match w.echo.step w.echoRx w.rxClosed w.responses gone with
  | .pending => none
  | .took g rx => some (.running { w with echo := g, echoRx := rx }, [])
  | .hashed g messageId group echoHash acks =>
      some (.running { w with echo := g },
        acks.map (fun tx => .respond tx (.ok echoHash)) ++ [.hashed messageId group echoHash])
  | .echoed g respRx => some (.running { w.popEcho respRx with echo := g }, [])
  | .verified g messageId echoHash respRx echoHashes =>
      some (.running { w.popEcho respRx with echo := g },
        [.verified messageId echoHash echoHashes])
  | .finished =>
      if w.computationDone then some (.returned (.ok ()), [])
      else some (.running { w with echoFinished := true }, [])
  | .failed e => some (.returned (.error e), [])
  | .panic why => some (.panicked why, [])

/-- One step, with its effects. -/
def step [Blake2s256] (w : WrapFuture P ρ) :
    FutureLabel P ρ → Option (FutureState P ρ × List (Effect P ρ κ))
  | .pushIncoming messageId sender payload tx =>
      let m := { messageId, sender, payload, response := .incoming tx }
      if w.canPush then some (.running { w with echoRx := w.echoRx ++ [m] }, [.entered m])
      else none
  | .pushOutgoing messageId sender payload =>
      let m := { messageId, sender, payload, response := .outgoing w.nextRx }
      if w.canPush then
        some (.running { w with echoRx := w.echoRx ++ [m], nextRx := w.nextRx + 1 },
          [.entered m])
      else none
  | .dropSender => some (.running { w with rxClosed := true }, [])
  | .echoResponse respRx echo =>
      let rx := w.responses respRx
      some (.running { w with
        responses := Function.update w.responses respRx { rx with queue := rx.queue ++ [echo] } },
        [])
  | .closeResponses respRx =>
      let rx := w.responses respRx
      some (.running { w with
        responses := Function.update w.responses respRx { rx with closed := true } }, [])
  | .complete result => if w.computationDone then none else some (w.complete result, [])
  | .pollEcho gone => if w.echoFinished then none else w.pollEcho gone

end WrapFuture

/-- A wrapped future and what has happened so far: its effects, what it
returned, and the responses that came in. -/
structure WrapRun (P ρ κ : Type) where
  state : FutureState P ρ
  trace : List (Effect P ρ κ)
  completed : Option (Except Error Unit)
  arrived : Nat → List (RemoteEcho P)

namespace WrapRun

variable {P ρ κ : Type}

def start (n : Nat) : WrapRun P ρ κ where
  state := .running (WrapFuture.new n)
  trace := []
  completed := none
  arrived := fun _ => []

/-- What a label adds to the record. -/
def completedAfter (t : WrapRun P ρ κ) : FutureLabel P ρ → Option (Except Error Unit)
  | .complete result => some result
  | _ => t.completed

def arrivedAfter (t : WrapRun P ρ κ) : FutureLabel P ρ → Nat → List (RemoteEcho P)
  | .echoResponse respRx echo =>
      Function.update t.arrived respRx (t.arrived respRx ++ [echo])
  | _ => t.arrived

/-- One step. Nothing follows the end. -/
def step [Blake2s256] (t : WrapRun P ρ κ) (l : FutureLabel P ρ) : Option (WrapRun P ρ κ) :=
  match t.state with
  | .running w =>
      (w.step l).map fun result =>
        { state := result.1
          trace := t.trace ++ result.2
          completed := t.completedAfter l
          arrived := t.arrivedAfter l }
  | .returned _ => none
  | .panicked _ => none

end WrapRun

end FrostMpcTss.Service
