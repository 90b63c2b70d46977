import FrostMpcTss.Service.Execution

/-!
# `FrostMpcTss.Service.WrapExecution`: a session beside its echo gadget

`EchoGadget::wrap_execution` runs the protocol execution and the echo
gadget side by side and returns when both are through, or when one of
them fails. `WrapExecution` is its state between two steps. A step is
a poll of the execution, one stretch of `proceed_round` up to its next
channel operation, or something the outside does: a message put into
the execution's channel, an echo put into a response channel, the end
of a response channel.

The steps of the two futures may alternate in any order, and with the
steps of everything else. The source has fewer orders: a poll of
`wrap_execution` runs both futures until they wait, so nothing else
happens between the `Ok` of the execution and the poll of the gadget
that follows. What is proved of all orders holds of those of the source.
-/

set_option autoImplicit false

namespace FrostMpcTss.Service

open Network

/-- `wrap_execution` between two steps. `computation` is `none` once
the execution has returned `Ok`, `echoFinished` is set once
`proceed_round` has returned `Ok(None)`. -/
structure WrapExecution (P ρ κ : Type) where
  echo : EchoGadget P ρ
  echoRx : List (EchoMessage ρ)
  responses : Nat → ResponseRx P
  computation : Option (ProtocolExecution P ρ κ)
  echoFinished : Bool

/-- The session, running or over. -/
inductive WrapState (P ρ κ : Type) where
  | running (w : WrapExecution P ρ κ)
  | returned (result : Except Error Unit)
  | panicked (why : Panic)

theorem WrapState.returned_ne_running {P ρ κ : Type} (result : Except Error Unit)
    (w : WrapExecution P ρ κ) : WrapState.returned result ≠ .running w := by
  intro h
  cases h

theorem WrapState.panicked_ne_running {P ρ κ : Type} (why : Panic)
    (w : WrapExecution P ρ κ) : WrapState.panicked why ≠ .running w := by
  intro h
  cases h

/-- What can happen to a session. -/
inductive WrapLabel (P ρ : Type) where
  | deliver (m : IncomingRequest P ρ)
  | echoResponse (respRx : Nat) (echo : RemoteEcho P)
  | closeResponses (respRx : Nat)
  | pollComputation (now : Nat) (turn : AgentTurn)
  | pollEcho (gone : ρ → Bool)

namespace WrapExecution

variable {P ρ κ : Type}

/-- `EchoGadget::new(n)` and `ProtocolExecution::new`, as the worker
puts them together. -/
def new [DecidableEq P] (n : Nat) (sessionId : SessionId) (protocolId : Nat)
    (peerset : Peerset P) (pendingResponse : Option κ) :
    Except Panic (WrapExecution P ρ κ) := do
  let computation ← ProtocolExecution.new sessionId protocolId peerset pendingResponse
  return {
    echo := EchoGadget.new n
    echoRx := []
    responses := fun _ => { queue := [], closed := false }
    computation := some computation
    echoFinished := false }

/-- Put an echo into a response channel. -/
def pushEcho (w : WrapExecution P ρ κ) (respRx : Nat) (echo : RemoteEcho P) :
    WrapExecution P ρ κ :=
  let rx := w.responses respRx
  { w with responses :=
      Function.update w.responses respRx { rx with queue := rx.queue ++ [echo] } }

/-- Take an echo out of a response channel. -/
def popEcho (w : WrapExecution P ρ κ) (respRx : Nat) : WrapExecution P ρ κ :=
  let rx := w.responses respRx
  { w with responses := Function.update w.responses respRx { rx with queue := rx.queue.tail } }

/-- The last sender of a response channel goes away. -/
def closeResponses (w : WrapExecution P ρ κ) (respRx : Nat) : WrapExecution P ρ κ :=
  let rx := w.responses respRx
  { w with responses := Function.update w.responses respRx { rx with closed := true } }

/-- The agent's outgoing channel holds `n - 1` messages, of which the
poll takes one before the agent runs. -/
def roomFor (s : ProtocolExecution P ρ κ) (turn : AgentTurn) : Bool :=
  s.fromProtocol.tail.length + turn.sent.length ≤ s.n - 1

/-- The execution is polled. Its `Err` ends the session at once, its
`Ok` ends it when the gadget is already through. -/
def pollComputation [DecidableEq P] (w : WrapExecution P ρ κ) (s : ProtocolExecution P ρ κ)
    (now : Nat) (turn : AgentTurn) : WrapState P ρ κ × List (Effect P ρ κ) :=
  match s.poll w.echoRx now turn with
  | .pending st =>
      (.running { w with computation := some st.exec, echoRx := st.echoTx }, st.effects)
  | .ready (.ok ()) echoTx effects =>
      if w.echoFinished then (.returned (.ok ()), effects)
      else (.running { w with computation := none, echoRx := echoTx }, effects)
  | .ready (.error e) _ effects => (.returned (.error e), effects)
  | .panic why => (.panicked why, [])

/-- `proceed_round` is run to its next channel operation. -/
def pollEcho [Blake2s256] (w : WrapExecution P ρ κ) (gone : ρ → Bool) :
    Option (WrapState P ρ κ × List (Effect P ρ κ)) :=
  match w.echo.step w.echoRx w.computation.isNone w.responses gone with
  | .pending => none
  | .took g rx => some (.running { w with echo := g, echoRx := rx }, [])
  | .hashed g messageId group echoHash acks =>
      some (.running { w with echo := g },
        acks.map (fun tx => .respond tx (.ok echoHash)) ++ [.hashed messageId group echoHash])
  | .echoed g respRx => some (.running { w.popEcho respRx with echo := g }, [])
  | .verified g messageId echoHash respRx echoHashes =>
      some (.running { w.popEcho respRx with echo := g },
        [.verified messageId echoHash echoHashes])
  | .finished =>
      if w.computation.isNone then some (.returned (.ok ()), [])
      else some (.running { w with echoFinished := true }, [])
  | .failed e => some (.returned (.error e), [])
  | .panic why => some (.panicked why, [])

/-- One step of a running session, with its effects. -/
def step [DecidableEq P] [Blake2s256] (w : WrapExecution P ρ κ) :
    WrapLabel P ρ → Option (WrapState P ρ κ × List (Effect P ρ κ))
  | .deliver m =>
      w.computation.map fun s =>
        (.running
          { w with computation := some { s with fromNetwork := s.fromNetwork ++ [m] } }, [])
  | .echoResponse respRx echo => some (.running (w.pushEcho respRx echo), [])
  | .closeResponses respRx => some (.running (w.closeResponses respRx), [])
  | .pollComputation now turn =>
      (w.computation.filter (roomFor · turn)).map fun s => w.pollComputation s now turn
  | .pollEcho gone => if w.echoFinished then none else w.pollEcho gone

end WrapExecution

/-- A session and all it has done so far. -/
structure Session (P ρ κ : Type) where
  state : WrapState P ρ κ
  trace : List (Effect P ρ κ)

/-- One step of a session. Nothing follows its end. -/
def Session.step {P ρ κ : Type} [DecidableEq P] [Blake2s256] (t : Session P ρ κ)
    (l : WrapLabel P ρ) : Option (Session P ρ κ) :=
  match t.state with
  | .running w =>
      (w.step l).map fun result =>
        { state := result.1, trace := t.trace ++ result.2 }
  | .returned _ => none
  | .panicked _ => none

theorem Session.step_eq_some {P ρ κ : Type} [DecidableEq P] [Blake2s256] {t t' : Session P ρ κ}
    {l : WrapLabel P ρ} : t.step l = some t' ↔ ∃ w state effects,
      t.state = .running w ∧ w.step l = some (state, effects) ∧
        t' = { state := state, trace := t.trace ++ effects } := by
  unfold Session.step
  cases t.state with
  | running w =>
      rw [Option.map_eq_some_iff]
      constructor
      · rintro ⟨⟨state, effects⟩, hstep, rfl⟩
        exact ⟨w, state, effects, rfl, hstep, rfl⟩
      · rintro ⟨_, state, effects, ⟨⟩, hstep, rfl⟩
        exact ⟨(state, effects), hstep, rfl⟩
  | returned _ =>
      constructor
      · intro h
        cases h
      · rintro ⟨_, _, _, hrunning, _, _⟩
        cases hrunning
  | panicked _ =>
      constructor
      · intro h
        cases h
      · rintro ⟨_, _, _, hrunning, _, _⟩
        cases hrunning

end FrostMpcTss.Service
