import Mathlib

/-!
# `FrostMpcTss.Lib.Mpsc`: one-shots and bounded channels

The two channels of the `futures` crate that tasks answer each other
on.

A `Oneshot` carries one value from a sender to a task that awaits it.
Sending uses the sender up, so after `waiting` there is a value, or the
sender is gone without one.

An `Mpsc` has a buffer and any number of handles. Each handle may put
one message into the channel beyond the buffer; then it is parked until
the receiver has made room. `try_send` refuses a parked handle and a
receiver that is gone, and nothing else (`trySend_cases`). A clone
starts unparked, so its first message enters the channel whatever the
buffer is, as long as there is a receiver.
-/

set_option autoImplicit false

namespace FrostMpcTss.Lib

/-- `oneshot::channel()`, as far as its value has come. -/
inductive Oneshot (α : Type) where
  /-- The sender has sent nothing yet. -/
  | waiting
  | sent (value : α)
  /-- The sender was dropped without a value. -/
  | canceled
  /-- The receiving task has seen the value, or that there is none. -/
  | closed
deriving Repr, DecidableEq

namespace Oneshot

variable {α : Type}

/-- `Sender::send`. -/
def send (value : α) : Oneshot α → Oneshot α
  | .waiting => .sent value
  | o => o

/-- The sender is dropped. -/
def cancel : Oneshot α → Oneshot α
  | .waiting => .canceled
  | o => o

/-- The receiver has not been served, and is there to be. -/
def isWaiting : Oneshot α → Bool
  | .waiting => true
  | _ => false

theorem send_ne_waiting (value : α) (o : Oneshot α) : o.send value ≠ .waiting := by
  cases o <;> simp [send]

end Oneshot

/-- A handle on the channel of that number. -/
structure Sender where
  channel : Nat
  parked : Bool
deriving Repr, DecidableEq

/-- `Sender::clone`. -/
def Sender.clone (s : Sender) : Sender where
  channel := s.channel
  parked := false

/-- The result of `try_send`. -/
inductive TrySend where
  | sent
  | full
  | disconnected
deriving Repr, DecidableEq

/-- `mpsc::channel(buffer)`. -/
structure Mpsc (α : Type) where
  buffer : Nat
  /-- What the receiver has taken out. -/
  taken : List α
  /-- What is in the channel. -/
  queue : List α
  receiverAlive : Bool
deriving Repr, DecidableEq

namespace Mpsc

variable {α : Type}

def new (buffer : Nat) : Mpsc α where
  buffer := buffer
  taken := []
  queue := []
  receiverAlive := true

/-- Everything that ever came into the channel. -/
def arrived (ch : Mpsc α) : List α := ch.taken ++ ch.queue

/-- `Sender::try_send`: the channel, the handle and the result. -/
def trySend (ch : Mpsc α) (s : Sender) (a : α) : Mpsc α × Sender × TrySend :=
  if s.parked then (ch, s, .full)
  else if ch.receiverAlive then
    ({ ch with queue := ch.queue ++ [a] },
      { s with parked := decide (ch.buffer < ch.queue.length + 1) }, .sent)
  else (ch, s, .disconnected)

/-- `Receiver::next`, if there is a message. -/
def receive (ch : Mpsc α) : Option (Mpsc α) :=
  match ch.queue with
  | a :: rest => some { ch with taken := ch.taken ++ [a], queue := rest }
  | [] => none

/-- The receiver is dropped. -/
def dropReceiver (ch : Mpsc α) : Mpsc α := { ch with receiverAlive := false }

@[simp] theorem arrived_dropReceiver (ch : Mpsc α) : ch.dropReceiver.arrived = ch.arrived := rfl

theorem arrived_receive {ch ch' : Mpsc α} (h : ch.receive = some ch') :
    ch'.arrived = ch.arrived ∧ ch'.receiverAlive = ch.receiverAlive := by
  unfold receive at h
  split at h
  next a rest hq =>
      cases h
      simp [arrived, hq]
  next => cases h

/-- A message is in the channel afterwards exactly if `try_send` says so. -/
theorem arrived_trySend (ch : Mpsc α) (s : Sender) (a : α) :
    (ch.trySend s a).1.arrived =
      ch.arrived ++ if (ch.trySend s a).2.2 = .sent then [a] else [] := by
  unfold trySend
  by_cases hp : s.parked = true
  · simp [hp]
  · by_cases hr : ch.receiverAlive = true
    · simp [hp, hr, arrived]
    · simp [hp, hr]

@[simp] theorem receiverAlive_trySend (ch : Mpsc α) (s : Sender) (a : α) :
    (ch.trySend s a).1.receiverAlive = ch.receiverAlive := by
  unfold trySend
  split <;> [rfl; split] <;> rfl

/-- The two reasons a message can be refused for. -/
theorem trySend_cases (ch : Mpsc α) (s : Sender) (a : α) :
    (ch.trySend s a).2.2 = .sent ∨
      ((ch.trySend s a).2.2 = .full ∧ s.parked = true) ∨
      ((ch.trySend s a).2.2 = .disconnected ∧ ch.receiverAlive = false) := by
  unfold trySend
  by_cases hp : s.parked = true
  · exact .inr (.inl (by simp [hp]))
  · by_cases hr : ch.receiverAlive = true
    · exact .inl (by simp [hp, hr])
    · exact .inr (.inr (by simp [hp, hr]))

end Mpsc

end FrostMpcTss.Lib
