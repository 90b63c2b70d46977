import FrostMpcTss.Service.Execution

/-!
# `FrostMpcTss.Tss.Agent`: what the two agents share

An agent is an async function that owns the ends of two channels. It is
polled with what its incoming channel holds and with the messages of
its own that the execution has not taken yet, and it runs until it has
to wait: on an empty incoming channel, on a full outgoing one, or for a
message of its own to be taken.

`collect` is the receive loop of both agents: take messages while more
are needed.
-/

set_option autoImplicit false

namespace FrostMpcTss.Service

/-- The turn of an agent that goes on waiting. -/
def AgentTurn.waiting (received : Nat) (sent : List AgentMessage) : AgentTurn where
  received := received
  sent := sent
  result := none

/-- The turn of an agent that returns. -/
def AgentTurn.returning (received : Nat) (sent : List AgentMessage) (result : AgentResult) :
    AgentTurn where
  received := received
  sent := sent
  result := some result

end FrostMpcTss.Service

namespace FrostMpcTss.Tss

open Network Service

/-- `serde_ipld_dagcbor::{to_vec, from_slice}` on `Vec<u8>`. -/
class DagCbor where
  toVec : Bytes → Except String Bytes
  fromSlice : Bytes → Except String Bytes

/-- Bytes are read back from their encoding. -/
class LawfulDagCbor [DagCbor] : Prop where
  fromSlice_toVec : ∀ bytes encoded : Bytes,
    DagCbor.toVec bytes = .ok encoded → DagCbor.fromSlice encoded = .ok bytes

/-- The identifiers of `frost-core`. An identifier is represented by the
number it was made from. -/
class Identifiers where
  /-- `Identifier::try_from(u16)`, with the text of its error. -/
  tryFrom : Nat → Except String Nat
  /-- `{:?}` on an identifier. -/
  debug : Nat → String

/-- Every number but zero is an identifier. -/
class LawfulIdentifiers [Identifiers] : Prop where
  tryFrom_of_ne : ∀ u : Nat, u ≠ 0 → Identifiers.tryFrom u = .ok u

/-- `{:?}` on a set of identifiers. -/
def debugSet [Identifiers] (ids : List Nat) : String :=
  "\x7b" ++ ", ".intercalate (ids.map Identifiers.debug) ++ "\x7d"

/-- `{:?}` on a vector of identifiers. -/
def debugVec [Identifiers] (ids : List Nat) : String :=
  "[" ++ ", ".intercalate (ids.map Identifiers.debug) ++ "]"

namespace PlainAgent

/-- Bytes are sent as they are, in runs on fixed inputs. -/
scoped instance : DagCbor where
  toVec := .ok
  fromSlice := .ok

scoped instance : LawfulDagCbor where
  fromSlice_toVec bytes encoded h := by
    cases h
    rfl

scoped instance : Identifiers where
  tryFrom u := if u = 0 then .error "zero" else .ok u
  debug := toString

scoped instance : LawfulIdentifiers where
  tryFrom_of_ne _ h := if_neg h

end PlainAgent

/-- `map_err` with a text before the error's own. -/
def mapErr {α : Type} (text : String) : Except String α → Except String α
  | .ok a => .ok a
  | .error e => .error (text ++ e)

theorem mapErr_eq_ok {α : Type} {text : String} {x : Except String α} {a : α} :
    mapErr text x = .ok a ↔ x = .ok a := by
  cases x with
  | ok b => rfl
  | error e => simp [mapErr]

/-- How a receive loop ends a poll. -/
inductive Collect (σ : Type) where
  /-- It took everything and needs more. -/
  | waiting (s : σ)
  | done (s : σ) (rest : List AgentRequest)
  | failed (e : String) (rest : List AgentRequest)

/-- The receive loop. -/
def collect {σ : Type} (more : σ → Bool) (take : σ → AgentRequest → Except String σ) :
    σ → List AgentRequest → Collect σ
  | s, [] => if more s then .waiting s else .done s []
  | s, req :: rest =>
      if more s then
        match take s req with
        | .ok s' => collect more take s' rest
        | .error e => .failed e rest
      else .done s (req :: rest)

end FrostMpcTss.Tss
