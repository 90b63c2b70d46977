import FrostMpcTss.Lib.Outcome

/-!
# `FrostMpcTss.Lib.Traced`: fallible calls that log what they do

A `Traced` call ends like an `Outcome` and leaves a list of events
behind, in order, up to the point where it failed. `mem_events_bind` is
the rule for the events of a sequence: each part answers for its own.
`Safe` calls return, and all their events are good; `safe_bind` is the rule
for them.
-/

set_option autoImplicit false

namespace FrostMpcTss.Lib

/-- A call with its outcome and the events `τ` it logged. -/
structure Traced (τ π ε α : Type) where
  outcome : Outcome π ε α
  events : List τ
deriving Repr, DecidableEq

namespace Traced

variable {τ π ε α β : Type}

/-- A call that logs nothing. -/
def lift (x : Outcome π ε α) : Traced τ π ε α := ⟨x, []⟩

/-- Continue with the value, and log on. -/
protected def bind (x : Traced τ π ε α) (f : α → Traced τ π ε β) : Traced τ π ε β :=
  match x.outcome with
  | .ok a => ⟨(f a).outcome, x.events ++ (f a).events⟩
  | .err e => ⟨.err e, x.events⟩
  | .panic why => ⟨.panic why, x.events⟩

instance : Monad (Traced τ π ε) where
  pure a := lift (.ok a)
  bind := Traced.bind

@[simp] theorem outcome_lift (x : Outcome π ε α) : (lift x : Traced τ π ε α).outcome = x := rfl

@[simp] theorem events_lift (x : Outcome π ε α) : (lift x : Traced τ π ε α).events = [] := rfl

@[simp] theorem pure_eq_lift (a : α) : (pure a : Traced τ π ε α) = lift (.ok a) := rfl

@[simp] theorem ok_bind (a : α) (f : α → Traced τ π ε β) : (lift (.ok a) >>= f) = f a := rfl

@[simp] theorem err_bind (e : ε) (f : α → Traced τ π ε β) :
    ((lift (.err e) : Traced τ π ε α) >>= f) = lift (.err e) := rfl

@[simp] theorem panic_bind (why : π) (f : α → Traced τ π ε β) :
    ((lift (.panic why) : Traced τ π ε α) >>= f) = lift (.panic why) := rfl

/-- The log does not influence the outcome. -/
@[simp] theorem outcome_bind (x : Traced τ π ε α) (f : α → Traced τ π ε β) :
    (x >>= f).outcome = x.outcome >>= fun a => (f a).outcome := by
  show (x.bind f).outcome = _
  unfold Traced.bind
  cases x.outcome <;> rfl

/-- The events of a sequence are those of its first part, and those of the
rest if the first part has a value. -/
theorem mem_events_bind {x : Traced τ π ε α} {f : α → Traced τ π ε β} {e : τ} :
    e ∈ (x >>= f).events ↔ e ∈ x.events ∨ ∃ a, x.outcome = .ok a ∧ e ∈ (f a).events := by
  show e ∈ (x.bind f).events ↔ _
  unfold Traced.bind
  cases x.outcome with
  | ok a => simp
  | err _ => simp
  | panic _ => simp

/-- The call does not panic and logs nothing but good events. -/
def Safe (good : τ → Prop) (x : Traced τ π ε α) : Prop :=
  ¬ x.outcome.Panics ∧ ∀ e ∈ x.events, good e

/-- A sequence is safe when its first part is, and the rest on the value of
the first part. -/
theorem safe_bind {good : τ → Prop} {x : Traced τ π ε α} {f : α → Traced τ π ε β} :
    Safe good (x >>= f) ↔ Safe good x ∧ ∀ a, x.outcome = .ok a → Safe good (f a) := by
  obtain ⟨outcome, events⟩ := x
  show Safe good (Traced.bind _ f) ↔ _
  cases outcome with
  | ok a => simp [Safe, Traced.bind, or_imp, forall_and, and_left_comm]
  | err e => simp [Safe, Traced.bind, Outcome.Panics]
  | panic why => simp [Safe, Traced.bind]

theorem safe_lift {good : τ → Prop} {x : Outcome π ε α} :
    Safe good (lift x) ↔ ¬ x.Panics := by
  simp [Safe]

end Traced

end FrostMpcTss.Lib
