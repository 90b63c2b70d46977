import FrostMpcTss.Proofs.Channels
import FrostMpcTss.Tss.Agent

/-!
# `FrostMpcTss.Proofs.AgentSpec`: what the channels require of an agent

`AgentSpec` is the contract between an agent and its execution. It is
stated with an invariant on the agent's state and its channels, and asks
that the channels have room for what the execution adds: for a direct
message that is still queued, and for a whole round when one may
complete. `direct` says whether agents send direct messages, and `limit`
is the number of broadcasts an agent sends.

`collect_waiting` and `collect_done` are what the agents' receive loop
does: what it has gathered is bounded by the messages it has taken.
-/

set_option autoImplicit false

namespace FrostMpcTss.Proofs

open Network Service FrostMpcTss.Session Tss

/-- What an agent may have sent: at most `limit` broadcasts, the second
one after the first round, and direct messages only if they are part of
the protocol. -/
structure Outgoing (n limit : Nat) (direct : Bool) (c : Channels) : Prop where
  fits : c.fromProtocol.length ≤ n - 1
  le_limit : c.nextOutgoing + broadcasts c.fromProtocol ≤ limit
  after_first : 2 ≤ c.nextOutgoing + broadcasts c.fromProtocol → 1 ≤ c.nextIncoming
  direct : ∀ m ∈ c.fromProtocol, m.recipient.isSome = true → direct = true

/-- The channels before the first poll. -/
def Channels.empty : Channels where
  toProtocol := []
  fromProtocol := []
  nextOutgoing := 0
  nextIncoming := 0
  directs := 0

/-- The channels with messages that the agent has sent. -/
def Channels.sent (c : Channels) (messages : List AgentMessage) : Channels :=
  { c with fromProtocol := c.fromProtocol ++ messages }

/-- What a poll of the agent leaves: messages it may send, and the
invariant if it goes on. -/
structure Polled {σ : Type} (n limit : Nat) (direct : Bool) (I : σ → Channels → Prop)
    (c : Channels) (polled : σ × AgentTurn) : Prop where
  outgoing : Outgoing n limit direct (c.apply polled.2)
  goesOn : polled.2.result = none → I polled.1 (c.apply polled.2)

/-- The contract of an agent, for an invariant `I` on its state, its
channels and the number of direct messages delivered so far. -/
structure AgentSpec {σ : Type} (n limit : Nat) (direct : Bool)
    (poll : σ → List AgentRequest → List AgentMessage → σ × AgentTurn)
    (I : Nat → σ → Channels → Prop) : Prop where
  outgoing : ∀ {d a c}, I d a c → Outgoing n limit direct c
  /-- A direct message is queued. -/
  deliver : ∀ {d a c}, direct = true → I d a c → I (d + 1) a { c with directs := c.directs + 1 }
  /-- There is room for a queued direct message. -/
  room : ∀ {d a c}, I d a c → d ≤ n - 1 → 0 < c.directs → c.toProtocol.length < n - 1
  /-- There is room for a round: it can complete only after the own
  broadcast of the round before. -/
  empty : ∀ {d a c}, I d a c → c.nextIncoming < limit →
    (1 ≤ c.nextIncoming → 1 ≤ c.nextOutgoing) → c.toProtocol = []
  /-- The agent is polled. -/
  step : ∀ {d a c c'}, I d a c → Advances n c c' → c'.nextIncoming ≤ limit →
    Polled n limit direct (I d) c' (poll a c'.toProtocol c'.fromProtocol)

section Outgoing

variable {n limit : Nat} {direct : Bool} {c : Channels}

theorem broadcasts_append (messages messages' : List AgentMessage) :
    broadcasts (messages ++ messages') = broadcasts messages + broadcasts messages' :=
  List.countP_append

theorem broadcasts_take_tail (messages : List AgentMessage) :
    broadcasts (messages.take 1) + broadcasts messages.tail = broadcasts messages := by
  rw [← broadcasts_append]
  cases messages <;> rfl

/-- A message that is taken stays counted. -/
theorem Outgoing.takeOutgoing (h : Outgoing n limit direct c) :
    Outgoing n limit direct c.takeOutgoing := by
  have hcount := broadcasts_take_tail c.fromProtocol
  refine ⟨?_, ?_, ?_, ?_⟩
  · show c.fromProtocol.tail.length ≤ n - 1
    rw [List.length_tail]
    exact Nat.le_trans (Nat.sub_le _ _) h.fits
  · show c.nextOutgoing + broadcasts _ + broadcasts c.fromProtocol.tail ≤ limit
    rw [Nat.add_assoc, hcount]
    exact h.le_limit
  · show 2 ≤ c.nextOutgoing + broadcasts _ + broadcasts c.fromProtocol.tail → _
    rw [Nat.add_assoc, hcount]
    exact h.after_first
  · exact fun m hm => h.direct m (List.mem_of_mem_tail hm)

/-- Nothing is queued. -/
theorem outgoing_of_nil (h : c.fromProtocol = []) (hlimit : c.nextOutgoing ≤ limit)
    (hfirst : 2 ≤ c.nextOutgoing → 1 ≤ c.nextIncoming) : Outgoing n limit direct c := by
  refine ⟨?_, ?_, ?_, ?_⟩ <;> rw [h]
  · exact Nat.zero_le _
  · exact hlimit
  · exact hfirst
  · nofun

/-- One broadcast is queued. -/
theorem outgoing_of_broadcast {m : AgentMessage} (hn : 2 ≤ n) (h : c.fromProtocol = [m])
    (hm : m.recipient = none) (hlimit : c.nextOutgoing + 1 ≤ limit)
    (hfirst : 1 ≤ c.nextOutgoing → 1 ≤ c.nextIncoming) : Outgoing n limit direct c := by
  have hone : broadcasts [m] = 1 := by simp [broadcasts, hm]
  refine ⟨?_, ?_, ?_, ?_⟩ <;> rw [h]
  · rw [List.length_singleton]
    omega
  · rw [hone]
    exact hlimit
  · rw [hone]
    exact fun htwo => hfirst (by omega)
  · intro m' hm' hsome
    rw [List.mem_singleton.mp hm', hm] at hsome
    cases hsome

/-- The turn of an agent, by what it sends. -/
theorem Outgoing.apply {sent : List AgentMessage} {turn : AgentTurn}
    (h : Outgoing n limit direct (c.sent sent)) (hsent : turn.sent = sent) :
    Outgoing n limit direct (c.apply turn) := by
  subst hsent
  exact ⟨h.fits, h.le_limit, h.after_first, h.direct⟩

/-- A turn in which nothing is sent. -/
theorem Outgoing.silent (h : Outgoing n limit direct c) {turn : AgentTurn}
    (hsent : turn.sent = []) :
    Outgoing n limit direct (c.apply turn) := by
  refine Outgoing.apply ?_ hsent
  show Outgoing n limit direct { c with fromProtocol := c.fromProtocol ++ [] }
  rw [List.append_nil]
  exact h

/-- An agent that returns without a last message. -/
theorem polled_returning {σ : Type} {I : σ → Channels → Prop} (h : Outgoing n limit direct c)
    (a : σ) (received : Nat) (result : AgentResult) :
    Polled n limit direct I c (a, .returning received [] result) :=
  ⟨h.silent rfl, nofun⟩

theorem Advances.takeOutgoing {c' : Channels} (h : Advances n c c') :
    c'.fromProtocol = c.fromProtocol.tail ∧
      c'.nextOutgoing = c.nextOutgoing + broadcasts (c.fromProtocol.take 1) ∧
      c.nextIncoming ≤ c'.nextIncoming ∧ c'.directs ≤ c.directs := by
  cases h with
  | quiet => exact ⟨rfl, rfl, Nat.le_refl _, Nat.le_refl _⟩
  | direct _ _ => exact ⟨rfl, rfl, Nat.le_refl _, Nat.sub_le _ _⟩
  | round _ _ => exact ⟨rfl, rfl, Nat.le_succ _, Nat.le_refl _⟩

theorem Advances.nextIncoming_le {c' : Channels} (h : Advances n c c') :
    c'.nextIncoming ≤ c.nextIncoming + 1 := by
  cases h with
  | quiet => exact Nat.le_succ _
  | direct _ _ => exact Nat.le_succ _
  | round _ _ => exact Nat.le_refl _

end Outgoing

section Collect

variable {σ : Type} {more : σ → Bool} {take : σ → AgentRequest → Except String σ}

/-- The loop waits: it took everything, and needs more. -/
theorem collect_waiting {weighs : AgentRequest → Bool} (μ : σ → Nat)
    (htake : ∀ s req s', take s req = .ok s' → μ s' ≤ μ s + [req].countP weighs)
    {incoming : List AgentRequest} {s s' : σ} (h : collect more take s incoming = .waiting s') :
    more s' = true ∧ μ s' ≤ μ s + incoming.countP weighs := by
  induction incoming generalizing s with
  | nil =>
      unfold collect at h
      split at h
      · rename_i hmore
        cases h
        exact ⟨hmore, Nat.le_refl _⟩
      · cases h
  | cons req rest ih =>
      unfold collect at h
      split at h
      · split at h
        · rename_i s₁ hs₁
          obtain ⟨hmore, hle⟩ := ih h
          have hone := htake s req s₁ hs₁
          rw [← List.singleton_append, List.countP_append]
          exact ⟨hmore, by omega⟩
        · cases h
      · cases h

/-- The loop is done, and leaves the rest in the channel. -/
theorem collect_done {weighs : AgentRequest → Bool} (μ : σ → Nat)
    (htake : ∀ s req s', take s req = .ok s' → μ s' ≤ μ s + [req].countP weighs)
    {incoming rest : List AgentRequest} {s s' : σ}
    (h : collect more take s incoming = .done s' rest) :
    more s' = false ∧ rest <:+ incoming ∧
      μ s' + rest.countP weighs ≤ μ s + incoming.countP weighs := by
  induction incoming generalizing s with
  | nil =>
      unfold collect at h
      split at h
      · cases h
      · rename_i hmore
        cases h
        exact ⟨Bool.eq_false_iff.mpr hmore, List.suffix_refl _, Nat.le_refl _⟩
  | cons req incoming ih =>
      unfold collect at h
      split at h
      · split at h
        · rename_i s₁ hs₁
          obtain ⟨hmore, hsuffix, hle⟩ := ih h
          have hone := htake s req s₁ hs₁
          rw [← List.singleton_append, List.countP_append]
          exact ⟨hmore, hsuffix.trans (List.suffix_cons req incoming), by omega⟩
        · cases h
      · rename_i hmore
        cases h
        exact ⟨Bool.eq_false_iff.mpr hmore, List.suffix_refl _, Nat.le_refl _⟩

/-- The loop goes on with what comes later. -/
theorem collect_append (later : List AgentRequest) (incoming : List AgentRequest) (s : σ) :
    collect more take s (incoming ++ later) =
      match collect more take s incoming with
      | .waiting s' => collect more take s' later
      | .done s' rest => .done s' (rest ++ later)
      | .failed e rest => .failed e (rest ++ later) := by
  induction incoming generalizing s with
  | nil =>
      cases later with
      | nil =>
          rw [List.append_nil]
          unfold collect
          cases hmore : more s <;> simp [hmore]
      | cons req later =>
          cases hmore : more s with
          | true => simp [collect, hmore]
          | false => simp [collect, hmore]
  | cons req incoming ih =>
      simp only [List.cons_append, collect]
      cases more s with
      | false => rfl
      | true =>
          simp only [if_true]
          cases take s req with
          | error e => rfl
          | ok s' => exact ih s'

/-- A loop that waits needs more. -/
theorem more_of_waiting {incoming : List AgentRequest} {s s' : σ}
    (h : collect more take s incoming = .waiting s') : more s' = true := by
  have htake : ∀ s req s', take s req = .ok s' → 0 ≤ 0 + [req].countP fun _ => false :=
    fun _ _ _ _ => Nat.zero_le _
  exact (collect_waiting (fun _ => 0) htake h).1

/-- What the loop leaves is at the end. -/
theorem suffix_of_done {incoming rest : List AgentRequest} {s s' : σ}
    (h : collect more take s incoming = .done s' rest) : rest <:+ incoming := by
  have htake : ∀ s req s', take s req = .ok s' → 0 ≤ 0 + [req].countP fun _ => false :=
    fun _ _ _ _ => Nat.zero_le _
  exact (collect_done (fun _ => 0) htake h).2.1

/-- What the loop has left, it has not looked at: without it the loop is
done as well. -/
theorem collect_done_prefix {later rest : List AgentRequest} {s' : σ}
    (incoming : List AgentRequest) (s : σ)
    (h : collect more take s (incoming ++ later) = .done s' rest)
    (hlength : later.length ≤ rest.length) :
    ∃ left, rest = left ++ later ∧ collect more take s incoming = .done s' left := by
  rw [collect_append] at h
  split at h
  · rename_i s₁ hwaiting
    -- a loop that waits looks at the next request
    have hmore := more_of_waiting hwaiting
    obtain rfl := (suffix_of_done h).eq_of_length_le hlength
    cases rest with
    | nil =>
        simp only [collect, hmore, if_true] at h
        cases h
    | cons req rest =>
        simp only [collect, hmore, if_true] at h
        split at h
        · exact absurd (suffix_of_done h).length_le (by simp)
        · cases h
  · rename_i s₁ left hdone
    cases h
    exact ⟨left, rfl, hdone⟩
  · cases h

/-- What the agent has taken of its channel when the rest is left. -/
theorem drop_of_suffix {incoming rest : List AgentRequest} (h : rest <:+ incoming) :
    incoming.drop (incoming.length - rest.length) = rest :=
  (List.suffix_iff_eq_drop.mp h).symm

end Collect

end FrostMpcTss.Proofs
