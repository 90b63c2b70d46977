import FrostMpcTss.Lib.Except
import FrostMpcTss.Service.Execution

/-!
# `FrostMpcTss.Proofs.Execution`: what a poll of an execution can do

One lemma for each stage of `ProtocolExecution::poll`, so that later
proofs never unfold the stages again.

* The two `try_send`s succeed if and only if their channel is open and
  has room (`echoTrySend_eq_ok`, `protocolTrySend_eq_ok`).
* A complete round is forwarded as a whole: `forwardRound` is its
  closed form, and `foldlM_forwardOne_eq_ok` says when it happens.
* `Forwards` is the loop of `forward_buffered_messages` without the
  bound the model puts on its turns; `forwards_forwardBufferedMessages`
  shows that the bound is never reached.
* `TakesOutgoing` and `Intake` are the first two stages, `Completes`
  is the last one, and `polls_poll` puts everything together.
* `new_eq_ok` and `new_ne_ok` are about the constructor.
-/

set_option autoImplicit false

namespace FrostMpcTss.Proofs

open Lib Network Service
open Service.ProtocolExecution

variable {messageId : Nat}

section Keys

instance : Std.TransCmp keyCmp := by
  unfold keyCmp
  infer_instance

instance : Std.LawfulEqCmp keyCmp where
  eq_of_compare {a b} h := by
    have hboth := Ordering.then_eq_eq.mp h
    exact Prod.ext (Nat.compare_eq_eq.mp hboth.1) (Nat.compare_eq_eq.mp hboth.2)

variable {P ρ : Type}

/-- The ready senders are those with a buffered message of the id. -/
theorem mem_readySenders {pending : PendingIncoming P ρ} {sender : Nat} :
    sender ∈ readySenders pending messageId ↔ (sender, messageId) ∈ pending := by
  unfold readySenders
  rw [List.mem_filterMap]
  constructor
  · rintro ⟨⟨sender', messageId'⟩, hmem, heq⟩
    by_cases hid : messageId' = messageId
    · rw [if_pos hid] at heq
      cases heq
      subst hid
      exact Std.TreeMap.mem_keys.mp hmem
    · rw [if_neg hid] at heq
      cases heq
  · intro hmem
    exact ⟨(sender, messageId), Std.TreeMap.mem_keys.mpr hmem, if_pos rfl⟩

/-- The ready senders are in increasing order. -/
theorem pairwise_readySenders (pending : PendingIncoming P ρ) (messageId : Nat) :
    (readySenders pending messageId).Pairwise (· < ·) := by
  have hordered := pending.ordered_keys
  refine hordered.filterMap _ fun a a' hlt sender ha sender' ha' => ?_
  by_cases hid : a.2 = messageId
  · by_cases hid' : a'.2 = messageId
    · rw [if_pos hid, Option.some.injEq] at ha
      rw [if_pos hid', Option.some.injEq] at ha'
      -- the ids are the same, so the senders decide
      rcases Ordering.then_eq_lt.mp hlt with hlt | ⟨_, hlt⟩
      · rw [← ha, ← ha']
        exact Nat.compare_eq_lt.mp hlt
      · have hlt := Nat.compare_eq_lt.mp hlt
        omega
    · rw [if_neg hid'] at ha'
      cases ha'
  · rw [if_neg hid] at ha
    cases ha

theorem nodup_readySenders (pending : PendingIncoming P ρ) (messageId : Nat) :
    (readySenders pending messageId).Nodup :=
  (pairwise_readySenders pending messageId).imp Nat.ne_of_lt

theorem getElem?_isSome_of_mem_readySenders {pending : PendingIncoming P ρ} {sender : Nat}
    (h : sender ∈ readySenders pending messageId) :
    ∃ m, pending[(sender, messageId)]? = some m := by
  have hmem := mem_readySenders.mp h
  exact ⟨_, Std.TreeMap.getElem?_eq_some_getElem hmem⟩

end Keys

section Send

variable {P ρ κ : Type}

/-- The echo channel after a message. -/
def withEcho (st : PollState P ρ κ) (m : EchoMessage ρ) : PollState P ρ κ :=
  { st with echoTx := st.echoTx ++ [m], effects := st.effects ++ [.entered m] }

/-- The agent's channel after a message. -/
def withRequest (st : PollState P ρ κ) (req : AgentRequest) : PollState P ρ κ :=
  { st with
      exec := { st.exec with toProtocol := st.exec.toProtocol ++ [req] }
      effects := st.effects ++ [.delivered req] }

/-- The echo channel takes one message more than the peerset has. -/
theorem echoTrySend_eq_ok {st st' : PollState P ρ κ} {m : EchoMessage ρ} :
    echoTrySend st m = .ok st' ↔
      st.echoTx.length < st.exec.peerset.size + 1 ∧ st' = withEcho st m := by
  unfold echoTrySend
  by_cases hfull : st.exec.peerset.size + 1 ≤ st.echoTx.length
  · rw [if_pos hfull]
    exact ⟨nofun, fun h => absurd hfull (Nat.not_le.mpr h.1)⟩
  · rw [if_neg hfull, Except.ok.injEq]
    exact ⟨fun h => ⟨Nat.not_le.mp hfull, h.symm⟩, fun h => h.2.symm⟩

/-- The agent's channel takes `n - 1` messages while it runs. -/
theorem protocolTrySend_eq_ok {st st' : PollState P ρ κ} {req : AgentRequest} :
    protocolTrySend st req = .ok st' ↔
      st.exec.agentFuture = true ∧ st.exec.toProtocol.length < st.exec.n - 1 ∧
      st' = withRequest st req := by
  unfold protocolTrySend
  cases hopen : st.exec.agentFuture with
  | false => simp
  | true =>
      by_cases hfull : st.exec.n - 1 ≤ st.exec.toProtocol.length
      · simp [hfull]
      · simp only [Bool.true_eq_false, if_false, hfull, Except.ok.injEq, true_and]
        exact ⟨fun h => ⟨Nat.not_le.mp hfull, h.symm⟩, fun h => h.2.symm⟩

/-- The only panics of `protocolTrySend`. -/
theorem protocolTrySend_eq_error {st : PollState P ρ κ} {req : AgentRequest} {why : Panic} :
    protocolTrySend st req = .error why ↔
      (st.exec.agentFuture = false ∧ why = .applicationChannelClosed) ∨
      (st.exec.agentFuture = true ∧ st.exec.n - 1 ≤ st.exec.toProtocol.length ∧
        why = .applicationChannelFull) := by
  unfold protocolTrySend
  cases hopen : st.exec.agentFuture with
  | false => simp [eq_comm]
  | true =>
      by_cases hfull : st.exec.n - 1 ≤ st.exec.toProtocol.length
      · simp [hfull, eq_comm]
      · simp [hfull]

end Send

section Round

variable {P ρ κ : Type} {r : Nat × IncomingRequest P ρ}

/-- What the echo gadget gets of a buffered broadcast. -/
def incomingEcho (messageId : Nat) (r : Nat × IncomingRequest P ρ) : EchoMessage ρ where
  messageId := messageId
  sender := r.1
  payload := r.2.payload
  response := .incoming r.2.pendingResponse

/-- What the agent gets of it. -/
def broadcastRequest (r : Nat × IncomingRequest P ρ) : AgentRequest where
  sender := r.1
  recipient := none
  payload := r.2.payload

/-- The buffered messages of the senders, in their order. -/
def roundOf (pending : PendingIncoming P ρ) (messageId : Nat) (senders : List Nat) :
    List (Nat × IncomingRequest P ρ) :=
  senders.filterMap fun sender => (pending[(sender, messageId)]?).map fun m => (sender, m)

/-- The state after the messages of a round have been handed on. -/
def forwarded (messageId : Nat) (st : PollState P ρ κ)
    (round : List (Nat × IncomingRequest P ρ)) : PollState P ρ κ :=
  { exec :=
      { st.exec with
          pendingIncoming :=
            round.foldl (fun pending r => pending.erase (r.1, messageId))
              st.exec.pendingIncoming
          toProtocol := st.exec.toProtocol ++ round.map broadcastRequest }
    echoTx := st.echoTx ++ round.map (incomingEcho messageId)
    effects :=
      st.effects ++ round.flatMap fun r =>
        [.entered (incomingEcho messageId r), .delivered (broadcastRequest r)] }

theorem forwarded_nil (messageId : Nat) (st : PollState P ρ κ) :
    forwarded messageId st [] = st := by
  simp [forwarded]

/-- One message handed on. -/
def forwardedOne (messageId : Nat) (st : PollState P ρ κ) (r : Nat × IncomingRequest P ρ) :
    PollState P ρ κ :=
  withRequest
    (withEcho
      { st with
          exec :=
            { st.exec with
                pendingIncoming := st.exec.pendingIncoming.erase (r.1, messageId) } }
      (incomingEcho messageId r))
    (broadcastRequest r)

theorem forwarded_cons (messageId : Nat) (st : PollState P ρ κ)
    (r : Nat × IncomingRequest P ρ) (round : List (Nat × IncomingRequest P ρ)) :
    forwarded messageId st (r :: round)
      = forwarded messageId (forwardedOne messageId st r) round := by
  simp [forwarded, forwardedOne, withRequest, withEcho]

/-- One message of a round needs room in both channels. -/
theorem forwardOne_eq_ok {sender : Nat} {st st' : PollState P ρ κ} :
    forwardOne messageId st sender = .ok st' ↔
      ∃ m, st.exec.pendingIncoming[(sender, messageId)]? = some m ∧
        st.echoTx.length < st.exec.peerset.size + 1 ∧ st.exec.agentFuture = true ∧
        st.exec.toProtocol.length < st.exec.n - 1 ∧
        st' = forwardedOne messageId st (sender, m) := by
  unfold forwardOne
  cases hm : st.exec.pendingIncoming[(sender, messageId)]? with
  | none => simp
  | some m =>
      simp only [Except.bind_eq_ok, echoTrySend_eq_ok, protocolTrySend_eq_ok,
        Option.some.injEq]
      constructor
      · rintro ⟨_, ⟨hecho, rfl⟩, hopen, hroom, rfl⟩
        exact ⟨m, rfl, hecho, hopen, hroom, rfl⟩
      · rintro ⟨_, rfl, hecho, hopen, hroom, rfl⟩
        exact ⟨_, ⟨hecho, rfl⟩, hopen, hroom, rfl⟩

/-- There is room for a whole round. -/
structure RoomForRound (st : PollState P ρ κ) (size : Nat) : Prop where
  echo : size = 0 ∨ st.echoTx.length + size ≤ st.exec.peerset.size + 1
  isOpen : size = 0 ∨ st.exec.agentFuture = true
  agent : size = 0 ∨ st.exec.toProtocol.length + size ≤ st.exec.n - 1

/-- The messages of the other senders stay buffered. -/
theorem getElem?_forwardedOne (messageId : Nat) (st : PollState P ρ κ)
    {round : List (Nat × IncomingRequest P ρ)} (hnot : r.1 ∉ round.map Prod.fst)
    (hmem : ∀ r' ∈ round, st.exec.pendingIncoming[(r'.1, messageId)]? = some r'.2) :
    ∀ r' ∈ round,
      (forwardedOne messageId st r).exec.pendingIncoming[(r'.1, messageId)]? = some r'.2 := by
  intro r' hr'
  have hne : r.1 ≠ r'.1 := fun heq => hnot (heq ▸ List.mem_map_of_mem hr')
  show (st.exec.pendingIncoming.erase (r.1, messageId))[(r'.1, messageId)]? = some r'.2
  rw [Std.TreeMap.getElem?_erase, if_neg, hmem r' hr']
  intro heq
  exact hne (Prod.mk.inj (Std.LawfulEqCmp.eq_of_compare heq)).1

/-- Room for a round is room for its first message and then for the
others. -/
theorem roomForRound_succ (messageId : Nat) (st : PollState P ρ κ)
    (r : Nat × IncomingRequest P ρ) (size : Nat) :
    RoomForRound st (size + 1) ↔
      (st.echoTx.length < st.exec.peerset.size + 1 ∧ st.exec.agentFuture = true ∧
        st.exec.toProtocol.length < st.exec.n - 1) ∧
      RoomForRound (forwardedOne messageId st r) size := by
  have hecho : (forwardedOne messageId st r).echoTx.length = st.echoTx.length + 1 :=
    List.length_append
  have hagent : (forwardedOne messageId st r).exec.toProtocol.length
      = st.exec.toProtocol.length + 1 := List.length_append
  have hn : (forwardedOne messageId st r).exec.n = st.exec.n := rfl
  have hsize : (forwardedOne messageId st r).exec.peerset.size = st.exec.peerset.size := rfl
  constructor
  · rintro ⟨h₁, h₂, h₃⟩
    have h₁ := h₁.resolve_left (Nat.succ_ne_zero size)
    have h₃ := h₃.resolve_left (Nat.succ_ne_zero size)
    have hopen := h₂.resolve_left (Nat.succ_ne_zero size)
    exact ⟨⟨by omega, hopen, by omega⟩, ⟨.inr (by omega), .inr hopen, .inr (by omega)⟩⟩
  · rintro ⟨⟨h₁, h₂, h₃⟩, hrest⟩
    have hecho' := hrest.echo
    have hagent' := hrest.agent
    exact ⟨.inr (by omega), .inr h₂, .inr (by omega)⟩

/-- Handing on the messages of distinct senders succeeds if and only
if both channels have room for all of them. -/
theorem foldlM_forwardOne_eq_ok {st st' : PollState P ρ κ}
    {round : List (Nat × IncomingRequest P ρ)} (hnodup : (round.map Prod.fst).Nodup)
    (hmem : ∀ r ∈ round, st.exec.pendingIncoming[(r.1, messageId)]? = some r.2) :
    (round.map Prod.fst).foldlM (forwardOne messageId) st = .ok st' ↔
      RoomForRound st round.length ∧ st' = forwarded messageId st round := by
  induction round generalizing st with
  | nil =>
      rw [List.map_nil, List.foldlM_nil, Except.pure_eq, Except.ok.injEq, forwarded_nil]
      exact ⟨fun h => ⟨⟨.inl rfl, .inl rfl, .inl rfl⟩, h.symm⟩, fun h => h.2.symm⟩
  | cons r round ih =>
      rw [List.map_cons, List.nodup_cons] at hnodup
      have hr := hmem r List.mem_cons_self
      have hrest := getElem?_forwardedOne messageId st hnodup.1
        fun r' hr' => hmem r' (List.mem_cons_of_mem r hr')
      rw [List.map_cons, List.foldlM_cons, Except.bind_eq_ok, List.length_cons,
        roomForRound_succ messageId st r, forwarded_cons]
      constructor
      · rintro ⟨st₁, h₁, hfold⟩
        obtain ⟨m, hm, hecho, hopen, hagent, rfl⟩ := forwardOne_eq_ok.mp h₁
        obtain rfl : m = r.2 := Option.some.inj (hm.symm.trans hr)
        obtain ⟨hroom, hst'⟩ := (ih hnodup.2 hrest).mp hfold
        exact ⟨⟨⟨hecho, hopen, hagent⟩, hroom⟩, hst'⟩
      · rintro ⟨⟨⟨hecho, hopen, hagent⟩, hroom⟩, hst'⟩
        exact ⟨forwardedOne messageId st r,
          forwardOne_eq_ok.mpr ⟨r.2, hr, hecho, hopen, hagent, rfl⟩,
          (ih hnodup.2 hrest).mpr ⟨hroom, hst'⟩⟩

/-- The channel of a running agent is found full only if the round does
not fit. -/
theorem foldlM_forwardOne_eq_full {st : PollState P ρ κ} {round : List (Nat × IncomingRequest P ρ)}
    (hnodup : (round.map Prod.fst).Nodup)
    (hmem : ∀ r ∈ round, st.exec.pendingIncoming[(r.1, messageId)]? = some r.2)
    (h : (round.map Prod.fst).foldlM (forwardOne messageId) st
      = .error .applicationChannelFull) :
    st.exec.agentFuture = true ∧
      st.exec.n - 1 < st.exec.toProtocol.length + round.length := by
  induction round generalizing st with
  | nil => cases h
  | cons r round ih =>
      rw [List.map_cons, List.nodup_cons] at hnodup
      have hr := hmem r List.mem_cons_self
      rw [List.map_cons, List.foldlM_cons, Except.bind_eq_error] at h
      rcases h with h | ⟨st₁, h₁, hfold⟩
      · -- the first message finds the channel full
        simp only [forwardOne, hr, Except.bind_eq_error] at h
        rcases h with h | ⟨st₁, h₁, h⟩
        · unfold echoTrySend at h
          split at h <;> cases h
        · obtain ⟨_, rfl⟩ := echoTrySend_eq_ok.mp h₁
          rcases protocolTrySend_eq_error.mp h with ⟨_, h⟩ | ⟨hopen, hfull, _⟩
          · cases h
          · have hfull : st.exec.n - 1 ≤ st.exec.toProtocol.length := hfull
            refine ⟨hopen, ?_⟩
            rw [List.length_cons]
            omega
      · obtain ⟨m, hm, _, _, _, rfl⟩ := forwardOne_eq_ok.mp h₁
        obtain rfl : m = r.2 := Option.some.inj (hm.symm.trans hr)
        obtain ⟨hopen, hlen⟩ : st.exec.agentFuture = true ∧ st.exec.n - 1
            < (st.exec.toProtocol ++ [broadcastRequest r]).length + round.length :=
          ih hnodup.2 (getElem?_forwardedOne messageId st hnodup.1
            fun r' hr' => hmem r' (List.mem_cons_of_mem r hr')) hfold
        refine ⟨hopen, ?_⟩
        rw [List.length_append, List.length_singleton] at hlen
        rw [List.length_cons]
        omega

/-- `roundOf` lists the senders themselves when all have a message. -/
theorem map_fst_roundOf {pending : PendingIncoming P ρ} {senders : List Nat}
    (h : ∀ sender ∈ senders, ∃ m, pending[(sender, messageId)]? = some m) :
    (roundOf pending messageId senders).map Prod.fst = senders := by
  induction senders with
  | nil => rfl
  | cons sender senders ih =>
      obtain ⟨m, hm⟩ := h sender List.mem_cons_self
      have htail := ih fun s hs => h s (List.mem_cons_of_mem sender hs)
      unfold roundOf at htail ⊢
      rw [List.filterMap_cons_some (b := (sender, m)) (by rw [hm]; rfl), List.map_cons, htail]

theorem mem_roundOf {pending : PendingIncoming P ρ} {senders : List Nat} :
    r ∈ roundOf pending messageId senders ↔
      r.1 ∈ senders ∧ pending[(r.1, messageId)]? = some r.2 := by
  unfold roundOf
  rw [List.mem_filterMap]
  constructor
  · rintro ⟨sender, hs, h⟩
    obtain ⟨m, hm, rfl⟩ := Option.map_eq_some_iff.mp h
    exact ⟨hs, hm⟩
  · rintro ⟨hs, hm⟩
    exact ⟨r.1, hs, by rw [hm]; rfl⟩

/-- The round that is ready under the current id. -/
def readyRound (s : ProtocolExecution P ρ κ) : List (Nat × IncomingRequest P ρ) :=
  roundOf s.pendingIncoming s.nextIncomingBroadcastId
    (readySenders s.pendingIncoming s.nextIncomingBroadcastId)

theorem map_fst_readyRound (s : ProtocolExecution P ρ κ) :
    (readyRound s).map Prod.fst = readySenders s.pendingIncoming s.nextIncomingBroadcastId :=
  map_fst_roundOf fun _ h => getElem?_isSome_of_mem_readySenders h

theorem length_readyRound (s : ProtocolExecution P ρ κ) :
    (readyRound s).length
      = (readySenders s.pendingIncoming s.nextIncomingBroadcastId).length := by
  rw [← map_fst_readyRound, List.length_map]

theorem mem_readyRound {s : ProtocolExecution P ρ κ} :
    r ∈ readyRound s ↔ s.pendingIncoming[(r.1, s.nextIncomingBroadcastId)]? = some r.2 := by
  unfold readyRound
  rw [mem_roundOf]
  constructor
  · exact fun h => h.2
  · intro h
    refine ⟨mem_readySenders.mpr ?_, h⟩
    rw [Std.TreeMap.mem_iff_isSome_getElem?, h]
    rfl

/-- The state after a complete round: its messages are handed on and
the next id is awaited. -/
def forwardRound (st : PollState P ρ κ) : PollState P ρ κ :=
  let st' := forwarded st.exec.nextIncomingBroadcastId st (readyRound st.exec)
  { st' with
      exec :=
        { st'.exec with nextIncomingBroadcastId := st.exec.nextIncomingBroadcastId + 1 } }

/-- The round under the current id is complete. -/
def RoundComplete (s : ProtocolExecution P ρ κ) : Prop :=
  (readyRound s).length = s.n - 1

/-- `forward_buffered_messages` without a bound on its turns. -/
inductive Forwards : PollState P ρ κ → Except Panic (PollState P ρ κ) → Prop where
  | done {st : PollState P ρ κ} : ¬ RoundComplete st.exec → Forwards st (.ok st)
  | full {st : PollState P ρ κ} {why : Panic} : RoundComplete st.exec →
      ¬ RoomForRound st (st.exec.n - 1) →
      (why = .applicationChannelFull →
        st.exec.agentFuture = true ∧ st.exec.toProtocol ≠ []) →
      Forwards st (.error why)
  | round {st : PollState P ρ κ} {result : Except Panic (PollState P ρ κ)} :
      RoundComplete st.exec → RoomForRound st (st.exec.n - 1) →
      Forwards (forwardRound st) result → Forwards st result

theorem size_foldl_erase_le (messageId : Nat) (round : List (Nat × IncomingRequest P ρ))
    (pending : PendingIncoming P ρ) :
    (round.foldl (fun pending r => pending.erase (r.1, messageId)) pending).size
      ≤ pending.size := by
  induction round generalizing pending with
  | nil => exact Nat.le_refl _
  | cons r round ih => exact Nat.le_trans (ih _) Std.TreeMap.size_erase_le

/-- Erasing a round leaves the messages of other ids. -/
theorem mem_foldl_erase {key : Nat × Nat} (hne : key.2 ≠ messageId)
    (round : List (Nat × IncomingRequest P ρ)) (pending : PendingIncoming P ρ) :
    key ∈ round.foldl (fun pending r => pending.erase (r.1, messageId)) pending ↔
      key ∈ pending := by
  induction round generalizing pending with
  | nil => exact Iff.rfl
  | cons r round ih =>
      rw [List.foldl_cons, ih, Std.TreeMap.mem_erase]
      refine and_iff_right fun heq => ?_
      exact hne (congrArg Prod.snd (Std.LawfulEqCmp.eq_of_compare heq)).symm

/-- A forwarded round leaves the buffer smaller. -/
theorem size_forwardRound_lt (st : PollState P ρ κ) (h : readyRound st.exec ≠ []) :
    (forwardRound st).exec.pendingIncoming.size < st.exec.pendingIncoming.size := by
  cases hround : readyRound st.exec with
  | nil => exact absurd hround h
  | cons r round =>
      have hr : st.exec.pendingIncoming[(r.1, st.exec.nextIncomingBroadcastId)]? = some r.2 :=
        mem_readyRound.mp (hround ▸ List.mem_cons_self)
      have hmem : (r.1, st.exec.nextIncomingBroadcastId) ∈ st.exec.pendingIncoming := by
        rw [Std.TreeMap.mem_iff_isSome_getElem?, hr]
        rfl
      have hpos : 0 < st.exec.pendingIncoming.size := by
        rw [Nat.pos_iff_ne_zero]
        intro hzero
        have hempty : st.exec.pendingIncoming.isEmpty := by
          rw [Std.TreeMap.isEmpty_eq_size_eq_zero, hzero]
          rfl
        exact Std.TreeMap.not_mem_of_isEmpty hempty hmem
      show ((readyRound st.exec).foldl _ st.exec.pendingIncoming).size < _
      rw [hround, List.foldl_cons]
      refine Nat.lt_of_le_of_lt (size_foldl_erase_le _ round _) ?_
      rw [Std.TreeMap.size_erase, if_pos (Std.TreeMap.contains_iff_mem.mpr hmem)]
      exact Nat.sub_lt hpos Nat.one_pos

/-- The bound on the loop is never reached: it exceeds the number of
buffered messages, and every turn removes one at least. -/
theorem forwards_forwardLoop (fuel : Nat) (st : PollState P ρ κ) (hn : 2 ≤ st.exec.n)
    (hfuel : st.exec.pendingIncoming.size < fuel) : Forwards st (forwardLoop fuel st) := by
  induction fuel generalizing st with
  | zero => exact absurd hfuel (Nat.not_lt_zero _)
  | succ fuel ih =>
      have hround := length_readyRound st.exec
      rw [forwardLoop]
      by_cases hcomplete : RoundComplete st.exec
      · have hready : (readySenders st.exec.pendingIncoming
            st.exec.nextIncomingBroadcastId).length = st.exec.n - 1 :=
          hround.symm.trans hcomplete
        have hnodup : ((readyRound st.exec).map Prod.fst).Nodup := by
          rw [map_fst_readyRound]
          exact nodup_readySenders _ _
        have hmem : ∀ r ∈ readyRound st.exec,
            st.exec.pendingIncoming[(r.1, st.exec.nextIncomingBroadcastId)]? = some r.2 :=
          fun r hr => mem_readyRound.mp hr
        simp only [hready, ne_eq, not_true_eq_false, if_false]
        rw [← map_fst_readyRound]
        cases hfold : ((readyRound st.exec).map Prod.fst).foldlM
            (forwardOne st.exec.nextIncomingBroadcastId) st with
        | ok st₁ =>
            obtain ⟨hroom, rfl⟩ := (foldlM_forwardOne_eq_ok hnodup hmem).mp hfold
            have hcomplete' : (readyRound st.exec).length = st.exec.n - 1 := hcomplete
            rw [hcomplete'] at hroom
            -- a round that is not empty leaves fewer messages, so the fuel lasts
            refine .round hcomplete hroom (ih (forwardRound st) hn ?_)
            have hne : readyRound st.exec ≠ [] := by
              intro hnil
              rw [hnil, List.length_nil] at hcomplete'
              omega
            have hlt := size_forwardRound_lt st hne
            omega
        | error why =>
            refine .full hcomplete ?_ ?_
            · intro hroom
              have hcomplete' : (readyRound st.exec).length = st.exec.n - 1 := hcomplete
              rw [← hcomplete'] at hroom
              have hok := (foldlM_forwardOne_eq_ok hnodup hmem).mpr ⟨hroom, rfl⟩
              rw [hfold] at hok
              cases hok
            · rintro rfl
              obtain ⟨hopen, hlt⟩ := foldlM_forwardOne_eq_full hnodup hmem hfold
              refine ⟨hopen, fun hnil => ?_⟩
              have hcomplete' : (readyRound st.exec).length = st.exec.n - 1 := hcomplete
              rw [hnil, List.length_nil, hcomplete'] at hlt
              omega
      · have hready : (readySenders st.exec.pendingIncoming
            st.exec.nextIncomingBroadcastId).length ≠ st.exec.n - 1 :=
          fun h => hcomplete (hround.trans h)
        simp only [hready, ne_eq, not_false_eq_true, if_true]
        exact .done hcomplete

/-- `forward_buffered_messages` does what `Forwards` says. -/
theorem forwards_forwardBufferedMessages (st : PollState P ρ κ) (hn : 2 ≤ st.exec.n) :
    Forwards st (forwardBufferedMessages st) :=
  forwards_forwardLoop _ st hn (Nat.lt_succ_self _)

end Round

variable {now : Nat} {turn : AgentTurn}

section Intake

variable {P ρ κ : Type} {st st' : PollState P ρ κ} {m : IncomingRequest P ρ}
  {s : ProtocolExecution P ρ κ} {echoTx : List (EchoMessage ρ)}

/-- What the echo gadget gets of an own broadcast. -/
def outgoingEcho (s : ProtocolExecution P ρ κ) (m : AgentMessage) : EchoMessage ρ where
  messageId := s.nextOutgoingBroadcastId
  sender := s.i + 1
  payload := m.body
  response := .outgoing s.nextOutgoingBroadcastId

/-- The state after a direct message of the agent has been sent. -/
def sentDirect (st : PollState P ρ κ) (rest : List AgentMessage) (peer : P) (body : Bytes) :
    PollState P ρ κ :=
  { st with
      exec := { st.exec with fromProtocol := rest }
      effects := st.effects ++ [.sendDirect peer body] }

/-- The state after a broadcast of the agent has been sent. -/
def sentBroadcast [DecidableEq P] (st : PollState P ρ κ) (rest : List AgentMessage)
    (m : AgentMessage) : PollState P ρ κ :=
  { exec :=
      { st.exec with
          fromProtocol := rest
          nextOutgoingBroadcastId := st.exec.nextOutgoingBroadcastId + 1 }
    echoTx := st.echoTx ++ [outgoingEcho st.exec m]
    effects :=
      st.effects ++
        [.multicast st.exec.nextOutgoingBroadcastId m.body st.exec.peerset.remotesIter,
          .entered (outgoingEcho st.exec m)] }

/-- The first stage of a poll, when it succeeds. -/
inductive TakesOutgoing [DecidableEq P] (st : PollState P ρ κ) : PollState P ρ κ → Prop where
  | nothing : st.exec.fromProtocol = [] → TakesOutgoing st st
  | direct {m : AgentMessage} {rest : List AgentMessage} {k : Nat} {peer : P} :
      st.exec.fromProtocol = m :: rest → m.recipient = some (k + 1) →
      st.exec.peerset.peers[k]? = some peer →
      TakesOutgoing st (sentDirect st rest peer m.body)
  | broadcast {m : AgentMessage} {rest : List AgentMessage} :
      st.exec.fromProtocol = m :: rest → m.recipient = none → 0 < st.exec.n →
      st.exec.i + 1 < 2 ^ 16 → st.echoTx.length < st.exec.peerset.size + 1 →
      TakesOutgoing st (sentBroadcast st rest m)

theorem predUnsigned_eq_ok {a b : Nat} : predUnsigned a = .ok b ↔ a = b + 1 := by
  unfold predUnsigned
  by_cases h : 0 < a
  · rw [if_pos h, Except.ok.injEq]
    omega
  · rw [if_neg h]
    exact ⟨nofun, fun heq => by omega⟩

theorem succU16_eq_ok {a b : Nat} : succU16 a = .ok b ↔ a + 1 < 2 ^ 16 ∧ b = a + 1 := by
  unfold succU16
  by_cases h : a + 1 < 2 ^ 16
  · rw [if_pos h, Except.ok.injEq]
    exact ⟨fun heq => ⟨h, heq.symm⟩, fun heq => heq.2.symm⟩
  · rw [if_neg h]
    exact ⟨nofun, fun heq => absurd heq.1 h⟩

theorem index_eq_ok {p : Peerset P} {k : Nat} {peer : P} :
    p.index k = .ok peer ↔ p.peers[k]? = some peer := by
  unfold Peerset.index
  cases p.peers[k]? with
  | none => exact ⟨nofun, nofun⟩
  | some q => rw [Except.ok.injEq, Option.some.injEq]

/-- What the first half of the loop does, case by case. -/
theorem takeOutgoing_eq_ok [DecidableEq P] : takeOutgoing st = .ok st' ↔ TakesOutgoing st st' := by
  unfold takeOutgoing
  cases hq : st.exec.fromProtocol with
  | nil =>
      show Except.ok st = .ok st' ↔ _
      rw [Except.ok.injEq]
      constructor
      · rintro rfl
        exact .nothing hq
      · rintro (_ | ⟨hq', _, _⟩ | ⟨hq', _, _, _, _⟩)
        · rfl
        · rw [hq] at hq'
          cases hq'
        · rw [hq] at hq'
          cases hq'
  | cons m rest =>
      cases hto : m.recipient with
      | some remoteIndex =>
          simp only [sendOutgoing, hto, Except.bind_eq_ok, predUnsigned_eq_ok, index_eq_ok,
            Except.pure_eq, Except.ok.injEq]
          constructor
          · rintro ⟨k, rfl, peer, hpeer, rfl⟩
            exact .direct hq hto hpeer
          · rintro (hq' | ⟨hq', hto', hpeer⟩ | ⟨hq', hto', _, _, _⟩)
            · rw [hq] at hq'
              cases hq'
            · rw [hq] at hq'
              cases hq'
              rw [hto, Option.some.injEq] at hto'
              exact ⟨_, hto', _, hpeer, rfl⟩
            · rw [hq] at hq'
              cases hq'
              rw [hto] at hto'
              cases hto'
      | none =>
          simp only [sendOutgoing, hto, Except.bind_eq_ok, predUnsigned_eq_ok, succU16_eq_ok,
            echoTrySend_eq_ok]
          constructor
          · rintro ⟨_, hn, sender, ⟨hi, rfl⟩, hecho, hst⟩
            -- the effects of the loop and of `sentBroadcast` are nested differently
            have hst' : st' = sentBroadcast st rest m := by
              rw [hst]
              simp only [withEcho, sentBroadcast, outgoingEcho, List.append_assoc,
                List.cons_append, List.nil_append]
            rw [hst']
            exact .broadcast hq hto (by omega) hi hecho
          · rintro (hq' | ⟨hq', hto', _⟩ | ⟨hq', _, hn, hi, hecho⟩)
            · rw [hq] at hq'
              cases hq'
            · rw [hq] at hq'
              cases hq'
              rw [hto] at hto'
              cases hto'
            · rw [hq] at hq'
              cases hq'
              refine ⟨st.exec.n - 1, by omega, st.exec.i + 1, ⟨hi, rfl⟩, hecho, ?_⟩
              simp only [withEcho, sentBroadcast, outgoingEcho, List.append_assoc,
                List.cons_append, List.nil_append]

/-- The state after a broadcast of a remote has been buffered. -/
def bufferedBroadcast (st : PollState P ρ κ) (m : IncomingRequest P ρ) : PollState P ρ κ :=
  { st with
      exec :=
        { st.exec with
            pendingIncoming :=
              st.exec.pendingIncoming.insert (m.peerIndex + 1, m.context.messageId) m } }

/-- What the agent gets of a direct message. -/
def directRequest (s : ProtocolExecution P ρ κ) (m : IncomingRequest P ρ) : AgentRequest where
  sender := m.peerIndex + 1
  recipient := some (s.i + 1)
  payload := m.payload

/-- The state after a direct message has been handed on. -/
def forwardedDirect (st : PollState P ρ κ) (m : IncomingRequest P ρ) : PollState P ρ κ :=
  withRequest { st with effects := st.effects ++ [.respond m.pendingResponse (.ok [])] }
    (directRequest st.exec m)

/-- An accepted message of the network, when it is taken without a
panic. -/
inductive TakesIncoming (now : Nat) (st : PollState P ρ κ) (m : IncomingRequest P ρ) :
    PollState P ρ κ → Prop where
  | broadcast : m.isBroadcast = true → m.peerIndex + 1 < 2 ^ 16 →
      TakesIncoming now st m (restartQuietPeriod now (bufferedBroadcast st m))
  | direct : m.isBroadcast = false → m.peerIndex + 1 < 2 ^ 16 → st.exec.i + 1 < 2 ^ 16 →
      st.exec.agentFuture = true → st.exec.toProtocol.length < st.exec.n - 1 →
      TakesIncoming now st m (restartQuietPeriod now (forwardedDirect st m))

/-- What the second half of the loop does, case by case. -/
theorem takeIncoming_eq_ok : takeIncoming now st m = .ok st' ↔ TakesIncoming now st m st' := by
  unfold takeIncoming
  cases hb : m.isBroadcast with
  | true =>
      simp only [if_true, bufferBroadcast, Except.bind_eq_ok, succU16_eq_ok, Except.pure_eq,
        Except.ok.injEq]
      constructor
      · rintro ⟨_, ⟨_, ⟨hindex, rfl⟩, rfl⟩, rfl⟩
        exact .broadcast hb hindex
      · rintro (⟨_, hindex⟩ | ⟨hb', _, _, _, _⟩)
        · exact ⟨_, ⟨_, ⟨hindex, rfl⟩, rfl⟩, rfl⟩
        · rw [hb] at hb'
          cases hb'
  | false =>
      simp only [Bool.false_eq_true, if_false, forwardDirectMessage, Except.bind_eq_ok,
        succU16_eq_ok, protocolTrySend_eq_ok, Except.pure_eq, Except.ok.injEq]
      constructor
      · rintro ⟨_, ⟨_, ⟨hindex, rfl⟩, _, ⟨hi, rfl⟩, hopen, hroom, rfl⟩, rfl⟩
        exact .direct hb hindex hi hopen hroom
      · rintro (⟨hb', _⟩ | ⟨_, hindex, hi, hopen, hroom⟩)
        · rw [hb] at hb'
          cases hb'
        · exact ⟨_, ⟨_, ⟨hindex, rfl⟩, _, ⟨hi, rfl⟩, hopen, hroom, rfl⟩, rfl⟩

/-- A refused message. -/
def refused (st : PollState P ρ κ) (m : IncomingRequest P ρ) : PollState P ρ κ :=
  { withoutHead st with effects := st.effects ++ [.respond m.pendingResponse refuse] }

/-- The second stage of a poll, when it goes on to the third. -/
inductive Intake (now : Nat) (st : PollState P ρ κ) : PollState P ρ κ → Prop where
  | nothing : st.exec.fromNetwork = [] → Intake now st st
  | message {m : IncomingRequest P ρ} {st' : PollState P ρ κ} :
      st.exec.fromNetwork.head? = some m → st.exec.accepts m = true →
      TakesIncoming now (withoutHead st) m st' → Intake now st st'

/-- The last stage of a poll. -/
inductive Completes (now : Nat) (turn : AgentTurn) (st : PollState P ρ κ) :
    ExecPoll P ρ κ → Prop where
  | reports {deadline : Nat} {r : AgentResult} : st.exec.completionDelay = some deadline →
      deadline ≤ now → st.exec.agentResult = some r → Completes now turn st (report st r)
  | missing {deadline : Nat} : st.exec.completionDelay = some deadline →
      st.exec.agentResult = none → Completes now turn st (.panic .resultMissing)
  | waits {deadline : Nat} : st.exec.completionDelay = some deadline → now < deadline →
      Completes now turn st (.pending st)
  | agent : st.exec.completionDelay = none → st.exec.agentFuture = true →
      Completes now turn st (.pending (pollAgent now turn st))
  | idle : st.exec.completionDelay = none → st.exec.agentFuture = false →
      Completes now turn st (.pending st)

/-- The end of a poll does what `Completes` says. -/
theorem completes_completeOrPollAgent (now : Nat) (turn : AgentTurn) (st : PollState P ρ κ) :
    Completes now turn st (completeOrPollAgent now turn st) := by
  unfold completeOrPollAgent
  cases hd : st.exec.completionDelay with
  | some deadline =>
      by_cases hlate : deadline ≤ now
      · simp only [hlate, if_true]
        cases hr : st.exec.agentResult with
        | some r => exact .reports hd hlate hr
        | none => exact .missing hd hr
      · simp only [hlate, if_false]
        exact .waits hd (Nat.not_le.mp hlate)
  | none =>
      cases hf : st.exec.agentFuture with
      | true => exact .agent hd hf
      | false => exact .idle hd hf

/-- The ways a poll can go. -/
inductive Polls [DecidableEq P] (s : ProtocolExecution P ρ κ) (echoTx : List (EchoMessage ρ))
    (now : Nat) (turn : AgentTurn) : ExecPoll P ρ κ → Prop where
  | outgoingPanics {why : Panic} :
      takeOutgoing { exec := s, echoTx := echoTx, effects := [] } = .error why →
      Polls s echoTx now turn (.panic why)
  | refuses {st : PollState P ρ κ} {m : IncomingRequest P ρ} :
      TakesOutgoing { exec := s, echoTx := echoTx, effects := [] } st →
      st.exec.fromNetwork.head? = some m → st.exec.accepts m = false →
      Polls s echoTx now turn (.pending (refused st m))
  | incomingPanics {st : PollState P ρ κ} {m : IncomingRequest P ρ} {why : Panic} :
      TakesOutgoing { exec := s, echoTx := echoTx, effects := [] } st →
      st.exec.fromNetwork.head? = some m → st.exec.accepts m = true →
      takeIncoming now (withoutHead st) m = .error why →
      Polls s echoTx now turn (.panic why)
  | forwards {st st' : PollState P ρ κ} {result : Except Panic (PollState P ρ κ)} :
      TakesOutgoing { exec := s, echoTx := echoTx, effects := [] } st → Intake now st st' →
      Forwards st' result → Polls s echoTx now turn (finish now turn result)

/-- The answers to the RPC caller among the effects. -/
def answersIn (effects : List (Effect P ρ κ)) : List (κ × AgentResult) :=
  effects.filterMap fun
    | .answered tx result => some (tx, result)
    | _ => none

/-- What the stages before the last one leave alone: the session's
data, the agent, and the RPC caller. The quiet period is left alone as
well, or started anew after completion. -/
structure Frame (now : Nat) (st st' : PollState P ρ κ) : Prop where
  sessionId : st'.exec.sessionId = st.exec.sessionId
  peerset : st'.exec.peerset = st.exec.peerset
  i : st'.exec.i = st.exec.i
  n : st'.exec.n = st.exec.n
  agentFuture : st'.exec.agentFuture = st.exec.agentFuture
  agentResult : st'.exec.agentResult = st.exec.agentResult
  pendingResponse : st'.exec.pendingResponse = st.exec.pendingResponse
  answers : answersIn st'.effects = answersIn st.effects
  completionDelay : st'.exec.completionDelay = st.exec.completionDelay ∨
    (st.exec.agentResult.isSome = true ∧
      st'.exec.completionDelay = some (now + completionQuietPeriod))

theorem Frame.refl (now : Nat) (st : PollState P ρ κ) : Frame now st st :=
  ⟨rfl, rfl, rfl, rfl, rfl, rfl, rfl, rfl, .inl rfl⟩

theorem Frame.trans {st₁ st₂ st₃ : PollState P ρ κ} (h : Frame now st₁ st₂)
    (h' : Frame now st₂ st₃) :
    Frame now st₁ st₃ where
  sessionId := h'.sessionId.trans h.sessionId
  peerset := h'.peerset.trans h.peerset
  i := h'.i.trans h.i
  n := h'.n.trans h.n
  agentFuture := h'.agentFuture.trans h.agentFuture
  agentResult := h'.agentResult.trans h.agentResult
  pendingResponse := h'.pendingResponse.trans h.pendingResponse
  answers := h'.answers.trans h.answers
  completionDelay := by
    rcases h'.completionDelay with h₂ | ⟨hsome, h₂⟩
    · rcases h.completionDelay with h₁ | ⟨hsome, h₁⟩
      · exact .inl (h₂.trans h₁)
      · exact .inr ⟨hsome, h₂.trans h₁⟩
    · exact .inr ⟨h.agentResult ▸ hsome, h₂⟩

theorem answersIn_append (effects effects' : List (Effect P ρ κ)) :
    answersIn (effects ++ effects') = answersIn effects ++ answersIn effects' :=
  List.filterMap_append

/-- Sending a message of the agent keeps the frame. -/
theorem frame_takesOutgoing [DecidableEq P] (now : Nat) (h : TakesOutgoing st st') :
    Frame now st st' := by
  cases h with
  | nothing _ => exact .refl now st
  | direct _ _ _ =>
      refine ⟨rfl, rfl, rfl, rfl, rfl, rfl, rfl, ?_, .inl rfl⟩
      exact (answersIn_append _ _).trans (List.append_nil _)
  | broadcast _ _ _ _ _ =>
      refine ⟨rfl, rfl, rfl, rfl, rfl, rfl, rfl, ?_, .inl rfl⟩
      exact (answersIn_append _ _).trans (List.append_nil _)

/-- The timer is set again only when the agent has returned. -/
theorem frame_restartQuietPeriod (now : Nat) (st : PollState P ρ κ) :
    Frame now st (restartQuietPeriod now st) := by
  unfold restartQuietPeriod
  split
  · exact ⟨rfl, rfl, rfl, rfl, rfl, rfl, rfl, rfl, .inr ⟨‹_›, rfl⟩⟩
  · exact .refl now st

theorem frame_takesIncoming (h : TakesIncoming now st m st') : Frame now st st' := by
  cases h with
  | broadcast _ _ =>
      refine .trans ?_ (frame_restartQuietPeriod now _)
      exact ⟨rfl, rfl, rfl, rfl, rfl, rfl, rfl, rfl, .inl rfl⟩
  | direct _ _ _ _ _ =>
      refine .trans ?_ (frame_restartQuietPeriod now _)
      refine ⟨rfl, rfl, rfl, rfl, rfl, rfl, rfl, ?_, .inl rfl⟩
      show answersIn ((st.effects ++ _) ++ _) = _
      rw [answersIn_append, answersIn_append]
      exact (List.append_nil _).trans (List.append_nil _)

/-- After completion a message starts the quiet period anew. -/
theorem completionDelay_takesIncoming (h : TakesIncoming now st m st')
    (hsome : st.exec.agentResult.isSome = true) :
    st'.exec.completionDelay = some (now + completionQuietPeriod) := by
  cases h with
  | broadcast _ _ =>
      have hsome' : (bufferedBroadcast st m).exec.agentResult.isSome = true := hsome
      simp only [restartQuietPeriod, hsome', if_true]
  | direct _ _ _ _ _ =>
      have hsome' : (forwardedDirect st m).exec.agentResult.isSome = true := hsome
      simp only [restartQuietPeriod, hsome', if_true]

/-- So does the whole second stage, whether it takes a message or not. -/
theorem frame_intake (h : Intake now st st') : Frame now st st' := by
  cases h with
  | nothing _ => exact .refl now st
  | message _ _ htakes =>
      refine .trans ?_ (frame_takesIncoming htakes)
      exact ⟨rfl, rfl, rfl, rfl, rfl, rfl, rfl, rfl, .inl rfl⟩

/-- A round touches the buffer, the channels and the id only. -/
theorem frame_forwardRound (now : Nat) (st : PollState P ρ κ) :
    Frame now st (forwardRound st) := by
  refine ⟨rfl, rfl, rfl, rfl, rfl, rfl, rfl, ?_, .inl rfl⟩
  show answersIn (st.effects ++ _) = _
  rw [answersIn_append]
  -- a forwarded round consists of `entered` and `delivered` effects
  have hnone : answersIn ((readyRound st.exec).flatMap fun r =>
      ([.entered (incomingEcho st.exec.nextIncomingBroadcastId r),
        .delivered (broadcastRequest r)] : List (Effect P ρ κ))) = [] := by
    rw [answersIn, List.filterMap_eq_nil_iff]
    intro effect heffect
    obtain ⟨r, _, hr⟩ := List.mem_flatMap.mp heffect
    rcases List.mem_cons.mp hr with rfl | hr
    · rfl
    · rw [List.mem_singleton.mp hr]
  rw [hnone, List.append_nil]

/-- Forwarding rounds keeps the frame as well. -/
theorem frame_forwards (now : Nat) {result : Except Panic (PollState P ρ κ)}
    (h : Forwards st result) (hresult : result = .ok st') : Frame now st st' := by
  induction h with
  | done _ =>
      cases hresult
      exact .refl now _
  | full _ _ _ => cases hresult
  | round _ _ _ ih => exact (frame_forwardRound now _).trans (ih hresult)

/-- Every poll goes one of these ways. -/
theorem polls_poll [DecidableEq P] (s : ProtocolExecution P ρ κ)
    (echoTx : List (EchoMessage ρ)) (now : Nat) (turn : AgentTurn) (hn : 2 ≤ s.n) :
    Polls s echoTx now turn (s.poll echoTx now turn) := by
  unfold ProtocolExecution.poll
  cases hout : takeOutgoing { exec := s, echoTx := echoTx, effects := [] } with
  | error why => exact .outgoingPanics hout
  | ok st =>
      have htakes := takeOutgoing_eq_ok.mp hout
      have hn₁ : 2 ≤ st.exec.n := by
        rw [(frame_takesOutgoing now htakes).n]
        exact hn
      show Polls s echoTx now turn (pollNetwork now turn st)
      cases hq : st.exec.fromNetwork with
      | nil =>
          simp only [pollNetwork, hq]
          exact .forwards htakes (.nothing hq) (forwards_forwardBufferedMessages st hn₁)
      | cons m rest =>
          have hhead : st.exec.fromNetwork.head? = some m := by rw [hq]; rfl
          by_cases hacc : st.exec.accepts m = true
          · simp only [pollNetwork, hq, hacc, if_true]
            cases hin : takeIncoming now (withoutHead st) m with
            | error why => exact .incomingPanics htakes hhead hacc hin
            | ok st' =>
                have htakesIn := takeIncoming_eq_ok.mp hin
                have hn₂ : 2 ≤ st'.exec.n := by
                  rw [(frame_takesIncoming htakesIn).n]
                  exact hn₁
                exact .forwards htakes (.message hhead hacc htakesIn)
                  (forwards_forwardBufferedMessages st' hn₂)
          · simp only [pollNetwork, hq, hacc]
            exact .refuses htakes hhead (Bool.eq_false_of_not_eq_true hacc)

/-- The first stage leaves the network's channel alone. -/
theorem fromNetwork_takesOutgoing [DecidableEq P] (h : TakesOutgoing st st') :
    st'.exec.fromNetwork = st.exec.fromNetwork := by
  cases h <;> rfl

/-- With accepted messages in the queue nothing is refused. -/
theorem accepts_head [DecidableEq P] (hacc : ∀ m ∈ s.fromNetwork, s.accepts m = true)
    (hout : TakesOutgoing { exec := s, echoTx := echoTx, effects := [] } st)
    (hhead : st.exec.fromNetwork.head? = some m) : st.exec.accepts m = true := by
  rw [fromNetwork_takesOutgoing hout] at hhead
  have haccepts := hacc m (List.mem_of_mem_head? hhead)
  unfold accepts at haccepts ⊢
  rw [(frame_takesOutgoing 0 hout).sessionId]
  exact haccepts

/-- What a poll that does not return did: it refused a message, or it
went through all stages. -/
inductive Pends [DecidableEq P] (s : ProtocolExecution P ρ κ) (echoTx : List (EchoMessage ρ))
    (now : Nat) (turn : AgentTurn) : PollState P ρ κ → Prop where
  | refuses {st : PollState P ρ κ} {m : IncomingRequest P ρ} :
      TakesOutgoing { exec := s, echoTx := echoTx, effects := [] } st →
      st.exec.fromNetwork.head? = some m → st.exec.accepts m = false →
      Pends s echoTx now turn (refused st m)
  | forwards {st₁ st₂ st₃ st : PollState P ρ κ} :
      TakesOutgoing { exec := s, echoTx := echoTx, effects := [] } st₁ → Intake now st₁ st₂ →
      Forwards st₂ (.ok st₃) → (st = st₃ ∨ st = pollAgent now turn st₃) →
      Pends s echoTx now turn st

/-- A poll that does not return has gone through every stage. -/
theorem pends_of_pending [DecidableEq P] (hn : 2 ≤ s.n) (h : s.poll echoTx now turn = .pending st) :
    Pends s echoTx now turn st := by
  have hpolls := polls_poll s echoTx now turn hn
  generalize s.poll echoTx now turn = poll at hpolls h
  cases hpolls with
  | outgoingPanics _ => cases h
  | incomingPanics _ _ _ _ => cases h
  | refuses hout hhead hrefused =>
      cases h
      exact .refuses hout hhead hrefused
  | @forwards st₁ st₂ result hout hintake hfwd =>
      cases result with
      | error why => cases h
      | ok st₃ =>
          have hcompletes := completes_completeOrPollAgent now turn st₃
          simp only [finish] at h
          generalize completeOrPollAgent now turn st₃ = poll at hcompletes h
          cases hcompletes with
          | @reports _ r _ _ _ => cases r <;> cases h
          | missing _ _ => cases h
          | waits _ _ =>
              cases h
              exact .forwards hout hintake hfwd (.inl rfl)
          | agent _ _ =>
              cases h
              exact .forwards hout hintake hfwd (.inr rfl)
          | idle _ _ =>
              cases h
              exact .forwards hout hintake hfwd (.inl rfl)

/-- What every complete round keeps, the forwarding loop keeps. -/
theorem forwards_induction (I : PollState P ρ κ → Prop) (h : Forwards st (.ok st')) (hst : I st)
    (round : ∀ st, RoundComplete st.exec → I st → I (forwardRound st)) : I st' := by
  generalize hresult : (Except.ok st' : Except Panic (PollState P ρ κ)) = result at h
  induction h with
  | done _ =>
      cases hresult
      exact hst
  | full _ _ _ => cases hresult
  | round hcomplete _ _ ih => exact ih (round _ hcomplete hst) hresult

/-- The loop goes on until the next round is not complete. -/
theorem not_roundComplete_of_forwards (h : Forwards st (.ok st')) : ¬ RoundComplete st'.exec := by
  generalize hresult : (Except.ok st' : Except Panic (PollState P ρ κ)) = result at h
  induction h with
  | done hincomplete =>
      cases hresult
      exact hincomplete
  | full _ _ _ => cases hresult
  | round _ _ _ ih => exact ih hresult

/-- The rule for a poll that does not return: what every stage keeps
holds after it. -/
theorem pending_induction [DecidableEq P] (I : PollState P ρ κ → Prop) (hn : 2 ≤ s.n)
    (h : s.poll echoTx now turn = .pending st)
    (outgoing : ∀ st, TakesOutgoing { exec := s, echoTx := echoTx, effects := [] } st → I st)
    (refuses : ∀ st m, st.exec.fromNetwork.head? = some m → I st → I (refused st m))
    (intake : ∀ st st', Intake now st st' → I st → I st')
    (round : ∀ st, RoundComplete st.exec → I st → I (forwardRound st))
    (agent : ∀ st, I st → I (pollAgent now turn st)) : I st := by
  cases pends_of_pending hn h with
  | refuses hout hhead _ => exact refuses _ _ hhead (outgoing _ hout)
  | forwards hout hintake hfwd hst =>
      have hforwarded := forwards_induction I hfwd (intake _ _ hintake (outgoing _ hout)) round
      rcases hst with rfl | rfl
      · exact hforwarded
      · exact agent _ hforwarded

/-- A poll that does not return takes the head of the network's queue,
whether it accepts it or not. -/
theorem fromNetwork_of_pending [DecidableEq P] (hn : 2 ≤ s.n)
    (h : s.poll echoTx now turn = .pending st) : st.exec.fromNetwork = s.fromNetwork.tail := by
  cases pends_of_pending hn h with
  | refuses hout _ _ => exact congrArg List.tail (fromNetwork_takesOutgoing hout)
  | @forwards st₁ st₂ st₃ _ hout hintake hfwd hst =>
      have hintaken : st₂.exec.fromNetwork = s.fromNetwork.tail := by
        rw [← fromNetwork_takesOutgoing hout]
        cases hintake with
        | nothing hnil => rw [hnil, List.tail_nil]
        | message _ _ htakes =>
            cases htakes <;> (unfold ProtocolExecution.restartQuietPeriod; split <;> rfl)
      have hforwarded : st₃.exec.fromNetwork = s.fromNetwork.tail :=
        forwards_induction (fun st => st.exec.fromNetwork = s.fromNetwork.tail) hfwd hintaken
          fun _ _ hst => hst
      rcases hst with rfl | rfl
      · exact hforwarded
      · unfold ProtocolExecution.pollAgent
        cases turn.result <;> exact hforwarded

end Intake

section New

variable {P ρ κ : Type} [DecidableEq P]

/-- The position is truncated to `u16`. -/
theorem indexOf_eq_some_of_mem {p : Peerset P} {q : P} (h : q ∈ p.peers) :
    p.indexOf q = some (asU16 (p.peers.idxOf q)) := by
  have hfind : p.peers.findIdx? (· = q) = some (p.peers.idxOf q) := by
    rw [List.idxOf, List.findIdx?_eq_some_iff_findIdx_eq]
    refine ⟨List.idxOf_lt_length_of_mem h, ?_⟩
    congr 1
  rw [Peerset.indexOf, hfind]
  rfl

theorem indexOf_eq_none_of_not_mem {p : Peerset P} {q : P} (h : q ∉ p.peers) :
    p.indexOf q = none := by
  have hfind : p.peers.findIdx? (· = q) = none := by
    rw [List.findIdx?_eq_none_iff]
    intro x hx
    exact decide_eq_false fun hxq => h (hxq ▸ hx)
  rw [Peerset.indexOf, hfind]
  rfl

/-- The fields of a new execution that depend on the peerset. -/
structure IsNew (sessionId : SessionId) (peerset : Peerset P) (pendingResponse : Option κ)
    (s : ProtocolExecution P ρ κ) : Prop where
  sessionId_eq : s.sessionId = sessionId
  peerset_eq : s.peerset = peerset
  pendingResponse_eq : s.pendingResponse = pendingResponse
  n_eq : s.n = asU16 peerset.size
  i_eq : s.i = asU16 (peerset.peers.idxOf peerset.localPeerId)
  fromNetwork_eq : s.fromNetwork = []
  toProtocol_eq : s.toProtocol = []
  fromProtocol_eq : s.fromProtocol = []
  agentFuture_eq : s.agentFuture = true
  agentResult_eq : s.agentResult = none
  completionDelay_eq : s.completionDelay = none
  nextOutgoing_eq : s.nextOutgoingBroadcastId = 0
  nextIncoming_eq : s.nextIncomingBroadcastId = 0
  pendingIncoming_eq : s.pendingIncoming = ∅

/-- `ProtocolExecution::new` returns if the local peer is in the list
and the truncated count is at least two. -/
theorem new_eq_ok (sessionId : SessionId) (protocolId : Nat) (peerset : Peerset P)
    (pendingResponse : Option κ) (hlocal : peerset.localPeerId ∈ peerset.peers)
    (hsize : 2 ≤ asU16 peerset.size) :
    ∃ s : ProtocolExecution P ρ κ,
      ProtocolExecution.new sessionId protocolId peerset pendingResponse = .ok s ∧
      IsNew sessionId peerset pendingResponse s := by
  have hpred : predUnsigned (asU16 peerset.size) = .ok (asU16 peerset.size - 1) :=
    if_pos (by omega)
  have hbounded : ProtocolExecution.bounded (asU16 peerset.size - 1) = .ok () :=
    if_neg (by omega)
  unfold ProtocolExecution.new
  simp only [indexOf_eq_some_of_mem hlocal, hpred, hbounded, Except.ok_bind]
  refine ⟨_, rfl, ?_⟩
  constructor <;> rfl

/-- There is no execution for a peer outside the peerset, nor for fewer than
two. -/
theorem new_ne_ok (sessionId : SessionId) (protocolId : Nat) (peerset : Peerset P)
    (pendingResponse : Option κ)
    (h : ¬ (peerset.localPeerId ∈ peerset.peers ∧ 2 ≤ asU16 peerset.size))
    (s : ProtocolExecution P ρ κ) :
    ProtocolExecution.new sessionId protocolId peerset pendingResponse ≠ .ok s := by
  intro hnew
  unfold ProtocolExecution.new at hnew
  by_cases hlocal : peerset.localPeerId ∈ peerset.peers
  · -- the local peer is there, so `n` is zero or one
    have hsmall : ¬ 2 ≤ asU16 peerset.size := fun hsize => h ⟨hlocal, hsize⟩
    rw [indexOf_eq_some_of_mem hlocal] at hnew
    by_cases hzero : asU16 peerset.size = 0
    · rw [hzero] at hnew
      cases hnew
    · have hone : asU16 peerset.size = 1 := by omega
      rw [hone] at hnew
      cases hnew
  · rw [indexOf_eq_none_of_not_mem hlocal] at hnew
    cases hnew

/-- What `new` leaves. -/
theorem isNew_of_new_eq_ok {sessionId : SessionId} {protocolId : Nat} {peerset : Peerset P}
    {pendingResponse : Option κ} {s : ProtocolExecution P ρ κ}
    (h : ProtocolExecution.new sessionId protocolId peerset pendingResponse = .ok s) :
    peerset.localPeerId ∈ peerset.peers ∧ 2 ≤ asU16 peerset.size ∧
      IsNew sessionId peerset pendingResponse s := by
  by_cases hok : peerset.localPeerId ∈ peerset.peers ∧ 2 ≤ asU16 peerset.size
  · obtain ⟨s', hs', hnew⟩ :=
      new_eq_ok (ρ := ρ) sessionId protocolId peerset pendingResponse hok.1 hok.2
    obtain rfl : s' = s := Except.ok.inj (hs'.symm.trans h)
    exact ⟨hok.1, hok.2, hnew⟩
  · exact absurd h (new_ne_ok sessionId protocolId peerset pendingResponse hok s)

end New

section Completion

variable {P ρ κ : Type} {s : ProtocolExecution P ρ κ}

/-- The agent, its result and the deadline belong together. -/
structure Completion (s : ProtocolExecution P ρ κ) : Prop where
  two_le : 2 ≤ s.n
  agentFuture : s.agentFuture = s.agentResult.isNone
  completionDelay : s.completionDelay.isSome = s.agentResult.isSome

/-- A stage within the frame keeps what is known of a finished agent. -/
theorem Completion.of_frame {st st' : PollState P ρ κ} (hc : Completion st.exec)
    (h : Frame now st st') : Completion st'.exec where
  two_le := h.n ▸ hc.two_le
  agentFuture := by rw [h.agentFuture, h.agentResult, hc.agentFuture]
  completionDelay := by
    rw [h.agentResult]
    rcases h.completionDelay with hd | ⟨hsome, hd⟩
    · rw [hd, hc.completionDelay]
    · rw [hd, hsome]
      rfl

/-- With the agent gone the forwarding loop either has nothing to do
or panics. -/
theorem forwards_of_finished {st : PollState P ρ κ}
    {result : Except Panic (PollState P ρ κ)} (hn : 2 ≤ st.exec.n)
    (hgone : st.exec.agentFuture = false) (h : Forwards st result) :
    (¬ RoundComplete st.exec ∧ result = .ok st) ∨
    (RoundComplete st.exec ∧ ∃ why, result = .error why) := by
  cases h with
  | done hround => exact .inl ⟨hround, rfl⟩
  | full hround _ _ => exact .inr ⟨hround, _, rfl⟩
  | round _ hroom _ =>
      -- a round is forwarded to a running agent only
      rcases hroom.isOpen with hzero | hopen
      · omega
      · rw [hgone] at hopen
        cases hopen

/-- A poll keeps them together, and the RPC caller. -/
theorem completion_poll [DecidableEq P] {echoTx : List (EchoMessage ρ)} {st : PollState P ρ κ}
    (hc : Completion s) (h : s.poll echoTx now turn = .pending st) :
    Completion st.exec ∧ st.exec.pendingResponse = s.pendingResponse := by
  have hframed : ∀ st st' : PollState P ρ κ, Frame now st st' →
      Completion st.exec ∧ st.exec.pendingResponse = s.pendingResponse →
      Completion st'.exec ∧ st'.exec.pendingResponse = s.pendingResponse :=
    fun st st' hframe hst => ⟨hst.1.of_frame hframe, hframe.pendingResponse.trans hst.2⟩
  refine pending_induction
    (fun st => Completion st.exec ∧ st.exec.pendingResponse = s.pendingResponse)
    hc.two_le h ?_ ?_ ?_ ?_ ?_
  · exact fun st hout => hframed _ st (frame_takesOutgoing now hout) ⟨hc, rfl⟩
  · exact fun st m _ hst => ⟨⟨hst.1.two_le, hst.1.agentFuture, hst.1.completionDelay⟩, hst.2⟩
  · exact fun st st' hintake => hframed st st' (frame_intake hintake)
  · exact fun st _ => hframed st _ (frame_forwardRound now st)
  · intro st hst
    unfold pollAgent
    cases turn.result with
    | none => exact ⟨⟨hst.1.two_le, hst.1.agentFuture, hst.1.completionDelay⟩, hst.2⟩
    | some r => exact ⟨⟨hst.1.two_le, rfl, rfl⟩, hst.2⟩

/-- A poll that returns found the quiet period over and no message of
the network. All it did before the report was its first stage. -/
theorem ready_cases [DecidableEq P] {echoTx echoTx' : List (EchoMessage ρ)}
    {result : Except Error Unit} {effects : List (Effect P ρ κ)} (hc : Completion s)
    (h : s.poll echoTx now turn = .ready result echoTx' effects) :
    ∃ r deadline st, s.agentResult = some r ∧ s.completionDelay = some deadline ∧
      deadline ≤ now ∧ s.fromNetwork = [] ∧
      TakesOutgoing { exec := s, echoTx := echoTx, effects := [] } st ∧
      report st r = .ready result echoTx' effects := by
  have hpolls := polls_poll s echoTx now turn hc.two_le
  generalize s.poll echoTx now turn = poll at hpolls h
  cases hpolls with
  | outgoingPanics _ => cases h
  | incomingPanics _ _ _ _ => cases h
  | refuses _ _ _ => cases h
  | @forwards st₁ st₂ result hout hintake hfwd =>
      cases result with
      | error why => cases h
      | ok st₃ =>
          have hframe₁ := frame_takesOutgoing now hout
          have hframe₂ := hframe₁.trans (frame_intake hintake)
          have hframe₃ := hframe₂.trans (frame_forwards now hfwd rfl)
          have hcompletes := completes_completeOrPollAgent now turn st₃
          simp only [finish] at h
          generalize completeOrPollAgent now turn st₃ = poll at hcompletes h
          cases hcompletes with
          | missing _ _ => cases h
          | waits _ _ => cases h
          | agent _ _ => cases h
          | idle _ _ => cases h
          | @reports deadline r hd hlate hr =>
              have hr₀ : s.agentResult = some r := hframe₃.agentResult.symm.trans hr
              have hgone : st₂.exec.agentFuture = false := by
                rw [hframe₂.agentFuture, hc.agentFuture, hr₀]
                rfl
              have hc₂ : Completion st₂.exec := hc.of_frame hframe₂
              -- nothing was forwarded, since the agent is gone
              rcases forwards_of_finished hc₂.two_le hgone hfwd with ⟨_, heq⟩ | ⟨_, _, heq⟩
              · cases heq
                have hdelay : st₁.exec.completionDelay = s.completionDelay := by
                  cases hout <;> rfl
                have hqueue : st₁.exec.fromNetwork = s.fromNetwork := by cases hout <;> rfl
                cases hintake with
                | nothing hnil =>
                    exact ⟨r, deadline, st₁, hr₀, hdelay.symm.trans hd, hlate,
                      hqueue.symm.trans hnil, hout, h⟩
                | message _ _ htakes =>
                    -- a message would have started the quiet period anew
                    have hsome : st₁.exec.agentResult.isSome = true := by
                      rw [hframe₁.agentResult, hr₀]
                      rfl
                    rw [completionDelay_takesIncoming htakes hsome] at hd
                    cases hd
                    exact absurd hlate (by unfold completionQuietPeriod; omega)
              · cases heq

/-- A new execution has not completed. -/
theorem completion_new [DecidableEq P] {sessionId : SessionId} {protocolId : Nat}
    {peerset : Peerset P} {pendingResponse : Option κ}
    (h : ProtocolExecution.new sessionId protocolId peerset pendingResponse = .ok s) :
    Completion s ∧ s.pendingResponse = pendingResponse := by
  obtain ⟨_, hsize, hnew⟩ := isNew_of_new_eq_ok h
  refine ⟨⟨?_, ?_, ?_⟩, hnew.pendingResponse_eq⟩
  · rw [hnew.n_eq]
    exact hsize
  · rw [hnew.agentFuture_eq, hnew.agentResult_eq]
    rfl
  · rw [hnew.completionDelay_eq, hnew.agentResult_eq]
    rfl

end Completion

section Entered

variable {P ρ κ : Type} {effects : List (Effect P ρ κ)} {st : PollState P ρ κ}

/-- The messages that entered the echo channel among the effects. -/
def enteredIn (effects : List (Effect P ρ κ)) : List (EchoMessage ρ) :=
  effects.filterMap fun
    | .entered m => some m
    | _ => none

theorem mem_enteredIn {m : EchoMessage ρ} : m ∈ enteredIn effects ↔ .entered m ∈ effects := by
  unfold enteredIn
  rw [List.mem_filterMap]
  constructor
  · rintro ⟨effect, hmem, heq⟩
    cases effect <;> cases heq
    exact hmem
  · exact fun h => ⟨_, h, rfl⟩

theorem enteredIn_append (effects effects' : List (Effect P ρ κ)) :
    enteredIn (effects ++ effects') = enteredIn effects ++ enteredIn effects' :=
  List.filterMap_append

/-- The echo channel is what it was before the poll, followed by what
the effects say has entered it. -/
def Logged (echoTx : List (EchoMessage ρ)) (st : PollState P ρ κ) : Prop :=
  st.echoTx = echoTx ++ enteredIn st.effects

variable {echoTx : List (EchoMessage ρ)}

/-- The own broadcast is logged as it enters the echo channel. -/
theorem Logged.takesOutgoing [DecidableEq P] {st' : PollState P ρ κ} (h : Logged echoTx st)
    (htakes : TakesOutgoing st st') : Logged echoTx st' := by
  cases htakes with
  | nothing _ => exact h
  | direct _ _ _ =>
      show st.echoTx = echoTx ++ enteredIn (st.effects ++ _)
      rw [enteredIn_append, h]
      exact congrArg _ (List.append_nil _).symm
  | @broadcast m _ _ _ _ _ _ =>
      show st.echoTx ++ [outgoingEcho st.exec m] = echoTx ++ enteredIn (st.effects ++ _)
      rw [enteredIn_append, h, List.append_assoc]
      rfl

theorem Logged.restartQuietPeriod (now : Nat) (h : Logged echoTx st) :
    Logged echoTx (restartQuietPeriod now st) := by
  unfold ProtocolExecution.restartQuietPeriod
  split <;> exact h

theorem Logged.intake {st' : PollState P ρ κ} (h : Logged echoTx st) (hintake : Intake now st st') :
    Logged echoTx st' := by
  cases hintake with
  | nothing _ => exact h
  | message _ _ htakes =>
      cases htakes with
      | broadcast _ _ => exact Logged.restartQuietPeriod now h
      | direct _ _ _ _ _ =>
          refine Logged.restartQuietPeriod now ?_
          show st.echoTx = echoTx ++ enteredIn ((st.effects ++ _) ++ _)
          rw [enteredIn_append, enteredIn_append, h]
          exact congrArg _ ((List.append_nil _).trans (List.append_nil _)).symm

theorem enteredIn_round (messageId : Nat) (round : List (Nat × IncomingRequest P ρ)) :
    enteredIn (round.flatMap fun r =>
        ([.entered (incomingEcho messageId r), .delivered (broadcastRequest r)] :
          List (Effect P ρ κ)))
      = round.map (incomingEcho messageId) := by
  induction round with
  | nil => rfl
  | cons r round ih =>
      rw [List.flatMap_cons, enteredIn_append, ih]
      rfl

/-- The broadcasts of a round are logged in the order in which they enter
it. -/
theorem Logged.forwardRound (h : Logged echoTx st) : Logged echoTx (forwardRound st) := by
  show st.echoTx ++ _ = echoTx ++ enteredIn (st.effects ++ _)
  rw [enteredIn_append, enteredIn_round, h, List.append_assoc]

/-- What a poll that does not return puts into the echo channel, and
that it gives the RPC caller no answer. -/
theorem logged_pending [DecidableEq P] {s : ProtocolExecution P ρ κ} (hn : 2 ≤ s.n)
    (h : s.poll echoTx now turn = .pending st) : Logged echoTx st ∧ answersIn st.effects = [] := by
  refine pending_induction (fun st => Logged echoTx st ∧ answersIn st.effects = [])
    hn h ?_ ?_ ?_ ?_ ?_
  · intro st hout
    have hstart : Logged echoTx ({ exec := s, echoTx := echoTx, effects := [] } :
        PollState P ρ κ) := (List.append_nil _).symm
    exact ⟨hstart.takesOutgoing hout, (frame_takesOutgoing now hout).answers⟩
  · intro st m _ hst
    constructor
    · show st.echoTx = echoTx ++ enteredIn (st.effects ++ _)
      rw [enteredIn_append, hst.1]
      exact congrArg _ (List.append_nil _).symm
    · show answersIn (st.effects ++ _) = []
      rw [answersIn_append, hst.2]
      rfl
  · exact fun st st' hintake hst =>
      ⟨hst.1.intake hintake, (frame_intake hintake).answers.trans hst.2⟩
  · exact fun st _ hst =>
      ⟨hst.1.forwardRound, (frame_forwardRound now st).answers.trans hst.2⟩
  · intro st hst
    unfold pollAgent
    cases turn.result <;> exact hst

/-- `report` answers the caller, if there is one, and does nothing else. -/
theorem report_effects {r : AgentResult} {result : Except Error Unit}
    {echoTx : List (EchoMessage ρ)} (h : report st r = .ready result echoTx effects) :
    echoTx = st.echoTx ∧
    ((st.exec.pendingResponse = none ∧ effects = st.effects) ∨
      ∃ tx, st.exec.pendingResponse = some tx ∧ effects = st.effects ++ [.answered tx r]) := by
  unfold report at h
  cases hresp : st.exec.pendingResponse with
  | none =>
      simp only [hresp] at h
      cases r <;> (cases h; exact ⟨rfl, .inl ⟨rfl, rfl⟩⟩)
  | some tx =>
      simp only [hresp] at h
      cases r <;> (cases h; exact ⟨rfl, .inr ⟨tx, rfl, rfl⟩⟩)

/-- What a poll that returns put into the channel. -/
theorem logged_ready [DecidableEq P] {s : ProtocolExecution P ρ κ} {result : Except Error Unit}
    {echoTx echoTx' : List (EchoMessage ρ)} (hc : Completion s)
    (h : s.poll echoTx now turn = .ready result echoTx' effects) :
    echoTx' = echoTx ++ enteredIn effects := by
  obtain ⟨r, _, st, _, _, _, _, hout, hreport⟩ := ready_cases hc h
  have hstart : Logged echoTx ({ exec := s, echoTx := echoTx, effects := [] } :
      PollState P ρ κ) := (List.append_nil _).symm
  have hlogged := hstart.takesOutgoing hout
  obtain ⟨rfl, heffects⟩ := report_effects hreport
  rcases heffects with ⟨_, rfl⟩ | ⟨tx, _, rfl⟩
  · exact hlogged
  · rw [enteredIn_append]
    exact hlogged.trans (congrArg _ (List.append_nil _).symm)

end Entered

end FrostMpcTss.Proofs
