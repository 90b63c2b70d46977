import FrostMpcTss.Proofs.AgentLedger
import FrostMpcTss.Proofs.KeyGenRoom
import FrostMpcTss.Proofs.KeySignRoom

/-!
# `FrostMpcTss.Proofs.ChannelRoom`: the channel to the agent never overflows

A session of honest parties runs the signing or the key generation
agent, and the network delivers their messages in any order. No
execution finds the channel to its agent full, as long as no poll
releases two rounds at once (`channelsHold`). Key generation has one
round of broadcasts, so that no poll can.

Signing has two. The messages of one party may overtake each other, and
then the last message of the first round completes both rounds at once
(`TwoSigners.not_channelsHold_overtaking`). The channel holds one round.
-/

set_option autoImplicit false

namespace FrostMpcTss.Proofs

open Lib Network Service FrostMpcTss.Session
open Tss
open Service.ProtocolExecution

variable {P κ σ : Type} {n : Nat}

/-- No execution has found the channel to its agent full. -/
def ChannelsHold (t : AgentNet P κ σ n) : Prop :=
  ∀ j, (t.net.sessions j).state ≠ .panicked .applicationChannelFull

/-- The step does not release two rounds at once. -/
def releasesOne (t : AgentNet P κ σ n) : AgentLabel n → Bool
  | .poll j _ => (t.net.sessions j).execution.all fun running => !releasesTwo running.1
  | _ => true

theorem releasesTwo_eq_false_of_releasesOne {t : AgentNet P κ σ n} {l : AgentLabel n}
    (h : releasesOne t l = true) {j : Fin n} {now : Nat}
    {s : ProtocolExecution P (Handle n) κ} {echoTx : List (EchoMessage (Handle n))}
    (hl : l = .poll j now) (hs : (t.net.sessions j).execution = some (s, echoTx)) :
    releasesTwo s = false := by
  subst hl
  have h : (t.net.sessions j).execution.all (fun running => !releasesTwo running.1) = true := h
  rw [hs] at h
  simpa using h

section Run

variable [DecidableEq P]

omit [DecidableEq P] in
theorem not_roundComplete_of_empty {ρ : Type} {s : ProtocolExecution P ρ κ} (hn : 2 ≤ s.n)
    (h : s.pendingIncoming = ∅) : ¬ RoundComplete s := by
  rw [roundComplete_iff, h]
  show ([] : List Nat).length ≠ _
  rw [List.length_nil]
  omega

/-- A party's session starts with a new execution. -/
theorem execution_startSession (cfg : Config P κ n) (htwo : 2 ≤ n) (hsmall : n < 2 ^ 16)
    (j : Fin n) :
    ∃ s, (cfg.startSession j).execution = some (s, []) ∧ s.n = n ∧
      IsNew cfg.sessionId (cfg.peerset j) (cfg.rpcCaller j) s := by
  have hsize : asU16 (cfg.peerset j).size = n := by
    show List.length (List.ofFn cfg.peers) % 2 ^ 16 = n
    rw [List.length_ofFn]
    exact Nat.mod_eq_of_lt hsmall
  have hlocal : (cfg.peerset j).localPeerId ∈ (cfg.peerset j).peers :=
    List.mem_ofFn.mpr ⟨j, rfl⟩
  obtain ⟨s, hs, hnew⟩ := new_eq_ok (ρ := Handle n) cfg.sessionId cfg.protocolId (cfg.peerset j)
    (cfg.rpcCaller j) hlocal (by rw [hsize]; exact htwo)
  refine ⟨s, ?_, hnew.n_eq.trans hsize, hnew⟩
  unfold Config.startSession WrapExecution.new
  rw [hs]
  rfl

variable [Blake2s256] {cfg : Config P κ n} {limit : Nat} {direct : Bool}
  {I : Fin n → Nat → σ → Channels → Prop} {agents : Agents σ n} {t : AgentNet P κ σ n}

/-- All parties have just started. -/
theorem agentLedger_start (htwo : 2 ≤ n) (hsmall : n < 2 ^ 16)
    (hspec : ∀ j, AgentSpec n limit direct (agents.poll j) (I j))
    (hstart : ∀ j, I j 0 (agents.start j) .empty) :
    AgentLedger cfg limit direct I (AgentNet.start cfg agents) := by
  refine ⟨netLedger_start cfg, ?_, ?_, ?_, ?_, List.nodup_nil, nofun, ?_⟩
  · intro j s echoTx hs
    obtain ⟨s', hs', hn, hnew⟩ := execution_startSession cfg htwo hsmall j
    cases hs'.symm.trans hs
    have hchannels : channels s = .empty := by
      unfold channels
      rw [hnew.toProtocol_eq, hnew.fromProtocol_eq, hnew.nextOutgoing_eq,
        hnew.nextIncoming_eq, hnew.fromNetwork_eq]
      rfl
    refine ⟨hn, hnew.sessionId_eq, ?_, ?_, ?_, ?_, ?_, fun _ => ?_⟩
    · rw [hnew.fromNetwork_eq]
      nofun
    · refine not_roundComplete_of_empty ?_ hnew.pendingIncoming_eq
      rw [hn]
      exact htwo
    · rw [hnew.nextIncoming_eq]
      exact Nat.zero_le _
    · rw [hnew.nextIncoming_eq]
      nofun
    · rw [hchannels]
      exact (hspec j).outgoing (hstart j)
    · rw [hchannels]
      exact hstart j
  · rintro j k ⟨_, _, hmem⟩
    cases hmem
  · rintro j k ⟨_, _, hmem⟩
    cases hmem
  · intro j peer body hmem
    cases hmem
  · intro j hfull
    obtain ⟨s, hs, _⟩ := execution_startSession cfg htwo hsmall j
    obtain ⟨w, hw, _⟩ := execution_eq_some.mp hs
    cases hw.symm.trans hfull

/-- The ledger holds in every state of every run without a poll that
releases two rounds. -/
theorem agentLedger_of_reach (htwo : 2 ≤ n) (hsmall : n < 2 ^ 16)
    (hhonest : ∀ j, cfg.honest j = true)
    (hspec : ∀ j, AgentSpec n limit direct (agents.poll j) (I j))
    (hstart : ∀ j, I j 0 (agents.start j) .empty)
    (h : Reach (AgentNet.step cfg agents) (fun t l => releasesOne t l = true)
      (AgentNet.start cfg agents) t) : AgentLedger cfg limit direct I t :=
  h.invariant (agentLedger_start htwo hsmall hspec hstart) fun _ _ _ hl hone hstep =>
    agentLedger_step hspec hhonest hl
      (fun _ _ _ _ => releasesTwo_eq_false_of_releasesOne hone) hstep

/-- With one broadcast for each party, this is every run. -/
theorem agentLedger_of_reach_one (htwo : 2 ≤ n) (hsmall : n < 2 ^ 16)
    (hhonest : ∀ j, cfg.honest j = true)
    (hspec : ∀ j, AgentSpec n 1 direct (agents.poll j) (I j))
    (hstart : ∀ j, I j 0 (agents.start j) .empty)
    (h : Reach (AgentNet.step cfg agents) Always (AgentNet.start cfg agents) t) :
    AgentLedger cfg 1 direct I t :=
  h.invariant (agentLedger_start htwo hsmall hspec hstart) fun _ _ _ hl _ hstep =>
    agentLedger_step hspec hhonest hl
      (fun _ _ _ _ _ hs => hl.releasesTwo_eq_false hhonest hs) hstep

omit [Blake2s256] in
/-- A poll that releases two rounds panics, so the condition on the
polls cannot be dropped. -/
theorem PartyLedger.poll_panics {ρ : Type} {I : Nat → σ → Channels → Prop}
    {sessionId : SessionId} {others : Prop} {d : Nat} {a : σ} {s : ProtocolExecution P ρ κ}
    (h : PartyLedger n limit direct I sessionId others d a s) (hc : Completion s)
    (hrun : s.agentFuture = true) (htwo : releasesTwo s = true) (echoTx : List (EchoMessage ρ))
    (now : Nat) (turn : AgentTurn) : ∃ why, s.poll echoTx now turn = .panic why := by
  obtain ⟨result, hstages, hpoll⟩ := poll_running echoTx now hc hrun h.accepted
  obtain ⟨why, rfl⟩ := stages_error_of_releasesTwo hc.two_le h.incomplete htwo hstages
  exact ⟨why, hpoll turn⟩

/-- The outgoing channel of the agents never stops a poll: as long as an
execution runs, it can be polled. -/
theorem AgentLedger.poll_isSome (hl : AgentLedger cfg limit direct I t)
    (hhonest : ∀ j, cfg.honest j = true)
    (hspec : ∀ j, AgentSpec n limit direct (agents.poll j) (I j)) {j : Fin n} (now : Nat)
    {s : ProtocolExecution P (Handle n) κ} {echoTx : List (EchoMessage (Handle n))}
    (hs : (t.net.sessions j).execution = some (s, echoTx)) (hone : releasesTwo s = false) :
    (t.step cfg agents (.poll j now)).isSome = true := by
  have hparty := hl.party j s echoTx hs
  have hc := (hl.net.execution (hhonest j) hs).2
  have hround := hl.completable hhonest hs
  obtain ⟨w, hw, hcomp, rfl⟩ := execution_eq_some.mp hs
  have hstep : ∀ turn a, TakesTurn (agents.poll j) s w.echoRx now (t.agents j) a turn →
      (t.net.step cfg (.poll j now turn)).isSome = true := by
    intro turn a hturn
    have hroom := hparty.roomFor (hspec j) hc hone hround hturn
    simp only [Net.step, hhonest, if_true, Net.stepAt, Session.step, hw, WrapExecution.step,
      hcomp, Option.filter_some, hroom, Option.map_some, Option.isSome_some]
  show (t.pollParty cfg agents j now).isSome = true
  unfold AgentNet.pollParty
  rw [hs]
  simp only
  split
  · rename_i incoming outgoing hview
    rw [Option.isSome_map]
    exact hstep _ _ (.agent hview)
  · rename_i hview
    rw [Option.isSome_map]
    exact hstep _ _ (.idle hview)

end Run

/-- The parties sign. -/
def signers {C S : Type} [Identifiers] [DagCbor] [KeySign.SigningCodec C S]
    (p : Fin n → KeySign.SigningSession C S) : Agents (KeySign.Signing C S) n where
  start _ := .start
  poll j := KeySign.runSigning (p j)

/-- The parties generate a key. -/
def dealers {A B : Type} [Identifiers] [DagCbor] [KeyGen.DkgCodec A B]
    (p : Fin n → KeyGen.DkgSession A B) : Agents (KeyGen.Dkg A B) n where
  start _ := .start
  poll j := KeyGen.runDkg (p j) (n - 1)

section Main

variable {C S A B : Type} [Identifiers] [DagCbor] [KeySign.SigningCodec C S]
  [KeyGen.DkgCodec A B] [DecidableEq P] [Blake2s256]

/-- Take any session of honest parties, and any order in which the
network delivers their messages. If the parties sign, no execution finds
the channel to its running agent full in any run in which no poll
releases two rounds at once. If they generate a key, none does in any
run at all. -/
theorem channelsHold (cfg : Config P κ n) (htwo : 2 ≤ n) (hsmall : n < 2 ^ 16)
    (hhonest : ∀ j, cfg.honest j = true) :
    (∀ p : Fin n → KeySign.SigningSession C S, (∀ j, (p j).participants.length = n) →
      ∀ t, Reach (AgentNet.step cfg (signers p)) (fun t l => releasesOne t l = true)
        (AgentNet.start cfg (signers p)) t → ChannelsHold t) ∧
    (∀ p : Fin n → KeyGen.DkgSession A B, (∀ j, (p j).maxSigners = n) →
      ∀ t, Reach (AgentNet.step cfg (dealers p)) Always (AgentNet.start cfg (dealers p)) t →
        ChannelsHold t) := by
  constructor
  · intro p hp t h
    have hl : AgentLedger cfg 2 false (fun _ => SigningInv n) t :=
      agentLedger_of_reach htwo hsmall hhonest (fun j => agentSpec_runSigning htwo (hp j))
        (fun j => ⟨rfl, .start rfl rfl rfl rfl⟩) h
    exact hl.room
  · intro p hp t h
    have hl : AgentLedger cfg 1 true (fun _ => DkgInv n) t :=
      agentLedger_of_reach_one htwo hsmall hhonest (fun j => agentSpec_runDkg htwo (hp j))
        (fun j => .start rfl rfl rfl rfl (Nat.zero_le _)) h
    exact hl.room

end Main

namespace TwoSigners

open scoped IdentityHash PlainAgent

/-- Commitments are the byte `0`, and shares the byte `1`. -/
local instance : KeySign.SigningCodec Unit Unit where
  serializeCommitments _ := .ok [0]
  deserializeCommitments bytes := if bytes = [0] then .ok () else .error ""
  serializeShare _ := [1]
  deserializeShare bytes := if bytes = [1] then .ok () else .error ""

/-- Packages of the two rounds are the bytes `2` and `3`. -/
local instance : KeyGen.DkgCodec Unit Unit where
  serializeRound1 _ := .ok [2]
  deserializeRound1 bytes := if bytes = [2] then .ok () else .error ""
  serializeRound2 _ := .ok [3]
  deserializeRound2 bytes := if bytes = [3] then .ok () else .error ""

/-- Two honest parties. -/
def config : Config Nat Nat 2 := .numbered 2 1

/-- Both parties sign, and nothing fails. -/
def signing (j : Fin 2) : KeySign.SigningSession Unit Unit where
  identifier := j + 1
  participants := [1, 2]
  prepare := .ok ()
  commit := .ok ()
  sign _ := .ok ()
  finish _ _ := .ok [4]

/-- Both parties generate a key. -/
def keyGen (j : Fin 2) : KeyGen.DkgSession Unit Unit where
  identifier := j + 1
  threshold := 2
  maxSigners := 2
  prepare := .ok ()
  part1 := .ok ()
  part2 packages := .ok (packages.map fun _ _ => ())
  part3 _ _ := .ok [5]
  save bytes := .ok bytes

/-- A party is polled twice. -/
def polls (j : Fin 2) : List (AgentLabel 2) := [.poll j 0, .poll j 0]

/-- A party's gadget takes the two messages of the first round. -/
def echoes (j : Fin 2) : List (AgentLabel 2) := [.echo j, .echo j]

/-- The messages of the first party arrive in the order in which they
were sent. -/
def signInOrder : List (AgentLabel 2) :=
  polls 0 ++ polls 1 ++ [.broadcast 1 0 0 [0]] ++ polls 0 ++ echoes 0 ++
    [.broadcast 0 1 0 [0]] ++ polls 1 ++ echoes 1 ++
    [.broadcast 0 1 1 [1], .poll 1 0, .broadcast 1 0 1 [1], .poll 0 0]

/-- The share of the first party overtakes its commitments. -/
def signOvertaking : List (AgentLabel 2) :=
  polls 0 ++ polls 1 ++ [.broadcast 1 0 0 [0]] ++ polls 0 ++
    [.broadcast 0 1 1 [1], .broadcast 0 1 0 [0]] ++ polls 1

/-- A key generation in which the package for the second party overtakes
the broadcast. -/
def generateKey : List (AgentLabel 2) :=
  polls 0 ++ polls 1 ++ [.broadcast 1 0 0 [2]] ++ polls 0 ++
    [.direct 0 1 [3], .poll 1 0, .broadcast 0 1 0 [2]] ++ polls 1 ++
    [.direct 1 0 [3], .poll 0 0]

/-- In order, both agents return their signatures, and no channel
overflows; and none does while a key is generated. -/
theorem channelsHold_inOrder :
    (∃ t, runIf (AgentNet.step config (signers signing)) releasesOne
        (AgentNet.start config (signers signing)) signInOrder = some t ∧
      (∀ j, t.agents j = .returned) ∧ ChannelsHold t) ∧
    ∃ t, run (AgentNet.step config (dealers keyGen)) (AgentNet.start config (dealers keyGen))
        generateKey = some t ∧ (∀ j, t.agents j = .returned) ∧ ChannelsHold t := by
  have hmain := channelsHold (C := Unit) (S := Unit) (A := Unit) (B := Unit) config
    (by decide) (by decide) fun _ => rfl
  constructor
  · obtain ⟨t, hrun, hagents⟩ :
        ∃ t, runIf (AgentNet.step config (signers signing)) releasesOne
            (AgentNet.start config (signers signing)) signInOrder = some t ∧
          t.agents 0 = .returned ∧ t.agents 1 = .returned := ⟨_, rfl, rfl, rfl⟩
    refine ⟨t, hrun, ?_, hmain.1 signing (fun _ => rfl) t (reach_of_runIf _ hrun)⟩
    intro j
    fin_cases j
    · exact hagents.1
    · exact hagents.2
  · obtain ⟨t, hrun, hagents⟩ :
        ∃ t, run (AgentNet.step config (dealers keyGen)) (AgentNet.start config (dealers keyGen))
            generateKey = some t ∧ t.agents 0 = .returned ∧ t.agents 1 = .returned :=
      ⟨_, rfl, rfl, rfl⟩
    refine ⟨t, hrun, ?_, hmain.2 keyGen (fun _ => rfl) t (reach_of_run _ hrun)⟩
    intro j
    fin_cases j
    · exact hagents.1
    · exact hagents.2

/-- The share of the first party overtakes its commitments. When the
commitments arrive, both rounds are complete at the second party. Its
channel holds one message, and the second one panics. -/
theorem not_channelsHold_overtaking :
    ∃ t, run (AgentNet.step config (signers signing)) (AgentNet.start config (signers signing))
        signOvertaking = some t ∧
      (t.net.sessions 1).state = .panicked .applicationChannelFull ∧ ¬ ChannelsHold t := by
  obtain ⟨t, hrun, hfull⟩ :
      ∃ t, run (AgentNet.step config (signers signing))
          (AgentNet.start config (signers signing)) signOvertaking = some t ∧
        (t.net.sessions 1).state = .panicked .applicationChannelFull := ⟨_, rfl, rfl⟩
  exact ⟨t, hrun, hfull, fun hhold => hhold 1 hfull⟩

end TwoSigners

end FrostMpcTss.Proofs
