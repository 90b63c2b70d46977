import FrostMpcTss.Proofs.AgentSpec
import FrostMpcTss.Proofs.SigningTurns

/-!
# `FrostMpcTss.Proofs.KeySignRoom`: the signing agent and its channels

The agent does not read its channel while it waits for a message of its
own to be taken, and a round can wait there meanwhile. `SigningRoom`
bounds what is in the channel by the rounds that have completed. When
the commitments are complete a whole round has been read, and so the
channel is empty at most one poll after the own message was taken.
-/

set_option autoImplicit false

namespace FrostMpcTss.Proofs

open Network Service FrostMpcTss.Session
open Tss Tss.KeySign

variable {C S : Type} {n : Nat} {c : Channels}

/-- The channels at each `await` of the signing agent. -/
inductive SigningRoom (n : Nat) (c : Channels) : Signing C S → Prop where
  | start : c.fromProtocol = [] → c.nextOutgoing = 0 → c.toProtocol = [] →
      c.nextIncoming = 0 → SigningRoom n c .start
  | commitmentsSent {commitments : C} {m : AgentMessage} :
      c.fromProtocol = [m] → m.recipient = none → c.nextOutgoing = 0 →
      c.toProtocol.length ≤ (n - 1) * c.nextIncoming →
      SigningRoom n c (.commitmentsSent commitments)
  | round1 {s : Round1 C S} : c.fromProtocol = [] → c.nextOutgoing = 1 → c.toProtocol = [] →
      s.receivedParticipants.size ≤ 1 + (n - 1) * c.nextIncoming →
      SigningRoom n c (.round1 s)
  | shareSent {s : Round1 C S} {share : S} {m : AgentMessage} :
      c.fromProtocol = [m] → m.recipient = none → c.nextOutgoing = 1 →
      c.toProtocol.length + (n - 1) ≤ (n - 1) * c.nextIncoming →
      SigningRoom n c (.shareSent s share)
  | round2 {s : Round2 C S} : c.fromProtocol = [] → c.nextOutgoing = 2 → c.toProtocol = [] →
      1 ≤ c.nextIncoming → SigningRoom n c (.round2 s)

theorem SigningRoom.outgoing {a : Signing C S} (hn : 2 ≤ n) (h : SigningRoom n c a) :
    Outgoing n 2 false c := by
  cases h with
  | start hfrom hnext _ _ => exact outgoing_of_nil hfrom (by omega) (by omega)
  | commitmentsSent hfrom hm hnext _ =>
      exact outgoing_of_broadcast hn hfrom hm (by omega) (by omega)
  | round1 hfrom hnext _ _ => exact outgoing_of_nil hfrom (by omega) (by omega)
  | shareSent hfrom hm hnext hround =>
      refine outgoing_of_broadcast hn hfrom hm (by omega) fun _ => ?_
      rcases Nat.eq_zero_or_pos c.nextIncoming with hzero | hpos
      · rw [hzero, Nat.mul_zero] at hround
        omega
      · exact hpos
  | round2 hfrom hnext _ hround => exact outgoing_of_nil hfrom (by omega) fun _ => hround

/-- What a poll does to the channels of an agent that is sent no direct
messages: a round for each id that is completed. -/
theorem Advances.length_toProtocol {c' : Channels} (hdirects : c.directs = 0)
    (h : Advances n c c') :
    c'.toProtocol.length + (n - 1) * c.nextIncoming
      = c.toProtocol.length + (n - 1) * c'.nextIncoming := by
  cases h with
  | quiet => rfl
  | direct hpos _ => omega
  | round hlength _ =>
      show (c.toProtocol ++ _).length + _ = _ + (n - 1) * (c.nextIncoming + 1)
      rw [List.length_append, hlength, Nat.mul_succ]
      omega

/-- The invariant of the signing agent. It is sent no direct message. -/
def SigningInv (n : Nat) (_ : Nat) (a : Signing C S) (c : Channels) : Prop :=
  c.directs = 0 ∧ SigningRoom n c a

section Loops

variable [Identifiers] [DagCbor] [SigningCodec C S] {p : SigningSession C S}

/-- A message adds one participant at most. -/
theorem size_takeCommitment_le (p : SigningSession C S) (s : Round1 C S) (req : AgentRequest)
    (s' : Round1 C S) (h : takeCommitment p s req = .ok s') :
    s'.receivedParticipants.size ≤ s.receivedParticipants.size + [req].countP fun _ => true := by
  show _ ≤ s.receivedParticipants.size + 1
  cases commitmentTurn_of_eq_ok h with
  | placed _ _ _ => exact Std.TreeSet.size_insert_le
  | early _ _ => exact Nat.le_succ _
  | skipped => exact Nat.le_succ _

/-- The first message is a broadcast of the own commitments. -/
theorem sendCommitments_eq_ok {commitments : C} {message : AgentMessage}
    (h : sendCommitments p = .ok (commitments, message)) :
    p.commit = .ok commitments ∧ message.recipient = none ∧
      ∃ bytes, SigningCodec.serializeCommitments S commitments = .ok bytes ∧
        DagCbor.toVec bytes = .ok message.body := by
  obtain ⟨_, _, h⟩ := Lib.Except.bind_eq_ok.mp h
  obtain ⟨_, _, h⟩ := Lib.Except.bind_eq_ok.mp h
  obtain ⟨_, hcommit, h⟩ := Lib.Except.bind_eq_ok.mp h
  obtain ⟨bytes, hserialize, h⟩ := Lib.Except.bind_eq_ok.mp h
  obtain ⟨_, hbody, h⟩ := Lib.Except.bind_eq_ok.mp h
  cases h
  exact ⟨hcommit, rfl, bytes, mapErr_eq_ok.mp hserialize, mapErr_eq_ok.mp hbody⟩

/-- The second one is a broadcast of the own share. -/
theorem sendShare_eq_ok {s : Round1 C S} {share : S} {message : AgentMessage}
    (h : sendShare p s = .ok (share, message)) :
    message.recipient = none ∧
      DagCbor.toVec (SigningCodec.serializeShare C share) = .ok message.body := by
  obtain ⟨_, _, h⟩ := Lib.Except.bind_eq_ok.mp h
  obtain ⟨_, _, h⟩ := Lib.Except.bind_eq_ok.mp h
  obtain ⟨_, hbody, h⟩ := Lib.Except.bind_eq_ok.mp h
  cases h
  exact ⟨rfl, mapErr_eq_ok.mp hbody⟩

/-- The first receive loop, entered with as many participants as rounds
have completed. -/
theorem polled_runRound1 (hn : 2 ≤ n) (hp : p.participants.length = n) {s : Round1 C S} {d : Nat}
    (hdirects : c.directs = 0) (hfrom : c.fromProtocol = []) (hnext : c.nextOutgoing = 1)
    (hsize : s.receivedParticipants.size + c.toProtocol.length
      ≤ 1 + (n - 1) * c.nextIncoming) :
    Polled n 2 false (SigningInv n d) c (runRound1 p s c.toProtocol) := by
  have hcount : ∀ l : List AgentRequest, (l.countP fun _ => true) = l.length :=
    fun l => by rw [List.countP_true]
  have hout : Outgoing n 2 false c := outgoing_of_nil hfrom (by omega) (by omega)
  unfold runRound1
  split
  · rename_i s' hcollect
    obtain ⟨_, hle⟩ := collect_waiting _ (size_takeCommitment_le p) hcollect
    rw [hcount] at hle
    refine ⟨hout.silent rfl, fun _ => ⟨hdirects, .round1 ?_ hnext List.drop_length ?_⟩⟩
    · show c.fromProtocol ++ [] = []
      rw [hfrom]
      rfl
    · show _ ≤ 1 + (n - 1) * c.nextIncoming
      omega
  · exact polled_returning hout _ _ _
  · rename_i s' rest hcollect
    obtain ⟨hmore, hsuffix, hle⟩ := collect_done _ (size_takeCommitment_le p) hcollect
    have hall : n ≤ s'.receivedParticipants.size := by
      rw [← hp]
      exact Nat.not_lt.mp (of_decide_eq_false hmore)
    rw [hcount, hcount] at hle
    split
    · rename_i share message hshare
      have hmessage := (sendShare_eq_ok hshare).1
      -- all but the own commitments came through the channel
      have hroom : SigningRoom n (c.apply (.waiting (c.toProtocol.length - rest.length)
          [message])) (.shareSent s' share : Signing C S) := by
        refine .shareSent ?_ hmessage hnext ?_
        · show c.fromProtocol ++ [message] = [message]
          rw [hfrom]
          rfl
        · show (c.toProtocol.drop (c.toProtocol.length - rest.length)).length + (n - 1)
            ≤ (n - 1) * c.nextIncoming
          rw [drop_of_suffix hsuffix]
          omega
      exact ⟨hroom.outgoing hn, fun _ => ⟨hdirects, hroom⟩⟩
    · exact polled_returning hout _ _ _

/-- The second receive loop. -/
theorem polled_runRound2 {s : Round2 C S} {d : Nat} (hdirects : c.directs = 0)
    (hfrom : c.fromProtocol = []) (hnext : c.nextOutgoing = 2) (hround : 1 ≤ c.nextIncoming) :
    Polled n 2 false (SigningInv n d) c (runRound2 p s c.toProtocol) := by
  have hout : Outgoing n 2 false c :=
    outgoing_of_nil hfrom (Nat.le_of_eq hnext) fun _ => hround
  unfold runRound2
  split
  · refine ⟨hout.silent rfl, fun _ => ⟨hdirects, .round2 ?_ hnext List.drop_length hround⟩⟩
    show c.fromProtocol ++ [] = []
    rw [hfrom]
    rfl
  · exact polled_returning hout _ _ _
  · exact polled_returning hout _ _ _

/-- A poll of the signing agent. -/
theorem polled_runSigning (hn : 2 ≤ n) (hp : p.participants.length = n) {d : Nat} {a : Signing C S}
    {c' : Channels} (h : SigningInv n d a c) (hadv : Advances n c c') :
    Polled n 2 false (SigningInv n d) c' (runSigning p a c'.toProtocol c'.fromProtocol) := by
  obtain ⟨hdirects, h⟩ := h
  have hlength := hadv.length_toProtocol hdirects
  obtain ⟨hfrom', hnext', hle, hdirects'⟩ := hadv.takeOutgoing
  have hdirects' : c'.directs = 0 := by omega
  have hone : ∀ {m : AgentMessage}, m.recipient = none → broadcasts ([m].take 1) = 1 := by
    intro m hm
    simp [broadcasts, hm]
  cases h with
  | start hfrom hnext hto hin =>
      rw [hfrom] at hfrom' hnext'
      have hfrom' : c'.fromProtocol = [] := hfrom'
      have hnext' : c'.nextOutgoing = 0 := hnext'.trans hnext
      rw [runSigning]
      split
      · rename_i commitments message hsend
        have hmessage := (sendCommitments_eq_ok hsend).2.1
        have hroom : SigningRoom n (c'.apply (.waiting 0 [message]))
            (.commitmentsSent commitments : Signing C S) := by
          refine .commitmentsSent ?_ hmessage hnext' ?_
          · show c'.fromProtocol ++ [message] = [message]
            rw [hfrom']
            rfl
          · show c'.toProtocol.length ≤ (n - 1) * c'.nextIncoming
            rw [hto, hin, List.length_nil, Nat.mul_zero] at hlength
            omega
        exact ⟨hroom.outgoing hn, fun _ => ⟨hdirects', hroom⟩⟩
      · exact polled_returning (outgoing_of_nil hfrom' (by omega) (by omega)) _ _ _
  | @commitmentsSent commitments m hfrom hm hnext hround =>
      rw [hfrom] at hfrom' hnext'
      have hfrom' : c'.fromProtocol = [] := hfrom'
      have hnext' : c'.nextOutgoing = 1 := by rw [hnext', hnext, hone hm]
      rw [runSigning, if_neg (not_not.mpr hfrom')]
      split
      · refine polled_runRound1 hn hp hdirects' hfrom' hnext' ?_
        have hsize : (Round1.new p commitments : Round1 C S).receivedParticipants.size ≤ 1 :=
          Std.TreeSet.size_insert_le
        omega
      · exact polled_returning (outgoing_of_nil hfrom' (by omega) (by omega)) _ _ _
  | round1 hfrom hnext hto hsize =>
      -- the agent took all it got, so only this round is in its channel
      rw [hfrom] at hfrom' hnext'
      rw [hto, List.length_nil] at hlength
      rw [runSigning]
      refine polled_runRound1 hn hp hdirects' hfrom' (hnext'.trans hnext) ?_
      omega
  | @shareSent s share m hfrom hm hnext hround =>
      rw [hfrom] at hfrom' hnext'
      have hfrom' : c'.fromProtocol = [] := hfrom'
      have hnext' : c'.nextOutgoing = 2 := by rw [hnext', hnext, hone hm]
      -- the first round was complete before the share was sent
      have hround' : 1 ≤ c'.nextIncoming := by
        rcases Nat.eq_zero_or_pos c.nextIncoming with hzero | hpos
        · rw [hzero, Nat.mul_zero] at hround
          omega
        · omega
      rw [runSigning, if_neg (not_not.mpr hfrom')]
      split
      · exact polled_runRound2 hdirects' hfrom' hnext' hround'
      · exact polled_returning (outgoing_of_nil hfrom' (by omega) fun _ => hround') _ _ _
  | round2 hfrom hnext hto hround =>
      rw [hfrom] at hfrom' hnext'
      rw [runSigning]
      exact polled_runRound2 hdirects' hfrom' (hnext'.trans hnext) (by omega)

/-- The signing agent keeps its contract: it sends two broadcasts. -/
theorem agentSpec_runSigning (hn : 2 ≤ n) (hp : p.participants.length = n) :
    AgentSpec n 2 false (runSigning p) (SigningInv n) where
  outgoing h := h.2.outgoing hn
  deliver hdirect := by cases hdirect
  room h _ hpos := by
    rw [h.1] at hpos
    cases hpos
  empty := by
    intro d a c ⟨_, h⟩ hlt hown
    have hnil : c.toProtocol.length ≤ 0 → c.toProtocol = [] :=
      fun hl => List.length_eq_zero_iff.mp (Nat.le_zero.mp hl)
    cases h with
    | start _ _ hto _ => exact hto
    | commitmentsSent _ _ hnext hround =>
        -- the own commitments are not out, so this is the first round
        have hzero : c.nextIncoming = 0 := by omega
        rw [hzero, Nat.mul_zero] at hround
        exact hnil hround
    | round1 _ _ hto _ => exact hto
    | shareSent _ _ _ hround =>
        have hle : (n - 1) * c.nextIncoming ≤ (n - 1) * 1 :=
          Nat.mul_le_mul_left (n - 1) (Nat.le_of_lt_succ hlt)
        exact hnil (by omega)
    | round2 _ _ hto _ => exact hto
  step h hadv _ := polled_runSigning hn hp h hadv

end Loops

end FrostMpcTss.Proofs
