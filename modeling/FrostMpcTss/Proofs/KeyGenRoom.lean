import FrostMpcTss.Proofs.AgentSpec
import FrostMpcTss.Tss.KeyGen

/-!
# `FrostMpcTss.Proofs.KeyGenRoom`: the key generation agent and its channels

The agent leaves messages in its channel only while it waits for room
in its outgoing one, between the two receive loops. The first round has
been read by then, so that only direct messages can wait, and each
party sends one of them (`DkgInv`).
-/

set_option autoImplicit false

namespace FrostMpcTss.Proofs

open Network Service FrostMpcTss.Session
open Tss Tss.KeyGen

variable {A B : Type} {n d : Nat} {c : Channels}

/-- The broadcasts in the agent's channel. -/
def broadcastsIn (incoming : List AgentRequest) : Nat :=
  incoming.countP (·.recipient.isNone)

/-- The direct messages in the agent's channel. -/
def directsIn (incoming : List AgentRequest) : Nat :=
  incoming.countP (·.recipient.isSome)

theorem broadcastsIn_add_directsIn (incoming : List AgentRequest) :
    broadcastsIn incoming + directsIn incoming = incoming.length := by
  unfold broadcastsIn directsIn
  induction incoming with
  | nil => rfl
  | cons req incoming ih =>
      rw [List.countP_cons, List.countP_cons, List.length_cons]
      cases req.recipient with
      | none =>
          show _ + 1 + (_ + 0) = _
          omega
      | some recipient =>
          show _ + 0 + (_ + 1) = _
          omega

/-- What holds of the channels at every `await` of the agent but the
first. -/
structure DkgRoom (n d : Nat) (c : Channels) : Prop where
  outgoing : Outgoing n 1 true c
  nextIncoming_le : c.nextIncoming ≤ 1
  directs : directsIn c.toProtocol + c.directs ≤ d

/-- The invariant of the key generation agent. -/
inductive DkgInv (n d : Nat) : Dkg A B → Channels → Prop where
  | start {c : Channels} : c.fromProtocol = [] → c.nextOutgoing = 0 → c.toProtocol = [] →
      c.nextIncoming = 0 → c.directs ≤ d → DkgInv n d .start c
  | round1 {c : Channels} {s : Round1 A} : DkgRoom n d c → c.toProtocol = [] →
      s.packagesAll.size ≤ 1 + (n - 1) * c.nextIncoming → DkgInv n d (.round1 s) c
  | sending {c : Channels} {s : Round1 A} {todo : List (Nat × B)} : DkgRoom n d c →
      broadcastsIn c.toProtocol = 0 → 1 ≤ c.nextIncoming → DkgInv n d (.sending s todo) c
  | round2 {c : Channels} {s : Round1 A} {acc : Round2 B} : DkgRoom n d c →
      c.toProtocol = [] → 1 ≤ c.nextIncoming → DkgInv n d (.round2 s acc) c

/-- What a poll adds to the agent's channel: the broadcasts of a round,
or a direct message that was queued. -/
theorem Advances.incoming {c' : Channels} (h : Advances n c c') :
    broadcastsIn c'.toProtocol + (n - 1) * c.nextIncoming
        = broadcastsIn c.toProtocol + (n - 1) * c'.nextIncoming ∧
      directsIn c'.toProtocol + c'.directs = directsIn c.toProtocol + c.directs := by
  cases h with
  | quiet => exact ⟨rfl, rfl⟩
  | @direct req hpos hreq =>
      have hdirect : directsIn [req] = 1 := by simp [directsIn, hreq]
      have hbroadcast : broadcastsIn [req] = 0 := by
        have hsum := broadcastsIn_add_directsIn [req]
        rw [hdirect, List.length_singleton] at hsum
        omega
      constructor
      · show broadcastsIn (c.toProtocol ++ [req]) + _ = _
        rw [broadcastsIn, List.countP_append]
        show broadcastsIn c.toProtocol + broadcastsIn [req] + _ = _
        rw [hbroadcast]
        rfl
      · show directsIn (c.toProtocol ++ [req]) + (c.directs - 1) = _
        rw [directsIn, List.countP_append]
        show directsIn c.toProtocol + directsIn [req] + _ = _
        rw [hdirect]
        omega
  | @round reqs hlength hreqs =>
      -- a round brings `n - 1` broadcasts and moves the id by one
      have hbroadcast : broadcastsIn reqs = n - 1 := by
        rw [← hlength]
        refine List.countP_eq_length.mpr fun req hreq => ?_
        rw [hreqs req hreq]
        rfl
      have hdirect : directsIn reqs = 0 := by
        refine List.countP_eq_zero.mpr fun req hreq => ?_
        rw [hreqs req hreq]
        nofun
      constructor
      · show broadcastsIn (c.toProtocol ++ reqs) + _ = _ + (n - 1) * (c.nextIncoming + 1)
        rw [broadcastsIn, List.countP_append]
        show broadcastsIn c.toProtocol + broadcastsIn reqs + _ = _
        rw [hbroadcast, Nat.mul_succ]
        omega
      · show directsIn (c.toProtocol ++ reqs) + c.directs = _
        rw [directsIn, List.countP_append]
        show directsIn c.toProtocol + directsIn reqs + _ = _
        rw [hdirect]
        rfl

/-- Direct messages are sent after what was sent before. -/
theorem Outgoing.append_directs (h : Outgoing n 1 true c) {messages : List AgentMessage}
    (hfits : c.fromProtocol.length + messages.length ≤ n - 1)
    (hdirects : ∀ m ∈ messages, m.recipient.isSome = true) :
    Outgoing n 1 true (c.sent messages) := by
  have hnone : broadcasts messages = 0 := by
    refine List.countP_eq_zero.mpr fun m hm => ?_
    have hsome := hdirects m hm
    rw [← Option.not_isSome, hsome]
    nofun
  have hcount : broadcasts (c.fromProtocol ++ messages) = broadcasts c.fromProtocol := by
    rw [broadcasts_append, hnone]
    rfl
  refine ⟨?_, ?_, ?_, fun _ _ _ => rfl⟩
  · show (c.fromProtocol ++ messages).length ≤ n - 1
    rw [List.length_append]
    exact hfits
  · show c.nextOutgoing + broadcasts (c.fromProtocol ++ messages) ≤ 1
    rw [hcount]
    exact h.le_limit
  · show 2 ≤ c.nextOutgoing + broadcasts (c.fromProtocol ++ messages) → _
    rw [hcount]
    exact h.after_first

theorem directsIn_drop_le (received : Nat) (incoming : List AgentRequest) :
    directsIn (incoming.drop received) ≤ directsIn incoming :=
  (List.drop_sublist received incoming).countP_le

section Loops

variable [Identifiers] [DagCbor] [DkgCodec A B] {p : DkgSession A B} {s : Round1 A}

/-- The first message is a broadcast of the own package. -/
theorem sendRound1_eq_ok {package : A} {message : AgentMessage}
    (h : sendRound1 p = .ok (package, message)) :
    p.part1 = .ok package ∧ message.recipient = none ∧
      ∃ bytes, DkgCodec.serializeRound1 B package = .ok bytes ∧
        DagCbor.toVec bytes = .ok message.body := by
  obtain ⟨_, _, h⟩ := Lib.Except.bind_eq_ok.mp h
  obtain ⟨_, _, h⟩ := Lib.Except.bind_eq_ok.mp h
  obtain ⟨_, _, h⟩ := Lib.Except.bind_eq_ok.mp h
  obtain ⟨_, hpart1, h⟩ := Lib.Except.bind_eq_ok.mp h
  obtain ⟨bytes, hserialize, h⟩ := Lib.Except.bind_eq_ok.mp h
  obtain ⟨_, hbody, h⟩ := Lib.Except.bind_eq_ok.mp h
  cases h
  exact ⟨mapErr_eq_ok.mp hpart1, rfl, bytes, mapErr_eq_ok.mp hserialize, mapErr_eq_ok.mp hbody⟩

omit [Identifiers] in
theorem recipient_round2Message {package : Nat × B} {m : AgentMessage}
    (h : round2Message p package = .ok m) : m.recipient = some package.1 := by
  unfold round2Message at h
  split at h
  · cases h
  · obtain ⟨_, _, h⟩ := Lib.Except.bind_eq_ok.mp h
    obtain ⟨_, _, h⟩ := Lib.Except.bind_eq_ok.mp h
    cases h
    rfl

omit [Identifiers] in
/-- The packages that are sent fit. -/
theorem length_sendRound2_le (p : DkgSession A B) (room : Nat) (todo : List (Nat × B)) :
    (sendRound2 p room todo).1.length ≤ room := by
  induction todo generalizing room with
  | nil =>
      rw [sendRound2]
      exact Nat.zero_le _
  | cons package todo ih =>
      cases hmessage : round2Message p package with
      | error e =>
          simp only [sendRound2, hmessage]
          exact Nat.zero_le _
      | ok message =>
          cases room with
          | zero =>
              simp only [sendRound2, hmessage]
              exact Nat.zero_le _
          | succ room =>
              simp only [sendRound2, hmessage]
              exact Nat.succ_le_succ (ih room)

omit [Identifiers] in
/-- Every message that is sent carries one of the packages. -/
theorem mem_sendRound2 {room : Nat} {todo : List (Nat × B)} {m : AgentMessage}
    (hm : m ∈ (sendRound2 p room todo).1) : ∃ package, round2Message p package = .ok m := by
  induction todo generalizing room with
  | nil =>
      rw [sendRound2] at hm
      cases hm
  | cons package todo ih =>
      cases hmessage : round2Message p package with
      | error e =>
          simp only [sendRound2, hmessage] at hm
          cases hm
      | ok message =>
          cases room with
          | zero =>
              simp only [sendRound2, hmessage] at hm
              cases hm
          | succ room =>
              simp only [sendRound2, hmessage] at hm
              rcases List.mem_cons.mp hm with rfl | hm
              · exact ⟨package, hmessage⟩
              · exact ih hm

omit [Identifiers] in
/-- The packages that are sent are direct messages, and fit. -/
theorem sendRound2_spec (p : DkgSession A B) (room : Nat) (todo : List (Nat × B)) :
    (sendRound2 p room todo).1.length ≤ room ∧
      ∀ m ∈ (sendRound2 p room todo).1, m.recipient.isSome = true := by
  refine ⟨length_sendRound2_le p room todo, fun m hm => ?_⟩
  obtain ⟨package, hmessage⟩ := mem_sendRound2 hm
  rw [recipient_round2Message hmessage]
  rfl

/-- A message adds one package at most, and a direct message none. -/
theorem size_takeRound1_le (p : DkgSession A B) (s : Round1 A) (req : AgentRequest)
    (s' : Round1 A) (h : takeRound1 p s req = .ok s') :
    s'.packagesAll.size ≤ s.packagesAll.size + [req].countP (·.recipient.isNone) := by
  unfold takeRound1 at h
  cases hreq : req.recipient with
  | some recipient =>
      rw [hreq] at h
      cases h
      exact Nat.le_add_right _ _
  | none =>
      have hone : [req].countP (·.recipient.isNone) = 1 := by simp [hreq]
      rw [hreq] at h
      rw [hone]
      obtain ⟨payload, _, h⟩ := Lib.Except.bind_eq_ok.mp h
      obtain ⟨package, _, h⟩ := Lib.Except.bind_eq_ok.mp h
      obtain ⟨id, _, h⟩ := Lib.Except.bind_eq_ok.mp h
      split at h
      · cases h
        exact Std.TreeMap.size_insert_le
      · cases h
        exact Nat.le_succ _

/-- The second receive loop, after `received` messages were taken. -/
theorem polled_dkgRound2 {acc : Round2 B} {received : Nat} {sent : List AgentMessage}
    (hsent : Outgoing n 1 true (c.sent sent)) (hle : c.nextIncoming ≤ 1)
    (hround : 1 ≤ c.nextIncoming) (hdirects : directsIn c.toProtocol + c.directs ≤ d) :
    Polled n 1 true (DkgInv n d) c
      (runRound2 p s acc received (c.toProtocol.drop received) sent) := by
  unfold runRound2
  split
  · refine ⟨hsent.apply rfl, fun _ => ?_⟩
    have hnil : c.toProtocol.drop (received + (c.toProtocol.drop received).length) = [] := by
      rw [List.drop_eq_nil_iff, List.length_drop]
      omega
    refine .round2 ⟨hsent.apply rfl, hle, ?_⟩ hnil hround
    exact Nat.le_trans (Nat.add_le_add_right (directsIn_drop_le _ _) _) hdirects
  · exact ⟨hsent.apply rfl, nofun⟩
  · exact ⟨hsent.apply rfl, nofun⟩

/-- The packages are sent, as far as there is room. -/
theorem polled_dkgSending {todo : List (Nat × B)} {room received : Nat} {sent : List AgentMessage}
    (hsent : Outgoing n 1 true (c.sent sent))
    (hroom : c.fromProtocol.length + sent.length + room ≤ n - 1) (hle : c.nextIncoming ≤ 1)
    (hround : 1 ≤ c.nextIncoming) (hdirects : directsIn c.toProtocol + c.directs ≤ d)
    (hread : broadcastsIn (c.toProtocol.drop received) = 0) :
    Polled n 1 true (DkgInv n d) c
      (runSending p s todo room received (c.toProtocol.drop received) sent) := by
  obtain ⟨hlength, hdirect⟩ := sendRound2_spec p room todo
  have hsent' : Outgoing n 1 true (c.sent (sent ++ (sendRound2 p room todo).1)) := by
    have hassoc : c.sent (sent ++ (sendRound2 p room todo).1)
        = (c.sent sent).sent (sendRound2 p room todo).1 := by
      show Channels.mk _ _ _ _ _ = Channels.mk _ _ _ _ _
      rw [Channels.sent, List.append_assoc]
    rw [hassoc]
    refine hsent.append_directs ?_ hdirect
    show (c.fromProtocol ++ sent).length + _ ≤ _
    rw [List.length_append]
    omega
  unfold runSending
  split
  · rename_i messages e heq
    rw [heq] at hsent'
    exact ⟨hsent'.apply rfl, nofun⟩
  · rename_i messages heq
    rw [heq] at hsent'
    exact polled_dkgRound2 hsent' hle hround hdirects
  · rename_i messages left _ heq
    rw [heq] at hsent'
    refine ⟨hsent'.apply rfl, fun _ => .sending ⟨hsent'.apply rfl, hle, ?_⟩ hread hround⟩
    exact Nat.le_trans (Nat.add_le_add_right (directsIn_drop_le _ _) _) hdirects

/-- The first receive loop, entered with as many packages as rounds have
completed. -/
theorem polled_dkgRound1 (hn : 2 ≤ n) (hp : p.maxSigners = n) {room : Nat}
    {sent : List AgentMessage} (hsent : Outgoing n 1 true (c.sent sent))
    (hroom : c.fromProtocol.length + sent.length + room ≤ n - 1) (hle : c.nextIncoming ≤ 1)
    (hdirects : directsIn c.toProtocol + c.directs ≤ d)
    (hsize : s.packagesAll.size + broadcastsIn c.toProtocol ≤ 1 + (n - 1) * c.nextIncoming) :
    Polled n 1 true (DkgInv n d) c (runRound1 p s room c.toProtocol sent) := by
  unfold runRound1
  split
  · rename_i s' hcollect
    obtain ⟨_, hwaiting⟩ := collect_waiting _ (size_takeRound1_le p) hcollect
    refine ⟨hsent.apply rfl, fun _ => .round1 ⟨hsent.apply rfl, hle, ?_⟩ List.drop_length ?_⟩
    · exact Nat.le_trans (Nat.add_le_add_right (directsIn_drop_le _ _) _) hdirects
    · exact Nat.le_trans hwaiting hsize
  · exact ⟨hsent.apply rfl, nofun⟩
  · rename_i s' rest hcollect
    obtain ⟨hmore, hsuffix, hdone⟩ := collect_done _ (size_takeRound1_le p) hcollect
    have hall : n ≤ s'.packagesAll.size := by
      rw [← hp]
      exact Nat.not_lt.mp (of_decide_eq_false hmore)
    have hdone : s'.packagesAll.size + broadcastsIn rest ≤ 1 + (n - 1) * c.nextIncoming :=
      Nat.le_trans hdone hsize
    -- all packages but the own one came with the first round
    have hround : c.nextIncoming = 1 := by
      rcases Nat.eq_zero_or_pos c.nextIncoming with hzero | hpos
      · rw [hzero, Nat.mul_zero] at hdone
        omega
      · omega
    have hread : broadcastsIn rest = 0 := by
      rw [hround, Nat.mul_one] at hdone
      omega
    split
    · exact ⟨hsent.apply rfl, nofun⟩
    · have hrest := drop_of_suffix hsuffix
      generalize c.toProtocol.length - rest.length = received at hrest ⊢
      subst hrest
      exact polled_dkgSending hsent hroom hle (Nat.le_of_eq hround.symm) hdirects hread

/-- A poll of the key generation agent. -/
theorem polled_runDkg (hn : 2 ≤ n) (hp : p.maxSigners = n) {a : Dkg A B} {c' : Channels}
    (h : DkgInv n d a c) (hadv : Advances n c c') (hle : c'.nextIncoming ≤ 1) :
    Polled n 1 true (DkgInv n d) c' (runDkg p (n - 1) a c'.toProtocol c'.fromProtocol) := by
  obtain ⟨hbroadcasts, hdirects⟩ := hadv.incoming
  obtain ⟨hfrom, hnext, hmono, _⟩ := hadv.takeOutgoing
  -- the own message that was taken stays counted
  have hout : Outgoing n 1 true c → Outgoing n 1 true (c'.sent []) := by
    intro hout
    have htaken := hout.takeOutgoing
    have hsame : (c'.sent []).fromProtocol = c.takeOutgoing.fromProtocol := by
      show c'.fromProtocol ++ [] = c.fromProtocol.tail
      rw [hfrom, List.append_nil]
    refine ⟨?_, ?_, ?_, ?_⟩ <;> rw [hsame]
    · exact htaken.fits
    · show c'.nextOutgoing + _ ≤ 1
      rw [hnext]
      exact htaken.le_limit
    · show 2 ≤ c'.nextOutgoing + _ → 1 ≤ c'.nextIncoming
      rw [hnext]
      exact fun htwo => Nat.le_trans (htaken.after_first htwo) hmono
    · exact htaken.direct
  have hfits : Outgoing n 1 true c →
      c'.fromProtocol.length + ([] : List AgentMessage).length
        + (n - 1 - c'.fromProtocol.length) ≤ n - 1 := by
    intro hout'
    have hfits := (hout hout').fits
    rw [Channels.sent, List.append_nil] at hfits
    have hfits : c'.fromProtocol.length ≤ n - 1 := hfits
    rw [List.length_nil]
    omega
  cases h with
  | start hnil hzero hto hin hd =>
      rw [hto, hin, Nat.mul_zero] at hbroadcasts
      rw [hto] at hdirects
      rw [hnil] at hfrom hnext
      have hfrom : c'.fromProtocol = [] := hfrom
      have hnext : c'.nextOutgoing = 0 := hnext.trans hzero
      have hdirects : directsIn c'.toProtocol + c'.directs ≤ d := by
        rw [hdirects]
        exact Nat.le_trans (Nat.le_of_eq (Nat.zero_add _)) hd
      rw [runDkg]
      split
      · rename_i package message hsend
        have hmessage := (sendRound1_eq_ok hsend).2.1
        refine polled_dkgRound1 hn hp ?_ ?_ hle hdirects ?_
        · refine outgoing_of_broadcast hn ?_ hmessage ?_ ?_
          · show c'.fromProtocol ++ [message] = [message]
            rw [hfrom]
            rfl
          · show c'.nextOutgoing + 1 ≤ 1
            omega
          · show 1 ≤ c'.nextOutgoing → _
            omega
        · rw [hfrom, List.length_nil, List.length_singleton]
          omega
        · have hsize : (Round1.new p package : Round1 A).packagesAll.size ≤ 1 :=
            Std.TreeMap.size_insert_le
          have hcount : broadcastsIn c'.toProtocol ≤ (n - 1) * c'.nextIncoming :=
            Nat.le_of_eq (hbroadcasts.trans (Nat.zero_add _))
          omega
      · exact polled_returning (outgoing_of_nil hfrom (by omega) (by omega)) _ _ _
  | round1 hroom hto hsize =>
      rw [hto] at hbroadcasts
      have hbroadcasts : broadcastsIn c'.toProtocol + (n - 1) * c.nextIncoming
          = (n - 1) * c'.nextIncoming := hbroadcasts.trans (Nat.zero_add _)
      rw [runDkg]
      refine polled_dkgRound1 hn hp (hout hroom.outgoing) (hfits hroom.outgoing) hle ?_ ?_
      · rw [hdirects]
        exact hroom.directs
      · omega
  | @sending _ s todo hroom hread hround =>
      have hsame : c'.nextIncoming = c.nextIncoming := by
        have := hroom.nextIncoming_le
        omega
      rw [hsame, hread] at hbroadcasts
      rw [runDkg]
      show Polled n 1 true _ c' (runSending p s todo _ 0 (c'.toProtocol.drop 0) [])
      refine polled_dkgSending (hout hroom.outgoing) (hfits hroom.outgoing) hle (by omega) ?_ ?_
      · rw [hdirects]
        exact hroom.directs
      · rw [List.drop_zero]
        omega
  | @round2 _ s acc hroom hto hround =>
      rw [runDkg]
      show Polled n 1 true _ c' (runRound2 p s acc 0 (c'.toProtocol.drop 0) [])
      refine polled_dkgRound2 (hout hroom.outgoing) hle (by omega) ?_
      rw [hdirects]
      exact hroom.directs

/-- The key generation agent keeps its contract: it sends one
broadcast. -/
theorem agentSpec_runDkg (hn : 2 ≤ n) (hp : p.maxSigners = n) :
    AgentSpec n 1 true (runDkg p (n - 1)) (DkgInv n) where
  outgoing h := by
    cases h with
    | start hnil hzero _ _ _ => exact outgoing_of_nil hnil (by omega) (by omega)
    | round1 hroom _ _ => exact hroom.outgoing
    | sending hroom _ _ => exact hroom.outgoing
    | round2 hroom _ _ => exact hroom.outgoing
  deliver := by
    intro d a c _ h
    have hnext : ∀ {c : Channels}, DkgRoom n d c →
        DkgRoom n (d + 1) { c with directs := c.directs + 1 } := by
      intro c hroom
      refine ⟨⟨hroom.outgoing.fits, hroom.outgoing.le_limit, hroom.outgoing.after_first,
        hroom.outgoing.direct⟩, hroom.nextIncoming_le, ?_⟩
      exact Nat.succ_le_succ hroom.directs
    cases h with
    | start hnil hzero hto hin hd =>
        exact .start hnil hzero hto hin (Nat.succ_le_succ hd)
    | round1 hroom hto hsize => exact .round1 (hnext hroom) hto hsize
    | sending hroom hread hround => exact .sending (hnext hroom) hread hround
    | round2 hroom hto hround => exact .round2 (hnext hroom) hto hround
  room := by
    intro d a c h hd hpos
    have hempty : c.toProtocol = [] → c.toProtocol.length < n - 1 := by
      intro hto
      rw [hto, List.length_nil]
      omega
    cases h with
    | start _ _ hto _ _ => exact hempty hto
    | round1 _ hto _ => exact hempty hto
    | sending hroom hread _ =>
        -- only direct messages wait, and one of them is still queued
        have hlength := broadcastsIn_add_directsIn c.toProtocol
        have hdirects := hroom.directs
        omega
    | round2 _ hto _ => exact hempty hto
  empty := by
    intro d a c h hlt _
    cases h with
    | start _ _ hto _ _ => exact hto
    | round1 _ hto _ => exact hto
    | sending _ _ hround => omega
    | round2 _ hto _ => exact hto
  step h hadv hle := polled_runDkg hn hp h hadv hle

end Loops

end FrostMpcTss.Proofs
