import FrostMpcTss.Service.Codecs
import FrostMpcTss.Service.Coordination

/-!
# `FrostMpcTss.Proofs.SingleProposer`: who decides the end of phase 2

A `Phase2Channel` is polled until it returns. `verdict` says what one
poll decides, from the session id, the timer and the poll's input
alone; `outcome_eq_findSome?` shows that a whole run is decided by the
first poll with a verdict. The sender of a message is not among the
things `verdict` looks at.

`Inserted` relates two inputs of a channel: the second has further
messages, and each of them is taken by a poll of its own or by a poll of
the first input, early or late. What that poll took before waits, and is
taken by a later poll. `decidedBy_iff` determines which messages of peers
other than the proposer can be added without taking the decision away from
the proposer and the timer: while the timer is running, computation
messages and the coordination messages of other sessions, as long as
nothing they keep waiting is taken after the timer has run out.

There are three ways to fail. A forged start message of the session starts
it. After the timer has run out, a refused message delays the timer, since
the poll that refuses it returns before it looks at it. And a computation
message makes a poll look at the timer that would have taken the
proposer's start message instead.
-/

set_option autoImplicit false

namespace FrostMpcTss.Proofs

open Lib Network Service

/-- What one poll of a `Phase2Channel` reads. -/
structure Phase2Input (P ρ : Type) where
  next : Option (IncomingRequest P ρ)
  now : Nat

/-- How phase 2 ends. -/
inductive Verdict (P : Type) where
  | start (peerset : Peerset P) (body : Bytes)
  | abort
  | panic
deriving Repr, DecidableEq

namespace Phase2

variable {P ρ κ : Type}

/-- The verdict in a poll's result. -/
def verdictOf : Phase2Poll P ρ → Option (Verdict P)
  | .pending _ _ => none
  | .start _ _ peerset body _ => some (.start peerset body)
  | .abort _ _ _ => some .abort
  | .panic _ => some .panic

variable [PeerIdCodec P] [UnsignedVarint]

/-- The end of a run of polls, if it ends. -/
def outcome (localPeerId : P) (fresh : Nat) :
    Phase2Channel P ρ → List (Phase2Input P ρ) → Option (Verdict P)
  | _, [] => none
  | c, i :: is =>
      match c.poll localPeerId i.next i.now fresh with
      | .pending c' _ => outcome localPeerId fresh c' is
      | result => verdictOf result

/-- The timer's verdict. -/
def timer (deadline now : Nat) : Option (Verdict P) :=
  if deadline ≤ now then some .abort else none

/-- The verdict of a payload read as a start message. -/
def ofPayload (localPeerId : P) (payload : Bytes) : Verdict P :=
  match StartMsg.fromBytes payload localPeerId with
  | .ok startMsg => .start startMsg.peerset startMsg.body
  | .err _ => .abort
  | .panic _ => .panic

/-- What a poll decides. -/
def verdict (sessionId : SessionId) (deadline : Nat) (localPeerId : P)
    (i : Phase2Input P ρ) : Option (Verdict P) :=
  match i.next with
  | none => timer deadline i.now
  | some m =>
      match m.context.messageType with
      | .computation => timer deadline i.now
      | .coordination =>
          if m.context.sessionId = sessionId then some (ofPayload localPeerId m.payload)
          else none

omit [PeerIdCodec P] [UnsignedVarint] in
theorem checkTimeout_cases (c : Phase2Channel P ρ) (now fresh : Nat) (answers : Answers ρ) :
    (timer (P := P) c.timeout now = none ∧ c.checkTimeout now fresh answers = .pending c answers) ∨
    (timer (P := P) c.timeout now = some .abort ∧
      ∃ roomId phase1 answers',
        c.checkTimeout now fresh answers = .abort roomId phase1 answers') := by
  unfold timer Phase2Channel.checkTimeout
  by_cases h : c.timeout ≤ now
  · right
    simp only [h, if_true]
    exact ⟨trivial, _, _, _, rfl⟩
  · left
    simp only [h, if_false, and_self]

/-- The first coordination message decides. -/
theorem verdictOf_onCoordination (c : Phase2Channel P ρ) (localPeerId : P) (payload : Bytes)
    (fresh : Nat) :
    verdictOf (c.onCoordination localPeerId payload fresh)
      = some (ofPayload localPeerId payload) := by
  unfold Phase2Channel.onCoordination ofPayload
  cases StartMsg.fromBytes payload localPeerId with
  | ok startMsg => rfl
  | err e => rfl
  | panic why => rfl

/-- A poll decides what `verdict` says. When it decides nothing, the
channel goes on with the same session and the same timer. -/
theorem poll_cases (c : Phase2Channel P ρ) (localPeerId : P) (i : Phase2Input P ρ)
    (fresh : Nat) :
    (∃ c' answers, c.poll localPeerId i.next i.now fresh = .pending c' answers ∧
      c'.sessionId = c.sessionId ∧ c'.timeout = c.timeout ∧
      verdict c.sessionId c.timeout localPeerId i = none) ∨
    (∃ v, verdictOf (c.poll localPeerId i.next i.now fresh) = some v ∧
      verdict c.sessionId c.timeout localPeerId i = some v) := by
  rcases i with ⟨next, now⟩
  -- Every branch but the coordination ones ends in `checkTimeout`, on a
  -- channel whose session and timer are those of `c`.
  have timed : ∀ (c' : Phase2Channel P ρ) (answers : Answers ρ),
      c'.sessionId = c.sessionId → c'.timeout = c.timeout →
      (∃ c'' answers', c'.checkTimeout now fresh answers = .pending c'' answers' ∧
        c''.sessionId = c.sessionId ∧ c''.timeout = c.timeout ∧
        timer (P := P) c.timeout now = none) ∨
      (∃ v, verdictOf (c'.checkTimeout now fresh answers) = some v ∧
        timer (P := P) c.timeout now = some v) := by
    intro c' answers hs ht
    rcases checkTimeout_cases c' now fresh answers with ⟨hv, hp⟩ | ⟨hv, _, _, _, hp⟩
    · rw [ht] at hv
      exact .inl ⟨c', answers, hp, hs, ht, hv⟩
    · rw [ht] at hv
      exact .inr ⟨.abort, by rw [hp]; rfl, hv⟩
  cases next with
  | none => exact timed c [] rfl rfl
  | some m =>
      cases hm : m.context.messageType with
      | computation =>
          simp only [Phase2Channel.poll, verdict, hm]
          by_cases hs : m.context.sessionId = c.sessionId
          · simp only [hs, if_true]
            exact timed _ _ rfl rfl
          · simp only [hs, if_false]
            exact timed c _ rfl rfl
      | coordination =>
          simp only [Phase2Channel.poll, verdict, hm]
          by_cases hs : m.context.sessionId = c.sessionId
          · simp only [hs, ne_eq, not_true_eq_false, if_false, if_true]
            exact .inr ⟨_, verdictOf_onCoordination c localPeerId m.payload fresh, rfl⟩
          · simp only [hs, ne_eq, not_false_eq_true, if_true, if_false]
            exact .inl ⟨c, _, rfl, rfl, rfl, trivial⟩

/-- A run of phase 2 is decided by its first poll with a verdict. -/
theorem outcome_eq_findSome? (localPeerId : P) (fresh : Nat) (c : Phase2Channel P ρ)
    (is : List (Phase2Input P ρ)) :
    outcome localPeerId fresh c is
      = is.findSome? (verdict c.sessionId c.timeout localPeerId) := by
  induction is generalizing c with
  | nil => rfl
  | cons i is ih =>
      rw [List.findSome?_cons, outcome]
      rcases poll_cases c localPeerId i fresh with ⟨c', answers, hp, hs, ht, hv⟩ | ⟨v, hp, hv⟩
      · rw [hv, hp]
        show outcome localPeerId fresh c' is = _
        rw [ih c', hs, ht]
      · rw [hv]
        -- a poll with a verdict has returned
        cases hr : c.poll localPeerId i.next i.now fresh with
        | pending c' answers =>
            rw [hr] at hp
            cases hp
        | start roomId proxy peerset body sessionId => rw [hr] at hp; exact hp
        | abort roomId phase1 answers => rw [hr] at hp; exact hp
        | panic why => rw [hr] at hp; exact hp

end Phase2

section SingleProposer

variable {P ρ κ : Type} {localPeerId : P} {K : IncomingRequest P ρ → Nat → Prop}

/-- The poll, if it takes a message. -/
def Phase2Input.taken (i : Phase2Input P ρ) : List (Phase2Input P ρ) :=
  match i.next with
  | none => []
  | some _ => [i]

/-- The second input is the first with further messages, all of them
allowed by `K`. `Inserted K D waiting is js` is the relation behind some
poll: `waiting` are the polls of the first input whose messages have not
been taken in the second, and `D` allows the times at which they are. -/
inductive Inserted (K : IncomingRequest P ρ → Nat → Prop) (D : Nat → Prop) :
    List (Phase2Input P ρ) → List (Phase2Input P ρ) → List (Phase2Input P ρ) → Prop where
  | nil : Inserted K D [] [] []
  | keep (i : Phase2Input P ρ) {is js : List (Phase2Input P ρ)} :
      Inserted K D [] is js → Inserted K D [] (i :: is) (i :: js)
  /-- A further message has a poll of its own. -/
  | extra (m : IncomingRequest P ρ) (now : Nat) {waiting is js : List (Phase2Input P ρ)} :
      K m now → Inserted K D waiting is js → Inserted K D waiting is (⟨some m, now⟩ :: js)
  /-- A poll takes a further message instead of its own. -/
  | displace (m : IncomingRequest P ρ) (i : Phase2Input P ρ)
      {waiting is js : List (Phase2Input P ρ)} :
      K m i.now → Inserted K D (waiting ++ i.taken) is js →
      Inserted K D waiting (i :: is) (⟨some m, i.now⟩ :: js)
  /-- A poll takes the message that has waited longest instead of its own. -/
  | defer (m : IncomingRequest P ρ) (t : Nat) (i : Phase2Input P ρ)
      {waiting is js : List (Phase2Input P ρ)} :
      D i.now → Inserted K D (waiting ++ i.taken) is js →
      Inserted K D (⟨some m, t⟩ :: waiting) (i :: is) (⟨some m, i.now⟩ :: js)
  /-- The message that has waited longest has a poll of its own. -/
  | resume (m : IncomingRequest P ρ) (t now : Nat) {waiting is js : List (Phase2Input P ρ)} :
      D now → Inserted K D waiting is js →
      Inserted K D (⟨some m, t⟩ :: waiting) is (⟨some m, now⟩ :: js)

/-- Every message of the input is the proposer's or allowed by `K`. -/
def From (p : P) (K : IncomingRequest P ρ → Nat → Prop) (is : List (Phase2Input P ρ)) : Prop :=
  ∀ i ∈ is, ∀ m, i.next = some m → m.peerId = p ∨ K m i.now

variable [PeerIdCodec P] [UnsignedVarint]

/-- The end of phase 2 is decided by `p` and the timer, whatever
messages allowed by `K` come in, if what they keep waiting is taken at the
times that `D` allows. -/
structure DecidedBy (p localPeerId : P) (fresh : Nat) (c : Phase2Channel P ρ)
    (K : IncomingRequest P ρ → Nat → Prop) (D : Nat → Prop) : Prop where
  unchanged : ∀ is js, Inserted K D [] is js →
    Phase2.outcome localPeerId fresh c js = Phase2.outcome localPeerId fresh c is
  start : ∀ is peerset body, From p K is →
    Phase2.outcome localPeerId fresh c is = some (.start peerset body) →
    ∃ i ∈ is, ∃ m, i.next = some m ∧ m.peerId = p ∧
      StartMsg.fromBytes m.payload localPeerId = .ok ⟨peerset, body⟩
  abort : ∀ is, From p K is → Phase2.outcome localPeerId fresh c is = some .abort →
    ∃ i ∈ is, c.timeout ≤ i.now ∨ ∃ m, i.next = some m ∧ m.peerId = p

/-- A message that leaves the decision with the proposer and the
timer when it is taken at time `now`: the timer runs, and it is a
computation message or a message of another session. -/
def Harmless (sessionId : SessionId) (deadline : Nat) (m : IncomingRequest P ρ)
    (now : Nat) : Prop :=
  now < deadline ∧
    (m.context.messageType = .computation ∨ m.context.sessionId ≠ sessionId)

namespace Phase2

variable {sessionId : SessionId} {deadline : Nat}

/-- A harmless message decides nothing. -/
theorem verdict_of_harmless {now : Nat} {m : IncomingRequest P ρ}
    (h : Harmless sessionId deadline m now) :
    verdict sessionId deadline localPeerId ⟨some m, now⟩ = none := by
  obtain ⟨hearly, hm⟩ := h
  have htimer : timer (P := P) deadline now = none := if_neg (Nat.not_le.mpr hearly)
  cases htype : m.context.messageType with
  | computation => simp only [verdict, htype, htimer]
  | coordination =>
      have hne := hm.resolve_left (by rw [htype]; exact nofun)
      simp only [verdict, htype, if_neg hne]

/-- While the timer runs, a verdict does not depend on the time. -/
theorem verdict_of_early {t now : Nat} (m : IncomingRequest P ρ) (ht : t < deadline)
    (hnow : now < deadline) :
    verdict sessionId deadline localPeerId ⟨some m, now⟩
      = verdict sessionId deadline localPeerId ⟨some m, t⟩ := by
  simp only [verdict, timer, if_neg (Nat.not_le.mpr ht), if_neg (Nat.not_le.mpr hnow)]

/-- A poll that takes no message decides nothing while the timer runs. -/
theorem findSome?_taken {i : Phase2Input P ρ} (hnow : i.now < deadline)
    (waiting is : List (Phase2Input P ρ)) :
    (waiting ++ i.taken ++ is).findSome? (verdict sessionId deadline localPeerId)
      = (waiting ++ i :: is).findSome? (verdict sessionId deadline localPeerId) := by
  rcases i with ⟨next, now⟩
  cases next with
  | none =>
      have hidle : verdict sessionId deadline localPeerId (⟨none, now⟩ : Phase2Input P ρ) = none :=
        if_neg (Nat.not_le.mpr hnow)
      simp only [Phase2Input.taken, List.append_nil, List.findSome?_append, List.findSome?_cons,
        hidle]
  | some m => simp only [Phase2Input.taken, List.append_assoc, List.singleton_append]

/-- Harmless messages change no run. What waits was displaced while the
timer was running, so it has its verdict whenever it is taken. -/
theorem findSome?_inserted {D : Nat → Prop}
    (hK : ∀ m now, K m now → Harmless sessionId deadline m now)
    (hD : (∃ m now, K m now) → ∀ now, D now → now < deadline)
    {waiting is js : List (Phase2Input P ρ)} (h : Inserted K D waiting is js)
    (hsome : waiting ≠ [] → ∃ m now, K m now) (hwaiting : ∀ i ∈ waiting, i.now < deadline) :
    js.findSome? (verdict sessionId deadline localPeerId)
      = (waiting ++ is).findSome? (verdict sessionId deadline localPeerId) := by
  have hearlier : ∀ {waiting : List (Phase2Input P ρ)} {i : Phase2Input P ρ},
      (∀ j ∈ waiting, j.now < deadline) → i.now < deadline →
      ∀ j ∈ waiting ++ i.taken, j.now < deadline := by
    intro waiting i hwaiting hnow j hj
    rcases List.mem_append.mp hj with hj | hj
    · exact hwaiting j hj
    · unfold Phase2Input.taken at hj
      split at hj
      · cases hj
      · rw [List.mem_singleton.mp hj]
        exact hnow
  -- what waits has been taken before the deadline, so its verdict does not depend on the
  -- time
  induction h with
  | nil => rfl
  | keep i _ ih =>
      rw [List.nil_append, List.findSome?_cons, List.findSome?_cons, ih nofun nofun,
        List.nil_append]
  | extra m now hm _ ih =>
      rw [List.findSome?_cons, verdict_of_harmless (hK m now hm)]
      exact ih hsome hwaiting
  | @displace m i waiting is js hm _ ih =>
      have hnow := (hK m i.now hm).1
      rw [List.findSome?_cons, verdict_of_harmless (hK m i.now hm)]
      exact (ih (fun _ => ⟨m, _, hm⟩) (hearlier hwaiting hnow)).trans (findSome?_taken hnow _ _)
  | @defer m t i waiting is js hd _ ih =>
      obtain ⟨hfirst, hrest⟩ := List.forall_mem_cons.mp hwaiting
      have hnow := hD (hsome nofun) i.now hd
      rw [List.findSome?_cons, List.cons_append, List.findSome?_cons,
        verdict_of_early m hfirst hnow, ih (fun _ => hsome nofun) (hearlier hrest hnow),
        findSome?_taken hnow]
  | @resume m t now waiting is js hd _ ih =>
      obtain ⟨hfirst, hrest⟩ := List.forall_mem_cons.mp hwaiting
      rw [List.findSome?_cons, List.cons_append, List.findSome?_cons,
        verdict_of_early m hfirst (hD (hsome nofun) now hd), ih (fun _ => hsome nofun) hrest]

/-- A verdict comes from the timer, or from a coordination message of
the session. -/
theorem verdict_eq_some {i : Phase2Input P ρ} {v : Verdict P}
    (h : verdict sessionId deadline localPeerId i = some v) :
    (deadline ≤ i.now ∧ v = .abort) ∨
    ∃ m, i.next = some m ∧ m.context.messageType = .coordination ∧
      m.context.sessionId = sessionId ∧ v = ofPayload localPeerId m.payload := by
  have timed : timer (P := P) deadline i.now = some v → deadline ≤ i.now ∧ v = .abort := by
    intro ht
    unfold timer at ht
    by_cases hd : deadline ≤ i.now
    · rw [if_pos hd] at ht
      exact ⟨hd, (Option.some.inj ht).symm⟩
    · rw [if_neg hd] at ht
      cases ht
  cases hn : i.next with
  | none =>
      simp only [verdict, hn] at h
      exact .inl (timed h)
  | some m =>
      cases hm : m.context.messageType with
      | computation =>
          simp only [verdict, hn, hm] at h
          exact .inl (timed h)
      | coordination =>
          simp only [verdict, hn, hm] at h
          by_cases hs : m.context.sessionId = sessionId
          · simp only [hs, if_true, Option.some.injEq] at h
            exact .inr ⟨m, rfl, hm, hs, h.symm⟩
          · simp only [hs, if_false] at h
            cases h

theorem fromBytes_of_ofPayload {payload : Bytes} {peerset : Peerset P} {body : Bytes}
    (h : ofPayload localPeerId payload = .start peerset body) :
    StartMsg.fromBytes payload localPeerId = .ok ⟨peerset, body⟩ := by
  unfold ofPayload at h
  cases hd : StartMsg.fromBytes payload localPeerId with
  | ok startMsg =>
      rw [hd] at h
      cases h
      rfl
  | err e => rw [hd] at h; cases h
  | panic why => rw [hd] at h; cases h

end Phase2

/-- The poll with the verdict of a run in which everyone but `p` sends
harmless messages only: the timer's, or one that takes a message of
`p`. -/
theorem decider_of_harmless {p : P} {fresh : Nat} {c : Phase2Channel P ρ}
    (hK : ∀ m now, K m now → Harmless c.sessionId c.timeout m now) {is : List (Phase2Input P ρ)}
    (hfrom : From p K is) {v : Verdict P} (h : Phase2.outcome localPeerId fresh c is = some v) :
    ∃ i ∈ is, (c.timeout ≤ i.now ∧ v = .abort) ∨
      ∃ m, i.next = some m ∧ m.peerId = p ∧ v = Phase2.ofPayload localPeerId m.payload := by
  rw [Phase2.outcome_eq_findSome?] at h
  obtain ⟨i, hi, hv⟩ := List.exists_of_findSome?_eq_some h
  refine ⟨i, hi, ?_⟩
  rcases Phase2.verdict_eq_some hv with ht | ⟨m, hn, hm, hs, hp⟩
  · exact .inl ht
  · rcases hfrom i hi m hn with hfrom | hfrom
    · exact .inr ⟨m, hn, hfrom, hp⟩
    · -- another peer's message is no coordination message of the session
      rcases (hK m i.now hfrom).2 with hc | hne
      · rw [hm] at hc
        cases hc
      · exact absurd hs hne

/-- If all the messages are harmless, the proposer and the timer decide. -/
theorem decidedBy_of_harmless {p : P} {fresh : Nat} {c : Phase2Channel P ρ} {D : Nat → Prop}
    (hK : ∀ m now, K m now → Harmless c.sessionId c.timeout m now)
    (hD : (∃ m now, K m now) → ∀ now, D now → now < c.timeout) :
    DecidedBy p localPeerId fresh c K D where
  unchanged is js h := by
    rw [Phase2.outcome_eq_findSome?, Phase2.outcome_eq_findSome?]
    exact Phase2.findSome?_inserted hK hD h (fun hnil => absurd rfl hnil) nofun
  start is peerset body hfrom h := by
    obtain ⟨i, hi, hd⟩ := decider_of_harmless hK hfrom h
    rcases hd with ⟨_, hv⟩ | ⟨m, hn, hp, hv⟩
    · cases hv
    · exact ⟨i, hi, m, hn, hp, Phase2.fromBytes_of_ofPayload hv.symm⟩
  abort is hfrom h := by
    obtain ⟨i, hi, hd⟩ := decider_of_harmless hK hfrom h
    rcases hd with ⟨ht, _⟩ | ⟨m, hn, hp, _⟩
    · exact ⟨i, hi, .inl ht⟩
    · exact ⟨i, hi, .inr ⟨m, hn, hp⟩⟩

section Unchanged

variable {localPeerId : P} {fresh : Nat} {c : Phase2Channel P ρ}
  {K : IncomingRequest P ρ → Nat → Prop} {D : Nat → Prop}
  (h : ∀ is js, Inserted K D [] is js →
    Phase2.outcome localPeerId fresh c js = Phase2.outcome localPeerId fresh c is)

include h

/-- A harmful message changes a run of one poll. -/
theorem harmless_of_unchanged (m : IncomingRequest P ρ) (now : Nat) (hm : K m now) :
    Harmless c.sessionId c.timeout m now := by
  -- a poll of its own decides nothing, as no poll does
  have hown := h _ _ (.extra m now hm .nil)
  simp only [Phase2.outcome_eq_findSome?, List.findSome?_cons, List.findSome?_nil,
    Phase2.verdict] at hown
  cases htype : m.context.messageType with
  | computation =>
      simp only [htype, Phase2.timer] at hown
      refine ⟨?_, .inl htype⟩
      by_contra hlate
      rw [if_pos (Nat.not_lt.mp hlate)] at hown
      cases hown
  | coordination =>
      simp only [htype] at hown
      have hne : m.context.sessionId ≠ c.sessionId := by
        intro heq
        rw [if_pos heq] at hown
        cases hown
      refine ⟨?_, .inr hne⟩
      by_contra hlate
      -- without the message an idle poll looks at the timer, with it no poll does
      have hidle := h _ _ (.displace m ⟨none, now⟩ hm .nil)
      simp only [Phase2.outcome_eq_findSome?, List.findSome?_cons, List.findSome?_nil,
        Phase2.verdict, htype, if_neg hne, Phase2.timer, if_pos (Nat.not_lt.mp hlate)] at hidle
      cases hidle

/-- What waits must not be taken after the timer has run out: a computation
message would abort, and did not when it was due. -/
theorem early_of_unchanged (hsome : ∃ m now, K m now) (now : Nat) (hd : D now) :
    now < c.timeout := by
  obtain ⟨m, t, hm⟩ := hsome
  obtain ⟨hearly, hkind⟩ := harmless_of_unchanged h m t hm
  by_contra hlate
  let own : IncomingRequest P ρ :=
    { m with context := { m.context with messageType := .computation } }
  have hrun := h _ _ (.displace m ⟨some own, t⟩ hm (.resume own t now hd .nil))
  have hfirst : Phase2.verdict c.sessionId c.timeout localPeerId ⟨some m, t⟩ = none :=
    Phase2.verdict_of_harmless ⟨hearly, hkind⟩
  simp only [Phase2.outcome_eq_findSome?, List.findSome?_cons, List.findSome?_nil, hfirst] at hrun
  simp only [Phase2.verdict, own, Phase2.timer, if_pos (Nat.not_lt.mp hlate),
    if_neg (Nat.not_le.mpr hearly)] at hrun
  cases hrun

end Unchanged

/-- A proposal `m₀` opens a `Phase2Channel`. Whatever messages beside
the proposer's are allowed to come in, the channel's end is decided by
the proposer and the timer if and only if all of them are harmless, and
what they keep waiting is taken before the timer has run out. -/
theorem decidedBy_iff (c₁ : Phase1Channel P ρ) (localPeerId : P)
    (request : TryRecv (LocalRpcMsg κ)) (drawn : SessionId) (opened fresh : Nat)
    (m₀ : IncomingRequest P ρ) (hm₀ : m₀.context.messageType = .coordination)
    (K : IncomingRequest P ρ → Nat → Prop) (D : Nat → Prop) :
    ∃ c : Phase2Channel P ρ,
      c₁.poll localPeerId (some m₀) request drawn opened
        = .fromRemote m₀.peerId m₀.context.protocolId m₀.payload m₀.pendingResponse c ∧
      (DecidedBy m₀.peerId localPeerId fresh c K D ↔
        (∀ m now, K m now →
          Harmless m₀.context.sessionId (opened + phase2Timeout) m now) ∧
        ((∃ m now, K m now) → ∀ now, D now → now < opened + phase2Timeout)) := by
  refine ⟨{ id := c₁.id, sessionId := m₀.context.sessionId, rx := c₁.rx,
            buffered := c₁.buffered, timeout := opened + phase2Timeout }, ?_, ?_, ?_⟩
  · simp only [Phase1Channel.poll, hm₀]
  · intro h
    exact ⟨harmless_of_unchanged h.unchanged, early_of_unchanged h.unchanged⟩
  · intro h
    exact decidedBy_of_harmless h.1 h.2

end SingleProposer

section Forged

/-- A proposal of the first peer. -/
def firstProposal : IncomingRequest Ed25519PeerId Nat where
  context :=
    { messageType := .coordination, protocolId := 1, sessionId := noSessionId, messageId := 0 }
  peerId := .ofByte 1
  isBroadcast := true
  peerIndex := 0
  payload := []
  pendingResponse := 0

/-- Computation messages of other peers leave the decision with the
first peer, while the timer runs. -/
theorem decidedBy_computation :
    ∃ c : Phase2Channel Ed25519PeerId Nat,
      (Phase1Channel.new ⟨"room"⟩ 0 0).poll (.ofByte 2) (some firstProposal)
          (.empty : TryRecv (LocalRpcMsg Nat)) noSessionId 0
        = .fromRemote (.ofByte 1) 1 [] 0 c ∧
      DecidedBy (.ofByte 1) (.ofByte 2) 0 c
        (fun m now => m.peerId ≠ .ofByte 1 ∧ m.context.messageType = .computation ∧
          now < phase2Timeout) (· < phase2Timeout) := by
  obtain ⟨c, hc, hiff⟩ :=
    decidedBy_iff (Phase1Channel.new ⟨"room"⟩ 0 0) (.ofByte 2)
      (.empty : TryRecv (LocalRpcMsg Nat)) noSessionId 0 0 firstProposal rfl
      (fun m now => m.peerId ≠ .ofByte 1 ∧ m.context.messageType = .computation ∧
        now < phase2Timeout) (· < phase2Timeout)
  rw [Nat.zero_add] at hiff
  exact ⟨c, hc, hiff.mpr ⟨fun m now h => ⟨h.2.2, .inl h.2.1⟩, fun _ _ h => h⟩⟩

/-- The channel the second peer opens on the first peer's proposal. -/
def secondPhase2 : Phase2Channel Ed25519PeerId Nat where
  id := ⟨"room"⟩
  sessionId := noSessionId
  rx := 0
  buffered := []
  timeout := phase2Timeout

/-- The peerset a third peer makes up. -/
def forgedPeerset : Peerset Ed25519PeerId where
  localPeerId := .ofByte 2
  peers := [.ofByte 2, .ofByte 3]
  parties := [0, 1]

/-- A start message for the first peer's session, sent by the third. -/
def forgedStart : IncomingRequest Ed25519PeerId Nat where
  context := firstProposal.context
  peerId := .ofByte 3
  isBroadcast := true
  peerIndex := 0
  payload := StartMsg.toBytes { peerset := forgedPeerset, body := [7] }
  pendingResponse := 1

/-- One message of the third peer starts the session the first peer
proposed, with the third peer's peerset and body. Without that message
the channel waits. -/
theorem not_decidedBy_forgedStart :
    (Phase1Channel.new ⟨"room"⟩ 0 0).poll (.ofByte 2) (some firstProposal)
        (.empty : TryRecv (LocalRpcMsg Nat)) noSessionId 0
      = .fromRemote (.ofByte 1) 1 [] 0 secondPhase2 ∧
    Phase2.outcome (.ofByte 2) 0 secondPhase2 [] = none ∧
    Phase2.outcome (.ofByte 2) 0 secondPhase2 [⟨some forgedStart, 1⟩]
      = some (.start forgedPeerset [7]) ∧
    ¬ DecidedBy (.ofByte 1) (.ofByte 2) 0 secondPhase2 (fun m _ => m.peerId ≠ .ofByte 1)
      (fun _ => True) := by
  have hforged : Phase2.outcome (.ofByte 2) 0 secondPhase2 [⟨some forgedStart, 1⟩]
      = some (.start forgedPeerset [7]) := by decide +kernel
  refine ⟨rfl, rfl, hforged, fun h => ?_⟩
  have hsame := h.unchanged [] [⟨some forgedStart, 1⟩]
    (.extra forgedStart 1 (by decide) .nil)
  rw [hforged] at hsame
  cases hsame

end Forged

end FrostMpcTss.Proofs
