import FrostMpcTss.Lib.Except
import FrostMpcTss.Proofs.AgentRuns
import FrostMpcTss.Proofs.Gathering
import FrostMpcTss.Tss.KeyGen

/-!
# `FrostMpcTss.Proofs.DkgOrder`: the order of the messages does not matter to key generation

Each other party sends a broadcast with its package of the first round and
a direct message with its package of the second one. A direct message may
come before any broadcast. The agent then sets it aside and looks at it
again before it goes back to its channel.

`BroadcastsGathered` and `DirectsGathered` say what the maps of the two
loops hold after some requests. `collects_dkg` follows the agent with them
through both loops and the sending in between, and `dkg_orderIndependent`
states the outcome: `part2` and `part3` are called with the packages of all
other parties, whatever the order.
-/

set_option autoImplicit false

namespace FrostMpcTss.Proofs

open Lib Network Service FrostMpcTss.Session
open Tss Tss.KeyGen

variable {A B : Type} {id : Nat} {req : AgentRequest} {s : Round1 A} {acc : Round2 B}

/-- The other parties. -/
def otherParties (p : DkgSession A B) : List Nat :=
  (List.range' 1 p.maxSigners).filter (· ≠ p.identifier)

/-- The agent is one of the parties. -/
def IsParty (p : DkgSession A B) : Prop := 1 ≤ p.identifier ∧ p.identifier ≤ p.maxSigners

section Parties

variable {p : DkgSession A B}

theorem mem_range'_parties : id ∈ List.range' 1 p.maxSigners ↔ 1 ≤ id ∧ id ≤ p.maxSigners := by
  rw [List.mem_range'_1]
  omega

theorem mem_otherParties :
    id ∈ otherParties p ↔ (1 ≤ id ∧ id ≤ p.maxSigners) ∧ id ≠ p.identifier := by
  rw [otherParties, List.mem_filter, mem_range'_parties, decide_eq_true_iff]

theorem parties_otherParties (p : DkgSession A B) :
    Parties p.identifier (otherParties p) :=
  parties_filter List.nodup_range' p.identifier

/-- There is one other party for each number but the own. -/
theorem IsParty.length (h : IsParty p) : p.maxSigners = (otherParties p).length + 1 := by
  have hlength := length_filter_ne (List.nodup_range' (s := 1) (n := p.maxSigners))
    (mem_range'_parties.mpr h)
  rwa [List.length_range'] at hlength

theorem expects_of_mem (hid : id ∈ otherParties p) : expects p id = true := by
  obtain ⟨⟨hpos, hle⟩, _⟩ := mem_otherParties.mp hid
  rw [expects, decide_eq_true hpos, decide_eq_true hle]
  rfl

theorem ne_zero_of_mem (hid : id ∈ otherParties p) : id ≠ 0 :=
  Nat.one_le_iff_ne_zero.mp (mem_otherParties.mp hid).1.1

end Parties

section Messages

variable [DagCbor] [DkgCodec A B]

/-- The two messages of a party, as they reach the agent. -/
structure PartyMessages (p : DkgSession A B) (id : Nat) where
  round1 : A
  round2 : B
  broadcast : AgentRequest
  direct : AgentRequest
  sender_broadcast : broadcast.sender = id
  sender_direct : direct.sender = id
  recipient_broadcast : broadcast.recipient = none
  recipient_direct : direct.recipient = some p.identifier
  encodes_round1 : ∃ bytes, DkgCodec.serializeRound1 B round1 = .ok bytes ∧
    DagCbor.toVec bytes = .ok broadcast.payload
  encodes_round2 : ∃ bytes, DkgCodec.serializeRound2 A round2 = .ok bytes ∧
    DagCbor.toVec bytes = .ok direct.payload

variable {p : DkgSession A B} (msgs : ∀ id, PartyMessages p id)

/-- The messages of all other parties. -/
def partyRequests : List AgentRequest :=
  (otherParties p).flatMap fun id => [(msgs id).broadcast, (msgs id).direct]

/-- The packages of the first round, the own one or none under the own
identifier. -/
def round1Of (mine : Option A) (id : Nat) : Option A :=
  complete p.identifier (otherParties p) mine (fun id => (msgs id).round1) id

/-- The packages of the second round. -/
def round2Of (id : Nat) : Option B :=
  complete p.identifier (otherParties p) none (fun id => (msgs id).round2) id

/-- The packages of the first round known after some requests. -/
def knownRound1 (mine : Option A) (taken : List AgentRequest) (id : Nat) : Option A :=
  known p.identifier (otherParties p) mine (fun id => (msgs id).round1)
    (fun id => (msgs id).broadcast) taken id

/-- The packages of the second round known after some requests. -/
def knownRound2 (taken : List AgentRequest) (id : Nat) : Option B :=
  known p.identifier (otherParties p) none (fun id => (msgs id).round2)
    (fun id => (msgs id).direct) taken id

/-- Each party sends a broadcast and a direct message. -/
theorem mem_partyRequests :
    req ∈ partyRequests msgs ↔ ∃ id ∈ otherParties p,
      req = (msgs id).broadcast ∨ req = (msgs id).direct := by
  simp [partyRequests]

theorem broadcast_eq_iff (id key : Nat) :
    (msgs key).broadcast = (msgs id).broadcast ↔ key = id := by
  refine ⟨fun heq => ?_, fun h => by rw [h]⟩
  rw [← (msgs key).sender_broadcast, heq, (msgs id).sender_broadcast]

theorem direct_eq_iff (id key : Nat) : (msgs key).direct = (msgs id).direct ↔ key = id := by
  refine ⟨fun heq => ?_, fun h => by rw [h]⟩
  rw [← (msgs key).sender_direct, heq, (msgs id).sender_direct]

theorem broadcast_ne_direct (id key : Nat) : (msgs key).broadcast ≠ (msgs id).direct := by
  intro heq
  have hrecipient := congrArg AgentRequest.recipient heq
  rw [(msgs key).recipient_broadcast, (msgs id).recipient_direct] at hrecipient
  cases hrecipient

/-! ### What a message adds -/

theorem knownRound1_broadcast (hid : id ∈ otherParties p) (mine : Option A)
    (taken : List AgentRequest) (key : Nat) :
    knownRound1 msgs mine (taken ++ [(msgs id).broadcast]) key
      = if key = id then some (msgs id).round1 else knownRound1 msgs mine taken key :=
  known_append (parties_otherParties p) hid (fun key _ => broadcast_eq_iff msgs id key) key

theorem knownRound1_direct (id : Nat) (mine : Option A) (taken : List AgentRequest)
    (key : Nat) :
    knownRound1 msgs mine (taken ++ [(msgs id).direct]) key = knownRound1 msgs mine taken key :=
  known_append_of_ne (fun key _ => broadcast_ne_direct msgs id key) key

theorem knownRound2_direct (hid : id ∈ otherParties p) (taken : List AgentRequest) (key : Nat) :
    knownRound2 msgs (taken ++ [(msgs id).direct]) key
      = if key = id then some (msgs id).round2 else knownRound2 msgs taken key :=
  known_append (parties_otherParties p) hid (fun key _ => direct_eq_iff msgs id key) key

/-- A message that comes again adds nothing. -/
theorem knownRound2_again (hid : id ∈ otherParties p) {taken : List AgentRequest}
    (h : (knownRound2 msgs taken id).isSome = true) (key : Nat) :
    knownRound2 msgs (taken ++ [(msgs id).direct]) key = knownRound2 msgs taken key :=
  known_append_of_isSome (parties_otherParties p) hid
    (fun key _ => direct_eq_iff msgs id key) h key

theorem knownRound2_broadcast (id : Nat) (taken : List AgentRequest) (key : Nat) :
    knownRound2 msgs (taken ++ [(msgs id).broadcast]) key = knownRound2 msgs taken key :=
  known_append_of_ne (fun key _ => (broadcast_ne_direct msgs key id).symm) key

/-! ### What the agent does with a message -/

variable [Identifiers]

/-- Round 1 defers a direct message that comes early. -/
theorem takeRound1_direct (s : Round1 A) (id : Nat) :
    takeRound1 p s (msgs id).direct
      = .ok { s with
          deferredRound2Requests := s.deferredRound2Requests ++ [(msgs id).direct] } := by
  rw [takeRound1, (msgs id).recipient_direct]
  rfl

/-- Round 2 ignores broadcasts. -/
theorem takeRound2_broadcast (acc : Round2 B) (id : Nat) :
    takeRound2 p acc (msgs id).broadcast = .ok acc := by
  rw [takeRound2, (msgs id).recipient_broadcast]
  rfl

variable [LawfulIdentifiers] [LawfulDagCbor]

/-- Round 1 stores the package of a party. -/
theorem takeRound1_broadcast [LawfulRound1Codec A B] (hid : id ∈ otherParties p) (s : Round1 A) :
    takeRound1 p s (msgs id).broadcast
      = .ok { s with
          packagesAll := s.packagesAll.insert id (msgs id).round1
          packagesForPart2 := s.packagesForPart2.insert id (msgs id).round1 } := by
  obtain ⟨bytes, hserialize, hencode⟩ := (msgs id).encodes_round1
  have hpayload := LawfulDagCbor.fromSlice_toVec _ _ hencode
  have hpackage := LawfulRound1Codec.deserializeRound1_serializeRound1 _ _ hserialize
  have hsender : Identifiers.tryFrom (msgs id).broadcast.sender = .ok id := by
    rw [(msgs id).sender_broadcast]
    exact LawfulIdentifiers.tryFrom_of_ne id (ne_zero_of_mem hid)
  have hne : id ≠ p.identifier := (mem_otherParties.mp hid).2
  simp only [takeRound1, (msgs id).recipient_broadcast, hpayload, hpackage, hsender, mapErr,
    Lib.Except.ok_bind, expects_of_mem hid, if_pos hne]
  rfl

/-- Round 2 stores the package of a party once. -/
theorem takeRound2_direct [LawfulDkgCodec A B] (hid : id ∈ otherParties p) (acc : Round2 B) :
    takeRound2 p acc (msgs id).direct
      = .ok (if acc.receivedSenders.contains id then acc
          else
            { packages := acc.packages.insert id (msgs id).round2
              receivedSenders := acc.receivedSenders.insert id }) := by
  obtain ⟨bytes, hserialize, hencode⟩ := (msgs id).encodes_round2
  have hpayload := LawfulDagCbor.fromSlice_toVec _ _ hencode
  have hpackage := LawfulDkgCodec.deserializeRound2_serializeRound2 _ _ hserialize
  have hsender : Identifiers.tryFrom (msgs id).direct.sender = .ok id := by
    rw [(msgs id).sender_direct]
    exact LawfulIdentifiers.tryFrom_of_ne id (ne_zero_of_mem hid)
  rw [takeRound2, (msgs id).recipient_direct, if_neg (fun h => h rfl), hsender]
  simp only [mapErr, Lib.Except.ok_bind, hpayload, hpackage]
  split <;> rfl

end Messages

section Loops

variable [DagCbor] [DkgCodec A B] {p : DkgSession A B} {own : A}
  {msgs : ∀ id, PartyMessages p id} {taken : List AgentRequest}

/-- The first loop after some requests. -/
structure BroadcastsGathered (own : A) (msgs : ∀ id, PartyMessages p id)
    (taken : List AgentRequest) (s : Round1 A) : Prop where
  all : ∀ id, s.packagesAll[id]? = knownRound1 msgs (some own) taken id
  forPart2 : ∀ id, s.packagesForPart2[id]? = knownRound1 msgs none taken id
  deferred : s.deferredRound2Requests = taken.filter (·.recipient.isSome)

/-- The second loop after some requests. -/
structure DirectsGathered (msgs : ∀ id, PartyMessages p id) (taken : List AgentRequest)
    (acc : Round2 B) : Prop where
  packages : ∀ id, acc.packages[id]? = knownRound2 msgs taken id
  received : ∀ id, acc.receivedSenders.contains id = (knownRound2 msgs taken id).isSome

theorem broadcastsGathered_new : BroadcastsGathered own msgs [] (.new p own) := by
  refine ⟨fun id => ?_, fun id => ?_, rfl⟩
  · rw [Round1.new, getElem?_insert_eq, knownRound1, known_nil]
    simp
  · rw [Round1.new, knownRound1, known_nil]
    simp

theorem directsGathered_new : DirectsGathered msgs [] { packages := ∅, receivedSenders := ∅ } := by
  refine ⟨fun id => ?_, fun id => ?_⟩
  · rw [knownRound2, known_nil]
    simp
  · rw [knownRound2, known_nil]
    simp

/-- The first loop needs a broadcast. -/
theorem needsRound1_iff (hp : IsParty p) (h : BroadcastsGathered own msgs taken s) :
    needsRound1 p s = true ↔ ∃ id ∈ otherParties p, (msgs id).broadcast ∉ taken := by
  rw [needsRound1, decide_eq_true_iff, hp.length]
  exact mapSize_known_lt_iff (parties_otherParties p) h.all

/-- The second loop needs a direct message. -/
theorem needsRound2_iff (hp : IsParty p) (h : DirectsGathered msgs taken acc) :
    needsRound2 p acc = true ↔ ∃ id ∈ otherParties p, (msgs id).direct ∉ taken := by
  rw [needsRound2, decide_eq_true_iff, hp.length, Nat.add_sub_cancel]
  exact mapSize_known_lt_iff (parties_otherParties p) h.packages

/-- A complete round 1 has every package. -/
theorem round1_of_done (hp : IsParty p) (h : BroadcastsGathered own msgs taken s)
    (hdone : needsRound1 p s = false) (mine : Option A) (id : Nat) :
    knownRound1 msgs mine taken id = round1Of msgs mine id := by
  refine known_eq_complete (fun id hid => ?_) id
  by_contra hmissing
  rw [(needsRound1_iff hp h).mpr ⟨id, hid, hmissing⟩] at hdone
  cases hdone

/-- A complete round 2 has every package. -/
theorem round2_of_done (hp : IsParty p) (h : DirectsGathered msgs taken acc)
    (hdone : needsRound2 p acc = false) (id : Nat) : acc.packages[id]? = round2Of msgs id := by
  rw [h.packages]
  refine known_eq_complete (fun id hid => ?_) id
  by_contra hmissing
  rw [(needsRound2_iff hp h).mpr ⟨id, hid, hmissing⟩] at hdone
  cases hdone

variable [Identifiers] [LawfulIdentifiers] [LawfulDagCbor]

/-- A turn of the first loop. -/
theorem broadcastsGathered_take [LawfulRound1Codec A B] (h : BroadcastsGathered own msgs taken s)
    (hreq : req ∈ partyRequests msgs) :
    ∃ s', takeRound1 p s req = .ok s' ∧ BroadcastsGathered own msgs (taken ++ [req]) s' := by
  obtain ⟨id, hid, rfl | rfl⟩ := (mem_partyRequests msgs).mp hreq
  · refine ⟨_, takeRound1_broadcast msgs hid s, fun key => ?_, fun key => ?_, ?_⟩
    · rw [getElem?_insert_eq, h.all, knownRound1_broadcast msgs hid]
    · rw [getElem?_insert_eq, h.forPart2, knownRound1_broadcast msgs hid]
    · rw [List.filter_append, List.filter_singleton, (msgs id).recipient_broadcast]
      simpa using h.deferred
  · refine ⟨_, takeRound1_direct msgs s id, fun key => ?_, fun key => ?_, ?_⟩
    · rw [knownRound1_direct]
      exact h.all key
    · rw [knownRound1_direct]
      exact h.forPart2 key
    · rw [List.filter_append, List.filter_singleton, (msgs id).recipient_direct, h.deferred]
      rfl

/-- A turn of the second loop. -/
theorem directsGathered_take [LawfulDkgCodec A B] (h : DirectsGathered msgs taken acc)
    (hreq : req ∈ partyRequests msgs) :
    ∃ acc', takeRound2 p acc req = .ok acc' ∧ DirectsGathered msgs (taken ++ [req]) acc' := by
  obtain ⟨id, hid, rfl | rfl⟩ := (mem_partyRequests msgs).mp hreq
  · refine ⟨_, takeRound2_broadcast msgs acc id, fun key => ?_, fun key => ?_⟩
    · rw [knownRound2_broadcast]
      exact h.packages key
    · rw [knownRound2_broadcast]
      exact h.received key
  · refine ⟨_, takeRound2_direct msgs hid acc, ?_⟩
    split
    · rename_i hcontains
      rw [h.received] at hcontains
      have hsame := knownRound2_again msgs hid hcontains
      exact ⟨fun key => by rw [hsame, h.packages], fun key => by rw [hsame, h.received]⟩
    · have hadd := knownRound2_direct msgs hid taken
      refine ⟨fun key => ?_, fun key => ?_⟩
      · rw [getElem?_insert_eq, hadd, h.packages]
      · rw [contains_insert_eq, hadd, h.received]
        by_cases hkey : key = id <;> simp [hkey]

end Loops

section Sending

variable [DagCbor] [DkgCodec A B] {p : DkgSession A B} {own : A}
  {msgs : ∀ id, PartyMessages p id} {taken : List AgentRequest}

/-- The loop over the packages fails at a message, or it stops at the end or
when there is no more room. -/
theorem sendRound2_cases (p : DkgSession A B) (room : Nat) (todo : List (Nat × B)) :
    (∃ messages e package, sendRound2 p room todo = (messages, .error e) ∧ package ∈ todo ∧
      round2Message p package = .error e) ∨
    ∃ messages done left, sendRound2 p room todo = (messages, .ok left) ∧ todo = done ++ left ∧
      messages.length = done.length ∧ (left = [] ∨ done.length = room) := by
  -- every package that is sent takes one place of the room
  induction todo generalizing room with
  | nil =>
      refine .inr ⟨[], [], [], ?_, rfl, rfl, .inl rfl⟩
      rw [sendRound2]
  | cons package todo ih =>
      cases hmessage : round2Message p package with
      | error e =>
          refine .inl ⟨[], e, package, ?_, List.mem_cons_self, hmessage⟩
          simp only [sendRound2, hmessage]
      | ok message =>
          cases room with
          | zero =>
              refine .inr ⟨[], [], package :: todo, ?_, rfl, rfl, .inr rfl⟩
              simp only [sendRound2, hmessage]
          | succ room =>
              rcases ih room with ⟨messages, e, package', hsend, hmem, herror⟩ |
                ⟨messages, done, left, hsend, rfl, hlength, hstop⟩
              · refine .inl ⟨message :: messages, e, package', ?_, List.mem_cons_of_mem _ hmem,
                  herror⟩
                simp only [sendRound2, hmessage, hsend]
              · refine .inr ⟨message :: messages, package :: done, left, ?_, rfl, ?_, ?_⟩
                · simp only [sendRound2, hmessage, hsend]
                · rw [List.length_cons, List.length_cons, hlength]
                · rw [List.length_cons]
                  exact hstop.imp id (congrArg Nat.succ)

/-- After the first loop both maps have the right size, and `part2` is
called. -/
theorem startRound2_of_done (hp : IsParty p) (h : BroadcastsGathered own msgs taken s)
    (hdone : needsRound1 p s = false) :
    startRound2 p s = (do
      let packages ← mapErr "Round 2 error: " (p.part2 s.packagesForPart2)
      return packages.toList) := by
  have hparties := parties_otherParties p
  have hall : s.packagesAll.size = p.maxSigners := by
    have hnodup : (holders p.identifier (otherParties p) (some own)).Nodup :=
      nodup_holders hparties
    rw [hp.length]
    refine mapSize_eq_of_mem_iff hnodup fun id => ?_
    rw [Std.TreeMap.mem_iff_isSome_getElem?, h.all, round1_of_done hp h hdone, round1Of,
      isSome_complete_iff hparties]
  have hpart2 : s.packagesForPart2.size = p.maxSigners - 1 := by
    rw [hp.length, Nat.add_sub_cancel]
    refine mapSize_eq_of_mem_iff hparties.nodup fun id => ?_
    rw [Std.TreeMap.mem_iff_isSome_getElem?, h.forPart2, round1_of_done hp h hdone, round1Of,
      isSome_complete_iff hparties]
    rfl
  rw [startRound2, if_neg (fun hne => hne hall), if_neg (fun hne => hne hpart2)]

end Sending

section Polls

variable [Identifiers] [DagCbor] [DkgCodec A B] {p : DkgSession A B} {own : A}
  {msgs : ∀ id, PartyMessages p id} {taken order : List AgentRequest} {capacity : Nat}

/-- The results of a run: `part2` gets the packages of the first round of
all other parties, and `part3` these and their packages of the second. -/
inductive DealsWith (msgs : ∀ id, PartyMessages p id) : AgentResult → Prop where
  | part2Failed {m : Std.TreeMap Nat A} {e : String} :
      (∀ id, m[id]? = round1Of msgs none id) → p.part2 m = .error e →
      DealsWith msgs (.error ("Round 2 error: " ++ e))
  | sendFailed {m : Std.TreeMap Nat A} {packages : Std.TreeMap Nat B} {package : Nat × B}
      {e : String} : (∀ id, m[id]? = round1Of msgs none id) → p.part2 m = .ok packages →
      package ∈ packages.toList → round2Message p package = .error e →
      DealsWith msgs (.error e)
  | finished {m : Std.TreeMap Nat A} {packages received : Std.TreeMap Nat B} :
      (∀ id, m[id]? = round1Of msgs none id) → p.part2 m = .ok packages →
      (∀ id, received[id]? = round2Of msgs id) →
      DealsWith msgs (do
        let keyPackage ← mapErr "Round 3 error: " (p.part3 m received)
        p.save keyPackage)

/-- `part2` was called with the packages of all other parties. -/
structure PackagesMade (msgs : ∀ id, PartyMessages p id) (s : Round1 A)
    (packages : Std.TreeMap Nat B) : Prop where
  complete : ∀ id, s.packagesForPart2[id]? = round1Of msgs none id
  part2 : p.part2 s.packagesForPart2 = .ok packages

/-- The agent at each `await`, from the requests it has taken. -/
inductive DkgStage (own : A) (msgs : ∀ id, PartyMessages p id) :
    Dkg A B → List AgentRequest → Prop where
  | start : DkgStage own msgs .start []
  | round1 {s : Round1 A} {taken : List AgentRequest} : BroadcastsGathered own msgs taken s →
      DkgStage own msgs (.round1 s) taken
  | sending {s : Round1 A} {packages : Std.TreeMap Nat B} {todo : List (Nat × B)}
      {taken : List AgentRequest} : PackagesMade msgs s packages → todo ⊆ packages.toList →
      s.deferredRound2Requests = taken.filter (·.recipient.isSome) →
      DkgStage own msgs (.sending s todo) taken
  | round2 {s : Round1 A} {packages : Std.TreeMap Nat B} {acc : Round2 B}
      {taken : List AgentRequest} : PackagesMade msgs s packages → s.deferredRound2Requests = [] →
      DirectsGathered msgs taken acc → DkgStage own msgs (.round2 s acc) taken

/-- How far the agent is from its end, when all requests are there. -/
def dkgRank : Dkg A B → ℕ ×ₗ ℕ
  | .start => toLex (2, 0)
  | .round1 _ => toLex (2, 0)
  | .sending _ todo => toLex (1, todo.length)
  | .round2 _ _ => toLex (0, 0)
  | .returned => toLex (0, 0)

variable [LawfulIdentifiers] [LawfulDagCbor] [LawfulDkgCodec A B]

section

variable {a : Dkg A B} {s : Round1 A} {packages : Std.TreeMap Nat B}
  {used rest : List AgentRequest} {outgoing sent : List AgentMessage}

/-- The second loop, over what was set aside and the rest of the channel. -/
theorem collectPoll_dkgRound2 (hp : IsParty p) (horder : order.Perm (partyRequests msgs))
    {looked : List AgentRequest} (hmade : PackagesMade msgs s packages)
    (h : DirectsGathered msgs looked acc) (hsame : ∀ id ∈ otherParties p,
      (msgs id).direct ∈ looked ++ s.deferredRound2Requests ↔ (msgs id).direct ∈ taken ++ used)
    (hgood : ∀ req ∈ s.deferredRound2Requests ++ rest, req ∈ partyRequests msgs) :
    CollectPoll order (DkgStage own msgs) (DealsWith msgs) dkgRank a taken (used ++ rest) outgoing
      (runRound2 p s acc used.length rest sent) := by
  have hloop := collect_rule (needsRound2 p) (takeRound2 p)
    (fun hinv hreq _ => directsGathered_take hinv hreq) _ h hgood
  unfold runRound2
  generalize collect (needsRound2 p) (takeRound2 p) acc (s.deferredRound2Requests ++ rest)
    = ended at hloop
  cases hloop with
  | @waiting acc' hmore hinv =>
      -- what the loop has looked at are the requests taken so far
      have hlooked : ∀ id ∈ otherParties p,
          (msgs id).direct ∈ looked ++ (s.deferredRound2Requests ++ rest) ↔
            (msgs id).direct ∈ taken ++ (used ++ rest) := by
        intro id hid
        rw [← List.append_assoc, ← List.append_assoc, List.mem_append, hsame id hid,
          ← List.mem_append]
      have htake : (used ++ rest).take (used.length + rest.length) = used ++ rest := by
        rw [← List.length_append, List.take_length]
      have hgathered : DirectsGathered msgs (taken ++ (used ++ rest)) acc' :=
        ⟨fun id => (hinv.packages id).trans (known_congr hlooked),
          fun id => (hinv.received id).trans (congrArg _ (known_congr hlooked))⟩
      have hstage : DkgStage own msgs (.round2 { s with deferredRound2Requests := [] } acc')
          (taken ++ (used ++ rest).take (used.length + rest.length)) := by
        rw [htake]
        exact .round2 ⟨hmade.complete, hmade.part2⟩ rfl hgathered
      -- a package is missing, although all requests have been taken
      refine .goesOn hstage fun hall => ?_
      obtain ⟨id, hid, hmissing⟩ := (needsRound2_iff hp hgathered).mp hmore
      refine absurd ?_ hmissing
      rw [hall]
      exact horder.mem_iff.mpr ((mem_partyRequests msgs).mpr ⟨id, hid, .inr rfl⟩)
  | done _ hmore hinv =>
      exact .returns (.finished hmade.complete hmade.part2 (round2_of_done hp hinv hmore))

/-- The loop that sends the packages, and what follows it. -/
theorem collectPoll_sending (hp : IsParty p) (horder : order.Perm (partyRequests msgs))
    {todo : List (Nat × B)} {room : Nat} (hmade : PackagesMade msgs s packages)
    (htodo : todo ⊆ packages.toList)
    (hdeferred : s.deferredRound2Requests = (taken ++ used).filter (·.recipient.isSome))
    (hgood : ∀ req ∈ taken ++ (used ++ rest), req ∈ partyRequests msgs)
    (hroom : outgoing ++ sent = [] → 0 < room)
    (hrank : ∀ left : List (Nat × B), (0 < room → left.length < todo.length) → outgoing = [] →
      dkgRank (.sending s left) < dkgRank a) :
    CollectPoll order (DkgStage own msgs) (DealsWith msgs) dkgRank a taken (used ++ rest) outgoing
      (runSending p s todo room used.length rest sent) := by
  unfold runSending
  rcases sendRound2_cases p room todo with ⟨messages, e, package, hsend, hmem, herror⟩ |
    ⟨messages, done, left, hsend, rfl, hlength, hstop⟩
  · simp only [hsend]
    exact .returns (.sendFailed hmade.complete hmade.part2 (htodo hmem) herror)
  · simp only [hsend]
    cases left with
    | nil =>
        -- all packages are sent; the second loop starts with what was set aside
        refine collectPoll_dkgRound2 hp horder hmade directsGathered_new (fun id hid => ?_) ?_
        · rw [List.nil_append, hdeferred, List.mem_filter, (msgs id).recipient_direct]
          exact and_iff_left rfl
        · intro req hreq
          refine hgood req ?_
          rw [← List.append_assoc]
          rcases List.mem_append.mp hreq with hreq | hreq
          · rw [hdeferred] at hreq
            exact List.mem_append_left _ (List.mem_filter.mp hreq).1
          · exact List.mem_append_right _ hreq
    | cons package left =>
        -- the channel is full, and the agent waits for room
        have hdone : done.length = room := hstop.resolve_left (List.cons_ne_nil _ _)
        have htake : (used ++ rest).take used.length = used := List.take_left
        have hstage : DkgStage own msgs (.sending s (package :: left))
            (taken ++ (used ++ rest).take used.length) := by
          rw [htake]
          exact .sending hmade (fun x hx => htodo (List.mem_append_right _ hx)) hdeferred
        refine .goesOn hstage fun _ => ⟨fun hnil => ?_, fun hout => hrank _ (fun hpos => ?_) hout⟩
        · -- nothing was in the channel, so something was sent
          rw [← List.append_assoc, List.append_eq_nil_iff] at hnil
          have hpos := hroom hnil.1
          rw [hnil.2] at hlength
          rw [List.length_nil] at hlength
          omega
        · rw [List.length_append]
          omega

/-- The first loop, and what follows it. -/
theorem collectPoll_dkgRound1 [LawfulRound1Codec A B] (hp : IsParty p)
    (horder : order.Perm (partyRequests msgs)) {room : Nat} {incoming : List AgentRequest}
    (h : BroadcastsGathered own msgs taken s) (hinitial : taken ++ incoming <+: order)
    (ha : dkgRank a = toLex (2, 0)) (hroom : outgoing ++ sent = [] → 0 < room) :
    CollectPoll order (DkgStage own msgs) (DealsWith msgs) dkgRank a taken incoming outgoing
      (runRound1 p s room incoming sent) := by
  have hgood : ∀ req ∈ taken ++ incoming, req ∈ partyRequests msgs := fun req hreq =>
    horder.mem_iff.mp (hinitial.subset hreq)
  have hloop := collect_rule (needsRound1 p) (takeRound1 p)
    (fun hinv hreq _ => broadcastsGathered_take hinv hreq) incoming h
    fun req hreq => hgood req (List.mem_append_right _ hreq)
  unfold runRound1
  generalize collect (needsRound1 p) (takeRound1 p) s incoming = ended at hloop
  cases hloop with
  | @waiting s' hmore hinv =>
      have hstage : DkgStage own msgs (.round1 s') (taken ++ incoming.take incoming.length) := by
        rw [List.take_length]
        exact .round1 hinv
      -- as in the second loop: the missing package cannot be missing at the end
      refine .goesOn hstage fun hall => ?_
      obtain ⟨id, hid, hmissing⟩ := (needsRound1_iff hp hinv).mp hmore
      refine absurd ?_ hmissing
      rw [hall]
      exact horder.mem_iff.mpr ((mem_partyRequests msgs).mpr ⟨id, hid, .inl rfl⟩)
  | @done s' used rest hincoming hmore hinv =>
      subst hincoming
      have hcomplete : ∀ id, s'.packagesForPart2[id]? = round1Of msgs none id := fun id =>
        (hinv.forPart2 id).trans (round1_of_done hp hinv hmore none id)
      simp only [startRound2_of_done hp hinv hmore, List.length_append, Nat.add_sub_cancel]
      cases hpart2 : p.part2 s'.packagesForPart2 with
      | error e => exact .returns (.part2Failed hcomplete hpart2)
      | ok packages =>
          refine collectPoll_sending hp horder ⟨hcomplete, hpart2⟩ (List.Subset.refl _)
            hinv.deferred hgood hroom fun left _ _ => ?_
          rw [ha]
          exact Prod.Lex.toLex_lt_toLex.mpr (.inl (Nat.lt_succ_self 1))

end

/-- A poll of `run_dkg`. -/
theorem collects_dkg [LawfulRound1Codec A B] (hp : IsParty p) {message : AgentMessage}
    (hsent : sendRound1 p = .ok (own, message)) (hcapacity : 0 < capacity)
    (horder : order.Perm (partyRequests msgs)) :
    Collecting (runDkg p capacity) order (DkgStage own msgs) (DealsWith msgs) dkgRank := by
  intro a taken incoming outgoing h hinitial
  have hroom : outgoing ++ ([] : List AgentMessage) = [] → 0 < capacity - outgoing.length := by
    intro hnil
    rw [List.append_nil] at hnil
    rw [hnil]
    exact hcapacity
  have hgood : ∀ req ∈ taken ++ incoming, req ∈ partyRequests msgs := fun req hreq =>
    horder.mem_iff.mp (hinitial.subset hreq)
  cases h with
  | start =>
      simp only [runDkg, hsent]
      refine collectPoll_dkgRound1 hp horder broadcastsGathered_new hinitial rfl fun hnil => ?_
      -- the own package has just been sent
      cases (List.append_eq_nil_iff.mp hnil).2
  | round1 h => exact collectPoll_dkgRound1 hp horder h hinitial rfl hroom
  | @sending s packages todo taken hmade htodo hdeferred =>
      show CollectPoll order _ _ _ _ taken ([] ++ incoming) outgoing
        (runSending p s todo _ ([] : List AgentRequest).length incoming [])
      refine collectPoll_sending hp horder hmade htodo (by rwa [List.append_nil]) hgood hroom
        fun left hshorter hout => ?_
      refine Prod.Lex.toLex_lt_toLex.mpr (.inr ⟨rfl, hshorter ?_⟩)
      exact hroom (by rw [hout]; rfl)
  | @round2 s packages acc taken hmade hdeferred h =>
      show CollectPoll order _ _ _ _ taken ([] ++ incoming) outgoing
        (runRound2 p s acc ([] : List AgentRequest).length incoming [])
      refine collectPoll_dkgRound2 hp horder hmade h (fun id _ => ?_) fun req hreq => ?_
      · rw [hdeferred]
      · rw [hdeferred] at hreq
        exact hgood req (List.mem_append_right _ hreq)

/-! ### Whole runs -/

/-- What a run of the agent satisfies at any time. -/
structure CollectsPackages (msgs : ∀ id, PartyMessages p id) (capacity : Nat)
    (t : AgentRun (Dkg A B)) : Prop where
  /-- While it sends, the packages are those of `part2` on the packages of
  all other parties. -/
  deals : t.result = none → ∀ s todo, t.agent = .sending s todo →
    ∃ packages, (∀ id, s.packagesForPart2[id]? = round1Of msgs none id) ∧
      p.part2 s.packagesForPart2 = .ok packages ∧ todo ⊆ packages.toList
  result : ∀ r, t.result = some r → DealsWith msgs r
  /-- When the last message has arrived, a poll returns or leaves a message
  of the agent's own to be taken. -/
  waits : t.pending = [] → (t.step (runDkg p capacity) .poll).result = none →
    (t.step (runDkg p capacity) .poll).outgoing ≠ []
  returns : t.pending = [] →
    ∃ events, (t.run (runDkg p capacity) events).result.isSome = true

/-- In whatever order the messages of the other parties arrive and whenever
the agent is polled, `part2` gets the packages of the first round of all
other parties, `part3` the same and their packages of the second round, and
the agent waits for no other message. -/
theorem dkg_orderIndependent [LawfulRound1Codec A B] (hp : IsParty p)
    (msgs : ∀ id, PartyMessages p id) {message : AgentMessage}
    (hsent : sendRound1 p = .ok (own, message)) (hcapacity : 0 < capacity)
    (order : List AgentRequest) (horder : order.Perm (partyRequests msgs))
    (events : List AgentEvent) :
    CollectsPackages msgs capacity
      ((AgentRun.start .start order).run (runDkg p capacity) events) := by
  have hc := collects_dkg hp hsent hcapacity horder
  have hrunning := running_run hc (running_start .start) events
  refine ⟨fun hnone s todo hagent => ?_, hrunning.result,
    fun hpending hnone => outgoing_poll hc hrunning hpending hnone,
    fun hpending => returns_of_rank hc hrunning hpending⟩
  obtain ⟨taken, _, hstage⟩ := hrunning.live hnone
  rw [hagent] at hstage
  cases hstage with
  | sending hmade htodo _ => exact ⟨_, hmade.complete, hmade.part2, htodo⟩

end Polls

namespace ThreeParties

open scoped PlainAgent

/-- Packages are single bytes. -/
local instance : DkgCodec UInt8 UInt8 where
  serializeRound1 package := .ok [package]
  deserializeRound1
    | [package] => .ok package
    | _ => .error "round1"
  serializeRound2 package := .ok [package]
  deserializeRound2
    | [package] => .ok package
    | _ => .error "round2"

local instance : LawfulRound1Codec UInt8 UInt8 where
  deserializeRound1_serializeRound1 package bytes h := by
    cases h
    rfl

local instance : LawfulDkgCodec UInt8 UInt8 where
  deserializeRound2_serializeRound2 package bytes h := by
    cases h
    rfl

/-- The second of three parties. -/
def session : DkgSession UInt8 UInt8 where
  identifier := 2
  threshold := 2
  maxSigners := 3
  prepare := .ok ()
  part1 := .ok 20
  part2 m := .ok m
  part3 m received := .ok (m.values ++ received.values)
  save := .ok

def messages (id : Nat) : PartyMessages session id where
  round1 := 10 * id.toUInt8
  round2 := id.toUInt8
  broadcast := { sender := id, recipient := none, payload := [10 * id.toUInt8] }
  direct := { sender := id, recipient := some 2, payload := [id.toUInt8] }
  sender_broadcast := rfl
  sender_direct := rfl
  recipient_broadcast := rfl
  recipient_direct := rfl
  encodes_round1 := ⟨_, rfl, rfl⟩
  encodes_round2 := ⟨_, rfl, rfl⟩

/-- The direct message of the third party comes first. -/
def earlyDirect : List AgentRequest :=
  [(messages 3).direct, (messages 1).broadcast, (messages 3).broadcast, (messages 1).direct]

/-- The outgoing channel holds two messages. -/
def events : List AgentEvent :=
  [.poll, .deliver, .deliver, .poll, .deliver, .poll, .take, .take, .deliver, .poll]

/-- The early package is kept for round 2, and the party returns what it
would return in any other order. -/
theorem dkg_orderIndependent_earlyDirect :
    ((AgentRun.start .start earlyDirect).run (runDkg session 2) events).result
      = some (.ok [10, 30, 1, 3]) ∧ DealsWith messages (.ok [10, 30, 1, 3]) := by
  have hp : IsParty session := ⟨by decide, by decide⟩
  have hperm : earlyDirect.Perm (partyRequests messages) := by decide
  have hresult : ((AgentRun.start .start earlyDirect).run (runDkg session 2) events).result
      = some (.ok [10, 30, 1, 3]) := rfl
  exact ⟨hresult, (dkg_orderIndependent hp messages rfl Nat.two_pos earlyDirect hperm
    events).result _ hresult⟩

end ThreeParties

end FrostMpcTss.Proofs
