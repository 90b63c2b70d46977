import FrostMpcTss.Tss.Agent

/-!
# `FrostMpcTss.Tss.KeyGen`: the key generation agent

`KeyGen::run_dkg` is an async function. `Dkg` says at which `await` it
stands, and `runDkg` is one poll of it. The first package is a
broadcast, and the agent goes on to receive without waiting for it to
be taken. The packages of the second round are direct messages, one for
each other party; the agent waits while the outgoing channel is full.

`part1`, `part2` and `part3` are `frost-core`'s. What `compute` does
before `run_dkg` is one fallible value (`prepare`), and so is what it
does with the key package (`save`).
-/

set_option autoImplicit false

namespace FrostMpcTss.Tss.KeyGen

open Network Service

/-- `round1::Package` and `round2::Package` on the wire. -/
class DkgCodec (A B : Type) where
  serializeRound1 : A → Except String Bytes
  deserializeRound1 : Bytes → Except String A
  serializeRound2 : B → Except String Bytes
  deserializeRound2 : Bytes → Except String B

/-- A package of the second round is read back from its encoding. -/
class LawfulDkgCodec (A B : Type) [DkgCodec A B] : Prop where
  deserializeRound2_serializeRound2 : ∀ (package : B) (bytes : Bytes),
    DkgCodec.serializeRound2 A package = .ok bytes →
      DkgCodec.deserializeRound2 A bytes = .ok package

/-- So is a package of the first round. -/
class LawfulRound1Codec (A B : Type) [DkgCodec A B] : Prop where
  deserializeRound1_serializeRound1 : ∀ (package : A) (bytes : Bytes),
    DkgCodec.serializeRound1 B package = .ok bytes →
      DkgCodec.deserializeRound1 B bytes = .ok package

/-- What one run of the agent works on. -/
structure DkgSession (A B : Type) where
  identifier : Nat
  threshold : Nat
  maxSigners : Nat
  prepare : Except String Unit
  part1 : Except String A
  part2 : Std.TreeMap Nat A → Except String (Std.TreeMap Nat B)
  part3 : Std.TreeMap Nat A → Std.TreeMap Nat B → Except String Bytes
  save : Bytes → Except String Bytes

/-- The accumulators of the first receive loop. -/
structure Round1 (A : Type) where
  packagesAll : Std.TreeMap Nat A
  packagesForPart2 : Std.TreeMap Nat A
  deferredRound2Requests : List AgentRequest

/-- The accumulators of the second receive loop. -/
structure Round2 (B : Type) where
  packages : Std.TreeMap Nat B
  receivedSenders : Std.TreeSet Nat

/-- Where `run_dkg` is suspended. -/
inductive Dkg (A B : Type) where
  | start
  | round1 (s : Round1 A)
  /-- The packages still to be sent. -/
  | sending (s : Round1 A) (todo : List (Nat × B))
  | round2 (s : Round1 A) (acc : Round2 B)
  | returned

variable {A B : Type}

/-- The checks on the threshold. -/
def checkThreshold (p : DkgSession A B) : Except String Unit :=
  let threshold := p.threshold
  let maxSigners := p.maxSigners
  if p.threshold < 2 then
    .error (s!"threshold (min_signers) must be at least 2, but got {threshold}. " ++
      s!"For a {threshold}-of-{maxSigners} threshold signature, use threshold >= 2")
  else if p.maxSigners < p.threshold then
    .error (s!"threshold (min_signers) {threshold} cannot be larger than max_signers " ++
      s!"(number_of_parties) {maxSigners}. For a {threshold}-of-{maxSigners} threshold " ++
      s!"signature, use threshold <= {maxSigners}")
  else .ok ()

/-- The first package, ready to be sent. -/
def sendRound1 [Identifiers] [DagCbor] [DkgCodec A B] (p : DkgSession A B) :
    Except String (A × AgentMessage) := do
  p.prepare
  let _ ← mapErr "invalid identifier: " (Identifiers.tryFrom p.identifier)
  checkThreshold p
  let package ← mapErr "Round 1 part 1 error: " p.part1
  let payload ← mapErr "failed to serialize round1 package: "
    (DkgCodec.serializeRound1 B package)
  let body ← mapErr "failed to encode round1 package: " (DagCbor.toVec payload)
  return (package, { body := body, recipient := none })

/-- The accumulators before the first receive loop. -/
def Round1.new (p : DkgSession A B) (package : A) : Round1 A where
  packagesAll := (∅ : Std.TreeMap Nat A).insert p.identifier package
  packagesForPart2 := ∅
  deferredRound2Requests := []

/-- `expected_ids.contains(&id)`. -/
def expects (p : DkgSession A B) (id : Nat) : Bool := 1 ≤ id && id ≤ p.maxSigners

/-- One turn of the first receive loop. -/
def takeRound1 [Identifiers] [DagCbor] [DkgCodec A B] (p : DkgSession A B) (s : Round1 A)
    (req : AgentRequest) : Except String (Round1 A) := do
  if req.recipient.isSome then
    return { s with deferredRound2Requests := s.deferredRound2Requests ++ [req] }
  let size := req.payload.length
  let payload ← mapErr s!"failed to decode round1 package (payload size: {size}): "
    (DagCbor.fromSlice req.payload)
  let decodedSize := payload.length
  let package ←
    mapErr s!"failed to deserialize round1 package (decoded payload size: {decodedSize}): "
      (DkgCodec.deserializeRound1 B payload)
  let id ← mapErr "invalid sender identifier: " (Identifiers.tryFrom req.sender)
  if expects p id then
    return { s with
      packagesAll := s.packagesAll.insert id package
      packagesForPart2 :=
        if id ≠ p.identifier then s.packagesForPart2.insert id package
        else s.packagesForPart2 }
  else return s

/-- `round1_packages_all.len() < max_signers`. -/
def needsRound1 (p : DkgSession A B) (s : Round1 A) : Bool :=
  s.packagesAll.size < p.maxSigners

/-- The checks after the first receive loop, and `part2`. -/
def startRound2 (p : DkgSession A B) (s : Round1 A) : Except String (List (Nat × B)) := do
  let total := s.packagesAll.size
  let forPart2 := s.packagesForPart2.size
  let maxSigners := p.maxSigners
  let others := p.maxSigners - 1
  if s.packagesAll.size ≠ p.maxSigners then
    .error s!"Round 1: Expected {maxSigners} packages total, but got {total}"
  else if s.packagesForPart2.size ≠ others then
    .error (s!"Round 1: Expected {others} packages for part2 (excluding self), " ++
      s!"but got {forPart2}")
  else
    let packages ← mapErr "Round 2 error: " (p.part2 s.packagesForPart2)
    return packages.toList

/-- The message with one package of the second round. -/
def round2Message [DagCbor] [DkgCodec A B] (p : DkgSession A B) (package : Nat × B) :
    Except String AgentMessage := do
  if !expects p package.1 then .error "could not find u16 for recipient identifier"
  let payload ← mapErr "failed to serialize round2 package: "
    (DkgCodec.serializeRound2 A package.2)
  let body ← mapErr "failed to encode round2 package: " (DagCbor.toVec payload)
  return { body := body, recipient := some package.1 }

/-- The loop over the packages, with room for some messages in the
outgoing channel: the messages sent, and what is left or how it failed. -/
def sendRound2 [DagCbor] [DkgCodec A B] (p : DkgSession A B) :
    Nat → List (Nat × B) → List AgentMessage × Except String (List (Nat × B))
  | _, [] => ([], .ok [])
  | room, package :: todo =>
      match round2Message p package with
      | .error e => ([], .error e)
      | .ok message =>
          match room with
          | 0 => ([], .ok (package :: todo))
          | room + 1 =>
              let (sent, left) := sendRound2 p room todo
              (message :: sent, left)

/-- One turn of the second receive loop. -/
def takeRound2 [Identifiers] [DagCbor] [DkgCodec A B] (p : DkgSession A B) (acc : Round2 B)
    (req : AgentRequest) : Except String (Round2 B) := do
  if req.recipient ≠ some p.identifier then return acc
  let id ← mapErr "invalid sender identifier: " (Identifiers.tryFrom req.sender)
  if acc.receivedSenders.contains id then return acc
  let payload ← mapErr "failed to decode round2 package: " (DagCbor.fromSlice req.payload)
  let package ← mapErr "failed to deserialize round2 package: "
    (DkgCodec.deserializeRound2 A payload)
  return {
    packages := acc.packages.insert id package
    receivedSenders := acc.receivedSenders.insert id }

/-- `round2_packages.len() < max_signers - 1`. -/
def needsRound2 (p : DkgSession A B) (acc : Round2 B) : Bool :=
  acc.packages.size < p.maxSigners - 1

/-- The second receive loop. The deferred messages come before those of
the channel, and `sent` is what the same poll has sent before. -/
def runRound2 [Identifiers] [DagCbor] [DkgCodec A B] (p : DkgSession A B) (s : Round1 A)
    (acc : Round2 B) (received : Nat) (incoming : List AgentRequest)
    (sent : List AgentMessage) : Dkg A B × AgentTurn :=
  match collect (needsRound2 p) (takeRound2 p) acc
      (s.deferredRound2Requests ++ incoming) with
  | .waiting acc' =>
      (.round2 { s with deferredRound2Requests := [] } acc',
        .waiting (received + incoming.length) sent)
  | .failed e rest =>
      (.returned, .returning (received + (incoming.length - rest.length)) sent (.error e))
  | .done acc' rest =>
      (.returned, .returning (received + (incoming.length - rest.length)) sent (do
        let keyPackage ← mapErr "Round 3 error: " (p.part3 s.packagesForPart2 acc'.packages)
        p.save keyPackage))

/-- The loop that sends the packages, and what comes after it. -/
def runSending [Identifiers] [DagCbor] [DkgCodec A B] (p : DkgSession A B) (s : Round1 A)
    (todo : List (Nat × B)) (room received : Nat) (incoming : List AgentRequest)
    (sent : List AgentMessage) : Dkg A B × AgentTurn :=
  match sendRound2 p room todo with
  | (messages, .error e) => (.returned, .returning received (sent ++ messages) (.error e))
  | (messages, .ok []) =>
      runRound2 p s { packages := ∅, receivedSenders := ∅ } received incoming (sent ++ messages)
  | (messages, .ok left) => (.sending s left, .waiting received (sent ++ messages))

/-- The first receive loop, and what comes after it. -/
def runRound1 [Identifiers] [DagCbor] [DkgCodec A B] (p : DkgSession A B) (s : Round1 A)
    (room : Nat) (incoming : List AgentRequest) (sent : List AgentMessage) :
    Dkg A B × AgentTurn :=
  match collect (needsRound1 p) (takeRound1 p) s incoming with
  | .waiting s' => (.round1 s', .waiting incoming.length sent)
  | .failed e rest => (.returned, .returning (incoming.length - rest.length) sent (.error e))
  | .done s' rest =>
      match startRound2 p s' with
      | .error e => (.returned, .returning (incoming.length - rest.length) sent (.error e))
      | .ok todo => runSending p s' todo room (incoming.length - rest.length) rest sent

/-- One poll of `run_dkg`. `outgoing` are the own messages that have not
been taken, in a channel that holds `capacity` messages. The channel is
empty at the first send. -/
def runDkg [Identifiers] [DagCbor] [DkgCodec A B] (p : DkgSession A B) (capacity : Nat) :
    Dkg A B → List AgentRequest → List AgentMessage → Dkg A B × AgentTurn
  | .start, incoming, outgoing =>
      match sendRound1 p with
      | .ok (package, message) =>
          runRound1 p (.new p package) (capacity - (outgoing.length + 1)) incoming [message]
      | .error e => (.returned, .returning 0 [] (.error e))
  | .round1 s, incoming, outgoing => runRound1 p s (capacity - outgoing.length) incoming []
  | .sending s todo, incoming, outgoing =>
      runSending p s todo (capacity - outgoing.length) 0 incoming []
  | .round2 s acc, incoming, _ => runRound2 p s acc 0 incoming []
  | .returned, _, _ => (.returned, .waiting 0 [])

end FrostMpcTss.Tss.KeyGen
