import FrostMpcTss.Lib.Transition
import FrostMpcTss.Network.NetworkWorker
import FrostMpcTss.Proofs.OneResult
import FrostMpcTss.Service.Negotiation

/-!
# `FrostMpcTss.Proofs.ConnectedPeers`: what the worker knows of its connections

`ConnectionsExact` is what the worker's two sets are for. They name the
peers, and the boot nodes, to which a connection is open. Then the
readiness test of the negotiation counts the peers that are connected,
and the retry timer dials no boot node that is.

The worker forgets a peer with the first connection to it that closes,
whether or not there is another one. `connectionsExact_iff` says when
that is right: the sets are exact all along a run if and only if every
`ConnectionClosed` in it is about the last connection to its peer, that
is, comes with `num_established = 0`. One step from an exact state shows
both directions (`connectionsExact_step`).

`oneResult_of_node` carries the results about outbound requests over to
the worker, whose request-response behaviour makes no steps but its own.
-/

set_option autoImplicit false

namespace FrostMpcTss.Proofs

open Lib Network
open Service (shouldProceedWithNegotiation connectionWaitTimeout)

namespace Connected

variable {P : Type} [DecidableEq P]

/-- The bookkeeping of the connections is exact. -/
structure ConnectionsExact (node : Node P) : Prop where
  connectedPeers : ∀ p, p ∈ node.worker.connectedPeers ↔ ∃ c ∈ node.connections, c.peerId = p
  connectedBootNodes : ∀ p, p ∈ node.worker.connectedBootNodes ↔
    (∃ c ∈ node.connections, c.peerId = p) ∧ ∃ b ∈ node.worker.bootNodes, b.peerId = p
  /-- The test of the negotiation sees every connected peer. -/
  readiness : ∀ n elapsed,
    shouldProceedWithNegotiation n elapsed node.worker.connectedPeers.card connectionWaitTimeout =
      shouldProceedWithNegotiation n elapsed node.openPeers.card connectionWaitTimeout
  /-- No connected boot node is dialled again. -/
  retries : ∀ b ∈ node.worker.retries, ∀ c ∈ node.connections, c.peerId ≠ b.peerId

/-- A closed connection was the last one to its peer. -/
def ClosesLast : Node.Label P → Prop
  | .swarmEvent (.connectionClosed _ _ numEstablished) _ _ => numEstablished = 0
  | _ => True

/-- The two sets decide everything else. -/
theorem connectionsExact_of_sets {node : Node P}
    (hpeers : ∀ p, p ∈ node.worker.connectedPeers ↔ ∃ c ∈ node.connections, c.peerId = p)
    (hboot : ∀ p, p ∈ node.worker.connectedBootNodes ↔
      (∃ c ∈ node.connections, c.peerId = p) ∧ ∃ b ∈ node.worker.bootNodes, b.peerId = p) :
    ConnectionsExact node where
  connectedPeers := hpeers
  connectedBootNodes := hboot
  readiness n elapsed := by
    have heq : node.worker.connectedPeers = node.openPeers := by
      ext p
      rw [hpeers, Node.openPeers, List.mem_toFinset, List.mem_map]
    rw [heq]
  retries b hb c hc heq := by
    unfold NetworkWorker.retries at hb
    obtain ⟨hmem, hnot⟩ := List.mem_filter.mp hb
    exact of_decide_eq_true hnot ((hboot b.peerId).mpr ⟨⟨c, hc, heq⟩, b, hmem, rfl⟩)

/-- The sets and the boot nodes are all that matters. -/
theorem ConnectionsExact.congr {node node' : Node P} (h : ConnectionsExact node)
    (hpeers : node'.worker.connectedPeers = node.worker.connectedPeers)
    (hboot : node'.worker.connectedBootNodes = node.worker.connectedBootNodes)
    (hnodes : node'.worker.bootNodes = node.worker.bootNodes)
    (hconnections : node'.connections = node.connections) : ConnectionsExact node' := by
  refine connectionsExact_of_sets ?_ ?_
  · rw [hpeers, hconnections]
    exact h.connectedPeers
  · rw [hboot, hnodes, hconnections]
    exact h.connectedBootNodes

theorem connectionsExact_start (bootNodes : List (MultiaddrWithPeerId P))
    (requestResponses : RequestResponsesBehaviour P) (now : Nat) (bootstrapped : Bool) :
    ConnectionsExact (Node.start bootNodes requestResponses now bootstrapped) := by
  refine connectionsExact_of_sets (fun p => ?_) (fun p => ?_)
  · simp [Node.start, NetworkWorker.start]
  · simp [Node.start, NetworkWorker.start]

/-! ### A connection opens -/

omit [DecidableEq P] in
theorem rebootstrap_sets (w : NetworkWorker P) (now : Nat) (bootstrapped : Bool) :
    (w.rebootstrap now bootstrapped).connectedPeers = w.connectedPeers ∧
      (w.rebootstrap now bootstrapped).connectedBootNodes = w.connectedBootNodes ∧
      (w.rebootstrap now bootstrapped).bootNodes = w.bootNodes := by
  unfold NetworkWorker.rebootstrap
  split
  · split
    · exact ⟨rfl, rfl, rfl⟩
    · exact ⟨rfl, rfl, rfl⟩
  · exact ⟨rfl, rfl, rfl⟩

/-- A connection adds its peer to the connected ones, and to the connected
boot nodes if it is one. -/
theorem onConnectionEstablished_sets (w : NetworkWorker P) (peerId : P) (now : Nat)
    (bootstrapped : Bool) :
    (w.onConnectionEstablished peerId now bootstrapped).connectedPeers =
        insert peerId w.connectedPeers ∧
      (w.onConnectionEstablished peerId now bootstrapped).connectedBootNodes =
        (if ∃ b ∈ w.bootNodes, b.peerId = peerId then insert peerId w.connectedBootNodes
        else w.connectedBootNodes) ∧
      (w.onConnectionEstablished peerId now bootstrapped).bootNodes = w.bootNodes := by
  have hany : w.bootNodes.any (·.peerId = peerId) = true ↔
      ∃ b ∈ w.bootNodes, b.peerId = peerId := by
    simp
  unfold NetworkWorker.onConnectionEstablished
  by_cases hboot : ∃ b ∈ w.bootNodes, b.peerId = peerId
  · rw [if_pos hboot]
    dsimp only
    rw [if_pos (hany.mpr hboot)]
    exact rebootstrap_sets _ now bootstrapped
  · rw [if_neg hboot]
    dsimp only
    rw [if_neg (mt hany.mp hboot)]
    exact ⟨rfl, rfl, rfl⟩

/-- A connection that opens keeps the sets exact. -/
theorem connectionsExact_established {node : Node P} (h : ConnectionsExact node) (peerId : P)
    (connectionId now : Nat) (bootstrapped : Bool) :
    ConnectionsExact
      { worker := node.worker.onConnectionEstablished peerId now bootstrapped
        connections := node.connections ++ [⟨connectionId, peerId⟩] } := by
  obtain ⟨hpeers, hboot, hnodes⟩ :=
    onConnectionEstablished_sets node.worker peerId now bootstrapped
  have hopen : ∀ p, (∃ c ∈ node.connections ++ [⟨connectionId, peerId⟩], c.peerId = p) ↔
      p = peerId ∨ ∃ c ∈ node.connections, c.peerId = p := by
    intro p
    simp only [List.mem_append, List.mem_singleton, or_and_right, exists_or, exists_eq_left]
    rw [or_comm, eq_comm]
  refine connectionsExact_of_sets (fun p => ?_) (fun p => ?_)
  · rw [hopen, hpeers, Finset.mem_insert, h.connectedPeers]
  · rw [hopen, hboot, hnodes]
    by_cases hp : p = peerId
    · subst hp
      split
      next hnode => exact ⟨fun _ => ⟨.inl rfl, hnode⟩, fun _ => Finset.mem_insert_self _ _⟩
      next hnode =>
          rw [h.connectedBootNodes]
          exact ⟨fun hmem => absurd hmem.2 hnode, fun hmem => absurd hmem.2 hnode⟩
    · rw [or_iff_right hp, ← h.connectedBootNodes]
      split
      next => rw [Finset.mem_insert, or_iff_right hp]
      next => exact Iff.rfl

/-! ### A connection closes -/

/-- The worker forgets the peer, so it must be gone. -/
theorem connectionsExact_closed {node : Node P} (h : ConnectionsExact node) (peerId : P)
    (connectionId : Nat) :
    ConnectionsExact
        { worker := node.worker.onConnectionClosed peerId
          connections := node.connections.filter (· ≠ ⟨connectionId, peerId⟩) } ↔
      (Node.established (node.connections.filter (· ≠ ⟨connectionId, peerId⟩)) peerId).length
        = 0 := by
  have hlast : (Node.established (node.connections.filter (· ≠ ⟨connectionId, peerId⟩))
      peerId).length = 0 ↔
        ¬ ∃ c ∈ node.connections.filter (· ≠ ⟨connectionId, peerId⟩), c.peerId = peerId := by
    rw [List.length_eq_zero_iff, Node.established, List.filter_eq_nil_iff]
    simp
  -- the connections to the other peers are untouched
  have hopen : ∀ p, p ≠ peerId →
      ((∃ c ∈ node.connections.filter (· ≠ ⟨connectionId, peerId⟩), c.peerId = p) ↔
        ∃ c ∈ node.connections, c.peerId = p) := by
    intro p hp
    constructor
    · rintro ⟨c, hc, hcp⟩
      exact ⟨c, (List.mem_filter.mp hc).1, hcp⟩
    · rintro ⟨c, hc, hcp⟩
      refine ⟨c, List.mem_filter.mpr ⟨hc, decide_eq_true fun heq => hp ?_⟩, hcp⟩
      rw [← hcp, heq]
  rw [hlast]
  constructor
  · intro hexact hpeer
    exact absurd ((hexact.connectedPeers peerId).mpr hpeer) (Finset.notMem_erase _ _)
  · intro hnone
    refine connectionsExact_of_sets (fun p => ?_) (fun p => ?_)
    · show p ∈ node.worker.connectedPeers.erase peerId ↔ _
      rw [Finset.mem_erase, h.connectedPeers]
      by_cases hp : p = peerId
      · subst hp
        exact ⟨fun hmem => absurd rfl hmem.1, fun hpeer => absurd hpeer hnone⟩
      · rw [hopen p hp]
        exact and_iff_right hp
    · show p ∈ node.worker.connectedBootNodes.erase peerId ↔ _
      rw [Finset.mem_erase, h.connectedBootNodes]
      by_cases hp : p = peerId
      · subst hp
        exact ⟨fun hmem => absurd rfl hmem.1, fun hpeer => absurd hpeer.1 hnone⟩
      · rw [hopen p hp]
        exact and_iff_right hp

/-! ### Runs -/

/-- From an exact state, a step leads to an exact state if and only if it
closes no connection but the last one to its peer. -/
theorem connectionsExact_step {node node' : Node P} {l : Node.Label P}
    (h : ConnectionsExact node) (hstep : node.step l = some node') :
    ConnectionsExact node' ↔ ClosesLast l := by
  obtain ⟨-, hstep⟩ := Option.ite_none_right_eq_some.mp hstep
  cases l with
  | retryTick =>
      cases hstep
      exact iff_of_true (h.congr rfl rfl rfl rfl) trivial
  | swarmEvent event now bootstrapped =>
      obtain ⟨connections, hemit, rfl⟩ := Option.map_eq_some_iff.mp hstep
      cases event with
      | connectionEstablished peerId connectionId numEstablished =>
          obtain ⟨-, heq⟩ := Option.ite_none_right_eq_some.mp hemit
          cases heq
          exact iff_of_true (connectionsExact_established h _ _ _ _) trivial
      | connectionClosed peerId connectionId numEstablished =>
          obtain ⟨⟨-, hnum⟩, heq⟩ := Option.ite_none_right_eq_some.mp hemit
          cases heq
          refine (connectionsExact_closed h peerId connectionId).trans ?_
          rw [← hnum]
          exact Iff.rfl
      | other =>
          cases hemit
          exact iff_of_true (h.congr rfl rfl rfl rfl) trivial
  | serviceMsg msg peers env =>
      cases hstep
      cases msg <;> exact iff_of_true (h.congr rfl rfl rfl rfl) trivial
  | requestResponses e =>
      obtain ⟨requestResponses, -, rfl⟩ := Option.map_eq_some_iff.mp hstep
      exact iff_of_true (h.congr rfl rfl rfl rfl) trivial
  | streamEnds =>
      cases hstep
      exact iff_of_true (h.congr rfl rfl rfl rfl) trivial

/-- **Exact bookkeeping.** The sets are exact in every state of a run if and
only if every connection that closes in it is the last one to its peer. -/
theorem connectionsExact_iff (bootNodes : List (MultiaddrWithPeerId P))
    (requestResponses : RequestResponsesBehaviour P) (now : Nat) (bootstrapped : Bool)
    (labels : List (Node.Label P)) {node : Node P}
    (hrun : run Node.step (Node.start bootNodes requestResponses now bootstrapped) labels =
      some node) :
    (∀ before after, labels = before ++ after → ∀ node',
        run Node.step (Node.start bootNodes requestResponses now bootstrapped) before =
          some node' → ConnectionsExact node') ↔
      ∀ l ∈ labels, ClosesLast l := by
  constructor
  · intro hexact l hl
    obtain ⟨before, after, rfl⟩ := List.append_of_mem hl
    -- the states before and after this step of the run
    rw [run_append] at hrun
    obtain ⟨node₁, hbefore, hrest⟩ := Option.bind_eq_some_iff.mp hrun
    obtain ⟨node₂, hstep, -⟩ := Option.bind_eq_some_iff.mp hrest
    refine (connectionsExact_step (hexact before (l :: after) rfl node₁ hbefore) hstep).mp ?_
    refine hexact (before ++ [l]) after (by simp) node₂ ?_
    rw [run_concat, hbefore]
    exact hstep
  · intro hlast before
    -- induction on the part of the run that is over, from its end
    induction before using List.reverseRecOn with
    | nil =>
        intro after _ node' hnode
        cases hnode
        exact connectionsExact_start ..
    | append_singleton before l ih =>
        intro after heq node' hnode
        rw [run_concat] at hnode
        obtain ⟨node₁, hbefore, hstep⟩ := Option.bind_eq_some_iff.mp hnode
        have hexact := ih (l :: after) (by rw [heq]; simp) node₁ hbefore
        refine (connectionsExact_step hexact hstep).mpr (hlast l ?_)
        rw [heq]
        simp

namespace TwoConnections

/-- A boot node. -/
def bootNode : MultiaddrWithPeerId Nat where
  multiaddr := "/ip4/192.0.2.1/tcp/10010"
  peerId := 1

/-- A node without rooms. -/
def start : Node Nat :=
  Node.start [bootNode]
    { protocols := fun _ => none
      pendingRequests := ∅
      fallbackRequests := []
      bridges := []
      channels := fun _ => Mpsc.new 0
      events := []
      multicasts := [] } 0 true

/-- One connection after the other. -/
def successive : List (Node.Label Nat) :=
  [.swarmEvent (.connectionEstablished 1 0 1) 0 true, .retryTick,
    .swarmEvent (.connectionClosed 1 0 0) 0 true,
    .swarmEvent (.connectionEstablished 1 1 1) 0 true]

/-- Both peers dial, and one of the two connections closes. -/
def overlapping : List (Node.Label Nat) :=
  [.swarmEvent (.connectionEstablished 1 0 1) 0 true,
    .swarmEvent (.connectionEstablished 1 1 2) 0 true,
    .swarmEvent (.connectionClosed 1 0 1) 0 true]

/-- The sets are exact all along the first run. -/
theorem connectionsExact_successive :
    (run Node.step start successive).isSome ∧
      ∀ before after, successive = before ++ after → ∀ node,
        run Node.step start before = some node → ConnectionsExact node := by
  refine ⟨rfl, (connectionsExact_iff [bootNode] _ 0 true successive rfl).mpr ?_⟩
  simp [successive, ClosesLast]

/-- In the second run the boot node is connected, and the worker does not
know it: a negotiation of two waits for it, and the timer dials it. -/
theorem not_connectionsExact_overlapping :
    ∃ node, run Node.step start overlapping = some node ∧ node.connections = [⟨1, 1⟩] ∧
      node.worker.connectedPeers = ∅ ∧ node.worker.retries = [bootNode] ∧
      shouldProceedWithNegotiation 2 0 node.worker.connectedPeers.card connectionWaitTimeout =
        false ∧
      shouldProceedWithNegotiation 2 0 node.openPeers.card connectionWaitTimeout = true ∧
      ¬ ConnectionsExact node := by
  refine ⟨_, rfl, rfl, rfl, rfl, rfl, rfl, fun h => ?_⟩
  exact absurd ((h.connectedPeers 1).mpr ⟨⟨1, 1⟩, List.mem_singleton_self _, rfl⟩) (by decide)

end TwoConnections

/-! ### The requests of the worker -/

/-- The behaviour of a running worker takes its own steps only. -/
theorem requestResponses_step {b₀ : RequestResponsesBehaviour P} {node node' : Node P}
    {l : Node.Label P} (hstep : node.step l = some node')
    (h : Reach RequestResponsesBehaviour.step Always b₀ node.worker.requestResponses) :
    Reach RequestResponsesBehaviour.step Always b₀ node'.worker.requestResponses := by
  obtain ⟨-, hstep⟩ := Option.ite_none_right_eq_some.mp hstep
  cases l with
  | retryTick =>
      cases hstep
      exact h
  | swarmEvent event now bootstrapped =>
      obtain ⟨connections, -, rfl⟩ := Option.map_eq_some_iff.mp hstep
      have hsame : (node.worker.onSwarmEvent now bootstrapped event).requestResponses =
          node.worker.requestResponses := by
        cases event with
        | connectionEstablished peerId connectionId numEstablished =>
            show (node.worker.onConnectionEstablished peerId now bootstrapped).requestResponses = _
            unfold NetworkWorker.onConnectionEstablished NetworkWorker.rebootstrap
            dsimp only
            repeat' split
            all_goals rfl
        | connectionClosed peerId connectionId numEstablished => rfl
        | other => rfl
      show Reach _ _ _ (node.worker.onSwarmEvent now bootstrapped event).requestResponses
      rw [hsame]
      exact h
  | serviceMsg msg peers env =>
      cases hstep
      cases msg with
      | request roomId context message => exact h.next (.call env _) trivial rfl
      | getConnectedPeers response => exact h
  | requestResponses e =>
      obtain ⟨requestResponses, hhandle, rfl⟩ := Option.map_eq_some_iff.mp hstep
      exact h.next (.event e) trivial hhandle
  | streamEnds =>
      cases hstep
      exact h

/-- In every state of every run of a node there is one result for every
target of its requests. -/
theorem oneResult_of_node {list : List ProtocolConfig} {requestIds : ProtocolName → Nat ↪ Nat}
    {buffer : Nat → Nat} {b₀ : RequestResponsesBehaviour P}
    {bootNodes : List (MultiaddrWithPeerId P)} {now : Nat} {bootstrapped : Bool} {node : Node P}
    (hnew : RequestResponsesBehaviour.new list requestIds buffer = .ok b₀)
    (h : Reach Node.step Always (Node.start bootNodes b₀ now bootstrapped) node) :
    Outbound.OneResultPerTarget node.worker.requestResponses := by
  have hreach : Reach RequestResponsesBehaviour.step Always b₀ node.worker.requestResponses :=
    h.invariant (I := fun node =>
      Reach RequestResponsesBehaviour.step Always b₀ node.worker.requestResponses) .start
      fun _ _ _ hb _ hstep => requestResponses_step hstep hb
  exact Outbound.oneResult_of_bookkeeping (Outbound.bookkeeping_of_reach hnew hreach)

end Connected

end FrostMpcTss.Proofs
