import FrostMpcTss.Proofs.InboundExact
import FrostMpcTss.Proofs.OutboundGrowth
import FrostMpcTss.Proofs.TruncatedStreams

/-!
# `FrostMpcTss.Proofs.RemoteAnswers`: where a result comes from

A caller that gets `Ok((peer, payload))` relies on much: the codec of both
ends, the stream between them, the tables of both behaviours and the
queue of the handler. `remoteAnswers` is about all of them at once. If
the peer is honest, the caller's request has arrived there as it was sent,
a handler has had it, and `payload` is what this handler has answered to
this very request. And the handlers of a node have a request from an
honest peer only if the peer has sent it to them, and have it once.

Nothing is assumed about the order of the steps, about streams that
break, or about the other nodes, which send what they like.

The invariant `Sound` ties the halves together. An `Exchange` is a request
together with its arrival; it leads from the key of the request at its
sender to its number at the target. `Extends` says that no step undoes any
of this, so each kind of step has to explain only what is new.
-/

set_option autoImplicit false

namespace FrostMpcTss.Proofs

open Lib Network

/-! ### Requests at their target -/

variable {i : Nat}

namespace Inbound

variable {P : Type} {b b' : InboundBehaviour P}

theorem Frame.refl (r : InboundRequest P) : Frame r r :=
  ⟨rfl, rfl, rfl, rfl, fun h => h, fun _ h => h⟩

/-- No request has lost what it had. -/
def Kept (rs rs' : List (InboundRequest P)) : Prop :=
  ∀ (i : Nat) (r : InboundRequest P), rs[i]? = some r → ∃ r', rs'[i]? = some r' ∧ Frame r r'

/-- The requests are the same, and none has lost what it had. -/
def Evolves (rs rs' : List (InboundRequest P)) : Prop :=
  rs'.length = rs.length ∧ Kept rs rs'

theorem Evolves.refl (rs : List (InboundRequest P)) : Evolves rs rs :=
  ⟨rfl, fun _ r hr => ⟨r, hr, .refl r⟩⟩

/-- A change of one request that is a frame step. -/
theorem evolves_modify {f : InboundRequest P → InboundRequest P}
    (hf : ∀ r, b.requests[i]? = some r → Frame r (f r)) :
    Evolves b.requests (b.modifyRequest i f).requests := by
  refine ⟨List.length_modify .., fun j r hr => ?_⟩
  show ∃ r', (b.requests.modify i f)[j]? = some r' ∧ Frame r r'
  rw [List.getElem?_modify, hr]
  by_cases hj : i = j
  · subst hj
    exact ⟨f r, by simp, hf r hr⟩
  · exact ⟨r, by simp [hj], .refl r⟩

/-- A response fills the channel of its request and leaves the others. -/
theorem evolves_sendResponse {r : InboundRequest P} (hr : b.requests[i]? = some r)
    (payload : ByteVec) (sentFeedback : Option Nat) :
    Evolves b.requests (b.sendResponse i r payload sentFeedback).requests := by
  unfold InboundBehaviour.sendResponse
  split
  next hwaiting =>
      have hsent : Evolves b.requests (b.modifyRequest i fun r =>
          { r with rx := .closed, channel := .sent payload }).requests := by
        refine evolves_modify fun x hx => ?_
        obtain rfl : x = r := Option.some.inj (hx.symm.trans hr)
        have hchannel : x.channel = .waiting := by
          cases hc : x.channel <;> simp_all [Oneshot.isWaiting]
        exact ⟨rfl, rfl, rfl, rfl, fun _ => hchannel, fun p hp => by cases hchannel.symm.trans hp⟩
      cases sentFeedback with
      | none => exact hsent
      | some feedback => exact hsent
  next => exact evolves_modify fun _ _ => ⟨rfl, rfl, rfl, rfl, fun h => h, fun _ h => h⟩

/-- Only a request makes the list longer. -/
theorem evolves_next {l : InboundBehaviour.Label P} (hl : Swarm.isRequest l = false)
    (hnext : b.next l = some (.running b')) : Evolves b.requests b'.requests := by
  cases l with
  | request now peer key request reputation => cases hl
  | pollResponse i =>
      obtain ⟨_, hpoll, heq⟩ := Option.map_eq_some_iff.mp hnext
      cases heq
      -- the future has an answer, or it was dropped
      obtain ⟨r, hr, ⟨payload, sentFeedback, -, rfl⟩ | ⟨-, -, rfl⟩⟩ := pollResponse_cases hpoll
      · exact evolves_sendResponse hr payload sentFeedback
      · refine evolves_modify fun x _ => ⟨rfl, rfl, rfl, rfl, fun h => ?_, fun p hp => ?_⟩
        · cases hc : x.channel <;> simp_all [Oneshot.cancel]
        · simp [hp, Oneshot.cancel]
  | responseSent now peer key =>
      unfold InboundBehaviour.next at hnext
      dsimp only at hnext
      split at hnext
      next b'' hsent =>
          cases hnext
          obtain ⟨_, -, rfl⟩ := Option.map_eq_some_iff.mp hsent
          exact .refl _
      next => cases hnext
  | inboundFailure peer key error =>
      cases hnext
      exact .refl _
  | takeRequest protocol =>
      obtain ⟨_, htake, heq⟩ := Option.map_eq_some_iff.mp hnext
      cases heq
      unfold InboundBehaviour.takeRequest at htake
      split at htake
      · split at htake
        · cases htake
          exact .refl _
        · cases htake
      · cases htake
  | closeQueue protocol =>
      obtain ⟨_, hclose, heq⟩ := Option.map_eq_some_iff.mp hnext
      cases heq
      unfold InboundBehaviour.closeQueue at hclose
      split at hclose
      · cases hclose
        exact .refl _
      · cases hclose
  | answer i response =>
      obtain ⟨_, hanswer, heq⟩ := Option.map_eq_some_iff.mp hnext
      cases heq
      obtain ⟨-, heq⟩ := Option.ite_none_right_eq_some.mp hanswer
      cases heq
      exact evolves_modify fun _ _ => ⟨rfl, rfl, rfl, rfl, fun h => h, fun _ h => h⟩
  | dropHandle i =>
      obtain ⟨_, hdrop, heq⟩ := Option.map_eq_some_iff.mp hnext
      cases heq
      obtain ⟨-, heq⟩ := Option.ite_none_right_eq_some.mp hdrop
      cases heq
      exact evolves_modify fun _ _ => ⟨rfl, rfl, rfl, rfl, fun h => h, fun _ h => h⟩
  | closeChannel i =>
      cases hnext
      refine evolves_modify fun x _ => ⟨rfl, rfl, rfl, rfl, fun h => ?_, fun p hp => ?_⟩
      · cases hc : x.channel <;> simp_all [Oneshot.isWaiting]
      · simp [hp, Oneshot.isWaiting]

/-- A request that comes in is a new one, with the peer and the message that
the stream says. -/
theorem requests_onRequest (b : InboundBehaviour P) (now : Nat) (peer : P)
    (key : ProtocolRequestId) (request : WireMessage) (reputation : Int) :
    ∃ r, (b.onRequest now peer key request reputation).requests = b.requests ++ [r] ∧
      r.peer = peer ∧ r.request = request := by
  unfold InboundBehaviour.onRequest
  dsimp only
  split
  · exact ⟨_, rfl, rfl, rfl⟩
  · rcases submit_cases { b with arrivalTime := b.arrivalTime.insert key now } key.protocol
      (InboundBehaviour.incoming peer request b.requests.length) with hsame | ⟨q, -, hq⟩
    · rw [hsame]
      exact ⟨_, rfl, rfl, rfl⟩
    · rw [hq]
      exact ⟨_, rfl, rfl, rfl⟩

end Inbound

/-! ### The swarm -/

namespace Remote

open Inbound Outbound

variable {P : Type} {cfg : SwarmConfig P} {s s' : Swarm P}

/-- A request of `a`, as it has arrived at its target. -/
structure Exchange (s : Swarm P) (a : P) (key : ProtocolRequestId) (peer : P) (i : Nat)
    (r : InboundRequest P) : Prop where
  sent : (s.nodes a).outbound.sentMessage key = some (peer, r.request)
  arrived : s.arrivedAs (a, key) = some i
  request : s.requestAt peer i = some r
  sender : r.peer = a

/-- The invariant of the swarm. -/
structure Sound (cfg : SwarmConfig P) (s : Swarm P) : Prop where
  books : ∀ a, Bookkeeping (s.nodes a).outbound
  keyed : ∀ a, Keyed (s.nodes a).outbound (s.nodes a).keys
  inbound : ∀ p, ∃ b, (s.nodes p).inbound = .running b ∧ InboundExact b
  arrived : ∀ a key i, s.arrivedAs (a, key) = some i → ∃ peer r, Exchange s a key peer i r
  /-- A request that has an honest sender was sent. -/
  origin : ∀ p i r, s.requestAt p i = some r → cfg.honest r.peer = true →
    ∃ key, Exchange s r.peer key p i r
  separate : ∀ a key key' p i r r', Exchange s a key p i r → Exchange s a key' p i r' → key = key'
  /-- A result that has an honest sender was sent. -/
  answers : ∀ a tx t, (s.nodes a).outbound.bridges[tx]? = some t → ∀ peer payload,
    .ok (peer, payload) ∈ t.produced → cfg.honest peer = true →
      ∃ key i r response, (s.nodes a).keys tx = some key ∧ Exchange s a key peer i r ∧
        r.channel = .sent response ∧ response.1 = payload

/-- Nothing of `s` is lost in `s'`. -/
structure Extends (s s' : Swarm P) : Prop where
  sent : ∀ a key x, (s.nodes a).outbound.sentMessage key = some x →
    (s'.nodes a).outbound.sentMessage key = some x
  keys : ∀ a tx key, (s.nodes a).keys tx = some key → (s'.nodes a).keys tx = some key
  arrived : ∀ e i, s.arrivedAs e = some i → s'.arrivedAs e = some i
  requests : ∀ p i r, s.requestAt p i = some r → ∃ r', s'.requestAt p i = some r' ∧ Frame r r'

/-- An exchange goes on. -/
theorem Exchange.mono {a peer : P} {key : ProtocolRequestId} {r : InboundRequest P}
    (h : Exchange s a key peer i r) (hextends : Extends s s') :
    ∃ r', Exchange s' a key peer i r' ∧ Frame r r' := by
  obtain ⟨r', hr', hframe⟩ := hextends.requests peer i r h.request
  refine ⟨r', ⟨?_, hextends.arrived _ i h.arrived, hr', hframe.peer.trans h.sender⟩, hframe⟩
  rw [hframe.request]
  exact hextends.sent a key _ h.sent

/-- A key leads to one target. -/
theorem Exchange.target_unique {a peer peer' : P} {key : ProtocolRequestId} {i' : Nat}
    {r r' : InboundRequest P} (h : Exchange s a key peer i r) (h' : Exchange s a key peer' i' r') :
    peer = peer' :=
  congrArg Prod.fst (Option.some.inj (h.sent.symm.trans h'.sent))

/-- An exchange that had arrived before is the one it was. -/
theorem Exchange.before {a peer : P} {key : ProtocolRequestId} {r' : InboundRequest P}
    (hsound : Sound cfg s) (hextends : Extends s s') (h : Exchange s' a key peer i r')
    (harrived : s.arrivedAs (a, key) = some i) : ∃ r, Exchange s a key peer i r := by
  obtain ⟨peer', r, hr⟩ := hsound.arrived a key i harrived
  have hsame := (hextends.sent a key _ hr.sent).symm.trans h.sent
  cases congrArg Prod.fst (Option.some.inj hsame)
  exact ⟨r, hr⟩

/-- What has arrived belongs to an exchange that goes on. -/
theorem Sound.arrived_mono (hsound : Sound cfg s) (hextends : Extends s s') {a : P}
    {key : ProtocolRequestId} (hi : s.arrivedAs (a, key) = some i) :
    ∃ peer r, Exchange s' a key peer i r := by
  obtain ⟨peer, r, hr⟩ := hsound.arrived a key i hi
  obtain ⟨r', hr', -⟩ := hr.mono hextends
  exact ⟨peer, r', hr'⟩

/-- A request that was there still has its sender. -/
theorem Sound.origin_mono (hsound : Sound cfg s) (hextends : Extends s s') {p : P}
    {r r' : InboundRequest P} (hr : s.requestAt p i = some r) (hr' : s'.requestAt p i = some r')
    (hhonest : cfg.honest r'.peer = true) : ∃ key, Exchange s' r'.peer key p i r' := by
  obtain ⟨_, hsame, hframe⟩ := hextends.requests p i r hr
  cases hr'.symm.trans hsame
  rw [hframe.peer] at hhonest ⊢
  obtain ⟨key, hkey⟩ := hsound.origin p i r hr hhonest
  obtain ⟨_, hexchange, -⟩ := hkey.mono hextends
  cases hr'.symm.trans hexchange.request
  exact ⟨key, hexchange⟩

/-- An answer that was there is still there. -/
theorem Sound.answers_mono (hsound : Sound cfg s) (hextends : Extends s s') {a peer : P} {tx : Nat}
    {t : Bridge P} (ht : (s.nodes a).outbound.bridges[tx]? = some t) {payload : Bytes}
    (hmem : .ok (peer, payload) ∈ t.produced) (hhonest : cfg.honest peer = true) :
    ∃ key i r response, (s'.nodes a).keys tx = some key ∧ Exchange s' a key peer i r ∧
      r.channel = .sent response ∧ response.1 = payload := by
  obtain ⟨key, i, r, response, hkey, hexchange, hchannel, hpayload⟩ :=
    hsound.answers a tx t ht peer payload hmem hhonest
  obtain ⟨r', hexchange', hframe⟩ := hexchange.mono hextends
  exact ⟨key, i, r', response, hextends.keys a tx key hkey, hexchange',
    hframe.sent response hchannel, hpayload⟩

theorem requestAt_of_running {p : P} {b : InboundBehaviour P}
    (hb : (s.nodes p).inbound = .running b) (i : Nat) :
    s.requestAt p i = b.requests[i]? := by
  unfold Swarm.requestAt
  rw [hb]

/-- A payload that is read from what a node has written is the response
that its libp2p was given. -/
theorem payload_of_written [Varint] [LawfulVarintCut] {a target : P} {key : ProtocolRequestId}
    {codec : GenericCodec} {io : Bytes} {payload : ByteVec} (hio : io <+: s.written a key target)
    (hread : (codec.readResponse io).outcome = .ok (.ok payload)) :
    ∃ i r, s.arrivedAs (a, key) = some i ∧ s.requestAt target i = some r ∧
      r.channel = .sent payload := by
  have hempty : ¬ io <+: [] := by
    intro hnil
    rw [List.prefix_nil.mp hnil, GenericCodec.readResponse, LawfulVarint.readU64_nil] at hread
    cases hread
  unfold Swarm.written at hio
  split at hio
  next r hr =>
      obtain ⟨i, hi, hr⟩ := Option.bind_eq_some_iff.mp hr
      split at hio
      next response hchannel =>
          rw [payload_of_read hio hread]
          exact ⟨i, r, hi, hr, hchannel⟩
      next => exact absurd hio hempty
  next => exact absurd hio hempty

/-- Every node's outbound half is a new one. -/
def Configured (cfg : SwarmConfig P) : Prop :=
  ∀ a, ∃ list requestIds buffer,
    RequestResponsesBehaviour.new list requestIds buffer = .ok (cfg.outbound a)

/-- Nothing has been exchanged at the start. -/
theorem sound_start (hcfg : Configured cfg) : Sound cfg (.start cfg) := by
  have hnone : ∀ p i, (Swarm.start cfg).requestAt p i = none := fun _ _ => rfl
  refine
    { books := fun a => ?_
      keyed := fun a => ?_
      inbound := fun p => ⟨_, rfl, exact_new (cfg.capacities p)⟩
      arrived := fun _ _ _ hi => by cases hi
      origin := fun p i r hr _ => by cases (hnone p i).symm.trans hr
      separate := fun _ _ _ _ _ _ _ hr => by cases hr.arrived
      answers := fun a tx t ht => ?_ }
  · obtain ⟨list, requestIds, buffer, hnew⟩ := hcfg a
    exact bookkeeping_new hnew
  · obtain ⟨list, requestIds, buffer, hnew⟩ := hcfg a
    have hholds : ∀ key tx, ¬ Holds (cfg.outbound a) key tx := by
      intro key tx h
      obtain ⟨t, ht, -⟩ := (bookkeeping_new hnew).matching.isOpen_of_leads h
      rw [(new_cases hnew).1] at ht
      cases ht
    refine ⟨fun _ _ hkey => ?_, fun key tx h => absurd h (hholds key tx),
      fun key tx h => absurd h (hholds key tx)⟩
    cases hkey
  · obtain ⟨list, requestIds, buffer, hnew⟩ := hcfg a
    have ht : (cfg.outbound a).bridges[tx]? = some t := ht
    rw [(new_cases hnew).1] at ht
    cases ht

/-! ### Steps of an outbound half -/

variable [DecidableEq P]

section SetOutbound

variable {a : P} {b : RequestResponsesBehaviour P}

theorem nodes_setOutbound_self (s : Swarm P) (a : P) (b : RequestResponsesBehaviour P) :
    (s.setOutbound a b).nodes a =
      { s.nodes a with
          outbound := b
          keys := fun tx => ((s.nodes a).keys tx).or (b.keyOf tx) } :=
  Function.update_self ..

theorem nodes_setOutbound_of_ne {q : P} (hq : q ≠ a) :
    (s.setOutbound a b).nodes q = s.nodes q :=
  Function.update_of_ne hq ..

theorem inbound_setOutbound (s : Swarm P) (a : P) (b : RequestResponsesBehaviour P) (p : P) :
    ((s.setOutbound a b).nodes p).inbound = (s.nodes p).inbound := by
  by_cases hp : p = a
  · subst hp
    rw [nodes_setOutbound_self]
  · rw [nodes_setOutbound_of_ne hp]

theorem requestAt_setOutbound (s : Swarm P) (a : P) (b : RequestResponsesBehaviour P) (p : P)
    (i : Nat) : (s.setOutbound a b).requestAt p i = s.requestAt p i := by
  unfold Swarm.requestAt
  rw [inbound_setOutbound]

/-- An outbound step keeps what the nodes have exchanged. -/
theorem extends_setOutbound {fresh : ProtocolRequestId → Bytes → Prop}
    (hgrows : Grows fresh (s.nodes a).outbound b) : Extends s (s.setOutbound a b) where
  sent q key x hx := by
    by_cases hq : q = a
    · subst hq
      rw [nodes_setOutbound_self]
      exact hgrows.sent key x hx
    · rw [nodes_setOutbound_of_ne hq]
      exact hx
  keys q tx key hkey := by
    by_cases hq : q = a
    · subst hq
      rw [nodes_setOutbound_self]
      show ((s.nodes q).keys tx).or _ = some key
      rw [hkey, Option.some_or]
    · rw [nodes_setOutbound_of_ne hq]
      exact hkey
  arrived _ _ h := h
  requests p i r hr := ⟨r, (requestAt_setOutbound s a b p i).trans hr, .refl r⟩

/-- A step of the outbound half of `a`. If it is a response of an honest
peer, it is what the peer has sent. -/
theorem sound_setOutbound (h : Sound cfg s) {l : RequestResponsesBehaviour.Label P}
    (hstep : (s.nodes a).outbound.step l = some b)
    (hfresh : ∀ key payload, Responds l key payload → ∀ peer message,
      (s.nodes a).outbound.sentMessage key = some (peer, message) → cfg.honest peer = true →
      ∃ i r response, s.arrivedAs (a, key) = some i ∧ s.requestAt peer i = some r ∧
        r.channel = .sent response ∧ response.1 = payload) :
    Sound cfg (s.setOutbound a b) := by
  have hgrows := grows_step (h.books a) hstep
  have hbook := bookkeeping_step (h.books a) hstep
  have hextends := extends_setOutbound hgrows
  have hrequest := requestAt_setOutbound s a b
  refine
    { books := fun q => ?_
      keyed := fun q => ?_
      inbound := fun p => ?_
      arrived := fun q key i hi => ?_
      origin := fun p i r hr hhonest => ?_
      separate := fun q key key' p i r r' hr hr' => ?_
      answers := fun q tx t ht peer payload hmem hhonest => ?_ }
  · by_cases hq : q = a
    · subst hq
      rw [nodes_setOutbound_self]
      exact hbook
    · rw [nodes_setOutbound_of_ne hq]
      exact h.books q
  · by_cases hq : q = a
    · subst hq
      rw [nodes_setOutbound_self]
      exact (h.keyed q).step hgrows hbook
    · rw [nodes_setOutbound_of_ne hq]
      exact h.keyed q
  · rw [inbound_setOutbound]
    exact h.inbound p
  · exact h.arrived_mono hextends hi
  · exact h.origin_mono hextends ((hrequest p i).symm.trans hr) hr hhonest
  · obtain ⟨x, hx⟩ := hr.before h hextends hr.arrived
    obtain ⟨x', hx'⟩ := hr'.before h hextends hr'.arrived
    exact h.separate q key key' p i x x' hx hx'
  · by_cases hq : q = a
    · subst hq
      have htx : b.bridges[tx]? = some t := by
        rw [nodes_setOutbound_self] at ht
        exact ht
      rcases hgrows.produced tx t htx peer payload hmem with ⟨t₀, ht₀, hold⟩ | ⟨rfl, key, hnew⟩
      · exact h.answers_mono hextends ht₀ hold hhonest
      · -- the request was pending, and its key leads to the exchange
        obtain ⟨t₁, message, ht₁, hsent⟩ := (h.keyed q).sent key tx hnew.1
        obtain ⟨t₂, ht₂, htarget⟩ := hgrows.target ht₁
        cases htx.symm.trans ht₂
        rw [htarget] at hhonest ⊢
        obtain ⟨i, r, response, hi, hr, hchannel, hpayload⟩ :=
          hfresh key payload hnew.2 _ message hsent hhonest
        obtain ⟨peer, x, hx⟩ := h.arrived q key i hi
        cases congrArg Prod.fst (Option.some.inj (hx.sent.symm.trans hsent))
        cases hx.request.symm.trans hr
        obtain ⟨r', hr', hframe⟩ := hx.mono hextends
        exact ⟨key, i, r', response,
          hextends.keys q tx key ((h.keyed q).pending key tx hnew.1), hr',
          hframe.sent response hchannel, hpayload⟩
    · rw [nodes_setOutbound_of_ne hq] at ht
      exact h.answers_mono hextends ht hmem hhonest

end SetOutbound

/-! ### Steps of an inbound half -/

section SetInbound

variable {p : P} {b b' : InboundBehaviour P}

theorem nodes_setInbound_self (s : Swarm P) (p : P) (x : InboundBehaviour.State P) :
    (s.setInbound p x).nodes p = { s.nodes p with inbound := x } :=
  Function.update_self ..

theorem nodes_setInbound_of_ne (x : InboundBehaviour.State P) {q : P} (hq : q ≠ p) :
    (s.setInbound p x).nodes q = s.nodes q :=
  Function.update_of_ne hq ..

theorem outbound_setInbound (s : Swarm P) (p : P) (x : InboundBehaviour.State P) (q : P) :
    ((s.setInbound p x).nodes q).outbound = (s.nodes q).outbound := by
  by_cases hq : q = p
  · subst hq
    rw [nodes_setInbound_self]
  · rw [nodes_setInbound_of_ne x hq]

theorem keys_setInbound (s : Swarm P) (p : P) (x : InboundBehaviour.State P) (q : P) :
    ((s.setInbound p x).nodes q).keys = (s.nodes q).keys := by
  by_cases hq : q = p
  · subst hq
    rw [nodes_setInbound_self]
  · rw [nodes_setInbound_of_ne x hq]

/-- The inbound half of a node goes on, and the exchanges may become more.
What is left to show is where requests that are new come from. -/
theorem sound_setInbound (h : Sound cfg s) (hexact : InboundExact b')
    (hs' : s'.nodes = (s.setInbound p (.running b')).nodes) (hextends : Extends s s')
    {e : Option (P × ProtocolRequestId)}
    (harrived : ∀ a key i, s'.arrivedAs (a, key) = some i → s.arrivedAs (a, key) = some i ∨
      e = some (a, key) ∧ s.requestAt p i = none ∧ ∃ r, Exchange s' a key p i r)
    (horigin : ∀ i r, b'.requests[i]? = some r → cfg.honest r.peer = true →
      s.requestAt p i = none → ∃ key, Exchange s' r.peer key p i r) :
    Sound cfg s' := by
  have houtbound : ∀ q, (s'.nodes q).outbound = (s.nodes q).outbound := by
    intro q
    rw [hs']
    exact outbound_setInbound s p _ q
  have hkeys : ∀ q, (s'.nodes q).keys = (s.nodes q).keys := by
    intro q
    rw [hs']
    exact keys_setInbound s p _ q
  have hself : (s'.nodes p).inbound = .running b' := by
    rw [hs', nodes_setInbound_self]
  have hother : ∀ q, q ≠ p → (s'.nodes q).inbound = (s.nodes q).inbound := by
    intro q hq
    rw [hs', nodes_setInbound_of_ne _ hq]
  refine
    { books := fun q => houtbound q ▸ h.books q
      keyed := fun q => by rw [houtbound, hkeys]; exact h.keyed q
      inbound := fun q => ?_
      arrived := fun a key i hi => ?_
      origin := fun q i r hr hhonest => ?_
      separate := fun a key key' q i r r' hr hr' => ?_
      answers := fun q tx t ht peer payload hmem hhonest =>
        h.answers_mono hextends (houtbound q ▸ ht) hmem hhonest }
  · by_cases hq : q = p
    · subst hq
      exact ⟨b', hself, hexact⟩
    · rw [hother q hq]
      exact h.inbound q
  · rcases harrived a key i hi with hold | ⟨-, -, r, hr⟩
    · exact h.arrived_mono hextends hold
    · exact ⟨p, r, hr⟩
  · cases hbefore : s.requestAt q i with
    | some r₀ => exact h.origin_mono hextends hbefore hr hhonest
    | none =>
        by_cases hq : q = p
        · subst hq
          rw [requestAt_of_running hself] at hr
          exact horigin i r hr hhonest hbefore
        · have hsame : s'.requestAt q i = s.requestAt q i := by
            unfold Swarm.requestAt
            rw [hother q hq]
          rw [hsame, hbefore] at hr
          cases hr
  · -- an exchange that was there has another number than one that is new
    rcases harrived a key i hr.arrived with hold | ⟨hnew, hnone, x, hx⟩
    · rcases harrived a key' i hr'.arrived with hold' | ⟨-, hnone, x', hx'⟩
      · obtain ⟨y, hy⟩ := hr.before h hextends hold
        obtain ⟨y', hy'⟩ := hr'.before h hextends hold'
        exact h.separate a key key' q i y y' hy hy'
      · cases hx'.target_unique hr'
        obtain ⟨y, hy⟩ := hr.before h hextends hold
        cases hnone.symm.trans hy.request
    · rcases harrived a key' i hr'.arrived with hold' | ⟨hnew', -, -⟩
      · cases hx.target_unique hr
        obtain ⟨y, hy⟩ := hr'.before h hextends hold'
        cases hnone.symm.trans hy.request
      · cases hnew.symm.trans hnew'
        rfl

/-- An inbound step keeps what the nodes have exchanged. -/
theorem extends_setInbound (hb : (s.nodes p).inbound = .running b)
    (hs' : s'.nodes = (s.setInbound p (.running b')).nodes)
    (harrived : ∀ e i, s.arrivedAs e = some i → s'.arrivedAs e = some i)
    (hframes : Kept b.requests b'.requests) : Extends s s' where
  sent q key x hx := by
    rw [hs', outbound_setInbound]
    exact hx
  keys q tx key hkey := by
    rw [hs', keys_setInbound]
    exact hkey
  arrived := harrived
  requests q i r hr := by
    by_cases hq : q = p
    · subst hq
      have hb' : (s'.nodes q).inbound = .running b' := by rw [hs', nodes_setInbound_self]
      rw [requestAt_of_running hb] at hr
      rw [requestAt_of_running hb']
      exact hframes i r hr
    · refine ⟨r, ?_, .refl r⟩
      rw [← hr]
      unfold Swarm.requestAt
      rw [hs', nodes_setInbound_of_ne _ hq]

/-- A step that is not the arrival of a request. -/
theorem sound_next (h : Sound cfg s) (hb : (s.nodes p).inbound = .running b)
    {l : InboundBehaviour.Label P} (hl : Swarm.isRequest l = false)
    (hpromised : b.contract l = true) {x : InboundBehaviour.State P} (hnext : b.next l = some x) :
    Sound cfg (s.setInbound p x) := by
  obtain ⟨b₀, hb₀, hexact⟩ := h.inbound p
  cases hb.symm.trans hb₀
  obtain ⟨b', rfl, hexact'⟩ := exact_next hexact hpromised hnext
  obtain ⟨hlength, hframes⟩ := evolves_next hl hnext
  refine sound_setInbound h hexact' rfl
    (extends_setInbound hb rfl (fun _ _ hi => hi) hframes) (e := none)
    (fun _ _ _ hi => .inl hi) ?_
  intro i r hr _ hnone
  -- there is no request that was not there before
  rw [requestAt_of_running hb, List.getElem?_eq_none_iff, ← hlength] at hnone
  exact absurd (List.getElem?_eq_some_iff.mp hr).1 (Nat.not_lt.mpr hnone)

/-- A request arrives. Its sender is dishonest, or has sent it. -/
theorem sound_onRequest (h : Sound cfg s) (hb : (s.nodes p).inbound = .running b) {now : Nat}
    {a : P} {k : ProtocolRequestId} {request : WireMessage} {reputation : Int}
    (hpromised : b.contract (.request now a k request reputation) = true)
    (hs' : s'.nodes =
      (s.setInbound p (.running (b.onRequest now a k request reputation))).nodes)
    (hsender : cfg.honest a = false ∧ s'.arrivedAs = s.arrivedAs ∨
      ∃ key, s.arrivedAs (a, key) = none ∧
        (s.nodes a).outbound.sentMessage key = some (p, request) ∧
        s'.arrivedAs = Function.update s.arrivedAs (a, key) (some b.requests.length)) :
    Sound cfg s' := by
  obtain ⟨b₀, hb₀, hexact⟩ := h.inbound p
  cases hb.symm.trans hb₀
  obtain ⟨r, hrequests, hpeer, hrequest⟩ := requests_onRequest b now a k request reputation
  have hexact' := exact_onRequest hexact hpromised
  have hb' : (s'.nodes p).inbound = .running (b.onRequest now a k request reputation) := by
    rw [hs', nodes_setInbound_self]
  have hframes : Kept b.requests (b.onRequest now a k request reputation).requests := by
    intro i x hx
    refine ⟨x, ?_, .refl x⟩
    rw [hrequests, List.getElem?_append_left (List.getElem?_eq_some_iff.mp hx).1, hx]
  have hlast : (b.onRequest now a k request reputation).requests[b.requests.length]? = some r := by
    rw [hrequests, List.getElem?_append_right (Nat.le_refl _), Nat.sub_self]
    rfl
  have hfree : s.requestAt p b.requests.length = none := by
    rw [requestAt_of_running hb]
    exact List.getElem?_eq_none (Nat.le_refl _)
  -- a request that was not there is the one that has arrived
  have honly : ∀ i x, (b.onRequest now a k request reputation).requests[i]? = some x →
      s.requestAt p i = none → i = b.requests.length ∧ x = r := by
    intro i x hx hnone
    rw [requestAt_of_running hb, List.getElem?_eq_none_iff] at hnone
    have hlt := (List.getElem?_eq_some_iff.mp hx).1
    rw [hrequests, List.length_append, List.length_singleton] at hlt
    obtain rfl : i = b.requests.length := by omega
    exact ⟨rfl, Option.some.inj (hx.symm.trans hlast)⟩
  rcases hsender with ⟨hdishonest, harrivedAs⟩ | ⟨key, hfresh, hsent, harrivedAs⟩
  · refine sound_setInbound h hexact' hs'
      (extends_setInbound hb hs' (fun e i hi => harrivedAs ▸ hi) hframes) (e := none)
      (fun _ _ _ hi => .inl (harrivedAs ▸ hi)) ?_
    intro i x hx hhonest hnone
    obtain ⟨-, rfl⟩ := honly i x hx hnone
    rw [hpeer, hdishonest] at hhonest
    cases hhonest
  · have harrived : ∀ e i, s.arrivedAs e = some i → s'.arrivedAs e = some i := by
      intro e i hi
      have hne : e ≠ (a, key) := by
        rintro rfl
        cases hfresh.symm.trans hi
      rw [harrivedAs, Function.update_of_ne hne, hi]
    have hextends := extends_setInbound hb hs' harrived hframes
    have hexchange : Exchange s' a key p b.requests.length r := by
      refine ⟨?_, ?_, ?_, hpeer⟩
      · rw [hrequest]
        exact hextends.sent a key _ hsent
      · rw [harrivedAs, Function.update_self]
      · rw [requestAt_of_running hb', hlast]
    refine sound_setInbound h hexact' hs' hextends (e := some (a, key)) ?_ ?_
    · intro a' key' i hi
      by_cases hsame : (a', key') = (a, key)
      · cases hsame
        rw [harrivedAs, Function.update_self] at hi
        cases hi
        exact .inr ⟨rfl, hfree, r, hexchange⟩
      · rw [harrivedAs, Function.update_of_ne hsame] at hi
        exact .inl hi
    · intro i x hx _ hnone
      obtain ⟨rfl, rfl⟩ := honly i x hx hnone
      exact ⟨key, hpeer.symm ▸ hexchange⟩

end SetInbound

/-! ### Steps of the swarm -/

/-- An inbound step is one that the contract of the callers allows. -/
theorem stepInbound_cases (h : Sound cfg s) {p : P} {l : InboundBehaviour.Label P}
    (hstep : s.stepInbound p l = some s') :
    ∃ b x, (s.nodes p).inbound = .running b ∧ b.contract l = true ∧ b.next l = some x ∧
      s' = s.setInbound p x := by
  obtain ⟨b, hb, -⟩ := h.inbound p
  obtain ⟨hpromised, hstep⟩ := Option.ite_none_right_eq_some.mp hstep
  rw [hb] at hpromised hstep
  obtain ⟨x, hnext, rfl⟩ := Option.map_eq_some_iff.mp hstep
  exact ⟨b, x, hb, hpromised, hnext, rfl⟩

/-- A request that is read from a stream arrives at the node. -/
theorem readRequest_cases [Varint] (h : Sound cfg s) {a p : P} {io : Bytes} {now : Nat}
    {key : ProtocolRequestId} {reputation : Int}
    (hread : Swarm.readRequest cfg s a p io now key reputation = some s') :
    ∃ b request, ((cfg.codec p key.protocol).readRequest io).outcome = .ok request ∧
      (s.nodes p).inbound = .running b ∧
      b.contract (.request now a key request reputation) = true ∧
      s' = s.setInbound p (.running (b.onRequest now a key request reputation)) := by
  unfold Swarm.readRequest at hread
  split at hread
  next request houtcome =>
      obtain ⟨b, x, hb, hpromised, hnext, rfl⟩ := stepInbound_cases h hread
      cases hnext
      exact ⟨b, request, houtcome, hb, hpromised, rfl⟩
  next => cases hread

/-- Every step of the swarm keeps the invariant. -/
theorem sound_step [Varint] [LawfulVarintCut] (h : Sound cfg s) {l : SwarmLabel P}
    (hstep : s.step cfg l = some s') : Sound cfg s' := by
  cases l with
  | outbound a l =>
      obtain ⟨hl, hstep⟩ := Option.ite_none_left_eq_some.mp hstep
      obtain ⟨b, hb, rfl⟩ := Option.map_eq_some_iff.mp hstep
      refine sound_setOutbound h hb ?_
      intro key payload hresponds
      unfold Responds at hresponds
      split at hresponds
      next => exact absurd rfl hl
      next => exact hresponds.elim
  | inbound p l =>
      obtain ⟨hl, hstep⟩ := Option.ite_none_left_eq_some.mp hstep
      obtain ⟨b, x, hb, hpromised, hnext, rfl⟩ := stepInbound_cases h hstep
      exact sound_next h hb (Bool.eq_false_iff.mpr hl) hpromised hnext
  | arrive a key io now requestId reputation =>
      unfold Swarm.step at hstep
      dsimp only at hstep
      split at hstep
      next => cases hstep
      next target message hsent =>
          obtain ⟨⟨hfresh, hio⟩, hstep⟩ := Option.ite_none_right_eq_some.mp hstep
          obtain ⟨s₁, hread, rfl⟩ := Option.map_eq_some_iff.mp hstep
          obtain ⟨b, request, houtcome, hb, hpromised, rfl⟩ := readRequest_cases h hread
          -- the target has read a prefix of what was written, so it has read the message
          cases message_of_read (List.isPrefixOf_iff_prefix.mp hio) houtcome
          refine sound_onRequest h hb hpromised rfl (.inr ⟨key, hfresh, hsent, ?_⟩)
          show Function.update s.arrivedAs (a, key) (some (s.nextNumber target)) = _
          unfold Swarm.nextNumber
          rw [hb]
  | inject a p io now key reputation =>
      obtain ⟨hdishonest, hread⟩ := Option.ite_none_left_eq_some.mp hstep
      obtain ⟨b, request, -, hb, hpromised, rfl⟩ := readRequest_cases h hread
      exact sound_onRequest h hb hpromised rfl (.inl ⟨Bool.eq_false_iff.mpr hdishonest, rfl⟩)
  | respond a key io now =>
      unfold Swarm.step at hstep
      dsimp only at hstep
      split at hstep
      next => cases hstep
      next target message hsent =>
          obtain ⟨hio, hstep⟩ := Option.ite_none_right_eq_some.mp hstep
          split at hstep
          next response houtcome =>
              obtain ⟨b, hb, rfl⟩ := Option.map_eq_some_iff.mp hstep
              refine sound_setOutbound h hb ?_
              rintro key' payload ⟨rfl, hpayload⟩ peer message' hsent' hhonest
              cases hsent.symm.trans hsent'
              -- an honest target has written what its handler answered
              rw [hhonest, Bool.not_true, Bool.false_or, List.isPrefixOf_iff_prefix] at hio
              cases response with
              | error u => cases hpayload
              | ok value =>
                  cases hpayload
                  obtain ⟨i, r, hi, hr, hchannel⟩ := payload_of_written hio houtcome
                  exact ⟨i, r, value, hi, hr, hchannel, rfl⟩
          next => cases hstep

/-! ### Runs -/

/-- Honest nodes get what honest nodes have sent. -/
structure Authentic (cfg : SwarmConfig P) (s : Swarm P) : Prop where
  /-- A result `Ok` of a request is from its target. If this is honest, the
  request has arrived there as it was sent, a handler has had it, and the
  result is what the handler has answered to it. -/
  results : ∀ a tx t, (s.nodes a).outbound.bridges[tx]? = some t → ∀ peer payload,
    .ok (peer, payload) ∈ t.produced → peer = t.target ∧
      (cfg.honest peer = true → ∃ key i r b response feedback,
        (s.nodes a).keys tx = some key ∧ Exchange s a key peer i r ∧
        (s.nodes peer).inbound = .running b ∧
        InboundBehaviour.incoming a r.request i ∈ b.handled ∧
        r.answer = some ⟨.ok response, feedback⟩ ∧ response.1 = payload)
  /-- Handlers have the requests of an honest peer as they were sent. -/
  requests : ∀ p b, (s.nodes p).inbound = .running b → ∀ m ∈ b.handled,
    cfg.honest m.peerId = true → ∃ key r, Exchange s m.peerId key p m.pendingResponse r ∧
      m = InboundBehaviour.incoming m.peerId r.request m.pendingResponse
  /-- No request is handled twice. -/
  once : ∀ p b, (s.nodes p).inbound = .running b → (b.handled.map (·.pendingResponse)).Nodup
  separate : ∀ a key key' p i r r', Exchange s a key p i r → Exchange s a key' p i r' → key = key'

/-- In every run of the nodes, whatever the dishonest ones send and wherever
a stream breaks, results and requests are authentic. -/
theorem remoteAnswers [Varint] [LawfulVarintCut] (hcfg : Configured cfg)
    (h : Reach (Swarm.step cfg) Always (.start cfg) s) : Authentic cfg s := by
  have hsound : Sound cfg s :=
    h.invariant (sound_start hcfg) fun _ _ _ hs _ hstep => sound_step hs hstep
  refine ⟨fun a tx t ht peer payload hmem => ⟨?_, fun hhonest => ?_⟩, fun p b hb m hm hhonest => ?_,
    fun p b hb => ?_, hsound.separate⟩
  · exact target_of_produced ((hsound.books a).accounted t (List.mem_of_getElem? ht)) hmem
  · obtain ⟨key, i, r, response, hkey, hexchange, hchannel, hpayload⟩ :=
      hsound.answers a tx t ht peer payload hmem hhonest
    obtain ⟨b, hb, hexact⟩ := hsound.inbound peer
    have hr := hexchange.request
    rw [requestAt_of_running hb] at hr
    -- libp2p has what the handler has answered, and the handler had the request
    obtain ⟨-, feedback, hanswer⟩ :=
      (hexact.books.consistent r (List.mem_of_getElem? hr)).sent response hchannel
    obtain ⟨m, hm, rfl⟩ := List.mem_map.mp
      (hexact.deliveries.answered i r hr (by rw [hanswer]; rfl))
    obtain ⟨x, hx, hmatches⟩ := hexact.deliveries.taken m hm
    cases hr.symm.trans hx
    rw [hexchange.sender] at hmatches
    exact ⟨key, m.pendingResponse, r, b, response, feedback, hkey, hexchange, hb,
      hmatches ▸ hm, hanswer, hpayload⟩
  · obtain ⟨b₀, hb₀, hexact⟩ := hsound.inbound p
    cases hb.symm.trans hb₀
    obtain ⟨r, hr, hmatches⟩ := hexact.deliveries.taken m hm
    have hpeer : m.peerId = r.peer := congrArg IncomingRequest.peerId hmatches
    rw [hpeer] at hhonest ⊢
    obtain ⟨key, hexchange⟩ := hsound.origin p m.pendingResponse r
      ((requestAt_of_running hb _).trans hr) hhonest
    exact ⟨key, r, hexchange, hmatches⟩
  · obtain ⟨b₀, hb₀, hexact⟩ := hsound.inbound p
    cases hb.symm.trans hb₀
    exact hexact.deliveries.once

/-! ### One request and its answer -/

namespace OneAnswer

open scoped Leb128Wire

/-- The protocol and the id of the request at its sender. -/
def key : ProtocolRequestId := ⟨"/room/a", 1⟩

theorem length_oneByte (x : UInt8) : [x].length ≤ isizeMax := by
  show 1 ≤ isizeMax
  decide +kernel

def oneByte (x : UInt8) : ByteVec := ⟨[x], length_oneByte x⟩

/-- libp2p counts its requests from one. -/
def requestIds : Nat ↪ Nat := ⟨Nat.succ, Nat.succ_injective⟩

/-- A node that has one protocol. -/
def outbound : RequestResponsesBehaviour Bool where
  protocols :=
    Function.update (fun _ => none) key.protocol
      (some { requestTimeout := 10, requestIds := requestIds, sent := [] })
  pendingRequests := ∅
  fallbackRequests := []
  bridges := []
  channels _ := .new 8
  events := []
  multicasts := []

def twoNodes : SwarmConfig Bool where
  outbound _ := outbound
  capacities _ name := if name = key.protocol then some (some 8) else none
  codec _ _ := ⟨64, 64⟩
  honest _ := true

/-- Node `false` asks, node `true` answers. -/
def labels : List (SwarmLabel Bool) :=
  [.outbound false
      (.call ⟨fun _ => true, 0⟩
        (.sendRequestWithContext true key.protocol defaultContext (oneByte 1) false ⟨0, false⟩
          .immediateError)),
    .arrive false key (GenericCodec.writeRequest (wireMessage defaultContext (oneByte 1) false))
      1 7 0,
    .inbound true (.takeRequest key.protocol),
    .inbound true (.answer 0 { result := .ok (oneByte 3), sentFeedback := none }),
    .inbound true (.pollResponse 0),
    .respond false key (GenericCodec.writeResponse (.ok (oneByte 3))) 2]

/-- The results `Ok` of the requests of node `false`. -/
def results (s : Swarm Bool) : List (List (Bool × Bytes)) :=
  (s.nodes false).outbound.bridges.map fun t => t.produced.filterMap Except.toOption

/-- One request, answered by the node that it was sent to. -/
theorem remoteAnswers_oneAnswer : ∃ s, results s = [[(true, [3])]] ∧ Authentic twoNodes s := by
  have hcfg : Configured twoNodes := fun _ =>
    ⟨[⟨key.protocol, 10⟩], fun _ => requestIds, fun _ => 8, rfl⟩
  have hrun : (run (Swarm.step twoNodes) (.start twoNodes) labels).map results =
      some [[(true, [3])]] := by
    decide +kernel
  obtain ⟨s, hrun, hresults⟩ := Option.map_eq_some_iff.mp hrun
  exact ⟨s, hresults, remoteAnswers hcfg (reach_of_run labels hrun)⟩

end OneAnswer

end Remote

end FrostMpcTss.Proofs
