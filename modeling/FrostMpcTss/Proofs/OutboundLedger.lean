import FrostMpcTss.Lib.OpenItems
import FrostMpcTss.Lib.Transition
import FrostMpcTss.Network.OutboundRequests

/-!
# `FrostMpcTss.Proofs.OutboundLedger`: where the result of a request is

At every moment the result of a request is in one of three places. The
request is pending, its one-shot waits, and there is no result yet. Or
the one-shot holds the result, and the bridge has not run. Or the result
was offered to the response channel, by the bridge or by the call that
refused the request, and nothing is left that could offer a second one.

`Bookkeeping` says so for all requests at once. Its core is `matching`:
the entries of `pending_requests` and the waiting one-shots belong
together one to one. Request ids are fresh (`registered`), so a new entry
never replaces an old one; and no request made by these calls has a
fallback (`entries`), so none is taken out of `pending_requests` without
a result. `bookkeeping_step` shows that every step keeps all of it.
-/

set_option autoImplicit false

namespace FrostMpcTss.Proofs

open Lib Network

namespace Outbound

variable {P : Type} {b' : RequestResponsesBehaviour P} {m : Multicast P} {t : Bridge P} {tx : Nat}
  {protocol : ProtocolName} {details : ProtocolDetails P}

/-- `pending_requests` leads from the key to the request. -/
def Holds (b : RequestResponsesBehaviour P) (key : ProtocolRequestId) (tx : Nat) : Prop :=
  ∃ request, b.pendingRequests.lookup key = some request ∧ request.responseTx = some tx

/-- Nothing has come out of the request's one-shot. -/
def Waiting (b : RequestResponsesBehaviour P) (tx : Nat) : Prop :=
  ∃ t, b.bridges[tx]? = some t ∧ t.rx = .waiting

/-- The calls of `try_send` that belong to a one-shot in that state. -/
def offersDue : Oneshot RequestResult → Nat
  | .waiting | .sent _ => 0
  | .canceled | .closed => 1

/-- The record of a request agrees with the state of its one-shot. -/
structure Accounted (channels : Nat → Mpsc (Reply P)) (t : Bridge P) : Prop where
  offers : t.offers.length = offersDue t.rx
  labelled : ∀ o ∈ t.offers, ∀ peer payload, o.1 = .ok (peer, payload) → peer = t.target
  /-- An unparked handle is refused only if the receiver is gone. -/
  outcome : ∀ o ∈ t.offers, ∀ s, t.pendingResponse = some s →
    o.2 = .sent ∨ s.parked = true ∨ (channels s.channel).receiverAlive = false

/-- The targets and the handles of the requests, in the order of the
calls. -/
def sentAs (b : RequestResponsesBehaviour P) : List (P × Option Sender) :=
  b.bridges.map fun t => (t.target, t.pendingResponse)

/-- What a request has put into the channel. -/
def contribution (c : Nat) (t : Bridge P) : List (Reply P) :=
  if t.isOn c then t.received else []

/-- What the requests have put into the channel. -/
def receivedOn (b : RequestResponsesBehaviour P) (c : Nat) : List (Reply P) :=
  b.bridges.flatMap (contribution c)

/-- The requests of the broadcast are where it says, one for each target. -/
def Placed (b : RequestResponsesBehaviour P) (m : Multicast P) : Prop :=
  ∃ before after, sentAs b =
      before ++ (m.targets.map fun p => (p, m.pendingResponse.map Sender.clone)) ++ after ∧
    before.length = m.first

/-- libp2p has given the request id out. -/
def GivenOut (d : ProtocolDetails P) (requestId : Nat) : Prop :=
  ∃ i < d.sent.length, d.requestIds i = requestId

/-- The invariant. -/
structure Bookkeeping (b : RequestResponsesBehaviour P) : Prop where
  matching : Matching (Holds b) (Waiting b)
  entries : ∀ key request, b.pendingRequests.lookup key = some request →
    request.responseTx.isSome ∧ request.fallbackRequest = none
  registered : ∀ key request, b.pendingRequests.lookup key = some request →
    ∃ d, b.protocols key.protocol = some d ∧ GivenOut d key.requestId
  noFallback : b.fallbackRequests = []
  accounted : ∀ t ∈ b.bridges, Accounted b.channels t
  channels : ∀ c, (b.channels c).arrived.Perm (receivedOn b c)
  multicasts : ∀ m ∈ b.multicasts, Placed b m

/-- Later requests do not move those of a broadcast. -/
theorem Placed.mono {b : RequestResponsesBehaviour P} (h : Placed b m)
    (hsent : sentAs b <+: sentAs b') : Placed b' m := by
  obtain ⟨before, after, heq, hfirst⟩ := h
  obtain ⟨more, hmore⟩ := hsent
  exact ⟨before, after ++ more, by rw [← hmore, heq, List.append_assoc _ after], hfirst⟩

/-- Only a receiver that is dropped changes what a record has to say. -/
theorem Accounted.mono {channels channels' : Nat → Mpsc (Reply P)} (h : Accounted channels t)
    (halive : ∀ c, (channels c).receiverAlive = false → (channels' c).receiverAlive = false) :
    Accounted channels' t where
  offers := h.offers
  labelled := h.labelled
  outcome o ho s hs := (h.outcome o ho s hs).imp_right (Or.imp_right (halive _))

/-! ### `try_send` -/

open RequestResponsesBehaviour in
/-- What is sent has arrived in the channel of the handle. -/
theorem arrived_trySendOn (channels : Nat → Mpsc (Reply P)) (handle : Option Sender)
    (reply : Reply P) (c : Nat) :
    ((trySendOn channels handle reply).1 c).arrived =
      (channels c).arrived ++
        if handle.any (·.channel = c) ∧ (trySendOn channels handle reply).2 = .sent then [reply]
        else [] := by
  cases handle with
  | none => simp [trySendOn]
  | some s =>
      have htry := Mpsc.arrived_trySend (channels s.channel) s reply
      by_cases hc : s.channel = c
      · subst hc
        simpa [trySendOn] using htry
      · simp [trySendOn, hc, Function.update_of_ne (Ne.symm hc)]

open RequestResponsesBehaviour in
theorem receiverAlive_trySendOn (channels : Nat → Mpsc (Reply P)) (handle : Option Sender)
    (reply : Reply P) (c : Nat) :
    ((trySendOn channels handle reply).1 c).receiverAlive = (channels c).receiverAlive := by
  cases handle with
  | none => rfl
  | some s =>
      by_cases hc : s.channel = c
      · subst hc
        simp [trySendOn]
      · simp [trySendOn, Function.update_of_ne (Ne.symm hc)]

open RequestResponsesBehaviour in
/-- A `try_send` fails only on a parked handle or a dropped receiver. -/
theorem trySendOn_outcome (channels : Nat → Mpsc (Reply P)) (s : Sender) (reply : Reply P) :
    (trySendOn channels (some s) reply).2 = .sent ∨ s.parked = true ∨
      (channels s.channel).receiverAlive = false := by
  rcases Mpsc.trySend_cases (channels s.channel) s reply with h | ⟨-, h⟩ | ⟨-, h⟩
  · exact .inl h
  · exact .inr (.inl h)
  · exact .inr (.inr h)

/-- A request that has offered nothing has put nothing into the channel. -/
theorem contribution_eq_nil (c : Nat) (h : t.offers = []) : contribution c t = [] := by
  unfold contribution Bridge.received
  rw [h]
  exact ite_self _

/-- A request offers one more reply to its channel. -/
theorem contribution_offer (c : Nat) (t : Bridge P) (rx : Oneshot RequestResult)
    (reply : Reply P) (outcome : TrySend) :
    contribution c { t with rx := rx, offers := t.offers ++ [(reply, outcome)] } =
      contribution c t ++
        if t.pendingResponse.any (·.channel = c) ∧ outcome = .sent then [reply] else [] := by
  by_cases hon : t.pendingResponse.any (·.channel = c) = true
  · by_cases hout : outcome = .sent
    · simp [contribution, Bridge.isOn, Bridge.received, hon, hout]
    · simp [contribution, Bridge.isOn, Bridge.received, hon, hout]
  · simp [contribution, Bridge.isOn, hon]

/-! ### The table -/

section Table

variable {table : AList fun _ : ProtocolRequestId => PendingRequest} {key : ProtocolRequestId}

theorem lookup_insert_iff (hfresh : table.lookup key = none) (request : PendingRequest)
    (key' : ProtocolRequestId) (request' : PendingRequest) :
    (table.insert key request).lookup key' = some request' ↔
      (key' = key ∧ request' = request) ∨ table.lookup key' = some request' := by
  by_cases hkey : key' = key
  · subst hkey
    simp [AList.lookup_insert, hfresh, eq_comm]
  · simp [AList.lookup_insert_ne hkey, hkey]

theorem lookup_erase_iff (key' : ProtocolRequestId) (request' : PendingRequest) :
    (table.erase key).lookup key' = some request' ↔
      key' ≠ key ∧ table.lookup key' = some request' := by
  by_cases hkey : key' = key
  · subst hkey
    simp [AList.lookup_erase]
  · simp [AList.lookup_erase_ne hkey, hkey]

end Table

/-! ### A change to one request -/

section Change

variable {b b' : RequestResponsesBehaviour P} {tx : Nat} (f : Bridge P → Bridge P)

/-- A request that gets an outcome no longer waits. -/
theorem waiting_modify (hb : b'.bridges = b.bridges.modify tx f) (hf : ∀ t, (f t).rx ≠ .waiting)
    (i : Nat) : Waiting b' i ↔ i ≠ tx ∧ Waiting b i := by
  unfold Waiting
  rw [hb, List.getElem?_modify]
  by_cases hi : tx = i
  · subst hi
    simp [hf]
  · simp [hi, Ne.symm hi]

/-- A request that does not wait still does not. -/
theorem waiting_modify_of_ne (hb : b'.bridges = b.bridges.modify tx f)
    (hf : ∀ t, (f t).rx ≠ .waiting) (ht : b.bridges[tx]? = some t) (hrx : t.rx ≠ .waiting)
    (i : Nat) :
    Waiting b' i ↔ Waiting b i := by
  rw [waiting_modify f hb hf]
  refine and_iff_right_of_imp fun hi htx => ?_
  obtain ⟨x, hx, hwaiting⟩ := hi
  obtain rfl : x = t := Option.some.inj (hx.symm.trans (htx ▸ ht))
  exact hrx hwaiting

/-- The record of the request that changed is all there is to check. -/
theorem accounted_modify {channels : Nat → Mpsc (Reply P)}
    (h : ∀ t ∈ b.bridges, Accounted b.channels t) (ht : b.bridges[tx]? = some t)
    (halive : ∀ c, (channels c).receiverAlive = (b.channels c).receiverAlive)
    (hnew : Accounted channels (f t)) : ∀ t' ∈ b.bridges.modify tx f, Accounted channels t' := by
  intro t' ht'
  rcases mem_modify ht' with ht' | ⟨x, hx, rfl⟩
  · exact (h t' ht').mono fun c hc => (halive c).trans hc
  · obtain rfl : x = t := Option.some.inj (hx.symm.trans ht)
    exact hnew

theorem Placed.modify (h : Placed b m) (hb : b'.bridges = b.bridges.modify tx f)
    (hf : ∀ t, ((f t).target, (f t).pendingResponse) = (t.target, t.pendingResponse)) :
    Placed b' m := by
  refine h.mono ?_
  unfold sentAs
  rw [hb, map_modify_of_eq hf]

theorem receivedOn_modify (hb : b'.bridges = b.bridges.modify tx f)
    (hf : ∀ c t, contribution c (f t) = contribution c t) (c : Nat) :
    receivedOn b' c = receivedOn b c := by
  unfold receivedOn
  rw [hb, List.flatMap_def, List.flatMap_def, map_modify_of_eq (hf c)]

end Change

variable {b : RequestResponsesBehaviour P}

/-- An entry leaves `pending_requests`, and its one-shot gets a value. -/
theorem bookkeeping_finishRequest (h : Bookkeeping b) {key : ProtocolRequestId}
    {request : PendingRequest} (hlookup : b.pendingRequests.lookup key = some request)
    (result : RequestResult) : Bookkeeping (b.finishRequest key request result) := by
  obtain ⟨tx, htx⟩ := Option.isSome_iff_exists.mp (h.entries key request hlookup).1
  have hholds : Holds b key tx := ⟨request, hlookup, htx⟩
  obtain ⟨t, ht, hwaiting⟩ := h.matching.isOpen_of_leads hholds
  have heq : b.finishRequest key request result =
      { b with
          pendingRequests := b.pendingRequests.erase key
          bridges := b.bridges.modify tx fun t => { t with rx := t.rx.send result } } := by
    simp only [RequestResponsesBehaviour.finishRequest, htx]
    rfl
  let f (t : Bridge P) : Bridge P := { t with rx := t.rx.send result }
  rw [heq]
  exact
    { matching := by
        refine h.matching.erase hholds (fun key' tx' => ?_)
          (waiting_modify f rfl fun t => t.rx.send_ne_waiting result)
        simp only [Holds, lookup_erase_iff, and_assoc, exists_and_left]
      entries := fun key' request' h' => h.entries key' request' ((lookup_erase_iff _ _).mp h').2
      registered := fun key' request' h' =>
        h.registered key' request' ((lookup_erase_iff _ _).mp h').2
      noFallback := h.noFallback
      accounted := by
        -- the one-shot was waiting, so nothing has been offered so far
        have hacc := h.accounted t (List.mem_of_getElem? ht)
        refine accounted_modify f h.accounted ht (fun _ => rfl) ⟨?_, hacc.labelled, hacc.outcome⟩
        show t.offers.length = offersDue (t.rx.send result)
        rw [hacc.offers, hwaiting]
        rfl
      channels := by
        intro c
        rw [receivedOn_modify f rfl fun _ _ => rfl]
        exact h.channels c
      multicasts := fun m hm => (h.multicasts m hm).modify f rfl fun _ => rfl }

/-- The record of a request whose bridge has relayed the result. -/
theorem Accounted.relay {channels : Nat → Mpsc (Reply P)} {result : RequestResult}
    (h : Accounted channels t) (hrx : t.rx = .sent result) :
    Accounted
      (RequestResponsesBehaviour.trySendOn channels (t.pendingResponse.map Sender.clone)
        (t.relay result)).1
      { t with
          rx := .closed
          offers := t.offers ++ [(t.relay result, (RequestResponsesBehaviour.trySendOn channels
            (t.pendingResponse.map Sender.clone) (t.relay result)).2)] } := by
  have hnone : t.offers = [] := by
    rw [← List.length_eq_zero_iff, h.offers, hrx]
    rfl
  rw [hnone, List.nil_append]
  refine ⟨rfl, ?_, ?_⟩
  · intro o ho peer payload hpeer
    cases List.mem_singleton.mp ho
    cases result with
    | ok value => cases hpeer; rfl
    | error e => cases hpeer
  · intro o ho s hs
    cases List.mem_singleton.mp ho
    have hs' : t.pendingResponse = some s := hs
    -- the bridge sends on a clone, which is not parked
    rcases trySendOn_outcome channels s.clone (t.relay result) with hsent | hparked | hgone
    · refine .inl ?_
      rw [hs']
      exact hsent
    · cases hparked
    · exact .inr (.inr ((receiverAlive_trySendOn _ _ _ _).trans hgone))

/-- The bridge has run: what its one-shot held was offered to the channel. -/
theorem bookkeeping_relay (h : Bookkeeping b) {result : RequestResult}
    (ht : b.bridges[tx]? = some t) (hrx : t.rx = .sent result) :
    Bookkeeping
      ((b.offer tx (t.pendingResponse.map Sender.clone) (t.relay result)).close tx) := by
  let tried := RequestResponsesBehaviour.trySendOn b.channels
    (t.pendingResponse.map Sender.clone) (t.relay result)
  let f (x : Bridge P) : Bridge P :=
    { x with rx := .closed, offers := x.offers ++ [(t.relay result, tried.2)] }
  have heq : (b.offer tx (t.pendingResponse.map Sender.clone) (t.relay result)).close tx =
      { b with channels := tried.1, bridges := b.bridges.modify tx f } := by
    simp only [RequestResponsesBehaviour.close, RequestResponsesBehaviour.offer,
      List.modify_modify_eq]
    rfl
  have hany : ∀ c, (t.pendingResponse.map Sender.clone).any (·.channel = c) =
      t.pendingResponse.any (·.channel = c) := by
    intro c
    cases t.pendingResponse <;> rfl
  rw [heq]
  exact
    { matching := by
        refine h.matching.congr (fun _ _ => Iff.rfl)
          (waiting_modify_of_ne f rfl (fun _ h => by cases h) ht ?_)
        rw [hrx]
        exact fun h => by cases h
      entries := h.entries
      registered := h.registered
      noFallback := h.noFallback
      accounted :=
        accounted_modify f h.accounted ht (receiverAlive_trySendOn _ _ _)
          ((h.accounted t (List.mem_of_getElem? ht)).relay hrx)
      channels := by
        intro c
        show ((tried.1 c).arrived).Perm _
        rw [arrived_trySendOn, hany]
        refine ((h.channels c).append_right _).trans (List.Perm.symm ?_)
        exact flatMap_modify_perm ht (contribution_offer c t .closed (t.relay result) tried.2)
      multicasts := fun m hm => (h.multicasts m hm).modify f rfl fun _ => rfl }

/-- The bridge has run: its one-shot was dropped. -/
theorem bookkeeping_close (h : Bookkeeping b) (ht : b.bridges[tx]? = some t)
    (hrx : t.rx = .canceled) : Bookkeeping (b.close tx) := by
  let f (x : Bridge P) : Bridge P := { x with rx := .closed }
  exact
    { matching := by
        refine h.matching.congr (fun _ _ => Iff.rfl)
          (waiting_modify_of_ne f rfl (fun _ h => by cases h) ht ?_)
        rw [hrx]
        exact fun h => by cases h
      entries := h.entries
      registered := h.registered
      noFallback := h.noFallback
      accounted := by
        have hacc := h.accounted t (List.mem_of_getElem? ht)
        refine accounted_modify f h.accounted ht (fun _ => rfl) ⟨?_, hacc.labelled, hacc.outcome⟩
        show t.offers.length = offersDue .closed
        rw [hacc.offers, hrx]
        rfl
      channels := by
        intro c
        rw [receivedOn_modify f rfl fun _ _ => rfl]
        exact h.channels c
      multicasts := fun m hm => (h.multicasts m hm).modify f rfl fun _ => rfl }

/-! ### The calls -/

section Append

variable {b' : RequestResponsesBehaviour P} {t : Bridge P}

/-- A new request waits if its one-shot does. -/
theorem waiting_concat (hb : b'.bridges = b.bridges ++ [t]) (i : Nat) :
    Waiting b' i ↔ (i = b.bridges.length ∧ t.rx = .waiting) ∨ Waiting b i := by
  unfold Waiting
  rw [hb]
  rcases Nat.lt_trichotomy i b.bridges.length with hi | rfl | hi
  · rw [List.getElem?_append_left hi]
    simp [Nat.ne_of_lt hi]
  · simp
  · have hnone : (b.bridges ++ [t])[i]? = none := by
      rw [List.getElem?_eq_none_iff, List.length_append, List.length_singleton]
      exact hi
    rw [hnone, List.getElem?_eq_none (Nat.le_of_lt hi)]
    simp [Nat.ne_of_gt hi]

theorem Placed.concat (h : Placed b m) (hb : b'.bridges = b.bridges ++ [t]) : Placed b' m := by
  refine h.mono ?_
  unfold sentAs
  rw [hb, List.map_append]
  exact List.prefix_append _ _

theorem receivedOn_concat (hb : b'.bridges = b.bridges ++ [t]) (c : Nat) :
    receivedOn b' c = receivedOn b c ++ contribution c t := by
  unfold receivedOn
  rw [hb, List.flatMap_append, List.flatMap_singleton]

end Append

/-- No request waits under a number that has not been given out. -/
theorem not_waiting_length : ¬ Waiting b b.bridges.length := by
  rintro ⟨t, ht, -⟩
  rw [List.getElem?_eq_none (Nat.le_refl _)] at ht
  cases ht

/-- No entry has the request id that libp2p gives out next. -/
theorem lookup_fresh (h : Bookkeeping b) (hprotocol : b.protocols protocol = some details) :
    b.pendingRequests.lookup ⟨protocol, details.requestIds details.sent.length⟩ = none := by
  cases hkey : b.pendingRequests.lookup ⟨protocol, details.requestIds details.sent.length⟩ with
  | none => rfl
  | some old =>
      obtain ⟨d, hd, i, hi, hid⟩ := h.registered _ old hkey
      cases hprotocol.symm.trans hd
      exact absurd (details.requestIds.injective hid) (Nat.ne_of_lt hi)

/-- An id that was given out stays so when a request is sent. -/
theorem givenOut_sendRequest {protocols : ProtocolName → Option (ProtocolDetails P)}
    {protocol' : ProtocolName} {d : ProtocolDetails P}
    (hprotocol : protocols protocol = some details) (target : P) (message : WireMessage)
    (hd : protocols protocol' = some d) {requestId : Nat} (h : GivenOut d requestId) :
    ∃ d', Function.update protocols protocol (some (details.sendRequest target message).2)
        protocol' = some d' ∧ GivenOut d' requestId := by
  by_cases hp : protocol' = protocol
  · subst hp
    cases hprotocol.symm.trans hd
    obtain ⟨i, hi, hid⟩ := h
    exact ⟨_, Function.update_self .., i,
      Nat.lt_of_lt_of_le hi (List.sublist_append_left ..).length_le, hid⟩
  · exact ⟨d, by rw [Function.update_of_ne hp, hd], h⟩

/-- A new entry leads to its own request, and the old ones lead where they
led. -/
theorem holds_insert_iff {key : ProtocolRequestId} {request : PendingRequest}
    (hfresh : b.pendingRequests.lookup key = none)
    (hb : b'.pendingRequests = b.pendingRequests.insert key request)
    (htx : request.responseTx = some tx) (key' : ProtocolRequestId) (tx' : Nat) :
    Holds b' key' tx' ↔ (key' = key ∧ tx' = tx) ∨ Holds b key' tx' := by
  unfold Holds
  rw [hb]
  constructor
  · rintro ⟨request', hrequest, htx'⟩
    rcases (lookup_insert_iff hfresh request key' request').mp hrequest with ⟨rfl, rfl⟩ | hrequest
    · exact .inl ⟨rfl, Option.some.inj (htx'.symm.trans htx)⟩
    · exact .inr ⟨request', hrequest, htx'⟩
  · rintro (⟨rfl, rfl⟩ | ⟨request', hrequest, htx'⟩)
    · exact ⟨request, (lookup_insert_iff hfresh _ _ _).mpr (.inl ⟨rfl, rfl⟩), htx⟩
    · exact ⟨request', (lookup_insert_iff hfresh _ _ _).mpr (.inr hrequest), htx'⟩

/-- A request that libp2p accepts. -/
theorem bookkeeping_insertPending (h : Bookkeeping b) {target : P} {handle : Option Sender}
    (message : WireMessage) {now : Nat} (hprotocol : b.protocols protocol = some details) :
    Bookkeeping
      ((b.spawnBridge target handle).insertPending details protocol target message
        { startedAt := now
          responseTx := some b.bridges.length
          fallbackRequest := none }) := by
  let key : ProtocolRequestId := ⟨protocol, details.requestIds details.sent.length⟩
  let request : PendingRequest :=
    { startedAt := now, responseTx := some b.bridges.length, fallbackRequest := none }
  have hfresh : b.pendingRequests.lookup key = none := lookup_fresh h hprotocol
  have hlookup := lookup_insert_iff hfresh request
  exact
    { matching := by
        refine h.matching.insert key b.bridges.length ?_ not_waiting_length ?_ ?_
        · rintro i ⟨old, hold, -⟩
          cases hfresh.symm.trans hold
        · exact fun key' tx => holds_insert_iff hfresh rfl rfl key' tx
        · intro i
          rw [waiting_concat rfl]
          exact or_congr_left (and_iff_left rfl)
      entries := by
        intro key' request' h'
        rcases (hlookup key' request').mp h' with ⟨rfl, rfl⟩ | h'
        · exact ⟨rfl, rfl⟩
        · exact h.entries key' request' h'
      registered := by
        intro key' request' h'
        rcases (hlookup key' request').mp h' with ⟨rfl, rfl⟩ | h'
        · exact ⟨_, Function.update_self .., _, List.length_append ▸ Nat.lt_succ_self _, rfl⟩
        · obtain ⟨d, hd, hid⟩ := h.registered key' request' h'
          exact givenOut_sendRequest hprotocol target message hd hid
      noFallback := h.noFallback
      accounted := by
        intro t ht
        rcases List.mem_append.mp ht with ht | ht
        · exact h.accounted t ht
        · cases List.mem_singleton.mp ht
          exact ⟨rfl, List.forall_mem_nil _, List.forall_mem_nil _⟩
      channels := by
        intro c
        rw [receivedOn_concat rfl, contribution_eq_nil c rfl, List.append_nil]
        exact h.channels c
      multicasts := fun m hm => (h.multicasts m hm).concat rfl }

/-- A request that is refused at once. -/
theorem bookkeeping_refuseRequest (h : Bookkeeping b) (target : P) (handle : Option Sender)
    (failure : RequestFailure) :
    Bookkeeping
      ((b.spawnBridge target handle).refuseRequest b.bridges.length handle failure) := by
  let tried := RequestResponsesBehaviour.trySendOn b.channels handle (.error failure)
  let t₀ : Bridge P :=
    { target := target, pendingResponse := handle, rx := .waiting, offers := [] }
  let t : Bridge P := { t₀ with rx := .canceled, offers := [(.error failure, tried.2)] }
  -- the request is recorded with one offer, and its one-shot is canceled
  have heq : (b.spawnBridge target handle).refuseRequest b.bridges.length handle failure =
      { b with channels := tried.1, bridges := b.bridges ++ [t] } := by
    simp only [RequestResponsesBehaviour.refuseRequest, RequestResponsesBehaviour.cancel,
      RequestResponsesBehaviour.offer, RequestResponsesBehaviour.spawnBridge,
      modify_length_concat]
    rfl
  have halive : ∀ c, (tried.1 c).receiverAlive = (b.channels c).receiverAlive :=
    receiverAlive_trySendOn _ _ _
  rw [heq]
  exact
    { matching := by
        refine h.matching.congr (fun _ _ => Iff.rfl) fun i => ?_
        rw [waiting_concat rfl]
        refine or_iff_right ?_
        rintro ⟨-, hwaiting⟩
        cases hwaiting
      entries := h.entries
      registered := h.registered
      noFallback := h.noFallback
      accounted := by
        intro t' ht'
        rcases List.mem_append.mp ht' with ht' | ht'
        · exact (h.accounted t' ht').mono fun c hc => (halive c).trans hc
        · cases List.mem_singleton.mp ht'
          refine ⟨rfl, ?_, ?_⟩
          · intro o ho peer payload hpeer
            cases List.mem_singleton.mp ho
            cases hpeer
          · intro o ho s hs
            cases List.mem_singleton.mp ho
            obtain rfl : handle = some s := hs
            have hcase := trySendOn_outcome b.channels s (.error failure)
            exact hcase.imp_right (Or.imp_right (halive _).trans)
      channels := by
        intro c
        rw [receivedOn_concat rfl]
        show ((tried.1 c).arrived).Perm _
        rw [arrived_trySendOn]
        have hnone : contribution c t₀ = [] := contribution_eq_nil c rfl
        have hcontribution := contribution_offer c t₀ .canceled (.error failure) tried.2
        rw [hnone, List.nil_append] at hcontribution
        show List.Perm _ (receivedOn b c ++ contribution c t)
        rw [show contribution c t = _ from hcontribution]
        exact (h.channels c).append_right _
      multicasts := fun m hm => (h.multicasts m hm).concat rfl }

/-- `send_request_with_context` makes one request. It becomes pending, or it
is refused. -/
theorem sendRequestWithContext_cases (b : RequestResponsesBehaviour P) (env : Surroundings P)
    (target : P) (protocolName : ProtocolName) (ctx : WireContext) (payload : ByteVec)
    (isBroadcast : Bool) (handle : Option Sender) (connect : IfDisconnected) :
    (∃ details, b.protocols protocolName = some details ∧
      b.sendRequestWithContext env target protocolName ctx payload isBroadcast handle connect =
        (b.spawnBridge target handle).insertPending details protocolName target
          (wireMessage ctx payload isBroadcast)
          { startedAt := env.now
            responseTx := some b.bridges.length
            fallbackRequest := none }) ∨
    ∃ failure,
      b.sendRequestWithContext env target protocolName ctx payload isBroadcast handle connect =
        (b.spawnBridge target handle).refuseRequest b.bridges.length handle failure := by
  have hsame : (b.spawnBridge target handle).protocols = b.protocols := rfl
  unfold RequestResponsesBehaviour.sendRequestWithContext
  dsimp only
  split
  next details hprotocol =>
      split
      · exact .inl ⟨details, hsame ▸ hprotocol, rfl⟩
      · exact .inr ⟨.notConnected, rfl⟩
  next => exact .inr ⟨.unknownProtocol, rfl⟩

/-- A request is pending or has its result. -/
theorem bookkeeping_sendRequestWithContext (h : Bookkeeping b) (env : Surroundings P) (target : P)
    (protocolName : ProtocolName) (ctx : WireContext) (payload : ByteVec) (isBroadcast : Bool)
    (handle : Option Sender) (connect : IfDisconnected) :
    Bookkeeping
      (b.sendRequestWithContext env target protocolName ctx payload isBroadcast handle
        connect) := by
  rcases sendRequestWithContext_cases b env target protocolName ctx payload isBroadcast handle
    connect with ⟨details, hprotocol, heq⟩ | ⟨failure, heq⟩
  · rw [heq]
    exact bookkeeping_insertPending h _ hprotocol
  · rw [heq]
    exact bookkeeping_refuseRequest h target handle failure

theorem sentAs_refuseRequest (b : RequestResponsesBehaviour P) (tx : Nat) (handle : Option Sender)
    (failure : RequestFailure) : sentAs (b.refuseRequest tx handle failure) = sentAs b := by
  show ((b.bridges.modify tx _).modify tx _).map _ = _
  rw [List.modify_modify_eq]
  apply map_modify_of_eq
  exact fun _ => rfl

/-- Whatever becomes of it, a request is recorded with its target. -/
theorem sentAs_sendRequestWithContext (b : RequestResponsesBehaviour P) (env : Surroundings P)
    (target : P) (protocolName : ProtocolName) (ctx : WireContext) (payload : ByteVec)
    (isBroadcast : Bool) (handle : Option Sender) (connect : IfDisconnected) :
    sentAs (b.sendRequestWithContext env target protocolName ctx payload isBroadcast handle connect)
      = sentAs b ++ [(target, handle)] := by
  have hspawn : sentAs (b.spawnBridge target handle) = sentAs b ++ [(target, handle)] :=
    List.map_append
  rcases sendRequestWithContext_cases b env target protocolName ctx payload isBroadcast handle
    connect with ⟨details, -, heq⟩ | ⟨failure, heq⟩
  · rw [heq]
    exact hspawn
  · rw [heq, sentAs_refuseRequest]
    exact hspawn

/-- The loop makes one request for each target, with a clone of the
handle. -/
theorem broadcastLoop_spec (env : Surroundings P) (protocolName : ProtocolName)
    (ctx : WireContext) (payload : ByteVec) (handle : Option Sender) (connect : IfDisconnected)
    (targets : List P) :
    ∀ b : RequestResponsesBehaviour P, Bookkeeping b →
      Bookkeeping
          (RequestResponsesBehaviour.broadcastLoop env protocolName ctx payload handle connect
            targets b) ∧
        sentAs (RequestResponsesBehaviour.broadcastLoop env protocolName ctx payload handle connect
            targets b) =
          sentAs b ++ targets.map fun p => (p, handle.map Sender.clone) := by
  induction targets with
  | nil =>
      intro b h
      exact ⟨h, (List.append_nil _).symm⟩
  | cons target targets ih =>
      intro b h
      have h' := bookkeeping_sendRequestWithContext h env target protocolName ctx payload true
        (handle.map Sender.clone) connect
      obtain ⟨hbook, hsent⟩ := ih _ h'
      refine ⟨hbook, hsent.trans ?_⟩
      rw [sentAs_sendRequestWithContext, List.append_assoc]
      rfl

/-- The calls keep the books. -/
theorem bookkeeping_call (h : Bookkeeping b) (env : Surroundings P)
    (c : RequestResponsesBehaviour.Call P) : Bookkeeping (b.call env c) := by
  cases c with
  | sendRequestWithContext target protocolName ctx payload isBroadcast handle connect =>
      exact bookkeeping_sendRequestWithContext h env target protocolName ctx payload isBroadcast
        (some handle) connect
  | broadcastMessage targets protocolName ctx payload handle connect =>
      obtain ⟨h', hsent⟩ :=
        broadcastLoop_spec env protocolName ctx payload handle connect targets b h
      refine ⟨h'.matching, h'.entries, h'.registered, h'.noFallback, h'.accounted, h'.channels, ?_⟩
      intro m hm
      rcases List.mem_append.mp hm with hm | hm
      · exact (h.multicasts m hm).mono ⟨_, hsent.symm⟩
      · cases List.mem_singleton.mp hm
        refine ⟨sentAs b, [], ?_, List.length_map _⟩
        rw [List.append_nil]
        exact hsent

/-! ### The events -/

/-- Entries leave the table one by one, in the order of the check. -/
theorem bookkeeping_foldl_checkRequest (now : Nat)
    (entries : List (Σ _ : ProtocolRequestId, PendingRequest)) (hnodup : entries.NodupKeys) :
    ∀ b : RequestResponsesBehaviour P, Bookkeeping b →
      (∀ entry ∈ entries, b.pendingRequests.lookup entry.1 = some entry.2) →
      Bookkeeping (entries.foldl (RequestResponsesBehaviour.checkRequest now) b) := by
  induction entries with
  | nil =>
      intro b h _
      exact h
  | cons entry entries ih =>
      intro b h hlookup
      have hentry := hlookup entry (List.mem_cons_self ..)
      obtain ⟨hnotin, hnodup⟩ := List.nodupKeys_cons.mp hnodup
      -- what the check of this entry leaves of the others
      have hfinish : ∀ result, ∀ other ∈ entries,
          (b.finishRequest entry.1 entry.2 result).pendingRequests.lookup other.1 =
            some other.2 := by
        intro result other hother
        have hne : other.1 ≠ entry.1 := by
          intro heq
          exact hnotin (heq ▸ List.mem_keys_of_mem hother)
        have hpending : (b.finishRequest entry.1 entry.2 result).pendingRequests =
            b.pendingRequests.erase entry.1 := by
          unfold RequestResponsesBehaviour.finishRequest
          cases entry.2.responseTx <;> rfl
        rw [hpending, AList.lookup_erase_ne hne]
        exact hlookup other (List.mem_cons_of_mem _ hother)
      refine ih hnodup _ ?_ ?_
      · unfold RequestResponsesBehaviour.checkRequest
        split
        · exact bookkeeping_finishRequest h hentry _
        · split
          · exact bookkeeping_finishRequest h hentry _
          · exact h
      · unfold RequestResponsesBehaviour.checkRequest
        split
        · exact hfinish _
        · split
          · exact hfinish _
          · exact fun other hother => hlookup other (List.mem_cons_of_mem _ hother)

/-- Requests that time out get their result. -/
theorem bookkeeping_periodicRequestCheck (h : Bookkeeping b) (now : Nat) :
    Bookkeeping (b.periodicRequestCheck now) := by
  refine bookkeeping_foldl_checkRequest now _ b.pendingRequests.nodupKeys b h ?_
  intro entry hentry
  exact AList.mem_lookup_iff.mpr hentry

/-- No fallback request is left for the end of `poll`. -/
theorem leavePoll_eq (h : Bookkeeping b) : b.leavePoll = b := by
  unfold RequestResponsesBehaviour.leavePoll
  rw [h.noFallback]
  show { b with fallbackRequests := [] } = b
  rw [← h.noFallback]

theorem bookkeeping_returnEvent (h : Bookkeeping b) (event : RequestFinished P) :
    Bookkeeping (b.returnEvent event) := by
  unfold RequestResponsesBehaviour.returnEvent
  rw [leavePoll_eq h]
  exact ⟨h.matching, h.entries, h.registered, h.noFallback, h.accounted, h.channels, h.multicasts⟩

/-- An event for an unknown key changes nothing. -/
theorem bookkeeping_erase_of_none (h : Bookkeeping b) {key : ProtocolRequestId}
    (hnone : b.pendingRequests.lookup key = none) :
    Bookkeeping { b with pendingRequests := b.pendingRequests.erase key } := by
  have hsame : b.pendingRequests.erase key = b.pendingRequests := by
    apply AList.ext
    exact List.kerase_of_notMem_keys (AList.lookup_eq_none.mp hnone)
  rw [hsame]
  exact h

/-- Every pending request still has its sender. -/
theorem lookup_eq_none (h : Bookkeeping b) {key : ProtocolRequestId}
    (hother : ∀ startedAt tx fallbackRequest,
      b.pendingRequests.lookup key = some ⟨startedAt, some tx, fallbackRequest⟩ → False) :
    b.pendingRequests.lookup key = none := by
  cases hlookup : b.pendingRequests.lookup key with
  | none => rfl
  | some request =>
      obtain ⟨startedAt, responseTx, fallbackRequest⟩ := request
      obtain ⟨tx, rfl⟩ := Option.isSome_iff_exists.mp (h.entries _ _ hlookup).1
      exact (hother startedAt tx fallbackRequest hlookup).elim

/-- A response finishes its request. -/
theorem bookkeeping_onResponse (h : Bookkeeping b) (now : Nat) (peer : P)
    (protocol : ProtocolName) (requestId : Nat) (response : Except Unit Bytes) :
    Bookkeeping (b.onResponse now peer protocol requestId response) := by
  unfold RequestResponsesBehaviour.onResponse
  dsimp only
  split
  next startedAt tx fallbackRequest hlookup =>
      exact bookkeeping_returnEvent (bookkeeping_finishRequest h hlookup _) _
  next hother =>
      exact bookkeeping_erase_of_none h (lookup_eq_none h hother)

/-- So does a failure. -/
theorem bookkeeping_onOutboundFailure (h : Bookkeeping b) (now : Nat) (peer : P)
    (protocol : ProtocolName) (requestId : Nat) (error : OutboundFailure) :
    Bookkeeping (b.onOutboundFailure now peer protocol requestId error) := by
  unfold RequestResponsesBehaviour.onOutboundFailure
  dsimp only
  split
  next startedAt tx fallbackRequest hlookup =>
      -- there is no fallback request to turn to
      obtain rfl : fallbackRequest = none := (h.entries _ _ hlookup).2
      exact bookkeeping_returnEvent (bookkeeping_finishRequest h hlookup _) _
  next hother =>
      exact bookkeeping_erase_of_none h (lookup_eq_none h hother)

/-- The bridge relays what its one-shot has, once. -/
theorem bookkeeping_pollBridge (h : Bookkeeping b) (hpoll : b.pollBridge tx = some b') :
    Bookkeeping b' := by
  unfold RequestResponsesBehaviour.pollBridge at hpoll
  split at hpoll
  next => cases hpoll
  next t ht =>
      split at hpoll
      next result hrx =>
          cases hpoll
          exact bookkeeping_relay h ht hrx
      next hrx =>
          cases hpoll
          exact bookkeeping_close h ht hrx
      next => cases hpoll
      next => cases hpoll

/-- A caller does something with its end of a channel. -/
theorem bookkeeping_channel (h : Bookkeeping b) {c : Nat} {ch : Mpsc (Reply P)}
    (harrived : ch.arrived = (b.channels c).arrived)
    (halive : (b.channels c).receiverAlive = false → ch.receiverAlive = false) :
    Bookkeeping { b with channels := Function.update b.channels c ch } where
  matching := h.matching
  entries := h.entries
  registered := h.registered
  noFallback := h.noFallback
  accounted t ht := by
    refine (h.accounted t ht).mono fun c' hc' => ?_
    by_cases hc : c' = c
    · subst hc
      show (Function.update b.channels c' ch c').receiverAlive = false
      rw [Function.update_self]
      exact halive hc'
    · show (Function.update b.channels c ch c').receiverAlive = false
      rw [Function.update_of_ne hc]
      exact hc'
  channels c' := by
    by_cases hc : c' = c
    · subst hc
      show ((Function.update b.channels c' ch c').arrived).Perm _
      rw [Function.update_self, harrived]
      exact h.channels c'
    · show ((Function.update b.channels c ch c').arrived).Perm _
      rw [Function.update_of_ne hc]
      exact h.channels c'
  multicasts := h.multicasts

/-- The events keep the books. -/
theorem bookkeeping_handle (h : Bookkeeping b) {e : RequestResponsesBehaviour.Event P}
    (hstep : b.handle e = some b') : Bookkeeping b' := by
  cases e with
  | response now peer protocol requestId response =>
      obtain ⟨-, heq⟩ := Option.ite_none_right_eq_some.mp hstep
      cases heq
      exact bookkeeping_onResponse h now peer protocol requestId response
  | outboundFailure now peer protocol requestId error =>
      obtain ⟨-, heq⟩ := Option.ite_none_right_eq_some.mp hstep
      cases heq
      exact bookkeeping_onOutboundFailure h now peer protocol requestId error
  | inbound =>
      cases hstep
      rw [leavePoll_eq h]
      exact h
  | periodicRequestCheck now =>
      cases hstep
      exact bookkeeping_periodicRequestCheck h now
  | passEnds env =>
      cases hstep
      unfold RequestResponsesBehaviour.sendFallbackRequests
      rw [h.noFallback]
      show Bookkeeping { b with fallbackRequests := [] }
      rw [← h.noFallback]
      exact h
  | pollBridge tx => exact bookkeeping_pollBridge h hstep
  | receive c =>
      obtain ⟨ch, hch, rfl⟩ := Option.map_eq_some_iff.mp hstep
      obtain ⟨harrived, halive⟩ := Mpsc.arrived_receive hch
      exact bookkeeping_channel h harrived halive.trans
  | dropReceiver c =>
      cases hstep
      exact bookkeeping_channel h (Mpsc.arrived_dropReceiver _) fun _ => rfl

/-- Every step keeps the books. -/
theorem bookkeeping_step (h : Bookkeeping b) {l : RequestResponsesBehaviour.Label P}
    (hstep : b.step l = some b') : Bookkeeping b' := by
  cases l with
  | call env c =>
      cases hstep
      exact bookkeeping_call h env c
  | event e => exact bookkeeping_handle h hstep

section New

variable {list : List ProtocolConfig} {requestIds : ProtocolName → Nat ↪ Nat}
  {buffer : Nat → Nat}

/-- A new behaviour has no requests. -/
theorem new_cases (hnew : RequestResponsesBehaviour.new list requestIds buffer = .ok b) :
    b.bridges = [] ∧ b.pendingRequests = ∅ ∧ b.fallbackRequests = [] ∧ b.multicasts = [] ∧
      b.channels = fun c => .new (buffer c) := by
  unfold RequestResponsesBehaviour.new at hnew
  cases hregister : RequestResponsesBehaviour.register (P := P) requestIds (fun _ => none) list with
  | error e =>
      rw [hregister] at hnew
      cases hnew
  | ok protocols =>
      rw [hregister] at hnew
      cases hnew
      exact ⟨rfl, rfl, rfl, rfl, rfl⟩

/-- Nothing has been sent yet. -/
theorem bookkeeping_new (hnew : RequestResponsesBehaviour.new list requestIds buffer = .ok b) :
    Bookkeeping b := by
  obtain ⟨hbridges, hpending, hfallback, hmulticasts, hchannels⟩ := new_cases hnew
  have hlookup : ∀ key request, b.pendingRequests.lookup key ≠ some request := by
    intro key request hrequest
    rw [hpending] at hrequest
    cases hrequest
  have hholds : ∀ key tx, ¬ Holds b key tx := fun key tx ⟨request, hrequest, _⟩ =>
    hlookup key request hrequest
  exact
    { matching :=
        { isOpen_of_leads := fun h => absurd h (hholds _ _)
          key_unique := fun h => absurd h (hholds _ _)
          item_unique := fun h => absurd h (hholds _ _)
          exists_key := by
            rintro tx ⟨t, ht, -⟩
            rw [hbridges] at ht
            cases ht }
      entries := fun key request h => absurd h (hlookup key request)
      registered := fun key request h => absurd h (hlookup key request)
      noFallback := hfallback
      accounted := hbridges ▸ List.forall_mem_nil _
      channels := by
        intro c
        rw [hchannels, receivedOn, hbridges]
        exact List.Perm.refl _
      multicasts := hmulticasts ▸ List.forall_mem_nil _ }

/-- The books are right in every state of every run. -/
theorem bookkeeping_of_reach {b₀ : RequestResponsesBehaviour P}
    (hnew : RequestResponsesBehaviour.new list requestIds buffer = .ok b₀)
    (h : Reach RequestResponsesBehaviour.step Always b₀ b) : Bookkeeping b :=
  h.invariant (bookkeeping_new hnew) fun _ _ _ hb _ hstep => bookkeeping_step hb hstep

end New

end Outbound

end FrostMpcTss.Proofs
