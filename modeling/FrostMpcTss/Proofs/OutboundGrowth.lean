import FrostMpcTss.Network.Swarm
import FrostMpcTss.Proofs.OutboundLedger

/-!
# `FrostMpcTss.Proofs.OutboundGrowth`: what a step adds to the outbound half

Requests, and what libp2p was given to send, only become more. `Grows`
says what is new after a step. A new entry of `pending_requests` belongs
to a new request, and its key is the one under which libp2p has the
message for the target. A new result `Ok` is the one of a request that was
pending, and the step was the response to its key.

libp2p gives no request id out twice, so that a key leads to one message
(`sentMessage_eq_some`).
-/

set_option autoImplicit false

namespace FrostMpcTss.Proofs

open Lib Network

namespace Outbound

variable {P : Type} {tx : Nat} {t : Bridge P} {protocol : ProtocolName}
  {details : ProtocolDetails P}

/-- What is new in `b'`. Results `Ok` are new only as far as `fresh` says. -/
structure Grows (fresh : ProtocolRequestId → Bytes → Prop) (b b' : RequestResponsesBehaviour P) :
    Prop where
  targets : b.bridges.map (·.target) <+: b'.bridges.map (·.target)
  sent : ∀ key x, b.sentMessage key = some x → b'.sentMessage key = some x
  holds : ∀ key tx, Holds b' key tx → Holds b key tx ∨
    b.bridges.length ≤ tx ∧ ∃ t message, b'.bridges[tx]? = some t ∧
      b'.sentMessage key = some (t.target, message)
  produced : ∀ tx t', b'.bridges[tx]? = some t' → ∀ peer payload,
    .ok (peer, payload) ∈ t'.produced →
      (∃ t, b.bridges[tx]? = some t ∧ .ok (peer, payload) ∈ t.produced) ∨
        peer = t'.target ∧ ∃ key, Holds b key tx ∧ fresh key payload

/-- No results `Ok` are new. -/
def Silent (_ : ProtocolRequestId) (_ : Bytes) : Prop := False

variable {fresh : ProtocolRequestId → Bytes → Prop} {b b' b'' : RequestResponsesBehaviour P}

/-- A request keeps its target. -/
theorem Grows.target (h : Grows fresh b b') (ht : b.bridges[tx]? = some t) :
    ∃ t', b'.bridges[tx]? = some t' ∧ t'.target = t.target := by
  obtain ⟨more, hmore⟩ := h.targets
  have hlt : tx < (b.bridges.map (·.target)).length := by
    rw [List.length_map]
    exact (List.getElem?_eq_some_iff.mp ht).1
  have hmap : (b'.bridges.map (·.target))[tx]? = some t.target := by
    rw [← hmore, List.getElem?_append_left hlt, List.getElem?_map, ht]
    rfl
  rw [List.getElem?_map] at hmap
  exact Option.map_eq_some_iff.mp hmap

theorem Grows.length_le (h : Grows fresh b b') : b.bridges.length ≤ b'.bridges.length := by
  simpa using h.targets.length_le

/-- Two steps without a response. -/
theorem Grows.trans (h : Grows Silent b b') (h' : Grows Silent b' b'') : Grows Silent b b'' where
  targets := h.targets.trans h'.targets
  sent key x hx := h'.sent key x (h.sent key x hx)
  holds key tx hholds := by
    rcases h'.holds key tx hholds with hmid | ⟨hle, hnew⟩
    · -- the entry is one of `b'`, so it is old or was new there
      rcases h.holds key tx hmid with hold | ⟨hle, t, message, ht, hsent⟩
      · exact .inl hold
      · obtain ⟨t', ht', htarget⟩ := h'.target ht
        exact .inr ⟨hle, t', message, ht', htarget ▸ h'.sent _ _ hsent⟩
    · exact .inr ⟨Nat.le_trans h.length_le hle, hnew⟩
  produced tx t'' ht'' peer payload hmem := by
    rcases h'.produced tx t'' ht'' peer payload hmem with ⟨t', ht', hmem'⟩ | ⟨-, _, -, hno⟩
    · rcases h.produced tx t' ht' peer payload hmem' with hold | ⟨-, _, -, hno⟩
      · exact .inl hold
      · exact hno.elim
    · exact hno.elim

/-! ### What libp2p has under a key -/

theorem sentMessage_congr (hprotocols : b'.protocols = b.protocols) (key : ProtocolRequestId) :
    b'.sentMessage key = b.sentMessage key := by
  unfold RequestResponsesBehaviour.sentMessage
  rw [hprotocols]

/-- The message under a key is the one that libp2p sends with its id. -/
theorem sentMessage_eq_some {key : ProtocolRequestId} {x : P × WireMessage} :
    b.sentMessage key = some x ↔ ∃ d i, b.protocols key.protocol = some d ∧
      d.requestIds i = key.requestId ∧ d.sent[i]? = some x := by
  unfold RequestResponsesBehaviour.sentMessage
  rw [Option.bind_eq_some_iff]
  refine exists_congr fun d => ?_
  rw [exists_and_left]
  refine and_congr_right fun _ => ?_
  constructor
  · intro hx
    obtain ⟨⟨y, i⟩, hfind, rfl⟩ := Option.map_eq_some_iff.mp hx
    exact ⟨i, of_decide_eq_true (List.find?_some hfind :),
      List.mk_mem_zipIdx_iff_getElem?.mp (List.mem_of_find?_eq_some hfind)⟩
  · rintro ⟨i, hid, hi⟩
    have hmem : (x, i) ∈ d.sent.zipIdx := List.mk_mem_zipIdx_iff_getElem?.mpr hi
    have hsome : (d.sent.zipIdx.find? fun entry => d.requestIds entry.2 = key.requestId).isSome :=
      List.find?_isSome.mpr ⟨_, hmem, decide_eq_true hid⟩
    obtain ⟨⟨y, k⟩, hfind⟩ := Option.isSome_iff_exists.mp hsome
    -- the entry that is found has the same id, so it is the same entry
    have hk : d.requestIds k = key.requestId := of_decide_eq_true (List.find?_some hfind :)
    cases d.requestIds.injective (hk.trans hid.symm)
    have hy := List.mk_mem_zipIdx_iff_getElem?.mp (List.mem_of_find?_eq_some hfind)
    cases hi.symm.trans hy
    rw [hfind]
    rfl

/-- What was sent stays under its key. -/
theorem sentMessage_sendRequest (hprotocol : b.protocols protocol = some details) {target : P}
    {message : WireMessage} (hprotocols : b'.protocols =
      Function.update b.protocols protocol (some (details.sendRequest target message).2))
    {key : ProtocolRequestId} {x : P × WireMessage} (hx : b.sentMessage key = some x) :
    b'.sentMessage key = some x := by
  obtain ⟨d, i, hd, hid, hi⟩ := sentMessage_eq_some.mp hx
  rw [sentMessage_eq_some, hprotocols]
  by_cases hname : key.protocol = protocol
  · rw [hname] at hd ⊢
    cases hprotocol.symm.trans hd
    refine ⟨_, i, Function.update_self .., hid, ?_⟩
    exact (List.getElem?_append_left (List.getElem?_eq_some_iff.mp hi).1).trans hi
  · exact ⟨d, i, by rw [Function.update_of_ne hname, hd], hid, hi⟩

/-- The message is under the key that is new. -/
theorem sentMessage_fresh {target : P} {message : WireMessage} (hprotocols : b'.protocols =
      Function.update b.protocols protocol (some (details.sendRequest target message).2)) :
    b'.sentMessage ⟨protocol, details.requestIds details.sent.length⟩
      = some (target, message) := by
  rw [sentMessage_eq_some, hprotocols]
  exact ⟨_, details.sent.length, Function.update_self .., rfl, List.getElem?_concat_length ..⟩

/-! ### Changes to requests -/

/-- A request changes, and the table loses entries at most. -/
theorem grows_modify {f : Bridge P → Bridge P} (hbridges : b'.bridges = b.bridges.modify tx f)
    (hprotocols : b'.protocols = b.protocols) (hholds : ∀ key tx, Holds b' key tx → Holds b key tx)
    (htarget : ∀ t, (f t).target = t.target)
    (hproduced : ∀ t, b.bridges[tx]? = some t → ∀ peer payload,
      .ok (peer, payload) ∈ (f t).produced → .ok (peer, payload) ∈ t.produced ∨
        peer = t.target ∧ ∃ key, Holds b key tx ∧ fresh key payload) : Grows fresh b b' where
  targets := by
    rw [hbridges, map_modify_of_eq htarget]
  sent key x hx := by rw [sentMessage_congr hprotocols, hx]
  holds key tx h := .inl (hholds key tx h)
  produced i t' ht' peer payload hmem := by
    rw [hbridges, List.getElem?_modify] at ht'
    obtain ⟨t, ht, rfl⟩ := Option.map_eq_some_iff.mp ht'
    by_cases hi : tx = i
    · subst hi
      rw [if_pos rfl] at hmem ⊢
      rcases hproduced t ht peer payload hmem with hold | ⟨hpeer, hnew⟩
      · exact .inl ⟨t, ht, hold⟩
      · exact .inr ⟨hpeer.trans (htarget t).symm, hnew⟩
    · rw [if_neg hi] at hmem
      exact .inl ⟨t, ht, hmem⟩

/-- Nothing changes that matters here. -/
theorem grows_of_same (hbridges : b'.bridges = b.bridges)
    (hprotocols : b'.protocols = b.protocols)
    (hholds : ∀ key tx, Holds b' key tx → Holds b key tx) : Grows fresh b b' where
  targets := by rw [hbridges]
  sent key x hx := by rw [sentMessage_congr hprotocols, hx]
  holds key tx h := .inl (hholds key tx h)
  produced i t' ht' peer payload hmem := .inl ⟨t', hbridges ▸ ht', hmem⟩

/-- A request is new. -/
theorem grows_concat (hbridges : b'.bridges = b.bridges ++ [t])
    (hsent : ∀ key x, b.sentMessage key = some x → b'.sentMessage key = some x)
    (hholds : ∀ key tx, Holds b' key tx → Holds b key tx ∨
      tx = b.bridges.length ∧ ∃ message, b'.sentMessage key = some (t.target, message))
    (hproduced : ∀ peer payload, .ok (peer, payload) ∉ t.produced) : Grows Silent b b' where
  targets := by
    rw [hbridges, List.map_append]
    exact List.prefix_append _ _
  sent := hsent
  holds key tx h := by
    rcases hholds key tx h with hold | ⟨rfl, message, hmessage⟩
    · exact .inl hold
    · refine .inr ⟨Nat.le_refl _, t, message, ?_, hmessage⟩
      rw [hbridges, List.getElem?_append_right (Nat.le_refl _), Nat.sub_self]
      rfl
  produced i t' ht' peer payload hmem := by
    rw [hbridges] at ht'
    by_cases hi : i < b.bridges.length
    · rw [List.getElem?_append_left hi] at ht'
      exact .inl ⟨t', ht', hmem⟩
    · rw [List.getElem?_append_right (Nat.le_of_not_lt hi)] at ht'
      cases List.mem_singleton.mp (List.mem_of_getElem? ht')
      exact absurd hmem (hproduced peer payload)

/-! ### The calls -/

/-- A request that libp2p accepts. -/
theorem grows_insertPending (hbook : Bookkeeping b) {target : P} {handle : Option Sender}
    (message : WireMessage) {now : Nat} (hprotocol : b.protocols protocol = some details) :
    Grows Silent b
      ((b.spawnBridge target handle).insertPending details protocol target message
        { startedAt := now
          responseTx := some b.bridges.length
          fallbackRequest := none }) := by
  refine grows_concat rfl
    (fun key x => sentMessage_sendRequest hprotocol rfl) ?_ ?_
  · intro key tx h
    rcases (holds_insert_iff (lookup_fresh hbook hprotocol) rfl rfl key tx).mp h with
      ⟨rfl, rfl⟩ | hold
    · exact .inr ⟨rfl, message, sentMessage_fresh rfl⟩
    · exact .inl hold
  · intro peer payload hmem
    cases hmem

/-- A request that is refused. -/
theorem grows_refuseRequest (target : P) (handle : Option Sender)
    (failure : RequestFailure) :
    Grows Silent b
      ((b.spawnBridge target handle).refuseRequest b.bridges.length handle failure) := by
  refine grows_concat (t :=
    { target := target, pendingResponse := handle, rx := .canceled,
      offers := [(.error failure,
        (RequestResponsesBehaviour.trySendOn b.channels handle (.error failure)).2)] })
    ?_ (fun _ _ hx => hx) (fun _ _ h => .inl h) ?_
  · simp only [RequestResponsesBehaviour.refuseRequest, RequestResponsesBehaviour.cancel,
      RequestResponsesBehaviour.offer, RequestResponsesBehaviour.spawnBridge,
      modify_length_concat]
    rfl
  · intro peer payload hmem
    cases List.mem_singleton.mp hmem

theorem grows_sendRequestWithContext (hbook : Bookkeeping b) (env : Surroundings P)
    (target : P) (protocolName : ProtocolName) (ctx : WireContext) (payload : ByteVec)
    (isBroadcast : Bool) (handle : Option Sender) (connect : IfDisconnected) :
    Grows Silent b
      (b.sendRequestWithContext env target protocolName ctx payload isBroadcast handle
        connect) := by
  rcases sendRequestWithContext_cases b env target protocolName ctx payload isBroadcast handle
    connect with ⟨details, hprotocol, heq⟩ | ⟨failure, heq⟩
  · rw [heq]
    exact grows_insertPending hbook _ hprotocol
  · rw [heq]
    exact grows_refuseRequest target handle failure

/-- A broadcast is one request after the other. -/
theorem grows_broadcastLoop (env : Surroundings P) (protocolName : ProtocolName)
    (ctx : WireContext) (payload : ByteVec) (handle : Option Sender) (connect : IfDisconnected)
    (targets : List P) :
    ∀ b : RequestResponsesBehaviour P, Bookkeeping b →
      Grows Silent b
        (RequestResponsesBehaviour.broadcastLoop env protocolName ctx payload handle connect
          targets b) := by
  induction targets with
  | nil =>
      intro b _
      exact grows_of_same rfl rfl fun _ _ h => h
  | cons target targets ih =>
      intro b hbook
      have hone := grows_sendRequestWithContext hbook env target protocolName ctx payload
        true (handle.map Sender.clone) connect
      have hbook' := bookkeeping_sendRequestWithContext hbook env target protocolName ctx payload
        true (handle.map Sender.clone) connect
      exact hone.trans (ih _ hbook')

theorem grows_call (hbook : Bookkeeping b) (env : Surroundings P)
    (c : RequestResponsesBehaviour.Call P) : Grows Silent b (b.call env c) := by
  cases c with
  | sendRequestWithContext target protocolName ctx payload isBroadcast handle connect =>
      exact grows_sendRequestWithContext hbook env target protocolName ctx payload
        isBroadcast (some handle) connect
  | broadcastMessage targets protocolName ctx payload handle connect =>
      have hloop := grows_broadcastLoop env protocolName ctx payload handle connect targets b hbook
      -- only `multicasts` differs from what the loop leaves
      exact ⟨hloop.targets, hloop.sent, hloop.holds, hloop.produced⟩

/-! ### The events -/

/-- What a one-shot adds to the results of its request. -/
theorem mem_produced_send {result : RequestResult} {reply : Reply P}
    (h : reply ∈ ({ t with rx := t.rx.send result } : Bridge P).produced) :
    reply ∈ t.produced ∨ reply = t.relay result := by
  obtain ⟨target, handle, rx, offers⟩ := t
  cases rx with
  | waiting =>
      rcases List.mem_append.mp h with hold | hnew
      · exact .inl (List.mem_append_left _ hold)
      · exact .inr (List.mem_singleton.mp hnew)
  | sent _ => exact .inl h
  | canceled => exact .inl h
  | closed => exact .inl h

/-- An entry leaves the table with a result. If it is `Ok`, the request was
pending under this key. -/
theorem grows_finishRequest {key : ProtocolRequestId}
    {request : PendingRequest} {result : RequestResult}
    (hfresh : ∀ payload protocol, result = .ok (payload, protocol) →
      b.pendingRequests.lookup key = some request ∧ fresh key payload) :
    Grows fresh b (b.finishRequest key request result) := by
  have hholds : ∀ key' tx, Holds { b with pendingRequests := b.pendingRequests.erase key } key' tx →
      Holds b key' tx := by
    rintro key' tx ⟨request', hrequest, htx⟩
    exact ⟨request', ((lookup_erase_iff _ _).mp hrequest).2, htx⟩
  unfold RequestResponsesBehaviour.finishRequest
  cases htx : request.responseTx with
  | none => exact grows_of_same rfl rfl hholds
  | some tx =>
      refine grows_modify rfl rfl hholds (fun _ => rfl) ?_
      intro t _ peer payload hmem
      rcases mem_produced_send hmem with hold | hnew
      · exact .inl hold
      · cases result with
        | error e => cases hnew
        | ok value =>
            obtain ⟨hlookup, hkey⟩ := hfresh value.1 value.2 rfl
            cases hnew
            exact .inr ⟨rfl, key, ⟨request, hlookup, htx⟩, hkey⟩

theorem grows_checkRequest (now : Nat) (entry : Σ _ : ProtocolRequestId, PendingRequest) :
    Grows Silent b (b.checkRequest now entry) := by
  unfold RequestResponsesBehaviour.checkRequest
  split
  · exact grows_finishRequest fun _ _ h => by cases h
  · split
    · exact grows_finishRequest fun _ _ h => by cases h
    · exact grows_of_same rfl rfl fun _ _ h => h

/-- The periodic check gives results `Err` only. -/
theorem grows_foldl_checkRequest (now : Nat)
    (entries : List (Σ _ : ProtocolRequestId, PendingRequest)) :
    ∀ b : RequestResponsesBehaviour P,
      Grows Silent b (entries.foldl (RequestResponsesBehaviour.checkRequest now) b) := by
  induction entries with
  | nil =>
      intro b
      exact grows_of_same rfl rfl fun _ _ h => h
  | cons entry entries ih =>
      intro b
      exact (grows_checkRequest now entry).trans (ih _)

/-- An event for a key that leads nowhere. -/
theorem grows_erase (key : ProtocolRequestId) :
    Grows fresh b { b with pendingRequests := b.pendingRequests.erase key } := by
  refine grows_of_same rfl rfl ?_
  rintro key' tx ⟨request', hrequest, htx⟩
  exact ⟨request', ((lookup_erase_iff _ _).mp hrequest).2, htx⟩

/-- `poll` returns an event. -/
theorem Grows.returnEvent (h : Grows fresh b b') (hbook : Bookkeeping b')
    (event : RequestFinished P) : Grows fresh b (b'.returnEvent event) := by
  unfold RequestResponsesBehaviour.returnEvent
  rw [leavePoll_eq hbook]
  exact ⟨h.targets, h.sent, h.holds, h.produced⟩

/-- A response gives the request of its key the payload. -/
theorem grows_onResponse (hbook : Bookkeeping b) (now : Nat) (peer : P)
    (protocol : ProtocolName) (requestId : Nat) (response : Except Unit Bytes) :
    Grows (fun key payload => key = ⟨protocol, requestId⟩ ∧ response = .ok payload) b
      (b.onResponse now peer protocol requestId response) := by
  unfold RequestResponsesBehaviour.onResponse
  dsimp only
  split
  next startedAt tx fallbackRequest hlookup =>
      refine (grows_finishRequest ?_).returnEvent
        (bookkeeping_finishRequest hbook hlookup _) _
      intro payload name hresult
      cases response with
      | ok resp =>
          cases hresult
          exact ⟨hlookup, rfl, rfl⟩
      | error u => cases hresult
  next => exact grows_erase _

/-- A failure gives a result `Err`. -/
theorem grows_onOutboundFailure (hbook : Bookkeeping b) (now : Nat)
    (peer : P) (protocol : ProtocolName) (requestId : Nat) (error : OutboundFailure) :
    Grows Silent b (b.onOutboundFailure now peer protocol requestId error) := by
  unfold RequestResponsesBehaviour.onOutboundFailure
  dsimp only
  split
  next startedAt tx fallbackRequest hlookup =>
      obtain rfl : fallbackRequest = none := (hbook.entries _ _ hlookup).2
      refine (grows_finishRequest ?_).returnEvent
        (bookkeeping_finishRequest hbook hlookup _) _
      intro payload name hresult
      cases hresult
  next => exact grows_erase _

/-- The bridge moves a result from the one-shot to the channel. -/
theorem grows_pollBridge (hpoll : b.pollBridge tx = some b') : Grows Silent b b' := by
  unfold RequestResponsesBehaviour.pollBridge at hpoll
  split at hpoll
  next => cases hpoll
  next t ht =>
      split at hpoll
      next result hrx =>
          cases hpoll
          refine grows_modify (List.modify_modify_eq ..) rfl (fun _ _ h => h)
            (fun _ => rfl) ?_
          intro x hx peer payload hmem
          obtain rfl : x = t := Option.some.inj (hx.symm.trans ht)
          -- what was offered now is what the one-shot held
          refine .inl ?_
          simpa [Bridge.produced, hrx] using hmem
      next hrx =>
          cases hpoll
          refine grows_modify rfl rfl (fun _ _ h => h) (fun _ => rfl) ?_
          intro x _ peer payload hmem
          refine .inl (List.mem_append_left _ ?_)
          simpa [Bridge.produced] using hmem
      next => cases hpoll
      next => cases hpoll

/-- What a label says about new results: a response has this key and this
payload. -/
def Responds : RequestResponsesBehaviour.Label P → ProtocolRequestId → Bytes → Prop
  | .event (.response _ _ protocol requestId response), key, payload =>
      key = ⟨protocol, requestId⟩ ∧ response = .ok payload
  | _, _, _ => False

/-- What is new after any step. -/
theorem grows_step (hbook : Bookkeeping b) {l : RequestResponsesBehaviour.Label P}
    (hstep : b.step l = some b') : Grows (Responds l) b b' := by
  have hsame : Grows Silent b b := grows_of_same rfl rfl fun _ _ h => h
  cases l with
  | call env c =>
      cases hstep
      exact grows_call hbook env c
  | event e =>
      cases e with
      | response now peer protocol requestId response =>
          obtain ⟨-, heq⟩ := Option.ite_none_right_eq_some.mp hstep
          cases heq
          exact grows_onResponse hbook now peer protocol requestId response
      | outboundFailure now peer protocol requestId error =>
          obtain ⟨-, heq⟩ := Option.ite_none_right_eq_some.mp hstep
          cases heq
          exact grows_onOutboundFailure hbook now peer protocol requestId error
      | inbound =>
          cases hstep
          rw [leavePoll_eq hbook]
          exact hsame
      | periodicRequestCheck now =>
          cases hstep
          exact grows_foldl_checkRequest now _ b
      | passEnds env =>
          cases hstep
          unfold RequestResponsesBehaviour.sendFallbackRequests
          rw [hbook.noFallback]
          exact grows_of_same rfl rfl fun _ _ h => h
      | pollBridge tx => exact grows_pollBridge hstep
      | receive c =>
          obtain ⟨ch, -, rfl⟩ := Option.map_eq_some_iff.mp hstep
          exact grows_of_same rfl rfl fun _ _ h => h
      | dropReceiver c =>
          cases hstep
          exact grows_of_same rfl rfl fun _ _ h => h

/-- A result `Ok` is under the name of the target. -/
theorem target_of_produced {channels : Nat → Mpsc (Reply P)} (h : Accounted channels t) {peer : P}
    {payload : Bytes} (hmem : .ok (peer, payload) ∈ t.produced) : peer = t.target := by
  rcases List.mem_append.mp hmem with hmem | hmem
  · obtain ⟨o, ho, hreply⟩ := List.mem_map.mp hmem
    exact h.labelled o ho peer payload hreply
  · cases hrx : t.rx with
    | sent result =>
        rw [hrx] at hmem
        have hrelay := List.mem_singleton.mp hmem
        cases result with
        | ok value =>
            cases hrelay
            rfl
        | error e => cases hrelay
    | waiting | canceled | closed =>
        rw [hrx] at hmem
        cases hmem

/-! ### The keys of the requests -/

theorem holds_of_keyOf {b : RequestResponsesBehaviour P} {key : ProtocolRequestId}
    (h : b.keyOf tx = some key) : Holds b key tx := by
  obtain ⟨entry, hfind, rfl⟩ := Option.map_eq_some_iff.mp h
  have htx := List.find?_some hfind
  exact ⟨entry.2, AList.mem_lookup_iff.mpr (List.mem_of_find?_eq_some hfind), by simpa using htx⟩

/-- The key of a pending request. -/
theorem keyOf_of_holds {b : RequestResponsesBehaviour P} (hbook : Bookkeeping b)
    {key : ProtocolRequestId} (h : Holds b key tx) : b.keyOf tx = some key := by
  cases hkey : b.keyOf tx with
  | some key' => rw [hbook.matching.key_unique h (holds_of_keyOf hkey)]
  | none =>
      obtain ⟨request, hlookup, htx⟩ := h
      have hno := List.find?_eq_none.mp (Option.map_eq_none_iff.mp hkey) ⟨key, request⟩
        (AList.mem_lookup_iff.mp hlookup)
      exact absurd (decide_eq_true htx) hno

/-- The keys of the requests of a node. -/
structure Keyed (b : RequestResponsesBehaviour P) (keys : Nat → Option ProtocolRequestId) :
    Prop where
  known : ∀ tx key, keys tx = some key → tx < b.bridges.length
  pending : ∀ key tx, Holds b key tx → keys tx = some key
  sent : ∀ key tx, Holds b key tx → ∃ t message, b.bridges[tx]? = some t ∧
    b.sentMessage key = some (t.target, message)

/-- A new request gets its key, and an old one keeps it. -/
theorem Keyed.step {fresh : ProtocolRequestId → Bytes → Prop} {b b' : RequestResponsesBehaviour P}
    {keys : Nat → Option ProtocolRequestId} (h : Keyed b keys) (hgrows : Grows fresh b b')
    (hbook : Bookkeeping b') : Keyed b' fun tx => (keys tx).or (b'.keyOf tx) where
  known tx key hkey := by
    cases hold : keys tx with
    | some key' => exact Nat.lt_of_lt_of_le (h.known tx key' hold) hgrows.length_le
    | none =>
        simp only [hold, Option.none_or] at hkey
        obtain ⟨t, ht, -⟩ := hbook.matching.isOpen_of_leads (holds_of_keyOf hkey)
        exact (List.getElem?_eq_some_iff.mp ht).1
  pending key tx hholds := by
    rcases hgrows.holds key tx hholds with hold | ⟨hle, -⟩
    · simp [h.pending key tx hold]
    · have hnone : keys tx = none := by
        cases hkey : keys tx with
        | none => rfl
        | some key' => exact absurd (h.known tx key' hkey) (Nat.not_lt.mpr hle)
      simp [hnone, keyOf_of_holds hbook hholds]
  sent key tx hholds := by
    rcases hgrows.holds key tx hholds with hold | ⟨-, hnew⟩
    · obtain ⟨t, message, ht, hsent⟩ := h.sent key tx hold
      obtain ⟨t', ht', htarget⟩ := hgrows.target ht
      exact ⟨t', message, ht', htarget ▸ hgrows.sent _ _ hsent⟩
    · exact hnew

end Outbound

end FrostMpcTss.Proofs
