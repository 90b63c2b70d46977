import FrostMpcTss.Proofs.InboundLedger

/-!
# `FrostMpcTss.Proofs.InboundExact`: inbound requests from arrival to report

`Books` is about the tables of the behaviour. `Deliveries` is about the
way through the handlers: a handler gets every request at most once, as
it has arrived, and a request has an answer only if a handler had it.

`inbound_exact` puts both together for every run in which libp2p keeps
its promises. The behaviour does not panic, both tables are exact, every
request ends at most once, and what libp2p was given to send is what the
handler of that very request has answered.
-/

set_option autoImplicit false

namespace FrostMpcTss.Proofs

open Lib Network

namespace Inbound

variable {P : Type} {i : Nat} {protocol : ProtocolName}

/-- The handler sees the request as it has arrived. -/
def Matches (b : InboundBehaviour P) (m : IncomingRequest P Nat) : Prop :=
  ∃ r, b.requests[m.pendingResponse]? = some r ∧
    m = InboundBehaviour.incoming r.peer r.request m.pendingResponse

/-- What is in a queue: requests of its protocol that no handler has had. -/
structure Queued (b : InboundBehaviour P) (protocol : ProtocolName)
    (queue : List (IncomingRequest P Nat)) : Prop where
  distinct : (queue.map (·.pendingResponse)).Nodup
  arrived : ∀ m ∈ queue, Matches b m
  ofProtocol : ∀ m ∈ queue, ∀ r, b.requests[m.pendingResponse]? = some r →
    r.key.protocol = protocol
  untaken : ∀ m ∈ queue, m.pendingResponse ∉ b.handled.map (·.pendingResponse)

/-- The handlers get every request at most once, and only they answer. -/
structure Deliveries (b : InboundBehaviour P) : Prop where
  once : (b.handled.map (·.pendingResponse)).Nodup
  taken : ∀ m ∈ b.handled, Matches b m
  queued : ∀ protocol q, b.queues protocol = some (some q) → Queued b protocol q.queue
  answered : ∀ i r, b.requests[i]? = some r → r.answer.isSome = true →
    i ∈ b.handled.map (·.pendingResponse)

/-- The identities of the requests, which no step changes. -/
def identities (b : InboundBehaviour P) : List (P × ProtocolRequestId × WireMessage) :=
  b.requests.map fun r => (r.peer, r.key, r.request)

variable {b b' : InboundBehaviour P}

theorem getElem?_identities (b : InboundBehaviour P) (i : Nat) :
    (identities b)[i]? = (b.requests[i]?).map fun r => (r.peer, r.key, r.request) :=
  List.getElem?_map ..

/-- A request stays what it is. -/
theorem getElem?_of_identities (h : identities b <+: identities b') {r : InboundRequest P}
    (hr : b.requests[i]? = some r) :
    ∃ r', b'.requests[i]? = some r' ∧ r'.peer = r.peer ∧ r'.key = r.key ∧
      r'.request = r.request := by
  have hi : (identities b)[i]? = some (r.peer, r.key, r.request) := by
    rw [getElem?_identities, hr]
    rfl
  obtain ⟨rest, heq⟩ := h
  have hlt : i < (identities b).length := (List.getElem?_eq_some_iff.mp hi).1
  rw [← List.getElem?_append_left hlt, heq, getElem?_identities, Option.map_eq_some_iff] at hi
  obtain ⟨r', hr', heq⟩ := hi
  simp only [Prod.mk.injEq] at heq
  exact ⟨r', hr', heq⟩

theorem Matches.mono {m : IncomingRequest P Nat} (h : Matches b m)
    (hsame : identities b <+: identities b') : Matches b' m := by
  obtain ⟨r, hr, hm⟩ := h
  obtain ⟨r', hr', hpeer, -, hrequest⟩ := getElem?_of_identities hsame hr
  exact ⟨r', hr', by rw [hpeer, hrequest]; exact hm⟩

/-- A queue that is not touched stays in order. -/
theorem Queued.mono {queue : List (IncomingRequest P Nat)} (h : Queued b protocol queue)
    (hsame : identities b <+: identities b')
    (huntaken : ∀ m ∈ queue, m.pendingResponse ∉ b'.handled.map (·.pendingResponse)) :
    Queued b' protocol queue where
  distinct := h.distinct
  arrived m hm := (h.arrived m hm).mono hsame
  ofProtocol m hm r' hr' := by
    obtain ⟨r, hr, -⟩ := h.arrived m hm
    obtain ⟨r'', hr'', -, hkey, -⟩ := getElem?_of_identities hsame hr
    cases hr'.symm.trans hr''
    rw [hkey]
    exact h.ofProtocol m hm r hr
  untaken := huntaken

/-- A step that neither puts a request into a queue nor takes one out. -/
theorem Deliveries.mono (h : Deliveries b) (hsame : identities b <+: identities b')
    (hhandled : b'.handled = b.handled)
    (hqueues : ∀ protocol q', b'.queues protocol = some (some q') →
      ∃ q, b.queues protocol = some (some q) ∧ q'.queue = q.queue)
    (hanswered : ∀ i r, b'.requests[i]? = some r → r.answer.isSome = true →
      i ∈ b.handled.map (·.pendingResponse)) : Deliveries b' where
  once := hhandled ▸ h.once
  taken m hm := (h.taken m (hhandled ▸ hm)).mono hsame
  queued protocol q' hq' := by
    obtain ⟨q, hq, heq⟩ := hqueues protocol q' hq'
    rw [heq]
    refine (h.queued protocol q hq).mono hsame fun m hm => ?_
    rw [hhandled]
    exact (h.queued protocol q hq).untaken m hm
  answered i r hr hanswer := by
    rw [hhandled]
    exact hanswered i r hr hanswer

/-- A change to one request. Only a handler that has the request makes an
answer. -/
theorem deliveries_modify (h : Deliveries b) {f : InboundRequest P → InboundRequest P}
    (hframe : ∀ r, (f r).peer = r.peer ∧ (f r).key = r.key ∧ (f r).request = r.request)
    (hanswer : (∀ r, (f r).answer = r.answer) ∨ i ∈ b.handled.map (·.pendingResponse)) :
    Deliveries (b.modifyRequest i f) := by
  refine h.mono ?_ rfl (fun _ q hq => ⟨q, hq, rfl⟩) ?_
  · have heq : identities (b.modifyRequest i f) = identities b :=
      map_modify_of_eq (fun r => by rw [(hframe r).1, (hframe r).2.1, (hframe r).2.2]) _ _
    rw [heq]
  · intro j r hr hsome
    have hr : (b.requests.modify i f)[j]? = some r := hr
    by_cases hij : i = j
    · subst hij
      rcases hanswer with hanswer | hhandled
      · rw [List.getElem?_modify_eq] at hr
        obtain ⟨r₀, hr₀, rfl⟩ := Option.map_eq_some_iff.mp hr
        rw [hanswer] at hsome
        exact h.answered i r₀ hr₀ hsome
      · exact hhandled
    · rw [List.getElem?_modify_ne f _ hij] at hr
      exact h.answered j r hr hsome

/-- A response leaves the deliveries alone. -/
theorem deliveries_sendResponse (h : Deliveries b) (i : Nat) (r : InboundRequest P)
    (payload : ByteVec) (sentFeedback : Option Nat) :
    Deliveries (b.sendResponse i r payload sentFeedback) := by
  unfold InboundBehaviour.sendResponse
  split
  · have hsent := deliveries_modify h (i := i)
      (f := fun r => { r with rx := .closed, channel := .sent payload })
      (fun _ => ⟨rfl, rfl, rfl⟩) (.inl fun _ => rfl)
    cases sentFeedback with
    | none => exact hsent
    | some feedback =>
        exact hsent.mono (List.prefix_refl _) rfl (fun _ q hq => ⟨q, hq, rfl⟩) hsent.answered
  · exact deliveries_modify h (fun _ => ⟨rfl, rfl, rfl⟩) (.inl fun _ => rfl)

theorem deliveries_pollResponse (h : Deliveries b) (hpoll : b.pollResponse i = some b') :
    Deliveries b' := by
  obtain ⟨r, -, ⟨payload, sentFeedback, -, rfl⟩ | ⟨-, -, rfl⟩⟩ := pollResponse_cases hpoll
  · exact deliveries_sendResponse h i r payload sentFeedback
  · exact deliveries_modify h (fun _ => ⟨rfl, rfl, rfl⟩) (.inl fun _ => rfl)

theorem deliveries_answer (h : Deliveries b) {response : BuiltResponse}
    (hstep : b.answer i response = some b') : Deliveries b' := by
  obtain ⟨hholds, heq⟩ := Option.ite_none_right_eq_some.mp hstep
  cases heq
  obtain ⟨⟨m, hm, hi⟩, -⟩ := getElem?_of_holdsHandle hholds
  exact deliveries_modify h (fun _ => ⟨rfl, rfl, rfl⟩)
    (.inr (List.mem_map.mpr ⟨m, hm, hi⟩))

theorem deliveries_dropHandle (h : Deliveries b) (hstep : b.dropHandle i = some b') :
    Deliveries b' := by
  obtain ⟨-, heq⟩ := Option.ite_none_right_eq_some.mp hstep
  cases heq
  exact deliveries_modify h (fun _ => ⟨rfl, rfl, rfl⟩) (.inl fun _ => rfl)

/-- A queue that closes loses its requests. -/
theorem deliveries_closeQueue (h : Deliveries b) (hstep : b.closeQueue protocol = some b') :
    Deliveries b' := by
  unfold InboundBehaviour.closeQueue at hstep
  split at hstep
  next q hq =>
      cases hstep
      refine h.mono (List.prefix_refl _) rfl (fun protocol' q' hq' => ?_) h.answered
      by_cases hp : protocol' = protocol
      · subst hp
        simp only [Function.update_self] at hq'
        cases hq'
        exact ⟨q, hq, rfl⟩
      · simp only [Function.update_of_ne hp] at hq'
        exact ⟨q', hq', rfl⟩
  next => cases hstep

/-- The handler of a protocol takes a request. -/
theorem deliveries_takeRequest (h : Deliveries b) (hstep : b.takeRequest protocol = some b') :
    Deliveries b' := by
  unfold InboundBehaviour.takeRequest at hstep
  split at hstep
  next q hq =>
      split at hstep
      next m rest hqueue =>
          cases hstep
          have hqueued := h.queued protocol q hq
          rw [hqueue] at hqueued
          have hm := hqueued.arrived m (List.mem_cons_self ..)
          obtain ⟨hnotin, hdistinct⟩ := List.nodup_cons.mp hqueued.distinct
          have hhandled : ∀ i, i ∈ (b.handled ++ [m]).map (·.pendingResponse) ↔
              i ∈ b.handled.map (·.pendingResponse) ∨ i = m.pendingResponse := by
            intro i
            rw [List.map_append, List.mem_append]
            exact or_congr_right List.mem_singleton
          refine ⟨?_, ?_, ?_, ?_⟩
          · show ((b.handled ++ [m]).map (·.pendingResponse)).Nodup
            rw [List.map_append]
            refine List.Nodup.append h.once (List.nodup_singleton _) ?_
            intro i hi hi'
            cases List.mem_singleton.mp hi'
            exact hqueued.untaken m (List.mem_cons_self ..) hi
          · intro m' hm'
            rcases List.mem_append.mp hm' with hm' | hm'
            · exact h.taken m' hm'
            · cases List.mem_singleton.mp hm'
              exact hm
          · intro protocol' q' hq'
            by_cases hp : protocol' = protocol
            · subst hp
              simp only [Function.update_self] at hq'
              cases hq'
              refine ⟨hdistinct, fun m' hm' => hqueued.arrived m' (List.mem_cons_of_mem _ hm'),
                fun m' hm' => hqueued.ofProtocol m' (List.mem_cons_of_mem _ hm'),
                fun m' hm' => ?_⟩
              rw [hhandled]
              rintro (hi | hi)
              · exact hqueued.untaken m' (List.mem_cons_of_mem _ hm') hi
              · exact hnotin (List.mem_map.mpr ⟨m', hm', hi⟩)
            · simp only [Function.update_of_ne hp] at hq'
              have hother := h.queued protocol' q' hq'
              refine hother.mono (List.prefix_refl _) fun m' hm' => ?_
              rw [hhandled]
              rintro (hi | hi)
              · exact hother.untaken m' hm' hi
              · -- a request belongs to one protocol
                obtain ⟨r, hr, -⟩ := hm
                have hofProtocol := hqueued.ofProtocol m (List.mem_cons_self ..) r hr
                exact hp ((hother.ofProtocol m' hm' r (hi ▸ hr)).symm.trans hofProtocol)
          · intro i r hr hanswer
            rw [hhandled]
            exact .inl (h.answered i r hr hanswer)
      next => cases hstep
  next => cases hstep

/-- A request arrives and goes into the queue of its protocol, if any. -/
theorem deliveries_arrives (h : Deliveries b) {r : InboundRequest P} (hanswer : r.answer = none)
    (hrequests : b'.requests = b.requests ++ [r]) (hhandled : b'.handled = b.handled)
    (hqueues : ∀ protocol q', b'.queues protocol = some (some q') →
      ∃ q, b.queues protocol = some (some q) ∧
        (q'.queue = q.queue ∨ protocol = r.key.protocol ∧ q'.queue =
          q.queue ++ [InboundBehaviour.incoming r.peer r.request b.requests.length])) :
    Deliveries b' := by
  have hsame : identities b <+: identities b' := by
    unfold identities
    rw [hrequests, List.map_append]
    exact List.prefix_append _ _
  have hlast : b'.requests[b.requests.length]? = some r := by
    rw [hrequests, List.getElem?_concat_length]
  -- the number of the new request has not been used
  have hlt : ∀ m, Matches b m → m.pendingResponse < b.requests.length := by
    rintro m ⟨r', hr', -⟩
    exact (List.getElem?_eq_some_iff.mp hr').1
  have huntaken : b.requests.length ∉ b.handled.map (·.pendingResponse) := by
    intro hmem
    obtain ⟨m, hm, heq⟩ := List.mem_map.mp hmem
    exact absurd (hlt m (h.taken m hm)) (by rw [heq]; exact Nat.lt_irrefl _)
  refine ⟨hhandled ▸ h.once, fun m hm => (h.taken m (hhandled ▸ hm)).mono hsame, ?_, ?_⟩
  · intro protocol q' hq'
    obtain ⟨q, hq, heq⟩ := hqueues protocol q' hq'
    have hqueued := h.queued protocol q hq
    have hmono : Queued b' protocol q.queue :=
      hqueued.mono hsame fun m hm => hhandled ▸ hqueued.untaken m hm
    rcases heq with heq | ⟨rfl, heq⟩
    · rw [heq]
      exact hmono
    · rw [heq]
      refine ⟨?_, fun m hm => ?_, fun m hm r' hr' => ?_, fun m hm => ?_⟩
      · rw [List.map_append]
        refine List.Nodup.append hqueued.distinct (List.nodup_singleton _) ?_
        intro i hi hi'
        obtain ⟨m, hm, rfl⟩ := List.mem_map.mp hi
        have heq := List.mem_singleton.mp hi'
        exact absurd (hlt m (hqueued.arrived m hm)) (by rw [heq]; exact Nat.lt_irrefl _)
      · rcases List.mem_append.mp hm with hm | hm
        · exact hmono.arrived m hm
        · cases List.mem_singleton.mp hm
          exact ⟨r, hlast, rfl⟩
      · rcases List.mem_append.mp hm with hm | hm
        · exact hmono.ofProtocol m hm r' hr'
        · cases List.mem_singleton.mp hm
          cases hr'.symm.trans hlast
          rfl
      · rw [hhandled]
        rcases List.mem_append.mp hm with hm | hm
        · exact hqueued.untaken m hm
        · cases List.mem_singleton.mp hm
          exact huntaken
  · intro i r' hr' hsome
    rw [hhandled]
    rw [hrequests] at hr'
    by_cases hi : i < b.requests.length
    · rw [List.getElem?_append_left hi] at hr'
      exact h.answered i r' hr' hsome
    · rw [List.getElem?_append_right (Nat.le_of_not_lt hi)] at hr'
      have hmem := List.mem_singleton.mp (List.mem_of_getElem? hr')
      rw [hmem, hanswer] at hsome
      cases hsome

/-! ### Runs -/

/-- Everything about the inbound requests of a node. -/
structure InboundExact (b : InboundBehaviour P) : Prop where
  books : Books b
  deliveries : Deliveries b

/-- What `submit` does to the queues. -/
theorem submit_cases (b : InboundBehaviour P) (protocol : ProtocolName)
    (m : IncomingRequest P Nat) :
    b.submit protocol m = (b, false) ∨ ∃ q, b.queues protocol = some (some q) ∧
      b.submit protocol m =
        ({ b with
            queues := Function.update b.queues protocol
              (some (some { q with queue := q.queue ++ [m] })) }, true) := by
  unfold InboundBehaviour.submit
  split
  next q hq =>
      split
      next q' hq' =>
          obtain ⟨-, heq⟩ := Option.ite_none_left_eq_some.mp hq'
          cases heq
          exact .inr ⟨q, hq, rfl⟩
      next => exact .inl rfl
  next => exact .inl rfl

section Promised

variable [DecidableEq P]

/-- A request that comes in is queued or refused, and counted once. -/
theorem exact_onRequest (h : InboundExact b) {now : Nat} {peer : P} {key : ProtocolRequestId}
    {request : WireMessage} {reputation : Int}
    (hpromised : b.contract (.request now peer key request reputation) = true) :
    InboundExact (b.onRequest now peer key request reputation) := by
  obtain ⟨hpromised, hover⟩ := Bool.and_eq_true_iff.mp hpromised
  obtain ⟨-, hfresh⟩ := Bool.and_eq_true_iff.mp hpromised
  have hfresh : b.requestOf key = none := Option.isNone_iff_eq_none.mp hfresh
  have hopen : ¬ Ended b key := not_ended_of_isOver (by simpa using hover)
  unfold InboundBehaviour.onRequest
  dsimp only
  split
  · -- the peer has a low reputation
    let r : InboundRequest P :=
      { peer := peer, key := key, request := request, arrivedAt := now, rx := .closed,
        channel := .canceled, answer := none }
    exact
      ⟨books_arrives h.books (r := r) hfresh hopen (fun _ h => by cases h) (fun _ h => by cases h)
          rfl rfl rfl rfl rfl,
        deliveries_arrives h.deliveries (r := r) rfl rfl rfl fun _ q hq => ⟨q, hq, .inl rfl⟩⟩
  · let r (rx : Oneshot BuiltResponse) : InboundRequest P :=
      { peer := peer, key := key, request := request, arrivedAt := now, rx := rx,
        channel := .waiting, answer := none }
    rcases submit_cases { b with arrivalTime := b.arrivalTime.insert key now } key.protocol
      (InboundBehaviour.incoming peer request b.requests.length) with heq | ⟨q, hq, heq⟩
    · rw [heq]
      exact
        ⟨books_arrives h.books (r := r .canceled) hfresh hopen (fun _ h => by cases h)
            (fun _ h => by cases h) rfl rfl rfl rfl rfl,
          deliveries_arrives h.deliveries (r := r .canceled) rfl rfl rfl
            fun _ q hq => ⟨q, hq, .inl rfl⟩⟩
    · rw [heq]
      refine
        ⟨books_arrives h.books (r := r .waiting) hfresh hopen (fun _ h => by cases h)
            (fun _ h => by cases h) rfl rfl rfl rfl rfl,
          deliveries_arrives h.deliveries (r := r .waiting) rfl rfl rfl
            fun protocol q' hq' => ?_⟩
      by_cases hp : protocol = key.protocol
      · subst hp
        simp only [Function.update_self] at hq'
        cases hq'
        exact ⟨q, hq, .inr ⟨rfl, rfl⟩⟩
      · simp only [Function.update_of_ne hp] at hq'
        exact ⟨q', hq', .inl rfl⟩

/-- A step of a running behaviour does not panic and keeps everything
exact. -/
theorem exact_next (h : InboundExact b) {l : InboundBehaviour.Label P}
    (hpromised : b.contract l = true) {s : InboundBehaviour.State P} (hnext : b.next l = some s) :
    ∃ b', s = .running b' ∧ InboundExact b' := by
  cases l with
  | request now peer key request reputation =>
      cases hnext
      exact ⟨_, rfl, exact_onRequest h hpromised⟩
  | pollResponse i =>
      obtain ⟨b', hpoll, rfl⟩ := Option.map_eq_some_iff.mp hnext
      exact ⟨b', rfl, books_pollResponse h.books hpoll, deliveries_pollResponse h.deliveries hpoll⟩
  | responseSent now peer key =>
      obtain ⟨b', hsent, hbooks⟩ := books_onResponseSent h.books hpromised
      simp only [InboundBehaviour.next, hsent] at hnext
      cases hnext
      refine ⟨b', rfl, hbooks, ?_⟩
      obtain ⟨arrivedAt, -, rfl⟩ := Option.map_eq_some_iff.mp hsent
      exact h.deliveries.mono (List.prefix_refl _) rfl (fun _ q hq => ⟨q, hq, rfl⟩)
        h.deliveries.answered
  | inboundFailure peer key error =>
      cases hnext
      exact ⟨_, rfl, books_onInboundFailure h.books hpromised,
        h.deliveries.mono (List.prefix_refl _) rfl (fun _ q hq => ⟨q, hq, rfl⟩)
          h.deliveries.answered⟩
  | takeRequest protocol =>
      obtain ⟨b', htake, rfl⟩ := Option.map_eq_some_iff.mp hnext
      exact ⟨b', rfl, books_takeRequest h.books htake, deliveries_takeRequest h.deliveries htake⟩
  | closeQueue protocol =>
      obtain ⟨b', hclose, rfl⟩ := Option.map_eq_some_iff.mp hnext
      exact ⟨b', rfl, books_closeQueue h.books hclose, deliveries_closeQueue h.deliveries hclose⟩
  | answer i response =>
      obtain ⟨b', hanswer, rfl⟩ := Option.map_eq_some_iff.mp hnext
      exact ⟨b', rfl, books_answer h.books hanswer, deliveries_answer h.deliveries hanswer⟩
  | dropHandle i =>
      obtain ⟨b', hdrop, rfl⟩ := Option.map_eq_some_iff.mp hnext
      exact ⟨b', rfl, books_dropHandle h.books hdrop, deliveries_dropHandle h.deliveries hdrop⟩
  | closeChannel i =>
      cases hnext
      exact ⟨_, rfl, books_closeChannel h.books i,
        deliveries_modify h.deliveries (fun _ => ⟨rfl, rfl, rfl⟩) (.inl fun _ => rfl)⟩

omit [DecidableEq P] in
/-- Nothing has arrived yet. -/
theorem exact_new (capacities : ProtocolName → Option (Option Nat)) :
    InboundExact (.new capacities : InboundBehaviour P) where
  books :=
    { keys := List.nodup_nil
      consistent := List.forall_mem_nil _
      live := List.forall_mem_nil _
      arrival := Tracks.empty _
      feedback := Tracks.empty _
      once := List.nodup_nil
      peers := List.forall_mem_nil _
      success := List.forall_mem_nil _
      notified := by
        intro feedback
        constructor
        · intro h
          cases h
        · rintro ⟨_, h, -⟩
          cases h }
  deliveries :=
    { once := List.nodup_nil
      taken := List.forall_mem_nil _
      queued := by
        intro protocol q hq
        obtain ⟨capacity, -, hq⟩ := Option.map_eq_some_iff.mp hq
        obtain ⟨n, -, rfl⟩ := Option.map_eq_some_iff.mp hq
        exact ⟨List.nodup_nil, List.forall_mem_nil _, List.forall_mem_nil _,
          List.forall_mem_nil _⟩
      answered := fun _ _ hr => by cases hr }

/-- Take any run of the behaviour and its handlers in which libp2p keeps
its promises. The behaviour has not panicked, its tables are exact, and
the handlers have had every request at most once. -/
theorem inbound_exact {capacities : ProtocolName → Option (Option Nat)}
    {s : InboundBehaviour.State P}
    (h : Reach InboundBehaviour.step (fun s l => InboundBehaviour.promised s l = true)
      (.running (.new capacities)) s) :
    ∃ b, s = .running b ∧ InboundExact b := by
  refine h.invariant (I := fun s => ∃ b, s = .running b ∧ InboundExact b)
    ⟨_, rfl, exact_new capacities⟩ ?_
  rintro s l s' ⟨b, rfl, hb⟩ hpromised hstep
  exact exact_next hb hpromised hstep

end Promised

/-! ### One request, from its arrival to the feedback -/

namespace OneRequest

def key : ProtocolRequestId := ⟨"/room/a", 1⟩

def message : WireMessage where
  context :=
    { messageType := .computation, protocolId := 0, sessionId := noSessionId, messageId := 0 }
  payload := ⟨[1, 2], by decide⟩
  isBroadcast := false
  protocolId_lt := by decide
  messageId_lt := by decide

def capacities (name : ProtocolName) : Option (Option Nat) :=
  if name = key.protocol then some (some 8) else none

/-- Peer `5` asks, the handler answers with feedback sender `9`, and the
response is sent. -/
def labels : List (InboundBehaviour.Label Nat) :=
  [.request 100 5 key message 0, .takeRequest key.protocol,
    .answer 0 { result := .ok ⟨[3], by decide⟩, sentFeedback := some 9 }, .pollResponse 0,
    .responseSent 130 5 key]

/-- The feedback senders that were told, if the behaviour runs. -/
def told : InboundBehaviour.State Nat → Option (List Nat)
  | .running b => some b.notified
  | .panicked => none

/-- One request, answered with feedback. -/
theorem inbound_exact_oneRequest : ∃ b : InboundBehaviour Nat, InboundExact b ∧
    b.notified = [9] ∧
    Reach InboundBehaviour.step (fun s l => InboundBehaviour.promised s l = true)
      (.running (.new capacities)) (.running b) := by
  have hrun : (runIf (InboundBehaviour.step (P := Nat)) InboundBehaviour.promised
      (.running (.new capacities)) labels).bind told = some [9] := by
    decide +kernel
  obtain ⟨s, hrun, htold⟩ := Option.bind_eq_some_iff.mp hrun
  have hreach := reach_of_runIf labels hrun
  obtain ⟨b, rfl, hexact⟩ := inbound_exact hreach
  exact ⟨b, hexact, Option.some.inj htold, hreach⟩

end OneRequest

end Inbound

end FrostMpcTss.Proofs
