import FrostMpcTss.Lib.OpenItems
import FrostMpcTss.Lib.Transition
import FrostMpcTss.Network.InboundRequests

/-!
# `FrostMpcTss.Proofs.InboundLedger`: the tables of the inbound requests

`poll` has two tables about inbound requests: the arrival times, and the
feedback senders of responses that libp2p is sending. It looks a request
up when libp2p reports its end, and panics if there is no arrival time.

`Books` says that both tables are exact as long as libp2p keeps its
promises: the first has the requests that have arrived and have not
ended, the second those of them whose response libp2p has taken and whose
handler wants to be told. The lemmas of this module say that every step
keeps the books.
-/

set_option autoImplicit false

namespace FrostMpcTss.Proofs

open Lib Network

namespace Inbound

variable {P : Type} {r : InboundRequest P} {b' : InboundBehaviour P}

/-- The feedback sender that waits for libp2p to send the response. -/
def due (r : InboundRequest P) : Option Nat :=
  match r.channel with
  | .sent _ => r.answer.bind (·.sentFeedback)
  | _ => none

/-- The requests with their arrival times. -/
def arrivals (b : InboundBehaviour P) : List (ProtocolRequestId × Nat) :=
  b.requests.map fun r => (r.key, r.arrivedAt)

/-- The requests with their feedback senders. -/
def dues (b : InboundBehaviour P) : List (ProtocolRequestId × Nat) :=
  b.requests.filterMap fun r => (due r).map (r.key, ·)

/-- libp2p has reported the end of the request. -/
def Ended (b : InboundBehaviour P) (key : ProtocolRequestId) : Prop :=
  ∃ report ∈ b.reports, report.key = key

/-- The record of a request: what libp2p has is what the handler has
answered. -/
structure Consistent (r : InboundRequest P) : Prop where
  answered : ∀ response, r.rx = .sent response → r.answer = some response
  sent : ∀ payload, r.channel = .sent payload →
    r.rx = .closed ∧ ∃ feedback, r.answer = some ⟨.ok payload, feedback⟩

/-- The tables and the reports. -/
structure Books (b : InboundBehaviour P) : Prop where
  keys : (b.requests.map (·.key)).Nodup
  consistent : ∀ r ∈ b.requests, Consistent r
  live : ∀ r ∈ b.requests, r.channel = .waiting → ¬ Ended b r.key
  arrival : Tracks b.arrivalTime (arrivals b) (Ended b)
  feedback : Tracks b.sendFeedback (dues b) (Ended b)
  once : (b.reports.map (·.key)).Nodup
  peers : ∀ report ∈ b.reports, ∀ r ∈ b.requests, r.key = report.key → r.peer = report.peer
  success : ∀ report ∈ b.reports, ∀ duration, report.result = .ok duration →
    ∃ r ∈ b.requests, r.key = report.key ∧ ∃ payload, r.channel = .sent payload
  notified : ∀ feedback, feedback ∈ b.notified ↔ ∃ key, (key, feedback) ∈ dues b ∧
    ∃ report ∈ b.reports, report.key = key ∧ ∃ duration, report.result = .ok duration

variable {b : InboundBehaviour P}

/-! ### Requests by their ids -/

/-- No two requests have the same key. -/
theorem eq_of_key (h : Books b) {r' : InboundRequest P} (hr : r ∈ b.requests)
    (hr' : r' ∈ b.requests) (hkey : r.key = r'.key) : r = r' :=
  List.inj_on_of_nodup_map h.keys hr hr' hkey

theorem mem_of_requestOf {key : ProtocolRequestId} (h : b.requestOf key = some r) :
    r ∈ b.requests ∧ r.key = key :=
  ⟨List.mem_of_find?_eq_some h, by simpa using List.find?_some h⟩

theorem requestOf_of_mem (h : Books b) (hr : r ∈ b.requests) : b.requestOf r.key = some r := by
  cases hfind : b.requestOf r.key with
  | none =>
      have hne := List.find?_eq_none.mp hfind r hr
      simp at hne
  | some r' =>
      obtain ⟨hr', hkey⟩ := mem_of_requestOf hfind
      rw [eq_of_key h hr' hr hkey]

theorem ne_of_requestOf {key : ProtocolRequestId} (h : b.requestOf key = none)
    (hr : r ∈ b.requests) :
    r.key ≠ key := by
  have hne := List.find?_eq_none.mp h r hr
  simpa using hne

/-- An exchange that is not over has not ended. -/
theorem not_ended_of_isOver {key : ProtocolRequestId} (h : b.isOver key = false) :
    ¬ Ended b key := by
  rintro ⟨report, hreport, hkey⟩
  have hany : b.isOver key = true :=
    List.any_eq_true.mpr ⟨report, hreport, decide_eq_true hkey⟩
  rw [h] at hany
  cases hany

theorem mem_dues {key : ProtocolRequestId} {feedback : Nat} :
    (key, feedback) ∈ dues b ↔ ∃ r ∈ b.requests, r.key = key ∧ due r = some feedback := by
  unfold dues
  simp only [List.mem_filterMap, Option.map_eq_some_iff, Prod.mk.injEq]
  constructor
  · rintro ⟨r, hr, f, hf, hkey, rfl⟩
    exact ⟨r, hr, hkey, hf⟩
  · rintro ⟨r, hr, hkey, hf⟩
    exact ⟨r, hr, feedback, hf, hkey, rfl⟩

/-- Only a response that libp2p has is due. -/
theorem due_of_ne (h : ∀ payload, r.channel ≠ .sent payload) : due r = none := by
  unfold due
  split
  next payload hsent => exact absurd hsent (h payload)
  next => rfl

/-! ### A change to one request -/

section Change

variable {i : Nat} {r : InboundRequest P} {f : InboundRequest P → InboundRequest P}

theorem modifyRequest_of_none (h : b.requests[i]? = none) : b.modifyRequest i f = b := by
  unfold InboundBehaviour.modifyRequest
  rw [List.modify_eq_self (List.getElem?_eq_none_iff.mp h)]

/-- The fields that no change to a request touches. -/
structure Frame (r r' : InboundRequest P) : Prop where
  key : r'.key = r.key
  peer : r'.peer = r.peer
  request : r'.request = r.request
  arrivedAt : r'.arrivedAt = r.arrivedAt
  /-- The channel is not opened again. -/
  live : r'.channel = .waiting → r.channel = .waiting
  sent : ∀ payload, r.channel = .sent payload → r'.channel = .sent payload

/-- A change to a request, with the feedback table that goes with it. -/
theorem books_change (h : Books b) (hr : b.requests[i]? = some r) (hframe : Frame r (f r))
    (hconsistent : Consistent (f r)) {table : AList fun _ : ProtocolRequestId => Nat}
    (hfeedback : Tracks table (dues (b.modifyRequest i f)) (Ended b))
    (hdues : ∀ key feedback, Ended b key →
      ((key, feedback) ∈ dues (b.modifyRequest i f) ↔ (key, feedback) ∈ dues b)) :
    Books { b.modifyRequest i f with sendFeedback := table } where
  keys := by
    show ((b.requests.modify i f).map (·.key)).Nodup
    rw [map_modify_of_getElem? hr hframe.key]
    exact h.keys
  consistent r' hr' := by
    rcases mem_modify hr' with hr' | ⟨x, hx, rfl⟩
    · exact h.consistent r' hr'
    · cases hr.symm.trans hx
      exact hconsistent
  live r' hr' hwaiting := by
    rcases mem_modify hr' with hr' | ⟨x, hx, rfl⟩
    · exact h.live r' hr' hwaiting
    · cases hr.symm.trans hx
      have hlive := h.live r (List.mem_of_getElem? hr) (hframe.live hwaiting)
      rwa [← hframe.key] at hlive
  arrival := by
    refine h.arrival.congr fun e => ?_
    show e ∈ (b.requests.modify i f).map _ ↔ e ∈ b.requests.map _
    rw [map_modify_of_getElem? hr (by rw [hframe.key, hframe.arrivedAt])]
  feedback := hfeedback
  once := h.once
  peers report hreport r' hr' hkey := by
    rcases mem_modify hr' with hr' | ⟨x, hx, rfl⟩
    · exact h.peers report hreport r' hr' hkey
    · cases hr.symm.trans hx
      rw [hframe.peer]
      exact h.peers report hreport r (List.mem_of_getElem? hr) (hframe.key.symm.trans hkey)
  success report hreport duration hresult := by
    obtain ⟨r', hr', hkey, payload, hsent⟩ := h.success report hreport duration hresult
    obtain ⟨j, hj⟩ := List.mem_iff_getElem?.mp hr'
    by_cases hij : i = j
    · -- this is the request that changes; it keeps its response
      subst hij
      cases hr.symm.trans hj
      exact ⟨f r, (mem_modify_iff hr).mpr (.inl rfl), hframe.key.trans hkey, payload,
        hframe.sent payload hsent⟩
    · exact ⟨r', (mem_modify_iff hr).mpr (.inr ⟨j, hij, hj⟩), hkey, payload, hsent⟩
  notified feedback := by
    refine (h.notified feedback).trans (exists_congr fun key => and_congr_left ?_)
    rintro ⟨report, hreport, hkey, -⟩
    exact (hdues key feedback ⟨report, hreport, hkey⟩).symm

/-- A change to a request that leaves its feedback as it is. -/
theorem books_modify (h : Books b) (hr : b.requests[i]? = some r) (hframe : Frame r (f r))
    (hconsistent : Consistent (f r)) (hdue : due (f r) = due r) :
    Books (b.modifyRequest i f) := by
  have hdues : ∀ e, e ∈ dues (b.modifyRequest i f) ↔ e ∈ dues b := by
    rintro ⟨key, feedback⟩
    rw [mem_dues, mem_dues]
    exact exists_mem_modify hr (by rw [hframe.key, hdue])
  exact books_change h hr hframe hconsistent (h.feedback.congr hdues)
    fun key feedback _ => hdues (key, feedback)

/-- A request whose handler or future is not through has given libp2p
nothing. -/
theorem not_sent (h : Books b) (hr : b.requests[i]? = some r) (hrx : r.rx ≠ .closed)
    (payload : ByteVec) : r.channel ≠ .sent payload := by
  intro hsent
  exact hrx ((h.consistent r (List.mem_of_getElem? hr)).sent payload hsent).1

/-- libp2p takes the response. -/
theorem books_sent (h : Books b) (hr : b.requests[i]? = some r) {payload : ByteVec}
    {sentFeedback : Option Nat} (hrx : r.rx = .sent ⟨.ok payload, sentFeedback⟩)
    (hchannel : r.channel = .waiting) :
    Books (b.sendResponse i r payload sentFeedback) := by
  have hmem := List.mem_of_getElem? hr
  have hanswer := (h.consistent r hmem).answered _ hrx
  have hopen := h.live r hmem hchannel
  have hnone : due r = none := due_of_ne fun payload hsent => by
    rw [hchannel] at hsent
    cases hsent
  let f (r : InboundRequest P) : InboundRequest P :=
    { r with rx := .closed, channel := .sent payload }
  have hframe : Frame r (f r) :=
    ⟨rfl, rfl, rfl, rfl, fun _ => hchannel, fun payload' hsent => by
      rw [hchannel] at hsent
      cases hsent⟩
  have hconsistent : Consistent (f r) := by
    refine ⟨fun response hresponse => ?_, fun payload' hsent => ?_⟩
    · cases hresponse
    · cases hsent
      exact ⟨rfl, sentFeedback, hanswer⟩
  have hdue : due (f r) = sentFeedback := by
    show r.answer.bind (·.sentFeedback) = sentFeedback
    rw [hanswer]
    rfl
  unfold InboundBehaviour.sendResponse
  rw [hchannel]
  cases sentFeedback with
  | none => exact books_modify h hr hframe hconsistent (hdue.trans hnone.symm)
  | some feedback =>
      -- the feedback of this request is due now, and no other is new
      have hdues : ∀ e, e ∈ dues (b.modifyRequest i f) ↔
          e ∈ dues b ∨ e = (r.key, feedback) := by
        rintro ⟨key, feedback'⟩
        rw [mem_dues, mem_dues]
        have hnot : ¬ (r.key = key ∧ due r = some feedback') := by
          rintro ⟨-, hdue'⟩
          rw [hnone] at hdue'
          cases hdue'
        refine (exists_mem_modify_of_not hr hnot).trans (or_congr_right ?_)
        rw [hdue]
        constructor
        · rintro ⟨rfl, hfeedback⟩
          cases hfeedback
          rfl
        · intro heq
          cases heq
          exact ⟨rfl, rfl⟩
      refine books_change h hr hframe hconsistent (h.feedback.insert ?_ hopen hdues) ?_
      · intro feedback' hmem'
        obtain ⟨r', hr', hkey, hdue'⟩ := mem_dues.mp hmem'
        cases eq_of_key h hr' hmem hkey
        rw [hnone] at hdue'
        cases hdue'
      · intro key feedback' hended
        rw [hdues]
        refine or_iff_left fun heq => hopen ?_
        cases heq
        exact hended

/-- The future of a request is through, and its answer goes to libp2p. -/
theorem books_sendResponse (h : Books b) (hr : b.requests[i]? = some r) {payload : ByteVec}
    {sentFeedback : Option Nat} (hrx : r.rx = .sent ⟨.ok payload, sentFeedback⟩) :
    Books (b.sendResponse i r payload sentFeedback) := by
  have hne : r.rx ≠ .closed := by
    rw [hrx]
    exact fun h => by cases h
  cases hchannel : r.channel.isWaiting with
  | true =>
      refine books_sent h hr hrx ?_
      cases hr' : r.channel <;> rw [hr'] at hchannel <;> cases hchannel
  | false =>
      -- libp2p has dropped its end, and the response is dropped
      unfold InboundBehaviour.sendResponse
      rw [hchannel]
      refine books_modify h hr ⟨rfl, rfl, rfl, rfl, id, fun _ => id⟩ ⟨?_, ?_⟩ rfl
      · intro response hresponse
        cases hresponse
      · intro payload' hsent
        exact absurd hsent (not_sent h hr hne payload')

/-- The future of a request is through without a response. -/
theorem books_omitResponse (h : Books b) (hr : b.requests[i]? = some r) (hrx : r.rx ≠ .closed) :
    Books (b.omitResponse i) := by
  have hcancel : ∀ payload, r.channel.cancel ≠ .sent payload := by
    intro payload hsent
    refine not_sent h hr hrx payload ?_
    cases hchannel : r.channel <;> rw [hchannel] at hsent <;> cases hsent
    rfl
  have hdue : due { r with rx := .closed, channel := r.channel.cancel } = due r :=
    (due_of_ne hcancel).trans (due_of_ne (not_sent h hr hrx)).symm
  refine books_modify h hr ⟨rfl, rfl, rfl, rfl, fun hw => ?_, fun payload hsent => ?_⟩ ⟨?_, ?_⟩ hdue
  · cases hchannel : r.channel <;> rw [hchannel] at hw <;> cases hw
  · exact absurd hsent (not_sent h hr hrx payload)
  · intro response hresponse
    cases hresponse
  · intro payload hsent
    exact absurd hsent (hcancel payload)

/-- What a future that is ready does. -/
theorem pollResponse_cases (h : b.pollResponse i = some b') :
    ∃ r, b.requests[i]? = some r ∧
      ((∃ payload sentFeedback, r.rx = .sent ⟨.ok payload, sentFeedback⟩ ∧
          b' = b.sendResponse i r payload sentFeedback) ∨
        (r.rx ≠ .closed ∧ r.rx ≠ .waiting ∧ b' = b.omitResponse i)) := by
  unfold InboundBehaviour.pollResponse at h
  cases hr : b.requests[i]? with
  | none =>
      rw [hr] at h
      cases h
  | some r =>
      refine ⟨r, rfl, ?_⟩
      rw [hr] at h
      simp only at h
      split at h
      next payload sentFeedback hrx =>
          split at h
          · cases h
            exact .inl ⟨payload, sentFeedback, hrx, rfl⟩
          · cases h
            refine .inr ⟨?_, ?_, rfl⟩ <;> rw [hrx] <;> exact fun h => by cases h
      next sentFeedback hrx =>
          cases h
          refine .inr ⟨?_, ?_, rfl⟩ <;> rw [hrx] <;> exact fun h => by cases h
      next hrx =>
          cases h
          refine .inr ⟨?_, ?_, rfl⟩ <;> rw [hrx] <;> exact fun h => by cases h
      next => cases h
      next => cases h

theorem books_pollResponse (h : Books b) (hpoll : b.pollResponse i = some b') : Books b' := by
  obtain ⟨r, hr, ⟨payload, sentFeedback, hrx, rfl⟩ | ⟨hrx, -, rfl⟩⟩ := pollResponse_cases hpoll
  · exact books_sendResponse h hr hrx
  · exact books_omitResponse h hr hrx

/-- The handler can answer or drop the request. -/
theorem getElem?_of_holdsHandle (h : b.holdsHandle i = true) :
    (∃ m ∈ b.handled, m.pendingResponse = i) ∧
      ∃ r, b.requests[i]? = some r ∧ r.rx = .waiting := by
  obtain ⟨hhandled, hrequest⟩ := Bool.and_eq_true_iff.mp h
  obtain ⟨m, hm, hi⟩ := List.any_eq_true.mp hhandled
  refine ⟨⟨m, hm, of_decide_eq_true hi⟩, ?_⟩
  cases hr : b.requests[i]? with
  | none =>
      rw [hr] at hrequest
      cases hrequest
  | some r =>
      rw [hr] at hrequest
      refine ⟨r, rfl, ?_⟩
      cases hrx : r.rx <;> simp [hrx, Oneshot.isWaiting] at hrequest
      rfl

/-- An answer fills the channel of a request, once. -/
theorem books_answer (h : Books b) {response : BuiltResponse}
    (hstep : b.answer i response = some b') : Books b' := by
  obtain ⟨hholds, heq⟩ := Option.ite_none_right_eq_some.mp hstep
  cases heq
  obtain ⟨-, r, hr, hrx⟩ := getElem?_of_holdsHandle hholds
  have hnot : ∀ payload, r.channel ≠ .sent payload := not_sent h hr (by
    rw [hrx]
    exact fun h => by cases h)
  have hdue : due { r with rx := .sent response, answer := some response } = due r := by
    rw [due_of_ne (r := r) hnot]
    exact due_of_ne hnot
  refine books_modify h hr ⟨rfl, rfl, rfl, rfl, id, fun _ => id⟩ ⟨?_, ?_⟩ hdue
  · intro response' hresponse
    cases hresponse
    rfl
  · intro payload hsent
    exact absurd hsent (hnot payload)

/-- A handle that is dropped leaves the request without an answer. -/
theorem books_dropHandle (h : Books b) (hstep : b.dropHandle i = some b') : Books b' := by
  obtain ⟨hholds, heq⟩ := Option.ite_none_right_eq_some.mp hstep
  cases heq
  obtain ⟨-, r, hr, hrx⟩ := getElem?_of_holdsHandle hholds
  have hnot : ∀ payload, r.channel ≠ .sent payload := not_sent h hr (by
    rw [hrx]
    exact fun h => by cases h)
  refine books_modify h hr ⟨rfl, rfl, rfl, rfl, id, fun _ => id⟩ ⟨?_, ?_⟩ rfl
  · intro response hresponse
    cases hresponse
  · intro payload hsent
    exact absurd hsent (hnot payload)

/-- A channel that closes gives its feedback up. -/
theorem books_closeChannel (h : Books b) (i : Nat) : Books (b.closeChannel i) := by
  unfold InboundBehaviour.closeChannel
  cases hr : b.requests[i]? with
  | none =>
      rw [modifyRequest_of_none hr]
      exact h
  | some r =>
      have hrecord := h.consistent r (List.mem_of_getElem? hr)
      have hdue : due
          { r with channel := if r.channel.isWaiting then .closed else r.channel } = due r := by
        cases hchannel : r.channel <;> simp [due, hchannel, Oneshot.isWaiting]
      refine books_modify h hr ⟨rfl, rfl, rfl, rfl, fun hw => ?_, fun payload hsent => ?_⟩
        ⟨hrecord.answered, fun payload hsent => hrecord.sent payload ?_⟩ hdue
      · cases hchannel : r.channel <;> simp [hchannel, Oneshot.isWaiting] at hw
      · simp [hsent, Oneshot.isWaiting]
      · cases hchannel : r.channel <;> simp [hchannel, Oneshot.isWaiting] at hsent
        rw [hsent]

end Change

/-- A step of a handler that leaves the requests alone. -/
theorem books_takeRequest (h : Books b) {protocol : ProtocolName}
    (hstep : b.takeRequest protocol = some b') : Books b' := by
  unfold InboundBehaviour.takeRequest at hstep
  split at hstep
  · split at hstep
    · cases hstep
      exact { h with }
    · cases hstep
  · cases hstep

theorem books_closeQueue (h : Books b) {protocol : ProtocolName}
    (hstep : b.closeQueue protocol = some b') : Books b' := by
  unfold InboundBehaviour.closeQueue at hstep
  split at hstep
  · cases hstep
    exact { h with }
  · cases hstep

/-! ### Arrivals and reports -/

/-- A request arrives under a new id. -/
theorem books_arrives (h : Books b) (hfresh : b.requestOf r.key = none) (hopen : ¬ Ended b r.key)
    (hrx : ∀ response, r.rx ≠ .sent response) (hchannel : ∀ payload, r.channel ≠ .sent payload)
    (hrequests : b'.requests = b.requests ++ [r])
    (harrival : b'.arrivalTime = b.arrivalTime.insert r.key r.arrivedAt)
    (hfeedback : b'.sendFeedback = b.sendFeedback) (hnotified : b'.notified = b.notified)
    (hreports : b'.reports = b.reports) : Books b' := by
  have hended : Ended b' = Ended b := by
    funext key
    unfold Ended
    rw [hreports]
  have hmem : ∀ r', r' ∈ b'.requests ↔ r' ∈ b.requests ∨ r' = r := by
    intro r'
    rw [hrequests, List.mem_append, List.mem_singleton]
  -- no response was sent, so no feedback is due
  have hdues : dues b' = dues b := by
    unfold dues
    rw [hrequests, List.filterMap_append, List.filterMap_cons, due_of_ne hchannel]
    exact List.append_nil _
  exact
    { keys := by
        rw [hrequests, List.map_append]
        refine List.Nodup.append h.keys (List.nodup_singleton _) ?_
        intro key hkey hkey'
        obtain ⟨r', hr', rfl⟩ := List.mem_map.mp hkey
        exact ne_of_requestOf hfresh hr' (List.mem_singleton.mp hkey')
      consistent := by
        intro r' hr'
        rcases (hmem r').mp hr' with hr' | rfl
        · exact h.consistent r' hr'
        · exact ⟨fun response heq => absurd heq (hrx response),
            fun payload heq => absurd heq (hchannel payload)⟩
      live := by
        intro r' hr' hwaiting
        rw [hended]
        rcases (hmem r').mp hr' with hr' | rfl
        · exact h.live r' hr' hwaiting
        · exact hopen
      arrival := by
        rw [harrival, hended]
        refine h.arrival.insert ?_ hopen fun e => ?_
        · intro arrivedAt harrived
          obtain ⟨r', hr', heq⟩ := List.mem_map.mp harrived
          exact ne_of_requestOf hfresh hr' (Prod.mk.inj heq).1
        · unfold arrivals
          rw [hrequests, List.map_append, List.mem_append]
          exact or_congr_right List.mem_singleton
      feedback := by
        rw [hfeedback, hended, hdues]
        exact h.feedback
      once := by
        rw [hreports]
        exact h.once
      peers := by
        intro report hreport r' hr' hkey
        rw [hreports] at hreport
        rcases (hmem r').mp hr' with hr' | rfl
        · exact h.peers report hreport r' hr' hkey
        · exact absurd ⟨report, hreport, hkey.symm⟩ hopen
      success := by
        intro report hreport duration hresult
        rw [hreports] at hreport
        obtain ⟨r', hr', hsent⟩ := h.success report hreport duration hresult
        exact ⟨r', (hmem r').mpr (.inl hr'), hsent⟩
      notified := by
        intro feedback
        rw [hnotified, hreports, hdues]
        exact h.notified feedback }

/-- libp2p reports the end of a request. -/
theorem books_reports (h : Books b) {peer : P} {key : ProtocolRequestId}
    {result : Except InboundFailure Nat} {notified : List Nat} (hopen : ¬ Ended b key)
    (hpeer : ∀ r ∈ b.requests, r.key = key → r.peer = peer ∧ r.channel ≠ .waiting)
    (hsuccess : ∀ duration, result = .ok duration →
      ∃ r ∈ b.requests, r.key = key ∧ ∃ payload, r.channel = .sent payload)
    (hnotified : ∀ feedback, feedback ∈ notified ↔
      feedback ∈ b.notified ∨ (key, feedback) ∈ dues b ∧ ∃ duration, result = .ok duration) :
    Books
      { b with
          arrivalTime := b.arrivalTime.erase key
          sendFeedback := b.sendFeedback.erase key
          notified := notified
          reports := b.reports ++ [{ peer := peer, key := key, result := result }] } := by
  let report : InboundReport P := { peer := peer, key := key, result := result }
  have hmem : ∀ report',
      report' ∈ b.reports ++ [report] ↔ report' ∈ b.reports ∨ report' = report := by
    intro report'
    rw [List.mem_append, List.mem_singleton]
  -- the report ends the exchange of its key, and no other
  have hended : ∀ key', (∃ report' ∈ b.reports ++ [report], report'.key = key') ↔
      Ended b key' ∨ key' = key := by
    intro key'
    constructor
    · rintro ⟨report', hreport, hkey⟩
      rcases (hmem report').mp hreport with hreport | rfl
      · exact .inl ⟨report', hreport, hkey⟩
      · exact .inr hkey.symm
    · rintro (⟨report', hreport, hkey⟩ | rfl)
      · exact ⟨report', (hmem report').mpr (.inl hreport), hkey⟩
      · exact ⟨report, (hmem report).mpr (.inr rfl), rfl⟩
  exact
    { keys := h.keys
      consistent := h.consistent
      live := by
        intro r hr hwaiting hend
        rcases (hended r.key).mp hend with hend | hkey
        · exact h.live r hr hwaiting hend
        · exact (hpeer r hr hkey).2 hwaiting
      arrival := h.arrival.erase hended
      feedback := h.feedback.erase hended
      once := by
        show ((b.reports ++ [report]).map (·.key)).Nodup
        rw [List.map_append]
        refine List.Nodup.append h.once (List.nodup_singleton _) ?_
        intro key' hkey hkey'
        obtain ⟨report', hreport, rfl⟩ := List.mem_map.mp hkey
        exact hopen ⟨report', hreport, List.mem_singleton.mp hkey'⟩
      peers := by
        intro report' hreport r hr hkey
        rcases (hmem report').mp hreport with hreport | rfl
        · exact h.peers report' hreport r hr hkey
        · exact (hpeer r hr hkey).1
      success := by
        intro report' hreport duration hresult
        rcases (hmem report').mp hreport with hreport | rfl
        · exact h.success report' hreport duration hresult
        · exact hsuccess duration hresult
      notified := by
        intro feedback
        refine (hnotified feedback).trans ?_
        rw [h.notified]
        constructor
        · rintro (⟨key', hdue, report', hreport, hrest⟩ | ⟨hdue, hok⟩)
          · exact ⟨key', hdue, report', (hmem report').mpr (.inl hreport), hrest⟩
          · exact ⟨key, hdue, report, (hmem report).mpr (.inr rfl), rfl, hok⟩
        · rintro ⟨key', hdue, report', hreport, hkey, hok⟩
          rcases (hmem report').mp hreport with hreport | rfl
          · exact .inl ⟨key', hdue, report', hreport, hkey, hok⟩
          · subst hkey
            exact .inr ⟨hdue, hok⟩ }

section Promised

variable [DecidableEq P]

/-- The arrival time is there when libp2p reports that a response was
sent. -/
theorem books_onResponseSent (h : Books b) {now : Nat} {peer : P} {key : ProtocolRequestId}
    (hpromised : b.contract (.responseSent now peer key) = true) :
    ∃ b', b.onResponseSent now peer key = some b' ∧ Books b' := by
  obtain ⟨hover, hrequest⟩ := Bool.and_eq_true_iff.mp hpromised
  have hopen : ¬ Ended b key := not_ended_of_isOver (by simpa using hover)
  obtain ⟨r, hr, hsent⟩ := (Option.any_eq_true _ _).mp hrequest
  obtain ⟨hmem, rfl⟩ := mem_of_requestOf hr
  obtain ⟨hpeer, hsent⟩ := Bool.and_eq_true_iff.mp hsent
  have hpeer : r.peer = peer := of_decide_eq_true hpeer
  obtain ⟨payload, hpayload⟩ : ∃ payload, r.channel = .sent payload := by
    cases hchannel : r.channel with
    | sent payload => exact ⟨payload, rfl⟩
    | _ => simp [hchannel, InboundBehaviour.isSent] at hsent
  have harrival : b.arrivalTime.lookup r.key = some r.arrivedAt :=
    (h.arrival _ _).mpr ⟨List.mem_map.mpr ⟨r, hmem, rfl⟩, hopen⟩
  refine ⟨_, by rw [InboundBehaviour.onResponseSent, harrival]; rfl, ?_⟩
  refine books_reports h hopen ?_ (fun _ _ => ⟨r, hmem, rfl, payload, hpayload⟩) ?_
  · intro r' hr' hkey
    cases eq_of_key h hr' hmem hkey
    refine ⟨hpeer, ?_⟩
    rw [hpayload]
    exact fun h => by cases h
  · intro feedback
    rw [List.mem_append, Option.mem_toList, h.feedback]
    refine or_congr_right ?_
    constructor
    · rintro ⟨hdue, -⟩
      exact ⟨hdue, _, rfl⟩
    · rintro ⟨hdue, -⟩
      exact ⟨hdue, hopen⟩

/-- A failure ends the exchange. -/
theorem books_onInboundFailure (h : Books b) {peer : P} {key : ProtocolRequestId}
    {error : InboundFailure} (hpromised : b.contract (.inboundFailure peer key error) = true) :
    Books (b.onInboundFailure peer key error) := by
  obtain ⟨hover, hrequest⟩ := Bool.and_eq_true_iff.mp hpromised
  refine books_reports h (not_ended_of_isOver (by simpa using hover)) ?_ ?_ ?_
  · intro r hr hkey
    subst hkey
    rw [requestOf_of_mem h hr] at hrequest
    obtain ⟨hpeer, hclosed⟩ := Bool.and_eq_true_iff.mp hrequest
    refine ⟨of_decide_eq_true hpeer, fun hwaiting => ?_⟩
    rw [hwaiting] at hclosed
    cases hclosed
  · intro duration hresult
    cases hresult
  · intro feedback
    refine (or_iff_left ?_).symm
    rintro ⟨-, duration, hresult⟩
    cases hresult

end Promised

end Inbound

end FrostMpcTss.Proofs
