import FrostMpcTss.Proofs.OutboundLedger

/-!
# `FrostMpcTss.Proofs.OneResult`: one result for every target

`oneResultPerTarget` is the main fact. After any sequence of calls,
libp2p events and periodic checks, a pending request has no result and
every other request has exactly one. The response channel has received
at most that one, labelled with the target if it is a success, and it
has received nothing else.

So a broadcast puts at most one result per target into its channel. Once
none of its requests is pending, as many results have been produced as
it has targets. They are all in the channel when the bridges have run
(`pollBridges`), as long as the receiver is there: each target has its
own clone of the handle, so a full buffer refuses none of them.

The echo round makes a channel for each broadcast and reads `n - 1`
results from it. `Answered.ownChannel` is the statement for a channel
that only the requests of one broadcast were given.
-/

set_option autoImplicit false

namespace FrostMpcTss.Proofs

open Lib Network

namespace Outbound

variable {P : Type} {t : Bridge P} {m : Multicast P} {b' : RequestResponsesBehaviour P}

/-- No request of the broadcast is in `pending_requests`. -/
def NonePending (b : RequestResponsesBehaviour P) (m : Multicast P) : Prop :=
  ∀ tx, m.first ≤ tx → tx < m.first + m.targets.length → b.isPending tx = false

/-- Only the requests of the broadcast have a handle on the channel. -/
def OwnChannel (b : RequestResponsesBehaviour P) (m : Multicast P) (c : Nat) : Prop :=
  ∀ tx t, b.bridges[tx]? = some t → t.isOn c = true →
    m.first ≤ tx ∧ tx < m.first + m.targets.length

/-- The results of a broadcast. -/
structure Answered (b : RequestResponsesBehaviour P) (m : Multicast P) : Prop where
  /-- There is one request for each target. -/
  targets : (b.requestsOf m).map (·.target) = m.targets
  atMost : ((b.requestsOf m).flatMap Bridge.received).length ≤ m.targets.length
  produced : NonePending b m →
    ((b.requestsOf m).flatMap Bridge.produced).length = m.targets.length
  /-- The channel gets them all, as soon as the bridges have run. -/
  received : NonePending b m → ∀ s, m.pendingResponse = some s →
    (b.channels s.channel).receiverAlive = true →
    ((b.pollBridges.requestsOf m).flatMap Bridge.received).length = m.targets.length
  /-- A channel of its own has these results and no others. -/
  ownChannel : ∀ s, m.pendingResponse = some s → OwnChannel b m s.channel →
    (b.channels s.channel).arrived.length ≤ m.targets.length ∧
      (NonePending b m → (b.channels s.channel).receiverAlive = true →
        (b.pollBridges.channels s.channel).arrived.length = m.targets.length)

/-- One result for every target. -/
structure OneResultPerTarget (b : RequestResponsesBehaviour P) : Prop where
  atMostOne : ∀ t ∈ b.bridges, t.received.length ≤ 1
  labelled : ∀ t ∈ b.bridges, ∀ peer payload,
    Except.ok (peer, payload) ∈ t.produced → peer = t.target
  exactlyOne : ∀ tx t, b.bridges[tx]? = some t →
    t.produced.length = if b.isPending tx then 0 else 1
  /-- The channels have received what the requests have sent. -/
  channels : ∀ c, (b.channels c).arrived.Perm (receivedOn b c)
  multicasts : ∀ m ∈ b.multicasts, Answered b m

variable {b : RequestResponsesBehaviour P}

/-! ### One request -/

/-- A request is in `pending_requests` exactly as long as its one-shot
waits. -/
theorem isPending_iff_waiting (h : Bookkeeping b) (tx : Nat) :
    b.isPending tx = true ↔ Waiting b tx := by
  have hholds : b.isPending tx = true ↔ ∃ key, Holds b key tx := by
    unfold RequestResponsesBehaviour.isPending Holds
    simp only [List.any_eq_true, decide_eq_true_eq]
    constructor
    · rintro ⟨⟨key, request⟩, hentry, htx⟩
      exact ⟨key, request, AList.mem_lookup_iff.mpr hentry, htx⟩
    · rintro ⟨key, request, hlookup, htx⟩
      exact ⟨⟨key, request⟩, AList.mem_lookup_iff.mp hlookup, htx⟩
  rw [hholds]
  exact ⟨fun ⟨_, hkey⟩ => h.matching.isOpen_of_leads hkey, h.matching.exists_key⟩

/-- At most one reply has arrived. -/
theorem received_length_le {channels : Nat → Mpsc (Reply P)} (h : Accounted channels t) :
    t.received.length ≤ 1 := by
  have hoffers : t.offers.length ≤ 1 := by
    rw [h.offers]
    cases t.rx <;> simp [offersDue]
  exact (List.length_filterMap_le _ _).trans hoffers

/-- One result when the request is not pending, none before. -/
theorem produced_length (h : Bookkeeping b) {tx : Nat} (ht : b.bridges[tx]? = some t) :
    t.produced.length = if b.isPending tx then 0 else 1 := by
  have hoffers := (h.accounted t (List.mem_of_getElem? ht)).offers
  have hpending : b.isPending tx = true ↔ t.rx = .waiting := by
    rw [isPending_iff_waiting h]
    constructor
    · rintro ⟨x, hx, hwaiting⟩
      cases ht.symm.trans hx
      exact hwaiting
    · exact fun hwaiting => ⟨t, ht, hwaiting⟩
  simp only [hpending]
  unfold Bridge.produced
  cases hrx : t.rx with
  | waiting => simpa [hrx, offersDue] using hoffers
  | sent result => simpa [hrx, offersDue] using hoffers
  | canceled => simpa [hrx, offersDue] using hoffers
  | closed => simpa [hrx, offersDue] using hoffers

/-- A result names the target. -/
theorem peer_of_produced {channels : Nat → Mpsc (Reply P)} (h : Accounted channels t) {peer : P}
    {payload : Bytes} (hmem : Except.ok (peer, payload) ∈ t.produced) : peer = t.target := by
  unfold Bridge.produced at hmem
  rcases List.mem_append.mp hmem with hmem | hmem
  · obtain ⟨o, ho, heq⟩ := List.mem_map.mp hmem
    exact h.labelled o ho peer payload heq
  · split at hmem
    next result hrx =>
        have heq := List.mem_singleton.mp hmem
        cases result with
        | ok value => cases heq; rfl
        | error e => cases heq
    next => cases hmem

/-! ### The requests of a broadcast -/

/-- The requests of a broadcast go to its targets, in order. -/
theorem map_requestsOf (h : Placed b m) :
    ((b.requestsOf m).map fun t => (t.target, t.pendingResponse)) =
      m.targets.map fun p => (p, m.pendingResponse.map Sender.clone) := by
  obtain ⟨before, after, heq, hfirst⟩ := h
  have hslice : ((b.requestsOf m).map fun t => (t.target, t.pendingResponse)) =
      ((sentAs b).drop m.first).take m.targets.length := by
    unfold RequestResponsesBehaviour.requestsOf sentAs
    rw [List.map_take, List.map_drop]
  rw [hslice, heq, ← hfirst, List.append_assoc, List.drop_left]
  exact List.take_left' (List.length_map _)

theorem length_requestsOf (h : Placed b m) : (b.requestsOf m).length = m.targets.length := by
  have hlength := congrArg List.length (map_requestsOf h)
  rwa [List.length_map, List.length_map] at hlength

theorem pendingResponse_of_mem (h : Placed b m) (ht : t ∈ b.requestsOf m) :
    t.pendingResponse = m.pendingResponse.map Sender.clone := by
  have hmem := List.mem_map_of_mem (f := fun t : Bridge P => (t.target, t.pendingResponse)) ht
  rw [map_requestsOf h] at hmem
  obtain ⟨p, -, hp⟩ := List.mem_map.mp hmem
  exact (congrArg Prod.snd hp).symm

/-- Where a request of the broadcast stands in the list. -/
theorem exists_of_mem_requestsOf (ht : t ∈ b.requestsOf m) :
    ∃ tx, m.first ≤ tx ∧ tx < m.first + m.targets.length ∧ b.bridges[tx]? = some t := by
  obtain ⟨i, hi⟩ := List.mem_iff_getElem?.mp ht
  unfold RequestResponsesBehaviour.requestsOf at hi
  rw [List.getElem?_take] at hi
  split at hi
  next hlt =>
      rw [List.getElem?_drop] at hi
      exact ⟨m.first + i, Nat.le_add_right _ _, Nat.add_lt_add_left hlt _, hi⟩
  next => cases hi

theorem length_flatMap_requestsOf_le (h : Placed b m) {f : Bridge P → List (Reply P)}
    (hf : ∀ t ∈ b.requestsOf m, (f t).length ≤ 1) :
    ((b.requestsOf m).flatMap f).length ≤ m.targets.length := by
  rw [List.length_flatMap, ← length_requestsOf h]
  refine (List.sum_le_card_nsmul _ 1 ?_).trans (by simp)
  intro k hk
  obtain ⟨t, ht, rfl⟩ := List.mem_map.mp hk
  exact hf t ht

theorem length_flatMap_requestsOf (h : Placed b m) {f : Bridge P → List (Reply P)}
    (hf : ∀ t ∈ b.requestsOf m, (f t).length = 1) :
    ((b.requestsOf m).flatMap f).length = m.targets.length := by
  rw [List.length_flatMap, ← length_requestsOf h]
  refine (List.sum_eq_card_nsmul _ 1 ?_).trans (by simp)
  intro k hk
  obtain ⟨t, ht, rfl⟩ := List.mem_map.mp hk
  exact hf t ht

/-- In a channel of its own there are the results of the broadcast only. -/
theorem receivedOn_ownChannel {s : Sender} (h : Placed b m) (hs : m.pendingResponse = some s)
    (hown : OwnChannel b m s.channel) :
    receivedOn b s.channel = (b.requestsOf m).flatMap Bridge.received := by
  have hsplit : b.bridges = b.bridges.take m.first ++
      (b.requestsOf m ++ b.bridges.drop (m.first + m.targets.length)) := by
    unfold RequestResponsesBehaviour.requestsOf
    rw [← List.drop_drop, List.take_append_drop, List.take_append_drop]
  -- a request outside the broadcast is on some other channel
  have houtside : ∀ (l : List (Bridge P)),
      (∀ t ∈ l, ∃ tx, b.bridges[tx]? = some t ∧
        ¬ (m.first ≤ tx ∧ tx < m.first + m.targets.length)) →
      l.flatMap (contribution s.channel) = [] := by
    intro l hl
    rw [List.flatMap_eq_nil_iff]
    intro t ht
    obtain ⟨tx, htx, hout⟩ := hl t ht
    unfold contribution
    exact if_neg fun hon => hout (hown tx t htx hon)
  have hbefore := houtside (b.bridges.take m.first) (by
    intro t ht
    obtain ⟨i, hi⟩ := List.mem_iff_getElem?.mp ht
    rw [List.getElem?_take] at hi
    split at hi
    next hlt => exact ⟨i, hi, fun hin => absurd hin.1 (by omega)⟩
    next => cases hi)
  have hafter := houtside (b.bridges.drop (m.first + m.targets.length)) (by
    intro t ht
    obtain ⟨i, hi⟩ := List.mem_iff_getElem?.mp ht
    rw [List.getElem?_drop] at hi
    exact ⟨_, hi, fun hin => absurd hin.2 (by omega)⟩)
  have hinside : (b.requestsOf m).flatMap (contribution s.channel) =
      (b.requestsOf m).flatMap Bridge.received := by
    refine List.flatMap_congr fun t ht => if_pos ?_
    unfold Bridge.isOn
    rw [pendingResponse_of_mem h ht, hs]
    simp [Sender.clone]
  calc receivedOn b s.channel
      = (b.bridges.take m.first).flatMap (contribution s.channel) ++
          ((b.requestsOf m).flatMap (contribution s.channel) ++
            (b.bridges.drop (m.first + m.targets.length)).flatMap (contribution s.channel)) := by
        unfold receivedOn
        rw [← List.flatMap_append, ← List.flatMap_append, ← hsplit]
    _ = (b.requestsOf m).flatMap Bridge.received := by
        rw [hbefore, hafter, hinside, List.append_nil, List.nil_append]

/-! ### Running the bridges -/

/-- What polling bridges leaves alone. -/
structure SamePending (b b' : RequestResponsesBehaviour P) : Prop where
  pendingRequests : b'.pendingRequests = b.pendingRequests
  multicasts : b'.multicasts = b.multicasts
  sentAs : sentAs b' = sentAs b
  receiverAlive : ∀ c, (b'.channels c).receiverAlive = (b.channels c).receiverAlive

theorem SamePending.refl (b : RequestResponsesBehaviour P) : SamePending b b :=
  ⟨rfl, rfl, rfl, fun _ => rfl⟩

theorem SamePending.trans {b₁ b₂ b₃ : RequestResponsesBehaviour P} (h : SamePending b₁ b₂)
    (h' : SamePending b₂ b₃) : SamePending b₁ b₃ where
  pendingRequests := h'.pendingRequests.trans h.pendingRequests
  multicasts := h'.multicasts.trans h.multicasts
  sentAs := h'.sentAs.trans h.sentAs
  receiverAlive c := (h'.receiverAlive c).trans (h.receiverAlive c)

/-- A bridge that is polled makes no request pending. -/
theorem samePending_pollBridge {tx : Nat} (hpoll : b.pollBridge tx = some b') :
    SamePending b b' := by
  unfold RequestResponsesBehaviour.pollBridge at hpoll
  split at hpoll
  next => cases hpoll
  next t ht =>
      split at hpoll
      next result hrx =>
          cases hpoll
          refine ⟨rfl, rfl, ?_, receiverAlive_trySendOn _ _ _⟩
          show ((b.bridges.modify tx _).modify tx _).map _ = _
          rw [List.modify_modify_eq]
          apply map_modify_of_eq
          exact fun _ => rfl
      next hrx =>
          cases hpoll
          refine ⟨rfl, rfl, ?_, fun _ => rfl⟩
          apply map_modify_of_eq
          exact fun _ => rfl
      next => cases hpoll
      next => cases hpoll

/-- The executor runs one bridge, if there is something for it. -/
def pollOnce (b : RequestResponsesBehaviour P) (tx : Nat) : RequestResponsesBehaviour P :=
  (b.pollBridge tx).getD b

/-- A bridge that has run has an empty one-shot, and no other one-shot
has changed. -/
theorem sent_of_pollOnce {tx i : Nat} {result : RequestResult}
    (ht : (pollOnce b tx).bridges[i]? = some t) (hrx : t.rx = .sent result) :
    i ≠ tx ∧ ∃ t₀, b.bridges[i]? = some t₀ ∧ t₀.rx = .sent result := by
  unfold pollOnce at ht
  cases hpoll : b.pollBridge tx with
  | none =>
      rw [hpoll] at ht
      refine ⟨?_, t, ht, hrx⟩
      rintro rfl
      -- its one-shot holds a value, so the bridge was not idle
      have hsome : (b.pollBridge i).isSome = true := by
        simp [RequestResponsesBehaviour.pollBridge, show b.bridges[i]? = some t from ht, hrx]
      rw [hpoll] at hsome
      cases hsome
  | some b' =>
      rw [hpoll] at ht
      obtain ⟨f, hf, hclosed⟩ : ∃ f : Bridge P → Bridge P, b'.bridges = b.bridges.modify tx f ∧
          ∀ x, (f x).rx = .closed := by
        unfold RequestResponsesBehaviour.pollBridge at hpoll
        split at hpoll
        next => cases hpoll
        next =>
            split at hpoll
            next =>
                cases hpoll
                exact ⟨_, List.modify_modify_eq .., fun _ => rfl⟩
            next =>
                cases hpoll
                exact ⟨_, rfl, fun _ => rfl⟩
            next => cases hpoll
            next => cases hpoll
      have ht' : b'.bridges[i]? = some t := ht
      rw [hf, List.getElem?_modify] at ht'
      obtain ⟨t₀, ht₀, rfl⟩ := Option.map_eq_some_iff.mp ht'
      by_cases hi : tx = i
      · rw [if_pos hi, hclosed] at hrx
        cases hrx
      · rw [if_neg hi] at hrx
        exact ⟨Ne.symm hi, t₀, ht₀, hrx⟩

/-- After every bridge was polled none has a result left to relay. -/
theorem foldl_pollOnce (l : List Nat) :
    ∀ b : RequestResponsesBehaviour P, Bookkeeping b →
      Bookkeeping (l.foldl pollOnce b) ∧ SamePending b (l.foldl pollOnce b) ∧
        ∀ i t result, (l.foldl pollOnce b).bridges[i]? = some t → t.rx = .sent result →
          i ∉ l ∧ ∃ t₀, b.bridges[i]? = some t₀ ∧ t₀.rx = .sent result := by
  induction l with
  | nil =>
      intro b h
      exact ⟨h, .refl b, fun i t result ht hrx => ⟨List.not_mem_nil, t, ht, hrx⟩⟩
  | cons tx l ih =>
      intro b h
      have hone : Bookkeeping (pollOnce b tx) ∧ SamePending b (pollOnce b tx) := by
        unfold pollOnce
        cases hpoll : b.pollBridge tx with
        | none => exact ⟨h, .refl b⟩
        | some b' => exact ⟨bookkeeping_pollBridge h hpoll, samePending_pollBridge hpoll⟩
      obtain ⟨hbook, hsame, hsent⟩ := ih (pollOnce b tx) hone.1
      refine ⟨hbook, hone.2.trans hsame, fun i t result ht hrx => ?_⟩
      obtain ⟨hi, t₁, ht₁, hrx₁⟩ := hsent i t result ht hrx
      obtain ⟨hne, t₀, ht₀, hrx₀⟩ := sent_of_pollOnce ht₁ hrx₁
      exact ⟨fun hmem => (List.mem_cons.mp hmem).elim hne hi, t₀, ht₀, hrx₀⟩

/-- After all bridges have run, no one-shot holds a result. -/
theorem pollBridges_spec (h : Bookkeeping b) :
    Bookkeeping b.pollBridges ∧ SamePending b b.pollBridges ∧
      ∀ t ∈ b.pollBridges.bridges, ∀ result, t.rx ≠ .sent result := by
  obtain ⟨hbook, hsame, hsent⟩ := foldl_pollOnce (List.range b.bridges.length) b h
  refine ⟨hbook, hsame, fun t ht result hrx => ?_⟩
  obtain ⟨i, hi⟩ := List.mem_iff_getElem?.mp ht
  obtain ⟨hnot, t₀, ht₀, -⟩ := hsent i t result hi hrx
  exact hnot (List.mem_range.mpr (List.getElem?_eq_some_iff.mp ht₀).1)

theorem SamePending.isPending (h : SamePending b b') (tx : Nat) :
    b'.isPending tx = b.isPending tx := by
  unfold RequestResponsesBehaviour.isPending
  rw [h.pendingRequests]

theorem SamePending.ownChannel (h : SamePending b b') {c : Nat} (hown : OwnChannel b m c) :
    OwnChannel b' m c := by
  intro tx t ht hon
  have hsent : (Outbound.sentAs b')[tx]? = some (t.target, t.pendingResponse) := by
    unfold Outbound.sentAs
    rw [List.getElem?_map, ht]
    rfl
  rw [h.sentAs] at hsent
  obtain ⟨t₀, ht₀, heq⟩ := Option.map_eq_some_iff.mp (List.getElem?_map ▸ hsent)
  have hsame : t₀.pendingResponse = t.pendingResponse := congrArg Prod.snd heq
  refine hown tx t₀ ht₀ ?_
  unfold Bridge.isOn
  rw [hsame]
  exact hon

/-- Running the bridges is a run of the system. -/
theorem reach_pollBridges {b₀ : RequestResponsesBehaviour P}
    (h : Reach RequestResponsesBehaviour.step Always b₀ b) :
    Reach RequestResponsesBehaviour.step Always b₀ b.pollBridges := by
  have hfold : ∀ (l : List Nat) (b : RequestResponsesBehaviour P),
      Reach RequestResponsesBehaviour.step Always b₀ b →
        Reach RequestResponsesBehaviour.step Always b₀ (l.foldl pollOnce b) := by
    intro l
    induction l with
    | nil => exact fun b hb => hb
    | cons tx l ih =>
        intro b hb
        refine ih _ ?_
        unfold pollOnce
        cases hpoll : b.pollBridge tx with
        | none => exact hb
        | some b' => exact hb.next (.event (.pollBridge tx)) trivial hpoll
  exact hfold _ b h

/-! ### The main fact -/

/-- A request whose bridge has run is in the channel, if the receiver is
there. -/
theorem received_length_of_done (h : Bookkeeping b) {tx : Nat} {s : Sender}
    (ht : b.bridges[tx]? = some t) (hs : t.pendingResponse = some s.clone)
    (hpending : b.isPending tx = false) (hrx : ∀ result, t.rx ≠ .sent result)
    (halive : (b.channels s.channel).receiverAlive = true) : t.received.length = 1 := by
  have hacc := h.accounted t (List.mem_of_getElem? ht)
  have hone : t.offers.length = 1 := by
    have hproduced := produced_length h ht
    rw [if_neg (by rw [hpending]; exact Bool.false_ne_true)] at hproduced
    unfold Bridge.produced at hproduced
    cases hcase : t.rx with
    | sent result => exact absurd hcase (hrx result)
    | waiting => simpa [hcase] using hproduced
    | canceled => simpa [hcase] using hproduced
    | closed => simpa [hcase] using hproduced
  obtain ⟨o, ho⟩ := List.length_eq_one_iff.mp hone
  -- a clone is not parked, so only a missing receiver could refuse the result
  have hsent : o.2 = .sent := by
    rcases hacc.outcome o (ho ▸ List.mem_singleton_self o) s.clone hs with hsent | hparked | hgone
    · exact hsent
    · cases hparked
    · exact absurd (halive.symm.trans hgone) (by decide)
  unfold Bridge.received
  rw [ho]
  simp [hsent]

/-- A broadcast gets at most one reply for each target, and one for each
when none is pending. -/
theorem answered (h : Bookkeeping b) (hm : m ∈ b.multicasts) : Answered b m := by
  have hplaced := h.multicasts m hm
  obtain ⟨h', hsame, hidle⟩ := pollBridges_spec h
  have hplaced' : Placed b.pollBridges m :=
    h'.multicasts m (by rw [hsame.multicasts]; exact hm)
  have hatMost : ((b.requestsOf m).flatMap Bridge.received).length ≤ m.targets.length := by
    refine length_flatMap_requestsOf_le hplaced fun t ht => ?_
    obtain ⟨tx, -, -, htx⟩ := exists_of_mem_requestsOf ht
    exact received_length_le (h.accounted t (List.mem_of_getElem? htx))
  -- after the bridges were polled, every result is in the channel
  have hreceived : NonePending b m → ∀ s, m.pendingResponse = some s →
      (b.channels s.channel).receiverAlive = true →
      ((b.pollBridges.requestsOf m).flatMap Bridge.received).length = m.targets.length := by
    intro hnone s hs halive
    refine length_flatMap_requestsOf hplaced' fun t ht => ?_
    obtain ⟨tx, hge, hlt, htx⟩ := exists_of_mem_requestsOf ht
    refine received_length_of_done h' htx (s := s) ?_ ?_ (hidle t (List.mem_of_getElem? htx)) ?_
    · rw [pendingResponse_of_mem hplaced' ht, hs]
      rfl
    · rw [hsame.isPending]
      exact hnone tx hge hlt
    · rw [hsame.receiverAlive]
      exact halive
  exact
    { targets := by
        have hmap := congrArg (List.map Prod.fst) (map_requestsOf hplaced)
        rw [List.map_map, List.map_map] at hmap
        exact hmap.trans (List.map_id _)
      atMost := hatMost
      produced := by
        intro hnone
        refine length_flatMap_requestsOf hplaced fun t ht => ?_
        obtain ⟨tx, hge, hlt, htx⟩ := exists_of_mem_requestsOf ht
        rw [produced_length h htx, hnone tx hge hlt]
        rfl
      received := hreceived
      ownChannel := by
        intro s hs hown
        constructor
        · rw [(h.channels s.channel).length_eq, receivedOn_ownChannel hplaced hs hown]
          exact hatMost
        · intro hnone halive
          rw [(h'.channels s.channel).length_eq,
            receivedOn_ownChannel hplaced' hs (hsame.ownChannel hown)]
          exact hreceived hnone s hs halive }

theorem oneResult_of_bookkeeping (h : Bookkeeping b) : OneResultPerTarget b where
  atMostOne t ht := received_length_le (h.accounted t ht)
  labelled t ht _ _ hmem := peer_of_produced (h.accounted t ht) hmem
  exactlyOne _ _ ht := produced_length h ht
  channels := h.channels
  multicasts _ hm := answered h hm

/-- **One result for every target.** In every state of every run there is
exactly one result for each request that is not pending, and none for
the others. -/
theorem oneResultPerTarget {list : List ProtocolConfig} {requestIds : ProtocolName → Nat ↪ Nat}
    {buffer : Nat → Nat} {b₀ : RequestResponsesBehaviour P}
    (hnew : RequestResponsesBehaviour.new list requestIds buffer = .ok b₀)
    (h : Reach RequestResponsesBehaviour.step Always b₀ b) :
    OneResultPerTarget b ∧
      Reach RequestResponsesBehaviour.step Always b₀ b.pollBridges :=
  ⟨oneResult_of_bookkeeping (bookkeeping_of_reach hnew h), reach_pollBridges h⟩

namespace LateResponse

/-- The protocol of the room, with a timeout of 30 s. -/
def protocols : List ProtocolConfig := [{ name := "/room/a", requestTimeout := 30000 }]

/-- libp2p counts its requests from one. -/
def requestIds (_ : ProtocolName) : Nat ↪ Nat := ⟨Nat.succ, Nat.succ_injective⟩

/-- Peers 1 and 2 are connected. -/
def env : Surroundings Nat where
  isConnected p := p < 3
  now := 0

def payload : ByteVec := ⟨[7], by decide⟩

/-- A broadcast to three peers, on a channel without a buffer: one is not
connected, one answers, and one answers after the periodic check. -/
def labels : List (RequestResponsesBehaviour.Label Nat) :=
  [.call env (.broadcastMessage [1, 2, 3] "/room/a" defaultContext payload
      (some { channel := 0, parked := false }) .immediateError),
    .event (.response 5 1 "/room/a" 1 (.ok [8])),
    .event (.periodicRequestCheck 30001),
    .event (.response 30002 2 "/room/a" 2 (.ok [9]))]

/-- Each of the three has its result. -/
theorem oneResultPerTarget_late :
    ∃ b₀ b : RequestResponsesBehaviour Nat,
      RequestResponsesBehaviour.new protocols requestIds (fun _ => 0) = .ok b₀ ∧
      run RequestResponsesBehaviour.step b₀ labels = some b ∧
      (b.pollBridges.channels 0).queue =
        [.error .notConnected, .ok (1, [8]), .error (.network .timeout)] ∧
      OneResultPerTarget b := by
  have hone : ∀ b₀ b : RequestResponsesBehaviour Nat,
      RequestResponsesBehaviour.new protocols requestIds (fun _ => 0) = .ok b₀ →
        run RequestResponsesBehaviour.step b₀ labels = some b → OneResultPerTarget b :=
    fun _ _ hnew hrun => (oneResultPerTarget hnew (reach_of_run labels hrun)).1
  exact ⟨_, _, rfl, rfl, rfl, hone _ _ rfl rfl⟩

end LateResponse

end Outbound

end FrostMpcTss.Proofs
