import FrostMpcTss.Proofs.ChannelRoom
import FrostMpcTss.Proofs.DkgReplay
import FrostMpcTss.Service.NetworkProxy

/-!
# `FrostMpcTss.Proofs.ShareRouting`: every secret share reaches its owner

The package that `part2` makes for an identifier goes to the peer with
this identifier and to nobody else. The number of a party crosses the
nodes in four places: `run_dkg` addresses a package by the identifier,
the execution takes the peer at that number less one, the receiver's
proxy looks the sender up, and `forward_direct_message` adds one to both
indices. `sharesRouted` is the agreement of these four in every run of
every session of honest parties.
-/

set_option autoImplicit false

namespace FrostMpcTss.Proofs

open Lib Network Service FrostMpcTss.Session
open Tss Tss.KeyGen
open Service.ProtocolExecution

variable {P κ A B : Type} {n : Nat} {m : AgentMessage}

/-- Every party takes its identifier and the number of parties from its
peerset, as `KeyGen::compute` does. -/
def OwnNumbers [DecidableEq P] (cfg : Config P κ n) (p : Fin n → DkgSession A B) : Prop :=
  ∀ j, ∃ index, (cfg.peerset j).indexOf (cfg.peerset j).localPeerId = some index ∧
    (p j).identifier = index + 1 ∧ (p j).maxSigners = asU16 (cfg.peerset j).size

/-- The requests handed to the agent of a party. -/
def received {σ : Type} (t : AgentNet P κ σ n) (j : Fin n) : List AgentRequest :=
  handedIn (t.net.sessions j).trace

section Routing

variable [Identifiers] [DagCbor] [DkgCodec A B]

/-- A direct message of party `i` with this package, to the party whose
identifier the package is for. -/
def Addressed (cfg : Config P κ n) (p : Fin n → DkgSession A B) (i : Fin n)
    (package : Nat × B) (message : P × Bytes) : Prop :=
  ∃ r m, (p r).identifier = package.1 ∧ round2Message (p i) package = .ok m ∧
    message = (cfg.peers r, m.body)

/-- `req` is the package of party `i` for party `j`. -/
def IsShare (p : Fin n → DkgSession A B) (t : AgentNet P κ (Dkg A B) n) (i j : Fin n)
    (share : B) (req : AgentRequest) : Prop :=
  req.sender = (p i).identifier ∧ req.recipient = some (p j).identifier ∧
    ((p j).identifier, share) ∈ packagesOf (p i) (received t i) ∧
    ∃ m, round2Message (p i) ((p j).identifier, share) = .ok m ∧ req.payload = m.body

/-- The packages of the second round go to their owners. -/
structure SharesRouted [DecidableEq P] (cfg : Config P κ n) (p : Fin n → DkgSession A B)
    (t : AgentNet P κ (Dkg A B) n) : Prop where
  /-- What a party has sent directly are packages of its `part2`, each of
  them once and to the party it is for. -/
  sent : ∀ i, ∃ packages, packages <+: packagesOf (p i) (received t i) ∧
    List.Forall₂ (Addressed cfg p i) packages (directsOut (t.net.sessions i).trace)
  /-- The index of the peer is in range for every message of the agent. -/
  inRange : ∀ i s echoTx, (t.net.sessions i).execution = some (s, echoTx) →
    ∀ m ∈ s.fromProtocol, ∀ u, m.recipient = some u → ∃ r, (p r).identifier = u ∧
      (predUnsigned u >>= s.peerset.index) = .ok (cfg.peers r)
  /-- The receiver's proxy finds the index of the sender, whatever stood
  in its place. -/
  proxied : ∀ i j payload peerIndex queued, queued < proxyBuffer + 1 →
    ReceiverProxy.forwardOrReject { cfg.directRequest i payload with peerIndex := peerIndex }
      cfg.sessionId (cfg.peerset j) queued = .sent (cfg.directRequest i payload)
  /-- A direct message handed to an agent is the package of another party
  for it, and carries both their identifiers. -/
  handed : ∀ j, ∀ req ∈ received t j, req.recipient.isSome = true →
    ∃ i share, i ≠ j ∧ IsShare p t i j share req
  /-- None is handed on twice. -/
  once : ∀ j, ((directRequests (received t j)).map (·.sender)).Nodup
  /-- None gets lost between the network and the agent. -/
  arrived : ∀ j s echoTx, (t.net.sessions j).execution = some (s, echoTx) →
    (directRequests (received t j) ++ queuedDirects s).map (·.sender)
      = (t.delivered.filter fun d => d.recipient = j && d.messageId = none).map fun d =>
        (p d.sender).identifier
  /-- The second receive loop does not fail, and stores every package it
  looks at under the identifier of its sender. -/
  stored : ∀ j loop, secondLoop (p j) (received t j) = some loop →
    ∃ acc looked left, (loop = .waiting acc ∧ left = [] ∨ loop = .done acc left) ∧
      directRequests (received t j) = directRequests looked ++ directRequests left ∧
      ∀ req ∈ directRequests looked, ∃ i share, IsShare p t i j share req ∧
        acc.packages[(p i).identifier]? = some share
  /-- A waiting agent holds the packages of this loop. -/
  waits : ∀ j s echoTx r acc, (t.net.sessions j).execution = some (s, echoTx) →
    s.agentFuture = true → t.agents j = .round2 r acc →
    secondLoop (p j) (received t j) = some (.waiting acc)
  /-- A key comes from them. -/
  finishes : ∀ j s echoTx result, (t.net.sessions j).execution = some (s, echoTx) →
    s.agentResult = some result → Finishes (p j) (received t j) result

end Routing

section Numbers

variable [DecidableEq P] {cfg : Config P κ n} {p : Fin n → DkgSession A B}

theorem asU16_fin (hsmall : n < 2 ^ 16) (j : Fin n) : asU16 j = j :=
  Nat.mod_eq_of_lt (Nat.lt_trans j.isLt hsmall)

/-- Every party has the number of its position, and knows how many there
are. -/
theorem OwnNumbers.eq (h : OwnNumbers cfg p) (hsmall : n < 2 ^ 16) (j : Fin n) :
    (p j).identifier = j + 1 ∧ (p j).maxSigners = n := by
  obtain ⟨index, hindex, hid, hmax⟩ := h j
  have hmem : cfg.peers j ∈ (cfg.peerset j).peers := List.mem_ofFn.mpr ⟨j, rfl⟩
  have hlocal : (cfg.peerset j).indexOf (cfg.peers j) = some index := hindex
  rw [indexOf_eq_some_of_mem hmem, Option.some.injEq] at hlocal
  have hpeers : (cfg.peerset j).peers = List.ofFn cfg.peers := rfl
  rw [hpeers, idxOf_peers cfg j, asU16_fin hsmall] at hlocal
  rw [hid, hmax, ← hlocal]
  refine ⟨rfl, ?_⟩
  show (List.ofFn cfg.peers).length % 2 ^ 16 = n
  rw [List.length_ofFn]
  exact Nat.mod_eq_of_lt hsmall

/-- Every number from one to `n` is a party's identifier. -/
theorem OwnNumbers.exists_party (h : OwnNumbers cfg p) (hsmall : n < 2 ^ 16) {i : Fin n} {u : Nat}
    (hexpects : expects (p i) u = true) : ∃ r : Fin n, (p r).identifier = u ∧ u = r + 1 := by
  rw [expects, (h.eq hsmall i).2, Bool.and_eq_true, decide_eq_true_eq, decide_eq_true_eq]
    at hexpects
  refine ⟨⟨u - 1, by omega⟩, ?_, ?_⟩
  · rw [(h.eq hsmall _).1]
    show u - 1 + 1 = u
    omega
  · show u = u - 1 + 1
    omega

end Numbers

section Messages

variable [DagCbor] [DkgCodec A B]

/-- A package is sent to a party of the session only. -/
theorem expects_of_round2Message {p : DkgSession A B} {package : Nat × B}
    (h : round2Message p package = .ok m) : expects p package.1 = true := by
  unfold round2Message at h
  split at h
  · cases h
  · rename_i hexpects
    simpa using hexpects

variable (A) in
/-- The package a payload carries. -/
def packageIn (payload : Bytes) : Option B :=
  (DagCbor.fromSlice payload).toOption.bind fun bytes =>
    (DkgCodec.deserializeRound2 A bytes).toOption

/-- A message of the second round is read back. -/
theorem packageIn_round2Message [LawfulDagCbor] [LawfulDkgCodec A B] {p : DkgSession A B}
    {package : Nat × B} (h : round2Message p package = .ok m) :
    packageIn A m.body = some package.2 := by
  unfold round2Message at h
  split at h
  · cases h
  · obtain ⟨bytes, hbytes, h⟩ := Lib.Except.bind_eq_ok.mp h
    obtain ⟨body, hbody, h⟩ := Lib.Except.bind_eq_ok.mp h
    cases h
    have hdecoded := LawfulDagCbor.fromSlice_toVec _ _ (mapErr_eq_ok.mp hbody)
    have hshare := LawfulDkgCodec.deserializeRound2_serializeRound2 _ _ (mapErr_eq_ok.mp hbytes)
    simp only [packageIn, hdecoded, hshare, Except.toOption, Option.bind_some]

end Messages

section Loop

variable [Identifiers] [DagCbor] [DkgCodec A B] {p : DkgSession A B}

omit [Identifiers] [DagCbor] in
theorem directRequests_eq_self {reqs : List AgentRequest}
    (h : ∀ req ∈ reqs, req.recipient.isSome = true) : directRequests reqs = reqs :=
  List.filter_eq_self.mpr h

/-- The first loop puts every direct message aside. -/
theorem directRequests_collect {received rest : List AgentRequest} {s s' : Round1 A}
    (hs : ∀ req ∈ s.deferredRound2Requests, req.recipient.isSome = true)
    (h : collect (needsRound1 p) (takeRound1 p) s received = .done s' rest) :
    s.deferredRound2Requests ++ directRequests received
      = directRequests (s'.deferredRound2Requests ++ rest) := by
  induction received generalizing s with
  | nil =>
      unfold collect at h
      split at h
      · cases h
      · cases h
        rw [directRequests_append, directRequests_eq_self hs]
  | cons req received ih =>
      unfold collect at h
      split at h
      · split at h
        · rename_i s₁ htake
          unfold takeRound1 at htake
          cases hreq : req.recipient with
          -- a direct message is deferred, in the order of arrival
          | some recipient =>
              rw [hreq] at htake
              cases htake
              rw [← ih ?_ h]
              · simp [directRequests, hreq]
              · intro req' hreq'
                rcases List.mem_append.mp hreq' with hreq' | hreq'
                · exact hs req' hreq'
                · rw [List.mem_singleton.mp hreq', hreq]
                  rfl
          | none =>
              rw [hreq] at htake
              obtain ⟨payload, _, htake⟩ := Lib.Except.bind_eq_ok.mp htake
              obtain ⟨package, _, htake⟩ := Lib.Except.bind_eq_ok.mp htake
              obtain ⟨id, _, htake⟩ := Lib.Except.bind_eq_ok.mp htake
              have hdeferred : s₁.deferredRound2Requests = s.deferredRound2Requests := by
                split at htake <;> cases htake <;> rfl
              rw [← ih (hdeferred ▸ hs) h, hdeferred]
              simp [directRequests, hreq]
        · cases h
      · cases h
        rw [directRequests_append, directRequests_eq_self hs]

/-- A direct message that the second loop stores. -/
def Storable (p : DkgSession A B) (req : AgentRequest) : Prop :=
  req.recipient = some p.identifier ∧ req.sender ≠ 0 ∧
    ∃ share : B, packageIn A req.payload = some share

variable [LawfulIdentifiers]

/-- One turn of the second loop with a direct message from a new sender. -/
theorem takeRound2_of_storable {acc : Round2 B} {req : AgentRequest} {share : B}
    (hrecipient : req.recipient = some p.identifier) (hsender : req.sender ≠ 0)
    (hshare : packageIn A req.payload = some share)
    (hnew : req.sender ∉ acc.receivedSenders) :
    takeRound2 p acc req = .ok
      { packages := acc.packages.insert req.sender share
        receivedSenders := acc.receivedSenders.insert req.sender } := by
  obtain ⟨bytes, hbytes, hshare⟩ := Option.bind_eq_some_iff.mp hshare
  have hok : ∀ {α : Type} {x : Except String α} {a : α}, x.toOption = some a → x = .ok a := by
    intro α x a hx
    cases x with
    | ok b => cases hx; rfl
    | error e => cases hx
  unfold takeRound2
  simp [hrecipient, LawfulIdentifiers.tryFrom_of_ne _ hsender, mapErr, hnew, hok hbytes, hok hshare]

/-- The second loop over direct messages from different senders. -/
theorem stores_collect (reqs : List AgentRequest) :
    ∀ acc : Round2 B, (∀ req ∈ directRequests reqs, Storable (A := A) p req) →
      ((directRequests reqs).map (·.sender)).Nodup →
      (∀ req ∈ directRequests reqs, req.sender ∉ acc.receivedSenders) →
      ∃ acc' looked left, reqs = looked ++ left ∧
        (collect (needsRound2 p) (takeRound2 p) acc reqs = .waiting acc' ∧ left = [] ∨
          collect (needsRound2 p) (takeRound2 p) acc reqs = .done acc' left) ∧
        (∀ key, key ∉ (directRequests reqs).map (·.sender) →
          acc'.packages[key]? = acc.packages[key]?) ∧
        ∀ req ∈ directRequests looked, ∃ share, packageIn A req.payload = some share ∧
          acc'.packages[req.sender]? = some share := by
  induction reqs with
  | nil =>
      intro acc _ _ _
      refine ⟨acc, [], [], rfl, ?_, fun _ _ => rfl, nofun⟩
      cases hmore : needsRound2 p acc with
      | true => exact .inl ⟨by simp [collect, hmore], rfl⟩
      | false => exact .inr (by simp [collect, hmore])
  | cons req reqs ih =>
      intro acc hstorable hnodup hnew
      cases hmore : needsRound2 p acc with
      | false =>
          exact ⟨acc, [], req :: reqs, rfl, .inr (by simp [collect, hmore]), fun _ _ => rfl, nofun⟩
      | true =>
          cases hreq : req.recipient with
          | none =>
              -- a broadcast is skipped
              have htake : takeRound2 p acc req = .ok acc := by simp [takeRound2, hreq]
              have hsame : directRequests (req :: reqs) = directRequests reqs := by
                simp [directRequests, hreq]
              rw [hsame] at hstorable hnodup hnew
              obtain ⟨acc', looked, left, rfl, hcollect, hkeeps, hstores⟩ :=
                ih acc hstorable hnodup hnew
              refine ⟨acc', req :: looked, left, rfl, ?_, hsame ▸ hkeeps, ?_⟩
              · simpa only [collect, hmore, if_true, htake] using hcollect
              · have hlooked : directRequests (req :: looked) = directRequests looked := by
                  simp [directRequests, hreq]
                rw [hlooked]
                exact hstores
          | some recipient =>
              have hcons : ∀ reqs : List AgentRequest,
                  directRequests (req :: reqs) = req :: directRequests reqs := by
                intro reqs
                simp [directRequests, hreq]
              rw [hcons] at hstorable hnodup hnew
              obtain ⟨hrecipient, hsender, share, hshare⟩ := hstorable req List.mem_cons_self
              have htake := takeRound2_of_storable hrecipient hsender hshare
                (hnew req List.mem_cons_self)
              obtain ⟨hfirst, hrest⟩ := List.nodup_cons.mp hnodup
              obtain ⟨acc', looked, left, rfl, hcollect, hkeeps, hstores⟩ :=
                ih { packages := acc.packages.insert req.sender share
                     receivedSenders := acc.receivedSenders.insert req.sender }
                  (fun req' hreq' => hstorable req' (List.mem_cons_of_mem _ hreq')) hrest (by
                    intro req' hreq'
                    have hne : req.sender ≠ req'.sender := fun heq =>
                      hfirst (List.mem_map.mpr ⟨req', hreq', heq.symm⟩)
                    have hold := hnew req' (List.mem_cons_of_mem _ hreq')
                    simpa [Std.TreeSet.mem_insert, hold] using hne)
              refine ⟨acc', req :: looked, left, rfl, ?_, ?_, ?_⟩
              · simpa only [collect, hmore, if_true, htake] using hcollect
              · intro key hkey
                rw [hcons, List.map_cons, List.mem_cons, not_or] at hkey
                rw [hkeeps key hkey.2, Std.TreeMap.getElem?_insert,
                  if_neg (by simpa using Ne.symm hkey.1)]
              · rw [hcons]
                intro req' hreq'
                rcases List.mem_cons.mp hreq' with rfl | hreq'
                · refine ⟨share, hshare, ?_⟩
                  rw [hkeeps _ hfirst, Std.TreeMap.getElem?_insert_self]
                · exact hstores req' hreq'

end Loop

section Assembly

variable [Identifiers] [DagCbor] [DkgCodec A B] {p : Fin n → DkgSession A B}

omit [Identifiers] in
/-- A message that was sent carries the package for its recipient. -/
theorem exists_of_carries {p : DkgSession A B} {packages : List (Nat × B)}
    {sent : List AgentMessage} (h : Carries p packages sent) (hm : m ∈ sent) {u : Nat}
    (hu : m.recipient = some u) : ∃ package, round2Message p package = .ok m ∧ package.1 = u := by
  have hmem : m ∈ sent.filter (·.recipient.isSome) :=
    List.mem_filter.mpr ⟨hm, by rw [hu]; rfl⟩
  obtain ⟨k, hk, rfl⟩ := List.getElem_of_mem hmem
  have hmessage := List.Forall₂.get h (by rw [h.length_eq]; exact hk) hk
  refine ⟨_, hmessage, ?_⟩
  have hrecipient := recipient_round2Message hmessage
  exact Option.some.inj (hrecipient.symm.trans hu)

/-- Whatever the agent has sent, it has sent from the packages. -/
theorem Dealing.carries {p : DkgSession A B} {a : Dkg A B} {taken : List AgentRequest}
    {sent : List AgentMessage} (h : Dealing p a taken sent) :
    ∃ done, (∀ later, done <+: packagesOf p (taken ++ later)) ∧ Carries p done sent := by
  cases h with
  | start => exact ⟨[], fun _ => List.nil_prefix, .nil⟩
  | round1 _ _ hcarries => exact ⟨[], fun _ => List.nil_prefix, hcarries⟩
  | @sending s done todo _ _ hd hcarries =>
      refine ⟨done, fun later => ?_, hcarries⟩
      rw [packagesOf_append hd]
      exact List.prefix_append ..
  | @round2 s acc d _ _ hd _ _ _ hcarries =>
      refine ⟨d.packages, fun later => ?_, hcarries⟩
      rw [packagesOf_append hd]
  | returned hdone hcarries => exact ⟨_, hdone, hcarries⟩

variable [DecidableEq P] {cfg : Config P κ n}

omit [Identifiers] [DagCbor] [DecidableEq P] in
theorem peerOf_ofFn (cfg : Config P κ n) (r : Fin n) :
    peerOf (List.ofFn cfg.peers) (some (r + 1)) = some (cfg.peers r) := by
  show (List.ofFn cfg.peers)[(r : Nat)]? = _
  rw [List.getElem?_ofFn]
  simp

omit [Identifiers] in
/-- The direct messages of the agent go to the parties of its packages. -/
theorem addressed_of_carries (hnumbers : OwnNumbers cfg p) (hsmall : n < 2 ^ 16) {i : Fin n}
    (sent : List AgentMessage) : ∀ packages, Carries (p i) packages sent →
    List.Forall₂ (Addressed cfg p i) packages (directsOf (List.ofFn cfg.peers) sent) := by
  induction sent with
  | nil =>
      intro packages h
      cases h
      exact .nil
  | cons m sent ih =>
      intro packages h
      unfold Carries at h
      cases hm : m.recipient with
      | none =>
          rw [List.filter_cons, hm] at h
          have hsame : directsOf (List.ofFn cfg.peers) (m :: sent)
              = directsOf (List.ofFn cfg.peers) sent := by simp [directsOf, hm, peerOf]
          rw [hsame]
          exact ih packages h
      | some u =>
          rw [List.filter_cons, hm, Option.isSome_some, if_pos rfl] at h
          cases h with
          | @cons package _ packages _ hmessage hrest =>
              have hu : package.1 = u :=
                Option.some.inj ((recipient_round2Message hmessage).symm.trans hm)
              obtain ⟨r, hr, hur⟩ :=
                hnumbers.exists_party hsmall (expects_of_round2Message hmessage)
              have hcons : directsOf (List.ofFn cfg.peers) (m :: sent)
                  = (cfg.peers r, m.body) :: directsOf (List.ofFn cfg.peers) sent := by
                have hpeer : peerOf (List.ofFn cfg.peers) m.recipient = some (cfg.peers r) := by
                  rw [hm, ← hu, hur, peerOf_ofFn]
                simp [directsOf, hpeer]
              rw [hcons]
              exact .cons ⟨r, m, hr, hmessage, rfl⟩ (ih packages hrest)

variable {t : AgentNet P κ (Dkg A B) n}

/-- The log of a key generation. -/
abbrev DkgLog (cfg : Config P κ n) (p : Fin n → DkgSession A B)
    (t : AgentNet P κ (Dkg A B) n) : Prop :=
  AgentLog cfg (fun j => Dealing (p j)) (fun j => Finishes (p j)) t

/-- A party sends the shares in the order of its packages, each to the party
it is for. -/
theorem sharesSent (hnumbers : OwnNumbers cfg p) (hsmall : n < 2 ^ 16)
    (hlog : DkgLog cfg p t) (i : Fin n) :
    ∃ packages, packages <+: packagesOf (p i) (received t i) ∧
      List.Forall₂ (Addressed cfg p i) packages (directsOut (t.net.sessions i).trace) := by
  obtain ⟨taken, sent, hdealing, ⟨later, hlater⟩, ⟨unsent, hunsent⟩⟩ := (hlog i).explained
  obtain ⟨done, hdone, hcarries⟩ := hdealing.carries
  have haddressed := addressed_of_carries hnumbers hsmall sent done hcarries
  rw [← hunsent] at haddressed
  refine ⟨_, ?_, List.forall₂_take_append _ _ _ haddressed⟩
  have hinitial := hdone later
  rw [hlater] at hinitial
  exact (List.take_prefix ..).trans hinitial

/-- A share that is handed in was made for this party by its sender. -/
theorem sharesHanded (hnumbers : OwnNumbers cfg p) (hsmall : n < 2 ^ 16)
    (hlog : DkgLog cfg p t) {j : Fin n} {req : AgentRequest} (hreq : req ∈ received t j)
    (hdirect : req.recipient.isSome = true) :
    ∃ i share, i ≠ j ∧ IsShare p t i j share req := by
  obtain ⟨hrecipient, i, hne, hsender, hsent⟩ := (hlog j).requests req hreq hdirect
  rw [asU16_fin hsmall, ← (hnumbers.eq hsmall _).1] at hrecipient hsender
  obtain ⟨packages, hinitial, haddressed⟩ := sharesSent hnumbers hsmall hlog i
  obtain ⟨k, hk, hget⟩ := List.getElem_of_mem (mem_directsOut.mpr hsent)
  have hk' : k < packages.length := by
    rw [haddressed.length_eq]
    exact hk
  obtain ⟨r, m, hr, hmessage, heq⟩ := haddressed.get hk' hk
  have heq : (directsOut (t.net.sessions i).trace)[k] = (cfg.peers r, m.body) := heq
  rw [hget, Prod.mk.injEq] at heq
  obtain rfl := cfg.peers_injective heq.1
  have hpackage : ((p j).identifier, packages[k].2) = packages[k] := by
    rw [hr]
    rfl
  refine ⟨i, packages[k].2, hne, hsender, hrecipient, ?_, m, ?_, heq.2⟩
  · rw [hpackage]
    exact hinitial.subset (List.getElem_mem hk')
  · rw [hpackage]
    exact hmessage

omit [Identifiers] [DagCbor] [DkgCodec A B] in
theorem sendersTo_eq (hnumbers : OwnNumbers cfg p) (hsmall : n < 2 ^ 16)
    (delivered : List (Delivery n)) (j : Fin n) :
    sendersTo delivered j
      = (delivered.filter fun d => d.recipient = j && d.messageId = none).map fun d =>
        (p d.sender).identifier := by
  refine List.map_congr_left fun d _ => ?_
  rw [asU16_fin hsmall, (hnumbers.eq hsmall _).1]

omit [Identifiers] [DagCbor] [DkgCodec A B] [DecidableEq P] in
/-- No party sends its share twice. -/
theorem nodup_sendersTo (hsmall : n < 2 ^ 16) {delivered : List (Delivery n)}
    (h : delivered.Nodup) (j : Fin n) : (sendersTo delivered j).Nodup := by
  have hmap : sendersTo delivered j
      = ((delivered.filter fun d => d.recipient = j && d.messageId = none).map (·.sender)).map
        fun i : Fin n => asU16 i + 1 := by
    rw [List.map_map]
    rfl
  rw [hmap]
  refine (nodup_senders h j).map fun i i' heq => Fin.ext ?_
  simpa [asU16_fin hsmall] using heq

/-- The second loop stores what was handed on. -/
theorem sharesStored [LawfulIdentifiers] [LawfulDagCbor] [LawfulDkgCodec A B]
    (hnumbers : OwnNumbers cfg p)
    (hsmall : n < 2 ^ 16) (hlog : DkgLog cfg p t) {j : Fin n}
    (hnodup : ((directRequests (received t j)).map (·.sender)).Nodup)
    {loop : Collect (Round2 B)} (hloop : secondLoop (p j) (received t j) = some loop) :
    ∃ acc looked left, (loop = .waiting acc ∧ left = [] ∨ loop = .done acc left) ∧
      directRequests (received t j) = directRequests looked ++ directRequests left ∧
      ∀ req ∈ directRequests looked, ∃ i share, IsShare p t i j share req ∧
        acc.packages[(p i).identifier]? = some share := by
  obtain ⟨d, hd, rfl⟩ := Option.map_eq_some_iff.mp hloop
  -- the requests that the first loop leaves are the direct ones, in order
  have hdirects : directRequests (received t j)
      = directRequests (d.round1.deferredRound2Requests ++ d.rest) := by
    unfold dealt at hd
    split at hd
    · cases hd
    · split at hd
      · cases hd
      · cases hd
      · rename_i s rest hcollect
        split at hd
        · cases hd
        · cases hd
          have hnone : ∀ package : A, ∀ req ∈ (Round1.new (p j) package).deferredRound2Requests,
              req.recipient.isSome = true := fun _ _ hreq => nomatch hreq
          exact directRequests_collect (hnone _) hcollect
  have hshare : ∀ req ∈ directRequests (received t j), ∃ i share, IsShare p t i j share req := by
    intro req hreq
    obtain ⟨hreq, hdirect⟩ := List.mem_filter.mp hreq
    obtain ⟨i, share, _, hshare⟩ := sharesHanded hnumbers hsmall hlog hreq hdirect
    exact ⟨i, share, hshare⟩
  rw [hdirects] at hnodup hshare ⊢
  obtain ⟨acc, looked, left, hreqs, hcollect, _, hstores⟩ :=
    stores_collect (p := p j) (d.round1.deferredRound2Requests ++ d.rest)
      { packages := ∅, receivedSenders := ∅ } (by
        intro req hreq
        obtain ⟨i, share, hsender, hrecipient, _, m, hmessage, hpayload⟩ := hshare req hreq
        refine ⟨hrecipient, ?_, share, ?_⟩
        · rw [hsender, (hnumbers.eq hsmall i).1]
          exact Nat.succ_ne_zero _
        · rw [hpayload]
          exact packageIn_round2Message hmessage) hnodup (fun _ _ => Std.TreeSet.not_mem_emptyc)
  refine ⟨acc, looked, left, hcollect, ?_, ?_⟩
  · rw [hreqs, directRequests_append]
  · intro req hreq
    have hmem : req ∈ directRequests (d.round1.deferredRound2Requests ++ d.rest) := by
      rw [hreqs, directRequests_append]
      exact List.mem_append_left _ hreq
    obtain ⟨i, share, hshare⟩ := hshare req hmem
    obtain ⟨share', hpackage, hstored⟩ := hstores req hreq
    refine ⟨i, share, hshare, ?_⟩
    obtain ⟨hsender, _, _, m, hmessage, hpayload⟩ := hshare
    have heq := packageIn_round2Message hmessage
    rw [← hpayload, hpackage, Option.some.injEq] at heq
    rw [← hsender, hstored, heq]

/-- The logs of the agents say where every share has gone. -/
theorem sharesRouted_of_log [LawfulIdentifiers] [LawfulDagCbor] [LawfulDkgCodec A B] [Blake2s256]
    (hnumbers : OwnNumbers cfg p) (hsmall : n < 2 ^ 16)
    (hl : AgentLedger cfg 1 true (fun _ => DkgInv n) t) (hlog : DkgLog cfg p t) :
    SharesRouted cfg p t := by
  have honce : ∀ j, ((directRequests (received t j)).map (·.sender)).Nodup := fun j =>
    (hlog j).arrived.sublist.nodup (nodup_sendersTo hsmall hl.distinct j)
  refine ⟨sharesSent hnumbers hsmall hlog, ?_,
    fun i j _ => forwardOrReject_of_party cfg i j rfl rfl rfl rfl,
    fun j req hreq hdirect => sharesHanded hnumbers hsmall hlog hreq hdirect, honce, ?_,
    fun j loop => sharesStored hnumbers hsmall hlog (honce j), ?_, ?_⟩
  · intro i s echoTx hs m hm u hu
    obtain ⟨hmembers, ⟨taken, sent, hdealing, _, hunsent, _⟩, _, _⟩ := (hlog i).live s echoTx hs
    obtain ⟨done, _, hcarries⟩ := hdealing.carries
    obtain ⟨package, hmessage, rfl⟩ := exists_of_carries hcarries (hunsent.subset hm) hu
    obtain ⟨r, hr, hur⟩ := hnumbers.exists_party hsmall (expects_of_round2Message hmessage)
    refine ⟨r, hr, Lib.Except.bind_eq_ok.mpr ⟨r, predUnsigned_eq_ok.mpr hur, ?_⟩⟩
    rw [index_eq_ok, hmembers]
    exact peerOf_ofFn cfg r
  · intro j s echoTx hs
    rw [← sendersTo_eq hnumbers hsmall]
    exact ((hlog j).live s echoTx hs).arrived
  · intro j s echoTx r acc hs hrun hagent
    -- a waiting agent has taken everything
    have hinv := (hl.party j s echoTx hs).running hrun
    rw [hagent] at hinv
    obtain ⟨taken, sent, hdealing, htaken, _⟩ := ((hlog j).live s echoTx hs).explained
    rw [hagent] at hdealing
    cases hinv with
    | round2 _ hto _ =>
        have hto : s.toProtocol = [] := hto
        rw [hto, List.append_nil] at htaken
        cases hdealing with
        | round2 _ _ _ hloop _ =>
            rw [htaken] at hloop
            exact hloop
  · intro j s echoTx result hs hresult
    obtain ⟨taken, ⟨later, hlater⟩, hfinishes⟩ :=
      ((hlog j).live s echoTx hs).result result hresult
    have happend := hfinishes.append later
    rw [hlater] at happend
    exact happend

/-- All parties have just started. -/
theorem dkgLog_start (cfg : Config P κ n) (htwo : 2 ≤ n) (hsmall : n < 2 ^ 16) :
    DkgLog cfg p (AgentNet.start cfg (dealers p)) := by
  intro j
  refine ⟨⟨[], [], .start, List.nil_prefix, List.nil_prefix⟩, nofun, List.nil_prefix, ?_⟩
  intro s echoTx hs
  obtain ⟨s', hs', _, hnew⟩ := execution_startSession cfg htwo hsmall j
  cases hs'.symm.trans hs
  refine ⟨by rw [hnew.peerset_eq]; rfl, ⟨[], [], .start, ?_, ?_, ?_⟩, ?_, ?_⟩
  · rw [hnew.toProtocol_eq]
    rfl
  · rw [hnew.fromProtocol_eq]
  · rw [hnew.fromProtocol_eq]
    rfl
  · rw [hnew.agentResult_eq]
    nofun
  · rw [queuedDirects, hnew.fromNetwork_eq]
    rfl

/-- The ledgers and the logs of the agents are in order in every state. -/
theorem dkgLog_of_reach [Blake2s256] {cfg : Config P κ n} (hnumbers : OwnNumbers cfg p)
    (htwo : 2 ≤ n) (hsmall : n < 2 ^ 16) (hhonest : ∀ j, cfg.honest j = true)
    (h : Reach (AgentNet.step cfg (dealers p)) Always (AgentNet.start cfg (dealers p)) t) :
    AgentLedger cfg 1 true (fun _ => DkgInv n) t ∧ DkgLog cfg p t := by
  have hspec : ∀ j, AgentSpec n 1 true ((dealers p).poll j) (DkgInv n) := fun j =>
    agentSpec_runDkg htwo (hnumbers.eq hsmall j).2
  refine h.invariant
    (I := fun t => AgentLedger cfg 1 true (fun _ => DkgInv n) t ∧ DkgLog cfg p t)
    ⟨agentLedger_start htwo hsmall hspec fun j => .start rfl rfl rfl rfl (Nat.zero_le _),
      dkgLog_start cfg htwo hsmall⟩ ?_
  rintro t l t' ⟨hl, hlog⟩ _ hstep
  refine ⟨agentLedger_step hspec hhonest hl ?_ hstep, agentLog_step ?_ hhonest hl hlog hstep⟩
  · exact fun _ _ _ _ _ hs => hl.releasesTwo_eq_false hhonest hs
  · exact fun j => explains_runDkg (p j) (n - 1)

/-- Take any key generation of `2 ≤ n ≤ 65535` honest parties with the
same ordered peerset of distinct peers, and any order in which the
network delivers their messages. In every state the packages of the
second round go to their owners. -/
theorem sharesRouted [LawfulIdentifiers] [LawfulDagCbor] [LawfulDkgCodec A B] [Blake2s256]
    (cfg : Config P κ n)
    (htwo : 2 ≤ n) (hsmall : n ≤ 65535) (hhonest : ∀ j, cfg.honest j = true)
    (hnumbers : OwnNumbers cfg p)
    (h : Reach (AgentNet.step cfg (dealers p)) Always (AgentNet.start cfg (dealers p)) t) :
    SharesRouted cfg p t := by
  have hsmall : n < 2 ^ 16 := Nat.lt_succ_of_le hsmall
  obtain ⟨hl, hlog⟩ := dkgLog_of_reach hnumbers htwo hsmall hhonest h
  exact sharesRouted_of_log hnumbers hsmall hl hlog

end Assembly

namespace ThreeDealers

open scoped IdentityHash PlainAgent

local instance three_neZero : NeZero 3 := ⟨by decide⟩

/-- A package of the second round is the byte `3` and a byte. -/
local instance : DkgCodec Unit UInt8 where
  serializeRound1 _ := .ok [2]
  deserializeRound1 bytes := if bytes = [2] then .ok () else .error ""
  serializeRound2 share := .ok [3, share]
  deserializeRound2 bytes :=
    match bytes with
    | [3, share] => .ok share
    | _ => .error ""

local instance : LawfulDkgCodec Unit UInt8 where
  deserializeRound2_serializeRound2 share bytes h := by
    cases h
    rfl

def config : Config Nat Nat 3 := .numbered 3 0

/-- The package of party `j` for `u` is `10 * (j + 1) + u`. -/
def keyGen (j : Fin 3) : DkgSession Unit UInt8 where
  identifier := j + 1
  threshold := 2
  maxSigners := 3
  prepare := .ok ()
  part1 := .ok ()
  part2 packages := .ok (packages.map fun u _ => (10 * (j + 1) + u).toUInt8)
  part3 _ _ := .ok [5]
  save bytes := .ok bytes

/-- The first round, up to the broadcasts. -/
def firstRound : List (AgentLabel 3) :=
  [.poll 0 0, .poll 0 0, .poll 1 0, .poll 1 0, .poll 2 0, .poll 2 0,
    .broadcast 1 0 0 [2], .broadcast 2 0 0 [2], .broadcast 0 1 0 [2], .broadcast 2 1 0 [2],
    .broadcast 0 2 0 [2], .broadcast 1 2 0 [2]]

/-- The first and the third party send their packages, and the second
one receives the package of the third before it has seen the first
round. -/
def labels : List (AgentLabel 3) :=
  firstRound ++ [.poll 2 0, .poll 2 0, .poll 2 0, .poll 2 0, .direct 2 1 [3, 32]] ++
    [.poll 0 0, .poll 0 0, .poll 0 0, .poll 0 0, .direct 0 1 [3, 12]] ++
    [.poll 1 0, .poll 1 0, .poll 1 0, .poll 1 0]

/-- The second party has the packages that were made for it. -/
theorem sharesRouted_threeDealers :
    ∃ t, run (AgentNet.step config (dealers keyGen)) (AgentNet.start config (dealers keyGen))
        labels = some t ∧
      (directRequests (received t 1) = [⟨3, some 2, [3, 32]⟩, ⟨1, some 2, [3, 12]⟩] ∧
        t.agents 1 = .returned) ∧
      SharesRouted config keyGen t := by
  obtain ⟨t, hrun, hstate⟩ :
      ∃ t, run (AgentNet.step config (dealers keyGen)) (AgentNet.start config (dealers keyGen))
          labels = some t ∧
        directRequests (received t 1) = [⟨3, some 2, [3, 32]⟩, ⟨1, some 2, [3, 12]⟩] ∧
          t.agents 1 = .returned := ⟨_, rfl, rfl, rfl⟩
  refine ⟨t, hrun, hstate, sharesRouted config (by decide) (by decide) (fun _ => rfl) ?_
    (reach_of_run labels hrun)⟩
  intro j
  fin_cases j
  · exact ⟨0, rfl, rfl, rfl⟩
  · exact ⟨1, rfl, rfl, rfl⟩
  · exact ⟨2, rfl, rfl, rfl⟩

end ThreeDealers

end FrostMpcTss.Proofs
