import FrostMpcTss.Lib.Transition
import FrostMpcTss.Proofs.Ledger
import FrostMpcTss.Service.NetworkProxy
import FrostMpcTss.Session.Net

/-!
# `FrostMpcTss.Proofs.NetLedger`: what the parties of a session account for

`NetLedger` joins the ledgers of the honest sessions: a message that
was delivered goes back to its sender (`Known`), and an echo that
arrived goes back to the party that gave it. `netSteps_step` says once
what a step of the parties and their network can do, and
`netLedger_of_reach` is the ledger in every state of every run.
-/

set_option autoImplicit false

namespace FrostMpcTss.Proofs

open Lib Network Service FrostMpcTss.Session

/-- The position of a value in a list without repetitions. -/
theorem idxOf_ofFn {α : Type} [DecidableEq α] {n : Nat} {f : Fin n → α}
    (hinj : Function.Injective f) (i : Fin n) : (List.ofFn f).idxOf (f i) = i := by
  have hget := (List.nodup_ofFn.mpr hinj).idxOf_getElem i (by rw [List.length_ofFn]; exact i.isLt)
  rwa [List.getElem_ofFn] at hget

section Net

variable {P κ : Type} {n : Nat} {trace : List (Effect P (Handle n) κ)}

/-- What is known of a message delivered to party `r`. -/
def Known (cfg : Config P κ n) (t : Net P κ n) (r : Fin n) (req : IncomingRequest P (Handle n)) :
    Prop :=
  ∃ s, s ≠ r ∧ req.peerIndex = asU16 s ∧
    (req.isBroadcast = true → req.pendingResponse = .echo s req.context.messageId ∧
      (cfg.honest s = true → ∃ peers,
        .multicast req.context.messageId req.payload peers ∈ (t.sessions s).trace)) ∧
    (req.isBroadcast = false → req.pendingResponse = .direct s ∧
      (cfg.honest s = true →
        .sendDirect (cfg.peers r) req.payload ∈ (t.sessions s).trace))

/-- The responses to a broadcast. -/
def answersTo (t : Net P κ n) (s : Fin n) (k : Nat) : List (Answer P n) :=
  t.answered.filter fun a => a.requester = s && a.messageId = k

/-- The echoes that arrived for a broadcast. -/
def arrivedAt (t : Net P κ n) (s : Fin n) (k : Nat) : List (RemoteEcho P) :=
  (answersTo t s k).map (·.echo)

/-- What holds of the parties and their network. -/
structure NetLedger [Blake2s256] (cfg : Config P κ n) (t : Net P κ n) : Prop where
  sessions : ∀ j, cfg.honest j = true →
    SessionLedger (Known cfg t j) (asU16 j) n (arrivedAt t j) (t.sessions j)
  responder_ne : ∀ a ∈ t.answered, a.responder ≠ a.requester
  distinct : (t.answered.map fun a => (a.requester, a.messageId, a.responder)).Nodup
  given : ∀ a ∈ t.answered, cfg.honest a.responder = true → ∀ peer hash,
    a.echo = .ok (peer, hash) →
    .respond (.echo a.requester a.messageId) (.ok hash) ∈ (t.sessions a.responder).trace

/-- The net after a response has arrived. -/
def withAnswer (t : Net P κ n) (session : Session P (Handle n) κ) (a : Answer P n) :
    Net P κ n where
  sessions := Function.update t.sessions a.requester session
  answered := t.answered ++ [a]

/-- The ways the parties and their network can go on. -/
inductive NetSteps [DecidableEq P] [Blake2s256] (cfg : Config P κ n) (t : Net P κ n) :
    Net P κ n → Prop where
  | inner {j : Fin n} {l : WrapLabel P (Handle n)} {session : Session P (Handle n) κ} :
      cfg.honest j = true → (t.sessions j).step l = some session →
      (∀ m, l = .deliver m → Known cfg t j m) → (∀ respRx echo, l ≠ .echoResponse respRx echo) →
      NetSteps cfg t { t with sessions := Function.update t.sessions j session }
  | answer {s r : Fin n} {k : Nat} {response : Except RequestFailure Bytes}
      {session : Session P (Handle n) κ} :
      cfg.honest s = true → s ≠ r →
      (∀ a ∈ t.answered, ¬ (a.requester = s ∧ a.messageId = k ∧ a.responder = r)) →
      t.mayRespond cfg s r k response = true →
      (t.sessions s).step (.echoResponse k (cfg.remoteEcho r response)) = some session →
      NetSteps cfg t
        (withAnswer t session
          { requester := s
            messageId := k
            responder := r
            echo := cfg.remoteEcho r response })

theorem mem_of_multicasts {k : Nat} {payload : Bytes} (h : multicasts trace k payload = true) :
    ∃ peers, .multicast k payload peers ∈ trace := by
  obtain ⟨effect, hmem, heffect⟩ := List.any_eq_true.mp h
  cases effect with
  | multicast k' body peers =>
      simp only [Bool.and_eq_true, decide_eq_true_eq] at heffect
      obtain ⟨rfl, rfl⟩ := heffect
      exact ⟨peers, hmem⟩
  | _ => cases heffect

theorem mem_of_echoes {tx : Handle n} {hash : Bytes} (h : echoes trace tx hash = true) :
    .respond tx (.ok hash) ∈ trace := by
  obtain ⟨effect, hmem, heffect⟩ := List.any_eq_true.mp h
  cases effect with
  | respond tx' response =>
      cases response with
      | ok hash' =>
          simp only [Bool.and_eq_true, decide_eq_true_eq] at heffect
          obtain ⟨rfl, rfl⟩ := heffect
          exact hmem
      | error e => cases heffect
  | _ => cases heffect

variable [DecidableEq P] [Blake2s256]

omit [Blake2s256] in
theorem mem_of_sends {peer : P} {payload : Bytes} (h : sends trace peer payload = true) :
    .sendDirect peer payload ∈ trace := by
  obtain ⟨effect, hmem, heffect⟩ := List.any_eq_true.mp h
  cases effect with
  | sendDirect peer' body =>
      simp only [Bool.and_eq_true, decide_eq_true_eq] at heffect
      obtain ⟨rfl, rfl⟩ := heffect
      exact hmem
  | _ => cases heffect

/-- Every step goes one of these ways. -/
theorem netSteps_step {cfg : Config P κ n} {t t' : Net P κ n} {l : NetLabel n}
    (h : t.step cfg l = some t') : NetSteps cfg t t' := by
  cases l with
  | poll j now turn =>
      obtain ⟨hj, h⟩ := Option.ite_none_right_eq_some.mp h
      obtain ⟨session, hstep, rfl⟩ := Option.map_eq_some_iff.mp h
      exact .inner hj hstep nofun nofun
  | echo j =>
      obtain ⟨hj, h⟩ := Option.ite_none_right_eq_some.mp h
      obtain ⟨session, hstep, rfl⟩ := Option.map_eq_some_iff.mp h
      exact .inner hj hstep nofun nofun
  | close j k =>
      obtain ⟨hj, h⟩ := Option.ite_none_right_eq_some.mp h
      obtain ⟨session, hstep, rfl⟩ := Option.map_eq_some_iff.mp h
      exact .inner hj hstep nofun nofun
  | broadcast s r k payload =>
      obtain ⟨hcond, h⟩ := Option.ite_none_right_eq_some.mp h
      obtain ⟨session, hstep, rfl⟩ := Option.map_eq_some_iff.mp h
      simp only [Bool.and_eq_true, decide_eq_true_eq, Bool.or_eq_true, Bool.not_eq_true',
        ne_eq] at hcond
      obtain ⟨⟨hr, hne⟩, hsent⟩ := hcond
      refine .inner hr hstep ?_ nofun
      rintro m ⟨⟩
      refine ⟨s, hne, rfl, fun _ => ⟨rfl, fun hs => ?_⟩, nofun⟩
      -- an honest sender has said it
      exact mem_of_multicasts (hsent.resolve_left (by rw [hs]; nofun))
  | direct s r payload =>
      obtain ⟨hcond, h⟩ := Option.ite_none_right_eq_some.mp h
      obtain ⟨session, hstep, rfl⟩ := Option.map_eq_some_iff.mp h
      simp only [Bool.and_eq_true, decide_eq_true_eq, Bool.or_eq_true, Bool.not_eq_true',
        ne_eq] at hcond
      obtain ⟨⟨hr, hne⟩, hsent⟩ := hcond
      refine .inner hr hstep ?_ nofun
      rintro m ⟨⟩
      refine ⟨s, hne, rfl, nofun, fun _ => ⟨rfl, fun hs => ?_⟩⟩
      exact mem_of_sends (hsent.resolve_left (by rw [hs]; nofun))
  | respond s r k response =>
      obtain ⟨hcond, h⟩ := Option.ite_none_right_eq_some.mp h
      obtain ⟨t₁, hstepAt, rfl⟩ := Option.map_eq_some_iff.mp h
      obtain ⟨session, hstep, rfl⟩ := Option.map_eq_some_iff.mp hstepAt
      simp only [Bool.and_eq_true, decide_eq_true_eq, ne_eq, Bool.not_eq_true',
        List.any_eq_false] at hcond
      obtain ⟨⟨⟨hs, hne⟩, hnew⟩, hmay⟩ := hcond
      refine .answer hs hne ?_ hmay hstep
      -- each broadcast is answered once
      rintro a ha ⟨rfl, rfl, rfl⟩
      exact hnew a ha ⟨⟨rfl, rfl⟩, rfl⟩

/-- A session only adds to its trace. -/
theorem mem_trace_step {ρ : Type} {t t' : Session P ρ κ} {l : WrapLabel P ρ}
    (h : t.step l = some t') {effect : Effect P ρ κ} (hmem : effect ∈ t.trace) :
    effect ∈ t'.trace := by
  obtain ⟨_, _, effects, _, _, rfl⟩ := Session.step_eq_some.mp h
  exact List.mem_append_left _ hmem

omit [DecidableEq P] [Blake2s256] in
/-- The traces of the parties grow. -/
def Grows (t t' : Net P κ n) : Prop :=
  ∀ j effect, effect ∈ (t.sessions j).trace → effect ∈ (t'.sessions j).trace

/-- A step of one party only adds to its trace. -/
theorem grows_update {t : Net P κ n} {j : Fin n} {l : WrapLabel P (Handle n)}
    {session : Session P (Handle n) κ} (answered : List (Answer P n))
    (h : (t.sessions j).step l = some session) :
    Grows t { sessions := Function.update t.sessions j session, answered := answered } := by
  intro j' effect hmem
  by_cases hj : j' = j
  · subst hj
    show effect ∈ (Function.update t.sessions j' session j').trace
    rw [Function.update_self]
    exact mem_trace_step h hmem
  · show effect ∈ (Function.update t.sessions j session j').trace
    rw [Function.update_of_ne hj]
    exact hmem

omit [DecidableEq P] [Blake2s256] in
/-- What is known stays known. -/
theorem Known.mono {cfg : Config P κ n} {t t' : Net P κ n} (hgrows : Grows t t') {r : Fin n}
    {req : IncomingRequest P (Handle n)} (h : Known cfg t r req) : Known cfg t' r req := by
  obtain ⟨s, hne, hindex, hbroadcast, hdirect⟩ := h
  refine ⟨s, hne, hindex, fun hb => ⟨(hbroadcast hb).1, fun hs => ?_⟩,
    fun hb => ⟨(hdirect hb).1, fun hs => hgrows s _ ((hdirect hb).2 hs)⟩⟩
  obtain ⟨peers, hmem⟩ := (hbroadcast hb).2 hs
  exact ⟨peers, hgrows s _ hmem⟩

omit [DecidableEq P] [Blake2s256] in
/-- The echoes that arrived after one more response. -/
theorem arrivedAt_withAnswer (t : Net P κ n) (session : Session P (Handle n) κ)
    (a : Answer P n) (s : Fin n) (k : Nat) :
    arrivedAt (withAnswer t session a) s k
      = arrivedAt t s k ++ if a.requester = s ∧ a.messageId = k then [a.echo] else [] := by
  show ((t.answered ++ [a]).filter _).map _ = _
  rw [List.filter_append, List.map_append]
  show arrivedAt t s k ++ _ = _
  congr 1
  by_cases h : a.requester = s ∧ a.messageId = k
  · simp [h.1, h.2]
  · rw [if_neg h]
    simpa using h

/-- Every step keeps the ledger of the net. -/
theorem netLedger_step {cfg : Config P κ n} {t t' : Net P κ n} {l : NetLabel n}
    (hl : NetLedger cfg t) (h : t.step cfg l = some t') : NetLedger cfg t' := by
  cases netSteps_step h with
  | @inner j l session hj hstep hknown hno =>
      have hgrows := grows_update t.answered hstep
      have hknown' : ∀ r req, Known cfg t r req → Known cfg _ r req :=
        fun _ _ hreq => hreq.mono hgrows
      refine ⟨?_, hl.responder_ne, hl.distinct, ?_⟩
      · intro j' hj'
        by_cases heq : j' = j
        · subst heq
          show SessionLedger _ _ n (arrivedAt t j') (Function.update t.sessions j' session j')
          rw [Function.update_self]
          have hsession := sessionLedger_step (hl.sessions j' hj') hknown hstep
          have harrived : arrivedAfter (arrivedAt t j') l = arrivedAt t j' := by
            cases l with
            | echoResponse respRx echo => exact absurd rfl (hno respRx echo)
            | _ => rfl
          rw [harrived] at hsession
          exact hsession.mono (hknown' j')
        · show SessionLedger _ _ n (arrivedAt t j') (Function.update t.sessions j session j')
          rw [Function.update_of_ne heq]
          exact (hl.sessions j' hj').mono (hknown' j')
      · intro a ha hhonest peer hash hecho
        exact hgrows _ _ (hl.given a ha hhonest peer hash hecho)
  | @answer s r k response session hs hne hnew hmay hstep =>
      generalize ha : (Answer.mk s k r (cfg.remoteEcho r response) : Answer P n) = a
      have hgrows : Grows t (withAnswer t session a) := by
        subst ha
        exact grows_update _ hstep
      refine ⟨?_, ?_, ?_, ?_⟩
      · intro j hj
        refine SessionLedger.mono (fun _ => Known.mono hgrows) ?_
        by_cases heq : j = s
        · have hsession := sessionLedger_step (hl.sessions j hj) (fun m hm => by cases hm)
            (heq ▸ hstep)
          have hafter : arrivedAfter (arrivedAt t j)
              (.echoResponse k (cfg.remoteEcho r response) : WrapLabel P (Handle n))
              = arrivedAt (withAnswer t session a) j := by
            funext k'
            rw [arrivedAt_withAnswer, ← ha, heq]
            by_cases hk : k' = k
            · subst hk
              simp [arrivedAfter]
            · simp [arrivedAfter, Function.update_of_ne hk, Ne.symm hk]
          have hupdated : (withAnswer t session a).sessions j = session := by
            rw [← ha, heq]
            exact Function.update_self ..
          rw [hupdated, ← hafter]
          exact hsession
        · have hsame : arrivedAt (withAnswer t session a) j = arrivedAt t j := by
            funext k'
            rw [arrivedAt_withAnswer, ← ha, if_neg fun hboth => heq hboth.1.symm,
              List.append_nil]
          have hkept : (withAnswer t session a).sessions j = t.sessions j := by
            rw [← ha]
            exact Function.update_of_ne heq ..
          rw [hkept, hsame]
          exact hl.sessions j hj
      · intro a' ha'
        rcases List.mem_append.mp ha' with ha' | ha'
        · exact hl.responder_ne a' ha'
        · rw [List.mem_singleton.mp ha', ← ha]
          exact hne.symm
      · show ((t.answered ++ [a]).map _).Nodup
        rw [List.map_append, List.nodup_append]
        refine ⟨hl.distinct, List.nodup_singleton _, ?_⟩
        rintro key hkey key' hkey' rfl
        obtain ⟨a', ha', rfl⟩ := List.mem_map.mp hkey
        have hkey := List.mem_singleton.mp hkey'
        rw [← ha] at hkey
        simp only [Prod.mk.injEq] at hkey
        exact hnew a' ha' hkey
      · intro a' ha' hhonest peer hash hecho
        rcases List.mem_append.mp ha' with ha' | ha'
        · exact hgrows _ _ (hl.given a' ha' hhonest peer hash hecho)
        · -- an honest party's echo is one it has given
          rw [List.mem_singleton.mp ha', ← ha] at hhonest hecho ⊢
          rw [← ha] at hgrows
          cases response with
          | error failure => cases hecho
          | ok hash' =>
              cases hecho
              simp only at hhonest
              simp only [Net.mayRespond, hhonest, Bool.not_true, Bool.false_or] at hmay
              exact hgrows r _ (mem_of_echoes hmay)

omit [Blake2s256] in
theorem idxOf_peers (cfg : Config P κ n) (j : Fin n) :
    (List.ofFn cfg.peers).idxOf (cfg.peers j) = j :=
  idxOf_ofFn cfg.peers_injective j

omit [Blake2s256] in
/-- The receiver's proxy writes the index that the net delivers, whatever
stood in its place. -/
theorem forwardOrReject_of_party (cfg : Config P κ n) (i j : Fin n)
    {m : IncomingRequest P (Handle n)}
    (htype : m.context.messageType = .computation)
    (hsession : m.context.sessionId = cfg.sessionId)
    (hpeer : m.peerId = cfg.peers i) (hparty : m.peerIndex = asU16 i) (peerIndex queued : Nat)
    (hroom : queued < proxyBuffer + 1) :
    ReceiverProxy.forwardOrReject { m with peerIndex := peerIndex } cfg.sessionId (cfg.peerset j)
      queued = .sent m := by
  have hmem : cfg.peers i ∈ (cfg.peerset j).peers := List.mem_ofFn.mpr ⟨i, rfl⟩
  have hindex : (cfg.peerset j).indexOf m.peerId = some m.peerIndex := by
    rw [hpeer, hparty, indexOf_eq_some_of_mem hmem]
    show some (asU16 ((List.ofFn cfg.peers).idxOf (cfg.peers i))) = _
    rw [idxOf_peers cfg i]
  simp [ReceiverProxy.forwardOrReject, ReceiverProxy.shouldForwardMessage, htype, hsession, hindex,
    hroom]

omit [Blake2s256] in
/-- A session that runs at the start is as the worker makes it. -/
theorem new_of_startSession {cfg : Config P κ n} {j : Fin n} {w : WrapExecution P (Handle n) κ}
    (h : (cfg.startSession j).state = .running w) :
    WrapExecution.new n cfg.sessionId cfg.protocolId (cfg.peerset j) (cfg.rpcCaller j)
      = .ok w := by
  unfold Config.startSession at h
  simp only at h
  split at h
  · rename_i hnew
    cases h
    exact hnew
  · cases h

/-- Nothing has been said at the start. -/
theorem netLedger_start (cfg : Config P κ n) : NetLedger cfg cfg.start := by
  refine ⟨fun j _ => ?_, nofun, List.nodup_nil, nofun⟩
  refine ⟨⟨nofun, nofun, fun k => Nat.zero_le _, nofun⟩, .nil n, fun k => List.nil_prefix, ?_⟩
  intro w hw
  obtain ⟨s₀, hs₀, hw₀⟩ := Except.bind_eq_ok.mp (new_of_startSession hw)
  cases hw₀
  refine ⟨?_, .new n, fun k => rfl⟩
  rintro s ⟨⟩
  obtain ⟨_, _, hisNew⟩ := isNew_of_new_eq_ok hs₀
  refine ⟨⟨⟨nofun, nofun, fun k => Nat.zero_le _, nofun⟩, ?_, ?_, ?_, nofun,
    fun k _ => rfl⟩, (completion_new hs₀).1⟩
  · rw [hisNew.i_eq]
    exact congrArg asU16 (idxOf_peers cfg j)
  · rw [hisNew.fromNetwork_eq]
    nofun
  · rw [hisNew.pendingIncoming_eq]
    intro key m hm
    rw [Std.TreeMap.getElem?_emptyc] at hm
    cases hm

/-- The ledger holds in every state of every run. -/
theorem netLedger_of_reach {cfg : Config P κ n} {t : Net P κ n}
    (h : Reach (Net.step cfg) Always cfg.start t) : NetLedger cfg t :=
  h.invariant (netLedger_start cfg) fun _ _ _ hl _ hstep => netLedger_step hl hstep

end Net

end FrostMpcTss.Proofs
