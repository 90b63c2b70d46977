import FrostMpcTss.Proofs.EchoAgreement
import FrostMpcTss.Proofs.Rounds

/-!
# `FrostMpcTss.Proofs.NoFalseAlarm`: honest parties raise no alarm

`InconsistentEcho` has two sources. `hashGroup` finds a sender twice in
a complete group, or an echo differs from the local hash. If all parties
are honest, neither can happen, in whatever order messages and echoes
are delivered.

* A complete group has no sender twice (`nodup_of_gather`): of the
  remotes one round is handed on for an id, of the own broadcasts one.
  With more than `2 ^ 16` parties a group never becomes complete.
* The groups two parties hash for an id hold the payloads their senders
  broadcast, in the order of the senders, and so they have one hash
  (`echoHash_eq`). An echo is such a hash.
-/

set_option autoImplicit false

namespace FrostMpcTss.Proofs

open Lib Network Service FrostMpcTss.Session
open Service.EchoGadget

section Alarm

variable {P ρ κ : Type} [Blake2s256]

/-- What the gadget finds when it returns `InconsistentEcho`. -/
inductive Alarm (g : EchoGadget P ρ) (responses : Nat → ResponseRx P) : Prop where
  | senderTwice {k : Nat} {group : List (EchoMessage ρ)} : g.round = .gather k group →
      group.length = g.n → ¬ (group.map (·.sender)).Nodup → Alarm g responses
  | differs {k respRx : Nat} {echoHash hash : Bytes} {echoHashes rest : List (RemoteEcho P)}
      {echo : RemoteEcho P} {peer : P} :
      g.round = .responses k echoHash respRx echoHashes →
      (responses respRx).queue = echo :: rest → .ok (peer, hash) ∈ echoHashes ++ [echo] →
      hash ≠ echoHash → Alarm g responses

omit [Blake2s256] in
/-- The comparison stops at an echo that differs. -/
theorem differs_of_checkEchoes {echoHash : Bytes} {index i : Nat}
    {echoHashes : List (RemoteEcho P)}
    (h : checkEchoes echoHash index echoHashes = some (.inconsistentEcho i)) :
    ∃ peer hash, .ok (peer, hash) ∈ echoHashes ∧ hash ≠ echoHash := by
  induction echoHashes generalizing index with
  | nil => cases h
  | cons e rest ih =>
      cases e with
      | error failure => cases h
      | ok pair =>
          obtain ⟨peer, hash⟩ := pair
          by_cases heq : hash = echoHash
          · rw [checkEchoes, if_neg (not_not.mpr heq)] at h
            obtain ⟨peer', hash', hmem, hne⟩ := ih h
            exact ⟨peer', hash', List.mem_cons_of_mem _ hmem, hne⟩
          · exact ⟨peer, hash, List.mem_cons_self, heq⟩

/-- `InconsistentEcho` has one of the two causes. -/
theorem alarm_of_failed {g : EchoGadget P ρ} {rx : List (EchoMessage ρ)} {rxClosed : Bool}
    {responses : Nat → ResponseRx P} {gone : ρ → Bool} {i : Nat}
    (h : g.step rx rxClosed responses gone = .failed (.inconsistentEcho i)) :
    Alarm g responses := by
  have hsteps := steps_step g rx rxClosed responses gone
  rw [h] at hsteps
  cases hsteps with
  | failed hfails =>
      cases hfails with
      | closed _ hother => exact absurd rfl (hother i)
      | senderTwice hround hfull htwice => exact .senderTwice hround hfull htwice
      | echoes hround hqueue _ hcheck =>
          obtain ⟨peer, hash, hmem, hne⟩ := differs_of_checkEchoes hcheck
          exact .differs hround hqueue hmem hne

/-- Only the gadget raises the alarm. -/
theorem alarm_of_step [DecidableEq P] {t t' : Session P ρ κ} {l : WrapLabel P ρ} {i : Nat}
    (hc : ∀ s echoTx, t.execution = some (s, echoTx) → Completion s)
    (h : t.step l = some t') (halarm : t'.state = .returned (.error (.inconsistentEcho i))) :
    ∃ w, t.state = .running w ∧ Alarm w.echo w.responses := by
  obtain ⟨w, state, effects, hw, hstep, rfl⟩ := Session.step_eq_some.mp h
  have halarm : state = .returned (.error (.inconsistentEcho i)) := halarm
  refine ⟨w, hw, ?_⟩
  cases l with
  | deliver m =>
      obtain ⟨s, _, heq⟩ := Option.map_eq_some_iff.mp hstep
      cases heq
      cases halarm
  | echoResponse respRx echo => cases hstep; cases halarm
  | closeResponses respRx => cases hstep; cases halarm
  | pollComputation now turn =>
      obtain ⟨s, hfilter, heq⟩ := Option.map_eq_some_iff.mp hstep
      have hs := (Option.filter_eq_some_iff.mp hfilter).1
      have halarm : (w.pollComputation s now turn).1
          = .returned (.error (.inconsistentEcho i)) := by
        rw [heq]
        exact halarm
      unfold WrapExecution.pollComputation at halarm
      split at halarm
      · cases halarm
      · split at halarm <;> cases halarm
      · -- the execution's own error is another one
        rename_i e _ effects hpoll
        cases halarm
        have hexec := execution_eq_some.mpr ⟨w, hw, hs, rfl⟩
        obtain ⟨r, _, st, _, _, _, _, _, hreport⟩ := ready_cases (hc s _ hexec) hpoll
        cases r <;> cases hreport
      · cases halarm
  | pollEcho gone =>
      simp only [WrapExecution.step] at hstep
      split at hstep
      · cases hstep
      · unfold WrapExecution.pollEcho at hstep
        cases hgadget : w.echo.step w.echoRx w.computation.isNone w.responses gone with
        | failed e =>
            rw [hgadget] at hstep
            cases hstep
            cases halarm
            exact alarm_of_failed hgadget
        | pending => rw [hgadget] at hstep; cases hstep
        | finished =>
            simp only [hgadget] at hstep
            split at hstep <;> (cases hstep; cases halarm)
        | _ => rw [hgadget] at hstep; cases hstep; cases halarm

end Alarm

section Groups

variable {P ρ κ : Type} {D : IncomingRequest P ρ → Prop} {size : Nat}

/-- For an id one round is handed on. -/
theorem countP_remotesIn_le {rounds : List (List (Nat × IncomingRequest P ρ))}
    {trace : List (Effect P ρ κ)} (h : Rounds D size rounds trace) (k : Nat) :
    (remotesIn trace).countP (·.messageId = k) ≤ size := by
  rw [h.gadget]
  have hlength : ∀ round ∈ rounds, round.length ≤ size := by
    intro round hround
    obtain ⟨k, hk⟩ := List.mem_iff_getElem?.mp hround
    exact Nat.le_of_eq (h.complete k round hk).length
  clear h
  induction rounds using List.reverseRecOn with
  | nil => exact Nat.zero_le _
  | append_singleton rounds round ih =>
      rw [echoesOf_concat, List.countP_append, List.countP_map]
      by_cases hk : rounds.length = k
      · -- the last round is the one, and the ids before it are smaller
        have hnone : (echoesOf rounds).countP (·.messageId = k) = 0 := by
          rw [List.countP_eq_zero]
          intro m hm hid
          obtain ⟨_, hround, _⟩ := mem_echoesOf.mp hm
          have hlt := (List.getElem?_eq_some_iff.mp hround).1
          have hid := of_decide_eq_true hid
          omega
        rw [hnone, Nat.zero_add]
        exact List.countP_le_length.trans
          (hlength round (List.mem_append_right _ List.mem_cons_self))
      · have hnone : round.countP ((fun m : EchoMessage ρ => decide (m.messageId = k)) ∘
            incomingEcho rounds.length) = 0 := by
          rw [List.countP_eq_zero]
          intro r _ hid
          exact hk (of_decide_eq_true hid)
        rw [hnone, Nat.add_zero]
        exact ih fun round hround => hlength round (List.mem_append_left _ hround)

end Groups

section Honest

variable {P κ : Type} {n : Nat} [Blake2s256] {t : Net P κ n} {j : Fin n}

/-- The rounds of every party. -/
def NetRounds (cfg : Config P κ n) (t : Net P κ n) : Prop :=
  ∀ j, cfg.honest j = true →
    SessionRounds (Known cfg t j) (asU16 n - 1) (t.sessions j)

/-- A complete group has no sender twice. -/
theorem nodup_of_gather {cfg : Config P κ n} {w : WrapExecution P (Handle n) κ} {k : Nat}
    {group : List (EchoMessage (Handle n))} (hl : NetLedger cfg t) (hr : NetRounds cfg t)
    (hj : cfg.honest j = true) (hw : (t.sessions j).state = .running w)
    (hround : w.echo.round = .gather k group) (hlen : group.length = n) :
    (group.map (·.sender)).Nodup := by
  have hsession := hl.sessions j hj
  have hgadget := (hsession.running w hw).gadget
  have hids := hgadget.gathering k group hround
  obtain ⟨rounds, hrounds⟩ := (hr j hj).trace.rounds
  -- everything in the group has entered
  have hsub : group.Subperm (enteredIn (t.sessions j).trace) := by
    have hconserved := hgadget.conserved
    rw [hround] at hconserved
    refine (List.Sublist.subperm ?_).trans hconserved.symm.subperm
    exact (List.sublist_append_left _ _).trans (List.sublist_append_right _ _)
  have hremotes : (group.filter fun m => !isOutgoing m).Subperm
      (remotesIn (t.sessions j).trace) := hsub.filter _
  have hown : (group.filter isOutgoing).length ≤ 1 := by
    rw [← List.countP_eq_length_filter]
    refine Nat.le_trans (Nat.le_of_eq ?_)
      ((hsub.countP_le fun m => isOutgoing m && m.messageId = k).trans (hsession.exec.own_le k))
    refine List.countP_congr fun m hm => ?_
    simp [hids m hm]
  have hsplit := List.filter_append_perm isOutgoing group
  -- so there are fewer than 2 ^ 16 parties
  have hsmall : n < 2 ^ 16 := by
    have hcount : (group.filter fun m => !isOutgoing m).length ≤ asU16 n - 1 := by
      refine Nat.le_trans ?_ ((hremotes.countP_le (·.messageId = k)).trans
        (countP_remotesIn_le hrounds k))
      refine Nat.le_of_eq (List.countP_eq_length.mpr fun m hm => ?_).symm
      exact decide_eq_true (hids m (List.mem_of_mem_filter hm))
    have htotal := hsplit.length_eq
    rw [List.length_append, hlen] at htotal
    have hlt : asU16 n < 2 ^ 16 := Nat.mod_lt _ (by decide)
    omega
  have hasU16 : ∀ s : Fin n, asU16 s = s :=
    fun s => Nat.mod_eq_of_lt (Nat.lt_trans s.isLt hsmall)
  refine ((hsplit.map (·.sender)).nodup_iff).mp ?_
  rw [List.map_append, List.nodup_append]
  refine ⟨?_, ?_, ?_⟩
  · -- one own broadcast at most
    cases hfilter : group.filter isOutgoing with
    | nil => exact List.nodup_nil
    | cons m rest =>
        rw [hfilter, List.length_cons] at hown
        rw [List.length_eq_zero_iff.mp (Nat.le_zero.mp (Nat.le_of_succ_le_succ hown))]
        exact List.nodup_singleton _
  · have hkeys : ((group.filter fun m => !isOutgoing m).map
        fun m => (m.messageId, m.sender)).Nodup := by
      obtain ⟨part, hperm, hpart⟩ := hremotes
      exact ((hperm.map _).nodup_iff).mp (hrounds.nodup.sublist (hpart.map _))
    refine List.Nodup.of_map (fun sender => (k, sender)) ?_
    rw [List.map_map]
    refine (List.map_congr_left fun m hm => ?_) ▸ hkeys
    rw [hids m (List.mem_of_mem_filter hm)]
    rfl
  · -- a remote's number is not the own one
    rintro sender hsender sender' hsender' rfl
    obtain ⟨m, hm, rfl⟩ := List.mem_map.mp hsender
    obtain ⟨m', hm', heq⟩ := List.mem_map.mp hsender'
    obtain ⟨hmem, hout⟩ := List.mem_filter.mp hm
    obtain ⟨hmem', hin⟩ := List.mem_filter.mp hm'
    rcases hsession.exec.entered m (mem_enteredIn.mp (hsub.subset hmem)) with
      ⟨_, hnumber, _⟩ | ⟨req, _, _, rfl⟩
    · rcases hsession.exec.entered m' (mem_enteredIn.mp (hsub.subset hmem')) with
        ⟨hresponse, _, _⟩ | ⟨req, ⟨s, hne, hindex, _⟩, _, rfl⟩
      · rw [isOutgoing, hresponse] at hin
        cases hin
      · have heq : req.peerIndex + 1 = m.sender := heq
        rw [hindex, hnumber, hasU16, hasU16] at heq
        exact hne (Fin.ext (Nat.succ.inj heq))
    · cases hout

/-- The groups two parties hash for an id have one hash, if all senders
are honest. -/
theorem echoHash_eq {cfg : Config P κ n} {A B : Fin n} {k : Nat}
    {group group' : List (EchoMessage (Handle n))} {echoHash echoHash' : Bytes}
    (hl : NetLedger cfg t) (hhonest : ∀ j, cfg.honest j = true)
    (h : .hashed k group echoHash ∈ (t.sessions A).trace)
    (h' : .hashed k group' echoHash' ∈ (t.sessions B).trace) :
    group.map (·.payload) = group'.map (·.payload) ∧ echoHash = echoHash' := by
  have hsenders := senders_of_hashed hl (hhonest A) h
  have hsenders' := senders_of_hashed hl (hhonest B) h'
  have hsame : group.map (·.payload) = group'.map (·.payload) := by
    refine List.ext_getElem? fun i => ?_
    rw [← payloadFrom_eq hsenders, ← payloadFrom_eq hsenders']
    by_cases hi : i < n
    · exact payloadFrom_honest (s := ⟨i, hi⟩) hl (hhonest A) (hhonest B) (hhonest _) h h'
    · rw [payloadFrom_eq_none hsenders (by omega), payloadFrom_eq_none hsenders' (by omega)]
  refine ⟨hsame, ?_⟩
  rw [((hl.sessions A (hhonest A)).gadget.hashed k group echoHash h).hash,
    ((hl.sessions B (hhonest B)).gadget.hashed k group' echoHash' h').hash, payloads, payloads,
    List.flatMap_def, List.flatMap_def, hsame]

/-- An echo that arrived is the hash of the responder's group. -/
theorem hashed_of_arrived {cfg : Config P κ n} {k : Nat} {peer : P} {hash : Bytes}
    (hl : NetLedger cfg t) (hhonest : ∀ j, cfg.honest j = true)
    (h : .ok (peer, hash) ∈ arrivedAt t j k) :
    ∃ r group, .hashed k group hash ∈ (t.sessions r).trace := by
  obtain ⟨a, ha, hecho⟩ := List.mem_map.mp h
  obtain ⟨hmem, hkey⟩ := List.mem_filter.mp ha
  simp only [Bool.and_eq_true, decide_eq_true_eq] at hkey
  have hgiven := hl.given a hmem (hhonest _) peer hash hecho
  rw [hkey.2] at hgiven
  exact ⟨a.responder, hashed_of_echo hl (hhonest _) hgiven⟩

/-- No party stands before an alarm. -/
theorem not_alarm {cfg : Config P κ n} {w : WrapExecution P (Handle n) κ} (hl : NetLedger cfg t)
    (hr : NetRounds cfg t) (hhonest : ∀ j, cfg.honest j = true)
    (hw : (t.sessions j).state = .running w) : ¬ Alarm w.echo w.responses := by
  have hsession := hl.sessions j (hhonest j)
  have hlive := hsession.running w hw
  intro halarm
  cases halarm with
  | senderTwice hround hlen htwice =>
      exact htwice (nodup_of_gather hl hr (hhonest j) hw hround
        (hlen.trans hlive.gadget.size))
  | @differs k respRx echoHash hash echoHashes rest echo peer hround hqueue hmem hne =>
      obtain rfl := hlive.gadget.channel hsession.gadget hsession.exec hround
      obtain ⟨group, hgroup, _⟩ := hlive.gadget.awaiting _ _ _ _ hround
      have harrived : .ok (peer, hash) ∈ arrivedAt t j respRx := by
        rw [← hlive.echoes respRx, hround, hqueue]
        refine List.mem_append_right _ ?_
        show _ ∈ (if respRx = respRx then echoHashes else []) ++ _
        rw [if_pos rfl]
        rcases List.mem_append.mp hmem with hmem | hmem
        · exact List.mem_append_left _ hmem
        · rw [List.mem_singleton.mp hmem]
          exact List.mem_append_right _ List.mem_cons_self
      obtain ⟨r, group', hgroup'⟩ := hashed_of_arrived hl hhonest harrived
      exact hne (echoHash_eq hl hhonest hgroup' hgroup).2

variable [DecidableEq P]

omit [Blake2s256] in
theorem netRounds_start (cfg : Config P κ n) : NetRounds cfg cfg.start := by
  intro j _
  have hsize : (cfg.peerset j).size = n := List.length_ofFn
  refine ⟨⟨⟨[], rfl, rfl, nofun⟩, 0, rfl⟩, fun s echoTx hs => ?_⟩
  have hnew : ProtocolExecution.new cfg.sessionId cfg.protocolId (cfg.peerset j)
      (cfg.rpcCaller j) = .ok s :=
    new_of_execution (fun w => new_of_startSession) hs
  have hledger := roundLedger_new (D := Known cfg cfg.start j) hnew
  rw [hsize] at hledger
  exact ⟨hledger, (completion_new hnew).1⟩

/-- A step of one party keeps the rounds of all. -/
theorem NetRounds.update {cfg : Config P κ n} {l : WrapLabel P (Handle n)}
    {session : Session P (Handle n) κ} (hl : NetLedger cfg t) (hr : NetRounds cfg t)
    (hstep : (t.sessions j).step l = some session) (answered : List (Answer P n)) :
    NetRounds cfg
      { sessions := Function.update t.sessions j session, answered := answered } := by
  have hgrows := grows_update answered hstep
  intro j' hj'
  refine SessionRounds.mono (fun _ => Known.mono hgrows) ?_
  by_cases heq : j' = j
  · subst heq
    show SessionRounds _ _ (Function.update t.sessions j' session j')
    rw [Function.update_self]
    refine sessionRounds_step (hr j' hj') ?_ hstep
    intro now turn s echoTx m _ hs hhead
    -- what waits in the queue has been delivered
    obtain ⟨w, hw, hsome, _⟩ := execution_eq_some.mp hs
    exact (((hl.sessions j' hj').running w hw).exec s hsome).1.queued m
      (List.mem_of_mem_head? hhead)
  · show SessionRounds _ _ (Function.update t.sessions j session j')
    rw [Function.update_of_ne heq]
    exact hr j' hj'

/-- Every step keeps the rounds of all parties. -/
theorem netRounds_step {cfg : Config P κ n} {t' : Net P κ n} {l : NetLabel n} (hl : NetLedger cfg t)
    (hr : NetRounds cfg t) (h : t.step cfg l = some t') : NetRounds cfg t' := by
  cases netSteps_step h with
  | inner _ hstep _ _ => exact hr.update hl hstep _
  | answer _ _ _ _ hstep => exact hr.update hl hstep _

/-- No party has returned `InconsistentEcho`. -/
def Unalarmed (t : Net P κ n) : Prop :=
  ∀ j i, (t.sessions j).state ≠ .returned (.error (.inconsistentEcho i))

omit [Blake2s256] in
theorem unalarmed_start (cfg : Config P κ n) : Unalarmed cfg.start := by
  intro j i h
  have h : (cfg.startSession j).state = _ := h
  unfold Config.startSession at h
  simp only at h
  split at h <;> cases h

/-- No step of honest parties raises an alarm. -/
theorem unalarmed_step {cfg : Config P κ n} {t' : Net P κ n} {l : NetLabel n}
    (hhonest : ∀ j, cfg.honest j = true) (hl : NetLedger cfg t) (hr : NetRounds cfg t)
    (hquiet : Unalarmed t) (h : t.step cfg l = some t') : Unalarmed t' := by
  have hupdate : ∀ (j : Fin n) (l : WrapLabel P (Handle n)) (session : Session P (Handle n) κ)
      (answered : List (Answer P n)), (t.sessions j).step l = some session →
      Unalarmed { sessions := Function.update t.sessions j session, answered := answered } := by
    intro j l session answered hstep j' i hstate
    have hstate : (Function.update t.sessions j session j').state = _ := hstate
    by_cases heq : j' = j
    · subst heq
      rw [Function.update_self] at hstate
      obtain ⟨w, hw, halarm⟩ := alarm_of_step
        (fun s echoTx hs => ((hr j' (hhonest j')).running s echoTx hs).2) hstep hstate
      exact not_alarm hl hr hhonest hw halarm
    · rw [Function.update_of_ne heq] at hstate
      exact hquiet j' i hstate
  cases netSteps_step h with
  | inner _ hstep _ _ => exact hupdate _ _ _ _ hstep
  | answer _ _ _ _ hstep => exact hupdate _ _ _ _ hstep

/-- What a run of honest parties shows. -/
structure NoFalseAlarm (cfg : Config P κ n) (t : Net P κ n) : Prop where
  /-- The groups of an id hold the same payloads and have one hash. -/
  agreed : ∀ A B k group group' echoHash echoHash',
    .hashed k group echoHash ∈ (t.sessions A).trace →
    .hashed k group' echoHash' ∈ (t.sessions B).trace →
    group.map (·.payload) = group'.map (·.payload) ∧ echoHash = echoHash'
  /-- A group has the numbers of all parties, in order, and under each
  number what that party broadcast. -/
  numbered : ∀ A k group echoHash, .hashed k group echoHash ∈ (t.sessions A).trace →
    group.map (·.sender) = List.range' 1 n ∧
    ∀ m ∈ group, ∃ s : Fin n, m.sender = s.val + 1 ∧
      ∃ peers, .multicast k m.payload peers ∈ (t.sessions s).trace
  /-- The number of a sender is the one that the receiver's proxy writes,
  whatever stood in its place. -/
  proxied : ∀ s r k payload peerIndex queued, queued < proxyBuffer + 1 →
    ReceiverProxy.forwardOrReject { cfg.broadcastRequest s k payload with peerIndex := peerIndex }
      cfg.sessionId (cfg.peerset r) queued = .sent (cfg.broadcastRequest s k payload)
  unalarmed : Unalarmed t

/-- Take any run of honest parties: messages and echoes are delivered in
any order, and requests may even fail. No party returns
`InconsistentEcho`, and all compute the same hash for an id. The index
that a delivered broadcast carries is the one that the proxy finds. -/
theorem noFalseAlarm {cfg : Config P κ n} {t : Net P κ n}
    (hhonest : ∀ j, cfg.honest j = true)
    (hreach : Reach (Net.step cfg) Always cfg.start t) : NoFalseAlarm cfg t := by
  obtain ⟨hl, _, hquiet⟩ : NetLedger cfg t ∧ NetRounds cfg t ∧ Unalarmed t := by
    refine hreach.invariant (I := fun t => NetLedger cfg t ∧ NetRounds cfg t ∧ Unalarmed t)
      ⟨netLedger_start cfg, netRounds_start cfg, unalarmed_start cfg⟩ ?_
    rintro t l t' ⟨hl, hr, hquiet⟩ _ hstep
    exact ⟨netLedger_step hl hstep, netRounds_step hl hr hstep,
      unalarmed_step hhonest hl hr hquiet hstep⟩
  refine ⟨fun A B k group group' _ _ h h' => echoHash_eq hl hhonest h h', ?_,
    fun s r _ _ => forwardOrReject_of_party cfg s r rfl rfl rfl rfl, hquiet⟩
  intro A k group echoHash h
  refine ⟨senders_of_hashed hl (hhonest A) h, fun m hm => ?_⟩
  obtain ⟨s, hsender, hsent⟩ := multicast_of_hashed hl (hhonest A) h hm
  rw [asU16_eq_of_hashed hl (hhonest A) h s] at hsender
  exact ⟨s, hsender, hsent (hhonest s)⟩

end Honest

namespace ThreeHonest

open scoped IdentityHash

local instance three_neZero : NeZero 3 := ⟨by decide⟩

def config : Config Nat Nat 3 := .numbered 3 1

/-- A poll in which the agent does nothing. -/
def idlePoll (j : Fin 3) : NetLabel 3 :=
  .poll j 0 { received := 0, sent := [], result := none }

/-- A party broadcasts its payload. -/
def speaks (j : Fin 3) (payload : Bytes) : List (NetLabel 3) :=
  [.poll j 0 { received := 0, sent := [⟨payload, none⟩], result := none }, idlePoll j]

/-- A party takes two broadcasts, and its gadget hashes the round. -/
def hears (j first second : Fin 3) (payload payload' : Bytes) : List (NetLabel 3) :=
  [.broadcast first j 0 payload, idlePoll j, .broadcast second j 0 payload', idlePoll j] ++
    List.replicate 5 (.echo j)

/-- A round of three. The first two parties hear the others in opposite
orders, and the first one gets both echoes. -/
def labels : List (NetLabel 3) :=
  speaks 0 [10] ++ speaks 1 [20] ++ speaks 2 [30] ++ hears 0 2 1 [30] [20] ++
    hears 1 0 2 [10] [30] ++ hears 2 0 1 [10] [20] ++
    [.respond 0 1 0 (.ok [10, 20, 30]), .echo 0, .respond 0 2 0 (.ok [10, 20, 30]), .echo 0]

/-- Three honest parties verify a round. -/
theorem noFalseAlarm_threeHonest :
    ∃ t, run (Net.step config) config.start labels = some t ∧
      (∃ echoes, .verified 0 [10, 20, 30] echoes ∈ (t.sessions 0).trace) ∧
      NoFalseAlarm config t := by
  obtain ⟨t, hrun, hverified⟩ : ∃ t, run (Net.step config) config.start labels = some t ∧
      ∃ echoes, .verified 0 [10, 20, 30] echoes ∈ (t.sessions 0).trace :=
    ⟨_, rfl, [.ok (1, [10, 20, 30]), .ok (2, [10, 20, 30])],
      List.mem_of_getElem? (i := 9) rfl⟩
  exact ⟨t, hrun, hverified, noFalseAlarm (fun _ => rfl) (reach_of_run labels hrun)⟩

end ThreeHonest

end FrostMpcTss.Proofs
