import FrostMpcTss.Proofs.PendingQueue
import FrostMpcTss.Proofs.VerifiedAnswer
import FrostMpcTss.Proofs.WorkerPanics

/-!
# `FrostMpcTss.Proofs.RequestAnswers`: every request is answered once

A request's caller waits on `pending_response`. `callersHeld` are the
callers whose requests a room still holds: in the queue, in the one-shot
of a channel, in the awaited negotiation or in an execution. The books of
a room are balanced if every caller taken was answered or is held, once.

Two branches drop a request without an answer (`dropsRequest`). A
`Phase1Channel` looks for a message of the network before it looks at its
one-shot, and a proposal takes the channel away with the request in it.
And `wrap_execution` returns when the echo gadget fails, without the
execution having answered. A panic drops everything.

The books stay balanced in the runs without such steps. Whether a step is
one of them is read off the state before it and off its input.
-/

set_option autoImplicit false

namespace FrostMpcTss.Proofs

open Lib Network Service
open Service.Room

variable {protocolId : Nat}

section Sessions

variable {P ρ κ : Type} {wrap : WrapExecution P ρ κ} {effects : List (Effect P ρ κ)}
  {state : WrapState P ρ κ}

/-- The caller a session has to answer. -/
def owedBy (wrap : WrapExecution P ρ κ) : List κ :=
  (wrap.computation.bind (·.pendingResponse)).toList

/-- The caller a session has to answer, while it runs. -/
def stillOwed : WrapState P ρ κ → List κ
  | .running wrap => owedBy wrap
  | _ => []

def StateWellRun : WrapState P ρ κ → Prop
  | .running wrap => WellRun wrap
  | _ => True

theorem owedBy_congr {wrap' : WrapExecution P ρ κ} (h : wrap'.computation = wrap.computation) :
    owedBy wrap' = owedBy wrap := by
  rw [owedBy, h]
  rfl

theorem WellRun.congr {wrap' : WrapExecution P ρ κ} (hrun : WellRun wrap)
    (h : wrap'.computation = wrap.computation) : WellRun wrap' := by
  intro s hs
  rw [h] at hs
  exact hrun s hs

/-- A session starts with its caller. -/
theorem owedBy_new [DecidableEq P] {n : Nat} {sessionId : SessionId} {peerset : Peerset P}
    {pendingResponse : Option κ}
    (h : WrapExecution.new n sessionId protocolId peerset pendingResponse = .ok wrap) :
    owedBy wrap = pendingResponse.toList ∧ WellRun wrap := by
  obtain ⟨s, hs, hwrap⟩ := Except.bind_eq_ok.mp h
  cases hwrap
  obtain ⟨hcompletion, hresponse⟩ := completion_new hs
  refine ⟨congrArg Option.toList hresponse, fun s' hs' => ?_⟩
  cases hs'
  exact hcompletion

/-- The poll that returns answers the caller. -/
theorem answersIn_ready [DecidableEq P] {s : ProtocolExecution P ρ κ}
    {echoTx echoTx' : List (EchoMessage ρ)} {now : Nat} {turn : AgentTurn}
    {result : Except Error Unit} (hc : Completion s)
    (h : s.poll echoTx now turn = .ready result echoTx' effects) :
    (answersIn effects).map Prod.fst = s.pendingResponse.toList := by
  obtain ⟨r, _, st, _, _, _, _, hout, hreport⟩ := ready_cases hc h
  have hframe := frame_takesOutgoing now hout
  have hnone : answersIn st.effects = [] := hframe.answers
  have hresponse : st.exec.pendingResponse = s.pendingResponse := hframe.pendingResponse
  rw [← hresponse]
  rcases (report_effects hreport).2 with ⟨hcaller, rfl⟩ | ⟨tx, hcaller, rfl⟩
  · rw [hnone, hcaller]
    rfl
  · rw [answersIn_append, hnone, hcaller]
    rfl

/-- A poll answers its caller when it returns, and owes the answer until
then. -/
theorem owed_pollComputation [DecidableEq P] {s : ProtocolExecution P ρ κ} {now : Nat}
    {turn : AgentTurn} (hs : wrap.computation = some s) (hc : Completion s)
    (h : wrap.pollComputation s now turn = (state, effects))
    (hpanic : ∀ why, state ≠ .panicked why) :
    owedBy wrap = (answersIn effects).map Prod.fst ++ stillOwed state ∧ StateWellRun state := by
  have howed : owedBy wrap = s.pendingResponse.toList := by
    rw [owedBy, hs]
    rfl
  rw [howed]
  unfold WrapExecution.pollComputation at h
  cases hpoll : s.poll wrap.echoRx now turn with
  | pending st =>
      rw [hpoll] at h
      cases h
      obtain ⟨hcompletion, hresponse⟩ := completion_poll hc hpoll
      have hnone : answersIn st.effects = [] := (logged_pending hc.two_le hpoll).2
      refine ⟨?_, fun s' hs' => ?_⟩
      · rw [hnone, ← hresponse]
        rfl
      · cases hs'
        exact hcompletion
  | ready result echoTx' effects' =>
      have hanswers := answersIn_ready hc hpoll
      rw [hpoll] at h
      cases result with
      | error e =>
          cases h
          exact ⟨hanswers.symm.trans (List.append_nil _).symm, trivial⟩
      | ok u =>
          simp only at h
          split at h
          · cases h
            exact ⟨hanswers.symm.trans (List.append_nil _).symm, trivial⟩
          · cases h
            exact ⟨hanswers.symm.trans (List.append_nil _).symm, nofun⟩
  | panic why =>
      rw [hpoll] at h
      cases h
      exact absurd rfl (hpanic why)

/-- The gadget answers nobody, and if it does not fail the execution goes
on. -/
theorem owed_pollEcho [Blake2s256] (hrun : WellRun wrap) {gone : ρ → Bool}
    (h : wrap.pollEcho gone = some (state, effects)) (hpanic : ∀ why, state ≠ .panicked why)
    (hecho : echoFails wrap.echo wrap.responses = true → owedBy wrap = []) :
    owedBy wrap = stillOwed state ∧ StateWellRun state := by
  have hgoes : ∀ wrap' : WrapExecution P ρ κ, wrap'.computation = wrap.computation →
      owedBy wrap = stillOwed (.running wrap') ∧ StateWellRun (.running wrap') :=
    fun wrap' hcomp => ⟨(owedBy_congr hcomp).symm, hrun.congr hcomp⟩
  have hnone : wrap.computation.isNone = true → owedBy wrap = [] := by
    intro hisNone
    rw [owedBy, Option.isNone_iff_eq_none.mp hisNone]
    rfl
  unfold WrapExecution.pollEcho at h
  cases hstep : wrap.echo.step wrap.echoRx wrap.computation.isNone wrap.responses gone with
  | pending => rw [hstep] at h; cases h
  | took g rx => rw [hstep] at h; cases h; exact hgoes _ rfl
  | hashed g messageId group echoHash acks => rw [hstep] at h; cases h; exact hgoes _ rfl
  | echoed g respRx => rw [hstep] at h; cases h; exact hgoes _ rfl
  | verified g messageId echoHash respRx echoHashes =>
      rw [hstep] at h; cases h; exact hgoes _ rfl
  | finished =>
      rw [hstep] at h
      simp only at h
      split at h
      · rename_i hisNone
        cases h
        exact ⟨hnone hisNone, trivial⟩
      · cases h
        exact hgoes _ rfl
  | failed e =>
      rw [hstep] at h
      cases h
      exact ⟨(echoFails_of_failed hstep).elim hnone hecho, trivial⟩
  | panic why =>
      rw [hstep] at h
      cases h
      exact absurd rfl (hpanic why)

/-- A step of a session answers the caller or keeps it. -/
theorem owed_step [DecidableEq P] [Blake2s256] {l : WrapLabel P ρ} (hrun : WellRun wrap)
    (hdeliver : ∀ m, l ≠ .deliver m) (h : wrap.step l = some (state, effects))
    (hpanic : ∀ why, state ≠ .panicked why)
    (hecho : ∀ gone, l = .pollEcho gone → echoFails wrap.echo wrap.responses = true →
      owedBy wrap = []) :
    owedBy wrap = (answersIn effects).map Prod.fst ++ stillOwed state ∧ StateWellRun state := by
  cases l with
  | deliver m => exact absurd rfl (hdeliver m)
  | echoResponse respRx echo =>
      cases h
      exact ⟨rfl, hrun.congr rfl⟩
  | closeResponses respRx =>
      cases h
      exact ⟨rfl, hrun.congr rfl⟩
  | pollComputation now turn =>
      obtain ⟨s, hs, heq⟩ := Option.map_eq_some_iff.mp h
      have hs := (Option.filter_eq_some_iff.mp hs).1
      exact owed_pollComputation hs (hrun s hs) heq hpanic
  | pollEcho gone =>
      simp only [WrapExecution.step] at h
      split at h
      · cases h
      · rw [answersIn_pollEcho h]
        exact owed_pollEcho hrun h hpanic (hecho gone rfl)

end Sessions

section Books

variable {P ρ κ : Type} {a : Option (Awaited P ρ κ)} {room : Room P ρ κ} {k : Nat}
  {l : Listener P ρ κ} {x : RunningExecution P ρ κ}

/-- The callers that were answered. -/
def answeredIn (trace : List (WorkerEvent ρ κ)) : List κ :=
  trace.filterMap fun
    | .answered tx _ => some tx
    | _ => none

/-- The callers of the requests taken. -/
def callersIn (trace : List (WorkerEvent ρ κ)) : List κ :=
  (takenIn trace).map senderOf

/-- The caller of the awaited negotiation. -/
def awaitedCaller : Option (Awaited P ρ κ) → List κ
  | some (.negotiation _ c) => [c.pendingResponse]
  | _ => []

/-- The callers whose requests the room holds. -/
def callersHeld (a : Option (Awaited P ρ κ)) (room : Room P ρ κ) : List κ :=
  room.pendingLocal.map senderOf ++ heldIn room.coordination ++ awaitedCaller a
    ++ room.executions.flatMap fun x => owedBy x.wrap

/-- Every caller was answered or is held, as often as it was taken. -/
def Balanced [DecidableEq κ] (a : Option (Awaited P ρ κ)) (room : Room P ρ κ) : Prop :=
  ∀ tx, (callersIn room.trace).count tx
    = (answeredIn room.trace).count tx + (callersHeld a room).count tx

/-- The books of a room. -/
structure Books [DecidableEq κ] (a : Option (Awaited P ρ κ)) (room : Room P ρ κ) : Prop where
  balanced : Balanced a room
  wellRun : ∀ x ∈ room.executions, WellRun x.wrap

def BranchBooks [DecidableEq κ] : Branch P ρ κ → Prop
  | .ok (room, a) => Books a room
  | .error _ => True

theorem answeredIn_append (trace events : List (WorkerEvent ρ κ)) :
    answeredIn (trace ++ events) = answeredIn trace ++ answeredIn events :=
  List.filterMap_append

theorem callersIn_append (trace events : List (WorkerEvent ρ κ)) :
    callersIn (trace ++ events) = callersIn trace ++ callersIn events := by
  rw [callersIn, takenIn_append, List.map_append]
  rfl

theorem answeredIn_responses (answers : Answers ρ) :
    answeredIn (answers.map fun a => (.responded a.1 a.2 : WorkerEvent ρ κ)) = [] := by
  simp [answeredIn]

/-- The worker logs the answers of the execution. -/
theorem answeredIn_eventsOf (effects : List (Effect P ρ κ)) :
    answeredIn (eventsOf effects) = (answersIn effects).map Prod.fst := by
  rw [answeredIn, eventsOf, answersIn, List.filterMap_filterMap, List.map_filterMap]
  refine List.filterMap_congr fun effect _ => ?_
  cases effect <;> rfl

theorem awaitedCaller_none : awaitedCaller (none : Option (Awaited P ρ κ)) = [] := rfl

/-- The four places where a caller can wait. -/
theorem count_callersHeld [DecidableEq κ] (a : Option (Awaited P ρ κ)) (room : Room P ρ κ)
    (tx : κ) :
    (callersHeld a room).count tx
      = (room.pendingLocal.map senderOf).count tx + (heldIn room.coordination).count tx
        + (awaitedCaller a).count tx
        + (room.executions.flatMap fun x => owedBy x.wrap).count tx := by
  simp only [callersHeld, List.count_append]

/-- What the books say after more events: the callers taken and those held
before were answered or are held now. -/
theorem Balanced.step [DecidableEq κ] {a' : Option (Awaited P ρ κ)} {room' : Room P ρ κ}
    {events : List (WorkerEvent ρ κ)} (h : Balanced a room)
    (htrace : room'.trace = room.trace ++ events)
    (hmoves : ∀ tx, (callersIn events).count tx + (callersHeld a room).count tx
      = (answeredIn events).count tx + (callersHeld a' room').count tx) : Balanced a' room' := by
  intro tx
  rw [htrace, callersIn_append, answeredIn_append, List.count_append, List.count_append]
  have hbefore := h tx
  have hmove := hmoves tx
  omega

/-- Answers to inbound requests do not change the books. -/
theorem Books.respond [DecidableEq κ] (h : Books a room) (answers : Answers ρ) :
    Books a (room.respond answers) := by
  refine ⟨h.balanced.step rfl fun tx => ?_, h.wellRun⟩
  rw [answeredIn_responses, callersIn, (onlyAnswers_responses answers).taken]
  rfl

/-- The same requests are held elsewhere. -/
theorem Books.congr [DecidableEq κ] {a' : Option (Awaited P ρ κ)} {room' : Room P ρ κ}
    (h : Books a room) (htrace : room'.trace = room.trace)
    (hexecutions : ∀ x ∈ room'.executions, WellRun x.wrap)
    (hheld : ∀ tx, (callersHeld a room).count tx = (callersHeld a' room').count tx) :
    Books a' room' := by
  refine ⟨fun tx => ?_, hexecutions⟩
  rw [htrace, ← hheld tx]
  exact h.balanced tx

@[simp]
theorem callersIn_took (msg : ServicetoWorkerMsg κ) :
    callersIn [(.took msg : WorkerEvent ρ κ)] = [senderOf msg] := rfl

@[simp]
theorem callersIn_dispatched (msg : ServicetoWorkerMsg κ) :
    callersIn [(.dispatched msg : WorkerEvent ρ κ)] = [] := rfl

@[simp]
theorem callersIn_answered (tx : κ) (result : AgentResult) :
    callersIn [(.answered tx result : WorkerEvent ρ κ)] = [] := rfl

@[simp]
theorem answeredIn_took (msg : ServicetoWorkerMsg κ) :
    answeredIn [(.took msg : WorkerEvent ρ κ)] = [] := rfl

@[simp]
theorem answeredIn_dispatched (msg : ServicetoWorkerMsg κ) :
    answeredIn [(.dispatched msg : WorkerEvent ρ κ)] = [] := rfl

@[simp]
theorem answeredIn_answered (tx : κ) (result : AgentResult) :
    answeredIn [(.answered tx result : WorkerEvent ρ κ)] = [tx] := rfl

/-- The request that is dispatched enters a one-shot or is answered. -/
theorem books_dispatches [DecidableEq κ] {room' : Room P ρ κ} {msg : ServicetoWorkerMsg κ}
    (h : ∀ tx, (callersIn room.trace).count tx
      = (answeredIn room.trace).count tx + (callersHeld none room).count tx
        + [senderOf msg].count tx) (hrun : ∀ x ∈ room.executions, WellRun x.wrap)
    (hdispatches : Dispatches room msg room') : Books none room' := by
  cases hdispatches with
  | sent hheld =>
      refine ⟨fun tx => ?_, hrun⟩
      have hbefore := h tx
      have hcount := hheld.count_eq tx
      rw [← List.singleton_append, List.count_append] at hcount
      simp only [callersIn_append, answeredIn_append, List.count_append, count_callersHeld,
        callersIn_dispatched, answeredIn_dispatched, List.count_nil] at hbefore ⊢
      omega
  | canceled hheld =>
      refine ⟨fun tx => ?_, hrun⟩
      have hbefore := h tx
      simp only [callersIn_append, answeredIn_append, List.count_append, count_callersHeld,
        callersIn_answered, answeredIn_answered, List.count_nil, hheld] at hbefore ⊢
      omega

/-- The head of the queue moves into the one-shot. -/
theorem Books.comeBack [DecidableEq κ] (h : Books none room) (client : ProtocolAgentFactory)
    (fresh : Nat) (c : Phase1Channel P ρ) : Books none (Room.comeBack client room fresh c) := by
  have hlisten : Books none (room.listen c) := by
    refine h.congr rfl h.wellRun fun tx => ?_
    simp [count_callersHeld, Room.listen, heldIn]
  unfold Room.comeBack Room.dispatchPendingLocal
  split
  · exact hlisten
  · cases hpending : (room.listen c).pendingLocal with
    | nil => exact hlisten
    | cons msg rest =>
        have hnext : Books none (dispatchLocalMsg client
            { room.listen c with pendingLocal := rest } fresh msg) := by
          refine books_dispatches (fun tx => ?_) ?_ (dispatches_dispatchLocalMsg _ _ _ _)
          · have hbefore := hlisten.balanced tx
            simp only [count_callersHeld, hpending, List.map_cons] at hbefore ⊢
            rw [← List.singleton_append, List.count_append] at hbefore
            omega
          · exact hlisten.wellRun
        exact hnext

/-- A request that is taken is queued, sent or answered. -/
theorem books_takeLocal [DecidableEq κ] (h : Books none room) (client : ProtocolAgentFactory)
    (fresh : Nat) (msg : ServicetoWorkerMsg κ) : Books none (room.takeLocal client fresh msg) := by
  have htaken : ∀ tx, (callersIn (room.log [.took msg]).trace).count tx
      = (answeredIn (room.log [.took msg]).trace).count tx
        + (callersHeld none (room.log [.took msg])).count tx + [senderOf msg].count tx := by
    intro tx
    have hbefore := h.balanced tx
    simp only [Room.log, callersIn_append, answeredIn_append, List.count_append,
      count_callersHeld, callersIn_took, answeredIn_took, List.count_nil] at hbefore ⊢
    omega
  unfold Room.takeLocal
  simp only
  split
  · refine ⟨fun tx => ?_, h.wellRun⟩
    have hbefore := htaken tx
    simp only [count_callersHeld, List.map_append, List.map_cons, List.map_nil,
      List.count_append] at hbefore ⊢
    omega
  · exact books_dispatches htaken h.wellRun (dispatches_dispatchLocalMsg _ _ _ _)

/-- The caller of a channel's request goes with the channel. -/
theorem heldIn_eraseIdx {coordination : List (Listener P ρ κ)} (h : coordination[k]? = some l) :
    (heldIn (l :: coordination.eraseIdx k)).Perm (heldIn coordination) := by
  obtain ⟨hlt, rfl⟩ := List.getElem?_eq_some_iff.mp h
  exact (List.getElem_cons_eraseIdx_perm hlt).filterMap _

/-- A listener that is polled keeps its one-shot. -/
theorem heldIn_set {coordination : List (Listener P ρ κ)} (l' : Listener P ρ κ)
    (h : coordination[k]? = some l) (hsent : l'.sent = l.sent) :
    (heldIn (coordination.set k l')).Perm (heldIn coordination) := by
  have hlt := (List.getElem?_eq_some_iff.mp h).1
  refine ((List.set_perm_cons_eraseIdx hlt l').filterMap _).trans ?_
  refine List.Perm.trans (List.Perm.of_eq ?_) (heldIn_eraseIdx h)
  rw [heldIn, List.filterMap_cons, List.filterMap_cons, hsent]

theorem heldIn_cons_none (coordination : List (Listener P ρ κ)) (h : l.sent = none) :
    heldIn (l :: coordination) = heldIn coordination := by
  rw [heldIn, List.filterMap_cons, h]
  rfl

theorem heldIn_cons_some (coordination : List (Listener P ρ κ)) {msg : LocalRpcMsg κ}
    (h : l.sent = some msg) :
    heldIn (l :: coordination) = msg.pendingResponse :: heldIn coordination := by
  rw [heldIn, List.filterMap_cons, h]
  rfl

/-- What the channel finds in its one-shot is what was sent. -/
theorem sent_of_tryRecv {msg : LocalRpcMsg κ} (h : room.tryRecv l = .value msg) :
    l.sent = some msg := by
  unfold Room.tryRecv at h
  split at h
  · rename_i hsent
    cases h
    exact hsent
  · split at h <;> cases h

/-- A channel that takes a proposal must not hold a request. -/
theorem books_pollPhase1 [DecidableEq κ] (client : ProtocolAgentFactory) (localPeerId : P)
    (fresh : Nat) (next : Option (IncomingRequest P ρ)) (sessionId : SessionId) (now : Nat)
    (h : Books none room) (hl : room.coordination[k]? = some l)
    (hkeeps : ∀ m, next = some m → m.context.messageType = .coordination → l.sent = none) :
    BranchBooks (room.pollPhase1 client localPeerId fresh k l next sessionId now) := by
  unfold Room.pollPhase1
  have hpoll := phase1Passes_poll l.channel localPeerId next (room.tryRecv l) sessionId now
  generalize l.channel.poll localPeerId next (room.tryRecv l) sessionId now = poll at hpoll ⊢
  have herase := heldIn_eraseIdx hl
  cases hpoll with
  | @pending c answers _ _ _ =>
      have hset : Books none
          { room with coordination := room.coordination.set k { l with channel := c } } := by
        refine h.congr rfl h.wellRun fun tx => ?_
        have hcount := (heldIn_set { l with channel := c } hl rfl).count_eq tx
        simp only [count_callersHeld]
        omega
      exact hset.respond answers
  | @fromRemote m _ protocolId _ responseTx channel hnext htype _ =>
      -- the one-shot that goes with the listener is empty
      rw [heldIn_cons_none _ (hkeeps m hnext htype)] at herase
      have hremoved : ∀ (busy : Bool) (a : Option (Awaited P ρ κ)), awaitedCaller a = [] →
          Books a { room with coordination := room.coordination.eraseIdx k, busy := busy } := by
        intro busy a ha
        refine h.congr rfl h.wellRun fun tx => ?_
        have hcount := herase.count_eq tx
        simp only [count_callersHeld, ha, awaitedCaller_none]
        omega
      simp only
      split
      · exact Books.respond (hremoved true (some (.phase2 protocolId channel)) rfl) _
      · exact (Books.respond (hremoved false none rfl) _).comeBack _ _ _
  | @fromLocal msg _ n negotiation answers hvalue _ hresponse =>
      -- the caller moves from the one-shot to the negotiation
      rw [heldIn_cons_some _ (sent_of_tryRecv hvalue)] at herase
      have hremoved : Books (some (.negotiation n negotiation))
          { room with coordination := room.coordination.eraseIdx k } := by
        refine h.congr rfl h.wellRun fun tx => ?_
        have hcount := herase.count_eq tx
        rw [← List.singleton_append, List.count_append] at hcount
        simp only [count_callersHeld, awaitedCaller, hresponse, List.count_nil]
        omega
      exact hremoved.respond answers
  | panic _ => exact trivial

/-- The caller of a negotiation goes to its session. -/
theorem books_startSession [DecidableEq P] [DecidableEq κ] {n : Nat} {sessionId : SessionId}
    {peerset : Peerset P} {pendingResponse : Option κ} (receiverProxy : ReceiverProxy P ρ)
    (h : Books a room) (ha : awaitedCaller a = pendingResponse.toList) :
    BranchBooks (room.startSession receiverProxy
      (WrapExecution.new n sessionId protocolId peerset pendingResponse)) := by
  cases hnew : (WrapExecution.new n sessionId protocolId peerset pendingResponse :
      Except Panic (WrapExecution P ρ κ)) with
  | error why => exact trivial
  | ok wrap =>
      obtain ⟨howed, hrun⟩ := owedBy_new hnew
      refine h.congr rfl ?_ fun tx => ?_
      · intro x hx
        rcases List.mem_append.mp hx with hx | hx
        · exact h.wellRun x hx
        · rw [List.mem_singleton.mp hx]
          exact hrun
      · simp only [count_callersHeld, ha, awaitedCaller_none, List.flatMap_append,
          List.count_append, List.flatMap_cons, List.flatMap_nil, List.append_nil, howed,
          List.count_nil]
        omega

/-- Phase 2 has no caller. -/
theorem books_pollPhase2 [DecidableEq P] [DecidableEq κ] [PeerIdCodec P] [UnsignedVarint]
    {c : Phase2Channel P ρ} (client : ProtocolAgentFactory) (localPeerId : P) (fresh : Nat)
    (next : Option (IncomingRequest P ρ)) (now : Nat)
    (h : Books (some (.phase2 protocolId c)) room) :
    BranchBooks (room.pollPhase2 client localPeerId fresh protocolId c next now) := by
  unfold Room.pollPhase2
  cases c.poll localPeerId next now fresh with
  | pending c' answers =>
      have hsame : Books (some (.phase2 protocolId c')) room :=
        h.congr rfl h.wellRun fun _ => rfl
      exact hsame.respond answers
  | start _ receiverProxy peerset _ sessionId => exact books_startSession receiverProxy h rfl
  | abort _ phase1 answers =>
      have hnone : Books none { room with busy := false } := h.congr rfl h.wellRun fun _ => rfl
      exact (hnone.respond answers).comeBack _ _ _
  | panic why => exact trivial

/-- The caller goes from the negotiation to the execution, or is answered.
-/
theorem books_pollNegotiation [DecidableEq P] [DecidableEq κ] [PeerIdCodec P] [UnsignedVarint]
    {n : Nat} {c : NegotiationChannel P κ} (client : ProtocolAgentFactory) (fresh : Nat)
    (input : NegotiationInput P) (h : Books (some (.negotiation n c)) room) :
    BranchBooks (room.pollNegotiation client fresh n c input) := by
  unfold Room.pollNegotiation
  have hpoll := negotiationPasses_poll (ρ := ρ) c input fresh
  generalize (c.poll input fresh : NegotiationPoll P ρ κ) = poll at hpoll ⊢
  have hsame : ∀ c' : NegotiationChannel P κ, c'.pendingResponse = c.pendingResponse →
      Books (some (.negotiation n c')) room := by
    intro c' hresponse
    refine h.congr rfl h.wellRun fun tx => ?_
    simp only [count_callersHeld, awaitedCaller, hresponse]
  cases hpoll with
  | @pending c' _ hresponse => exact hsame c' hresponse
  | @proposed c' _ hresponse => exact hsame c' hresponse
  | @start _ receiverProxy _ _ _ _ _ _ => exact books_startSession receiverProxy h rfl
  | @abort _ phase1 _ =>
      have hanswered : Books none (Room.log { room with busy := false }
          [.answered c.pendingResponse
            (.error "Negotiation aborted: timeout or failed to assemble peerset")]) := by
        refine ⟨h.balanced.step rfl fun tx => ?_, h.wellRun⟩
        simp only [count_callersHeld, callersIn_answered, answeredIn_answered, awaitedCaller,
          Room.log, List.count_nil]
        omega
      exact hanswered.comeBack _ _ _
  | panic => exact trivial

/-- The messages a proxy delivers change nothing for the callers. -/
theorem owedBy_deliver (tx : Nat) (feed : List (IncomingRequest P ρ))
    (x : RunningExecution P ρ κ) : owedBy (deliver tx feed x).wrap = owedBy x.wrap := by
  unfold Room.deliver
  split
  · simp only [owedBy]
    cases x.wrap.computation <;> rfl
  · rfl

theorem wellRun_deliver (tx : Nat) (feed : List (IncomingRequest P ρ)) (h : WellRun x.wrap) :
    WellRun (deliver tx feed x).wrap := by
  unfold Room.deliver
  split
  · intro s hs
    obtain ⟨s', hs', rfl⟩ := Option.map_eq_some_iff.mp hs
    have hc := h s' hs'
    exact ⟨hc.two_le, hc.agentFuture, hc.completionDelay⟩
  · exact h

/-- A proxy has no caller. -/
theorem books_pollProxy [DecidableEq P] [DecidableEq κ] (client : ProtocolAgentFactory)
    (fresh k : Nat) (p : ReceiverProxy P ρ) (next : Option (IncomingRequest P ρ))
    (h : Books none room) : Books none (room.pollProxy client fresh k p next) := by
  unfold Room.pollProxy
  simp only
  split
  · split
    · exact h.congr rfl h.wellRun fun _ => rfl
    · have hremoved : Books none { room with proxies := room.proxies.eraseIdx k } :=
        h.congr rfl h.wellRun fun _ => rfl
      exact hremoved.comeBack _ _ _
  · rename_i p' _ feed answers _
    have hdelivered : Books none
        { room with
            proxies := room.proxies.set k p'
            executions := room.executions.map (deliver p.tx feed) } := by
      refine h.congr rfl (fun x hx => ?_) fun tx => ?_
      · obtain ⟨y, hy, rfl⟩ := List.mem_map.mp hx
        exact wellRun_deliver _ _ (h.wellRun y hy)
      · simp only [count_callersHeld, List.flatMap_map, owedBy_deliver]
    exact hdelivered.respond answers

/-- The end of an execution serves the next request of the queue. -/
theorem books_finishExecution [DecidableEq κ] (client : ProtocolAgentFactory) (fresh : Nat)
    (h : Books none room) : Books none (room.finishExecution client fresh) := by
  unfold Room.finishExecution
  simp only
  split
  · rename_i phase1 _
    have hrestored : Books none { room with busy := false, restore := none } :=
      h.congr rfl h.wellRun fun _ => rfl
    exact hrestored.comeBack _ _ _
  · exact h.congr rfl h.wellRun fun _ => rfl

/-- An execution's step moves its caller from its own hands to the
answers. -/
theorem Books.moveExecution [DecidableEq κ] {executions : List (RunningExecution P ρ κ)}
    {effects : List (Effect P ρ κ)} {owed : List κ} (h : Books none room)
    (hx : room.executions[k]? = some x)
    (hexecutions : (executions.flatMap fun x => owedBy x.wrap).Perm
      (owed ++ (room.executions.eraseIdx k).flatMap fun x => owedBy x.wrap))
    (howed : owedBy x.wrap = (answersIn effects).map Prod.fst ++ owed)
    (hrun : ∀ x ∈ executions, WellRun x.wrap) :
    Books none (Room.log { room with executions := executions } (eventsOf effects)) := by
  refine ⟨h.balanced.step rfl fun tx => ?_, hrun⟩
  obtain ⟨hlt, rfl⟩ := List.getElem?_eq_some_iff.mp hx
  have hbefore := ((List.getElem_cons_eraseIdx_perm hlt).flatMap_right
    fun x => owedBy x.wrap).count_eq tx
  have hafter := hexecutions.count_eq tx
  rw [List.flatMap_cons, howed, List.count_append, List.count_append] at hbefore
  rw [List.count_append] at hafter
  simp only [count_callersHeld, Room.log, answeredIn_eventsOf, callersIn,
    (onlyAnswers_eventsOf effects).taken, List.map_nil, List.count_nil]
  omega

/-- An execution that ends has answered its caller, unless the gadget fails
beside it. -/
theorem books_pollExecution [DecidableEq P] [DecidableEq κ] [Blake2s256] {l : WrapLabel P ρ}
    {branch : Branch P ρ κ} (client : ProtocolAgentFactory) (fresh : Nat) (h : Books none room)
    (hx : room.executions[k]? = some x) (hdeliver : ∀ m, l ≠ .deliver m)
    (hecho : ∀ gone, l = .pollEcho gone → echoFails x.wrap.echo x.wrap.responses = true →
      owedBy x.wrap = []) (hbranch : room.pollExecution client fresh k x l = some branch) :
    BranchBooks branch := by
  obtain ⟨⟨state, effects⟩, hstep, rfl⟩ := Option.map_eq_some_iff.mp hbranch
  have hrun := h.wellRun x (List.mem_of_getElem? hx)
  have hlt := (List.getElem?_eq_some_iff.mp hx).1
  cases state with
  | panicked why => exact trivial
  | running wrap =>
      obtain ⟨howed, hrun'⟩ := owed_step hrun hdeliver hstep nofun hecho
      refine h.moveExecution hx ?_ howed fun y hy => ?_
      · exact (List.set_perm_cons_eraseIdx hlt _).flatMap_right _
      · rcases List.mem_or_eq_of_mem_set hy with hy | rfl
        · exact h.wellRun y hy
        · exact hrun'
  | returned result =>
      obtain ⟨howed, _⟩ := owed_step hrun hdeliver hstep nofun hecho
      refine books_finishExecution _ _ (h.moveExecution hx (List.Perm.refl _) howed fun y hy => ?_)
      exact h.wellRun y (List.mem_of_mem_eraseIdx hy)

end Books

section Worker

variable {P ρ κ : Type}

/-- The callers of a room whose requests the worker holds. A panic drops
them all. -/
def requestsHeld (w : Worker P ρ κ) (roomId : RoomId) : List κ :=
  if w.panicked.isSome then [] else callersHeld (awaitedAt w roomId) (w.rooms roomId)

/-- Every caller of a room was answered or is held, once for each request
that was taken from it. -/
def AnsweredOnce [DecidableEq κ] (w : Worker P ρ κ) (roomId : RoomId) : Prop :=
  ∀ tx, (callersIn (w.rooms roomId).trace).count tx
    = (answeredIn (w.rooms roomId).trace).count tx + (requestsHeld w roomId).count tx

/-- The step drops a request: a channel takes a proposal with a request in
its one-shot, or the gadget fails beside an execution that has not
answered yet. -/
def dropsRequest (w : Worker P ρ κ) : WorkerLabel P ρ κ → Bool
  | .pollPhase1 roomId k (some m) _ _ =>
      m.context.messageType = .coordination &&
        (w.rooms roomId).coordination[k]?.any (·.sent.isSome)
  | .pollExecution roomId k (.pollEcho _) =>
      (w.rooms roomId).executions[k]?.any fun x =>
        echoFails x.wrap.echo x.wrap.responses && !(owedBy x.wrap).isEmpty
  | _ => false

/-- The step drops no request, and its input does not make it panic. -/
def keepsRequests [DecidableEq P] [PeerIdCodec P] [UnsignedVarint]
    (cfg : WorkerConfig P) (w : Worker P ρ κ) (l : WorkerLabel P ρ κ) : Bool :=
  !dropsRequest w l && stepFits cfg w l

structure WorkerBooks [DecidableEq κ] (w : Worker P ρ κ) : Prop where
  running : w.panicked = none
  rooms : ∀ roomId, Books (awaitedAt w roomId) (w.rooms roomId)

/-- No request has come in at the start. -/
theorem workerBooks_start [DecidableEq κ] (cfg : WorkerConfig P) :
    WorkerBooks (Worker.start cfg : Worker P ρ κ) := by
  refine ⟨rfl, fun roomId => ?_⟩
  show Books none (Worker.startRoom cfg roomId)
  unfold Worker.startRoom
  split
  · exact ⟨fun _ => rfl, List.forall_mem_nil _⟩
  · exact ⟨fun _ => rfl, List.forall_mem_nil _⟩

variable [DecidableEq P] [DecidableEq κ] [Blake2s256] [PeerIdCodec P] [UnsignedVarint]

/-- Every branch keeps the books of its room. -/
theorem branchBooks_of_steps {cfg : WorkerConfig P} {w : Worker P ρ κ}
    {l : WorkerLabel P ρ κ} {roomId : RoomId} {branch : Branch P ρ κ} (h : WorkerBooks w)
    (hdrops : dropsRequest w l = false) (hsteps : WorkerSteps cfg w l roomId branch) :
    BranchBooks branch := by
  have hroom := h.rooms roomId
  cases hsteps with
  | takeLocal hawaited =>
      rw [awaitedAt_eq_none hawaited] at hroom
      exact books_takeLocal hroom _ _ _
  | pollPhase1 hawaited hl =>
      rw [awaitedAt_eq_none hawaited] at hroom
      refine books_pollPhase1 _ _ _ _ _ _ hroom hl ?_
      rintro m rfl htype
      simpa [dropsRequest, htype, hl] using hdrops
  | pollProxy hawaited _ =>
      rw [awaitedAt_eq_none hawaited] at hroom
      exact books_pollProxy _ _ _ _ _ hroom
  | pollExecution hawaited hx hdeliver hbranch =>
      rw [awaitedAt_eq_none hawaited] at hroom
      refine books_pollExecution _ _ hroom hx hdeliver ?_ hbranch
      rintro gone rfl hfails
      simpa [dropsRequest, hx, hfails] using hdrops
  | pollPhase2 hawaited =>
      rw [(awaitedAt_eq_some hawaited).1] at hroom
      exact books_pollPhase2 _ _ _ _ _ hroom
  | pollNegotiation hawaited =>
      rw [(awaitedAt_eq_some hawaited).1] at hroom
      exact books_pollNegotiation _ _ _ hroom

/-- Every step keeps the books. -/
theorem workerBooks_step {cfg : WorkerConfig P} {w w' : Worker P ρ κ}
    {l : WorkerLabel P ρ κ} (h : WorkerBooks w) (hl : keepsRequests cfg w l = true)
    (hstep : w.step cfg l = some w') : WorkerBooks w' := by
  obtain ⟨hdrops, hfits⟩ := Bool.and_eq_true_iff.mp hl
  obtain ⟨roomId, branch, hsteps, rfl⟩ := workerSteps_step hstep
  have hbooks := branchBooks_of_steps h (by simpa using hdrops) hsteps
  obtain ⟨⟨room, a⟩, rfl⟩ := branch_ok_of_fits hsteps (h.rooms roomId).wellRun hfits
  refine ⟨h.running, fun roomId' => ?_⟩
  show Books _ (Function.update w.rooms roomId room roomId')
  by_cases heq : roomId' = roomId
  · rw [heq, Function.update_self, awaitedAt_finish]
    exact hbooks
  · have hroom := h.rooms roomId'
    rw [awaitedAt_of_steps hsteps roomId' heq] at hroom
    rw [Function.update_of_ne heq, awaitedAt_finish_of_ne w room a heq]
    exact hroom

/-- In every run of the worker whose steps drop no request and have no
input that makes them panic, every request taken was answered once or is
still held. -/
theorem answeredOnce (cfg : WorkerConfig P) {w : Worker P ρ κ}
    (hreach : Reach (Worker.step cfg) (fun w l => keepsRequests cfg w l = true)
      (Worker.start cfg) w) (roomId : RoomId) : AnsweredOnce w roomId := by
  have hbooks : WorkerBooks w := hreach.invariant (workerBooks_start cfg)
    fun _ _ _ hw hl hstep => workerBooks_step hw hl hstep
  intro tx
  rw [requestsHeld, hbooks.running]
  exact (hbooks.rooms roomId).balanced tx

end Worker

namespace DroppedRequest

open LateRequest StrandedRequest

open scoped IdentityHash

/-- The first request is answered when its execution ends, and the second
one waits in the one-shot. -/
theorem answeredOnce_waitingRequest :
    ∃ w : Worker Ed25519PeerId Nat Nat,
      runIf (Worker.step cfg) (keepsRequests cfg) (Worker.start cfg)
        (waitingRequest ++ [proxyEnds]) = some w ∧
      answeredIn (w.rooms roomId).trace = [0] ∧ requestsHeld w roomId = [1] ∧
      AnsweredOnce w roomId := by
  refine ⟨_, rfl, rfl, rfl, ?_⟩
  exact answeredOnce cfg (reach_of_runIf (waitingRequest ++ [proxyEnds]) rfl) roomId

/-- A proposal arrives before the channel has seen the request. -/
def overtaken : List Label :=
  [request 0, .pollPhase1 roomId 0 (some (coordination [])) noSessionId 0]

/-- The gadget waits for the echo, and learns that its own broadcast has
failed at the other peer. -/
def unechoed : List Label :=
  [request 0, listens 0 0] ++ negotiates 0 ++ bothBroadcast 0 ++
    [echoes (.error (.network .timeout)), .pollExecution roomId 0 (.pollEcho noneGone)]

set_option maxRecDepth 4000 in
/-- In both runs the request is gone, and its caller has no answer. -/
theorem not_answeredOnce_dropped :
    (∃ w : Worker Ed25519PeerId Nat Nat,
      run (Worker.step cfg) (Worker.start cfg) overtaken = some w ∧ w.panicked = none ∧
        answeredIn (w.rooms roomId).trace = [] ∧ requestsHeld w roomId = [] ∧
        ¬ AnsweredOnce w roomId) ∧
    ∃ w : Worker Ed25519PeerId Nat Nat,
      run (Worker.step cfg) (Worker.start cfg) unechoed = some w ∧ w.panicked = none ∧
        answeredIn (w.rooms roomId).trace = [] ∧ requestsHeld w roomId = [] ∧
        ¬ AnsweredOnce w roomId := by
  constructor
  · refine ⟨_, rfl, rfl, rfl, rfl, fun h => ?_⟩
    exact absurd (h 0) (by decide)
  · refine ⟨_, rfl, rfl, rfl, rfl, fun h => ?_⟩
    exact absurd (h 0) (by decide)

end DroppedRequest

end FrostMpcTss.Proofs
