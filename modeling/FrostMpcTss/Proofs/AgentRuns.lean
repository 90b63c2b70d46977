import FrostMpcTss.Session.AgentRun

/-!
# `FrostMpcTss.Proofs.AgentRuns`: rules for an agent with its channels

`Collecting` is what one poll of an agent has to satisfy: its state is
accounted for by the requests it has taken, it returns nothing but good
results, and it does not go on waiting for requests when all of them are
there. `running_run` carries this along every sequence of events, and
`returns_of_rank` gives a result once everything has arrived.

`collect_rule` is the rule for a receive loop whose turns cannot fail.
-/

set_option autoImplicit false

namespace FrostMpcTss.Proofs

open Network Service FrostMpcTss.Session Tss

variable {σ : Type}

section Loop

/-- How a receive loop ends a poll when no turn fails. -/
inductive Gathered (more : σ → Bool) (Inv : List AgentRequest → σ → Prop)
    (taken incoming : List AgentRequest) : Collect σ → Prop where
  | waiting {s : σ} : more s = true → Inv (taken ++ incoming) s →
      Gathered more Inv taken incoming (.waiting s)
  | done {s : σ} {used rest : List AgentRequest} : incoming = used ++ rest → more s = false →
      Inv (taken ++ used) s → Gathered more Inv taken incoming (.done s rest)

/-- An invariant of the turns is one of the loop. -/
theorem collect_rule (more : σ → Bool) (take : σ → AgentRequest → Except String σ)
    {Inv : List AgentRequest → σ → Prop} {good : AgentRequest → Prop}
    (htake : ∀ {taken s req}, Inv taken s → good req → more s = true →
      ∃ s', take s req = .ok s' ∧ Inv (taken ++ [req]) s')
    (incoming : List AgentRequest) {taken : List AgentRequest} {s : σ} (h : Inv taken s)
    (hgood : ∀ req ∈ incoming, good req) :
    Gathered more Inv taken incoming (collect more take s incoming) := by
  induction incoming generalizing taken s with
  | nil =>
      have h' : Inv (taken ++ []) s := by rwa [List.append_nil]
      unfold collect
      cases hmore : more s with
      | true => exact .waiting hmore h'
      | false => exact .done rfl hmore h'
  | cons req incoming ih =>
      cases hmore : more s with
      | false =>
          rw [collect, hmore, if_neg Bool.false_ne_true]
          exact .done (List.nil_append _).symm hmore (by rwa [List.append_nil])
      | true =>
          obtain ⟨s', htaken, hs'⟩ := htake h (hgood req List.mem_cons_self) hmore
          simp only [collect, hmore, if_true, htaken]
          have hrest := ih hs' fun req' hmem => hgood req' (List.mem_cons_of_mem _ hmem)
          generalize collect more take s' incoming = ended at hrest
          cases hrest with
          | waiting hmore' hinv =>
              rw [List.append_assoc] at hinv
              exact .waiting hmore' hinv
          | done hused hmore' hinv =>
              rw [List.append_assoc] at hinv
              exact .done (by rw [hused]; rfl) hmore' hinv

end Loop

section Runs

variable {poll : σ → List AgentRequest → List AgentMessage → σ × AgentTurn}
  {order : List AgentRequest} {H : σ → List AgentRequest → Prop} {R : AgentResult → Prop}
  {ι : Type} [LT ι] {rank : σ → ι} {t : AgentRun σ}

/-- What a poll leads to. An agent that goes on has a state its requests
account for. If all of them are there, it waits for a message of its own to
be taken, and when none was in the channel it has come closer to its end. -/
inductive CollectPoll (order : List AgentRequest) (H : σ → List AgentRequest → Prop)
    (R : AgentResult → Prop) (rank : σ → ι) (a : σ) (taken incoming : List AgentRequest)
    (outgoing : List AgentMessage) : σ × AgentTurn → Prop where
  | goesOn {a' : σ} {received : Nat} {sent : List AgentMessage} :
      H a' (taken ++ incoming.take received) →
      (taken ++ incoming = order →
        outgoing ++ sent ≠ [] ∧ (outgoing = [] → rank a' < rank a)) →
      CollectPoll order H R rank a taken incoming outgoing (a', .waiting received sent)
  | returns {a' : σ} {received : Nat} {sent : List AgentMessage} {r : AgentResult} : R r →
      CollectPoll order H R rank a taken incoming outgoing (a', .returning received sent r)

/-- An agent that collects the requests of `order`. -/
def Collecting (poll : σ → List AgentRequest → List AgentMessage → σ × AgentTurn)
    (order : List AgentRequest) (H : σ → List AgentRequest → Prop) (R : AgentResult → Prop)
    (rank : σ → ι) : Prop :=
  ∀ (a : σ) (taken incoming : List AgentRequest) (outgoing : List AgentMessage), H a taken →
    taken ++ incoming <+: order →
    CollectPoll order H R rank a taken incoming outgoing (poll a incoming outgoing)

/-- The agent in a run. -/
structure Running (order : List AgentRequest) (H : σ → List AgentRequest → Prop)
    (R : AgentResult → Prop) (t : AgentRun σ) : Prop where
  live : t.result = none →
    ∃ taken, order = taken ++ (t.incoming ++ t.pending) ∧ H t.agent taken
  result : ∀ r, t.result = some r → R r

omit [LT ι] in
theorem Running.initial (h : Running order H R t) (hnone : t.result = none) :
    ∃ taken, order = taken ++ (t.incoming ++ t.pending) ∧ H t.agent taken ∧
      taken ++ t.incoming <+: order := by
  obtain ⟨taken, horder, hH⟩ := h.live hnone
  refine ⟨taken, horder, hH, ?_⟩
  rw [horder, ← List.append_assoc]
  exact List.prefix_append ..

theorem running_step (hc : Collecting poll order H R rank) (h : Running order H R t)
    (e : AgentEvent) : Running order H R (t.step poll e) := by
  cases e with
  | deliver =>
      obtain ⟨agent, pending, incoming, outgoing, result⟩ := t
      cases pending with
      | nil => exact h
      | cons req pending =>
          refine ⟨fun hnone => ?_, h.result⟩
          obtain ⟨taken, horder, hH⟩ := h.live hnone
          refine ⟨taken, ?_, hH⟩
          show order = taken ++ ((incoming ++ [req]) ++ pending)
          rw [List.append_assoc]
          exact horder
  | take => exact ⟨h.live, h.result⟩
  | poll =>
      cases hresult : t.result with
      | some r =>
          simp only [AgentRun.step, hresult]
          exact h
      | none =>
          obtain ⟨taken, horder, hH, hinitial⟩ := h.initial hresult
          have hpolled := hc t.agent taken t.incoming t.outgoing hH hinitial
          simp only [AgentRun.step, hresult]
          generalize poll t.agent t.incoming t.outgoing = polled at hpolled
          cases hpolled with
          | @goesOn a' received sent hH' _ =>
              -- the messages the poll has taken move from the channel to `taken`
              refine ⟨fun _ => ⟨_, ?_, hH'⟩, nofun⟩
              show order = (taken ++ t.incoming.take received)
                ++ (t.incoming.drop received ++ t.pending)
              rw [List.append_assoc, ← List.append_assoc (t.incoming.take received),
                List.take_append_drop]
              exact horder
          | returns hr =>
              refine ⟨nofun, fun r heq => ?_⟩
              cases heq
              exact hr

/-- Along every sequence of events. -/
theorem running_run (hc : Collecting poll order H R rank) (h : Running order H R t)
    (events : List AgentEvent) : Running order H R (t.run poll events) := by
  induction events generalizing t with
  | nil => exact h
  | cons e events ih => exact ih (running_step hc h e)

omit [LT ι] in
theorem running_start {a : σ} (h : H a []) : Running order H R (.start a order) :=
  ⟨fun _ => ⟨[], rfl, h⟩, nofun⟩

/-- Once everything has arrived, a poll returns or leaves a message behind. -/
theorem outgoing_poll (hc : Collecting poll order H R rank) (h : Running order H R t)
    (hpending : t.pending = []) (hnone : (t.step poll .poll).result = none) :
    (t.step poll .poll).outgoing ≠ [] := by
  cases hresult : t.result with
  | some r =>
      simp only [AgentRun.step, hresult] at hnone
      cases hnone
  | none =>
      obtain ⟨taken, horder, hH, hinitial⟩ := h.initial hresult
      have hpolled := hc t.agent taken t.incoming t.outgoing hH hinitial
      simp only [AgentRun.step, hresult] at hnone ⊢
      generalize poll t.agent t.incoming t.outgoing = polled at hpolled hnone
      cases hpolled with
      | goesOn _ hwaits =>
          refine (hwaits ?_).1
          rw [horder, hpending, List.append_nil]
      | returns _ => cases hnone

omit [LT ι] in
/-- The execution takes all messages. -/
theorem run_replicate_take (t : AgentRun σ) :
    t.run poll (List.replicate t.outgoing.length .take) = { t with outgoing := [] } := by
  obtain ⟨agent, pending, incoming, outgoing, result⟩ := t
  induction outgoing with
  | nil => rfl
  | cons m outgoing ih => exact ih

/-- Once everything has arrived, the agent returns if its messages are
taken and it is polled. -/
theorem returns_of_rank [WellFoundedLT ι] (hc : Collecting poll order H R rank)
    (h : Running order H R t) (hpending : t.pending = []) :
    ∃ events, (t.run poll events).result.isSome = true := by
  generalize hrank : rank t.agent = k
  induction k using WellFoundedLT.induction generalizing t with
  | ind k ih =>
      cases hresult : t.result with
      | some r => exact ⟨[], by rw [AgentRun.run, List.foldl_nil, hresult]; rfl⟩
      | none =>
          obtain ⟨taken, horder, hH, hinitial⟩ := h.initial hresult
          rw [hpending, List.append_nil] at horder
          -- the messages are taken, and the agent is polled
          have hdrained : Running order H R { t with outgoing := [] } := ⟨h.live, h.result⟩
          have hnext := running_step hc hdrained .poll
          have hpolled := hc t.agent taken t.incoming [] hH hinitial
          have hrun : ∀ events, t.run poll
              (List.replicate t.outgoing.length .take ++ .poll :: events)
              = (({ t with outgoing := [] } : AgentRun σ).step poll .poll).run poll events := by
            intro events
            rw [AgentRun.run, List.foldl_append]
            change List.foldl _ (t.run poll (List.replicate t.outgoing.length .take)) _ = _
            rw [run_replicate_take]
            rfl
          simp only [AgentRun.step, hresult] at hnext hrun
          generalize poll t.agent t.incoming [] = polled at hpolled hnext hrun
          cases hpolled with
          | goesOn _ hcloser =>
              have hlt := (hcloser horder.symm).2 rfl
              rw [hrank] at hlt
              obtain ⟨events, hevents⟩ := ih _ hlt hnext hpending rfl
              exact ⟨_, (congrArg (fun t : AgentRun σ => t.result.isSome) (hrun events)).trans
                hevents⟩
          | returns _ =>
              exact ⟨_, congrArg (fun t : AgentRun σ => t.result.isSome) (hrun [])⟩

end Runs

end FrostMpcTss.Proofs
