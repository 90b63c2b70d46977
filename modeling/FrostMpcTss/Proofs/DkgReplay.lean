import FrostMpcTss.Proofs.AgentLog
import FrostMpcTss.Proofs.KeyGenRoom

/-!
# `FrostMpcTss.Proofs.DkgReplay`: key generation, from the requests it has received

What `run_dkg` holds is determined by the requests handed to it. `dealt`
runs the first receive loop over them and calls `part2`, and
`secondLoop` runs the second one. `explains_runDkg` says that the agent
stands where this replay stands, whatever the sizes of its channels at
each poll, and that the direct messages it has sent are its packages in
the order of their identifiers.
-/

set_option autoImplicit false

namespace FrostMpcTss.Proofs

open Lib Network Service FrostMpcTss.Session
open Tss Tss.KeyGen

variable {A B : Type} [Identifiers] [DagCbor] [DkgCodec A B]

/-- The agent after `part2`: the accumulators of the first loop, the
requests it has not looked at, and the packages to be sent. -/
structure Dealt (A B : Type) where
  round1 : Round1 A
  rest : List AgentRequest
  packages : List (Nat × B)

/-- The first receive loop over the requests, and `part2`. -/
def dealt (p : DkgSession A B) (received : List AgentRequest) : Option (Dealt A B) :=
  match sendRound1 p with
  | .error _ => none
  | .ok (package, _) =>
      match collect (needsRound1 p) (takeRound1 p) (.new p package) received with
      | .waiting _ => none
      | .failed _ _ => none
      | .done s rest =>
          match startRound2 p s with
          | .error _ => none
          | .ok packages => some { round1 := s, rest := rest, packages := packages }

/-- The packages `part2` has made. -/
def packagesOf (p : DkgSession A B) (received : List AgentRequest) : List (Nat × B) :=
  match dealt p received with
  | some d => d.packages
  | none => []

/-- The second receive loop over the requests. -/
def secondLoop (p : DkgSession A B) (received : List AgentRequest) : Option (Collect (Round2 B)) :=
  (dealt p received).map fun d =>
    collect (needsRound2 p) (takeRound2 p) { packages := ∅, receivedSenders := ∅ }
      (d.round1.deferredRound2Requests ++ d.rest)

/-- The direct messages in `sent` carry these packages. -/
def Carries (p : DkgSession A B) (packages : List (Nat × B)) (sent : List AgentMessage) : Prop :=
  List.Forall₂ (fun package m => round2Message p package = .ok m) packages
    (sent.filter (·.recipient.isSome))

/-- The agent at each `await`, from what it has taken and sent. -/
inductive Dealing (p : DkgSession A B) :
    Dkg A B → List AgentRequest → List AgentMessage → Prop where
  | start : Dealing p .start [] []
  | round1 {package : A} {message : AgentMessage} {s : Round1 A} {taken : List AgentRequest}
      {sent : List AgentMessage} : sendRound1 p = .ok (package, message) →
      collect (needsRound1 p) (takeRound1 p) (.new p package) taken = .waiting s →
      Carries p [] sent → Dealing p (.round1 s) taken sent
  | sending {s : Round1 A} {done todo : List (Nat × B)} {taken : List AgentRequest}
      {sent : List AgentMessage} :
      dealt p taken = some { round1 := s, rest := [], packages := done ++ todo } →
      Carries p done sent → Dealing p (.sending s todo) taken sent
  | round2 {s : Round1 A} {acc : Round2 B} {d : Dealt A B} {taken : List AgentRequest}
      {sent : List AgentMessage} : dealt p taken = some d → s.deferredRound2Requests = [] →
      s.packagesForPart2 = d.round1.packagesForPart2 →
      secondLoop p taken = some (.waiting acc) → Carries p d.packages sent →
      Dealing p (.round2 s acc) taken sent
  | returned {done : List (Nat × B)} {taken : List AgentRequest} {sent : List AgentMessage} :
      (∀ later, done <+: packagesOf p (taken ++ later)) → Carries p done sent →
      Dealing p .returned taken sent

/-- A key that `run_dkg` returns comes from the packages of both rounds. -/
def Finishes (p : DkgSession A B) (taken : List AgentRequest) (result : AgentResult) : Prop :=
  ∀ bytes, result = .ok bytes → ∃ d acc left, dealt p taken = some d ∧
    secondLoop p taken = some (.done acc left) ∧
    (mapErr "Round 3 error: " (p.part3 d.round1.packagesForPart2 acc.packages) >>= p.save)
      = .ok bytes

variable {d : Dealt A B}

section Later

variable {p : DkgSession A B} {taken : List AgentRequest}

/-- Once the first loop is through, later requests wait for the second
one. -/
theorem dealt_append (h : dealt p taken = some d) (later : List AgentRequest) :
    dealt p (taken ++ later) = some { d with rest := d.rest ++ later } := by
  unfold dealt at h ⊢
  split at h
  · cases h
  · rename_i package _ hsend
    simp only [collect_append]
    split at h
    · cases h
    · cases h
    · rename_i s rest hcollect
      simp only [hcollect]
      split at h
      · cases h
      · rename_i packages hstart
        cases h
        rfl

/-- Later messages do not change what was dealt. -/
theorem packagesOf_append (h : dealt p taken = some d) (later : List AgentRequest) :
    packagesOf p (taken ++ later) = d.packages := by
  unfold packagesOf
  rw [dealt_append h]

theorem secondLoop_append (h : dealt p taken = some d) (later : List AgentRequest) :
    secondLoop p (taken ++ later)
      = some (collect (needsRound2 p) (takeRound2 p) { packages := ∅, receivedSenders := ∅ }
          (d.round1.deferredRound2Requests ++ d.rest ++ later)) := by
  unfold secondLoop
  rw [dealt_append h, Option.map_some, List.append_assoc]

/-- Nor how the run has finished. -/
theorem Finishes.append {result : AgentResult} (h : Finishes p taken result)
    (later : List AgentRequest) : Finishes p (taken ++ later) result := by
  intro bytes hbytes
  obtain ⟨d, acc, left, hd, hloop, hfinish⟩ := h bytes hbytes
  refine ⟨_, acc, left ++ later, dealt_append hd later, ?_, hfinish⟩
  rw [secondLoop, hd, Option.map_some, Option.some.injEq] at hloop
  rw [secondLoop_append hd, collect_append, hloop]

theorem finishes_error (e : String) : Finishes p taken (.error e) := nofun

end Later

section Carried

variable {p : DkgSession A B}

omit [Identifiers] in
theorem Carries.append {packages packages' : List (Nat × B)} {sent sent' : List AgentMessage}
    (h : Carries p packages sent) (h' : Carries p packages' sent') :
    Carries p (packages ++ packages') (sent ++ sent') := by
  unfold Carries
  rw [List.filter_append]
  exact List.rel_append h h'

omit [Identifiers] in
/-- The packages that are sent come first. -/
theorem carries_sendRound2 (p : DkgSession A B) (room : Nat) (todo : List (Nat × B)) :
    ∃ done left, todo = done ++ left ∧ Carries p done (sendRound2 p room todo).1 ∧
      ∀ left', (sendRound2 p room todo).2 = .ok left' → left' = left := by
  induction todo generalizing room with
  | nil =>
      rw [sendRound2]
      exact ⟨[], [], rfl, .nil, fun left' h => by cases h; rfl⟩
  | cons package todo ih =>
      cases hmessage : round2Message p package with
      | error e =>
          refine ⟨[], package :: todo, rfl, ?_, fun left' h => ?_⟩
          · simp only [sendRound2, hmessage]
            exact .nil
          · simp only [sendRound2, hmessage] at h
            cases h
      | ok message =>
          cases room with
          | zero =>
              refine ⟨[], package :: todo, rfl, ?_, fun left' h => ?_⟩
              · simp only [sendRound2, hmessage]
                exact .nil
              · simp only [sendRound2, hmessage] at h
                cases h
                rfl
          | succ room =>
              obtain ⟨done, left, htodo, hcarries, hleft⟩ := ih room
              refine ⟨package :: done, left, by rw [htodo]; rfl, ?_, fun left' h => ?_⟩
              · simp only [sendRound2, hmessage]
                unfold Carries
                rw [List.filter_cons, if_pos (by rw [recipient_round2Message hmessage]; rfl)]
                exact .cons hmessage hcarries
              · simp only [sendRound2, hmessage] at h
                exact hleft left' h

end Carried

section Polls

variable {p : DkgSession A B} {taken : List AgentRequest} {before : List AgentMessage}
  {s : Round1 A}

/-- A poll of the agent that starts with `taken` and `before`, and counts
from `received` on. -/
structure Explained (p : DkgSession A B) (taken : List AgentRequest)
    (before : List AgentMessage) (received : Nat) (incoming : List AgentRequest)
    (polled : Dkg A B × AgentTurn) : Prop where
  takes : ∃ count, polled.2.received = received + count ∧
    Dealing p polled.1 (taken ++ incoming.take count) (before ++ polled.2.sent) ∧
    ∀ r, polled.2.result = some r → Finishes p (taken ++ incoming.take count) r

/-- An agent that returns an error. -/
theorem explained_error {received : Nat} {incoming : List AgentRequest}
    {sent : List AgentMessage} {done : List (Nat × B)} (count : Nat) (e : String)
    (hdone : ∀ later, done <+: packagesOf p (taken ++ later))
    (h : Carries p done (before ++ sent)) :
    Explained p taken before received incoming
      (.returned, .returning (received + count) sent (.error e)) := by
  refine ⟨count, rfl, .returned (fun later => ?_) h, ?_⟩
  · rw [List.append_assoc]
    exact hdone _
  · rintro r ⟨⟩
    exact finishes_error e

/-- The second receive loop, entered with what `secondLoop` has. -/
theorem explained_runRound2 {acc : Round2 B} {received : Nat} {sent : List AgentMessage}
    (incoming : List AgentRequest) (hd : dealt p taken = some d)
    (hs : s.packagesForPart2 = d.round1.packagesForPart2)
    (hloop : ∀ later, secondLoop p (taken ++ later)
      = some (collect (needsRound2 p) (takeRound2 p) acc (s.deferredRound2Requests ++ later)))
    (hcarries : Carries p d.packages (before ++ sent)) :
    Explained p taken before received incoming
      (runRound2 p s acc received incoming sent) := by
  have hdone : ∀ later, d.packages <+: packagesOf p (taken ++ later) := by
    intro later
    rw [packagesOf_append hd]
  unfold runRound2
  split
  · rename_i acc' hcollect
    refine ⟨incoming.length, rfl, ?_, nofun⟩
    rw [List.take_length]
    exact .round2 (dealt_append hd incoming) rfl hs ((hloop incoming).trans (by rw [hcollect]))
      hcarries
  · exact explained_error _ _ hdone hcarries
  · rename_i acc' rest hcollect
    refine ⟨incoming.length - rest.length, rfl, .returned (fun later => ?_) hcarries, ?_⟩
    · rw [List.append_assoc]
      exact hdone _
    · rintro r ⟨⟩
      intro bytes hbytes
      -- the loop is done without the requests it has not taken
      have hcut : s.deferredRound2Requests ++ incoming
          = (s.deferredRound2Requests ++ incoming.take (incoming.length - rest.length))
            ++ incoming.drop (incoming.length - rest.length) := by
        rw [List.append_assoc, List.take_append_drop]
      rw [hcut] at hcollect
      obtain ⟨left, _, hused⟩ := collect_done_prefix _ _ hcollect (by
        rw [List.length_drop]
        omega)
      refine ⟨_, acc', left, dealt_append hd _, ?_, ?_⟩
      · rw [hloop, hused]
      · rw [← hs]
        exact hbytes

/-- The packages are sent, and the second loop may follow. -/
theorem explained_runSending {done todo : List (Nat × B)} {sent : List AgentMessage}
    (room received : Nat) (incoming : List AgentRequest)
    (hd : dealt p taken = some { round1 := s, rest := [], packages := done ++ todo })
    (hcarries : Carries p done (before ++ sent)) :
    Explained p taken before received incoming
      (runSending p s todo room received incoming sent) := by
  obtain ⟨now, left, htodo, hnow, hleft⟩ := carries_sendRound2 p room todo
  have hcarries' : Carries p (done ++ now) (before ++ (sent ++ (sendRound2 p room todo).1)) := by
    rw [← List.append_assoc]
    exact hcarries.append hnow
  have hdone : ∀ later, done ++ now <+: packagesOf p (taken ++ later) := by
    intro later
    rw [packagesOf_append hd, htodo, ← List.append_assoc]
    exact List.prefix_append ..
  unfold runSending
  split
  · rename_i messages e heq
    rw [heq] at hcarries'
    exact explained_error 0 _ hdone hcarries'
  · rename_i messages heq
    rw [heq] at hcarries' hleft
    cases hleft [] rfl
    refine explained_runRound2 incoming hd rfl (fun later => ?_) ?_
    · rw [secondLoop_append hd, List.append_nil]
    · rw [htodo, List.append_nil]
      exact hcarries'
  · rename_i messages left' _ heq
    rw [heq] at hcarries' hleft
    cases hleft left' rfl
    refine ⟨0, rfl, ?_, nofun⟩
    rw [List.take_zero, List.append_nil]
    rw [htodo, ← List.append_assoc] at hd
    exact .sending hd hcarries'

/-- The first receive loop, and what follows it. -/
theorem explained_runRound1 {package : A} {message : AgentMessage} {room : Nat}
    {sent : List AgentMessage} (incoming : List AgentRequest)
    (hsend : sendRound1 p = .ok (package, message))
    (hloop : ∀ later, collect (needsRound1 p) (takeRound1 p) (.new p package) (taken ++ later)
      = collect (needsRound1 p) (takeRound1 p) s later) (hcarries : Carries p [] (before ++ sent)) :
    Explained p taken before 0 incoming (runRound1 p s room incoming sent) := by
  have hnone : ∀ later, [] <+: packagesOf p (taken ++ later) := fun _ => List.nil_prefix
  unfold runRound1
  split
  · rename_i s' hcollect
    refine ⟨incoming.length, (Nat.zero_add _).symm, ?_, nofun⟩
    rw [List.take_length]
    exact .round1 hsend ((hloop incoming).trans hcollect) hcarries
  · rw [← Nat.zero_add (incoming.length - _)]
    exact explained_error _ _ hnone hcarries
  · rename_i s' rest hcollect
    split
    · rw [← Nat.zero_add (incoming.length - _)]
      exact explained_error _ _ hnone hcarries
    · rename_i todo hstart
      obtain ⟨used, rfl⟩ := suffix_of_done hcollect
      obtain ⟨left, hleft, hused⟩ := collect_done_prefix used s hcollect (Nat.le_refl _)
      cases List.self_eq_append_left.mp hleft
      have hd : dealt p (taken ++ used)
          = some { round1 := s', rest := [], packages := [] ++ todo } := by
        unfold dealt
        simp only [hsend, hloop, hused, hstart, List.nil_append]
      obtain ⟨count, hcount, hdealing, hfinishes⟩ :=
        explained_runSending room ((used ++ rest).length - rest.length) rest hd hcarries
      have htake : (used ++ rest).take ((used ++ rest).length - rest.length + count)
          = used ++ rest.take count := by
        rw [List.length_append, Nat.add_sub_cancel, List.take_length_add_append]
      refine ⟨_, hcount.trans (Nat.zero_add _).symm, ?_, ?_⟩
      · rw [htake, ← List.append_assoc]
        exact hdealing
      · rw [htake, ← List.append_assoc]
        exact hfinishes

/-- A poll of `run_dkg`. -/
theorem explained_runDkg {a : Dkg A B} (capacity : Nat) (h : Dealing p a taken before)
    (incoming : List AgentRequest) (outgoing : List AgentMessage) :
    Explained p taken before 0 incoming (runDkg p capacity a incoming outgoing) := by
  cases h with
  | start =>
      rw [runDkg]
      split
      · rename_i package message hsend
        refine explained_runRound1 incoming hsend (fun later => rfl) ?_
        show Carries p [] [message]
        unfold Carries
        rw [List.filter_cons, (sendRound1_eq_ok hsend).2.1]
        exact .nil
      · have hnone : Carries p [] ([] ++ []) := .nil
        exact explained_error 0 _ (fun _ => List.nil_prefix) hnone
  | round1 hsend hwaiting hcarries =>
      rw [runDkg]
      refine explained_runRound1 incoming hsend (fun later => ?_) ?_
      · rw [collect_append, hwaiting]
      · rw [List.append_nil]
        exact hcarries
  | sending hd hcarries =>
      rw [runDkg]
      refine explained_runSending _ _ incoming hd ?_
      rw [List.append_nil]
      exact hcarries
  | @round2 s acc d taken before hd hdeferred hs hloop hcarries =>
      rw [runDkg]
      -- the second loop starts with the deferred messages
      refine explained_runRound2 incoming hd hs (fun later => ?_) ?_
      · rw [secondLoop, hd, Option.map_some, Option.some.injEq] at hloop
        rw [secondLoop_append hd, collect_append, hloop, hdeferred]
        rfl
      · rw [List.append_nil]
        exact hcarries
  | returned hdone hcarries =>
      rw [runDkg]
      refine ⟨0, rfl, ?_, ?_⟩
      · rw [List.take_zero, List.append_nil]
        show Dealing p .returned taken (before ++ [])
        rw [List.append_nil]
        exact .returned hdone hcarries
      · intro result hresult
        cases hresult

/-- The agent's states are those of the replay. -/
theorem explains_runDkg (p : DkgSession A B) (capacity : Nat) :
    Explains (runDkg p capacity) (Dealing p) (Finishes p) where
  step incoming outgoing h := by
    obtain ⟨count, hcount, hdealing, _⟩ := explained_runDkg capacity h incoming outgoing
    rw [hcount, Nat.zero_add]
    exact hdealing
  result incoming outgoing h hresult := by
    obtain ⟨count, hcount, _, hfinishes⟩ := explained_runDkg capacity h incoming outgoing
    rw [hcount, Nat.zero_add]
    exact hfinishes _ hresult

end Polls

end FrostMpcTss.Proofs
