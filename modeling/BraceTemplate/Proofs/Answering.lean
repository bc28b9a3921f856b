import BraceTemplate.Diagnostic

/-!
# Requests one after the other

Something that answers requests goes from state to state. A request that is
refused leaves the state as it is. What one answer keeps, all of them keep.
-/

namespace BraceTemplate

variable {State Request Answer : Type}

/-- The state after a request that is refused or leads to another state. -/
def settle (s : State) (granted : Answer) : Except Fault State → State × Except Fault Answer
  | .ok t => (t, .ok granted)
  | .error fault => (s, .error fault)

theorem settle_of_error {s : State} {granted : Answer} {next : Except Fault State} {fault : Fault}
    (h : (settle s granted next).2 = .error fault) : (settle s granted next).1 = s := by
  cases next with
  | error _ => rfl
  | ok t => cases h

/-- The state after several requests, and the answer to each. -/
def answerAll (answer : State → Request → State × Answer) (s : State) :
    List Request → State × List Answer
  | [] => (s, [])
  | request :: requests =>
    let (t, result) := answer s request
    let (u, results) := answerAll answer t requests
    (u, result :: results)

/-- An invariant of the state bounds the answers. -/
theorem answerAll_keeps {answer : State → Request → State × Answer} (P : State → Prop)
    (Q : Answer → Prop) (hstep : ∀ s request, P s → P (answer s request).1 ∧ Q (answer s request).2)
    {s : State} (hs : P s) (requests : List Request) :
    P (answerAll answer s requests).1 ∧ ∀ result ∈ (answerAll answer s requests).2, Q result := by
  induction requests generalizing s with
  | nil => exact ⟨hs, fun _ h => nomatch h⟩
  | cons request requests ih =>
    obtain ⟨hnext, hresult⟩ := hstep s request hs
    obtain ⟨hlast, hresults⟩ := ih hnext
    refine ⟨hlast, ?_⟩
    change ∀ result ∈ (answer s request).2 :: _, Q result
    rw [List.forall_mem_cons]
    exact ⟨hresult, hresults⟩

theorem answerAll_concat (answer : State → Request → State × Answer) (s : State)
    (requests : List Request) (request : Request) :
    answerAll answer s (requests ++ [request]) =
      ((answer (answerAll answer s requests).1 request).1,
        (answerAll answer s requests).2 ++
          [(answer (answerAll answer s requests).1 request).2]) := by
  induction requests generalizing s with
  | nil => rfl
  | cons first requests ih =>
    simp only [List.cons_append, answerAll, ih]

theorem length_answerAll (answer : State → Request → State × Answer) (s : State)
    (requests : List Request) : (answerAll answer s requests).2.length = requests.length := by
  induction requests generalizing s with
  | nil => rfl
  | cons request requests ih => exact congrArg Nat.succ (ih (answer s request).1)

/-- States that stand for each other and answer alike go on to do so. -/
theorem answerAll_same {Other : Type} {answer : State → Request → State × Answer}
    {reference : Other → Request → Other × Answer} (R : State → Other → Prop)
    (hstep : ∀ s t request, R s t → R (answer s request).1 (reference t request).1 ∧
      (answer s request).2 = (reference t request).2)
    {s : State} {t : Other} (h : R s t) (requests : List Request) :
    R (answerAll answer s requests).1 (answerAll reference t requests).1 ∧
      (answerAll answer s requests).2 = (answerAll reference t requests).2 := by
  induction requests generalizing s t with
  | nil => exact ⟨h, rfl⟩
  | cons request requests ih =>
    obtain ⟨hnext, hresult⟩ := hstep s t request h
    obtain ⟨hlast, hresults⟩ := ih hnext
    refine ⟨hlast, ?_⟩
    change (answer s request).2 :: _ = (reference t request).2 :: _
    rw [hresult, hresults]

end BraceTemplate
