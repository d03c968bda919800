import MesquitteClient.Token
import MesquitteClient.Lib.Run

/-!
# The tasks that await a token

A token can be cloned and every clone is a future, so any number of tasks can
poll it. They share one `waker`: a poll puts the task's own in place of
whatever is there, and the completion wakes the one it finds. A task is known
here by its waker.
-/

namespace MesquitteClient

/-- What happens to a token while tasks await it. -/
inductive TokenEvent
  | poll (task : Waker)
  | setError (error : TokenError)
  | flowComplete
  deriving DecidableEq

def TokenEvent.completes : TokenEvent → Bool
  | .poll _ => false
  | _ => true

namespace InnerToken

def step (token : InnerToken) : TokenEvent → Option InnerToken
  | .poll task => some (token.poll task).1
  | .setError error => some (token.setError error)
  | .flowComplete => some token.flowComplete

abbrev TokenHistory := Lts.History InnerToken TokenEvent

/-- The last poll of a task returned `Pending`, and the task has not been woken
since: `set_error` and `flow_complete` wake the one in the slot. -/
def waiting (task : Waker) : TokenHistory → Bool
  | [] => false
  | (token, .poll other) :: h =>
    if other = task then (token.poll other).2.isNone else waiting task h
  | (token, _) :: h => token.waker ≠ some task && waiting task h

/-- The tasks that have polled, the last one first. -/
def pollers (h : TokenHistory) : List Waker :=
  h.filterMap fun (_, e) =>
    match e with
    | .poll task => some task
    | _ => none

/-- No task waits for a token that is complete. -/
def NoneForgotten (h : TokenHistory) (token : InnerToken) : Prop :=
  token.complete → ∀ task, waiting task h = false

/-- When the token completes, all polls so far have been by one task. -/
def OneWaiter (h : TokenHistory) : Prop :=
  ∀ later token e h₁, h = later ++ (token, e) :: h₁ → e.completes → token.complete = false →
    ∀ task other, task ∈ pollers h₁ → other ∈ pollers h₁ → task = other

variable {token token' : InnerToken} {h : TokenHistory} {data : TokenData}

/-- Before the completion every poll is answered `Pending`, and the slot has the
waker of the last one. -/
structure Awaited (h : TokenHistory) (token : InnerToken) : Prop where
  waiting : token.complete = false → ∀ task, waiting task h ↔ task ∈ pollers h
  waker : token.complete = false → token.waker = (pollers h).head?

theorem awaited_new (data : TokenData) : Awaited [] { data } where
  waiting _ task := by simp [InnerToken.waiting, pollers]
  waker _ := rfl

theorem poll_of_complete (hc : token.complete) : (token.poll task) = (token, some token.error) := by
  rw [poll, if_pos hc]

theorem poll_of_not_complete (hc : token.complete = false) :
    (token.poll task) = ({ token with waker := some task }, none) := by
  rw [poll, if_neg (by simp [hc])]

theorem awaited_step (ha : Awaited h token) (hs : token.step e = some token') :
    Awaited ((token, e) :: h) token' := by
  cases e with
  | poll task =>
    cases hs
    cases hc : token.complete with
    | true =>
      rw [poll_of_complete hc]
      exact ⟨fun h => by simp [hc] at h, fun h => by simp [hc] at h⟩
    | false =>
      rw [poll_of_not_complete hc]
      refine ⟨fun _ other => ?_, fun _ => rfl⟩
      have hpollers : pollers ((token, .poll task) :: h) = task :: pollers h := rfl
      rw [InnerToken.waiting, hpollers, List.mem_cons]
      by_cases ht : task = other
      · simp [ht, poll_of_not_complete hc]
      · rw [if_neg ht, ha.waiting hc]
        exact ⟨.inr, fun h => h.resolve_left fun heq => ht heq.symm⟩
  | setError error | flowComplete =>
    cases hs
    constructor <;> intro hc <;> cases hc

theorem awaited (hr : Lts.Run step Lts.anything { data } h token) : Awaited h token :=
  hr.invariant (awaited_new data) fun _ ha _ hs => awaited_step ha hs

theorem waiting_of_completes (he : e.completes) (task : Waker) :
    waiting task ((token, e) :: h) = (token.waker ≠ some task && waiting task h) := by
  cases e with
  | poll other => cases he
  | setError error | flowComplete => rfl

/-- The completion wakes the last task that polled. -/
theorem waiting_completed (ha : Awaited h token) (he : e.completes) (hc : token.complete = false) :
    waiting task ((token, e) :: h) ↔ task ∈ pollers h ∧ (pollers h).head? ≠ some task := by
  rw [waiting_of_completes he, Bool.and_eq_true, decide_eq_true_eq, ha.waker hc,
    ha.waiting hc task]
  exact And.comm

/-- Nobody starts to wait for a token that is complete. -/
theorem noneForgotten_of_complete (hn : NoneForgotten h token) (hc : token.complete)
    (e : TokenEvent) (task : Waker) : waiting task ((token, e) :: h) = false := by
  have hold := hn hc task
  cases e with
  | poll other =>
    rw [waiting, poll_of_complete hc, hold]
    split <;> rfl
  | setError error | flowComplete =>
    rw [waiting_of_completes rfl, hold]
    exact Bool.and_false _

theorem OneWaiter.tail (ho : OneWaiter (later ++ h)) : OneWaiter h := by
  rintro later' token e h₁ rfl
  exact ho (later ++ later') token e h₁ (List.append_assoc ..).symm

theorem noneForgotten_run (hr : Lts.Run step Lts.anything { data } h token) (ho : OneWaiter h) :
    NoneForgotten h token := by
  induction hr with
  | nil => exact fun _ task => rfl
  | @snoc h token e token' hr _ hs ih =>
    have ho₁ : OneWaiter ([(token, e)] ++ h) := ho
    have hn := ih ho₁.tail
    intro hc' task
    cases hc : token.complete with
    | true => exact noneForgotten_of_complete hn hc e task
    | false =>
      have he : e.completes := by
        cases e with
        | poll other =>
          cases hs
          rw [poll_of_not_complete hc] at hc'
          exact absurd hc' (by simp [hc])
        | setError error | flowComplete => rfl
      rw [← Bool.not_eq_true, waiting_completed (awaited hr) he hc]
      rintro ⟨hm, hhead⟩
      -- the last task that polled is the one
      cases hp : pollers h with
      | nil => simp [hp] at hm
      | cons last rest =>
        have hlast : last ∈ pollers h := by simp [hp]
        have heq := ho [] token e h rfl he hc last task hlast hm
        simp [hp, heq] at hhead

/-- In every state of a run, no task is left waiting for a token that is
complete, exactly when one task at most has polled it before it completed. -/
theorem noneForgotten_iff (hr : Lts.Run step Lts.anything { data } h token) :
    (∀ later h₁ token₁, h = later ++ h₁ → Lts.Run step Lts.anything { data } h₁ token₁ →
      NoneForgotten h₁ token₁) ↔ OneWaiter h := by
  constructor
  · rintro hall later token₁ e h₁ rfl he hc task other ht hother
    obtain ⟨hr₁, _, token₂, hs, hr₂⟩ := hr.split
    have hn := hall later ((token₁, e) :: h₁) token₂ rfl hr₂
    have hc₂ : token₂.complete := by
      cases e with
      | poll _ => cases he
      | setError error | flowComplete =>
        cases hs
        rfl
    -- a task that polled and is not waiting is the one that was woken
    have hwoken (task : Waker) (ht : task ∈ pollers h₁) : (pollers h₁).head? = some task := by
      by_contra hne
      have hw := (waiting_completed (awaited hr₁) he hc).mpr ⟨ht, hne⟩
      rw [hn hc₂ task] at hw
      cases hw
    exact Option.some.inj ((hwoken task ht).symm.trans (hwoken other hother))
  · rintro ho later h₁ token₁ rfl hr₁
    exact noneForgotten_run hr₁ ho.tail

/-- Two tasks poll a token, and it completes. -/
theorem first_waiter_forgotten : ¬ ∀ data h token,
    Lts.Run step Lts.anything { data } h token → NoneForgotten h token := by
  obtain ⟨h, token, hr, ht⟩ := Lts.exists_run step Lts.anything { data := .disconnect }
    [.poll 1, .poll 2, .flowComplete] (fun h token => token.complete && waiting 1 h) (by decide)
  rw [Bool.and_eq_true] at ht
  intro hall
  have hwaiting := hall _ h token hr ht.1 1
  rw [ht.2] at hwaiting
  cases hwaiting

/-- One task polls a token twice. -/
theorem noneForgotten_one : ∃ h token, Lts.Run step Lts.anything { data := .disconnect } h token ∧
    token.complete ∧ ∀ later h₁ token₁, h = later ++ h₁ →
      Lts.Run step Lts.anything { data := .disconnect } h₁ token₁ → NoneForgotten h₁ token₁ := by
  obtain ⟨h, token, hr, ht⟩ := Lts.exists_run step Lts.anything { data := .disconnect }
    [.poll 1, .poll 1, .flowComplete]
    (fun h token => token.complete && (pollers h).all (· = 1)) (by decide)
  rw [Bool.and_eq_true, List.all_eq_true] at ht
  refine ⟨h, token, hr, ht.1, (noneForgotten_iff hr).mpr ?_⟩
  rintro later token₁ e h₁ rfl _ _ task other htask hother
  have hone (task : Waker) (hm : task ∈ pollers h₁) : task = 1 := by
    refine of_decide_eq_true (ht.2 task ?_)
    rw [pollers, List.filterMap_append, List.mem_append, List.filterMap_cons]
    right
    split
    · exact hm
    · exact List.mem_cons_of_mem _ hm
  rw [hone task htask, hone other hother]

end InnerToken

end MesquitteClient
