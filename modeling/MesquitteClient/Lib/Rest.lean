import MesquitteClient.Lib.Run

/-!
# Coming to rest

If some of a system's steps all lower a rank, then no run of these steps alone
goes on for ever: there are at most as many of them as the rank of the state
they start from (`steps_le_rank`), and some lead to a state in which none is
left (`exists_rest`). A goal that such steps lead towards is within reach
(`reaches_of_rank`).
-/

namespace Lts

variable {σ ε : Type*} {step : σ → ε → Option σ} {own : ε → Bool} {s s' : σ}

/-- A number of steps whose labels pass a test. -/
inductive Steps (step : σ → ε → Option σ) (own : ε → Bool) : Nat → σ → σ → Prop
  | refl {s : σ} : Steps step own 0 s s
  | head {s s₁ s' : σ} {e : ε} {n : Nat} : own e → step s e = some s₁ → Steps step own n s₁ s' →
      Steps step own (n + 1) s s'

/-- None of these steps is left. -/
def AtRest (step : σ → ε → Option σ) (own : ε → Bool) (s : σ) : Prop :=
  ∀ e, own e → step s e = none

theorem AtRest.not_step (h : AtRest step own s) {e : ε} (he : own e) :
    step s e ≠ some s' := by
  simp [h e he]

variable {rank : σ → Nat}

/-- At most as many as the rank, where some condition holds that the steps keep. -/
theorem steps_le_rank_of {P : σ → Prop}
    (hdec : ∀ {s e s'}, P s → own e → step s e = some s' → P s' ∧ rank s' < rank s) (h : P s)
    (hs : Steps step own n s s') : n ≤ rank s := by
  induction hs with
  | refl => exact Nat.zero_le _
  | head he hs _ ih =>
    obtain ⟨h', hlt⟩ := hdec h he hs
    exact Nat.lt_of_le_of_lt (ih h') hlt

theorem steps_le_rank (hdec : ∀ {s e s'}, own e → step s e = some s' → rank s' < rank s)
    (hs : Steps step own n s s') : n ≤ rank s :=
  steps_le_rank_of (P := fun _ => True) (fun _ he hs => ⟨trivial, hdec he hs⟩) trivial hs

/-- A goal is within reach if some condition holds and every state under it
that is short of the goal has a step to one of lower rank. -/
theorem reaches_of_rank (P goal : σ → Prop) (rank : σ → Nat) (h : P s)
    (hstep : ∀ {s}, P s → ¬ goal s → ∃ e s', own e ∧ step s e = some s' ∧ P s' ∧ rank s' < rank s) :
    ∃ s', Reaches step own s s' ∧ P s' ∧ goal s' := by
  induction hn : rank s using Nat.strongRecOn generalizing s with
  | ind n ih =>
    by_cases hgoal : goal s
    · exact ⟨s, .refl s, h, hgoal⟩
    · obtain ⟨e, s₁, he, hs, h₁, hlt⟩ := hstep h hgoal
      obtain ⟨s', hr, h', hgoal'⟩ := ih (rank s₁) (hn ▸ hlt) h₁ rfl
      exact ⟨s', .head he hs hr, h', hgoal'⟩

theorem exists_rest (hdec : ∀ {s e s'}, own e → step s e = some s' → rank s' < rank s) (s : σ) :
    ∃ s', Reaches step own s s' ∧ AtRest step own s' := by
  have hrest : ∃ s', Reaches step own s s' ∧ True ∧ AtRest step own s' := by
    refine reaches_of_rank (fun _ => True) (AtRest step own) rank trivial fun {s} _ hn => ?_
    simp only [AtRest, not_forall] at hn
    obtain ⟨e, he, hne⟩ := hn
    obtain ⟨s₁, hs⟩ := Option.ne_none_iff_exists'.mp hne
    exact ⟨e, s₁, he, hs, trivial, hdec he hs⟩
  obtain ⟨s', hr, _, hrest⟩ := hrest
  exact ⟨s', hr, hrest⟩

theorem Reaches.mono {own' : ε → Bool} (ho : ∀ e, own e → own' e) (hr : Reaches step own s s') :
    Reaches step own' s s' := by
  induction hr with
  | refl => exact .refl s
  | tail _ hs ih =>
    obtain ⟨e, he, hs⟩ := hs
    exact ih.trans (.head (ho e he) hs (.refl _))

/-- What a run has led to goes on being reached by runs. -/
theorem Reaches.run {init : σ} {h : History σ ε} (hp : Reaches step own s s')
    (hr : Run step anything init h s) : ∃ h', Run step anything init h' s' := by
  induction hp with
  | refl => exact ⟨h, hr⟩
  | tail _ hs ih =>
    obtain ⟨e, _, hs⟩ := hs
    obtain ⟨h', hr'⟩ := ih
    exact ⟨_, hr'.snoc rfl hs⟩

end Lts
