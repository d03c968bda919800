import Mathlib.Logic.Basic
import Mathlib.Data.List.Basic
import Mathlib.Logic.Relation

/-!
# Runs of a labelled transition system

A system takes labelled steps: a label says which step, and `step` whether a
state allows it and where it leads. A run records what has been done, newest
step first, as the states the steps started from and their labels. A guard
says which steps the surroundings allow after a given history, so an
assumption about an environment is a guard and the unrestricted system is
`anything`. `since` is the part of a history after its last step of a kind.
`Reaches` forgets the history: it is what some labels can lead to.
-/

namespace Lts

variable {σ ε : Type*}

/-- What has been done, newest step first: where a step started, its label. -/
abbrev History (σ ε : Type*) := List (σ × ε)

/-- What the surroundings allow next. -/
abbrev Guard (σ ε : Type*) := History σ ε → σ → ε → Bool

/-- No assumption about the surroundings. -/
def anything : Guard σ ε := fun _ _ _ => true

def Guard.both (g g' : Guard σ ε) : Guard σ ε := fun h s e => g h s e && g' h s e

theorem Guard.both_eq_true {g g' : Guard σ ε} : g.both g' h s e = true ↔ g h s e ∧ g' h s e := by
  simp [Guard.both]

inductive Run (step : σ → ε → Option σ) (guard : Guard σ ε) (init : σ) : History σ ε → σ → Prop
  | nil : Run step guard init [] init
  | snoc : Run step guard init h s → guard h s e → step s e = some s' →
      Run step guard init ((s, e) :: h) s'

variable {step : σ → ε → Option σ} {guard guard' : Guard σ ε} {init : σ}

/-- A run under a guard is a run under every weaker one. -/
theorem Run.mono (hg : ∀ h s e, guard h s e → guard' h s e) (hr : Run step guard init h s) :
    Run step guard' init h s := by
  induction hr with
  | nil => exact .nil
  | snoc _ hgd hs ih => exact ih.snoc (hg _ _ _ hgd) hs

theorem Run.left (hr : Run step (guard.both guard') init h s) : Run step guard init h s :=
  hr.mono fun _ _ _ hg => (Guard.both_eq_true.mp hg).1

theorem Run.right (hr : Run step (guard.both guard') init h s) : Run step guard' init h s :=
  hr.mono fun _ _ _ hg => (Guard.both_eq_true.mp hg).2

/-- The invariant rule: what holds at the start and is kept by every allowed
step of every run holds after every run. The step may use that the state it
starts from was reached. -/
theorem Run.invariant {P : History σ ε → σ → Prop} (hr : Run step guard init h s)
    (h0 : P [] init)
    (hstep : ∀ {h s e s'}, Run step guard init h s → P h s → guard h s e → step s e = some s' →
      P ((s, e) :: h) s') : P h s := by
  induction hr with
  | nil => exact h0
  | snoc hr hg hs ih => exact hstep hr ih hg hs

/-- The run up to a step of the history, and that step. -/
theorem Run.split (hr : Run step guard init (later ++ (s₁, e) :: h₁) s) :
    Run step guard init h₁ s₁ ∧ guard h₁ s₁ e ∧
      ∃ s₂, step s₁ e = some s₂ ∧ Run step guard init ((s₁, e) :: h₁) s₂ := by
  induction later generalizing s with
  | nil =>
    cases hr with
    | snoc hr hg hs => exact ⟨hr, hg, _, hs, hr.snoc hg hs⟩
  | cons x later ih =>
    cases hr with
    | snoc hr _ _ => exact ih hr

-- ---------------------------------------------------------------------------
-- Since the last step of a kind
-- ---------------------------------------------------------------------------

/-- Where the last step with such a label started. -/
def lastAt (p : ε → Bool) (h : History σ ε) : Option σ := (h.find? fun x => p x.2).map Prod.fst

/-- What has been done since. -/
def since (p : ε → Bool) (h : History σ ε) : History σ ε := h.takeWhile fun x => !p x.2

variable {p : ε → Bool} {h : History σ ε} {s : σ} {e : ε}

theorem lastAt_of_pos (he : p e) : lastAt p ((s, e) :: h) = some s := by
  simp [lastAt, he]

theorem lastAt_of_neg (he : p e = false) : lastAt p ((s, e) :: h) = lastAt p h := by
  simp [lastAt, he]

theorem since_of_pos (he : p e) : since p ((s, e) :: h) = [] := by
  simp [since, he]

theorem since_of_neg (he : p e = false) : since p ((s, e) :: h) = (s, e) :: since p h := by
  simp [since, he]

-- ---------------------------------------------------------------------------
-- What some labels can lead to
-- ---------------------------------------------------------------------------

/-- A state is reached by steps whose labels pass a test. -/
def Reaches (step : σ → ε → Option σ) (own : ε → Bool) : σ → σ → Prop :=
  Relation.ReflTransGen fun s s' => ∃ e, own e ∧ step s e = some s'

variable {own : ε → Bool}

theorem Reaches.refl (s : σ) : Reaches step own s s := Relation.ReflTransGen.refl

theorem Reaches.head (he : own e) (hs : step s e = some s₁) (hr : Reaches step own s₁ s') :
    Reaches step own s s' :=
  Relation.ReflTransGen.head ⟨e, he, hs⟩ hr

theorem Reaches.trans (hr : Reaches step own s s₁) (hr' : Reaches step own s₁ s') :
    Reaches step own s s' :=
  Relation.ReflTransGen.trans hr hr'

/-- What these steps keep holds in every state they lead to. -/
theorem Reaches.kept {P : σ → Prop} (hr : Reaches step own s s') (h0 : P s)
    (hstep : ∀ {s e s'}, P s → own e → step s e = some s' → P s') : P s' := by
  induction hr with
  | refl => exact h0
  | tail _ h ih =>
    obtain ⟨e, he, hs⟩ := h
    exact hstep ih he hs

-- ---------------------------------------------------------------------------
-- Labels in order, with others in between
-- ---------------------------------------------------------------------------

/-- The steps of a list of labels, in order, and among them any number of
steps whose labels are silent. -/
inductive Trace (step : σ → ε → Option σ) (silent : ε → Bool) : σ → List ε → σ → Prop
  | nil {s : σ} : Trace step silent s [] s
  | skip {s : σ} {e : ε} : silent e → step s e = some s₁ → Trace step silent s₁ es s' →
      Trace step silent s es s'
  | cons {s : σ} {e : ε} : step s e = some s₁ → Trace step silent s₁ es s' →
      Trace step silent s (e :: es) s'

variable {silent : ε → Bool} {es : List ε}

theorem Trace.reaches (ht : Trace step silent s [] s') : Reaches step silent s s' := by
  generalize hes : ([] : List ε) = es at ht
  induction ht with
  | nil => exact .refl _
  | skip he hs _ ih => exact .head he hs (ih hes)
  | cons => cases hes

theorem Reaches.trace (hr : Reaches step silent s s₁) (ht : Trace step silent s₁ es s') :
    Trace step silent s es s' := by
  induction hr using Relation.ReflTransGen.head_induction_on with
  | refl => exact ht
  | head h _ ih =>
    obtain ⟨e, he, hs⟩ := h
    exact .skip he hs ih

theorem Trace.uncons (ht : Trace step silent s (e :: es) s') :
    ∃ s₀ s₁, Reaches step silent s s₀ ∧ step s₀ e = some s₁ ∧ Trace step silent s₁ es s' := by
  generalize hes : e :: es = es' at ht
  induction ht with
  | nil => cases hes
  | skip he hs _ ih =>
    obtain ⟨s₀, s₁, hr, hs₁, ht⟩ := ih hes
    exact ⟨s₀, s₁, .head he hs hr, hs₁, ht⟩
  | cons hs ht =>
    obtain ⟨rfl, rfl⟩ := List.cons.inj hes
    exact ⟨_, _, .refl _, hs, ht⟩

-- ---------------------------------------------------------------------------
-- Playing a list of labels
-- ---------------------------------------------------------------------------

/-- The run that takes the labels of a list in order, if each step is there
and allowed. -/
def play (step : σ → ε → Option σ) (guard : Guard σ ε) :
    List ε → History σ ε → σ → Option (History σ ε × σ)
  | [], h, s => some (h, s)
  | e :: es, h, s =>
    if guard h s e then (step s e).bind fun s' => play step guard es ((s, e) :: h) s' else none

theorem Run.play (hr : Run step guard init h s) (hp : Lts.play step guard es h s = some (h', s')) :
    Run step guard init h' s' := by
  induction es generalizing h s with
  | nil =>
    simp only [Lts.play, Option.some.injEq, Prod.mk.injEq] at hp
    obtain ⟨rfl, rfl⟩ := hp
    exact hr
  | cons e es ih =>
    simp only [Lts.play, Option.ite_none_right_eq_some, Option.bind_eq_some_iff] at hp
    obtain ⟨hg, s₁, hs, hp⟩ := hp
    exact ih (hr.snoc hg hs) hp

/-- A list of labels that plays to a state passing a test is a run to it. -/
theorem exists_run (step : σ → ε → Option σ) (guard : Guard σ ε) (init : σ) (es : List ε)
    (test : History σ ε → σ → Bool)
    (hp : (play step guard es [] init).any fun r => test r.1 r.2) :
    ∃ h s, Run step guard init h s ∧ test h s := by
  rw [Option.any_eq_true_iff_get] at hp
  obtain ⟨hsome, ht⟩ := hp
  exact ⟨_, _, Run.nil.play (Option.some_get hsome).symm, ht⟩

/-- The same for a run and a run from where it has led to. -/
theorem exists_run_run (step : σ → ε → Option σ) (guard : Guard σ ε) (init : σ) (es es' : List ε)
    (test : σ → History σ ε → σ → Bool)
    (hp : (play step guard es [] init).any fun r =>
      (play step guard es' [] r.2).any fun r' => test r.2 r'.1 r'.2) :
    ∃ h₀ s₀ h s, Run step guard init h₀ s₀ ∧ Run step guard s₀ h s ∧ test s₀ h s := by
  obtain ⟨h₀, s₀, hr₀, hp⟩ := exists_run step guard init es
    (fun _ s₀ => (play step guard es' [] s₀).any fun r => test s₀ r.1 r.2) hp
  obtain ⟨h, s, hr, ht⟩ := exists_run step guard s₀ es' (test s₀) hp
  exact ⟨h₀, s₀, h, s, hr₀, hr, ht⟩

end Lts
