import MesquitteClient.Lib.Run
import Mathlib.Data.List.Induction

/-!
# Simulations

A simulation shows a system to be one of what an abstract machine allows. The
machine is a relation, and each step of the system is matched by the list of
acts that the step shows, which may be empty. What the machine does along a
path then holds of what the system shows along a run.
-/

namespace Lts

variable {σ ε α β : Type*}

/-- The machine can take these acts in order. -/
inductive Path (Step : α → β → α → Prop) : α → List β → α → Prop
  | nil {a : α} : Path Step a [] a
  | snoc {a a₁ a' : α} {acts : List β} {act : β} : Path Step a acts a₁ → Step a₁ act a' →
      Path Step a (acts ++ [act]) a'

variable {Step : α → β → α → Prop} {a a₁ a' : α} {acts acts' : List β} {act : β}

theorem Path.single (h : Step a act a') : Path Step a [act] a' := Path.nil.snoc h

theorem Path.append (hp : Path Step a acts a₁) (hp' : Path Step a₁ acts' a') :
    Path Step a (acts ++ acts') a' := by
  induction hp' with
  | nil =>
    rw [List.append_nil]
    exact hp
  | snoc _ hs ih =>
    rw [← List.append_assoc]
    exact ih.snoc hs

theorem Path.cons (h : Step a act a₁) (hp : Path Step a₁ acts a') :
    Path Step a (act :: acts) a' :=
  (Path.single h).append hp

/-- The last act of a path, and the path before it. -/
theorem Path.unsnoc (hp : Path Step a (acts ++ [act]) a') :
    ∃ a₁, Path Step a acts a₁ ∧ Step a₁ act a' := by
  generalize hall : acts ++ [act] = all at hp
  cases hp with
  | nil => simp at hall
  | snoc hp hs =>
    obtain ⟨rfl, hact⟩ := List.append_inj' hall rfl
    obtain rfl := List.cons.inj hact |>.1
    exact ⟨_, hp, hs⟩

/-- A path goes through a state after each of its acts. -/
theorem Path.split (hp : Path Step a (acts ++ acts') a') :
    ∃ a₁, Path Step a acts a₁ ∧ Path Step a₁ acts' a' := by
  induction acts' using List.reverseRecOn generalizing a' with
  | nil => exact ⟨a', by simpa using hp, .nil⟩
  | append_singleton acts' act ih =>
    rw [← List.append_assoc] at hp
    obtain ⟨a₂, hp, hs⟩ := hp.unsnoc
    obtain ⟨a₁, h₁, h₂⟩ := ih hp
    exact ⟨a₁, h₁, h₂.snoc hs⟩

/-- What a history shows, oldest step first. -/
def shown (shows : σ × ε → List β) : History σ ε → List β
  | [] => []
  | x :: h => shown shows h ++ shows x

theorem filter_shown {shows : σ × ε → List β} (p : β → Bool) (h : History σ ε) :
    (shown shows h).filter p = shown (fun x => (shows x).filter p) h := by
  induction h with
  | nil => rfl
  | cons x h ih => rw [shown, List.filter_append, ih, shown]

variable {step : σ → ε → Option σ} {guard : Guard σ ε} {init : σ} {h : History σ ε} {s : σ}

/-- If the states of system and machine are related at the start, and each step
of the system is matched by the acts it shows, then every run is matched. -/
theorem Run.simulates {shows : σ × ε → List β} {Rel : σ → α → Prop} {start : α}
    (hr : Run step guard init h s) (h0 : Rel init start)
    (hstep : ∀ {h s e s' a}, Run step guard init h s → Rel s a → guard h s e →
      step s e = some s' → ∃ a', Path Step a (shows (s, e)) a' ∧ Rel s' a') :
    ∃ a, Path Step start (shown shows h) a ∧ Rel s a := by
  induction hr with
  | nil => exact ⟨start, .nil, h0⟩
  | snoc hr hg hs ih =>
    obtain ⟨a, hp, hrel⟩ := ih
    obtain ⟨a', hp', hrel'⟩ := hstep hr hrel hg hs
    exact ⟨a', hp.append hp', hrel'⟩

/-- What is asked for is shown in the order it is asked for: at each step, what
is owed before and asked for is what is shown and owed after. -/
theorem Run.ledger {shows asks : σ × ε → List β} {owed : σ → List β}
    (hr : Run step guard init h s) (h0 : owed init = [])
    (hstep : ∀ {h s e s'}, Run step guard init h s → step s e = some s' →
      owed s ++ asks (s, e) = shows (s, e) ++ owed s') :
    shown shows h ++ owed s = shown asks h := by
  induction hr with
  | nil => exact h0
  | snoc hr _ hs ih => rw [shown, List.append_assoc, ← hstep hr hs, ← List.append_assoc, ih, shown]

end Lts
