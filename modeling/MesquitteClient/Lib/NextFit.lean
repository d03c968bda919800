import MesquitteClient.Lib.Run
import Mathlib.Tactic.SplitIfs

/-!
# Next fit

A next-fit allocator issues positions of a ring: each time the first that is
not in use after the last it has issued. Along a run of a system that keeps
such an allocator a position comes back only after all the others have been in
use since (`NextFit.reused`), whatever is freed and when. The positions of the
ring are numbered from 1 on.
-/

namespace Lts

variable {σ ε : Type*}

/-- How many positions of a ring of `n` come before `k` on the way round from
the one after `last`; `last` itself comes last. -/
def ringDistance (n last k : Nat) : Nat := if last < k then k - last - 1 else k + n - last - 1

/-- Of what is not on the way from `k` to `last`, what is passed first from
`last` on comes first from `k` on. -/
theorem ringDistance_lt {k last j r : Nat} (hk : 0 < k ∧ k ≤ n) (hl : 0 < last ∧ last ≤ n)
    (hj : 0 < j ∧ j ≤ n) (hr : 0 < r ∧ r ≤ n) (hjr : j ≠ r)
    (hbehind : last = k ∨ ringDistance n k last < ringDistance n k j)
    (hle : ringDistance n k j ≤ ringDistance n k r) :
    ringDistance n last j < ringDistance n last r := by
  unfold ringDistance at *
  split_ifs at * <;> omega

/-- A system issues positions next fit: `last` is the position it issued last,
`issues` the one that a label issues. -/
structure NextFit (step : σ → ε → Option σ) (guard : Guard σ ε) (init : σ) (n : Nat)
    (last : σ → Nat) (used : σ → Nat → Prop) (issues : ε → Option Nat) : Prop where
  range : Run step guard init h s → 0 < last s ∧ last s ≤ n
  issued : Run step guard init h s → step s e = some s' → issues e = some k →
    (0 < k ∧ k ≤ n) ∧ last s' = k ∧ used s' k ∧
      ∀ j, 0 < j ∧ j ≤ n → ringDistance n (last s) j < ringDistance n (last s) k → used s j
  kept : Run step guard init h s → step s e = some s' → issues e = none → last s' = last s

/-- A position is in use, or was at a step of this history. -/
def Seen (used : σ → Nat → Prop) (h : History σ ε) (s : σ) (j : Nat) : Prop :=
  used s j ∨ ∃ x ∈ h, used x.1 j

theorem Seen.later {used : σ → Nat → Prop} {h : History σ ε} (hs : Seen used h s j) (e : ε)
    (s' : σ) : Seen used ((s, e) :: h) s' j := by
  rcases hs with hs | ⟨x, hx, hs⟩
  · exact .inr ⟨_, List.mem_cons_self, hs⟩
  · exact .inr ⟨x, List.mem_cons_of_mem _ hx, hs⟩

/-- Since `k` was issued, what lies on the way from it to the last position
issued has been in use; once `k` has come back, everything has. -/
def SeenBehind (n k : Nat) (last : σ → Nat) (used : σ → Nat → Prop) (h : History σ ε) (s : σ) :
    Prop :=
  (∀ j, 0 < j ∧ j ≤ n → j ≠ k → Seen used h s j) ∨
    ∀ j, 0 < j ∧ j ≤ n → j ≠ k → last s ≠ k →
      ringDistance n k j ≤ ringDistance n k (last s) → Seen used h s j

variable {step : σ → ε → Option σ} {guard : Guard σ ε} {init : σ} {last : σ → Nat}
  {used : σ → Nat → Prop} {issues : ε → Option Nat} {h h₁ mid : History σ ε} {s s' s₁ : σ} {e e₁ : ε}

/-- What an issue passes over, and has not been in use since `k` was issued, is
in use now. -/
theorem NextFit.skipped (hn : NextFit step guard init n last used issues)
    (hr : Run step guard init h s) (hs : step s e = some s') (he : issues e = some r)
    (hk : 0 < k ∧ k ≤ n) (hseen : SeenBehind n k last used mid s) (hj : 0 < j ∧ j ≤ n)
    (hne : j ≠ k) (hjr : j ≠ r) (hle : ringDistance n k j ≤ ringDistance n k r) :
    Seen used mid s j := by
  obtain ⟨hrange, hskip⟩ := hn.issued hr hs he
  rcases hseen with hall | hbehind
  · exact hall j hj hne
  · by_cases hl : last s = k ∨ ringDistance n k (last s) < ringDistance n k j
    · exact .inl (hskip.2.2 j hj (ringDistance_lt hk (hn.range hr) hj hrange hjr hl hle))
    · rw [not_or, Nat.not_lt] at hl
      exact hbehind j hj hne hl.1 hl.2

/-- When `k` comes back, everything has been in use. -/
theorem NextFit.all (hn : NextFit step guard init n last used issues)
    (hr : Run step guard init h s) (hs : step s e = some s') (he : issues e = some k)
    (hseen : SeenBehind n k last used mid s) (hj : 0 < j ∧ j ≤ n) (hne : j ≠ k) :
    Seen used mid s j := by
  have hk := (hn.issued hr hs he).1
  refine hn.skipped hr hs he hk hseen hj hne hne ?_
  unfold ringDistance
  split_ifs <;> omega

theorem NextFit.seenBehind_step (hn : NextFit step guard init n last used issues)
    (hr : Run step guard init h s) (hs : step s e = some s') (hk : 0 < k ∧ k ≤ n)
    (hseen : SeenBehind n k last used mid s) : SeenBehind n k last used ((s, e) :: mid) s' := by
  cases he : issues e with
  | none =>
    have hlast := hn.kept hr hs he
    rcases hseen with hall | hbehind
    · exact .inl fun j hj hne => (hall j hj hne).later e s'
    · refine .inr fun j hj hne hl hle => ?_
      rw [hlast] at hl hle
      exact (hbehind j hj hne hl hle).later e s'
  | some r =>
    by_cases hrk : r = k
    · exact .inl fun j hj hne => (hn.all hr hs (hrk ▸ he) hseen hj hne).later e s'
    · obtain ⟨_, hlast, hused, _⟩ := hn.issued hr hs he
      refine .inr fun j hj hne _ hle => ?_
      rw [hlast] at hle
      by_cases hjr : j = r
      · exact .inl (hjr ▸ hused)
      · exact (hn.skipped hr hs he hk hseen hj hne hjr hle).later e s'

theorem NextFit.seenBehind_run (hn : NextFit step guard init n last used issues)
    (hr : Run step guard init (mid ++ (s₁, e₁) :: h₁) s) (he : issues e₁ = some k) :
    SeenBehind n k last used mid s := by
  induction mid generalizing s with
  | nil =>
    cases hr with
    | snoc hr _ hs =>
      have hlast := (hn.issued hr hs he).2.1
      exact .inr fun j _ _ hl => absurd hlast hl
  | cons x mid ih =>
    cases hr with
    | snoc hr _ hs =>
      obtain ⟨hr₁, _, _, hs₁, _⟩ := hr.split
      exact hn.seenBehind_step hr hs (hn.issued hr₁ hs₁ he).1 (ih hr)

/-- Between two issues of a position every other has been in use. -/
theorem NextFit.reused (hn : NextFit step guard init n last used issues)
    (hr : Run step guard init (mid ++ (s₁, e₁) :: h₁) s) (hs : step s e = some s')
    (he₁ : issues e₁ = some k) (he : issues e = some k) (hj : 0 < j ∧ j ≤ n) (hne : j ≠ k) :
    Seen used mid s j :=
  hn.all hr hs he (hn.seenBehind_run hr he₁) hj hne

end Lts
