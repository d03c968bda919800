import Mathlib.Algebra.Ring.Nat
import MesquitteClient.Lib.PathBag

/-!
# How often a query comes to a path

A walk through a bag that goes on, at each level of a query, below the level
itself and below the wildcard `one`, and ends at `rest`, comes to a path once
if the query has no wildcard levels. Otherwise each level at which path and
query have the same wildcard is two ways to go (`ways_eq`).
-/

namespace PathBag

variable {α β : Type*} {one rest : α} [DecidableEq α] {bag : List (List α × β)}

/-- In how many ways a query comes to a path that goes on at each level below
the level itself and below `one`, and ends at `rest`. -/
def ways (one rest : α) : List α → List α → Nat
  | [], [] => 1
  | f :: fs, t :: ts =>
    (if f = t then ways one rest fs ts else 0) + (if f = one then ways one rest fs ts else 0) +
      if f = rest ∧ fs = [] then 1 else 0
  | _, _ => 0

/-- The levels at which path and query have the same wildcard: any `one`, and
a `rest` that is the last of both. -/
def shared (one rest : α) : List α → List α → Nat
  | f :: fs, t :: ts =>
    (if f = t ∧ (f = one ∨ f = rest ∧ fs = [] ∧ ts = []) then 1 else 0) + shared one rest fs ts
  | _, _ => 0

/-- Each level with the same wildcard doubles the ways. -/
theorem ways_eq (hne : one ≠ rest) (path query : List α) : ways one rest path query =
    if Matches one rest path query then 2 ^ shared one rest path query else 0 := by
  induction path generalizing query with
  | nil => cases query <;> simp [ways, shared]
  | cons f fs ih =>
    cases query with
    | nil => simp [ways]
    | cons t ts =>
      simp only [ways, shared, ih, matches_cons_cons]
      by_cases hr : f = rest ∧ fs = []
      · obtain ⟨rfl, rfl⟩ := hr
        have ho : f ≠ one := hne.symm
        by_cases ht : f = t
        · subst ht
          cases ts <;> simp [ho, shared]
        · simp [ht, ho, shared]
      · -- one way at this level, or two
        have hlast : ¬ (f = rest ∧ fs = [] ∧ ts = []) := fun h => hr ⟨h.1, h.2.1⟩
        simp only [hr, hlast, or_false, false_or, if_false, Nat.add_zero]
        by_cases hm : Matches one rest fs ts
        · simp only [hm, and_true, if_true]
          by_cases ht : f = t
          · subst ht
            by_cases ho : f = one
            · rw [if_pos rfl, if_pos ho, if_pos (.inl rfl), if_pos ⟨rfl, ho⟩, Nat.pow_add,
                ← Nat.two_mul]
            · simp [ho]
          · by_cases ho : f = one
            · rw [if_neg ht, if_pos ho, if_pos (.inr ho), if_neg fun h => ht h.1, Nat.zero_add,
                Nat.zero_add]
            · simp [ht, ho]
        · simp [hm]

/-- What a query comes to in a bag, value by value, counting every way. -/
def reached [DecidableEq β] (one rest : α) (bag : List (List α × β)) (query : List α) (v : β) :
    Nat :=
  (bag.map fun p => if p.2 = v then ways one rest p.1 query else 0).sum

variable [DecidableEq β] {v : β}

theorem reached_nil : reached one rest bag [] v = (filed bag []).count v := by
  induction bag with
  | nil => rfl
  | cons p bag ih =>
    obtain ⟨fs, u⟩ := p
    simp only [reached, List.map_cons, List.sum_cons] at ih ⊢
    rw [ih, filed_cons, List.count_append]
    cases fs <;> by_cases hv : u = v <;> simp [ways, hv]

theorem reached_cons : reached one rest bag (t :: ts) v =
    reached one rest (below t bag) ts v + reached one rest (below one bag) ts v +
      (filed (below rest bag) []).count v := by
  induction bag with
  | nil => rfl
  | cons p bag ih =>
    obtain ⟨fs, u⟩ := p
    cases fs with
    | nil => simpa [reached, below, ways] using ih
    | cons f fs =>
      have hbelow (level : α) : reached one rest (below level ((f :: fs, u) :: bag)) ts v =
          (if f = level ∧ u = v then ways one rest fs ts else 0) +
            reached one rest (below level bag) ts v := by
        by_cases hl : f = level <;> simp [reached, below, hl]
      have hfiled : (filed (below rest ((f :: fs, u) :: bag)) []).count v =
          (if f = rest ∧ fs = [] ∧ u = v then 1 else 0) + (filed (below rest bag) []).count v := by
        rw [filed_below, filed_below, filed_cons, List.count_append]
        by_cases hp : f = rest ∧ fs = []
        · by_cases hv : u = v <;> simp [hp, hv]
        · have hne : f :: fs ≠ [rest] := by simpa using hp
          rw [if_neg hne, if_neg fun h => hp ⟨h.1, h.2.1⟩]
          rfl
      have hcons : reached one rest ((f :: fs, u) :: bag) (t :: ts) v =
          (if u = v then ways one rest (f :: fs) (t :: ts) else 0) +
            reached one rest bag (t :: ts) v := by
        simp [reached]
      rw [hcons, hbelow, hbelow, hfiled, ih, ways]
      by_cases hv : u = v
      · simp only [hv, and_true, if_true]
        omega
      · simp only [hv, and_false, if_false]
        omega

end PathBag
