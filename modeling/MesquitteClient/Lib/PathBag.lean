import Mathlib.Data.List.Perm.Basic

/-!
# Bags of values filed under paths, and wildcard matching

A bag is a list of values, each filed under a path of levels. A path may use
two wildcard levels: `one` stands for any one level, and a last `rest` for
one or more levels; `Covers` is the reading in which it may stand for none
too. `matching` is what a query selects from a bag, `filed` what lies under
exactly one path. `matching_cons` splits a query after its first level into
the three ways a path can go on.
-/

namespace PathBag

variable {α β : Type*} {one rest : α}

/-- The paths that match a query, level by level. -/
inductive Matches (one rest : α) : List α → List α → Prop
  | nil : Matches one rest [] []
  | rest : Matches one rest [rest] (t :: ts)
  | level (h : f = t ∨ f = one) : Matches one rest fs ts → Matches one rest (f :: fs) (t :: ts)

@[simp] theorem matches_nil_right : Matches one rest path [] ↔ path = [] := by
  constructor
  · rintro ⟨⟩; rfl
  · rintro rfl; exact .nil

@[simp] theorem matches_nil_left : Matches one rest [] query ↔ query = [] := by
  constructor
  · rintro ⟨⟩; rfl
  · rintro rfl; exact .nil

theorem matches_cons_cons : Matches one rest (f :: fs) (t :: ts) ↔
    (f = rest ∧ fs = []) ∨ ((f = t ∨ f = one) ∧ Matches one rest fs ts) := by
  constructor
  · rintro ⟨⟩
    · exact .inl ⟨rfl, rfl⟩
    · exact .inr ⟨by assumption, by assumption⟩
  · rintro (⟨rfl, rfl⟩ | ⟨h, hm⟩)
    · exact .rest
    · exact .level h hm

instance decidableMatches [DecidableEq α] (one rest : α) : (path query : List α) →
    Decidable (Matches one rest path query)
  | [], _ => decidable_of_iff _ matches_nil_left.symm
  | _ :: _, [] => decidable_of_iff _ matches_nil_right.symm
  | _ :: fs, _ :: ts =>
    have := decidableMatches one rest fs ts
    decidable_of_iff _ matches_cons_cons.symm

-- ---------------------------------------------------------------------------
-- A last wildcard that stands for the parent level too
-- ---------------------------------------------------------------------------

/-- As `Matches`, with a last `rest` for no level as well: a path that ends in
it covers what its parent stands for. -/
inductive Covers (one rest : α) : List α → List α → Prop
  | nil : Covers one rest [] []
  | rest : Covers one rest [rest] ts
  | level (h : f = t ∨ f = one) : Covers one rest fs ts → Covers one rest (f :: fs) (t :: ts)

/-- The query stands for the parent of a path that ends in `rest`. -/
def AtParent (one rest : α) (path query : List α) : Prop :=
  ∃ parent, path = parent ++ [rest] ∧ List.Forall₂ (fun f t => f = t ∨ f = one) parent query

theorem AtParent.level (h : f = t ∨ f = one) (hp : AtParent one rest fs ts) :
    AtParent one rest (f :: fs) (t :: ts) := by
  obtain ⟨parent, rfl, hl⟩ := hp
  exact ⟨f :: parent, rfl, .cons h hl⟩

theorem AtParent.covers (h : AtParent one rest path query) : Covers one rest path query := by
  obtain ⟨parent, rfl, hl⟩ := h
  induction hl with
  | nil => exact .rest
  | cons h _ ih => exact .level h ih

theorem Matches.covers (h : Matches one rest path query) : Covers one rest path query := by
  induction h with
  | nil => exact .nil
  | rest => exact .rest
  | level h _ ih => exact .level h ih

/-- `Matches` misses the parent level of `Covers`, and nothing else. -/
theorem covers_iff :
    Covers one rest path query ↔ Matches one rest path query ∨ AtParent one rest path query := by
  constructor
  · intro h
    induction h with
    | nil => exact .inl .nil
    | @rest ts =>
      cases ts with
      | nil => exact .inr ⟨[], rfl, .nil⟩
      | cons t ts => exact .inl .rest
    | level h _ ih => exact ih.imp (.level h) (.level h)
  · rintro (h | h)
    · exact h.covers
    · exact h.covers

/-- A path that matches is no longer than the query, so the two ways to cover
a query exclude each other. -/
theorem Matches.not_atParent (h : Matches one rest path query) : ¬ AtParent one rest path query := by
  have hle : path.length ≤ query.length := by
    induction h with
    | nil => simp
    | rest => simp
    | level _ _ ih => simpa using ih
  rintro ⟨parent, rfl, hl⟩
  have := hl.length_eq
  simp only [List.length_append, List.length_singleton] at hle
  omega

-- ---------------------------------------------------------------------------
-- Bags
-- ---------------------------------------------------------------------------

/-- What lies under exactly this path, in the order it was filed. -/
def filed [DecidableEq α] (bag : List (List α × β)) (path : List α) : List β :=
  (bag.filter fun p => p.1 = path).map Prod.snd

/-- What a query selects. -/
def matching [DecidableEq α] (one rest : α) (bag : List (List α × β)) (query : List α) : List β :=
  (bag.filter fun p => Matches one rest p.1 query).map Prod.snd

/-- The part of a bag below one level, with that level taken off. -/
def below [DecidableEq α] (level : α) (bag : List (List α × β)) : List (List α × β) :=
  bag.filterMap fun p => match p.1 with
    | [] => none
    | f :: fs => if f = level then some (fs, p.2) else none

variable [DecidableEq α] {bag : List (List α × β)}

@[simp] theorem filed_nil : filed ([] : List (List α × β)) path = [] := rfl

@[simp] theorem filed_append : filed (bag ++ bag') path = filed bag path ++ filed bag' path := by
  simp [filed]

@[simp] theorem filed_cons :
    filed ((path', v) :: bag) path = (if path' = path then [v] else []) ++ filed bag path := by
  by_cases h : path' = path <;> simp [filed, h]

theorem mem_filed {v : β} : v ∈ filed bag path ↔ (path, v) ∈ bag := by
  simp [filed]

/-- Discarding by path: nothing is left under a discarded path, and the
others keep what they had. -/
theorem filed_filter_ne (path' : List α) :
    filed (bag.filter fun p => p.1 ≠ path') path = if path' = path then [] else filed bag path := by
  split
  · subst path'
    simp [filed, List.filter_filter]
  · rename_i h
    simp only [filed, List.filter_filter]
    congr 1
    refine List.filter_congr fun p _ => ?_
    by_cases hp : p.1 = path
    · simp [hp, Ne.symm h]
    · simp [hp]

theorem filed_below (level : α) : filed (below level bag) path = filed bag (level :: path) := by
  induction bag with
  | nil => rfl
  | cons p bag ih =>
    obtain ⟨fs, v⟩ := p
    cases fs with
    | nil => simpa [below] using ih
    | cons f fs =>
      by_cases hf : f = level
      · subst hf
        simpa [below] using ih
      · simpa [below, hf] using ih

theorem matching_nil : matching one rest bag [] = filed bag [] := by
  simp [matching, filed]

/-- After its first level a query goes on below the same level, below `one`,
or ends at `rest`. The level itself must not be a wildcard, and the wildcards
must differ, so that the three ways do not overlap. -/
theorem matching_cons (h1 : t ≠ one) (h2 : t ≠ rest) (h3 : one ≠ rest) :
    (matching one rest bag (t :: ts)).Perm
      (matching one rest (below t bag) ts ++ matching one rest (below one bag) ts ++
        filed (below rest bag) []) := by
  induction bag with
  | nil => rfl
  | cons p bag ih =>
    obtain ⟨fs, v⟩ := p
    simp only [matching, filed, below] at ih ⊢
    cases fs with
    | nil => simpa using ih
    | cons f fs =>
      by_cases hr : f = rest
      · subst hr
        by_cases hfs : fs = []
        · subst hfs
          simp only [List.filter_cons, List.filterMap_cons, matches_cons_cons, h2.symm, h3.symm,
            ↓reduceIte, decide_true, true_and, true_or, List.map_cons]
          exact (ih.cons v).trans List.perm_middle.symm
        · simpa [matches_cons_cons, h2.symm, h3.symm, hfs] using ih
      · by_cases ht : f = t
        · subst ht
          by_cases hm : Matches one rest fs ts
          · simpa [matches_cons_cons, h1, h2, hm] using ih
          · simpa [matches_cons_cons, h1, h2, hm] using ih
        · by_cases ho : f = one
          · subst ho
            by_cases hm : Matches f rest fs ts
            · simp only [List.filter_cons, List.filterMap_cons, matches_cons_cons, h1.symm, hr, hm,
                ↓reduceIte, decide_true, and_self, or_true, List.map_cons, List.append_assoc,
                List.cons_append] at ih ⊢
              exact (ih.cons v).trans List.perm_middle.symm
            · simpa [matches_cons_cons, hr, ht, hm] using ih
          · simpa [matches_cons_cons, hr, ht, ho] using ih

end PathBag
