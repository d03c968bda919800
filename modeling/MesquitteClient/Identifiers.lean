import MesquitteClient.PacketIds

/-!
# The identifiers that are issued

What a `PacketIds` does over its life, from `new` on through any calls of
`get_id`, `free_id` and `clean_up`. The identifiers form a circle, 1 to 65535,
and `get_id` issues the first free one after the last it has issued. It counts
with a plain `+=` and tests for 0 afterwards: the build that wraps goes on at 1,
the build that checks for overflow panics there (`getIdChecked`).
-/

namespace MesquitteClient

namespace PacketIds

inductive Op
  | getId (token : TokenId)
  | freeId (id : UInt16)
  | cleanUp (tokens : Tokens)

def apply (ids : PacketIds) : Op → PacketIds
  | .getId token => (ids.getId token).1
  | .freeId id => ids.freeId id
  | .cleanUp tokens => (ids.cleanUp tokens).1

def after (ops : List Op) : PacketIds := ops.foldl apply new

/-- What every table keeps: 0 is never issued. -/
structure Valid (ids : PacketIds) : Prop where
  lastIssuedId : ids.lastIssuedId ≠ 0
  zero : ids.getToken 0 = none

theorem valid_new : Valid new where
  lastIssuedId := by decide
  zero := getToken_new

theorem Valid.apply {ids : PacketIds} (hv : ids.Valid) (op : Op) : (ids.apply op).Valid := by
  cases op with
  | getId token =>
    rw [PacketIds.apply]
    rcases ids.getId_cases token with ⟨_, hids⟩ | ⟨hk, _, hids⟩
    · rw [hids]
      exact hv
    · rw [hids]
      refine ⟨hk, ?_⟩
      rw [getToken_issued, if_neg hk]
      exact hv.zero
  | freeId id =>
    refine ⟨hv.lastIssuedId, ?_⟩
    rw [PacketIds.apply, getToken_freeId]
    split
    · rfl
    · exact hv.zero
  | cleanUp tokens => exact ⟨hv.lastIssuedId, getToken_cleanUp ids tokens⟩

theorem valid_after (ops : List Op) : (after ops).Valid := by
  have hfold (ids : PacketIds) (hv : ids.Valid) : (ops.foldl PacketIds.apply ids).Valid := by
    induction ops generalizing ids with
    | nil => exact hv
    | cons op ops ih => exact ih _ (hv.apply op)
  exact hfold new valid_new

-- ---------------------------------------------------------------------------
-- The first free identifier
-- ---------------------------------------------------------------------------

/-- An identifier that `get_id` could issue. -/
def Free (ids : PacketIds) (k : UInt16) : Prop := k ≠ 0 ∧ ids.getToken k = none

/-- How many identifiers come before `k` on the way round from the one after
`last`; `last` itself comes last. -/
def distance (last k : UInt16) : Nat := (k.toNat + 65534 - last.toNat) % 65535

example : distance 65535 1 = 0 ∧ distance 7 9 = 1 ∧ distance 7 6 = 65533 ∧ distance 7 7 = 65534 := by
  decide

/-- What is nearer than the next identifier of the search has been gone past. -/
theorem Searched.nearer {ids : PacketIds} (hs : ids.Searched i looped)
    (hlast : ids.lastIssuedId ≠ 0)
    (hlap : if looped then i.toNat < ids.lastIssuedId.toNat else ids.lastIssuedId.toNat ≤ i.toNat)
    (hj : j ≠ 0)
    (hd : distance ids.lastIssuedId j < distance ids.lastIssuedId (PacketIds.advance i looped).1) :
    (ids.getToken j).isSome := by
  have hlast : ids.lastIssuedId.toNat ≠ 0 := fun h => hlast (UInt16.toNat_inj.mp h)
  have hpos : j.toNat ≠ 0 := fun h => hj (UInt16.toNat_inj.mp h)
  have hmax := ids.lastIssuedId.toNat_lt
  have hj' := j.toNat_lt
  refine hs j hj ?_
  unfold distance at hd
  rcases advance_cases i looped with ⟨hi, h1, _⟩ | ⟨hi, h1, _⟩
  · rw [h1] at hd
    cases looped with
    | true =>
      simp only [↓reduceIte] at hlap
      omega
    | false =>
      simp only [Bool.false_eq_true, false_or, false_and, or_false]
      omega
  · rw [h1] at hd
    cases looped with
    | true =>
      simp only [↓reduceIte] at hlap
      simp only [true_or, and_true, true_and]
      omega
    | false =>
      simp only [Bool.false_eq_true, ↓reduceIte] at hlap
      simp only [Bool.false_eq_true, false_or, false_and, or_false]
      omega

theorem lap_advance {ids : PacketIds} (hlast : ids.lastIssuedId ≠ 0)
    (hlap : if looped then i.toNat < ids.lastIssuedId.toNat else ids.lastIssuedId.toNat ≤ i.toNat)
    (hgo : ¬ ((advance i looped).2 ∧ (advance i looped).1 = ids.lastIssuedId)) :
    if (advance i looped).2 then (advance i looped).1.toNat < ids.lastIssuedId.toNat
    else ids.lastIssuedId.toNat ≤ (advance i looped).1.toNat := by
  have hlast : ids.lastIssuedId.toNat ≠ 0 := fun h => hlast (UInt16.toNat_inj.mp h)
  rw [← UInt16.toNat_inj] at hgo
  rcases advance_cases i looped with ⟨hi, h1, h2⟩ | ⟨hi, h1, h2⟩
  · rw [h1, h2] at hgo ⊢
    simp only [↓reduceIte, true_and] at hgo ⊢
    omega
  · rw [h1, h2] at hgo
    rw [h1, h2]
    cases looped with
    | true =>
      simp only [↓reduceIte, true_and] at hlap hgo ⊢
      omega
    | false =>
      simp only [Bool.false_eq_true, ↓reduceIte] at hlap ⊢
      omega

theorem getIdLoop_first {ids : PacketIds} (hlast : ids.lastIssuedId ≠ 0)
    (h : ids.getIdLoop token fuel i looped = some (ids', k)) (hk : k ≠ 0)
    (hs : ids.Searched i looped)
    (hlap : if looped then i.toNat < ids.lastIssuedId.toNat else ids.lastIssuedId.toNat ≤ i.toNat)
    (hj : j ≠ 0) (hd : distance ids.lastIssuedId j < distance ids.lastIssuedId k) :
    (ids.getToken j).isSome := by
  induction fuel generalizing i looped with
  | zero => simp [getIdLoop] at h
  | succ fuel ih =>
    simp only [getIdLoop] at h
    split at h
    · simp only [Option.some.injEq, Prod.mk.injEq] at h
      rw [← h.2] at hd
      exact hs.nearer hlast hlap hj hd
    · rename_i htaken
      split at h
      · simp only [Option.some.injEq, Prod.mk.injEq] at h
        exact absurd h.2.symm hk
      · rename_i hgo
        simp only [Bool.or_eq_true, Bool.and_eq_true, beq_iff_eq, not_or] at hgo
        exact ih h (hs.advance (Option.isSome_iff_ne_none.mpr htaken)) (lap_advance hlast hlap hgo.1)

theorem searched_start (ids : PacketIds) : ids.Searched ids.lastIssuedId false := by
  intro k _ hv
  simp only [Bool.false_eq_true, false_or, false_and, or_false] at hv
  omega

/-- Nothing that is free is nearer than what `get_id` issues. -/
theorem getId_first {ids : PacketIds} (hlast : ids.lastIssuedId ≠ 0) (hk : (ids.getId token).2 ≠ 0)
    (hj : ids.Free j) (hne : j ≠ (ids.getId token).2) :
    distance ids.lastIssuedId (ids.getId token).2 < distance ids.lastIssuedId j := by
  obtain ⟨⟨ids', k⟩, hl⟩ := Option.isSome_iff_exists.mp (ids.getId_terminates token)
  have heq : (ids.getId token).2 = k := by
    rw [getId, hl]
    rfl
  rw [heq] at hk hne ⊢
  by_contra hnot
  have hnear : distance ids.lastIssuedId j < distance ids.lastIssuedId k := by
    refine Nat.lt_of_le_of_ne (Nat.le_of_not_lt hnot) fun hd => hne ?_
    have hlast' : ids.lastIssuedId.toNat ≠ 0 := fun h => hlast (UInt16.toNat_inj.mp h)
    have hj0 : j.toNat ≠ 0 := fun h => hj.1 (UInt16.toNat_inj.mp h)
    have hk0 : k.toNat ≠ 0 := fun h => hk (UInt16.toNat_inj.mp h)
    have := ids.lastIssuedId.toNat_lt
    have := j.toNat_lt
    have := k.toNat_lt
    unfold distance at hd
    exact UInt16.toNat_inj.mp (by omega)
  have htaken := getIdLoop_first hlast hl hk ids.searched_start
    (by simp only [Bool.false_eq_true, ↓reduceIte]; exact Nat.le_refl _) hj.1 hnear
  rw [hj.2] at htaken
  cases htaken

/-- In every table, whatever has been issued and freed before: the search ends;
while an identifier is free, `get_id` registers the token under the first free
one after the last it has issued; when all are taken it answers 0 and changes
nothing. 0 is never issued. -/
theorem getId_cyclic (ops : List Op) (token : TokenId) :
    ((after ops).getIdLoop token 65536 (after ops).lastIssuedId false).isSome ∧
      ((∃ k, (after ops).Free k) → ∃ k, (after ops).Free k ∧
        (∀ j, (after ops).Free j → j ≠ k →
          distance (after ops).lastIssuedId k < distance (after ops).lastIssuedId j) ∧
        (after ops).getId token =
          ({ index := (after ops).index.insert k token, lastIssuedId := k }, k)) ∧
      ((¬ ∃ k, (after ops).Free k) → (after ops).getId token = (after ops, 0)) ∧
      (after ops).getToken 0 = none := by
  have hv := valid_after ops
  refine ⟨(after ops).getId_terminates token, fun hfree => ?_, fun hfull => ?_, hv.zero⟩
  · rcases (after ops).getId_cases token with ⟨h0, _⟩ | ⟨hk, hnone, hids⟩
    · obtain ⟨k, hk, hnone⟩ := hfree
      have htaken := (after ops).getId_eq_zero h0 k hk
      rw [hnone] at htaken
      cases htaken
    · exact ⟨_, ⟨hk, hnone⟩, fun j hj hne => getId_first hv.lastIssuedId hk hj hne,
        Prod.ext hids rfl⟩
  · rcases (after ops).getId_cases token with ⟨h0, hids⟩ | ⟨hk, hnone, _⟩
    · exact Prod.ext hids h0
    · exact absurd ⟨_, hk, hnone⟩ hfull

-- ---------------------------------------------------------------------------
-- Builds that check for overflow
-- ---------------------------------------------------------------------------

/-- `i += 1` where overflow is checked; `none` is the panic. -/
def checkedAdd (i : UInt16) : Option UInt16 := if i = pkidMax then none else some (i + 1)

def advanceChecked (i : UInt16) (looped : Bool) : Option (UInt16 × Bool) :=
  (checkedAdd i).bind fun i =>
    if i = 0 then (checkedAdd i).map fun i => (i, true) else some (i, looped)

def getIdLoopChecked (ids : PacketIds) (token : TokenId) :
    Nat → UInt16 → Bool → Option (PacketIds × UInt16)
  | 0, _, _ => some (ids, 0)
  | fuel + 1, i, looped =>
    (advanceChecked i looped).bind fun (i, looped) =>
      if ids.index[i]? = none then
        some ({ index := ids.index.insert i token, lastIssuedId := i }, i)
      else if (looped && i == ids.lastIssuedId) || (ids.lastIssuedId == 0 && i == pkidMax) then
        some (ids, 0)
      else getIdLoopChecked ids token fuel i looped

/-- `get_id` of such a build, or its panic. -/
def getIdChecked (ids : PacketIds) (token : TokenId) : Option (PacketIds × UInt16) :=
  ids.getIdLoopChecked token 65536 ids.lastIssuedId false

/-- A call in such a build. -/
def applyChecked (ids : PacketIds) : Op → Option PacketIds
  | .getId token => (ids.getIdChecked token).map Prod.fst
  | op => some (ids.apply op)

def afterChecked (ops : List Op) : Option PacketIds := ops.foldlM applyChecked new

/-- An identifier above the last issued one is free. -/
def RoomAhead (ids : PacketIds) : Prop :=
  ∃ k, ids.lastIssuedId.toNat < k.toNat ∧ ids.getToken k = none

theorem advanceChecked_max (looped : Bool) (hi : i.toNat = 65535) :
    advanceChecked i looped = none := by
  have hmax : i = pkidMax := UInt16.toNat_inj.mp hi
  rw [advanceChecked, checkedAdd, if_pos hmax, Option.bind_none]

theorem advanceChecked_of_lt (looped : Bool) (hi : i.toNat < 65535) :
    advanceChecked i looped = some (i + 1, looped) ∧ (i + 1).toNat = i.toNat + 1 := by
  have hadd : (i + 1).toNat = (i.toNat + 1) % 65536 := by simp [UInt16.toNat_add]
  have hne : i ≠ pkidMax := fun h => by
    rw [h] at hi
    exact absurd hi (by decide)
  have h0 : i + 1 ≠ 0 := fun h => by
    rw [h] at hadd
    change 0 = _ at hadd
    omega
  refine ⟨?_, by omega⟩
  rw [advanceChecked, checkedAdd, if_neg hne, Option.bind_some, if_neg h0]

/-- Up to the maximum both builds search alike. -/
theorem getIdLoopChecked_ahead {ids : PacketIds} (hlast : ids.lastIssuedId ≠ 0)
    (hk : i.toNat < k.toNat) (hfree : ids.getToken k = none) (hfuel : 65535 - i.toNat < fuel) :
    ids.getIdLoopChecked token fuel i false = ids.getIdLoop token fuel i false := by
  induction fuel generalizing i with
  | zero => omega
  | succ fuel ih =>
    have hkmax := k.toNat_lt
    obtain ⟨hadv, hnext⟩ := advanceChecked_of_lt false (show i.toNat < 65535 by omega)
    have hadv' : advance i false = (i + 1, false) := by
      have h0 : i + 1 ≠ 0 := fun h => by
        rw [h] at hnext
        change 0 = _ at hnext
        omega
      rw [advance, if_neg h0]
    simp only [getIdLoopChecked, getIdLoop, hadv, hadv', Option.bind_some]
    split
    · rfl
    · rename_i htaken
      have hne : k.toNat ≠ (i + 1).toNat := fun h => htaken (UInt16.toNat_inj.mp h ▸ hfree)
      have hl : (ids.lastIssuedId == 0) = false := by simpa using hlast
      simp only [hl, Bool.false_and, Bool.or_self, Bool.false_eq_true, ↓reduceIte]
      exact ih (by omega) (by omega)

/-- With nothing free up to the maximum the checked build runs into it. -/
theorem getIdLoopChecked_panics {ids : PacketIds} (hlast : ids.lastIssuedId ≠ 0)
    (htaken : ∀ k : UInt16, i.toNat < k.toNat → ids.getToken k ≠ none)
    (hfuel : 65535 - i.toNat < fuel) : ids.getIdLoopChecked token fuel i false = none := by
  induction fuel generalizing i with
  | zero => omega
  | succ fuel ih =>
    have hi := i.toNat_lt
    by_cases hmax : i.toNat = 65535
    · rw [getIdLoopChecked, advanceChecked_max false hmax, Option.bind_none]
    · obtain ⟨hadv, hnext⟩ := advanceChecked_of_lt false (show i.toNat < 65535 by omega)
      have hl : (ids.lastIssuedId == 0) = false := by simpa using hlast
      have hthis : ids.index[i + 1]? ≠ none := htaken (i + 1) (by omega)
      simp only [getIdLoopChecked, hadv, Option.bind_some, hl, Bool.false_and, Bool.or_self,
        Bool.false_eq_true, ↓reduceIte, if_neg hthis]
      exact ih (fun k hk => htaken k (by omega)) (by omega)

/-- The checked build panics exactly when the search would go past the
maximum; otherwise it does what the other build does. -/
theorem getIdChecked_of_roomAhead {ids : PacketIds} (hv : ids.Valid) (hroom : ids.RoomAhead)
    (token : TokenId) : ids.getIdChecked token = some (ids.getId token) := by
  obtain ⟨k, hk, hfree⟩ := hroom
  have hlast := ids.lastIssuedId.toNat_lt
  obtain ⟨r, hr⟩ := Option.isSome_iff_exists.mp (ids.getId_terminates token)
  rw [getIdChecked, getIdLoopChecked_ahead hv.lastIssuedId hk hfree (by omega), getId, hr]
  rfl

theorem getIdChecked_of_not_roomAhead {ids : PacketIds} (hv : ids.Valid)
    (hroom : ¬ ids.RoomAhead) (token : TokenId) : ids.getIdChecked token = none := by
  have hlast := ids.lastIssuedId.toNat_lt
  exact getIdLoopChecked_panics hv.lastIssuedId (fun k hk hfree => hroom ⟨k, hk, hfree⟩) (by omega)

/-- Every `get_id` among some calls finds an identifier ahead. -/
def AllAhead (ids : PacketIds) : List Op → Prop
  | [] => True
  | op :: ops => (∀ token, op = .getId token → ids.RoomAhead) ∧ AllAhead (ids.apply op) ops

theorem applyChecked_of_ahead {ids : PacketIds} (hv : ids.Valid) {op : Op}
    (ha : ∀ token, op = .getId token → ids.RoomAhead) :
    ids.applyChecked op = some (ids.apply op) := by
  cases op with
  | getId token =>
    rw [applyChecked, getIdChecked_of_roomAhead hv (ha token rfl)]
    rfl
  | freeId id | cleanUp tokens => rfl

theorem foldlM_applyChecked {ids : PacketIds} (hv : ids.Valid) {ops : List Op}
    (ha : AllAhead ids ops) : ops.foldlM applyChecked ids = some (ops.foldl PacketIds.apply ids) := by
  induction ops generalizing ids with
  | nil => rfl
  | cons op ops ih =>
    rw [List.foldlM_cons, applyChecked_of_ahead hv ha.1]
    exact ih (hv.apply op) ha.2

theorem foldlM_applyChecked_panics {ids : PacketIds} (hv : ids.Valid) {ops : List Op}
    (ha : ¬ AllAhead ids ops) : ops.foldlM applyChecked ids = none := by
  induction ops generalizing ids with
  | nil => exact absurd trivial ha
  | cons op ops ih =>
    rw [List.foldlM_cons]
    by_cases hop : ∀ token, op = .getId token → ids.RoomAhead
    · rw [applyChecked_of_ahead hv hop]
      exact ih (hv.apply op) fun h => ha ⟨hop, h⟩
    · cases op with
      | getId token =>
        have hroom : ¬ ids.RoomAhead := fun h => hop fun _ _ => h
        rw [applyChecked, getIdChecked_of_not_roomAhead hv hroom]
        rfl
      | freeId id | cleanUp tokens => exact absurd (fun _ he => by cases he) hop

/-- Builds that check for overflow get through a life of the table exactly when
each `get_id` finds an identifier above the last one issued; they then do what
the others do. -/
theorem afterChecked_iff (ops : List Op) :
    ((afterChecked ops).isSome ↔ AllAhead new ops) ∧
      (AllAhead new ops → afterChecked ops = some (after ops)) := by
  refine ⟨⟨fun hsome => ?_, fun ha => ?_⟩, fun ha => foldlM_applyChecked valid_new ha⟩
  · by_contra ha
    rw [afterChecked, foldlM_applyChecked_panics valid_new ha] at hsome
    cases hsome
  · rw [afterChecked, foldlM_applyChecked valid_new ha]
    rfl

/-- A token registered and a `clean_up`, some number of times. -/
def rounds (n : Nat) : List Op := (List.replicate n [.getId 0, .cleanUp {}]).flatten

theorem rounds_succ (n : Nat) : rounds (n + 1) = rounds n ++ [.getId 0, .cleanUp {}] := by
  simp [rounds, List.replicate_succ', List.flatten_append]

/-- Nothing resets `last_issued_id`. -/
theorem after_rounds (n : Nat) (hn : n < 65535) :
    (after (rounds n)).index = ∅ ∧ (after (rounds n)).lastIssuedId.toNat = n + 1 := by
  induction n with
  | zero => exact ⟨rfl, rfl⟩
  | succ n ih =>
    obtain ⟨hempty, hlast⟩ := ih (by omega)
    have hfree (k : UInt16) : (after (rounds n)).getToken k = none := by
      rw [getToken, hempty]
      exact Std.TreeMap.getElem?_emptyc
    have hid : ((after (rounds n)).apply (.getId 0)).lastIssuedId =
        (advance (after (rounds n)).lastIssuedId false).1 := by
      rw [apply, getId, getIdLoop_free _ (hfree _)]
      rfl
    have hstep : after (rounds (n + 1)) =
        ((after (rounds n)).apply (.getId 0)).apply (.cleanUp {}) := by
      rw [rounds_succ, after, List.foldl_append]
      rfl
    rw [hstep]
    refine ⟨rfl, ?_⟩
    change ((after (rounds n)).apply (.getId 0)).lastIssuedId.toNat = n + 1 + 1
    rw [hid]
    rcases advance_cases (after (rounds n)).lastIssuedId false with ⟨h, _⟩ | ⟨_, h, _⟩ <;> omega

theorem AllAhead.last {ids : PacketIds} {ops : List Op}
    (ha : AllAhead ids (ops ++ [.getId token])) : (ops.foldl PacketIds.apply ids).RoomAhead := by
  induction ops generalizing ids with
  | nil => exact ha.1 token rfl
  | cons op ops ih => exact ih ha.2

/-- A table that has issued 65534 identifiers, and is empty, overflows at the
next one. -/
theorem get_id_overflows : ¬ ∀ ops, (afterChecked ops).isSome := by
  intro hall
  have hsome := hall (rounds 65534 ++ [.getId 0])
  have hlast := (after_rounds 65534 (by decide)).2
  have hroom : ¬ (after (rounds 65534)).RoomAhead := by
    rintro ⟨k, hk, _⟩
    have := k.toNat_lt
    omega
  rw [afterChecked, foldlM_applyChecked_panics valid_new fun ha => hroom ha.last] at hsome
  cases hsome

end PacketIds

end MesquitteClient
