import MesquitteClient.Token

/-!
# Packet identifiers

`pkid.rs`: the table of identifiers in use and the search for a free one. The
table's `HashMap` is an ordered map here, whose order nothing depends on. The
`loop` of `get_id` runs on fuel that `getIdLoop_isSome` shows to be enough.
-/

namespace MesquitteClient

def pkidMax : UInt16 := 65535
def pkidMin : UInt16 := 1

structure PacketIds where
  index : Std.TreeMap UInt16 TokenId := ∅
  lastIssuedId : UInt16 := pkidMin

namespace PacketIds

def new : PacketIds := {}

/-- The step of the loop: `i += 1`, and over 0 once more, which is a new lap.
The sum wraps, as in a release build. -/
def advance (i : UInt16) (looped : Bool) : UInt16 × Bool :=
  let i := i + 1
  if i = 0 then (i + 1, true) else (i, looped)

/-- The loop of `get_id` from `i` on: the table with its answer, `0` when
every identifier is taken. -/
def getIdLoop (ids : PacketIds) (token : TokenId) : Nat → UInt16 → Bool → Option (PacketIds × UInt16)
  | 0, _, _ => none
  | fuel + 1, i, looped =>
    let (i, looped) := advance i looped
    if ids.index[i]? = none then
      some ({ index := ids.index.insert i token, lastIssuedId := i }, i)
    else if (looped && i == ids.lastIssuedId) || (ids.lastIssuedId == 0 && i == pkidMax) then
      some (ids, 0)
    else getIdLoop ids token fuel i looped

def getId (ids : PacketIds) (token : TokenId) : PacketIds × UInt16 :=
  (ids.getIdLoop token 65536 ids.lastIssuedId false).getD (ids, 0)

def getToken (ids : PacketIds) (id : UInt16) : Option TokenId := ids.index[id]?

def freeId (ids : PacketIds) (id : UInt16) : PacketIds := { ids with index := ids.index.erase id }

/-- The tokens registered, as `clean_up` iterates over them. -/
def registered (ids : PacketIds) : List TokenId := ids.index.toList.map Prod.snd

/-- `clean_up`: every registered token fails with `ConnectionLost`, and the
table is emptied; `last_issued_id` stays. -/
def cleanUp (ids : PacketIds) (tokens : Tokens) : PacketIds × Tokens :=
  ({ ids with index := ∅ },
    ids.registered.foldl (fun tokens t => tokens.modify t (·.setError .connectionLost)) tokens)

theorem mem_registered (ids : PacketIds) : t ∈ ids.registered ↔ ∃ k, ids.getToken k = some t := by
  simp only [registered, List.mem_map, Prod.exists, exists_eq_right, getToken,
    Std.TreeMap.mem_toList_iff_getElem?_eq_some]

theorem cleanUp_cell (ids : PacketIds) (tokens : Tokens) (t : TokenId) :
    (ids.cleanUp tokens).2.cell t =
      if t ∈ ids.registered then (tokens.cell t).setError .connectionLost else tokens.cell t := by
  have hfold (l : List TokenId) (tokens : Tokens) :
      (l.foldl (fun tokens t => tokens.modify t (·.setError .connectionLost)) tokens).cell t =
        if t ∈ l then (tokens.cell t).setError .connectionLost else tokens.cell t := by
    induction l generalizing tokens with
    | nil => simp
    | cons u l ih =>
      rw [List.foldl_cons, ih, Tokens.cell_modify]
      by_cases hu : t = u
      · subst hu
        by_cases hl : t ∈ l <;> simp [hl, InnerToken.setError]
      · simp [hu]
  exact hfold ids.registered tokens

@[simp] theorem cleanUp_next (ids : PacketIds) (tokens : Tokens) :
    (ids.cleanUp tokens).2.next = tokens.next := by
  have hfold (l : List TokenId) (tokens : Tokens) :
      (l.foldl (fun tokens t => tokens.modify t (·.setError .connectionLost)) tokens).next =
        tokens.next := by
    induction l generalizing tokens with
    | nil => rfl
    | cons u l ih => rw [List.foldl_cons, ih, Tokens.next_modify]
  exact hfold ids.registered tokens

@[simp] theorem getToken_new : new.getToken k = none := by
  simp [getToken, new]

@[simp] theorem getToken_cleanUp (ids : PacketIds) (tokens : Tokens) :
    (ids.cleanUp tokens).1.getToken k = none := by
  simp [cleanUp, getToken]

theorem getToken_freeId (ids : PacketIds) :
    (ids.freeId k).getToken j = if k = j then none else ids.getToken j := by
  simp [freeId, getToken, Std.TreeMap.getElem?_erase]

-- ---------------------------------------------------------------------------
-- The search for a free identifier
-- ---------------------------------------------------------------------------

theorem advance_cases (i : UInt16) (looped : Bool) :
    (i.toNat = 65535 ∧ (advance i looped).1.toNat = 1 ∧ (advance i looped).2 = true) ∨
      (i.toNat < 65535 ∧ (advance i looped).1.toNat = i.toNat + 1 ∧ (advance i looped).2 = looped) := by
  have hi := i.toNat_lt
  have hadd : (i + 1).toNat = (i.toNat + 1) % 65536 := by simp [UInt16.toNat_add]
  simp only [advance]
  split
  · rename_i hw
    have h0 : (i + 1).toNat = 0 := by rw [hw]; rfl
    refine .inl ⟨by omega, ?_, rfl⟩
    rw [hw]
    rfl
  · rename_i hw
    have h0 : (i + 1).toNat ≠ 0 := fun h => hw (UInt16.toNat_inj.mp (by simpa using h))
    refine .inr ⟨by omega, ?_, rfl⟩
    show (i + 1).toNat = i.toNat + 1
    omega

theorem advance_ne_zero (i : UInt16) (looped : Bool) : (advance i looped).1 ≠ 0 := by
  intro h
  have h0 : (advance i looped).1.toNat = 0 := by rw [h]; rfl
  rcases advance_cases i looped with ⟨_, h1, _⟩ | ⟨_, h1, _⟩ <;> omega

/-- What one call of `get_id` can do. -/
def GetId (ids : PacketIds) (token : TokenId) (ids' : PacketIds) (k : UInt16) : Prop :=
  (k = 0 ∧ ids' = ids) ∨
    (k ≠ 0 ∧ ids.getToken k = none ∧
      ids' = { index := ids.index.insert k token, lastIssuedId := k })

theorem getToken_issued (ids : PacketIds) :
    getToken { index := ids.index.insert k token, lastIssuedId := k } j =
      if k = j then some token else ids.getToken j := by
  simp [getToken, Std.TreeMap.getElem?_insert]

theorem getIdLoop_cases (ids : PacketIds) (h : ids.getIdLoop token fuel i looped = some (ids', k)) :
    GetId ids token ids' k := by
  induction fuel generalizing i looped with
  | zero => simp [getIdLoop] at h
  | succ fuel ih =>
    simp only [getIdLoop] at h
    split at h
    · rename_i hfree
      simp only [Option.some.injEq, Prod.mk.injEq] at h
      obtain ⟨rfl, rfl⟩ := h
      exact .inr ⟨advance_ne_zero i looped, hfree, rfl⟩
    · split at h
      · simp only [Option.some.injEq, Prod.mk.injEq] at h
        exact .inl ⟨h.2.symm, h.1.symm⟩
      · exact ih h

theorem getId_cases (ids : PacketIds) (token : TokenId) :
    GetId ids token (ids.getId token).1 (ids.getId token).2 := by
  unfold getId
  cases hl : ids.getIdLoop token 65536 ids.lastIssuedId false with
  | none => exact .inl ⟨rfl, rfl⟩
  | some r => exact getIdLoop_cases ids hl

theorem getIdLoop_free (ids : PacketIds) (h : ids.getToken (advance i looped).1 = none) :
    ids.getIdLoop token (fuel + 1) i looped =
      some ({ index := ids.index.insert (advance i looped).1 token
              lastIssuedId := (advance i looped).1 }, (advance i looped).1) := by
  simp only [getIdLoop]
  exact if_pos h

/-- An empty table has a free identifier. -/
theorem getId_ne_zero (ids : PacketIds) (token : TokenId) (h : ∀ k, ids.getToken k = none) :
    (ids.getId token).2 ≠ 0 := by
  rw [getId, getIdLoop_free ids (h _), Option.getD_some]
  exact advance_ne_zero _ _

/-- The search ends: it tries at most the identifiers up to the maximum, and
on the next lap those up to `last_issued_id`. -/
theorem getIdLoop_isSome (ids : PacketIds) (token : TokenId) (fuel : Nat) (i : UInt16) (looped : Bool)
    (hlap : if looped then i.toNat < ids.lastIssuedId.toNat ∧ ids.lastIssuedId.toNat - i.toNat ≤ fuel
      else ids.lastIssuedId.toNat ≤ i.toNat ∧ 65535 - i.toNat + ids.lastIssuedId.toNat ≤ fuel ∧
        (ids.lastIssuedId.toNat = 0 → i.toNat < 65535)) :
    (ids.getIdLoop token fuel i looped).isSome := by
  induction fuel generalizing i looped with
  | zero => cases looped <;> simp only [Bool.false_eq_true, ↓reduceIte] at hlap <;> omega
  | succ fuel ih =>
    have hl := ids.lastIssuedId.toNat_lt
    simp only [getIdLoop]
    split
    · simp
    · split
      · simp
      · rename_i hgo
        have hmax : pkidMax.toNat = 65535 := rfl
        have hz : (0 : UInt16).toNat = 0 := rfl
        simp only [Bool.or_eq_true, Bool.and_eq_true, beq_iff_eq, not_or, not_and,
          ← UInt16.toNat_inj, hmax, hz] at hgo
        apply ih
        cases looped with
        | true =>
          simp only [↓reduceIte] at hlap
          rcases advance_cases i true with ⟨_, _, _⟩ | ⟨_, h1, h2⟩
          · omega
          · have := hgo.1 h2
            simp only [h2, ↓reduceIte]
            omega
        | false =>
          simp only [Bool.false_eq_true, ↓reduceIte] at hlap
          rcases advance_cases i false with ⟨_, h1, h2⟩ | ⟨_, h1, h2⟩
          · -- a new lap: unless `last_issued_id` is 0 or 1 it is still ahead
            have := hgo.1 h2
            have := hlap.2.2
            simp only [h2, ↓reduceIte]
            omega
          · have := hgo.2
            simp only [h2, Bool.false_eq_true, ↓reduceIte]
            omega

theorem getId_terminates (ids : PacketIds) (token : TokenId) :
    (ids.getIdLoop token 65536 ids.lastIssuedId false).isSome := by
  have := ids.lastIssuedId.toNat_lt
  apply getIdLoop_isSome
  simp only [Bool.false_eq_true, ↓reduceIte]
  omega

/-- The identifiers the search has gone past are taken. -/
def Searched (ids : PacketIds) (i : UInt16) (looped : Bool) : Prop :=
  ∀ k, k ≠ 0 → (ids.lastIssuedId.toNat < k.toNat ∧ (looped ∨ k.toNat ≤ i.toNat)) ∨
    (looped ∧ k.toNat ≤ i.toNat) → (ids.getToken k).isSome

theorem Searched.advance {ids : PacketIds} (h : ids.Searched i looped)
    (ht : (ids.getToken (advance i looped).1).isSome) :
    ids.Searched (PacketIds.advance i looped).1 (PacketIds.advance i looped).2 := by
  intro k hk hv
  by_cases hnew : k.toNat = (PacketIds.advance i looped).1.toNat
  · rw [UInt16.toNat_inj.mp hnew]
    exact ht
  · refine h k hk ?_
    have hpos : k.toNat ≠ 0 := fun h => hk (UInt16.toNat_inj.mp h)
    have hmax := k.toNat_lt
    rcases advance_cases i looped with ⟨hi, h1, h2⟩ | ⟨_, h1, h2⟩
    · -- a new lap begins at 1
      rw [h1] at hnew hv
      rcases hv with ⟨hlt, _⟩ | ⟨_, hle⟩
      · exact .inl ⟨hlt, .inr (by omega)⟩
      · omega
    · rw [h1] at hnew hv
      rw [h2] at hv
      rcases hv with ⟨hlt, hl | hle⟩ | ⟨hl, hle⟩
      · exact .inl ⟨hlt, .inl hl⟩
      · exact .inl ⟨hlt, .inr (by omega)⟩
      · exact .inr ⟨hl, by omega⟩

theorem getIdLoop_full {ids : PacketIds} (h : ids.getIdLoop token fuel i looped = some (ids', 0))
    (hv : ids.Searched i looped) (k : UInt16) (hk : k ≠ 0) : (ids.getToken k).isSome := by
  induction fuel generalizing i looped with
  | zero => simp [getIdLoop] at h
  | succ fuel ih =>
    simp only [getIdLoop] at h
    split at h
    · simp only [Option.some.injEq, Prod.mk.injEq] at h
      exact absurd h.2 (advance_ne_zero i looped)
    · rename_i htaken
      have hv' := hv.advance (Option.isSome_iff_ne_none.mpr htaken)
      split at h
      · rename_i hend
        refine hv' k hk ?_
        have hpos : k.toNat ≠ 0 := fun h => hk (UInt16.toNat_inj.mp h)
        have hmax : pkidMax.toNat = 65535 := rfl
        have hz : (0 : UInt16).toNat = 0 := rfl
        have hlt := k.toNat_lt
        simp only [Bool.or_eq_true, Bool.and_eq_true, beq_iff_eq, ← UInt16.toNat_inj, hmax,
          hz] at hend
        rcases hend with ⟨hl, hi⟩ | ⟨hl, hi⟩
        · by_cases hle : ids.lastIssuedId.toNat < k.toNat
          · exact .inl ⟨hle, .inl hl⟩
          · exact .inr ⟨hl, by omega⟩
        · exact .inl ⟨by omega, .inr (by omega)⟩
      · exact ih h hv'

/-- `get_id` gives up only when every identifier is taken. -/
theorem getId_eq_zero (ids : PacketIds) (h : (ids.getId token).2 = 0) (k : UInt16) (hk : k ≠ 0) :
    (ids.getToken k).isSome := by
  obtain ⟨⟨ids', j⟩, hl⟩ := Option.isSome_iff_exists.mp (ids.getId_terminates token)
  rw [getId, hl] at h
  subst h
  refine getIdLoop_full hl (fun j hj hv => ?_) k hk
  simp only [Bool.false_eq_true, false_or, false_and, or_false] at hv
  omega

end PacketIds

end MesquitteClient
