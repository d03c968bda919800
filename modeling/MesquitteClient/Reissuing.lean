import MesquitteClient.Identifiers
import MesquitteClient.Lib.NextFit
import MesquitteClient.Lifecycle

/-!
# Identifiers that come back

`get_id` issues identifiers next fit, and only it moves `last_issued_id`. So an
identifier is used again as late as can be, whatever the calls, the server and
the connections do: after it has been issued, every other one has had an owner
before it is issued again (`reissued_last`). An acknowledgement that comes late
is not taken for a newer exchange until then.
-/

namespace MesquitteClient

namespace State

theorem lastIssuedId_readFromServer (packet : VariablePacket) (st : State) :
    (readFromServer packet st).1.packetIds.lastIssuedId = st.packetIds.lastIssuedId := by
  rw [readFromServer_eq]
  have hstore : ((st.store (stored packet st)).removeTopics (removed packet st)).packetIds =
      st.packetIds := packetIds_store st
  have hlast := congrArg PacketIds.lastIssuedId hstore
  cases ended packet st with
  | none => exact hlast
  | some x => exact hlast

/-- An acknowledgement for an identifier without an owner changes nothing. -/
theorem readFromServer_unowned (st : State) (ha : acked packet = some k) (ho : st.owner k = none) :
    (readFromServer packet st).1 = st := by
  cases packet with
  | puback pkid =>
    cases ha
    show st.handlePuback _ = st
    rw [handlePuback, ho]
  | pubcomp pkid =>
    cases ha
    show st.handlePubcomp _ = st
    rw [handlePubcomp, ho]
  | suback pkid codes =>
    cases ha
    show st.handleSuback _ _ = st
    rw [handleSuback, ho]
  | unsuback pkid =>
    cases ha
    show st.handleUnsuback _ = st
    rw [handleUnsuback, ho]
  | _ => cases ha

end State

namespace System

variable {codec : Codec} {options : ClientOptions} {guard : Lts.Guard System Event}
variable {s s' s₁ : System} {e : Event} {h mid : Lts.History System Event}

/-- The identifier an event issues. -/
def issues : Event → Option UInt16
  | .call (.registered _ pkid) => some pkid
  | _ => none

def lastIssuedId (s : System) : UInt16 := s.state.packetIds.lastIssuedId

theorem lastIssuedId_step (hs : step codec options s e = some s') :
    s'.lastIssuedId = (issues e).getD s.lastIssuedId := by
  rw [lastIssuedId, state_step hs]
  cases e with
  | call e =>
    cases e with
    | registered frame pkid =>
      simp only [step, stepCall, when_eq_some] at hs
      obtain ⟨⟨_, rfl, hz⟩, _⟩ := hs
      rcases s.state.packetIds.getId_cases frame.token with ⟨h0, _⟩ | ⟨_, _, hids⟩
      · exact absurd h0 hz
      · simp only [stateAfter, hids]
        rfl
    | _ => rfl
  | reader e =>
    cases e with
    | received packet => exact State.lastIssuedId_readFromServer packet s.state
    | _ => rfl
  | writer e =>
    rw [stateAfter_writer]
    rfl
  | _ e => cases e <;> rfl

theorem issues_eq_some (he : issues e = some k) : ∃ frame, e = .call (.registered frame k) := by
  unfold issues at he
  split at he
  · cases he
    exact ⟨_, rfl⟩
  · cases he

theorem lastIssuedId_run (hr : Run codec options guard h s) :
    s.lastIssuedId ≠ 0 := by
  induction hr with
  | nil => decide
  | @snoc h s e s' _ _ hs ih =>
    rw [lastIssuedId_step hs]
    cases he : issues e with
    | none => exact ih
    | some k =>
      obtain ⟨frame, rfl⟩ := issues_eq_some he
      exact (registered_step hs).2.1

/-- The two ways to count round the circle agree. -/
theorem ringDistance_eq (hl : last ≠ 0) (hk : k ≠ 0) :
    Lts.ringDistance 65535 last.toNat k.toNat = PacketIds.distance last k := by
  have hl : last.toNat ≠ 0 := fun h => hl (UInt16.toNat_inj.mp h)
  have hk : k.toNat ≠ 0 := fun h => hk (UInt16.toNat_inj.mp h)
  have := last.toNat_lt
  have := k.toNat_lt
  unfold Lts.ringDistance PacketIds.distance
  split <;> omega

/-- What is nearer than the identifier issued has an owner. -/
theorem owner_of_nearer (hr : Run codec options guard h s)
    (hs : step codec options s (.call (.registered frame k)) = some s') (hj : j ≠ 0)
    (hd : PacketIds.distance s.lastIssuedId j < PacketIds.distance s.lastIssuedId k) :
    (s.owner j).isSome := by
  by_contra hfree
  rw [Option.not_isSome_iff_eq_none] at hfree
  simp only [step, stepCall, when_eq_some] at hs
  obtain ⟨⟨_, hk, hz⟩, _⟩ := hs
  subst hk
  have hne : j ≠ (s.state.packetIds.getId frame.token).2 := fun h => by
    rw [h] at hd
    exact Nat.lt_irrefl _ hd
  have hfirst := PacketIds.getId_first (lastIssuedId_run hr) hz ⟨hj, hfree⟩ hne
  exact Nat.lt_asymm hd hfirst

def owned (s : System) (j : Nat) : Prop := (s.owner (.ofNat j)).isSome

theorem ofNat_ne_zero (hj : 0 < j ∧ j ≤ 65535) : UInt16.ofNat j ≠ 0 ∧ (UInt16.ofNat j).toNat = j := by
  have heq : (UInt16.ofNat j).toNat = j := UInt16.toNat_ofNat_of_lt' (Nat.lt_succ_of_le hj.2)
  refine ⟨fun h => ?_, heq⟩
  rw [h] at heq
  exact Nat.lt_irrefl _ (heq ▸ hj.1)

theorem toNat_range {k : UInt16} (hk : k ≠ 0) : 0 < k.toNat ∧ k.toNat ≤ 65535 := by
  refine ⟨Nat.pos_of_ne_zero fun h => hk (UInt16.toNat_inj.mp h), ?_⟩
  exact Nat.le_of_lt_succ k.toNat_lt

/-- The client's table is a next-fit allocator, in every run. -/
theorem nextFit (codec : Codec) (options : ClientOptions) (guard : Lts.Guard System Event) :
    Lts.NextFit (step codec options) guard init 65535 (·.lastIssuedId.toNat) owned
      (fun e => (issues e).map UInt16.toNat) where
  range hr := toNat_range (lastIssuedId_run hr)
  issued hr hs he := by
    obtain ⟨k, hk, rfl⟩ := Option.map_eq_some_iff.mp he
    obtain ⟨frame, rfl⟩ := issues_eq_some hk
    obtain ⟨_, hz, _⟩ := registered_step hs
    refine ⟨toNat_range hz, ?_, ?_, fun j hj hd => ?_⟩
    · rw [lastIssuedId_step hs, hk, Option.getD_some]
    · rw [owned, UInt16.ofNat_toNat, owner_step hs, ownerAfter, if_pos rfl]
      rfl
    · obtain ⟨hj0, heq⟩ := ofNat_ne_zero hj
      refine owner_of_nearer hr hs hj0 ?_
      have hl := lastIssuedId_run hr
      rw [← ringDistance_eq hl hj0, ← ringDistance_eq hl hz, heq]
      exact hd
  kept hr hs he := by
    rw [Option.map_eq_none_iff] at he
    rw [lastIssuedId_step hs, he, Option.getD_none]

-- ---------------------------------------------------------------------------
-- Late acknowledgements
-- ---------------------------------------------------------------------------

/-- `j` has had no owner in these states. -/
def Unused (j : UInt16) (h : Lts.History System Event) (s : System) : Prop :=
  s.owner j = none ∧ ∀ x ∈ h, x.1.owner j = none

theorem not_reissued
    (hr : Run codec options guard (mid ++ (s₁, .call (.registered frame k)) :: h) s)
    (hj : j ≠ 0) (hne : j ≠ k) (hu : Unused j mid s) :
    step codec options s (.call (.registered frame' k)) = none := by
  by_contra hs
  obtain ⟨s', hs⟩ := Option.ne_none_iff_exists'.mp hs
  have hnat : j.toNat ≠ k.toNat := fun h => hne (UInt16.toNat_inj.mp h)
  have hseen := (nextFit codec options guard).reused hr hs rfl rfl (toNat_range hj) hnat
  simp only [Lts.Seen, owned, UInt16.ofNat_toNat] at hseen
  rcases hseen with hseen | ⟨x, hx, hseen⟩
  · rw [hu.1] at hseen
    cases hseen
  · rw [hu.2 x hx] at hseen
    cases hseen

/-- Only an issue gives an identifier an owner. -/
theorem owner_none_step (hs : step codec options s e = some s') (ho : s.owner k = none)
    (he : issues e ≠ some k) : s'.owner k = none := by
  rw [owner_step hs]
  unfold ownerAfter
  split
  · rename_i pkid
    rwa [if_neg fun h => he (by rw [issues, h])]
  · rw [ho, ite_self]
  · rw [ho, ite_self]

theorem freed_run
    (hr : Run codec options guard (mid ++ (s₁, .call (.registered frame k)) :: h) s)
    (hj : j ≠ 0) (hne : j ≠ k) (hu : Unused j mid s) (hx : ∃ x ∈ mid, x.1.owner k = none) :
    s.owner k = none := by
  induction mid generalizing s with
  | nil =>
    obtain ⟨x, hx, _⟩ := hx
    cases hx
  | cons last mid ih =>
    obtain ⟨s₀, e⟩ := last
    cases hr with
    | snoc hr _ hs =>
      have hu₀ : Unused j mid s₀ :=
        ⟨hu.2 _ List.mem_cons_self, fun x hx => hu.2 x (List.mem_cons_of_mem _ hx)⟩
      have ho : s₀.owner k = none := by
        obtain ⟨x, hx, ho⟩ := hx
        rcases List.mem_cons.mp hx with rfl | hx
        · exact ho
        · exact ih hr hu₀ ⟨x, hx, ho⟩
      refine owner_none_step hs ho fun he => ?_
      obtain ⟨frame', rfl⟩ := issues_eq_some he
      rw [not_reissued hr hj hne hu₀] at hs
      cases hs

/-- In every run, as long as some other identifier has had no owner since `k`
was issued: `k` is not issued again, and once `k` has been freed, an
acknowledgement for `k`, late or duplicated, changes nothing. -/
theorem reissued_last
    (hr : Run codec options guard (mid ++ (s₁, .call (.registered frame k)) :: h) s)
    (hj : j ≠ 0) (hne : j ≠ k) (hu : Unused j mid s) :
    (∀ frame', step codec options s (.call (.registered frame' k)) = none) ∧
      ((∃ x ∈ mid, x.1.owner k = none) → ∀ packet, State.acked packet = some k →
        (readFromServer packet s.state).1 = s.state) :=
  ⟨fun _ => not_reissued hr hj hne hu, fun hx _ ha =>
    s.state.readFromServer_unowned ha (freed_run hr hj hne hu hx)⟩

/-- After a subscribe call and its SUBACK, a second SUBACK. -/
theorem reissued_last_subscribe : ∃ mid s₁ frame h s,
    Run acceptingCodec .new Lts.anything (mid ++ (s₁, .call (.registered frame 2)) :: h) s ∧
      (readFromServer (.suback 2 [.failure]) s.state).1 = s.state := by
  obtain ⟨h, s, hr, ht⟩ := Lts.exists_run (step acceptingCodec .new) Lts.anything init
    (connecting none 0 false ++ connected none 0 false ++ subscribing "a" 7 1 2 ++
      [received .pingresp])
    (fun h s => h.head?.any (fun x => x.1.owner 2 = none) &&
      h.tail.any (fun x => issues x.2 = some 2) && h.all (fun x => x.1.owner 1 = none) &&
      s.owner 1 = none) (by decide +kernel)
  cases h with
  | nil => simp at ht
  | cons last h =>
    simp only [List.head?_cons, Option.any_some, List.tail_cons, Bool.and_eq_true,
      decide_eq_true_eq, List.any_eq_true, List.all_eq_true] at ht
    obtain ⟨⟨⟨hfreed, ⟨s₁, e₁⟩, hx, he⟩, hall⟩, ho⟩ := ht
    obtain ⟨frame, rfl⟩ := issues_eq_some he
    obtain ⟨mid, h, rfl⟩ := List.append_of_mem hx
    have hu : Unused 1 (last :: mid) s := by
      refine ⟨ho, fun x hx => hall x ?_⟩
      rw [← List.cons_append]
      exact List.mem_append_left _ hx
    obtain ⟨_, hlate⟩ := reissued_last (j := 1) hr (by decide) (by decide) hu
    exact ⟨last :: mid, s₁, frame, h, s, hr, hlate ⟨last, List.mem_cons_self, hfreed⟩ _ rfl⟩

end System

end MesquitteClient
