import MesquitteClient.HalfOpen
import MesquitteClient.Outcomes
import MesquitteClient.Teardown

/-!
# What reaches the wire

A packet of a call is enqueued at most once and written at most once, on
whatever connection (`written_once`). From its token one can read more than
whether it has failed: after three of the errors the packet was never
enqueued, after an I/O error it was enqueued and not written, and a QoS 0
publish or a disconnect has succeeded exactly if its packet has been written
(`outcome_tells`).
-/

namespace MesquitteClient

theorem TokenKind.not_numbered {kind : TokenKind} (hk : kind.unacknowledged) :
    ¬ kind.numbered ∧ kind ≠ .connect := by
  unfold TokenKind.unacknowledged at hk
  split at hk <;> simp_all [TokenKind.numbered]

namespace System

variable {codec : Codec} {options : ClientOptions} {guard : Lts.Guard System Event}
variable {s s' : System} {e : Event} {h : Lts.History System Event}

def enqueuedToken : Event → Option TokenId
  | .call (.enqueued frame _) => some frame.token
  | _ => none

def writtenToken : Event → Option TokenId
  | .writer (.outgoingWritten outgoing) => outgoing.token
  | _ => none

/-- The tokens of the packets that have been enqueued, newest first. -/
def enqueuedTokens (h : Lts.History System Event) : List TokenId :=
  h.filterMap fun x => enqueuedToken x.2

/-- The tokens of the packets that have been written. -/
def writtenTokens (h : Lts.History System Event) : List TokenId :=
  h.filterMap fun x => writtenToken x.2

theorem enqueuedTokens_cons :
    enqueuedTokens ((s, e) :: h) = (enqueuedToken e).toList ++ enqueuedTokens h := by
  cases he : enqueuedToken e <;> simp [enqueuedTokens, he]

theorem writtenTokens_cons :
    writtenTokens ((s, e) :: h) = (writtenToken e).toList ++ writtenTokens h := by
  cases he : writtenToken e <;> simp [writtenTokens, he]

-- ---------------------------------------------------------------------------
-- At most once
-- ---------------------------------------------------------------------------

structure Sent (h : Lts.History System Event) (s : System) : Prop where
  issued : t ∈ enqueuedTokens h → t < s.state.tokens.next
  unsent : s.client.unsent = some t → t ∉ enqueuedTokens h
  once : (enqueuedTokens h).Nodup
  /-- what is written or on its way has been enqueued, and is one or the other -/
  onWay : (writtenTokens h ++ s.conn.carried).Subperm (enqueuedTokens h)

theorem sent_init : Sent [] init where
  issued h := by cases h
  unsent h := by cases h
  once := .nil
  onWay := .refl []

theorem Sent.enqueued_step (hsent : Sent h s) (hreg : Registry codec s)
    (hs : step codec options s (.call (.enqueued frame packet)) = some s') :
    Sent ((s, .call (.enqueued frame packet)) :: h) s' := by
  have hlt {t : TokenId} (ht : t < s.state.tokens.next) := lt_next_step hs ht
  have hcons : enqueuedTokens ((s, .call (.enqueued frame packet)) :: h) =
      frame.token :: enqueuedTokens h := enqueuedTokens_cons
  simp only [step, stepCall, when_eq_some] at hs
  obtain ⟨⟨hc, _⟩, rfl⟩ := hs
  have hu : s.client.unsent = some frame.token := by rw [hc]; rfl
  refine ⟨fun ht => ?_, fun hu' => ?_, ?_, ?_⟩
  · rw [hcons] at ht
    rcases List.mem_cons.mp ht with rfl | ht
    · exact hlt (hreg.frame_lt hc)
    · exact hlt (hsent.issued ht)
  · cases hu'
  · rw [hcons]
    exact List.nodup_cons.mpr ⟨hsent.unsent hu, hsent.once⟩
  · rw [hcons]
    have hcarried : (s.conn.carried ++ [frame.token]) = Connection.carried
        { s.conn with outgoing := s.conn.outgoing ++ [⟨packet, some frame.token⟩] } := by
      simp [Connection.carried]
    have hperm : (writtenTokens h ++ (s.conn.carried ++ [frame.token])).Perm
        (frame.token :: (writtenTokens h ++ s.conn.carried)) := by
      rw [← List.append_assoc]
      exact List.perm_append_singleton _ _
    rw [writtenTokens_cons]
    change (writtenTokens h ++ Connection.carried _).Subperm _
    rw [← hcarried]
    exact hperm.subperm.trans ((List.subperm_cons _).mpr hsent.onWay)

/-- What has been written was what the write loop carried first. -/
theorem carried_written (hs : step codec options s e = some s') (hw : writtenToken e = some t) :
    s.conn.carried = t :: s'.conn.carried := by
  rw [conn_step hs]
  cases e with
  | writer e =>
    cases e with
    | outgoingWritten o =>
      simp only [step, stepWriter, when_eq_some] at hs
      simp only [writtenToken] at hw
      simp [Connection.carried, connAfter, hs.1, hw]
    | _ => cases hw
  | _ e => cases hw

theorem Sent.other_step (hsent : Sent h s) (hs : step codec options s e = some s')
    (he : enqueuedToken e = none) : Sent ((s, e) :: h) s' := by
  have hcons : enqueuedTokens ((s, e) :: h) = enqueuedTokens h := by
    rw [enqueuedTokens_cons, he]
    rfl
  have hcarried : s'.conn.carried.Sublist s.conn.carried := by
    rcases carried_step hs with hsub | ⟨frame, packet, rfl, _⟩
    · exact hsub
    · cases he
  refine ⟨fun ht => ?_, fun hu ht => ?_, by rw [hcons]; exact hsent.once, ?_⟩
  · rw [hcons] at ht
    exact lt_next_step hs (hsent.issued ht)
  · rw [hcons] at ht
    rcases unsent_origin hs hu with hu | ⟨_, rfl⟩
    · exact hsent.unsent hu ht
    · exact Nat.lt_irrefl _ (hsent.issued ht)
  · rw [hcons, writtenTokens_cons]
    cases hw : writtenToken e with
    | none =>
      exact ((List.Sublist.append_left hcarried _).subperm).trans hsent.onWay
    | some t =>
      have hperm : (t :: (writtenTokens h ++ s'.conn.carried)).Perm
          (writtenTokens h ++ s.conn.carried) := by
        rw [carried_written hs hw]
        exact List.perm_middle.symm
      exact hperm.subperm.trans hsent.onWay

theorem sent_run (hr : Run codec options guard h s) : Sent h s := by
  refine hr.invariant (P := fun h s => Sent h s) sent_init fun {h s e s'} hr hsent _ hs => ?_
  cases he : enqueuedToken e with
  | none => exact hsent.other_step hs he
  | some t =>
    cases e with
    | call e =>
      cases e with
      | enqueued frame packet => exact hsent.enqueued_step (registry hr) hs
      | _ => cases he
    | _ e => cases he

/-- For every run: no packet of a call is enqueued or written twice, nor
written without having been enqueued. -/
theorem written_once (hr : Run codec options guard h s) :
    (enqueuedTokens h).Nodup ∧ (writtenTokens h).Nodup ∧ ∀ t ∈ writtenTokens h,
      t ∈ enqueuedTokens h := by
  have hsent := sent_run hr
  have hsub : (writtenTokens h).Subperm (enqueuedTokens h) :=
    (List.sublist_append_left _ _).subperm.trans hsent.onWay
  obtain ⟨l, hperm, hl⟩ := hsub
  exact ⟨hsent.once, hperm.nodup_iff.mp (hsent.once.sublist hl),
    fun t ht => hl.subset (hperm.mem_iff.mpr ht)⟩

/-- A subscribe call goes through. -/
theorem written_once_subscribe : ∃ h s, Run acceptingCodec .new Lts.anything h s ∧
    1 ∈ writtenTokens h ∧ (enqueuedTokens h).Nodup ∧ (writtenTokens h).Nodup ∧
    1 ∈ enqueuedTokens h := by
  obtain ⟨h, s, hr, hw⟩ := Lts.exists_run (step acceptingCodec .new) Lts.anything init
    (connecting none 0 false ++ connected none 0 false ++ subscribing "a" 7 1 2)
    (fun h _ => 1 ∈ writtenTokens h) (by decide +kernel)
  simp only [decide_eq_true_eq] at hw
  obtain ⟨hq, hn, hsub⟩ := written_once hr
  exact ⟨h, s, hr, hw, hq, hn, hsub 1 hw⟩

-- ---------------------------------------------------------------------------
-- What a token tells
-- ---------------------------------------------------------------------------

/-- The errors of a call whose packet was not enqueued. -/
def beforeSend : TokenError → Bool
  | .invalidTopic | .packetIdError | .internalServerError => true
  | _ => false

/-- What a step does to the error of a token. -/
inductive ErrorStep (s : System) (e : Event) (s' : System) (t : TokenId) : Prop
  | kept (he : (s'.cell t).error = (s.cell t).error)
  | lost (hr : s.registered t) (he : (s'.cell t).error = some .connectionLost)
  /-- the call or the connect fails that has the token -/
  | failed (err : TokenError) (hu : s.client.unsent = some t) (hu' : s'.client.unsent = none)
    (hconn : s'.conn = s.conn) (hq : enqueuedToken e = none)
    (he : (s'.cell t).error = some err) (hk : beforeSend err ∨ (s.cell t).kind = .connect)
  | unwritten (outgoing : PacketAndToken) (err : String)
    (hev : e = .writer (.outgoingFailed outgoing err)) (ht : outgoing.token = some t)
    (hw : s.conn.writer = .writingOutgoing outgoing)
    (he : (s'.cell t).error = some (.ioError err))

theorem errorStep_touched (hreg : Registry codec s) (hs : step codec options s e = some s')
    (hf : touched e = some (t, f)) (hcell : s'.cell t = f (s.cell t)) : ErrorStep s e s' t := by
  have hconn := conn_step hs
  have hkept (h : (f (s.cell t)).error = (s.cell t).error) : ErrorStep s e s' t :=
    .kept (by rw [hcell, h])
  cases e with
  | call e =>
    simp only [step] at hs
    cases e with
    | topicAdded frame pkid topic rest | returned frame =>
      simp only [touched, Option.some.injEq, Prod.mk.injEq] at hf
      obtain ⟨_, rfl⟩ := hf
      exact hkept (by simp)
    | exhausted frame | invalid frame pkid topics =>
      simp only [touched, Option.some.injEq, Prod.mk.injEq] at hf
      obtain ⟨rfl, rfl⟩ := hf
      simp only [stepCall, when_eq_some] at hs
      have hu : s.client.unsent = some frame.token := by rw [hs.1.1]; rfl
      have hu' : s'.client.unsent = none := by rw [← hs.2]; exact ClientTask.unsent_returned frame
      exact .failed _ hu hu' hconn rfl (by rw [hcell]; rfl) (.inl rfl)
    | sendFailed frame packet =>
      simp only [touched, Option.some.injEq, Prod.mk.injEq] at hf
      obtain ⟨rfl, rfl⟩ := hf
      simp only [stepCall, when_eq_some] at hs
      have hu : s.client.unsent = some frame.token := by rw [hs.1.1]; rfl
      have hu' : s'.client.unsent = none := by rw [← hs.2]; rfl
      exact .failed _ hu hu' hconn rfl (by rw [hcell]; rfl) (.inl rfl)
    | _ => cases hf
  | connect e =>
    simp only [step] at hs
    cases e with
    | transportFailed caller u err =>
      simp only [touched, Option.some.injEq, Prod.mk.injEq] at hf
      obtain ⟨rfl, rfl⟩ := hf
      simp only [stepConnect, when_eq_some] at hs
      have hu : s.client.unsent = some u := by rw [hs.1.1]; rfl
      have hu' : s'.client.unsent = none := by
        rw [← hs.2]
        exact ClientTask.unsent_connectReturned caller u
      exact .failed _ hu hu' hconn rfl (by rw [hcell]; rfl) (.inr (hreg.connect_kind hs.1.1))
    | refused caller u item =>
      simp only [touched, Option.some.injEq, Prod.mk.injEq] at hf
      obtain ⟨rfl, rfl⟩ := hf
      simp only [stepConnect, when_eq_some] at hs
      obtain ⟨token, htoken⟩ := Option.isSome_iff_exists.mp hs.1.2.2
      obtain ⟨err, herr⟩ := Option.isSome_iff_exists.mp (refuse_cases (e := .connect
        (.refused caller u item)) htoken).2.2
      have hu : s.client.unsent = some u := by rw [hs.1.1]; rfl
      have hu' : s'.client.unsent = none := by
        rw [← hs.2]
        exact ClientTask.unsent_connectReturned caller u
      have hcell' : s'.cell u = token := hcell.trans (by simp [htoken])
      exact .failed err hu hu' hconn rfl (by rw [hcell', herr]) (.inr (hreg.connect_kind hs.1.1))
    | returned caller u sp =>
      simp only [touched, Option.some.injEq, Prod.mk.injEq] at hf
      obtain ⟨_, rfl⟩ := hf
      exact hkept (by cases sp <;> simp)
    | _ => cases hf
  | writer e =>
    cases e with
    | outgoingWritten o =>
      simp only [touched, Option.map_eq_some_iff, Prod.mk.injEq] at hf
      obtain ⟨_, _, _, rfl⟩ := hf
      rcases completeWritten_cases (s.cell t) with h | h
      · exact hkept (by rw [h])
      · exact hkept (by rw [h]; rfl)
    | outgoingFailed o err =>
      simp only [touched, Option.map_eq_some_iff, Prod.mk.injEq] at hf
      obtain ⟨_, hot, rfl, rfl⟩ := hf
      simp only [step, stepWriter, when_eq_some] at hs
      exact .unwritten o err rfl hot hs.1 (by rw [hcell]; rfl)
    | _ => cases hf
  | _ e => cases e <;> cases hf

theorem errorStep (hreg : Registry codec s) (hs : step codec options s e = some s')
    (hlt : t < s.state.tokens.next) : ErrorStep s e s' t := by
  rcases cell_cases hs hlt with ⟨ack, k, _, _, h⟩ | ⟨_, hr, h⟩ | ⟨f, hf, h⟩ | h
  · refine .kept ?_
    rw [h]
    cases ack <;> simp [State.noted]
  · exact .lost hr (by rw [h]; rfl)
  · exact errorStep_touched hreg hs hf h
  · exact .kept (by rw [h])

theorem not_registered_of_unacknowledged (hreg : Registry codec s)
    (hk : (s.cell t).kind.unacknowledged) : ¬ s.registered t := by
  intro hr
  obtain ⟨k, ho⟩ := (registered_iff s).mp hr
  exact (TokenKind.not_numbered hk).1 (hreg.owner_numbered ho)

structure Telling (h : Lts.History System Event) (s : System) : Prop where
  unsent : s.client.unsent = some t → (s.cell t).error = some err → err = .connectionLost
  held : t ∈ holders s → (s.cell t).kind.unacknowledged → (s.cell t).error = none
  notSent : t < s.state.tokens.next → (s.cell t).error = some err → beforeSend err →
    t ∉ enqueuedTokens h
  unwritten : t < s.state.tokens.next → (s.cell t).error = some (.ioError msg) →
    (s.cell t).kind ≠ .connect →
    t ∈ enqueuedTokens h ∧ t ∉ writtenTokens h ∧ t ∉ s.conn.carried
  written : t ∈ writtenTokens h → (s.cell t).kind.unacknowledged →
    (s.cell t).complete ∧ (s.cell t).error = none
  done : t < s.state.tokens.next → (s.cell t).kind.unacknowledged → (s.cell t).complete →
    (s.cell t).error = none → t ∈ writtenTokens h

theorem telling_init : Telling [] init where
  unsent h := by cases h
  held h := by cases h
  notSent h := absurd h (Nat.not_lt_zero _)
  unwritten h := absurd h (Nat.not_lt_zero _)
  written h := by cases h
  done h := absurd h (Nat.not_lt_zero _)

theorem created_error (hc : created e = some token) :
    (∀ msg, token.error ≠ some (.ioError msg)) ∧
      (token.complete → token.error = none → token.kind = .connect) ∧
      (begins e → token.error = none) := by
  cases e with
  | call e =>
    cases e with
    | accepted job call | refused job call =>
      cases hc
      cases call <;> simp [Call.newToken, InnerToken.publish, InnerToken.setQos,
        InnerToken.subscribe, InnerToken.unsubscribe, InnerToken.disconnect,
        InnerToken.setError, begins]
    | _ => cases hc
  | connect e =>
    cases e with
    | started caller | already caller | reconnecting caller =>
      cases hc
      simp [InnerToken.connect, InnerToken.setReturnCode, InnerToken.setError, InnerToken.kind,
        TokenData.kind, begins]
    | _ => cases hc
  | _ e => cases hc

/-- A token is there already, or is created by the step. -/
theorem lt_next_origin (hs : step codec options s e = some s') (hlt : t < s'.state.tokens.next) :
    t < s.state.tokens.next ∨ t = s.state.tokens.next ∧
      ∃ token, created e = some token ∧ s'.cell t = token := by
  rw [next_step hs] at hlt
  cases hc : created e with
  | none =>
    rw [hc] at hlt
    exact .inl hlt
  | some token =>
    rw [hc] at hlt
    rcases Nat.lt_succ_iff_lt_or_eq.mp hlt with hlt | rfl
    · exact .inl hlt
    · exact .inr ⟨rfl, token, rfl, cell_created hs hc⟩

theorem begins_created (hb : begins e) : ∃ token, created e = some token := by
  unfold begins at hb
  split at hb
  · exact ⟨_, rfl⟩
  · exact ⟨_, rfl⟩
  · cases hb

theorem begins_error (hs : step codec options s e = some s') (hb : begins e) :
    (s'.cell s.state.tokens.next).error = none := by
  obtain ⟨token, hc⟩ := begins_created hb
  rw [cell_created hs hc]
  exact (created_error hc).2.2 hb

theorem Telling.unsent_step (ht : Telling h s) (hh : Holding h s) (hreg : Registry codec s)
    (hs : step codec options s e = some s') (hu : s'.client.unsent = some t)
    (he : (s'.cell t).error = some err) : err = .connectionLost := by
  rcases unsent_origin hs hu with h₀ | ⟨hb, rfl⟩
  · have hlt := hreg.holders_lt (List.mem_append_left _ (Option.mem_toList.mpr h₀))
    cases errorStep hreg hs hlt with
    | kept he' => exact ht.unsent h₀ (he' ▸ he)
    | lost _ he' => exact (Option.some.inj (he'.symm.trans he)).symm
    | failed _ _ hu' => cases hu'.symm.trans hu
    | unwritten o _ _ hot hw =>
      refine absurd ?_ (hh.unsent_not_carried h₀)
      simp [Connection.carried, hw, hot]
  · rw [begins_error hs hb] at he
    cases he

theorem Telling.held_step (ht : Telling h s) (hh : Holding h s) (hreg : Registry codec s)
    (hs : step codec options s e = some s') (hm : t ∈ holders s')
    (hk : (s'.cell t).kind.unacknowledged) : (s'.cell t).error = none := by
  rcases holders_origin hs hm with h₀ | ⟨rfl, hb⟩
  · have hlt := hreg.holders_lt h₀
    rw [kind_step hs hlt] at hk
    cases errorStep hreg hs hlt with
    | kept he => exact he.trans (ht.held h₀ hk)
    | lost hr => exact absurd hr (not_registered_of_unacknowledged hreg hk)
    | failed _ hu hu' hconn =>
      -- the call has let go of it, and has not sent it
      rw [holders, hu', Option.toList_none, List.nil_append, hconn] at hm
      exact absurd hm (hh.unsent_not_carried hu)
    | unwritten o err hev hot hw =>
      subst hev
      have hconn := conn_step hs
      have hclient := client_step hs rfl
      have hcarried : s'.conn.carried = [] := by rw [hconn]; rfl
      rw [holders, hcarried, List.append_nil, hclient] at hm
      refine absurd ?_ (hh.unsent_not_carried (Option.mem_toList.mp hm))
      simp [Connection.carried, hw, hot]
  · exact begins_error hs hb

theorem enqueued_unsent (hs : step codec options s e = some s') (hq : enqueuedToken e = some t) :
    s.client.unsent = some t := by
  cases e with
  | call e =>
    cases e with
    | enqueued frame packet =>
      cases hq
      simp only [step, stepCall, when_eq_some] at hs
      rw [hs.1.1]
      rfl
    | _ => cases hq
  | _ e => cases hq

theorem mem_enqueuedTokens_cons : t ∈ enqueuedTokens ((s, e) :: h) ↔
    enqueuedToken e = some t ∨ t ∈ enqueuedTokens h := by
  rw [enqueuedTokens_cons, List.mem_append, Option.mem_toList]

theorem mem_writtenTokens_cons : t ∈ writtenTokens ((s, e) :: h) ↔
    writtenToken e = some t ∨ t ∈ writtenTokens h := by
  rw [writtenTokens_cons, List.mem_append, Option.mem_toList]

theorem Telling.notSent_step (ht : Telling h s) (hsent : Sent h s) (hreg : Registry codec s)
    (hs : step codec options s e = some s') (hlt : t < s'.state.tokens.next)
    (he : (s'.cell t).error = some err) (hn : beforeSend err) :
    t ∉ enqueuedTokens ((s, e) :: h) := by
  rw [mem_enqueuedTokens_cons, not_or]
  rcases lt_next_origin hs hlt with hlt | ⟨rfl, token, hc, _⟩
  · cases errorStep hreg hs hlt with
    | kept he' =>
      rw [he'] at he
      refine ⟨fun hq => ?_, ht.notSent hlt he hn⟩
      rw [ht.unsent (enqueued_unsent hs hq) he] at hn
      cases hn
    | lost _ he' =>
      cases he'.symm.trans he
      cases hn
    | failed _ hu _ _ hq => exact ⟨by simp [hq], hsent.unsent hu⟩
    | unwritten _ _ _ _ _ he' =>
      cases he'.symm.trans he
      cases hn
  · refine ⟨fun hq => ?_, fun hm => Nat.lt_irrefl _ (hsent.issued hm)⟩
    have hlt := hreg.holders_lt (List.mem_append_left _
      (Option.mem_toList.mpr (enqueued_unsent hs hq)))
    exact Nat.lt_irrefl _ hlt

/-- What is on its way is not written yet. -/
theorem Sent.carried_fresh (hsent : Sent h s) (hc : t ∈ s.conn.carried) :
    t ∈ enqueuedTokens h ∧ t ∉ writtenTokens h := by
  obtain ⟨l, hperm, hl⟩ := hsent.onWay
  have hnodup : (writtenTokens h ++ s.conn.carried).Nodup :=
    hperm.nodup_iff.mp (hsent.once.sublist hl)
  refine ⟨hl.subset (hperm.mem_iff.mpr (List.mem_append_right _ hc)), fun hw => ?_⟩
  exact (List.nodup_append.mp hnodup).2.2 t hw t hc rfl

theorem carried_of_writtenToken (hs : step codec options s e = some s')
    (hw : writtenToken e = some t) : t ∈ s.conn.carried := by
  rw [carried_written hs hw]
  exact List.mem_cons_self

theorem Telling.unwritten_step (ht : Telling h s) (hsent : Sent h s) (hreg : Registry codec s)
    (hs : step codec options s e = some s') (hlt : t < s'.state.tokens.next)
    (he : (s'.cell t).error = some (.ioError msg)) (hk : (s'.cell t).kind ≠ .connect) :
    t ∈ enqueuedTokens ((s, e) :: h) ∧ t ∉ writtenTokens ((s, e) :: h) ∧
      t ∉ s'.conn.carried := by
  rw [mem_enqueuedTokens_cons, mem_writtenTokens_cons, not_or]
  rcases lt_next_origin hs hlt with hlt | ⟨rfl, token, hc, hcell⟩
  · rw [kind_step hs hlt] at hk
    cases errorStep hreg hs hlt with
    | kept he' =>
      rw [he'] at he
      obtain ⟨hq, hw, hcar⟩ := ht.unwritten hlt he hk
      refine ⟨.inr hq, ⟨fun h => hcar (carried_of_writtenToken hs h), hw⟩, fun hcar' => ?_⟩
      rcases carried_step hs with hsub | ⟨frame, packet, rfl, happ⟩
      · exact hcar (hsub.subset hcar')
      · rw [happ] at hcar'
        rcases List.mem_append.mp hcar' with h | h
        · exact hcar h
        · obtain rfl := List.mem_singleton.mp h
          cases ht.unsent (enqueued_unsent hs rfl) he
    | lost _ he' => cases he'.symm.trans he
    | failed _ _ _ _ _ he' hk' =>
      cases he'.symm.trans he
      rcases hk' with hk' | hk'
      · cases hk'
      · exact absurd hk' hk
    | unwritten o _ hev hot hw =>
      subst hev
      have hcarried : t ∈ s.conn.carried := by simp [Connection.carried, hw, hot]
      obtain ⟨hq, hwritten⟩ := hsent.carried_fresh hcarried
      refine ⟨.inr hq, ⟨by simp [writtenToken], hwritten⟩, ?_⟩
      rw [conn_step hs]
      exact List.not_mem_nil
  · rw [hcell] at he
    exact absurd he ((created_error hc).1 msg)

theorem writer_of_writtenToken (hs : step codec options s e = some s')
    (hw : writtenToken e = some t) :
    ∃ o, e = .writer (.outgoingWritten o) ∧ o.token = some t := by
  cases e with
  | writer e =>
    cases e with
    | outgoingWritten o => exact ⟨o, rfl, hw⟩
    | _ => cases hw
  | _ e => cases hw

theorem Telling.written_step (ht : Telling h s) (hsent : Sent h s) (hreg : Registry codec s)
    (hs : step codec options s e = some s') (hm : t ∈ writtenTokens ((s, e) :: h))
    (hk : (s'.cell t).kind.unacknowledged) : (s'.cell t).complete ∧ (s'.cell t).error = none := by
  rcases mem_writtenTokens_cons.mp hm with hw | hm
  · have hcar := carried_of_writtenToken hs hw
    have hmem : t ∈ holders s := List.mem_append_right _ hcar
    have hlt := hreg.holders_lt hmem
    rw [kind_step hs hlt] at hk
    obtain ⟨o, rfl, hot⟩ := writer_of_writtenToken hs hw
    have hcell : s'.cell t = completeWritten (s.cell t) := by
      rw [cell_step hs hlt]
      simp [cellAfter, cleansUp, touched, hot]
    refine ⟨by rw [hcell]; exact completeWritten_complete hk, ?_⟩
    rw [hcell]
    rcases completeWritten_cases (s.cell t) with h | h
    · rw [h]
      exact ht.held hmem hk
    · rw [h]
      exact ht.held hmem hk
  · have henq : t ∈ enqueuedTokens h :=
      (hsent.onWay.subset (List.mem_append_left _ hm))
    have hlt := hsent.issued henq
    rw [kind_step hs hlt] at hk
    obtain ⟨hc, he⟩ := ht.written hm hk
    refine ⟨complete_step hs hlt hc, ?_⟩
    cases errorStep hreg hs hlt with
    | kept he' => exact he'.trans he
    | lost hr => exact absurd hr (not_registered_of_unacknowledged hreg hk)
    | failed _ hu => exact absurd henq (hsent.unsent hu)
    | unwritten o _ _ hot hw =>
      have hcar : t ∈ s.conn.carried := by simp [Connection.carried, hw, hot]
      exact absurd hm (hsent.carried_fresh hcar).2

theorem Telling.done_step (ht : Telling h s) (hreg : Registry codec s)
    (hs : step codec options s e = some s') (hlt : t < s'.state.tokens.next)
    (hk : (s'.cell t).kind.unacknowledged) (hc : (s'.cell t).complete)
    (he : (s'.cell t).error = none) : t ∈ writtenTokens ((s, e) :: h) := by
  rw [mem_writtenTokens_cons]
  rcases lt_next_origin hs hlt with hlt | ⟨rfl, token, hcr, hcell⟩
  · rw [kind_step hs hlt] at hk
    by_cases hc₀ : (s.cell t).complete
    · exact .inr (ht.done hlt hk hc₀ (error_step hs hlt he))
    · rcases cell_cases hs hlt with ⟨ack, k, _, hend, _⟩ | ⟨_, hr, _⟩ | ⟨f, hf, h⟩ | h
      · exact absurd (registered_of_ends (ends_iff.mpr (.inl ⟨ack, k, rfl, hend⟩)))
          (not_registered_of_unacknowledged hreg hk)
      · exact absurd hr (not_registered_of_unacknowledged hreg hk)
      · rw [h] at hc he
        rcases touched_completes hf hc₀ hc he with ⟨o, rfl, hot, _⟩ | ⟨caller, sp, rfl⟩
        · exact .inl hot
        · simp only [step, stepConnect, when_eq_some] at hs
          exact absurd (hreg.connect_kind hs.1) (TokenKind.not_numbered hk).2
      · rw [h] at hc
        exact absurd hc hc₀
  · rw [hcell] at hk hc he
    exact absurd ((created_error hcr).2.1 hc he) (TokenKind.not_numbered hk).2

theorem telling_run (hr : Run codec options guard h s) : Telling h s := by
  refine hr.invariant (P := fun h s => Telling h s) telling_init fun {h s e s'} hr ht _ hs => ?_
  have hsent := sent_run hr
  have hreg := registry hr
  have hh := holding_run hr
  exact
    { unsent := ht.unsent_step hh hreg hs
      held := ht.held_step hh hreg hs
      notSent := ht.notSent_step hsent hreg hs
      unwritten := ht.unwritten_step hsent hreg hs
      written := ht.written_step hsent hreg hs
      done := ht.done_step hreg hs }

/-- For every run and every token: after `InvalidTopic`, `PacketIdError` or
`InternalServerError` the packet has not been enqueued; after an `IoError` it
has been enqueued and not written, unless it is a `connect` that failed; and a
QoS 0 publish or a disconnect has succeeded exactly if its packet has been
written. -/
theorem outcome_tells (hr : Run codec options guard h s) (hlt : t < s.state.tokens.next) :
    (∀ err, (s.cell t).error = some err → beforeSend err → t ∉ enqueuedTokens h) ∧
      (∀ msg, (s.cell t).error = some (.ioError msg) → (s.cell t).kind ≠ .connect →
        t ∈ enqueuedTokens h ∧ t ∉ writtenTokens h) ∧
      ((s.cell t).kind.unacknowledged →
        ((s.cell t).complete ∧ (s.cell t).error = none ↔ t ∈ writtenTokens h)) := by
  have ht := telling_run hr
  refine ⟨fun err he hn => ht.notSent hlt he hn, fun msg he hk => ?_, fun hk => ?_⟩
  · obtain ⟨hq, hw, _⟩ := ht.unwritten hlt he hk
    exact ⟨hq, hw⟩
  · exact ⟨fun ⟨hc, he⟩ => ht.done hlt hk hc he, fun hm => ht.written hm hk⟩

/-- A write fails. -/
theorem outcome_tells_failingWrite : ∃ h s, Run acceptingCodec .new Lts.anything h s ∧
    (s.cell 1).error = some (.ioError "Broken pipe") ∧ 1 ∈ enqueuedTokens h ∧
    1 ∉ writtenTokens h := by
  obtain ⟨h, s, hr, ht⟩ := Lts.exists_run (step acceptingCodec .new) Lts.anything init
    (connecting none 0 false ++ connected none 0 false ++ failingWrite)
    (fun _ s => 1 < s.state.tokens.next && (s.cell 1).error = some (.ioError "Broken pipe") &&
      (s.cell 1).kind ≠ .connect) (by decide +kernel)
  simp only [Bool.and_eq_true, decide_eq_true_eq] at ht
  obtain ⟨⟨hlt, he⟩, hk⟩ := ht
  obtain ⟨hq, hw⟩ := (outcome_tells hr hlt).2.1 "Broken pipe" he hk
  exact ⟨h, s, hr, he, hq, hw⟩

end System

end MesquitteClient
