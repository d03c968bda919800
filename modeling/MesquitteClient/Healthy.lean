import MesquitteClient.Reconnecting

/-!
# While the connection is up

As long as both loops run, nothing goes wrong for the client task: no call of a
job is refused or runs out of identifiers, the token it awaits gets no error,
and what `block` goes back to is an intact trie.
-/

namespace MesquitteClient

namespace System

variable {codec : Codec} {options : ClientOptions} {s s' : System} {e : Event}
variable {guard : Lts.Guard System Event} {h : Lts.History System Event}

/-- Both loops of the connection run. -/
def Up (s : System) : Prop := s.conn.reader ≠ .ended ∧ s.conn.writer ≠ .ended

theorem Up.joining (hu : Up s) (hl : Lifecycle options s) : s.conn.supervisor = .joining := by
  by_contra hne
  exact hu.1 (hl.ended hne).1

/-- Before a CONNACK there is no connection. -/
theorem Up.not_handshaking (hu : Up s) (hl : Lifecycle options s)
    (hstage : s.client.stage = .handshaking) : False := by
  cases (hu.joining hl).symm.trans (hl.handshaking hstage).2

theorem Up.origin (hu : Up s') (hs : step codec options s e = some s') :
    Up s ∨ ∃ caller t sp, e = .connect (.accepted caller t sp) := by
  unfold Up at hu
  rw [conn_step hs] at hu
  cases e with
  | connect e =>
    cases e with
    | accepted caller t sp => exact .inr ⟨caller, t, sp, rfl⟩
    | _ => exact .inl hu
  | reader e =>
    left
    cases e with
    | received packet | responded resp =>
      simp only [step, stepReader, when_eq_some] at hs
      refine ⟨?_, hu.2⟩
      first | rw [hs.1] | rw [hs.1.1]
      simp
    | respondFailed resp | streamEnded => exact absurd rfl hu.1
  | writer e =>
    left
    cases e with
    | msgTaken packet | outgoingTaken o | msgWritten packet | outgoingWritten o =>
      simp only [step, stepWriter, when_eq_some] at hs
      refine ⟨hu.1, ?_⟩
      first | rw [hs.1] | rw [hs.1.1]
      simp
    | msgFailed packet | outgoingFailed o err | msgClosed => exact absurd rfl hu.2
  | call e | keepAlive e | supervisor e => cases e <;> exact .inl hu
  | _ e => exact .inl hu

/-- No connection is made during a job. -/
theorem Up.of_inJob (hu : Up s') (hs : step codec options s e = some s') (hj : inJob s.client) :
    Up s := by
  rcases hu.origin hs with h | ⟨caller, u, sp, rfl⟩
  · exact h
  · simp only [step, stepConnect, when_eq_some] at hs
    rw [hs.1] at hj
    cases hj

/-- The job has cleaned up the identifiers. -/
def afterCleanUp : ClientTask → Bool
  | .job .cleanUp => false
  | client => inJob client

/-- The job has cleared the trie. -/
def afterClear : ClientTask → Bool
  | .job .cleanUp | .job .clone | .job (.clear _) => false
  | client => inJob client

theorem inJob_of_afterCleanUp {client : ClientTask} (h : afterCleanUp client) : inJob client := by
  unfold afterCleanUp at h
  split at h
  · cases h
  · exact h

theorem afterCleanUp_of_afterClear {client : ClientTask} (h : afterClear client) :
    afterCleanUp client := by
  unfold afterClear at h
  split at h
  · cases h
  · cases h
  · cases h
  · unfold afterCleanUp
    split
    · exact absurd rfl ‹_›
    · exact h

theorem afterCleanUp_origin (hs : step codec options s e = some s')
    (hj : afterCleanUp s'.client) : afterCleanUp s.client ∨ e = .block .jobCleanUp := by
  cases job_step hs (inJob_of_afterCleanUp hj) with
  | other _ hc => exact .inl (hc ▸ hj)
  | started _ _ _ _ _ hc' => simp [hc', afterCleanUp] at hj
  | cleanedUp he _ _ => exact .inr he
  | calling frame _ _ hjob _ hc _ => exact .inl (by rw [hc]; exact hjob)
  | returned frame _ rest hjob hc _ _ =>
    have hsome : frame.job.isSome := by rw [hjob]; rfl
    exact .inl (by rw [hc]; exact hsome)
  | cloned _ hc _ | cleared _ _ hc _ | accepted _ _ _ _ hc _ | refused _ _ _ _ hc _
  | awaited _ _ _ hc _ _ => exact .inl (by rw [hc]; rfl)

theorem afterClear_origin (hs : step codec options s e = some s') (hj : afterClear s'.client) :
    afterClear s.client ∨ ∃ subs, e = .block (.jobClear subs) := by
  cases job_step hs (inJob_of_afterCleanUp (afterCleanUp_of_afterClear hj)) with
  | other _ hc => exact .inl (hc ▸ hj)
  | cleared subs he _ _ => exact .inr ⟨subs, he⟩
  | started _ _ _ _ _ hc' | cleanedUp _ _ hc' | cloned _ _ hc' => simp [hc', afterClear] at hj
  | calling frame _ _ hjob _ hc _ => exact .inl (by rw [hc]; exact hjob)
  | returned frame _ rest hjob hc _ _ =>
    have hsome : frame.job.isSome := by rw [hjob]; rfl
    exact .inl (by rw [hc]; exact hsome)
  | accepted _ _ _ _ hc _ | refused _ _ _ _ hc _ | awaited _ _ _ hc _ _ =>
    exact .inl (by rw [hc]; rfl)

/-- A job keeps its token until it has awaited it. -/
theorem token_kept (hs : step codec options s e = some s') (hj : inJob s'.client)
    (ht : s.client.token = some t) (hj₀ : inJob s.client) :
    s'.client.token = some t ∨ (s.cell t).complete := by
  cases job_step hs hj with
  | other _ hc => exact .inl (hc ▸ ht)
  | started _ _ _ hc _ _ =>
    rw [hc] at hj₀
    cases hj₀
  | calling frame _ _ _ _ hc hc' =>
    rw [hc] at ht
    rw [hc']
    exact .inl ht
  | returned frame _ rest _ hc hc' _ =>
    rw [hc] at ht
    rw [hc']
    exact .inl ht
  | awaited u rest _ hc hd _ =>
    rw [hc] at ht
    cases ht
    exact .inr hd
  | cleanedUp _ hc _ | cloned _ hc _ | cleared _ _ hc _ | accepted _ _ _ _ hc _
  | refused _ _ _ _ hc _ =>
    rw [hc] at ht
    cases ht

-- ---------------------------------------------------------------------------
-- While both loops run
-- ---------------------------------------------------------------------------

/-- While both loops run nothing fails for the client task: its token has no
error, and the table holds the token of a job only, until that is complete. -/
structure Unfailing (s : System) : Prop where
  error : Up s ∨ s.client.stage = .handshaking → s.client.token = some t → (s.cell t).error = none
  table : Up s → afterCleanUp s.client → s.owner k = some t →
    s.client.token = some t ∧ ¬ (s.cell t).complete

theorem unfailing_init : Unfailing init where
  error _ h := by simp [init, ClientTask.token] at h
  table _ h := by cases h

/-- With sessions resumed with an intact trie only, no job fails and what
`block` goes back to is an intact trie. -/
structure Healthy (h : Lts.History System Event) (s : System) : Prop where
  error : Up s ∨ s.client.stage = .handshaking → s.client.token = some t → (s.cell t).error = none
  table : Up s → afterCleanUp s.client → s.owner k = some t →
    s.client.token = some t ∧ ¬ (s.cell t).complete
  unfailed : Up s → afterClear s.client → jobFailed h = false
  settled : Up s → byBlock h → s.client = .idle ∨ s.client = .block cnt → intact h

theorem healthy_init : Healthy [] init where
  error _ h := by simp [init, ClientTask.token] at h
  table _ h := by cases h
  unfailed _ h := by cases h
  settled _ h := by cases h

theorem error_origin (hs : step codec options s e = some s') (hlt : t < s.state.tokens.next)
    (hn : (s.cell t).error = none) (he : (s'.cell t).error ≠ none) :
    cleansUp e ∨ ∃ f, touched e = some (t, f) ∧ (f (s.cell t)).error ≠ none := by
  rcases cell_cases hs hlt with ⟨ack, k, _, _, h⟩ | ⟨hclean, _, _⟩ | ⟨f, hf, h⟩ | h
  · rw [h] at he
    cases ack <;> simp [State.noted, hn] at he
  · exact .inl hclean
  · exact .inr ⟨f, hf, h ▸ he⟩
  · rw [h, hn] at he
    exact absurd rfl he

theorem Unfailing.not_exhausted (hh : Unfailing s) (hreg : Registry codec s) (hu : Up s)
    (hs : step codec options s (.call (.exhausted frame)) = some s') :
    frame.job.isSome = false := by
  by_contra hj
  rw [Bool.not_eq_false] at hj
  simp only [step, stepCall, when_eq_some] at hs
  obtain ⟨⟨hc, hz⟩, _⟩ := hs
  refine s.state.packetIds.getId_ne_zero frame.token (fun k => ?_) hz
  cases ho : s.state.packetIds.getToken k with
  | none => rfl
  | some t =>
    have hown : s.owner k = some t := ho
    have ht := (hh.table hu (by rw [hc]; exact hj) hown).1
    rw [hc] at ht
    cases ht
    exact absurd hown ((hreg.phase_ok hc).2 k)

theorem Jobs.not_invalid (hj : Jobs codec s)
    (hs : step codec options s (.call (.invalid frame pkid topics)) = some s') :
    frame.job.isSome = false := by
  by_contra hjob
  rw [Bool.not_eq_false] at hjob
  simp only [step, stepCall, when_eq_some] at hs
  obtain ⟨⟨hc, hstop⟩, _⟩ := hs
  obtain ⟨topic, qos, callback, heq, hv, htopics⟩ := hj.call hc hjob
  rw [htopics _ _ rfl, heq] at hstop
  simp [Call.stops, Call.packet, hv] at hstop

theorem Up.not_refused (hu : Up s) (hl : Lifecycle options s)
    (hs : step codec options s (.call (.refused (some rest) call)) = some s') : False := by
  simp only [step, stepCall, when_eq_some] at hs
  obtain ⟨⟨hc, _, hn⟩, _⟩ := hs
  rcases ClientTask.calls_cases hc with ⟨_, h⟩ | ⟨_, _, _, h0, _⟩
  · cases h
  · rcases hl.joining (hu.joining hl) with hstage | hcon
    · rw [h0] at hstage
      cases hstage
    · simp [isConnected, hcon] at hn

theorem token_returned_none {frame : Frame} (hn : frame.job.isSome = false) :
    (ClientTask.returned frame).token = none := by
  unfold ClientTask.returned
  cases hj : frame.job with
  | none => rfl
  | some rest => simp [hj] at hn

/-- With a token, the client task is in no other attempt than before. -/
theorem upOrHandshaking_origin (hs : step codec options s e = some s')
    (hu : Up s' ∨ s'.client.stage = .handshaking) (hold : s.client.token = some t) :
    Up s ∨ s.client.stage = .handshaking := by
  rcases hu with hu | hstage
  · rcases hu.origin hs with hu₀ | ⟨caller, u, sp, rfl⟩
    · exact .inl hu₀
    · simp only [step, stepConnect, when_eq_some] at hs
      exact .inr (by rw [hs.1]; rfl)
  · rcases stage_step hs with h0 | h0 | ⟨_, caller, rfl⟩ | ⟨caller, u, sp, rfl⟩
    · exact .inr (h0 ▸ hstage)
    · cases h0.symm.trans hstage
    · simp only [step, stepConnect, when_eq_some] at hs
      rcases ClientTask.connects_cases hs.1.1 with ⟨h0, _⟩ | ⟨_, h0, _⟩ <;>
        exact absurd hold (by simp [h0, ClientTask.token])
    · simp only [step, stepConnect, when_eq_some] at hs
      exact .inr (by rw [hs.1]; rfl)

theorem not_cleansUp_of_token (hl : Lifecycle options s) (hs : step codec options s e = some s')
    (hu : Up s ∨ s.client.stage = .handshaking) (ht : s.client.token = some t) :
    cleansUp e = false := by
  rw [← Bool.not_eq_true]
  intro hclean
  rcases cleansUp_iff.mp hclean with rfl | rfl
  · simp only [step, stepBlock, when_eq_some] at hs
    rw [hs.1] at ht
    cases ht
  · simp only [step, stepSupervisor, when_eq_some] at hs
    rcases hu with hu | hstage
    · cases (hu.joining hl).symm.trans hs.1
    · cases (hl.handshaking hstage).2.symm.trans hs.1

/-- A token that the client task already had does not fail. -/
theorem Unfailing.error_kept (hh : Unfailing s) (hl : Lifecycle options s) (hreg : Registry codec s)
    (hj : Jobs codec s) (hs : step codec options s e = some s')
    (hu : Up s' ∨ s'.client.stage = .handshaking) (ht : s'.client.token = some t)
    (hold : s.client.token = some t) : (s'.cell t).error = none := by
  have hlt := hreg.client_lt hold
  have hu₀ := upOrHandshaking_origin hs hu hold
  have hn := hh.error hu₀ hold
  -- before a CONNACK there is no connection that could fail
  have hwriter (hf : s.client.stage = .handshaking) : s.conn.writer = .ended :=
    (hl.ended (by rw [(hl.handshaking hf).2]; simp)).2
  by_contra herr
  rcases error_origin hs hlt hn herr with hclean | ⟨f, hf, hne⟩
  · rw [not_cleansUp_of_token hl hs hu₀ hold] at hclean
    cases hclean
  · cases e with
    | call e =>
      cases e with
      | exhausted frame =>
        have hs₀ := hs
        simp only [step, stepCall, when_eq_some] at hs
        obtain ⟨⟨hc, _⟩, rfl⟩ := hs
        have hup : Up s := hu₀.resolve_right (by simp [hc, ClientTask.stage])
        have hnone := token_returned_none (hh.not_exhausted hreg hup hs₀)
        cases hnone.symm.trans ht
      | invalid frame pkid topics =>
        have hnone := token_returned_none (hj.not_invalid hs)
        simp only [step, stepCall, when_eq_some] at hs
        obtain ⟨_, rfl⟩ := hs
        cases hnone.symm.trans ht
      | sendFailed frame packet =>
        simp only [step, stepCall, when_eq_some] at hs
        obtain ⟨⟨hc, hw⟩, _⟩ := hs
        exact (hu₀.resolve_right (by simp [hc, ClientTask.stage])).2 hw
      | topicAdded frame pkid topic rest | returned frame =>
        simp only [touched, Option.some.injEq, Prod.mk.injEq] at hf
        obtain ⟨rfl, rfl⟩ := hf
        simp [hn] at hne
      | _ => cases hf
    | connect e =>
      cases e with
      | transportFailed caller u err | refused caller u item =>
        have hs₀ := hs
        simp only [step, stepConnect, when_eq_some] at hs
        have hstage : s.client.stage = .handshaking := by rw [hs.1.1]; rfl
        rcases hu with hu | hstage'
        · rcases hu.origin hs₀ with hup | ⟨_, _, _, he⟩
          · exact hup.not_handshaking hl hstage
          · cases he
        · obtain ⟨_, rfl⟩ := hs
          rcases ClientTask.connectReturned_cases caller u with h | ⟨_, h⟩ <;>
            exact absurd hstage' (by simp [h, ClientTask.stage])
      | returned caller u sp =>
        simp only [touched, Option.some.injEq, Prod.mk.injEq] at hf
        obtain ⟨rfl, rfl⟩ := hf
        cases sp <;> simp [hn] at hne
      | _ => cases hf
    | writer e =>
      cases e with
      | outgoingWritten o =>
        simp only [touched, Option.map_eq_some_iff, Prod.mk.injEq] at hf
        obtain ⟨_, _, _, rfl⟩ := hf
        rcases completeWritten_cases (s.cell t) with h | h <;> simp [h, hn] at hne
      | outgoingFailed o err =>
        have hclient := client_step hs rfl
        rcases hu with hu | hstage
        · unfold Up at hu
          rw [conn_step hs] at hu
          exact hu.2 rfl
        · rw [hclient] at hstage
          simp only [step, stepWriter, when_eq_some] at hs
          rw [hwriter hstage] at hs
          cases hs.1
      | _ => cases hf
    | _ e => cases e <;> cases hf

theorem Unfailing.error_step (hh : Unfailing s) (hl : Lifecycle options s) (hreg : Registry codec s)
    (hj : Jobs codec s) (hs : step codec options s e = some s')
    (hu : Up s' ∨ s'.client.stage = .handshaking) (ht : s'.client.token = some t) :
    (s'.cell t).error = none := by
  rcases token_origin hs ht with hold | ⟨hcr, rfl⟩
  · exact hh.error_kept hl hreg hj hs hu ht hold
  · obtain ⟨token, hcr⟩ := Option.isSome_iff_exists.mp hcr
    rw [cell_created hs hcr]
    cases e with
    | call e =>
      cases e with
      | accepted job call =>
        cases hcr
        cases call <;> rfl
      | refused job call =>
        have hs₀ := hs
        simp only [step, stepCall, when_eq_some] at hs
        obtain ⟨_, rfl⟩ := hs
        cases job with
        | none => cases ht
        | some rest =>
          have hu : Up s := (hu.resolve_right (by simp [ClientTask.returned, ClientTask.stage]))
          exact (hu.not_refused hl hs₀).elim
      | _ => cases hcr
    | connect e =>
      cases e with
      | started caller | already caller =>
        cases hcr
        rfl
      | reconnecting caller =>
        simp only [step, stepConnect, when_eq_some] at hs
        obtain ⟨⟨hc, _, hst⟩, rfl⟩ := hs
        rcases ClientTask.connects_cases hc with ⟨_, rfl⟩ | ⟨cnt, h0, rfl⟩
        · cases ht
        · cases (hl.reconnecting h0).1.symm.trans hst
      | _ => cases hcr
    | _ e => cases hcr

/-- The token of a running subscribe call is complete with an error only. -/
def Unanswered (s : System) : Prop :=
  ∀ frame phase, s.client = .call frame phase → frame.call.newToken.kind = .subscribe →
    (s.cell frame.token).complete → (s.cell frame.token).error.isSome

theorem unanswered_step (hun : Unanswered s) (hr : Run codec options guard h s)
    (hi : Inflight subscribes h s) (hg : subacksInTime h s e)
    (hs : step codec options s e = some s') : Unanswered s' := by
  intro frame phase hc hk hd
  rcases call_origin hs hc with ⟨phase', h0⟩ | ⟨job, call, rfl, rfl⟩
  · by_contra herr
    have hn : (s'.cell frame.token).error = none := by simpa using herr
    by_cases hd₀ : (s.cell frame.token).complete
    · have hsome := hun frame phase' h0 hk hd₀
      simp [error_step hs ((registry hr).frame_lt h0) hn] at hsome
    · have hf : Issued codec anyKind h s := issued_run hr
      obtain ⟨k, codes, rfl, _, hend, _⟩ :=
        stored_of_completes hr hi hg hs (hf.running h0) hk hd₀ hd hn
      have hfirst := (Lts.Guard.both_eq_true.mp (Lts.Guard.both_eq_true.mp hg).2).2
      simp [addedFirst, hend, h0] at hfirst
  · rw [cell_created hs rfl] at hd
    cases call <;> cases hd

theorem unanswered_run (hr : Run codec options subacksInTime h s) : Unanswered s :=
  hr.invariant (P := fun _ s => Unanswered s) (fun _ _ hc => by cases hc)
    fun hr hun hg hs => unanswered_step hun hr (inflight_run hr.left) hg hs

theorem Unfailing.table_step (hh : Unfailing s) (hr : Run codec options guard h s)
    (hun : inJob s.client → Unanswered s) (hs : step codec options s e = some s') (hu : Up s')
    (ha : afterCleanUp s'.client) (ho : s'.owner k = some t) :
    s'.client.token = some t ∧ ¬ (s'.cell t).complete := by
  have hl := lifecycle hr
  have hreg := registry hr
  have herror {t : TokenId} (ht : s'.client.token = some t) : (s'.cell t).error = none :=
    hh.error_step hl hreg (jobs hr) hs (.inl hu) ht
  rcases owner_origin hs ho with ho₀ | ⟨frame, rfl, rfl⟩
  · have ha₀ : afterCleanUp s.client := by
      rcases afterCleanUp_origin hs ha with h | rfl
      · exact h
      · rw [owner_step hs] at ho
        cases ho
    have hu₀ := hu.of_inJob hs (inJob_of_afterCleanUp ha₀)
    obtain ⟨ht, hn⟩ := hh.table hu₀ ha₀ ho₀
    have ht' : s'.client.token = some t :=
      (token_kept hs (inJob_of_afterCleanUp ha) ht (inJob_of_afterCleanUp ha₀)).resolve_right hn
    refine ⟨ht', fun hd => ?_⟩
    obtain ⟨ack, rfl, hend⟩ := hreg.completes hs ho₀ hn hd (herror ht')
    rw [owner_step hs, ownerAfter, hend] at ho
    simp at ho
  · have hc := (registered_step hs).1
    have ht : s'.client.token = some frame.token := by
      simp only [step, stepCall, when_eq_some] at hs
      obtain ⟨_, rfl⟩ := hs
      rfl
    have hcell : s'.cell frame.token = s.cell frame.token :=
      (cell_step hs (hreg.frame_lt hc)).trans rfl
    refine ⟨ht, fun hd => ?_⟩
    have hn := herror ht
    rw [hcell] at hd hn
    have hjob : frame.job.isSome := by
      have hin := inJob_of_afterCleanUp ha
      simp only [step, stepCall, when_eq_some] at hs
      obtain ⟨_, rfl⟩ := hs
      exact hin
    obtain ⟨topic, qos, callback, hcall, _⟩ := (jobs hr).call hc hjob
    have hsome := hun (by rw [hc]; exact hjob) frame _ hc (by rw [hcall]; rfl) hd
    simp [hn] at hsome

theorem unfailing_run (hr : Run codec options subacksInTime h s) : Unfailing s :=
  hr.invariant (P := fun _ s => Unfailing s) unfailing_init fun hr hh _ hs => {
    error := fun hu ht => hh.error_step (lifecycle hr) (registry hr) (jobs hr) hs hu ht
    table := fun hu ha ho => hh.table_step hr (fun _ => unanswered_run hr) hs hu ha ho }

theorem Healthy.unfailed_step (hh : Healthy h s) (hs : step codec options s e = some s')
    (hu : Up s') (ha : afterClear s'.client) : jobFailed ((s, e) :: h) = false := by
  rcases afterClear_origin hs ha with ha₀ | ⟨subs, rfl⟩
  · have hu₀ := hu.of_inJob hs (inJob_of_afterCleanUp (afterCleanUp_of_afterClear ha₀))
    have hold := hh.unfailed hu₀ ha₀
    cases e with
    | block e =>
      cases e with
      | jobAwaited t rest =>
        simp only [step, stepBlock, when_eq_some] at hs
        have hn := hh.error (.inl hu₀) (t := t) (by rw [hs.1.1]; rfl)
        simp [jobFailed, hn, hold]
      | jobClear subs => rfl
      | _ => exact hold
    | _ e => exact hold
  · rfl

theorem Healthy.settled_step (hh : Healthy h s) (hl : Lifecycle options s)
    (hre : Reconnecting h s) (hi : Inflight unsubscribes h s) (hg : conforming unsubscribes h s e)
    (hs : step codec options s e = some s') (hu : Up s') (hb : byBlock ((s, e) :: h))
    (hc : s'.client = .idle ∨ s'.client = .block cnt) : intact ((s, e) :: h) := by
  -- the step starts from the same place, on the same connection
  have hold (cnt : UInt16) (h0 : s.client = .idle ∨ s.client = .block cnt) (hu₀ : Up s)
      (hstart : startsOver e = false) (hjob : ofJob e = false) : intact ((s, e) :: h) := by
    rw [byBlock_kept hstart] at hb
    exact hre.intact_kept hi hg hb hjob (hh.settled hu₀ hb h0)
  have hup (he : ∀ caller t sp, e ≠ .connect (.accepted caller t sp)) : Up s :=
    (hu.origin hs).resolve_right fun ⟨caller, t, sp, h⟩ => he caller t sp h
  cases client_cases hs with
  | other he h0 =>
    obtain ⟨hstart, hjob⟩ := of_otherTask he
    refine hold cnt (h0 ▸ hc) (hup ?_) hstart hjob
    rintro caller t sp rfl
    cases he
  | refused job call he hcalls hc' =>
    subst he
    rw [hc'] at hc
    rcases ClientTask.calls_cases hcalls with ⟨h0, _⟩ | ⟨_, _, _, _, rfl, _⟩
    · exact hold cnt (.inl h0) (hup (by simp)) rfl rfl
    · rcases hc with hc | hc <;> cases hc
  | callReturned frame phase he h0 hc' =>
    have hb₀ : byBlock h := by rcases he with rfl | ⟨_, _, rfl⟩ | rfl <;> exact hb
    obtain ⟨rest, hrest⟩ := Option.isSome_iff_exists.mp (hre.calls hb₀ h0)
    rw [hc', returned_of_job hrest] at hc
    rcases hc with hc | hc <;> cases hc
  | answered caller he hconn hc' =>
    rw [hc'] at hc
    rcases ClientTask.connects_cases hconn with ⟨h0, _⟩ | ⟨cnt', _, rfl⟩
    · rcases he with rfl | rfl <;> exact hold cnt (.inl h0) (hup (by simp)) rfl rfl
    · rcases hc with hc | hc <;> cases hc
  | connectReturned caller t phase he h0 hc' =>
    rcases he with ⟨err, rfl⟩ | ⟨item, rfl⟩ | ⟨sp, rfl⟩
    · simp only [step, stepConnect, when_eq_some] at hs
      exact ((hup (by simp)).not_handshaking hl (by rw [hs.1.1]; rfl)).elim
    · simp only [step, stepConnect, when_eq_some] at hs
      exact ((hup (by simp)).not_handshaking hl (by rw [hs.1.1]; rfl)).elim
    · simp only [step, stepConnect, when_eq_some] at hs
      have hcaller : caller.isSome := (hre.accepted hs.1 rfl).1 ▸ hb
      obtain ⟨cnt', rfl⟩ := Option.isSome_iff_exists.mp hcaller
      rw [hc'] at hc
      rcases hc with hc | hc <;> cases hc
  | blockStarted he h0 _ =>
    subst he
    exact hold cnt (.inl h0) (hup (by simp)) rfl rfl
  | blockReturned cnt' he h0 _ =>
    rcases he with rfl | rfl <;> exact hold cnt' (.inr h0) (hup (by simp)) rfl rfl
  | slept cnt' he h0 _ =>
    subst he
    exact hold cnt' (.inr h0) (hup (by simp)) rfl rfl
  | reconnectFailed cnt' t he h0 hf _ =>
    subst he
    have hn := hh.error (.inl (hup (by simp))) (t := t) (by rw [h0]; rfl)
    simp [hn] at hf
  | reconnected cnt' t he h0 hn hc' =>
    subst he
    rcases hc' with ⟨hpres, _⟩ | hc'
    · obtain ⟨hb₀, hin⟩ := hre.returned h0 hn
      exact hre.intact_kept hi hg hb₀ rfl (hin hpres)
    · rw [hc'] at hc
      rcases hc with hc | hc <;> cases hc
  | done he h0 _ =>
    subst he
    have hun := hh.unfailed (hup (by simp)) (by rw [h0]; rfl)
    simp [intact, hun]
  | _ =>
    rename_i hc'
    rw [hc'] at hc
    rcases hc with hc | hc <;> cases hc

/-- What is assumed of the surroundings, without the SUBACKs. -/
theorem Run.unsubscribing
    (hr : Run codec options (answersSubscriptions.both resumesIntact) h s) :
    Run codec options ((conforming unsubscribes).both resumesIntact) h s :=
  hr.mono fun _ _ _ hg => by
    obtain ⟨hans, hres⟩ := Lts.Guard.both_eq_true.mp hg
    exact Lts.Guard.both_eq_true.mpr ⟨(Lts.Guard.both_eq_true.mp hans).2, hres⟩

theorem healthy_run (hr : Run codec options (answersSubscriptions.both resumesIntact) h s) :
    Healthy h s :=
  hr.invariant healthy_init fun {h s e s'} hr hh hg hs => by
    have hl := lifecycle hr
    have hre := reconnecting_run (Run.unsubscribing hr)
    have hi : Inflight unsubscribes h s := inflight_run hr.left.right
    obtain ⟨hg₁, hg'⟩ := Lts.Guard.both_eq_true.mp (Lts.Guard.both_eq_true.mp hg).1
    have hnext : Unfailing s' := unfailing_run (hr.left.left.snoc hg₁ hs)
    exact {
      error := hnext.error
      table := hnext.table
      unfailed := fun hu ha => hh.unfailed_step hs hu ha
      settled := fun hu hb hc => hh.settled_step hl hre hi hg' hs hu hb hc }

end System

end MesquitteClient
