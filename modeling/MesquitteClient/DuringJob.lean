import MesquitteClient.Resubscribing

/-!
# During a job

A resubscribe job begins with nothing in flight, so what is assumed of the
server while it runs is enough for it, whatever the server did before: the
packets in flight and the identifiers are in order, and nothing fails while the
connection is up.
-/

namespace MesquitteClient

namespace System

variable {codec : Codec} {options : ClientOptions} {s s' : System} {e : Event}
variable {h : Lts.History System Event} {kinds : TokenKind → Bool}

/-- An assumption about the surroundings while a resubscribe job runs. -/
def duringJob (guard : Lts.Guard System Event) : Lts.Guard System Event :=
  fun h s e => !inJob s.client || guard h s e

theorem duringJob_of_inJob {guard : Lts.Guard System Event} (hg : duringJob guard h s e)
    (hj : inJob s.client) : guard h s e := by
  simpa [duringJob, hj] using hg

/-- Nothing that is to be acknowledged has been sent on the connection. -/
structure NothingSent (kinds : TokenKind → Bool) (h : Lts.History System Event) (s : System) :
    Prop where
  inflight : inflight kinds h = []
  owed : owed kinds h = []
  queued : queued kinds s = []

theorem nothingSent_accepted
    (hs : step codec options s (.connect (.accepted caller t sp)) = some s') :
    NothingSent kinds ((s, .connect (.accepted caller t sp)) :: h) s' where
  inflight := rfl
  owed := rfl
  queued := by
    rw [System.queued, conn_step hs]
    rfl

theorem NothingSent.owed_step (hn : NothingSent kinds h s)
    (hs : step codec options s e = some s') : System.owed kinds ((s, e) :: h) = [] := by
  cases e with
  | connect e =>
    cases e with
    | accepted caller t sp => rfl
    | _ => exact hn.owed
  | reader e =>
    cases e with
    | received ack => simp [System.owed, hn.owed]
    | _ => exact hn.owed
  | writer e =>
    cases e with
    | outgoingTaken o =>
      have hno : ¬ awaits kinds o.packet := by
        simp only [step, stepWriter, when_eq_some] at hs
        exact List.filter_eq_nil_iff.mp hn.queued o (List.mem_of_head? hs.1.2)
      rw [System.owed, if_neg hno]
      exact hn.owed
    | _ => exact hn.owed
  | _ e => exact hn.owed

theorem NothingSent.queued_step (hn : NothingSent kinds h s)
    (hs : step codec options s e = some s')
    (he : ∀ frame packet, e ≠ .call (.enqueued frame packet)) : System.queued kinds s' = [] := by
  rw [System.queued, conn_step hs]
  cases e with
  | call e =>
    cases e with
    | enqueued frame packet => exact absurd rfl (he frame packet)
    | _ => exact hn.queued
  | connect e =>
    cases e with
    | accepted caller t sp => rfl
    | _ => exact hn.queued
  | writer e =>
    cases e with
    | outgoingTaken o =>
      exact List.sublist_nil.mp (hn.queued ▸ (List.tail_sublist _).filter _)
    | msgFailed packet | outgoingFailed o err | msgClosed => rfl
    | _ => exact hn.queued
  | keepAlive e =>
    cases e with
    | pinged =>
      have hping : (connAfter options s (.keepAlive .pinged)).outgoing.filter
          (fun o => awaits kinds o.packet) = System.queued kinds s := by
        simp [connAfter, awaits, VariablePacket.pkid, System.queued]
      rw [hping]
      exact hn.queued
    | _ => exact hn.queued
  | reader e | supervisor e => cases e <;> exact hn.queued
  | _ e => exact hn.queued

theorem NothingSent.kept (hn : NothingSent kinds h s) (hs : step codec options s e = some s')
    (he : ∀ frame packet, e ≠ .call (.enqueued frame packet)) :
    NothingSent kinds ((s, e) :: h) s' where
  inflight := inflight_eq_nil hn.inflight he
  owed := hn.owed_step hs
  queued := hn.queued_step hs he

theorem NothingSent.inflight_ok (hn : NothingSent kinds h s)
    (hc : ∀ frame phase, s.client ≠ .call frame phase) : Inflight kinds h s where
  waiting := by
    rw [hn.queued, hn.owed]
    exact List.nil_subperm
  nodup := by
    rw [hn.inflight]
    exact List.nodup_nil
  tracked _ o ho := by
    rw [hn.inflight] at ho
    cases ho
  calling _ h := absurd h (hc _ _)
  connecting _ := hn.inflight
  reconnected _ _ := hn.inflight

-- ---------------------------------------------------------------------------
-- The client task before and during a job
-- ---------------------------------------------------------------------------

structure Working (h : Lts.History System Event) (s : System) : Prop where
  connecting : freshlyConnected s.client → NothingSent subscribes h s
  reconnected : s.client = .awaitConnect cnt t → (s.cell t).error = none →
    NothingSent subscribes h s
  inflight : inJob s.client → Inflight subscribes h s
  unanswered : inJob s.client → Unanswered s
  unfailing : Unfailing s

theorem working_init : Working [] init where
  connecting h := by cases h
  reconnected h := by cases h
  inflight h := by cases h
  unanswered h := by cases h
  unfailing := unfailing_init

/-- A job goes on, or begins after a reconnect. -/
theorem inJob_origin (hs : step codec options s e = some s') (hj : inJob s'.client) :
    inJob s.client ∨ s'.client = .job .cleanUp := by
  cases job_step hs hj with
  | started _ _ _ _ _ hc' => exact .inr hc'
  | other _ hc => exact .inl (hc ▸ hj)
  | calling frame _ _ hjob _ hc _ => exact .inl (by rw [hc]; exact hjob)
  | returned frame _ rest hjob hc _ _ =>
    have hsome : frame.job.isSome := by rw [hjob]; rfl
    exact .inl (by rw [hc]; exact hsome)
  | cleanedUp _ hc _ | cloned _ hc _ | cleared _ _ hc _ | accepted _ _ _ _ hc _
  | refused _ _ _ _ hc _ | awaited _ _ _ hc _ _ => exact .inl (by rw [hc]; rfl)

theorem Working.connecting_step (hw : Working h s) (hs : step codec options s e = some s')
    (hc : freshlyConnected s'.client) : NothingSent subscribes ((s, e) :: h) s' := by
  rcases freshlyConnected_origin hs hc with ⟨_, _, _, rfl⟩ | ⟨he, hf | ⟨cnt, t, h0, hn⟩⟩
  · exact nothingSent_accepted hs
  · exact (hw.connecting hf).kept hs he
  · exact (hw.reconnected h0 hn).kept hs he

theorem Working.reconnected_step (hw : Working h s) (hl : Lifecycle options s)
    (hreg : Registry codec s) (hs : step codec options s e = some s')
    (hc : s'.client = .awaitConnect cnt t) (hn : (s'.cell t).error = none) :
    NothingSent subscribes ((s, e) :: h) s' := by
  rcases awaitConnect_origin hl hreg hs hc hn with ⟨h0, hn₀, he⟩ | ⟨sp, rfl, h0⟩
  · refine (hw.reconnected h0 hn₀).kept hs ?_
    rintro frame packet rfl
    cases he
  · exact (hw.connecting (by rw [h0]; rfl)).kept hs (by simp)

theorem working_step (hw : Working h s) {guard : Lts.Guard System Event}
    (hr : Run codec options guard h s) (hg : inJob s.client → subacksInTime h s e)
    (hs : step codec options s e = some s') : Working ((s, e) :: h) s' where
  connecting hc := hw.connecting_step hs hc
  reconnected hc hn := hw.reconnected_step (lifecycle hr) (registry hr) hs hc hn
  inflight hj := by
    rcases inJob_origin hs hj with hj | hc'
    · have hconf := (Lts.Guard.both_eq_true.mp (hg hj)).1
      exact inflight_step (hw.inflight hj) (lifecycle hr) (registry hr) hconf hs
    · refine (hw.connecting_step hs (by rw [hc']; rfl)).inflight_ok fun frame phase h => ?_
      cases hc'.symm.trans h
  unanswered hj := by
    rcases inJob_origin hs hj with hj | hc'
    · exact unanswered_step (hw.unanswered hj) hr (hw.inflight hj) (hg hj) hs
    · intro frame phase h
      cases hc'.symm.trans h
  unfailing := {
    error := fun hu ht => hw.unfailing.error_step (lifecycle hr) (registry hr) (jobs hr) hs hu ht
    table := fun hu ha ho => hw.unfailing.table_step hr hw.unanswered hs hu ha ho }

theorem working_run (hr : Run codec options (duringJob subacksInTime) h s) : Working h s :=
  hr.invariant working_init fun hr hw hg hs =>
    working_step hw hr (fun hj => duringJob_of_inJob hg hj) hs

end System

end MesquitteClient
