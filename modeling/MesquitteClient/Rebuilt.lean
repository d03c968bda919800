import MesquitteClient.Rebuilding

/-!
# What a resubscribe job leaves

While the connection stays up and the SUBACKs come in time, an answer puts into
the map what it has already, into the trie what it accepts, and frees the
identifier of its call. So whatever the map and the trie were, the job leaves
the map as it was, the trie with just what was accepted, and an empty table of
identifiers (`rebuilt`).
-/

namespace MesquitteClient

namespace System

variable {codec : Codec} {options : ClientOptions} {s s' : System} {e : Event}
variable {h : Lts.History System Event}

-- ---------------------------------------------------------------------------
-- The steps of the other tasks
-- ---------------------------------------------------------------------------

/-- A SUBACK that ends a subscribe call. -/
def endsSubscribe (s : System) : Event → Option (UInt16 × TokenId)
  | .reader (.received (.suback k codes)) => State.ended (.suback k codes) s.state
  | _ => none

/-- The client task stays where it is, and its call stays without an answer. -/
theorem Rebuilding.other (rb : Rebuilding h s₀ s)
    (hr : Run codec options (duringJob subacksInTime) h s)
    (hg : duringJob subacksInTime h s e) (hs : step codec options s e = some s')
    (hc : s'.client = s.client) (hj : inJob s.client) (hu : Up s') (hq : Neutral s e s')
    (hno : endsSubscribe s e = none) :
    Rebuilding ((s, e) :: h) s₀ s' := by
  have hreg := registry hr
  have hf : Issued codec anyKind h s := issued_run hr
  have hkept (sub : Subscription) (ha : Asking h s sub) : Asking ((s, e) :: h) s' sub := by
    cases ha with
    | calling hc₀ hcall => exact .calling (hc.trans hc₀) hcall
    | @awaiting t rest frame hc₀ hi hcall hn =>
      refine .awaiting (hc.trans hc₀) (hf.kept hi) hcall ?_
      rw [← Bool.not_eq_true]
      intro hd
      have herr : (s'.cell t).error = none :=
        (working_run (hr.snoc hg hs)).unfailing.error (.inl hu) (by rw [hc, hc₀]; rfl)
      obtain ⟨k, codes, rfl, _, hend, _⟩ :=
        stored_of_completes hr ((working_run hr).inflight hj) (duringJob_of_inJob hg hj) hs hi
          (by rw [hcall]; rfl) (by simp [hn]) hd herr
      cases hno.symm.trans hend
  have hpending {t : TokenId} {rest : Job} (hc₀ : s.client = .job (.awaiting t rest))
      (hn : (s'.cell t).complete = false) : (s.cell t).complete = false := by
    rw [← Bool.not_eq_true]
    intro hd
    have hlt := hreg.client_lt (t := t) (by rw [hc₀]; rfl)
    rw [complete_step hs hlt hd] at hn
    cases hn
  refine rb.moved hq (not_reconnects hs hj) {
    left := by rw [hc]
    cleared := by rw [hc]
    copied := fun h => hc ▸ h
    asked := fun ha => .inl ?_
    kept := fun ha => hkept _ ha
    next := fun hl => .inl (hc ▸ hl)
    asks := fun hc' hn => ?_ }
  · cases ha with
    | calling hc' hcall => exact .calling (hc ▸ hc') hcall
    | @awaiting t rest frame hc' hi hcall hn =>
      have hc₀ := hc ▸ hc'
      have hlt := hreg.client_lt (t := t) (by rw [hc₀]; rfl)
      exact .awaiting hc₀ ((issuedFrame_of_lt hlt).symm.trans hi) hcall (hpending hc₀ hn)
  · have hc₀ := hc ▸ hc'
    obtain ⟨sub, ha⟩ := rb.asks hc₀ (hpending hc₀ hn)
    exact ⟨sub, hkept sub ha⟩

/-- The token of a job is that of a running call, or is awaited. -/
theorem token_afterClear {client : ClientTask} (ha : afterClear client)
    (ht : client.token = some t) : (∃ frame phase, client = .call frame phase ∧ frame.token = t) ∨
      ∃ rest, client = .job (.awaiting t rest) := by
  cases client with
  | call frame phase =>
    cases ht
    exact .inl ⟨frame, phase, rfl, rfl⟩
  | job phase =>
    cases phase with
    | awaiting u rest =>
      cases ht
      exact .inr ⟨rest, rfl⟩
    | _ => cases ht
  | connect caller u phase | awaitConnect cnt u => cases ha
  | _ => cases ht

/-- What the table has during a job is the token of its subscribe call. -/
theorem Rebuilding.owner (rb : Rebuilding h s₀ s)
    (hr : Run codec options (duringJob subacksInTime) h s)
    (ha : afterClear s.client) (hu : Up s) (ho : s.owner k = some t) :
    (s.cell t).kind = .subscribe ∧ (s.cell t).complete = false ∧
      ((∃ frame phase, s.client = .call frame phase ∧ frame.token = t) ∨
        ∃ rest, s.client = .job (.awaiting t rest)) := by
  have hf : Issued codec anyKind h s := issued_run hr
  obtain ⟨ht, hn⟩ := (working_run hr).unfailing.table hu (afterCleanUp_of_afterClear ha) ho
  rw [Bool.not_eq_true] at hn
  have hplace := token_afterClear ha ht
  refine ⟨?_, hn, hplace⟩
  rcases hplace with ⟨frame, phase, hc, rfl⟩ | ⟨rest, hc⟩
  · have hjob : frame.job.isSome := by
      have hin := inJob_of_afterCleanUp (afterCleanUp_of_afterClear ha)
      rwa [hc] at hin
    obtain ⟨topic, qos, callback, hcall, _⟩ := (jobs hr).call hc hjob
    rw [hf.kind (hf.running hc), hcall]
    rfl
  · obtain ⟨sub, hask⟩ := rb.asks hc hn
    cases hask with
    | calling hc' => cases hc.symm.trans hc'
    | awaiting hc' hi hcall =>
      cases hc.symm.trans hc'
      rw [hf.kind hi, hcall]
      rfl

/-- Before the trie is cleared no answer is due. -/
theorem Rebuilding.early_received (rb : Rebuilding h s₀ s)
    (hr : Run codec options (duringJob subacksInTime) h s)
    (hg : duringJob subacksInTime h s (received packet))
    (hs : step codec options s (received packet) = some s') (hj : inJob s.client)
    (ha : afterClear s.client = false) : Rebuilding ((s, received packet) :: h) s₀ s' := by
  have hc := client_step hs rfl
  have hfresh : freshlyConnected s.client := by
    unfold afterClear at ha
    split at ha
    · rename_i h
      rw [h]
      rfl
    · rename_i h
      rw [h]
      rfl
    · rename_i h
      rw [h]
      rfl
    · rw [hj] at ha
      cases ha
  have hi := (working_run hr).inflight hj
  have hconf := (Lts.Guard.both_eq_true.mp (duringJob_of_inJob hg hj)).1
  have hstored := stored_eq_nil hi hconf (hi.connecting hfresh)
  have haccepts (topic : String) : accepts topic (s, received packet) = false := by
    simp [accepts, hstored]
  have haccepted (topic : String) :
      acceptedSince topic ((s, received packet) :: h) = acceptedSince topic h := by
    rw [acceptedSince_cons rfl, haccepts, Bool.false_or]
  have hno (sub : Subscription) : ¬ Asking ((s, received packet) :: h) s' sub := by
    rintro (⟨hc', _⟩ | ⟨hc', _⟩)
    · rw [hc.symm.trans hc'] at hfresh
      cases hfresh
    · rw [hc.symm.trans hc'] at hfresh
      cases hfresh
  exact {
    map := (subscription_kept hs (by simp [haccepts])).trans rb.map
    left := fun hm => rb.left (hc ▸ hm)
    nodup := hc ▸ rb.nodup
    copied := fun h => rb.copied (hc ▸ h)
    asked := fun h => absurd h (hno _)
    asks := fun hc' => by
      rw [hc.symm.trans hc'] at hfresh
      cases hfresh
    early := fun _ => (haccepted _).trans (rb.early ha)
    fresh := fun _ => (haccepted _).trans (rb.early ha)
    known := fun hacc => rb.known ((haccepted _).symm.trans hacc)
    entries := fun ha' => by
      rw [hc, ha] at ha'
      cases ha'
    answered := fun ha' => by
      rw [hc, ha] at ha'
      cases ha' }

theorem stored_answer (hend : State.ended (.suback k [code]) s.state = some (k', t))
    (hsub : (s.cell t).subscriptions = [sub]) :
    State.stored (.suback k [code]) s.state = if code = .failure then [] else [sub] := by
  have hsub' : (s.state.cell t).subscriptions = [sub] := hsub
  simp only [State.stored, hend, hsub', State.accepted, List.zip_cons_cons, List.zip_nil_left,
    List.filterMap_cons, List.filterMap_nil]
  by_cases hf : code = .failure <;> simp [hf]

theorem accepts_answer (hend : State.ended (.suback k [code]) s.state = some (k', t))
    (hsub : (s.cell t).subscriptions = [sub]) (topic : String) :
    accepts topic (s, received (.suback k [code])) = (sub.topic = topic && code ≠ .failure) := by
  simp only [accepts, stored_answer hend hsub]
  by_cases hf : code = .failure <;> simp [hf]

theorem refuses_answer (hend : State.ended (.suback k [code]) s.state = some (k', t))
    (hsub : (s.cell t).subscriptions = [sub]) (topic : String) :
    refuses topic (s, received (.suback k [code])) = (sub.topic = topic && code = .failure) := by
  simp [refuses, hend, hsub]

/-- A SUBACK during the job is the answer to the filter that the job asks for. -/
theorem Rebuilding.answer (rb : Rebuilding h s₀ s)
    (hr : Run codec options (duringJob subacksInTime) h s)
    (hg : duringJob subacksInTime h s (received (.suback k codes)))
    (hs : step codec options s (received (.suback k codes)) = some s')
    (ha : afterClear s.client) (hu : Up s) (hu' : Up s')
    (hend : State.ended (.suback k codes) s.state = some (k', t)) :
    ∃ rest sub code, s.client = .job (.awaiting t rest) ∧ Asking h s sub ∧ codes = [code] ∧
      (s.cell t).subscriptions = [sub] ∧ (s'.cell t).complete := by
  have hc' := client_step hs rfl
  have hj := inJob_of_afterCleanUp (afterCleanUp_of_afterClear ha)
  have hg' := duringJob_of_inJob hg hj
  obtain ⟨hkind, hn, hplace⟩ := rb.owner hr ha hu (State.ended_eq_some.mp hend).2.1
  obtain ⟨rest, hc⟩ : ∃ rest, s.client = .job (.awaiting t rest) := by
    rcases hplace with ⟨frame, phase, hc, rfl⟩ | h
    · have hfirst := (Lts.Guard.both_eq_true.mp (Lts.Guard.both_eq_true.mp hg').2).2
      simp [addedFirst, hend, hc] at hfirst
    · exact h
  have hlt := (registry hr).client_lt (t := t) (by rw [hc]; rfl)
  have hd : (s'.cell t).complete := by
    rw [cell_step hs hlt, cellAfter, hend, Option.map_some, if_pos rfl]
    rfl
  have herr : (s'.cell t).error = none :=
    (working_run (hr.snoc hg hs)).unfailing.error (.inl hu') (by rw [hc', hc]; rfl)
  obtain ⟨sub, hask⟩ := rb.asks hc hn
  cases id hask with
  | calling h => cases hc.symm.trans h
  | awaiting h hi hcall =>
    cases hc.symm.trans h
    obtain ⟨_, _, heq, _, _, hsub, hlen⟩ :=
      stored_of_completes hr ((working_run hr).inflight hj) hg' hs hi (by rw [hcall]; rfl)
        (by simp [hn]) hd herr
    cases heq
    rw [hcall] at hsub hlen
    obtain ⟨code, rfl⟩ := List.length_eq_one_iff.mp hlen
    exact ⟨rest, sub, code, hc, hask, rfl, hsub, hd⟩

theorem Rebuilding.suback (rb : Rebuilding h s₀ s)
    (hr : Run codec options (duringJob subacksInTime) h s)
    (hg : duringJob subacksInTime h s (received (.suback k codes)))
    (hs : step codec options s (received (.suback k codes)) = some s')
    (ha : afterClear s.client) (hu : Up s) (hu' : Up s')
    (hend : State.ended (.suback k codes) s.state = some (k', t)) :
    Rebuilding ((s, received (.suback k codes)) :: h) s₀ s' := by
  have hc' := client_step hs rfl
  obtain ⟨rest, sub, code, hc, hask, rfl, hsub, hd⟩ := rb.answer hr hg hs ha hu hu' hend
  obtain ⟨hmap, hnotleft, hfresh⟩ := rb.asked hask
  have hstored := stored_answer hend hsub
  -- the answer is about this filter, and about no other
  have hthis : acceptedSince sub.topic ((s, received (.suback k [code])) :: h) =
      decide (code ≠ .failure) := by
    rw [acceptedSince_cons rfl, accepts_answer hend hsub, hfresh]
    simp
  have hother (topic : String) (hne : sub.topic ≠ topic) :
      acceptedSince topic ((s, received (.suback k [code])) :: h) = acceptedSince topic h := by
    rw [acceptedSince_cons rfl, accepts_answer hend hsub]
    simp [hne]
  have hno (sub' : Subscription) : ¬ Asking ((s, received (.suback k [code])) :: h) s' sub' := by
    rintro (⟨h, _⟩ | ⟨h, _, _, hn'⟩)
    · cases (hc'.symm.trans h).symm.trans hc
    · cases (hc'.symm.trans h).symm.trans hc
      rw [hd] at hn'
      cases hn'
  have hne {topic : String} (hm : topic ∈ s.client.left.map Prod.fst) : sub.topic ≠ topic :=
    fun h => hnotleft (h ▸ hm)
  refine {
    map := fun {topic} => ?_
    left := fun hm => rb.left (hc' ▸ hm)
    nodup := hc' ▸ rb.nodup
    copied := fun h => rb.copied (hc' ▸ h)
    asked := fun h => absurd h (hno _)
    asks := fun h hn' => ?_
    early := fun h => ?_
    fresh := fun hm => ?_
    known := fun {topic} hacc => ?_
    entries := fun {topic} _ => ?_
    answered := fun {topic sub'} _ hm => ?_ }
  · rw [subscription_step hs, subscriptionAfter, hstored]
    by_cases hf : code = .failure
    · simp [hf, rb.map]
    · by_cases ht : sub.topic = topic
      · subst ht
        simp [hf, hmap]
      · simp [hf, ht, rb.map]
  · cases (hc'.symm.trans h).symm.trans hc
    rw [hd] at hn'
    cases hn'
  · rw [hc', ha] at h
    cases h
  · rw [hc'] at hm
    rw [hother _ (hne hm)]
    exact rb.fresh hm
  · by_cases ht : sub.topic = topic
    · subst ht
      rw [hmap]
      rfl
    · exact rb.known ((hother _ ht).symm.trans hacc)
  · have hold : s.entries topic = _ := rb.entries ha
    rw [entries_step hs, entriesAfter, hstored]
    by_cases ht : sub.topic = topic
    · subst ht
      rw [hthis, hold, hfresh]
      by_cases hf : code = .failure <;> simp [State.removed, hf, hmap]
    · rw [hother _ ht, hold]
      by_cases hf : code = .failure <;> simp [State.removed, hf, ht]
  · rw [hc']
    rcases rb.answered ha hm with hl | hask' | hacc | href
    · exact .inl hl
    · cases hask.unique hask'
      have ht : sub.topic = topic := ((jobs hr).map (rb.map.trans hm)).1
      subst ht
      right; right
      rw [hthis, refusedSince_cons rfl, refuses_answer hend hsub]
      by_cases hf : code = .failure <;> simp [hf]
    · by_cases ht : sub.topic = topic
      · subst ht
        rw [hfresh] at hacc
        cases hacc
      · exact .inr (.inr (.inl ((hother _ ht).trans hacc)))
    · right; right; right
      rw [refusedSince_cons rfl, href, Bool.or_true]

theorem Rebuilding.packet_step (rb : Rebuilding h s₀ s)
    (hr : Run codec options (duringJob subacksInTime) h s)
    (hg : duringJob subacksInTime h s (received packet))
    (hs : step codec options s (received packet) = some s') (hj : inJob s.client) (hu : Up s)
    (hu' : Up s') : Rebuilding ((s, received packet) :: h) s₀ s' := by
  cases ha : afterClear s.client with
  | false => exact rb.early_received hr hg hs hj ha
  | true =>
    cases hend : endsSubscribe s (received packet) with
    | none =>
      refine rb.other hr hg hs (client_step hs rfl) hj hu' (neutral_of_received hs ?_ ?_) hend
      · rintro k codes rfl
        exact hend
      · unfold State.removed
        split
        · rename_i k' t hun
          obtain ⟨_, hown, hkind⟩ := State.ended_eq_some.mp hun
          have hsub := (rb.owner hr ha hu hown).1
          change (s.state.cell t).kind = .subscribe at hsub
          rw [hsub] at hkind
          cases hkind
        · rfl
    | some kt =>
      cases packet with
      | suback k codes => exact rb.suback hr hg hs ha hu hu' hend
      | _ => cases hend

-- ---------------------------------------------------------------------------
-- The whole job
-- ---------------------------------------------------------------------------

theorem rebuilding_step (hr : Run codec options (duringJob subacksInTime) h s)
    (hg : duringJob subacksInTime h s e)
    (hs : step codec options s e = some s') (hj : inJob s'.client) (hu : Up s')
    (ih : inJob s.client → Up s → ∃ s₀, reconnectedIn h = some s₀ ∧ Rebuilding h s₀ s) :
    ∃ s₀, reconnectedIn ((s, e) :: h) = some s₀ ∧ Rebuilding ((s, e) :: h) s₀ s' := by
  have hf : Issued codec anyKind h s := issued_run hr
  have hold (hj₀ : inJob s.client) : ∃ s₀, reconnectedIn ((s, e) :: h) = some s₀ ∧
      Rebuilding h s₀ s := by
    obtain ⟨s₀, hin, rb⟩ := ih hj₀ (hu.of_inJob hs hj₀)
    exact ⟨s₀, (Lts.lastAt_of_neg (not_reconnects hs hj₀)).trans hin, rb⟩
  cases job_step hs hj with
  | started cnt t he hc hn hc' =>
    subst he
    exact ⟨s, Lts.lastAt_of_pos rfl, rebuilding_started hs hc'⟩
  | other he hc =>
    have hj₀ : inJob s.client := hc ▸ hj
    obtain ⟨s₀, hin, rb⟩ := hold hj₀
    refine ⟨s₀, hin, ?_⟩
    by_cases hrec : ∃ packet, e = received packet
    · obtain ⟨packet, rfl⟩ := hrec
      exact rb.packet_step hr hg hs hj₀ (hu.of_inJob hs hj₀) hu
    · have hq : Neutral s e s' := neutral_of_not_received hs (fun packet h => hrec ⟨packet, h⟩) (by
        rintro subs rfl
        cases he)
      refine rb.other hr hg hs hc hj₀ hu hq ?_
      unfold endsSubscribe
      split
      · exact absurd ⟨_, rfl⟩ hrec
      · rfl
  | cleanedUp he hc hc' =>
    subst he
    obtain ⟨s₀, hin, rb⟩ := hold (by rw [hc]; rfl)
    have hq := neutral_of_not_received hs (by simp) (by simp)
    exact ⟨s₀, hin, rb.cleanedUp hq rfl hc hc'⟩
  | cloned he hc hc' =>
    subst he
    obtain ⟨s₀, hin, rb⟩ := hold (by rw [hc]; rfl)
    exact ⟨s₀, hin, rb.cloned hs hc hc'⟩
  | cleared subs he hc hc' =>
    subst he
    obtain ⟨s₀, hin, rb⟩ := hold (by rw [hc]; rfl)
    exact ⟨s₀, hin, rb.cleared hs hc hc'⟩
  | accepted topic sub rest he hc hc' =>
    subst he
    obtain ⟨s₀, hin, rb⟩ := hold (by rw [hc]; rfl)
    have hq := neutral_of_not_received hs (by simp) (by simp)
    exact ⟨s₀, hin, rb.next (jobs hr) hq rfl hc hc'⟩
  | refused topic sub rest he hc hc' =>
    subst he
    exact ((hu.of_inJob hs (by rw [hc]; rfl)).not_refused (lifecycle hr) hs).elim
  | calling frame phase phase' hjob he hc hc' =>
    obtain ⟨e, rfl⟩ := he
    obtain ⟨s₀, hin, rb⟩ := hold (by rw [hc]; exact hjob)
    have hq := neutral_of_not_received hs (by simp) (by simp)
    exact ⟨s₀, hin, rb.calling hq rfl hc hc'⟩
  | returned frame phase rest hjob hc hc' he =>
    obtain ⟨e, rfl⟩ : ∃ e', e = .call e' := by
      rcases he with rfl | ⟨_, _, rfl⟩ | rfl <;> exact ⟨_, rfl⟩
    have hsome : frame.job.isSome := by rw [hjob]; rfl
    obtain ⟨s₀, hin, rb⟩ := hold (by rw [hc]; exact hsome)
    have hq := neutral_of_not_received hs (by simp) (by simp)
    have hcall := (jobs hr).call hc hsome
    obtain ⟨topic, qos, callback, heq, _⟩ := id hcall
    have hn := returned_incomplete hr hg hs hu (by rw [hc]; exact hsome) hc hc' (by rw [heq]; rfl)
    exact ⟨s₀, hin, rb.returned hf hcall hq rfl hjob hc hc' hn⟩
  | awaited t rest he hc hd hc' =>
    subst he
    obtain ⟨s₀, hin, rb⟩ := hold (by rw [hc]; rfl)
    have hq := neutral_of_not_received hs (by simp) (by simp)
    exact ⟨s₀, hin, rb.awaited hq rfl hc hd hc'⟩

theorem rebuilding_run (hr : Run codec options (duringJob subacksInTime) h s) (hj : inJob s.client)
    (hu : Up s) : ∃ s₀, reconnectedIn h = some s₀ ∧ Rebuilding h s₀ s :=
  hr.invariant (P := fun h s => inJob s.client → Up s →
      ∃ s₀, reconnectedIn h = some s₀ ∧ Rebuilding h s₀ s)
    (fun hj => by cases hj) (fun hr ih hg hs hj hu => rebuilding_step hr hg hs hj hu ih) hj hu

-- ---------------------------------------------------------------------------
-- What the job leaves
-- ---------------------------------------------------------------------------

/-- The job of the reconnect in `s₀` is done: the map is as it was, each of its
filters has been accepted or refused, the trie has just the map's subscription
for each that was accepted, and the table is empty. -/
structure Rebuilt (h : Lts.History System Event) (s₀ s : System) : Prop where
  map : s.subscription topic = s₀.subscription topic
  answered : (s₀.subscription topic).isSome → acceptedSince topic h ∨ refusedSince topic h
  accepted : acceptedSince topic h → ∃ sub, s₀.subscription topic = some sub ∧
    s.entries topic = [sub]
  others : acceptedSince topic h = false → s.entries topic = []
  table : s.owner k = none

/-- Whatever the map and the trie were, a resubscribe job on a connection that
stays up, with its SUBACKs in time, rebuilds the subscriptions. -/
theorem rebuilt (hr : Run codec options (duringJob subacksInTime) h s)
    (hs : step codec options s (.block .jobDone) = some s') (hu : Up s) :
    ∃ s₀, reconnectedIn h = some s₀ ∧ Rebuilt h s₀ s' := by
  have hc : s.client = .job (.next []) := by
    simp only [step, stepBlock, when_eq_some] at hs
    exact hs.1
  have ha : afterClear s.client := by rw [hc]; rfl
  have hj := inJob_of_afterCleanUp (afterCleanUp_of_afterClear ha)
  obtain ⟨s₀, hin, rb⟩ := rebuilding_run hr hj hu
  have hq : Neutral s (.block .jobDone) s' := neutral_of_not_received hs (by simp) (by simp)
  refine ⟨s₀, hin, {
    map := (hq.map _).trans rb.map
    answered := fun {topic} hsome => ?_
    accepted := fun {topic} hacc => ?_
    others := fun {topic} hacc => ?_
    table := fun {k} => ?_ }⟩
  · obtain ⟨sub, hm⟩ := Option.isSome_iff_exists.mp hsome
    rcases rb.answered ha hm with hl | hask | hans
    · rw [hc] at hl
      cases hl
    · exact absurd hask (not_asking hc (by simp))
    · exact hans
  · obtain ⟨sub, hm⟩ := Option.isSome_iff_exists.mp (rb.known hacc)
    refine ⟨sub, hm, ?_⟩
    rw [hq.entries, rb.entries ha, if_pos hacc, hm]
    rfl
  · rw [hq.entries, rb.entries ha, hacc]
    rfl
  · have hkept : s'.owner k = s.owner k := owner_step hs
    rw [hkept]
    cases ho : s.owner k with
    | none => rfl
    | some t =>
      have ht := ((working_run hr).unfailing.table hu (afterCleanUp_of_afterClear ha) ho).1
      rw [hc] at ht
      cases ht

/-- The job subscribes to a filter, and gets its answer. -/
def asking (topic : String) (rest : Job) (token : TokenId) (pkid : UInt16)
    (code : SubscribeReturnCode) : List Event :=
  let frame : Frame := ⟨some rest, .subscribe topic .level1 7, token⟩
  let packet : VariablePacket := .subscribe pkid [(topic, .level1)]
  sending frame pkid packet ++ [.call (.returned frame)] ++ writing packet token ++
    [received (.suback pkid [code]), .block (.jobAwaited token rest)]

/-- A filter with two subscriptions in the trie, and one that is refused after
the reconnect. -/
theorem rebuilt_partly : ∃ h s s' s₀,
    Run acceptingCodec reconnectingOptions (duringJob subacksInTime) h s ∧
      step acceptingCodec reconnectingOptions s (.block .jobDone) = some s' ∧
      acceptedSince "a" h ∧ refusedSince "b" h ∧ reconnectedIn h = some s₀ ∧
      (s₀.entries "a").length = 2 ∧ Rebuilt h s₀ s' := by
  let subs : Job := [("a", ⟨"a", .level1, 7⟩), ("b", ⟨"b", .level1, 7⟩)]
  obtain ⟨h, s, hr, ht⟩ := Lts.exists_run (step acceptingCodec reconnectingOptions)
    (duringJob subacksInTime) init
    (connecting none 0 false ++ connected none 0 false ++ subscribing "a" 8 1 2 ++
      subscribing "a" 7 2 3 ++ subscribing "b" 7 3 4 ++ [.block .started] ++ closing ++
      reconnecting 4 false ++ [.block .jobCleanUp, .block .jobClone, .block (.jobClear subs)] ++
      asking "a" [("b", ⟨"b", .level1, 7⟩)] 5 5 .maximumQoSLevel1 ++ asking "b" [] 6 6 .failure)
    (fun h s => s.client = .job (.next []) && s.conn.reader ≠ .ended && s.conn.writer ≠ .ended &&
      acceptedSince "a" h && refusedSince "b" h &&
      (reconnectedIn h).any fun s₀ => (s₀.entries "a").length = 2)
    (by decide +kernel)
  simp only [Bool.and_eq_true, decide_eq_true_eq] at ht
  obtain ⟨⟨⟨⟨⟨hc, hrd⟩, hw⟩, hacc⟩, href⟩, htwo⟩ := ht
  have hs : step acceptingCodec reconnectingOptions s (.block .jobDone) =
      some { s with client := .block 0 } := by
    simp only [step, stepBlock, when_eq_some]
    exact ⟨hc, trivial⟩
  obtain ⟨s₀, hin, hrebuilt⟩ := rebuilt hr hs ⟨hrd, hw⟩
  rw [hin, Option.any_some, decide_eq_true_eq] at htwo
  exact ⟨h, s, _, s₀, hr, hs, hacc, href, hin, htwo, hrebuilt⟩

end System

end MesquitteClient
