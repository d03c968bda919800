import MesquitteClient.DuringJob

/-!
# Rebuilding

A resubscribe job from its reconnect to its end, on a connection that stays up:
each filter of the map is left, asked for, or answered, and the trie, once it
is cleared, has what has been accepted. Here are the invariant and the steps of
the client task that keep it.
-/

namespace MesquitteClient

theorem Subscription.eq_of_subscribe {sub sub' : Subscription}
    (h : Call.subscribe sub.topic sub.qos sub.handler =
      .subscribe sub'.topic sub'.qos sub'.handler) : sub = sub' := by
  cases sub
  cases sub'
  cases h
  rfl

namespace System

variable {codec : Codec} {options : ClientOptions} {s s' : System} {e : Event}
variable {guard : Lts.Guard System Event} {h : Lts.History System Event}

/-- `block` has got a connection. -/
def reconnects : Event → Bool
  | .block (.reconnected ..) => true
  | _ => false

/-- The state in which it got the last one. -/
def reconnectedIn (h : Lts.History System Event) : Option System := Lts.lastAt reconnects h

/-- The step refuses a subscription with the filter. -/
def refuses (topic : String) : System × Event → Bool
  | (s, .reader (.received (.suback k codes))) =>
    (State.ended (.suback k codes) s.state).any fun (_, t) =>
      ((s.cell t).subscriptions.zip codes).any fun p => p.1.topic = topic && p.2 = .failure
  | _ => false

/-- The filter has been accepted since the last reconnect. -/
def acceptedSince (topic : String) (h : Lts.History System Event) : Bool :=
  (Lts.since reconnects h).any (accepts topic)

/-- It has been refused since. -/
def refusedSince (topic : String) (h : Lts.History System Event) : Bool :=
  (Lts.since reconnects h).any (refuses topic)

theorem acceptedSince_cons (he : reconnects e = false) :
    acceptedSince topic ((s, e) :: h) = (accepts topic (s, e) || acceptedSince topic h) := by
  rw [acceptedSince, Lts.since_of_neg he, List.any_cons]
  rfl

theorem refusedSince_cons (he : reconnects e = false) :
    refusedSince topic ((s, e) :: h) = (refuses topic (s, e) || refusedSince topic h) := by
  rw [refusedSince, Lts.since_of_neg he, List.any_cons]
  rfl

-- ---------------------------------------------------------------------------
-- The invariant
-- ---------------------------------------------------------------------------

/-- The call that the job makes for a subscription has no answer yet. -/
inductive Asking (h : Lts.History System Event) (s : System) (sub : Subscription) : Prop
  | calling (hc : s.client = .call frame phase)
    (hcall : frame.call = .subscribe sub.topic sub.qos sub.handler)
  | awaiting (hc : s.client = .job (.awaiting t rest)) (hi : issuedFrame t h = some frame)
    (hcall : frame.call = .subscribe sub.topic sub.qos sub.handler)
    (hn : (s.cell t).complete = false)

/-- The job between the reconnect in `s₀` and its end: a filter of the map is
left, or asked for, or answered; the trie, once it is cleared, has what was
accepted. -/
structure Rebuilding (h : Lts.History System Event) (s₀ s : System) : Prop where
  map : s.subscription topic = s₀.subscription topic
  left : (topic, sub) ∈ s.client.left → s₀.subscription topic = some sub
  nodup : (s.client.left.map Prod.fst).Nodup
  copied : s.client = .job (.clear subs) → s₀.subscription topic = some sub → (topic, sub) ∈ subs
  asked : Asking h s sub → s₀.subscription sub.topic = some sub ∧
    sub.topic ∉ s.client.left.map Prod.fst ∧ acceptedSince sub.topic h = false
  asks : s.client = .job (.awaiting t rest) → (s.cell t).complete = false → ∃ sub, Asking h s sub
  early : afterClear s.client = false → acceptedSince topic h = false
  fresh : topic ∈ s.client.left.map Prod.fst → acceptedSince topic h = false
  known : acceptedSince topic h → (s₀.subscription topic).isSome
  entries : afterClear s.client →
    s.entries topic = if acceptedSince topic h then (s₀.subscription topic).toList else []
  answered : afterClear s.client → s₀.subscription topic = some sub →
    (topic, sub) ∈ s.client.left ∨ Asking h s sub ∨ acceptedSince topic h ∨ refusedSince topic h

/-- The step leaves the map and the trie alone, and answers nothing. -/
structure Neutral (s : System) (e : Event) (s' : System) : Prop where
  accepts (topic : String) : accepts topic (s, e) = false
  refuses (topic : String) : refuses topic (s, e) = false
  map (topic : String) : s'.subscription topic = s.subscription topic
  entries (topic : String) : s'.entries topic = s.entries topic

theorem neutral_of_not_received (hs : step codec options s e = some s')
    (hr : ∀ packet, e ≠ received packet) (hj : ∀ subs, e ≠ .block (.jobClear subs)) :
    Neutral s e s' where
  accepts topic := by
    unfold System.accepts
    split
    · rename_i heq
      cases heq
      exact absurd rfl (hr _)
    · rfl
  refuses topic := by
    unfold System.refuses
    split
    · rename_i heq
      cases heq
      exact absurd rfl (hr _)
    · rfl
  map topic := by
    rw [subscription_step hs]
    unfold subscriptionAfter
    split
    · exact absurd rfl (hr _)
    · rfl
  entries topic := by
    rw [entries_step hs]
    unfold entriesAfter
    split
    · exact absurd rfl (hr _)
    · exact absurd rfl (hj _)
    · rfl

/-- A packet that is no answer to a subscribe call and takes nothing out of the
trie. -/
theorem neutral_of_received (hs : step codec options s (received packet) = some s')
    (hn : ∀ k codes, packet = .suback k codes → State.ended packet s.state = none)
    (hr : State.removed packet s.state = []) : Neutral s (received packet) s' := by
  have hstored : State.stored packet s.state = [] := by
    unfold State.stored
    split
    · rename_i hend
      cases (hn _ _ rfl).symm.trans hend
    · rfl
  refine ⟨fun topic => ?_, fun topic => ?_, fun topic => ?_, fun topic => ?_⟩
  · simp [System.accepts, hstored]
  · unfold System.refuses
    split
    · rename_i heq
      cases heq
      rw [hn _ _ rfl]
      rfl
    · rfl
  · simp [subscription_step hs, subscriptionAfter, hstored]
  · simp [entries_step hs, entriesAfter, hstored, hr]

-- ---------------------------------------------------------------------------
-- One step of the job
-- ---------------------------------------------------------------------------

theorem Asking.unique (ha : Asking h s sub) (ha' : Asking h s sub') : sub = sub' := by
  cases ha with
  | calling hc hcall₁ =>
    cases ha' with
    | calling hc' hcall₂ =>
      cases hc.symm.trans hc'
      exact Subscription.eq_of_subscribe (hcall₁.symm.trans hcall₂)
    | awaiting hc' => cases hc.symm.trans hc'
  | awaiting hc hi hcall₁ =>
    cases ha' with
    | calling hc' => cases hc.symm.trans hc'
    | awaiting hc' hi' hcall₂ =>
      cases hc.symm.trans hc'
      cases hi.symm.trans hi'
      exact Subscription.eq_of_subscribe (hcall₁.symm.trans hcall₂)

theorem not_asking (hc : s.client = .job phase) (hp : ∀ t rest, phase ≠ .awaiting t rest) :
    ¬ Asking h s sub := by
  rintro (⟨h, _⟩ | ⟨h, _⟩)
  · cases hc.symm.trans h
  · cases hc.symm.trans h
    exact hp _ _ rfl

/-- A job does not get a connection. -/
theorem not_reconnects (hs : step codec options s e = some s') (hj : inJob s.client) :
    reconnects e = false := by
  unfold reconnects
  split
  · simp only [step, stepBlock, when_eq_some] at hs
    rw [hs.1.1] at hj
    cases hj
  · rfl

/-- A step that clears nothing: what is left gets less by what is asked for
next, and what is asked for stays so. -/
structure Moves (h : Lts.History System Event) (s : System) (e : Event) (s' : System) :
    Prop where
  left : s'.client.left.Sublist s.client.left
  cleared : afterClear s'.client = afterClear s.client
  copied : s'.client = .job (.clear subs) → s.client = .job (.clear subs)
  asked : Asking ((s, e) :: h) s' sub → Asking h s sub ∨
    (sub.topic, sub) ∈ s.client.left ∧ sub.topic ∉ s'.client.left.map Prod.fst
  kept : Asking h s sub → Asking ((s, e) :: h) s' sub
  next : (topic, sub) ∈ s.client.left →
    (topic, sub) ∈ s'.client.left ∨ Asking ((s, e) :: h) s' sub
  asks : s'.client = .job (.awaiting t rest) → (s'.cell t).complete = false →
    ∃ sub, Asking ((s, e) :: h) s' sub

theorem Rebuilding.moved (rb : Rebuilding h s₀ s) (hq : Neutral s e s') (he : reconnects e = false)
    (hm : Moves h s e s') : Rebuilding ((s, e) :: h) s₀ s' := by
  have haccepted (topic : String) : acceptedSince topic ((s, e) :: h) = acceptedSince topic h := by
    rw [acceptedSince_cons he, hq.accepts topic, Bool.false_or]
  have hrefused (topic : String) : refusedSince topic ((s, e) :: h) = refusedSince topic h := by
    rw [refusedSince_cons he, hq.refuses topic, Bool.false_or]
  refine {
    map := (hq.map _).trans rb.map
    left := fun hl => rb.left (hm.left.subset hl)
    nodup := rb.nodup.sublist (hm.left.map _)
    copied := fun hc => rb.copied (hm.copied hc)
    asked := fun ha => ?_
    asks := hm.asks
    early := fun hc => (haccepted _).trans (rb.early (hm.cleared ▸ hc))
    fresh := fun hl => (haccepted _).trans (rb.fresh ((hm.left.map _).subset hl))
    known := fun hacc => rb.known ((haccepted _).symm.trans hacc)
    entries := fun hc => ?_
    answered := fun hc hsub => ?_ }
  · rw [haccepted]
    rcases hm.asked ha with ha | ⟨hl, hno⟩
    · obtain ⟨hmap, hno, hacc⟩ := rb.asked ha
      exact ⟨hmap, fun hl => hno ((hm.left.map _).subset hl), hacc⟩
    · exact ⟨rb.left hl, hno, rb.fresh (List.mem_map_of_mem hl)⟩
  · rw [haccepted, hq.entries]
    exact rb.entries (hm.cleared ▸ hc)
  · rw [haccepted, hrefused]
    rcases rb.answered (hm.cleared ▸ hc) hsub with hl | ha | hans
    · rcases hm.next hl with h | h
      · exact .inl h
      · exact .inr (.inl h)
    · exact .inr (.inl (hm.kept ha))
    · exact .inr (.inr hans)

theorem rebuilding_started (hs : step codec options s (.block (.reconnected cnt t)) = some s')
    (hc : s'.client = .job .cleanUp) :
    Rebuilding ((s, .block (.reconnected cnt t)) :: h) s s' := by
  have hq : Neutral s (.block (.reconnected cnt t)) s' :=
    neutral_of_not_received hs (by simp) (by simp)
  have haccepted (topic : String) :
      acceptedSince topic ((s, .block (.reconnected cnt t)) :: h) = false := by
    rw [acceptedSince, Lts.since_of_pos rfl]
    rfl
  exact {
    map := hq.map _
    left := fun hm => by
      rw [hc] at hm
      cases hm
    nodup := by
      rw [hc]
      exact List.nodup_nil
    copied := fun hc' => by cases hc.symm.trans hc'
    asked := fun ha => absurd ha (not_asking hc (by simp))
    asks := fun hc' => by cases hc.symm.trans hc'
    early := fun _ => haccepted _
    fresh := fun _ => haccepted _
    known := fun hacc => by
      rw [haccepted] at hacc
      cases hacc
    entries := fun ha => by
      rw [hc] at ha
      cases ha
    answered := fun ha => by
      rw [hc] at ha
      cases ha }

theorem Rebuilding.cleanedUp (rb : Rebuilding h s₀ s) (hq : Neutral s e s')
    (he : reconnects e = false) (hc : s.client = .job .cleanUp) (hc' : s'.client = .job .clone) :
    Rebuilding ((s, e) :: h) s₀ s' := by
  exact rb.moved hq he {
    left := by
      rw [hc, hc']
      exact .refl _
    cleared := by
      rw [hc, hc']
      rfl
    copied := fun h => by cases hc'.symm.trans h
    asked := fun ha => absurd ha (not_asking hc' (by simp))
    kept := fun ha => absurd ha (not_asking hc (by simp))
    next := fun hl => by
      rw [hc] at hl
      cases hl
    asks := fun h => by cases hc'.symm.trans h }

theorem Rebuilding.cloned (rb : Rebuilding h s₀ s)
    (hs : step codec options s (.block .jobClone) = some s') (hc : s.client = .job .clone)
    (hc' : s'.client = .job (.clear s.state.subscriptions.toList)) :
    Rebuilding ((s, .block .jobClone) :: h) s₀ s' := by
  have hq : Neutral s (.block .jobClone) s' := neutral_of_not_received hs (by simp) (by simp)
  have hmem (topic : String) (sub : Subscription) :
      (topic, sub) ∈ s.state.subscriptions.toList ↔ s₀.subscription topic = some sub := by
    rw [← rb.map]
    exact Std.TreeMap.mem_toList_iff_getElem?_eq_some
  have haccepted (topic : String) :
      acceptedSince topic ((s, .block .jobClone) :: h) = false := by
    rw [acceptedSince_cons rfl, hq.accepts, Bool.false_or]
    exact rb.early (by rw [hc]; rfl)
  exact {
    map := (hq.map _).trans rb.map
    left := fun hm => by
      rw [hc'] at hm
      exact (hmem _ _).mp hm
    nodup := by
      rw [hc']
      change (s.state.subscriptions.toList.map Prod.fst).Nodup
      rw [Std.TreeMap.map_fst_toList_eq_keys]
      exact Std.TreeMap.nodup_keys
    copied := fun hc'' hm => by
      cases hc'.symm.trans hc''
      exact (hmem _ _).mpr hm
    asked := fun ha => absurd ha (not_asking hc' (by simp))
    asks := fun h => by cases hc'.symm.trans h
    early := fun _ => haccepted _
    fresh := fun _ => haccepted _
    known := fun hacc => by
      rw [haccepted] at hacc
      cases hacc
    entries := fun ha => by
      rw [hc'] at ha
      cases ha
    answered := fun ha => by
      rw [hc'] at ha
      cases ha }

theorem Rebuilding.cleared (rb : Rebuilding h s₀ s)
    (hs : step codec options s (.block (.jobClear subs)) = some s')
    (hc : s.client = .job (.clear subs)) (hc' : s'.client = .job (.next subs)) :
    Rebuilding ((s, .block (.jobClear subs)) :: h) s₀ s' := by
  have haccepted (topic : String) :
      acceptedSince topic ((s, .block (.jobClear subs)) :: h) = false := by
    rw [acceptedSince_cons rfl]
    exact rb.early (by rw [hc]; rfl)
  have hleft : s'.client.left = s.client.left := by
    rw [hc, hc']
    rfl
  exact {
    map := (subscription_kept hs Bool.false_ne_true).trans rb.map
    left := fun hm => rb.left (hleft ▸ hm)
    nodup := hleft ▸ rb.nodup
    copied := fun h => by cases hc'.symm.trans h
    asked := fun ha => absurd ha (not_asking hc' (by simp))
    asks := fun h => by cases hc'.symm.trans h
    early := fun _ => haccepted _
    fresh := fun _ => haccepted _
    known := fun hacc => by
      rw [haccepted] at hacc
      cases hacc
    entries := fun _ => by
      rw [haccepted, entries_step hs]
      rfl
    answered := fun _ hm => by
      rw [hc']
      exact .inl (rb.copied hc hm) }

-- ---------------------------------------------------------------------------
-- The steps of the client task
-- ---------------------------------------------------------------------------

theorem Rebuilding.next (rb : Rebuilding h s₀ s) (hjobs : Jobs codec s) (hq : Neutral s e s')
    (he : reconnects e = false) (hc : s.client = .job (.next ((topic, sub) :: rest)))
    (hc' : s'.client = .call ⟨some rest, .subscribe topic sub.qos sub.handler, t⟩ phase) :
    Rebuilding ((s, e) :: h) s₀ s' := by
  have hleft : s.client.left = (topic, sub) :: rest := by rw [hc]; rfl
  have hleft' : s'.client.left = rest := by rw [hc']; rfl
  have htopic : sub.topic = topic := (hjobs.left (p := (topic, sub)) (by simp [hleft])).1
  subst htopic
  have hnodup := rb.nodup
  rw [hleft, List.map_cons, List.nodup_cons] at hnodup
  refine rb.moved hq he {
    left := by
      rw [hleft, hleft']
      exact List.sublist_cons_self _ _
    cleared := by
      rw [hc, hc']
      rfl
    copied := fun h => by cases hc'.symm.trans h
    asked := fun ha => .inr ?_
    kept := fun ha => absurd ha (not_asking hc (by simp))
    next := fun hl => ?_
    asks := fun h => by cases hc'.symm.trans h }
  · rcases ha with ⟨h, hcall⟩ | ⟨h, _⟩
    · cases hc'.symm.trans h
      cases Subscription.eq_of_subscribe hcall
      rw [hleft, hleft']
      exact ⟨List.mem_cons_self, hnodup.1⟩
    · cases hc'.symm.trans h
  · rw [hleft] at hl
    rw [hleft']
    rcases List.mem_cons.mp hl with heq | hl
    · cases heq
      exact .inr (.calling hc' rfl)
    · exact .inl hl

theorem Rebuilding.calling (rb : Rebuilding h s₀ s) (hq : Neutral s e s')
    (he : reconnects e = false) (hc : s.client = .call frame phase)
    (hc' : s'.client = .call frame phase') : Rebuilding ((s, e) :: h) s₀ s' := by
  refine rb.moved hq he {
    left := by
      rw [hc, hc']
      exact .refl _
    cleared := by
      rw [hc, hc']
      rfl
    copied := fun h => by cases hc'.symm.trans h
    asked := fun ha => .inl ?_
    kept := fun ha => ?_
    next := fun hl => .inl ?_
    asks := fun h => by cases hc'.symm.trans h }
  · rcases ha with ⟨h, hcall⟩ | ⟨h, _⟩
    · cases hc'.symm.trans h
      exact .calling hc hcall
    · cases hc'.symm.trans h
  · rcases ha with ⟨h, hcall⟩ | ⟨h, _⟩
    · cases hc.symm.trans h
      exact .calling hc' hcall
    · cases hc.symm.trans h
  · rw [hc] at hl
    rw [hc']
    exact hl

/-- A call of the job returns with its token still to be completed. -/
theorem returned_incomplete {e : CallEvent} (hr : Run codec options (duringJob subacksInTime) h s)
    (hg : duringJob subacksInTime h s (.call e)) (hs : step codec options s (.call e) = some s')
    (hu : Up s') (hj : inJob s.client) (hc : s.client = .call frame phase)
    (hc' : s'.client = .job (.awaiting frame.token rest))
    (hk : frame.call.newToken.kind = .subscribe) : (s'.cell frame.token).complete = false := by
  have hf : Issued codec anyKind h s := issued_run hr
  have hw := working_run hr
  rw [← Bool.not_eq_true]
  intro hd'
  have herr : (s'.cell frame.token).error = none :=
    (working_run (hr.snoc hg hs)).unfailing.error (.inl hu) (by rw [hc']; rfl)
  by_cases hd : (s.cell frame.token).complete
  · have hsome := hw.unanswered hj frame phase hc hk hd
    rw [error_step hs ((registry hr).frame_lt hc) herr] at hsome
    cases hsome
  · obtain ⟨_, _, he, _⟩ := stored_of_completes hr (hw.inflight hj) (duringJob_of_inJob hg hj) hs
      (hf.running hc) hk hd hd' herr
    cases he

theorem Rebuilding.returned (rb : Rebuilding h s₀ s) (hf : Issued codec anyKind h s)
    (hcall : JobCall codec frame.call phase) (hq : Neutral s e s') (he : reconnects e = false)
    (hjob : frame.job = some rest) (hc : s.client = .call frame phase)
    (hc' : s'.client = .job (.awaiting frame.token rest))
    (hn : (s'.cell frame.token).complete = false) : Rebuilding ((s, e) :: h) s₀ s' := by
  have hissued : issuedFrame frame.token ((s, e) :: h) = some frame := hf.kept (hf.running hc)
  have hleft : s'.client.left = s.client.left := by
    rw [hc, hc', ClientTask.left, ClientTask.left, hjob]
    rfl
  refine rb.moved hq he {
    left := by rw [hleft]
    cleared := ?_
    copied := fun h => by cases hc'.symm.trans h
    asked := fun ha => .inl ?_
    kept := fun ha => ?_
    next := fun hl => .inl (by rwa [hleft])
    asks := fun h _ => ?_ }
  · have hin : afterClear (.call frame phase) = frame.job.isSome := rfl
    rw [hc, hc', hin, hjob]
    rfl
  · rcases ha with ⟨h, _⟩ | ⟨h, hi, hcall', _⟩
    · cases hc'.symm.trans h
    · cases hc'.symm.trans h
      cases hi.symm.trans hissued
      exact .calling hc hcall'
  · rcases ha with ⟨h, hcall'⟩ | ⟨h, _⟩
    · cases hc.symm.trans h
      exact .awaiting hc' hissued hcall' hn
    · cases hc.symm.trans h
  · cases hc'.symm.trans h
    obtain ⟨topic, qos, callback, heq, _⟩ := hcall
    exact ⟨⟨topic, qos, callback⟩, .awaiting hc' hissued heq hn⟩

theorem Rebuilding.awaited (rb : Rebuilding h s₀ s) (hq : Neutral s e s')
    (he : reconnects e = false) (hc : s.client = .job (.awaiting t rest))
    (hd : (s.cell t).complete) (hc' : s'.client = .job (.next rest)) :
    Rebuilding ((s, e) :: h) s₀ s' := by
  refine rb.moved hq he {
    left := by
      rw [hc, hc']
      exact .refl _
    cleared := by
      rw [hc, hc']
      rfl
    copied := fun h => by cases hc'.symm.trans h
    asked := fun ha => absurd ha (not_asking hc' (by simp))
    kept := fun ha => ?_
    next := fun hl => .inl ?_
    asks := fun h => by cases hc'.symm.trans h }
  · rcases ha with ⟨h, _⟩ | ⟨h, _, _, hn⟩
    · cases hc.symm.trans h
    · cases hc.symm.trans h
      rw [hd] at hn
      cases hn
  · rw [hc] at hl
    rw [hc']
    exact hl

end System

end MesquitteClient
