import MesquitteClient.Registry

/-!
# Unsubscribing

The subscriptions are kept twice: in the trie, for dispatch, and in a map, for
the resubscribe job. UNSUBACK takes a filter out of the trie only. The map keeps
whatever a SUBACK has accepted, and the job of a later reconnect subscribes to
it again (`unsubscribed_comes_back`). So an unsubscribed filter is gone for
good exactly if no SUBACK has accepted it, while the trie is without it until
one accepts it anew (`unsubscribed_gone_iff`).
-/

namespace MesquitteClient

/-- What a resubscribe job has left, without the call it is in. -/
def ClientTask.left : ClientTask → Job
  | .job (.clear subs) => subs
  | .job (.next rest) => rest
  | .job (.awaiting _ rest) => rest
  | .call frame _ => frame.job.getD []
  | _ => []

/-- The filters of the call that a resubscribe job is in. -/
def ClientTask.callTopics : ClientTask → List String
  | .call frame _ => if frame.job.isSome then frame.call.subscriptions.map (·.topic) else []
  | _ => []

/-- The filters that a resubscribe job has before it. -/
def ClientTask.jobTopics (client : ClientTask) : List String :=
  client.callTopics ++ client.left.map Prod.fst

theorem ClientTask.left_returned (frame : Frame) : (returned frame).left = frame.job.getD [] := by
  unfold returned
  cases frame.job <;> rfl

theorem ClientTask.left_connectReturned (caller : Caller) (t : TokenId) :
    (connectReturned caller t).left = [] := by
  rcases connectReturned_cases caller t with h | ⟨_, h⟩ <;> rw [h] <;> rfl

theorem ClientTask.left_calls {client : ClientTask} {job : Option Job} {call : Call}
    (hc : client.calls job call) (h : p ∈ job.getD []) : p ∈ client.left := by
  rcases calls_cases hc with ⟨_, rfl⟩ | ⟨topic, sub, rest, rfl, rfl, rfl⟩
  · cases h
  · exact List.mem_cons_of_mem _ h

namespace System

variable {codec : Codec} {options : ClientOptions} {s s' : System} {e : Event}
variable {guard : Lts.Guard System Event} {h : Lts.History System Event}

/-- A job has left what it had, or what it has just copied from the map. -/
theorem left_origin (hs : step codec options s e = some s') (hp : p ∈ s'.client.left) :
    p ∈ s.client.left ∨ s.subscription p.1 = some p.2 := by
  cases client_cases hs with
  | other _ hc => exact .inl (hc ▸ hp)
  | accepted _ _ _ hc hc' =>
    rw [hc'] at hp
    exact .inl (ClientTask.left_calls hc hp)
  | refused _ _ _ hc hc' =>
    rw [hc', ClientTask.left_returned] at hp
    exact .inl (ClientTask.left_calls hc hp)
  | callReturned _ _ _ hc hc' =>
    rw [hc', ClientTask.left_returned] at hp
    exact .inl (by rwa [hc])
  | calling _ _ _ _ hc hc' | cleared _ _ hc hc' | awaited _ _ _ hc _ hc' =>
    rw [hc'] at hp
    exact .inl (by rw [hc]; exact hp)
  | cloned _ _ hc' =>
    rw [hc'] at hp
    exact .inr (Std.TreeMap.mem_toList_iff_getElem?_eq_some.mp hp)
  | answered _ _ _ hc' | connectReturned _ _ _ _ _ hc' =>
    rw [hc', ClientTask.left_connectReturned] at hp
    cases hp
  | reconnected _ _ _ _ _ hc' => rcases hc' with ⟨_, hc'⟩ | hc' <;> rw [hc'] at hp <;> cases hp
  | _ =>
    rename_i hc'
    rw [hc'] at hp
    cases hp

/-- A job is in a call that it was in, or in that for the first filter it had
left. -/
theorem callTopics_origin (hs : step codec options s e = some s')
    (ht : topic ∈ s'.client.callTopics) : topic ∈ s.client.jobTopics := by
  unfold ClientTask.callTopics at ht
  split at ht
  · rename_i frame phase hc
    rcases call_origin hs hc with ⟨phase', h0⟩ | ⟨job, call, rfl, rfl⟩
    · rw [h0]
      exact List.mem_append_left _ ht
    · simp only [step, stepCall, when_eq_some] at hs
      rcases ClientTask.calls_cases hs.1.1 with ⟨_, rfl⟩ | ⟨topic', sub, rest, h0, rfl, rfl⟩
      · cases ht
      · rw [h0]
        simp only [Option.isSome_some, ↓reduceIte, Call.subscriptions, List.map_cons, List.map_nil,
          List.mem_singleton] at ht
        exact List.mem_append_right _ (ht ▸ List.mem_cons_self)
  · cases ht

/-- A job has the filters it had, or has just copied those of the map. -/
theorem jobTopics_origin (hs : step codec options s e = some s')
    (ht : topic ∈ s'.client.jobTopics) :
    topic ∈ s.client.jobTopics ∨ (s.subscription topic).isSome := by
  rcases List.mem_append.mp ht with ht | ht
  · exact .inl (callTopics_origin hs ht)
  · obtain ⟨p, hp, rfl⟩ := List.mem_map.mp ht
    rcases left_origin hs hp with h | h
    · exact .inl (List.mem_append_right _ (List.mem_map_of_mem h))
    · exact .inr (Option.isSome_iff_exists.mpr ⟨_, h⟩)

/-- The step is a SUBACK that accepts a filter. -/
def acceptsTopic (topic : String) : System × Event → Bool
  | (s, .reader (.received packet)) => topic ∈ (State.stored packet s.state).map (·.topic)
  | _ => false

theorem isSome_subscription_step (hs : step codec options s e = some s') :
    (s'.subscription topic).isSome =
      (acceptsTopic topic (s, e) || (s.subscription topic).isSome) := by
  rw [subscription_step hs]
  cases e with
  | reader e =>
    cases e with
    | received packet =>
      rw [subscriptionAfter, Option.isSome_or, Bool.eq_iff_iff]
      simp [acceptsTopic]
    | _ => rfl
  | _ e => rfl

theorem isSome_step (hs : step codec options s e = some s')
    (hm : (s.subscription topic).isSome) : (s'.subscription topic).isSome := by
  rw [isSome_subscription_step hs, hm, Bool.or_true]

/-- What is in the trie or before the job is in the map. -/
structure Mapped (s : System) : Prop where
  entries : s.entries topic ≠ [] → (s.subscription topic).isSome
  job : topic ∈ s.client.jobTopics → (s.subscription topic).isSome

theorem mapped_init : Mapped init where
  entries h := absurd (TopicManager.entries_new) h
  job h := by simp [init, ClientTask.jobTopics, ClientTask.callTopics, ClientTask.left] at h

theorem mapped_step (hm : Mapped s) (hs : step codec options s e = some s') : Mapped s' where
  entries {topic} hne := by
    rw [entries_step hs] at hne
    unfold entriesAfter at hne
    split at hne
    · rename_i packet
      split at hne
      · exact absurd rfl hne
      · by_cases hold : s.entries topic = []
        · rw [hold, List.nil_append] at hne
          rw [subscription_step hs, subscriptionAfter, Option.isSome_or,
            List.getLast?_isSome.mpr hne, Bool.true_or]
        · exact isSome_step hs (hm.entries hold)
    · exact absurd rfl hne
    · exact isSome_step hs (hm.entries hne)
  job ht := by
    rcases jobTopics_origin hs ht with h | h
    · exact isSome_step hs (hm.job h)
    · exact isSome_step hs h

theorem mapped (hr : Run codec options guard h s) : Mapped s :=
  hr.invariant (P := fun _ s => Mapped s) mapped_init fun _ hm _ hs => mapped_step hm hs

-- ---------------------------------------------------------------------------
-- Once unsubscribed
-- ---------------------------------------------------------------------------

/-- An UNSUBACK for a filter has been handled, and no subscribe for it has been
issued since. -/
def dropped (topic : String) : Lts.History System Event → Bool
  | [] => false
  | (s, .reader (.received packet)) :: h =>
    topic ∈ State.removed packet s.state || dropped topic h
  | (_, .call (.accepted none call)) :: h =>
    topic ∉ call.subscriptions.map (·.topic) && dropped topic h
  | _ :: h => dropped topic h

/-- Nothing of a filter is left: it is in neither store, no match returns a
subscription with it, and no resubscribe job has it before it. -/
structure Gone (topic : String) (s : System) : Prop where
  entries : s.entries topic = []
  subscriptions : s.subscription topic = none
  matching : ∀ name, ∀ sub ∈ s.state.topicManager.matchTopic name, sub.topic ≠ topic
  job : topic ∉ s.client.jobTopics

theorem stored_of_removed (packet : VariablePacket) (st : State)
    (hr : topic ∈ State.removed packet st) : State.stored packet st = [] := by
  cases packet <;> first | rfl | simp [State.removed] at hr

/-- What the trie has no entry for is not matched. -/
theorem ne_of_entries_nil (hnil : s.entries topic = [])
    (hsub : sub ∈ s.state.topicManager.matchTopic name) : sub.topic ≠ topic := by
  rintro rfl
  obtain ⟨hin, _⟩ := TopicManager.mem_matchTopic _ hsub
  change sub ∈ s.entries sub.topic at hin
  rw [hnil] at hin
  cases hin

theorem Mapped.gone (hm : Mapped s) (hn : s.subscription topic = none) : Gone topic s := by
  have hentries : s.entries topic = [] := by
    by_contra hne
    have hmap := hm.entries hne
    rw [hn] at hmap
    cases hmap
  refine ⟨hentries, hn, fun name sub hsub => ne_of_entries_nil hentries hsub, fun hj => ?_⟩
  have hmap := hm.job hj
  rw [hn] at hmap
  cases hmap

/-- The map has the filters that some SUBACK has accepted. -/
theorem subscription_eq_none_iff (hr : Run codec options guard h s) :
    s.subscription topic = none ↔ ∀ x ∈ h, acceptsTopic topic x = false := by
  rw [← Option.isNone_iff_eq_none, ← Option.not_isSome, Bool.not_eq_true']
  induction hr with
  | nil => simp [init, subscription, State.new]
  | snoc _ _ hs ih =>
    rw [isSome_subscription_step hs, Bool.or_eq_false_iff, ih]
    simp

/-- What an UNSUBACK has taken out of the trie stays out until a SUBACK accepts
it. -/
theorem entries_of_removed
    (hr : Run codec options guard (later ++ (s₁, received packet) :: before) s)
    (hu : topic ∈ State.removed packet s₁.state)
    (hn : ∀ x ∈ later, acceptsTopic topic x = false) : s.entries topic = [] := by
  induction later generalizing s with
  | nil =>
    cases hr with
    | snoc _ _ hs =>
      rw [entries_step hs]
      exact if_pos hu
  | cons x later ih =>
    cases hr with
    | @snoc _ s₂ e _ hr _ hs =>
      have hold := ih hr fun x hx => hn x (List.mem_cons_of_mem _ hx)
      have hx := hn _ List.mem_cons_self
      rw [entries_step hs]
      unfold entriesAfter
      split
      · simp only [acceptsTopic, decide_eq_false_iff_not, List.mem_map, not_exists, not_and] at hx
        split
        · rfl
        · rw [hold, List.nil_append, List.filter_eq_nil_iff]
          simpa using hx
      · rfl
      · exact hold

/-- For every run and every filter of an UNSUBACK that has been handled in it:
the filter is gone exactly if no SUBACK of the run has accepted it. Otherwise
the map has it, and the trie and the matches are without it as long as no
SUBACK has accepted it since the UNSUBACK. -/
theorem unsubscribed_gone_iff (later : Lts.History System Event)
    (hr : Run codec options guard (later ++ (s₁, received packet) :: before) s)
    (hu : topic ∈ State.removed packet s₁.state) :
    (Gone topic s ↔
      ∀ x ∈ later ++ (s₁, received packet) :: before, acceptsTopic topic x = false) ∧
      ((∀ x ∈ later, acceptsTopic topic x = false) → s.entries topic = [] ∧
        ∀ name, ∀ sub ∈ s.state.topicManager.matchTopic name, sub.topic ≠ topic) := by
  refine ⟨?_, fun hn => ?_⟩
  · rw [← subscription_eq_none_iff hr]
    exact ⟨fun hg => hg.subscriptions, (mapped hr).gone⟩
  · have hentries := entries_of_removed hr hu hn
    exact ⟨hentries, fun name sub hsub => ne_of_entries_nil hentries hsub⟩

/-- The resubscribe job of a reconnect, with the SUBACK of its only filter. -/
def resubscribing (topic : String) (callback : OnMessageArrivedHandler) (token : TokenId)
    (pkid : UInt16) : List Event :=
  let sub : Subscription := ⟨topic, .level1, callback⟩
  let frame : Frame := ⟨some [], .subscribe topic .level1 callback, token⟩
  let packet : VariablePacket := .subscribe pkid [(topic, .level1)]
  [.block .jobCleanUp, .block .jobClone, .block (.jobClear [(topic, sub)])] ++
    sending frame pkid packet ++ [.call (.returned frame)] ++ writing packet token ++
    [received (.suback pkid [.maximumQoSLevel1])]

/-- A filter that the server accepts and one that it refuses, which is then
unsubscribed, and a reconnect without a session. -/
def unsubscribingRefused : List Event :=
  connecting none 0 false ++ connected none 0 false ++ subscribing "b" 7 1 2 ++
    (subscribing "a" 7 2 3).dropLast ++ [received (.suback 3 [.failure])] ++
    unsubscribing "a" 3 4 ++ [.block .started] ++ closing ++ reconnecting 4 false ++
    resubscribing "b" 7 5 5

/-- The step is the UNSUBACK of a filter. -/
def unsubacked (topic : String) (pkid : UInt16) (x : System × Event) : Bool :=
  x.2 = received (.unsuback pkid) && topic ∈ State.removed (.unsuback pkid) x.1.state

/-- After such a reconnect the refused filter is gone, and the accepted one is
back in the trie. An accepted one that is unsubscribed leaves the trie only. -/
theorem unsubscribed_gone_reconnected : ∃ h s h' s',
    Run acceptingCodec reconnectingOptions Lts.anything h s ∧ dropped "a" h ∧ Gone "a" s ∧
      s.entries "b" = [⟨"b", .level1, 7⟩] ∧
    Run acceptingCodec reconnectingOptions Lts.anything h' s' ∧ dropped "b" h' ∧
      ¬ Gone "b" s' ∧ s'.entries "b" = [] := by
  obtain ⟨h, s, hr, ht⟩ := Lts.exists_run (step acceptingCodec reconnectingOptions)
    Lts.anything init unsubscribingRefused
    (fun h s => dropped "a" h && s.entries "b" = [⟨"b", .level1, 7⟩] && h.any (unsubacked "a" 4) &&
      h.all fun x => !acceptsTopic "a" x) (by decide +kernel)
  obtain ⟨h', s', hr', ht'⟩ := Lts.exists_run (step acceptingCodec reconnectingOptions)
    Lts.anything init
    (connecting none 0 false ++ connected none 0 false ++ subscribing "b" 7 1 2 ++
      unsubscribing "b" 2 3)
    (fun h _ => dropped "b" h && h.head?.any (unsubacked "b" 3) && h.any (acceptsTopic "b"))
    (by decide +kernel)
  simp only [Bool.and_eq_true, decide_eq_true_eq, List.any_eq_true, List.all_eq_true,
    Bool.not_eq_true', Option.any_eq_true, unsubacked] at ht ht'
  obtain ⟨⟨⟨hd, hb⟩, ⟨s₁, e⟩, hx, rfl, hu⟩, hnone⟩ := ht
  obtain ⟨⟨hd', ⟨s₂, e⟩, hhead, rfl, hu'⟩, x, hx', haccepts⟩ := ht'
  obtain ⟨later, before, rfl⟩ := List.append_of_mem hx
  obtain ⟨before', rfl⟩ : ∃ before', h' = (s₂, received (.unsuback 3)) :: before' := by
    cases h' with
    | nil => cases hhead
    | cons x before' => exact ⟨before', by rw [Option.some.inj hhead]⟩
  refine ⟨_, s, _, s', hr, hd, (unsubscribed_gone_iff later hr hu).1.mpr hnone, hb,
    hr', hd', ?_, ?_⟩
  · intro hg
    have hnot := (unsubscribed_gone_iff [] hr' hu').1.mp hg x hx'
    rw [hnot] at haccepts
    cases haccepts
  · exact ((unsubscribed_gone_iff [] hr' hu').2 fun _ hx => by cases hx).1

/-- Unsubscribed, and subscribed to again by the job of the next reconnect. -/
theorem unsubscribed_comes_back : ¬ ∀ h s topic,
    Run acceptingCodec reconnectingOptions Lts.anything h s → dropped topic h → Gone topic s := by
  obtain ⟨h, s, hr, ht⟩ := Lts.exists_run (step acceptingCodec reconnectingOptions)
    Lts.anything init
    (connecting none 0 false ++ connected none 0 false ++ subscribing "a" 7 1 2 ++
      unsubscribing "a" 2 3 ++ [.block .started] ++ closing ++ reconnecting 3 false ++
      resubscribing "a" 7 4 4)
    (fun h s => dropped "a" h && s.entries "a" = [⟨"a", .level1, 7⟩]) (by decide +kernel)
  simp only [Bool.and_eq_true, decide_eq_true_eq] at ht
  intro hall
  have := (hall h s "a" hr ht.1).entries
  rw [ht.2] at this
  cases this

end System

end MesquitteClient
