import MesquitteClient.Inflight

/-!
# Subscribing

`subscribe` sends its packet first and then adds the subscriptions to its
token. A SUBACK handled in between finds a token without subscriptions: it
completes the token and stores nothing (`suback_overtakes_subscribe`). When
every SUBACK is handled after that, a subscribe token that completes without an
error has what was accepted in the trie and in the map, and a code for every
filter (`subscribed`).
-/

namespace MesquitteClient

theorem Call.packet_subscribe {call : Call}
    (hp : call.packet codec pkid = some (.subscribe k filters)) :
    filters.length = call.subscriptions.length := by
  cases call with
  | subscribe topic qos callback =>
    simp only [Call.packet, Option.ite_none_right_eq_some, Option.some.injEq,
      VariablePacket.subscribe.injEq] at hp
    obtain ⟨_, _, rfl⟩ := hp
    rfl
  | subscribeMultiple topics callback =>
    simp only [Call.packet, Option.ite_none_right_eq_some, Option.some.injEq,
      VariablePacket.subscribe.injEq] at hp
    obtain ⟨_, _, rfl⟩ := hp
    simp [Call.subscriptions]
  | _ =>
    simp only [Call.packet, Option.ite_none_right_eq_some, Option.some.injEq, reduceCtorEq,
      and_false] at hp

theorem Call.handler_eq {call : Call} (h : sub ∈ call.subscriptions) (h' : sub' ∈ call.subscriptions) :
    sub.handler = sub'.handler := by
  cases call with
  | subscribe topic qos callback =>
    simp only [Call.subscriptions, List.mem_singleton] at h h'
    rw [h, h']
  | subscribeMultiple topics callback =>
    simp only [Call.subscriptions, List.mem_map] at h h'
    obtain ⟨_, _, rfl⟩ := h
    obtain ⟨_, _, rfl⟩ := h'
    rfl
  | _ => cases h

namespace System

variable {codec : Codec} {options : ClientOptions} {s s' : System} {e : Event}
variable {guard : Lts.Guard System Event} {h : Lts.History System Event}
variable {kinds : TokenKind → Bool}

-- ---------------------------------------------------------------------------
-- The call of a token
-- ---------------------------------------------------------------------------

/-- The call that a token was created for, if it passed the check of the
connection. -/
def issuedFrame (t : TokenId) : Lts.History System Event → Option Frame
  | [] => none
  | (s, .call (.accepted job call)) :: h =>
    if s.state.tokens.next = t then some ⟨job, call, t⟩ else issuedFrame t h
  | _ :: h => issuedFrame t h

/-- A call is known by its token, while it runs and after that. -/
structure Issued (codec : Codec) (kinds : TokenKind → Bool) (h : Lts.History System Event)
    (s : System) : Prop where
  token : issuedFrame t h = some frame → frame.token = t ∧ t < s.state.tokens.next
  kind : issuedFrame t h = some frame → (s.cell t).kind = frame.call.newToken.kind
  running : s.client = .call frame phase → issuedFrame frame.token h = some frame
  sent : o ∈ inflight kinds h → ∃ frame pkid, o.token = some frame.token ∧
    issuedFrame frame.token h = some frame ∧ frame.call.packet codec pkid = some o.packet

theorem issued_init : Issued codec kinds [] init where
  token h := by cases h
  kind h := by cases h
  running h := by simp [init] at h
  sent h := by cases h

/-- An event issues a fresh token or none. -/
theorem issuedFrame_origin (hf : issuedFrame t ((s, e) :: h) = some frame) :
    issuedFrame t h = some frame ∨
      ∃ job call, e = .call (.accepted job call) ∧ t = s.state.tokens.next ∧
        frame = ⟨job, call, t⟩ := by
  unfold issuedFrame at hf
  split at hf
  · exact absurd ‹_ :: _ = []› (by simp)
  · rename_i heq
    cases heq
    split at hf
    · rename_i ht
      cases hf
      exact .inr ⟨_, _, rfl, ht.symm, rfl⟩
    · exact .inl hf
  · rename_i heq
    cases heq
    exact .inl hf

theorem issuedFrame_of_lt (hlt : t < s.state.tokens.next) :
    issuedFrame t ((s, e) :: h) = issuedFrame t h := by
  cases e with
  | call e =>
    cases e with
    | accepted job call => exact if_neg (Nat.ne_of_lt hlt).symm
    | _ => rfl
  | _ e => rfl

theorem Issued.kept (hf : Issued codec kinds h s) (hi : issuedFrame t h = some frame) :
    issuedFrame t ((s, e) :: h) = some frame :=
  (issuedFrame_of_lt (hf.token hi).2).trans hi

theorem issued_step (hf : Issued codec kinds h s) (hreg : Registry codec s)
    (hs : step codec options s e = some s') : Issued codec kinds ((s, e) :: h) s' where
  token hi := by
    rcases issuedFrame_origin hi with h | ⟨job, call, rfl, rfl, rfl⟩
    · exact ⟨(hf.token h).1, lt_next_step hs (hf.token h).2⟩
    · refine ⟨rfl, ?_⟩
      rw [next_step hs]
      exact Nat.lt_succ_self _
  kind hi := by
    rcases issuedFrame_origin hi with h | ⟨job, call, rfl, rfl, rfl⟩
    · rw [kind_step hs (hf.token h).2, hf.kind h]
    · rw [cell_created hs rfl]
  running hc := by
    rcases call_origin hs hc with ⟨phase', h0⟩ | ⟨job, call, rfl, rfl⟩
    · exact hf.kept (hf.running h0)
    · exact if_pos rfl
  sent ho := by
    rcases inflight_origin ho with ho | ⟨frame, packet, rfl, rfl, _⟩
    · obtain ⟨frame, pkid, hot, hi, hp⟩ := hf.sent ho
      exact ⟨frame, pkid, hot, hf.kept hi, hp⟩
    · simp only [step, stepCall, when_eq_some] at hs
      have hc := hs.1.1
      obtain ⟨pkid, _, hp⟩ := hreg.phase_ok hc
      exact ⟨frame, pkid, rfl, hf.kept (hf.running hc), hp⟩

theorem issued_run (hr : Run codec options guard h s) : Issued codec kinds h s :=
  hr.invariant issued_init fun hr hf _ hs => issued_step hf (registry hr) hs

theorem issuedFrame_of_returned (hr : Run codec options guard h s)
    (hret : (s₀, .call (.returned frame)) ∈ h) : issuedFrame frame.token h = some frame := by
  induction hr with
  | nil => cases hret
  | snoc hr _ hs ih =>
    have hf : Issued codec anyKind _ _ := issued_run hr
    rcases List.mem_cons.mp hret with heq | hret
    · cases heq
      simp only [step, stepCall, when_eq_some] at hs
      exact hf.kept (hf.running hs.1)
    · exact hf.kept (ih hret)

theorem call_step (hreg : Registry codec s) (hs : step codec options s e = some s')
    (hc : s.client = .call frame phase) : (∃ phase', s'.client = .call frame phase') ∨
      e = .call (.returned frame) ∨ (s'.cell frame.token).error.isSome := by
  rcases call_next (hreg.frame_lt hc) hs hc with ⟨phase', hc', _⟩ | ⟨_, _, hc'⟩ | ⟨he, _⟩ | ⟨_, herr⟩
  · exact .inl ⟨phase', hc'⟩
  · exact .inl ⟨_, hc'⟩
  · exact .inr (.inl he)
  · rw [herr]
    exact .inr (.inr rfl)

-- ---------------------------------------------------------------------------
-- Answers in time
-- ---------------------------------------------------------------------------

def subscribes : TokenKind → Bool := fun kind => kind = .subscribe

/-- A SUBACK has one code for each filter of the SUBSCRIBE it answers. -/
def oneCodeEach : Lts.Guard System Event
  | h, _, .reader (.received (.suback k codes)) =>
    (owed subscribes h).all fun o =>
      match o.packet with
      | .subscribe pkid filters => pkid ≠ k || codes.length = filters.length
      | _ => true
  | _, _, _ => true

/-- The token a SUBACK completes is not that of the running call, which adds
the subscriptions to it before it returns. -/
def addedFirst : Lts.Guard System Event
  | _, s, .reader (.received (.suback k codes)) =>
    (State.ended (.suback k codes) s.state).all fun (_, t) =>
      match s.client with
      | .call frame _ => frame.token ≠ t
      | _ => true
  | _, _, _ => true

def subacksInTime : Lts.Guard System Event :=
  (conforming subscribes).both (oneCodeEach.both addedFirst)

/-- A token of a subscribe call between its creation and its completion. -/
structure Adding (h : Lts.History System Event) (s : System) : Prop where
  running : s.client = .call frame phase → (s.cell frame.token).subscriptions = []
  added : issuedFrame t h = some frame → frame.call.newToken.kind = .subscribe →
    (∀ phase, s.client ≠ .call frame phase) →
      (s.cell t).error.isSome ∨ (s.cell t).subscriptions = frame.call.subscriptions

theorem Call.newToken_subscriptions (call : Call) : call.newToken.subscriptions = [] := by
  cases call <;> rfl

theorem adding_init : Adding [] init where
  running h := by simp [init] at h
  added h := by cases h

theorem cell_returned (hs : step codec options s (.call (.returned frame)) = some s')
    (hlt : t < s.state.tokens.next) : s'.cell t =
      if t = frame.token then (s.cell frame.token).addSubscriptions frame.call.subscriptions
      else s.cell t :=
  (cell_step hs hlt).trans rfl

theorem adding_step (ha : Adding h s) (hf : Issued codec anyKind h s) (hreg : Registry codec s)
    (hs : step codec options s e = some s') : Adding ((s, e) :: h) s' where
  running {frame phase} hc := by
    rcases call_origin hs hc with ⟨phase', h0⟩ | ⟨job, call, rfl, rfl⟩
    · rw [(cell_step_keeps hs (hreg.frame_lt h0)).subscriptions ?_, ha.running h0]
      rintro frame' rfl
      simp only [step, stepCall, when_eq_some] at hs
      obtain ⟨_, rfl⟩ := hs
      exact ClientTask.returned_ne_call hc
    · rw [cell_created hs rfl]
      exact Call.newToken_subscriptions call
  added {t frame} hi' hk hn := by
    rcases issuedFrame_origin hi' with hi | ⟨job, call, rfl, rfl, rfl⟩
    · obtain ⟨rfl, hlt⟩ := hf.token hi
      by_cases hc : ∃ phase, s.client = .call frame phase
      · -- the call has just returned or failed
        obtain ⟨phase, hc⟩ := hc
        rcases call_step hreg hs hc with ⟨phase', hc'⟩ | rfl | herr
        · exact absurd hc' (hn phase')
        · right
          rw [cell_returned hs hlt, if_pos rfl,
            InnerToken.addSubscriptions_subscriptions _ (by rw [hf.kind hi, hk]),
            ha.running hc, List.nil_append]
        · exact .inl herr
      · rcases ha.added hi hk (fun phase h => hc ⟨phase, h⟩) with herr | hsub
        · left
          by_contra hno
          simp [error_step hs hlt (by simpa using hno)] at herr
        · right
          by_cases hret : ∃ frame', e = .call (.returned frame')
          · obtain ⟨frame', rfl⟩ := hret
            have hc' : s.client = .call frame' .sent := by
              simp only [step, stepCall, when_eq_some] at hs
              exact hs.1
            rw [cell_returned hs hlt, if_neg ?_, hsub]
            intro heq
            cases hi.symm.trans (heq ▸ hf.running hc')
            exact hc ⟨_, hc'⟩
          · rw [(cell_step_keeps hs hlt).subscriptions fun frame' h => hret ⟨frame', h⟩, hsub]
    · simp only [step, stepCall, when_eq_some] at hs
      obtain ⟨_, rfl⟩ := hs
      exact absurd rfl (hn _)

theorem adding_run (hr : Run codec options guard h s) : Adding h s :=
  hr.invariant adding_init fun hr ha _ hs => adding_step ha (issued_run hr) (registry hr) hs

/-- A subscribe token completes without an error by a SUBACK that stores what it
accepts of the call's subscriptions, and has a code for each. -/
theorem stored_of_completes (hr : Run codec options guard h s) (hflight : Inflight subscribes h s)
    (hg : subacksInTime h s e) (hs : step codec options s e = some s')
    (hi : issuedFrame t h = some frame) (hk : frame.call.newToken.kind = .subscribe)
    (hn : ¬ (s.cell t).complete) (hc : (s'.cell t).complete) (he : (s'.cell t).error = none) :
    ∃ k codes, e = received (.suback k codes) ∧ s.owner k = some t ∧
      State.ended (.suback k codes) s.state = some (k, t) ∧
      (s.cell t).subscriptions = frame.call.subscriptions ∧
      codes.length = frame.call.subscriptions.length := by
  have hf : Issued codec subscribes h s := issued_run hr
  obtain ⟨hconf, hg⟩ := Lts.Guard.both_eq_true.mp hg
  obtain ⟨hone, hfirst⟩ := Lts.Guard.both_eq_true.mp hg
  obtain ⟨htok, hlt⟩ := hf.token hi
  have hkind : (s.cell t).kind = .subscribe := by rw [hf.kind hi, hk]
  obtain ⟨ack, k, rfl, hend⟩ :=
    (registry hr).completes_numbered hs hlt (by rw [hkind]; rfl) hn hc he
  have hown : s.owner k = some t := (State.ended_eq_some.mp hend).2.1
  obtain ⟨o, ho, hans, hpk, _⟩ := hflight.acknowledged hconf hend (by rw [hkind]; rfl)
  have hin := hflight.owed_subset ho
  obtain ⟨hot, hpkind, _⟩ :=
    (hflight.tracked (not_finished_of_received (lifecycle hr) hs) o hin).of_owner hin hpk hown
  -- the packet that is answered is the call's
  obtain ⟨frame', pkid, hot', hi', hp⟩ := hf.sent hin
  cases hot.symm.trans hot'
  cases hi.symm.trans hi'
  obtain ⟨packet, token⟩ := o
  rw [hkind] at hpkind
  cases packet <;> cases hpkind
  cases ack <;> simp only [answers, decide_eq_true_eq, Bool.false_eq_true] at hans
  subst hans
  cases hpk
  refine ⟨_, _, rfl, hown, hend, ?_, ?_⟩
  · have hidle (phase : Phase) : s.client ≠ .call frame phase := by
      intro hc
      simp [addedFirst, hend, hc] at hfirst
    rcases (adding_run hr).added hi hk hidle with herr | hsub
    · simp [error_step hs hlt he] at herr
    · exact hsub
  · have hcodes := List.all_eq_true.mp hone _ ho
    simp only [ne_eq, not_true_eq_false, decide_false, Bool.false_or, decide_eq_true_eq] at hcodes
    rw [hcodes, Call.packet_subscribe hp]

-- ---------------------------------------------------------------------------
-- What was accepted
-- ---------------------------------------------------------------------------

/-- The step takes a filter out of the trie. -/
def unlists (topic : String) : System × Event → Bool
  | (s, .reader (.received packet)) => topic ∈ State.removed packet s.state
  | (_, .block (.jobClear _)) => true
  | _ => false

/-- The step accepts a subscription with the filter. -/
def accepts (topic : String) : System × Event → Bool
  | (s, .reader (.received packet)) => (State.stored packet s.state).any fun sub => sub.topic = topic
  | _ => false

/-- A SUBACK with a code for every filter has been handled for the call. Since
then what it accepted is in the trie, until it is unsubscribed or a job clears
the trie, and is in the map with its handler, until the filter is accepted
again; and `result` has a code for every filter. -/
def Subscribed (frame : Frame) (h : Lts.History System Event) (s : System) : Prop :=
  ∃ later s₁ k codes h₁, h = later ++ (s₁, received (.suback k codes)) :: h₁ ∧
    s₁.owner k = some frame.token ∧ codes.length = frame.call.subscriptions.length ∧
    (∀ sub ∈ State.accepted frame.call.subscriptions codes,
      (¬ later.any (unlists sub.topic) → sub ∈ s.entries sub.topic) ∧
      (¬ later.any (accepts sub.topic) →
        ∃ sub', s.subscription sub.topic = some sub' ∧ sub'.handler = sub.handler)) ∧
    ∀ sub ∈ frame.call.subscriptions, (s.cell frame.token).result[sub.topic]?.isSome

theorem mem_entries_step (hs : step codec options s e = some s') (hm : sub ∈ s.entries filter)
    (hn : ¬ unlists filter (s, e)) : sub ∈ s'.entries filter := by
  rw [entries_step hs]
  unfold entriesAfter
  split
  · rename_i packet
    rw [if_neg (by simpa [unlists] using hn)]
    exact List.mem_append_left _ hm
  · exact absurd rfl hn
  · exact hm

theorem subscription_kept (hs : step codec options s e = some s')
    (hn : ¬ accepts filter (s, e)) : s'.subscription filter = s.subscription filter := by
  rw [subscription_step hs]
  unfold subscriptionAfter
  split
  · rename_i packet
    have hnil : (State.stored packet s.state).filter (fun sub => sub.topic = filter) = [] := by
      simpa [accepts, List.filter_eq_nil_iff] using hn
    rw [hnil]
    rfl
  · rfl

theorem Subscribed.step (hsub : Subscribed frame h s) (hs : step codec options s e = some s')
    (hlt : frame.token < s.state.tokens.next) : Subscribed frame ((s, e) :: h) s' := by
  obtain ⟨later, s₁, k, codes, h₁, rfl, hown, hlen, hacc, hres⟩ := hsub
  refine ⟨(s, e) :: later, s₁, k, codes, h₁, rfl, hown, hlen,
    fun sub hm => ⟨fun hn => ?_, fun hn => ?_⟩,
    fun sub hm => (cell_step_keeps hs hlt).result sub.topic (hres sub hm)⟩
  · rw [List.any_cons, Bool.or_eq_true, not_or] at hn
    exact mem_entries_step hs ((hacc sub hm).1 hn.2) hn.1
  · rw [List.any_cons, Bool.or_eq_true, not_or] at hn
    rw [subscription_kept hs hn.1]
    exact (hacc sub hm).2 hn.2

theorem subscribed_of_suback (hs : step codec options s (received (.suback k codes)) = some s')
    (hlt : frame.token < s.state.tokens.next)
    (hend : State.ended (.suback k codes) s.state = some (k, frame.token))
    (hsub : (s.cell frame.token).subscriptions = frame.call.subscriptions)
    (hlen : codes.length = frame.call.subscriptions.length) :
    Subscribed frame ((s, received (.suback k codes)) :: h) s' := by
  have hstored : State.stored (.suback k codes) s.state =
      State.accepted frame.call.subscriptions codes := by
    have hsub' : (s.state.cell frame.token).subscriptions = frame.call.subscriptions := hsub
    simp [State.stored, hend, hsub']
  refine ⟨[], s, k, codes, h, rfl, (State.ended_eq_some.mp hend).2.1, hlen,
    fun sub hm => ⟨fun _ => ?_, fun _ => ?_⟩, fun sub hm => ?_⟩
  · rw [entries_step hs]
    simp [entriesAfter, State.removed, hstored, hm]
  · rw [subscription_step hs]
    have hne : sub ∈ (State.accepted frame.call.subscriptions codes).filter
        fun sub' => sub'.topic = sub.topic := by simp [hm]
    obtain ⟨last, hlast⟩ := Option.isSome_iff_exists.mp
      (List.getLast?_isSome.mpr (List.ne_nil_of_mem hne))
    refine ⟨last, by simp [subscriptionAfter, hstored, hlast], ?_⟩
    have hmem := List.mem_of_mem_filter (List.mem_of_getLast? hlast)
    obtain ⟨_, _, hi, _⟩ := State.mem_accepted.mp hm
    obtain ⟨_, _, hi', _⟩ := State.mem_accepted.mp hmem
    exact Call.handler_eq (List.mem_of_getElem? hi') (List.mem_of_getElem? hi)
  · obtain ⟨i, hi⟩ := List.mem_iff_getElem?.mp hm
    have hlt' := (List.getElem?_eq_some_iff.mp hi).1
    rw [cell_step hs hlt, cellAfter, hend, Option.map_some, if_pos rfl]
    refine State.record_result 0 codes _ (.inr ⟨i, sub, by omega, ?_, rfl⟩)
    rw [hsub, Nat.zero_add, hi]

theorem subscribed_run (hr : Run codec options subacksInTime h s) {frame : Frame}
    (hi : issuedFrame frame.token h = some frame) (hk : frame.call.newToken.kind = .subscribe)
    (hc : (s.cell frame.token).complete) (he : (s.cell frame.token).error = none) :
    Subscribed frame h s := by
  induction hr with
  | nil => cases hi
  | @snoc h s e s' hr hg hs ih =>
    have hf : Issued codec anyKind h s := issued_run hr
    rcases issuedFrame_origin hi with hi | ⟨job, call, rfl, ht, hframe⟩
    · have hlt := (hf.token hi).2
      by_cases hc₀ : (s.cell frame.token).complete
      · exact (ih hi hc₀ (error_step hs hlt he)).step hs hlt
      · obtain ⟨k, codes, rfl, hown, hend, hsub, hlen⟩ :=
          stored_of_completes hr (inflight_run hr.left) hg hs hi hk hc₀ hc he
        exact subscribed_of_suback hs hlt hend hsub hlen
    · rw [ht, cell_created hs rfl] at hc
      cases call <;> cases hc

/-- In every run in which the SUBACKs come from a server that answers what it
has received, with one code for each filter, and none is handled before the
subscriptions are added to its token: a subscribe call that has returned, and
whose token is complete without an error, has subscribed. -/
theorem subscribed (hr : Run codec options subacksInTime h s)
    (hret : (s₀, .call (.returned frame)) ∈ h) (hk : frame.call.newToken.kind = .subscribe)
    (hc : (s.cell frame.token).complete) (he : (s.cell frame.token).error = none) :
    Subscribed frame h s :=
  subscribed_run hr (issuedFrame_of_returned hr hret) hk hc he

/-- A `subscribe_multiple` of the application on a new connection. -/
def subscribeBoth : Frame := ⟨none, .subscribeMultiple [("a", .level1), ("b/#", .level0)] 7, 1⟩

def subscribeBothPacket : VariablePacket := .subscribe 2 [("a", .level1), ("b/#", .level0)]

theorem subscribed_both : ∃ h s, Run acceptingCodec .new subacksInTime h s ∧
    (s.cell 1).complete ∧ Subscribed subscribeBoth h s := by
  obtain ⟨h, s, hr, ht⟩ := Lts.exists_run (step acceptingCodec .new) subacksInTime init
    (connecting none 0 false ++ connected none 0 false ++
      sending subscribeBoth 2 subscribeBothPacket ++ [.call (.returned subscribeBoth)] ++
      writing subscribeBothPacket 1 ++ [received (.suback 2 [.maximumQoSLevel1, .failure])])
    (fun h s => h.any (fun p => p.2 = .call (.returned subscribeBoth)) && (s.cell 1).complete &&
      (s.cell 1).error = none) (by decide +kernel)
  simp only [Bool.and_eq_true, decide_eq_true_eq, List.any_eq_true] at ht
  obtain ⟨⟨⟨⟨s₀, _⟩, hret, rfl⟩, hc⟩, he⟩ := ht
  exact ⟨h, s, hr, hc, subscribed hr hret rfl hc he⟩

/-- The SUBACK is handled while `subscribe_multiple` is between its send and
`add_subscriptions`: nothing is subscribed. -/
theorem suback_overtakes_subscribe : ¬ ∀ h s s₀ frame,
    Run acceptingCodec .new ((conforming subscribes).both oneCodeEach) h s →
    (s₀, .call (.returned frame)) ∈ h → frame.call.newToken.kind = .subscribe →
    (s.cell frame.token).complete → (s.cell frame.token).error = none →
    Subscribed frame h s := by
  obtain ⟨h, s, hr, ht⟩ := Lts.exists_run (step acceptingCodec .new)
    ((conforming subscribes).both oneCodeEach) init
    (connecting none 0 false ++ connected none 0 false ++
      sending subscribeBoth 2 subscribeBothPacket ++ writing subscribeBothPacket 1 ++
      [received (.suback 2 [.maximumQoSLevel1, .failure]), .call (.returned subscribeBoth)])
    (fun h s => h.any (fun p => p.2 = .call (.returned subscribeBoth)) && (s.cell 1).complete &&
      (s.cell 1).error = none && !(s.cell 1).result["a"]?.isSome) (by decide +kernel)
  simp only [Bool.and_eq_true, decide_eq_true_eq, List.any_eq_true, Bool.not_eq_true'] at ht
  obtain ⟨⟨⟨⟨⟨s₀, _⟩, hret, rfl⟩, hc⟩, he⟩, hn⟩ := ht
  intro hall
  obtain ⟨_, _, _, _, _, _, _, _, _, hres⟩ := hall h s s₀ subscribeBoth hr hret rfl hc he
  have := hres ⟨"a", .level1, 7⟩ (by simp [subscribeBoth, Call.subscriptions])
  rw [show (s.cell subscribeBoth.token).result["a"]?.isSome = false from hn] at this
  cases this

end System

end MesquitteClient
