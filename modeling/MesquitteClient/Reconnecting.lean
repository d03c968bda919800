import MesquitteClient.Subscribing
import MesquitteClient.Unsubscribing

/-!
# Reconnecting

What a resubscribe job works with: it copies the map, whose filters are valid,
and makes one call for each. And what `block` knows of the connection it is on:
whether it made it itself, and whether the trie was intact when it got it with
a session present.
-/

namespace MesquitteClient

/-- The packet of the call is built. -/
def Phase.built : Phase → Bool
  | .sending _ | .sent => true
  | _ => false

/-- The flag of the CONNACK, once there is one. -/
def ConnectPhase.session : ConnectPhase → Option Bool
  | .spawned sessionPresent | .connected sessionPresent => some sessionPresent
  | _ => none

namespace System

variable {codec : Codec} {options : ClientOptions} {s s' : System} {e : Event}
variable {guard : Lts.Guard System Event} {h : Lts.History System Event}

-- ---------------------------------------------------------------------------
-- Valid filters
-- ---------------------------------------------------------------------------

/-- A call of a job subscribes to one valid filter. -/
def JobCall (codec : Codec) (call : Call) (phase : Phase) : Prop :=
  ∃ topic qos callback, call = .subscribe topic qos callback ∧ codec.topicFilter topic ∧
    ∀ pkid topics, phase = .building pkid topics → topics = []

/-- Whatever is subscribed to has a valid filter. -/
structure Jobs (codec : Codec) (s : System) : Prop where
  built : s.client = .call frame phase → phase.built →
    ∀ sub ∈ frame.call.subscriptions, codec.topicFilter sub.topic
  token : t < s.state.tokens.next → ∀ sub ∈ (s.cell t).subscriptions, codec.topicFilter sub.topic
  map : s.subscription topic = some sub → sub.topic = topic ∧ codec.topicFilter topic
  left : p ∈ s.client.left → p.2.topic = p.1 ∧ codec.topicFilter p.1
  call : s.client = .call frame phase → frame.job.isSome → JobCall codec frame.call phase

theorem jobs_init : Jobs codec init where
  built h := by simp [init] at h
  token h := by simp [init, State.new] at h
  map h := by simp [init, subscription, State.new] at h
  left h := by simp [init, ClientTask.left] at h
  call h := by simp [init] at h

theorem Call.packet_valid {call : Call} (hp : call.packet codec pkid = some packet) :
    ∀ sub ∈ call.subscriptions, codec.topicFilter sub.topic := by
  cases call with
  | subscribe topic qos callback =>
    simp only [Call.packet, Option.ite_none_right_eq_some] at hp
    simpa [Call.subscriptions] using hp.1
  | subscribeMultiple topics callback =>
    simp only [Call.packet, Option.ite_none_right_eq_some, List.all_eq_true] at hp
    simp only [Call.subscriptions, List.mem_map]
    rintro _ ⟨p, hm, rfl⟩
    exact hp.1 p hm
  | _ => simp [Call.subscriptions]

theorem mem_addSubscriptions {token : InnerToken}
    (h : sub ∈ (token.addSubscriptions subs).subscriptions) :
    sub ∈ token.subscriptions ∨ sub ∈ subs := by
  unfold InnerToken.addSubscriptions at h
  split at h
  · rename_i hd
    simp only [InnerToken.subscriptions, hd] at h ⊢
    exact List.mem_append.mp h
  · exact .inl h

theorem created_subscriptions (hc : created e = some token) : token.subscriptions = [] := by
  cases e with
  | call e =>
    cases e with
    | accepted job call | refused job call =>
      cases hc
      cases call <;> rfl
    | _ => cases hc
  | connect e => cases e <;> cases hc <;> rfl
  | _ e => cases hc

theorem Jobs.built_step (hj : Jobs codec s) (hs : step codec options s e = some s')
    (hc : s'.client = .call frame phase) (hb : phase.built) :
    ∀ sub ∈ frame.call.subscriptions, codec.topicFilter sub.topic := by
  cases call_cases hs hc with
  | other _ h0 => exact hj.built h0 hb
  | accepted job call _ _ _ =>
    unfold Call.begin at hb
    split at hb <;> cases hb
  | registered | topicAdded => cases hb
  | built _ _ _ _ hp => exact Call.packet_valid hp
  | enqueued _ _ h0 | sendFailed _ _ h0 => exact hj.built h0 rfl

theorem Jobs.token_step (hj : Jobs codec s) (hs : step codec options s e = some s')
    (hlt : t < s'.state.tokens.next) :
    ∀ sub ∈ (s'.cell t).subscriptions, codec.topicFilter sub.topic := by
  by_cases ht : t < s.state.tokens.next
  · by_cases hret : ∃ frame, e = .call (.returned frame)
    · obtain ⟨frame, rfl⟩ := hret
      rw [cell_returned hs ht]
      split
      · rename_i heq
        intro sub hm
        simp only [step, stepCall, when_eq_some] at hs
        rcases mem_addSubscriptions hm with hm | hm
        · exact hj.token (heq ▸ ht) sub hm
        · exact hj.built hs.1 rfl sub hm
      · exact hj.token ht
    · rw [(cell_step_keeps hs ht).subscriptions fun frame h => hret ⟨frame, h⟩]
      exact hj.token ht
  · rw [next_step hs] at hlt
    split at hlt
    · rename_i hcr
      obtain ⟨token, hcr⟩ := Option.isSome_iff_exists.mp hcr
      have heq : t = s.state.tokens.next :=
        Nat.le_antisymm (Nat.le_of_lt_succ hlt) (Nat.le_of_not_lt ht)
      rw [heq, cell_created hs hcr, created_subscriptions hcr]
      simp
    · exact absurd hlt ht

theorem Jobs.map_step (hj : Jobs codec s) (hreg : Registry codec s)
    (hs : step codec options s e = some s') (hm : s'.subscription topic = some sub) :
    sub.topic = topic ∧ codec.topicFilter topic := by
  rw [subscription_step hs] at hm
  unfold subscriptionAfter at hm
  split at hm
  · rename_i packet
    rcases Option.or_eq_some_iff.mp hm with hlast | ⟨_, hm⟩
    · obtain ⟨hin, heq⟩ := List.mem_filter.mp (List.mem_of_getLast? hlast)
      rw [decide_eq_true_eq] at heq
      refine ⟨heq, heq ▸ ?_⟩
      unfold State.stored at hin
      split at hin
      · rename_i k t hend
        obtain ⟨i, _, hi, _⟩ := State.mem_accepted.mp hin
        exact hj.token (hreg.owner_lt (State.ended_eq_some.mp hend).2.1) sub (List.mem_of_getElem? hi)
      · cases hin
    · exact hj.map hm
  · exact hj.map hm

theorem Jobs.call_step (hj : Jobs codec s) (hs : step codec options s e = some s')
    (hc : s'.client = .call frame phase) (hjob : frame.job.isSome) :
    JobCall codec frame.call phase := by
  cases call_cases hs hc with
  | other _ h0 => exact hj.call h0 hjob
  | accepted job call _ hcalls hf =>
    subst hf
    rcases ClientTask.calls_cases hcalls with ⟨_, rfl⟩ | ⟨topic, sub, rest, h0, rfl, rfl⟩
    · cases hjob
    · have hleft : (topic, sub) ∈ s.client.left := by
        rw [h0]
        exact List.mem_cons_self
      refine ⟨topic, _, _, rfl, (hj.left hleft).2, ?_⟩
      intro pkid topics hphase
      cases hphase
  | registered pkid _ h0 =>
    obtain ⟨topic, qos, callback, heq, hv, _⟩ := hj.call h0 hjob
    refine ⟨topic, qos, callback, heq, hv, ?_⟩
    rw [heq]
    rintro _ _ hphase
    cases hphase
    rfl
  | topicAdded pkid topic rest _ h0 =>
    obtain ⟨_, _, _, _, _, htopics⟩ := hj.call h0 hjob
    cases htopics _ _ rfl
  | built _ _ _ h0 _ | enqueued _ _ h0 | sendFailed _ _ h0 =>
    obtain ⟨topic, qos, callback, heq, hv, _⟩ := hj.call h0 hjob
    exact ⟨topic, qos, callback, heq, hv, fun _ _ h => by cases h⟩

theorem jobs_step (hj : Jobs codec s) (hreg : Registry codec s)
    (hs : step codec options s e = some s') : Jobs codec s' where
  built hc hb := hj.built_step hs hc hb
  token hlt := hj.token_step hs hlt
  map hm := hj.map_step hreg hs hm
  left hp := by
    rcases left_origin hs hp with h | h
    · exact hj.left h
    · exact hj.map h
  call hc hjob := hj.call_step hs hc hjob

theorem jobs (hr : Run codec options guard h s) : Jobs codec s :=
  hr.invariant (P := fun _ s => Jobs codec s) jobs_init fun hr hj _ hs => jobs_step hj (registry hr) hs

-- ---------------------------------------------------------------------------
-- The connection `block` is on
-- ---------------------------------------------------------------------------

/-- The last connection was made by `block`, and the application has made no
call on it. -/
def byBlock : Lts.History System Event → Bool
  | [] => false
  | (_, .connect (.accepted caller ..)) :: _ => caller.isSome
  | (_, .call (.accepted none _)) :: _ => false
  | _ :: h => byBlock h

/-- A token that the last job awaited had an error. -/
def jobFailed : Lts.History System Event → Bool
  | [] => false
  | (_, .block (.jobClear _)) :: _ => false
  | (s, .block (.jobAwaited t _)) :: h => (s.cell t).error.isSome || jobFailed h
  | _ :: h => jobFailed h

/-- The last job got all of its tokens without an error, if there was one, and
no UNSUBACK since has been for a filter of the map. -/
def intact : Lts.History System Event → Bool
  | [] => true
  | (_, .block (.jobClear _)) :: _ => false
  | (_, .block .jobDone) :: h => !jobFailed h
  | (s, .reader (.received packet)) :: h =>
    (State.removed packet s.state).all (fun topic => (s.subscription topic).isNone) && intact h
  | _ :: h => intact h

def unsubscribes : TokenKind → Bool := fun kind => kind = .unsubscribe

/-- SUBACKs and UNSUBACKs answer packets that the server has received, with one
code for each filter, and no SUBACK is handled before the subscriptions are
added to its token. -/
def answersSubscriptions : Lts.Guard System Event :=
  subacksInTime.both (conforming unsubscribes)

/-- When `block` gets a connection with the session present, the trie is
intact. -/
def resumesIntact : Lts.Guard System Event
  | h, _, .connect (.accepted (some _) _ true) => intact h
  | _, _, _ => true

/-- The client task is in a job, or in a call of one. -/
def inJob : ClientTask → Bool
  | .job _ => true
  | .call frame _ => frame.job.isSome
  | _ => false

structure Reconnecting (h : Lts.History System Event) (s : System) : Prop where
  /-- nothing but what a job sends is in flight -/
  sent : byBlock h → inflight unsubscribes h = []
  calls : byBlock h → s.client = .call frame phase → frame.job.isSome
  fresh : s.client = .connect caller t phase' → (s.cell t).sessionPresent = false
  accepted : s.client = .connect caller t phase' → phase'.session = some sessionPresent →
    byBlock h = caller.isSome ∧ (caller.isSome → sessionPresent → intact h)
  returned : s.client = .awaitConnect cnt t → (s.cell t).error = none →
    byBlock h ∧ ((s.cell t).sessionPresent → intact h)
  job : inJob s.client → byBlock h

theorem reconnecting_init : Reconnecting [] init where
  sent h := by cases h
  calls h := by cases h
  fresh h := by simp [init] at h
  accepted h := by simp [init] at h
  returned h := by simp [init] at h
  job h := by cases h

/-- An UNSUBACK that takes filters out of the trie answers a packet in flight. -/
theorem removed_eq_nil (hi : Inflight unsubscribes h s)
    (hg : conforming unsubscribes h s (received packet)) (hn : inflight unsubscribes h = []) :
    State.removed packet s.state = [] := by
  unfold State.removed
  split
  · rename_i k t hend
    have hkind : (s.cell t).kind = .unsubscribe := of_decide_eq_true (State.ended_eq_some.mp hend).2.2
    obtain ⟨o, ho, _⟩ := conforming_received hg hend (by rw [hkind]; rfl)
    have hin := hi.owed_subset ho
    rw [hn] at hin
    cases hin
  · rfl

/-- The events that make another connection the last one, or end `byBlock`. -/
def startsOver : Event → Bool
  | .connect (.accepted ..) | .call (.accepted none _) => true
  | _ => false

theorem byBlock_kept (he : startsOver e = false) : byBlock ((s, e) :: h) = byBlock h := by
  cases e with
  | call e =>
    cases e with
    | accepted job call =>
      cases job with
      | none => cases he
      | some rest => rfl
    | _ => rfl
  | connect e =>
    cases e with
    | accepted caller t sp => cases he
    | _ => rfl
  | _ e => rfl

/-- The events of a job that clear the trie and end the filling of it. -/
def ofJob : Event → Bool
  | .block (.jobClear _) | .block .jobDone => true
  | _ => false

theorem of_otherTask (he : ofClient e = false) : startsOver e = false ∧ ofJob e = false := by
  cases e with
  | call e | connect e | block e => cases he
  | _ e => exact ⟨rfl, rfl⟩

theorem intact_kept (he : ofJob e = false)
    (hr : ∀ packet, e = received packet → State.removed packet s.state = []) (hi : intact h) :
    intact ((s, e) :: h) := by
  cases e with
  | block e =>
    cases e with
    | jobClear subs | jobDone => cases he
    | _ => exact hi
  | reader e =>
    cases e with
    | received packet => simp [intact, hr packet rfl, hi]
    | _ => exact hi
  | _ e => exact hi

theorem Reconnecting.sent_step (hre : Reconnecting h s) (hreg : Registry codec s)
    (hj : Jobs codec s) (hs : step codec options s e = some s') (hb : byBlock ((s, e) :: h)) :
    inflight unsubscribes ((s, e) :: h) = [] := by
  by_cases he : ∃ frame packet, e = .call (.enqueued frame packet)
  · obtain ⟨frame, packet, rfl⟩ := he
    simp only [step, stepCall, when_eq_some] at hs
    have hc := hs.1.1
    obtain ⟨topic, qos, callback, heq, _⟩ := hj.call hc (hre.calls hb hc)
    obtain ⟨pkid, hid, hp⟩ := hreg.phase_ok hc
    have hkind := (Call.packet_eq_some hp hid).2
    have hno : ¬ awaits unsubscribes packet := by
      rw [heq] at hkind
      simp [awaits, hkind, unsubscribes, Call.newToken, InnerToken.subscribe, InnerToken.kind,
        TokenData.kind]
    rw [inflight, if_neg hno]
    exact hre.sent hb
  · have hnil (hb : byBlock h) : inflight unsubscribes ((s, e) :: h) = [] :=
      inflight_eq_nil (hre.sent hb) fun frame packet h => he ⟨frame, packet, h⟩
    by_cases hstart : startsOver e
    · unfold startsOver at hstart
      split at hstart
      · rfl
      · cases hb
      · cases hstart
    · exact hnil (byBlock_kept (by simpa using hstart) ▸ hb)

theorem Reconnecting.calls_step (hre : Reconnecting h s) (hs : step codec options s e = some s')
    (hb : byBlock ((s, e) :: h)) (hc : s'.client = .call frame phase) : frame.job.isSome := by
  rcases call_origin hs hc with ⟨phase', h0⟩ | ⟨job, call, rfl, rfl⟩
  · by_cases hstart : startsOver e
    · unfold startsOver at hstart
      split at hstart
      · exact absurd h0 (not_in_call hs (by simp))
      · cases hb
      · cases hstart
    · exact hre.calls (byBlock_kept (by simpa using hstart) ▸ hb) h0
  · cases job with
    | none => cases hb
    | some rest => rfl

theorem Reconnecting.fresh_step (hre : Reconnecting h s) (hreg : Registry codec s)
    (hs : step codec options s e = some s') (hc : s'.client = .connect caller t phase') :
    (s'.cell t).sessionPresent = false := by
  rcases connect_origin hs hc with ⟨phase, h0⟩ | ⟨rfl, rfl⟩
  · rw [(cell_step_keeps hs (hreg.client_lt (by rw [h0]; rfl))).sessionPresent ?_, hre.fresh h0]
    rintro caller' t' rfl
    simp only [step, stepConnect, when_eq_some] at hs
    obtain ⟨_, rfl⟩ := hs
    exact absurd hc ClientTask.connectReturned_ne_connect
  · rw [cell_created hs rfl]
    rfl

/-- The trie stays intact on a connection of `block`. -/
theorem Reconnecting.intact_kept (hre : Reconnecting h s) (hi : Inflight unsubscribes h s)
    (hg : conforming unsubscribes h s e) (hb : byBlock h) (he : ofJob e = false) (hin : intact h) :
    intact ((s, e) :: h) := by
  refine System.intact_kept he ?_ hin
  rintro packet rfl
  exact removed_eq_nil hi hg (hre.sent hb)

theorem Reconnecting.accepted_step (hre : Reconnecting h s) (hi : Inflight unsubscribes h s)
    (hg : conforming unsubscribes h s e) (hg' : resumesIntact h s e)
    (hs : step codec options s e = some s') (hc : s'.client = .connect caller t phase')
    (hsp : phase'.session = some sessionPresent) :
    byBlock ((s, e) :: h) = caller.isSome ∧
      (caller.isSome → sessionPresent → intact ((s, e) :: h)) := by
  -- nothing but an acceptance changes this
  have hold {phase : ConnectPhase} (h0 : s.client = .connect caller t phase)
      (hsp : phase.session = some sessionPresent) (hstart : startsOver e = false)
      (hjob : ofJob e = false) :
      byBlock ((s, e) :: h) = caller.isSome ∧
        (caller.isSome → sessionPresent → intact ((s, e) :: h)) := by
    obtain ⟨hb, hin⟩ := hre.accepted h0 hsp
    rw [byBlock_kept hstart]
    exact ⟨hb, fun hsome hpres => hre.intact_kept hi hg (hb.trans hsome) hjob (hin hsome hpres)⟩
  cases client_cases hs with
  | other he h0 =>
    obtain ⟨hstart, hjob⟩ := of_otherTask he
    exact hold (h0.symm.trans hc) hsp hstart hjob
  | started _ _ _ hc' | opened _ _ _ _ hc' =>
    cases hc'.symm.trans hc
    cases hsp
  | acknowledged _ _ sp he _ hc' =>
    subst he
    cases hc'.symm.trans hc
    cases hsp
    refine ⟨rfl, fun hsome hpres => ?_⟩
    subst hpres
    obtain ⟨cnt, rfl⟩ := Option.isSome_iff_exists.mp hsome
    exact hg'
  | statusSet _ _ _ he h0 hc' =>
    subst he
    cases hc'.symm.trans hc
    exact hold h0 hsp rfl rfl
  | refused _ _ _ _ hc' | callReturned _ _ _ _ hc' =>
    exact absurd (hc'.symm.trans hc) ClientTask.returned_ne_connect
  | answered _ _ _ hc' | connectReturned _ _ _ _ _ hc' =>
    exact absurd (hc'.symm.trans hc) ClientTask.connectReturned_ne_connect
  | reconnected _ _ _ _ _ hc' => rcases hc' with ⟨_, hc'⟩ | hc' <;> cases hc'.symm.trans hc
  | _ =>
    rename_i hc'
    cases hc'.symm.trans hc

theorem Reconnecting.returned_step (hre : Reconnecting h s) (hl : Lifecycle options s)
    (hreg : Registry codec s) (hi : Inflight unsubscribes h s)
    (hg : conforming unsubscribes h s e) (hs : step codec options s e = some s')
    (hc : s'.client = .awaitConnect cnt t) (hn : (s'.cell t).error = none) :
    byBlock ((s, e) :: h) ∧ ((s'.cell t).sessionPresent → intact ((s, e) :: h)) := by
  rcases awaitConnect_origin hl hreg hs hc hn with ⟨h0, hn₀, he⟩ | ⟨sp, rfl, h0⟩
  · obtain ⟨hb, hin⟩ := hre.returned h0 hn₀
    obtain ⟨hstart, hjob⟩ := of_otherTask he
    rw [byBlock_kept hstart]
    refine ⟨hb, fun hpres => hre.intact_kept hi hg hb hjob (hin ?_)⟩
    rwa [← (cell_step_keeps hs (hreg.client_lt (by rw [h0]; rfl))).sessionPresent]
    rintro caller t' rfl
    cases he
  · obtain ⟨hb, hin⟩ := hre.accepted h0 rfl
    refine ⟨hb, fun hpres => ?_⟩
    cases sp with
    | true => exact hin rfl rfl
    | false =>
      have hcell : s'.cell t = (s.cell t).flowComplete := by
        rw [cell_step hs (hreg.client_lt (by rw [h0]; rfl))]
        simp [cellAfter, cleansUp, touched]
      rw [hcell, InnerToken.flowComplete_sessionPresent, hre.fresh h0] at hpres
      cases hpres

theorem inJob_returned (frame : Frame) : inJob (.returned frame) = frame.job.isSome := by
  unfold ClientTask.returned
  cases frame.job <;> rfl

theorem inJob_connectReturned (caller : Caller) (t : TokenId) :
    inJob (.connectReturned caller t) = false := by
  cases caller <;> rfl

/-- How a job starts and goes on. -/
inductive JobStep (s : System) (e : Event) (s' : System) : Prop
  | other (he : ofClient e = false) (hc : s'.client = s.client)
  | started (cnt : UInt16) (t : TokenId) (he : e = .block (.reconnected cnt t))
    (hc : s.client = .awaitConnect cnt t) (hn : (s.cell t).error = none)
    (hc' : s'.client = .job .cleanUp)
  | cleanedUp (he : e = .block .jobCleanUp) (hc : s.client = .job .cleanUp)
    (hc' : s'.client = .job .clone)
  | cloned (he : e = .block .jobClone) (hc : s.client = .job .clone)
    (hc' : s'.client = .job (.clear s.state.subscriptions.toList))
  | cleared (subs : Job) (he : e = .block (.jobClear subs)) (hc : s.client = .job (.clear subs))
    (hc' : s'.client = .job (.next subs))
  | accepted (topic : String) (sub : Subscription) (rest : Job)
    (he : e = .call (.accepted (some rest) (.subscribe topic sub.qos sub.handler)))
    (hc : s.client = .job (.next ((topic, sub) :: rest)))
    (hc' : s'.client = .call ⟨some rest, .subscribe topic sub.qos sub.handler, s.state.tokens.next⟩
      .registering)
  | refused (topic : String) (sub : Subscription) (rest : Job)
    (he : e = .call (.refused (some rest) (.subscribe topic sub.qos sub.handler)))
    (hc : s.client = .job (.next ((topic, sub) :: rest)))
    (hc' : s'.client = .job (.awaiting s.state.tokens.next rest))
  | calling (frame : Frame) (phase phase' : Phase) (hjob : frame.job.isSome)
    (he : ∃ event, e = .call event) (hc : s.client = .call frame phase)
    (hc' : s'.client = .call frame phase')
  | returned (frame : Frame) (phase : Phase) (rest : Job) (hjob : frame.job = some rest)
    (hc : s.client = .call frame phase) (hc' : s'.client = .job (.awaiting frame.token rest))
    (he : e = .call (.exhausted frame) ∨
      (∃ pkid topics, e = .call (.invalid frame pkid topics)) ∨ e = .call (.returned frame))
  | awaited (t : TokenId) (rest : Job) (he : e = .block (.jobAwaited t rest))
    (hc : s.client = .job (.awaiting t rest)) (hd : (s.cell t).complete)
    (hc' : s'.client = .job (.next rest))

theorem returned_of_job {frame : Frame} (hj : frame.job = some rest) :
    ClientTask.returned frame = .job (.awaiting frame.token rest) := by
  simp [ClientTask.returned, hj]

theorem job_step (hs : step codec options s e = some s') (hj : inJob s'.client) :
    JobStep s e s' := by
  cases client_cases hs with
  | other he hc => exact .other he hc
  | accepted job call he hc hc' =>
    rw [hc'] at hj
    rcases ClientTask.calls_cases hc with ⟨_, rfl⟩ | ⟨topic, sub, rest, h0, rfl, rfl⟩
    · cases hj
    · exact .accepted topic sub rest he h0 hc'
  | refused job call he hc hc' =>
    rw [hc'] at hj
    rcases ClientTask.calls_cases hc with ⟨_, rfl⟩ | ⟨topic, sub, rest, h0, rfl, rfl⟩
    · cases hj
    · exact .refused topic sub rest he h0 hc'
  | calling frame phase phase' he hc hc' =>
    rw [hc'] at hj
    exact .calling frame phase phase' hj he hc hc'
  | callReturned frame phase he hc hc' =>
    rw [hc', inJob_returned] at hj
    obtain ⟨rest, hrest⟩ := Option.isSome_iff_exists.mp hj
    exact .returned frame phase rest hrest hc (hc'.trans (returned_of_job hrest)) he
  | answered _ _ _ hc' | connectReturned _ _ _ _ _ hc' =>
    rw [hc', inJob_connectReturned] at hj
    cases hj
  | reconnected cnt t he hc hn hc' =>
    rcases hc' with ⟨_, hc'⟩ | hc'
    · rw [hc'] at hj
      cases hj
    · exact .started cnt t he hc hn hc'
  | cleanedUp he hc hc' => exact .cleanedUp he hc hc'
  | cloned he hc hc' => exact .cloned he hc hc'
  | cleared subs he hc hc' => exact .cleared subs he hc hc'
  | awaited t rest he hc hd hc' => exact .awaited t rest he hc hd hc'
  | _ =>
    rename_i hc'
    rw [hc'] at hj
    cases hj

theorem Reconnecting.job_step (hre : Reconnecting h s) (hs : step codec options s e = some s')
    (hj : inJob s'.client) : byBlock ((s, e) :: h) := by
  have hold (hstart : startsOver e = false) (h0 : inJob s.client) : byBlock ((s, e) :: h) := by
    rw [byBlock_kept hstart]
    exact hre.job h0
  cases System.job_step hs hj with
  | other he hc => exact hold (of_otherTask he).1 (hc ▸ hj)
  | started cnt t he hc hn _ =>
    subst he
    exact (hre.returned hc hn).1
  | calling frame phase phase' hjob _ hc _ =>
    refine hold ?_ (by rwa [hc])
    cases hstart : startsOver e with
    | false => rfl
    | true =>
      unfold startsOver at hstart
      split at hstart
      · exact absurd hc (not_in_call hs (by simp))
      · simp only [step, stepCall, when_eq_some] at hs
        rcases ClientTask.calls_cases hs.1.1 with ⟨h, _⟩ | ⟨_, _, _, h, _⟩ <;>
          cases hc.symm.trans h
      · cases hstart
  | returned frame phase rest hjob hc _ he =>
    refine hold ?_ (by rw [hc, inJob, hjob]; rfl)
    rcases he with rfl | ⟨_, _, rfl⟩ | rfl <;> rfl
  | cleanedUp he hc | cloned he hc | cleared _ he hc | accepted _ _ _ he hc | refused _ _ _ he hc
  | awaited _ _ he hc =>
    subst he
    exact hold rfl (by rw [hc]; rfl)

theorem reconnecting_step (hre : Reconnecting h s) (hl : Lifecycle options s)
    (hreg : Registry codec s) (hj : Jobs codec s) (hi : Inflight unsubscribes h s)
    (hg : conforming unsubscribes h s e) (hg' : resumesIntact h s e)
    (hs : step codec options s e = some s') : Reconnecting ((s, e) :: h) s' where
  sent hb := hre.sent_step hreg hj hs hb
  calls hb hc := hre.calls_step hs hb hc
  fresh hc := hre.fresh_step hreg hs hc
  accepted hc hsp := hre.accepted_step hi hg hg' hs hc hsp
  returned hc hn := hre.returned_step hl hreg hi hg hs hc hn
  job hjob := hre.job_step hs hjob

theorem reconnecting_run
    (hr : Run codec options ((conforming unsubscribes).both resumesIntact) h s) :
    Reconnecting h s :=
  hr.invariant reconnecting_init fun hr hre hg hs => by
    obtain ⟨hg, hg'⟩ := Lts.Guard.both_eq_true.mp hg
    exact reconnecting_step hre (lifecycle hr) (registry hr) (jobs hr) (inflight_run hr.left) hg hg' hs

end System

end MesquitteClient
