import MesquitteClient.Healthy

/-!
# Resubscribing

The job of a reconnect without a session clears the trie and fills it again
from the map, one SUBACK at a time. When it is cut short the trie stays partial,
and a later reconnect with the session present leaves it so
(`partial_trie_resumed`). When sessions are resumed with an intact trie only,
every reconnect that `block` has handled leaves a trie with all that the map
has (`resubscribed`).
-/

namespace MesquitteClient

namespace System

variable {codec : Codec} {options : ClientOptions} {s s' : System} {e : Event}
variable {guard : Lts.Guard System Event} {h : Lts.History System Event}

/-- Every filter of the map has its subscription in the trie. -/
def Synced (s : System) : Prop :=
  ∀ topic sub, s.subscription topic = some sub → sub ∈ s.entries topic

/-- No SUBACK has returned `Failure` since the last job began. -/
def noneRefused : Lts.History System Event → Bool
  | [] => true
  | (_, .block (.jobClear _)) :: _ => true
  | (_, .reader (.received (.suback _ codes))) :: h => .failure ∉ codes && noneRefused h
  | _ :: h => noneRefused h

-- ---------------------------------------------------------------------------
-- Filling the trie
-- ---------------------------------------------------------------------------

/-- The call that a job makes for a filter of the map is on its way, or its
token has an error. -/
inductive Underway (h : Lts.History System Event) (s : System) (topic : String)
    (sub : Subscription) : Prop
  | calling (hc : s.client = .call frame phase)
    (hcall : frame.call = .subscribe topic sub.qos sub.handler)
  | failed (hc : s.client = .job (.awaiting t rest)) (herr : (s.cell t).error.isSome)
  | awaiting (hc : s.client = .job (.awaiting t rest)) (hi : issuedFrame t h = some frame)
    (hcall : frame.call = .subscribe topic sub.qos sub.handler) (hn : ¬ (s.cell t).complete)

/-- What a job has copied of the map, and what it has made of it. -/
structure Filling (h : Lts.History System Event) (s : System) : Prop where
  copied : s.client = .job (.clear subs) → s.subscription topic = some sub → (topic, sub) ∈ subs
  filled : afterClear s.client → jobFailed h = false → noneRefused h →
    s.subscription topic = some sub →
      sub ∈ s.entries topic ∨ (topic, sub) ∈ s.client.left ∨ Underway h s topic sub
  synced : intact h → noneRefused h → Synced s

theorem filling_init : Filling [] init where
  copied h := by simp [init] at h
  filled h := by cases h
  synced _ _ _ _ h := by simp [init, subscription, State.new] at h

/-- A SUBACK that the client accepts answers a packet in flight. -/
theorem stored_eq_nil (hi : Inflight subscribes h s) (hg : conforming subscribes h s (received packet))
    (hn : inflight subscribes h = []) : State.stored packet s.state = [] := by
  unfold State.stored
  split
  · rename_i k t hend
    have hkind : (s.cell t).kind = .subscribe := of_decide_eq_true (State.ended_eq_some.mp hend).2.2
    obtain ⟨o, ho, _⟩ := conforming_received hg hend (by rw [hkind]; rfl)
    have hin := hi.owed_subset ho
    rw [hn] at hin
    cases hin
  · rfl

theorem noneRefused_of_cons (hn : noneRefused ((s, e) :: h)) (he : ofJob e = false) :
    noneRefused h := by
  cases e with
  | block e =>
    cases e with
    | jobClear subs => cases he
    | _ => exact hn
  | reader e =>
    cases e with
    | received packet =>
      cases packet with
      | suback pkid codes => exact (Bool.and_eq_true_iff.mp hn).2
      | _ => exact hn
    | _ => exact hn
  | _ e => exact hn

theorem jobFailed_of_cons (hf : jobFailed ((s, e) :: h) = false) (he : ofJob e = false) :
    jobFailed h = false := by
  cases e with
  | block e =>
    cases e with
    | jobClear subs => cases he
    | jobAwaited t rest => exact (Bool.or_eq_false_iff.mp hf).2
    | _ => exact hf
  | _ e => exact hf

/-- What the map has for a filter is in the trie, or was in the map before. -/
theorem subscription_origin (hs : step codec options s e = some s')
    (hm : s'.subscription topic = some sub) :
    sub ∈ s'.entries topic ∨ s.subscription topic = some sub := by
  rw [subscription_step hs] at hm
  unfold subscriptionAfter at hm
  split at hm
  · rename_i packet
    rcases Option.or_eq_some_iff.mp hm with hlast | ⟨_, hold⟩
    · left
      have hin := List.mem_of_getLast? hlast
      rw [entries_step hs, entriesAfter]
      split
      · rename_i hr
        rw [stored_of_removed _ _ hr] at hin
        cases hin
      · exact List.mem_append_right _ hin
    · exact .inr hold
  · exact .inr hm

theorem Filling.copied_step (hf : Filling h s) (hi : Inflight subscribes h s)
    (hg : conforming subscribes h s e) (hs : step codec options s e = some s')
    (hc : s'.client = .job (.clear subs)) (hm : s'.subscription topic = some sub) :
    (topic, sub) ∈ subs := by
  cases job_step hs (by rw [hc]; rfl) with
  | other he hc' =>
    have h0 := hc' ▸ hc
    refine hf.copied h0 ?_
    rw [← subscription_kept hs, hm]
    cases e with
    | reader e =>
      cases e with
      | received packet =>
        have hnil := hi.connecting (by rw [h0]; rfl)
        simp [accepts, stored_eq_nil hi hg hnil]
      | _ => exact Bool.false_ne_true
    | _ e => exact Bool.false_ne_true
  | cloned he _ hc' =>
    subst he
    cases hc.symm.trans hc'
    rw [subscription_kept hs Bool.false_ne_true] at hm
    exact Std.TreeMap.mem_toList_iff_getElem?_eq_some.mpr hm
  | started _ _ _ _ _ hc' | cleanedUp _ _ hc' | cleared _ _ _ hc' | accepted _ _ _ _ _ hc'
  | refused _ _ _ _ _ hc' | calling _ _ _ _ _ _ hc' | returned _ _ _ _ _ hc' | awaited _ _ _ _ _ hc' =>
    cases hc.symm.trans hc'

theorem mem_entries_of_suback (hs : step codec options s (received (.suback k codes)) = some s')
    (hin : sub ∈ State.stored (.suback k codes) s.state) : sub ∈ s'.entries sub.topic := by
  rw [entries_step hs]
  simp [entriesAfter, State.removed, hin]

/-- The call for a filter stays underway until the filter is in the trie. -/
theorem Underway.kept (hw : Underway h s topic sub) (hr : Run codec options subacksInTime h s)
    (hg : subacksInTime h s e) (hs : step codec options s e = some s') (hc : s'.client = s.client)
    (ht : sub.topic = topic) (hn : noneRefused ((s, e) :: h)) :
    sub ∈ s'.entries topic ∨ Underway ((s, e) :: h) s' topic sub := by
  have hreg := registry hr
  have hf : Issued codec anyKind h s := issued_run hr
  cases hw with
  | calling hc₀ hcall => exact .inr (.calling (hc.trans hc₀) hcall)
  | @failed t rest hc₀ herr =>
    refine .inr (.failed (hc.trans hc₀) ?_)
    by_contra hno
    have hlt := hreg.client_lt (t := t) (by rw [hc₀]; rfl)
    simp [error_step hs hlt (by simpa using hno)] at herr
  | @awaiting t rest frame hc₀ hi hcall hd =>
    by_cases hd' : (s'.cell t).complete
    · by_cases herr : (s'.cell t).error.isSome
      · exact .inr (.failed (hc.trans hc₀) herr)
      · obtain ⟨k, codes, rfl, _, hend, hsub, hlen⟩ :=
          stored_of_completes hr (inflight_run hr.left) hg hs hi (by rw [hcall]; rfl) hd hd'
            (by simpa using herr)
        left
        have hsub' : (s.state.cell t).subscriptions = frame.call.subscriptions := hsub
        have hstored : State.stored (.suback k codes) s.state =
            State.accepted frame.call.subscriptions codes := by
          simp [State.stored, hend, hsub']
        rw [← ht]
        refine mem_entries_of_suback hs ?_
        rw [hstored, hcall]
        rw [hcall] at hlen
        obtain ⟨code, rfl⟩ := List.length_eq_one_iff.mp hlen
        have hcode : code ≠ .failure := by
          rintro rfl
          simp [noneRefused] at hn
        simp [State.accepted, Call.subscriptions, hcode, ← ht]
    · exact .inr (.awaiting (hc.trans hc₀) (hf.kept hi) hcall hd')

/-- A filter that a job has left is left, or its call is underway. -/
theorem left_kept (hs : step codec options s e = some s') (ha : afterClear s.client)
    (ha' : afterClear s'.client) (hl : (topic, sub) ∈ s.client.left) :
    (topic, sub) ∈ s'.client.left ∨ Underway ((s, e) :: h) s' topic sub := by
  cases job_step hs (inJob_of_afterCleanUp (afterCleanUp_of_afterClear ha')) with
  | other _ hc => exact .inl (hc ▸ hl)
  | accepted topic' sub' rest he hc hc' =>
    rw [hc] at hl
    rcases List.mem_cons.mp hl with heq | hl
    · cases heq
      exact .inr (.calling hc' rfl)
    · exact .inl (by rw [hc']; exact hl)
  | refused topic' sub' rest he hc hc' =>
    subst he
    rw [hc] at hl
    rcases List.mem_cons.mp hl with heq | hl
    · cases heq
      exact .inr (.failed hc' (by rw [cell_created hs rfl]; rfl))
    · exact .inl (by rw [hc']; exact hl)
  | calling frame _ _ _ _ hc hc' =>
    rw [hc] at hl
    exact .inl (by rw [hc']; exact hl)
  | returned frame _ rest hjob hc hc' _ =>
    rw [hc, ClientTask.left, hjob] at hl
    exact .inl (by rw [hc']; exact hl)
  | awaited _ _ _ hc _ hc' =>
    rw [hc] at hl
    exact .inl (by rw [hc']; exact hl)
  | started _ _ _ hc _ _ | cleanedUp _ hc _ | cloned _ hc _ | cleared _ _ hc _ =>
    rw [hc] at ha
    cases ha

/-- The call for a filter stays underway, while the tokens that the job awaits
have no error. -/
theorem Underway.step (hw : Underway h s topic sub) (hr : Run codec options subacksInTime h s)
    (hg : subacksInTime h s e) (hs : step codec options s e = some s') (ha' : afterClear s'.client)
    (ht : sub.topic = topic) (hj : jobFailed ((s, e) :: h) = false)
    (hn : noneRefused ((s, e) :: h)) :
    sub ∈ s'.entries topic ∨ Underway ((s, e) :: h) s' topic sub := by
  have hf : Issued codec anyKind h s := issued_run hr
  cases job_step hs (inJob_of_afterCleanUp (afterCleanUp_of_afterClear ha')) with
  | other _ hc => exact hw.kept hr hg hs hc ht hn
  | calling frame _ _ _ _ hc hc' =>
    cases hw with
    | calling hc₀ hcall =>
      cases hc.symm.trans hc₀
      exact .inr (.calling hc' hcall)
    | failed hc₀ | awaiting hc₀ => cases hc.symm.trans hc₀
  | returned frame phase rest hjob hc hc' he =>
    cases hw with
    | calling hc₀ hcall =>
      cases hc.symm.trans hc₀
      by_cases herr : (s'.cell frame.token).error.isSome
      · exact .inr (.failed hc' herr)
      · refine .inr (.awaiting hc' (hf.kept (hf.running hc)) hcall fun hd' => ?_)
        have hn' : (s'.cell frame.token).error = none := by simpa using herr
        have hk : frame.call.newToken.kind = .subscribe := by rw [hcall]; rfl
        by_cases hd : (s.cell frame.token).complete
        · have hsome := unanswered_run hr frame _ hc hk hd
          simp [error_step hs ((registry hr).frame_lt hc) hn'] at hsome
        · obtain ⟨_, _, he', _⟩ :=
            stored_of_completes hr (inflight_run hr.left) hg hs (hf.running hc) hk hd hd' hn'
          rcases he with rfl | ⟨_, _, rfl⟩ | rfl <;> cases he'
    | failed hc₀ | awaiting hc₀ => cases hc.symm.trans hc₀
  | awaited t rest he hc hd _ =>
    subst he
    cases hw with
    | calling hc₀ => cases hc.symm.trans hc₀
    | failed hc₀ herr =>
      cases hc.symm.trans hc₀
      simp [jobFailed, herr] at hj
    | awaiting hc₀ _ _ hno =>
      cases hc.symm.trans hc₀
      exact absurd hd hno
  | started _ _ _ hc _ _ | cleanedUp _ hc _ | cloned _ hc _ | cleared _ _ hc _
  | accepted _ _ _ _ hc _ | refused _ _ _ _ hc _ =>
    cases hw with
    | calling hc₀ | failed hc₀ | awaiting hc₀ => cases hc.symm.trans hc₀

theorem Filling.filled_step (hf : Filling h s) (hr : Run codec options subacksInTime h s)
    (hre : Reconnecting h s) (hi : Inflight unsubscribes h s) (hg : subacksInTime h s e)
    (hg' : conforming unsubscribes h s e) (hs : step codec options s e = some s')
    (ha' : afterClear s'.client) (hj : jobFailed ((s, e) :: h) = false)
    (hn : noneRefused ((s, e) :: h)) (hm : s'.subscription topic = some sub) :
    sub ∈ s'.entries topic ∨ (topic, sub) ∈ s'.client.left ∨
      Underway ((s, e) :: h) s' topic sub := by
  rcases subscription_origin hs hm with hin | hm₀
  · exact .inl hin
  rcases afterClear_origin hs ha' with ha | ⟨subs, rfl⟩
  · have he : ofJob e = false := by
      cases e with
      | block e =>
        cases e with
        | jobClear subs =>
          simp only [step, stepBlock, when_eq_some] at hs
          rw [hs.1] at ha
          cases ha
        | jobDone =>
          simp only [step, stepBlock, when_eq_some] at hs
          rw [← hs.2] at ha'
          cases ha'
        | _ => rfl
      | _ => rfl
    have hkeep (hin : sub ∈ s.entries topic) : sub ∈ s'.entries topic := by
      refine mem_entries_step hs hin ?_
      unfold unlists
      split
      · rename_i packet heq
        cases heq
        have hb := hre.job (inJob_of_afterCleanUp (afterCleanUp_of_afterClear ha))
        simp [removed_eq_nil hi hg' (hre.sent hb)]
      · rename_i heq
        cases heq
        cases he
      · exact Bool.false_ne_true
    rcases hf.filled ha (jobFailed_of_cons hj he) (noneRefused_of_cons hn he) hm₀ with
      hin | hleft | hway
    · exact .inl (hkeep hin)
    · exact .inr (left_kept hs ha ha' hleft)
    · rcases hway.step hr hg hs ha' ((jobs hr).map hm₀).1 hj hn with hin | hway
      · exact .inl hin
      · exact .inr (.inr hway)
  · simp only [step, stepBlock, when_eq_some] at hs
    obtain ⟨h0, rfl⟩ := hs
    exact .inr (.inl (hf.copied h0 hm₀))

theorem Filling.synced_step (hf : Filling h s) (hs : step codec options s e = some s')
    (hin : intact ((s, e) :: h)) (hn : noneRefused ((s, e) :: h)) : Synced s' := by
  intro topic sub hm
  rcases subscription_origin hs hm with hnew | hm₀
  · exact hnew
  have hold (hin : intact h) (he : ofJob e = false) (hno : ¬ unlists topic (s, e)) :
      sub ∈ s'.entries topic :=
    mem_entries_step hs (hf.synced hin (noneRefused_of_cons hn he) topic sub hm₀) hno
  cases e with
  | reader e =>
    cases e with
    | received packet =>
      obtain ⟨hall, hin⟩ := Bool.and_eq_true_iff.mp hin
      refine hold hin rfl fun hun => ?_
      have hnone := List.all_eq_true.mp hall topic (of_decide_eq_true hun)
      simp [hm₀] at hnone
    | _ => exact hold hin rfl Bool.false_ne_true
  | block e =>
    cases e with
    | jobClear subs => cases hin
    | jobDone =>
      have hc : s.client = .job (.next []) := by
        simp only [step, stepBlock, when_eq_some] at hs
        exact hs.1
      have hj : jobFailed h = false := by simpa [intact] using hin
      refine mem_entries_step hs ?_ Bool.false_ne_true
      rcases hf.filled (by rw [hc]; rfl) hj hn hm₀ with hmem | hleft | hway
      · exact hmem
      · rw [hc] at hleft
        cases hleft
      · cases hway with
        | calling h0 | failed h0 | awaiting h0 => cases hc.symm.trans h0
    | _ => exact hold hin rfl Bool.false_ne_true
  | _ e => exact hold hin rfl Bool.false_ne_true

theorem filling_run (hr : Run codec options (answersSubscriptions.both resumesIntact) h s) :
    Filling h s :=
  hr.invariant filling_init fun {h s e s'} hr hf hg hs => by
    have hre := reconnecting_run (Run.unsubscribing hr)
    have hi : Inflight unsubscribes h s := inflight_run hr.left.right
    have hi' : Inflight subscribes h s := inflight_run hr.left.left.left
    obtain ⟨hg, hg'⟩ := Lts.Guard.both_eq_true.mp (Lts.Guard.both_eq_true.mp hg).1
    exact {
      copied := fun hc hm => hf.copied_step hi' (Lts.Guard.both_eq_true.mp hg).1 hs hc hm
      filled := fun ha hj hn hm => hf.filled_step hr.left.left hre hi hg hg' hs ha hj hn hm
      synced := fun hin hn => hf.synced_step hs hin hn }

-- ---------------------------------------------------------------------------
-- After a reconnect
-- ---------------------------------------------------------------------------

/-- In every run in which the server answers what it has received, no SUBACK is
handled before its call's `add_subscriptions`, and a session is resumed with
an intact trie only: when `block` has handled a reconnect, the connection is up
and no SUBACK returned `Failure`, the trie has every subscription of the map. -/
theorem resubscribed (hr : Run codec options (answersSubscriptions.both resumesIntact) h s)
    (hc : s.client = .block cnt) (hb : byBlock h) (hu : Up s) (hn : noneRefused h) : Synced s :=
  (filling_run hr).synced ((healthy_run hr).settled hu hb (.inr hc)) hn

/-- A reconnect without a session, with its job. -/
theorem resubscribed_once : ∃ h s,
    Run acceptingCodec reconnectingOptions (answersSubscriptions.both resumesIntact) h s ∧
      s.subscription "a" = some ⟨"a", .level1, 7⟩ ∧ Synced s := by
  obtain ⟨h, s, hr, ht⟩ := Lts.exists_run (step acceptingCodec reconnectingOptions)
    (answersSubscriptions.both resumesIntact) init
    (connecting none 0 false ++ connected none 0 false ++ subscribing "a" 7 1 2 ++
      [.block .started] ++ closing ++ reconnecting 2 false ++ resubscribing "a" 7 3 3 ++
      [.block (.jobAwaited 3 []), .block .jobDone])
    (fun h s => s.client = .block 0 && byBlock h && s.conn.reader ≠ .ended &&
      s.conn.writer ≠ .ended && noneRefused h && s.subscription "a" = some ⟨"a", .level1, 7⟩)
    (by decide +kernel)
  simp only [Bool.and_eq_true, decide_eq_true_eq] at ht
  obtain ⟨⟨⟨⟨⟨hc, hb⟩, hrd⟩, hw⟩, hn⟩, hm⟩ := ht
  exact ⟨h, s, hr, hm, resubscribed hr hc hb ⟨hrd, hw⟩ hn⟩

/-- The job of a reconnect is cut short after its `clear`; the next reconnect
finds the session of the CONNACK before it. -/
theorem partial_trie_resumed : ¬ ∀ h s cnt,
    Run acceptingCodec reconnectingOptions answersSubscriptions h s →
    s.client = .block cnt → byBlock h → Up s → noneRefused h → Synced s := by
  let call : Call := .subscribe "a" .level1 7
  obtain ⟨h, s, hr, ht⟩ := Lts.exists_run (step acceptingCodec reconnectingOptions)
    answersSubscriptions init
    (connecting none 0 false ++ connected none 0 false ++ subscribing "a" 7 1 2 ++
      [.block .started] ++ closing ++ reconnecting 2 false ++
      [.block .jobCleanUp, .block .jobClone, .block (.jobClear [("a", ⟨"a", .level1, 7⟩)])] ++
      closing ++ [.call (.refused (some []) call), .block (.jobAwaited 3 []), .block .jobDone] ++
      reconnecting 4 true)
    (fun h s => s.client = .block 0 && byBlock h && s.conn.reader ≠ .ended &&
      s.conn.writer ≠ .ended && noneRefused h && s.subscription "a" = some ⟨"a", .level1, 7⟩ &&
      s.entries "a" = [])
    (by decide +kernel)
  simp only [Bool.and_eq_true, decide_eq_true_eq] at ht
  obtain ⟨⟨⟨⟨⟨⟨hc, hb⟩, hrd⟩, hw⟩, hn⟩, hm⟩, he⟩ := ht
  intro hall
  have := hall h s 0 hr hc hb ⟨hrd, hw⟩ hn "a" _ hm
  rw [he] at this
  cases this

end System

end MesquitteClient
