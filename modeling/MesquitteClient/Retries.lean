import MesquitteClient.SystemLaws
import MesquitteClient.Lifecycle

/-!
# The reconnect budget of `block`

`block` counts its reconnect attempts in `cnt`: up before an attempt, back to 0
after one that succeeds, compared with `max_connect_retry_times` at the top of
its loop. Here the attempts and the failures are counted by the history, and
`cnt` is the first count modulo 2^16. With a limit that is no difference;
without one, 65535 failures in a row bring `cnt` to its maximum and the next
attempt overflows it (`retries_overflow`).
-/

namespace MesquitteClient

/-- The counter of `block`, while the client task is in `block`. -/
def ClientTask.cnt : ClientTask → Option UInt16
  | .block cnt | .reconnect cnt | .awaitConnect cnt _ => some cnt
  | .connect caller _ _ => caller
  | .job _ => some 0
  | .call frame _ => frame.job.map fun _ => 0
  | _ => none

/-- `block` is in a reconnect attempt. -/
def ClientTask.trying : ClientTask → Bool
  | .reconnect _ | .awaitConnect .. => true
  | .connect caller _ _ => caller.isSome
  | _ => false

theorem ClientTask.counter_calls {client : ClientTask} {job : Option Job} {call : Call}
    (hc : client.calls job call) :
    client.cnt = job.map (fun _ => 0) ∧ client.trying = false := by
  rcases calls_cases hc with ⟨rfl, rfl⟩ | ⟨_, _, _, rfl, rfl, _⟩ <;> exact ⟨rfl, rfl⟩

theorem ClientTask.counter_returned (frame : Frame) :
    (returned frame).cnt = frame.job.map (fun _ => 0) ∧ (returned frame).trying = false := by
  unfold returned
  cases frame.job <;> exact ⟨rfl, rfl⟩

theorem ClientTask.counter_connects {client : ClientTask} {caller : Caller}
    (hc : client.connects caller) :
    client.cnt = caller ∧ client.trying = caller.isSome := by
  rcases connects_cases hc with ⟨rfl, rfl⟩ | ⟨_, rfl, rfl⟩ <;> exact ⟨rfl, rfl⟩

theorem ClientTask.counter_connectReturned (caller : Caller) (t : TokenId) :
    (connectReturned caller t).cnt = caller ∧
      (connectReturned caller t).trying = caller.isSome := by
  cases caller <;> exact ⟨rfl, rfl⟩

namespace System

variable {codec : Codec} {options : ClientOptions} {s s' : System} {e : Event}
variable {guard : Lts.Guard System Event} {h : Lts.History System Event}

/-- `block` is called, or reconnects. -/
def freshBudget : Event → Bool
  | .block .started | .block (.reconnected ..) => true
  | _ => false

def beginsTry : Event → Bool
  | .block (.notified _) => true
  | _ => false

def failsTry : Event → Bool
  | .block (.reconnectFailed ..) => true
  | _ => false

/-- What has been done since `block` was called or last reconnected. -/
def outage (h : Lts.History System Event) : Lts.History System Event :=
  Lts.since freshBudget h

/-- The reconnect attempts since then. -/
def tries (h : Lts.History System Event) : Nat := (outage h).countP fun x => beginsTry x.2

/-- Those of them that have failed. -/
def failures (h : Lts.History System Event) : Nat := (outage h).countP fun x => failsTry x.2

/-- `cnt += 1` never goes past the maximum of a `u16`. -/
def NoOverflow (h : Lts.History System Event) : Prop :=
  ∀ s cnt, (s, .block (.notified cnt)) ∈ h → cnt.toNat + 1 < 65536

-- ---------------------------------------------------------------------------
-- The counter and the counts
-- ---------------------------------------------------------------------------

theorem counts_of_fresh (he : freshBudget e) :
    tries ((s, e) :: h) = 0 ∧ failures ((s, e) :: h) = 0 := by
  rw [tries, failures, outage, Lts.since_of_pos he]
  exact ⟨rfl, rfl⟩

theorem counts_cons (he : freshBudget e = false) :
    tries ((s, e) :: h) = tries h + (if beginsTry e then 1 else 0) ∧
      failures ((s, e) :: h) = failures h + (if failsTry e then 1 else 0) := by
  simp [tries, failures, outage, Lts.since_of_neg he, List.countP_cons]

theorem counts_other (he : freshBudget e = false) (hb : beginsTry e = false)
    (hf : failsTry e = false) :
    tries ((s, e) :: h) = tries h ∧ failures ((s, e) :: h) = failures h := by
  simpa [hb, hf] using counts_cons (s := s) (h := h) he

/-- A step of a call, of `connect` or of another task leaves the counter. -/
theorem counter_step (hs : step codec options s e = some s') (he : ∀ e', e ≠ .block e') :
    s'.client = .panicked ∨
      s'.client.cnt = s.client.cnt ∧ s'.client.trying = s.client.trying := by
  cases client_cases hs with
  | other _ hc => exact .inr (by rw [hc]; exact ⟨rfl, rfl⟩)
  | panicked _ _ _ _ hc' => exact .inl hc'
  | calling _ _ _ _ hc hc' | opened _ _ _ hc hc' | acknowledged _ _ _ _ hc hc'
  | statusSet _ _ _ _ hc hc' =>
    right
    rw [hc, hc']
    exact ⟨rfl, rfl⟩
  | accepted _ _ _ hc hc' =>
    right
    obtain ⟨hcnt, htry⟩ := ClientTask.counter_calls hc
    rw [hc', hcnt, htry]
    exact ⟨rfl, rfl⟩
  | refused job call _ hc hc' =>
    right
    obtain ⟨hcnt, htry⟩ := ClientTask.counter_calls hc
    rw [hc', hcnt, htry]
    exact ClientTask.counter_returned ⟨job, call, s.state.tokens.next⟩
  | callReturned frame _ _ hc hc' =>
    right
    rw [hc, hc']
    exact ClientTask.counter_returned frame
  | started _ _ hc hc' =>
    right
    obtain ⟨hcnt, htry⟩ := ClientTask.counter_connects hc
    rw [hc', hcnt, htry]
    exact ⟨rfl, rfl⟩
  | answered caller _ hc hc' =>
    right
    obtain ⟨hcnt, htry⟩ := ClientTask.counter_connects hc
    rw [hc', hcnt, htry]
    exact ClientTask.counter_connectReturned caller s.state.tokens.next
  | connectReturned caller t _ _ hc hc' =>
    right
    rw [hc, hc']
    exact ClientTask.counter_connectReturned caller t
  | blockReturned _ heq _ _ => rcases heq with heq | heq <;> exact absurd heq (he _)
  | blockStarted heq _ _ | slept _ heq _ _ | notified _ heq _ _ _ | reconnectFailed _ _ heq _ _ _
  | reconnected _ _ heq _ _ _ | cleanedUp heq _ _ | cloned heq _ _ | cleared _ heq _ _
  | awaited _ _ heq _ _ _ | done heq _ _ =>
    exact absurd heq (he _)

/-- While the client is in `block`, `cnt` is the number of attempts modulo
2^16, and all but the one under way have failed. -/
structure Counting (options : ClientOptions) (h : Lts.History System Event) (s : System) :
    Prop where
  counted : s.client.cnt = some cnt → cnt.toNat = tries h % 65536
  failed : s.client.cnt.isSome → tries h = failures h + if s.client.trying then 1 else 0
  tries_le : options.maxConnectRetryTimes = some m → tries h ≤ m.toNat

theorem counting_init : Counting options [] init where
  counted h := by cases h
  failed h := by cases h
  tries_le _ := Nat.zero_le _

theorem counting_fresh (he : freshBudget e) (hc : s'.client.cnt = some 0)
    (ht : s'.client.trying = false) : Counting options ((s, e) :: h) s' := by
  obtain ⟨htries, hfailures⟩ := counts_of_fresh (s := s) (h := h) he
  refine ⟨fun hc' => ?_, fun _ => ?_, fun _ => ?_⟩
  · rw [htries]
    cases hc.symm.trans hc'
    rfl
  · rw [htries, hfailures, ht]
    rfl
  · rw [htries]
    exact Nat.zero_le _

/-- A step that the counts and the counter know nothing of. -/
theorem Counting.other (hk : Counting options h s) (he : freshBudget e = false)
    (hb : beginsTry e = false) (hf : failsTry e = false)
    (hc : s'.client.cnt.isSome → s'.client.cnt = s.client.cnt ∧
      s'.client.trying = s.client.trying) : Counting options ((s, e) :: h) s' := by
  obtain ⟨htries, hfailures⟩ := counts_other (s := s) (h := h) he hb hf
  refine ⟨fun hc' => ?_, fun hsome => ?_, fun hm => ?_⟩
  · rw [htries]
    exact hk.counted ((hc (by rw [hc']; rfl)).1.symm.trans hc')
  · obtain ⟨hcnt, htry⟩ := hc hsome
    rw [htries, hfailures, htry]
    exact hk.failed (hcnt ▸ hsome)
  · rw [htries]
    exact hk.tries_le hm

/-- Below the limit, or without one, the counter counts. -/
theorem Counting.lt_of_not_exhausted (hk : Counting options h s)
    (hc : s.client.cnt = some cnt) (hn : ¬ retriesExhausted options cnt)
    (hm : options.maxConnectRetryTimes = some m) : tries h < m.toNat := by
  have hle := hk.tries_le hm
  have hcnt := hk.counted hc
  have hlt := m.toNat_lt
  have hbelow : cnt.toNat < m.toNat := by
    simpa [retriesExhausted, hm, UInt16.le_iff_toNat_le] using hn
  omega

/-- In `select!` the counter is the number of failures. -/
theorem Counting.block (hk : Counting options h s) (hc : s.client = .block cnt) :
    tries h = failures h ∧ cnt.toNat = failures h % 65536 := by
  have htries : tries h = failures h := by
    have hf := hk.failed (by rw [hc]; rfl)
    rw [hc] at hf
    exact hf
  exact ⟨htries, htries ▸ hk.counted (by rw [hc]; rfl)⟩

theorem Counting.notified (hk : Counting options h s) (hc : s.client = .block cnt)
    (hn : ¬ retriesExhausted options cnt) (hc' : s'.client = .reconnect (cnt + 1)) :
    Counting options ((s, .block (.notified cnt)) :: h) s' := by
  obtain ⟨htries, hfailures⟩ := counts_cons (s := s) (h := h) (e := .block (.notified cnt)) rfl
  obtain ⟨hall, hmod⟩ := hk.block hc
  refine ⟨fun hcnt => ?_, fun _ => ?_, fun hm => ?_⟩
  · rw [hc'] at hcnt
    cases hcnt
    rw [htries, hall, UInt16.toNat_add, hmod]
    exact Nat.mod_add_mod ..
  · rw [htries, hfailures, hall, hc']
    rfl
  · rw [htries]
    exact hk.lt_of_not_exhausted (by rw [hc]; rfl) hn hm

theorem Counting.reconnectFailed (hk : Counting options h s)
    (hc : s.client = .awaitConnect cnt t) (hc' : s'.client = .block cnt) :
    Counting options ((s, .block (.reconnectFailed cnt t)) :: h) s' := by
  obtain ⟨htries, hfailures⟩ :=
    counts_cons (s := s) (h := h) (e := .block (.reconnectFailed cnt t)) rfl
  have hall : tries h = failures h + 1 := by
    have hf := hk.failed (by rw [hc]; rfl)
    rw [hc] at hf
    exact hf
  refine ⟨fun hcnt => ?_, fun _ => ?_, fun hm => ?_⟩
  · rw [hc'] at hcnt
    rw [htries]
    exact hk.counted (by rw [hc]; exact hcnt)
  · rw [htries, hfailures, hall, hc']
    rfl
  · rw [htries]
    exact hk.tries_le hm

theorem counting_step (hk : Counting options h s) (hs : step codec options s e = some s') :
    Counting options ((s, e) :: h) s' := by
  cases e with
  | block e =>
    cases e with
    | started =>
      simp only [step, stepBlock, when_eq_some] at hs
      obtain ⟨_, rfl⟩ := hs
      exact counting_fresh rfl rfl rfl
    | reconnected cnt t =>
      simp only [step, stepBlock, when_eq_some] at hs
      obtain ⟨_, rfl⟩ := hs
      cases (s.cell t).sessionPresent <;> exact counting_fresh rfl rfl rfl
    | notified cnt =>
      simp only [step, stepBlock, when_eq_some] at hs
      obtain ⟨⟨hc, hn, _⟩, rfl⟩ := hs
      exact hk.notified hc hn rfl
    | reconnectFailed cnt t =>
      simp only [step, stepBlock, when_eq_some] at hs
      obtain ⟨⟨hc, _⟩, rfl⟩ := hs
      exact hk.reconnectFailed hc rfl
    | slept cnt =>
      simp only [step, stepBlock, when_eq_some] at hs
      obtain ⟨_, rfl⟩ := hs
      refine hk.other rfl rfl rfl fun hsome => ?_
      rcases s.afterSleep_client options with h | h
      · rw [h]
        exact ⟨rfl, rfl⟩
      · rw [h] at hsome
        cases hsome
    | exhausted cnt =>
      simp only [step, stepBlock, when_eq_some] at hs
      obtain ⟨_, rfl⟩ := hs
      exact hk.other rfl rfl rfl fun h => by cases h
    | jobCleanUp | jobClone | jobDone =>
      simp only [step, stepBlock, when_eq_some] at hs
      obtain ⟨hc, rfl⟩ := hs
      refine hk.other rfl rfl rfl fun _ => ?_
      rw [hc]
      exact ⟨rfl, rfl⟩
    | jobClear subs =>
      simp only [step, stepBlock, when_eq_some] at hs
      obtain ⟨hc, rfl⟩ := hs
      refine hk.other rfl rfl rfl fun _ => ?_
      rw [hc]
      exact ⟨rfl, rfl⟩
    | jobAwaited t rest =>
      simp only [step, stepBlock, when_eq_some] at hs
      obtain ⟨⟨hc, _⟩, rfl⟩ := hs
      refine hk.other rfl rfl rfl fun _ => ?_
      rw [hc]
      exact ⟨rfl, rfl⟩
  | _ e =>
    refine hk.other rfl rfl rfl fun hsome => ?_
    rcases counter_step hs (by simp) with h | h
    · rw [h] at hsome
      cases hsome
    · exact h

theorem counting (hr : Run codec options guard h s) : Counting options h s :=
  hr.invariant (P := Counting options) counting_init fun _ hk _ hs => counting_step hk hs

-- ---------------------------------------------------------------------------
-- The budget
-- ---------------------------------------------------------------------------

/-- What `max_connect_retry_times` promises: `block` returns for exhaustion, and
does nothing else, exactly when as many attempts in a row have failed; no more
than these are made; without a limit it never returns for exhaustion. And the
counter has not overflowed. -/
structure Budget (codec : Codec) (options : ClientOptions) (h : Lts.History System Event)
    (s : System) : Prop where
  exhausts : options.maxConnectRetryTimes = some m → s.client = .block cnt →
    ((step codec options s (.block (.exhausted cnt))).isSome ↔ failures h = m.toNat)
  returns : options.maxConnectRetryTimes = some m → s.client = .block cnt →
    failures h = m.toNat → ∀ e, ofClient e → (step codec options s e).isSome →
      e = .block (.exhausted cnt)
  tries_le : options.maxConnectRetryTimes = some m → tries h ≤ m.toNat
  unlimited : options.maxConnectRetryTimes = none →
    step codec options s (.block (.exhausted cnt)) = none
  noOverflow : NoOverflow h

/-- No attempt is begun when 65535 in a row have failed. -/
def FewFailures (h : Lts.History System Event) : Prop :=
  ∀ later s cnt h₁, h = later ++ (s, .block (.notified cnt)) :: h₁ → failures h₁ < 65535

/-- The limit is reached when that many attempts have failed. -/
theorem Counting.exhausted_iff (hk : Counting options h s) (hc : s.client = .block cnt)
    (hm : options.maxConnectRetryTimes = some m) :
    retriesExhausted options cnt ↔ failures h = m.toNat := by
  obtain ⟨htries, hcnt⟩ := hk.block hc
  have hle := hk.tries_le hm
  have hlt := m.toNat_lt
  simp only [retriesExhausted, hm, decide_eq_true_eq, UInt16.le_iff_toNat_le]
  omega

/-- In `select!` with the limit reached, `block` can only return. -/
theorem only_exhausted (hc : s.client = .block cnt) (hx : retriesExhausted options cnt)
    (he : ofClient e) (hs : (step codec options s e).isSome) : e = .block (.exhausted cnt) := by
  obtain ⟨s', hs⟩ := Option.isSome_iff_exists.mp hs
  cases client_cases hs with
  | other ho _ => cases he.symm.trans ho
  | blockReturned cnt' heq h0 _ =>
    cases hc.symm.trans h0
    rcases heq with rfl | rfl
    · rfl
    · simp only [step, stepBlock, when_eq_some] at hs
      exact absurd hx hs.1.2.1
  | slept cnt' heq h0 _ =>
    cases hc.symm.trans h0
    subst heq
    simp only [step, stepBlock, when_eq_some] at hs
    exact absurd hx hs.1.2.1
  | notified cnt' _ h0 hn _ =>
    cases hc.symm.trans h0
    exact absurd hx hn
  | accepted _ _ _ hcalls _ | refused _ _ _ hcalls _ =>
    rcases ClientTask.calls_cases hcalls with ⟨h0, _⟩ | ⟨_, _, _, h0, _⟩ <;>
      cases hc.symm.trans h0
  | started _ _ hcon _ | answered _ _ hcon _ =>
    rcases ClientTask.connects_cases hcon with ⟨h0, _⟩ | ⟨_, h0, _⟩ <;> cases hc.symm.trans h0
  | reconnectFailed _ _ _ h0 _ _ | reconnected _ _ _ h0 _ _ | awaited _ _ _ h0 _ _ =>
    cases hc.symm.trans h0
  | _ =>
    rename_i h0 _
    cases hc.symm.trans h0

/-- As long as the counter does not overflow, it is the number of attempts. -/
theorem tries_le_of_noOverflow (hr : Run codec options guard h s) (hn : NoOverflow h) :
    tries h ≤ 65535 := by
  induction hr with
  | nil => exact Nat.zero_le _
  | @snoc h s e s' hr _ hs ih =>
    have hle := ih fun s cnt hm => hn s cnt (List.mem_cons_of_mem _ hm)
    cases hf : freshBudget e with
    | true =>
      rw [(counts_of_fresh hf).1]
      exact Nat.zero_le _
    | false =>
      rw [(counts_cons hf).1]
      cases hb : beginsTry e with
      | false => exact hle
      | true =>
        obtain ⟨cnt, rfl⟩ : ∃ cnt, e = .block (.notified cnt) := by
          unfold beginsTry at hb
          split at hb
          · exact ⟨_, rfl⟩
          · cases hb
        simp only [step, stepBlock, when_eq_some] at hs
        have hmax := hn s cnt List.mem_cons_self
        have hcnt : cnt.toNat = tries h % 65536 := (counting hr).counted (by rw [hs.1.1]; rfl)
        simp only [if_true]
        omega

theorem noOverflow_iff (hr : Run codec options guard h s) :
    NoOverflow h ↔ options.maxConnectRetryTimes.isSome ∨ FewFailures h := by
  -- an attempt, with the run up to it
  have hbegun {later s₁ cnt h₁} (heq : h = later ++ (s₁, .block (.notified cnt)) :: h₁) :
      ∃ s₂, Run codec options guard ((s₁, .block (.notified cnt)) :: h₁) s₂ ∧
        cnt.toNat = failures h₁ % 65536 ∧
        tries ((s₁, .block (.notified cnt)) :: h₁) = failures h₁ + 1 := by
    rw [heq] at hr
    obtain ⟨hr₁, _, s₂, hs, hr₂⟩ := hr.split
    simp only [step, stepBlock, when_eq_some] at hs
    obtain ⟨htries, hcnt⟩ := (counting hr₁).block hs.1.1
    exact ⟨s₂, hr₂, hcnt, by rw [(counts_cons rfl).1, htries]; rfl⟩
  constructor
  · intro hn
    right
    rintro later s₁ cnt h₁ heq
    obtain ⟨s₂, hr₂, _, htries⟩ := hbegun heq
    have hle := tries_le_of_noOverflow hr₂ fun s cnt hm =>
      hn s cnt (heq ▸ List.mem_append_right later hm)
    omega
  · rintro hor s₁ cnt hm
    obtain ⟨later, h₁, heq⟩ := List.append_of_mem hm
    obtain ⟨s₂, hr₂, hcnt, htries⟩ := hbegun heq
    rcases hor with hsome | hfew
    · obtain ⟨m, hmax⟩ := Option.isSome_iff_exists.mp hsome
      have hle := (counting hr₂).tries_le hmax
      have hlt := m.toNat_lt
      omega
    · have hfails := hfew later s₁ cnt h₁ heq
      omega

/-- The budget of `block` is exact on a run exactly when there is a limit or no
attempt is begun after 65535 failures in a row. -/
theorem budget_iff (hr : Run codec options guard h s) :
    Budget codec options h s ↔ options.maxConnectRetryTimes.isSome ∨ FewFailures h := by
  refine ⟨fun hb => (noOverflow_iff hr).mp hb.noOverflow, fun hor => ?_⟩
  have hk := counting hr
  exact {
    exhausts := fun hm hc => by
      rw [← hk.exhausted_iff hc hm]
      simp [step, stepBlock, when, hc]
    returns := fun hm hc hf _ => only_exhausted hc ((hk.exhausted_iff hc hm).mpr hf)
    tries_le := hk.tries_le
    unlimited := fun hm => by simp [step, stepBlock, when, retriesExhausted, hm]
    noOverflow := (noOverflow_iff hr).mpr hor }

-- ---------------------------------------------------------------------------
-- A very long outage
-- ---------------------------------------------------------------------------

/-- `block` waits in `select!` for its connection to come back. -/
structure Waits (cnt : UInt16) (s : System) : Prop where
  client : s.client = .block cnt
  connectStatus : s.connectStatus = .disconnected
  manualDisconnect : s.manualDisconnect = false
  supervisor : s.conn.supervisor = .finished

theorem Waits.fails (hw : Waits cnt s)
    (hr : Run acceptingCodec reconnectingOptions Lts.anything h s) :
    ∃ h' s', Run acceptingCodec reconnectingOptions Lts.anything h' s' ∧ Waits (cnt + 1) s' := by
  obtain ⟨hc, hst, hman, hsup⟩ := hw
  have hlock : ¬ s.statusLocked := by simp [statusLocked, hsup]
  let s₁ : System := { s with notify := true }
  let s₂ : System := { s₁ with notify := false, client := .reconnect (cnt + 1) }
  let t := s.state.tokens.next
  let s₃ : System :=
    { s₂.alloc .connect with
      connectStatus := .connecting
      client := .connect (some (cnt + 1)) t .transport }
  let s₄ : System :=
    { s₃.modifyToken t (·.setError .connectTimeout) with
      connectStatus := .disconnected
      client := .awaitConnect (cnt + 1) t }
  let s₅ : System := { s₄ with client := .block (cnt + 1) }
  have hslept : step acceptingCodec reconnectingOptions s (.block (.slept cnt)) = some s₁ := by
    simp [step, stepBlock, when, hc, retriesExhausted, hlock, afterSleep, hst, hman,
      reconnectingOptions, ClientOptions.new, s₁]
  have hnotified : step acceptingCodec reconnectingOptions s₁ (.block (.notified cnt)) =
      some s₂ := by
    simp [step, stepBlock, when, hc, retriesExhausted, reconnectingOptions, ClientOptions.new, s₁,
      s₂]
  have hstarted : step acceptingCodec reconnectingOptions s₂
      (.connect (.started (some (cnt + 1)))) = some s₃ := by
    rw [step, stepConnect, when_eq_some]
    exact ⟨⟨by simp [ClientTask.connects, s₂], hlock, hst⟩, rfl⟩
  have hfailed : step acceptingCodec reconnectingOptions s₃
      (.connect (.transportFailed (some (cnt + 1)) t .connectTimeout)) = some s₄ := by
    rw [step, stepConnect, when_eq_some]
    exact ⟨⟨rfl, hlock⟩, rfl⟩
  have hcell : s₄.cell t = (s₃.cell t).setError .connectTimeout :=
    s₃.state.cell_modifyToken_self
  have hreturned : step acceptingCodec reconnectingOptions s₄
      (.block (.reconnectFailed (cnt + 1) t)) = some s₅ := by
    rw [step, stepBlock, when_eq_some]
    exact ⟨⟨rfl, by rw [hcell]; rfl, by rw [hcell]; rfl⟩, rfl⟩
  exact ⟨_, s₅, ((((hr.snoc rfl hslept).snoc rfl hnotified).snoc rfl hstarted).snoc rfl
    hfailed).snoc rfl hreturned, rfl, rfl, hman, hsup⟩

theorem waits_after (n : Nat) : ∃ h s,
    Run acceptingCodec reconnectingOptions Lts.anything h s ∧ Waits (UInt16.ofNat n) s := by
  induction n with
  | zero => exact ⟨_, _, Lts.Run.nil.snoc (e := .block .started) rfl rfl, rfl, rfl, rfl, rfl⟩
  | succ n ih =>
    obtain ⟨h, s, hr, hw⟩ := ih
    rw [UInt16.ofNat_add]
    exact hw.fails hr

/-- The attempt after 65535 that failed. -/
theorem retries_overflow : ¬ ∀ h s, Run acceptingCodec reconnectingOptions Lts.anything h s →
    Budget acceptingCodec reconnectingOptions h s := by
  obtain ⟨h, s, hr, hw⟩ := waits_after 65535
  have hslept : step acceptingCodec reconnectingOptions s (.block (.slept 65535)) =
      some { s with notify := true } := by
    simp [step, stepBlock, when, hw.client, retriesExhausted, statusLocked, hw.supervisor,
      afterSleep, hw.connectStatus, hw.manualDisconnect, reconnectingOptions, ClientOptions.new]
  have hnotified : step acceptingCodec reconnectingOptions { s with notify := true }
      (.block (.notified 65535)) =
        some { s with notify := false, client := .reconnect (65535 + 1) } := by
    simp [step, stepBlock, when, hw.client, retriesExhausted, reconnectingOptions,
      ClientOptions.new]
  intro hall
  have hb := hall _ _ ((hr.snoc rfl hslept).snoc rfl hnotified)
  exact absurd (hb.noOverflow _ _ List.mem_cons_self) (by decide)

def retryingOnce : ClientOptions := { reconnectingOptions with maxConnectRetryTimes := some 1 }

theorem budget_once : ∃ h s, Run acceptingCodec retryingOnce Lts.anything h s ∧
    s.client = .block 1 ∧ failures h = 1 ∧ Budget acceptingCodec retryingOnce h s := by
  obtain ⟨h, s, hr, ht⟩ := Lts.exists_run (step acceptingCodec retryingOnce) Lts.anything init
    [.block .started, .block (.slept 0), .block (.notified 0), .connect (.started (some 1)),
      .connect (.transportFailed (some 1) 0 .connectTimeout), .block (.reconnectFailed 1 0)]
    (fun h s => s.client = .block 1 && failures h = 1) (by decide +kernel)
  simp only [Bool.and_eq_true, decide_eq_true_eq] at ht
  exact ⟨h, s, hr, ht.1, ht.2, (budget_iff hr).mpr (.inl rfl)⟩

end System

end MesquitteClient
