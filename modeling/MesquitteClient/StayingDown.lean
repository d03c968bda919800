import MesquitteClient.Disconnecting
import MesquitteClient.Registry
import MesquitteClient.Retries

/-!
# After disconnect()

`disconnect` raises a flag that only a completed `connect` takes back, and
`block` looks at it before it asks for a reconnect. So every attempt that
`block` makes was wanted (`attempt_wanted`), and after a `disconnect` there is
none until the application calls `connect` itself (`down_until_connect`). The
other side of it: a `block` entered after a `disconnect` never returns, also
with `auto_reconnect` off (`block_idles`).
-/

namespace MesquitteClient

namespace System

variable {codec : Codec} {options : ClientOptions} {guard : Lts.Guard System Event}
variable {s s' : System} {e : Event} {h : Lts.History System Event}

def manualAfter (s : System) : Event → Bool
  | .call (.built frame _ _) => s.manualDisconnect || frame.call = .disconnect
  | .connect (.returned ..) => false
  | _ => s.manualDisconnect

def notifyAfter (options : ClientOptions) (s : System) : Event → Bool
  | .block (.slept _) => (afterSleep options s).notify
  | .block (.notified _) => false
  | _ => s.notify

theorem flags_step (hs : step codec options s e = some s') :
    s'.manualDisconnect = manualAfter s e ∧ s'.notify = notifyAfter options s e := by
  cases e with
  | call e =>
    cases e <;> simp only [step, stepCall, when_eq_some] at hs <;> obtain ⟨_, rfl⟩ := hs <;>
      exact ⟨rfl, rfl⟩
  | connect e =>
    cases e <;> simp only [step, stepConnect, when_eq_some] at hs <;> obtain ⟨_, rfl⟩ := hs <;>
      exact ⟨rfl, rfl⟩
  | block e =>
    cases e with
    | slept cnt =>
      simp only [step, stepBlock, when_eq_some] at hs
      obtain ⟨_, rfl⟩ := hs
      exact ⟨by rw [afterSleep_eq]; rfl, rfl⟩
    | _ =>
      simp only [step, stepBlock, when_eq_some] at hs
      obtain ⟨_, rfl⟩ := hs
      exact ⟨rfl, rfl⟩
  | writer e =>
    cases e with
    | outgoingWritten outgoing | outgoingFailed outgoing err =>
      simp only [step, stepWriter, when_eq_some] at hs
      obtain ⟨_, rfl⟩ := hs
      obtain ⟨packet, _ | t⟩ := outgoing <;> exact ⟨rfl, rfl⟩
    | _ =>
      simp only [step, stepWriter, when_eq_some] at hs
      obtain ⟨_, rfl⟩ := hs
      exact ⟨rfl, rfl⟩
  | runtime e =>
    cases e with
    | handlerRan task =>
      simp only [step, stepRuntime, when_eq_some] at hs
      obtain ⟨_, rfl⟩ := hs
      exact ⟨rfl, rfl⟩
    | _ =>
      simp only [step, stepRuntime, Option.some.injEq] at hs
      obtain rfl := hs
      exact ⟨rfl, rfl⟩
  | reader e =>
    cases e <;> simp only [step, stepReader, when_eq_some] at hs <;> obtain ⟨_, rfl⟩ := hs <;>
      exact ⟨rfl, rfl⟩
  | keepAlive e =>
    cases e <;> simp only [step, stepKeepAlive, when_eq_some] at hs <;> obtain ⟨_, rfl⟩ := hs <;>
      exact ⟨rfl, rfl⟩
  | supervisor e =>
    cases e <;> simp only [step, stepSupervisor, when_eq_some] at hs <;> obtain ⟨_, rfl⟩ := hs <;>
      exact ⟨rfl, rfl⟩

theorem afterSleep_notify (hn : (afterSleep options s).notify) :
    s.notify ∨ s.manualDisconnect = false := by
  unfold afterSleep at hn
  split at hn
  · exact .inl hn
  · split at hn
    · exact .inl hn
    · rename_i hm
      exact .inr (Bool.eq_false_iff.mpr hm)
  · exact .inl hn

-- ---------------------------------------------------------------------------
-- Attempts are wanted
-- ---------------------------------------------------------------------------

/-- What `block` asks for and goes for. -/
structure Wanted (options : ClientOptions) (s : System) : Prop where
  notify : s.notify → s.manualDisconnect = false
  trying : s.client.trying → s.manualDisconnect = false ∧ options.autoReconnect

theorem wanted_init : Wanted options init where
  notify h := by cases h
  trying h := by cases h

/-- Only a call of `disconnect` raises the flag. -/
theorem manual_kept (hs : step codec options s e = some s') (hm : s.manualDisconnect = false)
    (hc : ∀ frame phase, s.client ≠ .call frame phase) : s'.manualDisconnect = false := by
  rw [(flags_step hs).1]
  cases e with
  | call e =>
    cases e with
    | built frame pkid packet =>
      simp only [step, stepCall, when_eq_some] at hs
      exact absurd hs.1.1 (hc _ _)
    | _ => exact hm
  | connect e => cases e <;> first | rfl | exact hm
  | _ e => exact hm

theorem notify_origin (hs : step codec options s e = some s') (hn : s'.notify) :
    (∃ cnt, s.client = .block cnt ∧ e = .block (.slept cnt)) ∧
      (s.notify ∨ s.manualDisconnect = false) ∨ s.notify := by
  rw [(flags_step hs).2] at hn
  unfold notifyAfter at hn
  split at hn
  · rename_i cnt
    simp only [step, stepBlock, when_eq_some] at hs
    exact .inl ⟨⟨cnt, hs.1.1, rfl⟩, afterSleep_notify hn⟩
  · cases hn
  · exact .inr hn

theorem trying_origin (hs : step codec options s e = some s') (ht : s'.client.trying) :
    s.client.trying ∨ ∃ cnt, e = .block (.notified cnt) ∧ s.notify := by
  by_cases hb : ∃ e', e = .block e'
  · obtain ⟨e, rfl⟩ := hb
    cases e with
    | notified cnt =>
      simp only [step, stepBlock, when_eq_some] at hs
      exact .inr ⟨cnt, rfl, hs.1.2.2⟩
    | slept cnt =>
      simp only [step, stepBlock, when_eq_some] at hs
      obtain ⟨⟨hc, _⟩, rfl⟩ := hs
      rcases afterSleep_client options s with h | h
      · exact .inl (h ▸ ht)
      · rw [h] at ht
        cases ht
    | reconnected cnt t =>
      simp only [step, stepBlock, when_eq_some] at hs
      obtain ⟨_, rfl⟩ := hs
      split at ht <;> cases ht
    | _ =>
      simp only [step, stepBlock, when_eq_some] at hs
      obtain ⟨_, rfl⟩ := hs
      cases ht
  · rcases counter_step hs fun e' he => hb ⟨e', he⟩ with h | ⟨_, h⟩
    · rw [h] at ht
      cases ht
    · exact .inl (h ▸ ht)

theorem trying_not_call (ht : s.client.trying) : s.client ≠ .call frame phase := by
  intro hc
  rw [hc] at ht
  cases ht

theorem wanted_step (hw : Wanted options s) (hl : Lifecycle options s)
    (hs : step codec options s e = some s') : Wanted options s' where
  notify hn := by
    rcases notify_origin hs hn with ⟨⟨cnt, hc, _⟩, hm⟩ | hn
    · exact manual_kept hs (hm.elim hw.notify id) (by simp [hc])
    · obtain ⟨⟨cnt, hc, _⟩, _⟩ := hl.notified hn
      exact manual_kept hs (hw.notify hn) (by simp [hc])
  trying ht := by
    rcases trying_origin hs ht with ht | ⟨cnt, _, hn⟩
    · exact ⟨manual_kept hs (hw.trying ht).1 fun _ _ => trying_not_call ht, (hw.trying ht).2⟩
    · obtain ⟨⟨cnt, hc, _⟩, hauto, _⟩ := hl.notified hn
      exact ⟨manual_kept hs (hw.notify hn) (by simp [hc]), hauto⟩

theorem wanted_run (hr : Run codec options guard h s) : Wanted options s :=
  hr.invariant (P := fun _ s => Wanted options s) wanted_init
    fun hr hw _ hs => wanted_step hw (lifecycle hr) hs

/-- For every run: when `block` goes for a reconnect, and until its `connect`
has returned, `auto_reconnect` is on and no `disconnect` stands against it; it
goes for it only when there is no connection. -/
theorem attempt_wanted (hr : Run codec options guard h s) (ht : s.client.trying) :
    options.autoReconnect ∧ s.manualDisconnect = false ∧
      ∀ cnt s', step codec options s (.connect (.started (some cnt))) = some s' →
        s.connectStatus = .disconnected ∧ s.conn.supervisor = .finished ∧
          s.conn.reader = .ended ∧ s.conn.writer = .ended := by
  obtain ⟨hm, hauto⟩ := (wanted_run hr).trying ht
  have hl := lifecycle hr
  refine ⟨hauto, hm, fun cnt s' hs => ?_⟩
  simp only [step, stepConnect, when_eq_some] at hs
  rcases ClientTask.connects_cases hs.1.1 with ⟨_, hc⟩ | ⟨cnt', hc, _⟩
  · cases hc
  · obtain ⟨hst, hf⟩ := hl.reconnecting hc
    exact ⟨hst, hf, hl.ended (by simp [hf])⟩

theorem attempt_wanted_lost : ∃ h s, Run acceptingCodec reconnectingOptions Lts.anything h s ∧
    s.client.trying ∧ reconnectingOptions.autoReconnect ∧ s.manualDisconnect = false := by
  obtain ⟨h, s, hr, ht⟩ := Lts.exists_run (step acceptingCodec reconnectingOptions) Lts.anything init
    (connecting none 0 false ++ connected none 0 false ++ closing ++
      [.block .started, .block (.slept 0), .block (.notified 0)])
    (fun _ s => s.client.trying) (by decide +kernel)
  obtain ⟨hauto, hm, _⟩ := attempt_wanted hr ht
  exact ⟨h, s, hr, ht, hauto, hm⟩

-- ---------------------------------------------------------------------------
-- After a disconnect
-- ---------------------------------------------------------------------------

/-- The application calls `connect`, and it goes for a connection. -/
def asksConnect : Event → Bool
  | .connect (.started none) => true
  | _ => false

/-- The flag is up, and nothing is on its way that would take it back. -/
structure Down (s : System) : Prop where
  manual : s.manualDisconnect
  client : s.client ≠ .connect caller t phase

theorem Down.notTrying (hd : Down s) (hw : Wanted options s) : ¬ s.client.trying := by
  intro ht
  have hm := (hw.trying ht).1
  rw [hd.manual] at hm
  cases hm

theorem down_step (hd : Down s) (hw : Wanted options s) (hn : asksConnect e = false)
    (hs : step codec options s e = some s') :
    Down s' ∧ ∀ caller, e ≠ .connect (.started caller) := by
  have hnot (caller : Caller) : e ≠ .connect (.started caller) := by
    rintro rfl
    simp only [step, stepConnect, when_eq_some] at hs
    rcases ClientTask.connects_cases hs.1.1 with ⟨_, rfl⟩ | ⟨cnt, hc, rfl⟩
    · cases hn
    · exact hd.notTrying hw (by rw [hc]; rfl)
  refine ⟨⟨?_, fun hc => ?_⟩, hnot⟩
  · rw [(flags_step hs).1]
    cases e with
    | call e => cases e <;> simp [manualAfter, hd.manual]
    | connect e =>
      cases e with
      | returned caller t sp =>
        simp only [step, stepConnect, when_eq_some] at hs
        exact absurd hs.1 hd.client
      | _ => exact hd.manual
    | _ e => exact hd.manual
  · rcases connect_origin hs hc with ⟨phase, hc⟩ | ⟨he, _⟩
    · exact hd.client hc
    · exact hnot _ he

/-- For every run: after a `disconnect` neither the application nor `block`
goes for a connection until the application calls `connect`, and the flag stays
up. -/
theorem down_until_connect (later : Lts.History System Event)
    (hr : Run codec options guard
      (later ++ (s₁, .call (.built frame pkid .disconnect)) :: before) s)
    (hn : later.all fun x => !asksConnect x.2) :
    Down s ∧ ∀ x ∈ later, ∀ caller, x.2 ≠ .connect (.started caller) := by
  induction later generalizing s with
  | nil =>
    refine ⟨?_, fun x hx => by cases hx⟩
    cases hr with
    | snoc hr _ hs =>
      have hmanual := (flags_step hs).1
      simp only [step, stepCall, when_eq_some] at hs
      obtain ⟨⟨hc, hp⟩, rfl⟩ := hs
      have hcall : frame.call = .disconnect := by
        cases hk : frame.call <;> simp [Call.packet, hk] at hp ⊢
      exact ⟨by rw [hmanual, manualAfter, hcall]; simp, by simp⟩
  | cons x later ih =>
    simp only [List.all_cons, Bool.and_eq_true, Bool.not_eq_true'] at hn
    cases hr with
    | @snoc _ s₂ e _ hr _ hs =>
      obtain ⟨hd, hlater⟩ := ih hr hn.2
      obtain ⟨hd', he⟩ := down_step hd (wanted_run hr) hn.1 hs
      refine ⟨hd', fun x hx => ?_⟩
      rcases List.mem_cons.mp hx with rfl | hx
      · exact he
      · exact hlater x hx

/-- A connection, a `disconnect`, and the connection closed by the server. -/
def leaving : List Event :=
  connecting none 0 false ++ connected none 0 false ++ disconnecting 1 ++ closing

/-- `block` does not reconnect after the `disconnect`, with `auto_reconnect`
on. -/
theorem down_until_connect_leaving : ∃ later s₁ before s,
    Run acceptingCodec reconnectingOptions Lts.anything
      (later ++ (s₁, .call (.built ⟨none, .disconnect, 1⟩ none .disconnect)) :: before) s ∧
    later.length = 9 ∧ s.conn.supervisor = .finished ∧ Down s := by
  obtain ⟨h, s, hr, ht⟩ := Lts.exists_run (step acceptingCodec reconnectingOptions) Lts.anything init
    (leaving ++ [.block .started, .block (.slept 0)])
    (fun h s => (h.drop 9).head?.any (fun x =>
        x.2 = .call (.built ⟨none, .disconnect, 1⟩ none .disconnect)) &&
      (h.take 9).all (fun x => !asksConnect x.2) && (h.take 9).length = 9 &&
      s.conn.supervisor = .finished)
    (by decide +kernel)
  simp only [Bool.and_eq_true, decide_eq_true_eq] at ht
  obtain ⟨⟨⟨hx, hn⟩, hlen⟩, hf⟩ := ht
  obtain ⟨⟨s₁, e⟩, hx, he⟩ := (Option.any_eq_true _ _).mp hx
  obtain rfl := of_decide_eq_true he
  obtain ⟨before, hb⟩ := List.head?_eq_some_iff.mp hx
  have hr' : Run acceptingCodec reconnectingOptions Lts.anything
      (h.take 9 ++ (s₁, .call (.built ⟨none, .disconnect, 1⟩ none .disconnect)) :: before) s := by
    rw [← hb, List.take_append_drop]
    exact hr
  exact ⟨h.take 9, s₁, before, s, hr', hlen, hf, (down_until_connect _ hr' hn).1⟩

/-- In the `select!` of `block`, with nothing to wake up for. -/
structure Idling (options : ClientOptions) (cnt : UInt16) (s : System) : Prop where
  client : s.client = .block cnt
  manual : s.manualDisconnect
  notify : s.notify = false
  retries : ¬ retriesExhausted options cnt

theorem only_block (hs : step codec options s e = some s') (hc : s.client = .block cnt)
    (he : ofClient e) : ∃ e', e = .block e' := by
  have hcalls (job : Option Job) (call : Call) : (ClientTask.block cnt).calls job call = false := rfl
  have hconnects (caller : Caller) : (ClientTask.block cnt).connects caller = false := by
    cases caller <;> rfl
  cases e with
  | call e => cases e <;> simp [step, stepCall, when, hcalls, hc] at hs
  | connect e => cases e <;> simp [step, stepConnect, when, hconnects, hc] at hs
  | block e => exact ⟨e, rfl⟩
  | _ e => cases he

/-- All the client task can do is to sleep on. -/
theorem Idling.only (hd : Idling options cnt s) (hs : step codec options s e = some s')
    (he : ofClient e) : e = .block (.slept cnt) := by
  obtain ⟨e, rfl⟩ := only_block hs hd.client he
  cases e with
  | slept cnt' =>
    simp only [step, stepBlock, when_eq_some] at hs
    cases hd.client.symm.trans hs.1.1
    rfl
  | exhausted cnt' =>
    simp only [step, stepBlock, when_eq_some] at hs
    cases hd.client.symm.trans hs.1.1
    exact absurd hs.1.2 hd.retries
  | _ => simp [step, stepBlock, when, hd.client, hd.notify] at hs

theorem Idling.slept (hd : Idling options cnt s)
    (hs : step codec options s (.block (.slept cnt)) = some s') : s' = s := by
  simp only [step, stepBlock, when_eq_some] at hs
  rw [← hs.2]
  unfold afterSleep
  split
  · rfl
  · rw [if_pos hd.manual]
  · rfl

theorem Idling.kept (hd : Idling options cnt s) (hs : step codec options s e = some s') :
    Idling options cnt s' := by
  cases he : ofClient e with
  | false =>
    obtain ⟨hmanual, hnotify⟩ := flags_step hs
    refine ⟨(client_step hs he).trans hd.client, ?_, ?_, hd.retries⟩
    · rw [hmanual]
      cases e with
      | call e | connect e | block e => cases he
      | _ e => exact hd.manual
    · rw [hnotify]
      cases e with
      | call e | connect e | block e => cases he
      | _ e => exact hd.notify
  | true =>
    obtain rfl := hd.only hs he
    rw [hd.slept hs]
    exact hd

/-- For every run that gets into the `select!` of `block` with the flag of
`disconnect` up and attempts left: `block` never leaves it again, whatever the
rest of the client and the server do, and whatever `auto_reconnect` says. -/
theorem block_idles (hr₀ : Run codec options guard₀ h₀ s₀) (hc : s₀.client = .block cnt)
    (hm : s₀.manualDisconnect) (hx : ¬ retriesExhausted options cnt)
    (hr : Lts.Run (step codec options) guard s₀ h s) :
    s.client = .block cnt ∧ ∀ x ∈ h, ofClient x.2 → x.2 = .block (.slept cnt) := by
  have hn : s₀.notify = false := by
    refine Bool.eq_false_iff.mpr fun hn => ?_
    have hm' := (wanted_run hr₀).notify hn
    rw [hm] at hm'
    cases hm'
  have hidle : Idling options cnt s ∧ ∀ x ∈ h, ofClient x.2 → x.2 = .block (.slept cnt) := by
    refine hr.invariant (P := fun h s => Idling options cnt s ∧
      ∀ x ∈ h, ofClient x.2 → x.2 = .block (.slept cnt)) ⟨⟨hc, hm, hn, hx⟩, by simp⟩ ?_
    rintro h s e s' - ⟨hd, hall⟩ - hs
    refine ⟨hd.kept hs, fun x hx he => ?_⟩
    rcases List.mem_cons.mp hx with rfl | hx
    · exact hd.only hs he
    · exact hall x hx he
  exact ⟨hidle.1.client, hidle.2⟩

/-- `block` entered after a `disconnect`, with `auto_reconnect` off. -/
theorem block_idles_leaving : ∃ h₀ s₀ h s, Run acceptingCodec .new Lts.anything h₀ s₀ ∧
    s₀.connectStatus = .disconnected ∧ s₀.manualDisconnect ∧
    Lts.Run (step acceptingCodec .new) Lts.anything s₀ h s ∧ s.client = .block 0 := by
  obtain ⟨h₀, s₀, hr₀, ht⟩ := Lts.exists_run (step acceptingCodec .new) Lts.anything init
    (leaving ++ [.block .started])
    (fun _ s => s.connectStatus = .disconnected && s.manualDisconnect && s.client = .block 0)
    (by decide +kernel)
  simp only [Bool.and_eq_true, decide_eq_true_eq] at ht
  obtain ⟨⟨hst, hm⟩, hc⟩ := ht
  exact ⟨h₀, s₀, [], s₀, hr₀, hst, hm, .nil,
    (block_idles hr₀ hc hm (by decide) (.nil : Lts.Run _ Lts.anything s₀ [] s₀)).1⟩

end System

end MesquitteClient
