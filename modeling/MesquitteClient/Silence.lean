import MesquitteClient.KeepAlive

/-!
# How long the client is silent

If the keep-alive loop resumes at its wake times and takes no time while it is
awake, waiting for room included, and a PINGREQ that it has queued, or something
else, is written within some delay, then the client is never silent for longer
than the interval and that delay (`silence_le`). Its silence counts from the
last packet or, before there is one, from the CONNACK. With half an interval for
the delay the client keeps within one and a half times the interval that CONNECT
announced (`silence_announced`).
-/

namespace MesquitteClient

namespace System

variable {codec : Codec} {options : ClientOptions} {guard : Lts.Guard System Event}
variable {s s' : System} {e : Event} {h : Lts.History System Event} {delay : Duration}

/-- Something is written no later than this after a PINGREQ is queued. -/
def writesWithin (delay : Duration) : Lts.Guard System Event := fun h s e =>
  match e with
  | .runtime (.elapsed duration) =>
    (Lts.since sends h).all fun x =>
      x.2 ≠ .keepAlive .pinged || s.state.now + duration ≤ x.1.state.now + delay
  | _ => true

-- ---------------------------------------------------------------------------
-- The loop runs while the write loop does
-- ---------------------------------------------------------------------------

structure Stopping (s : System) : Prop where
  exit : s.conn.exit → s.conn.supervisor = .exitSet ∨ s.conn.supervisor = .finished
  loop : s.conn.keepAlive = .ended → s.conn.exit

theorem stopping_init : Stopping init where
  exit _ := .inr rfl
  loop _ := rfl

theorem stopping_step (hst : Stopping s) (hs : step codec options s e = some s') :
    Stopping s' := by
  have hkept (hexit : s'.conn.exit = s.conn.exit)
      (hsup : s'.conn.supervisor = s.conn.supervisor)
      (hloop : s'.conn.keepAlive = .ended → s.conn.keepAlive = .ended ∨ s.conn.exit) :
      Stopping s' := by
    refine ⟨fun h => ?_, fun h => ?_⟩
    · rw [hsup]
      exact hst.exit (hexit ▸ h)
    · rw [hexit]
      exact (hloop h).elim hst.loop id
  have hconn := conn_step hs
  cases e with
  | connect e =>
    cases e with
    | accepted caller t sp =>
      refine ⟨fun h => ?_, fun h => ?_⟩ <;> rw [hconn] at h <;> cases h
    | _ => exact hkept (by rw [hconn]; rfl) (by rw [hconn]; rfl) fun h => .inl (by rwa [hconn] at h)
  | supervisor e =>
    cases e with
    | joined =>
      simp only [step, stepSupervisor, when_eq_some] at hs
      refine ⟨fun h => ?_, fun h => ?_⟩
      · rw [hconn] at h
        rcases hst.exit h with h | h <;> cases hs.1.1.symm.trans h
      · rw [hconn] at h ⊢
        exact hst.loop h
    | exitStored =>
      refine ⟨fun _ => .inl ?_, fun _ => ?_⟩ <;> rw [hconn] <;> rfl
    | cleanedUp =>
      refine ⟨fun _ => .inr ?_, fun h => ?_⟩
      · rw [hconn]
        rfl
      · rw [hconn] at h ⊢
        exact hst.loop h
  | keepAlive e =>
    cases e with
    | checked =>
      refine hkept (by rw [hconn]; rfl) (by rw [hconn]; rfl) fun h => .inr ?_
      rw [hconn] at h
      simp only [connAfter] at h
      split at h
      · assumption
      · split at h <;> cases h
    | _ =>
      refine hkept (by rw [hconn]; rfl) (by rw [hconn]; rfl) fun h => ?_
      rw [hconn] at h
      cases h
  | call e | reader e | writer e | block e | runtime e =>
    cases e <;> exact hkept (by rw [hconn]; rfl) (by rw [hconn]; rfl)
      fun h => .inl (by rwa [hconn] at h)

/-- The keep-alive loop does not end before the write loop. -/
theorem loop_running (hr : Run codec options guard h s) (hw : s.conn.writer ≠ .ended) :
    s.conn.keepAlive ≠ .ended := by
  have hst : Stopping s := hr.invariant (P := fun _ s => Stopping s) stopping_init
    fun _ hst _ hs => stopping_step hst hs
  intro hk
  refine hw ((lifecycle hr).ended ?_).2
  rcases hst.exit (hst.loop hk) with h | h <;> simp [h]

-- ---------------------------------------------------------------------------
-- The bound
-- ---------------------------------------------------------------------------

/-- Within the interval, with the loop about to wake in it; or a PINGREQ was
queued in it, not long ago. -/
def Heard (options : ClientOptions) (delay : Duration) (h : Lts.History System Event)
    (s : System) : Prop :=
  (s.state.now ≤ s.state.lastSentPacketAt + options.keepAlive ∧
    ∀ wake, s.wakeAt options = some wake →
      wake ≤ s.state.lastSentPacketAt + options.keepAlive) ∨
  ∃ x ∈ Lts.since sends h, x.2 = .keepAlive .pinged ∧
    x.1.state.now ≤ s.state.lastSentPacketAt + options.keepAlive ∧
    s.state.now ≤ x.1.state.now + delay

theorem Heard.of_sent (ht : Timed options h' s) (hsent : s.state.lastSentPacketAt = s.state.now) :
    Heard options delay h s :=
  .inl ⟨by rw [hsent]; exact Nat.le_add_right _ _,
    fun wake hk => by rw [hsent]; exact (ht.waking hk).1⟩

/-- A step that neither writes nor takes time. -/
theorem Heard.kept (hh : Heard options delay h s) (hs : step codec options s e = some s')
    (hn : sends e = false) (he : elapsedIn e = 0)
    (hk : ∀ wake, s'.wakeAt options = some wake → s.wakeAt options = some wake ∨
      wake ≤ s.state.lastSentPacketAt + options.keepAlive) :
    Heard options delay ((s, e) :: h) s' := by
  obtain ⟨hnow, hsent⟩ := clock_step hs
  rw [hn, if_neg Bool.false_ne_true] at hsent
  rw [he, Nat.add_zero] at hnow
  rw [Heard, hnow, hsent, Lts.since_of_neg hn]
  rcases hh with ⟨hle, hwake⟩ | ⟨x, hx, hping⟩
  · exact .inl ⟨hle, fun wake h => (hk wake h).elim (hwake wake) id⟩
  · exact .inr ⟨x, List.mem_cons_of_mem _ hx, hping⟩

/-- Time passes. -/
theorem Heard.elapsed (hh : Heard options delay h s)
    (hg : wakesInTime h s (.runtime (.elapsed duration)))
    (hg' : writesWithin delay h s (.runtime (.elapsed duration)))
    (hrun : s.conn.keepAlive ≠ .ended)
    (hs : step codec options s (.runtime (.elapsed duration)) = some s') :
    Heard options delay ((s, .runtime (.elapsed duration)) :: h) s' := by
  obtain ⟨hnow, hsent⟩ := clock_step hs
  have hwakeAt := wakeAt_other hg hs (congrArg Connection.keepAlive (conn_step hs))
  have hn : sends (.runtime (.elapsed duration)) = false := rfl
  rw [hn, if_neg Bool.false_ne_true] at hsent
  rw [Heard, hnow, hsent, hwakeAt, Lts.since_of_neg hn]
  rcases hh with ⟨_, hwake⟩ | ⟨x, hx, hping, hle, _⟩
  · left
    refine ⟨?_, hwake⟩
    cases hk : s.conn.keepAlive with
    | sleeping wake =>
      simp only [wakesInTime, hk, decide_eq_true_eq] at hg
      exact Nat.le_trans hg (hwake wake (by rw [wakeAt, hk]))
    | ended => exact absurd hk hrun
    | _ => simp [wakesInTime, hk] at hg
  · right
    have hall := List.all_eq_true.mp hg' x hx
    simp only [hping, ne_eq, not_true_eq_false, decide_false, Bool.false_or,
      decide_eq_true_eq] at hall
    exact ⟨x, List.mem_cons_of_mem _ hx, hping, hle, hall⟩

theorem heard_step (hh : s.conn.writer ≠ .ended → Heard options delay h s)
    (hr : Run codec options wakesInTime h s) (hg : wakesInTime h s e)
    (hg' : writesWithin delay h s e) (hs : step codec options s e = some s')
    (hw : s'.conn.writer ≠ .ended) : Heard options delay ((s, e) :: h) s' := by
  have ht := timed_step (timed hr) hg hs
  by_cases hn : sends e
  · refine Heard.of_sent ht ?_
    obtain ⟨hnow, hsent⟩ := clock_step hs
    have he : elapsedIn e = 0 := by
      cases e with
      | runtime e => cases hn
      | _ e => rfl
    rw [hsent, if_pos hn, hnow, he, Nat.add_zero]
  have hn := Bool.eq_false_iff.mpr hn
  have ho : opens e = false := (Bool.or_eq_false_iff.mp hn).1
  cases loop_cases hs with
  | other he _ hk hwriter =>
    have hw₀ : s.conn.writer ≠ .ended := fun h => hw (hwriter h)
    have hh := hh hw₀
    have hsame := wakeAt_other hg hs hk
    cases e with
    | runtime e =>
      cases e with
      | elapsed duration => exact hh.elapsed hg hg' (loop_running hr hw₀) hs
      | _ => exact hh.kept hs hn rfl fun wake h => .inl (hsame ▸ h)
    | _ e => exact hh.kept hs hn rfl fun wake h => .inl (hsame ▸ h)
  | opened ho' => exact absurd ho' (by simp [ho])
  | pinged he hk =>
    subst he
    have hw₀ : s.conn.writer ≠ .ended := by rwa [conn_step hs] at hw
    obtain ⟨hnow, hsent⟩ := clock_step hs
    rw [hn, if_neg Bool.false_ne_true] at hsent
    rw [Heard, hnow, hsent, Lts.since_of_neg hn]
    right
    rcases hh hw₀ with ⟨hle, _⟩ | ⟨x, hx, hping⟩
    · exact ⟨_, List.mem_cons_self, rfl, hle, Nat.le_add_right _ _⟩
    · exact ⟨x, List.mem_cons_of_mem _ hx, hping⟩
  | pingFailed _ hw' => exact absurd hw' hw
  | remaining he hd hk =>
    subst he
    have hw₀ : s.conn.writer ≠ .ended := by rwa [conn_step hs] at hw
    refine (hh hw₀).kept hs hn rfl fun wake h => .inr (Nat.le_of_eq ?_)
    rw [wakeAt, hk, now_step hs] at h
    exact (Option.some.inj h).symm.trans (remaining_ends (timed hr).sent hd)
  | slept he hk hwake =>
    have hw₀ : s.conn.writer ≠ .ended := by
      rcases he with rfl | ⟨_, rfl⟩ <;> rwa [conn_step hs] at hw
    have he₀ : elapsedIn e = 0 := by rcases he with rfl | ⟨_, rfl⟩ <;> rfl
    refine (hh hw₀).kept hs hn he₀ fun wake h => .inl ?_
    rw [wakeAt, hk] at h
    exact hwake.trans h
  | ended he hk | due he _ hk | woke _ he hk =>
    subst he
    have hw₀ : s.conn.writer ≠ .ended := by rwa [conn_step hs] at hw
    refine (hh hw₀).kept hs hn rfl fun wake h => ?_
    rw [wakeAt, hk] at h
    cases h

theorem heard_run (hr : Run codec options (wakesInTime.both (writesWithin delay)) h s) :
    s.conn.writer ≠ .ended → Heard options delay h s := by
  refine hr.invariant (P := fun h s => s.conn.writer ≠ .ended → Heard options delay h s)
    (fun hw => absurd rfl hw) ?_
  intro h s e s' hr hh hg hs
  obtain ⟨hg, hg'⟩ := Lts.Guard.both_eq_true.mp hg
  exact heard_step hh hr.left hg hg' hs

theorem Heard.now_le (hh : Heard options delay h s) :
    s.state.now ≤ s.state.lastSentPacketAt + options.keepAlive + delay := by
  rcases hh with ⟨hle, _⟩ | ⟨x, _, _, hle, hnow⟩
  · exact Nat.le_trans hle (Nat.le_add_right _ _)
  · exact Nat.le_trans hnow (Nat.add_le_add_right hle _)

/-- For every run in which the loop wakes in time and a queued PINGREQ does not
stay unwritten for longer than the delay: while the write loop runs, the last
packet, or the CONNACK if there is none yet, is no longer ago than the interval
and the delay. -/
theorem silence_le (hr : Run codec options (wakesInTime.both (writesWithin delay)) h s)
    (hw : s.conn.writer ≠ .ended) :
    s.state.now ≤ s.state.lastSentPacketAt + options.keepAlive + delay :=
  (heard_run hr hw).now_le

/-- A PINGREQ that is written two seconds after it is due, and a second loop. -/
def pingingLate : List Event :=
  pinging ++ [.runtime (.elapsed (.fromSecs 2)), .writer (.outgoingTaken ⟨.pingreq, none⟩),
    .writer (.outgoingWritten ⟨.pingreq, none⟩), .runtime (.elapsed (.fromSecs 28)),
    .keepAlive (.woke (.fromSecs 60)), .keepAlive .checked,
    .keepAlive (.sleepUntil (.fromSecs 2)), .runtime (.elapsed (.fromSecs 2))]

theorem silence_le_late : ∃ h s,
    Run acceptingCodec .new (wakesInTime.both (writesWithin (.fromSecs 2))) h s ∧
    s.state.now = .fromSecs 62 ∧ s.conn.writer ≠ .ended ∧
    s.state.now ≤ s.state.lastSentPacketAt + ClientOptions.new.keepAlive + .fromSecs 2 := by
  obtain ⟨h, s, hr, ht⟩ := Lts.exists_run (step acceptingCodec .new)
    (wakesInTime.both (writesWithin (.fromSecs 2))) init pingingLate
    (fun _ s => s.state.now = .fromSecs 62 && s.conn.writer ≠ .ended) (by decide +kernel)
  simp only [Bool.and_eq_true, decide_eq_true_eq] at ht
  exact ⟨h, s, hr, ht.1, ht.2, silence_le hr ht.2⟩

/-- For every interval that is kept as announced, and half of it for a PINGREQ
to be written: from the CONNACK on the client is never silent for more than one
and a half times what CONNECT announced. -/
theorem silence_announced (hk : KeepsAnnounced codec options packet)
    (hd : 2 * delay ≤ .fromSecs packet.keepAlive.toNat)
    (hr : Run codec options (wakesInTime.both (writesWithin delay)) h s)
    (hw : s.conn.writer ≠ .ended) :
    2 * s.state.now ≤
      2 * s.state.lastSentPacketAt + 3 * Duration.fromSecs packet.keepAlive.toNat := by
  have hle : options.keepAlive ≤ .fromSecs packet.keepAlive.toNat := by
    by_cases h0 : options.keepAlive = 0
    · rw [h0]
      exact Nat.zero_le _
    · exact hk.within h0
  calc 2 * s.state.now
      ≤ 2 * (s.state.lastSentPacketAt + options.keepAlive + delay) :=
        Nat.mul_le_mul_left 2 (heard_run hr hw).now_le
    _ = 2 * s.state.lastSentPacketAt + (2 * options.keepAlive + 2 * delay) := by
        rw [Nat.mul_add, Nat.mul_add, Nat.add_assoc]
    _ ≤ 2 * s.state.lastSentPacketAt + (2 * Duration.fromSecs packet.keepAlive.toNat +
          Duration.fromSecs packet.keepAlive.toNat) :=
        Nat.add_le_add_left (Nat.add_le_add (Nat.mul_le_mul_left 2 hle) hd) _
    _ = 2 * s.state.lastSentPacketAt + 3 * Duration.fromSecs packet.keepAlive.toNat := by
        rw [← Nat.succ_mul]

theorem silence_announced_late : ∃ packet h s,
    buildConnectPacket acceptingCodec .new = some packet ∧ packet.keepAlive = 30 ∧
    Run acceptingCodec .new (wakesInTime.both (writesWithin (.fromSecs 2))) h s ∧
    s.state.now = .fromSecs 62 ∧
    2 * s.state.now ≤
      2 * s.state.lastSentPacketAt + 3 * Duration.fromSecs packet.keepAlive.toNat := by
  obtain ⟨packet, hp⟩ : ∃ packet, buildConnectPacket acceptingCodec .new = some packet := ⟨_, rfl⟩
  have h30 : packet.keepAlive = 30 := keepAlive_buildConnectPacket hp
  have hk : KeepsAnnounced acceptingCodec .new packet := {
    zero := fun h0 => by
      rw [h30] at h0
      cases h0
    off := fun h0 => absurd h0 (by decide)
    within := fun _ => by
      rw [h30]
      decide }
  obtain ⟨h, s, hr, ht⟩ := Lts.exists_run (step acceptingCodec .new)
    (wakesInTime.both (writesWithin (.fromSecs 2))) init pingingLate
    (fun _ s => s.state.now = .fromSecs 62 && s.conn.writer ≠ .ended) (by decide +kernel)
  simp only [Bool.and_eq_true, decide_eq_true_eq] at ht
  exact ⟨packet, h, s, hp, h30, hr, ht.1,
    silence_announced hk (by rw [h30]; decide) hr ht.2⟩

end System

end MesquitteClient
