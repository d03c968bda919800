import MesquitteClient.Registry

/-!
# Calls that fail

`publish`, `subscribe`, `subscribe_multiple` and `unsubscribe` take their
identifier first. One that returns its token with an error before it took one
leaves the identifier table as it was; one that fails later, on an invalid
topic or on a closed channel, leaves its identifier behind
(`identifier_left_behind`, `table_of_failed`).
-/

namespace MesquitteClient

namespace System

variable {codec : Codec} {options : ClientOptions} {s₀ s s' : System} {e : Event}
variable {h : Lts.History System Event} {job : Option Job} {call : Call}

/-- One call from its first step on: no other call begins, and no other task
changes the identifier table. -/
def onlyCall (job : Option Job) (call : Call) : Lts.Guard System Event := fun h s e =>
  match e with
  | .call (.accepted job' call') | .call (.refused job' call') =>
    h.isEmpty && job' = job && call' = call
  | .call _ => true
  | .reader (.received packet) => (State.ended packet s.state).isNone
  | e => !cleansUp e

/-- The error a call has completed its token with. -/
def callError : Lts.History System Event → Option TokenError
  | [] => none
  | (_, .call (.refused ..)) :: _ => some .connectionLost
  | (_, .call (.exhausted _)) :: _ => some .packetIdError
  | (_, .call (.invalid ..)) :: _ => some .invalidTopic
  | (_, .call (.sendFailed ..)) :: _ => some .internalServerError
  | _ :: h => callError h

def SameTable (s₀ s : System) : Prop := ∀ k, s.owner k = s₀.owner k

/-- An identifier that was free is taken. -/
def LeftBehind (s₀ s : System) : Prop := ∃ k, k ≠ 0 ∧ s₀.owner k = none ∧ (s.owner k).isSome

def full (s : System) : Prop := ∀ k, k ≠ 0 → (s.owner k).isSome

theorem LeftBehind.not_sameTable (hl : LeftBehind s₀ s) : ¬ SameTable s₀ s := by
  obtain ⟨k, _, hnone, hsome⟩ := hl
  intro hsame
  rw [hsame k, hnone] at hsome
  cases hsome

theorem LeftBehind.not_full (hl : LeftBehind s₀ s) : ¬ full s₀ := by
  obtain ⟨k, hk, hnone, _⟩ := hl
  intro hfull
  have hsome := hfull k hk
  rw [hnone] at hsome
  cases hsome

/-- The table once the call has the identifier it needs. -/
def Held (s₀ : System) (call : Call) (s : System) : Prop :=
  (call.takesId = false ∧ SameTable s₀ s) ∨ (call.takesId ∧ LeftBehind s₀ s)

/-- The table once the call has failed. -/
def Settled (s₀ : System) (call : Call) (s : System) : Prop :=
  (SameTable s₀ s ∧ (s₀.isConnected = false ∨ call.takesId = false ∨ full s₀)) ∨
    (LeftBehind s₀ s ∧ s₀.isConnected ∧ call.takesId)

theorem Held.settled (hh : Held s₀ call s) (hc : s₀.isConnected) : Settled s₀ call s := by
  rcases hh with ⟨hid, hsame⟩ | ⟨hid, hleft⟩
  · exact .inl ⟨hsame, .inr (.inl hid)⟩
  · exact .inr ⟨hleft, hc, hid⟩

theorem Settled.sameTable_iff (hst : Settled s₀ call s) : SameTable s₀ s ↔
    s₀.isConnected = false ∨ call.takesId = false ∨ full s₀ := by
  rcases hst with ⟨hsame, hcond⟩ | ⟨hleft, hc, hid⟩
  · exact ⟨fun _ => hcond, fun _ => hsame⟩
  · constructor
    · intro hsame
      exact absurd hsame hleft.not_sameTable
    · rintro (h | h | h)
      · rw [hc] at h
        cases h
      · rw [hid] at h
        cases h
      · exact absurd h hleft.not_full

-- ---------------------------------------------------------------------------
-- The steps of a call
-- ---------------------------------------------------------------------------

/-- What is known while the call runs. -/
def PhaseHeld (s₀ : System) (call : Call) (s : System) : Phase → Prop
  | .registering => call.takesId ∧ SameTable s₀ s
  | _ => Held s₀ call s

structure Calling (s₀ : System) (call : Call) (h : Lts.History System Event) (s : System) : Prop where
  start : h = [] → s = s₀
  running : s.client = .call frame phase →
    frame.call = call ∧ s₀.isConnected ∧ PhaseHeld s₀ call s phase
  failed : (callError h).isSome →
    Settled s₀ call s ∧ ∀ frame phase, s.client = .call frame phase → phase = .sent

theorem calling_start (hc : s₀.client.calls job call) : Calling s₀ call [] s₀ where
  start _ := rfl
  running h := by
    rcases ClientTask.calls_cases hc with ⟨h0, _⟩ | ⟨_, _, _, h0, _⟩ <;> cases h0.symm.trans h
  failed h := by cases h

-- A step that leaves the table keeps what is known of it.

theorem SameTable.kept (h : SameTable s₀ s) (hk : ∀ k, s'.owner k = s.owner k) :
    SameTable s₀ s' := fun k => (hk k).trans (h k)

theorem LeftBehind.kept (h : LeftBehind s₀ s) (hk : ∀ k, s'.owner k = s.owner k) :
    LeftBehind s₀ s' := by
  obtain ⟨k, hz, hnone, hsome⟩ := h
  exact ⟨k, hz, hnone, by rw [hk]; exact hsome⟩

theorem Held.kept (h : Held s₀ call s) (hk : ∀ k, s'.owner k = s.owner k) : Held s₀ call s' := by
  rcases h with ⟨hid, h⟩ | ⟨hid, h⟩
  · exact .inl ⟨hid, h.kept hk⟩
  · exact .inr ⟨hid, h.kept hk⟩

theorem PhaseHeld.kept (hp : PhaseHeld s₀ call s phase) (hk : ∀ k, s'.owner k = s.owner k) :
    PhaseHeld s₀ call s' phase := by
  cases phase with
  | registering => exact ⟨hp.1, hp.2.kept hk⟩
  | building pkid topics | sending packet | sent => exact Held.kept hp hk

theorem Settled.kept (hst : Settled s₀ call s) (hk : ∀ k, s'.owner k = s.owner k) :
    Settled s₀ call s' := by
  rcases hst with ⟨h, hcond⟩ | ⟨h, hrest⟩
  · exact .inl ⟨h.kept hk, hcond⟩
  · exact .inr ⟨h.kept hk, hrest⟩

/-- Under the guard only the call itself changes the table. -/
theorem owner_onlyCall (hg : onlyCall job call h s e) (hs : step codec options s e = some s')
    (hne : ∀ frame pkid, e ≠ .call (.registered frame pkid)) : s'.owner k = s.owner k := by
  rw [owner_step hs]
  cases e with
  | call e =>
    cases e with
    | registered frame pkid => exact absurd rfl (hne frame pkid)
    | _ => rfl
  | reader e =>
    cases e with
    | received packet =>
      have hnone : State.ended packet s.state = none := Option.isNone_iff_eq_none.mp hg
      simp [ownerAfter, hnone]
    | _ => rfl
  | block e =>
    cases e with
    | jobCleanUp => cases hg
    | _ => rfl
  | supervisor e =>
    cases e with
    | cleanedUp => cases hg
    | _ => rfl
  | _ e => cases e <;> rfl

/-- The identifier table is as before once the call has begun. -/
theorem Calling.begins (hcl : Calling s₀ call h s) (hh : h.isEmpty) : s = s₀ :=
  hcl.start (List.isEmpty_iff.mp hh)

/-- The call goes on, without an error. -/
theorem Calling.goesOn (hc : s'.client = .call frame phase) (hcall : frame.call = call)
    (hconn : s₀.isConnected) (hp : PhaseHeld s₀ call s' phase)
    (hn : ¬ (callError (x :: h)).isSome) : Calling s₀ call (x :: h) s' where
  start hh := by cases hh
  running hc' := by
    obtain ⟨rfl, rfl⟩ := ClientTask.call.inj (hc.symm.trans hc')
    exact ⟨hcall, hconn, hp⟩
  failed hf := absurd hf hn

/-- The call returns, and is settled if it has failed. -/
theorem Calling.returns (hc : s'.client = .returned fr)
    (hst : (callError (x :: h)).isSome → Settled s₀ call s') : Calling s₀ call (x :: h) s' where
  start hh := by cases hh
  running hc' := absurd (hc.symm.trans hc') ClientTask.returned_ne_call
  failed hf := ⟨hst hf, fun _ _ hc' => absurd (hc.symm.trans hc') ClientTask.returned_ne_call⟩

theorem Calling.call_step {e : CallEvent} (hcl : Calling s₀ call h s)
    (hg : onlyCall job call h s (.call e)) (hs : step codec options s (.call e) = some s') :
    Calling s₀ call ((s, .call e) :: h) s' := by
  have hs₀ := hs
  have hk (hne : ∀ frame pkid, e ≠ .registered frame pkid) (k : UInt16) :
      s'.owner k = s.owner k :=
    owner_onlyCall hg hs (fun frame pkid he => hne frame pkid (Event.call.inj he))
  -- before its send has returned a call has no error
  have hnone {frame : Frame} {phase : Phase} (hc : s.client = .call frame phase)
      (hp : phase ≠ .sent) : ¬ (callError h).isSome :=
    fun hf => hp ((hcl.failed hf).2 frame phase hc)
  cases e with
  | accepted job' call' =>
    simp only [onlyCall, Bool.and_eq_true, decide_eq_true_eq] at hg
    obtain ⟨⟨hh, rfl⟩, rfl⟩ := hg
    obtain rfl := hcl.begins hh
    obtain rfl := List.isEmpty_iff.mp hh
    simp only [step, stepCall, when_eq_some] at hs
    obtain ⟨⟨_, _, hconn⟩, rfl⟩ := hs
    refine .goesOn rfl rfl hconn ?_ Bool.false_ne_true
    unfold Call.begin
    split
    · rename_i hid
      exact ⟨hid, hk (by simp)⟩
    · rename_i hid
      exact .inl ⟨by simpa using hid, hk (by simp)⟩
  | refused job' call' =>
    simp only [onlyCall, Bool.and_eq_true, decide_eq_true_eq] at hg
    obtain ⟨⟨hh, rfl⟩, rfl⟩ := hg
    obtain rfl := hcl.begins hh
    simp only [step, stepCall, when_eq_some] at hs
    obtain ⟨⟨_, _, hconn⟩, rfl⟩ := hs
    exact .returns rfl fun _ => .inl ⟨hk (by simp), .inl (by simpa using hconn)⟩
  | registered frame pkid =>
    obtain ⟨h0, hz, hfree⟩ := registered_step hs₀
    obtain ⟨hcall, hconn, hid, hsame⟩ := hcl.running h0
    have howner := owner_step (k := pkid) hs₀
    simp only [step, stepCall, when_eq_some] at hs
    obtain ⟨_, rfl⟩ := hs
    refine .goesOn rfl hcall hconn ?_ (hnone h0 (by simp))
    refine .inr ⟨hid, pkid, hz, (hsame pkid).symm.trans hfree, ?_⟩
    rw [howner, ownerAfter, if_pos rfl]
    rfl
  | exhausted frame =>
    simp only [step, stepCall, when_eq_some] at hs
    obtain ⟨⟨h0, hz⟩, rfl⟩ := hs
    obtain ⟨hcall, hconn, hid, hsame⟩ := hcl.running h0
    have hfull : full s₀ := fun k hk => by
      rw [← hsame k]
      exact s.state.packetIds.getId_eq_zero hz k hk
    have hkept : SameTable s₀ _ := hsame.kept (hk (by simp))
    exact .returns rfl fun _ => .inl ⟨hkept, .inr (.inr hfull)⟩
  | topicAdded frame pkid topic rest | built frame pkid packet | enqueued frame packet =>
    simp only [step, stepCall, when_eq_some] at hs
    obtain ⟨⟨h0, _⟩, rfl⟩ := hs
    obtain ⟨hcall, hconn, hp⟩ := hcl.running h0
    exact .goesOn rfl hcall hconn (Held.kept hp (hk (by simp))) (hnone h0 (by simp))
  | invalid frame pkid topics =>
    simp only [step, stepCall, when_eq_some] at hs
    obtain ⟨⟨h0, _⟩, rfl⟩ := hs
    obtain ⟨hcall, hconn, hp⟩ := hcl.running h0
    exact .returns rfl fun _ => (Held.settled hp hconn).kept (hk (by simp))
  | sendFailed frame packet =>
    simp only [step, stepCall, when_eq_some] at hs
    obtain ⟨⟨h0, _⟩, rfl⟩ := hs
    obtain ⟨hcall, hconn, hp⟩ := hcl.running h0
    refine ⟨by simp, fun hc => ?_, fun _ => ⟨(Held.settled hp hconn).kept (hk (by simp)), ?_⟩⟩
    · cases hc
      exact ⟨hcall, hconn, Held.kept hp (hk (by simp))⟩
    · intro _ _ hc
      cases hc
      rfl
  | returned frame =>
    simp only [step, stepCall, when_eq_some] at hs
    obtain ⟨h0, rfl⟩ := hs
    exact .returns rfl fun hf => (hcl.failed hf).1.kept (hk (by simp))

theorem Calling.step (hcl : Calling s₀ call h s) (hg : onlyCall job call h s e)
    (hs : step codec options s e = some s') : Calling s₀ call ((s, e) :: h) s' := by
  -- an event that leaves the table, the call and its error
  have hother (hne : ∀ e', e ≠ .call e') (herr : callError ((s, e) :: h) = callError h) :
      Calling s₀ call ((s, e) :: h) s' := by
    have hk (k : UInt16) : s'.owner k = s.owner k :=
      owner_onlyCall hg hs (fun _ _ => hne _)
    have hcall (frame : Frame) (phase : Phase) (hc : s'.client = .call frame phase) :
        s.client = .call frame phase := by
      rcases call_origin hs hc with ⟨phase', h0⟩ | ⟨_, _, he, _⟩
      · cases e with
        | call e => exact absurd rfl (hne e)
        | connect e | block e => exact absurd h0 (not_in_call hs (by simp))
        | _ e => exact client_step hs rfl ▸ hc
      · exact absurd he (hne _)
    refine ⟨by simp, fun hc => ?_, fun hf => ?_⟩
    · obtain ⟨hcall, hconn, hp⟩ := hcl.running (hcall _ _ hc)
      exact ⟨hcall, hconn, hp.kept hk⟩
    · obtain ⟨hst, hsent⟩ := hcl.failed (herr ▸ hf)
      exact ⟨hst.kept hk, fun frame phase hc => hsent frame phase (hcall frame phase hc)⟩
  cases e with
  | call e => exact hcl.call_step hg hs
  | _ e => exact hother (by simp) rfl

-- ---------------------------------------------------------------------------
-- Runs
-- ---------------------------------------------------------------------------

/-- A call fails by completing its own token with the error. -/
theorem callError_cell {e : CallEvent} (hs : step codec options s (.call e) = some s')
    (hn : callError h = none) (he : callError ((s, .call e) :: h) = some err) :
    ∃ t, (t = s.state.tokens.next ∨ ∃ frame phase, s.client = .call frame phase ∧ frame.token = t) ∧
      (s'.cell t).complete ∧ (s'.cell t).error = some err := by
  cases e with
  | refused job call =>
    refine ⟨s.state.tokens.next, .inl rfl, ?_⟩
    rw [cell_created hs rfl]
    exact ⟨rfl, he⟩
  | exhausted frame | invalid frame pkid topics | sendFailed frame packet =>
    have hst := state_step hs
    simp only [step, stepCall, when_eq_some] at hs
    refine ⟨frame.token, .inr ⟨frame, _, hs.1.1, rfl⟩, ?_⟩
    rw [cell, hst]
    simp only [stateAfter, created, touched, State.cell_modifyToken_self]
    exact ⟨rfl, he⟩
  | _ =>
    have he : callError h = some err := he
    rw [hn] at he
    cases he

/-- From any state, a call that fails leaves the identifier table as it was
exactly when the client was not connected, the call takes no identifier, or
there was none left to take. -/
theorem table_of_failed (hc : s₀.client.calls job call)
    (hr : Lts.Run (step codec options) (onlyCall job call) s₀ h s) (hf : (callError h).isSome) :
    (∀ k, s.owner k = s₀.owner k) ↔ s₀.isConnected = false ∨ call.takesId = false ∨
      ∀ k, k ≠ 0 → (s₀.owner k).isSome := by
  have hcl : Calling s₀ call h s := hr.invariant (P := fun h s => Calling s₀ call h s)
    (calling_start hc) fun _ hcl hg hs => hcl.step hg hs
  exact (hcl.failed hf).1.sameTable_iff

/-- A codec that refuses every filter. -/
def refusingCodec : Codec := { acceptingCodec with topicFilter := fun _ => false }

/-- A subscribe call with an invalid filter. -/
def subscribingInvalid : List Event :=
  let frame : Frame := ⟨none, .subscribe "a+" .level1 7, 1⟩
  [.call (.accepted none frame.call), .call (.registered frame 2), .call (.invalid frame (some 2) [])]

/-- An invalid filter leaves its identifier taken. -/
theorem identifier_left_behind : ¬ ∀ h₀ s₀, Run refusingCodec .new Lts.anything h₀ s₀ →
    ∀ job call h s, s₀.client.calls job call →
      Lts.Run (step refusingCodec .new) (onlyCall job call) s₀ h s → (callError h).isSome →
        ∀ k, s.owner k = s₀.owner k := by
  obtain ⟨h₀, s₀, hr₀, ht⟩ := Lts.exists_run (step refusingCodec .new) Lts.anything init
    (connecting none 0 false ++ connected none 0 false)
    (fun _ s₀ => s₀.client = .idle && s₀.owner 2 = none &&
      (Lts.play (step refusingCodec .new) (onlyCall none (.subscribe "a+" .level1 7))
        subscribingInvalid [] s₀).any fun r =>
          callError r.1 = some .invalidTopic && r.2.owner 2 = some 1)
    (by decide +kernel)
  simp only [Bool.and_eq_true, decide_eq_true_eq] at ht
  obtain ⟨⟨hidle, hfree⟩, hplay⟩ := ht
  obtain ⟨h, s, hr, ht⟩ := Lts.exists_run _ _ s₀ _
    (fun h s => callError h = some .invalidTopic && s.owner 2 = some 1) hplay
  simp only [Bool.and_eq_true, decide_eq_true_eq] at ht
  intro hall
  have := hall h₀ s₀ hr₀ none (.subscribe "a+" .level1 7) h s (by rw [hidle]; rfl) hr
    (by rw [ht.1]; rfl) 2
  rw [ht.2, hfree] at this
  cases this

/-- A codec that refuses every topic name. -/
def namelessCodec : Codec := { acceptingCodec with topicName := fun _ => false }

/-- A publish call with QoS 0 and an invalid topic. -/
def publishingInvalid : List Event :=
  let frame : Frame := ⟨none, .publish "a+" .level0 false [], 2⟩
  [.call (.accepted none frame.call), .call (.invalid frame none [])]

/-- It leaves the table alone, with the identifier that a subscribe has taken. -/
theorem table_of_failed_level0 : ∃ h₀ s₀ h s, Run namelessCodec .new Lts.anything h₀ s₀ ∧
    s₀.isConnected ∧ s₀.owner 2 = some 1 ∧
    Lts.Run (step namelessCodec .new) (onlyCall none (.publish "a+" .level0 false [])) s₀ h s ∧
    callError h = some .invalidTopic ∧ ∀ k, s.owner k = s₀.owner k := by
  let frame : Frame := ⟨none, .subscribe "a" .level1 7, 1⟩
  obtain ⟨h₀, s₀, hr₀, ht⟩ := Lts.exists_run (step namelessCodec .new) Lts.anything init
    (connecting none 0 false ++ connected none 0 false ++
      sending frame 2 (.subscribe 2 [("a", .level1)]) ++ [.call (.returned frame)])
    (fun _ s₀ => s₀.client = .idle && s₀.isConnected && s₀.owner 2 = some 1 &&
      (Lts.play (step namelessCodec .new) (onlyCall none (.publish "a+" .level0 false []))
        publishingInvalid [] s₀).any fun r => callError r.1 = some .invalidTopic)
    (by decide +kernel)
  simp only [Bool.and_eq_true, decide_eq_true_eq] at ht
  obtain ⟨⟨⟨hidle, hcon⟩, howner⟩, hplay⟩ := ht
  obtain ⟨h, s, hr, ht⟩ := Lts.exists_run _ _ s₀ _
    (fun h _ => callError h = some .invalidTopic) hplay
  have ht : callError h = some .invalidTopic := of_decide_eq_true ht
  have hc : s₀.client.calls none (.publish "a+" .level0 false []) := by rw [hidle]; rfl
  exact ⟨h₀, s₀, h, s, hr₀, hcon, howner, hr, ht,
    (table_of_failed hc hr (by rw [ht]; rfl)).mpr (.inr (.inl rfl))⟩

end System

end MesquitteClient
