import MesquitteClient.Registry

/-!
# Which acknowledgement completes which token

The handlers of PUBACK and PUBCOMP complete whatever token is registered under
the identifier; those of SUBACK and UNSUBACK look at its kind. So a token is
completed by its own acknowledgements (`acknowledged_in_order`) as long as no
PUBACK or PUBCOMP arrives for another kind of token, or too early; one that
does completes the wrong token (`puback_completes_subscribe`).
-/

namespace MesquitteClient

namespace System

variable {codec : Codec} {options : ClientOptions} {s s' s₁ s₂ : System} {e : Event}
variable {guard : Lts.Guard System Event} {h h₁ later : Lts.History System Event}
variable {ack : VariablePacket}

/-- The identifier an inbound acknowledgement is about. -/
def ackPkid : VariablePacket → Option UInt16
  | .pubrec pkid => some pkid
  | packet => State.acked packet

/-- A PUBREC has been read for an identifier since it was last registered. -/
def recorded (k : UInt16) : Lts.History System Event → Bool
  | [] => false
  | (_, .call (.registered _ pkid)) :: h => if pkid = k then false else recorded k h
  | (_, .reader (.received (.pubrec pkid))) :: h => if pkid = k then true else recorded k h
  | _ :: h => recorded k h

/-- The packet ends the acknowledgement sequence of a token of this kind,
registered under `k`. -/
def acknowledges (k : UInt16) (recorded : Bool) : TokenKind → VariablePacket → Bool
  | .publish .level1, .puback pkid => pkid = k
  | .publish .level2, .pubcomp pkid => pkid = k && recorded
  | .subscribe, .suback pkid _ => pkid = k
  | .unsubscribe, .unsuback pkid => pkid = k
  | _, _ => false

/-- What one step may do to a token registered under an identifier: complete it
without an error, or take it out of the table, only by the end of its own
acknowledgement sequence (or by a `clean_up`, with an error); and any other
acknowledgement of the identifier changes nothing. -/
structure InOrder (h : Lts.History System Event) (s : System) (e : Event) (s' : System)
    (k : UInt16) (t : TokenId) : Prop where
  completes : ¬ (s.cell t).complete → (s'.cell t).complete → (s'.cell t).error = none →
    ∃ ack, e = received ack ∧ acknowledges k (recorded k h) (s.cell t).kind ack
  frees : s'.owner k ≠ some t →
    (∃ ack, e = received ack ∧ acknowledges k (recorded k h) (s.cell t).kind ack) ∨
      (s'.cell t).error = some .connectionLost
  others : ∀ ack, e = received ack → ackPkid ack = some k →
    ¬ acknowledges k (recorded k h) (s.cell t).kind ack →
    (∀ j, s'.owner j = s.owner j) ∧ ∀ u, s'.cell u = s.cell u

/-- A PUBACK or PUBCOMP that finds a token ends the acknowledgement sequence of
that token. -/
def matchingAcks : Lts.Guard System Event := fun h s e =>
  match e with
  | .reader (.received (.puback k)) =>
    (s.owner k).all fun t => acknowledges k (recorded k h) (s.cell t).kind (.puback k)
  | .reader (.received (.pubcomp k)) =>
    (s.owner k).all fun t => acknowledges k (recorded k h) (s.cell t).kind (.pubcomp k)
  | _ => true

theorem acknowledges_of_ended (hg : matchingAcks h s (received ack))
    (hend : State.ended ack s.state = some (k, t)) :
    acknowledges k (recorded k h) (s.cell t).kind ack := by
  obtain ⟨ha, ho, hh⟩ := State.ended_eq_some.mp hend
  have hcell : s.cell t = s.state.cell t := rfl
  have hown : s.owner k = some t := ho
  cases ack with
  | puback pkid | pubcomp pkid =>
    cases ha
    simpa [matchingAcks, hown] using hg
  | suback pkid codes | unsuback pkid =>
    cases ha
    rw [hcell, of_decide_eq_true hh]
    simp [acknowledges]
  | _ => cases ha

theorem unchanged_of_not_ended (hs : step codec options s (received ack) = some s')
    (hend : State.ended ack s.state = none) :
    (∀ j, s'.owner j = s.owner j) ∧ ∀ u, s'.cell u = s.cell u := by
  have hs' : s'.state = (readFromServer ack s.state).1 := state_step hs
  constructor
  · intro j
    rw [owner, hs', State.owner_readFromServer, hend]
    rfl
  · intro u
    rw [cell, hs', State.cell_readFromServer, hend]
    rfl

theorem inOrder_step (hreg : Registry codec s) (hg : matchingAcks h s e)
    (hs : step codec options s e = some s') (ho : s.owner k = some t) : InOrder h s e s' k t where
  completes hn hc he := by
    obtain ⟨ack, rfl, hend⟩ := hreg.completes hs ho hn hc he
    exact ⟨ack, rfl, acknowledges_of_ended hg hend⟩
  frees hf := by
    rcases owner_lost hs ho hf with ⟨ack, rfl, hend⟩ | hc
    · exact .inl ⟨ack, rfl, acknowledges_of_ended hg hend⟩
    · rw [cell_cleansUp hs ho (hreg.owner_lt ho) hc]
      exact .inr rfl
  others := by
    rintro ack rfl ha hno
    refine unchanged_of_not_ended hs ?_
    cases hend : State.ended ack s.state with
    | none => rfl
    | some kt =>
      obtain ⟨k', t'⟩ := kt
      obtain ⟨ha', ho', _⟩ := State.ended_eq_some.mp hend
      have hk : k' = k := by
        cases ack <;> simp_all [ackPkid, State.acked]
      subst hk
      have ht : t' = t := Option.some.inj (ho'.symm.trans ho)
      subst ht
      exact absurd (acknowledges_of_ended hg hend) hno

/-- In every run in which each PUBACK and PUBCOMP that finds a token is the end
of that token's acknowledgement sequence, every step treats every registered
token in order. -/
theorem acknowledged_in_order
    (hr : Run codec options matchingAcks (later ++ (s₁, e) :: h₁) s)
    (hs : step codec options s₁ e = some s₂) (ho : s₁.owner k = some t) :
    InOrder h₁ s₁ e s₂ k t := by
  obtain ⟨hr₁, hg, _⟩ := hr.split
  exact inOrder_step (registry hr₁) hg hs ho

/-- A QoS 2 publish on a new connection, written and answered by PUBREC. -/
def publishRecorded : List Event :=
  let publish : Frame := ⟨none, .publish "a" .level2 false [1], 1⟩
  let packet : VariablePacket := .publish { topicName := "a", qos := .level2 2, payload := [1] }
  connecting none 0 false ++ connected none 0 false ++ sending publish 2 packet ++
    [.call (.returned publish)] ++ writing packet 1 ++
    [received (.pubrec 2), .reader (.responded (.pubrel 2))]

theorem acknowledged_in_order_pubcomp : ∃ h s s',
    Run acceptingCodec .new matchingAcks ([] ++ (s, received (.pubcomp 2)) :: h) s' ∧
      s.owner 2 = some 1 ∧ InOrder h s (received (.pubcomp 2)) s' 2 1 := by
  obtain ⟨h, s, hr, ht⟩ := Lts.exists_run (step acceptingCodec .new) matchingAcks init
    publishRecorded
    (fun h s => matchingAcks h s (received (.pubcomp 2)) && s.owner 2 = some 1 &&
      (step acceptingCodec .new s (received (.pubcomp 2))).isSome) (by decide +kernel)
  simp only [Bool.and_eq_true, decide_eq_true_eq, Option.isSome_iff_exists] at ht
  obtain ⟨⟨hg, ho⟩, s', hs⟩ := ht
  have hr' : Run acceptingCodec .new matchingAcks ([] ++ (s, received (.pubcomp 2)) :: h) s' :=
    hr.snoc hg hs
  exact ⟨h, s, s', hr', ho, acknowledged_in_order hr' hs ho⟩

/-- A PUBACK with the identifier of a SUBSCRIBE completes the subscribe token. -/
theorem puback_completes_subscribe : ¬ ∀ later h₁ s₁ e s₂ s k t,
    Run acceptingCodec .new Lts.anything (later ++ (s₁, e) :: h₁) s →
    step acceptingCodec .new s₁ e = some s₂ → s₁.owner k = some t → InOrder h₁ s₁ e s₂ k t := by
  let frame : Frame := ⟨none, .subscribe "a" .level1 7, 1⟩
  obtain ⟨h, s, hr, ht⟩ := Lts.exists_run (step acceptingCodec .new) Lts.anything init
    (connecting none 0 false ++ connected none 0 false ++
      sending frame 2 (.subscribe 2 [("a", .level1)]) ++ [.call (.returned frame)])
    (fun _ s => s.owner 2 = some 1 && (s.cell 1).kind = .subscribe && !(s.cell 1).complete &&
      (step acceptingCodec .new s (received (.puback 2))).any fun s' =>
        (s'.cell 1).complete && (s'.cell 1).error = none) (by decide +kernel)
  simp only [Bool.and_eq_true, decide_eq_true_eq, Bool.not_eq_true', Option.any_eq_true] at ht
  obtain ⟨⟨⟨ho, hk⟩, hn⟩, s', hs, hc, he⟩ := ht
  intro hall
  obtain ⟨ack, heq, hack⟩ := (hall [] h s _ s' s' 2 1 (hr.snoc rfl hs) hs ho).completes
    (by simp [hn]) hc he
  cases heq
  simp [hk, acknowledges] at hack

end System

end MesquitteClient
