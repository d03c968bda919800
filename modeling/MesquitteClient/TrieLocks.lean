import MesquitteClient.TrieEdits

/-!
# The trie under its locks

Two tasks use the trie at once: the read loop inserts, removes and matches,
one operation after another, and the resubscribe job of `block` clears. Each
node has its own lock. `insert` and `remove` hold one guard at a time (two,
while `remove` looks at a child), so a step of the read loop is what it does
under a guard; nobody else takes nodes out, so a path stands for the `Arc` it
has gone to. `clear_node` keeps the guards of the nodes from the root down to
where it is, and a step visits one node. `match_topic` keeps the guard of the
root to its end; nobody else writes meanwhile, so it is one step. The children
of a node are a `HashMap`, so a visit names the child that comes next.

The answer of `remove`, which nobody reads, and the match that `subscribe`
makes for a line of the log are left out.
-/

namespace MesquitteClient

/-- Where the read loop is in an operation on the trie. -/
inductive Walk
  | idle
  | inserting (sub : Subscription) (done rest : List String)
  | removing (done rest : List String) (nodesToCleanup : List (List String × String))
  /-- the loop over `nodes_to_cleanup`, the last one first -/
  | cleaning (nodesToCleanup : List (List String × String))
  /-- `remove_child` is true -/
  | unlinking (node : List String) (token : String) (nodesToCleanup : List (List String × String))

/-- A guard that `clear_node` holds: its node, and the children that it has
still to visit. -/
abbrev Guarded := List String × List String

/-- The trie, with the two tasks that use it. -/
structure LockedTrie where
  root : TrieNode := .new
  walk : Walk := .idle
  /-- the guards of `clear_node`, innermost first -/
  guards : List Guarded := []

inductive TrieEvent
  | insert (sub : Subscription) (topicTokens : List String)
  | remove (topicTokens : List String)
  | matched (topicTokens : List String) (subscriptions : List Subscription)
  /-- the read loop, under its next guard -/
  | walk
  | clear
  /-- `clear_node`, for a child of the node it is at -/
  | visit (token : String)
  /-- `clear_node` is done with a node -/
  | leave
  deriving DecidableEq

namespace LockedTrie

open TrieNode

def locked (s : LockedTrie) (node : List String) : Bool := s.guards.any fun g => g.1 = node

/-- `remove_child`. -/
def removeChild (s : LockedTrie) (node : List String) (token : String) : Bool :=
  (s.root.nodeAt? (node ++ [token])).any isEmpty

def walkStep (s : LockedTrie) : Option LockedTrie :=
  match s.walk with
  | .idle => none
  | .inserting sub done (token :: rest) =>
    if s.locked done then none
    else some { s with
      root := s.root.modifyAt (ensureChild token) done
      walk := .inserting sub (done ++ [token]) rest }
  | .inserting sub done [] =>
    if s.locked done then none
    else some { s with root := s.root.modifyAt (push sub) done, walk := .idle }
  | .removing done (token :: rest) nodesToCleanup =>
    if s.locked done then none
    else if s.root.hasNode (done ++ [token]) then
      some { s with walk := .removing (done ++ [token]) rest ((done, token) :: nodesToCleanup) }
    else some { s with walk := .idle }
  | .removing done [] nodesToCleanup =>
    if s.locked done then none
    else some { s with
      root := s.root.modifyAt clearSubscriptions done
      walk := .cleaning nodesToCleanup }
  | .cleaning [] => some { s with walk := .idle }
  | .cleaning ((node, token) :: nodesToCleanup) =>
    if s.locked node || s.locked (node ++ [token]) then none
    else if s.removeChild node token then
      some { s with walk := .unlinking node token nodesToCleanup }
    else some { s with walk := .cleaning nodesToCleanup }
  | .unlinking node token nodesToCleanup =>
    if s.locked node then none
    else some { s with
      root := s.root.modifyAt (dropChild token) node
      walk := .cleaning nodesToCleanup }

def visitStep (s : LockedTrie) (token : String) : Option LockedTrie :=
  match s.guards with
  | [] => none
  | (node, tokens) :: guards =>
    if token ∈ tokens then
      some { s with
        root := s.root.modifyAt clearSubscriptions (node ++ [token])
        guards := (node ++ [token], s.root.childTokens (node ++ [token])) ::
          (node, tokens.erase token) :: guards }
    else none

def leaveStep (s : LockedTrie) : Option LockedTrie :=
  match s.guards with
  | (_, []) :: guards => some { s with guards }
  | _ => none

/-- A call of the read loop starts when the one before has returned, and a
clear when nobody holds a guard of the root. -/
def step (s : LockedTrie) : TrieEvent → Option LockedTrie
  | .insert sub topicTokens =>
    match s.walk with
    | .idle => some { s with walk := .inserting sub [] topicTokens }
    | _ => none
  | .remove topicTokens =>
    match s.walk with
    | .idle => some { s with walk := .removing [] topicTokens [] }
    | _ => none
  | .matched topicTokens subscriptions =>
    match s.walk with
    | .idle =>
      if s.guards = [] ∧ subscriptions = s.root.matchTopic topicTokens then some s else none
    | _ => none
  | .walk => s.walkStep
  | .clear =>
    if s.guards = [] then
      some { s with
        root := s.root.modifyAt clearSubscriptions []
        guards := [([], s.root.childTokens [])] }
    else none
  | .visit token => s.visitStep token
  | .leave => s.leaveStep

end LockedTrie

-- ---------------------------------------------------------------------------
-- What a step can do
-- ---------------------------------------------------------------------------

namespace LockedTrie

open TrieNode

/-- The steps, each with what lets it be taken. -/
inductive Moved (s : LockedTrie) : TrieEvent → LockedTrie → Prop
  | insert : s.walk = .idle → Moved s (.insert sub topicTokens)
      { s with walk := .inserting sub [] topicTokens }
  | remove : s.walk = .idle → Moved s (.remove topicTokens)
      { s with walk := .removing [] topicTokens [] }
  | matched : s.walk = .idle → s.guards = [] →
      Moved s (.matched topicTokens (s.root.matchTopic topicTokens)) s
  | makes : s.walk = .inserting sub done (token :: rest) → s.locked done = false →
      Moved s .walk { s with
        root := s.root.modifyAt (ensureChild token) done
        walk := .inserting sub (done ++ [token]) rest }
  | pushes : s.walk = .inserting sub done [] → s.locked done = false →
      Moved s .walk { s with root := s.root.modifyAt (push sub) done, walk := .idle }
  | finds : s.walk = .removing done (token :: rest) nodesToCleanup → s.locked done = false →
      s.root.hasNode (done ++ [token]) →
      Moved s .walk { s with
        walk := .removing (done ++ [token]) rest ((done, token) :: nodesToCleanup) }
  | misses : s.walk = .removing done (token :: rest) nodesToCleanup → s.locked done = false →
      s.root.hasNode (done ++ [token]) = false → Moved s .walk { s with walk := .idle }
  | empties : s.walk = .removing done [] nodesToCleanup → s.locked done = false →
      Moved s .walk { s with
        root := s.root.modifyAt clearSubscriptions done
        walk := .cleaning nodesToCleanup }
  | returns : s.walk = .cleaning [] → Moved s .walk { s with walk := .idle }
  | condemns : s.walk = .cleaning ((node, token) :: nodesToCleanup) → s.removeChild node token →
      Moved s .walk { s with walk := .unlinking node token nodesToCleanup }
  | keeps : s.walk = .cleaning ((node, token) :: nodesToCleanup) →
      s.removeChild node token = false →
      Moved s .walk { s with walk := .cleaning nodesToCleanup }
  | unlinks : s.walk = .unlinking node token nodesToCleanup →
      Moved s .walk { s with
        root := s.root.modifyAt (dropChild token) node
        walk := .cleaning nodesToCleanup }
  | clear : s.guards = [] → Moved s .clear { s with
      root := s.root.modifyAt clearSubscriptions []
      guards := [([], s.root.childTokens [])] }
  | visits {node : List String} {token : String} {tokens : List String} {guards : List Guarded} :
      s.guards = (node, tokens) :: guards → token ∈ tokens → Moved s (.visit token) { s with
        root := s.root.modifyAt clearSubscriptions (node ++ [token])
        guards := (node ++ [token], s.root.childTokens (node ++ [token])) ::
          (node, tokens.erase token) :: guards }
  | leaves {node : List String} {guards : List Guarded} : s.guards = (node, []) :: guards →
      Moved s .leave { s with guards := guards }

theorem Moved.of_walkStep {s s' : LockedTrie} (hs : s.walkStep = some s') :
    Moved s .walk s' := by
  rw [walkStep] at hs
  cases hwalk : s.walk with
  | idle => simp [hwalk] at hs
  | inserting sub done rest =>
    cases rest with
    | nil =>
      simp only [hwalk, Option.ite_none_left_eq_some, Bool.not_eq_true, Option.some.injEq] at hs
      obtain ⟨hl, rfl⟩ := hs
      exact .pushes hwalk hl
    | cons token rest =>
      simp only [hwalk, Option.ite_none_left_eq_some, Bool.not_eq_true, Option.some.injEq] at hs
      obtain ⟨hl, rfl⟩ := hs
      exact .makes hwalk hl
  | removing done rest nodesToCleanup =>
    cases rest with
    | nil =>
      simp only [hwalk, Option.ite_none_left_eq_some, Bool.not_eq_true, Option.some.injEq] at hs
      obtain ⟨hl, rfl⟩ := hs
      exact .empties hwalk hl
    | cons token rest =>
      simp only [hwalk, Option.ite_none_left_eq_some, Bool.not_eq_true] at hs
      obtain ⟨hl, hs⟩ := hs
      cases hn : s.root.hasNode (done ++ [token]) with
      | true =>
        rw [hn, if_pos rfl] at hs
        cases hs
        exact .finds hwalk hl hn
      | false =>
        rw [hn, if_neg Bool.false_ne_true] at hs
        cases hs
        exact .misses hwalk hl hn
  | cleaning nodesToCleanup =>
    cases nodesToCleanup with
    | nil =>
      simp only [hwalk, Option.some.injEq] at hs
      cases hs
      exact .returns hwalk
    | cons p nodesToCleanup =>
      simp only [hwalk, Option.ite_none_left_eq_some] at hs
      obtain ⟨-, hs⟩ := hs
      cases hr : s.removeChild p.1 p.2 with
      | true =>
        rw [hr, if_pos rfl] at hs
        cases hs
        exact .condemns hwalk hr
      | false =>
        rw [hr, if_neg Bool.false_ne_true] at hs
        cases hs
        exact .keeps hwalk hr
  | unlinking node token nodesToCleanup =>
    simp only [hwalk, Option.ite_none_left_eq_some, Option.some.injEq] at hs
    obtain ⟨-, rfl⟩ := hs
    exact .unlinks hwalk

theorem Moved.of_step {s s' : LockedTrie} (hs : s.step e = some s') : Moved s e s' := by
  cases e with
  | walk => exact .of_walkStep hs
  | visit token =>
    rw [step, visitStep] at hs
    cases hg : s.guards with
    | nil => simp [hg] at hs
    | cons g guards =>
      simp only [hg, Option.ite_none_right_eq_some, Option.some.injEq] at hs
      obtain ⟨ht, rfl⟩ := hs
      exact .visits hg ht
  | leave =>
    rw [step, leaveStep] at hs
    cases hg : s.guards with
    | nil => simp [hg] at hs
    | cons g guards =>
      obtain ⟨node, tokens⟩ := g
      cases tokens with
      | nil =>
        simp only [hg, Option.some.injEq] at hs
        cases hs
        exact .leaves hg
      | cons token tokens => simp [hg] at hs
  | clear =>
    simp only [step, Option.ite_none_right_eq_some, Option.some.injEq] at hs
    obtain ⟨hg, rfl⟩ := hs
    exact .clear hg
  | insert sub topicTokens =>
    cases hwalk : s.walk with
    | idle =>
      simp only [step, hwalk, Option.some.injEq] at hs
      cases hs
      exact .insert hwalk
    | _ => simp [step, hwalk] at hs
  | remove topicTokens =>
    cases hwalk : s.walk with
    | idle =>
      simp only [step, hwalk, Option.some.injEq] at hs
      cases hs
      exact .remove hwalk
    | _ => simp [step, hwalk] at hs
  | matched topicTokens subscriptions =>
    cases hwalk : s.walk with
    | idle =>
      simp only [step, hwalk, Option.ite_none_right_eq_some, Option.some.injEq] at hs
      obtain ⟨⟨hg, rfl⟩, rfl⟩ := hs
      exact .matched hwalk hg
    | _ => simp [step, hwalk] at hs

end LockedTrie

-- ---------------------------------------------------------------------------
-- The guards of a clear
-- ---------------------------------------------------------------------------

section Guards

variable {guards : List Guarded} {g : Guarded} {node path : List String}
  {tokens tokens' : List String} {token : String}

/-- `clear_node` has still to come to this node, or to where it would be. -/
def Due (guards : List Guarded) (path : List String) : Prop :=
  ∃ g ∈ guards, ∃ token ∈ g.2, g.1 ++ [token] <+: path

instance (guards : List Guarded) (path : List String) : Decidable (Due guards path) :=
  inferInstanceAs (Decidable (∃ g ∈ guards, ∃ token ∈ g.2, g.1 ++ [token] <+: path))

/-- The guards are those of the nodes on a path from the root, and no child is
visited twice. -/
inductive Chained : List Guarded → Prop
  | nil : Chained []
  | root {tokens : List String} : tokens.Nodup → Chained [([], tokens)]
  | enter {guards : List Guarded} {node waiting tokens : List String} {token : String} :
      Chained ((node, waiting) :: guards) → token ∉ waiting → tokens.Nodup →
      Chained ((node ++ [token], tokens) :: (node, waiting) :: guards)

theorem Chained.nodup (h : Chained ((node, tokens) :: guards)) : tokens.Nodup := by
  cases h with
  | root hn => exact hn
  | enter _ _ hn => exact hn

theorem Chained.tail (h : Chained (g :: guards)) : Chained guards := by
  cases h with
  | root _ => exact .nil
  | enter hc _ _ => exact hc

/-- The children that are still to visit may be fewer. -/
theorem Chained.next (h : Chained ((node, tokens) :: guards)) (token : String) :
    Chained ((node, tokens.erase token) :: guards) := by
  cases h with
  | root hn => exact .root (hn.erase token)
  | enter hc hw hn => exact .enter hc hw (hn.erase token)

theorem Chained.visit (h : Chained ((node, tokens) :: guards)) (token : String)
    (hn : tokens'.Nodup) :
    Chained ((node ++ [token], tokens') :: (node, tokens.erase token) :: guards) :=
  .enter (h.next token) h.nodup.not_mem_erase hn

theorem Chained.root_mem (h : Chained guards) (hne : guards ≠ []) : ∃ g ∈ guards, g.1 = [] := by
  induction h with
  | nil => exact absurd rfl hne
  | root _ => exact ⟨_, List.mem_singleton.mpr rfl, rfl⟩
  | enter _ _ _ ih =>
    obtain ⟨g, hg, h0⟩ := ih (List.cons_ne_nil _ _)
    exact ⟨g, List.mem_cons_of_mem _ hg, h0⟩

theorem not_due_nil : ¬ Due [] path := by
  rintro ⟨_, hg, _⟩
  cases hg

theorem due_cons : Due ((node, tokens) :: guards) path ↔
    (∃ token ∈ tokens, node ++ [token] <+: path) ∨ Due guards path := by
  simp [Due]

theorem due_done : Due ((node, []) :: guards) path ↔ Due guards path := by
  simp [due_cons]

theorem eq_of_prefixes (h : node ++ [token] <+: path) (h' : node ++ [token'] <+: path) :
    token = token' := by
  obtain ⟨rest, rfl⟩ := h
  rw [List.append_assoc, List.prefix_append_right_inj, List.cons_append,
    List.cons_prefix_cons] at h'
  exact h'.1.symm

/-- At and below a guarded node nothing is due to the guards above it. -/
theorem Chained.not_due (h : Chained ((node, tokens) :: guards)) (hp : node <+: path) :
    ¬ Due guards path := by
  generalize hall : (node, tokens) :: guards = all at h
  induction h generalizing node tokens guards with
  | nil => cases hall
  | root _ =>
    cases hall
    exact not_due_nil
  | enter _ hw _ ih =>
    cases hall
    rw [due_cons]
    rintro (⟨token', ht, hp'⟩ | hd)
    · exact hw (eq_of_prefixes hp hp' ▸ ht)
    · exact ih ((List.prefix_append _ _).trans hp) rfl hd

/-- Elsewhere the visit of a child leaves what is due as it was. -/
theorem due_visit (hp : ¬ node ++ [token] <+: path) :
    Due ((node ++ [token], tokens') :: (node, tokens.erase token) :: guards) path ↔
      Due ((node, tokens) :: guards) path := by
  rw [due_cons, due_cons, due_cons, or_iff_right]
  · refine or_congr_left (exists_congr fun token' => and_congr_left fun h => ?_)
    exact List.mem_erase_of_ne fun heq => hp (heq ▸ h)
  · rintro ⟨token', _, h⟩
    exact hp ((List.prefix_append _ _).trans h)

end Guards

end MesquitteClient
