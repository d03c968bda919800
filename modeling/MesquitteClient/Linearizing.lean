import MesquitteClient.Lib.Simulation
import MesquitteClient.TrieLocks

/-!
# Each operation on the trie takes effect at once

The rest of the model lets an operation on the trie be one step. Under the
locks it is many, and a clear runs beside an operation of the read loop. Yet
all operations take effect one after another, each at a step between its start
and its end, as in a trie that does each at once (`linearizable`).
-/

namespace MesquitteClient

inductive TrieAct
  | insert (sub : Subscription) (topicTokens : List String)
  | remove (topicTokens : List String)
  | matched (topicTokens : List String) (subscriptions : List Subscription)
  | clear
  deriving DecidableEq

/-- The trie that does each operation at once. -/
inductive TrieAct.Does : TrieNode → TrieAct → TrieNode → Prop
  | insert : Does trie (.insert sub topicTokens) (trie.insert sub topicTokens)
  | remove : Does trie (.remove topicTokens) ((trie.remove topicTokens).getD trie)
  | matched : Does trie (.matched topicTokens (trie.matchTopic topicTokens)) trie
  | clear : Does trie .clear trie.clearNode

/-- The read loop is below the root in an operation that has not taken effect. -/
def Walk.pending : Walk → Bool
  | .inserting _ done _ | .removing done _ _ => done ≠ []
  | _ => false

namespace LockedTrie

open TrieNode

/-- What takes effect at a step of the read loop: its operation, and a clear
that has waited for it, before it if the clear has been where the operation is. -/
def walkEffects (s : LockedTrie) : List TrieAct :=
  match s.walk with
  | .inserting sub done [] =>
    if s.guards = [] then [.insert sub done]
    else if Due s.guards done then [.insert sub done, .clear]
    else [.clear, .insert sub done]
  | .removing done [] _ => .remove done :: if s.guards = [] then [] else [.clear]
  | .removing done (token :: rest) _ =>
    if s.root.hasNode (done ++ [token]) then []
    else .remove (done ++ token :: rest) :: if s.guards = [] then [] else [.clear]
  | _ => []

/-- What takes effect at a step. A clear does so at its start, if it need not
wait for an operation that is below the root. -/
def effects : LockedTrie × TrieEvent → List TrieAct
  | (_, .matched topicTokens subscriptions) => [.matched topicTokens subscriptions]
  | (s, .walk) => s.walkEffects
  | (s, .clear) => if s.walk.pending then [] else [.clear]
  | (s, .leave) =>
    match s.guards with
    | [(_, [])] => if s.walk.pending then [.clear] else []
    | _ => []
  | _ => []

theorem effects_leaves {s : LockedTrie} {guards : List Guarded}
    (hg : s.guards = (node, []) :: guards) :
    effects (s, .leave) = if guards = [] ∧ s.walk.pending then [.clear] else [] := by
  simp only [effects, hg]
  cases guards <;> simp

-- ---------------------------------------------------------------------------
-- What is stored, beside what should be
-- ---------------------------------------------------------------------------

section Stored

variable {root trie : TrieNode} {guards : List Guarded} {node : List String} {token : String}
  {tokens : List String}

/-- The clear has taken effect: what it has still to come to is gone already. -/
def Level (root : TrieNode) (guards : List Guarded) (trie : TrieNode) : Prop :=
  ∀ path, trie.subsAt path = if Due guards path then [] else root.subsAt path

/-- The clear has not taken effect: what it has come to should be there still. -/
def Behind (root : TrieNode) (guards : List Guarded) (trie : TrieNode) : Prop :=
  ∀ path, root.subsAt path = if Due guards path then trie.subsAt path else []

theorem level_nil : Level root [] trie ↔ ∀ path, trie.subsAt path = root.subsAt path := by
  simp only [Level, not_due_nil, if_false]

/-- Nothing is left at a node that is visited, nor below it off its children. -/
theorem subsAt_visited (root : TrieNode) (hp : node <+: path)
    (hc : ¬ ∃ token ∈ root.childTokens node, node ++ [token] <+: path) :
    (root.modifyAt clearSubscriptions node).subsAt path = [] := by
  rw [subsAt_modifyAt_clearSubscriptions]
  obtain ⟨rest, rfl⟩ := hp
  cases rest with
  | nil => rw [List.append_nil, if_pos rfl]
  | cons token rest =>
    have hpre : node ++ [token] <+: node ++ token :: rest := ⟨rest, by simp⟩
    rw [if_neg (by simp)]
    refine subsAt_of_not_hasNode ?_ hpre
    rw [← Bool.not_eq_true, ← mem_childTokens]
    exact fun hm => hc ⟨token, hm, hpre⟩

theorem Level.start (root : TrieNode) (ht : ∀ path, trie.subsAt path = []) :
    Level (root.modifyAt clearSubscriptions []) [([], root.childTokens [])] trie := by
  intro path
  rw [ht]
  split
  · rfl
  · rename_i hd
    rw [due_cons, or_iff_left not_due_nil] at hd
    exact (subsAt_visited root List.nil_prefix hd).symm

theorem Behind.start (h : ∀ path, trie.subsAt path = root.subsAt path) :
    Behind (root.modifyAt clearSubscriptions []) [([], root.childTokens [])] trie := by
  intro path
  split
  · rename_i hd
    rw [subsAt_modifyAt_clearSubscriptions, if_neg, h]
    rintro rfl
    simp [due_cons, not_due_nil] at hd
  · rename_i hd
    rw [due_cons, or_iff_left not_due_nil] at hd
    exact subsAt_visited root List.nil_prefix hd

/-- Where a visit does not come it changes nothing. -/
theorem subsAt_not_visited (root : TrieNode) (hp : ¬ node <+: path) :
    (root.modifyAt clearSubscriptions node).subsAt path = root.subsAt path := by
  rw [subsAt_modifyAt_clearSubscriptions, if_neg]
  rintro rfl
  exact hp (List.prefix_refl _)

theorem Level.visit (h : Level root ((node, tokens) :: guards) trie) (ht : token ∈ tokens) :
    Level (root.modifyAt clearSubscriptions (node ++ [token]))
      ((node ++ [token], root.childTokens (node ++ [token])) :: (node, tokens.erase token) ::
        guards) trie := by
  intro path
  rw [h path]
  by_cases hp : node ++ [token] <+: path
  · rw [if_pos (due_cons.mpr (.inl ⟨token, ht, hp⟩))]
    split
    · rfl
    · rename_i hd
      rw [due_cons, not_or] at hd
      exact (subsAt_visited root hp hd.1).symm
  · rw [subsAt_not_visited root hp, if_congr (due_visit hp) rfl rfl]

theorem Behind.visit (h : Behind root ((node, tokens) :: guards) trie) (ht : token ∈ tokens)
    (hc : Chained ((node ++ [token], root.childTokens (node ++ [token])) ::
      (node, tokens.erase token) :: guards)) :
    Behind (root.modifyAt clearSubscriptions (node ++ [token]))
      ((node ++ [token], root.childTokens (node ++ [token])) :: (node, tokens.erase token) ::
        guards) trie := by
  intro path
  by_cases hp : node ++ [token] <+: path
  · split
    · rename_i hd
      rw [due_cons, or_iff_left (hc.not_due hp)] at hd
      obtain ⟨token', _, hp'⟩ := hd
      rw [subsAt_modifyAt_clearSubscriptions, if_neg, h path,
        if_pos (due_cons.mpr (.inl ⟨token, ht, hp⟩))]
      rintro rfl
      simpa using hp'.length_le
    · rename_i hd
      rw [due_cons, not_or] at hd
      exact subsAt_visited root hp hd.1
  · rw [subsAt_not_visited root hp, h path, if_congr (due_visit hp) rfl rfl]

end Stored

-- ---------------------------------------------------------------------------
-- The trie under locks follows the other one
-- ---------------------------------------------------------------------------

/-- Where the read loop is there is something to be there for. -/
def WalkOk (root : TrieNode) : Walk → Prop
  | .inserting _ done _ => root.hasNode done
  | .unlinking node token _ => ∀ path, node ++ [token] <+: path → root.subsAt path = []
  | _ => True

structure Follows (s : LockedTrie) (trie : TrieNode) : Prop where
  keyed : s.root.Keyed
  chained : Chained s.guards
  walk : WalkOk s.root s.walk
  behind : s.guards ≠ [] → s.walk.pending → Behind s.root s.guards trie
  level : (s.guards ≠ [] → s.walk.pending = false) → Level s.root s.guards trie

variable {s s' : LockedTrie} {root trie trie' : TrieNode} {walk : Walk} {guards : List Guarded}
  {done node : List String}

theorem Follows.init : Follows {} .new where
  keyed := keyed_new
  chained := .nil
  walk := trivial
  behind h _ := absurd rfl h
  level _ := level_nil.mpr fun _ => rfl

/-- While a clear runs the root is locked, so the read loop goes on below it. -/
theorem Follows.pending_of_unlocked (h : Follows s trie)
    (hp : s.walk.pending = decide (done ≠ [])) (hl : s.locked done = false)
    (hg : s.guards ≠ []) : s.walk.pending := by
  rw [hp, decide_eq_true_eq]
  rintro rfl
  obtain ⟨g, hm, h0⟩ := h.chained.root_mem hg
  rw [locked, List.any_eq_false] at hl
  simpa [h0] using hl g hm

theorem Follows.same (h : Follows s trie) (hg : s.guards = []) (path : List String) :
    trie.subsAt path = s.root.subsAt path := by
  have hl : Level s.root s.guards trie := h.level fun hne => absurd hg hne
  rw [hg] at hl
  exact level_nil.mp hl path

/-- A step of the read loop that stores nothing and takes nothing away. -/
theorem Follows.edit (h : Follows s trie) (hk : root.Keyed)
    (hsubs : ∀ path, root.subsAt path = s.root.subsAt path) (hw : WalkOk root walk)
    (hp : s.guards ≠ [] → walk.pending = s.walk.pending) :
    Follows { s with root, walk } trie where
  keyed := hk
  chained := h.chained
  walk := hw
  behind hg hpend path := by
    rw [hsubs]
    exact h.behind hg (hp hg ▸ hpend) path
  level hnp path := by
    rw [hsubs]
    exact h.level (fun hg => hp hg ▸ hnp hg) path

/-- A step of the read loop with which its operation takes effect, and a clear
that has waited for it. -/
theorem Follows.settle (h : Follows s trie) (hk : root.Keyed) (hw : WalkOk root walk)
    (hp : walk.pending = false) (hl : Level root s.guards trie') :
    Follows { s with root, walk } trie' where
  keyed := hk
  chained := h.chained
  walk := hw
  behind _ hpend := absurd hpend (by simp [hp])
  level _ := hl

theorem Follows.makes (h : Follows s trie) (hwalk : s.walk = .inserting sub done (token :: rest))
    (hl : s.locked done = false) :
    Follows { s with
      root := s.root.modifyAt (ensureChild token) done
      walk := .inserting sub (done ++ [token]) rest } trie := by
  have hw : WalkOk s.root s.walk := h.walk
  rw [hwalk] at hw
  refine h.edit (h.keyed.modifyAt (fun _ hn => hn.ensureChild token) done)
    (fun _ => subsAt_modifyAt_ensureChild s.root done token)
    (hasNode_modifyAt_ensureChild s.root hw token) fun hg => ?_
  rw [h.pending_of_unlocked (by rw [hwalk]; rfl) hl hg]
  simp [Walk.pending]

theorem Follows.pushes (h : Follows s trie) (hwalk : s.walk = .inserting sub done [])
    (hl : s.locked done = false) :
    ∃ trie', Lts.Path TrieAct.Does trie
      (if s.guards = [] then [.insert sub done]
        else if Due s.guards done then [.insert sub done, .clear]
        else [.clear, .insert sub done]) trie' ∧
      Follows { s with root := s.root.modifyAt (push sub) done, walk := .idle } trie' := by
  have hw : WalkOk s.root s.walk := h.walk
  rw [hwalk] at hw
  have hk : (s.root.modifyAt (push sub) done).Keyed :=
    h.keyed.modifyAt (fun _ hn => hn.push sub) done
  have hsubs (path : List String) : (s.root.modifyAt (push sub) done).subsAt path =
      if done = path then s.root.subsAt path ++ [sub] else s.root.subsAt path :=
    subsAt_modifyAt_push s.root hw sub
  by_cases hg : s.guards = []
  · rw [if_pos hg]
    refine ⟨_, .single .insert, h.settle hk trivial rfl ?_⟩
    rw [hg, level_nil]
    intro path
    rw [subsAt_insert, hsubs, h.same hg]
  · have hb : Behind s.root s.guards trie :=
      h.behind hg (h.pending_of_unlocked (by rw [hwalk]; rfl) hl hg)
    rw [if_neg hg]
    by_cases hd : Due s.guards done
    · -- the clear has still to come here: it takes what is pushed with it
      rw [if_pos hd]
      refine ⟨_, (Lts.Path.single .insert).snoc .clear, h.settle hk trivial rfl fun path => ?_⟩
      rw [subsAt_clearNode, hsubs]
      split
      · rfl
      · rename_i hn
        rw [if_neg fun hp : done = path => hn (hp ▸ hd), hb path, if_neg hn]
    · rw [if_neg hd]
      refine ⟨_, (Lts.Path.single .clear).snoc .insert, h.settle hk trivial rfl fun path => ?_⟩
      rw [subsAt_insert, subsAt_clearNode, hsubs, hb path]
      by_cases hp : done = path
      · rw [if_pos hp, if_pos hp, ← hp, if_neg hd, if_neg hd]
      · rw [if_neg hp, if_neg hp]
        split <;> rfl

/-- A removal, of what is there or not. -/
theorem Follows.removes (h : Follows s trie) (hpend : s.guards ≠ [] → s.walk.pending)
    (hk : root.Keyed) (hw : WalkOk root walk) (hp : walk.pending = false)
    (hsubs : ∀ path', root.subsAt path' = if path = path' then [] else s.root.subsAt path') :
    ∃ trie', Lts.Path TrieAct.Does trie
      (.remove path :: if s.guards = [] then [] else [.clear]) trie' ∧
      Follows { s with root, walk } trie' := by
  by_cases hg : s.guards = []
  · rw [if_pos hg]
    refine ⟨_, .single .remove, h.settle hk hw hp ?_⟩
    rw [hg, level_nil]
    intro path'
    rw [subsAt_getD_remove, hsubs, h.same hg]
  · rw [if_neg hg]
    refine ⟨_, (Lts.Path.single .remove).snoc .clear, h.settle hk hw hp fun path' => ?_⟩
    rw [subsAt_clearNode, hsubs, h.behind hg (hpend hg) path']
    split
    · rfl
    · split <;> rfl

theorem WalkOk.visit (h : WalkOk root walk) (node : List String) :
    WalkOk (root.modifyAt clearSubscriptions node) walk := by
  cases walk with
  | inserting sub done rest =>
    rw [WalkOk, hasNode_modifyAt_clearSubscriptions]
    exact h
  | unlinking parent token nodesToCleanup =>
    intro path hp
    rw [subsAt_modifyAt_clearSubscriptions]
    split
    · rfl
    · exact h path hp
  | idle | removing _ _ _ | cleaning _ => trivial

theorem Follows.clear (h : Follows s trie) (hg : s.guards = []) :
    ∃ trie', Lts.Path TrieAct.Does trie (effects (s, .clear)) trie' ∧
      Follows { s with
        root := s.root.modifyAt clearSubscriptions []
        guards := [([], s.root.childTokens [])] } trie' := by
  have hk : (s.root.modifyAt clearSubscriptions []).Keyed :=
    h.keyed.modifyAt (fun _ hn => hn.clearSubscriptions) []
  have hc : Chained [([], s.root.childTokens [])] := .root (h.keyed.nodup_childTokens [])
  simp only [effects]
  cases hp : s.walk.pending with
  | true =>
    refine ⟨trie, .nil, hk, hc, h.walk.visit [], fun _ _ => .start (h.same hg), fun hnp => ?_⟩
    exact absurd (hnp (List.cons_ne_nil _ _)) (by simp [hp])
  | false =>
    exact ⟨_, .single .clear, hk, hc, h.walk.visit [], fun _ hpend => absurd hpend (by simp [hp]),
      fun _ => .start s.root fun _ => subsAt_clearNode trie _⟩

theorem Follows.visits (h : Follows s trie) (hg : s.guards = (node, tokens) :: guards)
    (ht : token ∈ tokens) :
    Follows { s with
      root := s.root.modifyAt clearSubscriptions (node ++ [token])
      guards := (node ++ [token], s.root.childTokens (node ++ [token])) ::
        (node, tokens.erase token) :: guards } trie := by
  have hne : s.guards ≠ [] := hg ▸ List.cons_ne_nil _ _
  have hc := (hg ▸ h.chained).visit token (h.keyed.nodup_childTokens (node ++ [token]))
  exact ⟨h.keyed.modifyAt (fun _ hn => hn.clearSubscriptions) _, hc, h.walk.visit _,
    fun _ hp => (hg ▸ h.behind hne hp).visit ht hc,
    fun hnp => (hg ▸ h.level fun _ => hnp (List.cons_ne_nil _ _)).visit ht⟩

theorem Follows.leaves (h : Follows s trie) (hg : s.guards = (node, []) :: guards) :
    ∃ trie', Lts.Path TrieAct.Does trie (effects (s, .leave)) trie' ∧
      Follows { s with guards := guards } trie' := by
  have hne : s.guards ≠ [] := hg ▸ List.cons_ne_nil _ _
  have hc : Chained guards := (hg ▸ h.chained).tail
  have hb (hp : s.walk.pending) : Behind s.root guards trie := fun path => by
    rw [h.behind hne hp path, hg, if_congr due_done rfl rfl]
  have hl (hp : s.walk.pending = false) : Level s.root guards trie := fun path => by
    rw [h.level (fun _ => hp) path, hg, if_congr due_done rfl rfl]
  rw [effects_leaves hg]
  by_cases hclear : guards = [] ∧ s.walk.pending
  · obtain ⟨rfl, hp⟩ := hclear
    rw [if_pos ⟨rfl, hp⟩]
    refine ⟨_, .single .clear, h.keyed, hc, h.walk, fun hg => absurd rfl hg, fun _ => ?_⟩
    exact level_nil.mpr fun path => by rw [subsAt_clearNode, hb hp path, if_neg not_due_nil]
  · rw [if_neg hclear]
    refine ⟨trie, .nil, h.keyed, hc, h.walk, fun _ => hb, fun hnp => hl ?_⟩
    by_cases hg' : guards = []
    · simpa [hg'] using hclear
    · exact hnp hg'

theorem Follows.step (h : Follows s trie) (hm : Moved s e s') :
    ∃ trie', Lts.Path TrieAct.Does trie (effects (s, e)) trie' ∧ Follows s' trie' := by
  have hw : WalkOk s.root s.walk := h.walk
  cases hm with
  | insert hwalk =>
    exact ⟨trie, .nil, h.edit h.keyed (fun _ => rfl) (hasNode_nil _)
      fun _ => by simp [hwalk, Walk.pending]⟩
  | remove hwalk =>
    exact ⟨trie, .nil, h.edit h.keyed (fun _ => rfl) trivial
      fun _ => by simp [hwalk, Walk.pending]⟩
  | matched hwalk hg =>
    refine ⟨trie, ?_, h⟩
    rw [effects, ← matchTopic_congr (h.same hg)]
    exact .single .matched
  | makes hwalk hl =>
    simp only [effects, walkEffects, hwalk]
    exact ⟨trie, .nil, h.makes hwalk hl⟩
  | pushes hwalk hl =>
    simp only [effects, walkEffects, hwalk]
    exact h.pushes hwalk hl
  | finds hwalk hl hn =>
    simp only [effects, walkEffects, hwalk]
    simp only [hn, if_true]
    refine ⟨trie, .nil, h.edit h.keyed (fun _ => rfl) trivial fun hg => ?_⟩
    rw [h.pending_of_unlocked (by rw [hwalk]; rfl) hl hg]
    simp [Walk.pending]
  | misses hwalk hl hn =>
    simp only [effects, walkEffects, hwalk]
    simp only [hn, Bool.false_eq_true, if_false]
    refine h.removes (h.pending_of_unlocked (by rw [hwalk]; rfl) hl) h.keyed trivial rfl
      fun path => ?_
    split
    · rename_i hp
      exact subsAt_of_not_hasNode hn ⟨_, by rw [← hp, List.append_assoc, List.singleton_append]⟩
    · rfl
  | empties hwalk hl =>
    simp only [effects, walkEffects, hwalk]
    exact h.removes (h.pending_of_unlocked (by rw [hwalk]; rfl) hl)
      (h.keyed.modifyAt (fun _ hn => hn.clearSubscriptions) _) trivial rfl
      fun _ => subsAt_modifyAt_clearSubscriptions s.root _
  | returns hwalk =>
    simp only [effects, walkEffects, hwalk]
    exact ⟨trie, .nil, h.edit h.keyed (fun _ => rfl) trivial
      fun _ => by simp [hwalk, Walk.pending]⟩
  | condemns hwalk hr =>
    simp only [effects, walkEffects, hwalk]
    exact ⟨trie, .nil, h.edit h.keyed (fun _ => rfl) (fun _ hp => subsAt_of_isEmpty hr hp)
      fun _ => by simp [hwalk, Walk.pending]⟩
  | keeps hwalk _ =>
    simp only [effects, walkEffects, hwalk]
    exact ⟨trie, .nil, h.edit h.keyed (fun _ => rfl) trivial
      fun _ => by simp [hwalk, Walk.pending]⟩
  | unlinks hwalk =>
    simp only [effects, walkEffects, hwalk]
    rw [hwalk] at hw
    refine ⟨trie, .nil, h.edit (h.keyed.modifyAt (fun _ hn => hn.dropChild _) _) (fun path => ?_)
      trivial fun _ => by simp [hwalk, Walk.pending]⟩
    rw [subsAt_modifyAt_dropChild]
    split
    · rename_i hp
      exact (hw path hp).symm
    · rfl
  | clear hg => exact h.clear hg
  | visits hg ht => exact ⟨trie, .nil, h.visits hg ht⟩
  | leaves hg => exact h.leaves hg

-- ---------------------------------------------------------------------------
-- Between start and end
-- ---------------------------------------------------------------------------

/-- The operation of the read loop that starts. -/
def calls : LockedTrie × TrieEvent → List TrieAct
  | (_, .insert sub topicTokens) => [.insert sub topicTokens]
  | (_, .remove topicTokens) => [.remove topicTokens]
  | (_, .matched topicTokens subscriptions) => [.matched topicTokens subscriptions]
  | _ => []

/-- The clear that starts. -/
def clears : LockedTrie × TrieEvent → List TrieAct
  | (_, .clear) => [.clear]
  | _ => []

/-- The operation of the read loop that has started and not taken effect. -/
def owedCall (s : LockedTrie) : List TrieAct :=
  match s.walk with
  | .inserting sub done rest => [.insert sub (done ++ rest)]
  | .removing done rest _ => [.remove (done ++ rest)]
  | _ => []

/-- The clear that has started and not taken effect. -/
def owedClear (s : LockedTrie) : List TrieAct :=
  if s.guards ≠ [] ∧ s.walk.pending then [.clear] else []

theorem owedCall_step (hm : Moved s e s') :
    s.owedCall ++ calls (s, e) = (effects (s, e)).filter (· ≠ .clear) ++ s'.owedCall := by
  cases hm with
  | insert hwalk | remove hwalk | matched hwalk _ => simp [owedCall, calls, effects, hwalk]
  | pushes hwalk _ =>
    simp only [owedCall, calls, effects, walkEffects, hwalk, List.append_nil]
    split
    · rfl
    · split <;> rfl
  | misses hwalk _ hn =>
    simp only [owedCall, calls, effects, walkEffects, hwalk, hn]
    by_cases hg : s.guards = [] <;> simp [hg]
  | empties hwalk _ =>
    simp only [owedCall, calls, effects, walkEffects, hwalk]
    by_cases hg : s.guards = [] <;> simp [hg]
  | finds hwalk _ hn => simp [owedCall, calls, effects, walkEffects, hwalk, hn]
  | makes hwalk _ | returns hwalk | condemns hwalk _ | keeps hwalk _ | unlinks hwalk =>
    simp [owedCall, calls, effects, walkEffects, hwalk]
  | clear _ =>
    simp only [owedCall, calls, effects]
    cases s.walk.pending <;> simp
  | visits _ _ => simp [owedCall, calls, effects]
  | @leaves node guards hg =>
    rw [effects_leaves hg]
    by_cases hclear : guards = [] ∧ s.walk.pending <;> simp [owedCall, calls, hclear]

/-- A clear that runs while the read loop goes on below the root waits for it. -/
theorem Follows.owedClear_of_unlocked (h : Follows s trie) (hl : s.locked done = false)
    (hp : s.walk.pending = decide (done ≠ [])) :
    s.owedClear = if s.guards = [] then [] else [.clear] := by
  by_cases hg : s.guards = []
  · simp [owedClear, hg]
  · simp [owedClear, hg, h.pending_of_unlocked hp hl hg]

theorem owedClear_of_not_pending (hp : s.walk.pending = false) : s.owedClear = [] := by
  simp [owedClear, hp]

theorem owedClear_step (h : Follows s trie) (hm : Moved s e s') :
    s.owedClear ++ clears (s, e) = (effects (s, e)).filter (· = .clear) ++ s'.owedClear := by
  cases hm with
  | insert hwalk | remove hwalk | matched hwalk _ =>
    simp [owedClear, clears, effects, hwalk, Walk.pending]
  | makes hwalk hl =>
    rw [h.owedClear_of_unlocked hl (by rw [hwalk]; rfl)]
    by_cases hg : s.guards = [] <;>
      simp [owedClear, clears, effects, walkEffects, hwalk, Walk.pending, hg]
  | finds hwalk hl hn =>
    rw [h.owedClear_of_unlocked hl (by rw [hwalk]; rfl)]
    by_cases hg : s.guards = [] <;>
      simp [owedClear, clears, effects, walkEffects, hwalk, hn, Walk.pending, hg]
  | pushes hwalk hl =>
    rw [h.owedClear_of_unlocked hl (by rw [hwalk]; rfl), owedClear_of_not_pending rfl]
    simp only [clears, effects, walkEffects, hwalk, List.append_nil]
    split
    · rfl
    · split <;> rfl
  | misses hwalk hl hn =>
    rw [h.owedClear_of_unlocked hl (by rw [hwalk]; rfl), owedClear_of_not_pending rfl]
    by_cases hg : s.guards = [] <;> simp [clears, effects, walkEffects, hwalk, hn, hg]
  | empties hwalk hl =>
    rw [h.owedClear_of_unlocked hl (by rw [hwalk]; rfl), owedClear_of_not_pending rfl]
    by_cases hg : s.guards = [] <;> simp [clears, effects, walkEffects, hwalk, hg]
  | returns hwalk | condemns hwalk _ | keeps hwalk _ | unlinks hwalk =>
    simp [owedClear, clears, effects, walkEffects, hwalk, Walk.pending]
  | clear hg =>
    simp only [owedClear, clears, effects, hg]
    cases s.walk.pending <;> simp
  | visits hg _ => simp [owedClear, clears, effects, hg]
  | @leaves node guards hg =>
    rw [effects_leaves hg]
    cases hp : s.walk.pending with
    | false => simp [owedClear, clears, hp]
    | true => by_cases hg' : guards = [] <;> simp [owedClear, clears, hg, hp, hg']

theorem follows (hr : Lts.Run step Lts.anything {} h s) :
    ∃ trie, Lts.Path TrieAct.Does .new (Lts.shown effects h) trie ∧ Follows s trie :=
  hr.simulates .init fun _ hf _ hs => hf.step (.of_step hs)

/-- In every run the operations that have taken effect give the trie that does
each at once in this order. Those of the read loop are its calls, in order and
but for the one it is in; the clears are those started, but for one that waits
for an operation; and when no clear runs both tries store the same. -/
theorem linearizable (hr : Lts.Run step Lts.anything {} h s) :
    ∃ trie, Lts.Path TrieAct.Does .new (Lts.shown effects h) trie ∧
      (Lts.shown effects h).filter (· ≠ .clear) ++ s.owedCall = Lts.shown calls h ∧
      (Lts.shown effects h).filter (· = .clear) ++ s.owedClear = Lts.shown clears h ∧
      (s.guards = [] → ∀ path, s.root.subsAt path = trie.subsAt path) := by
  obtain ⟨trie, hp, hf⟩ := follows hr
  refine ⟨trie, hp, ?_, ?_, fun hg path => (hf.same hg path).symm⟩
  · rw [Lts.filter_shown]
    exact hr.ledger rfl fun _ hs => owedCall_step (.of_step hs)
  · rw [Lts.filter_shown]
    refine hr.ledger rfl fun hr hs => ?_
    obtain ⟨trie, _, hf⟩ := follows hr
    exact owedClear_step hf (.of_step hs)

/-- The second of two subscriptions is pushed where the clear has been: the
clear takes effect between them, although the second had started before it. -/
theorem linearizable_clear : ∃ h s trie, Lts.Run step Lts.anything {} h s ∧
    Lts.shown effects h = [.insert ⟨"a/b", .level0, 7⟩ ["a", "b"], .clear,
      .insert ⟨"a/b", .level0, 8⟩ ["a", "b"], .matched ["a", "b"] [⟨"a/b", .level0, 8⟩]] ∧
    Lts.Path TrieAct.Does .new (Lts.shown effects h) trie ∧
    ∀ path, s.root.subsAt path = trie.subsAt path := by
  obtain ⟨h, s, hr, ht⟩ := Lts.exists_run step Lts.anything {}
    [.insert ⟨"a/b", .level0, 7⟩ ["a", "b"], .walk, .walk, .walk,
      .insert ⟨"a/b", .level0, 8⟩ ["a", "b"], .walk, .walk, .clear, .visit "a", .visit "b",
      .leave, .walk, .leave, .leave, .matched ["a", "b"] [⟨"a/b", .level0, 8⟩]]
    (fun h s => s.guards = [] && Lts.shown effects h =
      [.insert ⟨"a/b", .level0, 7⟩ ["a", "b"], .clear, .insert ⟨"a/b", .level0, 8⟩ ["a", "b"],
        .matched ["a", "b"] [⟨"a/b", .level0, 8⟩]]) (by decide +kernel)
  simp only [Bool.and_eq_true, decide_eq_true_eq] at ht
  obtain ⟨trie, hp, -, -, hsame⟩ := linearizable hr
  exact ⟨h, s, trie, hr, ht.2, hp, hsame ht.1⟩

end LockedTrie

end MesquitteClient
