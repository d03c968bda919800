import MesquitteClient.TrieNodes

/-!
# One node at a time

The source changes a trie under the lock of one node at a time: it makes a
child, pushes a subscription, clears the subscriptions or takes a child out.
`modifyAt` makes such a change to the node under a path; each change is
described by what it does to `subsAt` and `hasNode`.
-/

namespace MesquitteClient

namespace TrieNode

/-- The node under a path. -/
def nodeAt? : TrieNode → List String → Option TrieNode
  | node, [] => some node
  | node, token :: rest => (node.child? token).bind fun next => next.nodeAt? rest

/-- The trie with the node under a path changed, if there is one. -/
def modifyAt (f : TrieNode → TrieNode) : TrieNode → List String → TrieNode
  | node, [] => f node
  | .mk children subscriptions, token :: rest =>
    match children.lookup token with
    | some next => .mk (setChild children token (next.modifyAt f rest)) subscriptions
    | none => .mk children subscriptions

/-- `children.entry(token).or_insert_with(..)`. -/
def ensureChild (token : String) : TrieNode → TrieNode
  | .mk children subscriptions =>
    match children.lookup token with
    | some _ => .mk children subscriptions
    | none => .mk (setChild children token new) subscriptions

/-- `subscriptions.push(sub)`. -/
def push (sub : Subscription) : TrieNode → TrieNode
  | .mk children subscriptions => .mk children (subscriptions ++ [sub])

/-- `subscriptions.clear()`. -/
def clearSubscriptions : TrieNode → TrieNode
  | .mk children _ => .mk children []

/-- `children.remove(token)`. -/
def dropChild (token : String) : TrieNode → TrieNode
  | .mk children subscriptions => .mk (eraseChild children token) subscriptions

/-- The tokens of the children of the node under a path. -/
def childTokens (node : TrieNode) (path : List String) : List String :=
  (node.nodeAt? path).elim [] fun next => next.children.map Prod.fst

/-- A node without children and subscriptions. -/
def isEmpty (node : TrieNode) : Bool := node.children.isEmpty && node.subscriptions.isEmpty

-- ---------------------------------------------------------------------------
-- The node under a path
-- ---------------------------------------------------------------------------

theorem hasNode_eq (node : TrieNode) (path : List String) :
    node.hasNode path = (node.nodeAt? path).isSome := by
  induction path generalizing node with
  | nil => simp [nodeAt?]
  | cons token rest ih =>
    rw [hasNode, nodeAt?]
    cases node.child? token with
    | none => rfl
    | some next => exact ih next

theorem subsAt_append (node : TrieNode) (path rest : List String) :
    node.subsAt (path ++ rest) = (node.nodeAt? path).elim [] fun next => next.subsAt rest := by
  induction path generalizing node with
  | nil => rfl
  | cons token path ih =>
    rw [List.cons_append, subsAt, nodeAt?]
    cases node.child? token with
    | none => rfl
    | some next => exact ih next

theorem hasNode_append (node : TrieNode) (path rest : List String) :
    node.hasNode (path ++ rest) = (node.nodeAt? path).elim false fun next => next.hasNode rest := by
  induction path generalizing node with
  | nil => rfl
  | cons token path ih =>
    rw [List.cons_append, hasNode, nodeAt?]
    cases node.child? token with
    | none => rfl
    | some next => exact ih next

theorem child?_modifyAt (f : TrieNode → TrieNode) (node : TrieNode) (token : String)
    (rest : List String) (other : String) : (node.modifyAt f (token :: rest)).child? other =
      if token = other then (node.child? token).map fun next => next.modifyAt f rest
      else node.child? other := by
  obtain ⟨children, subs⟩ := node
  simp only [modifyAt, child?, TrieNode.children]
  cases hc : children.lookup token with
  | none =>
    by_cases ht : token = other
    · simp [← ht, hc]
    · simp [ht]
  | some next => simp [lookup_setChild]

theorem subscriptions_modifyAt (f : TrieNode → TrieNode) (node : TrieNode) (token : String)
    (rest : List String) :
    (node.modifyAt f (token :: rest)).subscriptions = node.subscriptions := by
  obtain ⟨children, subs⟩ := node
  rw [modifyAt]
  cases children.lookup token <;> rfl

theorem nodeAt?_modifyAt (f : TrieNode → TrieNode) (node : TrieNode) (path : List String) :
    (node.modifyAt f path).nodeAt? path = (node.nodeAt? path).map f := by
  induction path generalizing node with
  | nil => rfl
  | cons token rest ih =>
    rw [nodeAt?, child?_modifyAt, if_pos rfl, nodeAt?]
    cases node.child? token with
    | none => rfl
    | some next => exact ih next

theorem subsAt_modifyAt_append (f : TrieNode → TrieNode) (node : TrieNode)
    (path rest : List String) : (node.modifyAt f path).subsAt (path ++ rest) =
      (node.nodeAt? path).elim [] fun next => (f next).subsAt rest := by
  rw [subsAt_append, nodeAt?_modifyAt]
  cases node.nodeAt? path <;> rfl

theorem hasNode_modifyAt_append (f : TrieNode → TrieNode) (node : TrieNode)
    (path rest : List String) : (node.modifyAt f path).hasNode (path ++ rest) =
      (node.nodeAt? path).elim false fun next => (f next).hasNode rest := by
  rw [hasNode_append, nodeAt?_modifyAt]
  cases node.nodeAt? path <;> rfl

/-- Off the path nothing changes. -/
theorem subsAt_modifyAt (f : TrieNode → TrieNode) (node : TrieNode) (hp : ¬ path <+: path') :
    (node.modifyAt f path).subsAt path' = node.subsAt path' := by
  induction path generalizing node path' with
  | nil => exact absurd List.nil_prefix hp
  | cons token rest ih =>
    cases path' with
    | nil => rw [subsAt_nil, subsAt_nil, subscriptions_modifyAt]
    | cons token' rest' =>
      rw [subsAt, child?_modifyAt, subsAt]
      by_cases ht : token = token'
      · subst ht
        have hrest : ¬ rest <+: rest' := fun h => hp (List.cons_prefix_cons.mpr ⟨rfl, h⟩)
        rw [if_pos rfl]
        cases node.child? token with
        | none => rfl
        | some next => exact ih next hrest
      · rw [if_neg ht]

theorem hasNode_modifyAt (f : TrieNode → TrieNode) (node : TrieNode) (hp : ¬ path <+: path') :
    (node.modifyAt f path).hasNode path' = node.hasNode path' := by
  induction path generalizing node path' with
  | nil => exact absurd List.nil_prefix hp
  | cons token rest ih =>
    cases path' with
    | nil => rw [hasNode_nil, hasNode_nil]
    | cons token' rest' =>
      rw [hasNode, child?_modifyAt, hasNode]
      by_cases ht : token = token'
      · subst ht
        have hrest : ¬ rest <+: rest' := fun h => hp (List.cons_prefix_cons.mpr ⟨rfl, h⟩)
        rw [if_pos rfl]
        cases node.child? token with
        | none => rfl
        | some next => exact ih next hrest
      · rw [if_neg ht]

/-- A change that makes nothing below its node makes no node. -/
theorem hasNode_of_modifyAt {node : TrieNode}
    (hf : ∀ {next : TrieNode} {path}, (f next).hasNode path → next.hasNode path)
    (h : (node.modifyAt f path).hasNode path') : node.hasNode path' := by
  by_cases hp : path <+: path'
  · obtain ⟨rest, rfl⟩ := hp
    rw [hasNode_modifyAt_append] at h
    rw [hasNode_append]
    cases hn : node.nodeAt? path with
    | none => simp [hn] at h
    | some next =>
      rw [hn] at h
      exact hf h
  · rwa [hasNode_modifyAt f node hp] at h

-- ---------------------------------------------------------------------------
-- What each change does
-- ---------------------------------------------------------------------------

theorem child?_ensureChild (token : String) (node : TrieNode) :
    (node.ensureChild token).child? other =
      if token = other then some ((node.child? token).getD new) else node.child? other := by
  obtain ⟨children, subs⟩ := node
  simp only [ensureChild, child?, TrieNode.children]
  cases hc : children.lookup token with
  | none => simp [lookup_setChild]
  | some next =>
    by_cases ht : token = other
    · simp [← ht, hc]
    · simp [ht]

theorem child?_dropChild (token : String) (node : TrieNode) :
    (node.dropChild token).child? other = if token = other then none else node.child? other := by
  obtain ⟨children, subs⟩ := node
  simp [dropChild, child?, TrieNode.children, lookup_eraseChild]

theorem subsAt_ensureChild (token : String) (node : TrieNode) (path : List String) :
    (node.ensureChild token).subsAt path = node.subsAt path := by
  cases path with
  | nil =>
    obtain ⟨children, subs⟩ := node
    rw [subsAt_nil, subsAt_nil, ensureChild]
    cases children.lookup token <;> rfl
  | cons other rest =>
    rw [subsAt, child?_ensureChild, subsAt]
    by_cases ht : token = other
    · subst ht
      rw [if_pos rfl]
      cases node.child? token with
      | none => exact subsAt_new
      | some next => rfl
    · rw [if_neg ht]

/-- Making a child stores nothing. -/
theorem subsAt_modifyAt_ensureChild (node : TrieNode) (path : List String) (token : String) :
    (node.modifyAt (ensureChild token) path).subsAt path' = node.subsAt path' := by
  by_cases hp : path <+: path'
  · obtain ⟨rest, rfl⟩ := hp
    rw [subsAt_modifyAt_append, subsAt_append]
    cases node.nodeAt? path with
    | none => rfl
    | some next => exact subsAt_ensureChild token next rest
  · exact subsAt_modifyAt _ node hp

theorem hasNode_modifyAt_ensureChild (node : TrieNode) (h : node.hasNode path) (token : String) :
    (node.modifyAt (ensureChild token) path).hasNode (path ++ [token]) := by
  rw [hasNode_modifyAt_append]
  rw [hasNode_eq, Option.isSome_iff_exists] at h
  obtain ⟨next, hn⟩ := h
  rw [hn, Option.elim_some, hasNode_cons]
  exact ⟨_, by rw [child?_ensureChild, if_pos rfl], hasNode_nil _⟩

theorem of_hasNode_ensureChild {node : TrieNode} (h : (node.ensureChild token).hasNode path) :
    node.hasNode path ∨ path = [token] := by
  cases path with
  | nil => exact .inl (hasNode_nil _)
  | cons other rest =>
    obtain ⟨next, hc, hn⟩ := (hasNode_cons _).mp h
    rw [child?_ensureChild] at hc
    by_cases ht : token = other
    · subst ht
      rw [if_pos rfl, Option.some.injEq] at hc
      cases hc' : node.child? token with
      | some next' =>
        rw [hc', Option.getD_some] at hc
        exact .inl ((hasNode_cons _).mpr ⟨next', hc', hc ▸ hn⟩)
      | none =>
        rw [hc', Option.getD_none] at hc
        rw [← hc, hasNode_new] at hn
        exact .inr (hn ▸ rfl)
    · rw [if_neg ht] at hc
      exact .inl ((hasNode_cons _).mpr ⟨next, hc, hn⟩)

theorem of_hasNode_modifyAt_ensureChild {node : TrieNode}
    (h : (node.modifyAt (ensureChild token) path).hasNode path') :
    node.hasNode path' ∨ path' = path ++ [token] := by
  by_cases hp : path <+: path'
  · obtain ⟨rest, rfl⟩ := hp
    rw [hasNode_modifyAt_append] at h
    rw [hasNode_append]
    cases hn : node.nodeAt? path with
    | none => simp [hn] at h
    | some next =>
      rw [hn, Option.elim_some] at h
      exact (of_hasNode_ensureChild h).imp_right fun hr : rest = [token] => by rw [hr]
  · rw [hasNode_modifyAt _ node hp] at h
    exact .inl h

theorem hasNode_push (sub : Subscription) (node : TrieNode) (path : List String) :
    (node.push sub).hasNode path = node.hasNode path := by
  obtain ⟨children, subs⟩ := node
  cases path <;> simp [push, hasNode, child?, TrieNode.children]

theorem hasNode_of_dropChild {node : TrieNode} (h : (node.dropChild token).hasNode path) :
    node.hasNode path := by
  cases path with
  | nil => exact hasNode_nil _
  | cons other rest =>
    obtain ⟨next, hc, hn⟩ := (hasNode_cons _).mp h
    rw [child?_dropChild] at hc
    exact (hasNode_cons _).mpr ⟨next, (Option.ite_none_left_eq_some.mp hc).2, hn⟩

/-- A push stores where there is a node. -/
theorem subsAt_modifyAt_push (node : TrieNode) (h : node.hasNode path) (sub : Subscription) :
    (node.modifyAt (push sub) path).subsAt path' =
      if path = path' then node.subsAt path' ++ [sub] else node.subsAt path' := by
  by_cases hp : path <+: path'
  · obtain ⟨rest, rfl⟩ := hp
    rw [subsAt_modifyAt_append, subsAt_append]
    rw [hasNode_eq, Option.isSome_iff_exists] at h
    obtain ⟨⟨children, subs⟩, hn⟩ := h
    rw [hn]
    cases rest with
    | nil => simp [push, TrieNode.subscriptions]
    | cons token rest => simp [push, subsAt, child?, TrieNode.children]
  · rw [subsAt_modifyAt _ node hp, if_neg]
    rintro rfl
    exact hp (List.prefix_refl _)

theorem subsAt_modifyAt_clearSubscriptions (node : TrieNode) (path : List String) :
    (node.modifyAt clearSubscriptions path).subsAt path' =
      if path = path' then [] else node.subsAt path' := by
  by_cases hp : path <+: path'
  · obtain ⟨rest, rfl⟩ := hp
    rw [subsAt_modifyAt_append, subsAt_append]
    cases node.nodeAt? path with
    | none => simp
    | some next =>
      obtain ⟨children, subs⟩ := next
      cases rest with
      | nil => simp [clearSubscriptions, TrieNode.subscriptions]
      | cons token rest => simp [clearSubscriptions, subsAt, child?, TrieNode.children]
  · rw [subsAt_modifyAt _ node hp, if_neg]
    rintro rfl
    exact hp (List.prefix_refl _)

theorem hasNode_modifyAt_clearSubscriptions (node : TrieNode) (path path' : List String) :
    (node.modifyAt clearSubscriptions path).hasNode path' = node.hasNode path' := by
  by_cases hp : path <+: path'
  · obtain ⟨rest, rfl⟩ := hp
    rw [hasNode_modifyAt_append, hasNode_append]
    cases node.nodeAt? path with
    | none => rfl
    | some next =>
      obtain ⟨children, subs⟩ := next
      cases rest with
      | nil => simp
      | cons token rest => simp [clearSubscriptions, hasNode, child?, TrieNode.children]
  · exact hasNode_modifyAt _ node hp

/-- Taking a child out takes out what is stored below it. -/
theorem subsAt_modifyAt_dropChild (node : TrieNode) (path : List String) (token : String) :
    (node.modifyAt (dropChild token) path).subsAt path' =
      if path ++ [token] <+: path' then [] else node.subsAt path' := by
  by_cases hp : path <+: path'
  · obtain ⟨rest, rfl⟩ := hp
    rw [subsAt_modifyAt_append, subsAt_append]
    simp only [List.prefix_append_right_inj]
    cases node.nodeAt? path with
    | none => simp
    | some next =>
      cases rest with
      | nil =>
        obtain ⟨children, subs⟩ := next
        simp [dropChild, TrieNode.subscriptions]
      | cons other rest =>
        simp only [Option.elim_some, subsAt, child?_dropChild,
          List.cons_prefix_cons, List.nil_prefix, and_true]
        by_cases ht : token = other
        · rw [if_pos ht, if_pos ht]
        · rw [if_neg ht, if_neg ht]
  · rw [subsAt_modifyAt _ node hp, if_neg]
    intro h
    exact hp ((List.prefix_append path [token]).trans h)

-- ---------------------------------------------------------------------------
-- The children of a node
-- ---------------------------------------------------------------------------

theorem lookup_isSome {cs : List (String × TrieNode)} :
    (cs.lookup token).isSome ↔ token ∈ cs.map Prod.fst := by
  induction cs with
  | nil => simp
  | cons p cs ih =>
    obtain ⟨token', child⟩ := p
    rw [List.lookup_cons]
    by_cases ht : token = token'
    · simp [ht]
    · simp [beq_eq_false_iff_ne.mpr ht, ht, ih]

theorem mem_childTokens (node : TrieNode) (path : List String) :
    token ∈ node.childTokens path ↔ node.hasNode (path ++ [token]) := by
  rw [childTokens, hasNode_append]
  cases node.nodeAt? path with
  | none => simp
  | some next =>
    rw [Option.elim_some, Option.elim_some, ← lookup_isSome, hasNode]
    rw [show next.children.lookup token = next.child? token from rfl]
    cases next.child? token <;> simp

theorem Keyed.nodeAt? {node : TrieNode} (h : node.Keyed) (hn : node.nodeAt? path = some next) :
    next.Keyed := by
  induction path generalizing node with
  | nil =>
    cases hn
    exact h
  | cons token rest ih =>
    obtain ⟨children, subs⟩ := node
    obtain ⟨child, hc, hn⟩ := Option.bind_eq_some_iff.mp hn
    exact ih ((keyed_mk.mp h).2 _ (mem_of_lookup hc)) hn

theorem Keyed.nodup_childTokens {node : TrieNode} (h : node.Keyed) (path : List String) :
    (node.childTokens path).Nodup := by
  rw [childTokens]
  cases hn : node.nodeAt? path with
  | none => exact List.nodup_nil
  | some next =>
    obtain ⟨children, subs⟩ := next
    exact (keyed_mk.mp (h.nodeAt? hn)).1

theorem Keyed.modifyAt {node : TrieNode} (h : node.Keyed)
    (hf : ∀ next : TrieNode, next.Keyed → (f next).Keyed) (path : List String) :
    (node.modifyAt f path).Keyed := by
  induction path generalizing node with
  | nil => exact hf node h
  | cons token rest ih =>
    obtain ⟨children, subs⟩ := node
    rw [TrieNode.modifyAt]
    cases hc : children.lookup token with
    | none => exact h
    | some next => exact h.setChild (ih ((keyed_mk.mp h).2 _ (mem_of_lookup hc))) subs

theorem Keyed.ensureChild {node : TrieNode} (h : node.Keyed) (token : String) :
    (node.ensureChild token).Keyed := by
  obtain ⟨children, subs⟩ := node
  rw [TrieNode.ensureChild]
  cases children.lookup token with
  | none => exact h.setChild keyed_new subs
  | some _ => exact h

theorem Keyed.push {node : TrieNode} (h : node.Keyed) (sub : Subscription) :
    (node.push sub).Keyed := by
  obtain ⟨children, subs⟩ := node
  exact keyed_mk.mpr (keyed_mk.mp h)

theorem Keyed.clearSubscriptions {node : TrieNode} (h : node.Keyed) :
    node.clearSubscriptions.Keyed := by
  obtain ⟨children, subs⟩ := node
  exact keyed_mk.mpr (keyed_mk.mp h)

theorem Keyed.dropChild {node : TrieNode} (h : node.Keyed) (token : String) :
    (node.dropChild token).Keyed := by
  obtain ⟨children, subs⟩ := node
  exact h.eraseChild token subs

-- ---------------------------------------------------------------------------
-- What is stored decides
-- ---------------------------------------------------------------------------

/-- The child with this token, or the node that `insert` would make. -/
def under (node : TrieNode) (token : String) : TrieNode := (node.child? token).getD new

theorem subsAt_cons (node : TrieNode) :
    node.subsAt (token :: rest) = (node.under token).subsAt rest := by
  rw [subsAt, under]
  cases node.child? token with
  | none => exact subsAt_new.symm
  | some next => rfl

theorem matchTopic_new : new.matchTopic query = [] := by
  cases query <;> rfl

theorem matchTopic_under (node : TrieNode) :
    node.matchTopic (token :: rest) = (node.under token).matchTopic rest ++
      (node.under "+").matchTopic rest ++ (node.under "#").subsAt [] := by
  rw [matchTopic, under, under, under, subsAt_nil]
  refine congrArg₂ (· ++ ·) (congrArg₂ (· ++ ·) ?_ ?_) ?_
  · cases node.child? token with
    | none => exact matchTopic_new.symm
    | some next => rfl
  · cases node.child? "+" with
    | none => exact matchTopic_new.symm
    | some plus => rfl
  · cases node.child? "#" <;> rfl

/-- The nodes may differ, if the same is stored. -/
theorem matchTopic_congr {node node' : TrieNode} (h : ∀ path, node.subsAt path = node'.subsAt path)
    (query : List String) : node.matchTopic query = node'.matchTopic query := by
  induction query generalizing node node' with
  | nil =>
    rw [matchTopic, matchTopic, ← subsAt_nil, ← subsAt_nil]
    exact h []
  | cons token rest ih =>
    have hunder (level : String) (path : List String) :
        (node.under level).subsAt path = (node'.under level).subsAt path := by
      rw [← subsAt_cons, ← subsAt_cons]
      exact h (level :: path)
    rw [matchTopic_under, matchTopic_under, ih (hunder token), ih (hunder "+"), hunder "#"]

theorem subsAt_of_not_hasNode {node : TrieNode} (h : node.hasNode path = false)
    (hp : path <+: path') : node.subsAt path' = [] := by
  obtain ⟨rest, rfl⟩ := hp
  rw [hasNode_eq, Option.isSome_eq_false_iff, Option.isNone_iff_eq_none] at h
  rw [subsAt_append, h, Option.elim_none]

/-- `subsAt_remove`, also where `remove` returns `false`. -/
theorem subsAt_getD_remove (node : TrieNode) (path path' : List String) :
    ((node.remove path).getD node).subsAt path' =
      if path = path' then [] else node.subsAt path' := by
  cases hr : node.remove path with
  | some node' => exact subsAt_remove node path path' hr
  | none =>
    rw [Option.getD_none]
    split
    · rename_i hp
      rw [← hp]
      exact subsAt_of_remove_none node path hr
    · rfl

/-- Nothing is stored at or below a child that is empty. -/
theorem subsAt_of_isEmpty {node : TrieNode} (h : (node.nodeAt? path).any isEmpty)
    (hp : path <+: path') : node.subsAt path' = [] := by
  obtain ⟨rest, rfl⟩ := hp
  rw [subsAt_append]
  cases hn : node.nodeAt? path with
  | none => rfl
  | some next =>
    rw [hn, Option.any_some, isEmpty, Bool.and_eq_true, List.isEmpty_iff, List.isEmpty_iff] at h
    cases rest with
    | nil => rw [Option.elim_some, subsAt_nil, h.2]
    | cons token rest => rw [Option.elim_some, subsAt, child?, h.1, List.lookup_nil]

end TrieNode

end MesquitteClient
