import MesquitteClient.TopicTrie
import Mathlib.Data.List.Infix
import Mathlib.Data.List.Nodup

/-!
# The nodes of the trie

`subsAt` says what the trie stores; this file says which nodes it is made of.
`hasNode` tells whether a path leads to a node. An insertion makes the nodes
along its path and a clear leaves every node where it is. `remove` gives
`none` exactly where the path leads nowhere, and otherwise takes out the nodes
of the path that nothing keeps (`hasNode_remove`). `paths` lists the nodes of
a trie, each once where no node has two children under one key.
-/

namespace MesquitteClient

namespace TrieNode

/-- The path leads to a node. -/
def hasNode : TrieNode → List String → Bool
  | _, [] => true
  | node, token :: rest =>
    match node.child? token with
    | some next => next.hasNode rest
    | none => false

@[simp] theorem hasNode_nil (node : TrieNode) : node.hasNode [] = true := by
  unfold hasNode
  rfl

theorem hasNode_cons (node : TrieNode) :
    node.hasNode (token :: rest) = true ↔
      ∃ next, node.child? token = some next ∧ next.hasNode rest := by
  rw [hasNode]
  cases node.child? token <;> simp

@[simp] theorem hasNode_new : new.hasNode path = true ↔ path = [] := by
  cases path <;> simp [hasNode, new, child?, children]

/-- A node is reached through nodes. -/
theorem hasNode_of_prefix {node : TrieNode} (h : node.hasNode path) (hp : path' <+: path) :
    node.hasNode path' := by
  induction path' generalizing node path with
  | nil => exact node.hasNode_nil
  | cons token rest ih =>
    obtain ⟨ext, rfl⟩ := hp
    obtain ⟨next, hc, hn⟩ := node.hasNode_cons.mp h
    exact node.hasNode_cons.mpr ⟨next, hc, ih hn (List.prefix_append rest ext)⟩

/-- A node without children leads nowhere. -/
theorem eq_nil_of_hasNode {node : TrieNode} (hc : node.children = []) (h : node.hasNode path) :
    path = [] := by
  cases path with
  | nil => rfl
  | cons token rest =>
    obtain ⟨next, hn, _⟩ := node.hasNode_cons.mp h
    simp [child?, hc] at hn

theorem exists_child {node : TrieNode} (hc : node.children ≠ []) :
    ∃ token, node.hasNode [token] := by
  obtain ⟨⟨token, next⟩, cs, hcs⟩ := List.exists_cons_of_ne_nil hc
  exact ⟨token, node.hasNode_cons.mpr ⟨next, by simp [child?, hcs], next.hasNode_nil⟩⟩

-- ---------------------------------------------------------------------------
-- What the operations do to the nodes
-- ---------------------------------------------------------------------------

theorem hasNode_insert (sub : Subscription) (node : TrieNode) (path path' : List String) :
    (node.insert sub path).hasNode path' = true ↔ node.hasNode path' ∨ path' <+: path := by
  induction path generalizing node path' with
  | nil =>
    obtain ⟨children, subs⟩ := node
    cases path' with
    | nil => simp
    | cons token' rest' => simp [insert, hasNode, child?, TrieNode.children]
  | cons token rest ih =>
    obtain ⟨children, subs⟩ := node
    cases path' with
    | nil => simp
    | cons token' rest' =>
      simp only [insert, hasNode, child?, TrieNode.children, lookup_setChild,
        List.cons_prefix_cons]
      by_cases ht : token = token'
      · subst ht
        cases hc : children.lookup token with
        | none =>
          -- the path is new from here on
          simp only [↓reduceIte, Option.getD_none, ih, hasNode_new, true_and, Bool.false_eq_true,
            false_or]
          refine ⟨?_, .inr⟩
          rintro (rfl | hp)
          · exact List.nil_prefix
          · exact hp
        | some next => simp [ih]
      · simp [ht, Ne.symm ht]

@[simp] theorem hasNode_clearNode (node : TrieNode) (path : List String) :
    node.clearNode.hasNode path = node.hasNode path := by
  induction path generalizing node with
  | nil => simp
  | cons token rest ih =>
    obtain ⟨children, subs⟩ := node
    simp only [clearNode, hasNode, child?, TrieNode.children, lookup_clearChildren]
    cases children.lookup token with
    | none => rfl
    | some next => exact ih next

/-- `remove` finds nothing to remove exactly where the path leads nowhere. -/
theorem isSome_remove (node : TrieNode) (path : List String) :
    (node.remove path).isSome = node.hasNode path := by
  induction path generalizing node with
  | nil => obtain ⟨children, subs⟩ := node; simp [remove]
  | cons token rest ih =>
    obtain ⟨children, subs⟩ := node
    simp only [remove, hasNode, child?, TrieNode.children]
    cases children.lookup token with
    | none => rfl
    | some next => simp [ih]

/-- What keeps the node at `path'` when `path` is removed: below it there is a
node off the path, or one before its end that stores something. -/
def Kept (node : TrieNode) (path path' : List String) : Prop :=
  ∃ below, path' <+: below ∧ node.hasNode below ∧
    (below <+: path → below ≠ path ∧ node.subsAt below ≠ [])

theorem Kept.of_prefix (h : Kept node path path') (hp : path'' <+: path') :
    Kept node path path'' := by
  obtain ⟨below, hb, hk⟩ := h
  exact ⟨below, hp.trans hb, hk⟩

theorem kept_cons_self {node next : TrieNode} (hc : node.child? token = some next) :
    Kept node (token :: rest) (token :: rest') ↔ Kept next rest rest' := by
  constructor
  · rintro ⟨below, ⟨ext, rfl⟩, hn, hk⟩
    obtain ⟨next', hc', hn⟩ := node.hasNode_cons.mp hn
    obtain rfl := Option.some.inj (hc.symm.trans hc')
    refine ⟨rest' ++ ext, List.prefix_append rest' ext, hn, fun hp => ?_⟩
    obtain ⟨hne, hs⟩ := hk (by simpa using hp)
    exact ⟨fun he => hne (by simp [he]), by simpa [subsAt, hc] using hs⟩
  · rintro ⟨below, hp, hn, hk⟩
    refine ⟨token :: below, by simpa using hp, node.hasNode_cons.mpr ⟨next, hc, hn⟩, fun hp => ?_⟩
    obtain ⟨hne, hs⟩ := hk (by simpa using hp)
    exact ⟨by simpa using hne, by simpa [subsAt, hc] using hs⟩

theorem kept_cons_of_ne {node : TrieNode} (ht : token ≠ token') :
    Kept node (token :: rest) (token' :: rest') ↔ node.hasNode (token' :: rest') := by
  constructor
  · rintro ⟨below, hp, hn, _⟩
    exact hasNode_of_prefix hn hp
  · intro h
    refine ⟨_, List.prefix_rfl, h, fun hp => ?_⟩
    exact absurd (List.cons_prefix_cons.mp hp).1.symm ht

/-- A child from which a path has been removed is empty unless something keeps
it. -/
theorem kept_nil_iff {next child : TrieNode}
    (hn : ∀ path', child.hasNode path' = true ↔ path' = [] ∨ Kept next rest path')
    (hs : child.subscriptions = if rest = [] then [] else next.subscriptions) :
    Kept next rest [] ↔ ¬ (child.children = [] ∧ child.subscriptions = []) := by
  constructor
  · rintro ⟨below, _, hb, hk⟩ ⟨hchildren, hsubs⟩
    obtain rfl := eq_nil_of_hasNode hchildren
      ((hn below).mpr (.inr ⟨below, List.prefix_rfl, hb, hk⟩))
    obtain ⟨hne, hstored⟩ := hk List.nil_prefix
    rw [hs, if_neg (Ne.symm hne)] at hsubs
    rw [subsAt_nil] at hstored
    exact hstored hsubs
  · intro hfull
    by_cases hchildren : child.children = []
    · have hsubs : child.subscriptions ≠ [] := fun hsubs => hfull ⟨hchildren, hsubs⟩
      rw [hs] at hsubs
      refine ⟨[], List.prefix_rfl, next.hasNode_nil, fun _ => ⟨?_, ?_⟩⟩
      · rintro rfl
        exact hsubs rfl
      · rw [subsAt_nil]
        intro hnil
        exact hsubs (by rw [hnil, ite_self])
    · obtain ⟨token, ht⟩ := exists_child hchildren
      rcases (hn [token]).mp ht with hnil | hk
      · cases hnil
      · exact hk.of_prefix List.nil_prefix

/-- The root stays, and of the others those that something keeps. -/
theorem hasNode_remove {node node' : TrieNode} (h : node.remove path = some node') :
    node'.hasNode path' = true ↔ path' = [] ∨ Kept node path path' := by
  induction path generalizing node node' path' with
  | nil =>
    obtain ⟨children, subs⟩ := node
    simp only [remove, Option.some.injEq] at h
    subst h
    cases path' with
    | nil => simp
    | cons token' rest' =>
      have hsame : (mk children []).hasNode (token' :: rest') =
          (mk children subs).hasNode (token' :: rest') := rfl
      rw [hsame]
      refine ⟨fun hn => .inr ⟨_, List.prefix_rfl, hn, fun hp => ?_⟩, ?_⟩
      · exact absurd (List.prefix_nil.mp hp) (List.cons_ne_nil _ _)
      · rintro (hnil | ⟨below, hp, hn, _⟩)
        · cases hnil
        · exact hasNode_of_prefix hn hp
  | cons token rest ih =>
    obtain ⟨children, subs⟩ := node
    simp only [remove] at h
    cases hc : children.lookup token with
    | none => simp [hc] at h
    | some next =>
      simp only [hc, Option.map_eq_some_iff] at h
      obtain ⟨child, hchild, rfl⟩ := h
      have hsubs : child.subscriptions = if rest = [] then [] else next.subscriptions := by
        rw [← subsAt_nil, subsAt_remove next rest [] hchild, subsAt_nil]
      cases path' with
      | nil => simp
      | cons token' rest' =>
        by_cases ht : token = token'
        · subst ht
          have hroot := kept_nil_iff (fun _ => ih hchild) hsubs
          have hkept : Kept (mk children subs) (token :: rest) (token :: rest') ↔
              Kept next rest rest' := kept_cons_self hc
          simp only [hkept, reduceCtorEq, false_or]
          split
          · -- the child is taken out, so nothing below it was kept
            rename_i hempty
            simp only [Bool.and_eq_true, List.isEmpty_iff] at hempty
            simp only [hasNode, child?, TrieNode.children, lookup_eraseChild, ↓reduceIte,
              Bool.false_eq_true, false_iff]
            intro hk
            exact hroot.mp (hk.of_prefix List.nil_prefix) hempty
          · -- the child stays, since it has children or subscriptions of its own
            rename_i hfull
            simp only [Bool.and_eq_true, List.isEmpty_iff] at hfull
            simp only [hasNode, child?, TrieNode.children, lookup_setChild, ↓reduceIte, ih hchild]
            refine ⟨?_, .inr⟩
            rintro (rfl | hk)
            · exact hroot.mpr hfull
            · exact hk
        · have hkept : Kept (mk children subs) (token :: rest) (token' :: rest') ↔
              (mk children subs).hasNode (token' :: rest') := kept_cons_of_ne ht
          simp only [hkept, reduceCtorEq, false_or]
          split <;>
            simp [hasNode, child?, TrieNode.children, lookup_setChild, lookup_eraseChild, ht]

-- ---------------------------------------------------------------------------
-- The list of the nodes
-- ---------------------------------------------------------------------------

mutual
/-- The path of every node. -/
def paths : TrieNode → List (List String)
  | .mk children _ => [] :: pathsOf children
def pathsOf : List (String × TrieNode) → List (List String)
  | [] => []
  | (token, child) :: rest => child.paths.map (token :: ·) ++ pathsOf rest
end

/-- How many nodes the trie has. -/
def size (node : TrieNode) : Nat := node.paths.length

mutual
/-- No node has two children under one key, which is what a `HashMap` is. -/
def Keyed : TrieNode → Prop
  | .mk children _ => (children.map Prod.fst).Nodup ∧ KeyedChildren children
def KeyedChildren : List (String × TrieNode) → Prop
  | [] => True
  | (_, child) :: rest => child.Keyed ∧ KeyedChildren rest
end

theorem keyedChildren_iff {cs : List (String × TrieNode)} :
    KeyedChildren cs ↔ ∀ p ∈ cs, p.2.Keyed := by
  induction cs with
  | nil => simp [KeyedChildren]
  | cons p cs ih =>
    obtain ⟨token, child⟩ := p
    simp [KeyedChildren, ih]

theorem keyed_mk : (mk cs subs).Keyed ↔ (cs.map Prod.fst).Nodup ∧ ∀ p ∈ cs, p.2.Keyed := by
  rw [Keyed, keyedChildren_iff]

theorem keyed_new : new.Keyed := by
  simp [new, keyed_mk]

theorem mem_of_lookup {cs : List (String × TrieNode)} (h : cs.lookup token = some next) :
    (token, next) ∈ cs := by
  induction cs with
  | nil => simp at h
  | cons p cs ih =>
    obtain ⟨token', child⟩ := p
    rw [List.lookup_cons] at h
    cases ht : token == token' with
    | true =>
      rw [ht] at h
      obtain rfl := Option.some.inj h
      rw [beq_iff_eq.mp ht]
      exact List.mem_cons_self
    | false =>
      rw [ht] at h
      exact List.mem_cons_of_mem _ (ih h)

theorem Keyed.eraseChild (h : (mk cs subs).Keyed) (token : String) (subs' : List Subscription) :
    (mk (eraseChild cs token) subs').Keyed := by
  obtain ⟨hkeys, hcs⟩ := keyed_mk.mp h
  refine keyed_mk.mpr ⟨hkeys.sublist (List.filter_sublist.map Prod.fst), fun p hp => ?_⟩
  exact hcs p (List.mem_filter.mp hp).1

theorem Keyed.setChild (h : (mk cs subs).Keyed) (hn : next.Keyed) (subs' : List Subscription) :
    (mk (setChild cs token next) subs').Keyed := by
  obtain ⟨hkeys, hcs⟩ := keyed_mk.mp (h.eraseChild token subs)
  refine keyed_mk.mpr ⟨List.nodup_cons.mpr ⟨?_, hkeys⟩, ?_⟩
  · simp [TrieNode.eraseChild]
  · rintro p (_ | ⟨_, hp⟩)
    · exact hn
    · exact hcs p hp

theorem Keyed.insert {node : TrieNode} (h : node.Keyed) (sub : Subscription) (path : List String) :
    (node.insert sub path).Keyed := by
  induction path generalizing node with
  | nil =>
    obtain ⟨cs, subs⟩ := node
    exact keyed_mk.mpr (keyed_mk.mp h)
  | cons token rest ih =>
    obtain ⟨cs, subs⟩ := node
    refine h.setChild (ih ?_) subs
    cases hc : cs.lookup token with
    | none => exact keyed_new
    | some next => exact (keyed_mk.mp h).2 _ (mem_of_lookup hc)

theorem Keyed.remove {node node' : TrieNode} (h : node.Keyed) (hr : node.remove path = some node') :
    node'.Keyed := by
  induction path generalizing node node' with
  | nil =>
    obtain ⟨cs, subs⟩ := node
    simp only [TrieNode.remove, Option.some.injEq] at hr
    subst hr
    exact keyed_mk.mpr (keyed_mk.mp h)
  | cons token rest ih =>
    obtain ⟨cs, subs⟩ := node
    simp only [TrieNode.remove] at hr
    cases hc : cs.lookup token with
    | none => simp [hc] at hr
    | some next =>
      simp only [hc, Option.map_eq_some_iff] at hr
      obtain ⟨child, hchild, rfl⟩ := hr
      split
      · exact h.eraseChild token subs
      · exact h.setChild (ih ((keyed_mk.mp h).2 _ (mem_of_lookup hc)) hchild) subs

theorem map_fst_clearChildren (cs : List (String × TrieNode)) :
    (clearChildren cs).map Prod.fst = cs.map Prod.fst := by
  induction cs with
  | nil => simp [clearChildren]
  | cons p cs ih =>
    obtain ⟨token, child⟩ := p
    simp [clearChildren, ih]

mutual
theorem Keyed.clearNode : (node : TrieNode) → node.Keyed → node.clearNode.Keyed
  | .mk children subscriptions, h => by
    rw [TrieNode.clearNode, Keyed, map_fst_clearChildren]
    exact ⟨h.1, KeyedChildren.clearChildren children h.2⟩
theorem KeyedChildren.clearChildren : (cs : List (String × TrieNode)) → KeyedChildren cs →
    KeyedChildren (TrieNode.clearChildren cs)
  | [], _ => trivial
  | (_, child) :: rest, h => ⟨Keyed.clearNode child h.1, KeyedChildren.clearChildren rest h.2⟩
end

mutual
theorem hasNode_of_mem_paths : (node : TrieNode) → node.Keyed → path ∈ node.paths →
    node.hasNode path
  | .mk children subscriptions, hk, h => by
    rw [paths, List.mem_cons] at h
    rcases h with rfl | h
    · exact hasNode_nil _
    · obtain ⟨token, rest, next, rfl, hc, hn⟩ := of_mem_pathsOf children hk.1 hk.2 h
      exact (hasNode_cons _).mpr ⟨next, hc, hn⟩
theorem of_mem_pathsOf : (cs : List (String × TrieNode)) → (cs.map Prod.fst).Nodup →
    KeyedChildren cs → path ∈ pathsOf cs →
      ∃ token rest next, path = token :: rest ∧ cs.lookup token = some next ∧ next.hasNode rest
  | [], _, _, h => by simp [pathsOf] at h
  | (token, child) :: cs, hkeys, hk, h => by
    obtain ⟨hnew, hkeys⟩ := List.nodup_cons.mp hkeys
    rw [pathsOf, List.mem_append, List.mem_map] at h
    rcases h with ⟨rest, hr, rfl⟩ | h
    · exact ⟨token, rest, child, rfl, by simp, hasNode_of_mem_paths child hk.1 hr⟩
    · obtain ⟨token', rest, next, rfl, hc, hn⟩ := of_mem_pathsOf cs hkeys hk.2 h
      have hne : token' ≠ token := by
        rintro rfl
        exact hnew (List.mem_map.mpr ⟨_, mem_of_lookup hc, rfl⟩)
      refine ⟨token', rest, next, rfl, ?_, hn⟩
      simp [List.lookup_cons, beq_eq_false_iff_ne.mpr hne, hc]
end

theorem mem_pathsOf {cs : List (String × TrieNode)} (hc : (token, next) ∈ cs)
    (hp : rest ∈ next.paths) : token :: rest ∈ pathsOf cs := by
  induction cs with
  | nil => cases hc
  | cons p cs ih =>
    obtain ⟨token', child⟩ := p
    rw [pathsOf, List.mem_append]
    rcases List.mem_cons.mp hc with he | hc
    · obtain ⟨rfl, rfl⟩ := Prod.mk.inj he
      exact .inl (List.mem_map.mpr ⟨rest, hp, rfl⟩)
    · exact .inr (ih hc)

theorem mem_paths_of_hasNode {node : TrieNode} (h : node.hasNode path) : path ∈ node.paths := by
  induction path generalizing node with
  | nil => obtain ⟨cs, subs⟩ := node; simp [paths]
  | cons token rest ih =>
    obtain ⟨cs, subs⟩ := node
    obtain ⟨next, hc, hn⟩ := hasNode_cons _ |>.mp h
    rw [paths]
    exact List.mem_cons_of_mem _ (mem_pathsOf (mem_of_lookup hc) (ih hn))

/-- The list has every node and nothing else. -/
theorem mem_paths {node : TrieNode} (hk : node.Keyed) : path ∈ node.paths ↔ node.hasNode path :=
  ⟨hasNode_of_mem_paths node hk, mem_paths_of_hasNode⟩

mutual
theorem nodup_paths : (node : TrieNode) → node.Keyed → node.paths.Nodup
  | .mk children subscriptions, hk => by
    rw [paths, List.nodup_cons]
    refine ⟨fun h => ?_, nodup_pathsOf children hk.1 hk.2⟩
    obtain ⟨token, rest, next, hnil, _⟩ := of_mem_pathsOf children hk.1 hk.2 h
    cases hnil
theorem nodup_pathsOf : (cs : List (String × TrieNode)) → (cs.map Prod.fst).Nodup →
    KeyedChildren cs → (pathsOf cs).Nodup
  | [], _, _ => List.nodup_nil
  | (token, child) :: cs, hkeys, hk => by
    obtain ⟨hnew, hkeys⟩ := List.nodup_cons.mp hkeys
    rw [pathsOf]
    refine (List.Nodup.map List.cons_injective (nodup_paths child hk.1)).append
      (nodup_pathsOf cs hkeys hk.2) fun path hp hq => ?_
    obtain ⟨rest, _, rfl⟩ := List.mem_map.mp hp
    obtain ⟨token', rest', next, he, hc, _⟩ := of_mem_pathsOf cs hkeys hk.2 hq
    obtain ⟨rfl, _⟩ := List.cons.inj he
    exact hnew (List.mem_map.mpr ⟨_, mem_of_lookup hc, rfl⟩)
end

end TrieNode

end MesquitteClient
