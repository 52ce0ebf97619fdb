import Rustytree.Store
/-!
# Hierarchies

A finite tree of groups and arrays, apart from how it is stored, and what it
means that a vanilla store or an icechunk session holds it. The walkers are
compared through this: each is shown to return the groups of the hierarchy.
-/

namespace Rustytree

variable {J E : Type}

/-- A group with its attributes or an array with its metadata. -/
inductive Node (J : Type) where
  | group (attributes : List (Str × J))
  | array (metadata : ArrayMetadata J)

/-- A finite hierarchy: every node other than the root lies in a group. -/
structure Hierarchy (J : Type) where
  nodes : List (Path × Node J)
  nodup : (nodes.map (·.1)).Nodup
  closed : ∀ p name node, (p ++ [name], node) ∈ nodes → ∃ attrs, (p, .group attrs) ∈ nodes

/-- The groups among some nodes, with their attributes. -/
def groupsIn (nodes : List (Path × Node J)) : List (Path × List (Str × J)) := nodes.filterMap fun
  | (p, .group attrs) => some (p, attrs)
  | (_, .array _) => none

/-- The arrays among some nodes, with their metadata. -/
def arraysIn (nodes : List (Path × Node J)) : List (Path × ArrayMetadata J) := nodes.filterMap fun
  | (_, .group _) => none
  | (p, .array metadata) => some (p, metadata)

/-- `q` lies directly under `p`. -/
def isChild (p q : Path) : Bool := q != [] && q.dropLast == p

/-- The variables of the group at `p`, in the order of the nodes. -/
def varsIn (nodes : List (Path × Node J)) (p : Path) : List (VarMeta J E) :=
  ((arraysIn nodes).filter fun a => isChild p a.1).map fun a => varMeta (pathStr a.1) ⟨pathStr a.1, a.2⟩

theorem mem_groupsIn {nodes : List (Path × Node J)} {p : Path} {attrs : List (Str × J)} :
    (p, attrs) ∈ groupsIn nodes ↔ (p, .group attrs) ∈ nodes := by
  simp only [groupsIn, List.mem_filterMap]
  constructor
  · rintro ⟨⟨q, node⟩, hmem, h⟩
    cases node <;> simp_all
  · exact fun h => ⟨_, h, rfl⟩

theorem mem_arraysIn {nodes : List (Path × Node J)} {p : Path} {metadata : ArrayMetadata J} :
    (p, metadata) ∈ arraysIn nodes ↔ (p, .array metadata) ∈ nodes := by
  simp only [arraysIn, List.mem_filterMap]
  constructor
  · rintro ⟨⟨q, node⟩, hmem, h⟩
    cases node <;> simp_all
  · exact fun h => ⟨_, h, rfl⟩

/-- The paths of the groups are among those of the nodes, in their order. -/
theorem groupsIn_paths_sublist (nodes : List (Path × Node J)) :
    ((groupsIn nodes).map (·.1)).Sublist (nodes.map (·.1)) := by
  induction nodes with
  | nil => exact .slnil
  | cons n nodes ih =>
    obtain ⟨p, node⟩ := n
    cases node with
    | group attributes => exact ih.cons_cons p
    | array metadata => exact ih.cons p

theorem isChild_iff {p q : Path} : isChild p q = true ↔ ∃ name, q = p ++ [name] := by
  rcases List.eq_nil_or_concat q with rfl | ⟨r, name, rfl⟩
  · simp [isChild]
  · rw [isChild, List.concat_eq_append, List.dropLast_concat, Bool.and_eq_true, beq_iff_eq, bne_iff_ne]
    constructor
    · rintro ⟨-, rfl⟩
      exact ⟨name, rfl⟩
    · rintro ⟨name', h⟩
      exact ⟨by simp, (List.append_inj' h rfl).1⟩

theorem arraysIn_filter (f : Path → Bool) (nodes : List (Path × Node J)) :
    arraysIn (nodes.filter fun n => f n.1) = (arraysIn nodes).filter fun a => f a.1 := by
  induction nodes with
  | nil => rfl
  | cons n nodes ih =>
    obtain ⟨p, node⟩ := n
    cases node <;> cases hp : f p <;> simp_all [arraysIn]

/-- The nodes below `r` hold all variables of a group below `r`. -/
theorem varsIn_below {r p : Path} (h : r <+: p) (nodes : List (Path × Node J)) :
    varsIn (E := E) (nodes.filter fun n => r.isPrefixOf n.1) p = varsIn nodes p := by
  rw [varsIn, arraysIn_filter, List.filter_filter, varsIn]
  congr 1
  apply List.filter_congr
  intro a _
  by_cases hc : isChild p a.1 = true
  · obtain ⟨name, hq⟩ := isChild_iff.1 hc
    have hr : r.isPrefixOf a.1 = true := List.isPrefixOf_iff_prefix.2 (hq ▸ h.trans (List.prefix_append p [name]))
    rw [hc, hr, Bool.and_true]
  · rw [Bool.not_eq_true] at hc
    rw [hc, Bool.false_and]

theorem varsIn_perm {l nodes : List (Path × Node J)} (h : l.Perm nodes) (p : Path) :
    (varsIn (E := E) l p).Perm (varsIn nodes p) :=
  ((h.filterMap _).filter _).map _

/-- The variables of a group are the arrays directly under it. -/
theorem mem_varsIn {nodes : List (Path × Node J)} {p : Path} {var : VarMeta J E} :
    var ∈ varsIn nodes p ↔ ∃ name metadata, (p ++ [name], .array metadata) ∈ nodes ∧
      var = varMeta (pathStr (p ++ [name])) ⟨pathStr (p ++ [name]), metadata⟩ := by
  simp only [varsIn, List.mem_map, List.mem_filter, Prod.exists, mem_arraysIn]
  constructor
  · rintro ⟨q, metadata, ⟨hmem, hchild⟩, rfl⟩
    obtain ⟨name, rfl⟩ := isChild_iff.1 hchild
    exact ⟨name, metadata, hmem, rfl⟩
  · rintro ⟨name, metadata, hmem, rfl⟩
    exact ⟨p ++ [name], metadata, ⟨hmem, isChild_iff.2 ⟨name, rfl⟩⟩, rfl⟩

namespace Hierarchy

variable (H : Hierarchy J)

/-- The paths of the groups. -/
def groupPaths : List Path := (groupsIn H.nodes).map (·.1)

/-- The groups directly under `p`. -/
def childGroups (p : Path) : List Path := H.groupPaths.filter (isChild p)

/-- The arrays directly under `p`. -/
def childArrays (p : Path) : List (Path × ArrayMetadata J) := (arraysIn H.nodes).filter fun a => isChild p a.1

/-- The nodes at or below `p`. -/
def below (p : Path) : List (Path × Node J) := H.nodes.filter fun n => p.isPrefixOf n.1

variable {H}

theorem mem_groupPaths {p : Path} : p ∈ H.groupPaths ↔ ∃ attrs, (p, .group attrs) ∈ H.nodes := by
  simp only [groupPaths, List.mem_map, Prod.exists, exists_and_right, exists_eq_right, mem_groupsIn]

theorem mem_childGroups {p q : Path} : q ∈ H.childGroups p ↔ (∃ name, q = p ++ [name]) ∧ q ∈ H.groupPaths := by
  rw [childGroups, List.mem_filter, isChild_iff, and_comm]

theorem mem_childArrays {p q : Path} {metadata : ArrayMetadata J} :
    (q, metadata) ∈ H.childArrays p ↔ (∃ name, q = p ++ [name]) ∧ (q, .array metadata) ∈ H.nodes := by
  rw [childArrays, List.mem_filter, isChild_iff, mem_arraysIn, and_comm]

theorem mem_below {p q : Path} {node : Node J} : (q, node) ∈ H.below p ↔ p <+: q ∧ (q, node) ∈ H.nodes := by
  rw [below, List.mem_filter, List.isPrefixOf_iff_prefix, and_comm]

/-- A path names one node at most. -/
theorem node_unique {p : Path} {m n : Node J} (hm : (p, m) ∈ H.nodes) (hn : (p, n) ∈ H.nodes) : m = n := by
  have := List.inj_on_of_nodup_map H.nodup hm hn rfl
  simpa using this

theorem nodes_nodup : H.nodes.Nodup := H.nodup.of_map

theorem groupPaths_nodup : H.groupPaths.Nodup := H.nodup.sublist (groupsIn_paths_sublist H.nodes)

/-- Every group above a node is in the hierarchy. -/
theorem ancestor_group {p q : Path} {node : Node J} (h : (p ++ q, node) ∈ H.nodes) (hq : q ≠ []) :
    p ∈ H.groupPaths := by
  induction q using List.reverseRecOn generalizing node with
  | nil => contradiction
  | append_singleton q name ih =>
    rw [← List.append_assoc] at h
    obtain ⟨attrs, hg⟩ := H.closed _ _ _ h
    by_cases hq : q = []
    · subst hq
      exact mem_groupPaths.2 ⟨attrs, by simpa using hg⟩
    · exact ih hg hq

theorem group_of_prefix {p q : Path} (hq : q ∈ H.groupPaths) (h : p <+: q) : p ∈ H.groupPaths := by
  obtain ⟨r, rfl⟩ := h
  by_cases hr : r = []
  · simpa [hr] using hq
  · obtain ⟨attrs, hg⟩ := mem_groupPaths.1 hq
    exact ancestor_group hg hr

/-- Nothing lies at or below a path that is not there. -/
theorem below_absent {p : Path} (h : ∀ node, (p, node) ∉ H.nodes) : H.below p = [] := by
  apply List.eq_nil_iff_forall_not_mem.2
  rintro ⟨q, node⟩ hq
  obtain ⟨⟨r, rfl⟩, hmem⟩ := mem_below.1 hq
  by_cases hr : r = []
  · subst hr
    exact h node (by simpa using hmem)
  · obtain ⟨attrs, hg⟩ := mem_groupPaths.1 (ancestor_group hmem hr)
    exact h _ hg

/-- Only the empty hierarchy has no root. -/
theorem absent_root_iff : (∀ node, ([], node) ∉ H.nodes) ↔ H.nodes = [] := by
  constructor
  · intro h
    simpa [below] using below_absent h
  · intro h node
    simp [h]

/-- An array is alone at and below its path. -/
theorem below_array {p : Path} {metadata : ArrayMetadata J} (h : (p, .array metadata) ∈ H.nodes) :
    H.below p = [(p, .array metadata)] := by
  have hnd : (H.below p).Nodup := nodes_nodup.filter _
  refine List.perm_singleton.1 ((List.perm_ext_iff_of_nodup hnd (by simp)).2 fun ⟨q, node⟩ => ?_)
  rw [mem_below, List.mem_singleton, Prod.mk.injEq]
  constructor
  · rintro ⟨⟨r, rfl⟩, hmem⟩
    by_cases hr : r = []
    · subst hr
      rw [List.append_nil] at hmem ⊢
      exact ⟨rfl, node_unique hmem h⟩
    · obtain ⟨attrs, hg⟩ := mem_groupPaths.1 (ancestor_group hmem hr)
      cases node_unique hg h
  · rintro ⟨rfl, rfl⟩
    exact ⟨List.prefix_refl q, h⟩

theorem arraysIn_nodup : (arraysIn H.nodes).Nodup := by
  apply nodes_nodup.filterMap
  rintro ⟨p, m⟩ ⟨q, n⟩ a hp hq
  cases m <;> cases n <;> cases hp <;> cases hq
  rfl

/-- No two variables of a group share a name. -/
theorem varsIn_names_nodup (p : Path) : ((varsIn (E := E) H.nodes p).map (·.name)).Nodup := by
  rw [varsIn, List.map_map]
  apply (arraysIn_nodup.filter _).map_on
  rintro ⟨q, m⟩ hq ⟨r, n⟩ hr heq
  obtain ⟨hq, hchildq⟩ := List.mem_filter.1 hq
  obtain ⟨hr, hchildr⟩ := List.mem_filter.1 hr
  obtain ⟨a, rfl⟩ := isChild_iff.1 hchildq
  obtain ⟨b, rfl⟩ := isChild_iff.1 hchildr
  have hname : leafName (pathStr (p ++ [a])) = leafName (pathStr (p ++ [b])) := heq
  rw [leafName_pathStr, leafName_pathStr, Subtype.val_inj] at hname
  subst hname
  cases node_unique (mem_arraysIn.1 hq) (mem_arraysIn.1 hr)
  rfl

/-- Longer than every path of the hierarchy. -/
def height (H : Hierarchy J) : Nat := (H.nodes.map (·.1.length)).sum + 1

theorem length_lt_height {p : Path} (h : p ∈ H.groupPaths) : p.length < H.height := by
  obtain ⟨attrs, hg⟩ := mem_groupPaths.1 h
  have := List.single_le_sum (l := H.nodes.map (·.1.length)) (by simp) _ (List.mem_map_of_mem hg)
  exact Nat.lt_succ_of_le this

end Hierarchy

/-! ## Held by a store -/

/-- The store holds the hierarchy: opening a group succeeds where there is one
and tells an absent node from an array; listings are exactly the children. -/
structure Serves (store : ZarrsStore J) (H : Hierarchy J) : Prop where
  group : ∀ p attrs, (p, .group attrs) ∈ H.nodes → store.groupOpen (pathStr p) = .ok attrs
  notGroup : ∀ p metadata, (p, .array metadata) ∈ H.nodes → ∃ msg, store.groupOpen (pathStr p) = .error (.other msg)
  absent : ∀ p, (∀ node, (p, node) ∉ H.nodes) → store.groupOpen (pathStr p) = .error .missingMetadata
  childGroups : ∀ p ∈ H.groupPaths, ∃ l : List Path, store.childGroupPaths (pathStr p) = .ok (l.map pathStr) ∧
    l.Perm (H.childGroups p)
  childArrays : ∀ p ∈ H.groupPaths, ∃ l : List (Path × ArrayMetadata J),
    store.childArrayPaths (pathStr p) = .ok (l.map fun a => pathStr a.1) ∧ l.Perm (H.childArrays p)
  array : ∀ p metadata, (p, .array metadata) ∈ H.nodes → store.arrayOpen (pathStr p) = .ok ⟨pathStr p, metadata⟩

/-- `snap` is the session's snapshot of a node: its path, its kind, and user
data that parses to its metadata (a group without attributes may have none). -/
def IsSnapshot (session : Session J) : Path × Node J → NodeSnapshot → Prop
  | (p, .group attrs), snap => snap.path = ⟨pathStr p⟩ ∧ snap.nodeData = .group ∧
      (if snap.userData = [] then attrs = [] else session.groupMetadata snap.userData = .ok attrs)
  | (p, .array metadata), snap => snap.path = ⟨pathStr p⟩ ∧ snap.nodeData = .array ∧
      session.arrayMetadata snap.userData = .ok metadata ∧
      session.newWithMetadata (pathStr p) metadata = .ok ⟨pathStr p, metadata⟩

/-- The session accepts the path `p` and lists the nodes `l` for it, in that order. -/
def Lists (session : Session J) (l : List (Path × Node J)) (p : Path) : Prop :=
  session.pathNew (pathStr p) = .ok ⟨pathStr p⟩ ∧
  ∃ snaps : List NodeSnapshot, session.listNodes ⟨pathStr p⟩ = .ok (snaps.map .ok) ∧
    List.Forall₂ (IsSnapshot session) l snaps

/-- The session holds the hierarchy, as seen from `p`: it lists exactly the
nodes at or below `p`, in any order. -/
def HoldsAt (session : Session J) (H : Hierarchy J) (p : Path) : Prop :=
  ∃ l : List (Path × Node J), l.Perm (H.below p) ∧ Lists session l p

end Rustytree
