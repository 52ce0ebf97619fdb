import Rustytree.Hierarchy
/-!
# Every hierarchy can be held

A vanilla store and an icechunk session built from a hierarchy, with proofs
that they hold it. What is assumed of a store below is therefore never empty,
and runs on a concrete hierarchy evaluate.
-/

namespace Rustytree

variable {J : Type}

/-- The node whose path reads `s`. -/
def Hierarchy.find (H : Hierarchy J) (s : Str) : Option (Path × Node J) := H.nodes.find? fun n => pathStr n.1 == s

theorem Hierarchy.find_pathStr {H : Hierarchy J} {p : Path} {node : Node J} (h : (p, node) ∈ H.nodes) :
    H.find (pathStr p) = some (p, node) := by
  cases hf : H.find (pathStr p) with
  | none => exact absurd (List.find?_eq_none.1 hf _ h) (by simp)
  | some n =>
    obtain ⟨q, m⟩ := n
    have hq : q = p := by simpa using List.find?_some hf
    subst hq
    rw [Hierarchy.node_unique h (List.mem_of_find?_eq_some hf)]

theorem Hierarchy.find_absent {H : Hierarchy J} {p : Path} (h : ∀ node, (p, node) ∉ H.nodes) :
    H.find (pathStr p) = none := by
  refine List.find?_eq_none.2 fun n hn => ?_
  rw [beq_iff_eq, pathStr_inj]
  rintro rfl
  exact h n.2 hn

/-- A vanilla store that holds `H`. -/
def storeOf (H : Hierarchy J) : ZarrsStore J where
  groupOpen s :=
    match H.find s with
    | some (_, .group attributes) => .ok attributes
    | some (_, .array _) => .error (.other "not a group")
    | none => .error .missingMetadata
  childGroupPaths s :=
    match H.find s with
    | some (p, _) => .ok ((H.childGroups p).map pathStr)
    | none => .error "no such path"
  childArrayPaths s :=
    match H.find s with
    | some (p, _) => .ok ((H.childArrays p).map fun a => pathStr a.1)
    | none => .error "no such path"
  arrayOpen s :=
    match H.find s with
    | some (_, .array metadata) => .ok ⟨s, metadata⟩
    | _ => .error "not an array"

theorem storeOf_serves (H : Hierarchy J) : Serves (storeOf H) H where
  group p attributes h := by simp only [storeOf, Hierarchy.find_pathStr h]
  notGroup p metadata h := ⟨"not a group", by simp only [storeOf, Hierarchy.find_pathStr h]⟩
  absent p h := by simp only [storeOf, Hierarchy.find_absent h]
  childGroups p h := by
    obtain ⟨attributes, hg⟩ := Hierarchy.mem_groupPaths.1 h
    exact ⟨_, by simp only [storeOf, Hierarchy.find_pathStr hg], .refl _⟩
  childArrays p h := by
    obtain ⟨attributes, hg⟩ := Hierarchy.mem_groupPaths.1 h
    exact ⟨_, by simp only [storeOf, Hierarchy.find_pathStr hg], .refl _⟩
  array p metadata h := by simp only [storeOf, Hierarchy.find_pathStr h]

/-- The snapshot of the node at position `i`; the user data is the position in unary. -/
def snapshotOf (e : (Path × Node J) × Nat) : NodeSnapshot where
  path := ⟨pathStr e.1.1⟩
  nodeData := match e.1.2 with
    | .group _ => .group
    | .array _ => .array
  userData := List.replicate (e.2 + 1) 0

/-- An icechunk session that holds `H`: it accepts every path and lists the
nodes below it in the order of `H`. -/
def sessionOf (H : Hierarchy J) : Session J where
  pathNew s := .ok ⟨s⟩
  listNodes p := .ok ((H.nodes.zipIdx.filter fun e =>
    (segments p.display).isPrefixOf (e.1.1.map (·.1))).map fun e => .ok (snapshotOf e))
  groupMetadata userData :=
    match H.nodes[userData.length - 1]? with
    | some (_, .group attributes) => .ok attributes
    | _ => .error "not a group"
  arrayMetadata userData :=
    match H.nodes[userData.length - 1]? with
    | some (_, .array metadata) => .ok metadata
    | _ => .error "not an array"
  newWithMetadata s metadata := .ok ⟨s, metadata⟩

theorem snapshotOf_isSnapshot {H : Hierarchy J} {e : (Path × Node J) × Nat} (h : H.nodes[e.2]? = some e.1) :
    IsSnapshot (sessionOf H) e.1 (snapshotOf e) := by
  obtain ⟨⟨p, node⟩, i⟩ := e
  cases node with
  | group attributes => exact ⟨rfl, rfl, by simp [snapshotOf, sessionOf, h]⟩
  | array metadata => exact ⟨rfl, rfl, by simp [snapshotOf, sessionOf, h], rfl⟩

/-- The session lists, for every path, the nodes below it in the order of `H`. -/
theorem sessionOf_lists (H : Hierarchy J) (p : Path) : Lists (sessionOf H) (H.below p) p := by
  refine ⟨rfl, (H.nodes.zipIdx.filter fun e =>
    (segments (pathStr p)).isPrefixOf (e.1.1.map (·.1))).map snapshotOf, by simp [sessionOf], ?_⟩
  have hpre : ∀ q : Path, (segments (pathStr p)).isPrefixOf (q.map (·.1)) = p.isPrefixOf q := by
    intro q
    rw [Bool.eq_iff_iff, List.isPrefixOf_iff_prefix, List.isPrefixOf_iff_prefix, segments_pathStr]
    exact List.prefix_map_iff_of_injective Subtype.val_injective
  have hbelow : H.below p = (H.nodes.zipIdx.filter fun e => p.isPrefixOf e.1.1).map (·.1) := by
    conv_lhs => rw [Hierarchy.below, ← List.zipIdx_map_fst 0 H.nodes, List.filter_map]
    rfl
  simp only [hpre]
  rw [hbelow, List.forall₂_map_left_iff, List.forall₂_map_right_iff, List.forall₂_same]
  intro e he
  have hmem := (List.mem_filter.1 he).1
  exact snapshotOf_isSnapshot (List.mem_zipIdx_iff_getElem?.1 hmem)

theorem sessionOf_holds (H : Hierarchy J) (p : Path) : HoldsAt (sessionOf H) H p :=
  ⟨H.below p, .refl _, sessionOf_lists H p⟩

/-- A decidable form of the condition on parents. -/
theorem closed_of_dropLast {nodes : List (Path × Node J)}
    (h : ∀ n ∈ nodes, n.1 ≠ [] → n.1.dropLast ∈ (groupsIn nodes).map (·.1)) (p : Path) (name : Name) (node : Node J)
    (hn : (p ++ [name], node) ∈ nodes) : ∃ attrs, (p, .group attrs) ∈ nodes := by
  have hg := h _ hn (by simp)
  rw [List.dropLast_concat] at hg
  obtain ⟨⟨q, attrs⟩, hmem, rfl⟩ := List.mem_map.1 hg
  exact ⟨attrs, mem_groupsIn.1 hmem⟩

def vcp1 : Name := ⟨"VCP-1".toList, by decide⟩
def vcp12 : Name := ⟨"VCP-12".toList, by decide⟩
def sweep0 : Name := ⟨"sweep_0".toList, by decide⟩
def dbz : Name := ⟨"DBZ".toList, by decide⟩

/-- A one-dimensional array of floats. -/
def dbzMetadata : ArrayMetadata Nat where
  dimensionNames := some [some "range".toList]
  shape := [3]
  dataType := ⟨.float64, some "float64", "float64 / <f8"⟩
  attributes := [("units".toList, 0)]

/-- A radar tree with two volumes whose names share a prefix. -/
def radarTree : Hierarchy Nat where
  nodes := [([], .group [("title".toList, 1)]), ([vcp1], .group []), ([vcp12], .group []),
    ([vcp12, sweep0], .group [("elevation".toList, 2)]), ([vcp12, sweep0, dbz], .array dbzMetadata)]
  nodup := by decide
  closed := closed_of_dropLast (by simp [groupsIn])

end Rustytree
