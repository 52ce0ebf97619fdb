import Rustytree.Eager
import Rustytree.HeldStores
import Rustytree.IcechunkWalk
/-!
# Both walkers (`walk_recursive`)

The public walk dispatches on the source and runs the eager phase. Both walkers
return the groups of the same region with the same contents.
-/

namespace Rustytree
open Glob

variable {J E : Type}

/-- The walk before the eager phase. -/
def metadataWalk (fuel : Nat) (source : WalkSource J) (rootPath : Str) (recursive : Bool)
    (glob : Option GlobPredicate) : Except RustytreeError (List (NodeData J E)) :=
  match source with
  | .icechunk session => walkIcechunkSessionSnapshot session rootPath recursive glob
  | .vanilla store => walkViaZarrs fuel store rootPath recursive glob

/-- `walk_recursive`. -/
def walkRecursive (fuel : Nat) (fetch : Nat → Nat → ZarrArray J → Except RustytreeError E) (source : WalkSource J)
    (rootPath : Str) (recursive : Bool) (glob : Option GlobPredicate) : Except RustytreeError (List (NodeData J E)) :=
  match metadataWalk fuel source rootPath recursive glob with
  | .error err => .error err
  | .ok nodes => .ok (eagerPhase fetch nodes)

/-! ## The walkers agree -/

/-- The same map from group path to attributes and set of arrays. -/
structure SameTree (a b : List (NodeData J E)) : Prop where
  nodup : (a.map (·.path)).Nodup
  paths : (a.map (·.path)).Perm (b.map (·.path))
  contents : ∀ m ∈ a, ∀ n ∈ b, m.path = n.path → m.attrs = n.attrs ∧ m.vars.Perm n.vars

theorem Walked.imp {region : Path → Prop} {P Q : Path → NodeData J E → Prop} {nodes : List (NodeData J E)}
    (h : Walked region P nodes) (hPQ : ∀ p node, region p → P p node → Q p node) : Walked region Q nodes := by
  obtain ⟨out, hnd, hmem, hnodes⟩ := h
  have hall : List.Forall₂ (fun p node => p ∈ out ∧ P p node) out nodes :=
    (List.forall₂_and_left out nodes).2 ⟨fun p hp => hp, hnodes⟩
  exact ⟨out, hnd, hmem, hall.imp fun p node h => hPQ p node ((hmem p).1 h.1) h.2⟩

/-- Every node of a walk is a group of the region. -/
theorem Walked.exists_group {region : Path → Prop} {P : Path → NodeData J E → Prop} {nodes : List (NodeData J E)}
    (h : Walked region P nodes) {node : NodeData J E} (hn : node ∈ nodes) : ∃ p, region p ∧ P p node := by
  obtain ⟨out, -, hmem, hnodes⟩ := h
  have hflip : List.Forall₂ (fun node p => (p ∈ out ∧ P p node)) nodes out :=
    ((List.forall₂_and_left out nodes).2 ⟨fun p hp => hp, hnodes⟩).flip
  obtain ⟨p, -, hp⟩ := Lib.Collect.exists_of_forall₂ hflip hn
  exact ⟨p, (hmem p).1 hp.1, hp.2⟩

theorem Walked.paths {H : Hierarchy J} {region : Path → Prop} {nodes : List (NodeData J E)}
    (h : Walked region (Describes H) nodes) :
    ∃ out : List Path, out.Nodup ∧ (∀ q, q ∈ out ↔ region q) ∧ nodes.map (·.path) = out.map pathStr := by
  obtain ⟨out, hnd, hmem, hnodes⟩ := h
  refine ⟨out, hnd, hmem, ?_⟩
  rw [← List.forall₂_eq_eq_eq, List.forall₂_map_left_iff, List.forall₂_map_right_iff]
  exact (hnodes.imp fun _ _ h => h.path).flip

/-- Two walks of one region are the same tree. -/
theorem sameTree_of_walked {H : Hierarchy J} {region : Path → Prop} {a b : List (NodeData J E)}
    (ha : Walked region (Describes H) a) (hb : Walked region (Describes H) b) : SameTree a b := by
  obtain ⟨outA, hndA, hmemA, hpathsA⟩ := ha.paths
  obtain ⟨outB, hndB, hmemB, hpathsB⟩ := hb.paths
  have hperm : outA.Perm outB := (List.perm_ext_iff_of_nodup hndA hndB).2 fun q => (hmemA q).trans (hmemB q).symm
  refine ⟨hpathsA ▸ hndA.map pathStr_injective, ?_, fun m hm n hn hpath => ?_⟩
  · rw [hpathsA, hpathsB]
    exact hperm.map _
  · obtain ⟨p, -, hp⟩ := ha.exists_group hm
    obtain ⟨q, -, hq⟩ := hb.exists_group hn
    have hpq : p = q := pathStr_injective (hp.path.symm.trans (hpath.trans hq.path))
    subst hpq
    obtain ⟨attrsA, hgA, hattrsA⟩ := hp.attrs
    obtain ⟨attrsB, hgB, hattrsB⟩ := hq.attrs
    cases Hierarchy.node_unique hgA hgB
    exact ⟨hattrsA.trans hattrsB.symm, hp.vars.trans hq.vars.symm⟩

theorem passes_root (glob : Option GlobPredicate) : passes glob (pathStr []) = true := by
  cases glob with
  | none => rfl
  | some g => exact (couldDescendantMatch_iff g _).2 fun segs _ => ⟨[], segs, rfl, by simp⟩

/-- For the combinations the entry points produce, both walkers succeed and
return the same tree: the groups of the hierarchy with exactly their arrays. -/
theorem walkers_agree {store : ZarrsStore J} {session : Session J} {H : Hierarchy J} (hs : Serves store H)
    {root : Path} (hr : root ∈ H.groupPaths) (hh : HoldsAt session H root) (recursive : Bool)
    (glob : Option GlobPredicate) (hcombo : glob = none ∨ root = [] ∧ recursive = true) {fuel : Nat}
    (hfuel : H.height ≤ fuel) :
    ∃ vanilla ice : List (NodeData J E),
      walkViaZarrs fuel store (pathStr root) recursive glob = .ok vanilla ∧
      walkIcechunkSessionSnapshot session (pathStr root) recursive glob = .ok ice ∧ SameTree vanilla ice ∧
      ∀ node, node ∈ vanilla ∨ node ∈ ice →
        ∃ p ∈ H.groupPaths, node.path = pathStr p ∧ node.vars.Perm (varsIn H.nodes p) := by
  have hpass : passes glob (pathStr root) = true := by
    rcases hcombo with rfl | ⟨rfl, -⟩
    · rfl
    · exact passes_root glob
  obtain ⟨l, hperm, hlists⟩ := hh
  obtain ⟨vanilla, hvanilla, hwalkedV⟩ := walkViaZarrs_ok (E := E) hs hr hfuel recursive glob
  obtain ⟨ice, hice, hwalkedI⟩ := walkIcechunk_ok (E := E) hlists hperm hr hpass recursive
  have hV : Walked (Region H root recursive glob) (Describes H) vanilla := hwalkedV.imp fun p node hp hopen => by
    obtain ⟨node', hopen', hd⟩ := openSingle_ok (E := E) hs hp.1
    cases hopen.symm.trans hopen'
    exact hd
  have hI : Walked (Region H root recursive glob) (Describes H) ice := hwalkedI.imp fun p node _ h => h.describes hperm
  refine ⟨vanilla, ice, hvanilla, hice, sameTree_of_walked hV hI, ?_⟩
  rintro node (hn | hn)
  · obtain ⟨p, hp, hd⟩ := hV.exists_group hn
    exact ⟨p, hp.1, hd.path, hd.vars⟩
  · obtain ⟨p, hp, hd⟩ := hI.exists_group hn
    exact ⟨p, hp.1, hd.path, hd.vars⟩

/-- The whole radar tree, pruned by a glob. -/
theorem walkers_agree_radar :
    ∃ vanilla ice : List (NodeData Nat Unit),
      walkViaZarrs 9 (storeOf radarTree) (pathStr []) true (some (.parse "/VCP-12/*".toList)) = .ok vanilla ∧
      walkIcechunkSessionSnapshot (sessionOf radarTree) (pathStr []) true (some (.parse "/VCP-12/*".toList)) = .ok ice ∧
      SameTree vanilla ice ∧
      ∀ node, node ∈ vanilla ∨ node ∈ ice →
        ∃ p ∈ radarTree.groupPaths, node.path = pathStr p ∧ node.vars.Perm (varsIn radarTree.nodes p) :=
  walkers_agree (storeOf_serves radarTree) (by decide) (sessionOf_holds radarTree []) true _ (.inr ⟨rfl, rfl⟩)
    (by decide)

/-! ## One node for each group -/

/-- The source holds the hierarchy. An icechunk session is asked from the given
roots only, and lists the nodes of its snapshot in one order. -/
def HeldFrom (H : Hierarchy J) (roots : Path → Prop) : WalkSource J → Prop
  | .vanilla store => Serves store H
  | .icechunk session => ∃ order : List (Path × Node J), order.Perm H.nodes ∧
      ∀ root, roots root → Lists session (order.filter fun n => root.isPrefixOf n.1) root

/-- A session asked from one root only can be taken to list in one order. -/
theorem heldFrom_of_holdsAt {session : Session J} {H : Hierarchy J} {root : Path} (h : HoldsAt session H root) :
    HeldFrom H (· = root) (.icechunk session) := by
  obtain ⟨l, hperm, hlists⟩ := h
  have hin : ∀ n ∈ l, root.isPrefixOf n.1 = true := fun n hn => (List.mem_filter.1 (hperm.mem_iff.1 hn)).2
  refine ⟨l ++ H.nodes.filter fun n => !root.isPrefixOf n.1, ?_, ?_⟩
  · exact (hperm.append_right _).trans (List.filter_append_perm _ _)
  · rintro r rfl
    rw [List.filter_append, List.filter_eq_self.2 hin, List.filter_filter]
    simpa using hlists

theorem listed_order {order : List (Path × Node J)} {root p : Path} {node : NodeData J E} (hpre : root <+: p)
    (h : Listed (order.filter fun n => root.isPrefixOf n.1) p node) : Listed order p node := by
  obtain ⟨attributes, hmem, rfl⟩ := h
  exact ⟨attributes, (List.mem_filter.1 hmem).1, by rw [varsIn_below hpre]⟩

theorem listed_unique {H : Hierarchy J} {order : List (Path × Node J)} (hperm : order.Perm H.nodes) {p : Path}
    {m n : NodeData J E} (hm : Listed order p m) (hn : Listed order p n) : m = n := by
  obtain ⟨a, ha, rfl⟩ := hm
  obtain ⟨b, hb, rfl⟩ := hn
  cases Hierarchy.node_unique (hperm.mem_iff.1 ha) (hperm.mem_iff.1 hb)
  rfl

/-- A walk whose nodes are determined by their paths is a map over its paths. -/
theorem Walked.eq_map {region : Path → Prop} {P : Path → NodeData J E → Prop} {nodes : List (NodeData J E)}
    (h : Walked region P nodes) (nodeOf : Path → NodeData J E) (hP : ∀ p node, region p → P p node → node = nodeOf p) :
    ∃ out : List Path, out.Nodup ∧ (∀ q, q ∈ out ↔ region q) ∧ nodes = out.map nodeOf := by
  obtain ⟨out, hnd, hmem, hnodes⟩ := h.imp hP
  refine ⟨out, hnd, hmem, ?_⟩
  rw [← List.forall₂_eq_eq_eq, List.forall₂_map_right_iff]
  exact hnodes.flip

/-- `nodeOf` gives one node for each group, and every walk from one of the roots
succeeds and returns the nodes of its region, each once. -/
def ReturnsNodes (H : Hierarchy J) (roots : Path → Prop) (fuel : Nat) (fetch : ZarrArray J → Except RustytreeError E)
    (source : WalkSource J) (nodeOf : Path → NodeData J E) : Prop :=
  (∀ p ∈ H.groupPaths, (nodeOf p).path = pathStr p) ∧
  ∀ root ∈ H.groupPaths, roots root → ∀ (recursive : Bool) (glob : Option GlobPredicate),
    passes glob (pathStr root) = true →
    ∃ out : List Path, out.Nodup ∧ (∀ q, q ∈ out ↔ Region H root recursive glob q) ∧
      walkRecursive fuel (fun _ _ => fetch) source (pathStr root) recursive glob = .ok (out.map nodeOf)

section
variable {H : Hierarchy J} {roots : Path → Prop} {fuel : Nat}

/-- A vanilla store opens every group to the same node in every walk. -/
theorem vanilla_returnsNodes {store : ZarrsStore J} (hs : Serves store H)
    (fetch : ZarrArray J → Except RustytreeError E) (hfuel : H.height ≤ fuel) :
    ∃ nodeOf, ReturnsNodes H roots fuel fetch (.vanilla store) nodeOf := by
  have hopen : ∀ p ∈ H.groupPaths, ∃ node : NodeData J E,
      openSingle store (pathStr p) = .ok node ∧ Describes H p node := fun p hp => openSingle_ok hs hp
  choose! node hnode hdescribes using hopen
  refine ⟨fun p => eagerNode (fun _ => fetch) (node p), fun p hp => (hdescribes p hp).path, ?_⟩
  intro root hr _ recursive glob _
  obtain ⟨nodes, hwalk, hwalked⟩ := walkViaZarrs_ok (E := E) hs hr hfuel recursive glob
  obtain ⟨out, hnd, hmem, rfl⟩ := hwalked.eq_map node fun p n hp hn =>
    Except.ok.inj (hn.symm.trans (hnode p hp.1))
  refine ⟨out, hnd, hmem, ?_⟩
  simp only [walkRecursive, metadataWalk, hwalk, eagerPhase_map, List.map_map]
  rfl

/-- A session lists every group with its arrays in one order, whatever the root. -/
theorem icechunk_returnsNodes {session : Session J} (hsource : HeldFrom H roots (.icechunk session))
    (fetch : ZarrArray J → Except RustytreeError E) :
    ∃ nodeOf, ReturnsNodes H roots fuel fetch (.icechunk session) nodeOf := by
  obtain ⟨order, hperm, hlists⟩ := hsource
  have hlisted : ∀ p ∈ H.groupPaths, ∃ node : NodeData J E, Listed order p node := by
    intro p hp
    obtain ⟨attributes, hg⟩ := Hierarchy.mem_groupPaths.1 hp
    exact ⟨_, attributes, hperm.mem_iff.2 hg, rfl⟩
  choose! node hnode using hlisted
  refine ⟨fun p => eagerNode (fun _ => fetch) (node p), fun p hp => ?_, ?_⟩
  · obtain ⟨attributes, -, heq⟩ := hnode p hp
    rw [eagerNode_path, heq]
  · intro root hr hroot recursive glob hpass
    obtain ⟨nodes, hwalk, hwalked⟩ := walkIcechunk_ok (E := E) (hlists root hroot) (hperm.filter _) hr hpass recursive
    obtain ⟨out, hnd, hmem, rfl⟩ := hwalked.eq_map node fun p n hp hn =>
      listed_unique hperm (listed_order hp.below_root hn) (hnode p hp.1)
    refine ⟨out, hnd, hmem, ?_⟩
    simp only [walkRecursive, metadataWalk, hwalk, eagerPhase_map, List.map_map]
    rfl

/-- A source that holds a hierarchy has one node for each group. -/
theorem walkRecursive_ok {source : WalkSource J} (hsource : HeldFrom H roots source)
    (fetch : ZarrArray J → Except RustytreeError E) (hfuel : H.height ≤ fuel) :
    ∃ nodeOf, ReturnsNodes H roots fuel fetch source nodeOf := by
  cases source with
  | vanilla store => exact vanilla_returnsNodes hsource fetch hfuel
  | icechunk session => exact icechunk_returnsNodes hsource fetch

end

end Rustytree
