import Rustytree.Glob
import Rustytree.Hierarchy
import Rustytree.Lib.Collect
import Rustytree.Lib.Preorder
/-!
# The vanilla walker (`walk_via_zarrs`)

Discovery descends from the root, pruning children the glob predicate rules
out; then every discovered group is opened. `try_join_all` is a run over the
list: its results stand in the order of the list. Descent is bounded by a fuel
argument, and enough fuel is shown to suffice; the list is then the pre-order of
the pruned tree, which holds the groups of the region, each once.
-/

namespace Rustytree
open Glob Lib.Preorder

variable {J E : Type}

/-! ## The source -/

/-- `map_group_open_err`. -/
def mapGroupOpenErr (path : Str) (ctx : String) : GroupCreateError → RustytreeError
  | .missingMetadata => .notFound s!"group {shown path} not found in store"
  | .other err => .other s!"failed to open group {shown path}{ctx}: {err}"

/-- `open_array_meta`. -/
def openArrayMeta (store : ZarrsStore J) (arrayPath : Str) : Except RustytreeError (VarMeta J E) :=
  match store.arrayOpen arrayPath with
  | .error err => .error (.other s!"failed to open array {shown arrayPath}: {err}")
  | .ok array => .ok (varMeta arrayPath array)

/-- `open_single`. -/
def openSingle (store : ZarrsStore J) (path : Str) : Except RustytreeError (NodeData J E) :=
  match store.groupOpen path with
  | .error err => .error (mapGroupOpenErr path "" err)
  | .ok attributes =>
    match store.childArrayPaths path with
    | .error err => .error (.other s!"failed to list arrays in {shown path}: {err}")
    | .ok arrayPaths => do
      let vars ← arrayPaths.mapM (openArrayMeta store)
      .ok { path, attrs := cloneAttrs attributes, vars }

/-- `glob.is_none_or(|g| g.could_descendant_match(path))`. -/
def passes (glob : Option GlobPredicate) (path : Str) : Bool := glob.all (·.couldDescendantMatch path)

/-- `discover_paths`. -/
def discoverPaths (store : ZarrsStore J) (glob : Option GlobPredicate) : Nat → Str → Except RustytreeError (List Str)
  | 0, _ => .error .outOfFuel
  | fuel + 1, path =>
    match store.groupOpen path with
    | .error err => .error (mapGroupOpenErr path " during walk" err)
    | .ok _ =>
      match store.childGroupPaths path with
      | .error err => .error (.other s!"failed to list child groups in {shown path}: {err}")
      | .ok childPaths => do
        -- Only children are pruned; the root of the walk is not asked.
        let childStrs := childPaths.filter (passes glob)
        let subResults ← childStrs.mapM (discoverPaths store glob fuel)
        .ok (path :: subResults.flatten)

/-- `walk_via_zarrs`. -/
def walkViaZarrs (fuel : Nat) (store : ZarrsStore J) (rootPath : Str) (recursive : Bool)
    (glob : Option GlobPredicate) : Except RustytreeError (List (NodeData J E)) :=
  match if recursive then discoverPaths store glob fuel rootPath else .ok [rootPath] with
  | .error err => .error err
  | .ok paths => paths.mapM (openSingle store)

/-! ## What a walk returns -/

/-- The groups a walk from `root` is to return: those at or below it that
survive the pruning, or `root` alone. -/
def Region (H : Hierarchy J) (root : Path) (recursive : Bool) (glob : Option GlobPredicate) (q : Path) : Prop :=
  q ∈ H.groupPaths ∧
    if recursive then root <+: q ∧ (q = root ∨ passes glob (pathStr q) = true) else q = root

/-- A walk does not leave its root. -/
theorem Region.below_root {H : Hierarchy J} {root q : Path} {recursive : Bool} {glob : Option GlobPredicate}
    (h : Region H root recursive glob q) : root <+: q := by
  obtain ⟨-, hq⟩ := h
  cases recursive with
  | true => exact hq.1
  | false => exact (show q = root from hq) ▸ List.prefix_refl q

/-- The node is the group at `p`, with its attributes and exactly its arrays. -/
structure Describes (H : Hierarchy J) (p : Path) (node : NodeData J E) : Prop where
  path : node.path = pathStr p
  attrs : ∃ attributes, (p, .group attributes) ∈ H.nodes ∧ node.attrs = cloneAttrs attributes
  vars : node.vars.Perm (varsIn H.nodes p)

/-- A node as it is described has no two variables of one name. -/
theorem Describes.names_nodup {H : Hierarchy J} {p : Path} {node : NodeData J E} (h : Describes H p node) :
    (node.vars.map (·.name)).Nodup :=
  (h.vars.map _).nodup_iff.2 (Hierarchy.varsIn_names_nodup p)

/-- The nodes are those of the region's groups, each once. -/
def Walked (region : Path → Prop) (isNode : Path → NodeData J E → Prop) (nodes : List (NodeData J E)) : Prop :=
  ∃ out : List Path, out.Nodup ∧ (∀ q, q ∈ out ↔ region q) ∧ List.Forall₂ isNode out nodes

section
variable {store : ZarrsStore J} {H : Hierarchy J} {glob : Option GlobPredicate}

theorem passes_prefix {p q : Path} (h : p <+: q) (hq : passes glob (pathStr q) = true) :
    passes glob (pathStr p) = true := by
  cases glob with
  | none => rfl
  | some g => exact couldDescendantMatch_prefix h hq

theorem openArrayMeta_ok (h : Serves store H) {p : Path} {metadata : ArrayMetadata J}
    (hp : (p, .array metadata) ∈ H.nodes) :
    openArrayMeta (E := E) store (pathStr p) = .ok (varMeta (pathStr p) ⟨pathStr p, metadata⟩) := by
  rw [openArrayMeta, h.array p metadata hp]

theorem openSingle_ok (h : Serves store H) {p : Path} (hp : p ∈ H.groupPaths) :
    ∃ node : NodeData J E, openSingle store (pathStr p) = .ok node ∧ Describes H p node := by
  obtain ⟨attributes, hg⟩ := Hierarchy.mem_groupPaths.1 hp
  obtain ⟨l, hl, hperm⟩ := h.childArrays p hp
  have hvars : (l.map fun a => pathStr a.1).mapM (openArrayMeta (E := E) store) =
      .ok (l.map fun a => varMeta (pathStr a.1) ⟨pathStr a.1, a.2⟩) := by
    rw [List.mapM_map]
    refine Lib.Collect.mapM_ok_of fun a ha => openArrayMeta_ok h ?_
    exact (Hierarchy.mem_childArrays.1 (hperm.mem_iff.1 ha)).2
  refine ⟨⟨pathStr p, cloneAttrs attributes, l.map fun a => varMeta (pathStr a.1) ⟨pathStr a.1, a.2⟩⟩, ?_,
    ⟨rfl, ⟨attributes, hg, rfl⟩, hperm.map _⟩⟩
  simp only [openSingle, h.group p attributes hg, hl, hvars]
  rfl

/-- The region of a group is the group and the regions of its children that survive. -/
theorem region_children_iff {p : Path} (hp : p ∈ H.groupPaths) {q : Path} :
    Region H p true glob q ↔
      q = p ∨ ∃ c ∈ H.childGroups p, passes glob (pathStr c) = true ∧ Region H c true glob q := by
  constructor
  · rintro ⟨hqg, ⟨rest, rfl⟩, hq⟩
    cases rest with
    | nil => exact .inl (List.append_nil p)
    | cons name rest =>
      -- A group below a child survives only if the child does.
      have hpass : passes glob (pathStr (p ++ name :: rest)) = true := hq.resolve_left (by simp)
      have hpre : p ++ [name] <+: p ++ name :: rest := ⟨rest, by simp⟩
      have hc : p ++ [name] ∈ H.childGroups p :=
        Hierarchy.mem_childGroups.2 ⟨⟨name, rfl⟩, Hierarchy.group_of_prefix hqg hpre⟩
      exact .inr ⟨p ++ [name], hc, passes_prefix hpre hpass, hqg, hpre, .inr hpass⟩
  · rintro (rfl | ⟨c, hc, hpass, hqg, hpre, hq⟩)
    · exact ⟨hp, List.prefix_refl q, .inl rfl⟩
    · obtain ⟨⟨name, rfl⟩, -⟩ := Hierarchy.mem_childGroups.1 hc
      refine ⟨hqg, (List.prefix_append p [name]).trans hpre, .inr ?_⟩
      rcases hq with rfl | hq
      · exact hpass
      · exact hq

/-! ## Discovery lists a tree -/

/-- A tree of the paths that `children` lists and `keep` leaves in. -/
inductive IsPruned (children : Path → List Path) (keep : Path → Bool) : RoseTree Path → Prop
  | node {p : Path} {ts : List (RoseTree Path)} : ts.map RoseTree.label = (children p).filter keep →
      (∀ t ∈ ts, IsPruned children keep t) → IsPruned children keep (.node p ts)

variable {children : Path → List Path} {keep : Path → Bool}

/-- A path below a child is strictly below the parent. -/
theorem below_child {p q : Path} {name : Name} (h : p ++ [name] <+: q) : p <+: q ∧ ¬ q <+: p := by
  refine ⟨(List.prefix_append p [name]).trans h, ?_⟩
  intro hup
  have hlen := h.length_le.trans hup.length_le
  simp at hlen

/-- No path is below two children of one group. -/
theorem children_apart {p q : Path} {a b : Name} (hne : p ++ [a] ≠ p ++ [b]) (ha : p ++ [a] <+: q) :
    ¬ p ++ [b] <+: q := by
  intro hb
  have hlen : (p ++ [a]).length = (p ++ [b]).length := by simp
  exact hne ((List.prefix_of_prefix_length_le ha hb hlen.le).eq_of_length hlen)

/-- A pruned tree of groups is ordered by the paths. -/
theorem IsPruned.ordered (hchildren : ∀ p ∈ H.groupPaths, (children p).Perm (H.childGroups p)) {t : RoseTree Path}
    (h : IsPruned children keep t) (ht : t.label ∈ H.groupPaths) :
    t.Ordered (· <+: ·) ∧ ∀ q ∈ t.preorder, t.label <+: q := by
  induction h with
  | @node p ts hlabels _ ih =>
    have hchild : ∀ t ∈ ts, (∃ name, t.label = p ++ [name]) ∧ t.label ∈ H.groupPaths := by
      intro t hmem
      have hlabel : t.label ∈ (children p).filter keep := hlabels ▸ List.mem_map_of_mem hmem
      exact Hierarchy.mem_childGroups.1 ((hchildren p ht).mem_iff.1 (List.mem_filter.1 hlabel).1)
    have hbelow : ∀ t ∈ ts, ∀ q ∈ t.preorder, t.label <+: q := fun t hmem => (ih t hmem (hchild t hmem).2).2
    have hdown : ∀ q ∈ preorderAll ts, p <+: q ∧ ¬ q <+: p := by
      intro q hq
      obtain ⟨t, hmem, hqt⟩ := mem_preorderAll.1 hq
      obtain ⟨⟨name, hname⟩, -⟩ := hchild t hmem
      exact below_child (hname ▸ hbelow t hmem q hqt)
    have hnodup : (ts.map RoseTree.label).Nodup := by
      rw [hlabels]
      exact ((hchildren p ht).nodup_iff.2 (Hierarchy.groupPaths_nodup.filter _)).filter _
    refine ⟨.node (fun t hmem => (ih t hmem (hchild t hmem).2).1) hdown ?_, ?_⟩
    · apply (List.pairwise_map.1 hnodup).imp_of_mem
      intro t u hmt hmu hne x hx y hy
      obtain ⟨⟨a, ha⟩, -⟩ := hchild t hmt
      obtain ⟨⟨b, hb⟩, -⟩ := hchild u hmu
      have hxt : p ++ [a] <+: x := ha ▸ hbelow t hmt x hx
      have hyu : p ++ [b] <+: y := hb ▸ hbelow u hmu y hy
      rw [ha, hb] at hne
      exact ⟨fun hxy => children_apart hne (hxt.trans hxy) hyu, fun hyx => children_apart hne hxt (hyu.trans hyx)⟩
    · intro q hq
      rcases List.mem_cons.1 hq with rfl | hq
      · exact List.prefix_refl q
      · exact (hdown q hq).1

theorem IsPruned.nodup (hchildren : ∀ p ∈ H.groupPaths, (children p).Perm (H.childGroups p)) {t : RoseTree Path}
    (h : IsPruned children keep t) (ht : t.label ∈ H.groupPaths) : t.preorder.Nodup := by
  apply (h.ordered hchildren ht).1.pairwise.imp
  rintro p q hqp rfl
  exact hqp (List.prefix_refl p)

/-- The tree that the predicate prunes holds the region of its root. -/
theorem IsPruned.mem_iff (hchildren : ∀ p ∈ H.groupPaths, (children p).Perm (H.childGroups p)) {t : RoseTree Path}
    (h : IsPruned children (fun q => passes glob (pathStr q)) t) (ht : t.label ∈ H.groupPaths) {q : Path} :
    q ∈ t.preorder ↔ Region H t.label true glob q := by
  induction h with
  | @node p ts hlabels _ ih =>
    have hlabel : ∀ c, c ∈ ts.map RoseTree.label ↔ c ∈ H.childGroups p ∧ passes glob (pathStr c) = true := by
      intro c
      rw [hlabels, List.mem_filter, (hchildren p ht).mem_iff]
    have hgroup : ∀ c ∈ H.childGroups p, c ∈ H.groupPaths := fun c hc => (Hierarchy.mem_childGroups.1 hc).2
    have hregion : Region H p true glob q ↔ _ := region_children_iff ht
    rw [RoseTree.label, hregion, RoseTree.preorder, List.mem_cons, mem_preorderAll]
    apply or_congr_right
    constructor
    · rintro ⟨t, hmem, hq⟩
      obtain ⟨hc, hpass⟩ := (hlabel t.label).1 (List.mem_map_of_mem hmem)
      exact ⟨t.label, hc, hpass, (ih t hmem (hgroup _ hc)).1 hq⟩
    · rintro ⟨c, hc, hpass, hq⟩
      obtain ⟨t, hmem, rfl⟩ := List.mem_map.1 ((hlabel c).2 ⟨hc, hpass⟩)
      exact ⟨t, hmem, (ih t hmem (hgroup _ hc)).2 hq⟩

/-- Discovery lists the pruned tree in pre-order. -/
theorem discoverPaths_preorder (h : Serves store H)
    (hlisted : ∀ p ∈ H.groupPaths, store.childGroupPaths (pathStr p) = .ok ((children p).map pathStr))
    (hchildren : ∀ p ∈ H.groupPaths, (children p).Perm (H.childGroups p)) (fuel : Nat) {p : Path}
    (hp : p ∈ H.groupPaths) (hfuel : H.height ≤ fuel + p.length) :
    ∃ t, IsPruned children (fun q => passes glob (pathStr q)) t ∧ t.label = p ∧
      discoverPaths store glob fuel (pathStr p) = .ok (t.preorder.map pathStr) := by
  induction fuel generalizing p with
  | zero => exact absurd (Hierarchy.length_lt_height hp) (by omega)
  | succ fuel ih =>
    obtain ⟨attributes, hg⟩ := Hierarchy.mem_groupPaths.1 hp
    have hsub : ∀ c ∈ (children p).filter (fun q => passes glob (pathStr q)), ∃ t,
        IsPruned children (fun q => passes glob (pathStr q)) t ∧ t.label = c ∧
          discoverPaths store glob fuel (pathStr c) = .ok (t.preorder.map pathStr) := by
      intro c hc
      have hcg := (hchildren p hp).mem_iff.1 (List.mem_filter.1 hc).1
      obtain ⟨⟨name, rfl⟩, hcg⟩ := Hierarchy.mem_childGroups.1 hcg
      exact ih hcg (by rw [List.length_append, List.length_singleton]; omega)
    choose! tree hpruned hlabel hrun using hsub
    refine ⟨.node p (((children p).filter fun q => passes glob (pathStr q)).map tree), .node ?_ ?_, rfl, ?_⟩
    · rw [List.map_map]
      refine (List.map_congr_left fun c hc => hlabel c hc).trans (List.map_id _)
    · intro t ht
      obtain ⟨c, hc, rfl⟩ := List.mem_map.1 ht
      exact hpruned c hc
    · have hmap : (((children p).map pathStr).filter (passes glob)).mapM (discoverPaths store glob fuel) =
          .ok (((children p).filter fun q => passes glob (pathStr q)).map fun c => (tree c).preorder.map pathStr) := by
        rw [List.filter_map, List.mapM_map]
        exact Lib.Collect.mapM_ok_of hrun
      simp only [discoverPaths, h.group p attributes hg, hlisted p hp, hmap]
      simp [bind, Except.bind, RoseTree.preorder, preorderAll_eq, List.flatMap, List.map_flatten, List.map_map,
        Function.comp_def]

/-- The groups discovered at and below a group, each once. -/
theorem discoverPaths_ok (h : Serves store H) (fuel : Nat) {p : Path} (hp : p ∈ H.groupPaths)
    (hfuel : H.height ≤ fuel + p.length) :
    ∃ out : List Path, discoverPaths store glob fuel (pathStr p) = .ok (out.map pathStr) ∧ out.Nodup ∧
      ∀ q, q ∈ out ↔ Region H p true glob q := by
  have hchildren := h.childGroups
  choose! children hlisted hperm using hchildren
  obtain ⟨t, hpruned, rfl, hrun⟩ := discoverPaths_preorder h hlisted hperm fuel hp hfuel
  exact ⟨t.preorder, hrun, hpruned.nodup hperm hp, fun q => hpruned.mem_iff hperm hp⟩

/-- The paths the vanilla walk opens are those of its region, each once. -/
theorem walkedPaths_ok (h : Serves store H) {root : Path} (hr : root ∈ H.groupPaths) {fuel : Nat}
    (hfuel : H.height ≤ fuel) (recursive : Bool) (glob : Option GlobPredicate) :
    ∃ out : List Path, (if recursive then discoverPaths store glob fuel (pathStr root) else .ok [pathStr root]) =
      .ok (out.map pathStr) ∧ out.Nodup ∧ ∀ q, q ∈ out ↔ Region H root recursive glob q := by
  cases recursive with
  | true => exact discoverPaths_ok h fuel hr (by omega)
  | false =>
    refine ⟨[root], rfl, by simp, fun q => ?_⟩
    simp only [List.mem_singleton, Region, Bool.false_eq_true, if_false]
    constructor
    · rintro rfl
      exact ⟨hr, rfl⟩
    · exact And.right

/-- The vanilla walk opens the groups of its region. -/
theorem walkViaZarrs_ok (h : Serves store H) {root : Path} (hr : root ∈ H.groupPaths) {fuel : Nat}
    (hfuel : H.height ≤ fuel) (recursive : Bool) (glob : Option GlobPredicate) :
    ∃ nodes : List (NodeData J E), walkViaZarrs fuel store (pathStr root) recursive glob = .ok nodes ∧
      Walked (Region H root recursive glob) (fun p node => openSingle store (pathStr p) = .ok node) nodes := by
  obtain ⟨out, hout, hnd, hmem⟩ := walkedPaths_ok h hr hfuel recursive glob
  have hsingle : ∀ q ∈ out, ∃ node : NodeData J E, openSingle store (pathStr q) = .ok node := by
    intro q hq
    obtain ⟨node, hnode, -⟩ := openSingle_ok (E := E) h ((hmem q).1 hq).1
    exact ⟨node, hnode⟩
  obtain ⟨nodes, hnodes⟩ := Lib.Collect.exists_forall₂ hsingle
  refine ⟨nodes, ?_, out, hnd, hmem, hnodes⟩
  rw [walkViaZarrs, hout]
  simp only [List.mapM_map]
  exact Lib.Collect.mapM_eq_ok.2 hnodes

/-- A root that does not open fails the walk with its own error. -/
theorem walkViaZarrs_error {path : Str} {err : GroupCreateError} (h : store.groupOpen path = .error err) {fuel : Nat}
    (hfuel : 0 < fuel) (recursive : Bool) (glob : Option GlobPredicate) :
    ∃ ctx, walkViaZarrs (E := E) fuel store path recursive glob = .error (mapGroupOpenErr path ctx err) := by
  obtain ⟨fuel, rfl⟩ := Nat.exists_eq_add_one.2 hfuel
  cases recursive with
  | true => exact ⟨" during walk", by simp [walkViaZarrs, discoverPaths, h]⟩
  | false => exact ⟨"", by simp [walkViaZarrs, openSingle, h, bind, Except.bind]⟩

end

end Rustytree
