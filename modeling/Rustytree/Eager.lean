import Rustytree.Lib.WriteBack
import Rustytree.Store
/-!
# The eager phase (`eager_phase`)

A work list of (node, variable) positions is fetched and the results are
written back by position. We prove that this is a map: each variable gets the
outcome of its own fetch and nothing else changes. `fetch` is
`fetch_all_elements` for the variable at a position.
-/

namespace Rustytree

variable {J E : Type}

/-! ## The source -/

def eagerFetchMaxElements : Nat := 2 ^ 20

def eagerFetchMaxObjectElements : Nat := 4096

/-- `is_self_named_1d`. -/
def isSelfNamed1d (var : VarMeta J E) : Bool := var.dims == [var.name]

/-- `iter().product()` on `u64`, which wraps in a release build. -/
def productU64 (shape : List Nat) : Nat := shape.foldl (fun acc n => acc * n % 2 ^ 64) 1

/-- `should_eager_fetch`. -/
def shouldEagerFetch (var : VarMeta J E) : Bool :=
  let nElements := if var.shape.isEmpty then 1 else productU64 var.shape
  if var.dtype == "object" then
    if nElements > eagerFetchMaxObjectElements then false
    else var.shape.isEmpty || isSelfNamed1d var
  else if nElements > eagerFetchMaxElements then false
  else isSelfNamed1d var

/-- The work list. -/
def eagerWork (nodes : List (NodeData J E)) : List (Nat × Nat × ZarrArray J) :=
  nodes.zipIdx.flatMap fun (node, ni) =>
    node.vars.zipIdx.filterMap fun (var, vi) => if shouldEagerFetch var then some (ni, vi, var.array) else none

/-- One task: any error leaves the variable lazy. -/
def eagerTask (fetch : Nat → Nat → ZarrArray J → Except RustytreeError E) (task : Nat × Nat × ZarrArray J) :
    Nat × Nat × Option E :=
  match fetch task.1 task.2.1 task.2.2 with
  | .ok elements => (task.1, task.2.1, some elements)
  | .error _ => (task.1, task.2.1, none)

/-- `nodes[ni].vars[vi].eager = Some(eager)`. -/
def assignEager (nodes : List (NodeData J E)) (result : Nat × Nat × Option E) : List (NodeData J E) :=
  match result with
  | (ni, vi, some eager) => nodes.modify ni fun node =>
      { node with vars := node.vars.modify vi fun var => { var with eager := some eager } }
  | (_, _, none) => nodes

/-- `eager_phase`. -/
def eagerPhase (fetch : Nat → Nat → ZarrArray J → Except RustytreeError E) (nodes : List (NodeData J E)) :
    List (NodeData J E) :=
  let work := eagerWork nodes
  if work.isEmpty then nodes else (work.map (eagerTask fetch)).foldl assignEager nodes

/-! ## The phase is a map -/

/-- A variable after the phase. -/
def eagerVar (fetch : ZarrArray J → Except RustytreeError E) (var : VarMeta J E) : VarMeta J E :=
  if shouldEagerFetch var then
    match fetch var.array with
    | .ok elements => { var with eager := some elements }
    | .error _ => var
  else var

/-- A node after the phase. -/
def eagerNode (fetch : Nat → ZarrArray J → Except RustytreeError E) (node : NodeData J E) : NodeData J E :=
  { node with vars := node.vars.zipIdx.map fun (var, vi) => eagerVar (fetch vi) var }

/-- The write of one variable's result into a variable. -/
def writeVar (fetch : Nat → ZarrArray J → Except RustytreeError E) (vi : Nat) (source var : VarMeta J E) :
    VarMeta J E :=
  if shouldEagerFetch source then
    match fetch vi source.array with
    | .ok elements => { var with eager := some elements }
    | .error _ => var
  else var

/-- The same, into the variable at its index in a node. -/
def writeNode (fetch : Nat → ZarrArray J → Except RustytreeError E) (e : VarMeta J E × Nat) (node : NodeData J E) :
    NodeData J E :=
  { node with vars := node.vars.modify e.2 (writeVar fetch e.2 e.1) }

theorem modify_writeNode_self {fetch : Nat → ZarrArray J → Except RustytreeError E} {e : VarMeta J E × Nat}
    (h : writeVar fetch e.2 e.1 = id) (ni : Nat) (nodes : List (NodeData J E)) :
    nodes.modify ni (writeNode fetch e) = nodes := by
  have hid : writeNode fetch e = id := by
    funext node
    simp [writeNode, h]
  rw [hid, List.modify_id]

/-- The results of one node's variables are written back to that node. -/
theorem assign_node (fetch : Nat → Nat → ZarrArray J → Except RustytreeError E) (ni : Nat)
    (vars : List (VarMeta J E × Nat)) (nodes : List (NodeData J E)) :
    ((vars.filterMap fun (var, vi) => if shouldEagerFetch var then some (ni, vi, var.array) else none).map
        (eagerTask fetch)).foldl assignEager nodes =
      vars.foldl (fun nodes e => nodes.modify ni (writeNode (fetch ni) e)) nodes := by
  induction vars generalizing nodes with
  | nil => rfl
  | cons e vars ih =>
    -- A variable that is not fetched, or whose fetch fails, writes nothing.
    obtain ⟨var, vi⟩ := e
    rw [List.foldl_cons]
    cases hs : shouldEagerFetch var with
    | false =>
      have hwrite : writeVar (fetch ni) vi var = id := by funext v; simp [writeVar, hs]
      rw [modify_writeNode_self hwrite, List.filterMap_cons_none (by simp [hs])]
      exact ih nodes
    | true =>
      rw [List.filterMap_cons_some (b := (ni, vi, var.array)) (by simp [hs]), List.map_cons, List.foldl_cons]
      cases hf : fetch ni vi var.array with
      | ok elements =>
        have hvar : writeVar (fetch ni) vi var = fun v => { v with eager := some elements } := by
          funext v; simp [writeVar, hs, hf]
        have hwrite : writeNode (fetch ni) (var, vi) = fun node : NodeData J E =>
            { node with vars := node.vars.modify vi fun v => { v with eager := some elements } } := by
          funext node; rw [writeNode, hvar]
        rw [hwrite]
        simp only [eagerTask, hf, assignEager]
        exact ih _
      | error err =>
        have hwrite : writeVar (fetch ni) vi var = id := by funext v; simp [writeVar, hs, hf]
        rw [modify_writeNode_self hwrite]
        simp only [eagerTask, hf, assignEager]
        exact ih nodes

/-- All results of a node, written back in turn, are the node's outcome. -/
theorem writeNode_all (fetch : Nat → ZarrArray J → Except RustytreeError E) (node : NodeData J E) :
    node.vars.zipIdx.foldl (fun node e => writeNode fetch e node) node = eagerNode fetch node := by
  have hvars : ∀ (es : List (VarMeta J E × Nat)) (n : NodeData J E),
      es.foldl (fun node e => writeNode fetch e node) n =
        { n with vars := es.foldl (fun vars e => vars.modify e.2 (writeVar fetch e.2 e.1)) n.vars } := by
    intro es
    induction es with
    | nil => exact fun _ => rfl
    | cons e es ih => exact fun n => ih _
  rw [hvars, Lib.WriteBack.foldl_modify_zipIdx]
  rfl

/-- The early return on an empty work list changes nothing. -/
theorem eagerPhase_foldl (fetch : Nat → Nat → ZarrArray J → Except RustytreeError E) (nodes : List (NodeData J E)) :
    eagerPhase fetch nodes = ((eagerWork nodes).map (eagerTask fetch)).foldl assignEager nodes := by
  rw [eagerPhase]
  split
  next h => rw [List.isEmpty_iff.1 h]; rfl
  next => rfl

/-- Every variable gets the outcome of its own fetch, and nothing else changes. -/
theorem eagerPhase_eq (fetch : Nat → Nat → ZarrArray J → Except RustytreeError E) (nodes : List (NodeData J E)) :
    eagerPhase fetch nodes = nodes.zipIdx.map fun (node, ni) => eagerNode (fetch ni) node := by
  rw [eagerPhase_foldl, eagerWork, List.map_flatMap, List.foldl_flatMap]
  simp only [assign_node, Lib.WriteBack.foldl_modify_same]
  refine (Lib.WriteBack.foldl_modify_zipIdx (fun ni (node n : NodeData J E) =>
    node.vars.zipIdx.foldl (fun n e => writeNode (fetch ni) e n) n) nodes).trans ?_
  exact List.map_congr_left fun e _ => writeNode_all (fetch e.2) e.1

/-- With an outcome that depends on the array alone, the phase is the same map on every list. -/
theorem eagerPhase_map (fetch : ZarrArray J → Except RustytreeError E) (nodes : List (NodeData J E)) :
    eagerPhase (fun _ _ => fetch) nodes = nodes.map (eagerNode fun _ => fetch) := by
  rw [eagerPhase_eq]
  conv_rhs => rw [← List.zipIdx_map_fst 0 nodes, List.map_map]
  rfl

@[simp] theorem eagerNode_path (fetch : Nat → ZarrArray J → Except RustytreeError E) (node : NodeData J E) :
    (eagerNode fetch node).path = node.path := rfl

theorem eagerPhase_paths (fetch : Nat → Nat → ZarrArray J → Except RustytreeError E) (nodes : List (NodeData J E)) :
    (eagerPhase fetch nodes).map (·.path) = nodes.map (·.path) := by
  rw [eagerPhase_eq, List.map_map]
  conv_rhs => rw [← List.zipIdx_map_fst 0 nodes, List.map_map]
  rfl

/-! ## Position by position -/

/-- What the phase makes of the nodes: nothing but the `eager` of a variable
changes, and it holds what the fetch of that variable's array returned, if that
variable is to be fetched and its fetch succeeds. -/
structure Assigned (fetch : Nat → Nat → ZarrArray J → Except RustytreeError E) (before after : List (NodeData J E)) :
    Prop where
  length : after.length = before.length
  node : ∀ i node, before[i]? = some node → ∃ node', after[i]? = some node' ∧ node'.path = node.path ∧
    node'.attrs = node.attrs ∧ node'.vars.length = node.vars.length ∧
    ∀ j var, node.vars[j]? = some var → ∃ var', node'.vars[j]? = some var' ∧ var' = { var with eager := var'.eager } ∧
      ∀ v, var'.eager = some v ↔ shouldEagerFetch var = true ∧ fetch i j var.array = .ok v

theorem eagerVar_fields (fetch : ZarrArray J → Except RustytreeError E) (var : VarMeta J E) :
    eagerVar fetch var = { var with eager := (eagerVar fetch var).eager } := by
  unfold eagerVar
  split
  · split <;> rfl
  · rfl

theorem eagerVar_eager {fetch : ZarrArray J → Except RustytreeError E} {var : VarMeta J E} (h : var.eager = none)
    (v : E) :
    (eagerVar fetch var).eager = some v ↔ shouldEagerFetch var = true ∧ fetch var.array = .ok v := by
  unfold eagerVar
  split
  next hs =>
    cases hf : fetch var.array with
    | ok elements => simp [hs]
    | error err => simp [h]
  next hs => simp [h, hs]

/-- The phase assigns each result to its own variable. -/
theorem eagerPhase_assigned (fetch : Nat → Nat → ZarrArray J → Except RustytreeError E) {nodes : List (NodeData J E)}
    (hnone : ∀ node ∈ nodes, ∀ var ∈ node.vars, var.eager = none) : Assigned fetch nodes (eagerPhase fetch nodes) := by
  rw [eagerPhase_eq]
  refine ⟨by simp, ?_⟩
  intro i node hnode
  refine ⟨eagerNode (fetch i) node, by simp [hnode], rfl, rfl, by simp [eagerNode], ?_⟩
  intro j var hvar
  have heager : var.eager = none := hnone node (List.mem_of_getElem? hnode) var (List.mem_of_getElem? hvar)
  exact ⟨eagerVar (fetch i j) var, by simp [eagerNode, hvar], eagerVar_fields _ var, eagerVar_eager heager⟩

/-! ## The caps -/

/-- The cap on the elements of a variable. -/
def elementCap (var : VarMeta J E) : Nat :=
  if var.dtype == "object" then eagerFetchMaxObjectElements else eagerFetchMaxElements

/-- `should_eager_fetch` with the exact number of elements. -/
def shouldEagerFetchExact (var : VarMeta J E) : Bool :=
  let nElements := if var.shape.isEmpty then 1 else var.shape.prod
  if var.dtype == "object" then
    if nElements > eagerFetchMaxObjectElements then false
    else var.shape.isEmpty || isSelfNamed1d var
  else if nElements > eagerFetchMaxElements then false
  else isSelfNamed1d var

theorem productU64_of_length_le {shape : List Nat} (h : shape.length ≤ 1) (hfit : ∀ n ∈ shape, n < 2 ^ 64) :
    productU64 shape = shape.prod := by
  cases shape with
  | nil => rfl
  | cons n rest =>
    obtain rfl : rest = [] := by simpa using h
    have hn : n < 2 ^ 64 := hfit n List.mem_cons_self
    simp only [productU64, List.foldl_cons, List.foldl_nil, List.prod_singleton, Nat.one_mul]
    exact Nat.mod_eq_of_lt hn

/-- Only scalars and vectors are fetched, whatever their size. -/
theorem not_fetched_of_length {var : VarMeta J E} (hrank : var.dims.length = var.shape.length)
    (h : 1 < var.shape.length) : shouldEagerFetch var = false ∧ shouldEagerFetchExact var = false := by
  have hself : isSelfNamed1d var = false := by
    rw [isSelfNamed1d, beq_eq_false_iff_ne]
    intro hdims
    rw [hdims, List.length_singleton] at hrank
    omega
  have hempty : var.shape.isEmpty = false := by
    rw [List.isEmpty_eq_false_iff_exists_mem]
    exact List.exists_mem_of_length_pos (Nat.lt_of_succ_lt h)
  constructor
  · simp [shouldEagerFetch, hself, hempty]
  · simp [shouldEagerFetchExact, hself, hempty]

/-- A product that wraps is never the one that decides. -/
theorem shouldEagerFetch_eq_exact {var : VarMeta J E} (hrank : var.dims.length = var.shape.length)
    (hfit : ∀ n ∈ var.shape, n < 2 ^ 64) : shouldEagerFetch var = shouldEagerFetchExact var := by
  by_cases h : var.shape.length ≤ 1
  · rw [shouldEagerFetch, shouldEagerFetchExact, productU64_of_length_le h hfit]
  · obtain ⟨hwrapped, hexact⟩ := not_fetched_of_length hrank (Nat.lt_of_not_le h)
    rw [hwrapped, hexact]

theorem shouldEagerFetchExact_bounded {var : VarMeta J E} (h : shouldEagerFetchExact var = true) :
    var.shape.prod ≤ elementCap var := by
  have hone : (if var.shape.isEmpty then 1 else var.shape.prod) = var.shape.prod := by
    split
    next hnil => rw [List.isEmpty_iff.1 hnil, List.prod_nil]
    next => rfl
  unfold shouldEagerFetchExact at h
  rw [hone] at h
  unfold elementCap
  split
  next hobject =>
    simp only [hobject, if_true] at h
    split at h
    · cases h
    next hle => exact Nat.le_of_not_lt hle
  next hother =>
    simp only [hother, Bool.false_eq_true, if_false] at h
    split at h
    · cases h
    next hle => exact Nat.le_of_not_lt hle

/-- The work list holds the variables that are to be fetched, by position. -/
theorem mem_eagerWork {nodes : List (NodeData J E)} {ni vi : Nat} {array : ZarrArray J} :
    (ni, vi, array) ∈ eagerWork nodes ↔ ∃ node var, nodes[ni]? = some node ∧ node.vars[vi]? = some var ∧
      shouldEagerFetch var = true ∧ array = var.array := by
  simp only [eagerWork, List.mem_flatMap, List.mem_filterMap, Prod.exists, List.mem_zipIdx_iff_getElem?]
  constructor
  · rintro ⟨node, i, hnode, var, j, hvar, hwork⟩
    split at hwork
    next hfetch =>
      cases hwork
      exact ⟨node, var, hnode, hvar, hfetch, rfl⟩
    next => cases hwork
  · rintro ⟨node, var, hnode, hvar, hfetch, rfl⟩
    exact ⟨node, ni, hnode, var, vi, hvar, if_pos hfetch⟩

/-- For a variable with as many dimensions as extents, each of 64 bits, the product
that wraps decides as the exact one does; a variable over its cap is not in the
work list. -/
theorem eager_caps_hold (var : VarMeta J E) (hrank : var.dims.length = var.shape.length)
    (hfit : ∀ n ∈ var.shape, n < 2 ^ 64) :
    shouldEagerFetch var = shouldEagerFetchExact var ∧ (shouldEagerFetch var = true → var.shape.prod ≤ elementCap var) ∧
    ∀ (nodes : List (NodeData J E)) (ni vi : Nat) (node : NodeData J E) (array : ZarrArray J), nodes[ni]? = some node →
      node.vars[vi]? = some var → elementCap var < var.shape.prod → (ni, vi, array) ∉ eagerWork nodes := by
  have heq := shouldEagerFetch_eq_exact hrank hfit
  have hbound : shouldEagerFetch var = true → var.shape.prod ≤ elementCap var := by
    intro hfetch
    exact shouldEagerFetchExact_bounded (heq ▸ hfetch)
  refine ⟨heq, hbound, ?_⟩
  intro nodes ni vi node array hnode hvar hover hwork
  obtain ⟨node', var', hnode', hvar', hfetch, -⟩ := mem_eagerWork.1 hwork
  cases hnode.symm.trans hnode'
  cases hvar.symm.trans hvar'
  exact absurd (hbound hfetch) (Nat.not_le_of_lt hover)

/-- An array whose `2 ^ 64` elements wrap to none. -/
def wrappingVar : VarMeta Nat Unit := varMeta "/grid".toList ⟨"/grid".toList,
  ⟨some [some "y".toList, some "x".toList], [2 ^ 32, 2 ^ 32], ⟨.float64, some "float64", "float64 / <f8"⟩, []⟩⟩

theorem eager_caps_hold_wrapping :
    productU64 wrappingVar.shape = 0 ∧ shouldEagerFetch wrappingVar = shouldEagerFetchExact wrappingVar ∧
      (shouldEagerFetch wrappingVar = true → wrappingVar.shape.prod ≤ elementCap wrappingVar) := by
  have h := eager_caps_hold wrappingVar rfl (by decide)
  exact ⟨by decide, h.1, h.2.1⟩

end Rustytree
