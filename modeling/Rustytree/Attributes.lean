import Rustytree.Prefetch
/-!
# Attributes on their way to Python (`json_to_py`, `attrs_to_pydict`)

Attributes are JSON objects nested to any depth. Whatever a hierarchy holds, its
conversion succeeds and reads back as it was, under sorted names.
-/

namespace Rustytree
open Glob Lib.Dict

/-! ## The source -/

/-- `serde_json::Number`, without `arbitrary_precision`. -/
inductive JsonNumber where
  | posInt (n : UInt64)
  | negInt (n : Int64) (negative : n < 0)
  | float (f : Float) (finite : f.isFinite = true)

/-- `serde_json::Value`; an object is its entries in the order of its map. -/
inductive JsonValue where
  | null
  | bool (b : Bool)
  | number (n : JsonNumber)
  | string (s : Str)
  | array (items : List JsonValue)
  | object (map : List (Str × JsonValue))

/-- The Python objects that JSON becomes; a dict is its entries in insertion order. -/
inductive PyObject where
  | none
  | bool (b : Bool)
  | int (i : Int)
  | float (f : Float)
  | str (s : Str)
  | list (items : List PyObject)
  | dict (entries : List (Str × PyObject))

namespace JsonNumber

def asI64 : JsonNumber → Option Int64
  | posInt n => if n ≤ Int64.maxValue.toUInt64 then some n.toInt64 else none
  | negInt n _ => some n
  | float _ _ => none

def asU64 : JsonNumber → Option UInt64
  | posInt n => some n
  | negInt _ _ => none
  | float _ _ => none

def asF64 : JsonNumber → Option Float
  | posInt n => some n.toFloat
  | negInt n _ => some n.toFloat
  | float f _ => some f

/-- `Display`. -/
def display : JsonNumber → String
  | posInt n => toString n
  | negInt n _ => toString n
  | float f _ => toString f

end JsonNumber

/-- The `Number` branch of `json_to_py`. -/
def numberToPy (n : JsonNumber) : Except PyErr PyObject :=
  match n.asI64 with
  | some i => .ok (.int i.toInt)
  | none =>
    match n.asU64 with
    | some u => .ok (.int u.toNat)
    | none =>
      match n.asF64 with
      | some f => .ok (.float f)
      | none => .error (.valueError s!"unrepresentable JSON number: {n.display}")

mutual

/-- `json_to_py`. -/
def jsonToPy : JsonValue → Except PyErr PyObject
  | .null => .ok .none
  | .bool b => .ok (.bool b)
  | .number n => numberToPy n
  | .string s => .ok (.str s)
  | .array items => do
    let list ← itemsToPy items []
    .ok (.list list)
  | .object map => do
    let dict ← entriesToPy map []
    .ok (.dict dict)

/-- Its loop over an array, with the list so far. -/
def itemsToPy : List JsonValue → List PyObject → Except PyErr (List PyObject)
  | [], list => .ok list
  | item :: items, list => do
    let o ← jsonToPy item
    itemsToPy items (list ++ [o])

/-- Its loop over an object, with the dict so far. -/
def entriesToPy : List (Str × JsonValue) → Dict PyObject → Except PyErr (Dict PyObject)
  | [], dict => .ok dict
  | (k, v) :: map, dict => do
    let o ← jsonToPy v
    entriesToPy map (set dict k o)

end

/-- `attrs_to_pydict`. -/
def attrsToPydict (attrs : Attrs JsonValue) : Except PyErr (Dict PyObject) := entriesToPy attrs.toList []

/-! ## Reading back -/

mutual

/-- The maps in a value have each key once, as `serde_json::Map` does. -/
def JsonValue.WellFormed : JsonValue → Prop
  | .array items => ItemsWellFormed items
  | .object map => (map.map (·.1)).Nodup ∧ EntriesWellFormed map
  | _ => True

def ItemsWellFormed : List JsonValue → Prop
  | [] => True
  | item :: items => item.WellFormed ∧ ItemsWellFormed items

def EntriesWellFormed : List (Str × JsonValue) → Prop
  | [] => True
  | (_, v) :: map => v.WellFormed ∧ EntriesWellFormed map

end

/-- The JSON number of an integer, where there is one. -/
def intToJson (i : Int) : Option JsonNumber :=
  if (UInt64.ofNat i.toNat).toNat = i then some (.posInt (UInt64.ofNat i.toNat))
  else if h : (Int64.ofInt i).toInt = i ∧ Int64.ofInt i < 0 then some (.negInt (Int64.ofInt i) h.2) else none

mutual

/-- The JSON value that a Python object stands for, where there is one. -/
def pyToJson : PyObject → Option JsonValue
  | .none => some .null
  | .bool b => some (.bool b)
  | .int i => (intToJson i).map .number
  | .float f => if h : f.isFinite = true then some (.number (.float f h)) else none
  | .str s => some (.string s)
  | .list items => (itemsToJson items).map .array
  | .dict entries => (entriesToJson entries).map .object

def itemsToJson : List PyObject → Option (List JsonValue)
  | [] => some []
  | o :: items => do
    let v ← pyToJson o
    let vs ← itemsToJson items
    some (v :: vs)

def entriesToJson : List (Str × PyObject) → Option (List (Str × JsonValue))
  | [] => some []
  | (k, o) :: entries => do
    let v ← pyToJson o
    let map ← entriesToJson entries
    some ((k, v) :: map)

end

/-! ## Nothing is lost -/

theorem intToJson_posInt (n : UInt64) : intToJson n.toNat = some (.posInt n) := by
  unfold intToJson
  simp

theorem intToJson_negInt (n : Int64) (negative : n < 0) : intToJson n.toInt = some (.negInt n negative) := by
  have hlt : n.toInt < 0 := Int64.lt_iff_toInt_lt.1 negative
  unfold intToJson
  rw [if_neg (by omega), dif_pos (by simpa using negative)]
  simp

/-- A small `u64` is the same integer as an `i64`. -/
theorem toInt64_toInt {n : UInt64} (h : n ≤ Int64.maxValue.toUInt64) : n.toInt64.toInt = n.toNat := by
  have hmax : n.toNat ≤ 2 ^ 63 - 1 := UInt64.le_iff_toNat_le.1 h
  have hval : n.toInt64.toInt = (n.toNat : Int).bmod (2 ^ 64) := BitVec.toInt_eq_toNat_bmod n.toBitVec
  rw [hval, Int.bmod_eq_of_le (by omega) (by omega)]

theorem numberToPy_reads (n : JsonNumber) : ∃ o, numberToPy n = .ok o ∧ pyToJson o = some (.number n) := by
  cases n with
  | posInt n =>
    have hread := congrArg (Option.map JsonValue.number) (intToJson_posInt n)
    by_cases h : n ≤ Int64.maxValue.toUInt64
    · refine ⟨.int n.toInt64.toInt, by simp only [numberToPy, JsonNumber.asI64, if_pos h], ?_⟩
      rw [toInt64_toInt h]
      exact hread
    · exact ⟨.int n.toNat, by simp only [numberToPy, JsonNumber.asI64, if_neg h, JsonNumber.asU64], hread⟩
  | negInt n negative =>
    exact ⟨.int n.toInt, rfl, congrArg (Option.map JsonValue.number) (intToJson_negInt n negative)⟩
  | float f finite => exact ⟨.float f, rfl, by rw [pyToJson, dif_pos finite]⟩

mutual

/-- A value becomes an object that reads back as the value. -/
theorem jsonToPy_reads (v : JsonValue) (h : v.WellFormed) : ∃ o, jsonToPy v = .ok o ∧ pyToJson o = some v := by
  cases v with
  | null => exact ⟨.none, by rw [jsonToPy], by rw [pyToJson]⟩
  | bool b => exact ⟨.bool b, by rw [jsonToPy], by rw [pyToJson]⟩
  | number n =>
    rw [jsonToPy]
    exact numberToPy_reads n
  | string s => exact ⟨.str s, by rw [jsonToPy], by rw [pyToJson]⟩
  | array items =>
    rw [JsonValue.WellFormed] at h
    obtain ⟨list, hlist, hread⟩ := itemsToPy_reads items h
    refine ⟨.list list, ?_, by rw [pyToJson, hread]; rfl⟩
    rw [jsonToPy, hlist]
    rfl
  | object map =>
    rw [JsonValue.WellFormed] at h
    obtain ⟨dict, hdict, hread⟩ := entriesToPy_reads map h.2
    refine ⟨.dict dict, ?_, by rw [pyToJson, hread]; rfl⟩
    rw [jsonToPy, hdict [] (by simpa using h.1)]
    rfl

/-- The loop over an array appends its items' objects. -/
theorem itemsToPy_reads (items : List JsonValue) (h : ItemsWellFormed items) :
    ∃ os, (∀ list, itemsToPy items list = .ok (list ++ os)) ∧ itemsToJson os = some items := by
  cases items with
  | nil => exact ⟨[], fun list => by rw [itemsToPy, List.append_nil], by rw [itemsToJson]⟩
  | cons item items =>
    rw [ItemsWellFormed] at h
    obtain ⟨o, ho, hread⟩ := jsonToPy_reads item h.1
    obtain ⟨os, hos, hreads⟩ := itemsToPy_reads items h.2
    refine ⟨o :: os, fun list => ?_, ?_⟩
    · rw [itemsToPy, ho]
      simp only [bind, Except.bind]
      rw [hos, List.append_assoc, List.singleton_append]
    · rw [itemsToJson, hread, hreads]
      rfl

/-- The loop over an object appends its entries' objects, where the keys are new. -/
theorem entriesToPy_reads (map : List (Str × JsonValue)) (h : EntriesWellFormed map) :
    ∃ os, (∀ dict : Dict PyObject, (dict.map (·.1) ++ map.map (·.1)).Nodup → entriesToPy map dict = .ok (dict ++ os)) ∧
      entriesToJson os = some map := by
  cases map with
  | nil => exact ⟨[], fun dict _ => by rw [entriesToPy, List.append_nil], by rw [entriesToJson]⟩
  | cons entry map =>
    obtain ⟨k, v⟩ := entry
    rw [EntriesWellFormed] at h
    obtain ⟨o, ho, hread⟩ := jsonToPy_reads v h.1
    obtain ⟨os, hos, hreads⟩ := entriesToPy_reads map h.2
    refine ⟨(k, o) :: os, fun dict hnd => ?_, ?_⟩
    · have hnew : k ∉ dict.map (·.1) := fun hk => List.disjoint_of_nodup_append hnd hk (by simp)
      rw [entriesToPy, ho]
      simp only [bind, Except.bind]
      rw [set_of_not_mem hnew, hos _ (by simpa using hnd), List.append_assoc, List.singleton_append]
    · rw [entriesToJson, hread, hreads]
      rfl

end

/-! ## One map of attributes -/

section
variable {J : Type} {attributes : List (Str × J)}

/-- The clone has the entries of the map, under sorted names. -/
theorem cloneAttrs_perm (h : (attributes.map (·.1)).Nodup) : (cloneAttrs attributes).toList.Perm attributes := by
  have hsorted := Std.TreeMap.ordered_keys_toList (t := cloneAttrs attributes)
  have hkeys : ((cloneAttrs attributes).toList.map (·.1)).Nodup := by
    rw [List.nodup_iff_pairwise_ne, List.pairwise_map]
    apply hsorted.imp
    rintro a b hlt heq
    rw [heq, Std.ReflOrd.compare_self] at hlt
    cases hlt
  have hdistinct : attributes.Pairwise fun a b => ¬compare a.1 b.1 = .eq := by
    rw [List.nodup_iff_pairwise_ne, List.pairwise_map] at h
    exact h.imp fun hne heq => hne (Std.LawfulEqOrd.eq_of_compare heq)
  apply (List.perm_ext_iff_of_nodup hkeys.of_map h.of_map).2
  rintro ⟨k, v⟩
  rw [Std.TreeMap.mem_toList_iff_getElem?_eq_some]
  constructor
  · intro hget
    by_cases hk : k ∈ attributes.map (·.1)
    · obtain ⟨⟨_, w⟩, hmem, rfl⟩ := List.mem_map.1 hk
      have hw := Std.TreeMap.getElem?_ofList_of_mem Std.ReflOrd.compare_self hdistinct hmem
      cases hget.symm.trans hw
      exact hmem
    · have hnone : (cloneAttrs attributes)[k]? = none :=
        Std.TreeMap.getElem?_ofList_of_contains_eq_false (by simpa using hk)
      cases hget.symm.trans hnone
  · exact Std.TreeMap.getElem?_ofList_of_mem Std.ReflOrd.compare_self hdistinct

end

theorem entriesWellFormed_iff {map : List (Str × JsonValue)} : EntriesWellFormed map ↔ ∀ e ∈ map, e.2.WellFormed := by
  induction map with
  | nil => simp [EntriesWellFormed]
  | cons e map ih =>
    rw [EntriesWellFormed, ih, List.forall_mem_cons]

/-- Each entry of the dict reads back as the entry of the map at its position. -/
theorem entriesToJson_related {entries : List (Str × PyObject)} {map : List (Str × JsonValue)}
    (h : entriesToJson entries = some map) :
    List.Forall₂ (fun e e' => e'.1 = e.1 ∧ pyToJson e.2 = some e'.2) entries map := by
  induction entries generalizing map with
  | nil =>
    rw [entriesToJson] at h
    cases h
    exact .nil
  | cons e entries ih =>
    obtain ⟨k, o⟩ := e
    rw [entriesToJson] at h
    obtain ⟨v, hv, h⟩ := Option.bind_eq_some_iff.1 h
    obtain ⟨rest, hrest, h⟩ := Option.bind_eq_some_iff.1 h
    cases h
    exact .cons ⟨rfl, hv⟩ (ih hrest)

/-- What a dict holds of a map: its entries under sorted names, each reading back
as it was. -/
def Holds (dict : Dict PyObject) (attributes : List (Str × JsonValue)) : Prop :=
  (dict.map (·.1)).Pairwise (fun a b => compare a b = .lt) ∧
  ∀ k v, (k, v) ∈ attributes ↔ ∃ o, (k, o) ∈ dict ∧ pyToJson o = some v

/-- The attributes of a map that `serde_json` can hold reach Python whole. -/
theorem attrsToPydict_holds {attributes : List (Str × JsonValue)} (h : JsonValue.WellFormed (.object attributes)) :
    ∃ dict, attrsToPydict (cloneAttrs attributes) = .ok dict ∧ Holds dict attributes := by
  rw [JsonValue.WellFormed, entriesWellFormed_iff] at h
  obtain ⟨hnd, hvalues⟩ := h
  have hperm := cloneAttrs_perm hnd
  have hwell : EntriesWellFormed (cloneAttrs attributes).toList :=
    entriesWellFormed_iff.2 fun e he => hvalues e (hperm.mem_iff.1 he)
  obtain ⟨dict, hdict, hread⟩ := entriesToPy_reads _ hwell
  have hrelated := entriesToJson_related hread
  have hkeys : dict.map (·.1) = (cloneAttrs attributes).toList.map (·.1) := by
    rw [← List.forall₂_eq_eq_eq, List.forall₂_map_left_iff, List.forall₂_map_right_iff]
    exact hrelated.imp fun _ _ he => he.1.symm
  refine ⟨dict, hdict [] (by simpa using (hperm.map _).nodup_iff.2 hnd), ?_, fun k v => ?_⟩
  · rw [hkeys, List.pairwise_map]
    exact Std.TreeMap.ordered_keys_toList
  · rw [← hperm.mem_iff]
    constructor
    · intro hmem
      obtain ⟨⟨k', o⟩, hmem', hk, ho⟩ := Lib.Collect.exists_of_forall₂ hrelated.flip hmem
      obtain rfl : k = k' := hk
      exact ⟨o, hmem', ho⟩
    · rintro ⟨o, hmem, ho⟩
      obtain ⟨⟨k', v'⟩, hmem', hk, ho'⟩ := Lib.Collect.exists_of_forall₂ hrelated hmem
      obtain rfl : k' = k := hk
      cases ho.symm.trans ho'
      exact hmem'

/-! ## Whole walks -/

section
variable {E : Type} {H : Hierarchy JsonValue}

/-- Every attribute map of the hierarchy is one that `serde_json` can hold. -/
def SerdeMaps (H : Hierarchy JsonValue) : Prop :=
  (∀ p attributes, (p, .group attributes) ∈ H.nodes → JsonValue.WellFormed (.object attributes)) ∧
  ∀ p metadata, (p, .array metadata) ∈ H.nodes → JsonValue.WellFormed (.object metadata.attributes)

/-- The dicts made for a node and its variables hold what the hierarchy has for
the group at `p` and the arrays in it, of which none is left out. -/
structure Delivered (H : Hierarchy JsonValue) (p : Path) (node : NodeData JsonValue E) : Prop where
  path : node.path = pathStr p
  attrs : ∃ attributes dict, (p, .group attributes) ∈ H.nodes ∧ attrsToPydict node.attrs = .ok dict ∧
    Holds dict attributes
  vars : ∀ var ∈ node.vars, ∃ name metadata dict, (p ++ [name], .array metadata) ∈ H.nodes ∧ var.name = name.1 ∧
    attrsToPydict var.attrs = .ok dict ∧ Holds dict metadata.attributes
  complete : ∀ name metadata, (p ++ [name], .array metadata) ∈ H.nodes → ∃ var ∈ node.vars, var.name = name.1

theorem Describes.delivered (h : SerdeMaps H) (fetch : ZarrArray JsonValue → Except RustytreeError E) {p : Path}
    {node : NodeData JsonValue E} (hnode : Describes H p node) : Delivered H p (eagerNode (fun _ => fetch) node) := by
  refine ⟨hnode.path, ?_, fun var hvar => ?_, fun name metadata hmem => ?_⟩
  · obtain ⟨attributes, hmem, hattrs⟩ := hnode.attrs
    obtain ⟨dict, hdict, hholds⟩ := attrsToPydict_holds (h.1 p attributes hmem)
    exact ⟨attributes, dict, hmem, hattrs ▸ hdict, hholds⟩
  · rw [eagerNode_vars] at hvar
    obtain ⟨var', hvar', rfl⟩ := List.mem_map.1 hvar
    obtain ⟨name, metadata, hmem, rfl⟩ := mem_varsIn.1 (hnode.vars.mem_iff.1 hvar')
    obtain ⟨dict, hdict, hholds⟩ := attrsToPydict_holds (h.2 _ metadata hmem)
    rw [eagerVar_fields]
    exact ⟨name, metadata, dict, hmem, leafName_pathStr p name, hdict, hholds⟩
  · have hvar := hnode.vars.mem_iff.2 (mem_varsIn.2 ⟨name, metadata, hmem, rfl⟩)
    refine ⟨_, eagerNode_vars fetch node ▸ List.mem_map_of_mem hvar, ?_⟩
    rw [eagerVar_fields]
    exact leafName_pathStr p name

theorem Walked.map {region : Path → Prop} {J : Type} {P Q : Path → NodeData J E → Prop}
    {f : NodeData J E → NodeData J E} {nodes : List (NodeData J E)} (h : Walked region P nodes)
    (hf : ∀ p node, P p node → Q p (f node)) : Walked region Q (nodes.map f) := by
  obtain ⟨out, hnd, hmem, hnodes⟩ := h
  exact ⟨out, hnd, hmem, List.forall₂_map_right_iff.2 (hnodes.imp hf)⟩

/-- Whatever JSON a hierarchy has for attributes, a walk of either source hands
over each group's and each array's unchanged. -/
theorem attributes_delivered (h : SerdeMaps H) {source : WalkSource JsonValue} {root : Path}
    (hsource : HeldFrom H (· = root) source) (hr : root ∈ H.groupPaths) {fuel : Nat} (hfuel : H.height ≤ fuel)
    (fetch : ZarrArray JsonValue → Except RustytreeError E) (recursive : Bool) {glob : Option GlobPredicate}
    (hpass : passes glob (pathStr root) = true) :
    ∃ nodes, walkRecursive fuel (fun _ _ => fetch) source (pathStr root) recursive glob = .ok nodes ∧
      Walked (Region H root recursive glob) (Delivered H) nodes := by
  obtain ⟨nodes, hwalk, hwalked⟩ := metadataWalk_describes (E := E) hsource hr rfl hfuel recursive glob hpass
  refine ⟨nodes.map (eagerNode fun _ => fetch), ?_, hwalked.map fun p node => Describes.delivered h fetch⟩
  rw [walkRecursive, hwalk]
  simp only [eagerPhase_map]

end

/-- Attributes with a `u64` beyond `i64`, a negative number and an object in a list. -/
def scanAttributes : List (Str × JsonValue) :=
  [("valid_max".toList, .number (.posInt 18446744073709551615)),
    ("flags".toList, .array [.number (.negInt (-9) (by decide)), .null, .object [("on".toList, .bool true)]])]

/-- A group with one array. -/
def scanTree : Hierarchy JsonValue where
  nodes := [([], .group scanAttributes),
    ([dbz], .array
      { dimensionNames := none, shape := [3], dataType := dbzMetadata.dataType, attributes := scanAttributes })]
  nodup := by decide
  closed := closed_of_dropLast (by simp [groupsIn])

theorem scanAttributes_wellFormed : JsonValue.WellFormed (.object scanAttributes) := by
  simp [scanAttributes, JsonValue.WellFormed, EntriesWellFormed, ItemsWellFormed]

theorem scanTree_serdeMaps : SerdeMaps scanTree := by
  constructor
  · rintro p attributes hmem
    simp only [scanTree, List.mem_cons, Prod.mk.injEq, Node.group.injEq, reduceCtorEq, and_false, List.not_mem_nil,
      or_false] at hmem
    exact hmem.2 ▸ scanAttributes_wellFormed
  · rintro p metadata hmem
    simp only [scanTree, List.mem_cons, Prod.mk.injEq, Node.array.injEq, reduceCtorEq, and_false, List.not_mem_nil,
      or_false, false_or] at hmem
    exact hmem.2 ▸ scanAttributes_wellFormed

theorem attributes_delivered_scan :
    ∃ nodes : List (NodeData JsonValue Unit),
      walkRecursive 9 (fun _ _ _ => .ok ()) (.vanilla (storeOf scanTree)) (pathStr []) true none = .ok nodes ∧
        Walked (Region scanTree [] true none) (Delivered scanTree) nodes := by
  have hsource : HeldFrom scanTree (· = []) (.vanilla (storeOf scanTree)) := storeOf_serves scanTree
  exact attributes_delivered scanTree_serdeMaps hsource (by decide) (by decide) (fun _ => .ok ()) true rfl

/-- Names are sorted at the top, and kept in their order below. -/
example : ((attrsToPydict (cloneAttrs scanAttributes)).toOption.map fun dict => dict.map (·.1)) =
    some ["flags".toList, "valid_max".toList] := by decide

end Rustytree
