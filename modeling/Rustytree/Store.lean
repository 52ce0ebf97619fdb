import Rustytree.Dtype
import Rustytree.Paths
/-!
# Stores and nodes

The data the walk reads and returns (`node.rs`, `store.rs`), and the two kinds
of store as the calls the code makes on them. What zarrs and icechunk answer
is a field; nothing here says how they compute it.
-/

namespace Rustytree

variable {J E : Type}

/-- `BTreeMap<String, JsonValue>`. -/
abbrev Attrs (J : Type) := Std.TreeMap Str J

/-- The metadata of an array, as its `zarr.json` holds it. -/
structure ArrayMetadata (J : Type) where
  dimensionNames : Option (List (Option Str))
  shape : List Nat
  dataType : DataType
  attributes : List (Str × J)

/-- An opened `zarrs::Array`: where it is and what it says of itself. -/
structure ZarrArray (J : Type) where
  path : Str
  metadata : ArrayMetadata J

/-- `VarMeta`; `E` are the eagerly fetched elements. -/
structure VarMeta (J E : Type) where
  name : Str
  dims : List Str
  dtype : String
  shape : List Nat
  attrs : Attrs J
  array : ZarrArray J
  eager : Option E

/-- `NodeData`. -/
structure NodeData (J E : Type) where
  path : Str
  attrs : Attrs J
  vars : List (VarMeta J E)

instance : Inhabited (NodeData J E) := ⟨⟨[], ∅, []⟩⟩

/-- `GroupCreateError`, as far as the code tells its variants apart. -/
inductive GroupCreateError where
  | missingMetadata
  | other (display : String)

/-- A vanilla Zarr store through zarrs: `Group::async_open` (its attributes),
the two child listings of an opened group, and `Array::async_open`. -/
structure ZarrsStore (J : Type) where
  groupOpen : Str → Except GroupCreateError (List (Str × J))
  childGroupPaths : Str → Except String (List Str)
  childArrayPaths : Str → Except String (List Str)
  arrayOpen : Str → Except String (ZarrArray J)

/-- icechunk's `Path`, by what `Display` prints. -/
structure IcePath where
  display : Str
  deriving DecidableEq

inductive IceNodeData where
  | group
  | array

/-- `NodeSnapshot`. -/
structure NodeSnapshot where
  path : IcePath
  nodeData : IceNodeData
  userData : List UInt8

/-- An icechunk session: `Path::new`, `list_nodes` with its fallible items, the
two `serde_json` parses and `Array::new_with_metadata`. -/
structure Session (J : Type) where
  pathNew : Str → Except String IcePath
  listNodes : IcePath → Except String (List (Except String NodeSnapshot))
  groupMetadata : List UInt8 → Except String (List (Str × J))
  arrayMetadata : List UInt8 → Except String (ArrayMetadata J)
  newWithMetadata : Str → ArrayMetadata J → Except String (ZarrArray J)

/-- `WalkSource`. -/
inductive WalkSource (J : Type) where
  | icechunk (session : Session J)
  | vanilla (store : ZarrsStore J)

/-- `ice_path_to_string`. -/
def icePathToString (p : IcePath) : Str := p.display

/-- `clone_attrs`. -/
def cloneAttrs (map : List (Str × J)) : Attrs J := Std.TreeMap.ofList map

/-- The name of a dimension the metadata leaves unnamed. -/
def dimName (i : Nat) : Str := 'd' :: 'i' :: 'm' :: '_' :: (toString i).toList

/-- The dimension names both walkers give an array. -/
def dimsOf (metadata : ArrayMetadata J) : List Str :=
  match metadata.dimensionNames with
  | none => (List.range metadata.shape.length).map dimName
  | some names => names.zipIdx.map fun (n, i) => n.getD (dimName i)

/-- The `VarMeta` both walkers project an opened array into. -/
def varMeta (arrayPath : Str) (array : ZarrArray J) : VarMeta J E where
  name := leafName arrayPath
  dims := dimsOf array.metadata
  dtype := array.metadata.dataType.toNumpyStr
  shape := array.metadata.shape
  attrs := cloneAttrs array.metadata.attributes
  array := array
  eager := none

end Rustytree
