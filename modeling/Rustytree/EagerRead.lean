import Rustytree.Backend
import Rustytree.Indexing
/-!
# Prefetched elements (`fetch_all_elements`, `get_variables`)

The eager phase reads a whole array at the type of its dtype, and the variable
then holds the elements instead of a lazy view. We prove that nothing but the
time of the read differs: every indexing of the resident array gives what the
lazy read gives. And what stays resident is bounded, byte for byte.
-/

namespace Rustytree
open Glob (utf8Len)
open Indexing Lib.ChunkGrid Lib.Dict Lib.RowMajor ReadSubset

variable {J V : Type}

/-! ## The source -/

/-- The types `for_each_supported_dtype!` binds `T` to. -/
inductive Primitive where
  | bool | i8 | i16 | i32 | i64 | u8 | u16 | u32 | u64 | f32 | f64
  deriving DecidableEq, Repr

namespace Primitive

/-- Their values; a float is its bits. -/
def Value : Primitive → Type
  | bool => Bool
  | i8 => Int8
  | i16 => Int16
  | i32 => Int32
  | i64 => Int64
  | u8 => UInt8
  | u16 => UInt16
  | u32 => UInt32
  | u64 => UInt64
  | f32 => BitVec 32
  | f64 => BitVec 64

/-- `size_of::<T>()`. -/
def size : Primitive → Nat
  | bool | i8 | u8 => 1
  | i16 | u16 => 2
  | i32 | u32 | f32 => 4
  | i64 | u64 | f64 => 8

end Primitive

/-- The arms of `for_each_supported_dtype!`. -/
def forEachSupportedDtype (dtype : DataType) : Option Primitive :=
  match dtype.kind with
  | .bool => some .bool
  | .int8 => some .i8
  | .int16 => some .i16
  | .int32 => some .i32
  | .int64 => some .i64
  | .uint8 => some .u8
  | .uint16 => some .u16
  | .uint32 => some .u32
  | .uint64 => some .u64
  | .float32 => some .f32
  | .float64 => some .f64
  | _ => none

/-- What zarrs answers for an opened array: `chunk_shape` at the origin, and
`async_retrieve_array_subset` at every type the code calls it at. -/
structure ArrayReads where
  chunkShape : Except String (List Nat)
  retrieve (t : Primitive) : List Range → Except String (List t.Value)
  retrieveStrings : List Range → Except String (List Str)
  retrieveChars : List Range → Except String (List (List Char))

/-- `EagerElements`: one variant for each primitive type, and `Str`. -/
inductive EagerElements where
  | prim (t : Primitive) (v : List t.Value)
  | str (v : List Str)

/-- An element of an array that Rust hands to NumPy. -/
inductive Element where
  | prim (t : Primitive) (x : t.Value)
  | str (s : Str)

/-- The flat array of `eager_to_pyarray`. -/
def EagerElements.flat : EagerElements → List Element
  | .prim t v => v.map (.prim t)
  | .str v => v.map .str

def eagerFetchMaxObjectBytes : Nat := 8 * 1024 * 1024

/-- `ArraySubset::new_with_shape`. -/
def wholeSubset (shape : List Nat) : List Range := shape.map fun n => (0, n)

/-- `fetch_all_elements`. -/
def fetchAllElements (reads : ArrayReads) (array : ZarrArray J) : Except RustytreeError EagerElements :=
  let subset := wholeSubset array.metadata.shape
  if array.metadata.dataType.kind = .string then
    match reads.retrieveStrings subset with
    | .error err => .error (.other s!"eager fetch failed: {err}")
    | .ok strings =>
      -- The count alone does not bound strings.
      let totalBytes := (strings.map utf8Len).sum
      if totalBytes > eagerFetchMaxObjectBytes then
        .error (.other (s!"eager fetch: string payload {totalBytes} bytes exceeds " ++
          s!"{eagerFetchMaxObjectBytes}-byte cap"))
      else .ok (.str strings)
  else
    match forEachSupportedDtype array.metadata.dataType with
    | some t =>
      match reads.retrieve t subset with
      | .error err => .error (.other s!"eager fetch failed: {err}")
      | .ok elements => .ok (.prim t elements)
    | none => .error (.other s!"eager fetch: dtype {array.metadata.dataType.zarrName} not yet supported")

/-- The typed reads of `read_subset`; `fixed_length_utf32` collects its rows of characters. -/
def retrieveElements (reads : ArrayReads) (dtype : DataType) (subset : List Range) : Except String (List Element) :=
  match dtype.kind with
  | .string => (reads.retrieveStrings subset).map fun strings => strings.map .str
  | .fixedLengthUtf32 _ => (reads.retrieveChars subset).map fun rows => rows.map .str
  | _ =>
    match forEachSupportedDtype dtype with
    | some t => (reads.retrieve t subset).map fun elements => elements.map (.prim t)
    | none => .error "unsupported"

/-- `ZarrsArrayHandle::new`. -/
def arrayHandle (reads : ArrayReads) (array : ZarrArray J) : ZarrsArrayHandle Element where
  shape := array.metadata.shape
  dataType := array.metadata.dataType
  chunkShape := reads.chunkShape
  retrieve := retrieveElements reads array.metadata.dataType

/-- The `chunks` of a handle. -/
def handleChunks (handle : ZarrsArrayHandle Element) : Except PyErr (List Nat) :=
  match handle.chunkShape with
  | .ok chunks => .ok chunks
  | .error err => .error (.valueError s!"zarrs: chunk_shape lookup failed: {err}")

/-- A variable as `var_to_pydict` hands it to Python. -/
structure VarDict (J : Type) where
  name : Str
  dims : List Str
  dtype : String
  shape : List Nat
  attrs : Attrs J
  handle : ZarrsArrayHandle Element
  data : Option (NdArray Element)

/-- `var_to_pydict`, with `eager_to_pyarray`. -/
def varToPydict (reads : ZarrArray J → ArrayReads) (var : VarMeta J EagerElements) : Except PyErr (VarDict J) :=
  let dict (data : Option (NdArray Element)) : VarDict J :=
    { name := var.name, dims := var.dims, dtype := var.dtype, shape := var.shape, attrs := var.attrs
      handle := arrayHandle (reads var.array) var.array, data }
  match var.eager with
  | none => .ok (dict none)
  | some eager => do
    let arr ← reshape eager.flat var.shape
    .ok (dict (some arr))

/-- What `get_variables` takes from NumPy and xarray: one element of
`astype`, the test for `str` or `bytes`, and `FillValueCoder.decode`. -/
structure Xarray (J V : Type) where
  cast : String → Element → V
  isText : J → Bool
  decodeFill : J → String → Except PyErr J

/-- The `data` of a variable: resident with its dtype, or a lazy view. -/
inductive VariableData (V : Type) where
  | resident (dtype : String) (x : NdArray V)
  | lazy (handle : ZarrsArrayHandle Element)

/-- An xarray `Variable`, with what `get_variables` puts in its `encoding`. -/
structure Variable (J V : Type) where
  dims : List Str
  data : VariableData V
  attrs : Attrs J
  chunks : List Nat
  preferredChunks : List (Str × Nat)

/-- `"_FillValue"`. -/
def fillValueKey : Str := "_FillValue".toList

/-- The `_FillValue` in its wire form becomes a number. -/
def decodeFillValue (x : Xarray J V) (dtype : String) (attrs : Attrs J) : Except PyErr (Attrs J) :=
  match attrs[fillValueKey]? with
  | none => .ok attrs
  | some fv =>
    if x.isText fv then do
      let decoded ← x.decodeFill fv dtype
      .ok (attrs.insert fillValueKey decoded)
    else .ok attrs

/-- The loop body of `get_variables`. -/
def getVariable (x : Xarray J V) (var : VarDict J) : Except PyErr (Str × Variable J V) := do
  let readDtype := var.handle.dataType.readNumpyStr
  let data := match var.data with
    | some arr => .resident readDtype (castToReadDtype (x.cast readDtype) arr)
    | none => .lazy var.handle
  let chunks ← handleChunks var.handle
  let attrs ← decodeFillValue x var.handle.dataType.toNumpyStr var.attrs
  .ok (var.name, { dims := var.dims, data, attrs, chunks, preferredChunks := var.dims.zip chunks })

/-- `get_variables` of a node that Rust has marshalled. -/
def getVariables (x : Xarray J V) (reads : ZarrArray J → ArrayReads) (node : NodeData J EagerElements) :
    Except PyErr (Dict (Variable J V)) := do
  let vars ← node.vars.mapM (varToPydict reads)
  let entries ← vars.mapM (getVariable x)
  .ok (setAll [] entries)

/-! ## Reading a variable -/

/-- The dtype a variable declares. -/
def VariableData.dtype : VariableData V → String
  | .resident dtype _ => dtype
  | .lazy handle => handle.dataType.toNumpyStr

def VariableData.shape : VariableData V → List Nat
  | .resident _ x => x.shape
  | .lazy handle => handle.shape

/-- NumPy's text for the first integer of a key that is out of range, from axis `axis` on. -/
def outOfBounds : Nat → List IndexEntry → List Nat → String
  | axis, .int i :: key, size :: shape =>
    if -(size : Int) ≤ i ∧ i < size then outOfBounds (axis + 1) key shape
    else s!"index {i} is out of bounds for axis {axis} with size {size}"
  | axis, .slice _ _ _ :: key, _ :: shape => outOfBounds (axis + 1) key shape
  | _, _, _ => ""

/-- `x[key]` of a resident array. -/
def ndIndex (x : NdArray V) (key : List IndexEntry) : Except PyErr (NdArray V) :=
  match selection key x.shape with
  | none => .error (.indexError (outOfBounds 0 key x.shape))
  | some sel => .ok ⟨keptLens key sel, (grid sel).filterMap fun j => x.elems[ravel x.shape j]?⟩

/-- What a variable gives for a key. -/
def VariableData.get (x : Xarray J V) (data : VariableData V) (key : List IndexEntry) : Except PyErr (NdArray V) :=
  match data with
  | .resident _ arr => ndIndex arr key
  | .lazy handle => (rawIndexingMethod (x.cast handle.dataType.readNumpyStr) handle key).result

/-- It is an exception for an index out of range. -/
def RangeError (got : Except PyErr (NdArray V)) : Prop := ∃ err, got = .error err ∧ err.isRangeError = true

/-- It is what NumPy gives: the values, or an exception where an index is out of range. -/
def Answers (expected : Option (NdArray V)) (got : Except PyErr (NdArray V)) : Prop :=
  match expected with
  | some out => got = .ok out
  | none => RangeError got

theorem handleChunks_eq_ok {handle : ZarrsArrayHandle Element} {chunks : List Nat} :
    handleChunks handle = .ok chunks ↔ handle.chunkShape = .ok chunks := by
  unfold handleChunks
  split <;> simp_all

/-! ## Reading everything -/

theorem forEachSupportedDtype_numeric {dtype : DataType} {t : Primitive} (h : forEachSupportedDtype dtype = some t) :
    dtype.numeric = true := by
  unfold forEachSupportedDtype at h
  unfold DataType.numeric
  split at h <;> simp_all

/-- The whole subset in the shape of the array. -/
theorem wholeSubset_lens (shape : List Nat) : (wholeSubset shape).map (fun r => r.2 - r.1) = shape := by
  rw [wholeSubset, List.map_map]
  exact List.map_id shape

theorem wholeSubset_shift {shape j : List Nat} (h : j.length = shape.length) :
    List.zipWith (fun (r : Range) i => r.1 + i) (wholeSubset shape) j = j := by
  induction shape generalizing j with
  | nil => cases j <;> simp_all [wholeSubset]
  | cons n shape ih =>
    cases j with
    | nil => cases h
    | cons i j =>
      have htail := ih (Nat.succ.inj h)
      simp only [wholeSubset] at htail
      simp only [wholeSubset, List.map_cons, List.zipWith_cons_cons, htail, Nat.zero_add]

theorem valid_whole (shape : List Nat) : Valid (wholeSubset shape) shape := by
  rw [Valid, wholeSubset, List.forall₂_map_left_iff, List.forall₂_same]
  exact fun n _ => ⟨Nat.zero_le n, Nat.le_refl n⟩

theorem onGrid_whole (chunks shape : List Nat) : OnGrid chunks shape (wholeSubset shape) := by
  induction shape generalizing chunks with
  | nil => cases chunks <;> trivial
  | cons n shape ih =>
    cases chunks with
    | nil => trivial
    | cons c chunks => exact ⟨⟨Nat.dvd_zero c, .inr rfl⟩, ih chunks⟩

/-- An array read whole gives all its elements in row-major order. -/
theorem retrieves_whole {T : Type} {handle : ZarrsArrayHandle T} {chunks : List Nat} {A : List Nat → T}
    (h : RetrievesOnGrid handle chunks A) :
    handle.retrieve (wholeSubset handle.shape) = .ok ((indices handle.shape).map A) := by
  rw [h _ (valid_whole handle.shape) (onGrid_whole chunks handle.shape), wholeSubset_lens]
  congr 1
  apply List.map_congr_left
  intro j hj
  rw [wholeSubset_shift (mem_indices.1 hj).length_eq]

/-- The bytes an eager payload keeps resident. -/
def EagerElements.bytes : EagerElements → Nat
  | .prim t v => v.length * t.size
  | .str v => (v.map utf8Len).sum

theorem Primitive.size_le (t : Primitive) : t.size ≤ 8 := by cases t <;> decide

/-- What a successful `fetch_all_elements` returns: the elements of the one
read that a lazy handle would make, at most eight bytes each unless they are
strings, whose bytes are capped. -/
structure Fetched (reads : ArrayReads) (array : ZarrArray J) (eager : EagerElements) : Prop where
  supported : array.metadata.dataType.supported = true
  retrieved : retrieveElements reads array.metadata.dataType (wholeSubset array.metadata.shape) = .ok eager.flat
  bytes : eager.bytes ≤ eager.flat.length * 8 ∨ eager.bytes ≤ eagerFetchMaxObjectBytes

theorem fetchAllElements_ok {reads : ArrayReads} {array : ZarrArray J} {eager : EagerElements}
    (h : fetchAllElements reads array = .ok eager) : Fetched reads array eager := by
  unfold fetchAllElements at h
  split at h
  next hstring =>
    cases hread : reads.retrieveStrings (wholeSubset array.metadata.shape) with
    | error err =>
      simp only [hread] at h
      cases h
    | ok strings =>
      simp only [hread] at h
      split at h
      · cases h
      next hcap =>
        cases h
        refine ⟨?_, ?_, .inr (Nat.le_of_not_lt hcap)⟩
        · simp [DataType.supported, DataType.stringLike, hstring]
        · simp [retrieveElements, hstring, hread, Except.map, EagerElements.flat]
  next hstring =>
    cases hprim : forEachSupportedDtype array.metadata.dataType with
    | none =>
      rw [hprim] at h
      cases h
    | some t =>
      cases hread : reads.retrieve t (wholeSubset array.metadata.shape) with
      | error err =>
        simp only [hprim, hread] at h
        cases h
      | ok elements =>
        simp only [hprim, hread] at h
        cases h
        have hnumeric := forEachSupportedDtype_numeric hprim
        refine ⟨?_, ?_, .inl ?_⟩
        · simp [DataType.supported, hnumeric]
        · unfold retrieveElements
          split
          next hkind => simp [DataType.numeric, hkind] at hnumeric
          next hkind => simp [DataType.numeric, hkind] at hnumeric
          next => simp [hprim, hread, Except.map, EagerElements.flat]
        · simp only [EagerElements.bytes, EagerElements.flat, List.length_map]
          exact Nat.mul_le_mul_left _ t.size_le

/-! ## Resident and lazy arrays -/

theorem positions_lt {e : IndexEntry} {size : Nat} {ps : List Nat} (h : positions e size = some ps) :
    ∀ p ∈ ps, p < size := by
  intro p hp
  cases e with
  | int i =>
    simp only [positions] at h
    by_cases hrange : 0 ≤ (if i < 0 then i + size else i) ∧ (if i < 0 then i + size else i) < size
    · rw [if_pos hrange] at h
      cases h
      rw [List.mem_singleton] at hp
      omega
    · rw [if_neg hrange] at h
      cases h
  | slice start stop step =>
    cases h
    exact List.mem_range.1 (List.mem_filter.1 hp).1

/-- Every selected index lies in the array. -/
theorem below_of_selection {key : List IndexEntry} {shape : List Nat} (hlen : key.length = shape.length)
    {sel : List (List Nat)} (h : selection key shape = some sel) : ∀ j ∈ grid sel, Below j shape := by
  have hsel := Lib.Collect.mapM_eq_some.1 h
  clear h
  induction key generalizing shape sel with
  | nil =>
    cases shape with
    | cons n shape => cases hlen
    | nil =>
      cases sel with
      | cons ps sel => cases hsel
      | nil => simp [grid]
  | cons e key ih =>
    cases shape with
    | nil => cases hlen
    | cons n shape =>
      cases sel with
      | nil => cases hsel
      | cons ps sel =>
        simp only [List.zip_cons_cons, List.map_cons, List.cons.injEq] at hsel
        intro j hj
        obtain ⟨p, hp, hj⟩ := List.mem_flatMap.1 hj
        obtain ⟨k, hk, rfl⟩ := List.mem_map.1 hj
        exact .cons (positions_lt hsel.1 p hp) (ih (Nat.succ.inj hlen) hsel.2 k hk)

/-- Indexing a resident array that holds `B` is NumPy's indexing of `B`. -/
theorem ndIndex_answers (B : List Nat → V) {shape : List Nat} {key : List IndexEntry}
    (hlen : key.length = shape.length) :
    Answers (numpyIndex B shape key) (ndIndex ⟨shape, (indices shape).map B⟩ key) := by
  unfold ndIndex numpyIndex
  cases hsel : selection key shape with
  | none => exact ⟨_, rfl, rfl⟩
  | some sel =>
    have hread : (grid sel).filterMap (fun j => ((indices shape).map B)[ravel shape j]?) = (grid sel).map B := by
      rw [← congrFun List.filterMap_eq_map (grid sel)]
      apply List.filterMap_congr
      intro j hj
      rw [List.getElem?_map, getElem?_indices_ravel (below_of_selection hlen hsel j hj)]
      rfl
    simp only [hread]
    rfl

/-- A lazy read of an array that zarrs reads along its chunk grid is NumPy's indexing. -/
theorem rawIndexingMethod_answers {T : Type} (cast : T → V) {handle : ZarrsArrayHandle T} {chunks : List Nat}
    {A : List Nat → T} {key : List IndexEntry} (hd : handle.dataType.supported = true)
    (hc : handle.chunkShape = .ok chunks) (hrank : chunks.length = handle.shape.length) (hpos : ∀ c ∈ chunks, 1 ≤ c)
    (hA : RetrievesOnGrid handle chunks A) (hkey : key.length = handle.shape.length) (hstep : ∀ e ∈ key, e.UnitStep) :
    Answers (numpyIndex (fun j => cast (A j)) handle.shape key) (rawIndexingMethod cast handle key).result := by
  by_cases hout : OutOfRange key handle.shape
  · obtain ⟨err, herr, hkind⟩ := rawIndexingMethod_outOfRange cast handle hkey hstep hout
    rw [herr, numpyIndex, selection_outOfRange hout]
    exact ⟨err, rfl, hkind⟩
  · obtain ⟨picks, rfl, hsize⟩ := exists_picks hkey hout
    rw [numpyIndex_picks _ hsize]
    rcases readSubset_picks hd hc hrank hpos hA hsize.symm with ⟨hnil, hread⟩ | ⟨-, axes, -, -, hread⟩
    · rw [rawIndexingMethod_of_read cast hsize hstep hread (by rw [hnil]; rfl), hnil]
      rfl
    · rw [rawIndexingMethod_of_read cast hsize hstep hread (by simp), List.map_map]
      rfl

end Rustytree
