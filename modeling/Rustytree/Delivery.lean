import Rustytree.FromDict
import Rustytree.Prefetch
/-!
# The data a tree delivers

`open_datatree` from end to end: every group it selects is decoded from exactly the
variables of its arrays, and indexing a variable gives what NumPy reads from the
stored elements, prefetched or not. A group fails for one of its arrays only, or
where xarray cannot decode it; a new root with ancestors above it is merged from its
own dataset and theirs, nearest first.
-/

namespace Rustytree
open Glob Indexing Lib.ChunkGrid Lib.Collect Lib.Dict Lib.Preorder ReadSubset

variable {J V D : Type}

/-! ## The source -/

/-- A `_RustyDataStore` as xarray reads it. -/
structure StoreContents (J V : Type) where
  vars : Dict (Variable J V)
  attrs : Attrs J

/-- `get_variables` and `get_attrs`. -/
def rustyDataStore (x : Xarray J V) (reads : ZarrArray J → ArrayReads) (node : NodeData J EagerElements) :
    Except PyErr (StoreContents J V) := do
  let vars ← getVariables x reads node
  .ok { vars, attrs := node.attrs }

/-- `_node_to_dataset`: `decode` is `StoreBackendEntrypoint` on a store that is loaded. -/
def nodeToDataset (x : Xarray J V) (reads : ZarrArray J → ArrayReads) (decode : StoreContents J V → Except PyErr D)
    (node : NodeData J EagerElements) : Except PyErr D := do
  let contents ← rustyDataStore x reads node
  decode contents

/-! ## What is stored, and what is delivered -/

/-- What zarrs promises of an array with the elements `A`: it reads any part of
them along the chunk grid, in chunks with an extent along every axis. -/
structure Stored (reads : ArrayReads) (array : ZarrArray J) (A : List Nat → Element) : Prop where
  whole : ReadsWhole reads array
  chunks : ∀ chunks, reads.chunkShape = .ok chunks →
    chunks.length = array.metadata.shape.length ∧ ∀ c ∈ chunks, 1 ≤ c
  elements : ∀ chunks, reads.chunkShape = .ok chunks → array.metadata.dataType.supported = true →
    RetrievesOnGrid (arrayHandle reads array) chunks A

/-- The variable shows the array: its metadata as stored, and for every key the
elements NumPy would pick, as the read dtype has them, or an exception where NumPy
has an index out of range. -/
structure Shows (x : Xarray J V) (reads : ArrayReads) (metadata : ArrayMetadata J) (A : List Nat → Element)
    (var : Variable J V) : Prop where
  dims : var.dims = dimsOf metadata
  shape : var.data.shape = metadata.shape
  chunks : reads.chunkShape = .ok var.chunks
  preferredChunks : var.preferredChunks = var.dims.zip var.chunks
  attrs : decodeFillValue x metadata.dataType.toNumpyStr (cloneAttrs metadata.attributes) = .ok var.attrs
  get : metadata.dataType.supported = true → ∀ key, key.length = metadata.shape.length → (∀ e ∈ key, e.UnitStep) →
    Answers (numpyIndex (fun j => x.cast metadata.dataType.readNumpyStr (A j)) metadata.shape key)
      (var.data.get x key)

/-- `get_variables` raises for the array: its chunks cannot be looked up, or its
`_FillValue` cannot be decoded. -/
inductive ArrayFails (x : Xarray J V) (reads : ArrayReads) (metadata : ArrayMetadata J) : PyErr → Prop where
  | chunkShape {msg : String} : reads.chunkShape = .error msg →
      ArrayFails x reads metadata (.valueError s!"zarrs: chunk_shape lookup failed: {msg}")
  | fillValue {err : PyErr} :
      decodeFillValue x metadata.dataType.toNumpyStr (cloneAttrs metadata.attributes) = .error err →
      ArrayFails x reads metadata err

/-- The contents are those of the group at `p`: its attributes, and a variable for
each of its arrays and nothing else. -/
structure GroupShown (x : Xarray J V) (reads : ZarrArray J → ArrayReads) (H : Hierarchy J)
    (elements : Path → List Nat → Element) (p : Path) (contents : StoreContents J V) : Prop where
  attrs : ∃ attributes, (p, .group attributes) ∈ H.nodes ∧ contents.attrs = cloneAttrs attributes
  names : (contents.vars.map (·.1)).Nodup
  vars : ∀ name metadata, (p ++ [name], .array metadata) ∈ H.nodes → ∃ var, (name.1, var) ∈ contents.vars ∧
    Shows x (reads ⟨pathStr (p ++ [name]), metadata⟩) metadata (elements (p ++ [name])) var
  only : ∀ n var, (n, var) ∈ contents.vars → ∃ name metadata, n = name.1 ∧ (p ++ [name], .array metadata) ∈ H.nodes

/-- What the store gives for the group at `p`: its contents, or the error of one of its arrays. -/
def Given (x : Xarray J V) (reads : ZarrArray J → ArrayReads) (H : Hierarchy J) (elements : Path → List Nat → Element)
    (p : Path) : Except PyErr (StoreContents J V) → Prop
  | .ok contents => GroupShown x reads H elements p contents
  | .error err => ∃ name metadata, (p ++ [name], .array metadata) ∈ H.nodes ∧
      ArrayFails x (reads ⟨pathStr (p ++ [name]), metadata⟩) metadata err

/-! ## One variable -/

section
variable {x : Xarray J V} {reads : ZarrArray J → ArrayReads}

/-- Only a supported dtype is retrieved. -/
theorem retrieveElements_supported {reads : ArrayReads} {dtype : DataType} {subset : List Range} {elems : List Element}
    (h : retrieveElements reads dtype subset = .ok elems) : dtype.supported = true := by
  unfold retrieveElements at h
  unfold DataType.supported
  split at h
  next hkind => simp [DataType.stringLike, hkind]
  next hkind => simp [DataType.stringLike, hkind]
  next =>
    split at h
    next t ht => simp [forEachSupportedDtype_numeric ht]
    next => cases h

theorem Stored.readable {reads : ArrayReads} {array : ZarrArray J} {A : List Nat → Element}
    (h : Stored reads array A) : Readable reads array where
  whole := h.whole
  chunks := h.chunks
  onGrid := fun _ hread chunks hchunks => ⟨A, h.elements chunks hchunks (retrieveElements_supported hread)⟩

/-- An array that is not prefetched becomes a lazy variable that shows it, or fails. -/
theorem lazy_given {array : ZarrArray J} {A : List Nat → Element} (h : Stored (reads array) array A) :
    ∃ dict, varToPydict reads (varMeta array.path array) = .ok dict ∧
      (∀ entry, getVariable x dict = .ok entry →
        entry.1 = leafName array.path ∧ Shows x (reads array) array.metadata A entry.2) ∧
      ∀ err, getVariable x dict = .error err → ArrayFails x (reads array) array.metadata err := by
  refine ⟨_, rfl, ?_⟩
  unfold getVariable
  simp only [varMeta]
  cases hchunks : (reads array).chunkShape with
  | error msg =>
    have hhandle : handleChunks (arrayHandle (reads array) array) =
        .error (.valueError s!"zarrs: chunk_shape lookup failed: {msg}") := by
      simp only [handleChunks, arrayHandle, hchunks]
    rw [hhandle]
    exact ⟨by rintro entry ⟨⟩, by rintro err ⟨⟩; exact .chunkShape hchunks⟩
  | ok chunks =>
    obtain ⟨hrank, hpos⟩ := h.chunks chunks hchunks
    have hhandle : handleChunks (arrayHandle (reads array) array) = .ok chunks := handleChunks_eq_ok.2 hchunks
    rw [hhandle]
    cases hattrs : decodeFillValue x (arrayHandle (reads array) array).dataType.toNumpyStr
        (cloneAttrs array.metadata.attributes) with
    | error err => exact ⟨by rintro entry ⟨⟩, by rintro err ⟨⟩; exact .fillValue hattrs⟩
    | ok attrs =>
      refine ⟨?_, by rintro err ⟨⟩⟩
      rintro entry ⟨⟩
      refine ⟨rfl, rfl, rfl, hchunks, rfl, hattrs, ?_⟩
      intro hsupported key hkey hstep
      exact rawIndexingMethod_answers _ hsupported hchunks hrank hpos (h.elements chunks hchunks hsupported) hkey hstep

theorem Shows.alike {reads : ArrayReads} {metadata : ArrayMetadata J} {A : List Nat → Element} {var var' : Variable J V}
    (h : Shows x reads metadata A var) (halike : ReadsAlike x var var') : Shows x reads metadata A var' where
  dims := halike.dims.trans h.dims
  shape := halike.shape.trans h.shape
  chunks := halike.chunks ▸ h.chunks
  preferredChunks := by rw [halike.preferredChunks, halike.dims, halike.chunks, h.preferredChunks]
  attrs := halike.attrs ▸ h.attrs
  get := by
    intro hsupported key hkey hstep
    have hget := h.get hsupported key hkey hstep
    rcases halike.get key (by rw [hkey, h.shape]) hstep with hsame | ⟨hout, -, hraises⟩
    · rwa [hsame]
    · rw [h.shape] at hout
      rw [numpyIndex, selection_outOfRange hout]
      exact hraises

/-! ## One group -/

variable {H : Hierarchy J} {elements : Path → List Nat → Element}

/-- Every array of the hierarchy is stored. -/
def AllStored (reads : ZarrArray J → ArrayReads) (H : Hierarchy J) (elements : Path → List Nat → Element) : Prop :=
  ∀ q metadata, (q, .array metadata) ∈ H.nodes →
    Stored (reads ⟨pathStr q, metadata⟩) ⟨pathStr q, metadata⟩ (elements q)

/-- The entry of a variable shows the array of the group at `p` that the variable is. -/
def EntryShows (x : Xarray J V) (reads : ZarrArray J → ArrayReads) (H : Hierarchy J)
    (elements : Path → List Nat → Element) (p : Path) (var : VarMeta J EagerElements)
    (entry : Str × Variable J V) : Prop :=
  ∃ name metadata, (p ++ [name], Node.array metadata) ∈ H.nodes ∧
    var = varMeta (pathStr (p ++ [name])) ⟨pathStr (p ++ [name]), metadata⟩ ∧ entry.1 = name.1 ∧
    Shows x (reads ⟨pathStr (p ++ [name]), metadata⟩) metadata (elements (p ++ [name])) entry.2

theorem entryShows_names {p : Path} {l : List (VarMeta J EagerElements)} {vars : Dict (Variable J V)}
    (h : List.Forall₂ (EntryShows x reads H elements p) l vars) : vars.map (·.1) = l.map (·.name) := by
  rw [← List.forall₂_eq_eq_eq, List.forall₂_map_left_iff, List.forall₂_map_right_iff]
  apply h.flip.imp
  rintro entry var ⟨name, metadata, -, rfl, hname, -⟩
  rw [hname]
  exact (leafName_pathStr p name).symm

/-- Before the eager phase, the loop over a node's variables fails for an array of
the group, or each entry shows its array. -/
theorem lazy_variables (hstored : AllStored reads H elements) {p : Path} {node : NodeData J EagerElements}
    (hnode : Describes H p node) :
    (∃ err, getVariables x reads node = .error err ∧ Given x reads H elements p (.error err)) ∨
    ∃ vars, getVariables x reads node = .ok vars ∧ List.Forall₂ (EntryShows x reads H elements p) node.vars vars := by
  have hvar : ∀ var ∈ node.vars, ∃ dict : VarDict J, varToPydict reads var = .ok dict ∧
      (∀ entry, getVariable x dict = .ok entry → EntryShows x reads H elements p var entry) ∧
      ∀ err, getVariable x dict = .error err → Given x reads H elements p (.error err) := by
    intro var hvar
    obtain ⟨name, metadata, hmem, rfl⟩ := mem_varsIn.1 (hnode.vars.mem_iff.1 hvar)
    obtain ⟨dict, hdict, hshows, hfails⟩ := lazy_given (x := x) (hstored _ _ hmem)
    refine ⟨dict, hdict, fun entry hentry => ?_, fun err herr => ⟨name, metadata, hmem, hfails err herr⟩⟩
    obtain ⟨hname, hshown⟩ := hshows entry hentry
    rw [leafName_pathStr] at hname
    exact ⟨name, metadata, hmem, rfl, hname, hshown⟩
  obtain ⟨dicts, hdicts⟩ := exists_forall₂ hvar
  have hrun : node.vars.mapM (varToPydict reads) = .ok dicts := mapM_eq_ok.2 (hdicts.imp fun _ _ h => h.1)
  unfold getVariables
  simp only [hrun, bind, Except.bind]
  rcases mapM_cases (getVariable x) dicts with ⟨dict, hdict, err, herr, hentries⟩ | ⟨entries, hentries, hall⟩
  · obtain ⟨var, -, -, -, hfails⟩ := exists_of_forall₂ hdicts.flip hdict
    exact .inl ⟨err, by rw [hentries], hfails err herr⟩
  · have hshows : List.Forall₂ (EntryShows x reads H elements p) node.vars entries :=
      forall₂_trans hdicts hall fun _ _ entry hdict hentry => hdict.2.1 entry hentry
    have hnd : (entries.map (·.1)).Nodup := entryShows_names hshows ▸ hnode.names_nodup
    refine .inr ⟨entries, ?_, hshows⟩
    simp only [hentries, setAll_nil hnd]

/-- Entries that read alike what shows a group's arrays are its contents. -/
theorem groupShown_of_alike {p : Path} {node : NodeData J EagerElements} (hnode : Describes H p node)
    {vars vars' : Dict (Variable J V)} (hshows : List.Forall₂ (EntryShows x reads H elements p) node.vars vars)
    (halike : List.Forall₂ (SameKey (ReadsAlike x)) vars vars') :
    GroupShown x reads H elements p ⟨vars', node.attrs⟩ where
  attrs := hnode.attrs
  names := by
    rw [keys_eq halike, entryShows_names hshows]
    exact hnode.names_nodup
  vars := by
    intro name metadata hmem
    have hvar := hnode.vars.mem_iff.2 (mem_varsIn.2 ⟨name, metadata, hmem, rfl⟩)
    obtain ⟨⟨n, var⟩, hentry, name', metadata', hmem', heq, hname, hshown⟩ := exists_of_forall₂ hshows hvar
    obtain ⟨⟨n', var'⟩, hentry', hsame, hreads⟩ := exists_of_forall₂ halike hentry
    have hleaf := congrArg VarMeta.name heq
    have hnames : name = name' := by
      apply Subtype.ext
      rw [← leafName_pathStr p name, ← leafName_pathStr p name']
      exact hleaf
    subst hnames
    cases Hierarchy.node_unique hmem hmem'
    obtain rfl : n' = name.1 := hsame.trans hname
    exact ⟨var', hentry', hshown.alike hreads⟩
  only := by
    intro n var hentry
    obtain ⟨⟨n', var'⟩, hentry', hsame, -⟩ := exists_of_forall₂ halike.flip hentry
    obtain ⟨-, -, name, metadata, hmem, -, hname, -⟩ := exists_of_forall₂ hshows.flip hentry'
    exact ⟨name, metadata, hsame.trans hname, hmem⟩

/-- A node as it is described, its variables prefetched or not, gives the contents of its group. -/
theorem node_given (hstored : AllStored reads H elements) {p : Path} {node : NodeData J EagerElements}
    (hnode : Describes H p node) :
    Given x reads H elements p
      (rustyDataStore x reads (eagerNode (fun _ array => fetchAllElements (reads array) array) node)) := by
  have hreadable : ∀ var ∈ node.vars,
      (∃ path, var = varMeta path var.array) ∧ Readable (reads var.array) var.array := by
    intro var hvar
    obtain ⟨name, metadata, hmem, rfl⟩ := mem_varsIn.1 (hnode.vars.mem_iff.1 hvar)
    exact ⟨⟨_, rfl⟩, (hstored _ _ hmem).readable⟩
  have halike := variables_alike (x := x) hreadable
  unfold rustyDataStore
  rcases lazy_variables (x := x) hstored hnode with ⟨err, herr, hgiven⟩ | ⟨vars, hvars, hshows⟩
  · rw [herr] at halike
    cases hfetched : getVariables x reads (eagerNode (fun _ array => fetchAllElements (reads array) array) node) with
    | error err' =>
      rw [hfetched] at halike
      obtain rfl : err = err' := halike
      exact hgiven
    | ok vars' =>
      rw [hfetched] at halike
      cases halike
  · rw [hvars] at halike
    cases hfetched : getVariables x reads (eagerNode (fun _ array => fetchAllElements (reads array) array) node) with
    | error err =>
      rw [hfetched] at halike
      cases halike
    | ok vars' =>
      rw [hfetched] at halike
      exact groupShown_of_alike hnode hshows halike

/-! ## The whole tree -/

/-- In every walk, the node of a group is as it is described, after the eager phase. -/
theorem nodeOf_describes {E : Type} {roots : Path → Prop} {source : WalkSource J} {fuel : Nat}
    {fetch : ZarrArray J → Except RustytreeError E} {nodeOf : Path → NodeData J E} (hsource : HeldFrom H roots source)
    (hfuel : H.height ≤ fuel) (hnodes : ReturnsNodes H roots fuel fetch source nodeOf) {p : Path}
    (hp : p ∈ H.groupPaths) (hroot : roots p) :
    ∃ node, Describes H p node ∧ nodeOf p = eagerNode (fun _ => fetch) node := by
  obtain ⟨out, -, hmem, hrun⟩ := hnodes.2 p hp hroot false none rfl
  obtain ⟨nodes, hwalk, hwalked⟩ := metadataWalk_describes (E := E) hsource hp hroot hfuel false none rfl
  rw [walkRecursive, hwalk] at hrun
  simp only [eagerPhase_map, Except.ok.injEq] at hrun
  have hout : nodeOf p ∈ out.map nodeOf := List.mem_map_of_mem ((hmem p).2 ⟨hp, rfl⟩)
  rw [← hrun] at hout
  obtain ⟨node, hnode, heq⟩ := List.mem_map.1 hout
  obtain ⟨q, hq, hdescribes⟩ := hwalked.exists_group hnode
  obtain rfl : q = p := hq.2
  exact ⟨node, hdescribes, heq.symm⟩

end

/-! ## A sweep with its ancestors -/

/-- The arrays of the volume, in chunks of one zero each. -/
def volumeOpener : Opener Nat EagerElements (StoreContents Nat Str) where
  source := .icechunk (sessionOf volumeTree)
  sourceIsBytes := true
  fuel := 12
  fetch array := fetchAllElements (indexReads array) array
  nodeToDataset := nodeToDataset spelled indexReads .ok
  merge datasets := .ok (datasets.headD ⟨[], ∅⟩)

theorem volumeTree_stored : AllStored indexReads volumeTree fun _ _ => .prim .f64 (Primitive.zero .f64) := by
  intro q metadata hmem
  have hmetadata : metadata = dbzMetadata := by
    simp only [volumeTree, List.mem_cons, Prod.mk.injEq, Node.array.injEq, reduceCtorEq, and_false, List.not_mem_nil,
      or_false, false_or] at hmem
    rcases hmem with ⟨-, h⟩ | ⟨-, h⟩ | ⟨-, h⟩ <;> exact h
  subst hmetadata
  have hreadable := indexReads_readable ⟨pathStr q, dbzMetadata⟩
  refine ⟨hreadable.whole, hreadable.chunks, ?_⟩
  intro chunks _ _ subset _ _
  simp [arrayHandle, retrieveElements, indexReads, dbzMetadata, forEachSupportedDtype, Except.map]

def sweepKwargs : OpenKwargs := { group := some "VCP-12/sweep_0".toList }

end Rustytree
