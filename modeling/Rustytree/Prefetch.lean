import Rustytree.EagerRead
/-!
# The eager phase is unobservable

Opening with the eager phase and opening without it give the same variables,
up to the dtype a prefetched string array declares: same names, dimensions,
attributes and chunks, and the same values for every key. A fetch that fails
leaves its variable lazy, so no open fails because of it. What is kept resident
is at most 8 MiB for each variable.
-/

namespace Rustytree
open Glob Indexing Lib.ChunkGrid Lib.Collect Lib.Dict Lib.RowMajor ReadSubset

variable {J V E : Type}

/-! ## What the walkers put in a variable -/

/-- The arrays a source opens. -/
def Opens (source : WalkSource J) (array : ZarrArray J) : Prop :=
  match source with
  | .vanilla store => ∃ path, store.arrayOpen path = .ok array
  | .icechunk session => ∃ path metadata, session.newWithMetadata path metadata = .ok array

/-- A variable as the walkers project it from an array of the source, nothing fetched yet. -/
def Projected (source : WalkSource J) (var : VarMeta J E) : Prop :=
  ∃ path, Opens source var.array ∧ var = varMeta path var.array

/-- Every variable of the node is one. -/
def AllProjected (source : WalkSource J) (node : NodeData J E) : Prop := ∀ var ∈ node.vars, Projected source var

/-- Before the eager phase, either walk has the groups of the region as they are described. -/
theorem metadataWalk_describes {H : Hierarchy J} {roots : Path → Prop} {source : WalkSource J} {root : Path}
    (hsource : HeldFrom H roots source) (hr : root ∈ H.groupPaths) (hroot : roots root) {fuel : Nat}
    (hfuel : H.height ≤ fuel) (recursive : Bool) (glob : Option GlobPredicate)
    (hpass : passes glob (pathStr root) = true) :
    ∃ nodes : List (NodeData J E), metadataWalk fuel source (pathStr root) recursive glob = .ok nodes ∧
      Walked (Region H root recursive glob) (Describes H) nodes := by
  cases source with
  | vanilla store =>
    obtain ⟨nodes, hwalk, hwalked⟩ := walkViaZarrs_ok (E := E) hsource hr hfuel recursive glob
    refine ⟨nodes, hwalk, hwalked.imp fun p node hp hopen => ?_⟩
    obtain ⟨node', hopen', hdescribes⟩ := openSingle_ok (E := E) hsource hp.1
    cases hopen.symm.trans hopen'
    exact hdescribes
  | icechunk session =>
    obtain ⟨order, hperm, hlists⟩ := hsource
    have hbelow := hperm.filter fun n => root.isPrefixOf n.1
    obtain ⟨nodes, hwalk, hwalked⟩ := walkIcechunk_ok (E := E) (hlists root hroot) hbelow hr hpass recursive
    exact ⟨nodes, hwalk, hwalked.imp fun p node _ h => h.describes hbelow⟩

theorem forall_of_mapM {α β ε : Type} {f : α → Except ε β} {l : List α} {r : List β} {P : β → Prop}
    (h : l.mapM f = .ok r) (hf : ∀ a b, f a = .ok b → P b) : ∀ b ∈ r, P b := by
  have hall := mapM_eq_ok.1 h
  intro b hb
  obtain ⟨a, -, ha⟩ := exists_of_forall₂ hall.flip hb
  exact hf a b ha

theorem openSingle_projected {store : ZarrsStore J} {path : Str} {node : NodeData J E}
    (h : openSingle store path = .ok node) : AllProjected (.vanilla store) node := by
  unfold openSingle at h
  split at h
  · cases h
  split at h
  · cases h
  obtain ⟨vars, hvars, hnode⟩ := bind_eq_ok.1 h
  cases hnode
  refine forall_of_mapM hvars fun arrayPath var hvar => ?_
  unfold openArrayMeta at hvar
  split at hvar
  · cases hvar
  next array harray =>
    cases hvar
    exact ⟨arrayPath, ⟨arrayPath, harray⟩, rfl⟩

/-- The groups of the first pass have no variables yet. -/
theorem materialise_empty {session : Session J} {root : Str} {recursive : Bool} {glob : Option GlobPredicate}
    {snaps : List NodeSnapshot} {groups groups' : Std.TreeMap Str (NodeData J E)} {arrays arrays' : List NodeSnapshot}
    (hempty : ∀ (path : Str) (node : NodeData J E), groups[path]? = some node → node.vars = [])
    (h : materialise session root recursive glob snaps groups arrays = .ok (groups', arrays')) :
    ∀ (path : Str) (node : NodeData J E), groups'[path]? = some node → node.vars = [] := by
  induction snaps generalizing groups arrays with
  | nil =>
    cases h
    exact hempty
  | cons snap snaps ih =>
    cases hdata : snap.nodeData with
    | group =>
      simp only [materialise, hdata] at h
      split at h
      · exact ih hempty h
      split at h
      · exact ih hempty h
      split at h
      · cases h
      · refine ih (fun path node hnode => ?_) h
        rw [Std.TreeMap.getElem?_insert] at hnode
        split at hnode
        · cases hnode
          rfl
        · exact hempty path node hnode
    | array =>
      simp only [materialise, hdata] at h
      split at h
      · exact ih hempty h
      split at h
      · exact ih hempty h
      · exact ih hempty h

theorem groupJob_projected {session : Session J} {entry : Str × List NodeSnapshot} {job : Str × List (VarMeta J E)}
    (h : groupJob session entry = .ok job) : ∀ var ∈ job.2, Projected (.icechunk session) var := by
  obtain ⟨vars, hvars, hjob⟩ := bind_eq_ok.1 h
  cases hjob
  refine forall_of_mapM hvars fun snap var hvar => ?_
  unfold buildVarMetaFromSnapshot at hvar
  split at hvar
  · cases hvar
  next metadata _ =>
    split at hvar
    · cases hvar
    next array harray =>
      cases hvar
      exact ⟨icePathToString snap.path, ⟨_, metadata, harray⟩, rfl⟩

theorem attachVars_projected {session : Session J} {jobs : List (Str × List (VarMeta J E))}
    {groups groups' : Std.TreeMap Str (NodeData J E)}
    (hjobs : ∀ job ∈ jobs, ∀ var ∈ job.2, Projected (.icechunk session) var)
    (hgroups : ∀ (path : Str) (node : NodeData J E), groups[path]? = some node →
      AllProjected (.icechunk session) node)
    (h : attachVars jobs groups = .ok groups') :
    ∀ (path : Str) (node : NodeData J E), groups'[path]? = some node →
      AllProjected (.icechunk session) node := by
  induction jobs generalizing groups with
  | nil =>
    cases h
    exact hgroups
  | cons job jobs ih =>
    have hrest : ∀ job ∈ jobs, ∀ var ∈ job.2, Projected (.icechunk session) var :=
      fun job hjob => hjobs job (List.mem_cons_of_mem _ hjob)
    unfold attachVars at h
    split at h
    · refine ih hrest (fun path node hnode => ?_) h
      rw [Std.TreeMap.getElem?_insert] at hnode
      split at hnode
      · cases hnode
        exact hjobs job List.mem_cons_self
      · exact hgroups path node hnode
    · split at h
      · cases h
      · exact ih hrest hgroups h

/-- Both walkers project every variable from an array of their source. -/
theorem metadataWalk_projected {fuel : Nat} {source : WalkSource J} {rootPath : Str} {recursive : Bool}
    {glob : Option GlobPredicate} {nodes : List (NodeData J E)}
    (h : metadataWalk fuel source rootPath recursive glob = .ok nodes) : ∀ node ∈ nodes, AllProjected source node := by
  cases source with
  | vanilla store =>
    unfold metadataWalk walkViaZarrs at h
    simp only at h
    split at h
    · cases h
    · exact forall_of_mapM h fun _ _ => openSingle_projected
  | icechunk session =>
    unfold metadataWalk walkIcechunkSessionSnapshot at h
    simp only at h
    split at h
    · cases h
    split at h
    · cases h
    split at h
    · cases h
    obtain ⟨⟨groups, arrays⟩, hmaterialise, h⟩ := bind_eq_ok.1 h
    obtain ⟨jobs, hjobs, h⟩ := bind_eq_ok.1 h
    obtain ⟨attached, hattach, h⟩ := bind_eq_ok.1 h
    cases h
    have hempty := materialise_empty (by simp) hmaterialise
    have hattached := attachVars_projected (forall_of_mapM hjobs fun _ _ => groupJob_projected)
      (fun path node hnode var hvar => by rw [hempty path node hnode] at hvar; cases hvar) hattach
    intro node hnode
    obtain ⟨⟨path, node⟩, hmem, rfl⟩ := List.mem_map.1 hnode
    exact hattached path node (Std.TreeMap.mem_toList_iff_getElem?_eq_some.1 hmem)

/-! ## With and without the eager phase -/

/-- zarrs reads an array whole as all the elements it has. -/
def ReadsWhole (reads : ArrayReads) (array : ZarrArray J) : Prop :=
  ∀ elems, retrieveElements reads array.metadata.dataType (wholeSubset array.metadata.shape) = .ok elems →
    elems.length = array.metadata.shape.prod

/-- What zarrs promises of an array that it reads whole: its chunks have an extent
along every axis, and each part of it on the chunk grid can be read as well. Of an
array with absent chunks other parts may fail. -/
structure Readable (reads : ArrayReads) (array : ZarrArray J) : Prop where
  whole : ReadsWhole reads array
  chunks : ∀ chunks, reads.chunkShape = .ok chunks →
    chunks.length = array.metadata.shape.length ∧ ∀ c ∈ chunks, 1 ≤ c
  onGrid : ∀ elems, retrieveElements reads array.metadata.dataType (wholeSubset array.metadata.shape) = .ok elems →
    ∀ chunks, reads.chunkShape = .ok chunks → ∃ A, RetrievesOnGrid (arrayHandle reads array) chunks A

/-- The two variables differ in when their elements are read, a prefetched string
array declares the dtype of its values, and an index out of range may raise another
exception. -/
structure ReadsAlike (x : Xarray J V) (before after : Variable J V) : Prop where
  dims : after.dims = before.dims
  attrs : after.attrs = before.attrs
  chunks : after.chunks = before.chunks
  preferredChunks : after.preferredChunks = before.preferredChunks
  shape : after.data.shape = before.data.shape
  dtype : after.data.dtype = before.data.dtype ∨ before.data.dtype = "object" ∧ after.data.dtype = "T"
  get : ∀ key, key.length = before.data.shape.length → (∀ e ∈ key, e.UnitStep) →
    after.data.get x key = before.data.get x key ∨
      OutOfRange key before.data.shape ∧ RangeError (before.data.get x key) ∧ RangeError (after.data.get x key)

theorem ReadsAlike.refl (x : Xarray J V) (var : Variable J V) : ReadsAlike x var var :=
  ⟨rfl, rfl, rfl, rfl, rfl, .inl rfl, fun _ _ _ => .inl rfl⟩

/-- Two answers to one key. -/
theorem Answers.alike {A : List Nat → V} {shape : List Nat} {key : List IndexEntry} (hlen : key.length = shape.length)
    {before after : Except PyErr (NdArray V)} (hbefore : Answers (numpyIndex A shape key) before)
    (hafter : Answers (numpyIndex A shape key) after) :
    after = before ∨ OutOfRange key shape ∧ RangeError before ∧ RangeError after := by
  by_cases hout : OutOfRange key shape
  · rw [numpyIndex, selection_outOfRange hout] at hbefore hafter
    exact .inr ⟨hout, hbefore, hafter⟩
  · obtain ⟨picks, rfl, hsize⟩ := exists_picks hlen hout
    rw [numpyIndex_picks _ hsize] at hbefore hafter
    exact .inl (hafter.trans hbefore.symm)

/-- The dtype a variable declares when it is resident and when it is lazy. -/
theorem declared_dtype (dtype : DataType) :
    dtype.readNumpyStr = dtype.toNumpyStr ∨ dtype.toNumpyStr = "object" ∧ dtype.readNumpyStr = "T" := by
  by_cases h : dtype.kind = .string
  · exact .inr ⟨by simp [DataType.toNumpyStr, h], by simp [DataType.readNumpyStr, h]⟩
  · exact .inl (dtype.readNumpyStr_eq h)

section
variable {x : Xarray J V} {reads : ZarrArray J → ArrayReads} {array : ZarrArray J}

/-- The elements of a fetched array, in row-major order. -/
theorem fetched_elements {eager : EagerElements} (hreads : Readable (reads array) array)
    (h : Fetched (reads array) array eager) {chunks : List Nat} (hchunks : (reads array).chunkShape = .ok chunks) :
    ∃ A, RetrievesOnGrid (arrayHandle (reads array) array) chunks A ∧
      eager.flat = (indices array.metadata.shape).map A := by
  obtain ⟨A, hA⟩ := hreads.onGrid _ h.retrieved chunks hchunks
  have hwhole : retrieveElements (reads array) array.metadata.dataType (wholeSubset array.metadata.shape) = _ :=
    retrieves_whole hA
  rw [h.retrieved] at hwhole
  exact ⟨A, hA, Except.ok.inj hwhole⟩

/-- The loop body of `get_variables` on a variable with its elements and without them. -/
theorem getVariable_resident {dict : VarDict J} {eager : EagerElements} (hreads : Readable (reads array) array)
    (h : Fetched (reads array) array eager) (hhandle : dict.handle = arrayHandle (reads array) array)
    (hdata : dict.data = none) :
    Agree (SameKey (ReadsAlike x)) (getVariable x dict)
      (getVariable x { dict with data := some ⟨array.metadata.shape, eager.flat⟩ }) := by
  unfold getVariable
  simp only [hhandle, hdata]
  cases hchunk : (reads array).chunkShape with
  | error err =>
    have hfail : handleChunks (arrayHandle (reads array) array) =
        .error (.valueError s!"zarrs: chunk_shape lookup failed: {err}") := by
      simp only [handleChunks, arrayHandle, hchunk]
    rw [hfail]
    rfl
  | ok chunks =>
    have hok : handleChunks (arrayHandle (reads array) array) = .ok chunks := handleChunks_eq_ok.2 hchunk
    rw [hok]
    cases decodeFillValue x (arrayHandle (reads array) array).dataType.toNumpyStr dict.attrs with
    | error err => rfl
    | ok attrs =>
      refine ⟨rfl, rfl, rfl, rfl, rfl, rfl, declared_dtype array.metadata.dataType, ?_⟩
      intro key hkey hstep
      obtain ⟨A, hA, hflat⟩ := fetched_elements hreads h hchunk
      obtain ⟨hrank, hpos⟩ := hreads.chunks chunks hchunk
      have hsupported : (arrayHandle (reads array) array).dataType.supported = true := h.supported
      have hlazy := rawIndexingMethod_answers (x.cast array.metadata.dataType.readNumpyStr) hsupported hchunk hrank hpos
        hA hkey hstep
      have hresident := ndIndex_answers (fun j => x.cast array.metadata.dataType.readNumpyStr (A j)) hkey
      refine Answers.alike hkey hlazy ?_
      show Answers _ (ndIndex ⟨array.metadata.shape, eager.flat.map (x.cast array.metadata.dataType.readNumpyStr)⟩ key)
      rw [hflat, List.map_map]
      exact hresident

/-- The phase leaves a variable as it is, or gives it what was fetched. -/
theorem eagerVar_cases (fetch : ZarrArray J → Except RustytreeError E) (var : VarMeta J E) :
    eagerVar fetch var = var ∨
      ∃ elements, fetch var.array = .ok elements ∧ eagerVar fetch var = { var with eager := some elements } := by
  unfold eagerVar
  split
  · cases hfetch : fetch var.array with
    | error err => exact .inl rfl
    | ok elements => exact .inr ⟨elements, rfl, rfl⟩
  · exact .inl rfl

/-- With a fetch that depends on the array alone, all variables of a node change alike. -/
theorem eagerNode_vars (fetch : ZarrArray J → Except RustytreeError E) (node : NodeData J E) :
    (eagerNode (fun _ => fetch) node).vars = node.vars.map (eagerVar fetch) := by
  rw [eagerNode]
  conv_rhs => rw [← List.zipIdx_map_fst 0 node.vars, List.map_map]
  rfl

/-- A variable before the eager phase and after it. -/
theorem variable_alike {path : Str} {var : VarMeta J EagerElements} (hproj : var = varMeta path var.array)
    (hreads : Readable (reads var.array) var.array) :
    Agree (fun d d' => Agree (SameKey (ReadsAlike x)) (getVariable x d) (getVariable x d')) (varToPydict reads var)
      (varToPydict reads (eagerVar (fun array => fetchAllElements (reads array) array) var)) := by
  have heager : var.eager = none := by rw [hproj]; rfl
  have hshape : var.shape = var.array.metadata.shape := by
    conv_lhs => rw [hproj]
    rfl
  rcases eagerVar_cases (fun array => fetchAllElements (reads array) array) var with hsame | ⟨eager, hfetch, hset⟩
  · -- Not fetched, or not successfully: the variable stays lazy.
    rw [hsame]
    simp only [varToPydict, heager]
    show Agree _ (getVariable x _) (getVariable x _)
    cases getVariable x _ with
    | error err => rfl
    | ok entry => exact ⟨rfl, .refl x entry.2⟩
  · have hfetched := fetchAllElements_ok hfetch
    have hreshape : reshape eager.flat var.shape = .ok ⟨var.array.metadata.shape, eager.flat⟩ := by
      rw [reshape, if_pos (by rw [hreads.whole _ hfetched.retrieved, hshape]), hshape]
    rw [hset]
    simp only [varToPydict, heager, hreshape]
    exact getVariable_resident hreads hfetched rfl rfl

/-- All variables of a node. -/
theorem variables_alike {node : NodeData J EagerElements}
    (hnode : ∀ var ∈ node.vars, (∃ path, var = varMeta path var.array) ∧ Readable (reads var.array) var.array) :
    Agree (List.Forall₂ (SameKey (ReadsAlike x))) (getVariables x reads node)
      (getVariables x reads (eagerNode (fun _ array => fetchAllElements (reads array) array) node)) := by
  have hrelated : List.Forall₂ (fun var var' =>
      ((∃ path, var = varMeta path var.array) ∧ Readable (reads var.array) var.array) ∧
      var' = eagerVar (fun array => fetchAllElements (reads array) array) var) node.vars
      (eagerNode (fun _ array => fetchAllElements (reads array) array) node).vars := by
    rw [eagerNode_vars, List.forall₂_map_right_iff, List.forall₂_same]
    exact fun var hvar => ⟨hnode var hvar, rfl⟩
  unfold getVariables
  apply agree_bind (agree_mapM hrelated ?_)
  · intro dicts dicts' hdicts
    apply agree_bind (agree_mapM hdicts fun _ _ h => h)
    intro entries entries' hentries
    exact setAll_related hentries .nil
  · rintro var _ ⟨⟨⟨path, hproj⟩, hreads⟩, rfl⟩
    exact variable_alike hproj hreads

/-- For every source whose arrays, where they can be read whole, can be read along
their chunk grid, the walk with the eager phase fails exactly as the walk without it;
otherwise it returns the same groups, and on each of them `get_variables` fails alike
or gives the same variables in the same order, which every key reads alike. -/
theorem prefetch_unobservable (x : Xarray J V) (reads : ZarrArray J → ArrayReads) (source : WalkSource J)
    (hreads : ∀ array, Opens source array → Readable (reads array) array) (fuel : Nat) (rootPath : Str)
    (recursive : Bool) (glob : Option GlobPredicate) :
    Agree (List.Forall₂ fun before after => after.path = before.path ∧ after.attrs = before.attrs ∧
        Agree (List.Forall₂ (SameKey (ReadsAlike x))) (getVariables x reads before) (getVariables x reads after))
      (metadataWalk fuel source rootPath recursive glob)
      (walkRecursive fuel (fun _ _ array => fetchAllElements (reads array) array) source rootPath recursive glob) := by
  rw [walkRecursive]
  cases hwalk : metadataWalk fuel source rootPath recursive glob with
  | error err => rfl
  | ok nodes =>
    simp only [eagerPhase_map fun array => fetchAllElements (reads array) array]
    show List.Forall₂ _ nodes (nodes.map _)
    rw [List.forall₂_map_right_iff, List.forall₂_same]
    intro node hnode
    refine ⟨rfl, rfl, variables_alike fun var hvar => ?_⟩
    obtain ⟨path, hopens, hproj⟩ := metadataWalk_projected hwalk node hnode var hvar
    exact ⟨⟨path, hproj⟩, hreads var.array hopens⟩

/-! ## What stays resident -/

/-- Metadata as zarrs accepts it: one name for every axis, and extents of 64 bits. -/
def WellShaped (metadata : ArrayMetadata J) : Prop :=
  (∀ names, metadata.dimensionNames = some names → names.length = metadata.shape.length) ∧
    ∀ n ∈ metadata.shape, n < 2 ^ 64

theorem dimsOf_length {metadata : ArrayMetadata J} (h : WellShaped metadata) :
    (dimsOf metadata).length = metadata.shape.length := by
  unfold dimsOf
  split
  · simp
  next names hnames => simpa using h.1 names hnames

theorem elementCap_le (var : VarMeta J E) : elementCap var ≤ eagerFetchMaxElements := by
  unfold elementCap
  split
  · decide
  · exact Nat.le_refl _

theorem eagerVar_shape (fetch : ZarrArray J → Except RustytreeError E) (var : VarMeta J E) :
    (eagerVar fetch var).shape = var.shape := by rw [eagerVar_fields]

theorem eagerVar_elementCap (fetch : ZarrArray J → Except RustytreeError E) (var : VarMeta J E) :
    elementCap (eagerVar fetch var) = elementCap var := by
  rw [eagerVar_fields]
  rfl

/-- One variable after the phase. -/
theorem eagerVar_bounded {source : WalkSource J} (hshape : ∀ array, Opens source array → WellShaped array.metadata)
    (hreads : ∀ array, Opens source array → ReadsWhole (reads array) array)
    {var : VarMeta J EagerElements} (hvar : Projected source var) {eager : EagerElements}
    (h : (eagerVar (fun array => fetchAllElements (reads array) array) var).eager = some eager) :
    eager.flat.length = var.shape.prod ∧ var.shape.prod ≤ elementCap var ∧ eager.bytes ≤ 8 * 1024 * 1024 := by
  obtain ⟨path, hopens, hproj⟩ := hvar
  have heager : var.eager = none := by rw [hproj]; rfl
  have hvarshape : var.shape = var.array.metadata.shape := by
    conv_lhs => rw [hproj]
    rfl
  have hvardims : var.dims = dimsOf var.array.metadata := by
    conv_lhs => rw [hproj]
    rfl
  obtain ⟨hshould, hfetch⟩ := (eagerVar_eager heager eager).1 h
  have hfetched := fetchAllElements_ok hfetch
  have hcount : eager.flat.length = var.shape.prod := by rw [hreads _ hopens _ hfetched.retrieved, hvarshape]
  have hwell := hshape _ hopens
  have hrank : var.dims.length = var.shape.length := by rw [hvardims, hvarshape, dimsOf_length hwell]
  have hexact := shouldEagerFetch_eq_exact hrank (hvarshape ▸ hwell.2)
  have hcap : var.shape.prod ≤ elementCap var := shouldEagerFetchExact_bounded (hexact ▸ hshould)
  refine ⟨hcount, hcap, ?_⟩
  rcases hfetched.bytes with hnumeric | hstrings
  · -- At most `2 ^ 20` elements of at most eight bytes.
    have hmax := hcap.trans (elementCap_le var)
    unfold eagerFetchMaxElements at hmax
    omega
  · exact hstrings

/-- After a walk every resident variable holds as many elements as it has, no
more than its cap, and at most 8 MiB of them. Of the store it is assumed only that a
whole read gives as many elements as the array has. -/
theorem prefetch_bounded (reads : ZarrArray J → ArrayReads) (source : WalkSource J)
    (hshape : ∀ array, Opens source array → WellShaped array.metadata)
    (hreads : ∀ array, Opens source array → ReadsWhole (reads array) array)
    {fuel : Nat} {rootPath : Str} {recursive : Bool} {glob : Option GlobPredicate}
    {nodes : List (NodeData J EagerElements)}
    (h : walkRecursive fuel (fun _ _ array => fetchAllElements (reads array) array) source rootPath recursive glob =
      .ok nodes) :
    ∀ node ∈ nodes, ∀ var ∈ node.vars, ∀ eager, var.eager = some eager →
      eager.flat.length = var.shape.prod ∧ var.shape.prod ≤ elementCap var ∧ eager.bytes ≤ 8 * 1024 * 1024 := by
  rw [walkRecursive] at h
  split at h
  · cases h
  next walked hwalk =>
    rw [eagerPhase_map] at h
    cases h
    intro node hnode var hvar eager heager
    obtain ⟨before, hbefore, rfl⟩ := List.mem_map.1 hnode
    rw [eagerNode_vars] at hvar
    obtain ⟨old, hold, rfl⟩ := List.mem_map.1 hvar
    rw [eagerVar_shape, eagerVar_elementCap]
    exact eagerVar_bounded hshape hreads (metadataWalk_projected hwalk before hbefore old hold) heager

end

/-! ## A store with both kinds of variables -/

def station : Name := ⟨"station".toList, by decide⟩
def height : Name := ⟨"height".toList, by decide⟩

/-- A coordinate of names and a data variable over it. -/
def stationTree : Hierarchy Nat where
  nodes := [([], .group []),
    ([station], .array ⟨some [some "station".toList], [2], ⟨.string, some "string", "string"⟩, []⟩),
    ([height], .array ⟨some [some "station".toList], [2], ⟨.float64, some "float64", "float64 / <f8"⟩, []⟩)]
  nodup := by decide
  closed := closed_of_dropLast (by simp [groupsIn])

def Primitive.zero : (t : Primitive) → t.Value
  | bool => false
  | i8 => (0 : Int8)
  | i16 => (0 : Int16)
  | i32 => (0 : Int32)
  | i64 => (0 : Int64)
  | u8 => (0 : UInt8)
  | u16 => (0 : UInt16)
  | u32 => (0 : UInt32)
  | u64 => (0 : UInt64)
  | f32 => (0 : BitVec 32)
  | f64 => (0 : BitVec 64)

/-- Arrays in chunks of one element: zeros, and strings that spell their index. -/
def indexReads (array : ZarrArray Nat) : ArrayReads where
  chunkShape := .ok (array.metadata.shape.map fun _ => 1)
  retrieve t subset := .ok ((indices (subset.map fun r => r.2 - r.1)).map fun _ => t.zero)
  retrieveStrings subset := .ok ((indices (subset.map fun r => r.2 - r.1)).map fun j =>
    (toString (List.zipWith (fun (r : Range) i => r.1 + i) subset j)).toList)
  retrieveChars _ := .error "no such array"

theorem indexReads_onGrid (array : ZarrArray Nat) {subset : List Range} {elems : List Element}
    (h : retrieveElements (indexReads array) array.metadata.dataType subset = .ok elems) (chunks : List Nat) :
    ∃ A, RetrievesOnGrid (arrayHandle (indexReads array) array) chunks A := by
  unfold RetrievesOnGrid arrayHandle
  unfold retrieveElements at h ⊢
  split at h
  next =>
    refine ⟨fun j => .str (toString j).toList, fun subset _ _ => ?_⟩
    simp [indexReads, Except.map]
  next => cases h
  next =>
    split at h
    next t ht =>
      refine ⟨fun _ => .prim t t.zero, fun subset _ _ => ?_⟩
      simp [indexReads, Except.map]
    next => cases h

theorem indexReads_readable (array : ZarrArray Nat) : Readable (indexReads array) array where
  whole := by
    intro elems h
    obtain ⟨A, hA⟩ := indexReads_onGrid array h []
    have hwhole : retrieveElements (indexReads array) array.metadata.dataType (wholeSubset array.metadata.shape) = _ :=
      retrieves_whole hA
    rw [h] at hwhole
    rw [Except.ok.inj hwhole, List.length_map, length_indices]
    rfl
  chunks := by
    intro chunks h
    cases h
    simp
  onGrid elems h chunks _ := indexReads_onGrid array h chunks

/-- The strings of the elements. -/
def spelled : Xarray Nat Str where
  cast _ e :=
    match e with
    | .prim _ _ => ['0']
    | .str s => s
  isText _ := false
  decodeFill fv _ := .ok fv

theorem prefetch_unobservable_station :
    Agree (List.Forall₂ fun before after => after.path = before.path ∧ after.attrs = before.attrs ∧
        Agree (List.Forall₂ (SameKey (ReadsAlike spelled))) (getVariables spelled indexReads before)
          (getVariables spelled indexReads after))
      (metadataWalk 9 (.vanilla (storeOf stationTree)) (pathStr []) true none)
      (walkRecursive 9 (fun _ _ array => fetchAllElements (indexReads array) array) (.vanilla (storeOf stationTree))
        (pathStr []) true none) :=
  prefetch_unobservable spelled indexReads _ (fun array _ => indexReads_readable array) 9 (pathStr []) true none

/-- The coordinate is fetched, the data variable is not. -/
example : (walkRecursive 9 (fun _ _ array => fetchAllElements (indexReads array) array)
    (.vanilla (storeOf stationTree)) (pathStr []) true none).toOption.map
      (fun nodes => nodes.map fun node => node.vars.map fun var => var.eager.isSome) = some [[true, false]] := by
  decide

theorem stationTree_wellShaped (array : ZarrArray Nat) (h : Opens (.vanilla (storeOf stationTree)) array) :
    WellShaped array.metadata := by
  obtain ⟨path, hopen⟩ := h
  simp only [storeOf] at hopen
  split at hopen
  next p metadata hfind =>
    cases hopen
    have hmem : (p, Node.array metadata) ∈ stationTree.nodes := List.mem_of_find?_eq_some hfind
    simp only [stationTree, List.mem_cons, Prod.mk.injEq, Node.array.injEq, reduceCtorEq, and_false, false_or,
      List.not_mem_nil, or_false] at hmem
    rcases hmem with ⟨-, rfl⟩ | ⟨-, rfl⟩
    · exact ⟨by rintro names ⟨⟩; rfl, by simp⟩
    · exact ⟨by rintro names ⟨⟩; rfl, by simp⟩
  next => cases hopen

theorem prefetch_bounded_station :
    ∃ nodes, walkRecursive 9 (fun _ _ array => fetchAllElements (indexReads array) array)
        (.vanilla (storeOf stationTree)) (pathStr []) true none = .ok nodes ∧
      ∀ node ∈ nodes, ∀ var ∈ node.vars, ∀ eager, var.eager = some eager →
        eager.flat.length = var.shape.prod ∧ var.shape.prod ≤ elementCap var ∧ eager.bytes ≤ 8 * 1024 * 1024 := by
  have hsome : (walkRecursive 9 (fun _ _ array => fetchAllElements (indexReads array) array)
      (.vanilla (storeOf stationTree)) (pathStr []) true none).isOk = true := by decide
  cases hwalk : walkRecursive 9 (fun _ _ array => fetchAllElements (indexReads array) array)
      (.vanilla (storeOf stationTree)) (pathStr []) true none with
  | error err =>
    rw [hwalk] at hsome
    cases hsome
  | ok nodes =>
    exact ⟨nodes, rfl, prefetch_bounded indexReads _ stationTree_wellShaped
      (fun array _ => (indexReads_readable array).whole) hwalk⟩

end Rustytree
