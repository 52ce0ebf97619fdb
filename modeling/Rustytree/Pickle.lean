import Rustytree.Prefetch
import Rustytree.Source
/-!
# Array handles on other processes (`array.rs`, `__reduce__`)

A pickled handle is its reopen spec and its array's path; the worker builds the
store anew and opens the array in it. Handles of a tree opened from an icechunk
session come back as they were, however often they are sent on; all others
refuse.
-/

namespace Rustytree
open Glob Lib.Dict Lib.Collect

variable {J E D R Ref : Type}

/-! ## The source -/

/-- A `ZarrsArrayHandle`: the opened array, the store it reads from, and the
recipe for reopening that store. -/
structure ArrayHandle (J : Type) where
  array : ZarrArray J
  store : WalkSource J
  spec : Option ReopenSpec

/-- `rmp_serde` on pickle states, and `Array::async_open` on an icechunk store. -/
structure Pickler (J : Type) where
  toVec : ReopenSpec × Str → Except String Bytes
  fromSlice : Bytes → Except String (ReopenSpec × Str)
  arrayOpen : Session J → Str → Except String (ZarrArray J)

/-- `Array::async_open(source.into_store(), path)`. -/
def Pickler.asyncOpen (p : Pickler J) (source : WalkSource J) (path : Str) : Except String (ZarrArray J) :=
  match source with
  | .icechunk session => p.arrayOpen session path
  | .vanilla store => store.arrayOpen path

/-- `__reduce__`: the state that goes to the worker. -/
def reduce (p : Pickler J) (handle : ArrayHandle J) : Except PyErr Bytes :=
  match handle.spec with
  | none => .error (.valueError "rustytree: this array is not picklable — pickling (e.g. for dask.distributed) is currently supported only for stores opened via an icechunk Session, not vanilla s3:// / local Zarr stores. Either open the store through an icechunk Session, or compute with the threaded scheduler (`dask.config.set(scheduler=\"threads\")`).")
  | some spec =>
    match p.toVec (spec, handle.array.path) with
    | .error err => .error (.valueError s!"rustytree: failed to serialise array handle: {err}")
    | .ok state => .ok state

/-- `_reopen_array_handle`. For printable paths `quote` is Rust's `{:?}`. -/
def reopenArrayHandle (world : World J E R Ref) (p : Pickler J) (state : Bytes) : Except PyErr (ArrayHandle J) :=
  match p.fromSlice state with
  | .error err => .error (.valueError s!"rustytree: corrupt ZarrsArrayHandle pickle state: {err}")
  | .ok (spec, path) =>
    match buildStoreFromSpec world spec with
    | .error err => .error err.toPyErr
    | .ok store =>
      match p.asyncOpen store path with
      | .error err =>
        .error (RustytreeError.other s!"rustytree: failed to reopen array {(shown path).quote} on worker: {err}").toPyErr
      | .ok array => .ok { array, store, spec := some spec }

/-- The spec that the handles of a tree carry. -/
def RustSource.spec : RustSource → Option ReopenSpec
  | .bytes state => some (.icechunkSession state)
  | .str _ => none

/-- The handles `nodes_to_pydict` hands out, for each group of the tree. -/
def treeHandles (c : Connector J E D) (world : World J E R Ref) (source : RustSource) (group branch : Option Str)
    (storageOptions : Option (List StorageOption)) (recursive : Option Bool) (glob : Option Str) :
    Except PyErr (Dict (List (ArrayHandle J))) := do
  let store ← walkSource world source branch storageOptions
  let tree ← rustOpen (c.opener source store (world.fetch store)) group recursive glob
  .ok (tree.map fun entry => (entry.1, entry.2.vars.map fun var => { array := var.array, store, spec := source.spec }))

/-- Sent from process to process so many times, each in the world of its own instant. -/
def sent (worlds : Nat → World J E R Ref) (p : Pickler J) : Nat → ArrayHandle J → Except PyErr (ArrayHandle J)
  | 0, handle => .ok handle
  | hops + 1, handle => do
    let handle ← sent worlds p hops handle
    let state ← reduce p handle
    reopenArrayHandle (worlds hops) p state

/-! ## One hop -/

/-- What `rmp_serde` documents: the states of these session bytes are written, and
read back as they were. -/
def Codec (p : Pickler J) (bytes : Bytes) (H : Hierarchy J) : Prop :=
  ∀ path metadata, (path, .array metadata) ∈ H.nodes →
    ∃ state, p.toVec (.icechunkSession bytes, pathStr path) = .ok state ∧
      p.fromSlice state = .ok (.icechunkSession bytes, pathStr path)

/-- The icechunk store serves the `zarr.json` of every array of the session's snapshot. -/
def ServesArrays (p : Pickler J) (session : Session J) (H : Hierarchy J) : Prop :=
  ∀ path metadata, (path, .array metadata) ∈ H.nodes → p.arrayOpen session (pathStr path) = .ok ⟨pathStr path, metadata⟩

/-- The handle of an array of the snapshot comes back as it was. -/
theorem reopen_reduced {worlds : Nat → World J E R Ref} {p : Pickler J} {H : Hierarchy J} {bytes : Bytes}
    {session : Session J} (hsession : ∀ n, (worlds n).fromBytes bytes = .ok session) (hcodec : Codec p bytes H)
    (hserves : ServesArrays p session H) {path : Path} {metadata : ArrayMetadata J}
    (hmem : (path, .array metadata) ∈ H.nodes) :
    ∃ state, reduce p ⟨⟨pathStr path, metadata⟩, .icechunk session, some (.icechunkSession bytes)⟩ = .ok state ∧
      ∀ n, reopenArrayHandle (worlds n) p state =
        .ok ⟨⟨pathStr path, metadata⟩, .icechunk session, some (.icechunkSession bytes)⟩ := by
  obtain ⟨state, hto, hfrom⟩ := hcodec path metadata hmem
  refine ⟨state, ?_, fun n => ?_⟩
  · simp only [reduce, hto]
  · have hstore : buildStoreFromSpec (worlds n) (.icechunkSession bytes) = .ok (.icechunk session) := by
      simp only [buildStoreFromSpec, bundleFromSessionBytes, hsession n]
      rfl
    simp only [reopenArrayHandle, hfrom, hstore, Pickler.asyncOpen, hserves path metadata hmem]

/-- What one hop leaves as it was, all hops do. -/
theorem sent_fixed {worlds : Nat → World J E R Ref} {p : Pickler J} {handle : ArrayHandle J} {state : Bytes}
    (hreduce : reduce p handle = .ok state) (hreopen : ∀ n, reopenArrayHandle (worlds n) p state = .ok handle)
    (hops : Nat) : sent worlds p hops handle = .ok handle := by
  induction hops with
  | zero => rfl
  | succ hops ih =>
    rw [sent, ih]
    simp only [bind, Except.bind, hreduce]
    exact hreopen hops

/-- What the first hop refuses, no later one sees. -/
theorem sent_refused {worlds : Nat → World J E R Ref} {p : Pickler J} {handle : ArrayHandle J} {err : PyErr}
    (h : reduce p handle = .error err) (hops : Nat) : sent worlds p (hops + 1) handle = .error err := by
  induction hops with
  | zero =>
    rw [sent, sent]
    simp only [bind, Except.bind, h]
  | succ hops ih =>
    rw [sent, ih]
    rfl

/-! ## All handles of a tree -/

/-- The arrays of an icechunk walk are those of the snapshot. -/
theorem walk_arrays {session : Session J} {H : Hierarchy J} {root : Path} (hh : HoldsAt session H root)
    (hr : root ∈ H.groupPaths) {fuel : Nat} {fetch : ZarrArray J → Except RustytreeError E} {recursive : Bool}
    {glob : Option GlobPredicate} (hpass : passes glob (pathStr root) = true) {nodes : List (NodeData J E)}
    (hwalk : walkRecursive fuel (fun _ _ => fetch) (.icechunk session) (pathStr root) recursive glob = .ok nodes)
    {node : NodeData J E} (hnode : node ∈ nodes) {var : VarMeta J E} (hvar : var ∈ node.vars) :
    ∃ path metadata, (path, .array metadata) ∈ H.nodes ∧ var.array = ⟨pathStr path, metadata⟩ := by
  obtain ⟨l, hperm, hlists⟩ := hh
  obtain ⟨walked, hrun, hwalked⟩ := walkIcechunk_ok (E := E) hlists hperm hr hpass recursive
  simp only [walkRecursive, metadataWalk, hrun, eagerPhase_map] at hwalk
  cases hwalk
  obtain ⟨before, hbefore, rfl⟩ := List.mem_map.1 hnode
  rw [eagerNode_vars] at hvar
  obtain ⟨old, hold, rfl⟩ := List.mem_map.1 hvar
  obtain ⟨p, -, attributes, -, rfl⟩ := hwalked.exists_group hbefore
  obtain ⟨name, metadata, hmem, rfl⟩ := mem_varsIn.1 hold
  refine ⟨p ++ [name], metadata, (Hierarchy.mem_below.1 (hperm.mem_iff.1 hmem)).2, ?_⟩
  rw [eagerVar_fields]
  rfl

/-- A dictionary of nodes holds no other nodes. -/
theorem nodesToPydict_values {nodes : List (NodeData J E)} : ∀ entry ∈ nodesToPydict nodes, entry.2 ∈ nodes := by
  have hset : ∀ (l : List (NodeData J E)) (dict : Dict (NodeData J E)), (∀ entry ∈ dict, entry.2 ∈ nodes) →
      (∀ node ∈ l, node ∈ nodes) →
      ∀ entry ∈ l.foldl (fun dict node => Lib.Dict.set dict node.path node) dict, entry.2 ∈ nodes := by
    intro l
    induction l with
    | nil => exact fun dict hdict _ => hdict
    | cons node l ih =>
      intro dict hdict hl
      apply ih _ (fun entry hentry => ?_) fun n hn => hl n (List.mem_cons_of_mem node hn)
      rcases set_values hentry with h | h
      · exact hdict entry h
      · exact h ▸ hl node List.mem_cons_self
  exact hset nodes [] (by simp) fun _ h => h

/-- The handles of a tree survive any number of hops unchanged exactly if the
tree was opened from an icechunk session; all others refuse the first. -/
theorem handles_survive_iff {c : Connector J E D} {worlds : Nat → World J E R Ref} {world : World J E R Ref}
    {p : Pickler J} {H : Hierarchy J} {source : RustSource}
    (hsession : ∀ bytes session, source = .bytes bytes → world.fromBytes bytes = .ok session →
      (∀ n, (worlds n).fromBytes bytes = .ok session) ∧ Codec p bytes H ∧ ServesArrays p session H ∧
        ∀ root ∈ H.groupPaths, HoldsAt session H root)
    {root : Path} (hr : root ∈ H.groupPaths) {branch : Option Str}
    {storageOptions : Option (List StorageOption)} {recursive : Option Bool} {glob : Option Str}
    (hcombo : glob = none ∨ root = []) {tree : Dict (List (ArrayHandle J))}
    (hopen : treeHandles c world source (some (pathStr root)) branch storageOptions recursive glob = .ok tree) :
    ∀ entry ∈ tree, ∀ handle ∈ entry.2,
      ((∀ hops, sent worlds p hops handle = .ok handle) ↔ source.isBytes = true) ∧
        (source.isBytes = false → ∃ msg, reduce p handle = .error (.valueError msg) ∧
          ∀ hops, sent worlds p (hops + 1) handle = .error (.valueError msg)) := by
  intro entry hentry handle hhandle
  obtain ⟨store, hstore, hrest⟩ := bind_eq_ok.1 hopen
  obtain ⟨nodes, hnodes, htree⟩ := bind_eq_ok.1 hrest
  cases htree
  obtain ⟨⟨path, node⟩, hnode, rfl⟩ := List.mem_map.1 hentry
  obtain ⟨var, hvar, rfl⟩ := List.mem_map.1 hhandle
  cases source with
  | str path =>
    have hrefused : ∃ msg, reduce p ⟨var.array, store, none⟩ = .error (.valueError msg) := ⟨_, rfl⟩
    obtain ⟨msg, hmsg⟩ := hrefused
    simp only [RustSource.isBytes, Bool.false_eq_true, iff_false, forall_const]
    refine ⟨fun hall => ?_, msg, hmsg, sent_refused hmsg⟩
    have hone := hall 1
    rw [RustSource.spec, sent_refused hmsg 0] at hone
    cases hone
  | bytes bytes =>
    simp only [RustSource.isBytes, iff_true, Bool.true_eq_false, false_implies, and_true]
    rw [walkSource_bytes] at hstore
    cases hfrom : world.fromBytes bytes with
    | error err =>
      rw [hfrom] at hstore
      cases hstore
    | ok session =>
      rw [hfrom] at hstore
      cases hstore
      obtain ⟨hworlds, hcodec, hserves, hholds⟩ := hsession bytes session rfl hfrom
      unfold rustOpen at hnodes
      split at hnodes
      · cases hnodes
      next walked hwalk =>
        cases hnodes
        have hpass : passes (glob.map GlobPredicate.parse) (pathStr root) = true := by
          rcases hcombo with rfl | rfl
          · rfl
          · exact passes_root _
        obtain ⟨array, metadata, hmem, harray⟩ :=
          walk_arrays (hholds root hr) hr hpass hwalk (nodesToPydict_values _ hnode) hvar
        obtain ⟨state, hreduce, hreopen⟩ := reopen_reduced hworlds hcodec hserves hmem
        rw [harray]
        exact sent_fixed hreduce hreopen

/-! ## A small codec -/

/-- The MessagePack header of a state: a pair, of which the first is a map from
the variant's name to its one field. -/
def stateHeader : Bytes := [0x92, 0x81, 0xaf] ++ "IcechunkSession".toList.map (fun x => UInt8.ofNat x.toNat) ++ [0x91]

/-- `rmp_serde` on short states: fewer than 16 session bytes, all below 128, and
an ASCII path of fewer than 32 characters. -/
def shortPickler (H : Hierarchy J) : Pickler J where
  toVec := fun (.icechunkSession bytes, path) =>
    .ok (stateHeader ++ UInt8.ofNat (0x90 + bytes.length) :: bytes ++
      UInt8.ofNat (0xa0 + path.length) :: path.map fun x => UInt8.ofNat x.toNat)
  fromSlice state :=
    match state.drop stateHeader.length with
    | [] => .error "end of input"
    | count :: rest =>
      let n := count.toNat - 0x90
      .ok (.icechunkSession (rest.take n), (rest.drop (n + 1)).map fun b => Char.ofNat b.toNat)
  arrayOpen _ path := (storeOf H).arrayOpen path

theorem handles_survive_iff_radar :
    ∃ tree,
      treeHandles radarConnector (changingWorld 1) (.bytes [0]) (some (pathStr [])) none none none none = .ok tree ∧
      ∀ entry ∈ tree, ∀ handle ∈ entry.2,
        ((∀ hops, sent changingWorld (shortPickler radarTree) hops handle = .ok handle) ↔
          (RustSource.bytes [0]).isBytes = true) ∧
        ((RustSource.bytes [0]).isBytes = false → ∃ msg, reduce (shortPickler radarTree) handle =
            .error (.valueError msg) ∧
          ∀ hops, sent changingWorld (shortPickler radarTree) (hops + 1) handle = .error (.valueError msg)) := by
  have hfrom : ∀ n, (changingWorld n).fromBytes [0] = .ok (sessionOf radarTree) := fun _ => rfl
  have hopens : (treeHandles radarConnector (changingWorld 1) (.bytes [0]) (some (pathStr [])) none none none
      none).isOk = true := by decide
  cases htree : treeHandles radarConnector (changingWorld 1) (.bytes [0]) (some (pathStr [])) none none none none with
  | error err =>
    rw [htree] at hopens
    cases hopens
  | ok tree =>
    refine ⟨tree, rfl, handles_survive_iff (H := radarTree) ?_ (by decide) (.inl rfl) htree⟩
    rintro bytes session heq hsession
    cases heq
    rw [hfrom] at hsession
    cases hsession
    refine ⟨hfrom, ?_, ?_, fun root _ => sessionOf_holds radarTree root⟩
    · intro path metadata hmem
      simp only [radarTree, List.mem_cons, Prod.mk.injEq, Node.array.injEq, reduceCtorEq, and_false, false_or,
        List.not_mem_nil, or_false] at hmem
      rw [hmem.1]
      exact ⟨_, rfl, by decide⟩
    · intro path metadata hmem
      exact (storeOf_serves radarTree).array path metadata hmem

end Rustytree
