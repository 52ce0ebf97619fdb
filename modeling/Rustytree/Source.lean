import Rustytree.Subtree
import Rustytree.Url
/-!
# From the argument to the store

`open_datatree` turns its first argument into session bytes or a string once;
every Rust open of the call, that of the group and those of its ancestors, then
builds its store anew. Session bytes name one snapshot, whatever becomes of the
session they were taken from; a string is looked up in the world as it is by then.
-/

namespace Rustytree
open S3Options (AmazonS3Builder buildVanillaS3 s3Url Configures rejection applyS3Options_configures
  applyS3Options_rejection)
open Lib.Dict

/-- Serialised state. -/
abbrev Bytes := List UInt8

/-! ## The world outside -/

/-- An entry of the `storage_options` dict: the key and `str()` of the value as
text, where Python gives them. -/
structure StorageOption where
  key : Except PyErr String
  value : Except PyErr String

/-- What a call finds outside at one instant: the local file system with its
icechunk repositories, the S3 client with its environment, the order in which a
`HashMap` yields its entries, the state of the live sessions, and what a session
that is read back from bytes gets from its storage with its credentials: its
nodes, and the elements read through it. -/
structure World (J E R Ref : Type) where
  isFile : Str → Bool
  isDir : Str → Bool
  newLocalFilesystemStorage : Str → Except String Unit
  repositoryOpen : Str → Except String Unit
  readonlySession : Str → Str → Except String (Session J)
  localFileSystem : Str → Except String (ZarrsStore J)
  fromEnv : AmazonS3Builder R
  withUrl : AmazonS3Builder R → String → AmazonS3Builder R
  build : AmazonS3Builder R → Except String (ZarrsStore J)
  iter : List (String × String) → List (String × String)
  iter_perm : ∀ entries, (iter entries).Perm entries
  asBytes : Ref → Except PyErr Bytes
  fromBytes : Bytes → Except String (Session J)
  fetch : WalkSource J → ZarrArray J → Except RustytreeError E

/-- What is the same in every world: xarray's two functions. -/
structure Connector (J E D : Type) where
  fuel : Nat
  nodeToDataset : NodeData J E → Except PyErr D
  merge : List D → Except PyErr D

/-- `ReopenSpec`. -/
inductive ReopenSpec where
  | icechunkSession (bytes : Bytes)
  deriving DecidableEq

/-- `filename_or_obj`; of other objects only `str()` counts. -/
inductive Filename (Ref : Type) where
  | bytes (bytes : Bytes)
  | session (ref : Ref)
  | store (ref : Ref)
  | other (text : Except PyErr Str)

/-- What `_to_rust_source` returns. -/
inductive RustSource where
  | bytes (bytes : Bytes)
  | str (path : Str)
  deriving DecidableEq

/-- All keyword arguments that reach the Rust side. -/
structure CallKwargs extends OpenKwargs where
  branch : Option Str := none
  storageOptions : Option (List StorageOption) := none

section
variable {J E D R Ref : Type}

/-! ## `store.rs` and `icechunk_store.rs` -/

/-- `path.join(name)`. -/
def pathJoin (path name : Str) : Str :=
  if path = [] ∨ ['/'] <:+ path then path ++ name else path ++ '/' :: name

/-- `looks_like_icechunk_repo`. -/
def looksLikeIcechunkRepo (world : World J E R Ref) (path : Str) : Bool :=
  world.isFile (pathJoin path "repo".toList) && world.isDir (pathJoin path "snapshots".toList)

/-- `open_local_icechunk`. -/
def openLocalIcechunk (world : World J E R Ref) (path branch : Str) : Except RustytreeError (Session J) :=
  match world.newLocalFilesystemStorage path with
  | .error err => .error (.other s!"icechunk: failed to open local-filesystem storage at {shown path}: {err}")
  | .ok () =>
    match world.repositoryOpen path with
    | .error err => .error (.other s!"icechunk: failed to open repository at {shown path}: {err}")
    | .ok () =>
      match world.readonlySession path branch with
      | .error err => .error (.other s!"icechunk: failed to open readonly session on branch {shown branch} at {shown path}: {err}")
      | .ok session => .ok session

/-- `build_vanilla_local`. -/
def buildVanillaLocal (world : World J E R Ref) (path : Str) : Except RustytreeError (ZarrsStore J) :=
  match world.localFileSystem path with
  | .error err => .error (.io s!"failed to open local filesystem at {shown path}: {err}")
  | .ok store => .ok store

/-- `build_local_store`. -/
def buildLocalStore (world : World J E R Ref) (path : Str) (branch : Option Str) : Except RustytreeError (WalkSource J) :=
  if looksLikeIcechunkRepo world path then
    (openLocalIcechunk world path (branch.getD "main".toList)).map .icechunk
  else (buildVanillaLocal world path).map .vanilla

/-- `bundle_from_session_bytes`. -/
def bundleFromSessionBytes (world : World J E R Ref) (bytes : Bytes) : Except RustytreeError (Session J) :=
  match world.fromBytes bytes with
  | .error err => .error (.icechunkSession err)
  | .ok session => .ok session

/-- `build_store_from_spec`. -/
def buildStoreFromSpec (world : World J E R Ref) : ReopenSpec → Except RustytreeError (WalkSource J)
  | .icechunkSession bytes => (bundleFromSessionBytes world bytes).map .icechunk

/-! ## `lib.rs` -/

/-- `parse_storage_options`. -/
def parseStorageOptions (entries : List StorageOption) : Except PyErr (List (String × String)) :=
  entries.foldlM (fun out entry => do
    let key ← entry.key
    let value ← entry.value
    .ok (set out key value)) []

/-- The options, none if they are left out. -/
def optionsOrDefault (storageOptions : Option (List StorageOption)) : Except PyErr (List (String × String)) :=
  match storageOptions with
  | none => .ok []
  | some entries => parseStorageOptions entries

/-- The store that `open_datatree` of `lib.rs` builds before it walks. -/
def walkSource (world : World J E R Ref) (source : RustSource) (branch : Option Str)
    (storageOptions : Option (List StorageOption)) : Except PyErr (WalkSource J) :=
  match source with
  | .bytes bytes => (buildStoreFromSpec world (.icechunkSession bytes)).mapError RustytreeError.toPyErr
  | .str path => do
    let spec ← (parseStoreSpec path).mapError RustytreeError.toPyErr
    let options ← optionsOrDefault storageOptions
    match spec with
    | .localFs path => (buildLocalStore world path branch).mapError RustytreeError.toPyErr
    | .s3 bucket keyPrefix =>
      ((buildVanillaS3 world.fromEnv world.withUrl world.build (shown bucket) (shown keyPrefix)
        (world.iter options)).map .vanilla).mapError RustytreeError.toPyErr

def RustSource.isBytes : RustSource → Bool
  | .bytes _ => true
  | .str _ => false

/-- The entry points' view of a store that was built, and of what is read through it. -/
def Connector.opener (c : Connector J E D) (source : RustSource) (store : WalkSource J)
    (fetch : ZarrArray J → Except RustytreeError E) : Opener J E D where
  source := store
  sourceIsBytes := source.isBytes
  fuel := c.fuel
  fetch := fetch
  nodeToDataset := c.nodeToDataset
  merge := c.merge

/-- `open_datatree` of `lib.rs`. -/
def rustOpenDatatree (c : Connector J E D) (world : World J E R Ref) (source : RustSource) (group branch : Option Str)
    (storageOptions : Option (List StorageOption)) (recursive : Option Bool) (glob : Option Str) :
    Except PyErr (Dict (NodeData J E)) := do
  let store ← walkSource world source branch storageOptions
  rustOpen (c.opener source store (world.fetch store)) group recursive glob

/-! ## `backend.py` -/

/-- `_to_rust_source`. -/
def toRustSource (world : World J E R Ref) : Filename Ref → Except PyErr RustSource
  | .bytes bytes => .ok (.bytes bytes)
  | .session ref | .store ref => (world.asBytes ref).map .bytes
  | .other text => text.map .str

/-- What `_to_rust_source` returned, as an argument again. -/
def RustSource.filename : RustSource → Filename Ref
  | .bytes session => .bytes session
  | .str path => .other (.ok path)

/-- `storage_options_arg`. -/
def storageOptionsArg (source : RustSource) (kwargs : CallKwargs) : Option (List StorageOption) :=
  if source.isBytes then none else kwargs.storageOptions

/-- The Rust side at one instant, its exceptions explained. -/
def rustSideAt (c : Connector J E D) (world : World J E R Ref) (source : RustSource) (kwargs : CallKwargs) :
    RustSide J E := fun group recursive glob =>
  (rustOpenDatatree c world source group kwargs.branch (storageOptionsArg source kwargs) recursive glob).mapError
    (explanation source.isBytes)

/-- `open_dataset`, called at instant 0; the Rust side runs at instant 1. -/
def openDatasetAt (c : Connector J E D) (worlds : Nat → World J E R Ref) (filename : Filename Ref) (kwargs : CallKwargs) :
    Except PyErr D :=
  openDatasetWith c.nodeToDataset
    ((toRustSource (worlds 0) filename).map fun source => rustSideAt c (worlds 1) source kwargs) kwargs.toOpenKwargs

/-- The Rust side runs at instant 1; the open of the `i`th ancestor is called at
instant `2 * i + 2`, with the source already converted. -/
def connectionAt (c : Connector J E D) (worlds : Nat → World J E R Ref) (kwargs : CallKwargs) (source : RustSource) :
    Connection J E D where
  rustSide := rustSideAt c (worlds 1) source kwargs
  openAncestor i openKwargs := openDatasetAt c (fun n => worlds (2 * i + 2 + n)) source.filename
    { openKwargs with branch := kwargs.branch, storageOptions := kwargs.storageOptions }

/-- `open_datatree`, called at instant 0. -/
def openDatatreeAt (c : Connector J E D) (worlds : Nat → World J E R Ref) (filename : Filename Ref)
    (kwargs : CallKwargs) : Except PyErr (Dict D) :=
  openDatatreeWith c.nodeToDataset c.merge ((toRustSource (worlds 0) filename).map (connectionAt c worlds kwargs))
    kwargs.toOpenKwargs

/-! ## What a call depends on -/

variable {c : Connector J E D} {worlds worlds' : Nat → World J E R Ref} {source : RustSource} {store : WalkSource J}
  {fetch : ZarrArray J → Except RustytreeError E} {filename filename' : Filename Ref} {kwargs kwargs' : CallKwargs}

/-- The store that a Rust open finds, and what is read through it. -/
def reached (world : World J E R Ref) (source : RustSource) (kwargs : CallKwargs) :
    Except PyErr (WalkSource J × (ZarrArray J → Except RustytreeError E)) :=
  (walkSource world source kwargs.branch (storageOptionsArg source kwargs)).map fun store => (store, world.fetch store)

/-- A converted source converts to itself. -/
theorem toRustSource_filename (world : World J E R Ref) (source : RustSource) :
    toRustSource world source.filename = .ok source := by
  cases source <;> rfl

/-- Of the world, the branch and the options, only what they lead to counts. -/
theorem rustSideAt_eq (world : World J E R Ref) : rustSideAt c world source kwargs = fun group recursive glob =>
    ((reached world source kwargs).bind fun found =>
      rustOpen (c.opener source found.1 found.2) group recursive glob).mapError (explanation source.isBytes) := by
  funext group recursive glob
  unfold rustSideAt rustOpenDatatree reached
  cases walkSource world source kwargs.branch (storageOptionsArg source kwargs) <;> rfl

theorem rustSideAt_congr {world world' : World J E R Ref}
    (h : reached world source kwargs = reached world' source kwargs') :
    rustSideAt c world source kwargs = rustSideAt c world' source kwargs' := by
  rw [rustSideAt_eq, rustSideAt_eq, h]

theorem openDatasetAt_congr (hopen : kwargs.toOpenKwargs = kwargs'.toOpenKwargs)
    (h : reached (worlds 1) source kwargs = reached (worlds' 1) source kwargs') :
    openDatasetAt c worlds source.filename kwargs = openDatasetAt c worlds' source.filename kwargs' := by
  unfold openDatasetAt
  rw [toRustSource_filename, toRustSource_filename, Except.map, Except.map, rustSideAt_congr h, hopen]

/-- Two calls that convert their sources alike, and find the same store at each
of their Rust opens, end alike. -/
theorem openDatatreeAt_congr (hsource : toRustSource (worlds 0) filename = .ok source)
    (hsource' : toRustSource (worlds' 0) filename' = .ok source) (hopen : kwargs.toOpenKwargs = kwargs'.toOpenKwargs)
    (h : ∀ n, 0 < n → reached (worlds n) source kwargs = reached (worlds' n) source kwargs') :
    openDatatreeAt c worlds filename kwargs = openDatatreeAt c worlds' filename' kwargs' := by
  have hconnection : connectionAt c worlds kwargs source = connectionAt c worlds' kwargs' source := by
    unfold connectionAt
    congr 1
    · exact rustSideAt_congr (h 1 Nat.one_pos)
    · funext i openKwargs
      exact openDatasetAt_congr rfl (h (2 * i + 2 + 1) (by omega))
  unfold openDatatreeAt
  rw [hsource, hsource', Except.map, Except.map, hconnection, hopen]

/-- The Rust side with a store that is found. -/
theorem rustSideAt_found {world : World J E R Ref} (h : reached world source kwargs = .ok (store, fetch)) :
    rustSideAt c world source kwargs = rustOpenOrExplain (c.opener source store fetch) := by
  rw [rustSideAt_eq, h]
  rfl

theorem openDatasetAt_found (h : reached (worlds 1) source kwargs = .ok (store, fetch)) :
    openDatasetAt c worlds source.filename kwargs = openDataset (c.opener source store fetch) kwargs.toOpenKwargs := by
  unfold openDatasetAt openDataset
  rw [toRustSource_filename, Except.map, rustSideAt_found h]
  rfl

/-- A call all of whose Rust opens find one store is an open of that store. -/
theorem openDatatreeAt_found (hsource : toRustSource (worlds 0) filename = .ok source)
    (h : ∀ n, 0 < n → reached (worlds n) source kwargs = .ok (store, fetch)) :
    openDatatreeAt c worlds filename kwargs = openDatatree (c.opener source store fetch) kwargs.toOpenKwargs := by
  have hconnection : connectionAt c worlds kwargs source =
      ⟨rustOpenOrExplain (c.opener source store fetch), fun _ => openDataset (c.opener source store fetch)⟩ := by
    unfold connectionAt
    congr 1
    · exact rustSideAt_found (h 1 Nat.one_pos)
    · funext i openKwargs
      exact openDatasetAt_found (h (2 * i + 2 + 1) (by omega))
  unfold openDatatreeAt openDatatree
  rw [hsource, Except.map, hconnection]
  rfl

/-- A call whose source opens no store checks its arguments and raises. -/
theorem openDatatreeAt_failed {err : PyErr} (hsource : toRustSource (worlds 0) filename = .ok source)
    (h : walkSource (worlds 1) source kwargs.branch (storageOptionsArg source kwargs) = .error err) :
    openDatatreeAt c worlds filename kwargs =
      ((checkZarrV3Only kwargs.zarrFormat kwargs.consolidated).bind fun _ =>
        (validateGroupFilter kwargs.group kwargs.groupFilter).bind fun _ =>
          .error (explanation source.isBytes err)) := by
  unfold openDatatreeAt openDatatreeWith
  simp only [hsource, Except.map, connectionAt, rustSideAt, rustOpenDatatree, h, bind, Except.bind, Except.mapError]

/-! ## Sessions -/

/-- Session bytes name one store, whatever the branch and the options. -/
theorem walkSource_bytes (world : World J E R Ref) (bytes : Bytes) (branch : Option Str)
    (storageOptions : Option (List StorageOption)) :
    walkSource world (.bytes bytes) branch storageOptions =
      match world.fromBytes bytes with
      | .error err => .error (.valueError (RustytreeError.icechunkSession err).display)
      | .ok session => .ok (.icechunk session) := by
  cases h : world.fromBytes bytes with
  | error err =>
    simp only [walkSource, buildStoreFromSpec, bundleFromSessionBytes, h]
    rfl
  | ok session =>
    simp only [walkSource, buildStoreFromSpec, bundleFromSessionBytes, h]
    rfl

/-- What storage answers for session bytes: the session, and what is read through it. -/
def World.answers (world : World J E R Ref) (bytes : Bytes) :
    Except String (Session J × (ZarrArray J → Except RustytreeError E)) :=
  (world.fromBytes bytes).map fun session => (session, world.fetch (.icechunk session))

/-- An open of session bytes finds what storage answers for them. -/
theorem reached_bytes (world : World J E R Ref) (bytes : Bytes) (kwargs : CallKwargs) :
    reached world (.bytes bytes) kwargs =
      match world.answers bytes with
      | .error err => .error (.valueError (RustytreeError.icechunkSession err).display)
      | .ok (session, fetch) => .ok (.icechunk session, fetch) := by
  unfold reached World.answers
  rw [walkSource_bytes]
  cases world.fromBytes bytes <;> rfl

/-- A call on an icechunk session, a store or session bytes reads the snapshot that
the session had when the call began. Of all that changes outside before any of its
opens, nothing counts but what storage answers for the bytes taken then; nor do
`branch` and `storage_options`. Where storage serves the one snapshot at every
open, the call is an open of that snapshot. -/
theorem session_open_isolated {bytes : Bytes} (hsource : toRustSource (worlds 0) filename = .ok (.bytes bytes)) :
    (∀ (worlds' : Nat → World J E R Ref) (filename' : Filename Ref) (kwargs' : CallKwargs),
      toRustSource (worlds' 0) filename' = .ok (.bytes bytes) → kwargs.toOpenKwargs = kwargs'.toOpenKwargs →
      (∀ n, 0 < n → (worlds n).answers bytes = (worlds' n).answers bytes) →
      openDatatreeAt c worlds filename kwargs = openDatatreeAt c worlds' filename' kwargs') ∧
    (∀ session fetch, (∀ n, 0 < n → (worlds n).answers bytes = .ok (session, fetch)) →
      openDatatreeAt c worlds filename kwargs =
        openDatatree (c.opener (.bytes bytes) (.icechunk session) fetch) kwargs.toOpenKwargs) ∧
    ∀ err, (worlds 1).fromBytes bytes = .error err →
      openDatatreeAt c worlds filename kwargs =
        ((checkZarrV3Only kwargs.zarrFormat kwargs.consolidated).bind fun _ =>
          (validateGroupFilter kwargs.group kwargs.groupFilter).bind fun _ =>
            .error (explanation true (.valueError (RustytreeError.icechunkSession err).display))) := by
  refine ⟨fun worlds' filename' kwargs' hsource' hopen h => ?_, fun session fetch hsession => ?_, fun err herr => ?_⟩
  · apply openDatatreeAt_congr hsource hsource' hopen
    intro n hn
    rw [reached_bytes, reached_bytes, h n hn]
  · apply openDatatreeAt_found hsource
    intro n hn
    rw [reached_bytes, hsession n hn]
  · apply openDatatreeAt_failed hsource
    rw [walkSource_bytes, herr]

/-! ## Strings -/

/-- The calls differ only where the source gives the argument no meaning:
`branch` is that of a local icechunk repository, `main` if left out;
`storage_options` are those of an S3 URL, and are text elsewhere too. -/
def SameMeaning (world : World J E R Ref) (source : RustSource) (kwargs kwargs' : CallKwargs) : Prop :=
  match source with
  | .bytes _ => True
  | .str path =>
    match parseStoreSpec path with
    | .error _ => True
    | .ok (.localFs path) =>
      (optionsOrDefault kwargs.storageOptions).map (fun _ => ()) =
          (optionsOrDefault kwargs'.storageOptions).map (fun _ => ()) ∧
        (looksLikeIcechunkRepo world path = true →
          kwargs.branch.getD "main".toList = kwargs'.branch.getD "main".toList)
    | .ok (.s3 _ _) => optionsOrDefault kwargs.storageOptions = optionsOrDefault kwargs'.storageOptions

theorem sameMeaning_localFs {world : World J E R Ref} {path root : Str} {kwargs kwargs' : CallKwargs}
    (hspec : parseStoreSpec path = .ok (.localFs root))
    (hoptions : (optionsOrDefault kwargs.storageOptions).map (fun _ => ()) =
      (optionsOrDefault kwargs'.storageOptions).map (fun _ => ()))
    (hbranch : looksLikeIcechunkRepo world root = true →
      kwargs.branch.getD "main".toList = kwargs'.branch.getD "main".toList) :
    SameMeaning world (.str path) kwargs kwargs' := by
  simp only [SameMeaning, hspec]
  exact ⟨hoptions, hbranch⟩

theorem buildLocalStore_branch {world : World J E R Ref} {path : Str} {branch branch' : Option Str}
    (h : looksLikeIcechunkRepo world path = true → branch.getD "main".toList = branch'.getD "main".toList) :
    buildLocalStore world path branch = buildLocalStore world path branch' := by
  unfold buildLocalStore
  split
  next hrepo => rw [h hrepo]
  next => rfl

theorem walkSource_congr {world : World J E R Ref} (h : SameMeaning world source kwargs kwargs') :
    walkSource world source kwargs.branch (storageOptionsArg source kwargs) =
      walkSource world source kwargs'.branch (storageOptionsArg source kwargs') := by
  cases source with
  | bytes bytes => rw [walkSource_bytes, walkSource_bytes]
  | str path =>
    simp only [walkSource, storageOptionsArg, RustSource.isBytes, Bool.false_eq_true, if_false]
    cases hspec : parseStoreSpec path with
    | error err => simp only [Except.mapError, bind, Except.bind]
    | ok spec =>
      simp only [SameMeaning, hspec] at h
      cases spec with
      | localFs path =>
        obtain ⟨hoptions, hbranch⟩ := h
        simp only [Except.mapError, bind, Except.bind, buildLocalStore_branch hbranch]
        -- Options of a local path are parsed, and then not used.
        cases hleft : optionsOrDefault kwargs.storageOptions with
        | error err =>
          cases hright : optionsOrDefault kwargs'.storageOptions with
          | error err' =>
            rw [hleft, hright] at hoptions
            cases hoptions
            rfl
          | ok options' =>
            rw [hleft, hright] at hoptions
            cases hoptions
        | ok options =>
          cases hright : optionsOrDefault kwargs'.storageOptions with
          | error err' =>
            rw [hleft, hright] at hoptions
            cases hoptions
          | ok options' => rfl
      | s3 bucket keyPrefix => simp only [Except.mapError, bind, Except.bind, h]

/-- `branch` and `storage_options` have no effect on a call beyond their meaning
for its source, in any world and however it changes meanwhile. -/
theorem options_without_effect (hsource : toRustSource (worlds 0) filename = .ok source)
    (hopen : kwargs.toOpenKwargs = kwargs'.toOpenKwargs)
    (h : ∀ n, 0 < n → SameMeaning (worlds n) source kwargs kwargs') :
    openDatatreeAt c worlds filename kwargs = openDatatreeAt c worlds filename kwargs' :=
  openDatatreeAt_congr hsource hsource hopen fun n hn => by rw [reached, reached, walkSource_congr (h n hn)]

/-! ## S3 URLs -/

/-- The store of an S3 URL is built from the environment's builder with what the
options set, in whatever order the map yields them; an option that is not
accepted is reported instead. -/
theorem s3_open_configured (world : World J E R Ref) {path bucket keyPrefix : Str}
    (hspec : parseStoreSpec path = .ok (.s3 bucket keyPrefix)) (branch : Option Str)
    {storageOptions : Option (List StorageOption)} {options : List (String × String)}
    (hoptions : optionsOrDefault storageOptions = .ok options) :
    ((∀ option ∈ options, S3Options.Accepted option) →
      ∃ builder, Configures options (world.withUrl world.fromEnv (s3Url (shown bucket) (shown keyPrefix))) builder ∧
        walkSource world (.str path) branch storageOptions =
          match world.build builder with
          | .error err =>
            .error (.runtimeError s!"failed to build S3 store for {s3Url (shown bucket) (shown keyPrefix)}: {err}")
          | .ok store => .ok (.vanilla store)) ∧
    ((∃ option ∈ options, ¬ S3Options.Accepted option) →
      ∃ option ∈ options, ¬ S3Options.Accepted option ∧
        walkSource world (.str path) branch storageOptions = .error (rejection option).toPyErr) := by
  have hiter : ∀ option, option ∈ world.iter options ↔ option ∈ options := fun _ => (world.iter_perm options).mem_iff
  have hstore : walkSource world (.str path) branch storageOptions =
      ((buildVanillaS3 world.fromEnv world.withUrl world.build (shown bucket) (shown keyPrefix)
        (world.iter options)).map WalkSource.vanilla).mapError RustytreeError.toPyErr := by
    simp only [walkSource, hspec, hoptions, Except.mapError, bind, Except.bind]
  constructor
  · intro haccepted
    obtain ⟨builder, hrun, hconf⟩ := applyS3Options_configures (fun option h => haccepted option ((hiter option).1 h))
      (world.withUrl world.fromEnv (s3Url (shown bucket) (shown keyPrefix)))
    refine ⟨builder, hconf.of_mem_iff hiter, ?_⟩
    rw [hstore]
    unfold buildVanillaS3
    simp only [hrun]
    cases world.build builder with
    | error err => rfl
    | ok store => rfl
  · rintro ⟨option, hmem, hnot⟩
    obtain ⟨rejected, hmem, hnot, hrun⟩ := applyS3Options_rejection ⟨option, (hiter option).2 hmem, hnot⟩
      (world.withUrl world.fromEnv (s3Url (shown bucket) (shown keyPrefix)))
    refine ⟨rejected, (hiter rejected).1 hmem, hnot, ?_⟩
    rw [hstore]
    unfold buildVanillaS3
    simp only [hrun]
    rfl

end

/-- A world in which the live session moves on and a repository appears. -/
def changingWorld (n : Nat) : World Nat Unit Unit Unit where
  isFile _ := decide (1 < n)
  isDir _ := decide (1 < n)
  newLocalFilesystemStorage _ := .ok ()
  repositoryOpen _ := .ok ()
  readonlySession _ _ := .error "no such branch"
  localFileSystem _ := .ok (storeOf radarTree)
  fromEnv := ⟨none, none, none, none, none, false, false, ()⟩
  withUrl builder _ := builder
  build _ := .ok (storeOf radarTree)
  iter entries := entries
  iter_perm := List.Perm.refl
  asBytes _ := .ok [UInt8.ofNat n]
  fromBytes bytes := if bytes = [0] then .ok (sessionOf radarTree) else .error "bad magic"
  fetch _ _ := .ok ()

def radarConnector : Connector Nat Unit Str where
  fuel := 9
  nodeToDataset node := .ok node.path
  merge datasets := .ok (datasets.headD [])

def sweepCall : CallKwargs := { group := some "VCP-12/sweep_0".toList }

/-- Beside the session, its bytes, in a world that stands still. -/
theorem session_open_isolated_radar :
    openDatatreeAt radarConnector changingWorld (.session ()) sweepCall =
        openDatatreeAt radarConnector (fun _ => changingWorld 7) (.bytes [0]) sweepCall ∧
      openDatatreeAt radarConnector changingWorld (.session ()) sweepCall =
        openDatatree (radarConnector.opener (.bytes [0]) (.icechunk (sessionOf radarTree)) fun _ => .ok ())
          sweepCall.toOpenKwargs := by
  have hbytes : toRustSource (changingWorld 0) (.session ()) = .ok (.bytes [0]) := rfl
  obtain ⟨hsame, hsnapshot, -⟩ := session_open_isolated hbytes
  exact ⟨hsame _ _ _ rfl rfl fun _ _ => rfl, hsnapshot _ _ fun _ _ => rfl⟩

/-- The ancestors are opened after the session has moved on, and still read its snapshot. -/
example : openDatatreeAt radarConnector changingWorld (.session ()) sweepCall =
    .ok [("/".toList, "/VCP-12/sweep_0".toList)] := by decide

/-- A `branch` and an option for S3, given with a local store. -/
theorem options_without_effect_local :
    openDatatreeAt radarConnector (fun _ => changingWorld 1) (.other (.ok "/data/radar.zarr".toList))
        { group := some "VCP-12".toList, branch := some "dev".toList,
          storageOptions := some [⟨.ok "anon", .ok "True"⟩] } =
      openDatatreeAt radarConnector (fun _ => changingWorld 1) (.other (.ok "/data/radar.zarr".toList))
        { group := some "VCP-12".toList } := by
  have hsource : toRustSource (changingWorld 1) (.other (.ok "/data/radar.zarr".toList)) =
      .ok (.str "/data/radar.zarr".toList) := rfl
  have hspec : parseStoreSpec "/data/radar.zarr".toList = .ok (.localFs "/data/radar.zarr".toList) := by decide
  have hrepo : ¬ looksLikeIcechunkRepo (changingWorld 1) "/data/radar.zarr".toList = true := by decide
  refine options_without_effect hsource ?_ ?_
  · rfl
  · intro n _
    apply sameMeaning_localFs hspec
    · rfl
    · intro hlooks
      exact absurd hlooks hrepo

/-- A region, and no signature. -/
theorem s3_open_configured_radar :
    ∃ builder, Configures [("region", "us-east-1"), ("anon", "True")]
        ((changingWorld 0).withUrl (changingWorld 0).fromEnv (s3Url (shown "radar".toList) (shown "klot".toList)))
        builder ∧
      walkSource (changingWorld 0) (.str "s3://radar/klot/".toList) none
        (some [⟨.ok "region", .ok "us-east-1"⟩, ⟨.ok "anon", .ok "True"⟩]) = .ok (.vanilla (storeOf radarTree)) := by
  have hspec : parseStoreSpec "s3://radar/klot/".toList = .ok (.s3 "radar".toList "klot".toList) := by decide
  have hoptions : optionsOrDefault (some [⟨.ok "region", .ok "us-east-1"⟩, ⟨.ok "anon", .ok "True"⟩]) =
      .ok [("region", "us-east-1"), ("anon", "True")] := by decide
  have haccepted : ∀ option ∈ [("region", "us-east-1"), ("anon", "True")], S3Options.Accepted option := by decide
  exact (s3_open_configured (changingWorld 0) hspec none hoptions).1 haccepted

end Rustytree
