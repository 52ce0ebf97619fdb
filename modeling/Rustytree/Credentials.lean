import Rustytree.Errors
import Rustytree.Lib.Runs
/-!
# Refreshable credentials (`py_credentials.rs`)

A fetcher holds a pickled callable and perhaps credentials that were scattered
with the session. It keeps nothing between calls, so along a run the scattered
credentials serve a first stretch, without Python, and the callable all the rest.
-/

namespace Rustytree

/-! ## The source -/

/-- `DateTime<Utc>`, in nanoseconds. -/
abbrev Instant := Int

structure S3StaticCredentials where
  accessKeyId : Str
  secretAccessKey : Str
  sessionToken : Option Str
  expiresAfter : Option Instant

structure GcsBearerCredential where
  bearer : Str
  expiresAfter : Option Instant

inductive AzureRefreshableCredential where
  | accessKey (key : Str) (expiresAfter : Option Instant)
  | sasToken (token : Str) (expiresAfter : Option Instant)
  | bearerToken (bearer : Str) (expiresAfter : Option Instant)

def AzureRefreshableCredential.expiresAfter : AzureRefreshableCredential → Option Instant
  | accessKey _ expiry | sasToken _ expiry | bearerToken _ expiry => expiry

/-- What PyO3 extracts from an attribute's value; an error is its text. -/
structure AttrValue where
  string : Except String Str
  optionString : Except String (Option Str)
  optionDatetime : Except String (Option Instant)

/-- A Python object as `getattr` shows it. -/
structure CredentialObject where
  getattr : String → Except String AttrValue

/-- What Rust asks of the interpreter. -/
inductive PyCall (Callable : Type) where
  | importPickle
  | loads (pickled : List UInt8)
  | call0 (callable : Callable)

/-- A computation beside the interpreter: the calls it makes, in order, and its result. -/
structure Attached (Callable α : Type) where
  calls : List (PyCall Callable)
  result : Except String α

namespace Attached
variable {Callable α β : Type}

/-- What runs without the interpreter. -/
def lift (result : Except String α) : Attached Callable α := ⟨[], result⟩

/-- One call. -/
def call (c : PyCall Callable) (result : Except String α) : Attached Callable α := ⟨[c], result⟩

def bind (m : Attached Callable α) (f : α → Attached Callable β) : Attached Callable β :=
  match m.result with
  | .error err => ⟨m.calls, .error err⟩
  | .ok a => ⟨m.calls ++ (f a).calls, (f a).result⟩

instance : Monad (Attached Callable) where
  pure a := lift (.ok a)
  bind := bind

def mapError (f : String → String) (m : Attached Callable α) : Attached Callable α := ⟨m.calls, m.result.mapError f⟩

end Attached

/-- The interpreter at one instant: `import pickle`, `pickle.loads` and a call. -/
structure Interpreter (Callable : Type) where
  now : Instant
  importPickle : Except String Unit
  loads : List UInt8 → Except String Callable
  call0 : Callable → Except String CredentialObject

def refreshBufferSecs : Int := 180

/-- `TimeDelta::seconds`. -/
def seconds (secs : Int) : Int := secs * 1000000000

/-- `is_fresh`. -/
def isFresh (now : Instant) (expiresAfter : Option Instant) : Bool :=
  match expiresAfter with
  | none => true
  | some expiry => decide (expiry > now + seconds refreshBufferSecs)

/-- `call_pickled`. -/
def callPickled {Callable : Type} (py : Interpreter Callable) (pickled : List UInt8) :
    Attached Callable CredentialObject := do
  .call .importPickle py.importPickle
  let callable ← .call (.loads pickled) (py.loads pickled)
  .call (.call0 callable) (py.call0 callable)

/-- `refresh_error`. -/
def refreshError (provider err : String) : String :=
  s!"rustytree could not run the Python credential callback embedded in this icechunk session to refresh {provider} credentials ({err}). This session was likely created with delegated/refreshable credentials (e.g. arraylake/Earthmover). Either rebuild it with anonymous or static credentials, keep `scatter_initial_credentials=True` so fresh static credentials travel with the session, or make the credential function importable in this process."

/-- `s3_from_pyobj`. -/
def s3FromPyobj (obj : CredentialObject) : Except String S3StaticCredentials := do
  let accessKeyId ← (← obj.getattr "access_key_id").string
  let secretAccessKey ← (← obj.getattr "secret_access_key").string
  let sessionToken ← (← obj.getattr "session_token").optionString
  let expiresAfter ← (← obj.getattr "expires_after").optionDatetime
  .ok { accessKeyId, secretAccessKey, sessionToken, expiresAfter }

/-- `gcs_from_pyobj`. -/
def gcsFromPyobj (obj : CredentialObject) : Except String GcsBearerCredential := do
  let bearer ← (← obj.getattr "bearer").string
  let expiresAfter ← (← obj.getattr "expires_after").optionDatetime
  .ok { bearer, expiresAfter }

/-- `azure_from_pyobj`: the first of the three attributes that is there decides. -/
def azureFromPyobj (obj : CredentialObject) : Except String AzureRefreshableCredential := do
  let expiresAfter ← (← obj.getattr "expires_after").optionDatetime
  match obj.getattr "key" with
  | .ok key => .ok (.accessKey (← key.string) expiresAfter)
  | .error _ =>
    match obj.getattr "token" with
    | .ok token => .ok (.sasToken (← token.string) expiresAfter)
    | .error _ =>
      match obj.getattr "bearer" with
      | .ok bearer => .ok (.bearerToken (← bearer.string) expiresAfter)
      | .error _ =>
        .error "ValueError: icechunk Azure credential object had none of `key`, `token`, or `bearer`"

/-- `PythonCredentialsFetcher`. -/
structure PythonCredentialsFetcher (C : Type) where
  pickledFunction : List UInt8
  initial : Option C

/-- What the three `get` differ in. -/
structure Provider (C : Type) where
  name : String
  expiresAfter : C → Option Instant
  fromPyobj : CredentialObject → Except String C

def s3 : Provider S3StaticCredentials := ⟨"S3", (·.expiresAfter), s3FromPyobj⟩
def gcs : Provider GcsBearerCredential := ⟨"GCS", (·.expiresAfter), gcsFromPyobj⟩
def azure : Provider AzureRefreshableCredential := ⟨"Azure", (·.expiresAfter), azureFromPyobj⟩

section
variable {C Callable : Type}

/-- The refresh path of `get`. -/
def refresh (p : Provider C) (fetcher : PythonCredentialsFetcher C) (py : Interpreter Callable) :
    Attached Callable C :=
  .mapError (refreshError p.name) do
    let obj ← callPickled py fetcher.pickledFunction
    .lift (p.fromPyobj obj)

/-- `get`. -/
def Provider.get (p : Provider C) (fetcher : PythonCredentialsFetcher C) (py : Interpreter Callable) :
    Attached Callable C :=
  match fetcher.initial with
  | some creds => if isFresh py.now (p.expiresAfter creds) then pure creds else refresh p fetcher py
  | none => refresh p fetcher py

/-! ## One call -/

/-- The scattered credentials are there and safe to hand out. -/
def scattered (p : Provider C) (fetcher : PythonCredentialsFetcher C) (py : Interpreter Callable) : Bool :=
  fetcher.initial.any fun creds => isFresh py.now (p.expiresAfter creds)

theorem isFresh_iff {now : Instant} {expiresAfter : Option Instant} :
    isFresh now expiresAfter = true ↔
      ∀ expiry, expiresAfter = some expiry → now + seconds refreshBufferSecs < expiry := by
  cases expiresAfter with
  | none => simp [isFresh]
  | some expiry => simp [isFresh]

/-- What was safe to hand out late was so before. -/
theorem isFresh_antitone {now later : Instant} (h : now ≤ later) {expiresAfter : Option Instant}
    (hfresh : isFresh later expiresAfter = true) : isFresh now expiresAfter = true := by
  rw [isFresh_iff] at hfresh ⊢
  intro expiry hexpiry
  exact Int.lt_of_le_of_lt (Int.add_le_add_right h _) (hfresh expiry hexpiry)

theorem get_scattered {p : Provider C} {fetcher : PythonCredentialsFetcher C} {py : Interpreter Callable}
    (h : scattered p fetcher py = true) :
    ∃ creds, fetcher.initial = some creds ∧ p.get fetcher py = ⟨[], .ok creds⟩ ∧
      ∀ expiry, p.expiresAfter creds = some expiry → py.now + seconds refreshBufferSecs < expiry := by
  obtain ⟨creds, hinitial, hfresh⟩ := (Option.any_eq_true _ _).1 h
  refine ⟨creds, hinitial, ?_, isFresh_iff.1 hfresh⟩
  simp only [Provider.get, hinitial, hfresh, if_true]
  rfl

theorem get_refreshed {p : Provider C} {fetcher : PythonCredentialsFetcher C} {py : Interpreter Callable}
    (h : scattered p fetcher py = false) : p.get fetcher py = refresh p fetcher py := by
  unfold Provider.get
  unfold scattered at h
  cases hinitial : fetcher.initial with
  | none => rfl
  | some creds =>
    rw [hinitial, Option.any_some] at h
    simp only [h, Bool.false_eq_true, if_false]

/-- A refresh: the stored callable is unpickled and called, and its result read as
credentials. The first of these steps that fails is what the provider's error reports. -/
inductive Refreshed (p : Provider C) (pickled : List UInt8) (py : Interpreter Callable) :
    Attached Callable C → Prop where
  | noPickle {err : String} : py.importPickle = .error err →
      Refreshed p pickled py ⟨[.importPickle], .error (refreshError p.name err)⟩
  | notUnpickled {err : String} : py.importPickle = .ok () → py.loads pickled = .error err →
      Refreshed p pickled py ⟨[.importPickle, .loads pickled], .error (refreshError p.name err)⟩
  | raised {callable : Callable} {err : String} : py.importPickle = .ok () → py.loads pickled = .ok callable →
      py.call0 callable = .error err →
      Refreshed p pickled py ⟨[.importPickle, .loads pickled, .call0 callable], .error (refreshError p.name err)⟩
  | notCredentials {callable : Callable} {obj : CredentialObject} {err : String} : py.importPickle = .ok () →
      py.loads pickled = .ok callable → py.call0 callable = .ok obj → p.fromPyobj obj = .error err →
      Refreshed p pickled py ⟨[.importPickle, .loads pickled, .call0 callable], .error (refreshError p.name err)⟩
  | fetched {callable : Callable} {obj : CredentialObject} {creds : C} : py.importPickle = .ok () →
      py.loads pickled = .ok callable → py.call0 callable = .ok obj → p.fromPyobj obj = .ok creds →
      Refreshed p pickled py ⟨[.importPickle, .loads pickled, .call0 callable], .ok creds⟩

theorem refresh_refreshed (p : Provider C) (fetcher : PythonCredentialsFetcher C) (py : Interpreter Callable) :
    Refreshed p fetcher.pickledFunction py (refresh p fetcher py) := by
  unfold refresh callPickled
  simp only [Bind.bind, Attached.bind, Attached.call, Attached.lift, Attached.mapError]
  cases hpickle : py.importPickle with
  | error err => exact .noPickle hpickle
  | ok u =>
    cases hloads : py.loads fetcher.pickledFunction with
    | error err => exact .notUnpickled hpickle hloads
    | ok callable =>
      cases hcall : py.call0 callable with
      | error err =>
        simp only [hcall]
        exact .raised hpickle hloads hcall
      | ok obj =>
        cases hcreds : p.fromPyobj obj with
        | error err =>
          simp only [hcall, hcreds]
          exact .notCredentials hpickle hloads hcall hcreds
        | ok creds =>
          simp only [hcall, hcreds]
          exact .fetched hpickle hloads hcall hcreds

/-! ## A run of calls -/

end

/-- Credentials that expire after five minutes. -/
def scatteredFetcher : PythonCredentialsFetcher GcsBearerCredential :=
  ⟨[128, 4], some ⟨"ya29.first".toList, some (seconds 300)⟩⟩

/-- An interpreter whose callable returns other credentials without an expiry. -/
def refreshingAt (now : Instant) : Interpreter Unit where
  now := now
  importPickle := .ok ()
  loads _ := .ok ()
  call0 _ := .ok ⟨fun name =>
    if name = "bearer" then .ok ⟨.ok "ya29.second".toList, .ok (some "ya29.second".toList), .error "TypeError"⟩
    else .ok ⟨.error "TypeError", .ok none, .ok none⟩⟩

/-- At exactly 180 s before the expiry the callable runs. -/
example : ([refreshingAt 0, refreshingAt (seconds 119), refreshingAt (seconds 120)].map fun py =>
    ((gcs.get scatteredFetcher py).result.toOption.map (·.bearer), (gcs.get scatteredFetcher py).calls.length)) =
    [(some "ya29.first".toList, 0), (some "ya29.first".toList, 0), (some "ya29.second".toList, 3)] := by
  decide

end Rustytree
