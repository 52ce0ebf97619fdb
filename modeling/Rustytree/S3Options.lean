import Rustytree.Errors
/-!
# S3 storage options (`store.rs`)

The options reach the builder in the order of a `HashMap`, which may differ from
run to run. Each accepted option overwrites one field, and no two keys write
the same field, except `skip_signature` and its alias `anon`: only with both of
them and two different values does the order show.
-/

namespace Rustytree.S3Options

variable {R S : Type}

/-! ## The source -/

/-- `AmazonS3Builder`: the fields that the options set, and all others. Each
setter overwrites its own field. -/
structure AmazonS3Builder (R : Type) where
  region : Option String
  endpoint : Option String
  accessKeyId : Option String
  secretAccessKey : Option String
  token : Option String
  allowHttp : Bool
  skipSignature : Bool
  others : R
  deriving DecidableEq

namespace AmazonS3Builder

def withRegion (builder : AmazonS3Builder R) (value : String) : AmazonS3Builder R :=
  { builder with region := some value }

def withEndpoint (builder : AmazonS3Builder R) (value : String) : AmazonS3Builder R :=
  { builder with endpoint := some value }

def withAccessKeyId (builder : AmazonS3Builder R) (value : String) : AmazonS3Builder R :=
  { builder with accessKeyId := some value }

def withSecretAccessKey (builder : AmazonS3Builder R) (value : String) : AmazonS3Builder R :=
  { builder with secretAccessKey := some value }

def withToken (builder : AmazonS3Builder R) (value : String) : AmazonS3Builder R :=
  { builder with token := some value }

def withAllowHttp (builder : AmazonS3Builder R) (value : Bool) : AmazonS3Builder R :=
  { builder with allowHttp := value }

def withSkipSignature (builder : AmazonS3Builder R) (value : Bool) : AmazonS3Builder R :=
  { builder with skipSignature := value }

end AmazonS3Builder

/-- `bool_opt`. For printable text `quote` is Rust's `{:?}`. -/
def boolOpt (key value : String) : Except RustytreeError Bool :=
  match value with
  | "true" | "True" | "1" | "yes" => .ok true
  | "false" | "False" | "0" | "no" => .ok false
  | other => .error (.invalidInput s!"s3 storage option `{key}` expects a boolean, got {other.quote}")

/-- `apply_s3_option`. -/
def applyS3Option (builder : AmazonS3Builder R) (key value : String) : Except RustytreeError (AmazonS3Builder R) :=
  match key with
  | "region" => .ok (builder.withRegion value)
  | "endpoint" => .ok (builder.withEndpoint value)
  | "access_key_id" => .ok (builder.withAccessKeyId value)
  | "secret_access_key" => .ok (builder.withSecretAccessKey value)
  | "session_token" => .ok (builder.withToken value)
  | "allow_http" => (boolOpt key value).map builder.withAllowHttp
  -- `anon` is the fsspec spelling.
  | "skip_signature" | "anon" => (boolOpt key value).map builder.withSkipSignature
  | other => .error (.invalidInput s!"unknown s3 storage option: `{other}`")

/-- The loop over the options, in the order in which they come. -/
def applyS3Options (builder : AmazonS3Builder R) : List (String × String) → Except RustytreeError (AmazonS3Builder R)
  | [] => .ok builder
  | (key, value) :: options =>
    match applyS3Option builder key value with
    | .error err => .error err
    | .ok builder => applyS3Options builder options

/-- The URL that names bucket and prefix. -/
def s3Url (bucket pathPrefix : String) : String :=
  if pathPrefix.isEmpty then s!"s3://{bucket}" else s!"s3://{bucket}/{pathPrefix}"

/-- `build_vanilla_s3`, with the options in the order in which the map yields
them. `from_env`, `with_url` and `build` are the object store's. -/
def buildVanillaS3 (fromEnv : AmazonS3Builder R) (withUrl : AmazonS3Builder R → String → AmazonS3Builder R)
    (build : AmazonS3Builder R → Except String S) (bucket pathPrefix : String) (options : List (String × String)) :
    Except RustytreeError S :=
  match applyS3Options (withUrl fromEnv (s3Url bucket pathPrefix)) options with
  | .error err => .error err
  | .ok builder =>
    match build builder with
    | .error err => .error (.other s!"failed to build S3 store for {s3Url bucket pathPrefix}: {err}")
    | .ok store => .ok store

/-- A `HashMap<String, String>`: entries with distinct keys, in no order of their own. -/
structure StorageOptions where
  entries : List (String × String)
  nodup : (entries.map (·.1)).Nodup

/-- Both fail, or both succeed with the same builder. -/
def SameOutcome (a b : Except RustytreeError (AmazonS3Builder R)) : Prop := a.toOption = b.toOption

/-! ## What an option does -/

/-- The boolean that a value reads. -/
def boolValue (value : String) : Option Bool :=
  if value ∈ ["true", "True", "1", "yes"] then some true
  else if value ∈ ["false", "False", "0", "no"] then some false
  else none

theorem boolOpt_toOption (key value : String) : (boolOpt key value).toOption = boolValue value := by
  unfold boolOpt
  split <;> try rfl
  next => simp_all [boolValue, Except.toOption]

/-- A field with the value to write into it. -/
inductive Setting where
  | region (value : String)
  | endpoint (value : String)
  | accessKeyId (value : String)
  | secretAccessKey (value : String)
  | token (value : String)
  | allowHttp (value : Bool)
  | skipSignature (value : Bool)

def Setting.apply : Setting → AmazonS3Builder R → AmazonS3Builder R
  | .region value, builder => builder.withRegion value
  | .endpoint value, builder => builder.withEndpoint value
  | .accessKeyId value, builder => builder.withAccessKeyId value
  | .secretAccessKey value, builder => builder.withSecretAccessKey value
  | .token value, builder => builder.withToken value
  | .allowHttp value, builder => builder.withAllowHttp value
  | .skipSignature value, builder => builder.withSkipSignature value

/-- The keys that write the field. -/
def Setting.keys : Setting → List String
  | .region _ => ["region"]
  | .endpoint _ => ["endpoint"]
  | .accessKeyId _ => ["access_key_id"]
  | .secretAccessKey _ => ["secret_access_key"]
  | .token _ => ["session_token"]
  | .allowHttp _ => ["allow_http"]
  | .skipSignature _ => ["skip_signature", "anon"]

/-- The setting of an accepted option. -/
def readSetting (key value : String) : Option Setting :=
  match key with
  | "region" => some (.region value)
  | "endpoint" => some (.endpoint value)
  | "access_key_id" => some (.accessKeyId value)
  | "secret_access_key" => some (.secretAccessKey value)
  | "session_token" => some (.token value)
  | "allow_http" => (boolValue value).map .allowHttp
  | "skip_signature" | "anon" => (boolValue value).map .skipSignature
  | _ => none

theorem map_toOption {ε α β : Type} (f : α → β) (m : Except ε α) : (m.map f).toOption = m.toOption.map f := by
  cases m <;> rfl

/-- An option writes its setting or fails, whatever the builder. -/
theorem applyS3Option_toOption (builder : AmazonS3Builder R) (key value : String) :
    (applyS3Option builder key value).toOption = (readSetting key value).map (·.apply builder) := by
  unfold applyS3Option readSetting
  split <;> first | rfl | (rw [map_toOption, boolOpt_toOption, Option.map_map]; rfl)

theorem readSetting_key {key value : String} {setting : Setting} (h : readSetting key value = some setting) :
    key ∈ setting.keys := by
  unfold readSetting at h
  split at h <;> first | (cases h; done) | (cases h; simp [Setting.keys]) |
    (obtain ⟨b, -, rfl⟩ := Option.map_eq_some_iff.1 h; simp [Setting.keys])

/-- The key is known, and the value of a boolean option is a boolean. -/
def Accepted (option : String × String) : Prop :=
  option.1 ∈ ["region", "endpoint", "access_key_id", "secret_access_key", "session_token"] ∨
    option.1 ∈ ["allow_http", "skip_signature", "anon"] ∧ (boolValue option.2).isSome

instance (option : String × String) : Decidable (Accepted option) := inferInstanceAs (Decidable (_ ∨ _ ∧ _))

theorem accepted_iff (option : String × String) : Accepted option ↔ (readSetting option.1 option.2).isSome := by
  unfold Accepted readSetting
  split <;> simp_all

/-- The setting of an option that is accepted. -/
def settingOf (option : String × String) : Setting := (readSetting option.1 option.2).getD (.allowHttp false)

theorem readSetting_settingOf {option : String × String} (h : Accepted option) :
    readSetting option.1 option.2 = some (settingOf option) := by
  obtain ⟨setting, hsetting⟩ := Option.isSome_iff_exists.1 ((accepted_iff option).1 h)
  rw [settingOf, hsetting, Option.getD_some]

/-- A step of the loop. -/
theorem applyS3Options_cons (builder : AmazonS3Builder R) (option : String × String)
    (options : List (String × String)) :
    (applyS3Options builder (option :: options)).toOption =
      (readSetting option.1 option.2).bind fun setting =>
        (applyS3Options (setting.apply builder) options).toOption := by
  have hstep := applyS3Option_toOption builder option.1 option.2
  rw [applyS3Options]
  cases happly : applyS3Option builder option.1 option.2 with
  | error err =>
    rw [happly] at hstep
    rw [Option.map_eq_none_iff.1 hstep.symm]
    rfl
  | ok builder' =>
    rw [happly] at hstep
    obtain ⟨setting, hsetting, rfl⟩ := Option.map_eq_some_iff.1 hstep.symm
    rw [hsetting]
    rfl

/-- Accepted options are all written, in their order. -/
theorem applyS3Options_accepted {options : List (String × String)} (h : ∀ option ∈ options, Accepted option)
    (builder : AmazonS3Builder R) :
    (applyS3Options builder options).toOption =
      some (options.foldl (fun builder option => (settingOf option).apply builder) builder) := by
  induction options generalizing builder with
  | nil => rfl
  | cons option options ih =>
    rw [applyS3Options_cons, readSetting_settingOf (h option List.mem_cons_self), Option.bind_some,
      ih fun o ho => h o (List.mem_cons_of_mem option ho)]
    rfl

/-- One option that is not accepted fails the loop, wherever it stands. -/
theorem applyS3Options_rejected {options : List (String × String)} (h : ∃ option ∈ options, ¬ Accepted option)
    (builder : AmazonS3Builder R) : (applyS3Options builder options).toOption = none := by
  induction options generalizing builder with
  | nil =>
    obtain ⟨option, hmem, -⟩ := h
    cases hmem
  | cons option options ih =>
    rw [applyS3Options_cons]
    cases hread : readSetting option.1 option.2 with
    | none => rfl
    | some setting =>
      rw [Option.bind_some]
      refine ih ?_ _
      obtain ⟨rejected, hmem, hnot⟩ := h
      rcases List.mem_cons.1 hmem with rfl | hmem
      · exact absurd ((accepted_iff _).2 (by rw [hread]; rfl)) hnot
      · exact ⟨rejected, hmem, hnot⟩

/-! ## Which settings commute -/

/-- Settings of different keys commute, unless both are of the signature. -/
theorem Setting.comm_or {a b : Setting} {key key' : String} (ha : key ∈ a.keys) (hb : key' ∈ b.keys)
    (hne : key ≠ key') :
    (∀ builder : AmazonS3Builder R, b.apply (a.apply builder) = a.apply (b.apply builder)) ∨
      ∃ v w, a = .skipSignature v ∧ b = .skipSignature w := by
  cases a <;> cases b <;>
    first
      | exact .inl fun _ => rfl
      | exact .inr ⟨_, _, rfl, rfl⟩
      | simp_all [Setting.keys]

/-- Every option is accepted, and `skip_signature` and `anon` are both given, with
different booleans. -/
def SignatureConflict (options : StorageOptions) : Prop :=
  (∀ option ∈ options.entries, Accepted option) ∧
    ∃ v w, ("skip_signature", v) ∈ options.entries ∧ ("anon", w) ∈ options.entries ∧ boolValue v ≠ boolValue w

theorem signature_option {option : String × String} {v : Bool}
    (h : readSetting option.1 option.2 = some (.skipSignature v)) :
    (option.1 = "skip_signature" ∨ option.1 = "anon") ∧ boolValue option.2 = some v := by
  unfold readSetting at h
  split at h <;> simp_all

/-- Two options that write the signature write the same without a conflict. -/
theorem signature_eq {options : StorageOptions} (h : ¬ SignatureConflict options)
    (hall : ∀ option ∈ options.entries, Accepted option) {a b : String × String} (ha : a ∈ options.entries)
    (hb : b ∈ options.entries) (hkey : a.1 ≠ b.1) {v w : Bool}
    (hv : readSetting a.1 a.2 = some (.skipSignature v)) (hw : readSetting b.1 b.2 = some (.skipSignature w)) :
    v = w := by
  obtain ⟨hkeya, hv⟩ := signature_option hv
  obtain ⟨hkeyb, hw⟩ := signature_option hw
  obtain ⟨keya, valuea⟩ := a
  obtain ⟨keyb, valueb⟩ := b
  by_contra hne
  have hdiffer : boolValue valuea ≠ boolValue valueb := by
    rw [hv, hw]
    simpa using hne
  rcases hkeya with rfl | rfl
  · rcases hkeyb with rfl | rfl
    · exact hkey rfl
    · exact h ⟨hall, valuea, valueb, ha, hb, hdiffer⟩
  · rcases hkeyb with rfl | rfl
    · exact h ⟨hall, valueb, valuea, hb, ha, hdiffer.symm⟩
    · exact hkey rfl

/-- Without a conflict, accepted options of a map commute. -/
theorem settings_comm {options : StorageOptions} (h : ¬ SignatureConflict options)
    (hall : ∀ option ∈ options.entries, Accepted option) {a b : String × String} (ha : a ∈ options.entries)
    (hb : b ∈ options.entries) (builder : AmazonS3Builder R) :
    (settingOf b).apply ((settingOf a).apply builder) = (settingOf a).apply ((settingOf b).apply builder) := by
  by_cases hab : a = b
  · rw [hab]
  have hkey : a.1 ≠ b.1 := fun heq => hab (List.inj_on_of_nodup_map options.nodup ha hb heq)
  have hreada := readSetting_settingOf (hall a ha)
  have hreadb := readSetting_settingOf (hall b hb)
  have hkeya := readSetting_key hreada
  have hkeyb := readSetting_key hreadb
  rcases Setting.comm_or hkeya hkeyb hkey with hcomm | ⟨v, w, hv, hw⟩
  · exact hcomm builder
  · rw [hv] at hreada
    rw [hw] at hreadb
    rw [hv, hw, signature_eq h hall ha hb hkey hreada hreadb]

/-! ## When the order shows -/

/-- Without a conflict, all orders have the same outcome. -/
theorem sameOutcome_of_perm {options : StorageOptions} (h : ¬ SignatureConflict options) (base : AmazonS3Builder R)
    {order₁ order₂ : List (String × String)} (h₁ : order₁.Perm options.entries) (h₂ : order₂.Perm options.entries) :
    SameOutcome (applyS3Options base order₁) (applyS3Options base order₂) := by
  unfold SameOutcome
  by_cases hall : ∀ option ∈ options.entries, Accepted option
  · rw [applyS3Options_accepted (fun o ho => hall o (h₁.mem_iff.1 ho)),
      applyS3Options_accepted (fun o ho => hall o (h₂.mem_iff.1 ho))]
    congr 1
    refine (h₁.trans h₂.symm).foldl_eq' ?_ base
    intro a ha b hb builder
    exact settings_comm h hall (h₁.mem_iff.1 ha) (h₁.mem_iff.1 hb) builder
  · simp only [not_forall, exists_prop] at hall
    obtain ⟨rejected, hmem, hnot⟩ := hall
    rw [applyS3Options_rejected ⟨rejected, h₁.mem_iff.2 hmem, hnot⟩,
      applyS3Options_rejected ⟨rejected, h₂.mem_iff.2 hmem, hnot⟩]

/-- The setting written last stays. -/
theorem applyS3Options_last {options : List (String × String)} {last : String × String}
    (h : ∀ option ∈ options ++ [last], Accepted option) {v : Bool} (hlast : settingOf last = .skipSignature v)
    (base : AmazonS3Builder R) :
    ((applyS3Options base (options ++ [last])).toOption).map (·.skipSignature) = some v := by
  rw [applyS3Options_accepted h, List.foldl_append, List.foldl_cons, List.foldl_nil, hlast]
  rfl

theorem settingOf_signature {key value : String} (hkey : key = "skip_signature" ∨ key = "anon")
    (h : Accepted (key, value)) : ∃ v, boolValue value = some v ∧ settingOf (key, value) = .skipSignature v := by
  have hread : readSetting key value = (boolValue value).map .skipSignature := by
    rcases hkey with rfl | rfl
    · rfl
    · rfl
  have hsetting : (boolValue value).map .skipSignature = some (settingOf (key, value)) :=
    hread.symm.trans (readSetting_settingOf h)
  obtain ⟨v, hv, heq⟩ := Option.map_eq_some_iff.1 hsetting
  exact ⟨v, hv, heq.symm⟩

/-- With a conflict, the one that comes last decides. -/
theorem exists_orders {options : StorageOptions} (h : SignatureConflict options) (base : AmazonS3Builder R) :
    ∃ order₁ order₂, order₁.Perm options.entries ∧ order₂.Perm options.entries ∧
      ¬ SameOutcome (applyS3Options base order₁) (applyS3Options base order₂) := by
  obtain ⟨hall, v, w, hskip, hanon, hne⟩ := h
  have hanon' : ("anon", w) ∈ options.entries.erase ("skip_signature", v) := by
    rw [List.mem_erase_of_ne (by simp)]
    exact hanon
  let rest := (options.entries.erase ("skip_signature", v)).erase ("anon", w)
  have hperm : options.entries.Perm (("skip_signature", v) :: ("anon", w) :: rest) :=
    (List.perm_cons_erase hskip).trans ((List.perm_cons_erase hanon').cons _)
  have h₁ : (rest ++ [("skip_signature", v)] ++ [("anon", w)]).Perm options.entries := by
    rw [List.append_assoc]
    exact List.perm_append_comm.trans hperm.symm
  have h₂ : (rest ++ [("anon", w)] ++ [("skip_signature", v)]).Perm options.entries := by
    rw [List.append_assoc]
    exact List.perm_append_comm.trans ((List.Perm.swap _ _ rest).trans hperm.symm)
  obtain ⟨b, hv, hsetskip⟩ := settingOf_signature (.inl rfl) (hall _ hskip)
  obtain ⟨c, hw, hsetanon⟩ := settingOf_signature (.inr rfl) (hall _ hanon)
  refine ⟨_, _, h₁, h₂, ?_⟩
  intro hsame
  have hlast := congrArg (Option.map (·.skipSignature)) hsame
  rw [applyS3Options_last (fun o ho => hall o (h₁.mem_iff.1 ho)) hsetanon,
    applyS3Options_last (fun o ho => hall o (h₂.mem_iff.1 ho)) hsetskip] at hlast
  rw [hv, hw] at hne
  exact hne hlast.symm

/-- From any base builder, all orders of the options have the same outcome
exactly if the two spellings of the signature option do not conflict. -/
theorem order_independent_iff (options : StorageOptions) (base : AmazonS3Builder R) :
    (∀ order₁ order₂ : List (String × String), order₁.Perm options.entries → order₂.Perm options.entries →
      SameOutcome (applyS3Options base order₁) (applyS3Options base order₂)) ↔ ¬ SignatureConflict options := by
  constructor
  · intro h hconflict
    obtain ⟨order₁, order₂, h₁, h₂, hdiffer⟩ := exists_orders hconflict base
    exact hdiffer (h order₁ order₂ h₁ h₂)
  · intro h order₁ order₂ h₁ h₂
    exact sameOutcome_of_perm h base h₁ h₂

/-- A builder as an empty environment leaves it. -/
def emptyBuilder : AmazonS3Builder Unit := ⟨none, none, none, none, none, false, false, ()⟩

/-- `skip_signature` and `anon` with different values: the order decides whether requests are signed. -/
theorem order_decides_signature :
    [("skip_signature", "true"), ("anon", "false")].Perm [("anon", "false"), ("skip_signature", "true")] ∧
    (applyS3Options emptyBuilder [("skip_signature", "true"), ("anon", "false")]).toOption =
      some { emptyBuilder with skipSignature := false } ∧
    (applyS3Options emptyBuilder [("anon", "false"), ("skip_signature", "true")]).toOption =
      some { emptyBuilder with skipSignature := true } := by
  decide

/-! ## What the options configure -/

/-- A field after the options: the value of one of those that write it, or, if
there are none, as it was before. -/
def Written {V : Type} (keys : List String) (read : String → Option V) (options : List (String × String))
    (before after : V) : Prop :=
  (∃ option ∈ options, option.1 ∈ keys ∧ read option.2 = some after) ∨
    (∀ option ∈ options, option.1 ∉ keys) ∧ after = before

def textValue (value : String) : Option (Option String) := some (some value)

/-- Every field is that of the options, or else the base's. -/
structure Configures (options : List (String × String)) (base builder : AmazonS3Builder R) : Prop where
  region : Written ["region"] textValue options base.region builder.region
  endpoint : Written ["endpoint"] textValue options base.endpoint builder.endpoint
  accessKeyId : Written ["access_key_id"] textValue options base.accessKeyId builder.accessKeyId
  secretAccessKey : Written ["secret_access_key"] textValue options base.secretAccessKey builder.secretAccessKey
  token : Written ["session_token"] textValue options base.token builder.token
  allowHttp : Written ["allow_http"] boolValue options base.allowHttp builder.allowHttp
  skipSignature : Written ["skip_signature", "anon"] boolValue options base.skipSignature builder.skipSignature
  others : builder.others = base.others

section
variable {V : Type} {keys : List String} {read : String → Option V} {option : String × String}
  {options : List (String × String)}

theorem Written.refl (a : V) : Written keys read [] a a := by
  right
  refine ⟨?_, rfl⟩
  rintro option ⟨⟩

/-- What the later options leave, the first one decides. -/
theorem Written.cons {a b c : V} (hfirst : Written keys read [option] a b) (hrest : Written keys read options b c) :
    Written keys read (option :: options) a c := by
  rcases hrest with ⟨later, hmem, hlater⟩ | ⟨hnone, rfl⟩
  · exact .inl ⟨later, List.mem_cons_of_mem option hmem, hlater⟩
  rcases hfirst with ⟨first, hmem, hfirst⟩ | ⟨hnot, rfl⟩
  · rw [List.mem_singleton] at hmem
    subst hmem
    exact .inl ⟨first, List.mem_cons_self, hfirst⟩
  · right
    refine ⟨?_, rfl⟩
    intro o ho
    rcases List.mem_cons.1 ho with rfl | ho
    · exact hnot o (List.mem_singleton_self o)
    · exact hnone o ho

theorem Written.of_mem_iff {options' : List (String × String)} (h : ∀ option, option ∈ options ↔ option ∈ options')
    {a b : V} (hwritten : Written keys read options a b) : Written keys read options' a b := by
  unfold Written
  simp only [← h]
  exact hwritten

variable {base mid builder : AmazonS3Builder R}

theorem Configures.refl (base : AmazonS3Builder R) : Configures [] base base :=
  ⟨.refl _, .refl _, .refl _, .refl _, .refl _, .refl _, .refl _, rfl⟩

theorem Configures.cons (hfirst : Configures [option] base mid) (hrest : Configures options mid builder) :
    Configures (option :: options) base builder where
  region := hfirst.region.cons hrest.region
  endpoint := hfirst.endpoint.cons hrest.endpoint
  accessKeyId := hfirst.accessKeyId.cons hrest.accessKeyId
  secretAccessKey := hfirst.secretAccessKey.cons hrest.secretAccessKey
  token := hfirst.token.cons hrest.token
  allowHttp := hfirst.allowHttp.cons hrest.allowHttp
  skipSignature := hfirst.skipSignature.cons hrest.skipSignature
  others := hrest.others.trans hfirst.others

theorem Configures.of_mem_iff {options' : List (String × String)} (h : ∀ option, option ∈ options ↔ option ∈ options')
    (hconf : Configures options base builder) : Configures options' base builder where
  region := hconf.region.of_mem_iff h
  endpoint := hconf.endpoint.of_mem_iff h
  accessKeyId := hconf.accessKeyId.of_mem_iff h
  secretAccessKey := hconf.secretAccessKey.of_mem_iff h
  token := hconf.token.of_mem_iff h
  allowHttp := hconf.allowHttp.of_mem_iff h
  skipSignature := hconf.skipSignature.of_mem_iff h
  others := hconf.others

/-- One option writes its own field. -/
theorem configures_setting (h : Accepted option) (base : AmazonS3Builder R) :
    Configures [option] base ((settingOf option).apply base) := by
  obtain ⟨key, value⟩ := option
  have hread : readSetting key value = some (settingOf (key, value)) := readSetting_settingOf h
  generalize settingOf (key, value) = setting at hread
  unfold readSetting at hread
  split at hread
  case h_9 => cases hread
  case h_6 | h_7 | h_8 =>
    obtain ⟨b, hb, rfl⟩ := Option.map_eq_some_iff.1 hread
    constructor <;> simp [Written, Setting.apply, AmazonS3Builder.withAllowHttp, AmazonS3Builder.withSkipSignature, hb]
  all_goals
    cases hread
    constructor <;> simp [Written, textValue, Setting.apply, AmazonS3Builder.withRegion,
      AmazonS3Builder.withEndpoint, AmazonS3Builder.withAccessKeyId, AmazonS3Builder.withSecretAccessKey,
      AmazonS3Builder.withToken]

theorem applyS3Options_configures (h : ∀ option ∈ options, Accepted option) (base : AmazonS3Builder R) :
    ∃ builder, applyS3Options base options = .ok builder ∧ Configures options base builder := by
  induction options generalizing base with
  | nil => exact ⟨base, rfl, .refl base⟩
  | cons option options ih =>
    have hoption := h option List.mem_cons_self
    have hstep := applyS3Option_toOption base option.1 option.2
    rw [readSetting_settingOf hoption] at hstep
    have hoptions : ∀ o ∈ options, Accepted o := fun o ho => h o (List.mem_cons_of_mem option ho)
    obtain ⟨builder, hrest, hconf⟩ := ih hoptions ((settingOf option).apply base)
    refine ⟨builder, ?_, (configures_setting hoption base).cons hconf⟩
    cases happly : applyS3Option base option.1 option.2 with
    | error err =>
      rw [happly] at hstep
      cases hstep
    | ok mid =>
      rw [happly] at hstep
      cases hstep
      simp only [applyS3Options, happly, hrest]

/-- The error of an option that is not accepted. -/
def rejection (option : String × String) : RustytreeError :=
  if option.1 ∈ ["allow_http", "skip_signature", "anon"] then
    .invalidInput s!"s3 storage option `{option.1}` expects a boolean, got {option.2.quote}"
  else .invalidInput s!"unknown s3 storage option: `{option.1}`"

theorem boolOpt_rejected {key value : String} (h : ¬ (boolValue value).isSome) :
    boolOpt key value = .error (.invalidInput s!"s3 storage option `{key}` expects a boolean, got {value.quote}") := by
  unfold boolOpt
  split <;> first | rfl | exact absurd rfl h

theorem applyS3Option_rejected {builder : AmazonS3Builder R} (h : ¬ Accepted option) :
    applyS3Option builder option.1 option.2 = .error (rejection option) := by
  obtain ⟨key, value⟩ := option
  unfold applyS3Option rejection
  unfold Accepted at h
  split <;> simp_all [boolOpt_rejected, Except.map]

/-- The loop ends with the first option that is not accepted. -/
theorem applyS3Options_rejection (h : ∃ option ∈ options, ¬ Accepted option) (builder : AmazonS3Builder R) :
    ∃ option ∈ options, ¬ Accepted option ∧ applyS3Options builder options = .error (rejection option) := by
  induction options generalizing builder with
  | nil =>
    obtain ⟨option, hmem, -⟩ := h
    cases hmem
  | cons option options ih =>
    by_cases hoption : Accepted option
    · have hrest : ∃ o ∈ options, ¬ Accepted o := by
        obtain ⟨rejected, hmem, hnot⟩ := h
        rcases List.mem_cons.1 hmem with rfl | hmem
        · exact absurd hoption hnot
        · exact ⟨rejected, hmem, hnot⟩
      have hone : ∀ o ∈ [option], Accepted o := by simpa using hoption
      obtain ⟨mid, hmid, -⟩ := applyS3Options_configures hone builder
      obtain ⟨rejected, hmem, hnot, herr⟩ := ih hrest mid
      refine ⟨rejected, List.mem_cons_of_mem option hmem, hnot, ?_⟩
      unfold applyS3Options at hmid ⊢
      cases happly : applyS3Option builder option.1 option.2 with
      | error err => simp only [happly, reduceCtorEq] at hmid
      | ok next =>
        simp only [happly, applyS3Options, Except.ok.injEq] at hmid ⊢
        rw [hmid, herr]
    · exact ⟨option, List.mem_cons_self, hoption, by simp only [applyS3Options, applyS3Option_rejected hoption]⟩

end

end Rustytree.S3Options
