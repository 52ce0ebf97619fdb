import Rustytree.Lib.Split
import Rustytree.Paths
import Rustytree.S3Options
/-!
# Where to read from (`url.rs`)

A string names a local path or an S3 bucket with a prefix, or is rejected. The
URL that `build_vanilla_s3` makes of bucket and prefix is read back as them.
-/

namespace Rustytree
open Lib.Split

/-! ## The source -/

/-- `StoreSpec`. -/
inductive StoreSpec where
  | localFs (path : Str)
  | s3 (bucket keyPrefix : Str)
  deriving DecidableEq, Repr

/-- `trim_matches`. -/
def trimMatches (c : Char) (s : Str) : Str := trimEndMatches c (trimStartMatches c s)

/-- What follows `s3://`, cut at its first slash. -/
def bucketAndKeys (rest : Str) : Str × Str := (splitOnce ['/'] rest).getD (rest, [])

/-- `parse_store_spec`. -/
def parseStoreSpec (input : Str) : Except RustytreeError StoreSpec :=
  match input.dropPrefix? "file://".toList with
  | some rest => .ok (.localFs rest)
  | none =>
    match input.dropPrefix? "s3://".toList with
    | some rest =>
      let (bucket, keys) := bucketAndKeys rest
      if bucket = [] then .error (.invalidInput s!"s3 URL is missing a bucket name: {shown input}")
      else .ok (.s3 bucket (trimMatches '/' keys))
    | none =>
      if "://".toList <:+: input then
        let scheme := ((splitOnce "://".toList input).map (·.1)).getD []
        .error (.invalidInput s!"unsupported URL scheme `{shown scheme}://` in {shown input}; rustytree currently supports `file://` and `s3://` only")
      else .ok (.localFs input)

/-! ## What is accepted -/

/-- Neither end is a slash. -/
def Trimmed (s : Str) : Prop := '/' ∉ s.head? ∧ '/' ∉ s.getLast?

instance (s : Str) : Decidable (Trimmed s) := inferInstanceAs (Decidable (_ ∧ _))

/-- What may follow the bucket: nothing, or a slash and the prefix between more slashes. -/
def SpellsKeys (keyPrefix rest : Str) : Prop :=
  rest = [] ∧ keyPrefix = [] ∨
    ∃ l r, rest = '/' :: (l ++ keyPrefix ++ r) ∧ (∀ c ∈ l, c = '/') ∧ ∀ c ∈ r, c = '/'

/-- The input names the bucket and the prefix. -/
def SpellsS3 (bucket keyPrefix input : Str) : Prop :=
  bucket ≠ [] ∧ '/' ∉ bucket ∧ Trimmed keyPrefix ∧
    ∃ rest, input = "s3://".toList ++ (bucket ++ rest) ∧ SpellsKeys keyPrefix rest

/-- The input names the local path. -/
def SpellsLocal (path input : Str) : Prop := input = "file://".toList ++ path ∨ path = input ∧ ¬ "://".toList <:+: input

theorem trimMatches_eq_iff {s t : Str} :
    trimMatches '/' s = t ↔ Trimmed t ∧ ∃ l r, s = l ++ t ++ r ∧ (∀ c ∈ l, c = '/') ∧ ∀ c ∈ r, c = '/' := by
  have hends : (∀ c ∈ t.head?, (c == '/') = false) ∧ (∀ c ∈ t.getLast?, (c == '/') = false) ↔ Trimmed t := by
    simp only [beq_eq_false_iff_ne, Trimmed]
    exact and_congr ⟨fun h hc => h _ hc rfl, fun h c hc heq => h (heq ▸ hc)⟩
      ⟨fun h hc => h _ hc rfl, fun h c hc heq => h (heq ▸ hc)⟩
  unfold trimMatches trimEndMatches trimStartMatches
  rw [strip_eq_iff, ← hends]
  simp only [beq_iff_eq]
  constructor
  · rintro ⟨l, r, hs, hl, hr, hhead, hlast⟩
    exact ⟨⟨hhead, hlast⟩, l, r, hs, hl, hr⟩
  · rintro ⟨⟨hhead, hlast⟩, l, r, hs, hl, hr⟩
    exact ⟨l, r, hs, hl, hr, hhead, hlast⟩

theorem dropPrefix?_append (pre s : Str) : (pre ++ s).dropPrefix? pre = some s :=
  List.dropPrefix?_append_of_beq s (by simp)

theorem dropPrefix?_eq_none {pre s : Str} (h : ¬ pre <+: s) : s.dropPrefix? pre = none := by
  cases hs : s.dropPrefix? pre with
  | none => rfl
  | some rest =>
    obtain ⟨pre', rfl, hpre⟩ := List.dropPrefix?_eq_some_iff.1 hs
    exact absurd ⟨rest, by rw [eq_of_beq hpre]⟩ h

theorem parseStoreSpec_file (rest : Str) : parseStoreSpec ("file://".toList ++ rest) = .ok (.localFs rest) := by
  unfold parseStoreSpec
  rw [dropPrefix?_append]

theorem parseStoreSpec_s3 (rest : Str) :
    parseStoreSpec ("s3://".toList ++ rest) =
      let input := "s3://".toList ++ rest
      if (bucketAndKeys rest).1 = [] then .error (.invalidInput s!"s3 URL is missing a bucket name: {shown input}")
      else .ok (.s3 (bucketAndKeys rest).1 (trimMatches '/' (bucketAndKeys rest).2)) := by
  have hfile : ¬ "file://".toList <+: "s3://".toList ++ rest := by
    rintro ⟨more, h⟩
    simp at h
  unfold parseStoreSpec
  rw [dropPrefix?_eq_none hfile, dropPrefix?_append]

theorem parseStoreSpec_other {input : Str} (hfile : ¬ "file://".toList <+: input) (hs3 : ¬ "s3://".toList <+: input) :
    (∃ msg, parseStoreSpec input = .error (.invalidInput msg)) ∧ "://".toList <:+: input ∨
      parseStoreSpec input = .ok (.localFs input) ∧ ¬ "://".toList <:+: input := by
  unfold parseStoreSpec
  rw [dropPrefix?_eq_none hfile, dropPrefix?_eq_none hs3]
  by_cases h : "://".toList <:+: input
  · exact .inl ⟨⟨_, if_pos h⟩, h⟩
  · exact .inr ⟨if_neg h, h⟩

theorem bucketAndKeys_iff {rest bucket keyPrefix : Str} :
    (bucketAndKeys rest).1 = bucket ∧ trimMatches '/' (bucketAndKeys rest).2 = keyPrefix ↔
      '/' ∉ bucket ∧ Trimmed keyPrefix ∧ ∃ more, rest = bucket ++ more ∧ SpellsKeys keyPrefix more := by
  unfold bucketAndKeys
  cases hsplit : splitOnce ['/'] rest with
  | none =>
    have hno := splitOnce_singleton_none.1 hsplit
    rw [Option.getD_none]
    constructor
    · rintro ⟨rfl, rfl⟩
      exact ⟨hno, by simp [Trimmed, trimMatches, trimStartMatches, trimEndMatches], [], by simp, .inl ⟨rfl, rfl⟩⟩
    · rintro ⟨-, -, more, rfl, ⟨rfl, rfl⟩ | ⟨l, r, rfl, -, -⟩⟩
      · exact ⟨by simp, rfl⟩
      · simp at hno
  | some parts =>
    obtain ⟨before, after⟩ := parts
    obtain ⟨rfl, hbefore⟩ := splitOnce_singleton_some.1 hsplit
    rw [Option.getD_some, trimMatches_eq_iff]
    constructor
    · rintro ⟨rfl, htrim, l, r, rfl, hl, hr⟩
      exact ⟨hbefore, htrim, _, rfl, .inr ⟨l, r, rfl, hl, hr⟩⟩
    · rintro ⟨hno, htrim, more, heq, ⟨rfl, rfl⟩ | ⟨l, r, rfl, hl, hr⟩⟩
      · rw [List.append_nil] at heq
        exact absurd (heq ▸ List.mem_append_right before List.mem_cons_self) hno
      · have hparts := splitOnce_singleton_some.2 ⟨heq, hno⟩
        rw [hsplit] at hparts
        obtain ⟨rfl, rfl⟩ := Prod.mk.inj (Option.some.inj hparts)
        exact ⟨rfl, htrim, l, r, rfl, hl, hr⟩

theorem parseStoreSpec_s3_iff {input bucket keyPrefix : Str} :
    parseStoreSpec input = .ok (.s3 bucket keyPrefix) ↔ SpellsS3 bucket keyPrefix input := by
  by_cases hs3 : "s3://".toList <+: input
  · obtain ⟨rest, rfl⟩ := hs3
    have hsome : parseStoreSpec ("s3://".toList ++ rest) = .ok (.s3 bucket keyPrefix) ↔
        bucket ≠ [] ∧ (bucketAndKeys rest).1 = bucket ∧ trimMatches '/' (bucketAndKeys rest).2 = keyPrefix := by
      rw [parseStoreSpec_s3]
      split
      next h => exact iff_of_false (by simp) fun hparts => hparts.1 (hparts.2.1.symm.trans h)
      next h =>
        rw [Except.ok.injEq, StoreSpec.s3.injEq]
        constructor
        · rintro ⟨rfl, rfl⟩
          exact ⟨h, rfl, rfl⟩
        · exact fun hparts => hparts.2
    rw [hsome, bucketAndKeys_iff, SpellsS3]
    simp only [List.append_cancel_left_eq]
  · have hno : ¬ SpellsS3 bucket keyPrefix input := fun h => hs3 (h.2.2.2.elim fun rest hrest => ⟨_, hrest.1.symm⟩)
    rw [iff_false_right hno]
    intro h
    by_cases hfile : "file://".toList <+: input
    · obtain ⟨rest, rfl⟩ := hfile
      rw [parseStoreSpec_file] at h
      cases h
    · rcases parseStoreSpec_other hfile hs3 with ⟨⟨msg, herr⟩, -⟩ | ⟨hok, -⟩
      · rw [herr] at h
        cases h
      · rw [hok] at h
        cases h

theorem parseStoreSpec_local_iff {input path : Str} :
    parseStoreSpec input = .ok (.localFs path) ↔ SpellsLocal path input := by
  by_cases hfile : "file://".toList <+: input
  · obtain ⟨rest, rfl⟩ := hfile
    have hscheme : "://".toList <:+: "file://".toList ++ rest := ⟨"file".toList, rest, by simp⟩
    rw [parseStoreSpec_file, Except.ok.injEq, StoreSpec.localFs.injEq, SpellsLocal, List.append_cancel_left_eq,
      or_iff_left fun h => h.2 hscheme]
  · have hno : ¬ input = "file://".toList ++ path := fun h => hfile ⟨path, h.symm⟩
    rw [SpellsLocal, or_iff_right hno]
    by_cases hs3 : "s3://".toList <+: input
    · obtain ⟨rest, rfl⟩ := hs3
      have hscheme : "://".toList <:+: "s3://".toList ++ rest := ⟨"s3".toList, rest, by simp⟩
      rw [iff_false_right fun h => h.2 hscheme, parseStoreSpec_s3]
      split <;> simp
    · rcases parseStoreSpec_other hfile hs3 with ⟨⟨msg, herr⟩, hscheme⟩ | ⟨hok, hscheme⟩
      · rw [herr]
        exact iff_of_false (by simp) fun h => h.2 hscheme
      · rw [hok, Except.ok.injEq, StoreSpec.localFs.injEq, and_iff_left hscheme, eq_comm]

theorem parseStoreSpec_error {input : Str} {err : RustytreeError} (h : parseStoreSpec input = .error err) :
    ∃ msg, err = .invalidInput msg := by
  by_cases hfile : "file://".toList <+: input
  · obtain ⟨rest, rfl⟩ := hfile
    rw [parseStoreSpec_file] at h
    cases h
  · by_cases hs3 : "s3://".toList <+: input
    · obtain ⟨rest, rfl⟩ := hs3
      rw [parseStoreSpec_s3] at h
      split at h
      · cases h
        exact ⟨_, rfl⟩
      · cases h
    · rcases parseStoreSpec_other hfile hs3 with ⟨⟨msg, herr⟩, -⟩ | ⟨hok, -⟩
      · rw [herr] at h
        cases h
        exact ⟨msg, rfl⟩
      · rw [hok] at h
        cases h

/-- The URL of bucket and prefix. -/
theorem s3Url_spells {bucket keyPrefix : Str} (hbucket : bucket ≠ []) (hslash : '/' ∉ bucket)
    (htrim : Trimmed keyPrefix) :
    SpellsS3 bucket keyPrefix (S3Options.s3Url (shown bucket) (shown keyPrefix)).toList := by
  refine ⟨hbucket, hslash, htrim, ?_⟩
  by_cases hkeys : keyPrefix = []
  · subst hkeys
    refine ⟨[], ?_, .inl ⟨rfl, rfl⟩⟩
    simp [S3Options.s3Url, shown, toString]
  · refine ⟨'/' :: keyPrefix, ?_, .inr ⟨[], [], by simp, by simp, by simp⟩⟩
    simp [S3Options.s3Url, shown, hkeys, toString]

/-- `parse_store_spec` reads exactly the strings that spell a store, rejects all
others as invalid, and reads the URL that `build_vanilla_s3` makes of its result
back as that result. -/
theorem parseStoreSpec_format (input : Str) :
    (∀ path, parseStoreSpec input = .ok (.localFs path) ↔ SpellsLocal path input) ∧
    (∀ bucket keyPrefix, parseStoreSpec input = .ok (.s3 bucket keyPrefix) ↔ SpellsS3 bucket keyPrefix input) ∧
    (∀ err, parseStoreSpec input = .error err → ∃ msg, err = .invalidInput msg) ∧
    ∀ bucket keyPrefix, parseStoreSpec input = .ok (.s3 bucket keyPrefix) →
      parseStoreSpec (S3Options.s3Url (shown bucket) (shown keyPrefix)).toList = .ok (.s3 bucket keyPrefix) := by
  refine ⟨fun _ => parseStoreSpec_local_iff, fun _ _ => parseStoreSpec_s3_iff, fun _ => parseStoreSpec_error, ?_⟩
  intro bucket keyPrefix h
  obtain ⟨hbucket, hslash, htrim, -⟩ := parseStoreSpec_s3_iff.1 h
  exact parseStoreSpec_s3_iff.2 (s3Url_spells hbucket hslash htrim)

example : parseStoreSpec "s3://radar//KLOT/".toList = .ok (.s3 "radar".toList "KLOT".toList) := by decide

end Rustytree
