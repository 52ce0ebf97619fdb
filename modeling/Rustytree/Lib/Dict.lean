import Mathlib
/-!
# Insertion-ordered dictionaries

A dictionary as the list of its entries. Setting a key replaces its value in
place, or appends the entry if the key is new.
-/

namespace Lib.Dict

variable {κ β γ : Type} [DecidableEq κ]

/-- `d[key] = value`. -/
def set (d : List (κ × β)) (key : κ) (value : β) : List (κ × β) :=
  if key ∈ d.map (·.1) then d.map fun e => if e.1 = key then (key, value) else e else d ++ [(key, value)]

/-- The key set, if there is one. -/
def setSome (d : List (κ × β)) (key : Option κ) (value : β) : List (κ × β) :=
  match key with
  | some k => set d k value
  | none => d

/-- The entries after an assignment: those before, or with the new value. -/
theorem set_values {d : List (κ × β)} {key : κ} {value : β} {e : κ × β} (h : e ∈ set d key value) :
    e ∈ d ∨ e.2 = value := by
  unfold set at h
  split at h
  · obtain ⟨e', he', rfl⟩ := List.mem_map.1 h
    split
    · exact .inr rfl
    · exact .inl he'
  · rcases List.mem_append.1 h with h | h
    · exact .inl h
    · rw [List.mem_singleton] at h
      exact .inr (congrArg Prod.snd h)

/-- Every entry set in turn. -/
def setAll (d l : List (κ × β)) : List (κ × β) := l.foldl (fun d e => set d e.1 e.2) d

theorem set_of_not_mem {d : List (κ × β)} {key : κ} (h : key ∉ d.map (·.1)) (value : β) :
    set d key value = d ++ [(key, value)] := if_neg h

/-- A key that is there keeps its place. -/
theorem set_keys {d : List (κ × β)} {key : κ} (h : key ∈ d.map (·.1)) (value : β) :
    (set d key value).map (·.1) = d.map (·.1) := by
  unfold set
  rw [if_pos h, List.map_map]
  apply List.map_congr_left
  intro e _
  rw [Function.comp_apply]
  split
  next heq => exact heq.symm
  next => rfl

/-- New, distinct keys are appended in order. -/
theorem setAll_eq_append {d l : List (κ × β)} (h : ((d ++ l).map (·.1)).Nodup) : setAll d l = d ++ l := by
  induction l generalizing d with
  | nil => simp [setAll]
  | cons e l ih =>
    rw [List.append_cons] at h
    have he : e.1 ∉ d.map (·.1) := by
      intro hmem
      rw [List.map_append, List.map_append] at h
      have hd := List.disjoint_of_nodup_append h.of_append_left
      exact hd hmem (by simp)
    have hstep : setAll d (e :: l) = setAll (d ++ [e]) l := by
      unfold setAll
      rw [List.foldl_cons, set_of_not_mem he]
    rw [hstep, ih h, List.append_assoc, List.singleton_append]

/-- A list of entries with distinct keys is the dictionary it builds. -/
theorem setAll_nil {l : List (κ × β)} (h : (l.map (·.1)).Nodup) : setAll [] l = l := by
  simpa using setAll_eq_append (d := []) (by simpa using h)

/-- A loop that sets a value wherever some function yields a key. -/
theorem foldl_setSome (key : γ → Option κ) (value : γ → β) (l : List γ) (d : List (κ × β)) :
    l.foldl (fun d a => setSome d (key a) (value a)) d =
      setAll d (l.filterMap fun a => (key a).map fun k => (k, value a)) := by
  induction l generalizing d with
  | nil => rfl
  | cons a l ih =>
    rw [List.foldl_cons, ih, List.filterMap_cons]
    cases key a with
    | none => rfl
    | some k => rfl

/-! ## Related values -/

/-- Entries of one key with related values. -/
def SameKey (R : β → γ → Prop) (e : κ × β) (e' : κ × γ) : Prop := e'.1 = e.1 ∧ R e.2 e'.2

omit [DecidableEq κ] in
theorem keys_eq {R : β → γ → Prop} {d : List (κ × β)} {d' : List (κ × γ)} (h : List.Forall₂ (SameKey R) d d') :
    d'.map (·.1) = d.map (·.1) := by
  induction h with
  | nil => rfl
  | cons he _ ih => rw [List.map_cons, List.map_cons, he.1, ih]

theorem set_related {R : β → γ → Prop} {d : List (κ × β)} {d' : List (κ × γ)} (h : List.Forall₂ (SameKey R) d d')
    {e : κ × β} {e' : κ × γ} (he : SameKey R e e') :
    List.Forall₂ (SameKey R) (set d e.1 e.2) (set d' e'.1 e'.2) := by
  rw [set, set, keys_eq h, he.1]
  split
  · rw [List.forall₂_map_left_iff, List.forall₂_map_right_iff]
    apply h.imp
    intro f f' hf
    rw [hf.1]
    split
    · exact ⟨rfl, he.2⟩
    · exact hf
  · exact List.rel_append h (.cons ⟨rfl, he.2⟩ .nil)

theorem setAll_related {R : β → γ → Prop} {l : List (κ × β)} {l' : List (κ × γ)}
    (hl : List.Forall₂ (SameKey R) l l') {d : List (κ × β)} {d' : List (κ × γ)} (h : List.Forall₂ (SameKey R) d d') :
    List.Forall₂ (SameKey R) (setAll d l) (setAll d' l') := by
  induction hl generalizing d d' with
  | nil => exact h
  | cons he _ ih => exact ih (set_related h he)

/-! ## Lookup -/

section
variable {κ β : Type} [BEq κ] [LawfulBEq κ]

/-- Looking a key up finds its entry, where keys are distinct. -/
theorem lookup_eq_some {d : List (κ × β)} (hnd : (d.map (·.1)).Nodup) {key : κ} {value : β} :
    d.lookup key = some value ↔ (key, value) ∈ d := by
  induction d with
  | nil => simp
  | cons e d ih =>
    obtain ⟨k, v⟩ := e
    obtain ⟨hk, hnd⟩ := List.nodup_cons.1 hnd
    rw [List.lookup_cons, List.mem_cons, Prod.mk.injEq]
    rcases eq_or_ne key k with rfl | h
    · have hnot : (key, value) ∉ d := fun hm => hk (List.mem_map.2 ⟨_, hm, rfl⟩)
      simp [hnot, eq_comm]
    · rw [beq_false_of_ne h, ih hnd]
      simp [h]

omit [LawfulBEq κ] in
/-- Of dictionaries put one after the other, the first with the key answers. -/
theorem lookup_flatten (ds : List (List (κ × β))) {key : κ} :
    ds.flatten.lookup key = ds.findSome? fun d => d.lookup key := by
  induction ds with
  | nil => rfl
  | cons d ds ih =>
    rw [List.flatten_cons, List.lookup_append, ih, List.findSome?_cons]
    cases d.lookup key <;> rfl

end

end Lib.Dict
