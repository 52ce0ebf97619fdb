import Mathlib
/-!
# Running a fallible step over a list

`List.mapM` in `Option` and `Except`: when the whole run succeeds, and what it
then collects. The results stand in the order of the list.
-/

namespace Lib.Collect

universe u
variable {α : Type u} {β ε : Type}

theorem mapM_eq_some {f : α → Option β} {l : List α} {r : List β} :
    l.mapM f = some r ↔ l.map f = r.map some := by
  induction l generalizing r with
  | nil => cases r <;> simp
  | cons a l ih =>
    rw [List.mapM_cons]
    cases hf : f a with
    | none => cases r <;> simp [hf]
    | some b =>
      cases r with
      | nil => simp [Option.bind_eq_some_iff]
      | cons c r => simp [Option.bind_eq_some_iff, hf, ih, and_comm]

theorem exists_mapM_some {f : α → Option β} {l : List α} (h : ∀ a ∈ l, ∃ b, f a = some b) :
    ∃ r, l.mapM f = some r := by
  induction l with
  | nil => exact ⟨[], rfl⟩
  | cons a l ih =>
    obtain ⟨b, hb⟩ := h a (by simp)
    obtain ⟨r, hr⟩ := ih fun x hx => h x (by simp [hx])
    exact ⟨b :: r, by simp [List.mapM_cons, hb, hr]⟩

theorem mapM_eq_ok {f : α → Except ε β} {l : List α} {r : List β} :
    l.mapM f = .ok r ↔ List.Forall₂ (fun a b => f a = .ok b) l r := by
  induction l generalizing r with
  | nil => cases r <;> simp [pure, Except.pure]
  | cons a l ih =>
    rw [List.mapM_cons]
    cases hf : f a with
    | error e =>
      constructor
      · intro h; cases h
      · intro h; cases h with | cons h _ => rw [hf] at h; cases h
    | ok b =>
      cases hl : l.mapM f with
      | error e =>
        constructor
        · intro h; cases h
        · intro h
          cases h with | cons _ h => rw [ih.2 h] at hl; cases hl
      | ok bs =>
        have hbs := ih.1 hl
        constructor
        · intro h; cases h; exact .cons hf hbs
        · intro h
          cases h with
          | cons h1 h2 =>
            rw [hf] at h1
            rw [ih.2 h2] at hl
            cases h1; cases hl; rfl

/-- A run fails with the error of one of its steps, or collects a result of each. -/
theorem mapM_cases (f : α → Except ε β) (l : List α) :
    (∃ a ∈ l, ∃ e, f a = .error e ∧ l.mapM f = .error e) ∨
      ∃ r, l.mapM f = .ok r ∧ List.Forall₂ (fun a b => f a = .ok b) l r := by
  induction l with
  | nil => exact .inr ⟨[], rfl, .nil⟩
  | cons a l ih =>
    rw [List.mapM_cons]
    cases hf : f a with
    | error e => exact .inl ⟨a, by simp, e, hf, rfl⟩
    | ok b =>
      rcases ih with ⟨x, hx, e, he, hrun⟩ | ⟨r, hrun, hr⟩
      · exact .inl ⟨x, by simp [hx], e, he, by rw [hrun]; rfl⟩
      · exact .inr ⟨b :: r, by rw [hrun]; rfl, .cons hf hr⟩

/-- The error of a run is that of one of its steps. -/
theorem exists_of_mapM_error {f : α → Except ε β} {l : List α} {e : ε} (h : l.mapM f = .error e) :
    ∃ a ∈ l, f a = .error e := by
  rcases mapM_cases f l with ⟨a, hmem, e', hfa, hrun⟩ | ⟨r, hrun, -⟩
  · cases hrun.symm.trans h
    exact ⟨a, hmem, hfa⟩
  · cases hrun.symm.trans h

theorem bind_eq_ok {γ : Type} {m : Except ε γ} {f : γ → Except ε β} {b : β} :
    m >>= f = .ok b ↔ ∃ c, m = .ok c ∧ f c = .ok b := by
  cases m with
  | error e => simp [bind, Except.bind]
  | ok c => simp [bind, Except.bind]

/-- A step that succeeds on every element succeeds on the list. -/
theorem mapM_ok_of {f : α → Except ε β} {g : α → β} {l : List α} (h : ∀ a ∈ l, f a = .ok (g a)) :
    l.mapM f = .ok (l.map g) :=
  mapM_eq_ok.2 (List.forall₂_map_right_iff.2 (List.forall₂_same.2 h))

/-- A partner for every element gives a list of partners. -/
theorem exists_forall₂ {R : α → β → Prop} {l : List α} (h : ∀ a ∈ l, ∃ b, R a b) : ∃ r, List.Forall₂ R l r := by
  induction l with
  | nil => exact ⟨[], .nil⟩
  | cons a l ih =>
    obtain ⟨b, hb⟩ := h a (by simp)
    obtain ⟨r, hr⟩ := ih fun x hx => h x (by simp [hx])
    exact ⟨b :: r, .cons hb hr⟩

theorem exists_of_forall₂ {R : α → β → Prop} {l : List α} {r : List β} (h : List.Forall₂ R l r) {a : α} (ha : a ∈ l) :
    ∃ b ∈ r, R a b := by
  induction h with
  | nil => cases ha
  | cons hab _ ih =>
    rcases List.mem_cons.1 ha with rfl | ha
    · exact ⟨_, by simp, hab⟩
    · obtain ⟨b, hb, h⟩ := ih ha
      exact ⟨b, by simp [hb], h⟩

/-- Partners of partners. -/
theorem forall₂_trans {γ : Type} {R : α → β → Prop} {S : β → γ → Prop} {T : α → γ → Prop} {l : List α} {m : List β}
    {r : List γ} (h : List.Forall₂ R l m) (h' : List.Forall₂ S m r) (hT : ∀ a b c, R a b → S b c → T a c) :
    List.Forall₂ T l r := by
  induction h generalizing r with
  | nil => cases h'; exact .nil
  | cons hab _ ih =>
    cases h' with
    | cons hbc h' => exact .cons (hT _ _ _ hab hbc) (ih h')

/-- Related lists stay related when both are filtered alike. -/
theorem forall₂_filter {R : α → β → Prop} {p : α → Bool} {q : β → Bool} {l : List α} {r : List β}
    (h : List.Forall₂ R l r) (hpq : ∀ a b, R a b → p a = q b) : List.Forall₂ R (l.filter p) (r.filter q) := by
  induction h with
  | nil => exact .nil
  | cons hab _ ih =>
    rw [List.filter_cons, List.filter_cons, hpq _ _ hab]
    split
    · exact .cons hab ih
    · exact ih

/-! ## Two runs alike -/

/-- The same error, or related results. -/
def Agree {γ : Type} (R : β → γ → Prop) : Except ε β → Except ε γ → Prop
  | .error e, .error e' => e = e'
  | .ok b, .ok c => R b c
  | _, _ => False

theorem agree_bind {γ β' γ' : Type} {R : β → γ → Prop} {S : β' → γ' → Prop} {m : Except ε β} {n : Except ε γ}
    {f : β → Except ε β'} {g : γ → Except ε γ'} (hm : Agree R m n) (h : ∀ b c, R b c → Agree S (f b) (g c)) :
    Agree S (m >>= f) (n >>= g) := by
  cases m with
  | error e =>
    cases n with
    | error e' => exact hm
    | ok c => cases hm
  | ok b =>
    cases n with
    | error e' => cases hm
    | ok c => exact h b c hm

/-- Steps that agree on related elements agree on related lists. -/
theorem agree_mapM {α' γ : Type} {R : β → γ → Prop} {S : α → α' → Prop} {f : α → Except ε β} {g : α' → Except ε γ}
    {l : List α} {l' : List α'} (hl : List.Forall₂ S l l') (h : ∀ a a', S a a' → Agree R (f a) (g a')) :
    Agree (List.Forall₂ R) (l.mapM f) (l'.mapM g) := by
  induction hl with
  | nil => exact .nil
  | @cons a a' l l' ha _ ih =>
    rw [List.mapM_cons, List.mapM_cons]
    apply agree_bind (h a a' ha)
    intro b c hbc
    apply agree_bind ih
    intro bs cs hbs
    exact .cons hbc hbs

/-- A run that keeps a key beside each result. -/
theorem mapM_pair {κ : Type} (key : α → κ) (f : α → Except ε β) (l : List α) :
    (l.mapM fun a => (f a).map fun b => (key a, b)) = (l.mapM f).map fun bs => (l.map key).zip bs := by
  induction l with
  | nil => rfl
  | cons a l ih =>
    rw [List.mapM_cons, List.mapM_cons, ih]
    cases f a with
    | error e => rfl
    | ok b => cases l.mapM f <;> rfl

/-- Steps that do the same run alike. -/
theorem mapM_congr {f g : α → Except ε β} {l : List α} (h : ∀ a ∈ l, f a = g a) : l.mapM f = l.mapM g := by
  induction l with
  | nil => rfl
  | cons a l ih => rw [List.mapM_cons, List.mapM_cons, h a (by simp), ih fun b hb => h b (by simp [hb])]

/-- Running over a list with positions that play no part. -/
theorem mapM_zipIdx (f : α → Except ε β) (l : List α) (k : Nat) : ((l.zipIdx k).mapM fun a => f a.1) = l.mapM f := by
  induction l generalizing k with
  | nil => rfl
  | cons a l ih => rw [List.zipIdx_cons, List.mapM_cons, List.mapM_cons, ih]

end Lib.Collect
