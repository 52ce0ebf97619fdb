import Mathlib
/-!
# Filling an ordered map from a list

What an ordered map holds after a list has been inserted into it entry by entry,
and after a list has been sorted into buckets by a key. A bucket keeps the
order of the list.
-/

namespace Lib.Buckets
open Std

variable {κ α β : Type} [Ord κ] [TransOrd κ] [LawfulEqOrd κ]

/-- Every entry inserted in turn. -/
def insertAll (l : List (κ × β)) (m : TreeMap κ β) : TreeMap κ β := l.foldl (fun m e => m.insert e.1 e.2) m

/-- `a` pushed on the bucket of its key. -/
def push (key : α → κ) (m : TreeMap κ (List α)) (a : α) : TreeMap κ (List α) :=
  m.alter (key a) fun bucket => some (bucket.getD [] ++ [a])

theorem getElem?_insert_ne {m : TreeMap κ β} {k k' : κ} {v : β} (h : k ≠ k') : (m.insert k v)[k']? = m[k']? := by
  rw [TreeMap.getElem?_insert, if_neg fun hc => h (LawfulEqOrd.eq_of_compare hc)]

theorem getElem?_insertAll_of_not_mem {l : List (κ × β)} {m : TreeMap κ β} {k : κ} (h : k ∉ l.map (·.1)) :
    (insertAll l m)[k]? = m[k]? := by
  induction l generalizing m with
  | nil => rfl
  | cons e l ih =>
    simp only [List.map_cons, List.mem_cons, not_or] at h
    have hrest : (insertAll l (m.insert e.1 e.2))[k]? = (m.insert e.1 e.2)[k]? := ih h.2
    exact hrest.trans (getElem?_insert_ne (Ne.symm h.1))

theorem getElem?_insertAll_of_mem {l : List (κ × β)} {m : TreeMap κ β} {k : κ} {v : β}
    (hnd : (l.map (·.1)).Nodup) (h : (k, v) ∈ l) : (insertAll l m)[k]? = some v := by
  induction l generalizing m with
  | nil => cases h
  | cons e l ih =>
    rw [List.map_cons, List.nodup_cons] at hnd
    rcases List.mem_cons.1 h with rfl | h
    · have hrest : (insertAll l (m.insert k v))[k]? = (m.insert k v)[k]? := getElem?_insertAll_of_not_mem hnd.1
      exact hrest.trans TreeMap.getElem?_insert_self
    · exact ih (m := m.insert e.1 e.2) hnd.2 h

/-- From the empty map, the entries are those of the list. -/
theorem getElem?_insertAll {l : List (κ × β)} (hnd : (l.map (·.1)).Nodup) {k : κ} {v : β} :
    (insertAll l ∅)[k]? = some v ↔ (k, v) ∈ l := by
  constructor
  · intro h
    by_contra hmem
    by_cases hk : k ∈ l.map (·.1)
    · obtain ⟨⟨k', v'⟩, hv', rfl⟩ := List.mem_map.1 hk
      rw [getElem?_insertAll_of_mem hnd hv'] at h
      exact hmem (Option.some.inj h ▸ hv')
    · rw [getElem?_insertAll_of_not_mem hk] at h
      simp at h
  · exact getElem?_insertAll_of_mem hnd

theorem getElem?_pushAll [DecidableEq κ] (key : α → κ) (l : List α) (m : TreeMap κ (List α)) (k : κ) :
    (l.foldl (push key) m)[k]? =
      if l.filter (key · = k) = [] then m[k]? else some (m[k]?.getD [] ++ l.filter (key · = k)) := by
  induction l generalizing m with
  | nil => rfl
  | cons a l ih =>
    rw [List.foldl_cons, ih, push, TreeMap.getElem?_alter, List.filter_cons]
    by_cases hk : key a = k
    · subst hk
      simp only [compare_self, if_true, decide_true, reduceCtorEq, if_false, Option.getD_some]
      split
      next h => rw [h]
      next => simp
    · have hc : ¬ compare (key a) k = .eq := fun hc => hk (LawfulEqOrd.eq_of_compare hc)
      simp [hc, hk]

/-- The bucket of `k` holds the elements with key `k`, in order; there is none without one. -/
theorem getElem?_buckets [DecidableEq κ] (key : α → κ) (l : List α) (k : κ) :
    (l.foldl (push key) ∅)[k]? = if l.filter (key · = k) = [] then none else some (l.filter (key · = k)) := by
  rw [getElem?_pushAll]
  simp

theorem mem_toList {m : TreeMap κ β} {k : κ} {v : β} : (k, v) ∈ m.toList ↔ m[k]? = some v :=
  TreeMap.mem_toList_iff_getElem?_eq_some

omit [LawfulEqOrd κ] in
theorem nodup_toList_keys (m : TreeMap κ β) : (m.toList.map (·.1)).Nodup := by
  rw [show m.toList.map (·.1) = m.keys from TreeMap.map_fst_toList_eq_keys]
  exact TreeMap.nodup_keys

end Lib.Buckets
