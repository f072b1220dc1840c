import Mathlib.Data.List.Flatten
import Mathlib.Data.List.Nodup
import Mathlib.Tactic

/-!
# Buckets

An array of buckets keeps every item in the bucket of its index.  The items of
the array are counted by its `flatten`, up to their order.
-/

namespace Pintos.Foundation

variable {α : Type}

def Placed (index : α → Nat) (buckets : List (List α)) : Prop :=
  ∀ i bucket, buckets[i]? = some bucket → ∀ a ∈ bucket, index a = i

def push (index : α → Nat) (buckets : List (List α)) (a : α) : List (List α) :=
  buckets.modify (index a) (a :: ·)

def distribute (index : α → Nat) (buckets : List (List α)) (items : List α) : List (List α) :=
  items.foldl (push index) buckets

section Push

variable {index : α → Nat} {buckets : List (List α)}

@[simp] lemma push_length (a : α) : (push index buckets a).length = buckets.length := by simp [push]

lemma modify_cons_flatten (a : α) {i : Nat} (hi : i < buckets.length) :
    (buckets.modify i (a :: ·)).flatten.Perm (a :: buckets.flatten) := by
  induction buckets generalizing i with
  | nil => simp at hi
  | cons bucket rest ih =>
    cases i with
    | zero => simp
    | succ i =>
      have hrest := ih (i := i) (by simpa using hi)
      simp only [List.modify_succ_cons, List.flatten_cons]
      exact (List.Perm.append_left bucket hrest).trans List.perm_middle

lemma push_flatten (a : α) (ha : index a < buckets.length) :
    (push index buckets a).flatten.Perm (a :: buckets.flatten) :=
  modify_cons_flatten a ha

lemma Placed.push (h : Placed index buckets) (a : α) : Placed index (push index buckets a) := by
  intro i bucket hbucket b hb
  simp only [Foundation.push, List.getElem?_modify, Option.map_eq_map,
    Option.map_eq_some_iff] at hbucket
  obtain ⟨old, hold, rfl⟩ := hbucket
  split at hb
  · rename_i hindex
    rcases List.mem_cons.mp hb with rfl | hb
    · exact hindex
    · exact h i old hold b hb
  · exact h i old hold b hb

lemma Placed.replicate (n : Nat) : Placed index (List.replicate n []) := by
  intro i bucket hbucket a ha
  rw [List.eq_of_mem_replicate (List.mem_of_getElem? hbucket)] at ha
  simp at ha

lemma distribute_spec (items : List α)
    (h : Placed index buckets) (hindex : ∀ a ∈ items, index a < buckets.length) : Placed index
    (distribute index buckets items) ∧ (distribute index buckets items).length = buckets.length ∧
    (distribute index buckets items).flatten.Perm (items ++ buckets.flatten) := by
  induction items generalizing buckets with
  | nil => exact ⟨h, rfl, List.Perm.refl _⟩
  | cons a rest ih =>
    obtain ⟨hplaced, hlen, hperm⟩ := ih (h.push a) fun b hb => by
      rw [push_length]
      exact hindex b (List.mem_cons_of_mem a hb)
    refine ⟨hplaced, hlen.trans (push_length a), hperm.trans ?_⟩
    have hfirst : (push index buckets a).flatten.Perm (a :: buckets.flatten) :=
      push_flatten a (hindex a List.mem_cons_self)
    exact (List.Perm.append_left rest hfirst).trans List.perm_middle

lemma Placed.mem_flatten (h : Placed index buckets) {a : α} :
    a ∈ buckets.flatten ↔ a ∈ buckets.getD (index a) [] := by
  constructor
  · intro ha
    obtain ⟨bucket, hbucket, ha⟩ := List.mem_flatten.mp ha
    obtain ⟨i, hi⟩ := List.mem_iff_getElem?.mp hbucket
    rw [h i bucket hi a ha, List.getD_eq_getElem?_getD, hi]
    exact ha
  · intro ha
    rw [List.getD_eq_getElem?_getD] at ha
    cases hbucket : buckets[index a]? with
    | none => simp [hbucket] at ha
    | some bucket =>
      rw [hbucket] at ha
      exact List.mem_flatten.mpr ⟨bucket, List.mem_of_getElem? hbucket, ha⟩

end Push

section Erase

variable [DecidableEq α] {index : α → Nat} {buckets : List (List α)}

lemma Placed.erase (h : Placed index buckets) (a : α) : Placed index (buckets.map (·.erase a)) := by
  intro i bucket hbucket b hb
  rw [List.getElem?_map, Option.map_eq_some_iff] at hbucket
  obtain ⟨old, hold, rfl⟩ := hbucket
  exact h i old hold b (List.mem_of_mem_erase hb)

lemma map_erase_flatten (a : α) (hnodup : buckets.flatten.Nodup) :
    (buckets.map (·.erase a)).flatten = buckets.flatten.erase a := by
  induction buckets with
  | nil => rfl
  | cons bucket rest ih =>
    rw [List.flatten_cons] at hnodup
    obtain ⟨-, hrest, hdisj⟩ := List.nodup_append.mp hnodup
    rw [List.map_cons, List.flatten_cons, List.flatten_cons, ih hrest]
    by_cases ha : a ∈ bucket
    · have hout : a ∉ rest.flatten := fun hin => hdisj a ha a hin rfl
      rw [List.erase_append_left _ ha, List.erase_of_not_mem hout]
    · rw [List.erase_append_right _ ha, List.erase_of_not_mem ha]

end Erase

end Pintos.Foundation
