import Pintos.Foundation.Buckets
import Pintos.Foundation.Refinement
import Pintos.Lib.Debug

/-!
# Hash tables

`lib/kernel/hash.c`.  An element stands for its address, so two elements can be
equivalent and still differ.  A bucket is the list of its elements from
`list_begin` on.  Whether the `malloc` of a `rehash` succeeds is a parameter of
the operation.
-/

namespace Pintos

open Foundation

variable {rounds x : Nat}

structure Hash (α : Type) where
  elemCnt : Nat
  bucketCnt : Nat
  buckets : List (List α)

namespace Hash

/-! ## The number of buckets -/

def turnOffLeast1bit (x : Nat) : Nat := x &&& (x - 1)

def isPowerOf2 (x : Nat) : Bool := x ≠ 0 && turnOffLeast1bit x = 0

def roundDown : Nat → Nat → Nat
  | 0, x => x
  | rounds + 1, x => if isPowerOf2 x then x else roundDown rounds (turnOffLeast1bit x)

def newBucketCnt (elemCnt : Nat) : Nat :=
  let newCnt := elemCnt / 2
  let newCnt := if newCnt < 4 then 4 else newCnt
  roundDown newCnt newCnt

/-! ## The table -/

section Table

variable {α : Type} [DecidableEq α] (hash : α → Nat) (less : α → α → Bool)

def elements (h : Hash α) : List α := h.buckets.flatten

def findBucket (h : Hash α) (e : α) : Nat := hash e &&& (h.bucketCnt - 1)

def findElem (h : Hash α) (bucket : Nat) (e : α) : Option α :=
  (h.buckets.getD bucket []).find? fun hi => !less hi e && !less e hi

def insertElem (h : Hash α) (bucket : Nat) (e : α) : Hash α :=
  { h with elemCnt := h.elemCnt + 1, buckets := h.buckets.modify bucket (e :: ·) }

def removeElem (h : Hash α) (e : α) : Hash α :=
  { h with elemCnt := h.elemCnt - 1, buckets := h.buckets.map (·.erase e) }

def moveBucket (h : Hash α) (bucket : List α) : Hash α :=
  bucket.foldl (fun t e => { t with buckets := t.buckets.modify (t.findBucket hash e) (e :: ·) }) h

def rehash (mallocOk : Bool) (h : Hash α) : Hash α :=
  let newCnt := newBucketCnt h.elemCnt
  if newCnt = h.bucketCnt then h
  else if mallocOk then
    h.buckets.foldl (moveBucket hash)
      { h with bucketCnt := newCnt, buckets := replicate newCnt [] }
  else h

def hashClear (h : Hash α) : Hash α :=
  { h with elemCnt := 0, buckets := replicate h.bucketCnt [] }

/-- The table of `hash_init` when its `malloc` succeeds; the buckets are not initialised before
`hash_clear`. -/
def hashInit (uninitialised : List (List α)) : Hash α := hashClear ⟨0, 4, uninitialised⟩

def hashInsert (mallocOk : Bool) (new : α) (h : Hash α) : Option α × Hash α :=
  let bucket := h.findBucket hash new
  match h.findElem less bucket new with
  | none => (none, rehash hash mallocOk (h.insertElem bucket new))
  | some old => (some old, rehash hash mallocOk h)

def hashReplace (mallocOk : Bool) (new : α) (h : Hash α) : Option α × Hash α :=
  let bucket := h.findBucket hash new
  match h.findElem less bucket new with
  | none => (none, rehash hash mallocOk (h.insertElem bucket new))
  | some old => (some old, rehash hash mallocOk ((h.removeElem old).insertElem bucket new))

def hashFind (e : α) (h : Hash α) : Option α := h.findElem less (h.findBucket hash e) e

def hashDelete (mallocOk : Bool) (e : α) (h : Hash α) : Option α × Hash α :=
  match h.findElem less (h.findBucket hash e) e with
  | none => (none, h)
  | some found => (some found, rehash hash mallocOk (h.removeElem found))

inductive HashOp (α : Type) where
  | insert (new : α) (mallocOk : Bool)
  | replace (new : α) (mallocOk : Bool)
  | find (e : α)
  | delete (e : α) (mallocOk : Bool)
  | clear

def perform (op : HashOp α) : Action (Hash α) Fault (Option α) := fun h =>
  match op with
  | .insert new mallocOk => .ok (hashInsert hash less mallocOk new h)
  | .replace new mallocOk => .ok (hashReplace hash less mallocOk new h)
  | .find e => .ok (hashFind hash less e h, h)
  | .delete e mallocOk => .ok (hashDelete hash less mallocOk e h)
  | .clear => .ok (none, hashClear h)

end Table

/-! ## Iteration -/

section Iteration

variable {α σ : Type}

def hashApply (h : Hash α) (action : σ → α → σ) (s : σ) : σ :=
  h.buckets.foldl (fun s bucket => bucket.foldl action s) s

/-- The current element is the one at `position` of a bucket; 0 is the head of its list, and one
more than its length is the end. -/
structure HashIterator where
  bucket : Nat
  position : Nat

def hashFirst : HashIterator := ⟨0, 0⟩

def hashCur (h : Hash α) (i : HashIterator) : Option α :=
  if i.position = 0 then none else (h.buckets.getD i.bucket [])[i.position - 1]?

def nextLoop (h : Hash α) : Nat → Nat → Nat → Option HashIterator
  | 0, _, _ => none
  | rounds + 1, bucket, position =>
    if position = (h.buckets.getD bucket []).length + 1 then
      if bucket + 1 ≥ h.bucketCnt then none else nextLoop h rounds (bucket + 1) 1
    else some ⟨bucket, position⟩

def hashNext (h : Hash α) (i : HashIterator) : Option HashIterator :=
  nextLoop h h.bucketCnt i.bucket (i.position + 1)

/-- What a loop of `hash_next` and `hash_cur` sees, if it ends within a number of rounds. -/
def hashIterate (h : Hash α) : Nat → HashIterator → Option (List α)
  | 0, _ => none
  | rounds + 1, i =>
    match hashNext h i with
    | none => some []
    | some i => do
      let e ← hashCur h i
      let rest ← hashIterate h rounds i
      return e :: rest

end Iteration

/-! ## Powers of two -/

lemma two_pow_le_turnOff {n : Nat} (hle : 2 ^ n ≤ x) (hlt : x < 2 ^ (n + 1)) (hne : x ≠ 2 ^ n) :
    2 ^ n ≤ turnOffLeast1bit x := by
  have hx : x.testBit n = true := by
    rw [Nat.testBit_eq_decide_div_mod_eq]
    have : x / 2 ^ n = 1 := Nat.div_eq_of_lt_le (by omega) (by rw [pow_succ] at hlt; omega)
    simp [this]
  have hpred : (x - 1).testBit n = true := by
    rw [Nat.testBit_eq_decide_div_mod_eq]
    have : (x - 1) / 2 ^ n = 1 := Nat.div_eq_of_lt_le (by omega) (by rw [pow_succ] at hlt; omega)
    simp [this]
  apply Nat.ge_two_pow_of_testBit
  rw [turnOffLeast1bit, Nat.testBit_and, hx, hpred]
  rfl

lemma exists_two_pow_le (h : 0 < x) : ∃ n, 2 ^ n ≤ x ∧ x < 2 ^ (n + 1) :=
  ⟨x.log2, Nat.log2_self_le (by omega), Nat.lt_log2_self⟩

lemma isPowerOf2_eq (h : isPowerOf2 x = true) : ∃ n, x = 2 ^ n := by
  simp only [isPowerOf2, Bool.and_eq_true, decide_eq_true_eq] at h
  obtain ⟨n, hle, hlt⟩ := exists_two_pow_le (Nat.pos_of_ne_zero h.1)
  refine ⟨n, by_contra fun hne => ?_⟩
  have := two_pow_le_turnOff hle hlt hne
  have := Nat.two_pow_pos n
  omega

lemma roundDown_spec (hx : 4 ≤ x) (hrounds : x ≤ rounds) :
    4 ≤ roundDown rounds x ∧ ∃ n, roundDown rounds x = 2 ^ n := by
  induction rounds generalizing x with
  | zero => omega
  | succ rounds ih =>
    unfold roundDown
    split
    · rename_i hpower
      exact ⟨hx, isPowerOf2_eq hpower⟩
    rename_i hpower
    have hless : turnOffLeast1bit x ≤ x - 1 := Nat.and_le_right
    obtain ⟨n, hle, hlt⟩ := exists_two_pow_le (show 0 < x by omega)
    have hfour : 4 ≤ 2 ^ n := by
      have : 2 < n + 1 := (Nat.pow_lt_pow_iff_right (by decide)).mp (lt_of_le_of_lt hx hlt)
      exact Nat.pow_le_pow_right (show 0 < 2 by decide) (show 2 ≤ n by omega)
    have hne : x ≠ 2 ^ n := by
      rintro rfl
      apply hpower
      simp [isPowerOf2, turnOffLeast1bit, Nat.and_two_pow_sub_one_eq_mod]
    exact ih (hfour.trans (two_pow_le_turnOff hle hlt hne)) (by omega)

lemma newBucketCnt_spec (elemCnt : Nat) :
    4 ≤ newBucketCnt elemCnt ∧ ∃ n, newBucketCnt elemCnt = 2 ^ n := by
  unfold newBucketCnt
  refine roundDown_spec ?_ le_rfl
  split <;> omega

/-! ## The elements of a table -/

section Elements

variable {α : Type} (hash : α → Nat) (less : α → α → Bool)

def Equivalent (a b : α) : Prop := less a b = false ∧ less b a = false

instance : DecidableRel (Equivalent less) := fun _ _ => inferInstanceAs (Decidable (_ ∧ _))

structure Lawful : Prop where
  equivalence : Equivalence (Equivalent less)
  respects : ∀ a b, Equivalent less a b → hash a = hash b

structure Holds (h : Hash α) (items : List α) : Prop where
  power : ∃ n, h.bucketCnt = 2 ^ n
  four : 4 ≤ h.bucketCnt
  length : h.buckets.length = h.bucketCnt
  placed : Placed (h.findBucket hash) h.buckets
  elements : h.elements.Perm items

variable {hash less} {h : Hash α} {items : List α}

namespace Holds

variable (hh : Holds hash h items)

include hh

lemma findBucket_lt (e : α) : h.findBucket hash e < h.buckets.length := by
  have hpos := hh.four
  have hand : h.findBucket hash e ≤ h.bucketCnt - 1 := Nat.and_le_right
  rw [hh.length]
  omega

lemma insertElem (e : α) : Holds hash (h.insertElem (h.findBucket hash e) e) (e :: items) where
  power := hh.power
  four := hh.four
  length := (push_length e).trans hh.length
  placed := hh.placed.push e
  elements := (push_flatten e (hh.findBucket_lt e)).trans (hh.elements.cons e)

lemma removeElem [DecidableEq α] (hnodup : items.Nodup) (e : α) :
    Holds hash (h.removeElem e) (items.erase e) where
  power := hh.power
  four := hh.four
  length := (length_map _).trans hh.length
  placed := hh.placed.erase e
  elements := by
    have hflat : h.elements.Nodup := hh.elements.nodup_iff.mpr hnodup
    rw [Hash.elements, Hash.removeElem, map_erase_flatten e hflat]
    exact hh.elements.erase e

lemma hashClear : Holds hash h.hashClear [] where
  power := hh.power
  four := hh.four
  length := length_replicate
  placed := Placed.replicate _
  elements := by simp [Hash.elements, Hash.hashClear]

lemma congr {items' : List α} (hperm : items.Perm items') : Holds hash h items' :=
  ⟨hh.power, hh.four, hh.length, hh.placed, hh.elements.trans hperm⟩

end Holds

lemma moveBucket_eq (h : Hash α) (bucket : List α) : moveBucket hash h bucket =
      { h with buckets := distribute (h.findBucket hash) h.buckets bucket } := by
  induction bucket generalizing h with
  | nil => rfl
  | cons e rest ih => exact ih _

lemma foldl_moveBucket (h : Hash α) (old : List (List α)) : old.foldl (moveBucket hash) h =
      { h with buckets := distribute (h.findBucket hash) h.buckets old.flatten } := by
  induction old generalizing h with
  | nil => rfl
  | cons bucket rest ih =>
    rw [foldl_cons, ih, moveBucket_eq, flatten_cons]
    simp only [distribute, foldl_append]
    rfl

lemma Holds.rehash (hh : Holds hash h items) (mallocOk : Bool) :
    Holds hash (rehash hash mallocOk h) items := by
  unfold Hash.rehash
  simp only []
  split
  · exact hh
  split
  · obtain ⟨hfour, hpower⟩ := newBucketCnt_spec h.elemCnt
    rw [foldl_moveBucket]
    have hempty : Placed (Hash.findBucket hash ⟨h.elemCnt, newBucketCnt h.elemCnt, []⟩)
        (replicate (newBucketCnt h.elemCnt) []) := Placed.replicate _
    have hmoved := distribute_spec (h.elements) hempty fun e _ => by
          have hand : hash e &&& (newBucketCnt h.elemCnt - 1) ≤ newBucketCnt h.elemCnt - 1 :=
            Nat.and_le_right
          rw [length_replicate]
          exact lt_of_le_of_lt hand (by omega)
    obtain ⟨hplaced, hlen, hperm⟩ := hmoved
    refine ⟨hpower, hfour, hlen.trans length_replicate, hplaced, ?_⟩
    refine (hperm.trans ?_).trans hh.elements
    simp
  · exact hh

@[simp] lemma rehash_elemCnt (mallocOk : Bool) : (rehash hash mallocOk h).elemCnt = h.elemCnt := by
  unfold Hash.rehash
  simp only []
  split
  · rfl
  split
  · rw [foldl_moveBucket]
  · rfl

end Elements

/-! ## Finite sets -/

section Sets

variable {α : Type} (hash : α → Nat) (less : α → α → Bool)

def Answers (stored : Finset α) (e : α) (result : Option α) : Prop :=
  ∀ x, result = some x ↔ x ∈ stored ∧ Equivalent less x e

def SetStep [DecidableEq α] (stored : Finset α) : HashOp α → Option α → Finset α → Prop
  | .insert new _, result, after =>
    Answers less stored new result ∧ after = if result.isSome then stored else insert new stored
  | .replace new _, result, after =>
    Answers less stored new result ∧
      after = insert new (stored.filter fun x => ¬ Equivalent less x new)
  | .find e, result, after => Answers less stored e result ∧ after = stored
  | .delete e _, result, after =>
    Answers less stored e result ∧ after = stored.filter fun x => ¬ Equivalent less x e
  | .clear, result, after => result = none ∧ after = ∅

structure Stores (h : Hash α) (stored : Finset α) : Prop where
  holds : Holds hash h stored.toList
  count : h.elemCnt = stored.card
  inequivalent : ∀ a ∈ stored, ∀ b ∈ stored, Equivalent less a b → a = b

variable {hash less} {h : Hash α} {stored : Finset α}

lemma Stores.mem_elements (hs : Stores hash less h stored) {e : α} :
    e ∈ h.elements ↔ e ∈ stored := by
  rw [hs.holds.elements.mem_iff, Finset.mem_toList]

lemma Stores.rehash (hs : Stores hash less h stored) (mallocOk : Bool) :
    Stores hash less (rehash hash mallocOk h) stored :=
  ⟨hs.holds.rehash mallocOk, (rehash_elemCnt mallocOk).trans hs.count, hs.inequivalent⟩

lemma Stores.answers (hlaw : Lawful hash less) (hs : Stores hash less h stored) (e : α) :
    Answers less stored e (h.findElem less (h.findBucket hash e) e) := by
  have hmem : ∀ x, Equivalent less x e →
      (x ∈ h.buckets.getD (h.findBucket hash e) [] ↔ x ∈ stored) := by
    intro x hx
    have hindex : h.findBucket hash x = h.findBucket hash e := by
      rw [findBucket, findBucket, hlaw.respects x e hx]
    rw [← hindex, ← hs.holds.placed.mem_flatten]
    exact hs.mem_elements
  have hpred : ∀ x, (!less x e && !less e x) = true ↔ Equivalent less x e := by
    intro x
    simp [Equivalent]
  have hsome : ∀ x, h.findElem less (h.findBucket hash e) e = some x → Equivalent less x e :=
    fun x hfound => (hpred x).mp (find?_some (p := fun hi => !less hi e && !less e hi) hfound)
  intro x
  constructor
  · intro hfound
    have hx := hsome x hfound
    exact ⟨(hmem x hx).mp (mem_of_find?_eq_some hfound), hx⟩
  rintro ⟨hx, hequiv⟩
  have hin := (hmem x hequiv).mpr hx
  cases hfound : h.findElem less (h.findBucket hash e) e with
  | none =>
    have hnone := List.find?_eq_none.mp hfound x hin
    exact absurd ((hpred x).mpr hequiv) hnone
  | some y =>
    have hy := hsome y hfound
    have hystored := (hmem y hy).mp (mem_of_find?_eq_some hfound)
    have hsame := hlaw.equivalence.trans hy (hlaw.equivalence.symm hequiv)
    rw [hs.inequivalent y hystored x hx hsame]

lemma Stores.insertElem [DecidableEq α] (hlaw : Lawful hash less) (hs : Stores hash less h stored)
    {e : α}
    (hnew : ∀ x ∈ stored, ¬ Equivalent less x e) :
    Stores hash less (h.insertElem (h.findBucket hash e) e) (insert e stored) := by
  have hout : e ∉ stored := fun hin => hnew e hin (hlaw.equivalence.refl e)
  refine ⟨?_, ?_, ?_⟩
  · exact (hs.holds.insertElem e).congr (Finset.toList_insert hout).symm
  · rw [Finset.card_insert_of_notMem hout, ← hs.count]
    rfl
  intro a hain b hbin hab
  rcases Finset.mem_insert.mp hain with rfl | ha
  · rcases Finset.mem_insert.mp hbin with rfl | hb
    · rfl
    · exact absurd (hlaw.equivalence.symm hab) (hnew b hb)
  rcases Finset.mem_insert.mp hbin with rfl | hb
  · exact absurd hab (hnew a ha)
  · exact hs.inequivalent a ha b hb hab

lemma Stores.removeElem [DecidableEq α] (hs : Stores hash less h stored) {e : α} (he : e ∈ stored) :
    Stores hash less (h.removeElem e) (stored.erase e) := by
  refine ⟨?_, ?_, ?_⟩
  · refine (hs.holds.removeElem stored.nodup_toList e).congr ?_
    refine (List.perm_ext_iff_of_nodup (stored.nodup_toList.erase e) (Finset.nodup_toList _)).mpr ?_
    intro a
    rw [stored.nodup_toList.mem_erase_iff, Finset.mem_toList, Finset.mem_toList, Finset.mem_erase]
  · rw [Finset.card_erase_of_mem he, ← hs.count]
    rfl
  · intro a ha b hb
    exact hs.inequivalent a (Finset.mem_of_mem_erase ha) b (Finset.mem_of_mem_erase hb)

lemma Stores.hashClear (hs : Stores hash less h stored) : Stores hash less h.hashClear ∅ := by
  refine ⟨?_, rfl, by simp⟩
  rw [Finset.toList_empty]
  exact hs.holds.hashClear

lemma Stores.erase_eq_filter [DecidableEq α] (hlaw : Lawful hash less)
    (hs : Stores hash less h stored)
    {e found : α} (hfound : found ∈ stored) (hequiv : Equivalent less found e) :
    stored.erase found = stored.filter fun x => ¬ Equivalent less x e := by
  ext x
  rw [Finset.mem_erase, Finset.mem_filter]
  constructor
  · rintro ⟨hne, hx⟩
    refine ⟨hx, fun hxe => hne ?_⟩
    exact hs.inequivalent x hx found hfound
      (hlaw.equivalence.trans hxe (hlaw.equivalence.symm hequiv))
  · rintro ⟨hx, hxe⟩
    refine ⟨?_, hx⟩
    rintro rfl
    exact hxe hequiv

lemma filter_eq_self_of_answers_none {e : α} (hanswers : Answers less stored e none) :
    (∀ x ∈ stored, ¬ Equivalent less x e) ∧
      (stored.filter fun x => ¬ Equivalent less x e) = stored := by
  have hnone : ∀ x ∈ stored, ¬ Equivalent less x e :=
    fun x hx hequiv => by simpa using (hanswers x).mpr ⟨hx, hequiv⟩
  exact ⟨hnone, Finset.filter_true_of_mem hnone⟩

lemma hashInit_stores (uninitialised : List (List α)) :
    Stores hash less (hashInit uninitialised) ∅ := by
  refine ⟨⟨⟨2, rfl⟩, le_rfl, rfl, Placed.replicate 4, ?_⟩, rfl, by simp⟩
  rw [Finset.toList_empty]
  rfl

lemma perform_simulates [DecidableEq α] (hlaw : Lawful hash less) (op : HashOp α)
    (hs : Stores hash less h stored) : wp (perform hash less op)
      (fun result t => ∃ after, SetStep less stored op result after ∧ Stores hash less t after)
      h := by
  cases op with
  | insert new mallocOk =>
    have hanswers := hs.answers hlaw new
    change ∃ after, SetStep less stored _ (hashInsert hash less mallocOk new h).1 after ∧
      Stores hash less (hashInsert hash less mallocOk new h).2 after
    unfold hashInsert
    simp only []
    cases hfound : h.findElem less (h.findBucket hash new) new with
    | none =>
      rw [hfound] at hanswers
      exact ⟨_, ⟨hanswers, rfl⟩,
        (hs.insertElem hlaw (filter_eq_self_of_answers_none hanswers).1).rehash mallocOk⟩
    | some old =>
      rw [hfound] at hanswers
      exact ⟨_, ⟨hanswers, rfl⟩, hs.rehash mallocOk⟩
  | replace new mallocOk =>
    have hanswers := hs.answers hlaw new
    change ∃ after, SetStep less stored _ (hashReplace hash less mallocOk new h).1 after ∧
      Stores hash less (hashReplace hash less mallocOk new h).2 after
    unfold hashReplace
    simp only []
    cases hfound : h.findElem less (h.findBucket hash new) new with
    | none =>
      rw [hfound] at hanswers
      obtain ⟨hnew, hfilter⟩ := filter_eq_self_of_answers_none hanswers
      refine ⟨_, ⟨hanswers, rfl⟩, ?_⟩
      rw [hfilter]
      exact (hs.insertElem hlaw hnew).rehash mallocOk
    | some old =>
      rw [hfound] at hanswers
      obtain ⟨hold, hequiv⟩ := (hanswers old).mp rfl
      refine ⟨_, ⟨hanswers, rfl⟩, ?_⟩
      rw [← hs.erase_eq_filter hlaw hold hequiv]
      refine ((hs.removeElem hold).insertElem hlaw ?_).rehash mallocOk
      rw [hs.erase_eq_filter hlaw hold hequiv]
      exact fun x hx => (Finset.mem_filter.mp hx).2
  | find e => exact ⟨stored, ⟨hs.answers hlaw e, rfl⟩, hs⟩
  | delete e mallocOk =>
    have hanswers := hs.answers hlaw e
    change ∃ after, SetStep less stored _ (hashDelete hash less mallocOk e h).1 after ∧
      Stores hash less (hashDelete hash less mallocOk e h).2 after
    unfold hashDelete
    cases hfound : h.findElem less (h.findBucket hash e) e with
    | none =>
      rw [hfound] at hanswers
      refine ⟨_, ⟨hanswers, rfl⟩, ?_⟩
      rw [(filter_eq_self_of_answers_none hanswers).2]
      exact hs
    | some found =>
      rw [hfound] at hanswers
      obtain ⟨hin, hequiv⟩ := (hanswers found).mp rfl
      refine ⟨_, ⟨hanswers, rfl⟩, ?_⟩
      rw [← hs.erase_eq_filter hlaw hin hequiv]
      exact (hs.removeElem hin).rehash mallocOk
  | clear => exact ⟨∅, ⟨rfl, rfl⟩, hs.hashClear⟩

end Sets

/-! ## Visits -/

section Visits

variable {α : Type} {h : Hash α} {i : HashIterator}

lemma hashApply_eq {σ : Type} (action : σ → α → σ) (s : σ) :
    hashApply h action s = h.elements.foldl action s := by
  rw [hashApply, elements, List.foldl_flatten]

def ahead (h : Hash α) (bucket position : Nat) : List α :=
  (h.buckets.getD bucket []).drop position ++ (h.buckets.drop (bucket + 1)).flatten

lemma ahead_zero {bucket : Nat} (hbucket : bucket < h.buckets.length) :
    h.ahead bucket 0 = (h.buckets.drop bucket).flatten := by
  rw [ahead, List.drop_zero, List.drop_eq_getElem_cons hbucket, flatten_cons,
    List.getD_eq_getElem?_getD, getElem?_eq_getElem hbucket, Option.getD_some]

def Next (h : Hash α) (bucket position : Nat) (result : Option HashIterator) : Prop :=
  match result with
  | none => h.ahead bucket position = []
  | some i => i.bucket < h.bucketCnt ∧ i.position ≤ (h.buckets.getD i.bucket []).length ∧
      ∃ e, hashCur h i = some e ∧ h.ahead bucket position = e :: h.ahead i.bucket i.position

lemma nextLoop_next (hlen : h.buckets.length = h.bucketCnt) :
    ∀ {bucket position : Nat}, bucket < h.bucketCnt → h.bucketCnt ≤ bucket + rounds →
      position ≤ (h.buckets.getD bucket []).length →
      Next h bucket position (nextLoop h rounds bucket (position + 1)) := by
  induction rounds with
  | zero =>
    intro bucket position hbucket hrounds _
    omega
  | succ rounds ih =>
    intro bucket position hbucket hrounds hpos
    unfold nextLoop
    by_cases hend : position = (h.buckets.getD bucket []).length
    · have hdrop : h.ahead bucket position = (h.buckets.drop (bucket + 1)).flatten := by
        rw [ahead, hend, List.drop_length, nil_append]
      rw [if_pos (by omega)]
      by_cases hlast : bucket + 1 ≥ h.bucketCnt
      · rw [if_pos hlast]
        change h.ahead bucket position = []
        rw [hdrop, List.drop_eq_nil_of_le (by omega), List.flatten_nil]
      rw [if_neg hlast]
      have hsame : h.ahead bucket position = h.ahead (bucket + 1) 0 :=
        hdrop.trans (ahead_zero (by omega)).symm
      have hnext : Next h (bucket + 1) 0 (nextLoop h rounds (bucket + 1) 1) :=
        ih (by omega) (by omega) (by omega)
      simp only [Next, hsame]
      exact hnext
    · rw [if_neg (by omega)]
      have hin : position < (h.buckets.getD bucket []).length := by omega
      refine ⟨hbucket, hin, (h.buckets.getD bucket []).get ⟨position, hin⟩, ?_, ?_⟩
      · simp only [hashCur, Nat.add_one_ne_zero, if_false, Nat.add_sub_cancel]
        exact getElem?_eq_getElem hin
      · simp only [ahead]
        rw [List.drop_eq_getElem_cons hin]
        rfl

lemma hashIterate_eq (hlen : h.buckets.length = h.bucketCnt) :
    ∀ {i : HashIterator}, i.bucket < h.bucketCnt → i.position ≤
    (h.buckets.getD i.bucket []).length → (h.ahead i.bucket i.position).length < rounds →
    hashIterate h rounds i = some (h.ahead i.bucket i.position) := by
  induction rounds with
  | zero =>
    intro i _ _ hrounds
    omega
  | succ rounds ih =>
    intro i hbucket hpos hrounds
    have hnext : Next h i.bucket i.position (nextLoop h h.bucketCnt i.bucket (i.position + 1)) :=
      nextLoop_next hlen hbucket (by omega) hpos
    unfold hashIterate hashNext
    cases hres : nextLoop h h.bucketCnt i.bucket (i.position + 1) with
    | none =>
      rw [hres] at hnext
      exact congrArg some hnext.symm
    | some j =>
      rw [hres] at hnext
      obtain ⟨hjbucket, hjposition, e, hcur, hahead⟩ := hnext
      rw [hahead, length_cons] at hrounds
      simp only [hcur, ih hjbucket hjposition (by omega), hahead]
      rfl

def Visits (h : Hash α) (stored : Finset α) : Prop :=
  ∃ order : List α, order.Nodup ∧ (∀ e, e ∈ order ↔ e ∈ stored) ∧
    (∀ (σ : Type) (action : σ → α → σ) (s : σ), hashApply h action s = order.foldl action s) ∧
    ∀ rounds, order.length < rounds → hashIterate h rounds hashFirst = some order

lemma Stores.visits {hash : α → Nat} {less : α → α → Bool} {stored : Finset α}
    (hs : Stores hash less h stored) : Visits h stored := by
  have hfirst : h.ahead hashFirst.bucket hashFirst.position = h.elements := by
    have hpos := hs.holds.four
    exact ahead_zero (by rw [hs.holds.length]; exact lt_of_lt_of_le (by decide) hpos)
  refine ⟨h.elements, hs.holds.elements.nodup_iff.mpr stored.nodup_toList, fun e => hs.mem_elements,
    fun σ action s => hashApply_eq action s, fun rounds hrounds => ?_⟩
  rw [← hfirst]
  exact hashIterate_eq hs.holds.length (lt_of_lt_of_le (by decide) hs.holds.four) (Nat.zero_le _)
    (by rwa [hfirst])

end Visits

/-- A table after any operations, whichever of its calls of `malloc` fail. -/
theorem hashTable_refines {α : Type} [DecidableEq α] {hash : α → Nat} {less : α → α → Bool}
    (hlaw : Lawful hash less) (uninitialised : List (List α)) (ops : List (HashOp α)) :
    wp (runAll (perform hash less) ops) (fun results h => ∃ stored : Finset α,
      Steps (SetStep less) ∅ ops results stored ∧ Stores hash less h stored ∧ Visits h stored)
      (hashInit uninitialised) := by
  have hrun : wp (runAll (perform hash less) ops) (fun results h => ∃ stored,
      Steps (SetStep less) ∅ ops results stored ∧ Stores hash less h stored)
      (hashInit uninitialised) :=
    runAll_refines (fun op h stored hs => perform_simulates hlaw op hs) ops
      (hashInit_stores uninitialised)
  refine wp_mono hrun ?_
  rintro results h ⟨stored, hsteps, hs⟩
  exact ⟨stored, hsteps, hs, hs.visits⟩

/-- Numbers with the same last digit are equivalent. -/
theorem hashTable_refines_digits :
    wp (runAll (perform (fun n : Nat => n % 10) fun a b => decide (a % 10 < b % 10))
      [.insert 3 true, .insert 13 false, .replace 23 true, .delete 3 true]) (fun results h =>
        ∃ stored : Finset Nat, Steps (SetStep fun a b => decide (a % 10 < b % 10)) ∅
          [.insert 3 true, .insert 13 false, .replace 23 true, .delete 3 true] results stored ∧
        Stores (fun n => n % 10) (fun a b => decide (a % 10 < b % 10)) h stored ∧ Visits h stored)
      (hashInit []) := by
  refine hashTable_refines ⟨⟨fun a => ?_, fun h => ⟨h.2, h.1⟩, fun hab hbc => ?_⟩,
    fun a b hab => ?_⟩
    [] _
  · simp [Equivalent]
  · simp only [Equivalent, decide_eq_false_iff_not] at hab hbc ⊢
    omega
  · simp only [Equivalent, decide_eq_false_iff_not] at hab
    omega

end Hash

end Pintos
