import Pintos.Foundation.Memory

/-!
# Packed byte strings

A byte string laid out in memory, and the ways in which records are packed into
one: words in little-endian order, fields padded to a fixed width, and arrays of
records of one width.
-/

namespace Pintos.Foundation

variable {bytes first : List Byte} {a count width : Nat}

def ofBytes (bytes : List Byte) : Memory := fun a => bytes.getD a 0

def littleEndian (value : Nat) : List Byte := (List.range 4).map (wordByte value)

def padTo (width : Nat) (bytes : List Byte) : List Byte :=
  bytes.take width ++ List.replicate (width - bytes.length) 0

@[simp] lemma littleEndian_length (value : Nat) : (littleEndian value).length = 4 := by
  simp [littleEndian]

@[simp] lemma padTo_length (width : Nat) (bytes : List Byte) :
    (padTo width bytes).length = width := by
  simp only [padTo, List.length_append, List.length_take, List.length_replicate]
  omega

lemma ofBytes_of_length_le (h : bytes.length ≤ a) : ofBytes bytes a = 0 := by simp [ofBytes, h]

lemma ofBytes_eq_getElem (h : a < bytes.length) : ofBytes bytes a = bytes[a] := by simp [ofBytes, h]

lemma ofBytes_replicate (value : Byte) (h : a < count) :
    ofBytes (List.replicate count value) a = value := by
  rw [ofBytes_eq_getElem (by rwa [List.length_replicate]), List.getElem_replicate]

lemma eq_map_of_ofBytes {f : Nat → Byte} (hlen : bytes.length = count)
    (h : ∀ a < count, ofBytes bytes a = f a) : bytes = (List.range count).map f := by
  apply List.ext_getElem
  · rw [List.length_map, List.length_range, hlen]
  intro a ha _
  rw [List.getElem_map, List.getElem_range, ← h a (hlen ▸ ha), ofBytes_eq_getElem ha]

lemma ofBytes_append_left (second : List Byte)
    (h : a < first.length) : ofBytes (first ++ second) a = ofBytes first a := by
  simp [ofBytes, List.getElem?_append_left h]

lemma ofBytes_append_right (first second : List Byte) (a : Nat) :
    ofBytes (first ++ second) (first.length + a) = ofBytes second a := by
  simp [ofBytes, List.getElem?_append_right]

lemma ofBytes_skip {n : Nat} (h : first.length = n) (second : List Byte)
    (a : Nat) : ofBytes (first ++ second) (n + a) = ofBytes second a := by
  rw [← h, ofBytes_append_right]

lemma ofBytes_append_zero (bytes : List Byte) (a : Nat) :
    ofBytes (bytes ++ [0]) a = ofBytes bytes a := by
  by_cases hin : a < bytes.length
  · exact ofBytes_append_left _ hin
  obtain ⟨b, rfl⟩ := Nat.exists_eq_add_of_le (Nat.le_of_not_lt hin)
  rw [ofBytes_append_right, ofBytes_of_length_le (Nat.le_add_right bytes.length b)]
  cases b with
  | zero => rfl
  | succ b => rfl

lemma ofBytes_padTo (bytes : List Byte) (h : a < width) :
    ofBytes (padTo width bytes) a = ofBytes bytes a := by
  by_cases hin : a < bytes.length
  · have htake : a < (bytes.take width).length := by
      rw [List.length_take]
      omega
    rw [padTo, ofBytes_append_left _ htake]
    simp [ofBytes, h]
  have hwidth : bytes.length ≤ width := by omega
  have hout := Nat.le_of_not_lt hin
  have hfill : a - bytes.length < width - bytes.length := by omega
  rw [padTo, List.take_of_length_le hwidth]
  simp [ofBytes, List.getElem?_append_right hout, hfill, hout]

lemma ofBytes_littleEndian (value : Nat) {k : Nat} (h : k < 4) :
    ofBytes (littleEndian value) k = wordByte value k := by
  simp [ofBytes, littleEndian, h]

/-! ## Strings in a memory -/

def HoldsAt (m : Memory) (a : Nat) (bytes : List Byte) : Prop :=
  ∀ i < bytes.length, m (a + i) = ofBytes bytes i

def bytesAt (m : Memory) (a count : Nat) : List Byte := (List.range count).map fun i => m (a + i)

section HoldsAt

variable {m m' : Memory} {second : List Byte}

lemma HoldsAt.congr (h : HoldsAt m a bytes) (hsame : ∀ i < bytes.length, m' (a + i) = m (a + i)) :
    HoldsAt m' a bytes := fun i hi => (hsame i hi).trans (h i hi)

lemma holdsAt_append :
    HoldsAt m a (first ++ second) ↔ HoldsAt m a first ∧ HoldsAt m (a + first.length) second := by
  constructor
  · refine fun h => ⟨fun i hi => ?_, fun i hi => ?_⟩
    · rw [h i (by rw [List.length_append]; omega), ofBytes_append_left _ hi]
    · rw [Nat.add_assoc, h _ (by rw [List.length_append]; omega), ofBytes_append_right]
  rintro ⟨hfirst, hsecond⟩ i hi
  rw [List.length_append] at hi
  by_cases hin : i < first.length
  · rw [hfirst i hin, ofBytes_append_left _ hin]
  obtain ⟨j, rfl⟩ := Nat.exists_eq_add_of_le (Nat.le_of_not_lt hin)
  rw [← Nat.add_assoc, hsecond j (by omega), ofBytes_append_right]

lemma bytesAt_length (m : Memory) (a count : Nat) : (bytesAt m a count).length = count := by
  simp [bytesAt]

lemma holdsAt_bytesAt (m : Memory) (a count : Nat) : HoldsAt m a (bytesAt m a count) := by
  intro i hi
  rw [bytesAt_length] at hi
  simp [ofBytes, bytesAt, hi]

lemma HoldsAt.bytesAt_eq (h : HoldsAt m a bytes) (hcnt : bytes.length ≤ count) :
    ∃ rest, bytesAt m a count = bytes ++ rest := by
  obtain ⟨more, rfl⟩ := Nat.exists_eq_add_of_le hcnt
  refine ⟨(List.range more).map fun i => m (a + (bytes.length + i)), ?_⟩
  rw [bytesAt, List.range_add, List.map_append, List.map_map]
  congr 1
  exact (eq_map_of_ofBytes rfl fun i hi => (h i hi).symm).symm

end HoldsAt

lemma getElem?_flatMap {α β : Type} {record : α → List β} (hwidth : ∀ a, (record a).length = width)
    (items : List α) (i : Nat) {j : Nat} (hj : j < width) :
    (items.flatMap record)[width * i + j]? = items[i]?.bind fun a => (record a)[j]? := by
  induction items generalizing i with
  | nil => simp
  | cons a rest ih =>
    rw [List.flatMap_cons]
    cases i with
    | zero =>
      rw [Nat.mul_zero, Nat.zero_add, List.getElem?_append_left (by rw [hwidth]; exact hj)]
      simp
    | succ i =>
      rw [Nat.mul_succ, List.getElem?_append_right (by rw [hwidth]; omega), hwidth,
        show width * i + width + j - width = width * i + j by omega, ih]
      simp

end Pintos.Foundation
