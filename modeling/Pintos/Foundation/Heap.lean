import Mathlib.Tactic

/-!
# Addressed objects and reference counts

A part of the heap is a list of objects, each carrying its address.  The
operations find, update and remove the object at an address.  `Counted` ties the
count stored in every object to the list of references that exist to it: an
object is present exactly as long as a reference is.
-/

namespace Pintos.Foundation

variable {α : Type} (addr : α → Nat)

def findAt (objs : List α) (a : Nat) : Option α := objs.find? fun o => addr o = a

def updateAt (objs : List α) (a : Nat) (f : α → α) : List α :=
  objs.map fun o => if addr o = a then f o else o

def removeAt (objs : List α) (a : Nat) : List α := objs.filter fun o => addr o ≠ a

section Objects

variable {addr} {objs : List α} {a : Nat} {o : α} {f : α → α}

section

variable (hnodup : (objs.map addr).Nodup)

include hnodup

lemma eq_of_addr_eq {o o' : α} (ho : o ∈ objs) (ho' : o' ∈ objs) (h : addr o = addr o') : o = o' :=
  List.inj_on_of_nodup_map hnodup ho ho' h

lemma eq_singleton_of_forall (ho : o ∈ objs) (hall : ∀ o' ∈ objs, o' = o) : objs = [o] := by
  refine List.perm_singleton.mp ((List.perm_ext_iff_of_nodup (.of_map _ hnodup)
    (List.nodup_singleton o)).mpr fun o' => ?_)
  rw [List.mem_singleton]
  constructor
  · exact hall o'
  rintro rfl
  exact ho

lemma findAt_eq_some : findAt addr objs a = some o ↔ o ∈ objs ∧ addr o = a := by
  constructor
  · intro h
    exact ⟨List.mem_of_find?_eq_some h, by simpa using List.find?_some h⟩
  rintro ⟨ho, rfl⟩
  have hsome : (findAt addr objs (addr o)).isSome := by
    simp only [findAt, List.find?_isSome]
    exact ⟨o, ho, by simp⟩
  obtain ⟨o', ho'⟩ := Option.isSome_iff_exists.mp hsome
  have hmem := List.mem_of_find?_eq_some ho'
  have haddr : addr o' = addr o := by simpa using List.find?_some ho'
  rw [ho', eq_of_addr_eq hnodup hmem ho haddr]

end

lemma findAt_eq_none : findAt addr objs a = none ↔ ∀ o ∈ objs, addr o ≠ a := by simp [findAt]

lemma mem_updateAt : o ∈ updateAt addr objs a f ↔
      (∃ o' ∈ objs, addr o' = a ∧ o = f o') ∨ (o ∈ objs ∧ addr o ≠ a) := by
  simp only [updateAt, List.mem_map]
  constructor
  · rintro ⟨o', ho', rfl⟩
    by_cases h : addr o' = a
    · exact .inl ⟨o', ho', h, by simp [h]⟩
    · exact .inr (by simpa [h] using ho')
  · rintro (⟨o', ho', h, rfl⟩ | ⟨ho, h⟩)
    · exact ⟨o', ho', by simp [h]⟩
    · exact ⟨o, ho, by simp [h]⟩

lemma forall_mem_updateAt {P : α → Prop} (h : ∀ o ∈ objs, P o)
    (hf : ∀ o ∈ objs, addr o = a → P (f o)) : ∀ o ∈ updateAt addr objs a f, P o := by
  intro o ho
  rcases mem_updateAt.mp ho with ⟨o', ho', ha, rfl⟩ | ⟨ho, -⟩
  · exact hf o' ho' ha
  · exact h o ho

lemma findAt_updateAt_self (h : ∀ o, addr (f o) = addr o) :
    findAt addr (updateAt addr objs a f) a = (findAt addr objs a).map f := by
  induction objs with
  | nil => rfl
  | cons o rest ih =>
    simp only [findAt, updateAt, List.map_cons, List.find?_cons] at ih ⊢
    by_cases ho : addr o = a
    · simp [ho, h]
    · simpa [ho] using ih

lemma findAt_updateAt_of_ne (h : ∀ o, addr (f o) = addr o) {b : Nat} (hne : b ≠ a) :
    findAt addr (updateAt addr objs a f) b = findAt addr objs b := by
  induction objs with
  | nil => rfl
  | cons o rest ih =>
    simp only [findAt, updateAt, List.map_cons] at ih ⊢
    by_cases hoa : addr o = a
    · have hob : ¬ addr o = b := fun hob => hne (hob.symm.trans hoa)
      rw [if_pos hoa, List.find?_cons_of_neg (by simp [h, hob]),
        List.find?_cons_of_neg (by simp [hob]), ih]
    rw [if_neg hoa]
    by_cases hob : addr o = b
    · rw [List.find?_cons_of_pos (by simp [hob]), List.find?_cons_of_pos (by simp [hob])]
    · rw [List.find?_cons_of_neg (by simp [hob]), List.find?_cons_of_neg (by simp [hob]), ih]

lemma updateAt_congr {g : α → α} (h : ∀ o ∈ objs, addr o = a → f o = g o) :
    updateAt addr objs a f = updateAt addr objs a g := by
  refine List.map_congr_left fun o ho => ?_
  split_ifs with haddr
  · exact h o ho haddr
  · rfl

lemma updateAt_updateAt (h : ∀ o, addr (f o) = addr o) (g : α → α) :
    updateAt addr (updateAt addr objs a f) a g = updateAt addr objs a fun o => g (f o) := by
  simp only [updateAt, List.map_map]
  refine List.map_congr_left fun o _ => ?_
  by_cases ho : addr o = a <;> simp [ho, h]

lemma map_updateAt {β : Type} (g : α → β) (h : ∀ o, g (f o) = g o) :
    (updateAt addr objs a f).map g = objs.map g := by
  simp only [updateAt, List.map_map]
  apply List.map_congr_left
  intro o _
  by_cases ho : addr o = a <;> simp [ho, h]

/-! A function on the objects that keeps their addresses goes through all operations. -/

lemma findAt_map {g : α → α} (hg : ∀ o, addr (g o) = addr o) :
    findAt addr (objs.map g) a = (findAt addr objs a).map g := by
  simp only [findAt, List.find?_map]
  exact congrArg (Option.map g) (congrArg (List.find? · objs) (by funext o; simp [hg]))

lemma updateAt_map {g : α → α} (hg : ∀ o, addr (g o) = addr o) (hf : ∀ o, f (g o) = g (f o)) :
    updateAt addr (objs.map g) a f = (updateAt addr objs a f).map g := by
  simp only [updateAt, List.map_map]
  refine List.map_congr_left fun o _ => ?_
  by_cases h : addr o = a <;> simp [hg, hf, h]

lemma removeAt_map {g : α → α} (hg : ∀ o, addr (g o) = addr o) :
    removeAt addr (objs.map g) a = (removeAt addr objs a).map g := by
  simp only [removeAt, List.filter_map]
  exact congrArg (List.map g) (congrArg (List.filter · objs) (by funext o; simp [hg]))

lemma mem_removeAt : o ∈ removeAt addr objs a ↔ o ∈ objs ∧ addr o ≠ a := by simp [removeAt]

lemma removeAt_updateAt (h : ∀ o, addr (f o) = addr o) :
    removeAt addr (updateAt addr objs a f) a = removeAt addr objs a := by
  induction objs with
  | nil => rfl
  | cons o rest ih =>
    simp only [removeAt, updateAt, List.map_cons, List.filter_cons] at ih ⊢
    by_cases ho : addr o = a
    · simpa [ho, h] using ih
    · simpa [ho] using ih

lemma nodup_removeAt (hnodup : (objs.map addr).Nodup) (a : Nat) :
    ((removeAt addr objs a).map addr).Nodup :=
  hnodup.sublist (List.filter_sublist.map addr)

lemma map_perm_removeAt {β : Type} (g : α → β) (hnodup : (objs.map addr).Nodup) (ho : o ∈ objs) :
    (objs.map g).Perm (g o :: (removeAt addr objs (addr o)).map g) := by
  induction objs with
  | nil => simp at ho
  | cons p rest ih =>
    rw [List.map_cons, List.nodup_cons] at hnodup
    rcases List.mem_cons.mp ho with rfl | hrest
    · have hkeep : removeAt addr (o :: rest) (addr o) = rest := by
        have hall : ∀ q ∈ rest, addr q ≠ addr o := by
          intro q hq he
          exact hnodup.1 (he ▸ List.mem_map_of_mem hq)
        simpa [removeAt, List.filter_eq_self] using hall
      rw [hkeep, List.map_cons]
    have hne : addr p ≠ addr o := by
      intro he
      exact hnodup.1 (he ▸ List.mem_map_of_mem hrest)
    have hcons : removeAt addr (p :: rest) (addr o) = p :: removeAt addr rest (addr o) := by
      simp [removeAt, hne]
    rw [hcons, List.map_cons, List.map_cons]
    exact ((ih hnodup.2 hrest).cons (g p)).trans (List.Perm.swap _ _ _)

lemma perm_removeAt (hnodup : (objs.map addr).Nodup) (hfind : findAt addr objs a = some o) :
    objs.Perm (o :: removeAt addr objs a) := by
  obtain ⟨ho, rfl⟩ := (findAt_eq_some hnodup).mp hfind
  simpa using map_perm_removeAt id hnodup ho

lemma perm_updateAt (hnodup : (objs.map addr).Nodup) (hfind : findAt addr objs a = some o)
    (hf : ∀ o, addr (f o) = addr o) :
    (updateAt addr objs a f).Perm (f o :: removeAt addr objs a) := by
  have hnodup' : ((updateAt addr objs a f).map addr).Nodup := by rwa [map_updateAt addr hf]
  have hfind' : findAt addr (updateAt addr objs a f) a = some (f o) := by
    rw [findAt_updateAt_self hf, hfind]
    rfl
  have hperm := perm_removeAt hnodup' hfind'
  rwa [removeAt_updateAt hf] at hperm

end Objects

/-! ## Reference counts -/

structure Counted (count : α → Int) (objs : List α) (refs : List Nat) : Prop where
  nodup : (objs.map addr).Nodup
  count_eq : ∀ o ∈ objs, count o = refs.count (addr o)
  referenced : ∀ o ∈ objs, addr o ∈ refs
  present : ∀ a ∈ refs, ∃ o ∈ objs, addr o = a

namespace Counted

variable {addr} {count : α → Int} {objs : List α} {refs refs' : List Nat} {a : Nat}

lemma perm (h : Counted addr count objs refs) (hperm : refs.Perm refs') :
    Counted addr count objs refs' where
  nodup := h.nodup
  count_eq o ho := by rw [h.count_eq o ho, hperm.count_eq]
  referenced o ho := hperm.mem_iff.mp (h.referenced o ho)
  present b hb := h.present b (hperm.mem_iff.mpr hb)

lemma insert (h : Counted addr count objs refs) {o : α} (hone : count o = 1)
    (hnew : ∀ p ∈ objs, addr p ≠ addr o) : Counted addr count (o :: objs) (addr o :: refs) := by
  have hfresh : addr o ∉ refs := by
    intro hmem
    obtain ⟨p, hp, he⟩ := h.present _ hmem
    exact hnew p hp he
  refine ⟨?_, ?_, ?_, ?_⟩
  · rw [List.map_cons, List.nodup_cons]
    refine ⟨?_, h.nodup⟩
    intro hmem
    obtain ⟨p, hp, he⟩ := List.mem_map.mp hmem
    exact hnew p hp he
  · intro p hp
    rcases List.mem_cons.mp hp with rfl | hp
    · rw [hone, List.count_cons_self, List.count_eq_zero.mpr hfresh]
      rfl
    · rw [h.count_eq p hp, List.count_cons_of_ne (hnew p hp).symm]
  · intro p hp
    rcases List.mem_cons.mp hp with rfl | hp
    · exact List.mem_cons_self
    · exact List.mem_cons_of_mem _ (h.referenced p hp)
  · intro b hb
    rcases List.mem_cons.mp hb with rfl | hb
    · exact ⟨o, List.mem_cons_self, rfl⟩
    obtain ⟨p, hp, he⟩ := h.present b hb
    exact ⟨p, List.mem_cons_of_mem _ hp, he⟩

section Update

variable {f : α → α} (haddr : ∀ o, addr (f o) = addr o)

include haddr

lemma present_updateAt (h : ∀ b ∈ refs, ∃ o ∈ objs, addr o = b) :
    ∀ b ∈ refs, ∃ o ∈ updateAt addr objs a f, addr o = b := by
  intro b hb
  obtain ⟨o, ho, he⟩ := h b hb
  by_cases hoa : addr o = a
  · exact ⟨f o, mem_updateAt.mpr (.inl ⟨o, ho, hoa, rfl⟩), (haddr o).trans he⟩
  · exact ⟨o, mem_updateAt.mpr (.inr ⟨ho, hoa⟩), he⟩

lemma update (h : Counted addr count objs refs) (hcnt : ∀ o, count (f o) = count o) :
    Counted addr count (updateAt addr objs a f) refs := by
  refine ⟨by rw [map_updateAt addr haddr]; exact h.nodup, ?_, ?_, present_updateAt haddr h.present⟩
  · exact forall_mem_updateAt h.count_eq fun o ho _ => by rw [hcnt, haddr, h.count_eq o ho]
  · exact forall_mem_updateAt h.referenced fun o ho _ => haddr o ▸ h.referenced o ho

lemma acquire (h : Counted addr count objs refs) (ha : a ∈ refs)
    (hcnt : ∀ o, count (f o) = count o + 1) :
    Counted addr count (updateAt addr objs a f) (a :: refs) := by
  refine ⟨by rw [map_updateAt addr haddr]; exact h.nodup, ?_, ?_, ?_⟩
  · intro p hp
    rcases mem_updateAt.mp hp with ⟨o, ho, rfl, rfl⟩ | ⟨ho, hne⟩
    · rw [hcnt, haddr, h.count_eq o ho, List.count_cons_self]
      push_cast
      rfl
    · rw [h.count_eq p ho, List.count_cons_of_ne (Ne.symm hne)]
  · refine forall_mem_updateAt (fun p hp => List.mem_cons_of_mem _ (h.referenced p hp)) ?_
    rintro o - rfl
    exact haddr o ▸ List.mem_cons_self
  · intro b hb
    refine present_updateAt haddr h.present b ?_
    rcases List.mem_cons.mp hb with rfl | hb
    · exact ha
    · exact hb

lemma release (h : Counted addr count objs (a :: refs)) (ha : a ∈ refs)
    (hcnt : ∀ o, count (f o) = count o - 1) : Counted addr count (updateAt addr objs a f) refs := by
  refine ⟨by rw [map_updateAt addr haddr]; exact h.nodup, ?_, ?_, ?_⟩
  · intro p hp
    rcases mem_updateAt.mp hp with ⟨o, ho, rfl, rfl⟩ | ⟨ho, hne⟩
    · rw [hcnt, haddr, h.count_eq o ho, List.count_cons_self]
      push_cast
      omega
    · rw [h.count_eq p ho, List.count_cons_of_ne (Ne.symm hne)]
  · intro p hp
    rcases mem_updateAt.mp hp with ⟨o, ho, rfl, rfl⟩ | ⟨ho, hne⟩
    · rw [haddr]
      exact ha
    rcases List.mem_cons.mp (h.referenced p ho) with he | hmem
    · exact absurd he hne
    · exact hmem
  · exact present_updateAt haddr fun b hb => h.present b (List.mem_cons_of_mem _ hb)

end Update

lemma releaseLast (h : Counted addr count objs (a :: refs)) (ha : a ∉ refs) :
    Counted addr count (removeAt addr objs a) refs := by
  refine ⟨nodup_removeAt h.nodup a, ?_, ?_, ?_⟩
  · intro o ho
    obtain ⟨ho, hne⟩ := mem_removeAt.mp ho
    rw [h.count_eq o ho, List.count_cons_of_ne (Ne.symm hne)]
  · intro o ho
    obtain ⟨ho, hne⟩ := mem_removeAt.mp ho
    rcases List.mem_cons.mp (h.referenced o ho) with he | hmem
    · exact absurd he hne
    · exact hmem
  · intro b hb
    obtain ⟨o, ho, he⟩ := h.present b (List.mem_cons_of_mem _ hb)
    refine ⟨o, mem_removeAt.mpr ⟨ho, ?_⟩, he⟩
    rintro rfl
    exact ha (he ▸ hb)

lemma count_eq_one_iff (h : Counted addr count objs (a :: refs)) {o : α}
    (ho : o ∈ objs) (haddr : addr o = a) : count o - 1 = 0 ↔ a ∉ refs := by
  rw [h.count_eq o ho, haddr, List.count_cons_self, ← List.count_eq_zero]
  push_cast
  omega

end Counted

end Pintos.Foundation
