import Pintos.Userprog.PageTables

/-!
# Page tables are a finite map

The two levels of tables hold one packed word for each user page, and every
operation changes the word of one page.  The words say which frame a page is
mapped to, so a directory behaves as the map that the operations describe.
-/

namespace Pintos.Userprog.PageTables

open Foundation

variable {initPageDir kpage palloc pd pde t w w' : Word} {i : Nat} {p : Pages}
  {table : Nat → Option Word}

/-! ## Packed words -/

section Words

variable {va : Word}

lemma pgOfs_toNat (va : Word) : (pgOfs va).toNat = va.toNat % 4096 := by
  rw [pgOfs, BitVec.toNat_and]
  exact Nat.and_two_pow_sub_one_eq_mod va.toNat 12

lemma pgOfs_eq_zero : pgOfs va = 0 ↔ va.toNat % 4096 = 0 := by
  rw [← pgOfs_toNat, ← BitVec.toNat_inj]
  rfl

lemma ptNo_eq (va : Word) : ptNo va = va.toNat / 4096 % 1024 := by
  have hmask : (0x3ff000#32).toNat >>> 12 = 2 ^ 10 - 1 := by decide
  rw [ptNo, BitVec.toNat_ushiftRight, BitVec.toNat_and, Nat.shiftRight_and_distrib, hmask,
    Nat.and_two_pow_sub_one_eq_mod, Nat.shiftRight_eq_div_pow]

lemma pdNo_eq (va : Word) : pdNo va = va.toNat / 4096 / 1024 := by
  rw [pdNo, BitVec.toNat_ushiftRight, Nat.shiftRight_eq_div_pow, Nat.div_div_eq_div_mul]

def pageNo (va : Word) : Nat := va.toNat / 4096

lemma kernelBase_toNat : kernelBase.toNat = 768 * 1024 * 4096 := rfl

lemma pageNo_lt (h : va < kernelBase) : pageNo va < 768 * 1024 := by
  rw [BitVec.lt_def, kernelBase_toNat] at h
  unfold pageNo
  omega

lemma and_flag_ne_zero (hi : i < 32) : w &&& BitVec.twoPow 32 i ≠ 0 ↔ w.getLsbD i = true := by
  rw [BitVec.and_twoPow]
  have hne : BitVec.twoPow 32 i ≠ 0 := by
    intro heq
    have := congrArg (·.getLsbD i) heq
    simp [hi] at this
  split
  · next hset => exact iff_of_true hne hset
  · next hset => exact iff_of_false (fun h => h rfl) hset

lemma getLsbD_pteAddr (hi : i < 32) : pteAddr.getLsbD i = decide (12 ≤ i) := by
  revert i
  decide

lemma getLsbD_addr (hi : i < 32) : (w &&& pteAddr).getLsbD i =
    (w.getLsbD i && decide (12 ≤ i)) := by
  rw [BitVec.getLsbD_and, getLsbD_pteAddr hi]

lemma addr_congr (h : ∀ i, 12 ≤ i → i < 32 → w'.getLsbD i = w.getLsbD i) :
    w' &&& pteAddr = w &&& pteAddr := by
  apply BitVec.eq_of_getLsbD_eq
  intro i hi
  rw [getLsbD_addr hi, getLsbD_addr hi]
  by_cases hlow : 12 ≤ i
  · rw [h i hlow hi]
  · simp [hlow]

lemma getLsbD_or_flag (hi : i < 32) (j : Nat) :
    (w ||| BitVec.twoPow 32 i).getLsbD j = (w.getLsbD j || decide (i = j)) := by
  simp [BitVec.getLsbD_twoPow, hi]

lemma getLsbD_and_not_flag (hi : i < 32) {j : Nat} (hj : j < 32) :
    (w &&& ~~~BitVec.twoPow 32 i).getLsbD j = (w.getLsbD j && !decide (i = j)) := by
  rw [BitVec.getLsbD_and, BitVec.getLsbD_not, BitVec.getLsbD_twoPow]
  simp [hi, hj]

lemma getLsbD_flag {flag : Word} (hflag : flag.toNat < 2 ^ 12) (hi : 12 ≤ i) :
    flag.getLsbD i = false :=
  Nat.testBit_lt_two_pow (hflag.trans_le (Nat.pow_le_pow_right (by omega) hi))

lemma getLsbD_of_aligned (h : pgOfs w = 0) (hi : i < 12) : w.getLsbD i = false := by
  rw [pgOfs_eq_zero] at h
  have := Nat.testBit_mod_two_pow w.toNat 12 i
  rw [show (2 ^ 12 = 4096) from rfl, h] at this
  simpa [hi, BitVec.getLsbD] using this.symm

lemma addr_of_aligned (h : pgOfs w = 0) : w &&& pteAddr = w := by
  apply BitVec.eq_of_getLsbD_eq
  intro i hi
  rw [getLsbD_addr hi]
  by_cases hlow : 12 ≤ i
  · simp [hlow]
  rw [getLsbD_of_aligned h (Nat.lt_of_not_le hlow)]
  rfl

lemma kernel_page (hpage : pgOfs w = 0) (hkernel : kernelBase ≤ w) :
    vtop w = .ok (w - kernelBase) ∧ pgOfs (w - kernelBase) = 0 ∧ w - kernelBase < kernelBase ∧
      w - kernelBase + kernelBase = w := by
  have hsub : (w - kernelBase).toNat = w.toNat - kernelBase.toNat := BitVec.toNat_sub_of_le hkernel
  have hle : kernelBase.toNat ≤ w.toNat := hkernel
  have hlt := w.isLt
  rw [pgOfs_eq_zero] at hpage
  refine ⟨?_, ?_, ?_, BitVec.sub_add_cancel _ _⟩
  · rw [vtop, assertThat_of_true _ hkernel]
    rfl
  · rw [pgOfs_eq_zero, hsub]
    rw [kernelBase_toNat] at *
    omega
  · rw [BitVec.lt_def, hsub]
    rw [kernelBase_toNat] at *
    omega

def frameOf (w : Word) : Option Word :=
  if w &&& pteP ≠ 0 then some ((w &&& pteAddr) + kernelBase) else none

def Physical (w : Word) : Prop := w &&& pteP ≠ 0 → w &&& pteAddr < kernelBase

lemma frameOf_congr (haddr : w' &&& pteAddr = w &&& pteAddr) (hpres : w'.getLsbD 0 = w.getLsbD 0) :
    frameOf w' = frameOf w ∧ (Physical w → Physical w') := by
  have hp : w' &&& pteP ≠ 0 ↔ w &&& pteP ≠ 0 := by
    rw [show pteP = BitVec.twoPow 32 0 from rfl, and_flag_ne_zero (by omega),
      and_flag_ne_zero (by omega), hpres]
  constructor
  · simp only [frameOf, hp, haddr]
  intro h hpres'
  rw [haddr]
  exact h (hp.mp hpres')

lemma packed_entry (flags : Word) (halign : pgOfs w = 0) (hflags : flags.toNat < 2 ^ 12)
    (hpres : flags.getLsbD 0 = true) :
    (w ||| flags) &&& pteAddr = w ∧ (w ||| flags) &&& pteP ≠ 0 := by
  constructor
  · refine (addr_congr fun i hi _ => ?_).trans (addr_of_aligned halign)
    rw [BitVec.getLsbD_or, getLsbD_flag hflags hi, Bool.or_false]
  · rw [show pteP = BitVec.twoPow 32 0 from rfl, and_flag_ne_zero (by omega), BitVec.getLsbD_or,
      hpres, Bool.or_true]

lemma pteCreateUser_spec (writable : Bool) (hpage : pgOfs kpage = 0)
    (hkernel : kernelBase ≤ kpage) :
    ∃ w, pteCreateUser kpage writable = .ok w ∧ frameOf w = some kpage ∧ Physical w := by
  obtain ⟨hvtop, halign, hlow, hback⟩ := kernel_page hpage hkernel
  obtain ⟨haddr, hpres⟩ := packed_entry (pteP ||| (if writable then pteW else 0) ||| pteU)
    halign (by cases writable <;> decide) (by cases writable <;> decide)
  refine ⟨_, ?_, ?_, fun _ => haddr ▸ hlow⟩
  · rw [pteCreateUser, pteCreateKernel, assertThat_of_true _ hpage, hvtop, ← BitVec.or_assoc,
      ← BitVec.or_assoc]
    rfl
  · rw [frameOf, if_pos hpres, haddr]
    exact congrArg some hback

lemma pdeCreate_spec (hpage : pgOfs t = 0) (hkernel : kernelBase ≤ t) :
    ∃ pde, pdeCreate t = .ok pde ∧ pde ≠ 0 ∧ pde &&& pteP ≠ 0 ∧ pdeGetPt pde = .ok t := by
  obtain ⟨hvtop, halign, hlow, hback⟩ := kernel_page hpage hkernel
  obtain ⟨haddr, hpres⟩ := packed_entry (pteU ||| pteP ||| pteW) halign (by decide)
    (by decide)
  refine ⟨_, ?_, ?_, hpres, ?_⟩
  · rw [pdeCreate, assertThat_of_true _ hpage, hvtop, ← BitVec.or_assoc, ← BitVec.or_assoc]
    rfl
  · intro hzero
    rw [hzero] at hpres
    simp at hpres
  · rw [pdeGetPt, assertThat_of_true _ hpres, ptov, haddr, assertThat_of_true _ hlow]
    exact congrArg Except.ok hback

end Words

/-! ## The words of the user pages -/

/-- The words of the page tables, where `table` says which entries of the directory have one. -/
def wordAt (words : Word → Nat → Word) (table : Nat → Option Word) (page : Nat) : Word :=
  match table (page / 1024) with
  | some t => words t (page % 1024)
  | none => 0

structure Holds (p : Pages) (pd : Word) (table : Nat → Option Word) : Prop where
  nonnull : pd ≠ 0
  missing : ∀ i < 768, table i = none → p.words pd i = 0
  present : ∀ i t, table i = some t → i < 768 ∧ p.words pd i ≠ 0 ∧ p.words pd i &&& pteP ≠ 0 ∧
    pdeGetPt (p.words pd i) = .ok t ∧ t ≠ pd
  once : ∀ i j t, table i = some t → table j = some t → i = j

section Holds

variable {va : Word}

lemma pdNo_lt (hva : va < kernelBase) : pdNo va < 768 := by
  have := pageNo_lt hva
  rw [pdNo_eq]
  unfold pageNo at this
  omega

lemma Holds.wp_lookup (h : Holds p pd table) (hva : va < kernelBase)
    (Q : Option (Word × Nat) → Pages → Prop) : wp (lookupPage pd va false 0) Q p ↔
      Q ((table (pdNo va)).map (·, ptNo va)) p := by
  simp only [lookupPage, wp_bind, wp_require, wp_get, wp_ite,
    wp_pure, h.nonnull, ne_eq, not_false_eq_true, true_and, true_or]
  cases htab : table (pdNo va) with
  | none =>
    rw [if_pos (h.missing _ (pdNo_lt hva) htab)]
    exact Iff.rfl
  | some t =>
    obtain ⟨-, hne, -, hget, -⟩ := h.present _ t htab
    rw [if_neg hne]
    simp only [tableEntry, wp_bind, wp_get, wp_ofExcept hget, wp_pure, Option.map_some]

lemma Holds.setWord (h : Holds p pd table) (ht : table (pdNo va) = some t) (w : Word) :
    Holds (p.setWord t (ptNo va) w) pd table ∧
    ∀ page, wordAt (p.setWord t (ptNo va) w).words table page =
      if page = pageNo va then w else wordAt p.words table page := by
  obtain ⟨-, -, -, -, hpd⟩ := h.present _ t ht
  have hsame : (p.setWord t (ptNo va) w).words pd = p.words pd := by
    rw [Pages.setWord_words, update_of_ne (Ne.symm hpd)]
  refine ⟨⟨h.nonnull, fun i hi hnone => ?_, fun i t' ht' => ?_, h.once⟩, fun page => ?_⟩
  · rw [hsame]
    exact h.missing i hi hnone
  · rw [hsame]
    exact h.present i t' ht'
  rw [pdNo_eq] at ht
  rw [ptNo_eq]
  unfold wordAt pageNo
  by_cases heq : page = va.toNat / 4096
  · subst heq
    rw [if_pos rfl, ht]
    simp
  rw [if_neg heq]
  cases hpage : table (page / 1024) with
  | none => rfl
  | some t' =>
    simp only [Pages.setWord_words, update_apply]
    split
    · next htt =>
        subst htt
        have hdir := h.once _ _ t' hpage ht
        rw [update_of_ne]
        intro hindex
        exact heq (by omega)
    · rfl

lemma Holds.newTable (h : Holds p pd table) (hi : i < 768)
    (hnone : table i = none) (htpd : t ≠ pd) (hnew : ∀ j u, table j = some u → t ≠ u)
    (hpde : pde ≠ 0 ∧ pde &&& pteP ≠ 0 ∧ pdeGetPt pde = .ok t) :
    Holds ((p.allocate t fun _ => 0).setWord pd i pde) pd (update table i (some t)) ∧
      ∀ page, wordAt ((p.allocate t fun _ => 0).setWord pd i pde).words
        (update table i (some t)) page = wordAt p.words table page := by
  have hpd : ((p.allocate t fun _ => 0).setWord pd i pde).words pd = update (p.words pd) i pde := by
    rw [Pages.setWord_words, update_self, Pages.allocate_words, update_of_ne (Ne.symm htpd)]
  refine ⟨⟨h.nonnull, fun j hj hj' => ?_, fun j u hu => ?_, fun j k u hu hu' => ?_⟩, fun page => ?_⟩
  · have hne : j ≠ i := by
      rintro rfl
      simp at hj'
    rw [update_of_ne hne] at hj'
    rw [hpd, update_of_ne hne]
    exact h.missing j hj hj'
  · rw [hpd]
    by_cases heq : j = i
    · subst heq
      rw [update_self] at hu
      obtain rfl := some.inj hu
      rw [update_self]
      exact ⟨hi, hpde.1, hpde.2.1, hpde.2.2, htpd⟩
    · rw [update_of_ne heq] at hu
      rw [update_of_ne heq]
      exact h.present j u hu
  · rw [update_apply] at hu hu'
    split at hu
    · next hji =>
        obtain rfl := some.inj hu
        split at hu'
        · next hki => rw [hji, hki]
        · exact absurd rfl (hnew k t hu')
    · split at hu'
      · obtain rfl := some.inj hu'
        exact absurd rfl (hnew j t hu)
      · exact h.once j k u hu hu'
  · unfold wordAt
    by_cases heq : page / 1024 = i
    · rw [heq, update_self, hnone]
      simp only [Pages.setWord_words, Pages.allocate_words]
      rw [update_of_ne htpd, update_self]
    rw [update_of_ne heq]
    cases hpage : table (page / 1024) with
    | none => rfl
    | some u =>
      obtain ⟨-, -, -, -, hupd⟩ := h.present _ u hpage
      simp only [Pages.setWord_words, Pages.allocate_words]
      rw [update_of_ne hupd, update_of_ne (Ne.symm (hnew _ u hpage))]

end Holds

/-! ## Operations on a directory -/

inductive Change where
  | set (page : Nat) (frame : Word)
  | clear (page : Nat)
  deriving DecidableEq, Repr

def lastMapped : List Change → Nat → Option Word
  | [], _ => none
  | .set page frame :: rest, q => if page = q then some frame else lastMapped rest q
  | .clear page :: rest, q => if page = q then none else lastMapped rest q

structure Directory where
  pages : Pages
  pd : Word
  /-- The page tables that were created. -/
  created : List Word
  /-- The changes that were made, the last one first. -/
  log : List Change

variable {log : List Change} {c : Directory}

inductive Op where
  | setPage (upage kpage : Word) (writable : Bool) (palloc : Word)
  | clearPage (upage : Word)
  | setDirty (vpage : Word) (dirty : Bool)
  | setAccessed (vpage : Word) (accessed : Bool)
  deriving DecidableEq, Repr

def Op.page : Op → Nat
  | .setPage upage _ _ _ => pageNo upage
  | .clearPage upage => pageNo upage
  | .setDirty vpage _ => pageNo vpage
  | .setAccessed vpage _ => pageNo vpage

section Operations

variable (initPageDir : Word) (ramPages : Nat)

def step (c : Directory) : Op → Option Directory
  | .setPage upage kpage writable palloc =>
    match pagedirSetPage initPageDir ramPages c.pd upage kpage writable palloc c.pages with
    | .ok (done, p) =>
      let created := if c.pages.words c.pd (pdNo upage) = 0 ∧ palloc ≠ 0
        then palloc :: c.created else c.created
      some ⟨p, c.pd, created, if done then .set (pageNo upage) kpage :: c.log else c.log⟩
    | .error _ => none
  | .clearPage upage =>
    match pagedirClearPage c.pd upage c.pages with
    | .ok (_, p) => some ⟨p, c.pd, c.created, .clear (pageNo upage) :: c.log⟩
    | .error _ => none
  | .setDirty vpage dirty =>
    match pagedirSetDirty c.pd vpage dirty c.pages with
    | .ok (_, p) => some { c with pages := p }
    | .error _ => none
  | .setAccessed vpage accessed =>
    match pagedirSetAccessed c.pd vpage accessed c.pages with
    | .ok (_, p) => some { c with pages := p }
    | .error _ => none

def FreshPage (c : Directory) (palloc : Word) : Prop :=
  palloc = 0 ∨ pgOfs palloc = 0 ∧ kernelBase ≤ palloc ∧ palloc ≠ initPageDir ∧
    c.pages.used palloc = some false

def Allowed (c : Directory) : Op → Prop
  | .setPage upage kpage _ palloc =>
    pgOfs upage = 0 ∧ upage < kernelBase ∧ lastMapped c.log (pageNo upage) = none ∧
    pgOfs kpage = 0 ∧ kernelBase ≤ kpage ∧ ((kpage - kernelBase) >>> 12).toNat < ramPages ∧
    FreshPage initPageDir c palloc
  | .clearPage upage => pgOfs upage = 0 ∧ upage < kernelBase
  | .setDirty vpage _ | .setAccessed vpage _ => vpage < kernelBase

def entry (pd va : Word) (p : Pages) : Option Word :=
  match lookupPage pd va false 0 p with
  | .ok (some (pt, i), _) => some (p.words pt i)
  | .ok (none, _) => some 0
  | .error _ => none

def framesPresent (log : List Change) : List Word :=
  (List.range 768).flatMap fun i =>
    (List.range 1024).filterMap fun j => lastMapped log (1024 * i + j)

def Allocated (p : Pages) (page : Word) : Prop :=
  pgOfs page = 0 ∧ page ≠ 0 ∧ p.used page = some true

/-- In `destroy`, a frame that is mapped twice is not used any more when it is freed again. -/
structure PagedirSafe (c : Directory) : Prop where
  get : ∀ va, va < kernelBase → pagedirGetPage c.pd va c.pages =
    .ok (((lastMapped c.log (pageNo va)).map (· + pgOfs va)).getD 0, c.pages)
  others : ∀ op, Allowed initPageDir ramPages c op → ∃ d, step initPageDir ramPages c op = some d ∧
    ∀ va, va < kernelBase → pageNo va ≠ op.page → entry d.pd va d.pages = entry c.pd va c.pages
  failed : ∀ upage kpage writable palloc p,
    Allowed initPageDir ramPages c (.setPage upage kpage writable palloc) →
    pagedirSetPage initPageDir ramPages c.pd upage kpage writable palloc c.pages = .ok (false, p) →
    ∀ va, va < kernelBase → entry c.pd va p = entry c.pd va c.pages
  kernelHalf : ∀ i, 768 ≤ i → i < 1024 → c.pages.words c.pd i = c.pages.words initPageDir i
  destroy : (∀ frame ∈ framesPresent c.log,
      Allocated c.pages frame ∧ frame ∉ c.created ∧ frame ≠ c.pd) →
    outcome (pagedirDestroy initPageDir c.pd)
      (fun _ p => (framesPresent c.log).Nodup ∧ ∀ page, p.used page =
        if page ∈ framesPresent c.log ++ c.created ++ [c.pd] then some false else c.pages.used page)
      (fun fault => ¬ (framesPresent c.log).Nodup ∧
        fault = .assertion "bitmap_all (pool->used_map, page_idx, page_cnt)") c.pages

end Operations

/-! ## One operation -/

lemma Holds.entry_eq {va : Word} (h : Holds p pd table)
    (hva : va < kernelBase) : entry pd va p = some (wordAt p.words table (pageNo va)) := by
  obtain ⟨r, q, hlook, rfl, rfl⟩ := wp_iff.mp
    ((h.wp_lookup hva fun r q => r = (table (pdNo va)).map (·, ptNo va) ∧ q = p).mpr ⟨rfl, rfl⟩)
  rw [entry, hlook, wordAt, pageNo, ← pdNo_eq, ← ptNo_eq]
  cases table (pdNo va) with
  | none => rfl
  | some t => rfl

structure DirectoryOk (initPageDir : Word) (c : Directory) (table : Nat → Option Word) : Prop where
  holds : Holds c.pages c.pd table
  apart : c.pd ≠ initPageDir
  tablesApart : ∀ i t, table i = some t → t ≠ initPageDir
  kernelHalf : ∀ i, 768 ≤ i → i < 1024 → c.pages.words c.pd i = c.pages.words initPageDir i
  mapped : ∀ page, page < 768 * 1024 →
    frameOf (wordAt c.pages.words table page) = lastMapped c.log page ∧
      Physical (wordAt c.pages.words table page)
  created : c.created.Perm ((List.range 768).filterMap table)
  allocated : ∀ page ∈ c.pd :: c.created, Allocated c.pages page

lemma frameOf_eq_none : frameOf w = none ↔ w &&& pteP = 0 := by
  unfold frameOf
  split
  · next h => simpa using h
  · next h => simpa using h

section Steps

variable {ramPages : Nat} {va : Word}

lemma wordAt_present (words : Word → Nat → Word) (ht : table (pdNo va) = some t) :
    wordAt words table (pageNo va) = words t (ptNo va) := by
  rw [wordAt, pageNo, ← pdNo_eq, ← ptNo_eq, ht]

lemma wordAt_table (words : Word → Nat → Word) {j : Nat} (ht : table i = some t) (hj : j < 1024) :
    wordAt words table (1024 * i + j) = words t j := by
  rw [wordAt, show (1024 * i + j) / 1024 = i by omega, show (1024 * i + j) % 1024 = j by omega, ht]

lemma DirectoryOk.mem_created (h : DirectoryOk initPageDir c table) (ht : table i = some t) :
    t ∈ c.created :=
  h.created.mem_iff.mpr (List.mem_filterMap.mpr ⟨i, mem_range.mpr (h.holds.present i t ht).1, ht⟩)

lemma DirectoryOk.setWord (h : DirectoryOk initPageDir c table) (ht : table (pdNo va) = some t)
    (hothers : ∀ page, page ≠ pageNo va → lastMapped log page = lastMapped c.log page)
    (hframe : frameOf w = lastMapped log (pageNo va)) (hphysical : Physical w) :
    DirectoryOk initPageDir ⟨c.pages.setWord t (ptNo va) w, c.pd, c.created, log⟩ table := by
  obtain ⟨-, -, -, -, hpd⟩ := h.holds.present _ t ht
  obtain ⟨hholds, hwords⟩ := h.holds.setWord ht w
  refine ⟨hholds, h.apart, h.tablesApart, fun i hi hi' => ?_, fun page hpage => ?_, h.created,
    h.allocated⟩
  · simp only [Pages.setWord_words]
    rw [update_of_ne (Ne.symm hpd), update_of_ne (Ne.symm (h.tablesApart _ t ht))]
    exact h.kernelHalf i hi hi'
  simp only [hwords]
  split
  · next heq =>
      subst heq
      exact ⟨hframe, hphysical⟩
  · next hne =>
      rw [hothers page hne]
      exact h.mapped page hpage

lemma DirectoryOk.newTable (h : DirectoryOk initPageDir c table) (hi : i < 768)
    (hnone : table i = none) (htpd : t ≠ c.pd) (htinit : t ≠ initPageDir) (hfresh : t ∉ c.created)
    (hpage : pgOfs t = 0 ∧ t ≠ 0) (hpde : pde ≠ 0 ∧ pde &&& pteP ≠ 0 ∧ pdeGetPt pde = .ok t) :
    DirectoryOk initPageDir
      ⟨(c.pages.allocate t fun _ => 0).setWord c.pd i pde, c.pd, t :: c.created, c.log⟩
      (update table i (some t)) := by
  have hnew : ∀ j u, table j = some u → t ≠ u := by
    rintro j u hu rfl
    exact hfresh (h.mem_created hu)
  obtain ⟨hholds, hwords⟩ := h.holds.newTable hi hnone htpd hnew hpde
  refine ⟨hholds, h.apart, fun j u hu => ?_, fun j hj hj' => ?_, fun page hpage => ?_, ?_,
    fun page hmem => ?_⟩
  · rw [update_apply] at hu
    split at hu
    · obtain rfl := some.inj hu
      exact htinit
    · exact h.tablesApart j u hu
  · simp only [Pages.setWord_words, Pages.allocate_words]
    rw [update_self, update_of_ne (show j ≠ i by omega),
      update_of_ne (Ne.symm htpd), update_of_ne (Ne.symm h.apart), update_of_ne (Ne.symm htinit)]
    exact h.kernelHalf j hj hj'
  · simp only [hwords]
    exact h.mapped page hpage
  rotate_left
  · by_cases heq : page = t
    · exact ⟨heq ▸ hpage.1, heq ▸ hpage.2, by simp [heq]⟩
    obtain ⟨halign, hne, hused⟩ := h.allocated page (by simpa [heq] using hmem)
    exact ⟨halign, hne, by simpa [update_of_ne heq] using hused⟩
  refine (h.created.cons t).trans ?_
  -- the index `i` contributes the new table and contributed nothing before
  obtain ⟨before, after, hrange⟩ := List.append_of_mem (mem_range.mpr hi)
  have hnodup := List.nodup_range (n := 768)
  rw [hrange] at hnodup ⊢
  have hsame : ∀ l : List Nat, i ∉ l →
      l.filterMap (update table i (some t)) = l.filterMap table := by
    intro l hl
    refine List.filterMap_congr fun j hj => ?_
    rw [update_of_ne]
    rintro rfl
    exact hl hj
  have hparts := nodup_append.mp hnodup
  rw [List.filterMap_append, List.filterMap_append, List.filterMap_cons, List.filterMap_cons,
    hnone, update_self, hsame before fun hmem => hparts.2.2 i hmem i (by simp) rfl,
    hsame after (nodup_cons.mp hparts.2.1).1]
  exact perm_middle.symm

def createdBy (c : Directory) (va palloc : Word) : List Word :=
  if c.pages.words c.pd (pdNo va) = 0 ∧ palloc ≠ 0 then palloc :: c.created else c.created

lemma mem_createdBy {x : Word} (h : x ∈ createdBy c va palloc) : x = palloc ∨ x ∈ c.created := by
  unfold createdBy at h
  split at h
  · exact mem_cons.mp h
  · exact Or.inr h

namespace DirectoryOk

variable (h : DirectoryOk initPageDir c table)

include h

lemma wp_lookupCreate (hva : va < kernelBase) (hfresh : FreshPage initPageDir c palloc) :
    wp (lookupPage c.pd va true palloc) (fun r p => ∃ table',
      DirectoryOk initPageDir ⟨p, c.pd, createdBy c va palloc, c.log⟩ table' ∧
      (∀ page, wordAt p.words table' page = wordAt c.pages.words table page) ∧
      r = (table' (pdNo va)).map (·, ptNo va) ∧ (palloc ≠ 0 → table' (pdNo va) ≠ none) ∧
      ∀ page, page ≠ palloc → p.used page = c.pages.used page) c.pages := by
  simp only [lookupPage, wp_bind, wp_require, wp_get, wp_ite,
    wp_pure, wp_modify, h.holds.nonnull, hva, ne_eq, not_false_eq_true, true_and, or_true, if_true]
  cases htab : table (pdNo va) with
  | some t =>
    obtain ⟨-, hne, -, hget, -⟩ := h.holds.present _ t htab
    rw [if_neg hne]
    simp only [tableEntry, wp_bind, wp_get, wp_ofExcept hget, wp_pure]
    refine ⟨table, ?_, fun _ => rfl, by rw [htab]; rfl, by simp [htab], fun _ _ => trivial⟩
    rw [createdBy, if_neg fun hzero => hne hzero.1]
    exact h
  | none =>
    have hzero := h.holds.missing _ (pdNo_lt hva) htab
    rw [if_pos hzero]
    split
    · next hnull =>
        refine ⟨table, ?_, fun _ => rfl, by rw [htab]; rfl, fun hne => absurd hnull hne,
          fun _ _ => trivial⟩
        rw [createdBy, if_neg fun hne => hne.2 hnull]
        exact h
    · next hnull =>
        obtain ⟨halign, hkernel, hinit, hfree⟩ := hfresh.resolve_left hnull
        obtain ⟨hpd, hcreated⟩ : palloc ≠ c.pd ∧ palloc ∉ c.created := by
          rw [← not_or, ← mem_cons]
          intro hmem
          simpa [hfree] using (h.allocated palloc hmem).2.2
        obtain ⟨pde, hcreate, hpde⟩ := pdeCreate_spec halign hkernel
        have hnew := h.newTable (pdNo_lt hva) htab hpd hinit hcreated ⟨halign, hnull⟩ hpde
        have hwords := (h.holds.newTable (pdNo_lt hva) htab hpd (fun j u hu => by
          rintro rfl
          exact hcreated (h.mem_created hu)) hpde).2
        have hget : pdeGetPt
          (((c.pages.allocate palloc fun _ => 0).setWord c.pd (pdNo va) pde).words
            c.pd (pdNo va)) = .ok palloc := by
          simpa using hpde.2.2
        simp only [wp_ofExcept hcreate, tableEntry, wp_bind, wp_get, wp_ofExcept hget, wp_pure]
        refine ⟨_, ?_, hwords, by rw [update_self]; rfl, by simp, fun page hne => by simp [hne]⟩
        rw [createdBy, if_pos ⟨hzero, hnull⟩]
        exact hnew

lemma wp_setPage {upage : Word} {writable : Bool}
    (hallowed : Allowed initPageDir ramPages c (.setPage upage kpage writable palloc)) :
    wp (pagedirSetPage initPageDir ramPages c.pd upage kpage writable palloc)
      (fun done p => ∃ table', DirectoryOk initPageDir ⟨p, c.pd, createdBy c upage palloc,
          if done then .set (pageNo upage) kpage :: c.log else c.log⟩ table' ∧
        (palloc ≠ 0 → done = true) ∧ (∀ page, page ≠ palloc → p.used page = c.pages.used page) ∧
        ∀ page, (done = true → page ≠ pageNo upage) →
          wordAt p.words table' page = wordAt c.pages.words table page) c.pages := by
  obtain ⟨hupage, huser, hunmapped, hkpage, hkernel, hram, hfresh⟩ := hallowed
  obtain ⟨hvtop, -⟩ := kernel_page hkpage hkernel
  simp only [pagedirSetPage, wp_bind, wp_require, wp_ofExcept hvtop, hupage,
    hkpage, huser, hram, h.apart, ne_eq, not_false_eq_true, true_and]
  refine wp_mono (h.wp_lookupCreate huser hfresh) ?_
  rintro r p ⟨table', hok, hwords, rfl, hcreated, hused⟩
  cases htab : table' (pdNo upage) with
  | none =>
    exact ⟨table', hok, fun hne => absurd htab (hcreated hne), hused, fun page _ => hwords page⟩
  | some t =>
    have hpage := pageNo_lt huser
    have habsent : p.words t (ptNo upage) &&& pteP = 0 := by
      rw [← frameOf_eq_none, ← wordAt_present p.words htab, (hok.mapped _ hpage).1]
      exact hunmapped
    obtain ⟨w, hw, hframe, hphysical⟩ := pteCreateUser_spec writable hkpage hkernel
    simp only [Option.map_some, wp_bind, wp_get, wp_require, habsent, true_and,
      wp_ofExcept hw, wp_modify, wp_pure]
    refine ⟨table', hok.setWord htab ?_ ?_ hphysical, fun _ => trivial, hused, fun page hne => ?_⟩
    · intro page hne
      simp [lastMapped, Ne.symm hne]
    · simpa [lastMapped] using hframe
    rw [(hok.holds.setWord htab w).2, if_neg (hne trivial)]
    exact hwords page

lemma wp_update (hva : va < kernelBase) {f : Option (Word × Nat) → PagesAction Unit}
    {g : Word → Word} (hmissing : ∀ p Q, wp (f none) Q p ↔ Q () p)
    (hpres : ∀ t i (p : Pages) Q, wp (f (some (t, i))) Q p ↔ Q () (p.setWord t i (g (p.words t i))))
    (hothers : ∀ page, page ≠ pageNo va → lastMapped log page = lastMapped c.log page)
    (hnone : lastMapped c.log (pageNo va) = none → lastMapped log (pageNo va) = none)
    (hg : ∀ w, frameOf w = lastMapped c.log (pageNo va) → Physical w →
      frameOf (g w) = lastMapped log (pageNo va) ∧ Physical (g w)) :
    wp (lookupPage c.pd va false 0 >>= f) (fun _ p =>
      DirectoryOk initPageDir ⟨p, c.pd, c.created, log⟩ table ∧
      ∀ page, page ≠ pageNo va → wordAt p.words table page = wordAt c.pages.words table page)
      c.pages := by
  have hmapped := h.mapped _ (pageNo_lt hva)
  rw [wp_bind, h.holds.wp_lookup hva]
  cases htab : table (pdNo va) with
  | none =>
    rw [Option.map_none, hmissing]
    refine ⟨⟨h.holds, h.apart, h.tablesApart, h.kernelHalf, fun page hpage => ?_, h.created,
      h.allocated⟩, fun page _ => rfl⟩
    by_cases heq : page = pageNo va
    · subst heq
      have hzero : wordAt c.pages.words table (pageNo va) = 0 := by
        rw [wordAt, pageNo, ← pdNo_eq, htab]
      have habsent : lastMapped c.log (pageNo va) = none := by
        rw [← hmapped.1, hzero]
        rfl
      change frameOf (wordAt c.pages.words table (pageNo va)) = lastMapped log (pageNo va) ∧ _
      rw [hnone habsent, ← habsent]
      exact hmapped
    · change frameOf (wordAt c.pages.words table page) = lastMapped log page ∧ _
      rw [hothers page heq]
      exact h.mapped page hpage
  | some t =>
    rw [wordAt_present c.pages.words htab] at hmapped
    obtain ⟨hframe, hphysical⟩ := hg _ hmapped.1 hmapped.2
    rw [Option.map_some, hpres]
    refine ⟨h.setWord htab hothers hframe hphysical, fun page hne => ?_⟩
    rw [(h.holds.setWord htab _).2, if_neg hne]

lemma wp_clearPage (hpage : pgOfs va = 0)
    (hva : va < kernelBase) : wp (pagedirClearPage c.pd va) (fun _ p =>
      DirectoryOk initPageDir ⟨p, c.pd, c.created, .clear (pageNo va) :: c.log⟩ table ∧
      ∀ page, page ≠ pageNo va → wordAt p.words table page = wordAt c.pages.words table page)
      c.pages := by
  rw [pagedirClearPage, wp_bind, wp_require, wp_bind, wp_require]
  refine ⟨hpage, hva, h.wp_update hva (g := fun w => if w &&& pteP ≠ 0 then w &&& ~~~pteP else w)
    (fun p Q => Iff.rfl) (fun t i p Q => ?_) (fun page hne => ?_) (fun _ => ?_)
    fun w _ hphysical => ?_⟩
  · by_cases hpres : p.words t i &&& pteP = 0
    · simp [hpres, Pages.setWord]
    have hpres' : ¬p.words t i &&& pteP = 0#32 := hpres
    simp [hpres']
  · simp [lastMapped, Ne.symm hne]
  · simp [lastMapped]
  have hcleared : (if w &&& pteP ≠ 0 then w &&& ~~~pteP else w) &&& pteP = 0 := by
    split
    · rw [BitVec.and_assoc, show ~~~pteP &&& pteP = 0 from rfl]
      exact BitVec.and_zero
    · next habsent => exact not_not.mp habsent
  exact ⟨(frameOf_eq_none.mpr hcleared).trans (by simp [lastMapped]),
    fun hne => absurd hcleared hne⟩

lemma wp_setFlag (hva : va < kernelBase) (bit : Nat) (hlow : 0 < bit) (hhigh : bit < 12)
    (value : Bool) : wp (setFlag (BitVec.twoPow 32 bit) c.pd va value) (fun _ p =>
      DirectoryOk initPageDir ⟨p, c.pd, c.created, c.log⟩ table ∧
      ∀ page, page ≠ pageNo va → wordAt p.words table page = wordAt c.pages.words table page)
      c.pages := by
  refine h.wp_update hva (g := fun w => if value then w ||| BitVec.twoPow 32 bit
    else w &&& ~~~BitVec.twoPow 32 bit) (fun p Q => Iff.rfl) (fun t i p Q => ?_) (fun _ _ => rfl) id
    fun w hframe hphysical => ?_
  · cases value with
    | true => exact Iff.rfl
    | false => exact Iff.rfl
  have hbit : ∀ i, i ≠ bit → i < 32 → (if value then w ||| BitVec.twoPow 32 bit
      else w &&& ~~~BitVec.twoPow 32 bit).getLsbD i = w.getLsbD i := by
    intro i hne hi
    cases value with
    | true => simp [getLsbD_or_flag (show bit < 32 by omega), Ne.symm hne]
    | false => simp [getLsbD_and_not_flag (show bit < 32 by omega) hi, Ne.symm hne]
  obtain ⟨hsame, hkeep⟩ := frameOf_congr (addr_congr fun i hi hi' => hbit i (by omega) hi')
    (hbit 0 (by omega) (by omega))
  exact ⟨hsame.trans hframe, hkeep hphysical⟩

lemma step {op : Op} (hallowed : Allowed initPageDir ramPages c op) :
    ∃ d table', step initPageDir ramPages c op = some d ∧ DirectoryOk initPageDir d table' ∧
      ∀ page, page ≠ op.page →
        wordAt d.pages.words table' page = wordAt c.pages.words table page := by
  cases op with
  | setPage upage kpage writable palloc =>
    obtain ⟨done, p, hcall, table', hok, -, -, hwords⟩ := wp_iff.mp (h.wp_setPage hallowed)
    exact ⟨_, table', by rw [PageTables.step, hcall]; rfl, hok,
      fun page hne => hwords page fun _ => hne⟩
  | clearPage upage =>
    obtain ⟨_, p, hcall, hok, hwords⟩ := wp_iff.mp (h.wp_clearPage hallowed.1 hallowed.2)
    exact ⟨_, table, by rw [PageTables.step, hcall], hok, hwords⟩
  | setDirty vpage dirty =>
    obtain ⟨_, p, hcall, hok, hwords⟩ := wp_iff.mp
      (h.wp_setFlag hallowed 6 (by omega) (by omega) dirty)
    have hcall' : pagedirSetDirty c.pd vpage dirty c.pages = .ok ((), p) := hcall
    exact ⟨_, table, by rw [PageTables.step, hcall'], hok, hwords⟩
  | setAccessed vpage accessed =>
    obtain ⟨_, p, hcall, hok, hwords⟩ := wp_iff.mp
      (h.wp_setFlag hallowed 5 (by omega) (by omega) accessed)
    have hcall' : pagedirSetAccessed c.pd vpage accessed c.pages = .ok ((), p) := hcall
    exact ⟨_, table, by rw [PageTables.step, hcall'], hok, hwords⟩

end DirectoryOk

lemma pteGetPage_of_physical (hpres : w &&& pteP ≠ 0) (h : Physical w) :
    pteGetPage w = .ok ((w &&& pteAddr) + kernelBase) := by
  rw [pteGetPage, ptov, assertThat_of_true _ (h hpres)]
  rfl

lemma DirectoryOk.getPage (h : DirectoryOk initPageDir c table) (hva : va < kernelBase) :
    pagedirGetPage c.pd va c.pages =
      .ok (((lastMapped c.log (pageNo va)).map (· + pgOfs va)).getD 0, c.pages) := by
  obtain ⟨hframe, hphysical⟩ := h.mapped _ (pageNo_lt hva)
  apply eq_ok_of_wp
  rw [← hframe, pagedirGetPage, wp_bind, wp_require]
  refine ⟨hva, ?_⟩
  rw [wp_bind, h.holds.wp_lookup hva]
  cases htab : table (pdNo va) with
  | none =>
    have habsent : frameOf (wordAt c.pages.words table (pageNo va)) = none := by
      rw [wordAt, pageNo, ← pdNo_eq, htab]
      exact frameOf_eq_none.mpr BitVec.zero_and
    rw [habsent]
    exact ⟨rfl, rfl⟩
  | some t =>
    rw [wordAt_present c.pages.words htab] at hphysical ⊢
    by_cases hpres : c.pages.words t (ptNo va) &&& pteP = 0
    · rw [frameOf_eq_none.mpr hpres]
      simp [hpres]
    simp only [Option.map_some, wp_bind, wp_get, ne_eq, hpres, not_false_eq_true,
      if_true, wp_ofExcept (pteGetPage_of_physical hpres hphysical), wp_pure,
      frameOf, Option.getD_some, and_self]

end Steps

/-! ## Destroying a directory -/

/-- The frames of the entries `i .. i + n` of a table. -/
def tableFrames (entries : Nat → Word) (i n : Nat) : List Word :=
  (List.range' i n).filterMap fun j => frameOf (entries j)

def tableGone (words : Word → Nat → Word) (table : Nat → Option Word) (i : Nat) : List Word :=
  match table i with
  | some t => tableFrames (words t) 0 1024 ++ [t]
  | none => []

section Frees

variable {l l' : List Word} {x y : PagesAction Unit} {page : Word} {q : Pages}

structure Frees (l : List Word) (p q : Pages) : Prop where
  used : ∀ page, q.used page = if page ∈ l then some false else p.used page
  words : ∀ page ∉ l, q.words page = p.words page

/-- Each of the pages can be freed once. -/
def Once (p : Pages) (l : List Word) : Prop := l.Nodup ∧ ∀ page ∈ l, p.used page = some true

/-- `x` frees the pages `l`, up to the first that is not in use. -/
def FreesAll (x : PagesAction Unit) (l : List Word) (p : Pages) : Prop :=
  outcome x (fun _ q => Once p l ∧ Frees l p q) (fun fault => ¬ Once p l ∧
    fault = .assertion "bitmap_all (pool->used_map, page_idx, page_cnt)") p

def InPool (p : Pages) (page : Word) : Prop :=
  pgOfs page = 0 ∧ page ≠ 0 ∧ (p.used page).isSome = true

lemma Frees.inPool (h : Frees l p q) (hpage : InPool p page) : InPool q page := by
  refine ⟨hpage.1, hpage.2.1, ?_⟩
  rw [h.used]
  split
  · rfl
  · exact hpage.2.2

lemma freesAll_nil (p : Pages) : FreesAll (return ()) [] p :=
  ⟨⟨.nil, nofun⟩, by simp, fun _ _ => rfl⟩

lemma freesAll_page (h : InPool p page) : FreesAll (pallocFreePage page) [page] p := by
  obtain ⟨used, hused⟩ := isSome_iff_exists.mp h.2.2
  simp only [FreesAll, pallocFreePage, outcome_bind]
  refine outcome_require (fun _ => ?_) fun hnot => absurd h.1 hnot
  rw [if_neg h.2.1]
  simp only [outcome_bind, outcome_get, hused]
  refine outcome_require (fun htrue => ?_) fun hfalse => ⟨fun honce => ?_, rfl⟩
  · refine ⟨⟨List.nodup_singleton _, by simp [hused, htrue]⟩, fun other => ?_, fun other hne => ?_⟩
    · simp [update_apply]
    · rw [Pages.free_words, update_of_ne (by simpa using hne)]
  · exact hfalse (some.inj (hused.symm.trans (honce.2 page (by simp))))

lemma Frees.once_append (h : Frees l p q) (hl : Once p l) : Once p (l ++ l') ↔ Once q l' := by
  have hused : ∀ page ∈ l', q.used page = some true ↔ page ∉ l ∧ p.used page = some true := by
    intro page _
    rw [h.used]
    by_cases hmem : page ∈ l <;> simp [hmem]
  simp only [Once, nodup_append, List.forall_mem_append]
  constructor
  · rintro ⟨⟨-, hnodup, hapart⟩, -, hall⟩
    exact ⟨hnodup, fun page hpage =>
      (hused page hpage).mpr ⟨fun hmem => hapart page hmem page hpage rfl, hall page hpage⟩⟩
  · rintro ⟨hnodup, hall⟩
    refine ⟨⟨hl.1, hnodup, ?_⟩, hl.2, fun page hpage => ((hused page hpage).mp (hall page hpage)).2⟩
    rintro page hmem _ hpage rfl
    exact ((hused page hpage).mp (hall page hpage)).1 hmem

lemma FreesAll.append (hx : FreesAll x l p) (hy : ∀ q, Frees l p q → FreesAll y l' q) :
    FreesAll (do x; y) (l ++ l') p := by
  rw [FreesAll, outcome_bind]
  refine outcome_mono hx ?_ fun fault hfault => ⟨fun honce => hfault.1 ?_, hfault.2⟩
  · rintro _ q ⟨honce, hq⟩
    refine outcome_mono (hy q hq) ?_ fun fault hfault =>
      ⟨fun hall => hfault.1 ((hq.once_append honce).mp hall), hfault.2⟩
    rintro _ u ⟨honce', hu⟩
    refine ⟨(hq.once_append honce).mpr honce', fun page => ?_, fun page hpage => ?_⟩
    · rw [hu.used, hq.used]
      by_cases hmem : page ∈ l <;> by_cases hmem' : page ∈ l' <;> simp [hmem, hmem']
    · rw [mem_append, not_or] at hpage
      rw [hu.words page hpage.2, hq.words page hpage.1]
  · exact ⟨(nodup_append.mp honce.1).1, fun page hpage => honce.2 page (mem_append_left _ hpage)⟩

end Frees

lemma destroyTable_frees (t : Word) (n : Nat) : ∀ (i : Nat) (p : Pages),
    (∀ j, i ≤ j → j < i + n → Physical (p.words t j)) → t ∉ tableFrames (p.words t) i n →
    (∀ frame ∈ tableFrames (p.words t) i n, InPool p frame) →
    FreesAll (destroyTable t i n) (tableFrames (p.words t) i n) p := by
  induction n with
  | zero => exact fun i p _ _ _ => freesAll_nil p
  | succ n ih =>
    intro i p hphysical hself hpool
    have hsplit : tableFrames (p.words t) i (n + 1) =
        (frameOf (p.words t i)).toList ++ tableFrames (p.words t) (i + 1) n := by
      rw [tableFrames, tableFrames, List.range'_succ, List.filterMap_cons]
      cases frameOf (p.words t i) <;> rfl
    rw [hsplit] at hself hpool ⊢
    have hlater : ∀ j, i + 1 ≤ j → j < i + 1 + n → Physical (p.words t j) :=
      fun j hj hj' => hphysical j (by omega) (by omega)
    simp only [FreesAll, destroyTable, outcome_bind, outcome_get]
    by_cases hpres : p.words t i &&& pteP = 0
    · rw [frameOf_eq_none.mpr hpres] at hself hpool ⊢
      rw [if_neg (not_not_intro hpres)]
      exact ih (i + 1) p hlater hself hpool
    have hframe : frameOf (p.words t i) = some ((p.words t i &&& pteAddr) + kernelBase) :=
      if_pos hpres
    rw [hframe] at hself hpool ⊢
    rw [Option.toList_some, mem_append, not_or] at hself
    rw [Option.toList_some, List.forall_mem_append] at hpool
    rw [if_pos hpres]
    simp only [outcome_bind,
      outcome_ofExcept (pteGetPage_of_physical hpres (hphysical i (by omega) (by omega)))]
    have hrest : ∀ q, Frees [(p.words t i &&& pteAddr) + kernelBase] p q →
        FreesAll (destroyTable t (i + 1) n) (tableFrames (p.words t) (i + 1) n) q := by
      intro q hq
      have hsame := hq.words t hself.1
      rw [← hsame] at hself hlater ⊢
      refine ih (i + 1) q hlater hself.2 fun frame hframe => hq.inPool (hpool.2 frame ?_)
      rwa [hsame] at hframe
    have hall := (freesAll_page (hpool.1 _ (mem_singleton.mpr rfl))).append hrest
    rwa [FreesAll, outcome_bind] at hall

lemma destroyTables_frees (words : Word → Nat → Word) (pd : Word) (table : Nat → Option Word)
    (hentries : ∀ i < 768, words pd i &&& pteP ≠ 0 ↔ (table i).isSome = true)
    (hget : ∀ i t, table i = some t → pdeGetPt (words pd i) = .ok t)
    (hphysical : ∀ i t j, table i = some t → j < 1024 → Physical (words t j))
    (hself : ∀ i t, table i = some t → t ∉ tableFrames (words t) 0 1024)
    (hdir : ∀ i, pd ∉ tableGone words table i)
    (hlater : ∀ i j t, i < j → table j = some t → t ∉ tableGone words table i)
    (n : Nat) : ∀ (i : Nat) (p : Pages), i + n ≤ 768 → p.words pd = words pd →
    (∀ j t, i ≤ j → table j = some t → p.words t = words t) →
    (∀ j, ∀ page ∈ tableGone words table j, InPool p page) →
    FreesAll (destroyTables pd i n) ((List.range' i n).flatMap (tableGone words table)) p := by
  induction n with
  | zero => exact fun i p _ _ _ _ => freesAll_nil p
  | succ n ih =>
    intro i p hi hpd htables hpool
    simp only [FreesAll, destroyTables, List.range'_succ, List.flatMap_cons, outcome_bind,
      outcome_get, hpd]
    cases htab : table i with
    | none =>
      have habsent : words pd i &&& pteP = 0 := by
        by_contra hpres
        simpa [htab] using (hentries i (by omega)).mp hpres
      rw [if_neg (not_not_intro habsent), show tableGone words table i = [] by rw [tableGone, htab],
        nil_append]
      exact ih (i + 1) p (by omega) hpd (fun j t hj ht => htables j t (by omega) ht) hpool
    | some t =>
      have hpres : words pd i &&& pteP ≠ 0 := (hentries i (by omega)).mpr (by rw [htab]; rfl)
      have hgone : tableGone words table i = tableFrames (words t) 0 1024 ++ [t] := by
        rw [tableGone, htab]
      have hwords := htables i t le_rfl htab
      have hin := hpool i
      rw [hgone, List.forall_mem_append] at hin
      rw [if_pos hpres]
      have hfirst : FreesAll (destroyTable t 0 1024) (tableFrames (words t) 0 1024) p := by
        rw [← hwords] at hin ⊢
        refine destroyTable_frees t 1024 0 p (fun j _ hj => ?_) ?_ hin.1
        · rw [hwords]
          exact hphysical i t j htab (by omega)
        · rw [hwords]
          exact hself i t htab
      have hboth : FreesAll (do destroyTable t 0 1024; pallocFreePage t)
          (tableGone words table i) p := by
        rw [hgone]
        exact hfirst.append fun q hq => freesAll_page (hq.inPool (hin.2 t (by simp)))
      -- a page that the whole entry does not free keeps its words
      have hall := hboth.append (y := destroyTables pd (i + 1) n) fun q hq =>
        ih (i + 1) q (by omega) ((hq.words pd (hdir i)).trans hpd)
          (fun j u hj hu => (hq.words u (hlater i j u (by omega) hu)).trans
            (htables j u (by omega) hu)) fun j page hpage => hq.inPool (hpool j page hpage)
      simpa only [FreesAll, outcome_bind, outcome_ofExcept (hget i t htab)] using hall

lemma flatMap_tableGone (words : Word → Nat → Word) (table : Nat → Option Word) (l : List Nat) :
    (l.flatMap (tableGone words table)).Perm
      ((l.flatMap fun i => (List.range 1024).filterMap fun j =>
        frameOf (wordAt words table (1024 * i + j))) ++ l.filterMap table) := by
  induction l with
  | nil => simp
  | cons i l ih =>
    simp only [List.flatMap_cons]
    have hword : ∀ j ∈ List.range 1024, wordAt words table (1024 * i + j) =
        match table i with
        | some t => words t j
        | none => 0 := by
      intro j hj
      rw [mem_range] at hj
      rw [wordAt, show (1024 * i + j) / 1024 = i by omega, show (1024 * i + j) % 1024 = j by omega]
    rw [List.filterMap_congr fun j hj => congrArg frameOf (hword j hj)]
    cases htab : table i with
    | none =>
      have hzero : frameOf (0 : Word) = none := frameOf_eq_none.mpr BitVec.zero_and
      have hnone : (List.range 1024).filterMap (fun _ => frameOf (0 : Word)) = [] := by
        rw [hzero]
        simp
      simp only [tableGone, htab, List.filterMap_cons]
      rw [hnone]
      exact ih
    | some t =>
      simp only [tableGone, htab, List.filterMap_cons, tableFrames, List.range_eq_range']
      rw [append_assoc, append_assoc]
      refine List.Perm.append_left _ ?_
      rw [List.range_eq_range'] at ih
      exact (ih.cons t).trans perm_middle.symm

namespace DirectoryOk

variable (h : DirectoryOk initPageDir c table)

include h

lemma created_nodup : c.created.Nodup := by
  refine h.created.nodup_iff.mpr (List.Nodup.filterMap ?_ List.nodup_range)
  intro i j t hi hj
  exact h.holds.once i j t hi hj

lemma pd_not_created : c.pd ∉ c.created := by
  intro hmem
  obtain ⟨i, -, ht⟩ := List.mem_filterMap.mp (h.created.mem_iff.mp hmem)
  exact (h.holds.present i _ ht).2.2.2.2 rfl

lemma frames_present : (List.range 768).flatMap (fun i => (List.range 1024).filterMap fun j =>
      frameOf (wordAt c.pages.words table (1024 * i + j))) = framesPresent c.log := by
  refine List.flatMap_congr fun i hi => List.filterMap_congr fun j hj => ?_
  rw [mem_range] at hi hj
  exact (h.mapped _ (by omega)).1

lemma mem_framesPresent {x : Word} (ht : table i = some t)
    (hx : x ∈ tableFrames (c.pages.words t) 0 1024) : x ∈ framesPresent c.log := by
  rw [tableFrames, ← List.range_eq_range'] at hx
  obtain ⟨j, hj, hx⟩ := List.mem_filterMap.mp hx
  rw [← h.frames_present]
  refine List.mem_flatMap.mpr ⟨i, mem_range.mpr (h.holds.present i t ht).1,
    List.mem_filterMap.mpr ⟨j, hj, ?_⟩⟩
  rw [wordAt_table _ ht (mem_range.mp hj)]
  exact hx

lemma mem_tableGone {x : Word} (hx : x ∈ tableGone c.pages.words table i) :
    x ∈ framesPresent c.log ∨ table i = some x := by
  unfold tableGone at hx
  split at hx
  · next t ht =>
      rcases mem_append.mp hx with hx | hx
      · exact .inl (h.mem_framesPresent ht hx)
      rw [mem_singleton.mp hx]
      exact .inr ht
  · simp at hx

lemma gone_perm : ((List.range' 0 768).flatMap (tableGone c.pages.words table) ++ [c.pd]).Perm
    (framesPresent c.log ++ c.created ++ [c.pd]) := by
  have hsorted := flatMap_tableGone c.pages.words table (List.range 768)
  rw [h.frames_present] at hsorted
  rw [← List.range_eq_range']
  exact (hsorted.trans (List.Perm.append_left _ h.created.symm)).append_right _

section Owned

variable (hframes : ∀ frame ∈ framesPresent c.log,
  Allocated c.pages frame ∧ frame ∉ c.created ∧ frame ≠ c.pd)

include hframes

lemma allocated_gone {x : Word} (hx : x ∈ framesPresent c.log ++ c.created ++ [c.pd]) :
    Allocated c.pages x := by
  rcases mem_append.mp hx with hx | hx
  · rcases mem_append.mp hx with hx | hx
    · exact (hframes x hx).1
    · exact h.allocated x (mem_cons_of_mem _ hx)
  · exact h.allocated x (mem_singleton.mp hx ▸ mem_cons_self)

lemma inPool_gone {x : Word} (hx : x ∈ framesPresent c.log ++ c.created ++ [c.pd]) :
    InPool c.pages x := by
  obtain ⟨halign, hne, hused⟩ := h.allocated_gone hframes hx
  exact ⟨halign, hne, by rw [hused]; rfl⟩

lemma once_gone_iff : Once c.pages ((List.range' 0 768).flatMap (tableGone c.pages.words table) ++
    [c.pd]) ↔ (framesPresent c.log).Nodup := by
  have hused : ∀ x ∈ (List.range' 0 768).flatMap (tableGone c.pages.words table) ++ [c.pd],
      c.pages.used x = some true := fun x hx =>
    (h.allocated_gone hframes (h.gone_perm.mem_iff.mp hx)).2.2
  rw [Once, and_iff_left hused, h.gone_perm.nodup_iff, nodup_append, nodup_append]
  refine ⟨fun hnodup => hnodup.1.1, fun hnodup => ⟨⟨hnodup, h.created_nodup, ?_⟩,
    List.nodup_singleton _, ?_⟩⟩
  · rintro x hx y hy rfl
    exact (hframes x hx).2.1 hy
  rintro x hx y hy rfl
  obtain rfl := mem_singleton.mp hy
  rcases mem_append.mp hx with hx | hx
  · exact (hframes _ hx).2.2 rfl
  · exact h.pd_not_created hx

lemma tables_freed : FreesAll (destroyTables c.pd 0 768)
    ((List.range' 0 768).flatMap (tableGone c.pages.words table)) c.pages := by
  refine destroyTables_frees c.pages.words c.pd table (fun i hi => ?_)
    (fun i t ht => (h.holds.present i t ht).2.2.2.1) (fun i t j ht hj => ?_)
    (fun i t ht hmem => (hframes t (h.mem_framesPresent ht hmem)).2.1 (h.mem_created ht))
    (fun i hmem => ?_) (fun i j t hij ht hmem => ?_) 768 0 c.pages (by omega) rfl
    (fun _ _ _ _ => rfl) fun i x hx => h.inPool_gone hframes ?_
  · cases htab : table i with
    | none => simp [h.holds.missing i hi htab]
    | some t => simpa using (h.holds.present i t htab).2.2.1
  · have hphysical := h.mapped (1024 * i + j) (by have := (h.holds.present i t ht).1; omega)
    rw [wordAt_table _ ht hj] at hphysical
    exact hphysical.2
  · rcases h.mem_tableGone hmem with hin | htab
    · exact (hframes _ hin).2.2 rfl
    · exact h.pd_not_created (h.mem_created htab)
  · rcases h.mem_tableGone hmem with hin | htab
    · exact (hframes t hin).2.1 (h.mem_created ht)
    have := h.holds.once i j t htab ht
    omega
  · rw [mem_append, mem_append]
    exact .inl ((h.mem_tableGone hx).imp_right h.mem_created)

lemma destroy : outcome (pagedirDestroy initPageDir c.pd)
      (fun _ p => (framesPresent c.log).Nodup ∧ ∀ page, p.used page =
        if page ∈ framesPresent c.log ++ c.created ++ [c.pd] then some false else c.pages.used page)
      (fun fault => ¬ (framesPresent c.log).Nodup ∧
        fault = .assertion "bitmap_all (pool->used_map, page_idx, page_cnt)") c.pages := by
  have honce := h.once_gone_iff hframes
  have hall := (h.tables_freed hframes).append (y := pallocFreePage c.pd) fun q hq =>
    freesAll_page (hq.inPool (h.inPool_gone hframes (by simp)))
  rw [pagedirDestroy, if_neg h.holds.nonnull, outcome_bind]
  refine outcome_require (fun _ => ?_) fun hnot => absurd h.apart hnot
  rw [show pdNo kernelBase = 768 by decide]
  refine outcome_mono hall ?_ fun fault hfault => ⟨hfault.1 ∘ honce.mpr, hfault.2⟩
  rintro _ q ⟨hdistinct, hq⟩
  refine ⟨honce.mp hdistinct, fun page => ?_⟩
  simp only [hq.used, h.gone_perm.mem_iff]

end Owned

lemma safe {ramPages : Nat} : PagedirSafe initPageDir ramPages c where
  get va hva := h.getPage hva
  others op hallowed := by
    obtain ⟨d, table', hstep, hok, hwords⟩ := h.step hallowed
    refine ⟨d, hstep, fun va hva hne => ?_⟩
    rw [hok.holds.entry_eq hva, h.holds.entry_eq hva, hwords _ hne]
  failed upage kpage writable palloc p hallowed hcall va hva := by
    obtain ⟨table', hok, -, -, hwords⟩ := (wp_of_ok hcall).mp (h.wp_setPage hallowed)
    have hentry : entry c.pd va p = some (wordAt p.words table' (pageNo va)) :=
      hok.holds.entry_eq hva
    rw [hentry, h.holds.entry_eq hva, hwords _ (by simp)]
  kernelHalf := h.kernelHalf
  destroy := h.destroy

end DirectoryOk

/-! ## Runs -/

/-- The page tables that `paging_init` is given are pages other than the directory. -/
def PagingPages (pd : Word) (palloc : Nat → Word) : Prop :=
  ∀ page, pgOfs (palloc page) = 0 ∧ kernelBase ≤ palloc page ∧ palloc page ≠ pd

lemma ptov_spec {page : Nat} (hpage : page < 16384) :
    ∃ vaddr, ptov (BitVec.ofNat 32 (page * 4096)) = .ok vaddr ∧ pgOfs vaddr = 0 ∧
      kernelBase ≤ vaddr ∧ 768 ≤ pdNo vaddr := by
  have hpaddr : (BitVec.ofNat 32 (page * 4096)).toNat = page * 4096 := by
    rw [BitVec.toNat_ofNat]
    omega
  have hlow : BitVec.ofNat 32 (page * 4096) < kernelBase := by
    rw [BitVec.lt_def, hpaddr, kernelBase_toNat]
    omega
  have hvaddr : (BitVec.ofNat 32 (page * 4096) + kernelBase).toNat =
      page * 4096 + 768 * 1024 * 4096 := by
    rw [BitVec.toNat_add, hpaddr, kernelBase_toNat]
    omega
  refine ⟨BitVec.ofNat 32 (page * 4096) + kernelBase, ?_, ?_, ?_, ?_⟩
  · rw [ptov, assertThat_of_true _ hlow]
    rfl
  · rw [pgOfs_eq_zero, hvaddr]
    omega
  · rw [BitVec.le_def, hvaddr, kernelBase_toNat]
    omega
  · rw [pdNo_eq, hvaddr]
    omega

lemma pteCreateKernel_ok {vaddr : Word} (writable : Bool) (hpage : pgOfs vaddr = 0)
    (hkernel : kernelBase ≤ vaddr) : ∃ pte, pteCreateKernel vaddr writable = .ok pte := by
  rw [pteCreateKernel, assertThat_of_true _ hpage, (kernel_page hpage hkernel).1]
  exact ⟨_, rfl⟩

lemma wp_pagingInitLoop {palloc : Nat → Word} {writable : Nat → Bool}
    (hpalloc : PagingPages pd palloc) (n : Nat) : ∀ (pt : Word) (page : Nat) (p : Pages),
    pt ≠ pd → page + n ≤ 16384 → wp (pagingInitLoop pd palloc writable pt page n)
      (fun _ q => ∀ i < 768, q.words pd i = p.words pd i) p := by
  induction n with
  | zero => exact fun pt page p _ _ i _ => rfl
  | succ n ih =>
    intro pt page p hpt hpages
    obtain ⟨vaddr, hvaddr, halign, hkernel, hhalf⟩ := ptov_spec (show page < 16384 by omega)
    obtain ⟨pte, hpte⟩ := pteCreateKernel_ok (writable page) halign hkernel
    obtain ⟨hpage, hbase, hne⟩ := hpalloc page
    obtain ⟨pde, hpde, -⟩ := pdeCreate_spec hpage hbase
    simp only [pagingInitLoop, wp_bind, wp_ofExcept hvaddr, wp_get,
      wp_ite, wp_modify, wp_ofExcept hpde, wp_ofExcept hpte]
    split
    · refine wp_mono (ih (palloc page) (page + 1) _ hne (by omega)) fun _ q hq i hi => ?_
      rw [hq i hi]
      simp only [Pages.setWord_words, Pages.allocate_words]
      rw [update_of_ne (Ne.symm hne), update_self,
        update_of_ne (show i ≠ pdNo vaddr by omega), update_of_ne (Ne.symm hne)]
    · refine wp_mono (ih pt (page + 1) _ hpt (by omega)) fun _ q hq i hi => ?_
      rw [hq i hi, Pages.setWord_words, update_of_ne (Ne.symm hpt)]

lemma pagingInit_returns {palloc : Nat → Word} (writable : Nat → Bool) (hpd : pd ≠ 0)
    (hpalloc : PagingPages pd palloc) (extended : BitVec 16) (p : Pages) : ∃ q,
      pagingInit (Threads.initRamPages extended) pd palloc writable p = .ok ((), q) ∧
      ∀ i < 768, q.words pd i = 0 := by
  have hinit : wp (pagingInit (Threads.initRamPages extended) pd palloc writable)
      (fun _ q => ∀ i < 768, q.words pd i = 0) p := by
    rw [pagingInit, wp_bind, wp_modify]
    refine wp_mono (wp_pagingInitLoop hpalloc _ 0 0 _ (Ne.symm hpd) ?_) fun _ q hq i hi => ?_
    · have := Threads.initRamPages_le extended
      omega
    · rw [hq i hi, Pages.allocate_words, update_self]
  obtain ⟨_, q, hcall, hzero⟩ := wp_iff.mp hinit
  exact ⟨q, hcall, hzero⟩

lemma directoryOk_create (hpd : pd ≠ 0) (hpage : pgOfs pd = 0)
    (hinit : pd ≠ initPageDir) (hzero : ∀ i < 768, p.words initPageDir i = 0) :
    pagedirCreate initPageDir pd p = .ok (pd, p.allocate pd (p.words initPageDir)) ∧
      DirectoryOk initPageDir ⟨p.allocate pd (p.words initPageDir), pd, [], []⟩ fun _ => none := by
  constructor
  · apply eq_ok_of_wp
    rw [pagedirCreate, wp_ite, if_neg hpd]
    exact ⟨rfl, rfl⟩
  refine ⟨⟨hpd, fun i hi _ => ?_, nofun, nofun⟩, hinit, nofun,
    fun i _ _ => ?_, fun page _ => ⟨?_, fun h => ?_⟩, by simp, fun page hmem => ?_⟩
  · simpa using hzero i hi
  · simp [update_of_ne (Ne.symm hinit)]
  · exact frameOf_eq_none.mpr BitVec.zero_and
  · exact absurd BitVec.zero_and h
  · obtain rfl := mem_singleton.mp hmem
    exact ⟨hpage, hpd, by simp⟩

/-- In every run of a directory from `pagedir_create`, it is the map that the calls describe. -/
theorem pagedir_safe_of_run {extended : BitVec 16} {initPageDir pd : Word} {palloc : Nat → Word}
    {writable : Nat → Bool} {boot started booted created : Pages} (hpd : initPageDir ≠ 0)
    (hpalloc : PagingPages initPageDir palloc)
    (hboot : pagingInit (Threads.initRamPages extended) initPageDir palloc writable boot =
      .ok ((), started)) (hkept : booted.words initPageDir = started.words initPageDir)
    (hfresh : pd ≠ 0 ∧ pgOfs pd = 0 ∧ pd ≠ initPageDir)
    (hcreate : pagedirCreate initPageDir pd booted = .ok (pd, created))
    {ops : List Op} {c : Directory} (hops : Meets (step initPageDir (Threads.initRamPages extended))
      (Allowed initPageDir (Threads.initRamPages extended)) ⟨created, pd, [], []⟩ ops)
    (hrun : run (step initPageDir (Threads.initRamPages extended)) ⟨created, pd, [], []⟩ ops =
      some c) :
    PagedirSafe initPageDir (Threads.initRamPages extended) c := by
  obtain ⟨_, hreturns, hzero⟩ := pagingInit_returns writable hpd hpalloc extended boot
  rw [hboot] at hreturns
  cases hreturns
  rw [← hkept] at hzero
  obtain ⟨hcall, hok⟩ := directoryOk_create hfresh.1 hfresh.2.1 hfresh.2.2 hzero
  rw [hcreate] at hcall
  cases hcall
  obtain ⟨table, h⟩ := run_invariant (I := fun c => ∃ table, DirectoryOk initPageDir c table)
    (fun c op d ⟨table, h⟩ hallowed hstep => by
      obtain ⟨d', table', hstep', hok', -⟩ := h.step hallowed
      rw [hstep] at hstep'
      cases hstep'
      exact ⟨table', hok'⟩) ⟨_, hok⟩ hops hrun
  exact h.safe

/-! ### A machine with 2 MB -/

def machineDir : Word := 0xc0102000#32

def machineTable (_ : Nat) : Word := 0xc0103000#32

def processDir : Word := 0xc0104000#32

def userFrame : Word := 0xc0181000#32

/-- The bits of the two pools when the first frame of the user pool is in use. -/
def machineUsed (page : Word) : Option Bool :=
  if 0xc0101000#32 ≤ page ∧ page < 0xc0180000#32 ∨ userFrame ≤ page ∧ page < 0xc0200000#32 then
    some (page ∈ [machineDir, machineTable 0, userFrame])
  else none

def bootPages : Pages := ⟨fun _ _ => 0, machineUsed⟩

lemma machineTable_pages : PagingPages machineDir machineTable :=
  fun _ => show pgOfs 0xc0103000#32 = 0 ∧ kernelBase ≤ 0xc0103000#32 ∧ 0xc0103000#32 ≠ machineDir by
    decide

lemma machine_boots : ∃ started, pagingInit (Threads.initRamPages 1024#16) machineDir machineTable
    (fun _ => true) bootPages = .ok ((), started) ∧ ∀ i < 768, started.words machineDir i = 0 :=
  pagingInit_returns _ (by decide) machineTable_pages _ _

def mapAndClear : List Op :=
  [.setPage 0x8048000#32 userFrame true 0xc0105000#32, .setDirty 0x8048123#32 true,
    .clearPage 0x8048000#32]

theorem pagedir_safe_map_and_clear : ∃ started created c,
    pagingInit (Threads.initRamPages 1024#16) machineDir machineTable (fun _ => true) bootPages =
      .ok ((), started) ∧
    pagedirCreate machineDir processDir ⟨started.words, machineUsed⟩ = .ok (processDir, created) ∧
    Meets (step machineDir (Threads.initRamPages 1024#16))
      (Allowed machineDir (Threads.initRamPages 1024#16)) ⟨created, processDir, [], []⟩
      mapAndClear ∧
    run (step machineDir (Threads.initRamPages 1024#16)) ⟨created, processDir, [], []⟩ mapAndClear =
      some c ∧ PagedirSafe machineDir (Threads.initRamPages 1024#16) c := by
  obtain ⟨started, hboot, hzero⟩ := machine_boots
  obtain ⟨hcreate, hok⟩ := directoryOk_create (p := ⟨started.words, machineUsed⟩)
    (show processDir ≠ 0 by decide) (by decide) (show processDir ≠ machineDir by decide) hzero
  -- what is allowed here does not depend on the words of the tables
  have hops : Meets (step machineDir (Threads.initRamPages 1024#16))
      (Allowed machineDir (Threads.initRamPages 1024#16))
      ⟨Pages.allocate ⟨started.words, machineUsed⟩ processDir (started.words machineDir),
        processDir, [], []⟩ mapAndClear := by
    refine ⟨⟨by decide, by decide, rfl, by decide, by decide, by decide,
      Or.inr ⟨by decide, by decide, by decide, rfl⟩⟩, fun _ _ => ⟨show _ < _ by decide, fun _ _ =>
      ⟨⟨by decide, by decide⟩, fun _ _ => trivial⟩⟩⟩
  obtain ⟨c, hrun, -⟩ := run_total (I := fun c => ∃ table, DirectoryOk machineDir c table)
    (fun c op ⟨table, h⟩ hallowed => by
      obtain ⟨d, table', hstep, hok', -⟩ := h.step hallowed
      exact ⟨d, hstep, table', hok'⟩) ⟨_, hok⟩ hops
  have hkept : Pages.words ⟨started.words, machineUsed⟩ machineDir = started.words machineDir := rfl
  exact ⟨started, _, c, hboot, hcreate, hops, hrun, pagedir_safe_of_run (by decide)
    machineTable_pages hboot hkept ⟨by decide, by decide, by decide⟩ hcreate hops hrun⟩

def mapTwice : List Op :=
  [.setPage 0x8048000#32 userFrame true 0xc0105000#32,
    .setPage 0x8049000#32 userFrame true 0xc0106000#32]

def twoSets : List Change :=
  [.set (pageNo 0x8049000#32) userFrame, .set (pageNo 0x8048000#32) userFrame]

lemma lastMapped_twoSets {page : Nat} {frame : Word} (h : lastMapped twoSets page = some frame) :
    frame = userFrame := by
  simp only [twoSets, lastMapped] at h
  split at h
  · exact (some.inj h).symm
  split at h
  · exact (some.inj h).symm
  · exact nomatch h

lemma framesPresent_twoSets : ¬ (framesPresent twoSets).Nodup := by
  intro hnodup
  have htable := (List.nodup_flatMap.mp hnodup).1 32 (mem_range.mpr (by omega))
  exact absurd htable (show ¬((List.range 1024).filterMap fun j =>
    lastMapped twoSets (1024 * 32 + j)).Nodup by decide +kernel)

/-- `pagedir_destroy` frees a frame once for every page that is mapped to it. -/
theorem frame_freed_twice : ∃ started created c,
    pagingInit (Threads.initRamPages 1024#16) machineDir machineTable (fun _ => true) bootPages =
      .ok ((), started) ∧
    pagedirCreate machineDir processDir ⟨started.words, machineUsed⟩ = .ok (processDir, created) ∧
    Meets (step machineDir (Threads.initRamPages 1024#16))
      (Allowed machineDir (Threads.initRamPages 1024#16)) ⟨created, processDir, [], []⟩ mapTwice ∧
    run (step machineDir (Threads.initRamPages 1024#16)) ⟨created, processDir, [], []⟩ mapTwice =
      some c ∧
    pagedirDestroy machineDir c.pd c.pages =
      .error (.assertion "bitmap_all (pool->used_map, page_idx, page_cnt)") := by
  obtain ⟨started, hboot, hzero⟩ := machine_boots
  obtain ⟨hcreate, hok⟩ := directoryOk_create (p := ⟨started.words, machineUsed⟩)
    (show processDir ≠ 0 by decide) (by decide) (show processDir ≠ machineDir by decide) hzero
  have hfirst : Allowed machineDir (Threads.initRamPages 1024#16)
      ⟨Pages.allocate ⟨started.words, machineUsed⟩ processDir (started.words machineDir),
        processDir, [], []⟩ (.setPage 0x8048000#32 userFrame true 0xc0105000#32) :=
    ⟨by decide, by decide, rfl, by decide, by decide, by decide,
      Or.inr ⟨by decide, by decide, by decide, rfl⟩⟩
  obtain ⟨done, p₁, hcall₁, table₁, hok₁, hdone, hused₁, -⟩ := wp_iff.mp (hok.wp_setPage hfirst)
  obtain rfl := hdone (by decide)
  have hsecond : Allowed machineDir (Threads.initRamPages 1024#16) ⟨p₁, processDir, createdBy
      ⟨Pages.allocate ⟨started.words, machineUsed⟩ processDir (started.words machineDir),
        processDir, [], []⟩ 0x8048000#32 0xc0105000#32, [.set (pageNo 0x8048000#32) userFrame]⟩
      (.setPage 0x8049000#32 userFrame true 0xc0106000#32) :=
    ⟨by decide, by decide,
      show lastMapped [.set (pageNo 0x8048000#32) userFrame] (pageNo 0x8049000#32) = none by decide,
      by decide, by decide, by decide,
      Or.inr ⟨by decide, by decide, by decide, hused₁ 0xc0106000#32 (by decide)⟩⟩
  obtain ⟨done, p₂, hcall₂, table₂, hok₂, hdone, hused₂, -⟩ :=
    wp_iff.mp (hok₁.wp_setPage hsecond)
  obtain rfl := hdone (by decide)
  have hdestroy := hok₂.destroy fun frame hframe => by
    obtain ⟨i, -, hi⟩ := List.mem_flatMap.mp hframe
    obtain ⟨j, -, hj⟩ := List.mem_filterMap.mp hi
    obtain rfl := lastMapped_twoSets hj
    refine ⟨⟨by decide, by decide, (hused₂ userFrame (by decide)).trans
      (hused₁ userFrame (by decide))⟩, fun hmem => ?_, show _ ≠ processDir by decide⟩
    rcases mem_createdBy hmem with heq | hmem
    · exact absurd heq (by decide)
    rcases mem_createdBy hmem with heq | hmem
    · exact absurd heq (by decide)
    · simp at hmem
  refine ⟨started, _, _, hboot, hcreate, ⟨hfirst, fun d hd => ?_⟩, ?_, Action.eq_error_of_outcome
    (outcome_mono hdestroy (fun _ _ hdistinct => framesPresent_twoSets hdistinct.1)
      fun _ hfault => hfault.2)⟩
  · simp only [step, hcall₁, Option.mem_def, some.injEq] at hd
    subst hd
    exact ⟨hsecond, fun _ _ => trivial⟩
  · simp only [run, mapTwice, step, hcall₁, hcall₂, Option.bind_some]
    rfl

end Pintos.Userprog.PageTables
