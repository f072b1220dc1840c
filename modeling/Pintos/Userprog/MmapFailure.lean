import Pintos.Userprog.Mmap

/-!
# When `mmap` fails

The checks of `mmap` change nothing, and neither does a `file_reopen` that finds no
memory.  Once the file is open again, no failure of `mmfiles_insert` closes it, and the
entries that were added stay in the supplemental page table.
-/

namespace Pintos.Userprog

open Foundation Filesys Vm

def mmfilesOf (k : Kernel) : Option (Int → Option Mmfile) :=
  (findAt Process.tid k.allList k.current).bind Process.mmfiles

def openCntOf (fs : Fs) (inode : Nat) : Option Int :=
  (findAt Inode.addr fs.openInodes inode).map Inode.openCnt

/-- The tables of the current thread and the number of times each inode is open are the same. -/
structure Unchanged (k t : Kernel) : Prop where
  entries : ∀ page, speOf t page = speOf k page
  mappings : mmfilesOf t = mmfilesOf k
  counts : ∀ inode, openCntOf t.fs inode = openCntOf k.fs inode

/-- The request passes every check of `mmap`, for a file of `len` bytes that is opened again. -/
structure MmapAccepted (k : Kernel) (process : Process) (words : SentinelWords) (fd : Int)
    (addr handle : Nat) (len : Int) : Prop where
  nonnull : addr ≠ 0
  isFile : fd ≠ 0 ∧ fd ≠ 1
  descriptor : retrieveFile process words fd = some (.descriptor handle)
  length : HasLength k.fs handle len
  len_pos : 0 < len
  len_le : len ≤ 2 ^ 31 - pgSize
  region : ∃ pd, FreeRegion k process pd addr len
  memory : k.fs.heapOk k.fs.allocations = true

/-- `mmfiles_insert` gets its memory after `file_reopen`, and the next id can be recorded. -/
structure Insertable (k : Kernel) (process : Process) (len : Int) : Prop where
  memory : HasMemory (k.fs.spend 1) (pageCount len + 1)
  mapid : ∀ table, process.mmfiles = some table →
    process.mapidAllocator ≠ -1 ∧ table process.mapidAllocator = none

section

variable {k : Kernel} {process : Process} {pd : PageTable} {words : SentinelWords} {fd : Int}
  {addr handle : Nat}
  {len : Int}

lemma Unchanged.refl (k : Kernel) : Unchanged k k := ⟨fun _ => rfl, rfl, fun _ => rfl⟩

/-! ## The checks -/

lemma fileLength_outcome (fs : Fs) (handle : Nat) : outcome
    (fileLength handle) (fun len fs' => fs' = fs ∧ HasLength fs handle len) (fun _ => True) fs := by
  simp only [fileLength, getFile, getInode, outcome_bind, outcome_get]
  cases hfile : findAt File.addr fs.files handle with
  | none => trivial
  | some file =>
    simp only [outcome_pure]
    cases hinode : findAt Inode.addr fs.openInodes file.inode with
    | none => trivial
    | some inode => exact ⟨rfl, file, inode, hfile, hinode, rfl⟩

section

variable (hcur : findAt Process.tid k.allList k.current = some process)

include hcur

lemma pagedirGetPage_reads
    (uaddr : Nat) : outcome (pagedirGetPage uaddr) (fun pte t => t = k ∧ uaddr < physBase ∧
        ∃ pd, process.pagedir = some pd ∧ pte = pd.toPagedir (pgNo uaddr)) (fun _ => True) k := by
  simp only [pagedirGetPage, threadCurrent, outcome_bind, outcome_get, hcur, outcome_pure]
  refine outcome_require (fun huser => ?_) fun _ => trivial
  cases hpd : process.pagedir with
  | none => trivial
  | some pd => exact ⟨rfl, huser, pd, rfl, rfl⟩

lemma pagesFree_reads (halign : pgOfs addr = 0) (hlen : len ≤ 2 ^ 31 - pgSize) (fuel i : Nat)
    (haddr : addr + i * pgSize < 2 ^ 32) : outcome (pagesFree addr len fuel (i * pgSize : Nat))
      (fun free t => t = k ∧ (free = true → ∀ j, i ≤ j → j < pageCount len →
        addr + j * pgSize < physBase ∧ process.supplPageTable (pgNo addr + j) = none ∧
          ∃ pd, process.pagedir = some pd ∧ pd.lookup (pgNo addr + j) = none))
      (fun _ => True) k := by
  induction fuel generalizing i with
  | zero => trivial
  | succ fuel ih =>
    simp only [pgSize, pgOfs] at halign hlen haddr
    have hbelow : addr + i * pgSize < physBase → addr + (i + 1) * pgSize < 2 ^ 32 := by
      simp only [physBase, pgSize]
      omega
    rw [pagesFree]
    by_cases hlt : ((i * pgSize : Nat) : Int) < len
    · have hat : addrAt addr ((i * pgSize : Nat) : Int) = addr + i * pgSize := by
        simp only [pgSize] at hlt ⊢
        rw [addrAt, toUnsigned32_ofNat (by omega), ptrAdd_eq (by omega)]
      have hpage : pgNo (addr + i * pgSize) = pgNo addr + i := by
        simp only [pgNo, pgSize]
        omega
      have hnext : nextPageOffset ((i * pgSize : Nat) : Int) = ((i + 1) * pgSize : Nat) := by
        simp only [pgSize] at hlt ⊢
        rw [nextPageOffset_eq (by omega) (by simp only [pgSize]; omega)]
        push_cast [pgSize]
        ring
      rw [if_pos hlt, hat, hpage, outcome_bind]
      refine outcome_of_wp ((wp_getSpe hcur _ _).mpr ?_)
      cases hspe : process.supplPageTable (pgNo addr + i) with
      | some spe => exact ⟨rfl, fun hfree => absurd hfree Bool.false_ne_true⟩
      | none =>
        simp only [Option.isSome_none, Bool.false_eq_true, if_false, outcome_bind]
        refine outcome_mono (pagedirGetPage_reads hcur _) ?_ fun _ => id
        rintro pte _ ⟨rfl, huser, pd, hpd, rfl⟩
        rw [hpage]
        cases hpte : pd.toPagedir (pgNo addr + i) with
        | some pte => exact ⟨rfl, fun hfree => absurd hfree Bool.false_ne_true⟩
        | none =>
          simp only [Option.isSome_none, Bool.false_eq_true, if_false]
          rw [hnext]
          refine outcome_mono (ih (i + 1) ?_) ?_ fun _ => id
          · exact hbelow huser
          rintro free t ⟨rfl, hrest⟩
          refine ⟨rfl, fun hfree j hij hj => ?_⟩
          rcases Nat.eq_or_lt_of_le hij with rfl | hij
          · have hlook : pd.lookup (pgNo addr + i) = none := by
              simpa [PageTable.toPagedir] using hpte
            exact ⟨huser, hspe, pd, hpd, hlook⟩
          · exact hrest hfree j hij hj
    · rw [if_neg hlt, outcome_pure]
      refine ⟨rfl, fun _ j hij hj => ?_⟩
      simp only [pgSize, pageCount] at hlt hj
      omega

lemma pagesFree_region (halign : pgOfs addr = 0) (haddr : addr < 2 ^ 32) (hpos : 0 < len)
    (fuel : Nat) : outcome (pagesFree addr len fuel 0) (fun free t => t = k ∧
        (free = true → len ≤ 2 ^ 31 - pgSize ∧ ∃ pd, FreeRegion k process pd addr len))
      (fun _ => True) k := by
  by_cases hlen : len ≤ 2 ^ 31 - pgSize
  · have hreads := pagesFree_reads hcur halign hlen fuel 0 (by simpa using haddr)
    rw [Nat.zero_mul, Nat.cast_zero] at hreads
    refine outcome_mono hreads ?_ fun _ => id
    rintro free t ⟨rfl, hpages⟩
    refine ⟨rfl, fun hfree => ⟨hlen, ?_⟩⟩
    have hcnt : 0 < pageCount len := by
      simp only [pageCount, pgSize]
      omega
    obtain ⟨-, -, pd, hpd, -⟩ := hpages hfree 0 (le_refl 0) hcnt
    refine ⟨pd, hcur, hpd, halign, ?_, fun i hi => ?_, fun i hi => ?_⟩
    · -- the last page begins below PHYS_BASE, which is a multiple of the page size
      have hlast := (hpages hfree (pageCount len - 1) (Nat.zero_le _) (by omega)).1
      simp only [pgOfs, pgSize, physBase] at halign hlast ⊢
      omega
    · obtain ⟨-, -, pd', hpd', hnone⟩ := hpages hfree i (Nat.zero_le i) hi
      rw [hpd] at hpd'
      rw [some.inj hpd', hnone]
    · exact (hpages hfree i (Nat.zero_le i) hi).2.1
  · have hlong := pagesFree_outcome (k := k) addr (Int.not_le.mp hlen) fuel 0 (by rfl) (by omega)
    refine outcome_mono hlong ?_ fun _ => id
    rintro free t ⟨rfl, rfl⟩
    exact ⟨rfl, fun hfree => absurd hfree Bool.false_ne_true⟩

end

/-! ## Opening the file again -/

lemma wp_fileReopen_fails {fs : Fs} {file : File} {inode : Inode}
    (hfile : findAt File.addr fs.files handle = some file)
    (hinode : findAt Inode.addr fs.openInodes file.inode = some inode)
    (hcnt : 1 ≤ inode.openCnt) (hmem : fs.heapOk fs.allocations = false)
    (Q : Option Nat → Fs → Prop) : wp (fileReopen handle) Q fs ↔ Q none ((fs.spend 1).setInodes
      (closed (reopened fs.openInodes file.inode) file.inode)) := by
  have hreopened : findAt Inode.addr (reopened fs.openInodes file.inode) file.inode =
      some { inode with openCnt := inode.openCnt + 1 } := by
    rw [reopened, findAt_updateAt_self (by exact fun _ => rfl), hinode]
    rfl
  have hmore : ¬ inode.openCnt + 1 - 1 = 0 := by omega
  simp only [fileReopen, inodeReopen, fileOpen, inodeClose, wp_bind, wp_getFile hfile,
    wp_getInode hinode, wp_modify, wp_pure, wp_malloc, Fs.setInodes_heapOk,
    Fs.setInodes_allocations, hmem]
  rw [wp_getInode (by exact hreopened)]
  simp only [if_neg hmore, wp_pure]
  exact Iff.rfl

lemma openCntOf_reopened {fs : Fs} {addr : Nat} {inode : Inode}
    (hinode : findAt Inode.addr fs.openInodes addr = some inode) :
    openCntOf (fs.setInodes (reopened fs.openInodes addr)) addr = some (inode.openCnt + 1) := by
  rw [openCntOf, Fs.setInodes_openInodes, reopened, findAt_updateAt_self (by exact fun _ => rfl),
    hinode]
  rfl

lemma openCntOf_closed_reopened (fs : Fs) (addr inode : Nat) : openCntOf
    (fs.setInodes (closed (reopened fs.openInodes addr) addr)) inode = openCntOf fs inode := by
  simp only [openCntOf, Fs.setInodes_openInodes, closed, reopened]
  by_cases heq : inode = addr
  · subst heq
    rw [findAt_updateAt_self (by exact fun _ => rfl), findAt_updateAt_self (by exact fun _ => rfl)]
    cases findAt Inode.addr fs.openInodes inode with
    | none => rfl
    | some inode => simp
  · rw [findAt_updateAt_of_ne (by exact fun _ => rfl) heq,
      findAt_updateAt_of_ne (by exact fun _ => rfl) heq]

/-! ## The whole call -/

lemma mmap_rejected (hcur : findAt Process.tid k.allList k.current = some process)
    (haddr : addr < 2 ^ 32) (hcounts : ∀ inode ∈ k.fs.openInodes, 1 ≤ inode.openCnt)
    (hrejected : ∀ handle len, ¬ MmapAccepted k process words fd addr handle len) :
    outcome (mmap words fd addr) (fun _ t => Unchanged k t) (fun _ => True) k := by
  rw [mmap]
  split_ifs with hnull hfd
  · exact Unchanged.refl k
  · exact Unchanged.refl k
  obtain ⟨hnonnull, halign⟩ : addr ≠ 0 ∧ pgOfs addr = 0 := by simpa using hnull
  rw [outcome_bind]
  refine outcome_of_wp ((wp_threadCurrent hcur _).mpr ?_)
  cases hfound : retrieveFile process words fd with
  | none => exact Unchanged.refl k
  | some found =>
    cases found with
    | sentinel length =>
      dsimp only
      split_ifs
      · exact Unchanged.refl k
      · trivial
    | descriptor handle =>
      simp only [outcome_bind, onFs, outcome_zoom]
      refine outcome_mono (fileLength_outcome k.fs handle) ?_ fun _ => id
      rintro len _ ⟨rfl, hlength⟩
      split_ifs with hlen
      · exact Unchanged.refl k
      have hpos : 0 < len := Int.not_le.mp hlen
      rw [outcome_bind]
      refine outcome_mono (pagesFree_region (k := k) hcur halign haddr hpos _) ?_ fun _ => id
      rintro free t ⟨rfl, hfree⟩
      cases free with
      | false => exact Unchanged.refl t
      | true =>
        obtain ⟨hle, hregion⟩ := hfree rfl
        have hmem : t.fs.heapOk t.fs.allocations = false := by
          refine Bool.eq_false_iff.mpr fun hmem => hrejected handle len ?_
          exact ⟨hnonnull, by simpa using hfd, hfound, hlength, hpos, hle, hregion, hmem⟩
        obtain ⟨file, inode, hfile, hinode, -⟩ := hlength
        have hcnt := hcounts inode (mem_of_find?_eq_some hinode)
        simp only [if_true, outcome_bind, outcome_zoom]
        refine outcome_of_wp ((wp_fileReopen_fails hfile hinode hcnt hmem _).mpr ?_)
        exact ⟨fun _ => rfl, rfl, openCntOf_closed_reopened t.fs file.inode⟩

lemma MmapAccepted.reduces (h : MmapAccepted k process words fd addr handle len)
    (hcur : findAt Process.tid k.allList k.current = some process) :
    ∃ fs newFile inode count, openCntOf k.fs inode = some count ∧ openCntOf fs inode = some
    (count + 1) ∧ fs.heapOk = k.fs.heapOk ∧ fs.allocations = k.fs.allocations + 1 ∧
    ∀ Q, wp (mmap words fd addr) Q k ↔ wp (mmfilesInsert addr newFile len) Q (k.setFs fs) := by
  obtain ⟨pd, hregion⟩ := h.region
  obtain ⟨file, inode, hfile, hinode, hlen⟩ := h.length
  refine ⟨fileOpened (k.fs.setInodes (reopened k.fs.openInodes file.inode)) file.inode,
    k.fs.nextAddress, file.inode, inode.openCnt, by rw [openCntOf, hinode]; rfl,
    openCntOf_reopened hinode, rfl, rfl, fun Q => ?_⟩
  have hcnt : pageCount len < 2 ^ 20 + 1 + 0 := by
    have hle := h.len_le
    simp only [pageCount, pgSize] at hle ⊢
    omega
  have hsearch := wp_pagesFree hregion h.len_le (2 ^ 20 + 1) 0 (Nat.zero_le _) hcnt
  rw [Nat.zero_mul, Nat.cast_zero] at hsearch
  rw [mmap, if_neg (by simp [h.nonnull, hregion.aligned]), if_neg (by simp [h.isFile]),
    wp_bind, wp_threadCurrent hcur, h.descriptor]
  simp only [wp_bind, wp_onFs]
  rw [wp_fileLength h.length, if_neg (Int.not_le.mpr h.len_pos), wp_bind]
  rw [show k.setFs k.fs = k from rfl, hsearch]
  simp only [if_true, wp_bind, wp_onFs]
  rw [wp_fileReopen hfile hinode h.memory]

lemma mmfilesInsert_fails (hregion : FreeRegion k process pd addr len) (hlen : len < 2 ^ 31)
    (file : Nat) (hmem : ¬ HasMemory k.fs (pageCount len + 1)) : wp (mmfilesInsert addr file len)
      (fun mapid t => mapid = -1 ∧ t.fs.openInodes = k.fs.openInodes) k := by
  obtain ⟨hcur, -, halign, huser, -, hunused⟩ := hregion
  have hcur' : findAt Process.tid (k.setFs (k.fs.spend 1)).allList
      (k.setFs (k.fs.spend 1)).current = some process := hcur
  have hnext := current_updateProcess hcur'
    (f := (·.setMapidAllocator (incremented process.mapidAllocator))) fun _ => rfl
  have hcnt : pageCount len < 2 ^ 19 + 1 := by
    simp only [pageCount, pgSize]
    omega
  simp only [mmfilesInsert, wp_bind, wp_onFs, wp_malloc]
  rw [hasMemory_succ] at hmem
  cases hrecord : k.fs.heapOk k.fs.allocations with
  | false => exact ⟨rfl, rfl⟩
  | true =>
    have hpages : ¬ HasMemory (k.fs.spend 1) (pageCount len) := fun h => hmem ⟨hrecord, h⟩
    simp only [if_true, allocMapid, wp_bind, wp_threadCurrent hcur', updateCurrent,
      wp_modify, wp_pure]
    refine wp_mono (insertPages_spec (2 ^ 19 + 1) hnext halign huser hunused hcnt) ?_
    rintro pgCnt t ⟨-, hinodes, -, hstops⟩
    rw [hstops hpages]
    exact ⟨rfl, hinodes⟩

/-- With its memory and a new id, `mmfiles_insert` either returns the id or, when the table was
never initialised, does not return. -/
lemma Insertable.mmfilesInsert_ne {fs : Fs} (h : Insertable k process len)
    (hregion : FreeRegion k process pd addr len) (hlen : len < 2 ^ 31) (file : Nat)
    (hheap : fs.heapOk = k.fs.heapOk) (hcnt : fs.allocations = k.fs.allocations + 1) :
    ¬ wp (mmfilesInsert addr file len) (fun mapid _ => mapid = -1) (k.setFs fs) := by
  have hmem : HasMemory fs (pageCount len + 1) := by
    intro i hi
    rw [hheap, hcnt]
    exact h.memory i hi
  obtain ⟨t, hfind, -, hreduces⟩ := mmfilesInsert_reduces (hregion.setFs fs) hlen file hmem
  rw [hreduces, wp_insertMmfile hfind]
  rintro ⟨table, htab, hwp⟩
  obtain ⟨hid, hnone⟩ := h.mapid table htab
  rw [hnone] at hwp
  exact hid hwp

lemma mmfilesInsert_leaves_open {fs : Fs} (h : ¬ Insertable k process len)
    (hregion : FreeRegion k process pd addr len) (hlen : len < 2 ^ 31) (file : Nat)
    (hheap : fs.heapOk = k.fs.heapOk) (hcnt : fs.allocations = k.fs.allocations + 1) :
    wp (mmfilesInsert addr file len)
      (fun mapid t => mapid = -1 ∧ t.fs.openInodes = fs.openInodes) (k.setFs fs) := by
  by_cases hmem : HasMemory fs (pageCount len + 1)
  · obtain ⟨t, hfind, hinodes, hreduces⟩ := mmfilesInsert_reduces (hregion.setFs fs) hlen file hmem
    rw [hreduces, wp_insertMmfile hfind]
    have hmapid : ¬ ∀ table, process.mmfiles = some table →
        process.mapidAllocator ≠ -1 ∧ table process.mapidAllocator = none := by
      refine fun hmapid => h ⟨fun i hi => ?_, hmapid⟩
      have hnext := hmem i hi
      rwa [hheap, hcnt] at hnext
    push Not at hmapid
    obtain ⟨table, htab, hused⟩ := hmapid
    refine ⟨table, htab, ?_⟩
    cases hold : table process.mapidAllocator with
    | some old => exact ⟨rfl, hinodes⟩
    | none =>
      have hid : process.mapidAllocator = -1 := by
        by_contra hne
        exact hused hne hold
      exact ⟨hid, hinodes⟩
  · exact mmfilesInsert_fails (hregion.setFs fs) hlen file hmem

end

section FileUser

attribute [local irreducible] wp

/-- The user of a file of two pages, on a machine that allocates what `heapOk` says. -/
def mmapUser (mmfiles : Option (Int → Option Mmfile)) (heapOk : Nat → Bool) : Kernel :=
  (fileUser mmfiles).setFs { (fileUser mmfiles).fs with heapOk }

lemma mmapUser_counts (mmfiles : Option (Int → Option Mmfile)) (heapOk : Nat → Bool) :
    ∀ inode ∈ (mmapUser mmfiles heapOk).fs.openInodes, 1 ≤ inode.openCnt := by
  simp [mmapUser, fileUser]

end FileUser

end Pintos.Userprog
