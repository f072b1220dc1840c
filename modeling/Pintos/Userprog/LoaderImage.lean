import Pintos.Userprog.Loader

/-!
# The image of an executable

What `load` has put into the address space of a process when it succeeds.  The
address space is seen through the page directory: which pages are mapped and
writable, and what byte is at an address.  Each segment adds pages that were not
mapped before, and only the arguments, which are pushed last, can overwrite what
was loaded.
-/

namespace Pintos.Userprog.Loader

open Foundation Filesys Vm

variable {a b n rounds : Nat} {newPos : Int} {P Q : Nat → Prop}

/-! ## Arithmetic of a valid segment -/

section Arithmetic

variable {ph : Phdr} {length : Int}

lemma sub32_eq (hle : b ≤ a) (ha : a < 2 ^ 32) : sub32 a b = a - b := by
  unfold sub32
  rw [show a + 2 ^ 32 - b = (a - b) + 2 ^ 32 by omega, Nat.add_mod_right]
  exact Nat.mod_eq_of_lt (by omega)

structure ValidSegment (ph : Phdr) (length : Int) : Prop where
  offset : pgOfs ph.pOffset = pgOfs ph.pVaddr
  inside : ph.pOffset ≤ toUnsigned32 length
  sizes : ph.pFilesz ≤ ph.pMemsz
  nonempty : 0 < ph.pMemsz
  user : ph.pVaddr + ph.pMemsz < physBase
  mapped : pgSize ≤ ph.pVaddr

def Phdr.Words (ph : Phdr) : Prop :=
  ph.pOffset < 2 ^ 32 ∧ ph.pVaddr < 2 ^ 32 ∧ ph.pFilesz < 2 ^ 32 ∧ ph.pMemsz < 2 ^ 32

lemma decode_words (m : Memory) (a : Nat) : (Phdr.decode m a).Words :=
  ⟨word32_lt m _, word32_lt m _, word32_lt m _, word32_lt m _⟩

lemma ptrAdd_cases (ha : a < 2 ^ 32) (hb : b < 2 ^ 32) :
    ptrAdd a b = a + b ∨ ptrAdd a b = a + b - 2 ^ 32 ∧ 2 ^ 32 ≤ a + b := by
  by_cases h : a + b < 2 ^ 32
  · exact .inl (ptrAdd_eq h)
  refine .inr ⟨?_, by omega⟩
  unfold ptrAdd
  rw [Nat.mod_eq_sub_mod (by omega)]
  exact Nat.mod_eq_of_lt (by omega)

lemma validSegment_of (hwords : ph.Words) (h : validateSegment ph length = true) :
    ValidSegment ph length := by
  obtain ⟨-, hvaddr, -, hmemsz⟩ := hwords
  unfold validateSegment at h
  repeat' split at h
  all_goals try contradiction
  rename_i hoffset hinside hsizes hzero huser hend hwrap hfirst
  refine ⟨not_not.mp hoffset, by omega, by omega, by omega, ?_, by omega⟩
  rcases ptrAdd_cases hvaddr hmemsz with heq | ⟨heq, hge⟩
  · rw [heq] at hend
    omega
  -- the sum that wrapped around is below the start
  rw [heq] at hwrap
  omega

def Phdr.Covers (ph : Phdr) (page : Nat) : Prop :=
  pgNo ph.pVaddr ≤ page ∧ page * pgSize < ph.pVaddr + ph.pMemsz

structure LoopVariables where
  upage : Nat
  readBytes : Nat
  zeroBytes : Nat

namespace LoopVariables

def pageReadBytes (v : LoopVariables) : Nat := if v.readBytes < pgSize then v.readBytes else pgSize

def advance (v : LoopVariables) : LoopVariables where
  upage := ptrAdd v.upage pgSize
  readBytes := v.readBytes - v.pageReadBytes
  zeroBytes := sub32 v.zeroBytes (pgSize - v.pageReadBytes)

structure Exact (v : LoopVariables) : Prop where
  upage : v.upage + pgSize ≤ physBase
  readBytes : v.pageReadBytes ≤ v.readBytes
  zeroBytes : pgSize - v.pageReadBytes ≤ v.zeroBytes

end LoopVariables

lemma segmentLoop_succ (file : Nat) (writable : Bool) (rounds : Nat) (v : LoopVariables) :
    segmentLoop file writable (rounds + 1) v.upage v.readBytes v.zeroBytes =
      if v.readBytes > 0 ∨ v.zeroBytes > 0 then do
        if ← segmentPage file v.upage v.pageReadBytes writable then
          segmentLoop file writable rounds v.advance.upage v.advance.readBytes v.advance.zeroBytes
        else return some false
      else return some true := rfl

lemma LoopVariables.advance_total {v : LoopVariables}
    (htotal : v.readBytes + v.zeroBytes = (rounds + 1) * pgSize) (hlt : v.zeroBytes < 2 ^ 32) :
    v.pageReadBytes ≤ v.readBytes ∧ pgSize - v.pageReadBytes ≤ v.zeroBytes ∧
      v.advance.readBytes + v.advance.zeroBytes = rounds * pgSize ∧
      v.advance.zeroBytes < 2 ^ 32 := by
  have hread : v.pageReadBytes ≤ v.readBytes ∧ v.pageReadBytes ≤ pgSize ∧
      (v.pageReadBytes = v.readBytes ∨ v.pageReadBytes = pgSize) := by
    unfold LoopVariables.pageReadBytes
    split <;> omega
  rw [Nat.succ_mul] at htotal
  simp only [LoopVariables.advance]
  rw [sub32_eq (by omega) hlt]
  omega

lemma LoopVariables.advance_iterate (htotal : v.readBytes + v.zeroBytes = rounds * pgSize)
    (hlt : v.zeroBytes < 2 ^ 32) (huser : v.upage + rounds * pgSize ≤ physBase)
    (hn : n ≤ rounds) : (LoopVariables.advance^[n] v).upage = v.upage + n * pgSize ∧
    (LoopVariables.advance^[n] v).readBytes + (LoopVariables.advance^[n] v).zeroBytes =
    (rounds - n) * pgSize ∧ (LoopVariables.advance^[n] v).zeroBytes < 2 ^ 32 := by
  induction n with
  | zero => exact ⟨by simp, by simpa using htotal, hlt⟩
  | succ n ih =>
    obtain ⟨hupage, htotal, hlt⟩ := ih (by omega)
    obtain ⟨m, rfl⟩ : ∃ m, rounds = n + 1 + m := ⟨rounds - (n + 1), by omega⟩
    rw [Function.iterate_succ_apply']
    rw [show n + 1 + m - n = m + 1 by omega] at htotal
    obtain ⟨-, -, htotal', hlt'⟩ := LoopVariables.advance_total htotal hlt
    refine ⟨?_, by rw [htotal', show n + 1 + m - (n + 1) = m by omega], hlt'⟩
    simp only [LoopVariables.advance]
    rw [hupage, ptrAdd_eq, Nat.succ_mul, Nat.add_assoc]
    simp only [Nat.add_mul, physBase, pgSize] at huser ⊢
    omega

def Placement.variables (p : Placement) : LoopVariables := ⟨p.memPage, p.readBytes, p.zeroBytes⟩

/-- No sum or difference that `load` makes for the segment wraps around, and the arguments of
`load_segment` are what they are meant to be. -/
structure NoWrap (ph : Phdr) : Prop where
  readSum : 0 < ph.pFilesz → ptrAdd (pgOfs ph.pVaddr) ph.pFilesz = pgOfs ph.pVaddr + ph.pFilesz
  memSum : ptrAdd (pgOfs ph.pVaddr) ph.pMemsz = pgOfs ph.pVaddr + ph.pMemsz
  roundSum : ptrAdd (pgOfs ph.pVaddr + ph.pMemsz) (pgSize - 1) =
    pgOfs ph.pVaddr + ph.pMemsz + (pgSize - 1)
  zeroDifference : ph.placement.readBytes + ph.placement.zeroBytes =
    roundUp (pgOfs ph.pVaddr + ph.pMemsz)
  total : ptrAdd ph.placement.readBytes ph.placement.zeroBytes =
    ph.placement.readBytes + ph.placement.zeroBytes
  pages : ph.placement.memPage +
    (ph.placement.readBytes + ph.placement.zeroBytes) / pgSize * pgSize ≤ physBase
  rounds : ∀ n < (ph.placement.readBytes + ph.placement.zeroBytes) / pgSize,
    (LoopVariables.advance^[n] ph.placement.variables).Exact

lemma roundUp_eq {x : Nat} (h : x + (pgSize - 1) < 2 ^ 32) :
    roundUp x = (x + (pgSize - 1)) / pgSize * pgSize := by
  rw [roundUp, ptrAdd_eq h]

lemma ValidSegment.readBytes (h : ValidSegment ph length) : ph.placement.readBytes =
    if ph.pFilesz > 0 then pgOfs ph.pVaddr + ph.pFilesz else 0 := by
  obtain ⟨-, -, hsizes, -, huser, -⟩ := h
  unfold Phdr.placement
  dsimp only
  split
  · rw [ptrAdd_eq]
    simp only [pgOfs, pgSize, physBase] at *
    omega
  · rfl

lemma ValidSegment.noWrap (h : ValidSegment ph length) : NoWrap ph := by
  have hread := h.readBytes
  obtain ⟨-, -, hsizes, hpos, huser, -⟩ := h
  have hofs : pgOfs ph.pVaddr < pgSize ∧ pgOfs ph.pVaddr ≤ ph.pVaddr := by
    simp only [pgOfs, pgSize]
    omega
  have hmem : ptrAdd (pgOfs ph.pVaddr) ph.pMemsz = pgOfs ph.pVaddr + ph.pMemsz := by
    apply ptrAdd_eq
    simp only [physBase] at huser
    omega
  have hround : pgOfs ph.pVaddr + ph.pMemsz + (pgSize - 1) < 2 ^ 32 := by
    simp only [physBase, pgSize] at *
    omega
  have hup := roundUp_eq hround
  have hbounds : pgOfs ph.pVaddr + ph.pMemsz ≤ roundUp (pgOfs ph.pVaddr + ph.pMemsz) ∧
      roundUp (pgOfs ph.pVaddr + ph.pMemsz) < 2 ^ 32 ∧
      pgRoundDown ph.pVaddr + roundUp (pgOfs ph.pVaddr + ph.pMemsz) ≤ physBase := by
    rw [hup, pgRoundDown]
    simp only [physBase, pgSize, pgOfs] at *
    omega
  have hzero : ph.placement.readBytes + ph.placement.zeroBytes =
      roundUp (pgOfs ph.pVaddr + ph.pMemsz) := by
    have hzeroBytes : ph.placement.zeroBytes = if ph.pFilesz > 0 then
        sub32 (roundUp (pgOfs ph.pVaddr + ph.pMemsz)) ph.placement.readBytes
        else roundUp (pgOfs ph.pVaddr + ph.pMemsz) := by
      rw [← hmem]
      rfl
    rw [hzeroBytes, hread]
    split
    · rw [sub32_eq (by omega) hbounds.2.1]
      omega
    · omega
  have hpages : ph.placement.memPage +
      (ph.placement.readBytes + ph.placement.zeroBytes) / pgSize * pgSize ≤ physBase := by
    have hmemPage : ph.placement.memPage = pgRoundDown ph.pVaddr := rfl
    have hmul := Nat.div_mul_le_self (roundUp (pgOfs ph.pVaddr + ph.pMemsz)) pgSize
    rw [hzero, hmemPage]
    omega
  refine ⟨fun _ => ?_, hmem, ptrAdd_eq hround, hzero, ?_, hpages, fun n hn => ?_⟩
  · apply ptrAdd_eq
    simp only [physBase] at huser
    omega
  · apply ptrAdd_eq
    rw [hzero]
    exact hbounds.2.1
  have hmul : (ph.placement.readBytes + ph.placement.zeroBytes) / pgSize * pgSize =
      ph.placement.readBytes + ph.placement.zeroBytes := by
    rw [hzero, roundUp, Nat.mul_div_cancel _ (by norm_num [pgSize])]
  obtain ⟨hupage, htotal, hlt⟩ := LoopVariables.advance_iterate (v := ph.placement.variables)
    hmul.symm (show ph.placement.zeroBytes < 2 ^ 32 by omega) hpages hn.le
  obtain ⟨m, hm⟩ := Nat.exists_eq_add_of_lt hn
  rw [show n + m + 1 = n + 1 + m by omega] at hm
  rw [hm, show n + 1 + m - n = m + 1 by omega] at htotal
  obtain ⟨hpageRead, hpageZero, -⟩ := LoopVariables.advance_total htotal hlt
  rw [hm, Nat.add_mul, Nat.succ_mul] at hpages
  refine ⟨?_, hpageRead, hpageZero⟩
  rw [hupage]
  change ph.placement.memPage + _ + _ ≤ _
  omega

lemma pgRoundDown_mod (address : Nat) : pgRoundDown address % pgSize = 0 := by
  simp only [pgRoundDown, pgOfs, pgSize]
  omega

lemma ValidSegment.loadSegment_eq (hwords : ph.Words) (h : ValidSegment ph length) (file : Nat) :
    loadSegment file (toSigned32 ph.placement.filePage) ph.placement.memPage ph.placement.readBytes
      ph.placement.zeroBytes ph.writable =
    segmentBody file (toSigned32 ph.placement.filePage) ph.placement.memPage ph.placement.readBytes
      ph.placement.zeroBytes ph.writable := by
  have hwrap := h.noWrap
  have htotal : ptrAdd ph.placement.readBytes ph.placement.zeroBytes % pgSize = 0 := by
    rw [hwrap.total, hwrap.zeroDifference]
    exact Nat.mul_mod_left _ _
  have hupage : pgOfs ph.placement.memPage = 0 := pgRoundDown_mod ph.pVaddr
  have hofs : (toSigned32 ph.placement.filePage).tmod pgSize = 0 := by
    have hmod := pgRoundDown_mod ph.pOffset
    have hlt : ph.placement.filePage < 2 ^ 32 := by
      have hle : pgRoundDown ph.pOffset ≤ ph.pOffset := Nat.sub_le _ _
      exact hle.trans_lt hwords.1
    have hmod' : ph.placement.filePage % 4096 = 0 := hmod
    apply Int.tmod_eq_zero_of_dvd
    simp only [pgSize]
    by_cases hlow : ph.placement.filePage < 2 ^ 31
    · rw [toSigned32_of_lt hlow]
      omega
    · rw [toSigned32_of_ge (by omega) hlt]
      omega
  rw [loadSegment, Action.require_bind htotal, Action.require_bind hupage, Action.require_bind hofs]

lemma segmentLoop_ends (file : Nat) (writable : Bool) (rounds : Nat) : ∀ (v : LoopVariables)
    (k : Kernel), v.readBytes + v.zeroBytes = rounds * pgSize → v.zeroBytes < 2 ^ 32 →
    Action.outcome (segmentLoop file writable rounds v.upage v.readBytes v.zeroBytes)
    (fun r _ => r ≠ none) (fun _ => True) k := by
  induction rounds with
  | zero =>
    intro v k htotal _
    rw [segmentLoop, outcome_pure, if_neg (by omega)]
    simp
  | succ rounds ih =>
    intro v k htotal hlt
    obtain ⟨-, -, htotal', hlt'⟩ := LoopVariables.advance_total htotal hlt
    rw [segmentLoop_succ]
    split
    · rw [outcome_bind]
      refine outcome_mono (outcome_of_stops _ k trivial) ?_ fun _ => id
      intro loaded t _
      cases loaded with
      | false => simp
      | true => exact ih v.advance t htotal' hlt'
    · simp

lemma ValidSegment.ends (h : ValidSegment ph length) (file : Nat) (k : Kernel) :
    Action.outcome (segmentBody file (toSigned32 ph.placement.filePage) ph.placement.memPage
      ph.placement.readBytes ph.placement.zeroBytes ph.writable) (fun r _ => r ≠ none)
      (fun _ => True) k := by
  have hwrap := h.noWrap
  have htotal : (ph.placement.readBytes + ph.placement.zeroBytes) % pgSize = 0 := by
    rw [hwrap.zeroDifference]
    exact Nat.mul_mod_left _ _
  have hbound : ph.placement.readBytes + ph.placement.zeroBytes < 2 ^ 32 := by
    rw [← hwrap.total]
    unfold ptrAdd
    exact Nat.mod_lt _ (by norm_num)
  rw [segmentBody, outcome_bind]
  refine outcome_mono (outcome_of_stops _ k trivial) ?_ fun _ => id
  intro _ t _
  refine segmentLoop_ends file ph.writable _ ph.placement.variables t ?_
    (show ph.placement.zeroBytes < 2 ^ 32 by omega)
  exact (Nat.div_mul_cancel (Nat.dvd_of_mod_eq_zero htotal)).symm

end Arithmetic

variable {v : LoopVariables}

/-! ## The executable file -/

def contentsOf (disk : Memory) (data : InodeDisk) : Memory :=
  fun i => disk (sectorSize * data.start + i)

structure OpenAt (fs : Fs) (disk : Memory) (data : InodeDisk) (file : Nat) (pos : Int) : Prop where
  device : fs.disk = disk
  fits : Fits fs.size data
  nonneg : 0 ≤ pos
  handle : ∃ f inode, findAt File.addr fs.files file = some f ∧
    findAt Inode.addr fs.openInodes f.inode = some inode ∧ inode.data = data ∧ f.pos = pos

section Reading

variable {fs : Fs} {disk : Memory} {data : InodeDisk} {file : Nat} {pos : Int}

namespace OpenAt

variable (h : OpenAt fs disk data file pos)

include h

lemma spend (n : Nat) :
    OpenAt (fs.spend n) disk data file pos := ⟨h.device, h.fits, h.nonneg, h.handle⟩

lemma update {f : File → File}
    (hf : ∀ g, (f g).addr = g.addr ∧ (f g).inode = g.inode ∧ (g.pos = pos → (f g).pos = newPos))
    (hpos : 0 ≤ newPos) (n : Nat) :
    OpenAt ((fs.spend n).setFiles (updateAt File.addr fs.files file f)) disk data file newPos := by
  obtain ⟨g, inode, hfile, hinode, hdata, hgpos⟩ := h.handle
  refine ⟨h.device, h.fits, hpos, f g, inode, ?_, ?_, hdata, (hf g).2.2 hgpos⟩
  · rw [Fs.setFiles_files, findAt_updateAt_self fun g => (hf g).1, hfile]
    rfl
  · rw [(hf g).2.1]
    exact hinode

lemma wp_read (buffer : Memory) (size : Nat) :
    wp (fileRead file buffer size) (fun r t => ∃ n, n ≤ available data size pos ∧
      r = ((n : Int), copy buffer 0 disk (dataAddress data pos) n) ∧
      OpenAt t disk data file (pos + n)) fs := by
  obtain ⟨f, inode, hfile, hinode, hdata, rfl⟩ := h.handle
  have hnonneg := h.nonneg
  simp only [fileRead, updateFile, wp_bind, wp_getFile hfile, wp_getInode hinode,
    wp_modify, wp_pure]
  refine wp_mono (inodeReadAt_spec buffer (hdata ▸ h.fits) h.nonneg) ?_
  rintro _ t ⟨j, n, rfl, hprogress, rfl⟩
  rw [hdata, h.device]
  refine ⟨n, hdata ▸ hprogress.le, rfl, h.update (f := fun g => { g with pos := g.pos + n })
    (fun g => ⟨rfl, rfl, fun hg => ?_⟩) ?_ j⟩
  · rw [hg]
  · omega

lemma wp_seek (hnew : 0 ≤ newPos) :
    wp (fileSeek file newPos) (fun _ t => OpenAt t disk data file newPos) fs := by
  obtain ⟨f, inode, hfile, hinode, hdata, rfl⟩ := h.handle
  simp only [fileSeek, updateFile, wp_bind, wp_require, wp_getFile hfile, wp_modify]
  exact ⟨hnew, h.update (f := fun g => { g with pos := newPos }) (fun g => ⟨rfl, rfl, fun _ => rfl⟩)
    hnew 0⟩

lemma wp_length (Q : Int → Fs → Prop) : wp (fileLength file) Q fs ↔ Q data.length fs := by
  obtain ⟨f, inode, hfile, hinode, rfl, -⟩ := h.handle
  simp only [fileLength, wp_bind, wp_getFile hfile, wp_getInode hinode, wp_pure]

end OpenAt

lemma copy_contents (buffer : Memory) {i : Nat} (hi : i < n) :
    copy buffer 0 disk (dataAddress data pos) n i = contentsOf disk data (pos.toNat + i) := by
  rw [copy_inside _ _ _ (Nat.zero_le _) (by omega), contentsOf, dataAddress]
  congr 1
  omega

lemma le_of_available {size : Nat} (h : size ≤ available data size pos)
    (hsize : 0 < size) : pos + size ≤ data.length := by
  unfold available at h
  omega

end Reading

/-! ## The address space -/

def userByte (k : Kernel) (pd : PageTable) (address : Nat) : Option Byte :=
  (pd.lookup (pgNo address)).map fun mapping => k.memory mapping.frame (pgOfs address)

def pageAccess (pd : PageTable) (page : Nat) : Option Bool := (pd.lookup page).map (·.writable)

structure Space (k : Kernel) (pd : PageTable) : Prop where
  current : ∃ process, findAt Process.tid k.allList k.current = some process ∧
    process.pagedir = some pd
  used : ∀ mapping ∈ pd.entries, k.Used mapping.frame
  frames : (pd.entries.map fun mapping => mapping.frame).Nodup

structure Adds (P : Nat → Prop) (k t : Kernel) (pd pd' : PageTable) : Prop where
  fresh : ∀ page, P page → pageAccess pd page = none
  access : ∀ page, ¬P page → pageAccess pd' page = pageAccess pd page
  bytes : ∀ address, ¬P (pgNo address) → userByte t pd' address = userByte k pd address

section Space

variable {k t u : Kernel} {pd pd' pd'' : PageTable} {page frame : Nat} {writable : Bool}

lemma Adds.refl (k : Kernel) (pd : PageTable) : Adds (fun _ => False) k k pd pd :=
  ⟨fun _ h => h.elim, fun _ _ => rfl, fun _ _ => rfl⟩

lemma Adds.trans (h : Adds P k t pd pd') (h' : Adds Q t u pd' pd'') :
    Adds (fun page => P page ∨ Q page) k u pd pd'' := by
  refine ⟨fun page hpage => ?_, fun page hpage => ?_, fun address haddr => ?_⟩
  · by_cases hP : P page
    · exact h.fresh page hP
    rw [← h.access page hP]
    exact h'.fresh page (hpage.resolve_left hP)
  · rw [h'.access page (not_or.mp hpage).2, h.access page (not_or.mp hpage).1]
  · rw [h'.bytes address (not_or.mp haddr).2, h.bytes address (not_or.mp haddr).1]

lemma Adds.congr (h : Adds P k t pd pd') (hPQ : ∀ page, P page ↔ Q page) : Adds Q k t pd pd' := by
  obtain rfl : P = Q := funext fun page => propext (hPQ page)
  exact h

lemma Adds.of_setFs {fs : Fs} (h : Adds P (k.setFs fs) t pd pd') :
    Adds P k t pd pd' := ⟨h.fresh, h.access, h.bytes⟩

lemma lookup_add_self : (pd.add page frame writable).lookup page =
    some ⟨⟨frame, writable, false, false⟩, page⟩ := by
  simp [PageTable.lookup, PageTable.add, findAt]

lemma lookup_add_of_ne {q : Nat} (h : q ≠ page) :
    (pd.add page frame writable).lookup q = pd.lookup q := by
  simp [PageTable.lookup, PageTable.add, findAt, Ne.symm h]

lemma lookup_mem {mapping : Mapping} (h : pd.lookup page = some mapping) :
    mapping ∈ pd.entries ∧ mapping.page = page :=
  ⟨mem_of_find?_eq_some h, by simpa using find?_some h⟩

lemma Space.congr (h : Space k pd) (hlist : t.allList = k.allList) (hcur : t.current = k.current)
    (hpool : t.userPool = k.userPool) : Space t pd := by
  refine ⟨?_, fun mapping hm => ?_, h.frames⟩
  · rw [hlist, hcur]
    exact h.current
  · rw [Kernel.Used, hpool]
    exact h.used mapping hm

lemma Space.grant (h : Space k pd) (hmarks : Marks k.userPool t.userPool frame true)
    (hlist : t.allList = k.allList) (hcur : t.current = k.current) : Space t pd := by
  refine ⟨?_, fun mapping hm => ?_, h.frames⟩
  · rw [hlist, hcur]
    exact h.current
  obtain ⟨hlt, hget⟩ := h.used mapping hm
  rw [Kernel.Used, hmarks.bitCnt, hmarks.get]
  refine ⟨hlt, ?_⟩
  split
  · rfl
  · exact hget

lemma Space.add (h : Space k pd) {contents : Memory}
    (hmarks : Marks k.userPool t.userPool frame true)
    (hmemory : t.memory = Function.update k.memory frame contents) (hcur : t.current = k.current)
    (hlist : t.allList = updateAt Process.tid k.allList k.current
      (·.setPagedir (some (pd.add page frame writable)))) (hfresh : pd.lookup page = none) :
    Space t (pd.add page frame writable) ∧ Adds (· = page) k t pd (pd.add page frame writable) ∧
      pageAccess (pd.add page frame writable) page = some writable ∧
      ∀ address, pgNo address = page →
        userByte t (pd.add page frame writable) address = some (contents (pgOfs address)) := by
  obtain ⟨process, hproc, hpd⟩ := h.current
  have hnew : ∀ mapping ∈ pd.entries, mapping.frame ≠ frame := by
    rintro mapping hm rfl
    have hused := (h.used mapping hm).2
    rw [hmarks.old] at hused
    simp at hused
  refine ⟨⟨⟨process.setPagedir (some (pd.add page frame writable)), ?_, rfl⟩,
    fun mapping hm => ?_, ?_⟩,
    ⟨fun q hq => ?_, fun q hq => ?_, fun a ha => ?_⟩, ?_, fun a ha => ?_⟩
  · rw [hlist, hcur, findAt_updateAt_self]
    · rw [hproc]
      rfl
    · exact fun _ => rfl
  · rw [Kernel.Used, hmarks.bitCnt, hmarks.get]
    rcases mem_cons.mp hm with rfl | hm
    · exact ⟨hmarks.lt, if_pos rfl⟩
    rw [if_neg (hnew mapping hm)]
    exact h.used mapping hm
  · refine nodup_cons.mpr ⟨fun hmem => ?_, h.frames⟩
    obtain ⟨mapping, hm, heq⟩ := mem_map.mp hmem
    exact hnew mapping hm heq
  · obtain rfl := hq
    rw [pageAccess, hfresh]
    rfl
  · rw [pageAccess, lookup_add_of_ne hq, pageAccess]
  · rw [userByte, lookup_add_of_ne ha, userByte]
    cases hlook : pd.lookup (pgNo a) with
    | none => rfl
    | some mapping =>
      rw [Option.map_some, Option.map_some, hmemory,
        update_of_ne (hnew mapping (lookup_mem hlook).1)]
  · rw [pageAccess, lookup_add_self]
    rfl
  · rw [userByte, ha, lookup_add_self, Option.map_some, hmemory, update_self]

end Space

/-! ## One page -/

section Page

variable {k : Kernel} {pd : PageTable} {disk : Memory} {data : InodeDisk} {file : Nat} {pos : Int}

lemma installPage_outcome (h : Space k pd) (upage frame : Nat) (writable : Bool) :
    Action.outcome (installPage upage (.page frame) writable) (fun installed t => installed = true →
      pd.lookup (pgNo upage) = none ∧ ∃ fs, (fs = k.fs ∨ fs = k.fs.spend 1) ∧
        t = (k.setFs fs).updateProcess k.current
          (·.setPagedir (some (pd.add (pgNo upage) frame writable)))) (fun _ => True) k := by
  obtain ⟨process, hproc, hpd⟩ := h.current
  rw [installPage, outcome_bind]
  refine outcome_mono (pagedirGetPage_outcome upage) ?_ fun _ => id
  rintro pte _ rfl
  cases pte with
  | some pte => simp
  | none =>
    refine outcome_mono (pagedirSetPage_outcome (pgNo upage) (.page frame) writable) ?_ fun _ => id
    rintro installed t (⟨rfl, -⟩ | ⟨rfl, frame', process', pd', heq, hinstalls⟩)
    · simp
    cases heq
    have hsame := hinstalls.current
    rw [hproc] at hsame
    cases hsame
    have hsame := hinstalls.pagedir
    rw [hpd] at hsame
    cases hsame
    exact fun _ => ⟨hinstalls.fresh, hinstalls.result⟩

lemma segmentPage_outcome (h : Space k pd) (hfile : OpenAt k.fs disk data file pos)
    (upage : Nat) {pageReadBytes : Nat} (hsize : pageReadBytes ≤ pgSize) (writable : Bool) :
    Action.outcome (segmentPage file upage pageReadBytes writable) (fun loaded t => loaded = true →
      ∃ pd', Space t pd' ∧ OpenAt t.fs disk data file (pos + pageReadBytes) ∧
        Adds (· = pgNo upage) k t pd pd' ∧ pageAccess pd' (pgNo upage) = some writable ∧
        ∀ address, pgNo address = pgNo upage → userByte t pd' address =
          some (if pgOfs address < pageReadBytes then
              contentsOf disk data (pos.toNat + pgOfs address)
            else 0)) (fun _ => True) k := by
  rw [segmentPage, outcome_bind]
  refine outcome_mono (Action.outcome_and (vmGetFrame_frame _) (vmGetFrame_memory _)) ?_
    fun _ _ => trivial
  rintro _ s ⟨⟨frame, rfl, hgrants⟩ | ⟨addr, rfl⟩, hmem⟩
  · obtain ⟨contents₀, hmem, -⟩ := hmem frame rfl
    have hs : OpenAt s.fs disk data file pos := by
      rw [hgrants.fs]
      exact ⟨hfile.device, hfile.fits, hfile.nonneg, hfile.handle⟩
    simp only [fillFrame, outcome_bind, outcome_get]
    rw [onFs, outcome_zoom]
    refine outcome_mono (outcome_of_wp (hs.wp_read (s.memory frame) pageReadBytes)) ?_ fun _ => id
    rintro _ fs ⟨n, hn, rfl, hopened⟩
    simp only [outcome_modify]
    split
    · next hall =>
        have hall : n = pageReadBytes := by exact_mod_cast hall
        subst hall
        simp only [outcome_bind, outcome_modify, outcome_pure, if_true]
        generalize hv : ((s.setFs fs).setPage frame _).setPage frame _ = v
        have hmarks : Marks k.userPool v.userPool frame true := hv ▸ hgrants.marks
        have hlist : v.allList = k.allList := hv ▸ hgrants.allList
        have hcur : v.current = k.current := hv ▸ hgrants.current
        have hfs : v.fs = fs := hv ▸ rfl
        have hmem : v.memory = Function.update k.memory frame
            (fill (copy (s.memory frame) 0 disk (dataAddress data pos) n) n 0 (pgSize - n)) := by
          rw [← hv]
          simp only [Kernel.setPage_memory, Kernel.setFs_memory, hmem, Function.update_idem]
        refine outcome_mono (installPage_outcome (h.grant hmarks hlist hcur) upage frame
          writable) ?_ fun _ => id
        intro installed t ht
        cases installed with
        | false =>
          simp only [Bool.false_eq_true, if_false, outcome_bind, outcome_pure]
          refine outcome_mono (outcome_of_stops _ _ trivial) ?_ fun _ => id
          exact fun _ _ _ hfalse => absurd hfalse (by simp)
        | true =>
          obtain ⟨hfresh, fs', hfs', ht⟩ := ht rfl
          obtain ⟨hspace, hadds, haccess, hbytes⟩ := h.add (t := t) (by rw [ht]; exact hmarks)
            (by rw [ht]; exact hmem) (by rw [ht]; exact hcur) (by
              rw [ht, Kernel.updateProcess, Kernel.setAllList_allList, Kernel.setFs_allList, hlist,
                hcur]) hfresh
          intro _
          refine ⟨_, hspace, ?_, hadds, haccess, fun address haddr => ?_⟩
          · have hfst : t.fs = fs' := by
              rw [ht]
              rfl
            rw [hfst]
            rcases hfs' with rfl | rfl
            · exact hfs ▸ hopened
            · exact hfs ▸ hopened.spend 1
          · rw [hbytes address haddr]
            have hlt : pgOfs address < pgSize := Nat.mod_lt _ (by norm_num [pgSize])
            split
            · next hread => rw [fill, if_neg (by omega), copy_contents _ hread]
            · next hzero => rw [fill, if_pos (by omega)]
    · simp only [Bool.false_eq_true, if_false, outcome_bind, outcome_pure]
      refine outcome_mono (outcome_of_stops _ _ trivial) ?_ fun _ => id
      exact fun _ _ _ hfalse => absurd hfalse (by simp)
  · simp only [fillFrame, outcome_bind, outcome_stop]

end Page

/-! ## Segments -/

section Segment

variable {disk : Memory} {data : InodeDisk} {file : Nat} {writable : Bool}

/-- The pages from `upage` on hold `readBytes` bytes of the file from `pos` on, and then zeros. -/
structure Filled (disk : Memory) (data : InodeDisk) (upage rounds readBytes pos : Nat)
    (writable : Bool)
    (t : Kernel) (pd : PageTable) : Prop where
  access : ∀ page, pgNo upage ≤ page → page < pgNo upage + rounds →
    pageAccess pd page = some writable
  bytes : ∀ address, upage ≤ address → address < upage + rounds * pgSize → userByte t pd address =
    some (if address - upage < readBytes then contentsOf disk data (pos + (address - upage)) else 0)

lemma segmentLoop_outcome (rounds : Nat) : ∀ (upage readBytes zeroBytes : Nat) (pos : Int)
    (k : Kernel) (pd : PageTable), Space k pd → OpenAt k.fs disk data file pos →
    readBytes + zeroBytes = rounds * pgSize → zeroBytes < 2 ^ 32 → pgOfs upage = 0 →
    upage + rounds * pgSize ≤ physBase →
    Action.outcome (segmentLoop file writable rounds upage readBytes zeroBytes)
      (fun r t => r = some true → ∃ pd' pos', Space t pd' ∧ OpenAt t.fs disk data file pos' ∧
        Adds (fun page => pgNo upage ≤ page ∧ page < pgNo upage + rounds) k t pd pd' ∧
        Filled disk data upage rounds readBytes pos.toNat writable t pd') (fun _ => True) k := by
  induction rounds with
  | zero =>
    intro upage readBytes zeroBytes pos k pd hspace hfile htotal _ _ _ _
    refine ⟨pd, pos, hspace, hfile, (Adds.refl k pd).congr fun page => ?_, ⟨fun page hlo hhi => ?_,
      fun address hlo hhi => ?_⟩⟩
    · constructor
      · exact False.elim
      intro h
      omega
    · omega
    · omega
  | succ rounds ih =>
    intro upage readBytes zeroBytes pos k pd hspace hfile htotal hzero halign huser
    have hpos := hfile.nonneg
    have htotal' : readBytes + zeroBytes = rounds * pgSize + pgSize := by rw [htotal, Nat.succ_mul]
    have huser' : upage + pgSize + rounds * pgSize ≤ physBase := by
      rw [Nat.succ_mul] at huser
      omega
    have hsize : 0 < pgSize := by norm_num [pgSize]
    obtain ⟨n, hn⟩ : ∃ n, n = if readBytes < pgSize then readBytes else pgSize := ⟨_, rfl⟩
    have hnle : n ≤ pgSize ∧ n ≤ readBytes ∧ (n = readBytes ∨ n = pgSize) := by
      rw [hn]
      split <;> omega
    have hsub : sub32 zeroBytes (pgSize - n) = zeroBytes - (pgSize - n) := sub32_eq (by omega) hzero
    have hnext : ptrAdd upage pgSize = upage + pgSize :=
      ptrAdd_eq (by simp only [physBase] at huser'; omega)
    have hnum : pgNo (upage + pgSize) = pgNo upage + 1 := by
      simp only [pgNo, pgSize]
      omega
    rw [segmentLoop, if_pos (by omega)]
    simp only [← hn, hsub, hnext, outcome_bind]
    refine outcome_mono (segmentPage_outcome hspace hfile upage hnle.1 writable) ?_ fun _ => id
    intro loaded s hs
    cases loaded with
    | false => simp
    | true =>
      obtain ⟨pd₁, hspace₁, hfile₁, hadds₁, haccess₁, hbytes₁⟩ := hs rfl
      rw [if_pos rfl]
      refine outcome_mono (ih (upage + pgSize) (readBytes - n) (zeroBytes - (pgSize - n))
        (pos + n) s pd₁ hspace₁ hfile₁ (by omega) (by omega) ?_ huser') ?_ fun _ => id
      · simp only [pgOfs, pgSize] at halign ⊢
        omega
      intro r t ht hr
      obtain ⟨pd₂, pos₂, hspace₂, hfile₂, hadds₂, hfilled⟩ := ht hr
      rw [hnum] at hadds₂
      refine ⟨pd₂, pos₂, hspace₂, hfile₂, (hadds₁.trans hadds₂).congr fun page => by omega,
        fun page hlo hhi => ?_, fun address hlo hhi => ?_⟩
      · by_cases hfirst : page = pgNo upage
        · rw [hadds₂.access page (by omega), hfirst, haccess₁]
        · exact hfilled.access page (by omega) (by omega)
      by_cases hfirst : address < upage + pgSize
      · -- the page that was just loaded is not changed by the rest
        have hpage : pgNo address = pgNo upage := by
          simp only [pgNo, pgOfs, pgSize] at *
          omega
        have hofs : pgOfs address = address - upage := by
          simp only [pgOfs, pgSize] at *
          omega
        rw [hadds₂.bytes address (by omega), hbytes₁ address hpage, hofs]
        congr 1
        refine if_congr ?_ rfl rfl
        omega
      · have hrest : address < upage + pgSize + rounds * pgSize := by
          rw [Nat.succ_mul] at hhi
          omega
        rw [hfilled.bytes address (by omega) hrest]
        refine congrArg some ?_
        by_cases hread : address - upage < readBytes
        · rw [if_pos (by omega), if_pos hread]
          refine congrArg (contentsOf disk data) ?_
          omega
        · rw [if_neg (by omega), if_neg hread]

end Segment

def segmentByte (contents : Memory) (ph : Phdr) (i : Nat) : Byte :=
  if i < ph.pFilesz then contents (ph.pOffset + i) else 0

structure Placed (contents : Memory) (ph : Phdr) (t : Kernel) (pd : PageTable) : Prop where
  access : ∀ page, ph.Covers page → pageAccess pd page = some ph.writable
  bytes : ∀ i < ph.pMemsz, userByte t pd (ph.pVaddr + i) = some (segmentByte contents ph i)

section Headers

variable {k t u : Kernel} {pd pd' pd'' : PageTable} {disk : Memory} {data : InodeDisk} {file : Nat}
  {pos : Int} {ph : Phdr} {length : Int}

lemma ValidSegment.covers_iff (h : ValidSegment ph length) (page : Nat) :
    ph.Covers page ↔ pgNo ph.placement.memPage ≤ page ∧ page < pgNo ph.placement.memPage +
      (ph.placement.readBytes + ph.placement.zeroBytes) / pgSize := by
  have hwrap := h.noWrap
  have hsum := hwrap.roundSum
  rw [hwrap.zeroDifference, roundUp, hsum]
  have huser := h.user
  have hpos := h.nonempty
  clear hwrap hsum h
  have hmem : ph.placement.memPage = pgRoundDown ph.pVaddr := rfl
  rw [hmem]
  simp only [Phdr.Covers, pgNo, pgRoundDown, pgOfs, pgSize] at *
  omega

lemma Filled.placed (h : ValidSegment ph length) (hfilled : Filled disk data ph.placement.memPage
      ((ph.placement.readBytes + ph.placement.zeroBytes) / pgSize) ph.placement.readBytes
      ph.placement.filePage ph.writable t pd) : Placed (contentsOf disk data) ph t pd := by
  refine ⟨fun page hpage => ?_, fun i hi => ?_⟩
  · obtain ⟨hlo, hhi⟩ := (h.covers_iff page).mp hpage
    exact hfilled.access page hlo hhi
  have hmem : ph.placement.memPage + pgOfs ph.pVaddr = ph.pVaddr := by
    change pgRoundDown ph.pVaddr + pgOfs ph.pVaddr = ph.pVaddr
    exact Nat.sub_add_cancel (Nat.mod_le _ _)
  have hfilePage : ph.placement.filePage + pgOfs ph.pVaddr = ph.pOffset := by
    rw [← h.offset]
    change pgRoundDown ph.pOffset + pgOfs ph.pOffset = ph.pOffset
    exact Nat.sub_add_cancel (Nat.mod_le _ _)
  have hwrap := h.noWrap
  have hbound : pgOfs ph.pVaddr + ph.pMemsz ≤
      (ph.placement.readBytes + ph.placement.zeroBytes) / pgSize * pgSize := by
    rw [hwrap.zeroDifference, roundUp, hwrap.roundSum, Nat.mul_div_cancel _ (by norm_num [pgSize])]
    simp only [pgSize]
    omega
  rw [hfilled.bytes (ph.pVaddr + i) (by omega) (by omega), h.readBytes, segmentByte]
  refine congrArg some ?_
  by_cases hread : i < ph.pFilesz
  · rw [if_pos (show ph.pFilesz > 0 by omega), if_pos (by omega), if_pos hread]
    refine congrArg (contentsOf disk data) ?_
    omega
  rw [if_neg hread]
  split
  · rw [if_neg (by omega)]
  · rw [if_neg (by omega)]

lemma ValidSegment.outcome (h : ValidSegment ph data.length) (hspace : Space k pd)
    (hfile : OpenAt k.fs disk data file pos) :
    Action.outcome (segmentBody file (toSigned32 ph.placement.filePage) ph.placement.memPage
      ph.placement.readBytes ph.placement.zeroBytes ph.writable) (fun r t => r = some true →
        ∃ pd' pos', Space t pd' ∧ OpenAt t.fs disk data file pos' ∧ Adds ph.Covers k t pd pd' ∧
          Placed (contentsOf disk data) ph t pd') (fun _ => True) k := by
  have hwrap := h.noWrap
  have hofs : toSigned32 ph.placement.filePage = ph.placement.filePage := by
    -- the file is shorter than `2 ^ 31` bytes
    apply toSigned32_of_lt
    have hinside := h.inside
    have hlen := hfile.fits.length_nonneg
    have hlt := hfile.fits.length_lt
    have hle : ph.placement.filePage ≤ ph.pOffset := Nat.sub_le _ _
    unfold toUnsigned32 at hinside
    omega
  have htotal : (ph.placement.readBytes + ph.placement.zeroBytes) % pgSize = 0 := by
    rw [hwrap.zeroDifference]
    exact Nat.mul_mod_left _ _
  have hbound : ph.placement.readBytes + ph.placement.zeroBytes < 2 ^ 32 := by
    rw [← hwrap.total]
    unfold ptrAdd
    exact Nat.mod_lt _ (by norm_num)
  rw [segmentBody, hofs, outcome_bind, onFs, outcome_zoom]
  refine outcome_mono (outcome_of_wp (hfile.wp_seek (Int.natCast_nonneg _))) ?_ fun _ => id
  intro _ fs hopened
  refine outcome_mono (segmentLoop_outcome _ _ _ _ _ (k.setFs fs) pd
    (hspace.congr rfl rfl rfl) hopened ?_ (by omega) (pgRoundDown_mod ph.pVaddr)
    hwrap.pages) ?_ fun _ => id
  · exact (Nat.div_mul_cancel (Nat.dvd_of_mod_eq_zero htotal)).symm
  intro r t ht hr
  obtain ⟨pd', pos', hspace', hfile', hadds, hfilled⟩ := ht hr
  exact ⟨pd', pos', hspace', hfile', hadds.of_setFs.congr fun page => (h.covers_iff page).symm,
    Filled.placed h hfilled⟩

structure HeaderLoaded (disk : Memory) (data : InodeDisk) (ph : Phdr) (t : Kernel)
    (pd : PageTable) :
    Prop where
  valid : ValidSegment ph data.length
  placed : Placed (contentsOf disk data) ph t pd

lemma loadHeader_outcome (hwords : ph.Words) (hspace : Space k pd)
    (hfile : OpenAt k.fs disk data file pos) :
    Action.outcome (loadHeader file ph) (fun loaded t => loaded = true →
      ∃ pd' pos', Space t pd' ∧ OpenAt t.fs disk data file pos' ∧
        Adds (fun page => ph.pType = ptLoad ∧ ph.Covers page) k t pd pd' ∧
        (ph.pType = ptLoad → HeaderLoaded disk data ph t pd')) (fun _ => True) k := by
  unfold loadHeader
  split
  · simp
  split
  · next hload =>
      rw [outcome_bind, onFs, outcome_zoom]
      refine outcome_of_wp ((hfile.wp_length _).mpr ?_)
      split
      · next hvalid =>
          have hseg := validSegment_of hwords hvalid
          rw [outcome_bind, hseg.loadSegment_eq hwords]
          refine outcome_mono (hseg.outcome hspace hfile) ?_ fun _ => id
          intro r t ht
          cases r with
          | none => trivial
          | some loaded =>
            intro hloaded
            obtain ⟨pd', pos', hspace', hfile', hadds, hplaced⟩ := ht (congrArg some hloaded)
            exact ⟨pd', pos', hspace', hfile', hadds.congr fun page => by simp [hload],
              fun _ => ⟨hseg, hplaced⟩⟩
      · simp
  · next hother =>
      intro _
      exact ⟨pd, pos, hspace, hfile, (Adds.refl k pd).congr fun page => by simp [hother],
        fun hload => absurd hload hother⟩

def headersFrom (contents : Memory) (ofs count : Nat) : List Phdr :=
  (List.range count).map fun i => Phdr.decode contents (ofs + phdrSize * i)

lemma headersFrom_succ (contents : Memory) (ofs count : Nat) : headersFrom contents ofs
    (count + 1) = Phdr.decode contents ofs :: headersFrom contents (ofs + phdrSize) count := by
  simp only [headersFrom, List.range_succ_eq_map, map_cons, map_map, Nat.mul_zero, Nat.add_zero]
  refine congrArg _ (map_congr_left fun i _ => ?_)
  simp only [Function.comp_apply, Nat.succ_eq_add_one, Nat.mul_add, Nat.mul_one]
  exact congrArg _ (by omega)

lemma decode_copy (buffer : Memory) :
    Phdr.decode (copy buffer 0 disk (dataAddress data pos) phdrSize) 0 =
      Phdr.decode (contentsOf disk data) pos.toNat := by
  have hword : ∀ a, a + 4 ≤ phdrSize →
      word32 (copy buffer 0 disk (dataAddress data pos) phdrSize) a =
        word32 (contentsOf disk data) (pos.toNat + a) := by
    intro a ha
    unfold word32
    rw [copy_contents _ (by omega), copy_contents _ (by omega), copy_contents _ (by omega),
      copy_contents _ (by omega)]
    rfl
  have hsize : phdrSize = 32 := rfl
  simp only [Phdr.decode, Nat.zero_add]
  rw [hword 0 (by omega), hword 4 (by omega), hword 8 (by omega), hword 16 (by omega),
    hword 20 (by omega), hword 24 (by omega)]
  rfl

lemma HeaderLoaded.adds (h : HeaderLoaded disk data ph t pd)
    (hadds : Adds P t u pd pd') : HeaderLoaded disk data ph u pd' := by
  have hnot : ∀ page, ph.Covers page → ¬P page := by
    intro page hpage hP
    have hmapped := h.placed.access page hpage
    rw [hadds.fresh page hP] at hmapped
    cases hmapped
  refine ⟨h.valid, fun page hpage => ?_, fun i hi => ?_⟩
  · rw [hadds.access page (hnot page hpage), h.placed.access page hpage]
  rw [hadds.bytes _ (hnot _ ?_), h.placed.bytes i hi]
  simp only [Phdr.Covers, pgNo, pgSize]
  omega

lemma loadHeaders_outcome (count : Nat) : ∀ (ofs pos : Int) (k : Kernel) (pd : PageTable),
    Space k pd → OpenAt k.fs disk data file pos →
    Action.outcome (loadHeaders file count ofs) (fun loaded t => loaded = true →
      ∃ pd' pos', Space t pd' ∧ OpenAt t.fs disk data file pos' ∧
        Adds (fun page => ∃ ph ∈ headersFrom (contentsOf disk data) ofs.toNat count,
          ph.pType = ptLoad ∧ ph.Covers page) k t pd pd' ∧
        (∀ ph ∈ headersFrom (contentsOf disk data) ofs.toNat count, ph.pType = ptLoad →
          HeaderLoaded disk data ph t pd') ∧
        (count = 0 ∨ 0 ≤ ofs ∧ ofs + phdrSize * count ≤ data.length)) (fun _ => True) k := by
  induction count with
  | zero =>
    intro ofs pos k pd hspace hfile _
    exact ⟨pd, pos, hspace, hfile, (Adds.refl k pd).congr fun page => by simp [headersFrom],
      fun ph hph => by simp [headersFrom] at hph, .inl rfl⟩
  | succ count ih =>
    intro ofs pos k pd hspace hfile
    rw [loadHeaders, outcome_bind, onFs, outcome_zoom]
    refine outcome_of_wp ((hfile.wp_length _).mpr ?_)
    split
    · simp
    · next hofs =>
        have hnonneg : 0 ≤ ofs := by omega
        rw [outcome_bind, onFs, outcome_zoom]
        refine outcome_mono (outcome_of_wp (hfile.wp_seek hnonneg)) ?_ fun _ => id
        intro _ fs hsought
        rw [outcome_bind, onFs, outcome_zoom]
        refine outcome_mono (outcome_of_wp (hsought.wp_read _ phdrSize)) ?_ fun _ => id
        rintro _ fs' ⟨n, hn, rfl, hread⟩
        dsimp only
        split
        · next hall =>
            obtain rfl : n = phdrSize := by exact_mod_cast hall
            have hend := le_of_available hn (by norm_num [phdrSize])
            have hlen := hfile.fits.length_lt
            have hnext : toSigned32 (ptrAdd (toUnsigned32 ofs) phdrSize) = ofs + phdrSize := by
              have hunsigned : toUnsigned32 ofs = ofs.toNat := by
                unfold toUnsigned32
                omega
              simp only [phdrSize] at hend ⊢
              rw [hunsigned, ptrAdd_eq (by omega), toSigned32_of_lt (by omega)]
              omega
            have hnext' : (ofs + phdrSize).toNat = ofs.toNat + phdrSize := by omega
            rw [outcome_bind, decode_copy, headersFrom_succ]
            refine outcome_mono (loadHeader_outcome (decode_words _ _)
              (hspace.congr rfl rfl rfl) hread) ?_ fun _ => id
            intro loaded s hs
            cases loaded with
            | false => simp
            | true =>
              obtain ⟨pd₁, pos₁, hspace₁, hfile₁, hadds₁, hloaded₁⟩ := hs rfl
              rw [if_pos rfl, hnext]
              refine outcome_mono (ih (ofs + phdrSize) pos₁ s pd₁ hspace₁ hfile₁) ?_ fun _ => id
              intro r t ht hr
              obtain ⟨pd₂, pos₂, hspace₂, hfile₂, hadds₂, hloaded₂, hinside⟩ := ht hr
              rw [hnext'] at hadds₂ hloaded₂
              refine ⟨pd₂, pos₂, hspace₂, hfile₂, ?_, fun ph hph hload => ?_, .inr ⟨hnonneg, ?_⟩⟩
              · exact (hadds₁.of_setFs.of_setFs.trans hadds₂).congr fun page => by simp
              · rcases mem_cons.mp hph with rfl | hph
                · exact (hloaded₁ hload).adds hadds₂
                · exact hloaded₂ ph hph hload
              · push_cast
                rw [mul_add, mul_one]
                rcases hinside with rfl | ⟨-, hinside⟩
                · simpa using hend
                · omega
        · simp

end Headers

end Pintos.Userprog.Loader
