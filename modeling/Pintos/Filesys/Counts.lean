import Pintos.Filesys.Denied
import Pintos.Foundation.Transition

/-!
# Exact counts

What the two counters of an open inode mean, for any mix of opening, closing and
denying, whatever the device holds and whichever allocations fail.  Besides the
open files, the references are those of open directories and those that code
got from `inode_open` or `inode_reopen` and still has.
-/

namespace Pintos.Filesys

open Foundation

variable {inode : Option Nat}

structure Exact (s : Fs) (extra : List Nat) : Prop where
  counted : Counted Inode.addr Inode.openCnt s.openInodes (references s extra)
  sectors : (s.openInodes.map Inode.sector).Nodup
  files : (s.files.map File.addr).Nodup
  inodes_fresh : ∀ inode ∈ s.openInodes, inode.addr < s.nextAddress
  files_fresh : ∀ file ∈ s.files, file.addr < s.nextAddress
  denied : ∀ inode ∈ s.openInodes, inode.denyWriteCnt = deniedBy s.files inode.addr
  kept : ∀ inode ∈ s.openInodes, inode.removed = false

section Tables

variable {s : Fs} {extra extra' : List Nat} {addr : Nat} {file : File}

lemma deniedBy_le_references (s : Fs) (extra : List Nat) (addr : Nat) :
    deniedBy s.files addr ≤ (references s extra).count addr := by
  have hfiles : deniedBy s.files addr ≤ (s.files.map File.inode).count addr := by
    rw [deniedBy, List.count, List.countP_map]
    refine List.countP_mono_left fun file _ => ?_
    simp only [decide_eq_true_eq, Function.comp_apply, beq_iff_eq]
    exact And.left
  rw [references, count_append]
  exact hfiles.trans (Nat.le_add_left _ _)

namespace Exact

variable (h : Exact s extra)

include h

lemma denied_le {inode : Inode} (hi : inode ∈ s.openInodes) :
    inode.denyWriteCnt ≤ inode.openCnt := by
  rw [h.denied inode hi, h.counted.count_eq inode hi]
  exact Int.ofNat_le.mpr (deniedBy_le_references s extra inode.addr)

lemma perm (hperm : extra.Perm extra') : Exact s extra' :=
  { h with counted := h.counted.perm (hperm.append_right _) }

lemma spend (n : Nat) : Exact (s.spend n) extra :=
  ⟨h.counted, h.sectors, h.files, h.inodes_fresh, h.files_fresh, h.denied, h.kept⟩

lemma bump : Exact s.bump extra :=
  { h with
    inodes_fresh := fun i hi => (h.inodes_fresh i hi).trans (Nat.lt_succ_self _)
    files_fresh := fun f hf => (h.files_fresh f hf).trans (Nat.lt_succ_self _) }

lemma setDisk (disk : Memory) : Exact (s.setDisk disk) extra :=
  ⟨h.counted, h.sectors, h.files, h.inodes_fresh, h.files_fresh, h.denied, h.kept⟩

lemma present (ha : addr ∈ references s extra) : ∃ inode ∈ s.openInodes,
    inode.addr = addr ∧ findAt Inode.addr s.openInodes addr = some inode := by
  obtain ⟨inode, hi, haddr⟩ := h.counted.present addr ha
  exact ⟨inode, hi, haddr, (findAt_eq_some h.counted.nodup).mpr ⟨hi, haddr⟩⟩

end Exact

lemma mem_references_extra (s : Fs) (h : addr ∈ extra) : addr ∈ references s extra :=
  mem_append_left _ h

lemma mem_references_file (extra : List Nat) (h : file ∈ s.files) :
    file.inode ∈ references s extra := mem_append_right _ (mem_map_of_mem h)

lemma Exact.setInodes (h : Exact s extra) {inodes : List Inode}
    (hcounted : Counted Inode.addr Inode.openCnt inodes (references s extra'))
    (hsecs : (inodes.map Inode.sector).Nodup)
    (hfrom : ∀ i ∈ inodes, ∃ j ∈ s.openInodes, j.addr = i.addr ∧
      j.denyWriteCnt = i.denyWriteCnt ∧ j.removed = i.removed) :
    Exact (s.setInodes inodes) extra' where
  counted := hcounted
  sectors := hsecs
  files := h.files
  inodes_fresh i hi := by
    obtain ⟨j, hj, haddr, -⟩ := hfrom i hi
    exact haddr ▸ h.inodes_fresh j hj
  files_fresh := h.files_fresh
  denied i hi := by
    obtain ⟨j, hj, haddr, hdeny, -⟩ := hfrom i hi
    rw [← hdeny, ← haddr]
    exact h.denied j hj
  kept i hi := by
    obtain ⟨j, hj, -, -, hrem⟩ := hfrom i hi
    exact hrem ▸ h.kept j hj

lemma Exact.reopen (h : Exact s extra) (ha : addr ∈ references s extra) :
    Exact (s.setInodes (reopened s.openInodes addr)) (addr :: extra) := by
  refine h.setInodes (h.counted.acquire (fun _ => rfl) ha fun _ => rfl) ?_
    (forall_mem_updateAt (fun i hi => ⟨i, hi, rfl, rfl, rfl⟩) fun j hj _ => ⟨j, hj, rfl, rfl, rfl⟩)
  rw [reopened, map_updateAt _ (by simp)]
  exact h.sectors

lemma Exact.closeShared (h : Exact s (addr :: extra)) (ha : addr ∈ references s extra) :
    Exact (s.setInodes (closed s.openInodes addr)) extra := by
  refine h.setInodes (h.counted.release (fun _ => rfl) ha fun _ => rfl) ?_
    (forall_mem_updateAt (fun i hi => ⟨i, hi, rfl, rfl, rfl⟩) fun j hj _ => ⟨j, hj, rfl, rfl, rfl⟩)
  rw [closed, map_updateAt _ (by simp)]
  exact h.sectors

lemma Exact.closeLast (h : Exact s (addr :: extra)) (ha : addr ∉ references s extra) :
    Exact (s.setInodes (removeAt Inode.addr s.openInodes addr)) extra := by
  refine h.setInodes (h.counted.releaseLast ha) ?_ fun i hi => ?_
  · exact h.sectors.sublist (List.filter_sublist.map _)
  · exact ⟨i, (mem_removeAt.mp hi).1, rfl, rfl, rfl⟩

lemma Exact.push (h : Exact s extra) {sector : Nat} (hnew : ∀ i ∈ s.openInodes, i.sector ≠ sector) :
    Exact (s.bump.setInodes (newInode s sector :: s.openInodes)) (s.nextAddress :: extra) where
  counted := h.counted.insert (o := newInode s sector) rfl fun i hi => (h.inodes_fresh i hi).ne
  sectors := by
    refine nodup_cons.mpr ⟨fun hmem => ?_, h.sectors⟩
    obtain ⟨i, hi, heq⟩ := mem_map.mp hmem
    exact hnew i hi heq
  files := h.files
  inodes_fresh i hi := by
    rcases mem_cons.mp hi with rfl | hi
    · exact Nat.lt_succ_self _
    · exact h.bump.inodes_fresh i hi
  files_fresh := h.bump.files_fresh
  denied i hi := by
    rcases mem_cons.mp hi with rfl | hi
    · -- a file that is already open refers to an inode that is already open
      refine (Int.ofNat_eq_zero.mpr (List.countP_eq_zero.mpr fun file hf => ?_)).symm
      obtain ⟨j, hj, haddr, -⟩ := h.present (mem_references_file extra hf)
      have hne : file.inode ≠ s.nextAddress := haddr ▸ (h.inodes_fresh j hj).ne
      simp [newInode, hne]
    · exact h.denied i hi
  kept i hi := by
    rcases mem_cons.mp hi with rfl | hi
    · rfl
    · exact h.kept i hi

lemma Exact.pushFile (h : Exact s (addr :: extra)) :
    Exact (s.bump.setFiles (⟨s.nextAddress, addr, 0, false⟩ :: s.files)) extra where
  counted := h.counted.perm perm_middle.symm
  sectors := h.sectors
  files := by
    refine nodup_cons.mpr ⟨fun hmem => ?_, h.files⟩
    obtain ⟨f, hf, heq⟩ := mem_map.mp hmem
    exact (h.files_fresh f hf).ne heq
  inodes_fresh := h.bump.inodes_fresh
  files_fresh f hf := by
    rcases mem_cons.mp hf with rfl | hf
    · exact Nat.lt_succ_self _
    · exact h.bump.files_fresh f hf
  denied i hi := by
    rw [Fs.setFiles_files, deniedBy_cons]
    simpa using h.denied i hi
  kept := h.kept

lemma Exact.removeFile (h : Exact s extra)
    (hfile : findAt File.addr s.files addr = some file) (hdeny : file.denyWrite = false) :
    Exact (s.setFiles (removeAt File.addr s.files addr)) (file.inode :: extra) where
  counted := by
    refine h.counted.perm ?_
    have hperm := (perm_removeAt h.files hfile).map File.inode
    exact (hperm.append_left extra).trans perm_middle
  sectors := h.sectors
  files := nodup_removeAt h.files addr
  inodes_fresh := h.inodes_fresh
  files_fresh f hf := h.files_fresh f (mem_removeAt.mp hf).1
  denied i hi := by
    have := h.denied i hi
    rw [deniedBy_perm (perm_removeAt h.files hfile), deniedBy_cons] at this
    simpa [hdeny] using this
  kept := h.kept

lemma Exact.updateFile (h : Exact s extra) {f : File → File} (haddr : ∀ g, (f g).addr = g.addr)
    (hinode : ∀ g, (f g).inode = g.inode) (hdeny : ∀ g, (f g).denyWrite = g.denyWrite) :
    Exact (s.setFiles (updateAt File.addr s.files addr f)) extra where
  counted := by
    simp only [references, Fs.setFiles_files, map_updateAt _ hinode]
    exact h.counted
  sectors := h.sectors
  files := by
    rw [Fs.setFiles_files, map_updateAt _ haddr]
    exact h.files
  inodes_fresh := h.inodes_fresh
  files_fresh := forall_mem_updateAt h.files_fresh fun g hg _ => haddr g ▸ h.files_fresh g hg
  denied i hi := by
    have hpairs : ∀ files : List File, deniedBy files i.addr =
        (files.map fun g => (g.inode, g.denyWrite)).countP
          fun p => decide (p.1 = i.addr ∧ p.2 = true) := by
      intro files
      simp [deniedBy, List.countP_map, Function.comp_def]
    rw [Fs.setFiles_files, hpairs, map_updateAt _ (by simp [hinode, hdeny]), ← hpairs]
    exact h.denied i hi
  kept := h.kept

lemma Exact.setDeny (h : Exact s extra) (hfile : findAt File.addr s.files addr = some file)
    (value : Bool) {g : Inode → Inode} (haddr : ∀ i, (g i).addr = i.addr)
    (hsec : ∀ i, (g i).sector = i.sector) (hopen : ∀ i, (g i).openCnt = i.openCnt)
    (hrem : ∀ i, (g i).removed = i.removed)
    (hcnt : ∀ i, (g i).denyWriteCnt + (if file.denyWrite then 1 else 0) =
      i.denyWriteCnt + if value then 1 else 0) :
    Exact ((s.setFiles (updateAt File.addr s.files addr ({ · with denyWrite := value }))).setInodes
      (updateAt Inode.addr s.openInodes file.inode g)) extra where
  counted := by
    simp only [references, Fs.setInodes_files, Fs.setFiles_files]
    rw [map_updateAt File.inode (by simp)]
    exact h.counted.update haddr hopen
  sectors := by
    rw [Fs.setInodes_openInodes, map_updateAt _ hsec]
    exact h.sectors
  files := by
    rw [Fs.setInodes_files, Fs.setFiles_files, map_updateAt _ (by simp)]
    exact h.files
  inodes_fresh := forall_mem_updateAt h.inodes_fresh fun j hj _ => haddr j ▸ h.inodes_fresh j hj
  files_fresh := forall_mem_updateAt h.files_fresh fun f hf _ => h.files_fresh f hf
  denied i hi := by
    have hold := deniedBy_perm (perm_removeAt h.files hfile)
    have hnew := deniedBy_perm (perm_updateAt h.files hfile
      (f := fun f => { f with denyWrite := value }) fun _ => rfl)
    simp only [Fs.setInodes_files, Fs.setFiles_files, hnew, deniedBy_cons]
    rcases mem_updateAt.mp hi with ⟨j, hj, hjaddr, rfl⟩ | ⟨hj, hne⟩
    · have hj' := h.denied j hj
      have hcnt' := hcnt j
      rw [hold, deniedBy_cons] at hj'
      simp only [haddr, hjaddr, true_and] at hj' ⊢
      push_cast at hj' ⊢
      omega
    · have hi' := h.denied i hj
      rw [hold, deniedBy_cons] at hi'
      simpa [Ne.symm hne] using hi'
  kept := forall_mem_updateAt h.kept fun j hj _ => (hrem j).trans (h.kept j hj)

end Tables

/-! ## The operations -/

def pastEnd : Fault := .panic "Access past end of device"

section Operations

variable {s : Fs} {extra : List Nat} {addr : Nat} {file : File}

lemma inodeReopen_exact (h : Exact s extra) (ha : addr ∈ references s extra) :
    wp (inodeReopen addr) (fun r t => r = addr ∧ Exact t (addr :: extra)) s := by
  obtain ⟨inode, -, -, hfind⟩ := h.present ha
  simp only [inodeReopen, wp_bind, wp_getInode hfind, wp_modify, wp_pure]
  exact ⟨trivial, h.reopen ha⟩

lemma inodeOpen_exact (h : Exact s extra) (sector : Nat) :
    outcome (inodeOpen sector) (fun r t => Exact t (r.toList ++ extra)) (· = pastEnd) s := by
  simp only [inodeOpen, outcome_bind, outcome_get]
  cases hfind : s.openInodes.find? (fun i => i.sector = sector) with
  | some inode =>
    have ha := h.counted.referenced inode (mem_of_find?_eq_some hfind)
    refine outcome_of_wp ?_
    simp only [wp_bind, wp_pure]
    refine wp_mono (inodeReopen_exact h ha) ?_
    rintro _ t ⟨rfl, ht⟩
    exact ht
  | none =>
    have hnew : ∀ i ∈ s.openInodes, i.sector ≠ sector := by simpa using hfind
    simp only [outcome_bind, outcome_malloc]
    cases hgrant : s.heapOk s.allocations with
    | false => exact h.spend 1
    | true =>
      simp only [if_true, outcome_bind, outcome_newAddress, blockRead, checkSector,
        outcome_get, outcome_modify, outcome_pure]
      refine outcome_require (fun _ => ?_) fun _ => rfl
      simp only [Fs.bump_disk, Fs.spend_disk, headerAt_eq_decode]
      exact (h.spend 1).push hnew

lemma inodeClose_exact (h : Exact s (addr :: extra)) :
    wp (inodeClose (some addr)) (fun _ t => Exact t extra) s := by
  obtain ⟨inode, hi, haddr, hfind⟩ := h.present (mem_references_extra s mem_cons_self)
  have hlast := h.counted.count_eq_one_iff hi haddr
  simp only [inodeClose, wp_bind, wp_getInode hfind, wp_modify, h.kept inode hi]
  by_cases hzero : inode.openCnt - 1 = 0
  · have hclosed : removeAt Inode.addr (closed s.openInodes addr) addr =
        removeAt Inode.addr s.openInodes addr := removeAt_updateAt fun _ => rfl
    simp only [if_pos hzero, wp_bind, wp_modify, Bool.false_eq_true, if_false,
      wp_pure, Fs.setInodes_openInodes, hclosed]
    exact h.closeLast (hlast.mp hzero)
  · have hmore : addr ∈ references s extra := not_not.mp fun hnot => hzero (hlast.mpr hnot)
    simp only [if_neg hzero, wp_pure]
    exact h.closeShared hmore

section

variable (h : Exact s (inode.toList ++ extra))

include h

lemma inodeClose_exact_option : wp (inodeClose inode) (fun _ t => Exact t extra) s := by
  cases inode with
  | none => exact h
  | some addr => exact inodeClose_exact h

lemma fileOpen_exact : wp (fileOpen inode) (fun _ t => Exact t extra) s := by
  have hclose : wp (do inodeClose inode; return none : FsAction (Option Nat))
      (fun _ t => Exact t extra) (s.spend 1) := by
    simp only [wp_bind, wp_pure]
    exact inodeClose_exact_option (h.spend 1)
  simp only [fileOpen, wp_bind, wp_malloc]
  cases inode with
  | none =>
    cases s.heapOk s.allocations with
    | true => exact hclose
    | false => exact hclose
  | some addr =>
    cases s.heapOk s.allocations with
    | true =>
      simp only [wp_bind, wp_newAddress, wp_modify, wp_pure]
      exact (h.spend 1).pushFile
    | false => exact hclose

lemma dirOpen_exact :
    wp (dirOpen inode) (fun dir t => Exact t ((dir.map Dir.inode).toList ++ extra)) s := by
  have hclose : wp (do inodeClose inode; return none : FsAction (Option Dir))
      (fun dir t => Exact t ((dir.map Dir.inode).toList ++ extra)) (s.spend 1) := by
    simp only [wp_bind, wp_pure]
    exact inodeClose_exact_option (h.spend 1)
  simp only [dirOpen, wp_bind, wp_malloc]
  cases inode with
  | none =>
    cases s.heapOk s.allocations with
    | true => exact hclose
    | false => exact hclose
  | some addr =>
    cases s.heapOk s.allocations with
    | true => exact h.spend 1
    | false => exact hclose

end

section

variable (h : Exact s extra) (hfile : findAt File.addr s.files addr = some file)

include h hfile

lemma fileReopen_exact : wp (fileReopen addr) (fun _ t => Exact t extra) s := by
  have hf := ((findAt_eq_some h.files).mp hfile).1
  simp only [fileReopen, wp_bind, wp_getFile hfile]
  refine wp_mono (inodeReopen_exact h (mem_references_file extra hf)) ?_
  rintro _ t ⟨rfl, ht⟩
  exact fileOpen_exact ht

lemma fileDenyWrite_exact : wp (fileDenyWrite addr) (fun _ t => Exact t extra) s := by
  have hf := ((findAt_eq_some h.files).mp hfile).1
  obtain ⟨inode, hi, haddr, hfind⟩ := h.present (mem_references_file extra hf)
  simp only [fileDenyWrite, wp_bind, wp_getFile hfile]
  cases hdeny : file.denyWrite with
  | true => exact h
  | false =>
    have hnew := h.setDeny hfile true (g := fun i => { i with denyWriteCnt := i.denyWriteCnt + 1 })
      (by simp) (by simp) (by simp) (by simp) (by simp [hdeny])
    have hfind' : findAt Inode.addr (s.setFiles (updateAt File.addr s.files addr
        ({ · with denyWrite := true }))).openInodes file.inode = some inode := hfind
    simp only [Bool.not_false, if_true, updateFile, inodeDenyWrite, wp_bind,
      wp_modify, wp_getInode hfind', wp_require]
    -- the new count is still one of files among the references
    exact ⟨hnew.denied_le (mem_updateAt.mpr (.inl ⟨inode, hi, haddr, rfl⟩)), hnew⟩

lemma fileAllowWrite_exact : wp (fileAllowWrite addr)
      (fun _ t => Exact t extra ∧ findAt File.addr t.files addr = some file.undenied) s := by
  obtain ⟨hf, rfl⟩ := (findAt_eq_some h.files).mp hfile
  obtain ⟨inode, hi, haddr, hfind⟩ := h.present (mem_references_file extra hf)
  simp only [fileAllowWrite, wp_bind, wp_getFile hfile]
  cases hdeny : file.denyWrite with
  | false =>
    have hsame : file.undenied = file := by simp [File.undenied, ← hdeny]
    rw [hsame]
    exact ⟨h, hfile⟩
  | true =>
    have hnew := h.setDeny hfile false (g := fun i => { i with denyWriteCnt := i.denyWriteCnt - 1 })
      (by simp) (by simp) (by simp) (by simp) (by simp [hdeny])
    have hfind' : findAt Inode.addr (s.setFiles (updateAt File.addr s.files file.addr
        ({ · with denyWrite := false }))).openInodes file.inode = some inode := hfind
    have hpos : 0 < deniedBy s.files inode.addr :=
      List.countP_pos_iff.mpr ⟨file, hf, by simp [hdeny, haddr]⟩
    have hcnt := h.denied inode hi
    simp only [if_true, updateFile, inodeAllowWrite, wp_bind, wp_modify,
      wp_getInode hfind', wp_require]
    refine ⟨by omega, h.denied_le hi, hnew, ?_⟩
    simp only [Fs.setInodes_files, Fs.setFiles_files]
    rw [findAt_updateAt_self (by simp), hfile]
    rfl

lemma fileClose_exact : wp (fileClose (some addr)) (fun _ t => Exact t extra) s := by
  simp only [fileClose, wp_bind, wp_getFile hfile]
  refine wp_mono (fileAllowWrite_exact h hfile) ?_
  rintro _ t ⟨ht, hfile'⟩
  have hrem := ht.removeFile hfile' rfl
  exact inodeClose_exact hrem

end

def Transfers (s t : Fs) : Prop := ∃ disk n, t = (s.spend n).setDisk disk

lemma Transfers.trans {t u : Fs} (h : Transfers s t) (h' : Transfers t u) : Transfers s u := by
  obtain ⟨disk, n, rfl⟩ := h
  obtain ⟨disk', n', rfl⟩ := h'
  exact ⟨disk', n + n', by simp [Fs.spend, Fs.setDisk, Nat.add_assoc]⟩

/-- The action changes nothing but the device and the count of allocations. -/
def Moves {α : Type} (x : FsAction α) : Prop :=
  ∀ s, outcome x (fun _ t => Transfers s t) (· = pastEnd) s

section Moves

variable {α β : Type} {x y : FsAction α}

lemma moves_pure (a : α) : Moves (pure a : FsAction α) := fun s => ⟨s.disk, 0, rfl⟩

lemma Moves.bind {g : α → FsAction β} (hx : Moves x) (hg : ∀ a, Moves (g a)) : Moves (x >>= g) := by
  intro s
  rw [outcome_bind]
  exact outcome_mono (hx s)
    (fun a t ht => outcome_mono (hg a t) (fun _ u hu => ht.trans hu) fun _ he => he) fun _ he => he

lemma Moves.ite {p : Prop} [Decidable p] (hx : Moves x) (hy : Moves y) :
    Moves (if p then x else y) := by
  split
  · exact hx
  · exact hy

end Moves

lemma moves_blockWrite (sector : Nat) (buffer : Memory) (offset : Nat) :
    Moves (blockWrite sector buffer offset) := by
  intro s
  simp only [blockWrite, checkSector, outcome_bind, outcome_get]
  exact outcome_require (fun _ => ⟨_, 0, rfl⟩) fun _ => rfl

lemma moves_blockRead (sector : Nat) (buffer : Memory) (offset : Nat) :
    Moves (blockRead sector buffer offset) := by
  intro s
  simp only [blockRead, checkSector, outcome_bind, outcome_get]
  exact outcome_require (fun _ => ⟨s.disk, 0, rfl⟩) fun _ => rfl

lemma moves_writeLoop (data : InodeDisk) (buffer : Memory) (fuel : Nat)
    (size offset bytesWritten : Int) (bounce : Bool) :
    Moves (writeLoop data buffer fuel size offset bytesWritten bounce) := by
  induction fuel generalizing size offset bytesWritten bounce with
  | zero => exact moves_pure _
  | succ fuel ih =>
    have hnext : ∀ sector buffer' at_ size offset bytesWritten bounce, Moves (do
        blockWrite sector buffer' at_
        writeLoop data buffer fuel size offset bytesWritten bounce) :=
          fun sector buffer' at_ _ _ _ _ =>
      (moves_blockWrite sector buffer' at_).bind fun _ => ih _ _ _ _
    rw [writeLoop]
    refine (moves_pure _).ite ((moves_pure _).ite (.ite (hnext _ _ _ _ _ _ _) ?_))
    refine .bind ((moves_pure true).ite fun s => ?_) fun bounce => .ite ?_ (moves_pure _)
    · exact (outcome_malloc _ _ s).mpr ⟨s.disk, 1, rfl⟩
    exact .ite (.bind (moves_blockRead _ _ _) fun _ => hnext _ _ _ _ _ _ _)
      (.bind (moves_pure _) fun _ => hnext _ _ _ _ _ _ _)

lemma fileWrite_exact (h : Exact s extra) (hfile : findAt File.addr s.files addr = some file)
    (buffer : Memory) (size : Int) :
    outcome (fileWrite addr buffer size) (fun _ t => Exact t extra) (· = pastEnd) s := by
  have hf := ((findAt_eq_some h.files).mp hfile).1
  obtain ⟨inode, hi, haddr, hfind⟩ := h.present (mem_references_file extra hf)
  have hwrite : outcome (inodeWriteAt inode buffer size file.pos)
      (fun _ t => Transfers s t) (· = pastEnd) s := by
    rw [inodeWriteAt]
    split
    · exact ⟨s.disk, 0, rfl⟩
    · exact moves_writeLoop _ _ _ _ _ _ _ s
  simp only [fileWrite, getFile, getInode, outcome_bind, outcome_get, hfile, hfind, outcome_pure]
  refine outcome_mono hwrite ?_ fun _ he => he
  rintro bytesWritten _ ⟨disk, n, rfl⟩
  exact ((h.spend n).setDisk disk).updateFile (by simp) (by simp) (by simp)

end Operations

/-! ## Runs -/

/-- The tables, the inode of every live `struct dir`, and the references that were neither handed
over nor closed. -/
structure Holders where
  fs : Fs
  dirs : List Nat
  held : List Nat

variable {h : Holders}

inductive CountOp where
  | inodeOpen (sector : Nat)
  | inodeReopen (inode : Nat)
  | inodeClose (inode : Option Nat)
  | fileOpen (inode : Option Nat)
  | fileReopen (file : Nat)
  | fileDenyWrite (file : Nat)
  | fileAllowWrite (file : Nat)
  | fileClose (file : Option Nat)
  | fileWrite (file : Nat) (buffer : Memory) (size : Int)
  | dirOpen (inode : Option Nat)
  | dirClose (dir : Option Nat)

namespace Holders

def refs (h : Holders) : List Nat := references h.fs (h.dirs ++ h.held)

def onTables {α : Type} (x : FsAction α) : Action Holders Fault α :=
  zoom Holders.fs (fun h fs => { h with fs }) x

def holds (inode : Option Nat) : Action Holders Fault Unit :=
  Action.modify fun h => { h with held := inode.toList ++ h.held }

def drops (inode : Option Nat) : Action Holders Fault Unit :=
  Action.modify fun h => { h with held := h.held.diff inode.toList }

def perform : CountOp → Action Holders Fault Unit
  | .inodeOpen sector => do holds (← onTables (Filesys.inodeOpen sector))
  | .inodeReopen inode => do holds (some (← onTables (Filesys.inodeReopen inode)))
  | .inodeClose inode => do
    onTables (Filesys.inodeClose inode)
    drops inode
  | .fileOpen inode => do
    let _ ← onTables (Filesys.fileOpen inode)
    drops inode
  | .fileReopen file => do
    let _ ← onTables (Filesys.fileReopen file)
  | .fileDenyWrite file => onTables (Filesys.fileDenyWrite file)
  | .fileAllowWrite file => onTables (Filesys.fileAllowWrite file)
  | .fileClose file => onTables (Filesys.fileClose file)
  | .fileWrite file buffer size => do
    let _ ← onTables (Filesys.fileWrite file buffer size)
  | .dirOpen inode => do
    let dir ← onTables (Filesys.dirOpen inode)
    drops inode
    Action.modify fun h => { h with dirs := (dir.map Dir.inode).toList ++ h.dirs }
  | .dirClose dir => do
    onTables (Filesys.dirClose (dir.map Dir.mk))
    Action.modify fun h => { h with dirs := h.dirs.diff dir.toList }

def Allowed (h : Holders) : CountOp → Prop
  | .inodeOpen _ => True
  | .inodeReopen inode => inode ∈ h.refs
  | .inodeClose inode | .fileOpen inode | .dirOpen inode => ∀ i ∈ inode, i ∈ h.held
  | .fileReopen file | .fileDenyWrite file | .fileAllowWrite file | .fileWrite file _ _ =>
    file ∈ h.fs.files.map File.addr
  | .fileClose file => ∀ f ∈ file, f ∈ h.fs.files.map File.addr
  | .dirClose dir => ∀ i ∈ dir, i ∈ h.dirs

instance : ∀ (h : Holders) (op : CountOp), Decidable (Allowed h op)
  | _, .inodeOpen _ => inferInstanceAs (Decidable True)
  | h, .inodeReopen inode => inferInstanceAs (Decidable (inode ∈ h.refs))
  | h, .inodeClose inode | h, .fileOpen inode | h, .dirOpen inode =>
    inferInstanceAs (Decidable (∀ i ∈ inode, i ∈ h.held))
  | h, .fileReopen file | h, .fileDenyWrite file | h, .fileAllowWrite file
  | h, .fileWrite file _ _ => inferInstanceAs (Decidable (file ∈ h.fs.files.map File.addr))
  | h, .fileClose file => inferInstanceAs (Decidable (∀ f ∈ file, f ∈ h.fs.files.map File.addr))
  | h, .dirClose dir => inferInstanceAs (Decidable (∀ i ∈ dir, i ∈ h.dirs))

def countStep (h : Holders) (op : CountOp) : Option Holders :=
  match perform op h with
  | .ok (_, t) => some t
  | .error _ => none

lemma perm_diff {held : List Nat} (h : ∀ i ∈ inode, i ∈ held) :
    held.Perm (inode.toList ++ held.diff inode.toList) := by
  cases inode with
  | none => exact List.Perm.refl _
  | some i => simpa using List.perm_cons_erase (h i rfl)

lemma exists_findAt {s : Fs} {extra : List Nat} (h : Exact s extra) {addr : Nat}
    (hmem : addr ∈ s.files.map File.addr) : ∃ file, findAt File.addr s.files addr = some file := by
  obtain ⟨file, hf, rfl⟩ := mem_map.mp hmem
  exact ⟨file, (findAt_eq_some h.files).mpr ⟨hf, rfl⟩⟩

lemma perform_exact (hexact : Exact h.fs (h.dirs ++ h.held)) {op : CountOp} (hop : Allowed h op) :
    outcome (perform op) (fun _ t => Exact t.fs (t.dirs ++ t.held)) (· = pastEnd) h := by
  have hone : ∀ inode : Option Nat,
      (inode.toList ++ (h.dirs ++ h.held)).Perm (h.dirs ++ (inode.toList ++ h.held)) := by
    intro inode
    rw [← append_assoc, ← append_assoc]
    exact List.perm_append_comm.append_right _
  -- a reference that is passed on
  have hpass : ∀ inode : Option Nat, (∀ i ∈ inode, i ∈ h.held) →
      Exact h.fs (inode.toList ++ (h.dirs ++ h.held.diff inode.toList)) := by
    intro inode hheld
    refine hexact.perm (((perm_diff hheld).append_left h.dirs).trans ?_)
    rw [← append_assoc, ← append_assoc]
    exact List.perm_append_comm.append_right _
  cases op with
  | inodeOpen sector =>
    simp only [perform, onTables, holds, outcome_bind, outcome_zoom, outcome_modify]
    exact outcome_mono (inodeOpen_exact hexact sector) (fun r t ht => ht.perm (hone r))
      fun _ he => he
  | inodeReopen inode =>
    refine outcome_of_wp ?_
    simp only [perform, onTables, holds, wp_bind, wp_zoom, wp_modify]
    refine wp_mono (inodeReopen_exact hexact hop) ?_
    rintro _ t ⟨rfl, ht⟩
    exact ht.perm (hone (some _))
  | inodeClose inode =>
    refine outcome_of_wp ?_
    simp only [perform, onTables, drops, wp_bind, wp_zoom, wp_modify]
    exact inodeClose_exact_option (hpass inode hop)
  | fileOpen inode =>
    refine outcome_of_wp ?_
    simp only [perform, onTables, drops, wp_bind, wp_zoom, wp_modify]
    exact fileOpen_exact (hpass inode hop)
  | fileReopen file =>
    obtain ⟨f, hfile⟩ := exists_findAt hexact hop
    refine outcome_of_wp ?_
    simp only [perform, onTables, wp_bind, wp_zoom, wp_pure]
    exact fileReopen_exact hexact hfile
  | fileDenyWrite file =>
    obtain ⟨f, hfile⟩ := exists_findAt hexact hop
    refine outcome_of_wp ?_
    simp only [perform, onTables, wp_zoom]
    exact fileDenyWrite_exact hexact hfile
  | fileAllowWrite file =>
    obtain ⟨f, hfile⟩ := exists_findAt hexact hop
    refine outcome_of_wp ?_
    simp only [perform, onTables, wp_zoom]
    exact wp_mono (fileAllowWrite_exact hexact hfile) fun _ _ ht => ht.1
  | fileClose file =>
    refine outcome_of_wp ?_
    simp only [perform, onTables, wp_zoom]
    cases file with
    | none => exact hexact
    | some file =>
      obtain ⟨f, hfile⟩ := exists_findAt hexact (hop file rfl)
      exact fileClose_exact hexact hfile
  | fileWrite file buffer size =>
    obtain ⟨f, hfile⟩ := exists_findAt hexact hop
    simp only [perform, onTables, outcome_bind, outcome_zoom, outcome_pure]
    exact fileWrite_exact hexact hfile buffer size
  | dirOpen inode =>
    refine outcome_of_wp ?_
    simp only [perform, onTables, drops, wp_bind, wp_zoom, wp_modify]
    refine wp_mono (dirOpen_exact (hpass inode hop)) fun dir t ht => ?_
    rw [append_assoc]
    exact ht
  | dirClose dir =>
    refine outcome_of_wp ?_
    simp only [perform, onTables, wp_bind, wp_zoom, wp_modify]
    have hdir : Exact h.fs (dir.toList ++ (h.dirs.diff dir.toList ++ h.held)) := by
      rw [← append_assoc]
      exact hexact.perm ((perm_diff hop).append_right _)
    cases dir with
    | none => exact hdir
    | some inode => exact inodeClose_exact hdir

structure CountsExact (h : Holders) : Prop where
  sectors : (h.fs.openInodes.map Inode.sector).Nodup
  present : ∀ addr ∈ h.refs, ∃ inode ∈ h.fs.openInodes, inode.addr = addr
  openCnt : ∀ inode ∈ h.fs.openInodes, inode.openCnt = h.refs.count inode.addr ∧ 1 ≤ inode.openCnt
  denyWriteCnt : ∀ inode ∈ h.fs.openInodes, inode.denyWriteCnt = deniedBy h.fs.files inode.addr ∧
      0 ≤ inode.denyWriteCnt ∧ inode.denyWriteCnt ≤ inode.openCnt
  faults : ∀ op, Allowed h op → ∀ e, perform op h = .error e → e = pastEnd
  blocked : ∀ inode ∈ h.fs.openInodes, 0 < inode.denyWriteCnt →
    (∀ buffer size offset, wp (inodeWriteAt inode buffer size offset)
      (fun n t => n = 0 ∧ t = h.fs) h.fs) ∧
    ∀ file ∈ h.fs.files, file.inode = inode.addr → ∀ buffer size,
      wp (fileWrite file.addr buffer size) (fun n t => n = 0 ∧ t.disk = h.fs.disk) h.fs

lemma Exact.countsExact (hexact : Exact h.fs (h.dirs ++ h.held)) : CountsExact h where
  sectors := hexact.sectors
  present := hexact.counted.present
  openCnt inode hi := by
    have hcnt := hexact.counted.count_eq inode hi
    have hpos := List.count_pos_iff.mpr (hexact.counted.referenced inode hi)
    exact ⟨hcnt, by omega⟩
  denyWriteCnt inode hi := by
    have hdenied := hexact.denied inode hi
    exact ⟨hdenied, by omega, hexact.denied_le hi⟩
  faults op hop e herror := by
    have houtcome := perform_exact hexact hop
    rw [outcome, herror] at houtcome
    exact houtcome
  blocked inode hi hpos := by
    have hdeny : inode.denyWriteCnt ≠ 0 := by omega
    have hwrite : ∀ buffer size offset, inodeWriteAt inode buffer size offset = pure 0 := by
      intro buffer size offset
      rw [inodeWriteAt, if_pos hdeny]
    refine ⟨fun buffer size offset => ?_, fun file hf haddr buffer size => ?_⟩
    · rw [hwrite]
      exact ⟨rfl, rfl⟩
    have hfile := (findAt_eq_some hexact.files).mpr ⟨hf, rfl⟩
    have hinode := (findAt_eq_some hexact.counted.nodup).mpr ⟨hi, haddr.symm⟩
    simp only [fileWrite, updateFile, wp_bind, wp_getFile hfile, wp_getInode hinode,
      hwrite, wp_pure, wp_modify]
    exact ⟨trivial, rfl⟩

/-- The counts are exact in every state that is reached from one where nothing is open. -/
theorem counts_exact_of_run {s : Fs} (hinodes : s.openInodes = []) (hfiles : s.files = [])
    {ops : List CountOp} {h : Holders} (hops : Meets countStep Allowed ⟨s, [], []⟩ ops)
    (hrun : run countStep ⟨s, [], []⟩ ops = some h) : CountsExact h := by
  have hstart : Exact s [] := by
    constructor <;> simp [hinodes, hfiles]
    constructor <;> simp [references, hfiles]
  refine Exact.countsExact (run_invariant (I := fun h => Exact h.fs (h.dirs ++ h.held)) ?_ hstart
    hops hrun)
  intro h op t hexact hop hstep
  have houtcome := perform_exact hexact hop
  cases hperform : perform op h with
  | error e => simp [countStep, hperform] at hstep
  | ok result =>
    obtain ⟨_, u⟩ := result
    simp only [countStep, hperform, some.injEq] at hstep
    rw [outcome, hperform] at houtcome
    exact hstep ▸ houtcome

lemma nothingOpen_length : ([] : List (BitVec 32)).length = (0 + 31) / 32 := rfl

lemma nothingOpen_le : 0 ≤ 2 ^ 32 - 32 := by decide

def nothingOpen : Holders where
  fs :=
    { size := 8, disk := fun _ => 0,
      freeMap := ⟨0, [], nothingOpen_length, nothingOpen_le⟩, freeMapFile := none,
      openInodes := [], files := [], nextAddress := 1, heapOk := fun _ => true,
      garbage := fun _ _ => 0, allocations := 0 }
  dirs := []
  held := []

/-- Two files of one inode, one of which denies writes until it is closed, and a directory. -/
def twoFiles : List CountOp :=
  [.inodeOpen 3, .fileOpen (some 1), .fileReopen 2, .fileDenyWrite 3, .fileWrite 2 (fun _ => 1) 4,
    .inodeReopen 1, .dirOpen (some 1), .fileClose (some 3), .dirClose (some 1)]

theorem counts_exact_two_files : Meets countStep Allowed nothingOpen twoFiles ∧
    ∃ h, run countStep nothingOpen twoFiles = some h ∧ CountsExact h := by
  have hmeets : Meets countStep Allowed nothingOpen twoFiles := by decide +kernel
  have hsome : (run countStep nothingOpen twoFiles).isSome = true := by decide +kernel
  obtain ⟨h, hrun⟩ := isSome_iff_exists.mp hsome
  exact ⟨hmeets, h, hrun, counts_exact_of_run rfl rfl hmeets hrun⟩

end Holders

end Pintos.Filesys
