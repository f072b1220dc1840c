import Pintos.Filesys.Access

/-!
# Files that may not be written

While a program runs, `file_deny_write` keeps its executable from being changed.
That only concerns counters in the tables of open files and inodes, so closing a
file is correct in such a state because it is in the one without the counters.
-/

namespace Pintos.Filesys

open Foundation

variable {file : File} {inode : Inode} {Q : Unit → Fs → Prop} {header : Nat} {pos : Int}

/-! ## Writing does not look at the tables -/

@[simps -fullyApplied] def Fs.setTables (s : Fs) (files : List File) (openInodes : List Inode)
    (freeMapFile : Option Nat) : Fs := { s with files, openInodes, freeMapFile }

structure Blind (f : Fs → Fs) : Prop where
  malloc : Action.Commutes f malloc
  uninitialised : Action.Commutes f uninitialised
  blockRead : ∀ sector buffer offset, Action.Commutes f (blockRead sector buffer offset)
  blockWrite : ∀ sector buffer offset, Action.Commutes f (blockWrite sector buffer offset)

lemma blind_setTables (files : List File) (inodes : List Inode) (mapFile : Option Nat) :
    Blind (Fs.setTables · files inodes mapFile) := by
  refine ⟨fun _ _ => Iff.rfl, fun _ _ => Iff.rfl, fun sector buffer offset s Q => ?_,
    fun sector buffer offset s Q => ?_⟩
  · simp
  simp only [wp_blockWrite, Fs.setTables_size, Fs.setTables_disk]
  rfl

/-- The action sees neither the tables of open files and inodes nor the addresses of objects. -/
def Inner {α : Type} (x : FsAction α) : Prop := ∀ f, Blind f → Action.Commutes f x

section Inner

variable {α β : Type} {x y : FsAction α}

lemma inner_pure (a : α) : Inner (pure a : FsAction α) := fun _ _ => Action.commutes_pure a

lemma Inner.bind {g : α → FsAction β} (hx : Inner x) (hg : ∀ a, Inner (g a)) : Inner (x >>= g) :=
  fun f hf => (hx f hf).bind fun a => hg a f hf

lemma Inner.ite {p : Prop} [Decidable p] (hx : Inner x) (hy : Inner y) :
    Inner (if p then x else y) :=
  fun f hf => (hx f hf).ite (hy f hf)

lemma inner_ensureBounce (bounce : Bool) : Inner (ensureBounce bounce) :=
  (inner_pure true).ite fun _ hf => hf.malloc

lemma inner_writeLoop (data : InodeDisk) (buffer : Memory) (fuel : Nat)
    (size offset bytesWritten : Int) (bounce : Bool) :
    Inner (writeLoop data buffer fuel size offset bytesWritten bounce) := by
  induction fuel generalizing size offset bytesWritten bounce with
  | zero => exact inner_pure _
  | succ fuel ih =>
    rw [writeLoop]
    refine (inner_pure _).ite ((inner_pure _).ite (.ite ?_ ?_))
    · exact .bind (fun _ hf => hf.blockWrite _ _ _) fun _ => ih _ _ _ _
    refine (inner_ensureBounce bounce).bind fun bounce => .ite ?_ (inner_pure _)
    refine .ite (.bind (fun _ hf => hf.blockRead _ _ _) fun _ => ?_)
      (.bind (inner_pure _) fun _ => ?_)
    · exact .bind (fun _ hf => hf.blockWrite _ _ _) fun _ => ih _ _ _ _
    · exact .bind (fun _ hf => hf.blockWrite _ _ _) fun _ => ih _ _ _ _

end Inner

/-! ## The state without the counters -/

@[simps] def File.undenied (file : File) : File := { file with denyWrite := false }

@[simps] def Inode.undenied (inode : Inode) : Inode := { inode with denyWriteCnt := 0 }

def Fs.undenied (s : Fs) : Fs :=
  s.setTables (s.files.map File.undenied) (s.openInodes.map Inode.undenied) s.freeMapFile

structure SameOpen (s t : Fs) : Prop where
  files : t.files = s.files
  openInodes : t.openInodes = s.openInodes
  freeMapFile : t.freeMapFile = s.freeMapFile

section Undenied

variable {s : Fs} {α : Type}

lemma wp_of_undenied {x : FsAction α} {Q : α → Fs → Prop}
    (hx : ∀ files inodes mapFile, Action.Commutes (Fs.setTables · files inodes mapFile) x)
    (h : wp x Q s.undenied) : wp x (fun a t => Q a t.undenied ∧ SameOpen s t) s := by
  have hundenied := (hx _ _ _ s Q).mp h
  obtain ⟨a, t, hrun, hq⟩ := wp_iff.mp hundenied
  -- with the tables as they are, the final state is its own image
  have hself := (hx s.files s.openInodes s.freeMapFile s fun _ u => u = t).mp
    ((wp_of_ok hrun).mpr rfl)
  rw [wp_of_ok hrun] at hself
  have hsame : SameOpen s t := by
    rw [← hself]
    exact ⟨rfl, rfl, rfl⟩
  refine (wp_of_ok hrun).mpr ⟨?_, hsame⟩
  rwa [Fs.undenied, hsame.files, hsame.openInodes, hsame.freeMapFile]

lemma findInode_undenied (s : Fs) (addr : Nat) : findAt Inode.addr s.undenied.openInodes addr =
    (findAt Inode.addr s.openInodes addr).map Inode.undenied := findAt_map Inode.undenied_addr

lemma findFile_undenied (s : Fs) (addr : Nat) : findAt File.addr s.undenied.files addr =
    (findAt File.addr s.files addr).map File.undenied := findAt_map File.undenied_addr

def MapWritable (s : Fs) : Prop :=
  ∃ file inode, s.freeMapFile = some file.addr ∧ findAt File.addr s.files file.addr = some file ∧
    findAt Inode.addr s.openInodes file.inode = some inode ∧ inode.denyWriteCnt = 0

lemma wp_bitmapWrite_undenied {b : Bitmap} (hfile : findAt File.addr s.files file.addr = some file)
    (hinode : findAt Inode.addr s.openInodes file.inode = some inode)
    (hdeny : inode.denyWriteCnt = 0) {Q : Bool → Fs → Prop}
    (h : wp (bitmapWrite b file.addr) Q s.undenied) :
    wp (bitmapWrite b file.addr) (fun r t => Q r t.undenied ∧ SameOpen s t) s := by
  have hfile' : findAt File.addr s.undenied.files file.addr = some file.undenied := by
    rw [findFile_undenied, hfile, Option.map_some]
  have hinode' : findAt Inode.addr s.undenied.openInodes file.undenied.inode =
      some inode.undenied := by
    rw [findInode_undenied, File.undenied_inode, hinode, Option.map_some]
  simp only [bitmapWrite, fileWriteAt, inodeWriteAt, wp_bind, wp_pure,
    wp_getFile hfile', wp_getInode hinode'] at h
  simp only [bitmapWrite, fileWriteAt, inodeWriteAt, wp_bind, wp_pure,
    wp_getFile hfile, wp_getInode hinode, hdeny]
  exact wp_of_undenied (fun _ _ _ => inner_writeLoop _ _ _ _ _ _ _ _ (blind_setTables ..)) h

lemma wp_freeMapRelease_undenied {sector cnt : Nat} (hmap : MapWritable s)
    (h : wp (freeMapRelease sector cnt) Q s.undenied) :
    wp (freeMapRelease sector cnt) (fun a t => Q a t.undenied ∧ SameOpen s t) s := by
  obtain ⟨file, inode, hptr, hfile, hinode, hdeny⟩ := hmap
  have hptr' : s.undenied.freeMapFile = some file.addr := hptr
  simp only [freeMapRelease, wp_bind, wp_get, Action.wp_ofExcept_iff,
    wp_require, wp_modify, wp_pure, hptr, hptr'] at h ⊢
  obtain ⟨all, hall, hused, map, hset, hwrite⟩ := h
  refine ⟨all, hall, hused, map, hset, ?_⟩
  refine wp_mono (wp_bitmapWrite_undenied (s := s.setMap map) hfile hinode hdeny hwrite) ?_
  rintro r t ⟨hq, hsame⟩
  exact ⟨hq, hsame.files, hsame.openInodes, hsame.freeMapFile⟩

lemma SameOpen.mapWritable {t : Fs} (h : SameOpen s t) (hmap : MapWritable s) : MapWritable t := by
  unfold MapWritable
  rw [h.files, h.openInodes, h.freeMapFile]
  exact hmap

lemma wp_inodeClose_undenied {addr : Nat}
    (hinode : findAt Inode.addr s.openInodes addr = some inode)
    (hmap : inode.removed = true →
      MapWritable (s.setInodes (removeAt Inode.addr s.openInodes addr)))
    (h : wp (inodeClose (some addr)) Q s.undenied) :
    wp (inodeClose (some addr)) (fun a t => Q a t.undenied ∧ SameOpen (s.setInodes
        (if inode.openCnt - 1 = 0 then removeAt Inode.addr s.openInodes addr
         else closed s.openInodes addr)) t) s := by
  have hinode' : findAt Inode.addr s.undenied.openInodes addr = some inode.undenied := by
    rw [findInode_undenied, hinode, Option.map_some]
  have hclosed : closed s.undenied.openInodes addr =
      (closed s.openInodes addr).map Inode.undenied :=
    updateAt_map (fun _ => rfl) fun _ => rfl
  have hrem : removeAt Inode.addr (closed s.openInodes addr) addr =
      removeAt Inode.addr s.openInodes addr := removeAt_updateAt fun _ => rfl
  have hrem' : removeAt Inode.addr ((closed s.openInodes addr).map Inode.undenied) addr =
      (removeAt Inode.addr s.openInodes addr).map Inode.undenied := by
    rw [removeAt_map Inode.undenied_addr, hrem]
  simp only [inodeClose, wp_bind, wp_getInode hinode', wp_getInode hinode, wp_modify,
    wp_ite, wp_pure, hclosed, hrem, hrem', Fs.setInodes_openInodes] at h ⊢
  by_cases hlast : inode.openCnt - 1 = 0
  · have hlast' : inode.undenied.openCnt - 1 = 0 := hlast
    simp only [hlast, hlast', if_true] at h ⊢
    by_cases hdead : inode.removed = true
    · have hdead' : inode.undenied.removed = true := hdead
      simp only [hdead, hdead', if_true] at h ⊢
      refine wp_mono (wp_freeMapRelease_undenied (hmap hdead) h) ?_
      rintro _ u ⟨hrest, hsame⟩
      refine wp_mono (wp_freeMapRelease_undenied (hsame.mapWritable (hmap hdead)) hrest) ?_
      rintro _ t ⟨hq, hsame'⟩
      exact ⟨hq, hsame'.files.trans hsame.files, hsame'.openInodes.trans hsame.openInodes,
        hsame'.freeMapFile.trans hsame.freeMapFile⟩
    · have hdead' : ¬ inode.undenied.removed = true := hdead
      simp only [hdead, hdead'] at h ⊢
      exact ⟨h, rfl, rfl, rfl⟩
  · have hlast' : ¬ inode.undenied.openCnt - 1 = 0 := hlast
    simp only [hlast, hlast', if_false] at h ⊢
    exact ⟨h, rfl, rfl, rfl⟩

end Undenied

/-! ## Counting the denials -/

def deniedBy (files : List File) (addr : Nat) : Nat :=
  files.countP fun file => file.inode = addr ∧ file.denyWrite = true

structure DenySound (s : Fs) : Prop where
  sound : Sound s.undenied []
  counts : ∀ inode ∈ s.openInodes, inode.denyWriteCnt = deniedBy s.files inode.addr
  mapFile : ∀ file ∈ s.files, s.freeMapFile = some file.addr → file.denyWrite = false

section DenySound

variable {s t : Fs}

lemma clientHandle_undenied (s : Fs) (handle header : Nat) (pos : Int) :
    ClientHandle s.undenied handle header pos ↔ ClientHandle s handle header pos := by
  simp only [ClientHandle, Fs.undenied, Fs.setTables_files, Fs.setTables_openInodes,
    Fs.setTables_freeMapFile, mem_map, exists_exists_and_eq_and]
  rfl

lemma DenySound.files_nodup (h : DenySound s) : (s.files.map File.addr).Nodup := by
  have := h.sound.tables.files
  rwa [Fs.undenied, Fs.setTables_files, map_map] at this

lemma DenySound.inodes_nodup (h : DenySound s) : (s.openInodes.map Inode.addr).Nodup := by
  have := h.sound.tables.counted.nodup
  rwa [Fs.undenied, Fs.setTables_openInodes, map_map] at this

lemma DenySound.of_sound (h : Sound s []) : DenySound s := by
  have hfiles : s.files.map File.undenied = s.files := by
    refine (map_congr_left fun file hf => ?_).trans (List.map_id _)
    obtain ⟨addr, inode, pos, denyWrite⟩ := file
    have := (h.tables.handles _ hf).2
    simp_all [File.undenied]
  have hinodes : s.openInodes.map Inode.undenied = s.openInodes := by
    refine (map_congr_left fun inode hi => ?_).trans (List.map_id _)
    have := (h.inodes inode hi).writable
    simp [Inode.undenied, ← this]
  refine ⟨?_, fun inode hi => ?_, fun file hf _ => (h.tables.handles file hf).2⟩
  · rw [Fs.undenied, hfiles, hinodes]
    exact h
  rw [(h.inodes inode hi).writable, deniedBy, List.countP_eq_zero.mpr]
  · rfl
  intro file hf
  simp [(h.tables.handles file hf).2]

lemma DenySound.mapInode (h : DenySound s) :
    ∃ file inode, file ∈ s.files ∧ inode ∈ s.openInodes ∧ s.freeMapFile = some file.addr ∧
      inode.addr = file.inode ∧ inode.sector = freeMapSector ∧ inode.denyWriteCnt = 0 := by
  obtain ⟨_, hf', hptr, _, hi', haddr, hsec⟩ := h.sound.mapFile
  obtain ⟨file, hf, rfl⟩ := mem_map.mp hf'
  obtain ⟨inode, hi, rfl⟩ := mem_map.mp hi'
  refine ⟨file, inode, hf, hi, hptr, haddr, hsec, ?_⟩
  rw [h.counts inode hi, deniedBy, List.countP_eq_zero.mpr]
  · rfl
  intro g hg
  simp only [decide_eq_true_eq, not_and, Bool.not_eq_true]
  intro heq
  have hordinary := h.sound.tables.ordinary g.undenied (mem_map_of_mem hg) inode.undenied hi'
    heq.symm
  exact h.mapFile g hg (hordinary.2 hsec)

lemma DenySound.mapWritable_removed (h : DenySound s) {handle : Nat}
    (hclient : s.freeMapFile ≠ some handle) (hi : inode ∈ s.openInodes)
    (hmap : inode.sector ≠ freeMapSector) :
    MapWritable ((s.setFiles (removeAt File.addr s.files handle)).setInodes
      (removeAt Inode.addr s.openInodes inode.addr)) := by
  obtain ⟨file, mapInode, hf, hm, hptr, haddr, hsec, hdeny⟩ := h.mapInode
  refine ⟨file, mapInode, hptr, ?_, ?_, hdeny⟩
  · refine (findAt_eq_some (nodup_removeAt h.files_nodup _)).mpr
      ⟨mem_removeAt.mpr ⟨hf, fun heq => hclient (heq ▸ hptr)⟩, rfl⟩
  · refine (findAt_eq_some (nodup_removeAt h.inodes_nodup _)).mpr
      ⟨mem_removeAt.mpr ⟨hm, fun heq => hmap ?_⟩, haddr⟩
    rw [← eq_of_addr_eq h.inodes_nodup hm hi heq, hsec]

lemma DenySound.handle (h : DenySound s) {handle : Nat} (hc : ClientHandle s handle header pos) :
    ∃ file inode, file ∈ s.files ∧ inode ∈ s.openInodes ∧ file.addr = handle ∧
      inode.addr = file.inode ∧ inode.sector = header ∧ header ≠ freeMapSector ∧
      findAt File.addr s.files handle = some file ∧
      findAt Inode.addr s.openInodes file.inode = some inode := by
  have hmap := h.sound.handle ((clientHandle_undenied s handle header pos).mpr hc)
  obtain ⟨_, _, _, _, _, _, _, _, _, _, _, hmap, _⟩ := hmap
  obtain ⟨-, file, hf, rfl, -, inode, hi, haddr, rfl⟩ := hc
  exact ⟨file, inode, hf, hi, rfl, haddr, rfl, hmap, (findAt_eq_some h.files_nodup).mpr ⟨hf, rfl⟩,
    (findAt_eq_some h.inodes_nodup).mpr ⟨hi, haddr⟩⟩

lemma deniedBy_perm {files files' : List File} (h : files.Perm files') (addr : Nat) :
    deniedBy files addr = deniedBy files' addr := h.countP_eq _

lemma deniedBy_cons (file : File) (files : List File) (addr : Nat) : deniedBy (file :: files) addr =
      deniedBy files addr + if file.inode = addr ∧ file.denyWrite = true then 1 else 0 := by
  simp [deniedBy, countP_cons]

lemma DenySound.denied_le (h : DenySound s) (hi : inode ∈ s.openInodes) :
    inode.denyWriteCnt ≤ inode.openCnt := by
  have hcnt := h.sound.tables.counted.count_eq inode.undenied (mem_map_of_mem hi)
  have hrefs : references s.undenied [] = s.files.map File.inode := by
    simp [references, Fs.undenied, Function.comp_def]
  rw [hrefs, List.count, List.countP_map] at hcnt
  rw [h.counts inode hi, show inode.openCnt = inode.undenied.openCnt from rfl, hcnt, deniedBy]
  refine Int.ofNat_le.mpr (List.countP_mono_left fun file _ => ?_)
  simp only [decide_eq_true_eq, Function.comp_apply, beq_iff_eq, Inode.undenied_addr]
  exact And.left

lemma fileAllowWrite_denySound (h : DenySound s) {handle : Nat}
    (hfile : findAt File.addr s.files handle = some file)
    (hinode : findAt Inode.addr s.openInodes file.inode = some inode) : wp (fileAllowWrite handle)
      (fun _ t => DenySound t ∧ t.undenied = s.undenied ∧
        findAt File.addr t.files handle = some file.undenied ∧
        ∃ inode', findAt Inode.addr t.openInodes file.inode = some inode' ∧
          inode'.sector = inode.sector) s := by
  obtain ⟨hf, rfl⟩ := (findAt_eq_some h.files_nodup).mp hfile
  obtain ⟨hi, haddr⟩ := (findAt_eq_some h.inodes_nodup).mp hinode
  simp only [fileAllowWrite, wp_bind, wp_getFile hfile]
  cases hdeny : file.denyWrite with
  | false =>
    have hsame : file.undenied = file := by simp [File.undenied, ← hdeny]
    rw [hsame]
    exact ⟨h, rfl, hfile, inode, hinode, rfl⟩
  | true =>
    have hperm := perm_removeAt h.files_nodup hfile
    have hperm' := perm_updateAt h.files_nodup hfile
      (f := fun f => { f with denyWrite := false }) fun _ => rfl
    have hbefore : ∀ a, deniedBy s.files a =
        deniedBy (removeAt File.addr s.files file.addr) a + if file.inode = a then 1 else 0 := by
      intro a
      rw [deniedBy_perm hperm, deniedBy_cons]
      simp [hdeny]
    have hafter : ∀ a, deniedBy (updateAt File.addr s.files file.addr
        fun f => { f with denyWrite := false }) a =
        deniedBy (removeAt File.addr s.files file.addr) a := by
      intro a
      rw [deniedBy_perm hperm', deniedBy_cons]
      simp
    have hcounts := h.counts inode hi
    rw [hbefore, haddr, if_pos rfl] at hcounts
    have hinode' : findAt Inode.addr (s.setFiles (updateAt File.addr s.files file.addr
        fun f => { f with denyWrite := false })).openInodes file.inode = some inode := hinode
    simp only [if_true, updateFile, inodeAllowWrite, wp_bind, wp_modify,
      wp_getInode hinode', wp_require, Fs.setFiles_openInodes]
    have hundenied : ((s.setFiles (updateAt File.addr s.files file.addr
        fun f => { f with denyWrite := false })).setInodes (updateAt Inode.addr s.openInodes
        file.inode fun i => { i with denyWriteCnt := i.denyWriteCnt - 1 })).undenied =
        s.undenied := by
      simp only [Fs.undenied, Fs.setInodes_files, Fs.setFiles_files, Fs.setInodes_openInodes]
      rw [map_updateAt File.undenied (by simp [File.undenied]),
        map_updateAt Inode.undenied (by simp [Inode.undenied])]
      rfl
    refine ⟨by omega, h.denied_le hi, ⟨?_, ?_, ?_⟩, hundenied, ?_, ?_⟩
    · rw [hundenied]
      exact h.sound
    · intro i hmem
      simp only [Fs.setInodes_files, Fs.setFiles_files, hafter]
      rcases mem_updateAt.mp hmem with ⟨j, hj, hjaddr, rfl⟩ | ⟨hold, hne⟩
      · have := h.counts j hj
        rw [hbefore, if_pos hjaddr.symm] at this
        simp only
        omega
      · rw [h.counts i hold, hbefore, if_neg (Ne.symm hne), Nat.add_zero]
    · exact forall_mem_updateAt h.mapFile fun _ _ _ _ => rfl
    · simp only [Fs.setInodes_files, Fs.setFiles_files]
      rw [findAt_updateAt_self (by simp), hfile]
      rfl
    · simp only [Fs.setInodes_openInodes]
      rw [findAt_updateAt_self (by simp), hinode]
      exact ⟨_, rfl, rfl⟩

structure Closes (s t : Fs) (handle : Nat) : Prop where
  sound : DenySound t
  heapOk : t.heapOk = s.heapOk
  live : ∀ x, Live t x → Live s x
  keeps : Keeps (Live t) (· = freeMapSector) s.disk t.disk
  changes : ChangesOnly (InExtent (headerAt s.disk freeMapSector)) s.disk t.disk
  handles : ∀ handle' x pos, ClientHandle t handle' x pos ↔
    ClientHandle s handle' x pos ∧ handle' ≠ handle

lemma live_undenied (s : Fs) (sector : Nat) : Live s.undenied sector ↔ Live s sector := by
  simp only [Live, Fs.undenied, Fs.setTables_openInodes, Fs.setTables_disk, mem_map,
    exists_exists_and_eq_and]
  rfl

lemma DenySound.closed (h : DenySound s) {handle : Nat}
    (hfile : findAt File.addr s.files handle = some file) (hdeny : file.denyWrite = false)
    (hsound : Sound t.undenied [])
    (hsame : SameOpen ((s.setFiles (removeAt File.addr s.files handle)).setInodes
      (if inode.openCnt - 1 = 0 then removeAt Inode.addr s.openInodes file.inode
       else Filesys.closed s.openInodes file.inode)) t) : DenySound t := by
  refine ⟨hsound, fun i hi => ?_, fun f hf hptr => ?_⟩
  · obtain ⟨j, hj, haddr, hcnt⟩ : ∃ j ∈ s.openInodes, j.addr = i.addr ∧
        j.denyWriteCnt = i.denyWriteCnt := by
      rw [hsame.openInodes, Fs.setInodes_openInodes] at hi
      split at hi
      · exact ⟨i, (mem_removeAt.mp hi).1, rfl, rfl⟩
      rcases mem_updateAt.mp hi with ⟨j, hj, -, rfl⟩ | ⟨hj, -⟩
      · exact ⟨j, hj, rfl, rfl⟩
      · exact ⟨i, hj, rfl, rfl⟩
    rw [hsame.files, Fs.setInodes_files, Fs.setFiles_files, ← hcnt, ← haddr, h.counts j hj,
      deniedBy_perm (perm_removeAt h.files_nodup hfile), deniedBy_cons]
    simp [hdeny]
  · rw [hsame.files] at hf
    rw [hsame.freeMapFile] at hptr
    exact h.mapFile f (mem_removeAt.mp hf).1 hptr

lemma fileClose_denySound (h : DenySound s) {handle : Nat} (hc : ClientHandle s handle header pos) :
    wp (fileClose (some handle)) (fun _ t => Closes s t handle) s := by
  have hc' := (clientHandle_undenied s handle header pos).mpr hc
  obtain ⟨file, inode, -, -, -, -, hhdr, hnotmap, hfile, hinode⟩ := h.handle hc
  have hclosing := fileClose_sound h.sound hc'
  rw [fileClose, wp_bind, wp_getFile hfile, wp_bind]
  refine wp_mono (fileAllowWrite_denySound h hfile hinode) ?_
  rintro _ u ⟨hu, hundenied, hfile', inode', hinode', hsec⟩
  simp only [wp_bind, wp_modify]
  -- what is left to do is the same without the counters
  have hfile'' : findAt File.addr s.undenied.files handle = some file.undenied := by
    rw [findFile_undenied, hfile, Option.map_some]
  have hrem : (u.setFiles (removeAt File.addr u.files handle)).undenied =
      s.undenied.setFiles (removeAt File.addr s.undenied.files handle) := by
    rw [← hundenied, Fs.undenied, Fs.setFiles_files, ← removeAt_map File.undenied_addr]
    rfl
  simp only [fileClose, fileAllowWrite, wp_bind, wp_getFile hfile'', File.undenied_denyWrite,
    Bool.false_eq_true, if_false, wp_pure, wp_modify, File.undenied_inode] at hclosing
  rw [← hrem] at hclosing
  have hmap : MapWritable ((u.setFiles (removeAt File.addr u.files handle)).setInodes
      (removeAt Inode.addr u.openInodes file.inode)) := by
    obtain ⟨hi, haddr⟩ := (findAt_eq_some hu.inodes_nodup).mp hinode'
    rw [← haddr]
    refine hu.mapWritable_removed ?_ hi ?_
    · have hptr : u.undenied.freeMapFile = s.undenied.freeMapFile := by rw [hundenied]
      exact fun heq => hc.1 (hptr.symm.trans heq)
    · rw [hsec, hhdr]
      exact hnotmap
  refine wp_mono (wp_inodeClose_undenied
    (s := u.setFiles (removeAt File.addr u.files handle)) hinode' (fun _ => hmap) hclosing) ?_
  rintro _ t ⟨⟨hsound, hheap, hlive, hkeeps, hchanges, hhandles⟩, hsame⟩
  refine ⟨hu.closed hfile' rfl hsound hsame, hheap, fun x hx => ?_, ?_, hchanges,
    fun handle' x pos => ?_⟩
  · exact (live_undenied s x).mp (hlive x ((live_undenied t x).mpr hx))
  · exact hkeeps.restrict fun x hx => (live_undenied t x).mpr hx
  · rw [← clientHandle_undenied, hhandles, clientHandle_undenied]

end DenySound

end Pintos.Filesys
