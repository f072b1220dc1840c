import Pintos.Filesys.Slots
import Pintos.Foundation.Refinement

/-!
# Directories as finite maps

A directory made by `dir_create`, with any number of entries, under calls of
`dir_add`, `dir_lookup`, `dir_remove` and `dir_readdir`, behaves as a finite map
from names to inode sectors.  `dir_remove` releases the sectors of the inode it
unlinks, so the calls of `dir_add` have to name inodes that exist and that have no
name yet: `DirModel.Allows`.
-/

namespace Pintos.Filesys

open Foundation

variable {sector size x : Nat} {disk : Memory} {data : InodeDisk}

/-! ## Calls on an open directory -/

-- The state of the file system and the `pos` of the open directory.
structure Session where
  fs : Fs
  pos : Nat

def inSession {α : Type} (x : FsAction α) : Action Session Fault α :=
  zoom Session.fs (fun s fs => { s with fs }) x

inductive DirOp
  | add (name : CString) (sector : Nat)
  | lookup (name : CString)
  | remove (name : CString)
  | readdir
  deriving DecidableEq

inductive DirResult
  | done (success : Bool)
  | opened (sector : Option Nat)
  | read (name : Option CString)
  deriving DecidableEq

-- Of the inode that `dir_lookup` opens, its sector is observed.
def performDirOp (dir : Dir) : DirOp → Action Session Fault DirResult
  | .add name sector => do
    let success ← inSession (dirAdd dir (some name) sector)
    return .done success
  | .lookup name => do
    match ← inSession (dirLookup dir (some name)) with
    | none => return .opened none
    | some inode => do
      let sector ← inSession (inodeGetInumber inode)
      return .opened (some sector)
  | .remove name => do
    let success ← inSession (dirRemove dir (some name))
    return .done success
  | .readdir => do
    let s ← Action.get
    let (name, pos) ← inSession (dirReaddir dir s.pos)
    Action.modify fun s => { s with pos }
    return .read name

def createDirectory (sector entryCnt : Nat) : FsAction (Option Dir) := do
  if ← dirCreate sector entryCnt then
    let inode ← inodeOpen sector
    dirOpen inode
  else return none

/-! ## The finite map -/

structure DirModel where
  entries : CString → Option Nat
  files : Set Nat

namespace DirModel

def Allows (m : DirModel) : DirOp → Prop
  | .add _ sector => sector ∈ m.files ∧ ∀ name, m.entries name ≠ some sector
  | _ => True

noncomputable def next (slots : Nat) (m : DirModel) : DirOp → DirModel
  | .add name sector => { m with entries := added m.entries slots name sector }
  | .remove name =>
    { entries := Function.update m.entries name none
      files := {sector | sector ∈ m.files ∧ m.entries name ≠ some sector} }
  | .lookup _ => m
  | .readdir => m

def Answers (slots : Nat) (m : DirModel) : DirOp → DirResult → Prop
  | .add name _, .done success => success = true ↔ CanAdd m.entries slots name
  | .lookup name, .opened sector => sector = m.entries name
  | .remove name, .done success => success = true ↔ m.entries name ≠ none
  | .readdir, .read result => ∀ name, result = some name → m.entries name ≠ none
  | _, _ => False

end DirModel

/-! ## Releasing the sectors of a file -/

structure MapOpen (s : Fs) (file : File) (inode : Inode) : Prop where
  pointer : s.freeMapFile = some file.addr
  foundFile : findAt File.addr s.files file.addr = some file
  foundInode : findAt Inode.addr s.openInodes file.inode = some inode
  writable : inode.denyWriteCnt = 0
  header : headerAt s.disk inode.sector = inode.data
  length : inode.data.length = Bitmap.byteCnt s.freeMap.bitCnt

section Release

variable {s t : Fs} {live : Nat → Prop} {file : File} {inode : Inode}

lemma MapOpen.store (h : MapOpen s file inode) (hfit : Fits s.size (headerAt s.disk inode.sector)) :
    MapStore s (some inode.data) :=
  .opened file inode h.pointer h.foundFile h.foundInode h.writable (h.header ▸ hfit) h.length

lemma MapOpen.congr (h : MapOpen s file inode) (hst : SameTables s t)
    (hhdr : headerAt t.disk inode.sector = headerAt s.disk inode.sector)
    (hcnt : t.freeMap.bitCnt = s.freeMap.bitCnt) : MapOpen t file inode where
  pointer := hst.freeMapFile.trans h.pointer
  foundFile := by rw [hst.files, h.foundFile]
  foundInode := by rw [hst.openInodes, h.foundInode]
  writable := h.writable
  header := hhdr.trans h.header
  length := by rw [hcnt, h.length]

section

variable (hs : SectorsOk s.size s.disk s.freeMap live) (hmap : MapOpen s file inode)
  (hlive : live inode.sector)

include hs hmap hlive

lemma keeps_saveMap (map : Bitmap) {n : Nat} (hn : n ≤ Bitmap.byteCnt s.freeMap.bitCnt) :
    Keeps live (· = inode.sector) s.disk (saveTo (some inode.data) s.disk map n) := by
  have hfit := hs.fits hlive
  rw [hmap.header] at hfit
  have hroom : 0 + n ≤ sectorSize * bytesToSectors inode.data.length := by
    have hlen := hmap.length
    have hbytes := length_le_bytesToSectors hfit.length_nonneg hfit.length_lt
    simp only [sectorSize]
    omega
  refine hs.keeps_of_extent hlive ?_
  rw [hmap.header]
  exact changesOnly_copy s.disk map.bytes inode.data.start _ 0 hroom

lemma freeMapRelease_sectors {cnt : Nat} (hrun : s.freeMap.Run sector cnt true)
    (hfree : ∀ x y, live x → Occupies s.disk x y → ¬ (sector ≤ y ∧ y < sector + cnt)) :
    wp (freeMapRelease sector cnt) (fun _ t =>
      SectorsOk t.size t.disk t.freeMap live ∧ SameTables s t ∧
      Keeps live (· = inode.sector) s.disk t.disk ∧
      Marked s.freeMap t.freeMap sector cnt false) s := by
  refine wp_mono (freeMapRelease_spec (hmap.store (hs.fits hlive)) hrun) ?_
  rintro _ t ⟨k, map, n, hmarked, hle, -, rfl⟩
  have hkeep := keeps_saveMap hs hmap hlive map hle
  refine ⟨hs.keeps hkeep hmarked.bitCnt_eq ?_, ⟨rfl, rfl, rfl, rfl, rfl, le_rfl⟩, hkeep, hmarked⟩
  intro x y hx ho
  simp only [Fs.save_freeMap]
  rw [hmarked.get_eq, if_neg (hfree x y hx ho)]
  exact hs.owned.used_of_occupies hx ho

lemma releaseFile_sectors (hx : live x) (hne : x ≠ inode.sector) : wp (do
        freeMapRelease x 1
        freeMapRelease (headerAt s.disk x).start (bytesToSectors (headerAt s.disk x).length))
      (fun _ t => SectorsOk t.size t.disk t.freeMap (fun y => live y ∧ y ≠ x) ∧ SameTables s t ∧
        Keeps (fun y => live y ∧ y ≠ x) (· = inode.sector) s.disk t.disk ∧
        t.freeMap.bitCnt = s.freeMap.bitCnt) s := by
  have hs' : SectorsOk s.size s.disk s.freeMap (fun y => live y ∧ y ≠ x) :=
    hs.restrict fun y hy => hy.1
  have halone : ∀ y z, live y ∧ y ≠ x → Occupies s.disk y z → ¬ Occupies s.disk x z :=
    fun y z hy ho ho' => hy.2 (hs.owned.owner_unique hy.1 hx ho ho')
  simp only [wp_bind]
  refine wp_mono (freeMapRelease_sectors hs' hmap ⟨hlive, hne.symm⟩ ⟨?_, ?_⟩ ?_) ?_
  · have hlt := hs.header_lt hx
    have hcnt := hs.bitCnt_eq
    omega
  · intro y hlo hhi
    obtain rfl : y = x := by omega
    exact hs.owned.used_of_occupies hx (.inl rfl)
  · intro y z hy ho hz
    exact halone y z hy ho (.inl (by omega))
  rintro _ t ⟨hsecs, htables, hkeep, hmarked⟩
  have hmap' := hmap.congr htables (hkeep.header ⟨hlive, hne.symm⟩) hmarked.bitCnt_eq
  refine wp_mono (freeMapRelease_sectors hsecs hmap' ⟨hlive, hne.symm⟩ ⟨?_, ?_⟩ ?_) ?_
  · rw [hmarked.bitCnt_eq, hs.bitCnt_eq]
    exact (hs.fits hx).extent_le
  · intro y hlo hhi
    have hin : InExtent (headerAt s.disk x) y := ⟨hlo, hhi⟩
    have hyx : y ≠ x := fun he => hs.apart hx (he ▸ hin)
    rw [hmarked.get_eq, if_neg (by omega)]
    exact hs.owned.used_of_occupies hx (.inr hin)
  · intro y z hy ho hz
    have ho' : Occupies s.disk y z := by simpa only [Occupies, hkeep.header hy] using ho
    exact halone y z hy ho' (.inr hz)
  · rintro _ u ⟨hsecs', htables', hkeep', hmarked'⟩
    exact ⟨hsecs', htables.trans htables', hkeep.trans hkeep',
      hmarked'.bitCnt_eq.trans hmarked.bitCnt_eq⟩

end

end Release

/-! ## The directory and what surrounds it -/

structure InodesOk (s : Fs) : Prop where
  nodup : (s.openInodes.map Inode.addr).Nodup
  opened : ∀ inode ∈ s.openInodes, 1 ≤ inode.openCnt
  fresh : ∀ inode ∈ s.openInodes, inode.addr < s.nextAddress

namespace InodesOk

variable {s : Fs} (h : InodesOk s) (sector : Nat)

include h

lemma findAt_push {addr : Nat} {inode : Inode}
    (hfind : findAt Inode.addr s.openInodes addr = some inode) :
    findAt Inode.addr (newInode s sector :: s.openInodes) addr = some inode := by
  obtain ⟨hmem, rfl⟩ := (findAt_eq_some h.nodup).mp hfind
  rw [← hfind, findAt, find?_cons_of_neg]
  · rfl
  · simp [newInode, (h.fresh inode hmem).ne']

lemma push : InodesOk (s.bump.setInodes (newInode s sector :: s.openInodes)) where
  nodup := by
    refine nodup_cons.mpr ⟨?_, h.nodup⟩
    intro hmem
    obtain ⟨i, hi, heq⟩ := mem_map.mp hmem
    exact (h.fresh i hi).ne heq
  opened i hi := by
    rcases mem_cons.mp hi with rfl | hi
    · exact le_rfl
    · exact h.opened i hi
  fresh i hi := by
    rcases mem_cons.mp hi with rfl | hi
    · exact Nat.lt_succ_self _
    · exact (h.fresh i hi).trans (Nat.lt_succ_self _)

end InodesOk

structure Surroundings where
  dir : Inode
  mapFile : File
  mapInode : Inode

def Surroundings.Live (c : Surroundings) (files : Set Nat) (sector : Nat) : Prop :=
  sector = c.dir.sector ∨ sector = c.mapInode.sector ∨ sector ∈ files

structure Stores (c : Surroundings) (s : Fs) (m : DirModel) : Prop where
  sectors : SectorsOk s.size s.disk s.freeMap (c.Live m.files)
  directory : IsDirectory s c.dir m.entries
  header : headerAt s.disk c.dir.sector = c.dir.data
  map : MapOpen s c.mapFile c.mapInode
  inodes : InodesOk s
  apart : c.dir.sector ≠ c.mapInode.sector
  dirAlone : c.dir.sector ∉ m.files
  mapAlone : c.mapInode.sector ∉ m.files
  named : ∀ name sector, m.entries name = some sector → sector ∈ m.files
  unique : ∀ name name' sector, m.entries name = some sector →
    m.entries name' = some sector → name = name'

section Steps

variable {c : Surroundings} {s t : Fs} {m : DirModel} {inode : Inode} {addr : Nat}

namespace Stores

variable (h : Stores c s m)

include h

lemma spend (k : Nat) : Stores c (s.spend k) m :=
  ⟨h.sectors, h.directory.spend k, h.header,
    h.map.congr ⟨rfl, rfl, rfl, rfl, rfl, le_rfl⟩ rfl rfl,
      ⟨h.inodes.nodup, h.inodes.opened, h.inodes.fresh⟩, h.apart,
    h.dirAlone, h.mapAlone, h.named, h.unique⟩

lemma setInodes {inodes : List Inode} {nextAddress : Nat}
    (hdir : findAt Inode.addr inodes c.dir.addr = some c.dir)
    (hmap : findAt Inode.addr inodes c.mapFile.inode = some c.mapInode)
    (hok : InodesOk { s with openInodes := inodes, nextAddress }) :
    Stores c { s with openInodes := inodes, nextAddress } m where
  sectors := h.sectors
  directory := ⟨h.directory.heapOk, hdir, h.directory.fits, h.directory.writable, h.directory.table⟩
  header := h.header
  map := ⟨h.map.pointer, h.map.foundFile, hmap, h.map.writable, h.map.header, h.map.length⟩
  inodes := hok
  apart := h.apart
  dirAlone := h.dirAlone
  mapAlone := h.mapAlone
  named := h.named
  unique := h.unique

section

variable (hfind : findAt Inode.addr s.openInodes addr = some inode)

include hfind

lemma other
    (hfile : inode.sector ∈ m.files) : addr ≠ c.dir.addr ∧ addr ≠ c.mapFile.inode := by
  constructor
  · rintro rfl
    rw [h.directory.found, some.injEq] at hfind
    exact h.dirAlone (hfind ▸ hfile)
  · rintro rfl
    rw [h.map.foundInode, some.injEq] at hfind
    exact h.mapAlone (hfind ▸ hfile)

lemma update {f : Inode → Inode} (hfile : inode.sector ∈ m.files)
    (haddr : ∀ i, (f i).addr = i.addr) (hcnt : 1 ≤ (f inode).openCnt) :
    Stores c (s.setInodes (updateAt Inode.addr s.openInodes addr f)) m := by
  obtain ⟨hdir, hmap⟩ := h.other hfind hfile
  refine h.setInodes ?_ ?_ ⟨?_, ?_, ?_⟩
  · rw [findAt_updateAt_of_ne haddr hdir.symm]
    exact h.directory.found
  · rw [findAt_updateAt_of_ne haddr hmap.symm]
    exact h.map.foundInode
  · simp only [map_updateAt Inode.addr haddr]
    exact h.inodes.nodup
  · refine forall_mem_updateAt h.inodes.opened fun j hj hja => ?_
    rw [(findAt_eq_some h.inodes.nodup).mpr ⟨hj, hja⟩, some.injEq] at hfind
    exact hfind ▸ hcnt
  · exact forall_mem_updateAt h.inodes.fresh fun j hj _ => haddr j ▸ h.inodes.fresh j hj

end

lemma forget (hx : ∀ name, m.entries name ≠ some x) :
    Stores c s { m with files := {y | y ∈ m.files ∧ y ≠ x} } where
  sectors := h.sectors.restrict fun y hy => by
    rcases hy with hy | hy | hy
    · exact .inl hy
    · exact .inr (.inl hy)
    · exact .inr (.inr hy.1)
  directory := h.directory
  header := h.header
  map := h.map
  inodes := h.inodes
  apart := h.apart
  dirAlone hin := h.dirAlone hin.1
  mapAlone hin := h.mapAlone hin.1
  named name sector hname := ⟨h.named name sector hname, fun he => hx name (he ▸ hname)⟩
  unique := h.unique

lemma write (k : Nat) (hchange : ChangesOnly (InExtent c.dir.data) s.disk disk)
    {entries : CString → Option Nat} (htab : Table disk c.dir.data entries)
    (hnamed : ∀ name sector, entries name = some sector → sector ∈ m.files)
    (hunique : ∀ name name' sector, entries name = some sector →
      entries name' = some sector → name = name') :
    Stores c ((s.spend k).setDisk disk) { m with entries } ∧
      Keeps (c.Live m.files) (· = c.dir.sector) s.disk disk := by
  have hlive : c.Live m.files c.dir.sector := .inl rfl
  have hkeep : Keeps (c.Live m.files) (· = c.dir.sector) s.disk disk :=
    h.sectors.keeps_of_extent hlive (h.header ▸ hchange)
  refine ⟨⟨h.sectors.keeps hkeep rfl fun x y hx ho => h.sectors.owned.used_of_occupies hx ho,
    ?_, ?_, ?_, ⟨h.inodes.nodup, h.inodes.opened, h.inodes.fresh⟩, h.apart, h.dirAlone,
    h.mapAlone, hnamed, hunique⟩, hkeep⟩
  · exact ⟨h.directory.heapOk, h.directory.found, h.directory.fits, h.directory.writable, htab⟩
  · exact (hkeep.header hlive).trans h.header
  · exact h.map.congr ⟨rfl, rfl, rfl, rfl, rfl, le_rfl⟩ (hkeep.header (.inr (.inl rfl))) rfl

end Stores

lemma inExtent_entry {k j : Nat} (hfit : Fits size data) (hk : k < entryCnt data)
    (hj : j < dirEntrySize) : InExtent data ((entryAddress data k + j) / sectorSize) := by
  have hroom := length_le_bytesToSectors hfit.length_nonneg hfit.length_lt
  simp only [InExtent, entryAddress, entryCnt, sectorSize, dirEntrySize] at hk hj ⊢
  omega

lemma Stores.released (h : Stores c s m) (hx : x ∈ m.files)
    (hunnamed : ∀ name, m.entries name ≠ some x)
    (hsecs : SectorsOk t.size t.disk t.freeMap (fun y => c.Live m.files y ∧ y ≠ x))
    (htables : SameTables s t)
    (hkeep : Keeps (fun y => c.Live m.files y ∧ y ≠ x) (· = c.mapInode.sector) s.disk t.disk)
    (hcnt : t.freeMap.bitCnt = s.freeMap.bitCnt) :
    Stores c t { m with files := {y | y ∈ m.files ∧ y ≠ x} } := by
  have hforget := h.forget hunnamed
  have hdir : c.Live m.files c.dir.sector ∧ c.dir.sector ≠ x :=
    ⟨.inl rfl, fun he => h.dirAlone (he ▸ hx)⟩
  have hmap : c.Live m.files c.mapInode.sector ∧ c.mapInode.sector ≠ x :=
    ⟨.inr (.inl rfl), fun he => h.mapAlone (he ▸ hx)⟩
  refine ⟨hsecs.restrict ?_, ⟨?_, ?_, ?_, h.directory.writable, ?_⟩,
    (hkeep.header hdir).trans h.header, h.map.congr htables (hkeep.header hmap) hcnt,
    ⟨?_, ?_, ?_⟩, h.apart, hforget.dirAlone, hforget.mapAlone, hforget.named, h.unique⟩
  · rintro y (rfl | rfl | hy)
    · exact hdir
    · exact hmap
    · exact ⟨.inr (.inr hy.1), hy.2⟩
  · simpa only [Fs.HeapOk, htables.heapOk] using h.directory.heapOk
  · rw [htables.openInodes]
    exact h.directory.found
  · rw [htables.size]
    exact h.directory.fits
  · refine h.directory.table.congr fun k hk j hj => hkeep.data hdir h.apart _ ?_
    rw [h.header]
    exact inExtent_entry h.directory.fits hk hj
  · rw [htables.openInodes]
    exact h.inodes.nodup
  · rw [htables.openInodes]
    exact h.inodes.opened
  · intro i hi
    rw [htables.openInodes] at hi
    exact (h.inodes.fresh i hi).trans_le htables.nextAddress

/-! ## Opening and unlinking a file -/

lemma inodeOpen_stores (h : Stores c s m) (hx : x ∈ m.files) :
    wp (inodeOpen x) (fun r t => Stores c t m ∧ t.disk = s.disk ∧ ∃ inode,
      r = some inode.addr ∧ findAt Inode.addr t.openInodes inode.addr = some inode ∧
      inode.sector = x ∧ (inode.openCnt = 1 → inode.data = headerAt s.disk x)) s := by
  have hlt : x < s.size := h.sectors.header_lt (.inr (.inr hx))
  refine wp_mono (inodeOpen_wp h.inodes.nodup hlt) ?_
  rintro r t (⟨inode, hmem, rfl, rfl, rfl⟩ | ⟨hnew, -, rfl, rfl⟩ | ⟨-, hno, -⟩)
  · have hfind := (findAt_eq_some h.inodes.nodup).mpr ⟨hmem, rfl⟩
    have hcnt := h.inodes.opened inode hmem
    refine ⟨h.update hfind hx (fun _ => rfl) (by simp only; omega), rfl,
      { inode with openCnt := inode.openCnt + 1 }, rfl, ?_, rfl, fun hone => ?_⟩
    · simp only [Fs.setInodes_openInodes, reopened]
      rw [findAt_updateAt_self (by exact fun _ => rfl), hfind]
      rfl
    · simp only at hone
      omega
  · have hspent := h.spend 1
    exact ⟨hspent.setInodes (hspent.inodes.findAt_push x h.directory.found)
      (hspent.inodes.findAt_push x h.map.foundInode) (hspent.inodes.push x), rfl, newInode s x,
      rfl, find?_cons_of_pos (by simp), rfl, fun _ => rfl⟩
  · exact absurd h.directory.heapOk hno

lemma getInumber_stores (hfind : findAt Inode.addr s.openInodes addr = some inode)
    {Q : Nat → Fs → Prop} : wp (inodeGetInumber addr) Q s ↔ Q inode.sector s := by
  simp only [inodeGetInumber, wp_bind, wp_getInode hfind, wp_pure]

lemma unlink_stores (h : Stores c s m)
    (hfind : findAt Inode.addr s.openInodes addr = some inode) (hfile : inode.sector ∈ m.files)
    (hdata : inode.openCnt = 1 → inode.data = headerAt s.disk inode.sector)
    (hunnamed : ∀ name, m.entries name ≠ some inode.sector) : wp (do
        inodeRemove addr
        inodeClose (some addr))
      (fun _ t => Stores c t { m with files := {y | y ∈ m.files ∧ y ≠ inode.sector} }) s := by
  let marked : Inode := { inode with removed := true }
  have hcount : 1 ≤ inode.openCnt :=
    h.inodes.opened inode ((findAt_eq_some h.inodes.nodup).mp hfind).1
  have hmarked : Stores c (s.setInodes (markedRemoved s.openInodes addr)) m :=
    h.update hfind hfile (fun _ => rfl) hcount
  have hfind' : findAt Inode.addr (markedRemoved s.openInodes addr) addr = some marked := by
    rw [markedRemoved, findAt_updateAt_self (by exact fun _ => rfl), hfind]
    rfl
  simp only [inodeRemove, inodeClose, wp_bind, wp_getInode hfind, wp_modify,
    wp_pure, wp_getInode (s := s.setInodes (markedRemoved s.openInodes addr)) hfind', wp_ite]
  by_cases hlast : inode.openCnt - 1 = 0
  · have hone : inode.openCnt = 1 := by omega
    have hremove : removeAt Inode.addr (closed (markedRemoved s.openInodes addr) addr) addr =
        removeAt Inode.addr s.openInodes addr := by
      rw [closed, removeAt_updateAt (by exact fun _ => rfl), markedRemoved,
        removeAt_updateAt (by exact fun _ => rfl)]
    rw [if_pos hlast]
    simp only [marked, if_true, Fs.setInodes_openInodes, hremove]
    obtain ⟨hdir, hmap⟩ := h.other hfind hfile
    have hkept : ∀ {b i}, b ≠ addr → findAt Inode.addr s.openInodes b = some i →
        findAt Inode.addr (removeAt Inode.addr s.openInodes addr) b = some i := by
      intro b i hb hi
      obtain ⟨hmem, rfl⟩ := (findAt_eq_some h.inodes.nodup).mp hi
      exact (findAt_eq_some (nodup_removeAt h.inodes.nodup addr)).mpr
        ⟨mem_removeAt.mpr ⟨hmem, hb⟩, rfl⟩
    have hclosed : Stores c (s.setInodes (removeAt Inode.addr s.openInodes addr)) m :=
      h.setInodes (hkept hdir.symm h.directory.found) (hkept hmap.symm h.map.foundInode)
        ⟨nodup_removeAt h.inodes.nodup addr, fun i hi => h.inodes.opened i (mem_removeAt.mp hi).1,
          fun i hi => h.inodes.fresh i (mem_removeAt.mp hi).1⟩
    have hne : inode.sector ≠ c.mapInode.sector := fun he => h.mapAlone (he ▸ hfile)
    have hrelease := releaseFile_sectors hclosed.sectors hclosed.map (.inr (.inl rfl))
      (.inr (.inr hfile)) hne
    simp only [wp_bind, Fs.setInodes_disk, ← hdata hone] at hrelease
    refine wp_mono hrelease fun _ _ hsecond => wp_mono hsecond ?_
    rintro _ t ⟨hsecs, htables, hkeep, hcnt⟩
    exact hclosed.released hfile hunnamed hsecs htables hkeep hcnt
  · rw [if_neg hlast]
    refine Stores.forget ?_ hunnamed
    exact hmarked.update hfind' hfile (fun _ => rfl) (by simp only [marked]; omega)

/-! ## The calls -/

section

variable (h : Stores c s m)

include h

lemma ofFiles (hsec : sector ∈ m.files) : sector < 2 ^ 32 := by
  have hlt := h.sectors.header_lt (.inr (.inr hsec))
  have hsize := h.sectors.size_le
  omega

lemma dirAdd_stores (name : CString) (hallows : m.Allows (.add name sector)) :
    wp (dirAdd ⟨c.dir.addr⟩ (some name) sector) (fun r t =>
      m.Answers (entryCnt c.dir.data) (.add name sector) (.done r) ∧
        Stores c t (m.next (entryCnt c.dir.data) (.add name sector))) s := by
  obtain ⟨hfile, hunnamed⟩ := hallows
  refine wp_mono (addEntry_spec h.directory name (ofFiles h hfile)) ?_
  rintro r t ⟨k, disk, rfl, hchange, htab, hiff⟩
  refine ⟨hiff, (h.write k hchange htab ?_ ?_).1⟩
  · intro other x hx
    unfold added at hx
    split at hx
    · by_cases hname : other = name
      · rw [hname, update_self, some.injEq] at hx
        exact hx ▸ hfile
      · rw [update_of_ne hname] at hx
        exact h.named other x hx
    · exact h.named other x hx
  · intro first second x hfirst hsecond
    unfold added at hfirst hsecond
    split at hfirst
    · rw [if_pos ‹_›] at hsecond
      simp only [update_apply] at hfirst hsecond
      -- the added sector had no name before
      split at hfirst <;> split at hsecond
      · rw [‹first = name›, ‹second = name›]
      · rw [← hfirst] at hsecond
        exact absurd hsecond (hunnamed second)
      · rw [← hsecond] at hfirst
        exact absurd hfirst (hunnamed first)
      · exact h.unique first second x hfirst hsecond
    · rw [if_neg ‹_›] at hsecond
      exact h.unique first second x hfirst hsecond

lemma dirLookup_stores (name : CString) :
    wp (dirLookup ⟨c.dir.addr⟩ (some name)) (fun r t => Stores c t m ∧
      match r with
      | none => m.entries name = none
      | some addr => ∃ inode, findAt Inode.addr t.openInodes addr = some inode ∧
          m.entries name = some inode.sector) s := by
  simp only [dirLookup, wp_bind]
  refine wp_mono (lookup_entry h.directory name) ?_
  rintro r t ⟨k, rfl, ⟨e, j, rfl, hentry, hsame⟩ | ⟨rfl, hnone⟩⟩
  · have hsec := (h.directory.table.entries_iff name _).mpr ⟨j, hentry, rfl⟩
    rw [← hsame.sector] at hsec
    refine wp_mono (inodeOpen_stores (h.spend k) (h.named _ _ hsec)) ?_
    rintro r t ⟨hstores, -, inode, rfl, hfind, hx, -⟩
    exact ⟨hstores, inode, hfind, hx ▸ hsec⟩
  · exact ⟨h.spend k, hnone⟩

lemma dirRemove_stores (name : CString) :
    wp (dirRemove ⟨c.dir.addr⟩ (some name)) (fun r t =>
      m.Answers (entryCnt c.dir.data) (.remove name) (.done r) ∧
        Stores c t (m.next (entryCnt c.dir.data) (.remove name))) s := by
  simp only [dirRemove, wp_bind]
  refine wp_mono (lookup_entry h.directory name) ?_
  rintro r t ⟨k, rfl, ⟨e, j, rfl, hentry, hsame⟩ | ⟨rfl, hnone⟩⟩
  · have hsec := (h.directory.table.entries_iff name _).mpr ⟨j, hentry, rfl⟩
    rw [← hsame.sector] at hsec
    simp only [wp_bind]
    generalize entrySector e 0 = x at hsec ⊢
    have hfile := h.named _ _ hsec
    refine wp_mono (inodeOpen_stores (h.spend k) hfile) ?_
    rintro r t ⟨hstores, hdisk, inode, rfl, hfind, rfl, hdata⟩
    simp only [wp_bind, wp_getInode hstores.directory.found]
    refine wp_mono (writeSlot_spec hstores.directory (clearEntry e) hentry.lt) ?_
    rintro r t' ⟨k', disk, rfl, rfl, hchange, hnew, hother⟩
    rw [hdisk] at hchange hother
    have htab : Table disk c.dir.data (Function.update m.entries name none) :=
      h.directory.table.erase hentry (fun l _ hl => hother l hl)
        (hnew.inUse.trans (entryInUse_clearEntry e))
    have hnames : ∀ other y, Function.update m.entries name none other = some y →
        other ≠ name ∧ m.entries other = some y := by
      intro other y hy
      by_cases hname : other = name
      · rw [hname, update_self] at hy
        contradiction
      · rw [update_of_ne hname] at hy
        exact ⟨hname, hy⟩
    obtain ⟨hwr, hkeep⟩ := hstores.write k' (hdisk ▸ hchange) htab
      (fun other y hy => h.named other y (hnames other y hy).2)
      (fun first second y hfirst hsecond =>
        h.unique first second y (hnames first y hfirst).2 (hnames second y hsecond).2)
    rw [if_neg (by simp)]
    have hunlink := unlink_stores hwr hfind hfile (fun hone => (hdata hone).trans (by
        rw [Fs.setDisk_disk, hkeep.header (.inr (.inr hfile)), hdisk]))
      (fun other hy => (hnames other _ hy).1 (h.unique _ _ _ (hnames other _ hy).2 hsec))
    simp only [wp_bind] at hunlink ⊢
    refine wp_mono hunlink fun _ _ hlast => wp_mono hlast ?_
    intro _ u hu
    refine ⟨by simp [DirModel.Answers, hsec], ?_⟩
    have hset : {y | y ∈ m.files ∧ m.entries name ≠ some y} =
        {y | y ∈ m.files ∧ y ≠ inode.sector} := by
      ext y
      rw [hsec]
      simp [eq_comm]
    simp only [DirModel.next, hset]
    exact hu
  · refine ⟨by simp [DirModel.Answers, hnone], ?_⟩
    have hupdate : Function.update m.entries name none = m.entries :=
      Function.update_eq_self_iff.mpr hnone.symm
    have hsame : m.next (entryCnt c.dir.data) (.remove name) = m := by
      simp [DirModel.next, hnone, hupdate]
    rw [hsame]
    exact h.spend k

end

structure InSession (c : Surroundings) (s : Session) (m : DirModel) : Prop where
  stores : Stores c s.fs m
  pos : ∃ i ≤ entryCnt c.dir.data, s.pos = dirEntrySize * i

lemma performDirOp_follows {s : Session} (h : InSession c s m) (op : DirOp)
    (hallows : m.Allows op) :
    wp (performDirOp ⟨c.dir.addr⟩ op) (fun r t => m.Answers (entryCnt c.dir.data) op r ∧
      InSession c t (m.next (entryCnt c.dir.data) op)) s := by
  cases op with
  | add name sector =>
    simp only [performDirOp, inSession, wp_bind, wp_zoom, wp_pure]
    refine wp_mono (dirAdd_stores h.stores name hallows) ?_
    rintro r t ⟨hanswer, ht⟩
    exact ⟨hanswer, ht, h.pos⟩
  | lookup name =>
    simp only [performDirOp, inSession, wp_bind, wp_zoom]
    refine wp_mono (dirLookup_stores h.stores name) ?_
    rintro (_ | addr) t ⟨ht, hres⟩
    · exact ⟨hres.symm, ht, h.pos⟩
    obtain ⟨inode, hfind, hsec⟩ := hres
    simp only [wp_bind, wp_zoom, getInumber_stores hfind, wp_pure]
    exact ⟨hsec.symm, ht, h.pos⟩
  | remove name =>
    simp only [performDirOp, inSession, wp_bind, wp_zoom, wp_pure]
    refine wp_mono (dirRemove_stores h.stores name) ?_
    rintro r t ⟨hanswer, ht⟩
    exact ⟨hanswer, ht, h.pos⟩
  | readdir =>
    obtain ⟨i, hi, hpos⟩ := h.pos
    simp only [performDirOp, inSession, wp_bind, wp_get, wp_zoom, wp_modify, wp_pure, hpos]
    refine wp_mono (readdir_spec h.stores.directory hi) ?_
    rintro r t ⟨k, j, rfl, hfirst, ⟨name, rfl, hentry⟩ | ⟨rfl, rfl⟩⟩
    · refine ⟨fun other hother => ?_, h.stores.spend k, j + 1, hentry.lt, rfl⟩
      obtain rfl := some.inj hother
      intro hnone
      exact h.stores.directory.table.eq_none_iff.mp hnone j hentry
    · exact ⟨fun _ hother => absurd hother (by simp), h.stores.spend k, _, le_rfl, rfl⟩

end Steps

/-! ## Creation -/

/-- A file system with the inodes `files`, in which `sector` is reserved for a directory. -/
structure Ready (s : Fs) (files : Set Nat) (sector : Nat) : Prop where
  heapOk : s.HeapOk
  map : ∃ file inode, MapOpen s file inode ∧ inode.sector ∉ files ∧
    SectorsOk s.size s.disk s.freeMap (fun x => x = inode.sector ∨ x ∈ files) ∧
    ∀ x, x = inode.sector ∨ x ∈ files → ¬ Occupies s.disk x sector
  inodes : InodesOk s
  lt : sector < s.size
  reserved : s.freeMap.get sector = true
  unopened : ∀ inode ∈ s.openInodes, inode.sector ≠ sector

section Create

variable {s t : Fs} {files : Set Nat} {entries : Nat} {dir : Dir}

lemma table_empty (hfit : Fits size data)
    (hzero : ∀ a, InExtent data (a / sectorSize) → disk a = 0) : Table disk data fun _ => none := by
  have hfree : ∀ k < entryCnt data, entryInUse disk (entryAddress data k) ≠ true := by
    intro k hk huse
    have hbyte := hzero _ (inExtent_entry hfit hk (show 19 < dirEntrySize by decide))
    simp [entryInUse, hbyte] at huse
  refine ⟨fun k hk huse => absurd huse (hfree k hk), fun hj _ => absurd hj.inUse (hfree _ hj.lt),
    fun name x => ?_⟩
  constructor
  · intro hnone
    contradiction
  · rintro ⟨k, hk, -⟩
    exact absurd hk.inUse (hfree k hk.lt)

lemma SectorsOk.create {map : Bitmap} {live : Nat → Prop} (hs : SectorsOk size disk map live)
    (data : InodeDisk) (hlt : sector < size) (hfit : Fits size data) (hout : ¬ InExtent data sector)
    (hspare : ∀ x y, live x → Occupies disk x y → ¬ (y = sector ∨ InExtent data y))
    (hused : ∀ y, y = sector ∨ InExtent data y → map.get y = true) :
    SectorsOk size (newInodeDisk disk sector data) map
    (fun x => x = sector ∨ live x) ∧ Keeps live (fun _ => False) disk
    (newInodeDisk disk sector data) ∧ headerAt (newInodeDisk disk sector data) sector = data := by
  have hkeep : Keeps live (fun _ => False) disk (newInodeDisk disk sector data) :=
    .of_changesOnly (changesOnly_newInodeDisk disk sector data)
      (fun x hx => hspare x x hx (.inl rfl)) (fun x hx _ y hy => hspare x y hx (.inr hy))
  have hhdr : headerAt (newInodeDisk disk sector data) sector = data := by
    have hextent := hfit.extent_le
    have hsize := hs.size_le
    exact headerAt_newInodeDisk disk (by omega) hfit.length_nonneg hfit.length_lt hout
  have hnew : ∀ y, Occupies (newInodeDisk disk sector data) sector y ↔
      y = sector ∨ InExtent data y := by
    intro y
    rw [Occupies, hhdr]
  refine ⟨⟨hs.size_le, hs.bitCnt_eq, ?_, ?_, ?_, ?_⟩, hkeep, hhdr⟩
  · rintro x (rfl | hx)
    · exact hlt
    · exact hs.header_lt hx
  · rintro x (rfl | hx)
    · rw [hhdr]
      exact hfit
    · rw [hkeep.header hx]
      exact hs.fits hx
  · rintro x (rfl | hx)
    · rwa [hhdr]
    rw [hkeep.header hx]
    exact hs.apart hx
  refine hs.owned.claim sector (fun _ hx => hx) ?_ ?_ ?_ fun _ hu => hu
  · intro x y hx hne ho
    have hlive := hx.resolve_left hne
    simpa only [Occupies, hkeep.header hlive] using ho
  · intro x y hx ho ho'
    exact hspare x y hx ho' ((hnew y).mp ho)
  · intro y ho
    exact hused y ((hnew y).mp ho)

lemma createDirectory_stores (hready : Ready s files sector)
    (hlo : 0 ≤ toSigned32 (entries * dirEntrySize)) :
    wp (createDirectory sector entries) (fun r t => ∀ dir, r = some dir → ∃ c,
      dir = ⟨c.dir.addr⟩ ∧ c.dir.data.length = toSigned32 (entries * dirEntrySize) ∧
        Stores c t ⟨fun _ => none, files⟩) s := by
  obtain ⟨file, inode, hmap, halone, hsecs, hidle⟩ := hready.map
  have hlive : inode.sector = inode.sector ∨ inode.sector ∈ files := .inl rfl
  have hhi : toSigned32 (entries * dirEntrySize) < 2 ^ 31 := by
    unfold toSigned32
    split <;> omega
  simp only [createDirectory, dirCreate, wp_bind]
  generalize toSigned32 (entries * dirEntrySize) = length at hlo hhi ⊢
  refine wp_mono (inodeCreate_spec (hmap.store (hsecs.fits hlive)) hlo hready.lt hsecs.bitCnt_eq) ?_
  rintro r t ⟨k, ⟨start, map, rfl, hfirst, hmarked, rfl⟩ | ⟨written, n, rfl, -, -, rfl⟩⟩
  · -- the extent of the directory was free
    have hfree : ∀ y, InExtent ⟨start, length⟩ y → s.freeMap.get y = false :=
      fun y hy => hfirst.1.2 y hy.1 hy.2
    have hfit : Fits s.size ⟨start, length⟩ :=
      ⟨hsecs.size_le, hlo, hhi, hsecs.bitCnt_eq ▸ hfirst.1.1⟩
    have hkeepMap := keeps_saveMap hsecs hmap hlive map le_rfl
    have hsaved := hsecs.keeps hkeepMap hmarked.bitCnt_eq fun x y hx ho => by
      rw [hmarked.get_eq]
      split
      · rfl
      · exact hsecs.owned.used_of_occupies hx ho
    have hsec : s.freeMap.get sector = true := hready.reserved
    obtain ⟨hcreated, hkeep, hhdr⟩ := hsaved.create ⟨start, length⟩ hready.lt hfit
      (fun hin => by simp [hfree sector hin] at hsec) (fun x y hx ho hy => by
        simp only [Occupies, hkeepMap.header hx] at ho
        rcases hy with rfl | hy
        · exact hidle x hx ho
        · exact absurd (hsecs.owned.used_of_occupies hx ho) (by simp [hfree y hy]))
      (fun y hy => by
        rw [hmarked.get_eq]
        rcases hy with rfl | hy
        · simp [hsec]
        · exact if_pos hy)
    let data : InodeDisk := ⟨start, length⟩
    let made := (s.save (some inode.data) k map map (Bitmap.byteCnt s.freeMap.bitCnt)).setDisk
      (newInodeDisk (saveTo (some inode.data) s.disk map (Bitmap.byteCnt s.freeMap.bitCnt))
        sector data)
    have hinodes : InodesOk (made.spend 1) :=
      ⟨hready.inodes.nodup, hready.inodes.opened, hready.inodes.fresh⟩
    have hmapMade : MapOpen made file inode := hmap.congr ⟨rfl, rfl, rfl, rfl, rfl, le_rfl⟩
      ((hkeep.header hlive).trans (hkeepMap.header hlive)) hmarked.bitCnt_eq
    simp only [if_true, wp_bind]
    refine wp_mono (inodeOpen_wp hinodes.nodup hready.lt) ?_
    rintro r t (⟨other, hmem, hsame, -⟩ | ⟨-, -, rfl, rfl⟩ | ⟨-, hno, -⟩)
    · exact absurd hsame (hready.unopened other hmem)
    · have hgranted : ∀ n, s.heapOk n = true := hready.heapOk
      simp only [dirOpen, wp_bind, wp_malloc, Fs.setInodes_heapOk, Fs.bump_heapOk,
        Fs.spend_heapOk, Fs.setDisk_heapOk, Fs.save_heapOk, hgranted, wp_pure]
      have hpush := hinodes.push sector
      rintro dir ⟨⟩
      refine ⟨⟨newInode made sector, file, inode⟩, rfl, congrArg InodeDisk.length hhdr, ?_⟩
      exact
        { sectors := hcreated
          directory :=
            { heapOk := hready.heapOk
              found := find?_cons_of_pos (decide_eq_true rfl)
              fits := hhdr ▸ hfit
              writable := rfl
              table := table_empty (hhdr ▸ hfit) fun a ha => newInodeDisk_data _ _ _ (hhdr ▸ ha) }
          header := rfl
          map := ⟨hmapMade.pointer, hmapMade.foundFile,
            hinodes.findAt_push sector hmapMade.foundInode,
            hmapMade.writable, hmapMade.header, hmapMade.length⟩
          inodes := ⟨hpush.nodup, hpush.opened, hpush.fresh⟩
          apart := fun he => hidle _ hlive (.inl he)
          dirAlone := fun hin => hidle sector (.inr hin) (.inl rfl)
          mapAlone := halone
          named := fun _ _ hnone => absurd hnone (by simp)
          unique := fun _ _ _ hnone => absurd hnone (by simp) }
    · exact absurd hready.heapOk hno
  · simp

end Create

/-! ## Every sequence of calls -/

def slotCnt (entries : Nat) : Nat := (toSigned32 (entries * dirEntrySize)).toNat / dirEntrySize

structure Behaves (dir : Dir) (s : Fs) (slots : Nat) (entries : CString → Option Nat) : Prop where
  stored : ∃ inode, findAt Inode.addr s.openInodes dir.inode = some inode ∧
    entryCnt inode.data = slots ∧ Table s.disk inode.data entries
  listed : wp (listing dir (slots + 1) 0) (fun r _ => ∃ names, r = some names ∧
    names.Nodup ∧ ∀ name, name ∈ names ↔ entries name ≠ none) s

lemma Stores.behaves {c : Surroundings} {s : Fs} {m : DirModel} (h : Stores c s m) :
    Behaves ⟨c.dir.addr⟩ s (entryCnt c.dir.data) m.entries where
  stored := ⟨c.dir, h.directory.found, rfl, h.directory.table⟩
  listed := by
    refine wp_mono (listing_spec h.directory _ 0 0 (Nat.zero_le _) (Nat.lt_succ_self _)) ?_
    rintro r t ⟨k, names, -, rfl, hnodup, hmem⟩
    refine ⟨names, rfl, hnodup, fun name => ?_⟩
    rw [hmem, ne_eq, h.directory.table.eq_none_iff, not_forall_not]
    exact ⟨fun ⟨j, _, hj⟩ => ⟨j, hj⟩, fun ⟨j, hj⟩ => ⟨j, Nat.zero_le j, hj⟩⟩

def DirSteps (slots : Nat) (m : DirModel) (ops : List DirOp) (results : List DirResult)
    (m' : DirModel) : Prop :=
  Steps (fun m op r m' => m.Answers slots op r ∧ m' = m.next slots op) m ops results m'

theorem directory_isFiniteMap {s t : Fs} {files : Set Nat} {sector entries : Nat} {dir : Dir}
    (hready : Ready s files sector) (hcreate : createDirectory sector entries s = .ok (some dir, t))
    {ops : List DirOp} (hops : Meets (fun m op => some (m.next (slotCnt entries) op))
      DirModel.Allows ⟨fun _ => none, files⟩ ops) :
    wp (runAll (performDirOp dir) ops) (fun results u => ∃ m,
      DirSteps (slotCnt entries) ⟨fun _ => none, files⟩ ops results m ∧
        Behaves dir u.fs (slotCnt entries) m.entries) ⟨t, 0⟩ := by
  have hlo : 0 ≤ toSigned32 (entries * dirEntrySize) := by
    have hreturns : wp (createDirectory sector entries) (fun _ _ => True) s :=
      (wp_of_ok hcreate).mpr trivial
    simp only [createDirectory, dirCreate, inodeCreate, wp_bind, wp_require] at hreturns
    exact hreturns.1
  obtain ⟨c, rfl, hlength, hstores⟩ :=
    (wp_of_ok hcreate).mp (createDirectory_stores hready hlo) dir rfl
  have hslots : entryCnt c.dir.data = slotCnt entries := by rw [entryCnt, hlength, slotCnt]
  rw [← hslots] at hops ⊢
  have hsession : InSession c ⟨t, 0⟩ ⟨fun _ => none, files⟩ := ⟨hstores, 0, Nat.zero_le _, rfl⟩
  refine wp_mono (runAll_follows (R := InSession c)
    (fun op s m h hallows => performDirOp_follows h op hallows) ops hsession hops) ?_
  rintro results u ⟨hsteps, hu⟩
  exact ⟨_, hsteps, hu.stores.behaves⟩

/-! ## A small file system -/

-- Sector 0 is the header of the free map, which is in sector 2; sector 1 is reserved and
-- sector 3 is the header of an empty file.
def smallDisk : Memory := fun a =>
  if a = 0 then 2 else if a = 4 then 4 else if a = 1024 then 15 else 0

def smallFs : Fs where
  size := 8
  disk := smallDisk
  freeMap := ⟨8, [15], by simp, by norm_num⟩
  freeMapFile := some 1
  openInodes := [⟨0, 0, 1, false, 0, ⟨2, 4⟩⟩]
  files := [⟨1, 0, 0, false⟩]
  nextAddress := 2
  heapOk := fun _ => true
  garbage := fun _ _ => 0
  allocations := 0

def letterA : CString := ⟨[97], by simp⟩

lemma occupies_small {y : Nat} (hx : x = 0 ∨ x = 3) (ho : Occupies smallDisk x y) :
    (x = 0 ∧ (y = 0 ∨ y = 2)) ∨ (x = 3 ∧ y = 3) := by
  have hmap : headerAt smallDisk 0 = ⟨2, 4⟩ := by decide +kernel
  have hfile : headerAt smallDisk 3 = ⟨0, 0⟩ := by decide +kernel
  have hfour : bytesToSectors 4 = 1 := by decide +kernel
  have hzero : bytesToSectors 0 = 0 := by decide +kernel
  rcases hx with rfl | rfl
  · simp only [Occupies, hmap, InExtent, hfour] at ho
    omega
  · simp only [Occupies, hfile, InExtent, hzero] at ho
    omega

lemma smallFs_ready : Ready smallFs {3} 1 where
  heapOk _ := rfl
  map := by
    have hused : ∀ y, y = 0 ∨ y = 2 ∨ y = 3 → smallFs.freeMap.get y = true := by
      rintro y (rfl | rfl | rfl) <;> decide +kernel
    refine ⟨⟨1, 0, 0, false⟩, ⟨0, 0, 1, false, 0, ⟨2, 4⟩⟩,
      ⟨rfl, rfl, rfl, rfl, by decide +kernel, by decide +kernel⟩, by simp,
      ⟨by norm_num [smallFs], rfl, ?_, ?_, ?_, ⟨?_, ?_⟩⟩, ?_⟩
    · rintro x (rfl | rfl) <;> decide
    · rintro x (rfl | rfl)
      · exact ⟨by norm_num [smallFs], by decide +kernel, by decide +kernel, by decide +kernel⟩
      · exact ⟨by norm_num [smallFs], by decide +kernel, by decide +kernel, by decide +kernel⟩
    · rintro x (rfl | rfl) ⟨hlo, hhi⟩
      · revert hlo
        decide +kernel
      · revert hhi
        decide +kernel
    · intro x y hx ho
      have hxy := occupies_small hx ho
      exact hused y (by omega)
    · intro x x' y hx hx' ho ho'
      have hxy := occupies_small hx ho
      have hxy' := occupies_small hx' ho'
      omega
    · intro x hx ho
      have hxy := occupies_small hx ho
      omega
  inodes := ⟨by simp [smallFs], by simp [smallFs], by simp [smallFs]⟩
  lt := by decide
  reserved := by decide +kernel
  unopened := by simp [smallFs]

def smallRun (ops : List DirOp) : Option (Fault ⊕ List DirResult) :=
  match createDirectory 1 2 smallFs with
  | .ok (some dir, t) =>
    match runAll (performDirOp dir) ops ⟨t, 0⟩ with
    | .error fault => some (.inl fault)
    | .ok (results, _) => some (.inr results)
  | _ => none

lemma smallFs_created : ∃ dir t, createDirectory 1 2 smallFs = .ok (some dir, t) := by
  have hrun : smallRun [] = some (.inr []) := by decide +kernel
  unfold smallRun at hrun
  split at hrun
  · exact ⟨_, _, ‹_›⟩
  · contradiction

theorem directory_isFiniteMap_small : ∃ dir t, createDirectory 1 2 smallFs = .ok (some dir, t) ∧
    wp (runAll (performDirOp dir) [.add letterA 3, .lookup letterA, .remove letterA])
      (fun results u => ∃ m, DirSteps (slotCnt 2) ⟨fun _ => none, {3}⟩
          [.add letterA 3, .lookup letterA, .remove letterA] results m ∧
        Behaves dir u.fs (slotCnt 2) m.entries) ⟨t, 0⟩ := by
  obtain ⟨dir, t, hcreate⟩ := smallFs_created
  refine ⟨dir, t, hcreate, directory_isFiniteMap smallFs_ready hcreate ⟨⟨rfl, by simp⟩, ?_⟩⟩
  rintro _ ⟨⟩
  exact ⟨trivial, by rintro _ ⟨⟩; exact ⟨trivial, fun _ _ => trivial⟩⟩

/-- A sector that is not that of an inode can be added, but the entry cannot be removed. -/
theorem directory_strayEntry : ∃ dir t, createDirectory 1 2 smallFs = .ok (some dir, t) ∧
    (∃ u, runAll (performDirOp dir) [.add letterA 5] ⟨t, 0⟩ = .ok ([.done true], u)) ∧
    runAll (performDirOp dir) [.add letterA 5, .remove letterA] ⟨t, 0⟩ =
      .error (.assertion "bitmap_all (free_map, sector, cnt)") := by
  have hadd : smallRun [.add letterA 5] = some (.inr [.done true]) := by decide +kernel
  have hremove : smallRun [.add letterA 5, .remove letterA] =
      some (.inl (.assertion "bitmap_all (free_map, sector, cnt)")) := by decide +kernel
  obtain ⟨dir, t, hcreate⟩ := smallFs_created
  refine ⟨dir, t, hcreate, ?_, ?_⟩
  · cases hrun : runAll (performDirOp dir) [.add letterA 5] ⟨t, 0⟩ with
    | error fault => simp [smallRun, hcreate, hrun] at hadd
    | ok result =>
      obtain ⟨results, u⟩ := result
      simp only [smallRun, hcreate, hrun, some.injEq, Sum.inr.injEq] at hadd
      exact ⟨u, by rw [hadd]⟩
  · cases hrun : runAll (performDirOp dir) [.add letterA 5, .remove letterA] ⟨t, 0⟩ with
    | error fault =>
      simp only [smallRun, hcreate, hrun, some.injEq, Sum.inl.injEq] at hremove
      rw [hremove]
    | ok result => simp [smallRun, hcreate, hrun] at hremove

end Pintos.Filesys
