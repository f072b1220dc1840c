import Pintos.Filesys.Refines

/-!
# Shutting down and starting again

`filesys_done` closes the file of the free map, and `filesys_init (false)` reads
it back.  Nothing is written on the way: what the restarted file system has is
what every operation before has brought to the device.
-/

namespace Pintos.Filesys

open Foundation

def AllClosed (s : Fs) : Prop := ∀ handle header pos, ¬ ClientHandle s handle header pos

def HasFile (s : Fs) (name : CString) (bytes : List Byte) : Prop :=
  ∃ i, Binds s.disk name i ∧ contents s.disk (slotSector s.disk i) = bytes

structure SameStore (s t : Fs) : Prop where
  files : ∀ name bytes, HasFile t name bytes ↔ HasFile s name bytes
  bitCnt : t.freeMap.bitCnt = s.freeMap.bitCnt
  bits : ∀ i < s.freeMap.bitCnt, t.freeMap.get i = s.freeMap.get i

section

variable {s t : Fs} {a : Model} {addr : Nat}

/-! ## Shutting down -/

lemma Sound.only_map (h : Sound s []) (hclosed : AllClosed s) :
    ∃ file inode, s.files = [file] ∧ s.openInodes = [inode] ∧ s.freeMapFile = some file.addr ∧
      inode.addr = file.inode ∧ inode.sector = freeMapSector := by
  obtain ⟨file, hf, hptr, inode, hi, haddr, hsec⟩ := h.mapFile
  have hfiles : s.files = [file] := by
    refine eq_singleton_of_forall h.tables.files hf fun g hg => ?_
    by_contra hne
    have hother : s.freeMapFile ≠ some g.addr := by
      rw [hptr]
      intro heq
      exact hne (eq_of_addr_eq h.tables.files hg hf (some.inj heq).symm)
    obtain ⟨j, hj, hjaddr⟩ := h.tables.counted.present g.inode
      (mem_append_right _ (mem_map_of_mem hg))
    exact hclosed g.addr j.sector g.pos ⟨hother, g, hg, rfl, rfl, j, hj, hjaddr, rfl⟩
  refine ⟨file, inode, hfiles, ?_, hptr, haddr, hsec⟩
  refine eq_singleton_of_forall h.tables.counted.nodup hi fun j hj => ?_
  have hreferenced := h.tables.counted.referenced j hj
  simp only [references, hfiles, nil_append, map_cons, map_nil, mem_singleton] at hreferenced
  exact eq_of_addr_eq h.tables.counted.nodup hj hi (hreferenced.trans haddr.symm)

lemma filesysDone_spec (h : Sound s []) (hclosed : AllClosed s) :
    wp filesysDone (fun _ t => t = (s.setFiles []).setInodes []) s := by
  obtain ⟨file, inode, hfiles, hinodes, hptr, haddr, hsec⟩ := h.only_map hclosed
  have hi : inode ∈ s.openInodes := by simp [hinodes]
  have hcnt : inode.openCnt = 1 := by
    rw [h.tables.counted.count_eq inode hi, references, hfiles, haddr]
    simp
  have hrem : inode.removed = false := by
    by_contra hrem
    exact ((h.inodes inode hi).removed (by simpa using hrem)).2.1 hsec
  exact freeMapClose_last hfiles hinodes hptr haddr hcnt hrem
    (h.tables.handles file (by simp [hfiles])).2

/-! ## Starting again -/

/-- The state that `filesys_init (false)` makes of a device that was shut down. -/
structure Restarted (s t : Fs) : Prop where
  size : t.size = s.size
  disk : t.disk = s.disk
  heapOk : t.heapOk = s.heapOk
  bitCnt : t.freeMap.bitCnt = s.size
  bits : ∀ i < s.size, t.freeMap.get i =
    bitAt s.disk (sectorSize * (headerAt s.disk freeMapSector).start) i
  opened : ∃ addr, OnlyMapOpen t addr (headerAt t.disk freeMapSector)

lemma filesysInit_restarts {map : Bitmap} {live : Nat → Prop} (hfiles : s.files = [])
    (hheap : s.HeapOk) (h : DeviceOk s.size s.disk map live) (hmap : live freeMapSector) :
    wp (filesysInit false) (fun _ t => Restarted s t) s := by
  have hsize : 0 < s.size := h.header_lt hmap
  apply Action.wp_of_never
  simp only [filesysInit, outcome_bind, outcome_modify]
  refine outcome_mono (freeMapInit_outcome _) ?_ ?_
  · rintro _ _ ⟨k, map, rfl, hreserved⟩
    have hcnt : map.bitCnt = s.size := hreserved.bitCnt_eq
    refine outcome_mono (freeMapOpen_reads (s := ((s.setInodes []).spend k).setMap map) rfl
      hfiles hsize hcnt (h.fits hmap) h.mapLength) ?_ fun _ hbad => hbad hheap
    rintro _ _ ⟨m, j, rfl⟩
    refine ⟨rfl, rfl, rfl, hcnt, fun i hi => ?_, s.nextAddress, rfl, rfl, rfl, le_refl _⟩
    have hi' : i < map.bitCnt := hcnt ▸ hi
    have hbyte := Bitmap.div_lt_byteCnt map.bitCnt_le hi'
    refine (Bitmap.get_ofBytes map _ hi').trans ?_
    rw [bitAt, bitAt, copy_inside _ _ _ (by omega) (by simp only [Fs.setMap_freeMap]; omega)]
    simp
  · rintro _ (hzero | hlarge | hbad)
    · exact hsize.ne' hzero
    · exact absurd h.size_le (Nat.not_le.mpr hlarge)
    · exact hbad hheap

lemma OnlyMapOpen.allClosed {data : InodeDisk} (h : OnlyMapOpen s addr data) : AllClosed s := by
  rintro handle header pos ⟨hclient, file, hf, rfl, -⟩
  rw [h.files, mem_singleton] at hf
  rw [hf] at hclient
  exact hclient h.mapFile

namespace Restarted

variable (h : Restarted s t)

include h

lemma live_sub {x : Nat} (hx : Live t x) : Live s x := by
  obtain ⟨addr, hopen⟩ := h.opened
  simp only [Live, h.disk, hopen.inodes, mem_singleton, exists_eq_left] at hx ⊢
  tauto

variable (hs : Sound s [])

include hs

lemma sameStore (hheap : s.HeapOk) : SameStore s t where
  files name bytes := by rw [HasFile, h.disk, HasFile]
  bitCnt := h.bitCnt.trans hs.device.bitCnt_eq.symm
  bits i hi := by
    rw [h.bits i (hs.device.bitCnt_eq ▸ hi)]
    exact hs.saved hheap i hi

lemma live_iff (hclosed : AllClosed s) (x : Nat) : Live t x ↔ Live s x := by
  obtain ⟨addr, hopen⟩ := h.opened
  obtain ⟨_, inode, -, hinodes, -, -, hsec⟩ := hs.only_map hclosed
  simp only [Live, h.disk, hopen.inodes, hinodes, mem_singleton, exists_eq_left, hsec]

lemma sound_of_live (hheap : s.HeapOk) (hlive : ∀ x, Live t x → Live s x) : Sound t [] := by
  obtain ⟨addr, hopen⟩ := h.opened
  have hsame := h.sameStore hs hheap
  refine hopen.sound ?_ fun i hi => ?_
  · rw [h.size, h.disk]
    refine (hs.device.keeps (.refl _ (fun _ => False) _) (live_map s) (live_root s) id
      hsame.bitCnt ?_).restrict hlive
    intro x sector hx ho
    rw [hsame.bits sector]
    · exact hs.used hx ho
    rw [hs.device.bitCnt_eq]
    exact hs.sectorsOwned.inside hx ho
  · rw [h.bits i (h.bitCnt ▸ hi), h.disk]

lemma sound (hclosed : AllClosed s) (hheap : s.HeapOk) : Sound t [] :=
  h.sound_of_live hs hheap fun x => (h.live_iff hs hclosed x).mp

omit hs

lemma refines (hclosed : AllClosed s) (href : Refines s a) : Refines t a := by
  obtain ⟨place, hloc⟩ := href
  obtain ⟨addr, hopen⟩ := h.opened
  refine ⟨place, hloc.next (h.sound hloc.sound hclosed hloc.heap) h.heapOk ⟨fun name x => ?_,
    fun handle x pos => ?_⟩ (fun _ => id) rfl fun f hf => ?_⟩
  · rw [h.disk]
    exact hloc.index.names name x
  · rw [← hloc.index.handles handle x pos]
    exact iff_of_false (hopen.allClosed handle x pos) (hclosed handle x pos)
  · rw [h.disk]
    exact hloc.bytes f hf

end Restarted

/-! ## The remount -/

/-- `filesys_done ()` and then `filesys_init (false)`. -/
def remount : FsAction Unit := do
  filesysDone
  filesysInit false

lemma remount_spec (h : Sound s []) (hclosed : AllClosed s) (hheap : s.HeapOk) :
    wp remount (fun _ t => Restarted s t) s := by
  simp only [remount, wp_bind]
  refine wp_mono (filesysDone_spec h hclosed) ?_
  rintro _ _ rfl
  have hrestarts : wp (filesysInit false) (fun _ t => Restarted ((s.setFiles []).setInodes []) t)
      ((s.setFiles []).setInodes []) :=
    filesysInit_restarts rfl hheap h.device (live_map s)
  refine wp_mono hrestarts ?_
  exact fun _ t ht => ⟨ht.size, ht.disk, ht.heapOk, ht.bitCnt, ht.bits, ht.opened⟩

end

/-- After any operations on a formatted device, once all files are closed, shutting down and
starting again gives the same files and the same free map. -/
theorem remount_same (size : Nat) (disk : Memory) (garbage : Nat → Memory) (ops : List Op) :
    outcome (filesysInit true) (fun _ started => outcome (runAll runOp ops)
        (fun _ s => AllClosed s → wp remount (fun _ t => SameStore s t ∧ Sound t [] ∧
          ∀ a, Refines s a → Refines t a) s)
        (fun _ => StopsAt Model.Step Model.Illegal .empty ops) started)
      (fun _ => size < 4 ∨ 2 ^ 32 - 32 < size) (.unstarted size disk (fun _ => true) garbage) := by
  refine outcome_mono (run_refines size disk garbage ops) ?_ fun _ => id
  intro _ started hrun
  refine outcome_mono hrun ?_ fun _ => id
  rintro results s ⟨a, -, place, hloc⟩ hclosed
  refine wp_mono (remount_spec hloc.sound hclosed hloc.heap) ?_
  intro _ t ht
  exact ⟨ht.sameStore hloc.sound hloc.heap, ht.sound hloc.sound hclosed hloc.heap,
    fun b hb => ht.refines hclosed hb⟩

/-- Power may fail between any two operations, while files are open or removed. -/
theorem powerLoss_same (size : Nat) (disk : Memory) (garbage garbage' : Nat → Memory)
    (ops : List Op) : outcome (filesysInit true) (fun _ started => outcome (runAll runOp ops)
        (fun _ s => wp (filesysInit false) (fun _ t => SameStore s t ∧ Sound t [])
          (.unstarted s.size s.disk s.heapOk garbage'))
        (fun _ => StopsAt Model.Step Model.Illegal .empty ops) started)
      (fun _ => size < 4 ∨ 2 ^ 32 - 32 < size) (.unstarted size disk (fun _ => true) garbage) := by
  refine outcome_mono (run_refines size disk garbage ops) ?_ fun _ => id
  intro _ started hrun
  refine outcome_mono hrun ?_ fun _ => id
  rintro results s ⟨a, -, place, hloc⟩
  have h := hloc.sound
  refine wp_mono (filesysInit_restarts rfl hloc.heap h.device (live_map s)) ?_
  intro _ t ht
  have hre : Restarted s t := ⟨ht.size, ht.disk, ht.heapOk, ht.bitCnt, ht.bits, ht.opened⟩
  exact ⟨hre.sameStore h hloc.heap, hre.sound_of_live h hloc.heap fun _ => hre.live_sub⟩

end Pintos.Filesys
