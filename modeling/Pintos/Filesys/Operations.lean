import Pintos.Filesys.Format
import Pintos.Filesys.Names
import Pintos.Foundation.Refinement

/-!
# Sequences of operations on files

A client names a file by a string and an open file by the address it was given.
It can use an address only while the file is open, and it never gets that of the
file of the free map: `runOp` stops on any other use.
-/

namespace Pintos.Filesys

open Foundation

/-- An `off_t`. -/
abbrev OffT := { i : Int // -2 ^ 31 ≤ i ∧ i < 2 ^ 31 }

inductive Op where
  | create (name : CString) (initialSize : OffT)
  | open (name : CString)
  | reopen (handle : Nat)
  | read (handle : Nat) (buffer : Memory) (size : OffT)
  | write (handle : Nat) (buffer : Memory) (size : OffT)
  | seek (handle : Nat) (pos : OffT)
  | remove (name : CString)
  | close (handle : Nat)

inductive Result where
  | created (success : Bool)
  | opened (handle : Option Nat)
  | read (count : Int) (buffer : Memory)
  | written (count : Int)
  | removed (success : Bool)
  | done

def requireHandle (handle : Nat) : FsAction Unit := do
  let s ← Action.get
  require (s.freeMapFile ≠ some handle) .misuse
  let _ ← getFile handle

def runOp : Op → FsAction Result
  | .create name initialSize => do
    let success ← filesysCreate (some name) initialSize
    return .created success
  | .open name => do
    let file ← filesysOpen (some name)
    return .opened file
  | .reopen handle => do
    requireHandle handle
    let file ← fileReopen handle
    return .opened file
  | .read handle buffer size => do
    requireHandle handle
    let (count, buffer) ← fileRead handle buffer size
    return .read count buffer
  | .write handle buffer size => do
    requireHandle handle
    let count ← fileWrite handle buffer size
    return .written count
  | .seek handle pos => do
    requireHandle handle
    fileSeek handle pos
    return .done
  | .remove name => do
    let success ← filesysRemove (some name)
    return .removed success
  | .close handle => do
    requireHandle handle
    fileClose (some handle)
    return .done

/-! ## What one operation does -/

def CallerFault (fault : Fault) : Prop :=
  fault = .misuse ∨ fault = .assertion "length >= 0" ∨ fault = .assertion "new_pos >= 0"

def StaleHandle (s : Fs) (handle : Nat) : Prop := ∀ header pos, ¬ ClientHandle s handle header pos

def Illegal (s : Fs) : Op → Prop
  | .create _ initialSize => initialSize.1 < 0
  | .open _ => False
  | .reopen handle => StaleHandle s handle
  | .read handle _ _ => StaleHandle s handle
  | .write handle _ _ => StaleHandle s handle
  | .seek handle pos => StaleHandle s handle ∨ pos.1 < 0
  | .remove _ => False
  | .close handle => StaleHandle s handle

inductive Effect (s t : Fs) : Op → Result → Prop
  | create {name : CString} {initialSize : OffT} {header slot : Nat} (tables : SameTables s t)
      (made : Created s t name initialSize header slot) :
      Effect s t (.create name initialSize) (.created true)
  | createFailed {name : CString} {initialSize : OffT} (tables : SameTables s t)
      (keeps : Keeps (Live s) (· = freeMapSector) s.disk t.disk) :
      Effect s t (.create name initialSize) (.created false)
  | open {name : CString} {i : Nat} {file : Option Nat} (bound : Binds s.disk name i)
      (opened : Opened s t file (slotSector s.disk i)) : Effect s t (.open name) (.opened file)
  | openFailed {name : CString} (device : SameDevice s t) (handles : SameHandles s t)
      (unbound : s.HeapOk → ∀ i, ¬ Binds s.disk name i) : Effect s t (.open name) (.opened none)
  | reopen {handle header : Nat} {pos : Int} {file : Option Nat}
      (handle_ok : ClientHandle s handle header pos) (opened : Opened s t file header) :
      Effect s t (.reopen handle) (.opened file)
  | read {handle header count : Nat} {pos : Int} {buffer : Memory} {size : OffT}
      (handle_ok : ClientHandle s handle header pos)
      (device : SameDevice s t) (progress : Progress s (headerAt s.disk header) size pos count)
      (moved : Moved s t handle header (pos + count)) : Effect s t (.read handle buffer size)
      (.read count (copy buffer 0 s.disk (dataAddress (headerAt s.disk header) pos) count))
  | write {handle header count : Nat} {pos : Int} {buffer : Memory} {size : OffT}
      (handle_ok : ClientHandle s handle header pos)
      (progress : Progress s (headerAt s.disk header) size pos count)
      (disk : t.disk = copy s.disk (dataAddress (headerAt s.disk header) pos) buffer 0 count)
      (live : ∀ x, Live t x ↔ Live s x) (keeps : Keeps (Live s) (· = header) s.disk t.disk)
      (moved : Moved s t handle header (pos + count)) :
      Effect s t (.write handle buffer size) (.written count)
  | seek {handle header : Nat} {pos : Int} {newPos : OffT}
      (handle_ok : ClientHandle s handle header pos) (device : SameDevice s t)
      (nonneg : 0 ≤ newPos.1) (moved : Moved s t handle header newPos) :
      Effect s t (.seek handle newPos) .done
  | remove {name : CString} {i : Nat} (handles : SameHandles s t)
      (removed : Removed s t name i) : Effect s t (.remove name) (.removed true)
  | removeFailed {name : CString} (device : SameDevice s t) (handles : SameHandles s t)
      (unbound : s.HeapOk → ∀ i, ¬ Binds s.disk name i) : Effect s t (.remove name) (.removed false)
  | close {handle header : Nat} {pos : Int} (handle_ok : ClientHandle s handle header pos)
      (live : ∀ x, Live t x → Live s x) (keeps : Keeps (Live t) (· = freeMapSector) s.disk t.disk)
      (handles : ∀ handle' x pos, ClientHandle t handle' x pos ↔
        ClientHandle s handle' x pos ∧ handle' ≠ handle) : Effect s t (.close handle) .done

section Steps

variable {s t : Fs}

section

variable (h : Sound s [])

include h

lemma requireHandle_outcome (handle : Nat) : outcome (requireHandle handle)
      (fun _ t => t = s ∧ ∃ header pos, ClientHandle s handle header pos)
      (fun fault => fault = .misuse ∧ StaleHandle s handle) s := by
  simp only [requireHandle, outcome_bind, outcome_get]
  refine outcome_require (fun hclient => ?_) fun hmap => ⟨rfl, ?_⟩
  · cases hfind : findAt File.addr s.files handle with
    | none =>
      simp only [getFile, outcome_bind, outcome_get, hfind, outcome_stop]
      refine ⟨trivial, ?_⟩
      rintro header pos ⟨-, file, hf, haddr, -⟩
      exact findAt_eq_none.mp hfind file hf haddr
    | some file =>
      simp only [getFile, outcome_bind, outcome_get, hfind, outcome_pure]
      obtain ⟨hf, haddr⟩ := (findAt_eq_some h.tables.files).mp hfind
      have href : file.inode ∈ references s [] := mem_map_of_mem hf
      obtain ⟨inode, hi, hiaddr⟩ := h.tables.counted.present _ href
      exact ⟨trivial, inode.sector, file.pos, hclient, file, hf, haddr, rfl, inode, hi, hiaddr, rfl⟩
  · rintro header pos ⟨hclient, -⟩
    exact hmap hclient

lemma withHandle_outcome {x : FsAction Result} {Q : Result → Fs → Prop} {P : Prop}
    {handle : Nat} (hx : ∀ header pos, ClientHandle s handle header pos →
      outcome x Q (fun fault => CallerFault fault ∧ P) s) (hP : StaleHandle s handle → P) :
    outcome (do
        requireHandle handle
        x) Q (fun fault => CallerFault fault ∧ P) s := by
  simp only [outcome_bind]
  refine outcome_mono (requireHandle_outcome h handle) ?_ ?_
  · rintro _ t ⟨rfl, header, pos, hc⟩
    exact hx header pos hc
  · rintro fault ⟨rfl, hstale⟩
    exact ⟨.inl rfl, hP hstale⟩

lemma runOp_outcome (op : Op) : outcome (runOp op)
      (fun r t => Sound t [] ∧ t.heapOk = s.heapOk ∧ Effect s t op r)
      (fun fault => CallerFault fault ∧ Illegal s op) s := by
  cases op with
  | create name initialSize =>
    simp only [runOp, outcome_bind, outcome_pure]
    by_cases hneg : initialSize.1 < 0
    · refine outcome_mono (filesysCreate_negative h name hneg) ?_ ?_
      · rintro r t ⟨rfl, ht, hst, hkeep⟩
        exact ⟨ht, hst.heapOk, .createFailed hst hkeep⟩
      · rintro fault rfl
        exact ⟨.inr (.inl rfl), hneg⟩
    refine outcome_of_wp (wp_mono (filesysCreate_spec h name (not_lt.mp hneg) initialSize.2.2) ?_)
    rintro r t ⟨ht, hst, htrue, hfalse⟩
    cases r with
    | true =>
      obtain ⟨header, slot, hmade⟩ := htrue rfl
      exact ⟨ht, hst.heapOk, .create hst hmade⟩
    | false => exact ⟨ht, hst.heapOk, .createFailed hst (hfalse rfl).1⟩
  | «open» name =>
    simp only [runOp, outcome_bind, outcome_pure]
    refine outcome_of_wp (wp_mono (filesysOpen_sound h name) ?_)
    rintro r t ⟨ht, ⟨i, hb, hopened⟩ | ⟨rfl, hdev, hsame, hunbound⟩⟩
    · exact ⟨ht, hopened.device.heapOk, .open hb hopened⟩
    · exact ⟨ht, hdev.heapOk, .openFailed hdev hsame hunbound⟩
  | reopen handle =>
    refine withHandle_outcome h (fun header pos hc => ?_) id
    simp only [outcome_bind, outcome_pure]
    refine outcome_of_wp (wp_mono (fileReopen_sound h hc) ?_)
    rintro r t ⟨ht, hopened⟩
    exact ⟨ht, hopened.device.heapOk, .reopen hc hopened⟩
  | read handle buffer size =>
    refine withHandle_outcome h (fun header pos hc => ?_) id
    simp only [outcome_bind, outcome_pure]
    refine outcome_of_wp (wp_mono (fileRead_sound h hc buffer size) ?_)
    rintro r t ⟨n, hprogress, rfl, ht, hdev, hmoved⟩
    exact ⟨ht, hdev.heapOk, .read hc hdev hprogress hmoved⟩
  | write handle buffer size =>
    refine withHandle_outcome h (fun header pos hc => ?_) id
    simp only [outcome_bind, outcome_pure]
    refine outcome_of_wp (wp_mono (fileWrite_sound h hc buffer size) ?_)
    rintro r t ⟨n, hprogress, rfl, hdisk, -, ht, hheap, hlive, hkeep, hmoved⟩
    exact ⟨ht, hheap, .write hc hprogress hdisk hlive hkeep hmoved⟩
  | seek handle newPos =>
    refine withHandle_outcome h (fun header pos hc => ?_) .inl
    simp only [outcome_bind, outcome_pure]
    by_cases hneg : newPos.1 < 0
    · simp only [fileSeek, outcome_bind]
      exact outcome_require (fun hlo => by omega) fun _ => ⟨.inr (.inr rfl), .inr hneg⟩
    refine outcome_of_wp (wp_mono (fileSeek_sound h hc (not_lt.mp hneg)) ?_)
    rintro _ t ⟨ht, hdev, hmoved⟩
    exact ⟨ht, hdev.heapOk, .seek hc hdev (not_lt.mp hneg) hmoved⟩
  | remove name =>
    simp only [runOp, outcome_bind, outcome_pure]
    refine outcome_of_wp (wp_mono (filesysRemove_sound h name) ?_)
    rintro r t ⟨ht, hheap, hsame, ⟨rfl, hdev, hunbound⟩ | ⟨rfl, i, hrem⟩⟩
    · exact ⟨ht, hheap, .removeFailed hdev hsame hunbound⟩
    · exact ⟨ht, hheap, .remove hsame hrem⟩
  | close handle =>
    refine withHandle_outcome h (fun header pos hc => ?_) id
    simp only [outcome_bind, outcome_pure]
    refine outcome_of_wp (wp_mono (fileClose_sound h hc) ?_)
    rintro _ t ⟨ht, hheap, hlive, hkeep, -, hhandles⟩
    exact ⟨ht, hheap, .close hc hlive hkeep hhandles⟩

lemma runAll_sound (ops : List Op) :
    outcome (runAll runOp ops) (fun _ t => Sound t []) CallerFault s := by
  refine runAll_invariant (fun op u hu => ?_) ops h
  exact outcome_mono (runOp_outcome hu op) (fun _ _ ht => ht.1) fun _ hbad => hbad.1

end

end Steps

/-! ## The sectors of live inodes -/

structure SectorsOwned (s : Fs) : Prop where
  inside : ∀ {header sector}, Live s header → Occupies s.disk header sector → sector < s.size
  used : ∀ {header sector}, Live s header → Occupies s.disk header sector →
    s.freeMap.get sector = true
  disjoint : ∀ {header header' sector}, Live s header → Live s header' → header ≠ header' →
    Occupies s.disk header sector → ¬ Occupies s.disk header' sector
  apart : ∀ {header}, Live s header → ¬ InExtent (headerAt s.disk header) header
  cached : ∀ inode ∈ s.openInodes, inode.data = headerAt s.disk inode.sector

def AllocatesUnowned (s : Fs) (cnt : Nat) : Prop :=
  ∀ start t, freeMapAllocate cnt s = .ok (some start, t) → ∀ header sector,
    Live s header → Occupies s.disk header sector → ¬ (start ≤ sector ∧ sector < start + cnt)

section Sectors

variable {s : Fs} {extra : List Nat}

lemma Sound.sectorsOwned (h : Sound s extra) : SectorsOwned s where
  inside hx ho := by
    rcases ho with rfl | hin
    · exact h.device.header_lt hx
    · exact hin.2.trans_le (h.device.fits hx).extent_le
  used hx ho := h.used hx ho
  disjoint hx hy hne ho ho' := hne (h.device.owned.owner_unique hx hy ho ho')
  apart hx := h.device.apart hx
  cached inode hi := (h.inodes inode hi).cached

lemma Sound.allocatesUnowned (h : Sound s extra) (cnt : Nat) : AllocatesUnowned s cnt := by
  intro start t hrun header sector hx ho hin
  obtain ⟨r, t', hrun', -, hsome, -⟩ := wp_iff.mp (freeMapAllocate_sound h cnt)
  rw [hrun] at hrun'
  cases hrun'
  have hfree := (hsome start rfl).1.1.2 sector hin.1 hin.2
  rw [h.used hx ho] at hfree
  contradiction

lemma Sound.allocatesUnowned_create (h : Sound s []) {dir : Option Dir}
    {u : Fs} (hopen : dirOpenRoot s = .ok (dir, u)) : AllocatesUnowned u 1 ∧ ∀ header v,
    freeMapAllocate 1 u = .ok (some header, v) → ∀ cnt, AllocatesUnowned (v.spend 1) cnt := by
  have hu : ∃ extra, Sound u extra := by
    obtain ⟨r, u', hopen', hcases⟩ := wp_iff.mp (dirOpenRoot_spec h)
    rw [hopen] at hopen'
    cases hopen'
    rcases hcases with ⟨k, -, rfl, -⟩ | ⟨-, -, hu, -⟩
    · exact ⟨_, h.openRoot k⟩
    · exact ⟨_, hu⟩
  obtain ⟨extra, hu⟩ := hu
  refine ⟨hu.allocatesUnowned 1, fun header v hrun cnt => ?_⟩
  obtain ⟨r, v', hrun', hv, -, -⟩ := wp_iff.mp (freeMapAllocate_sound hu 1)
  rw [hrun] at hrun'
  cases hrun'
  exact (hv.sound.spend (fun _ => False) 1).sound.allocatesUnowned cnt

end Sectors

/-- Every state after any sequence of operations on a formatted device. -/
theorem sectorsOwned_of_run (size : Nat) (disk : Memory) (heapOk : Nat → Bool)
    (garbage : Nat → Memory) (ops : List Op) : outcome (filesysInit true)
      (fun _ started => outcome (runAll runOp ops)
        (fun _ s => SectorsOwned s ∧ (∀ cnt, AllocatesUnowned s cnt) ∧
          ∀ dir u, dirOpenRoot s = .ok (dir, u) → AllocatesUnowned u 1 ∧
            ∀ header v, freeMapAllocate 1 u = .ok (some header, v) →
              ∀ cnt, AllocatesUnowned (v.spend 1) cnt) (fun fault => CallerFault fault ∧
          fault ≠ .assertion "bitmap_all (free_map, sector, cnt)") started)
      (fun _ => size < 4 ∨ 2 ^ 32 - 32 < size ∨ ∃ n, heapOk n = false)
      (.unstarted size disk heapOk garbage) := by
  refine outcome_mono (filesysInit_outcome size disk heapOk garbage) ?_ ?_
  · rintro _ started ⟨hstarted, -, -⟩
    refine outcome_mono (runAll_sound hstarted.sound ops) ?_ ?_
    · intro _ s hs
      exact ⟨hs.sectorsOwned, hs.allocatesUnowned, fun dir u => hs.allocatesUnowned_create⟩
    · rintro fault hcaller
      refine ⟨hcaller, ?_⟩
      rcases hcaller with rfl | rfl | rfl <;> decide
  · exact fun _ hbad => hbad.of_unstarted

/-! ## Failed creations -/

/-- The bits of the free map, in memory and in its file, the directory and the open inodes. -/
structure NoTrace (s t : Fs) : Prop where
  freeMap : t.freeMap = s.freeMap
  savedMap : ∀ i < s.size, bitAt t.disk (sectorSize * (headerAt t.disk freeMapSector).start) i =
      bitAt s.disk (sectorSize * (headerAt s.disk freeMapSector).start) i
  directory : SameFile s.disk t.disk rootDirSector
  openInodes : t.openInodes = s.openInodes

section FailedCreation

variable {s t : Fs} {name : CString} {length : Int}

lemma filesysCreate_denied (h : Sound s []) (hdenied : ¬ RootOpens s) :
    wp (filesysCreate (some name) length) (fun _ t => NoTrace s t) s := by
  rw [filesysCreate, wp_bind]
  refine wp_mono (dirOpenRoot_spec h) ?_
  rintro _ t (⟨k, -, -, hopens⟩ | ⟨rfl, -, -, hst, hdisk, hmap⟩)
  · exact absurd hopens hdenied
  simp only [createIn, wp_bind, wp_pure, ne_eq, not_true_eq_false, and_false, if_false, dirClose]
  exact ⟨hmap, fun i _ => by rw [hdisk], hdisk ▸ ⟨rfl, fun _ _ => rfl⟩, hst.openInodes⟩

lemma Leaked.ne {map map' : Bitmap} {header start : Nat}
    (h : Leaked map map' length header start) : map' ≠ map := by
  rintro rfl
  have hbefore := h.free.2 start (le_refl _) (by have := h.nonempty; omega)
  rw [h.marked.get_eq, if_pos ⟨le_refl _, by have := h.nonempty; omega⟩] at hbefore
  contradiction

lemma FailedMap.unchanged_iff (h : FailedMap s t name length) (hok : s.HeapOk) :
    t.freeMap = s.freeMap ↔ ¬ CreateLeaks s name length := by
  rcases h with ⟨hsame, hnot⟩ | ⟨header, start, hleaked, hrefuse⟩
  · exact ⟨fun _ => hnot hok, fun _ => hsame⟩
  have hleaks : CreateLeaks s name length := ⟨hleaked.nonempty, hrefuse hok, header, start,
    hleaked.header_first, hleaked.free, hleaked.avoids⟩
  exact ⟨fun hsame => absurd hsame hleaked.ne, fun hnot => absurd hleaks hnot⟩

lemma Sound.noTrace_iff (h : Sound s []) (ht : Sound t []) (hst : SameTables s t)
    (hkeep : Keeps (Live s) (· = freeMapSector) s.disk t.disk) (hok : s.HeapOk) :
    NoTrace s t ↔ t.freeMap = s.freeMap := by
  refine ⟨fun hno => hno.freeMap, fun hmap => ⟨hmap, fun i hi => ?_,
    hkeep.sameFile (live_root s) (by decide), hst.openInodes⟩⟩
  have hi' : i < s.freeMap.bitCnt := by
    rw [h.device.bitCnt_eq]
    exact hi
  have hsaved := ht.saved (by simpa [Fs.HeapOk, hst.heapOk] using hok) i (hmap ▸ hi')
  rw [hsaved, h.saved hok i hi', hmap]

end FailedCreation

section SmallDevice

attribute [local irreducible] wp

end SmallDevice

end Pintos.Filesys
