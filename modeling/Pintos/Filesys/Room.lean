import Pintos.Filesys.Remount
import Pintos.Foundation.Bytes

/-!
# Room for new files

The model does not say when a file can be created.  It can when the free map
meets the two requests for sectors that a creation makes and the root directory
has an entry to spare.  `Room` says this of a list of creations, and the
operations on a file that keeps its name leave the room as it is.
-/

namespace Pintos.Filesys

open Foundation

variable (a : Model)

/-! ## Sectors and entries -/

def freeSlots (disk : Memory) : Finset Nat :=
  (Finset.range rootEntryCnt).filter fun i => entryInUse disk (slotAddress disk i) = false

def requests (sizes : List Nat) : List Nat := sizes.flatMap fun size => [1, bytesToSectors size]

structure Room (s : Fs) (sizes : List Nat) : Prop where
  sectors : ∃ map, Allots s.freeMap (requests sizes) map
  slots : sizes.length ≤ (freeSlots s.disk).card

section Room

variable {s t : Fs} {name : CString} {size : Nat} {sizes : List Nat}

lemma mem_freeSlots {disk : Memory} {i : Nat} :
    i ∈ freeSlots disk ↔ i < rootEntryCnt ∧ ¬ slotInUse disk i := by
  simp [freeSlots, slotInUse]

lemma Room.congr (h : Room s sizes) (hmap : t.freeMap = s.freeMap)
    (hslots : ∀ i < rootEntryCnt, SameSlot s.disk t.disk i) : Room t sizes where
  sectors := hmap ▸ h.sectors
  slots := by
    have hsame : freeSlots t.disk = freeSlots s.disk := by
      ext i
      rw [mem_freeSlots, mem_freeSlots]
      exact and_congr_right fun hi => not_congr (hslots i hi).inUse
    rw [hsame]
    exact h.slots

lemma Room.sameDevice (h : Room s sizes) (hdev : SameDevice s t) : Room t sizes :=
  h.congr hdev.freeMap fun i _ j _ => by rw [hdev.disk]

lemma Room.created (h : Room s (size :: sizes)) {header slot : Nat}
    (hcreated : Created s t name size header slot) (hok : s.HeapOk)
    (hallots : Allots s.freeMap [1, bytesToSectors size] t.freeMap) : Room t sizes where
  sectors := by
    obtain ⟨map, hall⟩ := h.sectors
    exact ⟨map, hallots.rest hall⟩
  slots := by
    have hfree : slot ∈ freeSlots s.disk :=
      mem_freeSlots.mpr ⟨hcreated.slot_lt, (hcreated.free hok).1⟩
    have hleft : freeSlots t.disk = (freeSlots s.disk).erase slot := by
      ext i
      rw [Finset.mem_erase, mem_freeSlots, mem_freeSlots]
      by_cases hi : i = slot
      · simp [hi, hcreated.inUse]
      refine ⟨fun hmem => ⟨hi, hmem.1, ?_⟩, fun hmem => ⟨hmem.2.1, ?_⟩⟩
      · exact fun huse => hmem.2 ((hcreated.others i hmem.1 hi).inUse.mpr huse)
      · exact fun huse => hmem.2.2 ((hcreated.others i hmem.2.1 hi).inUse.mp huse)
    have hslots := h.slots
    rw [hleft, Finset.card_erase_of_mem hfree]
    rw [length_cons] at hslots
    omega

lemma Room.can_create (h : Room s (size :: sizes)) (hvalid : ValidName name)
    (hunbound : ∀ i, ¬ Binds s.disk name i) : ¬ CannotCreate s name size := by
  rintro ((hbad | ⟨i, hb⟩ | hfull) | hnone)
  · exact hbad hvalid
  · exact hunbound i hb
  · have hpos : 0 < (freeSlots s.disk).card := Nat.lt_of_lt_of_le (Nat.succ_pos _) h.slots
    obtain ⟨i, hi⟩ := Finset.card_pos.mp hpos
    obtain ⟨hlt, hfree⟩ := mem_freeSlots.mp hi
    exact hfree (hfull i hlt)
  · obtain ⟨map, hall⟩ := h.sectors
    have hsplit : Allots s.freeMap ([1, bytesToSectors size] ++ requests sizes) map := hall
    obtain ⟨map', hfirst⟩ := hsplit.first
    exact hnone map' hfirst

end Room

def RoomFor (s : Fs) (sizes : List Nat) : Prop :=
  (allot s.freeMap (requests sizes)).isSome = true ∧ sizes.length ≤ (freeSlots s.disk).card

instance (s : Fs) (sizes : List Nat) : Decidable (RoomFor s sizes) :=
  inferInstanceAs (Decidable (_ ∧ _))

lemma RoomFor.room {s : Fs} {sizes : List Nat} (h : RoomFor s sizes) : Room s sizes := by
  obtain ⟨map, hmap⟩ := isSome_iff_exists.mp h.1
  exact ⟨⟨map, allots_of_allot hmap⟩, h.2⟩

/-! ## Storing a file -/

namespace Model

def store (a : Model) (name : CString) (bytes : List Byte) : Model where
  next := a.next + 1
  names := update a.names name (some a.next)
  bytes := update a.bytes a.next bytes
  handles := a.handles

lemma setHandle_setHandle (handle : Nat) (target target' : Option (Nat × Int)) :
    (a.setHandle handle target).setHandle handle target' = a.setHandle handle target' := by
  simp [setHandle]

lemma setHandle_none {a : Model} {handle : Nat} (h : a.handles handle = none) :
    a.setHandle handle none = a := by
  rw [setHandle, ← h, Function.update_eq_self]

@[simp] lemma setHandle_handles (handle : Nat) (target : Option (Nat × Int)) :
    (a.setHandle handle target).handles handle = target := update_self ..

@[simp] lemma setHandle_bytes (handle : Nat) (target : Option (Nat × Int)) :
    (a.setHandle handle target).bytes = a.bytes := rfl

@[simp] lemma store_bytes (name : CString) (bytes : List Byte) :
    (a.store name bytes).bytes a.next = bytes := update_self ..

@[simp] lemma store_names (name : CString) (bytes : List Byte) :
    (a.store name bytes).names name = some a.next := update_self ..

lemma store_names_of_ne {name name' : CString} (bytes : List Byte)
    (h : name' ≠ name) : (a.store name bytes).names name' = a.names name' :=
  update_of_ne h ..

lemma setBytes_store (name : CString) (bytes bytes' : List Byte) (handle : Nat)
    (target : Option (Nat × Int)) :
    ((a.store name bytes).setHandle handle target).setBytes a.next bytes' =
      (a.store name bytes').setHandle handle target := by
  simp [store, setHandle, setBytes]

lemma overwrite_next {buffer : Memory} (done now : List Byte) (later : Nat)
    (hbuf : ∀ i < now.length, buffer i = ofBytes now i) :
    overwrite (done ++ replicate (now.length + later) 0) done.length buffer now.length =
      (done ++ now) ++ replicate later 0 := by
  apply List.ext_getElem
  · simp [overwrite]
  intro i hi _
  simp only [overwrite, List.getElem_mapIdx]
  by_cases hdone : i < done.length
  · rw [if_neg (by omega), List.getElem_append_left hdone,
      List.getElem_append_left (by rw [length_append]; omega), List.getElem_append_left hdone]
  by_cases hnow : i < done.length + now.length
  · have hin : i - done.length < now.length := by omega
    rw [if_pos (by omega), hbuf _ hin, ofBytes_eq_getElem hin,
      List.getElem_append_left (by rw [length_append]; omega), List.getElem_append_right (by omega)]
  rw [if_neg (by omega), List.getElem_append_right (by omega),
    List.getElem_append_right (by rw [length_append]; omega), List.getElem_replicate,
    List.getElem_replicate]

end Model

section Refines

variable {s t : Fs} {a : Model} {name : CString} {file handle : Nat} {pos : Int}

section

variable (h : Refines s a)

include h

lemma Refines.hasFile_iff (bytes : List Byte) :
    HasFile s name bytes ↔ ∃ file, a.names name = some file ∧ a.bytes file = bytes := by
  obtain ⟨place, hloc⟩ := h
  constructor
  · rintro ⟨i, hb, rfl⟩
    obtain ⟨file, hname, hplace⟩ := hloc.index.bound hb
    exact ⟨file, hname, by rw [hloc.bytes file (.inl ⟨name, hname⟩), hplace]⟩
  · rintro ⟨file, hname, rfl⟩
    obtain ⟨i, hb, hsec⟩ := (hloc.index.names name _).mpr ⟨file, hname, rfl⟩
    exact ⟨i, hb, by rw [hloc.bytes file (.inl ⟨name, hname⟩), hsec]⟩

lemma Refines.hasFile_store {bytes : List Byte} (ht : Refines t (a.store name bytes))
    (hunbound : a.names name = none) (name' : CString) (bytes' : List Byte) :
    HasFile t name' bytes' ↔ HasFile s name' bytes' ∨ (name', bytes') = (name, bytes) := by
  rw [h.hasFile_iff, ht.hasFile_iff]
  obtain ⟨place, hloc⟩ := h
  by_cases hname : name' = name
  · subst hname
    simp [Model.store, hunbound, eq_comm]
  have hold : ∀ file, a.names name' = some file → file ≠ a.next := fun file hfile =>
    (hloc.below file (.inl ⟨name', hfile⟩)).ne
  simp only [Model.store, update_of_ne hname, Prod.mk.injEq, hname, false_and, or_false]
  refine exists_congr fun file => and_congr_right fun hfile => ?_
  rw [update_of_ne (hold file hfile)]

lemma Refines.unbound_iff : a.names name = none ↔ ∀ i, ¬ Binds s.disk name i := by
  obtain ⟨place, hloc⟩ := h
  refine ⟨fun hnone i hb => ?_, hloc.index.unbound⟩
  obtain ⟨file, hname, -⟩ := hloc.index.bound hb
  rw [hnone] at hname
  contradiction

lemma Refines.spend (n : Nat) : Refines (s.spend n) a := by
  obtain ⟨place, hloc⟩ := h
  exact ⟨place, hloc.sameDevice (hloc.sound.spend (fun _ => False) n).sound
    ⟨rfl, rfl, rfl, rfl, rfl⟩ rfl rfl rfl (fun _ => id) hloc.index.handles⟩

lemma Refines.heapOk : s.HeapOk := h.choose_spec.heap

lemma filesysCreate_refines (hvalid : ValidName name)
    (hunbound : a.names name = none) {size : Nat} {sizes : List Nat} (hsize : size < 2 ^ 31)
    (hroom : Room s (size :: sizes)) : wp (filesysCreate (some name) size)
      (fun r t => r = true ∧ Refines t (a.store name (replicate size 0)) ∧ Room t sizes) s := by
  have hfree := h.unbound_iff.mp hunbound
  obtain ⟨place, hloc⟩ := h
  refine wp_mono (filesysCreate_sound hloc.sound name (Int.natCast_nonneg _) (by omega)) ?_
  rintro r t ⟨ht, hst, htrue, hfalse⟩
  cases r with
  | true =>
    obtain ⟨header, slot, hcreated, hallots⟩ := htrue rfl
    exact ⟨rfl, ⟨_, hloc.create ht hst hcreated⟩, hroom.created hcreated hloc.heap hallots⟩
  | false => exact absurd ((hfalse rfl).2.2 hloc.heap) (hroom.can_create hvalid hfree)

lemma filesysOpen_refines (hname : a.names name = some file) :
    wp (filesysOpen (some name)) (fun r t => ∃ handle, r = some handle ∧ a.handles handle = none ∧
        Refines t (a.setHandle handle (some (file, 0))) ∧ SameDevice s t) s := by
  obtain ⟨place, hloc⟩ := h
  refine wp_mono (filesysOpen_sound hloc.sound name) ?_
  rintro r t ⟨ht, ⟨i, hb, hopened⟩ | ⟨-, -, -, hunbound⟩⟩
  · obtain ⟨file', hname', hplace⟩ := hloc.index.bound hb
    obtain rfl : file = file' := some.inj (hname.symm.trans hname')
    obtain ⟨handle, rfl, hfresh⟩ := hloc.opened hopened
    exact ⟨handle, rfl, hfresh, ⟨place, hloc.open ht (.inl ⟨name, hname⟩) (hplace ▸ hopened)⟩,
      hopened.device⟩
  · rw [hloc.index.unbound (hunbound hloc.heap)] at hname
    contradiction

end

lemma Located.clientHandle {place : Nat → Nat} (h : Located s a place)
    (hopen : a.handles handle = some (file, pos)) : ClientHandle s handle (place file) pos :=
  (h.index.handles handle _ pos).mpr ⟨file, hopen, rfl⟩

section

variable (h : Refines s a)

include h

lemma fileWrite_refines (hopen : a.handles handle = some (file, pos))
    (buffer : Memory) {size : Int} {n : Nat} (hn : n = Model.count (a.bytes file) size pos) :
    wp (fileWrite handle buffer size) (fun r t => r = n ∧
        Refines t ((a.setBytes file (Model.overwrite (a.bytes file) pos.toNat buffer n)).setHandle
          handle (some (file, pos + n))) ∧
        t.freeMap = s.freeMap ∧ ∀ i < rootEntryCnt, SameSlot s.disk t.disk i) s := by
  obtain ⟨place, hloc⟩ := h
  have hlive : a.Live file := .inr ⟨handle, pos, hopen⟩
  have hroot := (hloc.index.live hloc.sound hlive).2.1
  refine wp_mono (fileWrite_sound hloc.sound (hloc.clientHandle hopen) buffer size) ?_
  rintro r t ⟨m, hprogress, rfl, hdisk, hmap, ht, hheap, -, hkeep, hmoved⟩
  obtain rfl : m = n := (hloc.count_eq hlive hprogress).trans hn.symm
  exact ⟨rfl, ⟨place, hloc.write ht hheap hopen hdisk hkeep hmoved⟩, hmap,
    hloc.sound.slots_of_keeps hkeep (Ne.symm hroot)⟩

lemma fileRead_refines (hopen : a.handles handle = some (file, pos))
    (buffer : Memory) {size : Int} {n : Nat} (hn : n = Model.count (a.bytes file) size pos) :
    wp (fileRead handle buffer size)
      (fun r t => r = ((n : Int), copy buffer 0 (Model.image (a.bytes file)) pos.toNat n) ∧
        Refines t (a.setHandle handle (some (file, pos + n)))) s := by
  obtain ⟨place, hloc⟩ := h
  have hlive : a.Live file := .inr ⟨handle, pos, hopen⟩
  have hc := hloc.clientHandle hopen
  obtain ⟨-, -, -, -, -, -, -, -, -, -, -, -, hpos⟩ := hloc.sound.handle hc
  refine wp_mono (fileRead_sound hloc.sound hc buffer size) ?_
  rintro r t ⟨m, hprogress, rfl, ht, hdev, hmoved⟩
  obtain rfl : m = n := (hloc.count_eq hlive hprogress).trans hn.symm
  have hle := hprogress.le
  refine ⟨?_, place, hloc.move ht hlive hdev hmoved⟩
  rw [copy_contents _ hpos (by simp only [available] at hle; omega), ← hloc.bytes file hlive]

lemma fileLength_refines (hopen : a.handles handle = some (file, pos)) :
    wp (fileLength handle) (fun r t => r = ((a.bytes file).length : Int) ∧ t = s) s := by
  obtain ⟨place, hloc⟩ := h
  have hlive : a.Live file := .inr ⟨handle, pos, hopen⟩
  obtain ⟨_, inode, -, hi, -, -, -, hsec, hfile, hinode, -⟩ :=
    hloc.sound.handle (hloc.clientHandle hopen)
  simp only [fileLength, wp_bind, wp_getFile hfile, wp_getInode hinode, wp_pure, and_true]
  rw [(hloc.sound.inodes inode hi).cached, hsec, hloc.bytes file hlive, length_contents,
    Int.toNat_of_nonneg (hloc.fits hlive).length_nonneg]

lemma fileClose_refines (hopen : a.handles handle = some (file, pos))
    (hname : a.names name = some file) : wp (fileClose (some handle))
      (fun _ t => Refines t (a.setHandle handle none) ∧ SameDevice s t) s := by
  obtain ⟨place, hloc⟩ := h
  have hc := hloc.clientHandle hopen
  obtain ⟨i, hb, hsec⟩ := (hloc.index.names name _).mpr ⟨file, hname, rfl⟩
  have hkept : ∀ inode ∈ s.openInodes, inode.sector = place file → inode.removed = false :=
    fun inode hi hplace => hloc.sound.not_removed_of_named hi (hplace ▸ hsec ▸ hb.named)
  refine wp_mono (Action.wp_and (fileClose_sound hloc.sound hc)
    (fileClose_sameDevice hloc.sound hc hkept)) ?_
  rintro _ t ⟨⟨ht, hheap, -, hkeep, -, hhandles⟩, hdev⟩
  exact ⟨⟨place, hloc.close ht hheap hkeep hhandles⟩, hdev⟩

end

end Refines

end Pintos.Filesys
