import Pintos.Vm.Page

/-!
# Swap slots

`vm/swap.c`.  A slot is as many consecutive sectors of the swap device as a page
takes.  In the bitmap `true` means that a slot is free, and a slot is released
by flipping its bit, so a second release takes it out of use for good.  A client
that releases only what it holds gets back what it put in.
-/

namespace Pintos.Vm.Swap

open Foundation Filesys Userprog

variable {counter remaining slot swapIdx : Nat}

abbrev SwapAction := Action Swap Fault

@[simps -fullyApplied] def setDisk (s : Swap) (disk : Memory) : Swap := { s with disk }

@[simps -fullyApplied] def setMap (s : Swap) (map : Bitmap) : Swap := { s with map }

def sectorsPerPage : Nat := pgSize / sectorSize

def swapSizeInPage (size : Nat) : Nat := size / sectorsPerPage

/-- `device` is the size and the contents of what `block_get_role` finds; `granted` tells whether
the allocations of `bitmap_create` succeed. -/
def vmSwapInit (device : Option (Nat × Memory)) (heap : Nat → BitVec 32) (granted : Bool) :
    Except Fault Swap :=
  match device with
  | none => .error (.panic "no swap device found, can't initialize swap")
  | some (size, disk) => do
    match ← (if granted then Bitmap.create (swapSizeInPage size) heap else .ok none) with
    | none => .error (.panic "swap bitmap creation failed")
    | some map => return ⟨size, disk, ← map.setAll true⟩

/-! ## Transfers -/

def checkSector (sector : Nat) : SwapAction Unit := do
  let s ← Action.get
  require (sector < s.size) (.panic "Access past end of device")

def blockRead (sector : Nat) (buffer : Memory) (offset : Nat) : SwapAction Memory := do
  checkSector sector
  let s ← Action.get
  return copy buffer offset s.disk (sectorSize * sector) sectorSize

def blockWrite (sector : Nat) (buffer : Memory) (offset : Nat) : SwapAction Unit := do
  checkSector sector
  Action.modify fun s => s.setDisk (copy s.disk (sectorSize * sector) buffer offset sectorSize)

/-- `swap_idx * SECTORS_PER_PAGE + counter` in `size_t` arithmetic. -/
def slotSector (swapIdx counter : Nat) : Nat := (swapIdx * sectorsPerPage + counter) % 2 ^ 32

def writeSectors (swapIdx : Nat) (uva : Memory) (counter : Nat) : Nat → SwapAction Unit
  | 0 => pure ()
  | remaining + 1 => do
    blockWrite (slotSector swapIdx counter) uva (counter * sectorSize)
    writeSectors swapIdx uva (counter + 1) remaining

def readSectors (swapIdx : Nat) (uva : Memory) (counter : Nat) : Nat → SwapAction Memory
  | 0 => pure uva
  | remaining + 1 => do
    let uva ← blockRead (slotSector swapIdx counter) uva (counter * sectorSize)
    readSectors swapIdx uva (counter + 1) remaining

def vmSwapOut (uva : Memory) : SwapAction (Option Nat) := do
  let s ← Action.get
  let (swapIdx, map) ← Action.ofExcept (s.map.scanAndFlip 0 1 true)
  Action.modify (·.setMap map)
  match swapIdx with
  | none => return none
  | some swapIdx => do
    writeSectors swapIdx uva 0 sectorsPerPage
    return some swapIdx

def vmClearSwapSlot (swapIdx : Nat) : SwapAction Unit := do
  let s ← Action.get
  let map ← Action.ofExcept (s.map.flip swapIdx)
  Action.modify (·.setMap map)

def vmSwapIn (swapIdx : Nat) (uva : Memory) : SwapAction Memory := do
  let uva ← readSectors swapIdx uva 0 sectorsPerPage
  vmClearSwapSlot swapIdx
  return uva

section Transfers

variable {s : Swap}

lemma slotSector_eq (h : swapIdx < 2 ^ 29) (hc : counter < 8) :
    slotSector swapIdx counter = swapIdx * 8 + counter :=
  Nat.mod_eq_of_lt (by simp only [sectorsPerPage, pgSize, sectorSize]; omega)

lemma sectorSize_slot (swapIdx counter : Nat) :
    sectorSize * (swapIdx * 8 + counter) = pgSize * swapIdx + counter * sectorSize := by
  simp only [sectorSize, pgSize]
  omega

section

variable (hidx : swapIdx < 2 ^ 29)

include hidx

lemma wp_writeSectors (uva : Memory) (hcnt : counter + remaining ≤ 8)
    (hsize : swapIdx * 8 + 8 ≤ s.size) : wp (writeSectors swapIdx uva counter remaining)
      (fun _ t => t = s.setDisk (copy s.disk (pgSize * swapIdx + counter * sectorSize) uva
        (counter * sectorSize) (remaining * sectorSize))) s := by
  induction remaining generalizing s counter with
  | zero =>
    rw [Nat.zero_mul, copy_zero]
    exact rfl
  | succ remaining ih =>
    have hsec := slotSector_eq hidx (show counter < 8 by omega)
    simp only [writeSectors, blockWrite, checkSector, wp_bind, wp_get,
      wp_require, wp_modify, hsec, sectorSize_slot]
    refine ⟨by omega, wp_mono (ih (by omega) hsize) ?_⟩
    rintro _ t rfl
    have hnext : (counter + 1) * sectorSize = counter * sectorSize + sectorSize := by ring
    have hrest : (remaining + 1) * sectorSize = sectorSize + remaining * sectorSize := by ring
    rw [hnext, hrest, ← copy_append, Nat.add_assoc]
    rfl

lemma wp_readSectors (uva : Memory) (hcnt : counter + remaining ≤ 8) (Q : Memory → Swap → Prop) :
    wp (readSectors swapIdx uva counter remaining) Q s ↔
      (0 < remaining → swapIdx * 8 + counter + remaining ≤ s.size) ∧
      Q (copy uva (counter * sectorSize) s.disk (pgSize * swapIdx + counter * sectorSize)
        (remaining * sectorSize)) s := by
  induction remaining generalizing uva counter with
  | zero => simp [readSectors]
  | succ remaining ih =>
    have hsec := slotSector_eq hidx (show counter < 8 by omega)
    have hnext : (counter + 1) * sectorSize = counter * sectorSize + sectorSize := by ring
    have hrest : (remaining + 1) * sectorSize = sectorSize + remaining * sectorSize := by ring
    simp only [readSectors, blockRead, checkSector, wp_bind, wp_get,
      wp_require, wp_pure, hsec, sectorSize_slot]
    rw [ih _ (show counter + 1 + remaining ≤ 8 by omega), hnext, hrest, ← copy_append,
      Nat.add_assoc (pgSize * swapIdx)]
    constructor
    · rintro ⟨hlt, hmore, hQ⟩
      exact ⟨by omega, hQ⟩
    · rintro ⟨hall, hQ⟩
      exact ⟨by omega, by omega, hQ⟩

lemma wp_vmSwapIn (uva : Memory) (Q : Memory → Swap → Prop) :
    wp (vmSwapIn swapIdx uva) Q s ↔ swapIdx * 8 + 8 ≤ s.size ∧ wp (vmClearSwapSlot swapIdx)
        (fun _ => Q (copy uva 0 s.disk (pgSize * swapIdx) pgSize)) s := by
  have hpage : sectorsPerPage * sectorSize = pgSize := rfl
  simp only [vmSwapIn, wp_bind, wp_pure]
  rw [wp_readSectors hidx uva (show 0 + sectorsPerPage ≤ 8 by decide), hpage]
  simp [sectorsPerPage, pgSize, sectorSize]

end

end Transfers

/-! ## Clients -/

/-- The device and, of every slot that was handed out and not yet released, the page that was put
in it. -/
structure Client where
  device : Swap
  held : List (Nat × Memory)

inductive SwapOp where
  | out (page : Memory)
  | into (slot : Nat) (uva : Memory)
  | clear (slot : Nat)

def release (c : Client) (slot : Nat) (device : Swap) : Client :=
  ⟨device, removeAt Prod.fst c.held slot⟩

def swapStep (c : Client) : SwapOp → Option Client
  | .out page =>
    match vmSwapOut page c.device with
    | .ok (some slot, device) => some ⟨device, (slot, page) :: c.held⟩
    | .ok (none, device) => some ⟨device, c.held⟩
    | .error _ => none
  | .into slot uva =>
    match vmSwapIn slot uva c.device with
    | .ok (_, device) => some (release c slot device)
    | .error _ => none
  | .clear slot =>
    match vmClearSwapSlot slot c.device with
    | .ok (_, device) => some (release c slot device)
    | .error _ => none

def Releases (c : Client) : SwapOp → Prop
  | .out _ => True
  | .into slot _ | .clear slot => slot ∈ c.held.map Prod.fst

instance : ∀ (c : Client) (op : SwapOp), Decidable (Releases c op)
  | _, .out _ => inferInstanceAs (Decidable True)
  | c, .into slot _ | c, .clear slot => inferInstanceAs (Decidable (slot ∈ c.held.map Prod.fst))

structure Consistent (size : Nat) (c : Client) : Prop where
  sectors : c.device.size = size
  bitCnt : c.device.map.bitCnt = swapSizeInPage size
  distinct : (c.held.map Prod.fst).Nodup
  inside : ∀ slot ∈ c.held.map Prod.fst, slot < swapSizeInPage size
  free : ∀ slot < swapSizeInPage size, c.device.map.get slot = true ↔ slot ∉ c.held.map Prod.fst
  contents : ∀ h ∈ c.held, ∀ b < pgSize, c.device.disk (pgSize * h.1 + b) = h.2 b

section Steps

variable {size : Nat} {c : Client}

lemma lt_of_inside (hsize : size < 2 ^ 32) (h : slot < swapSizeInPage size) :
    slot < 2 ^ 29 ∧ slot * 8 + 8 ≤ size := by
  simp only [swapSizeInPage, sectorsPerPage, pgSize, sectorSize] at h
  omega

lemma pages_disjoint {slot' b : Nat} (h : slot ≠ slot') (hb : b < pgSize) :
    pgSize * slot + b < pgSize * slot' ∨ pgSize * slot' + pgSize ≤ pgSize * slot + b := by
  simp only [pgSize] at hb ⊢
  omega

lemma Consistent.take (h : Consistent size c) (page : Memory) {map : Bitmap}
    (hslot : slot < swapSizeInPage size) (hnew : slot ∉ c.held.map Prod.fst)
    (hcnt : map.bitCnt = c.device.map.bitCnt)
    (hget : ∀ j, map.get j = if j = slot then false else c.device.map.get j) :
    Consistent size ⟨⟨c.device.size, copy c.device.disk (pgSize * slot) page 0 pgSize, map⟩,
      (slot, page) :: c.held⟩ where
  sectors := h.sectors
  bitCnt := hcnt.trans h.bitCnt
  distinct := nodup_cons.mpr ⟨hnew, h.distinct⟩
  inside := List.forall_mem_cons.mpr ⟨hslot, h.inside⟩
  free := by
    intro other hother
    simp only [hget, map_cons, mem_cons]
    by_cases heq : other = slot
    · simp [heq]
    · simp [heq, h.free other hother]
  contents := by
    intro held hheld b hb
    rcases mem_cons.mp hheld with rfl | hold
    · change copy c.device.disk (pgSize * slot) page 0 pgSize (pgSize * slot + b) = page b
      rw [copy_inside _ _ _ (by omega) (by omega)]
      congr 1
      omega
    change copy c.device.disk (pgSize * slot) page 0 pgSize (pgSize * held.1 + b) = held.2 b
    have hne : held.1 ≠ slot := fun heq => hnew (heq ▸ mem_map_of_mem hold)
    rw [copy_outside _ _ _ (pages_disjoint hne hb)]
    exact h.contents held hold b hb

lemma vmSwapOut_spec (hsize : size < 2 ^ 32) (h : Consistent size c) (page : Memory) :
    wp (vmSwapOut page) (fun slot t => match slot with
        | some slot => slot < swapSizeInPage size ∧ slot ∉ c.held.map Prod.fst ∧
            Consistent size ⟨t, (slot, page) :: c.held⟩
        | none => t = c.device ∧ ∀ slot < swapSizeInPage size, slot ∈ c.held.map Prod.fst)
      c.device := by
  have hone : ∀ {i j : Nat}, (i ≤ j ∧ j < i + 1) ↔ j = i := by omega
  simp only [vmSwapOut, wp_bind, wp_get]
  rcases c.device.map.scanAndFlip_spec 1 true (Nat.zero_le _) with
    ⟨slot, map, hscan, -, ⟨hfit, hrun⟩, -, hcnt, hget⟩ | ⟨hscan, hnone⟩
  · have hslot : slot < swapSizeInPage size := by have := h.bitCnt; omega
    have hnew := (h.free slot hslot).mp (hrun slot (le_refl _) (by omega))
    obtain ⟨hidx, hdev⟩ := lt_of_inside hsize hslot
    simp only [hone] at hget
    rw [wp_ofExcept hscan]
    simp only [wp_modify, wp_bind, wp_pure]
    refine wp_mono (wp_writeSectors hidx page (show 0 + sectorsPerPage ≤ 8 by decide)
      (by simpa [h.sectors] using hdev)) ?_
    rintro _ t rfl
    refine ⟨hslot, hnew, ?_⟩
    simpa [Swap.setDisk, Swap.setMap, sectorsPerPage, pgSize, sectorSize] using
      h.take page hslot hnew hcnt hget
  · rw [wp_ofExcept hscan]
    refine ⟨rfl, fun slot hslot => ?_⟩
    by_contra hfree
    refine hnone slot (Nat.zero_le _) ⟨?_, fun j hlo hhi => ?_⟩
    · have := h.bitCnt
      omega
    · rw [hone.mp ⟨hlo, hhi⟩]
      exact (h.free slot hslot).mpr hfree

lemma vmClearSwapSlot_spec (h : Consistent size c) (hheld : slot ∈ c.held.map Prod.fst) :
    wp (vmClearSwapSlot slot) (fun _ t => Consistent size (release c slot t)) c.device := by
  have hslot := h.inside slot hheld
  obtain ⟨map, hflip, hcnt, hget⟩ := c.device.map.flip_spec (h.bitCnt ▸ hslot)
  have hused : c.device.map.get slot = false := by
    rw [← Bool.not_eq_true, h.free slot hslot]
    exact not_not_intro hheld
  simp only [vmClearSwapSlot, wp_bind, wp_get]
  rw [wp_ofExcept hflip, wp_modify]
  have hmem : ∀ other, other ∈ (removeAt Prod.fst c.held slot).map Prod.fst ↔
      other ∈ c.held.map Prod.fst ∧ other ≠ slot := by
    intro other
    simp only [mem_map, mem_removeAt]
    constructor
    · rintro ⟨held, ⟨hold, hne⟩, rfl⟩
      exact ⟨⟨held, hold, rfl⟩, hne⟩
    · rintro ⟨⟨held, hold, rfl⟩, hne⟩
      exact ⟨held, ⟨hold, hne⟩, rfl⟩
  constructor
  · exact h.sectors
  · exact hcnt.trans h.bitCnt
  · exact nodup_removeAt h.distinct slot
  · intro other hother
    exact h.inside other ((hmem other).mp hother).1
  · intro other hother
    simp only [release, Swap.setMap_map, hget, hmem]
    by_cases heq : other = slot
    · simp [heq, hused]
    · simp [heq, h.free other hother]
  · intro held hother b hb
    exact h.contents held (mem_removeAt.mp hother).1 b hb

lemma vmSwapIn_spec (hsize : size < 2 ^ 32) (h : Consistent size c) {held : Nat × Memory}
    (hheld : held ∈ c.held) (uva : Memory) : wp (vmSwapIn held.1 uva)
      (fun page t => page = copy uva 0 held.2 0 pgSize ∧
        Consistent size (release c held.1 t)) c.device := by
  have hmem := mem_map_of_mem (f := Prod.fst) hheld
  obtain ⟨hidx, hdev⟩ := lt_of_inside hsize (h.inside _ hmem)
  rw [wp_vmSwapIn hidx]
  refine ⟨h.sectors ▸ hdev, wp_mono (vmClearSwapSlot_spec h hmem) ?_⟩
  rintro _ t ht
  refine ⟨copy_congr fun b hb => ?_, ht⟩
  rw [h.contents held hheld b hb, Nat.zero_add]

lemma swapStep_consistent (hsize : size < 2 ^ 32) (h : Consistent size c) {op : SwapOp}
    (hop : Releases c op) : ∃ t, swapStep c op = some t ∧ Consistent size t := by
  cases op with
  | out page =>
    obtain ⟨slot, device, hrun, hout⟩ := wp_iff.mp (vmSwapOut_spec hsize h page)
    cases slot with
    | some slot => exact ⟨_, by simp only [swapStep, hrun], hout.2.2⟩
    | none =>
      obtain ⟨rfl, -⟩ := hout
      exact ⟨_, by simp only [swapStep, hrun], h⟩
  | into slot uva =>
    obtain ⟨held, hheld, rfl⟩ := mem_map.mp hop
    obtain ⟨page, device, hrun, -, hin⟩ := wp_iff.mp (vmSwapIn_spec hsize h hheld uva)
    exact ⟨_, by simp only [swapStep, hrun], hin⟩
  | clear slot =>
    obtain ⟨_, device, hrun, hclear⟩ := wp_iff.mp (vmClearSwapSlot_spec h hop)
    exact ⟨_, by simp only [swapStep, hrun], hclear⟩

lemma vmSwapInit_consistent (hsize : size < 2 ^ 32) (disk : Memory) (heap : Nat → BitVec 32) :
    ∃ device, vmSwapInit (some (size, disk)) heap true = .ok device ∧
      Consistent size ⟨device, []⟩ := by
  have hcnt : swapSizeInPage size ≤ 2 ^ 32 - 32 := by
    simp only [swapSizeInPage, sectorsPerPage, pgSize, sectorSize]
    omega
  obtain ⟨b, hcreate, hb, -⟩ := Bitmap.create_spec heap hcnt
  obtain ⟨map, hset, hmap, hget⟩ := b.setMultiple_spec true (Nat.zero_add b.bitCnt).le
  have hall : b.setAll true = .ok map := hset
  refine ⟨⟨size, disk, map⟩, ?_, rfl, hmap.trans hb, nodup_nil, by simp, ?_, by simp⟩
  · simp [vmSwapInit, hcreate, hall, bind, Except.bind, pure, Except.pure]
  intro slot hslot
  rw [hget, if_pos ⟨Nat.zero_le _, by omega⟩]
  simp

end Steps

/-- In every run that releases only what it holds, the slots in use are different and on the
device, each gives back what was put in it, and slots run out only when all are in use. -/
theorem swap_slots_hold {size : Nat} (hsize : size < 2 ^ 32) (disk : Memory)
    (heap : Nat → BitVec 32) : ∃ device, vmSwapInit (some (size, disk)) heap true = .ok device ∧
      ∀ ops, Meets swapStep Releases ⟨device, []⟩ ops →
        ∃ c, run swapStep ⟨device, []⟩ ops = some c ∧ (c.held.map Prod.fst).Nodup ∧
          (∀ slot ∈ c.held.map Prod.fst, slot * 8 + 8 ≤ size) ∧
          (∀ held ∈ c.held, ∀ uva, wp (vmSwapIn held.1 uva)
            (fun page _ => page = copy uva 0 held.2 0 pgSize) c.device) ∧
          (∀ slot ∈ c.held.map Prod.fst, wp (vmClearSwapSlot slot) (fun _ _ => True) c.device) ∧
          ∀ page, wp (vmSwapOut page) (fun slot _ =>
            (slot = none ↔ ∀ slot < size / 8, slot ∈ c.held.map Prod.fst) ∧
            ∀ new, slot = some new → new < size / 8 ∧ new ∉ c.held.map Prod.fst) c.device := by
  obtain ⟨device, hinit, hstart⟩ := vmSwapInit_consistent hsize disk heap
  refine ⟨device, hinit, fun ops hops => ?_⟩
  obtain ⟨c, hrun, h⟩ := run_total (fun _ _ h hop => swapStep_consistent hsize h hop) hstart hops
  refine ⟨c, hrun, h.distinct, fun slot hslot => ?_, fun held hheld uva => ?_,
    fun slot hslot => ?_, fun page => ?_⟩
  · exact (lt_of_inside hsize (h.inside slot hslot)).2
  · exact wp_mono (vmSwapIn_spec hsize h hheld uva) fun _ _ hin => hin.1
  · exact wp_mono (vmClearSwapSlot_spec h hslot) fun _ _ _ => trivial
  have hslots : swapSizeInPage size = size / 8 := rfl
  refine wp_mono (vmSwapOut_spec hsize h page) fun slot t hout => ?_
  cases slot with
  | none => exact ⟨iff_of_true rfl (hslots ▸ hout.2), by simp⟩
  | some slot =>
    refine ⟨iff_of_false (by simp) fun hall => hout.2.1 (hall slot (hslots ▸ hout.1)), ?_⟩
    rintro new ⟨⟩
    exact ⟨hslots ▸ hout.1, hout.2.1⟩

lemma twoSlots_le : 2 ≤ 2 ^ 32 - 32 := by decide

def twoSlots : Swap := ⟨20, fun _ => 0, ⟨2, [3#32], by decide, twoSlots_le⟩⟩

def fullSwap : List SwapOp :=
  [.out fun _ => 1, .out fun _ => 2, .out fun _ => 3, .into 0 fun _ => 0, .clear 1]

theorem swap_slots_hold_two : Meets swapStep Releases ⟨twoSlots, []⟩ fullSwap ∧
    ∃ c, run swapStep ⟨twoSlots, []⟩ fullSwap = some c ∧ (c.held.map Prod.fst).Nodup := by
  have hmeets : Meets swapStep Releases ⟨twoSlots, []⟩ fullSwap := by decide +kernel
  obtain ⟨device, hinit, hruns⟩ := swap_slots_hold (show 20 < 2 ^ 32 by decide)
    (fun _ => 0) (fun _ => 0)
  have hdevice : twoSlots = device := Except.ok.inj hinit
  obtain ⟨c, hrun, hdistinct, -⟩ := hruns fullSwap (hdevice ▸ hmeets)
  exact ⟨hmeets, c, hdevice ▸ hrun, hdistinct⟩

end Pintos.Vm.Swap
