import Pintos.Threads.Malloc

/-!
# The heap invariant

The free blocks and the blocks in use that lie in an arena are together the
blocks the arena was divided into.  A call changes one arena and leaves the
others as they are, so each operation is described by what it does to that one.
-/

namespace Pintos.Threads

open Foundation Userprog

variable {a' b d f i p palloc remaining size wanted : Nat} {desc : Desc}
  {freeList freeList' : Nat → List Nat} {arena : Arena} {rest starts starts' : List Nat}
  {h h' : Malloc} {event : MallocEvent}

/-! ## Descriptors and blocks -/

def descTable : List Desc :=
  [⟨16, 255⟩, ⟨32, 127⟩, ⟨64, 63⟩, ⟨128, 31⟩, ⟨256, 15⟩, ⟨512, 7⟩, ⟨1024, 3⟩]

lemma mallocInit_eq : mallocInit = .ok ⟨descTable, fun _ => [], fun _ => none, fun _ => none⟩ := rfl

structure DescOk (desc : Desc) : Prop where
  blockSize : 16 ≤ desc.blockSize
  blocks : 1 ≤ desc.blocksPerArena
  few : desc.blocksPerArena ≤ 255
  fits : arenaSize + desc.blocksPerArena * desc.blockSize ≤ pgSize

lemma descOk_of_get (h : descTable[d]? = some desc) : DescOk desc := by
  have hmem := mem_of_getElem? h
  have hall : ∀ desc ∈ descTable, 16 ≤ desc.blockSize ∧ 1 ≤ desc.blocksPerArena ∧
      desc.blocksPerArena ≤ 255 ∧ arenaSize + desc.blocksPerArena * desc.blockSize ≤ pgSize := by
    decide
  obtain ⟨hsize, hblocks, hfew, hfits⟩ := hall desc hmem
  exact ⟨hsize, hblocks, hfew, hfits⟩

def slot (a : Nat) (desc : Desc) (i : Nat) : Nat := a + arenaSize + i * desc.blockSize

namespace Arena

def pages (arena : Arena) : Nat :=
  match arena.desc with
  | some _ => 1
  | none => arena.freeCnt

def blocks (arena : Arena) (a : Nat) : List Nat :=
  match arena.desc with
  | some d => (List.range (descTable.getD d ⟨0, 0⟩).blocksPerArena).map
      (slot a (descTable.getD d ⟨0, 0⟩))
  | none => [a + arenaSize]

def freeBlocks (arena : Arena) (freeList : Nat → List Nat) : List Nat :=
  match arena.desc with
  | some d => freeList d
  | none => []

end Arena

def inArena (a b : Nat) : Bool := decide (pgRoundDown b = a)

structure Placed (a : Nat) (arena : Arena) : Prop where
  nonnull : a ≠ 0
  aligned : pgOfs a = 0
  pages : 1 ≤ arena.pages
  desc : ∀ d, arena.desc = some d → ∃ desc, descTable[d]? = some desc

section Blocks

variable {a b' : Nat}

lemma pgRoundDown_of_lt (ha : pgOfs a = 0) (hle : a ≤ b) (hlt : b < a + pgSize) :
    pgRoundDown b = a := by
  simp only [pgRoundDown, pgOfs, pgSize] at *
  omega

lemma slot_bound (hi : i < desc.blocksPerArena) :
    slot a desc i + desc.blockSize ≤ a + arenaSize + desc.blocksPerArena * desc.blockSize := by
  have := Nat.mul_le_mul_right desc.blockSize (show i + 1 ≤ desc.blocksPerArena from hi)
  rw [Nat.add_mul, Nat.one_mul] at this
  unfold slot
  omega

lemma slot_apart {j : Nat} (hij : i < j) : slot a desc i + desc.blockSize ≤ slot a desc j := by
  have := Nat.mul_le_mul_right desc.blockSize (show i + 1 ≤ j from hij)
  rw [Nat.add_mul, Nat.one_mul] at this
  unfold slot
  omega

lemma getD_descTable (h : descTable[d]? = some desc) : descTable.getD d ⟨0, 0⟩ = desc := by
  rw [List.getD_eq_getElem?_getD, h]
  rfl

lemma blockLength_of_desc (hdesc : arena.desc = some d)
    (hget : descTable[d]? = some desc) : blockLength descTable arena = desc.blockSize := by
  simp only [blockLength, hdesc, getD_descTable hget]

lemma Placed.block (h : Placed a arena) (hb : b ∈ arena.blocks a) :
    a + arenaSize ≤ b ∧ b + blockLength descTable arena ≤ a + pgSize * arena.pages ∧
      blockHeadSize ≤ blockLength descTable arena ∧ pgRoundDown b = a := by
  have hpages := h.pages
  cases hdesc : arena.desc with
  | none =>
    simp only [Arena.blocks, hdesc, mem_singleton] at hb
    simp only [Arena.pages, hdesc] at hpages
    refine ⟨hb.ge, ?_, ?_, pgRoundDown_of_lt h.aligned (by omega) ?_⟩
    · simp only [blockLength, Arena.pages, hdesc, arenaSize, pgSize] at *
      omega
    · simp only [blockLength, hdesc, arenaSize, pgSize, blockHeadSize]
      omega
    · simp only [hb, arenaSize, pgSize]
      omega
  | some d =>
    obtain ⟨desc, hget⟩ := h.desc d hdesc
    have hok := descOk_of_get hget
    have hsize := hok.blockSize
    have hfits := hok.fits
    simp only [Arena.blocks, hdesc, getD_descTable hget, mem_map, mem_range] at hb
    obtain ⟨i, hi, rfl⟩ := hb
    have hbound := slot_bound (a := a) hi
    have hlen := blockLength_of_desc hdesc hget
    have hone : arena.pages = 1 := by simp [Arena.pages, hdesc]
    have hlow : a + arenaSize ≤ slot a desc i := by
      unfold slot
      omega
    rw [hlen, hone]
    refine ⟨hlow, by omega, ?_, pgRoundDown_of_lt h.aligned (by omega) (by omega)⟩
    unfold blockHeadSize
    omega

lemma Placed.blocks_apart (h : Placed a arena) (hb : b ∈ arena.blocks a) (hb' : b' ∈ arena.blocks a)
    (hne : b ≠ b') : Apart b (blockLength descTable arena) b' (blockLength descTable arena) := by
  cases hdesc : arena.desc with
  | none =>
    simp only [Arena.blocks, hdesc, mem_singleton] at hb hb'
    exact absurd (hb.trans hb'.symm) hne
  | some d =>
    obtain ⟨desc, hget⟩ := h.desc d hdesc
    simp only [Arena.blocks, hdesc, getD_descTable hget, mem_map, mem_range] at hb hb'
    obtain ⟨i, -, rfl⟩ := hb
    obtain ⟨j, -, rfl⟩ := hb'
    rw [blockLength_of_desc hdesc hget]
    rcases Nat.lt_trichotomy i j with hij | rfl | hij
    · exact .inl (slot_apart hij)
    · exact absurd rfl hne
    · exact .inr (slot_apart hij)

lemma Placed.blocks_nodup (h : Placed a arena) : (arena.blocks a).Nodup := by
  cases hdesc : arena.desc with
  | none => simp [Arena.blocks, hdesc]
  | some d =>
    obtain ⟨desc, hget⟩ := h.desc d hdesc
    simp only [Arena.blocks, hdesc, getD_descTable hget]
    refine List.nodup_range.map_on fun i _ j _ heq => ?_
    have hsize := (descOk_of_get hget).blockSize
    rcases Nat.lt_trichotomy i j with hij | hij | hij
    · have : slot a desc i + desc.blockSize ≤ slot a desc j := slot_apart hij
      omega
    · exact hij
    have : slot a desc j + desc.blockSize ≤ slot a desc i := slot_apart hij
    omega

lemma Placed.filter_blocks (h : Placed a arena) :
    (arena.blocks a).filter (inArena a) = arena.blocks a := by
  refine List.filter_eq_self.mpr fun b hb => ?_
  simpa [inArena] using (h.block hb).2.2.2

end Blocks

/-! ## The invariant -/

structure ArenaOk (freeList : Nat → List Nat) (starts : List Nat) (a : Nat) (arena : Arena) :
    Prop extends Placed a arena where
  blocks : ((arena.freeBlocks freeList ++ starts).filter (inArena a)).Perm (arena.blocks a)
  count : ∀ d, arena.desc = some d → arena.freeCnt = (freeList d).countP (inArena a)
  own : ∀ d, ∀ f ∈ freeList d, inArena a f = true → arena.desc = some d

structure HeapOk (h : Malloc) (starts : List Nat) (fresh : Option Nat) : Prop where
  descs : h.descs = descTable
  held : ∀ a, h.held a = (h.header a).map Arena.pages
  arenas : ∀ a arena, h.header a = some arena → ArenaOk h.freeList starts a arena
  apart : ∀ a a' arena arena', h.header a = some arena → h.header a' = some arena' → a ≠ a' →
    Apart a (pgSize * arena.pages) a' (pgSize * arena'.pages)
  nowhere : ∀ a, h.header a = none →
    (∀ d, ∀ f ∈ h.freeList d, inArena a f = false) ∧ ∀ b ∈ starts, inArena a b = false
  used : ∀ a arena, h.header a = some arena → fresh ≠ some a → ∃ b ∈ starts, inArena a b = true

section Touch

variable {fresh fresh' : Option Nat} {a : Nat}

structure SameIn (a : Nat) (freeList freeList' : Nat → List Nat) (starts starts' : List Nat) :
    Prop where
  free : ∀ d, ((freeList' d).filter (inArena a)).Perm ((freeList d).filter (inArena a))
  live : (starts'.filter (inArena a)).Perm (starts.filter (inArena a))

lemma SameIn.mem_free (hs : SameIn a freeList freeList' starts starts') (hf : f ∈ freeList' d)
    (hin : inArena a f = true) : f ∈ freeList d :=
  (mem_filter.mp ((hs.free d).mem_iff.mp (mem_filter.mpr ⟨hf, hin⟩))).1

lemma SameIn.mem_live (hs : SameIn a freeList freeList' starts starts')
    (hin : inArena a b = true) : b ∈ starts' ↔ b ∈ starts := by
  have := hs.live.mem_iff (a := b)
  simpa [hin] using this

lemma ArenaOk.congr (hok : ArenaOk freeList starts a arena)
    (hs : SameIn a freeList freeList' starts starts') : ArenaOk freeList' starts' a arena := by
  refine ⟨hok.toPlaced, ?_, fun d hd => ?_, fun d f hf hin => hok.own d f (hs.mem_free hf hin) hin⟩
  · refine List.Perm.trans ?_ hok.blocks
    rw [filter_append, filter_append]
    refine List.Perm.append ?_ hs.live
    unfold Arena.freeBlocks
    split
    · exact hs.free _
    · exact .refl _
  · rw [hok.count d hd, List.countP_eq_length_filter, List.countP_eq_length_filter]
    exact (hs.free d).length_eq.symm

lemma SameIn.nowhere (hs : SameIn a freeList freeList' starts starts')
    (h : (∀ d, ∀ f ∈ freeList d, inArena a f = false) ∧ ∀ b ∈ starts, inArena a b = false) :
    (∀ d, ∀ f ∈ freeList' d, inArena a f = false) ∧ ∀ b ∈ starts', inArena a b = false := by
  refine ⟨fun d f hf => ?_, fun b hb => ?_⟩
  · by_contra hin
    rw [Bool.not_eq_false] at hin
    simp [h.1 d f (hs.mem_free hf hin)] at hin
  · by_contra hin
    rw [Bool.not_eq_false] at hin
    simp [h.2 b ((hs.mem_live hin).mp hb)] at hin

/-- The arena at `a` is changed, added or given back, and the others stay as they are. -/
lemma HeapOk.change (hok : HeapOk h starts fresh) {entry : Option Arena}
    (hdescs : h'.descs = h.descs) (hhdr : h'.header = update h.header a entry)
    (hheld : h'.held = update h.held a (entry.map Arena.pages))
    (hself : ∀ arena, entry = some arena → ArenaOk h'.freeList starts' a arena ∧
      (∀ a' arena', a' ≠ a → h.header a' = some arena' →
        Apart a (pgSize * arena.pages) a' (pgSize * arena'.pages)) ∧
      (fresh' ≠ some a → ∃ b ∈ starts', inArena a b = true))
    (hgone : entry = none → (∀ d, ∀ f ∈ h'.freeList d, inArena a f = false) ∧
      ∀ b ∈ starts', inArena a b = false)
    (hothers : ∀ a', a' ≠ a → SameIn a' h.freeList h'.freeList starts starts')
    (hfresh : ∀ a', a' ≠ a → fresh' ≠ some a' → fresh ≠ some a') : HeapOk h' starts' fresh' := by
  have hat : ∀ a', h'.header a' = if a' = a then entry else h.header a' := by
    intro a'
    rw [hhdr]
    exact update_apply _ _ _ _
  refine ⟨hdescs.trans hok.descs, fun a' => ?_, fun a' arena' ha' => ?_, ?_, fun a' ha' => ?_,
    fun a' arena' ha' hnot => ?_⟩
  · rw [hheld, hat, update_apply]
    split
    · rfl
    · exact hok.held a'
  · rw [hat] at ha'
    split at ha'
    · next heq => exact heq ▸ (hself arena' ha').1
    · next hne => exact (hok.arenas a' arena' ha').congr (hothers a' hne)
  · intro a₁ a₂ arena₁ arena₂ h₁ h₂ hne
    rw [hat] at h₁ h₂
    split at h₁
    · next heq₁ =>
        subst heq₁
        rw [if_neg (Ne.symm hne)] at h₂
        exact (hself arena₁ h₁).2.1 a₂ arena₂ (Ne.symm hne) h₂
    · next hne₁ =>
        split at h₂
        · next heq₂ =>
            subst heq₂
            exact ((hself arena₂ h₂).2.1 a₁ arena₁ hne₁ h₁).symm
        · exact hok.apart a₁ a₂ arena₁ arena₂ h₁ h₂ hne
  · rw [hat] at ha'
    split at ha'
    · next heq => exact heq ▸ hgone ha'
    · next hne => exact (hothers a' hne).nowhere (hok.nowhere a' ha')
  rw [hat] at ha'
  split at ha'
  · next heq =>
      subst heq
      exact (hself arena' ha').2.2 hnot
  · next hne =>
      obtain ⟨b, hb, hin⟩ := hok.used a' arena' ha' (hfresh a' hne hnot)
      exact ⟨b, ((hothers a' hne).mem_live hin).mpr hb, hin⟩

lemma HeapOk.touch (hok : HeapOk h starts fresh)
    (hdescs : h'.descs = h.descs) (hhdr : h'.header = update h.header a (some arena))
    (hheld : h'.held = update h.held a (some arena.pages))
    (hself : ArenaOk h'.freeList starts' a arena)
    (hothers : ∀ a', a' ≠ a → SameIn a' h.freeList h'.freeList starts starts')
    (hapart : ∀ a' arena', a' ≠ a → h.header a' = some arena' →
      Apart a (pgSize * arena.pages) a' (pgSize * arena'.pages))
    (hfresh : ∀ a', a' ≠ a → fresh' ≠ some a' → fresh ≠ some a')
    (hused : fresh' ≠ some a → ∃ b ∈ starts', inArena a b = true) : HeapOk h' starts' fresh' := by
  refine hok.change hdescs hhdr hheld (fun arena' harena => ?_) (by simp) hothers hfresh
  obtain rfl := some.inj harena
  exact ⟨hself, hapart, hused⟩

end Touch

/-! ## The parts of `malloc` and `free` -/

section Parts

variable {a idx : Nat}

lemma wp_descAt (hget : h.descs[d]? = some desc) (Q : Desc → Malloc → Prop) :
    wp (descAt d) Q h ↔ Q desc h := by
  simp [descAt, hget]

lemma wp_validArena (ha : a ≠ 0) (hhdr : h.header a = some arena)
    (Q : Arena → Malloc → Prop) : wp (validArena a) Q h ↔ Q arena h := by
  simp [validArena, ha, hhdr]

lemma wp_blockToArena (hdescs : h.descs = descTable) (hplaced : Placed a arena)
    (hhdr : h.header a = some arena) (hb : b ∈ arena.blocks a) (Q : Nat → Malloc → Prop) :
    wp (blockToArena b) Q h ↔ Q a h := by
  obtain ⟨hlow, -, -, hround⟩ := hplaced.block hb
  have hofs : b = a + pgOfs b := by
    have hle := Nat.mod_le b pgSize
    simp only [pgRoundDown, pgOfs] at *
    omega
  simp only [blockToArena, hround, wp_bind, wp_validArena hplaced.nonnull hhdr]
  cases hdesc : arena.desc with
  | none =>
    simp only [Arena.blocks, hdesc, mem_singleton] at hb
    have : pgOfs b = arenaSize := by omega
    simp [this]
  | some d =>
    obtain ⟨desc, hget⟩ := hplaced.desc d hdesc
    have hok := descOk_of_get hget
    have hfits := hok.fits
    simp only [Arena.blocks, hdesc, getD_descTable hget, mem_map, mem_range] at hb
    obtain ⟨i, hi, rfl⟩ := hb
    have hbound := slot_bound (a := a) hi
    have hdiff : (pgOfs (slot a desc i) : Int) - arenaSize = (i * desc.blockSize : Nat) := by
      have : slot a desc i = a + arenaSize + i * desc.blockSize := rfl
      omega
    have hword : toUnsigned32 ((pgOfs (slot a desc i) : Int) - arenaSize) % desc.blockSize = 0 := by
      rw [hdiff, toUnsigned32_ofNat, Nat.mul_mod_left]
      have : slot a desc i = a + arenaSize + i * desc.blockSize := rfl
      simp only [pgSize] at hfits
      omega
    simp only [wp_bind, wp_descAt (hdescs ▸ hget), wp_require, wp_pure, hword, true_and]

lemma wp_arenaToBlock (hdescs : h.descs = descTable) (ha : a ≠ 0)
    (hhdr : h.header a = some arena) (hdesc : arena.desc = some d)
    (hget : descTable[d]? = some desc) (hidx : idx < desc.blocksPerArena)
    (Q : Nat → Malloc → Prop) : wp (arenaToBlock a idx) Q h ↔ Q (slot a desc idx) h := by
  simp only [arenaToBlock, wp_bind, wp_validArena ha hhdr, hdesc,
    wp_descAt (hdescs ▸ hget : h.descs[d]? = some desc), wp_require, wp_pure, hidx, true_and]
  exact Iff.rfl

def slotsFrom (a : Nat) (desc : Desc) (idx remaining : Nat) : List Nat :=
  (List.range' idx remaining).map (slot a desc)

lemma slotsFrom_succ (remaining : Nat) : slotsFrom a desc idx (remaining + 1) =
    slot a desc idx :: slotsFrom a desc (idx + 1) remaining := by
  simp [slotsFrom, List.range'_succ]

lemma addBlocks_spec (hdescs : h.descs = descTable) (ha : a ≠ 0)
    (hhdr : h.header a = some arena) (hdesc : arena.desc = some d)
    (hget : descTable[d]? = some desc) (hidx : idx + remaining ≤ desc.blocksPerArena)
    (Q : Unit → Malloc → Prop) : wp (addBlocks d a idx remaining) Q h ↔
      Q () (h.setFreeList d (h.freeList d ++ slotsFrom a desc idx remaining)) := by
  induction remaining generalizing h idx with
  | zero =>
    have hsame : h.setFreeList d (h.freeList d ++ slotsFrom a desc idx 0) = h := by
      simp [slotsFrom, Malloc.setFreeList]
    rw [hsame]
    exact Iff.rfl
  | succ remaining ih =>
    simp only [addBlocks, wp_bind,
      wp_arenaToBlock hdescs ha hhdr hdesc hget (show idx < desc.blocksPerArena by omega),
      wp_modify]
    have hset : ∀ blocks, (h.setFreeList d blocks).setFreeList d
        ((h.setFreeList d blocks).freeList d ++ slotsFrom a desc (idx + 1) remaining) =
        h.setFreeList d (blocks ++ slotsFrom a desc (idx + 1) remaining) := by
      intro blocks
      simp [Malloc.setFreeList]
    rw [ih (h := h.setFreeList d _) hdescs hhdr (by omega), hset, append_assoc, slotsFrom_succ]
    rfl

lemma removeBlocks_spec (hdescs : h.descs = descTable)
    (ha : a ≠ 0) (hhdr : h.header a = some arena) (hdesc : arena.desc = some d)
    (hget : descTable[d]? = some desc) (hidx : idx + remaining ≤ desc.blocksPerArena)
    (hlist : (h.freeList d).Perm (slotsFrom a desc idx remaining ++ rest)) :
    wp (removeBlocks d a idx remaining) (fun _ h' => ∃ blocks,
      h' = h.setFreeList d blocks ∧ blocks.Perm rest) h := by
  induction remaining generalizing h idx with
  | zero => exact ⟨h.freeList d, by simp [Malloc.setFreeList], by simpa [slotsFrom] using hlist⟩
  | succ remaining ih =>
    rw [slotsFrom_succ, cons_append] at hlist
    have hmem : slot a desc idx ∈ h.freeList d := hlist.mem_iff.mpr mem_cons_self
    simp only [removeBlocks, listRemove, wp_bind,
      wp_arenaToBlock hdescs ha hhdr hdesc hget (show idx < desc.blocksPerArena by omega),
      wp_get, wp_require, wp_modify, hmem, true_and]
    have hrest : ((h.freeList d).erase (slot a desc idx)).Perm
        (slotsFrom a desc (idx + 1) remaining ++ rest) :=
      ((List.perm_cons_erase hmem).symm.trans hlist).cons_inv
    refine wp_mono (ih (h := h.setFreeList d _) hdescs hhdr (by omega) (by simpa using hrest)) ?_
    rintro _ _ ⟨blocks, rfl, hblocks⟩
    exact ⟨blocks, by simp [Malloc.setFreeList], hblocks⟩

lemma slotsFrom_eq_blocks (hdesc : arena.desc = some d) (hget : descTable[d]? = some desc) :
    slotsFrom a desc 0 desc.blocksPerArena = arena.blocks a := by
  simp only [slotsFrom, Arena.blocks, hdesc, getD_descTable hget, List.range_eq_range']

end Parts

/-! ## The calls -/

def lengthAt (h : Malloc) (a : Nat) : Option Nat := (h.header a).map (blockLength descTable)

section Calls

variable {fresh : Option Nat} {a : Nat}

lemma inArena_eq {a : Nat} : inArena a b = true ↔ pgRoundDown b = a := by simp [inArena]

lemma inArena_ne {a : Nat} (hb : pgRoundDown b = a) (hne : a' ≠ a) : inArena a' b = false := by
  simp [inArena, hb, Ne.symm hne]

lemma HeapOk.arena_of_free (hok : HeapOk h starts fresh) (hf : f ∈ h.freeList d) :
    ∃ arena, h.header (pgRoundDown f) = some arena ∧ arena.desc = some d ∧
      f ∈ arena.blocks (pgRoundDown f) := by
  have hin : inArena (pgRoundDown f) f = true := inArena_eq.mpr rfl
  cases hhdr : h.header (pgRoundDown f) with
  | none =>
    have := (hok.nowhere _ hhdr).1 d f hf
    simp [hin] at this
  | some arena =>
    have harena := hok.arenas _ arena hhdr
    have hdesc := harena.own d f hf hin
    refine ⟨arena, rfl, hdesc, harena.blocks.mem_iff.mp (mem_filter.mpr ⟨?_, hin⟩)⟩
    simp only [Arena.freeBlocks, hdesc]
    exact mem_append_left _ hf

lemma HeapOk.arena_of_live (hok : HeapOk h starts fresh) (hb : b ∈ starts) :
    ∃ arena, h.header (pgRoundDown b) = some arena ∧ b ∈ arena.blocks (pgRoundDown b) := by
  have hin : inArena (pgRoundDown b) b = true := inArena_eq.mpr rfl
  cases hhdr : h.header (pgRoundDown b) with
  | none =>
    have := (hok.nowhere _ hhdr).2 b hb
    simp [hin] at this
  | some arena =>
    refine ⟨arena, rfl, (hok.arenas _ arena hhdr).blocks.mem_iff.mp
      (mem_filter.mpr ⟨mem_append_right _ hb, hin⟩)⟩

lemma ArenaOk.total (h : ArenaOk freeList starts a arena) (hdesc : arena.desc = some d)
    (hget : descTable[d]? = some desc) :
    arena.freeCnt + starts.countP (inArena a) = desc.blocksPerArena := by
  have hlen := h.blocks.length_eq
  rw [filter_append, length_append, ← slotsFrom_eq_blocks hdesc hget] at hlen
  simp only [Arena.freeBlocks, hdesc, slotsFrom, length_map, List.length_range'] at hlen
  rw [h.count d hdesc, List.countP_eq_length_filter, List.countP_eq_length_filter]
  exact hlen

lemma toUnsigned32_pred {n : Nat} (hpos : 1 ≤ n) (hsmall : n ≤ 255) :
    toUnsigned32 ((n : Int) - 1) = n - 1 := by
  have hcast : (n : Int) - 1 = (n - 1 : Nat) := by omega
  rw [hcast, toUnsigned32_ofNat (by omega)]

lemma takeBlock_spec (hok : HeapOk h starts fresh) (hlist : h.freeList d = b :: rest)
    (hfresh : ∀ a, fresh = some a → pgRoundDown b = a) : wp (takeBlock d)
    (fun r h' => r = b ∧ HeapOk h' (b :: starts) none ∧ ∀ a, lengthAt h' a = lengthAt h a) h := by
  have hb : b ∈ h.freeList d := by simp [hlist]
  obtain ⟨arena, hhdr, hdesc, hblock⟩ := hok.arena_of_free hb
  have harena := hok.arenas _ arena hhdr
  obtain ⟨desc, hget⟩ := harena.desc d hdesc
  have htotal := harena.total hdesc hget
  have hcnt := harena.count d hdesc
  rw [hlist, countP_cons, if_pos (inArena_eq.mpr rfl)] at hcnt
  have hpred := toUnsigned32_pred (n := arena.freeCnt) (by omega)
    (by have := (descOk_of_get hget).few; omega)
  simp only [takeBlock, wp_bind, wp_get, hlist, wp_modify,
    wp_blockToArena (h := h.setFreeList d rest) hok.descs harena.toPlaced hhdr hblock,
    wp_validArena (h := h.setFreeList d rest) harena.nonnull hhdr, wp_pure, hpred, hdesc]
  have hpages : (Arena.mk (some d) (arena.freeCnt - 1)).pages = arena.pages := by
    simp [Arena.pages, hdesc]
  refine ⟨trivial, hok.touch rfl rfl ?_ ?_
    (fun a' hne => ?_) (fun a' arena' hne ha' => ?_) (fun a' hne _ hsome => ?_) fun _ => ?_,
    fun a' => ?_⟩
  · rw [hpages]
    refine (Function.update_eq_self_iff.mpr ?_).symm
    rw [Malloc.setHeader_held, Malloc.setFreeList_held, hok.held, hhdr]
    rfl
  · refine ⟨⟨harena.nonnull, harena.aligned, hpages ▸ harena.pages, ?_⟩, ?_, ?_, ?_⟩
    · rintro d' hd'
      obtain rfl := some.inj hd'
      exact ⟨desc, hget⟩
    · -- the block has moved from one list to the other
      have hblocks := harena.blocks
      simp only [Arena.freeBlocks, hdesc, hlist, Arena.blocks] at hblocks
      refine List.Perm.trans ?_ hblocks
      simp only [Arena.freeBlocks, Malloc.setHeader_freeList, Malloc.setFreeList_freeList,
        update_self]
      exact perm_middle.filter _
    · rintro d' hd'
      obtain rfl := some.inj hd'
      change arena.freeCnt - 1 = (update h.freeList d rest d).countP _
      rw [update_self]
      omega
    intro d' f hf hin
    refine congrArg some ?_
    have hf' : f ∈ h.freeList d' := by
      change f ∈ update h.freeList d rest d' at hf
      rw [update_apply] at hf
      split at hf
      · next heq => simp [heq, hlist, hf]
      · exact hf
    have := harena.own d' f hf' hin
    exact some.inj (hdesc.symm.trans this)
  · have hnot := inArena_ne rfl hne (b := b)
    refine ⟨fun d' => ?_, ?_⟩
    · change ((update h.freeList d rest d').filter _).Perm _
      rw [update_apply]
      split
      · next heq => rw [heq, hlist, filter_cons, if_neg (by simp [hnot])]
      · exact .refl _
    · rw [filter_cons, if_neg (by simp [hnot])]
  · have := hok.apart _ a' arena arena' hhdr ha' (Ne.symm hne)
    rw [hpages]
    exact this
  · exact hne (hfresh a' hsome).symm
  · exact ⟨b, mem_cons_self, inArena_eq.mpr rfl⟩
  simp only [lengthAt, Malloc.setHeader_header, Malloc.setFreeList_header, update_apply]
  split
  · next heq => simp [heq, hhdr, blockLength, hdesc]
  · rfl

lemma HeapOk.header_none (hok : HeapOk h starts none) (hplaced : Placed a arena)
    (hnew : ∀ a' pages, h.held a' = some pages →
      Apart a (pgSize * arena.pages) a' (pgSize * pages)) : h.header a = none := by
  cases hold : h.header a with
  | none => rfl
  | some old =>
    have hheld := hok.held a
    rw [hold] at hheld
    have hpages := (hok.arenas a old hold).pages
    have := hplaced.pages
    rcases hnew a _ hheld with hlt | hlt <;> simp only [pgSize] at hlt <;> omega

lemma HeapOk.addArena (hok : HeapOk h starts none) (hplaced : Placed a arena)
    (hnew : ∀ a' pages, h.held a' = some pages → Apart a (pgSize * arena.pages) a' (pgSize * pages))
    (hdescs : h'.descs = h.descs) (hhdr : h'.header = update h.header a (some arena))
    (hheld : h'.held = update h.held a (some arena.pages))
    (hfree : ∀ d', ∃ added, h'.freeList d' = h.freeList d' ++ added ∧
      (∀ f ∈ added, f ∈ arena.blocks a) ∧ (added ≠ [] → arena.desc = some d'))
    (hlive : ∃ added, starts' = added ++ starts ∧ ∀ b ∈ added, b ∈ arena.blocks a)
    (hblocks : ((arena.freeBlocks h'.freeList ++ starts').filter (inArena a)).Perm (arena.blocks a))
    (hcnt : ∀ d, arena.desc = some d → arena.freeCnt = (h'.freeList d).countP (inArena a)) :
    HeapOk h' starts' (some a) := by
  obtain ⟨hnofree, -⟩ := hok.nowhere a (hok.header_none hplaced hnew)
  obtain ⟨addedLive, hlive', haddedLive⟩ := hlive
  have hround : ∀ b ∈ arena.blocks a, pgRoundDown b = a := fun b hb => (hplaced.block hb).2.2.2
  refine hok.touch hdescs hhdr hheld ⟨hplaced, hblocks, hcnt, fun d f hf hin => ?_⟩
    (fun a' hne => ⟨fun d => ?_, ?_⟩) (fun a' arena' _ ha' => ?_) (fun _ _ _ => by simp)
    fun hself => absurd rfl hself
  · obtain ⟨added, heq, hadded, hdesc⟩ := hfree d
    rw [heq] at hf
    rcases mem_append.mp hf with hold | hnew'
    · have := hnofree d f hold
      simp [hin] at this
    · exact hdesc (List.ne_nil_of_mem hnew')
  · obtain ⟨added, heq, hadded, -⟩ := hfree d
    have hempty : added.filter (inArena a') = [] :=
      List.filter_eq_nil_iff.mpr fun f hf => by simp [inArena_ne (hround f (hadded f hf)) hne]
    rw [heq, filter_append, hempty, append_nil]
  · have hempty : addedLive.filter (inArena a') = [] :=
      List.filter_eq_nil_iff.mpr fun b hb => by simp [inArena_ne (hround b (haddedLive b hb)) hne]
    rw [hlive', filter_append, hempty, nil_append]
  · refine hnew a' _ ?_
    rw [hok.held, ha']
    rfl

lemma HeapOk.notFresh (hok : HeapOk h starts fresh)
    (hused : ∀ a, fresh = some a → ∃ b ∈ starts, inArena a b = true) : HeapOk h starts none := by
  refine ⟨hok.descs, hok.held, hok.arenas, hok.apart, hok.nowhere, fun a arena ha _ => ?_⟩
  by_cases heq : fresh = some a
  · exact hused a heq
  · exact hok.used a arena ha heq

lemma HeapOk.perm (hok : HeapOk h starts fresh)
    (hperm : starts'.Perm starts) : HeapOk h starts' fresh := by
  have hsame : ∀ a, SameIn a h.freeList h.freeList starts starts' :=
    fun a => ⟨fun _ => .refl _, hperm.filter _⟩
  refine ⟨hok.descs, hok.held, fun a arena ha => (hok.arenas a arena ha).congr (hsame a), hok.apart,
    fun a ha => ⟨(hok.nowhere a ha).1, fun b hb => (hok.nowhere a ha).2 b (hperm.mem_iff.mp hb)⟩,
    fun a arena ha hne => ?_⟩
  obtain ⟨b, hb, hin⟩ := hok.used a arena ha hne
  exact ⟨b, hperm.mem_iff.mpr hb, hin⟩

lemma descFor_some (hd : descFor descTable size = some d) :
    ∃ desc, descTable[d]? = some desc ∧ size ≤ desc.blockSize := by
  rw [descFor, List.findIdx?_eq_some_iff_getElem] at hd
  obtain ⟨hlt, hsize, -⟩ := hd
  exact ⟨_, getElem?_eq_getElem hlt, by simpa using hsize⟩

def granted (size : Nat) : Nat := blockLength descTable ⟨descFor descTable size, bigPageCnt size⟩

lemma granted_of_desc (hfor : descFor descTable size = some d)
    (hget : descTable[d]? = some desc) : granted size = desc.blockSize :=
  blockLength_of_desc hfor hget

lemma granted_big (hfor : descFor descTable size = none) :
    granted size = pgSize * bigPageCnt size - arenaSize := by
  simp [granted, blockLength, hfor]

lemma granted_words (size : Nat) : granted size % 4 = 0 := by
  cases hfor : descFor descTable size with
  | none =>
    rw [granted_big hfor, arenaSize, pgSize]
    omega
  | some d =>
    obtain ⟨desc, hget, -⟩ := descFor_some hfor
    rw [granted_of_desc hfor hget]
    exact (by decide : ∀ desc ∈ descTable, desc.blockSize % 4 = 0) desc (mem_of_getElem? hget)

/-- For the eleven largest sizes the number of bytes wraps around to that of one page. -/
lemma granted_spec (hsize : size < 2 ^ 32) :
    granted size + arenaSize < 2 ^ 32 ∧ (size < 2 ^ 32 - 4107 → pagesFor descTable size ≠ 0) ∧
      (pagesFor descTable size ≠ 0 → (size ≤ granted size ↔ size < 2 ^ 32 - 11)) := by
  cases hfor : descFor descTable size with
  | none =>
    rw [granted_big hfor, pagesFor, if_pos hfor]
    simp only [bigPageCnt, arenaSize, pgSize]
    omega
  | some d =>
    obtain ⟨desc, hget, hroom⟩ := descFor_some hfor
    have hok := descOk_of_get hget
    have hle : 1 * desc.blockSize ≤ desc.blocksPerArena * desc.blockSize :=
      Nat.mul_le_mul_right _ hok.blocks
    have hfits := hok.fits
    rw [granted_of_desc hfor hget, pagesFor, if_neg (by simp [hfor])]
    simp only [arenaSize, pgSize] at hfits ⊢
    omega

structure Mallocs (h h' : Malloc) (starts : List Nat) (size b : Nat) : Prop where
  nonnull : b ≠ 0
  ok : HeapOk h' (b :: starts) none
  room : lengthAt h' (pgRoundDown b) = some (granted size)
  others : ∀ b' ∈ starts, lengthAt h' (pgRoundDown b') = lengthAt h (pgRoundDown b')

section

variable (hok : HeapOk h starts none)

include hok

lemma HeapOk.lengthAt_update
    (hhdr : h'.header = update h.header a (some arena)) (hplaced : Placed a arena)
    (hnew : ∀ a' pages, h.held a' = some pages →
      Apart a (pgSize * arena.pages) a' (pgSize * pages)) (hb : b ∈ starts) :
    lengthAt h' (pgRoundDown b) = lengthAt h (pgRoundDown b) := by
  obtain ⟨old, hold, -⟩ := hok.arena_of_live hb
  have hne : pgRoundDown b ≠ a := by
    rintro rfl
    simp [hok.header_none hplaced hnew] at hold
  rw [lengthAt, hhdr, update_of_ne hne]
  rfl

lemma HeapOk.no_live (hplaced : Placed a arena)
    (hnew : ∀ a' pages, h.held a' = some pages →
      Apart a (pgSize * arena.pages) a' (pgSize * pages)) : starts.filter (inArena a) = [] :=
  List.filter_eq_nil_iff.mpr fun b hb => by
    simp [(hok.nowhere a (hok.header_none hplaced hnew)).2 b hb]

lemma mallocs_big (hfor : descFor descTable size = none) (hpages : 1 ≤ bigPageCnt size) (ha : a ≠ 0)
    (halign : pgOfs a = 0) (hnew : ∀ a' pages, h.held a' = some pages →
      Apart a (pgSize * bigPageCnt size) a' (pgSize * pages)) :
    Mallocs h ((h.setHeld a (some (bigPageCnt size))).setHeader a (some ⟨none, bigPageCnt size⟩))
      starts size (a + arenaSize) := by
  have hplaced : Placed a ⟨none, bigPageCnt size⟩ := ⟨ha, halign, hpages, by simp⟩
  have hblock : a + arenaSize ∈ (Arena.mk none (bigPageCnt size)).blocks a := by simp [Arena.blocks]
  have hround := (hplaced.block hblock).2.2.2
  refine ⟨by omega, ?_, ?_, fun b hb => hok.lengthAt_update rfl hplaced hnew hb⟩
  · refine HeapOk.notFresh (?_ : HeapOk _ _ (some a)) fun a' ha' => ?_
    · refine hok.addArena hplaced hnew rfl rfl rfl (fun d => ⟨[], by simp⟩)
        ⟨[a + arenaSize], rfl, by simpa using hblock⟩ ?_ (by simp)
      rw [Arena.freeBlocks, nil_append, filter_cons, if_pos (inArena_eq.mpr hround),
        hok.no_live hplaced hnew]
      exact .refl _
    · obtain rfl := some.inj ha'
      exact ⟨_, mem_cons_self, inArena_eq.mpr hround⟩
  · simp [granted_big hfor, lengthAt, hround, blockLength]

lemma HeapOk.addSmall (hget : descTable[d]? = some desc) (hempty : h.freeList d = []) (ha : a ≠ 0)
    (halign : pgOfs a = 0)
    (hnew : ∀ a' pages, h.held a' = some pages → Apart a (pgSize * 1) a' (pgSize * pages)) :
    HeapOk (((h.setHeld a (some 1)).setHeader a (some ⟨some d, desc.blocksPerArena⟩)).setFreeList d
      (slotsFrom a desc 0 desc.blocksPerArena)) starts (some a) := by
  have hplaced : Placed a ⟨some d, desc.blocksPerArena⟩ := by
    refine ⟨ha, halign, le_refl 1, fun d' hd' => ?_⟩
    obtain rfl := some.inj hd'
    exact ⟨desc, hget⟩
  have hslots : slotsFrom a desc 0 desc.blocksPerArena =
      (Arena.mk (some d) desc.blocksPerArena).blocks a := slotsFrom_eq_blocks rfl hget
  have hfilter : (slotsFrom a desc 0 desc.blocksPerArena).filter (inArena a) =
      slotsFrom a desc 0 desc.blocksPerArena := by
    rw [hslots]
    exact hplaced.filter_blocks
  refine hok.addArena hplaced hnew rfl rfl rfl (fun d' => ?_) ⟨[], rfl, by simp⟩ ?_ fun d' hd' => ?_
  · by_cases heq : d' = d
    · subst heq
      refine ⟨slotsFrom a desc 0 desc.blocksPerArena, ?_, fun f hf => hslots ▸ hf, fun _ => rfl⟩
      rw [hempty, Malloc.setFreeList_freeList, update_self, nil_append]
    refine ⟨[], ?_, by simp, by simp⟩
    rw [Malloc.setFreeList_freeList, update_of_ne heq, append_nil]
    rfl
  · rw [filter_append, hok.no_live hplaced hnew, append_nil, ← hslots]
    simp only [Arena.freeBlocks, Malloc.setFreeList_freeList, update_self, hfilter]
    exact .refl _
  · obtain rfl := some.inj hd'
    rw [Malloc.setFreeList_freeList, update_self, List.countP_eq_length_filter, hfilter,
      slotsFrom, length_map, List.length_range']

end

lemma Arena.lengthAt_eq (hhdr : h'.header a = some arena) (hdesc : arena.desc = some d)
    (hget : descTable[d]? = some desc) : lengthAt h' a = some desc.blockSize := by
  rw [lengthAt, hhdr, Option.map_some, blockLength_of_desc hdesc hget]

lemma malloc_spec (hok : HeapOk h starts none) (hobtained : Obtained h size palloc) :
    wp (malloc size palloc) (fun b h' => b = 0 ∧ h' = h ∨ Mallocs h h' starts size b) h := by
  obtain ⟨hfresh, hsome⟩ := hobtained
  rw [hok.descs, pagesFor] at hfresh hsome
  simp only [malloc]
  split
  · exact .inl ⟨rfl, rfl⟩
  simp only [wp_bind, wp_get, hok.descs]
  cases hfor : descFor descTable size with
  | none =>
    rw [if_pos hfor] at hfresh hsome
    simp only [wp_ite, wp_pure, newArena, wp_bind, wp_modify]
    split
    · exact .inl ⟨trivial, trivial⟩
    · next hpalloc =>
        obtain ⟨halign, hnew⟩ := hfresh.resolve_left hpalloc
        have hpages := Nat.pos_of_ne_zero fun hzero => hpalloc (hsome hzero)
        exact .inr (mallocs_big hok hfor hpages hpalloc halign hnew)
  | some d =>
    obtain ⟨desc, hget, -⟩ := descFor_some hfor
    rw [if_neg (by simp [hfor])] at hfresh
    have hroom := granted_of_desc hfor hget
    simp only [wp_ite]
    split
    · next hempty =>
        split
        · exact .inl ⟨rfl, rfl⟩
        · next hpalloc =>
            obtain ⟨halign, hnew⟩ := hfresh.resolve_left hpalloc
            have hadded := hok.addSmall hget hempty hpalloc halign hnew
            have hhdr : (((h.setHeld palloc (some 1)).setHeader palloc
                (some ⟨some d, desc.blocksPerArena⟩)).setFreeList d
                (slotsFrom palloc desc 0 desc.blocksPerArena)).header palloc =
                some ⟨some d, desc.blocksPerArena⟩ := update_self _ _ _
            obtain ⟨n, hn⟩ := Nat.exists_eq_add_of_le' (descOk_of_get hget).blocks
            have hplaced := (hadded.arenas _ _ hhdr).toPlaced
            have hfirst : pgRoundDown (slot palloc desc 0) = palloc := by
              refine (hplaced.block ?_).2.2.2
              rw [← slotsFrom_eq_blocks rfl hget, hn, slotsFrom_succ]
              exact mem_cons_self
            have hothers : ∀ b ∈ starts, lengthAt (((h.setHeld palloc (some 1)).setHeader palloc
                (some ⟨some d, desc.blocksPerArena⟩)).setFreeList d
                (slotsFrom palloc desc 0 desc.blocksPerArena)) (pgRoundDown b) =
                lengthAt h (pgRoundDown b) :=
              fun b hb => hok.lengthAt_update rfl hplaced hnew hb
            have hlen := Arena.lengthAt_eq hhdr rfl hget
            simp only [wp_bind, wp_descAt (hok.descs ▸ hget : h.descs[d]? = some desc),
              newArena, wp_modify]
            rw [addBlocks_spec (h := (h.setHeld palloc (some 1)).setHeader palloc _) hok.descs
              hpalloc (update_self _ _ _) rfl hget (by omega)]
            have hlist : ((h.setHeld palloc (some 1)).setHeader palloc
                (some ⟨some d, desc.blocksPerArena⟩)).freeList d = [] := hempty
            rw [hlist, nil_append]
            have hcons : (((h.setHeld palloc (some 1)).setHeader palloc
                (some ⟨some d, desc.blocksPerArena⟩)).setFreeList d
                (slotsFrom palloc desc 0 desc.blocksPerArena)).freeList d =
                slot palloc desc 0 :: slotsFrom palloc desc 1 n := by
              rw [Malloc.setFreeList_freeList, update_self, hn, slotsFrom_succ]
            refine wp_mono (takeBlock_spec hadded hcons fun a ha => ?_) ?_
            · rw [hfirst, some.inj ha]
            rintro _ h' ⟨rfl, hok', hlengths⟩
            refine .inr ⟨by unfold slot arenaSize; omega, hok', ?_, fun b hb => ?_⟩
            · rw [hlengths, hfirst, hlen, hroom]
            · rw [hlengths, hothers b hb]
    · next hsome =>
        obtain ⟨b, rest, hlist⟩ := List.exists_cons_of_ne_nil hsome
        refine wp_mono (takeBlock_spec hok hlist (by simp)) ?_
        rintro r h' ⟨hr, hok', hlengths⟩
        rw [hr]
        obtain ⟨arena, hhdr, hdesc, hblock⟩ :=
          hok.arena_of_free (show b ∈ h.freeList d by simp [hlist])
        have harena := hok.arenas _ _ hhdr
        have hlow := (harena.block hblock).1
        have hlen := Arena.lengthAt_eq hhdr hdesc hget
        refine .inr ⟨?_, hok', by rw [hlengths, hlen, hroom], fun b' _ => hlengths _⟩
        simp only [arenaSize] at hlow
        omega

lemma HeapOk.dropBig (hok : HeapOk h (p :: starts) none)
    (hhdr : h.header (pgRoundDown p) = some arena) (hdesc : arena.desc = none) :
    HeapOk ((h.setHeld (pgRoundDown p) none).setHeader (pgRoundDown p) none) starts none := by
  have harena := hok.arenas _ arena hhdr
  have hin : inArena (pgRoundDown p) p = true := inArena_eq.mpr rfl
  refine hok.change rfl rfl rfl (by simp) (fun _ => ⟨fun d f hf => ?_, fun b hb => ?_⟩)
    (fun a' hne => ⟨fun _ => .refl _, ?_⟩) (fun _ _ _ => by simp)
  · by_contra hf'
    rw [Bool.not_eq_false] at hf'
    have := harena.own d f hf hf'
    simp [hdesc] at this
  · have hlen := harena.blocks.length_eq
    simp only [Arena.freeBlocks, hdesc, Arena.blocks, nil_append, filter_cons, hin, if_true,
      length_cons, length_nil] at hlen
    by_contra hb'
    rw [Bool.not_eq_false] at hb'
    have := List.length_pos_of_mem (mem_filter.mpr ⟨hb, hb'⟩)
    omega
  · rw [filter_cons, if_neg (by simp [inArena_ne rfl hne])]

lemma HeapOk.pushFree (hok : HeapOk h (p :: starts) none)
    (hhdr : h.header (pgRoundDown p) = some arena) (hdesc : arena.desc = some d) :
    HeapOk ((h.setFreeList d (p :: h.freeList d)).setHeader (pgRoundDown p)
      (some ⟨some d, arena.freeCnt + 1⟩)) starts (some (pgRoundDown p)) := by
  have harena := hok.arenas _ arena hhdr
  have hin : inArena (pgRoundDown p) p = true := inArena_eq.mpr rfl
  have hpages : (Arena.mk (some d) (arena.freeCnt + 1)).pages = arena.pages := by
    simp [Arena.pages, hdesc]
  refine hok.touch rfl rfl ?_ ?_ (fun a' hne => ⟨fun d' => ?_, ?_⟩) (fun a' arena' hne ha' => ?_)
    (fun _ _ _ => by simp) fun hself => absurd rfl hself
  · rw [hpages]
    refine (Function.update_eq_self_iff.mpr ?_).symm
    rw [Malloc.setHeader_held, Malloc.setFreeList_held, hok.held, hhdr]
    rfl
  · refine ⟨⟨harena.nonnull, harena.aligned, hpages ▸ harena.pages, fun d' hd' => ?_⟩, ?_,
      fun d' hd' => ?_, fun d' f hf hf' => ?_⟩
    · obtain rfl := some.inj hd'
      exact harena.desc d hdesc
    · have hblocks := harena.blocks
      simp only [Arena.freeBlocks, hdesc, Arena.blocks] at hblocks
      refine List.Perm.trans ?_ hblocks
      simp only [Arena.freeBlocks, Malloc.setHeader_freeList, Malloc.setFreeList_freeList,
        update_self]
      exact perm_middle.symm.filter _
    · obtain rfl := some.inj hd'
      change arena.freeCnt + 1 = (update h.freeList d (p :: h.freeList d) d).countP _
      rw [update_self, countP_cons, if_pos hin, harena.count d hdesc]
    · change f ∈ update h.freeList d (p :: h.freeList d) d' at hf
      rw [update_apply] at hf
      split at hf
      · next heq => rw [heq]
      · exact hdesc ▸ harena.own d' f hf hf'
  · change ((update h.freeList d (p :: h.freeList d) d').filter _).Perm _
    rw [update_apply]
    split
    · next heq => rw [heq, filter_cons, if_neg (by simp [inArena_ne rfl hne])]
    · exact .refl _
  · rw [filter_cons, if_neg (by simp [inArena_ne rfl hne])]
  rw [hpages]
  exact hok.apart _ a' arena arena' hhdr ha' (Ne.symm hne)

lemma HeapOk.dropSmall {blocks : List Nat} (hok : HeapOk h starts (some a))
    (hhdr : h.header a = some arena) (hdesc : arena.desc = some d)
    (hunused : starts.countP (inArena a) = 0)
    (hblocks : blocks.Perm ((h.freeList d).filter (!inArena a ·))) :
    HeapOk (((h.setFreeList d blocks).setHeld a none).setHeader a none) starts none := by
  have harena := hok.arenas _ arena hhdr
  refine hok.change rfl rfl rfl (by simp) (fun _ => ⟨fun d' f hf => ?_, fun b hb => ?_⟩)
    (fun a' hne => ⟨fun d' => ?_, .refl _⟩) (fun a' hne _ hsome => hne (some.inj hsome).symm)
  · change f ∈ update h.freeList d blocks d' at hf
    rw [update_apply] at hf
    split at hf
    · have := (mem_filter.mp (hblocks.mem_iff.mp hf)).2
      simpa using this
    · next hne =>
        by_contra hin
        rw [Bool.not_eq_false] at hin
        exact hne (some.inj ((harena.own d' f hf hin).symm.trans hdesc))
  · have := List.countP_eq_zero.mp hunused b hb
    simpa using this
  change ((update h.freeList d blocks d').filter _).Perm _
  rw [update_apply]
  split
  · next heq =>
      rw [heq]
      refine (hblocks.filter _).trans ?_
      rw [List.filter_filter]
      refine List.Perm.of_eq (List.filter_congr fun f _ => ?_)
      by_cases hf : inArena a' f = true
      · simp [hf, inArena_ne (inArena_eq.mp hf) (Ne.symm hne)]
      · simp [hf]
  · exact .refl _

lemma HeapOk.lengthAt_of_header (hok : HeapOk h' starts none)
    (hhdr : ∀ b ∈ starts, ∀ arena', h'.header (pgRoundDown b) = some arena' →
      ∃ arena, h.header (pgRoundDown b) = some arena ∧
        blockLength descTable arena' = blockLength descTable arena) :
    ∀ b ∈ starts, lengthAt h' (pgRoundDown b) = lengthAt h (pgRoundDown b) := by
  intro b hb
  obtain ⟨arena', harena', -⟩ := hok.arena_of_live hb
  obtain ⟨arena, harena, hlen⟩ := hhdr b hb arena' harena'
  rw [lengthAt, lengthAt, harena', harena, Option.map_some, Option.map_some, hlen]

lemma free_spec (hok : HeapOk h (p :: starts) none) :
    wp (free p) (fun _ h' => HeapOk h' starts none ∧
      ∀ b ∈ starts, lengthAt h' (pgRoundDown b) = lengthAt h (pgRoundDown b)) h := by
  obtain ⟨arena, hhdr, hblock⟩ := hok.arena_of_live mem_cons_self
  have harena := hok.arenas _ arena hhdr
  have hlow := (harena.block hblock).1
  have hp : p ≠ 0 := by
    simp only [arenaSize] at hlow
    omega
  have hheld := hok.held (pgRoundDown p)
  rw [hhdr, Option.map_some] at hheld
  simp only [free, hp, if_false, wp_bind, wp_blockToArena hok.descs harena.toPlaced hhdr hblock,
    wp_validArena harena.nonnull hhdr]
  cases hdesc : arena.desc with
  | none =>
    have hpages : arena.pages = arena.freeCnt := by simp [Arena.pages, hdesc]
    simp only [freeArena, wp_bind, wp_get, wp_require, wp_modify]
    have hok' := hok.dropBig hhdr hdesc
    refine ⟨hheld.trans (by rw [hpages]), hok', hok'.lengthAt_of_header fun b _ arena' ha' => ?_⟩
    rw [Malloc.setHeader_header, update_apply] at ha'
    split at ha'
    · simp at ha'
    · exact ⟨arena', ha', rfl⟩
  | some d =>
    obtain ⟨desc, hget⟩ := harena.desc d hdesc
    have htotal := harena.total hdesc hget
    have hfew := (descOk_of_get hget).few
    rw [countP_cons, if_pos (inArena_eq.mpr rfl)] at htotal
    have hmod : (arena.freeCnt + 1) % 2 ^ 32 = arena.freeCnt + 1 := Nat.mod_eq_of_lt (by omega)
    have hpush := hok.pushFree hhdr hdesc
    simp only [wp_bind, wp_descAt (hok.descs ▸ hget : h.descs[d]? = some desc),
      wp_modify, wp_ite, hmod]
    have hhdr' : ((h.setFreeList d (p :: h.freeList d)).setHeader (pgRoundDown p)
        (some ⟨some d, arena.freeCnt + 1⟩)).header (pgRoundDown p) =
        some ⟨some d, arena.freeCnt + 1⟩ := update_self _ _ _
    have hheld' := hpush.held (pgRoundDown p)
    rw [hhdr', Option.map_some] at hheld'
    have hlengths : ∀ b ∈ starts, ∀ arena', ((h.setFreeList d (p :: h.freeList d)).setHeader
        (pgRoundDown p) (some ⟨some d, arena.freeCnt + 1⟩)).header (pgRoundDown b) = some arena' →
        ∃ arena, h.header (pgRoundDown b) = some arena ∧
          blockLength descTable arena' = blockLength descTable arena := by
      intro b _ arena' ha'
      rw [Malloc.setHeader_header, update_apply] at ha'
      split at ha'
      · next heq =>
          obtain rfl := some.inj ha'
          exact ⟨arena, heq ▸ hhdr, by simp [blockLength, hdesc]⟩
      · exact ⟨arena', ha', rfl⟩
    generalize (h.setFreeList d (p :: h.freeList d)).setHeader (pgRoundDown p)
      (some ⟨some d, arena.freeCnt + 1⟩) = h₁ at *
    have harena₁ := hpush.arenas _ _ hhdr'
    split
    · next hfull =>
        have hunused : starts.countP (inArena (pgRoundDown p)) = 0 := by omega
        -- what is free in the arena is all of its blocks
        have hall : ((h₁.freeList d).filter (inArena (pgRoundDown p))).Perm
            (slotsFrom (pgRoundDown p) desc 0 desc.blocksPerArena) := by
          have hblocks := harena₁.blocks
          rw [← slotsFrom_eq_blocks rfl hget, filter_append] at hblocks
          rw [List.countP_eq_length_filter, length_eq_zero_iff] at hunused
          simpa [Arena.freeBlocks, hunused] using hblocks
        have hsplit := (List.filter_append_perm (inArena (pgRoundDown p))
          (h₁.freeList d)).symm.trans
          (hall.append_right _)
        simp only [wp_require]
        refine ⟨by omega, wp_mono (removeBlocks_spec hpush.descs harena.nonnull hhdr' rfl
          hget (by omega) hsplit) ?_⟩
        rintro _ _ ⟨blocks, rfl, hblocks⟩
        simp only [freeArena, wp_bind, wp_get, wp_require, wp_modify]
        have hok' := hpush.dropSmall hhdr' rfl hunused hblocks
        refine ⟨hheld', hok', hok'.lengthAt_of_header fun b hb arena' ha' => ?_⟩
        rw [Malloc.setHeader_header, update_apply] at ha'
        split at ha'
        · simp at ha'
        · exact hlengths b hb arena' ha'
    · next hroom =>
        have hok' : HeapOk h₁ starts none := by
          refine hpush.notFresh fun a ha => ?_
          obtain rfl := some.inj ha
          exact List.countP_pos_iff.mp (by omega)
        exact ⟨hok', hok'.lengthAt_of_header hlengths⟩

/-- `block_size` is right for every block in use that is not as large as the address space. -/
lemma blockSize_eq {len : Nat} (hok : HeapOk h starts none) (hb : b ∈ starts)
    (hlen : lengthAt h (pgRoundDown b) = some len) (hsmall : len + arenaSize < 2 ^ 32) :
    blockSize b h = .ok (len, h) := by
  obtain ⟨arena, hhdr, hblock⟩ := hok.arena_of_live hb
  have hplaced := (hok.arenas _ arena hhdr).toPlaced
  rw [lengthAt, hhdr, Option.map_some, some.injEq] at hlen
  have hwp : wp (blockSize b) (fun r h' => r = len ∧ h' = h) h := by
    simp only [blockSize, wp_bind, wp_blockToArena hok.descs hplaced hhdr hblock,
      wp_validArena hplaced.nonnull hhdr]
    cases hdesc : arena.desc with
    | none =>
      have hofs : pgOfs b = arenaSize := by
        have hle := Nat.mod_le b pgSize
        simp only [Arena.blocks, hdesc, mem_singleton, pgRoundDown, pgOfs] at hblock ⊢
        omega
      have hpages := hplaced.pages
      simp only [Arena.pages, hdesc] at hpages
      simp only [blockLength, hdesc] at hlen
      simp only [wp_pure, hofs, and_true]
      simp only [arenaSize, pgSize] at hsmall hlen ⊢
      rw [show ((4096 * arena.freeCnt : Nat) : Int) - (12 : Nat) = (len : Nat) by omega,
        toUnsigned32_ofNat (by omega)]
    | some d =>
      obtain ⟨desc, hget⟩ := hplaced.desc d hdesc
      rw [blockLength_of_desc hdesc hget] at hlen
      simp only [wp_bind, wp_descAt (hok.descs ▸ hget : h.descs[d]? = some desc),
        wp_pure, hlen, and_self]
  obtain ⟨_, _, hrun, rfl, rfl⟩ := wp_iff.mp hwp
  exact hrun

/-- The block that a call returned, if it returned one, has room for `wanted` bytes. -/
def HasRoom (wanted : Nat) (result : Except Fault (Nat × Malloc)) : Prop :=
  ∃ b h', result = .ok (b, h') ∧ (b ≠ 0 → ∃ len, blockSize b h' = .ok (len, h') ∧ wanted ≤ len)

lemma wanted_iff (hpages : pagesFor descTable (wanted % 2 ^ 32) ≠ 0) :
    wanted ≤ granted (wanted % 2 ^ 32) ↔ wanted < 2 ^ 32 - 11 := by
  obtain ⟨hsmall, -, hiff⟩ := granted_spec (Nat.mod_lt wanted (by decide : 2 ^ 32 > 0))
  by_cases hwanted : wanted < 2 ^ 32
  · rw [Nat.mod_eq_of_lt hwanted] at *
    exact hiff hpages
  · omega

lemma malloc_null (hfor : descFor h.descs size = none) : malloc size 0 h = .ok (0, h) := by
  have hwp : wp (malloc size 0) (fun b h' => b = 0 ∧ h' = h) h := by
    simp only [malloc]
    split
    · exact ⟨rfl, rfl⟩
    · simp [hfor]
  obtain ⟨_, _, hrun, rfl, rfl⟩ := wp_iff.mp hwp
  exact hrun

lemma hasRoom_iff (hok : HeapOk h starts none)
    (hsize : wanted % 2 ^ 32 = size) (hobtained : Obtained h size palloc) : HasRoom wanted
    (malloc size palloc h) ↔ wanted < 2 ^ 32 - 11 ∨ ∃ h', malloc size palloc h = .ok (0, h') := by
  obtain ⟨b, h', hrun, hb⟩ := wp_iff.mp (malloc_spec hok hobtained)
  rcases hb with ⟨rfl, rfl⟩ | hb
  · simp [HasRoom, hrun]
  have hsmall := (granted_spec (show size < 2 ^ 32 from hsize ▸ Nat.mod_lt _ (by decide))).1
  have hlen := blockSize_eq hb.ok mem_cons_self hb.room hsmall
  have hpages : pagesFor descTable size ≠ 0 := by
    intro hzero
    obtain rfl := hobtained.2 (hok.descs.symm ▸ hzero)
    have hfor : descFor h.descs size = none := by
      rw [hok.descs]
      by_contra hsome
      simp [pagesFor, hsome] at hzero
    rw [malloc_null hfor] at hrun
    cases hrun
    exact hb.nonnull rfl
  have hiff := wanted_iff (show pagesFor descTable (wanted % 2 ^ 32) ≠ 0 from hsize ▸ hpages)
  rw [hsize] at hiff
  have hnonnull := hb.nonnull
  rw [← hiff]
  simp [HasRoom, hrun, hlen, hnonnull]

end Calls

/-! ## Runs -/

structure ClientOk (s : MallocClient) : Prop where
  heap : HeapOk s.heap (s.live.map Block.start) none
  room : ∀ b ∈ s.live, ∃ len, lengthAt s.heap (pgRoundDown b.start) = some len ∧ b.size ≤ len ∧
    len + arenaSize < 2 ^ 32

section Runs

variable {s : MallocClient}

lemma ClientOk.malloc (h : ClientOk s) (hsize : size < 2 ^ 31)
    (hfresh : Fresh s.heap palloc (pagesFor s.heap.descs size)) :
    wp (malloc size palloc) (fun b heap => b = 0 ∧ heap = s.heap ∨ b ≠ 0 ∧
      ClientOk ⟨heap, ⟨b, size⟩ :: s.live⟩ ∧ ∀ b' ∈ s.live,
        lengthAt heap (pgRoundDown b'.start) = lengthAt s.heap (pgRoundDown b'.start)) s.heap := by
  obtain ⟨hsmall, hpages, hroom⟩ := granted_spec (show size < 2 ^ 32 by omega)
  have hsome := hpages (by omega)
  refine wp_mono (malloc_spec h.heap ⟨hfresh, fun hzero => absurd (h.heap.descs ▸ hzero) hsome⟩) ?_
  rintro b heap (hnull | hb)
  · exact .inl hnull
  have hothers := fun b' (hb' : b' ∈ s.live) => hb.others _ (mem_map_of_mem hb')
  refine .inr ⟨hb.nonnull, ⟨hb.ok, fun b' hmem => ?_⟩, hothers⟩
  rcases mem_cons.mp hmem with rfl | hold
  · exact ⟨_, hb.room, (hroom hsome).mpr (by omega), hsmall⟩
  obtain ⟨len, hlen, hle⟩ := h.room b' hold
  exact ⟨len, (hothers b' hold).trans hlen, hle⟩

lemma ClientOk.free (h : ClientOk s) {block : Block} (hblock : block ∈ s.live) :
    wp (free block.start) (fun _ heap => ClientOk ⟨heap, s.live.erase block⟩ ∧
      ∀ b ∈ s.live.erase block,
        lengthAt heap (pgRoundDown b.start) = lengthAt s.heap (pgRoundDown b.start)) s.heap := by
  have hperm : (block.start :: (s.live.erase block).map Block.start).Perm
      (s.live.map Block.start) := ((List.perm_cons_erase hblock).map Block.start).symm
  refine wp_mono (free_spec (h.heap.perm hperm)) ?_
  rintro _ heap ⟨hok, hlengths⟩
  have hothers := fun b (hb : b ∈ s.live.erase block) => hlengths _ (mem_map_of_mem hb)
  refine ⟨⟨hok, fun b hb => ?_⟩, hothers⟩
  obtain ⟨len, hlen, hle⟩ := h.room b (mem_of_mem_erase hb)
  exact ⟨len, (hothers b hb).trans hlen, hle⟩

lemma mallocStep_ok (h : ClientOk s) (hevent : MallocAllowed s event) :
    ∃ t, mallocStep s event = some t ∧ ClientOk t := by
  cases event with
  | malloc size palloc =>
    obtain ⟨b, heap, hrun, hb⟩ := wp_iff.mp (h.malloc hevent.1 hevent.2)
    rcases hb with ⟨rfl, rfl⟩ | ⟨hne, hok, -⟩
    · exact ⟨⟨s.heap, s.live⟩, by simp [mallocStep, hrun], h⟩
    obtain ⟨n, rfl⟩ := Nat.exists_eq_succ_of_ne_zero hne
    exact ⟨_, by simp [mallocStep, hrun], hok⟩
  | free block =>
    obtain ⟨_, heap, hrun, hok, -⟩ := wp_iff.mp (h.free hevent)
    exact ⟨_, by simp [mallocStep, hrun], hok⟩

lemma mallocStep_heapOk (h : HeapOk s.heap (s.live.map Block.start) none)
    (hevent : SizeAllowed s event) :
    ∃ t, mallocStep s event = some t ∧ HeapOk t.heap (t.live.map Block.start) none := by
  cases event with
  | malloc size palloc =>
    obtain ⟨b, heap, hrun, hb⟩ := wp_iff.mp (malloc_spec h hevent.2)
    rcases hb with ⟨rfl, rfl⟩ | hb
    · exact ⟨⟨s.heap, s.live⟩, by simp [mallocStep, hrun], h⟩
    obtain ⟨n, rfl⟩ := Nat.exists_eq_succ_of_ne_zero hb.nonnull
    exact ⟨⟨heap, ⟨n + 1, size⟩ :: s.live⟩, by simp [mallocStep, hrun], hb.ok⟩
  | free block =>
    have hperm : (block.start :: (s.live.erase block).map Block.start).Perm
        (s.live.map Block.start) := ((List.perm_cons_erase hevent).map Block.start).symm
    obtain ⟨_, heap, hrun, hok, -⟩ := wp_iff.mp (free_spec (h.perm hperm))
    exact ⟨⟨heap, s.live.erase block⟩, by simp [mallocStep, hrun], hok⟩

lemma HeapOk.starts_nodup (hok : HeapOk h starts none) : starts.Nodup := by
  refine List.nodup_iff_count_le_one.mpr fun b => ?_
  by_cases hb : b ∈ starts
  · obtain ⟨arena, hhdr, -⟩ := hok.arena_of_live hb
    have harena := hok.arenas _ arena hhdr
    have hin : inArena (pgRoundDown b) b = true := inArena_eq.mpr rfl
    have hcnt := harena.blocks.count_eq b
    rw [filter_append, count_append, List.count_filter hin, List.count_filter hin] at hcnt
    have := List.nodup_iff_count_le_one.mp harena.toPlaced.blocks_nodup b
    omega
  · rw [List.count_eq_zero_of_not_mem hb]
    omega

lemma HeapOk.blocks_apart (hok : HeapOk h starts none)
    {a b' : Nat} {arena' : Arena} (ha : h.header a = some arena)
    (ha' : h.header a' = some arena') (hb : b ∈ arena.blocks a) (hb' : b' ∈ arena'.blocks a')
    (hne : b ≠ b') : Apart b (blockLength descTable arena) b' (blockLength descTable arena') := by
  have harena := hok.arenas a arena ha
  have harena' := hok.arenas a' arena' ha'
  by_cases heq : a = a'
  · subst heq
    obtain rfl := some.inj (ha.symm.trans ha')
    exact harena.blocks_apart hb hb' hne
  obtain ⟨hlow, hhigh, -, -⟩ := harena.block hb
  obtain ⟨hlow', hhigh', -, -⟩ := harena'.block hb'
  have hapart := hok.apart a a' arena arena' ha ha' heq
  unfold Apart at *
  omega

lemma ClientOk.safe (h : ClientOk s) : MallocSafe s := by
  have hok := h.heap
  have hdescs := hok.descs
  have hlive : ∀ b ∈ s.live, ∀ arena, s.heap.header (pgRoundDown b.start) = some arena →
      b.start ∈ arena.blocks (pgRoundDown b.start) := by
    intro b hb arena ha
    obtain ⟨arena', ha', hblock⟩ := hok.arena_of_live (mem_map_of_mem hb)
    obtain rfl := some.inj (ha.symm.trans ha')
    exact hblock
  refine ⟨fun b hb => ?_, ?_, fun b hb arena ha a arena' ha' => ?_,
    fun b hb arena ha d f hf => ?_, fun a arena d ha hdesc => ?_, fun a => ?_⟩
  · obtain ⟨len, hlen, hle, -⟩ := h.room b hb
    rw [lengthAt, Option.map_eq_some_iff] at hlen
    obtain ⟨arena, ha, rfl⟩ := hlen
    exact ⟨arena, ha, hdescs ▸ hle⟩
  · rw [hdescs]
    have hnodup : s.live.Nodup := hok.starts_nodup.of_map _
    refine hnodup.pairwise_of_forall_ne fun b hb b' hb' hne arena arena' ha ha' => ?_
    refine hok.blocks_apart ha ha' (hlive b hb arena ha) (hlive b' hb' arena' ha') fun heq => hne ?_
    exact List.inj_on_of_nodup_map hok.starts_nodup hb hb' heq
  · rw [hdescs]
    have harena := hok.arenas _ arena ha
    obtain ⟨hlow, hhigh, -, -⟩ := harena.block (hlive b hb arena ha)
    by_cases heq : pgRoundDown b.start = a
    · subst heq
      exact .inr hlow
    have hpages := (hok.arenas a arena' ha').pages
    have hapart := hok.apart _ a arena arena' ha ha' heq
    simp only [Apart, arenaSize, pgSize] at *
    omega
  · rw [hdescs]
    obtain ⟨arena', ha', hdesc, hblock⟩ := hok.arena_of_free hf
    have hne : b.start ≠ f := by
      intro heq
      -- the block would be counted twice in its arena
      have harena := hok.arenas _ arena' ha'
      have hin : inArena (pgRoundDown f) f = true := inArena_eq.mpr rfl
      have hcnt := harena.blocks.count_eq f
      rw [filter_append, count_append, List.count_filter hin, List.count_filter hin] at hcnt
      simp only [Arena.freeBlocks, hdesc] at hcnt
      have hone := List.nodup_iff_count_le_one.mp harena.toPlaced.blocks_nodup f
      have hfree := List.count_pos_iff.mpr hf
      have hused := List.count_pos_iff.mpr (heq ▸ mem_map_of_mem hb : f ∈ s.live.map Block.start)
      omega
    have hapart := hok.blocks_apart ha ha' (hlive b hb arena ha) hblock hne
    have hhead := ((hok.arenas _ arena' ha').block hblock).2.2.1
    unfold Apart at *
    omega
  · have harena := hok.arenas a arena ha
    obtain ⟨desc, hget⟩ := harena.desc d hdesc
    obtain ⟨b, hb, hin⟩ := hok.used a arena ha (by simp)
    have htotal := harena.total hdesc hget
    have hpos := List.countP_pos_iff.mpr ⟨b, hb, hin⟩
    exact ⟨harena.count d hdesc, desc, hdescs ▸ hget, by omega⟩
  · rw [hok.held, Ne, Option.map_eq_none_iff]
    constructor
    · intro hsome
      obtain ⟨arena, ha⟩ := Option.ne_none_iff_exists'.mp hsome
      obtain ⟨_, hb, hin⟩ := hok.used a arena ha (by simp)
      obtain ⟨b, hb', rfl⟩ := mem_map.mp hb
      exact ⟨b, hb', inArena_eq.mp hin⟩
    · rintro ⟨b, hb, rfl⟩
      obtain ⟨arena, ha, -⟩ := hok.arena_of_live (mem_map_of_mem hb)
      simp [ha]

end Runs

lemma clientOk_of_run (hinit : mallocInit = .ok h) {events : List MallocEvent}
    (hevents : Meets mallocStep MallocAllowed ⟨h, []⟩ events) :
    ∃ s, run mallocStep ⟨h, []⟩ events = some s ∧ ClientOk s := by
  obtain rfl := Except.ok.inj (mallocInit_eq.symm.trans hinit)
  exact run_total (I := ClientOk) (fun _ _ h hevent => mallocStep_ok h hevent)
    ⟨⟨rfl, fun _ => rfl, by simp, by simp, by simp, by simp⟩, by simp⟩ hevents

/-- In every run no assertion fails and the heap is in order. -/
theorem malloc_safe_of_run {h : Malloc} (hinit : mallocInit = .ok h) {events : List MallocEvent}
    (hevents : Meets mallocStep MallocAllowed ⟨h, []⟩ events) :
    ∃ s, run mallocStep ⟨h, []⟩ events = some s ∧ MallocSafe s := by
  obtain ⟨s, hrun, hs⟩ := clientOk_of_run hinit hevents
  exact ⟨s, hrun, hs.safe⟩

def smallAndBig : List MallocEvent := [.malloc 1000 4096, .malloc 5000 8192, .free ⟨4108, 1000⟩]

theorem malloc_safe_small_and_big : ∃ h, mallocInit = .ok h ∧
    Meets mallocStep MallocAllowed ⟨h, []⟩ smallAndBig ∧
    ∃ s, run mallocStep ⟨h, []⟩ smallAndBig = some s ∧ MallocSafe s := by
  have hinit : mallocInit = .ok ⟨descTable, fun _ => [], fun _ => none, fun _ => none⟩ := rfl
  have hmeets : Meets mallocStep MallocAllowed
      ⟨⟨descTable, fun _ => [], fun _ => none, fun _ => none⟩, []⟩ smallAndBig := by
    refine .cons ⟨by decide, .inr ⟨rfl, fun a pages h => by simp at h⟩⟩ rfl ?_
    refine ⟨⟨by decide, .inr ⟨rfl, fun a pages h => ?_⟩⟩, fun s hs => ?_⟩
    · have hheld : update (fun _ => none) 4096 (some 1) a = some pages := h
      rw [update_apply] at hheld
      split at hheld
      · next heq =>
          rw [heq, ← some.inj hheld]
          decide
      · simp at hheld
    · obtain rfl := some.inj hs
      exact ⟨show Block.mk 4108 1000 ∈ [Block.mk 8204 5000, Block.mk 4108 1000] by decide,
        fun _ _ => trivial⟩
  exact ⟨_, hinit, hmeets, malloc_safe_of_run hinit hmeets⟩

/-! ## Sizes that wrap around -/

lemma heapOk_of_run (hinit : mallocInit = .ok h) {events : List MallocEvent}
    (hevents : Meets mallocStep SizeAllowed ⟨h, []⟩ events) : ∃ s,
      run mallocStep ⟨h, []⟩ events = some s ∧ HeapOk s.heap (s.live.map Block.start) none := by
  obtain rfl := Except.ok.inj (mallocInit_eq.symm.trans hinit)
  exact run_total (I := fun s => HeapOk s.heap (s.live.map Block.start) none)
    (fun _ _ h hevent => mallocStep_heapOk h hevent)
    ⟨rfl, fun _ => rfl, by simp, by simp, by simp, by simp⟩ hevents

/-- In every run, a block that is returned has the room that was asked for unless this is one of the
eleven largest sizes, and for `calloc` the product of the sizes counts. -/
theorem malloc_room_iff {h : Malloc} (hinit : mallocInit = .ok h) {events : List MallocEvent}
    (hevents : Meets mallocStep SizeAllowed ⟨h, []⟩ events) :
    ∃ s, run mallocStep ⟨h, []⟩ events = some s ∧
      (∀ size palloc, size < 2 ^ 32 → Obtained s.heap size palloc →
        (HasRoom size (malloc size palloc s.heap) ↔
          size < 2 ^ 32 - 11 ∨ ∃ h', malloc size palloc s.heap = .ok (0, h'))) ∧
      ∀ a b palloc, a < 2 ^ 32 → b < 2 ^ 32 → Obtained s.heap (a * b % 2 ^ 32) palloc →
        (HasRoom (a * b) (calloc a b palloc s.heap) ↔
          a * b < 2 ^ 32 - 11 ∨ ∃ h', calloc a b palloc s.heap = .ok (0, h')) := by
  obtain ⟨s, hrun, hok⟩ := heapOk_of_run hinit hevents
  refine ⟨s, hrun, fun size palloc hsize hobtained => ?_, fun a b palloc ha hb hobtained => ?_⟩
  · exact hasRoom_iff hok (Nat.mod_eq_of_lt hsize) hobtained
  by_cases hwrap : a * b % 2 ^ 32 < a ∨ a * b % 2 ^ 32 < b
  · have hnull : calloc a b palloc s.heap = .ok (0, s.heap) := by
      simp only [calloc, hwrap, if_true]
      rfl
    simp [HasRoom, hnull]
  have hcall : calloc a b palloc s.heap = malloc (a * b % 2 ^ 32) palloc s.heap := by
    simp only [calloc, hwrap, if_false]
  rw [hcall]
  exact hasRoom_iff hok rfl hobtained

/-- A block of one page for almost 4 GiB, and one of 33 pages for more. -/
theorem malloc_room_wraps : ∃ h h' h'', mallocInit = .ok h ∧
    malloc (2 ^ 32 - 1) 4096 h = .ok (4108, h') ∧ blockSize 4108 h' = .ok (4084, h') ∧
    calloc 65537 65537 4096 h = .ok (4108, h'') ∧ blockSize 4108 h'' = .ok (135156, h'') ∧
    135156 < 65537 * 65537 :=
  ⟨⟨descTable, fun _ => [], fun _ => none, fun _ => none⟩, _, _, rfl, rfl, rfl, rfl, rfl, by decide⟩

theorem malloc_room_iff_at_start : ∃ h, mallocInit = .ok h ∧ Obtained h 5000 4096 ∧
    (HasRoom 5000 (malloc 5000 4096 h) ↔
      5000 < 2 ^ 32 - 11 ∨ ∃ h', malloc 5000 4096 h = .ok (0, h')) := by
  have hinit : mallocInit = .ok ⟨descTable, fun _ => [], fun _ => none, fun _ => none⟩ := rfl
  obtain ⟨s, hrun, hsizes, -⟩ := @malloc_room_iff _ hinit [] trivial
  obtain rfl := some.inj hrun
  have hobtained : Obtained ⟨descTable, fun _ => [], fun _ => none, fun _ => none⟩ 5000 4096 :=
    ⟨.inr ⟨rfl, fun a pages h => by simp at h⟩, by decide⟩
  exact ⟨_, hinit, hobtained, hsizes 5000 4096 (by decide) hobtained⟩

/-- The block for `argv` in `setup_stack` is asked for with three bytes less than it is used for,
and has room for the `argc + 1` pointers. -/
theorem argv_fits {h : Malloc} (hinit : mallocInit = .ok h) {events : List MallocEvent}
    (hevents : Meets mallocStep SizeAllowed ⟨h, []⟩ events) :
    ∃ s, run mallocStep ⟨h, []⟩ events = some s ∧
      ∀ argc palloc, argc * 4 + 1 < 2 ^ 31 → Obtained s.heap (argc * 4 + 1) palloc →
        HasRoom (4 * (argc + 1)) (malloc (argc * 4 + 1) palloc s.heap) := by
  obtain ⟨s, hrun, hok⟩ := heapOk_of_run hinit hevents
  refine ⟨s, hrun, fun argc palloc hargc hobtained => ?_⟩
  obtain ⟨b, h', hcall, ⟨rfl, rfl⟩ | hb⟩ := wp_iff.mp (malloc_spec hok hobtained)
  · exact ⟨0, _, hcall, fun hnonnull => absurd rfl hnonnull⟩
  obtain ⟨hsmall, hpages, hroom⟩ := granted_spec (show argc * 4 + 1 < 2 ^ 32 by omega)
  have hfits := (hroom (hpages (by omega))).mpr (by omega)
  have hwords := granted_words (argc * 4 + 1)
  exact ⟨b, h', hcall, fun _ => ⟨_, blockSize_eq hb.ok mem_cons_self hb.room hsmall, by omega⟩⟩

theorem argv_fits_at_start : ∃ h, mallocInit = .ok h ∧ Obtained h 1021 4096 ∧
    HasRoom 1024 (malloc 1021 4096 h) := by
  obtain ⟨s, hrun, hfits⟩ := @argv_fits _ mallocInit_eq [] trivial
  obtain rfl := some.inj hrun
  have hobtained : Obtained ⟨descTable, fun _ => [], fun _ => none, fun _ => none⟩ 1021 4096 :=
    ⟨.inr ⟨rfl, fun a pages h => by simp at h⟩, by decide⟩
  exact ⟨_, mallocInit_eq, hobtained, hfits 255 4096 (by decide) hobtained⟩

end Pintos.Threads
