import Pintos.Filesys.Invariant

/-!
# Allocating and releasing sectors

The free map and `inode_create` seen through the invariant.  `Evolves s t W`
says what every step of this kind guarantees: the tables are the same and no
live inode outside `W` has lost its header or a byte of its data.
-/

namespace Pintos.Filesys

open Foundation

variable {cnt n : Nat} {map written : Bitmap}

structure Evolves (extra : List Nat) (W : Nat → Prop) (s t : Fs) : Prop where
  sound : Sound t extra
  tables : SameTables s t
  keeps : Keeps (Live s) W s.disk t.disk

namespace Evolves

variable {extra : List Nat} {W W' : Nat → Prop} {s t u : Fs}

lemma live_iff (h : Evolves extra W s t) (hs : Sound s extra)
    (hW : ¬ W rootDirSector) (x : Nat) : Live t x ↔ Live s x :=
  hs.live_iff_of_keeps h.tables h.keeps hW x

lemma trans (hs : Sound s extra) (h : Evolves extra W s t) (hW : ¬ W rootDirSector)
    (h' : Evolves extra W' t u) : Evolves extra (fun x => W x ∨ W' x) s u where
  sound := h'.sound
  tables := h.tables.trans h'.tables
  keeps :=
    (h.keeps.mono fun _ => .inl).trans
      ((h'.keeps.mono fun _ => .inr).restrict fun x hx => (h.live_iff hs hW x).mpr hx)

lemma mono (h : Evolves extra W s t) (hW : ∀ x, W x → W' x) : Evolves extra W' s t :=
  ⟨h.sound, h.tables, h.keeps.mono hW⟩

end Evolves

lemma Sound.spend {s : Fs} {extra : List Nat} (h : Sound s extra) (W : Nat → Prop)
    (k : Nat) : Evolves extra W s (s.spend k) :=
  have hst : SameTables s (s.spend k) := ⟨rfl, rfl, rfl, rfl, rfl, le_refl _⟩
  ⟨h.keepsData hst (.refl _ (fun _ => False) _) id id rfl, hst, .refl _ _ _⟩

section FreeMap

variable {s : Fs} {extra : List Nat}

/-- A change that writes the free map and nothing else. -/
structure Releases (extra : List Nat) (s t : Fs) : Prop
    extends Evolves extra (· = freeMapSector) s t where
  changes : ChangesOnly (InExtent (headerAt s.disk freeMapSector)) s.disk t.disk

section

variable (h : Sound s extra)

include h

lemma Sound.changesOnly_saveTo (written : Bitmap) (hn : n ≤ Bitmap.byteCnt s.freeMap.bitCnt) :
    ChangesOnly (InExtent (headerAt s.disk freeMapSector)) s.disk
      (saveTo (some (headerAt s.disk freeMapSector)) s.disk written n) := by
  have hfit := h.device.fits (live_map s)
  have hlen := length_le_bytesToSectors hfit.length_nonneg hfit.length_lt
  have hroom : 0 + n ≤ sectorSize * bytesToSectors (headerAt s.disk freeMapSector).length := by
    have hbytes := h.device.mapLength
    rw [h.device.bitCnt_eq] at hn
    simp only [sectorSize]
    omega
  exact changesOnly_copy s.disk written.bytes (headerAt s.disk freeMapSector).start _ 0 hroom

lemma Sound.keeps_saveTo (written : Bitmap)
    (hn : n ≤ Bitmap.byteCnt s.freeMap.bitCnt) : Keeps (Live s) (· = freeMapSector) s.disk
      (saveTo (some (headerAt s.disk freeMapSector)) s.disk written n) :=
  h.device.keeps_of_extent (live_map s) (h.changesOnly_saveTo written hn)

lemma Sound.save (k : Nat)
    (hn : n ≤ Bitmap.byteCnt s.freeMap.bitCnt) (hcnt : map.bitCnt = s.freeMap.bitCnt)
    (hused : ∀ x sector, Live s x → Occupies s.disk x sector → map.get sector = true)
    (hsaved : s.HeapOk → MapSaved
      (saveTo (some (headerAt s.disk freeMapSector)) s.disk written n) map) :
    Evolves extra (· = freeMapSector) s
      (s.save (some (headerAt s.disk freeMapSector)) k map written n) := by
  have hst : SameTables s (s.save (some (headerAt s.disk freeMapSector)) k map written n) :=
    ⟨rfl, rfl, rfl, rfl, rfl, le_refl _⟩
  have hkeep := h.keeps_saveTo written hn
  exact ⟨h.keeps hst hkeep (by decide) hcnt hused hsaved, hst, hkeep⟩

lemma Sound.mapSaved_saveTo
    (hcnt : map.bitCnt = s.freeMap.bitCnt) (hn : n = Bitmap.byteCnt s.freeMap.bitCnt) :
    MapSaved (saveTo (some (headerAt s.disk freeMapSector)) s.disk map n) map := by
  intro i hi
  rw [(h.keeps_saveTo map hn.le).header (live_map s), hn, ← hcnt]
  exact map.bitAt_copy_bytes _ _ hi

lemma Sound.refused (k : Nat) {P : Prop} (hn : n ≤ Bitmap.byteCnt s.freeMap.bitCnt)
    (hheap : s.HeapOk → n = 0 ∧ P) : Evolves extra (· = freeMapSector) s
        (s.save (some (headerAt s.disk freeMapSector)) k s.freeMap written n) ∧ (s.HeapOk →
        (s.save (some (headerAt s.disk freeMapSector)) k s.freeMap written n).disk =
          s.disk ∧ P) := by
  have hdisk : s.HeapOk →
      saveTo (some (headerAt s.disk freeMapSector)) s.disk written n = s.disk := by
    intro hok
    rw [(hheap hok).1, saveTo_zero]
  refine ⟨h.save k hn rfl (fun x y hx ho => h.used hx ho) ?_, ?_⟩
  · intro hok
    rw [hdisk hok]
    exact h.saved hok
  · intro hok
    exact ⟨hdisk hok, (hheap hok).2⟩

lemma Sound.used_marked {start : Nat} (hmarked : Marked s.freeMap map start cnt true) (x y : Nat)
    (hx : Live s x) (ho : Occupies s.disk x y) : map.get y = true := by
  rw [hmarked.get_eq]
  split
  · rfl
  · exact h.used hx ho

lemma freeMapAllocate_sound (cnt : Nat) : wp (freeMapAllocate cnt)
      (fun r t => Evolves extra (· = freeMapSector) s t ∧
        (∀ sector, r = some sector → FirstFit s.freeMap cnt sector ∧
          Marked s.freeMap t.freeMap sector cnt true) ∧ (r = none → t.freeMap = s.freeMap ∧
          (s.HeapOk → t.disk = s.disk ∧ ∀ i, ¬ s.freeMap.Run i cnt false))) s := by
  refine wp_mono (freeMapAllocate_spec h.mapStore cnt) ?_
  rintro r t ⟨k, ⟨sector, map, rfl, hfirst, hmarked, rfl⟩ | ⟨written, n, rfl, hle, hheap, rfl⟩⟩
  · refine ⟨h.save k (le_refl _) hmarked.bitCnt_eq (h.used_marked hmarked) fun _ =>
      h.mapSaved_saveTo hmarked.bitCnt_eq rfl, ?_, by simp⟩
    rintro _ ⟨⟩
    exact ⟨hfirst, hmarked⟩
  · obtain ⟨hevolves, hrefused⟩ := h.refused k hle hheap
    exact ⟨hevolves, by simp, fun _ => ⟨rfl, hrefused⟩⟩

lemma freeMapRelease_sound {sector : Nat} (hrun : s.freeMap.Run sector cnt true)
    (hfree : ∀ x y, Live s x → Occupies s.disk x y → ¬ (sector ≤ y ∧ y < sector + cnt)) :
    wp (freeMapRelease sector cnt)
      (fun _ t => Releases extra s t ∧ Marked s.freeMap t.freeMap sector cnt false) s := by
  refine wp_mono (freeMapRelease_spec h.mapStore hrun) ?_
  rintro _ t ⟨k, map, n, hmarked, hle, hheap, rfl⟩
  refine ⟨⟨h.save k hle hmarked.bitCnt_eq ?_ fun hok =>
    h.mapSaved_saveTo hmarked.bitCnt_eq (hheap hok), h.changesOnly_saveTo map hle⟩, hmarked⟩
  intro x y hx ho
  rw [hmarked.get_eq, if_neg (hfree x y hx ho)]
  exact h.used hx ho

end

end FreeMap

/-! ## A new inode -/

section Create

variable {s : Fs} {extra : List Nat} {sector : Nat} {length : Int}

lemma changesOnly_newInodeDisk (disk : Memory) (sector : Nat) (data : InodeDisk) :
    ChangesOnly (fun x => x = sector ∨ InExtent data x) disk (newInodeDisk disk sector data) := by
  have hhdr := changesOnly_copy disk data.encode sector 1 0
    (show 0 + sectorSize ≤ sectorSize * 1 by simp)
  have hdata := changesOnly_copy (copy disk (sectorSize * sector) data.encode 0 sectorSize)
    (fun _ => 0) data.start (bytesToSectors data.length) 0
    (show 0 + sectorSize * bytesToSectors data.length ≤ _ by simp)
  refine (hhdr.mono ?_).trans (hdata.mono ?_)
  · intro x hx
    exact .inl (by omega)
  · intro x hx
    exact .inr hx

lemma headerAt_newInodeDisk (disk : Memory) {sector : Nat} {data : InodeDisk}
    (hstart : data.start < 2 ^ 32) (hlo : 0 ≤ data.length) (hhi : data.length < 2 ^ 31)
    (hout : ¬ InExtent data sector) : headerAt (newInodeDisk disk sector data) sector = data := by
  refine InodeDisk.decode_encode hstart hlo hhi fun k hk => ?_
  simp only [InExtent] at hout
  rw [newInodeDisk, copy_outside _ _ _ (by simp only [sectorSize]; omega),
    copy_inside _ _ _ (by omega) (by simp only [sectorSize]; omega)]
  congr 1
  omega

lemma newInodeDisk_data (disk : Memory) (sector : Nat) (data : InodeDisk) {a : Nat}
    (ha : InExtent data (a / sectorSize)) : newInodeDisk disk sector data a = 0 := by
  simp only [InExtent, sectorSize] at ha
  rw [newInodeDisk, copy_inside _ _ _ (by simp only [sectorSize]; omega)
    (by simp only [sectorSize]; omega)]

lemma inodeCreate_sound (h : Sound s extra) (hlo : 0 ≤ length) (hhi : length < 2 ^ 31)
    (hsec : sector < s.size) (hreserved : s.freeMap.get sector = true)
    (hidle : ∀ x, Live s x → ¬ Occupies s.disk x sector) : wp (inodeCreate sector length)
      (fun r t => Evolves extra (· = freeMapSector) s t ∧
        (r = true → ∃ start, FirstFit s.freeMap (bytesToSectors length) start ∧
          Marked s.freeMap t.freeMap start (bytesToSectors length) true ∧
          headerAt t.disk sector = ⟨start, length⟩ ∧
          ∀ a, InExtent ⟨start, length⟩ (a / sectorSize) → t.disk a = 0) ∧
        (r = false → t.freeMap = s.freeMap ∧ (s.HeapOk → t.disk = s.disk ∧
          ∀ i, ¬ s.freeMap.Run i (bytesToSectors length) false))) s := by
  refine wp_mono (inodeCreate_spec h.mapStore hlo hsec h.device.bitCnt_eq) ?_
  rintro r t ⟨k, ⟨start, map, rfl, hfirst, hmarked, rfl⟩ | ⟨written, n, rfl, hle, hheap, rfl⟩⟩
  · -- the new extent was free, so neither the header nor a live inode is in it
    have hfree : ∀ y, InExtent ⟨start, length⟩ y → s.freeMap.get y = false :=
      fun y hy => hfirst.1.2 y hy.1 hy.2
    have hout : ¬ InExtent ⟨start, length⟩ sector := by
      intro hin
      rw [hfree sector hin] at hreserved
      contradiction
    have hstart : start < 2 ^ 32 := by
      have hroom := hfirst.1.1
      have hcnt := h.device.bitCnt_eq
      have hsize := h.device.size_le
      omega
    have hsave := h.save k (le_refl _) hmarked.bitCnt_eq (h.used_marked hmarked) fun _ =>
      h.mapSaved_saveTo hmarked.bitCnt_eq rfl
    have hch := changesOnly_newInodeDisk (saveTo (some (headerAt s.disk freeMapSector)) s.disk map
        (Bitmap.byteCnt s.freeMap.bitCnt)) sector ⟨start, length⟩
    have hspare : ∀ x y, Live s x → Occupies s.disk x y →
        ¬ (y = sector ∨ InExtent ⟨start, length⟩ y) := by
      rintro x y hx ho (rfl | hy)
      · exact hidle x hx ho
      have hused := h.used hx ho
      rw [hfree y hy] at hused
      contradiction
    have hkeep : Keeps (Live s) (fun _ => False) _ _ := .of_changesOnly hch
      (fun x hx => hspare x x hx (.inl rfl)) (fun x hx _ y hy => hspare x y hx (.inr (by
        rwa [(h.keeps_saveTo map (le_refl _)).header hx] at hy)))
    have hst : SameTables s ((s.save (some (headerAt s.disk freeMapSector)) k map map
        (Bitmap.byteCnt s.freeMap.bitCnt)).setDisk (newInodeDisk
          (saveTo (some (headerAt s.disk freeMapSector)) s.disk map
            (Bitmap.byteCnt s.freeMap.bitCnt)) sector ⟨start, length⟩)) :=
      ⟨rfl, rfl, rfl, rfl, rfl, le_refl _⟩
    refine ⟨⟨?_, hst, hsave.keeps.trans (hkeep.mono fun _ => False.elim)⟩, fun _ =>
      ⟨start, hfirst, hmarked, ?_, ?_⟩, by simp⟩
    · refine hsave.sound.keepsData (W := fun _ => False) ⟨rfl, rfl, rfl, rfl, rfl, le_refl _⟩
        (hkeep.restrict fun x hx => (hsave.live_iff h (by decide) x).mp hx) id id rfl
    · exact headerAt_newInodeDisk _ hstart hlo hhi hout
    intro a ha
    exact newInodeDisk_data _ _ _ ha
  · obtain ⟨hevolves, hrefused⟩ := h.refused k hle hheap
    exact ⟨hevolves, by simp, fun _ => ⟨rfl, hrefused⟩⟩

end Create

end Pintos.Filesys
