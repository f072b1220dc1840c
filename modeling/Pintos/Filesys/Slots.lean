import Pintos.Filesys.Handles

/-!
# The slots of any directory

A directory of any length, and not only the root, is an array of slots, which
`lookup`, `dir_add` and `dir_readdir` scan for the first slot that passes a test.
An entry may cross a sector boundary, so the results are for memory that does not
run out.
-/

namespace Pintos.Filesys

open Foundation

variable {stored : CString} {j n sector : Nat}

def entryCnt (data : InodeDisk) : Nat := data.length.toNat / dirEntrySize

def entryAddress (data : InodeDisk) (k : Nat) : Nat := sectorSize * data.start + dirEntrySize * k

structure Entry (disk : Memory) (data : InodeDisk) (name : CString) (k : Nat) : Prop where
  lt : k < entryCnt data
  inUse : entryInUse disk (entryAddress data k) = true
  hasName : entryHasName disk (entryAddress data k) name = true

structure Table (disk : Memory) (data : InodeDisk) (entries : CString → Option Nat) : Prop where
  named : ∀ k < entryCnt data, entryInUse disk (entryAddress data k) = true →
    ∃ name, ValidName name ∧ Entry disk data name k
  distinct : ∀ {name j k}, Entry disk data name j → Entry disk data name k → j = k
  entries_iff : ∀ name sector, entries name = some sector ↔
    ∃ k, Entry disk data name k ∧ entrySector disk (entryAddress data k) = sector

lemma wp_readdirLoop {s : Fs} {inode : Inode} {e : Memory} {fuel ofs : Nat}
    {Q : Option CString × Nat → Fs → Prop}
    (h : wp (scanLoop inode (fun e => entryInUse e 0) fuel e ofs)
      (fun r t => Q (if r.2.2 then (some (entryName r.1 0), r.2.1 + dirEntrySize)
        else (none, r.2.1)) t) s) : wp (readdirLoop inode fuel e ofs) Q s := by
  induction fuel generalizing e ofs s with
  | zero => exact h
  | succ fuel ih =>
    simp only [readdirLoop, scanLoop, wp_bind] at h ⊢
    refine wp_mono h ?_
    rintro ⟨bytesRead, e'⟩ t ht
    by_cases hbytes : bytesRead = dirEntrySize
    · by_cases huse : entryInUse e' 0 = true
      · simpa [hbytes, huse] using ht
      simp only [hbytes, if_true, huse, Bool.false_eq_true, if_false] at ht ⊢
      exact ih ht
    · simpa [hbytes] using ht

/-! ## What a table stores -/

section Table

variable {disk disk' e : Memory} {data : InodeDisk} {entries : CString → Option Nat}
  {name : CString} {i k : Nat}

lemma Entry.valid (h : Entry disk data name k) (htab : Table disk data entries) :
    ValidName name := by
  obtain ⟨stored, hvalid, hstored⟩ := htab.named k h.lt h.inUse
  exact CString.eq_of_sameAs hstored.hasName h.hasName ▸ hvalid

lemma Entry.eq (h : Entry disk data name k) (hstored : Entry disk data stored k) : name = stored :=
  CString.eq_of_sameAs h.hasName hstored.hasName

namespace Table

variable (h : Table disk data entries)

include h

lemma eq_none_iff : entries name = none ↔ ∀ k, ¬ Entry disk data name k := by
  constructor
  · intro hnone k hentry
    have hsome := (h.entries_iff name _).mpr ⟨k, hentry, rfl⟩
    rw [hnone] at hsome
    contradiction
  · intro hall
    cases hsome : entries name with
    | none => rfl
    | some sector =>
      obtain ⟨k, hentry, -⟩ := (h.entries_iff name sector).mp hsome
      exact absurd hentry (hall k)

lemma match_iff (hk : k < entryCnt data) (hsame : SameEntry disk (entryAddress data k) e 0) :
    (entryInUse e 0 = true ∧ entryHasName e 0 name = true) ↔ Entry disk data name k := by
  constructor
  · rintro ⟨huse, hname⟩
    obtain ⟨stored, hvalid, hstored⟩ := h.named k hk (hsame.inUse.symm.trans huse)
    have hcopy : entryHasName e 0 stored = true := (hsame.hasName hvalid).trans hstored.hasName
    exact CString.eq_of_sameAs hcopy hname ▸ hstored
  · intro hentry
    exact ⟨hsame.inUse.trans hentry.inUse, (hsame.hasName (hentry.valid h)).trans hentry.hasName⟩

lemma entry_congr (hsame : SameEntry disk (entryAddress data k) disk' (entryAddress data k)) :
    Entry disk' data name k ↔ Entry disk data name k := by
  constructor
  · intro hentry
    obtain ⟨stored, hvalid, hstored⟩ := h.named k hentry.lt (hsame.inUse.symm.trans hentry.inUse)
    have hcopy : entryHasName disk' (entryAddress data k) stored = true :=
      (hsame.hasName hvalid).trans hstored.hasName
    exact CString.eq_of_sameAs hcopy hentry.hasName ▸ hstored
  · intro hentry
    exact ⟨hentry.lt, hsame.inUse.trans hentry.inUse,
      (hsame.hasName (hentry.valid h)).trans hentry.hasName⟩

lemma change (hi : i < entryCnt data) (hother : ∀ k < entryCnt data, k ≠ i →
      SameEntry disk (entryAddress data k) disk' (entryAddress data k)) {value : Option Nat}
      (hstored : ValidName stored)
    (hslot : ∀ sector, value = some sector ↔ Entry disk' data stored i ∧
      entrySector disk' (entryAddress data i) = sector)
    (huse : entryInUse disk' (entryAddress data i) = true → value.isSome)
    (hrest : ∀ k, Entry disk data stored k → k = i)
    (honly : ∀ name, Entry disk data name i → name = stored) :
    Table disk' data (update entries stored value) where
  named k hk hin := by
    by_cases hki : k = i
    · subst hki
      obtain ⟨sector, hsec⟩ := isSome_iff_exists.mp (huse hin)
      exact ⟨stored, hstored, ((hslot sector).mp hsec).1⟩
    · obtain ⟨name, hvalid, hname⟩ := h.named k hk ((hother k hk hki).inUse.symm.trans hin)
      exact ⟨name, hvalid, (h.entry_congr (hother k hk hki)).mpr hname⟩
  distinct {name j k} hj hk := by
    -- an entry of `disk'` other than the one in slot `i` is one of `disk`
    have hback : ∀ l, l ≠ i → Entry disk' data name l → Entry disk data name l :=
      fun l hl hl' => (h.entry_congr (hother l hl'.lt hl)).mp hl'
    have hclash : ∀ l, l ≠ i → Entry disk' data name l → ¬ Entry disk' data name i := by
      intro l hl hl' hin
      obtain ⟨sector, hsec⟩ := isSome_iff_exists.mp (huse hin.inUse)
      obtain rfl := hin.eq ((hslot sector).mp hsec).1
      exact hl (hrest l (hback l hl hl'))
    by_cases hji : j = i <;> by_cases hki : k = i
    · rw [hji, hki]
    · exact absurd (hji ▸ hj) (hclash k hki hk)
    · exact absurd (hki ▸ hk) (hclash j hji hj)
    · exact h.distinct (hback j hji hj) (hback k hki hk)
  entries_iff name sector := by
    by_cases hname : name = stored
    · subst hname
      rw [update_self, hslot]
      constructor
      · rintro ⟨hentry, hsec⟩
        exact ⟨i, hentry, hsec⟩
      rintro ⟨k, hentry, hsec⟩
      by_cases hki : k = i
      · exact hki ▸ ⟨hentry, hsec⟩
      · exact absurd (hrest k ((h.entry_congr (hother k hentry.lt hki)).mp hentry)) hki
    rw [update_of_ne hname, h.entries_iff]
    constructor
    · rintro ⟨k, hentry, hsec⟩
      have hki : k ≠ i := fun hki => hname (honly name (hki ▸ hentry))
      have hsame := hother k hentry.lt hki
      exact ⟨k, (h.entry_congr hsame).mpr hentry, hsame.sector.trans hsec⟩
    · rintro ⟨k, hentry, hsec⟩
      by_cases hki : k = i
      · subst hki
        obtain ⟨x, hx⟩ := isSome_iff_exists.mp (huse hentry.inUse)
        exact absurd (hentry.eq ((hslot x).mp hx).1) hname
      · have hsame := hother k hentry.lt hki
        exact ⟨k, (h.entry_congr hsame).mp hentry, hsame.sector.symm.trans hsec⟩

lemma congr (hsame : ∀ k < entryCnt data,
    SameEntry disk (entryAddress data k) disk' (entryAddress data k)) :
    Table disk' data entries where
  named k hk hin := by
    obtain ⟨name, hvalid, hname⟩ := h.named k hk ((hsame k hk).inUse.symm.trans hin)
    exact ⟨name, hvalid, (h.entry_congr (hsame k hk)).mpr hname⟩
  distinct hj hk :=
    h.distinct ((h.entry_congr (hsame _ hj.lt)).mp hj) ((h.entry_congr (hsame _ hk.lt)).mp hk)
  entries_iff name sector := by
    rw [h.entries_iff]
    constructor
    · rintro ⟨k, hentry, hsec⟩
      exact ⟨k, (h.entry_congr (hsame k hentry.lt)).mpr hentry,
        (hsame k hentry.lt).sector.trans hsec⟩
    · rintro ⟨k, hentry, hsec⟩
      exact ⟨k, (h.entry_congr (hsame k hentry.lt)).mp hentry,
        (hsame k hentry.lt).sector.symm.trans hsec⟩

lemma insert (hi : i < entryCnt data) (hfree : entryInUse disk (entryAddress data i) ≠ true)
    (hother : ∀ k < entryCnt data, k ≠ i →
      SameEntry disk (entryAddress data k) disk' (entryAddress data k)) (hsec : sector < 2 ^ 32)
      (hname : ValidName name)
    (hnew : SameEntry (fillEntry e name sector) 0 disk' (entryAddress data i))
    (habsent : entries name = none) : Table disk' data (update entries name (some sector)) := by
  have hentry : Entry disk' data name i :=
    ⟨hi, hnew.inUse.trans (entryInUse_fillEntry e hname sector),
      (hnew.hasName hname).trans (entryHasName_fillEntry e hname sector)⟩
  have hstored : entrySector disk' (entryAddress data i) = sector :=
    hnew.sector.trans (entrySector_fillEntry e name hsec)
  refine h.change hi hother hname ?_ (fun _ => rfl) ?_ ?_
  · intro x
    rw [hstored, some.injEq]
    exact ⟨fun hx => ⟨hentry, hx⟩, fun hx => hx.2⟩
  · intro k hk
    exact absurd hk (h.eq_none_iff.mp habsent k)
  · intro other hk
    exact absurd hk.inUse hfree

lemma erase (hentry : Entry disk data name i) (hother : ∀ k < entryCnt data, k ≠ i →
      SameEntry disk (entryAddress data k) disk' (entryAddress data k))
    (hclear : entryInUse disk' (entryAddress data i) = false) :
    Table disk' data (update entries name none) := by
  refine h.change hentry.lt hother (hentry.valid h) ?_ ?_ ?_ ?_
  · intro sector
    constructor
    · intro hnone
      contradiction
    · rintro ⟨hin, -⟩
      exact absurd (hclear.symm.trans hin.inUse) Bool.false_ne_true
  · intro hin
    exact absurd (hclear.symm.trans hin) Bool.false_ne_true
  · exact fun k hk => h.distinct hk hentry
  · exact fun other hk => hk.eq hentry

lemma entryName_eq (hentry : Entry disk data name k)
    (hsame : SameEntry disk (entryAddress data k) e i) : entryName e i = name :=
  name.stringAt_eq (hentry.valid h).2 ((hsame.hasName (hentry.valid h)).trans hentry.hasName)

lemma ncard_lt_iff : {name | entries name ≠ none}.ncard < entryCnt data ↔
    ∃ k < entryCnt data, entryInUse disk (entryAddress data k) ≠ true := by
  let used := (Finset.range (entryCnt data)).filter fun k =>
    entryInUse disk (entryAddress data k) = true
  let nameOf := fun k => entryName disk (entryAddress data k)
  have hmem : ∀ k, k ∈ used ↔ k < entryCnt data ∧ entryInUse disk (entryAddress data k) = true := by
    intro k
    simp [used]
  have hentry : ∀ k ∈ used, Entry disk data (nameOf k) k := by
    intro k hk
    obtain ⟨hlt, huse⟩ := (hmem k).mp hk
    obtain ⟨name, -, hname⟩ := h.named k hlt huse
    rw [show nameOf k = name from h.entryName_eq hname fun _ _ => rfl]
    exact hname
  have hinj : Set.InjOn nameOf used := by
    intro j hj k hk heq
    have hj' := hentry j hj
    rw [heq] at hj'
    exact h.distinct hj' (hentry k hk)
  have hset : {name | entries name ≠ none} = nameOf '' (used : Set Nat) := by
    ext name
    rw [Set.mem_ofPred_eq, ne_eq, h.eq_none_iff, not_forall_not]
    constructor
    · rintro ⟨k, hk⟩
      exact ⟨k, (hmem k).mpr ⟨hk.lt, hk.inUse⟩, h.entryName_eq hk fun _ _ => rfl⟩
    · rintro ⟨k, hk, rfl⟩
      exact ⟨k, hentry k hk⟩
  rw [hset, hinj.ncard_image, Set.ncard_coe_finset]
  have hsub : used ⊆ Finset.range (entryCnt data) := Finset.filter_subset _ _
  constructor
  · intro hlt
    by_contra hall
    push Not at hall
    have heq : used = Finset.range (entryCnt data) :=
      Finset.filter_true_of_mem fun k hk => hall k (Finset.mem_range.mp hk)
    rw [heq, Finset.card_range] at hlt
    omega
  · rintro ⟨k, hk, hfree⟩
    have hlt : used.card < (Finset.range (entryCnt data)).card := by
      refine Finset.card_lt_card ⟨hsub, fun hall => hfree ?_⟩
      exact ((hmem k).mp (hall (Finset.mem_range.mpr hk))).2
    rwa [Finset.card_range] at hlt

end Table

end Table

/-! ## Reading and writing slots -/

structure IsDirectory (s : Fs) (inode : Inode) (entries : CString → Option Nat) : Prop where
  heapOk : s.HeapOk
  found : findAt Inode.addr s.openInodes inode.addr = some inode
  fits : Fits s.size inode.data
  writable : inode.denyWriteCnt = 0
  table : Table s.disk inode.data entries

section Slots

variable {s : Fs} {inode : Inode} {entries : CString → Option Nat} {name : CString}

lemma IsDirectory.spend (h : IsDirectory s inode entries) (k : Nat) :
    IsDirectory (s.spend k) inode entries := ⟨h.heapOk, h.found, h.fits, h.writable, h.table⟩

lemma dataAddress_entry (data : InodeDisk) (i : Nat) :
    dataAddress data ((dirEntrySize * i : Nat) : Int) = entryAddress data i := by
  rw [dataAddress, entryAddress, Int.toNat_natCast]

lemma available_entry (data : InodeDisk) (i : Nat) :
    (i < entryCnt data ∧
      available data dirEntrySize ((dirEntrySize * i : Nat) : Int) = dirEntrySize) ∨
      (entryCnt data ≤ i ∧ available data dirEntrySize ((dirEntrySize * i : Nat) : Int) ≤
        data.length.toNat - dirEntrySize * i ∧
        available data dirEntrySize ((dirEntrySize * i : Nat) : Int) < dirEntrySize) := by
  simp only [entryCnt, available, dirEntrySize]
  omega

lemma readSlot_spec (h : IsDirectory s inode entries) (e : Memory) {i : Nat}
    (hi : i ≤ entryCnt inode.data) :
    wp (inodeReadAt inode e dirEntrySize ((dirEntrySize * i : Nat) : Int))
      (fun r t => ∃ k, t = s.spend k ∧ ((r.1 = dirEntrySize ∧ i < entryCnt inode.data ∧
            SameEntry s.disk (entryAddress inode.data i) r.2 0) ∨
          (r.1 ≠ dirEntrySize ∧ (s.HeapOk → i = entryCnt inode.data)))) s := by
  refine wp_mono (inodeReadAt_spec e h.fits (Int.natCast_nonneg _)) ?_
  rintro r t ⟨k, n, rfl, hp, rfl⟩
  have hn := hp.full h.heapOk
  refine ⟨k, rfl, ?_⟩
  rcases available_entry inode.data i with ⟨hlt, havail⟩ | ⟨hge, -, havail⟩
  · rw [havail] at hn
    refine .inl ⟨by rw [hn], hlt, fun j hj => ?_⟩
    simp only [dataAddress_entry, hn]
    rw [copy_inside _ _ _ (by omega) (by omega)]
    congr 1
    omega
  · exact .inr ⟨by simp only [ne_eq, Int.natCast_inj]; omega, fun _ => by omega⟩

/-- A test that finds out from a copy of an entry whether its slot has the property `P`. -/
def Decides (s : Fs) (data : InodeDisk) (test : Memory → Bool) (P : Nat → Prop) : Prop :=
  ∀ i < entryCnt data, ∀ e, SameEntry s.disk (entryAddress data i) e 0 → (test e = true ↔ P i)

/-- `j` is the first slot from `i` on with the property `P`, or the end of the directory. -/
structure FirstSlot (data : InodeDisk) (P : Nat → Prop) (i j : Nat) : Prop where
  ge : i ≤ j
  before : ∀ l, i ≤ l → l < j → ¬ P l
  le : j ≤ entryCnt data
  here : j < entryCnt data → P j

lemma entryCnt_lt_entryFuel (inode : Inode) : entryCnt inode.data < entryFuel inode :=
  Nat.lt_succ_self _

lemma scanLoop_spec (h : IsDirectory s inode entries) {test : Memory → Bool} {P : Nat → Prop}
    (htest : Decides s inode.data test P) (e : Memory) (i : Nat) (hi : i ≤ entryCnt inode.data) :
    wp (scanLoop inode test (entryFuel inode) e (dirEntrySize * i)) (fun r t => ∃ k j,
      t = s.spend k ∧ FirstSlot inode.data P i j ∧ r.2.1 = dirEntrySize * j ∧
      (r.2.2 = true → j < entryCnt inode.data ∧
        SameEntry s.disk (entryAddress inode.data j) r.1 0) ∧
      (r.2.2 = false → j = entryCnt inode.data)) s := by
  have hread : ReadsSlots s inode (entryCnt inode.data) (entryAddress inode.data) :=
    fun e _ k hi => readSlot_spec (h.spend k) e hi
  refine wp_mono (scanLoop_first hread htest (entryFuel inode) e i 0 hi
    (Nat.lt_add_right i (entryCnt_lt_entryFuel inode))) ?_
  rintro r t ⟨k, j, rfl, hofs, hge, hle, hbefore, htrue, hfalse⟩
  refine ⟨k, j, rfl, ⟨hge, hbefore, hle, fun hlt => ?_⟩, hofs,
    fun hfound => ⟨(htrue hfound).1, (htrue hfound).2.2⟩, fun hnone => hfalse hnone h.heapOk⟩
  cases hfound : r.2.2 with
  | true => exact (htrue hfound).2.1
  | false => exact absurd (hfalse hfound h.heapOk) hlt.ne

lemma lookup_entry (h : IsDirectory s inode entries) (name : CString) :
    wp (lookup ⟨inode.addr⟩ (some name)) (fun r t => ∃ k, t = s.spend k ∧
      ((∃ e j, r = some (e, dirEntrySize * j) ∧ Entry s.disk inode.data name j ∧
          SameEntry s.disk (entryAddress inode.data j) e 0) ∨
        (r = none ∧ entries name = none))) s := by
  simp only [lookup, requireName, uninitialised, wp_bind, wp_pure, wp_getInode h.found, wp_get]
  refine wp_lookupLoop ?_
  have htest : Decides s inode.data (fun e => entryInUse e 0 && entryHasName e 0 name)
      (Entry s.disk inode.data name) := by
    intro i hi e hsame
    rw [Bool.and_eq_true]
    exact h.table.match_iff hi hsame
  refine wp_mono (scanLoop_spec h htest _ 0 (Nat.zero_le _)) ?_
  rintro ⟨e, ofs, found⟩ t ⟨k, j, rfl, hfirst, rfl, htrue, hfalse⟩
  refine ⟨k, rfl, ?_⟩
  cases found with
  | true =>
    obtain ⟨hlt, hsame⟩ := htrue rfl
    exact .inl ⟨e, j, rfl, hfirst.here hlt, hsame⟩
  | false =>
    refine .inr ⟨rfl, h.table.eq_none_iff.mpr fun l hl => ?_⟩
    exact hfirst.before l (Nat.zero_le _) (hfalse rfl ▸ hl.lt) hl

lemma freeSlot_spec (h : IsDirectory s inode entries) (e : Memory) :
    wp (freeSlotLoop inode (entryFuel inode) e 0) (fun r t => ∃ k j,
      t = s.spend k ∧ r.2 = dirEntrySize * j ∧
      FirstSlot inode.data (fun l => entryInUse s.disk (entryAddress inode.data l) ≠ true) 0 j)
      s := by
  refine wp_freeSlotLoop ?_
  have htest : Decides s inode.data (fun e => !entryInUse e 0)
      (fun l => entryInUse s.disk (entryAddress inode.data l) ≠ true) := by
    intro i _ e hsame
    simp [hsame.inUse]
  refine wp_mono (scanLoop_spec h htest _ 0 (Nat.zero_le _)) ?_
  rintro r t ⟨k, j, rfl, hfirst, hofs, -, -⟩
  exact ⟨k, j, rfl, hofs, hfirst⟩

/-! ## Adding an entry -/

lemma changesOnly_entry (hfit : Fits s.size inode.data) (e : Memory)
    (hn : dirEntrySize * j + n ≤ inode.data.length.toNat) : ChangesOnly (InExtent inode.data) s.disk
      (copy s.disk (entryAddress inode.data j) e 0 n) := by
  refine changesOnly_copy s.disk e _ _ 0 ?_
  have hroom := length_le_bytesToSectors hfit.length_nonneg hfit.length_lt
  simp only [sectorSize]
  omega

lemma sameEntry_copy (disk e : Memory)
    (data : InodeDisk) {k : Nat} (hout : k < j ∨ (j < k ∧ n ≤ dirEntrySize)) : SameEntry disk
    (entryAddress data k) (copy disk (entryAddress data j) e 0 n) (entryAddress data k) := by
  intro l hl
  apply copy_outside
  simp only [entryAddress, dirEntrySize] at hl hout ⊢
  omega

lemma writeSlot_spec (h : IsDirectory s inode entries) (e : Memory) (hj : j < entryCnt inode.data) :
    wp (inodeWriteAt inode e dirEntrySize ((dirEntrySize * j : Nat) : Int))
      (fun r t => ∃ k disk, t = (s.spend k).setDisk disk ∧ r = dirEntrySize ∧
        ChangesOnly (InExtent inode.data) s.disk disk ∧
        SameEntry e 0 disk (entryAddress inode.data j) ∧
        ∀ l, l ≠ j → SameEntry s.disk (entryAddress inode.data l) disk
          (entryAddress inode.data l)) s := by
  refine wp_mono (inodeWriteAt_spec e h.fits h.writable (Int.natCast_nonneg _)) ?_
  rintro r t ⟨k, n, hp, rfl, rfl⟩
  have hn := hp.full h.heapOk
  rw [dataAddress_entry]
  rcases available_entry inode.data j with ⟨-, havail⟩ | ⟨hge, -⟩
  · rw [havail] at hn
    subst hn
    refine ⟨k, _, rfl, rfl, changesOnly_entry h.fits e ?_, fun l hl => ?_, fun l hl => ?_⟩
    · simp only [entryCnt, dirEntrySize] at hj ⊢
      omega
    · rw [copy_inside _ _ _ (by omega) (by omega)]
      congr 1
      omega
    · exact sameEntry_copy _ _ _ (by omega)
  · omega

lemma writeEnd_spec (h : IsDirectory s inode entries) (e : Memory) :
    wp (inodeWriteAt inode e dirEntrySize ((dirEntrySize * entryCnt inode.data : Nat) : Int))
      (fun r t => ∃ k disk, t = (s.spend k).setDisk disk ∧ r ≠ dirEntrySize ∧
        ChangesOnly (InExtent inode.data) s.disk disk ∧
        ∀ l < entryCnt inode.data, SameEntry s.disk (entryAddress inode.data l) disk
          (entryAddress inode.data l)) s := by
  refine wp_mono (inodeWriteAt_spec e h.fits h.writable (Int.natCast_nonneg _)) ?_
  rintro r t ⟨k, n, hp, rfl, rfl⟩
  have hn := hp.full h.heapOk
  rw [dataAddress_entry]
  rcases available_entry inode.data (entryCnt inode.data) with ⟨hlt, -⟩ | ⟨-, hroom, hshort⟩
  · omega
  rw [← hn] at hroom hshort
  refine ⟨k, _, rfl, by simp only [ne_eq, Int.natCast_inj]; omega,
    changesOnly_entry h.fits e ?_, fun l hl => sameEntry_copy _ _ _ (.inl hl)⟩
  have hcnt : dirEntrySize * entryCnt inode.data ≤ inode.data.length.toNat := Nat.mul_div_le _ _
  omega

structure CanAdd (entries : CString → Option Nat) (slots : Nat) (name : CString) : Prop where
  valid : ValidName name
  absent : entries name = none
  room : {name | entries name ≠ none}.ncard < slots

open Classical in
/-- The entries after `dir_add`. -/
noncomputable def added (entries : CString → Option Nat) (slots : Nat) (name : CString)
    (sector : Nat) : CString → Option Nat :=
  if CanAdd entries slots name then update entries name (some sector) else entries

lemma addEntry_spec (h : IsDirectory s inode entries) (name : CString)
    (hsec : sector < 2 ^ 32) : wp (dirAdd ⟨inode.addr⟩ (some name) sector) (fun r t => ∃ k disk,
      t = (s.spend k).setDisk disk ∧ ChangesOnly (InExtent inode.data) s.disk disk ∧
      Table disk inode.data (added entries (entryCnt inode.data) name sector) ∧
      (r = true ↔ CanAdd entries (entryCnt inode.data) name)) s := by
  -- every way out that adds nothing
  have refused : ∀ k, ¬ CanAdd entries (entryCnt inode.data) name → ∃ k' disk,
      s.spend k = (s.spend k').setDisk disk ∧ ChangesOnly (InExtent inode.data) s.disk disk ∧
      Table disk inode.data (added entries (entryCnt inode.data) name sector) ∧
      (false = true ↔ CanAdd entries (entryCnt inode.data) name) := by
    intro k hcannot
    refine ⟨k, s.disk, rfl, .refl _ _, ?_, by simpa using hcannot⟩
    rw [added, if_neg hcannot]
    exact h.table
  simp only [dirAdd, requireName, wp_bind, wp_pure, wp_ite]
  by_cases hbad : name.strlen = 0 ∨ name.strlen > nameMax
  · rw [if_pos hbad]
    refine refused 0 fun hcan => ?_
    have hvalid := hcan.valid
    simp only [ValidName] at hvalid
    omega
  rw [if_neg hbad]
  have hvalid : ValidName name := by
    simp only [ValidName]
    omega
  refine wp_mono (lookup_entry h name) ?_
  rintro r t ⟨k, rfl, ⟨e, j, rfl, hentry, -⟩ | ⟨rfl, habsent⟩⟩
  · refine refused k fun hcan => ?_
    exact h.table.eq_none_iff.mp hcan.absent j hentry
  have hk := h.spend k
  simp only [wp_bind, wp_getInode hk.found, uninitialised, wp_get, wp_pure]
  refine wp_mono (freeSlot_spec hk _) ?_
  rintro ⟨e, ofs⟩ t ⟨k', j, rfl, rfl, hfirst⟩
  rw [Fs.spend_spend]
  have hk' := h.spend (k + k')
  rcases Nat.lt_or_ge j (entryCnt inode.data) with hlt | hge
  · refine wp_mono (writeSlot_spec hk' _ hlt) ?_
    rintro r t ⟨k'', disk, rfl, rfl, hchange, hnew, hother⟩
    have hcan : CanAdd entries (entryCnt inode.data) name :=
      ⟨hvalid, habsent, h.table.ncard_lt_iff.mpr ⟨j, hlt, hfirst.here hlt⟩⟩
    refine ⟨k + k' + k'', disk, by rw [Fs.spend_spend], hchange, ?_, by simpa using hcan⟩
    rw [added, if_pos hcan]
    exact h.table.insert hlt (hfirst.here hlt) (fun l _ hl => hother l hl) hsec hvalid hnew habsent
  obtain rfl : j = entryCnt inode.data := le_antisymm hfirst.le hge
  refine wp_mono (writeEnd_spec hk' _) ?_
  rintro r t ⟨k'', disk, rfl, hshort, hchange, hsame⟩
  have hcannot : ¬ CanAdd entries (entryCnt inode.data) name := by
    intro hcan
    obtain ⟨l, hl, hfree⟩ := h.table.ncard_lt_iff.mp hcan.room
    exact hfirst.before l (Nat.zero_le _) hl hfree
  refine ⟨k + k' + k'', disk, by rw [Fs.spend_spend], hchange, ?_, by simpa [hshort] using hcannot⟩
  rw [added, if_neg hcannot]
  exact h.table.congr hsame

/-! ## Listing -/

/-- `dir_readdir` from `pos` on until it returns false; `none` if it was called too few times. -/
def listing (dir : Dir) : Nat → Nat → FsAction (Option (List CString))
  | 0, _ => pure none
  | calls + 1, pos => do
    let (name, pos) ← dirReaddir dir pos
    match name with
    | none => return some []
    | some name => do
      let rest ← listing dir calls pos
      return rest.map (name :: ·)

lemma readdir_spec (h : IsDirectory s inode entries) {i : Nat} (hi : i ≤ entryCnt inode.data) :
    wp (dirReaddir ⟨inode.addr⟩ (dirEntrySize * i)) (fun r t => ∃ k j, t = s.spend k ∧
      FirstSlot inode.data (fun l => entryInUse s.disk (entryAddress inode.data l) = true) i j ∧
      ((∃ name, r = (some name, dirEntrySize * (j + 1)) ∧ Entry s.disk inode.data name j) ∨
        (r = (none, dirEntrySize * j) ∧ j = entryCnt inode.data))) s := by
  simp only [dirReaddir, uninitialised, wp_bind, wp_getInode h.found, wp_get, wp_pure]
  refine wp_readdirLoop ?_
  have htest : Decides s inode.data (fun e => entryInUse e 0)
      (fun l => entryInUse s.disk (entryAddress inode.data l) = true) := by
    intro l _ e hsame
    simp [hsame.inUse]
  refine wp_mono (scanLoop_spec h htest _ i hi) ?_
  rintro ⟨e, ofs, found⟩ t ⟨k, j, rfl, hfirst, rfl, htrue, hfalse⟩
  refine ⟨k, j, rfl, hfirst, ?_⟩
  cases found with
  | true =>
    obtain ⟨hlt, hsame⟩ := htrue rfl
    obtain ⟨name, -, hname⟩ := h.table.named j hlt (hfirst.here hlt)
    refine .inl ⟨name, ?_, hname⟩
    simp only [if_true]
    rw [h.table.entryName_eq hname hsame, Nat.mul_succ]
  | false => exact .inr ⟨rfl, hfalse rfl⟩

lemma listing_spec (h : IsDirectory s inode entries) (calls : Nat) : ∀ i k,
    i ≤ entryCnt inode.data → entryCnt inode.data < calls + i →
    wp (listing ⟨inode.addr⟩ calls (dirEntrySize * i)) (fun r t => ∃ k names,
      t = s.spend k ∧ r = some names ∧ names.Nodup ∧
      ∀ name, name ∈ names ↔ ∃ j, i ≤ j ∧ Entry s.disk inode.data name j) (s.spend k) := by
  induction calls with
  | zero =>
    intro i k hi hcalls
    omega
  | succ calls ih =>
    intro i k hi hcalls
    simp only [listing, wp_bind]
    refine wp_mono (readdir_spec (h.spend k) hi) ?_
    rintro r t ⟨k', j, rfl, hfirst, ⟨name, rfl, hname⟩ | ⟨rfl, rfl⟩⟩
    · have hge := hfirst.ge
      have hlt := hname.lt
      simp only [Fs.spend_spend, wp_bind, wp_pure]
      refine wp_mono (ih (j + 1) (k + k') hlt (by omega)) ?_
      rintro rest t ⟨k'', names, rfl, rfl, hnodup, hmem⟩
      refine ⟨k'', name :: names, rfl, rfl, nodup_cons.mpr ⟨?_, hnodup⟩, ?_⟩
      · intro hin
        obtain ⟨l, hl, hentry⟩ := (hmem name).mp hin
        have heq := h.table.distinct hentry hname
        omega
      intro other
      rw [mem_cons, hmem]
      constructor
      · rintro (rfl | ⟨l, hl, hentry⟩)
        · exact ⟨j, hge, hname⟩
        · exact ⟨l, by omega, hentry⟩
      · rintro ⟨l, hl, hentry⟩
        rcases Nat.lt_trichotomy l j with hlj | rfl | hlj
        · exact absurd hentry.inUse (hfirst.before l hl hlj)
        · exact .inl (hentry.eq hname)
        · exact .inr ⟨l, hlj, hentry⟩
    · refine ⟨k + k', [], by rw [Fs.spend_spend], rfl, nodup_nil, fun name => ?_⟩
      simp only [not_mem_nil, false_iff, not_exists, not_and]
      intro l hl hentry
      exact hfirst.before l hl hentry.lt hentry.inUse

end Slots

end Pintos.Filesys
