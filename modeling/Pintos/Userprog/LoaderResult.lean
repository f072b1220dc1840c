import Pintos.Userprog.LoaderStack

/-!
# What `load` leaves in memory

The address space of a process when `load` returns true: the segments that the
executable describes, and the stack.  `setup_stack` pushes the arguments after the
segments have been read, so that an argument block larger than the stack page
goes on into whatever writable segment lies below it.
-/

namespace Pintos.Userprog.Loader

open Foundation Filesys Vm

variable {fs : Fs} {ph : Phdr} {i page : Nat} {cmdline : CommandLine} {name : CString}

/-! ## The parts of `load` -/

def openExecutable (name : Option CString) : KernelAction (Option Nat) := do
  let _ ← threadCurrent
  copyString
  copyString
  let created ← onFs malloc
  if created then do
    updateCurrent (·.setPagedir (some .empty))
    onFs (filesysOpen name)
  else do
    updateCurrent (·.setPagedir none)
    return none

def loadSegments (file : Nat) : KernelAction (Option Nat) := do
  let (bytesRead, ehdr) ← onFs (fileRead file (fun _ => 0) ehdrSize)
  let ehdr := Ehdr.decode ehdr
  if bytesRead = ehdrSize ∧ ehdr.Accepted then
    if ← loadHeaders file ehdr.ePhnum (toSigned32 ehdr.ePhoff) then return some ehdr.eEntry
    else return none
  else return none

lemma loadImage_eq (file : Nat) (cmdline : CommandLine) : loadImage file cmdline = (do
    match ← loadSegments file with
    | none => return none
    | some entry =>
      match ← setupStack cmdline with
      | some esp => return some (entry, esp)
      | none => return none) := by
  rw [loadImage, loadSegments, Action.bind_assoc]
  congr 1
  funext ⟨bytesRead, ehdr⟩
  dsimp only
  split
  · rw [Action.bind_assoc]
    congr 1
    funext loaded
    cases loaded with
    | false => rfl
    | true => rfl
  · rfl

lemma load_eq (cmdline : CommandLine) : load cmdline = (do
    match ← openExecutable cmdline.tokens.head? with
    | none => return none
    | some file =>
      match ← loadImage file cmdline with
      | some start => do
        updateCurrent ({ · with exec := some file })
        onFs (fileDenyWrite file)
        return some start
      | none => do
        onFs (fileClose (some file))
        return none) := by
  simp only [load, openExecutable, Action.bind_assoc]
  congr 1
  funext _
  congr 1
  funext _
  congr 1
  funext _
  congr 1
  funext created
  cases created with
  | true =>
    rewrite [if_pos rfl, if_pos rfl, Action.bind_assoc]
    rfl
  | false =>
    simp only [Bool.false_eq_true, if_false, Action.bind_assoc]
    rfl

/-! ## Outcomes -/

def segmentHeaders (contents : Memory) : List Phdr :=
  let ehdr := Ehdr.decode contents
  (headersFrom contents ehdr.ePhoff ehdr.ePhnum).filter (·.pType = ptLoad)

def Names (disk : Memory) (cmdline : CommandLine) (data : InodeDisk) : Prop :=
  ∃ name i, cmdline.tokens.head? = some name ∧ Binds disk name i ∧
    headerAt disk (slotSector disk i) = data

def currentPagedir (k : Kernel) : Option PageTable :=
  (findAt Process.tid k.allList k.current).bind (·.pagedir)

section

variable {k t : Kernel} {disk : Memory} {data : InodeDisk} {file : Nat}

lemma Space.currentPagedir {pd : PageTable} (h : Space k pd) : currentPagedir k = some pd := by
  obtain ⟨process, hproc, hpd⟩ := h.current
  rw [Loader.currentPagedir, hproc]
  exact hpd

lemma threadCurrent_outcome (k : Kernel) : outcome threadCurrent
    (fun process t => t = k ∧ findAt Process.tid k.allList k.current = some process)
    (fun _ => True) k := by
  simp only [threadCurrent, outcome_bind, outcome_get]
  cases findAt Process.tid k.allList k.current with
  | none => trivial
  | some process => exact ⟨rfl, rfl⟩

lemma filesysOpen_openAt (h : DenySound fs) (name : CString) :
    outcome (filesysOpen (some name)) (fun r t => ∀ file, r = some file →
      ∃ i, Binds fs.disk name i ∧
        OpenAt t fs.disk (headerAt fs.disk (slotSector fs.disk i)) file 0) (fun _ => True) fs := by
  refine outcome_mono (filesysOpen_follows h name) ?_ fun _ => id
  rintro r t hr file rfl
  obtain ⟨i, hbinds, ht, hopened⟩ := hr file rfl
  obtain ⟨_, inode', -, hi, -, hpos, -, hsec, hfile, hinode, -⟩ :=
    ht.handle ((hopened.handles file _ 0).mpr (.inr ⟨rfl, rfl, rfl⟩))
  rw [findFile_undenied] at hfile
  obtain ⟨f, hf, rfl⟩ := Option.map_eq_some_iff.mp hfile
  rw [findInode_undenied] at hinode
  obtain ⟨inode, hfound, rfl⟩ := Option.map_eq_some_iff.mp hinode
  have hdisk : t.disk = fs.disk := hopened.device.disk
  have hdata : inode.data = headerAt t.disk inode.undenied.sector := (ht.inodes _ hi).cached
  have hfits : Fits t.size (headerAt t.disk inode.undenied.sector) := ht.device.fits (live_open hi)
  rw [hsec, hdisk] at hdata hfits
  exact ⟨i, hbinds, hdisk, hfits, le_refl 0, f, inode, hf, hfound, hdata, hpos⟩

lemma filesysOpen_null (fs : Fs) :
    outcome (filesysOpen none) (fun r _ => r = none) (fun _ => True) fs := by
  simp only [filesysOpen, outcome_bind]
  refine outcome_mono (outcome_of_stops dirOpenRoot fs trivial) ?_ fun _ => id
  intro dir t _
  cases dir with
  | some dir => simp only [dirLookup, lookup, requireName, outcome_bind, outcome_stop]
  | none =>
    simp only [dirClose, outcome_bind, outcome_pure]
    exact outcome_of_wp (wp_mono (fileOpen_null t) fun _ _ ht => ht.1)

lemma openExecutable_outcome (h : DenySound k.fs) (cmdline : CommandLine) :
    outcome (openExecutable cmdline.tokens.head?) (fun r t => ∀ file, r = some file →
      Space t .empty ∧ ∃ data, Names k.fs.disk cmdline data ∧ OpenAt t.fs k.fs.disk data file 0)
      (fun _ => True) k := by
  have hopens : ∀ (fs : Fs), DenySound fs → outcome (filesysOpen cmdline.tokens.head?)
      (fun r t => ∀ file, r = some file → ∃ data, Names fs.disk cmdline data ∧
        OpenAt t fs.disk data file 0) (fun _ => True) fs := by
    intro fs hfs
    cases hname : cmdline.tokens.head? with
    | none =>
      refine outcome_mono (filesysOpen_null fs) ?_ fun _ => id
      rintro _ t rfl file hfile
      cases hfile
    | some name =>
      refine outcome_mono (filesysOpen_openAt hfs name) ?_ fun _ => id
      intro r t hr file hfile
      obtain ⟨i, hbinds, hopened⟩ := hr file hfile
      exact ⟨_, ⟨name, i, hname, hbinds, rfl⟩, hopened⟩
  simp only [openExecutable, outcome_bind]
  refine outcome_mono (threadCurrent_outcome k) ?_ fun _ => id
  rintro process k ⟨rfl, hproc⟩
  refine outcome_mono (copyString_outcome _) ?_ fun _ => id
  rintro _ _ rfl
  refine outcome_mono (copyString_outcome _) ?_ fun _ => id
  rintro _ _ rfl
  simp only [onFs, outcome_zoom, outcome_malloc]
  split
  · simp only [outcome_bind, updateCurrent, outcome_modify, outcome_zoom]
    refine outcome_mono (hopens _ (((h.spend 1).spend 1).spend 1)) ?_ fun _ => id
    intro r fs hr file hfile
    refine ⟨⟨⟨process.setPagedir (some .empty), ?_, rfl⟩, fun _ hin => (not_mem_nil hin).elim,
      nodup_nil⟩, hr file hfile⟩
    exact current_updateProcess (k := ((k.setFs _).setFs _).setFs _) hproc fun _ => rfl
  · simp only [outcome_bind, updateCurrent, outcome_modify, outcome_pure]
    intro file hfile
    cases hfile

lemma decodeEhdr_copy (buffer : Memory) : Ehdr.decode
    (copy buffer 0 disk (dataAddress data 0) ehdrSize) = Ehdr.decode (contentsOf disk data) := by
  have hbyte : ∀ a < ehdrSize, copy buffer 0 disk (dataAddress data 0) ehdrSize a =
      contentsOf disk data a := by
    intro a ha
    rw [copy_contents _ ha]
    exact congrArg _ (Nat.zero_add a)
  simp only [ehdrSize] at hbyte ⊢
  simp only [Ehdr.decode, half, word32, List.range, List.range.loop, map_cons, map_nil]
  simp (disch := omega) only [hbyte]

structure SegmentsLoaded (disk : Memory) (data : InodeDisk) (t : Kernel)
    (pd : PageTable) : Prop where
  loaded : ∀ ph ∈ segmentHeaders (contentsOf disk data), HeaderLoaded disk data ph t pd
  covered : ∀ page, pageAccess pd page ≠ none →
    ∃ ph ∈ segmentHeaders (contentsOf disk data), ph.Covers page
  inside : (Ehdr.decode (contentsOf disk data)).ePhnum = 0 ∨
    (Ehdr.decode (contentsOf disk data)).ePhoff + phdrSize *
      (Ehdr.decode (contentsOf disk data)).ePhnum < 2 ^ 31

lemma loadSegments_outcome (hspace : Space k .empty) (hfile : OpenAt k.fs disk data file 0) :
    outcome (loadSegments file) (fun r t => ∀ entry, r = some entry →
      ∃ pd, Space t pd ∧ SegmentsLoaded disk data t pd) (fun _ => True) k := by
  rw [loadSegments, outcome_bind, onFs, outcome_zoom]
  refine outcome_mono (outcome_of_wp (hfile.wp_read _ ehdrSize)) ?_ fun _ => id
  rintro _ fs ⟨n, -, rfl, hread⟩
  dsimp only
  split
  · next haccepted =>
      obtain rfl : n = ehdrSize := by exact_mod_cast haccepted.1
      rw [outcome_bind, decodeEhdr_copy]
      generalize hehdr : Ehdr.decode (contentsOf disk data) = ehdr
      have hphoff : ehdr.ePhoff < 2 ^ 32 := hehdr ▸ word32_lt _ _
      refine outcome_mono (loadHeaders_outcome _ _ _ (k.setFs fs) .empty
        (hspace.congr rfl rfl rfl) hread) ?_ fun _ => id
      intro loaded t ht
      cases loaded with
      | false => simp
      | true =>
        obtain ⟨pd, pos, hspace', -, hadds, hloaded, hinside⟩ := ht rfl
        intro _ _
        -- a negative offset is refused as soon as there is a header
        have hoffset : ehdr.ePhnum = 0 ∨ (toSigned32 ehdr.ePhoff = ehdr.ePhoff ∧
            ehdr.ePhoff + phdrSize * ehdr.ePhnum < 2 ^ 31) := by
          rcases hinside with hnone | ⟨hnonneg, hend⟩
          · exact .inl hnone
          have hlen := hfile.fits.length_lt
          have hsigned : toSigned32 ehdr.ePhoff = ehdr.ePhoff := by
            by_cases hlow : ehdr.ePhoff < 2 ^ 31
            · exact toSigned32_of_lt hlow
            rw [toSigned32_of_ge (by omega) hphoff] at hnonneg
            omega
          rw [hsigned] at hend
          exact .inr ⟨hsigned, by exact_mod_cast hend.trans_lt hlen⟩
        have hheaders : headersFrom (contentsOf disk data) (toSigned32 ehdr.ePhoff).toNat
            ehdr.ePhnum = headersFrom (contentsOf disk data) ehdr.ePhoff ehdr.ePhnum := by
          rcases hoffset with hnone | ⟨hsigned, -⟩
          · rw [hnone]
            rfl
          · rw [hsigned, Int.toNat_natCast]
        rw [hheaders] at hadds hloaded
        have hmem : ∀ ph, ph ∈ segmentHeaders (contentsOf disk data) ↔ ph ∈ headersFrom
            (contentsOf disk data) ehdr.ePhoff ehdr.ePhnum ∧ ph.pType = ptLoad := by
          intro ph
          rw [segmentHeaders, hehdr, mem_filter, decide_eq_true_eq]
        refine ⟨pd, hspace', fun ph hph => ?_, fun page hpage => ?_, ?_⟩
        · exact hloaded ph ((hmem ph).mp hph).1 ((hmem ph).mp hph).2
        · by_contra hnot
          rw [hadds.access page] at hpage
          · exact hpage rfl
          rintro ⟨ph, hph, hload, hcovers⟩
          exact hnot ⟨ph, (hmem ph).mpr ⟨hph, hload⟩, hcovers⟩
        · rw [hehdr]
          exact hoffset.imp_right And.right
  · simp

/-- The image that the executable describes is in the address space, and what `load` and
`load_segment` computed for it is exact. -/
structure ImageLoaded (contents : Memory) (t : Kernel) (pd : PageTable) : Prop where
  placed : ∀ ph ∈ segmentHeaders contents, Placed contents ph t pd
  mapped : ∀ page, pageAccess pd page ≠ none →
    pgSize ≤ page * pgSize ∧ (page + 1) * pgSize ≤ physBase
  offsets : ∀ n < (Ehdr.decode contents).ePhnum,
    (Ehdr.decode contents).ePhoff + phdrSize * (n + 1) < 2 ^ 31
  noWrap : ∀ ph ∈ segmentHeaders contents, NoWrap ph
  asserts : ∀ ph ∈ segmentHeaders contents, ∀ file,
    loadSegment file (toSigned32 ph.placement.filePage) ph.placement.memPage ph.placement.readBytes
      ph.placement.zeroBytes ph.writable =
    segmentBody file (toSigned32 ph.placement.filePage) ph.placement.memPage ph.placement.readBytes
      ph.placement.zeroBytes ph.writable
  ends : ∀ ph ∈ segmentHeaders contents, ∀ file k,
    outcome (segmentBody file (toSigned32 ph.placement.filePage) ph.placement.memPage
      ph.placement.readBytes ph.placement.zeroBytes ph.writable) (fun r _ => r ≠ none)
      (fun _ => True) k

def ArgumentsAgree (cmdline : CommandLine) (contents : Memory) : Prop :=
  ∀ ph ∈ segmentHeaders contents, ∀ i < ph.pMemsz,
    physBase - argumentSize cmdline.tokens ≤ ph.pVaddr + i →
    (argumentBlocks cmdline.tokens).reverse.flatten[ph.pVaddr + i -
      (physBase - argumentSize cmdline.tokens)]? = some (segmentByte contents ph i)

section Built

variable {s : Kernel} {pd pd' : PageTable} {esp : Nat}

lemma StackBuilt.not_stackPage (h : StackBuilt s t pd pd' cmdline esp)
    (hloaded : HeaderLoaded disk data ph s pd) (hcovers : ph.Covers page) :
    page ≠ pgNo stackPage := by
  rintro rfl
  have haccess := hloaded.placed.access _ hcovers
  rw [h.fresh] at haccess
  cases haccess

lemma Phdr.covers_byte (ph : Phdr) (hi : i < ph.pMemsz) : ph.Covers (pgNo (ph.pVaddr + i)) := by
  simp only [Phdr.Covers, pgNo, pgSize]
  omega

lemma StackBuilt.segment_byte (h : StackBuilt s t pd pd' cmdline esp)
    (hloaded : HeaderLoaded disk data ph s pd) (hi : i < ph.pMemsz) :
    userByte t pd' (ph.pVaddr + i) = if esp ≤ ph.pVaddr + i then
        (argumentBlocks cmdline.tokens).reverse.flatten[ph.pVaddr + i - esp]?
      else some (segmentByte (contentsOf disk data) ph i) := by
  split
  · next hlow =>
      have hsize : (argumentBlocks cmdline.tokens).reverse.flatten.length =
          argumentSize cmdline.tokens := by
        rw [← argumentBlocks_size, length_flatten, length_flatten, List.map_reverse,
          List.sum_reverse]
      have huser := hloaded.valid.user
      have hpointer := h.pointer
      have hroom := argumentSize_le cmdline
      have hread := h.reads (ph.pVaddr + i - esp) (by omega)
      rwa [Nat.add_sub_cancel' hlow] at hread
  · next hlow =>
      rw [h.others _ (h.not_stackPage hloaded (ph.covers_byte hi)) (.inl (by omega)),
        hloaded.placed.bytes i hi]

lemma StackBuilt.placed_iff (h : StackBuilt s t pd pd' cmdline esp)
    (hloaded : HeaderLoaded disk data ph s pd) :
    Placed (contentsOf disk data) ph t pd' ↔ ∀ i < ph.pMemsz, esp ≤ ph.pVaddr + i →
      (argumentBlocks cmdline.tokens).reverse.flatten[ph.pVaddr + i - esp]? =
        some (segmentByte (contentsOf disk data) ph i) := by
  constructor
  · intro hplaced i hi hlow
    have hbyte := hplaced.bytes i hi
    rwa [h.segment_byte hloaded hi, if_pos hlow] at hbyte
  intro hagree
  refine ⟨fun page hcovers => ?_, fun i hi => ?_⟩
  · rw [h.access page, if_neg (h.not_stackPage hloaded hcovers)]
    exact hloaded.placed.access page hcovers
  rw [h.segment_byte hloaded hi]
  split
  · next hlow => exact hagree i hi hlow
  · rfl

lemma ValidSegment.page_bounds {length : Int} (h : ValidSegment ph length)
    (hcovers : ph.Covers page) : pgSize ≤ page * pgSize ∧ (page + 1) * pgSize ≤ physBase := by
  have huser := h.user
  have hmapped := h.mapped
  obtain ⟨hlow, hhigh⟩ := hcovers
  simp only [pgNo, pgSize, physBase] at *
  omega

lemma SegmentsLoaded.image_iff (h : SegmentsLoaded disk data s pd)
    (hstack : StackBuilt s t pd pd' cmdline esp) :
    ImageLoaded (contentsOf disk data) t pd' ↔ ArgumentsAgree cmdline (contentsOf disk data) := by
  constructor
  · intro himage ph hph
    have hagree := (hstack.placed_iff (h.loaded ph hph)).mp (himage.placed ph hph)
    rwa [hstack.pointer] at hagree
  intro hagree
  refine ⟨fun ph hph => ?_, fun page hpage => ?_, fun n hn => ?_,
    fun ph hph => (h.loaded ph hph).valid.noWrap, fun ph hph file => ?_,
    fun ph hph file k => (h.loaded ph hph).valid.ends file k⟩
  · rw [hstack.placed_iff (h.loaded ph hph), hstack.pointer]
    exact hagree ph hph
  · by_cases hstackPage : page = pgNo stackPage
    · rw [hstackPage]
      decide
    rw [hstack.access page, if_neg hstackPage] at hpage
    obtain ⟨ph, hph, hcovers⟩ := h.covered page hpage
    exact (h.loaded ph hph).valid.page_bounds hcovers
  · have hinside := h.inside
    have hmul := Nat.mul_le_mul_left phdrSize (show n + 1 ≤ _ from hn)
    omega
  · obtain ⟨header, -, rfl⟩ := mem_map.mp (mem_filter.mp hph).1
    exact (h.loaded _ hph).valid.loadSegment_eq (decode_words _ _) file

lemma StackBuilt.congr {u : Kernel} (h : StackBuilt s t pd pd' cmdline esp) (hspace : Space u pd')
    (hmem : u.memory = t.memory) : StackBuilt s u pd pd' cmdline esp := by
  have hbytes : userByte u pd' = userByte t pd' := by
    funext address
    rw [userByte, userByte, hmem]
  exact ⟨hspace, h.fresh, h.access, h.pointer, h.writable, hbytes ▸ h.reads, hbytes ▸ h.others⟩

end Built

lemma load_outcome (h : DenySound k.fs) (cmdline : CommandLine) :
    outcome (load cmdline) (fun r t => ∀ entry esp, r = some (entry, esp) →
      ∃ data s pd pd', Names k.fs.disk cmdline data ∧ SegmentsLoaded k.fs.disk data s pd ∧
        StackBuilt s t pd pd' cmdline esp) (fun _ => True) k := by
  -- a failed `load` only closes the file
  have hfails : ∀ (file : Nat) (t : Kernel), outcome
      (do onFs (fileClose (some file)); return (none : Option (Nat × Nat))) (fun r _ => r = none)
      (fun _ => True) t := by
    intro file t
    rw [outcome_bind]
    exact outcome_mono (outcome_of_stops _ t trivial) (fun _ _ _ => rfl) fun _ => id
  simp only [load_eq, loadImage_eq, outcome_bind]
  refine outcome_mono (openExecutable_outcome h cmdline) ?_ fun _ => id
  intro file s hs
  cases file with
  | none =>
    intro entry esp heq
    cases heq
  | some file =>
    obtain ⟨hspace, data, hnames, hopened⟩ := hs file rfl
    simp only [outcome_bind]
    refine outcome_mono (loadSegments_outcome hspace hopened) ?_ fun _ => id
    intro entry u hu
    cases entry with
    | none =>
      rw [outcome_pure]
      refine outcome_mono (hfails file u) ?_ fun _ => id
      rintro _ v rfl entry esp heq
      cases heq
    | some entry =>
      obtain ⟨pd, hspace', hsegments⟩ := hu entry rfl
      simp only [outcome_bind]
      refine outcome_mono (setupStack_outcome hspace' cmdline) ?_ fun _ => id
      intro esp v hv
      cases esp with
      | none =>
        rw [outcome_pure]
        refine outcome_mono (hfails file v) ?_ fun _ => id
        rintro _ w rfl entry' esp heq
        cases heq
      | some esp =>
        obtain ⟨pd', hstack⟩ := hv esp rfl
        obtain ⟨process, hproc, hpd⟩ := hstack.space.current
        simp only [updateCurrent, outcome_bind, outcome_modify, outcome_pure, onFs, outcome_zoom]
        refine outcome_mono (outcome_of_stops _ _ trivial) ?_ fun _ => id
        intro _ fs _ entry' esp' heq
        obtain ⟨rfl, rfl⟩ : entry = entry' ∧ esp = esp' := by simpa using heq
        refine ⟨data, u, pd, pd', hnames, hsegments, hstack.congr ⟨?_, ?_, ?_⟩ rfl⟩
        · exact ⟨_, current_updateProcess hproc fun _ => rfl, hpd⟩
        · exact hstack.space.used
        · exact hstack.space.frames

/-- When `load` returns true, the image is the one that the executable describes exactly if the
arguments have not overwritten any of it. -/
theorem load_image_iff (h : DenySound k.fs) {entry esp : Nat}
    (hload : load cmdline k = .ok (some (entry, esp), t)) : ∃ data, Names k.fs.disk cmdline data ∧
      ((∃ pd, currentPagedir t = some pd ∧ ImageLoaded (contentsOf k.fs.disk data) t pd) ↔
        ArgumentsAgree cmdline (contentsOf k.fs.disk data)) := by
  have houtcome := load_outcome h cmdline
  rw [outcome, hload] at houtcome
  obtain ⟨data, s, pd, pd', hnames, hsegments, hstack⟩ := houtcome entry esp rfl
  refine ⟨data, hnames, ?_⟩
  rw [← hsegments.image_iff hstack, hstack.space.currentPagedir]
  constructor
  · rintro ⟨_, heq, himage⟩
    cases heq
    exact himage
  · intro himage
    exact ⟨pd', rfl, himage⟩

end

/-! ## A segment below the stack page -/

section Example

attribute [local irreducible] wp outcome

def nameP : CString := ⟨[112], by simp⟩

def executableBytes : List Byte :=
  [0x7f, 0x45, 0x4c, 0x46, 1, 1, 1, 0, 0, 0, 0, 0, 0, 0, 0, 0, 2, 0, 3, 0, 1, 0, 0, 0, 0,
    0, 0, 0, 52, 0, 0, 0, 0, 0, 0, 0, 0, 0, 0, 0, 52, 0, 32, 0, 1, 0, 0, 0, 0, 0, 0, 0, 1, 0, 0, 0,
    0, 0, 0, 0, 0, 0xe0, 0xff, 0xbf, 0, 0, 0, 0, 84, 0, 0, 0, 0, 0x10, 0, 0, 6, 0, 0, 0, 0, 0, 0, 0]

def belowStack : Phdr := ⟨1, 0, 0xBFFFE000, 84, 0x1000, 6⟩

def writeExecutable : FsAction Unit := do
  filesysInit true
  let _ ← filesysCreate (some nameP) 84
  match ← filesysOpen (some nameP) with
  | some handle => do
    let _ ← fileWrite handle (fun i => executableBytes.getD i 0) 84
    return ()
  | none => return ()

def pDevice : Fs := .unstarted 8 (fun _ => 0) (fun _ => true) fun _ _ => 0

lemma writeExecutable_sound : outcome writeExecutable (fun _ fs => Sound fs [])
    (fun _ => True) pDevice := by
  simp only [writeExecutable, outcome_bind, pDevice]
  refine outcome_mono (filesysInit_outcome 8 (fun _ => 0) (fun _ => true) fun _ _ => 0)
    ?_ fun _ _ => trivial
  rintro _ fs ⟨hstarted, -, -⟩
  refine outcome_of_wp (wp_mono
    (filesysCreate_spec hstarted.sound nameP (by norm_num) (by norm_num)) ?_)
  rintro _ t ⟨ht, -⟩
  refine outcome_of_wp (wp_mono (filesysOpen_sound ht nameP) ?_)
  rintro handle u ⟨hu, hopened⟩
  cases handle with
  | none =>
    rw [outcome_pure]
    exact hu
  | some handle =>
    obtain ⟨i, -, hopened⟩ := hopened.resolve_right fun hnone => Option.some_ne_none _ hnone.1
    have hc := (hopened.handles handle _ 0).mpr (.inr ⟨rfl, rfl, rfl⟩)
    rw [outcome_bind]
    refine outcome_of_wp (wp_mono (fileWrite_sound hu hc _ 84) ?_)
    rintro _ v ⟨_, -, -, -, -, hv, -⟩
    rw [outcome_pure]
    exact hv

def Ready (k : Kernel) (file : Nat) : Prop :=
  (∀ n < 5, k.fs.heapOk (k.fs.allocations + n) = true) ∧ (∃ page < k.userPool.bitCnt,
    k.userPool.get page = false) ∧ ∃ f, findAt File.addr k.fs.files file = some f ∧ ∃ inode,
    findAt Inode.addr k.fs.openInodes f.inode = some inode ∧ inode.denyWriteCnt + 1 ≤ inode.openCnt

instance (k : Kernel) (file : Nat) : Decidable (Ready k file) :=
  inferInstanceAs (Decidable (_ ∧ _ ∧ _))

def OneSegment (disk : Memory) (name : CString) (ph : Phdr) : Prop :=
  ∀ i < rootEntryCnt, entryInUse disk (slotAddress disk i) = true →
    entryHasName disk (slotAddress disk i) name = true →
    segmentHeaders (contentsOf disk (headerAt disk (slotSector disk i))) = [ph]

instance (disk : Memory) (name : CString) (ph : Phdr) : Decidable (OneSegment disk name ph) :=
  inferInstanceAs (Decidable (∀ i < rootEntryCnt, _))

lemma fileDenyWrite_wp {file : Nat} {f : File} {inode : Inode}
    (hfile : findAt File.addr fs.files file = some f)
    (hinode : findAt Inode.addr fs.openInodes f.inode = some inode)
    (hcnt : inode.denyWriteCnt + 1 ≤ inode.openCnt) :
    wp (fileDenyWrite file) (fun _ _ => True) fs := by
  simp only [fileDenyWrite, inodeDenyWrite, wp_bind, wp_getFile hfile]
  split
  · have hinode' : findAt Inode.addr (fs.setFiles (updateAt File.addr fs.files file
        ({ · with denyWrite := true }))).openInodes f.inode = some inode := hinode
    simp only [updateFile, wp_bind, wp_modify, wp_getInode hinode', wp_require]
    exact ⟨hcnt, trivial⟩
  · simp

lemma load_completes {k : Kernel} (h : DenySound k.fs) (hname : cmdline.tokens.head? = some name)
    (hrun : wp (openExecutable (some name)) (fun r u => ∃ file, r = some file ∧
      wp (loadSegments file) (fun r v => r.isSome = true ∧ Ready v file) u) k)
    (hroom : ∀ data v pd, Names k.fs.disk cmdline data → SegmentsLoaded k.fs.disk data v pd →
      pageAccess pd (pgNo stackPage) = none ∧ BlockWritable pd cmdline) :
    ∃ entry esp t, load cmdline k = .ok (some (entry, esp), t) := by
  suffices hwp : wp (load cmdline) (fun r _ => r.isSome = true) k by
    obtain ⟨r, t, hload, hsome⟩ := wp_iff.mp hwp
    obtain ⟨⟨entry, esp⟩, rfl⟩ := isSome_iff_exists.mp hsome
    exact ⟨entry, esp, t, hload⟩
  have hopen := openExecutable_outcome h cmdline
  rw [hname] at hopen
  simp only [load_eq, loadImage_eq, wp_bind, hname]
  refine wp_mono (wp_of_outcome hrun hopen) ?_
  rintro _ u ⟨⟨file, rfl, hsegments⟩, hopened⟩
  obtain ⟨hspace, data, hnames, hopened⟩ := hopened file rfl
  simp only [wp_bind]
  refine wp_mono (wp_of_outcome hsegments (loadSegments_outcome hspace hopened)) ?_
  rintro r v ⟨⟨hsome, hmem, hframe, f, hfile, inode, hinode, hcnt⟩, hloaded⟩
  obtain ⟨entry, rfl⟩ := isSome_iff_exists.mp hsome
  obtain ⟨pd, hspace', hsegments⟩ := hloaded entry rfl
  obtain ⟨hfresh, hblock⟩ := hroom data v pd hnames hsegments
  simp only [wp_bind]
  refine wp_mono (setupStack_completes hspace' hmem hframe hfresh cmdline hblock) ?_
  rintro r w ⟨hsome, hfiles, hinodes⟩
  obtain ⟨esp, rfl⟩ := isSome_iff_exists.mp hsome
  simp only [updateCurrent, wp_bind, wp_modify, wp_pure, wp_onFs, Option.isSome_some]
  exact fileDenyWrite_wp (hfiles.symm ▸ hfile) (hinodes.symm ▸ hinode) hcnt

lemma pDevice_run : wp writeExecutable (fun _ fs => OneSegment fs.disk nameP belowStack ∧
    wp (openExecutable (some nameP)) (fun r u => ∃ file, r = some file ∧
      wp (loadSegments file) (fun r v => r.isSome = true ∧ Ready v file) u)
      (bareProcess.setFs fs)) pDevice := by
  decide +kernel

lemma OneSegment.headers {disk : Memory} (h : OneSegment disk name ph)
    (hname : cmdline.tokens.head? = some name) {data : InodeDisk}
    (hnames : Names disk cmdline data) : segmentHeaders (contentsOf disk data) = [ph] := by
  obtain ⟨name', i, hname', ⟨hlt, hused, hsame⟩, rfl⟩ := hnames
  rw [hname, some.injEq] at hname'
  subst hname'
  exact h i hlt hused hsame

lemma load_belowStack (hname : cmdline.tokens.head? = some nameP)
    (hsize : argumentSize cmdline.tokens ≤ 2 * pgSize) :
    ∃ k, DenySound k.fs ∧ OneSegment k.fs.disk nameP belowStack ∧
      ∃ entry esp t, load cmdline k = .ok (some (entry, esp), t) := by
  obtain ⟨_, fs, hrun, hone, hloads⟩ := wp_iff.mp pDevice_run
  have hsound := writeExecutable_sound
  rw [outcome, hrun] at hsound
  have hdeny : DenySound fs := DenySound.of_sound hsound
  refine ⟨bareProcess.setFs fs, hdeny, hone, load_completes hdeny hname hloads ?_⟩
  intro data v pd hnames hsegments
  have hheaders : segmentHeaders (contentsOf fs.disk data) = [belowStack] :=
    hone.headers hname hnames
  have hcovers : ∀ page, belowStack.Covers page ↔ page = 0xBFFFE := by
    intro page
    simp only [Phdr.Covers, belowStack, pgNo, pgSize]
    omega
  constructor
  · by_contra hmapped
    obtain ⟨ph, hph, hpage⟩ := hsegments.covered _ hmapped
    rw [show (bareProcess.setFs fs).fs.disk = fs.disk from rfl, hheaders, mem_singleton] at hph
    rw [hph, hcovers] at hpage
    exact absurd hpage (by decide)
  · intro address hlow hhigh hpage
    have hbelow : pgNo address = 0xBFFFE := by
      simp only [pgNo, stackPage, pgSize, physBase] at hlow hhigh hpage hsize ⊢
      omega
    have hloaded : HeaderLoaded fs.disk data belowStack v pd :=
      hsegments.loaded belowStack (hheaders ▸ mem_singleton_self _)
    exact hloaded.placed.access _ ((hcovers _).mpr hbelow)

def plainP : CommandLine where
  bytes := [112]
  nonzero := by simp
  fits := by simp [pgSize]

theorem load_image_plain : ∃ k t entry esp, DenySound k.fs ∧
    load plainP k = .ok (some (entry, esp), t) ∧ ∃ data, Names k.fs.disk plainP data ∧
      ∃ pd, currentPagedir t = some pd ∧ ImageLoaded (contentsOf k.fs.disk data) t pd := by
  have hname : plainP.tokens.head? = some nameP := by decide +kernel
  have hsize : argumentSize plainP.tokens = 24 := by decide +kernel
  obtain ⟨k, hsound, hone, entry, esp, t, hload⟩ := load_belowStack hname (by rw [hsize]; decide)
  obtain ⟨data, hnames, hiff⟩ := load_image_iff hsound hload
  refine ⟨k, t, entry, esp, hsound, hload, data, hnames, hiff.mpr fun ph hph i hi hlow => ?_⟩
  rw [hone.headers hname hnames, mem_singleton] at hph
  subst hph
  simp only [hsize, physBase, belowStack] at hi hlow
  omega

lemma argumentBlocks_argc (args : List CString) :
    (argumentBlocks args).reverse.flatten[4]? = some (wordByte args.length 0) := by
  simp [argumentBlocks, wordBytes]

lemma longArgument_name : longArgument.tokens.head? = some nameP := by
  have hmap := congrArg List.head? longArgument_tokens
  rw [List.head?_map] at hmap
  obtain ⟨⟨bytes, hnonzero⟩, hname, hbytes⟩ := Option.map_eq_some_iff.mp hmap
  obtain rfl : bytes = [112] := hbytes
  exact hname

/-- With an argument of 4078 characters, `argc` is stored into the segment. -/
theorem load_overwrites_segment : ∃ k t entry esp, DenySound k.fs ∧
    load longArgument k = .ok (some (entry, esp), t) ∧ ∀ data, Names k.fs.disk longArgument data →
      ¬ ∃ pd, currentPagedir t = some pd ∧ ImageLoaded (contentsOf k.fs.disk data) t pd := by
  obtain ⟨k, hsound, hone, entry, esp, t, hload⟩ :=
    load_belowStack longArgument_name (by rw [longArgument_size]; decide)
  refine ⟨k, t, entry, esp, hsound, hload, ?_⟩
  rintro data hnames ⟨pd, hpd, himage⟩
  have houtcome := load_outcome hsound longArgument
  rw [outcome, hload] at houtcome
  obtain ⟨_, _, _, pd', -, -, hstack⟩ := houtcome entry esp rfl
  rw [hstack.space.currentPagedir, some.injEq] at hpd
  subst hpd
  -- the segment has a zero where the arguments have their number
  have hzero := (himage.placed belowStack
    (hone.headers longArgument_name hnames ▸ mem_singleton_self _)).bytes 0xFF8 (by decide)
  have hargc := hstack.reads 4 (by
    by_contra hlong
    have hread := argumentBlocks_argc longArgument.tokens
    rw [List.getElem?_eq_none (by omega)] at hread
    cases hread)
  rw [argumentBlocks_argc, longArgument_length, hstack.pointer, longArgument_size] at hargc
  have haddress : physBase - 4108 + 4 = belowStack.pVaddr + 0xFF8 := by decide
  rw [haddress, hzero] at hargc
  exact absurd hargc (by simp [segmentByte, belowStack, wordByte])

end Example

end Pintos.Userprog.Loader
