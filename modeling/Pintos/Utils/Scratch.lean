import Pintos.Lib.Ustar

/-!
# Archives on the scratch partition, on the host

`put_scratch_file` and `get_scratch_file` of `utils/pintos` with the subroutines
of `Pintos.pm` that they use.  A file or a partition is the list of its bytes; a
handle that is read is what lies behind its position, and one that is written to
is what was written.  An error is the text that `die` prints or that is returned,
without the names in it.
-/

namespace Pintos.Utils

open Foundation

variable {bytes number size value width : Nat} {text : List Byte} {f : Ustar.Field}
  {files : List (CString × List Byte)}

/-! ## Reading, writing and copying -/

def readFully (handle : List Byte) (bytes : Nat) : Except String (List Byte × List Byte) :=
  if bytes ≤ handle.length then .ok (handle.take bytes, handle.drop bytes)
  else .error "unexpected end of file"

def writeFully (handle data : List Byte) : List Byte := handle ++ data

/-- The loop of `copy_file`, which ends after at most as many rounds as there are bytes. -/
def copyLoop : Nat → List Byte → List Byte → Nat → Except String (List Byte × List Byte)
  | 0, source, target, _ => .ok (source, target)
  | rounds + 1, source, target, size =>
    if size > 0 then do
      let chunkSize := if 4096 > size then size else 4096
      let (data, source) ← readFully source chunkSize
      copyLoop rounds source (writeFully target data) (size - chunkSize)
    else .ok (source, target)

def copyFile (source target : List Byte) (size : Nat) : Except String (List Byte × List Byte) :=
  copyLoop size source target size

/-! ## Headers -/

/-- `sprintf ("%o", $number)`. -/
def octalDigits (number : Nat) : List Byte :=
  if number = 0 then [48] else (Nat.digits 8 number).reverse.map fun digit =>
    UInt8.ofNat (48 + digit)

/-- `sprintf ("%0${len}o", $number)`. -/
def sprintfOctal (len number : Nat) : List Byte :=
  replicate (len - (octalDigits number).length) 48 ++ octalDigits number

def mkUstarField (number size : Nat) : Except String (List Byte) :=
  let out := sprintfOctal (size - 1) number ++ [0]
  if out.length = size then .ok out else .error "too large for octal ustar field"

/-- `substr ($s, $offset, length $text) = $text`. -/
def replaceAt (bytes : List Byte) (offset : Nat) (text : List Byte) : List Byte :=
  bytes.take offset ++ text ++ bytes.drop (offset + text.length)

/-- `unpack ("%32a*", $s)`. -/
def byteSum (bytes : List Byte) : Nat := (bytes.map UInt8.toNat).sum % 2 ^ 32

def calcUstarChksum (header : List Byte) : Except String Nat :=
  if header.length ≠ 512 then .error "Died"
  else .ok (byteSum (replaceAt header 148 (replicate 8 32)))

def nulls (count : Nat) : List Byte := replicate count 0

def headerEnd : List Byte :=
  [48] ++ nulls 100 ++ [117, 115, 116, 97, 114, 0] ++ [48, 48] ++
    ([114, 111, 111, 116] ++ nulls 28) ++
    ([114, 111, 111, 116] ++ nulls 28) ++ nulls 8 ++ nulls 8 ++ nulls 155 ++ nulls 12

def scratchHeader (dstFileName : List Byte) (size : Nat) : Except String (List Byte) := do
  let mode ← mkUstarField 0o644 8
  let uid ← mkUstarField 0 8
  let gid ← mkUstarField 0 8
  let size ← mkUstarField size 12
  let mtime ← mkUstarField 1136102400 12
  return padTo 100 dstFileName ++ mode ++ uid ++ gid ++ size ++ mtime ++ replicate 8 32 ++
    headerEnd

/-- `put_scratch_file`: what the disk holds after the file `src` was written to it. -/
def putScratchFile (src dstFileName disk : List Byte) : Except String (List Byte) := do
  if dstFileName.length > 99 then throw "name too long (max 99 characters)"
  let size := src.length
  let header ← scratchHeader dstFileName size
  let chksum ← mkUstarField (← calcUstarChksum header) 8
  let disk := writeFully disk (replaceAt header 148 chksum)
  let (_, disk) ← copyFile src disk size
  return if size % 512 ≠ 0 then writeFully disk (nulls (512 - size % 512)) else disk

/-! ## Reading an archive -/

def slice (bytes : List Byte) (offset length : Nat) : List Byte := (bytes.drop offset).take length

/-- `unpack ("Z*", $s)`. -/
def untilNull (bytes : List Byte) : List Byte := bytes.takeWhile (· ≠ 0)

/-- `oct` of a string of octal digits.  The other forms that `oct` knows do not occur in the headers
of either side. -/
def oct (text : List Byte) : Except String Nat :=
  if text.all fun c => 48 ≤ c ∧ c ≤ 55 then .ok (text.foldl octalStep 0)
  else .error "not an octal number"

/-- `get_scratch_file`: the contents of the new file, and what is left of the disk. -/
def getScratchFile (disk : List Byte) : Except String (List Byte × List Byte) := do
  let (header, disk) ← readFully disk 512
  if header = nulls 512 then throw "scratch disk tar archive ends unexpectedly"
  else if slice header 257 6 ≠ [117, 115, 116, 97, 114, 0] then throw "corrupt ustar signature"
  else if slice header 263 2 ≠ [48, 48] then throw "invalid ustar version"
  else do
    let chksum ← oct (untilNull (slice header 148 8))
    let correctChksum ← calcUstarChksum header
    if chksum ≠ correctChksum then throw "checksum mismatch"
    else if slice header 156 1 ≠ [48] ∧ slice header 156 1 ≠ [0] then throw "not a regular file"
    else do
      let size ← oct (untilNull (slice header 124 12))
      let (disk, contents) ← copyFile disk [] size
      if size % 512 ≠ 0 then
        let (_, disk) ← readFully disk (512 - size % 512)
        return (contents, disk)
      else return (contents, disk)

/-! ## What copying does -/

lemma ok_bind {α β : Type} (a : α) (f : α → Except String β) : (Except.ok a >>= f) = f a := rfl

lemma readFully_eq {handle : List Byte} (h : bytes ≤ handle.length) :
    readFully handle bytes = .ok (handle.take bytes, handle.drop bytes) := if_pos h

lemma readFully_append {first : List Byte} (h : first.length = bytes)
    (rest : List Byte) : readFully (first ++ rest) bytes = .ok (first, rest) := by
  rw [readFully_eq (by rw [length_append]; omega), List.take_left' h, List.drop_left' h]

lemma copyLoop_eq (rounds : Nat) : ∀ (source target : List Byte) (size : Nat), size ≤ rounds →
    size ≤ source.length →
    copyLoop rounds source target size = .ok (source.drop size, target ++ source.take size) := by
  induction rounds with
  | zero =>
    intro source target size hrounds _
    obtain rfl : size = 0 := by omega
    simp [copyLoop]
  | succ rounds ih =>
    intro source target size hrounds hsize
    rw [copyLoop]
    split
    · next hpos =>
        obtain ⟨chunk, hchunk⟩ : ∃ chunk, chunk = if 4096 > size then size else 4096 := ⟨_, rfl⟩
        have hle : chunk ≤ size ∧ 0 < chunk := by
          rw [hchunk]
          split <;> omega
        simp only [← hchunk, readFully_eq (show chunk ≤ source.length by omega)]
        refine (ih _ _ _ (by omega) (by rw [List.length_drop]; omega)).trans ?_
        rw [List.drop_drop, writeFully, append_assoc, ← List.take_add, Nat.add_sub_cancel' hle.1]
    · next hzero =>
        obtain rfl : size = 0 := by omega
        simp

lemma copyFile_eq {source target : List Byte} (h : size ≤ source.length) :
    copyFile source target size = .ok (source.drop size, target ++ source.take size) :=
  copyLoop_eq size source target size le_rfl h

/-! ## Octal fields -/

lemma foldl_octalStep_digits (digits : List Nat) (h : ∀ digit ∈ digits, digit < 8) :
    (digits.reverse.map fun digit => UInt8.ofNat (48 + digit)).foldl octalStep 0 =
      Nat.ofDigits 8 digits := by
  rw [List.foldl_map, List.foldl_reverse]
  induction digits with
  | nil => rfl
  | cons digit digits ih =>
    rw [forall_mem_cons] at h
    have hbyte : (UInt8.ofNat (48 + digit)).toNat = 48 + digit := by
      rw [UInt8.toNat_ofNat']
      omega
    rw [List.foldr_cons, ih h.2, octalStep, hbyte, Nat.ofDigits_cons]
    omega

lemma octalDigits_octal (number : Nat) : (∀ c ∈ octalDigits number, 48 ≤ c ∧ c ≤ 55) ∧
      (octalDigits number).foldl octalStep 0 = number := by
  unfold octalDigits
  split
  · next hzero =>
      rw [hzero]
      exact ⟨by simp, rfl⟩
  have hdigits : ∀ digit ∈ Nat.digits 8 number, digit < 8 := fun digit hdigit =>
    Nat.digits_lt_base (by decide) hdigit
  refine ⟨fun c hc => ?_, ?_⟩
  · obtain ⟨digit, hdigit, rfl⟩ := mem_map.mp hc
    have hlt := hdigits digit (List.mem_reverse.mp hdigit)
    rw [UInt8.le_iff_toNat_le, UInt8.le_iff_toNat_le, UInt8.toNat_ofNat']
    constructor
    · change 48 ≤ _
      omega
    · change _ ≤ 55
      omega
  · rw [foldl_octalStep_digits _ hdigits, Nat.ofDigits_digits]

lemma octalDigits_length (hpos : 0 < width) (h : number < 8 ^ width) :
    (octalDigits number).length ≤ width := by
  unfold octalDigits
  split
  · exact hpos
  rw [length_map, length_reverse]
  exact (Nat.digits_length_le_iff (by decide) number).mpr h

lemma mkUstarField_eq (hsize : 1 < size) (h : number < 8 ^ (size - 1)) :
    ∃ text, Octal (size - 1) number text ∧ mkUstarField number size = .ok (text ++ [0]) := by
  obtain ⟨hdigit, hval⟩ := octalDigits_octal number
  have hlen := octalDigits_length (by omega) h
  have htext : (sprintfOctal (size - 1) number).length = size - 1 := by
    rw [sprintfOctal, length_append, length_replicate]
    omega
  refine ⟨sprintfOctal (size - 1) number, ⟨htext, fun c hc => ?_, ?_⟩, if_pos ?_⟩
  · rcases mem_append.mp hc with hc | hc
    · rw [eq_of_mem_replicate hc]
      decide
    · exact hdigit c hc
  · rw [sprintfOctal, foldl_octalStep_zeros, hval]
  rw [length_append, htext, length_singleton]
  omega

lemma oct_eq (h : Octal width value text) : oct text = .ok value := by
  rw [oct, if_pos, h.value]
  rw [List.all_eq_true]
  exact fun c hc => decide_eq_true (h.digit c hc)

lemma untilNull_eq (h : Octal width value text) : untilNull (text ++ [0]) = text := by
  have hdigits : ∀ c ∈ text, decide (c ≠ 0) = true := by
    intro c hc
    have hdigit := (h.digit c hc).1
    rw [decide_eq_true_eq]
    rintro rfl
    exact absurd hdigit (by decide)
  rw [untilNull, List.takeWhile_append_of_pos hdigits]
  simp

/-! ## Checksums -/

section Bytes

variable {bytes : List Byte} {offset : Nat}

lemma replaceAt_length (h : offset + text.length ≤ bytes.length) :
    (replaceAt bytes offset text).length = bytes.length := by
  rw [replaceAt, length_append, length_append, length_take, List.length_drop]
  omega

lemma ofBytes_replaceAt (h : offset + text.length ≤ bytes.length) (i : Nat) :
    ofBytes (replaceAt bytes offset text) i =
      if offset ≤ i ∧ i < offset + text.length then ofBytes text (i - offset)
      else ofBytes bytes i := by
  have htake : (bytes.take offset).length = offset := by
    rw [length_take]
    omega
  have hhead : (bytes.take offset ++ text).length = offset + text.length := by
    rw [length_append, htake]
  rw [replaceAt]
  by_cases hlow : i < offset
  · rw [if_neg (by omega), ofBytes_append_left _ (by omega), ofBytes_append_left _ (by omega)]
    simp [ofBytes, hlow]
  by_cases hin : i < offset + text.length
  · obtain ⟨j, rfl⟩ := Nat.exists_eq_add_of_le (Nat.le_of_not_lt hlow)
    have hmid := ofBytes_append_right (bytes.take offset) text j
    rw [htake] at hmid
    rw [if_pos (by omega), ofBytes_append_left _ (by omega), hmid, Nat.add_sub_cancel_left]
  obtain ⟨j, rfl⟩ := Nat.exists_eq_add_of_le (Nat.le_of_not_lt hin)
  have htail := ofBytes_append_right (bytes.take offset ++ text)
    (bytes.drop (offset + text.length)) j
  rw [hhead] at htail
  rw [if_neg (by omega), htail]
  simp [ofBytes]

lemma chksumLoop_eq_sum (h : Memory) (n : Nat) :
    Ustar.chksumLoop h n = ((List.range n).map (Ustar.chksumByte h)).sum % 2 ^ 32 := by
  induction n with
  | zero => rfl
  | succ n ih =>
    rw [Ustar.chksumLoop, ih, range_succ, map_append, List.sum_append, List.map_singleton,
      List.sum_singleton, Nat.mod_add_mod]

lemma calcUstarChksum_eq (h : bytes.length = 512) :
    calcUstarChksum bytes = .ok (Ustar.calculateChksum (ofBytes bytes)) := by
  have hspaces : 148 + (replicate 8 (32 : Byte)).length ≤ bytes.length := by
    rw [h, length_replicate]
    decide
  rw [calcUstarChksum, if_neg (not_not.mpr h), byteSum, Ustar.calculateChksum, chksumLoop_eq_sum]
  rw [eq_map_of_ofBytes ((replaceAt_length hspaces).trans h) fun i _ => rfl, map_map]
  refine congrArg (fun sums : List Nat => Except.ok (sums.sum % 2 ^ 32)) ?_
  refine map_congr_left fun i _ => ?_
  rw [Function.comp_apply, ofBytes_replaceAt hspaces, length_replicate, Ustar.chksumByte]
  by_cases hin : 148 ≤ i ∧ i < 148 + 8
  · rw [if_pos hin, ofBytes_replicate 32 (by omega)]
    exact (if_pos hin).symm
  · rw [if_neg hin]
    exact (if_neg hin).symm

end Bytes

/-! ## Putting files into an archive -/

section Put

variable {fileName : CString}

lemma octalAt_of_field {header : Memory} (htext : Octal (f.size - 1) value text)
    (hfield : ∀ i < f.size, header (f.offset + i) = ofBytes (text ++ [0]) i) :
    Ustar.OctalAt header f value :=
  ⟨text, htext, fun i hi => (hfield i hi).trans (ofBytes_append_zero text i)⟩

lemma field_length (h : Octal (width - 1) value text)
    (hwidth : 0 < width) : (text ++ [0]).length = width := by
  rw [length_append, h.length, length_singleton]
  omega

lemma headerOf_fields {mode uid gid mtime spaces : List Byte} (hmode : mode.length = 8)
    (huid : uid.length = 8) (hgid : gid.length = 8) (htext : Octal 11 size text)
    (hmtime : mtime.length = 12) (hspaces : spaces.length = 8) :
    (padTo 100 fileName.bytes ++ mode ++ uid ++ gid ++ (text ++ [0]) ++ mtime ++ spaces ++
      headerEnd).length = 512 ∧
    Ustar.HeaderOf fileName .regular size
      (ofBytes (padTo 100 fileName.bytes ++ mode ++ uid ++ gid ++
      (text ++ [0]) ++ mtime ++ spaces ++ headerEnd)) := by
  have hname : (padTo 100 fileName.bytes).length = 100 := padTo_length _ _
  have hsize : (text ++ [0]).length = 12 := field_length htext (by decide)
  have hend : headerEnd.length = 356 := by decide +kernel
  generalize hpad : padTo 100 fileName.bytes = name at hname ⊢
  generalize hfield : text ++ [0] = field at hsize ⊢
  have hlast : ∀ a, ofBytes (name ++ mode ++ uid ++ gid ++ field ++ mtime ++ spaces ++ headerEnd)
      (156 + a) = ofBytes headerEnd a := fun a => ofBytes_skip (by simp [*]) _ a
  refine ⟨by simp [*], fun i hi => ?_, octalAt_of_field htext fun i hi => ?_, hlast 0, ?_, ?_, ?_⟩
  · have hplace : i < 100 := hi
    have himage : ofBytes (padTo 100 fileName.bytes) i = fileName.image i := ofBytes_padTo _ hplace
    rw [← himage, hpad]
    simp only [append_assoc]
    rw [show Ustar.name.offset + i = i from Nat.zero_add i]
    exact ofBytes_append_left _ (hname ▸ hplace)
  · have hplace : i < 12 := hi
    have hskip : (name ++ mode ++ uid ++ gid).length = Ustar.size.offset := by simp [*, Ustar.size]
    rw [hfield, append_assoc _ mtime, append_assoc _ _ headerEnd,
      append_assoc _ field, ofBytes_skip hskip, ofBytes_append_left _ (hsize ▸ hplace)]
  · rw [CString.sameAs_iff]
    intro i hi
    have hplace : Ustar.magic.offset + i = 156 + (101 + i) := by
      simp only [Ustar.magic]
      omega
    rw [hplace, hlast]
    revert i
    decide +kernel
  · exact ⟨(hlast 107).trans (by decide +kernel), (hlast 108).trans (by decide +kernel)⟩
  · exact (hlast 189).trans (by decide +kernel)

lemma scratchHeader_eq (fileName : CString) (hsize : size < 2 ^ 31) :
    ∃ header, scratchHeader fileName.bytes size = .ok header ∧ header.length = 512 ∧
      Ustar.HeaderOf fileName .regular size (ofBytes header) := by
  obtain ⟨mode, hmode, hmodeField⟩ := @mkUstarField_eq 0o644 8 (by decide) (by decide)
  obtain ⟨owner, howner, hownerField⟩ := @mkUstarField_eq 0 8 (by decide) (by decide)
  obtain ⟨digits, hdigits, hdigitsField⟩ := @mkUstarField_eq size 12 (by decide) (by omega)
  obtain ⟨mtime, hmtime, hmtimeField⟩ := @mkUstarField_eq 1136102400 12 (by decide) (by decide)
  simp only [scratchHeader, hmodeField, hownerField, hdigitsField, hmtimeField]
  exact ⟨_, rfl, headerOf_fields (field_length hmode (by decide))
    (field_length howner (by decide)) (field_length howner (by decide)) hdigits
    (field_length hmtime (by decide)) length_replicate⟩

lemma putScratchFile_eq {src : List Byte} (hname : fileName.strlen ≤ 99)
    (hsize : src.length < 2 ^ 31) (disk : List Byte) : ∃ member, Ustar.Member fileName src member ∧
      putScratchFile src fileName.bytes disk = .ok (disk ++ member) := by
  obtain ⟨header, hmake, hlen, hhdr⟩ := scratchHeader_eq fileName hsize
  obtain ⟨text, htext, hchksum⟩ := @mkUstarField_eq (Ustar.calculateChksum (ofBytes header)) 8
    (by decide) (Ustar.calculateChksum_lt _)
  have hfield := field_length htext (by decide)
  have hroom : 148 + (text ++ [0]).length ≤ header.length := by
    rw [hfield, hlen]
    decide
  have hsame : ∀ i < Ustar.headerSize, Ustar.chksum.Outside i →
      ofBytes (replaceAt header 148 (text ++ [0])) i = ofBytes header i := by
    intro i _ hi
    rw [ofBytes_replaceAt hroom, if_neg]
    simp only [Ustar.Field.Outside, Ustar.chksum] at hi
    omega
  have hsealed : Ustar.Sealed (ofBytes (replaceAt header 148 (text ++ [0]))) := by
    rw [Ustar.Sealed, Ustar.calculateChksum_congr hsame]
    refine octalAt_of_field htext fun i hi => ?_
    have hplace : i < 8 := hi
    rw [ofBytes_replaceAt hroom, hfield, if_pos]
    · simp [Ustar.chksum]
    simp only [Ustar.chksum]
    omega
  refine ⟨replaceAt header 148 (text ++ [0]) ++ src ++ nulls (Ustar.padding src.length),
    ⟨_, _, (replaceAt_length hroom).trans hlen, length_replicate, hhdr.congr hsame,
      hsealed, rfl⟩, ?_⟩
  have hshort : ¬ fileName.bytes.length > 99 := Nat.not_lt.mpr hname
  have hcopy := @copyFile_eq src.length src (disk ++ replaceAt header 148 (text ++ [0])) le_rfl
  simp only [putScratchFile, if_neg hshort, hmake, calcUstarChksum_eq hlen, hchksum, writeFully,
    ok_bind, hcopy]
  refine congrArg Except.ok ?_
  rw [List.take_length, Ustar.padding]
  by_cases halign : src.length % 512 = 0
  · rw [if_neg (not_not.mpr halign), if_pos halign]
    simp [nulls]
  · rw [if_pos halign, if_neg halign]
    simp only [append_assoc]

def putScratchFiles (files : List (CString × List Byte)) : Except String (List Byte) := do
  let disk ← files.foldlM (fun disk file => putScratchFile file.2 file.1.bytes disk) []
  return writeFully disk (nulls 1024)

lemma putScratchFiles_eq (hfiles : ∀ file ∈ files, file.1.strlen ≤ 99 ∧ file.2.length < 2 ^ 31) :
    ∃ archive, Ustar.Archive files archive ∧
      putScratchFiles files = .ok (archive ++ nulls 1024) := by
  suffices hfold : ∀ disk, ∃ archive, Ustar.Archive files archive ∧ files.foldlM
      (fun disk file => putScratchFile file.2 file.1.bytes disk) disk = .ok (disk ++ archive) by
    obtain ⟨archive, harch, hwr⟩ := hfold []
    refine ⟨archive, harch, ?_⟩
    rw [putScratchFiles, hwr]
    rfl
  induction files with
  | nil => exact fun disk => ⟨[], rfl, congrArg Except.ok (append_nil disk).symm⟩
  | cons file files ih =>
    intro disk
    obtain ⟨hfile, hrest⟩ := forall_mem_cons.mp hfiles
    obtain ⟨member, hmember, hput⟩ := putScratchFile_eq hfile.1 hfile.2 disk
    obtain ⟨archive, harch, hwr⟩ := ih hrest (disk ++ member)
    refine ⟨member ++ archive, ⟨member, archive, hmember, harch, rfl⟩, ?_⟩
    rw [List.foldlM_cons, hput, ok_bind, hwr, append_assoc]

end Put

/-! ## Getting files out of an archive -/

section Get

variable {bytes header : List Byte} {offset length : Nat}

lemma slice_eq (h : offset + length ≤ bytes.length) :
    slice bytes offset length = (List.range length).map fun i => ofBytes bytes (offset + i) := by
  refine eq_map_of_ofBytes ?_ fun i hi => ?_
  · rw [slice, length_take, List.length_drop]
    omega
  · simp [slice, ofBytes, hi]

lemma slice_octal (hsize : 0 < f.size)
    (hroom : f.offset + f.size ≤ bytes.length) (h : Ustar.OctalAt (ofBytes bytes) f value) :
    oct (untilNull (slice bytes f.offset f.size)) = .ok value := by
  obtain ⟨text, htext, hfield⟩ := h
  have hslice : slice bytes f.offset f.size = text ++ [0] := by
    rw [slice_eq hroom, eq_map_of_ofBytes (field_length htext hsize) fun i _ => rfl]
    refine map_congr_left fun i hi => ?_
    rw [hfield i (mem_range.mp hi), ofBytes_append_zero]
  rw [hslice, untilNull_eq htext, oct_eq htext]

lemma getScratchFile_eq {fileName : CString} {contents member : List Byte}
    (h : Ustar.Member fileName contents member) (rest : List Byte) :
    getScratchFile (member ++ rest) = .ok (contents, rest) := by
  obtain ⟨header, filler, hlen, hfiller, hhdr, hsealed, rfl⟩ := h
  rw [Ustar.headerSize] at hlen
  have hread : readFully (header ++ contents ++ filler ++ rest) 512 =
      .ok (header, contents ++ (filler ++ rest)) := by
    simp only [append_assoc]
    exact readFully_append hlen _
  have hnull : header ≠ nulls 512 := by
    rintro rfl
    have hversion := hhdr.version.1
    rw [nulls, ofBytes_replicate _ (by decide)] at hversion
    exact absurd hversion (by decide)
  have hmagic : slice header 257 6 = [117, 115, 116, 97, 114, 0] := by
    have hsame := (CString.sameAs_iff _ _ _).mp hhdr.magic
    have himage : (List.range 6).map Ustar.ustar.image = [117, 115, 116, 97, 114, 0] := by decide
    rw [slice_eq (by omega), ← himage]
    exact map_congr_left fun i hi => hsame i (Nat.le_of_lt_succ (mem_range.mp hi))
  have hversion : slice header 263 2 = [48, 48] := by
    rw [slice_eq (by omega)]
    exact congrArg₂ (fun a b => [a, b]) hhdr.version.1 hhdr.version.2
  have htype : slice header 156 1 = [48] := by
    rw [slice_eq (by omega)]
    exact congrArg (fun a => [a]) hhdr.typeflag
  have hchksum : oct (untilNull (slice header 148 8)) = _ :=
    slice_octal (f := Ustar.chksum) (by decide) (by rw [hlen]; decide) hsealed
  have hsize : oct (untilNull (slice header 124 12)) = _ :=
    slice_octal (f := Ustar.size) (by decide) (by rw [hlen]; decide) hhdr.size
  have hcopy := @copyFile_eq contents.length (contents ++ (filler ++ rest)) [] (by simp)
  rw [List.drop_left' rfl, List.take_left' rfl, nil_append] at hcopy
  simp only [getScratchFile, hread, ok_bind, if_neg hnull, hmagic, hversion, hchksum, hsize, htype,
    calcUstarChksum_eq hlen, hcopy, ne_eq, not_true_eq_false, false_and, if_false]
  rw [Ustar.padding] at hfiller
  by_cases halign : contents.length % 512 = 0
  · rw [if_pos halign, length_eq_zero_iff] at hfiller
    rw [if_neg (not_not.mpr halign), hfiller]
    rfl
  rw [if_neg halign] at hfiller
  rw [if_pos halign, readFully_append hfiller]
  rfl

def getScratchFiles : Nat → List Byte → Except String (List (List Byte))
  | 0, _ => return []
  | count + 1, disk => do
    let (contents, disk) ← getScratchFile disk
    let rest ← getScratchFiles count disk
    return contents :: rest

lemma getScratchFiles_eq {archive : List Byte}
    (h : Ustar.Archive files archive) (rest : List Byte) :
    getScratchFiles files.length (archive ++ rest) = .ok (files.map Prod.snd) := by
  induction files generalizing archive with
  | nil => rfl
  | cons file files ih =>
    obtain ⟨member, archive, hmember, harch, rfl⟩ := h
    rw [length_cons, getScratchFiles, append_assoc, getScratchFile_eq hmember]
    simp only [ok_bind, ih harch]
    rfl

end Get

end Pintos.Utils
