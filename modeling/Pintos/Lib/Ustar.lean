import Pintos.Lib.CString
import Pintos.Lib.Debug
import Pintos.Lib.Stdio

/-!
# Headers of ustar archives

`lib/ustar.c`.  A header is the first 512 bytes of a memory, and a member of
`struct ustar_header` is a range of them.
-/

namespace Pintos

open Foundation

variable {bytes fileName text : List Byte} {i n s value : Nat} {h h' : Memory}
  {files : List (CString × List Byte)}

namespace Ustar

def headerSize : Nat := 512

structure Field where
  offset : Nat
  size : Nat

def name : Field := ⟨0, 100⟩
def mode : Field := ⟨100, 8⟩
def uid : Field := ⟨108, 8⟩
def gid : Field := ⟨116, 8⟩
def size : Field := ⟨124, 12⟩
def mtime : Field := ⟨136, 12⟩
def chksum : Field := ⟨148, 8⟩
def typeflag : Field := ⟨156, 1⟩
def magic : Field := ⟨257, 6⟩
def version : Field := ⟨263, 2⟩
def uname : Field := ⟨265, 32⟩
def gname : Field := ⟨297, 32⟩
def namePrefix : Field := ⟨345, 155⟩

inductive UstarType where
  | regular
  | directory
  | eof
  deriving DecidableEq, Repr

def UstarType.byte : UstarType → Byte
  | .regular => 48
  | .directory => 53
  | .eof => 255

/-! ## Checksums -/

def chksumByte (h : Memory) (i : Nat) : Nat :=
  if chksum.offset ≤ i ∧ i < chksum.offset + chksum.size then 32 else (h i).toNat

def chksumLoop (h : Memory) : Nat → Nat
  | 0 => 0
  | i + 1 => (chksumLoop h i + chksumByte h i) % 2 ^ 32

def calculateChksum (h : Memory) : Nat := chksumLoop h headerSize

/-! ## Names -/

/-- Whether a name starts with `/`, `./` or `../`. -/
def antisocial (fileName : List Byte) : Bool :=
  [47].isPrefixOf fileName || [46, 47].isPrefixOf fileName || [46, 46, 47].isPrefixOf fileName

/-- `strchr (file_name, '/') + 1`. -/
def afterSlash (fileName : List Byte) : List Byte := (fileName.dropWhile (· ≠ 47)).drop 1

/-- The loop of `strip_antisocial_prefixes`; it ends after as many rounds as there are bytes. -/
def stripLoop : Nat → List Byte → List Byte
  | 0, fileName => fileName
  | rounds + 1, fileName =>
    if antisocial fileName then stripLoop rounds (afterSlash fileName) else fileName

lemma stripLoop_suffix (rounds : Nat) (fileName : List Byte) :
    stripLoop rounds fileName <:+ fileName := by
  induction rounds generalizing fileName with
  | zero => exact List.suffix_rfl
  | succ rounds ih =>
    unfold stripLoop
    split
    · exact (ih _).trans ((List.drop_suffix _ _).trans (List.dropWhile_suffix _))
    · exact List.suffix_rfl

def dot : CString := ⟨[46], by simp⟩

def stripAntisocialPrefixes (fileName : CString) : CString :=
  let stripped := stripLoop fileName.strlen fileName.bytes
  if stripped = [] ∨ stripped = [46, 46] then dot
  else ⟨stripped, fun b hb => fileName.nonzero b ((stripLoop_suffix _ _).subset hb)⟩

/-! ## Making a header -/

def zeros : CString := ⟨[48, 48, 48, 48, 48, 48, 48], by simp⟩

def ustar : CString := ⟨[117, 115, 116, 97, 114], by simp⟩

def root : CString := ⟨[114, 111, 111, 116], by simp⟩

/-- `%07o`. -/
def octal7 (value : Nat) : List Byte := vprintfUnsigned [48, 55, 111] value

/-- `%011o`. -/
def octal11 (value : Nat) : List Byte := vprintfUnsigned [48, 49, 49, 111] value

def storeString (h : Memory) (f : Field) (s : CString) : Memory := s.strlcpy h f.offset f.size

def storeText (h : Memory) (f : Field) (text : List Byte) : Memory :=
  snprintf h f.offset f.size text

def storeByte (h : Memory) (f : Field) (value : Byte) : Memory := fill h f.offset value f.size

def fillFront (fileName : CString) (type : UstarType) (bytes : Int) (h : Memory) : Memory :=
  let h := storeString h name fileName
  let h := storeText h mode (octal7 (if type = .regular then 0o644 else 0o755))
  let h := storeString h uid zeros
  let h := storeString h gid zeros
  storeText h size (octal11 (toUnsigned32 bytes))

def fillBack (type : UstarType) (h : Memory) : Memory :=
  let h := storeText h mtime (octal11 1136102400)
  let h := storeByte h typeflag type.byte
  let h := storeString h magic ustar
  let h := storeByte h version 48
  let h := storeString h gname root
  storeString h uname root

def fillHeader (fileName : CString) (type : UstarType) (bytes : Int) (h : Memory) : Memory :=
  fillBack type (fillFront fileName type bytes (fill h 0 0 headerSize))

def ustarMakeHeader (fileName : CString) (type : UstarType) (bytes : Int) (header : Memory) :
    Except Fault (Bool × Memory) := do
  if type = .regular ∨ type = .directory then
    let fileName := stripAntisocialPrefixes fileName
    if fileName.strlen > 99 then return (false, header)
    else
      let h := fillHeader fileName type bytes header
      return (true, storeText h chksum (octal7 (calculateChksum h)))
  else throw (.assertion "type == USTAR_REGULAR || type == USTAR_DIRECTORY")

/-! ## Parsing a header -/

def octalLoop (h : Memory) (s : Nat) : Nat → Nat → Nat → Option Nat
  | 0, _, _ => none
  | remaining + 1, ofs, value =>
    let c := h (s + ofs)
    if 48 ≤ c ∧ c ≤ 55 then
      if value > (2 ^ 32 - 1) / 8 then none
      else octalLoop h s remaining (ofs + 1) (octalStep value c)
    else if c = 32 ∨ c = 0 then
      if ofs > 0 then some value else none
    else none

def parseOctalField (h : Memory) (f : Field) : Option Nat := octalLoop h f.offset f.size 0 0

def isAllZeros (block : Memory) (cnt : Nat) : Bool := (List.range cnt).all fun i => block i = 0

structure Parsed where
  fileName : Option CString
  type : UstarType
  size : Nat
  deriving DecidableEq

def ustarParseHeader (h : Memory) : Except String Parsed :=
  if isAllZeros h headerSize then .ok ⟨none, .eof, 0⟩
  else if ¬ ustar.sameAs h magic.offset then .error "not a ustar archive"
  else if h version.offset ≠ 48 ∨ h (version.offset + 1) ≠ 48 then .error "invalid ustar version"
  else match parseOctalField h chksum with
    | none => .error "corrupt chksum field"
    | some value =>
      if value ≠ calculateChksum h then .error "checksum mismatch"
      else if h (name.offset + name.size - 1) ≠ 0 ∨ h namePrefix.offset ≠ 0 then
        .error "file name too long"
      else
        let fileName := stripAntisocialPrefixes (CString.stringAt h name.offset name.size)
        if h typeflag.offset = UstarType.regular.byte then
          match parseOctalField h size with
          | none => .error "corrupt file size field"
          | some bytes =>
            if bytes > 2 ^ 31 - 1 then .error "file too large"
            else .ok ⟨some fileName, .regular, bytes⟩
        else if h typeflag.offset = UstarType.directory.byte then .ok ⟨some fileName, .directory, 0⟩
        else .error "unimplemented file type"

/-! ## Stripped names -/

lemma afterSlash_length (h : antisocial fileName = true) :
    (afterSlash fileName).length < fileName.length := by
  have hpos : 0 < fileName.length := by
    cases fileName with
    | nil => simp [antisocial] at h
    | cons c rest => simp
  have hsuffix := (List.dropWhile_suffix (l := fileName) (· ≠ (47 : Byte))).length_le
  rw [afterSlash, List.length_drop]
  omega

lemma antisocial_stripLoop {rounds : Nat}
    (hrounds : fileName.length ≤ rounds) : antisocial (stripLoop rounds fileName) = false := by
  induction rounds generalizing fileName with
  | zero =>
    obtain rfl := length_eq_zero_iff.mp (Nat.le_zero.mp hrounds)
    rfl
  | succ rounds ih =>
    unfold stripLoop
    split
    · rename_i hanti
      have := afterSlash_length hanti
      exact ih (by omega)
    · rename_i hanti
      exact Bool.eq_false_iff.mpr hanti

lemma stripLoop_of_social (h : antisocial fileName = false)
    (rounds : Nat) : stripLoop rounds fileName = fileName := by
  cases rounds with
  | zero => rfl
  | succ rounds => simp [stripLoop, h]

def Social (fileName : CString) : Prop :=
  antisocial fileName.bytes = false ∧ fileName.bytes ≠ [] ∧ fileName.bytes ≠ [46, 46]

lemma strip_of_social {fileName : CString} (h : Social fileName) :
    stripAntisocialPrefixes fileName = fileName := by
  have hloop := stripLoop_of_social h.1 fileName.strlen
  have hother : ¬ (fileName.bytes = [] ∨ fileName.bytes = [46, 46]) := not_or.mpr h.2
  simp only [stripAntisocialPrefixes, hloop, if_neg hother]

lemma social_strip (fileName : CString) : Social (stripAntisocialPrefixes fileName) := by
  unfold stripAntisocialPrefixes
  simp only []
  split
  · exact ⟨rfl, by decide, by decide⟩
  rename_i hother
  exact ⟨antisocial_stripLoop le_rfl, not_or.mp hother⟩

lemma strip_strlen_le (fileName : CString) :
    (stripAntisocialPrefixes fileName).strlen ≤ max fileName.strlen 1 := by
  unfold stripAntisocialPrefixes
  simp only []
  split
  · exact le_max_right _ _
  · exact le_max_of_le_left (stripLoop_suffix _ _).length_le

lemma strip_strip (fileName : CString) : stripAntisocialPrefixes
    (stripAntisocialPrefixes fileName) = stripAntisocialPrefixes fileName :=
  strip_of_social (social_strip fileName)

/-! ## Members of a header -/

section Fields

variable {f : Field}

def Field.Outside (f : Field) (i : Nat) : Prop := i < f.offset ∨ f.offset + f.size ≤ i

lemma storeString_outside {s : CString} (hs : s.strlen < f.size) (hi : f.Outside i) :
    storeString h f s i = h i :=
  CString.strlcpy_outside h s hs hi

lemma storeString_inside {s : CString} (hs : s.strlen < f.size) (hi : i ≤ s.strlen) :
    storeString h f s (f.offset + i) = s.image i :=
  CString.strlcpy_inside h s hs hi

section

variable (htext : text.length < f.size)

include htext

lemma storeText_eq : storeText h f text =
      fill (copy h f.offset (ofBytes text) 0 text.length) (f.offset + text.length) 0 1 := by
  have hmin : min text.length (f.size - 1) = text.length := by omega
  rw [storeText, snprintf, if_pos (by omega), hmin]

lemma storeText_outside
    (hi : f.Outside i) : storeText h f text i = h i := by
  unfold Field.Outside at hi
  rw [storeText_eq htext, fill, if_neg (by omega), copy_outside _ _ _ (by omega)]

lemma storeText_inside
    (hi : i ≤ text.length) : storeText h f text (f.offset + i) = ofBytes text i := by
  rw [storeText_eq htext]
  rcases Nat.lt_or_eq_of_le hi with hlt | rfl
  · rw [fill, if_neg (by omega), copy_inside _ _ _ (by omega) (by omega)]
    congr 1
    omega
  · rw [fill, if_pos (by omega), ofBytes_of_length_le le_rfl]

end

lemma storeByte_outside {value : Byte} (hi : f.Outside i) : storeByte h f value i = h i := by
  unfold Field.Outside at hi
  rw [storeByte, fill, if_neg (by omega)]

lemma storeByte_inside {value : Byte} (hi : i < f.size) :
    storeByte h f value (f.offset + i) = value := by
  rw [storeByte, fill, if_pos (by omega)]

def OctalAt (h : Memory) (f : Field) (value : Nat) : Prop :=
  ∃ text, Octal (f.size - 1) value text ∧ ∀ i < f.size, h (f.offset + i) = ofBytes text i

lemma octalAt_storeText (hsize : 0 < f.size)
    (htext : Octal (f.size - 1) value text) : OctalAt (storeText h f text) f value := by
  have hlen := htext.length
  refine ⟨text, htext, fun i hi => storeText_inside (by omega) (by omega)⟩

lemma OctalAt.congr (hval : OctalAt h f value)
    (hsame : ∀ i < f.size, h' (f.offset + i) = h (f.offset + i)) : OctalAt h' f value := by
  obtain ⟨text, htext, hbytes⟩ := hval
  exact ⟨text, htext, fun i hi => (hsame i hi).trans (hbytes i hi)⟩

lemma le_foldl_octalStep (text : List Byte) (value : Nat) : value ≤ text.foldl octalStep value := by
  induction text generalizing value with
  | nil => exact le_rfl
  | cons c rest ih =>
    have := ih (octalStep value c)
    simp only [foldl_cons, octalStep] at this ⊢
    omega

lemma octalLoop_digits (rest : List Byte) : ∀ (ofs value : Nat),
    (∀ c ∈ rest, 48 ≤ c ∧ c ≤ 55) → (∀ i ≤ rest.length, h (s + (ofs + i)) = ofBytes rest i) →
    rest.foldl octalStep value < 2 ^ 32 → 0 < ofs + rest.length →
    octalLoop h s (rest.length + 1) ofs value = some (rest.foldl octalStep value) := by
  induction rest with
  | nil =>
    intro ofs value _ hbytes _ hpos
    have hlast : h (s + ofs) = 0 := hbytes 0 le_rfl
    have hofs : 0 < ofs := hpos
    simp only [octalLoop, hlast, List.foldl_nil]
    rw [if_neg (by decide), if_pos (Or.inr trivial), if_pos hofs]
  | cons c rest ih =>
    intro ofs value hdigits hbytes hval _
    have hfirst : h (s + ofs) = c := hbytes 0 (Nat.zero_le _)
    have hstep := le_foldl_octalStep rest (octalStep value c)
    have hroom : ¬ value > (2 ^ 32 - 1) / 8 := by
      rw [foldl_cons] at hval
      generalize rest.foldl octalStep (octalStep value c) = final at hval hstep
      simp only [octalStep] at hstep
      omega
    rw [length_cons, octalLoop]
    simp only [hfirst]
    rw [if_pos (hdigits c mem_cons_self), if_neg hroom, foldl_cons]
    refine ih (ofs + 1) (octalStep value c) (fun d hd => hdigits d (mem_cons_of_mem c hd))
      (fun i hi => ?_) hval (by omega)
    have := hbytes (i + 1) (by simpa using hi)
    rwa [show ofs + (i + 1) = ofs + 1 + i by omega] at this

lemma parseOctalField_of_octalAt (hsize : 1 < f.size) (hval : value < 2 ^ 32)
    (hoctal : OctalAt h f value) : parseOctalField h f = some value := by
  obtain ⟨text, htext, hbytes⟩ := hoctal
  have hlen := htext.length
  have hloop := octalLoop_digits (h := h) (s := f.offset) text 0 0 htext.digit (fun i hi => by
      rw [Nat.zero_add]
      exact hbytes i (by omega))
    (by rwa [htext.value]) (by omega)
  rwa [htext.value, hlen, Nat.sub_add_cancel (by omega)] at hloop

end Fields

/-! ## Checksums of a header -/

lemma chksumLoop_le (h : Memory) (n : Nat) : chksumLoop h n ≤ 255 * n := by
  induction n with
  | zero => exact le_rfl
  | succ n ih =>
    have hbyte : chksumByte h n ≤ 255 := by
      unfold chksumByte
      split
      · decide
      have := (h n).toNat_lt
      omega
    have := Nat.mod_le (chksumLoop h n + chksumByte h n) (2 ^ 32)
    rw [chksumLoop]
    omega

lemma calculateChksum_lt (h : Memory) : calculateChksum h < 8 ^ 7 :=
  (chksumLoop_le h headerSize).trans_lt (by decide)

lemma chksumLoop_congr
    (hsame : ∀ i < n, chksum.Outside i → h' i = h i) : chksumLoop h' n = chksumLoop h n := by
  induction n with
  | zero => rfl
  | succ n ih =>
    have hbyte : chksumByte h' n = chksumByte h n := by
      unfold chksumByte
      split
      · rfl
      rename_i hout
      rw [hsame n (Nat.lt_succ_self n) (by unfold Field.Outside; omega)]
    rw [chksumLoop, chksumLoop, hbyte, ih fun i hi => hsame i (by omega)]

lemma calculateChksum_congr (hsame : ∀ i < headerSize, chksum.Outside i → h' i = h i) :
    calculateChksum h' = calculateChksum h :=
  chksumLoop_congr hsame

/-! ## Headers -/

structure HeaderOf (fileName : CString) (type : UstarType) (bytes : Nat) (h : Memory) : Prop where
  name : ∀ i < name.size, h (name.offset + i) = fileName.image i
  size : OctalAt h size bytes
  typeflag : h typeflag.offset = type.byte
  magic : ustar.sameAs h magic.offset = true
  version : h version.offset = 48 ∧ h (version.offset + 1) = 48
  namePrefix : h namePrefix.offset = 0

def Sealed (h : Memory) : Prop := OctalAt h chksum (calculateChksum h)

section Header

variable {fileName : CString} {type : UstarType} {bytes : Nat}

lemma HeaderOf.congr (hhdr : HeaderOf fileName type bytes h)
    (hsame : ∀ i < headerSize, chksum.Outside i → h' i = h i) :
    HeaderOf fileName type bytes h' where
  name i hi := by
    have hplace : i < 100 := hi
    refine (hsame _ ?_ (Or.inl ?_)).trans (hhdr.name i hi)
    · simp only [Ustar.name, headerSize]
      omega
    · simp only [Ustar.name, chksum]
      omega
  size := hhdr.size.congr fun i hi => by
    have hplace : i < 12 := hi
    refine hsame _ ?_ (Or.inl ?_)
    · simp only [Ustar.size, headerSize]
      omega
    · simp only [Ustar.size, chksum]
      omega
  typeflag := (hsame _ (by decide) (Or.inr (by decide))).trans hhdr.typeflag
  magic := by
    rw [← hhdr.magic]
    refine CString.sameAs_congr _ fun i hi => ?_
    have hplace : i ≤ 5 := hi
    refine hsame _ ?_ (Or.inr ?_)
    · simp only [Ustar.magic, headerSize]
      omega
    · simp only [Ustar.magic, chksum]
      omega
  version := ⟨(hsame _ (by decide) (Or.inr (by decide))).trans hhdr.version.1,
    (hsame _ (by decide) (Or.inr (by decide))).trans hhdr.version.2⟩
  namePrefix := (hsame _ (by decide) (Or.inr (by decide))).trans hhdr.namePrefix

lemma Sealed.congr (hsealed : Sealed h) (hsame : ∀ i < headerSize, h' i = h i) : Sealed h' := by
  rw [Sealed, calculateChksum_congr fun i hi _ => hsame i hi]
  refine OctalAt.congr hsealed fun i hi => hsame _ ?_
  have hplace : i < 8 := hi
  simp only [chksum, headerSize]
  omega

lemma octal7_octal (hval : value < 8 ^ 7) : Octal 7 value (octal7 value) :=
  formatInteger_octal (by decide) (by decide) hval

lemma octal11_octal (value : Nat) (hval : value < 8 ^ 11) : Octal 11 value (octal11 value) :=
  formatInteger_octal (by decide) (by decide) hval

lemma storeChksum (hhdr : HeaderOf fileName type bytes h) :
    HeaderOf fileName type bytes (storeText h chksum (octal7 (calculateChksum h))) ∧
      Sealed (storeText h chksum (octal7 (calculateChksum h))) := by
  have htext := octal7_octal (calculateChksum_lt h)
  have hshort : (octal7 (calculateChksum h)).length < chksum.size := by
    rw [htext.length]
    decide
  have hsame : ∀ i < headerSize, chksum.Outside i →
      storeText h chksum (octal7 (calculateChksum h)) i = h i := fun i _ hi =>
    storeText_outside hshort hi
  refine ⟨hhdr.congr hsame, ?_⟩
  rw [Sealed, calculateChksum_congr hsame]
  exact octalAt_storeText (by decide) htext

lemma stringAt_name (hshort : fileName.strlen < name.size) (hhdr : HeaderOf fileName type bytes h) :
    CString.stringAt h name.offset name.size = fileName :=
  fileName.stringAt_eq hshort.le
    ((fileName.sameAs_iff _ _).mpr fun i hi => hhdr.name i (hi.trans_lt hshort))

lemma ustarParseHeader_eq (hshort : fileName.strlen < name.size)
    (hhdr : HeaderOf fileName type bytes h) (hsealed : Sealed h)
    (htype : type = .regular ∨ type = .directory) (hbytes : bytes ≤ 2 ^ 31 - 1) :
    ustarParseHeader h = .ok
      ⟨some (stripAntisocialPrefixes fileName), type, if type = .regular then bytes else 0⟩ := by
  have hzero : isAllZeros h headerSize = false := by
    rw [isAllZeros, List.all_eq_false]
    exact ⟨version.offset, mem_range.mpr (by decide), by simp [hhdr.version.1]⟩
  have hchksum := parseOctalField_of_octalAt (by decide)
    ((calculateChksum_lt h).trans (by decide)) hsealed
  have hlast : h (name.offset + name.size - 1) = 0 := by
    have hterminated := hhdr.name (name.size - 1) (by decide)
    have himage : fileName.image (name.size - 1) = 0 := by
      simp only [CString.image, List.getD_eq_getElem?_getD]
      rw [List.getElem?_eq_none (Nat.le_sub_one_of_lt hshort)]
      rfl
    exact hterminated.trans himage
  have hsize := parseOctalField_of_octalAt (by decide) (by omega) hhdr.size
  have hversion : ¬ (h version.offset ≠ 48 ∨ h (version.offset + 1) ≠ 48) := by simp [hhdr.version]
  have hname : ¬ (h (name.offset + name.size - 1) ≠ 0 ∨ h namePrefix.offset ≠ 0) := by
    simp [hlast, hhdr.namePrefix]
  unfold ustarParseHeader
  rw [hzero, if_neg Bool.false_ne_true, if_neg (not_not.mpr hhdr.magic), if_neg hversion, hchksum]
  simp only [ne_eq, not_true_eq_false, if_false]
  rw [if_neg hname, stringAt_name hshort hhdr, hhdr.typeflag, hsize]
  rcases htype with rfl | rfl
  · simp only [if_true, if_neg (Nat.not_lt.mpr hbytes)]
  · rfl

lemma modeText_length : (octal7 (if type = .regular then 0o644 else 0o755)).length < mode.size := by
  rw [(octal7_octal (by split <;> decide)).length]
  decide

lemma mtimeText_length : (octal11 1136102400).length < mtime.size := by
  rw [(octal11_octal _ (by decide)).length]
  decide

lemma fillBack_outside (hi : i < 136 ∨ 329 ≤ i) : fillBack type h i = h i := by
  have hout : uname.Outside i ∧ gname.Outside i ∧ version.Outside i ∧ magic.Outside i ∧
      typeflag.Outside i ∧ mtime.Outside i := by
    simp only [Field.Outside, uname, gname, version, magic, typeflag, mtime]
    omega
  obtain ⟨huname, hgname, hversion, hmagic, htypeflag, hmtime⟩ := hout
  rw [fillBack, storeString_outside (by decide) huname, storeString_outside (by decide) hgname,
    storeByte_outside hversion, storeString_outside (by decide) hmagic,
    storeByte_outside htypeflag, storeText_outside mtimeText_length hmtime]

lemma fillFront_eq (hbytes : bytes < 2 ^ 31)
    (hout : size.Outside i ∧ gid.Outside i ∧ uid.Outside i ∧ mode.Outside i) :
    fillFront fileName type bytes h i = storeString h name fileName i := by
  have hoctal := octal11_octal bytes (by omega)
  obtain ⟨hsize, hgid, huid, hmode⟩ := hout
  rw [fillFront, toUnsigned32_ofNat (by omega),
    storeText_outside (by rw [hoctal.length]; decide) hsize, storeString_outside (by decide) hgid,
    storeString_outside (by decide) huid, storeText_outside modeText_length hmode]

lemma fillFront_outside (hshort : fileName.strlen < name.size) (hbytes : bytes < 2 ^ 31)
    (hi : 136 ≤ i) : fillFront fileName type bytes h i = h i := by
  have hname : name.Outside i := by
    simp only [Field.Outside, name]
    omega
  rw [fillFront_eq hbytes, storeString_outside hshort hname]
  simp only [Field.Outside, size, gid, uid, mode]
  omega

lemma fillFront_name (hshort : fileName.strlen < name.size) (hbytes : bytes < 2 ^ 31)
    (hi : i < name.size) (hclear : ∀ i < name.size, h i = 0) :
    fillFront fileName type bytes h i = fileName.image i := by
  rw [fillFront_eq hbytes (by simp only [Field.Outside, size, gid, uid, mode, name] at hi ⊢; omega)]
  rcases Nat.lt_or_ge fileName.strlen i with hbehind | hinside
  · rw [fileName.image_of_ge hbehind.le, ← hclear i hi]
    exact CString.strlcpy_untouched h fileName hshort (Or.inr (by simpa [name] using hbehind))
  · have hstored := storeString_inside (h := h) hshort hinside
    rwa [show name.offset + i = i from Nat.zero_add i] at hstored

lemma fillFront_size (hbytes : bytes < 2 ^ 31) :
    OctalAt (fillFront fileName type bytes h) size bytes := by
  rw [fillFront, toUnsigned32_ofNat (by omega)]
  exact octalAt_storeText (by decide) (octal11_octal _ (by omega))

lemma fillBack_typeflag : fillBack type h typeflag.offset = type.byte := by
  rw [fillBack, storeString_outside (by decide) (Or.inl (by decide)),
    storeString_outside (by decide) (Or.inl (by decide)), storeByte_outside (Or.inl (by decide)),
    storeString_outside (by decide) (Or.inl (by decide))]
  exact storeByte_inside (i := 0) (by decide)

lemma fillBack_magic : ustar.sameAs (fillBack type h) magic.offset = true := by
  rw [CString.sameAs_iff]
  intro i hi
  have hlt : i ≤ 5 := hi
  have hout : uname.Outside (magic.offset + i) ∧ gname.Outside (magic.offset + i) ∧
      version.Outside (magic.offset + i) := by
    simp only [Field.Outside, uname, gname, version, magic]
    omega
  rw [fillBack, storeString_outside (by decide) hout.1, storeString_outside (by decide) hout.2.1,
    storeByte_outside hout.2.2, storeString_inside (by decide) hi]

lemma fillBack_version (hi : i < 2) : fillBack type h (version.offset + i) = 48 := by
  have hout : uname.Outside (version.offset + i) ∧ gname.Outside (version.offset + i) := by
    simp only [Field.Outside, uname, gname, version]
    omega
  rw [fillBack, storeString_outside (by decide) hout.1, storeString_outside (by decide) hout.2,
    storeByte_inside hi]

lemma fillHeader_headerOf (hshort : fileName.strlen < name.size) (hbytes : bytes < 2 ^ 31)
    (header : Memory) : HeaderOf fileName type bytes (fillHeader fileName type bytes header) := by
  have hclear : ∀ i < headerSize, fill header 0 0 headerSize i = 0 := by
    intro i hi
    rw [fill, if_pos (by omega)]
  constructor
  · intro i hi
    have hplace : i < 100 := hi
    rw [show name.offset + i = i from Nat.zero_add i, fillHeader, fillBack_outside (by omega)]
    exact fillFront_name hshort hbytes hi fun i hi => hclear i (hi.trans (by decide))
  · refine (fillFront_size hbytes).congr fun i hi => fillBack_outside (Or.inl ?_)
    simp only [size] at hi ⊢
    omega
  · exact fillBack_typeflag
  · exact fillBack_magic
  · exact ⟨fillBack_version (i := 0) (by decide), fillBack_version (i := 1) (by decide)⟩
  rw [fillHeader, fillBack_outside (Or.inr (by decide)),
    fillFront_outside hshort hbytes (by decide), hclear _ (by decide)]

lemma ustarMakeHeader_eq (hbytes : bytes < 2 ^ 31) (htype : type = .regular ∨ type = .directory)
    (header : Memory) : ∃ made, ustarMakeHeader fileName type bytes header =
        .ok (decide ((stripAntisocialPrefixes fileName).strlen ≤ 99), made) ∧
      ((stripAntisocialPrefixes fileName).strlen ≤ 99 →
        HeaderOf (stripAntisocialPrefixes fileName) type bytes made ∧ Sealed made ∧
          ∀ i, headerSize ≤ i → made i = header i) := by
  unfold ustarMakeHeader
  rw [if_pos htype]
  by_cases hlong : (stripAntisocialPrefixes fileName).strlen > 99
  · refine ⟨header, ?_, fun hshort => absurd hlong (by omega)⟩
    simp only [if_pos hlong, decide_eq_false (Nat.not_le.mpr hlong)]
    rfl
  have hshort : (stripAntisocialPrefixes fileName).strlen ≤ 99 := Nat.le_of_not_lt hlong
  have hname := Nat.lt_succ_of_le hshort
  obtain ⟨hhdr, hsealed⟩ := storeChksum (@fillHeader_headerOf _ type _ hname hbytes header)
  refine ⟨_, ?_, fun _ => ⟨hhdr, hsealed, fun i (hi : 512 ≤ i) => ?_⟩⟩
  · simp only [if_neg hlong, decide_eq_true hshort]
    rfl
  rw [storeText_outside (by rw [(octal7_octal (calculateChksum_lt _)).length]; decide)
      (show chksum.Outside i by simp only [Field.Outside, chksum]; omega), fillHeader,
    fillBack_outside (.inr (by omega)), fillFront_outside hname hbytes (by omega), fill,
    if_neg (by simp only [headerSize]; omega)]

end Header

/-! ## The round trip -/

/-- What is made of a name, a type and a size is read back, with the name stripped; only a name
that is too long is refused. -/
theorem ustarHeader_roundTrip (fileName : CString) {type : UstarType} {bytes : Int}
    (htype : type = .regular ∨ type = .directory) (hpos : 0 ≤ bytes) (hmax : bytes ≤ 2 ^ 31 - 1)
    (header : Memory) : ∃ ok made, ustarMakeHeader fileName type bytes header = .ok (ok, made) ∧
      (ok = false ↔ (stripAntisocialPrefixes fileName).strlen > 99) ∧
      (ok = true → ustarParseHeader made = .ok ⟨some (stripAntisocialPrefixes fileName), type,
        if type = .regular then bytes.toNat else 0⟩) := by
  obtain ⟨n, rfl⟩ := Int.eq_ofNat_of_zero_le hpos
  have hn : n < 2 ^ 31 := by omega
  obtain ⟨made, hmake, hmade⟩ := ustarMakeHeader_eq hn htype header
  refine ⟨_, made, hmake, by simp, fun hok => ?_⟩
  have hshort := of_decide_eq_true hok
  obtain ⟨hheader, hsealed, -⟩ := hmade hshort
  have hparse := ustarParseHeader_eq (Nat.lt_succ_of_le hshort) hheader hsealed htype (by omega)
  rwa [strip_strip] at hparse

theorem ustarHeader_roundTrip_root : ∃ ok made,
    ustarMakeHeader root .regular 3 (fun _ => 7) = .ok (ok, made) ∧
      (ok = false ↔ (stripAntisocialPrefixes root).strlen > 99) ∧
      (ok = true → ustarParseHeader made =
        .ok ⟨some (stripAntisocialPrefixes root), .regular, 3⟩) :=
  ustarHeader_roundTrip root (Or.inl rfl) (by decide) (by decide) _

/-! ## Reading inside the block

The pointers of `strip_antisocial_prefixes` as what is left of the block behind them; a read behind
the end of the block is one of no byte. -/

/-- `!memcmp (file_name, text, strlen (text))`. -/
def startsWith : List Byte → List Byte → Except Fault Bool
  | [], _ => .ok true
  | _ :: _, [] => .error .wildAccess
  | c :: text, b :: block => if b = c then startsWith text block else .ok false

/-- `strchr (file_name, '/') + 1`; a null pointer cannot be read from. -/
def skipSlash : List Byte → Except Fault (List Byte)
  | [] => .error .wildAccess
  | b :: block =>
    if b = 47 then .ok block else if b = 0 then .error .wildAccess else skipSlash block

def stripBlock : Nat → List Byte → Except Fault (List Byte)
  | 0, block => .ok block
  | rounds + 1, block => do
    let slash ← startsWith [47] block
    let dot ← if slash then pure true else startsWith [46, 47] block
    let dots ← if dot then pure true else startsWith [46, 46, 47] block
    if dots then stripBlock rounds (← skipSlash block) else return block

lemma startsWith_eq (htext : ∀ c ∈ text, c ≠ 0) (fileName rest : List Byte) :
    startsWith text (fileName ++ 0 :: rest) = .ok (text.isPrefixOf fileName) := by
  induction text generalizing fileName with
  | nil => rfl
  | cons c text ih =>
    rw [forall_mem_cons] at htext
    cases fileName with
    | nil => simp [startsWith, Ne.symm htext.1]
    | cons b fileName =>
      rw [cons_append, startsWith, ih htext.2, List.isPrefixOf_cons_cons]
      by_cases hb : b = c
      · simp [hb]
      · simp [hb, Ne.symm hb]

lemma skipSlash_eq (hname : ∀ b ∈ fileName, b ≠ 0) (hslash : 47 ∈ fileName)
    (rest : List Byte) :
    skipSlash (fileName ++ 0 :: rest) = .ok (afterSlash fileName ++ 0 :: rest) := by
  induction fileName with
  | nil => simp at hslash
  | cons b fileName ih =>
    rw [forall_mem_cons] at hname
    rw [cons_append, skipSlash]
    by_cases hb : b = 47
    · simp [hb, afterSlash]
    have hlater : 47 ∈ fileName := (mem_cons.mp hslash).resolve_left (Ne.symm hb)
    rw [if_neg hb, if_neg hname.1, ih hname.2 hlater]
    simp [afterSlash, hb]

lemma slash_of_antisocial (h : antisocial fileName = true) : 47 ∈ fileName := by
  simp only [antisocial, Bool.or_eq_true, List.isPrefixOf_iff_prefix] at h
  rcases h with (h | h) | h
  · exact h.subset (by simp)
  · exact h.subset (by simp)
  · exact h.subset (by simp)

lemma stripBlock_eq (rounds : Nat) (hname : ∀ b ∈ fileName, b ≠ 0) (rest : List Byte) :
    stripBlock rounds (fileName ++ 0 :: rest) = .ok (stripLoop rounds fileName ++ 0 :: rest) := by
  induction rounds generalizing fileName with
  | zero => rfl
  | succ rounds ih =>
    have hrest : ∀ b ∈ afterSlash fileName, b ≠ 0 := fun b hb =>
      hname b (((List.drop_suffix _ _).trans (List.dropWhile_suffix _)).subset hb)
    have htest : stripBlock (rounds + 1) (fileName ++ 0 :: rest) =
        if antisocial fileName then
          skipSlash (fileName ++ 0 :: rest) >>= stripBlock rounds
        else .ok (fileName ++ 0 :: rest) := by
      rw [stripBlock, startsWith_eq (by simp), startsWith_eq (by simp), startsWith_eq (by simp),
        antisocial]
      cases [47].isPrefixOf fileName <;> cases [46, 47].isPrefixOf fileName <;>
        cases [46, 46, 47].isPrefixOf fileName <;> rfl
    rw [htest, stripLoop]
    split
    · next hanti =>
        rw [skipSlash_eq hname (slash_of_antisocial hanti)]
        exact ih hrest
    · rfl

/-! ## Any block -/

/-- The member holds octal digits, at least one, that end with a space or a null byte in it. -/
def OctalField (h : Memory) (f : Field) (value : Nat) : Prop :=
  ∃ digits : List Byte, digits ≠ [] ∧ digits.length < f.size ∧ (∀ c ∈ digits, 48 ≤ c ∧ c ≤ 55) ∧
    (∀ i < digits.length, h (f.offset + i) = ofBytes digits i) ∧
    (h (f.offset + digits.length) = 32 ∨ h (f.offset + digits.length) = 0) ∧
    value = digits.foldl octalStep 0

lemma octalLoop_some {result : Nat} (remaining : Nat) : ∀ {ofs value : Nat},
    octalLoop h s remaining ofs value = some result → ∃ digits : List Byte,
      digits.length < remaining ∧ (∀ c ∈ digits, 48 ≤ c ∧ c ≤ 55) ∧
      (∀ i < digits.length, h (s + (ofs + i)) = ofBytes digits i) ∧
      (h (s + (ofs + digits.length)) = 32 ∨ h (s + (ofs + digits.length)) = 0) ∧
      0 < ofs + digits.length ∧ result = digits.foldl octalStep value := by
  induction remaining with
  | zero =>
    intro ofs value hloop
    simp [octalLoop] at hloop
  | succ remaining ih =>
    intro ofs value hloop
    simp only [octalLoop] at hloop
    split at hloop
    · next hdigit =>
        split at hloop
        · simp at hloop
        obtain ⟨digits, hlen, hall, hbytes, hend, -, hval⟩ := ih hloop
        refine ⟨h (s + ofs) :: digits, by simpa using hlen, ?_, fun i hi => ?_, ?_, by simp, hval⟩
        · exact forall_mem_cons.mpr ⟨hdigit, hall⟩
        · cases i with
          | zero => rfl
          | succ i =>
            have := hbytes i (by simpa using hi)
            rwa [show ofs + 1 + i = ofs + (i + 1) by omega] at this
        · rwa [length_cons, show ofs + (digits.length + 1) = ofs + 1 + digits.length by omega]
    · split at hloop
      · next hend =>
          split at hloop
          · next hpos =>
              exact ⟨[], Nat.succ_pos _, by simp, by simp, by simpa using hend, by simpa using hpos,
                (some.inj hloop).symm⟩
          · simp at hloop
      · simp at hloop

lemma octalField_of_parse {f : Field}
    (hparse : parseOctalField h f = some value) : OctalField h f value := by
  obtain ⟨digits, hlen, hall, hbytes, hend, hpos, hval⟩ := octalLoop_some f.size hparse
  simp only [Nat.zero_add] at hbytes hend hpos
  exact ⟨digits, List.ne_nil_of_length_pos hpos, hlen, hall, hbytes, hend, hval⟩

lemma chksumLoop_eq_sum (h : Memory) (hn : n ≤ headerSize) :
    chksumLoop h n = ((List.range n).map (chksumByte h)).sum := by
  induction n with
  | zero => rfl
  | succ n ih =>
    have hle := chksumLoop_le h (n + 1)
    have hbyte : chksumByte h n ≤ 255 := by
      unfold chksumByte
      split
      · decide
      have := (h n).toNat_lt
      omega
    have hsum := chksumLoop_le h n
    rw [range_succ, map_append, List.sum_append, ← ih (by omega), chksumLoop]
    simp only [headerSize] at hn
    simpa using Nat.mod_eq_of_lt (show chksumLoop h n + chksumByte h n < 2 ^ 32 by omega)

lemma octalLoop_congr (remaining : Nat) : ∀ {ofs value : Nat},
    (∀ i < remaining, h' (s + (ofs + i)) = h (s + (ofs + i))) →
    octalLoop h' s remaining ofs value = octalLoop h s remaining ofs value := by
  induction remaining with
  | zero => exact fun _ => rfl
  | succ remaining ih =>
    intro ofs value hsame
    have hnext : ∀ {value : Nat}, octalLoop h' s remaining (ofs + 1) value =
        octalLoop h s remaining (ofs + 1) value := ih fun i hi => by
      have := hsame (i + 1) (by omega)
      rwa [show ofs + (i + 1) = ofs + 1 + i by omega] at this
    have hfirst : h' (s + ofs) = h (s + ofs) := hsame 0 (Nat.succ_pos _)
    simp only [octalLoop, hfirst, hnext]

lemma stringAt_congr {a limit : Nat} (hsame : ∀ i < limit, h' (a + i) = h (a + i)) :
    CString.stringAt h' a limit = CString.stringAt h a limit := by
  unfold CString.stringAt
  congr 2
  exact map_congr_left fun i hi => hsame i (mem_range.mp hi)

lemma ustarParseHeader_congr (hsame : ∀ i < headerSize, h' i = h i) :
    ustarParseHeader h' = ustarParseHeader h := by
  have hat : ∀ {a : Nat}, a < 512 → h' a = h a := fun ha => hsame _ ha
  have hoctal : ∀ f : Field, f.offset + f.size ≤ 512 → parseOctalField h' f = parseOctalField h f :=
    fun f hf => octalLoop_congr f.size fun i hi => hat (by omega)
  have hzeros : isAllZeros h' headerSize = isAllZeros h headerSize := by
    rw [isAllZeros, isAllZeros, Bool.eq_iff_iff, List.all_eq_true, List.all_eq_true]
    refine forall₂_congr fun i hi => ?_
    rw [hsame i (mem_range.mp hi)]
  have hmagic : ustar.sameAs h' magic.offset = ustar.sameAs h magic.offset :=
    CString.sameAs_congr _ fun i (hi : i ≤ 5) => hat (by simp only [magic]; omega)
  have hname : CString.stringAt h' name.offset name.size =
      CString.stringAt h name.offset name.size := by
    refine stringAt_congr fun i (hi : i < 100) => hat ?_
    simp only [name]
    omega
  unfold ustarParseHeader
  rw [hzeros, hmagic, hoctal chksum (by decide), hoctal size (by decide), hname,
    calculateChksum_congr fun i hi _ => hsame i hi, hat (a := version.offset) (by decide),
    hat (a := version.offset + 1) (by decide), hat (a := name.offset + name.size - 1) (by decide),
    hat (a := namePrefix.offset) (by decide), hat (a := typeflag.offset) (by decide)]

lemma stringAt_of_null {size : Nat} (hnull : h (size - 1) = 0) (hsize : 0 < size)
    {count : Nat} (hcnt : size ≤ count) : (CString.stringAt h 0 size).strlen < size ∧
      ∃ rest, (List.range count).map h = (CString.stringAt h 0 size).bytes ++ 0 :: rest := by
  have hbytes : (CString.stringAt h 0 size).bytes =
      ((List.range size).map h).takeWhile (· ≠ 0) := by simp [CString.stringAt]
  have hmem : (0 : Byte) ∈ (List.range size).map h :=
    mem_map.mpr ⟨size - 1, mem_range.mpr (by omega), hnull⟩
  -- the string ends before the first null byte
  obtain ⟨rest, hsplit⟩ : ∃ rest, (List.range size).map h =
      ((List.range size).map h).takeWhile (· ≠ 0) ++ 0 :: rest := by
    generalize (List.range size).map h = bytes at hmem
    induction bytes with
    | nil => simp at hmem
    | cons b bytes ih =>
      by_cases hb : b = 0
      · exact ⟨bytes, by simp [hb]⟩
      obtain ⟨rest, hrest⟩ := ih ((mem_cons.mp hmem).resolve_left (Ne.symm hb))
      exact ⟨rest, by simpa [hb] using hrest⟩
  have hlen := congrArg List.length hsplit
  obtain ⟨more, rfl⟩ := Nat.exists_eq_add_of_le hcnt
  refine ⟨?_, rest ++ ((List.range more).map (size + ·)).map h, ?_⟩
  · rw [CString.strlen, hbytes]
    simp only [length_map, List.length_range, length_append, length_cons] at hlen
    omega
  · rw [hbytes, List.range_add, map_append, ← cons_append, ← append_assoc, ← hsplit]

lemma ustarParseHeader_cases {parsed : Parsed} (hparse : ustarParseHeader h = .ok parsed)
    (hfile : parsed.type ≠ .eof) :
    parseOctalField h chksum = some (calculateChksum h) ∧ h (name.offset + name.size - 1) = 0 ∧
      parsed.fileName = some (stripAntisocialPrefixes (CString.stringAt h name.offset name.size)) ∧
      (parsed.type = .regular → parseOctalField h size = some parsed.size) ∧
      (parsed.type = .directory → parsed.size = 0) ∧ parsed.size ≤ 2 ^ 31 - 1 := by
  unfold ustarParseHeader at hparse
  split at hparse
  · cases hparse
    simp at hfile
  split at hparse
  · cases hparse
  split at hparse
  · cases hparse
  split at hparse
  · cases hparse
  next value hchksum =>
    split at hparse
    · cases hparse
    next heq =>
      split at hparse
      · cases hparse
      next hname =>
        obtain ⟨hlast, -⟩ := not_or.mp hname
        have hsum : parseOctalField h chksum = some (calculateChksum h) := by
          rw [hchksum, not_not.mp heq]
        simp only [] at hparse
        split at hparse
        · split at hparse
          · cases hparse
          next bytes hbytes =>
            split at hparse
            · cases hparse
            next hsmall =>
              cases hparse
              exact ⟨hsum, not_not.mp hlast, rfl, fun _ => hbytes, by simp, not_lt.mp hsmall⟩
        · split at hparse
          · cases hparse
            exact ⟨hsum, not_not.mp hlast, rfl, by simp, fun _ => rfl, Nat.zero_le _⟩
          · cases hparse

/-- No block makes the parser read behind it, and what it accepts has a harmless name, the size of
its size field and the checksum of its checksum field. -/
theorem ustarParseHeader_safe (h : Memory) :
    (∀ h', (∀ i < headerSize, h' i = h i) → ustarParseHeader h' = ustarParseHeader h) ∧
    (h (name.offset + name.size - 1) = 0 → ∀ rounds, ∃ rest,
      stripBlock rounds ((List.range headerSize).map h) = .ok
        (stripLoop rounds (CString.stringAt h name.offset name.size).bytes ++ 0 :: rest)) ∧
    ∀ parsed, ustarParseHeader h = .ok parsed → parsed.type ≠ .eof →
      (∃ fileName, parsed.fileName = some fileName ∧ fileName.bytes ≠ [] ∧ fileName.strlen ≤ 99 ∧
        fileName.bytes ≠ [46, 46] ∧ antisocial fileName.bytes = false) ∧
      (parsed.type = .regular → OctalField h size parsed.size) ∧
      (parsed.type = .directory → parsed.size = 0) ∧ parsed.size ≤ 2 ^ 31 - 1 ∧
      OctalField h chksum ((List.range headerSize).map (chksumByte h)).sum := by
  refine ⟨fun h' hsame => ustarParseHeader_congr hsame, fun hlast rounds => ?_,
    fun parsed hparse hfile => ?_⟩
  · obtain ⟨-, rest, hblock⟩ :=
      stringAt_of_null hlast (by decide) (show name.size ≤ headerSize by decide)
    rw [hblock]
    exact ⟨rest, stripBlock_eq rounds (CString.stringAt h 0 name.size).nonzero rest⟩
  obtain ⟨hchksum, hlast, hname, hregular, hdirectory, hsmall⟩ :=
    ustarParseHeader_cases hparse hfile
  obtain ⟨hsocial, hnonempty, hparent⟩ := social_strip (CString.stringAt h name.offset name.size)
  have hshort := (stringAt_of_null hlast (by decide) (show name.size ≤ headerSize by decide)).1
  refine ⟨⟨_, hname, hnonempty, ?_, hparent, hsocial⟩,
    fun hreg => octalField_of_parse (hregular hreg),
    hdirectory, hsmall, ?_⟩
  · exact (strip_strlen_le _).trans (max_le (Nat.le_of_lt_succ hshort) (by decide))
  rw [← chksumLoop_eq_sum h le_rfl]
  exact octalField_of_parse hchksum

theorem ustarParseHeader_safe_root : ∃ made parsed, ustarParseHeader made = .ok parsed ∧
    parsed.type = .regular ∧ OctalField made size parsed.size := by
  obtain ⟨made, -, hmade⟩ := @ustarMakeHeader_eq root .regular 3 (by decide) (.inl rfl) fun _ => 7
  obtain ⟨hheader, hsealed, -⟩ := hmade (by decide)
  have hparse := ustarParseHeader_eq (by decide) hheader hsealed (.inl rfl) (by decide)
  exact ⟨made, _, hparse, rfl, ((ustarParseHeader_safe made).2.2 _ hparse (by decide)).2.1 rfl⟩

/-! ## Archives -/

def sectors (size : Nat) : Nat := (size + 511) / 512

def padding (size : Nat) : Nat := if size % 512 = 0 then 0 else 512 - size % 512

def Member (fileName : CString) (contents bytes : List Byte) : Prop :=
  ∃ header filler, header.length = headerSize ∧ filler.length = padding contents.length ∧
    HeaderOf fileName .regular contents.length (ofBytes header) ∧ Sealed (ofBytes header) ∧
    bytes = header ++ contents ++ filler

def Archive : List (CString × List Byte) → List Byte → Prop
  | [], bytes => bytes = []
  | file :: files, bytes => ∃ first rest, Member file.1 file.2 first ∧ Archive files rest ∧
      bytes = first ++ rest

lemma add_padding (size : Nat) : size + padding size = 512 * sectors size := by
  unfold padding sectors
  split <;> omega

lemma Member.length {fileName : CString} {contents : List Byte}
    (h : Member fileName contents bytes) : bytes.length = 512 * (1 + sectors contents.length) := by
  obtain ⟨header, filler, hhdr, hfiller, -, -, rfl⟩ := h
  have hsize := add_padding contents.length
  rw [length_append, length_append, hhdr, hfiller, headerSize]
  omega

lemma Archive.length (h : Archive files bytes) :
    bytes.length = 512 * (files.map fun file => 1 + sectors file.2.length).sum := by
  induction files generalizing bytes with
  | nil =>
    obtain rfl : bytes = [] := h
    rfl
  | cons file files ih =>
    obtain ⟨first, rest, hfirst, hrest, rfl⟩ := h
    rw [length_append, hfirst.length, ih hrest, map_cons, List.sum_cons, ← Nat.mul_add]

def padded (contents : List Byte) : List Byte :=
  contents ++ replicate (padding contents.length) 0

def PaddedMember (fileName : CString) (contents bytes : List Byte) : Prop :=
  Member fileName contents bytes ∧
    ∃ header, header.length = headerSize ∧ bytes = header ++ padded contents

def PaddedArchive : List (CString × List Byte) → List Byte → Prop
  | [], bytes => bytes = []
  | file :: files, bytes => ∃ first rest, PaddedMember file.1 file.2 first ∧
      PaddedArchive files rest ∧ bytes = first ++ rest

lemma PaddedArchive.archive (h : PaddedArchive files bytes) : Archive files bytes := by
  induction files generalizing bytes with
  | nil => exact h
  | cons file files ih =>
    obtain ⟨first, rest, hfirst, hrest, hbytes⟩ := h
    exact ⟨first, rest, hfirst.1, ih hrest, hbytes⟩

lemma padded_append {now later : List Byte} (hpos : 0 < now.length) (hle : now.length ≤ 512)
    (hlast : later = [] ∨ now.length = 512) :
    padded (now ++ later) = (now ++ replicate (512 - now.length) 0) ++ padded later := by
  rcases hlast with rfl | hfull
  · have hcnt : padding now.length = 512 - now.length := by
      unfold padding
      split <;> omega
    rw [append_nil, padded, hcnt]
    exact (append_nil _).symm
  · have hcnt : padding (512 + later.length) = padding later.length := by
      rw [padding, padding, Nat.add_mod_left]
    simp [padded, hfull, hcnt]

end Ustar

end Pintos
