import Pintos.Filesys.Counters
import Pintos.Vm.Page

/-!
# Loading an executable

`load` of `userprog/process.c` with its helpers: the checks of the ELF headers,
the segments, and the stack with the arguments.  All sums and differences of the
source are of unsigned 32-bit words; `ptrAdd` is such a sum.  Kernel stores to
user addresses go through the page directory that `process_activate` made
current.
-/

namespace Pintos.Userprog.Loader

open Foundation Filesys Vm

/-! ## Executable and program headers -/

def half (m : Memory) (a : Nat) : Nat := (m a).toNat + 256 * (m (a + 1)).toNat

structure Ehdr where
  eIdent : List Byte
  eType : Nat
  eMachine : Nat
  eVersion : Nat
  eEntry : Nat
  ePhoff : Nat
  ePhentsize : Nat
  ePhnum : Nat
  deriving DecidableEq, Repr

def ehdrSize : Nat := 52

def Ehdr.decode (m : Memory) : Ehdr where
  eIdent := (List.range 7).map m
  eType := half m 16
  eMachine := half m 18
  eVersion := word32 m 20
  eEntry := word32 m 24
  ePhoff := word32 m 28
  ePhentsize := half m 42
  ePhnum := half m 44

structure Phdr where
  pType : Nat
  pOffset : Nat
  pVaddr : Nat
  pFilesz : Nat
  pMemsz : Nat
  pFlags : Nat
  deriving DecidableEq, Repr

def phdrSize : Nat := 32

def Phdr.decode (m : Memory) (a : Nat) : Phdr where
  pType := word32 m a
  pOffset := word32 m (a + 4)
  pVaddr := word32 m (a + 8)
  pFilesz := word32 m (a + 16)
  pMemsz := word32 m (a + 20)
  pFlags := word32 m (a + 24)

def Ehdr.Accepted (e : Ehdr) : Prop :=
  e.eIdent = [0x7f, 0x45, 0x4c, 0x46, 1, 1, 1] ∧ e.eType = 2 ∧ e.eMachine = 3 ∧ e.eVersion = 1 ∧
    e.ePhentsize = phdrSize ∧ e.ePhnum ≤ 1024

instance (e : Ehdr) : Decidable e.Accepted := by
  unfold Ehdr.Accepted
  infer_instance

def ptLoad : Nat := 1

/-- `p_flags & PF_W`. -/
def Phdr.writable (ph : Phdr) : Bool := ph.pFlags / 2 % 2 = 1

def validateSegment (ph : Phdr) (length : Int) : Bool :=
  if pgOfs ph.pOffset ≠ pgOfs ph.pVaddr then false
  else if ph.pOffset > toUnsigned32 length then false
  else if ph.pMemsz < ph.pFilesz then false
  else if ph.pMemsz = 0 then false
  else if ¬ph.pVaddr < physBase then false
  else if ¬ptrAdd ph.pVaddr ph.pMemsz < physBase then false
  else if ptrAdd ph.pVaddr ph.pMemsz < ph.pVaddr then false
  else if ph.pVaddr < pgSize then false
  else true

/-! ## Segments -/

@[irreducible] def sub32 (a b : Nat) : Nat := (a + 2 ^ 32 - b) % 2 ^ 32

/-- `ROUND_UP (x, PGSIZE)`; only the sum can wrap around. -/
def roundUp (x : Nat) : Nat := ptrAdd x (pgSize - 1) / pgSize * pgSize

structure Placement where
  filePage : Nat
  memPage : Nat
  readBytes : Nat
  zeroBytes : Nat
  deriving DecidableEq, Repr

def Phdr.placement (ph : Phdr) : Placement :=
  let readBytes := if ph.pFilesz > 0 then ptrAdd (pgOfs ph.pVaddr) ph.pFilesz else 0
  { filePage := pgRoundDown ph.pOffset
    memPage := pgRoundDown ph.pVaddr
    readBytes
    zeroBytes :=
      if ph.pFilesz > 0 then sub32 (roundUp (ptrAdd (pgOfs ph.pVaddr) ph.pMemsz)) readBytes
      else roundUp (ptrAdd (pgOfs ph.pVaddr) ph.pMemsz) }

def installPage (upage : Nat) (kpage : KernelPtr) (writable : Bool) : KernelAction Bool := do
  match ← pagedirGetPage upage with
  | some _ => return false
  | none => pagedirSetPage (pgNo upage) kpage writable

/-- Read `pageReadBytes` bytes into the page and clear the rest of it.  An entry of the frame table
taken for a frame is overwritten along with its neighbours on the heap. -/
def fillFrame (file pageReadBytes : Nat) : KernelPtr → KernelAction Bool
  | .entry _ => stop .wildAccess
  | .page frame => do
    let k ← Action.get
    let (bytesRead, contents) ← onFs (fileRead file (k.memory frame) pageReadBytes)
    Action.modify (·.setPage frame contents)
    if bytesRead = pageReadBytes then do
      Action.modify (·.setPage frame (fill contents pageReadBytes 0 (pgSize - pageReadBytes)))
      return true
    else return false

def segmentPage (file upage pageReadBytes : Nat) (writable : Bool) : KernelAction Bool := do
  match ← vmGetFrame ⟨false, false, true⟩ with
  | none => return false
  | some kpage => do
    if ← fillFrame file pageReadBytes kpage then
      if ← installPage upage kpage writable then return true
      else do
        vmFreeFrame kpage
        return false
    else do
      vmFreeFrame kpage
      return false

/-- The loop of `load_segment`; without a result if it has not ended after so many rounds. -/
def segmentLoop (file : Nat) (writable : Bool) : Nat → Nat → Nat → Nat → KernelAction (Option Bool)
  | 0, _, readBytes, zeroBytes => return if readBytes > 0 ∨ zeroBytes > 0 then none else some true
  | rounds + 1, upage, readBytes, zeroBytes =>
    if readBytes > 0 ∨ zeroBytes > 0 then do
      let pageReadBytes := if readBytes < pgSize then readBytes else pgSize
      let pageZeroBytes := pgSize - pageReadBytes
      if ← segmentPage file upage pageReadBytes writable then
        segmentLoop file writable rounds (ptrAdd upage pgSize) (readBytes - pageReadBytes)
          (sub32 zeroBytes pageZeroBytes)
      else return some false
    else return some true

def segmentBody (file : Nat) (ofs : Int) (upage readBytes zeroBytes : Nat) (writable : Bool) :
    KernelAction (Option Bool) := do
  onFs (fileSeek file ofs)
  segmentLoop file writable ((readBytes + zeroBytes) / pgSize) upage readBytes zeroBytes

def loadSegment (file : Nat) (ofs : Int) (upage readBytes zeroBytes : Nat) (writable : Bool) :
    KernelAction (Option Bool) := do
  require (ptrAdd readBytes zeroBytes % pgSize = 0)
    (.assertion "(read_bytes + zero_bytes) % PGSIZE == 0")
  require (pgOfs upage = 0) (.assertion "pg_ofs (upage) == 0")
  require (ofs.tmod pgSize = 0) (.assertion "ofs % PGSIZE == 0")
  segmentBody file ofs upage readBytes zeroBytes writable

/-! ## Program headers -/

def loadHeader (file : Nat) (ph : Phdr) : KernelAction Bool :=
  if ph.pType = 2 ∨ ph.pType = 3 ∨ ph.pType = 5 then return false
  else if ph.pType = ptLoad then do
    let length ← onFs (fileLength file)
    if validateSegment ph length then do
      let p := ph.placement
      match ← loadSegment file (toSigned32 p.filePage) p.memPage p.readBytes p.zeroBytes
        ph.writable with
      | some loaded => return loaded
      -- never happens to a segment that was validated
      | none => stop .misuse
    else return false
  else return true

def loadHeaders (file : Nat) : Nat → Int → KernelAction Bool
  | 0, _ => return true
  | remaining + 1, fileOfs => do
    let length ← onFs (fileLength file)
    if fileOfs < 0 ∨ fileOfs > length then return false
    else do
      onFs (fileSeek file fileOfs)
      let (bytesRead, phdr) ← onFs (fileRead file (fun _ => 0) phdrSize)
      if bytesRead = phdrSize then
        if ← loadHeader file (Phdr.decode phdr 0) then
          loadHeaders file remaining (toSigned32 (ptrAdd (toUnsigned32 fileOfs) phdrSize))
        else return false
      else return false

/-! ## The stack -/

def storeByte (address : Nat) (byte : Byte) : KernelAction Unit := do
  let process ← threadCurrent
  match (process.pagedir.bind (·.lookup (pgNo address))) with
  | some mapping => do
    require (mapping.writable = true) .wildAccess
    Action.modify fun k => k.setPage mapping.frame
      (update (k.memory mapping.frame) (pgOfs address) byte)
  | none => stop .wildAccess

def storeBytes : Nat → List Byte → KernelAction Unit
  | _, [] => return ()
  | address, byte :: rest => do
    storeByte address byte
    storeBytes (address + 1) rest

/-- For each block, move `*esp` down by its size and copy it there. -/
def pushAll : Nat → List (List Byte) → KernelAction Nat
  | esp, [] => return esp
  | esp, block :: rest => do
    storeBytes (esp - block.length) block
    pushAll (esp - block.length) rest

def wordBytes (value : Nat) : List Byte := (List.range 4).map (wordByte value)

/-- The values of `*esp` after each of the strings. -/
def argvOf : Nat → List CString → List Nat
  | _, [] => []
  | esp, token :: rest => (esp - (token.strlen + 1)) :: argvOf (esp - (token.strlen + 1)) rest

def stringsSize (args : List CString) : Nat := (args.map fun token => token.strlen + 1).sum

/-- What `setup_stack` copies to the stack, in this order: the strings, padding, the null pointer
and the pointers to the strings from the last to the first, `argv`, `argc` and a return address. -/
def argumentBlocks (args : List CString) : List (List Byte) :=
  let padding := (physBase - stringsSize args) % 4
  let pointers := 0 :: (argvOf physBase args).reverse
  args.map (fun token => token.bytes ++ [0]) ++ [replicate padding 0] ++
    pointers.map wordBytes ++
    [wordBytes (physBase - stringsSize args - padding - 4 * (args.length + 1)),
      wordBytes args.length, wordBytes 0]

/-- `malloc (strlen (s) + 1)` and `strlcpy`. -/
def copyString : KernelAction Unit := do
  let allocated ← onFs malloc
  require (allocated = true) (.assertion "dst != NULL")

structure CommandLine extends CString where
  fits : bytes.length < pgSize

def stackPage : Nat := physBase - pgSize

def setupStack (cmdline : CommandLine) : KernelAction (Option Nat) := do
  copyString
  match ← vmGetFrame ⟨false, true, true⟩ with
  | none => return none
  | some kpage => do
    if ← installPage stackPage kpage true then do
      copyString
      -- `argv` is stored to without a check
      let allocated ← onFs malloc
      require (allocated = true) .wildAccess
      let esp ← pushAll physBase (argumentBlocks cmdline.tokens)
      return some esp
    else do
      vmFreeFrame kpage
      return none

/-! ## `load` -/

/-- The part of `load` between the opening of the file and `done`: the entry point and the stack
pointer if it succeeds. -/
def loadImage (file : Nat) (cmdline : CommandLine) : KernelAction (Option (Nat × Nat)) := do
  let (bytesRead, ehdr) ← onFs (fileRead file (fun _ => 0) ehdrSize)
  let ehdr := Ehdr.decode ehdr
  if bytesRead = ehdrSize ∧ ehdr.Accepted then
    if ← loadHeaders file ehdr.ePhnum (toSigned32 ehdr.ePhoff) then
      match ← setupStack cmdline with
      | some esp => return some (ehdr.eEntry, esp)
      | none => return none
    else return none
  else return none

def load (cmdline : CommandLine) : KernelAction (Option (Nat × Nat)) := do
  let _ ← threadCurrent
  copyString
  copyString
  -- `pagedir_create`
  let created ← onFs malloc
  if created then do
    updateCurrent (·.setPagedir (some .empty))
    match ← onFs (filesysOpen cmdline.tokens.head?) with
    | none => return none
    | some file =>
      match ← loadImage file cmdline with
      | some start => do
        updateCurrent ({ · with exec := some file })
        onFs (fileDenyWrite file)
        return some start
      | none => do
        onFs (fileClose (some file))
        return none
  else do
    updateCurrent (·.setPagedir none)
    return none

end Pintos.Userprog.Loader
