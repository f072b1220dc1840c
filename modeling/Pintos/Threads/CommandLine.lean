import Pintos.Lib.CString
import Pintos.Lib.Debug

/-!
# The kernel command line

The host packs the arguments behind the loader into the first sector of a disk
(`make_kernel_command_line` of `utils/Pintos.pm`), and `read_command_line` of
`threads/init.c` finds them there once the sector is in memory.  The state of the
reader records the bytes of the argument area that are loaded and the elements of
`argv` that are stored, inside the array or not.
-/

namespace Pintos.Threads

open Foundation

variable {m : Memory} {a hi lo p : Nat} {arg : CString} {args : List CString} {packed : List Byte}

/-! ## The host -/

def loaderArgsLen : Nat := 128

/-- `join ('', map ("$_\0", @args))`. -/
def joinArgs (args : List CString) : List Byte := args.flatMap fun arg => arg.bytes ++ [0]

def makeKernelCommandLine (args : List CString) : Option (List Byte) :=
  if (joinArgs args).length > loaderArgsLen then none
  else some ((List.range 4).map (wordByte args.length) ++ joinArgs args ++
    replicate (loaderArgsLen - (joinArgs args).length) 0)

/-! ## The kernel -/

/-- `ptov (LOADER_ARG_CNT)`; the arguments follow the four bytes of their number. -/
def loaderArgCnt : Nat := 0xC0000000 + 0x7C00 + 314

def loaderArgs : Nat := loaderArgCnt + 4

def argvLen : Nat := loaderArgsLen / 2 + 1

structure ArgvReader where
  argv : Int → Nat
  stores : List Int
  loads : List Nat

def ArgvReader.initial : ArgvReader := ⟨fun _ => 0, [], []⟩

abbrev ArgvAction := Action ArgvReader Fault

def loadByte (m : Memory) (address : Nat) : ArgvAction Byte := do
  Action.modify fun s => { s with loads := s.loads ++ [address] }
  return m address

def storeArgv (index : Int) (pointer : Nat) : ArgvAction Unit :=
  Action.modify fun s =>
    { s with argv := update s.argv index pointer, stores := s.stores ++ [index] }

/-- The loop of `strnlen`, which loads a byte before it looks at the number of bytes that
remain. -/
def strnlenLoop (m : Memory) (string : Nat) : Nat → Nat → ArgvAction Nat
  | 0, length => do
    let _ ← loadByte m (string + length)
    return length
  | remaining + 1, length => do
    if (← loadByte m (string + length)) = 0 then return length
    else strnlenLoop m string remaining (length + 1)

def strnlen (m : Memory) (string maxlen : Nat) : ArgvAction Nat := strnlenLoop m string maxlen 0

def argLoop (m : Memory) (last : Nat) : Nat → Int → Nat → ArgvAction Unit
  | 0, _, _ => return ()
  | remaining + 1, i, p =>
    if p ≥ last then stop (.panic "command line arguments overflow")
    else do
      storeArgv i p
      let length ← strnlen m p (last - p)
      argLoop m last remaining (i + 1) (p + length + 1)

/-- Load the bytes of a string up to its end or up to `c`; a string that does not end in the
argument area is read on beyond it. -/
def scanString (m : Memory) (c : Byte) : Nat → Nat → ArgvAction Unit
  | 0, _ => stop .wildAccess
  | fuel + 1, p => do
    let b ← loadByte m p
    if b = 0 ∨ b = c then return ()
    else scanString m c fuel (p + 1)

def printLoop (m : Memory) : Nat → Int → ArgvAction Unit
  | 0, _ => return ()
  | remaining + 1, i => do
    let s ← Action.get
    scanString m 32 loaderArgsLen (s.argv i)
    scanString m 0 loaderArgsLen (s.argv i)
    printLoop m remaining (i + 1)

def readCommandLine (m : Memory) : ArgvAction Unit := do
  let argc := toSigned32 (word32 m loaderArgCnt)
  argLoop m (loaderArgs + loaderArgsLen) argc.toNat 0 loaderArgs
  storeArgv argc 0
  printLoop m argc.toNat 0

/-! ## What the reader finds -/

def HoldsArgs (m : Memory) (p : Nat) (args : List CString) : Prop :=
  ∀ j (hj : j < (joinArgs args).length), m (p + j) = (joinArgs args)[j]

lemma joinArgs_cons (arg : CString) (args : List CString) :
    joinArgs (arg :: args) = arg.bytes ++ 0 :: joinArgs args := by
  simp [joinArgs]

lemma HoldsArgs.head (h : HoldsArgs m p (arg :: args)) : arg.sameAs m p = true := by
  rw [CString.sameAs_iff]
  intro i hi
  have hlt : i < (joinArgs (arg :: args)).length := by
    simp only [joinArgs_cons, length_append, length_cons, CString.strlen] at hi ⊢
    omega
  rw [h i hlt]
  simp only [joinArgs_cons, CString.image, CString.strlen] at hi ⊢
  by_cases hend : i = arg.bytes.length
  · simp [hend]
  have hin : i < arg.bytes.length := by omega
  simp [List.getElem_append_left hin, getElem?_eq_getElem hin]

lemma HoldsArgs.tail (h : HoldsArgs m p (arg :: args)) : HoldsArgs m (p + arg.strlen + 1) args := by
  intro j hj
  have hlt : arg.strlen + 1 + j < (joinArgs (arg :: args)).length := by
    simp only [joinArgs_cons, length_append, length_cons, CString.strlen]
    omega
  have hget := h _ hlt
  rw [show p + arg.strlen + 1 + j = p + (arg.strlen + 1 + j) by omega, hget]
  simp only [joinArgs_cons, CString.strlen]
  rw [List.getElem_append_right (by omega)]
  simp [show arg.bytes.length + 1 + j - arg.bytes.length = j + 1 by omega]

structure LoadsIn (lo hi : Nat) (s t : ArgvReader) : Prop where
  argv : t.argv = s.argv
  stores : t.stores = s.stores
  loads : ∀ a ∈ t.loads, a ∈ s.loads ∨ lo ≤ a ∧ a ≤ hi

lemma LoadsIn.load {s t : ArgvReader} (ha : lo ≤ a ∧ a ≤ hi)
    (h : LoadsIn lo hi { s with loads := s.loads ++ [a] } t) : LoadsIn lo hi s t := by
  refine ⟨h.argv, h.stores, fun b hb => ?_⟩
  rcases h.loads b hb with hmem | hin
  · rcases mem_append.mp hmem with hs | hone
    · exact .inl hs
    rw [mem_singleton.mp hone]
    exact .inr ha
  · exact .inr hin

lemma loadsIn_one (s : ArgvReader) (ha : lo ≤ a ∧ a ≤ hi) :
    LoadsIn lo hi s { s with loads := s.loads ++ [a] } :=
  LoadsIn.load ha ⟨rfl, rfl, fun _ h => .inl h⟩

lemma strnlenLoop_spec (harg : arg.sameAs m p = true)
    (remaining : Nat) : ∀ (length : Nat) (s : ArgvReader), length ≤ arg.strlen →
      arg.strlen ≤ length + remaining → wp (strnlenLoop m p remaining length)
        (fun r t => r = arg.strlen ∧ LoadsIn p (p + arg.strlen) s t) s := by
  rw [CString.sameAs_iff] at harg
  induction remaining with
  | zero =>
    intro length s hle hge
    simp only [strnlenLoop, loadByte, wp_bind, wp_modify, wp_pure]
    exact ⟨by omega, loadsIn_one s (by omega)⟩
  | succ remaining ih =>
    intro length s hle hge
    simp only [strnlenLoop, loadByte, wp_bind, wp_modify, wp_pure]
    rw [harg length hle]
    by_cases hend : length = arg.strlen
    · simp only [hend, CString.image_strlen, if_true, wp_pure]
      exact ⟨trivial, loadsIn_one s (by omega)⟩
    rw [if_neg (arg.image_of_lt (by omega))]
    refine wp_mono (ih (length + 1) _ (by omega) (by omega)) ?_
    rintro r t ⟨hr, ht⟩
    exact ⟨hr, ht.load (by omega)⟩

lemma scanString_spec (harg : arg.sameAs m p = true)
    (c : Byte) (fuel : Nat) : ∀ (i : Nat) (s : ArgvReader), i ≤ arg.strlen → arg.strlen < i + fuel →
      wp (scanString m c fuel (p + i)) (fun _ t => LoadsIn p (p + arg.strlen) s t) s := by
  rw [CString.sameAs_iff] at harg
  induction fuel with
  | zero =>
    intro i s hle hlt
    omega
  | succ fuel ih =>
    intro i s hle hlt
    simp only [scanString, loadByte, wp_bind, wp_modify, wp_pure]
    split
    · exact loadsIn_one s (by omega)
    · next hgo =>
        have hne : i ≠ arg.strlen := by
          intro heq
          apply hgo
          left
          rw [harg i hle, heq, CString.image_strlen]
        refine wp_mono (ih (i + 1) _ (by omega) (by omega)) ?_
        intro _ t ht
        exact ht.load (by omega)

def PointsTo (m : Memory) (lo hi : Nat) (s : ArgvReader) (i : Int) (args : List CString) : Prop :=
  ∀ k (hk : k < args.length), args[k].sameAs m (s.argv (i + k)) = true ∧
    lo ≤ s.argv (i + k) ∧ s.argv (i + k) + args[k].strlen < hi

lemma argLoop_spec {last : Nat} (args : List CString) :
    ∀ (i : Int) (p : Nat) (s : ArgvReader), HoldsArgs m p args → p + (joinArgs args).length ≤ last →
      wp (argLoop m last args.length i p) (fun _ t =>
        PointsTo m p last t i args ∧ (∀ j < i, t.argv j = s.argv j) ∧
        (∀ j, j ∈ t.stores ↔ j ∈ s.stores ∨ i ≤ j ∧ j < i + args.length) ∧
        ∀ a ∈ t.loads, a ∈ s.loads ∨ p ≤ a ∧ a < last) s := by
  induction args with
  | nil =>
    intro i p s _ _
    refine ⟨fun k hk => absurd hk (by simp), fun _ _ => rfl, fun j => ?_, fun _ h => .inl h⟩
    have hnone : ¬ (i ≤ j ∧ j < i + ([] : List CString).length) := by simp
    exact (or_iff_left hnone).symm
  | cons arg args ih =>
    intro i p s hargs hfits
    have hlen : (joinArgs (arg :: args)).length = arg.strlen + 1 + (joinArgs args).length := by
      simp only [joinArgs_cons, length_append, length_cons, CString.strlen]
      omega
    have hp : ¬ p ≥ last := by omega
    simp only [length_cons, argLoop, hp, if_false, storeArgv, wp_bind, wp_modify]
    refine wp_mono (strnlenLoop_spec hargs.head _ 0 _ (by omega) (by omega)) ?_
    rintro length u ⟨rfl, hu⟩
    refine wp_mono (ih (i + 1) (p + arg.strlen + 1) u hargs.tail (by omega)) ?_
    rintro _ t ⟨hpoints, hbefore, hstores, hloads⟩
    have hfirst : t.argv i = p := by
      rw [hbefore i (by omega), hu.argv]
      simp
    refine ⟨fun k hk => ?_, fun j hj => ?_, fun j => ?_, fun a ha => ?_⟩
    · cases k with
      | zero =>
        simp only [Nat.cast_zero, Int.add_zero, hfirst, List.getElem_cons_zero]
        exact ⟨hargs.head, le_rfl, by omega⟩
      | succ k =>
        obtain ⟨hsame, hlo, hhi⟩ := hpoints k (by simpa using hk)
        rw [show i + 1 + (k : Int) = i + (k + 1 : Nat) by omega] at hsame hlo hhi
        simp only [List.getElem_cons_succ]
        exact ⟨hsame, by omega, hhi⟩
    · rw [hbefore j (by omega), hu.argv]
      simp [show j ≠ i by omega]
    · rw [hstores, hu.stores, mem_append, mem_singleton, or_assoc]
      refine or_congr_right ?_
      push_cast
      omega
    · rcases hloads a ha with hmem | hin
      · rcases hu.loads a hmem with hs | hin
        · exact .inl hs
        · exact .inr (by omega)
      · exact .inr (by omega)

lemma printLoop_spec (args : List CString) (hshort : ∀ arg ∈ args, arg.strlen < loaderArgsLen) :
    ∀ (i : Int) (s : ArgvReader), PointsTo m lo hi s i args →
      wp (printLoop m args.length i) (fun _ t => t.argv = s.argv ∧ t.stores = s.stores ∧
        ∀ a ∈ t.loads, a ∈ s.loads ∨ lo ≤ a ∧ a < hi) s := by
  induction args with
  | nil =>
    intro i s _
    exact ⟨rfl, rfl, fun _ h => .inl h⟩
  | cons arg args ih =>
    intro i s hpoints
    obtain ⟨hsame, hlo, hhi⟩ := hpoints 0 (by simp)
    simp only [Nat.cast_zero, Int.add_zero, List.getElem_cons_zero] at hsame hlo hhi
    have hfuel := hshort arg mem_cons_self
    simp only [length_cons, printLoop, wp_bind, wp_get]
    refine wp_mono (scanString_spec hsame 32 _ 0 s (by omega) (by omega)) ?_
    intro _ u hu
    refine wp_mono (scanString_spec hsame 0 _ 0 u (by omega) (by omega)) ?_
    intro _ v hv
    have hargv : v.argv = s.argv := hv.argv.trans hu.argv
    have hrest : PointsTo m lo hi v (i + 1) args := by
      intro k hk
      have hnext := hpoints (k + 1) (by simpa using hk)
      rw [hargv, show i + 1 + (k : Int) = i + (k + 1 : Nat) by omega]
      exact hnext
    refine wp_mono (ih (fun a ha => hshort a (mem_cons_of_mem _ ha)) _ v hrest) ?_
    rintro _ t ⟨ht, hstores, hloads⟩
    refine ⟨ht.trans hargv, hstores.trans (hv.stores.trans hu.stores), fun a ha => ?_⟩
    rcases hloads a ha with hmem | hin
    · rcases hv.loads a hmem with hmem | hin
      · rcases hu.loads a hmem with hs | hin
        · exact .inl hs
        · exact .inr (by omega)
      · exact .inr (by omega)
    · exact .inr hin

/-! ## The command line as a whole -/

def Loaded (m : Memory) (packed : List Byte) : Prop :=
  ∀ i (hi : i < packed.length), m (loaderArgCnt + i) = packed[i]

/-- `argv` is the list of arguments and a null pointer; nothing outside the argument area was loaded
and nothing outside `argv` was stored. -/
structure ReadExactly (args : List CString) (m : Memory) (t : ArgvReader) : Prop where
  strings : ∀ k (hk : k < args.length), t.argv k ≠ 0 ∧ args[k].sameAs m (t.argv k) = true
  terminator : t.argv args.length = 0
  loads : ∀ a ∈ t.loads, loaderArgs ≤ a ∧ a < loaderArgs + loaderArgsLen
  stores : ∀ i ∈ t.stores, 0 ≤ i ∧ i < argvLen

lemma length_le_joinArgs (args : List CString) : args.length ≤ (joinArgs args).length := by
  induction args with
  | nil => simp
  | cons arg args ih =>
    simp only [joinArgs_cons, length_append, length_cons]
    omega

lemma strlen_lt_joinArgs (h : arg ∈ args) : arg.strlen < (joinArgs args).length := by
  induction args with
  | nil => simp at h
  | cons first rest ih =>
    simp only [joinArgs_cons, length_append, length_cons, CString.strlen]
    rcases mem_cons.mp h with rfl | hrest
    · omega
    have := ih hrest
    simp only [CString.strlen] at this
    omega

lemma makeKernelCommandLine_eq_some (h : makeKernelCommandLine args = some packed) :
    (joinArgs args).length ≤ loaderArgsLen ∧ packed = (List.range 4).map (wordByte args.length) ++
      joinArgs args ++ replicate (loaderArgsLen - (joinArgs args).length) 0 := by
  unfold makeKernelCommandLine at h
  split at h
  · simp at h
  · exact ⟨by omega, (some.inj h).symm⟩

section

variable (hpack : makeKernelCommandLine args = some packed)

include hpack

lemma Loaded.holdsArgs (h : Loaded m packed) : HoldsArgs m loaderArgs args := by
  obtain ⟨-, rfl⟩ := makeKernelCommandLine_eq_some hpack
  intro j hj
  have hget := h (4 + j) (by simp; omega)
  rw [loaderArgs, Nat.add_assoc, hget]
  simp [hj]

lemma Loaded.argc (h : Loaded m packed) : toSigned32 (word32 m loaderArgCnt) = args.length := by
  obtain ⟨hfits, rfl⟩ := makeKernelCommandLine_eq_some hpack
  have hlen := length_le_joinArgs args
  have hword : word32 m loaderArgCnt = args.length := by
    apply word32_of_wordBytes
    · simp only [loaderArgsLen] at hfits
      omega
    · intro k hk
      rw [h k (by simp; omega)]
      simp [hk]
  rw [hword, toSigned32_of_lt]
  simp only [loaderArgsLen] at hfits
  omega

lemma readCommandLine_spec (h : Loaded m packed) : wp (readCommandLine m) (fun _ t =>
      (∀ k (hk : k < args.length), t.argv k ≠ 0 ∧ args[k].sameAs m (t.argv k) = true) ∧
      t.argv args.length = 0 ∧ (∀ a ∈ t.loads, loaderArgs ≤ a ∧ a < loaderArgs + loaderArgsLen) ∧
      ∀ j, j ∈ t.stores ↔ 0 ≤ j ∧ j ≤ args.length) .initial := by
  have hfits := (makeKernelCommandLine_eq_some hpack).1
  simp only [readCommandLine, h.argc hpack, Int.toNat_natCast, wp_bind]
  refine wp_mono (argLoop_spec args 0 loaderArgs .initial (h.holdsArgs hpack) (by omega)) ?_
  rintro _ u ⟨hpoints, -, hstores, hloads⟩
  simp only [storeArgv, wp_modify]
  have hpoints' : PointsTo m loaderArgs (loaderArgs + loaderArgsLen)
      { u with argv := update u.argv args.length 0, stores := u.stores ++ [↑args.length] }
      0 args := by
    intro k hk
    have hne : (0 : Int) + k ≠ args.length := by omega
    simp only [update_of_ne hne]
    exact hpoints k hk
  have hshort : ∀ arg ∈ args, arg.strlen < loaderArgsLen :=
    fun arg harg => (strlen_lt_joinArgs harg).trans_le hfits
  refine wp_mono (printLoop_spec args hshort 0 _ hpoints') ?_
  rintro _ t ⟨ht, hstores', hloads'⟩
  refine ⟨fun k hk => ?_, ?_, fun a ha => ?_, fun j => ?_⟩
  · obtain ⟨hsame, hlo, -⟩ := hpoints' k hk
    rw [Int.zero_add] at hsame hlo
    have hpos : 0 < loaderArgs := by norm_num [loaderArgs, loaderArgCnt]
    rw [ht]
    exact ⟨(hpos.trans_le hlo).ne', hsame⟩
  · rw [ht]
    simp
  · rcases hloads' a ha with hu | hin
    · rcases hloads a hu with hnone | hin
      · simp [ArgvReader.initial] at hnone
      · exact hin
    · exact hin
  · rw [hstores', mem_append, hstores, mem_singleton]
    simp only [ArgvReader.initial, not_mem_nil, false_or]
    omega

lemma length_le_of_readExactly (hloaded : Loaded m packed)
    (h : wp (readCommandLine m) (fun _ t => ReadExactly args m t) .initial) :
    args.length < argvLen := by
  obtain ⟨_, t, hrun, hexact⟩ := wp_iff.mp h
  obtain ⟨-, -, -, hstores⟩ := (wp_of_ok hrun).mp (readCommandLine_spec hpack hloaded)
  have hlast := hexact.stores args.length ((hstores _).mpr (by omega))
  omega

end

/-- The kernel reads back what the host wrote if and only if there are at most 64 arguments: the
host bounds the number of bytes, and an empty argument takes only one. -/
theorem readCommandLine_exact_iff {args : List CString} {packed : List Byte} {m : Memory}
    (hpack : makeKernelCommandLine args = some packed) (hloaded : Loaded m packed) :
    wp (readCommandLine m) (fun _ t => ReadExactly args m t) .initial ↔ args.length ≤ 64 := by
  constructor
  · intro h
    have hlast := length_le_of_readExactly hpack hloaded h
    simp only [argvLen, loaderArgsLen] at hlast
    omega
  · intro hfew
    refine wp_mono (readCommandLine_spec hpack hloaded) ?_
    rintro _ t ⟨hstrings, hend, hloads, hstores⟩
    refine ⟨hstrings, hend, hloads, fun i hi => ?_⟩
    have hrange := (hstores i).mp hi
    simp only [argvLen, loaderArgsLen]
    omega

def commandMemory (packed : List Byte) : Memory := fun a => packed.getD (a - loaderArgCnt) 0

lemma loaded_commandMemory (packed : List Byte) : Loaded (commandMemory packed) packed := by
  intro i hi
  simp [commandMemory, hi]

def packedArgs (args : List CString) : List Byte := (makeKernelCommandLine args).getD []

/-- `-q ""`. -/
def quitArgs : List CString := [⟨[45, 113], by simp⟩, ⟨[], by simp⟩]

theorem readCommandLine_quit : wp (readCommandLine (commandMemory (packedArgs quitArgs)))
    (fun _ t => ReadExactly quitArgs (commandMemory (packedArgs quitArgs)) t) .initial :=
  (readCommandLine_exact_iff (by decide +kernel) (loaded_commandMemory _)).mpr (by decide)

def emptyArgs : List CString := replicate 65 ⟨[], by simp⟩

/-- The host accepts 65 empty arguments, and the null pointer behind them is stored outside
`argv`. -/
theorem readCommandLine_overflows : makeKernelCommandLine emptyArgs = some (packedArgs emptyArgs) ∧
    ¬ wp (readCommandLine (commandMemory (packedArgs emptyArgs)))
      (fun _ t => ReadExactly emptyArgs (commandMemory (packedArgs emptyArgs)) t) .initial := by
  have hpack : makeKernelCommandLine emptyArgs = some (packedArgs emptyArgs) := by decide +kernel
  refine ⟨hpack, mt (length_le_of_readExactly hpack (loaded_commandMemory _)) ?_⟩
  simp [emptyArgs, argvLen, loaderArgsLen]

end Pintos.Threads
