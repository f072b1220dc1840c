import Pintos.Lib.CString
import Pintos.Userprog.Syscall

/-!
# Which user bytes a system call loads

The dispatcher checks the first byte of each word and of each string, then loads
all of them.  The string functions of `lib/string.c` load a user string byte by
byte; how far they go depends on the string and on what it is compared with.
-/

namespace Pintos.Userprog

open Foundation

/-- What the file system meets while it serves a name: whether the root directory was opened,
the names of its entries in use in their order, and whether `filesys_create` found room for the
header and the data of the new file. -/
structure Names where
  opened : Bool
  allocated : Bool
  entries : List CString

section

variable (pd : Pagedir) (m : Memory)

def strlenLoop : Nat → Nat → Handler Nat
  | 0, string => stop (.load string)
  | fuel + 1, string => do
    let byte ← load pd m string
    if byte = 0 then return 0
    else
      let rest ← strlenLoop fuel (string + 1)
      return rest + 1

def strlen (string : Nat) : Handler Nat := strlenLoop pd m (physBase + 1 - string) string

/-- `!strcmp (string, name)` where `name` is the kernel's. -/
def sameName (string : Nat) : List Byte → Handler Bool
  | [] => do
    let byte ← load pd m string
    return byte = 0
  | b :: rest => do
    let byte ← load pd m string
    if byte ≠ 0 ∧ byte = b then sameName (string + 1) rest else return false

def findName (string : Nat) : List CString → Handler Bool
  | [] => return false
  | name :: names => do
    if ← sameName pd m string name.bytes then return true
    else findName string names

def addName (string : Nat) (entries : List CString) : Handler Unit := do
  let first ← load pd m string
  if first = 0 then return ()
  else
    let length ← strlen pd m string
    if length > 14 then return ()
    else if ← findName pd m string entries then return ()
    else
      -- `strlcpy (e.name, name, sizeof e.name)`
      let _ ← strlen pd m string
      return ()

/-- How an operation ends: with a panic where `ASSERT (name != NULL)` of `filesys/directory.c`
fails, before the first load. -/
inductive Served where
  | returned
  | panicked
  deriving DecidableEq, Repr

def withName (file : Nat) (loads : Handler Unit) : Handler Served :=
  if file = 0 then return .panicked
  else do
    loads
    return .returned

/-- The loads of the operation that the dispatcher invokes.  `exec` copies the command line to
the kernel; the other calls have no string arguments. -/
def serve (names : Names) : Outcome → Handler Served
  | .invokes .create [file, _] =>
    if names.opened ∧ names.allocated then withName file (addName pd m file names.entries)
    else return .returned
  | .invokes .remove [file] | .invokes .open [file] =>
    if names.opened then withName file do
      let _ ← findName pd m file names.entries
      return ()
    else return .returned
  | .invokes .exec [cmdline] => do
    let _ ← strlen pd m cmdline
    return .returned
  | _ => return .returned

def systemCall (esp : Nat) (names : Names) : Handler Served := do
  let outcome ← syscallHandler pd m esp
  serve pd m names outcome

/-- The call loads no byte that is unmapped or not the user's: it would have stopped there. -/
def LoadsMapped (esp : Nat) (names : Names) : Prop :=
  wp (systemCall pd m esp names) (fun _ _ => True) []

/-! ## When the loads are good -/

structure StringEnds (string n : Nat) : Prop where
  terminator : m (string + n) = 0
  nonzero : ∀ k < n, m (string + k) ≠ 0
  mapped : ∀ k ≤ n, pd.Maps (string + k)

def StringMapped (string : Nat) : Prop := ∃ n, StringEnds pd m string n

def ComparedMapped (string : Nat) (name : CString) : Prop :=
  ∀ k ≤ name.strlen, (∀ j < k, m (string + j) = name.image j) → pd.Maps (string + k)

def EntriesMapped (string : Nat) : List CString → Prop
  | [] => True
  | name :: names =>
    ComparedMapped pd m string name ∧ (name.sameAs m string = false → EntriesMapped string names)

def CallMapped (esp : Nat) (names : Names) : Syscall → Prop
  | .halt => True
  | .exit | .wait | .tell | .filesize | .close =>
    ValidPtr pd (argAddress esp 1) → pd.MapsWord (argAddress esp 1)
  | .exec => ValidPtr pd (argAddress esp 1) → pd.MapsWord (argAddress esp 1) ∧
      (ValidPtr pd (word32 m (argAddress esp 1)) → StringMapped pd m (word32 m (argAddress esp 1)))
  | .open => ValidPtr pd (argAddress esp 1) → pd.MapsWord (argAddress esp 1) ∧
      (ValidPtr pd (word32 m (argAddress esp 1)) → names.opened →
        EntriesMapped pd m (word32 m (argAddress esp 1)) names.entries)
  | .create => ValidPtr pd (argAddress esp 5) → ValidPtr pd (argAddress esp 4) →
      pd.MapsWord (argAddress esp 4) ∧ (ValidPtr pd (word32 m (argAddress esp 4)) →
        pd.MapsWord (argAddress esp 5) ∧ (names.opened → names.allocated →
          StringMapped pd m (word32 m (argAddress esp 4))))
  | .remove => ValidPtr pd (argAddress esp 4) → pd.MapsWord (argAddress esp 4) ∧
      (ValidPtr pd (word32 m (argAddress esp 4)) →
        -- the word that is used is not the one that was checked
        pd.MapsWord (argAddress esp 1) ∧ (names.opened → word32 m (argAddress esp 1) ≠ 0 →
          EntriesMapped pd m (word32 m (argAddress esp 1)) names.entries))
  | .read | .write => ValidPtr pd (argAddress esp 5) → ValidPtr pd (argAddress esp 6) →
      ValidPtr pd (argAddress esp 7) →
        pd.MapsWord (argAddress esp 6) ∧ pd.MapsWord (argAddress esp 7) ∧
          (ValidPtr pd (word32 m (argAddress esp 6)) →
            ValidPtr pd (lastByte (word32 m (argAddress esp 6)) (word32 m (argAddress esp 7))) →
              pd.MapsWord (argAddress esp 5))
  | .seek => ValidPtr pd (argAddress esp 4) → ValidPtr pd (argAddress esp 5) →
      pd.MapsWord (argAddress esp 4) ∧ pd.MapsWord (argAddress esp 5)
  | .mmap => pd.MapsWord (argAddress esp 1) ∧ pd.MapsWord (argAddress esp 2)
  | .munmap => pd.MapsWord (argAddress esp 1)

/-- The words and strings of the call at `esp` are mapped beyond their first bytes. -/
def ArgumentsMapped (esp : Nat) (names : Names) : Prop :=
  ValidPtr pd esp → pd.MapsWord esp ∧
    ∀ call, Syscall.ofNumber (word32 m esp) = some call → CallMapped pd m esp names call

end

/-! ## Rules for the string functions -/

section

variable {pd : Pagedir} {m : Memory} {checks : List Check}

lemma stringEnds_zero_iff (string : Nat) :
    StringEnds pd m string 0 ↔ pd.Maps string ∧ m string = 0 := by
  constructor
  · intro h
    exact ⟨h.mapped 0 (le_refl 0), h.terminator⟩
  rintro ⟨hmaps, hzero⟩
  refine ⟨hzero, by simp, fun k hk => ?_⟩
  obtain rfl : k = 0 := by omega
  exact hmaps

lemma stringEnds_succ_iff (string n : Nat) : StringEnds pd m string (n + 1) ↔
      pd.Maps string ∧ m string ≠ 0 ∧ StringEnds pd m (string + 1) n := by
  have hshift : ∀ k, string + 1 + k = string + (k + 1) := fun k => by omega
  constructor
  · intro h
    refine ⟨h.mapped 0 (by omega), h.nonzero 0 (by omega), ?_, ?_, ?_⟩
    · rw [hshift]
      exact h.terminator
    · intro k hk
      rw [hshift]
      exact h.nonzero _ (by omega)
    · intro k hk
      rw [hshift]
      exact h.mapped _ (by omega)
  · rintro ⟨hmaps, hne, hrest⟩
    refine ⟨by rw [← hshift]; exact hrest.terminator, fun k hk => ?_, fun k hk => ?_⟩
    · cases k with
      | zero => exact hne
      | succ k =>
        rw [← hshift]
        exact hrest.nonzero k (by omega)
    · cases k with
      | zero => exact hmaps
      | succ k =>
        rw [← hshift]
        exact hrest.mapped k (by omega)

lemma wp_strlenLoop (fuel string : Nat) (Q : Nat → List Check → Prop) : wp
    (strlenLoop pd m fuel string) Q checks ↔ ∃ n < fuel, StringEnds pd m string n ∧ Q n checks := by
  induction fuel generalizing string Q with
  | zero => simp [strlenLoop]
  | succ fuel ih =>
    simp only [strlenLoop, wp_bind, wp_load, wp_ite, wp_pure, ih]
    constructor
    · rintro ⟨hmaps, hrest⟩
      split at hrest
      · rename_i hzero
        exact ⟨0, by omega, (stringEnds_zero_iff string).mpr ⟨hmaps, hzero⟩, hrest⟩
      rename_i hne
      obtain ⟨n, hn, hends, hq⟩ := hrest
      exact ⟨n + 1, by omega, (stringEnds_succ_iff string n).mpr ⟨hmaps, hne, hends⟩, hq⟩
    · rintro ⟨n, hn, hends, hq⟩
      cases n with
      | zero =>
        obtain ⟨hmaps, hzero⟩ := (stringEnds_zero_iff string).mp hends
        exact ⟨hmaps, by rwa [if_pos hzero]⟩
      | succ n =>
        obtain ⟨hmaps, hne, hrest⟩ := (stringEnds_succ_iff string n).mp hends
        refine ⟨hmaps, ?_⟩
        rw [if_neg hne]
        exact ⟨n, by omega, hrest, hq⟩

lemma wp_strlen (string : Nat) (Q : Nat → List Check → Prop) :
    wp (strlen pd m string) Q checks ↔ ∃ n, StringEnds pd m string n ∧ Q n checks := by
  rw [strlen, wp_strlenLoop]
  constructor
  · rintro ⟨n, -, h⟩
    exact ⟨n, h⟩
  · rintro ⟨n, hends, hq⟩
    have hbelow : string + n < physBase := (hends.mapped n (le_refl n)).1
    exact ⟨n, by omega, hends, hq⟩

lemma wp_sameName (string : Nat) (bytes : List Byte) (hbytes : ∀ b ∈ bytes, b ≠ 0)
    (Q : Bool → List Check → Prop) : wp (sameName pd m string bytes) Q checks ↔
      (∀ k ≤ bytes.length, (∀ j < k, m (string + j) = bytes.getD j 0) → pd.Maps (string + k)) ∧
        Q (CString.equalsAt m bytes string) checks := by
  induction bytes generalizing string with
  | nil => simp [sameName, CString.equalsAt]
  | cons b rest ih =>
    have hb : b ≠ 0 := hbytes b (by simp)
    have hrest : ∀ c ∈ rest, c ≠ 0 := fun c hc => hbytes c (by simp [hc])
    have hshift : ∀ k, string + 1 + k = string + (k + 1) := fun k => by omega
    simp only [sameName, wp_bind, wp_load, wp_ite, wp_pure,
      ih _ hrest, CString.equalsAt, length_cons]
    by_cases heq : m string = b
    · -- the first bytes agree: the rest of the loads are those of the rest
      have hcond : m string ≠ 0 ∧ m string = b := ⟨heq ▸ hb, heq⟩
      rw [if_pos hcond, if_pos heq.symm, ← and_assoc]
      refine and_congr_left fun _ => ?_
      constructor
      · rintro ⟨hmaps, hall⟩ k hk hprefix
        cases k with
        | zero => exact hmaps
        | succ k =>
          rw [← hshift]
          refine hall k (by omega) fun j hj => ?_
          rw [hshift]
          simpa using hprefix (j + 1) (by omega)
      · intro hall
        refine ⟨hall 0 (by omega) (by simp), fun k hk hprefix => ?_⟩
        rw [hshift]
        refine hall (k + 1) (by omega) fun j hj => ?_
        cases j with
        | zero => simpa using heq
        | succ j =>
          rw [← hshift]
          simpa using hprefix j (by omega)
    · have hcond : ¬ (m string ≠ 0 ∧ m string = b) := fun h => heq h.2
      rw [if_neg hcond, if_neg (Ne.symm heq)]
      refine and_congr_left fun _ => ?_
      constructor
      · intro hmaps k hk hprefix
        cases k with
        | zero => exact hmaps
        | succ k => exact absurd (by simpa using hprefix 0 (by omega)) heq
      · intro hall
        exact hall 0 (by omega) (by simp)

lemma wp_findName (string : Nat) (names : List CString) (Q : Bool → List Check → Prop) :
    wp (findName pd m string names) Q checks ↔
      EntriesMapped pd m string names ∧ Q (names.any (·.sameAs m string)) checks := by
  induction names with
  | nil => simp [findName, EntriesMapped]
  | cons name names ih =>
    simp only [findName, wp_bind, wp_sameName _ _ name.nonzero, wp_ite,
      wp_pure, ih, EntriesMapped, ComparedMapped, List.any_cons]
    cases hsame : name.sameAs m string with
    | true =>
      have hequals : CString.equalsAt m name.bytes string = true := hsame
      simp [hequals, CString.image, CString.strlen]
    | false =>
      have hequals : CString.equalsAt m name.bytes string = false := hsame
      simp [hequals, CString.image, CString.strlen, and_assoc]

lemma comparedMapped_of_stringMapped {string : Nat} (h : StringMapped pd m string)
    (name : CString) : ComparedMapped pd m string name := by
  obtain ⟨n, hends⟩ := h
  intro k hk hprefix
  refine hends.mapped k (Nat.le_of_not_lt fun hlt => ?_)
  have hzero := hprefix n hlt
  rw [hends.terminator] at hzero
  exact name.image_of_lt (Nat.lt_of_lt_of_le hlt hk) hzero.symm

lemma entriesMapped_of_stringMapped {string : Nat} (h : StringMapped pd m string)
    (names : List CString) : EntriesMapped pd m string names := by
  induction names with
  | nil => trivial
  | cons name names ih => exact ⟨comparedMapped_of_stringMapped h name, fun _ => ih⟩

lemma wp_addName (string : Nat) (entries : List CString) :
    wp (addName pd m string entries) (fun _ _ => True) checks ↔ StringMapped pd m string := by
  simp only [addName, wp_bind, wp_load, wp_ite, wp_pure, wp_strlen, wp_findName]
  constructor
  · rintro ⟨hmaps, hrest⟩
    by_cases hzero : m string = 0
    · exact ⟨0, (stringEnds_zero_iff string).mpr ⟨hmaps, hzero⟩⟩
    rw [if_neg hzero] at hrest
    obtain ⟨n, hends, -⟩ := hrest
    exact ⟨n, hends⟩
  rintro ⟨n, hends⟩
  have hentries := entriesMapped_of_stringMapped ⟨n, hends⟩ entries
  refine ⟨hends.mapped 0 (Nat.zero_le n), ?_⟩
  split
  · trivial
  refine ⟨n, hends, ?_⟩
  split
  · trivial
  refine ⟨hentries, ?_⟩
  split
  · trivial
  · exact ⟨n, hends, trivial⟩

lemma wp_withName (file : Nat) (loads : Handler Unit) :
    wp (withName file loads) (fun _ _ => True) checks ↔
      (file ≠ 0 → wp loads (fun _ _ => True) checks) := by
  by_cases hfile : file = 0 <;> simp [withName, hfile]

/-! ## The theorem -/

lemma wp_dispatch_serve (esp : Nat) (names : Names) (call : Syscall) :
    wp (dispatch pd m esp call >>= serve pd m names) (fun _ _ => True) checks ↔
      CallMapped pd m esp names call := by
  cases call with
  | halt => simp [dispatch, serve, CallMapped]
  | exit | wait | tell | filesize | close => simp [dispatch, oneWord, serve, CallMapped]
  | exec =>
    simp only [dispatch, oneString, serve, CallMapped, wp_bind, wp_validateArg,
      wp_validate_pointee, wp_arg, wp_pure, wp_strlen, and_true]
    grind [StringMapped]
  | «open» =>
    simp only [dispatch, oneString, serve, CallMapped, wp_bind, wp_validateArg,
      wp_validate_pointee, wp_arg, wp_pure, wp_ite, wp_withName, wp_findName, and_true]
    grind [ValidPtr]
  | create =>
    simp only [dispatch, handleCreate, serve, CallMapped, wp_bind, wp_validateArg,
      wp_validate_pointee, wp_arg, wp_pure, wp_ite, wp_withName, wp_addName]
    grind [ValidPtr]
  | remove =>
    simp only [dispatch, handleRemove, serve, CallMapped, wp_bind, wp_validateArg,
      wp_validate_pointee, wp_arg, wp_pure, wp_ite, wp_withName, wp_findName, and_true]
    grind
  | read | write =>
    simp only [dispatch, handleTransfer, rejectTransfer, serve, CallMapped, wp_bind,
      wp_validateArg, wp_check_pointee, wp_arg, wp_pure, wp_ite]
    grind
  | seek =>
    simp only [dispatch, handleSeek, serve, CallMapped, wp_bind, wp_validateArg, wp_arg, wp_pure]
    grind
  | mmap | munmap => simp [dispatch, serve, CallMapped]

theorem loadsMapped_iff (pd : Pagedir) (m : Memory) (esp : Nat) (names : Names) :
    LoadsMapped pd m esp names ↔ ArgumentsMapped pd m esp names := by
  simp only [LoadsMapped, systemCall, syscallHandler, ArgumentsMapped, wp_bind,
    wp_validate_word, wp_loadWord]
  by_cases hvalid : ValidPtr pd esp
  · rw [if_pos hvalid]
    cases hcall : Syscall.ofNumber (word32 m esp) with
    | none => simp [serve, hvalid]
    | some call =>
      have hserve : wp (dispatch pd m esp call)
          (fun outcome checks => wp (serve pd m names outcome) (fun _ _ => True) checks)
          [.word esp] ↔ CallMapped pd m esp names call := by
        rw [← wp_bind]
        exact wp_dispatch_serve esp names call
      simp [hvalid, hserve]
  · simp [hvalid, serve]

end

def onePage : Pagedir := fun page => if page = 0x8049 then some ⟨0, true, false, false⟩ else none

/-- A number that straddles the end of the page: its third byte is not mapped. -/
theorem systemCall_straddles : ValidPtr onePage 0x08049FFE ∧
      ¬ LoadsMapped onePage (fun _ => 0) 0x08049FFE ⟨true, true, []⟩ := by
  refine ⟨by decide, ?_⟩
  unfold LoadsMapped
  decide +kernel

end Pintos.Userprog
