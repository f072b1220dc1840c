import Pintos.Filesys.Denied
import Pintos.Filesys.Names

/-!
# Opening files and the deny counters

A file is opened without a look at the counters of denied writes, so that it is opened in a
state with counters as in the one without.  Closing an inode may release its sectors, with a
write to the free map, but the inode of the root directory is never removed.
-/

namespace Pintos.Filesys

open Foundation

lemma inner_readLoop (data : InodeDisk) (fuel : Nat) (buffer : Memory) (size offset bytesRead : Int)
    (bounce : Bool) : Inner (readLoop data fuel buffer size offset bytesRead bounce) := by
  induction fuel generalizing buffer size offset bytesRead bounce with
  | zero => exact inner_pure _
  | succ fuel ih =>
    rw [readLoop]
    refine (inner_pure _).ite ((inner_pure _).ite (.ite ?_ ?_))
    · exact .bind (fun _ hf => hf.blockRead _ _ _) fun _ => ih _ _ _ _ _
    refine (inner_ensureBounce bounce).bind fun bounce => .ite ?_ (inner_pure _)
    exact .bind (fun _ hf => hf.blockRead _ _ _) fun _ => ih _ _ _ _ _

lemma inner_lookupLoop (inode : Inode) (name : CString) (fuel : Nat) (e : Memory) (ofs : Nat) :
    Inner (lookupLoop inode name fuel e ofs) := by
  induction fuel generalizing e ofs with
  | zero => exact inner_pure _
  | succ fuel ih =>
    rw [lookupLoop]
    refine .bind (inner_readLoop _ _ _ _ _ _ _) fun r => .ite (.ite (inner_pure _) (ih _ _)) ?_
    exact inner_pure _

/-! ## Simulation -/

/-- The action does in every state what it does in the one without the counters. -/
def Simulates {α : Type} (x : FsAction α) : Prop :=
  ∀ s Q, wp x Q (Fs.undenied s) → wp x (fun a t => Q a t.undenied) s

section Simulation

variable {α β : Type} {x : FsAction α} {addr : Nat}

lemma Simulates.bind {g : α → FsAction β} (hx : Simulates x) (hg : ∀ a, Simulates (g a)) :
    Simulates (x >>= g) := by
  intro s Q hQ
  rw [wp_bind] at hQ ⊢
  exact wp_mono (hx s _ hQ) fun a t => hg a t Q

lemma Inner.simulates (hx : Inner x) : Simulates x := fun _ _ hQ =>
  wp_mono (wp_of_undenied (fun _ _ _ => hx _ (blind_setTables _ _ _)) hQ) fun _ _ => And.left

lemma simulates_getInode {g : Inode → FsAction α}
    (h : ∀ inode, g inode.undenied = g inode ∧ Simulates (g inode)) :
    Simulates (getInode addr >>= g) := by
  intro s Q hQ
  have hfind := findInode_undenied s addr
  cases hinode : findAt Inode.addr s.openInodes addr with
  | none =>
    simp only [getInode, wp_bind, wp_get, hfind, hinode, Option.map_none, Action.wp_stop] at hQ
  | some inode =>
    rw [hinode] at hfind
    rw [wp_bind, wp_getInode hfind, (h inode).1] at hQ
    rw [wp_bind, wp_getInode hinode]
    exact (h inode).2 s Q hQ

lemma simulates_inodeReopen (addr : Nat) : Simulates (inodeReopen addr) := by
  refine simulates_getInode fun inode => ⟨rfl, Simulates.bind ?_ fun _ => (inner_pure _).simulates⟩
  intro s Q hQ
  rw [wp_modify] at hQ ⊢
  have hmap : reopened s.undenied.openInodes addr =
      (reopened s.openInodes addr).map Inode.undenied :=
    updateAt_map Inode.undenied_addr fun _ => rfl
  rw [hmap] at hQ
  exact hQ

lemma simulates_inodeOpen (sector : Nat) : Simulates (inodeOpen sector) := by
  intro s Q hQ
  have hfind : s.undenied.openInodes.find? (fun i => decide (i.sector = sector)) =
      (s.openInodes.find? fun i => decide (i.sector = sector)).map Inode.undenied := List.find?_map
  rw [inodeOpen, wp_bind, wp_get] at hQ ⊢
  rw [hfind] at hQ
  cases hinode : s.openInodes.find? (fun i => decide (i.sector = sector)) with
  | some inode =>
    rw [hinode] at hQ
    exact ((simulates_inodeReopen inode.addr).bind fun _ => (inner_pure _).simulates) s Q hQ
  | none =>
    rw [hinode] at hQ
    simp only [Option.map_none, wp_bind, wp_malloc, wp_ite, wp_newAddress, wp_blockRead, wp_modify,
      wp_pure] at hQ ⊢
    exact hQ

lemma lookupLoop_undenied (inode : Inode) (name : CString) (fuel : Nat) (e : Memory) (ofs : Nat) :
    lookupLoop inode.undenied name fuel e ofs = lookupLoop inode name fuel e ofs := by
  induction fuel generalizing e ofs with
  | zero => rfl
  | succ fuel ih =>
    rw [lookupLoop, lookupLoop]
    simp only [ih]
    rfl

lemma simulates_dirLookup (dir : Dir) (name : CString) : Simulates (dirLookup dir (some name)) := by
  refine Simulates.bind ((inner_pure name).simulates.bind fun name =>
    simulates_getInode fun inode => ⟨?_, ?_⟩)
    fun entry => ?_
  · simp only [lookupLoop_undenied]
    rfl
  · exact (Inner.bind (fun _ hf => hf.uninitialised) fun _ => inner_lookupLoop _ _ _ _ _).simulates
  cases entry with
  | none => exact (inner_pure _).simulates
  | some entry => exact simulates_inodeOpen _

end Simulation

/-! ## Opening by name -/

section Opening

variable {s : Fs}

-- Without memory an inode is closed and nothing returned, whatever that does.
lemma dirOpenRoot_follows {Q : Option Dir → Fs → Prop} (h : wp dirOpenRoot Q s.undenied) :
    outcome dirOpenRoot (fun r t => ∀ dir, r = some dir → Q r t.undenied) (fun _ => True) s := by
  rw [dirOpenRoot, wp_bind] at h
  rw [dirOpenRoot, outcome_bind]
  refine outcome_mono (outcome_of_wp (simulates_inodeOpen _ s _ h)) ?_ fun _ => id
  intro inode t ht
  simp only [dirOpen, wp_bind, wp_malloc] at ht
  simp only [dirOpen, outcome_bind, outcome_malloc]
  split
  · rename_i inode _ hgrant
    have hgrant' : t.undenied.heapOk t.undenied.allocations = true := hgrant
    rw [hgrant'] at ht
    exact fun _ _ => ht
  · rw [outcome_bind]
    exact outcome_mono (outcome_of_stops _ _ trivial) (fun _ _ _ dir hdir => by cases hdir)
      fun _ => id

lemma fileOpen_follows {inode : Option Nat} {Q : Option Nat → Fs → Prop}
    (h : wp (fileOpen inode) Q s.undenied) :
    outcome (fileOpen inode) (fun r t => ∀ file, r = some file → Q r t.undenied)
    (fun _ => True) s := by
  simp only [fileOpen, wp_bind, wp_malloc] at h
  simp only [fileOpen, outcome_bind, outcome_malloc]
  split
  · rename_i inode _ hgrant
    have hgrant' : s.undenied.heapOk s.undenied.allocations = true := hgrant
    rw [hgrant'] at h
    exact fun _ _ => h
  · rw [outcome_bind]
    exact outcome_mono (outcome_of_stops _ _ trivial) (fun _ _ _ file hfile => by cases hfile)
      fun _ => id

lemma filesysOpen_follows (h : DenySound s) (name : CString) :
    outcome (filesysOpen (some name)) (fun r t => ∀ file, r = some file →
      ∃ i, Binds s.disk name i ∧ Sound t.undenied [] ∧
        Opened s.undenied t.undenied r (slotSector s.disk i)) (fun _ => True) s := by
  have hspec := filesysOpen_sound h.sound name
  simp only [filesysOpen, wp_bind] at hspec
  simp only [filesysOpen, outcome_bind]
  refine outcome_mono (dirOpenRoot_follows (Action.wp_and hspec (dirOpenRoot_spec h.sound)))
    ?_ fun _ => id
  intro dir t hdir
  cases dir with
  | none =>
    refine outcome_of_wp (wp_mono (fileOpen_null t) ?_)
    rintro r u ⟨rfl, -⟩ file hfile
    cases hfile
  | some dir =>
    obtain ⟨hrest, ⟨k, heq, ht, -⟩ | ⟨hnone, -⟩⟩ := hdir dir rfl
    · cases heq
      simp only [wp_bind] at hrest
      rw [outcome_bind]
      have hlook := Action.wp_and hrest (ht ▸ dirLookup_sound h.sound k name)
      refine outcome_mono (outcome_of_wp (simulates_dirLookup _ name t _ hlook)) ?_ fun _ => id
      rintro inode u ⟨hrest, -, hfound⟩
      obtain ⟨extra, hroot⟩ : ∃ extra, InRoot s.undenied u.undenied extra := by
        rcases hfound with ⟨_, _, _, _, _, _, hroot⟩ | ⟨_, hroot, _⟩ <;> exact ⟨_, hroot⟩
      have hfind := (findAt_eq_some hroot.sound.tables.counted.nodup).mpr ⟨hroot.root, rfl⟩
      rw [findInode_undenied] at hfind
      obtain ⟨root, hfind, hsame⟩ := Option.map_eq_some_iff.mp hfind
      have hkept : root.removed = false := congrArg Inode.removed hsame
      rw [outcome_bind]
      refine outcome_mono (outcome_of_wp (wp_inodeClose_undenied hfind (fun hdead => ?_) hrest)) ?_
        fun _ => id
      · rw [hkept] at hdead
        cases hdead
      rintro _ v ⟨hrest, -⟩
      refine outcome_mono (fileOpen_follows hrest) ?_ fun _ => id
      intro r w hr file hfile
      obtain ⟨hsound, ⟨i, hbinds, hopened⟩ | ⟨hnone, -⟩⟩ := hr file hfile
      · exact ⟨i, hbinds, hsound, hopened⟩
      · cases hfile.symm.trans hnone
    · cases hnone

lemma DenySound.spend (h : DenySound s) (n : Nat) : DenySound (s.spend n) :=
  ⟨(h.sound.spend (fun _ => False) n).sound, h.counts, h.mapFile⟩

end Opening

end Pintos.Filesys
