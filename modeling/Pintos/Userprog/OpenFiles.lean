import Pintos.Filesys.Operations

/-!
# The open files of a process

`sys_open`, `close_extra_files` and the exit loop `close_thread_files` of
`userprog/syscall.c`, over any file layer: all they need of it is that an open
file object is new and that closing one leaves the others open.  The file system
of `filesys/` is such a layer.
-/

namespace Pintos.Userprog

open Foundation Filesys

variable {index : Nat} {fd : Int}

/-- What `filesys_open` and `file_close` do to the set of open `struct file` objects. -/
structure FileLayer (σ : Type) where
  openFile : CString → Action σ Fault (Option Nat)
  closeFile : Nat → Action σ Fault Unit
  Ok : σ → Prop
  Live : σ → Nat → Prop
  open_spec : ∀ s name, Ok s → wp (openFile name)
    (fun file t => Ok t ∧ (∀ f, Live t f ↔ Live s f ∨ file = some f) ∧
      ∀ f, file = some f → ¬ Live s f) s
  close_spec : ∀ s file, Ok s → Live s file → wp (closeFile file)
    (fun _ t => Ok t ∧ ∀ f, Live t f ↔ Live s f ∧ f ≠ file) s

structure FileDescriptor where
  fdNum : Int
  owner : Nat
  file : Nat
  deriving DecidableEq, Repr

variable {d : FileDescriptor} {rest : List FileDescriptor}

structure Descriptors (σ : Type) where
  layer : σ
  tid : Nat
  nextFd : Int
  openFiles : List FileDescriptor

def incremented (i : Int) : Int := toSigned32 (toUnsigned32 (i + 1))

lemma incremented_eq {i : Int} (h0 : 0 ≤ i) (h : i + 1 < 2 ^ 31) : incremented i = i + 1 :=
  toSigned32_toUnsigned32 (by omega) h

section

variable {σ : Type} (L : FileLayer σ)

abbrev DescriptorAction (σ : Type) := Action (Descriptors σ) Fault

def onLayer {α : Type} (x : Action σ Fault α) : DescriptorAction σ α :=
  zoom Descriptors.layer (fun s layer => { s with layer }) x

def sysOpen (name : CString) (granted : Bool) : DescriptorAction σ Int := do
  match ← onLayer (L.openFile name) with
  | none => return -1
  | some file => do
    require (granted = true) .wildAccess
    let s ← Action.get
    let descriptor := { fdNum := s.nextFd, owner := s.tid, file }
    Action.modify fun s =>
      { s with nextFd := incremented s.nextFd, openFiles := s.openFiles ++ [descriptor] }
    return s.nextFd

def removeDescriptor (index : Nat) : DescriptorAction σ Unit := do
  let s ← Action.get
  match s.openFiles[index]? with
  | none => stop .misuse
  | some descriptor => do
    Action.modify fun s => { s with openFiles := s.openFiles.eraseIdx index }
    onLayer (L.closeFile descriptor.file)

/-- The loop of `close_thread_files` from the element at `position` on, where the length of the
list stands for its tail.  It returns the files it closed, or nothing if it has not ended. -/
def closeLoop (tid : Nat) : Nat → Nat → DescriptorAction σ (Option (List Nat))
  | 0, _ => return none
  | _ + 1, 0 => return some []
  | fuel + 1, position + 1 => do
    -- `elem = list_prev (elem)` is the element at `position`, `temp` the one after it
    let s ← Action.get
    match s.openFiles[position]? with
    | none => stop .wildAccess
    | some descriptor =>
      if descriptor.owner = tid then do
        removeDescriptor L position
        -- `temp` has moved down to `position`
        let closed ← closeLoop tid fuel position
        return closed.map (descriptor.file :: ·)
      else closeLoop tid fuel (position + 1)

def closeThreadFiles (tid fuel : Nat) : DescriptorAction σ (Option (List Nat)) := do
  let s ← Action.get
  closeLoop L tid fuel s.openFiles.length

/-- The loop of `close_extra_files` whose next element is the one at `position`, where the length
of the list stands for its tail.  It returns the files it closed, or nothing if it has not
ended. -/
def closeExtraLoop (fdNum : Int) : Nat → Nat → DescriptorAction σ (Option (List Nat))
  | 0, _ => return none
  | fuel + 1, position => do
    let s ← Action.get
    match s.openFiles[position]? with
    | none => return some []
    | some descriptor =>
      if descriptor.fdNum = fdNum then do
        removeDescriptor L position
        return some [descriptor.file]
      -- `elem = temp` is the element before, so that `list_next` leads here again
      else closeExtraLoop fdNum fuel position

def closeExtraFiles (fdNum : Int) (fuel : Nat) : DescriptorAction σ (Option (List Nat)) :=
  closeExtraLoop L fdNum fuel 0

/-! ## The table -/

structure TableOk (s : Descriptors σ) : Prop where
  layer : L.Ok s.layer
  owners : ∀ d ∈ s.openFiles, d.owner = s.tid
  numbers : ∀ d ∈ s.openFiles, 2 ≤ d.fdNum ∧ d.fdNum < s.nextFd
  distinct : (s.openFiles.map (·.fdNum)).Nodup
  files : (s.openFiles.map (·.file)).Nodup
  live : ∀ d ∈ s.openFiles, L.Live s.layer d.file

variable {L} {s : Descriptors σ}

lemma wp_onLayer {α : Type} {x : Action σ Fault α} {P : α → σ → Prop} (h : wp x P s.layer) :
    wp (onLayer x) (fun a t => ∃ layer, t = { s with layer } ∧ P a layer) s := by
  rw [onLayer, wp_zoom]
  exact wp_mono h fun _ layer hp => ⟨layer, rfl, hp⟩

section

variable (h : TableOk L s)

include h

lemma TableOk.push {layer : σ} {file : Nat} (hok : L.Ok layer)
    (hlive : ∀ f, L.Live layer f ↔ L.Live s.layer f ∨ some file = some f)
    (hfresh : ¬ L.Live s.layer file) (h2 : 2 ≤ s.nextFd) :
    TableOk L ⟨layer, s.tid, s.nextFd + 1, s.openFiles ++ [⟨s.nextFd, s.tid, file⟩]⟩ := by
  constructor
  · exact hok
  · intro d hd
    rcases mem_append.mp hd with hold | hnew
    · exact h.owners d hold
    · rw [mem_singleton.mp hnew]
  · intro d hd
    rcases mem_append.mp hd with hold | hnew
    · have := h.numbers d hold
      change 2 ≤ d.fdNum ∧ d.fdNum < s.nextFd + 1
      omega
    rw [mem_singleton.mp hnew]
    change 2 ≤ s.nextFd ∧ s.nextFd < s.nextFd + 1
    omega
  · rw [map_append, nodup_append]
    refine ⟨h.distinct, by simp, ?_⟩
    -- every older number is below `next_fd`
    intro number hnum _ hlast
    obtain ⟨d, hd, rfl⟩ := mem_map.mp hnum
    have := (h.numbers d hd).2
    simp only [map_cons, map_nil, mem_singleton] at hlast
    omega
  · rw [map_append, nodup_append]
    refine ⟨h.files, by simp, ?_⟩
    intro f hf _ hlast
    obtain ⟨d, hd, rfl⟩ := mem_map.mp hf
    simp only [map_cons, map_nil, mem_singleton] at hlast
    intro heq
    exact hfresh (hlast ▸ heq ▸ h.live d hd)
  · intro d hd
    rw [hlive]
    rcases mem_append.mp hd with hold | hnew
    · exact .inl (h.live d hold)
    · exact .inr (by rw [mem_singleton.mp hnew])

lemma sysOpen_outcome (name : CString) (granted : Bool) (h2 : 2 ≤ s.nextFd)
    (hroom : s.nextFd + 1 < 2 ^ 31) : outcome (sysOpen L name granted)
      (fun _ t => TableOk L t ∧ t.tid = s.tid ∧ s.nextFd ≤ t.nextFd ∧ t.nextFd ≤ s.nextFd + 1)
      (fun _ => True) s := by
  simp only [sysOpen, outcome_bind]
  refine outcome_mono (outcome_of_wp (wp_onLayer (L.open_spec s.layer name h.layer))) ?_ fun _ => id
  rintro file _ ⟨layer, rfl, hok, hlive, hfresh⟩
  cases file with
  | none =>
    refine ⟨⟨hok, h.owners, h.numbers, h.distinct, h.files, fun d hd => ?_⟩, rfl, ?_, ?_⟩
    · exact (hlive _).mpr (.inl (h.live d hd))
    · exact le_refl _
    change s.nextFd ≤ s.nextFd + 1
    omega
  | some file =>
    simp only [outcome_bind, outcome_get, outcome_modify, outcome_pure]
    refine outcome_require (fun _ => ?_) fun _ => trivial
    rw [incremented_eq (by omega) hroom]
    exact ⟨h.push hok hlive (hfresh file rfl) h2, rfl, by omega, le_refl _⟩

lemma TableOk.eraseIdx {layer : σ} (hd : s.openFiles[index]? = some d)
    (hok : L.Ok layer) (hlive : ∀ f, L.Live layer f ↔ L.Live s.layer f ∧ f ≠ d.file) :
    TableOk L ⟨layer, s.tid, s.nextFd, s.openFiles.eraseIdx index⟩ := by
  have hsub := List.eraseIdx_sublist s.openFiles index
  refine ⟨hok, fun e he => h.owners e (hsub.mem he), fun e he => h.numbers e (hsub.mem he),
    h.distinct.sublist (hsub.map _), h.files.sublist (hsub.map _), fun e he => ?_⟩
  -- the files of the other elements are others
  refine (hlive e.file).mpr ⟨h.live e (hsub.mem he), fun heq => ?_⟩
  have hperm : s.openFiles.Perm (d :: s.openFiles.eraseIdx index) :=
    (getElem?_eq_some_iff.mp hd).elim fun hlt hget =>
      hget ▸ (List.getElem_cons_eraseIdx_perm hlt).symm
  have hnodup := (hperm.map (·.file)).nodup_iff.mp h.files
  rw [map_cons, nodup_cons] at hnodup
  exact hnodup.1 (heq ▸ mem_map_of_mem he)

lemma removeDescriptor_spec (hd : s.openFiles[index]? = some d) :
    wp (removeDescriptor L index) (fun _ t => TableOk L t ∧ ∃ layer,
        t = ⟨layer, s.tid, s.nextFd, s.openFiles.eraseIdx index⟩ ∧
        ∀ f, L.Live layer f ↔ L.Live s.layer f ∧ f ≠ d.file) s := by
  have hclose := L.close_spec s.layer d.file h.layer (h.live d (mem_of_getElem? hd))
  simp only [removeDescriptor, wp_bind, wp_get, hd, wp_modify]
  refine wp_mono (wp_onLayer hclose) ?_
  rintro _ _ ⟨layer, rfl, hok, hlive⟩
  exact ⟨h.eraseIdx hd hok hlive, layer, rfl, hlive⟩

end

lemma closeLoop_spec (fuel : Nat) {s : Descriptors σ} (h : TableOk L s)
    (hfuel : s.openFiles.length < fuel) : wp (closeLoop L s.tid fuel s.openFiles.length)
      (fun closed t => L.Ok t.layer ∧ closed = some (s.openFiles.map (·.file)).reverse ∧
        t.openFiles = [] ∧
        ∀ f, L.Live t.layer f ↔ L.Live s.layer f ∧ f ∉ s.openFiles.map (·.file)) s := by
  induction fuel generalizing s with
  | zero => omega
  | succ fuel ih =>
    rcases List.eq_nil_or_concat s.openFiles with hnil | ⟨others, last, hsplit⟩
    · simp [closeLoop, hnil, h.layer]
    have hlast : s.openFiles[others.length]? = some last := by simp [hsplit]
    have herase : s.openFiles.eraseIdx others.length = others := by
      simp [hsplit, List.eraseIdx_append_of_length_le]
    have hlen : s.openFiles.length = others.length + 1 := by simp [hsplit]
    have howner := h.owners last (mem_of_getElem? hlast)
    rw [hlen]
    simp only [closeLoop, wp_bind, wp_get, hlast, howner, if_true]
    refine wp_mono (removeDescriptor_spec h hlast) ?_
    rintro _ _ ⟨htab, layer, rfl, hlive⟩
    rw [herase] at htab ⊢
    refine wp_mono (ih htab (by simpa [hlen] using hfuel)) ?_
    rintro closed t ⟨hok, rfl, hempty, hrest⟩
    refine ⟨hok, by simp [hsplit], hempty, fun f => ?_⟩
    rw [hrest, hlive]
    simp only [hsplit, List.concat_eq_append, map_append, map_cons, map_nil,
      mem_append, mem_singleton]
    tauto

/-! ## Closing one descriptor -/

/-- What closing `fd` should do: its one element leaves the list and its file is closed once, and
without such an element nothing changes. -/
def ClosesOne (L : FileLayer σ) (fd : Int) (s : Descriptors σ) (closed : Option (List Nat))
    (t : Descriptors σ) : Prop :=
  (∃ before d after, s.openFiles = before ++ d :: after ∧ d.fdNum = fd ∧
    closed = some [d.file] ∧ t.openFiles = before ++ after ∧ t.tid = s.tid ∧
    t.nextFd = s.nextFd ∧ ∀ f, L.Live t.layer f ↔ L.Live s.layer f ∧ f ≠ d.file) ∨
  (∀ d ∈ s.openFiles, d.fdNum ≠ fd) ∧ closed = some [] ∧ t = s

lemma closeExtraLoop_of_ne (hfiles : s.openFiles = d :: rest) (hne : d.fdNum ≠ fd) (fuel : Nat) :
    closeExtraLoop L fd fuel 0 s = .ok (none, s) := by
  induction fuel with
  | zero => rfl
  | succ fuel ih =>
    apply eq_ok_of_wp
    simp only [closeExtraLoop, wp_bind, wp_get, hfiles, List.getElem?_cons_zero,
      if_neg hne, wp_of_ok ih, and_self]

lemma closeExtraLoop_of_eq (hok : L.Ok s.layer)
    (hlive : L.Live s.layer d.file) (hfiles : s.openFiles = d :: rest) (heq : d.fdNum = fd)
    (fuel : Nat) : wp (closeExtraLoop L fd (fuel + 1) 0) (ClosesOne L fd s) s := by
  have hfirst : s.openFiles[0]? = some d := by rw [hfiles, List.getElem?_cons_zero]
  have hclose := L.close_spec s.layer d.file hok hlive
  simp only [closeExtraLoop, removeDescriptor, wp_bind, wp_get, hfirst, if_pos heq, wp_modify]
  refine wp_mono (wp_onLayer hclose) ?_
  rintro _ _ ⟨layer, rfl, -, hrest⟩
  left
  exact ⟨[], d, rest, hfiles, heq, rfl, by rw [hfiles]; rfl, rfl, rfl, hrest⟩

/-- `close_extra_files` ends and does its work exactly for an empty list and for the first
descriptor of the list. -/
theorem closeExtraFiles_iff {fd : Int} (hok : L.Ok s.layer)
    (hlive : ∀ d ∈ s.openFiles, L.Live s.layer d.file) :
    (∃ fuel, wp (closeExtraFiles L fd fuel) (ClosesOne L fd s) s) ↔
      ∀ d ∈ s.openFiles.head?, d.fdNum = fd := by
  cases hfiles : s.openFiles with
  | nil =>
    simp only [List.head?_nil, Option.not_mem_none, false_implies, implies_true, iff_true]
    refine ⟨1, ?_⟩
    simp only [closeExtraFiles, closeExtraLoop, wp_bind, wp_get, hfiles, List.getElem?_nil]
    exact .inr ⟨by simp [hfiles], rfl, rfl⟩
  | cons d rest =>
    simp only [List.head?_cons, Option.mem_some_iff, forall_eq']
    constructor
    · rintro ⟨fuel, hends⟩
      by_contra hne
      rw [closeExtraFiles, wp_of_ok (closeExtraLoop_of_ne hfiles hne fuel)] at hends
      rcases hends with ⟨_, _, _, -, -, hnone, -⟩ | ⟨-, hnone, -⟩ <;> cases hnone
    · intro heq
      exact ⟨1, closeExtraLoop_of_eq hok (hlive d (by simp [hfiles])) hfiles heq 0⟩

/-! ## Runs -/

inductive TableOp where
  | open (name : CString) (granted : Bool)
  | remove (index : Nat)

def runTableOp (L : FileLayer σ) : TableOp → DescriptorAction σ Unit
  | .open name granted => do
    let _ ← sysOpen L name granted
    return ()
  | .remove index => removeDescriptor L index

def TableOp.opens : List TableOp → Nat
  | [] => 0
  | .open _ _ :: ops => opens ops + 1
  | .remove _ :: ops => opens ops

structure NewThread (L : FileLayer σ) (s : Descriptors σ) : Prop where
  layer : L.Ok s.layer
  nextFd : s.nextFd = 2
  openFiles : s.openFiles = []

lemma NewThread.tableOk (h : NewThread L s) : TableOk L s := by
  refine ⟨h.layer, ?_, ?_, ?_, ?_, ?_⟩ <;> simp [h.openFiles]

lemma runTableOps_outcome (ops : List TableOp) {s : Descriptors σ}
    (h : TableOk L s) (h2 : 2 ≤ s.nextFd) (hroom : s.nextFd + TableOp.opens ops < 2 ^ 31) : outcome
    (runAll (runTableOp L) ops) (fun _ t => TableOk L t ∧ t.tid = s.tid) (fun _ => True) s := by
  induction ops generalizing s with
  | nil => exact ⟨h, rfl⟩
  | cons op ops ih =>
    simp only [runAll, outcome_bind, outcome_pure]
    cases op with
    | «open» name granted =>
      simp only [TableOp.opens] at hroom
      simp only [runTableOp, outcome_bind, outcome_pure]
      refine outcome_mono (sysOpen_outcome h name granted h2 (by push_cast at hroom; omega))
        ?_ fun _ => id
      rintro _ t ⟨ht, htid, hlow, hhigh⟩
      rw [← htid]
      exact ih ht (by omega) (by push_cast at hroom; omega)
    | remove index =>
      simp only [TableOp.opens] at hroom
      cases hd : s.openFiles[index]? with
      | none => simp [runTableOp, removeDescriptor, hd, outcome_bind]
      | some d =>
        refine outcome_mono (outcome_of_wp (removeDescriptor_spec h hd)) ?_ fun _ => id
        rintro _ _ ⟨ht, layer, rfl, -⟩
        exact ih ht h2 hroom

/-- Every descriptor is the thread's own, with a number and a file of its own. -/
theorem openFiles_of_run {s t : Descriptors σ} (h : NewThread L s) {ops : List TableOp}
    (hopens : TableOp.opens ops < 2 ^ 31 - 2) {results : List Unit}
    (hrun : runAll (runTableOp L) ops s = .ok (results, t)) :
    TableOk L t ∧ ∀ fuel, t.openFiles.length < fuel → wp (closeThreadFiles L t.tid fuel)
        (fun closed u => closed = some (t.openFiles.map (·.file)).reverse ∧ u.openFiles = [] ∧
          ∀ f, L.Live u.layer f ↔ L.Live t.layer f ∧ f ∉ t.openFiles.map (·.file)) t := by
  have houtcome := runTableOps_outcome ops h.tableOk (by rw [h.nextFd]) (by rw [h.nextFd]; omega)
  simp only [outcome, hrun] at houtcome
  refine ⟨houtcome.1, fun fuel hfuel => ?_⟩
  exact wp_mono (closeLoop_spec fuel houtcome.1 hfuel) fun _ _ hclosed => hclosed.2

end

/-! ## The file system as a layer -/

lemma fsLayer_open {s : Fs} (h : Sound s []) (name : CString) : wp (filesysOpen (some name))
      (fun file t => Sound t [] ∧ (∀ f, (∃ header pos, ClientHandle t f header pos) ↔
          (∃ header pos, ClientHandle s f header pos) ∨ file = some f) ∧
        ∀ f, file = some f → ¬ ∃ header pos, ClientHandle s f header pos) s := by
  refine wp_mono (filesysOpen_sound h name) ?_
  rintro file t ⟨ht, ⟨i, -, hopened⟩ | ⟨rfl, -, hsame, -⟩⟩
  · refine ⟨ht, fun f => ?_, fun f hf ⟨header, pos, hc⟩ => hopened.fresh f hf header pos hc⟩
    simp only [hopened.handles]
    constructor
    · rintro ⟨header, pos, hold | ⟨hnew, -, -⟩⟩
      · exact .inl ⟨header, pos, hold⟩
      · exact .inr hnew
    · rintro (⟨header, pos, hold⟩ | hnew)
      · exact ⟨header, pos, .inl hold⟩
      · exact ⟨_, 0, .inr ⟨hnew, rfl, rfl⟩⟩
  · refine ⟨ht, fun f => ?_, by simp⟩
    simp only [hsame _ _ _, reduceCtorEq, or_false]

/-- `filesys/` with the invariant of its states. -/
def fsLayer : FileLayer Fs where
  openFile name := filesysOpen (some name)
  closeFile file := fileClose (some file)
  Ok s := Sound s []
  Live s file := ∃ header pos, ClientHandle s file header pos
  open_spec _ name h := fsLayer_open h name
  close_spec s file h := by
    rintro ⟨header, pos, hc⟩
    refine wp_mono (fileClose_sound h hc) ?_
    rintro _ t ⟨ht, -, -, -, -, hhandles⟩
    refine ⟨ht, fun f => ?_⟩
    simp only [hhandles]
    constructor
    · rintro ⟨x, p, hold, hne⟩
      exact ⟨⟨x, p, hold⟩, hne⟩
    · rintro ⟨⟨x, p, hold⟩, hne⟩
      exact ⟨x, p, hold, hne⟩

section TwoOpens

attribute [local irreducible] wp outcome

lemma nameA_nonzero : ∀ c ∈ ([97] : List Byte), c ≠ 0 := by simp

def nameA : CString := ⟨[97], nameA_nonzero⟩

def oneFile : FsAction Bool := do
  filesysInit true
  filesysCreate (some nameA) 0

def blankDevice : Fs := .unstarted 8 (fun _ => 0) (fun _ => true) fun _ _ => 0

lemma oneFile_sound : outcome oneFile (fun _ fs => Sound fs []) (fun _ => True)
    blankDevice := by
  simp only [oneFile, outcome_bind, blankDevice]
  refine outcome_mono (filesysInit_outcome 8 (fun _ => 0) (fun _ => true) fun _ _ => 0)
    ?_ fun _ _ => trivial
  rintro _ fs ⟨hstarted, -, -⟩
  refine outcome_of_wp (wp_mono
    (filesysCreate_spec hstarted.sound nameA (le_refl 0) (by norm_num)) ?_)
  rintro _ t ⟨ht, -⟩
  exact ht

lemma tableOk_of_calls {ops : List TableOp} {P : Descriptors Fs → Prop}
    (hopens : TableOp.opens ops < 2 ^ 31 - 2)
    (hrun : wp oneFile (fun _ fs => wp (runAll (runTableOp fsLayer) ops)
      (fun _ t => P t) ⟨fs, 3, 2, []⟩) blankDevice) :
    ∃ (fs : Fs) (t : Descriptors Fs) (results : List Unit), NewThread fsLayer ⟨fs, 3, 2, []⟩ ∧
      runAll (runTableOp fsLayer) ops ⟨fs, 3, 2, []⟩ = .ok (results, t) ∧ P t ∧
      TableOk fsLayer t := by
  obtain ⟨_, fs, hfile, hrun⟩ := wp_iff.mp hrun
  obtain ⟨results, t, hops, hp⟩ := wp_iff.mp hrun
  have hsound : Sound fs [] := by
    have := oneFile_sound
    rw [outcome, hfile] at this
    exact this
  have hnew : NewThread fsLayer ⟨fs, 3, 2, []⟩ := ⟨hsound, rfl, rfl⟩
  have houtcome := runTableOps_outcome ops hnew.tableOk (by rw [hnew.nextFd])
    (by rw [hnew.nextFd]; omega)
  rw [outcome, hops] at houtcome
  exact ⟨fs, t, results, hnew, hops, hp, houtcome.1⟩

def twoOpens : List TableOp := [.open nameA true, .open nameA true, .remove 0]

lemma twoOpens_runs : wp oneFile (fun _ fs => wp (runAll (runTableOp fsLayer) twoOpens)
      (fun _ t => t.openFiles.length = 1) ⟨fs, 3, 2, []⟩) blankDevice := by
  decide +kernel

theorem openFiles_of_twoOpens : ∃ (fs : Fs) (t : Descriptors Fs) (results : List Unit),
    NewThread fsLayer ⟨fs, 3, 2, []⟩ ∧
      runAll (runTableOp fsLayer) twoOpens ⟨fs, 3, 2, []⟩ = .ok (results, t) ∧
      t.openFiles.length = 1 ∧ TableOk fsLayer t := by
  obtain ⟨fs, t, results, hnew, hops, hlength, -⟩ := tableOk_of_calls (by decide) twoOpens_runs
  exact ⟨fs, t, results, hnew, hops, hlength, (openFiles_of_run hnew (by decide) hops).1⟩

def openTwice : List TableOp := [.open nameA true, .open nameA true]

lemma openTwice_runs : wp oneFile (fun _ fs => wp (runAll (runTableOp fsLayer) openTwice)
      (fun _ t => t.openFiles.map (·.fdNum) = [2, 3]) ⟨fs, 3, 2, []⟩) blankDevice := by
  decide +kernel

/-- The second of two descriptors is never closed. -/
theorem closeExtraFiles_second : ∃ (fs : Fs) (t : Descriptors Fs) (results : List Unit),
    runAll (runTableOp fsLayer) openTwice ⟨fs, 3, 2, []⟩ = .ok (results, t) ∧
      TableOk fsLayer t ∧ t.openFiles.map (·.fdNum) = [2, 3] ∧
      (∀ fuel, closeExtraFiles fsLayer 3 fuel t = .ok (none, t)) ∧
      ¬ ∃ fuel, wp (closeExtraFiles fsLayer 3 fuel) (ClosesOne fsLayer 3 t) t := by
  obtain ⟨fs, t, results, -, hops, hnumbers, htable⟩ := tableOk_of_calls (by decide) openTwice_runs
  obtain ⟨d, rest, hfiles, hd, -⟩ := List.map_eq_cons_iff.mp hnumbers
  have hloop : ∀ fuel, closeExtraLoop fsLayer 3 fuel 0 t = .ok (none, t) :=
    closeExtraLoop_of_ne hfiles (by omega)
  refine ⟨fs, t, results, hops, htable, hnumbers, hloop, ?_⟩
  rintro ⟨fuel, hends⟩
  rw [closeExtraFiles, wp_of_ok (hloop fuel)] at hends
  rcases hends with ⟨_, _, _, -, -, hnone, -⟩ | ⟨-, hnone, -⟩ <;> cases hnone

theorem closeExtraFiles_first : ∃ (fs : Fs) (t : Descriptors Fs) (results : List Unit),
    runAll (runTableOp fsLayer) openTwice ⟨fs, 3, 2, []⟩ = .ok (results, t) ∧
      ∃ fuel, wp (closeExtraFiles fsLayer 2 fuel) (ClosesOne fsLayer 2 t) t := by
  obtain ⟨fs, t, results, -, hops, hnumbers, htable⟩ := tableOk_of_calls (by decide) openTwice_runs
  refine ⟨fs, t, results, hops, (closeExtraFiles_iff htable.layer htable.live).mpr ?_⟩
  obtain ⟨d, rest, hfiles, hd, -⟩ := List.map_eq_cons_iff.mp hnumbers
  simpa [hfiles] using hd

end TwoOpens

end Pintos.Userprog
