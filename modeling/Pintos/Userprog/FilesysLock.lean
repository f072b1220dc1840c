import Pintos.Foundation.Transition

/-!
# The file system lock

Every path through the kernel that concerns `filesys_lock` or the file system
layer, as the list of steps it takes: system calls, the start of a child, page
faults and process exit.  What a path meets on its way (which files exist, how
many are open, which user pages are touched) comes with the event that starts
it.  A user byte that file system code touches may be unmapped; the thread then
leaves its path for `page_fault`.
-/

namespace Pintos.Userprog.FilesysLock

open Foundation

structure Touch where
  page : Nat
  store : Bool
  deriving DecidableEq, Repr

inductive Instr where
  /-- `lock_acquire (&filesys_lock)` -/
  | acquire
  | release
  /-- A call into the file system layer, and its return. -/
  | enter
  | leave
  | touch (access : Touch)
  /-- `pagedir_set_page` for the current process. -/
  | map (page : Nat) (writable : Bool)
  /-- The end of `thread_exit`: off `all_list` and dying. -/
  | die
  | panic
  deriving DecidableEq, Repr

/-! ## Paths through the kernel -/

def fsCall (touched : List Touch) : List Instr := .enter :: touched.map .touch ++ [.leave]

def locked (body : List Instr) : List Instr := .acquire :: body ++ [.release]

/-- What `process_exit` finds: the number of open descriptors, and whether `exec` is set. -/
structure Exit where
  files : Nat
  exec : Bool
  deriving DecidableEq, Repr

/-- `thread_exit` with `process_exit`; `close_thread_files` and the two calls on `exec` do not
take the lock. -/
def exitPath (leaving : Exit) : List Instr :=
  (List.replicate leaving.files (fsCall [])).flatten ++
    (if leaving.exec then fsCall [] ++ fsCall [] else []) ++ [.die]

/-- `load_page` for a page of a file: `file_seek`, `file_read` and `pagedir_set_page`. -/
def loadPage (page : Nat) (writable : Bool) : List Instr :=
  fsCall [] ++ fsCall [] ++ [.map page writable]

inductive Target where
  | console
  | file
  /-- The other console stream, or no such descriptor. -/
  | none
  deriving DecidableEq, Repr

def transfer (touched : List Touch) : Target → List Instr
  | .console => touched.map .touch
  | .file => fsCall touched
  | .none => []

/-- A system call after the dispatcher's loads and checks.  `found` tells whether the descriptor
or the file exists, `crash` that the uninitialised `mmfiles` table was used. -/
inductive Call where
  | exit (leaving : Exit)
  | create (touched : List Touch)
  | remove (touched : List Touch)
  | open (touched : List Touch)
  | exec (found : Bool)
  | filesize (found : Bool)
  | read (loaded : List (Nat × Bool)) (target : Target) (touched : List Touch)
  | write (target : Target) (touched : List Touch)
  | seek (found : Bool)
  | tell (found : Bool)
  | close (found : Bool)
  | mmap (found accepted : Bool) (crash : Option Exit)
  | munmap (dirty : List (List Touch)) (crash : Option Exit)
  deriving Repr

def crashPath : Option Exit → List Instr
  | some leaving => exitPath leaving
  | none => []

def Call.path : Call → List Instr
  | .exit leaving => exitPath leaving
  | .create touched => locked (fsCall touched)
  | .remove touched => locked (fsCall touched)
  | .open touched => locked (fsCall touched)
  -- `filesys_open` of the kernel's copy of the name, and `file_close` if that worked
  | .exec found => locked (fsCall [] ++ if found then fsCall [] else [])
  | .filesize found => locked (if found then fsCall [] else [])
  | .read loaded target touched =>
    loaded.flatMap (fun page => loadPage page.1 page.2) ++ locked (transfer touched target)
  | .write target touched => locked (transfer touched target)
  | .seek found => locked (if found then fsCall [] else [])
  | .tell found => locked (if found then fsCall [] else [])
  | .close found => locked (if found then fsCall [] else [])
  -- `file_length` is called before the lock is taken
  | .mmap found accepted crash =>
    if found then
      fsCall [] ++ if accepted then locked (fsCall []) ++ crashPath crash else []
    else []
  | .munmap dirty crash =>
    match crash with
    | some leaving => exitPath leaving
    | none => dirty.flatMap (fun touched => locked (fsCall [] ++ fsCall touched)) ++
        locked (fsCall [])

/-- The start of a child: `load` opens the file, makes `calls` further calls on it, and ends with
`file_deny_write` or `file_close`. -/
structure Load where
  calls : Nat
  pages : List (Nat × Bool)
  failed : Option Exit
  deriving DecidableEq, Repr

def Load.path (load : Load) : List Instr :=
  (List.replicate (load.calls + 2) (fsCall [])).flatten ++
    load.pages.map (fun page => .map page.1 page.2) ++ crashPath load.failed

/-- Where `page_fault` leads: to `exit (-1)`, or through `load_page` or `grow_stack` to `kill`,
which ends a user process and halts the machine in kernel mode. -/
inductive Fault where
  | exits (leaving : Exit)
  | kills (loads : Bool) (leaving : Exit)
  | panics (loads : Bool)
  deriving DecidableEq, Repr

def resolve (loads : Bool) : List Instr := if loads then fsCall [] ++ fsCall [] else []

def Fault.path : Fault → List Instr
  | .exits leaving => exitPath leaving
  | .kills loads leaving => resolve loads ++ exitPath leaving
  | .panics loads => resolve loads ++ [.panic]

/-! ## Threads -/

structure Thread where
  alive : Bool
  inside : Bool
  path : List Instr
  /-- The mapped pages and whether they are writable, the latest first. -/
  pages : List (Nat × Bool)
  deriving DecidableEq, Repr

def Thread.idle (t : Thread) : Prop := t.inside = false ∧ t.path = []

def Thread.accessible (t : Thread) (access : Touch) : Bool :=
  match t.pages.find? (·.1 = access.page) with
  | some page => page.2 || !access.store
  | none => false

structure State where
  holder : Option Nat
  threads : List Thread
  halted : Bool
  deriving DecidableEq, Repr

namespace State

def setThread (s : State) (tid : Nat) (t : Thread) : State :=
  { s with threads := s.threads.set tid t }

end State

inductive Event where
  /-- A live thread in user mode makes a system call; the dispatcher loads `args`. -/
  | call (tid : Nat) (args : List Touch) (call : Call)
  /-- `process_execute` creates a thread. -/
  | spawn (parent : Nat) (load : Load)
  | step (tid : Nat)
  | fault (tid : Nat) (fault : Fault)
  deriving Repr

def exec (s : State) (tid : Nat) (t : Thread) (rest : List Instr) : Instr → Option State
  | .acquire =>
    if s.holder = none then
      some { s.setThread tid { t with path := rest } with holder := some tid }
    else none
  | .release => some { s.setThread tid { t with path := rest } with holder := none }
  | .enter => some (s.setThread tid { t with path := rest, inside := true })
  | .leave => some (s.setThread tid { t with path := rest, inside := false })
  | .touch access =>
    if t.accessible access then some (s.setThread tid { t with path := rest }) else none
  | .map page writable =>
    some (s.setThread tid { t with path := rest, pages := (page, writable) :: t.pages })
  | .die => some (s.setThread tid { t with path := [], alive := false })
  | .panic => some { s.setThread tid { t with path := rest } with halted := true }

/-- Whether `page_fault` can take this way: only a fault in user mode can be survived by the
machine after `kill`, and only one in kernel mode halts it. -/
def Fault.possible (userMode : Bool) : Fault → Bool
  | .exits _ => true
  | .kills _ _ => userMode
  | .panics _ => !userMode

def takeFault (s : State) (tid : Nat) (t : Thread) (fault : Fault) : Option State :=
  match t.path with
  | [] => if t.alive ∧ fault.possible true then
      some (s.setThread tid { t with path := fault.path })
    else none
  | .touch access :: _ =>
    if t.accessible access = false ∧ fault.possible false then
      some (s.setThread tid { t with path := fault.path, inside := false })
    else none
  | _ => none

def step (s : State) (event : Event) : Option State :=
  if s.halted then none
  else
    match event with
    | .call tid args call =>
      match s.threads[tid]? with
      | some t =>
        if t.alive ∧ t.path = [] then
          some (s.setThread tid { t with path := args.map .touch ++ call.path })
        else none
      | none => none
    | .spawn parent load =>
      match s.threads[parent]? with
      | some t =>
        if t.alive then
          some { s with threads := s.threads ++ [⟨true, false, load.path, []⟩] }
        else none
      | none => none
    | .step tid =>
      match s.threads[tid]? with
      | some t =>
        match t.path with
        | [] => none
        | instr :: rest => exec s tid t rest instr
      | none => none
    | .fault tid fault =>
      match s.threads[tid]? with
      | some t => takeFault s tid t fault
      | none => none

structure Idle (s : State) : Prop where
  free : s.holder = none
  threads : ∀ t ∈ s.threads, t.idle

/-! ## Well-behaved paths

A discipline follows a path with a state of its own and rejects what it forbids.
Every path of the kernel, entered outside the lock and the layer, ends there if
the discipline lets threads call the layer without the lock. -/

structure Discipline {σ : Type} (next : σ → Instr → Option σ) (out held : σ) : Prop where
  acquire : next out .acquire = some held
  release : next held .release = some out
  callHeld : ∃ inside, next held .enter = some inside ∧ next inside .leave = some held
  touch : ∀ s access, next s (.touch access) = some s
  map : ∀ page writable, next out (.map page writable) = some out
  die : next out .die = some out
  panic : next out .panic = some out

structure LenientDiscipline {σ : Type} (next : σ → Instr → Option σ) (out held : σ) : Prop
    extends Discipline next out held where
  callOut : ∃ inside, next out .enter = some inside ∧ next inside .leave = some out

namespace Discipline

variable {σ : Type} {next : σ → Instr → Option σ} {out held s : σ}

lemma run_append_out {first second : List Instr} (hfirst : run next s first = some out)
    (hsecond : run next out second = some out) : run next s (first ++ second) = some out := by
  rw [run_append, hfirst]
  exact hsecond

lemma run_flatMap {α : Type} (f : α → List Instr) (items : List α)
    (h : ∀ item, run next out (f item) = some out) : run next out (items.flatMap f) = some out := by
  induction items with
  | nil => rfl
  | cons item items ih =>
    rw [List.flatMap_cons]
    exact run_append_out (h item) ih

variable (h : Discipline next out held)

include h

lemma run_touches (s : σ) (touched : List Touch) : run next s (touched.map .touch) = some s := by
  induction touched with
  | nil => rfl
  | cons access touched ih => simpa [run, h.touch] using ih

lemma run_call (touched : List Touch)
    (hcall : ∃ inside, next s .enter = some inside ∧ next inside .leave = some s) :
    run next s (fsCall touched) = some s := by
  obtain ⟨inside, henter, hleave⟩ := hcall
  simp [fsCall, run, henter, run_append, h.run_touches, hleave]

lemma run_fsCall_held (touched : List Touch) : run next held (fsCall touched) = some held :=
  h.run_call touched h.callHeld

lemma run_locked {body : List Instr} (hbody : run next held body = some held) :
    run next out (locked body) = some out := by
  simp [locked, run, h.acquire, run_append, hbody, h.release]

lemma run_transfer (touched : List Touch) (target : Target) :
    run next held (transfer touched target) = some held := by
  cases target with
  | console => exact h.run_touches held touched
  | file => exact h.run_fsCall_held touched
  | none => rfl

end Discipline

namespace LenientDiscipline

open Discipline

variable {σ : Type} {next : σ → Instr → Option σ} {out held : σ}
  (h : LenientDiscipline next out held)

include h

lemma run_fsCall (touched : List Touch) : run next out (fsCall touched) = some out :=
  h.run_call touched h.callOut

lemma run_fsCalls (n : Nat) : run next out (List.replicate n (fsCall [])).flatten = some out := by
  induction n with
  | zero => rfl
  | succ n ih =>
    rw [List.replicate_succ, List.flatten_cons]
    exact run_append_out (h.run_fsCall []) ih

lemma run_exitPath (leaving : Exit) : run next out (exitPath leaving) = some out := by
  have hcall := h.run_fsCall []
  cases hexec : leaving.exec <;>
    simp [exitPath, run_append, run, h.run_fsCalls, hexec, hcall, h.die]

lemma run_crashPath (crash : Option Exit) : run next out (crashPath crash) = some out := by
  cases crash with
  | none => rfl
  | some leaving => exact h.run_exitPath leaving

lemma run_path (call : Call) : run next out call.path = some out := by
  cases call with
  | exit leaving => exact h.run_exitPath leaving
  | create touched | remove touched | «open» touched =>
    exact h.run_locked (h.run_fsCall_held touched)
  | exec found =>
    refine h.run_locked ?_
    cases found <;> simp [run_append, h.run_fsCall_held]
  | filesize found | seek found | tell found | close found =>
    refine h.run_locked ?_
    cases found <;> simp [run, h.run_fsCall_held]
  | read loaded target touched =>
    refine run_append_out (run_flatMap _ _ fun page => ?_) (h.run_locked (h.run_transfer _ _))
    simp [loadPage, run_append, run, h.run_fsCall, h.map]
  | write target touched => exact h.run_locked (h.run_transfer _ _)
  | mmap found accepted crash =>
    have hlocked := h.run_locked (h.run_fsCall_held [])
    cases found <;> cases accepted <;>
      simp [Call.path, run_append, run, h.run_fsCall, hlocked, h.run_crashPath]
  | munmap dirty crash =>
    cases crash with
    | some leaving => exact h.run_exitPath leaving
    | none =>
      refine run_append_out (run_flatMap _ _ fun touched => ?_)
        (h.run_locked (h.run_fsCall_held []))
      refine h.run_locked ?_
      simp [run_append, h.run_fsCall_held]

lemma run_load (load : Load) : run next out load.path = some out := by
  have hpages : run next out (load.pages.map fun page => .map page.1 page.2) = some out := by
    induction load.pages with
    | nil => rfl
    | cons page pages ih => simpa [run, h.map] using ih
  exact run_append_out (run_append_out (h.run_fsCalls _) hpages) (h.run_crashPath _)

lemma run_resolve (loads : Bool) : run next out (resolve loads) = some out := by
  cases loads <;> simp [resolve, run, run_append, h.run_fsCall]

lemma run_fault (fault : Fault) : run next out fault.path = some out := by
  cases fault with
  | exits leaving => exact h.run_exitPath leaving
  | kills loads leaving => exact run_append_out (h.run_resolve loads) (h.run_exitPath leaving)
  | panics loads =>
    refine run_append_out (h.run_resolve loads) ?_
    simp [run, h.panic]

end LenientDiscipline

/-! ## The lock is released before the path ends -/

/-- Follow whether the lock is held: it is not acquired twice, and a thread that holds it neither
dies nor changes its mappings. -/
def lockNext (held : Bool) : Instr → Option Bool
  | .acquire => if held then none else some true
  | .release => if held then some false else none
  | .map _ _ | .die => if held then none else some held
  | _ => some held

lemma lockDiscipline : LenientDiscipline lockNext false true where
  acquire := rfl
  release := rfl
  callOut := ⟨false, rfl, rfl⟩
  callHeld := ⟨true, rfl, rfl⟩
  touch := fun _ _ => rfl
  map := fun _ _ => rfl
  die := rfl
  panic := rfl

def lockedTouches : List Instr → List Touch
  | [] => []
  | .release :: _ => []
  | .touch access :: path => access :: lockedTouches path
  | _ :: path => lockedTouches path

def openedTouches : List Instr → List Touch
  | .acquire :: path => lockedTouches path
  | _ => []

/-! ## The holder stays alive -/

structure Guarded (held : Bool) (t : Thread) : Prop where
  releases : run lockNext held t.path = some false
  running : t.path ≠ [] → t.alive = true
  holding : held = true → t.alive = true
  touches : held = true → ∀ access ∈ lockedTouches t.path, t.accessible access = true

lemma Guarded.free {t : Thread} (hreleases : run lockNext false t.path = some false)
    (hrun : t.path ≠ [] → t.alive = true) : Guarded false t :=
  ⟨hreleases, hrun, by simp, by simp⟩

structure Held (s : State) : Prop where
  present : ∀ tid, s.holder = some tid → tid < s.threads.length
  guarded : ∀ tid t, s.threads[tid]? = some t → Guarded (decide (s.holder = some tid)) t

/-- The accesses of the critical section that starts here are to mapped pages, the stores to
writable ones. -/
def LocksMapped (s : State) : Event → Prop
  | .step tid => ∀ t ∈ s.threads[tid]?, ∀ access ∈ openedTouches t.path, t.accessible access = true
  | _ => True

instance (s : State) (event : Event) : Decidable (LocksMapped s event) := by
  unfold LocksMapped
  split <;> infer_instance

lemma lookup_set {threads : List Thread} {tid i : Nat} {t u : Thread}
    (hu : (threads.set tid t)[i]? = some u) : i = tid ∧ u = t ∨ i ≠ tid ∧ threads[i]? = some u := by
  rw [List.getElem?_set] at hu
  split at hu
  · rename_i heq
    simp only [Option.ite_none_right_eq_some, Option.some.injEq] at hu
    exact .inl ⟨heq.symm, hu.2.symm⟩
  · rename_i hne
    exact .inr ⟨Ne.symm hne, hu⟩

lemma lookup_append {threads : List Thread} {i : Nat} {t u : Thread}
    (hu : (threads ++ [t])[i]? = some u) : i = threads.length ∧ u = t ∨ threads[i]? = some u := by
  rcases Nat.lt_trichotomy i threads.length with hlt | rfl | hgt
  · exact .inr (by rwa [List.getElem?_append_left hlt] at hu)
  · exact .inl ⟨rfl, by simpa using hu.symm⟩
  · rw [List.getElem?_eq_none (by simp; omega)] at hu
    cases hu

/-- What a step has found. -/
inductive Moved (s : State) : Event → State → Prop
  | call {tid : Nat} {t : Thread} {args : List Touch} {call : Call}
    (hlook : s.threads[tid]? = some t)
      (halive : t.alive = true) (hpath : t.path = []) :
      Moved s (.call tid args call)
        (s.setThread tid { t with path := args.map .touch ++ call.path })
  | spawn {parent : Nat} {load : Load} : Moved s (.spawn parent load)
      { s with threads := s.threads ++ [⟨true, false, load.path, []⟩] }
  | exec {tid : Nat} {t : Thread} {instr : Instr} {rest : List Instr} {s' : State}
      (hlook : s.threads[tid]? = some t) (hpath : t.path = instr :: rest)
      (hexec : exec s tid t rest instr = some s') : Moved s (.step tid) s'
  | fault {tid : Nat} {t : Thread} {fault : Fault} (hlook : s.threads[tid]? = some t)
      (halive : t.alive = true) (hpath : t.path = []) :
      Moved s (.fault tid fault) (s.setThread tid { t with path := fault.path })
  | touchFault {tid : Nat} {t : Thread} {fault : Fault} {access : Touch} {rest : List Instr}
      (hlook : s.threads[tid]? = some t) (hpath : t.path = .touch access :: rest)
      (hdenied : t.accessible access = false) : Moved s (.fault tid fault)
      (s.setThread tid { t with path := fault.path, inside := false })

lemma moved_of_step {s s' : State} {event : Event} (hstep : step s event = some s') :
    Moved s event s' := by
  simp only [step, Option.ite_none_left_eq_some] at hstep
  obtain ⟨-, hstep⟩ := hstep
  cases event <;> simp only at hstep <;> split at hstep
  · next hlook =>
    obtain ⟨⟨halive, hpath⟩, ⟨⟩⟩ := Option.ite_none_right_eq_some.mp hstep
    exact .call hlook halive hpath
  · cases hstep
  · obtain ⟨-, ⟨⟩⟩ := Option.ite_none_right_eq_some.mp hstep
    exact .spawn
  · cases hstep
  · next hlook =>
    split at hstep
    · cases hstep
    · next hpath => exact .exec hlook hpath hstep
  · cases hstep
  · next hlook =>
    rw [takeFault] at hstep
    split at hstep
    · next hpath =>
      obtain ⟨⟨halive, -⟩, ⟨⟩⟩ := Option.ite_none_right_eq_some.mp hstep
      exact .fault hlook halive hpath
    · next hpath =>
      obtain ⟨⟨hdenied, -⟩, ⟨⟩⟩ := Option.ite_none_right_eq_some.mp hstep
      exact .touchFault hlook hpath hdenied
    · cases hstep
  · cases hstep

section

variable {s s' : State} {tid : Nat} {t t' : Thread}

lemma Held.set (h : Held s) (hlook : s.threads[tid]? = some t)
    (hthreads : s'.threads = s.threads.set tid t')
    (hothers : ∀ other, other ≠ tid → (s'.holder = some other ↔ s.holder = some other))
    (hguarded : Guarded (decide (s'.holder = some tid)) t') : Held s' := by
  have hlt : tid < s.threads.length := (List.getElem?_eq_some_iff.mp hlook).1
  constructor
  · intro other hholder
    rw [hthreads, List.length_set]
    by_cases heq : other = tid
    · exact heq ▸ hlt
    · exact h.present other ((hothers other heq).mp hholder)
  · intro other u hu
    rw [hthreads] at hu
    rcases lookup_set hu with ⟨rfl, rfl⟩ | ⟨hne, hold⟩
    · exact hguarded
    rw [decide_eq_decide.mpr (hothers other hne)]
    exact h.guarded other u hold

lemma Held.setFree (h : Held s) (hlook : s.threads[tid]? = some t)
    (hfree : s.holder ≠ some tid) (hreleases : run lockNext false t'.path = some false)
    (hrun : t'.path ≠ [] → t'.alive = true) : Held (s.setThread tid t') := by
  refine h.set hlook rfl (fun _ _ => Iff.rfl) ?_
  have hheld : decide ((s.setThread tid t').holder = some tid) = false := decide_eq_false hfree
  rw [hheld]
  exact .free hreleases hrun

lemma exec_held (h : Held s) (hlook : s.threads[tid]? = some t) {instr : Instr}
    {rest : List Instr} (hpath : t.path = instr :: rest)
    (hmapped : ∀ access ∈ openedTouches t.path, t.accessible access = true)
    (hexec : exec s tid t rest instr = some s') : Held s' := by
  obtain ⟨hreleases, hrun, hholding, htouches⟩ := h.guarded tid t hlook
  have halive : t.alive = true := hrun (by simp [hpath])
  rw [hpath] at hreleases htouches
  simp only [run] at hreleases
  cases instr with
  | acquire =>
    simp only [exec, Option.ite_none_right_eq_some, Option.some.injEq] at hexec
    obtain ⟨hfree, rfl⟩ := hexec
    refine h.set hlook rfl (fun other hne => ?_) ⟨?_, fun _ => halive, fun _ => halive, ?_⟩
    · simp [hfree, Ne.symm hne]
    · simpa [lockNext, hfree] using hreleases
    intro _
    rw [hpath] at hmapped
    exact hmapped
  | release =>
    simp only [exec, Option.some.injEq] at hexec
    subst hexec
    obtain ⟨hheld, hrest⟩ : s.holder = some tid ∧ run lockNext false rest = some false := by
      simpa [lockNext, Option.bind_eq_some_iff] using hreleases
    refine h.set hlook rfl (fun other hne => ?_) (.free hrest fun _ => halive)
    simp [hheld, Ne.symm hne]
  | enter | leave | panic =>
    simp only [exec, Option.some.injEq] at hexec
    subst hexec
    exact h.set hlook rfl (fun _ _ => Iff.rfl)
      ⟨hreleases, fun _ => halive, fun _ => halive, htouches⟩
  | touch access =>
    simp only [exec, Option.ite_none_right_eq_some, Option.some.injEq] at hexec
    obtain ⟨-, rfl⟩ := hexec
    exact h.set hlook rfl (fun _ _ => Iff.rfl) ⟨hreleases, fun _ => halive, fun _ => halive,
        fun hheld other hother => htouches hheld other (List.mem_cons_of_mem _ hother)⟩
  | map page writable =>
    simp only [exec, Option.some.injEq] at hexec
    subst hexec
    obtain ⟨hfree, hrest⟩ : s.holder ≠ some tid ∧ run lockNext false rest = some false := by
      cases hheld : decide (s.holder = some tid) <;> simp_all [lockNext]
    exact h.setFree hlook hfree hrest fun _ => halive
  | die =>
    simp only [exec, Option.some.injEq] at hexec
    subst hexec
    have hfree : s.holder ≠ some tid := by
      intro hheld
      simp [hheld, lockNext] at hreleases
    exact h.setFree hlook hfree rfl (by simp)

lemma step_held {event : Event} (h : Held s) (hmapped : LocksMapped s event)
    (hstep : step s event = some s') : Held s' := by
  have hidle : ∀ {tid t}, s.threads[tid]? = some t → t.path = [] → s.holder ≠ some tid :=
    fun {tid t} hlook hpath => by simpa [hpath, run] using (h.guarded tid t hlook).releases
  cases moved_of_step hstep with
  | call hlook halive hpath =>
    refine h.setFree hlook (hidle hlook hpath) ?_ fun _ => halive
    exact Discipline.run_append_out (lockDiscipline.run_touches _ _) (lockDiscipline.run_path _)
  | spawn =>
    constructor
    · intro tid hholder
      have := h.present tid hholder
      simp only [List.length_append, List.length_singleton]
      omega
    intro tid u hu
    rcases lookup_append hu with ⟨rfl, rfl⟩ | hold
    · -- the new thread's tid is not that of the holder
      have hfree : s.holder ≠ some s.threads.length := fun hholder =>
        absurd (h.present _ hholder) (lt_irrefl _)
      rw [decide_eq_false hfree]
      exact .free (lockDiscipline.run_load _) fun _ => rfl
    · exact h.guarded tid u hold
  | exec hlook hpath hexec => exact exec_held h hlook hpath (hmapped _ (by simp [hlook])) hexec
  | fault hlook halive hpath =>
    exact h.setFree hlook (hidle hlook hpath) (lockDiscipline.run_fault _) fun _ => halive
  | touchFault hlook hpath hdenied =>
    obtain ⟨-, hrun, -, htouches⟩ := h.guarded _ _ hlook
    -- with the lock held the page would have been accessible
    refine h.setFree hlook (fun hheld => ?_) (lockDiscipline.run_fault _) fun _ =>
      hrun (by simp [hpath])
    simp [hpath, lockedTouches, hheld, hdenied] at htouches

end

lemma Idle.held {s : State} (h : Idle s) : Held s := by
  constructor
  · simp [h.free]
  intro tid t hlook
  obtain ⟨-, hpath⟩ := h.threads t (List.mem_of_getElem? hlook)
  simp only [h.free]
  exact .free (by rw [hpath]; rfl) (by simp [hpath])

def HolderAlive (s : State) : Prop := ∀ tid ∈ s.holder, ∃ t ∈ s.threads[tid]?, t.alive = true

instance (s : State) : Decidable (HolderAlive s) :=
  inferInstanceAs (Decidable (∀ tid ∈ s.holder, ∃ t ∈ s.threads[tid]?, t.alive = true))

def oneProcess : State := ⟨none, [⟨true, false, [], [(1, false)]⟩], false⟩

lemma oneProcess_idle : Idle oneProcess := ⟨rfl, by simp [oneProcess, Thread.idle]⟩

/-- `create` of a name that runs from page 1 into page 2, up to the second load of it. -/
def createTo (last : Nat) : List Event :=
  .call 0 [⟨1, false⟩] (.create [⟨1, false⟩, ⟨last, false⟩]) :: List.replicate 4 (.step 0)

end Pintos.Userprog.FilesysLock
