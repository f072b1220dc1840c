import Pintos.Userprog.FilesysLock

/-!
# Exclusive use of the file system layer

The layer has no locking of its own.  System calls enter it with `filesys_lock`
held; `load`, `process_exit`, `load_page` and the `file_length` of `mmap` enter it
without.  The lock keeps the former apart; nothing keeps the latter apart from
them or from each other.
-/

namespace Pintos.Userprog.FilesysLock

open Foundation

structure Exclusive (s : State) : Prop where
  alone : ∀ (i j : Nat) (t u : Thread), s.threads[i]? = some t → s.threads[j]? = some u →
    t.inside = true → u.inside = true → i = j
  holds : ∀ (tid : Nat) (t : Thread), s.threads[tid]? = some t → t.inside = true →
    s.holder = some tid

/-! ## Paths that enter the layer with the lock only -/

/-- Neither `close_thread_files` nor the two calls on `exec` reach the layer. -/
def Exit.quiet (leaving : Exit) : Bool := leaving.files = 0 ∧ leaving.exec = false

def Call.lockedOnly : Call → Bool
  | .exit leaving => leaving.quiet
  | .read loaded _ _ => loaded = []
  | .mmap found _ _ => !found
  | .munmap _ crash => crash.all Exit.quiet
  | _ => true

def Fault.lockedOnly : Fault → Bool
  | .exits leaving => leaving.quiet
  | .kills loads leaving => !loads && leaving.quiet
  | .panics loads => !loads

/-- No program is loaded, no process exits with a file or an executable, no page of a file is
loaded and no file is mapped. -/
def Event.lockedOnly : Event → Bool
  | .call _ _ made => made.lockedOnly
  | .spawn .. => false
  | .step _ => true
  | .fault _ taken => taken.lockedOnly

inductive Place where
  | out
  | held
  | inside
  deriving DecidableEq, Repr

-- A thread that faults in the layer exits, or halts the machine, with the lock held.
def layerNext : Place → Instr → Option Place
  | .out, .acquire => some .held
  | .held, .release => some .out
  | .held, .enter => some .inside
  | .inside, .leave => some .held
  | place, .touch _ => some place
  | .out, .map _ _ | .out, .die | .held, .die | .out, .panic | .held, .panic => some .out
  | _, _ => none

lemma layerDiscipline : Discipline layerNext .out .held where
  acquire := rfl
  release := rfl
  callHeld := ⟨.inside, rfl, rfl⟩
  touch := by rintro (_ | _ | _) access <;> rfl
  map := fun _ _ => rfl
  die := rfl
  panic := rfl

lemma exitPath_quiet {leaving : Exit} (h : leaving.quiet = true) : exitPath leaving = [.die] := by
  obtain ⟨hfiles, hexec⟩ : leaving.files = 0 ∧ leaving.exec = false := by simpa [Exit.quiet] using h
  simp [exitPath, hfiles, hexec]

lemma Call.run_lockedOnly {call : Call} (h : call.lockedOnly = true) :
    run layerNext .out call.path = some .out := by
  have hcall := layerDiscipline.run_fsCall_held
  cases call with
  | exit leaving =>
    rw [Call.path, exitPath_quiet h]
    rfl
  | create touched | remove touched | «open» touched =>
    exact layerDiscipline.run_locked (hcall touched)
  | exec found =>
    refine layerDiscipline.run_locked ?_
    cases found <;> simp [run_append, hcall]
  | filesize found | seek found | tell found | close found =>
    refine layerDiscipline.run_locked ?_
    cases found <;> simp [run, hcall]
  | read loaded target touched =>
    obtain rfl : loaded = [] := by simpa [Call.lockedOnly] using h
    exact layerDiscipline.run_locked (layerDiscipline.run_transfer _ _)
  | write target touched => exact layerDiscipline.run_locked (layerDiscipline.run_transfer _ _)
  | mmap found accepted crash =>
    obtain rfl : found = false := by simpa [Call.lockedOnly] using h
    rfl
  | munmap dirty crash =>
    cases crash with
    | some leaving =>
      rw [Call.path, exitPath_quiet h]
      rfl
    | none =>
      refine Discipline.run_append_out (Discipline.run_flatMap _ _ fun touched => ?_)
        (layerDiscipline.run_locked (hcall []))
      refine layerDiscipline.run_locked ?_
      simp [run_append, hcall]

lemma Fault.path_lockedOnly {fault : Fault} (h : fault.lockedOnly = true) :
    fault.path = [.die] ∨ fault.path = [.panic] := by
  cases fault with
  | exits leaving => exact .inl (exitPath_quiet h)
  | kills loads leaving =>
    obtain ⟨rfl, hquiet⟩ : loads = false ∧ leaving.quiet = true := by
      simpa [Fault.lockedOnly] using h
    exact .inl (exitPath_quiet hquiet)
  | panics loads =>
    obtain rfl : loads = false := by simpa [Fault.lockedOnly] using h
    exact .inr rfl

/-! ## Every step -/

def placeOf (s : State) (tid : Nat) (t : Thread) : Place :=
  if t.inside then .inside else if s.holder = some tid then .held else .out

/-- What holds of a thread: it is inside with the lock only, and goes on only where it may. -/
structure Follows (s : State) (tid : Nat) (t : Thread) : Prop where
  holds : t.inside = true → s.holder = some tid
  path : s.halted = false → t.path ≠ [] ∨ t.alive = true →
    run layerNext (placeOf s tid t) t.path = some .out

def Layered (s : State) : Prop :=
  ∀ (tid : Nat) (t : Thread), s.threads[tid]? = some t → Follows s tid t

section

variable {s s' : State} {tid : Nat} {t t' : Thread}

lemma Layered.set (h : Layered s) (hthreads : s'.threads = s.threads.set tid t')
    (hothers : ∀ other, other ≠ tid → (s'.holder = some other ↔ s.holder = some other))
    (hhalted : s'.halted = false → s.halted = false) (hfollows : Follows s' tid t') :
    Layered s' := by
  intro i u hu
  rcases lookup_set (hthreads ▸ hu) with ⟨rfl, rfl⟩ | ⟨hne, hold⟩
  · exact hfollows
  obtain ⟨hholds, hpath⟩ := h i u hold
  have hplace : placeOf s' i u = placeOf s i u := by simp only [placeOf, hothers i hne]
  refine ⟨fun hin => (hothers i hne).mpr (hholds hin), fun hrun hu => ?_⟩
  rw [hplace]
  exact hpath (hhalted hrun) hu

lemma Layered.follow (h : Layered s) {place : Place} (hthreads : s'.threads = s.threads.set tid t')
    (hothers : ∀ other, other ≠ tid → (s'.holder = some other ↔ s.holder = some other))
    (hhalted : s'.halted = s.halted) (hplace : placeOf s' tid t' = place)
    (hholds : t'.inside = true → s'.holder = some tid)
    (hrun : run layerNext place t'.path = some .out) : Layered s' :=
  h.set hthreads hothers (fun hrunning => hhalted ▸ hrunning) ⟨hholds, fun _ _ => hplace ▸ hrun⟩

lemma placeOf_eq_out : placeOf s tid t = .out ↔ t.inside = false ∧ s.holder ≠ some tid := by
  unfold placeOf
  split_ifs <;> simp_all

lemma placeOf_eq_held : placeOf s tid t = .held ↔ t.inside = false ∧ s.holder = some tid := by
  unfold placeOf
  split_ifs <;> simp_all

lemma exec_layered (h : Layered s) (hlook : s.threads[tid]? = some t) {instr : Instr}
    {rest : List Instr} (hpath : t.path = instr :: rest) (hrunning : s.halted = false)
    (hexec : exec s tid t rest instr = some s') : Layered s' := by
  obtain ⟨hholds, hrun⟩ := h tid t hlook
  have hrun := hrun hrunning (.inl (by simp [hpath]))
  rw [hpath] at hrun
  obtain ⟨place', hnext, hrest⟩ := Option.bind_eq_some_iff.mp hrun
  generalize hplace : placeOf s tid t = place at hnext
  cases instr with
  | acquire =>
    obtain ⟨hfree, ⟨⟩⟩ := Option.ite_none_right_eq_some.mp hexec
    cases place <;> cases hnext
    have hout := (placeOf_eq_out.mp hplace).1
    refine h.follow rfl (fun other hne => ?_) rfl (placeOf_eq_held.mpr ⟨hout, rfl⟩) (fun _ => rfl)
      hrest
    simp [hfree, Ne.symm hne]
  | release =>
    cases hexec
    cases place <;> cases hnext
    obtain ⟨hout, hheld⟩ := placeOf_eq_held.mp hplace
    refine h.follow rfl (fun other hne => ?_) rfl (placeOf_eq_out.mpr ⟨hout, nofun⟩)
      (by simp [hout]) hrest
    simp [hheld, Ne.symm hne]
  | enter =>
    cases hexec
    cases place <;> cases hnext
    exact h.follow rfl (fun _ _ => Iff.rfl) rfl rfl (fun _ => (placeOf_eq_held.mp hplace).2) hrest
  | leave =>
    cases hexec
    cases place <;> cases hnext
    have hin : t.inside = true := by
      by_contra hout
      by_cases hheld : s.holder = some tid <;> simp [placeOf, hout, hheld] at hplace
    exact h.follow rfl (fun _ _ => Iff.rfl) rfl (placeOf_eq_held.mpr ⟨rfl, hholds hin⟩) nofun hrest
  | touch access =>
    obtain ⟨-, ⟨⟩⟩ := Option.ite_none_right_eq_some.mp hexec
    cases (layerDiscipline.touch _ access).symm.trans hnext
    exact h.follow rfl (fun _ _ => Iff.rfl) rfl hplace hholds hrest
  | map page writable =>
    cases hexec
    cases place <;> cases hnext
    exact h.follow rfl (fun _ _ => Iff.rfl) rfl hplace hholds hrest
  | die =>
    cases hexec
    exact h.set rfl (fun _ _ => Iff.rfl) id ⟨hholds, fun _ hlive => by simp at hlive⟩
  | panic =>
    cases hexec
    exact h.set rfl (fun _ _ => Iff.rfl) (fun _ => hrunning) ⟨hholds, fun hlive => by cases hlive⟩

lemma step_layered {event : Event} (h : Layered s) (hok : event.lockedOnly = true)
    (hstep : step s event = some s') : Layered s' := by
  have hrunning : s.halted = false := by
    simp only [step, Option.ite_none_left_eq_some] at hstep
    simpa using hstep.1
  have hidle : ∀ {tid : Nat} {t : Thread}, s.threads[tid]? = some t → t.path = [] →
      t.alive = true → placeOf s tid t = .out := fun {tid t} hlook hpath halive => by
    simpa [hpath, run] using (h tid t hlook).path hrunning (.inr halive)
  cases moved_of_step hstep with
  | call hlook halive hpath =>
    have hout := hidle hlook hpath halive
    refine h.follow rfl (fun _ _ => Iff.rfl) rfl hout (h _ _ hlook).holds ?_
    exact Discipline.run_append_out (layerDiscipline.run_touches _ _) (Call.run_lockedOnly hok)
  | spawn => cases hok
  | exec hlook hpath hexec => exact exec_layered h hlook hpath hrunning hexec
  | fault hlook halive hpath =>
    have hout := hidle hlook hpath halive
    refine h.follow rfl (fun _ _ => Iff.rfl) rfl hout (h _ _ hlook).holds ?_
    rcases Fault.path_lockedOnly hok with heq | heq <;> rw [heq] <;> rfl
  | @touchFault tid t _ _ _ hlook hpath hdenied =>
    refine h.follow rfl (fun _ _ => Iff.rfl) rfl rfl (fun hin => by cases hin) ?_
    rcases Fault.path_lockedOnly hok with heq | heq <;> rw [heq] <;>
      by_cases hheld : s.holder = some tid <;> simp [placeOf, State.setThread, hheld,
        run, layerNext]

end

lemma Idle.layered {s : State} (h : Idle s) : Layered s := by
  intro tid t hlook
  obtain ⟨hout, hpath⟩ := h.threads t (List.mem_of_getElem? hlook)
  refine ⟨by simp [hout], fun _ _ => ?_⟩
  rw [hpath, placeOf_eq_out.mpr ⟨hout, by simp [h.free]⟩]
  rfl

lemma Layered.exclusive {s : State} (h : Layered s) : Exclusive s where
  alone i j t u ht hu hin hjn :=
    Option.some.inj (((h i t ht).holds hin).symm.trans ((h j u hu).holds hjn))
  holds tid t ht := (h tid t ht).holds

def twoProcesses : State := ⟨none, List.replicate 2 ⟨true, false, [], [(1, false)]⟩, false⟩

lemma twoProcesses_idle : Idle twoProcesses := ⟨rfl, by simp [twoProcesses, Thread.idle]⟩

/-- One process is in `filesys_create`, the other in `sys_open` waits for the lock, then goes in. -/
def createThenOpen : List Event :=
  .call 0 [] (.create [⟨1, false⟩]) :: .call 1 [] (.open [⟨1, false⟩]) ::
    List.replicate 5 (.step 0) ++ List.replicate 2 (.step 1)

end Pintos.Userprog.FilesysLock
