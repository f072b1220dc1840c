import Pintos.Userprog.Locking

/-!
# The exit status a parent collects

`sys_exit` looks for the caller's record in the parent's list of children and
leaves the exit status there; `process_wait` reads it once the child is gone.
`process_execute` links the record only after `thread_create` has made the child
runnable, so a child that gets to the end of the list first leaves no status.
-/

namespace Pintos.Userprog

open Foundation Processes

variable {children : List ChildStatus} {index n other : Nat} {r r' : ChildStatus} {event : Event}
  {status : Int}

/-- The first `process_wait` that returned gave `status`, and all later ones -1. -/
def StatusOnce (status : Int) (waits : List Int) : Prop :=
  waits = [] ∨ ∃ n, waits = status :: List.replicate n (-1)

/-- The calls `process_wait (tid)` that have returned have collected the exit status. -/
def StatusCollected (s : Processes) (tid : Nat) : Prop :=
  ∀ status, (s.child tid).exit = some status → StatusOnce status (s.child tid).waits

def LinkedInTime (s : Processes) : Event → Prop
  | .child tid =>
    match (s.child tid).pc with
    | .scan _ index => index < s.children.length ∨ ∃ r ∈ s.children, r.childTid = tid
    | _ => True
  | _ => True

instance (s : Processes) (event : Event) : Decidable (LinkedInTime s event) := by
  unfold LinkedInTime
  split <;> [split; skip] <;> infer_instance

/-! ## The list of records -/

def Processes.tids (s : Processes) : List Nat := s.children.map (·.childTid)

/-- The list has one record for each child that has been created, but for the child the
parent is about to link. -/
structure Linked (s : Processes) : Prop where
  nodup : s.tids.Nodup
  linked : ∀ tid, tid ∈ s.tids ↔ (s.child tid).pc ≠ .unborn ∧ s.parent ≠ .link tid
  started : ∀ tid, s.parent = .link tid → (s.child tid).pc ≠ .unborn

variable {s t : Processes} {tid : Nat}

lemma map_childTid_set (hr : children[index]? = some r) (hsame : r'.childTid = r.childTid) :
    (children.set index r').map (·.childTid) = children.map (·.childTid) := by
  rw [List.map_set, hsame]
  apply List.ext_getElem?
  intro i
  grind

lemma findRecord_some (h : findRecord children tid n = some index) :
    ∃ r, children[index]? = some r ∧ r.childTid = tid := by
  induction n with
  | zero => simp [findRecord] at h
  | succ n ih =>
    rw [findRecord] at h
    split at h
    · next hany =>
        rw [Option.some.injEq] at h
        subst h
        cases hr : children[n]? with
        | none => simp [hr] at hany
        | some r => exact ⟨r, rfl, by simpa [hr] using hany⟩
    · exact ih h

lemma findRecord_none (h : findRecord children tid n = none) (hindex : index < n)
    (hr : children[index]? = some r) : r.childTid ≠ tid := by
  induction n with
  | zero => omega
  | succ n ih =>
    rw [findRecord] at h
    split at h
    · cases h
    · next hany =>
        rcases Nat.lt_succ_iff_lt_or_eq.mp hindex with hlt | heq
        · exact ih h hlt
        subst heq
        simpa [hr] using hany

lemma parentStep_records (ht : parentStep s s.parent = some t) : (∃ tid, s.parent = .link tid ∧
      t = (s.setRecords (s.children ++ [⟨tid, false, false, 0⟩])).parentTo (.lockLoad (some tid))) ∨
    (∃ tid index r, s.parent = .takeStatus tid index ∧ s.children[index]? = some r ∧
      t = (s.setRecords (s.children.set index { r with hasBeenWaited := true })).parentTo
        (.unlockDeath tid r.childExitStatus)) ∨
    (t.children = s.children ∧ (∀ tid, s.parent ≠ .link tid) ∧ ∀ tid, t.parent ≠ .link tid) := by
  cases hpc : s.parent with
  | relock loop => cases loop <;> grind [parentStep, Loop.test]
  | _ => grind [parentStep]

section

variable (ht : childStep s tid (s.child tid).pc = some t)

include ht

lemma childStep_records :
    (∃ status index r, (s.child tid).pc = .setExited status index ∧ s.children[index]? = some r ∧
      t = (s.setRecords (s.children.set index { r with exited := true })).childTo tid
        (.setStatus status index)) ∨ (∃ status index r, (s.child tid).pc = .setStatus status index ∧
      s.children[index]? = some r ∧
      t = (s.setRecords (s.children.set index { r with childExitStatus := status })).childTo tid
        (.unlockRecord status index)) ∨ t.children = s.children := by
  cases hpc : (s.child tid).pc <;> grind [childStep]

lemma childStep_tids : t.tids = s.tids := by
  rcases childStep_records ht with ⟨status, index, r, -, hr, rfl⟩ |
    ⟨status, index, r, -, hr, rfl⟩ | hsame
  · exact map_childTid_set hr rfl
  · exact map_childTid_set hr rfl
  · rw [tids, tids, hsame]

lemma childStep_born (other : Nat) :
    (t.child other).pc = .unborn ↔ (s.child other).pc = .unborn := by
  by_cases hsame : other = tid
  · subst hsame
    cases hpc : (s.child other).pc <;> grind [childStep]
  · rw [(childStep_others ht).2.2 other hsame]

end

lemma parentStep_linked (h : Linked s) (ht : parentStep s s.parent = some t) : Linked t := by
  have hpcs := fun tid => (parentStep_child ht tid).1
  have hlinked := h.linked
  rcases parentStep_records ht with ⟨tid, hpc, rfl⟩ | ⟨tid, index, r, hpc, hr, rfl⟩ |
    ⟨hsame, hbefore, hafter⟩
  · have htids : (((s.setRecords (s.children ++ [⟨tid, false, false, 0⟩])).parentTo
        (.lockLoad (some tid))).tids) = s.tids ++ [tid] := List.map_append
    have hstarted := h.started tid hpc
    constructor
    · rw [htids]
      refine List.nodup_append.mpr ⟨h.nodup, List.nodup_singleton tid, ?_⟩
      grind
    · rw [htids]
      grind
    · grind
  · have htids : ((s.setRecords (s.children.set index { r with hasBeenWaited := true })).parentTo
        (.unlockDeath tid r.childExitStatus)).tids = s.tids := map_childTid_set hr rfl
    exact ⟨htids ▸ h.nodup, by grind, by grind⟩
  · have htids : t.tids = s.tids := by rw [tids, tids, hsame]
    exact ⟨htids ▸ h.nodup, by grind, by grind⟩

lemma initial_linked : Linked .initial where
  nodup := List.nodup_nil
  linked tid := by simp [initial, tids]
  started tid h := absurd h (by simp [initial])

lemma step_linked (h : Linked s) (ht : step s event = some t) : Linked t := by
  have hlinked := h.linked
  have hstarted := h.started
  cases event with
  | parent => exact parentStep_linked h ht
  | child tid =>
    have htids := childStep_tids ht
    have hborn := childStep_born ht
    obtain ⟨hpar, -, -⟩ := childStep_others ht
    exact ⟨htids ▸ h.nodup, by grind, by grind⟩
  | _ =>
    have htids : t.tids = s.tids := by grind [step, tids]
    exact ⟨htids ▸ h.nodup, by grind [step], by grind [step]⟩

lemma Linked.index_unique (h : Linked s) {i j : Nat} (hi : s.children[i]? = some r)
    (hj : s.children[j]? = some r') (hsame : r.childTid = r'.childTid) : i = j := by
  have hlt : i < s.tids.length := by
    rw [tids, List.length_map]
    exact (List.getElem?_eq_some_iff.mp hi).1
  refine (List.getElem?_inj hlt h.nodup).mp ?_
  simp [tids, hi, hj, hsame]

/-! ## What `sys_exit` leaves -/

def HasStatus (s : Processes) (tid : Nat) (status : Int) : Prop :=
  ∃ (index : Nat) (r : ChildStatus), s.children[index]? = some r ∧ r.childTid = tid ∧
    r.exited = true ∧ r.childExitStatus = status

def Noted (s : Processes) (tid : Nat) : Prop :=
  match (s.child tid).pc with
  | .unborn | .load | .lockLoad _ | .storeLoad _ | .signalLoad _ | .unlockLoad _ | .user =>
    (s.child tid).exit = none
  | .scan status index => (s.child tid).exit = some status ∧ index ≤ s.children.length ∧
      ∀ j r, j < index → s.children[j]? = some r → r.childTid = tid →
        r.exited = true ∧ r.childExitStatus = status
  | .lockRecord status index | .setExited status index => (s.child tid).exit = some status ∧
      ∃ r, s.children[index]? = some r ∧ r.childTid = tid
  | .setStatus status index => (s.child tid).exit = some status ∧
      ∃ r, s.children[index]? = some r ∧ r.childTid = tid ∧ r.exited = true
  | .unlockRecord status index => (s.child tid).exit = some status ∧ ∃ r,
      s.children[index]? = some r ∧ r.childTid = tid ∧ r.exited = true ∧ r.childExitStatus = status
  | .lockExit | .testLoad | .signalExit | .unlockExit | .remove | .dead =>
    ∀ status, (s.child tid).exit = some status → HasStatus s tid status

/-- The later list has the records of the earlier one, with what `tid` wrote in its own. -/
def Extends (tid : Nat) (children children' : List ChildStatus) : Prop :=
  ∀ (i : Nat) (r : ChildStatus), children[i]? = some r →
    ∃ r' : ChildStatus, children'[i]? = some r' ∧ r'.childTid = r.childTid ∧
      (r.childTid = tid → r'.exited = r.exited ∧ r'.childExitStatus = r.childExitStatus)

lemma Extends.length_le {children' : List ChildStatus}
    (h : Extends tid children children') : children.length ≤ children'.length := by
  by_contra hlt
  obtain ⟨r', hr', -⟩ := h children'.length _ (List.getElem?_eq_getElem (by omega))
  simp at hr'

lemma extends_refl (tid : Nat) (children : List ChildStatus) : Extends tid children children :=
  fun _ r hr => ⟨r, hr, rfl, fun _ => ⟨rfl, rfl⟩⟩

lemma extends_append (tid : Nat) (children : List ChildStatus) (r : ChildStatus) :
    Extends tid children (children ++ [r]) := by
  intro i r' hr
  have hlt := (List.getElem?_eq_some_iff.mp hr).1
  exact ⟨r', by rw [List.getElem?_append_left hlt, hr], rfl, fun _ => ⟨rfl, rfl⟩⟩

lemma extends_set (hr : children[index]? = some r) (hsame : r'.childTid = r.childTid)
    (hown : r.childTid = tid → r'.exited = r.exited ∧ r'.childExitStatus = r.childExitStatus) :
    Extends tid children (children.set index r') := by
  intro i r₀ hr₀
  by_cases hi : i = index
  · subst hi
    have hlt := (List.getElem?_eq_some_iff.mp hr).1
    rw [hr, Option.some.injEq] at hr₀
    subst hr₀
    exact ⟨r', by simp [hlt], hsame, hown⟩
  · exact ⟨r₀, by rw [List.getElem?_set_ne (Ne.symm hi), hr₀], rfl, fun _ => ⟨rfl, rfl⟩⟩

lemma HasStatus.extends (h : HasStatus s tid status)
    (hext : Extends tid s.children t.children) : HasStatus t tid status := by
  obtain ⟨index, r, hr, htid, hexited, hstat⟩ := h
  obtain ⟨r', hr', htid', hown⟩ := hext index r hr
  obtain ⟨hexited', hstat'⟩ := hown htid
  exact ⟨index, r', hr', htid'.trans htid, hexited'.trans hexited, hstat'.trans hstat⟩

lemma Noted.extends (h : Noted s tid) (hpc : (t.child tid).pc = (s.child tid).pc)
    (hexit : (t.child tid).exit = (s.child tid).exit)
    (hext : Extends tid s.children t.children) : Noted t tid := by
  unfold Noted at h ⊢
  rw [hpc, hexit]
  cases hs : (s.child tid).pc with
  | scan status index =>
    simp only [hs] at h
    obtain ⟨hcalled, hindex, hscanned⟩ := h
    refine ⟨hcalled, hindex.trans hext.length_le, fun j r hj hr htid => ?_⟩
    obtain ⟨r', hr', htid', hown⟩ := hext j s.children[j] (List.getElem?_eq_getElem (by omega))
    grind
  | lockRecord status index | setExited status index | setStatus status index
  | unlockRecord status index =>
    simp only [hs] at h
    obtain ⟨hcalled, r, hr, hrest⟩ := h
    obtain ⟨r', hr', htid', hown⟩ := hext index r hr
    exact ⟨hcalled, r', hr', by grind⟩
  | lockExit | testLoad | signalExit | unlockExit | remove | dead =>
    simp only [hs] at h
    exact fun status hcalled => (h status hcalled).extends hext
  | _ => simpa only [hs] using h

lemma parentStep_extends (ht : parentStep s s.parent = some t) (tid : Nat) :
    Extends tid s.children t.children := by
  rcases parentStep_records ht with ⟨other, -, rfl⟩ | ⟨other, index, r, -, hr, rfl⟩ | ⟨hsame, -, -⟩
  · exact extends_append tid s.children _
  · exact extends_set hr rfl fun _ => ⟨rfl, rfl⟩
  rw [hsame]
  exact extends_refl _ _

lemma childStep_extends (h : Noted s tid) (ht : childStep s tid (s.child tid).pc = some t)
    (hne : other ≠ tid) : Extends other s.children t.children := by
  rcases childStep_records ht with ⟨status, index, r, hpc, hr, rfl⟩ |
    ⟨status, index, r, hpc, hr, rfl⟩ | hsame
  · simp only [Noted, hpc] at h
    exact extends_set hr rfl fun hother => by grind
  · simp only [Noted, hpc] at h
    exact extends_set hr rfl fun hother => by grind
  · rw [hsame]
    exact extends_refl _ _

lemma childStep_noted (hl : Linked s) (h : Noted s tid) (hok : LinkedInTime s (.child tid))
    (ht : childStep s tid (s.child tid).pc = some t) : Noted t tid := by
  have hunique : ∀ {i j : Nat} {r r' : ChildStatus}, s.children[i]? = some r →
      s.children[j]? = some r' → r.childTid = r'.childTid → i = j :=
    fun hi hj hsame => hl.index_unique hi hj hsame
  cases hpc : (s.child tid).pc with
  | scan status index =>
    simp only [Noted, hpc] at h
    simp only [LinkedInTime, hpc] at hok
    obtain ⟨hcalled, hindex, hscanned⟩ := h
    cases hr : s.children[index]? with
    | none =>
      obtain rfl : s.childTo tid .lockExit = t := by simpa [childStep, hpc, hr] using ht
      have hend : s.children.length ≤ index := List.getElem?_eq_none_iff.mp hr
      obtain ⟨r, hmem, htid⟩ := hok.resolve_left (by omega)
      obtain ⟨i, hi⟩ := List.getElem?_of_mem hmem
      have hlt := (List.getElem?_eq_some_iff.mp hi).1
      have hnoted := hscanned i r (by omega) hi htid
      simp only [Noted, child_childTo, if_true]
      intro st hst
      exact ⟨i, r, hi, htid, hnoted.1, by grind⟩
    | some r =>
      by_cases htid : r.childTid = tid
      · obtain rfl : s.childTo tid (.lockRecord status index) = t := by
          simpa [childStep, hpc, hr, htid] using ht
        simp only [Noted, child_childTo, if_true]
        exact ⟨hcalled, r, hr, htid⟩
      obtain rfl : s.childTo tid (.scan status (index + 1)) = t := by
        simpa [childStep, hpc, hr, htid] using ht
      have hlt := (List.getElem?_eq_some_iff.mp hr).1
      simp only [Noted, child_childTo, if_true]
      refine ⟨hcalled, hlt, fun j r' hj hr' htid' => ?_⟩
      rcases Nat.lt_succ_iff_lt_or_eq.mp hj with hlt | rfl
      · exact hscanned j r' hlt hr' htid'
      · exact absurd htid' (by grind)
  | unlockRecord status index =>
    simp only [Noted, hpc] at h
    obtain ⟨hcalled, r, hr, htid, hexited, hstat⟩ := h
    obtain rfl : (s.setMonitor s.monitor.release).childTo tid (.scan status (index + 1)) = t := by
      simpa [childStep, hpc] using ht
    have hlt := (List.getElem?_eq_some_iff.mp hr).1
    simp only [Noted, child_childTo, if_true]
    refine ⟨hcalled, hlt, fun j r' _ hr' htid' => ?_⟩
    -- no other record is its own
    have hj := hl.index_unique hr' hr (htid'.trans htid.symm)
    subst hj
    grind
  | _ => grind [Noted, childStep, HasStatus]

lemma choice_noted (h : Noted s tid) (ht : step s event = some t)
    (hpar : event ≠ .parent) (hchild : ∀ tid, event ≠ .child tid) : Noted t tid := by
  have hchildren : t.children = s.children := by cases event <;> grind [step]
  by_cases hsame : (t.child tid).pc = (s.child tid).pc ∧ (t.child tid).exit = (s.child tid).exit
  · exact h.extends hsame.1 hsame.2 (hchildren ▸ extends_refl tid s.children)
  -- the child itself has started, loaded or come to its end
  cases event with
  | parent => exact absurd rfl hpar
  | child other => exact absurd rfl (hchild other)
  | created other | loaded other success | exit other status | killed other =>
    have hother : tid = other := by grind [step]
    subst hother
    simp only [step, Option.ite_none_right_eq_some, Option.some.injEq] at ht
    obtain ⟨hpc, rfl⟩ := ht
    simp only [hpc, Noted] at h
    simp [Noted, child_threadCreate, child_setChild, child_childTo, h]
  | _ => grind [step]

lemma step_noted (hl : Linked s) (h : ∀ tid, Noted s tid)
    (hok : LinkedInTime s event) (ht : step s event = some t) (tid : Nat) : Noted t tid := by
  cases event with
  | parent =>
    obtain ⟨hpcs, -, hexits⟩ := parentStep_child ht tid
    exact (h tid).extends hpcs hexits (parentStep_extends ht tid)
  | child other =>
    by_cases hsame : tid = other
    · subst hsame
      exact childStep_noted hl (h tid) hok ht
    · have hother := (childStep_others ht).2.2 tid hsame
      exact (h tid).extends (by rw [hother]) (by rw [hother]) (childStep_extends (h other) ht hsame)
  | _ => exact choice_noted (h tid) ht (by simp) (by simp)

/-! ## What `process_wait` collects -/

@[grind] def ParentPc.target : ParentPc → Option (Nat × Nat)
  | .lockDeath tid index | .testDeath tid index => some (tid, index)
  | .checkStatus tid index | .takeStatus tid index => some (tid, index)
  | .enqueue (.death tid index) | .unlockWait (.death tid index) => some (tid, index)
  | .sleep (.death tid index) | .relock (.death tid index) => some (tid, index)
  | _ => none

/-- The results of `process_wait (tid)`, with the one that is about to be returned. -/
@[grind] def Processes.results (s : Processes) (tid : Nat) : List Int :=
  match s.parent with
  | .unlockDeath other result =>
    if other = tid then (s.child tid).waits ++ [result] else (s.child tid).waits
  | _ => (s.child tid).waits

def Collected (s : Processes) (r : ChildStatus) : Prop :=
  if r.hasBeenWaited then
    (s.child r.childTid).pc = .dead ∧ ∀ status, (s.child r.childTid).exit = some status →
      ∃ n, s.results r.childTid = status :: List.replicate n (-1)
  else ∀ status, (s.child r.childTid).exit = some status → s.results r.childTid = []

structure Collecting (s : Processes) : Prop where
  target : ∀ tid index, s.parent.target = some (tid, index) → s.tids[index]? = some tid
  gone : ∀ tid index, s.parent = .checkStatus tid index ∨ s.parent = .takeStatus tid index →
    (s.child tid).pc = .dead
  taking : ∀ tid index r, s.parent = .takeStatus tid index → s.children[index]? = some r →
    r.exited = true ∧ r.hasBeenWaited = false
  linking : ∀ tid, s.parent = .link tid → (s.child tid).waits = []
  alive : ∀ tid, (s.child tid).pc ≠ .dead → s.results tid = []
  records : ∀ r ∈ s.children, Collected s r

lemma Collected.congr (h : Collected s r)
    (htid : r'.childTid = r.childTid) (hwaited : r'.hasBeenWaited = r.hasBeenWaited)
    (hexit : (t.child r.childTid).exit = (s.child r.childTid).exit)
    (hresults : t.results r.childTid = s.results r.childTid)
    (hdead : (s.child r.childTid).pc = .dead → (t.child r.childTid).pc = .dead) :
    Collected t r' := by
  unfold Collected at h ⊢
  rw [htid, hwaited, hexit, hresults]
  split
  · next hwaited => exact ⟨hdead (by grind), by grind⟩
  · grind

lemma Collected.once (h : Collected s r) (hexit : (s.child r.childTid).exit = some status) :
    StatusOnce status (s.child r.childTid).waits := by
  have hsplit : ∃ rest, s.results r.childTid = (s.child r.childTid).waits ++ rest := by
    unfold Processes.results
    split <;> [split; skip]
    · exact ⟨_, rfl⟩
    · exact ⟨[], (List.append_nil _).symm⟩
    · exact ⟨[], (List.append_nil _).symm⟩
  obtain ⟨rest, hrest⟩ := hsplit
  unfold Collected at h
  split at h
  · obtain ⟨n, hn⟩ := h.2 status hexit
    rw [hrest] at hn
    cases hwaits : (s.child r.childTid).waits with
    | nil => exact .inl rfl
    | cons first later =>
      rw [hwaits, List.cons_append, List.cons.injEq] at hn
      obtain ⟨-, hlater, -⟩ := List.append_eq_replicate_iff.mp hn.2
      exact .inr ⟨later.length, by rw [hn.1, ← hlater]⟩
  · have hnil := h status hexit
    rw [hrest] at hnil
    exact .inl (List.append_eq_nil_iff.mp hnil).1

lemma childStep_dead (ht : childStep s tid (s.child tid).pc = some t)
    (hdead : (s.child other).pc = .dead) : (t.child other).pc = .dead := by
  by_cases hsame : other = tid
  · subst hsame
    simp [hdead, childStep] at ht
  · rw [(childStep_others ht).2.2 other hsame, hdead]

lemma childStep_origin (ht : childStep s tid (s.child tid).pc = some t) (hr' : r' ∈ t.children) :
    ∃ r ∈ s.children, r'.childTid = r.childTid ∧ r'.hasBeenWaited = r.hasBeenWaited := by
  have hset : ∀ {index : Nat} {r n : ChildStatus}, s.children[index]? = some r →
      n.childTid = r.childTid ∧ n.hasBeenWaited = r.hasBeenWaited → r' ∈ s.children.set index n →
      ∃ r ∈ s.children, r'.childTid = r.childTid ∧ r'.hasBeenWaited = r.hasBeenWaited := by
    intro index r n hr hnew hmem
    rcases List.mem_or_eq_of_mem_set hmem with hold | rfl
    · exact ⟨r', hold, rfl, rfl⟩
    · exact ⟨r, List.mem_of_getElem? hr, hnew⟩
  rcases childStep_records ht with ⟨status, index, r, -, hr, rfl⟩ |
    ⟨status, index, r, -, hr, rfl⟩ | hsame
  · exact hset (n := { r with exited := true }) hr ⟨rfl, rfl⟩ hr'
  · exact hset (n := { r with childExitStatus := status }) hr ⟨rfl, rfl⟩ hr'
  · exact ⟨r', hsame ▸ hr', rfl, rfl⟩

lemma childStep_collecting (hd : Disciplined s) (h : Collecting s)
    (ht : childStep s tid (s.child tid).pc = some t) : Collecting t := by
  obtain ⟨hpar, -, -⟩ := childStep_others ht
  have hghost := childStep_child ht
  have hresults : ∀ other, t.results other = s.results other := by
    intro other
    simp only [Processes.results, hpar, (hghost other).2.2]
  constructor
  · rw [hpar, childStep_tids ht]
    exact h.target
  · intro other index hpc
    exact childStep_dead ht (h.gone other index (hpar ▸ hpc))
  · intro other index r hpc hr
    rw [hpar] at hpc
    have hout := hd.alone (by rw [hpc]; rfl) tid
    have hsame : t.children = s.children := by
      rcases childStep_records ht with ⟨status, i, r, hpc, -, -⟩ | ⟨status, i, r, hpc, -, -⟩ | hsame
      · simp [hpc, ChildPc.holds] at hout
      · simp [hpc, ChildPc.holds] at hout
      · exact hsame
    exact h.taking other index r hpc (hsame ▸ hr)
  · intro other hpc
    rw [(hghost other).2.2]
    exact h.linking other (hpar ▸ hpc)
  · intro other halive
    rw [hresults]
    exact h.alive other fun hdead => halive (childStep_dead ht hdead)
  · intro r' hr'
    obtain ⟨r, hr, htid, hwaited⟩ := childStep_origin ht hr'
    exact (h.records r hr).congr htid hwaited (hghost _).2.1 (hresults _) (childStep_dead ht)

lemma Collecting.quiet (h : Collecting s) (ht : parentStep s s.parent = some t)
    (hchildren : t.children = s.children)
    (htarget : ∀ tid index, t.parent.target = some (tid, index) → s.tids[index]? = some tid)
    (hgone : ∀ tid index, t.parent = .checkStatus tid index → (s.child tid).pc = .dead)
    (htaking : ∀ tid index, t.parent ≠ .takeStatus tid index)
    (hlinking : ∀ tid, t.parent ≠ .link tid)
    (hresults : ∀ tid, t.results tid = s.results tid) : Collecting t := by
  have hpcs := fun tid => (parentStep_child ht tid).1
  constructor
  · simpa only [tids, hchildren] using htarget
  · intro tid index hpc
    rw [hpcs]
    exact hgone tid index (hpc.resolve_right (htaking tid index))
  · exact fun tid index r hpc => absurd hpc (htaking tid index)
  · exact fun tid hpc => absurd hpc (hlinking tid)
  · intro tid
    rw [hpcs, hresults]
    exact h.alive tid
  · rw [hchildren]
    intro r hr
    exact (h.records r hr).congr rfl rfl (parentStep_child ht _).2.2 (hresults _)
      (by rw [hpcs]; exact id)

lemma Collecting.link (h : Collecting s) (hpc : s.parent = .link tid) : Collecting
    ((s.setRecords (s.children ++ [⟨tid, false, false, 0⟩])).parentTo (.lockLoad (some tid))) := by
  have hresults : ∀ other, ((s.setRecords (s.children ++ [⟨tid, false, false, 0⟩])).parentTo
      (.lockLoad (some tid))).results other = s.results other := by
    simp [Processes.results, parentTo, setRecords, hpc]
  refine ⟨by simp [parentTo, ParentPc.target], by simp [parentTo], by simp [parentTo],
    by simp [parentTo], fun other halive => ?_, fun r hr => ?_⟩
  · rw [hresults]
    exact h.alive other halive
  rcases List.mem_append.mp hr with hold | hnew
  · exact (h.records r hold).congr rfl rfl rfl (hresults _) id
  rw [List.mem_singleton.mp hnew]
  intro status _
  rw [hresults]
  simpa [Processes.results, hpc] using h.linking tid hpc

lemma Linked.dead_of_removed (hd : Disciplined s) (hl : Linked s) (hlinked : tid ∈ s.tids)
    (hgone : tid ∉ s.allList) : (s.child tid).pc = .dead := by
  have hborn := ((hl.linked tid).mp hlinked).1
  rw [hd.listed] at hgone
  cases hpc : (s.child tid).pc <;> simp_all [ChildPc.live]

lemma Linked.status_of_noted (hl : Linked s) (hn : Noted s tid) (hdead : (s.child tid).pc = .dead)
    (hr : s.children[index]? = some r) (htid : r.childTid = tid)
    (hexit : (s.child tid).exit = some status) : r.exited = true ∧ r.childExitStatus = status := by
  simp only [Noted, hdead] at hn
  obtain ⟨j, r', hr', htid', hexited, hstat⟩ := hn status hexit
  have hj := hl.index_unique hr hr' (htid.trans htid'.symm)
  subst hj
  rw [hr, Option.some.injEq] at hr'
  exact hr' ▸ ⟨hexited, hstat⟩

lemma Collecting.record (h : Collecting s) (htarget : s.parent.target = some (tid, index)) :
    ∃ r, s.children[index]? = some r ∧ r.childTid = tid := by
  have hget := h.target tid index htarget
  simpa [tids] using hget

lemma Collecting.decide (hl : Linked s) (h : Collecting s)
    {result : Int} (hr : s.children[index]? = some r) (htid : r.childTid = tid)
    (hidle : ∀ other result, s.parent ≠ .unlockDeath other result)
    (hdead : (s.child tid).pc = .dead) (ht : t.parent = .unlockDeath tid result)
    (hchild : ∀ other, t.child other = s.child other) (hr' : t.children[index]? = some r')
    (hothers : ∀ i, i ≠ index → t.children[i]? = s.children[i]?)
    (hcollected : Collected t r') : Collecting t := by
  have hresults : ∀ other, other ≠ tid → t.results other = s.results other := by
    intro other hne
    simp only [Processes.results, ht, hchild, if_neg (Ne.symm hne)]
  refine ⟨by simp [ht, ParentPc.target], by simp [ht], by simp [ht], by simp [ht], ?_, ?_⟩
  · intro other halive
    rw [hchild] at halive
    have hne : other ≠ tid := fun hsame => halive (hsame ▸ hdead)
    rw [hresults other hne]
    exact h.alive other halive
  intro r₀ hmem
  obtain ⟨i, hi⟩ := List.getElem?_of_mem hmem
  by_cases hindex : i = index
  · rw [hindex, hr', Option.some.injEq] at hi
    exact hi ▸ hcollected
  rw [hothers i hindex] at hi
  have hne : r₀.childTid ≠ tid := fun hsame =>
    hindex (hl.index_unique hi hr (hsame.trans htid.symm))
  exact (h.records r₀ (List.mem_of_getElem? hi)).congr rfl rfl (by rw [hchild])
    (hresults _ hne) (by rw [hchild]; exact id)

lemma Collecting.take (hl : Linked s) (hn : ∀ tid, Noted s tid) (h : Collecting s)
    (hpc : s.parent = .takeStatus tid index)
    (hr : s.children[index]? = some r) :
    Collecting ((s.setRecords (s.children.set index { r with hasBeenWaited := true })).parentTo
      (.unlockDeath tid r.childExitStatus)) := by
  have hdead := h.gone tid index (.inr hpc)
  have htarget : s.parent.target = some (tid, index) := by
    rw [hpc]
    rfl
  obtain ⟨r₀, hr₀, htid⟩ := h.record htarget
  rw [hr, Option.some.injEq] at hr₀
  subst hr₀
  have hlt := (List.getElem?_eq_some_iff.mp hr).1
  have hset : (s.children.set index { r with hasBeenWaited := true })[index]? =
      some { r with hasBeenWaited := true } := List.getElem?_set_self hlt
  refine h.decide hl hr htid (by simp [hpc]) hdead rfl (fun _ => rfl) hset
    (fun i hi => List.getElem?_set_ne (Ne.symm hi)) ?_
  have hfresh := h.records r (List.mem_of_getElem? hr)
  simp only [Collected, (h.taking tid index r hpc hr).2, htid] at hfresh
  simp only [Collected, if_true, htid]
  refine ⟨hdead, fun status hexit => ⟨0, ?_⟩⟩
  have hstat := (hl.status_of_noted (hn tid) hdead hr htid hexit).2
  have hnone := hfresh status hexit
  simp only [Processes.results, hpc] at hnone
  simp only [Processes.results, parentTo, setRecords, if_true, hnone, hstat]
  rfl

lemma Collecting.refuse (hl : Linked s) (hn : ∀ tid, Noted s tid) (h : Collecting s)
    (hpc : s.parent = .checkStatus tid index)
    (hr : s.children[index]? = some r) (hrefused : r.exited = false ∨ r.hasBeenWaited = true) :
    Collecting (s.parentTo (.unlockDeath tid (-1))) := by
  have hdead := h.gone tid index (.inl hpc)
  have htarget : s.parent.target = some (tid, index) := by
    rw [hpc]
    rfl
  obtain ⟨r₀, hr₀, htid⟩ := h.record htarget
  rw [hr, Option.some.injEq] at hr₀
  subst hr₀
  refine h.decide hl hr htid (by simp [hpc]) hdead rfl (fun _ => rfl) hr (fun i _ => rfl) ?_
  have hbefore := h.records r (List.mem_of_getElem? hr)
  -- if the child called `sys_exit` its record is filled in, so it was refused as waited for
  have hwaited : ∀ status, (s.child tid).exit = some status → r.hasBeenWaited = true := by
    intro status hexit
    refine hrefused.resolve_left fun hfalse => ?_
    rw [(hl.status_of_noted (hn tid) hdead hr htid hexit).1] at hfalse
    exact absurd hfalse (by decide)
  unfold Collected at hbefore ⊢
  rw [htid] at hbefore ⊢
  split
  · next hset =>
      rw [if_pos hset] at hbefore
      refine ⟨hdead, fun status hexit => ?_⟩
      obtain ⟨n, hresults⟩ := hbefore.2 status hexit
      simp only [Processes.results, hpc] at hresults
      refine ⟨n + 1, ?_⟩
      simp only [Processes.results, parentTo, if_true, hresults, List.cons_append,
        List.replicate_succ']
  · next hset => exact fun status hexit => absurd (hwaited status hexit) hset

lemma Collecting.begin_take (h : Collecting s) (hpc : s.parent = .checkStatus tid index)
    (hr : s.children[index]? = some r) (hexited : r.exited = true)
    (hwaited : r.hasBeenWaited = false) : Collecting (s.parentTo (.takeStatus tid index)) := by
  have hresults : ∀ other, (s.parentTo (.takeStatus tid index)).results other =
    s.results other := by
    simp [Processes.results, parentTo, hpc]
  have htarget := h.target tid index (by rw [hpc]; rfl)
  have hdead := h.gone tid index (.inl hpc)
  refine ⟨?_, ?_, ?_, by simp [parentTo], fun other halive => ?_, fun r' hr' => ?_⟩
  · intro other i hother
    simp only [parentTo, ParentPc.target, Option.some.injEq, Prod.mk.injEq] at hother
    exact hother.1 ▸ hother.2 ▸ htarget
  · intro other i hother
    simp only [parentTo, reduceCtorEq, ParentPc.takeStatus.injEq, false_or] at hother
    exact hother.1 ▸ hdead
  · intro other i r' hother hr'
    simp only [parentTo, ParentPc.takeStatus.injEq] at hother
    obtain ⟨-, rfl⟩ := hother
    rw [parentTo, hr, Option.some.injEq] at hr'
    exact hr' ▸ ⟨hexited, hwaited⟩
  · rw [hresults]
    exact h.alive other halive
  · exact (h.records r' hr').congr rfl rfl rfl (hresults _) id

lemma Collecting.find (hl : Linked s) (h : Collecting s) (hpc : s.parent = .find tid)
    (ht : parentStep s s.parent = some t) : Collecting t := by
  cases hfind : findRecord s.children tid s.children.length with
  | some index =>
    obtain ⟨r, hr, htid⟩ := findRecord_some hfind
    have hget : s.tids[index]? = some tid := by simp [tids, hr, htid]
    apply h.quiet ht <;> grind [parentStep]
  | none =>
    -- there is no such child, so nothing is recorded
    have hunborn : (s.child tid).pc = .unborn := by
      by_contra hborn
      have hlinked := (hl.linked tid).mpr ⟨hborn, by simp [hpc]⟩
      obtain ⟨r, hr, htid⟩ := List.mem_map.mp hlinked
      obtain ⟨i, hi⟩ := List.getElem?_of_mem hr
      exact findRecord_none hfind (List.getElem?_eq_some_iff.mp hi).1 hi htid
    have hnone := h.alive tid (by simp [hunborn])
    apply h.quiet ht <;> grind [parentStep]

lemma parentStep_collecting (hd : Disciplined s) (hl : Linked s) (hn : ∀ tid, Noted s tid)
    (h : Collecting s) (ht : parentStep s s.parent = some t) : Collecting t := by
  have htarget := h.target
  cases hpc : s.parent with
  | link tid =>
    simp only [hpc, parentStep, Option.some.injEq] at ht
    exact ht ▸ h.link hpc
  | find tid => exact h.find hl hpc ht
  | testDeath tid index =>
    have hlinked : tid ∈ s.tids := List.mem_of_getElem? (htarget tid index (by rw [hpc]; rfl))
    have hdead := hl.dead_of_removed hd hlinked
    apply h.quiet ht <;> grind [parentStep]
  | checkStatus tid index =>
    simp only [hpc, parentStep, Option.bind_eq_bind, Option.pure_def,
      Option.bind_eq_some_iff, Option.some.injEq] at ht
    obtain ⟨r, hr, rfl⟩ := ht
    split
    · next hrefused => exact h.refuse hl hn hpc hr (by simpa using hrefused)
    · next htaken =>
        simp only [Bool.or_eq_true, Bool.not_eq_true', not_or, Bool.not_eq_false,
          Bool.not_eq_true] at htaken
        exact h.begin_take hpc hr htaken.1 htaken.2
  | takeStatus tid index =>
    simp only [hpc, parentStep, Option.bind_eq_bind, Option.pure_def,
      Option.bind_eq_some_iff, Option.some.injEq] at ht
    obtain ⟨r, hr, rfl⟩ := ht
    exact h.take hl hn hpc hr
  | unlockDeath tid result =>
    have halive := h.alive tid
    apply h.quiet ht <;> grind [parentStep]
  | enqueue loop | unlockWait loop | sleep loop | relock loop =>
    cases loop <;> apply h.quiet ht <;> grind [parentStep, Loop.test]
  | _ => apply h.quiet ht <;> grind [parentStep]

lemma choice_collecting (h : Collecting s) (ht : step s event = some t)
    (hpar : event ≠ .parent) (hchild : ∀ tid, event ≠ .child tid) : Collecting t := by
  have hchildren : t.children = s.children := by cases event <;> grind [step]
  have halive := h.alive
  have hwaits : ∀ tid, (t.child tid).waits = (s.child tid).waits := by
    intro tid
    cases event <;> grind [step]
  have hresults : ∀ tid, t.results tid = s.results tid := by
    intro tid
    have := hwaits tid
    cases event <;> grind [step]
  have hdead : ∀ tid, (s.child tid).pc = .dead ↔ (t.child tid).pc = .dead := by
    intro tid
    cases event <;> grind [step]
  have hexit : ∀ tid, (t.child tid).exit = (s.child tid).exit ∨ (s.child tid).pc ≠ .dead := by
    intro tid
    cases event <;> grind [step]
  constructor
  · have htarget := h.target
    rw [tids, hchildren, ← tids]
    cases event <;> grind [step]
  · have hgone := h.gone
    cases event <;> grind [step]
  · have htaking := h.taking
    rw [hchildren]
    cases event <;> grind [step]
  · have hlinking := h.linking
    cases event <;> grind [step]
  · intro tid hpc
    rw [hresults]
    exact h.alive tid fun hgone => hpc ((hdead tid).mp hgone)
  intro r hr
  have hbefore := h.records r (hchildren ▸ hr)
  rcases hexit r.childTid with hsame | hrun
  · exact hbefore.congr rfl rfl hsame (hresults _) (hdead _).mp
  -- the child runs, so nobody has collected its status yet
  have hnone := h.alive _ hrun
  unfold Collected at hbefore ⊢
  split
  · next hset =>
      rw [if_pos hset] at hbefore
      exact absurd hbefore.1 hrun
  · exact fun _ _ => (hresults _).trans hnone

lemma step_collecting (hd : Disciplined s) (hl : Linked s)
    (hn : ∀ tid, Noted s tid) (h : Collecting s) (ht : step s event = some t) : Collecting t := by
  cases event with
  | parent => exact parentStep_collecting hd hl hn h ht
  | child tid => exact childStep_collecting hd h ht
  | _ => exact choice_collecting h ht (by simp) (by simp)

lemma initial_collecting : Collecting .initial where
  target tid index h := absurd h (by simp [initial, ParentPc.target])
  gone tid index h := absurd h (by simp [initial])
  taking tid index r h := absurd h (by simp [initial])
  linking tid h := absurd h (by simp [initial])
  alive tid _ := rfl
  records r h := absurd h (by simp [initial])

lemma Collecting.statusCollected (hn : Noted s tid) (h : Collecting s) : StatusCollected s tid := by
  intro status hexit
  by_cases hdead : (s.child tid).pc = .dead
  · simp only [Noted, hdead] at hn
    obtain ⟨index, r, hr, rfl, -, -⟩ := hn status hexit
    exact (h.records r (List.mem_of_getElem? hr)).once hexit
  have hnone := h.alive tid hdead
  unfold Processes.results at hnone
  split at hnone <;> [split at hnone; skip]
  · simp at hnone
  · exact .inl hnone
  · exact .inl hnone

/-- In every run in which no child gets to the end of the parent's list before its record
is linked, the waits for each child that called `sys_exit` have collected its status once. -/
theorem status_collected_of_run (events : List Event)
    (hok : Meets step LinkedInTime .initial events) :
    ∀ s ∈ run step .initial events, ∀ tid, StatusCollected s tid := by
  intro s hs tid
  obtain ⟨-, -, hn, hc⟩ := run_invariant
    (I := fun s => Disciplined s ∧ Linked s ∧ (∀ tid, Noted s tid) ∧ Collecting s)
    (fun s event t ⟨hd, hl, hn, hc⟩ hok ht =>
      ⟨step_disciplined hd ht, step_linked hl ht, step_noted hl hn hok ht,
        step_collecting hd hl hn hc ht⟩)
    ⟨initial_disciplined, initial_linked, fun _ => rfl, initial_collecting⟩ hok hs
  exact hc.statusCollected (hn tid)

def exitAndWaitTwice : List Event :=
  .exit 3 7 :: List.replicate 11 (.child 3) ++ .wait 3 :: List.replicate 6 .parent ++
    .wait 3 :: List.replicate 5 .parent

theorem status_collected_twice :
    Meets step LinkedInTime .initial (execAndLoad 3 true ++ exitAndWaitTwice) ∧
      ∀ s ∈ run step .initial (execAndLoad 3 true ++ exitAndWaitTwice), ∀ tid,
      StatusCollected s tid :=
  have hok : Meets step LinkedInTime .initial (execAndLoad 3 true ++ exitAndWaitTwice) := by
    decide +kernel
  ⟨hok, status_collected_of_run _ hok⟩

/-- The child loads, exits with 7 and is gone before `process_execute` links its record. -/
def exitBeforeLink : List Event :=
  [.exec, .parent, .created 3, .loaded 3 true] ++ List.replicate 4 (.child 3) ++
    .exit 3 7 :: List.replicate 6 (.child 3) ++ List.replicate 5 .parent ++
    .wait 3 :: List.replicate 5 .parent

/-- The exit status is lost: the only wait for the child returns -1. -/
theorem exit_status_lost : ∃ s ∈ run step .initial exitBeforeLink, ¬ StatusCollected s 3 := by
  have hend : ((run step .initial exitBeforeLink).map fun s =>
    ((s.child 3).exit, (s.child 3).waits)) =
      some (some 7, [-1]) := by
    decide +kernel
  obtain ⟨s, hs, hlast⟩ := Option.map_eq_some_iff.mp hend
  rw [Prod.mk.injEq] at hlast
  refine ⟨s, hs, fun h => ?_⟩
  have honce := h 7 hlast.1
  rw [hlast.2] at honce
  rcases honce with hnil | ⟨n, hcons⟩
  · simp at hnil
  · simp at hcons

end Pintos.Userprog
