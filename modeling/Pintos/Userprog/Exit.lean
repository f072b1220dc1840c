import Pintos.Userprog.Munmap

/-!
# The end of a process

`process_exit` of `userprog/process.c`, which `sys_exit`, the page fault handler
and `kill` all come to through `thread_exit`; what they do before that concerns
neither memory nor files.  The page directory goes first, then the supplemental
page table and the open files.  Nothing on the way looks at the mappings.
-/

namespace Pintos.Userprog

open Foundation Filesys Vm

def exitLayer : FileLayer Fs where
  openFile _ := pure none
  closeFile file := fileClose (some file)
  Ok := DenySound
  Live fs file := ∃ header pos, ClientHandle fs file header pos
  open_spec fs name h := by simp [h]
  close_spec fs file h := by
    rintro ⟨header, pos, hc⟩
    refine wp_mono (fileClose_denySound h hc) fun _ t ht => ⟨ht.sound, fun f => ?_⟩
    simp only [ht.handles]
    constructor
    · rintro ⟨x, p, hold, hne⟩
      exact ⟨⟨x, p, hold⟩, hne⟩
    · rintro ⟨⟨x, p, hold⟩, hne⟩
      exact ⟨x, p, hold, hne⟩

def closeOpenFiles : KernelAction Unit := do
  let process ← threadCurrent
  let closed ← zoom
    (fun k : Kernel => (⟨k.fs, process.tid, process.nextFd, process.openFiles⟩ : Descriptors Fs))
    (fun k s => (k.setFs s.layer).updateProcess k.current (·.setOpenFiles s.openFiles))
    (closeThreadFiles exitLayer process.tid (process.openFiles.length + 1))
  match closed with
  | some _ => return ()
  | none => stop .misuse

def closeExec : Option Nat → KernelAction Unit
  | none => pure ()
  | some exec => do
    onFs (fileAllowWrite exec)
    onFs (fileClose (some exec))

def freeSp : KernelAction Unit := updateCurrent fun process =>
  { process with supplPageTable := fun _ => none }

/-- `process_exit`.  `cur->files` is never initialised, so it is not taken for empty, but the
`close_all_files` that follows walks the list of children, from which all have been removed. -/
def processExit : KernelAction Unit := do
  destroyPagedir
  freeSp
  closeOpenFiles
  let process ← threadCurrent
  closeExec process.exec

def threadExit : KernelAction Unit := do
  processExit
  Action.modify fun k => k.setAllList (removeAt Process.tid k.allList k.current)

/-! ## What should happen to mapped files -/

/-- Every handle of a mapping is closed, and every byte modified through a mapping is in the
file. -/
structure Flushed (k t : Kernel) (table : Int → Option Mmfile) : Prop where
  closed : ∀ mapid mmf, table mapid = some mmf → ∀ header pos,
    ¬ ClientHandle t.fs mmf.file header pos
  written : ∀ mapid mmf header pos i mapping,
    table mapid = some mmf → ClientHandle k.fs mmf.file header pos → i < mmf.pgCnt → pteOf k
    (pgNo mmf.startAddr + i) = some mapping → mapping.dirty = true → ∀ b < pgSize,
    (i * pgSize + b : Nat) < (headerAt k.fs.disk header).length → t.fs.disk
    (dataAddress (headerAt k.fs.disk header) (i * pgSize + b : Nat)) = k.memory mapping.frame b

/-- The current process has an initialised table of mappings, and its handles are its own. -/
structure Exiting (k : Kernel) (process : Process) (table : Int → Option Mmfile) : Prop where
  current : findAt Process.tid k.allList k.current = some process
  initialised : process.mmfiles = some table
  backed : Backed k
  descriptors : TableOk exitLayer ⟨k.fs, process.tid, process.nextFd, process.openFiles⟩
  exec : ∀ file, process.exec = some file →
    (∃ header pos, ClientHandle k.fs file header pos) ∧ ∀ d ∈ process.openFiles, d.file ≠ file
  mappings : ∀ mapid mmf, table mapid = some mmf →
    (∃ header pos, ClientHandle k.fs mmf.file header pos) ∧
      (∀ d ∈ process.openFiles, d.file ≠ mmf.file) ∧ process.exec ≠ some mmf.file

/-! ## The phases -/

section Phases

variable {k : Kernel} {process : Process} {table : Int → Option Mmfile}

structure ClosesAll (fs fs' : Fs) (handles : List Nat) : Prop where
  sound : DenySound fs'
  live : ∀ file, exitLayer.Live fs' file ↔ exitLayer.Live fs file ∧ file ∉ handles

lemma closeOpenFiles_spec
    (h : TableOk exitLayer ⟨k.fs, process.tid, process.nextFd, process.openFiles⟩)
    (hcur : findAt Process.tid k.allList k.current = some process) : wp closeOpenFiles
      (fun _ t => ClosesAll k.fs t.fs (process.openFiles.map (·.file)) ∧
        findAt Process.tid t.allList t.current = some (process.setOpenFiles [])) k := by
  simp only [closeOpenFiles, wp_bind, wp_threadCurrent hcur, wp_zoom, closeThreadFiles, wp_get]
  refine wp_mono (closeLoop_spec _ h (Nat.lt_succ_self _)) ?_
  rintro _ t ⟨hok, rfl, hempty, hlive⟩
  refine ⟨⟨hok, hlive⟩, ?_⟩
  rw [hempty]
  exact current_updateProcess hcur (by simp)

lemma closeExec_spec {exec : Option Nat} (h : DenySound k.fs)
    (hlive : ∀ file, exec = some file → exitLayer.Live k.fs file) :
    wp (closeExec exec) (fun _ t => ClosesAll k.fs t.fs exec.toList) k := by
  cases exec with
  | none => exact ⟨h, by simp⟩
  | some handle =>
    obtain ⟨header, pos, hc⟩ := hlive handle rfl
    obtain ⟨file, inode, -, -, -, -, -, -, hfile, hinode⟩ := h.handle hc
    simp only [closeExec, onFs, wp_bind, wp_zoom]
    refine wp_mono (fileAllowWrite_denySound h hfile hinode) ?_
    rintro _ fs ⟨hfs, hundenied, -, -⟩
    have hhandles : ∀ file header pos, ClientHandle fs file header pos ↔
        ClientHandle k.fs file header pos := by
      intro file header pos
      rw [← clientHandle_undenied, hundenied, clientHandle_undenied]
    have hclose := exitLayer.close_spec fs handle hfs ⟨header, pos, (hhandles _ _ _).mpr hc⟩
    refine wp_mono hclose ?_
    rintro _ fs' ⟨hok, hrest⟩
    refine ⟨hok, fun file => ?_⟩
    rw [Kernel.setFs_setFs, Kernel.setFs_fs, hrest, Option.toList_some, mem_singleton]
    simp only [exitLayer, hhandles, ne_eq]

lemma threadExit_spec (h : Exiting k process table) : wp threadExit
      (fun _ t => ClosesAll k.fs t.fs (process.openFiles.map (·.file) ++ process.exec.toList))
      k := by
  simp only [threadExit, processExit, wp_bind]
  refine wp_mono (destroyPagedir_spec h.backed h.current) ?_
  rintro _ u ⟨hfs, hcur, -⟩
  simp only [freeSp, updateCurrent, wp_modify]
  refine wp_mono (closeOpenFiles_spec (hfs ▸ h.descriptors)
    (current_updateProcess hcur (by simp))) ?_
  rintro _ v ⟨hclosed, hproc⟩
  rw [wp_threadCurrent hproc]
  have hexec : ∀ file, process.exec = some file → exitLayer.Live v.fs file := by
    intro file hfile
    obtain ⟨hopen, hother⟩ := h.exec file hfile
    refine (hclosed.live file).mpr ⟨hfs ▸ hopen, fun hmem => ?_⟩
    obtain ⟨d, hd, heq⟩ := mem_map.mp hmem
    exact hother d hd heq
  refine wp_mono (closeExec_spec hclosed.sound hexec) ?_
  rintro _ t ht
  refine ⟨ht.sound, fun file => ?_⟩
  have hopen := hclosed.live file
  simp only [Kernel.updateProcess, Kernel.setAllList_fs, hfs, Process.setPagedir_openFiles] at hopen
  simp only [Kernel.setAllList_fs, ht.live, hopen, mem_append]
  tauto

/-- An exit flushes the mapped files exactly when there are none. -/
theorem threadExit_flushes_iff (h : Exiting k process table) :
    wp threadExit (fun _ t => Flushed k t table) k ↔ ∀ mapid, table mapid = none := by
  obtain ⟨_, t, hrun, ht⟩ := wp_iff.mp (threadExit_spec h)
  rw [wp_of_ok hrun]
  constructor
  · intro hflushed mapid
    by_contra hsome
    obtain ⟨mmf, hmmf⟩ := Option.ne_none_iff_exists'.mp hsome
    obtain ⟨hopen, hdescriptors, hexec⟩ := h.mappings mapid mmf hmmf
    have hother : mmf.file ∉ process.openFiles.map (·.file) ++ process.exec.toList := by
      simp only [mem_append, mem_map, Option.mem_toList, not_or, not_exists, not_and]
      exact ⟨hdescriptors, hexec⟩
    obtain ⟨header, pos, hstill⟩ := (ht.live mmf.file).mpr ⟨hopen, hother⟩
    exact hflushed.closed mapid mmf hmmf header pos hstill
  · intro hnone
    constructor
    · intro mapid mmf hmmf
      simp [hnone] at hmmf
    · intro mapid mmf header pos i mapping hmmf
      simp [hnone] at hmmf

end Phases

section Example

lemma exiting_unmapped {fs : Fs} (h : DenySound fs) : Exiting (newProcess.setFs fs |>.setAllList
      [(Process.new 3).setMmfiles (some fun _ => none)])
      ((Process.new 3).setMmfiles (some fun _ => none)) (fun _ => none) where
  current := rfl
  initialised := rfl
  backed := ⟨by simp [Process.new],
    by simp [Kernel.mapped, Process.new, Process.frames, PageTable.empty],
    by simp [Kernel.mapped, Process.new, Process.frames, PageTable.empty]⟩
  descriptors := ⟨h, by simp [Process.new], by simp [Process.new], by simp [Process.new],
    by simp [Process.new], by simp [Process.new]⟩
  exec := by simp [Process.new]
  mappings := by simp

lemma exiting_mapper {fs : Fs} {handle header : Nat} (h : IsOneByte fs handle header) :
    Exiting (mapper .empty fs handle) (mapperProcess .empty handle) (mapperTable handle) where
  current := rfl
  initialised := rfl
  backed := ⟨by simp [mapper, mapperProcess, Process.new],
    by simp [mapper, mapperProcess, Kernel.mapped, Process.frames, PageTable.empty],
    by simp [mapper, mapperProcess, Kernel.mapped, Process.frames, PageTable.empty]⟩
  descriptors := ⟨h.sound, by simp [mapperProcess, Process.new],
    by simp [mapperProcess, Process.new],
    by simp [mapperProcess, Process.new], by simp [mapperProcess, Process.new],
    by simp [mapperProcess, Process.new]⟩
  exec := by simp [mapperProcess, Process.new]
  mappings := by
    intro mapid mmf hmmf
    simp only [mapperTable, ite_none_right_eq_some] at hmmf
    obtain ⟨-, hmmf⟩ := hmmf
    cases hmmf
    exact ⟨⟨header, h.opened⟩, by simp [mapperProcess, Process.new],
      by simp [mapperProcess, Process.new]⟩

theorem threadExit_without_mappings : ∃ k process, Exiting k process (fun _ => none) ∧
    wp threadExit (fun _ t => Flushed k t fun _ => none) k := by
  obtain ⟨fs, _, _, hfile, -⟩ := exists_oneByte
  have h := exiting_unmapped hfile.sound
  exact ⟨_, _, h, (threadExit_flushes_iff h).mpr fun _ => rfl⟩

/-- The handle of the mapped one-byte file is still open when the process is gone. -/
theorem threadExit_leaves_mapping : ∃ fs handle header, IsOneByte fs handle header ∧
    Exiting (mapper .empty fs handle) (mapperProcess .empty handle) (mapperTable handle) ∧
    ¬ wp threadExit (fun _ t => Flushed (mapper .empty fs handle) t (mapperTable handle))
      (mapper .empty fs handle) := by
  obtain ⟨fs, handle, header, hfile, -⟩ := exists_oneByte
  have h := exiting_mapper hfile
  refine ⟨fs, handle, header, hfile, h, fun hwp => ?_⟩
  obtain ⟨_, t, hrun, ht⟩ := wp_iff.mp (threadExit_spec h)
  rw [wp_of_ok hrun] at hwp
  have hlive := (ht.live handle).mpr ⟨⟨header, hfile.opened⟩, by simp [mapperProcess, Process.new]⟩
  obtain ⟨header', pos, hc⟩ := hlive
  exact hwp.closed 0 (mapperFile handle) rfl header' pos hc

end Example

end Pintos.Userprog
