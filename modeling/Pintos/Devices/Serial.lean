import Pintos.Devices.Intq

/-!
# Serial output

The transmitting side of `devices/serial.c`.  `sent` lists the bytes written to
the transmit register; which bytes were accepted is recorded from the calls of
`serial_putc` as they return, beside the code.  A call runs with interrupts off,
so it is one step unless its thread blocks on a full queue.  `serial_init_queue` is
four steps, since interrupts may be on between them; only its `init_poll` is not
interrupted: the kernel prints, and so leaves the mode `UNINIT`, before it first
turns interrupts on.  The room in the input buffer and the number of bytes the
device takes during an interrupt are given with each step.
-/

namespace Pintos.Devices

open Foundation

variable {q : Intq} {byte : Byte} {t : Nat}

inductive SerialMode where
  | uninit
  | poll
  | queue
  deriving DecidableEq, Repr

inductive InitPhase where
  | toRegister
  | toSwitch
  | toFinish
  deriving DecidableEq, Repr

structure Serial where
  mode : SerialMode
  txq : Intq
  xmit : Bool
  recv : Bool
  sent : List Byte
  registered : Bool
  starting : Option InitPhase

abbrev SerialAction := Action Serial Fault

inductive Caller where
  | thread (t : Nat)
  | handler
  deriving DecidableEq, Repr

def onTxq {α : Type} (x : IntqAction α) : SerialAction α :=
  zoom Serial.txq (fun s txq => { s with txq }) x

/-! ## The functions -/

def Intq.reset (q : Intq) : Intq :=
  { q with ring := ⟨q.ring.buf, 0, 0⟩, notFull := none, notEmpty := none, value := 1,
           waiters := [], holder := none }

def initPoll : SerialAction Unit := do
  let s ← Action.get
  require (s.mode = .uninit) (.assertion "mode == UNINIT")
  Action.modify fun s => { s with xmit := false, recv := false, txq := s.txq.reset, mode := .poll }

def send (byte : Byte) : SerialAction Unit :=
  Action.modify fun s => { s with sent := s.sent ++ [byte] }

def writeIer (inputFull : Bool) : SerialAction Unit :=
  Action.modify fun s => { s with xmit := !s.txq.ring.isEmpty, recv := !inputFull }

/-- A call of `intq_getc` or `intq_putc`; without a result, the thread has blocked. -/
def intqCall : Caller → IntqCall → SerialAction (Option Byte)
  | .thread t, call => onTxq (enter t call)
  | .handler, call => do
    let byte ← onTxq (fromHandler call)
    return some byte

def afterPut (inputFull : Bool) : Option Byte → SerialAction Unit
  | some _ => writeIer inputFull
  | none => pure ()

/-- `putc_poll (intq_getc (&txq))`, which does not block since there is a byte. -/
def sendOldest (caller : Caller) : SerialAction Unit := do
  match ← intqCall caller .getc with
  | some byte => send byte
  | none => stop .misuse

def serialPutc (caller : Caller) (interruptsOff inputFull : Bool) (byte : Byte) :
    SerialAction Unit := do
  let s ← Action.get
  if s.mode ≠ .queue then do
    if s.mode = .uninit then initPoll
    send byte
  else do
    if interruptsOff ∧ s.txq.ring.isFull intqBufsize then sendOldest caller
    let result ← intqCall caller (.putc byte)
    afterPut inputFull result

def serialResume (t : Nat) (inputFull : Bool) : SerialAction Unit := do
  let result ← onTxq (resume t)
  afterPut inputFull result

def sendLoop (caller : Caller) : Nat → SerialAction Unit
  | 0 => pure ()
  | rounds + 1 => do
    let s ← Action.get
    if s.txq.ring.isEmpty then pure ()
    else do
      sendOldest caller
      sendLoop caller rounds

def serialFlush (caller : Caller) : SerialAction Unit := sendLoop caller intqBufsize

def serialInterrupt (ready : Nat) (inputFull : Bool) : SerialAction Unit := do
  sendLoop .handler ready
  writeIer inputFull

def serialNotify (inputFull : Bool) : SerialAction Unit := do
  let s ← Action.get
  if s.mode = .queue then writeIer inputFull

def initQueueStart : SerialAction Unit := do
  let s ← Action.get
  if s.mode = .uninit then initPoll
  let s ← Action.get
  require (s.mode = .poll) (.assertion "mode == POLL")
  Action.modify fun s => { s with starting := some .toRegister }

def initQueueNext (inputFull : Bool) : InitPhase → SerialAction Unit
  | .toRegister => do
    let s ← Action.get
    require (s.registered = false) (.assertion "intr_handlers[vec_no] == NULL")
    Action.modify fun s => { s with registered := true, starting := some .toSwitch }
  | .toSwitch => Action.modify fun s => { s with mode := .queue, starting := some .toFinish }
  | .toFinish => do
    writeIer inputFull
    Action.modify fun s => { s with starting := none }

/-! ## Interleavings -/

inductive SerialEvent where
  | putc (caller : Caller) (interruptsOff inputFull : Bool) (byte : Byte)
  | resume (t : Nat) (inputFull : Bool)
  | interrupt (ready : Nat) (inputFull : Bool)
  | flush (caller : Caller)
  | notify (inputFull : Bool)
  | initQueue
  | initNext (inputFull : Bool)
  deriving DecidableEq, Repr

variable {s s' : Serial} {caller : Caller} {event : SerialEvent}

def serialPerform : SerialEvent → SerialAction Unit
  | .putc caller interruptsOff inputFull byte => serialPutc caller interruptsOff inputFull byte
  | .resume t inputFull => serialResume t inputFull
  | .interrupt ready inputFull => serialInterrupt ready inputFull
  | .flush caller => serialFlush caller
  | .notify inputFull => serialNotify inputFull
  | .initQueue => initQueueStart
  | .initNext inputFull => do
    let s ← Action.get
    match s.starting with
    | none => stop .misuse
    | some phase => initQueueNext inputFull phase

def serialStep (s : Serial) (event : SerialEvent) : Option Serial :=
  match serialPerform event s with
  | .ok (_, s') => some s'
  | .error _ => none

def Idle (s : Serial) : Prop := ∀ t, s.txq.threads t = .outside

/-- What can happen.  One thread at a time is in `serial_putc`; a handler has interrupts off; a
serial interrupt needs its handler, and `serial_init_queue` is called once. -/
def SerialEnabled (s : Serial) : SerialEvent → Prop
  | .putc (.thread _) _ _ _ => Idle s
  | .putc .handler interruptsOff _ _ => interruptsOff = true
  | .resume t _ => IntqEnabled s.txq (.resume t)
  | .interrupt _ _ => s.registered = true
  | .flush (.thread t) => s.txq.threads t = .outside
  | .flush .handler | .notify _ => True
  | .initQueue => s.starting = none ∧ s.mode ≠ .queue
  | .initNext _ => s.starting ≠ none

def Serial.boot : Serial where
  mode := .uninit
  txq := ⟨⟨fun _ => 0, 0, 0⟩, none, none, 0, [], none, fun _ => .outside⟩
  xmit := false
  recv := false
  sent := []
  registered := false
  starting := none

/-- The bytes of the calls of `serial_putc` that have returned, and that of the blocked one. -/
structure Ledger where
  accepted : List Byte
  pending : Option Byte
  deriving DecidableEq, Repr

/-- After a step of a call by thread `t`, which has returned if the thread is outside again. -/
def Ledger.called (l : Ledger) (s' : Serial) (t : Nat) (byte : Byte) : Ledger :=
  if s'.txq.threads t = .outside then ⟨l.accepted ++ [byte], none⟩
  else { l with pending := some byte }

def Ledger.record (l : Ledger) (s' : Serial) : SerialEvent → Ledger
  | .putc (.thread t) _ _ byte => l.called s' t byte
  | .putc .handler _ _ byte => { l with accepted := l.accepted ++ [byte] }
  | .resume t _ => match l.pending with
    | some byte => l.called s' t byte
    | none => l
  | _ => l

def recordStep (sl : Serial × Ledger) (event : SerialEvent) : Option (Serial × Ledger) := do
  let s' ← serialStep sl.1 event
  return (s', sl.2.record s' event)

variable {l : Ledger}

/-! ## The bytes under way -/

def Occupant.Writes (pending : Option Byte) : Occupant → Prop
  | .nobody => True
  | .waiting _ call | .woken _ call => ∃ byte, call = .putc byte ∧ pending = some byte

structure Channel (s : Serial) (l : Ledger) (items : List Byte) (occupant : Occupant) : Prop where
  txq : IntqOk s.txq items occupant
  bytes : s.sent ++ items = l.accepted
  writes : occupant.Writes l.pending

structure Frame (s s' : Serial) : Prop where
  mode : s'.mode = s.mode
  registered : s'.registered = s.registered
  starting : s'.starting = s.starting

lemma Frame.refl (s : Serial) : Frame s s := ⟨rfl, rfl, rfl⟩

lemma Frame.trans {s'' : Serial} (h : Frame s s') (h' : Frame s' s'') : Frame s s'' :=
  ⟨h'.mode.trans h.mode, h'.registered.trans h.registered, h'.starting.trans h.starting⟩

lemma Occupant.Writes.wake {occupant : Occupant} {pending : Option Byte}
    (h : occupant.Writes pending) (c : Condition) : (occupant.wake c).Writes pending := by
  cases occupant with
  | nobody => exact h
  | woken t call => exact h
  | waiting t call =>
    by_cases hneeds : call.needs = c
    · rw [Occupant.wake, if_pos hneeds]
      exact h
    · rw [Occupant.wake, if_neg hneeds]
      exact h

section Bytes

variable {items : List Byte} {occupant : Occupant} {pending : Option Byte}

lemma wp_onTxq {α : Type} {x : IntqAction α} {Q : α → Serial → Prop} :
    wp (onTxq x) Q s ↔ wp x (fun a q => Q a { s with txq := q }) s.txq :=
  wp_zoom ..

lemma intqCall_spec (h : IntqOk s.txq items occupant) (call : IntqCall)
    (hneeds : call.needs.Holds s.txq.ring) :
    wp (intqCall caller call) (fun result s' => ∃ byte q after, result = some byte ∧
      s' = { s with txq := q } ∧ call.Moves byte items after ∧
      IntqOk q after (occupant.wake call.gives)) s := by
  cases caller with
  | handler =>
    simp only [intqCall, wp_bind, wp_pure, wp_onTxq]
    refine wp_mono (fromHandler_spec h hneeds) ?_
    rintro byte q ⟨after, hmoves, hq⟩
    exact ⟨byte, q, after, rfl, rfl, hmoves, hq⟩
  | thread t =>
    simp only [intqCall, wp_onTxq, enter, wp_bind, wp_get, if_pos hneeds, wp_pure]
    refine wp_mono (transfer_spec h hneeds) ?_
    rintro byte q ⟨after, hmoves, hq⟩
    exact ⟨byte, q, after, rfl, rfl, hmoves, hq⟩

lemma IntqOk.holds_notEmpty (h : IntqOk q items occupant) :
    Condition.notEmpty.Holds q.ring ↔ items ≠ [] := by
  obtain ⟨r, rfl, hfifo, -⟩ := h
  exact (Bool.eq_false_iff.trans (not_congr hfifo.isEmpty_iff))

lemma IntqOk.holds_notFull (h : IntqOk q items occupant) :
    Condition.notFull.Holds q.ring ↔ items.length + 1 ≠ intqBufsize := by
  obtain ⟨r, rfl, hfifo, -⟩ := h
  exact (Bool.eq_false_iff.trans (not_congr hfifo.isFull_iff))

lemma sendOldest_spec {rest : List Byte} (h : Channel s l (byte :: rest) occupant) :
    wp (sendOldest caller) (fun _ s' => Channel s' l rest (occupant.wake .notFull) ∧
      Frame s s' ∧ s'.xmit = s.xmit) s := by
  simp only [sendOldest, wp_bind]
  refine wp_mono (intqCall_spec h.txq .getc (h.txq.holds_notEmpty.mpr (by simp))) ?_
  rintro result s' ⟨taken, q, after, rfl, rfl, hmoves, hq⟩
  obtain ⟨rfl, rfl⟩ := List.cons_eq_cons.mp hmoves
  refine ⟨⟨hq, ?_, h.writes.wake _⟩, ⟨rfl, rfl, rfl⟩, rfl⟩
  rw [← h.bytes]
  exact append_assoc s.sent [byte] rest

lemma sendLoop_spec (rounds : Nat) : ∀ {s : Serial} {items : List Byte} {occupant : Occupant},
    Channel s l items occupant → wp (sendLoop caller rounds) (fun _ s' =>
      ∃ items' occupant', Channel s' l items' occupant' ∧ Frame s s' ∧ s'.xmit = s.xmit ∧
        (items = [] → items' = [] ∧ occupant' = occupant)) s := by
  induction rounds with
  | zero =>
    intro s items occupant h
    exact ⟨items, occupant, h, Frame.refl s, rfl, fun hnil => ⟨hnil, rfl⟩⟩
  | succ rounds ih =>
    intro s items occupant h
    simp only [sendLoop, wp_bind, wp_get]
    cases items with
    | nil =>
      have hempty : s.txq.ring.isEmpty = true := by
        obtain ⟨r, hr, hfifo, -⟩ := h.txq
        rw [hr]
        exact hfifo.isEmpty_iff.mpr rfl
      rw [if_pos hempty]
      exact ⟨[], occupant, h, Frame.refl s, rfl, fun _ => ⟨rfl, rfl⟩⟩
    | cons byte rest =>
      have hempty : ¬ s.txq.ring.isEmpty = true := by
        have := h.txq.holds_notEmpty.mpr (show byte :: rest ≠ [] by simp)
        exact Bool.eq_false_iff.mp this
      rw [if_neg hempty, wp_bind]
      refine wp_mono (sendOldest_spec h) ?_
      rintro _ s' ⟨hs', hframe, hxmit⟩
      refine wp_mono (ih hs') ?_
      rintro _ s'' ⟨items', occupant', hs'', hframe', hxmit', -⟩
      exact ⟨items', occupant', hs'', hframe.trans hframe', hxmit'.trans hxmit, by simp⟩

lemma afterPut_spec (inputFull : Bool) (hbytes : s.sent ++ items = l.accepted)
    (hq : IntqOk q (items ++ [byte]) occupant) (hwrites : occupant.Writes pending) :
    wp (afterPut inputFull (some byte)) (fun _ s' =>
      Channel s' ⟨l.accepted ++ [byte], pending⟩ (items ++ [byte]) occupant ∧ Frame s s' ∧
        s'.xmit = true ∧ s'.txq = q) { s with txq := q } := by
  simp only [afterPut, writeIer, wp_modify]
  refine ⟨⟨hq, by rw [← hbytes, append_assoc], hwrites⟩, ⟨rfl, rfl, rfl⟩, ?_, trivial⟩
  have hnonempty : q.ring.isEmpty = false :=
    hq.holds_notEmpty.mpr (show items ++ [byte] ≠ [] by simp)
  simp [hnonempty]

end Bytes

/-! ## Every step -/

def StartOk (s : Serial) : Prop :=
  match s.starting with
  | none => s.mode = .poll → s.registered = false
  | some .toRegister => s.mode = .poll ∧ s.registered = false
  | some .toSwitch => s.mode = .poll
  | some .toFinish => s.mode = .queue

lemma StartOk.of_frame (h : StartOk s) (hframe : Frame s s') : StartOk s' := by
  unfold StartOk at h ⊢
  rw [hframe.starting, hframe.mode, hframe.registered]
  exact h

structure Running (s : Serial) (l : Ledger) (items : List Byte) (occupant : Occupant) : Prop where
  channel : Channel s l items occupant
  init : s.mode ≠ .uninit
  poll : s.mode = .poll → items = [] ∧ occupant = .nobody
  xmit : s.mode = .queue → items ≠ [] → s.xmit = true
  start : StartOk s

def SerialOk (s : Serial) (l : Ledger) : Prop :=
  (s.mode = .uninit ∧ s.txq = Serial.boot.txq ∧ s.sent = [] ∧ l.accepted = [] ∧
    s.registered = false ∧ s.starting = none) ∨ ∃ items occupant, Running s l items occupant

section Steps

variable {items : List Byte} {occupant : Occupant}

lemma sendNow_spec (h : Running s l [] .nobody) (hmode : s.mode = .poll) (byte : Byte)
    (pending : Option Byte) :
    Running { s with sent := s.sent ++ [byte] } ⟨l.accepted ++ [byte], pending⟩ [] .nobody where
  channel := ⟨h.channel.txq, by
    have hbytes := h.channel.bytes
    rw [append_nil] at hbytes ⊢
    rw [hbytes], trivial⟩
  init := h.init
  poll _ := ⟨rfl, rfl⟩
  xmit hqueue := absurd (hmode.symm.trans hqueue) (by decide)
  start := h.start

lemma initPoll_spec (hmode : s.mode = .uninit) (htxq : s.txq = Serial.boot.txq)
    (hsent : s.sent = []) (haccepted : l.accepted = []) (hregistered : s.registered = false)
    (hstarting : s.starting = none) :
    wp initPoll (fun _ s' => Running s' l [] .nobody ∧ s'.mode = .poll ∧
      s'.registered = false ∧ s'.starting = none) s := by
  simp only [initPoll, wp_bind, wp_get, wp_require, wp_modify]
  have hreset : s.txq.reset = .guarded ⟨fun _ => 0, 0, 0⟩ .nobody := by
    rw [htxq]
    rfl
  refine ⟨hmode, ⟨⟨?_, ?_, trivial⟩, by simp, fun _ => ⟨rfl, rfl⟩, by simp, ?_⟩, trivial,
    hregistered, hstarting⟩
  · exact ⟨_, hreset, RingBuffer.fifo_nil _ (by decide), trivial⟩
  · simp [hsent, haccepted]
  · simp [StartOk, hstarting, hregistered]

lemma Running.mode_eq_poll (h : Running s l items occupant) (hmode : s.mode ≠ .queue) :
    s.mode = .poll := by
  cases hm : s.mode with
  | uninit => exact absurd hm h.init
  | poll => rfl
  | queue => exact absurd hm hmode

lemma Running.isFull_iff (h : Running s l items occupant) :
    s.txq.ring.isFull intqBufsize = true ↔ items.length + 1 = intqBufsize := by
  rw [← not_iff_not, Bool.not_eq_true]
  exact h.channel.txq.holds_notFull

lemma idle_occupant (h : IntqOk s.txq items occupant) (hidle : Idle s) : occupant = .nobody := by
  cases occupant with
  | nobody => rfl
  | waiting t call =>
    have := hidle t
    simp [h.threads_eq, Occupant.threads] at this
  | woken t call =>
    have := hidle t
    simp [h.threads_eq, Occupant.threads] at this

section

variable (h : Running s l items occupant) (hmode : s.mode = .queue)

include h hmode

lemma Running.queued {l' : Ledger} {items' : List Byte} {occupant' : Occupant}
    (hchannel : Channel s' l' items' occupant') (hframe : Frame s s')
    (hxmit : items' ≠ [] → s'.xmit = true) : Running s' l' items' occupant' where
  channel := hchannel
  init := by simp [hframe.mode, hmode]
  poll hpoll := by simp [hframe.mode, hmode] at hpoll
  xmit _ := hxmit
  start := h.start.of_frame hframe

lemma afterEntered_spec (inputFull : Bool) {result : Option Byte}
    (hentered : Entered items .nobody t (.putc byte) q result) :
    wp (afterPut inputFull result) (fun _ s' => SerialOk s' (l.called s' t byte))
      { s with txq := q } := by
  cases result with
  | some taken =>
    obtain ⟨after, ⟨rfl, rfl⟩, hq⟩ := hentered
    have hwrites : (Occupant.nobody.wake .notEmpty).Writes none := trivial
    refine wp_mono (afterPut_spec inputFull h.channel.bytes hq hwrites) ?_
    rintro _ s' ⟨hchannel, hframe, hxmit, rfl⟩
    rw [Ledger.called, if_pos (by rw [hq.threads_eq]; rfl)]
    exact .inr ⟨_, _, h.queued hmode hchannel hframe fun _ => hxmit⟩
  | none =>
    have hinside : q.threads t ≠ .outside := by simp [hentered.2.threads_eq, Occupant.threads]
    refine .inr ⟨items, .waiting t (.putc byte), ?_⟩
    rw [Ledger.called, if_neg hinside]
    have hchannel : Channel { s with txq := q } { l with pending := some byte } items
        (.waiting t (.putc byte)) := ⟨hentered.2, h.channel.bytes, byte, rfl, rfl⟩
    exact h.queued hmode hchannel ⟨rfl, rfl, rfl⟩ (h.xmit hmode)

lemma putQueued_spec {interruptsOff : Bool} (inputFull : Bool) (byte : Byte)
    (hroom : items.length + 1 ≠ intqBufsize ∨ caller ≠ .handler)
    (hidle : caller ≠ .handler → occupant = .nobody) :
    wp (intqCall caller (.putc byte)) (fun result s' => wp (afterPut inputFull result)
      (fun _ s' =>
        SerialOk s' (l.record s' (.putc caller interruptsOff inputFull byte))) s') s := by
  cases caller with
  | handler =>
    have hneeds := h.channel.txq.holds_notFull.mpr (hroom.resolve_right (not_not_intro rfl))
    refine wp_mono (intqCall_spec h.channel.txq (.putc byte) hneeds) ?_
    rintro result s' ⟨taken, q, after, rfl, rfl, ⟨rfl, rfl⟩, hq⟩
    refine wp_mono (afterPut_spec inputFull h.channel.bytes hq (h.channel.writes.wake _)) ?_
    rintro _ s' ⟨hchannel, hframe, hxmit, -⟩
    exact .inr ⟨_, _, h.queued hmode hchannel hframe fun _ => hxmit⟩
  | thread t =>
    obtain rfl := hidle nofun
    rw [intqCall, wp_onTxq]
    refine wp_mono (enter_spec h.channel.txq (Or.inr rfl)) ?_
    intro result q hentered
    exact afterEntered_spec h hmode inputFull hentered

end

lemma record_putc (hpoll : Running s l [] .nobody) (hmode : s.mode = .poll)
    {interruptsOff inputFull : Bool} (byte : Byte) :
    SerialOk { s with sent := s.sent ++ [byte] } (l.record { s with sent := s.sent ++ [byte] }
      (.putc caller interruptsOff inputFull byte)) := by
  have hnext := sendNow_spec hpoll hmode byte
  cases caller with
  | handler => exact .inr ⟨[], .nobody, hnext _⟩
  | thread t =>
    rw [Ledger.record, Ledger.called,
      if_pos (by simp [hpoll.channel.txq.threads_eq, Occupant.threads])]
    exact .inr ⟨[], .nobody, hnext none⟩

lemma serialPutc_queued (h : Running s l items occupant) (hmode : s.mode = .queue)
    {interruptsOff : Bool} (inputFull : Bool) (byte : Byte)
    (henabled : SerialEnabled s (.putc caller interruptsOff inputFull byte)) :
    wp (serialPutc caller interruptsOff inputFull byte) (fun _ s' =>
      SerialOk s' (l.record s' (.putc caller interruptsOff inputFull byte))) s := by
  have hidle : caller ≠ .handler → occupant = .nobody := by
    cases caller with
    | handler => exact fun hne => absurd rfl hne
    | thread t => exact fun _ => idle_occupant h.channel.txq henabled
  simp only [serialPutc, wp_bind, wp_get]
  rw [if_neg (by simp [hmode])]
  by_cases hpolls : interruptsOff = true ∧ s.txq.ring.isFull intqBufsize = true
  · have hfull := h.isFull_iff.mp hpolls.2
    obtain ⟨oldest, rest, rfl⟩ : ∃ oldest rest, items = oldest :: rest := by
      cases items with
      | nil => simp [intqBufsize] at hfull
      | cons oldest rest => exact ⟨oldest, rest, rfl⟩
    rw [if_pos hpolls]
    simp only [wp_bind]
    refine wp_mono (sendOldest_spec h.channel) ?_
    rintro _ s' ⟨hchannel, hframe, hxmit⟩
    have hrun := h.queued hmode hchannel hframe fun _ => hxmit.trans (h.xmit hmode (by simp))
    refine putQueued_spec hrun (hframe.mode.trans hmode) inputFull byte
      (Or.inl (by rw [length_cons] at hfull; omega)) fun hne => ?_
    rw [hidle hne]
    rfl
  · rw [if_neg hpolls]
    simp only [wp_bind]
    refine putQueued_spec h hmode inputFull byte ?_ hidle
    by_cases hfull : items.length + 1 = intqBufsize
    · right
      rintro rfl
      exact hpolls ⟨henabled, h.isFull_iff.mpr hfull⟩
    · exact Or.inl hfull

lemma serialPutc_ok (hs : SerialOk s l) {interruptsOff : Bool} (inputFull : Bool)
    (byte : Byte) (henabled : SerialEnabled s (.putc caller interruptsOff inputFull byte)) :
    wp (serialPutc caller interruptsOff inputFull byte) (fun _ s' =>
      SerialOk s' (l.record s' (.putc caller interruptsOff inputFull byte))) s := by
  rcases hs with ⟨hmode, htxq, hsent, haccepted, hregistered, hstarting⟩ | ⟨items, occupant, h⟩
  · simp only [serialPutc, wp_bind, wp_get]
    rw [if_pos (by simp [hmode])]
    simp only [if_pos hmode, wp_bind]
    refine wp_mono (initPoll_spec hmode htxq hsent haccepted hregistered hstarting) ?_
    rintro _ s' ⟨hrun, hpoll, -, -⟩
    exact record_putc hrun hpoll byte
  by_cases hmode : s.mode = .queue
  · exact serialPutc_queued h hmode inputFull byte henabled
  · have hpoll := h.mode_eq_poll hmode
    obtain ⟨rfl, rfl⟩ := h.poll hpoll
    simp only [serialPutc, wp_bind, wp_get]
    rw [if_pos hmode]
    simp only [if_neg h.init, send, wp_modify]
    exact record_putc h hpoll byte

lemma serialResume_ok (hs : SerialOk s l) (inputFull : Bool)
    (henabled : IntqEnabled s.txq (.resume t)) :
    wp (serialResume t inputFull)
      (fun _ s' => SerialOk s' (l.record s' (.resume t inputFull))) s := by
  rcases hs with ⟨-, htxq, -⟩ | ⟨items, occupant, h⟩
  · obtain ⟨call, hplace⟩ := henabled
    rw [htxq] at hplace
    simp [Serial.boot] at hplace
  obtain ⟨call, rfl⟩ := h.channel.txq.occupant_of_enabled henabled
  obtain ⟨byte, rfl, hpending⟩ := h.channel.writes
  have hmode : s.mode = .queue := by
    by_contra hne
    exact absurd (h.poll (h.mode_eq_poll hne)).2 (by simp)
  simp only [serialResume, wp_bind, wp_onTxq, Ledger.record, hpending]
  refine wp_mono (resume_spec h.channel.txq) ?_
  intro result q hentered
  exact afterEntered_spec h hmode inputFull hentered

lemma Running.sendLoop (h : Running s l items occupant) (caller : Caller) (rounds : Nat) :
    wp (sendLoop caller rounds) (fun _ s' => Frame s s' ∧
      ∃ items' occupant', Running s' l items' occupant') s := by
  refine wp_mono (sendLoop_spec rounds h.channel) ?_
  rintro _ s' ⟨items', occupant', hchannel, hframe, hxmit, hnil⟩
  refine ⟨hframe, items', occupant', hchannel, ?_, fun hpoll => ?_, fun hqueue hne => ?_,
    h.start.of_frame hframe⟩
  · rw [hframe.mode]
    exact h.init
  · obtain ⟨rfl, rfl⟩ := h.poll (hframe.mode.symm.trans hpoll)
    exact hnil rfl
  · rw [hxmit]
    exact h.xmit (hframe.mode.symm.trans hqueue) fun hitems => hne (hnil hitems).1

lemma sendLoop_empty (hempty : s.txq.ring.isEmpty = true) (rounds : Nat) :
    wp (sendLoop caller rounds) (fun _ s' => s' = s) s := by
  cases rounds with
  | zero => exact rfl
  | succ rounds =>
    simp only [sendLoop, wp_bind, wp_get, if_pos hempty]
    exact rfl

lemma serialFlush_ok (hs : SerialOk s l) (caller : Caller) :
    wp (serialFlush caller) (fun _ s' => SerialOk s' l) s := by
  rcases hs with hboot | ⟨items, occupant, h⟩
  · have hempty : s.txq.ring.isEmpty = true := by
      rw [hboot.2.1]
      rfl
    refine wp_mono (sendLoop_empty hempty intqBufsize) ?_
    rintro _ s' rfl
    exact .inl hboot
  · refine wp_mono (h.sendLoop caller intqBufsize) ?_
    rintro _ s' ⟨-, hrun⟩
    exact .inr hrun

lemma Running.writeIer (h : Running s l items occupant) (inputFull : Bool) :
    Running { s with xmit := !s.txq.ring.isEmpty, recv := !inputFull } l items occupant where
  channel := ⟨h.channel.txq, h.channel.bytes, h.channel.writes⟩
  init := h.init
  poll := h.poll
  xmit _ hne := by
    have hnonempty : s.txq.ring.isEmpty = false := h.channel.txq.holds_notEmpty.mpr hne
    simp [hnonempty]
  start := h.start

lemma serialInterrupt_ok (hs : SerialOk s l) (ready : Nat) (inputFull : Bool)
    (hregistered : s.registered = true) :
    wp (serialInterrupt ready inputFull) (fun _ s' => SerialOk s' l) s := by
  rcases hs with hboot | ⟨items, occupant, h⟩
  · simp [hboot.2.2.2.2.1] at hregistered
  simp only [serialInterrupt, wp_bind, Devices.writeIer, wp_modify]
  refine wp_mono (h.sendLoop .handler ready) ?_
  rintro _ s' ⟨-, items', occupant', hrun⟩
  exact .inr ⟨items', occupant', hrun.writeIer inputFull⟩

lemma serialNotify_ok (hs : SerialOk s l) (inputFull : Bool) :
    wp (serialNotify inputFull) (fun _ s' => SerialOk s' l) s := by
  simp only [serialNotify, wp_bind, wp_get, Devices.writeIer]
  split
  · rename_i hmode
    rcases hs with hboot | ⟨items, occupant, h⟩
    · simp [hboot.1] at hmode
    · exact .inr ⟨items, occupant, h.writeIer inputFull⟩
  · exact hs

lemma Running.start_register (h : Running s l items occupant) (hmode : s.mode = .poll)
    (hregistered : s.registered = false) :
    Running { s with starting := some .toRegister } l items occupant where
  channel := ⟨h.channel.txq, h.channel.bytes, h.channel.writes⟩
  init := h.init
  poll := h.poll
  xmit := h.xmit
  start := ⟨hmode, hregistered⟩

lemma initQueueStart_ok (hs : SerialOk s l) (hstarting : s.starting = none)
    (hmode : s.mode ≠ .queue) : wp initQueueStart (fun _ s' => SerialOk s' l) s := by
  simp only [initQueueStart, wp_bind, wp_get]
  rcases hs with ⟨huninit, htxq, hsent, haccepted, hregistered, -⟩ | ⟨items, occupant, h⟩
  · simp only [if_pos huninit, wp_bind, wp_get, wp_require, wp_modify]
    refine wp_mono (initPoll_spec huninit htxq hsent haccepted hregistered hstarting) ?_
    rintro _ s' ⟨hrun, hpoll, hregistered', -⟩
    exact ⟨hpoll, .inr ⟨[], .nobody, hrun.start_register hpoll hregistered'⟩⟩
  have hpoll := h.mode_eq_poll hmode
  have hstart := h.start
  simp only [StartOk, hstarting] at hstart
  simp only [if_neg h.init, wp_bind, wp_get, wp_require, wp_modify]
  exact ⟨hpoll, .inr ⟨items, occupant, h.start_register hpoll (hstart hpoll)⟩⟩

lemma initQueueNext_ok (h : Running s l items occupant) (inputFull : Bool) {phase : InitPhase}
    (hphase : s.starting = some phase) :
    wp (initQueueNext inputFull phase) (fun _ s' => SerialOk s' l) s := by
  have hstart := h.start
  cases phase with
  | toRegister =>
    simp only [StartOk, hphase] at hstart
    simp only [initQueueNext, wp_bind, wp_get, wp_require, wp_modify]
    exact ⟨hstart.2, .inr ⟨items, occupant, ⟨h.channel.txq, h.channel.bytes, h.channel.writes⟩,
      h.init, h.poll, h.xmit, hstart.1⟩⟩
  | toSwitch =>
    simp only [StartOk, hphase] at hstart
    obtain ⟨rfl, rfl⟩ := h.poll hstart
    simp only [initQueueNext, wp_modify]
    exact .inr ⟨[], .nobody, ⟨h.channel.txq, h.channel.bytes, trivial⟩, by simp,
      fun _ => ⟨rfl, rfl⟩, fun _ hne => absurd rfl hne, rfl⟩
  | toFinish =>
    simp only [StartOk, hphase] at hstart
    simp only [initQueueNext, wp_bind, Devices.writeIer, wp_modify]
    have hwr := h.writeIer inputFull
    refine .inr ⟨items, occupant, ⟨h.channel.txq, h.channel.bytes, h.channel.writes⟩, h.init,
      h.poll, hwr.xmit, ?_⟩
    exact fun hpoll => absurd (hstart.symm.trans hpoll) (by decide)

lemma serialPerform_ok (hs : SerialOk s l) (henabled : SerialEnabled s event) :
    wp (serialPerform event) (fun _ s' => SerialOk s' (l.record s' event)) s := by
  cases event with
  | putc caller interruptsOff inputFull byte => exact serialPutc_ok hs inputFull byte henabled
  | resume t inputFull => exact serialResume_ok hs inputFull henabled
  | interrupt ready inputFull => exact serialInterrupt_ok hs ready inputFull henabled
  | flush caller => exact serialFlush_ok hs caller
  | notify inputFull => exact serialNotify_ok hs inputFull
  | initQueue => exact initQueueStart_ok hs henabled.1 henabled.2
  | initNext inputFull =>
    simp only [serialPerform, wp_bind, wp_get]
    cases hphase : s.starting with
    | none => exact absurd hphase henabled
    | some phase =>
      rcases hs with hboot | ⟨items, occupant, h⟩
      · simp [hboot.2.2.2.2.2] at hphase
      · exact initQueueNext_ok h inputFull hphase

lemma serialStep_ok (hs : SerialOk s l) (henabled : SerialEnabled s event) :
    ∃ s', serialStep s event = some s' ∧ SerialOk s' (l.record s' event) := by
  obtain ⟨_, s', hrun, hs'⟩ := wp_iff.mp (serialPerform_ok hs henabled)
  exact ⟨s', by simp [serialStep, hrun], hs'⟩

end Steps

/-! ## Runs -/

structure ActsAsFifo (r : RingBuffer Byte) (items : List Byte) : Prop where
  capacity : items.length ≤ intqBufsize - 1
  empty : r.isEmpty = true ↔ items = []
  full : r.isFull intqBufsize = true ↔ items.length = intqBufsize - 1
  put : r.isFull intqBufsize = false → ∀ byte,
    (r.put intqBufsize byte).Fifo intqBufsize (items ++ [byte])
  take : ∀ byte rest, items = byte :: rest →
    r.first = byte ∧ (r.drop intqBufsize).Fifo intqBufsize rest

lemma actsAsFifo {r : RingBuffer Byte} {items : List Byte} (h : r.Fifo intqBufsize items) :
    ActsAsFifo r items where
  capacity := Nat.le_sub_one_of_lt h.room
  empty := h.isEmpty_iff
  full := h.isFull_iff.trans (by simp only [intqBufsize]; omega)
  put hfull byte := h.put hfull byte
  take byte rest hitems := by
    subst hitems
    exact ⟨h.first_eq, h.drop⟩

/-- What was accepted was sent or is queued, in this order, and transmit interrupts are on while
something is queued. -/
def Faithful (s : Serial) (accepted : List Byte) : Prop :=
  ∃ items, s.txq.ring.Fifo intqBufsize items ∧ ActsAsFifo s.txq.ring items ∧
    s.sent ++ items = accepted ∧ (s.mode = .queue → items ≠ [] → s.xmit = true)

lemma SerialOk.faithful (hs : SerialOk s l) : Faithful s l.accepted := by
  rcases hs with ⟨hmode, htxq, hsent, haccepted, -⟩ | ⟨items, occupant, h⟩
  · have hfifo : s.txq.ring.Fifo intqBufsize [] := by
      rw [htxq]
      exact RingBuffer.fifo_nil _ (by decide)
    exact ⟨[], hfifo, actsAsFifo hfifo, by simp [hsent, haccepted], by simp [hmode]⟩
  obtain ⟨r, hr, hfifo, -⟩ := h.channel.txq
  have hring : s.txq.ring.Fifo intqBufsize items := by
    rw [hr]
    exact hfifo
  exact ⟨items, hring, actsAsFifo hring, h.channel.bytes, h.xmit⟩

/-- Serial output from boot on, in any interleaving. -/
theorem serial_faithful {events : List SerialEvent}
    (hevents : Meets recordStep (fun sl => SerialEnabled sl.1) (Serial.boot, ⟨[], none⟩) events) :
    ∃ s l, run recordStep (Serial.boot, ⟨[], none⟩) events = some (s, l) ∧
      Faithful s l.accepted := by
  have hstep : ∀ (sl : Serial × Ledger) event, SerialOk sl.1 sl.2 → SerialEnabled sl.1 event →
      ∃ sl', recordStep sl event = some sl' ∧ SerialOk sl'.1 sl'.2 := by
    intro sl event hs henabled
    obtain ⟨s', hs', hok⟩ := serialStep_ok hs henabled
    exact ⟨(s', sl.2.record s' event), by simp [recordStep, hs'], hok⟩
  obtain ⟨⟨s, l⟩, hrun, hs⟩ := run_total hstep (.inl ⟨rfl, rfl, rfl, rfl, rfl, rfl⟩) hevents
  exact ⟨s, l, hrun, hs.faithful⟩

/-- A byte is polled, the port is switched to queue mode, and a second byte is queued and sent. -/
def twoBytes : List SerialEvent :=
  [.putc (.thread 1) true false 65, .initQueue, .initNext false, .initNext false, .initNext false,
    .putc (.thread 1) false false 66, .interrupt 1 false]

theorem serial_faithful_twoBytes : ∃ s l,
    run recordStep (Serial.boot, ⟨[], none⟩) twoBytes = some (s, l) ∧ l.accepted = [65, 66] ∧
      Faithful s l.accepted := by
  have hmeets : Meets recordStep (fun sl => SerialEnabled sl.1) (Serial.boot, ⟨[], none⟩)
      twoBytes := by
    refine .cons (fun _ => rfl) rfl ?_
    refine .cons ⟨rfl, nofun⟩ rfl ?_
    refine .cons nofun rfl ?_
    refine .cons nofun rfl ?_
    refine .cons nofun rfl ?_
    refine .cons (fun _ => rfl) rfl ?_
    exact ⟨rfl, fun _ _ => trivial⟩
  obtain ⟨s, l, hrun, hs⟩ := serial_faithful hmeets
  have haccepted : (run recordStep (Serial.boot, ⟨[], none⟩) twoBytes).map (·.2.accepted) =
      some [65, 66] := rfl
  rw [hrun] at haccepted
  exact ⟨s, l, hrun, Option.some.inj haccepted, hs⟩

end Pintos.Devices
