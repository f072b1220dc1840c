import Pintos.Foundation.Memory

/-!
# The real-time clock

`devices/rtc.c`.  `cmos k index` is what the CMOS register `index` holds when the register file
is read for the `k`th time.  The loop that waits for a stable second is cut off at a number of
rounds that is given.
-/

namespace Pintos.Devices

open Foundation

abbrev Cmos := Nat → Nat → Byte

def bcdToBin (x : Byte) : Nat := (x &&& 0x0f).toNat + (x >>> 4).toNat * 10

structure Components where
  sec : Nat
  min : Nat
  hour : Nat
  mday : Nat
  mon : Nat
  year : Nat
  deriving DecidableEq, Repr

def readComponents (cmos : Cmos) (k : Nat) : Components where
  sec := bcdToBin (cmos k 0)
  min := bcdToBin (cmos (k + 1) 2)
  hour := bcdToBin (cmos (k + 2) 4)
  mday := bcdToBin (cmos (k + 3) 7)
  mon := bcdToBin (cmos (k + 4) 8)
  year := bcdToBin (cmos (k + 5) 9)

def stableComponents (cmos : Cmos) : Nat → Nat → Option Components
  | 0, _ => none
  | fuel + 1, k =>
    let c := readComponents cmos k
    if c.sec = bcdToBin (cmos (k + 6) 0) then some c else stableComponents cmos fuel (k + 7)

def daysPerMonth : List Nat := [31, 28, 31, 30, 31, 30, 31, 31, 30, 31, 30, 31]

def yearsSince1970 (year : Nat) : Nat := (if year < 70 then year + 100 else year) - 70

def leapDay (mon year : Nat) : Nat := if mon > 2 ∧ year % 4 = 0 then 1 else 0

-- In C a division of -1 by 4 gives 0, as `year - 1` does here for the year 0.
def timeOf (c : Components) : Nat :=
  let year := yearsSince1970 c.year
  ((year * 365 + (year - 1) / 4) * 24 * 60 * 60 + (daysPerMonth.take c.mon).sum * 24 * 60 * 60 +
    leapDay c.mon year * 24 * 60 * 60 + (c.mday - 1) * 24 * 60 * 60 + c.hour * 60 * 60 +
    c.min * 60 +
    c.sec) % 2 ^ 32

def rtcGetTime (cmos : Cmos) (fuel : Nat) : Option Nat := (stableComponents cmos fuel 0).map timeOf

/-! ## The calendar -/

def Leap (year : Nat) : Prop := year % 4 = 0 ∧ (year % 100 ≠ 0 ∨ year % 400 = 0)

instance (year : Nat) : Decidable (Leap year) := inferInstanceAs (Decidable (_ ∧ _))

def yearDays (year : Nat) : Nat := if Leap year then 366 else 365

def monthDays (year mon : Nat) : Nat :=
  if mon = 2 ∧ Leap year then 29 else daysPerMonth.getD (mon - 1) 0

/-- The days from the first of January 1970 to the first day of a month. -/
def daysBefore (year mon : Nat) : Nat :=
  ((List.range (year - 1970)).map fun k => yearDays (1970 + k)).sum +
    ((List.range (mon - 1)).map fun k => monthDays year (k + 1)).sum

structure ValidDate (d : Components) : Prop where
  year : 1970 ≤ d.year ∧ d.year ≤ 2037
  mon : 1 ≤ d.mon ∧ d.mon ≤ 12
  mday : 1 ≤ d.mday ∧ d.mday ≤ monthDays d.year d.mon
  hour : d.hour < 24
  min : d.min < 60
  sec : d.sec < 60

def unixTime (d : Components) : Nat :=
  (((daysBefore d.year d.mon + (d.mday - 1)) * 24 + d.hour) * 60 + d.min) * 60 + d.sec

def bcd (n : Nat) : Byte := UInt8.ofNat (n / 10 * 16 + n % 10)

/-- Every read of the registers finds the date `d`, in BCD and with two digits for the year. -/
structure Presents (cmos : Cmos) (d : Components) : Prop where
  sec : ∀ k, cmos k 0 = bcd d.sec
  min : ∀ k, cmos k 2 = bcd d.min
  hour : ∀ k, cmos k 4 = bcd d.hour
  mday : ∀ k, cmos k 7 = bcd d.mday
  mon : ∀ k, cmos k 8 = bcd d.mon
  year : ∀ k, cmos k 9 = bcd (d.year % 100)

lemma bcdToBin_bcd {n : Nat} (h : n < 100) : bcdToBin (bcd n) = n := by
  revert n
  decide +kernel

lemma monthDays_lt (year : Nat) {mon : Nat} (h : mon ≤ 12) : monthDays year mon < 100 := by
  have hall : ∀ mon ≤ 12, daysPerMonth.getD (mon - 1) 0 < 100 := by decide
  have := hall mon h
  unfold monthDays
  split <;> omega

lemma Presents.rtcGetTime_eq {cmos : Cmos} {d : Components} (h : Presents cmos d) (hd : ValidDate d)
    (fuel : Nat) : rtcGetTime cmos (fuel + 1) = some (timeOf { d with year := d.year % 100 }) := by
  have hmday := monthDays_lt d.year hd.mon.2
  have hread : readComponents cmos 0 = { d with year := d.year % 100 } := by
    obtain ⟨-, ⟨-, hmon⟩, ⟨-, hday⟩, hhour, hmin, hsec⟩ := hd
    simp only [readComponents, h.sec, h.min, h.hour, h.mday, h.mon, h.year]
    rw [bcdToBin_bcd (by omega), bcdToBin_bcd (by omega), bcdToBin_bcd (by omega),
      bcdToBin_bcd (by omega), bcdToBin_bcd (by omega), bcdToBin_bcd (by omega)]
  have hsec : bcdToBin (cmos (0 + 6) 0) = (readComponents cmos 0).sec := by
    rw [h.sec, readComponents, h.sec]
  rw [rtcGetTime, stableComponents, if_pos hsec.symm, hread]
  rfl

/-- The loop over the months counts the present one, and the leap days are off by two years. -/
lemma days_late : ∀ y < 68, ∀ mon < 13, 1 ≤ mon →
    let counted := y * 365 + (y - 1) / 4 + (daysPerMonth.take mon).sum + leapDay mon y
    daysBefore (1970 + y) mon + 27 ≤ counted ∧ counted ≤ daysBefore (1970 + y) mon + 32 ∧
      counted ≤ 25000 := by
  decide +kernel

lemma yearsSince1970_eq {year : Nat} (h : 1970 ≤ year ∧ year ≤ 2037) :
    yearsSince1970 (year % 100) = year - 1970 := by
  rw [yearsSince1970]
  split <;> omega

theorem rtcGetTime_late {cmos : Cmos} {d : Components} (hd : ValidDate d) (h : Presents cmos d) :
    ∃ k, 27 ≤ k ∧ k ≤ 32 ∧ ∀ fuel, rtcGetTime cmos (fuel + 1) = some (unixTime d + k * 86400) := by
  obtain ⟨hyear, hmon, hmday, hhour, hmin, hsec⟩ := id hd
  obtain ⟨hlow, hup, hlt⟩ := days_late (d.year - 1970) (by omega) d.mon (by omega) hmon.1
  rw [Nat.add_sub_cancel' hyear.1] at hlow hup
  have hdays := monthDays_lt d.year hmon.2
  refine ⟨_, Nat.le_sub_of_add_le' hlow, Nat.sub_le_of_le_add (by omega), fun fuel => ?_⟩
  rw [h.rtcGetTime_eq hd, timeOf, unixTime]
  dsimp only
  rw [yearsSince1970_eq hyear]
  congr 1
  omega

/-! The first second of 1970. -/

def epoch : Components := ⟨0, 0, 0, 1, 1, 1970⟩

def epochRegisters : Cmos := fun _ index =>
  if index = 9 then 0x70 else if index = 7 ∨ index = 8 then 1 else 0

theorem rtcGetTime_epoch :
    unixTime epoch = 0 ∧ rtcGetTime epochRegisters 1 = some (31 * 86400) := by
  decide

theorem rtcGetTime_late_epoch : ∃ k, 27 ≤ k ∧ k ≤ 32 ∧
    ∀ fuel, rtcGetTime epochRegisters (fuel + 1) = some (unixTime epoch + k * 86400) :=
  rtcGetTime_late (by constructor <;> decide) (by constructor <;> exact fun _ => rfl)

end Pintos.Devices
