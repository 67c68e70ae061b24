import Yijinjing.Lib.CInt

/-!
# The clock

`NanoTimer` of `Timer.cpp`, without a page service that it could ask: the time is the reading of the
monotonic clock, and a difference to the unix time that is taken once, in whole seconds.  The two numbers of
seconds are narrowed to `int`, and so is their difference (`anchored_iff`).
-/

namespace Yijinjing

open Lib

/-! ### `Timer.cpp` -/

/-- `timespec`, as `clock_gettime` fills it in. -/
structure Timespec where
  tvSec : Int64
  tvNsec : Int64

/-- `NANOSECONDS_PER_SECOND` -/
def nanosecondsPerSecond : Int64 := 1000000000

/-- `get_time_now`, as a count of nanoseconds. -/
def getTimeNow (tp : Timespec) : Option Int64 := do
  let seconds ← int64Of (tp.tvSec.toInt * nanosecondsPerSecond.toInt)
  int64Of (seconds.toInt + tp.tvNsec.toInt)

/-- `get_local_diff`; `unixTime` is `std::time(NULL)`. -/
def getLocalDiff (unixTime : Int64) (tp : Timespec) : Option Int64 := do
  let unixSecondNum := unixTime.toInt32
  let tickSecondNum := ((← getTimeNow tp) / nanosecondsPerSecond).toInt32
  let diff ← int32Of (unixSecondNum.toInt - tickSecondNum.toInt)
  int64Of (diff.toInt * nanosecondsPerSecond.toInt)

structure NanoTimer where
  secDiff : Int64

/-- The constructor; `socketDiff` is what `get_socket_diff` returns, if it does not throw. -/
def NanoTimer.create (socketDiff : Option Int64) (unixTime : Int64) (tp : Timespec) : Option NanoTimer :=
  match socketDiff with
  | some secDiff => some ⟨secDiff⟩
  | none => (getLocalDiff unixTime tp).map NanoTimer.mk

/-- `NanoTimer::getNano` -/
def NanoTimer.getNano (timer : NanoTimer) (tp : Timespec) : Option Int64 := do
  let nano ← getTimeNow tp
  int64Of (nano.toInt + timer.secDiff.toInt)

/-! ### Anchoring -/

/-- **The timer shows the unix time** at which it was made, and goes on as the monotonic clock does. -/
structure NanoTimer.Anchored (timer : NanoTimer) (unixTime : Int64) (tp : Timespec) : Prop where
  now : ∃ nano, timer.getNano tp = some nano ∧
    unixTime.toInt * 10 ^ 9 ≤ nano.toInt ∧ nano.toInt < (unixTime.toInt + 1) * 10 ^ 9
  /-- as long as the time can be represented -/
  later : ∀ tp' m m' nano, getTimeNow tp = some m → getTimeNow tp' = some m' → m ≤ m' →
    timer.getNano tp = some nano → nano.toInt + (m'.toInt - m.toInt) < 2 ^ 63 →
      ∃ nano', timer.getNano tp' = some nano' ∧ nano'.toInt = nano.toInt + (m'.toInt - m.toInt)

variable {unixTime m nano : Int64} {tp : Timespec} {timer : NanoTimer}

theorem NanoTimer.getNano_iff (hm : getTimeNow tp = some m) :
    timer.getNano tp = some nano ↔ nano.toInt = m.toInt + timer.secDiff.toInt := by
  unfold NanoTimer.getNano
  rw [hm]
  exact int64Of_eq_some

theorem NanoTimer.getNano_isSome (hm : getTimeNow tp = some m) (hlo : -2 ^ 63 ≤ m.toInt + timer.secDiff.toInt)
    (hhi : m.toInt + timer.secDiff.toInt < 2 ^ 63) :
    ∃ nano, timer.getNano tp = some nano ∧ nano.toInt = m.toInt + timer.secDiff.toInt := by
  obtain ⟨nano, -, hnano⟩ := exists_int64Of hlo hhi
  exact ⟨nano, (NanoTimer.getNano_iff hm).mpr hnano, hnano⟩

theorem toInt_seconds (h0 : 0 ≤ m) : (m / nanosecondsPerSecond).toInt = m.toInt / 10 ^ 9 := by
  have hnonneg : 0 ≤ m.toInt := by simpa using Int64.le_iff_toInt_le.mp h0
  have hsec : nanosecondsPerSecond.toInt = 10 ^ 9 := rfl
  rw [Int64.toInt_div_of_ne_right _ _ (by decide), hsec, Int.tdiv_eq_ediv_of_nonneg hnonneg]

/-- The seconds of the two clocks, each without the same multiple of `2 ^ 32`, and their difference is an
`int`. -/
structure SameWindow (unixSeconds tickSeconds : ℤ) : Prop where
  window : (unixSeconds + 2 ^ 31) / 2 ^ 32 = (tickSeconds + 2 ^ 31) / 2 ^ 32
  low : -2 ^ 31 ≤ unixSeconds - tickSeconds
  high : unixSeconds - tickSeconds < 2 ^ 31

/-- The difference that is taken is the true one exactly in the same window. -/
theorem getLocalDiff_iff (hm : getTimeNow tp = some m) (h0 : 0 ≤ m) {d : Int64}
    (hd : d.toInt = (unixTime.toInt - m.toInt / 10 ^ 9) * 10 ^ 9) :
    getLocalDiff unixTime tp = some d ↔ SameWindow unixTime.toInt (m.toInt / 10 ^ 9) := by
  have hunix := toInt_toInt32_eq unixTime
  have htick := toInt_toInt32_eq (m / nanosecondsPerSecond)
  rw [toInt_seconds h0] at htick
  have hsec : nanosecondsPerSecond.toInt = 10 ^ 9 := rfl
  unfold getLocalDiff
  rw [hm]
  simp only [Option.bind_eq_bind, Option.bind_some, Option.bind_eq_some_iff, int32Of_eq_some, int64Of_eq_some]
  constructor
  · rintro ⟨diff, hdiff, hmul⟩
    have hlo := diff.le_toInt
    have hhi := diff.toInt_lt
    rw [hd, hsec] at hmul
    exact ⟨by omega, by omega, by omega⟩
  · rintro ⟨hwindow, hlow, hhigh⟩
    obtain ⟨diff, -, hdiff⟩ := exists_int32Of hlow hhigh
    refine ⟨diff, by omega, ?_⟩
    rw [hd, hdiff, hsec]

/-- A timer that shows the unix time has taken the true difference. -/
theorem NanoTimer.Anchored.secDiff_eq (ha : timer.Anchored unixTime tp) (hm : getTimeNow tp = some m)
    (hcreate : getLocalDiff unixTime tp = some timer.secDiff) :
    timer.secDiff.toInt = (unixTime.toInt - m.toInt / 10 ^ 9) * 10 ^ 9 := by
  obtain ⟨nano, hnano, hlo, hhi⟩ := ha.now
  rw [NanoTimer.getNano_iff hm] at hnano
  -- the difference is a multiple of a second
  have hsec : nanosecondsPerSecond.toInt = 10 ^ 9 := rfl
  unfold getLocalDiff at hcreate
  rw [hm] at hcreate
  simp only [Option.bind_eq_bind, Option.bind_some, Option.bind_eq_some_iff, int64Of_eq_some, hsec] at hcreate
  obtain ⟨diff, -, hmul⟩ := hcreate
  omega

/-- **A timer that is made without a page service shows the unix time exactly when narrowing the two numbers
of seconds takes the same off both, their difference is an `int`, and the time can be represented.** -/
theorem anchored_iff (unixTime m : Int64) (tp : Timespec) (hm : getTimeNow tp = some m) (h0 : 0 ≤ m)
    (hunix : 0 ≤ unixTime) :
    (∃ timer, NanoTimer.create none unixTime tp = some timer ∧ timer.Anchored unixTime tp) ↔
      SameWindow unixTime.toInt (m.toInt / 10 ^ 9) ∧ unixTime.toInt * 10 ^ 9 + m.toInt % 10 ^ 9 < 2 ^ 63 := by
  have hu : 0 ≤ unixTime.toInt := by simpa using Int64.le_iff_toInt_le.mp hunix
  have hmn : 0 ≤ m.toInt := by simpa using Int64.le_iff_toInt_le.mp h0
  have hmlt := m.toInt_lt
  constructor
  · rintro ⟨timer, hcreate, ha⟩
    obtain ⟨d, hdiff, rfl⟩ := Option.map_eq_some_iff.mp hcreate
    have hd := ha.secDiff_eq hm hdiff
    obtain ⟨nano, hnano, -⟩ := ha.now
    rw [NanoTimer.getNano_iff hm] at hnano
    have hnanolt := nano.toInt_lt
    exact ⟨(getLocalDiff_iff hm h0 hd).mp hdiff, by omega⟩
  · rintro ⟨hw, hlt⟩
    have hlow := hw.low
    have hhigh := hw.high
    obtain ⟨d, -, hd⟩ : ∃ d, int64Of ((unixTime.toInt - m.toInt / 10 ^ 9) * 10 ^ 9) = some d ∧
        d.toInt = (unixTime.toInt - m.toInt / 10 ^ 9) * 10 ^ 9 := exists_int64Of (by omega) (by omega)
    have hdiff := (getLocalDiff_iff hm h0 hd).mpr hw
    obtain ⟨timer, rfl⟩ : ∃ timer : NanoTimer, d = timer.secDiff := ⟨⟨d⟩, rfl⟩
    refine ⟨timer, Option.map_eq_some_iff.mpr ⟨timer.secDiff, hdiff, rfl⟩, ?_, ?_⟩
    · have hlo : -2 ^ 63 ≤ m.toInt + timer.secDiff.toInt := by omega
      obtain ⟨nano, hget, hnano⟩ := NanoTimer.getNano_isSome hm hlo (by omega)
      exact ⟨nano, hget, by omega, by omega⟩
    · intro tp' m₁ m' nano hm₁ hm' hle hget hnano
      obtain rfl := Option.some.inj (hm.symm.trans hm₁)
      rw [NanoTimer.getNano_iff hm] at hget
      have hle' := Int64.le_iff_toInt_le.mp hle
      have hlo : -2 ^ 63 ≤ m'.toInt + timer.secDiff.toInt := by omega
      obtain ⟨nano', hget', hnano'⟩ := NanoTimer.getNano_isSome hm' hlo (by omega)
      exact ⟨nano', hget', by omega⟩

/-- On 9 September 2001, on a machine that has been up for 100.5 seconds. -/
theorem anchored_iff_2001 :
    (∃ timer, NanoTimer.create none 1000000000 ⟨100, 500000000⟩ = some timer ∧
        timer.Anchored 1000000000 ⟨100, 500000000⟩) ↔
      SameWindow (1000000000 : Int64).toInt ((100500000000 : Int64).toInt / 10 ^ 9) ∧
        (1000000000 : Int64).toInt * 10 ^ 9 + (100500000000 : Int64).toInt % 10 ^ 9 < 2 ^ 63 :=
  anchored_iff 1000000000 100500000000 ⟨100, 500000000⟩ (by decide +kernel) (by decide) (by decide)

/-- On 19 January 2038 the seconds do not fit in an `int`: the time is negative. -/
theorem not_anchored_2038 :
    ¬ ∃ timer, NanoTimer.create none 2147483648 ⟨0, 0⟩ = some timer ∧ timer.Anchored 2147483648 ⟨0, 0⟩ := by
  rintro ⟨timer, hcreate, ha⟩
  have hdiff : NanoTimer.create none 2147483648 ⟨0, 0⟩ = some ⟨-2147483648000000000⟩ := by
    have hlocal : getLocalDiff 2147483648 ⟨0, 0⟩ = some (-2147483648000000000) := by decide +kernel
    exact congrArg (Option.map NanoTimer.mk) hlocal
  obtain rfl := Option.some.inj (hdiff.symm.trans hcreate)
  obtain ⟨nano, hnano, hlo, -⟩ := ha.now
  have hnow : getTimeNow ⟨0, 0⟩ = some 0 := by decide +kernel
  rw [NanoTimer.getNano_iff hnow] at hnano
  rw [hnano] at hlo
  exact absurd hlo (by decide +kernel)

end Yijinjing
