import ProcProcessTable.LinuxScrapers

/-!
# The elapsed time behind pctcpu

`calc_prec` divides the cpu time of a process by the seconds since it started,
`time(NULL) - prs->start_time`.  The start time is unsigned, so the difference
is, and nothing is tested before the division: a process that started in the
present second has a difference of zero, and one that starts after the present
time, when the clock was set back, a difference that has wrapped.

The difference is the elapsed time as a number modulo `2 ^ 64` (`elapsed_modEq`),
which decides both cases; `elapsed_real_iff` is the exact condition.
-/

namespace Linux

open CText

/-- `time(NULL) - prs->start_time`. -/
def elapsed (k : Kernel) (prs : Scraped) : UInt64 := k.time.toUInt64 - prs.startTime

/-- What `calc_prec` divides by: the percentage it prints is that of the cpu time
in the elapsed time. -/
theorem calcPrec_pctcpu {g : Globals} {fp : FloatOps} {k : Kernel} {formatStr : Mem}
    {prs : Scraped} {out : Mem × Scraped} (h : calcPrec g fp k formatStr prs = .ok out) :
    out.2.pctcpu = overwrite prs.pctcpu 0
      ((fp.pctcpuText (prs.utime + prs.stime) (elapsed k prs)).take (LENGTH_PCTCPU - 1) ++ [nul]) := by
  unfold calcPrec at h
  dsimp only at h
  split at h
  · split at h
    · rw [← Except.ok.inj h]
      rfl
    · cases h
  · rw [← Except.ok.inj h]
    rfl

/-- The divisor behind `fixup_stat_values`; none when that divides by zero
itself. -/
def divisor (g : Globals) (fp : FloatOps) (k : Kernel) (formatStr : Mem) (prs : Scraped) :
    Option UInt64 :=
  if g.systemHertz = 0 then none else some (elapsed k (fixupStatValues g fp formatStr prs).2)

/-- The time the process started, in seconds. -/
def startSeconds (g : Globals) (prs : Scraped) : Int :=
  ((prs.startTime.toNat / g.systemHertz.toNat : Nat) : Int) + g.bootTime.toInt

/-- A difference that has wrapped around. -/
def Wrapped (d : UInt64) (x : Int) : Prop := ∃ n : Nat, 0 < n ∧ (d.toNat : Int) = x + n * 2 ^ 64

/-- The divisor is a real elapsed time: for a start time that is not after the
present time it is the difference, and not zero; for one that is, it has not
wrapped. -/
def RealElapsed (now start : Int) (d : UInt64) : Prop :=
  (start ≤ now → d ≠ 0 ∧ (d.toNat : Int) = now - start) ∧
    (now < start → ¬ Wrapped d (now - start))

/-- A signed number, taken as an unsigned one. -/
theorem toUInt64_eq_emod (x : Int64) : (x.toUInt64.toNat : Int) = x.toInt % 2 ^ 64 := by
  have hbits : x.toInt = if 2 * x.toUInt64.toNat < 2 ^ 64 then (x.toUInt64.toNat : Int)
      else (x.toUInt64.toNat : Int) - (2 ^ 64 : Nat) := BitVec.toInt_eq_toNat_cond x.toBitVec
  have hlt := x.toUInt64.toNat_lt
  split at hbits <;> omega

/-- The start time `fixup_stat_values` leaves. -/
theorem fixup_startTime (g : Globals) (fp : FloatOps) (formatStr : Mem) (prs : Scraped) :
    ((fixupStatValues g fp formatStr prs).2.startTime.toNat : Int) = startSeconds g prs % 2 ^ 64 := by
  have hstart : (fixupStatValues g fp formatStr prs).2.startTime =
      prs.startTime / g.systemHertz.toUInt64 + g.bootTime.toUInt64 := by
    unfold fixupStatValues
    cases stateOf prs.stateC <;> rfl
  have hboot := toUInt64_eq_emod g.bootTime
  rw [hstart, UInt64.toNat_add, UInt64.toNat_div, UInt32.toNat_toUInt64, startSeconds]
  omega

/-- **The divisor is the elapsed time modulo `2 ^ 64`.** -/
theorem elapsed_modEq (g : Globals) (fp : FloatOps) (k : Kernel) (formatStr : Mem)
    (prs : Scraped) :
    ((elapsed k (fixupStatValues g fp formatStr prs).2).toNat : Int) =
      (k.time.toInt - startSeconds g prs) % 2 ^ 64 := by
  have hnow := toUInt64_eq_emod k.time
  have hstart := fixup_startTime g fp formatStr prs
  have hlt := (fixupStatValues g fp formatStr prs).2.startTime.toNat_lt
  rw [elapsed, UInt64.toNat_sub]
  omega

/-- A difference that has wrapped is huge, unless the start lies out of reach of
a signed clock. -/
theorem elapsed_huge (g : Globals) (fp : FloatOps) (k : Kernel) (formatStr : Mem) {prs : Scraped}
    (hfuture : k.time.toInt < startSeconds g prs)
    (hreach : startSeconds g prs ≤ k.time.toInt + 2 ^ 63) :
    2 ^ 63 ≤ (elapsed k (fixupStatValues g fp formatStr prs).2).toNat := by
  have hmod := elapsed_modEq g fp k formatStr prs
  omega

/-- A start time is not before the least number of a `long long`. -/
theorem startSeconds_ge (g : Globals) (prs : Scraped) : -2 ^ 63 ≤ startSeconds g prs := by
  have hboot := Int64.le_toInt g.bootTime
  have hjiffies := Int.natCast_nonneg (prs.startTime.toNat / g.systemHertz.toNat)
  rw [startSeconds]
  exact hboot.trans (Int.le_add_of_nonneg_left hjiffies)

/-- **When the divisor is a real elapsed time**: when the process started before
the present second, by a clock that ticks. -/
theorem elapsed_real_iff (g : Globals) (fp : FloatOps) (k : Kernel) (formatStr : Mem)
    (prs : Scraped) :
    (∃ d, divisor g fp k formatStr prs = some d ∧
        RealElapsed k.time.toInt (startSeconds g prs) d) ↔
      g.systemHertz ≠ 0 ∧ startSeconds g prs < k.time.toInt := by
  have hmod := elapsed_modEq g fp k formatStr prs
  have hmin := startSeconds_ge g prs
  have hmax := Int64.toInt_lt k.time
  unfold divisor
  by_cases hhertz : g.systemHertz = 0
  · rw [if_pos hhertz]
    refine iff_of_false ?_ fun h => h.1 hhertz
    rintro ⟨d, h, _⟩
    cases h
  · rw [if_neg hhertz]
    generalize elapsed k (fixupStatValues g fp formatStr prs).2 = d at hmod
    generalize startSeconds g prs = start at hmod hmin ⊢
    generalize k.time.toInt = now at hmod hmax ⊢
    simp only [Option.some.injEq, exists_eq_left', ne_eq, hhertz, not_false_eq_true, true_and]
    have hrange : start ≤ now → (d.toNat : Int) = now - start := fun hle => by omega
    constructor
    · rintro ⟨hpast, hfuture⟩
      by_contra hnot
      rcases Int.lt_or_eq_of_le (Int.not_lt.mp hnot) with hlt | heq
      · -- the difference has wrapped
        refine hfuture hlt ⟨((d.toNat - (now - start)) / 2 ^ 64).toNat, ?_, ?_⟩ <;> omega
      · -- the process started in the present second
        obtain ⟨hne, hd⟩ := hpast (by omega)
        exact hne (UInt64.toNat_inj.mp (by rw [UInt64.toNat_zero]; omega))
    · intro hlt
      refine ⟨fun hle => ⟨?_, hrange hle⟩, fun h => absurd h (by omega)⟩
      rintro rfl
      have hzero := hrange hle
      rw [UInt64.toNat_zero] at hzero
      omega

/-- The record of a process that started 100 jiffies behind the boot. -/
def startedRecord : Scraped := { Scraped.zero with startTime := 100 }

/-- A system whose clock reads `time`. -/
def clockAt (time : Int64) : Kernel :=
  ⟨fun _ => none, fun _ => true, fun _ => none, fun _ => none, time⟩

/-- A clock of 100 ticks a second, and a boot at second 1000. -/
def hundredHertz : Globals := ⟨1000, 4096, 0, 100⟩

/-- Floating-point results that nothing depends on. -/
def noFloat : FloatOps := ⟨fun x _ => x, fun x _ => x, fun _ _ => [], fun _ _ => []⟩

/-- **Two divisors that are no elapsed time**: zero in the second in which the
process started, and `2 ^ 64 - 1` when the clock was set back by a second. -/
theorem elapsed_not_real :
    (divisor hundredHertz noFloat (clockAt 1001) [] startedRecord = some 0 ∧
      ¬ ∃ d, divisor hundredHertz noFloat (clockAt 1001) [] startedRecord = some d ∧
        RealElapsed (clockAt 1001).time.toInt (startSeconds hundredHertz startedRecord) d) ∧
    divisor hundredHertz noFloat (clockAt 1000) [] startedRecord = some (-1) ∧
      ¬ ∃ d, divisor hundredHertz noFloat (clockAt 1000) [] startedRecord = some d ∧
        RealElapsed (clockAt 1000).time.toInt (startSeconds hundredHertz startedRecord) d := by
  have hstart : startSeconds hundredHertz startedRecord = 1001 := by decide
  have hsame : divisor hundredHertz noFloat (clockAt 1001) [] startedRecord = some 0 := by decide
  have hback : divisor hundredHertz noFloat (clockAt 1000) [] startedRecord = some (-1) := by
    decide
  rw [hstart]
  refine ⟨⟨hsame, ?_⟩, hback, ?_⟩
  · rintro ⟨d, hd, hreal⟩
    rw [hsame] at hd
    exact (hreal.1 (by decide)).1 (Option.some.inj hd).symm
  · rintro ⟨d, hd, hreal⟩
    rw [hback] at hd
    refine hreal.2 (by decide) ⟨1, Nat.zero_lt_one, ?_⟩
    rw [← Option.some.inj hd]
    decide

end Linux
