import ProcProcessTable.PublishedNumbers
import ProcProcessTable.WindowsOwners

/-!
# The start time of a Windows process

`to_time_t` of `MSWin32.c` takes the 1970 mark from a tick count since 1601, and
rounds to seconds by way of the remainder.  The mark is written in hexadecimal,
and is 10000 ticks, one millisecond, later than 1970.

`toTimeT_nearest_iff` says which tick counts are rounded to the nearest second all
the same, and `start_nearest_iff` what that makes of the published start times.
-/

namespace Windows

open CText Xs ProcessTable CarriedState

/-- The 100 ns ticks from 1601 to 1970. -/
def ticks1970 : Nat := 116444736000000000

/-- The ticks in the two halves of a `FILETIME`. -/
def ticks (dwHighDateTime dwLowDateTime : UInt32) : Nat :=
  dwHighDateTime.toNat * 2 ^ 32 + dwLowDateTime.toNat

/-- The seconds since 1970, to the nearest, halves up. -/
def nearestSecond (n : Nat) : Nat := (n - ticks1970 + 5000000) / 10000000

/-- A time that `to_time_t` can be asked for: not before 1970, and a `long` holds its
seconds. -/
structure Representable (n : Nat) : Prop where
  since1970 : ticks1970 ≤ n
  seconds : nearestSecond n < 2 ^ 31

/-- The ticks behind a half second, or behind the start, that the mark takes away. -/
def Shifted (n : Nat) : Prop := (n - ticks1970 + 5000000) % 10000000 < 10000

instance (n : Nat) : Decidable (Shifted n) := inferInstanceAs (Decidable (_ < _))

/-! ### The arithmetic of the function -/

section

variable {high low : UInt32}

/-- A number that a `long long` holds does not wrap. -/
theorem bmod_longLong {x : Int} (hlo : -2 ^ 63 ≤ x) (hhi : x < 2 ^ 63) : x.bmod (2 ^ 64) = x := by
  apply Int.bmod_eq_of_le <;> omega

/-- Nor does one that a `long` holds. -/
theorem bmod_long {x : Int} (hlo : -2 ^ 31 ≤ x) (hhi : x < 2 ^ 31) : x.bmod (2 ^ 32) = x := by
  apply Int.bmod_eq_of_le <;> omega

theorem toInt_ofLow {n : Nat} {x : UInt64} (hx : x.toNat = n) (hn : n < 2 ^ 63) :
    x.toInt64.toInt = n := by
  rw [toInt_toInt64, hx]
  exact bmod_longLong (by omega) (by omega)

/-- The two halves make the ticks. -/
theorem toInt_ticks (h : ticks high low < 2 ^ 63) :
    ((high.toUInt64 <<< 32).toInt64 + low.toUInt64.toInt64).toInt = ticks high low := by
  have hhigh := high.toNat_lt
  have hshifted : high.toNat * 2 ^ 32 < 2 ^ 63 := Nat.lt_of_le_of_lt (Nat.le_add_right _ _) h
  have hlow : low.toNat < 2 ^ 63 := Nat.lt_of_le_of_lt (Nat.le_add_left _ _) h
  have hshift : (high.toUInt64 <<< 32).toNat = high.toNat * 2 ^ 32 := by
    have hplaces : (32 : UInt64).toNat % 64 = 32 := rfl
    rw [UInt64.toNat_shiftLeft, UInt32.toNat_toUInt64, Nat.shiftLeft_eq, hplaces]
    exact Nat.mod_eq_of_lt (hshifted.trans (by decide))
  rw [Int64.toInt_add, toInt_ofLow hshift hshifted, toInt_ofLow low.toNat_toUInt64 hlow,
    ← Int.natCast_add]
  exact bmod_longLong (by omega) (Int.ofNat_lt.mpr h)

/-- The quotient and the remainder of C, rounded towards zero, and the nearest second that
they make. -/
theorem quotient_remainder {x : Int} (hlo : -10000 ≤ x) (hhi : x < 2 ^ 31 * 10000000 - 5000000) :
    ∃ q r, x.tdiv 10000000 = q ∧ x.tmod 10000000 = r ∧ (0 ≤ q ∧ q < 2 ^ 31) ∧
      (-10000 ≤ r ∧ r < 10000000) ∧ q + (r + 5000000) / 10000000 = (x + 5000000) / 10000000 := by
  refine ⟨_, _, rfl, rfl, ?_⟩
  rcases Int.lt_or_le x 0 with hneg | hpos
  · -- before the mark there is no whole second
    have habs : x = -(-x) := (Int.neg_neg x).symm
    have hquot : x.tdiv 10000000 = 0 := by
      rw [habs, Int.neg_tdiv, Int.tdiv_eq_ediv_of_nonneg (by omega)]
      omega
    have hrem := Int.mul_tdiv_add_tmod x 10000000
    rw [hquot] at hrem ⊢
    omega
  · rw [Int.tdiv_eq_ediv_of_nonneg hpos, Int.tmod_eq_emod_of_nonneg hpos]
    omega

/-- **What the function computes**, when nothing wraps: it rounds to the nearest second from a
mark that is 10000 ticks late. -/
theorem toInt_toTimeT {x : Int} (hx : x = ticks high low - (ticks1970 + 10000))
    (hlo : -10000 ≤ x) (hhi : x < 2 ^ 31 * 10000000 - 5000000) :
    (toTimeT high low).toInt = (x + 5000000) / 10000000 := by
  have hmark : (ticks1970 : Int) = 116444736000000000 := rfl
  have hticks := @toInt_ticks high low (by omega)
  have hx' : x = (ticks high low : Int) - 116444736000010000 := by omega
  have hlongLong : -2 ^ 63 ≤ x ∧ x < 2 ^ 63 := by omega
  obtain ⟨q, r, hq, hr, hqBounds, hrBounds, hnearest⟩ := quotient_remainder hlo hhi
  have hsecond : -2 ^ 63 ≤ q + (r + 5000000) / 10000000 ∧ q + (r + 5000000) / 10000000 < 2 ^ 63 ∧
      -2 ^ 31 ≤ (x + 5000000) / 10000000 ∧ (x + 5000000) / 10000000 < 2 ^ 31 := by
    omega
  have hhalfway : -2 ^ 31 ≤ r + 5000000 ∧ r + 5000000 < 2 ^ 31 ∧ 0 ≤ r + 5000000 ∧
      (r + 5000000) / 10000000 < 2 := by
    omega
  have hfactor : FACTOR.toInt = 116444736000010000 := by decide
  have hpersec : NSPERSEC.toInt = 10000000 := by decide
  have hhalf : (NSPERSEC / 2).toInt = 5000000 := by decide
  clear hmark hx
  unfold toTimeT
  dsimp only
  generalize (high.toUInt64 <<< 32).toInt64 + low.toUInt64.toInt64 = sum at hticks ⊢
  have hsub : (sum - FACTOR).toInt = x := by
    rw [Int64.toInt_sub, hticks, hfactor, ← hx']
    exact bmod_longLong hlongLong.1 hlongLong.2
  generalize sum - FACTOR = since at hsub ⊢
  have hquot : (since / NSPERSEC).toInt = q := by
    rw [Int64.toInt_div, hsub, hpersec, hq]
    exact bmod_longLong (by omega) (by omega)
  generalize since / NSPERSEC = quot at hquot ⊢
  have hrem : (since % NSPERSEC).toInt32.toInt = r := by
    rw [Int64.toInt_toInt32, Int64.toInt_mod, hsub, hpersec, hr]
    exact bmod_long (by omega) (by omega)
  generalize (since % NSPERSEC).toInt32 = rem at hrem ⊢
  have hadd : (rem.toInt64 + NSPERSEC / 2).toInt = r + 5000000 := by
    rw [Int64.toInt_add, Int32.toInt_toInt64, hrem, hhalf]
    exact bmod_longLong (by omega) (by omega)
  generalize rem.toInt64 + NSPERSEC / 2 = half at hadd ⊢
  have hround : half.toInt32.toInt = r + 5000000 := by
    rw [Int64.toInt_toInt32, hadd]
    exact bmod_long hhalfway.1 hhalfway.2.1
  generalize half.toInt32 = rounded at hround ⊢
  have hcarry : (rounded.toInt64 / NSPERSEC).toInt = (r + 5000000) / 10000000 := by
    rw [Int64.toInt_div, Int32.toInt_toInt64, hround, hpersec,
      Int.tdiv_eq_ediv_of_nonneg hhalfway.2.2.1]
    exact bmod_longLong (by omega) (by omega)
  generalize rounded.toInt64 / NSPERSEC = carry at hcarry ⊢
  have hsum : (quot + carry).toInt = (x + 5000000) / 10000000 := by
    rw [Int64.toInt_add, hquot, hcarry, bmod_longLong hsecond.1 hsecond.2.1, hnearest]
  rw [Int64.toInt_toInt32, hsum]
  exact bmod_long hsecond.2.2.1 hsecond.2.2.2

/-- **Which times are rounded to the nearest second**: those that are not within the first
10000 ticks behind a half second. -/
theorem toTimeT_nearest_iff (high low : UInt32) (h : Representable (ticks high low)) :
    (toTimeT high low).toInt = nearestSecond (ticks high low) ↔ ¬ Shifted (ticks high low) := by
  have hmark : ticks1970 = 116444736000000000 := rfl
  obtain ⟨hsince, hseconds⟩ := h
  unfold nearestSecond at hseconds ⊢
  unfold Shifted
  generalize htime : toTimeT high low = time
  have hexact := @toInt_toTimeT high low _ rfl (by omega) (by omega)
  rw [htime] at hexact
  rw [hexact]
  generalize ticks high low = n at hsince hseconds ⊢
  clear hexact htime
  omega

end

/-- A time just behind half a second: the words of 1970 and 5000000 ticks. -/
theorem nearest_witness : (toTimeT 27111902 3584643008).toInt = nearestSecond 116444736007000000 ↔
    ¬ Shifted 116444736007000000 :=
  toTimeT_nearest_iff 27111902 3584643008 ⟨by decide, by decide⟩

/-- **Half a second behind 1970** is second 1, and comes out as second 0. -/
theorem half_second_lost : ¬ ∀ high low : UInt32, Representable (ticks high low) →
    (toTimeT high low).toInt = nearestSecond (ticks high low) := by
  intro hall
  have hone := hall 27111902 3582643008 ⟨by decide, by decide⟩
  exact absurd hone (by decide)

/-! ### The published start times -/

/-- The start time that an entry is called with. -/
def Entry.startTime (e : Entry) : Int32 :=
  match e.process.bind ProcessAnswers.times with
  | some (high, low) => toTimeT high low
  | none => 0

/-- It is published as a number. -/
theorem start_visit (ttydevs : Option HV) (b : Buffers) (e : Entry) :
    ((visit b e).2.object ttydevs "start").bind SV.number = some e.startTime.toInt := by
  have hcall : (visit b e).2 =
      call (getUidFromStringSid (asked b e).stringSid) e e.startTime (asked b e) := by
    unfold asked visit Entry.startTime
    cases e.process with
    | none => rfl
    | some answers => rfl
  have hnodup : ((columns (getUidFromStringSid (asked b e).stringSid) e e.startTime
      (asked b e)).map Column.key).Nodup := (by decide : fieldNames.Nodup)
  have hcol : (⟨'l', "start", [.word e.startTime.toInt64.toUInt64],
      (newSVnv e.startTime.toInt64.toUInt64.toInt64.toInt,
        some e.startTime.toInt64.toUInt64)⟩ : Column) ∈
      columns (getUidFromStringSid (asked b e).stringSid) e e.startTime (asked b e) := by
    simp [columns]
  have hread := storeColumns_of_mem ttydevs HV.empty hnodup hcol
    (show "start" ≠ "ttydev" by decide)
  unfold BlessCall.object
  rw [hcall, made_call]
  show (storeColumns ttydevs _ HV.empty "start").bind SV.number = _
  rw [hread, Option.bind_some]
  exact newSVnv_widened e.startTime

/-- **The start times of a scan.**  Every entry is published, and where the times of its
process were told, its start is the nearest second exactly when it is not shifted. -/
theorem start_nearest_iff (entries : List Entry) (residue : Buffers) (ttydevs : Option HV) :
    List.Forall₂
      (fun e obj => ∀ high low, e.process.bind ProcessAnswers.times = some (high, low) →
        Representable (ticks high low) →
          ((obj "start").bind SV.number = some (nearestSecond (ticks high low) : Int) ↔
            ¬ Shifted (ticks high low)))
      entries ((osGetTable true (some entries) residue).objects ttydevs) := by
  rw [objects_osGetTable]
  induction entries generalizing residue with
  | nil => exact List.Forall₂.nil
  | cons e entries ih =>
      refine List.Forall₂.cons ?_ (ih (visit residue e).1)
      intro high low htimes htime
      rw [start_visit, Option.some.injEq, Entry.startTime, htimes]
      exact toTimeT_nearest_iff high low htime

end Windows
