import ProcProcessTable.BlessIntoProc

/-!
# The numbers of scalars

A scalar holds an integer, or a `double` that `newSVnv` made of a `long`.  A `long` that is
read from a slot of which an argument of 4 bytes filled the lower half only has anything
in its upper half.

`newSVnv_half` says when such a `long` is the argument all the same, and
`newSVnv_half_inj` that no rounding hides the upper half.
-/

namespace Xs

/-- The number a scalar holds. -/
def SV.number : SV → Option Int
  | .iv n => some n
  | .uv n => some n
  | .nv x => some x
  | _ => none

/-- Numbers below `2 ^ 53` are their own rounding. -/
theorem roundDouble_of_lt {n : Nat} (h : n < 2 ^ 53) : roundDouble n = n := by
  have hlog : Nat.log2 n < 53 := by
    by_cases hn : n = 0
    · rw [hn]
      decide
    · exact (Nat.log2_lt hn).mpr h
  have he : Nat.log2 n - 52 = 0 := by omega
  rw [roundDouble, he]
  simp [Nat.mod_one]

/-- Rounding keeps a number of at least `2 ^ 32` there. -/
theorem le_roundDouble {n : Nat} (h : 2 ^ 32 ≤ n) : 2 ^ 32 ≤ roundDouble n := by
  by_cases hsmall : n < 2 ^ 53
  · rw [roundDouble_of_lt hsmall]
    exact h
  · have hn : n ≠ 0 := by omega
    have hlog : 53 ≤ Nat.log2 n := (Nat.le_log2 hn).mpr (Nat.not_lt.mp hsmall)
    have hunit : 2 ^ (Nat.log2 n - 52) * 2 ^ 52 ≤ n := by
      rw [← Nat.pow_add, Nat.sub_add_cancel (by omega)]
      exact Nat.log2_self_le hn
    have hlt := Nat.mod_lt n (Nat.two_pow_pos (Nat.log2 n - 52))
    have hdiv := Nat.div_add_mod' n (2 ^ (Nat.log2 n - 52))
    have hround : n / 2 ^ (Nat.log2 n - 52) * 2 ^ (Nat.log2 n - 52) ≤ roundDouble n := by
      rw [roundDouble]
      apply Nat.mul_le_mul_right
      split
      · exact Nat.le_succ _
      · exact Nat.le_refl _
    omega

/-- A `double` holds every integer below `2 ^ 53` exactly. -/
theorem newSVnv_of_lt {x : Int} (h : x.natAbs < 2 ^ 53) : newSVnv x = .nv x := by
  rw [newSVnv, roundDouble_of_lt h]
  split <;> congr 1 <;> omega

/-- The signed value of a word. -/
theorem toInt_toInt64 (w : UInt64) : w.toInt64.toInt = (w.toNat : Int).bmod (2 ^ 64) :=
  BitVec.toInt_eq_toNat_bmod w.toBitVec

/-- An `int` that was widened is read back as a `long`. -/
theorem newSVnv_widened (x : Int32) :
    (newSVnv x.toInt64.toUInt64.toInt64.toInt).number = some x.toInt := by
  have hlong : x.toInt64.toUInt64.toInt64.toInt = x.toInt := x.toInt_toInt64
  have hlo := x.le_toInt
  have hhi := x.toInt_lt
  rw [hlong, newSVnv_of_lt (by omega), SV.number]

/-- An unsigned 4-byte number is read back as a `long` exactly when the upper
half of its slot is zero. -/
theorem newSVnv_half (upper low : UInt32) :
    (newSVnv (UInt64.ofNat (upper.toNat * 2 ^ 32 + low.toNat)).toInt64.toInt).number =
        some (low.toNat : Int) ↔ upper = 0 := by
  have hupper := upper.toNat_lt
  have hlow := low.toNat_lt
  have hword : (UInt64.ofNat (upper.toNat * 2 ^ 32 + low.toNat)).toNat =
      upper.toNat * 2 ^ 32 + low.toNat := by
    rw [UInt64.toNat_ofNat']
    exact Nat.mod_eq_of_lt (by omega)
  have hzero : upper = 0 ↔ upper.toNat = 0 := by
    rw [← UInt32.toNat_inj]
    rfl
  rw [toInt_toInt64, hword, hzero]
  generalize upper.toNat = u at *
  generalize low.toNat = l at *
  constructor
  · intro h
    by_contra hne
    -- the rounded number is at least `2 ^ 32`, or negative
    have hbig : 0 ≤ ((u * 2 ^ 32 + l : Nat) : Int).bmod (2 ^ 64) ∨ l = 0 →
        2 ^ 32 ≤ (((u * 2 ^ 32 + l : Nat) : Int).bmod (2 ^ 64)).natAbs := by
      intro hsign
      rw [Int.bmod_def] at hsign ⊢
      split at hsign <;> rename_i hhalf
      · rw [if_pos hhalf]
        omega
      · rw [if_neg hhalf]
        omega
    rw [newSVnv, SV.number, Option.some.injEq] at h
    split at h
    · have hround := le_roundDouble (hbig (Or.inr (by omega)))
      omega
    · have hround := le_roundDouble (hbig (Or.inl (Int.not_lt.mp ‹_›)))
      omega
  · rintro rfl
    have hsmall : ((0 * 2 ^ 32 + l : Nat) : Int).bmod (2 ^ 64) = l := by
      rw [Int.bmod_def]
      split <;> omega
    rw [hsmall, newSVnv_of_lt (by omega), SV.number]

/-- Rounding moves a number below `2 ^ 64` by at most `2 ^ 11`. -/
theorem roundDouble_near {n : Nat} (h : n < 2 ^ 64) :
    roundDouble n ≤ n + 2 ^ 11 ∧ n ≤ roundDouble n + 2 ^ 11 := by
  have hexp : Nat.log2 n - 52 ≤ 11 := by
    by_cases hn : n = 0
    · rw [hn]
      decide
    · have hlog := (Nat.log2_lt hn).mpr h
      omega
  have hunit : 2 ^ (Nat.log2 n - 52) ≤ 2 ^ 11 := Nat.pow_le_pow_right (by decide) hexp
  have hdiv := Nat.div_add_mod' n (2 ^ (Nat.log2 n - 52))
  have hlt := Nat.mod_lt n (Nat.two_pow_pos (Nat.log2 n - 52))
  rw [roundDouble]
  split
  · rw [Nat.succ_mul]
    omega
  · omega

/-- Numbers that lie more than `2 ^ 12` apart are different as `double`s. -/
theorem newSVnv_ne {x y : Int} (hx : x.natAbs < 2 ^ 64) (hy : y.natAbs < 2 ^ 64)
    (hfar : 2 ^ 12 < x - y) : newSVnv x ≠ newSVnv y := by
  obtain ⟨hx₁, hx₂⟩ := roundDouble_near hx
  obtain ⟨hy₁, hy₂⟩ := roundDouble_near hy
  intro h
  have hnv := SV.nv.inj h
  split at hnv <;> split at hnv <;> omega

/-- **The upper half of a slot shows** in the `long` that is read from it. -/
theorem newSVnv_half_inj (upper upper' low : UInt32) :
    newSVnv (UInt64.ofNat (upper.toNat * 2 ^ 32 + low.toNat)).toInt64.toInt =
        newSVnv (UInt64.ofNat (upper'.toNat * 2 ^ 32 + low.toNat)).toInt64.toInt ↔
      upper = upper' := by
  have hlow := low.toNat_lt
  have hword : ∀ u : UInt32, (UInt64.ofNat (u.toNat * 2 ^ 32 + low.toNat)).toNat =
      u.toNat * 2 ^ 32 + low.toNat := by
    intro u
    have hu := u.toNat_lt
    rw [UInt64.toNat_ofNat']
    exact Nat.mod_eq_of_lt (by omega)
  have hsigned : ∀ u : Nat, u < 2 ^ 32 →
      (((u * 2 ^ 32 + low.toNat : Nat) : Int).bmod (2 ^ 64)).natAbs < 2 ^ 64 := by
    intro u hu
    rw [Int.bmod_def]
    split <;> omega
  -- two different slots lie at least `2 ^ 32` apart
  have hfar : ∀ u u' : Nat, u < 2 ^ 32 → u' < 2 ^ 32 → u ≠ u' →
      2 ^ 12 < ((u * 2 ^ 32 + low.toNat : Nat) : Int).bmod (2 ^ 64) -
          ((u' * 2 ^ 32 + low.toNat : Nat) : Int).bmod (2 ^ 64) ∨
        2 ^ 12 < ((u' * 2 ^ 32 + low.toNat : Nat) : Int).bmod (2 ^ 64) -
          ((u * 2 ^ 32 + low.toNat : Nat) : Int).bmod (2 ^ 64) := by
    intro u u' hu hu' hne
    rw [Int.bmod_def, Int.bmod_def]
    split <;> split <;> omega
  refine ⟨fun h => ?_, fun h => by rw [h]⟩
  rw [toInt_toInt64, toInt_toInt64, hword, hword] at h
  have hu := hsigned upper.toNat upper.toNat_lt
  have hu' := hsigned upper'.toNat upper'.toNat_lt
  by_contra hne
  rcases hfar upper.toNat upper'.toNat upper.toNat_lt upper'.toNat_lt
    (fun heq => hne (UInt32.toNat_inj.mp heq)) with hlt | hlt
  · exact newSVnv_ne hu hu' hlt h
  · exact newSVnv_ne hu' hu hlt h.symm

end Xs
