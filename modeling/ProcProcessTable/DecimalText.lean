import Mathlib.Algebra.Order.Field.Rat
import Mathlib.Data.Nat.Cast.Order.Field
import Mathlib.Tactic.FieldSimp
import Mathlib.Tactic.Linarith
import Mathlib.Tactic.NormNum
import Mathlib.Tactic.Positivity
import Mathlib.Tactic.Ring

/-!
# Decimal texts

What a text of digits, a point and a sign stands for.  `natural` reads a row of
digits, `value` a decimal fraction, and `clock` minutes and seconds with one; all of
them take the whole text or nothing.

`value_point` reads a text back that was put together, and `value_lt` is the bound
that its length gives.
-/

namespace DecimalText

/-- A row of digits. -/
def natural (ds : List Char) : Option Nat :=
  if ds ≠ [] ∧ ds.all Char.isDigit = true then some (Nat.ofDigitChars 10 ds 0) else none

/-- What stands before the first mark, and what behind it. -/
def splitAt? (mark : Char) (text : List Char) : Option (List Char × List Char) :=
  match text.dropWhile (· ≠ mark) with
  | [] => none
  | _ :: back => some (text.takeWhile (· ≠ mark), back)

/-- Digits behind a point. -/
def fraction (ds : List Char) : Option ℚ := (natural ds).map fun n : Nat => (n : ℚ) / 10 ^ ds.length

/-- A decimal fraction without a sign. -/
def unsigned (text : List Char) : Option ℚ :=
  match splitAt? '.' text with
  | none => (natural text).map fun n : Nat => (n : ℚ)
  | some (whole, frac) => (natural whole).bind fun w : Nat => (fraction frac).map fun f : ℚ => (w : ℚ) + f

/-- A decimal fraction. -/
def value : List Char → Option ℚ
  | [] => none
  | c :: text => if c = '-' then (unsigned text).map fun q => -q else unsigned (c :: text)

/-- Minutes, seconds, and the fraction behind them. -/
def clock (text : List Char) : Option (Nat × Nat × ℚ) :=
  (splitAt? ':' text).bind fun parts =>
    (splitAt? '.' parts.2).bind fun seconds =>
      (natural parts.1).bind fun m =>
        (natural seconds.1).bind fun s => (fraction seconds.2).map fun f : ℚ => (m, s, f)

/-! ### Rows of digits -/

section

variable {ds : List Char} {n : Nat}

theorem natural_some_iff :
    natural ds = some n ↔
      ds ≠ [] ∧ (∀ c ∈ ds, c.isDigit = true) ∧ Nat.ofDigitChars 10 ds 0 = n := by
  unfold natural
  split
  · next h => rw [Option.some.injEq, and_iff_right h.1, and_iff_right (List.all_eq_true.mp h.2)]
  · next h =>
      exact iff_of_false (Option.some_ne_none n).symm fun hall =>
        h ⟨hall.1, List.all_eq_true.mpr hall.2.1⟩

/-- **The digits of a number are read back.** -/
theorem natural_toDigits (n : Nat) : natural (Nat.toDigits 10 n) = some n :=
  natural_some_iff.mpr ⟨Nat.toDigits_ne_nil,
    fun _ => Nat.isDigit_of_mem_toDigits (by decide) (by decide), Nat.ofDigitChars_ten_toDigits⟩

/-- A zero in front changes nothing. -/
theorem natural_zero_cons (h : natural ds = some n) : natural ('0' :: ds) = some n := by
  obtain ⟨-, hdigits, rfl⟩ := natural_some_iff.mp h
  refine natural_some_iff.mpr ⟨List.cons_ne_nil _ _, ?_, ?_⟩
  · intro c hc
    rcases List.mem_cons.mp hc with rfl | htail
    · rfl
    · exact hdigits c htail
  · rw [Nat.ofDigitChars_cons]
    rfl

/-- The number of digits. -/
theorem length_toDigits {k : Nat} (hlo : 10 ^ k ≤ n) (hhi : n < 10 ^ (k + 1)) (hk : k ≠ 0) :
    (Nat.toDigits 10 n).length = k + 1 := by
  have hle := (Nat.length_toDigits_le_iff (by decide) (Nat.succ_pos k)).mpr hhi
  have hgt := mt (Nat.length_toDigits_le_iff (by decide) (Nat.pos_of_ne_zero hk)).mp
    (Nat.not_lt_of_le hlo)
  omega

theorem not_mem_of_natural (h : natural ds = some n) {c : Char} (hc : c.isDigit = false) :
    c ∉ ds := by
  intro hmem
  have hdigit := (natural_some_iff.mp h).2.1 c hmem
  rw [hc] at hdigit
  cases hdigit

theorem ofDigitChars_lt (ds : List Char) (hdigits : ∀ c ∈ ds, c.isDigit = true) :
    Nat.ofDigitChars 10 ds 0 < 10 ^ ds.length := by
  induction ds with
  | nil => exact Nat.one_pos
  | cons c ds ih =>
      have hrest := ih fun c' hc' => hdigits c' (List.mem_cons_of_mem _ hc')
      have hdigit := Char.isDigit_iff_toNat.mp (hdigits c List.mem_cons_self)
      rw [Nat.ofDigitChars_cons, Nat.ofDigitChars_eq_ofDigitChars_zero, List.length_cons, pow_succ]
      have hone : 10 * 0 + (c.toNat - '0'.toNat) ≤ 9 := by
        have hzero : '0'.toNat = 48 := rfl
        have hnine : '9'.toNat = 57 := rfl
        omega
      have hmul := Nat.mul_le_mul_left (10 ^ ds.length) hone
      omega

/-- **The length bounds the number.** -/
theorem natural_lt (h : natural ds = some n) : n < 10 ^ ds.length := by
  obtain ⟨-, hdigits, rfl⟩ := natural_some_iff.mp h
  exact ofDigitChars_lt ds hdigits

end

/-! ### Marks -/

section

variable {mark : Char} {text front back : List Char}

theorem splitAt?_append (h : mark ∉ front) (back : List Char) :
    splitAt? mark (front ++ mark :: back) = some (front, back) := by
  have hall : ∀ c ∈ front, decide (c ≠ mark) = true := by
    intro c hc
    exact decide_eq_true fun heq => h (heq ▸ hc)
  have hstop : decide (mark ≠ mark) = false := decide_eq_false (not_not_intro rfl)
  unfold splitAt?
  rw [List.dropWhile_append_of_pos hall, List.takeWhile_append_of_pos hall,
    List.dropWhile_cons_of_neg (by rw [hstop]; exact Bool.noConfusion),
    List.takeWhile_cons_of_neg (by rw [hstop]; exact Bool.noConfusion), List.append_nil]

theorem exists_mark (h : mark ∈ text) : ∃ front back, text = front ++ mark :: back ∧ mark ∉ front := by
  induction text with
  | nil => cases h
  | cons c text ih =>
      by_cases hc : mark = c
      · exact ⟨[], text, by rw [hc]; rfl, List.not_mem_nil⟩
      · obtain ⟨front, back, rfl, hfront⟩ := ih ((List.mem_cons.mp h).resolve_left hc)
        refine ⟨c :: front, back, rfl, ?_⟩
        rw [List.mem_cons, not_or]
        exact ⟨hc, hfront⟩

end

/-! ### Decimal fractions -/

section

variable {whole frac : List Char} {w f : Nat}

theorem fraction_eq (h : natural frac = some f) :
    fraction frac = some ((f : ℚ) / 10 ^ frac.length) := by
  rw [fraction, h, Option.map_some]

/-- A fraction is a part of one. -/
theorem fraction_lt_one {q : ℚ} (h : fraction frac = some q) : q < 1 := by
  obtain ⟨f, hf, rfl⟩ := Option.map_eq_some_iff.mp h
  have hlt : (f : ℚ) < 10 ^ frac.length := by exact_mod_cast natural_lt hf
  rw [div_lt_one (by positivity)]
  exact hlt

theorem fraction_nonneg {q : ℚ} (h : fraction frac = some q) : 0 ≤ q := by
  obtain ⟨f, hf, rfl⟩ := Option.map_eq_some_iff.mp h
  positivity

/-- **Two rows of digits with a point between them.** -/
theorem unsigned_point (hw : natural whole = some w) (hf : natural frac = some f) :
    unsigned (whole ++ '.' :: frac) = some ((w : ℚ) + f / 10 ^ frac.length) := by
  unfold unsigned
  rw [splitAt?_append (not_mem_of_natural hw rfl)]
  dsimp only
  rw [hw, fraction_eq hf]
  rfl

theorem value_of_unsigned {text : List Char} (hsign : '-' ∉ text) (hne : text ≠ []) :
    value text = unsigned text := by
  obtain ⟨c, text, rfl⟩ := List.exists_cons_of_ne_nil hne
  have hfirst : c ≠ '-' := fun heq => hsign (heq ▸ List.mem_cons_self)
  exact if_neg hfirst

theorem value_point (hw : natural whole = some w) (hf : natural frac = some f) :
    value (whole ++ '.' :: frac) = some ((w : ℚ) + f / 10 ^ frac.length) := by
  rw [value_of_unsigned _ (List.append_ne_nil_of_right_ne_nil whole (List.cons_ne_nil _ _)),
    unsigned_point hw hf]
  rw [List.mem_append, List.mem_cons, not_or, not_or]
  exact ⟨not_mem_of_natural hw rfl, by decide, not_mem_of_natural hf rfl⟩

/-- The same with a sign. -/
theorem value_neg_point (hw : natural whole = some w) (hf : natural frac = some f) :
    value ('-' :: (whole ++ '.' :: frac)) = some (-((w : ℚ) + f / 10 ^ frac.length)) := by
  rw [value, if_pos rfl, unsigned_point hw hf]
  rfl

/-- The text of an integer: its digits, with a sign before them if it is negative. -/
theorem toList_toString (x : Int) :
    (toString x).toList =
      if x < 0 then '-' :: Nat.toDigits 10 x.natAbs else Nat.toDigits 10 x.natAbs := by
  cases x with
  | ofNat n =>
      have hpos : ¬ Int.ofNat n < 0 := Int.not_lt.mpr (Int.natCast_nonneg n)
      rw [if_neg hpos]
      exact Nat.toList_repr
  | negSucc n =>
      rw [if_pos (Int.negSucc_lt_zero n), Int.natAbs_negSucc, ← Nat.toList_repr]
      show ("-" ++ Nat.repr (n + 1)).toList = _
      rw [String.toList_append]
      rfl

/-- The length of the text of an integer, without a sign and with one. -/
theorem length_toString_le {x : Int} {k : Nat} (h : x.natAbs < 10 ^ (k + 1)) :
    (toString x).toList.length ≤ k + 2 ∧ (0 ≤ x → (toString x).toList.length ≤ k + 1) := by
  have hdigits := (Nat.length_toDigits_le_iff (by decide) (Nat.succ_pos k)).mpr h
  rw [toList_toString]
  split
  · next hneg =>
      refine ⟨?_, fun hpos => absurd hneg (Int.not_lt.mpr hpos)⟩
      rw [List.length_cons]
      omega
  · exact ⟨Nat.le_succ_of_le hdigits, fun _ => hdigits⟩

/-- A number that is not negative is read back, and one that is negative is not a row of
digits. -/
theorem natural_toList_toString (x : Int) :
    natural (toString x).toList = if x < 0 then none else some x.toNat := by
  rw [toList_toString]
  split
  · cases hsign : natural ('-' :: Nat.toDigits 10 x.natAbs) with
    | none => rfl
    | some n => exact absurd List.mem_cons_self (not_mem_of_natural hsign (c := '-') rfl)
  · next hpos =>
      rw [natural_toDigits]
      exact congrArg some (by omega)

theorem not_mem_toString {c : Char} (hdigit : c.isDigit = false) (hsign : c ≠ '-') (x : Int) :
    c ∉ (toString x).toList := by
  have hfree : c ∉ Nat.toDigits 10 x.natAbs :=
    not_mem_of_natural (natural_toDigits x.natAbs) hdigit
  rw [toList_toString]
  split
  · rw [List.mem_cons, not_or]
    exact ⟨hsign, hfree⟩
  · exact hfree

/-- **An integer with zeros behind a point.** -/
theorem value_intZeros (x : Int) (k : Nat) :
    value ((toString x).toList ++ '.' :: List.replicate (k + 1) '0') = some (x : ℚ) := by
  have hzeros : natural (List.replicate (k + 1) '0') = some 0 := by
    refine natural_some_iff.mpr ⟨List.cons_ne_nil _ _, ?_, ?_⟩
    · intro c hc
      rw [List.eq_of_mem_replicate hc]
      rfl
    · rw [Nat.ofDigitChars_replicate_zero, Nat.mul_zero]
  have hdigits := natural_toDigits x.natAbs
  rw [toList_toString]
  split
  · next hneg =>
      have habs : (x : ℚ) = -(x.natAbs : ℚ) := by
        rw [Nat.cast_natAbs, abs_of_neg hneg, Int.cast_neg, neg_neg]
      rw [List.cons_append, value_neg_point hdigits hzeros, habs]
      simp
  · next hpos =>
      have habs : (x : ℚ) = (x.natAbs : ℚ) := by
        rw [Nat.cast_natAbs, abs_of_nonneg (Int.not_lt.mp hpos)]
      rw [value_point hdigits hzeros, habs]
      simp

theorem unsigned_lt {text : List Char} {q : ℚ} (h : unsigned text = some q) (hpoint : '.' ∈ text) :
    0 ≤ q ∧ q < 10 ^ (text.length - 2) := by
  obtain ⟨whole, frac, rfl, hfree⟩ := exists_mark hpoint
  unfold unsigned at h
  rw [splitAt?_append hfree] at h
  dsimp only at h
  obtain ⟨w, hw, h⟩ := Option.bind_eq_some_iff.mp h
  obtain ⟨f, hf, rfl⟩ := Option.map_eq_some_iff.mp h
  have hnonneg := fraction_nonneg hf
  have hone := fraction_lt_one hf
  have hlt : (w : ℚ) + 1 ≤ 10 ^ whole.length := by exact_mod_cast natural_lt hw
  have hfrac : frac ≠ [] := by
    intro hnil
    rw [hnil] at hf
    cases hf
  have hlen : whole.length ≤ (whole ++ '.' :: frac).length - 2 := by
    have hpos := List.length_pos_iff.mpr hfrac
    rw [List.length_append, List.length_cons]
    omega
  have hpow : (10 : ℚ) ^ whole.length ≤ 10 ^ ((whole ++ '.' :: frac).length - 2) :=
    pow_le_pow_right₀ (by norm_num) hlen
  have hwhole : (0 : ℚ) ≤ w := Nat.cast_nonneg w
  constructor <;> linarith

/-- **The length bounds the value**: of a text with a point one character is the point, and one
at least stands behind it. -/
theorem value_lt {text : List Char} {q : ℚ} (h : value text = some q) (hpoint : '.' ∈ text) :
    q < 10 ^ (text.length - 2) := by
  cases text with
  | nil => cases h
  | cons c text =>
      rw [value] at h
      split at h
      · next hsign =>
          obtain ⟨r, hr, rfl⟩ := Option.map_eq_some_iff.mp h
          have hmem : '.' ∈ text := (List.mem_cons.mp hpoint).resolve_left (by rw [hsign]; decide)
          have hnonneg := (unsigned_lt hr hmem).1
          have hpos : (0 : ℚ) < 10 ^ ((c :: text).length - 2) := by positivity
          linarith
      · exact (unsigned_lt h hpoint).2

end

/-! ### Minutes and seconds -/

/-- **A clock that was put together is read back.** -/
theorem clock_eq {minutes seconds frac : List Char} {m s f : Nat} (hm : natural minutes = some m)
    (hs : natural seconds = some s) (hf : natural frac = some f) :
    clock (minutes ++ ':' :: (seconds ++ '.' :: frac)) =
      some (m, s, (f : ℚ) / 10 ^ frac.length) := by
  unfold clock
  rw [splitAt?_append (not_mem_of_natural hm rfl), Option.bind_some,
    splitAt?_append (not_mem_of_natural hs rfl), Option.bind_some, hm, Option.bind_some, hs,
    Option.bind_some, fraction_eq hf]
  rfl

/-- A sign among the seconds is no clock. -/
theorem clock_none {minutes seconds frac : List Char} (hm : ':' ∉ minutes) (hs : '.' ∉ seconds)
    (hsign : '-' ∈ seconds) : clock (minutes ++ ':' :: (seconds ++ '.' :: frac)) = none := by
  have hnatural : natural seconds = none := by
    cases hread : natural seconds with
    | none => rfl
    | some n => exact absurd hsign (not_mem_of_natural hread rfl)
  unfold clock
  rw [splitAt?_append hm, Option.bind_some, splitAt?_append hs, Option.bind_some, hnatural]
  cases natural minutes with
  | none => rfl
  | some m => rfl

end DecimalText
