import ProcProcessTable.DecimalText
import ProcProcessTable.Scanf

/-!
# The number of a Perl string

Perl reads a number off the front of a string: digits, a fraction, an exponent, and
whatever follows is passed over.  As an integer, digits and a fraction with nothing but
blanks behind them are taken exactly, without the fraction.  Anything else becomes a
double first, the one next to the value, and then an integer: what does not fit becomes
the greatest unsigned number, whose bits are those of -1, or the least signed one.

`iv_natural` says that a plain number is read as it is.
-/

namespace Perl

open DecimalText (natural natural_some_iff)
open Scanf (isSpace)

/-- A row of digits, as a number. -/
def number (digits : List Char) : Nat := Nat.ofDigitChars 10 digits 0

/-- What is read off the front of a string: a minus, the digits in front of the point and
behind it, and the exponent.  The rest is passed over. -/
structure Numeral where
  negative : Bool
  whole : List Char
  fraction : List Char
  exponent : Option Int
  rest : List Char

/-- An exponent: a letter, a sign if there is one, and digits. -/
def readExponent : List Char → Option Int × List Char
  | [] => (none, [])
  | c :: t =>
      if c = 'e' ∨ c = 'E' then
        let (negative, t') := match t with
          | '-' :: t => (true, t)
          | '+' :: t => (false, t)
          | t => (false, t)
        let digits := t'.takeWhile Char.isDigit
        if digits = [] then (none, c :: t)
        else (some (if negative then -(number digits : Int) else number digits),
          t'.dropWhile Char.isDigit)
      else (none, c :: t)

/-- A fraction: a point and digits, which may be none. -/
def readFraction : List Char → List Char × List Char
  | '.' :: t => (t.takeWhile Char.isDigit, t.dropWhile Char.isDigit)
  | t => ([], t)

/-- The number in front of a text. -/
def readUnsigned (negative : Bool) (text : List Char) : Numeral :=
  let (fraction, behind) := readFraction (text.dropWhile Char.isDigit)
  let (exponent, rest) := readExponent behind
  ⟨negative, text.takeWhile Char.isDigit, fraction, exponent, rest⟩

def readNumeral : List Char → Numeral
  | '-' :: t => readUnsigned true t
  | t => readUnsigned false t

/-- The quotient, rounded to the nearest number, and halves to the even one. -/
def divNearest (n d : Nat) : Nat :=
  if d < 2 * (n % d) ∨ (2 * (n % d) = d ∧ n / d % 2 = 1) then n / d + 1 else n / d

/-- The integer part of the double next to a quotient. -/
def truncDouble (n d : Nat) : Nat :=
  let whole := n / d
  if 2 ^ 53 ≤ whole then
    let ulp := 2 ^ (whole.log2 - 52)
    divNearest n (d * ulp) * ulp
  else
    -- a double below 1 has 53 binary places, or more where it is less than a half
    let places := if whole = 0 then 53 else 52 - whole.log2
    divNearest (n * 2 ^ places) d / 2 ^ places

/-- The scaled value as a double, without what is behind the point. -/
def Numeral.truncated (x : Numeral) : Nat :=
  let exponent := x.exponent.getD 0 - x.fraction.length
  truncDouble (number (x.whole ++ x.fraction) * 10 ^ exponent.toNat) (10 ^ (-exponent).toNat)

/-- Nothing but digits, perhaps a fraction, and blanks. -/
def Numeral.isDecimal (x : Numeral) : Bool := x.exponent = none && x.rest.all isSpace

/-- Without its sign. -/
def Numeral.magnitude (x : Numeral) : Nat :=
  if x.isDecimal ∧ number x.whole < 2 ^ 64 then number x.whole else x.truncated

/-- `SvIV`. -/
def iv (text : List Char) : Int :=
  let x := readNumeral text
  if x.negative then max (-(x.magnitude : Int)) (-2 ^ 63)
  else (Int64.ofNat (min x.magnitude (2 ^ 64 - 1))).toInt

theorem readUnsigned_natural (negative : Bool) {text : List Char} {n : Nat}
    (h : natural text = some n) :
    readUnsigned negative text = ⟨negative, text, [], none, []⟩ ∧ number text = n := by
  obtain ⟨-, hall, hvalue⟩ := natural_some_iff.mp h
  have htake : text.takeWhile Char.isDigit = text := List.takeWhile_eq_self_iff.mpr hall
  have hdrop : text.dropWhile Char.isDigit = [] := List.dropWhile_eq_nil_iff.mpr hall
  refine ⟨?_, hvalue⟩
  rw [readUnsigned, hdrop, htake]
  rfl

/-- **A plain number is read as it is**, with a minus or without one. -/
theorem iv_natural {text : List Char} {n : Nat} (h : natural text = some n) (hn : n < 2 ^ 63) :
    iv text = n ∧ iv ('-' :: text) = -n := by
  have hmagnitude : ∀ negative, (readUnsigned negative text).magnitude = n := by
    intro negative
    obtain ⟨hread, hvalue⟩ := readUnsigned_natural negative h
    rw [hread, Numeral.magnitude, hvalue, if_pos ⟨rfl, by omega⟩]
  have hminus : readNumeral text = readUnsigned false text := by
    unfold readNumeral
    split
    · exact absurd ((natural_some_iff.mp h).2.1 '-' List.mem_cons_self) (by decide)
    · rfl
  constructor
  · have hread := (readUnsigned_natural false h).1
    have hsmall : min n (2 ^ 64 - 1) = n := by omega
    rw [iv, hminus, hmagnitude false, hread, hsmall]
    exact Int64.toInt_ofNat_of_lt hn
  · have hread := (readUnsigned_natural true h).1
    have hminus' : readNumeral ('-' :: text) = readUnsigned true text := rfl
    rw [iv, hminus', hmagnitude true, hread, if_pos rfl]
    omega

/-- An exponent counts, a letter that begins none does not, and a double may be rounded up. -/
example : iv "15e1".toList = 150 ∧ iv "9e 1".toList = 9 ∧ iv "1e-5".toList = 0 ∧
    iv "1e+20".toList = -1 ∧ iv "-1e20".toList = -2 ^ 63 ∧
    iv "0.99999999999999999999".toList = 0 ∧ iv "0.99999999999999999999e0".toList = 1 := by
  decide

end Perl
