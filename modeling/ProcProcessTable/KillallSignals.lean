import ProcProcessTable.DecimalText
import ProcProcessTable.Killall
import Mathlib.Data.List.TakeWhile

/-!
# What is taken for a signal

`is_sig` of `Proc::Killall` has two regular expressions.  The one for names spans the
whole string.  The one for numbers has no `$`: it takes the digits in front, and what
stands behind them is not looked at.

`\d` matches digits beyond ASCII as well, in a string that has any, but `==` reads the
ASCII ones only.  Which those digits are depends on the Unicode tables of Perl, so they are
a parameter here; `isSig` of `Killall` is the case of a string of bytes.

`accepts_only_iff` says which strings are judged as they should be.
-/

namespace Killall

open DecimalText (natural natural_some_iff)

/-- What `\d` matches. -/
structure DigitClass where
  test : Char → Bool
  ascii : ∀ c : Char, c.toNat < 128 → test c = c.isDigit

/-- The digits of a string of bytes. -/
def bytes : DigitClass := ⟨Char.isDigit, fun _ _ => rfl⟩

/-- What `==` makes of a row of digits: the number that the ASCII digits in front stand for.  The
numbers in `$Config{sig_num}` are those of an `int`, so that the comparison is exact. -/
def numify (digits : List Char) : Nat := Nat.ofDigitChars 10 (digits.takeWhile Char.isDigit) 0

/-- `-?`, and what stands behind it. -/
def optionalMinus : List Char → Bool × List Char
  | '-' :: t => (true, t)
  | t => (false, t)

namespace DigitClass

variable (d : DigitClass)

/-- `/^-?(\d+)/`: whether there is a minus, and the digits. -/
def matchNumber (sig : List Char) : Option (Bool × List Char) :=
  let digits := (optionalMinus sig).2.takeWhile d.test
  if digits = [] then none else some ((optionalMinus sig).1, digits)

/-- `is_sig`. -/
def isSig (config : Config) : Option (List Char) → Bool
  | none => false
  | some sig =>
      match d.matchNumber sig with
      | some (_, digits) => (config.map Prod.snd).any (· = numify digits)
      | none => if matchName sig then (config.map Prod.fst).any (· = sig) else false

/-- `killall`, called with two arguments. -/
def killall (pid : Int) (config : Config) (system : System) (signal : Option (List Char))
    (pat : List Char → Bool) (table : List Process) : Except String Run :=
  if d.isSig config signal then table.foldlM (visit pid system pat) ⟨[], 0, none⟩
  else .error ("killall: Unsupported signal: " ++ String.ofList (signal.getD []))

end DigitClass

theorem numify_of_digits {digits : List Char} (h : ∀ c ∈ digits, c.isDigit = true) :
    numify digits = Nat.ofDigitChars 10 digits 0 := by
  rw [numify, List.takeWhile_eq_self_iff.mpr h]

namespace DigitClass

variable {d : DigitClass} {sig : List Char}

theorem matchNumber_some_iff {neg : Bool} {digits : List Char} :
    d.matchNumber sig = some (neg, digits) ↔ digits ≠ [] ∧ (optionalMinus sig).1 = neg ∧
      (optionalMinus sig).2.takeWhile d.test = digits := by
  unfold matchNumber
  dsimp only
  constructor
  · intro h
    split at h
    · cases h
    · next hne =>
        obtain ⟨hneg, hdigits⟩ := Prod.mk.inj (Option.some.inj h)
        exact ⟨hdigits ▸ hne, hneg, hdigits⟩
  · intro ⟨hne, hneg, hdigits⟩
    rw [hneg, hdigits, if_neg hne]

theorem test_of_isDigit {c : Char} (h : c.isDigit = true) : d.test c = true := by
  have hlt : c.toNat < 128 := by
    simp only [Char.isDigit, Bool.and_eq_true, decide_eq_true_eq, UInt32.le_iff_toNat_le] at h
    exact Nat.lt_of_le_of_lt h.2 (by decide)
  rw [d.ascii c hlt]
  exact h

end DigitClass

/-! ### Strings without digits beyond ASCII -/

section

variable {d : DigitClass} {sig : List Char}

theorem takeWhile_test (h : ∀ c ∈ sig, c.toNat < 128) :
    sig.takeWhile d.test = sig.takeWhile Char.isDigit := by
  induction sig with
  | nil => rfl
  | cons c t ih =>
      have hc := d.ascii c (h c List.mem_cons_self)
      have ht := ih fun x hx => h x (List.mem_cons_of_mem c hx)
      rw [List.takeWhile_cons, List.takeWhile_cons, hc, ht]

theorem optionalMinus_subset {c : Char} (h : c ∈ (optionalMinus sig).2) : c ∈ sig := by
  unfold optionalMinus at h
  split at h
  · exact List.mem_cons_of_mem _ h
  · exact h

/-- **`isSig` is the case of such strings.** -/
theorem isSig_ascii (config : Config) (h : ∀ c ∈ sig, c.toNat < 128) :
    d.isSig config (some sig) = isSig config (some sig) := by
  have hdigits : d.matchNumber sig = matchNumber sig := by
    unfold DigitClass.matchNumber
    rw [takeWhile_test fun c hc => h c (optionalMinus_subset hc)]
    rfl
  unfold DigitClass.isSig isSig
  dsimp only
  rw [hdigits]
  cases hmatch : matchNumber sig with
  | none => rfl
  | some found =>
      obtain ⟨neg, digits⟩ := found
      obtain ⟨-, -, htaken⟩ := (@DigitClass.matchNumber_some_iff bytes sig neg digits).mp hmatch
      have hall : ∀ c ∈ digits, c.isDigit = true := by
        rw [← htaken]
        exact fun c hc => List.mem_takeWhile_imp hc
      dsimp only
      rw [numify_of_digits hall]

theorem killall_ascii (pid : Int) (config : Config) (system : System)
    (pat : List Char → Bool) (table : List Process) (h : ∀ c ∈ sig, c.toNat < 128) :
    d.killall pid config system (some sig) pat table =
      killall pid config system (some sig) pat table := by
  unfold DigitClass.killall killall
  rw [isSig_ascii config h]

end

/-! ### What a signal is -/

/-- The whole text is a decimal number, negated or not. -/
def Denotes (text : List Char) (n : Nat) : Prop :=
  natural text = some n ∨ ∃ digits, text = '-' :: digits ∧ natural digits = some n

/-- A number of the list or a name of the list.  Undef is neither. -/
def IsSignal (config : Config) : Option (List Char) → Prop
  | none => False
  | some text => (∃ n, Denotes text n ∧ n ∈ config.map Prod.snd) ∨ text ∈ config.map Prod.fst

namespace DigitClass

variable (d : DigitClass) (config : Config)

/-- **Only signals are accepted**, and `killall` croaks on everything else before it looks at a
process. -/
structure AcceptsOnly (sig : Option (List Char)) : Prop where
  accepted : d.isSig config sig = true ↔ IsSignal config sig
  croaks : ¬ IsSignal config sig → ∀ pid system pat table,
    d.killall pid config system sig pat table =
      .error ("killall: Unsupported signal: " ++ String.ofList (sig.getD []))

/-- It begins as a number of the list does, whatever stands behind the digits. -/
def Listed (text : List Char) : Prop :=
  ∃ neg digits, d.matchNumber text = some (neg, digits) ∧ numify digits ∈ config.map Prod.snd

variable {d config} {text : List Char}

/-- A number is what the first regular expression takes of it. -/
theorem matchNumber_of_denotes {n : Nat} (h : Denotes text n) :
    ∃ neg digits, d.matchNumber text = some (neg, digits) ∧ numify digits = n := by
  have hwhole : ∀ digits, natural digits = some n →
      digits ≠ [] ∧ digits.takeWhile d.test = digits ∧ numify digits = n := by
    intro digits hnatural
    obtain ⟨hne, hall, hvalue⟩ := natural_some_iff.mp hnatural
    refine ⟨hne, List.takeWhile_eq_self_iff.mpr fun c hc => test_of_isDigit (hall c hc), ?_⟩
    rw [numify_of_digits hall]
    exact hvalue
  rcases h with hnatural | ⟨digits, rfl, hnatural⟩
  · obtain ⟨hne, htake, hvalue⟩ := hwhole text hnatural
    have hminus : optionalMinus text = (false, text) := by
      unfold optionalMinus
      split
      · exact absurd ((natural_some_iff.mp hnatural).2.1 '-' List.mem_cons_self) (by decide)
      · rfl
    refine ⟨false, text, matchNumber_some_iff.mpr ⟨hne, ?_, ?_⟩, hvalue⟩
    · rw [hminus]
    · rw [hminus]
      exact htake
  · obtain ⟨hne, htake, hvalue⟩ := hwhole digits hnatural
    exact ⟨true, digits, matchNumber_some_iff.mpr ⟨hne, rfl, htake⟩, hvalue⟩

/-- A name begins with a letter. -/
theorem head_of_matchName (h : matchName text = true) :
    ∃ c rest, text = c :: rest ∧ c.isUpper = true := by
  cases text with
  | nil => cases h
  | cons c rest =>
      refine ⟨c, rest, rfl, ?_⟩
      unfold matchName at h
      split at h
      · next c' x xs heq =>
          have hc : c = c' := by
            split at heq
            · cases rest with
              | nil => cases heq
              | cons y ys => exact (List.cons.inj heq).1
            · exact (List.cons.inj heq).1
          rw [hc]
          exact (Bool.and_eq_true_iff.mp h).1
      · cases h

/-- No string is taken by both regular expressions. -/
theorem matchNumber_of_matchName (h : matchName text = true) : d.matchNumber text = none := by
  obtain ⟨c, rest, rfl, hupper⟩ := head_of_matchName h
  have hbounds : 65 ≤ c.toNat ∧ c.toNat ≤ 90 := by
    have hrange : c.val ≥ 65 ∧ c.val ≤ 90 := of_decide_eq_true hupper
    exact hrange
  have hminus : optionalMinus (c :: rest) = (false, c :: rest) := by
    unfold optionalMinus
    split
    · next heq =>
        rw [(List.cons.inj heq).1] at hupper
        exact absurd hupper (by decide)
    · rfl
  have htest : d.test c = false := by
    rw [d.ascii c (by omega)]
    simp only [Char.isDigit, Bool.and_eq_false_iff, decide_eq_false_iff_not,
      UInt32.le_iff_toNat_le]
    right
    show ¬ c.toNat ≤ 57
    omega
  unfold matchNumber
  rw [hminus]
  dsimp only
  rw [List.takeWhile_cons_of_neg (by rw [htest]; exact Bool.false_ne_true), if_pos rfl]

/-- **What is accepted.** -/
theorem isSig_some_iff : d.isSig config (some text) = true ↔
    d.Listed config text ∨ (matchName text = true ∧ text ∈ config.map Prod.fst) := by
  unfold isSig Listed
  dsimp only
  cases hmatch : d.matchNumber text with
  | some found =>
      obtain ⟨neg, digits⟩ := found
      have hname : ¬ (matchName text = true ∧ text ∈ config.map Prod.fst) := by
        intro ⟨hname, _⟩
        rw [matchNumber_of_matchName hname] at hmatch
        cases hmatch
      rw [or_iff_left hname]
      simp
  | none =>
      simp

/-- A number is listed exactly when it is in the list. -/
theorem listed_iff_of_denotes {n : Nat} (h : Denotes text n) :
    d.Listed config text ↔ n ∈ config.map Prod.snd := by
  obtain ⟨neg, digits, hmatch, hvalue⟩ := @matchNumber_of_denotes d text n h
  constructor
  · intro ⟨neg', digits', hmatch', hmem⟩
    rw [hmatch] at hmatch'
    obtain ⟨-, rfl⟩ := Prod.mk.inj (Option.some.inj hmatch')
    rw [← hvalue]
    exact hmem
  · intro hmem
    exact ⟨neg, digits, hmatch, hvalue.symm ▸ hmem⟩

/-- `killall` croaks on what `is_sig` does not accept. -/
theorem acceptsOnly_iff_isSig {sig : Option (List Char)} :
    d.AcceptsOnly config sig ↔ (d.isSig config sig = true ↔ IsSignal config sig) :=
  ⟨AcceptsOnly.accepted, fun h => ⟨h, fun hnone _ _ _ _ => if_neg fun hsig => hnone (h.mp hsig)⟩⟩

theorem isSig_eq_isSignal_iff :
    (d.isSig config (some text) = true ↔ IsSignal config (some text)) ↔
      (d.Listed config text → (∃ n, Denotes text n) ∨ text ∈ config.map Prod.fst) ∧
        (text ∈ config.map Prod.fst → matchName text = true ∨ d.Listed config text) := by
  rw [isSig_some_iff]
  constructor
  · intro haccepted
    refine ⟨fun hlisted => ?_, fun hname => ?_⟩
    · rcases haccepted.mp (Or.inl hlisted) with ⟨n, hdenotes, -⟩ | hname
      · exact Or.inl ⟨n, hdenotes⟩
      · exact Or.inr hname
    · rcases haccepted.mpr (Or.inr hname) with hlisted | hmatch
      · exact Or.inr hlisted
      · exact Or.inl hmatch.1
  · intro ⟨hbehind, hshape⟩
    constructor
    · intro haccepted
      rcases haccepted with hlisted | ⟨-, hname⟩
      · rcases hbehind hlisted with ⟨n, hdenotes⟩ | hname
        · exact Or.inl ⟨n, hdenotes, (listed_iff_of_denotes hdenotes).mp hlisted⟩
        · exact Or.inr hname
      · exact Or.inr hname
    · intro hsignal
      rcases hsignal with ⟨n, hdenotes, hmem⟩ | hname
      · exact Or.inl ((listed_iff_of_denotes hdenotes).mpr hmem)
      · rcases hshape hname with hmatch | hlisted
        · exact Or.inr ⟨hmatch, hname⟩
        · exact Or.inl hlisted

/-- Where every name of the list has the form of one, only what stands behind the digits is
misjudged. -/
theorem named_acceptsOnly_iff (hnames : ∀ name ∈ config.map Prod.fst, matchName name = true) :
    d.AcceptsOnly config (some text) ↔ (d.Listed config text → ∃ n, Denotes text n) := by
  rw [acceptsOnly_iff_isSig, isSig_eq_isSignal_iff]
  constructor
  · intro ⟨hbehind, _⟩ hlisted
    apply (hbehind hlisted).resolve_right
    intro hname
    obtain ⟨neg, digits, hmatch, -⟩ := hlisted
    rw [matchNumber_of_matchName (hnames text hname)] at hmatch
    cases hmatch
  · intro hbehind
    exact ⟨fun hlisted => Or.inl (hbehind hlisted), fun hname => Or.inl (hnames text hname)⟩

/-- **Which strings are judged as they should be**: those that do not go on behind the digits of a
number of the list, unless they are names, and if they are, have the form of a name. -/
theorem accepts_only_iff (d : DigitClass) (config : Config) (sig : Option (List Char)) :
    d.AcceptsOnly config sig ↔ ∀ text, sig = some text →
      (d.Listed config text → (∃ n, Denotes text n) ∨ text ∈ config.map Prod.fst) ∧
        (text ∈ config.map Prod.fst → matchName text = true ∨ d.Listed config text) := by
  rw [acceptsOnly_iff_isSig]
  cases sig with
  | none => exact iff_of_true (iff_of_false Bool.false_ne_true id) fun text h => by cases h
  | some text =>
      rw [isSig_eq_isSignal_iff]
      constructor
      · intro h text' heq
        obtain rfl := Option.some.inj heq
        exact h
      · intro h
        exact h text rfl

end DigitClass

/-- **Text behind the digits is accepted**, and the processes are signalled. -/
theorem trailing_text_accepted :
    bytes.isSig sampleConfig (some "9abc".toList) = true ∧
      ¬ bytes.AcceptsOnly sampleConfig (some "9abc".toList) ∧
      ∃ r, bytes.killall 501 sampleConfig (fun _ _ => none) (some "9abc".toList)
          (fun s => s = "xterm".toList) [⟨some 700, some "xterm".toList, none⟩] = .ok r ∧
        r.calls ≠ [] := by
  refine ⟨by decide, fun h => ?_, _, rfl, by decide⟩
  rw [DigitClass.named_acceptsOnly_iff (by decide)] at h
  obtain ⟨n, hnatural | ⟨digits, heq, -⟩⟩ := h ⟨false, "9".toList, rfl, by decide⟩
  · cases hnatural
  · cases heq

end Killall
