import ProcProcessTable.CText
import Mathlib.Algebra.Order.Group.Nat

/-!
# The `sscanf` family on decimal text

`scan` interprets a conversion string against a text and returns the values
assigned before the first failure; the number `sscanf` returns is the length
of that list (its `EOF` counts as 0 here).  A numeric conversion reads a
64-bit value through `strtol` or `strtoul`, clamping at the ends of the range;
storing it into a narrower object truncates, which is left to the pointer list
(`assign`).

The main result is `scan_tokens`: a row of blank-separated decimal tokens is
converted token by token, whatever text follows.
-/

namespace Scanf

open CText

/-- `isspace` in the C locale. -/
def isSpace (c : Char) : Bool := c.toNat = 32 || (9 ≤ c.toNat && c.toNat ≤ 13)

/-- The integer conversions. -/
inductive Conv
  | d | u | ld | lu | lld | llu
  deriving DecidableEq, Repr

/-- One directive of a conversion string. -/
inductive Directive
  | space
  | lit (c : Char)
  | char
  | number (k : Conv)
  deriving DecidableEq, Repr

/-- Read a conversion string. -/
def directives : List Char → List Directive
  | '%' :: 'c' :: f => .char :: directives f
  | '%' :: 'd' :: f => .number .d :: directives f
  | '%' :: 'u' :: f => .number .u :: directives f
  | '%' :: 'l' :: 'd' :: f => .number .ld :: directives f
  | '%' :: 'l' :: 'u' :: f => .number .lu :: directives f
  | '%' :: 'l' :: 'l' :: 'd' :: f => .number .lld :: directives f
  | '%' :: 'l' :: 'l' :: 'u' :: f => .number .llu :: directives f
  | c :: f => (if isSpace c then .space else .lit c) :: directives f
  | [] => []

/-- `strtol` and `strtoll`: clamp to a signed 64-bit value. -/
def strtol (neg : Bool) (n : Nat) : Int :=
  if neg then max (-2 ^ 63) (-n) else min n (2 ^ 63 - 1)

/-- `strtoul` and `strtoull`: clamp to an unsigned 64-bit value; a sign
negates modulo `2 ^ 64`. -/
def strtoul (neg : Bool) (n : Nat) : Int :=
  if 2 ^ 64 ≤ n then 2 ^ 64 - 1 else if neg then (-n) % 2 ^ 64 else n

/-- The 64-bit value a conversion produces. -/
def Conv.value (k : Conv) (neg : Bool) (n : Nat) : Int :=
  match k with
  | .d | .ld | .lld => strtol neg n
  | .u | .lu | .llu => strtoul neg n

/-- The optional sign of a number. -/
def scanSign : List Char → Bool × List Char
  | '-' :: t => (true, t)
  | '+' :: t => (false, t)
  | t => (false, t)

/-- The longest signed decimal prefix of a text. -/
def scanInteger (s : List Char) : Option (Bool × Nat × List Char) :=
  let (neg, t) := scanSign s
  let digits := t.takeWhile Char.isDigit
  if digits = [] then none
  else some (neg, Nat.ofDigitChars 10 digits 0, t.dropWhile Char.isDigit)

/-- A value assigned by a conversion. -/
inductive Value
  | chr (c : Char)
  | num (v : Int)
  deriving DecidableEq, Repr

/-- The values assigned before the first directive that fails. -/
def scan : List Directive → List Char → List Value
  | [], _ => []
  | .space :: ds, s => scan ds (s.dropWhile isSpace)
  | .lit c :: ds, s =>
      match s with
      | x :: t => if x = c then scan ds t else []
      | [] => []
  | .char :: ds, s =>
      match s with
      | x :: t => .chr x :: scan ds t
      | [] => []
  | .number k :: ds, s =>
      match scanInteger (s.dropWhile isSpace) with
      | some (neg, n, rest) => .num (k.value neg n) :: scan ds rest
      | none => []

/-- `sscanf` on the string at an address. -/
def sscanf (m : Mem) (format : List Directive) : List Value := scan format (cstr m)

/-- The object behind one pointer argument. -/
abbrev Target (σ : Type) := Value → σ → σ

/-- A pointer to an integer object. -/
def Target.int {σ : Type} (store : Int → σ → σ) : Target σ
  | .num v, s => store v s
  | .chr _, s => s

/-- A pointer to a `char`. -/
def Target.chr {σ : Type} (store : Char → σ → σ) : Target σ
  | .chr c, s => store c s
  | .num _, s => s

/-- A pointer to a local that is never read. -/
def Target.dummy {σ : Type} : Target σ := fun _ s => s

/-- Store the assigned values through the pointer list, in order. -/
def assign {σ : Type} (targets : List (Target σ)) (vals : List Value) (s : σ) : σ :=
  (targets.zip vals).foldl (fun s tv => tv.1 tv.2 s) s

/-- What no pointer of the list writes to is left alone. -/
theorem assign_inv {σ β : Type} (π : σ → β) {targets : List (Target σ)}
    (h : ∀ t ∈ targets, ∀ v s, π (t v s) = π s) (vals : List Value) (s : σ) :
    π (assign targets vals s) = π s := by
  unfold assign
  induction targets generalizing vals s with
  | nil => rfl
  | cons t targets ih =>
      cases vals with
      | nil => rfl
      | cons v vals =>
          rw [List.zip_cons_cons, List.foldl_cons]
          have htail := ih (fun t ht => h t (List.mem_cons_of_mem _ ht)) vals (t v s)
          exact htail.trans (h t List.mem_cons_self v s)

/-- **Pointer lists that share no object** may be stored through in either
order. -/
theorem assign_comm {σ : Type} {targets targets' : List (Target σ)}
    (h : ∀ t ∈ targets, ∀ t' ∈ targets', ∀ v v' s, t v (t' v' s) = t' v' (t v s))
    (vals vals' : List Value) (s : σ) :
    assign targets vals (assign targets' vals' s) = assign targets' vals' (assign targets vals s) := by
  have hone : ∀ t ∈ targets, ∀ v vals' s,
      t v (assign targets' vals' s) = assign targets' vals' (t v s) := by
    intro t ht v
    have hcomm := h t ht
    clear h
    unfold assign
    induction targets' with
    | nil => exact fun _ _ => rfl
    | cons t' targets' ih =>
        intro vals' s
        cases vals' with
        | nil => rfl
        | cons v' vals' =>
            have hrest := ih (fun t' ht' => hcomm t' (List.mem_cons_of_mem _ ht')) vals' (t' v' s)
            rw [hcomm t' List.mem_cons_self v v' s] at hrest
            exact hrest
  clear h
  induction targets generalizing vals s with
  | nil => rfl
  | cons t targets ih =>
      cases vals with
      | nil => rfl
      | cons v vals =>
          have hrest := ih vals (t v s) fun t ht => hone t (List.mem_cons_of_mem _ ht)
          rw [← hone t List.mem_cons_self v vals' s] at hrest
          exact hrest

/-- **An integer object is set by its own conversion**, and keeps its value when
the scan does not come so far. -/
theorem assign_int_at {σ β : Type} (π : σ → β) {before after : List (Target σ)}
    {store : Int → σ → σ} {g : Int → β} (hstore : ∀ v s, π (store v s) = g v)
    (hbefore : ∀ t ∈ before, ∀ v s, π (t v s) = π s) (hafter : ∀ t ∈ after, ∀ v s, π (t v s) = π s)
    (vals : List Value) (s : σ) :
    π (assign (before ++ Target.int store :: after) vals s) =
      match vals[before.length]? with
      | some (.num v) => g v
      | _ => π s := by
  induction before generalizing vals s with
  | nil =>
      cases vals with
      | nil => rfl
      | cons v vals =>
          have hrest := assign_inv π hafter vals (Target.int store v s)
          refine hrest.trans ?_
          cases v with
          | chr c => rfl
          | num v => exact hstore v s
  | cons t before ih =>
      cases vals with
      | nil => rfl
      | cons v vals =>
          have hhead := hbefore t List.mem_cons_self v s
          have htail := ih (fun t ht => hbefore t (List.mem_cons_of_mem _ ht)) vals (t v s)
          rw [hhead] at htail
          exact htail

/-- A conversion string that ends in its only conversion, a number, assigns that
number or nothing. -/
theorem scan_literals_number {ds : List Directive}
    (hds : ∀ d ∈ ds, d = .space ∨ ∃ c, d = .lit c) (k : Conv) (s : List Char) :
    scan (ds ++ [.number k]) s = [] ∨ ∃ v, scan (ds ++ [.number k]) s = [.num v] := by
  induction ds generalizing s with
  | nil =>
      rw [List.nil_append, scan]
      cases scanInteger (s.dropWhile isSpace) with
      | none => exact Or.inl rfl
      | some r => exact Or.inr ⟨_, rfl⟩
  | cons d ds ih =>
      have hrest := ih fun d' hd' => hds d' (List.mem_cons_of_mem _ hd')
      rw [List.cons_append]
      rcases hds d List.mem_cons_self with rfl | ⟨c, rfl⟩
      · rw [scan]
        exact hrest _
      · cases s with
        | nil => exact Or.inl rfl
        | cons x t =>
            rw [scan]
            split
            · exact hrest t
            · exact Or.inl rfl

/-- Digits are not white space. -/
theorem isSpace_of_isDigit {c : Char} (h : c.isDigit = true) : isSpace c = false := by
  simp only [Char.isDigit, Bool.and_eq_true, decide_eq_true_eq, ge_iff_le] at h
  have h1 : 48 ≤ c.toNat := by simpa [UInt32.le_iff_toNat_le] using h.1
  simp only [isSpace, Bool.or_eq_false_iff, decide_eq_false_iff_not, Bool.and_eq_false_imp,
    decide_eq_true_eq]
  omega

/-- A sign is neither a digit nor white space. -/
theorem isSpace_sign : isSpace '-' = false ∧ isSpace '+' = false := by decide

/-- A decimal number as it stands in a text: an optional sign and at least
one digit. -/
structure DecimalToken where
  sign : Option Bool
  digits : List Char
  digits_ne : digits ≠ []
  digits_isDigit : ∀ c ∈ digits, c.isDigit = true

namespace DecimalToken

/-- The sign character; `some true` is a minus. -/
def signText : Option Bool → List Char
  | none => []
  | some true => ['-']
  | some false => ['+']

/-- The token's text. -/
def text (t : DecimalToken) : List Char := signText t.sign ++ t.digits

/-- The token carries a minus sign. -/
def neg (t : DecimalToken) : Bool := t.sign = some true

/-- The token's magnitude. -/
def magnitude (t : DecimalToken) : Nat := Nat.ofDigitChars 10 t.digits 0

/-- The decimal text of an integer, as `printf` writes it. -/
def ofInt (x : Int) : DecimalToken where
  sign := if x < 0 then some true else none
  digits := Nat.toDigits 10 x.natAbs
  digits_ne := by simp
  digits_isDigit := fun _ hc => Nat.isDigit_of_mem_toDigits (by decide) (by decide) hc

@[simp] theorem ofInt_neg (x : Int) : (ofInt x).neg = decide (x < 0) := by
  by_cases h : x < 0 <;> simp [ofInt, neg, h]

@[simp] theorem ofInt_magnitude (x : Int) : (ofInt x).magnitude = x.natAbs :=
  Nat.ofDigitChars_toDigits (by decide) (by decide)

/-- A token starts with no white space. -/
theorem dropWhile_text_append (t : DecimalToken) (rest : List Char) :
    (t.text ++ rest).dropWhile isSpace = t.text ++ rest := by
  obtain ⟨sign, digits, hne, hdig⟩ := t
  cases digits with
  | nil => exact absurd rfl hne
  | cons c digits =>
      have hc := isSpace_of_isDigit (hdig c List.mem_cons_self)
      rcases sign with _ | _ | _ <;>
        simp [text, signText, hc, isSpace_sign]

/-- Every character of a token is a sign or a digit. -/
theorem mem_text {t : DecimalToken} {c : Char} (h : c ∈ t.text) :
    c = '-' ∨ c = '+' ∨ c.isDigit = true := by
  obtain ⟨sign, digits, hne, hdig⟩ := t
  rcases sign with _ | _ | _ <;> simp [text, signText] at h
  · exact Or.inr (Or.inr (hdig c h))
  · exact h.elim (fun h => Or.inr (Or.inl h)) (fun h => Or.inr (Or.inr (hdig c h)))
  · exact h.elim Or.inl (fun h => Or.inr (Or.inr (hdig c h)))

end DecimalToken

/-- The text does not continue a number. -/
def EndsNumber (rest : List Char) : Prop := ∀ c ∈ rest.head?, c.isDigit = false

/-- The digits of a number stop where the following text has none. -/
theorem takeWhile_digits {digits rest : List Char}
    (hdig : ∀ c ∈ digits, c.isDigit = true) (hrest : EndsNumber rest) :
    (digits ++ rest).takeWhile Char.isDigit = digits ∧
      (digits ++ rest).dropWhile Char.isDigit = rest := by
  induction digits with
  | nil =>
      cases rest with
      | nil => simp
      | cons c rest => simp [hrest c rfl]
  | cons c digits ih =>
      have ih' := ih fun x hx => hdig x (List.mem_cons_of_mem _ hx)
      simp [hdig c List.mem_cons_self, ih']

/-- A digit is no sign. -/
theorem scanSign_digit {c : Char} (hc : c.isDigit = true) (t : List Char) :
    scanSign (c :: t) = (false, c :: t) := by
  have h1 : c ≠ '-' := fun h => by simp [h] at hc
  have h2 : c ≠ '+' := fun h => by simp [h] at hc
  simp [scanSign, h1, h2]

/-- A token is read back: its sign, its magnitude, and the text behind it. -/
theorem scanInteger_token (t : DecimalToken) {rest : List Char} (hrest : EndsNumber rest) :
    scanInteger (t.text ++ rest) = some (t.neg, t.magnitude, rest) := by
  have hsign : scanSign (t.text ++ rest) = (t.neg, t.digits ++ rest) := by
    obtain ⟨sign, digits, hne, hdig⟩ := t
    rcases sign with _ | _ | _
    · cases digits with
      | nil => exact absurd rfl hne
      | cons c digits =>
          exact scanSign_digit (hdig c List.mem_cons_self) (digits ++ rest)
    · rfl
    · rfl
  obtain ⟨htake, hdrop⟩ := takeWhile_digits t.digits_isDigit hrest
  simp [scanInteger, hsign, htake, hdrop, t.digits_ne, DecimalToken.magnitude]

/-- One number conversion consumes one token. -/
theorem scan_number_token (k : Conv) (ds : List Directive) (t : DecimalToken)
    {rest : List Char} (hrest : EndsNumber rest) :
    scan (.number k :: ds) (t.text ++ rest) =
      .num (k.value t.neg t.magnitude) :: scan ds rest := by
  simp [scan, t.dropWhile_text_append, scanInteger_token t hrest]

/-- A literal at the end of a format stores nothing, matched or not. -/
theorem scan_space_lit (c : Char) (s : List Char) : scan [.space, .lit c] s = [] := by
  rw [scan]
  cases s.dropWhile isSpace with
  | nil => rfl
  | cons x rest =>
      rw [scan]
      split <;> rfl

/-- A number that was read is read again when text follows that does not
continue it. -/
theorem scanInteger_append {s : List Char} {neg : Bool} {n : Nat} {rest : List Char}
    (h : scanInteger s = some (neg, n, rest)) {more : List Char} (hmore : EndsNumber more) :
    scanInteger (s ++ more) = some (neg, n, rest ++ more) := by
  have hsign : scanSign (s ++ more) = ((scanSign s).1, (scanSign s).2 ++ more) := by
    cases s with
    | nil => cases h
    | cons c s =>
        by_cases hminus : c = '-'
        · subst hminus
          rfl
        · by_cases hplus : c = '+'
          · subst hplus
            rfl
          · rw [List.cons_append, scanSign.eq_3 _ (by simpa using hminus) (by simpa using hplus),
              scanSign.eq_3 _ (by simpa using hminus) (by simpa using hplus)]
            rfl
  have hdigits : ∀ t : List Char, (t ++ more).takeWhile Char.isDigit = t.takeWhile Char.isDigit ∧
      (t ++ more).dropWhile Char.isDigit = t.dropWhile Char.isDigit ++ more := by
    intro t
    induction t with
    | nil =>
        cases more with
        | nil => exact ⟨rfl, rfl⟩
        | cons c more => simp [hmore c rfl]
    | cons c t ih => by_cases hc : c.isDigit = true <;> simp [hc, ih]
  obtain ⟨htake, hdrop⟩ := hdigits (scanSign s).2
  simp only [scanInteger, hsign, htake, hdrop] at h ⊢
  split at h
  · cases h
  · obtain ⟨rfl, rfl, rfl⟩ : _ ∧ _ ∧ _ := by simpa using h
    rw [if_neg ‹_›]

/-- The directives of a row of conversions, each after a blank. -/
def spaced (ks : List Conv) : List Directive := ks.flatMap fun k => [.space, .number k]

/-- A row of conversions assigns numbers only. -/
theorem scan_spaced_num {ks : List Conv} {s : List Char} :
    ∀ v ∈ scan (spaced ks) s, ∃ n, v = .num n := by
  induction ks generalizing s with
  | nil => exact fun v hv => absurd hv List.not_mem_nil
  | cons k ks ih =>
      intro v hv
      have hstep : scan (spaced (k :: ks)) s =
          match scanInteger ((s.dropWhile isSpace).dropWhile isSpace) with
          | some (neg, n, rest) => .num (k.value neg n) :: scan (spaced ks) rest
          | none => [] := rfl
      rw [hstep] at hv
      cases hscan : scanInteger ((s.dropWhile isSpace).dropWhile isSpace) with
      | none =>
          rw [hscan] at hv
          exact absurd hv List.not_mem_nil
      | some out =>
          rw [hscan] at hv
          rcases List.mem_cons.mp hv with rfl | htail
          · exact ⟨_, rfl⟩
          · exact ih v htail

theorem dropWhile_append_left {p : Char → Bool} {s : List Char} (h : s.dropWhile p ≠ [])
    (more : List Char) : (s ++ more).dropWhile p = s.dropWhile p ++ more := by
  rw [List.dropWhile_append, if_neg]
  simpa using h

/-- **A row that was converted whole is converted alike in any text** that does
not continue its last number. -/
theorem scan_spaced_append {ks : List Conv} {s : List Char}
    (h : (scan (spaced ks) s).length = ks.length) {more : List Char} (hmore : EndsNumber more) :
    scan (spaced ks) (s ++ more) = scan (spaced ks) s := by
  induction ks generalizing s with
  | nil => rfl
  | cons k ks ih =>
      have hstep : ∀ t, scan (spaced (k :: ks)) t =
          match scanInteger ((t.dropWhile isSpace).dropWhile isSpace) with
          | some (neg, n, rest) => .num (k.value neg n) :: scan (spaced ks) rest
          | none => [] := fun t => rfl
      rw [hstep] at h
      rw [hstep, hstep]
      cases hint : scanInteger ((s.dropWhile isSpace).dropWhile isSpace) with
      | none =>
          rw [hint] at h
          cases h
      | some out =>
          obtain ⟨neg, n, rest⟩ := out
          rw [hint] at h
          have hsecond : (s.dropWhile isSpace).dropWhile isSpace ≠ [] := by
            intro hnil
            rw [hnil] at hint
            cases hint
          have hfirst : s.dropWhile isSpace ≠ [] := by
            intro hnil
            exact hsecond (by rw [hnil]; rfl)
          rw [dropWhile_append_left hfirst, dropWhile_append_left hsecond,
            scanInteger_append hint hmore]
          exact congrArg (List.cons _) (ih (Nat.succ.inj h))

/-- A row of tokens, each after a blank. -/
def row (ts : List DecimalToken) : List Char := ts.flatMap fun t => ' ' :: t.text

/-- A token with the white space before it. -/
structure SpacedToken where
  blank : List Char
  token : DecimalToken
  blank_ne : blank ≠ []
  blank_isSpace : ∀ c ∈ blank, isSpace c = true

namespace SpacedToken

/-- The text, white space and token. -/
def text (t : SpacedToken) : List Char := t.blank ++ t.token.text

/-- What a conversion makes of the token. -/
def value (t : SpacedToken) (k : Conv) : Int := k.value t.token.neg t.token.magnitude

theorem dropWhile_blank (t : SpacedToken) (rest : List Char) :
    (t.text ++ rest).dropWhile isSpace = t.token.text ++ rest := by
  rw [text, List.append_assoc, List.dropWhile_append_of_pos t.blank_isSpace]
  exact t.token.dropWhile_text_append rest

/-- A spaced token does not continue a number. -/
theorem endsNumber (t : SpacedToken) (rest : List Char) : EndsNumber (t.text ++ rest) := by
  obtain ⟨blank, token, hne, hspace⟩ := t
  cases blank with
  | nil => exact absurd rfl hne
  | cons b blank =>
      intro c hc
      obtain rfl : b = c := Option.some.inj hc
      by_contra hdigit
      have hblank := isSpace_of_isDigit (Bool.not_eq_false _ ▸ hdigit)
      rw [hspace b List.mem_cons_self] at hblank
      cases hblank

/-- Every character of a spaced token is white space, a sign or a digit. -/
theorem mem_text {t : SpacedToken} {c : Char} (h : c ∈ t.text) :
    isSpace c = true ∨ c = '-' ∨ c = '+' ∨ c.isDigit = true := by
  rcases List.mem_append.mp h with h | h
  · exact Or.inl (t.blank_isSpace c h)
  · exact Or.inr (DecimalToken.mem_text h)

end SpacedToken

/-- A row of spaced tokens does not continue a number, if the text behind it does
not. -/
theorem endsNumber_spacedRow (ts : List SpacedToken) {more : List Char} (hmore : EndsNumber more) :
    EndsNumber (ts.flatMap SpacedToken.text ++ more) := by
  cases ts with
  | nil => exact hmore
  | cons t ts =>
      rw [List.flatMap_cons, List.append_assoc]
      exact t.endsNumber _

/-- **A row of spaced tokens is converted token by token.** -/
theorem scan_spacedTokens (items : List (Conv × SpacedToken)) {more : List Char}
    (hmore : EndsNumber more) :
    scan (spaced (items.map Prod.fst)) ((items.map Prod.snd).flatMap SpacedToken.text ++ more) =
      items.map fun it => .num (it.2.value it.1) := by
  induction items with
  | nil => rfl
  | cons it items ih =>
      have hrest := endsNumber_spacedRow (items.map Prod.snd) hmore
      have htok := scan_number_token it.1 (spaced (items.map Prod.fst)) it.2.token hrest
      calc scan (spaced ((it :: items).map Prod.fst))
            (((it :: items).map Prod.snd).flatMap SpacedToken.text ++ more)
          = scan (.number it.1 :: spaced (items.map Prod.fst))
              ((it.2.text ++ ((items.map Prod.snd).flatMap SpacedToken.text ++ more)).dropWhile
                isSpace) := by
            rw [List.map_cons, List.map_cons, List.flatMap_cons, List.append_assoc]
            rfl
        _ = .num (it.2.value it.1) ::
              scan (spaced (items.map Prod.fst))
                ((items.map Prod.snd).flatMap SpacedToken.text ++ more) := by
            rw [it.2.dropWhile_blank, htok]
            rfl
        _ = _ := by rw [ih]; rfl

theorem forall_mem_blank_isSpace : ∀ c ∈ [' '], isSpace c = true :=
  List.forall_mem_singleton.mpr rfl

/-- A token behind one blank. -/
def SpacedToken.ofToken (t : DecimalToken) : SpacedToken where
  blank := [' ']
  token := t
  blank_ne := List.cons_ne_nil _ _
  blank_isSpace := forall_mem_blank_isSpace

/-- **A row of tokens is converted token by token.** -/
theorem scan_tokens (items : List (Conv × DecimalToken)) {more : List Char}
    (hmore : EndsNumber more) :
    scan (spaced (items.map Prod.fst)) (row (items.map Prod.snd) ++ more) =
      items.map fun it => .num (it.1.value it.2.neg it.2.magnitude) := by
  have hspaced := scan_spacedTokens (items.map fun it => (it.1, SpacedToken.ofToken it.2)) hmore
  simp only [List.map_map, List.flatMap_map] at hspaced
  rw [row, List.flatMap_map]
  exact hspaced

/-- A signed conversion reads back every 64-bit signed number. -/
theorem strtol_ofInt {x : Int} (hlo : -2 ^ 63 ≤ x) (hhi : x < 2 ^ 63) :
    strtol (decide (x < 0)) x.natAbs = x := by
  rw [strtol]
  by_cases h : x < 0
  · rw [decide_eq_true h, if_pos rfl]
    omega
  · rw [decide_eq_false h, if_neg Bool.false_ne_true]
    omega

/-- An unsigned conversion reads back every 64-bit unsigned number. -/
theorem strtoul_ofInt {x : Int} (hlo : 0 ≤ x) (hhi : x < 2 ^ 64) :
    strtoul (decide (x < 0)) x.natAbs = x := by
  have h : ¬ x < 0 := by omega
  have hn : ¬ (2 ^ 64 ≤ x.natAbs) := by omega
  simp only [strtoul, hn, h, if_false, decide_false]
  simp
  omega

/-- An unsigned conversion reads a negative number modulo `2 ^ 64`. -/
theorem strtoul_neg_emod {x : Int} (hlo : -2 ^ 63 ≤ x) (hhi : x < 2 ^ 63) :
    strtoul (decide (x < 0)) x.natAbs = x % 2 ^ 64 := by
  have hn : ¬ (2 ^ 64 ≤ x.natAbs) := by omega
  by_cases h : x < 0
  · have hx : -(x.natAbs : Int) = x := by omega
    simp only [strtoul, hn, h, if_false, if_true, decide_true, hx]
  · have hx : (x.natAbs : Int) = x := by omega
    simp only [strtoul, hn, h, if_false, decide_false, hx]
    simp
    omega

end Scanf
