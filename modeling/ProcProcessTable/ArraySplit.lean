import ProcProcessTable.BlessIntoProc

/-!
# The array of a text

Case `a` of `bless_into_proc` goes through a text of a given length string by
string.  A string ends at a NUL, and the last one may end at the NUL behind the
text, which the length does not count.  The length, and the length of each
string, are held in an `int`.

`splitStrings_run` says what is pushed for a content whose length fits: strings
that give the content back when a NUL is written behind each.  `split_lossless_iff`
is the exact condition.
-/

namespace Xs

open CText

/-- Strings one behind the other, each with its NUL. -/
def nulTerminated (args : List (List Char)) : List Char := args.flatMap fun arg => arg ++ [nul]

/-- A content with the final NUL it may lack. -/
def closed (content : List Char) : List Char :=
  if content = [] ∨ content.getLast? = some nul then content else content ++ [nul]

theorem nulTerminated_cons (arg : List Char) (args : List (List Char)) :
    nulTerminated (arg :: args) = arg ++ nul :: nulTerminated args := by
  rw [nulTerminated, List.flatMap_cons, List.append_assoc]
  rfl

theorem eq_nil_of_closed {content : List Char} (h : closed content = []) : content = [] := by
  unfold closed at h
  split at h
  · exact h
  · exact absurd h (List.append_ne_nil_of_right_ne_nil content (List.cons_ne_nil nul []))

/-- A string without a NUL lacks its final one. -/
theorem closed_word {word : List Char} (hword : nul ∉ word) (hne : word ≠ []) :
    closed word = word ++ [nul] := by
  refine if_neg ?_
  rintro (hnil | hlast)
  · exact hne hnil
  · exact hword (List.mem_of_getLast? hlast)

/-- A NUL inside a content stays where it is. -/
theorem closed_append_nul (word more : List Char) :
    closed (word ++ nul :: more) = word ++ nul :: closed more := by
  have hne : word ++ nul :: more ≠ [] := List.append_ne_nil_of_right_ne_nil word (List.cons_ne_nil _ _)
  cases more with
  | nil => exact if_pos (Or.inr List.getLast?_concat)
  | cons x more =>
      have hlast : (word ++ nul :: x :: more).getLast? = (x :: more).getLast? := by
        rw [List.getLast?_append_cons, List.getLast?_cons_cons]
      unfold closed
      rw [hlast]
      by_cases h : (x :: more).getLast? = some nul
      · rw [if_pos (Or.inr h), if_pos (Or.inr h)]
      · rw [if_neg (not_or.mpr ⟨hne, h⟩), if_neg (not_or.mpr ⟨List.cons_ne_nil _ _, h⟩),
          List.append_assoc]
        rfl

/-- What is written with its NULs lacks none. -/
theorem closed_nulTerminated (args : List (List Char)) :
    closed (nulTerminated args) = nulTerminated args := by
  induction args with
  | nil => rfl
  | cons arg args ih => rw [nulTerminated_cons, closed_append_nul, ih]

/-- **Strings without NULs are read back from what is written**, empty ones
included. -/
theorem nulTerminated_injective {args args' : List (List Char)} (hargs : ∀ a ∈ args, nul ∉ a)
    (hargs' : ∀ a ∈ args', nul ∉ a) (h : nulTerminated args = nulTerminated args') :
    args = args' := by
  induction args generalizing args' with
  | nil =>
      cases args' with
      | nil => rfl
      | cons arg' args' =>
          rw [nulTerminated_cons] at h
          exact absurd h.symm (List.append_ne_nil_of_right_ne_nil arg' (List.cons_ne_nil _ _))
  | cons arg args ih =>
      cases args' with
      | nil =>
          rw [nulTerminated_cons] at h
          exact absurd h (List.append_ne_nil_of_right_ne_nil arg (List.cons_ne_nil _ _))
      | cons arg' args' =>
          rw [nulTerminated_cons, nulTerminated_cons] at h
          have hhead : arg = arg' := by
            rw [← cstr_terminated (hargs arg List.mem_cons_self) (nulTerminated args), h,
              cstr_terminated (hargs' arg' List.mem_cons_self)]
          subst hhead
          have htail := List.tail_eq_of_cons_eq (List.append_cancel_left h)
          rw [ih (fun a ha => hargs a (List.mem_cons_of_mem _ ha))
            (fun a ha => hargs' a (List.mem_cons_of_mem _ ha)) htail]

/-- A length from `2 ^ 31` to `2 ^ 32` is negative as an `int`. -/
theorem toInt_ofNat_neg {n : Nat} (hlo : 2 ^ 31 ≤ n) (hhi : n < 2 ^ 32) :
    (Int32.ofNat n).toInt < 0 := by
  have hsize : ((Int32.size : Nat) : Int) = 2 ^ 32 := rfl
  rw [Int32.toInt_ofNat', Int.bmod_def, hsize, Int.emod_eq_of_lt (by omega) (by omega),
    if_neg (by omega)]
  omega

/-- The split ends behind the length. -/
theorem splitStrings_done (s : Mem) {iVal : Int} {off : Nat} (h : ¬ (off : Int) < iVal)
    (fuel : Nat) : splitStrings s iVal fuel off = .ok [] := by
  cases fuel with
  | zero => rw [splitStrings, if_neg h]
  | succ fuel => rw [splitStrings, if_neg h]

/-- One round of the split: the string from an offset inside the content. -/
theorem splitStrings_step {content : List Char} (hlen : content.length < 2 ^ 31) (junk : Mem)
    {off : Nat} (hlt : off < content.length) (fuel : Nat) :
    splitStrings (content ++ nul :: junk) content.length (fuel + 1) off =
      (splitStrings (content ++ nul :: junk) content.length fuel
        (off + (cstr (content.drop off)).length + 1)).map (cstr (content.drop off) :: ·) := by
  have hdrop : (content ++ nul :: junk).drop off = content.drop off ++ nul :: junk :=
    List.drop_append_of_le_length (Nat.le_of_lt hlt)
  have hrest : (content.drop off).length = content.length - off := List.length_drop
  generalize content.drop off = rest at hdrop hrest ⊢
  have hword : (cstr rest).length ≤ rest.length := (List.takeWhile_prefix _).length_le
  have hstr : strlen (rest ++ nul :: junk) = (cstr rest).length := by
    rw [strlen, cstr_append_nul]
  have hint : (Int32.ofNat (cstr rest).length).toInt = (cstr rest).length :=
    Int32.toInt_ofNat_of_lt (by omega)
  have htake : (rest ++ nul :: junk).take (cstr rest).length = cstr rest := by
    rw [List.take_append_of_le_length hword]
    exact (List.prefix_iff_eq_take.mp (List.takeWhile_prefix _)).symm
  rw [splitStrings, if_pos (by omega), hdrop, hstr]
  dsimp only
  rw [hint, if_neg (by omega), Int.toNat_natCast, htake]
  cases splitStrings (content ++ nul :: junk) content.length fuel (off + (cstr rest).length + 1) <;>
    rfl

theorem splitStrings_end (content : List Char) (junk : Mem) (fuel : Nat) : ∃ elems,
      splitStrings (content ++ nul :: junk) content.length fuel content.length = .ok elems ∧
        (∀ elem ∈ elems, nul ∉ elem) ∧
        nulTerminated elems = closed (content.drop content.length) := by
  refine ⟨[], splitStrings_done _ (by omega) fuel, fun _ h => absurd h List.not_mem_nil, ?_⟩
  rw [List.drop_length]
  rfl

/-- The string in front of a NUL, and what is left behind it. -/
theorem front_of_split {rest more : List Char} (hmore : rest = cstr rest ++ nul :: more) :
    rest.length = (cstr rest).length + (more.length + 1) ∧
      rest.drop ((cstr rest).length + 1) = more ∧
      closed rest = cstr rest ++ nul :: closed more := by
  refine ⟨?_, ?_, ?_⟩
  · have hlen := congrArg List.length hmore
    rw [List.length_append, List.length_cons] at hlen
    exact hlen
  · have h := drop_split (cstr rest) more nul
    rw [← hmore] at h
    exact h
  · have hclosed := closed_append_nul (cstr rest) more
    rw [← hmore] at hclosed
    exact hclosed

/-- **The strings give the content back**, from every offset of a content whose
length fits an `int`. -/
theorem splitStrings_run {content : List Char} (hlen : content.length < 2 ^ 31) (junk : Mem) :
    ∀ fuel off, off ≤ content.length → content.length - off ≤ fuel →
      ∃ elems, splitStrings (content ++ nul :: junk) content.length fuel off = .ok elems ∧
        (∀ elem ∈ elems, nul ∉ elem) ∧ nulTerminated elems = closed (content.drop off) := by
  intro fuel
  induction fuel with
  | zero =>
      intro off hoff hfuel
      obtain rfl : off = content.length := by omega
      exact splitStrings_end content junk 0
  | succ fuel ih =>
      intro off hoff hfuel
      by_cases hlt : off < content.length
      · have hrest : (content.drop off).length = content.length - off := List.length_drop
        have hnext : content.drop (off + (cstr (content.drop off)).length + 1) =
            (content.drop off).drop ((cstr (content.drop off)).length + 1) := by
          rw [List.drop_drop, Nat.add_assoc]
        rw [splitStrings_step hlen junk hlt]
        generalize content.drop off = rest at hrest hnext ⊢
        have hfree := nul_not_mem_cstr rest
        rcases cstr_split rest with hall | ⟨more, hmore⟩
        · -- the last string ends with the content
          have hend : rest.length = (cstr rest).length := congrArg List.length hall
          have hne : rest ≠ [] := List.length_pos_iff.mp (by omega)
          rw [splitStrings_done _ (by omega)]
          refine ⟨[cstr rest], rfl, List.forall_mem_singleton.mpr hfree, ?_⟩
          rw [← hall] at hfree ⊢
          rw [closed_word hfree hne, nulTerminated_cons]
          rfl
        · -- the string ends with a NUL
          obtain ⟨hsum, hskip, hclosed⟩ := front_of_split hmore
          obtain ⟨elems, helems, hnulFree, hgives⟩ :=
            ih (off + (cstr rest).length + 1) (by omega) (by omega)
          rw [hnext, hskip] at hgives
          rw [helems]
          refine ⟨cstr rest :: elems, rfl, List.forall_mem_cons.mpr ⟨hfree, hnulFree⟩, ?_⟩
          rw [nulTerminated_cons, hgives, hclosed]
      · obtain rfl : off = content.length := by omega
        exact splitStrings_end content junk (fuel + 1)

/-- The bytes of some strings, each with its separator. -/
def totalLength (elems : List (List Char)) : Nat := (elems.map fun elem => elem.length + 1).sum

theorem totalLength_cons (elem : List Char) (elems : List (List Char)) :
    totalLength (elem :: elems) = elem.length + 1 + totalLength elems := by
  rw [totalLength, List.map_cons, List.sum_cons]
  rfl

theorem length_nulTerminated (elems : List (List Char)) :
    (nulTerminated elems).length = totalLength elems := by
  induction elems with
  | nil => rfl
  | cons elem elems ih =>
      rw [nulTerminated_cons, totalLength_cons, List.length_append, List.length_cons, ih]
      omega

/-- The strings of an array end before its length and one more `int`. -/
theorem splitStrings_total {s : Mem} {iVal : Int} :
    ∀ {fuel off : Nat} {elems : List (List Char)}, splitStrings s iVal fuel off = .ok elems →
      elems ≠ [] → (off : Int) + totalLength elems ≤ iVal + (2 ^ 31 - 1) := by
  intro fuel
  induction fuel with
  | zero =>
      intro off elems h hne
      rw [splitStrings] at h
      split at h
      · cases h
      · exact absurd (Except.ok.inj h).symm hne
  | succ fuel ih =>
      intro off elems h hne
      rw [splitStrings] at h
      split at h
      · next hlt =>
          dsimp only at h
          generalize hint : (Int32.ofNat (strlen (s.drop off))).toInt = len at h
          split at h
          · cases h
          · next hneg =>
              have hmax : len < 2 ^ 31 := hint ▸ Int32.toInt_lt _
              cases hrest : splitStrings s iVal fuel (off + len.toNat + 1) with
              | error f =>
                  rw [hrest] at h
                  cases h
              | ok rest =>
                  rw [hrest] at h
                  obtain rfl := Except.ok.inj h
                  have htake : ((s.drop off).take len.toNat).length ≤ len.toNat :=
                    List.length_take_le _ _
                  rw [totalLength_cons]
                  by_cases hnil : rest = []
                  · have hzero : totalLength rest = 0 := by rw [hnil]; rfl
                    omega
                  · have htotal := ih hrest hnil
                    omega
      · exact absurd (Except.ok.inj h).symm hne

/-- Where `strlen` starts in each round of the split, and what it returns. -/
def splitReads (s : Mem) (iVal : Int) : Nat → Nat → List (Nat × Nat)
  | 0, _ => []
  | fuel + 1, off =>
      if (off : Int) < iVal then
        let len := Int32.ofNat (strlen (s.drop off))
        (off, strlen (s.drop off)) ::
          if len.toInt < 0 then [] else splitReads s iVal fuel (off + len.toInt.toNat + 1)
      else []

/-- Every `strlen` of a split ends at the NUL behind the content at the latest,
if the length does not go beyond it. -/
theorem splitReads_inside {content : List Char} (junk : Mem) {iVal : Int}
    (hle : iVal ≤ content.length) : ∀ fuel off, ∀ r ∈ splitReads (content ++ nul :: junk) iVal fuel off,
      r.2 = strlen ((content ++ nul :: junk).drop r.1) ∧ r.1 + r.2 ≤ content.length := by
  intro fuel
  induction fuel with
  | zero => exact fun off r hr => absurd hr List.not_mem_nil
  | succ fuel ih =>
      intro off r hr
      rw [splitReads] at hr
      split at hr
      · next hlt =>
          rcases List.mem_cons.mp hr with rfl | hr
          · refine ⟨rfl, ?_⟩
            have hword : (cstr (content.drop off)).length ≤ (content.drop off).length :=
              (List.takeWhile_prefix _).length_le
            rw [List.length_drop] at hword
            rw [List.drop_append_of_le_length (by omega), strlen, cstr_append_nul]
            omega
          · split at hr
            · exact absurd hr List.not_mem_nil
            · exact ih _ r hr
      · exact absurd hr List.not_mem_nil

end Xs

namespace Linux

open CText Xs

/-- The calls of `strlen` for a content, which `read_file` has left in front of
a NUL with its length. -/
def arrayReads (content junk : List Char) : List (Nat × Nat) :=
  splitReads (content ++ nul :: junk) (Int32.ofNat content.length).toInt
    (Int32.ofNat content.length).toInt.toNat 0

/-- The array of a content is a lossless split: the loop ends, with strings that
give the content back when a NUL is written behind each, and so with the
arguments if it was written from arguments; no byte behind the text's own NUL is
read, and `len + 1` does not leave the range of an `int`. -/
structure SplitsLosslessly (content junk : List Char) : Prop where
  lossless : ∃ elems,
    newArray (some (content ++ nul :: junk)) (Int32.ofNat content.length) = .ok (.av elems) ∧
      nulTerminated elems = closed content ∧
      ∀ args : List (List Char), (∀ arg ∈ args, nul ∉ arg) → content = nulTerminated args →
        elems = args
  inside : ∀ r ∈ arrayReads content junk, r.1 + r.2 ≤ content.length
  in_range : ∀ r ∈ arrayReads content junk, r.2 + 1 < 2 ^ 31

/-- A content whose length fits, and whose strings do. -/
def ContentFits (content : List Char) : Prop :=
  content.length < 2 ^ 31 ∧ (content.length + 1 = 2 ^ 31 → nul ∈ content)

/-- The strings of an array are those of the split. -/
theorem splitStrings_of_newArray {s : Mem} {iVal : Int32} {elems : List (List Char)}
    (h : newArray (some s) iVal = .ok (.av elems)) :
    splitStrings s iVal.toInt iVal.toInt.toNat 0 = .ok elems := by
  rw [newArray] at h
  cases hs : splitStrings s iVal.toInt iVal.toInt.toNat 0 with
  | error f =>
      rw [hs] at h
      cases h
  | ok elems' =>
      rw [hs] at h
      rw [SV.av.inj (Except.ok.inj h)]

/-- A content that does not fit an `int` is not given back. -/
theorem not_closed_of_long {content junk : List Char} (hlong : 2 ^ 31 ≤ content.length)
    {elems : List (List Char)}
    (h : newArray (some (content ++ nul :: junk)) (Int32.ofNat content.length) = .ok (.av elems)) :
    nulTerminated elems ≠ closed content := by
  intro hgives
  have hsplit := splitStrings_of_newArray h
  have hclosed : content.length ≤ (closed content).length := by
    unfold closed
    split
    · exact Nat.le_refl _
    · rw [List.length_append]
      exact Nat.le_add_right _ _
  rw [← hgives, length_nulTerminated] at hclosed
  have hmax := Int32.toInt_lt (Int32.ofNat content.length)
  by_cases hnil : elems = []
  · have hzero : totalLength elems = 0 := by rw [hnil]; rfl
    omega
  · have htotal := splitStrings_total hsplit hnil
    by_cases hwrap : content.length < 2 ^ 32
    · have hneg := toInt_ofNat_neg hlong hwrap
      rw [splitStrings_done _ (by omega)] at hsplit
      exact hnil (Except.ok.inj hsplit).symm
    · omega

/-- **When the array is a lossless split**: when the length of the content fits
an `int`, and one more than the length of each of its strings does. -/
theorem split_lossless_iff (content junk : List Char) :
    SplitsLosslessly content junk ↔ ContentFits content := by
  have hread : ∀ r ∈ arrayReads content junk, r.2 = strlen ((content ++ nul :: junk).drop r.1) ∧
      r.1 + r.2 ≤ content.length :=
    splitReads_inside junk (toInt_ofNat_le content.length) _ 0
  constructor
  · intro h
    obtain ⟨elems, harray, hgives, _⟩ := h.lossless
    have hshort : content.length < 2 ^ 31 := by
      by_contra hlong
      exact not_closed_of_long (Nat.le_of_not_lt hlong) harray hgives
    refine ⟨hshort, fun hmax => ?_⟩
    by_contra hword
    -- the whole content is one string
    have hint : (Int32.ofNat content.length).toInt = content.length :=
      Int32.toInt_ofNat_of_lt hshort
    have hfirst : (0, content.length) ∈ arrayReads content junk := by
      have hlen : strlen ((content ++ nul :: junk).drop 0) = content.length := by
        rw [List.drop_zero, strlen, cstr_terminated hword]
      obtain ⟨fuel, hfuel⟩ : ∃ fuel, content.length = fuel + 1 := ⟨content.length - 1, by omega⟩
      rw [arrayReads, hint, Int.toNat_natCast, hfuel, splitReads, ← hfuel, if_pos (by omega), hlen]
      exact List.mem_cons_self
    have hrange := h.in_range _ hfirst
    dsimp only at hrange
    omega
  · rintro ⟨hshort, hword⟩
    have hint : (Int32.ofNat content.length).toInt = content.length :=
      Int32.toInt_ofNat_of_lt hshort
    obtain ⟨elems, helems, hfree, hgives⟩ :=
      splitStrings_run hshort junk content.length 0 (Nat.zero_le _) (Nat.sub_le _ _)
    refine ⟨⟨elems, ?_, hgives, ?_⟩, fun r hr => (hread r hr).2, ?_⟩
    · rw [newArray, hint, Int.toNat_natCast, helems]
      rfl
    · rintro args hargs rfl
      rw [List.drop_zero, closed_nulTerminated] at hgives
      exact nulTerminated_injective hfree hargs hgives
    · intro r hr
      obtain ⟨hlen, hle⟩ := hread r hr
      by_contra hbig
      -- such a string is the whole content, and has no NUL
      obtain ⟨hoff, hall⟩ : r.1 = 0 ∧ r.2 = content.length := by omega
      have hnul := hword (by omega)
      rw [hoff, List.drop_zero, strlen, cstr_append_nul, hall] at hlen
      have hsame : cstr content = content :=
        (List.takeWhile_prefix _).eq_of_length hlen.symm
      exact nul_not_mem_cstr content (hsame.symm ▸ hnul)

/-- An argument of `2 ^ 31` bytes. -/
def longArgument : List Char := List.replicate (2 ^ 31) 'a'

theorem newArray_longArgument :
    newArray (some (longArgument ++ [nul])) (Int32.ofNat longArgument.length) = .ok (.av []) := by
  have hlen : longArgument.length = 2 ^ 31 := List.length_replicate
  have hneg : (Int32.ofNat longArgument.length).toInt < 0 :=
    toInt_ofNat_neg (by omega) (by omega)
  rw [newArray, splitStrings_done _ (by omega)]
  rfl

/-- **A command line that is lost**: its length is negative as an `int`, and the
array is empty. -/
theorem longArgument_not_lossless : ¬ SplitsLosslessly longArgument [] := by
  intro h
  obtain ⟨elems, harray, hgives, _⟩ := h.lossless
  have hlen : longArgument.length = 2 ^ 31 := List.length_replicate
  exact not_closed_of_long (Nat.le_of_eq hlen.symm) harray hgives

end Linux
