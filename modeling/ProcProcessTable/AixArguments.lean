import ProcProcessTable.CharArray

/-!
# The answers of getargs

`getargs` leaves the arguments of a process in an array, each with a NUL behind it, and
one NUL more at the end where that still fits.  Both ports for AIX turn the NULs into
blanks, up to the first NUL with another one behind it: `aix.c` on the way to a second
array, `aix_getprocs.c` in place.

`argText` is what stands before that place, if the bytes have one.  Then `decode` finds
it whatever follows (`decode_argText`), and otherwise it goes on into what the array held
before (`decode_unended`).
-/

namespace Aix

open CText

/-- The `while` loop of `aix.c`: the bytes it writes to `Args`, from index 0 on, when so many
turns are left and `Arglist` holds these bytes from the index on.  It is `none` when it reads
behind them. -/
def decode : Nat → List Char → Option (List Char)
  | 0, _ => some []
  | _ + 1, [] => none
  | left + 1, c :: rest =>
      if c ≠ nul then (decode left rest).map (c :: ·)
      else
        match rest with
        | [] => none
        | next :: _ => if next = nul then some [nul] else (decode left rest).map (' ' :: ·)

/-- The `while` loop of `aix_getprocs.c`: what `cmndline` holds behind it, when it holds these
bytes.  It is `none` when it reads behind them. -/
def blankNuls : List Char → Option (List Char)
  | [] => none
  | c :: rest =>
      if c = nul then
        match rest with
        | [] => none
        | next :: _ => if next = nul then some (c :: rest) else (blankNuls rest).map (' ' :: ·)
      else (blankNuls rest).map (c :: ·)

/-- The arguments before the first NUL that has another one behind it, with blanks for
NULs. -/
def argText : List Char → Option (List Char)
  | [] => none
  | c :: rest =>
      match rest with
      | [] => none
      | next :: _ => if c = nul ∧ next = nul then some [] else (argText rest).map (spaceForNul c :: ·)

/-- A turn of the loop that does not end it. -/
theorem decode_step (left : Nat) {c next : Char} (rest : List Char) (h : ¬ (c = nul ∧ next = nul)) :
    decode (left + 1) (c :: next :: rest) =
      (decode left (next :: rest)).map (spaceForNul c :: ·) := by
  unfold spaceForNul
  rw [decode]
  by_cases hc : c = nul
  · rw [if_neg (not_not_intro hc), if_pos hc]
    exact if_neg fun hnext => h ⟨hc, hnext⟩
  · rw [if_pos hc, if_neg hc]

/-- The loop reads at most one byte behind its last turn. -/
theorem decode_inside {left : Nat} {arglist : List Char} (h : left < arglist.length) :
    ∃ bytes, decode left arglist = some bytes ∧ bytes.length ≤ left := by
  induction left generalizing arglist with
  | zero => exact ⟨[], by cases arglist <;> rfl, Nat.le_refl 0⟩
  | succ left ih =>
      cases arglist with
      | nil => exact absurd h (Nat.not_lt_zero _)
      | cons c rest =>
          cases rest with
          | nil =>
              rw [List.length_singleton] at h
              omega
          | cons next rest =>
              by_cases hend : c = nul ∧ next = nul
              · refine ⟨[nul], ?_, by rw [List.length_singleton]; omega⟩
                rw [decode, if_neg (not_not_intro hend.1)]
                exact if_pos hend.2
              · have hrest : left < (next :: rest).length := by
                  rw [List.length_cons] at h
                  exact Nat.lt_of_succ_lt_succ h
                obtain ⟨bytes, hbytes, hlen⟩ := ih hrest
                refine ⟨spaceForNul c :: bytes, ?_, by rw [List.length_cons]; omega⟩
                rw [decode_step left rest hend, hbytes]
                rfl

/-- **Arguments that end are decoded**, whatever stands behind them. -/
theorem decode_argText {content text : List Char} (h : argText content = some text)
    (junk : List Char) {left : Nat} (hleft : content.length ≤ left) :
    decode left (content ++ junk) = some (text ++ [nul]) ∧ nul ∉ text ∧
      text.length + 1 < content.length := by
  induction content generalizing text left with
  | nil => cases h
  | cons c rest ih =>
      cases rest with
      | nil => cases h
      | cons next rest =>
          rw [argText] at h
          obtain ⟨left, rfl⟩ : ∃ n, left = n + 1 := Nat.exists_eq_succ_of_ne_zero (by
            intro hzero
            rw [hzero] at hleft
            exact absurd hleft (Nat.not_succ_le_zero _))
          by_cases hend : c = nul ∧ next = nul
          · rw [if_pos hend] at h
            obtain rfl := Option.some.inj h
            refine ⟨?_, List.not_mem_nil, by simp⟩
            rw [List.cons_append, List.cons_append, decode, if_neg (not_not_intro hend.1)]
            exact if_pos hend.2
          · rw [if_neg hend] at h
            obtain ⟨text, htext, rfl⟩ := Option.map_eq_some_iff.mp h
            obtain ⟨hdecode, hfree, hlen⟩ := ih htext (Nat.le_of_succ_le_succ hleft)
            refine ⟨?_, ?_, Nat.succ_lt_succ hlen⟩
            · rw [List.cons_append, List.cons_append, decode_step left _ hend, ← List.cons_append,
                hdecode]
              rfl
            · rw [List.mem_cons, not_or]
              exact ⟨(spaceForNul_ne_nul c).symm, hfree⟩

/-- **Arguments that do not end** run on into what stands behind them: before bytes that are
not NUL every turn writes one, and none is a NUL. -/
theorem decode_unended {content : List Char} (h : argText content = none) {left k : Nat}
    (hlen : content.length + k = left + 1) (hk : 0 < k) :
    ∃ bytes, decode left (content ++ List.replicate k 'x') = some bytes ∧ nul ∉ bytes ∧
      bytes.length = left := by
  have hx : 'x' ≠ nul := by decide
  induction content generalizing left with
  | nil =>
      rw [List.length_nil, Nat.zero_add] at hlen
      rw [hlen, List.nil_append]
      clear hlen hk h
      induction left with
      | zero => exact ⟨[], rfl, List.not_mem_nil, rfl⟩
      | succ left ih =>
          obtain ⟨bytes, hbytes, hfree, hcount⟩ := ih
          rw [List.replicate_succ] at hbytes
          refine ⟨'x' :: bytes, ?_, ?_, congrArg Nat.succ hcount⟩
          · rw [List.replicate_succ, List.replicate_succ,
              decode_step left _ (fun hend => hx hend.2), hbytes]
            rfl
          · rw [List.mem_cons, not_or]
            exact ⟨hx.symm, hfree⟩
  | cons c rest ih =>
      rw [List.length_cons] at hlen
      obtain ⟨left, rfl⟩ : ∃ n, left = n + 1 := Nat.exists_eq_succ_of_ne_zero (by omega)
      have hrest : argText rest = none ∧ ∃ next tail,
          rest ++ List.replicate k 'x' = next :: tail ∧ ¬ (c = nul ∧ next = nul) := by
        cases rest with
        | nil =>
            obtain ⟨k, rfl⟩ := Nat.exists_eq_succ_of_ne_zero (Nat.pos_iff_ne_zero.mp hk)
            exact ⟨rfl, 'x', List.replicate k 'x', rfl, fun hend => hx hend.2⟩
        | cons next rest =>
            rw [argText] at h
            by_cases hend : c = nul ∧ next = nul
            · rw [if_pos hend] at h
              cases h
            · rw [if_neg hend, Option.map_eq_none_iff] at h
              exact ⟨h, next, rest ++ List.replicate k 'x', rfl, hend⟩
      obtain ⟨hnone, next, tail, htail, hend⟩ := hrest
      have hbehind : rest.length + k = left + 1 := by omega
      obtain ⟨bytes, hbytes, hfree, hcount⟩ := ih hnone hbehind
      refine ⟨spaceForNul c :: bytes, ?_, ?_, congrArg Nat.succ hcount⟩
      · rw [List.cons_append, htail, decode_step left tail hend, ← htail, hbytes]
        rfl
      · rw [List.mem_cons, not_or]
        exact ⟨(spaceForNul_ne_nul c).symm, hfree⟩

/-- The loop over `cmndline` leaves the array where no two NULs stand behind each other. -/
theorem blankNuls_none_iff (m : List Char) : blankNuls m = none ↔ argText m = none := by
  induction m with
  | nil => exact iff_of_true rfl rfl
  | cons c rest ih =>
      cases rest with
      | nil =>
          have hone : blankNuls [c] = none := by
            unfold blankNuls
            split <;> rfl
          exact iff_of_true hone rfl
      | cons next rest =>
          rw [blankNuls, argText]
          by_cases hc : c = nul
          · rw [if_pos hc]
            by_cases hnext : next = nul
            · rw [if_pos hnext, if_pos ⟨hc, hnext⟩]
              exact iff_of_false (Option.some_ne_none _) (Option.some_ne_none _)
            · rw [if_neg hnext, if_neg fun h => hnext h.2, Option.map_eq_none_iff,
                Option.map_eq_none_iff]
              exact ih
          · rw [if_neg hc, if_neg fun h => hc h.1, Option.map_eq_none_iff, Option.map_eq_none_iff]
            exact ih

end Aix
