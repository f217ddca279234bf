import ProcProcessTable.BlessIntoProc
import ProcProcessTable.CharArray

/-!
# The command line from an argument vector

Three ports get the arguments of a process from `kvm_getargv` and join them in a
local array.  The loop is the same text in each: it goes on while an argument and
one more byte fit a limit, and puts a blank behind every argument but the last.
The limit is `ARG_MAX` in all of them.  The array has `ARG_MAX + 1` bytes on
OpenBSD and BSD/OS, and `ARG_MAX` on FreeBSD.

* `joined_within`: with one byte more than the limit every argument vector gets
  through;
* `FreeBsdKvm.joined_within_iff`: which ones do without it.
-/

namespace ArgumentLoop

open CText Xs

/-- The arguments joined with single blanks. -/
def joined (argv : List Mem) : List Char := [' '].intercalate (argv.map cstr)

/-- The bytes a row of arguments takes up with a blank behind each. -/
def used (argv : List Mem) : Nat := (argv.map fun arg => strlen arg + 1).sum

@[simp] theorem used_nil : used [] = 0 := rfl

@[simp] theorem used_cons (arg : Mem) (argv : List Mem) :
    used (arg :: argv) = strlen arg + 1 + used argv := List.sum_cons

theorem joined_singleton (arg : Mem) : joined [arg] = cstr arg := by
  unfold joined
  rw [List.map_singleton, List.intercalate_singleton]

theorem joined_cons_cons (arg next : Mem) (argv : List Mem) :
    joined (arg :: next :: argv) = cstr arg ++ ' ' :: joined (next :: argv) := by
  unfold joined
  rw [List.map_cons, List.map_cons, List.intercalate_cons_cons, List.append_assoc]
  rfl

section

variable {size : Nat}

/-- The blank behind an argument, unless it is the last. -/
def appendBlank (append : Nat → CharArray size → Mem → Except Fault (CharArray size))
    (cmndline : CharArray size) : List Mem → Except Fault (CharArray size)
  | [] => .ok cmndline
  | _ :: _ => append 2 cmndline [' ', nul]

/-- The `while` loop.  `append` puts a string behind the one in the array; its
first argument tells the two places apart where that is done. -/
def concatArgs (append : Nat → CharArray size → Mem → Except Fault (CharArray size))
    (limit : Nat) : List Mem → CharArray size → Except Fault (CharArray size)
  | [], cmndline => .ok cmndline
  | arg :: argv, cmndline =>
      if strlen cmndline.bytes + strlen arg + 1 ≤ limit then do
        let cmndline ← append 1 cmndline arg
        let cmndline ← appendBlank append cmndline argv
        concatArgs append limit argv cmndline
      else .ok cmndline

/-- What a port makes of the answer of `kvm_getargv`. -/
def commandLine (append : Nat → CharArray size → Mem → Except Fault (CharArray size))
    (limit : Nat) (argv : Option (List Mem)) (cmndline : CharArray size) :
    Except Fault (CharArray size) :=
  match argv with
  | none => .ok cmndline.clear
  | some argv => concatArgs append limit argv cmndline.clear

/-- `strcat`. -/
def strcat (cmndline : CharArray size) (src : Mem) : Except Fault (CharArray size) :=
  match cmndline.strcat src with
  | some cmndline => .ok cmndline
  | none => .error .overflow

/-- An append that works where there is room. -/
def Appends (append : Nat → CharArray size → Mem → Except Fault (CharArray size)) : Prop :=
  ∀ num a src, strlen a.bytes + strlen src + 1 ≤ size →
    ∃ a', append num a src = .ok a' ∧ a'.string = a.string ++ cstr src

theorem appends_strcat : Appends fun _ : Nat => @strcat size := by
  intro num a src h
  obtain ⟨a', hcat, hstring⟩ := a.string_strcat h
  refine ⟨a', ?_, hstring⟩
  show strcat a src = .ok a'
  unfold strcat
  rw [hcat]

theorem strcat_overflow (a : CharArray size) {src : Mem}
    (h : size < strlen a.bytes + strlen src + 1) : strcat a src = .error .overflow := by
  unfold strcat
  rw [a.strcat_of_lt h]

/-! ### One turn of the loop -/

section

variable {append : Nat → CharArray size → Mem → Except Fault (CharArray size)} {limit : Nat}
  {a : CharArray size} {arg : Mem}

/-- The loop stops at an argument that does not fit the limit. -/
theorem concatArgs_stop (h : limit < strlen a.bytes + strlen arg + 1) (argv : List Mem) :
    concatArgs append limit (arg :: argv) a = .ok a := by
  rw [concatArgs, if_neg (Nat.not_le_of_lt h)]

/-- The last argument has no blank behind it. -/
theorem concatArgs_last (happend : Appends append) (h : strlen a.bytes + strlen arg + 1 ≤ limit)
    (hlimit : limit ≤ size) :
    ∃ out, concatArgs append limit [arg] a = .ok out ∧ out.string = a.string ++ cstr arg := by
  obtain ⟨out, hout, hstring⟩ := happend 1 a arg (h.trans hlimit)
  refine ⟨out, ?_, hstring⟩
  rw [concatArgs, if_pos h, hout]
  rfl

/-- Another argument has, and the loop goes on behind the blank. -/
theorem concatArgs_next (happend : Appends append) (h : strlen a.bytes + strlen arg + 1 ≤ limit)
    (hroom : strlen a.bytes + strlen arg + 1 < size) (next : Mem) (argv : List Mem) :
    ∃ a', a'.string = a.string ++ cstr arg ++ [' '] ∧
      strlen a'.bytes = strlen a.bytes + strlen arg + 1 ∧
      concatArgs append limit (arg :: next :: argv) a =
        concatArgs append limit (next :: argv) a' := by
  obtain ⟨mid, hmid, hmidString⟩ := happend 1 a arg hroom.le
  have hmidLen : strlen mid.bytes = strlen a.bytes + strlen arg :=
    CharArray.strlen_of_string hmidString
  have hblank : strlen [' ', nul] = 1 := rfl
  obtain ⟨a', ha', hstring⟩ := happend 2 mid [' ', nul] (by rw [hmidLen, hblank]; exact hroom)
  have hall : a'.string = a.string ++ cstr arg ++ [' '] := by
    rw [hstring, hmidString]
    rfl
  refine ⟨a', hall, ?_, ?_⟩
  · rw [CharArray.strlen_of_string hstring, hmidLen]
    rfl
  · rw [concatArgs, if_pos h, hmid]
    show (appendBlank append mid (next :: argv) >>= _) = _
    rw [appendBlank, ha']
    rfl

end

/-! ### The whole loop -/

/-- Some arguments, with more behind them, fill the array to its last byte. -/
def Fills (size limit start : Nat) (argv : List Mem) : Prop :=
  ∃ front rest, argv = front ++ rest ∧ front ≠ [] ∧ rest ≠ [] ∧
    start + used front ≤ limit ∧ size ≤ start + used front

/-- Behind an argument that was taken over the rest is to fit from there. -/
theorem Fills.cons {limit start : Nat} {arg : Mem} {argv : List Mem}
    (h : Fills size limit (start + strlen arg + 1) argv) : Fills size limit start (arg :: argv) := by
  obtain ⟨front, rest, rfl, -, hrest, hlimit, hsize⟩ := h
  refine ⟨arg :: front, rest, rfl, List.cons_ne_nil _ _, hrest, ?_, ?_⟩
  · rw [used_cons]
    omega
  · rw [used_cons]
    omega

/-- **Every argument that is taken over is taken over whole.**  What the loop
puts behind the string is a piece from the front of the joined arguments, and
all of it when there is room. -/
theorem concatArgs_joined {append : Nat → CharArray size → Mem → Except Fault (CharArray size)}
    (happend : Appends append) {limit : Nat} (hlimit : limit ≤ size) (argv : List Mem)
    (a : CharArray size) (h : ¬ Fills size limit (strlen a.bytes) argv) :
    ∃ out piece, concatArgs append limit argv a = .ok out ∧ out.string = a.string ++ piece ∧
      piece <+: joined argv ∧
      (strlen a.bytes + (joined argv).length < limit → piece = joined argv) := by
  induction argv generalizing a with
  | nil => exact ⟨a, [], rfl, (List.append_nil _).symm, List.nil_prefix, fun _ => rfl⟩
  | cons arg argv ih =>
      by_cases hguard : strlen a.bytes + strlen arg + 1 ≤ limit
      · cases argv with
        | nil =>
            obtain ⟨out, hout, hstring⟩ := concatArgs_last happend hguard hlimit
            rw [joined_singleton]
            exact ⟨out, cstr arg, hout, hstring, List.prefix_refl _, fun _ => rfl⟩
        | cons next argv =>
            have hroom : strlen a.bytes + strlen arg + 1 < size := by
              by_contra hfull
              apply h
              refine ⟨[arg], next :: argv, rfl, List.cons_ne_nil _ _, List.cons_ne_nil _ _, ?_, ?_⟩
              · rw [used_cons, used_nil]
                omega
              · rw [used_cons, used_nil]
                omega
            obtain ⟨a', hstring', hlen', hloop⟩ := concatArgs_next happend hguard hroom next argv
            have hrest : ¬ Fills size limit (strlen a'.bytes) (next :: argv) := by
              rw [hlen']
              exact fun hfills => h hfills.cons
            obtain ⟨out, piece, hout, hstring, hpiece, hwhole⟩ := ih a' hrest
            refine ⟨out, cstr arg ++ ' ' :: piece, hloop.trans hout, ?_, ?_, ?_⟩
            · rw [hstring, hstring', List.append_assoc, List.append_assoc, List.singleton_append]
            · rw [joined_cons_cons]
              exact (List.prefix_append_right_inj _).mpr (List.cons_prefix_cons.mpr ⟨rfl, hpiece⟩)
            · intro hshort
              rw [joined_cons_cons] at hshort ⊢
              rw [hwhole]
              rw [List.length_append, List.length_cons] at hshort
              have harg : (cstr arg).length = strlen arg := rfl
              omega
      · refine ⟨a, [], concatArgs_stop (Nat.lt_of_not_le hguard) argv, (List.append_nil _).symm,
          List.nil_prefix, ?_⟩
        intro hshort
        -- the whole is no longer than the argument that was left out
        have hlen : strlen arg ≤ (joined (arg :: argv)).length := by
          cases argv with
          | nil => rw [joined_singleton]; exact Nat.le_refl _
          | cons next argv =>
              rw [joined_cons_cons, List.length_append]
              exact Nat.le_add_right _ _
        omega

/-- **The blank that does not fit.**  An argument that fills the array up to its
last byte leaves no room for the blank and its NUL. -/
theorem concatArgs_overflow {limit : Nat} (hlimit : limit ≤ size) (argv : List Mem)
    (a : CharArray size) (h : Fills size limit (strlen a.bytes) argv) :
    concatArgs (fun _ => strcat) limit argv a = .error .overflow := by
  induction argv generalizing a with
  | nil =>
      obtain ⟨front, rest, happ, hfront, -⟩ := h
      exact absurd (List.append_eq_nil_iff.mp happ.symm).1 hfront
  | cons arg argv ih =>
      obtain ⟨front, rest, happ, hfront, hrest, hfits, hfull⟩ := h
      obtain ⟨first, front, rfl⟩ := List.exists_cons_of_ne_nil hfront
      rw [List.cons_append] at happ
      obtain ⟨rfl, rfl⟩ := List.cons_eq_cons.mp happ
      rw [used_cons] at hfits hfull
      have hguard : strlen a.bytes + strlen arg + 1 ≤ limit := by omega
      obtain ⟨next, more, hmore⟩ := List.exists_cons_of_ne_nil
        (fun hnil : front ++ rest = [] => hrest (List.append_eq_nil_iff.mp hnil).2)
      by_cases hroom : strlen a.bytes + strlen arg + 1 < size
      · rw [hmore] at ih ⊢
        obtain ⟨a', -, hlen', hloop⟩ := concatArgs_next appends_strcat hguard hroom next more
        rw [hloop]
        apply ih
        refine ⟨front, rest, hmore.symm, ?_, hrest, ?_, ?_⟩
        · rintro rfl
          rw [used_nil] at hfull
          omega
        · omega
        · omega
      · obtain ⟨mid, hmid, hstring⟩ := appends_strcat 1 a arg (hguard.trans hlimit)
        have hlen := CharArray.strlen_of_string hstring
        have hblank : strlen [' ', nul] = 1 := rfl
        have hover : strcat mid [' ', nul] = .error .overflow := by
          apply strcat_overflow
          rw [hlen, hblank]
          have harg : (cstr arg).length = strlen arg := rfl
          omega
        rw [hmore, concatArgs, if_pos hguard]
        dsimp only at hmid ⊢
        rw [hmid]
        show (appendBlank (fun _ => strcat) mid (next :: more) >>= _) = _
        rw [appendBlank, hover]
        rfl

/-- The loop from the cleared array. -/
theorem commandLine_eq (append : Nat → CharArray size → Mem → Except Fault (CharArray size))
    (limit : Nat) (argv : Option (List Mem)) (cmndline : CharArray size) :
    commandLine append limit argv cmndline =
      concatArgs append limit (argv.getD []) cmndline.clear := by
  cases argv with
  | none => rfl
  | some argv => rfl

theorem strlen_clear (a : CharArray size) : strlen a.clear.bytes = 0 :=
  congrArg List.length a.string_clear

end

end ArgumentLoop

namespace OpenBsd

open CText Xs

/-- `STRLCAT`. -/
def STRLCAT {size : Nat} (num : Nat) (targ : CharArray size) (src : Mem) :
    Except Fault (CharArray size) :=
  let out := targ.strlcat src
  if size ≤ out.2 then
    .error (.croak ("call:" ++ toString num ++ " source string is too big to append to buffer"))
  else .ok out.1

/-- The command line, in `cmndline[ARG_MAX+1]`. -/
def commandLine (ARG_MAX : Nat) (pargv : Option (List Mem)) (cmndline : CharArray (ARG_MAX + 1)) :
    Except Fault (CharArray (ARG_MAX + 1)) :=
  ArgumentLoop.commandLine STRLCAT ARG_MAX pargv cmndline

theorem appends_STRLCAT {size : Nat} : ArgumentLoop.Appends (@STRLCAT size) := by
  intro num a src h
  obtain ⟨hstring, hlen⟩ := a.string_strlcat h
  refine ⟨(a.strlcat src).1, ?_, hstring⟩
  unfold STRLCAT
  dsimp only
  rw [if_neg (Nat.not_le_of_lt hlen)]

end OpenBsd

namespace Bsdi

open CText Xs

/-- The command line, in `cmndline[MAXARGLN+1]`; `MAXARGLN` is `ARG_MAX`. -/
def commandLine (ARG_MAX : Nat) (argv : Option (List Mem)) (cmndline : CharArray (ARG_MAX + 1)) :
    Except Fault (CharArray (ARG_MAX + 1)) :=
  ArgumentLoop.commandLine (fun _ => ArgumentLoop.strcat) ARG_MAX argv cmndline

end Bsdi

namespace FreeBsdKvm

open CText Xs

/-- The command line, in `cmndline[ARG_MAX]`. -/
def commandLine (ARG_MAX : Nat) (argv : Option (List Mem)) (cmndline : CharArray ARG_MAX) :
    Except Fault (CharArray ARG_MAX) :=
  ArgumentLoop.commandLine (fun _ => ArgumentLoop.strcat) ARG_MAX argv cmndline

end FreeBsdKvm

namespace ArgumentLoop

open CText Xs

/-- **One byte more than the limit is enough**, whatever appends. -/
theorem commandLine_joined {limit : Nat}
    {append : Nat → CharArray (limit + 1) → Mem → Except Fault (CharArray (limit + 1))}
    (happend : Appends append) (argv : Option (List Mem)) (cmndline : CharArray (limit + 1)) :
    ∃ out, commandLine append limit argv cmndline = .ok out ∧
      out.string <+: joined (argv.getD []) ∧
      ((joined (argv.getD [])).length < limit → out.string = joined (argv.getD [])) := by
  have hroom : ¬ Fills (limit + 1) limit (strlen cmndline.clear.bytes) (argv.getD []) := by
    intro ⟨front, rest, _, _, _, hfits, hfull⟩
    omega
  obtain ⟨out, piece, hout, hstring, hpiece, hwhole⟩ :=
    concatArgs_joined happend (Nat.le_succ limit) (argv.getD []) cmndline.clear hroom
  rw [CharArray.string_clear, List.nil_append] at hstring
  rw [strlen_clear, Nat.zero_add] at hwhole
  rw [commandLine_eq]
  refine ⟨out, hout, ?_, ?_⟩
  · rw [hstring]
    exact hpiece
  · rw [hstring]
    exact hwhole

/-- **The command line on OpenBSD and BSD/OS.**  For every answer of
`kvm_getargv` the loop stays inside its array and raises no exception; it leaves
a piece from the front of the joined arguments, and all of it when that is
shorter than `ARG_MAX`. -/
theorem joined_within (ARG_MAX : Nat) (argv : Option (List Mem))
    (cmndline : CharArray (ARG_MAX + 1)) :
    (∃ out, OpenBsd.commandLine ARG_MAX argv cmndline = .ok out ∧
      out.string <+: joined (argv.getD []) ∧
      ((joined (argv.getD [])).length < ARG_MAX → out.string = joined (argv.getD []))) ∧
    (∃ out, Bsdi.commandLine ARG_MAX argv cmndline = .ok out ∧
      out.string <+: joined (argv.getD []) ∧
      ((joined (argv.getD [])).length < ARG_MAX → out.string = joined (argv.getD []))) :=
  ⟨commandLine_joined OpenBsd.appends_STRLCAT argv cmndline,
    commandLine_joined appends_strcat argv cmndline⟩

end ArgumentLoop

namespace FreeBsdKvm

open CText Xs ArgumentLoop

/-- **The command line on FreeBSD** stays inside its array, and is a piece from
the front of the joined arguments, exactly when no arguments with more behind
them take up `ARG_MAX` bytes, counting one more for each. -/
theorem joined_within_iff (ARG_MAX : Nat) (argv : Option (List Mem)) (cmndline : CharArray ARG_MAX) :
    (∃ out, commandLine ARG_MAX argv cmndline = .ok out ∧ out.string <+: joined (argv.getD [])) ↔
      ∀ front rest, argv.getD [] = front ++ rest → front ≠ [] → rest ≠ [] →
        used front ≠ ARG_MAX := by
  have hfills : Fills ARG_MAX ARG_MAX (strlen cmndline.clear.bytes) (argv.getD []) ↔
      ∃ front rest, argv.getD [] = front ++ rest ∧ front ≠ [] ∧ rest ≠ [] ∧
        used front = ARG_MAX := by
    rw [strlen_clear]
    constructor
    · intro ⟨front, rest, happ, hfront, hrest, hfits, hfull⟩
      exact ⟨front, rest, happ, hfront, hrest, by omega⟩
    · intro ⟨front, rest, happ, hfront, hrest, hused⟩
      exact ⟨front, rest, happ, hfront, hrest, by omega, by omega⟩
  unfold commandLine
  rw [commandLine_eq]
  constructor
  · intro ⟨out, hout, _⟩ front rest happ hfront hrest hused
    have hover := concatArgs_overflow (Nat.le_refl _) (argv.getD []) cmndline.clear
      (hfills.mpr ⟨front, rest, happ, hfront, hrest, hused⟩)
    rw [hover] at hout
    cases hout
  · intro hnone
    have hroom : ¬ Fills ARG_MAX ARG_MAX (strlen cmndline.clear.bytes) (argv.getD []) := by
      intro hfull
      obtain ⟨front, rest, happ, hfront, hrest, hused⟩ := hfills.mp hfull
      exact hnone front rest happ hfront hrest hused
    obtain ⟨out, piece, hout, hstring, hpiece, -⟩ :=
      concatArgs_joined appends_strcat (Nat.le_refl _) (argv.getD []) cmndline.clear hroom
    rw [CharArray.string_clear, List.nil_append] at hstring
    exact ⟨out, hout, hstring ▸ hpiece⟩

/-- An argument that leaves one byte of 262144, with another behind it: the blank
between the two goes into that byte, and its NUL behind the array. -/
theorem blank_behind_array :
    commandLine 262144 (some [List.replicate 262143 'a', ['b']])
      ⟨List.replicate 262144 nul, List.length_replicate⟩ = .error .overflow := by
  have hstrlen : strlen (List.replicate 262143 'a') = 262143 := by
    have hfree : nul ∉ List.replicate 262143 'a' := fun h =>
      absurd (List.eq_of_mem_replicate h) (by decide)
    rw [strlen, cstr_of_nulFree hfree, List.length_replicate]
  apply concatArgs_overflow (Nat.le_refl _)
  rw [strlen_clear]
  refine ⟨[List.replicate 262143 'a'], [['b']], rfl, List.cons_ne_nil _ _, List.cons_ne_nil _ _, ?_, ?_⟩
  · rw [used_cons, used_nil, hstrlen]
  · rw [used_cons, used_nil, hstrlen]

end FreeBsdKvm
