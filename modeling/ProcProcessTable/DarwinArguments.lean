import ProcProcessTable.BlessIntoProc
import ProcProcessTable.CText
import Mathlib.Data.List.Basic
import Mathlib.Data.List.Infix

/-!
# The arguments of a process on Darwin

`getproclline` decodes what `KERN_PROCARGS2` returns: the number of the arguments, the
path of the program, NULs, the arguments and the environment.  It skips every NUL
behind the path, then counts as many strings as there are arguments, and turns the
NULs between them into blanks.

`getproclline_iff` says that the arguments come out, and nothing of the environment with
them, exactly when the first of them is not empty.
-/

namespace Darwin

open CText Xs

/-- What the kernel answers when it is asked for the arguments of a process: whether
`KERN_ARGMAX` is known, whether there is memory for so much, and the bytes that
`KERN_PROCARGS2` returns. -/
structure ArgumentSpace where
  argmax : Bool
  memory : Bool
  procargs : Option Mem

/-- `for (; cp < &procargs[size]; cp++)`, as long as a test holds for the character. -/
def skip (test : Char → Bool) (procargs : Mem) (cp : Nat) : Nat :=
  cp + ((procargs.drop cp).takeWhile test).length

/-- `procargs` while NULs are converted, and the place of the last one that was seen. -/
structure Walk where
  procargs : Mem
  np : Option Nat

/-- The last NUL is converted, and this one is noted. -/
def Walk.found (w : Walk) (cp : Nat) : Walk :=
  match w.np with
  | none => ⟨w.procargs, some cp⟩
  | some np => ⟨w.procargs.set np ' ', some cp⟩

/-- The loop over the arguments.  The list is what stands from `cp` on. -/
def argLoop (nargs : Int32) (showArgs : Bool) : Int32 → Nat → Walk → Mem → Walk × Nat
  | _, cp, w, [] => (w, cp)
  | c, cp, w, ch :: rest =>
      if c < nargs then
        if ch = nul then
          if showArgs then argLoop nargs showArgs (c + 1) (cp + 1) (w.found cp) rest
          else (w.found cp, cp)
        else argLoop nargs showArgs c (cp + 1) w rest
      else (w, cp)

/-- The loop over the environment, which stops at two NULs behind each other. -/
def envLoop : Nat → Walk → Mem → Walk
  | _, w, [] => w
  | cp, w, ch :: rest =>
      if ch = nul then
        if w.np.map (· + 1) = some cp then w else envLoop (cp + 1) (w.found cp) rest
      else envLoop (cp + 1) w rest

/-- `procargs` as it is printed: the string from `sp` on, up to the NUL at `np`. -/
structure Line where
  procargs : Mem
  sp : Nat
  np : Nat

/-- The part of `getproclline` between the calls: `none` where it goes to `ERROR_B`.
`environment` is whether the environment is wanted and may be shown. -/
def decode (nargs : Int32) (environment showArgs : Bool) (procargs : Mem) : Option Line :=
  let path := skip (· ≠ nul) procargs 4
  if path = procargs.length then none
  else
    let sp := skip (· = nul) procargs path
    if sp = procargs.length then none
    else
      let (w, cp) := argLoop nargs showArgs 0 sp ⟨procargs, none⟩ (procargs.drop sp)
      let w := if environment then envLoop cp w (procargs.drop cp) else w
      match w.np with
      | none => none
      | some np => if np = sp then none else some ⟨w.procargs, sp, np⟩

/-- `"%s"` of a place in memory. -/
def percentS (m : Mem) : Option (List Char) := if nul ∈ m then some (cstr m) else none

/-- `getproclline`: the command line.  `int` is the number that four bytes stand for; a
byte that was not returned is not there to be read. -/
def getproclline (int : Mem → Int32) (getuid pRuid : UInt32) (pComm : Mem) (space : ArgumentSpace)
    (eflg showArgs : Bool) : Except Fault (List Char) :=
  let comm := "(".toList ++ cstr pComm ++ ")".toList
  match space.procargs with
  | none => .ok comm
  | some procargs =>
      if space.argmax = false ∨ space.memory = false then .ok comm
      else if procargs.length < 4 then .error .overflow
      else
        match decode (int (procargs.take 4)) (eflg ∧ (getuid = 0 ∨ pRuid = getuid)) showArgs
            procargs with
        | none => .ok comm
        | some line => inBounds (percentS (line.procargs.drop line.sp))

/-! ### The loops stay inside -/

/-- The NUL that was noted stands in the array, before `cp`. -/
def Walk.Noted (w : Walk) (size sp cp : Nat) : Prop :=
  w.procargs.length = size ∧ ∀ np, w.np = some np → sp ≤ np ∧ np < cp ∧ w.procargs[np]? = some nul

theorem Walk.Noted.next {w : Walk} {size sp cp : Nat} (h : w.Noted size sp cp) :
    w.Noted size sp (cp + 1) :=
  ⟨h.1, fun np hnp => ⟨(h.2 np hnp).1, Nat.lt_succ_of_lt (h.2 np hnp).2.1, (h.2 np hnp).2.2⟩⟩

/-- Converting one NUL leaves the next. -/
theorem Walk.Noted.found {w : Walk} {size sp cp : Nat} (h : w.Noted size sp cp) (hsp : sp ≤ cp)
    (hnul : w.procargs[cp]? = some nul) :
    (w.found cp).Noted size sp (cp + 1) ∧
      (w.found cp).procargs.drop (cp + 1) = w.procargs.drop (cp + 1) := by
  unfold Walk.found
  cases hnp : w.np with
  | none =>
      refine ⟨⟨h.1, fun np heq => ?_⟩, rfl⟩
      obtain rfl := Option.some.inj heq
      exact ⟨hsp, Nat.lt_succ_self cp, hnul⟩
  | some np =>
      have hlt := (h.2 np hnp).2.1
      refine ⟨⟨(List.length_set).trans h.1, fun np' heq => ?_⟩, ?_⟩
      · obtain rfl := Option.some.inj heq
        refine ⟨hsp, Nat.lt_succ_self cp, ?_⟩
        rw [List.getElem?_set_ne hlt.ne]
        exact hnul
      · exact List.drop_set_of_lt (Nat.lt_succ_of_lt hlt)

section

variable {size sp : Nat}

theorem argLoop_noted (nargs : Int32) (showArgs : Bool) (rest : Mem) :
    ∀ (c : Int32) (cp : Nat) (w : Walk), w.Noted size sp cp → sp ≤ cp →
      w.procargs.drop cp = rest →
      (argLoop nargs showArgs c cp w rest).1.Noted size sp
          ((argLoop nargs showArgs c cp w rest).2 + 1) ∧
        sp ≤ (argLoop nargs showArgs c cp w rest).2 := by
  induction rest with
  | nil =>
      intro c cp w h hsp _
      exact ⟨h.next, hsp⟩
  | cons ch rest ih =>
      intro c cp w h hsp hrest
      have hget : w.procargs[cp]? = some ch := by
        rw [← List.head?_drop, hrest]
        rfl
      have htail : w.procargs.drop (cp + 1) = rest := by
        rw [← List.drop_drop, hrest]
        rfl
      unfold argLoop
      split
      · split
        · next hnul =>
            obtain ⟨hfound, hsame⟩ := h.found hsp (hnul ▸ hget)
            split
            · exact ih _ _ _ hfound (Nat.le_succ_of_le hsp) (hsame.trans htail)
            · exact ⟨hfound, hsp⟩
        · exact ih _ _ _ h.next (Nat.le_succ_of_le hsp) htail
      · exact ⟨h.next, hsp⟩

end

/-- **What is printed ends inside the array.** -/
theorem decode_ends {nargs : Int32} {showArgs : Bool} {procargs : Mem} {line : Line}
    (h : decode nargs false showArgs procargs = some line) :
    nul ∈ line.procargs.drop line.sp := by
  unfold decode at h
  dsimp only at h
  split at h
  · cases h
  · split at h
    · cases h
    · generalize skip (· = nul) procargs (skip (· ≠ nul) procargs 4) = sp at h
      have hstart : Walk.Noted ⟨procargs, none⟩ procargs.length sp sp :=
        ⟨rfl, fun np hnp => by cases hnp⟩
      obtain ⟨hnoted, -⟩ := argLoop_noted nargs showArgs (procargs.drop sp) 0 sp ⟨procargs, none⟩
        hstart (Nat.le_refl sp) rfl
      generalize argLoop nargs showArgs 0 sp ⟨procargs, none⟩ (procargs.drop sp) = out at h hnoted
      obtain ⟨w, cp⟩ := out
      rw [if_neg Bool.noConfusion] at h
      cases hnp : w.np with
      | none =>
          rw [hnp] at h
          cases h
      | some np =>
          rw [hnp] at h
          dsimp only at h
          split at h
          · cases h
          · obtain rfl := Option.some.inj h
            obtain ⟨hle, -, hget⟩ := hnoted.2 np hnp
            apply List.mem_of_getElem? (i := np - sp)
            rw [List.getElem?_drop, Nat.add_sub_cancel' hle]
            exact hget

/-- **What is read**: nothing behind the bytes that were returned, if they hold a number at
all. -/
theorem getproclline_inside (int : Mem → Int32) (getuid pRuid : UInt32) (pComm procargs : Mem)
    (showArgs : Bool) :
    (∃ line, getproclline int getuid pRuid pComm ⟨true, true, some procargs⟩ false showArgs =
      .ok line) ↔ 4 ≤ procargs.length := by
  unfold getproclline
  dsimp only
  rw [if_neg (by decide)]
  by_cases hlen : procargs.length < 4
  · rw [if_pos hlen]
    apply iff_of_false _ (Nat.not_le_of_lt hlen)
    intro ⟨line, h⟩
    cases h
  · rw [if_neg hlen]
    refine iff_of_true ?_ (Nat.not_lt.mp hlen)
    have hflag : (decide (false = true ∧ (getuid = 0 ∨ pRuid = getuid))) = false :=
      decide_eq_false fun h => Bool.noConfusion h.1
    rw [hflag]
    cases hdecode : decode (int (procargs.take 4)) false showArgs procargs with
    | none => exact ⟨_, rfl⟩
    | some line =>
        refine ⟨cstr (line.procargs.drop line.sp), ?_⟩
        dsimp only
        rw [percentS, if_pos (decode_ends hdecode)]
        rfl

/-- A command line has no NUL. -/
theorem getproclline_free {int : Mem → Int32} {getuid pRuid : UInt32} {pComm : Mem}
    {space : ArgumentSpace} {eflg showArgs : Bool} {text : List Char}
    (h : getproclline int getuid pRuid pComm space eflg showArgs = .ok text) : nul ∉ text := by
  have hcomm : nul ∉ "(".toList ++ cstr pComm ++ ")".toList := by
    rw [List.mem_append, List.mem_append, not_or, not_or]
    exact ⟨⟨by decide, nul_not_mem_cstr pComm⟩, by decide⟩
  unfold getproclline at h
  dsimp only at h
  split at h
  · exact Except.ok.inj h ▸ hcomm
  · split at h
    · exact Except.ok.inj h ▸ hcomm
    · split at h
      · cases h
      · split at h
        · exact Except.ok.inj h ▸ hcomm
        · next line hdecode =>
            have hprinted := inBounds_eq_ok h
            unfold percentS at hprinted
            split at hprinted
            · exact Option.some.inj hprinted ▸ nul_not_mem_cstr _
            · cases hprinted

/-! ### Strings behind each other -/

/-- Strings with the NULs behind them. -/
def strings (ss : List (List Char)) : Mem := ss.flatMap (· ++ [nul])

theorem strings_cons (s : List Char) (ss : List (List Char)) :
    strings (s :: ss) = s ++ nul :: strings ss := by
  rw [strings, List.flatMap_cons, List.append_assoc]
  rfl

theorem strings_append (ss ss' : List (List Char)) :
    strings (ss ++ ss') = strings ss ++ strings ss' := List.flatMap_append

/-- Joined, they have a blank less than they have NULs. -/
theorem length_intercalate {ss : List (List Char)} (h : ss ≠ []) :
    ([' '].intercalate ss).length + 1 = (strings ss).length := by
  induction ss with
  | nil => exact absurd rfl h
  | cons s ss ih =>
      cases ss with
      | nil => rw [List.intercalate_singleton, strings_cons, List.length_append]; rfl
      | cons next ss =>
          have hrest := ih (List.cons_ne_nil next ss)
          rw [List.intercalate_cons_cons, strings_cons, List.length_append, List.length_append,
            List.length_append, @List.length_cons _ nul, ← hrest, List.length_singleton]
          omega

/-- Two strings with a blank between them are one. -/
theorem intercalate_join (s next : List Char) (ss : List (List Char)) :
    [' '].intercalate ((s ++ ' ' :: next) :: ss) = [' '].intercalate (s :: next :: ss) := by
  cases ss with
  | nil =>
      rw [List.intercalate_cons_cons, List.intercalate_singleton, List.intercalate_singleton,
        List.append_assoc]
      rfl
  | cons last ss =>
      rw [List.intercalate_cons_cons, List.intercalate_cons_cons, List.intercalate_cons_cons]
      simp

section

variable {nargs : Int32}

/-- The loop passes over one string. -/
theorem argLoop_string {s : List Char} (hfree : nul ∉ s) (rest : Mem) {c : Int32} (hc : c < nargs)
    (cp : Nat) (w : Walk) :
    argLoop nargs true c cp w (s ++ nul :: rest) =
      argLoop nargs true (c + 1) (cp + s.length + 1) (w.found (cp + s.length)) rest := by
  induction s generalizing cp with
  | nil =>
      rw [List.nil_append, argLoop, if_pos hc, if_pos rfl, if_pos rfl]
      rfl
  | cons ch s ih =>
      rw [List.mem_cons, not_or] at hfree
      have hch : ch ≠ nul := fun h => hfree.1 h.symm
      have hplace : cp + 1 + s.length = cp + (ch :: s).length := by
        rw [List.length_cons]
        omega
      rw [List.cons_append, argLoop, if_pos hc, if_neg hch, ih hfree.2, hplace]

theorem argLoop_done {c : Int32} (hc : ¬ c < nargs) (cp : Nat) (w : Walk) (rest : Mem) :
    argLoop nargs true c cp w rest = (w, cp) := by
  cases rest with
  | nil => rfl
  | cons ch rest => rw [argLoop, if_neg hc]

theorem toInt_succ {c : Int32} (h : c < nargs) : (c + 1).toInt = c.toInt + 1 := by
  have hlt : c.toInt < nargs.toInt := Int32.lt_iff_toInt_lt.mp h
  have hhi := nargs.toInt_lt
  have hlo := c.le_toInt
  rw [Int32.toInt_add]
  apply Int.bmod_eq_of_le
  · show _ ≤ c.toInt + 1
    omega
  · show c.toInt + 1 < _
    omega

theorem set_blank (pre text rest : Mem) :
    (pre ++ (text ++ nul :: rest)).set (pre.length + text.length) ' ' =
      pre ++ (text ++ ' ' :: rest) := by
  rw [List.set_append_right _ _ (Nat.le_add_right _ _), Nat.add_sub_cancel_left,
    List.set_append_right _ _ (Nat.le_refl _), Nat.sub_self]
  rfl

/-- **The run over strings** behind a first one: as many as are still counted are joined to
it. -/
theorem argLoop_strings {ss : List (List Char)} (hfree : ∀ s ∈ ss, nul ∉ s) (pre : Mem) :
    ∀ (m : Nat) (c : Int32) (text : List Char), c.toInt + m = nargs.toInt →
      (argLoop nargs true c (pre.length + text.length + 1)
        ⟨pre ++ (text ++ nul :: strings ss), some (pre.length + text.length)⟩ (strings ss)).1 =
        ⟨pre ++ ([' '].intercalate (text :: ss.take m) ++ nul :: strings (ss.drop m)),
          some (pre.length + ([' '].intercalate (text :: ss.take m)).length)⟩ := by
  induction ss with
  | nil =>
      intro m c text _
      rw [List.take_nil, List.drop_nil, List.intercalate_singleton]
      rfl
  | cons s ss ih =>
      intro m c text hcount
      cases m with
      | zero =>
          have hc : ¬ c < nargs := fun h => by
            have hlt := Int32.lt_iff_toInt_lt.mp h
            omega
          rw [argLoop_done hc, List.take_zero, List.drop_zero, List.intercalate_singleton]
      | succ m =>
          have hc : c < nargs := Int32.lt_iff_toInt_lt.mpr (by omega)
          have hnext : (c + 1).toInt + m = nargs.toInt := by
            rw [toInt_succ hc]
            omega
          have hs := hfree s List.mem_cons_self
          have hrest := ih (fun t ht => hfree t (List.mem_cons_of_mem _ ht)) m (c + 1)
            (text ++ ' ' :: s) hnext
          have hfound : Walk.found ⟨pre ++ (text ++ nul :: (s ++ nul :: strings ss)),
              some (pre.length + text.length)⟩ (pre.length + text.length + 1 + s.length) =
                ⟨pre ++ ((text ++ ' ' :: s) ++ nul :: strings ss),
                  some (pre.length + (text ++ ' ' :: s).length)⟩ := by
            have hplace : pre.length + text.length + 1 + s.length =
                pre.length + (text ++ ' ' :: s).length := by
              rw [List.length_append, List.length_cons]
              omega
            unfold Walk.found
            dsimp only
            rw [set_blank, hplace, List.append_assoc]
            rfl
          have hplace : pre.length + text.length + 1 + s.length + 1 =
              pre.length + (text ++ ' ' :: s).length + 1 := by
            rw [List.length_append, List.length_cons]
            omega
          rw [strings_cons, argLoop_string hs _ hc, hfound, hplace, hrest, List.take_succ_cons,
            List.drop_succ_cons, intercalate_join]

end

/-! ### The layout -/

/-- What `KERN_PROCARGS2` returns: the number of the arguments, the path, NULs, the
arguments and the environment. -/
structure Layout where
  count : Mem
  path : List Char
  pad : Nat
  argv : List (List Char)
  envp : List (List Char)

def Layout.bytes (l : Layout) : Mem :=
  l.count ++ (l.path ++ (List.replicate l.pad nul ++ (strings l.argv ++ strings l.envp)))

/-- The number is that of the arguments, and not all of these are empty. -/
structure Layout.WellFormed (int : Mem → Int32) (l : Layout) : Prop where
  count : l.count.length = 4
  number : (int l.count).toInt = l.argv.length
  path : nul ∉ l.path
  pad : 0 < l.pad
  argv : ∀ arg ∈ l.argv, nul ∉ arg
  nonempty : ∃ arg ∈ l.argv, arg ≠ []
  envp : ∀ env ∈ l.envp, nul ∉ env

/-- A loop that skips ends at the first character that it does not skip. -/
theorem skip_append {test : Char → Bool} {pre mid : Mem} {c : Char} (hmid : ∀ ch ∈ mid, test ch = true)
    (hc : test c = false) (rest : Mem) :
    skip test (pre ++ (mid ++ c :: rest)) pre.length = pre.length + mid.length := by
  have hstop : ¬ test c = true := fun h => by
    rw [hc] at h
    cases h
  rw [skip, List.drop_left, List.takeWhile_append_of_pos hmid, List.takeWhile_cons_of_neg hstop,
    List.append_nil]

/-- Empty strings are NULs. -/
theorem strings_empty (k : Nat) : strings (List.replicate k []) = List.replicate k nul := by
  induction k with
  | zero => rfl
  | succ k ih => rw [List.replicate_succ, strings_cons, ih]; rfl

/-- The empty arguments before the first that is not. -/
theorem exists_first {argv : List (List Char)} (h : ∃ arg ∈ argv, arg ≠ []) :
    ∃ k first rest, argv = List.replicate k [] ++ first :: rest ∧ first ≠ [] := by
  induction argv with
  | nil =>
      obtain ⟨arg, hmem, -⟩ := h
      cases hmem
  | cons arg argv ih =>
      by_cases hempty : arg = []
      · have hrest : ∃ arg ∈ argv, arg ≠ [] := by
          obtain ⟨arg', hmem, hne⟩ := h
          exact ⟨arg', (List.mem_cons.mp hmem).resolve_left fun heq => hne (heq.trans hempty), hne⟩
        obtain ⟨k, first, rest, rfl, hfirst⟩ := ih hrest
        refine ⟨k + 1, first, rest, ?_, hfirst⟩
        rw [hempty]
        rfl
      · exact ⟨0, arg, argv, rfl, hempty⟩

/-- What stands before the first argument that is not empty, when `k` empty ones do: the NULs
behind the path and those of the empty arguments are one run. -/
def Layout.front (l : Layout) (k : Nat) : Mem :=
  l.count ++ l.path ++ List.replicate (l.pad + k) nul

section

variable {int : Mem → Int32} {l : Layout} {k : Nat} {first : List Char} {rest : List (List Char)}

theorem Layout.bytes_front (hargv : l.argv = List.replicate k [] ++ first :: rest) :
    l.bytes = l.front k ++ (first ++ nul :: strings (rest ++ l.envp)) := by
  rw [Layout.bytes, Layout.front, hargv, strings_append, strings_empty, strings_cons,
    strings_append, List.replicate_add]
  simp only [List.append_assoc, List.cons_append]

theorem Layout.WellFormed.skip_path (h : l.WellFormed int) :
    skip (· ≠ nul) l.bytes 4 = (l.count ++ l.path).length := by
  obtain ⟨pad, hpad⟩ := Nat.exists_eq_succ_of_ne_zero h.pad.ne'
  have hskip := @skip_append (· ≠ nul) l.count l.path nul
    (fun c hc => decide_eq_true fun heq => h.path (heq ▸ hc)) (by decide)
    (List.replicate pad nul ++ (strings l.argv ++ strings l.envp))
  rw [h.count] at hskip
  rw [List.length_append, h.count, ← hskip, Layout.bytes, hpad]
  rfl

theorem Layout.skip_front (hargv : l.argv = List.replicate k [] ++ first :: rest)
    (hfirst : first ≠ []) (hfree : nul ∉ first) :
    skip (· = nul) l.bytes (l.count ++ l.path).length = (l.front k).length := by
  obtain ⟨ch, tail, rfl⟩ := List.exists_cons_of_ne_nil hfirst
  have hnul : ch ≠ nul := fun heq => hfree (by rw [heq]; exact List.mem_cons_self)
  rw [Layout.bytes_front hargv, Layout.front, List.append_assoc (l.count ++ l.path),
    List.cons_append, skip_append (fun c hc => decide_eq_true (List.eq_of_mem_replicate hc))
    (decide_eq_false hnul), @List.length_append _ (l.count ++ l.path)]

/-- **The run over the arguments**: the first that is not empty, and as many strings behind it as
are still counted. -/
theorem argLoop_layout (h : l.WellFormed int)
    (hargv : l.argv = List.replicate k [] ++ first :: rest) :
    (argLoop (int l.count) true 0 (l.front k).length ⟨l.bytes, none⟩
      (l.bytes.drop (l.front k).length)).1 =
        ⟨l.front k ++ ([' '].intercalate (first :: (rest ++ l.envp).take (k + rest.length)) ++
          nul :: strings ((rest ++ l.envp).drop (k + rest.length))),
        some ((l.front k).length +
          ([' '].intercalate (first :: (rest ++ l.envp).take (k + rest.length))).length)⟩ := by
  have hmem : ∀ arg ∈ first :: rest, arg ∈ l.argv := fun arg harg => by
    rw [hargv]
    exact List.mem_append_right _ harg
  have hothers : ∀ s ∈ rest ++ l.envp, nul ∉ s := by
    intro s hs
    rcases List.mem_append.mp hs with hrest | henvp
    · exact h.argv s (hmem s (List.mem_cons_of_mem _ hrest))
    · exact h.envp s henvp
  have hnumber : (int l.count).toInt = k + rest.length + 1 := by
    rw [h.number, hargv, List.length_append, List.length_replicate, List.length_cons]
    omega
  have hzero : (0 : Int32) < int l.count := by
    rw [Int32.lt_iff_toInt_lt, hnumber]
    show (0 : Int) < _
    omega
  have hcount : ((0 : Int32) + 1).toInt + (k + rest.length : Nat) = (int l.count).toInt := by
    rw [toInt_succ hzero, hnumber]
    show (0 : Int) + 1 + _ = _
    omega
  have hfound : Walk.found ⟨l.bytes, none⟩ ((l.front k).length + first.length) =
      ⟨l.front k ++ (first ++ nul :: strings (rest ++ l.envp)),
        some ((l.front k).length + first.length)⟩ := by
    unfold Walk.found
    dsimp only
    rw [Layout.bytes_front hargv]
  rw [show l.bytes.drop (l.front k).length = first ++ nul :: strings (rest ++ l.envp) by
      rw [Layout.bytes_front hargv, List.drop_left],
    argLoop_string (h.argv first (hmem first List.mem_cons_self)) _ hzero, hfound]
  exact argLoop_strings hothers (l.front k) (k + rest.length) (0 + 1) first hcount

/-- **What is decoded**: the empty arguments in front are taken for padding, and as many
strings of the environment are taken for arguments. -/
theorem decode_layout (h : l.WellFormed int)
    (hargv : l.argv = List.replicate k [] ++ first :: rest) (hfirst : first ≠ []) :
    ∃ pre back, pre.length = 4 + l.path.length + l.pad + k ∧
      decode (int l.count) false true l.bytes =
        some ⟨pre ++ ([' '].intercalate (first :: (rest ++ l.envp).take (k + rest.length)) ++
            nul :: back), pre.length,
          pre.length +
            ([' '].intercalate (first :: (rest ++ l.envp).take (k + rest.length))).length⟩ := by
  have hfree : nul ∉ first := by
    apply h.argv first
    rw [hargv]
    exact List.mem_append_right _ List.mem_cons_self
  have hrun := argLoop_layout h hargv
  have hpos := List.length_pos_iff.mpr hfirst
  have hlong : (l.front k).length < l.bytes.length := by
    rw [Layout.bytes_front hargv, List.length_append, List.length_append]
    omega
  have hshort : (l.count ++ l.path).length ≤ (l.front k).length := by
    rw [Layout.front, @List.length_append _ (l.count ++ l.path)]
    exact Nat.le_add_right _ _
  have htext : 0 < ([' '].intercalate (first :: (rest ++ l.envp).take (k + rest.length))).length := by
    have hlen := length_intercalate (List.cons_ne_nil first ((rest ++ l.envp).take (k + rest.length)))
    rw [strings_cons, List.length_append, @List.length_cons _ nul] at hlen
    omega
  refine ⟨l.front k, strings ((rest ++ l.envp).drop (k + rest.length)), ?_, ?_⟩
  · rw [Layout.front, List.length_append, List.length_append, h.count, List.length_replicate]
    omega
  · unfold decode
    dsimp only
    rw [h.skip_path, if_neg (by omega), Layout.skip_front hargv hfirst hfree, if_neg (by omega)]
    generalize argLoop (int l.count) true 0 _ _ _ = out at hrun ⊢
    obtain ⟨w, cp⟩ := out
    dsimp only at hrun ⊢
    rw [if_neg Bool.noConfusion, hrun]
    dsimp only
    rw [if_neg (by omega)]

end

/-- Where the arguments end, and the environment begins. -/
def Layout.environment (l : Layout) : Nat :=
  (l.count ++ l.path ++ List.replicate l.pad nul ++ strings l.argv).length

section

variable (int : Mem → Int32) (getuid pRuid : UInt32) (pComm : Mem) (l : Layout)

/-- **The arguments come out**: the command line is the arguments joined with blanks, and the
NUL that ends it stands before the environment. -/
structure Layout.Exact : Prop where
  text : getproclline int getuid pRuid pComm ⟨true, true, some l.bytes⟩ false true =
    .ok ([' '].intercalate l.argv)
  inside : ∃ line, decode (int l.count) false true l.bytes = some line ∧ line.np < l.environment

variable {int l}

/-- The command line is what is decoded. -/
theorem getproclline_decoded (h : l.WellFormed int) {pre text back : Mem} {np : Nat}
    (hfree : nul ∉ text)
    (hdecode : decode (int l.count) false true l.bytes =
      some ⟨pre ++ (text ++ nul :: back), pre.length, np⟩) :
    getproclline int getuid pRuid pComm ⟨true, true, some l.bytes⟩ false true = .ok text := by
  have hcount : l.bytes.take 4 = l.count := by
    rw [Layout.bytes, ← h.count, List.take_left]
  have hlen : ¬ l.bytes.length < 4 := by
    rw [Layout.bytes, List.length_append, h.count]
    omega
  have hflag : (decide (false = true ∧ (getuid = 0 ∨ pRuid = getuid))) = false :=
    decide_eq_false fun h => Bool.noConfusion h.1
  unfold getproclline
  dsimp only
  rw [if_neg (by decide), if_neg hlen, hcount, hflag, hdecode]
  dsimp only
  rw [List.drop_left, percentS, if_pos (List.mem_append_right _ List.mem_cons_self),
    cstr_terminated hfree]
  rfl

theorem nul_not_mem_intercalate {ss : List (List Char)} (h : ∀ s ∈ ss, nul ∉ s) :
    nul ∉ [' '].intercalate ss := by
  induction ss with
  | nil => exact List.not_mem_nil
  | cons s ss ih =>
      have hs := h s List.mem_cons_self
      have hrest := ih fun t ht => h t (List.mem_cons_of_mem _ ht)
      cases ss with
      | nil =>
          rw [List.intercalate_singleton]
          exact hs
      | cons next ss =>
          rw [List.intercalate_cons_cons, List.mem_append, List.mem_append, List.mem_singleton]
          intro hmem
          rcases hmem with (hmem | hmem) | hmem
          · exact hs hmem
          · exact absurd hmem (by decide)
          · exact hrest hmem

/-- **Which layouts come out**: those whose first argument is not empty. -/
theorem exact_iff (h : l.WellFormed int) :
    l.Exact int getuid pRuid pComm ↔ l.argv.head? ≠ some [] := by
  obtain ⟨k, first, rest, hargv, hfirst⟩ := exists_first h.nonempty
  obtain ⟨pre, back, hpre, hdecode⟩ := decode_layout h hargv hfirst
  have hmem : ∀ arg ∈ first :: rest, arg ∈ l.argv := fun arg harg => by
    rw [hargv]
    exact List.mem_append_right _ harg
  have hfree : nul ∉ [' '].intercalate (first :: (rest ++ l.envp).take (k + rest.length)) := by
    apply nul_not_mem_intercalate
    intro s hs
    rcases List.mem_cons.mp hs with rfl | htake
    · exact h.argv s (hmem s List.mem_cons_self)
    · rcases List.mem_append.mp (List.mem_of_mem_take htake) with hrest | henvp
      · exact h.argv s (hmem s (List.mem_cons_of_mem _ hrest))
      · exact h.envp s henvp
  have hline := getproclline_decoded getuid pRuid pComm h hfree hdecode
  have hend : l.environment = pre.length + (strings (first :: rest)).length := by
    rw [Layout.environment, hpre, hargv, strings_append, strings_empty]
    simp only [List.length_append, List.length_replicate, h.count]
    omega
  have hlen := length_intercalate (List.cons_ne_nil first ((rest ++ l.envp).take (k + rest.length)))
  cases k with
  | zero =>
      have hargs : first :: (rest ++ l.envp).take (0 + rest.length) = l.argv := by
        rw [Nat.zero_add, List.take_left, hargv]
        rfl
      rw [hargs] at hdecode hline hlen
      refine iff_of_true ⟨hline, _, hdecode, ?_⟩ ?_
      · rw [hend, show first :: rest = l.argv from hargv.symm]
        show pre.length + ([' '].intercalate l.argv).length < _
        omega
      · rw [hargv]
        exact fun heq => hfirst (Option.some.inj heq)
  | succ k =>
      refine iff_of_false ?_ (not_not_intro (by rw [hargv]; rfl))
      intro hexact
      obtain ⟨line, hsome, hinside⟩ := hexact.inside
      obtain rfl := Option.some.inj (hsome.symm.trans hdecode)
      have htext := Except.ok.inj (hline.symm.trans hexact.text)
      -- as many bytes are missing for the empty arguments as come from the environment
      have hwhole := length_intercalate (List.ne_nil_of_mem (hmem first List.mem_cons_self))
      have hstrings : (strings l.argv).length = k + 1 + (strings (first :: rest)).length := by
        rw [hargv, strings_append, strings_empty, List.length_append, List.length_replicate]
      have hbefore : pre.length + ([' '].intercalate l.argv).length <
          pre.length + (strings (first :: rest)).length := by
        rw [← hend, ← htext]
        exact hinside
      omega

end

/-- **What `getproclline` decodes.**  For every layout, the arguments come out and nothing of
the environment with them exactly when the first argument is not empty; and of every truncated
layout nothing behind the bytes that were returned is read exactly when these hold the number of
the arguments. -/
theorem getproclline_iff (int : Mem → Int32) (getuid pRuid : UInt32) (pComm : Mem) (l : Layout)
    (h : l.WellFormed int) :
    (l.Exact int getuid pRuid pComm ↔ l.argv.head? ≠ some []) ∧
      ∀ size, (∃ line, getproclline int getuid pRuid pComm
        ⟨true, true, some (l.bytes.take size)⟩ false true = .ok line) ↔ 4 ≤ size := by
  refine ⟨exact_iff getuid pRuid pComm h, fun size => ?_⟩
  have hlen : 4 ≤ l.bytes.length := by
    rw [Layout.bytes, List.length_append, h.count]
    omega
  rw [getproclline_inside, List.length_take]
  omega

/-- Four bytes, the lowest first. -/
def littleEndian (bytes : Mem) : Int32 :=
  (bytes.foldr (fun c n => UInt32.ofNat c.toNat + 256 * n) 0).toInt32

/-- A shell with two arguments, the first one given, and a variable. -/
def shell (arg0 : List Char) : Layout where
  count := [Char.ofNat 2, nul, nul, nul]
  path := "/bin/sh".toList
  pad := 1
  argv := [arg0, "-i".toList]
  envp := ["KEY=1".toList]

theorem shell_wellFormed {arg0 : List Char} (h : nul ∉ arg0) :
    (shell arg0).WellFormed littleEndian where
  count := rfl
  number := rfl
  path := show nul ∉ "/bin/sh".toList by decide
  pad := Nat.one_pos
  argv arg harg := by
    rcases List.mem_cons.mp harg with rfl | hrest
    · exact h
    · obtain rfl := List.mem_singleton.mp hrest
      decide
  nonempty := ⟨"-i".toList, List.mem_cons_of_mem _ List.mem_cons_self, by decide⟩
  envp := by
    intro env henv
    obtain rfl := List.mem_singleton.mp henv
    decide

theorem getproclline_shell :
    (shell "sh".toList).Exact littleEndian 0 0 [] ∧
      ∀ size, (∃ line, getproclline littleEndian 0 0 []
        ⟨true, true, some ((shell "sh".toList).bytes.take size)⟩ false true = .ok line) ↔
          4 ≤ size := by
  obtain ⟨hexact, hinside⟩ := getproclline_iff littleEndian 0 0 [] (shell "sh".toList)
    (shell_wellFormed (by decide))
  exact ⟨hexact.mpr (by decide), hinside⟩

/-- **An empty first argument lets the environment in.** -/
theorem environment_leaked :
    (shell []).WellFormed littleEndian ∧
      getproclline littleEndian 0 0 [] ⟨true, true, some (shell []).bytes⟩ false true =
        .ok "-i KEY=1".toList ∧ ¬ (shell []).Exact littleEndian 0 0 [] := by
  have htext : getproclline littleEndian 0 0 [] ⟨true, true, some (shell []).bytes⟩ false true =
      .ok "-i KEY=1".toList := by
    decide
  refine ⟨shell_wellFormed List.not_mem_nil, htext, fun hexact => ?_⟩
  have hargs : [' '].intercalate (shell []).argv = " -i".toList := rfl
  have hsame := hexact.text
  rw [htext, hargs] at hsame
  exact absurd (Except.ok.inj hsame) (by decide)

end Darwin
