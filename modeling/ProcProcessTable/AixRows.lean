import ProcProcessTable.AixScan

/-!
# The rows of aix.c

A process is published with what the arrays and the format hold when its turn gets to
`bless_into_proc`.  `own_iff` says behind which processes that is the same as when it
stands alone: there all of it was written in its own turn.  `publishedAsAlone_iff` carries
this to whole scans whose format has room for `Fullformat`; `not_publishedAsAlone` is about
the array the port declares, which has not.
-/

namespace Aix

open CText Xs ProcessTable

/-! ### The format -/

/-- `Fullformat`, with the characters of the state and of the memory share. -/
def formatChars (stat prm : Char) : List Char :=
  "lllllllls".toList ++ stat :: "lsllllllllllllllllllll".toList ++ prm :: "ss".toList

/-- The turn of this process puts `'S'` into the format. -/
def Entry.Undefines (e : Entry) : Prop := e.info.piStat ≠ .SNONE ∧ e.info.piStat.text = none

instance (e : Entry) : Decidable e.Undefines := inferInstanceAs (Decidable (_ ∧ _))

def statChar (pre : List Entry) : Char := if ∃ p ∈ pre, p.Undefines then 'S' else 's'

def prmChar (sys : System) : Char := if sys.Sysmem = 0 then 'S' else 's'

/-- The call for a process that `getuser` does not know. -/
def zombCall (sys : System) (p : Procinfo) (state wchan : Mem) : BlessCall :=
  ⟨Zombformat, ZombFields, zombArgs sys p state wchan⟩

/-- The call for any other, with this character for the state. -/
def fullCall (sys : System) (p : Procinfo) (u : Userinfo) (stat : Char) (state wchan args : Mem) :
    BlessCall :=
  ⟨formatChars stat (prmChar sys) ++ [nul], FullFields,
    fullArgs sys p u state wchan (comm sys p u) args⟩

/-- What the format holds behind these processes. -/
def FormatBehind (sys : System) (pre : List Entry) (s : Locals sys) : Prop :=
  ∃ prm, (prm = 's' ∨ prm = prmChar sys) ∧ s.format = formatChars (statChar pre) prm ++ [nul]

theorem statChar_concat (pre : List Entry) (e : Entry) :
    statChar (pre ++ [e]) = if e.Undefines then 'S' else statChar pre := by
  unfold statChar
  by_cases h : e.Undefines
  · rw [if_pos h, if_pos ⟨e, List.mem_append_right _ (List.mem_singleton_self e), h⟩]
  · rw [if_neg h]
    apply if_congr _ rfl rfl
    constructor
    · intro ⟨p, hp, hundef⟩
      rcases List.mem_append.mp hp with hpre | hlast
      · exact ⟨p, hpre, hundef⟩
      · exact absurd (List.mem_singleton.mp hlast ▸ hundef) h
    · intro ⟨p, hp, hundef⟩
      exact ⟨p, List.mem_append_left _ hp, hundef⟩

theorem statChar_cases (pre : List Entry) : statChar pre = 's' ∨ statChar pre = 'S' := by
  unfold statChar
  split
  · exact Or.inr rfl
  · exact Or.inl rfl

theorem prmChar_cases (sys : System) : prmChar sys = 's' ∨ prmChar sys = 'S' := by
  unfold prmChar
  split
  · exact Or.inr rfl
  · exact Or.inl rfl

/-! ### One turn -/

section

variable {sys : System} (s : Locals sys) (e : Entry)

/-- What `wchan` holds behind the turn. -/
def wchanBehind : Mem :=
  match e.info.piWchan with
  | none => s.wchan
  | some p => strcpy s.wchan (sys.printPointer p)

/-- What `state` holds behind the turn. -/
def stateBehind : Mem :=
  match e.info.piStat.text with
  | none => s.state
  | some text => strcpy s.state text

variable {s e}

theorem sprintWchan_eq :
    sprintWchan sys s.wchan e.info.piWchan = none ∧ e.Overflows sys ∨
      sprintWchan sys s.wchan e.info.piWchan = some (wchanBehind s e) ∧
        ∀ p, e.info.piWchan = some p → (sys.printPointer p).length < sizeofWchan := by
  unfold sprintWchan wchanBehind
  cases hwchan : e.info.piWchan with
  | none =>
      refine Or.inr ⟨rfl, fun p h => ?_⟩
      cases h
  | some p =>
      dsimp only
      by_cases hlong : sizeofWchan ≤ (sys.printPointer p).length
      · exact Or.inl ⟨if_pos hlong, .wchan p hwchan hlong⟩
      · refine Or.inr ⟨if_neg hlong, fun p' h => ?_⟩
        obtain rfl := Option.some.inj h
        exact Nat.not_le.mp hlong

/-- The `switch` leaves the text and the character of the state. -/
theorem setState_behind {pre : List Entry} (hformat : FormatBehind sys pre s)
    (hstat : e.info.piStat ≠ .SNONE) :
    (setState s e.info.piStat).state = stateBehind s e ∧
      (setState s e.info.piStat).wchan = s.wchan ∧ (setState s e.info.piStat).args = s.args ∧
      (setState s e.info.piStat).arglist = s.arglist ∧
      FormatBehind sys (pre ++ [e]) (setState s e.info.piStat) := by
  obtain ⟨prm, hprm, hchars⟩ := hformat
  unfold setState stateBehind
  cases htext : e.info.piStat.text with
  | some text =>
      refine ⟨rfl, rfl, rfl, rfl, prm, hprm, ?_⟩
      rw [statChar_concat, if_neg (fun h => Option.some_ne_none text (htext.symm.trans h.2))]
      exact hchars
  | none =>
      refine ⟨rfl, rfl, rfl, rfl, prm, hprm, ?_⟩
      rw [statChar_concat, if_pos ⟨hstat, htext⟩]
      dsimp only
      rw [hchars]
      rfl

/-- **The turn of a process that `getuser` knows.** -/
theorem publish_full {pre : List Entry} {u : Userinfo} (hformat : FormatBehind sys pre s) :
    (e.TooLong sys u → (publish sys s e u).2 = .error .overflow) ∧
      (¬ e.TooLong sys u → FormatBehind sys pre (publish sys s e u).1 ∧
        ∃ out arglist', arguments sys s.args s.arglist e u = some (out, arglist', comm sys e.info u) ∧
          (publish sys s e u).2 =
            .ok (some (fullCall sys e.info u (statChar pre) s.state s.wchan out.bytes))) := by
  obtain ⟨prm, hprm, hchars⟩ := hformat
  unfold publish fullCall
  constructor
  · intro hlong
    cases harguments : arguments sys s.args s.arglist e u with
    | none => rfl
    | some out =>
        obtain ⟨out, arglist', last⟩ := out
        dsimp only
        rw [if_pos]
        rcases hlong with ⟨text, hprinted, hlong⟩ | hpct
        · have hnone := (arguments_printed sys s.args s.arglist e u hprinted).1.mpr hlong
          rw [harguments] at hnone
          cases hnone
        · exact hpct
  · intro hfits
    obtain ⟨out, arglist', harguments⟩ := arguments_some sys s.args s.arglist hfits
    rw [harguments]
    dsimp only
    rw [if_neg fun hpct => hfits (Or.inr hpct)]
    unfold prmChar at hprm ⊢
    by_cases hmem : sys.Sysmem = 0
    · have hset : (s.format.set F_PRM 'S') = formatChars (statChar pre) 'S' ++ [nul] := by
        rw [hchars]
        rfl
      rw [if_pos hmem] at hprm
      rw [if_pos hmem, if_pos hmem]
      refine ⟨⟨'S', Or.inr (if_pos hmem).symm, hset⟩, out, arglist', rfl, ?_⟩
      dsimp only
      rw [hset]
    · rw [if_neg hmem, or_self] at hprm
      rw [if_neg hmem, if_neg hmem]
      subst hprm
      refine ⟨⟨'s', Or.inl rfl, hchars⟩, out, arglist', rfl, ?_⟩
      dsimp only
      rw [hchars]

/-- A process overflows in a turn that gets so far, or all its texts fit. -/
theorem overflows_iff
    (hwchan : ∀ p, e.info.piWchan = some p → (sys.printPointer p).length < sizeofWchan) :
    e.Overflows sys ↔ e.info.piStat ≠ .SNONE ∧ ∃ u, e.user = some u ∧ e.TooLong sys u := by
  constructor
  · intro h
    cases h with
    | wchan p hp hlong => exact absurd (hwchan p hp) (Nat.not_lt.mpr hlong)
    | user u hstat huser hlong => exact ⟨hstat, u, huser, hlong⟩
  · intro ⟨hstat, u, huser, hlong⟩
    exact .user u hstat huser hlong

/-- **One turn**: it ends the scan when a text overflows, passes over a slot without a
process, and otherwise gets to one of two calls. -/
theorem visit_cases {pre : List Entry} (hformat : FormatBehind sys pre s) :
    (e.Overflows sys → (visit sys s e).2 = .error .overflow) ∧
      (¬ e.Overflows sys → FormatBehind sys (pre ++ [e]) (visit sys s e).1 ∧
        (e.info.piStat = .SNONE → (visit sys s e).2 = .ok none) ∧
        (e.info.piStat ≠ .SNONE →
          (e.user = none → (visit sys s e).2 =
            .ok (some (zombCall sys e.info (stateBehind s e) (wchanBehind s e)))) ∧
          (∀ u, e.user = some u → ∃ out arglist',
            arguments sys s.args s.arglist e u = some (out, arglist', comm sys e.info u) ∧
              (visit sys s e).2 = .ok (some (fullCall sys e.info u (statChar (pre ++ [e]))
                (stateBehind s e) (wchanBehind s e) out.bytes))))) := by
  unfold visit
  rcases @sprintWchan_eq sys s e with ⟨hprint, hover⟩ | ⟨hprint, hwchan⟩
  · rw [hprint]
    exact ⟨fun _ => rfl, fun hfits => absurd hover hfits⟩
  · rw [hprint, overflows_iff hwchan]
    dsimp only
    have hformat' : FormatBehind sys pre { s with wchan := wchanBehind s e } := hformat
    by_cases hstat : e.info.piStat = .SNONE
    · rw [if_pos hstat]
      refine ⟨fun h => absurd hstat h.1, fun _ => ⟨?_, fun _ => rfl, fun h => absurd hstat h⟩⟩
      obtain ⟨prm, hprm, hchars⟩ := hformat'
      refine ⟨prm, hprm, ?_⟩
      rw [statChar_concat, if_neg (fun h => h.1 hstat)]
      exact hchars
    · rw [if_neg hstat]
      obtain ⟨hstate, hwait, hargs, harglist, hbehind⟩ := setState_behind hformat' hstat
      cases huser : e.user with
      | none =>
          refine ⟨fun ⟨_, u, h, _⟩ => absurd h (Option.some_ne_none u).symm, fun _ => ?_⟩
          refine ⟨hbehind, fun h => absurd h hstat, fun _ => ⟨fun _ => ?_, fun u h => ?_⟩⟩
          · dsimp only
            rw [hstate, hwait]
            rfl
          · cases h
      | some u =>
          obtain ⟨hlong, hfits⟩ := publish_full (e := e) (u := u) hbehind
          dsimp only
          constructor
          · intro ⟨_, u', h, htoo⟩
            obtain rfl := Option.some.inj h
            exact hlong htoo
          · intro hno
            have hshort : ¬ e.TooLong sys u := fun htoo => hno ⟨hstat, u, rfl, htoo⟩
            obtain ⟨hafter, out, arglist', harguments, hcall⟩ := hfits hshort
            refine ⟨hafter, fun h => absurd h hstat, fun _ => ⟨fun h => ?_, fun u' h => ?_⟩⟩
            · cases h
            · obtain rfl := Option.some.inj h
              rw [hargs, harglist] at harguments
              refine ⟨out, arglist', harguments, ?_⟩
              rw [hcall, hstate, hwait]
              rfl

end

/-! ### What is published -/

theorem cstr_formatChars {stat prm : Char} (hstat : stat = 's' ∨ stat = 'S')
    (hprm : prm = 's' ∨ prm = 'S') :
    cstr (formatChars stat prm ++ [nul]) = formatChars stat prm := by
  apply cstr_terminated
  rcases hstat with rfl | rfl
  · rcases hprm with rfl | rfl <;> decide
  · rcases hprm with rfl | rfl <;> decide

section

variable (sys : System) (p : Procinfo) (u : Userinfo) (ttydevs : Option HV)
variable {state state' wchan wchan' args args' : Mem}

theorem zombCall_rows :
    (zombCall sys p state wchan).Rows
      (callRows Zombformat ZombFields (zombArgs sys p state wchan)) :=
  BlessCall.rows_of (show cstr Zombformat = Zombformat by decide) rfl rfl rfl

theorem fullCall_rows {stat : Char} (hstat : stat = 's' ∨ stat = 'S') :
    (fullCall sys p u stat state wchan args).Rows (callRows (formatChars stat (prmChar sys))
      FullFields (fullArgs sys p u state wchan (comm sys p u) args)) := by
  have hprm := prmChar_cases sys
  refine BlessCall.rows_of (cstr_formatChars hstat hprm) rfl rfl ?_
  generalize prmChar sys = prm at hprm ⊢
  rcases hstat with rfl | rfl
  · rcases hprm with rfl | rfl <;> rfl
  · rcases hprm with rfl | rfl <;> rfl

/-- A process that `getuser` does not know is published with the state and the wait channel
that it is given. -/
theorem zombCall_object (state wchan : Mem) (ttydevs : Option HV) :
    (zombCall sys p state wchan).object ttydevs "stat" = some (.pv (cstr state)) ∧
      (zombCall sys p state wchan).object ttydevs "wchan" = some (.pv (cstr wchan)) := by
  have hnodup : ZombFields.Nodup := by decide
  have hstat : (callRows Zombformat ZombFields (zombArgs sys p state wchan))[9]? =
      some ⟨'s', "stat", .ptr (some state)⟩ := rfl
  have hwchan : (callRows Zombformat ZombFields (zombArgs sys p state wchan))[11]? =
      some ⟨'s', "wchan", .ptr (some wchan)⟩ := rfl
  have hrows := @zombCall_rows sys p state wchan
  constructor
  · exact hrows.object_at ttydevs hnodup hstat (show "stat" ≠ "ttydev" by decide)
  · exact hrows.object_at ttydevs hnodup hwchan (show "wchan" ≠ "ttydev" by decide)

/-- Any other process is published with these, and with the arguments. -/
theorem fullCall_object (state wchan args : Mem) (ttydevs : Option HV) {stat : Char}
    (hstat : stat = 's' ∨ stat = 'S') :
    (fullCall sys p u stat state wchan args).object ttydevs "stat" =
        some (if stat = 's' then .pv (cstr state) else .undef) ∧
      (fullCall sys p u stat state wchan args).object ttydevs "wchan" = some (.pv (cstr wchan)) ∧
      (fullCall sys p u stat state wchan args).object ttydevs "cmndline" = some (.pv (cstr args)) := by
  have hrows := @fullCall_rows sys p u state wchan args stat hstat
  generalize comm sys p u = comm at hrows
  have hnodup : FullFields.Nodup := by decide
  have hstatrow : (callRows (formatChars stat (prmChar sys)) FullFields
      (fullArgs sys p u state wchan comm args))[9]? =
        some ⟨stat, "stat", .ptr (some state)⟩ := rfl
  have hwchan : (callRows (formatChars stat (prmChar sys)) FullFields
      (fullArgs sys p u state wchan comm args))[11]? =
        some ⟨'s', "wchan", .ptr (some wchan)⟩ := rfl
  have hcmndline : (callRows (formatChars stat (prmChar sys)) FullFields
      (fullArgs sys p u state wchan comm args))[34]? =
        some ⟨'s', "cmndline", .ptr (some args)⟩ := rfl
  refine ⟨?_, ?_, ?_⟩
  · refine (hrows.object_at ttydevs hnodup hstatrow
      (show "stat" ≠ "ttydev" by decide)).trans ?_
    rcases hstat with rfl | rfl <;> rfl
  · exact hrows.object_at ttydevs hnodup hwchan (show "wchan" ≠ "ttydev" by decide)
  · exact hrows.object_at ttydevs hnodup hcmndline (show "cmndline" ≠ "ttydev" by decide)

/-- Texts with the same strings make the same object. -/
theorem zombCall_congr (hstate : cstr state = cstr state') (hwchan : cstr wchan = cstr wchan') :
    (zombCall sys p state wchan).object ttydevs = (zombCall sys p state' wchan').object ttydevs := by
  rw [(zombCall_rows sys p).object_strings, (zombCall_rows sys p).object_strings]
  unfold zombCall zombArgs
  simp only [List.map_cons, List.map_nil, stringSlot, hstate, hwchan]

/-- So they do here, and the text of a state whose character is `S` is not read at all. -/
theorem fullCall_congr {stat : Char} (hstat : stat = 's' ∨ stat = 'S')
    (hstate : stat = 's' → cstr state = cstr state') (hwchan : cstr wchan = cstr wchan')
    (hargs : cstr args = cstr args') :
    (fullCall sys p u stat state wchan args).object ttydevs =
      (fullCall sys p u stat state' wchan' args').object ttydevs := by
  have hstrings : ∀ {state' : Mem}, cstr state = cstr state' →
      (fullCall sys p u stat state wchan args).object ttydevs =
        (fullCall sys p u stat state' wchan' args').object ttydevs := by
    intro state' hstate'
    rw [(fullCall_rows sys p u hstat).object_strings, (fullCall_rows sys p u hstat).object_strings]
    unfold fullCall fullArgs
    simp only [List.map_cons, List.map_nil, stringSlot, hstate', hwchan, hargs]
  rcases hstat with rfl | rfl
  · exact hstrings (hstate rfl)
  · refine (hstrings rfl).trans ?_
    apply (fullCall_rows sys p u (Or.inr rfl)).object_congr ttydevs
      (fullCall_rows sys p u (Or.inr rfl))
    rfl

end

/-! ### The scan -/

section

variable {sys : System} {s : Locals sys} {e : Entry} {pre : List Entry} (ttydevs : Option HV)

/-- **A process whose texts fit is published**, with what the arrays hold. -/
theorem turn_published (hformat : FormatBehind sys pre s) (hfits : ¬ e.Overflows sys)
    (hstat : e.info.piStat ≠ .SNONE) :
    ∃ obj, turn ttydevs (visit sys s e).2 = ([obj], none) ∧
      obj "wchan" = some (.pv (cstr (wchanBehind s e))) ∧
      (e.user = none → obj "stat" = some (.pv (cstr (stateBehind s e)))) ∧
      ∀ u, e.user = some u →
        obj "stat" = some (if statChar (pre ++ [e]) = 's' then .pv (cstr (stateBehind s e))
          else .undef) ∧
        ∃ out arglist', arguments sys s.args s.arglist e u = some (out, arglist', comm sys e.info u) ∧
          obj "cmndline" = some (.pv (cstr out.bytes)) := by
  obtain ⟨-, -, hcalls⟩ := (visit_cases hformat).2 hfits
  obtain ⟨hzomb, hfull⟩ := hcalls hstat
  cases huser : e.user with
  | none =>
      obtain ⟨hstate, hwchan⟩ :=
        zombCall_object sys e.info (stateBehind s e) (wchanBehind s e) ttydevs
      rw [hzomb huser]
      refine ⟨_, turn_call ((zombCall_rows sys e.info).made_object ttydevs), hwchan,
        fun _ => hstate, fun u h => ?_⟩
      cases h
  | some u =>
      obtain ⟨out, arglist', harguments, hcall⟩ := hfull u huser
      have hchar := statChar_cases (pre ++ [e])
      obtain ⟨hstate, hwchan, hcmndline⟩ := fullCall_object sys e.info u (stateBehind s e)
        (wchanBehind s e) out.bytes ttydevs hchar
      rw [hcall]
      refine ⟨_, turn_call ((fullCall_rows sys e.info u hchar).made_object ttydevs), hwchan,
        fun h => ?_, fun u' h => ?_⟩
      · cases h
      · obtain rfl := Option.some.inj h
        exact ⟨hstate, out, arglist', harguments, hcmndline⟩

/-- Any other adds nothing, and ends the scan when a text overflows. -/
theorem turn_nothing (hformat : FormatBehind sys pre s)
    (h : e.Overflows sys ∨ e.info.piStat = .SNONE) :
    (turn ttydevs (visit sys s e).2).1 = [] := by
  obtain ⟨hover, hfits⟩ := visit_cases (e := e) hformat
  by_cases hoverflows : e.Overflows sys
  · rw [hover hoverflows]
    rfl
  · rw [(hfits hoverflows).2.1 (h.resolve_left hoverflows)]
    rfl

theorem turn_ends_iff (hformat : FormatBehind sys pre s) :
    (turn ttydevs (visit sys s e).2).2 = none ↔ ¬ e.Overflows sys := by
  by_cases hoverflows : e.Overflows sys
  · rw [(visit_cases hformat).1 hoverflows]
    exact iff_of_false (Option.some_ne_none _) (not_not_intro hoverflows)
  · apply iff_of_true _ hoverflows
    by_cases hstat : e.info.piStat = .SNONE
    · rw [((visit_cases hformat).2 hoverflows).2.1 hstat]
      rfl
    · obtain ⟨obj, hturn, -⟩ := turn_published ttydevs hformat hoverflows hstat
      rw [hturn]

/-- **The format behind any processes**, and where the scan ends. -/
theorem scan_behind (residue : Locals sys) (pre : List Entry) :
    ((loopScan (visit sys) residue.copied pre).ends ttydevs = none ↔ ∀ p ∈ pre, ¬ p.Overflows sys) ∧
      ((∀ p ∈ pre, ¬ p.Overflows sys) →
        FormatBehind sys pre (CarriedState.after (visit sys) residue.copied pre)) := by
  apply ends_none_iff (visit sys) (I := FormatBehind sys) (F := fun p => p.Overflows sys)
  · exact ⟨'s', Or.inl rfl, rfl⟩
  · intro pre s e hformat
    exact ⟨turn_ends_iff ttydevs hformat, fun hfits => ((visit_cases hformat).2 hfits).1⟩

end

/-- All that is published of a process is its own, behind these processes. -/
structure OwnValues (sys : System) (pre : List Entry) (e : Entry) : Prop where
  wchan : e.info.piWchan ≠ none
  state : e.user = none → e.info.piStat.text ≠ none
  defined : e.user ≠ none → e.info.piStat.text ≠ none → ∀ p ∈ pre, ¬ p.Undefines
  arguments : ∀ u, e.user = some u → e.Ended sys u

theorem cstr_ne_longer (m : Mem) : cstr m ≠ cstr ('x' :: m) := by
  intro h
  have hlen : (cstr m).length = (cstr m).length + 1 := congrArg List.length h
  omega

section

variable {sys : System} {pre : List Entry} {e : Entry}

/-- **Where the values are not a process's own**, two scans publish it differently. -/
theorem ownValues_of_own (hown : OwnBehind (visit sys) Locals.copied pre e)
    (hpre : ∀ p ∈ pre, ¬ p.Overflows sys) (hfits : ¬ e.Overflows sys)
    (hstat : e.info.piStat ≠ .SNONE) : OwnValues sys pre e := by
  rw [ownBehind_iff] at hown
  have hscan := fun residue : Locals sys => scan_behind none residue pre
  let residue : Locals sys := ⟨[], [], [], uniform sys nul, uniform sys nul⟩
  have hformat := (hscan residue).2 hpre
  have hsame := fun r' => hown none residue r' ((hscan residue).1.mpr hpre)
  generalize CarriedState.after (visit sys) residue.copied pre = s at hformat hsame
  have hstart : ∀ r' : Locals sys, FormatBehind sys [] r'.copied := fun r' => ⟨'s', Or.inl rfl, rfl⟩
  obtain ⟨obj, hturn, hwchan, hzomb, hfull⟩ := turn_published none hformat hfits hstat
  have hequal : ∀ (r' : Locals sys) obj',
      turn none (visit sys r'.copied e).2 = ([obj'], none) → obj = obj' := by
    intro r' obj' hturn'
    apply hsame r' obj (by rw [hturn]; exact List.mem_singleton_self obj)
    rw [hturn']
    exact List.mem_singleton_self obj'
  -- For each value that is not its own, a run of the process alone in which just that differs.
  constructor
  · intro hnull
    obtain ⟨obj', hturn', hwchan', -⟩ := turn_published none
      (hstart { residue with wchan := 'x' :: s.wchan }) hfits hstat
    rw [hequal _ obj' hturn', hwchan'] at hwchan
    unfold wchanBehind at hwchan
    rw [hnull] at hwchan
    exact cstr_ne_longer s.wchan (SV.pv.inj (Option.some.inj hwchan)).symm
  · intro huser hunknown
    obtain ⟨obj', hturn', -, hzomb', -⟩ := turn_published none
      (hstart { residue with state := 'x' :: s.state }) hfits hstat
    have hstate := hzomb huser
    rw [hequal _ obj' hturn', hzomb' huser] at hstate
    unfold stateBehind at hstate
    rw [hunknown] at hstate
    exact cstr_ne_longer s.state (SV.pv.inj (Option.some.inj hstate)).symm
  · intro huser hknown p hp hundef
    obtain ⟨u, huser⟩ := Option.ne_none_iff_exists'.mp huser
    obtain ⟨obj', hturn', -, -, hfull'⟩ := turn_published none (hstart residue) hfits hstat
    have hstate := (hfull u huser).1
    have hbehind : statChar (pre ++ [e]) = 'S' := if_pos ⟨p, List.mem_append_left _ hp, hundef⟩
    have halone : statChar ([] ++ [e]) = 's' := by
      rw [statChar_concat, if_neg fun h => hknown h.2]
      rfl
    rw [hequal _ obj' hturn', (hfull' u huser).1, hbehind, halone] at hstate
    cases hstate
  · intro u huser
    by_contra hunended
    obtain ⟨-, out, arglist', harguments, hcmndline⟩ := hfull u huser
    have htoo : ¬ e.TooLong sys u := fun htoo => hfits (.user u hstat huser htoo)
    obtain ⟨c, out₁, arglist₁, hother, hlength⟩ :=
      exists_other_length sys hunended htoo (strlen out.bytes)
    obtain ⟨obj', hturn', -, -, hfull'⟩ := turn_published none
      (hstart { residue with args := uniform sys c, arglist := uniform sys c }) hfits hstat
    obtain ⟨-, out', arglist', harguments', hcmndline'⟩ := hfull' u huser
    obtain rfl := (Prod.mk.inj (Option.some.inj (harguments'.symm.trans hother))).1
    rw [hequal _ obj' hturn', hcmndline'] at hcmndline
    exact hlength (congrArg List.length (SV.pv.inj (Option.some.inj hcmndline)))

theorem OwnValues.wchanBehind_eq (hown : OwnValues sys pre e) (s s' : Locals sys) :
    cstr (wchanBehind s e) = cstr (wchanBehind s' e) := by
  obtain ⟨p, hp⟩ := Option.ne_none_iff_exists'.mp hown.wchan
  unfold wchanBehind
  rw [hp]
  exact (cstr_strcpy _ _).trans (cstr_strcpy _ _).symm

theorem stateBehind_eq (hknown : e.info.piStat.text ≠ none) (s s' : Locals sys) :
    cstr (stateBehind s e) = cstr (stateBehind s' e) := by
  obtain ⟨text, htext⟩ := Option.ne_none_iff_exists'.mp hknown
  unfold stateBehind
  rw [htext]
  exact (cstr_strcpy _ _).trans (cstr_strcpy _ _).symm

/-- The format character of the state is what it is for the process alone. -/
theorem OwnValues.statChar_eq (hown : OwnValues sys pre e) (hstat : e.info.piStat ≠ .SNONE)
    (huser : e.user ≠ none) : statChar (pre ++ [e]) = statChar ([] ++ [e]) := by
  rw [statChar_concat, statChar_concat]
  by_cases hundef : e.Undefines
  · rw [if_pos hundef, if_pos hundef]
  · have hknown : e.info.piStat.text ≠ none := fun h => hundef ⟨hstat, h⟩
    have hall := hown.defined huser hknown
    rw [if_neg hundef, if_neg hundef]
    exact if_neg fun ⟨p, hp, h⟩ => hall p hp h

/-- **Where they are**, a process is published as it is alone. -/
theorem own_of_ownValues (hvalues : (∀ p ∈ pre, ¬ p.Overflows sys) → ¬ e.Overflows sys →
    e.info.piStat ≠ .SNONE → OwnValues sys pre e) : OwnBehind (visit sys) Locals.copied pre e := by
  rw [ownBehind_iff]
  intro ttydevs residue residue' hends obj hobj obj' hobj'
  obtain ⟨hiff, hbehind⟩ := scan_behind ttydevs residue pre
  have hpre := hiff.mp hends
  have hformat := hbehind hpre
  have hformat' : FormatBehind sys [] residue'.copied := ⟨'s', Or.inl rfl, rfl⟩
  generalize CarriedState.after (visit sys) residue.copied pre = s at hformat hobj
  by_cases hnothing : e.Overflows sys ∨ e.info.piStat = .SNONE
  · rw [turn_nothing ttydevs hformat hnothing] at hobj
    exact absurd hobj List.not_mem_nil
  · rw [not_or] at hnothing
    obtain ⟨hfits, hstat⟩ := hnothing
    have hown := hvalues hpre hfits hstat
    obtain ⟨-, -, hcalls⟩ := (visit_cases hformat).2 hfits
    obtain ⟨-, -, hcalls'⟩ := (visit_cases hformat').2 hfits
    have hwchan := hown.wchanBehind_eq s residue'.copied
    cases huser : e.user with
    | none =>
        rw [(hcalls hstat).1 huser,
          turn_call ((zombCall_rows sys e.info).made_object ttydevs)] at hobj
        rw [(hcalls' hstat).1 huser,
          turn_call ((zombCall_rows sys e.info).made_object ttydevs)] at hobj'
        rw [List.mem_singleton.mp hobj, List.mem_singleton.mp hobj']
        exact zombCall_congr sys e.info ttydevs (stateBehind_eq (hown.state huser) s _) hwchan
    | some u =>
        obtain ⟨out, arglist, harguments, hcall⟩ := (hcalls hstat).2 u huser
        obtain ⟨out', arglist', harguments', hcall'⟩ := (hcalls' hstat).2 u huser
        have hchars := hown.statChar_eq hstat (by rw [huser]; exact Option.some_ne_none u)
        have hread : statChar ([] ++ [e]) = 's' →
            cstr (stateBehind s e) = cstr (stateBehind residue'.copied e) := by
          intro hchar
          apply stateBehind_eq
          intro hunknown
          rw [statChar_concat, if_pos ⟨hstat, hunknown⟩] at hchar
          cases hchar
        obtain ⟨text, htext⟩ := arguments_ended sys (hown.arguments u huser)
        have hargs : cstr out.bytes = cstr out'.bytes :=
          (htext _ _ _ harguments).trans (htext _ _ _ harguments').symm
        have hcases := statChar_cases ([] ++ [e])
        rw [hcall, hchars, turn_call ((fullCall_rows sys e.info u hcases).made_object ttydevs)] at hobj
        rw [hcall', turn_call ((fullCall_rows sys e.info u hcases).made_object ttydevs)] at hobj'
        rw [List.mem_singleton.mp hobj, List.mem_singleton.mp hobj']
        exact fullCall_congr sys e.info u ttydevs hcases hread hwchan hargs

end

/-- **Behind which processes a process is published as it is alone.** -/
theorem own_iff (sys : System) (pre : List Entry) (e : Entry) :
    OwnBehind (visit sys) Locals.copied pre e ↔
      ((∀ p ∈ pre, ¬ p.Overflows sys) → ¬ e.Overflows sys → e.info.piStat ≠ .SNONE →
        OwnValues sys pre e) :=
  ⟨fun hown hpre hfits hstat => ownValues_of_own hown hpre hfits hstat, own_of_ownValues⟩

/-! ### The copy of the format -/

/-- **In an array that is too small the copy leaves it**, and the scan ends there. -/
theorem osGetTableIn_small {size : Nat} (sys : System) (h : size < (Fullformat ++ [nul]).length)
    (residue : Locals sys) (procs : List Entry) (ttydevs : Option HV) :
    (osGetTableIn size sys residue procs).ends ttydevs = some .overflow ∧
      (osGetTableIn size sys residue procs).objects ttydevs = [] := by
  have hstart : residue.start size = none := if_pos h
  unfold osGetTableIn
  rw [hstart]
  exact ⟨rfl, rfl⟩

theorem osGetTableIn_large {size : Nat} (sys : System) (h : (Fullformat ++ [nul]).length ≤ size)
    (residue : Locals sys) (procs : List Entry) :
    osGetTableIn size sys residue procs =
      loopScan (visit sys) residue.copied (procs.take MAX_PROCS) := by
  have hstart : residue.start size = some residue.copied := if_neg (Nat.not_lt.mpr h)
  unfold osGetTableIn
  rw [hstart]

/-- `format` is too small. -/
theorem sizeofFormat_small : sizeofFormat < (Fullformat ++ [nul]).length := by
  decide

/-- **No process is published as it is alone**, for no scan gets to one. -/
theorem not_publishedAsAlone (sys : System) (pre : List Entry) (e : Entry) :
    ¬ PublishedAsAlone (osGetTable sys) pre e := by
  intro h
  let residue : Locals sys := ⟨[], [], [], uniform sys nul, uniform sys nul⟩
  have hends := (h none residue residue).1
  rw [osGetTable, (osGetTableIn_small sys sizeofFormat_small residue _ none).1] at hends
  cases hends

/-- **With room for the format** a process is published as it is alone when nothing
overflows so far and its values are its own. -/
theorem publishedAsAlone_iff {size : Nat} (sys : System)
    (h : (Fullformat ++ [nul]).length ≤ size) (pre : List Entry) (e : Entry) :
    PublishedAsAlone (osGetTableIn size sys) pre e ↔
      (∀ p ∈ (pre ++ [e]).take MAX_PROCS, ¬ p.Overflows sys) ∧
        (pre.length < MAX_PROCS → e.info.piStat ≠ .SNONE → OwnValues sys pre e) := by
  have hends : ∀ ttydevs (r : Locals sys), (osGetTableIn size sys r (pre ++ [e])).ends ttydevs =
      none ↔ ∀ p ∈ (pre ++ [e]).take MAX_PROCS, ¬ p.Overflows sys := by
    intro ttydevs r
    rw [osGetTableIn_large sys h]
    exact (scan_behind ttydevs r _).1
  by_cases hseen : pre.length < MAX_PROCS
  · have hpre : pre.take MAX_PROCS = pre := List.take_of_length_le (Nat.le_of_lt hseen)
    have hall : (pre ++ [e]).take MAX_PROCS = pre ++ [e] := by
      apply List.take_of_length_le
      rw [List.length_append, List.length_singleton]
      omega
    have hloop : PublishedAsAlone (osGetTableIn size sys) pre e ↔
        PublishedAsAlone (fun r => loopScan (visit sys) (Locals.copied r)) pre e := by
      have hone : [e].take MAX_PROCS = [e] := rfl
      unfold PublishedAsAlone
      simp only [osGetTableIn_large sys h, hpre, hall, hone]
    rw [hloop, publishedAsAlone_loop_iff, own_iff, hall, List.forall_mem_append,
      List.forall_mem_singleton]
    have hfits : (∀ ttydevs (r : Locals sys), (loopScan (visit sys) r.copied (pre ++ [e])).ends
        ttydevs = none) ↔ (∀ p ∈ pre, ¬ p.Overflows sys) ∧ ¬ e.Overflows sys := by
      rw [← List.forall_mem_singleton (p := fun p : Entry => ¬ p.Overflows sys),
        ← List.forall_mem_append]
      constructor
      · intro hall
        exact (scan_behind none ⟨[], [], [], uniform sys nul, uniform sys nul⟩ _).1.mp (hall _ _)
      · exact fun hall ttydevs r => (scan_behind ttydevs r _).1.mpr hall
    rw [hfits]
    refine and_congr_right fun ⟨hpre, hfits⟩ => ?_
    exact ⟨fun hown _ => hown hpre hfits, fun hown _ _ => hown hseen⟩
  · have hpre : (pre ++ [e]).take MAX_PROCS = pre.take MAX_PROCS :=
      List.take_append_of_le_length (Nat.not_lt.mp hseen)
    constructor
    · intro hown
      let residue : Locals sys := ⟨[], [], [], uniform sys nul, uniform sys nul⟩
      exact ⟨(hends none residue).mp (hown none residue residue).1, fun hlt => absurd hlt hseen⟩
    · intro ⟨hfits, _⟩ ttydevs r r'
      refine ⟨(hends ttydevs r).mpr hfits, fun obj hobj => ?_⟩
      rw [osGetTableIn_large sys h, osGetTableIn_large sys h, hpre, List.drop_length] at hobj
      exact absurd hobj List.not_mem_nil

end Aix
