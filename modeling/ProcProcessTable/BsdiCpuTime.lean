import ProcProcessTable.BsdiTable

/-!
# The cpu time on BSD/OS

The cpu time is printed as minutes, seconds and what `roundit` makes of the
microseconds: the first two digits of their text.  These are hundredths of a second
only when the text has six digits.

`cputime_truncated_iff` says for which run times the text is the time truncated to
hundredths; `osGetTable_truncated` that a scan publishes all its processes in that way.
-/

namespace Xs

/-- The minutes, seconds and fraction that the text of a value denotes. -/
def SV.clock : SV → Option (Nat × Nat × ℚ)
  | .pv text => DecimalText.clock text
  | _ => none

end Xs

namespace Bsdi

open CText Xs ProcessTable

/-- The run time is one that a process can have. -/
structure KinfoProc.Timed (proc : KinfoProc) : Prop where
  sec : 0 ≤ proc.rtimeSec.toInt
  usec : 0 ≤ proc.rtimeUsec.toInt ∧ proc.rtimeUsec.toInt < 10 ^ 6

/-- The text of an object is the run time, truncated to hundredths. -/
def KinfoProc.Truncated (proc : KinfoProc) (obj : HV) : Prop :=
  ∃ m ss frac, (obj "time").bind SV.clock = some (m, ss, frac) ∧
    ((60 * m + ss : Nat) : Int) = proc.rtimeSec.toInt ∧
    frac ≤ (proc.rtimeUsec.toInt : ℚ) / 10 ^ 6 ∧
    (proc.rtimeUsec.toInt : ℚ) / 10 ^ 6 < frac + 1 / 100

/-! ### The first two digits -/

section

variable {u : Int32} {n : Nat}

theorem length_percentD_eq (hu : u.toInt = n) : (percentD u).length = (Nat.toDigits 10 n).length := by
  rw [percentD, DecimalText.toList_toString, hu, if_neg (by omega)]
  rfl

theorem power_ten (k : Nat) (h : k < 5) : (power 10 k).toInt = ((10 ^ k : Nat) : Int) := by
  have hall : ∀ k : Fin 5, (power 10 (k : Nat)).toInt = ((10 ^ (k : Nat) : Nat) : Int) := by decide
  exact hall ⟨k, h⟩

/-- One digit stays as it is. -/
theorem roundit_digit (hu : u.toInt = n) (h : n < 10) : roundit u = .ok u := by
  have hlen : (percentD u).length = 1 := by
    rw [length_percentD_eq hu, Nat.toDigits_of_lt_base h]
    rfl
  have hone : u / power 10 ((1 : Nat) - 2) = u := Int32.div_one
  unfold roundit
  dsimp only
  rw [hlen, if_neg (by decide), hone]

/-- **Of more digits the first two stay.** -/
theorem roundit_digits (hu : u.toInt = n) (hlo : 10 ≤ n) (hhi : n < 10 ^ 6) :
    ∃ r k, roundit u = .ok r ∧ r.toInt = ((n / 10 ^ k : Nat) : Int) ∧ k < 5 ∧
      10 ^ (k + 1) ≤ n ∧ n < 10 ^ (k + 2) := by
  obtain ⟨k, hk⟩ : ∃ k, Nat.log 10 n = k + 1 :=
    Nat.exists_eq_succ_of_ne_zero (Nat.log_pos (by decide) hlo).ne'
  have hpow : 10 ^ (k + 1) ≤ n := hk ▸ Nat.pow_log_le_self 10 (by omega)
  have hsucc : n < 10 ^ (k + 2) := by
    have hlt := Nat.lt_pow_succ_log_self (b := 10) (by decide) n
    rw [hk] at hlt
    exact hlt
  have hsmall : k < 5 := by
    have hexp := (Nat.pow_lt_pow_iff_right (by decide)).mp (hpow.trans_lt hhi)
    omega
  have hlen : (percentD u).length = k + 2 := by
    rw [length_percentD_eq hu]
    exact DecimalText.length_toDigits hpow hsucc (Nat.succ_ne_zero k)
  have hcutoff : ((k + 2 : Nat) : Int) - 2 = k := by omega
  have hquot : (u / power 10 k).toInt = ((n / 10 ^ k : Nat) : Int) := by
    have hle : n / 10 ^ k ≤ n := Nat.div_le_self n _
    rw [Int32.toInt_div, hu, power_ten k hsmall, ← Int.ofNat_tdiv]
    generalize n / 10 ^ k = q at hle ⊢
    apply Int.bmod_eq_of_le <;> omega
  refine ⟨u / power 10 k, k, ?_, hquot, hsmall, hpow, hsucc⟩
  unfold roundit
  dsimp only
  rw [hlen, if_neg (by omega), hcutoff]

/-- What stands behind the point, for a number of microseconds. -/
structure Hundredths (n : Nat) (r : Int32) (frac : ℚ) : Prop where
  rounds : 0 ≤ r.toInt ∧ r.toInt < 100
  digits : ∃ f : Nat, DecimalText.natural (percentD r) = some f ∧
    frac = (f : ℚ) / 10 ^ (percentD r).length
  exact_iff : (frac ≤ (n : ℚ) / 10 ^ 6 ∧ (n : ℚ) / 10 ^ 6 < frac + 1 / 100) ↔ n = 0 ∨ 10 ^ 5 ≤ n

/-- One digit is taken for tenths. -/
theorem tenths_iff (h : n < 10) :
    ((n : ℚ) / 10 ≤ (n : ℚ) / 10 ^ 6 ∧ (n : ℚ) / 10 ^ 6 < (n : ℚ) / 10 + 1 / 100) ↔
      n = 0 ∨ 10 ^ 5 ≤ n := by
  constructor
  · intro ⟨hle, _⟩
    left
    by_contra hne
    have hone : (1 : ℚ) ≤ n := by exact_mod_cast Nat.one_le_iff_ne_zero.mpr hne
    linarith
  · intro hcond
    have hzero : n = 0 := by omega
    rw [hzero]
    norm_num

/-- Two digits are hundredths when they are the first of six. -/
theorem hundredths_iff {k : Nat} (hk : k < 5) (hpow : 10 ^ (k + 1) ≤ n) (hsucc : n < 10 ^ (k + 2)) :
    (((n / 10 ^ k : Nat) : ℚ) / 100 ≤ (n : ℚ) / 10 ^ 6 ∧
        (n : ℚ) / 10 ^ 6 < ((n / 10 ^ k : Nat) : ℚ) / 100 + 1 / 100) ↔ n = 0 ∨ 10 ^ 5 ≤ n := by
  by_cases hsix : k = 4
  · subst hsix
    apply iff_of_true _ (Or.inr hpow)
    have hlo : n / 10 ^ 4 * 10 ^ 4 ≤ n := Nat.div_mul_le_self n _
    have hhi : n < (n / 10 ^ 4 + 1) * 10 ^ 4 := by omega
    generalize n / 10 ^ 4 = q at hlo hhi ⊢
    have hloQ : (q : ℚ) * 10 ^ 4 ≤ n := by exact_mod_cast hlo
    have hhiQ : (n : ℚ) < ((q : ℚ) + 1) * 10 ^ 4 := by exact_mod_cast hhi
    constructor <;> linarith
  · have hshort : n < 10 ^ 5 :=
      hsucc.trans_le (Nat.pow_le_pow_right (by decide) (by omega))
    have hpos : n ≠ 0 := (Nat.pos_of_ne_zero (by positivity)).trans_le hpow |>.ne'
    apply iff_of_false
    · intro ⟨hle, _⟩
      have hten : 10 ≤ n / 10 ^ k := by
        rw [Nat.le_div_iff_mul_le (by positivity), Nat.mul_comm, ← pow_succ]
        exact hpow
      have htenQ : (10 : ℚ) ≤ ((n / 10 ^ k : Nat) : ℚ) := by exact_mod_cast hten
      have hshortQ : (n : ℚ) < 10 ^ 5 := by exact_mod_cast hshort
      linarith
    · omega

/-- **The hundredths are right** when there are six digits, or nothing but a zero. -/
theorem roundit_hundredths (hu : u.toInt = n) (h : n < 10 ^ 6) :
    ∃ r frac, roundit u = .ok r ∧ Hundredths n r frac := by
  by_cases hdigit : n < 10
  · have hlen : (percentD u).length = 1 := by
      rw [length_percentD_eq hu, Nat.toDigits_of_lt_base hdigit]
      rfl
    refine ⟨u, (n : ℚ) / 10, roundit_digit hu hdigit, by omega, ⟨n, natural_percentD hu, ?_⟩,
      tenths_iff hdigit⟩
    rw [hlen, pow_one]
  · obtain ⟨r, k, hr, hvalue, hk, hpow, hsucc⟩ := roundit_digits hu (Nat.not_lt.mp hdigit) h
    have hpos : 0 < 10 ^ k := by positivity
    have hlo : 10 ≤ n / 10 ^ k := by
      rw [Nat.le_div_iff_mul_le hpos, Nat.mul_comm, ← pow_succ]
      exact hpow
    have hhi : n / 10 ^ k < 100 := by
      rw [Nat.div_lt_iff_lt_mul hpos, Nat.mul_comm, show (100 : Nat) = 10 ^ 2 from rfl, ← pow_add]
      exact hsucc
    have hlen : (percentD r).length = 2 := by
      rw [length_percentD_eq hvalue]
      exact DecimalText.length_toDigits (k := 1) hlo hhi one_ne_zero
    have hexact := hundredths_iff hk hpow hsucc
    refine ⟨r, ((n / 10 ^ k : Nat) : ℚ) / 100, hr, ?_, ⟨n / 10 ^ k, natural_percentD hvalue, ?_⟩,
      hexact⟩
    · generalize n / 10 ^ k = q at hvalue hlo hhi
      omega
    · rw [hlen]
      norm_num

end

/-! ### The published text -/

/-- The clock that a turn publishes: nothing when the seconds have become negative. -/
theorem clock_cputimeText (seconds : Int32) {n : Nat} {r : Int32} {frac : ℚ}
    (h : Hundredths n r frac) :
    DecimalText.clock (cputimeText seconds r) =
      if seconds.toInt < 0 then none
      else some (seconds.toInt.toNat / 60, seconds.toInt.toNat % 60, frac) := by
  obtain ⟨mm, ss, htext, hparts⟩ := cputimeText_eq seconds r
  obtain ⟨f, hf, hfrac⟩ := h.digits
  rw [htext]
  split
  · next hneg =>
      obtain ⟨hmm, hss, hsign⟩ := hparts.negative hneg
      exact DecimalText.clock_none hmm hss hsign
  · next hpos =>
      obtain ⟨hmm, hss⟩ := hparts.read seconds.toInt.toNat (by omega)
      rw [DecimalText.clock_eq hmm hss hf, ← hfrac]

/-- The conversion of the seconds to an `int` is exact below `2 ^ 31`. -/
theorem seconds_iff {sec : Int64} (h : 0 ≤ sec.toInt) :
    (0 ≤ sec.toInt32.toInt ∧ sec.toInt32.toInt = sec.toInt) ↔ sec.toInt < 2 ^ 31 := by
  have hhi := sec.toInt_lt
  rw [Int64.toInt_toInt32, Int.bmod_def]
  split <;> omega

/-- The value under the name. -/
theorem object_time {m : Machine} {p : Process} {s : Locals m} {call : BlessCall}
    (hrows : call.Rows (rows m p s)) (ttydevs : Option HV) :
    call.object ttydevs "time" = some (.pv s.cputime.string) := by
  have hnodup : call.fields.Nodup := by
    rw [hrows.fields]
    show Fields.Nodup
    decide
  have hrow : (rows m p s)[8]? = some ⟨'s', "time", .ptr (some s.cputime.bytes)⟩ := rfl
  exact hrows.object_at ttydevs hnodup hrow (show "time" ≠ "ttydev" by decide)

/-- **What the text of a turn is read back as**: the seconds of the run time, and the
fraction that `roundit` leaves of its `n` microseconds. -/
theorem turn_clock (m : Machine) (s : Locals m) (p : Process) {ttydevs : Option HV} {n : Nat}
    (hn : p.proc.rtimeUsec.toInt32.toInt = n) (h : n < 10 ^ 6) {obj : HV}
    (hobj : obj ∈ (turn ttydevs (visit m s p).2).1) :
    ∃ r frac, Hundredths n r frac ∧ (obj "time").bind SV.clock =
      if p.proc.rtimeSec.toInt32.toInt < 0 then none
      else some (p.proc.rtimeSec.toInt32.toInt.toNat / 60,
        p.proc.rtimeSec.toInt32.toInt.toNat % 60, frac) := by
  obtain ⟨r, frac, hround, hfrac⟩ := roundit_hundredths hn h
  obtain ⟨s', call, hvisit, hrows, hstring⟩ :=
    visit_call m s p hround hfrac.rounds.1 hfrac.rounds.2
  rw [hvisit] at hobj
  dsimp only at hobj
  rw [turn_call (hrows.made_object ttydevs)] at hobj
  obtain rfl := List.mem_singleton.mp hobj
  refine ⟨r, frac, hfrac, ?_⟩
  rw [object_time hrows, hstring, Option.bind_some, SV.clock, clock_cputimeText _ hfrac]

/-- The microseconds as `roundit` gets them. -/
theorem KinfoProc.Timed.micros {proc : KinfoProc} (htimed : proc.Timed) :
    ∃ n : Nat, proc.rtimeUsec.toInt = n ∧ proc.rtimeUsec.toInt32.toInt = n ∧ n < 10 ^ 6 := by
  obtain ⟨-, husec, hmicros⟩ := htimed
  obtain ⟨n, hn⟩ := Int.eq_ofNat_of_zero_le husec
  refine ⟨n, hn, ?_, by omega⟩
  rw [Int64.toInt_toInt32, hn]
  apply Int.bmod_eq_of_le <;> omega

/-- **One turn**: the text is the run time truncated when an `int` holds the seconds, and the
microseconds have six digits or are zero. -/
theorem turn_truncated_iff (m : Machine) (s : Locals m) (p : Process) (htimed : p.proc.Timed)
    {ttydevs : Option HV} {obj : HV} (hobj : obj ∈ (turn ttydevs (visit m s p).2).1) :
    p.proc.Truncated obj ↔ p.proc.rtimeSec.toInt < 2 ^ 31 ∧
      (p.proc.rtimeUsec.toInt = 0 ∨ 10 ^ 5 ≤ p.proc.rtimeUsec.toInt) := by
  obtain ⟨n, hn, hint, hlt⟩ := htimed.micros
  obtain ⟨r, frac, hfrac, hclock⟩ := turn_clock m s p hint hlt hobj
  have hexact := hfrac.exact_iff
  have hcond : p.proc.rtimeUsec.toInt = 0 ∨ 10 ^ 5 ≤ p.proc.rtimeUsec.toInt ↔
      n = 0 ∨ 10 ^ 5 ≤ n := by
    omega
  rw [hcond, ← seconds_iff htimed.sec, ← hexact]
  unfold KinfoProc.Truncated
  rw [hclock, hn, Int.cast_natCast]
  constructor
  · intro ⟨m, ss, frac', hread, htotal, hle, hlt⟩
    split at hread
    · cases hread
    · next hpos =>
        cases hread
        refine ⟨⟨by omega, ?_⟩, hle, hlt⟩
        rw [← htotal]
        omega
  · intro ⟨⟨hpos, hsame⟩, hle, hlt⟩
    refine ⟨_, _, frac, if_neg (by omega), ?_, hle, hlt⟩
    rw [← hsame]
    omega

/-- **Which run times are published truncated.**  In every scan, the text of a process is its
run time truncated to hundredths exactly when an `int` holds its seconds, and its microseconds
have six digits or are zero. -/
theorem cputime_truncated_iff (m : Machine) (ttydevs : Option HV) (residue : Locals m)
    (pre : List Process) (p : Process) (htimed : p.proc.Timed) :
    ∀ obj ∈ addedBy (visit m) ttydevs residue pre p,
      (p.proc.Truncated obj ↔ p.proc.rtimeSec.toInt < 2 ^ 31 ∧
        (p.proc.rtimeUsec.toInt = 0 ∨ 10 ^ 5 ≤ p.proc.rtimeUsec.toInt)) :=
  fun _ hobj => turn_truncated_iff m _ p htimed (mem_turn_of_addedBy _ _ hobj)

/-- **A whole scan**: every process is published, in the order of `kvm_getprocs`, and its text
is its run time truncated under the same condition. -/
theorem osGetTable_truncated (m : Machine) (ttydevs : Option HV) (residue : Locals m)
    {procs : List Process} (htimed : ∀ p ∈ procs, p.proc.Timed) :
    (osGetTable m true (some procs) residue).ends ttydevs = none ∧
      List.Forall₂ (fun p obj => p.proc.Truncated obj ↔ p.proc.rtimeSec.toInt < 2 ^ 31 ∧
          (p.proc.rtimeUsec.toInt = 0 ∨ 10 ^ 5 ≤ p.proc.rtimeUsec.toInt)) procs
        ((osGetTable m true (some procs) residue).objects ttydevs) := by
  have hstep : ∀ p ∈ procs, ∀ s, ∃ s' call, visit m s p = (s', .ok (some call)) ∧
      (call.made ttydevs = ([call.object ttydevs], none) ∧
        (p.proc.Truncated (call.object ttydevs) ↔ p.proc.rtimeSec.toInt < 2 ^ 31 ∧
          (p.proc.rtimeUsec.toInt = 0 ∨ 10 ^ 5 ≤ p.proc.rtimeUsec.toInt))) := by
    intro p hp s
    obtain ⟨n, -, hint, hlt⟩ := (htimed p hp).micros
    obtain ⟨r, frac, hround, hfrac⟩ := roundit_hundredths hint hlt
    obtain ⟨s', call, hvisit, hrows, -⟩ :=
      visit_call m s p hround hfrac.rounds.1 hfrac.rounds.2
    have hmade := hrows.made_object ttydevs
    have hobj : call.object ttydevs ∈ (turn ttydevs (visit m s p).2).1 := by
      rw [hvisit, turn_call hmade]
      exact List.mem_singleton_self _
    exact ⟨s', call, hvisit, hmade, turn_truncated_iff m s p (htimed p hp) hobj⟩
  obtain ⟨hends, hall⟩ := loopScan_objects procs hstep residue ttydevs fun _ _ h => h.1
  refine ⟨hends, hall.imp ?_⟩
  rintro p obj ⟨call, h, rfl⟩
  exact h.2

/-- A machine with a small array, whose `strftime` leaves the text as it is. -/
def sampleMachine : Machine := ⟨16, 22, fun _ _ started => started, fun _ => 0⟩

/-- Cleared variables. -/
def Locals.cleared (m : Machine) : Locals m where
  now := 0
  sesid := 0
  format := .cleared 17
  state := .cleared 20
  cputime := .cleared 20
  started := .cleared 20
  session := .cleared 20
  shortsess := .cleared 20
  cmndline := .cleared (m.ARG_MAX + 1)

/-- A process that has run for 1.05 seconds. -/
def twentieth : Process where
  proc := ⟨0, .SRUN, 1, 50000, 0xf0, 0, 0, 42, 1, 42, 22, ['w', nul], ['d', nul]⟩
  devname := none
  pStart := none
  leader := none
  argv := none
  time := 0

/-- What a scan of this process alone publishes. -/
theorem twentieth_added :
    ∃ obj, addedBy (visit sampleMachine) none (Locals.cleared sampleMachine) [] twentieth = [obj] ∧
      obj "time" = some (.pv "0:01.50".toList) := by
  have htime : (addedBy (visit sampleMachine) none (Locals.cleared sampleMachine) []
      twentieth).map (fun obj => obj "time") = [some (.pv "0:01.50".toList)] := by
    decide
  obtain ⟨obj, rest, hadded, hobj, hrest⟩ := List.map_eq_cons_iff.mp htime
  obtain rfl := List.map_eq_nil_iff.mp hrest
  exact ⟨obj, hadded, hobj⟩

theorem cputime_truncated_twentieth :
    ∃ obj ∈ addedBy (visit sampleMachine) none (Locals.cleared sampleMachine) [] twentieth,
      (twentieth.proc.Truncated obj ↔ twentieth.proc.rtimeSec.toInt < 2 ^ 31 ∧
        (twentieth.proc.rtimeUsec.toInt = 0 ∨ 10 ^ 5 ≤ twentieth.proc.rtimeUsec.toInt)) := by
  obtain ⟨obj, hadded, -⟩ := twentieth_added
  have hmem : obj ∈ addedBy (visit sampleMachine) none (Locals.cleared sampleMachine) []
      twentieth := by
    rw [hadded]
    exact List.mem_singleton_self obj
  exact ⟨obj, hmem, cputime_truncated_iff sampleMachine none (Locals.cleared sampleMachine) []
    twentieth ⟨by decide, by decide⟩ obj hmem⟩

/-- **A twentieth of a second is published as a half.** -/
theorem twentieth_as_half :
    twentieth.proc.Timed ∧
      ∃ obj, addedBy (visit sampleMachine) none (Locals.cleared sampleMachine) [] twentieth = [obj] ∧
        obj "time" = some (.pv "0:01.50".toList) ∧ ¬ twentieth.proc.Truncated obj := by
  obtain ⟨obj, hadded, hobj⟩ := twentieth_added
  refine ⟨⟨by decide, by decide⟩, obj, hadded, hobj, ?_⟩
  intro ⟨m, ss, frac, hread, _, hle, _⟩
  have hclock : DecimalText.clock "0:01.50".toList = some (0, 1, ((50 : Nat) : ℚ) / 10 ^ 2) :=
    @DecimalText.clock_eq "0".toList "01".toList "50".toList 0 1 50 rfl rfl rfl
  have husec : twentieth.proc.rtimeUsec.toInt = 50000 := rfl
  rw [hobj, Option.bind_some, SV.clock, hclock, Option.some.injEq, Prod.mk.injEq,
    Prod.mk.injEq] at hread
  rw [husec, ← hread.2.2] at hle
  norm_num at hle

end Bsdi
