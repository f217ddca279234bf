import ProcProcessTable.DarwinThreads
import ProcProcessTable.OpenBsdTable

/-!
# The share of the cpu on Darwin

The shares of the threads of a process are added up, and printed in percent with one
digit behind the point into an array of 6 bytes.  The sum counts every thread that the
loop sees, and its arithmetic is that of an `int`.

`usage_described_iff` says when the text is the sum of the shares that were obtained,
`osGetTable_usage` what is then published.
-/

namespace Darwin

open CText Xs ProcessTable

/-! ### The sum -/

theorem foldl_add (l : List Int32) (a : Int32) :
    l.foldl (· + ·) a = a + l.foldl (· + ·) 0 := by
  have hassoc := @List.foldl_assoc Int32 (· + ·) _ l a 0
  rw [Int32.add_zero] at hassoc
  exact hassoc

/-- The sum, as far as an `int` holds it. -/
theorem toInt_foldl_add (l : List Int32) (a : Int32) :
    (l.foldl (· + ·) a).toInt = (a.toInt + (l.map Int32.toInt).sum).bmod (2 ^ 32) := by
  induction l generalizing a with
  | nil =>
      rw [List.foldl_nil, List.map_nil, List.sum_nil, Int.add_zero]
      exact ((OpenBsd.bmod_eq_self_iff _).mpr ⟨a.le_toInt, a.toInt_lt⟩).symm
  | cons x l ih =>
      rw [List.foldl_cons, ih, Int32.toInt_add, Int.bmod_add_bmod, List.map_cons, List.sum_cons,
        Int.add_assoc]

/-- **Where an answer is missing, memory can make the sum anything.** -/
theorem exists_fresh_sum {threads : List Thread} (h : ∃ thread ∈ threads, thread.basicInfo = none)
    (a v : Int32) :
    ∃ fresh, ((seen fresh threads).map ThreadBasicInfo.cpuUsage).foldl (· + ·) a = v := by
  induction threads generalizing a with
  | nil =>
      obtain ⟨thread, hmem, -⟩ := h
      cases hmem
  | cons thread threads ih =>
      cases hinfo : thread.basicInfo with
      | none =>
          -- the share that is made up fills the sum of the others up to the value
          let others := ((seen (fun _ => madeUp .RUNNING) threads).map
            ThreadBasicInfo.cpuUsage).foldl (· + ·) 0
          refine ⟨fun j => Nat.casesOn j ⟨v - a - others, .other 0, .RUNNING, 0⟩
            fun _ => madeUp .RUNNING, ?_⟩
          have hseen : seen (fun j => Nat.casesOn j ⟨v - a - others, .other 0, .RUNNING, 0⟩
              fun _ => madeUp .RUNNING) (thread :: threads) =
                ⟨v - a - others, .other 0, .RUNNING, 0⟩ ::
                  seen (fun _ => madeUp .RUNNING) threads := by
            rw [seen, hinfo]
            rfl
          rw [hseen, List.map_cons, List.foldl_cons, foldl_add]
          show a + (v - a - others) + others = v
          grind
      | some tb =>
          have hrest : ∃ thread ∈ threads, thread.basicInfo = none := by
            obtain ⟨thread', hmem, hnone⟩ := h
            rcases List.mem_cons.mp hmem with rfl | htail
            · rw [hinfo] at hnone
              cases hnone
            · exact ⟨thread', htail, hnone⟩
          obtain ⟨fresh, hfresh⟩ := ih hrest (a + tb.cpuUsage)
          refine ⟨fun j => Nat.casesOn j (madeUp .RUNNING) fresh, ?_⟩
          have hseen : seen (fun j => Nat.casesOn j (madeUp .RUNNING) fresh) (thread :: threads) =
              tb :: seen fresh threads := by
            rw [seen, hinfo]
            rfl
          rw [hseen, List.map_cons, List.foldl_cons]
          exact hfresh

/-- The sum of the shares that were obtained. -/
def Process.usage (m : Machine) (p : Process) : Int :=
  ((p.obtained m).map fun tb => tb.cpuUsage.toInt).sum

/-! ### The text -/

section

variable {u : Int32} {n : Nat}

theorem toInt_scaled (hu : u.toInt = n) {k : Int32} {c : Nat} (hk : k.toInt = c)
    (h : n * c < 2 ^ 31) : (u * k).toInt = ((n * c : Nat) : Int) := by
  rw [Int32.toInt_mul, hu, hk, ← Nat.cast_mul]
  apply (OpenBsd.bmod_eq_self_iff _).mpr
  unfold OpenBsd.FitsInt
  generalize n * c = x at h
  omega

theorem toInt_divided {x d : Int32} {a b : Nat} (hx : x.toInt = a) (hd : d.toInt = b)
    (h : a < 2 ^ 31) : (x / d).toInt = ((a / b : Nat) : Int) := by
  have hle := Nat.div_le_self a b
  rw [Int32.toInt_div, hx, hd, ← Int.ofNat_tdiv]
  apply (OpenBsd.bmod_eq_self_iff _).mpr
  unfold OpenBsd.FitsInt
  generalize a / b = q at hle
  omega

theorem toInt_usageToPercent (hu : u.toInt = n) (h : n ≤ 9999) :
    (usageToPercent u).toInt = ((n / 10 : Nat) : Int) := by
  have hmul := @toInt_scaled u n hu 100 100 rfl (by omega)
  have hquot : n * 100 / 1000 = n / 10 := by omega
  rw [usageToPercent, toInt_divided hmul (show TH_USAGE_SCALE.toInt = (1000 : Nat) from rfl)
    (by omega), hquot]

theorem toInt_usageToTenths (hu : u.toInt = n) (h : n ≤ 9999) :
    (usageToTenths u).toInt = ((n % 10 : Nat) : Int) := by
  have hmul := @toInt_scaled u n hu 1000 1000 rfl (by omega)
  have hquot := toInt_divided hmul (show TH_USAGE_SCALE.toInt = (1000 : Nat) from rfl) (by omega)
  have hten : (10 : Int32).toInt = (10 : Nat) := rfl
  rw [usageToTenths, Int32.toInt_mod, hquot, hten, ← Int.ofNat_tmod, Nat.mul_div_cancel _ (by decide)]

/-- **A sum of at most 9999 is printed in percent**, in five characters at most. -/
theorem pctcpuText_value (hu : u.toInt = n) (h : n ≤ 9999) :
    DecimalText.value (pctcpuText u) = some ((n : ℚ) / 10) ∧ (pctcpuText u).length < 6 := by
  have hpercent := toInt_usageToPercent hu h
  have htenths := toInt_usageToTenths hu h
  have hwhole : DecimalText.natural (toString (usageToPercent u).toInt).toList = some (n / 10) := by
    rw [DecimalText.natural_toList_toString, hpercent, if_neg (by omega)]
    rfl
  have hfrac : DecimalText.natural (toString (usageToTenths u).toInt).toList = some (n % 10) := by
    rw [DecimalText.natural_toList_toString, htenths, if_neg (by omega)]
    rfl
  have hlenWhole := (@DecimalText.length_toString_le (usageToPercent u).toInt 2
    (by rw [hpercent]; omega)).2 (by omega)
  have hlenFrac := (@DecimalText.length_toString_le (usageToTenths u).toInt 0
    (by rw [htenths]; omega)).2 (by omega)
  have hne := List.length_pos_iff.mpr (DecimalText.natural_some_iff.mp hfrac).1
  have hone : (toString (usageToTenths u).toInt).toList.length = 1 := by omega
  unfold pctcpuText
  constructor
  · rw [DecimalText.value_point hwhole hfrac, hone, pow_one]
    have hsplit : n = 10 * (n / 10) + n % 10 := by omega
    have hsplitQ : (n : ℚ) = 10 * ((n / 10 : Nat) : ℚ) + ((n % 10 : Nat) : ℚ) := by
      exact_mod_cast hsplit
    rw [hsplitQ]
    congr 1
    ring
  · rw [List.length_append, List.length_cons]
    omega

end

/-! ### What is published -/

/-- **The share of a process is described**: whatever the memory for the answers held, the sum is
that of the shares that were obtained, the text denotes it in percent, fits the array with the
NUL behind it, and is what every scan publishes. -/
def Process.UsageDescribed (m : Machine) (p : Process) : Prop :=
  ∀ fresh, (Entry.kinfo m ⟨p, fresh⟩).cpuUsage.toInt = p.usage m ∧
    DecimalText.value (pctcpuText (Entry.kinfo m ⟨p, fresh⟩).cpuUsage) =
      some ((p.usage m : ℚ) / 10) ∧
    (pctcpuText (Entry.kinfo m ⟨p, fresh⟩).cpuUsage).length < 6 ∧
    ∀ ttydevs residue pre, ∀ obj ∈ addedBy (visit m) ttydevs residue pre ⟨p, fresh⟩,
      obj "pctcpu" = some (.pv (pctcpuText (Entry.kinfo m ⟨p, fresh⟩).cpuUsage))

/-- Where every answer is there, the sum is that of the shares, if an `int` holds it. -/
theorem cpuUsage_eq {m : Machine} {p : Process} (hcomplete : p.Complete m)
    (hlo : 0 ≤ p.usage m) (hhi : p.usage m < 2 ^ 31) (fresh : Nat → ThreadBasicInfo) :
    (Entry.kinfo m ⟨p, fresh⟩).cpuUsage.toInt = p.usage m := by
  rcases kinfo_cases m p fresh with ⟨hnone, -, hzero⟩ | ⟨threads, hthreads, hfailed, hrun⟩
  · rw [hzero, Process.usage, obtained_nil (Or.inl hnone)]
    rfl
  · cases hthval : p.thval with
    | false =>
        rw [(hfailed hthval).2, Process.usage, obtained_nil (Or.inr hthval)]
        rfl
    | true =>
        have hall := hcomplete.all hthreads hthval
        have hzero : (0 : Int32).toInt = 0 := rfl
        rw [(hrun hthval).2, toInt_foldl_add, seen_eq fresh hall, ← obtained_eq hthreads hthval,
          List.map_map, hzero, Int.zero_add]
        apply (OpenBsd.bmod_eq_self_iff _).mpr
        exact ⟨by show _ ≤ p.usage m; omega, hhi⟩

/-- Where an answer is missing, memory decides. -/
theorem complete_of_described {m : Machine} {p : Process}
    (h : ∀ fresh, (Entry.kinfo m ⟨p, fresh⟩).cpuUsage.toInt = p.usage m) : p.Complete m := by
  intro hthval thread hthread hnone
  have hsum : ∀ v : Int32, v.toInt = p.usage m := by
    intro v
    cases hthreads : p.threads m with
    | none =>
        rw [hthreads] at hthread
        cases hthread
    | some threads =>
        rw [hthreads] at hthread
        have hmissing : ∃ thread ∈ threads, thread.basicInfo = none := ⟨thread, hthread, hnone⟩
        obtain ⟨fresh, hfresh⟩ := exists_fresh_sum hmissing 0 v
        rcases kinfo_cases m p fresh with ⟨hnone', -⟩ | ⟨threads', hsome, -, hrun⟩
        · rw [hthreads] at hnone'
          cases hnone'
        · obtain rfl := Option.some.inj (hthreads.symm.trans hsome)
          have hvalue := h fresh
          rw [(hrun hthval).2, hfresh] at hvalue
          exact hvalue
  have hsame : (0 : Int32).toInt = (1 : Int32).toInt := (hsum 0).trans (hsum 1).symm
  exact absurd hsame (by decide)

/-- A sum of shares that are not negative. -/
theorem usage_nonneg {m : Machine} {p : Process}
    (husage : ∀ tb ∈ p.obtained m, 0 ≤ tb.cpuUsage.toInt) : 0 ≤ p.usage m := by
  apply List.sum_nonneg
  intro x hx
  obtain ⟨tb, htb, rfl⟩ := List.mem_map.mp hx
  exact husage tb htb

/-- Below a thousand percent the text denotes the sum of the shares, and fits. -/
theorem pctcpuText_described {m : Machine} {p : Process} (hnonneg : 0 ≤ p.usage m)
    (hcomplete : p.Complete m) (hsmall : p.usage m ≤ 9999) (fresh : Nat → ThreadBasicInfo) :
    (Entry.kinfo m ⟨p, fresh⟩).cpuUsage.toInt = p.usage m ∧
      DecimalText.value (pctcpuText (Entry.kinfo m ⟨p, fresh⟩).cpuUsage) =
        some ((p.usage m : ℚ) / 10) ∧
      (pctcpuText (Entry.kinfo m ⟨p, fresh⟩).cpuUsage).length < 6 := by
  have hsum := cpuUsage_eq hcomplete hnonneg (by omega) fresh
  obtain ⟨n, hn⟩ := Int.eq_ofNat_of_zero_le hnonneg
  obtain ⟨hvalue, hlength⟩ := pctcpuText_value (hsum.trans hn) (by omega)
  refine ⟨hsum, ?_, hlength⟩
  rw [hvalue, hn]
  rfl

/-- **Which shares are described.**  For threads whose shares are not negative, the text is their
sum, and fits, exactly when every answer is there and the sum is below a thousand percent. -/
theorem usage_described_iff (m : Machine) (p : Process)
    (husage : ∀ tb ∈ p.obtained m, 0 ≤ tb.cpuUsage.toInt) :
    p.UsageDescribed m ↔ p.Complete m ∧ p.usage m ≤ 9999 := by
  constructor
  · intro h
    refine ⟨complete_of_described fun fresh => (h fresh).1, ?_⟩
    obtain ⟨-, hvalue, hlength, -⟩ := h fun _ => madeUp .RUNNING
    have hpoint : '.' ∈ pctcpuText (Entry.kinfo m ⟨p, fun _ => madeUp .RUNNING⟩).cpuUsage :=
      List.mem_append_right _ List.mem_cons_self
    have hlt := DecimalText.value_lt hvalue hpoint
    have hpow : (10 : ℚ) ^ ((pctcpuText
        (Entry.kinfo m ⟨p, fun _ => madeUp .RUNNING⟩).cpuUsage).length - 2) ≤ 10 ^ 3 :=
      pow_le_pow_right₀ (by norm_num) (by omega)
    have hthousand : (p.usage m : ℚ) < 10000 := by linarith
    have hint : p.usage m < 10000 := by exact_mod_cast hthousand
    omega
  · intro ⟨hcomplete, hsmall⟩ fresh
    obtain ⟨hsum, hvalue, hlength⟩ :=
      pctcpuText_described (usage_nonneg husage) hcomplete hsmall fresh
    refine ⟨hsum, hvalue, hlength, fun ttydevs residue pre obj hobj => ?_⟩
    obtain ⟨-, -, -, -, -, -, hpctcpu⟩ := turn_object (mem_turn_of_addedBy _ _ hobj)
    exact hpctcpu

/-- **The shares of a whole scan**: under that condition the text of a process denotes its share,
and fits. -/
theorem osGetTable_usage (m : Machine) (ttydevs : Option HV) (residue : Locals)
    {sysctl : Nat → Option (List Entry)} {kprocbuf : List Entry}
    (hanswer : (List.range 1001).findSome? sysctl = some kprocbuf) :
    List.SublistForall₂ (fun (obj : HV) (e : Entry) =>
        (∀ tb ∈ e.process.obtained m, 0 ≤ tb.cpuUsage.toInt) → e.process.Complete m →
        e.process.usage m ≤ 9999 → ∃ text, obj "pctcpu" = some (.pv text) ∧
          DecimalText.value text = some ((e.process.usage m : ℚ) / 10) ∧ text.length < 6)
      ((osGetTable m true true sysctl residue).objects ttydevs) kprocbuf.reverse := by
  apply osGetTable_sublist m ttydevs residue hanswer
  intro s e obj hobj husage hcomplete hsmall
  obtain ⟨-, -, -, -, -, -, hpctcpu⟩ := turn_object hobj
  obtain ⟨-, hvalue, hlength⟩ :=
    pctcpuText_described (usage_nonneg husage) hcomplete hsmall e.fresh
  exact ⟨_, hpctcpu, hvalue, hlength⟩

/-- A process with some busy threads. -/
def busy (k : Nat) : Process :=
  sampleProcess (List.replicate k (sampleThread (some ⟨1000, .TIMESHARE, .RUNNING, 0⟩)))

theorem usage_described_busy :
    (∀ tb ∈ (busy 9).obtained sampleMachine, 0 ≤ tb.cpuUsage.toInt) ∧
      (busy 9).UsageDescribed sampleMachine := by
  have husage : ∀ tb ∈ (busy 9).obtained sampleMachine, 0 ≤ tb.cpuUsage.toInt := by decide
  refine ⟨husage, (usage_described_iff sampleMachine (busy 9) husage).mpr ⟨?_, by decide⟩⟩
  intro _
  decide

/-- **Ten busy threads overflow the array.** -/
theorem busy_overflow :
    pctcpuText (Entry.kinfo sampleMachine ⟨busy 10, fun _ => madeUp .RUNNING⟩).cpuUsage =
        "1000.0".toList ∧ ¬ (busy 10).UsageDescribed sampleMachine := by
  refine ⟨by decide, fun h => ?_⟩
  obtain ⟨-, -, hlength, -⟩ := h fun _ => madeUp .RUNNING
  exact absurd hlength (by decide)

end Darwin
