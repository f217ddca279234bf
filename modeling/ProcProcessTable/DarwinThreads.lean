import ProcProcessTable.DarwinTable

/-!
# What is published about the threads of a process on Darwin

`mach_state_order` numbers the states of threads from the most active one on, and
`States` has the words for the numbers of `p_stat`.  The two meet in the index of
`OS_get_table`, and agree for few processes only.

`state_described_iff` says for which: for every content of the memory that `thread_info`
does not fill in where it fails, and for the threads that a process has, whether the kernel
tells about them or not.  `osGetTable_states` has the objects of a whole scan.
-/

namespace Darwin

open CText Xs ProcessTable

/-! ### The threads of a process -/

/-- The threads that the loop goes over, if `get_task_info` gets there. -/
def Process.threads (m : Machine) (p : Process) : Option (List Thread) :=
  p.task.bind (Task.reached m.shared)

/-- There is memory for the answers about them. -/
def Process.thval (p : Process) : Bool := p.task.any Task.thval

/-- What `thread_info` answers about them. -/
def Process.obtained (m : Machine) (p : Process) : List ThreadBasicInfo :=
  if p.thval then Darwin.obtained ((p.threads m).getD []) else []

/-- It answers about each of them. -/
def Process.Complete (m : Machine) (p : Process) : Prop :=
  p.thval = true → ∀ thread ∈ (p.threads m).getD [], thread.basicInfo ≠ none

theorem Process.Complete.all {m : Machine} {p : Process} (h : p.Complete m)
    {threads : List Thread} (hthreads : p.threads m = some threads) (hthval : p.thval = true) :
    ∀ thread ∈ threads, thread.basicInfo ≠ none := by
  have hall := h hthval
  rw [hthreads] at hall
  exact hall

/-- **What is filled in for a process.** -/
theorem kinfo_cases (m : Machine) (p : Process) (fresh : Nat → ThreadBasicInfo) :
    (p.threads m = none ∧ (Entry.kinfo m ⟨p, fresh⟩).state = 0 ∧
        (Entry.kinfo m ⟨p, fresh⟩).cpuUsage = 0) ∨
      ∃ threads, p.threads m = some threads ∧
        (p.thval = false → (Entry.kinfo m ⟨p, fresh⟩).state = STATE_MAX ∧
          (Entry.kinfo m ⟨p, fresh⟩).cpuUsage = 0) ∧
        (p.thval = true → (Entry.kinfo m ⟨p, fresh⟩).state =
            ((seen fresh threads).map ThreadBasicInfo.order).foldl min STATE_MAX ∧
          (Entry.kinfo m ⟨p, fresh⟩).cpuUsage =
            ((seen fresh threads).map ThreadBasicInfo.cpuUsage).foldl (· + ·) 0) := by
  unfold Process.threads Process.thval Entry.kinfo
  rcases getTaskInfo_cases m.shared fresh p.task with h | ⟨t, threads, htask, hreached, hrest⟩
  · exact Or.inl h
  · rw [htask] at hrest ⊢
    exact Or.inr ⟨threads, hreached, hrest⟩

/-! ### The states -/

/-- How active a thread is, the most active state first. -/
def ThState.activity : ThState → Nat
  | .RUNNING => 0
  | .UNINTERRUPTIBLE => 1
  | .WAITING => 2
  | .STOPPED => 3
  | .HALTED => 4
  | .other _ => 5

/-- The word for a process whose most active thread is in a state, where there is one. -/
def ThState.word : ThState → Option String
  | .RUNNING => some "run"
  | .WAITING => some "sleep"
  | .STOPPED => some "stop"
  | _ => none

/-- No thread is more active. -/
def MostActive (tb : ThreadBasicInfo) (tbs : List ThreadBasicInfo) : Prop :=
  tb ∈ tbs ∧ ∀ tb' ∈ tbs, tb.runState.activity ≤ tb'.runState.activity

/-- **What the word of a process should be**: one for its most active thread, and `zombie` for a
zombie alone. -/
structure Describes (p : KinfoProc) (tbs : List ThreadBasicInfo) (word : String) : Prop where
  named : word ≠ ""
  zombie : word = "zombie" ↔ p.pStat.toInt = SZOMB
  active : p.pStat.toInt ≠ SZOMB → ∀ tb, MostActive tb tbs → ∀ w, tb.runState.word = some w → word = w

/-- These are the threads of a process, whatever the kernel tells about them: what it answers
about a thread is true. -/
def Process.HasThreads (m : Machine) (p : Process) (tbs : List ThreadBasicInfo) : Prop :=
  ∀ threads, p.threads m = some threads →
    List.Forall₂ (fun thread tb => ∀ answer, thread.basicInfo = some answer → answer = tb) threads tbs

/-- **The state of a process is described**: one word is right for its threads, and whatever the
memory for the answers held, the index is inside `States`, that word is there, and it is the one
that every scan publishes. -/
def Process.StateDescribed (m : Machine) (p : Process) (tbs : List ThreadBasicInfo) : Prop :=
  ∃ word, Describes p.proc tbs word ∧
    ∀ fresh, States[state p.proc (Entry.kinfo m ⟨p, fresh⟩)]? = some word ∧
      ∀ ttydevs residue pre, ∀ obj ∈ addedBy (visit m) ttydevs residue pre ⟨p, fresh⟩,
        obj "state" = some (.pv word.toList)

/-- What was obtained about the threads is about some of them. -/
theorem mem_of_obtained {threads : List Thread} {tbs : List ThreadBasicInfo}
    (h : List.Forall₂ (fun thread tb => ∀ answer, thread.basicInfo = some answer → answer = tb)
      threads tbs) {tb : ThreadBasicInfo} (htb : tb ∈ obtained threads) : tb ∈ tbs := by
  induction h with
  | nil => cases htb
  | @cons thread own threads tbs hown _ ih =>
      obtain ⟨thread', hmem, hanswer⟩ := List.mem_filterMap.mp htb
      rcases List.mem_cons.mp hmem with rfl | hrest
      · exact List.mem_cons.mpr (Or.inl (hown tb hanswer))
      · exact List.mem_cons_of_mem own (ih (List.mem_filterMap.mpr ⟨thread', hrest, hanswer⟩))

/-- Where everything was obtained, it is about all of them. -/
theorem obtained_of_complete {threads : List Thread} {tbs : List ThreadBasicInfo}
    (h : List.Forall₂ (fun thread tb => ∀ answer, thread.basicInfo = some answer → answer = tb)
      threads tbs) (hall : ∀ thread ∈ threads, thread.basicInfo ≠ none) : obtained threads = tbs := by
  induction h with
  | nil => rfl
  | @cons thread own threads tbs hown _ ih =>
      obtain ⟨answer, hanswer⟩ := Option.ne_none_iff_exists'.mp (hall thread List.mem_cons_self)
      have hrest := ih fun t ht => hall t (List.mem_cons_of_mem thread ht)
      rw [obtained, List.filterMap_cons_some hanswer, hown answer hanswer]
      exact congrArg (own :: ·) hrest

/-- The order of a state against its activity: waiting threads have two numbers. -/
theorem order_cases (tb : ThreadBasicInfo) :
    tb.order = tb.runState.activity + 1 ∧ tb.runState.activity ≤ 2 ∧
        (tb.runState = .WAITING → tb.sleepTime ≤ 20) ∨
      tb.order = tb.runState.activity + 2 ∧ 2 ≤ tb.runState.activity ∧
        (tb.runState = .WAITING → ¬ tb.sleepTime ≤ 20) := by
  unfold ThreadBasicInfo.order machStateOrder
  cases hstate : tb.runState with
  | RUNNING => exact Or.inl ⟨rfl, by decide, fun h => by cases h⟩
  | UNINTERRUPTIBLE => exact Or.inl ⟨rfl, by decide, fun h => by cases h⟩
  | WAITING =>
      dsimp only
      by_cases hlong : 20 < tb.sleepTime
      · rw [if_pos hlong]
        exact Or.inr ⟨rfl, Nat.le_refl 2, fun _ => Int32.not_le.mpr hlong⟩
      · rw [if_neg hlong]
        exact Or.inl ⟨rfl, Nat.le_refl 2, fun _ => Int32.not_lt.mp hlong⟩
  | STOPPED => exact Or.inr ⟨rfl, by decide, fun h => by cases h⟩
  | HALTED => exact Or.inr ⟨rfl, by decide, fun h => by cases h⟩
  | other s => exact Or.inr ⟨rfl, by show 2 ≤ 5; decide, fun h => by cases h⟩

/-- The word is that of the activity. -/
theorem word_congr {s s' : ThState} (h : s.activity = s'.activity) : s.word = s'.word := by
  cases s <;> cases s' <;> first | rfl | cases h

/-- One thread that is most active decides about the word. -/
theorem describes_of {p : KinfoProc} {tbs : List ThreadBasicInfo} {tb : ThreadBasicInfo}
    {word : String} (hstat : p.pStat.toInt ≠ SZOMB) (hactive : MostActive tb tbs)
    (hnamed : word ≠ "") (hzombie : word ≠ "zombie")
    (hword : ∀ w, tb.runState.word = some w → word = w) : Describes p tbs word := by
  refine ⟨hnamed, iff_of_false hzombie hstat, fun _ tb' hactive' w hw => hword w ?_⟩
  have hsame := Nat.le_antisymm (hactive.2 tb' hactive'.1) (hactive'.2 tb hactive.1)
  rw [word_congr hsame]
  exact hw

/-- The minimum of a row of numbers and a first one. -/
theorem foldl_min_spec (l : List Nat) (a : Nat) :
    l.foldl min a ≤ a ∧ (∀ x ∈ l, l.foldl min a ≤ x) ∧ (l.foldl min a = a ∨ l.foldl min a ∈ l) := by
  induction l generalizing a with
  | nil => exact ⟨Nat.le_refl a, fun x hx => absurd hx List.not_mem_nil, Or.inl rfl⟩
  | cons y l ih =>
      obtain ⟨hle, hall, hattained⟩ := ih (min a y)
      rw [List.foldl_cons]
      refine ⟨hle.trans (min_le_left a y), fun x hx => ?_, ?_⟩
      · rcases List.mem_cons.mp hx with rfl | htail
        · exact hle.trans (min_le_right a x)
        · exact hall x htail
      · rcases hattained with heq | hmem
        · rw [heq]
          rcases min_choice a y with ha | hy
          · exact Or.inl ha
          · exact Or.inr (List.mem_cons.mpr (Or.inl hy))
        · exact Or.inr (List.mem_cons_of_mem _ hmem)

section

variable {m : Machine} {p : Process} {threads : List Thread}

/-- The index for a process that is no zombie: the least of the orders that the loop sees. -/
theorem index_spec (hstat : p.proc.pStat.toInt ≠ SZOMB) (hthreads : p.threads m = some threads)
    (hthval : p.thval = true) (fresh : Nat → ThreadBasicInfo) :
    (∀ tb ∈ seen fresh threads, state p.proc (Entry.kinfo m ⟨p, fresh⟩) ≤ tb.order) ∧
      (state p.proc (Entry.kinfo m ⟨p, fresh⟩) = STATE_MAX ∨
        ∃ tb ∈ seen fresh threads, state p.proc (Entry.kinfo m ⟨p, fresh⟩) = tb.order) := by
  have hindex : state p.proc (Entry.kinfo m ⟨p, fresh⟩) =
      ((seen fresh threads).map ThreadBasicInfo.order).foldl min STATE_MAX := by
    rw [state, if_neg hstat]
    rcases kinfo_cases m p fresh with ⟨hnone, -⟩ | ⟨threads', hsome, -, hrun⟩
    · rw [hthreads] at hnone
      cases hnone
    · obtain rfl := Option.some.inj (hthreads.symm.trans hsome)
      exact (hrun hthval).1
  obtain ⟨-, hall, hattained⟩ :=
    foldl_min_spec ((seen fresh threads).map ThreadBasicInfo.order) STATE_MAX
  rw [hindex]
  refine ⟨fun tb htb => hall _ (List.mem_map_of_mem htb), hattained.imp_right fun hmem => ?_⟩
  obtain ⟨tb, htb, heq⟩ := List.mem_map.mp hmem
  exact ⟨tb, htb, heq.symm⟩

theorem index_pos (hstat : p.proc.pStat.toInt ≠ SZOMB) (hthreads : p.threads m = some threads)
    (hthval : p.thval = true) (fresh : Nat → ThreadBasicInfo) :
    0 < state p.proc (Entry.kinfo m ⟨p, fresh⟩) := by
  rcases (index_spec hstat hthreads hthval fresh).2 with hmax | ⟨tb, -, heq⟩
  · rw [hmax]
    decide
  · have hcases := order_cases tb
    omega

theorem obtained_eq (hthreads : p.threads m = some threads) (hthval : p.thval = true) :
    p.obtained m = obtained threads := by
  rw [Process.obtained, if_pos hthval, hthreads]
  rfl

/-- Nothing is obtained where the loop is not reached. -/
theorem obtained_nil (h : p.threads m = none ∨ p.thval = false) : p.obtained m = [] := by
  unfold Process.obtained
  rcases h with hnone | hthval
  · rw [hnone]
    split
    · rfl
    · rfl
  · rw [hthval]
    rfl

/-- A thread that memory makes up: in some state, without waiting. -/
def madeUp (s : ThState) : ThreadBasicInfo := ⟨0, .other 0, s, 0⟩

/-- **A process is described** if everything is obtained, and one thread, none being more active,
is in an uninterruptible wait, or waits for at most 20 seconds. -/
theorem described_of_waiting (hstat : p.proc.pStat.toInt ≠ SZOMB)
    (hthreads : p.threads m = some threads) (hthval : p.thval = true)
    (hall : ∀ thread ∈ threads, thread.basicInfo ≠ none) {tb : ThreadBasicInfo}
    (hactive : MostActive tb (obtained threads))
    (hwaits : tb.runState = .UNINTERRUPTIBLE ∨ tb.runState = .WAITING ∧ tb.sleepTime ≤ 20) :
    ∃ word, Describes p.proc (obtained threads) word ∧
      ∀ fresh, States[state p.proc (Entry.kinfo m ⟨p, fresh⟩)]? = some word := by
  obtain ⟨hmem, hleast⟩ := hactive
  -- the least order is that of the thread, as no order below it is left
  have hindex : ∀ fresh, state p.proc (Entry.kinfo m ⟨p, fresh⟩) = tb.order := by
    intro fresh
    obtain ⟨hle, hattained⟩ := index_spec hstat hthreads hthval fresh
    rw [seen_eq fresh hall] at hle hattained
    have htb := hle tb hmem
    have hsmall : tb.order ≤ 3 := by
      rcases hwaits with hstate | ⟨hstate, hsleep⟩
      · rw [ThreadBasicInfo.order, hstate]
        show 2 ≤ 3
        decide
      · rw [ThreadBasicInfo.order, hstate, machStateOrder, if_neg (Int32.not_lt.mpr hsleep)]
    rcases hattained with hmax | ⟨tb', hmem', heq⟩
    · rw [hmax] at htb
      exact absurd (htb.trans hsmall) (by decide)
    · have hactivity := hleast tb' hmem'
      have hcases := order_cases tb
      have hcases' := order_cases tb'
      omega
  rcases hwaits with hstate | ⟨hstate, hsleep⟩
  · have horder : tb.order = 2 := by
      rw [ThreadBasicInfo.order, hstate]
      rfl
    refine ⟨"run", describes_of hstat ⟨hmem, hleast⟩ (by decide) (by decide) fun w hw => ?_,
      fun fresh => by rw [hindex fresh, horder]; rfl⟩
    rw [hstate] at hw
    cases hw
  · have horder : tb.order = 3 := by
      rw [ThreadBasicInfo.order, hstate, machStateOrder, if_neg (Int32.not_lt.mpr hsleep)]
    refine ⟨"sleep", describes_of hstat ⟨hmem, hleast⟩ (by decide) (by decide) fun w hw => ?_,
      fun fresh => by rw [hindex fresh, horder]; rfl⟩
    rw [hstate] at hw
    exact Option.some.inj hw

/-- Without memory for the answers, the index is behind the table. -/
theorem thval_of_inside (hstat : p.proc.pStat.toInt ≠ SZOMB) (hthreads : p.threads m = some threads)
    {fresh : Nat → ThreadBasicInfo} (hinside : state p.proc (Entry.kinfo m ⟨p, fresh⟩) < 6) :
    p.thval = true := by
  cases hthval : p.thval with
  | true => rfl
  | false =>
      exfalso
      rw [state, if_neg hstat] at hinside
      rcases kinfo_cases m p fresh with ⟨hnone, -⟩ | ⟨_, -, hfailed, -⟩
      · rw [hthreads] at hnone
        cases hnone
      · rw [(hfailed hthval).1] at hinside
        exact absurd hinside (by decide)

/-- Memory that makes up no activity leaves the index to the threads that were obtained: inside
the table it is the order of one that is most active. -/
theorem exists_mostActive (hstat : p.proc.pStat.toInt ≠ SZOMB) (hthreads : p.threads m = some threads)
    (hthval : p.thval = true)
    (hinside : state p.proc (Entry.kinfo m ⟨p, fun _ => madeUp (.other 0)⟩) < 6) :
    ∃ tb, MostActive tb (obtained threads) ∧
      state p.proc (Entry.kinfo m ⟨p, fun _ => madeUp (.other 0)⟩) = tb.order := by
  obtain ⟨hall, hattained⟩ := index_spec hstat hthreads hthval fun _ => madeUp (.other 0)
  generalize state p.proc (Entry.kinfo m ⟨p, fun _ => madeUp (.other 0)⟩) = i
    at hall hattained hinside ⊢
  obtain ⟨tb, hseen, heq⟩ : ∃ tb ∈ seen (fun _ => madeUp (.other 0)) threads, i = tb.order := by
    rcases hattained with hmax | hsome
    · rw [hmax] at hinside
      exact absurd hinside (by decide)
    · exact hsome
  have hmem : tb ∈ obtained threads := by
    rcases mem_seen hseen with hmem | ⟨j, rfl⟩
    · exact hmem
    · rw [heq] at hinside
      exact absurd hinside (by decide)
  refine ⟨tb, ⟨hmem, fun tb' hmem' => ?_⟩, heq⟩
  have hle := hall tb' (mem_seen_of_obtained _ hmem')
  have hcases := order_cases tb
  have hcases' := order_cases tb'
  omega

/-- Memory that makes up a running thread gives the index 1. -/
theorem index_of_missing (hstat : p.proc.pStat.toInt ≠ SZOMB)
    (hthreads : p.threads m = some threads) (hthval : p.thval = true)
    (hmissing : ∃ thread ∈ threads, thread.basicInfo = none) :
    state p.proc (Entry.kinfo m ⟨p, fun _ => madeUp .RUNNING⟩) = 1 := by
  have hseen := mem_seen_of_missing (madeUp .RUNNING) hmissing
  have hle := (index_spec hstat hthreads hthval fun _ => madeUp .RUNNING).1 _ hseen
  exact Nat.le_antisymm hle (index_pos hstat hthreads hthval _)

/-- Where nothing is found out about the threads, the index is 0. -/
theorem index_of_unknown (hstat : p.proc.pStat.toInt ≠ SZOMB) (hnone : p.threads m = none)
    (fresh : Nat → ThreadBasicInfo) : state p.proc (Entry.kinfo m ⟨p, fresh⟩) = 0 := by
  rw [state, if_neg hstat]
  rcases kinfo_cases m p fresh with ⟨-, hzero, -⟩ | ⟨_, hsome, -⟩
  · exact hzero
  · rw [hnone] at hsome
    cases hsome

/-- The word `idle` is that of a running thread only. -/
theorem running_of_idle {tb : ThreadBasicInfo}
    (h : States[machStateOrder tb.runState tb.sleepTime]? = some "idle") :
    tb.runState = .RUNNING := by
  cases hstate : tb.runState with
  | RUNNING => rfl
  | WAITING =>
      rw [hstate, machStateOrder] at h
      split at h <;> exact absurd h (by decide)
  | UNINTERRUPTIBLE =>
      rw [hstate] at h
      exact absurd h (show ¬ States[2]? = some "idle" by decide)
  | STOPPED =>
      rw [hstate] at h
      exact absurd h (show ¬ States[5]? = some "idle" by decide)
  | HALTED =>
      rw [hstate] at h
      cases h
  | other x =>
      rw [hstate] at h
      cases h

/-- **A process that is no zombie is described in no other case.** -/
theorem waiting_of_described {tbs : List ThreadBasicInfo} (hstat : p.proc.pStat.toInt ≠ SZOMB)
    (htrue : p.HasThreads m tbs) {word : String} (hdescribes : Describes p.proc tbs word)
    (hword : ∀ fresh, States[state p.proc (Entry.kinfo m ⟨p, fresh⟩)]? = some word) :
    ∃ threads, p.threads m = some threads ∧ p.thval = true ∧
      (∀ thread ∈ threads, thread.basicInfo ≠ none) ∧ ∃ tb, MostActive tb tbs ∧
        (tb.runState = .UNINTERRUPTIBLE ∨ tb.runState = .WAITING ∧ tb.sleepTime ≤ 20) := by
  have hnotZombie : word ≠ "zombie" := fun hz => hstat (hdescribes.zombie.mp hz)
  have hother := hword fun _ => madeUp (.other 0)
  cases hthreads : p.threads m with
  | none =>
      rw [index_of_unknown hstat hthreads] at hother
      exact absurd (Option.some.inj hother).symm hdescribes.named
  | some threads =>
      have hinside : state p.proc (Entry.kinfo m ⟨p, fun _ => madeUp (.other 0)⟩) < 6 :=
        (List.getElem?_eq_some_iff.mp hother).1
      have hthval := thval_of_inside hstat hthreads hinside
      have hpairs := htrue threads hthreads
      obtain ⟨tb, hactive, horder⟩ := exists_mostActive hstat hthreads hthval hinside
      rw [horder, ThreadBasicInfo.order] at hother
      -- where an answer is missing, memory can make the word `idle`, which is right for no thread
      have hall : ∀ thread ∈ threads, thread.basicInfo ≠ none := by
        intro thread hthread hnone
        have hidle := hword fun _ => madeUp .RUNNING
        rw [index_of_missing hstat hthreads hthval ⟨thread, hthread, hnone⟩] at hidle
        obtain rfl : word = "idle" := (Option.some.inj hidle).symm
        have hrunning := running_of_idle hother
        have hleast : MostActive tb tbs := by
          refine ⟨mem_of_obtained hpairs hactive.1, fun tb' _ => ?_⟩
          rw [hrunning]
          exact Nat.zero_le _
        exact absurd (hdescribes.active hstat tb hleast "run" (by rw [hrunning]; rfl)) (by decide)
      rw [obtained_of_complete hpairs hall] at hactive
      have hactiveWord := hdescribes.active hstat tb hactive
      refine ⟨threads, rfl, hthval, hall, tb, hactive, ?_⟩
      cases hstate : tb.runState with
      | UNINTERRUPTIBLE => exact Or.inl rfl
      | RUNNING =>
          rw [hstate] at hother hactiveWord
          obtain rfl : word = "run" := hactiveWord "run" rfl
          exact absurd hother (show ¬ States[1]? = some "run" by decide)
      | STOPPED =>
          rw [hstate] at hother
          exact absurd (Option.some.inj hother).symm hnotZombie
      | HALTED =>
          rw [hstate] at hother
          cases hother
      | other x =>
          rw [hstate] at hother
          cases hother
      | WAITING =>
          rw [hstate] at hactiveWord
          rw [hstate, machStateOrder] at hother
          obtain rfl : word = "sleep" := hactiveWord "sleep" rfl
          refine Or.inr ⟨rfl, Int32.not_lt.mp fun hlong => ?_⟩
          rw [if_pos hlong] at hother
          exact absurd hother (by decide)

end

/-- **Where the answers decide**: the word is the same whatever memory holds, and describes the
process. -/
theorem exists_word {m : Machine} {p : Process} {tbs : List ThreadBasicInfo}
    (htrue : p.HasThreads m tbs)
    (h : p.proc.pStat.toInt = SZOMB ∨
      ∃ threads, p.threads m = some threads ∧ p.thval = true ∧
        (∀ thread ∈ threads, thread.basicInfo ≠ none) ∧ ∃ tb, MostActive tb tbs ∧
          (tb.runState = .UNINTERRUPTIBLE ∨ tb.runState = .WAITING ∧ tb.sleepTime ≤ 20)) :
    ∃ word, Describes p.proc tbs word ∧
      ∀ fresh, States[state p.proc (Entry.kinfo m ⟨p, fresh⟩)]? = some word := by
  by_cases hstat : p.proc.pStat.toInt = SZOMB
  · refine ⟨"zombie", ⟨by decide, iff_of_true rfl hstat, fun h => absurd hstat h⟩, fun fresh => ?_⟩
    rw [state, if_pos hstat]
    rfl
  · obtain ⟨threads, hthreads, hthval, hall, tb, hactive, hwaits⟩ := h.resolve_left hstat
    have htbs := obtained_of_complete (htrue threads hthreads) hall
    subst htbs
    exact described_of_waiting hstat hthreads hthval hall hactive hwaits

/-- **Which processes are described.**  Whatever memory holds, a process is published with the
word of its most active thread exactly when it is a zombie, or the kernel answers about each of
its threads, and of the most active ones one is in an uninterruptible wait, or waits for at most
20 seconds. -/
theorem state_described_iff (m : Machine) (p : Process) (tbs : List ThreadBasicInfo)
    (htrue : p.HasThreads m tbs) :
    p.StateDescribed m tbs ↔ p.proc.pStat.toInt = SZOMB ∨
      ∃ threads, p.threads m = some threads ∧ p.thval = true ∧
        (∀ thread ∈ threads, thread.basicInfo ≠ none) ∧ ∃ tb, MostActive tb tbs ∧
          (tb.runState = .UNINTERRUPTIBLE ∨ tb.runState = .WAITING ∧ tb.sleepTime ≤ 20) := by
  constructor
  · intro ⟨word, hdescribes, hword⟩
    by_cases hstat : p.proc.pStat.toInt = SZOMB
    · exact Or.inl hstat
    · exact Or.inr (waiting_of_described hstat htrue hdescribes fun fresh => (hword fresh).1)
  · intro h
    obtain ⟨word, hdescribes, hword⟩ := exists_word htrue h
    refine ⟨word, hdescribes, fun fresh => ⟨hword fresh, fun ttydevs residue pre obj hobj => ?_⟩⟩
    obtain ⟨word', -, hword', -, hstate, -⟩ := turn_object (mem_turn_of_addedBy _ _ hobj)
    obtain rfl := Option.some.inj ((hword fresh).symm.trans hword')
    exact hstate

/-- **The states of a whole scan**: under that condition the object of a process has the word
that describes it. -/
theorem osGetTable_states (m : Machine) (ttydevs : Option HV) (residue : Locals)
    {sysctl : Nat → Option (List Entry)} {kprocbuf : List Entry}
    (hanswer : (List.range 1001).findSome? sysctl = some kprocbuf) :
    List.SublistForall₂ (fun (obj : HV) (e : Entry) => ∀ tbs, e.process.HasThreads m tbs →
        (e.process.proc.pStat.toInt = SZOMB ∨
          ∃ threads, e.process.threads m = some threads ∧ e.process.thval = true ∧
            (∀ thread ∈ threads, thread.basicInfo ≠ none) ∧ ∃ tb, MostActive tb tbs ∧
              (tb.runState = .UNINTERRUPTIBLE ∨ tb.runState = .WAITING ∧ tb.sleepTime ≤ 20)) →
        ∃ word, Describes e.process.proc tbs word ∧ obj "state" = some (.pv word.toList))
      ((osGetTable m true true sysctl residue).objects ttydevs) kprocbuf.reverse := by
  apply osGetTable_sublist m ttydevs residue hanswer
  intro s e obj hobj tbs htrue hcond
  obtain ⟨word, hdescribes, hword⟩ := exists_word htrue hcond
  obtain ⟨word', -, hword', -, hstate, -⟩ := turn_object hobj
  obtain rfl := Option.some.inj ((hword e.fresh).symm.trans hword')
  exact ⟨word, hdescribes, hstate⟩

/-- A machine without split libraries. -/
def sampleMachine : Machine := ⟨littleEndian, 0, ⟨0, 0⟩, fun _ => "0.0".toList, fun _ => 0⟩

/-- A process with some threads. -/
def sampleProcess (threads : List Thread) : Process where
  proc := ⟨42, 2, 0, 0, 0, 0, "sh".toList ++ [nul], 1, 42, 0, 0, 0, 0, 0, 0, 0, 0⟩
  task := some
    { basicInfo := some ⟨4096, 4096, ⟨0, 0⟩, ⟨0, 0⟩, .TIMESHARE⟩, region := none,
      threadTimes := some ⟨⟨0, 0⟩, ⟨0, 0⟩⟩, schedInfo := fun _ => some ⟨31, 31⟩,
      threads := some threads, thval := true }
  space := ⟨true, true, none⟩

/-- A thread in a state that uses some of the cpu, if it is known. -/
def sampleThread (basicInfo : Option ThreadBasicInfo) : Thread := ⟨basicInfo, fun _ => none⟩

/-- Cleared arrays. -/
def Locals.cleared : Locals :=
  ⟨⟨List.replicate 6 nul, List.length_replicate⟩, ⟨List.replicate 6 nul, List.length_replicate⟩⟩

/-- A process that runs. -/
def running : Process := sampleProcess [sampleThread (some ⟨10, .TIMESHARE, .RUNNING, 0⟩)]

/-- A process with one thread is what the kernel says about it. -/
theorem hasThreads_one (tb : ThreadBasicInfo) :
    (sampleProcess [sampleThread (some tb)]).HasThreads sampleMachine [tb] := by
  rintro threads ⟨⟩
  exact List.Forall₂.cons (fun answer h => (Option.some.inj h).symm) List.Forall₂.nil

/-- A process that waits for a short time is described. -/
theorem state_described_waiting :
    (sampleProcess [sampleThread (some ⟨0, .TIMESHARE, .WAITING, 3⟩)]).StateDescribed sampleMachine
      [⟨0, .TIMESHARE, .WAITING, 3⟩] := by
  apply (state_described_iff _ _ _ (hasThreads_one _)).mpr
  refine Or.inr ⟨_, rfl, rfl, ?_, _, ⟨List.mem_singleton_self _, ?_⟩, Or.inr ⟨rfl, by decide⟩⟩
  · rw [List.forall_mem_singleton]
    exact Option.some_ne_none _
  · rw [List.forall_mem_singleton]

/-- **A process that runs is published as idle**, and one that is stopped as a zombie. -/
theorem running_as_idle :
    running.HasThreads sampleMachine [⟨10, .TIMESHARE, .RUNNING, 0⟩] ∧
      ¬ running.StateDescribed sampleMachine [⟨10, .TIMESHARE, .RUNNING, 0⟩] ∧
      (addedBy (visit sampleMachine) none Locals.cleared [] ⟨running, fun _ => madeUp .RUNNING⟩).map
        (fun obj => obj "state") = [some (.pv "idle".toList)] ∧
      (addedBy (visit sampleMachine) none Locals.cleared []
        ⟨sampleProcess [sampleThread (some ⟨0, .TIMESHARE, .STOPPED, 0⟩)],
          fun _ => madeUp .RUNNING⟩).map (fun obj => obj "state") =
        [some (.pv "zombie".toList)] := by
  refine ⟨hasThreads_one _, fun h => ?_, by decide, by decide⟩
  obtain ⟨word, hdescribes, hword⟩ := h
  have hactive : MostActive ⟨10, .TIMESHARE, .RUNNING, 0⟩ [⟨10, .TIMESHARE, .RUNNING, 0⟩] := by
    refine ⟨List.mem_singleton_self _, fun tb htb => ?_⟩
    exact Nat.zero_le _
  have hidle := (hword fun _ => madeUp .RUNNING).1
  rw [hdescribes.active (by decide) _ hactive "run" rfl] at hidle
  exact absurd hidle (by decide)

end Darwin
