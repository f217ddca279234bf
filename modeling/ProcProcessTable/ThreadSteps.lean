import ProcProcessTable.ThreadSafety

/-!
# The steps of a threaded build

`table` and `bless_into_proc` step by step: each step keeps the invariant, leaves
the thread with what it has to know at its next place, and changes nothing that the
other threads rely on.
-/

namespace ProcessTable.Threads

open Xs CText Initialize Interleaving

section

variable {Thread Obj : Type}

/-! ## The objects so far -/

section

variable {t : Thread} {e : Errand Obj} {done calls : List BlessCall} {s : Shared Thread Obj}
  {a : Atomic Thread Obj} {x : Nat}

theorem OwnTtydevs.hash (h : OwnTtydevs t s) : s.ttydevsHash = s.hashes t := by
  unfold Shared.ttydevsHash
  rw [h]
  cases hhash : s.hashes t with
  | none => rfl
  | some hash => exact hhash

theorem Filling.made (h : Filling t e done calls s a x) :
    madeAll (s.hashes t) e.scan.calls =
      (s.arrays x ++ (madeAll (s.hashes t) calls).1, (madeAll (s.hashes t) calls).2) := by
  rw [h.split, madeAll_append h.clean, ← h.array]

/-- A call with a fault ends the scan, and what is in the array stays. -/
theorem Filling.fault {c : BlessCall} (h : Filling t e done (c :: calls) s a x) {f : Fault}
    (hc : c.made (s.hashes t) = ([], some f)) :
    e.scan.objects (s.hashes t) = s.arrays x ∧ e.scan.ends (s.hashes t) = some f := by
  have hmade := h.made
  rw [madeAll, hc] at hmade
  unfold Scan.objects Scan.ends
  rw [hmade]
  exact ⟨List.append_nil _, rfl⟩

/-- Behind the last call the array holds the objects of the scan. -/
theorem Filling.complete (h : Filling t e done [] s a x) :
    e.scan.objects (s.hashes t) = s.arrays x ∧ e.scan.ends (s.hashes t) = e.scan.fault := by
  have hmade := h.made
  unfold Scan.objects Scan.ends
  rw [hmade]
  exact ⟨List.append_nil _, rfl⟩

end

theorem Filling.congr {t : Thread} {e : Errand Obj} {done calls : List BlessCall}
    {s s' : Shared Thread Obj} {a a' : Atomic Thread Obj} {x : Nat} (h : Filling t e done calls s a x)
    (hmutex : s'.mutexTable = s.mutexTable) (hclosed : a'.closed = a.closed)
    (httydevs : s'.ttydevs = s.ttydevs) (hhashes : s'.hashes = s.hashes)
    (hproclist : s'.proclist = s.proclist) (htables : s'.tables = s.tables)
    (harrays : s'.arrays = s.arrays) (hnames : a.names ≠ none → a'.names ≠ none) :
    Filling t e done calls s' a' x := by
  refine ⟨⟨hmutex.trans h.inside.holds, hclosed.trans h.inside.opened⟩, ?_,
    hproclist.trans h.proclist, ?_, ?_, ?_, h.split, fun hdone => hnames (h.named hdone)⟩
  · unfold OwnTtydevs
    rw [httydevs, hhashes]
    exact h.ttydevs
  · rw [htables]
    exact h.table
  · rw [harrays, hhashes]
    exact h.array
  · rw [hhashes]
    exact h.clean

/-- A call that pushed its object is done. -/
theorem Filling.push {t : Thread} {e : Errand Obj} {done calls : List BlessCall} {c : BlessCall}
    {s : Shared Thread Obj} {a : Atomic Thread Obj} {x : Nat} {myhash : HV}
    (h : Filling t e done (c :: calls) s a x) (hc : c.made (s.hashes t) = ([myhash], none))
    (hnames : a.names ≠ none) :
    Filling t e (done ++ [c]) calls
      { s with arrays := Function.update s.arrays x (s.arrays x ++ [myhash]) } a x := by
  have hone : madeAll (s.hashes t) [c] = ([myhash], none) := by
    rw [madeAll, hc]
    rfl
  have hmade := madeAll_append h.clean [c]
  rw [hone] at hmade
  refine ⟨⟨h.inside.holds, h.inside.opened⟩, h.ttydevs, h.proclist, h.table, ?_, ?_, ?_,
    fun _ => hnames⟩
  · dsimp only
    rw [Function.update_self, hmade, h.array]
  · dsimp only
    rw [hmade]
  · rw [h.split, List.append_assoc]
    rfl

/-! ## What a step changes -/

/-- A step of a thread that has the mutex changes no object but its own. -/
structure Within (t : Thread) (e : Errand Obj) (s : Shared Thread Obj) (a : Atomic Thread Obj)
    (s' : Shared Thread Obj) (a' : Atomic Thread Obj) : Prop where
  hashes : s'.hashes = s.hashes
  tables : ∀ u obj, (u = t → obj ≠ e.obj) → s'.tables u obj = s.tables u obj
  arrays : ∀ u obj x, (u = t → obj ≠ e.obj) → s.tables u obj = some x → s'.arrays x = s.arrays x
  contents : ∀ u obj, (u = t → obj ≠ e.obj) → a'.contents u obj = a.contents u obj
  began : a'.began = a.began
  names : ∀ names, a.names = some names → a'.names = some names

section

variable {t : Thread} {e : Errand Obj} {s s' : Shared Thread Obj} {a a' : Atomic Thread Obj}

theorem Within.guarantee (h : Within t e s a s' a') (hholds : s.mutexTable = some t) :
    Guarantee t s a s' a' where
  hashes := fun u _ => congrFun h.hashes u
  tables := fun _ hu => funext fun obj => h.tables _ obj fun ht => absurd ht hu
  arrays := fun u hu obj x hx => h.arrays u obj x (fun ht => absurd ht hu) hx
  contents := fun u hu => funext fun obj => h.contents u obj fun ht => absurd ht hu
  began := fun u _ => congrFun h.began u
  names := h.names
  mutexTable := fun _ hu ht => absurd (Option.some.inj (ht.symm.trans hholds)) hu
  untouched := fun hno => absurd hholds hno

/-- An object the step is not about is as coupled as before. -/
theorem Within.coupled_of_ne {l : Place Obj} (h : Within t e s a s' a') (hc : Coupled t l s a)
    (hl : l.errand = some e) {obj : Obj} (hobj : obj ≠ e.obj) :
    (s'.tables t obj).map s'.arrays = a'.contents t obj := by
  have hne : ∀ e', l.errand = some e' → e'.obj ≠ obj := by
    intro e' he'
    obtain rfl := Option.some.inj (hl.symm.trans he')
    exact hobj.symm
  rw [h.tables t obj fun _ => hobj, h.contents t obj fun _ => hobj, ← hc obj hne]
  cases htable : s.tables t obj with
  | none => rfl
  | some x => exact congrArg some (h.arrays t obj x (fun _ => hobj) htable)

theorem Within.coupled {l l' : Place Obj} (h : Within t e s a s' a') (hc : Coupled t l s a)
    (hl : l.errand = some e) (hl' : l'.errand = some e) : Coupled t l' s' a' :=
  fun _ hobj => h.coupled_of_ne hc hl (hobj e hl').symm

/-- When the call ends its object has to be coupled, too. -/
theorem Within.coupled_end {l l' : Place Obj} (h : Within t e s a s' a') (hc : Coupled t l s a)
    (hl : l.errand = some e) (hend : (s'.tables t e.obj).map s'.arrays = a'.contents t e.obj) :
    Coupled t l' s' a' := by
  intro obj _
  by_cases hobj : obj = e.obj
  · rw [hobj]
    exact hend
  · exact h.coupled_of_ne hc hl hobj

theorem Within.of_eq (hhashes : s'.hashes = s.hashes) (htables : s'.tables = s.tables)
    (harrays : s'.arrays = s.arrays) : Within t e s a s' a where
  hashes := hhashes
  tables := fun _ _ _ => by rw [htables]
  arrays := fun _ _ x _ _ => congrFun harrays x
  contents := fun _ _ _ => rfl
  began := rfl
  names := fun _ h => h

/-- The array of the object may be written. -/
theorem Within.of_array (hinv : Invariant s a) {x : Nat} (hx : s.tables t e.obj = some x)
    (objects : List HV) :
    Within t e s a { s with arrays := Function.update s.arrays x objects } a where
  hashes := rfl
  tables := fun _ _ _ => rfl
  arrays := by
    intro _ obj y hne hy
    apply Function.update_of_ne
    intro hyx
    obtain ⟨hu, hobj⟩ := hinv.apart _ obj t e.obj x (hyx ▸ hy) hx
    exact hne hu hobj
  contents := fun _ _ _ => rfl
  began := rfl
  names := fun _ h => h

end

variable [DecidableEq Thread] [DecidableEq Obj]

theorem Within.fill {t : Thread} {e : Errand Obj} {s : Shared Thread Obj} {a : Atomic Thread Obj}
    (objects : List HV) : Within t e s a s (a.fill t e.obj objects) where
  hashes := rfl
  tables := fun _ _ _ => rfl
  arrays := fun _ _ _ _ _ => rfl
  contents := by
    intro u obj hne
    by_cases hu : u = t
    · rw [hu, Atomic.fill_of_ne a t (hne hu)]
    · rw [Atomic.fill_other a hu]
  began := rfl
  names := fun _ h => h

/-- A step of a thread does what it has to. -/
structure Kept (t : Thread) (s : Shared Thread Obj) (a : Atomic Thread Obj)
    (e : Option (Event Thread Obj)) (l' : Place Obj) (s' : Shared Thread Obj) : Prop where
  allowed : ∀ x ∈ e, a.Allowed x
  inv : Invariant s' (atomic.after a e.toList)
  knows : Knows t l' s' (atomic.after a e.toList)
  guarantee : Guarantee t s a s' (atomic.after a e.toList)

section

variable {t : Thread} {e : Errand Obj} {l l' : Place Obj} {s s' : Shared Thread Obj}
  {a : Atomic Thread Obj}

/-- A step within a call of `table` that shows nothing. -/
theorem Kept.within (h : Within t e s a s' a) (hholds : s.mutexTable = some t)
    (hinv : Invariant s' a) (hc : Coupled t l s a) (hl : l.errand = some e)
    (hl' : l'.errand = some e) (hstage : Stage t l' s' a) : Kept t s a none l' s' :=
  ⟨fun _ hx => absurd hx (Option.not_mem_none _), hinv, ⟨h.coupled hc hl hl', hstage⟩,
    h.guarantee hholds⟩

/-- A fault in the scan. -/
theorem Kept.fail {done calls : List BlessCall} {x : Nat} (hf : Filling t e done calls s a x)
    (hinv : Invariant s a) (hc : Coupled t l s a) (hl : l.errand = some e) {f : Fault}
    (hobjects : e.scan.objects (s.hashes t) = s.arrays x)
    (hends : e.scan.ends (s.hashes t) = some f) :
    Kept t s a (e.fail t s f).1 (e.fail t s f).2.1 (e.fail t s f).2.2 := by
  have hholds := hf.inside.holds
  have hcrash : Kept t s a none (.crashed e) s := by
    refine .within (.of_eq rfl rfl rfl) hholds hinv hc hl rfl ⟨hholds, ?_⟩
    rw [hends]
    exact Option.some_ne_none f
  cases f with
  | hang | nullDeref | overflow | badArgument => exact hcrash
  | croak message =>
      -- the exception leaves the mutex locked
      have hwithin : Within t e s a s
          { a.fill t e.obj (e.scan.objects (a.hashes t)) with closed := true } :=
        ⟨rfl, fun _ _ _ => rfl, fun _ _ _ _ _ => rfl,
          (Within.fill (s := s) (e.scan.objects (a.hashes t))).contents, rfl, fun _ h => h⟩
      refine ⟨?_, ?_, ⟨hwithin.coupled_end hc hl ?_, trivial⟩, hwithin.guarantee hholds⟩
      · intro y hy
        obtain rfl := Option.mem_some.mp hy
        refine ⟨hf.inside.opened, ?_⟩
        rw [hinv.hashes]
        exact hends
      · refine ⟨hinv.allocated, hinv.apart, hinv.hashes, hinv.named, hinv.unnamed, hinv.began, ?_, ?_⟩
        · intro hnone
          cases hnone.symm.trans hholds
        · intro hnone
          cases hnone.symm.trans hholds
      · rw [hf.table, hinv.hashes, hobjects]
        exact (Atomic.fill_self a t e.obj (s.arrays x)).symm

/-! ## table -/

/-- `mutex_table(1)` -/
theorem kept_lockTable (hinv : Invariant s a) (hk : Knows t (.lockTable e) s a)
    (hfree : s.mutexTable = none) :
    Kept t s a none (.getTtydevs e) { s with mutexTable := some t } := by
  have hsame : Untouched s a { s with mutexTable := some t } a :=
    ⟨rfl, rfl, rfl, rfl, rfl, rfl, rfl, rfl, rfl, rfl⟩
  refine ⟨fun _ hx => absurd hx (Option.not_mem_none _), ?_, ⟨?_, ?_⟩, ?_⟩
  · refine ⟨hinv.allocated, hinv.apart, hinv.hashes, hinv.named, hinv.unnamed, hinv.began, ?_, ?_⟩
    · exact fun hnone => absurd hnone (Option.some_ne_none t)
    · exact fun hnone => absurd hnone (Option.some_ne_none t)
  · exact fun obj _ => hk.coupled obj fun _ he => by cases he
  · exact ⟨⟨rfl, hinv.opened hfree⟩, hinv.settled hfree⟩
  · refine ⟨fun _ _ => rfl, fun _ _ => rfl, fun _ _ _ _ _ => rfl, fun _ _ => rfl, fun _ _ => rfl,
      fun _ h => h, fun u _ hu => ?_, fun _ => hsame⟩
    cases hfree.symm.trans hu

/-- `Proclist` is pointed to the array of the object, or to a new one. -/
theorem kept_getProclist (hinv : Invariant s a) (hk : Knows t (.getProclist e) s a)
    {ev : Option (Event Thread Obj)} (h : advance t (.getProclist e) s = some (ev, l', s')) :
    Kept t s a ev l' s' := by
  obtain ⟨hin, hset, htty⟩ := hk.stage
  rw [advance] at h
  cases htable : s.tables t e.obj with
  | some x =>
      rw [htable] at h
      cases h
      refine .within (.of_eq rfl rfl rfl) hin.holds ?_ hk.coupled rfl rfl
        ⟨⟨hin.holds, hin.opened⟩, hset, htty, x, rfl, htable⟩
      exact ⟨hinv.allocated, hinv.apart, hinv.hashes, hinv.named, hinv.unnamed, hinv.began,
        hinv.settled, hinv.opened⟩
  | none =>
      rw [htable] at h
      cases h
      have hunused : ∀ u o, s.tables u o ≠ some s.nextArray :=
        fun u o hx => Nat.lt_irrefl _ (hinv.allocated u o _ hx)
      refine .within ⟨rfl, fun _ _ _ => rfl, ?_, fun _ _ _ => rfl, rfl, fun _ h => h⟩ hin.holds ?_
        hk.coupled rfl rfl ⟨⟨hin.holds, hin.opened⟩, hset, htty, s.nextArray, ?_⟩
      · intro u o x _ hx
        exact Function.update_of_ne (Nat.ne_of_lt (hinv.allocated u o x hx)) _ _
      · refine ⟨?_, hinv.apart, hinv.hashes, hinv.named, hinv.unnamed, hinv.began, hinv.settled,
          hinv.opened⟩
        exact fun u o x hx => Nat.lt_succ_of_lt (hinv.allocated u o x hx)
      · exact ⟨rfl, htable, hunused, Nat.lt_succ_self _, Function.update_self _ _ _⟩

/-- `av_clear` -/
theorem kept_clearTable (hinv : Invariant s a) (hk : Knows t (.clearTable e) s a)
    {ev : Option (Event Thread Obj)} (h : advance t (.clearTable e) s = some (ev, l', s')) :
    Kept t s a ev l' s' := by
  obtain ⟨hin, hset, htty, x, hptr, htable⟩ := hk.stage
  have hout : advance t (.clearTable e) s = some (none, .scanning e e.scan.calls,
      { s with arrays := Function.update s.arrays x [] }) := by
    rw [advance, hptr]
  cases hout.symm.trans h
  refine .within (.of_array hinv htable []) hin.holds ?_ hk.coupled rfl rfl
    ⟨hset, [], x, ⟨⟨hin.holds, hin.opened⟩, htty, hptr, htable, ?_, rfl, rfl, fun hnil => absurd rfl hnil⟩⟩
  · exact ⟨hinv.allocated, hinv.apart, hinv.hashes, hinv.named, hinv.unnamed, hinv.began,
      hinv.settled, hinv.opened⟩
  · exact Function.update_self x [] s.arrays

/-- The new array goes behind the object. -/
theorem kept_storeTable (hinv : Invariant s a) (hk : Knows t (.storeTable e) s a)
    {ev : Option (Event Thread Obj)} (h : advance t (.storeTable e) s = some (ev, l', s')) :
    Kept t s a ev l' s' := by
  obtain ⟨hin, hset, htty, x, hfresh⟩ := hk.stage
  have hout : advance t (.storeTable e) s = some (none, .scanning e e.scan.calls,
      { s with
        tables := Function.update s.tables t (Function.update (s.tables t) e.obj (some x)) }) := by
    rw [advance, hfresh.proclist]
  cases hout.symm.trans h
  have hself : Function.update s.tables t (Function.update (s.tables t) e.obj (some x)) t e.obj =
      some x := by
    rw [Function.update_self, Function.update_self]
  have hother : ∀ u obj, (u = t → obj ≠ e.obj) →
      Function.update s.tables t (Function.update (s.tables t) e.obj (some x)) u obj =
        s.tables u obj := by
    intro u obj hne
    by_cases hu : u = t
    · rw [hu, Function.update_self, Function.update_of_ne (hne hu)]
    · rw [Function.update_of_ne hu]
  -- an array that is behind two objects would be the new one
  have hnew : ∀ u obj y,
      Function.update s.tables t (Function.update (s.tables t) e.obj (some x)) u obj = some y →
        (u = t ∧ obj = e.obj ∧ y = x) ∨ s.tables u obj = some y ∧ y ≠ x := by
    intro u obj y hy
    by_cases hu : u = t ∧ obj = e.obj
    · rw [hu.1, hu.2, hself] at hy
      exact Or.inl ⟨hu.1, hu.2, (Option.some.inj hy).symm⟩
    · rw [hother u obj fun ht hobj => hu ⟨ht, hobj⟩] at hy
      exact Or.inr ⟨hy, fun hyx => hfresh.unused u obj (hyx ▸ hy)⟩
  refine .within ⟨rfl, hother, fun _ _ _ _ _ => rfl, fun _ _ _ => rfl, rfl, fun _ h => h⟩ hin.holds ?_
    hk.coupled rfl rfl
    ⟨hset, [], x, ⟨⟨hin.holds, hin.opened⟩, htty, hfresh.proclist, hself, hfresh.empty, rfl, rfl,
      fun hnil => absurd rfl hnil⟩⟩
  refine ⟨?_, ?_, hinv.hashes, hinv.named, hinv.unnamed, hinv.began, hinv.settled, hinv.opened⟩
  · intro u obj y hy
    rcases hnew u obj y hy with ⟨_, _, rfl⟩ | ⟨hold, _⟩
    · exact hfresh.allocated
    · exact hinv.allocated u obj y hold
  · intro u obj v obj' y hy hy'
    rcases hnew u obj y hy with ⟨hu, hobj, hyx⟩ | ⟨hold, hne⟩
    · rcases hnew v obj' y hy' with ⟨hv, hobj', _⟩ | ⟨_, hne'⟩
      · exact ⟨hu.trans hv.symm, hobj.trans hobj'.symm⟩
      · exact absurd hyx hne'
    · rcases hnew v obj' y hy' with ⟨_, _, hyx'⟩ | ⟨hold', _⟩
      · exact absurd hyx' hne
      · exact hinv.apart u obj v obj' y hold hold'

/-- Between two calls of `bless_into_proc`, and behind the last. -/
theorem kept_scanning {calls : List BlessCall} (hinv : Invariant s a)
    (hk : Knows t (.scanning e calls) s a) {ev : Option (Event Thread Obj)}
    (h : advance t (.scanning e calls) s = some (ev, l', s')) : Kept t s a ev l' s' := by
  obtain ⟨hset, done, x, hf⟩ := hk.stage
  have hholds := hf.inside.holds
  cases calls with
  | nil =>
      obtain ⟨hobjects, hends⟩ := hf.complete
      rw [advance] at h
      cases hfault : e.scan.fault with
      | none =>
          rw [hfault] at h
          cases h
          have hdone : done = e.scan.calls := by rw [hf.split, List.append_nil]
          exact .within (.of_eq rfl rfl rfl) hholds hinv hk.coupled rfl rfl
            ⟨⟨hset, hfault⟩, x, hdone ▸ hf⟩
      | some f =>
          rw [hfault] at h hends
          have hfail := Kept.fail hf hinv hk.coupled rfl hobjects hends
          rw [Option.some.inj h] at hfail
          exact hfail
  | cons c calls =>
      rw [advance] at h
      cases hfields : s.fields with
      | none =>
          rw [hfields] at h
          cases h
          have hnames : a.names = none := by
            cases hnames : a.names with
            | none => rfl
            | some names => cases hfields.symm.trans (hinv.named names.1 names.2 hnames).1
          exact .within (.of_eq rfl rfl rfl) hholds hinv hk.coupled rfl rfl
            ⟨⟨hfields, hnames⟩, done, x, hf⟩
      | some names =>
          rw [hfields] at h
          cases h
          have hnamed : a.names ≠ none := by
            refine hset.resolve_left ?_
            rw [hfields]
            exact Option.some_ne_none names
          exact .within (.of_eq rfl rfl rfl) hholds hinv hk.coupled rfl rfl
            ⟨⟨hnamed, rfl⟩, done, x, hf⟩

/-- `Fields = fields` -/
theorem kept_setFields {c : BlessCall} {calls : List BlessCall} (hinv : Invariant s a)
    (hk : Knows t (.setFields e c calls) s a) :
    Kept t s a none (.setNumfields e c calls) { s with fields := some c.fields } := by
  obtain ⟨⟨_, hnames⟩, done, x, hf⟩ := hk.stage
  have hholds := hf.inside.holds
  refine .within (.of_eq rfl rfl rfl) hholds ?_ hk.coupled rfl rfl
    ⟨⟨rfl, hnames⟩, done, x, hf.congr rfl rfl rfl rfl rfl rfl rfl id⟩
  refine ⟨hinv.allocated, hinv.apart, hinv.hashes, ?_, hinv.unnamed, hinv.began, ?_, hinv.opened⟩
  · intro fields n hsome
    cases hnames.symm.trans hsome
  · intro hnone
    cases hnone.symm.trans hholds

/-- `Numfields = strlen(format)` -/
theorem kept_setNumfields {c : BlessCall} {calls : List BlessCall} (hinv : Invariant s a)
    (hk : Knows t (.setNumfields e c calls) s a) :
    Kept t s a (some (.named c.fields (strlen c.format)))
      (.converting e c calls ⟨cstr c.format, c.fields, c.args, HV.empty⟩)
      { s with numfields := strlen c.format } := by
  obtain ⟨⟨hfields, hnames⟩, done, x, hf⟩ := hk.stage
  have hwithin : Within t e s a { s with numfields := strlen c.format }
      { a with names := some (c.fields, strlen c.format) } := by
    refine ⟨rfl, fun _ _ _ => rfl, fun _ _ _ _ _ => rfl, fun _ _ _ => rfl, rfl, fun _ hsome => ?_⟩
    cases hnames.symm.trans hsome
  refine ⟨?_, ?_, ⟨hwithin.coupled hk.coupled rfl rfl, ?_⟩, hwithin.guarantee hf.inside.holds⟩
  · intro y hy
    obtain rfl := Option.mem_some.mp hy
    exact hnames
  · refine ⟨hinv.allocated, hinv.apart, hinv.hashes, ?_, ?_, ?_, ?_, hinv.opened⟩
    · intro fields n hsome
      cases hsome
      exact ⟨hfields, rfl⟩
    · intro hnone
      cases hnone
    · intro u names hbegan
      cases hnames.symm.trans (hinv.began u names hbegan)
    · intro _
      exact Or.inr (Option.some_ne_none _)
  · exact ⟨⟨Option.some_ne_none _, rfl⟩, done, x,
      hf.congr rfl rfl rfl rfl rfl rfl rfl fun _ => Option.some_ne_none _⟩

/-- One character of the format. -/
theorem kept_converting {c : BlessCall} {calls : List BlessCall} {w : Walk} (hinv : Invariant s a)
    (hk : Knows t (.converting e c calls w) s a) {ev : Option (Event Thread Obj)}
    (h : advance t (.converting e c calls w) s = some (ev, l', s')) : Kept t s a ev l' s' := by
  obtain ⟨⟨hnamed, hwalks⟩, done, x, hf⟩ := hk.stage
  have hholds := hf.inside.holds
  have hmade := c.made_eq (s.hashes t)
  rw [← hwalks] at hmade
  have hfail : ∀ f, c.made (s.hashes t) = ([], some f) → some (e.fail t s f) = some (ev, l', s') →
      Kept t s a ev l' s' := by
    intro f hc hout
    obtain ⟨hobjects, hends⟩ := hf.fault hc
    have hfail := Kept.fail hf hinv hk.coupled rfl hobjects hends
    rw [Option.some.inj hout] at hfail
    exact hfail
  obtain ⟨format, fields, args, myhash⟩ := w
  cases format with
  | nil =>
      rw [blessLoop] at hmade
      cases h
      exact .within (.of_eq rfl rfl rfl) hholds hinv hk.coupled rfl rfl ⟨⟨hnamed, hmade⟩, done, x, hf⟩
  | cons char format =>
      cases fields with
      | nil =>
          rw [blessLoop] at hmade
          exact hfail _ hmade h
      | cons key fields =>
          rw [advance] at h
          dsimp only at h hmade
          rw [blessLoop] at hmade
          cases hconvert : convert char args with
          | error f =>
              rw [hconvert] at h hmade
              exact hfail f hmade h
          | ok out =>
              obtain ⟨v, args'⟩ := out
              rw [hconvert] at h
              cases h
              refine .within (.of_eq rfl rfl rfl) hholds hinv hk.coupled rfl rfl
                ⟨⟨hnamed, ?_⟩, done, x, hf⟩
              unfold Walks at hwalks ⊢
              rw [← hwalks, hf.ttydevs.hash]
              dsimp only
              rw [blessLoop, hconvert]
              rfl

/-- `av_push` -/
theorem kept_pushing {c : BlessCall} {calls : List BlessCall} {myhash : HV} (hinv : Invariant s a)
    (hk : Knows t (.pushing e c calls myhash) s a) {ev : Option (Event Thread Obj)}
    (h : advance t (.pushing e c calls myhash) s = some (ev, l', s')) : Kept t s a ev l' s' := by
  obtain ⟨⟨hnamed, hmade⟩, done, x, hf⟩ := hk.stage
  have hout : advance t (.pushing e c calls myhash) s = some (none, .scanning e calls,
      { s with arrays := Function.update s.arrays x (s.arrays x ++ [myhash]) }) := by
    rw [advance, hf.proclist]
  cases hout.symm.trans h
  refine .within (.of_array hinv hf.table _) hf.inside.holds ?_ hk.coupled rfl rfl
    ⟨Or.inr hnamed, done ++ [c], x, hf.push hmade hnamed⟩
  exact ⟨hinv.allocated, hinv.apart, hinv.hashes, hinv.named, hinv.unnamed, hinv.began, hinv.settled,
    hinv.opened⟩

/-- `mutex_table(0)` -/
theorem kept_unlockTable {array : Option Nat} (hinv : Invariant s a)
    (hk : Knows t (.unlockTable e array) s a) {ev : Option (Event Thread Obj)}
    (h : advance t (.unlockTable e array) s = some (ev, l', s')) : Kept t s a ev l' s' := by
  obtain ⟨⟨hset, hfault⟩, x, hf, rfl⟩ := hk.stage
  obtain ⟨hobjects, hends⟩ := hf.complete
  cases h
  have hfill := Within.fill (t := t) (e := e) (s := s) (a := a) (e.scan.objects (a.hashes t))
  have hwithin : Within t e s a { s with mutexTable := none }
      (a.fill t e.obj (e.scan.objects (a.hashes t))) :=
    ⟨rfl, fun _ _ _ => rfl, fun _ _ _ _ _ => rfl, hfill.contents, rfl, fun _ h => h⟩
  refine ⟨?_, ?_, ⟨hwithin.coupled_end hk.coupled rfl ?_, ?_⟩, hwithin.guarantee hf.inside.holds⟩
  · intro y hy
    obtain rfl := Option.mem_some.mp hy
    refine ⟨hf.inside.opened, ?_, ?_, fun hsome => hf.named fun hnil => ?_⟩
    · rw [hinv.hashes, hends, hfault]
    · rw [hinv.hashes, hobjects]
    · rw [hf.array, hnil] at hsome
      exact hsome rfl
  · exact ⟨hinv.allocated, hinv.apart, hinv.hashes, hinv.named, hinv.unnamed, hinv.began,
      fun _ => hset, fun _ => hf.inside.opened⟩
  · show (s.tables t e.obj).map s.arrays = _
    rw [hf.table, hinv.hashes, hobjects]
    exact (Atomic.fill_self a t e.obj (s.arrays x)).symm
  · split <;> trivial

end

end

end ProcessTable.Threads
