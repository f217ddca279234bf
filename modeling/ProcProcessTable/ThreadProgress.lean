import ProcProcessTable.ThreadRuns

/-!
# What the threads wait for, and what fields returns

`fields_complete`: behind a `table` that found a process `fields` returns all names.

`mutex_freed_iff`: a mutex that is locked can be unlocked again exactly when the scan
under way ends without a fault.  Then its thread unlocks it alone; otherwise no `table`
returns any more, and whoever waits for the mutex waits for ever.
-/

namespace ProcessTable.Threads

open Xs CText Interleaving

section

variable {Thread Obj : Type} [DecidableEq Thread] [DecidableEq Obj]

/-! ## What fields returns -/

section

variable {a : Atomic Thread Obj} {h : List (Event Thread Obj)}

/-- Names that are known stay known. -/
theorem names_after (hacc : atomic.Accepts a h) {names : List String × Nat}
    (hnames : a.names = some names) : (atomic.after a h).names = some names := by
  refine hacc.keeps (P := fun a => a.names = some names) (fun a e hallowed hnames => ?_) hnames
  cases e with
  | named fields n => cases hnames.symm.trans hallowed
  | table | threw | fieldsCalled | fields | initialized => exact hnames

/-- Names that have become known were set. -/
theorem named_of_after (hnone : a.names = none) {fields : List String} {n : Nat}
    (hnames : (atomic.after a h).names = some (fields, n)) : Event.named fields n ∈ h := by
  have hmade := atomic.before_or_made
    (P := fun a : Atomic Thread Obj => a.names = some (fields, n))
    (M := fun e => e = .named fields n) ?_ hnames
  · rcases hmade with hthere | ⟨e, hmem, rfl⟩
    · cases hnone.symm.trans hthere
    · exact hmem
  · intro a e hnext
    cases e with
    | named fields' n' =>
        obtain ⟨rfl, rfl⟩ := Prod.mk.inj (Option.some.inj hnext)
        exact Or.inr rfl
    | table | threw | fieldsCalled | fields | initialized => exact Or.inl hnext

/-- What was known at the call of `fields` is remembered until the next one. -/
theorem began_after {t : Thread} (hno : Event.fieldsCalled t ∉ h) :
    (atomic.after a h).began t = a.began t := by
  induction h generalizing a with
  | nil => rfl
  | cons e h ih =>
      rw [List.mem_cons, not_or] at hno
      refine (ih hno.2).trans ?_
      cases e with
      | fieldsCalled u =>
          have htu : t ≠ u := fun ht => hno.1 (congrArg Event.fieldsCalled ht)
          exact Function.update_of_ne htu _ _
      | table | threw | named | fields | initialized => rfl

/-- Behind a `table` that found a process the names are known. -/
theorem names_of_table (hacc : atomic.Accepts a h) {t : Thread} {obj : Obj} {scan : Scan}
    {result : List HV} (hmem : Event.table t obj scan result ∈ h) (hsome : result ≠ []) :
    (atomic.after a h).names ≠ none := by
  obtain ⟨before, rest, rfl⟩ := List.append_of_mem hmem
  obtain ⟨_, hallowed, hrest⟩ := atomic.accepts_append.mp hacc
  obtain ⟨names, hnames⟩ := Option.ne_none_iff_exists'.mp (hallowed.2.2.2 hsome)
  rw [atomic.after_append]
  have hafter : (atomic.after _ rest).names = some names := names_after hrest hnames
  exact fun hnone => Option.some_ne_none names (hafter.symm.trans hnone)

end

/-- **When `fields` is complete.**  A call of `fields` that begins behind any `table` that
found a process returns the names of the first call of `bless_into_proc`, all of them,
and never more than it made room for, whatever the other threads do meanwhile. -/
theorem fields_complete {h before between rest : List (Event Thread Obj)}
    {c : Config Thread (Place Obj) (Shared Thread Obj)} (hrun : Run Code start h c) {t u : Thread}
    {names : List String} {extended : Nat} {obj : Obj} {scan : Scan} {result : List HV}
    (hhist : h = before ++ .fieldsCalled t :: (between ++ .fields t names extended :: rest))
    (hown : Event.fieldsCalled t ∉ between) (htable : Event.table u obj scan result ∈ before)
    (hsome : result ≠ []) :
    ∃ fields n, Event.named fields n ∈ before ∧ names = fields.take n ∧ names.length = n ∧
      n ≤ extended := by
  have hacc := (outline_start.run hrun).1
  rw [hhist] at hacc
  obtain ⟨hbefore, _, hcalled⟩ := atomic.accepts_append.mp hacc
  obtain ⟨hbetween, hfields, _⟩ := atomic.accepts_append.mp hcalled
  have hknown := names_of_table hbefore htable hsome
  obtain ⟨⟨fields, n⟩, hnames⟩ := Option.ne_none_iff_exists'.mp hknown
  refine ⟨fields, n, named_of_after rfl hnames, ?_⟩
  let called := (atomic.after Atomic.init before).next (.fieldsCalled t)
  have hbegan : (atomic.after called between).began t = some (fields, n) := by
    rw [began_after hown]
    exact (Function.update_self t _ _).trans hnames
  have hkept : (atomic.after called between).names = some (fields, n) :=
    names_after hbetween hnames
  rcases hfields with ⟨fields', n', hnames', htake, hlen, hroom⟩ | ⟨_, hnone⟩
  · cases hkept.symm.trans hnames'
    refine ⟨htake, hlen, hroom.resolve_right fun hnone => ?_⟩
    cases hbegan.symm.trans hnone
  · cases hbegan.symm.trans hnone

/-! ## The mutex comes free -/

/-- The steps that are left of some calls of `bless_into_proc`. -/
def cost (calls : List BlessCall) : Nat := (calls.map fun c => (cstr c.format).length + 5).sum

theorem cost_cons (c : BlessCall) (calls : List BlessCall) :
    cost (c :: calls) = (cstr c.format).length + 5 + cost calls :=
  List.sum_cons

/-- The steps that are left of a call of `table`, at most. -/
def Place.work : Place Obj → Nat
  | .getTtydevs e => cost e.scan.calls + 6
  | .getProclist e => cost e.scan.calls + 5
  | .clearTable e | .storeTable e => cost e.scan.calls + 4
  | .scanning _ calls => cost calls + 3
  | .setFields _ c calls => cost calls + (cstr c.format).length + 7
  | .setNumfields _ c calls => cost calls + (cstr c.format).length + 6
  | .converting _ _ calls w => cost calls + w.format.length + 5
  | .pushing _ _ calls _ => cost calls + 4
  | .makeRef _ => 2
  | .unlockTable _ _ => 1
  | _ => 0

section

variable {t : Thread} {e : Errand Obj} {l l' : Place Obj} {s s' : Shared Thread Obj}
  {a : Atomic Thread Obj} {ev : Option (Event Thread Obj)}

/-- A step of `table` on the way to its end. -/
def Nears (t : Thread) (e : Errand Obj) (l : Place Obj) (s : Shared Thread Obj) : Prop :=
  ∃ ev l' s', advance t l s = some (ev, l', s') ∧
    (s'.mutexTable = none ∨ l'.errand = some e ∧ s'.hashes = s.hashes ∧ l'.work < l.work)

/-- **Where the scan ends without a fault, the call comes nearer to its end.** -/
theorem nears_of_ends (hk : Knows t l s a) (hl : l.errand = some e)
    (hends : e.scan.ends (s.hashes t) = none) : Nears t e l s := by
  have hstage := hk.stage
  cases l with
  | idle | lockTable | testFields | extendStack | countNames | pushName | strayed | lockNew
  | initializing | unlockNew => cases hl
  | crashed e =>
      cases hl
      exact absurd hends hstage.2
  | getTtydevs e =>
      cases hl
      exact ⟨_, _, _, rfl, Or.inr ⟨rfl, rfl, Nat.lt_succ_self _⟩⟩
  | getProclist e =>
      cases hl
      cases htable : s.tables t e.obj with
      | some x =>
          have hout : advance t (.getProclist e) s =
              some (none, .clearTable e, { s with proclist := some x }) := by
            rw [advance, htable]
          exact ⟨_, _, _, hout, Or.inr ⟨rfl, rfl, Nat.lt_succ_self _⟩⟩
      | none =>
          have hout : advance t (.getProclist e) s =
              some (none, .storeTable e,
                { s with
                  proclist := some s.nextArray
                  arrays := Function.update s.arrays s.nextArray []
                  nextArray := s.nextArray + 1 }) := by
            rw [advance, htable]
          exact ⟨_, _, _, hout, Or.inr ⟨rfl, rfl, Nat.lt_succ_self _⟩⟩
  | clearTable e =>
      cases hl
      obtain ⟨_, _, _, x, hptr, _⟩ := hstage
      have hout : advance t (.clearTable e) s = some (none, .scanning e e.scan.calls,
          { s with arrays := Function.update s.arrays x [] }) := by
        rw [advance, hptr]
      exact ⟨_, _, _, hout, Or.inr ⟨rfl, rfl, Nat.lt_succ_self _⟩⟩
  | storeTable e =>
      cases hl
      exact ⟨_, _, _, rfl, Or.inr ⟨rfl, rfl, Nat.lt_succ_self _⟩⟩
  | scanning e calls =>
      cases hl
      obtain ⟨_, done, x, hf⟩ := hstage
      cases calls with
      | nil =>
          have hfault := hf.complete.2.symm.trans hends
          have hout : advance t (.scanning e []) s = some (none, .makeRef e, s) := by
            rw [advance, hfault]
          exact ⟨_, _, _, hout, Or.inr ⟨rfl, rfl, Nat.lt_succ_self _⟩⟩
      | cons c calls =>
          cases hfields : s.fields with
          | none =>
              have hout : advance t (.scanning e (c :: calls)) s =
                  some (none, .setFields e c calls, s) := by
                rw [advance, hfields]
              refine ⟨_, _, _, hout, Or.inr ⟨rfl, rfl, ?_⟩⟩
              rw [Place.work, Place.work, cost_cons]
              omega
          | some names =>
              have hout : advance t (.scanning e (c :: calls)) s = some (none,
                  .converting e c calls ⟨cstr c.format, c.fields, c.args, HV.empty⟩, s) := by
                rw [advance, hfields]
              refine ⟨_, _, _, hout, Or.inr ⟨rfl, rfl, ?_⟩⟩
              rw [Place.work, Place.work, cost_cons]
              dsimp only
              omega
  | setFields e c calls =>
      cases hl
      exact ⟨_, _, _, rfl, Or.inr ⟨rfl, rfl, Nat.lt_succ_self _⟩⟩
  | setNumfields e c calls =>
      cases hl
      exact ⟨_, _, _, rfl, Or.inr ⟨rfl, rfl, Nat.lt_succ_self _⟩⟩
  | converting e c calls w =>
      cases hl
      obtain ⟨⟨_, hwalks⟩, done, x, hf⟩ := hstage
      have hmade := c.made_eq (s.hashes t)
      rw [← hwalks] at hmade
      have hclean : ∀ f, c.made (s.hashes t) ≠ ([], some f) := by
        intro f hc
        cases hends.symm.trans (hf.fault hc).2
      obtain ⟨format, fields, args, myhash⟩ := w
      cases format with
      | nil => exact ⟨_, _, _, rfl, Or.inr ⟨rfl, rfl, Nat.lt_succ_self _⟩⟩
      | cons char format =>
          cases fields with
          | nil =>
              rw [blessLoop] at hmade
              exact absurd hmade (hclean _)
          | cons key fields =>
              dsimp only at hmade
              rw [blessLoop] at hmade
              cases hconvert : convert char args with
              | error f =>
                  rw [hconvert] at hmade
                  exact absurd hmade (hclean f)
              | ok out =>
                  obtain ⟨v, args'⟩ := out
                  have hout : advance t (.converting e c calls ⟨char :: format, key :: fields, args, myhash⟩) s =
                      some (none, .converting e c calls
                        ⟨format, fields, args', storeField s.ttydevsHash key v myhash⟩, s) := by
                    rw [advance]
                    dsimp only
                    rw [hconvert]
                  exact ⟨_, _, _, hout, Or.inr ⟨rfl, rfl, Nat.lt_succ_self _⟩⟩
  | pushing e c calls myhash =>
      cases hl
      obtain ⟨_, done, x, hf⟩ := hstage
      have hout : advance t (.pushing e c calls myhash) s = some (none, .scanning e calls,
          { s with arrays := Function.update s.arrays x (s.arrays x ++ [myhash]) }) := by
        rw [advance, hf.proclist]
      exact ⟨_, _, _, hout, Or.inr ⟨rfl, rfl, Nat.lt_succ_self _⟩⟩
  | makeRef e =>
      cases hl
      exact ⟨_, _, _, rfl, Or.inr ⟨rfl, rfl, Nat.lt_succ_self _⟩⟩
  | unlockTable e array =>
      cases hl
      obtain ⟨_, x, _, rfl⟩ := hstage
      exact ⟨_, _, _, rfl, Or.inl rfl⟩

end

/-- The thread goes on alone until the mutex is free. -/
theorem alone_frees {t : Thread} {e : Errand Obj} {l : Place Obj} {s : Shared Thread Obj}
    {a : Atomic Thread Obj} (hinv : Invariant s a) (hk : Knows t l s a) (hl : l.errand = some e)
    (hends : e.scan.ends (s.hashes t) = none) :
    ∃ h l' s', Alone Code t l s h l' s' ∧ s'.mutexTable = none := by
  refine Alone.exists_of_measure
    (fun l s => (∃ a, Invariant s a ∧ Knows t l s a) ∧ l.errand = some e ∧
      e.scan.ends (s.hashes t) = none)
    (fun _ s => s.mutexTable = none) (fun l _ => l.work) ?_ ⟨⟨a, hinv, hk⟩, hl, hends⟩
  rintro l s ⟨⟨a, hinv, hk⟩, hl, hends⟩
  obtain ⟨ev, l', s', hadv, hnext⟩ := nears_of_ends hk hl hends
  refine ⟨ev, l', s', .advance hadv, ?_⟩
  rcases hnext with hfree | ⟨hl', hhashes, hlt⟩
  · exact Or.inl hfree
  · have hkept := advance_kept hinv hk hadv
    refine Or.inr ⟨⟨⟨_, hkept.inv, hkept.knows⟩, hl', ?_⟩, hlt⟩
    rw [hhashes]
    exact hends

/-- The thread has the mutex and will not unlock it: it has left `table` by an
exception, or its scan will end with a fault. -/
structure Lost (t : Thread) (l : Place Obj) (s : Shared Thread Obj) : Prop where
  holds : s.mutexTable = some t
  ends : ∀ e, l.errand = some e → e.scan.ends (s.hashes t) ≠ none

omit [DecidableEq Thread] [DecidableEq Obj] in
theorem Errand.fail_lost {t : Thread} {e : Errand Obj} {s : Shared Thread Obj} {f : Fault}
    (h : Lost t (.crashed e) s) : Lost t (e.fail t s f).2.1 (e.fail t s f).2.2 := by
  cases f with
  | croak message => exact ⟨h.holds, fun _ he => by cases he⟩
  | hang | nullDeref | overflow | badArgument => exact h

/-- A thread that has lost the mutex does not find it again. -/
theorem Lost.advance {t : Thread} {l l' : Place Obj} {s s' : Shared Thread Obj}
    {a : Atomic Thread Obj} {ev : Option (Event Thread Obj)} (h : Lost t l s) (hk : Knows t l s a)
    (hadv : advance t l s = some (ev, l', s')) : Lost t l' s' := by
  have hholds := h.holds
  have hends := h.ends
  have hout : ∀ {l'' : Place Obj} {s'' : Shared Thread Obj}, s''.mutexTable = some t →
      l''.errand = none → Lost t l'' s'' := by
    intro l'' s'' hmutex hl
    refine ⟨hmutex, fun e he => ?_⟩
    cases hl.symm.trans he
  cases l with
  | idle | crashed | strayed => cases hadv
  | lockTable e =>
      rw [Threads.advance, hholds] at hadv
      cases hadv
  | getTtydevs | storeTable | setFields | setNumfields | makeRef =>
      cases hadv
      exact ⟨hholds, hends⟩
  | getProclist e =>
      rw [Threads.advance] at hadv
      split at hadv <;> cases hadv <;> exact ⟨hholds, hends⟩
  | clearTable | pushing =>
      rw [Threads.advance] at hadv
      split at hadv <;> cases hadv <;> exact ⟨hholds, hends⟩
  | scanning e calls =>
      cases calls with
      | cons c calls =>
          rw [Threads.advance] at hadv
          split at hadv <;> cases hadv <;> exact ⟨hholds, hends⟩
      | nil =>
          rw [Threads.advance] at hadv
          cases hfault : e.scan.fault with
          | none =>
              rw [hfault] at hadv
              cases hadv
              exact ⟨hholds, hends⟩
          | some f =>
              rw [hfault] at hadv
              have hlost := Errand.fail_lost (f := f) (⟨hholds, hends⟩ : Lost t (.crashed e) s)
              rw [Option.some.inj hadv] at hlost
              exact hlost
  | converting e c calls w =>
      obtain ⟨format, fields, args, myhash⟩ := w
      have hfail : ∀ f, some (e.fail t s f) = some (ev, l', s') → Lost t l' s' := by
        intro f hf
        have hlost := Errand.fail_lost (f := f) (⟨hholds, hends⟩ : Lost t (.crashed e) s)
        rw [Option.some.inj hf] at hlost
        exact hlost
      cases format with
      | nil =>
          cases hadv
          exact ⟨hholds, hends⟩
      | cons char format =>
          cases fields with
          | nil => exact hfail _ hadv
          | cons key fields =>
              rw [Threads.advance] at hadv
              dsimp only at hadv
              cases hconvert : convert char args with
              | error f =>
                  rw [hconvert] at hadv
                  exact hfail f hadv
              | ok out =>
                  rw [hconvert] at hadv
                  cases hadv
                  exact ⟨hholds, hends⟩
  | unlockTable e array =>
      obtain ⟨⟨_, hfault⟩, x, hf, _⟩ := hk.stage
      exact absurd (hf.complete.2.trans hfault) (hends e rfl)
  | testFields | countNames | pushName | lockNew =>
      rw [Threads.advance] at hadv
      split at hadv <;> cases hadv <;> exact hout hholds rfl
  | extendStack | unlockNew =>
      cases hadv
      exact hout hholds rfl
  | initializing opts answer ttydevs =>
      cases hadv
      refine hout hholds ?_
      split <;> rfl

theorem Lost.step {t : Thread} {l l' : Place Obj} {s s' : Shared Thread Obj}
    {a : Atomic Thread Obj} {ev : Option (Event Thread Obj)} (h : Lost t l s) (hk : Knows t l s a)
    (hstep : Code t l s ev l' s') : Lost t l' s' := by
  cases hstep with
  | call _ r =>
      refine ⟨h.holds, fun e he => ?_⟩
      cases r <;> cases he
  | advance hadv => exact h.advance hk hadv

omit [DecidableEq Thread] [DecidableEq Obj] in
theorem Errand.fail_event {t : Thread} {e : Errand Obj} {s : Shared Thread Obj} {f : Fault}
    {v : Thread} {obj : Obj} {scan : Scan} {result : List HV} :
    (e.fail t s f).1 ≠ some (.table v obj scan result) := by
  cases f with
  | croak message => exact fun h => by cases h
  | hang | nullDeref | overflow | badArgument => exact (Option.some_ne_none _).symm

/-- Only the last step of `table` shows that it returns. -/
theorem unlocking_of_table {t v : Thread} {l l' : Place Obj} {s s' : Shared Thread Obj} {obj : Obj}
    {scan : Scan} {result : List HV} (hstep : Code t l s (some (.table v obj scan result)) l' s') :
    ∃ e array, l = .unlockTable e array := by
  have hadv : advance t l s = some (some (.table v obj scan result), l', s') := by
    generalize hev : some (Event.table v obj scan result) = ev at hstep
    cases hstep with
    | call _ r => cases r <;> cases hev
    | advance hadv => exact hadv
  cases l with
  | unlockTable e array => exact ⟨e, array, rfl⟩
  | idle | crashed | strayed | getTtydevs | storeTable | setFields | setNumfields | makeRef
  | extendStack | unlockNew | initializing => cases hadv
  | lockTable | getProclist | clearTable | pushing | testFields | countNames | pushName
  | lockNew =>
      rw [Threads.advance] at hadv
      split at hadv <;> cases hadv
  | scanning e calls =>
      cases calls with
      | cons c calls =>
          rw [Threads.advance] at hadv
          split at hadv <;> cases hadv
      | nil =>
          rw [Threads.advance] at hadv
          cases hfault : e.scan.fault with
          | none =>
              rw [hfault] at hadv
              cases hadv
          | some f =>
              rw [hfault] at hadv
              exact absurd (congrArg Prod.fst (Option.some.inj hadv)) Errand.fail_event
  | converting e c calls w =>
      obtain ⟨format, fields, args, myhash⟩ := w
      cases format with
      | nil => cases hadv
      | cons char format =>
          cases fields with
          | nil => exact absurd (congrArg Prod.fst (Option.some.inj hadv)) Errand.fail_event
          | cons key fields =>
              rw [Threads.advance] at hadv
              dsimp only at hadv
              cases hconvert : convert char args with
              | error f =>
                  rw [hconvert] at hadv
                  exact absurd (congrArg Prod.fst (Option.some.inj hadv)) Errand.fail_event
              | ok out =>
                  rw [hconvert] at hadv
                  cases hadv

section

variable {c : Config Thread (Place Obj) (Shared Thread Obj)} {a : Atomic Thread Obj} {t : Thread}

/-- **Where the mutex is lost**, one step of any thread keeps it lost, does not return from
`table`, and is not a step of a thread that waits for the mutex. -/
theorem Lost.move (hholds : outline.Holds c a) (h : Lost t (c.places t) c.shared) {u : Thread}
    {l : Place Obj} {s : Shared Thread Obj} {ev : Option (Event Thread Obj)}
    (hstep : Code u (c.places u) c.shared ev l s) :
    Lost t ((c.move u l s).places t) (c.move u l s).shared ∧
      (∀ v obj scan result, ev ≠ some (.table v obj scan result)) ∧
      ∀ e, c.places u ≠ .lockTable e := by
  refine ⟨?_, ?_, ?_⟩
  · by_cases hu : t = u
    · rw [hu, Config.move_places_self, Config.move_shared]
      rw [hu] at h
      exact h.step (hholds.knows u) hstep
    · obtain ⟨_, _, _, hguar⟩ := outline.own hstep hholds.inv (hholds.knows u)
      have hguar : Guarantee u _ _ _ _ := hguar
      rw [Config.move_places_of_ne c hu, Config.move_shared]
      refine ⟨hguar.mutexTable t hu h.holds, fun e he => ?_⟩
      rw [hguar.hashes t hu]
      exact h.ends e he
  · rintro v obj scan result rfl
    obtain ⟨e, array, hl⟩ := unlocking_of_table hstep
    -- the thread that returns has the mutex, and its scan has ended without a fault
    have hstage := (show Knows u (c.places u) c.shared a from hholds.knows u).stage
    have hends := h.ends
    have hmutex := h.holds
    rw [hl] at hstage
    obtain rfl : t = u := Option.some.inj (hmutex.symm.trans (hstage.holds (e := e) rfl))
    obtain ⟨⟨_, hfault⟩, x, hf, _⟩ := hstage
    exact hends e (by rw [hl]; rfl) (hf.complete.2.trans hfault)
  · intro e hl
    rw [hl] at hstep
    cases hstep with
    | advance hadv =>
        rw [Threads.advance, h.holds] at hadv
        cases hadv

/-- **No run brings it back**: no call of `table` returns, and whoever waits goes on
waiting. -/
theorem Lost.run (hholds : outline.Holds c a) (h : Lost t (c.places t) c.shared)
    {c' : Config Thread (Place Obj) (Shared Thread Obj)} {hist : List (Event Thread Obj)}
    (hrun : Run Code c hist c') :
    Lost t (c'.places t) c'.shared ∧ (∀ u obj scan result, Event.table u obj scan result ∉ hist) ∧
      ∀ u e, c.places u = .lockTable e → c'.places u = .lockTable e := by
  induction hrun with
  | start => exact ⟨h, fun _ _ _ _ => List.not_mem_nil, fun _ _ hu => hu⟩
  | @next hist c' v ev l s hprev hstep ih =>
      obtain ⟨hlost, hnone, hwaits⟩ := ih
      obtain ⟨hlost', hnot, hmoves⟩ := hlost.move (hholds.run hprev).2 hstep
      refine ⟨hlost', ?_, ?_⟩
      · intro u obj scan result hmem
        rcases List.mem_append.mp hmem with hmem | hmem
        · exact hnone u obj scan result hmem
        · exact hnot u obj scan result (Option.mem_toList.mp hmem)
      · intro u e hu
        have huv : u ≠ v := by
          rintro rfl
          exact hmoves e (hwaits u e hu)
        rw [Config.move_places_of_ne c' huv]
        exact hwaits u e hu

end

/-- The thread is in `table`, with a scan that ends without a fault. -/
def Finishing (t : Thread) (l : Place Obj) (s : Shared Thread Obj) : Prop :=
  ∃ e, l.errand = some e ∧ e.scan.ends (s.hashes t) = none

end

/-- A whole `table`, and `fields` of the other thread behind it. -/
def fieldsTurns : List (Bool × Option (Request Unit)) :=
  [(false, some (.table () (sampleScan 7)))] ++ List.replicate 13 (false, none) ++
    [(true, some (.fields () (sampleScan 8)))] ++ List.replicate 5 (true, none)

theorem fieldsTurns_play :
    ∃ c, play turn start fieldsTurns =
      some ([.named ["pid"] 1, .table false () (sampleScan 7) ((sampleScan 7).objects none),
        .fieldsCalled true, .fields true ["pid"] 1], c) :=
  ⟨_, rfl⟩

theorem fields_complete_sample :
    ∃ fields n, Event.named fields n ∈ [Event.named ["pid"] 1,
        Event.table false () (sampleScan 7) ((sampleScan 7).objects none)] ∧
      ["pid"] = fields.take n ∧ ["pid"].length = n ∧ n ≤ 1 := by
  obtain ⟨c, hplay⟩ := fieldsTurns_play
  refine @fields_complete Bool Unit _ _ _ _ [] [] c (play_run turn_code hplay) true false ["pid"] 1 () _ _ rfl
    List.not_mem_nil (List.mem_cons_of_mem _ List.mem_cons_self) ?_
  exact List.cons_ne_nil _ _

/-- A scan that croaks at its first field. -/
def croakingScan : Scan := ⟨[⟨['?'], ["pid"], [.word 7]⟩], none⟩

/-- One thread leaves `table` by an exception, and the other calls it. -/
def lostTurns : List (Bool × Option (Request Unit)) :=
  [(false, some (.table () croakingScan))] ++ List.replicate 8 (false, none) ++
    [(true, some (.table () (sampleScan 8)))]

theorem sampleTurns_play :
    ∃ h c, play turn start (sampleTurns.take 7) = some (h, c) ∧
      c.shared.mutexTable = some false ∧ Finishing false (c.places false) c.shared :=
  ⟨_, _, rfl, rfl, _, rfl, rfl⟩

theorem lostTurns_play :
    ∃ h c, play turn start lostTurns = some (h, c) ∧ c.shared.mutexTable = some false ∧
      c.places false = .idle ∧ c.places true = .lockTable ⟨(), sampleScan 8, false⟩ :=
  ⟨_, _, rfl, rfl, rfl, rfl⟩

end ProcessTable.Threads
