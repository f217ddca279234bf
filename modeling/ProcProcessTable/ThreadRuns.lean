import ProcProcessTable.ThreadSteps

/-!
# Runs of a threaded build

`threads_atomic`: in every run the threads get what they would get if their calls
were made one at a time, no two threads are in `table` together, and an object's
array holds the objects of the last scan of it whatever the others do.

`turn` is one step of a thread in an order that is given.
-/

namespace ProcessTable.Threads

open Xs CText Initialize Interleaving

section

variable {Thread Obj : Type} [DecidableEq Thread] [DecidableEq Obj]

/-! ## fields and new -/

section

variable {t : Thread} {l l' : Place Obj} {s s' : Shared Thread Obj} {a : Atomic Thread Obj}
  {ev : Option (Event Thread Obj)}

omit [DecidableEq Thread] [DecidableEq Obj] in
theorem Untouched.refl (s : Shared Thread Obj) (a : Atomic Thread Obj) : Untouched s a s a :=
  ⟨rfl, rfl, rfl, rfl, rfl, rfl, rfl, rfl, rfl, rfl⟩

omit [DecidableEq Thread] [DecidableEq Obj] in
theorem Guarantee.refl (t : Thread) (s : Shared Thread Obj) (a : Atomic Thread Obj) :
    Guarantee t s a s a :=
  ⟨fun _ _ => rfl, fun _ _ => rfl, fun _ _ _ _ _ => rfl, fun _ _ => rfl, fun _ _ => rfl,
    fun _ h => h, fun _ _ h => h, fun _ => Untouched.refl s a⟩

omit [DecidableEq Thread] [DecidableEq Obj] in
/-- Outside of `table` every object is coupled. -/
theorem Coupled.outside (h : Coupled t l s a) (hl : l.errand = none) : Coupled t l' s a := by
  intro obj _
  apply h obj
  intro e he
  rw [hl] at he
  cases he

/-- A step outside of `table` that changes nothing. -/
theorem Kept.quiet (hinv : Invariant s a) (hk : Knows t l s a) (hl : l.errand = none)
    (hstage : Stage t l' s a) : Kept t s a none l' s :=
  ⟨fun _ hx => absurd hx (Option.not_mem_none _), hinv, ⟨hk.coupled.outside hl, hstage⟩,
    Guarantee.refl t s a⟩

/-- A call begins. -/
theorem kept_call (hinv : Invariant s a) (hk : Knows t .idle s a) (r : Request Obj) :
    Kept t s a (r.event t) r.place s := by
  cases r with
  | new opts answer ttydevs => exact .quiet hinv hk rfl trivial
  | table obj scan => exact .quiet hinv hk rfl trivial
  | fields obj scan =>
      refine ⟨?_, ?_, ⟨hk.coupled.outside rfl, trivial⟩, ?_⟩
      · intro y hy
        obtain rfl := Option.mem_some.mp hy
        trivial
      · refine ⟨hinv.allocated, hinv.apart, hinv.hashes, hinv.named, hinv.unnamed, ?_, hinv.settled,
          hinv.opened⟩
        intro u names hbegan
        by_cases hu : u = t
        · have hself : Function.update a.began t a.names u = a.names := by
            rw [hu, Function.update_self]
          exact hself.symm.trans hbegan
        · have hother : Function.update a.began t a.names u = a.began u :=
            Function.update_of_ne hu _ _
          exact hinv.began u names (hother.symm.trans hbegan)
      · exact ⟨fun _ _ => rfl, fun _ _ => rfl, fun _ _ _ _ _ => rfl, fun _ _ => rfl,
          fun u hu => Function.update_of_ne hu _ _, fun _ h => h, fun _ _ h => h,
          fun _ => ⟨rfl, rfl, rfl, rfl, rfl, rfl, rfl, rfl, rfl, rfl⟩⟩

/-- `EXTEND(SP, Numfields)` -/
theorem kept_extendStack (hinv : Invariant s a) (hk : Knows t .extendStack s a) :
    Kept t s a none (.countNames s.numfields []) s := by
  refine .quiet hinv hk rfl ?_
  cases hnames : a.names with
  | some names =>
      obtain ⟨fields, n⟩ := names
      obtain ⟨_, hn⟩ := hinv.named fields n hnames
      exact Or.inl ⟨n, fields, hnames, rfl, Nat.zero_le n, Or.inl (Nat.le_of_eq hn.symm)⟩
  | none =>
      refine Or.inr ⟨rfl, ?_⟩
      cases hbegan : a.began t with
      | none => rfl
      | some names => cases hnames.symm.trans (hinv.began t names hbegan)

/-- `i < Numfields` -/
theorem kept_countNames {extended : Nat} {names : List String} (hinv : Invariant s a)
    (hk : Knows t (.countNames extended names) s a)
    (h : advance t (.countNames extended names) s = some (ev, l', s')) : Kept t s a ev l' s' := by
  have hstage := hk.stage
  rw [advance] at h
  split at h
  · rename_i hlt
    cases h
    refine .quiet hinv hk rfl ?_
    rcases hstage with ⟨n, hreading⟩ | ⟨rfl, hbegan⟩
    · obtain ⟨fields, hnames, _⟩ := id hreading
      obtain ⟨_, hn⟩ := hinv.named fields n hnames
      exact ⟨n, hreading, hn ▸ hlt⟩
    · -- the names were counted since the call began
      cases hnames : a.names with
      | none =>
          rw [hinv.unnamed hnames] at hlt
          cases hlt
      | some known =>
          obtain ⟨fields, n⟩ := known
          obtain ⟨_, hn⟩ := hinv.named fields n hnames
          exact ⟨n, ⟨fields, hnames, rfl, Nat.zero_le n, Or.inr hbegan⟩, hn ▸ hlt⟩
  · rename_i hge
    cases h
    refine ⟨?_, hinv, ⟨hk.coupled.outside rfl, trivial⟩, Guarantee.refl t s a⟩
    intro y hy
    obtain rfl := Option.mem_some.mp hy
    rcases hstage with ⟨n, fields, hnames, htake, hle, hroom⟩ | hnone
    · obtain ⟨_, hn⟩ := hinv.named fields n hnames
      have hlen : names.length = n := Nat.le_antisymm hle (hn ▸ Nat.le_of_not_lt hge)
      exact Or.inl ⟨fields, n, hnames, hlen ▸ htake, hlen, hroom⟩
    · exact Or.inr hnone

/-- `Fields[i]` -/
theorem kept_pushName {extended : Nat} {names : List String} (hinv : Invariant s a)
    (hk : Knows t (.pushName extended names) s a)
    (h : advance t (.pushName extended names) s = some (ev, l', s')) : Kept t s a ev l' s' := by
  obtain ⟨n, ⟨fields, hnames, htake, hle, hroom⟩, hlt⟩ := hk.stage
  obtain ⟨hfields, _⟩ := hinv.named fields n hnames
  rw [advance, hfields, Option.bind_some] at h
  cases hname : fields[names.length]? with
  | none =>
      rw [hname] at h
      cases h
      exact .quiet hinv hk rfl trivial
  | some name =>
      rw [hname] at h
      cases h
      have hlen : (names ++ [name]).length = names.length + 1 := List.length_append
      refine .quiet hinv hk rfl (Or.inl ⟨n, fields, hnames, ?_, hlen ▸ hlt, hroom⟩)
      rw [hlen, List.take_add_one, hname, ← htake]
      rfl

/-- `initialize` -/
theorem kept_initializing {opts : Options} {answer : Point → Bool} {ttydevs : Option HV}
    (hinv : Invariant s a) (hk : Knows t (.initializing opts answer ttydevs) s a)
    (h : advance t (.initializing opts answer ttydevs) s = some (ev, l', s')) :
    Kept t s a ev l' s' := by
  cases h
  refine ⟨?_, ?_, ⟨hk.coupled.outside rfl, ?_⟩, ?_⟩
  · intro y hy
    obtain rfl := Option.mem_some.mp hy
    trivial
  · refine ⟨hinv.allocated, hinv.apart, ?_, hinv.named, hinv.unnamed, hinv.began, hinv.settled,
      hinv.opened⟩
    exact congrArg (fun hashes => Function.update hashes t ttydevs) hinv.hashes
  · split <;> trivial
  · exact ⟨fun u hu => Function.update_of_ne hu _ _, fun _ _ => rfl, fun _ _ _ _ _ => rfl,
      fun _ _ => rfl, fun _ _ => rfl, fun _ h => h, fun _ _ h => h,
      fun _ => ⟨rfl, rfl, rfl, rfl, rfl, rfl, rfl, rfl, rfl, rfl⟩⟩

omit [DecidableEq Thread] [DecidableEq Obj] in
/-- A change of the other mutex. -/
theorem kept_mutexNew (hinv : Invariant s a) (hk : Knows t l s a) (hl : l.errand = none)
    (mutexNew : Option Thread) (hstage : ∀ s', Stage t l' s' a) :
    Invariant { s with mutexNew := mutexNew } a ∧ Knows t l' { s with mutexNew := mutexNew } a ∧
      Guarantee t s a { s with mutexNew := mutexNew } a := by
  refine ⟨⟨hinv.allocated, hinv.apart, hinv.hashes, hinv.named, hinv.unnamed, hinv.began, hinv.settled,
    hinv.opened⟩, ⟨hk.coupled.outside hl, hstage _⟩, ?_⟩
  exact ⟨fun _ _ => rfl, fun _ _ => rfl, fun _ _ _ _ _ => rfl, fun _ _ => rfl, fun _ _ => rfl,
    fun _ h => h, fun _ _ h => h, fun _ => ⟨rfl, rfl, rfl, rfl, rfl, rfl, rfl, rfl, rfl, rfl⟩⟩

/-- **Every step of a call.** -/
theorem advance_kept (hinv : Invariant s a) (hk : Knows t l s a)
    (h : advance t l s = some (ev, l', s')) : Kept t s a ev l' s' := by
  cases l with
  | idle | crashed | strayed => cases h
  | lockTable e =>
      rw [advance] at h
      cases hmutex : s.mutexTable with
      | some u =>
          rw [hmutex] at h
          cases h
      | none =>
          rw [hmutex] at h
          cases h
          exact kept_lockTable hinv hk hmutex
  | getTtydevs e =>
      obtain ⟨hin, hset⟩ := hk.stage
      cases h
      refine .within (.of_eq rfl rfl rfl) hin.holds ?_ hk.coupled rfl rfl
        ⟨⟨hin.holds, hin.opened⟩, hset, rfl⟩
      exact ⟨hinv.allocated, hinv.apart, hinv.hashes, hinv.named, hinv.unnamed, hinv.began,
        hinv.settled, hinv.opened⟩
  | getProclist e => exact kept_getProclist hinv hk h
  | clearTable e => exact kept_clearTable hinv hk h
  | storeTable e => exact kept_storeTable hinv hk h
  | scanning e calls => exact kept_scanning hinv hk h
  | setFields e c calls =>
      cases h
      exact kept_setFields hinv hk
  | setNumfields e c calls =>
      cases h
      exact kept_setNumfields hinv hk
  | converting e c calls w => exact kept_converting hinv hk h
  | pushing e c calls myhash => exact kept_pushing hinv hk h
  | makeRef e =>
      obtain ⟨⟨hset, hfault⟩, x, hf⟩ := hk.stage
      cases h
      exact .within (.of_eq rfl rfl rfl) hf.inside.holds hinv hk.coupled rfl rfl
        ⟨⟨hset, hfault⟩, x, hf, hf.proclist⟩
  | unlockTable e array => exact kept_unlockTable hinv hk h
  | testFields obj scan =>
      rw [advance] at h
      split at h <;> cases h <;> exact .quiet hinv hk rfl trivial
  | extendStack =>
      cases h
      exact kept_extendStack hinv hk
  | countNames extended names => exact kept_countNames hinv hk h
  | pushName extended names => exact kept_pushName hinv hk h
  | lockNew opts answer ttydevs =>
      rw [advance] at h
      split at h
      · cases h
        obtain ⟨hinv', hk', hg⟩ : Invariant _ a ∧ Knows t (.initializing opts answer ttydevs) _ a ∧ _ :=
          kept_mutexNew hinv hk rfl (some t) fun _ => trivial
        exact ⟨fun _ hx => absurd hx (Option.not_mem_none _), hinv', hk', hg⟩
      · cases h
  | initializing opts answer ttydevs => exact kept_initializing hinv hk h
  | unlockNew =>
      cases h
      obtain ⟨hinv', hk', hg⟩ : Invariant _ a ∧ Knows t .idle _ a ∧ _ :=
        kept_mutexNew hinv hk rfl none fun _ => trivial
      exact ⟨fun _ hx => absurd hx (Option.not_mem_none _), hinv', hk', hg⟩

end

/-- The proof of a threaded build. -/
def outline : Outline (@Code Thread Obj _ _) atomic where
  inv := Invariant
  knows := Knows
  guarantee := Guarantee
  own := by
    intro t l s e l' s' a hcode hinv hk
    have hkept : Kept t s a e l' s' := by
      cases hcode with
      | call _ r => exact kept_call hinv hk r
      | advance h => exact advance_kept hinv hk h
    exact ⟨hkept.allowed, hkept.inv, hkept.knows, hkept.guarantee⟩
  stable := fun hu hg _ hk => hk.stable hu hg

theorem outline_start : (@outline Thread Obj _ _).Holds start Atomic.init where
  inv := by
    refine ⟨?_, ?_, rfl, ?_, fun _ => rfl, ?_, fun _ => Or.inl rfl, fun _ => rfl⟩
    · intro t obj x hx
      cases hx
    · intro t obj u obj' x hx
      cases hx
    · intro fields n hnames
      cases hnames
    · intro t names hbegan
      cases hbegan
  knows := fun _ => ⟨fun _ _ => rfl, trivial⟩

omit [DecidableEq Thread] [DecidableEq Obj] in
/-- A thread in `table` has the mutex. -/
theorem Stage.holds {t : Thread} {l : Place Obj} {s : Shared Thread Obj} {a : Atomic Thread Obj}
    (h : Stage t l s a) {e : Errand Obj} (hl : l.errand = some e) : s.mutexTable = some t := by
  cases l with
  | idle | lockTable | testFields | extendStack | countNames | pushName | strayed | lockNew
  | initializing | unlockNew => cases hl
  | getTtydevs | getProclist | clearTable | storeTable => exact h.1.holds
  | scanning e calls =>
      obtain ⟨_, _, _, hf⟩ := h
      exact hf.inside.holds
  | setFields | setNumfields | converting | pushing =>
      obtain ⟨_, _, _, hf⟩ := h
      exact hf.inside.holds
  | makeRef e =>
      obtain ⟨_, _, hf⟩ := h
      exact hf.inside.holds
  | unlockTable e array =>
      obtain ⟨_, _, hf, _⟩ := h
      exact hf.inside.holds
  | crashed => exact h.1

/-- One step of a thread, with the call that it begins. -/
def turn (t : Thread) (l : Place Obj) (s : Shared Thread Obj) :
    Option (Request Obj) → Option (Option (Event Thread Obj) × Place Obj × Shared Thread Obj)
  | none => advance t l s
  | some r =>
      match l with
      | .idle => some (r.event t, r.place, s)
      | _ => none

theorem turn_code {t : Thread} {l l' : Place Obj} {s s' : Shared Thread Obj}
    {r : Option (Request Obj)} {e : Option (Event Thread Obj)}
    (h : turn t l s r = some (e, l', s')) : Code t l s e l' s' := by
  cases r with
  | none => exact .advance h
  | some r =>
      cases l with
      | idle =>
          cases h
          exact .call s r
      | _ => cases h

end

/-- One thread blesses its first process; the other calls `fields` twice, first
between the assignments to `Fields` and `Numfields`. -/
def sampleTurns : List (Bool × Option (Request Unit)) :=
  [(false, some (.table () (sampleScan 7)))] ++ List.replicate 6 (false, none) ++
    [(true, some (.fields () (sampleScan 8))), (true, none), (true, none), (true, none)] ++
    [(true, some (.fields () (sampleScan 8))), (true, none), (true, none), (false, none)] ++
    List.replicate 3 (true, none) ++ List.replicate 6 (false, none)

example :
    ((play turn start sampleTurns).map fun out => out.1.filterMap fun
        | .fields _ names extended => some (names, extended)
        | _ => none) = some [([], 0), (["pid"], 0)] := by
  decide

end ProcessTable.Threads
