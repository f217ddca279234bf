import Mathlib.Tactic.Common

/-!
# ProcessTable.pm: initialize

`initialize` reads the map of terminal devices from a cache file, or scans
`/dev` and writes the cache file for the next caller, and then calls the port.
Each operation on the way is asked for in turn and succeeds or not; some answers
decide the way and some are thrown away.

`next` is the function cut at its operations, for runs in which several
processes take turns.  `initializeSelf` is the function as one call.
`run_eq_initializeSelf` says that they are the same function.
-/

namespace Initialize

/-- The operations of `initialize`, where it may be interrupted, and its two
ends. -/
inductive Point
  /-- `require Storable` -/
  | requireStorable
  /-- `-r $TTYDEVSFILE` -/
  | testCache
  /-- `Storable::retrieve($TTYDEVSFILE)` -/
  | retrieve
  /-- `_get_tty_list`, behind which the cache is written -/
  | getTtyList
  /-- `require File::Temp` and `require File::Basename` -/
  | requireTemp
  /-- `File::Temp::tempfile` -/
  | tempfile
  /-- `chmod 0644` -/
  | chmod
  /-- `Storable::store_fd` -/
  | storeFd
  /-- `close` -/
  | close
  /-- `rename` -/
  | rename
  /-- `unlink` -/
  | unlink
  /-- the second `-r $TTYDEVSFILE` -/
  | retestCache
  /-- `_get_tty_list`, without a cache -/
  | getTtyListOnly
  /-- `_initialize_os` -/
  | initializeOs
  | returned
  | died
  deriving DecidableEq, Repr

/-- The two options of `new`. -/
structure Options where
  enableTtys : Bool
  cacheTtys : Bool

/-- The first operation. -/
def start (opts : Options) : Point :=
  if opts.enableTtys then
    if opts.cacheTtys then .requireStorable else .getTtyListOnly
  else .initializeOs

/-- Where an operation leads that succeeded or failed. -/
def next : Point → Bool → Point
  | .requireStorable, true => .testCache
  | .requireStorable, false => .died
  | .testCache, true => .retrieve
  | .testCache, false => .getTtyList
  | .retrieve, true => .initializeOs
  | .retrieve, false => .died
  | .getTtyList, _ => .requireTemp
  | .requireTemp, true => .tempfile
  | .requireTemp, false => .died
  | .tempfile, true => .chmod
  | .tempfile, false => .died
  -- the results of these three are not looked at
  | .chmod, _ => .storeFd
  | .storeFd, _ => .close
  | .close, _ => .rename
  | .rename, true => .initializeOs
  | .rename, false => .unlink
  | .unlink, _ => .retestCache
  | .retestCache, true => .initializeOs
  | .retestCache, false => .died
  | .getTtyListOnly, _ => .initializeOs
  | .initializeOs, true => .returned
  | .initializeOs, false => .died
  | .returned, _ => .returned
  | .died, _ => .died

/-- `initialize`, given how each operation ends: whether it returns 1, which it
does unless it dies. -/
def initializeSelf (opts : Options) (answer : Point → Bool) : Bool :=
  let ttys :=
    if opts.enableTtys then
      if opts.cacheTtys then
        if answer .requireStorable = false then false
        else if answer .testCache then answer .retrieve
        else if answer .requireTemp = false then false
        else if answer .tempfile = false then false
        else if answer .rename = false then answer .retestCache
        else true
      else true
    else true
  if ttys = false then false else answer .initializeOs

/-- `n` operations from a point on. -/
def run (answer : Point → Bool) : Nat → Point → Point
  | 0, p => p
  | n + 1, p => run answer n (next p (answer p))

/-- Behind the end nothing happens. -/
theorem run_stays (answer : Point → Bool) (n : Nat) {p : Point} (h : ∀ ok, next p ok = p) :
    run answer n p = p := by
  induction n with
  | zero => rfl
  | succ n ih => rw [run, h, ih]

/-- How far an operation is from the end at most. -/
def Point.distance : Point → Nat
  | .requireStorable => 12
  | .testCache => 11
  | .retrieve => 2
  | .getTtyList => 10
  | .requireTemp => 9
  | .tempfile => 8
  | .chmod => 7
  | .storeFd => 6
  | .close => 5
  | .rename => 4
  | .unlink => 3
  | .retestCache => 2
  | .getTtyListOnly => 2
  | .initializeOs => 1
  | .returned => 0
  | .died => 0

/-- Every operation leads on. -/
theorem distance_next (p : Point) (ok : Bool) :
    (next p ok).distance < p.distance ∨ (p.distance = 0 ∧ next p ok = p) := by
  cases p <;> cases ok <;> decide

theorem run_distance (answer : Point → Bool) {n : Nat} {p : Point} (h : p.distance ≤ n) :
    (run answer n p).distance = 0 := by
  induction n generalizing p with
  | zero => exact Nat.le_zero.mp h
  | succ n ih =>
      apply ih
      rcases distance_next p (answer p) with hlt | ⟨hzero, hstay⟩
      · omega
      · rw [hstay]
        omega

/-- A call ends: within 12 operations it has returned or died. -/
theorem run_ends (answer : Point → Bool) (p : Point) :
    run answer 12 p = .returned ∨ run answer 12 p = .died := by
  have hbound : p.distance ≤ 12 := by cases p <;> decide
  have hzero := run_distance answer hbound
  cases hend : run answer 12 p with
  | returned => exact Or.inl rfl
  | died => exact Or.inr rfl
  | _ =>
      rw [hend] at hzero
      cases hzero

/-- **The operations one after the other are the function.** -/
theorem run_eq_initializeSelf (opts : Options) (answer : Point → Bool) :
    run answer 12 (start opts) = if initializeSelf opts answer then .returned else .died := by
  have hos : ∀ n, run answer (n + 1) .initializeOs =
      if answer .initializeOs then .returned else .died := by
    intro n
    rw [run]
    cases answer .initializeOs
    · exact run_stays answer n fun _ => rfl
    · exact run_stays answer n fun _ => rfl
  obtain ⟨enableTtys, cacheTtys⟩ := opts
  cases enableTtys
  · exact hos 11
  · cases cacheTtys
    · exact hos 10
    · have hgo : ∀ n p, run answer (n + 1) p = run answer n (next p (answer p)) := fun _ _ => rfl
      have hdied : ∀ n, run answer n .died = .died := fun n => run_stays answer n fun _ => rfl
      simp only [start, if_true, hgo 11, initializeSelf]
      cases answer .requireStorable
      · exact hdied 11
      · simp only [next, hgo 10]
        cases answer .testCache
        · simp only [next, hgo 9, hgo 8]
          cases answer .requireTemp
          · exact hdied 8
          · simp only [next, hgo 7]
            cases answer .tempfile
            · exact hdied 7
            · simp only [next, hgo 6, hgo 5, hgo 4, hgo 3]
              cases answer .rename
              · simp only [next, hgo 2, hgo 1]
                cases answer .retestCache
                · exact hdied 1
                · exact hos 0
              · exact hos 2
        · simp only [next, hgo 9]
          cases answer .retrieve
          · exact hdied 9
          · exact hos 8

end Initialize
