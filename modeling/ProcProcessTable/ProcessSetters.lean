import ProcProcessTable.CarriedState
import Mathlib.Algebra.Ring.Int.Defs
import Mathlib.Data.Rat.Defs
import Mathlib.Logic.Function.Basic

/-!
# The setters of a process object

`priority` and `pgrp` of `Proc::ProcessTable::Process` ask the system for a new value,
read back what it reports, and store the value that was asked for if that is it.  The system
need not do as it is asked: a priority has bounds, process group 0 stands for the process
itself, and a number that is no `int` is not what is asked for in the first place.

`setters_in_step_iff` says in which runs of calls the object agrees with the system
throughout.
-/

namespace ProcessSetters

open CarriedState (after)

/-- What has a setter. -/
inductive Field
  | priority | pgrp
  deriving DecidableEq

/-- What the setters use of an object: the pid, and the number under each name, if it is
defined. -/
structure Process where
  pid : Int32
  fields : Field → Option ℚ

/-- What `getpriority(0, pid)` and `getpgrp(pid)` report. -/
abbrev Kernel := Int32 → Field → Int32

/-- How the system answers when it is asked for a value: it sets that, or another one, or
nothing. -/
inductive Response
  | exact
  | clamped (value : Int32)
  | failed

/-- The value behind the answer. -/
def Response.value (r : Response) (old asked : Int32) : Int32 :=
  match r with
  | .exact => asked
  | .clamped value => value
  | .failed => old

/-- `setpriority(0, pid, n)` or `setpgrp(pid, n)`, as it is answered. -/
def Kernel.set (k : Kernel) (field : Field) (pid asked : Int32) (r : Response) : Kernel :=
  Function.update k pid (Function.update (k pid) field (r.value (k pid field) asked))

/-- The `int` that Perl passes for a number: its integral part, which is brought into the range of
an `IV` or a `UV` and loses its upper half. -/
def int (n : ℚ) : Int32 :=
  let t := n.num.tdiv n.den
  if t < -2 ^ 63 then 0
  else if 2 ^ 64 ≤ t then -1
  else Int32.ofInt t

/-- `$self->{field} = n`. -/
def Process.store (self : Process) (field : Field) (n : ℚ) : Process :=
  { self with fields := Function.update self.fields field (some n) }

/-- A setter: the object, what the system reports, and the value that is returned. -/
def set (field : Field) (self : Process) (k : Kernel) (r : Response) (value : Option ℚ) :
    Process × Kernel × Option ℚ :=
  match value with
  | none => (self, k, self.fields field)
  | some n =>
      let k := k.set field self.pid (int n) r
      -- the call itself is not asked whether it has succeeded
      let self := if ((k self.pid field).toInt : ℚ) = n then self.store field n else self
      (self, k, self.fields field)

def priority (self : Process) (k : Kernel) (r : Response) (priority : Option ℚ) :
    Process × Kernel × Option ℚ :=
  set .priority self k r priority

def pgrp (self : Process) (k : Kernel) (r : Response) (pgrp : Option ℚ) :
    Process × Kernel × Option ℚ :=
  set .pgrp self k r pgrp

/-! ### Runs of calls -/

/-- An object and the system. -/
structure State where
  self : Process
  kernel : Kernel

/-- What the system reports for the object. -/
def State.reported (s : State) (field : Field) : Int32 := s.kernel s.self.pid field

/-- A call of a setter, with the answer of the system. -/
structure Call where
  field : Field
  value : Option ℚ
  response : Response

/-- One call, and what it returns. -/
def step (s : State) (c : Call) : State × Option ℚ :=
  let (self, kernel, result) :=
    match c.field with
    | .priority => priority s.self s.kernel c.response c.value
    | .pgrp => pgrp s.self s.kernel c.response c.value
  (⟨self, kernel⟩, result)

/-- The object has the values that the system reports. -/
def State.InStep (s : State) : Prop :=
  ∀ field, s.self.fields field = some ((s.reported field).toInt : ℚ)

/-- The call leaves the object in step, and returns what the system reports. -/
structure Kept (s : State) (c : Call) : Prop where
  inStep : (step s c).1.InStep
  returned : (step s c).2 = some (((step s c).1.reported c.field).toInt : ℚ)

/-- The system sets the number that was asked for, or leaves the old value as it is. -/
def Call.Followed (c : Call) (old : Int32) : Prop :=
  ∀ n, c.value = some n →
    ((c.response.value old (int n)).toInt : ℚ) = n ∨ c.response.value old (int n) = old

theorem step_eq (s : State) (c : Call) :
    step s c = (⟨(set c.field s.self s.kernel c.response c.value).1,
      (set c.field s.self s.kernel c.response c.value).2.1⟩,
      (set c.field s.self s.kernel c.response c.value).2.2) := by
  unfold step
  cases c.field with
  | priority => rfl
  | pgrp => rfl

/-- What a call returns is what the object has. -/
theorem step_returns (s : State) (c : Call) : (step s c).2 = (step s c).1.self.fields c.field := by
  rw [step_eq]
  unfold set
  cases c.value with
  | none => rfl
  | some n => rfl

/-- The value that the system reports behind a call with a number. -/
def Call.answer (c : Call) (old : Int32) (n : ℚ) : Int32 := c.response.value old (int n)

section

variable {s : State} {c : Call}

theorem step_of_none (h : c.value = none) : (step s c).1 = s := by
  rw [step_eq, h]
  rfl

variable {n : ℚ}

theorem reported_step (h : c.value = some n) (field : Field) :
    (step s c).1.reported field =
      if field = c.field then c.answer (s.reported c.field) n else s.reported field := by
  have hpid : (step s c).1.self.pid = s.self.pid := by
    rw [step_eq, h]
    unfold set
    dsimp only
    split
    · rfl
    · rfl
  have hkernel : (step s c).1.kernel = s.kernel.set c.field s.self.pid (int n) c.response := by
    rw [step_eq, h]
    rfl
  rw [State.reported, hpid, hkernel, Kernel.set, Function.update_self]
  split
  · next heq =>
      rw [heq, Function.update_self]
      rfl
  · next hne => exact Function.update_of_ne hne _ _

theorem fields_step (h : c.value = some n) (field : Field) :
    (step s c).1.self.fields field =
      if field = c.field ∧ ((c.answer (s.reported c.field) n).toInt : ℚ) = n then some n
      else s.self.fields field := by
  have hread : s.kernel.set c.field s.self.pid (int n) c.response s.self.pid c.field =
      c.answer (s.reported c.field) n := by
    rw [Kernel.set, Function.update_self, Function.update_self]
    rfl
  have hself : (step s c).1.self =
      if ((c.answer (s.reported c.field) n).toInt : ℚ) = n then s.self.store c.field n
      else s.self := by
    rw [step_eq, h]
    unfold set
    dsimp only
    rw [hread]
  rw [hself]
  by_cases hsame : ((c.answer (s.reported c.field) n).toInt : ℚ) = n
  · rw [if_pos hsame]
    by_cases hfield : field = c.field
    · rw [if_pos ⟨hfield, hsame⟩, hfield]
      exact Function.update_self _ _ _
    · rw [if_neg fun hand => hfield hand.1]
      exact Function.update_of_ne hfield _ _
  · rw [if_neg hsame, if_neg fun hand => hsame hand.2]

/-- A call returns the right value if it leaves the object in step. -/
theorem kept_iff_inStep : Kept s c ↔ (step s c).1.InStep := by
  refine ⟨Kept.inStep, fun h => ⟨h, ?_⟩⟩
  rw [step_returns]
  exact h c.field

/-- With a number it takes only what the system answers to that. -/
theorem followed_iff (hvalue : c.value = some n) (old : Int32) :
    c.Followed old ↔ ((c.answer old n).toInt : ℚ) = n ∨ c.answer old n = old := by
  constructor
  · exact fun hall => hall n hvalue
  · intro hone n' hn'
    obtain rfl := Option.some.inj (hvalue.symm.trans hn')
    exact hone

/-- The number is stored, and is what is reported. -/
theorem inStep_of_stored (h : s.InStep) (hvalue : c.value = some n)
    (hnew : ((c.answer (s.reported c.field) n).toInt : ℚ) = n) : (step s c).1.InStep := by
  intro field
  rw [fields_step hvalue, reported_step hvalue]
  by_cases hfield : field = c.field
  · rw [if_pos ⟨hfield, hnew⟩, if_pos hfield, hnew]
  · rw [if_neg fun hand => hfield hand.1, if_neg hfield]
    exact h field

/-- The old number stays, and it takes that it is reported still. -/
theorem inStep_iff_of_refused (h : s.InStep) (hvalue : c.value = some n)
    (hnew : ((c.answer (s.reported c.field) n).toInt : ℚ) ≠ n) :
    (step s c).1.InStep ↔ c.answer (s.reported c.field) n = s.reported c.field := by
  have hstored : ∀ field, (step s c).1.self.fields field = s.self.fields field := by
    intro field
    rw [fields_step hvalue, if_neg fun hand => hnew hand.2]
  constructor
  · intro hinStep
    have hsame := hinStep c.field
    rw [hstored, h c.field, reported_step hvalue, if_pos rfl, Option.some.injEq, Rat.intCast_inj,
      Int32.toInt_inj] at hsame
    exact hsame.symm
  · intro hold field
    rw [hstored, reported_step hvalue]
    split
    · next hfield =>
        rw [hold, hfield]
        exact h c.field
    · exact h field

/-- **One call from an object in step**: it is kept there exactly when the system follows. -/
theorem kept_iff (h : s.InStep) : Kept s c ↔ c.Followed (s.reported c.field) := by
  rw [kept_iff_inStep]
  cases hvalue : c.value with
  | none =>
      rw [step_of_none hvalue]
      refine iff_of_true h fun n hn => ?_
      rw [hvalue] at hn
      cases hn
  | some n =>
      rw [followed_iff hvalue]
      by_cases hnew : ((c.answer (s.reported c.field) n).toInt : ℚ) = n
      · exact iff_of_true (inStep_of_stored h hvalue hnew) (Or.inl hnew)
      · rw [inStep_iff_of_refused h hvalue hnew, or_iff_right hnew]

end

/-- **Which runs of calls keep an object in step** with the system, and return what it reports:
those in which the system sets each number that it is asked for, or leaves the old value. -/
theorem setters_in_step_iff (s : State) (h : s.InStep) (calls : List Call) :
    (∀ pre c post, calls = pre ++ c :: post → Kept (after step s pre) c) ↔
      ∀ pre c post, calls = pre ++ c :: post →
        c.Followed ((after step s pre).reported c.field) :=
  @CarriedState.good_iff _ _ _ step State.InStep Kept (fun s c => c.Followed (s.reported c.field))
    (fun _ _ hs => kept_iff hs) (fun _ _ hkept => hkept.inStep) s h calls

/-! ### Which answers are followed -/

/-- The numbers of an `int` are passed on as they are. -/
theorem int_toInt (x : Int32) : int (x.toInt : ℚ) = x := by
  have hlo := x.le_toInt
  have hhi := x.toInt_lt
  unfold int
  rw [Rat.num_intCast, Rat.den_intCast, Int.natCast_one, Int.tdiv_one]
  dsimp only
  rw [if_neg (by omega), if_neg (by omega), Int32.ofInt_toInt]

theorem followed_of_exact {c : Call} (hanswer : c.response = .exact) {x : Int32}
    (hvalue : c.value = some (x.toInt : ℚ)) (old : Int32) : c.Followed old := by
  intro n hn
  obtain rfl := Option.some.inj (hvalue.symm.trans hn)
  rw [hanswer, int_toInt]
  exact Or.inl rfl

theorem followed_of_failed {c : Call} (hanswer : c.response = .failed) (old : Int32) :
    c.Followed old := by
  intro n _
  rw [hanswer]
  exact Or.inr rfl

/-- A process that leads its group, with the priority 0. -/
def leader : State where
  self := ⟨42, fun field => match field with | .priority => some 0 | .pgrp => some 42⟩
  kernel _ field := match field with | .priority => 0 | .pgrp => 42

theorem leader_inStep : leader.InStep := by
  intro field
  cases field with
  | priority => rfl
  | pgrp => rfl

/-- Its priority is set to 10. -/
def renice : Call := ⟨.priority, some 10, .exact⟩

/-- It is refused another group. -/
def regroup : Call := ⟨.pgrp, some 7, .failed⟩

theorem setters_in_step_leader : Kept leader renice ∧ Kept (after step leader [renice]) regroup := by
  have hfollowed : ∀ pre c post, [renice, regroup] = pre ++ c :: post →
      c.Followed ((after step leader pre).reported c.field) := by
    intro pre c post hsplit
    have hmem : c ∈ [renice, regroup] := by
      rw [hsplit]
      exact List.mem_append_right _ List.mem_cons_self
    rcases List.mem_cons.mp hmem with rfl | hrest
    · exact @followed_of_exact renice rfl 10 rfl _
    · obtain rfl := List.mem_singleton.mp hrest
      exact followed_of_failed rfl _
  have hkept := (setters_in_step_iff leader leader_inStep [renice, regroup]).mpr hfollowed
  exact ⟨hkept [] renice [regroup] rfl, hkept [renice] regroup [] rfl⟩

/-- **A clamped priority is lost**: 25 is asked for and 19 is set; 0 stays in the object, and is
returned. -/
theorem priority_clamped :
    leader.InStep ∧ (step leader ⟨.priority, some 25, .clamped 19⟩).2 = some 0 ∧
      (step leader ⟨.priority, some 25, .clamped 19⟩).1.reported .priority = 19 ∧
      ¬ Kept leader ⟨.priority, some 25, .clamped 19⟩ := by
  refine ⟨leader_inStep, by decide, by decide, fun hkept => ?_⟩
  have hstored := hkept.inStep .priority
  exact absurd hstored (by decide)

end ProcessSetters
