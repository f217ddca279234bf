import ProcProcessTable.CallRows
import ProcProcessTable.ProcFsScan
import ProcProcessTable.ScanLoop

/-!
# The scan of /proc by ioctl

The ports for IRIX and for Solaris without `psinfo` files open the entries of a
directory and ask for the `prpsinfo` of each by an `ioctl`.  They close the descriptor
behind the `ioctl`, and go on to the next entry without doing so where it fails.

A port is what the two loops differ in (`Port`).  The descriptors that are open are
counted in the state of the loop; `held_eq` says how many of them a scan loses, and
`returns_iff` which scans come to an end.
-/

namespace IoctlScan

open CText Xs ProcessTable

/-- What a port has of its own, over its variables, its directory entries and its
`struct prpsinfo`. -/
structure Port (σ ε ι : Type) where
  dName : ε → Mem
  /-- what is done before the entry is opened -/
  before : σ → ε → σ
  opens : ε → Bool
  /-- what the `ioctl` fills in, `none` where it fails -/
  psinfo : ε → Option ι
  /-- what is done behind the `close` -/
  publish : σ → ε → ι → σ × Except Fault (Option BlessCall)

/-- The variables of `OS_get_table` that outlive a turn of the loop, and the number of descriptors
that are open. -/
structure Locals (σ : Type) where
  vars : σ
  descriptors : Nat

/-- A descriptor more. -/
def Locals.opened {σ : Type} (s : Locals σ) : Locals σ := { s with descriptors := s.descriptors + 1 }

/-- And one less. -/
def Locals.closed {σ : Type} (s : Locals σ) : Locals σ := { s with descriptors := s.descriptors - 1 }

section

variable {σ ε ι : Type} (port : Port σ ε ι)

/-- One turn of the loop. -/
def Port.visit (s : Locals σ) (e : ε) : Locals σ × Except Fault (Option BlessCall) :=
  if ProcFs.noToken (port.dName e) = false then (s, .ok none)
  else
    let s := { s with vars := port.before s.vars e }
    if port.opens e = false then (s, .ok none)
    else
      let s := s.opened
      match port.psinfo e with
      | none => (s, .ok none)
      | some ps =>
          let s := s.closed
          ({ s with vars := (port.publish s.vars e ps).1 }, (port.publish s.vars e ps).2)

/-- `OS_get_table`, with the entries of the directory, if it can be opened. -/
def Port.osGetTable (opendir : Option (List ε)) (residue : Locals σ) : Scan :=
  match opendir with
  | none => ⟨[], none⟩
  | some entries => loopScan port.visit residue.opened entries

/-- The descriptors that are open behind its `closedir`. -/
def Port.held (opendir : Option (List ε)) (residue : Locals σ) : Nat :=
  match opendir with
  | none => residue.descriptors
  | some entries => (CarriedState.after port.visit residue.opened entries).closed.descriptors

/-! ### What a turn leaves open -/

/-- The entry is opened, and not closed. -/
def Port.leaks (e : ε) : Bool :=
  ProcFs.noToken (port.dName e) && port.opens e && (port.psinfo e).isNone

/-- **One turn** leaves a descriptor open for an entry that leaks, and no other. -/
theorem visit_descriptors (s : Locals σ) (e : ε) :
    (port.visit s e).1.descriptors = s.descriptors + (port.leaks e).toNat := by
  unfold Port.visit Port.leaks
  cases ProcFs.noToken (port.dName e) with
  | false => rfl
  | true =>
      rw [if_neg Bool.noConfusion]
      cases port.opens e with
      | false => rfl
      | true =>
          rw [if_neg Bool.noConfusion]
          cases port.psinfo e with
          | none => rfl
          | some ps => rfl

/-- **A scan loses as many descriptors** as entries leak. -/
theorem held_eq (opendir : Option (List ε)) (residue : Locals σ) :
    port.held opendir residue =
      residue.descriptors + (opendir.getD []).countP port.leaks := by
  cases opendir with
  | none => rfl
  | some entries =>
      have hcount := @CarriedState.count_after _ _ _ port.visit Locals.descriptors port.leaks
        residue.opened entries fun pre e _ _ => visit_descriptors port _ e
      have hstart : residue.opened.descriptors = residue.descriptors + 1 := rfl
      show (CarriedState.after port.visit residue.opened entries).descriptors - 1 = _
      rw [hcount, hstart, Option.getD_some]
      omega

/-! ### Whether it returns -/

/-- What a port publishes overflows an array of its own. -/
def Port.Overflows (overflows : ε → ι → Prop) (e : ε) : Prop :=
  ProcFs.noToken (port.dName e) = true ∧ port.opens e = true ∧
    ∃ ps, port.psinfo e = some ps ∧ overflows e ps

/-- A turn that is ended by an overflow, or gets to a call that fits its rows. -/
theorem guarded_ends_iff {long : Prop} [Decidable long] (s : σ) {call : BlessCall}
    {rows : List CallRow} (hrows : call.Rows rows) (ttydevs : Option HV) :
    (turn ttydevs (if long then (s, .error .overflow)
      else (s, .ok (some call)) : σ × Except Fault (Option BlessCall)).2).2 = none ↔ ¬ long := by
  by_cases hlong : long
  · rw [if_pos hlong]
    exact iff_of_false (Option.some_ne_none _) (not_not_intro hlong)
  · rw [if_neg hlong]
    exact iff_of_true (congrArg Prod.snd (turn_call (hrows.made_object ttydevs))) hlong

/-- **It returns** exactly when nothing overflows. -/
theorem returns_iff {overflows : ε → ι → Prop} {ttydevs : Option HV}
    (hturn : ∀ s e ps, (turn ttydevs (port.publish s e ps).2).2 = none ↔ ¬ overflows e ps)
    (opendir : Option (List ε)) (residue : Locals σ) :
    (port.osGetTable opendir residue).ends ttydevs = none ↔
      ∀ e ∈ opendir.getD [], ¬ port.Overflows overflows e := by
  cases opendir with
  | none => exact iff_of_true rfl fun e he => absurd he List.not_mem_nil
  | some entries =>
      refine (@ends_none_iff _ _ port.visit (fun _ _ => True) (port.Overflows overflows) ttydevs
        residue.opened trivial ?_ entries).1
      intro _ s e _
      refine ⟨?_, fun _ => trivial⟩
      unfold Port.visit Port.Overflows
      cases ProcFs.noToken (port.dName e) with
      | false => exact iff_of_true rfl fun h => Bool.noConfusion h.1
      | true =>
          rw [if_neg Bool.noConfusion]
          cases port.opens e with
          | false => exact iff_of_true rfl fun h => Bool.noConfusion h.2.1
          | true =>
              rw [if_neg Bool.noConfusion]
              cases port.psinfo e with
              | none =>
                  refine iff_of_true rfl fun h => ?_
                  obtain ⟨ps, hsome, -⟩ := h.2.2
                  cases hsome
              | some ps =>
                  refine (hturn _ e ps).trans (not_congr ?_)
                  constructor
                  · exact fun hlong => ⟨rfl, rfl, ps, rfl, hlong⟩
                  · intro ⟨_, _, ps', hsome, hlong⟩
                    obtain rfl := Option.some.inj hsome
                    exact hlong

end

end IoctlScan
