import ProcProcessTable.DecOsfPages
import ProcProcessTable.IoctlPorts

/-!
# Descriptors that stay open

The ports for IRIX, for DEC OSF, and for Solaris without `psinfo` files ask about a process
by `ioctl`s on a descriptor that they open for it.  Each of their loops has exits between
the `open` and the `close`, one on IRIX and Solaris and four on DEC OSF.

`descriptors_kept_iff` says in which scans as many descriptors are open in the end as at
the start.
-/

namespace DecOsf

open CText Xs ProcessTable

/-- The process of an entry is opened, and something that is asked about it fails. -/
def System.leaksEntry (sys : System) (procnum : Nat) (entry : TblProcinfo) : Bool :=
  let a := sys.answers procnum entry.piPid
  decide (entry.piStatus ≠ sys.PI_EMPTY) && a.opens &&
    (a.psinfo.isNone || a.cred.isNone || !a.malloc || a.groups.isNone)

theorem publish_descriptors (sys : System) (s : Locals) (procnum : Nat) (entry : TblProcinfo) :
    (publish sys s procnum entry).1.descriptors =
      s.descriptors + (sys.leaksEntry procnum entry).toNat := by
  unfold publish System.leaksEntry
  dsimp only
  by_cases hused : entry.piStatus = sys.PI_EMPTY
  · rw [if_pos hused, decide_eq_false (not_not_intro hused)]
    rfl
  · rw [if_neg hused, decide_eq_true hused]
    cases (sys.answers procnum entry.piPid).opens with
    | false => rfl
    | true =>
        rw [if_neg Bool.noConfusion]
        cases (sys.answers procnum entry.piPid).psinfo with
        | none => rfl
        | some ps =>
            cases (sys.answers procnum entry.piPid).cred with
            | none => rfl
            | some cred =>
                cases (sys.answers procnum entry.piPid).malloc with
                | false => rfl
                | true =>
                    cases (sys.answers procnum entry.piPid).groups with
                    | none => rfl
                    | some psgroups =>
                        dsimp only
                        split
                        · rfl
                        · rfl

section

variable (sys : System) (residue : Locals)

/-- The turn of a slot looks at an entry that leaks. -/
def System.leaks (procnum : Nat) : Bool :=
  !(procnum % PROCCNT == 0 && (sys.page (procnum / PROCCNT)).isNone) &&
    sys.leaksEntry procnum (sys.entryAt residue.pstbl procnum)

/-- **One turn** leaves a descriptor open for an entry that leaks, and no other. -/
theorem visit_descriptors {procnum : Nat} {s : Locals} (h : Before sys residue.pstbl procnum s) :
    (visit sys s procnum).1.descriptors = s.descriptors + (sys.leaks residue procnum).toNat := by
  obtain ⟨s', -, hsame, hout⟩ := visit_cases sys residue.pstbl h
  unfold System.leaks
  obtain ⟨⟨hfirst, hpage⟩, hvisit⟩ | ⟨hnot, hvisit⟩ := hout
  · rw [hvisit, hfirst, hpage, hsame]
    rfl
  · have hlooked : (procnum % PROCCNT == 0 && (sys.page (procnum / PROCCNT)).isNone) = false := by
      rw [Bool.and_eq_false_iff, beq_eq_false_iff_ne]
      by_cases hfirst : procnum % PROCCNT = 0
      · right
        cases hpage : sys.page (procnum / PROCCNT) with
        | none => exact absurd ⟨hfirst, hpage⟩ hnot
        | some page => rfl
      · exact Or.inl hfirst
    rw [hvisit, publish_descriptors, hsame, hlooked]
    rfl

/-- What stands before a number in a range. -/
theorem range_split {n k : Nat} {pre post : List Nat} (h : List.range n = pre ++ k :: post) :
    pre = List.range k := by
  rw [List.range_eq_range', List.range'_eq_append_iff] at h
  obtain ⟨m, -, hpre, hrest⟩ := h
  obtain ⟨hplace, -, -⟩ := List.range'_eq_cons_iff.mp hrest.symm
  rw [hpre, List.range_eq_range', ← hplace]
  congr 1
  omega

/-- The descriptors that are open when it returns. -/
def held (maxproc : Option Nat) : Nat :=
  match maxproc with
  | none => residue.descriptors
  | some maxproc =>
      (CarriedState.after (visit sys) residue.start (List.range maxproc)).descriptors

/-- **A scan loses as many descriptors** as turns look at entries that leak. -/
theorem held_eq (maxproc : Option Nat) :
    held sys residue maxproc =
      residue.descriptors + (List.range (maxproc.getD 0)).countP (sys.leaks residue) := by
  cases maxproc with
  | none => rfl
  | some maxproc =>
      refine @CarriedState.count_after _ _ _ (visit sys) Locals.descriptors (sys.leaks residue)
        residue.start (List.range maxproc) ?_
      intro pre procnum post hsplit
      rw [range_split hsplit]
      exact visit_descriptors sys residue (before_after sys residue.pstbl residue.start rfl rfl procnum)

end

end DecOsf

namespace ProcessTable

open CText Xs

/-- The number of descriptors that are open when a scan returns. -/
def atReturn (ttydevs : Option HV) (scan : Scan) (held : Nat) : Option Nat :=
  if scan.ends ttydevs = none then some held else none

theorem atReturn_eq_some {ttydevs : Option HV} {scan : Scan} {held n : Nat}
    (h : atReturn ttydevs scan held = some n) : n = held := by
  unfold atReturn at h
  split at h
  · exact (Option.some.inj h).symm
  · cases h

/-- Nothing is lost when nothing leaks. -/
theorem kept_of_count {α : Type} {leaks : α → Bool} {es : List α} {before n : Nat}
    (h : n = before + es.countP leaks) : n = before ↔ ∀ e ∈ es, leaks e = false := by
  rw [h, Nat.add_eq_left, List.countP_eq_zero]
  simp only [Bool.not_eq_true]

/-- **Which scans keep the number of descriptors.**  On IRIX and Solaris, when they return, those
in which no entry is opened whose `ioctl` fails; on DEC OSF, those in which no turn looks at an
entry whose process is opened and about which one of the three `ioctl`s, or `malloc`, fails. -/
theorem descriptors_kept_iff (ttydevs : Option HV) (irix : Irix.System)
    (pinfo : Option (List Irix.Entry)) (r₁ : IoctlScan.Locals Mem) (solaris : SolarisIoctl.System)
    (proc : Option (List SolarisIoctl.Entry)) (r₂ : IoctlScan.Locals SolarisIoctl.Vars)
    (osf : DecOsf.System) (maxproc : Option Nat) (r₃ : DecOsf.Locals) (n₁ n₂ n₃ : Nat)
    (h₁ : atReturn ttydevs (Irix.osGetTable irix pinfo r₁)
      ((Irix.port irix).held (Irix.listing irix pinfo) r₁) = some n₁)
    (h₂ : atReturn ttydevs (SolarisIoctl.osGetTable solaris proc r₂)
      ((SolarisIoctl.port solaris).held proc r₂) = some n₂)
    (h₃ : atReturn ttydevs (DecOsf.osGetTable osf maxproc r₃) (DecOsf.held osf r₃ maxproc) =
      some n₃) :
    (n₁ = r₁.descriptors ↔
        ∀ e ∈ (Irix.listing irix pinfo).getD [], (Irix.port irix).leaks e = false) ∧
      (n₂ = r₂.descriptors ↔ ∀ e ∈ proc.getD [], (SolarisIoctl.port solaris).leaks e = false) ∧
      (n₃ = r₃.descriptors ↔
        ∀ procnum ∈ List.range (maxproc.getD 0), osf.leaks r₃ procnum = false) := by
  refine ⟨kept_of_count ?_, kept_of_count ?_, kept_of_count ?_⟩
  · rw [atReturn_eq_some h₁, IoctlScan.held_eq]
  · rw [atReturn_eq_some h₂, IoctlScan.held_eq]
  · rw [atReturn_eq_some h₃, DecOsf.held_eq]

/-- A machine for each port. -/
def sampleIrix : Irix.System :=
  ⟨true, 4096, fun _ _ _ => "0.00".toList, fun _ => " 0.01".toList, fun _ => 0⟩

def sampleSolaris : SolarisIoctl.System := ⟨fun _ => " 0.00%".toList, fun _ => 0⟩

/-- On this one there is one process, and it may leave before the first `ioctl`. -/
def sampleOsf (psinfo : Option DecOsf.Prpsinfo) : DecOsf.System where
  PI_EMPTY := 0
  getpagesize := 8192
  fetch := fun _ => some [⟨1, 7⟩]
  answers := fun _ _ =>
    { opens := true, psinfo := psinfo, cred := some ⟨0, 0, 0, 0, 0⟩, malloc := true,
      groups := some fun _ => 0, now := 0 }
  groupRef := fun _ => .av []
  printPct := fun _ => "0.00".toList
  upper := fun _ => 0

/-- The process in each of the three directories. -/
def irixShell : Irix.Prpsinfo :=
  ⟨'S', .SSLEEP, 0, 0, 7, 1, 7, 7, 7, 0, 20, 0, 0, 0, 0, 0, 1, 1, 0, ['s', 'h', nul], 0,
    ['s', 'h', nul], ['T', 'S', nul]⟩

def solarisShell : SolarisIoctl.Prpsinfo :=
  ⟨.SSLEEP, 0, 0, 0, 0, 0, 0, 7, 1, 7, 7, 58, 20, 0, 0, 0, 0, 4096, 4096, 0, ['s', 'h', nul], 0,
    ['s', 'h', nul]⟩

def osfShell : DecOsf.Prpsinfo :=
  ⟨.SRUN, 0, 0, 7, 1, 7, 7, 44, -1, 0, 0, 1, 1, 0, ['s', 'h', nul], ['s', 'h', nul]⟩

/-- The scans of the three ports, from three open descriptors, for what the first `ioctl` fills
in. -/
def irixReturn (psinfo : Option Irix.Prpsinfo) : Option Nat :=
  atReturn none (Irix.osGetTable sampleIrix (some [⟨"7".toList, true, psinfo, 1⟩]) ⟨[nul], 3⟩)
    ((Irix.port sampleIrix).held (Irix.listing sampleIrix (some [⟨"7".toList, true, psinfo, 1⟩]))
      ⟨[nul], 3⟩)

def solarisReturn (psinfo : Option SolarisIoctl.Prpsinfo) : Option Nat :=
  atReturn none
    (SolarisIoctl.osGetTable sampleSolaris (some [⟨"7".toList, some 3, true, psinfo⟩])
      ⟨⟨[nul], 0⟩, 3⟩)
    ((SolarisIoctl.port sampleSolaris).held (some [⟨"7".toList, some 3, true, psinfo⟩])
      ⟨⟨[nul], 0⟩, 3⟩)

def osfReturn (psinfo : Option DecOsf.Prpsinfo) : Option Nat :=
  atReturn none (DecOsf.osGetTable (sampleOsf psinfo) (some 1) ⟨0, fun _ => ⟨0, 0⟩, [nul], 3⟩)
    (DecOsf.held (sampleOsf psinfo) ⟨0, fun _ => ⟨0, 0⟩, [nul], 3⟩ (some 1))

theorem descriptors_kept_shell :
    irixReturn (some irixShell) = some 3 ∧ solarisReturn (some solarisShell) = some 3 ∧
      osfReturn (some osfShell) = some 3 ∧
      ∀ procnum ∈ List.range 1,
        (sampleOsf (some osfShell)).leaks ⟨0, fun _ => ⟨0, 0⟩, [nul], 3⟩ procnum = false := by
  have hirix : irixReturn (some irixShell) = some 3 := by decide
  have hsolaris : solarisReturn (some solarisShell) = some 3 := by decide
  have hosf : osfReturn (some osfShell) = some 3 := by decide
  exact ⟨hirix, hsolaris, hosf, (descriptors_kept_iff none sampleIrix _ _ sampleSolaris _ _
    (sampleOsf (some osfShell)) (some 1) _ 3 3 3 hirix hsolaris hosf).2.2.mp rfl⟩

/-- **A process that leaves before the ioctl costs a descriptor**, on each of the three. -/
theorem descriptor_lost :
    irixReturn none = some 4 ∧ solarisReturn none = some 4 ∧ osfReturn none = some 4 := by
  exact ⟨by decide, by decide, by decide⟩

end ProcessTable
