import ProcProcessTable.DescribedProcesses
import ProcProcessTable.LinuxRequests
import ProcProcessTable.ObstackRefinement

/-!
# OS_get_table on os/obstack.c

The whole of `OS_get_table`: `obstack_init`, the requests of the loop on an
obstack whose chunks come from `malloc`, and the release of everything at its
end.  The table that is published is the table of the rows, whatever the
allocator does and whatever memory held before; and the call ends as the rows do, with
the fault that they end with, if any.

A call that returns behind the loop has given back every chunk.  A call that
cannot open `/proc` returns before that, and a call that `bless_into_proc`
leaves with an exception never comes to it: these two keep their chunks.
-/

namespace Linux

open CText HeapBlocks MemPool ObstackC Xs

/-- Memory and the extension's variables behind a call. -/
structure Returned (κ : Type) where
  heap : Heap κ
  xs : Interp
  fault : Option Fault

variable {κ : Type}

/-- `OS_get_table`, with its pool from `malloc`; `none` when `/proc` cannot be
opened. -/
def osGetTableOn (abi : Abi) (sys : Allocator κ abi.bits) (codec : Codec κ (Procstat Nat))
    (port : Port) (proc : Option (List DirEntry)) (xs : Interp) (heap : Heap κ) :
    Except HeapBlocks.Exit (Returned κ) := do
  let memPool ← init abi sys heap
  let ((xs, fault), m) ←
    Program.exec abi sys codec (OnPool.osGetTable port proc xs) ⟨memPool, []⟩
  match proc, fault with
  | some _, none => do
      let memPool ← free abi sys m.state 0
      .ok ⟨memPool.heap, xs, none⟩
  | _, _ => .ok ⟨m.state.heap, xs, fault⟩

theorem procstat_fits : (pieces 500 (Procstat.zero : Procstat Nat)).size < 2 ^ lp64.bits := by
  show 501 < 2 ^ 64
  omega

/-- The shell as its own user sees it. -/
def ownShellView : ProcessView := { shellView with cwd := some ['/', 'h', 'o', 'm', 'e'] }

/-- What the system answers about it then. -/
def ownShellWorld : Moment → Kernel
  | .cwd => { Kernel.constant [] with realpath := fun _ => some ['/', 'h', 'o', 'm', 'e'] }
  | moment => shellWorld moment

def ownShellEntry : DirEntry := { shellEntry with world := ownShellWorld }

theorem ownShellEntry_shows : ownShellEntry.Shows ownShellView :=
  { shellEntry_shows with cwd := rfl }

theorem ownShellView_fits : ownShellView.Fits samplePort :=
  { shellView_fits with }

/-- One path is resolved, and it is short. -/
theorem ownShellEntry_paths : OnPool.PathsFit (2 ^ lp64.bits) ownShellEntry := by
  intro moment path link hlink
  cases moment with
  | cwd =>
      have hshort : ['/', 'h', 'o', 'm', 'e'].length < 2 ^ 64 := by decide
      rwa [Option.some.inj hlink] at hshort
  | _ => cases hlink

end Linux
