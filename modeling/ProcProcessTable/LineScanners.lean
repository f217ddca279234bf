import ProcProcessTable.OsInitialize
import ProcProcessTable.LinuxStatusScan

/-!
# The line scanners end

Three loops of the Linux port go through a text of `/proc` line by line: the one
for `btime` and the one for `MemTotal:` in `init_static_vars`, and the one for
`Uid:`, `Gid:` and `TracerPid:` in `get_proc_status`.  The increment that takes
them over the newline they have just found is guarded by a comparison with the
start of the text, so a newline that is the first byte is found again and again.

`line_scanners_visit_iff` says of each loop when it visits the text line by
line.
-/

namespace Linux

open CText LineLoop

/-- A scanner for a number visits a text unless it begins with a newline. -/
theorem numberLine_visits_iff {word : List Char} {format : List Scanf.Directive}
    {store : Int → Globals → Globals} {c : Char} {rest : List Char} (hword : word = c :: rest)
    (hc : c ≠ '\n') (text : Mem) (g : Globals) :
    Visits (numberLine word format store) text g ↔ (cstr text).head? ≠ some '\n' := by
  have hstay : (cstr text).head? = some '\n' → numberLine word format store text g = (g, false) :=
    numberLine_newline hword hc g
  have hkeep : (cstr text).head? = some '\n' → (numberLine word format store text g).1 = g := by
    intro hhead
    rw [hstay hhead]
  rw [visits_iff _ numberLine_readsString hkeep]
  refine or_iff_left_of_imp fun hstop hhead => ?_
  rw [hstay hhead] at hstop
  cases hstop

/-- The three fields the loop of `get_proc_status` waits for are enabled. -/
def StatusSeen (formatStr : Mem) : Prop :=
  isEnabled formatStr .euid = true ∧ isEnabled formatStr .egid = true ∧
    isEnabled formatStr .tracer = true

/-- At a line that begins with a newline the body only looks at the flags. -/
theorem statusBody_newline {text : Mem} (hhead : (cstr text).head? = some '\n') (formatStr : Mem)
    (prs : Scraped) :
    (statusBody text (formatStr, prs)).1 = (formatStr, prs) ∧
      ((statusBody text (formatStr, prs)).2 = true ↔ StatusSeen formatStr) := by
  have hword : ∀ {c : Char} (rest : List Char), c ≠ '\n' → startsWith text (c :: rest) = false :=
    fun rest hc => startsWith_of_head hhead hc rest
  have huid : startsWith text uidPrefix = false := hword _ (by decide)
  have hgid : startsWith text gidPrefix = false := hword _ (by decide)
  have htracer : startsWith text tracerPrefix = false := hword _ (by decide)
  unfold statusBody
  rw [huid, hgid, htracer]
  refine ⟨rfl, ?_⟩
  simp only [Bool.false_eq_true, if_false, Bool.and_eq_true, and_assoc, StatusSeen]

/-- The scanner of the status file visits a text unless it begins with a
newline; and one that does, when it has nothing to look for. -/
theorem statusBody_visits_iff (text formatStr : Mem) (prs : Scraped) :
    Visits statusBody text (formatStr, prs) ↔
      (cstr text).head? ≠ some '\n' ∨ StatusSeen formatStr := by
  rw [visits_iff _ statusBody_readsString fun hhead => (statusBody_newline hhead formatStr prs).1]
  by_cases hhead : (cstr text).head? = some '\n'
  · rw [(statusBody_newline hhead formatStr prs).2]
  · exact iff_of_true (Or.inl hhead) (Or.inl hhead)

/-- **When the line scanners end.**  Each of the three loops ends, and visits
the line starts of its text once and in order until it does, exactly when the
text does not begin with a newline, or, in `get_proc_status`, when the three
fields are enabled before the loop. -/
theorem line_scanners_visit_iff (text : Mem) :
    (∀ g, Visits btimeLine text g ↔ (cstr text).head? ≠ some '\n') ∧
    (∀ g, Visits memTotalLine text g ↔ (cstr text).head? ≠ some '\n') ∧
    ∀ formatStr prs, Visits statusBody text (formatStr, prs) ↔
      (cstr text).head? ≠ some '\n' ∨ StatusSeen formatStr := by
  refine ⟨?_, ?_, statusBody_visits_iff text⟩
  · exact numberLine_visits_iff (rfl : "btime".toList = 'b' :: _) (by decide) text
  · exact numberLine_visits_iff (rfl : "MemTotal:".toList = 'M' :: _) (by decide) text

/-- **A text that is never left**: a newline in front of a line that has what is
looked for. -/
theorem line_scanners_trapped :
    ¬ Visits btimeLine ("\nbtime 5\n".toList ++ [nul]) ⟨-1, 4096, -1, 100⟩ ∧
    ¬ Visits memTotalLine ("\nMemTotal: 5 kB\n".toList ++ [nul]) ⟨5, 4096, -1, 100⟩ ∧
    ¬ Visits statusBody ("\nUid: 0 0 0 0\n".toList ++ [nul])
      (formatOf fun _ => false, Scraped.zero) := by
  have hhead : ∀ rest : List Char, (cstr ('\n' :: rest)).head? = some '\n' := fun rest => rfl
  refine ⟨fun h => ?_, fun h => ?_, fun h => ?_⟩
  · exact (numberLine_visits_iff (rfl : "btime".toList = 'b' :: _) (by decide) _ _).mp h (hhead _)
  · exact (numberLine_visits_iff (rfl : "MemTotal:".toList = 'M' :: _) (by decide) _ _).mp h
      (hhead _)
  · rcases (statusBody_visits_iff _ _ _).mp h with hne | hseen
    · exact hne (hhead _)
    · exact absurd hseen.1 (by rw [isEnabled_formatOf]; exact Bool.false_ne_true)

end Linux
