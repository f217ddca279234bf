import ProcProcessTable.LinuxStatRecord

/-!
# What a stat text gives

`scanStat` has five exits, and a text that is not a stat record leaves by one
of the first four with part of the record written.  Here its outcome is said in
terms of the text alone: the number before the command name (`pidConversion`)
and the values behind it (`statConversions`) decide what is returned, whether
the flags are lowered, and each member.
-/

namespace Linux

open CText Scanf

/-- The process id a stat text starts with. -/
def pidConversion (text : Mem) : Option Int32 :=
  match (sscanf text pidFormat)[0]? with
  | some (Value.num v) => some (Int32.ofInt v)
  | _ => none

/-- The values scanned behind the command name of a stat text. -/
def statConversions (text : Mem) : List Value :=
  if (sscanf text pidFormat).length ≠ 1 then []
  else
    match strrchr text ')' with
    | none => []
    | some closeParen =>
        match strchr (text.set closeParen nul) '(' with
        | none => []
        | some _ => sscanf ((text.set closeParen nul).drop (closeParen + 1)) statFormat

/-- The first scan assigns a process id or nothing. -/
theorem length_pidScan (text : Mem) :
    (sscanf text pidFormat).length = 1 ↔ pidConversion text ≠ none := by
  unfold pidConversion sscanf
  rw [pidFormat_eq, scan]
  cases scanInteger ((cstr text).dropWhile isSpace) with
  | none => simp
  | some r =>
      obtain ⟨neg, n, rest⟩ := r
      simp [scan_space_lit]

/-- **The exits of the scan**, in terms of the two conversions. -/
theorem scanStat_exits (m : Mem) (prs : Scraped) :
    ((scanStat m prs).enabled = true ↔ (statConversions m).length = 33) ∧
    ((scanStat m prs).readOk = false ↔
      pidConversion m ≠ none ∧ (statConversions m).length ≠ 33) ∧
    ∃ p, (p = assign pidTargets (sscanf m pidFormat) prs ∨
        ∃ name length, p = copyComm (assign pidTargets (sscanf m pidFormat) prs) name length) ∧
      (scanStat m prs).prs = assign statTargets (statConversions m) p := by
  have hstop : ∀ p : Scraped, assign statTargets [] p = p := fun _ => rfl
  unfold scanStat statConversions
  rw [← length_pidScan]
  by_cases hone : (sscanf m pidFormat).length ≠ 1
  · rw [if_pos hone, if_pos hone]
    exact ⟨by simp, by simp [hone], _, Or.inl rfl, (hstop _).symm⟩
  · rw [if_neg hone, if_neg hone]
    have hpid : (sscanf m pidFormat).length = 1 := not_not.mp hone
    cases strrchr m ')' with
    | none => exact ⟨by simp, by simp [hpid], _, Or.inl rfl, (hstop _).symm⟩
    | some closeParen =>
        dsimp only
        cases strchr (m.set closeParen nul) '(' with
        | none => exact ⟨by simp, by simp [hpid], _, Or.inl rfl, (hstop _).symm⟩
        | some openParen =>
            dsimp only
            generalize sscanf ((m.set closeParen nul).drop (closeParen + 1)) statFormat = vals
            have hcopy : ∀ b b' text, ∃ p, (p = assign pidTargets (sscanf m pidFormat) prs ∨
                ∃ name length,
                  p = copyComm (assign pidTargets (sscanf m pidFormat) prs) name length) ∧
                (StatScan.mk text b b' (assign statTargets vals
                  (copyComm (assign pidTargets (sscanf m pidFormat) prs)
                    ((m.set closeParen nul).drop (openParen + 1))
                    ((closeParen : Int) - openParen - 1)))).prs = assign statTargets vals p :=
              fun _ _ _ => ⟨_, Or.inr ⟨_, _, rfl⟩, rfl⟩
            by_cases hall : vals.length ≠ 33
            · rw [if_pos hall]
              exact ⟨by simp [hall], by simp [hpid, hall], hcopy _ _ _⟩
            · rw [if_neg hall]
              exact ⟨by simpa using hall, by simp [not_not.mp hall], hcopy _ _ _⟩

section

variable {β : Type} (π : Scraped → β)

/-- What neither the process id nor the command name is part of is set by the
second scan. -/
theorem scanStat_member (hpid : ∀ (p : Scraped) v, π { p with pid := v } = π p)
    (hcomm : ∀ (p : Scraped) m, π { p with comm := m } = π p) (m : Mem) (prs : Scraped) :
    ∃ p, π p = π prs ∧ (scanStat m prs).prs = assign statTargets (statConversions m) p := by
  obtain ⟨_, _, p, hp, hprs⟩ := scanStat_exits m prs
  have hassign : π (assign pidTargets (sscanf m pidFormat) prs) = π prs := by
    refine assign_inv π ?_ _ prs
    intro t ht v s
    obtain rfl := List.mem_singleton.mp ht
    cases v with
    | chr c => rfl
    | num v => exact hpid s _
  refine ⟨p, ?_, hprs⟩
  rcases hp with rfl | ⟨name, length, rfl⟩
  · exact hassign
  · refine Eq.trans ?_ hassign
    rw [copyComm_eq]
    split
    · exact hcomm _ _
    · rfl

end

/-- The record with the members of the second scan cleared. -/
def Scraped.besidesStat (p : Scraped) : Scraped :=
  { p with stateC := nul, ppid := 0, pgrp := 0, sid := 0, tty := 0, flags := 0, minflt := 0,
           cminflt := 0, majflt := 0, cmajflt := 0, utime := 0, stime := 0, cutime := 0,
           cstime := 0, priority := 0, startTime := 0, vsize := 0, rss := 0, wchan := 0 }

/-- The second scan leaves every other member alone. -/
theorem statTargets_besidesStat :
    ∀ t ∈ statTargets, ∀ v p, Scraped.besidesStat (t v p) = p.besidesStat := by
  intro t ht v p
  simp only [statTargets, List.mem_cons, List.not_mem_nil, or_false] at ht
  rcases ht with rfl | rfl | rfl | rfl | rfl | rfl | rfl | rfl | rfl | rfl | rfl | rfl | rfl | rfl |
    rfl | rfl | rfl | rfl | rfl | rfl | rfl | rfl | rfl | rfl | rfl | rfl | rfl | rfl | rfl | rfl |
    rfl | rfl | rfl <;> cases v <;> rfl

theorem assign_besidesStat {β : Type} (π : Scraped → β) (hπ : ∀ p, π (Scraped.besidesStat p) = π p)
    (vals : List Value) (p : Scraped) : π (assign statTargets vals p) = π p := by
  have hsame := assign_inv Scraped.besidesStat statTargets_besidesStat vals p
  rw [← hπ, hsame, hπ]

/-- The process id is the one the text starts with. -/
theorem scanStat_pid (m : Mem) (prs : Scraped) :
    (scanStat m prs).prs.pid = (pidConversion m).getD prs.pid := by
  obtain ⟨_, _, p, hp, hprs⟩ := scanStat_exits m prs
  have hstat := assign_besidesStat Scraped.pid (fun _ => rfl) (statConversions m) p
  have hfirst : (assign pidTargets (sscanf m pidFormat) prs).pid =
      (pidConversion m).getD prs.pid := by
    have hset := @assign_int_at Scraped Int32 Scraped.pid [] [] (fun v p => { p with pid := Int32.ofInt v })
      Int32.ofInt (fun _ _ => rfl) (fun _ h => absurd h List.not_mem_nil)
      (fun _ h => absurd h List.not_mem_nil) (sscanf m pidFormat) prs
    refine hset.trans ?_
    unfold pidConversion
    rw [List.length_nil]
    cases (sscanf m pidFormat)[0]? with
    | none => rfl
    | some v => cases v <;> rfl
  rw [hprs, hstat, ← hfirst]
  rcases hp with rfl | ⟨name, length, rfl⟩
  · rfl
  · rw [copyComm_eq]
    split <;> rfl

/-- The resident size of a stat text: its 22nd value. -/
def rssConversion (text : Mem) : Option Int64 :=
  match (statConversions text)[21]? with
  | some (Value.num v) => some (Int64.ofInt v)
  | _ => none

theorem scanStat_rss (m : Mem) (prs : Scraped) :
    (scanStat m prs).prs.rss = (rssConversion m).getD prs.rss := by
  obtain ⟨p, hp, hprs⟩ := scanStat_member Scraped.rss (fun _ _ => rfl) (fun _ _ => rfl) m prs
  have hbefore : ∀ t ∈ statTargets.take 21, ∀ v s, Scraped.rss (t v s) = s.rss := by
    intro t ht v s
    simp only [statTargets, List.take_succ_cons, List.take_zero, List.mem_cons, List.not_mem_nil,
      or_false] at ht
    rcases ht with rfl | rfl | rfl | rfl | rfl | rfl | rfl | rfl | rfl | rfl | rfl | rfl | rfl | rfl |
      rfl | rfl | rfl | rfl | rfl | rfl | rfl <;> cases v <;> rfl
  have hafter : ∀ t ∈ statTargets.drop 22, ∀ v s, Scraped.rss (t v s) = s.rss := by
    intro t ht v s
    simp only [statTargets, List.drop_succ_cons, List.drop_zero, List.mem_cons, List.not_mem_nil,
      or_false] at ht
    rcases ht with rfl | rfl | rfl | rfl | rfl | rfl | rfl | rfl | rfl | rfl | rfl <;>
      cases v <;> rfl
  have hset := @assign_int_at Scraped Int64 Scraped.rss (statTargets.take 21) (statTargets.drop 22)
    (fun v p => { p with rss := Int64.ofInt v }) Int64.ofInt (fun _ _ => rfl) hbefore hafter
    (statConversions m) p
  rw [hprs, ← hp]
  refine hset.trans ?_
  unfold rssConversion
  rw [show (statTargets.take 21).length = 21 from rfl]
  cases (statConversions m)[21]? with
  | none => rfl
  | some v => cases v <;> rfl

/-- The state letter of a stat text: its first value. -/
def stateLetter (text : Mem) : Option Char :=
  match (statConversions text)[0]? with
  | some (Value.chr c) => some c
  | _ => none

/-- The state letter is the one of the text. -/
theorem scanStat_letter (m : Mem) (prs : Scraped) :
    (scanStat m prs).prs.stateC = (stateLetter m).getD prs.stateC := by
  obtain ⟨p, hp, hprs⟩ := scanStat_member Scraped.stateC (fun _ _ => rfl) (fun _ _ => rfl) m prs
  have hafter : ∀ t ∈ statTargets.drop 1, ∀ v s, Scraped.stateC (t v s) = s.stateC := by
    intro t ht v s
    simp only [statTargets, List.drop_succ_cons, List.drop_zero, List.mem_cons, List.not_mem_nil,
      or_false] at ht
    rcases ht with rfl | rfl | rfl | rfl | rfl | rfl | rfl | rfl | rfl | rfl | rfl | rfl | rfl | rfl |
      rfl | rfl | rfl | rfl | rfl | rfl | rfl | rfl | rfl | rfl | rfl | rfl | rfl | rfl | rfl | rfl |
      rfl | rfl <;> cases v <;> rfl
  rw [hprs, ← hp, stateLetter]
  cases statConversions m with
  | nil => rfl
  | cons v vals =>
      have htail := assign_inv Scraped.stateC hafter vals
        (Target.chr (fun c (p : Scraped) => { p with stateC := c }) v p)
      cases v with
      | chr c => exact htail
      | num n => exact htail

/-- A record of the kernel gives its own process id and all 33 values. -/
theorem ProcessRecord.conversions_render (r : ProcessRecord) :
    pidConversion (r.render ++ [nul]) = some r.pid ∧
      (statConversions (r.render ++ [nul])).length = 33 := by
  obtain ⟨_, hen, _⟩ := r.scanStat_render .zero []
  refine ⟨?_, (scanStat_exits _ .zero).1.mp hen⟩
  have hscan : sscanf (r.render ++ [nul]) pidFormat = [.num r.pid.toInt] := by
    rw [← r.sscanf_pid, sscanf, sscanf, r.cstr_render]
  rw [pidConversion, hscan, List.getElem?_cons_zero]
  exact congrArg some (Int32.ofInt_toInt r.pid)

end Linux
