import ProcProcessTable.CText

/-!
# Scanning a text line by line

The loop

    for(off = text; off; off = strchr(off, '\n')) {
        if(off != text) off++;
        ...
    }

hands its body the start of each line and everything behind it.  `run` is that
loop with a fuel argument, `loop` runs it with as much fuel as a text can use.

* `loop_eq_scan` — on a text that does not begin with a newline the loop is a
  scan of the line starts, each visited once and in order, cut short by a body
  that stops;
* `run_eq_none` — on a text that begins with a newline the address never
  leaves the first byte, and a body that does not stop there runs forever;
* `visits_iff` — so a loop that leaves its state alone at such a text visits
  line by line exactly when the text does not begin with a newline, or the body
  stops there.
-/

namespace LineLoop

open CText

variable {σ : Type} (body : Mem → σ → σ × Bool)

/-- The loop, from the offset the last `strchr` returned; `none` is a loop
that has not ended within its fuel.  The body answers whether it leaves the
loop. -/
def run (text : Mem) : Nat → Nat → σ → Option σ
  | 0, _, _ => none
  | fuel + 1, off, s =>
      -- only the first line is entered without skipping a newline
      let off := if off = 0 then off else off + 1
      match body (text.drop off) s with
      | (s, true) => some s
      | (s, false) =>
          match strchr (text.drop off) '\n' with
          | none => some s
          | some k => run text fuel (off + k) s

/-- The loop with enough fuel for every line of the text. -/
def loop (text : Mem) (s : σ) : Option σ := run body text (strlen text + 2) 0 s

/-- What follows each newline of a string. -/
def afterNewlines : List Char → List (List Char)
  | [] => []
  | c :: t => if c = '\n' then t :: afterNewlines t else afterNewlines t

/-- The line starts of a string, each with everything behind it. -/
def lineStarts (s : List Char) : List (List Char) := s :: afterNewlines s

/-- Run the body over a list of line starts until it stops. -/
def scan : List (List Char) → σ → σ
  | [], s => s
  | l :: ls, s =>
      match body l s with
      | (s, true) => s
      | (s, false) => scan ls s

/-- A body that reads its text as a string. -/
def ReadsString : Prop := ∀ m s, body m s = body (cstr m) s

theorem afterNewlines_eq_nil {t : List Char} (h : t.findIdx? (· = '\n') = none) :
    afterNewlines t = [] := by
  induction t with
  | nil => rfl
  | cons c t ih =>
      rw [List.findIdx?_cons] at h
      by_cases hc : c = '\n'
      · simp [hc] at h
      · rw [afterNewlines, if_neg hc]
        exact ih (by simpa [hc] using h)

theorem afterNewlines_eq_lineStarts {t : List Char} {k : Nat}
    (h : t.findIdx? (· = '\n') = some k) :
    afterNewlines t = lineStarts (t.drop (k + 1)) := by
  induction t generalizing k with
  | nil => simp at h
  | cons c t ih =>
      rw [List.findIdx?_cons] at h
      by_cases hc : c = '\n'
      · have hk : k = 0 := by simpa [hc] using h.symm
        simp [afterNewlines, lineStarts, hc, hk]
      · obtain ⟨j, hj, rfl⟩ : ∃ j, t.findIdx? (· = '\n') = some j ∧ j + 1 = k := by
          simpa [hc] using h
        rw [afterNewlines, if_neg hc, ih hj, List.drop_succ_cons]

/-- A newline found from an offset inside the text lies inside the text. -/
theorem add_lt_strlen {text : Mem} {off k : Nat} (hoff : off ≤ strlen text)
    (h : strchr (text.drop off) '\n' = some k) : off + k < strlen text := by
  have hk := strchr_lt h
  rw [strlen, cstr_drop hoff, List.length_drop] at hk
  unfold strlen at *
  omega

/-- **One step behind the first line.**  From a newline the loop scans the
rest of the text, with fuel for every byte of it. -/
theorem run_eq_scan (hbody : ReadsString body) (text : Mem) :
    ∀ (fuel off : Nat) (s : σ), off ≠ 0 → off < strlen text → strlen text ≤ off + fuel →
      run body text fuel off s = some (scan body (lineStarts ((cstr text).drop (off + 1))) s) := by
  intro fuel
  induction fuel with
  | zero => intro off s _ hlt hfuel; omega
  | succ fuel ih =>
      intro off s hpos hlt hfuel
      have hstr : cstr (text.drop (off + 1)) = (cstr text).drop (off + 1) := cstr_drop hlt
      rw [run]
      simp only [hpos, if_false, lineStarts, scan]
      rw [hbody, hstr]
      cases hb : body ((cstr text).drop (off + 1)) s with
      | mk s' stop =>
          cases stop with
          | true => rfl
          | false =>
              cases hk : strchr (text.drop (off + 1)) '\n' with
              | none =>
                  rw [strchr, hstr] at hk
                  simp [afterNewlines_eq_nil hk, scan]
              | some k =>
                  have hin := add_lt_strlen hlt hk
                  rw [strchr, hstr] at hk
                  simp only [afterNewlines_eq_lineStarts hk, List.drop_drop]
                  exact ih (off + 1 + k) s' (by omega) hin (by omega)

/-- **The loop scans the lines of a text that does not begin with a newline**:
it ends, and it looks at every line start once, in order, until the body
stops. -/
theorem loop_eq_scan (hbody : ReadsString body) {text : Mem} (s : σ)
    (hhead : (cstr text).head? ≠ some '\n') :
    loop body text s = some (scan body (lineStarts (cstr text)) s) := by
  rw [loop, run]
  simp only [if_true, List.drop_zero, lineStarts, scan]
  rw [hbody]
  cases hb : body (cstr text) s with
  | mk s' stop =>
      cases stop with
      | true => rfl
      | false =>
          cases hk : strchr text '\n' with
          | none => simp [afterNewlines_eq_nil hk, scan]
          | some k =>
              have hin := @add_lt_strlen text 0 k (Nat.zero_le _) hk
              have hpos : k ≠ 0 := by
                intro h0
                obtain ⟨hlt, hnl, _⟩ := List.findIdx?_eq_some_iff_getElem.mp hk
                apply hhead
                rw [List.head?_eq_getElem?]
                subst h0
                simpa [List.getElem?_eq_getElem hlt] using hnl
              simp only [Nat.zero_add] at hin
              simp only [afterNewlines_eq_lineStarts hk, Nat.zero_add]
              exact run_eq_scan body hbody text _ k s' hpos hin (by omega)

/-- A line start of a string is a string. -/
theorem cstr_lineStart {s : List Char} (h : nul ∉ s) : ∀ l ∈ lineStarts s, cstr l = l := by
  have hsuffix : ∀ (s : List Char), ∀ l ∈ afterNewlines s, l <:+ s := by
    intro s
    induction s with
    | nil => simp [afterNewlines]
    | cons c t ih =>
        intro l hl
        rw [afterNewlines] at hl
        split at hl
        · rcases List.mem_cons.mp hl with rfl | hl
          · exact List.suffix_cons c l
          · exact (ih l hl).trans (List.suffix_cons c t)
        · exact (ih l hl).trans (List.suffix_cons c t)
  intro l hl
  rcases List.mem_cons.mp hl with rfl | hl
  · exact cstr_of_nulFree h
  · exact cstr_of_nulFree fun hn => h ((hsuffix s l hl).subset hn)

/-- The body with a log of the addresses it is given, as the strings they
denote. -/
def logged (loc : Mem) (s : List (List Char) × σ) : (List (List Char) × σ) × Bool :=
  ((s.1 ++ [cstr loc], (body loc s.2).1), (body loc s.2).2)

/-- **The loop ends, and it visits line by line.**  Until it ends it is at the
start of each line once, in order: the log is a first part of the line starts,
and all of them unless the body left the loop at the last one logged. -/
def Visits (text : Mem) (s : σ) : Prop :=
  ∃ fuel seen s', run body text fuel 0 s = some s' ∧
    run (logged body) text fuel 0 ([], s) = some (seen, s') ∧
    seen <+: lineStarts (cstr text) ∧
    (seen = lineStarts (cstr text) ∨
      ∃ line before, seen.getLast? = some line ∧ body line before = (s', true))

theorem logged_readsString (hbody : ReadsString body) : ReadsString (logged body) := by
  intro m s
  rw [logged, logged, hbody, cstr_cstr]

/-- A scan with a log. -/
theorem scan_logged {lines : List (List Char)} (hlines : ∀ l ∈ lines, cstr l = l)
    (log : List (List Char)) (s : σ) :
    ∃ seen, scan (logged body) lines (log, s) = (log ++ seen, scan body lines s) ∧
      seen <+: lines ∧
      (seen = lines ∨ ∃ line before, seen.getLast? = some line ∧
        body line before = (scan body lines s, true)) := by
  induction lines generalizing log s with
  | nil => exact ⟨[], by rw [List.append_nil]; rfl, List.prefix_refl [], Or.inl rfl⟩
  | cons line lines ih =>
      rw [scan, scan, logged, hlines line List.mem_cons_self]
      cases hb : body line s with
      | mk s' stop =>
          cases stop with
          | true => exact ⟨[line], rfl, ⟨lines, rfl⟩, Or.inr ⟨line, s, rfl, hb⟩⟩
          | false =>
              obtain ⟨seen, hscan, hfirst, hlast⟩ :=
                ih (fun l hl => hlines l (List.mem_cons_of_mem _ hl)) (log ++ [line]) s'
              refine ⟨line :: seen, ?_, List.prefix_cons_inj line |>.mpr hfirst, ?_⟩
              · exact hscan.trans (congrArg (·, _) (List.append_cons log line seen).symm)
              · rcases hlast with rfl | ⟨last, before, hlast, hstop⟩
                · exact Or.inl rfl
                · refine Or.inr ⟨last, before, ?_, hstop⟩
                  rw [List.getLast?_cons, hlast]
                  rfl

/-- On a text that does not begin with a newline the loop visits line by line. -/
theorem visits_of_head (hbody : ReadsString body) {text : Mem} (s : σ)
    (hhead : (cstr text).head? ≠ some '\n') : Visits body text s := by
  obtain ⟨seen, hscan, hvisit⟩ :=
    scan_logged body (cstr_lineStart (nul_not_mem_cstr text)) [] s
  have hlog := loop_eq_scan (logged body) (logged_readsString body hbody) ([], s) hhead
  rw [hscan] at hlog
  exact ⟨_, seen, _, loop_eq_scan body hbody s hhead, hlog, hvisit⟩

/-- A body that leaves the loop at the first byte visits the first line. -/
theorem visits_of_stop (hbody : ReadsString body) {text : Mem} {s s' : σ}
    (hstop : body text s = (s', true)) : Visits body text s := by
  have hlog : logged body text ([], s) = (([cstr text], s'), true) := by
    rw [logged, hstop]
    rfl
  refine ⟨1, [cstr text], s', ?_, ?_, ⟨_, rfl⟩, Or.inr ⟨cstr text, s, rfl, ?_⟩⟩
  · rw [run, if_pos rfl, List.drop_zero, hstop]
  · rw [run, if_pos rfl, List.drop_zero, hlog]
  · rw [← hbody]
    exact hstop

/-- The loop reads its text as a string. -/
theorem run_congr (hbody : ReadsString body) {text text' : Mem} (h : cstr text = cstr text') :
    ∀ (fuel off : Nat) (s : σ), (off ≠ 0 → off < strlen text) →
      run body text fuel off s = run body text' fuel off s := by
  have hlen : strlen text = strlen text' := by rw [strlen, strlen, h]
  have hdrop : ∀ off, off ≤ strlen text → cstr (text.drop off) = cstr (text'.drop off) := by
    intro off hoff
    rw [cstr_drop hoff, cstr_drop (hlen ▸ hoff), h]
  have hstep : ∀ off s, off ≤ strlen text → body (text.drop off) s = body (text'.drop off) s := by
    intro off s hoff
    rw [hbody (text.drop off), hbody (text'.drop off), hdrop off hoff]
  intro fuel
  induction fuel with
  | zero => intro off s _; rfl
  | succ fuel ih =>
      intro off s hoff
      have hle : (if off = 0 then off else off + 1) ≤ strlen text := by
        split
        · omega
        · exact hoff ‹_›
      have hnl : strchr (text.drop (if off = 0 then off else off + 1)) '\n' =
          strchr (text'.drop (if off = 0 then off else off + 1)) '\n' := by
        rw [strchr, strchr, hdrop _ hle]
      rw [run, run]
      simp only [hstep _ s hle, hnl]
      split
      · rfl
      · split
        · rfl
        · next k hk =>
            exact ih _ _ fun _ => add_lt_strlen hle (hnl.trans hk)

theorem loop_congr (hbody : ReadsString body) {text text' : Mem} (h : cstr text = cstr text')
    (s : σ) : loop body text s = loop body text' s := by
  have hlen : strlen text = strlen text' := by rw [strlen, strlen, h]
  rw [loop, loop, hlen]
  exact run_congr body hbody h _ 0 s (fun h0 => absurd rfl h0)

/-- **A leading newline traps the loop.**  The search finds the newline it
starts at, so the address stays put; a body that neither stops nor changes its
state there never lets the loop end. -/
theorem run_eq_none {text : Mem} {s : σ} (hhead : (cstr text).head? = some '\n')
    (hstay : body text s = (s, false)) (fuel : Nat) : run body text fuel 0 s = none := by
  have hk : strchr text '\n' = some 0 := by
    unfold strchr
    cases hc : cstr text with
    | nil => simp [hc] at hhead
    | cons c t =>
        have hnl : c = '\n' := by simpa [hc] using hhead
        simp [hnl, List.findIdx?_cons]
  induction fuel with
  | zero => rfl
  | succ fuel ih => simpa [run, hstay, hk] using ih

/-- **When a loop visits line by line**, for a body that keeps its state at a
line that begins with a newline. -/
theorem visits_iff (hbody : ReadsString body) {text : Mem} {s : σ}
    (hstay : (cstr text).head? = some '\n' → (body text s).1 = s) :
    Visits body text s ↔ (cstr text).head? ≠ some '\n' ∨ (body text s).2 = true := by
  by_cases hhead : (cstr text).head? = some '\n'
  · cases hstop : (body text s).2 with
    | true =>
        have hleave : body text s = ((body text s).1, true) := by rw [← hstop]
        exact iff_of_true (visits_of_stop body hbody hleave) (Or.inr rfl)
    | false =>
        have hkeep : body text s = (s, false) := Prod.ext (hstay hhead) hstop
        refine iff_of_false ?_ (by simp [hhead])
        rintro ⟨fuel, _, _, hrun, _⟩
        rw [run_eq_none body hhead hkeep] at hrun
        cases hrun
  · exact iff_of_true (visits_of_head body hbody s hhead) (Or.inl hhead)

end LineLoop
