import ProcProcessTable.LinuxPublished

/-!
# The early exit of the status scan

`get_proc_status` leaves its loop once a line of each kind has been seen.  A
status file has at most one line of each kind, so nothing is lost by that, and
the order of the lines does not matter: what the loop leaves is what a scan of
every line by itself leaves (`scanStatus_fullScan`).
-/

namespace Linux

open CText Scanf

/-- The text of a list of lines. -/
def textOf (lines : List (List Char)) : List Char := List.intercalate ['\n'] lines

/-- A scan of all lines, each by itself and without the early exit. -/
def fullScan (lines : List (List Char)) (s : Mem × Scraped) : Mem × Scraped :=
  lines.foldl (fun s line => (statusBody line s).1) s

/-- How many lines of a kind there are. -/
def countKind (kind : LineKind) (lines : List (List Char)) : Nat :=
  lines.countP fun line => LineKind.ofLine? line = some kind

/-- A line of a kind gives all the numbers of the kind. -/
def WellFormed (line : List Char) : Prop :=
  ∀ kind, LineKind.ofLine? line = some kind →
    (kind.scanLine line).length = kind.targets.length

/-- A line that can stand in a text. -/
def IsLine (line : List Char) : Prop := '\n' ∉ line ∧ nul ∉ line

section Starts

/-- The texts from each line on. -/
def textsFrom : List (List Char) → List (List Char)
  | [] => []
  | line :: lines => textOf (line :: lines) :: textsFrom lines

theorem textOf_cons (line : List Char) (lines : List (List Char)) :
    ∃ more, textOf (line :: lines) = line ++ more ∧ more.head?.all (· = '\n') = true := by
  cases lines with
  | nil => exact ⟨[], by simp [textOf, List.intercalate_singleton], rfl⟩
  | cons l ls =>
      refine ⟨'\n' :: textOf (l :: ls), ?_, rfl⟩
      rw [textOf, textOf, List.intercalate_cons_cons]
      simp

theorem afterNewlines_append {line : List Char} (h : '\n' ∉ line) (more : List Char) :
    LineLoop.afterNewlines (line ++ more) = LineLoop.afterNewlines more := by
  induction line with
  | nil => rfl
  | cons c line ih =>
      rw [List.mem_cons, not_or] at h
      rw [List.cons_append, LineLoop.afterNewlines, if_neg (fun hc => h.1 hc.symm)]
      exact ih h.2

/-- The line starts of a text are the texts from each line on. -/
theorem lineStarts_textOf {line : List Char} {lines : List (List Char)}
    (h : ∀ l ∈ line :: lines, IsLine l) :
    LineLoop.lineStarts (textOf (line :: lines)) = textsFrom (line :: lines) := by
  induction lines generalizing line with
  | nil =>
      have hnl := (h line List.mem_cons_self).1
      have htext : textOf [line] = line := List.intercalate_singleton
      have hafter := afterNewlines_append hnl []
      rw [List.append_nil] at hafter
      rw [textsFrom, textsFrom, LineLoop.lineStarts, htext, hafter]
      rfl
  | cons l ls ih =>
      have hnl := (h line List.mem_cons_self).1
      have htext : textOf (line :: l :: ls) = line ++ '\n' :: textOf (l :: ls) := by
        rw [textOf, textOf, List.intercalate_cons_cons]
        simp
      have hrest := ih fun l hl => h l (List.mem_cons_of_mem _ hl)
      rw [textsFrom, LineLoop.lineStarts, htext, afterNewlines_append hnl, LineLoop.afterNewlines,
        if_pos rfl, ← LineLoop.lineStarts, hrest]

/-- A line break ends a word of letters. -/
theorem isPrefixOf_line {word line more : List Char} (hword : '\n' ∉ word)
    (hmore : more.head?.all (· = '\n') = true) :
    word.isPrefixOf (line ++ more) = word.isPrefixOf line := by
  induction word generalizing line with
  | nil => rfl
  | cons w word ih =>
      rw [List.mem_cons, not_or] at hword
      cases line with
      | nil =>
          cases more with
          | nil => rfl
          | cons c more =>
              have hc : c = '\n' := by simpa using hmore
              have hne : (w == c) = false := by simpa [hc] using fun h => hword.1 h.symm
              simp [List.isPrefixOf, hne]
      | cons c line =>
          rw [List.cons_append, List.isPrefixOf, List.isPrefixOf, ih hword.2]

/-- The kind of a line is its own. -/
theorem ofLine?_line (line : List Char) {more : List Char}
    (hmore : more.head?.all (· = '\n') = true) :
    LineKind.ofLine? (line ++ more) = LineKind.ofLine? line := by
  rw [LineKind.ofLine?, LineKind.ofLine?, isPrefixOf_line (by decide) hmore,
    isPrefixOf_line (by decide) hmore, isPrefixOf_line (by decide) hmore]

/-- A word that starts a line starts the text from there. -/
theorem length_le_of_ofLine? {line : List Char} {kind : LineKind}
    (h : LineKind.ofLine? line = some kind) : kind.skip ≤ line.length := by
  unfold LineKind.ofLine? at h
  split at h
  · obtain rfl := Option.some.inj h
    exact (List.isPrefixOf_iff_prefix.mp ‹_›).length_le
  · split at h
    · obtain rfl := Option.some.inj h
      exact (List.isPrefixOf_iff_prefix.mp ‹_›).length_le
    · split at h
      · obtain rfl := Option.some.inj h
        exact (List.isPrefixOf_iff_prefix.mp ‹_›).length_le
      · cases h

/-- The conversions of each kind. -/
def LineKind.convs : LineKind → List Conv
  | uid | gid => [.d, .d, .d, .d]
  | tracer => [.d]

theorem format_eq (kind : LineKind) : kind.format = spaced kind.convs := by
  cases kind <;> decide +kernel

/-- **A well formed line is scanned alike by itself and in its text.** -/
theorem storeLine_line {line : List Char} (hline : IsLine line) (hgood : WellFormed line)
    {more : List Char} (hmore : more.head?.all (· = '
') = true) (hnul : nul ∉ more)
    (prs : Scraped) : storeLine (line ++ more) prs = storeLine line prs := by
  unfold storeLine
  rw [ofLine?_line line hmore]
  cases hkind : LineKind.ofLine? line with
  | none => rfl
  | some kind =>
      have hskip := length_le_of_ofLine? hkind
      have hrest : nul ∉ line.drop kind.skip := fun h => hline.2 (List.mem_of_mem_drop h)
      have hscan : ∀ text, nul ∉ text → sscanf text kind.format = scan (spaced kind.convs) text := by
        intro text htext
        rw [sscanf, cstr_of_nulFree htext, format_eq]
      have hcount := hgood kind hkind
      rw [LineKind.scanLine, hscan _ hrest] at hcount
      have hends : EndsNumber more := by
        intro c hc
        cases more with
        | nil => cases hc
        | cons d more =>
            obtain rfl : d = c := Option.some.inj hc
            obtain rfl : d = '\n' := by simpa using hmore
            decide
      have hlen : kind.convs.length = kind.targets.length := by cases kind <;> rfl
      have happend := scan_spaced_append (hcount.trans hlen.symm) hends
      have hvals : kind.scanLine (line ++ more) = kind.scanLine line := by
        rw [LineKind.scanLine, LineKind.scanLine, List.drop_append_of_le_length hskip,
          hscan _ hrest, hscan _ (by
            rw [List.mem_append, not_or]
            exact ⟨hrest, hnul⟩), happend]
      exact congrArg (fun vals => assign kind.targets vals prs) hvals

end Starts

/-- A line enables the witness of its own kind and of no other. -/
theorem fields_witness (kind kind' : LineKind) :
    kind'.fields kind.witness = decide (kind' = kind) := by
  cases kind <;> cases kind' <;> decide

theorem kindsSeen_iff (enabled : Field → Bool) :
    kindsSeen enabled = true ↔ ∀ kind : LineKind, enabled kind.witness = true := by
  rw [kindsSeen, Bool.and_eq_true, Bool.and_eq_true]
  constructor
  · rintro ⟨⟨huid, hgid⟩, htracer⟩ kind
    cases kind
    · exact huid
    · exact hgid
    · exact htracer
  · exact fun h => ⟨⟨h .uid, h .gid⟩, h .tracer⟩

theorem enableLine_witness {enabled : Field → Bool} {line : List Char} {kind : LineKind}
    (h : enableLine enabled line kind.witness = true) :
    enabled kind.witness = true ∨ LineKind.ofLine? line = some kind := by
  unfold enableLine at h
  cases hkind : LineKind.ofLine? line with
  | none =>
      rw [hkind] at h
      exact Or.inl h
  | some kind' =>
      simp only [hkind, fields_witness, Bool.or_eq_true, decide_eq_true_eq] at h
      rcases h with h | rfl
      · exact Or.inl h
      · exact Or.inr rfl

theorem countKind_cons (kind : LineKind) (line : List Char) (lines : List (List Char)) :
    countKind kind (line :: lines) =
      countKind kind lines + if LineKind.ofLine? line = some kind then 1 else 0 := by
  rw [countKind, List.countP_cons]
  simp [countKind]

/-- Lines of no kind change nothing. -/
theorem ofLine?_eq_none {line : List Char} {lines : List (List Char)}
    (h : ∀ kind, countKind kind lines = 0) (hline : line ∈ lines) :
    LineKind.ofLine? line = none := by
  cases hkind : LineKind.ofLine? line with
  | none => rfl
  | some kind =>
      have hnot := List.countP_eq_zero.mp (h kind) line hline
      rw [hkind] at hnot
      exact absurd (decide_eq_true rfl) hnot

theorem foldl_noKinds {lines : List (List Char)} (h : ∀ kind, countKind kind lines = 0)
    (enabled : Field → Bool) (prs : Scraped) :
    lines.foldl enableLine enabled = enabled ∧
      lines.foldl (fun p l => storeLine l p) prs = prs := by
  have hnone : ∀ line ∈ lines, LineKind.ofLine? line = none := fun _ => ofLine?_eq_none h
  clear h
  induction lines with
  | nil => exact ⟨rfl, rfl⟩
  | cons line lines ih =>
      have hline := hnone line List.mem_cons_self
      rw [List.foldl_cons, List.foldl_cons, enableLine, storeLine, hline]
      exact ih fun l hl => hnone l (List.mem_cons_of_mem _ hl)

theorem nul_not_mem_textOf {lines : List (List Char)} (h : ∀ l ∈ lines, IsLine l) :
    nul ∉ textOf lines := by
  induction lines with
  | nil => exact List.not_mem_nil
  | cons line lines ih =>
      have hline := (h line List.mem_cons_self).2
      have hrest := ih fun l hl => h l (List.mem_cons_of_mem _ hl)
      cases lines with
      | nil =>
          rw [textOf, List.intercalate_singleton]
          exact hline
      | cons l ls =>
          rw [textOf, List.intercalate_cons_cons]
          simp only [List.mem_append, List.mem_singleton, not_or]
          exact ⟨⟨hline, by decide⟩, hrest⟩

/-- **The lines behind the exit would change nothing.**  The induction carries
that no line of a kind is left once the kind has been seen. -/
theorem foldl_linesRead {lines : List (List Char)} (hlines : ∀ l ∈ lines, IsLine l)
    (hgood : ∀ l ∈ lines, WellFormed l) (honce : ∀ kind, countKind kind lines ≤ 1)
    {enabled : Field → Bool}
    (hseen : ∀ kind : LineKind, enabled kind.witness = true → countKind kind lines = 0)
    (prs : Scraped) :
    (linesRead (textsFrom lines) enabled).foldl enableLine enabled =
        lines.foldl enableLine enabled ∧
      (linesRead (textsFrom lines) enabled).foldl (fun p l => storeLine l p) prs =
        lines.foldl (fun p l => storeLine l p) prs := by
  induction lines generalizing enabled prs with
  | nil => exact ⟨rfl, rfl⟩
  | cons line lines ih =>
      obtain ⟨more, htext, hmore⟩ := textOf_cons line lines
      have hnul : nul ∉ more := by
        intro h
        apply nul_not_mem_textOf hlines
        rw [htext]
        exact List.mem_append_right _ h
      have henable : enableLine enabled (line ++ more) = enableLine enabled line := by
        rw [enableLine, enableLine, ofLine?_line line hmore]
      have hstore := storeLine_line (hlines line List.mem_cons_self) (hgood line List.mem_cons_self)
        hmore hnul prs
      have hleft : ∀ kind : LineKind, enableLine enabled line kind.witness = true →
          countKind kind lines = 0 := by
        intro kind hkind
        have hcount := countKind_cons kind line lines
        rcases enableLine_witness hkind with hbefore | hnow
        · have hzero := hseen kind hbefore
          omega
        · have hone := honce kind
          rw [if_pos hnow] at hcount
          omega
      rw [textsFrom, htext, linesRead, henable]
      cases hexit : kindsSeen (enableLine enabled line) with
      | true =>
          have hall := (kindsSeen_iff _).mp hexit
          obtain ⟨hflags, hvalues⟩ := foldl_noKinds (fun kind => hleft kind (hall kind))
            (enableLine enabled line) (storeLine line prs)
          rw [if_pos rfl]
          simp only [List.foldl_cons, List.foldl_nil, henable, hstore, hflags, hvalues, and_self]
      | false =>
          have hrest := ih (fun l hl => hlines l (List.mem_cons_of_mem _ hl))
            (fun l hl => hgood l (List.mem_cons_of_mem _ hl))
            (fun kind => by
              have hcount := countKind_cons kind line lines
              have hone := honce kind
              omega) hleft (storeLine line prs)
          rw [if_neg Bool.false_ne_true]
          simp only [List.foldl_cons, henable, hstore, hrest, and_self]

/-- A full scan, on the set of enabled fields. -/
theorem fullScan_formatOf {lines : List (List Char)} (hlines : ∀ l ∈ lines, IsLine l)
    (enabled : Field → Bool) (prs : Scraped) :
    fullScan lines (formatOf enabled, prs) =
      (formatOf (lines.foldl enableLine enabled), lines.foldl (fun p l => storeLine l p) prs) := by
  unfold fullScan
  induction lines generalizing enabled prs with
  | nil => rfl
  | cons line lines ih =>
      have hline := cstr_of_nulFree (hlines line List.mem_cons_self).2
      rw [List.foldl_cons, statusBody_formatOf hline]
      exact ih (fun l hl => hlines l (List.mem_cons_of_mem _ hl)) _ _

/-- Lines of different kinds store into different members. -/
theorem assign_kinds {kind kind' : LineKind} (hne : kind ≠ kind') (vals vals' : List Value)
    (prs : Scraped) :
    assign kind.targets vals (assign kind'.targets vals' prs) =
      assign kind'.targets vals' (assign kind.targets vals prs) := by
  apply assign_comm
  intro t ht t' ht' v v' s
  revert t' t
  cases kind <;> cases kind' <;>
    first
      | exact absurd rfl hne
      | (simp only [LineKind.targets, uidTargets, gidTargets, tracerTargets, List.mem_cons,
          List.not_mem_nil, or_false, forall_eq_or_imp, forall_eq, Target.dummy]
         cases v <;> cases v' <;> simp [Target.int])

theorem storeLine_comm {line line' : List Char}
    (h : ∀ kind, LineKind.ofLine? line = some kind → LineKind.ofLine? line' = some kind →
      line = line') (prs : Scraped) :
    storeLine line (storeLine line' prs) = storeLine line' (storeLine line prs) := by
  by_cases heq : line = line'
  · rw [heq]
  · unfold storeLine
    cases hkind : LineKind.ofLine? line with
    | none => rfl
    | some kind =>
        cases hkind' : LineKind.ofLine? line' with
        | none => rfl
        | some kind' =>
            apply assign_kinds
            rintro rfl
            exact heq (h kind hkind hkind')

theorem enableLine_comm (enabled : Field → Bool) (line line' : List Char) :
    enableLine (enableLine enabled line) line' = enableLine (enableLine enabled line') line := by
  unfold enableLine
  cases LineKind.ofLine? line with
  | none => rfl
  | some kind =>
      cases LineKind.ofLine? line' with
      | none => rfl
      | some kind' =>
          funext f
          exact Bool.or_right_comm _ _ _

/-- Two lines of a kind that occurs once are the same. -/
theorem eq_of_countKind {lines : List (List Char)} {kind : LineKind}
    (honce : countKind kind lines ≤ 1) {line line' : List Char} (hline : line ∈ lines)
    (hline' : line' ∈ lines) (hkind : LineKind.ofLine? line = some kind)
    (hkind' : LineKind.ofLine? line' = some kind) : line = line' := by
  have hmem : ∀ l ∈ lines, LineKind.ofLine? l = some kind →
      l ∈ lines.filter fun line => decide (LineKind.ofLine? line = some kind) :=
    fun l hl hk => List.mem_filter.mpr ⟨hl, decide_eq_true hk⟩
  have hfirst := hmem line hline hkind
  have hsecond := hmem line' hline' hkind'
  rw [countKind, List.countP_eq_length_filter] at honce
  generalize lines.filter (fun line => decide (LineKind.ofLine? line = some kind)) = found at *
  match found, honce with
  | [], _ => cases hfirst
  | [l], _ => rw [List.mem_singleton.mp hfirst, List.mem_singleton.mp hsecond]

/-- **A full scan does not depend on the order of the lines.** -/
theorem fullScan_perm {lines lines' : List (List Char)} (hperm : lines.Perm lines')
    (hlines : ∀ l ∈ lines, IsLine l) (honce : ∀ kind, countKind kind lines ≤ 1)
    (enabled : Field → Bool) (prs : Scraped) :
    fullScan lines' (formatOf enabled, prs) = fullScan lines (formatOf enabled, prs) := by
  have hlines' : ∀ l ∈ lines', IsLine l := fun l hl => hlines l (hperm.mem_iff.mpr hl)
  have hflags := hperm.foldl_eq' (fun x _ y _ z => enableLine_comm z x y) enabled
  have hvalues := hperm.foldl_eq' (f := fun p l => storeLine l p) (fun x hx y hy z =>
    storeLine_comm (fun kind hk hk' => (eq_of_countKind (honce kind) hx hy hk' hk).symm) z) prs
  rw [fullScan_formatOf hlines, fullScan_formatOf hlines', hflags, hvalues]

/-- The loop leaves what a full scan leaves. -/
theorem scanStatus_lines {enabled : Field → Bool}
    (hmasked : ∀ kind : LineKind, enabled kind.witness = false) (prs : Scraped)
    {first : List Char} {rest : List (List Char)} (hfirst : first ≠ [])
    (hlines : ∀ l ∈ first :: rest, IsLine l)
    (honce : ∀ kind, countKind kind (first :: rest) ≤ 1)
    (hgood : ∀ l ∈ first :: rest, WellFormed l) {text : Mem}
    (htext : cstr text = textOf (first :: rest)) :
    scanStatus text (formatOf enabled) prs =
      some (fullScan (first :: rest) (formatOf enabled, prs)) := by
  have hhead : (cstr text).head? ≠ some '\n' := by
    obtain ⟨more, hmore, _⟩ := textOf_cons first rest
    rw [htext, hmore]
    cases first with
    | nil => exact absurd rfl hfirst
    | cons c first =>
        intro hc
        apply (hlines _ List.mem_cons_self).1
        rw [Option.some.inj hc]
        exact List.mem_cons_self
  have hunseen : ∀ kind : LineKind, enabled kind.witness = true →
      countKind kind (first :: rest) = 0 := by
    intro kind hk
    rw [hmasked kind] at hk
    cases hk
  obtain ⟨hflags, hvalues⟩ := foldl_linesRead hlines hgood honce hunseen prs
  rw [scanStatus_formatOf hhead, statusLines, htext, lineStarts_textOf hlines, hflags, hvalues,
    fullScan_formatOf hlines]

section Members

/-- The members that a line of the kind sets. -/
def LineKind.members : LineKind → Scraped → List Int32
  | uid, p => [p.euid, p.suid, p.fuid]
  | gid, p => [p.egid, p.sgid, p.fgid]
  | tracer, p => [p.tracer]

/-- The numbers of a line that are kept: the real id is not. -/
def LineKind.numbers (kind : LineKind) (line : List Char) : List Int32 :=
  let kept :=
    match kind with
    | uid | gid => (kind.scanLine line).drop 1
    | tracer => kind.scanLine line
  kept.map fun
    | .num v => Int32.ofInt v
    | .chr _ => 0

/-- A well formed line sets its members to its numbers. -/
theorem members_storeLine {line : List Char} {kind : LineKind}
    (hkind : LineKind.ofLine? line = some kind) (hgood : WellFormed line) (prs : Scraped) :
    kind.members (storeLine line prs) = kind.numbers line := by
  have hlen := hgood kind hkind
  have hnum : ∀ v ∈ kind.scanLine line, ∃ n, v = .num n := by
    rw [LineKind.scanLine, sscanf, format_eq]
    exact scan_spaced_num
  unfold LineKind.numbers
  rw [storeLine, hkind]
  dsimp only
  generalize kind.scanLine line = vals at hlen hnum
  cases kind with
  | uid =>
      obtain ⟨a, b, c, d, rfl⟩ := List.length_eq_four.mp hlen
      obtain ⟨_, rfl⟩ := hnum b (by simp)
      obtain ⟨_, rfl⟩ := hnum c (by simp)
      obtain ⟨_, rfl⟩ := hnum d (by simp)
      rfl
  | gid =>
      obtain ⟨a, b, c, d, rfl⟩ := List.length_eq_four.mp hlen
      obtain ⟨_, rfl⟩ := hnum b (by simp)
      obtain ⟨_, rfl⟩ := hnum c (by simp)
      obtain ⟨_, rfl⟩ := hnum d (by simp)
      rfl
  | tracer =>
      obtain ⟨a, rfl⟩ := List.length_eq_one_iff.mp hlen
      obtain ⟨_, rfl⟩ := hnum a (by simp)
      rfl

/-- Lines of other kinds leave them alone. -/
theorem members_foldl_other {lines : List (List Char)} {kind : LineKind}
    (hother : ∀ l ∈ lines, LineKind.ofLine? l ≠ some kind) (prs : Scraped) :
    kind.members (lines.foldl (fun p l => storeLine l p) prs) = kind.members prs := by
  have hkeep : ∀ kind', kind' ≠ kind → ∀ t ∈ kind'.targets, ∀ v p,
      kind.members (t v p) = kind.members p := by
    intro kind' hne t ht v p
    revert t
    cases kind <;> cases kind' <;>
      first
        | exact absurd rfl hne
        | (simp only [LineKind.targets, uidTargets, gidTargets, tracerTargets, List.mem_cons,
            List.not_mem_nil, or_false, forall_eq_or_imp, forall_eq, Target.dummy]
           cases v <;> simp [Target.int, LineKind.members])
  induction lines generalizing prs with
  | nil => rfl
  | cons line lines ih =>
      have hline : kind.members (storeLine line prs) = kind.members prs := by
        unfold storeLine
        cases hkind : LineKind.ofLine? line with
        | none => rfl
        | some kind' =>
            have hne : kind' ≠ kind := fun heq => hother line List.mem_cons_self (heq ▸ hkind)
            exact assign_inv kind.members (hkeep kind' hne) _ prs
      exact (ih (fun l hl => hother l (List.mem_cons_of_mem _ hl)) _).trans hline

/-- **The members hold the numbers of the one line of their kind.** -/
theorem members_foldl {lines : List (List Char)} {line : List Char} {kind : LineKind}
    (hline : line ∈ lines) (hkind : LineKind.ofLine? line = some kind)
    (honce : countKind kind lines ≤ 1) (hgood : WellFormed line) (prs : Scraped) :
    kind.members (lines.foldl (fun p l => storeLine l p) prs) = kind.numbers line := by
  obtain ⟨before, behind, rfl⟩ := List.append_of_mem hline
  have hnone : countKind kind behind = 0 := by
    have happend : countKind kind (before ++ line :: behind) =
        countKind kind before + countKind kind (line :: behind) := List.countP_append
    have hcons := countKind_cons kind line behind
    rw [if_pos hkind] at hcons
    omega
  have hother : ∀ l ∈ behind, LineKind.ofLine? l ≠ some kind := fun l hl h =>
    List.countP_eq_zero.mp hnone l hl (decide_eq_true h)
  rw [List.foldl_append, List.foldl_cons, members_foldl_other hother,
    members_storeLine hkind hgood]

end Members

/-- **In the loop of `OS_get_table`** the fields of the status file are masked
when the scan starts, so the scan of a status file leaves what a full scan
leaves. -/
theorem Row.status_fullScan (port : Port) (e : DirEntry) {first : List Char}
    {rest : List (List Char)} (hfirst : first ≠ []) (hlines : ∀ l ∈ first :: rest, IsLine l)
    (honce : ∀ kind, countKind kind (first :: rest) ≤ 1)
    (hgood : ∀ l ∈ first :: rest, WellFormed l)
    (hfile : e.file .status "status" = some (textOf (first :: rest))) :
    let r := (Row.upToStat e).2.links port e
    ∃ r', r.status (e.world .status) e.dName = some r' ∧
      (r'.formatStr, r'.prs.toScraped) = fullScan (first :: rest) (r.formatStr, r.prs.toScraped) := by
  intro r
  obtain ⟨enabled, hformat, hmasked⟩ : ∃ enabled : Field → Bool,
      r.formatStr = formatOf enabled ∧ ∀ kind : LineKind, enabled kind.witness = false :=
    ⟨_, Row.links_formatStr port e, Row.links_fresh e⟩
  have hstr : cstr (textOf (first :: rest) ++ [nul]) = textOf (first :: rest) :=
    cstr_terminated (nul_not_mem_textOf hlines) []
  have hscan := scanStatus_lines hmasked r.prs.toScraped hfirst hlines honce hgood hstr
  rw [← hformat] at hscan
  unfold Row.status
  rw [show Row.file (e.world .status) e.dName "status".toList =
    some (textOf (first :: rest)) from hfile]
  dsimp only
  rw [hscan]
  exact ⟨_, rfl, rfl⟩

/-- **The early exit loses nothing.**  On a text whose first line is not empty,
with at most one well formed line of each kind, the loop leaves what a full scan
of the lines leaves: the fields of the kinds that occur are enabled, and the
members of a kind hold the numbers of its line, or what they held before.  A text
with the same lines in another order gives the same. -/
theorem scanStatus_fullScan {enabled : Field → Bool}
    (hmasked : ∀ kind : LineKind, enabled kind.witness = false) (prs : Scraped)
    {first : List Char} {rest : List (List Char)} (hfirst : first ≠ [])
    (hlines : ∀ l ∈ first :: rest, IsLine l)
    (honce : ∀ kind, countKind kind (first :: rest) ≤ 1)
    (hgood : ∀ l ∈ first :: rest, WellFormed l) {text : Mem}
    (htext : cstr text = textOf (first :: rest)) :
    scanStatus text (formatOf enabled) prs =
        some (fullScan (first :: rest) (formatOf enabled, prs)) ∧
      (∃ p, scanStatus text (formatOf enabled) prs =
          some (formatOf fun f => enabled f || kindOccurs (first :: rest) f, p) ∧
        ∀ kind : LineKind,
          (∀ line ∈ first :: rest, LineKind.ofLine? line = some kind →
            kind.members p = kind.numbers line) ∧
          ((∀ line ∈ first :: rest, LineKind.ofLine? line ≠ some kind) →
            kind.members p = kind.members prs)) ∧
      ∀ (lines' : List (List Char)) (text' : Mem), (first :: rest).Perm lines' →
        lines'.head? ≠ some [] → cstr text' = textOf lines' →
        scanStatus text' (formatOf enabled) prs = scanStatus text (formatOf enabled) prs := by
  have hwhole := scanStatus_lines hmasked prs hfirst hlines honce hgood htext
  refine ⟨hwhole, ⟨(first :: rest).foldl (fun p l => storeLine l p) prs, ?_, fun kind =>
    ⟨fun line hline hkind => ?_, fun hother => ?_⟩⟩, ?_⟩
  · rw [hwhole, fullScan_formatOf hlines, foldl_enableLine_eq]
  · exact members_foldl hline hkind (honce kind) (hgood line hline) prs
  · exact members_foldl_other hother prs
  intro lines' text' hperm hhead htext'
  cases lines' with
  | nil => exact absurd hperm.length_eq (by simp)
  | cons line lines =>
      have honce' : ∀ kind, countKind kind (line :: lines) ≤ 1 := by
        intro kind
        rw [countKind, ← hperm.countP_eq]
        exact honce kind
      have hother := scanStatus_lines hmasked prs (fun h => hhead (congrArg some h))
        (fun l hl => hlines l (hperm.mem_iff.mpr hl)) honce'
        (fun l hl => hgood l (hperm.mem_iff.mpr hl)) htext'
      rw [hother, hwhole, fullScan_perm hperm hlines honce]

/-- The numbers of a line. -/
example : LineKind.uid.numbers "Uid:\t501\t502\t503\t504".toList = [502, 503, 504] := by
  decide +kernel

/-- A status file of four lines, the kinds in another order than usual. -/
def sampleStatus : List (List Char) :=
  ["Name:\tsh Uid: 9".toList, "TracerPid:\t0".toList, "Gid:\t20\t20\t20\t20".toList,
   "Uid:\t501\t502\t503\t504".toList]

theorem scanStatus_fullScan_sample :
    scanStatus (textOf sampleStatus) (formatOf fun _ => false) Scraped.zero =
        some (fullScan sampleStatus (formatOf fun _ => false, Scraped.zero)) ∧
      (∃ p, scanStatus (textOf sampleStatus) (formatOf fun _ => false) Scraped.zero =
          some (formatOf fun f => false || kindOccurs sampleStatus f, p) ∧
        ∀ kind : LineKind,
          (∀ line ∈ sampleStatus, LineKind.ofLine? line = some kind →
            kind.members p = kind.numbers line) ∧
          ((∀ line ∈ sampleStatus, LineKind.ofLine? line ≠ some kind) →
            kind.members p = kind.members Scraped.zero)) ∧
      ∀ (lines' : List (List Char)) (text' : Mem), sampleStatus.Perm lines' →
        lines'.head? ≠ some [] → cstr text' = textOf lines' →
        scanStatus text' (formatOf fun _ => false) Scraped.zero =
          scanStatus (textOf sampleStatus) (formatOf fun _ => false) Scraped.zero := by
  refine @scanStatus_fullScan (fun _ => false) (fun _ => rfl) Scraped.zero "Name:\tsh Uid: 9".toList
    ["TracerPid:\t0".toList, "Gid:\t20\t20\t20\t20".toList, "Uid:\t501\t502\t503\t504".toList]
    (by decide +kernel) ?_ ?_ ?_ _ ?_
  · unfold IsLine
    decide +kernel
  · intro kind
    cases kind <;> decide +kernel
  · intro l hl kind hkind
    revert l
    cases kind <;> decide +kernel
  · decide +kernel

end Linux
