import ProcProcessTable.LinuxFormatFlags
import ProcProcessTable.LineLoop
import ProcProcessTable.Scanf

/-!
# The status file

`get_proc_status` looks at `/proc/<pid>/status` line by line.  A `Uid:`,
`Gid:` or `TracerPid:` line is scanned and its fields are enabled, whatever the
scan found; the loop ends early once all three kinds have been seen.

`scanStatus_formatOf` says which fields are enabled by it: those of the kinds
that occur in `linesRead`, the lines up to the one that completes the kinds.
-/

namespace Linux

open CText Scanf

/-- The number list of a `Uid:` or `Gid:` line, and of a `TracerPid:` line. -/
def idFormat : List Directive := directives " %d %d %d %d".toList
def tracerFormat : List Directive := directives " %d".toList

/-- The pointers the scans of the three lines store through. -/
def uidTargets : List (Target Scraped) :=
  [Target.dummy,
   Target.int fun v p => { p with euid := Int32.ofInt v },
   Target.int fun v p => { p with suid := Int32.ofInt v },
   Target.int fun v p => { p with fuid := Int32.ofInt v }]

def gidTargets : List (Target Scraped) :=
  [Target.dummy,
   Target.int fun v p => { p with egid := Int32.ofInt v },
   Target.int fun v p => { p with sgid := Int32.ofInt v },
   Target.int fun v p => { p with fgid := Int32.ofInt v }]

def tracerTargets : List (Target Scraped) :=
  [Target.int fun v p => { p with tracer := Int32.ofInt v }]

/-- The line prefixes. -/
def uidPrefix : List Char := ['U', 'i', 'd', ':']
def gidPrefix : List Char := ['G', 'i', 'd', ':']
def tracerPrefix : List Char := ['T', 'r', 'a', 'c', 'e', 'r', 'P', 'i', 'd', ':']

/-- The body of the loop of `get_proc_status`. -/
def statusBody (loc : Mem) (s : Mem × Scraped) : (Mem × Scraped) × Bool :=
  let (formatStr, prs) := s
  let (formatStr, prs) :=
    if startsWith loc uidPrefix then
      (fieldEnableRange formatStr .euid .fuid, assign uidTargets (sscanf (loc.drop 4) idFormat) prs)
    else if startsWith loc gidPrefix then
      (fieldEnableRange formatStr .egid .fgid, assign gidTargets (sscanf (loc.drop 4) idFormat) prs)
    else if startsWith loc tracerPrefix then
      (fieldEnable formatStr .tracer, assign tracerTargets (sscanf (loc.drop 10) tracerFormat) prs)
    else (formatStr, prs)
  -- short circuit condition
  ((formatStr, prs),
    isEnabled formatStr .euid && isEnabled formatStr .egid && isEnabled formatStr .tracer)

/-- `get_proc_status` between reading the text and releasing it; `none` is a
loop that does not end. -/
def scanStatus (statusText : Mem) (formatStr : Mem) (prs : Scraped) : Option (Mem × Scraped) :=
  LineLoop.loop statusBody statusText (formatStr, prs)

/-- The kinds of line that are looked for. -/
inductive LineKind
  | uid | gid | tracer
  deriving DecidableEq, Repr

namespace LineKind

/-- The kind of a line, by its prefix. -/
def ofLine? (line : List Char) : Option LineKind :=
  if uidPrefix.isPrefixOf line then some .uid
  else if gidPrefix.isPrefixOf line then some .gid
  else if tracerPrefix.isPrefixOf line then some .tracer
  else none

/-- The length of the prefix, the numbers behind it, and where they go. -/
def skip : LineKind → Nat
  | uid | gid => 4
  | tracer => 10

def format : LineKind → List Directive
  | uid | gid => idFormat
  | tracer => tracerFormat

def targets : LineKind → List (Target Scraped)
  | uid => uidTargets
  | gid => gidTargets
  | tracer => tracerTargets

/-- The fields that a line of the kind enables. -/
def fields : LineKind → Field → Bool
  | uid, f => decide (Field.euid.idx ≤ f.idx ∧ f.idx ≤ Field.fuid.idx)
  | gid, f => decide (Field.egid.idx ≤ f.idx ∧ f.idx ≤ Field.fgid.idx)
  | tracer, f => decide (f = .tracer)

/-- The field that stands for the kind in the short circuit condition. -/
def witness : LineKind → Field
  | uid => .euid
  | gid => .egid
  | tracer => .tracer

/-- The values of a line. -/
def scanLine (kind : LineKind) (line : List Char) : List Value :=
  sscanf (line.drop kind.skip) kind.format

end LineKind

/-- All three kinds are enabled. -/
def kindsSeen (enabled : Field → Bool) : Bool :=
  enabled .euid && enabled .egid && enabled .tracer

/-- The fields enabled after a line. -/
def enableLine (enabled : Field → Bool) (line : List Char) : Field → Bool :=
  match LineKind.ofLine? line with
  | some kind => fun f => enabled f || kind.fields f
  | none => enabled

/-- The members after a line. -/
def storeLine (line : List Char) (prs : Scraped) : Scraped :=
  match LineKind.ofLine? line with
  | some kind => assign kind.targets (kind.scanLine line) prs
  | none => prs

/-- The lines up to the one with which all three kinds have been seen. -/
def linesRead : List (List Char) → (Field → Bool) → List (List Char)
  | [], _ => []
  | line :: lines, enabled =>
      if kindsSeen (enableLine enabled line) then [line]
      else line :: linesRead lines (enableLine enabled line)

/-- The loop reads its text as a string. -/
theorem statusBody_readsString : LineLoop.ReadsString statusBody := by
  intro m s
  have hstart : ∀ lit, startsWith (cstr m) lit = startsWith m lit := by
    intro lit
    rw [startsWith, startsWith, cstr_cstr]
  have hscan : ∀ lit, startsWith m lit = true → ∀ fmt,
      sscanf ((cstr m).drop lit.length) fmt = sscanf (m.drop lit.length) fmt := by
    intro lit hlit fmt
    have hle : lit.length ≤ strlen m := (List.isPrefixOf_iff_prefix.mp hlit).length_le
    have hle' : lit.length ≤ strlen (cstr m) := by rwa [strlen, cstr_cstr]
    rw [sscanf, sscanf, cstr_drop hle, cstr_drop hle', cstr_cstr]
  obtain ⟨formatStr, prs⟩ := s
  unfold statusBody
  simp only [hstart]
  by_cases hu : startsWith m uidPrefix = true
  · have h : sscanf ((cstr m).drop 4) idFormat = sscanf (m.drop 4) idFormat :=
      hscan uidPrefix hu idFormat
    simp only [hu, if_true, h]
  · by_cases hg : startsWith m gidPrefix = true
    · have h : sscanf ((cstr m).drop 4) idFormat = sscanf (m.drop 4) idFormat :=
        hscan gidPrefix hg idFormat
      simp only [hu, hg, if_true, Bool.false_eq_true, if_false, h]
    · by_cases ht : startsWith m tracerPrefix = true
      · have h : sscanf ((cstr m).drop 10) tracerFormat = sscanf (m.drop 10) tracerFormat :=
          hscan tracerPrefix ht tracerFormat
        simp only [hu, hg, ht, if_true, Bool.false_eq_true, if_false, h]
      · simp only [hu, hg, ht, Bool.false_eq_true, if_false]

/-- One line, on the set of enabled fields. -/
theorem statusBody_formatOf {line : List Char} (hline : cstr line = line) (enabled : Field → Bool)
    (prs : Scraped) :
    statusBody line (formatOf enabled, prs) =
      ((formatOf (enableLine enabled line), storeLine line prs),
        kindsSeen (enableLine enabled line)) := by
  unfold statusBody enableLine storeLine LineKind.ofLine? startsWith
  rw [hline]
  by_cases hu : uidPrefix.isPrefixOf line = true
  · simp only [hu, if_true]
    rw [fieldEnableRange_formatOf enabled (by decide)]
    simp only [isEnabled_formatOf]
    rfl
  · by_cases hg : gidPrefix.isPrefixOf line = true
    · simp only [hu, hg, if_true, Bool.false_eq_true, if_false]
      rw [fieldEnableRange_formatOf enabled (by decide)]
      simp only [isEnabled_formatOf]
      rfl
    · by_cases ht : tracerPrefix.isPrefixOf line = true
      · simp only [hu, hg, ht, if_true, Bool.false_eq_true, if_false]
        rw [fieldEnable_formatOf]
        simp only [isEnabled_formatOf]
        rfl
      · simp only [hu, hg, ht, Bool.false_eq_true, if_false, isEnabled_formatOf]
        rfl

/-- A run over lines, on the set of enabled fields. -/
theorem scan_formatOf {lines : List (List Char)} (hlines : ∀ l ∈ lines, cstr l = l)
    (enabled : Field → Bool) (prs : Scraped) :
    LineLoop.scan statusBody lines (formatOf enabled, prs) =
      (formatOf ((linesRead lines enabled).foldl enableLine enabled),
        (linesRead lines enabled).foldl (fun p l => storeLine l p) prs) := by
  induction lines generalizing enabled prs with
  | nil => rfl
  | cons line lines ih =>
      have hrest := ih (fun l hl => hlines l (List.mem_cons_of_mem _ hl))
        (enableLine enabled line) (storeLine line prs)
      rw [LineLoop.scan, statusBody_formatOf (hlines line List.mem_cons_self), linesRead]
      cases hseen : kindsSeen (enableLine enabled line) with
      | true => rfl
      | false => exact hrest

/-- The lines of a status text that are looked at, from the fields enabled
before. -/
def statusLines (text : List Char) (enabled : Field → Bool) : List (List Char) :=
  linesRead (LineLoop.lineStarts (cstr text)) enabled

/-- **What the status scan leaves** on a text that does not begin with a
newline. -/
theorem scanStatus_formatOf {text : Mem} (hhead : (cstr text).head? ≠ some '\n')
    (enabled : Field → Bool) (prs : Scraped) :
    scanStatus text (formatOf enabled) prs =
      some (formatOf ((statusLines text enabled).foldl enableLine enabled),
        (statusLines text enabled).foldl (fun p l => storeLine l p) prs) := by
  rw [scanStatus, LineLoop.loop_eq_scan statusBody statusBody_readsString _ hhead,
    scan_formatOf (LineLoop.cstr_lineStart (nul_not_mem_cstr text))]
  rfl

/-- **A status text that begins with a newline is never left**, as long as one
of the kinds is missing. -/
theorem scanStatus_hangs {text : Mem} (hhead : (cstr text).head? = some '\n')
    {enabled : Field → Bool} (hseen : kindsSeen enabled = false) (prs : Scraped) :
    scanStatus text (formatOf enabled) prs = none := by
  apply LineLoop.run_eq_none statusBody hhead
  have hkind : LineKind.ofLine? (cstr text) = none := by
    cases hc : cstr text with
    | nil => rw [hc] at hhead; cases hhead
    | cons c t =>
        rw [hc] at hhead
        obtain rfl : c = '\n' := Option.some.inj hhead
        rfl
  rw [statusBody_readsString, statusBody_formatOf (cstr_cstr text), enableLine, storeLine, hkind]
  simp only [hseen]

/-- The text is read as a string. -/
theorem scanStatus_congr {m m' : Mem} (h : cstr m = cstr m') (formatStr : Mem) (prs : Scraped) :
    scanStatus m formatStr prs = scanStatus m' formatStr prs :=
  LineLoop.loop_congr statusBody statusBody_readsString h (formatStr, prs)

/-- A field is enabled after the lines if it was before, or a line of its kind
is among them. -/
theorem foldl_enableLine (lines : List (List Char)) (enabled : Field → Bool) (f : Field) :
    lines.foldl enableLine enabled f = true ↔
      enabled f = true ∨
        ∃ l ∈ lines, ∃ kind, LineKind.ofLine? l = some kind ∧ kind.fields f = true := by
  induction lines generalizing enabled with
  | nil => simp
  | cons line lines ih =>
      rw [List.foldl_cons, ih]
      have hline : enableLine enabled line f = true ↔
          enabled f = true ∨ ∃ kind, LineKind.ofLine? line = some kind ∧ kind.fields f = true := by
        unfold enableLine
        cases LineKind.ofLine? line with
        | none => simp
        | some kind => simp
      rw [hline, or_assoc]
      refine or_congr_right ?_
      simp only [List.mem_cons, exists_eq_or_imp]

end Linux
