import ProcProcessTable.StatusOrder
import ProcProcessTable.UserIds

/-!
# A rendered status file is scanned back

The kernel prints `/proc/<pid>/status` line by line, a word and a colon at the
start of each.  Three of the lines are looked at by `get_proc_status`; the
numbers behind them are printed with a tab in front of each, the ids without a
sign.

`StatusRecord.status_render` says which members the scan of such a file leaves,
and `StatusRecord.statusOccurs_render` which flags it lowers.
-/

namespace Linux

open CText Scanf

/-- A line that is none of the three. -/
def PlainLine (line : List Char) : Prop := IsLine line ∧ LineKind.ofLine? line = none

/-- One process in the words of its status file: what stands before the line of
the tracer, the three lines, and what stands behind them. -/
structure StatusRecord where
  before : List (List Char)
  tracer : Int32
  ruid : UInt32
  euid : UInt32
  suid : UInt32
  fuid : UInt32
  rgid : UInt32
  egid : UInt32
  sgid : UInt32
  fgid : UInt32
  behind : List (List Char)
  before_first : before.head? ≠ some []
  before_plain : ∀ l ∈ before, PlainLine l
  behind_plain : ∀ l ∈ behind, PlainLine l

/-- A number behind a tab. -/
def tabbed (x : Int) : SpacedToken where
  blank := ['\t']
  token := .ofInt x
  blank_ne := List.cons_ne_nil _ _
  blank_isSpace := List.forall_mem_singleton.mpr rfl

/-- A word, and its numbers behind it. -/
def wordLine (word : List Char) (numbers : List Int) : List Char :=
  word ++ (numbers.map tabbed).flatMap SpacedToken.text

/-- The word a kind of line starts with. -/
def LineKind.word : LineKind → List Char
  | uid => uidPrefix
  | gid => gidPrefix
  | tracer => tracerPrefix

namespace StatusRecord

variable (s : StatusRecord)

/-- The numbers of a line. -/
def numbers : LineKind → List Int
  | .uid => [s.ruid.toNat, s.euid.toNat, s.suid.toNat, s.fuid.toNat]
  | .gid => [s.rgid.toNat, s.egid.toNat, s.sgid.toNat, s.fgid.toNat]
  | .tracer => [s.tracer.toInt]

/-- The line of a kind. -/
def line (kind : LineKind) : List Char := wordLine kind.word (s.numbers kind)

/-- The lines of the file, the last one empty behind the final newline. -/
def lines : List (List Char) :=
  s.before ++ s.line .tracer :: s.line .uid :: s.line .gid :: (s.behind ++ [[]])

/-- The file the kernel prints. -/
def render : List Char := textOf s.lines

/-- The members the file determines. -/
def store (prs : Scraped) : Scraped :=
  { prs with
    tracer := s.tracer
    euid := s.euid.toInt32
    suid := s.suid.toInt32
    fuid := s.fuid.toInt32
    egid := s.egid.toInt32
    sgid := s.sgid.toInt32
    fgid := s.fgid.toInt32 }

end StatusRecord

/-- A line is of the kind whose word it starts with. -/
theorem ofLine?_wordLine (kind : LineKind) (numbers : List Int) :
    LineKind.ofLine? (wordLine kind.word numbers) = some kind := by
  have hprefix : kind.word.isPrefixOf (wordLine kind.word numbers) = true :=
    List.isPrefixOf_iff_prefix.mpr (List.prefix_append _ _)
  cases kind with
  | uid => exact if_pos hprefix
  | gid =>
      refine Eq.trans (if_neg ?_) (if_pos hprefix)
      exact Bool.false_ne_true
  | tracer =>
      refine Eq.trans (if_neg ?_) (Eq.trans (if_neg ?_) (if_pos hprefix))
      · exact Bool.false_ne_true
      · exact Bool.false_ne_true

/-- Every character behind the word is a tab, a sign or a digit. -/
theorem mem_wordLine {word : List Char} {numbers : List Int} {c : Char}
    (h : c ∈ wordLine word numbers) :
    c ∈ word ∨ c = '\t' ∨ c = '-' ∨ c = '+' ∨ c.isDigit = true := by
  rcases List.mem_append.mp h with h | h
  · exact Or.inl h
  · obtain ⟨t, ht, hc⟩ := List.mem_flatMap.mp h
    obtain ⟨x, _, rfl⟩ := List.mem_map.mp ht
    rcases List.mem_append.mp hc with hc | hc
    · exact Or.inr (Or.inl (List.mem_singleton.mp hc))
    · exact Or.inr (Or.inr (DecimalToken.mem_text hc))

theorem isLine_wordLine {word : List Char} (hword : IsLine word) (numbers : List Int) :
    IsLine (wordLine word numbers) := by
  constructor
  · intro h
    rcases mem_wordLine h with h | h
    · exact hword.1 h
    · revert h
      decide
  · intro h
    rcases mem_wordLine h with h | h
    · exact hword.2 h
    · revert h
      decide

theorem LineKind.isLine_word (kind : LineKind) : IsLine kind.word := by
  unfold IsLine
  cases kind <;> decide

/-- **The numbers of a line are read back.** -/
theorem scanLine_wordLine (kind : LineKind) {numbers : List Int}
    (hlen : numbers.length = kind.convs.length) :
    kind.scanLine (wordLine kind.word numbers) =
      (kind.convs.zip (numbers.map tabbed)).map fun it => .num (it.2.value it.1) := by
  have hskip : kind.skip = kind.word.length := by cases kind <;> rfl
  have hdrop : (wordLine kind.word numbers).drop kind.skip =
      (numbers.map tabbed).flatMap SpacedToken.text := by
    rw [hskip, wordLine, List.drop_left]
  have hline := isLine_wordLine kind.isLine_word numbers
  have hfree : nul ∉ (numbers.map tabbed).flatMap SpacedToken.text := fun h =>
    hline.2 (List.mem_append_right _ h)
  have hends : EndsNumber [] := fun c hc => by cases hc
  have hscan := scan_spacedTokens (kind.convs.zip (numbers.map tabbed)) hends
  have hzip : (numbers.map tabbed).length = kind.convs.length := by rw [List.length_map, hlen]
  rw [List.map_fst_zip (by omega), List.map_snd_zip (by omega), List.append_nil] at hscan
  rw [LineKind.scanLine, hdrop, sscanf, cstr_of_nulFree hfree, format_eq, hscan]

/-- An id is read into an `int` as its 32 bits. -/
theorem uint32_stored_signed (n : UInt32) :
    Int32.ofInt ((tabbed n.toNat).value .d) = n.toInt32 := by
  have hlt := n.toNat_lt
  rw [toInt32_eq_ofInt, SpacedToken.value, tabbed, DecimalToken.ofInt_neg,
    DecimalToken.ofInt_magnitude, Conv.value, strtol_ofInt (by omega) (by omega)]

theorem int32_stored_signed (x : Int32) : Int32.ofInt ((tabbed x.toInt).value .d) = x :=
  ProcessRecord.int32_stored x

namespace StatusRecord

variable (s : StatusRecord)

theorem length_numbers (kind : LineKind) : (s.numbers kind).length = kind.convs.length := by
  cases kind <;> rfl

theorem ofLine?_line (kind : LineKind) : LineKind.ofLine? (s.line kind) = some kind :=
  ofLine?_wordLine kind (s.numbers kind)

/-- What a line stores. -/
theorem storeLine_line (kind : LineKind) (prs : Scraped) :
    storeLine (s.line kind) prs =
      match kind with
      | .uid => { prs with
          euid := s.euid.toInt32, suid := s.suid.toInt32, fuid := s.fuid.toInt32 }
      | .gid => { prs with
          egid := s.egid.toInt32, sgid := s.sgid.toInt32, fgid := s.fgid.toInt32 }
      | .tracer => { prs with tracer := s.tracer } := by
  have hline := s.ofLine?_line kind
  have hscan := scanLine_wordLine kind (s.length_numbers kind)
  rw [storeLine, hline]
  dsimp only
  rw [line, hscan]
  cases kind <;>
    simp only [assign, LineKind.targets, uidTargets, gidTargets, tracerTargets, LineKind.convs,
      numbers, List.map_cons, List.map_nil, List.zip_cons_cons, List.zip_nil_right,
      List.foldl_cons, List.foldl_nil, Target.int, Target.dummy, uint32_stored_signed,
      int32_stored_signed]

/-- Every line is a line. -/
theorem isLine_of_mem {l : List Char} (h : l ∈ s.lines) : IsLine l := by
  have hline : ∀ kind, IsLine (s.line kind) := fun kind =>
    isLine_wordLine kind.isLine_word (s.numbers kind)
  simp only [lines, List.mem_append, List.mem_cons, List.not_mem_nil, or_false] at h
  rcases h with h | rfl | rfl | rfl | h | rfl
  · exact (s.before_plain l h).1
  · exact hline .tracer
  · exact hline .uid
  · exact hline .gid
  · exact (s.behind_plain l h).1
  · exact ⟨List.not_mem_nil, List.not_mem_nil⟩

/-- Plain lines are of no kind. -/
theorem countKind_plain {lines : List (List Char)} (h : ∀ l ∈ lines, PlainLine l)
    (kind : LineKind) : countKind kind lines = 0 := by
  refine List.countP_eq_zero.mpr fun l hl => ?_
  rw [(h l hl).2]
  simp

theorem plain_behind : ∀ l ∈ s.behind ++ [[]], PlainLine l := by
  intro l hl
  rcases List.mem_append.mp hl with hl | hl
  · exact s.behind_plain l hl
  · rw [List.mem_singleton.mp hl]
    exact ⟨⟨List.not_mem_nil, List.not_mem_nil⟩, rfl⟩

/-- There is one line of each kind. -/
theorem countKind_lines (kind : LineKind) : countKind kind s.lines = 1 := by
  have happend : ∀ ls ls' : List (List Char), countKind kind (ls ++ ls') =
      countKind kind ls + countKind kind ls' := fun ls ls' => List.countP_append
  rw [lines, happend, countKind_plain s.before_plain, countKind_cons, countKind_cons,
    countKind_cons, countKind_plain s.plain_behind, s.ofLine?_line, s.ofLine?_line,
    s.ofLine?_line]
  cases kind <;> rfl

/-- Each of them gives all its numbers. -/
theorem wellFormed_of_mem {l : List Char} (h : l ∈ s.lines) : WellFormed l := by
  have hline : ∀ kind, WellFormed (s.line kind) := by
    intro kind kind' hkind
    rw [s.ofLine?_line kind] at hkind
    obtain rfl := Option.some.inj hkind
    rw [line, scanLine_wordLine kind (s.length_numbers kind)]
    cases kind <;> rfl
  have hplain : ∀ {l}, PlainLine l → WellFormed l := by
    intro l hl kind hkind
    rw [hl.2] at hkind
    cases hkind
  simp only [lines, List.mem_append, List.mem_cons, List.not_mem_nil, or_false] at h
  rcases h with h | rfl | rfl | rfl | h | rfl
  · exact hplain (s.before_plain l h)
  · exact hline .tracer
  · exact hline .uid
  · exact hline .gid
  · exact hplain (s.behind_plain l h)
  · exact hplain ⟨⟨List.not_mem_nil, List.not_mem_nil⟩, rfl⟩

/-- The first line is not empty. -/
theorem exists_first : ∃ first rest, s.lines = first :: rest ∧ first ≠ [] := by
  have hfirst := s.before_first
  unfold lines
  cases hbefore : s.before with
  | nil =>
      refine ⟨s.line .tracer, _, rfl, ?_⟩
      exact List.append_ne_nil_of_left_ne_nil (List.cons_ne_nil _ _) _
  | cons l ls =>
      rw [hbefore] at hfirst
      exact ⟨l, _, rfl, fun h => hfirst (congrArg some h)⟩

/-- **What the lines leave**: the three lines store and enable their own. -/
theorem foldl_lines (enabled : Field → Bool) (prs : Scraped) :
    s.lines.foldl enableLine enabled =
        (fun f => enabled f || (Field.between .euid .fgid f || decide (f = .tracer))) ∧
      s.lines.foldl (fun p l => storeLine l p) prs = s.store prs := by
  obtain ⟨hon, hstore⟩ := foldl_noKinds (countKind_plain s.before_plain) enabled prs
  constructor
  · rw [lines, List.foldl_append, hon, List.foldl_cons, List.foldl_cons, List.foldl_cons,
      (foldl_noKinds (countKind_plain s.plain_behind) _ prs).1]
    unfold enableLine
    rw [s.ofLine?_line, s.ofLine?_line, s.ofLine?_line]
    funext f
    dsimp only
    cases enabled f <;> cases f <;> rfl
  · rw [lines, List.foldl_append, hstore, List.foldl_cons, List.foldl_cons, List.foldl_cons,
      s.storeLine_line, s.storeLine_line, s.storeLine_line,
      (foldl_noKinds (countKind_plain s.plain_behind) enabled _).2]
    rfl

/-- **The status file returns.**  In the loop of `OS_get_table` the scan of a
rendered status file sets the record's members and leaves the others. -/
theorem status_render (port : Port) {e : DirEntry}
    (hfile : e.file .status "status" = some s.render) :
    ∃ r', ((Row.upToStat e).2.links port e).status (e.world .status) e.dName = some r' ∧
      r'.prs.toScraped = s.store ((Row.upToStat e).2.links port e).prs.toScraped := by
  obtain ⟨first, rest, hlines, hfirst⟩ := s.exists_first
  have hline := @isLine_of_mem s
  have hgood := @wellFormed_of_mem s
  have honce := s.countKind_lines
  have hrender : s.render = textOf (first :: rest) := congrArg textOf hlines
  have hfold := (s.foldl_lines (fun _ => false)
    ((Row.upToStat e).2.links port e).prs.toScraped).2
  rw [hlines] at hline hgood honce hfold
  obtain ⟨r', hstatus, hscan⟩ := Row.status_fullScan port e hfirst (fun l hl => hline hl)
    (fun kind => Nat.le_of_eq (honce kind)) (fun l hl => hgood hl) (hrender ▸ hfile)
  refine ⟨r', hstatus, ?_⟩
  rw [Row.links_formatStr, fullScan_formatOf fun l hl => hline hl, hfold] at hscan
  exact congrArg Prod.snd hscan

/-- The fields of the file are enabled, and no others. -/
theorem statusOccurs_render {e : DirEntry} (hfile : e.file .status "status" = some s.render)
    (f : Field) :
    e.statusOccurs f = (Field.between .euid .fgid f || decide (f = .tracer)) := by
  obtain ⟨first, rest, hlines, _⟩ := s.exists_first
  have hline := @isLine_of_mem s
  have hgood := @wellFormed_of_mem s
  have honce := s.countKind_lines
  have hfold := (s.foldl_lines (fun _ => false) .zero).1
  rw [hlines] at hline hgood honce hfold
  have hread := (@foldl_linesRead (first :: rest) (fun l hl => hline hl) (fun l hl => hgood hl)
    (fun kind => Nat.le_of_eq (honce kind)) (fun _ => false)
    (fun kind h => Bool.noConfusion h) .zero).1
  have hvisited : visitedLines s.render =
      linesRead (textsFrom (first :: rest)) fun _ => false := by
    rw [visitedLines, statusLines, render, hlines,
      cstr_of_nulFree (nul_not_mem_textOf fun l hl => hline hl),
      lineStarts_textOf fun l hl => hline hl]
  rw [DirEntry.statusOccurs, hfile, Option.any_some, hvisited]
  rw [hfold, foldl_enableLine_eq] at hread
  exact congrFun hread f

/-- A rendered status file ends the loop over its lines. -/
theorem statusEnds_render {e : DirEntry} (hfile : e.file .status "status" = some s.render) :
    e.statusEnds := by
  obtain ⟨first, rest, hlines, hfirst⟩ := s.exists_first
  intro text htext
  rw [hfile] at htext
  obtain rfl := Option.some.inj htext
  have hline := @isLine_of_mem s
  rw [hlines] at hline
  rw [render, hlines, cstr_of_nulFree (nul_not_mem_textOf fun l hl => hline hl)]
  obtain ⟨more, hmore, _⟩ := textOf_cons first rest
  rw [hmore]
  cases first with
  | nil => exact absurd rfl hfirst
  | cons c first =>
      intro hc
      apply (hline List.mem_cons_self).1
      rw [Option.some.inj hc]
      exact List.mem_cons_self

end StatusRecord

end Linux
