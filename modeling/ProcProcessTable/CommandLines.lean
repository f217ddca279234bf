import ProcProcessTable.ArraySplit
import ProcProcessTable.TableObjects

/-!
# The two views of a command line

`/proc/<pid>/cmdline` holds the arguments one behind the other, each with a NUL.
`get_proc_cmndline` publishes it as one string, with blanks for all NULs but the
last byte; `get_proc_cmdline` publishes the array of its strings.  The string is
the array joined with blanks as long as the length of the content fits an `int`
(`splitStrings_joined`), and never beyond that (`command_lines_agree_iff`).
-/

namespace Linux

open CText Scanf MemPool Xs

/-- The string published for a content. -/
def cmndlineOf (content : List Char) : List Char :=
  cstr (nulsToSpaces content content.length ++ [nul])

theorem nulsToSpaces_cons (x : Char) {content : List Char} (h : content ≠ []) :
    nulsToSpaces (x :: content) (x :: content).length =
      (if x = nul then ' ' else x) :: nulsToSpaces content content.length := by
  obtain ⟨y, rest, rfl⟩ := List.exists_cons_of_ne_nil h
  simp [nulsToSpaces]

/-- Every byte but the last is published, a NUL as a blank. -/
theorem cmndlineOf_cons (x : Char) {content : List Char} (h : content ≠ []) :
    cmndlineOf (x :: content) = (if x = nul then ' ' else x) :: cmndlineOf content := by
  have hne : (if x = nul then ' ' else x) ≠ nul := by
    by_cases hx : x = nul
    · rw [if_pos hx]
      decide
    · rw [if_neg hx]
      exact hx
  rw [cmndlineOf, nulsToSpaces_cons x h, List.cons_append, cstr, List.takeWhile_cons,
    if_pos (by simpa using hne)]
  rfl

theorem cmndlineOf_nil : cmndlineOf [] = [] := by
  decide

/-- The last byte is published unless it is a NUL. -/
theorem cmndlineOf_singleton (x : Char) : cmndlineOf [x] = if x = nul then [] else [x] := by
  have hlast : cmndlineOf [x] = cstr [x, nul] := rfl
  rw [hlast]
  by_cases hx : x = nul
  · rw [if_pos hx, hx]
    decide
  · rw [if_neg hx]
    exact cstr_terminated (fun h => hx (List.mem_singleton.mp h).symm) []

/-- The string has all bytes but the last. -/
theorem length_cmndlineOf (content : List Char) :
    content.length ≤ (cmndlineOf content).length + 1 := by
  induction content with
  | nil => exact Nat.zero_le _
  | cons x content ih =>
      cases content with
      | nil => exact Nat.le_add_left 1 _
      | cons y rest =>
          rw [cmndlineOf_cons x (List.cons_ne_nil y rest), List.length_cons]
          exact Nat.succ_le_succ ih

/-- A string without NULs stands in front of what is published for the rest. -/
theorem cmndlineOf_append {word : List Char} (hword : nul ∉ word) {content : List Char}
    (h : content ≠ []) : cmndlineOf (word ++ content) = word ++ cmndlineOf content := by
  induction word with
  | nil => rfl
  | cons x word ih =>
      rw [List.mem_cons, not_or] at hword
      rw [List.cons_append, cmndlineOf_cons x (List.append_ne_nil_of_right_ne_nil word h),
        ih hword.2, if_neg (fun hx => hword.1 hx.symm)]
      rfl

theorem cmndlineOf_word {word : List Char} (hword : nul ∉ word) : cmndlineOf word = word := by
  rcases List.eq_nil_or_concat word with rfl | ⟨init, last, rfl⟩
  · exact cmndlineOf_nil
  · rw [List.concat_eq_append, List.mem_append, not_or] at hword
    rw [List.concat_eq_append, cmndlineOf_append hword.1 (List.cons_ne_nil last []),
      cmndlineOf_singleton, if_neg fun h => hword.2 (List.mem_singleton.mpr h.symm)]

/-- Strings that give a content back are, joined with blanks, the string that is
published for it. -/
theorem join_eq_cmndlineOf {elems : List (List Char)} {content : List Char}
    (hfree : ∀ elem ∈ elems, nul ∉ elem) (hgives : nulTerminated elems = closed content) :
    (elems = [] ↔ content = []) ∧ List.intercalate [' '] elems = cmndlineOf content := by
  induction elems generalizing content with
  | nil =>
      rw [eq_nil_of_closed hgives.symm, cmndlineOf_nil]
      exact ⟨iff_of_true rfl rfl, rfl⟩
  | cons elem elems ih =>
      rw [nulTerminated_cons] at hgives
      have helem := hfree elem List.mem_cons_self
      have hne : content ≠ [] := by
        rintro rfl
        exact List.append_ne_nil_of_right_ne_nil elem (List.cons_ne_nil nul _) hgives
      refine ⟨iff_of_false (List.cons_ne_nil _ _) hne, ?_⟩
      -- the first string is what stands before the first NUL
      rcases cstr_split content with hall | ⟨more, hmore⟩
      · have hword := nul_not_mem_cstr content
        rw [← hall] at hword
        rw [closed_word hword hne] at hgives
        have hfirst : elem = content := by
          rw [← cstr_terminated helem (nulTerminated elems), hgives, cstr_terminated hword]
        subst hfirst
        have hrest := List.tail_eq_of_cons_eq (List.append_cancel_left hgives)
        obtain ⟨hnil, _⟩ := @ih [] (fun e he => hfree e (List.mem_cons_of_mem _ he)) hrest
        rw [hnil.mpr rfl, List.intercalate_singleton, cmndlineOf_word hword]
      · rw [hmore, closed_append_nul] at hgives
        have hfirst : elem = cstr content := by
          rw [← cstr_terminated helem (nulTerminated elems), hgives,
            cstr_terminated (nul_not_mem_cstr content)]
        rw [hfirst] at hgives
        have hrest := List.tail_eq_of_cons_eq (List.append_cancel_left hgives)
        obtain ⟨hnil, hjoin⟩ := ih (fun e he => hfree e (List.mem_cons_of_mem _ he)) hrest
        have hview : cmndlineOf content = cmndlineOf (cstr content ++ nul :: more) :=
          congrArg cmndlineOf hmore
        rw [hview, cmndlineOf_append (nul_not_mem_cstr content) (List.cons_ne_nil nul more), hfirst]
        by_cases hlast : more = []
        · -- the NUL is the last byte
          rw [hnil.mpr hlast, List.intercalate_singleton, hlast, cmndlineOf_singleton, if_pos rfl,
            List.append_nil]
        · rw [List.intercalate_cons_of_ne_nil (fun h => hlast (hnil.mp h)), hjoin,
            cmndlineOf_cons nul hlast, if_pos rfl, List.append_assoc]
          rfl

/-- **The strings joined with blanks are the string published**, for a content
whose length fits an `int`. -/
theorem splitStrings_joined {content : List Char} (hlen : content.length < 2 ^ 31) :
    ∃ elems, splitStrings (content ++ [nul]) content.length content.length 0 = .ok elems ∧
      List.intercalate [' '] elems = cmndlineOf content := by
  obtain ⟨elems, helems, hfree, hgives⟩ :=
    splitStrings_run hlen [] content.length 0 (Nat.zero_le _) (Nat.sub_le _ _)
  exact ⟨elems, helems, (join_eq_cmndlineOf hfree hgives).2⟩

/-- A content whose length fits an `int` can be split. -/
theorem arrayFits_of_lt {content : List Char} (h : content.length < 2 ^ 31) :
    ArrayFits (some content) := by
  intro text htext
  obtain rfl := Option.some.inj htext
  obtain ⟨elems, helems, _⟩ := splitStrings_joined h
  refine ⟨elems, ?_⟩
  rw [newArray, Int32.toInt_ofNat_of_lt h, Int.toNat_natCast, helems]
  rfl

/-- Strings are joined with fewer blanks than there are strings. -/
theorem length_join_le (elems : List (List Char)) :
    (List.intercalate [' '] elems).length ≤ totalLength elems := by
  induction elems with
  | nil => exact Nat.le_refl 0
  | cons elem elems ih =>
      rw [totalLength_cons]
      by_cases hnil : elems = []
      · rw [hnil, List.intercalate_singleton]
        omega
      · rw [List.intercalate_cons_of_ne_nil hnil, List.length_append, List.length_append,
          List.length_singleton]
        omega

/-- **The array holds the string exactly when** the length fits an `int`. -/
theorem join_eq_cmndlineOf_iff {content : List Char} {elems : List (List Char)}
    (h : newArray (some (content ++ [nul])) (Int32.ofNat content.length) = .ok (.av elems)) :
    cmndlineOf content = List.intercalate [' '] elems ↔ content.length < 2 ^ 31 := by
  have hsplit := splitStrings_of_newArray h
  constructor
  · intro hjoin
    by_contra hlong
    have hall := length_cmndlineOf content
    have hlen := length_join_le elems
    rw [← hjoin] at hlen
    by_cases hnil : elems = []
    · have hzero : totalLength elems = 0 := by rw [hnil]; rfl
      omega
    · have htotal := splitStrings_total hsplit hnil
      have hmax := Int32.toInt_lt (Int32.ofNat content.length)
      by_cases hwrap : content.length < 2 ^ 32
      · have hneg := toInt_ofNat_neg (by omega) hwrap
        rw [splitStrings_done _ (by omega)] at hsplit
        exact hnil (Except.ok.inj hsplit).symm
      · omega
  · intro hshort
    rw [Int32.toInt_ofNat_of_lt hshort, Int.toNat_natCast] at hsplit
    obtain ⟨elems', helems, hjoin⟩ := splitStrings_joined hshort
    rw [hsplit] at helems
    rw [Except.ok.inj helems, hjoin]

section

variable {port : Port} {e : DirEntry} {r : Row} {value : Field → SV × Option UInt64}
  (hrow : Row.scrape port e = .ready r) (hvalue : RowValues port e r value)

include hrow hvalue

/-- The string that is published. -/
theorem value_cmndline {content : List Char}
    (hfile : e.file .cmndline "cmdline" = some content) :
    (value .cmndline).1 = .pv (cmndlineOf content) := by
  have htext : e.text .cmndline = some (nulsToSpaces content content.length) := by
    rw [DirEntry.text, hfile]
    rfl
  have hget := (Row.ready_prs hrow).1 .cmndline
  rw [htext] at hget
  have hv := hvalue (Member.field .cmndline)
  rw [enabledFields_member, htext, Option.isSome_some, Member.field, fieldSlots,
    show r.prs.cmndline = some (nulsToSpaces content content.length) from hget, Field.char,
    Field.spec, defaultFormat_eq] at hv
  rw [← Except.ok.inj hv]
  rfl

/-- The array that is published. -/
theorem value_cmdline {content : List Char}
    (hfile : e.file .cmdline "cmdline" = some content) :
    newArray (some (content ++ [nul])) (Int32.ofNat content.length) = .ok (value .cmdline).1 := by
  have htext : e.text .cmdline = some content := hfile
  obtain ⟨len, hslots, hlen, hchar⟩ := array_slots hrow .cmdline (Or.inl rfl)
  have hv := hvalue (Member.field .cmdline)
  rw [enabledFields_member, hslots, htext, Option.isSome_some, hchar, Option.map_some,
    groupValue_array, hlen, htext, lengthOf, Option.map_some, Option.getD_some] at hv
  cases harray : newArray (some (content ++ [nul])) (Int32.ofNat content.length) with
  | error f =>
      rw [harray] at hv
      cases hv
  | ok av =>
      rw [harray] at hv
      rw [show Field.cmdline = Member.field .cmdline from rfl, ← Except.ok.inj hv]

end

/-- A process of which nothing but the command line can be read. -/
def commandEntry (content : List Char) : DirEntry where
  dName := ['4', '2']
  world := fun _ =>
    { stat := fun _ => none
      access := fun _ => true
      openFile := fun path =>
        if path = pidPath ['4', '2'] (some "cmdline".toList) then some (Reads.bytewise content)
        else none
      realpath := fun _ => none
      time := 0 }
  upper := unreadableEntry.upper
  dName_nulFree := unreadableEntry.dName_nulFree
  dName_length := unreadableEntry.dName_length

theorem commandEntry_file (content : List Char) (m : Moment) :
    (commandEntry content).file m "cmdline" = some content ∧
      ∀ name, name ≠ "cmdline" → (commandEntry content).file m name = none := by
  constructor
  · have hopen : ((commandEntry content).world m).openFile
        (pidPath ['4', '2'] (some "cmdline".toList)) = some (Reads.bytewise content) := by
      dsimp only [commandEntry]
      rw [if_pos rfl]
    exact (congrArg fileContent hopen).trans (fileContent_bytewise content)
  · intro name hname
    have hpath : pidPath ['4', '2'] (some name.toList) ≠
        pidPath ['4', '2'] (some "cmdline".toList) := by
      intro h
      have htail := List.tail_eq_of_cons_eq (List.append_cancel_left h)
      exact hname (String.toList_inj.mp htail)
    have hopen : ((commandEntry content).world m).openFile
        (pidPath ['4', '2'] (some name.toList)) = none := by
      dsimp only [commandEntry]
      rw [if_neg hpath]
    exact congrArg fileContent hopen

/-- It is published when its array can be built. -/
theorem commandEntry_publishes {content : List Char} (h : ArrayFits (some content)) :
    (commandEntry content).Publishes samplePort := by
  have hpid : isPid ['4', '2'] = true := by decide
  refine ⟨hpid, fun hgone => Bool.noConfusion hgone.2, ?_, fun hmem => absurd rfl hmem, ?_, ?_⟩
  · intro text htext
    rw [((commandEntry_file content .status).2 "status" (by decide))] at htext
    cases htext
  · rw [(commandEntry_file content .cmdline).1]
    exact h
  · rw [((commandEntry_file content .environ).2 "environ" (by decide))]
    intro text htext
    cases htext

end Linux
