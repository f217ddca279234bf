import ProcProcessTable.AixGetprocs

/-!
# Where the arguments end on AIX

`getargs` writes the arguments of a process with a NUL between two of them and two at
the end, as much of it as the array takes.  Both decoding loops look for two NULs
behind each other; `aix.c` also stops at the end of its array, but writes no NUL there.

`decoding_safe_iff` says that the two loops do what they should exactly when the array
has the two NULs.
-/

namespace Aix

open CText

/-- Two NULs behind each other. -/
def DoubleNul (m : List Char) : Prop := ∃ front back, m = front ++ nul :: nul :: back

/-- The arguments as `getargs` writes them. -/
def encode (argv : List (List Char)) : List Char := [nul].intercalate argv ++ [nul, nul]

/-- What it leaves in an array of some bytes. -/
def getargs (size : Nat) (argv : List (List Char)) : List Char := (encode argv).take size

/-- Arguments that can be decoded: none is empty, and the two NULs at the end fit. -/
structure Decodable (size : Nat) (argv : List (List Char)) : Prop where
  nonempty : ∀ arg ∈ argv, arg ≠ []
  fits : (encode argv).length ≤ size

/-! ### The text before two NULs -/

theorem doubleNul_cons {c : Char} {rest : List Char} :
    DoubleNul (c :: rest) ↔ (c = nul ∧ ∃ back, rest = nul :: back) ∨ DoubleNul rest := by
  constructor
  · intro ⟨front, back, h⟩
    cases front with
    | nil =>
        obtain ⟨rfl, rfl⟩ := List.cons_eq_cons.mp h
        exact Or.inl ⟨rfl, back, rfl⟩
    | cons x front =>
        obtain ⟨rfl, rfl⟩ := List.cons_eq_cons.mp h
        exact Or.inr ⟨front, back, rfl⟩
  · intro h
    rcases h with ⟨rfl, back, rfl⟩ | ⟨front, back, rfl⟩
    · exact ⟨[], back, rfl⟩
    · exact ⟨c :: front, back, rfl⟩

/-- **There is a text exactly when there are two NULs.** -/
theorem argText_ne_none_iff (m : List Char) : argText m ≠ none ↔ DoubleNul m := by
  induction m with
  | nil =>
      apply iff_of_false (fun h => h rfl)
      rintro ⟨front, back, h⟩
      exact absurd h.symm (List.append_ne_nil_of_right_ne_nil _ (List.cons_ne_nil _ _))
  | cons c rest ih =>
      rw [doubleNul_cons, ← ih]
      cases rest with
      | nil =>
          apply iff_of_false (fun h => h rfl)
          intro h
          rcases h with ⟨-, back, hback⟩ | h
          · cases hback
          · exact h rfl
      | cons next rest =>
          rw [argText]
          by_cases hend : c = nul ∧ next = nul
          · rw [if_pos hend]
            exact iff_of_true (Option.some_ne_none _) (Or.inl ⟨hend.1, rest, by rw [hend.2]⟩)
          · rw [if_neg hend, ne_eq, Option.map_eq_none_iff]
            refine ⟨Or.inr, fun h => h.resolve_left ?_⟩
            rintro ⟨hc, back, hback⟩
            exact hend ⟨hc, List.head_eq_of_cons_eq hback⟩

/-- Text in front stays in front. -/
theorem argText_append {s m : List Char} (hfree : nul ∉ s) (hm : m ≠ []) :
    argText (s ++ m) = (argText m).map (s ++ ·) := by
  induction s with
  | nil =>
      rw [List.nil_append]
      exact (congrFun Option.map_id _).symm
  | cons c s ih =>
      rw [List.mem_cons, not_or] at hfree
      obtain ⟨next, rest, hnext⟩ := List.exists_cons_of_ne_nil
        (List.append_ne_nil_of_right_ne_nil s hm)
      have hsame : spaceForNul c = c := if_neg (Ne.symm hfree.1)
      rw [List.cons_append, hnext, argText, if_neg fun h => hfree.1 h.1.symm, ← hnext, ih hfree.2,
        Option.map_map, hsame]
      rfl

/-- What stands behind two NULs is not looked at. -/
theorem argText_of_front {m text : List Char} (h : argText m = some text) (pad : List Char) :
    argText (m ++ pad) = some text := by
  induction m generalizing text with
  | nil => cases h
  | cons c rest ih =>
      cases rest with
      | nil => cases h
      | cons next rest =>
          rw [argText] at h
          rw [List.cons_append, List.cons_append, argText]
          by_cases hend : c = nul ∧ next = nul
          · rw [if_pos hend] at h ⊢
            exact h
          · rw [if_neg hend] at h ⊢
            obtain ⟨tail, htail, rfl⟩ := Option.map_eq_some_iff.mp h
            rw [← List.cons_append, ih htail]
            rfl

/-- **Arguments that are not empty are decoded** as the arguments joined with blanks. -/
theorem argText_encode {argv : List (List Char)} (hfree : ∀ arg ∈ argv, nul ∉ arg)
    (hne : ∀ arg ∈ argv, arg ≠ []) : argText (encode argv) = some ([' '].intercalate argv) := by
  unfold encode
  induction argv with
  | nil => rfl
  | cons arg argv ih =>
      have hrest := ih (fun a ha => hfree a (List.mem_cons_of_mem _ ha))
        (fun a ha => hne a (List.mem_cons_of_mem _ ha))
      have harg := hfree arg List.mem_cons_self
      cases argv with
      | nil =>
          rw [List.intercalate_singleton, List.intercalate_singleton,
            argText_append harg (List.cons_ne_nil _ _)]
          exact congrArg some (List.append_nil arg)
      | cons next argv =>
          obtain ⟨c, tail, rfl⟩ := List.exists_cons_of_ne_nil
            (hne next (List.mem_cons_of_mem _ List.mem_cons_self))
          have hc : c ≠ nul := fun h =>
            hfree (c :: tail) (List.mem_cons_of_mem _ List.mem_cons_self)
              (h ▸ List.mem_cons_self)
          obtain ⟨more, hmore⟩ : ∃ more, [nul].intercalate ((c :: tail) :: argv) ++ [nul, nul] =
              c :: more := by
            cases argv with
            | nil => exact ⟨_, rfl⟩
            | cons last argv => exact ⟨_, rfl⟩
          rw [hmore] at hrest
          rw [List.intercalate_cons_cons, List.intercalate_cons_cons, List.append_assoc,
            List.append_assoc, List.append_assoc, hmore, List.singleton_append,
            argText_append harg (List.cons_ne_nil _ _)]
          rw [argText, if_neg fun h => hc h.2, hrest]
          rfl

/-- The loop in place leaves the text, with a NUL behind it. -/
theorem blankNuls_argText {m text : List Char} (h : argText m = some text) :
    ∃ back, blankNuls m = some (text ++ nul :: back) := by
  induction m generalizing text with
  | nil => cases h
  | cons c rest ih =>
      cases rest with
      | nil => cases h
      | cons next rest =>
          rw [argText] at h
          rw [blankNuls]
          by_cases hend : c = nul ∧ next = nul
          · rw [if_pos hend] at h
            obtain rfl := Option.some.inj h
            refine ⟨next :: rest, ?_⟩
            rw [if_pos hend.1, if_pos hend.2, hend.1]
            rfl
          · rw [if_neg hend] at h
            obtain ⟨text, htext, rfl⟩ := Option.map_eq_some_iff.mp h
            obtain ⟨back, hback⟩ := ih htext
            refine ⟨back, ?_⟩
            by_cases hc : c = nul
            · have hnext : next ≠ nul := fun hnext => hend ⟨hc, hnext⟩
              have hblank : spaceForNul c = ' ' := if_pos hc
              rw [if_pos hc, if_neg hnext, hback, hblank]
              rfl
            · have hsame : spaceForNul c = c := if_neg hc
              rw [if_neg hc, hback, hsame]
              rfl

/-- The text has no NUL. -/
theorem nul_not_mem_argText {m text : List Char} (h : argText m = some text) : nul ∉ text :=
  (decode_argText h [] (Nat.le_refl _)).2.1

/-! ### What `getargs` leaves -/

/-- An encoding that does not fit fills the array. -/
theorem getargs_cases (size : Nat) (argv : List (List Char)) :
    getargs size argv = encode argv ∧ (encode argv).length ≤ size ∨
      (getargs size argv).length = size ∧ size < (encode argv).length := by
  by_cases hfits : (encode argv).length ≤ size
  · exact Or.inl ⟨List.take_of_length_le hfits, hfits⟩
  · have hlong := Nat.lt_of_not_le hfits
    exact Or.inr ⟨List.length_take_of_le hlong.le, hlong⟩

/-- What can be decoded is decoded, whatever the size. -/
theorem argText_getargs {size : Nat} {argv : List (List Char)} (hfree : ∀ arg ∈ argv, nul ∉ arg)
    (h : Decodable size argv) : argText (getargs size argv) = some ([' '].intercalate argv) := by
  rw [getargs, List.take_of_length_le h.fits]
  exact argText_encode hfree h.nonempty

/-- **What a decoding loop should do** with the array of a port: it stays inside, and
leaves a string that ends, and that is the arguments joined with blanks if they can be
decoded. -/
structure Decoded (size : Nat) (argv : List (List Char)) (bytes : List Char) : Prop where
  ends : nul ∈ bytes
  joined : Decodable size argv → cstr bytes = [' '].intercalate argv

/-! ### The loop of aix.c -/

/-- Whatever the two arrays hold. -/
def DecodesSafely (sys : System) (e : Entry) (u : Userinfo) (argv : List (List Char)) : Prop :=
  ∀ args arglist, ∃ out arglist', arguments sys args arglist e u =
    some (out, arglist', comm sys e.info u) ∧ Decoded sys.MAXARGLN argv out.bytes

section

variable {sys : System} {e : Entry} {u : Userinfo} {argv : List (List Char)}

theorem printed_none {content : List Char} (hproc : isKproc sys e.info = false)
    (hargs : e.args = some content) : e.printed sys u = none := by
  unfold Entry.printed
  rw [hproc, hargs]
  rfl

/-- Behind arguments that end, the array holds their text. -/
theorem decoded_ended {text : List Char} (hproc : isKproc sys e.info = false)
    (hargs : e.args = some (getargs sys.MAXARGLN argv))
    (htext : argText (getargs sys.MAXARGLN argv) = some text)
    (args arglist : CharArray (sys.MAXARGLN + 1)) :
    ∃ out arglist', arguments sys args arglist e u = some (out, arglist', comm sys e.info u) ∧
      nul ∈ out.bytes ∧ cstr out.bytes = text := by
  obtain ⟨content, arglist', bytes, out, hcontent, hbytes, hdecode, -, harguments, hstored⟩ :=
    arguments_decoded sys args arglist e u (printed_none hproc hargs)
  obtain rfl := Option.some.inj (hargs.symm.trans hcontent)
  have htake : (getargs sys.MAXARGLN argv).take sys.MAXARGLN = getargs sys.MAXARGLN argv :=
    List.take_of_length_le (List.length_take_le _ _)
  have hlen : (getargs sys.MAXARGLN argv).length ≤ sys.MAXARGLN := List.length_take_le _ _
  obtain ⟨hown, hfree, -⟩ := decode_argText htext
    (arglist.bytes.drop (0 + (getargs sys.MAXARGLN argv).length)) hlen
  rw [hbytes, htake, overwrite, List.take_zero, List.nil_append, hown] at hdecode
  obtain rfl := Option.some.inj hdecode
  refine ⟨out, arglist', harguments, ?_, ?_⟩
  · rw [hstored, overwrite, List.take_zero, List.nil_append, List.append_assoc]
    exact List.mem_append_right _ List.mem_cons_self
  · rw [hstored, overwrite, List.take_zero, List.nil_append, List.append_assoc,
      List.singleton_append]
    exact cstr_terminated hfree _

/-- **When the loop of aix.c is safe.** -/
theorem decodesSafely_iff (hfree : ∀ arg ∈ argv, nul ∉ arg) (hproc : isKproc sys e.info = false)
    (hargs : e.args = some (getargs sys.MAXARGLN argv)) :
    DecodesSafely sys e u argv ↔ DoubleNul (getargs sys.MAXARGLN argv) := by
  rw [← argText_ne_none_iff]
  constructor
  · intro hsafe hnone
    have hunended : ¬ e.Ended sys u := by
      intro hended
      apply hended (printed_none hproc hargs) _ hargs
      have htake : (getargs sys.MAXARGLN argv).take sys.MAXARGLN = getargs sys.MAXARGLN argv :=
        List.take_of_length_le (List.length_take_le _ _)
      rw [htake]
      exact hnone
    obtain ⟨out, arglist', hout, hdecoded⟩ := hsafe (uniform sys 'x') (uniform sys 'x')
    -- before other characters the loop writes no NUL
    have hlong : strlen out.bytes = sys.MAXARGLN + 1 := (arguments_unended sys hunended).1 _ hout
    have hshort : strlen out.bytes < out.bytes.length := by
      have hprefix : cstr out.bytes <+: out.bytes := List.takeWhile_prefix _
      have hle : strlen out.bytes ≤ out.bytes.length := hprefix.length_le
      refine lt_of_le_of_ne hle fun heq => ?_
      have hwhole : cstr out.bytes = out.bytes := hprefix.eq_of_length heq
      apply nul_not_mem_cstr out.bytes
      rw [hwhole]
      exact hdecoded.ends
    rw [hlong, out.length_bytes] at hshort
    exact Nat.lt_irrefl _ hshort
  · intro hsome args arglist
    obtain ⟨text, htext⟩ := Option.ne_none_iff_exists'.mp hsome
    obtain ⟨out, arglist', hout, hends, hstring⟩ := decoded_ended hproc hargs htext args arglist
    refine ⟨out, arglist', hout, hends, fun hdecodable => ?_⟩
    have hjoined := argText_getargs hfree hdecodable
    rw [hstring]
    exact Option.some.inj (htext.symm.trans hjoined)

end

end Aix

namespace AixGetprocs

open CText
open Aix (DoubleNul Decoded Decodable argText getargs encode)

/-- The loop stays inside the array, and leaves what it should. -/
def DecodesSafely (sys : System) (e : Entry) (argv : List (List Char)) : Prop :=
  ∃ bytes, cmndline sys e = some bytes ∧ Decoded sys.ARG_MAX argv bytes

/-- The cleared array holds what `getargs` left, and NULs if there is room behind it. -/
theorem cleared_getargs (size : Nat) (argv : List (List Char)) :
    ∃ pad, cleared size ((getargs size argv).take size) = getargs size argv ++ pad ∧
      (pad = [] ∨ DoubleNul (getargs size argv)) := by
  have htake : (getargs size argv).take size = getargs size argv :=
    List.take_of_length_le (List.length_take_le _ _)
  refine ⟨(List.replicate size nul).drop (getargs size argv).length, ?_, ?_⟩
  · rw [htake, cleared, overwrite, List.take_zero, List.nil_append, Nat.zero_add]
  · rcases Aix.getargs_cases size argv with ⟨hwhole, -⟩ | ⟨hfull, -⟩
    · refine Or.inr ⟨[nul].intercalate argv, [], ?_⟩
      rw [hwhole]
      rfl
    · left
      rw [hfull, List.drop_replicate, Nat.sub_self]
      rfl

section

variable {sys : System} {e : Entry} {argv : List (List Char)}

/-- The loop ends inside the array exactly when the two NULs were left. -/
theorem cmndline_ends_iff (hproc : isKproc sys e.info = false)
    (hargs : e.args = some (getargs sys.ARG_MAX argv)) :
    cmndline sys e ≠ none ↔ DoubleNul (getargs sys.ARG_MAX argv) := by
  obtain ⟨pad, hcleared, hpad⟩ := cleared_getargs sys.ARG_MAX argv
  have hnone : cmndline sys e = none ↔ argText (getargs sys.ARG_MAX argv ++ pad) = none := by
    rw [cmndline_none_iff, hargs, ← hcleared]
    constructor
    · intro ⟨_, content, hcontent, h⟩
      obtain rfl := Option.some.inj hcontent
      exact h
    · exact fun h => ⟨hproc, _, rfl, h⟩
  rw [ne_eq, hnone, ← ne_eq, Aix.argText_ne_none_iff]
  rcases hpad with rfl | hdouble
  · rw [List.append_nil]
  · refine iff_of_true ?_ hdouble
    obtain ⟨front, back, hsplit⟩ := hdouble
    refine ⟨front, back ++ pad, ?_⟩
    rw [hsplit, List.append_assoc]
    rfl

/-- What it leaves is a string. -/
theorem cmndline_string {bytes : List Char} (hproc : isKproc sys e.info = false)
    (hargs : e.args = some (getargs sys.ARG_MAX argv)) (h : cmndline sys e = some bytes) :
    ∃ text back, argText (cleared sys.ARG_MAX ((getargs sys.ARG_MAX argv).take sys.ARG_MAX)) =
      some text ∧ bytes = text ++ nul :: back ∧ nul ∉ text := by
  unfold cmndline at h
  rw [hproc, hargs, if_neg Bool.noConfusion] at h
  dsimp only at h
  have hsome : argText (cleared sys.ARG_MAX ((getargs sys.ARG_MAX argv).take sys.ARG_MAX)) ≠
      none := by
    intro hnone
    rw [(Aix.blankNuls_none_iff _).mpr hnone] at h
    cases h
  obtain ⟨text, htext⟩ := Option.ne_none_iff_exists'.mp hsome
  obtain ⟨back, hback⟩ := Aix.blankNuls_argText htext
  exact ⟨text, back, htext, Option.some.inj (h.symm.trans hback), Aix.nul_not_mem_argText htext⟩

/-- Behind arguments that fit the array is cleared. -/
theorem argText_cleared (hfree : ∀ arg ∈ argv, nul ∉ arg) {size : Nat}
    (h : Decodable size argv) :
    argText (cleared size ((getargs size argv).take size)) = some ([' '].intercalate argv) := by
  obtain ⟨pad, hcleared, -⟩ := cleared_getargs size argv
  rw [hcleared]
  exact Aix.argText_of_front (Aix.argText_getargs hfree h) pad

/-- **When the loop of aix_getprocs.c is safe.** -/
theorem decodesSafely_iff (hfree : ∀ arg ∈ argv, nul ∉ arg) (hproc : isKproc sys e.info = false)
    (hargs : e.args = some (getargs sys.ARG_MAX argv)) :
    DecodesSafely sys e argv ↔ DoubleNul (getargs sys.ARG_MAX argv) := by
  rw [← cmndline_ends_iff hproc hargs]
  constructor
  · intro ⟨bytes, hbytes, _⟩ hnone
    rw [hnone] at hbytes
    cases hbytes
  · intro hsome
    obtain ⟨bytes, hbytes⟩ := Option.ne_none_iff_exists'.mp hsome
    obtain ⟨text, back, htext, rfl, hends⟩ := cmndline_string hproc hargs hbytes
    refine ⟨_, hbytes, List.mem_append_right _ List.mem_cons_self, fun hdecodable => ?_⟩
    have hjoined := argText_cleared hfree hdecodable
    rw [CText.cstr_terminated hends]
    exact Option.some.inj (htext.symm.trans hjoined)

end

/-- **When the two loops are safe**: exactly when two NULs were left behind each other, which
is so when an argument is empty, and when the encoding or all but its last byte was left. -/
theorem decoding_safe_iff (port : Aix.System) (entry : Aix.Entry) (u : Aix.Userinfo) (sys : System)
    (e : Entry) (argv : List (List Char)) (hfree : ∀ arg ∈ argv, nul ∉ arg)
    (hport : Aix.isKproc port entry.info = false)
    (hentry : entry.args = some (getargs port.MAXARGLN argv))
    (hsys : isKproc sys e.info = false) (he : e.args = some (getargs sys.ARG_MAX argv)) :
    (Aix.DecodesSafely port entry u argv ↔ DoubleNul (getargs port.MAXARGLN argv)) ∧
      (DecodesSafely sys e argv ↔ DoubleNul (getargs sys.ARG_MAX argv)) :=
  ⟨Aix.decodesSafely_iff hfree hport hentry, decodesSafely_iff hfree hsys he⟩

/-- A process with arguments. -/
def called (content : List Char) : Entry := ⟨(parent .SACTIVE 0).info, some content⟩

/-- The same for the other port. -/
def calledPort (content : List Char) : Aix.Entry :=
  ⟨(Aix.Entry.info (waiting .SSLEEP)), (waiting .SSLEEP).user, some content⟩

/-- The user structure that it has. -/
def userinfo : Aix.Userinfo :=
  ⟨"init".toList ++ [nul], 0, 0, 0, 0, ⟨0, 0⟩, ⟨0, 0⟩, ⟨0, 0⟩, ⟨0, 0⟩, 0, 0, 0, 0, 0, 0, 0⟩

theorem decoding_safe_init : DoubleNul (getargs 16 ["init".toList, "-s".toList]) ∧
    Aix.DecodesSafely samplePort (calledPort (getargs 16 ["init".toList, "-s".toList])) userinfo
      ["init".toList, "-s".toList] := by
  have hdouble : DoubleNul (getargs 16 ["init".toList, "-s".toList]) :=
    ⟨"init".toList ++ nul :: "-s".toList, [], by decide⟩
  have hsafe := decoding_safe_iff samplePort (calledPort (getargs 16 ["init".toList, "-s".toList]))
    userinfo sampleSystem (called (getargs 16 ["init".toList, "-s".toList]))
    ["init".toList, "-s".toList] (by decide) (by decide) rfl (by decide) rfl
  exact ⟨hdouble, hsafe.1.mpr hdouble⟩

/-- **An argument that fills the array**: no NUL is left, and the loop of aix_getprocs.c
leaves its array, while that of aix.c ends without one. -/
theorem full_array_unended :
    ¬ Aix.DecodesSafely samplePort (calledPort (getargs 16 [List.replicate 16 'a'])) userinfo
        [List.replicate 16 'a'] ∧
      ¬ DecodesSafely sampleSystem (called (getargs 16 [List.replicate 16 'a']))
        [List.replicate 16 'a'] := by
  have hnone : ¬ DoubleNul (getargs 16 [List.replicate 16 'a']) := by
    rw [← Aix.argText_ne_none_iff, ne_eq, not_not]
    decide
  constructor
  · intro h
    exact hnone ((Aix.decodesSafely_iff (by decide) (by decide) rfl).mp h)
  · intro h
    exact hnone ((decodesSafely_iff (by decide) (by decide) rfl).mp h)

end AixGetprocs
