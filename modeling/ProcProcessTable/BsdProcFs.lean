import ProcProcessTable.CharArray
import ProcProcessTable.ObjectCalls
import ProcProcessTable.Scanf

/-!
# The two files of a process on NetBSD and FreeBSD

Both ports scan the `status` file of a process with one `fscanf` and read its
`cmdline` file into an array that stands outside the loop.  The two copies of the
code are the same here.

* `storeItems_ok_iff`: when the strings of a status line fit their arrays;
* `fillCmdline_string`: what the array holds behind a file that was read.
-/

namespace BsdProcFs

open CText Xs Scanf

/-! ### The status file -/

/-- What a conversion of `fscanf` stores. -/
inductive Item
  | str (word : List Char)
  | num (v : Int)

/-- The leading run of characters that are not white space. -/
def word (text : List Char) : List Char := text.takeWhile fun c => !isSpace c

/-- `fscanf` with `%s` and `%d`: what is stored before the first failure. -/
def fscanf : List Char → List Char → List Item
  | '%' :: 's' :: format, text =>
      let text := text.dropWhile isSpace
      if word text = [] then [] else .str (word text) :: fscanf format (text.drop (word text).length)
  | '%' :: 'd' :: format, text =>
      match scanInteger (text.dropWhile isSpace) with
      | some (neg, n, rest) => .num (strtol neg n) :: fscanf format rest
      | none => []
  | c :: format, text =>
      if isSpace c then fscanf format (text.dropWhile isSpace)
      else
        match text with
        | x :: rest => if x = c then fscanf format rest else []
        | [] => []
  | [], _ => []

section

variable {ρ : Type}

/-- The member behind a pointer argument: an `int`, or an array of some size. -/
inductive Pointer (ρ : Type)
  | int (store : Int32 → ρ → ρ)
  | array (size : Nat) (store : Mem → ρ → ρ)

/-- A string is stored with its NUL, and nothing looks at the size of the array. -/
def Pointer.put : Pointer ρ → Item → ρ → Except Fault ρ
  | .int store, .num v, prs => .ok (store (Int32.ofInt v) prs)
  | .array size store, .str s, prs =>
      if s.length < size then .ok (store (s ++ [nul]) prs) else .error .overflow
  | .int _, .str _, prs => .ok prs
  | .array _ _, .num _, prs => .ok prs

/-- Store what was scanned through the pointers, in order. -/
def storeItems : List (Pointer ρ) → List Item → ρ → Except Fault ρ
  | pointer :: pointers, item :: items, prs =>
      match pointer.put item prs with
      | .error f => .error f
      | .ok prs => storeItems pointers items prs
  | _, _, prs => .ok prs

/-- `get_procstat`: `none` when the file cannot be opened. -/
def getProcstat (format : List Char) (pointers : List (Pointer ρ)) (status : Option (List Char))
    (prs : ρ) : Except Fault (Option ρ) :=
  match status with
  | none => .ok none
  | some text =>
      match storeItems pointers (fscanf format text) prs with
      | .error f => .error f
      | .ok prs => .ok (some prs)

/-- The item fits what the pointer points to. -/
def Pointer.Fits : Pointer ρ → Item → Prop
  | .array size _, .str s => s.length < size
  | _, _ => True

instance (pointer : Pointer ρ) (item : Item) : Decidable (pointer.Fits item) :=
  match pointer, item with
  | .array size _, .str s => inferInstanceAs (Decidable (s.length < size))
  | .array _ _, .num _ => isTrue trivial
  | .int _, _ => isTrue trivial

/-- **A status line is stored** exactly when all its strings fit their arrays. -/
theorem storeItems_ok_iff {pointers : List (Pointer ρ)} {items : List Item} (prs : ρ) :
    (∃ prs', storeItems pointers items prs = .ok prs') ↔
      ∀ pair ∈ pointers.zip items, pair.1.Fits pair.2 := by
  induction pointers generalizing items prs with
  | nil => exact iff_of_true ⟨prs, rfl⟩ fun pair h => absurd h List.not_mem_nil
  | cons pointer pointers ih =>
      cases items with
      | nil => exact iff_of_true ⟨prs, rfl⟩ fun pair h => absurd h List.not_mem_nil
      | cons item items =>
          rw [List.zip_cons_cons, List.forall_mem_cons, storeItems]
          by_cases hfits : pointer.Fits item
          · obtain ⟨next, hnext⟩ : ∃ next, pointer.put item prs = .ok next := by
              cases pointer with
              | int store => cases item <;> exact ⟨_, rfl⟩
              | array size store =>
                  cases item with
                  | num v => exact ⟨_, rfl⟩
                  | str s => exact ⟨_, if_pos hfits⟩
            rw [hnext, and_iff_right hfits]
            exact ih next
          · have hover : pointer.put item prs = .error .overflow := by
              cases pointer with
              | int store => exact absurd trivial hfits
              | array size store =>
                  cases item with
                  | num v => exact absurd trivial hfits
                  | str s => exact if_neg hfits
            rw [hover]
            apply iff_of_false
            · intro ⟨prs', h⟩
              cases h
            · exact fun h => hfits h.1

/-- **A status file is scanned** exactly when it can be opened and its strings fit. -/
theorem getProcstat_some_iff {format : List Char} {pointers : List (Pointer ρ)}
    {status : Option (List Char)} (prs : ρ) :
    (∃ prs', getProcstat format pointers status prs = .ok (some prs')) ↔
      ∃ text, status = some text ∧
        ∀ pair ∈ pointers.zip (fscanf format text), pair.1.Fits pair.2 := by
  unfold getProcstat
  cases status with
  | none =>
      apply iff_of_false
      · intro ⟨prs', h⟩
        cases h
      · intro ⟨text, htext, _⟩
        cases htext
  | some text =>
      dsimp only
      have hiff := @storeItems_ok_iff _ pointers (fscanf format text) prs
      constructor
      · intro ⟨prs', h⟩
        refine ⟨text, rfl, hiff.mp ?_⟩
        cases hstore : storeItems pointers (fscanf format text) prs with
        | error f =>
            rw [hstore] at h
            cases h
        | ok out => exact ⟨out, rfl⟩
      · intro ⟨text', htext, hfits⟩
        obtain rfl := Option.some.inj htext
        obtain ⟨prs', hstore⟩ := hiff.mpr hfits
        rw [hstore]
        exact ⟨prs', rfl⟩

end

/-! ### The command line -/

section

variable {ARG_MAX : Nat}

/-- The bytes `fread` got, the loop over them, and the NUL behind them. -/
def fillCmdline (cmndline : CharArray ARG_MAX) (read : List Char) : Option (CharArray ARG_MAX) := do
  let cmndline ← cmndline.store 0 read
  let cmndline ← cmndline.store 0 ((cmndline.bytes.take read.length).map spaceForNul)
  cmndline.store read.length [nul]

/-- The part of the loop that reads the `cmdline` file.  The file is `none` when it
cannot be opened; `fread` gets at most `ARG_MAX` bytes of it. -/
def readCmdline (F_CMNDLINE : Nat) (format : Mem) (cmndline : CharArray ARG_MAX)
    (file : Option (List Char)) : Except Fault (Mem × CharArray ARG_MAX) :=
  match file with
  | none => .ok (format, cmndline)
  | some content =>
      if content.take ARG_MAX = [] then .ok (format, cmndline)
      else
        match fillCmdline cmndline (content.take ARG_MAX) with
        | none => .error .overflow
        | some cmndline => .ok (format.modify F_CMNDLINE Char.toLower, cmndline)

theorem nul_not_mem_spaces (s : List Char) : nul ∉ s.map spaceForNul := by
  intro h
  obtain ⟨c, -, hc⟩ := List.mem_map.mp h
  exact spaceForNul_ne_nul c hc

/-- **The array behind a file** with room for the NUL: its bytes, with blanks for
NULs. -/
theorem fillCmdline_string (cmndline : CharArray ARG_MAX) {read : List Char}
    (h : read.length < ARG_MAX) :
    ∃ out, fillCmdline cmndline read = some out ∧ out.string = read.map spaceForNul := by
  have hfits : 0 + read.length ≤ ARG_MAX := by omega
  obtain ⟨a, ha, habytes⟩ := cmndline.store_of_le hfits
  have htake : a.bytes.take read.length = read := by
    rw [habytes, overwrite, List.take_zero, List.nil_append, List.take_left]
  have hblank : 0 + (read.map spaceForNul).length ≤ ARG_MAX := by
    rw [List.length_map]
    exact hfits
  obtain ⟨b, hb, hbbytes⟩ := a.store_of_le hblank
  have hlast : read.length + [nul].length ≤ ARG_MAX := h
  obtain ⟨out, hout, houtbytes⟩ := b.store_of_le hlast
  refine ⟨out, ?_, ?_⟩
  · unfold fillCmdline
    rw [ha, Option.bind_eq_bind, Option.bind_some, htake, hb]
    exact hout
  · have hfront : b.bytes.take read.length = read.map spaceForNul := by
      rw [hbbytes, overwrite, List.take_zero, List.nil_append]
      exact (congrArg (List.take · _) (List.length_map spaceForNul).symm).trans List.take_left
    rw [CharArray.string, houtbytes, overwrite, hfront, List.append_assoc, List.singleton_append]
    exact cstr_terminated (nul_not_mem_spaces read) _

/-- A file that fills the array leaves no room for the NUL. -/
theorem fillCmdline_overflow (cmndline : CharArray ARG_MAX) {read : List Char}
    (h : read.length = ARG_MAX) : fillCmdline cmndline read = none := by
  have hlast : ∀ a : CharArray ARG_MAX, a.store read.length [nul] = none :=
    fun a => a.store_of_lt (by rw [List.length_singleton]; omega)
  unfold fillCmdline
  cases cmndline.store 0 read with
  | none => rfl
  | some a =>
      rw [Option.bind_eq_bind, Option.bind_some]
      cases a.store 0 ((a.bytes.take read.length).map spaceForNul) with
      | none => rfl
      | some b => exact hlast b

/-! ### The outcomes of reading it -/

section

variable (F_CMNDLINE : Nat) (format : Mem) (cmndline : CharArray ARG_MAX)

/-- An empty file leaves everything as it is. -/
theorem readCmdline_empty :
    readCmdline F_CMNDLINE format cmndline (some []) = .ok (format, cmndline) := by
  unfold readCmdline
  exact if_pos List.take_nil

/-- **A file that leaves room for the NUL** is in the array, and the flag is lowered. -/
theorem readCmdline_filled {content : List Char} (hne : content ≠ [])
    (hroom : content.length < ARG_MAX) :
    ∃ out, readCmdline F_CMNDLINE format cmndline (some content) =
        .ok (format.modify F_CMNDLINE Char.toLower, out) ∧
      out.string = content.map spaceForNul := by
  have hall : content.take ARG_MAX = content := List.take_of_length_le hroom.le
  obtain ⟨out, hfill, hstring⟩ := fillCmdline_string cmndline hroom
  refine ⟨out, ?_, hstring⟩
  unfold readCmdline
  dsimp only
  rw [hall, if_neg hne, hfill]

/-- **A longer one** has its NUL behind the array. -/
theorem readCmdline_overflow {content : List Char} (hpos : 0 < ARG_MAX)
    (hroom : ARG_MAX ≤ content.length) :
    readCmdline F_CMNDLINE format cmndline (some content) = .error .overflow := by
  have hlen : (content.take ARG_MAX).length = ARG_MAX := List.length_take_of_le hroom
  have hsome : content.take ARG_MAX ≠ [] := by
    intro hnil
    rw [hnil, List.length_nil] at hlen
    omega
  unfold readCmdline
  dsimp only
  rw [if_neg hsome, fillCmdline_overflow cmndline hlen]

end

end

end BsdProcFs
