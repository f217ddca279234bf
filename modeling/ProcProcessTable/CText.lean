import Mathlib.Algebra.Ring.Int.Defs
import Mathlib.Algebra.Ring.Nat
import Mathlib.Data.List.Basic
import Mathlib.Data.List.TakeWhile
import Mathlib.Tactic.Common

/-!
# NUL-terminated text in memory

C text is read through an address: a function sees the bytes from there on
and stops at the first NUL.  `Mem` is what an address reaches, one character
a byte; whatever lies behind the NUL is residue that no string function may
depend on.  The lemmas here say exactly that (`cstr_append_nul`), and how the
string read from an address changes when the address moves (`cstr_drop`) or
when a NUL is written into the text (`cstr_set_nul`).
-/

namespace CText

/-- The bytes an address reaches, up to the end of its object. -/
abbrev Mem := List Char

/-- The terminating byte. -/
def nul : Char := Char.ofNat 0

/-- The string an address denotes: everything before the first NUL. -/
def cstr (m : Mem) : List Char := m.takeWhile (· ≠ nul)

/-- `strlen`. -/
def strlen (m : Mem) : Nat := (cstr m).length

/-- `strchr` for a byte other than NUL, as an offset from the address. -/
def strchr (m : Mem) (c : Char) : Option Nat := (cstr m).findIdx? (· = c)

/-- Offset of the last occurrence of `c`. -/
def lastIdx? (c : Char) : List Char → Option Nat
  | [] => none
  | x :: rest =>
      match lastIdx? c rest with
      | some i => some (i + 1)
      | none => if x = c then some 0 else none

/-- `strrchr` for a byte other than NUL, as an offset from the address. -/
def strrchr (m : Mem) (c : Char) : Option Nat := lastIdx? c (cstr m)

/-- `strncmp(m, lit, strlen(lit)) == 0`. -/
def startsWith (m : Mem) (lit : List Char) : Bool := lit.isPrefixOf (cstr m)

/-- The `n` bytes `strncpy` writes: the string, cut at `n` and padded with NULs. -/
def strncpy (m : Mem) (n : Nat) : List Char :=
  (cstr m).take n ++ List.replicate (n - (cstr m).length) nul

/-- Store `s` over the bytes of a buffer from `off` on. -/
def overwrite (m : Mem) (off : Nat) (s : List Char) : Mem :=
  m.take off ++ s ++ m.drop (off + s.length)

/-- `strcpy`. -/
def strcpy (dest : Mem) (src : List Char) : Mem := overwrite dest 0 (cstr src ++ [nul])

/-- A string that contains no NUL is read back whole. -/
theorem cstr_of_nulFree {s : List Char} (h : nul ∉ s) : cstr s = s := by
  refine List.takeWhile_eq_self_iff.mpr ?_
  intro c hc
  simpa using fun heq : c = nul => h (heq ▸ hc)

/-- The string read from an address contains no NUL. -/
theorem nul_not_mem_cstr (m : Mem) : nul ∉ cstr m := by
  intro h
  have hp := List.mem_takeWhile_imp h
  simp at hp

/-- **Residue is invisible.**  The bytes behind a NUL do not belong to the
string. -/
theorem cstr_append_nul (s r : List Char) : cstr (s ++ nul :: r) = cstr s := by
  induction s with
  | nil => simp [cstr]
  | cons c s ih =>
      by_cases hc : c = nul
      · simp [cstr, hc]
      · simpa [cstr, hc] using ih

theorem cstr_cstr (m : Mem) : cstr (cstr m) = cstr m :=
  cstr_of_nulFree (nul_not_mem_cstr m)

/-- A NUL-free text followed by its terminator is read back exactly. -/
theorem cstr_terminated {s : List Char} (h : nul ∉ s) (r : List Char) :
    cstr (s ++ nul :: r) = s := by
  rw [cstr_append_nul, cstr_of_nulFree h]

/-- Whatever the destination held, it holds the string that was copied. -/
theorem cstr_strcpy (dest : Mem) (src : List Char) : cstr (strcpy dest src) = cstr src := by
  have hbytes : strcpy dest src = cstr src ++ nul :: dest.drop (0 + (cstr src ++ [nul]).length) := by
    unfold strcpy overwrite
    rw [List.take_zero, List.nil_append, List.append_assoc]
    rfl
  rw [hbytes, cstr_terminated (nul_not_mem_cstr src)]

/-- A text is its string, or its string and a NUL in front of more. -/
theorem cstr_split (m : Mem) : m = cstr m ∨ ∃ rest, m = cstr m ++ nul :: rest := by
  induction m with
  | nil => exact Or.inl rfl
  | cons c m ih =>
      by_cases hc : c = nul
      · exact Or.inr ⟨m, by simp [cstr, hc]⟩
      · have hcons : cstr (c :: m) = c :: cstr m := by simp [cstr, hc]
        rw [hcons]
        rcases ih with h | ⟨rest, h⟩
        · exact Or.inl (congrArg (List.cons c) h)
        · exact Or.inr ⟨rest, congrArg (List.cons c) h⟩

/-- Moving the address inside the string drops the bytes passed over. -/
theorem cstr_drop {m : Mem} {k : Nat} (hk : k ≤ strlen m) :
    cstr (m.drop k) = (cstr m).drop k := by
  induction m generalizing k with
  | nil => simp [cstr]
  | cons c m ih =>
      cases k with
      | zero => rfl
      | succ k =>
          by_cases hc : c = nul
          · simp [strlen, cstr, hc] at hk
          · have hk' : k ≤ strlen m := by simpa [strlen, cstr, hc] using hk
            simpa [cstr, hc] using ih hk'

/-- Writing a NUL inside the string ends the string there. -/
theorem cstr_set_nul {m : Mem} {k : Nat} (hk : k < strlen m) :
    cstr (m.set k nul) = (cstr m).take k := by
  induction m generalizing k with
  | nil => simp [strlen, cstr] at hk
  | cons c m ih =>
      by_cases hc : c = nul
      · simp [strlen, cstr, hc] at hk
      · cases k with
        | zero => simp [cstr]
        | succ k =>
            have hk' : k < strlen m := by simpa [strlen, cstr, hc] using hk
            simpa [cstr, hc] using ih hk'

/-- The first occurrence of a byte that a prefix does not contain. -/
theorem findIdx?_append_cons {c : Char} {pre post : List Char} (h : c ∉ pre) :
    (pre ++ c :: post).findIdx? (· = c) = some pre.length := by
  induction pre with
  | nil => simp [List.findIdx?_cons]
  | cons x pre ih =>
      have hx : x ≠ c := fun heq => h (heq ▸ List.mem_cons_self)
      simp [List.findIdx?_cons, hx, ih (fun hm => h (List.mem_cons_of_mem _ hm))]

/-- A byte that does not occur has no last occurrence. -/
theorem lastIdx?_eq_none {c : Char} {s : List Char} (h : c ∉ s) : lastIdx? c s = none := by
  induction s with
  | nil => rfl
  | cons x s ih =>
      have hx : x ≠ c := fun heq => h (heq ▸ List.mem_cons_self)
      simp [lastIdx?, hx, ih (fun hm => h (List.mem_cons_of_mem _ hm))]

/-- The last occurrence of a byte that a suffix does not contain. -/
theorem lastIdx?_append_cons {c : Char} {pre post : List Char} (h : c ∉ post) :
    lastIdx? c (pre ++ c :: post) = some pre.length := by
  induction pre with
  | nil => simp [lastIdx?, lastIdx?_eq_none h]
  | cons x pre ih => simp [lastIdx?, ih]

/-- A last occurrence lies inside the string. -/
theorem lastIdx?_lt {c : Char} {s : List Char} {i : Nat} (h : lastIdx? c s = some i) :
    i < s.length := by
  induction s generalizing i with
  | nil => simp [lastIdx?] at h
  | cons x s ih =>
      cases hrest : lastIdx? c s with
      | some j =>
          have hj := ih hrest
          simp [lastIdx?, hrest] at h
          simp
          omega
      | none =>
          simp [lastIdx?, hrest] at h
          simp [← h.2]

/-- What `strchr` and `strrchr` find lies in front of the NUL. -/
theorem strchr_lt {m : Mem} {c : Char} {i : Nat} (h : strchr m c = some i) : i < strlen m :=
  (List.findIdx?_eq_some_iff_getElem.mp h).1

theorem strrchr_lt {m : Mem} {c : Char} {i : Nat} (h : strrchr m c = some i) : i < strlen m :=
  lastIdx?_lt h

/-- A text whose first byte is another one does not start with a word. -/
theorem startsWith_of_head {m : Mem} {x c : Char} (hhead : (cstr m).head? = some x) (hne : c ≠ x)
    (word : List Char) : startsWith m (c :: word) = false := by
  obtain ⟨rest, hrest⟩ := List.head?_eq_some_iff.mp hhead
  rw [startsWith, hrest, List.isPrefixOf, beq_false_of_ne hne]
  rfl

/-- `strncpy` always writes the number of bytes it was given. -/
theorem length_strncpy (m : Mem) (n : Nat) : (strncpy m n).length = n := by
  simp [strncpy]
  omega

/-- A copy that is closed with a NUL holds the string, cut to its size. -/
theorem cstr_strncpy_nul (m : Mem) (n : Nat) (rest : Mem) :
    cstr (strncpy m n ++ nul :: rest) = (cstr m).take n := by
  have hfree : nul ∉ (cstr m).take n := fun h => nul_not_mem_cstr m (List.mem_of_mem_take h)
  rw [strncpy, List.append_assoc]
  cases n - (cstr m).length with
  | zero => exact cstr_terminated hfree rest
  | succ k => exact cstr_terminated hfree _

/-- Storing inside a buffer does not change its size. -/
theorem length_overwrite {m : Mem} {off : Nat} {s : List Char}
    (h : off + s.length ≤ m.length) : (overwrite m off s).length = m.length := by
  simp [overwrite]
  omega

/-- Storing over a byte that a list was split at. -/
theorem set_split (pre post : List Char) (c d : Char) :
    (pre ++ c :: post).set pre.length d = pre ++ d :: post := by
  rw [List.set_append_right _ _ (Nat.le_refl _), Nat.sub_self, List.set_cons_zero]

/-- What lies behind a byte that a list was split at. -/
theorem drop_split (pre post : List Char) (c : Char) :
    (pre ++ c :: post).drop (pre.length + 1) = post := by
  rw [← List.drop_drop, List.drop_left, List.drop_succ_cons, List.drop_zero]

/-- **A short name copied into a cleared buffer** is the string the buffer
holds. -/
theorem cstr_copy {name : List Char} (hname : nul ∉ name) (rest : Mem) {size : Nat}
    (hlen : name.length ≤ size) :
    cstr ((overwrite (List.replicate (size + 1) nul) 0
      (strncpy (name ++ nul :: rest) size)).set size nul) = name := by
  have hcopy : strncpy (name ++ nul :: rest) size =
      name ++ List.replicate (size - name.length) nul := by
    rw [strncpy, cstr_terminated hname, List.take_of_length_le hlen]
  have hwhole : overwrite (List.replicate (size + 1) nul) 0 (strncpy (name ++ nul :: rest) size) =
      name ++ List.replicate (size - name.length + 1) nul := by
    rw [overwrite, length_strncpy, hcopy, List.take_zero, List.nil_append, Nat.zero_add,
      List.drop_replicate, List.append_assoc, List.replicate_append_replicate]
    congr 2
    omega
  rw [hwhole, List.set_append_right _ _ hlen, List.set_replicate_self, List.replicate_succ,
    cstr_terminated hname]

end CText
