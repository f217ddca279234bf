import ProcProcessTable.CText

/-!
# Character arrays of a fixed size

A `char` array of the program is a piece of memory whose size is known.
`CharArray size` carries the size with the bytes, so a store keeps it, and a
store or a read outside the array is no array at all (`none`).

Behind each library function stands what it leaves as the string of the array
when the text fits (`string_strcat`, `string_strlcat`, `read_vsnprintf`), and
that it does not return when it does not.
-/

namespace CText

/-- A NUL turned into a blank. -/
def spaceForNul (c : Char) : Char := if c = nul then ' ' else c

theorem spaceForNul_ne_nul (c : Char) : spaceForNul c ≠ nul := by
  unfold spaceForNul
  split
  · decide
  · next h => exact h

/-- A `char` array of `size` bytes. -/
structure CharArray (size : Nat) where
  bytes : Mem
  length_bytes : bytes.length = size

namespace CharArray

variable {size : Nat}

/-- The string in the array. -/
def string (a : CharArray size) : List Char := cstr a.bytes

/-- Bytes that are stored inside the array leave it its size. -/
theorem length_store (a : CharArray size) {off : Nat} {s : List Char} (h : off + s.length ≤ size) :
    (overwrite a.bytes off s).length = size := by
  have hinside : off + s.length ≤ a.bytes.length := by
    rw [a.length_bytes]
    exact h
  exact (length_overwrite hinside).trans a.length_bytes

/-- Store bytes from an index on. -/
def store (a : CharArray size) (off : Nat) (s : List Char) : Option (CharArray size) :=
  if h : off + s.length ≤ size then some ⟨overwrite a.bytes off s, a.length_store h⟩ else none

/-- An array of NULs. -/
def cleared (size : Nat) : CharArray size := ⟨List.replicate size nul, List.length_replicate⟩

/-- `a[0] = '\0'`. -/
def clear (a : CharArray size) : CharArray size :=
  ⟨a.bytes.set 0 nul, List.length_set.trans a.length_bytes⟩

/-- `strcat`. -/
def strcat (a : CharArray size) (src : Mem) : Option (CharArray size) :=
  a.store (strlen a.bytes) (cstr src ++ [nul])

/-- `strncat`. -/
def strncat (a : CharArray size) (src : Mem) (count : Nat) : Option (CharArray size) :=
  a.store (strlen a.bytes) ((cstr src).take count ++ [nul])

/-- The bytes `strlcat` writes behind a string of `len` bytes. -/
def strlcatBytes (size len : Nat) (src : Mem) : List Char :=
  (cstr src).take (size - len - 1) ++ [nul]

theorem length_strlcatBytes {len : Nat} (h : len < size) (src : Mem) :
    len + (strlcatBytes size len src).length ≤ size := by
  rw [strlcatBytes, List.length_append, List.length_take, List.length_singleton]
  omega

/-- `strlcat` of `sizeof(a)`: the array, and the length of the string it tried to
make. -/
def strlcat (a : CharArray size) (src : Mem) : CharArray size × Nat :=
  if h : strlen a.bytes < size then
    (⟨overwrite a.bytes (strlen a.bytes) (strlcatBytes size (strlen a.bytes) src),
        a.length_store (length_strlcatBytes h src)⟩, strlen a.bytes + strlen src)
  else (a, size + strlen src)

/-- `strlcpy` of `sizeof(a)`: the array, and the length of the source. -/
def strlcpy (a : CharArray size) (src : Mem) : CharArray size × Nat :=
  if h : 0 < size then
    (⟨overwrite a.bytes 0 (strlcatBytes size 0 src), a.length_store (length_strlcatBytes h src)⟩,
      strlen src)
  else (a, strlen src)

/-- `sprintf`, for a format that makes `text` of its arguments; `strcpy` of a text does
the same. -/
def sprintf (a : CharArray size) (text : List Char) : Option (CharArray size) :=
  a.store 0 (text ++ [nul])

/-- The bytes `vsnprintf` writes into an array of some bytes. -/
def vsnprintfBytes (size : Nat) (text : List Char) : List Char := text.take (size - 1) ++ [nul]

/-- `vsnprintf` with `sizeof(a)`, for a format that makes `text` of its arguments:
the array, and the length of the text, or -1 when no `int` holds it. -/
def vsnprintf (a : CharArray size) (text : List Char) : CharArray size × Int32 :=
  ((a.store 0 (vsnprintfBytes size text)).getD a,
    if text.length < 2 ^ 31 then Int32.ofNat text.length else -1)

/-- The first `n` bytes, if the array has so many. -/
def read (a : CharArray size) (n : Nat) : Option (List Char) :=
  if n ≤ size then some (a.bytes.take n) else none

/-! ### The string behind a store -/

/-- Text behind the string makes it longer by its length. -/
theorem strlen_of_string {a a' : CharArray size} {s : List Char} (h : a'.string = a.string ++ s) :
    strlen a'.bytes = strlen a.bytes + s.length := by
  have hlen := congrArg List.length h
  rw [List.length_append] at hlen
  exact hlen

@[simp] theorem string_clear (a : CharArray size) : a.clear.string = [] := by
  obtain ⟨bytes, hlen⟩ := a
  unfold string clear
  cases bytes with
  | nil => rfl
  | cons c bytes => simp [cstr]

theorem store_of_le (a : CharArray size) {off : Nat} {s : List Char} (h : off + s.length ≤ size) :
    ∃ a', a.store off s = some a' ∧ a'.bytes = overwrite a.bytes off s := by
  unfold store
  rw [dif_pos h]
  exact ⟨_, rfl, rfl⟩

theorem store_of_lt (a : CharArray size) {off : Nat} {s : List Char} (h : size < off + s.length) :
    a.store off s = none := by
  unfold store
  rw [dif_neg (Nat.not_le_of_lt h)]

/-- A string and a NUL stored over the end of the string behind it. -/
theorem cstr_overwrite_end (m : Mem) {s : List Char} (h : nul ∉ s) :
    cstr (overwrite m (strlen m) (s ++ [nul])) = cstr m ++ s := by
  have htake : m.take (strlen m) = cstr m :=
    (List.prefix_iff_eq_take.mp (List.takeWhile_prefix _)).symm
  have hfree : nul ∉ cstr m ++ s := by
    rw [List.mem_append, not_or]
    exact ⟨nul_not_mem_cstr m, h⟩
  rw [overwrite, htake, ← List.append_assoc, List.append_assoc, List.singleton_append]
  exact cstr_terminated hfree _

/-- **`strcat` appends** when the string and its NUL fit. -/
theorem string_strcat (a : CharArray size) {src : Mem}
    (h : strlen a.bytes + strlen src + 1 ≤ size) :
    ∃ a', a.strcat src = some a' ∧ a'.string = a.string ++ cstr src := by
  have hfits : strlen a.bytes + (cstr src ++ [nul]).length ≤ size := by
    rw [List.length_append, List.length_singleton]
    exact h
  obtain ⟨a', hstore, hbytes⟩ := a.store_of_le hfits
  refine ⟨a', hstore, ?_⟩
  rw [string, hbytes]
  exact cstr_overwrite_end a.bytes (nul_not_mem_cstr src)

/-- **`strncat` appends** what fits the count. -/
theorem string_strncat (a : CharArray size) (src : Mem) {count : Nat}
    (h : strlen a.bytes + count + 1 ≤ size) :
    ∃ a', a.strncat src count = some a' ∧ a'.string = a.string ++ (cstr src).take count := by
  have hfits : strlen a.bytes + ((cstr src).take count ++ [nul]).length ≤ size := by
    rw [List.length_append, List.length_take, List.length_singleton]
    omega
  obtain ⟨a', hstore, hbytes⟩ := a.store_of_le hfits
  refine ⟨a', hstore, ?_⟩
  rw [string, hbytes]
  exact cstr_overwrite_end a.bytes fun hmem => nul_not_mem_cstr src (List.mem_of_mem_take hmem)

/-- It writes behind the array when they do not. -/
theorem strcat_of_lt (a : CharArray size) {src : Mem}
    (h : size < strlen a.bytes + strlen src + 1) : a.strcat src = none := by
  apply a.store_of_lt
  rw [List.length_append, List.length_singleton]
  exact h

/-- **`strlcat` appends** when the string and its NUL fit, and says so. -/
theorem string_strlcat (a : CharArray size) {src : Mem}
    (h : strlen a.bytes + strlen src + 1 ≤ size) :
    (a.strlcat src).1.string = a.string ++ cstr src ∧ (a.strlcat src).2 < size := by
  have hlt : strlen a.bytes < size := by omega
  have hall : strlcatBytes size (strlen a.bytes) src = cstr src ++ [nul] := by
    have hlen : (cstr src).length ≤ size - strlen a.bytes - 1 := by
      have hsrc : (cstr src).length = strlen src := rfl
      omega
    rw [strlcatBytes, List.take_of_length_le hlen]
  unfold strlcat
  rw [dif_pos hlt]
  constructor
  · rw [string]
    dsimp only
    rw [hall]
    exact cstr_overwrite_end a.bytes (nul_not_mem_cstr src)
  · dsimp only
    omega

/-- **`strlcpy` copies** a string that fits with its NUL, and says so. -/
theorem string_strlcpy (a : CharArray size) {src : Mem} (h : strlen src < size) :
    (a.strlcpy src).1.string = cstr src ∧ (a.strlcpy src).2 < size := by
  have hlen : (cstr src).length ≤ size - 0 - 1 := by
    have hsrc : (cstr src).length = strlen src := rfl
    omega
  have hall : strlcatBytes size 0 src = cstr src ++ [nul] := by
    rw [strlcatBytes, List.take_of_length_le hlen]
  unfold strlcpy
  rw [dif_pos (Nat.zero_lt_of_lt h)]
  refine ⟨?_, h⟩
  rw [string]
  dsimp only
  rw [hall, overwrite, List.take_zero, List.nil_append, List.append_assoc, List.singleton_append]
  exact cstr_terminated (nul_not_mem_cstr src) _

theorem sprintf_of_lt (a : CharArray size) {text : List Char} (h : text.length < size) :
    ∃ a', a.sprintf text = some a' ∧ a'.bytes = overwrite a.bytes 0 (text ++ [nul]) := by
  apply a.store_of_le
  rw [List.length_append, List.length_singleton]
  omega

/-- A longer one goes behind the array. -/
theorem sprintf_of_le (a : CharArray size) {text : List Char} (h : size ≤ text.length) :
    a.sprintf text = none := by
  apply a.store_of_lt
  rw [List.length_append, List.length_singleton]
  omega

/-- **`sprintf` writes** a text that fits with its NUL. -/
theorem string_sprintf (a : CharArray size) {text : List Char} (h : text.length < size)
    (hfree : nul ∉ text) : ∃ a', a.sprintf text = some a' ∧ a'.string = text := by
  obtain ⟨a', hstore, hbytes⟩ := a.sprintf_of_lt h
  refine ⟨a', hstore, ?_⟩
  rw [string, hbytes, overwrite, List.take_zero, List.nil_append, List.append_assoc,
    List.singleton_append]
  exact cstr_terminated hfree _

/-- What `sprintf` has written is there. -/
theorem string_of_sprintf {a a' : CharArray size} {text : List Char}
    (h : a.sprintf text = some a') (hfree : nul ∉ text) : a'.string = text := by
  by_cases hfits : text.length < size
  · obtain ⟨b, hb, hstring⟩ := a.string_sprintf hfits hfree
    obtain rfl := Option.some.inj (h.symm.trans hb)
    exact hstring
  · rw [a.sprintf_of_le (Nat.le_of_not_lt hfits)] at h
    cases h

/-- What an array of at least one byte holds behind `vsnprintf`. -/
theorem bytes_vsnprintf (a : CharArray size) (hsize : 0 < size) (text : List Char) :
    ∃ rest, (a.vsnprintf text).1.bytes = vsnprintfBytes size text ++ rest := by
  have hfits : 0 + (vsnprintfBytes size text).length ≤ size := by
    rw [vsnprintfBytes, List.length_append, List.length_take, List.length_singleton]
    omega
  obtain ⟨a', hstore, hbytes⟩ := a.store_of_le hfits
  refine ⟨a.bytes.drop (0 + (vsnprintfBytes size text).length), ?_⟩
  unfold vsnprintf
  dsimp only
  rw [hstore, Option.getD_some, hbytes, overwrite, List.take_zero, List.nil_append]

theorem vsnprintf_length (a : CharArray size) {text : List Char} (h : text.length < 2 ^ 31) :
    (a.vsnprintf text).2.toInt = text.length := by
  unfold vsnprintf
  dsimp only
  rw [if_pos h]
  exact Int32.toInt_ofNat_of_lt h

theorem vsnprintf_tooLong (a : CharArray size) {text : List Char} (h : 2 ^ 31 ≤ text.length) :
    (a.vsnprintf text).2 = -1 := by
  unfold vsnprintf
  dsimp only
  rw [if_neg (Nat.not_lt_of_le h)]

/-- **A text that was not cut** is read back whole. -/
theorem read_vsnprintf (a : CharArray size) {text : List Char} (h : text.length < size) :
    (a.vsnprintf text).1.read text.length = some text := by
  obtain ⟨rest, hbytes⟩ := a.bytes_vsnprintf (Nat.zero_lt_of_lt h) text
  have hwhole : text.take (size - 1) = text := List.take_of_length_le (by omega)
  rw [read, if_pos h.le, hbytes, vsnprintfBytes, hwhole, List.append_assoc, List.take_left]

/-- A text of the size of the array has its last byte replaced by the NUL. -/
theorem read_vsnprintf_eq (a : CharArray size) (hsize : 0 < size) {text : List Char}
    (h : text.length = size) :
    (a.vsnprintf text).1.read text.length = some (text.take (size - 1) ++ [nul]) := by
  obtain ⟨rest, hbytes⟩ := a.bytes_vsnprintf hsize text
  have hlen : (vsnprintfBytes size text).length = text.length := by
    rw [vsnprintfBytes, List.length_append, List.length_take, List.length_singleton]
    omega
  rw [read, if_pos h.le, hbytes, ← hlen, List.take_left, vsnprintfBytes]

/-- Behind a longer one the array ends before the text does. -/
theorem read_of_lt (a : CharArray size) {n : Nat} (h : size < n) : a.read n = none := by
  rw [read, if_neg (Nat.not_le_of_lt h)]

end CharArray

end CText
