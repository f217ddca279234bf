import Mathlib.Data.Nat.Digits.Lemmas
import Mathlib.Tactic.Common

/-!
# Members of a struct in memory

A struct is a row of bytes, and a member a place in it.  `fill` stores what was
read from a file over the front of a struct; behind it the old bytes stay.

A member that the bytes cover is what they say (`bytes_fill`); one that they do
not reach the end of is not (`bytes_fill_ne`).
-/

namespace StructLayout

/-- Where a member stands, and whether its number has a sign. -/
structure Member where
  offset : Nat
  size : Nat
  signed : Bool
  deriving DecidableEq

/-- The first offset behind a member. -/
def Member.stop (m : Member) : Nat := m.offset + m.size

/-- The bytes of a member. -/
def Member.bytes (m : Member) (mem : List UInt8) : List UInt8 := (mem.drop m.offset).take m.size

/-- The unsigned number that bytes stand for. -/
def number (bigEndian : Bool) (bytes : List UInt8) : Nat :=
  Nat.ofDigits 256 ((if bigEndian then bytes.reverse else bytes).map UInt8.toNat)

/-- The value of a number of the width of a member, in 64 bits: what an assignment to a
`long` would store.  What is passed in a call is another matter. -/
def Member.extend (m : Member) (n : Nat) : UInt64 :=
  let n := n % 256 ^ m.size
  if m.signed && 256 ^ m.size ≤ 2 * n then UInt64.ofNat (n + (2 ^ 64 - 256 ^ m.size))
  else UInt64.ofNat n

/-- The number in a member. -/
def Member.word (m : Member) (bigEndian : Bool) (mem : List UInt8) : UInt64 :=
  m.extend (number bigEndian (m.bytes mem))

/-- The bytes of a file stored over the front of a struct. -/
def fill (mem bytes : List UInt8) : List UInt8 := bytes.take mem.length ++ mem.drop bytes.length

theorem length_fill (mem bytes : List UInt8) : (fill mem bytes).length = mem.length := by
  rw [fill, List.length_append, List.length_take, List.length_drop]
  omega

/-- **A member that was read** is what the file said. -/
theorem bytes_fill {m : Member} {mem bytes : List UInt8} (hread : m.stop ≤ bytes.length)
    (hinside : m.stop ≤ mem.length) : m.bytes (fill mem bytes) = m.bytes bytes := by
  have hfront : (fill mem bytes).take m.stop = bytes.take m.stop := by
    have hlen : m.stop ≤ (bytes.take mem.length).length := by
      rw [List.length_take]
      exact Nat.le_min.mpr ⟨hinside, hread⟩
    rw [fill, List.take_append_of_le_length hlen, List.take_take, Nat.min_eq_left hinside]
  have hbytes : ∀ l : List UInt8, m.bytes l = (l.take m.stop).drop m.offset := by
    intro l
    rw [Member.bytes, Member.stop, List.drop_take, Nat.add_sub_cancel_left]
  rw [hbytes, hbytes, hfront]

/-- **A member that was not read to its end** still depends on what stood there. -/
theorem bytes_fill_ne {m : Member} {bytes : List UInt8} {n : Nat} (hsize : 0 < m.size)
    (hshort : bytes.length < m.stop) (hinside : m.stop ≤ n) :
    m.bytes (fill (List.replicate n 0) bytes) ≠ m.bytes (fill (List.replicate n 1) bytes) := by
  have hlast : ∀ b : UInt8,
      (m.bytes (fill (List.replicate n b) bytes))[m.size - 1]? = some b := by
    intro b
    have hback : bytes.take n = bytes := List.take_of_length_le (by omega)
    rw [Member.bytes, fill, List.length_replicate, hback, List.getElem?_take_of_lt (by omega),
      List.getElem?_drop, List.getElem?_append_right (by unfold Member.stop at hshort; omega),
      List.drop_replicate, List.getElem?_replicate]
    rw [if_pos (by unfold Member.stop at hshort hinside; omega)]
  intro heq
  have hzero := hlast 0
  rw [heq, hlast 1] at hzero
  exact absurd hzero (by decide)

theorem toNat_lt_of_mem_map {bytes : List UInt8} {d : Nat} (hd : d ∈ bytes.map UInt8.toNat) :
    d < 256 := by
  obtain ⟨b, -, rfl⟩ := List.mem_map.mp hd
  exact b.toNat_lt

theorem number_lt (bigEndian : Bool) (bytes : List UInt8) :
    number bigEndian bytes < 256 ^ bytes.length := by
  unfold number
  have hdigits : ∀ d ∈ (if bigEndian then bytes.reverse else bytes).map UInt8.toNat, d < 256 :=
    fun _ => toNat_lt_of_mem_map
  have hlt := Nat.ofDigits_lt_base_pow_length (by decide) hdigits
  cases bigEndian <;> simpa using hlt

/-- Bytes of one length are known by their number. -/
theorem number_inj {bigEndian : Bool} {bytes bytes' : List UInt8}
    (hlen : bytes.length = bytes'.length) (h : number bigEndian bytes = number bigEndian bytes') :
    bytes = bytes' := by
  unfold number at h
  have hdigits : ∀ l : List UInt8, ∀ d ∈ l.map UInt8.toNat, d < 256 :=
    fun _ _ => toNat_lt_of_mem_map
  have hinj : Function.Injective UInt8.toNat := fun _ _ hb => UInt8.toNat_inj.mp hb
  cases bigEndian with
  | false =>
      have hmap := Nat.ofDigits_inj_of_len_eq (by decide) (by simpa using hlen) (hdigits _)
        (hdigits _) h
      exact List.map_injective_iff.mpr hinj hmap
  | true =>
      have hmap := Nat.ofDigits_inj_of_len_eq (by decide) (by simpa using hlen) (hdigits _)
        (hdigits _) h
      exact List.reverse_injective (List.map_injective_iff.mpr hinj hmap)

/-- The lower half of an extended number of 4 bytes is the number. -/
theorem Member.toUInt32_extend {m : Member} (hsize : m.size = 4) {n : Nat} (hn : n < 256 ^ 4) :
    (m.extend n).toUInt32 = UInt32.ofNat n := by
  unfold Member.extend
  rw [hsize]
  dsimp only
  rw [Nat.mod_eq_of_lt hn]
  apply UInt32.toNat_inj.mp
  split
  · rw [UInt64.toNat_toUInt32, UInt64.toNat_ofNat', UInt32.toNat_ofNat']
    omega
  · rw [UInt64.toNat_toUInt32, UInt64.toNat_ofNat', UInt32.toNat_ofNat']
    omega

theorem Member.length_bytes {m : Member} {mem : List UInt8} (hinside : m.stop ≤ mem.length) :
    (m.bytes mem).length = m.size := by
  rw [Member.bytes, List.length_take, List.length_drop]
  unfold Member.stop at hinside
  omega

/-- **A member of 4 bytes is known by the lower half of its number.** -/
theorem Member.bytes_eq_of_word {m : Member} (hsize : m.size = 4) {bigEndian : Bool}
    {mem mem' : List UInt8} (hinside : m.stop ≤ mem.length) (hinside' : m.stop ≤ mem'.length)
    (h : (m.word bigEndian mem).toUInt32 = (m.word bigEndian mem').toUInt32) :
    m.bytes mem = m.bytes mem' := by
  have hlen := m.length_bytes hinside
  have hlen' := m.length_bytes hinside'
  have hlt := number_lt bigEndian (m.bytes mem)
  have hlt' := number_lt bigEndian (m.bytes mem')
  rw [hlen, hsize] at hlt
  rw [hlen', hsize] at hlt'
  unfold Member.word at h
  rw [m.toUInt32_extend hsize hlt, m.toUInt32_extend hsize hlt'] at h
  have hnat := congrArg UInt32.toNat h
  rw [UInt32.toNat_ofNat', UInt32.toNat_ofNat'] at hnat
  have hnumber : number bigEndian (m.bytes mem) = number bigEndian (m.bytes mem') := by omega
  exact number_inj (hlen.trans hlen'.symm) hnumber

end StructLayout
