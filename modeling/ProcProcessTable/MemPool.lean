import ProcProcessTable.CText

/-!
# A stack-disciplined memory pool

An obstack is a stack of finished objects with one growing object on top.
Releasing an object releases everything allocated after it, so an object is
named by its height in the stack: a dangling pointer is a height at which
later allocations may put something else.  Fresh memory is not cleared; what
the `k`-th raw allocation finds is given by a `Residue`, over which every
statement quantifies.

`releases` records each release with the objects alive at that moment.  No
operation reads it.  `Disciplined safe p` says that every release made so far
was allowed by `safe`.  The discipline of a helper is `Pushed p new q`: it
leaves the stack it found with `new` on top, and releases nothing older.
-/

namespace MemPool

open CText

variable {ρ : Type}

/-- A finished object: grown byte by byte, or allocated whole as a record. -/
inductive Block (ρ : Type)
  | bytes (m : Mem)
  | record (r : ρ)

/-- A release: the object named and the stack it was made on. -/
structure Release (ρ : Type) where
  live : List (Block ρ)
  ptr : Nat

/-- The pool: finished objects from the bottom up, the growing object, the
number of raw allocations so far, and the releases made. -/
structure Pool (ρ : Type) where
  finished : List (Block ρ)
  growing : Mem
  clock : Nat
  releases : List (Release ρ)

/-- What raw memory holds when it is handed out. -/
structure Residue (ρ : Type) where
  byte : Nat → Nat → Char
  record : Nat → ρ

namespace Pool

/-- `obstack_init`. -/
def init : Pool ρ := ⟨[], [], 0, []⟩

/-- Append known bytes to the growing object: `obstack_grow`, `obstack_1grow`,
`obstack_printf`. -/
def grow (p : Pool ρ) (s : List Char) : Pool ρ := { p with growing := p.growing ++ s }

/-- `obstack_blank`: append `n` uncleared bytes to the growing object. -/
def blank (res : Residue ρ) (n : Nat) (p : Pool ρ) : Pool ρ :=
  { p with
    growing := p.growing ++ (List.range n).map (res.byte p.clock)
    clock := p.clock + 1 }

/-- Store bytes into the growing object, `off` bytes from its base. -/
def poke (p : Pool ρ) (off : Nat) (s : List Char) : Pool ρ :=
  { p with growing := overwrite p.growing off s }

/-- `obstack_finish`: the growing object becomes the top of the stack. -/
def finish (p : Pool ρ) : Nat × Pool ρ :=
  (p.finished.length, { p with finished := p.finished ++ [.bytes p.growing], growing := [] })

/-- `obstack_alloc` of a byte array. -/
def alloc (res : Residue ρ) (n : Nat) (p : Pool ρ) : Nat × Pool ρ := (p.blank res n).finish

/-- `obstack_alloc` of a record. -/
def allocRecord (res : Residue ρ) (p : Pool ρ) : Nat × Pool ρ :=
  (p.finished.length,
    { p with finished := p.finished ++ [.record (res.record p.clock)], clock := p.clock + 1 })

/-- `obstack_free`: release an object and everything allocated after it. -/
def free (p : Pool ρ) (ptr : Nat) : Pool ρ :=
  { p with
    finished := p.finished.take ptr
    growing := []
    releases := p.releases ++ [⟨p.finished, ptr⟩] }

/-- The bytes a pointer reaches. -/
def bytesAt (p : Pool ρ) (ptr : Nat) : Mem :=
  match p.finished[ptr]? with
  | some (.bytes m) => m
  | _ => []

/-- Change the bytes of an object in place. -/
def modifyBytes (p : Pool ρ) (ptr : Nat) (f : Mem → Mem) : Pool ρ :=
  match p.finished[ptr]? with
  | some (.bytes m) => { p with finished := p.finished.set ptr (.bytes (f m)) }
  | _ => p

/-- The record a pointer reaches. -/
def recordAt? (p : Pool ρ) (ptr : Nat) : Option ρ :=
  match p.finished[ptr]? with
  | some (.record r) => some r
  | _ => none

/-- Change a record in place. -/
def modifyRecord (p : Pool ρ) (ptr : Nat) (f : ρ → ρ) : Pool ρ :=
  match p.finished[ptr]? with
  | some (.record r) => { p with finished := p.finished.set ptr (.record (f r)) }
  | _ => p

/-- Every release made so far was allowed. -/
def Disciplined (safe : List (Block ρ) → Nat → Prop) (p : Pool ρ) : Prop :=
  ∀ r ∈ p.releases, safe r.live r.ptr

@[simp] theorem grow_finished (p : Pool ρ) (s : List Char) :
    (p.grow s).finished = p.finished := rfl

@[simp] theorem poke_finished (p : Pool ρ) (off : Nat) (s : List Char) :
    (p.poke off s).finished = p.finished := rfl

@[simp] theorem finish_ptr (p : Pool ρ) : p.finish.1 = p.finished.length := rfl

@[simp] theorem finish_finished (p : Pool ρ) :
    p.finish.2.finished = p.finished ++ [.bytes p.growing] := rfl

@[simp] theorem free_finished (p : Pool ρ) (ptr : Nat) :
    (p.free ptr).finished = p.finished.take ptr := rfl

@[simp] theorem free_growing (p : Pool ρ) (ptr : Nat) : (p.free ptr).growing = [] := rfl

@[simp] theorem modifyBytes_growing (p : Pool ρ) (ptr : Nat) (f : Mem → Mem) :
    (p.modifyBytes ptr f).growing = p.growing := by
  unfold modifyBytes
  split <;> rfl

@[simp] theorem modifyRecord_growing (p : Pool ρ) (ptr : Nat) (f : ρ → ρ) :
    (p.modifyRecord ptr f).growing = p.growing := by
  unfold modifyRecord
  split <;> rfl

/-- A pointer below the top of the stack reaches the same object after a push. -/
theorem getElem?_append_of_some {xs ys : List (Block ρ)} {i : Nat} {b : Block ρ}
    (h : xs[i]? = some b) : (xs ++ ys)[i]? = some b := by
  have hlt : i < xs.length := (List.getElem?_eq_some_iff.mp h).1
  rw [List.getElem?_append_left hlt]
  exact h

/-- A pointer that reaches an object lies below the top of the stack. -/
theorem lt_of_getElem? {xs : List (Block ρ)} {i : Nat} {b : Block ρ}
    (h : xs[i]? = some b) : i < xs.length :=
  (List.getElem?_eq_some_iff.mp h).1

/-- The text of an object that is one. -/
theorem bytesAt_of_getElem? {p : Pool ρ} {ptr : Nat} {m : Mem}
    (h : p.finished[ptr]? = some (.bytes m)) : p.bytesAt ptr = m := by
  simp [bytesAt, h]

/-- And the record of one. -/
theorem recordAt?_of_getElem? {p : Pool ρ} {ptr : Nat} {r : ρ}
    (h : p.finished[ptr]? = some (.record r)) : p.recordAt? ptr = some r := by
  simp [recordAt?, h]

/-- Bytes are changed where they stand. -/
theorem modifyBytes_eq {p : Pool ρ} {ptr : Nat} {m : Mem} (f : Mem → Mem)
    (h : p.finished[ptr]? = some (.bytes m)) :
    p.modifyBytes ptr f = { p with finished := p.finished.set ptr (.bytes (f m)) } := by
  unfold modifyBytes
  rw [h]

/-- And so is a record. -/
theorem modifyRecord_eq {p : Pool ρ} {ptr : Nat} {r : ρ} (f : ρ → ρ)
    (h : p.finished[ptr]? = some (.record r)) :
    p.modifyRecord ptr f = { p with finished := p.finished.set ptr (.record (f r)) } := by
  unfold modifyRecord
  rw [h]

/-- The stack behind a change of text. -/
theorem modifyBytes_finished {p : Pool ρ} {ptr : Nat} {m : Mem} (f : Mem → Mem)
    (h : p.finished[ptr]? = some (.bytes m)) :
    (p.modifyBytes ptr f).finished = p.finished.set ptr (.bytes (f m)) := by
  rw [modifyBytes_eq f h]

/-- And behind that of a record. -/
theorem modifyRecord_finished {p : Pool ρ} {ptr : Nat} {r : ρ} (f : ρ → ρ)
    (h : p.finished[ptr]? = some (.record r)) :
    (p.modifyRecord ptr f).finished = p.finished.set ptr (.record (f r)) := by
  rw [modifyRecord_eq f h]

/-- Changing a record changes no bytes. -/
@[simp] theorem bytesAt_modifyRecord (p : Pool ρ) (ptr q : Nat) (f : ρ → ρ) :
    (p.modifyRecord ptr f).bytesAt q = p.bytesAt q := by
  unfold modifyRecord
  split
  · next r hr =>
      rw [bytesAt, bytesAt, List.getElem?_set]
      by_cases hq : ptr = q
      · subst hq
        rw [if_pos rfl, if_pos (lt_of_getElem? hr), hr]
      · rw [if_neg hq]
  · rfl

/-- Changing bytes changes no record. -/
@[simp] theorem recordAt?_modifyBytes (p : Pool ρ) (ptr q : Nat) (f : Mem → Mem) :
    (p.modifyBytes ptr f).recordAt? q = p.recordAt? q := by
  unfold modifyBytes
  split
  · next m hm =>
      rw [recordAt?, recordAt?, List.getElem?_set]
      by_cases hq : ptr = q
      · subst hq
        rw [if_pos rfl, if_pos (lt_of_getElem? hm), hm]
      · rw [if_neg hq]
  · rfl

/-- A record that was changed is read back changed. -/
theorem recordAt?_modifyRecord_self {p : Pool ρ} {ptr : Nat} {r : ρ}
    (h : p.recordAt? ptr = some r) (f : ρ → ρ) :
    (p.modifyRecord ptr f).recordAt? ptr = some (f r) := by
  unfold recordAt? at h
  split at h
  · next r' hr =>
      obtain rfl := Option.some.inj h
      apply recordAt?_of_getElem?
      rw [modifyRecord_finished f hr, List.getElem?_set_self (lt_of_getElem? hr)]
  · cases h

/-- A record stays where it is when something is pushed. -/
theorem recordAt?_append {p q : Pool ρ} {new : List (Block ρ)} {ptr : Nat} {r : ρ}
    (hfin : q.finished = p.finished ++ new) (h : p.recordAt? ptr = some r) :
    q.recordAt? ptr = some r := by
  unfold recordAt? at h
  split at h
  · next r' hr =>
      obtain rfl := Option.some.inj h
      apply recordAt?_of_getElem?
      rw [hfin]
      exact getElem?_append_of_some hr
  · cases h

/-- Changing the bytes of one object changes no other. -/
theorem bytesAt_modifyBytes_of_ne (p : Pool ρ) {ptr q : Nat} (hne : q ≠ ptr) (f : Mem → Mem) :
    (p.modifyBytes ptr f).bytesAt q = p.bytesAt q := by
  unfold modifyBytes
  split
  · rw [bytesAt, bytesAt, List.getElem?_set_ne hne.symm]
  · rfl

/-- A change of text is what is read there, for a function that makes nothing of nothing. -/
theorem bytesAt_modifyBytes_self (p : Pool ρ) (ptr : Nat) {f : Mem → Mem} (hnil : f [] = []) :
    (p.modifyBytes ptr f).bytesAt ptr = f (p.bytesAt ptr) := by
  unfold modifyBytes
  split
  · next m hm =>
      rw [bytesAt, List.getElem?_set_self (lt_of_getElem? hm), bytesAt_of_getElem? hm]
  · next hm =>
      rw [bytesAt]
      split
      · exact absurd ‹_› (hm _)
      · exact hnil.symm

/-- A release keeps what lies below. -/
theorem bytesAt_free (p : Pool ρ) {ptr q : Nat} (hlt : q < ptr) :
    (p.free ptr).bytesAt q = p.bytesAt q := by
  rw [bytesAt, bytesAt, free_finished, List.getElem?_take_of_lt hlt]

section Discipline

variable {safe : List (Block ρ) → Nat → Prop} {p : Pool ρ}

@[simp] theorem disciplined_grow (s : List Char) :
    Disciplined safe (p.grow s) ↔ Disciplined safe p := Iff.rfl

@[simp] theorem disciplined_blank (res : Residue ρ) (n : Nat) :
    Disciplined safe (p.blank res n) ↔ Disciplined safe p := Iff.rfl

@[simp] theorem disciplined_poke (off : Nat) (s : List Char) :
    Disciplined safe (p.poke off s) ↔ Disciplined safe p := Iff.rfl

@[simp] theorem disciplined_finish : Disciplined safe p.finish.2 ↔ Disciplined safe p := Iff.rfl

/-- To change an object releases none. -/
@[simp] theorem disciplined_modifyBytes (ptr : Nat) (f : Mem → Mem) :
    Disciplined safe (p.modifyBytes ptr f) ↔ Disciplined safe p := by
  unfold modifyBytes
  split <;> rfl

@[simp] theorem disciplined_modifyRecord (ptr : Nat) (f : ρ → ρ) :
    Disciplined safe (p.modifyRecord ptr f) ↔ Disciplined safe p := by
  unfold modifyRecord
  split <;> rfl

/-- A release keeps the discipline when it is allowed on the present stack. -/
theorem Disciplined.free {ptr : Nat} (hp : Disciplined safe p) (hsafe : safe p.finished ptr) :
    Disciplined safe (p.free ptr) := by
  intro r hr
  rcases List.mem_append.mp hr with h | h
  · exact hp r h
  · rw [List.mem_singleton.mp h]
    exact hsafe

end Discipline

/-- `q` comes from `p` by pushing `new` and by releases of nothing older than
`p`'s top. -/
structure Pushed (p : Pool ρ) (new : List (Block ρ)) (q : Pool ρ) : Prop where
  finished : q.finished = p.finished ++ new
  growing : q.growing = []
  disciplined : ∀ safe : List (Block ρ) → Nat → Prop,
    (∀ tmp n, p.finished.length ≤ n → safe (p.finished ++ tmp) n) →
      Disciplined safe p → Disciplined safe q

/-- Nothing pushed. -/
theorem Pushed.refl {p : Pool ρ} (h : p.growing = []) : Pushed p [] p :=
  ⟨by simp, h, fun _ _ hp => hp⟩

/-- A push keeps what lies below. -/
theorem Pushed.bytesAt_below {p q : Pool ρ} {new : List (Block ρ)} (h : Pushed p new q) {i : Nat}
    (hi : i < p.finished.length) : q.bytesAt i = p.bytesAt i := by
  rw [bytesAt, bytesAt, h.finished, List.getElem?_append_left hi]

/-- Two pushes in a row. -/
theorem Pushed.trans {p q r : Pool ρ} {new new' : List (Block ρ)}
    (hpq : Pushed p new q) (hqr : Pushed q new' r) : Pushed p (new ++ new') r := by
  refine ⟨?_, hqr.growing, ?_⟩
  · rw [hqr.finished, hpq.finished, List.append_assoc]
  · intro safe hsafe hp
    apply hqr.disciplined safe _ (hpq.disciplined safe hsafe hp)
    intro tmp n hn
    rw [hpq.finished, List.append_assoc]
    refine hsafe _ n (Nat.le_trans ?_ hn)
    rw [hpq.finished, List.length_append]
    exact Nat.le_add_right _ _

/-- Finishing a growing object pushes it. -/
theorem Pushed.of_finish {p q : Pool ρ} (hfin : q.finished = p.finished)
    (hrel : q.releases = p.releases) : Pushed p [.bytes q.growing] q.finish.2 := by
  refine ⟨by rw [finish_finished, hfin], rfl, ?_⟩
  intro safe _ hp r hr
  exact hp r (hrel ▸ hr)

/-- **A temporary leaves no trace.**  Releasing what was pushed restores the
stack, and the release names nothing older. -/
theorem Pushed.free {p q : Pool ρ} {new : List (Block ρ)} (h : Pushed p new q) :
    Pushed p [] (q.free p.finished.length) := by
  refine ⟨by simp [h.finished], rfl, ?_⟩
  intro safe hsafe hp
  refine (h.disciplined safe hsafe hp).free ?_
  rw [h.finished]
  exact hsafe new _ (Nat.le_refl _)

/-- Rewriting the object that was pushed last. -/
theorem Pushed.modifyTop {p q : Pool ρ} {m : Mem} (h : Pushed p [.bytes m] q) (f : Mem → Mem) :
    Pushed p [.bytes (f m)] (q.modifyBytes p.finished.length f) := by
  have hat : q.finished[p.finished.length]? = some (.bytes m) := by
    rw [h.finished, List.getElem?_append_right (Nat.le_refl _)]
    simp
  refine ⟨?_, ?_, ?_⟩
  · rw [modifyBytes_finished f hat, h.finished, List.set_append_right _ _ (Nat.le_refl _),
      Nat.sub_self, List.set_cons_zero]
  · rw [modifyBytes_growing]
    exact h.growing
  · intro safe hsafe hp
    exact (disciplined_modifyBytes _ _).mpr (h.disciplined safe hsafe hp)

end Pool

end MemPool
