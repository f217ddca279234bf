import ProcProcessTable.MemPool

/-!
# Programs that use a memory pool

A program makes one request after the other and may go on as the answer says.
It keeps its pointers under the heights of the objects, so it can be run on the
stack of `MemPool.Pool` as well as on a pool that has addresses.

`Legal` is what a program owes its pool: it asks only for objects that are
there, it stays inside them, and what it appends fits into the address space.
-/

namespace MemPool

open CText

variable {ρ : Type}

/-- A request to the pool. -/
inductive Op (ρ : Type)
  | grow (s : List Char)
  | oneGrow (c : Char)
  | blank (n : Nat)
  | poke (off : Nat) (s : List Char)
  | finish
  | alloc (n : Nat)
  | free (ptr : Nat)
  | bytesAt (ptr : Nat)
  | modifyBytes (ptr : Nat) (f : Mem → Mem)
  | allocRecord
  | recordAt (ptr : Nat)
  | modifyRecord (ptr : Nat) (f : ρ → ρ)

/-- The same memory before the `n`-th raw allocation. -/
def Residue.Agrees (res' res : Residue ρ) (n : Nat) : Prop :=
  ∀ i < n, res'.byte i = res.byte i ∧ res'.record i = res.record i

/-- Memory as it was found by the `n`-th raw allocation. -/
def Residue.found (res : Residue ρ) (n : Nat) (bytes : Nat → Char) (r : ρ) : Residue ρ where
  byte := fun i => if i = n then bytes else res.byte i
  record := fun i => if i = n then r else res.record i

/-- What the next allocation finds does not change what the earlier ones found. -/
theorem Residue.found_agrees (res : Residue ρ) (n : Nat) (bytes : Nat → Char) (r : ρ) :
    (res.found n bytes r).Agrees res n := by
  intro i hi
  exact ⟨if_neg (Nat.ne_of_lt hi), if_neg (Nat.ne_of_lt hi)⟩

/-- To agree for longer is to agree for shorter. -/
theorem Residue.Agrees.trans {res₁ res₂ res₃ : Residue ρ} {n m : Nat} (h : res₁.Agrees res₂ m)
    (h' : res₂.Agrees res₃ n) (hle : n ≤ m) : res₁.Agrees res₃ n := by
  intro i hi
  obtain ⟨hbyte, hrecord⟩ := h i (Nat.lt_of_lt_of_le hi hle)
  exact ⟨hbyte.trans (h' i hi).1, hrecord.trans (h' i hi).2⟩

namespace Op

/-- What the pool answers. -/
abbrev Answer : Op ρ → Type
  | .finish => Nat
  | .alloc _ => Nat
  | .allocRecord => Nat
  | .bytesAt _ => Mem
  | .recordAt _ => Option ρ
  | _ => Unit

/-- A request to the stack. -/
def run (res : Residue ρ) : (op : Op ρ) → Pool ρ → op.Answer × Pool ρ
  | .grow s, p => ((), p.grow s)
  | .oneGrow c, p => ((), p.grow [c])
  | .blank n, p => ((), p.blank res n)
  | .poke off s, p => ((), p.poke off s)
  | .finish, p => p.finish
  | .alloc n, p => p.alloc res n
  | .free ptr, p => ((), p.free ptr)
  | .bytesAt ptr, p => (p.bytesAt ptr, p)
  | .modifyBytes ptr f, p => ((), p.modifyBytes ptr f)
  | .allocRecord, p => p.allocRecord res
  | .recordAt ptr, p => (p.recordAt? ptr, p)
  | .modifyRecord ptr f, p => ((), p.modifyRecord ptr f)

/-- The requests a program may make. -/
def Legal (word : Nat) : Op ρ → Pool ρ → Prop
  | .grow s, _ => s.length < word
  | .oneGrow _, _ => True
  | .blank n, _ => n < word
  | .poke off s, p => off + s.length ≤ p.growing.length
  | .finish, _ => True
  | .alloc n, p => n < word ∧ p.growing = []
  | .free ptr, p => ptr < p.finished.length
  | .bytesAt ptr, p => ∃ m, p.finished[ptr]? = some (.bytes m)
  | .modifyBytes ptr f, p => ∃ m, p.finished[ptr]? = some (.bytes m) ∧ (f m).length = m.length
  | .allocRecord, p => p.growing = []
  | .recordAt ptr, p => ∃ r, p.finished[ptr]? = some (.record r)
  | .modifyRecord ptr _, p => ∃ r, p.finished[ptr]? = some (.record r)

/-- A request reads the residue of no later moment than the one it ends at. -/
theorem run_congr {res res' : Residue ρ} (op : Op ρ) (p : Pool ρ)
    (h : res'.Agrees res (op.run res p).2.clock) : op.run res' p = op.run res p := by
  cases op with
  | blank n =>
      have hblank : Pool.blank res' n p = Pool.blank res n p := by
        unfold Pool.blank
        rw [(h p.clock (Nat.lt_succ_self _)).1]
      exact congrArg (Prod.mk ()) hblank
  | alloc n =>
      have hblank : Pool.blank res' n p = Pool.blank res n p := by
        unfold Pool.blank
        rw [(h p.clock (Nat.lt_succ_self _)).1]
      exact congrArg Pool.finish hblank
  | allocRecord =>
      have halloc : Pool.allocRecord res' p = Pool.allocRecord res p := by
        unfold Pool.allocRecord
        rw [(h p.clock (Nat.lt_succ_self _)).2]
      exact halloc
  | _ => rfl

/-- Time does not run backwards. -/
theorem clock_le (res : Residue ρ) (op : Op ρ) (p : Pool ρ) : p.clock ≤ (op.run res p).2.clock := by
  cases op with
  | blank n => exact Nat.le_succ _
  | alloc n => exact Nat.le_succ _
  | allocRecord => exact Nat.le_succ _
  | modifyBytes ptr f =>
      unfold run Pool.modifyBytes
      dsimp only
      split <;> exact Nat.le_refl _
  | modifyRecord ptr f =>
      unfold run Pool.modifyRecord
      dsimp only
      split <;> exact Nat.le_refl _
  | _ => exact Nat.le_refl _

end Op

/-- Requests, one after the other. -/
inductive Program (ρ α : Type)
  | done (a : α)
  | step (op : Op ρ) (next : op.Answer → Program ρ α)

namespace Program

variable {α β : Type}

/-- One program after the other. -/
def bind : Program ρ α → (α → Program ρ β) → Program ρ β
  | .done a, f => f a
  | .step op next, f => .step op fun answer => (next answer).bind f

instance : Monad (Program ρ) where
  pure := .done
  bind := bind

/-- The program that makes one request. -/
def request (op : Op ρ) : Program ρ op.Answer := .step op .done

def grow (s : List Char) : Program ρ Unit := request (.grow s)

def oneGrow (c : Char) : Program ρ Unit := request (.oneGrow c)

def blank (n : Nat) : Program ρ Unit := request (.blank n)

def poke (off : Nat) (s : List Char) : Program ρ Unit := request (.poke off s)

def finish : Program ρ Nat := request .finish

def alloc (n : Nat) : Program ρ Nat := request (.alloc n)

def free (ptr : Nat) : Program ρ Unit := request (.free ptr)

def bytesAt (ptr : Nat) : Program ρ Mem := request (.bytesAt ptr)

def modifyBytes (ptr : Nat) (f : Mem → Mem) : Program ρ Unit := request (.modifyBytes ptr f)

def allocRecord : Program ρ Nat := request .allocRecord

def recordAt? (ptr : Nat) : Program ρ (Option ρ) := request (.recordAt ptr)

def modifyRecord (ptr : Nat) (f : ρ → ρ) : Program ρ Unit := request (.modifyRecord ptr f)

/-- A program on the stack. -/
def run (res : Residue ρ) : Program ρ α → Pool ρ → α × Pool ρ
  | .done a, p => (a, p)
  | .step op next, p => (next (op.run res p).1).run res (op.run res p).2

/-- Every request is one the program may make. -/
def Legal (word : Nat) (res : Residue ρ) : Program ρ α → Pool ρ → Prop
  | .done _, _ => True
  | .step op next, p => op.Legal word p ∧ (next (op.run res p).1).Legal word res (op.run res p).2

section

variable {word : Nat} {res : Residue ρ}

/-- A program that asks for nothing leaves the stack as it is. -/
@[simp] theorem run_pure (a : α) (p : Pool ρ) : (pure a : Program ρ α).run res p = (a, p) := rfl

/-! ### On the stack each request is the operation of its name -/

section

variable (p : Pool ρ) (s : List Char) (n ptr : Nat)

@[simp] theorem run_grow : (grow s).run res p = ((), p.grow s) := rfl

@[simp] theorem run_oneGrow (c : Char) : (oneGrow c).run res p = ((), p.grow [c]) := rfl

@[simp] theorem run_blank : (blank n).run res p = ((), p.blank res n) := rfl

@[simp] theorem run_poke : (poke n s).run res p = ((), p.poke n s) := rfl

@[simp] theorem run_finish : (finish : Program ρ Nat).run res p = p.finish := rfl

@[simp] theorem run_alloc : (alloc n : Program ρ Nat).run res p = p.alloc res n := rfl

@[simp] theorem run_free : (free ptr).run res p = ((), p.free ptr) := rfl

@[simp] theorem run_bytesAt : (bytesAt ptr).run res p = (p.bytesAt ptr, p) := rfl

@[simp] theorem run_modifyBytes (f : Mem → Mem) :
    (modifyBytes ptr f).run res p = ((), p.modifyBytes ptr f) := rfl

@[simp] theorem run_allocRecord :
    (allocRecord : Program ρ Nat).run res p = p.allocRecord res := rfl

@[simp] theorem run_recordAt? : (recordAt? ptr).run res p = (p.recordAt? ptr, p) := rfl

@[simp] theorem run_modifyRecord (f : ρ → ρ) :
    (modifyRecord ptr f).run res p = ((), p.modifyRecord ptr f) := rfl

end

/-- **Two programs in a row** come to the second on the stack the first leaves. -/
@[simp] theorem run_bind (x : Program ρ α) (f : α → Program ρ β) (p : Pool ρ) :
    (x >>= f).run res p = (f (x.run res p).1).run res (x.run res p).2 := by
  show (x.bind f).run res p = _
  induction x generalizing p with
  | done a => rfl
  | step op next ih => exact ih _ _

/-- No request, nothing to ask of it. -/
@[simp] theorem legal_pure (a : α) (p : Pool ρ) : (pure a : Program ρ α).Legal word res p := trivial

/-! ### When a request is legal -/

section

variable (p : Pool ρ) (s : List Char) (n ptr : Nat)

/-- A single request is legal when the request is. -/
theorem legal_request (op : Op ρ) : (request op).Legal word res p ↔ op.Legal word p :=
  ⟨And.left, fun h => ⟨h, trivial⟩⟩

/-- What is appended has a length that the machine can count. -/
@[simp] theorem legal_grow : (grow s).Legal word res p ↔ s.length < word := legal_request p _

/-- A single character always may be. -/
@[simp] theorem legal_oneGrow (c : Char) : (oneGrow c).Legal word res p :=
  (legal_request p _).mpr trivial

/-- So does what is left blank. -/
@[simp] theorem legal_blank : (blank n).Legal word res p ↔ n < word := legal_request p _

/-- Only the growing object is written into. -/
@[simp] theorem legal_poke :
    (poke n s).Legal word res p ↔ n + s.length ≤ p.growing.length := legal_request p _

/-- An object may be finished at any time. -/
@[simp] theorem legal_finish : (finish : Program ρ Nat).Legal word res p :=
  (legal_request p _).mpr trivial

/-- `obstack_alloc` grows and finishes, so nothing may be growing. -/
@[simp] theorem legal_alloc :
    (alloc n : Program ρ Nat).Legal word res p ↔ n < word ∧ p.growing = [] := legal_request p _

/-- Only an object of the stack is freed. -/
@[simp] theorem legal_free : (free ptr).Legal word res p ↔ ptr < p.finished.length :=
  legal_request p _

/-- Characters are read from an object that is text. -/
@[simp] theorem legal_bytesAt :
    (bytesAt ptr).Legal word res p ↔ ∃ m, p.finished[ptr]? = some (.bytes m) := legal_request p _

/-- Text is changed in place. -/
@[simp] theorem legal_modifyBytes (f : Mem → Mem) : (modifyBytes ptr f).Legal word res p ↔
    ∃ m, p.finished[ptr]? = some (.bytes m) ∧ (f m).length = m.length := legal_request p _

/-- A record is allocated like a block. -/
@[simp] theorem legal_allocRecord :
    (allocRecord : Program ρ Nat).Legal word res p ↔ p.growing = [] := legal_request p _

/-- A record is read from an object that is one. -/
@[simp] theorem legal_recordAt? :
    (recordAt? ptr).Legal word res p ↔ ∃ r, p.finished[ptr]? = some (.record r) :=
  legal_request p _

/-- And changed there. -/
@[simp] theorem legal_modifyRecord (f : ρ → ρ) :
    (modifyRecord ptr f).Legal word res p ↔ ∃ r, p.finished[ptr]? = some (.record r) :=
  legal_request p _

end

/-- A program is legal part by part. -/
@[simp] theorem legal_bind (x : Program ρ α) (f : α → Program ρ β) (p : Pool ρ) :
    (x >>= f).Legal word res p ↔
      x.Legal word res p ∧ (f (x.run res p).1).Legal word res (x.run res p).2 := by
  show (x.bind f).Legal word res p ↔ _
  induction x generalizing p with
  | done a => exact ⟨fun h => ⟨trivial, h⟩, And.right⟩
  | step op next ih =>
      show op.Legal word p ∧ ((next (op.run res p).1).bind f).Legal word res (op.run res p).2 ↔ _
      rw [ih]
      exact and_assoc.symm

end

end Program

end MemPool
