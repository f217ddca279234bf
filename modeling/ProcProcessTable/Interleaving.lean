import Mathlib.Logic.Function.Basic
import Mathlib.Data.List.Basic

/-!
# Threads that take turns

Threads run code on shared data, one step at a time and in any order.  Some steps
show an event.  A specification takes one event after the other: it says which
events are allowed and what they change.

`Outline` is a proof in the manner of rely and guarantee: what a thread knows at
each of its places, what it promises to change at most, and that what it promises
disturbs no other thread.  `Outline.run` is what the proof is for: every run shows
a history that the specification accepts.

`Alone` is a run in which one thread moves; `Alone.exists_of_measure` lets it go
on until it is done.  `play` runs the threads in an order that is given.
-/

namespace Interleaving

/-- Where each thread stands, and the shared data. -/
structure Config (T L S : Type) where
  places : T → L
  shared : S

section

variable {T L S E : Type} [DecidableEq T]

/-- The thread moves, and the others stay where they are. -/
def Config.move (c : Config T L S) (t : T) (l : L) (s : S) : Config T L S :=
  ⟨Function.update c.places t l, s⟩

/-- The thread stands where it moved to. -/
@[simp] theorem Config.move_places_self (c : Config T L S) (t : T) (l : L) (s : S) :
    (c.move t l s).places t = l := by
  unfold Config.move
  exact Function.update_self t l c.places

/-- The others stand where they stood. -/
theorem Config.move_places_of_ne (c : Config T L S) {t u : T} (h : u ≠ t) (l : L) (s : S) :
    (c.move t l s).places u = c.places u := by
  unfold Config.move
  exact Function.update_of_ne h l c.places

/-- The data are those of the step. -/
@[simp] theorem Config.move_shared (c : Config T L S) (t : T) (l : L) (s : S) :
    (c.move t l s).shared = s := rfl

/-- To stay is no move. -/
theorem Config.move_self (c : Config T L S) (t : T) : c.move t (c.places t) c.shared = c := by
  unfold Config.move
  rw [Function.update_eq_self]

/-- Of two moves of one thread the last counts. -/
theorem Config.move_move (c : Config T L S) (t : T) (l l' : L) (s s' : S) :
    (c.move t l s).move t l' s' = c.move t l' s' := by
  unfold Config.move
  rw [Function.update_idem]

variable (code : T → L → S → Option E → L → S → Prop)

/-- The threads take turns; the list holds the events in their order. -/
inductive Run (c : Config T L S) : List E → Config T L S → Prop
  | start : Run c [] c
  | next {h : List E} {c' : Config T L S} {t : T} {e : Option E} {l : L} {s : S} (hrun : Run c h c')
      (hstep : code t (c'.places t) c'.shared e l s) : Run c (h ++ e.toList) (c'.move t l s)

/-- One thread moves and the others rest. -/
inductive Alone (t : T) (l : L) (s : S) : List E → L → S → Prop
  | start : Alone t l s [] l s
  | next {h : List E} {l' l'' : L} {s' s'' : S} {e : Option E} (halone : Alone t l s h l' s')
      (hstep : code t l' s' e l'' s'') : Alone t l s (h ++ e.toList) l'' s''

variable {code}

/-- Runs one behind the other. -/
theorem Run.trans {c c' c'' : Config T L S} {h h' : List E} (hrun : Run code c h c')
    (hrun' : Run code c' h' c'') : Run code c (h ++ h') c'' := by
  induction hrun' with
  | start =>
      rw [List.append_nil]
      exact hrun
  | next _ hstep ih =>
      rw [← List.append_assoc]
      exact .next ih hstep

/-- A run of one thread is a run. -/
theorem Alone.run {c : Config T L S} {t : T} {h : List E} {l : L} {s : S}
    (halone : Alone code t (c.places t) c.shared h l s) : Run code c h (c.move t l s) := by
  induction halone with
  | start =>
      rw [Config.move_self]
      exact .start
  | @next h l' l'' s' s'' e _ hstep ih =>
      have hnext : code t ((c.move t l' s').places t) (c.move t l' s').shared e l'' s'' := by
        rw [Config.move_places_self]
        exact hstep
      have hrun := Run.next ih hnext
      rwa [Config.move_move] at hrun

omit [DecidableEq T] in
/-- One step in front. -/
theorem Alone.head {t : T} {l l' l'' : L} {s s' s'' : S} {e : Option E} {h : List E}
    (hstep : code t l s e l' s') (halone : Alone code t l' s' h l'' s'') :
    Alone code t l s (e.toList ++ h) l'' s'' := by
  induction halone with
  | start =>
      rw [List.append_nil]
      exact .next .start hstep
  | next _ hlast ih =>
      rw [← List.append_assoc]
      exact .next ih hlast

omit [DecidableEq T] in
/-- A thread that can always go on, and comes nearer to its aim with each step, gets
there. -/
theorem Alone.exists_of_measure {t : T} (going done : L → S → Prop) (m : L → S → Nat)
    (hgo : ∀ l s, going l s →
      ∃ e l' s', code t l s e l' s' ∧ (done l' s' ∨ going l' s' ∧ m l' s' < m l s))
    {l : L} {s : S} (h : going l s) : ∃ hist l' s', Alone code t l s hist l' s' ∧ done l' s' := by
  induction hm : m l s using Nat.strongRecOn generalizing l s with
  | ind n ih =>
      obtain ⟨e, l', s', hstep, hdone | ⟨hgoing, hlt⟩⟩ := hgo l s h
      · exact ⟨_, l', s', .next .start hstep, hdone⟩
      · obtain ⟨hist, l'', s'', halone, hdone⟩ := ih _ (hm ▸ hlt) hgoing rfl
        exact ⟨_, l'', s'', halone.head hstep, hdone⟩

/-- The threads move in this order, each with what it chooses where it has a choice. -/
def play {R : Type} (turn : T → L → S → R → Option (Option E × L × S)) (c : Config T L S) :
    List (T × R) → Option (List E × Config T L S)
  | [] => some ([], c)
  | (t, r) :: turns =>
      match turn t (c.places t) c.shared r with
      | none => none
      | some (e, l, s) => (play turn (c.move t l s) turns).map fun out => (e.toList ++ out.1, out.2)

/-- What is played is a run. -/
theorem play_run {R : Type} {turn : T → L → S → R → Option (Option E × L × S)}
    (hturn : ∀ {t l s r e l' s'}, turn t l s r = some (e, l', s') → code t l s e l' s')
    {c c' : Config T L S} {turns : List (T × R)} {h : List E} (hplay : play turn c turns = some (h, c')) :
    Run code c h c' := by
  induction turns generalizing c h with
  | nil =>
      cases hplay
      exact .start
  | cons first turns ih =>
      obtain ⟨t, r⟩ := first
      rw [play] at hplay
      cases hout : turn t (c.places t) c.shared r with
      | none =>
          rw [hout] at hplay
          cases hplay
      | some out =>
          obtain ⟨e, l, s⟩ := out
          rw [hout] at hplay
          obtain ⟨⟨h', c''⟩, hrest, heq⟩ := Option.map_eq_some_iff.mp hplay
          cases heq
          have hfirst : Run code c e.toList (c.move t l s) := .next .start (hturn hout)
          exact hfirst.trans (ih hrest)

end

/-- A specification: the events it allows in a state, and the state behind one. -/
structure Spec (A E : Type) where
  allowed : A → E → Prop
  next : A → E → A

namespace Spec

variable {A E : Type} (spec : Spec A E)

/-- The state behind a history. -/
def after (a : A) (h : List E) : A := h.foldl spec.next a

/-- Every event of the history is allowed where it comes. -/
def Accepts : A → List E → Prop
  | _, [] => True
  | a, e :: h => spec.allowed a e ∧ Accepts (spec.next a e) h

@[simp] theorem after_nil (a : A) : spec.after a [] = a := rfl

/-- The state behind two histories. -/
theorem after_append (a : A) (h h' : List E) :
    spec.after a (h ++ h') = spec.after (spec.after a h) h' :=
  List.foldl_append

/-- **Two histories in a row** are accepted when the second is from where the first leads. -/
theorem accepts_append {a : A} {h h' : List E} :
    spec.Accepts a (h ++ h') ↔ spec.Accepts a h ∧ spec.Accepts (spec.after a h) h' := by
  induction h generalizing a with
  | nil => exact ⟨fun hacc => ⟨trivial, hacc⟩, fun hacc => hacc.2⟩
  | cons e h ih =>
      rw [List.cons_append, Accepts, Accepts, ih, and_assoc]
      rfl

/-- A step has one event at most. -/
theorem accepts_toList {a : A} {e : Option E} :
    spec.Accepts a e.toList ↔ ∀ x ∈ e, spec.allowed a x := by
  cases e with
  | none => simp [Accepts]
  | some x => simp [Accepts]

/-- **What holds behind a history** held before it, or an event of it has made it so. -/
theorem before_or_made {P : A → Prop} {M : E → Prop} (hstep : ∀ a e, P (spec.next a e) → P a ∨ M e)
    {a : A} {h : List E} (hafter : P (spec.after a h)) : P a ∨ ∃ e ∈ h, M e := by
  induction h generalizing a with
  | nil => exact Or.inl hafter
  | cons e h ih =>
      rcases ih hafter with hthere | ⟨e', hmem, hmade⟩
      · exact (hstep a e hthere).imp_right fun hmade => ⟨e, List.mem_cons_self, hmade⟩
      · exact Or.inr ⟨e', List.mem_cons_of_mem _ hmem, hmade⟩

variable {spec}

/-- **What no allowed event undoes** stays. -/
theorem Accepts.keeps {P : A → Prop} (hstep : ∀ a e, spec.allowed a e → P a → P (spec.next a e))
    {a : A} {h : List E} (hacc : spec.Accepts a h) (ha : P a) : P (spec.after a h) := by
  induction h generalizing a with
  | nil => exact ha
  | cons e h ih => exact ih hacc.2 (hstep a e hacc.1 ha)

end Spec

variable {T L S E A : Type}

/-- A proof that the code keeps to a specification: an invariant of the shared data
and the state of the specification; what a thread knows at its place; and what a
step of a thread may change. -/
structure Outline (code : T → L → S → Option E → L → S → Prop) (spec : Spec A E) where
  inv : S → A → Prop
  knows : T → L → S → A → Prop
  guarantee : T → S → A → S → A → Prop
  own : ∀ {t l s e l' s' a}, code t l s e l' s' → inv s a → knows t l s a →
    (∀ x ∈ e, spec.allowed a x) ∧ inv s' (spec.after a e.toList) ∧
      knows t l' s' (spec.after a e.toList) ∧ guarantee t s a s' (spec.after a e.toList)
  stable : ∀ {t u l s a s' a'}, u ≠ t → guarantee t s a s' a' → inv s a → knows u l s a →
    knows u l s' a'

namespace Outline

variable {code : T → L → S → Option E → L → S → Prop} {spec : Spec A E} (o : Outline code spec)

/-- The invariant holds, and every thread knows what it knows at its place. -/
structure Holds (c : Config T L S) (a : A) : Prop where
  inv : o.inv c.shared a
  knows : ∀ t, o.knows t (c.places t) c.shared a

variable [DecidableEq T] {o}

/-- **One step** keeps the proof going. -/
theorem Holds.step {c : Config T L S} {a : A} (h : o.Holds c a) {t : T} {e : Option E} {l : L} {s : S}
    (hstep : code t (c.places t) c.shared e l s) :
    spec.Accepts a e.toList ∧ o.Holds (c.move t l s) (spec.after a e.toList) := by
  obtain ⟨hallowed, hinv, hknows, hguar⟩ := o.own hstep h.inv (h.knows t)
  refine ⟨spec.accepts_toList.mpr hallowed, hinv, fun u => ?_⟩
  by_cases hu : u = t
  · rw [hu, Config.move_places_self]
    exact hknows
  · rw [Config.move_places_of_ne c hu]
    exact o.stable hu hguar h.inv (h.knows u)

/-- **A whole run** shows what the specification accepts. -/
theorem Holds.run {c c' : Config T L S} {a : A} (h : o.Holds c a) {hist : List E}
    (hrun : Run code c hist c') : spec.Accepts a hist ∧ o.Holds c' (spec.after a hist) := by
  induction hrun with
  | start => exact ⟨trivial, h⟩
  | next _ hstep ih =>
      obtain ⟨haccepts, hholds⟩ := ih.2.step hstep
      rw [spec.after_append]
      exact ⟨spec.accepts_append.mpr ⟨ih.1, haccepts⟩, hholds⟩

end Outline

end Interleaving
