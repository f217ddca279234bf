import Mathlib.Data.List.Basic
import Mathlib.Data.List.Induction
import Mathlib.Tactic.Common

/-!
# State carried through a scan

A scan takes elements one by one and makes something of each, with a state that
it carries from one to the next.  An element is *settled* when what is made of
it does not depend on the state.

`view_same_iff` says that an element is settled exactly when what is made of it
is the same in every scan it stands in.  `good_iff` is the rule for a run that is to be
good in every step.
-/

namespace CarriedState

variable {σ ε ω β : Type*} (step : σ → ε → σ × ω)

/-- The state behind a row of elements. -/
def after (s : σ) (es : List ε) : σ := es.foldl (fun s e => (step s e).1) s

/-- What is made of each element. -/
def outputs : σ → List ε → List ω
  | _, [] => []
  | s, e :: es => (step s e).2 :: outputs (step s e).1 es

/-- What is seen of the output does not depend on the state. -/
def Settled (view : ω → β) (e : ε) : Prop := ∀ s s', view (step s e).2 = view (step s' e).2

theorem length_outputs (s : σ) (es : List ε) : (outputs step s es).length = es.length := by
  induction es generalizing s with
  | nil => rfl
  | cons e es ih => exact congrArg Nat.succ (ih (step s e).1)

theorem outputs_append (s : σ) (pre post : List ε) :
    outputs step s (pre ++ post) = outputs step s pre ++ outputs step (after step s pre) post := by
  induction pre generalizing s with
  | nil => rfl
  | cons e pre ih => exact congrArg (List.cons (step s e).2) (ih (step s e).1)

/-- What is made of an element in the middle of a scan. -/
theorem getElem?_outputs (s : σ) (pre : List ε) (e : ε) (post : List ε) :
    (outputs step s (pre ++ e :: post))[pre.length]? = some (step (after step s pre) e).2 := by
  have hlen := length_outputs step s pre
  rw [outputs_append, ← hlen, List.getElem?_append_right (Nat.le_refl _), Nat.sub_self]
  rfl

/-- Whatever comes out was made of an element in some state. -/
theorem mem_outputs {s : σ} {es : List ε} {o : ω} (h : o ∈ outputs step s es) :
    ∃ s', ∃ e ∈ es, o = (step s' e).2 := by
  induction es generalizing s with
  | nil => cases h
  | cons e es ih =>
      rcases List.mem_cons.mp h with rfl | htail
      · exact ⟨s, e, List.mem_cons_self, rfl⟩
      · obtain ⟨s', e', he', ho⟩ := ih htail
        exact ⟨s', e', List.mem_cons_of_mem _ he', ho⟩

/-- **An element is settled exactly when it comes out the same in every scan**,
whatever the scan begins with and whatever stands before the element or behind
it. -/
theorem view_same_iff (view : ω → β) (e : ε) :
    (∀ s s' pre pre' post post', ((outputs step s (pre ++ e :: post))[pre.length]?).map view =
      ((outputs step s' (pre' ++ e :: post'))[pre'.length]?).map view) ↔ Settled step view e := by
  constructor
  · intro hsame s s'
    exact Option.some.inj (hsame s s' [] [] [] [])
  · intro hsettled s s' pre pre' post post'
    rw [getElem?_outputs, getElem?_outputs]
    exact congrArg some (hsettled _ _)

/-! ### Places of a list -/

theorem nil_ne_split (pre : List ε) (x : ε) (post : List ε) : [] ≠ pre ++ x :: post :=
  (List.append_ne_nil_of_right_ne_nil pre (List.cons_ne_nil x post)).symm

/-- The places of a list, its last one apart. -/
theorem exists_split_concat {P : List ε → ε → Prop} {es : List ε} {e : ε} :
    (∃ pre x post, es ++ [e] = pre ++ x :: post ∧ P pre x) ↔
      (∃ pre x post, es = pre ++ x :: post ∧ P pre x) ∨ P es e := by
  constructor
  · rintro ⟨pre, x, post, hsplit, hx⟩
    rcases List.eq_nil_or_concat post with rfl | ⟨post, last, rfl⟩
    · obtain ⟨rfl, htail⟩ := List.append_inj' hsplit rfl
      obtain rfl := List.head_eq_of_cons_eq htail
      exact Or.inr hx
    · rw [List.concat_eq_append, ← List.cons_append, ← List.append_assoc] at hsplit
      obtain ⟨rfl, _⟩ := List.append_inj' hsplit rfl
      exact Or.inl ⟨pre, x, post, rfl, hx⟩
  · rintro (⟨pre, x, post, rfl, hx⟩ | hlast)
    · exact ⟨pre, x, post ++ [e], by rw [List.append_assoc, List.cons_append], hx⟩
    · exact ⟨es, e, [], rfl, hlast⟩

/-- The places of a list, its first one apart. -/
theorem forall_split_cons {P : List ε → ε → Prop} {e : ε} {es : List ε} :
    (∀ pre x post, e :: es = pre ++ x :: post → P pre x) ↔
      P [] e ∧ ∀ pre x post, es = pre ++ x :: post → P (e :: pre) x := by
  constructor
  · intro h
    refine ⟨h [] e es rfl, fun pre x post hsplit => h (e :: pre) x post ?_⟩
    rw [hsplit, List.cons_append]
  · intro ⟨hfirst, hrest⟩ pre x post hsplit
    cases pre with
    | nil =>
        obtain ⟨rfl, -⟩ := List.cons.inj hsplit
        exact hfirst
    | cons y pre =>
        obtain ⟨rfl, htail⟩ := List.cons.inj hsplit
        exact hrest pre x post htail

/-! ### Runs of good steps -/

/-- **When every step of a run is good.**  Where the good steps from the states of an invariant are
those under a condition, and lead to such states again, every step is good exactly when every step
is under the condition. -/
theorem good_iff {I : σ → Prop} {Good Cond : σ → ε → Prop}
    (hstep : ∀ s e, I s → (Good s e ↔ Cond s e)) (hkeeps : ∀ s e, Good s e → I (step s e).1)
    {s : σ} (h : I s) (es : List ε) :
    (∀ pre e post, es = pre ++ e :: post → Good (after step s pre) e) ↔
      ∀ pre e post, es = pre ++ e :: post → Cond (after step s pre) e := by
  induction es generalizing s with
  | nil =>
      exact iff_of_true (fun pre e post hsplit => absurd hsplit (nil_ne_split pre e post))
        fun pre e post hsplit => absurd hsplit (nil_ne_split pre e post)
  | cons e es ih =>
      rw [forall_split_cons, forall_split_cons]
      constructor
      · intro ⟨hgood, hrest⟩
        exact ⟨(hstep s e h).mp hgood, (ih (hkeeps s e hgood)).mp hrest⟩
      · intro ⟨hcond, hrest⟩
        have hgood : Good s e := (hstep s e h).mpr hcond
        exact ⟨hgood, (ih (hkeeps s e hgood)).mpr hrest⟩

/-! ### A number that is carried -/

/-- **What a row of elements adds to a number**, when each of them raises it by one or keeps it: as
much as there are elements that raise it. -/
theorem count_after {held : σ → Nat} {raises : ε → Bool} {s : σ} {es : List ε}
    (hstep : ∀ pre e post, es = pre ++ e :: post →
      held (step (after step s pre) e).1 = held (after step s pre) + (raises e).toNat) :
    held (after step s es) = held s + es.countP raises := by
  induction es using List.reverseRecOn with
  | nil => rfl
  | append_singleton es e ih =>
      have hfront := ih fun pre e' post hsplit =>
        hstep pre e' (post ++ [e]) (by rw [hsplit, List.append_assoc, List.cons_append])
      have hlast := hstep es e [] rfl
      have hmore : after step s (es ++ [e]) = (step (after step s es) e).1 := by
        rw [after, List.foldl_append]
        rfl
      rw [hmore, hlast, hfront, List.countP_append, List.countP_singleton, Nat.add_assoc]
      cases raises e with
      | false => rfl
      | true => rfl

end CarriedState
