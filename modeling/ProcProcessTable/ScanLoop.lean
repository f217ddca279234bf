import ProcProcessTable.CarriedState
import ProcProcessTable.ObjectCalls
import Mathlib.Data.List.Forall2
import Mathlib.Data.List.Induction

/-!
# Scans as loops

A port takes processes, or directory entries, one by one.  A turn of its loop may
pass the element over, get to a call of `bless_into_proc`, or end with a fault, and
then the scan ends there (`Scan.collect`).  What is carried from turn to turn is the
state of `CarriedState`.

`mem_objects` says that a scan publishes what its elements add, each behind the ones
before it, and `objects_sublist` that it does so in their order and at most once for each;
`addedBy_eq` that an element adds what its own turn comes to, unless there was a fault
before.  `ends_none_iff` says in which scans there is none.
-/

namespace ProcessTable

open CText Xs

/-- The scan that the turns of a loop come to, up to the first fault. -/
def Scan.collect : List (Except Fault (Option BlessCall)) → Scan
  | [] => ⟨[], none⟩
  | .error f :: _ => ⟨[], some f⟩
  | .ok call :: rest => ⟨call.toList ++ (collect rest).calls, (collect rest).fault⟩

/-- Without a fault the scan is the calls of all turns. -/
theorem Scan.collect_ok (calls : List (Option BlessCall)) :
    Scan.collect (calls.map Except.ok) = ⟨calls.filterMap id, none⟩ := by
  induction calls with
  | nil => rfl
  | cons call calls ih =>
      rw [List.map_cons, Scan.collect, ih]
      cases call with
      | none => rfl
      | some call => rfl

/-- The objects of a turn, and the fault it ends with. -/
def turn (ttydevs : Option HV) (out : Except Fault (Option BlessCall)) : List HV × Option Fault :=
  ((Scan.collect [out]).objects ttydevs, (Scan.collect [out]).ends ttydevs)

/-- A turn that gets to a call makes what the call makes. -/
theorem turn_call {ttydevs : Option HV} {call : BlessCall} {obj : HV}
    (h : call.made ttydevs = ([obj], none)) : turn ttydevs (.ok (some call)) = ([obj], none) := by
  unfold turn Scan.objects Scan.ends
  simp only [Scan.collect, Option.toList_some, List.append_nil, madeAll, h]

/-- A turn makes one object at most. -/
theorem turn_cases (ttydevs : Option HV) (out : Except Fault (Option BlessCall)) :
    (turn ttydevs out).1 = [] ∨ ∃ obj, (turn ttydevs out).1 = [obj] := by
  cases out with
  | error f => exact Or.inl rfl
  | ok call =>
      cases call with
      | none => exact Or.inl rfl
      | some call =>
          unfold turn Scan.objects
          simp only [Scan.collect, Option.toList_some, List.append_nil, madeAll]
          obtain hnil | ⟨obj, hmade⟩ := call.made_cases ttydevs
          · left
            cases hout : call.made ttydevs with
            | mk objs fault =>
                rw [hout] at hnil
                obtain rfl := hnil
                cases fault with
                | some f => rfl
                | none => rfl
          · right
            rw [hmade]
            exact ⟨obj, rfl⟩

/-- **One turn more** in front of a scan. -/
theorem Scan.collect_cons (ttydevs : Option HV) (out : Except Fault (Option BlessCall))
    (rest : List (Except Fault (Option BlessCall))) :
    ((Scan.collect (out :: rest)).objects ttydevs, (Scan.collect (out :: rest)).ends ttydevs) =
      match turn ttydevs out with
      | (objs, some f) => (objs, some f)
      | (objs, none) => (objs ++ (Scan.collect rest).objects ttydevs, (Scan.collect rest).ends ttydevs) := by
  cases out with
  | error f => rfl
  | ok call =>
      cases call with
      | none => rfl
      | some call =>
          unfold turn Scan.objects Scan.ends
          simp only [Scan.collect, Option.toList_some, List.singleton_append, madeAll]
          cases hmade : call.made ttydevs with
          | mk objs fault =>
              cases fault with
              | some f => rfl
              | none => simp

/-- **A scan in two parts**: the second comes to nothing behind a fault. -/
theorem Scan.collect_append (ttydevs : Option HV)
    (front back : List (Except Fault (Option BlessCall))) :
    ((Scan.collect (front ++ back)).objects ttydevs, (Scan.collect (front ++ back)).ends ttydevs) =
      match (Scan.collect front).ends ttydevs with
      | some f => ((Scan.collect front).objects ttydevs, some f)
      | none => ((Scan.collect front).objects ttydevs ++ (Scan.collect back).objects ttydevs,
          (Scan.collect back).ends ttydevs) := by
  induction front with
  | nil => rfl
  | cons out front ih =>
      obtain ⟨hobjects, hends⟩ := Prod.mk.inj (Scan.collect_cons ttydevs out front)
      rw [List.cons_append, Scan.collect_cons, hobjects, hends]
      cases hturn : turn ttydevs out with
      | mk objs fault =>
          cases fault with
          | some f => rfl
          | none =>
              dsimp only
              obtain ⟨hrest, hfault⟩ := Prod.mk.inj ih
              rw [hrest, hfault]
              cases (Scan.collect front).ends ttydevs with
              | some f => rfl
              | none => simp [List.append_assoc]

/-- What a scan in two parts publishes comes from one of them. -/
theorem Scan.mem_collect_append {ttydevs : Option HV}
    {front back : List (Except Fault (Option BlessCall))} {obj : HV}
    (h : obj ∈ (Scan.collect (front ++ back)).objects ttydevs) :
    obj ∈ (Scan.collect front).objects ttydevs ∨ obj ∈ (Scan.collect back).objects ttydevs := by
  have happend := congrArg Prod.fst (Scan.collect_append ttydevs front back)
  dsimp only at happend
  rw [happend] at h
  cases hends : (Scan.collect front).ends ttydevs with
  | some f =>
      rw [hends] at h
      exact Or.inl h
  | none =>
      rw [hends] at h
      exact List.mem_append.mp h

/-- **A fault of a scan** is one of its turns'. -/
theorem Scan.exists_turn_of_ends {ttydevs : Option HV} {f : Fault}
    {outs : List (Except Fault (Option BlessCall))} (h : (Scan.collect outs).ends ttydevs = some f) :
    ∃ out ∈ outs, (turn ttydevs out).2 = some f := by
  induction outs with
  | nil => cases h
  | cons out outs ih =>
      have hcons := congrArg Prod.snd (Scan.collect_cons ttydevs out outs)
      cases hturn : turn ttydevs out with
      | mk objs fault =>
          rw [hturn] at hcons
          cases fault with
          | some f' =>
              refine ⟨out, List.mem_cons_self, ?_⟩
              rw [hturn]
              exact hcons.symm.trans h
          | none =>
              obtain ⟨out', hout, hf⟩ := ih (hcons.symm.trans h)
              exact ⟨out', List.mem_cons_of_mem _ hout, hf⟩

/-! ### The loop -/

section

variable {σ ε : Type} (step : σ → ε → σ × Except Fault (Option BlessCall)) (ttydevs : Option HV)

/-- The scan of a row of elements. -/
def loopScan (s : σ) (es : List ε) : Scan := Scan.collect (CarriedState.outputs step s es)

/-- **A scan goes on** behind elements that have not ended it. -/
theorem objects_append {s : σ} {pre : List ε} (h : (loopScan step s pre).ends ttydevs = none)
    (post : List ε) : (loopScan step s (pre ++ post)).objects ttydevs =
      (loopScan step s pre).objects ttydevs ++
        (loopScan step (CarriedState.after step s pre) post).objects ttydevs := by
  unfold loopScan at h ⊢
  rw [CarriedState.outputs_append]
  refine (congrArg Prod.fst (Scan.collect_append ttydevs _ _)).trans ?_
  rw [h]

/-- The objects that an element adds to a scan, behind the elements before it. -/
def addedBy (s : σ) (pre : List ε) (e : ε) : List HV :=
  ((loopScan step s (pre ++ [e])).objects ttydevs).drop
    ((loopScan step s pre).objects ttydevs).length

theorem loopScan_concat (s : σ) (pre : List ε) (e : ε) :
    ((loopScan step s (pre ++ [e])).objects ttydevs, (loopScan step s (pre ++ [e])).ends ttydevs) =
      match (loopScan step s pre).ends ttydevs with
      | some f => ((loopScan step s pre).objects ttydevs, some f)
      | none => ((loopScan step s pre).objects ttydevs ++
          (turn ttydevs (step (CarriedState.after step s pre) e).2).1,
          (turn ttydevs (step (CarriedState.after step s pre) e).2).2) := by
  unfold loopScan
  rw [CarriedState.outputs_append]
  exact Scan.collect_append ttydevs _ _

/-- One more element puts what its turn comes to behind the others. -/
theorem objects_turn (s : σ) (pre : List ε) (e : ε) :
    (loopScan step s (pre ++ [e])).objects ttydevs =
      (loopScan step s pre).objects ttydevs ++
        match (loopScan step s pre).ends ttydevs with
        | some _ => []
        | none => (turn ttydevs (step (CarriedState.after step s pre) e).2).1 := by
  refine (congrArg Prod.fst (loopScan_concat step ttydevs s pre e)).trans ?_
  cases (loopScan step s pre).ends ttydevs with
  | some f => exact (List.append_nil _).symm
  | none => rfl

/-- **What an element adds** is what its turn comes to, in the state that the elements
before it leave, unless one of them ended the scan. -/
theorem addedBy_eq (s : σ) (pre : List ε) (e : ε) :
    addedBy step ttydevs s pre e =
      match (loopScan step s pre).ends ttydevs with
      | some _ => []
      | none => (turn ttydevs (step (CarriedState.after step s pre) e).2).1 := by
  rw [addedBy, objects_turn, List.drop_left]

/-- What an element adds was made by its own turn. -/
theorem mem_turn_of_addedBy {s : σ} {pre : List ε} {e : ε} {obj : HV}
    (h : obj ∈ addedBy step ttydevs s pre e) :
    obj ∈ (turn ttydevs (step (CarriedState.after step s pre) e).2).1 := by
  rw [addedBy_eq] at h
  cases hends : (loopScan step s pre).ends ttydevs with
  | some f =>
      rw [hends] at h
      exact absurd h List.not_mem_nil
  | none =>
      rw [hends] at h
      exact h

theorem objects_concat (s : σ) (pre : List ε) (e : ε) :
    (loopScan step s (pre ++ [e])).objects ttydevs =
      (loopScan step s pre).objects ttydevs ++ addedBy step ttydevs s pre e := by
  rw [addedBy_eq]
  exact objects_turn step ttydevs s pre e

/-- **A scan publishes what its elements add**, each behind the ones before it. -/
theorem mem_objects (s : σ) (es : List ε) (obj : HV) :
    obj ∈ (loopScan step s es).objects ttydevs ↔
      ∃ pre e post, es = pre ++ e :: post ∧ obj ∈ addedBy step ttydevs s pre e := by
  induction es using List.reverseRecOn with
  | nil =>
      apply iff_of_false List.not_mem_nil
      rintro ⟨pre, e, post, hsplit, _⟩
      exact CarriedState.nil_ne_split pre e post hsplit
  | append_singleton es e ih =>
      rw [objects_concat, List.mem_append, ih, CarriedState.exists_split_concat]

/-- The objects of one element more in front. -/
theorem objects_cons (s : σ) (e : ε) (es : List ε) :
    (loopScan step s (e :: es)).objects ttydevs =
      match turn ttydevs (step s e).2 with
      | (objs, some _) => objs
      | (objs, none) => objs ++ (loopScan step (step s e).1 es).objects ttydevs := by
  refine (congrArg Prod.fst (Scan.collect_cons ttydevs (step s e).2
    (CarriedState.outputs step (step s e).1 es))).trans ?_
  cases turn ttydevs (step s e).2 with
  | mk objs fault =>
      cases fault with
      | some f => rfl
      | none => rfl

/-- **A scan publishes its elements in their order, each at most once**, with whatever `P`
says of the object that a turn makes for its element. -/
theorem objects_sublist {P : HV → ε → Prop}
    (hturn : ∀ s e, ∀ obj ∈ (turn ttydevs (step s e).2).1, P obj e) (s : σ) (es : List ε) :
    List.SublistForall₂ P ((loopScan step s es).objects ttydevs) es := by
  induction es generalizing s with
  | nil => exact List.SublistForall₂.nil
  | cons e es ih =>
      have hrest := ih (step s e).1
      have hone := turn_cases ttydevs (step s e).2
      have hP := hturn s e
      rw [objects_cons]
      cases hout : turn ttydevs (step s e).2 with
      | mk objs fault =>
          rw [hout] at hone hP
          obtain rfl | ⟨obj, rfl⟩ := hone
          · cases fault with
            | some f => exact List.SublistForall₂.nil
            | none => exact List.SublistForall₂.cons_right hrest
          · have hobj := hP obj List.mem_cons_self
            cases fault with
            | some f => exact List.SublistForall₂.cons hobj List.SublistForall₂.nil
            | none => exact List.SublistForall₂.cons hobj hrest

end

theorem exists_of_mem_right {α β : Type} {P : α → β → Prop} {as : List α} {bs : List β}
    (h : List.Forall₂ P as bs) {b : β} (hb : b ∈ bs) : ∃ a ∈ as, P a b := by
  induction h with
  | nil => cases hb
  | cons hhead _ ih =>
      rcases List.mem_cons.mp hb with rfl | htail
      · exact ⟨_, List.mem_cons_self, hhead⟩
      · obtain ⟨a, ha, hP⟩ := ih htail
        exact ⟨a, List.mem_cons_of_mem _ ha, hP⟩

/-- **A loop in which every element gets to its call** publishes one object for each. -/
theorem loopScan_objects {σ ε : Type} {step : σ → ε → σ × Except Fault (Option BlessCall)}
    {P : ε → BlessCall → Prop} (es : List ε)
    (hstep : ∀ e ∈ es, ∀ s, ∃ s' call, step s e = (s', .ok (some call)) ∧ P e call) (s : σ)
    (ttydevs : Option HV)
    (hmade : ∀ e call, P e call → call.made ttydevs = ([call.object ttydevs], none)) :
    (loopScan step s es).ends ttydevs = none ∧
      List.Forall₂ (fun e obj => ∃ call, P e call ∧ obj = call.object ttydevs) es
        ((loopScan step s es).objects ttydevs) := by
  have hcalls : ∃ calls : List BlessCall, CarriedState.outputs step s es =
      (calls.map some).map Except.ok ∧ List.Forall₂ P es calls := by
    induction es generalizing s with
    | nil => exact ⟨[], rfl, List.Forall₂.nil⟩
    | cons e es ih =>
        obtain ⟨s', call, hone, hcall⟩ := hstep e List.mem_cons_self s
        obtain ⟨calls, hrest, hall⟩ := ih (fun e he => hstep e (List.mem_cons_of_mem _ he)) s'
        refine ⟨call :: calls, ?_, List.Forall₂.cons hcall hall⟩
        rw [CarriedState.outputs, hone, hrest]
        rfl
  obtain ⟨calls, houtputs, hall⟩ := hcalls
  have hscan : loopScan step s es = ⟨calls, none⟩ := by
    rw [loopScan, houtputs, Scan.collect_ok, List.filterMap_map]
    exact congrArg (Scan.mk · none) (List.filterMap_some (l := calls))
  have hmadeAll : madeAll ttydevs calls = (calls.map fun call => call.object ttydevs, none) := by
    apply madeAll_of_made
    intro call hcall
    obtain ⟨e, -, hP⟩ := exists_of_mem_right hall hcall
    exact hmade e call hP
  rw [hscan, Scan.ends, Scan.objects]
  dsimp only
  rw [hmadeAll]
  refine ⟨rfl, List.forall₂_map_right_iff.mpr ?_⟩
  exact hall.imp fun e call hP => ⟨call, hP, rfl⟩

/-! ### Scans from any start -/

section

variable {σ ε ρ : Type} (step : σ → ε → σ × Except Fault (Option BlessCall)) (start : ρ → σ)

/-- Behind these elements an element is published as it is alone, whatever either scan
starts with. -/
def OwnBehind (pre : List ε) (e : ε) : Prop :=
  ∀ ttydevs r r', ∀ obj ∈ addedBy step ttydevs (start r) pre e,
    ∀ obj' ∈ addedBy step ttydevs (start r') [] e, obj = obj'

theorem ownBehind_iff (pre : List ε) (e : ε) :
    OwnBehind step start pre e ↔
      ∀ ttydevs r r', (loopScan step (start r) pre).ends ttydevs = none →
        ∀ obj ∈ (turn ttydevs (step (CarriedState.after step (start r) pre) e).2).1,
          ∀ obj' ∈ (turn ttydevs (step (start r') e).2).1, obj = obj' := by
  have halone : ∀ ttydevs r', addedBy step ttydevs (start r') [] e =
      (turn ttydevs (step (start r') e).2).1 := by
    intro ttydevs r'
    rw [addedBy_eq]
    rfl
  unfold OwnBehind
  constructor
  · intro hown ttydevs r r' hends obj hobj obj' hobj'
    apply hown ttydevs r r' obj ?_ obj'
    · rw [halone]
      exact hobj'
    · rw [addedBy_eq, hends]
      exact hobj
  · intro hown ttydevs r r' obj hobj obj' hobj'
    rw [halone] at hobj'
    rw [addedBy_eq] at hobj
    cases hends : (loopScan step (start r) pre).ends ttydevs with
    | some f =>
        rw [hends] at hobj
        exact absurd hobj List.not_mem_nil
    | none =>
        rw [hends] at hobj
        exact hown ttydevs r r' hends obj hobj obj' hobj'

/-- A scan that gets to an element behind these without a fault, and publishes it as it is
published alone, whatever either scan starts with. -/
def PublishedAsAlone (scan : ρ → List ε → Scan) (pre : List ε) (e : ε) : Prop :=
  ∀ ttydevs r r', (scan r (pre ++ [e])).ends ttydevs = none ∧
    ∀ obj ∈ ((scan r (pre ++ [e])).objects ttydevs).drop ((scan r pre).objects ttydevs).length,
      ∀ obj' ∈ (scan r' [e]).objects ttydevs, obj = obj'

/-- For a loop these are two things: that no turn so far ends it, and that the element is
published as it is alone. -/
theorem publishedAsAlone_loop_iff (pre : List ε) (e : ε) :
    PublishedAsAlone (fun r => loopScan step (start r)) pre e ↔
      (∀ ttydevs r, (loopScan step (start r) (pre ++ [e])).ends ttydevs = none) ∧
        OwnBehind step start pre e := by
  constructor
  · intro h
    exact ⟨fun ttydevs r => (h ttydevs r r).1, fun ttydevs r r' => (h ttydevs r r').2⟩
  · intro ⟨hends, hown⟩ ttydevs r r'
    exact ⟨hends ttydevs r, hown ttydevs r r'⟩

/-- **Where a scan ends**, when an invariant over the elements so far says which elements
end it, and the others keep the invariant. -/
theorem ends_none_iff {I : List ε → σ → Prop} {F : ε → Prop} {ttydevs : Option HV} {s : σ}
    (hstart : I [] s)
    (hstep : ∀ pre s e, I pre s → ((turn ttydevs (step s e).2).2 = none ↔ ¬ F e) ∧
      (¬ F e → I (pre ++ [e]) (step s e).1)) (es : List ε) :
    ((loopScan step s es).ends ttydevs = none ↔ ∀ e ∈ es, ¬ F e) ∧
      ((∀ e ∈ es, ¬ F e) → I es (CarriedState.after step s es)) := by
  induction es using List.reverseRecOn with
  | nil => exact ⟨iff_of_true rfl fun e he => absurd he List.not_mem_nil, fun _ => hstart⟩
  | append_singleton es e ih =>
      obtain ⟨hends, hinv⟩ := ih
      have hlast := congrArg Prod.snd (loopScan_concat step ttydevs s es e)
      have hsplit : (∀ e' ∈ es ++ [e], ¬ F e') ↔ (∀ e' ∈ es, ¬ F e') ∧ ¬ F e := by
        rw [List.forall_mem_append, List.forall_mem_singleton]
      rw [hsplit, CarriedState.after, List.foldl_append]
      constructor
      · refine (iff_of_eq (congrArg (· = none) hlast)).trans ?_
        cases hfront : (loopScan step s es).ends ttydevs with
        | some f =>
            refine iff_of_false (Option.some_ne_none f) fun h => ?_
            have hnone := hends.mpr h.1
            rw [hfront] at hnone
            cases hnone
        | none =>
            have hall := hends.mp hfront
            rw [and_iff_right hall]
            exact (hstep es _ e (hinv hall)).1
      · intro h
        exact (hstep es _ e (hinv h.1)).2 h.2

end

end ProcessTable
