import ProcProcessTable.OnceThreads

/-!
# Runs of OS_initialize

Every step keeps to what the calls may show (`advance_kept`), and so does every run.
-/

namespace Linux.Once

open CText MemPool Interleaving

variable {T : Type} [DecidableEq T] {res : Residue (Procstat Nat)}

/-! ## One step -/

section

variable {t : T} {l l' : Place} {s s' : Shared T} {a : Record T} {e : Option (Event T)}

/-- What a step has to keep. -/
structure Kept (res : Residue (Procstat Nat)) (t : T) (s : Shared T) (a : Record T)
    (e : Option (Event T)) (l' : Place) (s' : Shared T) : Prop where
  allowed : ∀ x ∈ e, a.Allowed x
  inv : Invariant res s' (once.after a e.toList)
  knows : Knows res t l' s' (once.after a e.toList)
  guarantee : Guarantee t s a s' (once.after a e.toList)

omit [DecidableEq T] in
theorem Guarantee.refl (t : T) (s : Shared T) (a : Record T) : Guarantee t s a s a :=
  ⟨fun _ _ => rfl, fun h => h, fun h => h, fun _ _ h => ⟨h, rfl, rfl, rfl⟩, fun _ _ h => h⟩

/-- A step that nobody sees. -/
theorem Kept.quiet (hinv : Invariant res s a) (hstage : Stage res t l' s a)
    (hin : s.busy = some t → l'.InBody) : Kept res t s a none l' s :=
  ⟨fun _ hx => absurd hx (Option.not_mem_none _), hinv, ⟨hstage, hin⟩, Guarantee.refl t s a⟩

/-- A call begins or returns. -/
theorem Kept.border {x : Event T} (call : Option (InitCall × Bool)) (hinv : Invariant res s a)
    (hallowed : a.Allowed x) (hnext : a.next x = { a with begun := Function.update a.begun t call })
    (hstage : Stage res t l' s (a.next x)) (hin : s.busy = some t → l'.InBody) :
    Kept res t s a (some x) l' s := by
  have hafter : once.after a (some x).toList =
      { a with begun := Function.update a.begun t call } := hnext
  refine ⟨fun y hy => Option.mem_some.mp hy ▸ hallowed, ?_, ⟨hstage, hin⟩, ?_⟩
  · rw [hafter]
    exact ⟨hinv.failed, hinv.settled, hinv.fresh, hinv.working, hinv.final, hinv.fails⟩
  · rw [hafter]
    exact ⟨fun u hu => Function.update_of_ne hu _ _, fun h => h, fun h => h,
      fun _ _ h => ⟨h, rfl, rfl, rfl⟩, fun _ _ h => h⟩

omit [DecidableEq T] in
/-- A thread outside of `init_static_vars` is not the one in it. -/
theorem Knows.not_busy (hk : Knows res t l s a) (hl : ¬ l.InBody) : s.busy ≠ some t :=
  fun hbusy => hl (hk.inBody hbusy)

/-- `OS_initialize` is called. -/
theorem kept_call (hinv : Invariant res s a) (hk : Knows res t .idle s a) (call : InitCall) :
    Kept res t s a (some (.called t call)) (.testFailed call) s := by
  refine Kept.border (some (call, a.failed)) hinv hk.stage rfl ?_ fun hbusy =>
    absurd hbusy (hk.not_busy id)
  exact ⟨a.failed, Function.update_self t _ _, fun htrue => htrue⟩

/-- `OS_initialize` returns. -/
theorem kept_return {call : InitCall} {late : Bool} {error : Option (List Char)}
    (hinv : Invariant res s a) (hk : Knows res t l s a) (hl : ¬ l.InBody)
    (hcall : a.begun t = some (call, late)) (hanswers : a.Answers call late error) :
    Kept res t s a (some (.returned t call error)) .idle s :=
  Kept.border none hinv ⟨late, hcall, hanswers⟩ rfl (Function.update_self t _ _)
    fun hbusy => absurd hbusy (hk.not_busy hl)

omit [DecidableEq T] in
/-- A step of the thread in `init_static_vars`. -/
theorem Guarantee.of_working {call : InitCall} {a' : Record T} (hworking : Working t call s a)
    (hbegun : a'.begun = a.begun) (hfailed : a.failed = true → a'.failed = true)
    (hbusy : s'.busy = some t ∨ s'.busy = none) : Guarantee t s a s' a' := by
  refine ⟨fun _ _ => hbegun ▸ rfl, hfailed, ?_, ?_, ?_⟩
  · intro hsettled
    cases hworking.unsettled.symm.trans hsettled
  · intro u hu hbusy'
    exact absurd (Option.some.inj (hbusy'.symm.trans hworking.busy)) hu
  · intro u hu hbusy'
    rcases hbusy with hsame | hnone
    · exact absurd (Option.some.inj (hbusy'.symm.trans hsame)) hu
    · cases hnone.symm.trans hbusy'

/-- `pthread_once` calls `init_static_vars`. -/
theorem kept_began {call : InitCall} (hinv : Invariant res s a) (hk : Knows res t (.once call) s a)
    (hdone : s.statics.onceDone = false) (hfree : s.busy = none) :
    Kept res t s a (some (.began t call))
      (.storing call (initSteps res call s.statics.globals).1
        (initSteps res call s.statics.globals).2) { s with busy := some t } := by
  obtain ⟨hcall, hmounted⟩ := hk.stage
  have hunsettled : a.settled = false := hinv.settled.symm.trans hdone
  have hnone : a.body = none := by
    refine (hinv.working hfree).resolve_right fun hsettled => ?_
    cases hunsettled.symm.trans hsettled
  obtain ⟨hstatics, _⟩ := hinv.fresh hnone
  have hunfailed : a.failed = false := by
    rw [← hinv.failed, hstatics]
    rfl
  refine ⟨?_, ?_, ⟨?_, fun _ => trivial⟩, ?_⟩
  · intro x hx
    obtain rfl := Option.mem_some.mp hx
    exact ⟨hnone, hcall⟩
  · refine ⟨hinv.failed, hinv.settled, ?_, ?_, ?_, ?_⟩
    · intro hbody
      cases hbody
    · intro hbusy
      cases hbusy
    · intro hsettled
      cases hunsettled.symm.trans hsettled
    · intro hfailed
      cases hunfailed.symm.trans hfailed
  · refine ⟨⟨hcall, hmounted⟩, ⟨rfl, rfl, hunsettled⟩, [], ?_, hstatics⟩
    rw [hstatics]
    rfl
  · refine ⟨fun _ _ => rfl, fun h => h, fun h => h, ?_, ?_⟩
    · intro u _ hbusy
      cases hfree.symm.trans hbusy
    · intro u hu hbusy
      exact absurd (Option.some.inj hbusy).symm hu

/-- A store to the global variables. -/
theorem kept_store {call : InitCall} {g : Globals} {left : List Globals} {last : InitEnd}
    (hinv : Invariant res s a) (hk : Knows res t (.storing call (g :: left) last) s a) :
    Kept res t s a none (.storing call left last)
      { s with statics := { s.statics with globals := g } } := by
  obtain ⟨hcall, hworking, done, hsteps, hstatics⟩ := hk.stage
  refine ⟨fun _ hx => absurd hx (Option.not_mem_none _), ?_, ⟨?_, fun _ => trivial⟩,
    .of_working hworking rfl id (Or.inl hworking.busy)⟩
  · refine ⟨hinv.failed, hinv.settled, ?_, ?_, ?_, hinv.fails⟩
    · intro hbody
      cases hworking.body.symm.trans hbody
    · intro hbusy
      cases hworking.busy.symm.trans hbusy
    · intro hsettled
      cases hworking.unsettled.symm.trans hsettled
  · refine ⟨hcall, ⟨hworking.busy, hworking.body, hworking.unsettled⟩, done ++ [g], ?_, ?_⟩
    · rw [hsteps, List.append_assoc]
      rfl
    · rw [hstatics, List.getLastD_concat]

omit [DecidableEq T] in
/-- What is left when all stores are made. -/
theorem finish_stage {call : InitCall} {last : InitEnd}
    (hk : Knows res t (.storing call [] last) s a) :
    initStaticVars res call Statics.init =
      match last with
      | .returns => some s.statics
      | .fails => some { s.statics with initFailed := true }
      | .hangs => none := by
  obtain ⟨_, _, done, hsteps, hstatics⟩ := hk.stage
  rw [List.append_nil] at hsteps
  rw [← finish_initSteps, hsteps, hstatics]
  cases last <;> rfl

/-- `init_failed = true` -/
theorem kept_fail {call : InitCall} (hinv : Invariant res s a)
    (hk : Knows res t (.storing call [] .fails) s a) :
    Kept res t s a (some (.failed t)) (.wrapUp call)
      { s with statics := { s.statics with initFailed := true } } := by
  obtain ⟨hcall, hworking, _⟩ := id hk.stage
  have hinit := finish_stage hk
  dsimp only at hinit
  have hspec := initStaticVars_spec res call Statics.init
  rw [hinit] at hspec
  have hfails : call.InitFails := by
    rcases hspec with ⟨_, hfails⟩ | ⟨hfalse, _⟩
    · exact hfails
    · cases hfalse
  refine ⟨?_, ?_, ⟨⟨hcall, ⟨hworking.busy, hworking.body, hworking.unsettled⟩, hinit⟩,
    fun _ => trivial⟩, .of_working hworking rfl (fun _ => rfl) (Or.inl hworking.busy)⟩
  · intro x hx
    obtain rfl := Option.mem_some.mp hx
    exact ⟨call, hworking.body, hfails⟩
  · refine ⟨rfl, hinv.settled, ?_, ?_, ?_, fun _ => ⟨call, hworking.body, hfails⟩⟩
    · intro hbody
      cases hworking.body.symm.trans hbody
    · intro hbusy
      cases hworking.busy.symm.trans hbusy
    · intro hsettled
      cases hworking.unsettled.symm.trans hsettled

/-- `globals_init` is set. -/
theorem kept_settle {call : InitCall} (hinv : Invariant res s a)
    (hk : Knows res t (.wrapUp call) s a) :
    Kept res t s a (some (.settled t)) (.leave call)
      ⟨{ s.statics with onceDone := true }, none⟩ := by
  obtain ⟨hcall, hworking, hinit⟩ := hk.stage
  have hspec := initStaticVars_spec res call Statics.init
  rw [hinit] at hspec
  refine ⟨?_, ?_, ⟨⟨hcall, rfl⟩, fun hbusy => by cases hbusy⟩,
    .of_working hworking rfl id (Or.inr rfl)⟩
  · intro x hx
    obtain rfl := Option.mem_some.mp hx
    refine ⟨call, hworking.body, ?_⟩
    rw [← hinv.failed]
    rcases hspec with ⟨hfailed, hfails⟩ | ⟨hok, hsucceeds⟩
    · exact iff_of_true hfailed hfails
    · rw [hok]
      exact iff_of_false Bool.false_ne_true hsucceeds.not_fails
  · refine ⟨hinv.failed, rfl, ?_, fun _ => Or.inr rfl, fun _ => ⟨rfl, call, s.statics, hworking.body,
      hinit, rfl⟩, hinv.fails⟩
    intro hbody
    cases hworking.body.symm.trans hbody

/-- **Every step of a call.** -/
theorem advance_kept (hinv : Invariant res s a) (hk : Knows res t l s a)
    (h : advance res t l s = some (e, l', s')) : Kept res t s a e l' s' := by
  cases l with
  | idle => cases h
  | testFailed call =>
      obtain ⟨late, hcall, hlate⟩ := hk.stage
      rw [advance] at h
      split at h
      · rename_i hfailed
        cases h
        exact kept_return hinv hk id hcall (Or.inl ⟨rfl, hinv.failed.symm.trans hfailed⟩)
      · rename_i hok
        cases h
        refine .quiet hinv ?_ fun hbusy => absurd hbusy (hk.not_busy id)
        cases late with
        | false => exact hcall
        | true => exact absurd (hinv.failed.trans (hlate rfl)) hok
  | statProc call =>
      rw [advance] at h
      split at h
      · rename_i hmissing
        cases h
        exact kept_return hinv hk id hk.stage (Or.inr ⟨rfl, hmissing⟩)
      · rename_i hmounted
        cases h
        refine .quiet hinv ⟨hk.stage, ?_⟩ fun hbusy => absurd hbusy (hk.not_busy id)
        exact Bool.eq_true_of_not_eq_false hmounted
  | once call =>
      rw [advance] at h
      split at h
      · rename_i hdone
        cases h
        refine .quiet hinv ⟨hk.stage, ?_⟩ fun hbusy => absurd hbusy (hk.not_busy id)
        exact hinv.settled.symm.trans hdone
      · rename_i hopen
        cases hbusy : s.busy with
        | some u =>
            rw [hbusy] at h
            cases h
        | none =>
            rw [hbusy] at h
            cases h
            exact kept_began hinv hk (Bool.eq_false_of_not_eq_true hopen) hbusy
  | storing call left last =>
      cases left with
      | cons g left =>
          cases h
          exact kept_store hinv hk
      | nil =>
          cases last with
          | hangs => cases h
          | returns =>
              cases h
              obtain ⟨hcall, hworking, _⟩ := id hk.stage
              exact .quiet hinv ⟨hcall, hworking, finish_stage hk⟩ fun _ => trivial
          | fails =>
              cases h
              exact kept_fail hinv hk
  | wrapUp call =>
      cases h
      exact kept_settle hinv hk
  | leave call =>
      obtain ⟨⟨hcall, hmounted⟩, hsettled⟩ := hk.stage
      cases h
      exact kept_return hinv hk id hcall ⟨rfl, hmounted, hsettled⟩

end

/-- The proof of `OS_initialize`. -/
def outline (res : Residue (Procstat Nat)) : Outline (Code (T := T) res) once where
  inv := Invariant res
  knows := Knows res
  guarantee := Guarantee
  own := by
    intro t l s e l' s' a hcode hinv hk
    have hkept : Kept res t s a e l' s' := by
      cases hcode with
      | call _ call => exact kept_call hinv hk call
      | advance h => exact advance_kept hinv hk h
    exact ⟨hkept.allowed, hkept.inv, hkept.knows, hkept.guarantee⟩
  stable := fun hu hg _ hk => hk.stable hu hg

theorem outline_start : (outline (T := T) res).Holds start Record.init where
  inv := by
    refine ⟨rfl, rfl, fun _ => ⟨rfl, rfl⟩, fun _ => Or.inl rfl, ?_, ?_⟩
    · intro hsettled
      cases hsettled
    · intro hfailed
      cases hfailed
  knows := by
    intro t
    refine ⟨rfl, fun hbusy => ?_⟩
    cases hbusy

/-! ## Histories -/

section

variable {a : Record T} {h : List (Event T)}

/-- What has begun stays. -/
theorem body_after {first : InitCall} (hacc : once.Accepts a h) (hbody : a.body = some first) :
    (once.after a h).body = some first ∧ ∀ u call, Event.began u call ∉ h := by
  have hstep : ∀ (a : Record T) (e : Event T), a.Allowed e → a.body = some first →
      (a.next e).body = some first := by
    intro a e hallowed hbody
    cases e with
    | began u call => cases hbody.symm.trans hallowed.1
    | called | failed | settled | returned => exact hbody
  refine ⟨hacc.keeps (P := fun a => a.body = some first) hstep hbody, fun u call hmem => ?_⟩
  obtain ⟨before, rest, rfl⟩ := List.append_of_mem hmem
  obtain ⟨hbefore, hallowed, _⟩ := once.accepts_append.mp hacc
  cases (hbefore.keeps (P := fun a => a.body = some first) hstep hbody).symm.trans hallowed.1

/-- A body that is there was there before, or began in the history. -/
theorem began_of_body {first : InitCall} (hbody : (once.after a h).body = some first) :
    a.body = some first ∨ ∃ u, Event.began u first ∈ h := by
  have hmade := once.before_or_made (P := fun a : Record T => a.body = some first)
    (M := fun e => ∃ u, e = .began u first) ?_ hbody
  · refine hmade.imp_right ?_
    rintro ⟨e, hmem, u, rfl⟩
    exact ⟨u, hmem⟩
  · intro a e hnext
    cases e with
    | began u call =>
        obtain rfl := Option.some.inj hnext
        exact Or.inr ⟨u, rfl⟩
    | called | failed | settled | returned => exact Or.inl hnext

/-- That the flags are set is not undone. -/
theorem flags_next (a : Record T) (e : Event T) :
    (a.failed = true → (a.next e).failed = true) ∧
      (a.settled = true → (a.next e).settled = true) := by
  cases e with
  | failed u => exact ⟨fun _ => rfl, fun hsettled => hsettled⟩
  | settled u => exact ⟨fun hfailed => hfailed, fun _ => rfl⟩
  | called | began | returned => exact ⟨fun hfailed => hfailed, fun hsettled => hsettled⟩

theorem failed_after (hacc : once.Accepts a h) (hfailed : a.failed = true) :
    (once.after a h).failed = true :=
  hacc.keeps (P := fun a => a.failed = true) (fun a e _ => (flags_next a e).1) hfailed

theorem settled_after (hacc : once.Accepts a h) (hsettled : a.settled = true) :
    (once.after a h).settled = true :=
  hacc.keeps (P := fun a => a.settled = true) (fun a e _ => (flags_next a e).2) hsettled

/-- That the call is over is set by an event. -/
theorem settled_of_after (hsettled : (once.after a h).settled = true) :
    a.settled = true ∨ ∃ u, Event.settled u ∈ h := by
  have hmade := once.before_or_made (P := fun a : Record T => a.settled = true)
    (M := fun e => ∃ u, e = .settled u) ?_ hsettled
  · refine hmade.imp_right ?_
    rintro ⟨e, hmem, u, rfl⟩
    exact ⟨u, hmem⟩
  · intro a e hnext
    cases e with
    | settled u => exact Or.inr ⟨u, rfl⟩
    | called | began | failed | returned => exact Or.inl hnext

/-- A call is in progress until it returns. -/
theorem begun_after {t : T} {call : InitCall} {late : Bool} (hacc : once.Accepts a h)
    (hcall : a.begun t = some (call, late))
    (hno : ∀ call' error, Event.returned t call' error ∉ h) :
    (once.after a h).begun t = some (call, late) := by
  induction h generalizing a with
  | nil => exact hcall
  | cons e h ih =>
      obtain ⟨hallowed, hrest⟩ := hacc
      refine ih hrest ?_ fun call' error hmem => hno call' error (List.mem_cons_of_mem _ hmem)
      cases e with
      | began | failed | settled => exact hcall
      | called u call' =>
          have htu : t ≠ u := by
            rintro rfl
            cases hcall.symm.trans hallowed
          exact (Function.update_of_ne htu _ _).trans hcall
      | returned u call' error =>
          have htu : t ≠ u := by
            rintro rfl
            exact hno call' error List.mem_cons_self
          exact (Function.update_of_ne htu _ _).trans hcall

end

/-- **`init_static_vars` in whatever order the threads go.**  It begins at most once.  When
a call has returned without an error, the static variables are what it has made of them
when it was run alone, and they stay so.  A call that begins behind its failure is told.
And an error is returned only where `/proc` was missing or it has failed. -/
theorem initialized_once {h : List (Event T)} {c : Config T Place (Shared T)}
    (hrun : Run (Code res) start h c) :
    (∀ before u first rest, h = before ++ .began u first :: rest →
      (∀ v call, Event.began v call ∉ before) ∧ ∀ v call, Event.began v call ∉ rest) ∧
    (∀ t call, .returned t call none ∈ h → ∃ u first s, .began u first ∈ h ∧
      initStaticVars res first Statics.init = some s ∧
        c.shared.statics = { s with onceDone := true }) ∧
    (∀ before between rest t call call' error,
      h = before ++ .called t call :: (between ++ .returned t call' error :: rest) →
      (∀ call'' error', Event.returned t call'' error' ∉ between) →
      (∃ u, Event.failed u ∈ before) → error = some (errorText STR_ERR_INIT)) ∧
    ∀ t call text, .returned t call (some text) ∈ h →
      call.procMounted = false ∨ ∃ u first, .began u first ∈ h ∧ first.InitFails := by
  obtain ⟨hacc, hholds⟩ := outline_start.run hrun
  refine ⟨?_, ?_, ?_, ?_⟩
  · rintro before u first rest rfl
    obtain ⟨hbefore, hallowed, hrest⟩ := once.accepts_append.mp hacc
    have hbegun : ((once.after Record.init before).next (.began u first)).body = some first := rfl
    refine ⟨fun v call hmem => ?_, (body_after hrest hbegun).2⟩
    obtain ⟨before', rest', rfl⟩ := List.append_of_mem hmem
    obtain ⟨_, _, hrest'⟩ := once.accepts_append.mp hbefore
    have hbegun' : ((once.after Record.init before').next (.began v call)).body = some call := rfl
    have hbody := (body_after hrest' hbegun').1
    rw [once.after_append] at hallowed
    cases hbody.symm.trans hallowed.1
  · intro t call hmem
    obtain ⟨before, rest, rfl⟩ := List.append_of_mem hmem
    obtain ⟨_, ⟨late, _, _, _, hsettled⟩, hrest⟩ := once.accepts_append.mp hacc
    have hover : (once.after Record.init (before ++ .returned t call none :: rest)).settled = true := by
      rw [once.after_append]
      exact settled_after (h := rest) hrest hsettled
    obtain ⟨_, first, s, hbody, hinit, hstatics⟩ := hholds.inv.final hover
    obtain ⟨u, hbegan⟩ := (began_of_body hbody).resolve_left fun hnone => by cases hnone
    exact ⟨u, first, s, hbegan, hinit, hstatics⟩
  · rintro before between rest t call call' error rfl hno ⟨u, hmem⟩
    obtain ⟨hbefore, _, hcalled⟩ := once.accepts_append.mp hacc
    obtain ⟨hbetween, ⟨late, hcall, hanswers⟩, _⟩ := once.accepts_append.mp hcalled
    have hfailed : (once.after Record.init before).failed = true := by
      obtain ⟨before', rest', rfl⟩ := List.append_of_mem hmem
      obtain ⟨_, _, hrest'⟩ := once.accepts_append.mp hbefore
      rw [once.after_append]
      exact failed_after (a := (once.after Record.init before').next (.failed u)) hrest' rfl
    have hbegun : ((once.after Record.init before).next (.called t call)).begun t =
        some (call, true) := by
      refine (Function.update_self t _ _).trans ?_
      rw [hfailed]
    obtain ⟨rfl, rfl⟩ := Prod.mk.inj (Option.some.inj
      ((begun_after hbetween hbegun hno).symm.trans hcall))
    cases error with
    | none => cases hanswers.1
    | some text =>
        rcases hanswers with ⟨rfl, _⟩ | ⟨hlate, _⟩
        · rfl
        · cases hlate
  · intro t call text hmem
    obtain ⟨before, rest, rfl⟩ := List.append_of_mem hmem
    obtain ⟨_, ⟨late, _, hanswers⟩, hrest⟩ := once.accepts_append.mp hacc
    rcases hanswers with ⟨_, hfailed⟩ | ⟨_, hmissing⟩
    · have hover : (once.after Record.init
          (before ++ .returned t call (some text) :: rest)).failed = true := by
        rw [once.after_append]
        exact failed_after (h := rest) hrest hfailed
      obtain ⟨first, hbody, hfails⟩ := hholds.inv.fails hover
      obtain ⟨u, hbegan⟩ := (began_of_body hbody).resolve_left fun hnone => by cases hnone
      exact Or.inr ⟨u, first, hbegan, hfails⟩
    · exact Or.inl hmissing

/-! ## The threads that wait -/

/-- The steps that are left of `init_static_vars`. -/
def Place.work : Place → Nat
  | .storing _ left _ => left.length + 2
  | .wrapUp _ => 1
  | _ => 0

/-- The thread in `init_static_vars` will leave it. -/
def Place.Leaves : Place → Prop
  | .storing _ _ last => last ≠ .hangs
  | .wrapUp _ => True
  | _ => False

omit [DecidableEq T] in
/-- `init_static_vars` comes to its end. -/
theorem alone_settles {t : T} {l : Place} {s : Shared T} (h : l.Leaves) :
    ∃ hist l' s', Alone (Code res) t l s hist l' s' ∧ s'.statics.onceDone = true := by
  refine Alone.exists_of_measure (fun (l : Place) (_ : Shared T) => l.Leaves)
    (fun _ s => s.statics.onceDone = true) (fun l _ => l.work) ?_ h
  intro l s hleaves
  cases l with
  | idle | testFailed | statProc | once | leave => cases hleaves
  | wrapUp call => exact ⟨_, _, _, .advance rfl, Or.inl rfl⟩
  | storing call left last =>
      cases left with
      | cons g left => exact ⟨_, _, _, .advance rfl, Or.inr ⟨hleaves, Nat.lt_succ_self _⟩⟩
      | nil =>
          cases last with
          | hangs => exact absurd rfl hleaves
          | returns | fails => exact ⟨_, _, _, .advance rfl, Or.inr ⟨trivial, Nat.lt_succ_self _⟩⟩

omit [DecidableEq T] in
/-- A thread that waits returns once `globals_init` is set. -/
theorem alone_returns {t : T} {call : InitCall} {s : Shared T} (hdone : s.statics.onceDone = true) :
    Alone (Code res) t (.once call) s [.returned t call none] .idle s := by
  have hpass : advance res t (.once call) s = some (none, .leave call, s) := by
    rw [advance, if_pos hdone]
  exact Alone.next (Alone.next .start (Code.advance hpass)) (Code.advance rfl)

/-- **The threads that wait in `pthread_once`** can go on if and only if the
`init_static_vars` under way returns. -/
theorem waiting_returns_iff {h : List (Event T)} {c : Config T Place (Shared T)}
    (hrun : Run (Code res) start h c) {t u : T} {call first : InitCall}
    (hbegan : .began u first ∈ h) (hopen : ∀ v, .settled v ∉ h) (hwaits : c.places t = .once call) :
    (∃ h' c', Run (Code res) c h' c' ∧ .returned t call none ∈ h') ↔
      initStaticVars res first Statics.init ≠ none := by
  constructor
  · rintro ⟨h', c', hrun', hmem⟩
    obtain ⟨honce, hsettled, _⟩ := initialized_once (hrun.trans hrun')
    obtain ⟨v, first', s, hbegan', hinit, _⟩ := hsettled t call (List.mem_append_right h hmem)
    obtain ⟨before, rest, hsplit⟩ := List.append_of_mem (List.mem_append_left h' hbegan)
    obtain ⟨hbefore, hrest⟩ := honce before u first rest hsplit
    rw [hsplit] at hbegan'
    rcases List.mem_append.mp hbegan' with hfront | hback
    · exact absurd hfront (hbefore v first')
    · rcases List.mem_cons.mp hback with heq | hlater
      · cases heq
        rw [hinit]
        exact Option.some_ne_none s
      · exact absurd hlater (hrest v first')
  · intro hreturns
    obtain ⟨hacc, hholds⟩ := outline_start.run hrun
    have hbody : (once.after Record.init h).body = some first := by
      obtain ⟨before, rest, rfl⟩ := List.append_of_mem hbegan
      obtain ⟨_, _, hrest⟩ := once.accepts_append.mp hacc
      rw [once.after_append]
      exact (body_after (a := (once.after Record.init before).next (.began u first)) hrest rfl).1
    have hunsettled : (once.after Record.init h).settled ≠ true := by
      intro hsettled
      rcases settled_of_after hsettled with hinit | ⟨v, hmem⟩
      · cases hinit
      · exact hopen v hmem
    obtain ⟨v, hbusy⟩ : ∃ v, c.shared.busy = some v := by
      refine Option.ne_none_iff_exists'.mp fun hfree => ?_
      rcases hholds.inv.working hfree with hnone | hsettled
      · cases hbody.symm.trans hnone
      · exact hunsettled hsettled
    have hknows := hholds.knows v
    have hleaves : (c.places v).Leaves := by
      have hin := hknows.inBody hbusy
      cases hplace : c.places v with
      | idle | testFailed | statProc | once | leave =>
          rw [hplace] at hin
          cases hin
      | wrapUp call' => trivial
      | storing call' left last =>
          rw [hplace] at hknows
          obtain ⟨_, hworking, done, hsteps, _⟩ := hknows.stage
          obtain rfl := Option.some.inj (hbody.symm.trans hworking.body)
          rintro rfl
          apply hreturns
          rw [← finish_initSteps, hsteps]
          rfl
    obtain ⟨hist, l, s, halone, hdone⟩ : ∃ hist l s,
        Alone (Code res) v (c.places v) c.shared hist l s ∧ s.statics.onceDone = true :=
      alone_settles hleaves
    have htv : t ≠ v := by
      rintro rfl
      rw [hwaits] at hleaves
      cases hleaves
    have hstays : (c.move v l s).places t = .once call :=
      (Config.move_places_of_ne c htv l s).trans hwaits
    have hreturn : Run (Code res) (c.move v l s) [.returned t call none]
        ((c.move v l s).move t .idle s) := by
      refine Alone.run ?_
      rw [hstays]
      exact alone_returns hdone
    exact ⟨_, _, halone.run.trans hreturn, List.mem_append_right hist List.mem_cons_self⟩

/-! ## A failure that two threads do not hear of -/

/-- One step of a thread, with the call that it begins. -/
def turn (res : Residue (Procstat Nat)) (t : T) (l : Place) (s : Shared T) :
    Option InitCall → Option (Option (Event T) × Place × Shared T)
  | none => advance res t l s
  | some call =>
      match l with
      | .idle => some (some (.called t call), .testFailed call, s)
      | _ => none

omit [DecidableEq T] in
theorem turn_code {t : T} {l l' : Place} {s s' : Shared T} {r : Option InitCall}
    {e : Option (Event T)} (h : turn res t l s r = some (e, l', s')) : Code res t l s e l' s' := by
  cases r with
  | none => exact .advance h
  | some call =>
      cases l with
      | idle =>
          cases h
          exact .call s call
      | _ => cases h

def sampleResidue : Residue (Procstat Nat) := ⟨fun _ _ => nul, fun _ => Procstat.zero⟩

/-- One thread is in `init_static_vars`, which cannot read `/proc/stat`, and the other waits
for it. -/
def waitTurns : List (Bool × Option InitCall) :=
  [(false, some (callOf true none)), (true, some (callOf true none))] ++
    List.replicate 5 (false, none) ++ [(true, none), (true, none)]

/-- It fails, both return, and one of them calls again. -/
def sampleTurns : List (Bool × Option InitCall) :=
  waitTurns ++ List.replicate 5 (false, none) ++ List.replicate 2 (true, none) ++
    [(true, some (callOf true none)), (true, none)]

example :
    ((play (turn sampleResidue) start sampleTurns).map fun out => out.1.filterMap fun
        | .returned t _ error => some (t, error)
        | _ => none) =
      some [(false, none), (true, none), (true, some (errorText STR_ERR_INIT))] := by
  decide +kernel

theorem initialized_once_sample :
    ∃ h c, play (turn sampleResidue) start sampleTurns = some (h, c) ∧
      ∀ t call, .returned t call none ∈ h → ∃ u first s, .began u first ∈ h ∧
        initStaticVars sampleResidue first Statics.init = some s ∧
          c.shared.statics = { s with onceDone := true } := by
  have hplays : (play (turn sampleResidue) start sampleTurns).isSome := by decide +kernel
  obtain ⟨⟨h, c⟩, hplay⟩ := Option.isSome_iff_exists.mp hplays
  exact ⟨h, c, hplay, (initialized_once (play_run turn_code hplay)).2.1⟩

theorem waiting_returns_iff_sample :
    ∃ h c, play (turn sampleResidue) start waitTurns = some (h, c) ∧
      ((∃ h' c', Run (Code sampleResidue) c h' c' ∧ .returned true (callOf true none) none ∈ h') ↔
        initStaticVars sampleResidue (callOf true none) Statics.init ≠ none) := by
  obtain ⟨c, hplay, hwaits⟩ : ∃ c, play (turn sampleResidue) start waitTurns =
      some ([.called false (callOf true none), .called true (callOf true none),
        .began false (callOf true none)], c) ∧ c.places true = .once (callOf true none) :=
    ⟨_, rfl, rfl⟩
  refine ⟨_, c, hplay, waiting_returns_iff (u := false) (play_run turn_code hplay) ?_ ?_ hwaits⟩
  · exact List.mem_cons_of_mem _ (List.mem_cons_of_mem _ List.mem_cons_self)
  · intro v hmem
    simp at hmem

end Linux.Once
