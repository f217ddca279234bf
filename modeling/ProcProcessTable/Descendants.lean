import Mathlib.Data.List.Chain
import Mathlib.Data.List.Nodup
import Mathlib.Data.List.Perm.Subperm
import Mathlib.Logic.Relation

/-!
# Descendants, depth first

A relation is given by the list of children of each vertex.  `below` lists the
strict descendants of some roots: each child of each root, followed by what is
below that child.  Nothing makes the descent stop on a cycle, so it is bounded
by a depth, and gives `none` when the bound is met.

* `mem_below`: what is listed is exactly what descends from a root;
* `below_isSome`: without cycles the number of vertices is depth enough;
* `below_ends_iff`: it is cycles at or below a root, and nothing else, that no
  depth is enough for;
* `below_nodup`, `below_order`: where every vertex has one parent, what is below
  one root is listed once, and a parent before its children;
* `below_nodup_iff`: from several roots a vertex is listed again just where one
  root descends from another.
-/

namespace Descendants

section Collect

variable {α β : Type*}

/-- The lists a partial function gives, joined; nothing if one is missing. -/
def collect (f : α → Option (List β)) : List α → Option (List β)
  | [] => some []
  | a :: as =>
      match f a, collect f as with
      | some bs, some rest => some (bs ++ rest)
      | _, _ => none

theorem collect_cons_some {f : α → Option (List β)} {a : α} {as : List α} {out : List β}
    (h : collect f (a :: as) = some out) :
    ∃ bs rest, f a = some bs ∧ collect f as = some rest ∧ out = bs ++ rest := by
  rw [collect] at h
  split at h
  · exact ⟨_, _, ‹_›, ‹_›, (Option.some.inj h).symm⟩
  · cases h

/-- A missing list is one of those asked for. -/
theorem collect_none {f : α → Option (List β)} {as : List α} (h : collect f as = none) :
    ∃ a ∈ as, f a = none := by
  induction as with
  | nil => cases h
  | cons a as ih =>
      cases hf : f a with
      | none => exact ⟨a, List.mem_cons_self, hf⟩
      | some bs =>
          cases hrest : collect f as with
          | none =>
              obtain ⟨a', ha', hf'⟩ := ih hrest
              exact ⟨a', List.mem_cons_of_mem _ ha', hf'⟩
          | some rest =>
              rw [collect, hf, hrest] at h
              cases h

/-- Each of the joined lists is there, and in one piece. -/
theorem collect_sublist {f : α → Option (List β)} {as : List α} {out : List β}
    (h : collect f as = some out) {a : α} (ha : a ∈ as) :
    ∃ bs, f a = some bs ∧ bs.Sublist out := by
  induction as generalizing out with
  | nil => cases ha
  | cons a' as ih =>
      obtain ⟨bs, rest, hbs, hrest, rfl⟩ := collect_cons_some h
      rcases List.mem_cons.mp ha with rfl | ha
      · exact ⟨bs, hbs, List.sublist_append_left bs rest⟩
      · obtain ⟨bs', hbs', hsub⟩ := ih hrest ha
        exact ⟨bs', hbs', hsub.trans (List.sublist_append_right bs rest)⟩

theorem mem_collect {f : α → Option (List β)} {as : List α} {out : List β}
    (h : collect f as = some out) (x : β) :
    x ∈ out ↔ ∃ a ∈ as, ∃ bs, f a = some bs ∧ x ∈ bs := by
  constructor
  · intro hx
    induction as generalizing out with
    | nil =>
        obtain rfl := Option.some.inj h
        cases hx
    | cons a as ih =>
        obtain ⟨bs, rest, hbs, hrest, rfl⟩ := collect_cons_some h
        rcases List.mem_append.mp hx with hx | hx
        · exact ⟨a, List.mem_cons_self, bs, hbs, hx⟩
        · obtain ⟨a', ha', found⟩ := ih hrest hx
          exact ⟨a', List.mem_cons_of_mem _ ha', found⟩
  · rintro ⟨a, ha, bs, hbs, hx⟩
    obtain ⟨bs', hbs', hsub⟩ := collect_sublist h ha
    rw [hbs] at hbs'
    cases hbs'
    exact hsub.subset hx

/-- Lists without repetition that share nothing are joined without
repetition. -/
theorem collect_nodup {f : α → Option (List β)} {as : List α} {out : List β}
    (h : collect f as = some out) (hone : ∀ a ∈ as, ∀ bs, f a = some bs → bs.Nodup)
    (hapart : as.Pairwise fun a a' => ∀ bs bs' x, f a = some bs → f a' = some bs' →
      x ∈ bs → x ∉ bs') : out.Nodup := by
  induction as generalizing out with
  | nil =>
      obtain rfl := Option.some.inj h
      exact List.nodup_nil
  | cons a as ih =>
      obtain ⟨bs, rest, hbs, hrest, rfl⟩ := collect_cons_some h
      obtain ⟨hhead, htail⟩ := List.pairwise_cons.mp hapart
      have hnodup := ih hrest (fun a' ha' => hone a' (List.mem_cons_of_mem _ ha')) htail
      apply List.nodup_append.mpr
      refine ⟨hone a List.mem_cons_self bs hbs, hnodup, ?_⟩
      intro x hx y hy heq
      obtain ⟨a', ha', bs', hbs', hy'⟩ := (mem_collect hrest y).mp hy
      exact hhead a' ha' bs bs' x hbs hbs' hx (heq ▸ hy')

theorem collect_singleton (f : α → Option (List β)) (a : α) : collect f [a] = f a := by
  cases hf : f a with
  | none => rw [collect, hf]
  | some bs =>
      rw [collect, hf]
      exact congrArg some (List.append_nil bs)

/-- A function that gives more gives the same lists. -/
theorem collect_mono {f g : α → Option (List β)} {as : List α}
    (hfg : ∀ a ∈ as, ∀ bs, f a = some bs → g a = some bs) {out : List β}
    (h : collect f as = some out) : collect g as = some out := by
  induction as generalizing out with
  | nil => exact h
  | cons a as ih =>
      obtain ⟨bs, rest, hbs, hrest, rfl⟩ := collect_cons_some h
      have hhead := hfg a List.mem_cons_self bs hbs
      have htail := ih (fun a' ha' => hfg a' (List.mem_cons_of_mem _ ha')) hrest
      rw [collect, hhead, htail]

theorem collect_map {γ : Type*} (f : α → Option (List β)) (g : γ → α) (as : List γ) :
    collect f (as.map g) = collect (fun a => f (g a)) as := by
  induction as with
  | nil => rfl
  | cons a as ih => rw [List.map_cons, collect, collect, ih]

/-- A loop that appends what it finds for some of the elements. -/
theorem foldlM_collect (p : α → Prop) [DecidablePred p] (f : α → Option (List β)) (as : List α)
    (acc : List β) :
    as.foldlM (fun acc a => if p a then (f a).map (acc ++ ·) else some acc) acc =
      (collect f (as.filter (p ·))).map (acc ++ ·) := by
  induction as generalizing acc with
  | nil => exact congrArg some (List.append_nil acc).symm
  | cons a as ih =>
      rw [List.foldlM_cons]
      by_cases hp : p a
      · rw [if_pos hp, List.filter_cons_of_pos (by simpa using hp), collect]
        cases f a with
        | none => rfl
        | some bs =>
            refine (ih (acc ++ bs)).trans ?_
            cases collect f (as.filter (p ·)) with
            | none => rfl
            | some rest => exact congrArg some (List.append_assoc acc bs rest)
      · rw [if_neg hp, List.filter_cons_of_neg (by simpa using hp)]
        exact ih acc

end Collect

variable {α : Type*} (children : α → List α)

/-- What is below the roots, to a depth. -/
def below : Nat → List α → Option (List α)
  | 0, _ => none
  | depth + 1, roots =>
      collect (fun root => collect (fun child => (below depth [child]).map (child :: ·))
        (children root)) roots

/-- One vertex is a child of the other. -/
def Child (a b : α) : Prop := b ∈ children a

/-- One vertex is a strict descendant of the other. -/
def Descends : α → α → Prop := Relation.TransGen (Child children)

/-- The vertex, or one below it, descends from itself. -/
def MeetsCycle (a : α) : Prop :=
  ∃ b, Relation.ReflTransGen (Child children) a b ∧ Descends children b b

variable {children}

/-- A descendant is a child or descends from one. -/
theorem descends_iff {a b : α} :
    Descends children a b ↔ ∃ c ∈ children a, b = c ∨ Descends children c b := by
  unfold Descends
  rw [Relation.TransGen.head'_iff]
  constructor
  · rintro ⟨c, hc, hcb⟩
    exact ⟨c, hc, Relation.reflTransGen_iff_eq_or_transGen.mp hcb⟩
  · rintro ⟨c, hc, hcb⟩
    exact ⟨c, hc, Relation.reflTransGen_iff_eq_or_transGen.mpr hcb⟩

/-- A cycle is met by way of a child. -/
theorem meetsCycle_iff {a : α} : MeetsCycle children a ↔ ∃ c ∈ children a, MeetsCycle children c := by
  constructor
  · rintro ⟨b, hab, hbb⟩
    rcases Relation.ReflTransGen.cases_head hab with rfl | ⟨c, hc, hcb⟩
    · obtain ⟨c, hc, hca⟩ := Relation.TransGen.head'_iff.mp hbb
      exact ⟨c, hc, a, hca, hbb⟩
    · exact ⟨c, hc, b, hcb, hbb⟩
  · rintro ⟨c, hc, b, hcb, hbb⟩
    exact ⟨b, Relation.ReflTransGen.head hc hcb, hbb⟩

/-- Where every child ranks above its parent there is no cycle. -/
theorem acyclic_of_rank {β : Type*} [Preorder β] (rank : α → β)
    (h : ∀ a, ∀ c ∈ children a, rank a < rank c) (a : α) : ¬ Descends children a a := by
  have hlt : ∀ b, Descends children a b → rank a < rank b := by
    intro b hab
    induction hab with
    | single hb => exact h a _ hb
    | tail _ hc ih => exact ih.trans (h _ _ hc)
  exact fun hself => lt_irrefl _ (hlt a hself)

/-- One step of the descent. -/
theorem below_succ (depth : Nat) (roots : List α) :
    below children (depth + 1) roots =
      collect (fun root => collect (fun child => (below children depth [child]).map (child :: ·))
        (children root)) roots := rfl

/-- What is below several roots is what is below each of them, in turn. -/
theorem below_roots (depth : Nat) (roots : List α) :
    below children (depth + 1) roots =
      collect (fun root => below children (depth + 1) [root]) roots := by
  simp only [below_succ, collect_singleton]

/-- **Exactly the descendants are listed.** -/
theorem mem_below {depth : Nat} {roots out : List α} (h : below children depth roots = some out)
    (x : α) : x ∈ out ↔ ∃ root ∈ roots, Descends children root x := by
  induction depth generalizing roots out x with
  | zero => cases h
  | succ depth ih =>
      rw [below_succ] at h
      have hchild : ∀ child sub, (below children depth [child]).map (child :: ·) = some sub →
          (x ∈ sub ↔ x = child ∨ Descends children child x) := by
        intro child sub hsub
        obtain ⟨rest, hrest, rfl⟩ := Option.map_eq_some_iff.mp hsub
        rw [List.mem_cons, ih hrest x]
        simp only [List.mem_singleton, exists_eq_left]
      rw [mem_collect h x]
      constructor
      · rintro ⟨root, hroot, bs, hbs, hx⟩
        obtain ⟨child, hc, sub, hsub, hxs⟩ := (mem_collect hbs x).mp hx
        exact ⟨root, hroot, descends_iff.mpr ⟨child, hc, (hchild child sub hsub).mp hxs⟩⟩
      · rintro ⟨root, hroot, hdesc⟩
        obtain ⟨child, hc, hcx⟩ := descends_iff.mp hdesc
        obtain ⟨bs, hbs, _⟩ := collect_sublist h hroot
        obtain ⟨sub, hsub, _⟩ := collect_sublist hbs hc
        have hxs := (hchild child sub hsub).mpr hcx
        exact ⟨root, hroot, bs, hbs, (mem_collect hbs x).mpr ⟨child, hc, sub, hsub, hxs⟩⟩

/-- More depth changes nothing. -/
theorem below_mono {depth : Nat} {roots out : List α} (h : below children depth roots = some out)
    {more : Nat} (hle : depth ≤ more) : below children more roots = some out := by
  induction depth generalizing roots out more with
  | zero => cases h
  | succ depth ih =>
      obtain ⟨more, rfl⟩ : ∃ m, more = m + 1 := ⟨more - 1, by omega⟩
      rw [below_succ] at h ⊢
      refine collect_mono (fun root _ bs hbs => ?_) h
      refine collect_mono (fun child _ sub hsub => ?_) hbs
      obtain ⟨rest, hrest, rfl⟩ := Option.map_eq_some_iff.mp hsub
      rw [ih hrest (Nat.le_of_succ_le_succ hle)]
      rfl

/-- A descent that meets its bound has gone down a path of that length. -/
theorem path_of_below_none {depth : Nat} {roots : List α}
    (h : below children depth roots = none) (hroots : roots ≠ []) :
    ∃ root ∈ roots, ∃ path : List α, path.length = depth ∧
      (root :: path).IsChain (Child children) := by
  induction depth generalizing roots with
  | zero =>
      obtain ⟨root, hroot⟩ := List.exists_mem_of_ne_nil roots hroots
      exact ⟨root, hroot, [], rfl, List.isChain_singleton root⟩
  | succ depth ih =>
      rw [below_succ] at h
      obtain ⟨root, hroot, hnone⟩ := collect_none h
      obtain ⟨child, hc, hsub⟩ := collect_none hnone
      obtain ⟨child', hc', path, hlen, hpath⟩ :=
        ih (Option.map_eq_none_iff.mp hsub) (List.cons_ne_nil _ _)
      obtain rfl := List.mem_singleton.mp hc'
      exact ⟨root, hroot, child' :: path, congrArg Nat.succ hlen, List.IsChain.cons_cons hc hpath⟩

/-- Along a path everything descends from what stands before it. -/
theorem pairwise_descends {path : List α} (h : path.IsChain (Child children)) :
    path.Pairwise (Descends children) := by
  have htrans : IsTrans α (Descends children) := ⟨fun _ _ _ => Relation.TransGen.trans⟩
  exact (h.imp fun _ _ => Relation.TransGen.single).pairwise

/-- A path that meets no cycle repeats no vertex. -/
theorem nodup_of_path {path : List α} (h : path.IsChain (Child children))
    (hpath : ∀ a ∈ path, ¬ Descends children a a) : path.Nodup := by
  refine List.Pairwise.imp_of_mem ?_ (pairwise_descends h)
  intro a b ha _ hab heq
  subst heq
  exact hpath a ha hab

/-- Roots that meet no cycle: the descent ends, above the number of vertices at
the latest. -/
theorem below_isSome_of_not_meetsCycle {vertices : List α}
    (hvertices : ∀ a, ∀ c ∈ children a, c ∈ vertices) {roots : List α}
    (hroots : ∀ root ∈ roots, ¬ MeetsCycle children root) :
    ∃ out, ∀ depth, vertices.length < depth → below children depth roots = some out := by
  have hdone : ∃ out, below children (vertices.length + 1) roots = some out := by
    apply Option.ne_none_iff_exists'.mp
    intro hnone
    have hne : roots ≠ [] := by
      intro hnil
      rw [hnil] at hnone
      cases hnone
    obtain ⟨root, hroot, path, hlen, hpath⟩ := path_of_below_none hnone hne
    have hdesc := (List.pairwise_cons.mp (pairwise_descends hpath)).1
    have hnodup : path.Nodup := by
      refine nodup_of_path hpath.of_cons fun x hx hxx => hroots root hroot ⟨x, ?_, hxx⟩
      exact (hdesc x hx).to_reflTransGen
    have hmem : path ⊆ vertices := by
      intro x hx
      obtain ⟨a, _, hax⟩ := Relation.TransGen.tail'_iff.mp (hdesc x hx)
      exact hvertices a x hax
    have hle := (hnodup.subperm hmem).length_le
    omega
  obtain ⟨out, hout⟩ := hdone
  exact ⟨out, fun depth hdepth => below_mono hout hdepth⟩

/-- The descent into a cycle meets every bound. -/
theorem not_meetsCycle_of_below {depth : Nat} {roots out : List α}
    (h : below children depth roots = some out) {root : α} (hroot : root ∈ roots) :
    ¬ MeetsCycle children root := by
  induction depth generalizing roots out root with
  | zero => cases h
  | succ depth ih =>
      intro hcycle
      rw [below_succ] at h
      obtain ⟨child, hc, hcycle⟩ := meetsCycle_iff.mp hcycle
      obtain ⟨bs, hbs, _⟩ := collect_sublist h hroot
      obtain ⟨sub, hsub, _⟩ := collect_sublist hbs hc
      obtain ⟨rest, hrest, _⟩ := Option.map_eq_some_iff.mp hsub
      exact ih hrest (List.mem_singleton_self child) hcycle

/-- **The descent ends exactly where no root meets a cycle.** -/
theorem below_ends_iff {vertices : List α} (hvertices : ∀ a, ∀ c ∈ children a, c ∈ vertices)
    (roots : List α) :
    (∃ depth out, below children depth roots = some out) ↔
      ∀ root ∈ roots, ¬ MeetsCycle children root := by
  constructor
  · rintro ⟨depth, out, h⟩ root hroot
    exact not_meetsCycle_of_below h hroot
  · intro hroots
    obtain ⟨out, hout⟩ := below_isSome_of_not_meetsCycle hvertices hroots
    exact ⟨_, out, hout _ (Nat.lt_succ_self _)⟩

/-- Of two vertices with a descendant in common one reaches the other, where
every vertex has one parent. -/
theorem ancestors_comparable (hparent : ∀ a b c, c ∈ children a → c ∈ children b → a = b)
    {a b x : α} (ha : Relation.ReflTransGen (Child children) a x)
    (hb : Relation.ReflTransGen (Child children) b x) :
    Relation.ReflTransGen (Child children) a b ∨ Relation.ReflTransGen (Child children) b a := by
  have hunique : Relator.RightUnique (Function.swap (Child children)) :=
    fun c a b hac hbc => hparent a b c hac hbc
  have hup := Relation.reflTransGen_swap.mpr ha
  have hup' := Relation.reflTransGen_swap.mpr hb
  rcases Relation.ReflTransGen.total_of_right_unique hunique hup hup' with h | h
  · exact Or.inr (Relation.reflTransGen_swap.mp h)
  · exact Or.inl (Relation.reflTransGen_swap.mp h)

section

variable (hacyclic : ∀ a, ¬ Descends children a a)

include hacyclic

/-- **Without cycles the descent ends**, above the number of vertices at the
latest. -/
theorem below_isSome {vertices : List α} (hvertices : ∀ a, ∀ c ∈ children a, c ∈ vertices)
    (roots : List α) : ∃ out, ∀ depth, vertices.length < depth →
      below children depth roots = some out :=
  below_isSome_of_not_meetsCycle hvertices fun _ _ ⟨b, _, hbb⟩ => hacyclic b hbb

section

variable (hparent : ∀ a b c, c ∈ children a → c ∈ children b → a = b)

include hparent

/-- Two children of one vertex have no descendant in common. -/
theorem siblings_apart {a c c' x : α} (hc : c ∈ children a) (hc' : c' ∈ children a)
    (hne : c ≠ c') (hx : x = c ∨ Descends children c x) :
    ¬ (x = c' ∨ Descends children c' x) := by
  -- below a vertex with one parent, a sibling would have that parent below itself
  have hbelow : ∀ {d d' : α}, d ∈ children a → d' ∈ children a → d ≠ d' →
      ¬ Relation.ReflTransGen (Child children) d d' := by
    intro d d' hd hd' hdd hreach
    rcases Relation.ReflTransGen.cases_tail hreach with heq | ⟨b, hdb, hbd⟩
    · exact hdd heq.symm
    · obtain rfl := hparent b a d' hbd hd'
      exact hacyclic b (Relation.TransGen.head' hd hdb)
  intro hx'
  have hreach := Relation.reflTransGen_iff_eq_or_transGen.mpr hx
  have hreach' := Relation.reflTransGen_iff_eq_or_transGen.mpr hx'
  rcases ancestors_comparable hparent hreach hreach' with h | h
  · exact hbelow hc hc' hne h
  · exact hbelow hc' hc hne.symm h

/-- **One root lists each of its descendants once.** -/
theorem below_nodup (honce : ∀ a, (children a).Nodup) {depth : Nat} {root : α} {out : List α}
    (h : below children depth [root] = some out) : out.Nodup := by
  induction depth generalizing root out with
  | zero => cases h
  | succ depth ih =>
      rw [below_succ] at h
      obtain ⟨bs, rest, hbs, hrest, rfl⟩ := collect_cons_some h
      obtain rfl := Option.some.inj hrest
      rw [List.append_nil]
      have hsub : ∀ child sub, (below children depth [child]).map (child :: ·) = some sub →
          ∃ rest, below children depth [child] = some rest ∧ sub = child :: rest := by
        intro child sub hs
        obtain ⟨rest, hrest, heq⟩ := Option.map_eq_some_iff.mp hs
        exact ⟨rest, hrest, heq.symm⟩
      have hmem : ∀ child sub, (below children depth [child]).map (child :: ·) = some sub →
          ∀ x, x ∈ sub → x = child ∨ Descends children child x := by
        intro child sub hs x hx
        obtain ⟨rest, hrest, rfl⟩ := hsub child sub hs
        refine (List.mem_cons.mp hx).imp_right fun hx => ?_
        obtain ⟨root', hroot', hdesc⟩ := (mem_below hrest x).mp hx
        exact List.mem_singleton.mp hroot' ▸ hdesc
      refine collect_nodup hbs ?_ ?_
      · intro child hc sub hs
        obtain ⟨rest, hrest, rfl⟩ := hsub child sub hs
        refine List.nodup_cons.mpr ⟨fun hself => ?_, ih hrest⟩
        obtain ⟨root', hroot', hdesc⟩ := (mem_below hrest child).mp hself
        exact hacyclic child (List.mem_singleton.mp hroot' ▸ hdesc)
      · refine (honce root).imp_of_mem ?_
        intro c c' hc hc' hne sub sub' x hs hs' hx hx'
        exact siblings_apart hacyclic hparent hc hc' hne (hmem c sub hs x hx)
          (hmem c' sub' hs' x hx')

/-- **Each root and descendant is listed once just where no root descends from
another.** -/
theorem below_nodup_iff (honce : ∀ a, (children a).Nodup) {depth : Nat} {roots out : List α}
    (hroots : roots.Nodup) (h : below children depth roots = some out) :
    (roots ++ out).Nodup ↔ ∀ a ∈ roots, ∀ b ∈ roots, ¬ Descends children a b := by
  constructor
  · intro hnodup a ha b hb hab
    have hbout : b ∈ out := (mem_below h b).mpr ⟨a, ha, hab⟩
    exact List.disjoint_of_nodup_append hnodup hb hbout
  · intro hapart
    obtain ⟨depth, rfl⟩ : ∃ d, depth = d + 1 := by
      cases depth with
      | zero => cases h
      | succ d => exact ⟨d, rfl⟩
    have hdesc : ∀ root bs x, below children (depth + 1) [root] = some bs → x ∈ bs →
        Descends children root x := by
      intro root bs x hbs hx
      obtain ⟨root', hroot', hdesc⟩ := (mem_below hbs x).mp hx
      exact List.mem_singleton.mp hroot' ▸ hdesc
    have hout : out.Nodup := by
      rw [below_roots] at h
      refine collect_nodup h (fun root _ bs hbs => below_nodup hacyclic hparent honce hbs) ?_
      refine hroots.imp_of_mem ?_
      intro a b ha hb hne bs bs' x hbs hbs' hx hx'
      have hax := (hdesc a bs x hbs hx).to_reflTransGen
      have hbx := (hdesc b bs' x hbs' hx').to_reflTransGen
      rcases ancestors_comparable hparent hax hbx with hab | hba
      · rcases Relation.reflTransGen_iff_eq_or_transGen.mp hab with heq | hab
        · exact hne heq.symm
        · exact hapart a ha b hb hab
      · rcases Relation.reflTransGen_iff_eq_or_transGen.mp hba with heq | hba
        · exact hne heq
        · exact hapart b hb a ha hba
    refine List.nodup_append.mpr ⟨hroots, hout, ?_⟩
    intro b hb x hx heq
    obtain ⟨a, ha, hax⟩ := (mem_below h x).mp hx
    exact hapart a ha b hb (heq ▸ hax)

end

end

/-- **A parent is listed before its children.** -/
theorem below_order {depth : Nat} {roots out : List α}
    (h : below children depth roots = some out) {a b : α} (ha : a ∈ out) (hb : b ∈ children a) :
    [a, b].Sublist out := by
  induction depth generalizing roots out with
  | zero => cases h
  | succ depth ih =>
      rw [below_succ] at h
      obtain ⟨root, hroot, bs, hbs, habs⟩ := (mem_collect h a).mp ha
      obtain ⟨child, hc, sub, hsub, hasub⟩ := (mem_collect hbs a).mp habs
      obtain ⟨rest, hrest, rfl⟩ := Option.map_eq_some_iff.mp hsub
      have hpair : [a, b].Sublist (child :: rest) := by
        rcases List.mem_cons.mp hasub with rfl | harest
        · have hbrest := (mem_below hrest b).mpr
            ⟨a, List.mem_singleton_self a, Relation.TransGen.single hb⟩
          exact (List.singleton_sublist.mpr hbrest).cons_cons a
        · exact (ih hrest harest).cons child
      obtain ⟨bs', hbs', hsubout⟩ := collect_sublist h hroot
      obtain ⟨sub', hsub', hsubbs⟩ := collect_sublist hbs hc
      rw [hbs] at hbs'
      rw [hsub] at hsub'
      cases hbs'
      cases hsub'
      exact hpair.trans (hsubbs.trans hsubout)

end Descendants
