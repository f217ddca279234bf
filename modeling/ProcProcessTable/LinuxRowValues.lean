import ProcProcessTable.LinuxPublished

/-!
# What a row holds

The members of the record at the call of `bless_into_proc` in terms of what the
files held: the texts behind the five pointers with their lengths, the process
id, the state.  The status file and the percentages are read last and write to
members of their own, so nothing they find changes the others.
-/

namespace Linux

open CText Scanf Xs

/-- The record with the members of the status file cleared. -/
def Scraped.beforeStatus (p : Scraped) : Scraped :=
  { p with euid := 0, suid := 0, fuid := 0, egid := 0, sgid := 0, fgid := 0, tracer := 0 }

theorem targets_beforeStatus (kind : LineKind) :
    ∀ t ∈ kind.targets, ∀ v p, Scraped.beforeStatus (t v p) = p.beforeStatus := by
  intro t ht v p
  cases kind <;>
    simp only [LineKind.targets, uidTargets, gidTargets, tracerTargets, List.mem_cons,
      List.not_mem_nil, or_false] at ht
  · rcases ht with rfl | rfl | rfl | rfl <;> cases v <;> rfl
  · rcases ht with rfl | rfl | rfl | rfl <;> cases v <;> rfl
  · obtain rfl := ht
    cases v <;> rfl

/-- The lines of a status file leave every other member alone. -/
theorem foldl_storeLine (lines : List (List Char)) (p : Scraped) :
    (lines.foldl (fun p l => storeLine l p) p).beforeStatus = p.beforeStatus := by
  induction lines generalizing p with
  | nil => rfl
  | cons line lines ih =>
      rw [List.foldl_cons, ih]
      unfold storeLine
      cases LineKind.ofLine? line with
      | none => rfl
      | some kind => exact assign_inv Scraped.beforeStatus (targets_beforeStatus kind) _ p

/-- The record with the members of the percentages cleared as well. -/
def Scraped.beforeLast (p : Scraped) : Scraped :=
  { p.beforeStatus with pctcpu := [], pctmem := [] }

namespace Row

/-- An entry that is published passed every test on the way. -/
theorem scrape_eq_ready {port : Port} {e : DirEntry} {r : Row} (h : scrape port e = .ready r) :
    isPid e.dName = true ∧ ¬ Vanished e ∧
      ∃ r', ((upToStat e).2.links port e).status (e.world .status) e.dName = some r' ∧
        r'.percentages port (e.world .calcPrec) = .ok r := by
  unfold scrape finish at h
  split at h
  · cases h
  · next hpid =>
      split at h
      · cases h
      · next hvan =>
          split at h
          · cases h
          · next r' hr' =>
              split at h
              · cases h
              · next r'' hr'' =>
                  obtain rfl := Outcome.ready.inj h
                  exact ⟨by simpa using hpid, hvan, r', hr', hr''⟩

/-- The percentages write to their own members. -/
theorem percentages_member {β : Type} (π : Scraped → β)
    (hπ : ∀ p cpu mem, π { p with pctcpu := cpu, pctmem := mem } = π p) {port : Port} {k : Kernel}
    {r r' : Row} (h : r.percentages port k = .ok r') :
    (∀ m, r'.prs.get m = r.prs.get m) ∧ π r'.prs.toScraped = π r.prs.toScraped := by
  unfold percentages calcPrec at h
  by_cases hmem : port.globals.systemMemory ≠ 0
  · simp only [if_pos hmem] at h
    split at h
    · cases h
    · next out hout =>
        split at hout
        · obtain rfl := Except.ok.inj hout
          obtain rfl := Except.ok.inj h
          exact ⟨fun m => Procstat.scraped_get _ _ m, hπ _ _ _⟩
        · cases hout
  · simp only [if_neg hmem] at h
    obtain rfl := Except.ok.inj h
    exact ⟨fun m => Procstat.scraped_get _ _ m, hπ _ _ _⟩

theorem percentages_prs {port : Port} {k : Kernel} {r r' : Row}
    (h : r.percentages port k = .ok r') :
    (∀ m, r'.prs.get m = r.prs.get m) ∧
      r'.prs.toScraped.beforeLast = r.prs.toScraped.beforeLast :=
  percentages_member Scraped.beforeLast (fun _ _ _ => rfl) h

/-- The status file stores what its lines hold, one behind the other. -/
theorem status_scraped {k : Kernel} {pid : List Char} {r r' : Row} {enabled : Field → Bool}
    (hformat : r.formatStr = formatOf enabled)
    (hfresh : ∀ kind : LineKind, enabled kind.witness = false)
    (h : r.status k pid = some r') :
    (∀ m, r'.prs.get m = r.prs.get m) ∧
      r'.prs.toScraped = ((file k pid "status".toList).elim [] visitedLines).foldl
        (fun p l => storeLine l p) r.prs.toScraped := by
  have hends := status_formatStr hformat hfresh k pid
  rw [h] at hends
  unfold status at h
  cases hfile : file k pid "status".toList with
  | none =>
      rw [hfile] at h
      obtain rfl := Option.some.inj h
      exact ⟨fun _ => rfl, rfl⟩
  | some text =>
      rw [hfile] at h
      have hcstr : cstr (text ++ [nul]) = cstr text := cstr_append_nul text []
      have hhead : (cstr (text ++ [nul])).head? ≠ some '\n' := by
        rw [hcstr]
        exact hends.1 text hfile
      have hlines : statusLines (text ++ [nul]) enabled = visitedLines text := by
        rw [statusLines, visitedLines, statusLines, hcstr]
        exact linesRead_congr _ hfresh
      simp only [hformat, scanStatus_formatOf hhead, Option.map_some, Option.some.injEq] at h
      obtain rfl := h
      refine ⟨fun m => Procstat.scraped_get _ _ m, ?_⟩
      rw [Option.elim_some, ← hlines]
      rfl

/-- The members of its lines are all that it writes to. -/
theorem status_prs {k : Kernel} {pid : List Char} {r r' : Row} {enabled : Field → Bool}
    (hformat : r.formatStr = formatOf enabled)
    (hfresh : ∀ kind : LineKind, enabled kind.witness = false)
    (h : r.status k pid = some r') :
    (∀ m, r'.prs.get m = r.prs.get m) ∧
      r'.prs.toScraped.beforeStatus = r.prs.toScraped.beforeStatus := by
  obtain ⟨hget, hstored⟩ := status_scraped hformat hfresh h
  refine ⟨hget, ?_⟩
  rw [hstored, foldl_storeLine]

/-- What `fixup_stat_values` does to the state, and which members it leaves. -/
theorem fixup_prs (port : Port) (r : Row) :
    (∀ m, (r.fixup port).prs.get m = r.prs.get m) ∧
      (r.fixup port).prs.pid = r.prs.pid ∧
      (r.fixup port).prs.cmdlineLen = r.prs.cmdlineLen ∧
      (r.fixup port).prs.environLen = r.prs.environLen ∧
      (r.fixup port).prs.state =
        ((stateOf r.prs.stateC).map fun s => getString s.idx).or r.prs.state := by
  unfold fixup fixupStatValues
  refine ⟨fun m => Procstat.scraped_get _ _ m, ?_⟩
  cases stateOf r.prs.stateC <;> simp [Procstat.scraped]

end Row

/-- The members that the stat file does not set. -/
def Scraped.outsideStat (p : Scraped) : Int32 × Int32 × Option Nat :=
  (p.cmdlineLen, p.environLen, p.state)

theorem scanStat_outsideStat (m : Mem) (prs : Scraped) :
    (scanStat m prs).prs.outsideStat = prs.outsideStat := by
  obtain ⟨p, hp, hprs⟩ :=
    scanStat_member Scraped.outsideStat (fun _ _ => rfl) (fun _ _ => rfl) m prs
  rw [hprs, ← hp]
  exact assign_besidesStat Scraped.outsideStat (fun _ => rfl) (statConversions m) p

/-- The owner is not in the stat file. -/
theorem scanStat_owner (m : Mem) (prs : Scraped) :
    ((scanStat m prs).prs.uid, (scanStat m prs).prs.gid) = (prs.uid, prs.gid) := by
  obtain ⟨p, hp, hprs⟩ :=
    scanStat_member (fun q => (q.uid, q.gid)) (fun _ _ => rfl) (fun _ _ => rfl) m prs
  rw [hprs, ← hp]
  exact assign_besidesStat (fun q => (q.uid, q.gid)) (fun _ => rfl) (statConversions m) p

/-- The text behind a pointer of the record. -/
def DirEntry.text (e : DirEntry) : Member → Option (List Char)
  | .cwd => (e.link .cwd "cwd").map cstr
  | .cmndline => (e.file .cmndline "cmdline").map fun t => nulsToSpaces t t.length
  | .cmdline => e.file .cmdline "cmdline"
  | .environ => e.file .environ "environ"
  | .exec => (e.link .exec "exe").map cstr

/-- The length that is handed over with a text. -/
def lengthOf (text : Option (List Char)) : Int32 := (text.map fun t => Int32.ofNat t.length).getD 0

namespace Row

/-- Before the existence test nothing is known but the stat file. -/
theorem upToStat_prs (e : DirEntry) :
    (∀ m, (upToStat e).2.prs.get m = none) ∧
      (upToStat e).2.prs.toScraped.outsideStat = (0, 0, none) := by
  have hinfo : (∀ m, (init.userInfo (e.world .userInfo) e.dName).prs.get m = none) ∧
      (init.userInfo (e.world .userInfo) e.dName).prs.toScraped.outsideStat = (0, 0, none) := by
    unfold userInfo
    cases (e.world .userInfo).stat (pidPath e.dName none) with
    | none => exact ⟨fun m => by cases m <;> rfl, rfl⟩
    | some ids => exact ⟨fun m => by cases m <;> rfl, rfl⟩
  unfold upToStat procStat
  cases file (e.world .procStat) e.dName "stat".toList with
  | none => exact hinfo
  | some text =>
      refine ⟨fun m => ?_, ?_⟩
      · exact (Procstat.scraped_get _ _ m).trans (hinfo.1 m)
      · exact (scanStat_outsideStat _ _).trans hinfo.2

/-- What the stat file decides and sets. -/
theorem upToStat_stat (e : DirEntry) :
    ((upToStat e).1 = false ↔ ∀ text, e.file .procStat "stat" = some text →
      pidConversion (text ++ [nul]) ≠ none ∧ statComplete text = false) ∧
    (upToStat e).2.prs.pid = e.statPid.getD 0 ∧ (upToStat e).2.prs.rss = e.statRss := by
  have hinfo : (init.userInfo (e.world .userInfo) e.dName).prs.pid = 0 ∧
      (init.userInfo (e.world .userInfo) e.dName).prs.rss = 0 := by
    unfold userInfo
    cases (e.world .userInfo).stat (pidPath e.dName none) <;> exact ⟨rfl, rfl⟩
  unfold upToStat procStat DirEntry.statPid DirEntry.statRss DirEntry.file
  cases file (e.world .procStat) e.dName "stat".toList with
  | none => exact ⟨iff_of_true rfl (fun _ h => by cases h), hinfo⟩
  | some text =>
      have hpid := scanStat_pid (text ++ [nul])
        (init.userInfo (e.world .userInfo) e.dName).prs.toScraped
      have hrss := scanStat_rss (text ++ [nul])
        (init.userInfo (e.world .userInfo) e.dName).prs.toScraped
      have hexits := (scanStat_exits (text ++ [nul])
        (init.userInfo (e.world .userInfo) e.dName).prs.toScraped).2.1
      rw [hinfo.1] at hpid
      rw [hinfo.2] at hrss
      refine ⟨hexits.trans ?_, hpid, hrss⟩
      have hcomplete : statComplete text = false ↔ (statConversions (text ++ [nul])).length ≠ 33 :=
        decide_eq_false_iff_not
      rw [← hcomplete]
      constructor
      · rintro h t ht
        rw [← Option.some.inj ht]
        exact h
      · exact fun h => h text rfl

/-- The test for a process that went away, in terms of what the system
answered. -/
theorem vanished_iff (e : DirEntry) : Vanished e ↔ e.Gone :=
  and_congr_left fun _ => (upToStat_stat e).1

/-- Pointing one member at a text that may be missing. -/
theorem point_get {r r' : Row} {o : Option (List Char)} {m₀ : Member}
    (hr : ∀ m, r'.prs.get m = match o with
      | none => r.prs.get m
      | some text => (r.prs.set m₀ text).get m)
    {texts : Member → Option (List Char)} (h : ∀ m, r.prs.get m = texts m) (hnone : texts m₀ = none)
    (m : Member) : r'.prs.get m = if m = m₀ then o else texts m := by
  rw [hr]
  cases o with
  | none =>
      refine (h m).trans ?_
      by_cases hm : m = m₀
      · rw [if_pos hm, hm, hnone]
      · rw [if_neg hm]
  | some text =>
      dsimp only
      rw [Procstat.set_get, h]

theorem link_prs (k : Kernel) (pid linkRel : List Char) (field : Field) (m₀ : Member) (r : Row) :
    (∀ m, (r.link k pid linkRel field m₀).prs.get m =
      match (k.realpath (pidPath pid (some linkRel))).map cstr with
      | none => r.prs.get m
      | some text => (r.prs.set m₀ text).get m) ∧
    (r.link k pid linkRel field m₀).prs.toScraped = r.prs.toScraped := by
  unfold link
  cases k.realpath (pidPath pid (some linkRel)) with
  | none => exact ⟨fun _ => rfl, rfl⟩
  | some text => exact ⟨fun _ => rfl, Procstat.set_toScraped _ _ _⟩

theorem cmndline_prs (k : Kernel) (pid : List Char) (r : Row) :
    (∀ m, (r.cmndline k pid).prs.get m =
      match (file k pid "cmdline".toList).map fun t => nulsToSpaces t t.length with
      | none => r.prs.get m
      | some text => (r.prs.set .cmndline text).get m) ∧
    (r.cmndline k pid).prs.toScraped = r.prs.toScraped := by
  unfold cmndline
  cases file k pid "cmdline".toList with
  | none => exact ⟨fun _ => rfl, rfl⟩
  | some text => exact ⟨fun _ => rfl, Procstat.set_toScraped _ _ _⟩

theorem cmdline_prs (k : Kernel) (pid : List Char) {r : Row} (hlen : r.prs.cmdlineLen = 0) :
    (∀ m, (r.cmdline k pid).prs.get m =
      match file k pid "cmdline".toList with
      | none => r.prs.get m
      | some text => (r.prs.set .cmdline text).get m) ∧
    (r.cmdline k pid).prs.toScraped =
      { r.prs.toScraped with cmdlineLen := lengthOf (file k pid "cmdline".toList) } := by
  unfold cmdline
  cases file k pid "cmdline".toList with
  | none => exact ⟨fun _ => rfl, by rw [lengthOf, Option.map_none, Option.getD_none, ← hlen]⟩
  | some text => exact ⟨fun m => by cases m <;> rfl, rfl⟩

theorem environ_prs (k : Kernel) (pid : List Char) {r : Row} (hlen : r.prs.environLen = 0) :
    (∀ m, (r.environ k pid).prs.get m =
      match file k pid "environ".toList with
      | none => r.prs.get m
      | some text => (r.prs.set .environ text).get m) ∧
    (r.environ k pid).prs.toScraped =
      { r.prs.toScraped with environLen := lengthOf (file k pid "environ".toList) } := by
  unfold environ
  cases file k pid "environ".toList with
  | none => exact ⟨fun _ => rfl, by rw [lengthOf, Option.map_none, Option.getD_none, ← hlen]⟩
  | some text => exact ⟨fun m => by cases m <;> rfl, rfl⟩

/-- The members after the links, on a row that knows the stat file only. -/
theorem links_prs (port : Port) (e : DirEntry) {r : Row} (hget : ∀ m, r.prs.get m = none)
    (hout : r.prs.toScraped.outsideStat = (0, 0, none)) :
    (∀ m, (r.links port e).prs.get m = e.text m) ∧
      (r.links port e).prs.toScraped =
        { (r.fixup port).prs.toScraped with
          cmdlineLen := lengthOf (e.file .cmdline "cmdline")
          environLen := lengthOf (e.file .environ "environ") } := by
  obtain ⟨hfget, hpid, hcmdline, henviron, hstate⟩ := fixup_prs port r
  have hlen : r.prs.cmdlineLen = 0 ∧ r.prs.environLen = 0 := by
    simpa [Scraped.outsideStat] using And.intro (congrArg Prod.fst hout)
      (congrArg (fun p => p.2.1) hout)
  have h0 : ∀ m, (r.fixup port).prs.get m = none := fun m => (hfget m).trans (hget m)
  rw [hlen.1] at hcmdline
  rw [hlen.2] at henviron
  obtain ⟨hg1, hs1⟩ := cmndline_prs (e.world .cmndline) e.dName (r.fixup port)
  have h1 := point_get hg1 h0 rfl
  obtain ⟨hg2, hs2⟩ := cmdline_prs (e.world .cmdline) e.dName
    (r := (r.fixup port).cmndline (e.world .cmndline) e.dName) (by rw [hs1]; exact hcmdline)
  have h2 := point_get hg2 h1 rfl
  obtain ⟨hg3, hs3⟩ := environ_prs (e.world .environ) e.dName
    (r := ((r.fixup port).cmndline (e.world .cmndline) e.dName).cmdline (e.world .cmdline) e.dName)
    (by rw [hs2, hs1]; exact henviron)
  have h3 := point_get hg3 h2 rfl
  obtain ⟨hg4, hs4⟩ := link_prs (e.world .cwd) e.dName "cwd".toList .cwd .cwd _
  have h4 := point_get hg4 h3 rfl
  obtain ⟨hg5, hs5⟩ := link_prs (e.world .exec) e.dName "exe".toList .exec .exec _
  have h5 := point_get hg5 h4 rfl
  refine ⟨fun m => ?_, ?_⟩
  · refine (h5 m).trans ?_
    cases m <;> rfl
  · refine hs5.trans ?_
    rw [hs4, hs3, hs2, hs1]
    rfl

/-- **The members at the call of `bless_into_proc`.** -/
theorem ready_prs {port : Port} {e : DirEntry} {r : Row} (h : scrape port e = .ready r) :
    (∀ m, r.prs.get m = e.text m) ∧
      r.prs.toScraped.beforeLast =
        { ((upToStat e).2.fixup port).prs.toScraped with
          cmdlineLen := lengthOf (e.file .cmdline "cmdline")
          environLen := lengthOf (e.file .environ "environ") }.beforeLast := by
  obtain ⟨_, _, r', hstatus, hpercent⟩ := scrape_eq_ready h
  obtain ⟨hget, hout⟩ := upToStat_prs e
  obtain ⟨hg1, hs1⟩ := links_prs port e hget hout
  obtain ⟨hg2, hs2⟩ := status_prs (links_formatStr port e) (links_fresh e) hstatus
  obtain ⟨hg3, hs3⟩ := percentages_prs hpercent
  refine ⟨fun m => (hg3 m).trans ((hg2 m).trans (hg1 m)), ?_⟩
  rw [hs3, ← hs1, Scraped.beforeLast, Scraped.beforeLast, hs2]

end Row

end Linux
