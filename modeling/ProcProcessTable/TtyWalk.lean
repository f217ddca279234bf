import ProcProcessTable.DirectoryWalk
import ProcProcessTable.TtyKeys

/-!
# ProcessTable.pm: _get_tty_list

The terminal table is filled on a walk of `/dev` by `File::Find`, which lists every
directory as `readdir` does.  Each name that `stat` finds a character device under
is stored under the number of the device, over the name that was stored there
before.  `stat` follows symbolic links, so a link to a terminal is such a name.

As it is documented the walk takes the entries of a directory in any order; as it
is implemented it goes through the entries that are no directories first.
`ttyList_iff` has both, and says for which trees the table depends on no order and
names no link; `DevTree.ttydev_eq` carries a table to the objects.
-/

namespace ProcessTable

open DirectoryWalk Xs

/-- An entry below `/dev` that is no directory: whether it is a symbolic link, and
the device number, if `stat` finds a character device there. -/
structure Name where
  path : List Char
  link : Bool
  char : Option Nat
  deriving DecidableEq, Repr

/-- A directory: whether `-x` holds of it. -/
structure Directory where
  path : List Char
  executable : Bool
  deriving DecidableEq, Repr

/-- The `wanted` function leaves `$File::Find::prune` alone at this directory. -/
def descend (d : Directory) : Bool :=
  !(!d.executable || d.path = "/dev/.lxc".toList || d.path = "/dev/.lxd-mounts".toList)

/-- The `wanted` function at a name.  A directory is no character device. -/
def wanted (ttydevs : HV) (name : Name) : HV :=
  match name.char with
  | some rdev => ttydevs.store (toString rdev) (.pv name.path)
  | none => ttydevs

/-- `_get_tty_list`, with what `find` lists at `/dev`, if that is a directory. -/
def getTtyList (dev : Option (Listing Name Directory)) : HV :=
  match dev with
  | none => HV.empty
  | some l => (l.walk descend).foldl wanted HV.empty

/-- The tree below `/dev`, as some listing of it.  No two names have one path. -/
structure DevTree where
  listing : Listing Name Directory
  distinct : ((listing.walk descend).map Name.path).Nodup

/-- The names of a tree. -/
def DevTree.names (dev : DevTree) : List Name := dev.listing.walk descend

/-- The name is stored under this key. -/
def storedUnder (key : String) (name : Name) : Bool := decide (name.char.map toString = some key)

theorem storedUnder_iff {rdev : Nat} {name : Name} :
    storedUnder (toString rdev) name = true ↔ name.char = some rdev := by
  unfold storedUnder
  rw [decide_eq_true_eq]
  constructor
  · intro h
    obtain ⟨n, hn, htext⟩ := Option.map_eq_some_iff.mp h
    rw [hn, toString_inj.mp htext]
  · intro h
    rw [h]
    rfl

/-- **What is stored under a key** is the last name that was. -/
theorem foldl_wanted (names : List Name) (ttydevs : HV) (key : String) :
    names.foldl wanted ttydevs key =
      match (names.filter (storedUnder key)).getLast? with
      | some name => some (.pv name.path)
      | none => ttydevs key := by
  induction names generalizing ttydevs with
  | nil => rfl
  | cons name names ih =>
      rw [List.foldl_cons, ih]
      by_cases hkey : storedUnder key name = true
      · rw [List.filter_cons_of_pos hkey, List.getLast?_cons]
        cases (names.filter (storedUnder key)).getLast? with
        | some last => rfl
        | none =>
            obtain ⟨rdev, hrdev, rfl⟩ := Option.map_eq_some_iff.mp (of_decide_eq_true hkey)
            dsimp only [Option.getD_none]
            unfold wanted
            rw [hrdev]
            exact HV.store_self _ _ _
      · rw [List.filter_cons_of_neg hkey]
        cases (names.filter (storedUnder key)).getLast? with
        | some last => rfl
        | none =>
            dsimp only
            unfold wanted
            cases hrdev : name.char with
            | none => rfl
            | some rdev =>
                apply HV.store_of_ne
                rintro rfl
                exact hkey (storedUnder_iff.mpr hrdev)

theorem getTtyList_some (l : Listing Name Directory) (key : String) :
    getTtyList (some l) key =
      ((l.walk descend).filter (storedUnder key)).getLast?.map fun name => SV.pv name.path := by
  unfold getTtyList
  dsimp only
  rw [foldl_wanted]
  cases ((l.walk descend).filter (storedUnder key)).getLast? with
  | some name => rfl
  | none => rfl

/-- Under the number of a device it is the last name that has this number. -/
theorem getTtyList_rdev (l : Listing Name Directory) (rdev : Nat) :
    getTtyList (some l) (toString rdev) =
      ((l.walk descend).filter fun name => decide (name.char = some rdev)).getLast?.map
        fun name => SV.pv name.path := by
  have hstored : storedUnder (toString rdev) = fun name => decide (name.char = some rdev) := by
    funext name
    rw [Bool.eq_iff_iff, storedUnder_iff, decide_eq_true_eq]
  rw [getTtyList_some, hstored]

/-- What a table holds was stored by a name that was met. -/
theorem mem_of_getTtyList {l : Listing Name Directory} {key : String} {path : SV}
    (h : getTtyList (some l) key = some path) :
    ∃ x ∈ l.walk descend, ∃ rdev, x.char = some rdev ∧ key = toString rdev ∧ path = .pv x.path := by
  rw [getTtyList_some] at h
  obtain ⟨x, hlast, hpath⟩ := Option.map_eq_some_iff.mp h
  obtain ⟨hmem, hstored⟩ := List.mem_filter.mp (List.mem_of_getLast? hlast)
  obtain ⟨rdev, hrdev, htext⟩ := Option.map_eq_some_iff.mp (of_decide_eq_true hstored)
  exact ⟨x, hmem, rdev, hrdev, htext.symm, hpath.symm⟩

/-- Device numbers of 32 bits make a table with keys of 32 bits. -/
def DevTree.ttyTable (dev : DevTree)
    (h : ∀ name ∈ dev.names, name.path ≠ [] ∧ ∀ rdev, name.char = some rdev → rdev < 2 ^ 32) :
    TtyTable where
  devs := getTtyList (some dev.listing)
  keyed key hkey := by
    obtain ⟨path, hpath⟩ := Option.ne_none_iff_exists'.mp hkey
    obtain ⟨x, hx, rdev, hrdev, rfl, -⟩ := mem_of_getTtyList hpath
    have hlt := (h x hx).2 rdev hrdev
    refine ⟨UInt32.ofNat rdev, ?_⟩
    rw [UInt32.toNat_ofNat', Nat.mod_eq_of_lt hlt]
  named key hkey := by
    obtain ⟨x, hx, _, _, _, hpath⟩ := mem_of_getTtyList hkey
    exact (h x hx).1 (SV.pv.inj hpath).symm

/-- **The terminal of a process, from the tree to the object.**  Where the number of the slot
keeps its value, it is the name with that number that was met last; a number that is widened
to another one finds nothing. -/
theorem DevTree.ttydev_eq (dev : DevTree)
    (h : ∀ name ∈ dev.names, name.path ≠ [] ∧ ∀ rdev, name.char = some rdev → rdev < 2 ^ 32)
    {call : BlessCall} {before after : List CallRow} {c : Char} {w : UInt64}
    (hrows : call.Rows (before ++ ⟨c, "ttynum", .word w⟩ :: after)) (hc : c = 'i' ∨ c = 'l')
    (hdev : "ttydev" ∉ after.map CallRow.key) (hnum : "ttynum" ∉ after.map CallRow.key) :
    call.object (some (dev.ttyTable h).devs) "ttydev" =
      if (c = 'i' → w.toUInt32.toNat < 2 ^ 31) ∧ (c = 'l' → w.toNat < 2 ^ 32) then
        some (((dev.names.filter fun name => decide (name.char = some w.toUInt32.toNat)).getLast?.map
          fun name => SV.pv name.path).getD (.pv []))
      else some (.pv []) := by
  obtain ⟨ttynum, hnumber, hiff, hbig⟩ := shown_ttynum hc w
  have hobject := hrows.object_ttydev (some (dev.ttyTable h).devs) rfl hnumber hdev hnum
  rw [Option.bind_some] at hobject
  rw [hobject]
  split
  · next hsame =>
      rw [hiff.mpr hsame]
      exact congrArg (fun path => some (Option.getD path (.pv [])))
        (getTtyList_rdev dev.listing w.toUInt32.toNat)
  · next hother =>
      rw [(dev.ttyTable h).none_of_le (hbig.resolve_left fun heq => hother (hiff.mp heq)),
        Option.getD_none]
section

variable {dev : DevTree} {leavesFirst : Bool}

theorem DevTree.nodup (dev : DevTree) : dev.names.Nodup := List.Nodup.of_map _ dev.distinct

theorem DevTree.eq_of_path (dev : DevTree) {x n : Name} (hx : x ∈ dev.names) (hn : n ∈ dev.names)
    (h : x.path = n.path) : x = n :=
  List.inj_on_of_nodup_map dev.distinct hx hn h

/-- Every order meets the same names. -/
theorem Order.names {l : Listing Name Directory} (h : Listing.Order leavesFirst dev.listing l) :
    dev.names.Perm (l.walk descend) := h.1.walk_perm

/-- A name that is not ahead of another is stored over it in some order. -/
theorem exists_overwritten {x n : Name} {rdev : Nat} (hx : x ∈ dev.names) (hn : n ∈ dev.names)
    (hxchar : x.char = some rdev) (hne : n ≠ x)
    (hahead : ¬ Listing.Ahead descend leavesFirst dev.listing x n) :
    ∃ l, Listing.Order leavesFirst dev.listing l ∧
      getTtyList (some l) (toString rdev) ≠ some (.pv n.path) := by
  obtain ⟨l, horder, hpair⟩ := Listing.exists_before hn hx hne hahead
  have hnames := Order.names horder
  have hlast := Listing.last_ne (hnames.nodup_iff.mp dev.nodup) hpair (storedUnder_iff.mpr hxchar)
  refine ⟨l, horder, ?_⟩
  rw [getTtyList_some]
  intro heq
  obtain ⟨z, hz, hpath⟩ := Option.map_eq_some_iff.mp heq
  have hzmem := hnames.mem_iff.mpr (List.mem_filter.mp (List.mem_of_getLast? hz)).1
  obtain rfl := dev.eq_of_path hzmem hn (SV.pv.inj hpath)
  exact hlast hz

/-- A name that all others of its device are ahead of is stored last in every
order. -/
theorem stored_last {n : Name} {rdev : Nat} (hn : n ∈ dev.names) (hchar : n.char = some rdev)
    (hahead : ∀ x ∈ dev.names, x.char = some rdev → x ≠ n →
      Listing.Ahead descend leavesFirst dev.listing x n)
    {l : Listing Name Directory} (horder : Listing.Order leavesFirst dev.listing l) :
    getTtyList (some l) (toString rdev) = some (.pv n.path) := by
  have hnames := Order.names horder
  have hlast : ((l.walk descend).filter (storedUnder (toString rdev))).getLast? = some n := by
    apply Listing.last_eq (hnames.nodup_iff.mp dev.nodup) (hnames.mem_iff.mp hn)
      (storedUnder_iff.mpr hchar)
    intro x hx hstored hne
    exact Listing.ahead_before
      (hahead x (hnames.mem_iff.mpr hx) (storedUnder_iff.mp hstored) hne) horder
  rw [getTtyList_some, hlast]
  rfl

/-- Every device that is met is in the table. -/
theorem exists_stored {l : Listing Name Directory} (horder : Listing.Order leavesFirst dev.listing l)
    {x : Name} {rdev : Nat} (hx : x ∈ dev.names) (hrdev : x.char = some rdev) :
    ∃ path, getTtyList (some l) (toString rdev) = some path := by
  have hxmem := (Order.names horder).mem_iff.mp hx
  have hne := List.ne_nil_of_mem (List.mem_filter.mpr ⟨hxmem, storedUnder_iff.mpr hrdev⟩)
  obtain ⟨z, hz⟩ := Option.isSome_iff_exists.mp (List.getLast?_isSome.mpr hne)
  refine ⟨.pv z.path, ?_⟩
  rw [getTtyList_some, hz]
  rfl

end

/-- Each number has a node that is stored under it in every order. -/
def StoredLast (leavesFirst : Bool) (dev : DevTree) : Prop :=
  ∀ x ∈ dev.names, ∀ rdev, x.char = some rdev →
    ∃ n ∈ dev.names, n.link = false ∧ n.char = some rdev ∧
      ∀ l, Listing.Order leavesFirst dev.listing l →
        getTtyList (some l) (toString rdev) = some (.pv n.path)

/-- Then every order makes the same table. -/
theorem StoredLast.getTtyList_eq {leavesFirst : Bool} {dev : DevTree}
    (hstored : StoredLast leavesFirst dev) {l l' : Listing Name Directory}
    (horder : Listing.Order leavesFirst dev.listing l)
    (horder' : Listing.Order leavesFirst dev.listing l') :
    getTtyList (some l) = getTtyList (some l') := by
  funext key
  -- a key that one of them holds is the number of a device that was met
  have hone : ∀ a b, Listing.Order leavesFirst dev.listing a →
      Listing.Order leavesFirst dev.listing b → ∀ path, getTtyList (some a) key = some path →
        getTtyList (some b) key = some path := by
    intro a b ha hb path hpath
    obtain ⟨x, hx, rdev, hrdev, rfl, -⟩ := mem_of_getTtyList hpath
    obtain ⟨n, -, -, -, hin⟩ := hstored x ((Order.names ha).mem_iff.mpr hx) rdev hrdev
    rw [← hpath, hin a ha]
    exact hin b hb
  cases hl : getTtyList (some l) key with
  | some path => exact (hone l l' horder horder' path hl).symm
  | none =>
      cases hl' : getTtyList (some l') key with
      | none => rfl
      | some path =>
          rw [hone l' l horder' horder path hl'] at hl
          cases hl

/-- **Which terminal tables depend on no order.**  The table is the same for all
orders a walk may take, and holds no path but that of a device node, if and only if
every device that is met has a node that all its other names are ahead of.  In
every order it holds the last name of each device that is met. -/
theorem ttyList_iff (leavesFirst : Bool) (dev : DevTree) :
    (((∀ l l', Listing.Order leavesFirst dev.listing l → Listing.Order leavesFirst dev.listing l' →
        getTtyList (some l) = getTtyList (some l')) ∧
      ∀ l, Listing.Order leavesFirst dev.listing l → ∀ rdev path,
        getTtyList (some l) (toString rdev) = some path →
          ∃ n ∈ dev.names, n.link = false ∧ n.char = some rdev ∧ path = .pv n.path) ↔
      ∀ x ∈ dev.names, ∀ rdev, x.char = some rdev →
        ∃ n ∈ dev.names, n.link = false ∧ n.char = some rdev ∧
          ∀ y ∈ dev.names, y.char = some rdev → y ≠ n →
            Listing.Ahead descend leavesFirst dev.listing y n) ∧
    ∀ l, Listing.Order leavesFirst dev.listing l → ∀ rdev,
      getTtyList (some l) (toString rdev) =
        ((l.walk descend).filter fun name => decide (name.char = some rdev)).getLast?.map
          fun name => .pv name.path := by
  refine ⟨?_, fun l _ rdev => getTtyList_rdev l rdev⟩
  constructor
  · intro ⟨hsame, hnode⟩ x hx rdev hrdev
    have hsorted := Listing.order_sorted leavesFirst dev.listing
    obtain ⟨path, hpath⟩ := exists_stored hsorted hx hrdev
    obtain ⟨n, hn, hlink, hchar, rfl⟩ := hnode _ hsorted rdev path hpath
    refine ⟨n, hn, hlink, hchar, ?_⟩
    intro y hy hychar hne
    by_contra hahead
    obtain ⟨l, horder, hother⟩ := exists_overwritten hy hn hychar (Ne.symm hne) hahead
    rw [hsame l _ horder hsorted] at hother
    exact hother hpath
  · intro hall
    have hstored : StoredLast leavesFirst dev := by
      intro x hx rdev hrdev
      obtain ⟨n, hn, hlink, hchar, hahead⟩ := hall x hx rdev hrdev
      exact ⟨n, hn, hlink, hchar, fun l horder => stored_last hn hchar hahead horder⟩
    constructor
    · exact fun l l' horder horder' => hstored.getTtyList_eq horder horder'
    · intro l horder rdev path hpath
      obtain ⟨x, hx, rdev', hrdev, htext, -⟩ := mem_of_getTtyList hpath
      obtain rfl := toString_inj.mp htext
      obtain ⟨n, hn, hlink, hchar, hin⟩ :=
        hstored x ((Order.names horder).mem_iff.mpr hx) rdev hrdev
      rw [hin l horder] at hpath
      exact ⟨n, hn, hlink, hchar, (Option.some.inj hpath).symm⟩

/-- A serial line, and the link `modem` to it. -/
def ttyS0 : Name := ⟨"/dev/ttyS0".toList, false, some 1088⟩
def modem : Name := ⟨"/dev/modem".toList, true, some 1088⟩

/-- `/dev` with the two in it, in some order. -/
def devOf (x y : Name) : Listing Name Directory :=
  .dir ⟨"/dev".toList, true⟩ (.leaf x (.leaf y .nil)) .nil

theorem walk_devOf (x y : Name) : (devOf x y).walk descend = [x, y] := by
  have hdescend : descend ⟨"/dev".toList, true⟩ = true := by decide
  unfold devOf Listing.walk
  rw [if_pos hdescend]
  rfl

theorem order_devOf (leavesFirst : Bool) (x y : Name) :
    Listing.Order leavesFirst (devOf x y) (devOf y x) :=
  ⟨.dir _ (.leafLeaf x y .nil) (.refl _), fun _ => ⟨trivial, rfl, trivial⟩⟩

theorem getTtyList_devOf {x y : Name} {rdev : Nat} (hy : y.char = some rdev) :
    getTtyList (some (devOf x y)) (toString rdev) = some (.pv y.path) := by
  have hlast : ([x, y].filter (storedUnder (toString rdev))).getLast? = some y := by
    have hpair : [x, y] = [x] ++ [y] := rfl
    rw [hpair, List.filter_append, List.filter_cons_of_pos (storedUnder_iff.mpr hy), List.filter_nil,
      List.getLast?_concat]
  rw [getTtyList_some, walk_devOf, hlast]
  rfl

/-- The tree of the two. -/
def serialTree : DevTree where
  listing := devOf modem ttyS0
  distinct := by
    rw [walk_devOf]
    decide

/-- **One device, two terminals.**  The serial line is found under its own name when
the link is met first, and under the name of the link when it is met last; leaves
come first in both orders. -/
theorem link_hides_node :
    Listing.Order true serialTree.listing (devOf ttyS0 modem) ∧
      Listing.Order true serialTree.listing (devOf modem ttyS0) ∧
      getTtyList (some (devOf modem ttyS0)) (toString 1088) = some (.pv "/dev/ttyS0".toList) ∧
      getTtyList (some (devOf ttyS0 modem)) (toString 1088) = some (.pv "/dev/modem".toList) ∧
      getTtyList (some (devOf modem ttyS0)) ≠ getTtyList (some (devOf ttyS0 modem)) := by
  have hnode := getTtyList_devOf (x := modem) (y := ttyS0) rfl
  have hlink := getTtyList_devOf (x := ttyS0) (y := modem) rfl
  refine ⟨order_devOf true _ _, ⟨.refl _, fun _ => ⟨trivial, rfl, trivial⟩⟩, hnode, hlink, ?_⟩
  intro hsame
  rw [hsame, hlink] at hnode
  exact absurd (SV.pv.inj (Option.some.inj hnode)) (by decide)

end ProcessTable
