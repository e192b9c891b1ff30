import DSLink.Broker.Forward

/-!
# `Broker.PermissionMax` — the level is the maximum over the groups and the nodes of the path

`get_permission` carries one running level for each group down two recursions and breaks off at the first config
level. What it computes is said here without any of that: `metLists` walks the whole path, and `levelFor` is what one
list gives one group.

## Contents
- `ChildrenLive`: trees on which the walk of the source ends.
- `maxLevel` as a least upper bound, `getCurrentPermission` as the step from one bound to the next.
- `virtualLists`, `Site.metLists`, `Site.pathLists`: the lists of all nodes that are met.
- `Highest`, `get_permission_maximum`.
-/

namespace DSLink

/-! ## Trees without dangling children -/

namespace Broker

/-- The root and the local children of every node are nodes of the broker. -/
structure ChildrenLive {J : Type} (σ : Broker J) : Prop where
  root : (σ.node.get σ.root).isSome
  child : ∀ p node k n, σ.node.get p = some node → node.children.get k = some (.regular n) →
    (σ.node.get n).isSome

/-- `ChildrenLive` on all nodes that were ever allocated. -/
def childrenLive {J : Type} (σ : Broker J) : Bool :=
  (σ.node.get σ.root).isSome &&
    (List.range σ.node.next).all (fun p => (σ.node.get p).all (fun node => node.children.entries.all (fun e =>
      match e.2 with
      | .regular n => (σ.node.get n).isSome
      | .downstream _ => true)))

theorem ChildrenLive.of_childrenLive {J : Type} {σ : Broker J} (h : σ.childrenLive = true) : σ.ChildrenLive := by
  obtain ⟨hroot, hall⟩ := Bool.and_eq_true_iff.mp h
  refine ⟨hroot, fun p node k n hp hk => ?_⟩
  have hnode := List.all_eq_true.mp hall p (List.mem_range.mpr (Heap.lt_next_of_get hp))
  rw [hp] at hnode
  exact List.all_eq_true.mp hnode (k, .regular n) (AssocMap.mem_entries.mpr hk)

end Broker

/-! ## Bounds -/

namespace PermissionLevel

theorem le_rfl (a : PermissionLevel) : a ≤ a := Nat.le_refl _

theorem le_trans {a b c : PermissionLevel} (h : a ≤ b) (h' : b ≤ c) : a ≤ c := Nat.le_trans h h'

theorem none_le (a : PermissionLevel) : .none ≤ a := Nat.zero_le _

theorem le_of_not_lt {a b : PermissionLevel} (h : ¬a < b) : b ≤ a := Nat.not_lt.mp h

theorem le_antisymm {a b : PermissionLevel} (h : a ≤ b) (h' : b ≤ a) : a = b := toNat_inj (Nat.le_antisymm h h')

/-- The level just below one that is not the lowest. -/
theorem exists_pred {a : PermissionLevel} (h : a ≠ .none) :
    ∃ m : PermissionLevel, ¬a ≤ m ∧ ∀ b, b ≤ a → b ≠ a → b ≤ m := by
  have below (m : PermissionLevel) (hm : m.toNat + 1 = a.toNat) :
      ¬a ≤ m ∧ ∀ b, b ≤ a → b ≠ a → b ≤ m := by
    constructor
    · show ¬a.toNat ≤ m.toNat
      omega
    · intro b hb hne
      have hlt : b.toNat < a.toNat := Nat.lt_of_le_of_ne hb (fun he => hne (toNat_inj he))
      show b.toNat ≤ m.toNat
      omega
  cases a with
  | none => exact absurd rfl h
  | list => exact ⟨.none, below .none rfl⟩
  | read => exact ⟨.list, below .list rfl⟩
  | write => exact ⟨.read, below .read rfl⟩
  | config => exact ⟨.write, below .write rfl⟩
  | never => exact ⟨.config, below .config rfl⟩

end PermissionLevel

/-- What one permission list gives one group: the level of the first pair for the group or for everybody. -/
def levelFor (group : CString) (permissionList : Option (List PermissionPair)) : PermissionLevel :=
  ((permissionList.getD []).find? (fun pair => pair.group = group ∨ pair.group = cstr "default")).elim .none
    PermissionPair.permission

theorem levelFor_le_config (group : CString) (permissionList : Option (List PermissionPair)) :
    levelFor group permissionList ≤ .config := by
  unfold levelFor
  cases (permissionList.getD []).find? _ with
  | none => exact PermissionLevel.none_le _
  | some pair => exact pair.le_config

/-- No level is above `m`. -/
def Levels.Under (levels : Levels) (m : PermissionLevel) : Prop := ∀ l ∈ levels, l.2 ≤ m

theorem Levels.under_cons {l : CString × PermissionLevel} {levels : Levels} {m : PermissionLevel} :
    Levels.Under (l :: levels) m ↔ l.2 ≤ m ∧ Levels.Under levels m := List.forall_mem_cons

/-- The last loop of `get_permission` gives the least upper bound. -/
theorem Site.maxLevel_le_iff {levels : Levels} {m : PermissionLevel} :
    Site.maxLevel levels ≤ m ↔ levels.Under m := by
  suffices ∀ start : PermissionLevel,
      levels.foldl (fun maxLevel l => if maxLevel < l.2 then l.2 else maxLevel) start ≤ m ↔
        start ≤ m ∧ levels.Under m from
    (this .none).trans (and_iff_right (PermissionLevel.none_le m))
  induction levels with
  | nil => exact fun start => ⟨fun h => ⟨h, by rintro l hl; cases hl⟩, fun h => h.1⟩
  | cons l levels ih =>
    intro start
    rw [List.foldl_cons, ih, Levels.under_cons, ← and_assoc]
    apply and_congr_left'
    split
    · rename_i hlt
      exact ⟨fun h => ⟨PermissionLevel.le_trans (Nat.le_of_lt hlt) h, h⟩, fun h => h.2⟩
    · rename_i hlt
      exact ⟨fun h => ⟨h, PermissionLevel.le_trans (PermissionLevel.le_of_not_lt hlt) h⟩, fun h => h.1⟩

/-! ## One list -/

/-- The groups of the running levels. -/
def Levels.keys (levels : Levels) : List CString := levels.map Prod.fst

theorem getCurrentPermission_keys (permissionList : List PermissionPair) (levels : Levels) :
    Levels.keys (getCurrentPermission permissionList levels).1 = levels.keys := by
  induction levels with
  | nil => rfl
  | cons l levels ih =>
    obtain ⟨group, level⟩ := l
    have keep (level' : PermissionLevel) :
        Levels.keys ((group, level') :: (getCurrentPermission permissionList levels).1) = group :: Levels.keys levels :=
      congrArg (group :: ·) ih
    simp only [getCurrentPermission]
    split
    · exact keep level
    · split
      · split
        · rfl
        · exact keep _
      · exact keep level

/-- The function returns 1 only when it has just put a config level in place. -/
theorem getCurrentPermission_config {permissionList : List PermissionPair} {levels : Levels}
    (h : (getCurrentPermission permissionList levels).2 = true) :
    ∃ l ∈ (getCurrentPermission permissionList levels).1, l.2 = .config := by
  induction levels with
  | nil => cases h
  | cons l levels ih =>
    obtain ⟨group, level⟩ := l
    have later (level' : PermissionLevel) (h : (getCurrentPermission permissionList levels).2 = true) :
        ∃ l ∈ (group, level') :: (getCurrentPermission permissionList levels).1, l.2 = .config := by
      obtain ⟨l, hl, hconfig⟩ := ih h
      exact ⟨l, List.mem_cons_of_mem _ hl, hconfig⟩
    revert h
    simp only [getCurrentPermission]
    split
    · exact later level
    · split
      · split
        · exact fun _ => ⟨_, List.mem_cons_self, rfl⟩
        · exact later _
      · exact later level

/-- One list raises the bound by what it gives the groups, also where it leaves the loop early: a bound on a config
    level is one on every level a list can give. -/
theorem getCurrentPermission_under (permissionList : List PermissionPair) {levels : Levels} (hok : levels.Ok)
    {m : PermissionLevel} :
    Levels.Under (getCurrentPermission permissionList levels).1 m ↔
      levels.Under m ∧ ∀ g ∈ levels.keys, levelFor g (some permissionList) ≤ m := by
  induction levels with
  | nil => exact ⟨fun h => ⟨h, by rintro g hg; cases hg⟩, fun h => h.1⟩
  | cons l levels ih =>
    obtain ⟨group, level⟩ := l
    have hrest : Levels.Ok levels := fun l' hl' => hok l' (List.mem_cons_of_mem _ hl')
    have hkeys : (∀ g ∈ Levels.keys ((group, level) :: levels), levelFor g (some permissionList) ≤ m) ↔
        levelFor group (some permissionList) ≤ m ∧
          ∀ g ∈ Levels.keys levels, levelFor g (some permissionList) ≤ m :=
      List.forall_mem_cons
    -- the loop goes on with the level `level'` for this group
    have goOn (level' : PermissionLevel)
        (hlevel : level' ≤ m ↔ level ≤ m ∧ levelFor group (some permissionList) ≤ m) :
        Levels.Under ((group, level') :: (getCurrentPermission permissionList levels).1) m ↔
          Levels.Under ((group, level) :: levels) m ∧
            ∀ g ∈ Levels.keys ((group, level) :: levels), levelFor g (some permissionList) ≤ m := by
      rw [Levels.under_cons, ih hrest, hkeys, Levels.under_cons]
      show level' ≤ m ∧ _ ↔ (level ≤ m ∧ _) ∧ _
      rw [hlevel]
      exact and_and_and_comm
    simp only [getCurrentPermission]
    split
    · rename_i hfind
      have hnone : levelFor group (some permissionList) = .none := by
        show (permissionList.find? _).elim _ _ = _
        rw [hfind]
        rfl
      apply goOn
      rw [hnone]
      exact (and_iff_left (PermissionLevel.none_le m)).symm
    · rename_i pair hfind
      have hpair : levelFor group (some permissionList) = pair.permission := by
        show (permissionList.find? _).elim _ _ = _
        rw [hfind]
        rfl
      split
      · rename_i hlt
        have hraise : pair.permission ≤ m ↔ level ≤ m ∧ levelFor group (some permissionList) ≤ m := by
          rw [hpair]
          exact ⟨fun h => ⟨PermissionLevel.le_trans (Nat.le_of_lt hlt) h, h⟩, fun h => h.2⟩
        split
        · rename_i hconfig
          rw [Levels.under_cons, Levels.under_cons, hkeys, hpair, hconfig]
          constructor
          · rintro ⟨hm, -⟩
            have hlevel : level ≤ m := PermissionLevel.le_trans (hok _ List.mem_cons_self) hm
            refine ⟨⟨hlevel, fun l' hl' => ?_⟩, hm, fun g _ => ?_⟩
            · exact PermissionLevel.le_trans (hrest l' hl') hm
            · exact PermissionLevel.le_trans (levelFor_le_config g _) hm
          · rintro ⟨⟨-, hrest'⟩, hm, -⟩
            exact ⟨hm, hrest'⟩
        · exact goOn _ hraise
      · rename_i hlt
        apply goOn
        rw [hpair]
        exact ⟨fun h => ⟨h, PermissionLevel.le_trans (PermissionLevel.le_of_not_lt hlt) h⟩, fun h => h.1⟩

theorem readPermissionList_keys (permissionList : Option (List PermissionPair)) (levels : Levels) :
    Levels.keys (readPermissionList permissionList levels).1 = levels.keys := by
  cases permissionList with
  | none => rfl
  | some list => exact getCurrentPermission_keys list levels

theorem readPermissionList_config {permissionList : Option (List PermissionPair)} {levels : Levels}
    (h : (readPermissionList permissionList levels).2 = true) :
    ∃ l ∈ (readPermissionList permissionList levels).1, l.2 = .config := by
  cases permissionList with
  | none => cases h
  | some list => exact getCurrentPermission_config h

theorem readPermissionList_under (permissionList : Option (List PermissionPair)) {levels : Levels} (hok : levels.Ok)
    {m : PermissionLevel} :
    Levels.Under (readPermissionList permissionList levels).1 m ↔
      levels.Under m ∧ ∀ g ∈ levels.keys, levelFor g permissionList ≤ m := by
  cases permissionList with
  | none => exact (and_iff_left (fun g _ => PermissionLevel.none_le m)).symm
  | some list => exact getCurrentPermission_under list hok

/-! ## The whole walk -/

/-- The permission lists of the virtual nodes that are met from `node` on. -/
def virtualLists : List CString → VirtualDownstreamNode → List (Option (List PermissionPair))
  | [], node => [node.permissionList]
  | name :: names, node =>
    node.permissionList ::
      match AssocMap.lookupIn name node.childrenNode with
      | none => []
      | some child => virtualLists names child

/-- The permission lists of the nodes that are met from `node` on, with the virtual nodes below a downstream
    node. -/
def Site.metLists (σ : Site) : List CString → NodeRef → List (Option (List PermissionPair))
  | [], node => [σ.permissionList node]
  | name :: names, node =>
    σ.permissionList node ::
      match node with
      | .downstream d =>
        match AssocMap.lookupIn name (σ.childrenPermissions d) with
        | none => []
        | some child => virtualLists names child
      | .regular n =>
        match (σ.base.node.get n).bind (fun regular => regular.children.get name) with
        | none => []
        | some child => metLists σ names child

/-- `levels'` is bounded exactly where `levels` and all that `lists` give its groups are. -/
def Levels.Raised (levels levels' : Levels) (lists : List (Option (List PermissionPair))) : Prop :=
  ∀ m, levels'.Under m ↔ levels.Under m ∧ ∀ list ∈ lists, ∀ g ∈ levels.keys, levelFor g list ≤ m

namespace Levels.Raised

variable {levels levels' : Levels} {list : Option (List PermissionPair)} {lists : List (Option (List PermissionPair))}

/-- The walk ends behind one list. -/
theorem last (hok : levels.Ok) : levels.Raised (readPermissionList list levels).1 [list] := by
  intro m
  rw [readPermissionList_under list hok, List.forall_mem_singleton]

/-- A walk that goes on behind one list. -/
theorem next (hok : levels.Ok) (h : Levels.Raised (readPermissionList list levels).1 levels' lists) :
    levels.Raised levels' (list :: lists) := by
  intro m
  rw [h m, readPermissionList_under list hok, readPermissionList_keys, List.forall_mem_cons, and_assoc]

/-- A walk that a config level ends: the nodes behind it cannot raise anything. -/
theorem stop (hok : levels.Ok) (hconfig : (readPermissionList list levels).2 = true) :
    levels.Raised (readPermissionList list levels).1 (list :: lists) := by
  intro m
  rw [readPermissionList_under list hok, List.forall_mem_cons]
  constructor
  · rintro h
    obtain ⟨l, hl, hlc⟩ := readPermissionList_config hconfig
    have hm : .config ≤ m := hlc ▸ (readPermissionList_under list hok).mpr h l hl
    exact ⟨h.1, h.2, fun list' _ g _ => PermissionLevel.le_trans (levelFor_le_config g list') hm⟩
  · rintro ⟨h, hlist, -⟩
    exact ⟨h, hlist⟩

end Levels.Raised

theorem getVirtualPermission_raised {names : List CString} {node : VirtualDownstreamNode} {levels : Levels}
    (hok : levels.Ok) : levels.Raised (getVirtualPermission names node levels) (virtualLists names node) := by
  induction names generalizing node levels with
  | nil => exact .last hok
  | cons name names ih =>
    simp only [getVirtualPermission, virtualLists]
    split
    · exact .stop hok ‹_›
    · cases AssocMap.lookupIn name node.childrenNode with
      | none => exact .last hok
      | some child => exact .next hok (ih hok.readList)

namespace Site

variable {σ : Site}

/-- The walk of the source against the one over all nodes: one case for each kind of node, and in each the walk
    ends at the node, ends behind it or goes on. -/
theorem getNodePermission_raised {names : List CString} {node : NodeRef} {levels levels' : Levels} (hok : levels.Ok)
    (h : σ.getNodePermission names node levels = some levels') : levels.Raised levels' (σ.metLists names node) := by
  induction names generalizing node levels with
  | nil =>
    obtain rfl := Option.some.inj h
    exact .last hok
  | cons name names ih =>
    simp only [getNodePermission] at h
    split at h
    · obtain rfl := Option.some.inj h
      exact .stop hok ‹_›
    · cases node with
      | downstream d =>
        simp only [metLists]
        revert h
        dsimp only
        cases AssocMap.lookupIn name (σ.childrenPermissions d) with
        | none =>
          rintro h
          obtain rfl := Option.some.inj h
          exact .last hok
        | some child =>
          rintro h
          obtain rfl := Option.some.inj h
          exact .next hok (getVirtualPermission_raised hok.readList)
      | regular n =>
        simp only [Option.bind_eq_bind, Option.bind_eq_some_iff] at h
        obtain ⟨regular, hregular, h⟩ := h
        simp only [metLists, hregular, Option.bind_some]
        revert h
        cases regular.children.get name with
        | none =>
          rintro h
          obtain rfl := Option.some.inj h
          exact .last hok
        | some child => exact fun h => .next hok (ih hok.readList h)

/-- A longer path meets the same nodes first. -/
theorem virtualLists_append (names more : List CString) (node : VirtualDownstreamNode) :
    virtualLists names node ⊆ virtualLists (names ++ more) node := by
  induction names generalizing node with
  | nil =>
    rintro list hlist
    obtain rfl := List.mem_singleton.mp hlist
    cases more <;> exact List.mem_cons_self
  | cons name names ih =>
    simp only [List.cons_append, virtualLists]
    apply List.cons_subset_cons
    cases AssocMap.lookupIn name node.childrenNode with
    | none => exact List.nil_subset _
    | some child => exact ih child

theorem metLists_append (names more : List CString) (node : NodeRef) :
    σ.metLists names node ⊆ σ.metLists (names ++ more) node := by
  induction names generalizing node with
  | nil =>
    rintro list hlist
    obtain rfl := List.mem_singleton.mp hlist
    cases more <;> exact List.mem_cons_self
  | cons name names ih =>
    simp only [List.cons_append, metLists]
    apply List.cons_subset_cons
    cases node with
    | downstream d =>
      dsimp only
      cases AssocMap.lookupIn name (σ.childrenPermissions d) with
      | none => exact List.nil_subset _
      | some child => exact virtualLists_append names more child
    | regular n =>
      dsimp only
      cases (σ.base.node.get n).bind (fun regular => regular.children.get name) with
      | none => exact List.nil_subset _
      | some child => exact ih child

/-! ## The maximum -/

/-- `level` is the highest level that one of `lists` gives one of `groups`, none if there is no group. -/
structure Highest (groups : List CString) (lists : List (Option (List PermissionPair))) (level : PermissionLevel) :
    Prop where
  bound : ∀ g ∈ groups, ∀ list ∈ lists, levelFor g list ≤ level
  attained : (∃ g ∈ groups, ∃ list ∈ lists, levelFor g list = level) ∨ groups = [] ∧ level = .none

/-- A least upper bound of finitely many levels is one of them. -/
theorem Highest.of_least {groups : List CString} {list : Option (List PermissionPair)}
    {lists : List (Option (List PermissionPair))} {level : PermissionLevel}
    (h : ∀ m, level ≤ m ↔ ∀ l ∈ list :: lists, ∀ g ∈ groups, levelFor g l ≤ m) :
    Highest groups (list :: lists) level := by
  have hbound := (h level).mp (PermissionLevel.le_rfl level)
  refine ⟨fun g hg l hl => hbound l hl g hg, ?_⟩
  cases groups with
  | nil =>
    refine Or.inr ⟨rfl, PermissionLevel.le_antisymm ?_ (PermissionLevel.none_le level)⟩
    apply (h .none).mpr
    rintro l hl g hg
    cases hg
  | cons g groups =>
    apply Or.inl
    by_contra hno
    have hne : level ≠ .none := by
      rintro rfl
      refine hno ⟨g, List.mem_cons_self, list, List.mem_cons_self, ?_⟩
      have hle := hbound list List.mem_cons_self g List.mem_cons_self
      exact PermissionLevel.le_antisymm hle (PermissionLevel.none_le _)
    obtain ⟨m, hm, hbelow⟩ := PermissionLevel.exists_pred hne
    apply hm
    apply (h m).mpr
    rintro l hl g' hg'
    exact hbelow _ (hbound l hl g' hg') (fun he => hno ⟨g', hg', l, hl, he⟩)

theorem metLists_cons (names : List CString) (node : NodeRef) :
    ∃ later, σ.metLists names node = σ.permissionList node :: later := by
  cases names <;> exact ⟨_, rfl⟩

theorem keys_initial (groups : List CString) :
    Levels.keys (groups.map (fun group => (group, PermissionLevel.none))) = groups := by
  show List.map Prod.fst (List.map _ groups) = groups
  rw [List.map_map]
  exact List.map_id groups

theorem ok_initial (groups : List CString) : Levels.Ok (groups.map (fun group => (group, PermissionLevel.none))) := by
  rintro l hl
  obtain ⟨group, -, rfl⟩ := List.mem_map.mp hl
  exact PermissionLevel.none_le _

/-- The lists of the nodes on a path that starts with a slash. -/
def pathLists (σ : Site) (path : CString) : List (Option (List PermissionPair)) :=
  σ.metLists (pathNames path.tail) (.regular σ.base.root)

/-- `get_permission` below a root with a permission list is a least upper bound. -/
theorem getPermission_le_iff {list : List PermissionPair} {path : CString} {reqLink : DownId} {level : PermissionLevel}
    (hroot : σ.permissionList (.regular σ.base.root) = some list) (hpath : path.head? = some slash)
    (h : σ.getPermission path reqLink = some level) (m : PermissionLevel) :
    level ≤ m ↔ ∀ list ∈ σ.pathLists path, ∀ g ∈ σ.permissionGroups reqLink, levelFor g list ≤ m := by
  simp only [getPermission, hroot, hpath, ne_eq, not_true_eq_false, if_false, Option.bind_eq_bind,
    Option.bind_eq_some_iff, Option.some.injEq] at h
  obtain ⟨levels, hlevels, rfl⟩ := h
  rw [maxLevel_le_iff, getNodePermission_raised (ok_initial _) hlevels m, keys_initial]
  apply and_iff_right
  rintro l hl
  obtain ⟨group, -, rfl⟩ := List.mem_map.mp hl
  exact PermissionLevel.none_le _

theorem getPermission_highest {list : List PermissionPair} {path : CString} {reqLink : DownId} {level : PermissionLevel}
    (hroot : σ.permissionList (.regular σ.base.root) = some list) (hpath : path.head? = some slash)
    (h : σ.getPermission path reqLink = some level) :
    Highest (σ.permissionGroups reqLink) (σ.pathLists path) level := by
  have hleast := getPermission_le_iff hroot hpath h
  obtain ⟨later, hlists⟩ := metLists_cons (σ := σ) (pathNames path.tail) (.regular σ.base.root)
  rw [show σ.pathLists path = _ from hlists] at hleast ⊢
  exact .of_least hleast

/-- The walk ends on every tree whose nodes are there. -/
theorem getNodePermission_isSome (hlive : σ.base.ChildrenLive) (names : List CString) {node : NodeRef}
    (hnode : ∀ n, node = .regular n → (σ.base.node.get n).isSome) (levels : Levels) :
    (σ.getNodePermission names node levels).isSome := by
  induction names generalizing node levels with
  | nil => rfl
  | cons name names ih =>
    simp only [getNodePermission]
    split
    · rfl
    · cases node with
      | downstream d =>
        dsimp only
        cases AssocMap.lookupIn name (σ.childrenPermissions d) <;> rfl
      | regular n =>
        obtain ⟨regular, hregular⟩ := Option.isSome_iff_exists.mp (hnode n rfl)
        simp only [hregular, Option.bind_eq_bind, Option.bind_some]
        cases hchild : regular.children.get name with
        | none => rfl
        | some child =>
          apply ih
          rintro c rfl
          exact hlive.child n regular name c hregular hchild

theorem getPermission_isSome (hlive : σ.base.ChildrenLive) (path : CString) (reqLink : DownId) :
    (σ.getPermission path reqLink).isSome := by
  unfold getPermission
  split
  · rfl
  · split
    · rfl
    · have hroot : ∀ n, NodeRef.regular σ.base.root = .regular n → (σ.base.node.get n).isSome := by
        rintro n ⟨⟩
        exact hlive.root
      have hwalk := getNodePermission_isSome hlive (pathNames path.tail) hroot
        ((σ.permissionGroups reqLink).map (fun group => (group, PermissionLevel.none)))
      obtain ⟨levels, hlevels⟩ := Option.isSome_iff_exists.mp hwalk
      simp only [hlevels, Option.bind_eq_bind, Option.bind_some, Option.isSome_some]

/-- Lists that are met in addition only raise the level. -/
theorem Highest.mono {groups : List CString} {lists lists' : List (Option (List PermissionPair))}
    {level level' : PermissionLevel} (h : Highest groups lists level) (h' : Highest groups lists' level')
    (hsub : ∀ list ∈ lists, list = none ∨ list ∈ lists') : level ≤ level' := by
  rcases h.attained with ⟨g, hg, list, hlist, rfl⟩ | ⟨-, rfl⟩
  · rcases hsub list hlist with rfl | hmem
    · exact PermissionLevel.none_le _
    · exact h'.bound g hg list hmem
  · exact PermissionLevel.none_le _

/-- The level is the maximum over all nodes of the path, the ones behind a config level among them. A longer path has
    no lower level, and neither has the path where more nodes have a list. -/
theorem get_permission_maximum {list : List PermissionPair} {path : CString} (reqLink : DownId)
    (hlive : σ.base.ChildrenLive) (hroot : σ.permissionList (.regular σ.base.root) = some list)
    (hpath : path.head? = some slash) :
    ∃ level, σ.getPermission path reqLink = some level ∧
      Highest (σ.permissionGroups reqLink) (σ.pathLists path) level ∧
      (∀ path' more level', path'.head? = some slash → pathNames path'.tail = pathNames path.tail ++ more →
        σ.getPermission path' reqLink = some level' → level ≤ level') ∧
      ∀ (σ' : Site) list' level', σ'.permissionList (.regular σ'.base.root) = some list' →
        σ'.permissionGroups reqLink = σ.permissionGroups reqLink →
        (∀ list ∈ σ.pathLists path, list = none ∨ list ∈ σ'.pathLists path) →
        σ'.getPermission path reqLink = some level' → level ≤ level' := by
  obtain ⟨level, hlevel⟩ := Option.isSome_iff_exists.mp (getPermission_isSome hlive path reqLink)
  have hhigh := getPermission_highest hroot hpath hlevel
  refine ⟨level, hlevel, hhigh, ?_, ?_⟩
  · rintro path' more level' hpath' hnames hlevel'
    apply hhigh.mono (getPermission_highest hroot hpath' hlevel')
    rintro list hlist
    apply Or.inr
    show list ∈ σ.metLists (pathNames path'.tail) _
    rw [hnames]
    exact metLists_append (pathNames path.tail) more _ hlist
  · rintro σ' list' level' hroot' hgroups hsub hlevel'
    have hhigh' := getPermission_highest hroot' hpath hlevel'
    rw [hgroups] at hhigh'
    exact hhigh.mono hhigh' hsub

/-- A path below the link `x`, whose last segment is no node. -/
theorem get_permission_maximum_downstream : ∃ (σ : Site) (level : PermissionLevel),
    Reach (Broker.step Broker.smallConfig) (fun _ _ => True) (fun base => Broker.brokerInit = some base) σ.base ∧
      (σ.pathLists (cstr "/downstream/x/a")).length = 3 ∧
      σ.getPermission (cstr "/downstream/x/a") 0 = some level ∧
      Highest [cstr "r"] (σ.pathLists (cstr "/downstream/x/a")) level := by
  obtain ⟨base, hreach, hcheck⟩ := Reach.of_eval (Broker.step Broker.smallConfig) Broker.brokerInit twoLinks
    (fun base => base.childrenLive ∧
      ((openSite base .write (by decide)).pathLists (cstr "/downstream/x/a")).length = 3) (by decide)
  obtain ⟨hlive, hlength⟩ := of_decide_eq_true hcheck
  have hpath : (cstr "/downstream/x/a").head? = some slash := by decide
  obtain ⟨level, hlevel, hhigh, -⟩ :=
    get_permission_maximum (σ := openSite base .write (by decide)) 0 (.of_childrenLive hlive) (if_pos rfl) hpath
  exact ⟨_, level, hreach, hlength, hlevel, hhigh⟩

end Site

end DSLink
