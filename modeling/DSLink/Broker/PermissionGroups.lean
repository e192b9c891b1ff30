import DSLink.Broker.State
import DSLink.Lib.Tails

/-!
# `Broker.PermissionGroups` — the groups of a link

`permission_groups_init`, `permission_groups_free` and `permission_groups_load` of
`broker/src/permission/permission.c`. The array has one slot for each group that fits; a slot that was never written is
`none`. A store beyond the array, and the free of a slot that was never written, has no result.

## Contents
- `permissionGroupsInit`, `permissionGroupsFree`, `permissionGroupsLoad`.
- `groupNames`: the groups that are asked for.
- `Filled`, `addGroup_filled`, `loadLoop_filled`: the array while it is filled.
- `permission_groups_exact`.
-/

namespace DSLink

/-- `PermissionGroups`. -/
structure PermissionGroups where
  groups : Option (List (Option CString))
  groupLen : Nat

/-- `groups[len] = group`. -/
def storeGroup (groups : List (Option CString)) (len : Nat) (group : CString) : Option (List (Option CString)) :=
  if len < groups.length then some (groups.set len (some group)) else none

/-- `dslink_realloc` to a size that is not smaller. -/
def reallocGroups (groups : List (Option CString)) (allocatedLen : Nat) : List (Option CString) :=
  groups ++ List.replicate (allocatedLen - groups.length) none

/-- `permission_groups_init`. -/
def permissionGroupsInit : PermissionGroups := ⟨none, 0⟩

/-- `permission_groups_free`. -/
def permissionGroupsFree (groups : PermissionGroups) : Option Unit :=
  match groups.groups with
  | none => some ()
  | some slots => if ∀ i < groups.groupLen, (slots[i]?.join).isSome then some () else none

/-- The locals of `permission_groups_load`. -/
structure Loading where
  groups : List (Option CString)
  allocatedLen : Nat
  len : Nat

/-- What the loop does with a segment that is not empty. -/
def addGroup (x : Loading) (group : CString) : Option Loading :=
  -- one for the group, and one for the dsId
  let x := if x.allocatedLen < x.len + 2 then
      { x with allocatedLen := x.allocatedLen * 2, groups := reallocGroups x.groups (x.allocatedLen * 2) }
    else x
  (storeGroup x.groups x.len group).map (fun groups => { x with groups := groups, len := x.len + 1 })

/-- The body of the loop at a ',' or at the end of the string. -/
def endSegment (x : Loading) (start stop : CString) : Option Loading :=
  if stop.length < start.length then addGroup x (upTo start stop) else some x

/-- The loop of `permission_groups_load`, from `stop` on. -/
def loadLoop (start : CString) : CString → Loading → Option Loading
  | [], x => endSegment x start []
  | c :: rest, x => if c = 44 then (endSegment x start (c :: rest)).bind (loadLoop rest rest) else loadLoop start rest x

/-- `permission_groups_load`. -/
def permissionGroupsLoad (groups : PermissionGroups) (dsId : CString) (str : Option CString) :
    Option PermissionGroups := do
  permissionGroupsFree groups
  let x ← match str with
    | some str => loadLoop str str ⟨List.replicate 4 none, 4, 0⟩
    | none => some ⟨[none], 1, 0⟩
  let slots ← storeGroup x.groups x.len dsId
  some ⟨some slots, x.len + 1⟩

/-! ## What is asked of it -/

/-- The segments of the string that are not empty. -/
def segments (str : CString) : List CString := (str.splitOn 44).filter (fun s => s ≠ [])

/-- The segments of the string, if there is one, and the dsId. -/
def groupNames (dsId : CString) (str : Option CString) : List CString := segments (str.getD []) ++ [dsId]

/-- The array has these groups and perhaps more slots. -/
def Loaded (groups : PermissionGroups) (names : List CString) : Prop :=
  ∃ free, groups.groups = some (names.map some ++ List.replicate free none) ∧ groups.groupLen = names.length

theorem segments_single {seg : CString} (h : 44 ∉ seg) : segments seg = if seg = [] then [] else [seg] := by
  rw [segments, List.splitOn_eq_singleton h]
  by_cases hs : seg = [] <;> simp [hs]

theorem segments_comma {seg : CString} (h : 44 ∉ seg) (rest : CString) :
    segments (seg ++ 44 :: rest) = (if seg = [] then [] else [seg]) ++ segments rest := by
  rw [segments, List.splitOn_append_cons_self_of_not_mem h]
  by_cases hs : seg = [] <;> simp [hs, segments]

/-! ## The array while it is filled -/

/-- The groups so far stand at the front, and there is at least one slot behind them, for the dsId. -/
structure Filled (x : Loading) (names : List CString) : Prop where
  len : x.len = names.length
  room : x.len + 1 ≤ x.allocatedLen
  two : 2 ≤ x.allocatedLen
  slots : x.groups = names.map some ++ List.replicate (x.allocatedLen - x.len) none

theorem storeGroup_next (names : List CString) (free : Nat) (group : CString) :
    storeGroup (names.map some ++ List.replicate (free + 1) none) names.length group =
      some ((names ++ [group]).map some ++ List.replicate free none) := by
  rw [storeGroup, if_pos (by simp), List.set_append_right _ _ (by simp), List.length_map, Nat.sub_self,
    List.replicate_succ, List.set_cons_zero, List.map_append]
  simp

theorem reallocGroups_replicate (names : List CString) (free : Nat) {allocatedLen : Nat}
    (h : names.length + free ≤ allocatedLen) :
    reallocGroups (names.map some ++ List.replicate free none) allocatedLen =
      names.map some ++ List.replicate (allocatedLen - names.length) none := by
  rw [reallocGroups, List.append_assoc, List.replicate_append_replicate]
  congr 2
  simp only [List.length_append, List.length_map, List.length_replicate]
  omega

theorem addGroup_filled {x : Loading} {names : List CString} (h : Filled x names) (group : CString) :
    ∃ y, addGroup x group = some y ∧ Filled y (names ++ [group]) := by
  obtain ⟨groups, allocatedLen, len⟩ := x
  obtain ⟨hlen, hroom, htwo, hslots⟩ := h
  simp only at hlen hroom htwo hslots
  subst hlen hslots
  by_cases hgrow : allocatedLen < names.length + 2
  · -- the array is full up to the slot of the dsId
    have hfree : allocatedLen * 2 - names.length = (allocatedLen * 2 - (names.length + 1)) + 1 := by omega
    rw [addGroup]
    simp only [if_pos hgrow]
    rw [reallocGroups_replicate names _ (by omega), hfree, storeGroup_next]
    exact ⟨_, rfl, by simp, by simp only; omega, by simp only; omega, rfl⟩
  · -- the slot of the dsId is not the one that is filled
    have hfree : allocatedLen - names.length = (allocatedLen - (names.length + 1)) + 1 := by omega
    rw [addGroup]
    simp only [if_neg hgrow]
    rw [hfree, storeGroup_next]
    exact ⟨_, rfl, by simp, by simp only; omega, htwo, rfl⟩

theorem endSegment_filled {x : Loading} {names : List CString} (h : Filled x names) (seg stop : CString) :
    ∃ y, endSegment x (seg ++ stop) stop = some y ∧ Filled y (names ++ if seg = [] then [] else [seg]) := by
  by_cases hs : seg = []
  · subst hs
    exact ⟨x, by simp [endSegment], by simpa using h⟩
  · have hlt : stop.length < (seg ++ stop).length := by
      have := List.length_pos_iff.mpr hs
      rw [List.length_append]
      omega
    rw [endSegment, if_pos hlt, upTo_left, if_neg hs]
    exact addGroup_filled h seg

/-- `seg` is what the loop has read of the segment. -/
theorem loadLoop_filled {x : Loading} {names : List CString} (seg stop : CString) (h : Filled x names)
    (hseg : 44 ∉ seg) :
    ∃ y, loadLoop (seg ++ stop) stop x = some y ∧ Filled y (names ++ segments (seg ++ stop)) := by
  induction stop generalizing x names seg with
  | nil =>
    rw [List.append_nil, segments_single hseg, loadLoop]
    have := endSegment_filled h seg []
    rwa [List.append_nil] at this
  | cons c rest ih =>
    rw [loadLoop]
    by_cases hc : c = 44
    · subst hc
      obtain ⟨y, hy, hfill⟩ := endSegment_filled h seg (44 :: rest)
      rw [if_pos rfl, hy, segments_comma hseg, ← List.append_assoc]
      exact ih [] hfill (by simp)
    · rw [if_neg hc]
      have hnext : 44 ∉ seg ++ [c] := by simp [hseg, Ne.symm hc]
      have := ih (seg ++ [c]) h hnext
      rwa [List.append_assoc, List.singleton_append] at this

/-! ## Loading and freeing -/

theorem Loaded.free {groups : PermissionGroups} {names : List CString} (h : Loaded groups names) :
    permissionGroupsFree groups = some () := by
  obtain ⟨free, hg, hlen⟩ := h
  rw [permissionGroupsFree, hg, hlen]
  refine if_pos fun i hi => ?_
  rw [List.getElem?_append_left (by simpa using hi), List.getElem?_map, List.getElem?_eq_getElem hi]
  rfl

theorem Filled.last {x : Loading} {names : List CString} (h : Filled x names) (dsId : CString) :
    ∃ slots, storeGroup x.groups x.len dsId = some slots ∧ Loaded ⟨some slots, x.len + 1⟩ (names ++ [dsId]) := by
  have hfree : x.allocatedLen - names.length = (x.allocatedLen - names.length - 1) + 1 := by
    have := h.room
    have := h.len
    omega
  rw [h.slots, h.len, hfree, storeGroup_next]
  exact ⟨_, rfl, _, rfl, by simp⟩

theorem load_loaded {groups : PermissionGroups} (h : permissionGroupsFree groups = some ()) (dsId : CString)
    (str : Option CString) : ∃ g, permissionGroupsLoad groups dsId str = some g ∧ Loaded g (groupNames dsId str) := by
  cases str with
  | none =>
    refine ⟨⟨some [some dsId], 1⟩, ?_, 0, rfl, rfl⟩
    rw [permissionGroupsLoad, h]
    rfl
  | some str =>
    have hstart : Filled ⟨List.replicate 4 none, 4, 0⟩ [] := ⟨rfl, by decide, by decide, rfl⟩
    obtain ⟨x, hx, hfill⟩ := loadLoop_filled [] str hstart (by simp)
    obtain ⟨slots, hslots, hloaded⟩ := hfill.last dsId
    rw [List.nil_append] at hx
    refine ⟨⟨some slots, x.len + 1⟩, ?_, hloaded⟩
    rw [permissionGroupsLoad, h]
    show (loadLoop str str _).bind _ = _
    rw [hx]
    show (storeGroup x.groups x.len dsId).bind _ = _
    rw [hslots]
    rfl

/-- The loads of a link one after another. -/
def loadAll (groups : PermissionGroups) (loads : List (CString × Option CString)) : Option PermissionGroups :=
  loads.foldlM (fun groups load => permissionGroupsLoad groups load.1 load.2) groups

theorem loadAll_free (groups : PermissionGroups) (loads : List (CString × Option CString))
    (h : permissionGroupsFree groups = some ()) :
    ∃ g, loadAll groups loads = some g ∧ permissionGroupsFree g = some () := by
  induction loads generalizing groups with
  | nil => exact ⟨groups, rfl, h⟩
  | cons load loads ih =>
    obtain ⟨g, hg, hloaded⟩ := load_loaded h load.1 load.2
    rw [loadAll, List.foldlM_cons, hg]
    exact ih g hloaded.free

/-- Whatever was loaded before, the array has the segments of the string that are not empty, in their order, and the
dsId behind them, `groupLen` is their number, and no store is beyond the array. They can all be freed. -/
theorem permission_groups_exact (earlier : List (CString × Option CString)) (dsId : CString) (str : Option CString) :
    ∃ g g', loadAll permissionGroupsInit earlier = some g ∧ permissionGroupsLoad g dsId str = some g' ∧
      Loaded g' (groupNames dsId str) ∧ permissionGroupsFree g' = some () := by
  obtain ⟨g, hg, hfree⟩ := loadAll_free permissionGroupsInit earlier rfl
  obtain ⟨g', hg', hloaded⟩ := load_loaded hfree dsId str
  exact ⟨g, g', hg, hg', hloaded, hloaded.free⟩

/-- Four groups and empty segments: the array has grown before the dsId is stored. -/
example : (permissionGroupsLoad permissionGroupsInit [120] (some (cstr ",a,,b,c,d"))).map PermissionGroups.groups =
    some (some (["a", "b", "c", "d", "x"].map (fun s => some (cstr s)) ++ List.replicate 3 none)) := by decide

end DSLink
