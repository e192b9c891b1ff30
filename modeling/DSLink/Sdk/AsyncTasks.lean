import DSLink.Col.Vector
import DSLink.Lib.Run

/-!
# `Sdk.AsyncTasks` — tasks that other threads hand to the loop of a link

`add_async_task` appends a task to the vector behind `async_tasks`, from any thread; the loop drains it:
`dslink_process_async_tasks` swaps the vector with a new one under the lock and runs the tasks of the old one
without it. Between two tasks, and while a task runs, others may be added. What the lock encloses is one step here.

## Contents

* `vectorAppend` — `vector_append` with the 32-bit capacity and the result of `realloc`.
* `State.step` — the three kinds of steps.
* `State.Inv` — what was added is what has run, then what the drain holds, then what is queued.
* `async_tasks_in_order` — the tasks of every run.
-/

namespace DSLink.AsyncTasks

/-- `AsyncTaskWrapperFunction`: the three functions that are handed to `add_async_task`. -/
inductive AsyncTaskWrapperFunction
  | getNodeValueWrapper
  | setNodeValueWrapper
  | runWrapper

/-- `DSLinkAsyncWrapper`. `data` is allocated for one call of `add_async_task`: it is the number of the call. -/
structure DSLinkAsyncWrapper where
  wrapperFunction : Option AsyncTaskWrapperFunction
  data : Nat

/-- The capacity that `vector_resize` asks for. -/
def grow (capacity : Nat) : Nat := if capacity * 2 % 4294967296 = 0 then 64 else capacity * 2 % 4294967296

/-- `vector_append`, where `realloc` tells whether `vector_resize` gets its memory. `none` is a write outside of the
    array; the inner `none` is the result -1. -/
def vectorAppend {α : Type} (vec : RawVector α) (x : α) (realloc : Bool) : Option (Option (RawVector α)) :=
  if vec.capacity ≤ vec.size then
    if realloc then store { vec with capacity := grow vec.capacity } else some none
  else store vec
where
  /-- The write behind the last element. -/
  store (vec : RawVector α) : Option (Option (RawVector α)) :=
    if vec.size < vec.capacity then
      some (some { vec with data := RawVector.setSlot vec.data vec.size (some x), size := (vec.size + 1) % 4294967296 })
    else none

/-- A link with its tasks: `queue` is `async_tasks.data`, `processing` the vector of a running drain with its index.
    `calls` counts the calls of `add_async_task`; `added` are those that queued a task and `accepted` those that
    returned 0, in the order of the lock, and `ran` the tasks that were called. -/
structure State where
  queue : Option (RawVector DSLinkAsyncWrapper)
  processing : Option (RawVector DSLinkAsyncWrapper × Nat)
  calls : Nat
  added : List Nat
  accepted : List Nat
  ran : List Nat

/-- The steps: a call of `add_async_task`, the locked part of a drain, and one round of its loop. The flags are the
    results of `malloc` and `realloc`, `sent` the one of `uv_async_send`. -/
inductive Event
  | add (wrapperFunction : AsyncTaskWrapperFunction) (malloc mallocData realloc : Bool) (sent : Int)
  | drain (malloc mallocData : Bool)
  | next

namespace State

/-- The queue that `add_async_task` appends to. `none`: the vector was not initialised. -/
def queueOrNew (σ : State) (malloc mallocData : Bool) : Option (Option (RawVector DSLinkAsyncWrapper)) :=
  match σ.queue with
  | some queue => some (some queue)
  | none => if malloc then (if mallocData then some (some (RawVector.vectorInit 10)) else none) else some none

/-- `add_async_task`. -/
def addAsyncTask (σ : State) (wrapperFunction : AsyncTaskWrapperFunction) (malloc mallocData realloc : Bool)
    (sent : Int) : Option State :=
  (σ.queueOrNew malloc mallocData).bind fun queue =>
    let σ := { σ with queue, calls := σ.calls + 1 }
    match queue with
    | none => some σ
    | some vec => (vectorAppend vec ⟨some wrapperFunction, σ.calls - 1⟩ realloc).map fun result =>
      match result with
      | none => σ
      | some vec =>
        { σ with
          queue := some vec
          added := σ.added ++ [σ.calls - 1]
          accepted := if sent = 0 then σ.accepted ++ [σ.calls - 1] else σ.accepted }

/-- `dslink_process_async_tasks` up to `unlock_tasks_data`. `none`: the new vector is NULL or not initialised, or the
    loop of the link is still in a drain. -/
def processAsyncTasks (σ : State) (malloc mallocData : Bool) : Option State :=
  match σ.processing with
  | some _ => none
  | none =>
    match σ.queue with
    | none => some σ
    | some queue =>
      if queue.vectorCount = 0 then some σ
      else if malloc && mallocData then
        some { σ with queue := some (RawVector.vectorInit 10), processing := some (queue, 0) }
      else none

/-- One round of the loop over the tasks, or the end of the drain. -/
def processNext (σ : State) : Option State :=
  match σ.processing with
  | none => none
  | some (queue, n) =>
    if n < queue.size then
      (queue.data n).map fun wrapper =>
        { σ with
          processing := some (queue, n + 1)
          ran := if wrapper.wrapperFunction.isSome then σ.ran ++ [wrapper.data] else σ.ran }
    else some { σ with processing := none }

/-- One step. -/
def step (σ : State) : Event → Option State
  | .add wrapperFunction malloc mallocData realloc sent => σ.addAsyncTask wrapperFunction malloc mallocData realloc sent
  | .drain malloc mallocData => σ.processAsyncTasks malloc mallocData
  | .next => σ.processNext

/-- The link after `dslink_init`. -/
def init : State := ⟨none, none, 0, [], [], []⟩

/-- The states of all runs, and those of all runs from one state. -/
def ReachedFrom (σ τ : State) : Prop := Reach step (fun _ _ => True) (· = σ) τ

end State

/-! ## The invariant -/

/-- The capacity of a vector of `vector_init(10)` that was resized `k` times. -/
def capacityAfter : Nat → Nat
  | 0 => 10
  | k + 1 => capacityAfter k * 2

/-- A vector of tasks. After 28 times the capacity does not fit twice into 32 bits. -/
structure TasksOk (vec : RawVector DSLinkAsyncWrapper) : Prop where
  wf : vec.Wf
  capacity : ∃ k, k ≤ 28 ∧ vec.capacity = capacityAfter k
  called : ∀ wrapper ∈ vec.toList, wrapper.wrapperFunction.isSome

namespace State

/-- The tasks that the queue holds. -/
def queued (σ : State) : List DSLinkAsyncWrapper := (σ.queue.map RawVector.toList).getD []

/-- The tasks that a running drain has not come to. -/
def pending (σ : State) : List DSLinkAsyncWrapper := (σ.processing.map fun p => p.1.toList.drop p.2).getD []

/-- The tasks that have run, then those that the drain holds. -/
def held (σ : State) : List Nat := σ.ran ++ σ.pending.map DSLinkAsyncWrapper.data

/-- What was added has run, or the drain holds it, or it is queued, in this order. -/
structure Inv (σ : State) : Prop where
  queue : ∀ vec, σ.queue = some vec → TasksOk vec
  processing : ∀ vec n, σ.processing = some (vec, n) → TasksOk vec ∧ n ≤ vec.size
  added : σ.added = σ.held ++ σ.queued.map DSLinkAsyncWrapper.data
  increasing : σ.added.Pairwise (· < ·)
  below : ∀ call ∈ σ.added, call < σ.calls
  accepted : σ.accepted.Sublist σ.added

end State

/-! ## The vector -/

theorem capacityAfter_le_add (k n : Nat) : capacityAfter k ≤ capacityAfter (k + n) := by
  induction n with
  | zero => exact Nat.le_refl _
  | succ n ih =>
    show capacityAfter k ≤ capacityAfter (k + n) * 2
    omega

theorem capacityAfter_mono {k m : Nat} (h : k ≤ m) : capacityAfter k ≤ capacityAfter m := by
  obtain ⟨n, rfl⟩ := Nat.exists_eq_add_of_le h
  exact capacityAfter_le_add k n

theorem capacityAfter_last : capacityAfter 28 = 2684354560 := rfl

/-- Below the last one the capacity is doubled. -/
theorem grow_capacityAfter {k : Nat} (hk : k < 28) : grow (capacityAfter k) = capacityAfter (k + 1) := by
  have hle : capacityAfter (k + 1) ≤ 2684354560 := capacityAfter_last ▸ capacityAfter_mono (by omega)
  have hpos : 10 ≤ capacityAfter (k + 1) := capacityAfter_mono (Nat.zero_le (k + 1))
  unfold grow
  rw [show capacityAfter k * 2 = capacityAfter (k + 1) from rfl, Nat.mod_eq_of_lt (by omega), if_neg (by omega)]

theorem TasksOk.size_le {vec : RawVector DSLinkAsyncWrapper} (h : TasksOk vec) : vec.size ≤ 2684354560 := by
  obtain ⟨k, hk, hcap⟩ := h.capacity
  have hle : capacityAfter k ≤ 2684354560 := capacityAfter_last ▸ capacityAfter_mono hk
  have hsize : vec.size ≤ vec.capacity := h.wf.size_le
  omega

theorem tasksOk_init : TasksOk (RawVector.vectorInit 10) :=
  ⟨RawVector.vectorInit_wf 10, ⟨0, by decide, rfl⟩, by rintro _ ⟨⟩⟩

/-- A write behind the last element of a vector with room. -/
theorem TasksOk.store {vec vec' : RawVector DSLinkAsyncWrapper} (hcap : ∃ k, k ≤ 28 ∧ vec.capacity = capacityAfter k)
    (hwritten : ∀ i, i < vec.size → (vec.data i).isSome)
    (hcalled : ∀ wrapper ∈ vec.toList, wrapper.wrapperFunction.isSome) {x : DSLinkAsyncWrapper}
    (hx : x.wrapperFunction.isSome) (h : vectorAppend.store x vec = some (some vec')) :
    TasksOk vec' ∧ vec'.toList = vec.toList ++ [x] := by
  unfold vectorAppend.store at h
  split at h
  · rename_i hroom
    obtain rfl := Option.some.inj (Option.some.inj h)
    obtain ⟨k, hk, hcapacity⟩ := hcap
    have hle : capacityAfter k ≤ 2684354560 := capacityAfter_last ▸ capacityAfter_mono hk
    have hmod : (vec.size + 1) % 4294967296 = vec.size + 1 := Nat.mod_eq_of_lt (by omega)
    have hother : ∀ i, i < vec.size → RawVector.setSlot vec.data vec.size (some x) i = vec.data i := by
      intro i hi
      exact if_neg (by omega)
    have hlist : RawVector.slots (RawVector.setSlot vec.data vec.size (some x)) (vec.size + 1) = vec.toList ++ [x] := by
      rw [RawVector.slots_succ, RawVector.slots_congr hother, RawVector.setSlot, if_pos rfl]
      rfl
    have hslot : ∀ i, i < vec.size + 1 → (RawVector.setSlot vec.data vec.size (some x) i).isSome := by
      intro i hi
      by_cases he : i = vec.size
      · rw [RawVector.setSlot, if_pos he]
        rfl
      · rw [hother i (by omega)]
        exact hwritten i (by omega)
    refine ⟨⟨⟨?_, fun i hi => hslot i (hmod ▸ hi)⟩, ⟨k, hk, hcapacity⟩, ?_⟩, ?_⟩
    · rw [hmod]
      exact hroom
    · show ∀ wrapper ∈ RawVector.slots _ ((vec.size + 1) % 4294967296), _
      rw [hmod, hlist]
      intro wrapper hw
      rcases List.mem_append.mp hw with hw | hw
      · exact hcalled wrapper hw
      · exact List.mem_singleton.mp hw ▸ hx
    · show RawVector.slots _ ((vec.size + 1) % 4294967296) = _
      rw [hmod, hlist]
  · cases h

/-- A vector that took another task. When its capacity wraps, the write behind the last element is outside. -/
theorem TasksOk.append {vec vec' : RawVector DSLinkAsyncWrapper} (h : TasksOk vec) {x : DSLinkAsyncWrapper}
    (hx : x.wrapperFunction.isSome) {realloc : Bool} (ha : vectorAppend vec x realloc = some (some vec')) :
    TasksOk vec' ∧ vec'.toList = vec.toList ++ [x] := by
  unfold vectorAppend at ha
  split at ha
  · rename_i hfull
    split at ha
    · obtain ⟨k, hk, hcap⟩ := h.capacity
      by_cases hlast : k = 28
      · -- the new capacity is 1073741824, below the size
        rw [hlast, capacityAfter_last] at hcap
        have hshort : ¬ vec.size < grow vec.capacity := by
          rw [hcap, show grow 2684354560 = 1073741824 from rfl]
          omega
        rw [vectorAppend.store, if_neg hshort] at ha
        cases ha
      · have hcap' : ∃ m, m ≤ 28 ∧
            (⟨vec.size, grow vec.capacity, vec.data⟩ : RawVector DSLinkAsyncWrapper).capacity = capacityAfter m := by
          refine ⟨k + 1, by omega, ?_⟩
          show grow vec.capacity = _
          rw [hcap]
          exact grow_capacityAfter (by omega)
        exact TasksOk.store hcap' h.wf.written h.called hx ha
    · cases ha
  · exact TasksOk.store h.capacity h.wf.written h.called hx ha

/-- A vector below the last capacity takes another task if there is memory. -/
theorem TasksOk.append_isSome {vec : RawVector DSLinkAsyncWrapper} (h : TasksOk vec) (x : DSLinkAsyncWrapper)
    (hsize : vec.size < 2684354560) : ∃ vec', vectorAppend vec x true = some (some vec') := by
  obtain ⟨k, hk, hcap⟩ := h.capacity
  have hroom : vec.size ≤ vec.capacity := h.wf.size_le
  unfold vectorAppend
  split
  · rename_i hfull
    have hlt : k ≠ 28 := by
      rintro rfl
      rw [capacityAfter_last] at hcap
      omega
    have hgrow : grow vec.capacity = vec.capacity * 2 := by
      rw [hcap]
      exact grow_capacityAfter (by omega)
    have hpos : 10 ≤ capacityAfter k := capacityAfter_mono (Nat.zero_le k)
    rw [if_pos rfl]
    exact ⟨_, if_pos (by show vec.size < grow vec.capacity; omega)⟩
  · exact ⟨_, if_pos (by omega)⟩

namespace State

variable {σ σ' : State}

/-! ## The steps -/

theorem inv_init : init.Inv where
  queue := by rintro _ ⟨⟩
  processing := by rintro _ _ ⟨⟩
  added := rfl
  increasing := .nil
  below := by rintro _ ⟨⟩
  accepted := .slnil

/-- The queue that a task is appended to is empty if it is new. -/
theorem Inv.queueOrNew (h : σ.Inv) {malloc mallocData : Bool} {vec : RawVector DSLinkAsyncWrapper}
    (hq : σ.queueOrNew malloc mallocData = some (some vec)) : TasksOk vec ∧ vec.toList = σ.queued := by
  unfold State.queueOrNew at hq
  cases hqueue : σ.queue with
  | some queue =>
    rw [hqueue] at hq
    obtain rfl := Option.some.inj (Option.some.inj hq)
    exact ⟨h.queue _ hqueue, by rw [queued, hqueue]; rfl⟩
  | none =>
    rw [hqueue] at hq
    cases malloc with
    | false => cases hq
    | true =>
      cases mallocData with
      | false => cases hq
      | true =>
        obtain rfl := Option.some.inj (Option.some.inj hq)
        exact ⟨tasksOk_init, by rw [queued, hqueue]; rfl⟩

/-- Only the new queue can be NULL. -/
theorem queueOrNew_none {malloc mallocData : Bool} (hq : σ.queueOrNew malloc mallocData = some none) :
    σ.queue = none := by
  unfold queueOrNew at hq
  cases hqueue : σ.queue with
  | some queue =>
    rw [hqueue] at hq
    cases hq
  | none => rfl

/-- A call that queues nothing. -/
theorem Inv.uncounted (h : σ.Inv) {queue : Option (RawVector DSLinkAsyncWrapper)}
    (hok : ∀ vec, queue = some vec → TasksOk vec) (hqueued : (queue.map RawVector.toList).getD [] = σ.queued) :
    Inv { σ with queue, calls := σ.calls + 1 } where
  queue := hok
  processing := h.processing
  added := by
    show σ.added = σ.held ++ ((queue.map RawVector.toList).getD []).map DSLinkAsyncWrapper.data
    rw [hqueued]
    exact h.added
  increasing := h.increasing
  below := fun call hcall => Nat.lt_succ_of_lt (h.below call hcall)
  accepted := h.accepted

/-- A call that queues its task. -/
theorem Inv.counted (h : σ.Inv) {vec : RawVector DSLinkAsyncWrapper} {wrapperFunction : AsyncTaskWrapperFunction}
    (hok : TasksOk vec) (hlist : vec.toList = σ.queued ++ [⟨some wrapperFunction, σ.calls⟩]) (sent : Int) :
    Inv { σ with
      queue := some vec
      calls := σ.calls + 1
      added := σ.added ++ [σ.calls]
      accepted := if sent = 0 then σ.accepted ++ [σ.calls] else σ.accepted } where
  queue := by
    rintro _ ⟨⟩
    exact hok
  processing := h.processing
  added := by
    show σ.added ++ [σ.calls] = σ.held ++ vec.toList.map DSLinkAsyncWrapper.data
    rw [hlist, h.added, List.map_append, List.append_assoc]
    rfl
  increasing := by
    refine List.pairwise_append.mpr ⟨h.increasing, List.pairwise_singleton _ _, ?_⟩
    intro call hcall last hlast
    exact List.mem_singleton.mp hlast ▸ h.below call hcall
  below := by
    intro call hcall
    rcases List.mem_append.mp hcall with hcall | hcall
    · exact Nat.lt_succ_of_lt (h.below call hcall)
    · exact List.mem_singleton.mp hcall ▸ Nat.lt_succ_self _
  accepted := by
    show (if sent = 0 then σ.accepted ++ [σ.calls] else σ.accepted).Sublist (σ.added ++ [σ.calls])
    split
    · exact h.accepted.append_right [σ.calls]
    · exact h.accepted.trans (List.sublist_append_left _ _)

/-- `add_async_task` keeps the invariant. -/
theorem Inv.addAsyncTask (h : σ.Inv) {wrapperFunction : AsyncTaskWrapperFunction} {malloc mallocData realloc : Bool}
    {sent : Int} (hs : σ.addAsyncTask wrapperFunction malloc mallocData realloc sent = some σ') : σ'.Inv := by
  obtain ⟨queue, hq, hs⟩ := Option.bind_eq_some_iff.mp hs
  cases queue with
  | none =>
    obtain rfl := Option.some.inj hs
    have hnone : σ.queue = none := queueOrNew_none hq
    exact h.uncounted (by rintro _ ⟨⟩) (by rw [queued, hnone])
  | some vec =>
    obtain ⟨hvec, hqueued⟩ := h.queueOrNew hq
    obtain ⟨result, happend, rfl⟩ := Option.map_eq_some_iff.mp hs
    cases result with
    | none =>
      refine h.uncounted ?_ hqueued
      rintro _ ⟨⟩
      exact hvec
    | some vec' =>
      obtain ⟨hvec', hlist⟩ := hvec.append rfl happend
      exact h.counted hvec' (hlist.trans (by rw [hqueued]; rfl)) sent

/-- The swap hands the queued tasks to the drain. -/
theorem processAsyncTasks_held {malloc mallocData : Bool} (hs : σ.processAsyncTasks malloc mallocData = some σ') :
    σ'.held ++ σ'.queued.map DSLinkAsyncWrapper.data = σ.held ++ σ.queued.map DSLinkAsyncWrapper.data ∧
      σ.held <+: σ'.held ∧ σ'.held = σ.held ++ σ.queued.map DSLinkAsyncWrapper.data := by
  unfold processAsyncTasks at hs
  split at hs
  · cases hs
  · rename_i hidle
    have hpending : σ.pending = [] := by
      rw [pending, hidle]
      rfl
    split at hs
    · rename_i hqueue
      obtain rfl := Option.some.inj hs
      refine ⟨rfl, List.prefix_refl _, ?_⟩
      rw [queued, hqueue]
      simp
    · rename_i vec hqueue
      have hqueued : σ.queued = vec.toList := by
        rw [queued, hqueue]
        rfl
      split at hs
      · rename_i hempty
        obtain rfl := Option.some.inj hs
        refine ⟨rfl, List.prefix_refl _, ?_⟩
        rw [hqueued, RawVector.toList, show vec.size = 0 from hempty]
        simp
      · split at hs
        · obtain rfl := Option.some.inj hs
          have hheld : held { σ with queue := some (RawVector.vectorInit 10), processing := some (vec, 0) } =
              σ.held ++ σ.queued.map DSLinkAsyncWrapper.data := by
            rw [held, held, hpending, hqueued]
            simp [pending]
          refine ⟨?_, ?_, hheld⟩
          · rw [hheld]
            exact List.append_nil _
          · rw [hheld]
            exact List.prefix_append _ _
        · cases hs

/-- A round of the loop runs the first task that the drain holds. -/
theorem Inv.processNext_held (h : σ.Inv) (hs : σ.processNext = some σ') : σ'.held = σ.held := by
  unfold processNext at hs
  split at hs
  · cases hs
  · rename_i vec n hprocessing
    obtain ⟨hvec, hn⟩ := h.processing _ _ hprocessing
    have hpending : σ.pending = vec.toList.drop n := by
      rw [pending, hprocessing]
      rfl
    split at hs
    · rename_i hlt
      obtain ⟨wrapper, hdata, rfl⟩ := Option.map_eq_some_iff.mp hs
      have hget : vec.toList[n]? = some wrapper := (hvec.wf.getElem?_toList hlt).trans hdata
      have hdrop : vec.toList.drop n = wrapper :: vec.toList.drop (n + 1) := by
        obtain ⟨hlen, rfl⟩ := List.getElem?_eq_some_iff.mp hget
        exact List.drop_eq_getElem_cons hlen
      show (if wrapper.wrapperFunction.isSome then σ.ran ++ [wrapper.data] else σ.ran) ++
        (vec.toList.drop (n + 1)).map DSLinkAsyncWrapper.data = _
      rw [if_pos (hvec.called _ (List.mem_of_getElem? hget)), held, hpending, hdrop, List.append_assoc]
      rfl
    · obtain rfl := Option.some.inj hs
      have hnil : vec.toList.drop n = [] := List.drop_eq_nil_of_le (by rw [hvec.wf.length_toList]; omega)
      rw [held, held, hpending, hnil]
      rfl

theorem Inv.processAsyncTasks (h : σ.Inv) {malloc mallocData : Bool}
    (hs : σ.processAsyncTasks malloc mallocData = some σ') : σ'.Inv := by
  have hadded : σ'.held ++ σ'.queued.map DSLinkAsyncWrapper.data = σ.added :=
    (processAsyncTasks_held hs).1.trans h.added.symm
  unfold State.processAsyncTasks at hs
  split at hs
  · cases hs
  · split at hs
    · exact Option.some.inj hs ▸ h
    · rename_i vec hqueue
      split at hs
      · exact Option.some.inj hs ▸ h
      · split at hs
        · obtain rfl := Option.some.inj hs
          refine ⟨?_, ?_, hadded.symm, h.increasing, h.below, h.accepted⟩
          · rintro _ ⟨⟩
            exact tasksOk_init
          · rintro _ _ ⟨⟩
            exact ⟨h.queue _ hqueue, Nat.zero_le _⟩
        · cases hs

theorem Inv.processNext (h : σ.Inv) (hs : σ.processNext = some σ') : σ'.Inv := by
  have hheld : σ'.held = σ.held := h.processNext_held hs
  unfold State.processNext at hs
  split at hs
  · cases hs
  · rename_i vec n hprocessing
    obtain ⟨hvec, hn⟩ := h.processing _ _ hprocessing
    split at hs
    · rename_i hlt
      obtain ⟨wrapper, hdata, rfl⟩ := Option.map_eq_some_iff.mp hs
      refine ⟨h.queue, ?_, hheld ▸ h.added, h.increasing, h.below, h.accepted⟩
      rintro _ _ ⟨⟩
      exact ⟨hvec, hlt⟩
    · obtain rfl := Option.some.inj hs
      exact ⟨h.queue, by rintro _ _ ⟨⟩, hheld ▸ h.added, h.increasing, h.below, h.accepted⟩

theorem Inv.step (h : σ.Inv) {e : Event} (hs : σ.step e = some σ') : σ'.Inv := by
  cases e with
  | add => exact h.addAsyncTask hs
  | drain => exact h.processAsyncTasks hs
  | next => exact h.processNext hs

theorem ReachedFrom.inv (h : σ.Inv) (hr : ReachedFrom σ σ') : σ'.Inv := by
  refine Reach.invariant Inv ?_ (fun _ _ _ hi _ hs => hi.step hs) hr
  rintro _ rfl
  exact h

/-! ## Runs -/

theorem addAsyncTask_held {wrapperFunction : AsyncTaskWrapperFunction} {malloc mallocData realloc : Bool} {sent : Int}
    (hs : σ.addAsyncTask wrapperFunction malloc mallocData realloc sent = some σ') : σ'.held = σ.held := by
  obtain ⟨queue, _, hs⟩ := Option.bind_eq_some_iff.mp hs
  cases queue with
  | none => exact Option.some.inj hs ▸ rfl
  | some vec =>
    obtain ⟨result, _, rfl⟩ := Option.map_eq_some_iff.mp hs
    cases result <;> rfl

/-- What has run or is held stays so, in its order. -/
theorem Inv.step_held (h : σ.Inv) {e : Event} (hs : σ.step e = some σ') : σ.held <+: σ'.held := by
  cases e with
  | add => exact addAsyncTask_held hs ▸ List.prefix_refl _
  | drain => exact (processAsyncTasks_held hs).2.1
  | next => exact h.processNext_held hs ▸ List.prefix_refl _

theorem ReachedFrom.held (h : σ.Inv) (hr : ReachedFrom σ σ') : σ.held <+: σ'.held := by
  refine (Reach.invariant (fun τ => τ.Inv ∧ σ.held <+: τ.held) ?_ (fun τ e τ' hi _ hs => ?_) hr).2
  · rintro _ rfl
    exact ⟨h, List.prefix_refl _⟩
  · exact ⟨hi.1.step hs, hi.2.trans (hi.1.step_held hs)⟩

/-- Between two drains nothing is held. -/
theorem held_idle (h : σ.processing = none) : σ.held = σ.ran := by
  rw [State.held, pending, h]
  exact List.append_nil _

end State

open State

/-- The tasks of every run, with adds at any time, also while a task of a drain runs. A call that returned 0 added a
    task; tasks run at most once and in the order in which they were added, none is left out between two that have
    run, and when a drain is over every task that was added before it has run. With memory, and less than 2684354560
    tasks in the queue, no step is stuck. -/
theorem async_tasks_in_order {σ : State} (h : ReachedFrom init σ) :
    (σ.accepted.Sublist σ.added ∧ σ.added.Nodup ∧ σ.ran <+: σ.added) ∧
    (∀ malloc mallocData τ υ, σ.step (.drain malloc mallocData) = some τ → ReachedFrom τ υ → υ.processing = none →
      σ.added <+: υ.ran) ∧
    ((σ.queue.map RawVector.size).getD 0 < 2684354560 → ∀ wrapperFunction sent,
      (σ.step (.add wrapperFunction true true true sent)).isSome) ∧
    (if σ.processing.isSome then (σ.step .next).isSome else (σ.step (.drain true true)).isSome) := by
  have hinv : σ.Inv := ReachedFrom.inv inv_init h
  refine ⟨⟨hinv.accepted, hinv.increasing.imp (fun hlt => Nat.ne_of_lt hlt), ?_⟩, ?_, ?_, ?_⟩
  · rw [hinv.added, State.held, List.append_assoc]
    exact List.prefix_append _ _
  · intro malloc mallocData τ υ hs hr hidle
    have hτ : τ.held = σ.added := (processAsyncTasks_held hs).2.2.trans hinv.added.symm
    rw [← hτ, ← held_idle hidle]
    exact ReachedFrom.held (hinv.step hs) hr
  · intro hsize wrapperFunction sent
    show (σ.addAsyncTask _ _ _ _ _).isSome
    have hqueue : ∃ vec, σ.queueOrNew true true = some (some vec) ∧ TasksOk vec ∧ vec.size < 2684354560 := by
      cases hq : σ.queue with
      | none => exact ⟨_, by rw [queueOrNew, hq]; rfl, tasksOk_init, by decide⟩
      | some vec =>
        rw [hq] at hsize
        exact ⟨vec, by rw [queueOrNew, hq], hinv.queue _ hq, hsize⟩
    obtain ⟨vec, hq, hok, hlt⟩ := hqueue
    obtain ⟨vec', happend⟩ := hok.append_isSome ⟨some wrapperFunction, σ.calls⟩ hlt
    rw [addAsyncTask, hq]
    show ((vectorAppend vec ⟨some wrapperFunction, σ.calls⟩ true).map _).isSome
    rw [happend]
    rfl
  · cases hprocessing : σ.processing with
    | none =>
      show (σ.processAsyncTasks true true).isSome
      rw [processAsyncTasks, hprocessing]
      cases σ.queue with
      | none => rfl
      | some vec =>
        show (if vec.vectorCount = 0 then _ else _ : Option State).isSome
        split <;> rfl
    | some p =>
      obtain ⟨vec, n⟩ := p
      obtain ⟨hvec, _⟩ := hinv.processing _ _ hprocessing
      show (σ.processNext).isSome
      rw [processNext, hprocessing]
      show (if n < vec.size then _ else _ : Option State).isSome
      split
      · rename_i hlt
        obtain ⟨wrapper, hdata⟩ := Option.isSome_iff_exists.mp (hvec.wf.written n hlt)
        rw [hdata]
        rfl
      · rfl

/-- A task that is added while the first of two runs waits for the next drain. -/
theorem async_tasks_in_order_readded :
    ∃ σ, ReachedFrom init σ ∧ σ.ran = [0, 1] ∧ σ.added = [0, 1, 2] ∧ σ.ran <+: σ.added ∧ (σ.step (.drain true true)).isSome := by
  obtain ⟨σ, hr, hc⟩ := Reach.of_eval step (some init)
    [.add .runWrapper true true true 0, .add .getNodeValueWrapper true true true 0, .drain true true, .next,
      .add .runWrapper true true true 0, .next, .next]
    (fun σ => σ.processing.isNone && decide (σ.ran = [0, 1] ∧ σ.added = [0, 1, 2])) (by decide)
  have hr' : ReachedFrom init σ := hr.of_init (fun s hs => (Option.some.inj hs).symm)
  rw [Bool.and_eq_true, decide_eq_true_iff] at hc
  have hidle : σ.processing.isSome = false := by simpa using hc.1
  have hall := async_tasks_in_order hr'
  rw [hidle] at hall
  exact ⟨σ, hr', hc.2.1, hc.2.2, hall.1.2.2, hall.2.2.2⟩

end DSLink.AsyncTasks
