import DSLink.Sdk.AsyncTasks
import DSLink.Sdk.Responder

/-!
# `Sdk.AsyncAnswers` — what the tasks of other threads are answered

The three calls of the thread-safe API and the functions that run their tasks on the loop of a link: a call stores
its arguments behind the task, the drain finds the link in whatever state it is by then, and the callback of the call
is told. Between any two steps the application may change the tree of the link, or take its responder away.

## Contents
- `Call`, `TaskData`: the arguments of a call.
- `getNodeValueWrapper`, `setNodeValueWrapper`, `runWrapper`.
- `LinkState.step`: calls, drains and changes, over the queue of `AsyncTasks`.
- `LinkInv`: what is stored for the tasks that wait.
- `Met`, `async_answers_exact`.
-/

namespace DSLink.AsyncTasks

open Responder (Node NodeData)

/-! ## Tasks and answers -/

/-- `DSLinkAsyncGetData`. The path is `none` after it was freed. -/
structure GetData where
  nodePath : Option CString
  callback : Bool

/-- `DSLinkAsyncSetData`. -/
structure SetData where
  nodePath : Option CString
  setValue : Json
  callback : Bool

/-- `DSLinkAsyncRunData`. -/
structure RunData where
  callback : Bool

/-- The data behind a task. -/
inductive TaskData
  | get (data : GetData)
  | set (data : SetData)
  | run (data : RunData)

/-- The results that a set is answered with. -/
inductive Code
  | success
  | allocErr
  | noRootNodeErr
  | einval
  deriving DecidableEq

/-- The arguments of a callback. -/
inductive Answer
  | value (value : Option Json)
  | result (code : Code)
  | called

namespace TaskData

/-- There is a callback. -/
def callback : TaskData → Bool
  | get data => data.callback
  | set data => data.callback
  | run data => data.callback

/-- The path, where there is one to be freed. -/
def path : TaskData → Option (Option CString)
  | get data => some data.nodePath
  | set data => some data.nodePath
  | run _ => none

/-- The function that runs the task. -/
def wrapperFunction : TaskData → AsyncTaskWrapperFunction
  | get _ => .getNodeValueWrapper
  | set _ => .setNodeValueWrapper
  | run _ => .runWrapper

end TaskData

/-- `if (callback) callback(answer, ..)`. -/
def tell (callback : Bool) (answer : Answer) : Option Answer := if callback then some answer else none

/-- `get_node_value_wrapper`. `json_copy(node->value)` looks at the node that was found, or at none. -/
def getNodeValueWrapper (root : Option Node) (data : GetData) : Option (Option Answer) :=
  data.nodePath.bind fun path =>
    match root with
    | none => some none
    | some root =>
      if data.callback then (root.getNode path).map fun node => some (.value node.data.value) else some none

/-- `dslink_node_update_value_new` of the node at `names`, where `ts` is the time as a string if there is memory for
    it. What it sends to subscribers is in `Responder`. -/
def dslinkNodeUpdateValueNew (root : Node) (names : List CString) (value : Json) (ts : Option CString) : Node × Code :=
  match ts with
  | none => (root, .allocErr)
  | some ts =>
    (root.modifyAt (fun node => .mk { node.data with value := some value, valueTimestamp := some ts } node.children)
      names, .success)

/-- `set_node_value_wrapper`. -/
def setNodeValueWrapper (root : Option Node) (data : SetData) (ts : Option CString) :
    Option (Option Node × Option Answer) :=
  data.nodePath.map fun path =>
    match root with
    | none => (none, tell data.callback (.result .noRootNodeErr))
    | some root =>
      match root.getPath path with
      | none => (some root, tell data.callback (.result .einval))
      | some names =>
        let updated := dslinkNodeUpdateValueNew root names data.setValue ts
        (some updated.1, tell data.callback (.result updated.2))

/-- `run_wrapper`, on a link. -/
def runWrapper (data : RunData) : Option Answer := tell data.callback .called

/-- `async_wrapper->wrapperFunction(link, async_wrapper->data)`: the tree after it, and the call of the callback. -/
def runTask (root : Option Node) (ts : Option CString) :
    Option AsyncTaskWrapperFunction → TaskData → Option (Option Node × Option Answer)
  | some .getNodeValueWrapper, .get data => (getNodeValueWrapper root data).map fun answer => (root, answer)
  | some .setNodeValueWrapper, .set data => setNodeValueWrapper root data ts
  | some .runWrapper, .run data => some (root, runWrapper data)
  | none, _ => some (root, none)
  | _, _ => none

/-! ## The link -/

/-- The calls of the thread-safe API. -/
inductive Call
  | nodeGetValueSafe (path : CString) (callback : Bool)
  | nodeUpdateValueSafe (path : CString) (value : Json) (callback : Bool)
  | runSafe (callback : Bool)

/-- What a call stores behind its task. Where `add_async_task` does not return 0 the path is freed. -/
def Call.data (added : Bool) : Call → TaskData
  | nodeGetValueSafe path callback => .get ⟨if added then some path else none, callback⟩
  | nodeUpdateValueSafe path value callback => .set ⟨if added then some path else none, value, callback⟩
  | runSafe callback => .run ⟨callback⟩

/-- A link with its tasks. `root` is what `link->responder->super_root` gives, `data` the memory behind the tasks by
    the numbers of the calls. `callbacks` are the calls that came with a callback, and `answered` those that it was
    called for. -/
structure LinkState where
  tasks : State
  root : Option Node
  data : Nat → Option TaskData
  callbacks : List Nat
  answered : List (Nat × Answer)

/-- The results of the allocations of a call. -/
structure Memory where
  data : Bool
  malloc : Bool
  mallocData : Bool
  realloc : Bool

/-- The steps: a call, the locked part of a drain, one round of its loop, and any change of the tree. -/
inductive LinkEvent
  | call (call : Call) (memory : Memory) (sent : Int)
  | drain (malloc mallocData : Bool)
  | next (ts : Option CString)
  | change (root : Option Node)

namespace LinkState

/-- What a call leaves, when `tasks` are the tasks after `add_async_task`. -/
def record (σ : LinkState) (call : Call) (tasks : State) : LinkState :=
  { σ with
    tasks
    data := fun n => if n = σ.tasks.calls then
      (if n ∈ tasks.added then some (call.data (decide (n ∈ tasks.accepted))) else none) else σ.data n
    callbacks := if (call.data true).callback then σ.callbacks ++ [σ.tasks.calls] else σ.callbacks }

/-- `dslink_node_get_value_safe`, `dslink_node_update_value_safe` and `dslink_run_safe`. -/
def add (σ : LinkState) (call : Call) (memory : Memory) (sent : Int) : Option LinkState :=
  if memory.data then
    (σ.tasks.addAsyncTask (call.data true).wrapperFunction memory.malloc memory.mallocData memory.realloc sent).map
      (σ.record call)
  else none

/-- The task of the next round of a drain. -/
def current (σ : LinkState) : Option DSLinkAsyncWrapper :=
  σ.tasks.processing.bind fun p => if p.2 < p.1.size then p.1.data p.2 else none

/-- One round of the loop of a drain. `none`: the path or the data is used after it was freed, or a node is looked at
    that is not there. -/
def next (σ : LinkState) (ts : Option CString) : Option LinkState :=
  σ.tasks.processNext.bind fun tasks =>
    match σ.current with
    | none => some { σ with tasks }
    | some wrapper =>
      (σ.data wrapper.data).bind fun data =>
        (runTask σ.root ts wrapper.wrapperFunction data).map fun result =>
          { σ with
            tasks
            root := result.1
            data := fun i => if i = wrapper.data then none else σ.data i
            answered := σ.answered ++ result.2.toList.map (fun answer => (wrapper.data, answer)) }

/-- One step. -/
def step (σ : LinkState) : LinkEvent → Option LinkState
  | .call call memory sent => σ.add call memory sent
  | .drain malloc mallocData => (σ.tasks.processAsyncTasks malloc mallocData).map fun tasks => { σ with tasks }
  | .next ts => σ.next ts
  | .change root => some { σ with root }

/-- The link after `dslink_init`, with any tree. -/
def init (root : Option Node) : LinkState := ⟨State.init, root, fun _ => none, [], []⟩

end LinkState

/-! ## The steps of the queue -/

namespace State

variable {σ σ' : State}

/-- A call is queued or it leaves the tasks as they are. -/
theorem Inv.addAsyncTask_cases (h : σ.Inv) {wrapperFunction : AsyncTaskWrapperFunction}
    {malloc mallocData realloc : Bool} {sent : Int}
    (hs : σ.addAsyncTask wrapperFunction malloc mallocData realloc sent = some σ') :
    σ'.pending = σ.pending ∧ σ'.ran = σ.ran ∧ σ'.calls = σ.calls + 1 ∧
      (σ'.queued = σ.queued ∧ σ'.added = σ.added ∧ σ'.accepted = σ.accepted ∨
        σ'.queued = σ.queued ++ [⟨some wrapperFunction, σ.calls⟩] ∧ σ'.added = σ.added ++ [σ.calls] ∧
          σ'.accepted = if sent = 0 then σ.accepted ++ [σ.calls] else σ.accepted) := by
  obtain ⟨queue, hq, hs⟩ := Option.bind_eq_some_iff.mp hs
  cases queue with
  | none =>
    obtain rfl := Option.some.inj hs
    have hnone : σ.queue = none := queueOrNew_none hq
    exact ⟨rfl, rfl, rfl, .inl ⟨by rw [queued, queued, hnone], rfl, rfl⟩⟩
  | some vec =>
    obtain ⟨hvec, hqueued⟩ := h.queueOrNew hq
    obtain ⟨result, happend, rfl⟩ := Option.map_eq_some_iff.mp hs
    cases result with
    | none => exact ⟨rfl, rfl, rfl, .inl ⟨hqueued, rfl, rfl⟩⟩
    | some vec' =>
      obtain ⟨-, hlist⟩ := hvec.append rfl happend
      refine ⟨rfl, rfl, rfl, .inr ⟨?_, rfl, rfl⟩⟩
      rw [← hqueued]
      exact hlist

/-- The locked part of a drain moves the queue behind what the drain holds. -/
theorem processAsyncTasks_cases {malloc mallocData : Bool} (hs : σ.processAsyncTasks malloc mallocData = some σ') :
    σ'.pending ++ σ'.queued = σ.pending ++ σ.queued ∧ σ'.ran = σ.ran ∧ σ'.calls = σ.calls ∧ σ'.added = σ.added ∧
      σ'.accepted = σ.accepted := by
  unfold processAsyncTasks at hs
  split at hs
  · cases hs
  · rename_i hidle
    have hpending : σ.pending = [] := by
      rw [pending, hidle]
      rfl
    split at hs
    · obtain rfl := Option.some.inj hs
      exact ⟨rfl, rfl, rfl, rfl, rfl⟩
    · rename_i vec hqueue
      split at hs
      · obtain rfl := Option.some.inj hs
        exact ⟨rfl, rfl, rfl, rfl, rfl⟩
      · split at hs
        · obtain rfl := Option.some.inj hs
          refine ⟨?_, rfl, rfl, rfl, rfl⟩
          have hqueued : σ.queued = vec.toList := by
            rw [queued, hqueue]
            rfl
          rw [hpending, hqueued]
          exact List.append_nil _
        · cases hs

/-- One round of the loop runs the first task that is held, or ends the drain. -/
theorem Inv.processNext_cases (h : σ.Inv) (hs : σ.processNext = some σ') :
    σ'.queued = σ.queued ∧ σ'.calls = σ.calls ∧ σ'.added = σ.added ∧ σ'.accepted = σ.accepted ∧
      (σ.pending = [] ∧ σ'.pending = [] ∧ σ'.ran = σ.ran ∨
        ∃ wrapper rest, σ.pending = wrapper :: rest ∧ σ'.pending = rest ∧ σ'.ran = σ.ran ++ [wrapper.data]) := by
  unfold State.processNext at hs
  split at hs
  · cases hs
  · rename_i vec n hprocessing
    obtain ⟨hvec, hn⟩ := h.processing _ _ hprocessing
    have hpending : σ.pending = vec.toList.drop n := by
      rw [pending, hprocessing]
      rfl
    split at hs
    · rename_i hlt
      obtain ⟨wrapper, hdata, rfl⟩ := Option.map_eq_some_iff.mp hs
      obtain ⟨hlen, hget⟩ := List.getElem?_eq_some_iff.mp ((hvec.wf.getElem?_toList hlt).trans hdata)
      refine ⟨rfl, rfl, rfl, rfl, .inr ⟨wrapper, vec.toList.drop (n + 1), ?_, rfl, ?_⟩⟩
      · rw [hpending, List.drop_eq_getElem_cons hlen, hget]
      · exact if_pos (hvec.called _ (hget ▸ List.getElem_mem hlen))
    · obtain rfl := Option.some.inj hs
      refine ⟨rfl, rfl, rfl, rfl, .inl ⟨?_, rfl, rfl⟩⟩
      rw [hpending]
      exact List.drop_eq_nil_of_le (by rw [hvec.wf.length_toList]; omega)

/-- While a drain runs, its next round is there. -/
theorem Inv.processNext_isSome (h : σ.Inv) (hrun : σ.processing.isSome) : σ.processNext.isSome := by
  obtain ⟨⟨vec, n⟩, hprocessing⟩ := Option.isSome_iff_exists.mp hrun
  obtain ⟨hvec, -⟩ := h.processing _ _ hprocessing
  rw [State.processNext, hprocessing]
  dsimp only
  split
  · rename_i hlt
    rw [Option.isSome_map]
    exact hvec.wf.written n hlt
  · rfl

/-- The tasks that wait were added once each, and before the calls to come. -/
theorem Inv.waiting (h : σ.Inv) : ((σ.pending ++ σ.queued).map DSLinkAsyncWrapper.data).Nodup ∧
    ∀ wrapper ∈ σ.pending ++ σ.queued, wrapper.data < σ.calls := by
  have hadded : σ.added = σ.ran ++ (σ.pending ++ σ.queued).map DSLinkAsyncWrapper.data := by
    rw [h.added, held, List.map_append, List.append_assoc]
  have hnodup : σ.added.Nodup := h.increasing.imp (fun hlt => Nat.ne_of_lt hlt)
  rw [hadded] at hnodup
  refine ⟨hnodup.of_append_right, fun wrapper hw => h.below _ ?_⟩
  rw [hadded]
  exact List.mem_append_right _ (List.mem_map_of_mem hw)

theorem Inv.ran_added (h : σ.Inv) : σ.ran <+: σ.added := by
  rw [h.added, held, List.append_assoc]
  exact List.prefix_append _ _

end State

/-! ## The invariant -/

namespace LinkState

variable {σ σ' : LinkState}

/-- What is stored behind a task that waits: its arguments are those that its function expects, and its path is live
    where the call returned 0. -/
structure Stored (σ : LinkState) (wrapper : DSLinkAsyncWrapper) (data : TaskData) : Prop where
  there : σ.data wrapper.data = some data
  expected : wrapper.wrapperFunction = some data.wrapperFunction
  told : data.callback = true ↔ wrapper.data ∈ σ.callbacks
  live : ∀ path, data.path = some path → (path.isSome ↔ wrapper.data ∈ σ.tasks.accepted)

/-- The arguments of every task that waits are stored, and the callbacks that were called are those of the tasks that
    have run. -/
structure LinkInv (σ : LinkState) : Prop where
  tasks : σ.tasks.Inv
  stored : ∀ wrapper ∈ σ.tasks.pending ++ σ.tasks.queued, ∃ data, Stored σ wrapper data
  callbacks : ∀ call ∈ σ.callbacks, call < σ.tasks.calls
  answered : σ.answered.map Prod.fst = σ.tasks.ran.filter (· ∈ σ.callbacks)

theorem linkInv_init (root : Option Node) : (init root).LinkInv where
  tasks := State.inv_init
  stored := by rintro _ ⟨⟩
  callbacks := by rintro _ ⟨⟩
  answered := rfl

theorem Stored.of_eq {wrapper : DSLinkAsyncWrapper} {data : TaskData} (h : Stored σ wrapper data)
    (hdata : σ'.data wrapper.data = σ.data wrapper.data)
    (hcallbacks : wrapper.data ∈ σ'.callbacks ↔ wrapper.data ∈ σ.callbacks)
    (haccepted : wrapper.data ∈ σ'.tasks.accepted ↔ wrapper.data ∈ σ.tasks.accepted) : Stored σ' wrapper data where
  there := hdata.trans h.there
  expected := h.expected
  told := h.told.trans hcallbacks.symm
  live := fun path hp => (h.live path hp).trans haccepted.symm

theorem mem_append_of_ne {l : List Nat} {n m : Nat} (h : n ≠ m) : n ∈ l ++ [m] ↔ n ∈ l := by
  simp [h]

theorem Call.callback_data (call : Call) (added : Bool) : (call.data added).callback = (call.data true).callback := by
  cases call <;> rfl

theorem Call.wrapperFunction_data (call : Call) (added : Bool) :
    (call.data added).wrapperFunction = (call.data true).wrapperFunction := by
  cases call <;> rfl

theorem Call.path_data (call : Call) (added : Bool) : ∀ path, (call.data added).path = some path → path.isSome = added := by
  cases call <;> cases added <;> simp [Call.data, TaskData.path]

theorem LinkInv.add (h : σ.LinkInv) {call : Call} {memory : Memory} {sent : Int}
    (hs : σ.add call memory sent = some σ') : σ'.LinkInv := by
  unfold LinkState.add at hs
  split at hs
  · obtain ⟨tasks, ht, rfl⟩ := Option.map_eq_some_iff.mp hs
    obtain ⟨hpending, hran, hcalls, hcases⟩ := h.tasks.addAsyncTask_cases ht
    have hbelow := h.tasks.waiting.2
    have hcallbacks : ∀ n, n < σ.tasks.calls → (n ∈ (σ.record call tasks).callbacks ↔ n ∈ σ.callbacks) := by
      intro n hn
      unfold record
      dsimp only
      split
      · exact mem_append_of_ne (Nat.ne_of_lt hn)
      · exact Iff.rfl
    have haccepted : ∀ n, n < σ.tasks.calls → (n ∈ tasks.accepted ↔ n ∈ σ.tasks.accepted) := by
      intro n hn
      rcases hcases with ⟨-, -, hsame⟩ | ⟨-, -, hmore⟩
      · rw [hsame]
      · rw [hmore]
        split
        · exact mem_append_of_ne (Nat.ne_of_lt hn)
        · exact Iff.rfl
    refine ⟨h.tasks.addAsyncTask ht, ?_, ?_, ?_⟩
    · intro wrapper hw
      have hold : wrapper ∈ σ.tasks.pending ++ σ.tasks.queued →
          ∃ data, Stored (σ.record call tasks) wrapper data := by
        intro hw
        obtain ⟨data, hstored⟩ := h.stored wrapper hw
        have hlt := hbelow wrapper hw
        exact ⟨data, hstored.of_eq (if_neg (Nat.ne_of_lt hlt)) (hcallbacks _ hlt) (haccepted _ hlt)⟩
      rcases hcases with ⟨hqueued, -, -⟩ | ⟨hqueued, hadded, -⟩
      · exact hold (hpending ▸ hqueued ▸ hw)
      · have hw' : wrapper ∈ tasks.pending ++ tasks.queued := hw
        rw [hpending, hqueued, ← List.append_assoc, List.mem_append, List.mem_singleton] at hw'
        rcases hw' with hw | rfl
        · exact hold hw
        · refine ⟨call.data (decide (σ.tasks.calls ∈ tasks.accepted)), ?_, ?_, ?_, ?_⟩
          · have hmem : σ.tasks.calls ∈ tasks.added := by
              rw [hadded]
              exact List.mem_append_right _ (List.mem_singleton_self _)
            exact (if_pos rfl).trans (if_pos hmem)
          · exact congrArg some (Call.wrapperFunction_data call _).symm
          · rw [Call.callback_data]
            unfold record
            dsimp only
            split
            · rename_i hcallback
              exact iff_of_true hcallback (by simp)
            · rename_i hcallback
              exact iff_of_false hcallback (fun hmem => Nat.lt_irrefl _ (h.callbacks _ hmem))
          · intro path hpath
            rw [Call.path_data call _ path hpath]
            exact decide_eq_true_iff
    · intro n hn
      show n < tasks.calls
      rw [hcalls]
      by_cases hnew : n = σ.tasks.calls
      · omega
      · refine Nat.lt_succ_of_lt (h.callbacks n ?_)
        unfold record at hn
        dsimp only at hn
        split at hn
        · exact (mem_append_of_ne hnew).mp hn
        · exact hn
    · show σ.answered.map Prod.fst = tasks.ran.filter _
      rw [h.answered, hran]
      apply List.filter_congr
      intro n hn
      rw [decide_eq_decide]
      exact (hcallbacks n (h.tasks.below n (h.tasks.ran_added.subset hn))).symm
  · cases hs

theorem LinkInv.drain (h : σ.LinkInv) {malloc mallocData : Bool} {tasks : State}
    (hs : σ.tasks.processAsyncTasks malloc mallocData = some tasks) : LinkInv { σ with tasks } := by
  obtain ⟨hwaiting, hran, hcalls, -, haccepted⟩ := State.processAsyncTasks_cases hs
  refine ⟨h.tasks.processAsyncTasks hs, fun wrapper hw => ?_, fun n hn => hcalls ▸ h.callbacks n hn, ?_⟩
  · have hw' : wrapper ∈ tasks.pending ++ tasks.queued := hw
    rw [hwaiting] at hw'
    obtain ⟨data, hstored⟩ := h.stored wrapper hw'
    refine ⟨data, hstored.of_eq rfl Iff.rfl ?_⟩
    show _ ∈ tasks.accepted ↔ _
    rw [haccepted]
  · show _ = tasks.ran.filter _
    rw [hran]
    exact h.answered

/-! ## One round of a drain -/

/-- The next task is the first one that the drain holds. -/
theorem LinkInv.current_eq (h : σ.LinkInv) : σ.current = σ.tasks.pending.head? := by
  unfold current State.pending
  cases hprocessing : σ.tasks.processing with
  | none => rfl
  | some p =>
    obtain ⟨vec, n⟩ := p
    obtain ⟨hvec, -⟩ := h.tasks.processing _ _ hprocessing
    show (if n < vec.size then vec.data n else none) = (vec.toList.drop n).head?
    rw [List.head?_drop]
    split
    · rename_i hlt
      rw [hvec.wf.getElem?_toList hlt]
    · rw [List.getElem?_eq_none (by rw [hvec.wf.length_toList]; omega)]

/-- An answer says what the tree of the link has: the value of the node, or no success where a value is set and there
    is no node. -/
def Fits (root : Option Node) : TaskData → Answer → Prop
  | .get data, .value value =>
    ∀ path ∈ data.nodePath, value = (root.bind (·.getNode path)).bind (·.data.value)
  | .set data, .result code => ∀ path ∈ data.nodePath, (root.bind (·.getPath path)) = none → code ≠ .success
  | .run _, .called => True
  | _, _ => False

/-- A callback that is there was called with an answer that fits, and no other one. -/
def Told (root : Option Node) (data : TaskData) (answer : Option Answer) : Prop :=
  if data.callback then ∃ a, answer = some a ∧ Fits root data a else answer = none

/-- The call with the number `n` returned 0, unless it has no path; and a get that has a callback finds its node. -/
def Answerable (σ : LinkState) (n : Nat) : TaskData → Prop
  | .get data => n ∈ σ.tasks.accepted ∧ (data.callback = true →
      ∃ root path node, σ.root = some root ∧ data.nodePath = some path ∧ root.getNode path = some node)
  | .set _ => n ∈ σ.tasks.accepted
  | .run _ => True

theorem told_tell {root : Option Node} (data : TaskData) {answer : Answer} (h : Fits root data answer) :
    Told root data (tell data.callback answer) := by
  unfold Told tell
  split
  · exact ⟨answer, rfl, h⟩
  · rfl

/-- A set is answered whatever the link has. -/
theorem setNodeValueWrapper_told (root : Option Node) (ts : Option CString) (path : CString) (value : Json)
    (callback : Bool) : ∃ root' answer, setNodeValueWrapper root ⟨some path, value, callback⟩ ts = some (root', answer) ∧
      Told root (.set ⟨some path, value, callback⟩) answer := by
  cases root with
  | none =>
    refine ⟨none, _, rfl, told_tell (.set ⟨some path, value, callback⟩) ?_⟩
    intro path' _ _ h
    cases h
  | some root =>
    cases hget : root.getPath path with
    | none =>
      refine ⟨some root, tell callback (.result .einval), ?_,
        told_tell (.set ⟨some path, value, callback⟩) ?_⟩
      · simp [setNodeValueWrapper, hget]
      · intro path' _ _ h
        cases h
    | some names =>
      refine ⟨some (dslinkNodeUpdateValueNew root names value ts).1,
        tell callback (.result (dslinkNodeUpdateValueNew root names value ts).2), ?_,
        told_tell (.set ⟨some path, value, callback⟩) ?_⟩
      · simp [setNodeValueWrapper, hget]
      · intro path' hpath' hnone
        obtain rfl := Option.some.inj hpath'
        rw [Option.bind_some, hget] at hnone
        cases hnone

/-- A get is answered where it finds its node, or has no callback. -/
theorem getNodeValueWrapper_iff {root : Option Node} {ts : Option CString} {path : CString} {callback : Bool} :
    (∃ root' answer, runTask root ts (some .getNodeValueWrapper) (.get ⟨some path, callback⟩) = some (root', answer) ∧
      Told root (.get ⟨some path, callback⟩) answer) ↔
      (callback = true → ∃ root' path' node, root = some root' ∧ some path = some path' ∧
        root'.getNode path' = some node) := by
  cases callback with
  | false =>
    refine iff_of_true ⟨root, none, ?_, rfl⟩ (fun h => by cases h)
    cases root <;> rfl
  | true =>
    constructor
    · rintro ⟨root', answer, hrun, htold⟩ -
      obtain ⟨a, rfl, -⟩ : ∃ a, answer = some a ∧ Fits root (.get ⟨some path, true⟩) a := htold
      cases root with
      | none => cases hrun
      | some root =>
        obtain ⟨result, hresult, -⟩ := Option.map_eq_some_iff.mp hrun
        obtain ⟨node, hnode, -⟩ := Option.map_eq_some_iff.mp hresult
        exact ⟨root, path, node, rfl, rfl, hnode⟩
    · intro h
      obtain ⟨root', path', node, rfl, hpath, hnode⟩ := h rfl
      obtain rfl := Option.some.inj hpath
      refine ⟨some root', some (.value node.data.value), ?_, ⟨_, rfl, ?_⟩⟩
      · simp [runTask, getNodeValueWrapper, hnode]
      · intro path'' hpath''
        obtain rfl := Option.some.inj hpath''
        simp [hnode]

theorem runTask_iff {wrapper : DSLinkAsyncWrapper} {data : TaskData} (h : Stored σ wrapper data) (ts : Option CString) :
    (∃ root answer, runTask σ.root ts wrapper.wrapperFunction data = some (root, answer) ∧ Told σ.root data answer) ↔
      Answerable σ wrapper.data data := by
  rw [h.expected]
  cases data with
  | get data =>
    have hlive := h.live _ rfl
    obtain ⟨nodePath, callback⟩ := data
    cases nodePath with
    | none =>
      refine iff_of_false ?_ (fun ha => absurd (hlive.mpr ha.1) (by simp))
      rintro ⟨root, answer, hrun, -⟩
      cases hrun
    | some path =>
      have hacc : wrapper.data ∈ σ.tasks.accepted := hlive.mp rfl
      rw [Answerable, and_iff_right hacc]
      exact getNodeValueWrapper_iff
  | set data =>
    have hlive := h.live _ rfl
    obtain ⟨nodePath, value, callback⟩ := data
    cases nodePath with
    | none =>
      refine iff_of_false ?_ (fun ha => absurd (hlive.mpr ha) (by simp))
      rintro ⟨root, answer, hrun, -⟩
      cases hrun
    | some path =>
      refine iff_of_true ?_ (hlive.mp rfl)
      obtain ⟨root, answer, hrun, htold⟩ := setNodeValueWrapper_told σ.root ts path value callback
      exact ⟨root, answer, hrun, htold⟩
  | run data =>
    refine iff_of_true ⟨σ.root, runWrapper data, rfl, ?_⟩ trivial
    obtain ⟨callback⟩ := data
    cases callback
    · rfl
    · exact ⟨.called, rfl, trivial⟩

/-! ## Runs -/

/-- The steps at which the code does what it promises: the task of the next round is answerable. -/
def Met (σ : LinkState) : LinkEvent → Prop
  | .next _ => ∀ wrapper data, σ.current = some wrapper → σ.data wrapper.data = some data →
    Answerable σ wrapper.data data
  | _ => True

/-- The next round of a drain: its task runs, and its callback is told once, and no other one. -/
def RoundAnswers (σ : LinkState) (ts : Option CString) : Prop :=
  ∀ wrapper, σ.current = some wrapper → ∃ data τ answer, σ.data wrapper.data = some data ∧
    σ.step (.next ts) = some τ ∧
      τ.answered = σ.answered ++ Option.toList (answer.map fun a => (wrapper.data, a)) ∧ Told σ.root data answer

theorem LinkInv.stored_current (h : σ.LinkInv) {wrapper : DSLinkAsyncWrapper} (hc : σ.current = some wrapper) :
    ∃ data rest, Stored σ wrapper data ∧ σ.tasks.pending = wrapper :: rest := by
  rw [h.current_eq] at hc
  obtain ⟨rest, hrest⟩ := List.head?_eq_some_iff.mp hc
  obtain ⟨data, hstored⟩ := h.stored wrapper (by simp [hrest])
  exact ⟨data, rest, hstored, hrest⟩

/-- What a round does to the link. -/
theorem LinkInv.next_eq (h : σ.LinkInv) {wrapper : DSLinkAsyncWrapper} {data : TaskData} (ts : Option CString)
    (hc : σ.current = some wrapper) (hdata : σ.data wrapper.data = some data) : ∃ tasks,
    σ.tasks.processNext = some tasks ∧
      σ.next ts = (runTask σ.root ts wrapper.wrapperFunction data).map fun result =>
        { σ with
          tasks
          root := result.1
          data := fun i => if i = wrapper.data then none else σ.data i
          answered := σ.answered ++ result.2.toList.map (fun answer => (wrapper.data, answer)) } := by
  have hrun : σ.tasks.processing.isSome := by
    by_contra hidle
    rw [current, Option.not_isSome_iff_eq_none.mp hidle] at hc
    cases hc
  obtain ⟨tasks, ht⟩ := Option.isSome_iff_exists.mp (h.tasks.processNext_isSome hrun)
  refine ⟨tasks, ht, ?_⟩
  rw [next, ht, Option.bind_some, hc]
  dsimp only
  rw [hdata, Option.bind_some]

theorem LinkInv.roundAnswers_iff (h : σ.LinkInv) (ts : Option CString) : RoundAnswers σ ts ↔ Met σ (.next ts) := by
  constructor
  · intro hround wrapper data hc hdata
    obtain ⟨data', rest, hstored, -⟩ := h.stored_current hc
    obtain rfl := Option.some.inj (hstored.there.symm.trans hdata)
    obtain ⟨data'', τ, answer, hdata'', hstep, hans, htold⟩ := hround wrapper hc
    obtain rfl := Option.some.inj (hstored.there.symm.trans hdata'')
    obtain ⟨tasks, -, hnext⟩ := h.next_eq ts hc hdata
    obtain ⟨result, hresult, rfl⟩ := Option.map_eq_some_iff.mp (hnext.symm.trans hstep)
    rw [← runTask_iff hstored ts]
    have hanswer : result.2 = answer := by
      have hlist := List.append_cancel_left hans
      revert hlist
      cases result.2 <;> cases answer <;> simp
    exact ⟨result.1, result.2, hresult, hanswer ▸ htold⟩
  · intro hmet wrapper hc
    obtain ⟨data, rest, hstored, -⟩ := h.stored_current hc
    obtain ⟨tasks, -, hnext⟩ := h.next_eq ts hc hstored.there
    obtain ⟨root, answer, hrun, htold⟩ := (runTask_iff hstored ts).mpr (hmet wrapper data hc hstored.there)
    rw [hrun, Option.map_some] at hnext
    exact ⟨data, _, answer, hstored.there, hnext, by cases answer <;> rfl, htold⟩

/-- A round keeps the invariant, where its callback is told as it should be. -/
theorem LinkInv.next (h : σ.LinkInv) {ts : Option CString} (hmet : Met σ (.next ts)) (hs : σ.next ts = some σ') :
    σ'.LinkInv := by
  have hs' := hs
  obtain ⟨tasks, ht, hs⟩ := Option.bind_eq_some_iff.mp hs
  obtain ⟨hqueued, hcalls, hadded, haccepted, hcases⟩ := h.tasks.processNext_cases ht
  have htasks := h.tasks.processNext ht
  have hcallbacks : ∀ n ∈ σ.callbacks, n < tasks.calls := fun n hn => hcalls ▸ h.callbacks n hn
  have hacc : ∀ n, n ∈ tasks.accepted ↔ n ∈ σ.tasks.accepted := fun n => by rw [haccepted]
  cases hc : σ.current with
  | none =>
    rw [hc] at hs
    obtain rfl := Option.some.inj hs
    have hnil : σ.tasks.pending = [] := List.head?_eq_none_iff.mp (h.current_eq ▸ hc)
    obtain ⟨-, hpending, hran⟩ | ⟨wrapper, rest, hpending, -⟩ := hcases
    · refine ⟨htasks, fun wrapper hw => ?_, hcallbacks, ?_⟩
      · have hw' : wrapper ∈ tasks.pending ++ tasks.queued := hw
        rw [hpending, hqueued, ← hnil] at hw'
        exact (h.stored wrapper hw').imp fun data hstored => hstored.of_eq rfl Iff.rfl (hacc _)
      · show _ = tasks.ran.filter _
        rw [hran]
        exact h.answered
    · rw [hnil] at hpending
      cases hpending
  | some wrapper =>
    obtain ⟨data, rest, hstored, hwaiting⟩ := h.stored_current hc
    obtain ⟨root, answer, hrun, htold⟩ := (runTask_iff hstored ts).mpr (hmet wrapper data hc hstored.there)
    rw [hc] at hs
    dsimp only at hs
    rw [hstored.there, Option.bind_some, hrun, Option.map_some] at hs
    obtain rfl := Option.some.inj hs
    obtain ⟨hnil, -⟩ | ⟨wrapper', rest', hpending, hrest, hran⟩ := hcases
    · rw [hwaiting] at hnil
      cases hnil
    · obtain ⟨rfl, rfl⟩ := List.cons.inj (hpending.symm.trans hwaiting)
      have hnodup := h.tasks.waiting.1
      rw [hpending, List.cons_append, List.map_cons, List.nodup_cons] at hnodup
      refine ⟨htasks, fun other hw => ?_, hcallbacks, ?_⟩
      · have hw' : other ∈ tasks.pending ++ tasks.queued := hw
        rw [hrest, hqueued] at hw'
        have hne : other.data ≠ wrapper'.data := fun heq => hnodup.1 (heq ▸ List.mem_map_of_mem hw')
        obtain ⟨data', hstored'⟩ := h.stored other (by rw [hpending]; exact List.mem_cons_of_mem _ hw')
        exact ⟨data', hstored'.of_eq (if_neg hne) Iff.rfl (hacc _)⟩
      · show (σ.answered ++ _).map Prod.fst = tasks.ran.filter _
        rw [List.map_append, hran, List.filter_append, ← h.answered]
        congr 1
        unfold Told at htold
        split at htold
        · rename_i hcallback
          obtain ⟨a, rfl, -⟩ := htold
          simp [hstored.told.mp hcallback]
        · rename_i hcallback
          rw [htold]
          have hnone : wrapper'.data ∉ σ.callbacks := mt hstored.told.mpr hcallback
          simp [hnone]

theorem LinkInv.step (h : σ.LinkInv) {e : LinkEvent} (hmet : Met σ e) (hs : σ.step e = some σ') : σ'.LinkInv := by
  cases e with
  | call call memory sent => exact h.add hs
  | drain malloc mallocData =>
    obtain ⟨tasks, ht, rfl⟩ := Option.map_eq_some_iff.mp hs
    exact h.drain ht
  | next ts => exact h.next hmet hs
  | change root =>
    obtain rfl := Option.some.inj hs
    exact ⟨h.tasks, fun wrapper hw => (h.stored wrapper hw).imp fun data hstored =>
      hstored.of_eq rfl Iff.rfl Iff.rfl, h.callbacks, h.answered⟩

/-- The links that are reached from `dslink_init`, with any tree, by calls, drains and changes of the tree. -/
def Reached (ok : LinkState → LinkEvent → Prop) (σ : LinkState) : Prop :=
  Reach LinkState.step ok (fun τ => ∃ root, τ = init root) σ

variable {ok : LinkState → LinkEvent → Prop}

theorem reached_init (ok : LinkState → LinkEvent → Prop) (root : Option Node) : Reached ok (init root) :=
  .start ⟨root, rfl⟩

theorem Reached.step (h : Reached ok σ) (e : LinkEvent) (hok : ok σ e) (hs : σ.step e = some σ') : Reached ok σ' :=
  .next h hok hs

theorem Reached.inv (h : Reached Met σ) : σ.LinkInv := by
  refine Reach.invariant LinkInv ?_ (fun _ _ _ hi hmet hs => hi.step hmet hs) h
  rintro _ ⟨root, rfl⟩
  exact linkInv_init root

end LinkState

open LinkState

/-- **Answers.** In every run whose rounds meet `Met`, the calls that have been answered are those with a callback
    whose tasks have run, each once and in the order of the tasks; and a round tells its callback as it should exactly
    where it meets `Met`. -/
theorem async_answers_exact {σ : LinkState} (h : Reached Met σ) :
    (σ.answered.map Prod.fst = σ.tasks.ran.filter (· ∈ σ.callbacks) ∧ σ.tasks.ran.Nodup) ∧
      ∀ ts, RoundAnswers σ ts ↔ Met σ (.next ts) := by
  have hinv := h.inv
  refine ⟨⟨hinv.answered, ?_⟩, fun ts => hinv.roundAnswers_iff ts⟩
  have hnodup : σ.tasks.added.Nodup := hinv.tasks.increasing.imp (fun hlt => Nat.ne_of_lt hlt)
  exact hnodup.sublist hinv.tasks.ran_added.sublist

/-- A tree of one node with a value. -/
def oneNode : Node := .mk ⟨cstr "/", cstr "", cstr "", none, some (.integer 1), none, false, false⟩ []

/-- All allocations get their memory. -/
def enough : Memory := ⟨true, true, true, true⟩

theorem async_answers_exact_get : ∃ σ, Reached Met σ ∧ σ.tasks.ran = [0] ∧
    σ.answered.map Prod.fst = σ.tasks.ran.filter (· ∈ σ.callbacks) ∧ σ.answered.map Prod.fst = [0] := by
  have hcall := (reached_init Met (some oneNode)).step (.call (.nodeGetValueSafe (cstr "/") true) enough 0) trivial rfl
  have hdrain := hcall.step (.drain true true) trivial rfl
  have hnext := hdrain.step (.next none) ?_ rfl
  · refine ⟨_, hnext, rfl, (async_answers_exact hnext).1.1, rfl⟩
  · intro wrapper data hc hdata
    obtain rfl := Option.some.inj hc
    obtain rfl := Option.some.inj hdata
    exact ⟨by decide, fun _ => ⟨oneNode, cstr "/", oneNode, rfl, rfl, rfl⟩⟩

/-- A call whose callback is not called, because the link has no tree when the task runs, and one whose task looks at a
    node that is not there. -/
theorem get_unanswered :
    (∃ σ, Reached (fun _ _ => True) σ ∧ 0 ∈ σ.tasks.accepted ∧ 0 ∈ σ.callbacks ∧ 0 ∈ σ.tasks.ran ∧ σ.answered = []) ∧
    ∃ σ, Reached (fun _ _ => True) σ ∧ 0 ∈ σ.tasks.accepted ∧ 0 ∈ σ.callbacks ∧ σ.current.isSome ∧
      σ.step (.next none) = none := by
  constructor
  · have hcall := (reached_init (fun _ _ => True) none).step
      (.call (.nodeGetValueSafe (cstr "/x") true) enough 0) trivial rfl
    have hdrain := hcall.step (.drain true true) trivial rfl
    exact ⟨_, hdrain.step (.next none) trivial rfl, by decide, by decide, by decide, rfl⟩
  · have hcall := (reached_init (fun _ _ => True) (some oneNode)).step
      (.call (.nodeGetValueSafe (cstr "/x") true) enough 0) trivial rfl
    exact ⟨_, hcall.step (.drain true true) trivial rfl, by decide, by decide, rfl, rfl⟩

end DSLink.AsyncTasks
