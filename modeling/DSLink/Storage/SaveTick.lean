import DSLink.Broker.Json
import DSLink.Storage.Stored

/-!
# `Storage.SaveTick` — the counter that holds the save timer back

`store->waiting` of `sdk/src/storage/json_file.c`, with the queue operations `json_storage_push` and
`json_storage_pull` beside the events of `Storage.JsonFile`. The timer counts the saves it starts, and every `close`
counts one back, whoever started its save. Where a key has no value a save deletes the file and counts back at once,
also where a caller and not the timer asked for it.

## Contents
- `jsonStoragePush`, `jsonStoragePull`, `Op`, `stepOp`.
- `decrements`: the values that `store->waiting--` finds.
- `Counted`: nothing is deleted while the counter is 0. `save_tick_balanced`.
-/

namespace DSLink.Storage

/-! ## The queue operations -/

namespace World

/-- `root[keyA][keyB]`, made where it is missing. A new key that is not UTF-8 is refused and the new array freed, which
    the code goes on to use. -/
def levelB (env : Env Json) (level : AssocMap CString Json) (keyB : CString) : Option Json :=
  match level.get keyB with
  | some value => some value
  | none => if env.utf8Check keyB then some (.array []) else none

/-- Write `root[keyA][keyB]` and put the keys into `save_queue`. -/
def queued (w : World Json) (keyA keyB : CString) (level : AssocMap CString Json) : World Json :=
  { w with store := { w.store with
    root := w.store.root.set keyA level
    saveQueue := w.store.saveQueue.set (keyA ++ keyB) (keyA, keyB) } }

/-- `json_storage_store` up to its save. -/
def storeUpdate (env : Env Json) (w : World Json) (keyA keyB : CString) (value : Option Json) : Option (World Json) := do
  let level ← w.store.levelA env keyA
  some (w.queued keyA keyB (match value with
    | none => level.erase keyB
    | some value => level.set keyB value))

/-- `json_storage_push` up to its save. What is no array stays as it is. -/
def pushUpdate (env : Env Json) (w : World Json) (keyA keyB : CString) (value : Json) : Option (World Json) := do
  let level ← w.store.levelA env keyA
  let array ← levelB env level keyB
  some (w.queued keyA keyB (level.set keyB (match array with
    | .array elems => .array (value :: elems)
    | other => other)))

/-- `json_storage_push`. -/
def jsonStoragePush (env : Env Json) (w : World Json) (keyA keyB : CString) (value : Json) : Option (World Json) := do
  let w ← w.pushUpdate env keyA keyB value
  w.jsonStorageTriggerSave env keyA keyB

/-- `json_storage_pull` up to its save, with whether there is one. -/
def pullUpdate (env : Env Json) (w : World Json) (keyA keyB : CString) : Option (World Json × Bool) := do
  let level ← w.store.levelA env keyA
  let array ← levelB env level keyB
  match array with
  | .array (_ :: elems) => some (w.queued keyA keyB (level.set keyB (.array elems)), true)
  | other => some ({ w with store := { w.store with root := w.store.root.set keyA (level.set keyB other) } }, false)

/-- `json_storage_pull`. -/
def jsonStoragePull (env : Env Json) (w : World Json) (keyA keyB : CString) : Option (World Json) := do
  let (w, saves) ← w.pullUpdate env keyA keyB
  if saves then w.jsonStorageTriggerSave env keyA keyB else some w

theorem jsonStorageStore_eq (env : Env Json) (w : World Json) (keyA keyB : CString) (value : Option Json) :
    w.jsonStorageStore env keyA keyB value =
      (w.storeUpdate env keyA keyB value).bind (fun w => w.jsonStorageTriggerSave env keyA keyB) := by
  unfold jsonStorageStore storeUpdate
  cases w.store.levelA env keyA with
  | none => rfl
  | some level => cases value <;> rfl

end World

/-- The operations of the storage, and what the timer, the thread pool and the loop do. -/
inductive Op
  | event (e : Event Json)
  | push (keyA keyB : CString) (value : Json)
  | pull (keyA keyB : CString)

/-- One operation. -/
def stepOp (env : Env Json) (w : World Json) : Op → Option (World Json)
  | .event e => step env w e
  | .push keyA keyB value => w.jsonStoragePush env keyA keyB value
  | .pull keyA keyB => w.jsonStoragePull env keyA keyB

namespace World

/-! ## The counter -/

/-- What `store->waiting--` finds in one save. -/
def triggerDecrements (w : World Json) (keyA keyB : CString) : List Nat :=
  if w.store.value keyA keyB = none then [w.store.waiting] else []

/-- What it finds in the rounds of the loop over the queue. -/
def tickDecrements (env : Env Json) : World Json → List (CString × (CString × CString)) → List Nat
  | _, [] => []
  | w, entry :: rest =>
    w.triggerDecrements entry.2.1 entry.2.2 ++
      match saveAgain env w entry with
      | some w' => tickDecrements env w' rest
      | none => []

/-- What it finds in one operation. -/
def decrements (env : Env Json) (w : World Json) : Op → List Nat
  | .event (.store keyA keyB value) =>
    ((w.storeUpdate env keyA keyB value).map (fun w => w.triggerDecrements keyA keyB)).getD []
  | .push keyA keyB value =>
    ((w.pushUpdate env keyA keyB value).map (fun w => w.triggerDecrements keyA keyB)).getD []
  | .pull keyA keyB =>
    ((w.pullUpdate env keyA keyB).map (fun r => if r.2 then r.1.triggerDecrements keyA keyB else [])).getD []
  | .event .tick => if 0 < w.store.waiting then [] else tickDecrements env w w.store.saveQueue.entries
  | .event .request => []
  | .event .callback => []

/-- The file requests on their way. -/
def inFlight (w : World Json) : Nat := w.pending.length + w.completed.length

/-- How many of the entries have a value. -/
def valued (w : World Json) (entries : List (CString × (CString × CString))) : Nat :=
  entries.countP (fun e => (w.store.value e.2.1 e.2.2).isSome)

/-- In front of every entry without a value the loop has counted some that have one. -/
def CountedAhead (w : World Json) (entries : List (CString × (CString × CString))) : Prop :=
  ∀ before e after, entries = before ++ e :: after → w.store.value e.2.1 e.2.2 = none →
    w.valued before % 4294967296 ≠ 0

/-- The condition: a caller deletes a value only while the counter is not 0, and when the timer goes through the queue,
    entries with a value stand in front of those without one. -/
def Counted (w : World Json) : Op → Prop
  | .event (.store _ _ none) => 0 < w.store.waiting
  | .event .tick => 0 < w.store.waiting ∨ w.CountedAhead w.store.saveQueue.entries
  | _ => True

variable {env : Env Json} {w w' : World Json} {keyA keyB : CString}

/-- What a save does to the counter. -/
theorem trigger_counts (h : w.jsonStorageTriggerSave env keyA keyB = some w') :
    (w.store.value keyA keyB = none → w'.store.waiting = dec32 w.store.waiting ∧ w'.inFlight = w.inFlight) ∧
    (w.store.value keyA keyB ≠ none → w'.store.waiting = w.store.waiting ∧ w'.inFlight = w.inFlight + 1) := by
  rw [jsonStorageTriggerSave] at h
  obtain ⟨level, hlevel, h⟩ := Option.bind_eq_some_iff.mp h
  rw [← JsonStore.levelA_get hlevel keyB]
  dsimp only at h
  split at h
  · split at h
    · rename_i hb
      cases h
      exact ⟨fun _ => ⟨rfl, rfl⟩, fun hne => absurd hb hne⟩
    · rename_i v hb
      cases h
      refine ⟨fun hnone => absurd (hb.symm.trans hnone) (by simp), fun _ => ⟨rfl, ?_⟩⟩
      show (w.pending ++ [_]).length + w.completed.length = w.inFlight + 1
      rw [List.length_append, List.length_singleton, inFlight]
      omega
  · cases h

/-- Counting back and forth over a save without a file. -/
theorem inc32_dec32 {n : Nat} (hn : n < 4294967296) : inc32 (dec32 n) = n := by
  unfold inc32 dec32 sub32
  split <;> omega

theorem dec32_of_pos {n : Nat} (h : 0 < n) : dec32 n = n - 1 := by
  unfold dec32 sub32
  rw [if_pos (by omega)]

theorem inc32_le (n : Nat) : inc32 n ≤ n + 1 := Nat.mod_le _ _

theorem inc32_lt (n : Nat) : inc32 n < 4294967296 := Nat.mod_lt _ (by decide)

/-! ## What an operation leaves behind -/

theorem value_queued {level : AssocMap CString Json} (a b : CString) : (w.queued keyA keyB level).store.value a b =
    if a = keyA then level.get b else w.store.value a b := by
  show ((w.store.root.set keyA level).get a).bind _ = _
  rw [AssocMap.get_set]
  split <;> rfl

theorem storeUpdate_spec {value : Option Json} (h : w.storeUpdate env keyA keyB value = some w') :
    w'.store.waiting = w.store.waiting ∧ w'.inFlight = w.inFlight ∧ w'.store.value keyA keyB = value := by
  obtain ⟨level, hlevel, h⟩ := Option.bind_eq_some_iff.mp h
  cases h
  refine ⟨rfl, rfl, ?_⟩
  rw [value_queued, if_pos rfl]
  cases value with
  | none => rw [AssocMap.get_erase, if_pos rfl]
  | some value => rw [AssocMap.get_set, if_pos rfl]

theorem pushUpdate_spec {value : Json} (h : w.pushUpdate env keyA keyB value = some w') :
    w'.store.waiting = w.store.waiting ∧ w'.inFlight = w.inFlight ∧ w'.store.value keyA keyB ≠ none := by
  obtain ⟨level, hlevel, h⟩ := Option.bind_eq_some_iff.mp h
  obtain ⟨array, harray, h⟩ := Option.bind_eq_some_iff.mp h
  cases h
  refine ⟨rfl, rfl, ?_⟩
  rw [value_queued, if_pos rfl, AssocMap.get_set, if_pos rfl]
  exact Option.some_ne_none _

theorem pullUpdate_spec {saves : Bool} (h : w.pullUpdate env keyA keyB = some (w', saves)) :
    w'.store.waiting = w.store.waiting ∧ w'.inFlight = w.inFlight ∧
      (saves = true → w'.store.value keyA keyB ≠ none) := by
  obtain ⟨level, hlevel, h⟩ := Option.bind_eq_some_iff.mp h
  obtain ⟨array, harray, h⟩ := Option.bind_eq_some_iff.mp h
  split at h
  · cases h
    refine ⟨rfl, rfl, fun _ => ?_⟩
    rw [value_queued, if_pos rfl, AssocMap.get_set, if_pos rfl]
    exact Option.some_ne_none _
  · cases h
    exact ⟨rfl, rfl, fun hs => by cases hs⟩

theorem triggerDecrements_valued (hv : w.store.value keyA keyB ≠ none) : w.triggerDecrements keyA keyB = [] :=
  if_neg hv

/-! ## The loop over the queue -/

/-- What one round does to the values and to the counter. -/
theorem saveAgain_spec {entry : CString × (CString × CString)} (h : saveAgain env w entry = some w')
    (hn : w.store.waiting < 4294967296) :
    (∀ a b, w'.store.value a b = w.store.value a b) ∧
    (w.store.value entry.2.1 entry.2.2 = none → w'.store.waiting = w.store.waiting ∧ w'.inFlight = w.inFlight) ∧
    (w.store.value entry.2.1 entry.2.2 ≠ none →
      w'.store.waiting = inc32 w.store.waiting ∧ w'.inFlight = w.inFlight + 1) := by
  obtain ⟨w₁, htrigger, h⟩ := Option.bind_eq_some_iff.mp h
  cases h
  obtain ⟨hnone, hsome⟩ := trigger_counts htrigger
  refine ⟨(trigger_saves htrigger).1, fun hv => ?_, fun hv => ?_⟩
  · obtain ⟨hwaiting, hflight⟩ := hnone hv
    refine ⟨?_, hflight⟩
    show inc32 w₁.store.waiting = _
    rw [hwaiting, inc32_dec32 hn]
  · obtain ⟨hwaiting, hflight⟩ := hsome hv
    refine ⟨?_, hflight⟩
    show inc32 w₁.store.waiting = _
    rw [hwaiting]

theorem valued_congr (h : ∀ a b, w'.store.value a b = w.store.value a b)
    (entries : List (CString × (CString × CString))) : w'.valued entries = w.valued entries := by
  unfold valued
  simp only [h]

/-- The rounds: the counter never finds 0 exactly if, with what was counted before, every entry without a value has
    some counted one in front of it. -/
theorem tickDecrements_iff (entries : List (CString × (CString × CString))) (n : Nat)
    (hn : w.store.waiting = n % 4294967296) (h : entries.foldlM (saveAgain env) w = some w') :
    0 ∉ tickDecrements env w entries ↔ ∀ before e after, entries = before ++ e :: after →
      w.store.value e.2.1 e.2.2 = none → (n + w.valued before) % 4294967296 ≠ 0 := by
  induction entries generalizing w n with
  | nil => simp [tickDecrements]
  | cons entry rest ih =>
    rw [List.foldlM_cons] at h
    obtain ⟨w₁, hround, h⟩ := Option.bind_eq_some_iff.mp h
    obtain ⟨hvalues, hnone, hsome⟩ := saveAgain_spec hround (hn ▸ Nat.mod_lt n (by decide))
    simp only [tickDecrements, hround, List.mem_append, not_or]
    by_cases hv : w.store.value entry.2.1 entry.2.2 = none
    · have hrest := ih n ((hnone hv).1.trans hn) h
      have hadd : ∀ before, w.valued (entry :: before) = w.valued before := fun before => by
        simp [valued, hv]
      rw [hrest, triggerDecrements, if_pos hv, List.mem_singleton, hn]
      constructor
      · rintro ⟨hhead, htail⟩ before e after hsplit he
        cases before with
        | nil =>
          simpa [valued] using Ne.symm hhead
        | cons x before =>
          obtain ⟨rfl, hsplit'⟩ := List.cons.inj hsplit
          rw [hadd, ← valued_congr hvalues before]
          exact htail before e after hsplit' ((hvalues _ _).trans he)
      · intro hall
        refine ⟨fun h0 => hall [] entry rest rfl hv (by simpa [valued] using h0.symm), ?_⟩
        rintro before e after hsplit he
        rw [valued_congr hvalues, ← hadd]
        exact hall (entry :: before) e after (by rw [hsplit]; rfl) ((hvalues _ _).symm.trans he)
    · have hcount : w₁.store.waiting = (n + 1) % 4294967296 := by
        rw [(hsome hv).1, hn, inc32, Nat.mod_add_mod]
      have hrest := ih (n + 1) hcount h
      have hadd : ∀ before, n + w.valued (entry :: before) = n + 1 + w.valued before := fun before => by
        have : w.valued (entry :: before) = w.valued before + 1 := by
          simp [valued, Option.isSome_iff_ne_none, hv]
        omega
      rw [hrest, triggerDecrements_valued hv]
      constructor
      · rintro ⟨-, htail⟩ before e after hsplit he
        cases before with
        | nil =>
          obtain ⟨rfl, -⟩ := List.cons.inj hsplit
          exact absurd he hv
        | cons x before =>
          obtain ⟨rfl, hsplit'⟩ := List.cons.inj hsplit
          rw [hadd, ← valued_congr hvalues before]
          exact htail before e after hsplit' ((hvalues _ _).trans he)
      · intro hall
        refine ⟨by simp, ?_⟩
        rintro before e after hsplit he
        rw [valued_congr hvalues, ← hadd]
        exact hall (entry :: before) e after (by rw [hsplit]; rfl) ((hvalues _ _).symm.trans he)

/-! ## Every run -/

/-- What holds in every state: no more is counted than is on its way. -/
structure Below (w : World Json) : Prop where
  small : w.store.waiting < 4294967296
  below : w.store.waiting ≤ w.inFlight

theorem Below.congr (h : w.Below) (hwaiting : w'.store.waiting = w.store.waiting) (hflight : w'.inFlight = w.inFlight) :
    w'.Below := ⟨hwaiting ▸ h.small, by rw [hwaiting, hflight]; exact h.below⟩

/-- A save of a caller, if nothing is deleted while the counter is 0. -/
theorem Below.trigger (h : w.Below) (hs : w.jsonStorageTriggerSave env keyA keyB = some w')
    (hc : w.store.value keyA keyB = none → 0 < w.store.waiting) : w'.Below := by
  obtain ⟨hnone, hsome⟩ := trigger_counts hs
  have hsmall := h.small
  have hbelow := h.below
  by_cases hv : w.store.value keyA keyB = none
  · obtain ⟨hwaiting, hflight⟩ := hnone hv
    rw [dec32_of_pos (hc hv)] at hwaiting
    exact ⟨by omega, by omega⟩
  · obtain ⟨hwaiting, hflight⟩ := hsome hv
    exact ⟨by omega, by omega⟩

theorem Below.round (h : w.Below) {entry : CString × (CString × CString)} (hs : saveAgain env w entry = some w') :
    w'.Below := by
  obtain ⟨-, hnone, hsome⟩ := saveAgain_spec hs h.small
  by_cases hv : w.store.value entry.2.1 entry.2.2 = none
  · exact h.congr (hnone hv).1 (hnone hv).2
  · obtain ⟨hwaiting, hflight⟩ := hsome hv
    have hle := inc32_le w.store.waiting
    have hbelow := h.below
    exact ⟨hwaiting ▸ inc32_lt _, by omega⟩

theorem Below.tick (h : w.Below) (hs : w.jsonStorageHandleSaveTick env = some w') : w'.Below := by
  unfold jsonStorageHandleSaveTick at hs
  split at hs
  · cases hs
    exact h
  · obtain ⟨w₁, hloop, hs⟩ := Option.bind_eq_some_iff.mp hs
    cases hs
    exact (foldlM_invariant Below (fun _ _ _ _ hb hr => hb.round hr) hloop h).congr rfl rfl

theorem Below.callback (h : w.Below) {done : FsReq × Nat} {completed : List (FsReq × Nat)}
    (hc : w.completed = done :: completed) : (runCallback { w with completed := completed } done).Below := by
  have hsmall := h.small
  have hbelow := h.below
  obtain ⟨req, result⟩ := done
  have hlen : w.completed.length = completed.length + 1 := by rw [hc]; rfl
  unfold inFlight at hbelow
  cases req with
  | closeFile fd data =>
    show (if 0 < w.store.waiting then _ else _ : World Json).Below
    split
    · exact ⟨(by show w.store.waiting - 1 < _; omega),
        (by show w.store.waiting - 1 ≤ w.pending.length + completed.length; omega)⟩
    · exact ⟨hsmall, (by show w.store.waiting ≤ w.pending.length + completed.length; omega)⟩
  | _ =>
    refine ⟨hsmall, ?_⟩
    show w.store.waiting ≤ (w.pending ++ [_]).length + completed.length
    rw [List.length_append, List.length_singleton]
    omega

theorem Below.request (h : w.Below) {req : FsReq} {pending : List FsReq} (hp : w.pending = req :: pending) :
    (runRequest env { w with pending := pending } req).Below := by
  have hlen : w.pending.length = pending.length + 1 := by rw [hp]; rfl
  have hbelow := h.below
  unfold inFlight at hbelow
  cases req with
  | _ =>
    refine ⟨h.small, ?_⟩
    show w.store.waiting ≤ pending.length + (w.completed ++ [_]).length
    rw [List.length_append, List.length_singleton]
    omega

/-- One operation. -/
theorem Below.step (h : w.Below) {op : Op} (hc : w.Counted op) (hs : stepOp env w op = some w') : w'.Below := by
  cases op with
  | event e =>
    cases e with
    | store keyA keyB value =>
      rw [stepOp, Storage.step, jsonStorageStore_eq] at hs
      obtain ⟨w₁, hupdate, hs⟩ := Option.bind_eq_some_iff.mp hs
      obtain ⟨hwaiting, hflight, hvalue⟩ := storeUpdate_spec hupdate
      refine (h.congr hwaiting hflight).trigger hs (fun hnone => ?_)
      obtain rfl : value = none := hvalue.symm.trans hnone
      rw [hwaiting]
      exact hc
    | tick =>
      simp only [stepOp, Storage.step] at hs
      split at hs
      · exact h.tick hs
      · cases hs
    | request =>
      simp only [stepOp, Storage.step] at hs
      split at hs
      · cases hs
      · rename_i req pending hp
        cases hs
        exact h.request hp
    | callback =>
      simp only [stepOp, Storage.step] at hs
      split at hs
      · cases hs
      · rename_i done completed hcomp
        cases hs
        exact h.callback hcomp
  | push keyA keyB value =>
    obtain ⟨w₁, hupdate, hs⟩ := Option.bind_eq_some_iff.mp hs
    obtain ⟨hwaiting, hflight, hvalue⟩ := pushUpdate_spec hupdate
    exact (h.congr hwaiting hflight).trigger hs (fun hnone => absurd hnone hvalue)
  | pull keyA keyB =>
    obtain ⟨⟨w₁, saves⟩, hupdate, hs⟩ := Option.bind_eq_some_iff.mp hs
    obtain ⟨hwaiting, hflight, hvalue⟩ := pullUpdate_spec hupdate
    dsimp only at hs
    split at hs
    · rename_i hsaves
      exact (h.congr hwaiting hflight).trigger hs (fun hnone => absurd hnone (hvalue hsaves))
    · cases hs
      exact h.congr hwaiting hflight

/-- The counter finds no 0 in an operation exactly if the condition holds. -/
theorem counted_iff {op : Op} (hs : stepOp env w op = some w') : w.Counted op ↔ 0 ∉ w.decrements env op := by
  cases op with
  | event e =>
    cases e with
    | store keyA keyB value =>
      rw [stepOp, Storage.step, jsonStorageStore_eq] at hs
      obtain ⟨w₁, hupdate, hs⟩ := Option.bind_eq_some_iff.mp hs
      obtain ⟨hwaiting, -, hvalue⟩ := storeUpdate_spec hupdate
      simp only [decrements, hupdate, Option.map_some, Option.getD_some, triggerDecrements, hvalue, hwaiting]
      cases value with
      | none =>
        show 0 < w.store.waiting ↔ 0 ∉ [w.store.waiting]
        rw [List.mem_singleton, Nat.pos_iff_ne_zero, eq_comm]
      | some value => simp [Counted]
    | tick =>
      simp only [stepOp, Storage.step] at hs
      split at hs
      · show 0 < w.store.waiting ∨ _ ↔ 0 ∉ (if 0 < w.store.waiting then [] else _)
        unfold jsonStorageHandleSaveTick at hs
        by_cases hw : 0 < w.store.waiting
        · simp [hw]
        · rw [if_neg hw] at hs ⊢
          obtain ⟨w₁, hloop, -⟩ := Option.bind_eq_some_iff.mp hs
          rw [tickDecrements_iff _ 0 (by omega) hloop]
          simp only [hw, false_or, CountedAhead, Nat.zero_add]
      · cases hs
    | request => simp [Counted, decrements]
    | callback => simp [Counted, decrements]
  | push keyA keyB value =>
    obtain ⟨w₁, hupdate, -⟩ := Option.bind_eq_some_iff.mp hs
    obtain ⟨-, -, hvalue⟩ := pushUpdate_spec hupdate
    simp [Counted, decrements, hupdate, triggerDecrements_valued hvalue]
  | pull keyA keyB =>
    obtain ⟨⟨w₁, saves⟩, hupdate, -⟩ := Option.bind_eq_some_iff.mp hs
    obtain ⟨-, -, hvalue⟩ := pullUpdate_spec hupdate
    cases saves with
    | false => simp [Counted, decrements, hupdate]
    | true => simp [Counted, decrements, hupdate, triggerDecrements_valued (hvalue rfl)]

/-- With nothing on its way the counter is 0, and the timer empties the queue when it fires next. -/
structure Drains (env : Env Json) (w : World Json) : Prop where
  zero : w.pending = [] → w.completed = [] → w.store.waiting = 0
  tick : ∀ w', w.pending = [] → w.completed = [] → stepOp env w (.event .tick) = some w' →
    w'.store.saveQueue = .empty

theorem Below.drains (h : w.Below) : w.Drains env := by
  have hzero : w.pending = [] → w.completed = [] → w.store.waiting = 0 := by
    intro hp hc
    have hbelow := h.below
    simp only [inFlight, hp, hc, List.length_nil] at hbelow
    omega
  refine ⟨hzero, fun w' hp hc hs => ?_⟩
  simp only [stepOp, Storage.step] at hs
  split at hs
  · rw [jsonStorageHandleSaveTick, if_neg (by rw [hzero hp hc]; omega)] at hs
    obtain ⟨w₁, -, hs⟩ := Option.bind_eq_some_iff.mp hs
    cases hs
    rfl
  · cases hs

/-- The store as it is made, with the values that were loaded. -/
structure Fresh (w : World Json) : Prop where
  waiting : w.store.waiting = 0
  queue : w.store.saveQueue = .empty
  timer : w.store.timerSetup = false
  idle : w.pending = [] ∧ w.completed = []

/-- **The save tick.** In every run in which nothing is deleted while nothing is counted, the counter is 0 in each
    state with no file request on its way, and then the next tick empties the queue; and in each state the operations
    that would take the counter below zero are those that the condition excludes. -/
theorem save_tick_balanced (env : Env Json) (w : World Json) (hreach : Reach (stepOp env) Counted Fresh w) :
    w.Drains env ∧ ∀ op w', stepOp env w op = some w' → (w.Counted op ↔ 0 ∉ w.decrements env op) := by
  refine ⟨Below.drains ?_, fun op w' hs => counted_iff hs⟩
  refine hreach.invariant Below ?_ (fun _ _ _ h hc hs => h.step hc hs)
  intro w hw
  exact ⟨by rw [hw.waiting]; decide, by rw [hw.waiting]; exact Nat.zero_le _⟩

/-- JSON null and strings of plain letters, and paths without links or dots. -/
def plainEnv : Env Json where
  jsonDumps json :=
    match json with
    | .string text => 34 :: text ++ [34]
    | _ => cstr "null"
  utf8Check key := key.all (fun c => c < 128)
  resolve := id

def freshWorld : World Json where
  store := ⟨cstr "storage", .empty, .empty, false, 0⟩
  disk := ⟨fun _ => none, fun _ => [], 0⟩
  pending := []
  completed := []
  longer := fun _ => false
  early := fun _ => false

theorem freshWorld_fresh : freshWorld.Fresh := ⟨rfl, rfl, rfl, rfl, rfl⟩

/-- A value is stored and its file is written. -/
theorem save_tick_balanced_store : ∃ w : World Json, w.pending = [] ∧ w.completed = [] ∧
    (w.store.value (cstr "a") (cstr "b")).isSome ∧ w.Drains plainEnv := by
  have heval : (runFrom (stepOp plainEnv) freshWorld (.event (.store (cstr "a") (cstr "b") (some .null)) ::
      (List.replicate 4 [Op.event .request, .event .callback]).flatten)).any
      (fun w => w.pending.isEmpty && (w.completed.isEmpty && (w.store.value (cstr "a") (cstr "b")).isSome)) = true := by
    decide
  obtain ⟨w, hrun, hcheck⟩ := (Option.any_eq_true _ _).mp heval
  simp only [Bool.and_eq_true, List.isEmpty_iff] at hcheck
  have hreach : Reach (stepOp plainEnv) Counted Fresh w := by
    refine .of_run (.start freshWorld_fresh) ?_ hrun
    simp [RunOk, Counted]
  exact ⟨w, hcheck.1, hcheck.2.1, hcheck.2.2, (save_tick_balanced plainEnv w hreach).1⟩

/-- A value is deleted while nothing is on its way: the counter wraps, and the timer saves nothing any more. -/
theorem save_tick_stuck : ∃ w : World Json, Reach (stepOp plainEnv) (fun _ _ => True) Fresh w ∧
    w.pending = [] ∧ w.completed = [] ∧ w.store.waiting = 4294967295 ∧ ¬w.Drains plainEnv := by
  have heval : (runFrom (stepOp plainEnv) freshWorld [.event (.store (cstr "a") (cstr "b") none)]).any
      (fun w => w.pending.isEmpty && (w.completed.isEmpty && decide (w.store.waiting = 4294967295))) = true := by
    decide
  obtain ⟨w, hrun, hcheck⟩ := (Option.any_eq_true _ _).mp heval
  simp only [Bool.and_eq_true, List.isEmpty_iff, decide_eq_true_eq] at hcheck
  obtain ⟨hpending, hcompleted, hwaiting⟩ := hcheck
  refine ⟨w, ?_, hpending, hcompleted, hwaiting, fun h => ?_⟩
  · refine .of_run (.start freshWorld_fresh) ?_ hrun
    simp [RunOk]
  · have := h.zero hpending hcompleted
    omega

end World

end DSLink.Storage
