import DSLink.Storage.JsonFile
import Mathlib.Data.Set.Function

/-!
# `Storage.Stored` — what is in the files when no request is under way

The chains of file requests are the saves of `Lib.Saves`: every event of the storage asks for saves, opens or writes
the next one, unlinks, or does nothing that shows there.

## Contents
- `World.saves`: the world as saves.
- `trigger_saves`, `runRequest_saves`, `runCallback_saves`: what the code does to it.
- `Kept`: what holds in every state. `stored_files`.
-/

namespace DSLink.Storage

variable {J : Type} {env : Env J} {w w' : World J} {want : CString → Option CString}

/-- The file of a pair of keys. -/
def Env.file (env : Env J) (path : CString) (keys : CString × CString) : CString :=
  env.resolve (savePath path keys.1 keys.2)

namespace World

/-- The world as saves, when `want` was asked for last. -/
def saves (env : Env J) (w : World J) (want : CString → Option CString) : Saves CString UInt8 where
  disk := w.disk
  opens := w.opensAhead env
  writes := w.writesAhead
  want := want
  longer := w.longer
  early := w.early

/-! ## The thread pool and the callbacks -/

theorem runCallback_saves {done : FsReq × Nat} {completed : List (FsReq × Nat)} (hc : w.completed = done :: completed)
    (want : CString → Option CString) :
    (runCallback { w with completed := completed } done).saves env want = w.saves env want := by
  obtain ⟨req, result⟩ := done
  cases req with
  | mkdir data =>
    simp [runCallback, saves, opensAhead, writesAhead, hc, List.filterMap_cons, FsReq.toOpen, FsReq.made, FsReq.toWrite,
      FsReq.opened]
  | openFile data =>
    simp [runCallback, saves, opensAhead, writesAhead, hc, List.filterMap_cons, FsReq.toOpen, FsReq.made, FsReq.toWrite,
      FsReq.opened]
  | writeFile fd data =>
    simp [runCallback, saves, opensAhead, writesAhead, hc, List.filterMap_cons, FsReq.toOpen, FsReq.made, FsReq.toWrite,
      FsReq.opened]
  | closeFile fd data =>
    show (if 0 < w.store.waiting then _ else _ : World J).saves env want = _
    split <;> simp [saves, opensAhead, writesAhead, hc, FsReq.made, FsReq.opened]

/-- A callback changes no more of the store than `waiting`. -/
theorem runCallback_store (w : World J) (done : FsReq × Nat) :
    ∃ n, (runCallback w done).store = { w.store with waiting := n } := by
  obtain ⟨req, result⟩ := done
  cases req with
  | closeFile fd data =>
    unfold runCallback
    dsimp only
    split
    · exact ⟨_, rfl⟩
    · exact ⟨_, rfl⟩
  | _ => exact ⟨_, rfl⟩

/-- A request that runs opens or writes the next save, or does nothing that shows. -/
theorem runRequest_saves {req : FsReq} {pending : List FsReq} (hp : w.pending = req :: pending)
    (want : CString → Option CString) :
    (runRequest env { w with pending := pending } req).saves env want = w.saves env want ∨
      ∃ op, (w.saves env want).step op = some ((runRequest env { w with pending := pending } req).saves env want) := by
  cases req with
  | mkdir data =>
    refine .inl ?_
    simp [runRequest, saves, opensAhead, writesAhead, hp, List.filterMap_cons, FsReq.toOpen, FsReq.made, FsReq.toWrite,
      FsReq.opened]
  | openFile data =>
    refine .inr ⟨.openNext, ?_⟩
    simp [runRequest, saves, opensAhead, writesAhead, hp, List.filterMap_cons, FsReq.toOpen, FsReq.made, FsReq.toWrite,
      FsReq.opened,
      Saves.step, Saves.openNext]
  | writeFile fd data =>
    refine .inr ⟨.writeNext, ?_⟩
    simp [runRequest, saves, opensAhead, writesAhead, hp, List.filterMap_cons, FsReq.toOpen, FsReq.made, FsReq.toWrite,
      FsReq.opened,
      Saves.step, Saves.writeNext]
  | closeFile fd data =>
    refine .inl ?_
    simp [runRequest, saves, opensAhead, writesAhead, hp, List.filterMap_cons, FsReq.toOpen, FsReq.made, FsReq.toWrite,
      FsReq.opened]

end World

/-! ## A save -/

theorem JsonStore.levelA_get {s : JsonStore J} {keyA : CString} {level : AssocMap CString J}
    (h : s.levelA env keyA = some level) (keyB : CString) : level.get keyB = s.value keyA keyB := by
  unfold levelA at h
  unfold value
  split at h
  · rename_i level' hlevel
    cases h
    rw [hlevel]
    rfl
  · rename_i hnone
    split at h
    · cases h
      rw [hnone]
      rfl
    · cases h

/-- What a save does: nothing to the values, and one save or one unlink. -/
theorem World.trigger_saves {keyA keyB : CString} (h : w.jsonStorageTriggerSave env keyA keyB = some w') :
    (∀ a b, w'.store.value a b = w.store.value a b) ∧ w'.store.path = w.store.path ∧
      w'.store.saveQueue = w.store.saveQueue ∧ ∀ want, ∃ op, (w.saves env want).step op = some (w'.saves env
        (Function.update want (env.file w.store.path (keyA, keyB)) ((w.store.value keyA keyB).map env.jsonDumps))) := by
  rw [jsonStorageTriggerSave] at h
  obtain ⟨level, hlevel, h⟩ := Option.bind_eq_some_iff.mp h
  have hvalue := JsonStore.levelA_get hlevel
  have hroot : ∀ a b, ((w.store.root.set keyA level).get a).bind (fun level => level.get b) = w.store.value a b := by
    intro a b
    rw [AssocMap.get_set]
    split
    · rename_i ha
      rw [ha, ← hvalue b]
      rfl
    · rfl
  dsimp only at h
  split at h
  · split at h
    · rename_i hb
      cases h
      refine ⟨hroot, rfl, rfl, fun want => ⟨.unlink (env.file w.store.path (keyA, keyB)), ?_⟩⟩
      rw [← hvalue keyB, hb]
      rfl
    · rename_i v hb
      cases h
      refine ⟨hroot, rfl, rfl, fun want => ⟨.save (env.file w.store.path (keyA, keyB)) (env.jsonDumps v), ?_⟩⟩
      rw [← hvalue keyB, hb]
      simp [Saves.step, Saves.save, World.saves, opensAhead, writesAhead, FsReq.toOpen, FsReq.made, FsReq.toWrite,
        Env.file]
  · cases h

/-! ## Every run -/

/-- What holds in every state, with what was wanted last for each file. -/
structure Kept (env : Env J) (path : CString) (keys : Set (CString × CString)) (w : World J)
    (want : CString → Option CString) : Prop where
  inv : (w.saves env want).Inv
  storePath : w.store.path = path
  queued : ∀ e ∈ w.store.saveQueue.entries, e.2 ∈ keys
  wanted : ∀ p ∈ keys, want (env.file path p) = (w.store.value p.1 p.2).map env.jsonDumps

variable {path : CString} {keys : Set (CString × CString)}

theorem Kept.trigger (h : Kept env path keys w want) {keyA keyB : CString}
    (hs : w.jsonStorageTriggerSave env keyA keyB = some w') (hkeys : (keyA, keyB) ∈ keys) :
    Kept env path keys w' want := by
  obtain ⟨hvalue, hpath, hqueue, hsaves⟩ := World.trigger_saves hs
  obtain ⟨op, hop⟩ := hsaves want
  have hsame : Function.update want (env.file w.store.path (keyA, keyB))
      ((w.store.value keyA keyB).map env.jsonDumps) = want := by
    rw [h.storePath, ← h.wanted _ hkeys, Function.update_eq_self]
  rw [hsame] at hop
  refine ⟨h.inv.step hop, hpath.trans h.storePath, by rw [hqueue]; exact h.queued, fun p hp => ?_⟩
  rw [hvalue]
  exact h.wanted p hp

/-- A value of one pair of keys changes. -/
theorem Kept.store (h : Kept env path keys w want) (hinj : Set.InjOn (env.file path) keys) {keyA keyB : CString}
    {value : Option J} (hs : w.jsonStorageStore env keyA keyB value = some w') (hkeys : (keyA, keyB) ∈ keys) :
    ∃ want', Kept env path keys w' want' := by
  rw [World.jsonStorageStore] at hs
  obtain ⟨level, hlevel, hs⟩ := Option.bind_eq_some_iff.mp hs
  have hget := JsonStore.levelA_get hlevel
  obtain ⟨hvalue, hpath, hqueue, hsaves⟩ := World.trigger_saves hs
  -- the value of each pair when the save is asked for
  have hroot : ∀ p : CString × CString, w'.store.value p.1 p.2 =
      if p = (keyA, keyB) then value else w.store.value p.1 p.2 := by
    rintro ⟨a, b⟩
    rw [hvalue]
    show (AssocMap.get (w.store.root.set keyA _) a).bind (fun level : AssocMap CString J => level.get b) = _
    rw [AssocMap.get_set]
    by_cases ha : a = keyA
    · subst ha
      rw [if_pos rfl, Option.bind_some]
      cases value with
      | none =>
        dsimp only
        rw [AssocMap.get_erase, hget]
        simp
      | some v =>
        dsimp only
        rw [AssocMap.get_set, hget]
        simp
    · rw [if_neg ha, if_neg (fun h => ha (Prod.mk.inj h).1)]
      rfl
  obtain ⟨op, hop⟩ := hsaves want
  refine ⟨_, h.inv.step hop, hpath.trans h.storePath, fun e he => ?_, fun p hp => ?_⟩
  · rw [hqueue] at he
    have hmem := AssocMap.mem_entries.mp he
    rw [AssocMap.get_set] at hmem
    split at hmem
    · rw [← Option.some.inj hmem]
      exact hkeys
    · exact h.queued e (AssocMap.mem_entries.mpr hmem)
  · have hpathEq : w.store.path = path := h.storePath
    rw [← hvalue, hroot (keyA, keyB), if_pos rfl, hroot p, Function.update_apply]
    show (if env.file path p = env.file w.store.path (keyA, keyB) then _ else _) = _
    rw [hpathEq]
    by_cases hpk : p = (keyA, keyB)
    · rw [hpk, if_pos rfl, if_pos rfl]
    · rw [if_neg hpk, if_neg (fun heq => hpk (hinj hp hkeys heq))]
      exact h.wanted p hp

theorem Kept.tick (h : Kept env path keys w want) (hs : w.jsonStorageHandleSaveTick env = some w') :
    Kept env path keys w' want := by
  unfold World.jsonStorageHandleSaveTick at hs
  split at hs
  · cases hs
    exact h
  · obtain ⟨t, ht, hs⟩ := Option.bind_eq_some_iff.mp hs
    cases hs
    have hkept : Kept env path keys t want := by
      refine foldlM_invariant (fun t => Kept env path keys t want) ?_ ht h
      intro u e he u' hu hround
      rw [World.saveAgain] at hround
      obtain ⟨u1, hu1, hround⟩ := Option.bind_eq_some_iff.mp hround
      cases hround
      have hu1 := hu.trigger hu1 (h.queued e he)
      exact ⟨hu1.inv, hu1.storePath, hu1.queued, hu1.wanted⟩
    refine ⟨hkept.inv, hkept.storePath, ?_, hkept.wanted⟩
    rintro e ⟨⟩

/-- The event uses keys of the set only. -/
def Event.Uses (keys : Set (CString × CString)) : Event J → Prop
  | .store keyA keyB _ => (keyA, keyB) ∈ keys
  | _ => True

/-- One event. -/
theorem Kept.step (h : Kept env path keys w want) (hinj : Set.InjOn (env.file path) keys) {e : Event J}
    (he : e.Uses keys) (hs : step env w e = some w') : ∃ want', Kept env path keys w' want' := by
  cases e with
  | store keyA keyB value => exact h.store hinj hs he
  | tick =>
    rw [Storage.step] at hs
    split at hs
    · exact ⟨want, h.tick hs⟩
    · cases hs
  | request =>
    rw [Storage.step] at hs
    split at hs
    · cases hs
    · rename_i req pending hp
      cases hs
      have hstore : (World.runRequest env { w with pending := pending } req).store = w.store := by
        cases req <;> rfl
      refine ⟨want, ?_, by rw [hstore]; exact h.storePath, by rw [hstore]; exact h.queued, by
        rw [hstore]; exact h.wanted⟩
      rcases (World.runRequest_saves hp want : _ ∨ ∃ op, (World.saves env _ _).step op = _) with heq | ⟨op, hop⟩
      · rw [heq]
        exact h.inv
      · exact h.inv.step hop
  | callback =>
    rw [Storage.step] at hs
    split at hs
    · cases hs
    · rename_i done completed hc
      cases hs
      obtain ⟨n, hstore⟩ : ∃ n, (World.runCallback { w with completed := completed } done).store =
          { w.store with waiting := n } := World.runCallback_store _ done
      refine ⟨want, ?_, by rw [hstore]; exact h.storePath, by rw [hstore]; exact h.queued, by
        rw [hstore]; exact h.wanted⟩
      rw [World.runCallback_saves hc want]
      exact h.inv

/-- A store without file requests whose files have the values of the keys. -/
structure Start (env : Env J) (path : CString) (keys : Set (CString × CString)) (w : World J) : Prop where
  storePath : w.store.path = path
  queue : w.store.saveQueue = .empty
  idle : w.pending = [] ∧ w.completed = []
  below : ∀ f i, w.disk.files f = some i → i < w.disk.nextInode
  apart : ∀ f g i, w.disk.files f = some i → w.disk.files g = some i → f = g
  past : ∀ f, w.longer f = false ∧ w.early f = false
  files : ∀ p ∈ keys, w.disk.read (env.file path p) = (w.store.value p.1 p.2).map env.jsonDumps

theorem Start.kept (h : Start env path keys w) : Kept env path keys w w.disk.read := by
  refine ⟨⟨h.below, ?_, h.apart, ?_, ?_⟩, h.storePath, ?_, h.files⟩
  · simp [World.saves, World.writesAhead, h.idle]
  · intro f t hf
    obtain ⟨i, hi, rfl⟩ := Option.map_eq_some_iff.mp hf
    refine .inr ⟨by simp [World.saves, World.opensAhead, Saves.toOpen, h.idle], i, hi, ?_⟩
    simp [World.saves, World.writesAhead, Saves.finalContent, Saves.toWrite, h.idle, (h.past f).1]
  · intro f hf
    simp [World.saves, World.opensAhead, Saves.unopened, h.idle, (h.past f).2, Option.map_eq_none_iff.mp hf]
  · rw [h.queue]
    rintro e ⟨⟩

/-- No save got in the way of the last save of a value, or of the last unlink. -/
def World.Clean (env : Env J) (w : World J) (p : CString × CString) : Prop :=
  if (w.store.value p.1 p.2).isSome then w.longer (env.file w.store.path p) = false
  else w.early (env.file w.store.path p) = false

/-- When no file request is under way, the file of a pair of keys has the stored value exactly when no save got in the
    way of the last one, or of the last unlink. -/
theorem stored_files (env : Env J) (path : CString) (keys : Set (CString × CString))
    (hinj : Set.InjOn (env.file path) keys) (w : World J)
    (h : Reach (step env) (fun _ e => e.Uses keys) (Start env path keys) w)
    (hidle : w.pending = [] ∧ w.completed = []) (p : CString × CString) (hp : p ∈ keys) :
    w.disk.read (env.file path p) = (w.store.value p.1 p.2).map env.jsonDumps ↔ w.Clean env p := by
  obtain ⟨want, hkept⟩ := Reach.invariant (fun w => ∃ want, Kept env path keys w want)
    (fun w hw => ⟨_, Start.kept hw⟩)
    (by
      rintro w e w' ⟨want, hkept⟩ he hs
      exact hkept.step hinj he hs) h
  have hsettled := hkept.inv.settled ⟨by simp [World.saves, World.opensAhead, hidle],
    by simp [World.saves, World.writesAhead, hidle]⟩ (env.file path p)
  rw [← hkept.wanted p hp]
  refine hsettled.trans ?_
  rw [Saves.Clean, World.Clean, hkept.storePath]
  show (if (want _).isSome then _ else _) ↔ _
  rw [hkept.wanted p hp, Option.isSome_map]
  rfl

/-- JSON strings of plain letters, and paths without links or dots. -/
def textEnv : Env CString where
  jsonDumps text := 34 :: text ++ [34]
  utf8Check key := key.all (fun c => c < 128)
  resolve := id

def emptyWorld : World CString where
  store := ⟨cstr "storage", .empty, .empty, false, 0⟩
  disk := ⟨fun _ => none, fun _ => [], 0⟩
  pending := []
  completed := []
  longer := fun _ => false
  early := fun _ => false

theorem emptyWorld_start (keys : Set (CString × CString)) : Start textEnv (cstr "storage") keys emptyWorld where
  storePath := rfl
  queue := rfl
  idle := ⟨rfl, rfl⟩
  below := by
    rintro f i ⟨⟩
  apart := by
    rintro f g i ⟨⟩
  past f := ⟨rfl, rfl⟩
  files p hp := rfl

/-- The four requests of one chain. -/
def chain : List (Event CString) := (List.replicate 4 [.request, .callback]).flatten

theorem stored_files_store : ∃ w : World CString, w.store.value (cstr "a") (cstr "b") = some (cstr "x") ∧
    w.disk.read (textEnv.file (cstr "storage") (cstr "a", cstr "b")) = some (cstr "\"x\"") := by
  have heval : (runFrom (step textEnv) emptyWorld (.store (cstr "a") (cstr "b") (some (cstr "x")) :: chain)).any
      (fun w => decide (w.pending.isEmpty = true ∧ w.completed.isEmpty = true ∧ w.store.path = cstr "storage" ∧
        w.store.value (cstr "a") (cstr "b") = some (cstr "x") ∧ w.longer (cstr "storage/a/b") = false)) = true := by
    decide
  obtain ⟨w, hrun, hcheck⟩ := (Option.any_eq_true _ _).mp heval
  obtain ⟨hpending, hcompleted, hpath, hvalue, hlonger⟩ := of_decide_eq_true hcheck
  let keys : Set (CString × CString) := {(cstr "a", cstr "b")}
  have hok : RunOk (step textEnv) (fun _ e => e.Uses keys) emptyWorld
      (.store (cstr "a") (cstr "b") (some (cstr "x")) :: chain) := by
    apply RunOk.of_forall (p := Event.Uses keys)
    intro e he
    rcases List.mem_cons.mp he with rfl | he
    · exact Set.mem_singleton _
    · have hchain : ∀ e ∈ chain, e.Uses keys := by simp [chain, Event.Uses]
      exact hchain e he
  have hreach := Reach.of_run (.start (emptyWorld_start keys)) hok hrun
  have hfile := stored_files textEnv (cstr "storage") keys (Set.injOn_singleton _ _) w hreach
    ⟨List.isEmpty_iff.mp hpending, List.isEmpty_iff.mp hcompleted⟩ (cstr "a", cstr "b") (Set.mem_singleton _)
  have hclean : w.Clean textEnv (cstr "a", cstr "b") := by
    rw [World.Clean, hvalue, hpath]
    exact hlonger
  refine ⟨w, hvalue, (hfile.mpr hclean).trans ?_⟩
  rw [hvalue]
  decide

/-- A value is stored, saved again by the timer and deleted before its file is opened, and the timer fires again: the
    file comes back. -/
theorem stored_file_comes_back : ∃ w : World CString,
    Reach (step textEnv) (fun _ _ => True) (Start textEnv (cstr "storage") Set.univ) w ∧
      w.pending = [] ∧ w.completed = [] ∧ w.store.saveQueue.entries = [] ∧
      w.store.value (cstr "a") (cstr "b") = none ∧
      w.disk.read (textEnv.file (cstr "storage") (cstr "a", cstr "b")) = some (cstr "\"x\"") := by
  have heval : (runFrom (step textEnv) emptyWorld
      ([.store (cstr "a") (cstr "b") (some (cstr "x")), .tick, .store (cstr "a") (cstr "b") none, .tick] ++
        chain ++ chain)).any (fun w => decide (w.pending.isEmpty = true ∧ w.completed.isEmpty = true ∧
          w.store.saveQueue.entries.isEmpty = true ∧ w.store.value (cstr "a") (cstr "b") = none ∧
          w.disk.read (textEnv.file (cstr "storage") (cstr "a", cstr "b")) = some (cstr "\"x\""))) = true := by
    decide
  obtain ⟨w, hrun, hcheck⟩ := (Option.any_eq_true _ _).mp heval
  obtain ⟨hpending, hcompleted, hqueue, hvalue, hfile⟩ := of_decide_eq_true hcheck
  refine ⟨w, ?_, List.isEmpty_iff.mp hpending, List.isEmpty_iff.mp hcompleted, List.isEmpty_iff.mp hqueue, hvalue, hfile⟩
  exact .of_run (.start (emptyWorld_start _)) (RunOk.of_forall (p := fun _ => True) (fun _ _ => trivial)) hrun

end DSLink.Storage
