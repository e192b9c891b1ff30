import DSLink.Lib.AssocMap
import DSLink.Lib.Saves
import DSLink.Broker.State

/-!
# `Storage.JsonFile` — the storage that keeps one file for each pair of keys

`sdk/src/storage/json_file.c`. A save is a chain of file requests (`mkdir`, `open`, `write`, `close`), each submitted
in the callback of the one before. The thread pool runs the requests in the order they were submitted, the loop runs
the callbacks in the order the requests were completed, and an `unlink` without a callback happens at once. No request
fails, and no caller changes a value it has stored.

## Contents
- `Env`: what jansson and the operating system bring.
- `jsonStorageTriggerSave`, `jsonStorageStore`, `jsonStorageHandleSaveTick`, `runCallback`: the code.
- `step`: the loop and the thread pool.
-/

namespace DSLink.Storage

/-- `++n` on an `unsigned int`. -/
def inc32 (n : Nat) : Nat := (n + 1) % 4294967296

/-- `json_dumps` with `JSON_ENCODE_ANY`, the check of a new key in `json_object_set_new`, and the file a path leads
    to. -/
structure Env (J : Type) where
  jsonDumps : J → CString
  utf8Check : CString → Bool
  resolve : CString → CString

/-- The first two elements of `data`; the third is the store. -/
structure SaveData where
  path : CString
  str : CString

/-- A `uv_fs_t` on its way. A file descriptor is the inode it was opened on. -/
inductive FsReq
  | mkdir (data : SaveData)
  | openFile (data : SaveData)
  | writeFile (fd : Nat) (data : SaveData)
  | closeFile (fd : Nat) (data : SaveData)

namespace FsReq

variable {J : Type}

/-- The file and the text of an `open`. -/
def toOpen (env : Env J) : FsReq → Option (CString × CString)
  | .openFile data => some (env.resolve data.path, data.str)
  | _ => none

/-- The file and the text of the `open` behind a `mkdir`. -/
def made (env : Env J) : FsReq → Option (CString × CString)
  | .mkdir data => some (env.resolve data.path, data.str)
  | _ => none

def toWrite : FsReq → Option (Nat × CString)
  | .writeFile fd data => some (fd, data.str)
  | _ => none

/-- The `write` behind an `open`. -/
def opened (result : Nat) : FsReq → Option (Nat × CString)
  | .openFile data => some (result, data.str)
  | _ => none

end FsReq

/-- `JsonStore`. -/
structure JsonStore (J : Type) where
  path : CString
  root : AssocMap CString (AssocMap CString J)
  saveQueue : AssocMap CString (CString × CString)
  timerSetup : Bool
  waiting : Nat

/-- The store with its file requests: `pending` are submitted and `completed` wait for their callback, each with its
    result, oldest first. Nothing reads `longer` and `early`: at the last open of the file a save with a longer text
    had it open; at its last unlink a save of it was not opened yet. -/
structure World (J : Type) where
  store : JsonStore J
  disk : Disk CString UInt8
  pending : List FsReq
  completed : List (FsReq × Nat)
  longer : CString → Bool
  early : CString → Bool

variable {J : Type}

/-- `store->path`, the two keys. -/
def savePath (path keyA keyB : CString) : CString := path ++ slash :: keyA ++ slash :: keyB

namespace JsonStore

/-- `root[keyA]`, made where it is missing. A new key that is not UTF-8 is refused and the new object freed, which the
    code goes on to use. -/
def levelA (env : Env J) (s : JsonStore J) (keyA : CString) : Option (AssocMap CString J) :=
  match s.root.get keyA with
  | some level => some level
  | none => if env.utf8Check keyA then some .empty else none

/-- `root[keyA][keyB]`. -/
def value (s : JsonStore J) (keyA keyB : CString) : Option J := (s.root.get keyA).bind (fun level => level.get keyB)

end JsonStore

namespace World

/-- The saves whose file is still to be opened, in this order: by the submitted `open`s, then behind the callbacks of
    the completed `mkdir`s, then behind the submitted `mkdir`s. -/
def opensAhead (env : Env J) (w : World J) : List (CString × CString) :=
  w.pending.filterMap (FsReq.toOpen env) ++ w.completed.filterMap (fun c => c.1.made env) ++
    w.pending.filterMap (FsReq.made env)

/-- The saves that have their file open and are still to be written: by the submitted `write`s, then behind the
    callbacks of the completed `open`s. -/
def writesAhead (w : World J) : List (Nat × CString) :=
  w.pending.filterMap FsReq.toWrite ++ w.completed.filterMap (fun c => c.1.opened c.2)

/-- `uv_fs_unlink` without a callback. -/
def unlink (env : Env J) (w : World J) (path : CString) : World J :=
  { w with
    disk := w.disk.unlink (env.resolve path)
    early := Function.update w.early (env.resolve path) (Saves.unopened (w.opensAhead env) (env.resolve path)) }

/-- `json_storage_trigger_save`. The path is written to a buffer of 256 bytes. -/
def jsonStorageTriggerSave (env : Env J) (w : World J) (keyA keyB : CString) : Option (World J) := do
  let level ← w.store.levelA env keyA
  let w : World J := { w with store := { w.store with timerSetup := true, root := w.store.root.set keyA level } }
  let tm := savePath w.store.path keyA keyB
  if tm.length < 256 then
    match level.get keyB with
    | none =>
      let w : World J := { w with store := { w.store with waiting := dec32 w.store.waiting } }
      some (w.unlink env tm)
    | some levelB => some { w with pending := w.pending ++ [.mkdir ⟨tm, env.jsonDumps levelB⟩] }
  else none

/-- `json_storage_store`. -/
def jsonStorageStore (env : Env J) (w : World J) (keyA keyB : CString) (value : Option J) : Option (World J) := do
  let level ← w.store.levelA env keyA
  let level :=
    match value with
    | none => level.erase keyB
    | some value => level.set keyB value
  let store := { w.store with
    root := w.store.root.set keyA level
    saveQueue := w.store.saveQueue.set (keyA ++ keyB) (keyA, keyB) }
  jsonStorageTriggerSave env { w with store := store } keyA keyB

/-- One round of the loop in `json_storage_handle_save_tick`. -/
def saveAgain (env : Env J) (w : World J) (entry : CString × (CString × CString)) : Option (World J) := do
  let w ← jsonStorageTriggerSave env w entry.2.1 entry.2.2
  some { w with store := { w.store with waiting := inc32 w.store.waiting } }

/-- `json_storage_handle_save_tick`. -/
def jsonStorageHandleSaveTick (env : Env J) (w : World J) : Option (World J) :=
  if 0 < w.store.waiting then some w
  else do
    let w ← w.store.saveQueue.entries.foldlM (saveAgain env) w
    some { w with store := { w.store with saveQueue := .empty } }

/-- The callbacks `json_storage_init_open_write`, `json_file_open_write`, `json_file_ignore_write`, `fs_close_cb`. -/
def runCallback (w : World J) : FsReq × Nat → World J
  | (.mkdir data, _) => { w with pending := w.pending ++ [.openFile data] }
  | (.openFile data, result) => { w with pending := w.pending ++ [.writeFile result data] }
  | (.writeFile fd data, _) => { w with pending := w.pending ++ [.closeFile fd data] }
  | (.closeFile _ _, _) =>
    if 0 < w.store.waiting then { w with store := { w.store with waiting := w.store.waiting - 1 } } else w

/-- The thread pool runs a request. Directories are not modelled. -/
def runRequest (env : Env J) (w : World J) : FsReq → World J
  | .mkdir data => { w with completed := w.completed ++ [(.mkdir data, 0)] }
  | .openFile data =>
    let opened := w.disk.openTrunc (env.resolve data.path)
    { w with
      disk := opened.2
      completed := w.completed ++ [(.openFile data, opened.1)]
      longer := Function.update w.longer (env.resolve data.path)
        (Saves.longerOpen w.writesAhead opened.1 data.str.length) }
  | .writeFile fd data =>
    { w with disk := w.disk.write fd data.str, completed := w.completed ++ [(.writeFile fd data, 0)] }
  | .closeFile fd data => { w with completed := w.completed ++ [(.closeFile fd data, 0)] }

end World

/-- What happens next: a caller stores or deletes a value, the timer fires, the thread pool runs its next request, the
    loop runs its next callback. -/
inductive Event (J : Type)
  | store (keyA keyB : CString) (value : Option J)
  | tick
  | request
  | callback

/-- One event. The timer is started by the first save. -/
def step (env : Env J) (w : World J) : Event J → Option (World J)
  | .store keyA keyB value => w.jsonStorageStore env keyA keyB value
  | .tick => if w.store.timerSetup then w.jsonStorageHandleSaveTick env else none
  | .request =>
    match w.pending with
    | [] => none
    | req :: pending => some (World.runRequest env { w with pending := pending } req)
  | .callback =>
    match w.completed with
    | [] => none
    | done :: completed => some (World.runCallback { w with completed := completed } done)

end DSLink.Storage
