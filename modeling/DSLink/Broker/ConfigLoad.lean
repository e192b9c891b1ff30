import DSLink.Broker.Http
import DSLink.Broker.Json
import DSLink.Broker.Subscription

/-!
# `Broker.ConfigLoad` — the settings of the broker

`broker_config_load` of `broker/src/config.c` with `dslink_log_set_lvl` of `sdk/src/log.c`. Each queue limit is brought
between its bounds where the configuration has an integer for it, and the limit of the queue is raised to that of the
send window there too. Without `maxQueue` it stays what it was.

## Contents
- `dslinkStrcasecmp`, `dslinkLogSetLvl`, `brokerConfigLoad`.
- `config_bounds`, `loadedConfig`: both limits are between their bounds.
- `QueueLimits`, `config_load_exact`.
-/

namespace DSLink

/-! ## The log level -/

/-- `dslink_log_lvl`. -/
inductive LogLevel
  | off | fatal | err | warn | info | debug
  deriving DecidableEq

/-- `dslink_strcasecmp`. -/
def dslinkStrcasecmp : CString → CString → Int
  | [], b => 0 - (tolower (b.headD 0)).toNat
  | a :: _, [] => (tolower a).toNat
  | a :: as, b :: bs =>
    let d : Int := (tolower a).toNat - (tolower b).toNat
    if d ≠ 0 then d else dslinkStrcasecmp as bs

/-- `dslink_log_set_lvl`: the level, where the text names one. -/
def dslinkLogSetLvl (level : CString) : Option LogLevel :=
  if dslinkStrcasecmp level (cstr "off") = 0 ∨ dslinkStrcasecmp level (cstr "none") = 0 then some .off
  else if dslinkStrcasecmp level (cstr "fatal") = 0 then some .fatal
  else if dslinkStrcasecmp level (cstr "error") = 0 then some .err
  else if dslinkStrcasecmp level (cstr "warn") = 0 then some .warn
  else if dslinkStrcasecmp level (cstr "info") = 0 then some .info
  else if dslinkStrcasecmp level (cstr "debug") = 0 then some .debug
  else none

/-! ## Loading -/

/-- The globals that `broker_config_load` sets. -/
structure Settings where
  dslinkLogLvl : LogLevel
  brokerEnableToken : Bool
  brokerMaxQosQueueSize : Nat
  brokerMaxWsSendQueueSize : Nat
  brokerStoragePath : CString

/-- Their initial values. -/
def Settings.init : Settings := ⟨.info, true, 1024, 8, cstr "."⟩

/-- `(size_t) json_integer_value(x)`. -/
def toSize (x : Int) : Nat := (x % 18446744073709551616).toNat

/-- A limit of at least `low` and at most `0xFFFFF`. -/
def clampLimit (low size : Nat) : Nat := if size < low then low else if 1048575 < size then 1048575 else size

/-- `json_object_get` with `json_is_integer` and `json_integer_value`. -/
def integerAt (json : Json) (key : CString) : Option Int :=
  match json.get key with
  | some (.integer i) => some i
  | _ => none

/-- `broker_max_ws_send_queue_size`. -/
def loadMaxSendQueue (json : Json) (old : Nat) : Nat :=
  match integerAt json (cstr "maxSendQueue") with
  | some i => clampLimit 8 (toSize i)
  | none => old

/-- `broker_max_qos_queue_size`, with the limit of the send window that was loaded before. -/
def loadMaxQueue (json : Json) (send old : Nat) : Nat :=
  match integerAt json (cstr "maxQueue") with
  -- only here is it compared with the send window
  | some i => if clampLimit 16 (toSize i) < send then send else clampLimit 16 (toSize i)
  | none => old

/-- `log_level`. -/
def loadLogLevel (json : Json) (old : LogLevel) : LogLevel :=
  match json.get (cstr "log_level") with
  | some (.string level) => (dslinkLogSetLvl level).getD old
  | _ => old

/-- `allowAllLinks`. -/
def loadEnableToken (json : Json) : Bool :=
  match json.get (cstr "allowAllLinks") with
  | some (.bool false) => true
  | _ => false

/-- `storage.path`. -/
def loadStoragePath (json : Json) (old : CString) : CString :=
  match json.get (cstr "storage") with
  | some storage => match storage.get (cstr "path") with
    | some (.string path) => path
    | _ => old
  | none => old

/-- `broker_config_load`. -/
def brokerConfigLoad (json : Json) (settings : Settings) : Settings :=
  let send := loadMaxSendQueue json settings.brokerMaxWsSendQueueSize
  { dslinkLogLvl := loadLogLevel json settings.dslinkLogLvl
    brokerEnableToken := loadEnableToken json
    brokerMaxWsSendQueueSize := send
    brokerMaxQosQueueSize := loadMaxQueue json send settings.brokerMaxQosQueueSize
    brokerStoragePath := loadStoragePath json settings.brokerStoragePath }

/-! ## The bounds of each limit -/

theorem clampLimit_bounds {low : Nat} (h : low ≤ 1048575) (size : Nat) :
    low ≤ clampLimit low size ∧ clampLimit low size ≤ 1048575 := by
  unfold clampLimit
  split
  · exact ⟨Nat.le_refl _, h⟩
  · split <;> omega

/-- The limits are between their bounds. -/
structure InBounds (settings : Settings) : Prop where
  send_ge : 8 ≤ settings.brokerMaxWsSendQueueSize
  send_le : settings.brokerMaxWsSendQueueSize ≤ 1048575
  qos_ge : 16 ≤ settings.brokerMaxQosQueueSize
  qos_le : settings.brokerMaxQosQueueSize ≤ 1048575

theorem config_bounds (json : Json) {settings : Settings} (h : InBounds settings) :
    InBounds (brokerConfigLoad json settings) := by
  have hsend : 8 ≤ loadMaxSendQueue json settings.brokerMaxWsSendQueueSize ∧
      loadMaxSendQueue json settings.brokerMaxWsSendQueueSize ≤ 1048575 := by
    rw [loadMaxSendQueue]
    cases integerAt json (cstr "maxSendQueue") with
    | none => exact ⟨h.send_ge, h.send_le⟩
    | some i => exact clampLimit_bounds (by decide) (toSize i)
  have hqos : ∀ send, send ≤ 1048575 → 16 ≤ loadMaxQueue json send settings.brokerMaxQosQueueSize ∧
      loadMaxQueue json send settings.brokerMaxQosQueueSize ≤ 1048575 := by
    intro send hle
    rw [loadMaxQueue]
    cases integerAt json (cstr "maxQueue") with
    | none => exact ⟨h.qos_ge, h.qos_le⟩
    | some i =>
      have hclamp := clampLimit_bounds (show 16 ≤ 1048575 by decide) (toSize i)
      simp only
      split
      · exact ⟨by omega, hle⟩
      · exact hclamp
  exact ⟨hsend.1, hsend.2, (hqos _ hsend.2).1, (hqos _ hsend.2).2⟩

theorem init_bounds : InBounds Settings.init := ⟨by decide, by decide, by decide, by decide⟩

/-- The limits as the subscriptions use them. -/
def loadedConfig (json : Json) : Config :=
  let settings := brokerConfigLoad json Settings.init
  have h : InBounds settings := config_bounds json init_bounds
  ⟨settings.brokerMaxWsSendQueueSize, settings.brokerMaxQosQueueSize, h.send_ge, h.send_le, h.qos_ge, h.qos_le⟩

/-! ## The limits together -/

/-- The ring that `addToMessageQueue` makes has room for the rows of a whole send window. -/
def WindowFits (cfg : Config) : Prop :=
  ∀ (varray : Row Json) (msgId : Nat) (rb : Ringbuffer (QueuedMessage Json)),
    addToMessageQueue cfg none varray msgId = some rb → cfg.brokerMaxWsSendQueueSize ≤ rb.size

theorem windowFits_iff (cfg : Config) :
    WindowFits cfg ↔ cfg.brokerMaxWsSendQueueSize ≤ cfg.brokerMaxQosQueueSize := by
  have hqos := cfg.qos_ge
  obtain ⟨rb, hrb, hsize, -⟩ :=
    Ringbuffer.rbInit_of_pos (α := QueuedMessage Json) (show 0 < cfg.brokerMaxQosQueueSize by omega)
  have hmake : ∀ (varray : Row Json) (msgId : Nat),
      addToMessageQueue cfg none varray msgId = some (rb.rbPush ⟨varray, msgId⟩).1 := by
    intro varray msgId
    rw [addToMessageQueue, hrb]
    rfl
  constructor
  · intro h
    have := h [] 0 _ (hmake [] 0)
    rwa [Ringbuffer.size_rbPush, hsize] at this
  · intro h varray msgId rb' hrb'
    rw [hmake varray msgId] at hrb'
    cases hrb'
    rwa [Ringbuffer.size_rbPush, hsize]

/-- After the configuration is loaded the limits are between their bounds, and the send window is not larger than the
ring of the rows that were sent. -/
structure QueueLimits (json : Json) : Prop extends InBounds (brokerConfigLoad json Settings.init) where
  window : (brokerConfigLoad json Settings.init).brokerMaxWsSendQueueSize ≤
    (brokerConfigLoad json Settings.init).brokerMaxQosQueueSize
  ring : WindowFits (loadedConfig json)

theorem queueLimits_iff (json : Json) : QueueLimits json ↔
    (brokerConfigLoad json Settings.init).brokerMaxWsSendQueueSize ≤
      (brokerConfigLoad json Settings.init).brokerMaxQosQueueSize :=
  ⟨QueueLimits.window, fun h => ⟨config_bounds json init_bounds, h, (windowFits_iff (loadedConfig json)).mpr h⟩⟩

/-- With `maxQueue` the limit of the queue is not less than that of the send window. -/
theorem le_loadMaxQueue {json : Json} {i : Int} (h : integerAt json (cstr "maxQueue") = some i) (send old : Nat) :
    send ≤ loadMaxQueue json send old := by
  rw [loadMaxQueue, h]
  simp only
  split
  · exact Nat.le_refl _
  · omega

theorem clampLimit_le {low high : Nat} (hlow : low ≤ high) (hhigh : high < 1048575) (size : Nat) :
    clampLimit low size ≤ high ↔ size ≤ high := by
  unfold clampLimit
  split
  · omega
  · split <;> omega

/-- Without `maxQueue` the limit of the queue stays 1024. -/
theorem loadMaxSendQueue_le (json : Json) : loadMaxSendQueue json 8 ≤ 1024 ↔
    ∀ i, integerAt json (cstr "maxSendQueue") = some i → toSize i ≤ 1024 := by
  rw [loadMaxSendQueue]
  cases integerAt json (cstr "maxSendQueue") with
  | none =>
    refine iff_of_true (by decide) ?_
    rintro i ⟨⟩
  | some i =>
    rw [clampLimit_le (by decide) (by decide)]
    refine ⟨?_, fun h => h i rfl⟩
    rintro h j ⟨⟩
    exact h

/-- Both limits are always between their bounds. They fit together exactly if there is an integer for `maxQueue`, or none
for `maxSendQueue` that is more than 1024 as a `size_t`, as each negative one is. -/
theorem config_load_exact (json : Json) : InBounds (brokerConfigLoad json Settings.init) ∧
    (QueueLimits json ↔ (integerAt json (cstr "maxQueue")).isSome ∨
      ∀ i, integerAt json (cstr "maxSendQueue") = some i → toSize i ≤ 1024) := by
  refine ⟨config_bounds json init_bounds, ?_⟩
  rw [queueLimits_iff, ← loadMaxSendQueue_le]
  show loadMaxSendQueue json 8 ≤ loadMaxQueue json (loadMaxSendQueue json 8) 1024 ↔ _
  cases h : integerAt json (cstr "maxQueue") with
  | none =>
    rw [loadMaxQueue, h]
    exact ⟨Or.inr, fun h => h.resolve_left (by simp)⟩
  | some i => exact iff_of_true (le_loadMaxQueue h _ _) (.inl rfl)

/-- A send window of 5000 rows with the queue of 1024 that is there without `maxQueue`. -/
theorem window_larger_than_queue : ¬QueueLimits (.object [(cstr "maxSendQueue", .integer 5000)]) := by
  rw [queueLimits_iff]
  decide

end DSLink
