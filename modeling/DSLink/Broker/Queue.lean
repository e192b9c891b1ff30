import DSLink.Lib.SendWindow
import DSLink.Broker.Footprint

/-!
# `Broker.Queue` — the message queue of a SubRequester as a send window

The window of a SubRequester has the rows of its `messageQueue`, its `messageOutputQueueCount`, and the numbers
of its entries in the `pendingAcks` of its requester. This module states what each function of
`subscription.c` that sends or acknowledges does to the windows: `SendOut` for the sending loop,
`checkSubscriptionAck_windows` for an acknowledgement, `brokerUpdateSubReq_cases` for an update.
-/

namespace DSLink

variable {J : Type} {cfg : Config}

/-- `&m->msg_id = id`. -/
def QueuedMessage.setId (m : QueuedMessage J) (id : Nat) : QueuedMessage J := { m with msgId := id }

/-- The rows of a queue that may be NULL. -/
def queueRows (q : Option (Ringbuffer (QueuedMessage J))) : List (QueuedMessage J) :=
  (q.map Ringbuffer.toList).getD []

/-- The entries of a vector that may be NULL. -/
def ackEntries (v : Option (Vec PendingAck)) : List PendingAck := (v.map Vec.toList).getD []

/-- The numbers of the entries of `s`, oldest first. -/
def pendingOf (s : SubId) (l : List PendingAck) : List Nat :=
  (l.filter (fun e => e.subscription = s)).map PendingAck.msgId

/-- The window of `req`, with the entries of `l` pending. -/
def SubRequester.window (req : SubRequester J) (s : SubId) (l : List PendingAck) : Window (QueuedMessage J) :=
  ⟨queueRows req.messageQueue, req.messageOutputQueueCount, pendingOf s l⟩

@[simp] theorem queueRows_none : queueRows (none : Option (Ringbuffer (QueuedMessage J))) = [] := rfl
@[simp] theorem queueRows_some (rb : Ringbuffer (QueuedMessage J)) : queueRows (some rb) = rb.toList := rfl
@[simp] theorem ackEntries_none : ackEntries none = [] := rfl
@[simp] theorem ackEntries_some (v : Vec PendingAck) : ackEntries (some v) = v.toList := rfl
@[simp] theorem pendingOf_nil (s : SubId) : pendingOf s [] = [] := rfl

@[simp] theorem pendingOf_append (s : SubId) (l l' : List PendingAck) :
    pendingOf s (l ++ l') = pendingOf s l ++ pendingOf s l' := by simp [pendingOf]

theorem pendingOf_cons_self {s : SubId} {e : PendingAck} (h : e.subscription = s) (l : List PendingAck) :
    pendingOf s (e :: l) = e.msgId :: pendingOf s l := by simp [pendingOf, h]

theorem pendingOf_cons_ne {s : SubId} {e : PendingAck} (h : e.subscription ≠ s) (l : List PendingAck) :
    pendingOf s (e :: l) = pendingOf s l := by simp [pendingOf, h]

/-- Entries of other SubRequesters do not count. -/
theorem pendingOf_eq_nil {s : SubId} {l : List PendingAck} (h : ∀ e ∈ l, e.subscription ≠ s) :
    pendingOf s l = [] := by
  unfold pendingOf
  rw [List.filter_eq_nil_iff.mpr (by simpa using h), List.map_nil]

theorem rbAt_queue (q : Option (Ringbuffer (QueuedMessage J))) (i : Nat) :
    q.bind (fun rb => rb.rbAt i) = (queueRows q)[i]? := by
  cases q with
  | none => rfl
  | some rb => exact rb.rbAt_eq i

theorem queueRows_modifyAt (q : Option (Ringbuffer (QueuedMessage J))) (i : Nat)
    (f : QueuedMessage J → QueuedMessage J) :
    queueRows (q.map (fun rb => rb.modifyAt i f)) = (queueRows q).modify i f := by
  cases q with
  | none => simp
  | some rb => simp

/-! ## The sending loop -/

/-- The entries for the messages `out` that `s` sends as frames from position `start` on. -/
def newEntries (s : SubId) (start : Nat) (out : List (Nat × QueuedMessage J)) : List PendingAck :=
  out.mapIdx (fun i o => ⟨s, o.1, start + i⟩)

/-- The frames of the messages `out`. -/
def newFrames (s : SubId) (reqSid : Nat) (out : List (Nat × QueuedMessage J)) : List (Frame J) :=
  out.map (fun o => ⟨o.1, .updates s [(reqSid, o.2.message)]⟩)

theorem wireRows_newFrames (s : SubId) (reqSid : Nat) (out : List (Nat × QueuedMessage J)) :
    wireRows s (newFrames s reqSid out) = out.map (fun o => o.2.message) := by
  induction out with
  | nil => rfl
  | cons o out ih =>
    have hcons : newFrames s reqSid (o :: out) = ⟨o.1, .updates s [(reqSid, o.2.message)]⟩ :: newFrames s reqSid out := rfl
    rw [hcons, ← List.singleton_append, wireRows_append, ih]
    simp [wireRows, frameRows]

theorem wireRows_newFrames_ne {s t : SubId} (h : s ≠ t) (reqSid : Nat) (out : List (Nat × QueuedMessage J)) :
    wireRows t (newFrames s reqSid out) = [] := by
  refine List.flatMap_eq_nil_iff.mpr (fun f hf => ?_)
  obtain ⟨o, -, rfl⟩ := List.mem_map.mp hf
  exact if_neg h

theorem newEntries_cons (s : SubId) (start : Nat) (o : Nat × QueuedMessage J)
    (out : List (Nat × QueuedMessage J)) :
    newEntries s start (o :: out) = ⟨s, o.1, start⟩ :: newEntries s (start + 1) out := by
  simp [newEntries, List.mapIdx_cons, Nat.add_comm, Nat.add_left_comm]

theorem mem_newEntries {s : SubId} {start : Nat} {out : List (Nat × QueuedMessage J)} {e : PendingAck}
    (h : e ∈ newEntries s start out) : e.subscription = s := by
  obtain ⟨i, hi, rfl⟩ := List.mem_mapIdx.mp h
  rfl

theorem pendingOf_newEntries (s : SubId) (start : Nat) (out : List (Nat × QueuedMessage J)) :
    pendingOf s (newEntries s start out) = out.map Prod.fst := by
  induction out generalizing start with
  | nil => rfl
  | cons o out ih => rw [newEntries_cons, pendingOf_cons_self (by rfl), ih, List.map_cons]

theorem pendingOf_newEntries_ne {s t : SubId} (h : s ≠ t) (start : Nat) (out : List (Nat × QueuedMessage J)) :
    pendingOf t (newEntries s start out) = [] :=
  pendingOf_eq_nil (fun _ he => (mem_newEntries he).trans_ne h)

/-- The sender `x` sends the messages `out` and becomes `y`: a run of its window, whatever is pending; the
    messages are written to the link and noted in the vector in the order in which they are sent. -/
structure SenderRun (cfg : Config) (s : SubId) (reqSid : Nat) (x : Sender J)
    (out : List (Nat × QueuedMessage J)) (y : Sender J) : Prop where
  run : ∀ l, Window.SendRun QueuedMessage.msgId QueuedMessage.setId cfg.brokerMaxWsSendQueueSize
    ⟨queueRows x.messageQueue, x.messageOutputQueueCount, l⟩ out
    ⟨queueRows y.messageQueue, y.messageOutputQueueCount, l ++ out.map Prod.fst⟩
  acks : ackEntries y.pendingAcks = ackEntries x.pendingAcks ++ newEntries s x.link.sent.length out
  frames : y.link.sent = x.link.sent ++ newFrames s reqSid out

theorem SenderRun.stop {s : SubId} {reqSid : Nat} {x : Sender J}
    (h : cfg.brokerMaxWsSendQueueSize ≤ x.messageOutputQueueCount ∨
      ∀ m, (queueRows x.messageQueue)[x.messageOutputQueueCount]? = some m → m.msgId ≠ 0) :
    SenderRun cfg s reqSid x [] x where
  run l := by
    simpa using Window.SendRun.stop (w := ⟨queueRows x.messageQueue, x.messageOutputQueueCount, l⟩) h
  acks := by simp [newEntries]
  frames := by simp [newFrames]

/-- The loop of `sendQueuedMessages`, with enough fuel to reach the limit. -/
theorem sendQueuedLoop_run (s : SubId) (reqSid : Nat) :
    ∀ (fuel : Nat) (x : Sender J) (result : Nat),
      cfg.brokerMaxWsSendQueueSize ≤ x.messageOutputQueueCount + fuel →
      ∃ out, SenderRun cfg s reqSid x out (sendQueuedLoop cfg s reqSid fuel x result).1 := by
  intro fuel
  induction fuel with
  | zero => exact fun x result hfuel => ⟨[], .stop (Or.inl hfuel)⟩
  | succ fuel ih =>
    intro x result hfuel
    by_cases hlt : x.messageOutputQueueCount < cfg.brokerMaxWsSendQueueSize
    · cases hrow : (queueRows x.messageQueue)[x.messageOutputQueueCount]? with
      | none =>
        refine ⟨[], ?_⟩
        simp only [sendQueuedLoop, if_pos hlt, rbAt_queue, hrow]
        exact .stop (Or.inr (by simp [hrow]))
      | some m =>
        by_cases h0 : 0 < m.msgId
        · refine ⟨[], ?_⟩
          simp only [sendQueuedLoop, if_pos hlt, rbAt_queue, hrow, if_pos h0]
          exact .stop (Or.inr (fun m' hm' => by cases hrow.symm.trans hm'; omega))
        · -- one message goes out, and the rest of the loop runs on what it leaves
          have hloop : sendQueuedLoop cfg s reqSid (fuel + 1) x result
              = sendQueuedLoop cfg s reqSid fuel
                  { (sendMessage s reqSid m.message x).1 with
                    messageQueue := x.messageQueue.map (fun rb => rb.modifyAt x.messageOutputQueueCount
                      (fun m => m.setId (x.link.msgId + 1))) } (result + 1) := by
            simp only [sendQueuedLoop, if_pos hlt, rbAt_queue, hrow, if_neg h0]
            rfl
          rw [hloop]
          obtain ⟨out, hrun⟩ := ih
            { (sendMessage s reqSid m.message x).1 with
              messageQueue := x.messageQueue.map (fun rb => rb.modifyAt x.messageOutputQueueCount
                (fun m => m.setId (x.link.msgId + 1))) } (result + 1)
            (by show _ ≤ x.messageOutputQueueCount + 1 + fuel; omega)
          refine ⟨(x.link.msgId + 1, m) :: out, fun l => ?_, ?_, ?_⟩
          · refine .send hlt hrow (by omega) (Nat.succ_ne_zero _) ?_
            have h := hrun.run (l ++ [x.link.msgId + 1])
            simp only [queueRows_modifyAt] at h
            simpa [sendMessage, addPendingAck] using h
          · rw [hrun.acks, newEntries_cons]
            cases hv : x.pendingAcks <;> simp [sendMessage, addPendingAck, brokerWsSendObj, hv]
          · rw [hrun.frames]
            simp [sendMessage, addPendingAck, brokerWsSendObj, newFrames]
    · refine ⟨[], ?_⟩
      simp only [sendQueuedLoop, if_neg hlt]
      exact .stop (Or.inl (by omega))

/-! ## Removing acknowledged rows -/

theorem removeLoop_rows (k : Nat) :
    ∀ (fuel : Nat) (rb : Ringbuffer (QueuedMessage J)) (result : Nat), rb.toList.length ≤ fuel →
      (removeLoop k fuel rb result).1.toList = Window.dropAcked QueuedMessage.msgId k rb.toList ∧
      (removeLoop k fuel rb result).2 + (removeLoop k fuel rb result).1.toList.length
        = result + rb.toList.length := by
  intro fuel
  induction fuel with
  | zero =>
    intro rb result hlen
    have hnil : rb.toList = [] := List.length_eq_zero_iff.mp (by omega)
    simp [removeLoop, hnil, Window.dropAcked]
  | succ fuel ih =>
    intro rb result hlen
    cases hl : rb.toList with
    | nil => simp [removeLoop, rb.rbFront_eq, hl, Window.dropAcked]
    | cons m rows =>
      by_cases hm : m.msgId = 0 ∨ k < m.msgId
      · have hself : Window.dropAcked QueuedMessage.msgId k (m :: rows) = m :: rows :=
          Window.dropAcked_eq_self (fun m' hm' hne => by cases hm'; exact hm.resolve_left hne)
        simp [removeLoop, rb.rbFront_eq, hl, if_pos hm, hself]
      · obtain ⟨hrows, hcount⟩ := ih rb.rbPop.1 (result + 1) (by simp [hl] at hlen ⊢; omega)
        have hdrop : Window.dropAcked QueuedMessage.msgId k (m :: rows)
            = Window.dropAcked QueuedMessage.msgId k rows := by
          unfold Window.dropAcked
          rw [List.dropWhile_cons_of_pos (by simp; omega)]
        simp only [Ringbuffer.toList_rbPop, hl, List.tail_cons] at hrows hcount
        simp only [removeLoop, rb.rbFront_eq, hl, List.head?_cons, if_neg hm, hdrop, List.length_cons]
        exact ⟨hrows, by omega⟩

/-- `removeFromMessageQueue` drops the acknowledged rows in front and says whether there were any. -/
theorem removeFromMessageQueue_rows (q : Option (Ringbuffer (QueuedMessage J))) (k : Nat) :
    queueRows (removeFromMessageQueue q k).1 = Window.dropAcked QueuedMessage.msgId k (queueRows q) ∧
    ((removeFromMessageQueue q k).2 = 0 ↔
      Window.dropAcked QueuedMessage.msgId k (queueRows q) = queueRows q) := by
  cases q with
  | none => simp [removeFromMessageQueue, Window.dropAcked]
  | some rb =>
    obtain ⟨hrows, hcount⟩ := removeLoop_rows k rb.rbCount rb 0 (by simp)
    refine ⟨hrows, ?_⟩
    have hsub := List.dropWhile_sublist (fun m => decide (m.msgId ≠ 0 ∧ m.msgId ≤ k)) (l := rb.toList)
    have hlen : (removeLoop k rb.rbCount rb 0).1.toList.length
        = (Window.dropAcked QueuedMessage.msgId k rb.toList).length := by rw [hrows]
    simp only [removeFromMessageQueue, queueRows_some]
    constructor
    · intro h0
      exact hsub.eq_of_length (by show (Window.dropAcked _ _ _).length = _; omega)
    · intro heq
      rw [heq] at hlen
      omega

/-! ## Steps of one SubRequester -/

/-- `sendQueuedMessages` looks for rows to send. -/
def CanSend (req : SubRequester J) (node : DownstreamNode J) : Prop :=
  node.link.isSome ∧ req.reqSid ≠ noSid

namespace Broker

/-- A step that changed nothing but the queue of `s` and the link and vector of its requester. -/
structure QueueStep (σ σ' : Broker J) (s : SubId) (req req' : SubRequester J)
    (node node' : DownstreamNode J) : Prop where
  sub : ∀ t, σ'.sub.get t = if t = s then some req' else σ.sub.get t
  dnode : ∀ e, σ'.dnode.get e = if e = req.reqNode then some node' else σ.dnode.get e
  req_eq : req' = { req with
    messageQueue := req'.messageQueue, messageOutputQueueCount := req'.messageOutputQueueCount }
  node_eq : node' = { node with link := node'.link, pendingAcks := node'.pendingAcks }

/-- `node'` is `node` after the messages `out` went out for `s`. -/
structure Emits (s : SubId) (reqSid : Nat) (node node' : DownstreamNode J)
    (out : List (Nat × QueuedMessage J)) : Prop where
  acks : ackEntries node'.pendingAcks
    = ackEntries node.pendingAcks ++ newEntries s (linkFrames node).length out
  frames : linkFrames node' = linkFrames node ++ newFrames s reqSid out
  link : node'.link.isSome = node.link.isSome

theorem Emits.refl (s : SubId) (reqSid : Nat) (node : DownstreamNode J) : Emits s reqSid node node [] :=
  ⟨by simp [newEntries], by simp [newFrames], rfl⟩

variable {σ σ' : Broker J}

theorem QueueStep.refl {s : SubId} {req : SubRequester J} {node : DownstreamNode J}
    (hs : σ.sub.get s = some req) (hd : σ.dnode.get req.reqNode = some node) :
    QueueStep σ σ s req req node node where
  sub t := by split <;> simp_all
  dnode e := by split <;> simp_all
  req_eq := rfl
  node_eq := rfl

theorem QueueStep.putSender {s : SubId} {req : SubRequester J} {node : DownstreamNode J}
    (hs : σ.sub.get s = some req) (hd : σ.dnode.get req.reqNode = some node) (x : Sender J) :
    QueueStep σ (σ.putSender s req.reqNode x) s req
      { req with messageQueue := x.messageQueue, messageOutputQueueCount := x.messageOutputQueueCount }
      node { node with link := some x.link, pendingAcks := x.pendingAcks } where
  sub t := by
    show (σ.sub.modify s _).get t = _
    rw [Heap.get_modify, hs]
    rfl
  dnode e := by
    show (σ.dnode.modify req.reqNode _).get e = _
    rw [Heap.get_modify, hd]
    rfl
  req_eq := rfl
  node_eq := rfl

/-- `sendQueuedMessages`: a run of the window of `s` if it can send, nothing otherwise. -/
theorem sendQueuedMessages_run {s : SubId} {req : SubRequester J} {node : DownstreamNode J}
    (h : sendQueuedMessages cfg σ s = some σ') (hs : σ.sub.get s = some req)
    (hd : σ.dnode.get req.reqNode = some node) :
    ∃ out req' node', QueueStep σ σ' s req req' node node' ∧ Emits s req.reqSid node node' out ∧
      (CanSend req node → ∀ l, Window.SendRun QueuedMessage.msgId QueuedMessage.setId
        cfg.brokerMaxWsSendQueueSize ⟨queueRows req.messageQueue, req.messageOutputQueueCount, l⟩ out
        ⟨queueRows req'.messageQueue, req'.messageOutputQueueCount, l ++ out.map Prod.fst⟩) ∧
      (¬CanSend req node → out = [] ∧ req' = req ∧ node' = node) := by
  simp only [sendQueuedMessages, Option.bind_eq_bind, Option.bind_eq_some_iff] at h
  obtain ⟨req0, hs0, node0, hd0, h⟩ := h
  cases hs.symm.trans hs0
  cases hd.symm.trans hd0
  have hstay : σ' = σ → (CanSend req node → queueRows req.messageQueue = []) →
      ∃ out req' node', QueueStep σ σ' s req req' node node' ∧ Emits s req.reqSid node node' out ∧
        (CanSend req node → ∀ l, Window.SendRun QueuedMessage.msgId QueuedMessage.setId
          cfg.brokerMaxWsSendQueueSize ⟨queueRows req.messageQueue, req.messageOutputQueueCount, l⟩ out
          ⟨queueRows req'.messageQueue, req'.messageOutputQueueCount, l ++ out.map Prod.fst⟩) ∧
        (¬CanSend req node → out = [] ∧ req' = req ∧ node' = node) := by
    intro heq hnil
    subst heq
    refine ⟨[], req, node, .refl hs hd, .refl _ _ _, fun hcan l => ?_, fun _ => ⟨rfl, rfl, rfl⟩⟩
    simpa using Window.SendRun.stop
      (w := ⟨queueRows req.messageQueue, req.messageOutputQueueCount, l⟩) (Or.inr (by simp [hnil hcan]))
  cases hl : node.link with
  | none =>
    simp only [hl] at h
    exact hstay (Option.some.inj h).symm (fun hcan => by simp [CanSend, hl] at hcan)
  | some link =>
    simp only [hl] at h
    split at h
    · rename_i hguard
      obtain ⟨out, hrun⟩ := @sendQueuedLoop_run J cfg s req.reqSid cfg.brokerMaxWsSendQueueSize
        ⟨link, node.pendingAcks, req.messageQueue, req.messageOutputQueueCount⟩ 0 (Nat.le_add_left _ _)
      cases h
      refine ⟨out, _, _, .putSender hs hd _, ⟨?_, ?_, by simp [hl]⟩, fun _ l => hrun.run l, fun hcan => ?_⟩
      · simpa [linkFrames, hl] using hrun.acks
      · simpa [linkFrames, hl] using hrun.frames
      · exact absurd ⟨by simp [hl], hguard.1⟩ hcan
    · rename_i hguard
      refine hstay (Option.some.inj h).symm (fun hcan => ?_)
      have hzero : messageCount req.messageQueue = 0 := by
        by_contra hne
        exact hguard ⟨hcan.2, hne⟩
      cases hq : req.messageQueue with
      | none => rfl
      | some rb =>
        simp only [hq, messageCount, Ringbuffer.rbCount_eq, Int.natCast_eq_zero] at hzero
        exact List.length_eq_zero_iff.mp hzero

/-- One round of the loop of `check_subscription_ack` is a round on the window of the entry's SubRequester. -/
theorem ackOne_round {pack : PendingAck} {req : SubRequester J} {node : DownstreamNode J}
    (h : ackOne cfg σ pack = some σ') (hs : σ.sub.get pack.subscription = some req)
    (hd : σ.dnode.get req.reqNode = some node) (hpos : 0 < req.messageOutputQueueCount) :
    ∃ out req' node', QueueStep σ σ' pack.subscription req req' node node' ∧
      Emits pack.subscription req.reqSid node node' out ∧
      Window.AckRound QueuedMessage.msgId QueuedMessage.setId cfg.brokerMaxWsSendQueueSize (CanSend req node)
        pack.msgId (queueRows req.messageQueue) req.messageOutputQueueCount out
        (queueRows req'.messageQueue) req'.messageOutputQueueCount := by
  simp only [ackOne, Option.bind_eq_bind, Option.bind_eq_some_iff] at h
  obtain ⟨req0, hs0, h⟩ := h
  cases hs.symm.trans hs0
  obtain ⟨hrows, hzero⟩ := removeFromMessageQueue_rows req.messageQueue pack.msgId
  have hdec : dec32 req.messageOutputQueueCount = req.messageOutputQueueCount - 1 := by
    unfold dec32 sub32
    exact if_pos hpos
  set q := (removeFromMessageQueue req.messageQueue pack.msgId).1 with hq
  -- the state between the decrement and the sending
  set req1 : SubRequester J :=
    { req with messageQueue := q, messageOutputQueueCount := req.messageOutputQueueCount - 1 } with hreq1
  set τ := σ.modSub pack.subscription (fun req =>
    { req with messageQueue := q, messageOutputQueueCount := dec32 req.messageOutputQueueCount }) with hτ
  have hsτ : ∀ t, τ.sub.get t = if t = pack.subscription then some req1 else σ.sub.get t := by
    intro t
    show (σ.sub.modify _ _).get t = _
    rw [Heap.get_modify, hs, Option.map_some, hdec]
  have hdτ : τ.dnode.get req.reqNode = some node := hd
  split at h
  · rename_i hne
    have hdrop : Window.dropAcked QueuedMessage.msgId pack.msgId (queueRows req.messageQueue)
        ≠ queueRows req.messageQueue := fun heq => hne (hzero.mpr heq)
    obtain ⟨out, req', node', hstep, hemit, hcan, hnot⟩ :=
      sendQueuedMessages_run h (by simp [hsτ] : τ.sub.get pack.subscription = some req1) hdτ
    refine ⟨out, req', node', ⟨fun t => ?_, hstep.dnode, ?_, hstep.node_eq⟩, hemit, ⟨fun heq => absurd heq hdrop, ?_, ?_⟩⟩
    · rw [hstep.sub]
      split
      · rfl
      · rw [hsτ, if_neg ‹_›]
    · have hreq := hstep.req_eq
      simpa [hreq1] using hreq
    · intro _ hno
      obtain ⟨rfl, rfl, -⟩ := hnot hno
      exact ⟨rfl, hrows, rfl⟩
    · intro _ hyes l
      have hrun := hcan hyes l
      simpa only [hreq1, hrows] using hrun
  · rename_i heq
    have hkeep := hzero.mp (by simpa using heq)
    obtain rfl := Option.some.inj h
    refine ⟨[], req1, node, ⟨hsτ, fun e => ?_, rfl, rfl⟩, .refl _ _ _, ⟨fun _ => ⟨rfl, ?_, rfl⟩,
      fun hne => absurd hkeep hne, fun hne => absurd hkeep hne⟩⟩
    · show σ.dnode.get e = _
      split <;> simp_all
    · rw [← hkeep, ← hrows]

/-! ## The loop of `check_subscription_ack` -/

/-- A list that is sorted by `f` is cut at `k`. -/
theorem exists_cut {α : Type} {f : α → Nat} {l : List α} (hsort : (l.map f).Pairwise (· < ·)) (k : Nat) :
    ∃ m, m ≤ l.length ∧ (∀ a ∈ l.take m, f a ≤ k) ∧ ∀ a ∈ l.drop m, k < f a := by
  induction l with
  | nil => exact ⟨0, by simp⟩
  | cons a l ih =>
    obtain ⟨ha, hl⟩ := List.pairwise_cons.mp hsort
    by_cases hk : f a ≤ k
    · obtain ⟨m, hm, htake, hdrop⟩ := ih hl
      refine ⟨m + 1, Nat.succ_le_succ hm, ?_, by simpa using hdrop⟩
      simpa [hk] using htake
    · refine ⟨0, Nat.zero_le _, by simp, fun b hb => ?_⟩
      rcases List.mem_cons.mp hb with rfl | hb
      · omega
      · have := ha (f b) (List.mem_map_of_mem hb)
        omega

theorem cmpPack_nonneg {a e : PendingAck} : 0 ≤ cmpPack a e ↔ e.msgId ≤ a.msgId := by
  unfold cmpPack
  split_ifs <;> simp <;> omega

theorem ackCut_le (node : DownstreamNode J) (k : Nat) : ackCut node k ≤ (ackEntries node.pendingAcks).length := by
  unfold ackCut
  cases hv : node.pendingAcks with
  | none => exact Nat.le_refl _
  | some vec => exact vec.upperBound_le _ _

/-- `vector_upper_bound` finds the cut at the acknowledged number where there is one. -/
theorem ackCut_eq {node : DownstreamNode J} {k m : Nat} (hm : m ≤ (ackEntries node.pendingAcks).length)
    (htake : ∀ e ∈ (ackEntries node.pendingAcks).take m, e.msgId ≤ k)
    (hdrop : ∀ e ∈ (ackEntries node.pendingAcks).drop m, k < e.msgId) : ackCut node k = m := by
  unfold ackCut
  cases hv : node.pendingAcks with
  | none =>
    rw [hv] at hm
    exact (Nat.le_zero.mp hm).symm
  | some vec =>
    simp only [hv, ackEntries_some] at hm htake hdrop ⊢
    refine Vec.upperBound_eq hm (fun e he => cmpPack_nonneg.mpr (htake e he)) (fun e he => ?_)
    exact Int.not_le.mp (mt cmpPack_nonneg.mp (Nat.not_le.mpr (hdrop e he)))

/-- `vector_upper_bound` cuts the entries at the acknowledged number, if their numbers grow. -/
theorem ackCut_spec {node : DownstreamNode J} {k : Nat}
    (hsort : ((ackEntries node.pendingAcks).map PendingAck.msgId).Pairwise (· < ·)) :
    ackCut node k ≤ (ackEntries node.pendingAcks).length ∧
    (∀ e ∈ (ackEntries node.pendingAcks).take (ackCut node k), e.msgId ≤ k) ∧
    (∀ e ∈ (ackEntries node.pendingAcks).drop (ackCut node k), k < e.msgId) := by
  obtain ⟨m, hm, htake, hdrop⟩ := exists_cut hsort k
  rw [ackCut_eq hm htake hdrop]
  exact ⟨hm, htake, hdrop⟩

/-- What the loop needs of the state it starts in: the entries belong to the requester, their numbers grow, and
    the windows are in order. -/
structure AckReady (σ : Broker J) (d : DownId) (node : DownstreamNode J) : Prop where
  owner : ∀ e ∈ ackEntries node.pendingAcks, ∀ req, σ.sub.get e.subscription = some req → req.reqNode = d
  sorted : ((ackEntries node.pendingAcks).map PendingAck.msgId).Pairwise (· < ·)
  core : ∀ s req, σ.sub.get s = some req → req.reqNode = d →
    Window.Core QueuedMessage.msgId (req.window s (ackEntries node.pendingAcks))

/-- `req'` differs from `req` in its queue and its counter only. -/
def SameButQueue (req req' : SubRequester J) : Prop :=
  req' = { req with
    messageQueue := req'.messageQueue, messageOutputQueueCount := req'.messageOutputQueueCount }

/-- `node'` differs from `node` in its link and its vector only, and has a link if `node` has one. -/
def SameButLink (node node' : DownstreamNode J) : Prop :=
  node' = { node with link := node'.link, pendingAcks := node'.pendingAcks } ∧
    node'.link.isSome = node.link.isSome

/-- The loop invariant: the entries `P` are done, the entries `D` stay. Each window of the requester went
    through an `AckRun` over the numbers of `P`. -/
structure AckLoop (cfg : Config) (σ : Broker J) (d : DownId) (node : DownstreamNode J) (k : Nat)
    (P D : List PendingAck) (τ : Broker J) : Prop where
  dead : ∀ s, σ.sub.get s = none → τ.sub.get s = none
  foreign : ∀ s req, σ.sub.get s = some req → req.reqNode ≠ d → τ.sub.get s = some req
  other : ∀ e, e ≠ d → τ.dnode.get e = σ.dnode.get e
  node : ∃ node' extra, τ.dnode.get d = some node' ∧ SameButLink node node' ∧
    ackEntries node'.pendingAcks = ackEntries node.pendingAcks ++ extra ∧
    ∀ s req, σ.sub.get s = some req → req.reqNode = d →
      ∃ out req', τ.sub.get s = some req' ∧ SameButQueue req req' ∧
        Window.AckRun QueuedMessage.msgId QueuedMessage.setId cfg.brokerMaxWsSendQueueSize (CanSend req node) k
          (req.window s (ackEntries node.pendingAcks)) (pendingOf s P) (pendingOf s D) out
          ⟨queueRows req'.messageQueue, req'.messageOutputQueueCount, pendingOf s D ++ out.map Prod.fst⟩ ∧
        pendingOf s extra = out.map Prod.fst ∧
        wireRows s (linkFrames node') = wireRows s (linkFrames node) ++ out.map (fun o => o.2.message)

theorem AckLoop.start {d : DownId} {node : DownstreamNode J} {k : Nat} {D : List PendingAck}
    (hd : σ.dnode.get d = some node) : AckLoop cfg σ d node k [] D σ where
  dead _ h := h
  foreign _ _ h _ := h
  other _ _ := rfl
  node := by
    refine ⟨node, [], hd, ⟨rfl, rfl⟩, by simp, fun s req hs _ => ⟨[], req, hs, rfl, ?_, rfl, by simp⟩⟩
    simpa [SubRequester.window] using @Window.AckRun.untouched _ QueuedMessage.msgId _ _ (CanSend req node) _
      (w := req.window s (ackEntries node.pendingAcks)) (B := pendingOf s D)

/-- One round keeps the loop invariant. -/
theorem AckLoop.step {τ τ' : Broker J} {d : DownId} {node : DownstreamNode J} {k : Nat}
    {Q P D : List PendingAck} {e : PendingAck} (hloop : AckLoop cfg σ d node k P D τ)
    (hready : AckReady σ d node) (hV : ackEntries node.pendingAcks = Q ++ e :: P ++ D)
    (hcov : ∀ a ∈ Q ++ e :: P, a.msgId ≤ k) (hD : ∀ a ∈ D, k < a.msgId) (h : ackOne cfg τ e = some τ') :
    AckLoop cfg σ d node k (e :: P) D τ' := by
  -- the entry belongs to a live SubRequester of this requester
  obtain ⟨req1, hs1⟩ : ∃ req1, τ.sub.get e.subscription = some req1 := by
    simp only [ackOne, Option.bind_eq_bind, Option.bind_eq_some_iff] at h
    obtain ⟨req1, hs1, -⟩ := h
    exact ⟨req1, hs1⟩
  obtain ⟨req0, hs0⟩ : ∃ req0, σ.sub.get e.subscription = some req0 := by
    cases hs0 : σ.sub.get e.subscription with
    | none => rw [hloop.dead _ hs0] at hs1; exact absurd hs1 (by simp)
    | some req0 => exact ⟨req0, rfl⟩
  have hown := hready.owner e (by simp [hV]) req0 hs0
  obtain ⟨node1, extra, hd1, hnode1, hext, hsubs⟩ := hloop.node
  obtain ⟨out1, req1', hs1', hreq1, hrun1, hnum1, hwire1⟩ := hsubs _ req0 hs0 hown
  cases hs1.symm.trans hs1'
  have hr1 : req1.reqNode = d := by rw [hreq1]; exact hown
  have hcan : CanSend req1 node1 = CanSend req0 node := by
    unfold CanSend
    rw [hnode1.2, hreq1]
  -- the window of its SubRequester
  have hsorted : (req0.window e.subscription (ackEntries node.pendingAcks)).pending.Pairwise (· < ·) :=
    hready.sorted.sublist (List.filter_sublist.map _)
  have hpend : (req0.window e.subscription (ackEntries node.pendingAcks)).pending
      = pendingOf e.subscription Q ++ e.msgId :: pendingOf e.subscription P ++ pendingOf e.subscription D := by
    show pendingOf _ _ = _
    rw [hV, pendingOf_append, pendingOf_append, pendingOf_cons_self rfl]
  have hcore := hready.core _ req0 hs0 hown
  have hposc : 0 < req1.messageOutputQueueCount := hrun1.count_pos hcore hpend
  obtain ⟨out2, req2, node2, hstep, hemit, hround⟩ := ackOne_round h hs1 (hr1 ▸ hd1) hposc
  rw [hcan] at hround
  have hmem : ∀ l : List PendingAck, ∀ x ∈ pendingOf e.subscription l, ∃ a ∈ l, a.msgId = x := by
    intro l x hx
    obtain ⟨a, ha, rfl⟩ := List.mem_map.mp hx
    exact ⟨a, List.mem_of_mem_filter ha, rfl⟩
  have hrun2 := hrun1.round hround hcore hpend hsorted
    (by
      intro x hx
      rcases List.mem_append.mp hx with hx | hx
      · obtain ⟨a, ha, rfl⟩ := hmem _ x hx
        exact hcov a (by simp [ha])
      · rcases List.mem_cons.mp hx with rfl | hx
        · exact hcov e (by simp)
        · obtain ⟨a, ha, rfl⟩ := hmem _ x hx
          exact hcov a (by simp [ha]))
    (by
      intro x hx
      obtain ⟨a, ha, rfl⟩ := hmem _ x hx
      exact hD a ha)
  refine ⟨fun s hs => ?_, fun s req hs hne => ?_, fun x hx => ?_, ?_⟩
  · rw [hstep.sub, if_neg (fun he => by rw [he, hs0] at hs; exact absurd hs (by simp)), hloop.dead s hs]
  · rw [hstep.sub, if_neg (fun he => by rw [he, hs0] at hs; cases hs; exact hne hown),
      hloop.foreign s req hs hne]
  · rw [hstep.dnode, if_neg (by rw [hr1]; exact hx), hloop.other x hx]
  · refine ⟨node2, extra ++ newEntries e.subscription (linkFrames node1).length out2, ?_, ⟨?_, ?_⟩, ?_, ?_⟩
    · rw [hstep.dnode, if_pos hr1.symm]
    · rw [hstep.node_eq, hnode1.1]
    · rw [hemit.link, hnode1.2]
    · rw [hemit.acks, hext, List.append_assoc]
    · intro s req hs hr
      by_cases he : s = e.subscription
      · subst he
        cases hs0.symm.trans hs
        refine ⟨out1 ++ out2, req2, by rw [hstep.sub, if_pos rfl], ?_, ?_, ?_, ?_⟩
        · have hq := hstep.req_eq
          rw [hreq1] at hq
          exact hq
        · rw [pendingOf_cons_self rfl]
          exact hrun2
        · rw [pendingOf_append, hnum1, pendingOf_newEntries, List.map_append]
        · rw [hemit.frames, wireRows_append, wireRows_newFrames, hwire1, List.map_append, List.append_assoc]
      · obtain ⟨out, req', hs', hreq, hrun, hnum, hwire⟩ := hsubs s req hs hr
        refine ⟨out, req', ?_, hreq, ?_, ?_, ?_⟩
        · rw [hstep.sub, if_neg he, hs']
        · rwa [pendingOf_cons_ne (Ne.symm he)]
        · rw [pendingOf_append, hnum, pendingOf_newEntries_ne (Ne.symm he), List.append_nil]
        · rw [hemit.frames, wireRows_append, wireRows_newFrames_ne (Ne.symm he), List.append_nil, hwire]

/-- The whole loop, down to the first entry. -/
theorem AckLoop.run {τ τ' : Broker J} {d : DownId} {node : DownstreamNode J} {k : Nat}
    {D : List PendingAck} (hready : AckReady σ d node) (hD : ∀ a ∈ D, k < a.msgId) :
    ∀ (n : Nat) (Q P : List PendingAck), Q.length = n → ackEntries node.pendingAcks = Q ++ P ++ D →
      (∀ a ∈ Q ++ P, a.msgId ≤ k) → AckLoop cfg σ d node k P D τ → ackLoop cfg d n τ = some τ' →
      AckLoop cfg σ d node k (Q ++ P) D τ' := by
  intro n
  induction n generalizing τ with
  | zero =>
    intro Q P hQ hV hcov hloop h
    obtain rfl := List.length_eq_zero_iff.mp hQ
    obtain rfl := Option.some.inj h
    exact hloop
  | succ n ih =>
    intro Q P hQ hV hcov hloop h
    obtain ⟨Q, e, rfl⟩ := List.eq_nil_or_concat Q |>.resolve_left (by rintro rfl; simp at hQ)
    rw [List.concat_eq_append] at *
    have hlen : Q.length = n := by simpa using hQ
    simp only [ackLoop, Option.bind_eq_bind, Option.bind_eq_some_iff] at h
    obtain ⟨node1, hd1, vec, hvec, pack, hpack, τ1, hone, h⟩ := h
    obtain ⟨node1', extra, hd1', -, hext, -⟩ := hloop.node
    cases hd1.symm.trans hd1'
    -- the entry that is read is the last one of `Q`
    have hpe : pack = e := by
      rw [hvec, ackEntries_some] at hext
      rw [Vec.get_eq, hext, hV] at hpack
      simpa [← hlen] using hpack.symm
    subst hpe
    rw [List.append_assoc Q, List.singleton_append] at hV hcov ⊢
    exact ih Q (pack :: P) hlen hV hcov (hloop.step hready hV hcov hD hone) h

/-- What `check_subscription_ack` does to the windows of the requester, and that it does nothing else. -/
theorem checkSubscriptionAck_windows {d : DownId} {node : DownstreamNode J} {k : Nat}
    (h : checkSubscriptionAck cfg σ d k = some σ') (hd : σ.dnode.get d = some node)
    (hready : AckReady σ d node) :
    (∀ s, σ.sub.get s = none → σ'.sub.get s = none) ∧
    (∀ s req, σ.sub.get s = some req → req.reqNode ≠ d → σ'.sub.get s = some req) ∧
    (∀ e, e ≠ d → σ'.dnode.get e = σ.dnode.get e) ∧
    ∃ node' A B extra, σ'.dnode.get d = some node' ∧ SameButLink node node' ∧
      ackEntries node.pendingAcks = A ++ B ∧ (∀ a ∈ A, a.msgId ≤ k) ∧ (∀ b ∈ B, k < b.msgId) ∧
      ackEntries node'.pendingAcks = B ++ extra ∧
      ∀ s req, σ.sub.get s = some req → req.reqNode = d →
        ∃ out req', σ'.sub.get s = some req' ∧ SameButQueue req req' ∧
          Window.AckRun QueuedMessage.msgId QueuedMessage.setId cfg.brokerMaxWsSendQueueSize
            (CanSend req node) k (req.window s (ackEntries node.pendingAcks)) (pendingOf s A) (pendingOf s B)
            out (req'.window s (ackEntries node'.pendingAcks)) ∧
          wireRows s (linkFrames node') = wireRows s (linkFrames node) ++ out.map (fun o => o.2.message) := by
  simp only [checkSubscriptionAck, Option.bind_eq_bind, Option.bind_eq_some_iff] at h
  obtain ⟨node0, hd0, τ, hloop, h⟩ := h
  cases hd.symm.trans hd0
  obtain rfl := Option.some.inj h
  obtain ⟨hle, htake, hdrop⟩ := ackCut_spec (k := k) hready.sorted
  set last := ackCut node k with hlast
  have hsplit := List.take_append_drop last (ackEntries node.pendingAcks)
  have hinv := AckLoop.run hready hdrop last ((ackEntries node.pendingAcks).take last) [] (by simpa using hle)
    (by simp) (by simpa using htake) (.start hd) hloop
  rw [List.append_nil] at hinv
  obtain ⟨node1, extra, hd1, hnode1, hext, hsubs⟩ := hinv.node
  have hacks : ackEntries (node1.pendingAcks.map (fun v => v.erasePrefix last))
      = (ackEntries node.pendingAcks).drop last ++ extra := by
    have hdrop1 : ackEntries (node1.pendingAcks.map (fun v => v.erasePrefix last))
        = (ackEntries node1.pendingAcks).drop last := by
      cases node1.pendingAcks <;> simp
    rw [hdrop1, hext, List.drop_append_of_le_length hle]
  refine ⟨hinv.dead, hinv.foreign, fun e he => ?_,
    { node1 with pendingAcks := node1.pendingAcks.map (fun v => v.erasePrefix last) }, _, _, extra, ?_,
    ⟨?_, hnode1.2⟩, hsplit.symm, htake, hdrop, hacks, ?_⟩
  · show (τ.dnode.modify d _).get e = _
    rw [Heap.get_modify_ne he, hinv.other e he]
  · show (τ.dnode.modify d _).get d = _
    rw [Heap.get_modify_self, hd1]
    rfl
  · rw [hnode1.1]
  · intro s req hs hr
    obtain ⟨out, req', hs', hreq, hrun, hnum, hwire⟩ := hsubs s req hs hr
    refine ⟨out, req', hs', hreq, ?_, hwire⟩
    have hw : req'.window s (ackEntries (node1.pendingAcks.map (fun v => v.erasePrefix last)))
        = ⟨queueRows req'.messageQueue, req'.messageOutputQueueCount,
            pendingOf s ((ackEntries node.pendingAcks).drop last) ++ out.map Prod.fst⟩ := by
      unfold SubRequester.window
      rw [hacks, pendingOf_append, hnum]
    rw [hw]
    exact hrun

end Broker

end DSLink
