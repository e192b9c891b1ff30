import DSLink.Lib.SendOrder
import DSLink.Broker.Acks

/-!
# `Broker.Windows` — the message queues of all SubRequesters as send windows

`WindowOk` says what is in order at one SubRequester: below level 3 its queue is a window over the rows that were
published to it, onto the wire of its requester; at level 3 it has no queue, and its counter counts its entries.
`Tame` adds what holds at the nodes that are not its requester. A call keeps `Tame` for every SubRequester, those it
is not about because they are `Unmoved`.

A full ring loses its oldest row. That is harmless while nothing was sent on the link, and else breaks the window:
`Roomy` excludes it.

## Contents
- `WindowOk`, `Rested`, `Roomy`, `Tame`; `Unmoved` and its rules.
- One lemma for each call that moves a window.
-/

namespace DSLink

variable {J : Type} {cfg : Config} {σ τ σ' : Broker J} {s t : SubId}

namespace Broker

/-- The rows that were published to `s`. -/
def publishedRows (σ : Broker J) (s : SubId) : List (Row J) :=
  (σ.published.filter (fun p => p.1 = s)).map Prod.snd

/-- The queue of `s` is as it should be. -/
structure WindowOk (cfg : Config) (log : List (Row J)) (s : SubId) (req : SubRequester J) (node : DownstreamNode J) :
    Prop where
  direct : 2 < req.qos → queueRows req.messageQueue = [] ∧
    req.messageOutputQueueCount = (pendingOf s (ackEntries node.pendingAcks)).length
  ring : ∀ rb ∈ req.messageQueue, rb.size = cfg.brokerMaxQosQueueSize
  plain : req.qos ≤ 2 → req.qosQueue.getD [] = []
  order : req.qos ≤ 2 → Window.InOrder QueuedMessage.msgId QueuedMessage.message cfg.brokerMaxWsSendQueueSize log
    (wireRows s (linkFrames node)) (req.window s (ackEntries node.pendingAcks))
  away : node.link = none → req.reqSid = noSid

/-- Nothing is left to send, or the limit is reached. -/
def Rested (cfg : Config) (req : SubRequester J) (node : DownstreamNode J) : Prop :=
  CanSend req node → req.qos ≤ 2 →
    Window.Settled QueuedMessage.msgId cfg.brokerMaxWsSendQueueSize (queueRows req.messageQueue)

/-- The queue is not full, or nothing was sent on the link. -/
def Roomy (cfg : Config) (s : SubId) (req : SubRequester J) (node : DownstreamNode J) : Prop :=
  req.qos ≤ 2 → (queueRows req.messageQueue).length < cfg.brokerMaxQosQueueSize ∨ wireRows s (linkFrames node) = []

/-- If the queue of `s` is roomy it is as it should be, and no node but its requester has to do with `s`. -/
structure Tame (cfg : Config) (σ : Broker J) (s : SubId) : Prop where
  window : ∀ req node, σ.sub.get s = some req → σ.dnode.get req.reqNode = some node → Roomy cfg s req node →
    WindowOk cfg (σ.publishedRows s) s req node
  foreign : ∀ d node, σ.dnode.get d = some node →
    (σ.sub.next ≤ s ∨ ∃ req, σ.sub.get s = some req ∧ req.reqNode ≠ d) →
    pendingOf s (ackEntries node.pendingAcks) = [] ∧ wireRows s (linkFrames node) = []

/-- If the queue of `s` is roomy, `s` does not wait to be sent for. -/
def RestsAt (cfg : Config) (σ : Broker J) (s : SubId) : Prop :=
  ∀ req node, σ.sub.get s = some req → σ.dnode.get req.reqNode = some node → Roomy cfg s req node → Rested cfg req node

theorem WindowOk.core {log : List (Row J)} {req : SubRequester J} {node : DownstreamNode J}
    (h : WindowOk cfg log s req node) :
    Window.Core QueuedMessage.msgId (req.window s (ackEntries node.pendingAcks)) := by
  by_cases hq : req.qos ≤ 2
  · exact (h.order hq).core
  · obtain ⟨hrows, hcount⟩ := h.direct (Nat.lt_of_not_le hq)
    exact ⟨⟨[], [], ⟨hrows, by simp, by simp⟩, List.nil_sublist _⟩, hcount⟩

/-! ## What a call is not about -/

/-- Two SubRequesters have the same window. -/
def SameSub (req req' : SubRequester J) : Prop :=
  req'.reqNode = req.reqNode ∧ req'.reqSid = req.reqSid ∧ req'.qos = req.qos ∧ req'.qosQueue = req.qosQueue ∧
    req'.messageQueue = req.messageQueue ∧ req'.messageOutputQueueCount = req.messageOutputQueueCount

/-- Two nodes have the same to do with `s`. -/
def SameNode (s : SubId) (node node' : DownstreamNode J) : Prop :=
  pendingOf s (ackEntries node'.pendingAcks) = pendingOf s (ackEntries node.pendingAcks) ∧
    wireRows s (linkFrames node') = wireRows s (linkFrames node) ∧ node'.link.isSome = node.link.isSome

/-- A step that did nothing to the window of `s`. -/
structure Unmoved (s : SubId) (σ σ' : Broker J) : Prop where
  next : σ.sub.next ≤ σ'.sub.next
  sub : ∀ req', σ'.sub.get s = some req' → ∃ req, σ.sub.get s = some req ∧ SameSub req req'
  node : ∀ d node', σ'.dnode.get d = some node' → ∃ node, σ.dnode.get d = some node ∧ SameNode s node node'
  log : σ'.publishedRows s = σ.publishedRows s

theorem SameNode.refl (s : SubId) (node : DownstreamNode J) : SameNode s node node := ⟨rfl, rfl, rfl⟩

namespace Unmoved

theorem refl (s : SubId) (σ : Broker J) : Unmoved s σ σ where
  next := Nat.le_refl _
  sub req' h := ⟨req', h, rfl, rfl, rfl, rfl, rfl, rfl⟩
  node _ node' h := ⟨node', h, .refl s node'⟩
  log := rfl

theorem trans (h : Unmoved s σ τ) (h' : Unmoved s τ σ') : Unmoved s σ σ' where
  next := Nat.le_trans h.next h'.next
  sub req'' hs'' := by
    obtain ⟨req', hs', a', b', c', d', e', f'⟩ := h'.sub req'' hs''
    obtain ⟨req, hs, a, b, c, d, e, f⟩ := h.sub req' hs'
    exact ⟨req, hs, a'.trans a, b'.trans b, c'.trans c, d'.trans d, e'.trans e, f'.trans f⟩
  node d node'' hd'' := by
    obtain ⟨node', hd', a', b', c'⟩ := h'.node d node'' hd''
    obtain ⟨node, hd, a, b, c⟩ := h.node d node' hd'
    exact ⟨node, hd, a'.trans a, b'.trans b, c'.trans c⟩
  log := h'.log.trans h.log

/-- The parts a window is made of. -/
abbrev windowParts : List Part := [.subs, .sid, .qos, .qosQueue, .queue, .wire, .acks, .published]

theorem frame {ps : List Part} (hf : Frame ps σ σ') (hps : ∀ p ∈ windowParts, p ∉ ps) : Unmoved s σ σ' where
  next := Nat.le_of_eq (hf .subs (hps _ (by simp))).1.symm
  sub req' hs' := by
    obtain ⟨req, hs, -, hn⟩ := hf.sub_rev (p := .subs) (hps _ (by simp)) (by simp) hs'
    obtain ⟨req1, hs1, hsid⟩ := hf.sub_rev (p := .sid) (hps _ (by simp)) (by simp) hs'
    obtain ⟨req2, hs2, hqos⟩ := hf.sub_rev (p := .qos) (hps _ (by simp)) (by simp) hs'
    obtain ⟨req3, hs3, hqq⟩ := hf.sub_rev (p := .qosQueue) (hps _ (by simp)) (by simp) hs'
    obtain ⟨req4, hs4, hmq, hc⟩ := hf.sub_rev (p := .queue) (hps _ (by simp)) (by simp) hs'
    cases hs.symm.trans hs1
    cases hs.symm.trans hs2
    cases hs.symm.trans hs3
    cases hs.symm.trans hs4
    exact ⟨req, hs, hn, hsid, hqos, hqq, hmq, hc⟩
  node d node' hd' := by
    obtain ⟨node, hd, hlink, hwire⟩ := hf.dnode_rev (p := .wire) (hps _ (by simp)) (by simp) hd'
    obtain ⟨node1, hd1, hacks⟩ := hf.dnode_rev (p := .acks) (hps _ (by simp)) (by simp) hd'
    cases hd.symm.trans hd1
    have hacks : node'.pendingAcks = node.pendingAcks := hacks
    exact ⟨node, hd, by rw [hacks], hwire s, hlink⟩
  log := by
    have hpub : σ'.published = σ.published := hf .published (hps _ (by simp))
    unfold publishedRows
    rw [hpub]

/-- Rewriting another SubRequester. -/
theorem modSub_ne (hst : t ≠ s) (f : SubRequester J → SubRequester J) : Unmoved t σ (σ.modSub s f) where
  next := Nat.le_refl _
  sub req' h := by
    have h : (σ.sub.modify s f).get t = some req' := h
    rw [Heap.get_modify_ne hst] at h
    exact ⟨req', h, rfl, rfl, rfl, rfl, rfl, rfl⟩
  node d node' h := ⟨node', h, .refl t node'⟩
  log := rfl

/-- Rewriting a node without touching what `s` has to do with it. -/
theorem modDnode {d : DownId} {f : DownstreamNode J → DownstreamNode J}
    (hf : ∀ node, σ.dnode.get d = some node → SameNode s node (f node)) : Unmoved s σ (σ.modDnode d f) where
  next := Nat.le_refl _
  sub req' h := ⟨req', h, rfl, rfl, rfl, rfl, rfl, rfl⟩
  node e node' h := by
    have h : (σ.dnode.modify d f).get e = some node' := h
    rw [Heap.get_modify] at h
    split at h
    · rename_i he
      obtain ⟨node, hd, rfl⟩ := Option.map_eq_some_iff.mp h
      exact ⟨node, he ▸ hd, hf node (he ▸ hd)⟩
    · exact ⟨node', h, .refl s node'⟩
  log := rfl

/-- A row for another SubRequester. -/
theorem publish_ne (hst : t ≠ s) (row : Row J) :
    Unmoved t σ { σ with published := σ.published ++ [(s, row)] } where
  next := Nat.le_refl _
  sub req' h := ⟨req', h, rfl, rfl, rfl, rfl, rfl, rfl⟩
  node d node' h := ⟨node', h, .refl t node'⟩
  log := by simp [publishedRows, Ne.symm hst]

/-- Freeing another SubRequester. -/
theorem free_ne (hst : t ≠ s) : Unmoved t σ { σ with sub := σ.sub.free s } where
  next := Nat.le_refl _
  sub req' h := by
    have h : (σ.sub.free s).get t = some req' := h
    rw [Heap.get_free_ne hst] at h
    exact ⟨req', h, rfl, rfl, rfl, rfl, rfl, rfl⟩
  node d node' h := ⟨node', h, .refl t node'⟩
  log := rfl

/-- A step of the queue of another SubRequester. -/
theorem queueStep {req req' : SubRequester J} {node node' : DownstreamNode J} {out : List (Nat × QueuedMessage J)}
    (hst : t ≠ s) (hstep : QueueStep σ σ' s req req' node node') (hemit : Emits s req.reqSid node node' out)
    (hd : σ.dnode.get req.reqNode = some node) (hnext : σ'.sub.next = σ.sub.next)
    (hlog : σ'.published = σ.published) : Unmoved t σ σ' where
  next := Nat.le_of_eq hnext.symm
  sub req1 h := by
    rw [hstep.sub, if_neg hst] at h
    exact ⟨req1, h, rfl, rfl, rfl, rfl, rfl, rfl⟩
  node d node1 h := by
    rw [hstep.dnode] at h
    split at h
    · rename_i he
      cases h
      refine ⟨node, he ▸ hd, ?_, ?_, hemit.link⟩
      · rw [hemit.acks, pendingOf_append, pendingOf_newEntries_ne (Ne.symm hst), List.append_nil]
      · rw [hemit.frames, wireRows_append, wireRows_newFrames_ne (Ne.symm hst), List.append_nil]
    · exact ⟨node1, h, .refl t node1⟩
  log := by
    unfold publishedRows
    rw [hlog]

end Unmoved

theorem WindowOk.congr {log : List (Row J)} {req req' : SubRequester J} {node node' : DownstreamNode J}
    (h : WindowOk cfg log s req node) (hreq : SameSub req req') (hnode : SameNode s node node') :
    WindowOk cfg log s req' node' := by
  obtain ⟨-, hsid, hqos, hqq, hmq, hc⟩ := hreq
  obtain ⟨hpend, hwire, hlink⟩ := hnode
  have hw : req'.window s (ackEntries node'.pendingAcks) = req.window s (ackEntries node.pendingAcks) := by
    unfold SubRequester.window
    rw [hmq, hc, hpend]
  refine ⟨fun hq => ?_, ?_, ?_, ?_, fun hnone => ?_⟩
  · rw [hmq, hc, hpend]
    exact h.direct (hqos ▸ hq)
  · rw [hmq]
    exact h.ring
  · rw [hqos, hqq]
    exact h.plain
  · rw [hqos, hw, hwire]
    exact h.order
  · rw [hsid]
    rw [hnone, Option.isSome_none] at hlink
    exact h.away (Option.isNone_iff_eq_none.mp (by simpa using hlink.symm))

theorem Unmoved.roomy {req req' : SubRequester J} {node node' : DownstreamNode J} (hreq : SameSub req req')
    (hnode : SameNode s node node') (h : Roomy cfg s req' node') : Roomy cfg s req node := by
  intro hq
  have h' := h (hreq.2.2.1 ▸ hq)
  rwa [hreq.2.2.2.2.1, hnode.2.1] at h'

theorem Tame.unmoved (h : Tame cfg σ s) (hu : Unmoved s σ σ') : Tame cfg σ' s := by
  constructor
  · intro req' node' hs' hd' hroom
    obtain ⟨req, hs, hreq⟩ := hu.sub req' hs'
    rw [hreq.1] at hd'
    obtain ⟨node, hd, hnode⟩ := hu.node _ node' hd'
    exact hu.log ▸ (h.window req node hs hd (Unmoved.roomy hreq hnode hroom)).congr hreq hnode
  · intro d node' hd' hfor
    obtain ⟨node, hd, hpend, hwire, -⟩ := hu.node d node' hd'
    rw [hpend, hwire]
    refine h.foreign d node hd (hfor.imp (Nat.le_trans hu.next) ?_)
    rintro ⟨req', hs', hne⟩
    obtain ⟨req, hs, hn, -⟩ := hu.sub req' hs'
    exact ⟨req, hs, hn ▸ hne⟩

theorem RestsAt.unmoved (h : RestsAt cfg σ s) (hu : Unmoved s σ σ') : RestsAt cfg σ' s := by
  intro req' node' hs' hd' hroom hcan hq
  obtain ⟨req, hs, hreq⟩ := hu.sub req' hs'
  rw [hreq.1] at hd'
  obtain ⟨node, hd, hnode⟩ := hu.node _ node' hd'
  rw [hreq.2.2.2.2.1]
  refine h req node hs hd (Unmoved.roomy hreq hnode hroom) ⟨?_, ?_⟩ (hreq.2.2.1 ▸ hq)
  · rw [← hnode.2.2]
    exact hcan.1
  · rw [← hreq.2.1]
    exact hcan.2

/-! ## The rings keep their size -/

/-- The ring of `req'` has the size of the ring of `req`. -/
def SameRing (req req' : SubRequester J) : Prop :=
  ∀ rb' ∈ req'.messageQueue, ∃ rb ∈ req.messageQueue, rb'.size = rb.size

theorem SameRing.refl (req : SubRequester J) : SameRing req req := fun rb h => ⟨rb, h, rfl⟩

theorem SameRing.trans {a b c : SubRequester J} (h : SameRing a b) (h' : SameRing b c) : SameRing a c := by
  intro rb'' hrb''
  obtain ⟨rb', hrb', he'⟩ := h' rb'' hrb''
  obtain ⟨rb, hrb, he⟩ := h rb' hrb'
  exact ⟨rb, hrb, he'.trans he⟩

theorem sendQueuedLoop_ring {reqSid fuel : Nat} {x : Sender J} {result : Nat} :
    ∀ rb' ∈ (sendQueuedLoop cfg s reqSid fuel x result).1.messageQueue, ∃ rb ∈ x.messageQueue, rb'.size = rb.size := by
  induction fuel generalizing x result with
  | zero => exact fun rb h => ⟨rb, h, rfl⟩
  | succ fuel ih =>
    unfold sendQueuedLoop
    split
    · split
      · exact fun rb h => ⟨rb, h, rfl⟩
      · split
        · exact fun rb h => ⟨rb, h, rfl⟩
        · intro rb' h
          obtain ⟨rb, hrb, he⟩ := ih rb' h
          obtain ⟨rb0, hrb0, rfl⟩ := Option.map_eq_some_iff.mp hrb
          exact ⟨rb0, hrb0, he⟩
    · exact fun rb h => ⟨rb, h, rfl⟩

theorem sendQueuedMessages_rings (h : sendQueuedMessages cfg σ s = some σ') : Heap.Rel SameRing σ.sub σ'.sub := by
  simp only [sendQueuedMessages, Option.bind_eq_bind, Option.bind_eq_some_iff] at h
  obtain ⟨req, hs, node, -, h⟩ := h
  split at h
  · cases h
    exact .refl SameRing.refl _
  · split at h
    · cases h
      refine Heap.rel_modify SameRing.refl (fun req' hs' => ?_)
      cases hs.symm.trans hs'
      exact sendQueuedLoop_ring
    · cases h
      exact .refl SameRing.refl _

theorem removeLoop_size (k fuel : Nat) (rb : Ringbuffer (QueuedMessage J)) (result : Nat) :
    (removeLoop k fuel rb result).1.size = rb.size := by
  induction fuel generalizing rb result with
  | zero => rfl
  | succ fuel ih =>
    unfold removeLoop
    split
    · rfl
    · split
      · rfl
      · rw [ih, Ringbuffer.size_rbPop]

theorem ackLoop_rings {d : DownId} {n : Nat} (h : ackLoop cfg d n σ = some σ') : Heap.Rel SameRing σ.sub σ'.sub := by
  induction n generalizing σ with
  | zero =>
    cases h
    exact .refl SameRing.refl _
  | succ n ih =>
    simp only [ackLoop, ackOne, Option.bind_eq_bind, Option.bind_eq_some_iff] at h
    obtain ⟨node, -, vec, -, pack, -, τ, ⟨req, hs, hone⟩, h⟩ := h
    refine Heap.Rel.trans (R := SameRing) (fun _ _ _ => SameRing.trans) ?_ (ih h)
    have hmod : Heap.Rel SameRing σ.sub (σ.sub.modify pack.subscription (fun req' =>
        { req' with
          messageQueue := (removeFromMessageQueue req.messageQueue pack.msgId).1
          messageOutputQueueCount := dec32 req'.messageOutputQueueCount })) := by
      refine Heap.rel_modify SameRing.refl (fun req' hs' => ?_)
      cases hs.symm.trans hs'
      intro rb' hrb'
      cases hq : req.messageQueue with
      | none =>
        simp [hq, removeFromMessageQueue] at hrb'
      | some rb =>
        simp only [hq, removeFromMessageQueue, Option.mem_def, Option.some.injEq] at hrb'
        exact ⟨rb, rfl, by rw [← hrb', removeLoop_size]⟩
    split at hone
    · exact Heap.Rel.trans (R := SameRing) (fun _ _ _ => SameRing.trans) hmod (sendQueuedMessages_rings hone)
    · cases hone
      exact hmod

/-! ## Sending -/

/-- The rows a run of the sender sends for `s` go on the wire. -/
theorem Emits.wire {req : SubRequester J} {node node' : DownstreamNode J} {out : List (Nat × QueuedMessage J)}
    (h : Emits s req.reqSid node node' out) :
    wireRows s (linkFrames node') = wireRows s (linkFrames node) ++ out.map (fun o => o.2.message) := by
  rw [h.frames, wireRows_append, wireRows_newFrames]

theorem Emits.pending {req : SubRequester J} {node node' : DownstreamNode J} {out : List (Nat × QueuedMessage J)}
    (h : Emits s req.reqSid node node' out) :
    pendingOf s (ackEntries node'.pendingAcks) = pendingOf s (ackEntries node.pendingAcks) ++ out.map Prod.fst := by
  rw [h.acks, pendingOf_append, pendingOf_newEntries]

/-- Sending for `s` keeps its window as it should be, and leaves nothing to send. -/
theorem WindowOk.send {log : List (Row J)} {req : SubRequester J} {node : DownstreamNode J}
    (hs : σ.sub.get s = some req) (hd : σ.dnode.get req.reqNode = some node)
    (hsend : sendQueuedMessages cfg σ s = some σ') :
    ∃ req' node', σ'.sub.get s = some req' ∧ σ'.dnode.get req'.reqNode = some node' ∧
      (∀ e, e ≠ req.reqNode → σ'.dnode.get e = σ.dnode.get e) ∧ req'.reqNode = req.reqNode ∧
      (Roomy cfg s req' node' → Roomy cfg s req node) ∧
      (WindowOk cfg log s req node → WindowOk cfg log s req' node' ∧ Rested cfg req' node') := by
  obtain ⟨out, req', node', hstep, hemit, hcan, hnot⟩ := sendQueuedMessages_run hsend hs hd
  have hs' : σ'.sub.get s = some req' := by rw [hstep.sub, if_pos rfl]
  have hn : req'.reqNode = req.reqNode := by rw [hstep.req_eq]
  have hqos : req'.qos = req.qos := by rw [hstep.req_eq]
  have hd' : σ'.dnode.get req'.reqNode = some node' := by rw [hstep.dnode, if_pos hn]
  refine ⟨req', node', hs', hd', fun e he => by rw [hstep.dnode, if_neg he], hn, ?_⟩
  by_cases hc : CanSend req node
  · have hrun : Window.SendRun QueuedMessage.msgId QueuedMessage.setId cfg.brokerMaxWsSendQueueSize
        (req.window s (ackEntries node.pendingAcks)) out (req'.window s (ackEntries node'.pendingAcks)) := by
      have hl := hcan hc (pendingOf s (ackEntries node.pendingAcks))
      rw [← hemit.pending] at hl
      exact hl
    have hlen : (queueRows req'.messageQueue).length = (queueRows req.messageQueue).length := hrun.length
    constructor
    · intro hroom hq
      rcases hroom (hqos ▸ hq) with hlt | hnil
      · exact .inl (hlen ▸ hlt)
      · rw [hemit.wire] at hnil
        exact .inr (List.append_eq_nil_iff.mp hnil).1
    intro h
    have hset : ∀ (m : QueuedMessage J) id, (m.setId id).msgId = id := fun _ _ => rfl
    have hmessage : ∀ (m : QueuedMessage J) id, (m.setId id).message = m.message := fun _ _ => rfl
    have horder := fun hq => (h.order hq).send hset hmessage hrun
    refine ⟨⟨fun hq => ?_, ?_, ?_, fun hq => ?_, fun hnone => ?_⟩, fun _ hq => ?_⟩
    · -- without rows nothing is sent
      obtain ⟨hrows, hcount⟩ := h.direct (hqos ▸ hq)
      have hstop : cfg.brokerMaxWsSendQueueSize ≤ (req.window s (ackEntries node.pendingAcks)).count ∨
          (req.window s (ackEntries node.pendingAcks)).rows.length ≤
            (req.window s (ackEntries node.pendingAcks)).count := by
        refine .inr ?_
        show (queueRows req.messageQueue).length ≤ _
        rw [hrows]
        exact Nat.zero_le _
      obtain ⟨-, hsame⟩ := hrun.out_nil hstop
      obtain ⟨hrows', hcount', hpend'⟩ := Window.mk.inj hsame
      exact ⟨hrows'.trans hrows, by rw [hcount', hpend', hcount]⟩
    · obtain ⟨req1, hs1, hring⟩ := Heap.Rel.get (sendQueuedMessages_rings hsend) hs
      cases hs'.symm.trans hs1
      intro rb' hrb'
      obtain ⟨rb, hrb, he⟩ := hring rb' hrb'
      exact he.trans (h.ring rb hrb)
    · rw [hstep.req_eq]
      exact h.plain
    · rw [hemit.wire]
      exact (horder (hqos ▸ hq)).1
    · rw [hstep.req_eq]
      refine h.away (Option.isNone_iff_eq_none.mp ?_)
      have hlink := hemit.link
      rw [hnone] at hlink
      simpa using hlink.symm
    · exact (horder (hqos ▸ hq)).2
  · obtain ⟨-, rfl, rfl⟩ := hnot hc
    exact ⟨id, fun h => ⟨h, fun hcan => absurd hcan hc⟩⟩

theorem sendQueuedMessages_next (h : sendQueuedMessages cfg σ s = some σ') :
    σ'.sub.next = σ.sub.next ∧ σ'.published = σ.published :=
  ⟨(sendQueuedMessages_rings h).1, (Frame.sendQueuedMessages h) .published (by decide)⟩

theorem Unmoved.sendQueued (hst : t ≠ s) (h : sendQueuedMessages cfg σ s = some σ') : Unmoved t σ σ' := by
  have h0 := h
  simp only [sendQueuedMessages, Option.bind_eq_bind, Option.bind_eq_some_iff] at h0
  obtain ⟨req, hs, node, hd, -⟩ := h0
  obtain ⟨out, req', node', hstep, hemit, -⟩ := sendQueuedMessages_run h hs hd
  exact .queueStep hst hstep hemit hd (sendQueuedMessages_next h).1 (sendQueuedMessages_next h).2

/-- What keeps the window of `s` as it should be, on a step that leaves the other nodes alone. -/
theorem Tame.at_self {req req' : SubRequester J} {node' : DownstreamNode J} (h : Tame cfg σ s)
    (hs : σ.sub.get s = some req) (hs' : σ'.sub.get s = some req') (hd' : σ'.dnode.get req'.reqNode = some node')
    (hn : req'.reqNode = req.reqNode) (hother : ∀ e, e ≠ req.reqNode → σ'.dnode.get e = σ.dnode.get e)
    (hok : Roomy cfg s req' node' → WindowOk cfg (σ'.publishedRows s) s req' node') : Tame cfg σ' s := by
  constructor
  · intro req1 node1 hs1 hd1 hroom
    cases hs'.symm.trans hs1
    cases hd'.symm.trans hd1
    exact hok hroom
  · intro d node1 hd1 hfor
    have hne : req.reqNode ≠ d := by
      rcases hfor with hle | ⟨req1, hs1, hne⟩
      · rw [Heap.get_of_next_le hle] at hs'
        cases hs'
      · cases hs'.symm.trans hs1
        exact hn ▸ hne
    rw [hother d (Ne.symm hne)] at hd1
    exact h.foreign d node1 hd1 (.inr ⟨req, hs, hne⟩)

theorem RestsAt.at_self {req' : SubRequester J} {node' : DownstreamNode J} (hs' : σ'.sub.get s = some req')
    (hd' : σ'.dnode.get req'.reqNode = some node') (hrest : Roomy cfg s req' node' → Rested cfg req' node') :
    RestsAt cfg σ' s := by
  intro req1 node1 hs1 hd1 hroom
  cases hs'.symm.trans hs1
  cases hd'.symm.trans hd1
  exact hrest hroom

theorem Tame.sendQueued (h : Tame cfg σ t) (hsend : sendQueuedMessages cfg σ s = some σ') :
    Tame cfg σ' t ∧ (t = s ∨ RestsAt cfg σ t → RestsAt cfg σ' t) := by
  by_cases hts : t = s
  swap
  · have hu := Unmoved.sendQueued hts hsend
    exact ⟨h.unmoved hu, fun hrest => (hrest.resolve_left hts).unmoved hu⟩
  subst hts
  have h0 := hsend
  simp only [sendQueuedMessages, Option.bind_eq_bind, Option.bind_eq_some_iff] at h0
  obtain ⟨req, hs, node, hd, -⟩ := h0
  have hlog : σ'.publishedRows t = σ.publishedRows t := by
    unfold publishedRows
    rw [(sendQueuedMessages_next hsend).2]
  obtain ⟨req', node', hs', hd', hother, hn, hroom, hok⟩ :=
    @WindowOk.send J cfg σ σ' t (σ.publishedRows t) req node hs hd hsend
  have hwin := fun hr => hok (h.window req node hs hd (hroom hr))
  exact ⟨h.at_self hs hs' hd' hn hother (fun hr => hlog ▸ (hwin hr).1),
    fun _ => .at_self hs' hd' (fun hr => (hwin hr).2)⟩

end Broker

end DSLink
