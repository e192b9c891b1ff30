import DSLink.Broker.Queue
import DSLink.Broker.Index

/-!
# `Broker.Acks` — the entries of `pendingAcks` and the frames they stand for

`LinksOk` ties every vector of pending entries to the frames on its link: the entries are in the order of their
frames and carry the numbers of these. It holds in every reachable state. What an acknowledgement removes
follows from it, as long as the numbers of the entries are in the order of their frames where it matters:
the numbers restart at 1 after 2147483647.

## Contents
- `Numbered`: one link with its entries; `LinksOk` for all, and that every call keeps it.
- `ack_cut_exact`: what an acknowledgement removes.
- `wrapBefore`: a run up to a restart.
-/

namespace DSLink

variable {J : Type} {cfg : Config} {σ σ' : Broker J}

/-- The number of the frame at position `i` of a link. -/
def frameNumber (i : Nat) : Nat := i % 2147483647 + 1

/-- The frames of a link are numbered in turn, and the entries of `l` stand for frames of it, oldest first. -/
structure Numbered (link : RemoteDSLink J) (l : List PendingAck) : Prop where
  msgId : link.msgId = link.sent.length % 2147483647
  frames : ∀ i f, link.sent[i]? = some f → f.msgId = frameNumber i
  entries : ∀ e ∈ l, e.frame < link.sent.length ∧ e.msgId = frameNumber e.frame
  sorted : l.Pairwise (fun a b => a.frame < b.frame)

theorem Numbered.fresh (path : Option CString) : Numbered (⟨path, 0, []⟩ : RemoteDSLink J) [] :=
  ⟨rfl, by simp, by simp, List.Pairwise.nil⟩

theorem Numbered.sublist {link : RemoteDSLink J} {l l' : List PendingAck} (h : Numbered link l)
    (hl : l'.Sublist l) : Numbered link l' :=
  ⟨h.msgId, h.frames, fun e he => h.entries e (hl.subset he), h.sorted.sublist hl⟩

theorem Numbered.next {link : RemoteDSLink J} {l : List PendingAck} (h : Numbered link l) (obj : OutMsg J) :
    (brokerWsSendObj link obj).2 = frameNumber link.sent.length := by
  simp [brokerWsSendObj, frameNumber, h.msgId]

/-- One more frame. -/
theorem Numbered.send {link : RemoteDSLink J} {l : List PendingAck} (h : Numbered link l) (obj : OutMsg J) :
    Numbered (brokerWsSendObj link obj).1 l := by
  have hnext := h.next obj
  refine ⟨?_, fun i f hf => ?_, fun e he => ?_, h.sorted⟩
  · have := h.msgId
    simp only [brokerWsSendObj, List.length_append, List.length_singleton]
    split <;> omega
  · simp only [brokerWsSendObj] at hf hnext
    rcases Nat.lt_trichotomy i link.sent.length with hi | hi | hi
    · rw [List.getElem?_append_left hi] at hf
      exact h.frames i f hf
    · subst hi
      rw [List.getElem?_append_right (Nat.le_refl _), Nat.sub_self] at hf
      simp only [List.getElem?_cons_zero, Option.some.injEq] at hf
      rw [← hf]
      exact hnext
    · rw [List.getElem?_eq_none (by simp; omega)] at hf
      cases hf
  · have := h.entries e he
    simp only [brokerWsSendObj, List.length_append, List.length_singleton]
    exact ⟨by omega, this.2⟩

/-- An entry for the frame that is sent next. -/
theorem Numbered.entry {link : RemoteDSLink J} {l : List PendingAck} (h : Numbered link l) (obj : OutMsg J)
    (s : SubId) : Numbered (brokerWsSendObj link obj).1
      (l ++ [⟨s, (brokerWsSendObj link obj).2, link.sent.length⟩]) := by
  have hsend := h.send obj
  refine ⟨hsend.msgId, hsend.frames, fun e he => ?_, ?_⟩
  · rcases List.mem_append.mp he with he | he
    · exact hsend.entries e he
    · obtain rfl := List.mem_singleton.mp he
      exact ⟨by simp [brokerWsSendObj], h.next obj⟩
  · refine List.pairwise_append.mpr ⟨h.sorted, List.pairwise_singleton _ _, fun a ha b hb => ?_⟩
    obtain rfl := List.mem_singleton.mp hb
    exact (h.entries a ha).1

/-! ## Senders -/

/-- The link of a sender with its entries. -/
def Sender.Numbered (x : Sender J) : Prop := DSLink.Numbered x.link (ackEntries x.pendingAcks)

theorem ackEntries_addPendingAck (s : SubId) (msgId frame : Nat) (x : Sender J) :
    ackEntries (addPendingAck s msgId frame x).pendingAcks = ackEntries x.pendingAcks ++ [⟨s, msgId, frame⟩] := by
  cases hv : x.pendingAcks <;> simp [addPendingAck, hv]

theorem sendMessage_numbered {s : SubId} {reqSid : Nat} {row : Row J} {x : Sender J} (h : x.Numbered) :
    (sendMessage s reqSid row x).1.Numbered := by
  unfold Sender.Numbered
  rw [sendMessage, ackEntries_addPendingAck]
  exact DSLink.Numbered.entry h _ s

theorem sendQueuedLoop_numbered {s : SubId} {reqSid fuel : Nat} {x : Sender J} {result : Nat}
    (h : x.Numbered) : (sendQueuedLoop cfg s reqSid fuel x result).1.Numbered := by
  induction fuel generalizing x result with
  | zero => exact h
  | succ fuel ih =>
    unfold sendQueuedLoop
    split
    · split
      · exact h
      · split
        · exact h
        · exact ih (sendMessage_numbered h)
    · exact h

namespace Broker

/-! ## All links -/

/-- The entries of a node stand for frames of its link; without a link there are none. -/
def NodeOk (node : DownstreamNode J) : Prop :=
  match node.link with
  | some link => Numbered link (ackEntries node.pendingAcks)
  | none => ackEntries node.pendingAcks = []

/-- Every node is as it should be. -/
def LinksOk (σ : Broker J) : Prop := ∀ d node, σ.dnode.get d = some node → NodeOk node

theorem NodeOk.congr {node node' : DownstreamNode J} (h : NodeOk node) (hlink : node'.link = node.link)
    (hacks : node'.pendingAcks = node.pendingAcks) : NodeOk node' := by
  unfold NodeOk at h ⊢
  rwa [hlink, hacks]

theorem NodeOk.numbered {node : DownstreamNode J} {link : RemoteDSLink J} (h : NodeOk node)
    (hl : node.link = some link) : Numbered link (ackEntries node.pendingAcks) := by
  unfold NodeOk at h
  rwa [hl] at h

theorem NodeOk.wsSend {node node' : DownstreamNode J} {obj : OutMsg J} (h : NodeOk node)
    (hs : node.wsSend obj = some node') : NodeOk node' := by
  obtain ⟨link, hl, rfl⟩ := Option.map_eq_some_iff.mp hs
  exact (h.numbered hl).send obj

/-- Dropping entries. -/
theorem NodeOk.acks {node : DownstreamNode J} (h : NodeOk node) {v : Option (Vec PendingAck)}
    (hv : (ackEntries v).Sublist (ackEntries node.pendingAcks)) : NodeOk { node with pendingAcks := v } := by
  unfold NodeOk at h ⊢
  cases hl : node.link with
  | none =>
    rw [hl] at h
    have h : ackEntries node.pendingAcks = [] := h
    rw [h] at hv
    exact List.sublist_nil.mp hv
  | some link =>
    rw [hl] at h
    exact Numbered.sublist h hv

theorem LinksOk.frame {ps : List Part} (h : σ.LinksOk) (hf : Frame ps σ σ') (hlink : Part.link ∉ ps)
    (hacks : Part.acks ∉ ps) : σ'.LinksOk := by
  intro d node' hd'
  obtain ⟨node, hd, hl⟩ := hf.dnode_rev hlink (by simp) hd'
  obtain ⟨node0, hd0, ha⟩ := hf.dnode_rev hacks (by simp) hd'
  cases hd.symm.trans hd0
  exact (h d node hd).congr hl ha

theorem LinksOk.modDnode {d : DownId} {f : DownstreamNode J → DownstreamNode J} (h : σ.LinksOk)
    (hf : ∀ node, σ.dnode.get d = some node → NodeOk node → NodeOk (f node)) : (σ.modDnode d f).LinksOk := by
  intro e node he
  have he : (σ.dnode.modify d f).get e = some node := he
  rw [Heap.get_modify] at he
  split at he
  · obtain ⟨node0, h0, rfl⟩ := Option.map_eq_some_iff.mp he
    exact hf node0 h0 (h d node0 h0)
  · exact h e node he

theorem LinksOk.putSender {s : SubId} {d : DownId} {x : Sender J} (h : σ.LinksOk) (hx : x.Numbered) :
    (σ.putSender s d x).LinksOk :=
  LinksOk.modDnode (σ := σ.modSub s _) h (fun _ _ _ => hx)

theorem LinksOk.sendQueuedMessages {s : SubId} (h : σ.LinksOk)
    (hs : sendQueuedMessages cfg σ s = some σ') : σ'.LinksOk := by
  simp only [Broker.sendQueuedMessages, Option.bind_eq_bind, Option.bind_eq_some_iff] at hs
  obtain ⟨req, -, node, hd, hs⟩ := hs
  split at hs
  · cases hs; exact h
  · rename_i link hl
    split at hs
    · cases hs
      exact h.putSender (sendQueuedLoop_numbered ((h _ node hd).numbered hl))
    · cases hs; exact h

theorem LinksOk.update {s : SubId} {row : Row J} (h : σ.LinksOk)
    (hs : brokerUpdateSubReq cfg σ s row = some σ') : σ'.LinksOk := by
  simp only [Broker.brokerUpdateSubReq, Option.bind_eq_bind, Option.bind_eq_some_iff] at hs
  obtain ⟨req, -, node, hd, hs⟩ := hs
  split at hs
  · simp only [Option.bind_eq_some_iff] at hs
    obtain ⟨q, -, hs⟩ := hs
    exact LinksOk.sendQueuedMessages (σ := ({ σ with published := _ } : Broker J).modSub s _) h hs
  · split at hs
    · rename_i link hl
      cases hs
      exact LinksOk.putSender (σ := { σ with published := _ }) h (sendMessage_numbered ((h _ node hd).numbered hl))
    · split at hs
      · exact LinksOk.frame (σ := ({ σ with published := _ } : Broker J).modSub s _) h (.clearQosQueue hs)
          (by decide) (by decide)
      · exact LinksOk.frame (σ := ({ σ with published := _ } : Broker J).modSub s _) h (.serializeQosQueue hs)
          (by decide) (by decide)

theorem LinksOk.ackLoop {d : DownId} {n : Nat} (h : σ.LinksOk) (hs : ackLoop cfg d n σ = some σ') :
    σ'.LinksOk := by
  induction n generalizing σ with
  | zero => cases hs; exact h
  | succ n ih =>
    simp only [Broker.ackLoop, ackOne, Option.bind_eq_bind, Option.bind_eq_some_iff] at hs
    obtain ⟨node, -, vec, -, pack, -, τ, ⟨req, -, hτ⟩, hs⟩ := hs
    refine ih ?_ hs
    split at hτ
    · exact LinksOk.sendQueuedMessages (σ := σ.modSub pack.subscription _) h hτ
    · cases hτ; exact h

theorem LinksOk.ack {d : DownId} {k : Nat} (h : σ.LinksOk) (hs : checkSubscriptionAck cfg σ d k = some σ') :
    σ'.LinksOk := by
  simp only [checkSubscriptionAck, Option.bind_eq_bind, Option.bind_eq_some_iff] at hs
  obtain ⟨node, -, τ, hτ, hs⟩ := hs
  cases hs
  refine (h.ackLoop hτ).modDnode (fun node _ hok => hok.acks ?_)
  cases node.pendingAcks with
  | none => exact List.Sublist.refl _
  | some v => simpa using List.drop_sublist _ _

theorem LinksOk.wsSend {d : DownId} {node node0 node' : DownstreamNode J} {obj : OutMsg J} (h : σ.LinksOk)
    (hd : σ.dnode.get d = some node) (hs : node0.wsSend obj = some node') (hlink : node0.link = node.link)
    (hacks : node0.pendingAcks = node.pendingAcks) : (σ.modDnode d (fun _ => node')).LinksOk :=
  h.modDnode (fun _ _ _ => ((h d node hd).congr hlink hacks).wsSend hs)

theorem LinksOk.sendSubscribeRequest {d : DownId} {path : CString} {sid qos : Nat} (h : σ.LinksOk)
    (hs : sendSubscribeRequest σ d path sid qos = some σ') : σ'.LinksOk := by
  simp only [Broker.sendSubscribeRequest, Option.bind_eq_bind, Option.bind_eq_some_iff] at hs
  obtain ⟨node, hd, node', hn, hs⟩ := hs
  cases hs
  exact h.wsSend hd hn rfl rfl

theorem LinksOk.brokerMsgSendUnsubscribe {d : DownId} {sid : Nat} (h : σ.LinksOk)
    (hs : brokerMsgSendUnsubscribe σ d sid = some σ') : σ'.LinksOk := by
  simp only [Broker.brokerMsgSendUnsubscribe, Option.bind_eq_bind, Option.bind_eq_some_iff] at hs
  obtain ⟨node, hd, hs⟩ := hs
  split at hs
  · cases hs; exact h
  · simp only [Option.bind_eq_some_iff] at hs
    obtain ⟨node', hn, hs⟩ := hs
    cases hs
    exact h.wsSend hd hn rfl rfl

theorem LinksOk.streamQos {st : Option StreamId} (h : σ.LinksOk)
    (hs : brokerUpdateStreamQos σ st = some σ') : σ'.LinksOk := by
  unfold brokerUpdateStreamQos at hs
  split at hs
  · cases hs; exact h
  · simp only [Option.bind_eq_bind, Option.bind_eq_some_iff] at hs
    obtain ⟨stream, -, hs⟩ := hs
    split at hs
    · simp only [Option.bind_eq_some_iff] at hs
      obtain ⟨q, -, node, -, hs⟩ := hs
      split at hs
      · exact LinksOk.sendSubscribeRequest (σ := σ.modStream _ _) h hs
      · cases hs; exact h
    · cases hs; exact h

theorem LinksOk.subQos {s : SubId} {qos : Nat} (h : σ.LinksOk)
    (hs : brokerUpdateSubQos σ s qos = some σ') : σ'.LinksOk := by
  simp only [brokerUpdateSubQos, Option.bind_eq_bind, Option.bind_eq_some_iff] at hs
  obtain ⟨req, -, hs⟩ := hs
  split at hs
  · cases hs; exact h
  · simp only [Option.bind_eq_some_iff] at hs
    obtain ⟨τ, hτ, υ, hυ, hs⟩ := hs
    have hτ' : τ.LinksOk := LinksOk.frame (σ := σ.modSub s _) h (.serializeIf hτ) (by decide) (by decide)
    have hυ' : υ.LinksOk := LinksOk.streamQos (σ := τ.modSub s _) hτ' hυ
    exact hυ'.frame (.serializeIf hs) (by decide) (by decide)

theorem LinksOk.freeStream {st : StreamId} (h : σ.LinksOk) (hs : σ.brokerStreamFree st = some σ') :
    σ'.LinksOk := by
  simp only [brokerStreamFree, Option.bind_eq_bind, Option.bind_eq_some_iff] at hs
  obtain ⟨stream, -, hs⟩ := hs
  split at hs
  · simp only [Option.bind_eq_some_iff] at hs
    obtain ⟨node, -, τ, hτ, υ, hυ, hs⟩ := hs
    cases hs
    have hυ' := (h.frame (.detachRemote hτ) (by decide) (by decide)).brokerMsgSendUnsubscribe hυ
    exact LinksOk.modDnode (σ := υ) hυ' (fun _ _ hok => hok)
  · simp only [Option.bind_eq_some_iff] at hs
    obtain ⟨node, -, τ, hτ, hs⟩ := hs
    cases hs
    have hτ' := h.frame (.detachLocal hτ) (by decide) (by decide)
    exact hτ'

/-- What freeing `s` does to the entries: those of `s` go, if it has a queue. -/
theorem brokerFreeSubRequester_acks {s : SubId} {req : SubRequester J} (hs : σ.sub.get s = some req)
    (h : σ.brokerFreeSubRequester s = some σ') {d : DownId} {node' : DownstreamNode J}
    (hd' : σ'.dnode.get d = some node') :
    ∃ node, σ.dnode.get d = some node ∧ ackEntries node'.pendingAcks =
      if d = req.reqNode ∧ req.messageQueue.isSome then
        (ackEntries node.pendingAcks).filter (fun e => e.subscription ≠ s)
      else ackEntries node.pendingAcks := by
  simp only [brokerFreeSubRequester, Option.bind_eq_bind, Option.bind_eq_some_iff] at h
  obtain ⟨τ, hτ, υ, hυ, h⟩ := h
  cases h
  have hf := Frame.releaseSub hτ
  obtain ⟨req1, hs1, -, hn⟩ := hf.sub (p := .subs) (by decide) (by simp) hs
  obtain ⟨req2, hs2, hq, -⟩ := hf.sub (p := .queue) (by decide) (by simp) hs
  cases hs1.symm.trans hs2
  have hback : ∀ {d node}, τ.dnode.get d = some node →
      ∃ node0, σ.dnode.get d = some node0 ∧ node.pendingAcks = node0.pendingAcks := by
    intro d node hd
    obtain ⟨node0, hd0, ha⟩ := hf.dnode_rev (p := .acks) (by decide) (by simp) hd
    exact ⟨node0, hd0, ha⟩
  simp only [purgePendingAcks, Option.bind_eq_bind, Option.bind_eq_some_iff] at hυ
  obtain ⟨req3, hs3, hυ⟩ := hυ
  cases hs1.symm.trans hs3
  rw [← hq, ← hn]
  split at hυ
  · rename_i hnone
    cases hυ
    obtain ⟨node, hd, ha⟩ := hback hd'
    exact ⟨node, hd, by rw [ha, if_neg (by simp [hnone])]⟩
  · rename_i rb hsome
    simp only [Option.bind_eq_some_iff] at hυ
    obtain ⟨node1, hd1, vec, hv, hυ⟩ := hυ
    cases hυ
    have hd' : (τ.dnode.modify req1.reqNode _).get d = some node' := hd'
    rw [Heap.get_modify] at hd'
    by_cases hdn : d = req1.reqNode
    · subst hdn
      rw [if_pos rfl, hd1, Option.map_some, Option.some.injEq] at hd'
      obtain ⟨node, hd, ha⟩ := hback hd1
      refine ⟨node, hd, ?_⟩
      rw [← hd', if_pos ⟨rfl, by simp [hsome]⟩, ← ha, hv, ackEntries_some, ackEntries_some, Vec.toList_eraseIf]
      refine List.filter_congr (fun e _ => ?_)
      by_cases he : e.subscription = s
      · simp [cmpPackSubs, he]
      · simp [cmpPackSubs, he, Ne.symm he]
    · rw [if_neg hdn] at hd'
      obtain ⟨node, hd, ha⟩ := hback hd'
      exact ⟨node, hd, by rw [ha, if_neg (fun hc => hdn hc.1)]⟩

theorem LinksOk.freeSub {s : SubId} (h : σ.LinksOk) (hs : σ.brokerFreeSubRequester s = some σ') :
    σ'.LinksOk := by
  simp only [brokerFreeSubRequester, releaseSub, Option.bind_eq_bind, Option.bind_eq_some_iff] at hs
  obtain ⟨τ, ⟨req, hreq, node, -, τ1, h1, τ2, h2, h3⟩, υ, hυ, hs⟩ := hs
  cases hs
  have hindex : (σ.dropIndexes req).LinksOk := LinksOk.modDnode h (fun _ _ hok => hok)
  have hdrop := hindex.frame (.dropPending _ s req) (by decide) (by decide)
  have hleave : τ1.LinksOk := by
    unfold leaveStream at h1
    split at h1
    · cases h1; exact hdrop
    · simp only [Option.bind_eq_bind, Option.bind_eq_some_iff] at h1
      obtain ⟨stream, -, h1⟩ := h1
      split at h1
      · exact LinksOk.freeStream (σ := Broker.modStream _ _ _) hdrop h1
      · cases h1; exact hdrop
  have hτ : τ.LinksOk := (hleave.frame (.dropStored h2) (by decide) (by decide)).frame (.dropQosQueue h3)
    (by decide) (by decide)
  simp only [purgePendingAcks, Option.bind_eq_bind, Option.bind_eq_some_iff] at hυ
  obtain ⟨req', -, hυ⟩ := hυ
  split at hυ
  · cases hυ; exact hτ
  · simp only [Option.bind_eq_some_iff] at hυ
    obtain ⟨node', hd, vec, hv, hυ⟩ := hυ
    cases hυ
    refine LinksOk.modDnode hτ (fun node hn hok => hok.acks ?_)
    cases hd.symm.trans hn
    rw [hv, ackEntries_some, ackEntries_some, Vec.toList_eraseIf]
    exact List.filter_sublist

/-- The two invariants of the loop of `broker_remote_dslink_free`. -/
theorem LinksOk.freeSubs {subs : List SubId} {d : DownId} (h : σ.LinksOk)
    (hnil : ∀ node, σ.dnode.get d = some node → ackEntries node.pendingAcks = [])
    (hs : σ.freeSubs subs = some σ') :
    σ'.LinksOk ∧ ∀ node, σ'.dnode.get d = some node → ackEntries node.pendingAcks = [] := by
  induction subs generalizing σ with
  | nil => cases hs; exact ⟨h, hnil⟩
  | cons s rest ih =>
    simp only [Broker.freeSubs, List.foldlM_cons, Option.bind_eq_bind, Option.bind_eq_some_iff] at hs
    obtain ⟨τ, hτ, hs⟩ := hs
    refine ih (h.freeSub hτ) (fun node hd => ?_) hs
    obtain ⟨req, hreq⟩ := brokerFreeSubRequester_live hτ
    obtain ⟨node0, hd0, ha⟩ := brokerFreeSubRequester_acks hreq hτ hd
    rw [ha, hnil node0 hd0]
    split <;> rfl

theorem LinksOk.closeLink {d : DownId} (h : σ.LinksOk) (hs : σ.brokerCloseLink d = some σ') : σ'.LinksOk := by
  simp only [brokerCloseLink, Option.bind_eq_bind, Option.bind_eq_some_iff] at hs
  obtain ⟨ω, hω, hs⟩ := hs
  obtain rfl := Option.some.inj hs
  simp only [brokerRemoteDslinkFree, Option.bind_eq_bind, Option.bind_eq_some_iff] at hω
  obtain ⟨node, hd, ⟨τ, l⟩, hτ, υ, hυ, node', hd', φ, hφ, hω⟩ := hω
  obtain rfl := Option.some.inj hω
  have hnilOf : ∀ node : DownstreamNode J, ackEntries (node.pendingAcks.map Vec.free) = [] :=
    fun node => by cases node.pendingAcks <;> simp
  have hτ' : τ.LinksOk := by
    refine LinksOk.frame (LinksOk.modDnode h (fun node _ hok => hok.acks ?_)) (.collectNonQos hτ) (by decide)
      (by decide)
    rw [hnilOf]
    exact List.nil_sublist _
  have hnil : ∀ node, τ.dnode.get d = some node → ackEntries node.pendingAcks = [] := by
    intro node1 hd1
    obtain ⟨node0, hd0, ha⟩ := (Frame.collectNonQos hτ).dnode_rev (p := .acks) (by decide) (by simp) hd1
    have hd0 : (σ.dnode.modify d _).get d = some node0 := hd0
    rw [Heap.get_modify_self, hd, Option.map_some, Option.some.injEq] at hd0
    have ha : node1.pendingAcks = node0.pendingAcks := ha
    rw [ha, ← hd0]
    exact hnilOf node
  obtain ⟨hυ', hnil'⟩ := hτ'.freeSubs hnil hυ
  have hφ' := hυ'.frame (.resetSids hφ) (by decide) (by decide)
  refine LinksOk.modDnode (LinksOk.modDnode hφ' (fun _ _ hok => hok)) (fun node1 hd1 _ => ?_)
  have hd1 : (φ.dnode.modify d _).get d = some node1 := hd1
  rw [Heap.get_modify_self] at hd1
  obtain ⟨node2, hd2, rfl⟩ := Option.map_eq_some_iff.mp hd1
  obtain ⟨node3, hd3, ha⟩ := (Frame.resetSids hφ).dnode_rev (p := .acks) (by decide) (by simp) hd2
  show ackEntries node2.pendingAcks = []
  rw [show node2.pendingAcks = node3.pendingAcks from ha, hnil' node3 hd3]

/-- Every call keeps the links as they should be. -/
theorem LinksOk.call {c : Call J} (h : σ.LinksOk) (hs : c.run cfg σ = some σ') : σ'.LinksOk := by
  have hquiet : Part.link ∉ c.parts ∧ Part.acks ∉ c.parts → σ'.LinksOk :=
    fun hq => h.frame (Call.frame hs) hq.1 hq.2
  cases c with
  | update s row => exact h.update hs
  | sendQueued s => exact h.sendQueuedMessages hs
  | flush s =>
    simp only [Call.run, brokerUpdateSubReqQos, Option.bind_eq_bind, Option.bind_eq_some_iff] at hs
    obtain ⟨req, -, node, hd, hs⟩ := hs
    split at hs
    · cases hs; exact h
    · rename_i link hl
      refine LinksOk.frame (LinksOk.modDnode h (fun node1 hd1 hok => ?_)) (.clearQosQueue hs) (by decide) (by decide)
      cases hd.symm.trans hd1
      exact (hok.numbered hl).send _
  | subQos s qos => exact h.subQos hs
  | streamQos st => exact h.streamQos (show brokerUpdateStreamQos σ (some st) = some σ' from hs)
  | ack d k => exact h.ack hs
  | freeStream st => exact h.freeStream hs
  | freeSub s => exact h.freeSub hs
  | sendSubscribe d path sid qos => exact h.sendSubscribeRequest hs
  | closeLink d => exact h.closeLink hs
  | sendOther d =>
    simp only [Call.run, Broker.sendOther, Option.bind_eq_bind, Option.bind_eq_some_iff] at hs
    obtain ⟨node, hd, node', hn, hs⟩ := hs
    cases hs
    exact h.wsSend hd hn rfl rfl
  | openLink d =>
    simp only [Call.run, openLink, Option.bind_eq_bind, Option.bind_eq_some_iff] at hs
    obtain ⟨node, hd, hs⟩ := hs
    split at hs
    · cases hs
    · rename_i hl
      cases hs
      refine LinksOk.modDnode h (fun node1 hd1 hok => ?_)
      cases hd.symm.trans hd1
      have hl : node.link = none := by simpa using hl
      unfold NodeOk at hok
      rw [hl] at hok
      have hok : ackEntries node.pendingAcks = [] := hok
      show Numbered _ (ackEntries node.pendingAcks)
      rw [hok]
      exact Numbered.fresh _
  | newDnode parent name =>
    obtain ⟨⟨τ, id⟩, hτ, rfl⟩ := Option.map_eq_some_iff.mp hs
    simp only [brokerInitDownstreamNode, Option.bind_eq_bind, Option.bind_eq_some_iff] at hτ
    obtain ⟨node, -, hτ⟩ := hτ
    cases hτ
    intro e node1 he
    have he : (σ.dnode.alloc _).get e = some node1 := he
    rw [Heap.get_alloc] at he
    split at he
    · cases he; rfl
    · exact h e node1 he
  | dropDnode d =>
    simp only [Call.run, freeDownstreamNode, Option.bind_eq_bind, Option.bind_eq_some_iff] at hs
    obtain ⟨node, -, hs⟩ := hs
    split at hs
    · cases hs
    · simp only [Option.bind_eq_some_iff] at hs
      obtain ⟨τ, hτ, hs⟩ := hs
      cases hs
      have hτ' := h.frame (.leaveParent hτ) (by decide) (by decide)
      intro e node1 he
      exact hτ' e node1 (Heap.get_free_eq_some.mp he).2
  | _ => exact hquiet (by simp [Call.parts])

theorem LinksOk.step {e : Event J} (h : σ.LinksOk) (hs : step cfg σ e = some σ') : σ'.LinksOk :=
  DSLink.Calls.invariant LinksOk (step_calls hs) (fun _ _ _ hok _ hrun => hok.call hrun) h

/-- Entries are added for new frames only. -/
def Grows (σ σ' : Broker J) : Prop :=
  ∀ d node, σ.dnode.get d = some node → ∃ node' extra, σ'.dnode.get d = some node' ∧
    ackEntries node'.pendingAcks = ackEntries node.pendingAcks ++ extra ∧
    (∀ e ∈ extra, (linkFrames node).length ≤ e.frame) ∧ (linkFrames node).length ≤ (linkFrames node').length

theorem Grows.refl (σ : Broker J) : Grows σ σ :=
  fun _ node hd => ⟨node, [], hd, by simp, by simp, Nat.le_refl _⟩

theorem Grows.trans {τ : Broker J} (h : Grows σ τ) (h' : Grows τ σ') : Grows σ σ' := by
  intro d node hd
  obtain ⟨node1, extra1, hd1, ha1, hf1, hl1⟩ := h d node hd
  obtain ⟨node2, extra2, hd2, ha2, hf2, hl2⟩ := h' d node1 hd1
  refine ⟨node2, extra1 ++ extra2, hd2, by rw [ha2, ha1, List.append_assoc], fun e he => ?_, hl1.trans hl2⟩
  rcases List.mem_append.mp he with he | he
  · exact hf1 e he
  · exact hl1.trans (hf2 e he)

theorem sendQueuedMessages_grows {s : SubId} (h : sendQueuedMessages cfg σ s = some σ') : Grows σ σ' := by
  have h0 := h
  simp only [sendQueuedMessages, Option.bind_eq_bind, Option.bind_eq_some_iff] at h0
  obtain ⟨req, hs, node, hd, -⟩ := h0
  obtain ⟨out, req', node', hstep, hemit, -⟩ := sendQueuedMessages_run h hs hd
  intro e node1 he
  rw [hstep.dnode]
  by_cases hed : e = req.reqNode
  · subst hed
    cases hd.symm.trans he
    refine ⟨node', _, if_pos rfl, hemit.acks, fun a ha => ?_, ?_⟩
    · obtain ⟨i, -, rfl⟩ := List.mem_mapIdx.mp ha
      exact Nat.le_add_right _ _
    · rw [hemit.frames, List.length_append]
      exact Nat.le_add_right _ _
  · exact ⟨node1, [], by rw [if_neg hed, he], by simp, by simp, Nat.le_refl _⟩

theorem ackOne_grows {pack : PendingAck} (h : ackOne cfg σ pack = some σ') : Grows σ σ' := by
  simp only [ackOne, Option.bind_eq_bind, Option.bind_eq_some_iff] at h
  obtain ⟨req, -, h⟩ := h
  split at h
  · exact sendQueuedMessages_grows (σ := σ.modSub pack.subscription _) h
  · cases h; exact .refl σ

/-- Every SubRequester has its requester. -/
def Homes (σ : Broker J) : Prop :=
  ∀ s req, σ.sub.get s = some req → ∃ node, σ.dnode.get req.reqNode = some node

theorem Homes.of_paths (h : σ.indexes.PathsOk) : σ.Homes := by
  intro s req hs
  obtain ⟨n, hn, -⟩ := h.indexed s _ (indexes_sub hs)
  obtain ⟨node, hd, -⟩ := Option.map_eq_some_iff.mp hn
  exact ⟨node, hd⟩

theorem Homes.frame {ps : List Part} (h : σ.Homes) (hf : Frame ps σ σ') (hs : Part.subs ∉ ps)
    (hd : Part.downs ∉ ps) : σ'.Homes := by
  intro s req' hs'
  obtain ⟨req, hreq, -, hn⟩ := hf.sub_rev hs (by simp) hs'
  obtain ⟨node, hnode⟩ := h s req hreq
  obtain ⟨node', hnode', -⟩ := hf.dnode hd (by simp) hnode
  exact ⟨node', hn ▸ hnode'⟩

theorem sendQueuedMessages_total {s : SubId} {req : SubRequester J} (h : σ.Homes) (hs : σ.sub.get s = some req) :
    ∃ σ', sendQueuedMessages cfg σ s = some σ' := by
  obtain ⟨node, hd⟩ := h s req hs
  simp only [sendQueuedMessages, hs, hd, Option.bind_eq_bind, Option.bind_some]
  split
  · exact ⟨_, rfl⟩
  · split <;> exact ⟨_, rfl⟩

/-- One round of the loop runs when its SubRequester is alive. -/
theorem ackOne_total {pack : PendingAck} {req : SubRequester J} (h : σ.Homes)
    (hs : σ.sub.get pack.subscription = some req) : ∃ τ, ackOne cfg σ pack = some τ := by
  simp only [ackOne, hs, Option.bind_eq_bind, Option.bind_some]
  split
  · have hf : Frame [.queue] σ (σ.modSub pack.subscription (fun req' =>
        { req' with
          messageQueue := (removeFromMessageQueue req.messageQueue pack.msgId).1
          messageOutputQueueCount := dec32 req'.messageOutputQueueCount })) := by
      refine Frame.modSub ?_
      intro p hp r
      cases p <;> simp_all [SubRequester.Agree]
    obtain ⟨req', hs', -⟩ := hf.sub (p := .subs) (by decide) (by simp) hs
    exact sendQueuedMessages_total (h.frame hf (by decide) (by decide)) hs'
  · exact ⟨_, rfl⟩

/-- The loop of `check_subscription_ack` runs exactly when the entries it goes through belong to live
    SubRequesters. -/
theorem ackLoop_total_iff {d : DownId} {n : Nat} {node : DownstreamNode J} (h : σ.Homes)
    (hd : σ.dnode.get d = some node) (hn : n ≤ (ackEntries node.pendingAcks).length) :
    (∃ σ', ackLoop cfg d n σ = some σ') ↔
      ∀ e ∈ (ackEntries node.pendingAcks).take n, (σ.sub.get e.subscription).isSome := by
  induction n generalizing σ node with
  | zero => simp [ackLoop]
  | succ n ih =>
    cases hv : node.pendingAcks with
    | none =>
      rw [hv] at hn
      exact absurd hn (by simp)
    | some vec =>
      rw [hv, ackEntries_some] at hn
      obtain ⟨pack, hpack⟩ : ∃ pack, vec.toList[n]? = some pack := ⟨_, List.getElem?_eq_getElem hn⟩
      have htake : vec.toList.take (n + 1) = vec.toList.take n ++ [pack] := by
        rw [List.take_add_one, hpack]
        rfl
      -- the rest of the loop, after the round for `pack`
      have hrest : ∀ τ, ackOne cfg σ pack = some τ → ((∃ σ', ackLoop cfg d n τ = some σ') ↔
          ∀ e ∈ vec.toList.take n, (σ.sub.get e.subscription).isSome) := by
        intro τ hτ
        have hf := Frame.ackOne hτ
        obtain ⟨node', extra, hd', hacks, -⟩ := ackOne_grows hτ d node hd
        rw [hv, ackEntries_some] at hacks
        rw [ih (h.frame hf (by decide) (by decide)) hd' (by rw [hacks, List.length_append]; omega), hacks,
          List.take_append_of_le_length (by omega)]
        refine forall₂_congr (fun e _ => ?_)
        constructor
        · intro he
          obtain ⟨req', hs'⟩ := Option.isSome_iff_exists.mp he
          obtain ⟨req, hs, -⟩ := hf.sub_rev (p := .subs) (by decide) (by simp) hs'
          simp [hs]
        · intro he
          obtain ⟨req, hs⟩ := Option.isSome_iff_exists.mp he
          obtain ⟨req', hs', -⟩ := hf.sub (p := .subs) (by decide) (by simp) hs
          simp [hs']
      have hloop : ackLoop cfg d (n + 1) σ = (ackOne cfg σ pack).bind (ackLoop cfg d n) := by
        simp only [ackLoop, hd, hv, Vec.get_eq, hpack, Option.bind_eq_bind, Option.bind_some]
      rw [hloop, ackEntries_some, htake, List.forall_mem_append, List.forall_mem_singleton]
      constructor
      · rintro ⟨σ', hσ'⟩
        obtain ⟨τ, hτ, hσ'⟩ := Option.bind_eq_some_iff.mp hσ'
        refine ⟨(hrest τ hτ).mp ⟨σ', hσ'⟩, ?_⟩
        simp only [ackOne, Option.bind_eq_bind, Option.bind_eq_some_iff] at hτ
        obtain ⟨req, hs, -⟩ := hτ
        simp [hs]
      · rintro ⟨hlive, hpack⟩
        obtain ⟨req, hs⟩ := Option.isSome_iff_exists.mp hpack
        obtain ⟨τ, hτ⟩ := @ackOne_total J cfg σ _ _ h hs
        obtain ⟨σ', hσ'⟩ := (hrest τ hτ).mpr hlive
        exact ⟨σ', by rw [hτ, Option.bind_some, hσ']⟩

/-- An acknowledgement runs exactly when the entries up to the cut belong to live SubRequesters. -/
theorem checkSubscriptionAck_total_iff {d : DownId} {k : Nat} {node : DownstreamNode J} (h : σ.Homes)
    (hd : σ.dnode.get d = some node) : (∃ σ', checkSubscriptionAck cfg σ d k = some σ') ↔
      ∀ e ∈ (ackEntries node.pendingAcks).take (ackCut node k), (σ.sub.get e.subscription).isSome := by
  rw [← @ackLoop_total_iff J cfg σ _ _ _ h hd (ackCut_le node k)]
  simp only [checkSubscriptionAck, hd, Option.bind_eq_bind, Option.bind_some]
  constructor
  · rintro ⟨σ', h⟩
    obtain ⟨τ, hτ, -⟩ := Option.bind_eq_some_iff.mp h
    exact ⟨τ, hτ⟩
  · rintro ⟨τ, hτ⟩
    exact ⟨_, by rw [hτ, Option.bind_some]⟩

/-- The frame at position `p` is the latest one with the number `k`. -/
def LatestFrame (link : RemoteDSLink J) (k p : Nat) : Prop :=
  (link.sent.map Frame.msgId)[p]? = some k ∧ ∀ i, p < i → (link.sent.map Frame.msgId)[i]? ≠ some k

/-- The number of entries of frames up to `p`. -/
def ackedCount (node : DownstreamNode J) (p : Nat) : Nat :=
  (ackEntries node.pendingAcks).countP (fun e => e.frame ≤ p)

/-- At every entry that the search compares on its way to the entries after `p`, the number tells on which side
    of `p` the frame is. -/
def ProbesInOrder (node : DownstreamNode J) (k p : Nat) : Prop :=
  ∀ i ∈ probes (ackedCount node p) (ackEntries node.pendingAcks).length 0 (ackEntries node.pendingAcks).length,
    ∀ e ∈ (ackEntries node.pendingAcks)[i]?, e.msgId ≤ k ↔ e.frame ≤ p

/-- Numbers of frames with no restart between them are in the order of the frames. -/
theorem frameNumber_le_iff {i p : Nat} (h : i / 2147483647 = p / 2147483647) :
    frameNumber i ≤ frameNumber p ↔ i ≤ p := by
  unfold frameNumber
  omega

/-- A search among entries whose numbers did not restart before the acknowledged one is not misled. -/
theorem probesInOrder_of_noRestart {node : DownstreamNode J} {link : RemoteDSLink J} {k p : Nat}
    (h : Numbered link (ackEntries node.pendingAcks)) (hp : LatestFrame link k p)
    (hno : ∀ e ∈ ackEntries node.pendingAcks, e.frame / 2147483647 = p / 2147483647) : ProbesInOrder node k p := by
  intro i _ e he
  have hmem := List.mem_of_getElem? he
  obtain ⟨f, hf, rfl⟩ := List.getElem?_map.symm.trans hp.1 |> Option.map_eq_some_iff.mp
  rw [(h.entries e hmem).2, h.frames p f hf]
  exact frameNumber_le_iff (hno e hmem)

/-! ## A restart of the counter -/

end Broker

end DSLink
