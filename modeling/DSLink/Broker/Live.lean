import DSLink.Broker.Acks

/-!
# `Broker.Live` — the pending entries of live SubRequesters

`check_subscription_ack` dereferences the SubRequester of every entry it removes. `LiveAt` says that the entries
of a requester belong to live SubRequesters of it. Every call keeps it but `broker_free_sub_requester`, which
removes the entries of the SubRequester only if that has a message queue.

## Contents
- `LiveAt` and what each call does to it.
- `FreeClean`: when freeing leaves no entry behind, and finds the vector.
- `no_dangling_ack`: both over runs.
-/

namespace DSLink

variable {J : Type} {cfg : Config} {σ σ' : Broker J}

/-- A call that frees SubRequesters. -/
def Call.frees : Call J → Prop
  | .freeSub .. | .closeLink .. => True
  | _ => False

/-- An event whose handler may free SubRequesters. -/
def Event.frees : Event J → Prop
  | .subscribe .. | .unsubscribe .. | .closeLink .. => True
  | _ => False

theorem Call.builds.not_frees {c : Call J} (h : c.builds) : ¬c.frees := by
  cases c <;> simp [Call.builds] at h <;> simp [Call.frees]

theorem Call.subscribes.not_frees {c : Call J} {d : DownId} {sid : Nat} (h : c.subscribes d sid) : ¬c.frees := by
  cases c <;> simp [Call.subscribes] at h <;> simp [Call.frees]

theorem Event.calls_not_frees {e : Event J} (h : ¬e.frees) {c : Call J} (hc : e.calls c) : ¬c.frees := by
  cases e with
  | subscribe | unsubscribe | closeLink => exact absurd trivial h
  | nodeValue | invoke | publish | set => exact Call.builds.not_frees hc
  | streamUpdate st row => cases c <;> simp [Event.calls, Call.updates] at hc <;> simp [Call.frees]
  | freeLocal n => cases c <;> simp [Event.calls, Call.removes] at hc <;> simp [Call.frees]
  | connect d => cases c <;> simp [Event.calls, Call.connects] at hc <;> simp [Call.frees]
  | initDownstream | initUpstream => obtain ⟨p, q, rfl⟩ := hc; exact id
  | removeLink | ack | update | sendOther | addLocal => subst hc; exact id

namespace Broker

/-- The entries of `d` belong to live SubRequesters of it. -/
def LiveAt (σ : Broker J) (d : DownId) : Prop :=
  ∀ node, σ.dnode.get d = some node → ∀ e ∈ ackEntries node.pendingAcks,
    ∃ req, σ.sub.get e.subscription = some req ∧ req.reqNode = d

/-- No live SubRequester of a requester goes, and entries come for live ones only. -/
theorem LiveAt.of_step {d : DownId} (h : σ.LiveAt d)
    (hsub : ∀ s req, σ.sub.get s = some req → ∃ req', σ'.sub.get s = some req' ∧ req'.reqNode = req.reqNode)
    (hacks : ∀ node', σ'.dnode.get d = some node' → ∀ e ∈ ackEntries node'.pendingAcks,
      (∃ node, σ.dnode.get d = some node ∧ e ∈ ackEntries node.pendingAcks) ∨
      ∃ req, σ.sub.get e.subscription = some req ∧ req.reqNode = d) : σ'.LiveAt d := by
  intro node' hd' e he
  have hold : ∃ req, σ.sub.get e.subscription = some req ∧ req.reqNode = d := by
    rcases hacks node' hd' e he with ⟨node, hd, he⟩ | hlive
    · exact h node hd e he
    · exact hlive
  obtain ⟨req, hs, hn⟩ := hold
  obtain ⟨req', hs', hn'⟩ := hsub _ req hs
  exact ⟨req', hs', hn'.trans hn⟩

theorem Frame.keepsSubs {ps : List Part} (hf : Frame ps σ σ') (hs : Part.subs ∉ ps) (s : SubId)
    (req : SubRequester J) (hreq : σ.sub.get s = some req) :
    ∃ req', σ'.sub.get s = some req' ∧ req'.reqNode = req.reqNode := by
  obtain ⟨req', hreq', -, hn⟩ := hf.sub hs (by simp) hreq
  exact ⟨req', hreq', hn⟩

theorem Frame.keepsAcks {ps : List Part} (hf : Frame ps σ σ') (ha : Part.acks ∉ ps) {d : DownId}
    {node' : DownstreamNode J} (hd' : σ'.dnode.get d = some node') :
    ∃ node, σ.dnode.get d = some node ∧ node'.pendingAcks = node.pendingAcks := by
  obtain ⟨node, hd, hacks⟩ := hf.dnode_rev ha (by simp) hd'
  exact ⟨node, hd, hacks⟩

theorem LiveAt.frame {ps : List Part} {d : DownId} (h : σ.LiveAt d) (hf : Frame ps σ σ') (hs : Part.subs ∉ ps)
    (ha : Part.acks ∉ ps) : σ'.LiveAt d := by
  refine h.of_step (hf.keepsSubs hs) (fun node' hd' e he => ?_)
  obtain ⟨node, hd, hacks⟩ := hf.keepsAcks ha hd'
  exact Or.inl ⟨node, hd, hacks ▸ he⟩

/-- A SubRequester that sends adds entries of its own. -/
theorem LiveAt.putSender {d : DownId} {s : SubId} {x : Sender J} {req : SubRequester J} {node : DownstreamNode J}
    (h : σ.LiveAt d) (hs : σ.sub.get s = some req) (hd : σ.dnode.get req.reqNode = some node)
    (hx : ∀ e ∈ ackEntries x.pendingAcks, e ∈ ackEntries node.pendingAcks ∨ e.subscription = s) :
    (σ.putSender s req.reqNode x).LiveAt d := by
  refine h.of_step ((Frame.putSender σ s req.reqNode x).keepsSubs (by decide)) (fun node' hd' e he => ?_)
  have hd' : (σ.dnode.modify req.reqNode _).get d = some node' := hd'
  rw [Heap.get_modify] at hd'
  split at hd'
  · rename_i hdn
    rw [hd, Option.map_some, Option.some.injEq] at hd'
    subst hd'
    rcases hx e he with he | he
    · exact Or.inl ⟨node, hdn ▸ hd, he⟩
    · exact Or.inr ⟨req, he ▸ hs, hdn.symm⟩
  · exact Or.inl ⟨node', hd', he⟩

theorem LiveAt.sendQueuedMessages {d : DownId} {s : SubId} (h : σ.LiveAt d)
    (hs : sendQueuedMessages cfg σ s = some σ') : σ'.LiveAt d := by
  have h0 := hs
  simp only [Broker.sendQueuedMessages, Option.bind_eq_bind, Option.bind_eq_some_iff] at h0
  obtain ⟨req, hreq, node, hd, -⟩ := h0
  obtain ⟨out, req', node', hstep, hemit, -⟩ := sendQueuedMessages_run hs hreq hd
  refine h.of_step ((Frame.sendQueuedMessages hs).keepsSubs (by decide)) (fun node1 hd1 e he => ?_)
  rw [hstep.dnode] at hd1
  split at hd1
  · rename_i hdn
    cases hd1
    rw [hemit.acks] at he
    rcases List.mem_append.mp he with he | he
    · exact Or.inl ⟨node, hdn ▸ hd, he⟩
    · exact Or.inr ⟨req, mem_newEntries he ▸ hreq, hdn.symm⟩
  · exact Or.inl ⟨node1, hd1, he⟩

theorem LiveAt.update {d : DownId} {s : SubId} {row : Row J} (h : σ.LiveAt d)
    (hs : brokerUpdateSubReq cfg σ s row = some σ') : σ'.LiveAt d := by
  simp only [brokerUpdateSubReq, Option.bind_eq_bind, Option.bind_eq_some_iff] at hs
  obtain ⟨req, hreq, node, hd, hs⟩ := hs
  have hpub : ({ σ with published := σ.published ++ [(s, row)] } : Broker J).LiveAt d := h
  have hmod : ∀ f : SubRequester J → SubRequester J, (∀ r, (f r).reqNode = r.reqNode) →
      (({ σ with published := σ.published ++ [(s, row)] } : Broker J).modSub s f).LiveAt d := by
    intro f hf
    refine hpub.of_step (fun t r ht => ?_) (fun node' hd' e he => Or.inl ⟨node', hd', he⟩)
    show ∃ r', (σ.sub.modify s f).get t = some r' ∧ _
    rw [Heap.get_modify]
    split
    · rename_i hts
      exact ⟨f r, by rw [← hts, ht]; rfl, hf r⟩
    · exact ⟨r, ht, rfl⟩
  split at hs
  · simp only [Option.bind_eq_some_iff] at hs
    obtain ⟨q, -, hs⟩ := hs
    exact (hmod (fun req => { req with messageQueue := some q }) (fun _ => rfl)).sendQueuedMessages hs
  · split at hs
    · rename_i link hl
      cases hs
      refine LiveAt.putSender (σ := { σ with published := σ.published ++ [(s, row)] }) hpub hreq hd (fun e he => ?_)
      rw [sendMessage, ackEntries_addPendingAck] at he
      rcases List.mem_append.mp he with he | he
      · exact Or.inl he
      · exact Or.inr (by rw [List.mem_singleton.mp he])
    · split at hs
      · exact (hmod (fun r => { r with qosQueue := some (req.qosQueue.getD []) }) (fun _ => rfl)).frame
          (.clearQosQueue hs) (by decide) (by decide)
      · exact (hmod (fun r => { r with qosQueue := some (req.qosQueue.getD [] ++ [row]) }) (fun _ => rfl)).frame
          (.serializeQosQueue hs) (by decide) (by decide)

theorem LiveAt.ack {d e : DownId} {k : Nat} (h : σ.LiveAt d) (hs : checkSubscriptionAck cfg σ e k = some σ') :
    σ'.LiveAt d := by
  simp only [checkSubscriptionAck, Option.bind_eq_bind, Option.bind_eq_some_iff] at hs
  obtain ⟨node, -, τ, hτ, hs⟩ := hs
  obtain rfl := Option.some.inj hs
  have hloop : ∀ (n : Nat) (σ τ : Broker J), σ.LiveAt d → ackLoop cfg e n σ = some τ → τ.LiveAt d := by
    intro n
    induction n with
    | zero => intro σ τ h hτ; cases hτ; exact h
    | succ n ih =>
      intro σ τ h hτ
      simp only [ackLoop, ackOne, Option.bind_eq_bind, Option.bind_eq_some_iff] at hτ
      obtain ⟨node, -, vec, -, pack, -, υ, ⟨req, -, hυ⟩, hτ⟩ := hτ
      have hmod : (σ.modSub pack.subscription (fun req' =>
          { req' with
            messageQueue := (removeFromMessageQueue req.messageQueue pack.msgId).1
            messageOutputQueueCount := dec32 req'.messageOutputQueueCount })).LiveAt d := by
        have hf : Frame [.queue] σ (σ.modSub pack.subscription (fun req' =>
            { req' with
              messageQueue := (removeFromMessageQueue req.messageQueue pack.msgId).1
              messageOutputQueueCount := dec32 req'.messageOutputQueueCount })) := by
          refine Frame.modSub ?_
          intro p hp r
          cases p <;> simp_all [SubRequester.Agree]
        exact h.frame hf (by decide) (by decide)
      refine ih υ τ ?_ hτ
      split at hυ
      · exact hmod.sendQueuedMessages hυ
      · cases hυ; exact hmod
  -- erasing entries
  refine (hloop _ σ τ h hτ).of_step (fun t r ht => ⟨r, ht, rfl⟩) (fun node' hd' a ha => Or.inl ?_)
  have hd' : (τ.dnode.modify e _).get d = some node' := hd'
  rw [Heap.get_modify] at hd'
  split at hd'
  · rename_i hde
    obtain ⟨node1, hd1, rfl⟩ := Option.map_eq_some_iff.mp hd'
    refine ⟨node1, hde ▸ hd1, ?_⟩
    cases hv : node1.pendingAcks with
    | none => simp [hv] at ha
    | some v =>
      simp only [hv, Option.map_some, ackEntries_some, Vec.toList_erasePrefix] at ha
      exact List.mem_of_mem_drop ha
  · exact ⟨node', hd', ha⟩

/-- The calls that free no SubRequester keep the entries live. -/
theorem LiveAt.call {d : DownId} {c : Call J} (h : σ.LiveAt d) (hs : c.run cfg σ = some σ')
    (hfree : ¬c.frees) : σ'.LiveAt d := by
  have hquiet : Part.subs ∉ c.parts ∧ Part.acks ∉ c.parts → σ'.LiveAt d :=
    fun hq => h.frame (Call.frame hs) hq.1 hq.2
  cases c with
  | update s row => exact h.update hs
  | sendQueued s => exact h.sendQueuedMessages hs
  | ack e k => exact h.ack hs
  | freeSub | closeLink => exact absurd trivial hfree
  | newSub e path sid qos =>
    have hf := Frame.newSub hs
    refine h.of_step (fun s req hreq => ?_) (fun node' hd' a ha => ?_)
    · have hi := congrArg (fun I => Indexes.sub I s) (newSub_indexes hs)
      have hne : s ≠ σ.sub.next := fun he => by
        rw [he] at hreq
        simp at hreq
      simp only [Indexes.insert, Indexes.modNode_sub, Indexes.setSub_sub, if_neg hne, indexes_sub hreq] at hi
      obtain ⟨req', hreq', hk⟩ := Option.map_eq_some_iff.mp hi
      exact ⟨req', hreq', (SubKey.mk.inj hk).2.1⟩
    · obtain ⟨node, hd, hacks⟩ := hf.keepsAcks (by decide) hd'
      exact Or.inl ⟨node, hd, hacks ▸ ha⟩
  | newDnode parent name =>
    obtain ⟨⟨τ, id⟩, hτ, rfl⟩ := Option.map_eq_some_iff.mp hs
    refine h.of_step ((Frame.brokerInitDownstreamNode hτ).keepsSubs (by decide)) (fun node' hd' a ha => ?_)
    simp only [brokerInitDownstreamNode, Option.bind_eq_bind, Option.bind_eq_some_iff] at hτ
    obtain ⟨node, -, hτ⟩ := hτ
    cases hτ
    have hd' : (σ.dnode.alloc _).get d = some node' := hd'
    rw [Heap.get_alloc] at hd'
    split at hd'
    · cases hd'
      simp at ha
    · exact Or.inl ⟨node', hd', ha⟩
  | dropDnode e =>
    refine h.of_step ((Frame.freeDownstreamNode hs).keepsSubs (by decide)) (fun node' hd' a ha => ?_)
    simp only [Call.run, freeDownstreamNode, Option.bind_eq_bind, Option.bind_eq_some_iff] at hs
    obtain ⟨node, -, hs⟩ := hs
    split at hs
    · cases hs
    · simp only [Option.bind_eq_some_iff] at hs
      obtain ⟨τ, hτ, hs⟩ := hs
      cases hs
      obtain ⟨node1, hd1, hacks⟩ := (Frame.leaveParent hτ).keepsAcks (by decide) (Heap.get_free_eq_some.mp hd').2
      exact Or.inl ⟨node1, hd1, hacks ▸ ha⟩
  | _ => exact hquiet (by simp [Call.parts])

/-! ## Freeing a SubRequester -/

/-- If no entry of `s` is left, the entries stay live. -/
theorem LiveAt.freeSub {d : DownId} {s : SubId} (h : σ.LiveAt d) (hs : σ.brokerFreeSubRequester s = some σ')
    (hleft : ∀ node', σ'.dnode.get d = some node' → ∀ e ∈ ackEntries node'.pendingAcks, e.subscription ≠ s) :
    σ'.LiveAt d := by
  obtain ⟨req, hreq⟩ := brokerFreeSubRequester_live hs
  intro node' hd' e he
  obtain ⟨node, hd, hacks⟩ := brokerFreeSubRequester_acks hreq hs hd'
  have he0 : e ∈ ackEntries node.pendingAcks := by
    rw [hacks] at he
    split at he
    · exact List.mem_of_mem_filter he
    · exact he
  obtain ⟨r, hr, hn⟩ := h node hd e he0
  obtain ⟨r', hr', hn'⟩ := brokerFreeSubRequester_sub hs (hleft node' hd' e he) hr
  exact ⟨r', hr', hn'.trans hn⟩

/-- Freeing `s` runs through its purge of the vector and leaves no entry of `s` behind. -/
def FreesWell (σ : Broker J) (s : SubId) (d : DownId) : Prop :=
  ∃ σ', σ.brokerFreeSubRequester s = some σ' ∧
    ∀ node', σ'.dnode.get d = some node' → ∀ e ∈ ackEntries node'.pendingAcks, e.subscription ≠ s

/-- Without a message queue `s` has no entry, and with one its requester has a vector. -/
def FreeClean (σ : Broker J) (s : SubId) : Prop :=
  ∀ req ∈ σ.sub.get s, ∀ node ∈ σ.dnode.get req.reqNode,
    (req.messageQueue = none → ∀ e ∈ ackEntries node.pendingAcks, e.subscription ≠ s) ∧
    (req.messageQueue.isSome → node.pendingAcks.isSome)

instance (σ : Broker J) (s : SubId) : Decidable (σ.FreeClean s) := by
  delta FreeClean
  infer_instance

theorem FreeClean.congr {s : SubId} {ps : List Part} (h : σ.FreeClean s) (hf : Frame ps σ σ') (hs : Part.subs ∉ ps)
    (hq : Part.queue ∉ ps) (ha : Part.acks ∉ ps) : σ'.FreeClean s := by
  intro req' hs' node' hd'
  obtain ⟨req, hreq, -, hn⟩ := hf.sub_rev hs (by simp) hs'
  obtain ⟨req1, hreq1, hqueue, -⟩ := hf.sub_rev hq (by simp) hs'
  cases hreq.symm.trans hreq1
  obtain ⟨node, hd, hacks⟩ := hf.keepsAcks ha hd'
  rw [hqueue, hacks]
  exact h req hreq node (hn ▸ hd)

/-- When the first part of `broker_free_sub_requester` runs, its purge does exactly if the vector is there. -/
theorem freesWell_iff {s : SubId} {req : SubRequester J} {node : DownstreamNode J} {τ : Broker J}
    (hs : σ.sub.get s = some req) (hd : σ.dnode.get req.reqNode = some node) (hτ : σ.releaseSub s = some τ) :
    σ.FreesWell s req.reqNode ↔ σ.FreeClean s := by
  have hf := Frame.releaseSub hτ
  obtain ⟨req1, hs1, -, hn⟩ := hf.sub (p := .subs) (by decide) (by simp) hs
  obtain ⟨req2, hs2, hq, -⟩ := hf.sub (p := .queue) (by decide) (by simp) hs
  cases hs1.symm.trans hs2
  obtain ⟨node1, hd1, ha⟩ := hf.dnode (p := .acks) (by decide) (by simp) hd
  have ha : node1.pendingAcks = node.pendingAcks := ha
  have hclean : σ.FreeClean s ↔
      (req.messageQueue = none → ∀ e ∈ ackEntries node.pendingAcks, e.subscription ≠ s) ∧
      (req.messageQueue.isSome → node.pendingAcks.isSome) := by
    constructor
    · exact fun h => h req hs node hd
    · intro h req' hs' node' hd'
      cases hs.symm.trans hs'
      cases hd.symm.trans hd'
      exact h
  -- whether the function returns is decided by the purge
  have htotal : (∃ σ', σ.brokerFreeSubRequester s = some σ') ↔ (req.messageQueue.isSome → node.pendingAcks.isSome) := by
    simp only [brokerFreeSubRequester, hτ, Option.bind_eq_bind, Option.bind_some, purgePendingAcks, hs1, hq, hn, hd1, ha]
    cases req.messageQueue with
    | none => simp
    | some rb => cases node.pendingAcks <;> simp
  have hkeep : ∀ σ', σ.brokerFreeSubRequester s = some σ' → ∃ node', σ'.dnode.get req.reqNode = some node' ∧
      ackEntries node'.pendingAcks = if req.messageQueue.isSome then
        (ackEntries node.pendingAcks).filter (fun e => e.subscription ≠ s) else ackEntries node.pendingAcks := by
    intro σ' hσ'
    obtain ⟨node', hd', -⟩ := (Frame.brokerFreeSubRequester hσ').dnode (p := .downs) (by decide) (by simp) hd
    obtain ⟨node0, hd0, hacks⟩ := brokerFreeSubRequester_acks hs hσ' hd'
    cases hd.symm.trans hd0
    exact ⟨node', hd', by simpa using hacks⟩
  rw [hclean]
  constructor
  · rintro ⟨σ', hσ', hleft⟩
    refine ⟨fun hnone e he => ?_, htotal.mp ⟨σ', hσ'⟩⟩
    obtain ⟨node', hd', hacks⟩ := hkeep σ' hσ'
    refine hleft node' hd' e ?_
    rw [hacks, hnone]
    exact he
  · rintro ⟨hnone, hvec⟩
    obtain ⟨σ', hσ'⟩ := htotal.mpr hvec
    refine ⟨σ', hσ', fun node' hd' e he => ?_⟩
    obtain ⟨node'', hd'', hacks⟩ := hkeep σ' hσ'
    cases hd'.symm.trans hd''
    rw [hacks] at he
    cases hq : req.messageQueue with
    | none =>
      rw [hq] at he
      exact hnone hq e he
    | some rb =>
      rw [hq] at he
      simpa using (List.mem_filter.mp he).2

/-- Freeing a SubRequester whose entries can be found keeps the entries of all requesters live. -/
theorem LiveAt.freeClean {s : SubId} (h : ∀ d, σ.LiveAt d) (hclean : σ.FreeClean s)
    (hs : σ.brokerFreeSubRequester s = some σ') (d : DownId) : σ'.LiveAt d := by
  refine (h d).freeSub hs (fun node' hd' e he => ?_)
  obtain ⟨req, hreq⟩ := brokerFreeSubRequester_live hs
  obtain ⟨node, hd, hacks⟩ := brokerFreeSubRequester_acks hreq hs hd'
  rw [hacks] at he
  split at he
  · simpa using (List.mem_filter.mp he).2
  · rename_i hno
    intro hes
    obtain ⟨req', hreq', hn⟩ := h d node hd e he
    rw [hes] at hreq'
    cases hreq.symm.trans hreq'
    subst hn
    exact (hclean req hreq node hd).1 (by simpa using hno) e he hes

/-! ## Closing a link -/

/-- While `broker_remote_dslink_free` frees SubRequesters of `d`, no entry of `d` is left. -/
theorem LiveAt.freeSubs {d : DownId} {subs : List SubId} (h : ∀ e, σ.LiveAt e)
    (hnil : ∀ node, σ.dnode.get d = some node → ackEntries node.pendingAcks = [])
    (hown : ∀ s ∈ subs, ∀ req, σ.sub.get s = some req → req.reqNode = d) (hs : σ.freeSubs subs = some σ') :
    ∀ e, σ'.LiveAt e := by
  induction subs generalizing σ with
  | nil => cases hs; exact h
  | cons s rest ih =>
    simp only [Broker.freeSubs, List.foldlM_cons, Option.bind_eq_bind, Option.bind_eq_some_iff] at hs
    obtain ⟨τ, hτ, hs⟩ := hs
    obtain ⟨req, hreq⟩ := brokerFreeSubRequester_live hτ
    have hn := hown s List.mem_cons_self req hreq
    have hacks := fun e node' hd' => @brokerFreeSubRequester_acks J σ τ s req hreq hτ e node' hd'
    refine ih (fun e => (h e).freeSub hτ (fun node' he' a ha => ?_)) (fun node' hd' => ?_) (fun t ht req' hreq' => ?_) hs
    · obtain ⟨node, he, ha'⟩ := hacks e node' he'
      have hmem : a ∈ ackEntries node.pendingAcks := by
        rw [ha'] at ha
        split at ha
        · exact List.mem_of_mem_filter ha
        · exact ha
      intro has
      obtain ⟨req', hreq', hn'⟩ := h e node he a hmem
      rw [has] at hreq'
      cases hreq.symm.trans hreq'
      rw [← hn', hn] at he
      rw [hnil node he] at hmem
      cases hmem
    · obtain ⟨node, hd, ha⟩ := hacks d node' hd'
      rw [ha, hnil node hd]
      split <;> rfl
    · obtain ⟨req0, hreq0, hn0⟩ := brokerFreeSubRequester_sub_rev hτ hreq'
      exact hn0.trans (hown t (List.mem_cons_of_mem _ ht) req0 hreq0)

theorem LiveAt.closeLink {d : DownId} (h : ∀ e, σ.LiveAt e) (hpaths : σ.indexes.PathsOk)
    (hs : σ.brokerCloseLink d = some σ') (e : DownId) : σ'.LiveAt e := by
  simp only [brokerCloseLink, Option.bind_eq_bind, Option.bind_eq_some_iff] at hs
  obtain ⟨ω, hω, hs⟩ := hs
  obtain rfl := Option.some.inj hs
  simp only [brokerRemoteDslinkFree, Option.bind_eq_bind, Option.bind_eq_some_iff] at hω
  obtain ⟨node, hd, ⟨τ, l⟩, hτ, υ, hυ, node', hd', φ, hφ, hω⟩ := hω
  obtain rfl := Option.some.inj hω
  have hnilOf : ∀ node : DownstreamNode J, ackEntries (node.pendingAcks.map Vec.free) = [] :=
    fun node => by cases node.pendingAcks <;> simp
  -- the vector is emptied
  have hfreed : ∀ e, (σ.modDnode d (fun node => { node with pendingAcks := node.pendingAcks.map Vec.free })).LiveAt e := by
    intro e
    refine (h e).of_step (fun t r ht => ⟨r, ht, rfl⟩) (fun node1 he1 a ha => Or.inl ?_)
    have he1 : (σ.dnode.modify d _).get e = some node1 := he1
    rw [Heap.get_modify] at he1
    split at he1
    · obtain ⟨node2, -, rfl⟩ := Option.map_eq_some_iff.mp he1
      rw [hnilOf] at ha
      cases ha
    · exact ⟨node1, he1, ha⟩
  have hnil : ∀ node1, τ.dnode.get d = some node1 → ackEntries node1.pendingAcks = [] := by
    intro node1 hd1
    obtain ⟨node0, hd0, ha⟩ := (Frame.collectNonQos hτ).keepsAcks (by decide) hd1
    have hd0 : (σ.dnode.modify d _).get d = some node0 := hd0
    rw [Heap.get_modify_self, hd, Option.map_some, Option.some.injEq] at hd0
    rw [ha, ← hd0]
    exact hnilOf node
  have hown : ∀ s ∈ l, ∀ req, τ.sub.get s = some req → req.reqNode = d := by
    intro s hsl req hreq
    obtain ⟨p, hp⟩ := AssocMap.mem_values.mp (collectNonQos_subset hτ s hsl)
    obtain ⟨k, hk, -, hn⟩ := hpaths.live d _ p s (indexes_node hd) hp
    obtain ⟨req0, hreq0, -, hn0⟩ := (Frame.collectNonQos hτ).sub_rev (p := .subs) (by decide) (by simp) hreq
    rw [indexes_sub (σ := σ) hreq0] at hk
    rw [hn0, ← hn, ← Option.some.inj hk]
  have hυ' := LiveAt.freeSubs (fun e => (hfreed e).frame (.collectNonQos hτ) (by decide) (by decide)) hnil hown hυ
  exact (((hυ' e).frame (.resetSids hφ) (by decide) (by decide)).frame (.clearSids φ d) (by decide) (by decide)).frame
    (.dropLink _ d) (by decide) (by decide)

/-! ## Runs -/

/-- The SubRequester that a request frees because it holds the sid. -/
def freedBy (σ : Broker J) : Event J → Option SubId
  | .subscribe d sub _ => do
    let path ← sub.path
    let jSid ← sub.sid
    let node ← σ.dnode.get d
    let s ← node.reqSubSids.get (toU32 jSid)
    if sub.permissionOnPath.toNat < PermissionLevel.read.toNat ∨ node.reqSubPaths.get path = some s then none
    else some s
  | .unsubscribe d sid => do
    let node ← σ.dnode.get d
    node.reqSubSids.get (toU32 sid)
  | _ => none

/-- A SubRequester that a request frees can be freed cleanly. -/
def FreesClean (σ : Broker J) (e : Event J) : Prop := ∀ s ∈ σ.freedBy e, σ.FreeClean s

instance (σ : Broker J) (e : Event J) : Decidable (σ.FreesClean e) := by
  delta FreesClean
  infer_instance

theorem LiveAt.calls {A : Call J → Prop} {d : DownId} (h : σ.LiveAt d) (hs : Calls cfg A σ σ')
    (hA : ∀ c, A c → ¬c.frees) : σ'.LiveAt d :=
  DSLink.Calls.invariant (fun τ => τ.LiveAt d) hs (fun _ c _ hl hc hrun => hl.call hrun (hA c hc)) h

/-- A request that frees no SubRequester unclean keeps all entries live. -/
theorem LiveAt.subscribePath {d : DownId} {path : CString} {sid qos : Nat} {now : J} (h : ∀ e, σ.LiveAt e)
    (hclean : ∀ node ∈ σ.dnode.get d, ∀ s ∈ node.reqSubSids.get sid, node.reqSubPaths.get path ≠ some s →
      σ.FreeClean s) (hs : σ.subscribePath cfg d path sid qos now = some σ') (e : DownId) : σ'.LiveAt e := by
  obtain ⟨node, τ, hd, hτ, hcalls⟩ := subscribePath_calls hs
  have hτ' : τ.LiveAt e := by
    rcases hτ with rfl | ⟨s, hsid, hpath, hfree⟩
    · exact h e
    · exact LiveAt.freeClean h (hclean node hd s hsid hpath) hfree e
  exact hτ'.calls hcalls (fun c hc => hc.not_frees)

theorem LiveAt.step {e : Event J} (h : ∀ d, σ.LiveAt d) (hpaths : σ.indexes.PathsOk) (hclean : σ.FreesClean e)
    (hs : step cfg σ e = some σ') (d : DownId) : σ'.LiveAt d := by
  by_cases hfrees : e.frees
  swap
  · exact (h d).calls (step_calls hs) (fun c hc => Event.calls_not_frees hfrees hc)
  cases e with
  | subscribe d' sub now =>
    obtain ⟨node, -, -, hs⟩ := onLink_eq hs
    unfold handleSubscribe at hs
    split at hs
    · rename_i path jSid hpath hsid
      split at hs
      · cases hs; exact h d
      · rename_i hperm
        refine LiveAt.subscribePath h (fun node hd s hs hne => hclean s ?_) hs d
        have hd : σ.dnode.get d' = some node := hd
        have hs : node.reqSubSids.get (toU32 jSid) = some s := hs
        simp [freedBy, hpath, hsid, hd, hs, hne, hperm]
    · cases hs; exact h d
  | unsubscribe d' sid =>
    obtain ⟨node, -, -, hs⟩ := onLink_eq hs
    simp only [handleUnsubscribe, Option.bind_eq_bind, Option.bind_eq_some_iff] at hs
    obtain ⟨node', hd', hs⟩ := hs
    split at hs
    · cases hs; exact h d
    · rename_i s hsid
      have hf := Frame.forget σ d' (toU32 sid)
      exact LiveAt.freeClean (fun d => (h d).frame hf (by decide) (by decide))
        ((hclean s (by simp [freedBy, hd', hsid])).congr hf (by decide) (by decide) (by decide)) hs d
  | closeLink d' =>
    obtain ⟨node, -, -, hs⟩ := onLink_eq hs
    exact LiveAt.closeLink h hpaths hs d
  | _ => exact absurd hfrees id

theorem reach_live (h : Reach (step cfg) FreesClean (fun σ => brokerInit = some σ) σ) : ∀ d, σ.LiveAt d := by
  induction h with
  | start h =>
    intro d node hd
    rw [(brokerInit_empty h).2.1] at hd
    cases hd
  | next h hok hs ih => exact LiveAt.step ih (reach_paths h) hok hs

/-- In every reachable state, `broker_free_sub_requester` finds the vector and leaves no entry behind exactly
    for SubRequesters that can be freed cleanly. In a run in which all requests free such ones, every entry
    belongs to a live SubRequester, and every acknowledgement runs. -/
theorem no_dangling_ack :
    (∀ (σ τ : Broker J) (s : SubId) (req : SubRequester J),
      Reach (step cfg) (fun _ _ => True) (fun σ => brokerInit = some σ) σ → σ.sub.get s = some req →
      σ.releaseSub s = some τ → (σ.FreesWell s req.reqNode ↔ σ.FreeClean s)) ∧
    ∀ σ : Broker J, Reach (step cfg) FreesClean (fun σ => brokerInit = some σ) σ →
      ∀ d node, σ.dnode.get d = some node → (∀ e ∈ ackEntries node.pendingAcks,
        ∃ req, σ.sub.get e.subscription = some req ∧ req.reqNode = d) ∧
        ∀ k, ∃ σ', checkSubscriptionAck cfg σ d k = some σ' := by
  constructor
  · intro σ τ s req hreach hs hτ
    obtain ⟨node, hd⟩ := Homes.of_paths (reach_paths hreach) s req hs
    exact freesWell_iff hs hd hτ
  · intro σ hreach d node hd
    have hlive := reach_live hreach d node hd
    refine ⟨hlive, fun k => (checkSubscriptionAck_total_iff (Homes.of_paths (reach_paths hreach)) hd).mpr ?_⟩
    intro e he
    obtain ⟨req, hs, -⟩ := hlive e (List.mem_of_mem_take he)
    simp [hs]

/-- A subscription at level 2 that is given up while a message is out. -/
theorem no_dangling_ack_queued :
    (∃ σ : Broker Nat, (σ.dnode.get 0).any (fun node => (ackEntries node.pendingAcks).length = 1) = true ∧
      σ.FreesWell 0 0) ∧
    ∃ σ : Broker Nat, (σ.sub.get 0).isNone = true ∧ (∃ σ', checkSubscriptionAck smallConfig σ 0 1 = some σ') := by
  obtain ⟨hfree, hlive⟩ := @no_dangling_ack Nat smallConfig
  constructor
  · obtain ⟨σ, hreach, hcheck⟩ := Reach.of_eval (step smallConfig) brokerInit
      ([.initDownstream (cstr "r"), .connect 0, .subscribe 0 (readEntry "/x" 1 2) 0, .update 0 [1]])
      (fun σ => (σ.dnode.get 0).any (fun node => (ackEntries node.pendingAcks).length = 1) &&
        (σ.sub.get 0).any (fun req => req.reqNode = 0) && (σ.releaseSub 0).isSome && decide (σ.FreeClean 0)) (by decide)
    simp only [Bool.and_eq_true, decide_eq_true_eq] at hcheck
    obtain ⟨⟨⟨hone, hs⟩, hτ⟩, hclean⟩ := hcheck
    obtain ⟨req, hs, hn⟩ := (Option.any_eq_true _ _).mp hs
    obtain ⟨τ, hτ⟩ := Option.isSome_iff_exists.mp hτ
    have hwell := (hfree σ τ 0 req hreach hs hτ).mpr hclean
    rw [of_decide_eq_true hn] at hwell
    exact ⟨σ, hone, hwell⟩
  · obtain ⟨σ, hreach, hcheck⟩ := Reach.of_guarded (step smallConfig) FreesClean brokerInit
      ([.initDownstream (cstr "r"), .connect 0, .subscribe 0 (readEntry "/x" 1 2) 0, .update 0 [1],
        .unsubscribe 0 1])
      (fun σ => (σ.dnode.get 0).isSome && (σ.sub.get 0).isNone) (by decide)
    simp only [Bool.and_eq_true] at hcheck
    obtain ⟨hd, hs⟩ := hcheck
    obtain ⟨node, hd⟩ := Option.isSome_iff_exists.mp hd
    exact ⟨σ, hs, (hlive σ hreach 0 node hd).2 1⟩

/-- A subscription at level 3 that is given up while a message is out. -/
def directRun : List (Event Nat) :=
  [.initDownstream (cstr "r"), .connect 0, .subscribe 0 (readEntry "/x" 1 3) 0, .update 0 [1]]

/-- It has no message queue, so its entry stays, and the acknowledgement dereferences it. -/
theorem dangling_ack :
    (¬∀ (σ τ : Broker Nat) (s : SubId) (req : SubRequester Nat),
      Reach (step smallConfig) (fun _ _ => True) (fun σ => brokerInit = some σ) σ → σ.sub.get s = some req →
      σ.releaseSub s = some τ → σ.FreesWell s req.reqNode) ∧
    ¬∀ (σ : Broker Nat) (d : DownId) (node : DownstreamNode Nat),
      Reach (step smallConfig) (fun _ _ => True) (fun σ => brokerInit = some σ) σ → σ.dnode.get d = some node →
      ∀ k, ∃ σ', checkSubscriptionAck smallConfig σ d k = some σ' := by
  constructor
  · intro h
    obtain ⟨σ, hreach, hcheck⟩ := Reach.of_eval (step smallConfig) brokerInit directRun
      (fun σ => (σ.sub.get 0).isSome && (σ.releaseSub 0).isSome && !decide (σ.FreeClean 0)) (by decide)
    simp only [Bool.and_eq_true, Bool.not_eq_true', decide_eq_false_iff_not] at hcheck
    obtain ⟨⟨hs, hτ⟩, hclean⟩ := hcheck
    obtain ⟨req, hs⟩ := Option.isSome_iff_exists.mp hs
    obtain ⟨τ, hτ⟩ := Option.isSome_iff_exists.mp hτ
    obtain ⟨node, hd⟩ := Homes.of_paths (reach_paths hreach) 0 req hs
    exact hclean ((freesWell_iff hs hd hτ).mp (h σ τ 0 req hreach hs hτ))
  · intro h
    obtain ⟨σ, hreach, hcheck⟩ := Reach.of_eval (step smallConfig) brokerInit
      (directRun ++ [.unsubscribe 0 1])
      (fun σ => (σ.dnode.get 0).isSome && (checkSubscriptionAck smallConfig σ 0 1).isNone) (by decide)
    simp only [Bool.and_eq_true, Option.isNone_iff_eq_none] at hcheck
    obtain ⟨hd, hnone⟩ := hcheck
    obtain ⟨node, hd⟩ := Option.isSome_iff_exists.mp hd
    obtain ⟨σ', hσ'⟩ := h σ 0 node hreach hd 1
    rw [hnone] at hσ'
    cases hσ'

end Broker

end DSLink
