import DSLink.Broker.Acks

/-!
# `Broker.Wire` — what was sent on a link, read frame by frame

`reads g` collects what `g` reads off the frames on the present link of every downstream node. Rows for
subscribers are the only frames that most functions send; a `g` that reads nothing off them is left alone.

## Contents
- `RemoteDSLink.reads`, `Broker.reads` and one lemma for each kind of change.
- `Unread`: rows and frames that are none of the broker's own are not read. The functions that send nothing else.
-/

namespace DSLink

variable {J β : Type} {cfg : Config} {σ σ' : Broker J} {g : OutMsg J → Option β}

/-- What `g` reads off the frames of a link. -/
def RemoteDSLink.reads (g : OutMsg J → Option β) (link : RemoteDSLink J) : List β :=
  link.sent.filterMap (fun f => g f.obj)

theorem reads_wsSendObj (g : OutMsg J → Option β) (link : RemoteDSLink J) (obj : OutMsg J) :
    (brokerWsSendObj link obj).1.reads g = link.reads g ++ (g obj).toList := by
  unfold RemoteDSLink.reads brokerWsSendObj
  rw [List.filterMap_append]
  cases h : g obj <;> simp [h]

/-- Rows for subscribers are not read. -/
def Unread (g : OutMsg J → Option β) : Prop := ∀ s rows, g (.updates s rows) = none

theorem reads_newFrames (hg : Unread g) (s : SubId) (reqSid : Nat) (out : List (Nat × QueuedMessage J)) :
    (newFrames s reqSid out).filterMap (fun f => g f.obj) = [] := by
  rw [List.filterMap_eq_nil_iff]
  intro f hf
  obtain ⟨o, -, rfl⟩ := List.mem_map.mp hf
  exact hg s _

namespace Broker

/-- What `g` reads off the frames on the present link of every downstream node. -/
def reads (g : OutMsg J → Option β) (σ : Broker J) (d : DownId) : Option (Option (List β)) :=
  (σ.dnode.get d).map (fun node => node.link.map (RemoteDSLink.reads g))

theorem reads_get {d : DownId} {node : DownstreamNode J} (h : σ.dnode.get d = some node) :
    σ.reads g d = some (node.link.map (RemoteDSLink.reads g)) := by
  simp [reads, h]

theorem reads_eq_some {d : DownId} {l : List β} : σ.reads g d = some (some l) ↔
    ∃ node link, σ.dnode.get d = some node ∧ node.link = some link ∧ link.reads g = l := by
  unfold reads
  constructor
  · intro h
    obtain ⟨node, hd, h⟩ := Option.map_eq_some_iff.mp h
    obtain ⟨link, hlink, h⟩ := Option.map_eq_some_iff.mp h
    exact ⟨node, link, hd, hlink, h⟩
  · rintro ⟨node, link, hd, hlink, rfl⟩
    rw [hd, Option.map_some, hlink, Option.map_some]

theorem reads_modDnode {d : DownId} {f : DownstreamNode J → DownstreamNode J} {l : Option (List β)}
    (hf : ∀ node, σ.dnode.get d = some node → (f node).link.map (RemoteDSLink.reads g) = l)
    (hd : (σ.dnode.get d).isSome) : (σ.modDnode d f).reads g = Function.update (σ.reads g) d (some l) := by
  funext e
  show ((σ.dnode.modify d f).get e).map _ = _
  rw [Heap.get_modify, Function.update_apply]
  split
  · obtain ⟨node, hnode⟩ := Option.isSome_iff_exists.mp hd
    rw [hnode, Option.map_some, Option.map_some, hf node hnode]
  · rfl

theorem reads_modDnode_same {d : DownId} {f : DownstreamNode J → DownstreamNode J}
    (hf : ∀ node, σ.dnode.get d = some node →
      (f node).link.map (RemoteDSLink.reads g) = node.link.map (RemoteDSLink.reads g)) :
    (σ.modDnode d f).reads g = σ.reads g := by
  funext e
  show ((σ.dnode.modify d f).get e).map _ = (σ.dnode.get e).map _
  rw [Heap.get_modify]
  split
  · rename_i he
    subst he
    rw [Option.map_map]
    apply Option.map_congr
    exact hf
  · rfl

/-- What leaves the links alone. -/
theorem Frame.reads {ps : List Part} (h : Frame ps σ σ') (hlink : Part.link ∉ ps) : σ'.reads g = σ.reads g := by
  have h1 : Heap.Rel (DownstreamNode.Agree .link) σ.dnode σ'.dnode := h _ hlink
  funext d
  show (σ'.dnode.get d).map _ = (σ.dnode.get d).map _
  cases hg : σ.dnode.get d with
  | none => rw [h1.get_none.mpr hg]
  | some node =>
    obtain ⟨node', hnode', hl⟩ := h1.get hg
    rw [hnode', Option.map_some, Option.map_some, show node'.link = node.link from hl]

/-- One frame on the link of `d`. -/
theorem wsSend_reads {d : DownId} {node node' : DownstreamNode J} {obj : OutMsg J} (hd : σ.dnode.get d = some node)
    (rid : Nat) (hs : { node with rid := rid }.wsSend obj = some node') : ∃ link, node.link = some link ∧
      (σ.modDnode d (fun _ => node')).reads g =
        Function.update (σ.reads g) d (some (some (link.reads g ++ (g obj).toList))) := by
  obtain ⟨link, hlink, rfl⟩ := Option.map_eq_some_iff.mp hs
  refine ⟨link, hlink, ?_⟩
  apply reads_modDnode
  · intro _ _
    rw [Option.map_some, reads_wsSendObj]
  · rw [hd]
    rfl

/-- A frame that is not read. -/
theorem wsSend_reads_none {d : DownId} {node node' : DownstreamNode J} {obj : OutMsg J}
    (hd : σ.dnode.get d = some node) (rid : Nat) (hs : { node with rid := rid }.wsSend obj = some node')
    (hobj : g obj = none) : (σ.modDnode d (fun _ => node')).reads g = σ.reads g := by
  obtain ⟨link, hlink, hreads⟩ := wsSend_reads (g := g) hd rid hs
  rw [hreads, hobj, Option.toList_none, List.append_nil]
  rw [← reads_eq_some.mpr ⟨node, link, hd, hlink, rfl⟩, Function.update_eq_self]

/-! ## Functions that send rows only -/

theorem sendQueuedMessages_reads (hg : Unread g) {s : SubId} (h : sendQueuedMessages cfg σ s = some σ') :
    σ'.reads g = σ.reads g := by
  have h0 := h
  simp only [sendQueuedMessages, Option.bind_eq_bind, Option.bind_eq_some_iff] at h0
  obtain ⟨req, hs, node, hd, -⟩ := h0
  obtain ⟨out, req', node', hstep, hemit, -⟩ := sendQueuedMessages_run h hs hd
  funext e
  unfold reads
  rw [hstep.dnode]
  split
  · rename_i he
    subst he
    rw [hd, Option.map_some, Option.map_some]
    have hframes := hemit.frames
    have hlink := hemit.link
    cases hl : node.link with
    | none =>
      have hl' : node'.link = none := by
        rw [hl] at hlink
        simpa using hlink
      rw [hl']
    | some link =>
      rw [hl] at hlink
      obtain ⟨link', hl'⟩ := Option.isSome_iff_exists.mp hlink
      simp only [linkFrames, hl, hl', Option.map_some, Option.getD_some] at hframes
      simp only [hl', Option.map_some, RemoteDSLink.reads, hframes, List.filterMap_append, reads_newFrames hg,
        List.append_nil]
  · rfl

theorem putSender_reads {s : SubId} {d : DownId} {x : Sender J} {node : DownstreamNode J} {link : RemoteDSLink J}
    (hd : σ.dnode.get d = some node) (hlink : node.link = some link) (hx : x.link.reads g = link.reads g) :
    (σ.putSender s d x).reads g = σ.reads g := by
  apply reads_modDnode_same (σ := σ.modSub s _)
  intro node' hd'
  cases hd.symm.trans hd'
  show some (x.link.reads g) = _
  rw [hlink, Option.map_some, hx]

theorem brokerUpdateSubReq_reads (hg : Unread g) {s : SubId} {row : Row J}
    (h : brokerUpdateSubReq cfg σ s row = some σ') : σ'.reads g = σ.reads g := by
  simp only [brokerUpdateSubReq, Option.bind_eq_bind, Option.bind_eq_some_iff] at h
  obtain ⟨req, hs, node, hd, h⟩ := h
  split at h
  · simp only [Option.bind_eq_some_iff] at h
    obtain ⟨q, -, h⟩ := h
    rw [sendQueuedMessages_reads hg h]
    rfl
  · split at h
    · rename_i link hlink
      obtain rfl := Option.some.inj h
      refine putSender_reads (σ := { σ with published := σ.published ++ [(s, row)] }) hd hlink ?_
      show (brokerWsSendObj link _).1.reads g = _
      rw [reads_wsSendObj, hg]
      exact List.append_nil _
    · split at h
      · rw [(Frame.clearQosQueue h).reads (by decide)]
        rfl
      · rw [(Frame.serializeQosQueue h).reads (by decide)]
        rfl

theorem sendLastValue_reads (hg : Unread g) {s : SubId} {st : StreamId} (h : sendLastValue cfg σ s st = some σ') :
    σ'.reads g = σ.reads g := by
  rcases sendLastValue_calls h with rfl | ⟨row, h⟩
  · rfl
  · exact brokerUpdateSubReq_reads hg h

end Broker

end DSLink
