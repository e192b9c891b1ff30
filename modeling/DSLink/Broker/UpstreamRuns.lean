import DSLink.Broker.Upstream

/-!
# `Broker.UpstreamRuns` — what calls the upstream connection again

In every run whose events are `Orderly`, the poll owns exactly the handles that it points to, and one of them is what
goes on: the timer of the next attempt, the timer of the check, the poll of the `/conn` request, or the one of the web
socket. Three kinds of rounds are not orderly, and none of them leaves a handle that goes on.

## Contents
- `Held`: what the heaps hold, by the fields of the poll. `clear_spec`, `reconnect_spec`.
- `Fit`: the four statuses. A step lemma for each function.
- `upstream_goes_on_iff`, `upstream_descriptors`.
-/

namespace DSLink.Upstream

open Heap (ptr)

variable {σ σ' : State} {u h l s : Nat} {p p' : UpstreamPoll} {link : RemoteDSLink} {active : Bool}

namespace State

/-! ## Closing -/

/-- A handle that is held is closed, or there is none. -/
theorem uvClose_spec {t : Option Nat} {x : Handle} {rest : List (Nat × Handle)} (hh : σ.handle.Holds (ptr t x ++ rest)) :
    ∃ H, σ.uvClose t = some { σ with handle := H } ∧ H.Holds rest := by
  cases t with
  | none => exact ⟨σ.handle, rfl, hh⟩
  | some i =>
    have hget : σ.handle.get i = some x := (hh.get i x).mpr List.mem_cons_self
    exact ⟨σ.handle.free i, by rw [uvClose, hget]; rfl, hh.free⟩

/-- What `broker_close_link` closes: the poll of the client, the ping timer and the descriptor. -/
theorem closeLink_spec {x y : Handle} {rest : List (Nat × Handle)} (hl : σ.link.Holds [(l, link)])
    (hh : σ.handle.Holds (ptr (link.client.bind Client.poll) y ++ (ptr link.pingTimerHandle x ++ rest)))
    (hs : ∀ c, link.client = some c → (σ.sock.get c.sock).isSome) :
    ∃ H, σ.brokerCloseLink (some l) = some { σ with
        handle := H
        link := σ.link.free l
        sock := (link.client.map fun c => σ.sock.put c.sock false).getD σ.sock } ∧ H.Holds rest := by
  have hget : σ.link.get l = some link := (hl.get l link).mpr List.mem_cons_self
  rw [brokerCloseLink, hget]
  cases hc : link.client with
  | none =>
    rw [hc] at hh
    have hh : σ.handle.Holds (ptr link.pingTimerHandle x ++ rest) := hh
    obtain ⟨H, hping, hH⟩ := uvClose_spec hh
    exact ⟨H, by simp [closeClient, hc, hping], hH⟩
  | some client =>
    rw [hc] at hh
    obtain ⟨H, hpoll, hH⟩ := uvClose_spec hh
    obtain ⟨b, hb⟩ := Option.isSome_iff_exists.mp (hs client hc)
    obtain ⟨H', hping, hH'⟩ := uvClose_spec (σ := { σ with handle := H, sock := σ.sock.put client.sock false }) hH
    refine ⟨H', ?_, hH'⟩
    have hpoll : σ.uvClose client.poll = some { σ with handle := H } := hpoll
    simp [closeClient, hc, hpoll, closeNofree, hb, hping]

end State

/-- The handle of the web socket, if the status says that it is in use. -/
def UpstreamPoll.wsHandle (p : UpstreamPoll) : Option Nat := if p.status = .ws then p.wsPoll else none

/-- The heaps hold what the poll points to, and nothing else. `link` is the link of the poll, and `active` says whether
    the reconnect timer is to fire. -/
structure Held (σ : State) (u : Nat) (p : UpstreamPoll) (link : RemoteDSLink) (active : Bool) : Prop where
  handles : σ.handle.Holds (ptr p.connPoll ⟨.conn, true, u⟩ ++ (ptr p.connCheckTimer ⟨.connCheck, true, u⟩ ++
    (ptr p.wsHandle ⟨.ws, true, u⟩ ++ (ptr link.pingTimerHandle ⟨.ping, true, p.remoteDSLink.getD 0⟩ ++
      ptr p.reconnectTimer ⟨.reconnect, active, u⟩))))
  links : σ.link.Holds (ptr p.remoteDSLink link)
  quiet : p.status ≠ .ws → link.client = none ∧ link.pingTimerHandle = none
  client : p.status = .ws → ∃ l h s, p.remoteDSLink = some l ∧ p.wsPoll = some h ∧ p.sock = some s ∧
    link.client = some ⟨s, some h⟩
  idle : p.status ≠ .conn → p.status ≠ .connCheck → p.connPoll = none ∧ p.connCheckTimer = none
  sock : p.status ≠ .none → ∀ s, p.sock = some s → (σ.sock.get s).isSome ∧ s ∉ σ.left
  descriptors : ∀ s, σ.sock.get s = some true ↔ (p.status ≠ .none ∧ p.sock = some s) ∨ s ∈ σ.left

/-- A handle that lives is one that the poll or its link points to. -/
theorem Held.get (h : Held σ u p link active) (i : Nat) (x : Handle) : σ.handle.get i = some x ↔
    (p.connPoll = some i ∧ x = ⟨.conn, true, u⟩) ∨ (p.connCheckTimer = some i ∧ x = ⟨.connCheck, true, u⟩) ∨
    (p.wsHandle = some i ∧ x = ⟨.ws, true, u⟩) ∨
    (link.pingTimerHandle = some i ∧ x = ⟨.ping, true, p.remoteDSLink.getD 0⟩) ∨
    (p.reconnectTimer = some i ∧ x = ⟨.reconnect, active, u⟩) := by
  rw [h.handles.get]
  simp only [List.mem_append, Heap.mem_ptr]

/-- The heaps hold nothing, and only what was left is open. -/
structure Cleared (σ σ' : State) : Prop where
  handles : σ'.handle.Holds []
  links : σ'.link.Holds []
  descriptors : ∀ s, σ'.sock.get s = some true ↔ s ∈ σ.left
  poll : σ'.poll = σ.poll
  upstreamPoll : σ'.upstreamPoll = σ.upstreamPoll
  left : σ'.left = σ.left

/-- What `upstream_clear_poll` leaves of the poll. -/
def UpstreamPoll.cleared (p : UpstreamPoll) : UpstreamPoll :=
  { p with
    status := .none
    connCheckTimer := none
    reconnectTimer := none
    conCheckAddrList := false
    clientDslink := false
    remoteDSLink := none
    sock := none
    ws := false }

namespace State

/-- A socket that may be NULL is closed and freed. -/
theorem closeSock_spec {t : Option Nat} (hs : ∀ s, t = some s → (σ.sock.get s).isSome) :
    ∃ S, ((σ.closeNofree t).bind fun σ => σ.socketFree t) = some { σ with sock := S } ∧
      ∀ s, S.get s = if t = some s then none else σ.sock.get s := by
  cases t with
  | none => exact ⟨σ.sock, rfl, fun s => by simp⟩
  | some i =>
    obtain ⟨b, hb⟩ := Option.isSome_iff_exists.mp (hs i rfl)
    refine ⟨(σ.sock.put i false).free i, by simp [closeNofree, socketFree, hb, Heap.get_put_self hb], fun s => ?_⟩
    rw [Heap.get_free]
    by_cases hsi : s = i
    · simp [hsi]
    · rw [if_neg hsi, if_neg (fun he => hsi (Option.some.inj he).symm), Heap.get_put_ne hsi]

end State

/-- What is left of a link before it is closed: its client has no poll any more. -/
structure Loose (σ : State) (p : UpstreamPoll) (link : RemoteDSLink) (active : Bool) (u : Nat) : Prop where
  handles : σ.handle.Holds (ptr p.reconnectTimer ⟨.reconnect, active, u⟩ ++
    ptr link.pingTimerHandle ⟨.ping, true, p.remoteDSLink.getD 0⟩)
  links : σ.link.Holds (ptr p.remoteDSLink link)
  gone : p.remoteDSLink = none → link.client = none ∧ link.pingTimerHandle = none
  client : ∀ c, link.client = some c → c.poll = none ∧ (σ.sock.get c.sock).isSome ∧ c.sock ∉ σ.left
  descriptors : ∀ s, σ.sock.get s = some true ↔ link.client.map Client.sock = some s ∨ s ∈ σ.left

/-- Each status closes what belongs to it. -/
theorem clearStatus_spec (h : Held σ u p link active) : ∃ H L S link', σ.clearStatus p =
    some { σ with handle := H, link := L, sock := S } ∧
      Loose { σ with handle := H, link := L, sock := S } p link' active u := by
  have hhandles := h.handles
  have hlinks := h.links
  have hdesc := h.descriptors
  cases hst : p.status with
  | none =>
    obtain ⟨hconn, htimer⟩ := h.idle (by rw [hst]; decide) (by rw [hst]; decide)
    obtain ⟨hclient, hping⟩ := h.quiet (by rw [hst]; decide)
    rw [hconn, htimer, hping, UpstreamPoll.wsHandle, if_neg (by rw [hst]; decide)] at hhandles
    refine ⟨σ.handle, σ.link, σ.sock, link, by rw [State.clearStatus, hst], ?_, hlinks, fun _ => ⟨hclient, hping⟩,
      fun c hc => ?_, fun s => ?_⟩
    · rw [hping, Heap.ptr_none, List.append_nil]
      exact hhandles
    · rw [hclient] at hc
      cases hc
    · rw [hdesc, hclient, hst]
      simp
  | conn | connCheck =>
    obtain ⟨hclient, hping⟩ := h.quiet (by rw [hst]; decide)
    rw [hping, UpstreamPoll.wsHandle, if_neg (by rw [hst]; decide)] at hhandles
    obtain ⟨H, hconn, hH⟩ := State.uvClose_spec hhandles
    obtain ⟨H', htimer, hH'⟩ := State.uvClose_spec (σ := { σ with handle := H }) hH
    have hsock := h.sock (by rw [hst]; decide)
    obtain ⟨S, hclose, hS⟩ := State.closeSock_spec (σ := { σ with handle := H' }) fun s hs => (hsock s hs).1
    refine ⟨H', σ.link, S, link, ?_, ?_, hlinks, fun _ => ⟨hclient, hping⟩, fun c hc => ?_, fun s => ?_⟩
    · rw [State.clearStatus, hst]
      simp only [Option.bind_eq_bind, hconn, Option.bind_some, htimer, hclose]
    · rw [hping, Heap.ptr_none, List.append_nil]
      exact hH'
    · rw [hclient] at hc
      cases hc
    · show S.get s = some true ↔ _
      rw [hS, hclient]
      by_cases hs : p.sock = some s
      · rw [if_pos hs]
        simp [(hsock s hs).2]
      · rw [if_neg hs, hdesc]
        simp [hs]
  | ws =>
    obtain ⟨l, w, s, hl, hw, hs, hc⟩ := h.client hst
    obtain ⟨hconn, htimer⟩ := h.idle (by rw [hst]; decide) (by rw [hst]; decide)
    rw [hconn, htimer, UpstreamPoll.wsHandle, if_pos hst, hw] at hhandles
    obtain ⟨H, hpoll, hH⟩ := State.uvClose_spec (t := some w) hhandles
    rw [hl] at hlinks
    have hget : σ.link.get l = some link := (hlinks.get l link).mpr List.mem_cons_self
    refine ⟨H, σ.link.put l { link with client := some ⟨s, none⟩ }, σ.sock, { link with client := some ⟨s, none⟩ }, ?_,
      hH.perm List.perm_append_comm, ?_, ?_, fun c hcl => ?_, fun s' => ?_⟩
    · rw [State.clearStatus, hst]
      simp [hw, hpoll, hl, hget, hc]
    · rw [hl]
      exact hlinks.put _
    · rw [hl]
      exact nofun
    · obtain rfl := Option.some.inj hcl
      exact ⟨rfl, h.sock (by rw [hst]; decide) s hs⟩
    · rw [hdesc, hs, hst]
      simp

/-- The rest is the same in each status. -/
theorem clear_spec (h : Held σ u p link active) :
    ∃ σ', σ.upstreamClearPoll p = some (σ', p.cleared) ∧ Cleared σ σ' := by
  have htimer : (if p.status = .conn ∨ p.status = .connCheck then none else p.connCheckTimer) = none := by
    split
    · rfl
    · rename_i hno
      exact (h.idle (fun he => hno (.inl he)) (fun he => hno (.inr he))).2
  obtain ⟨H, L, S, link', hstatus, hloose⟩ := clearStatus_spec h
  obtain ⟨H', hrec, hH'⟩ := State.uvClose_spec hloose.handles
  have hrun : ∀ σ', (({ σ with handle := H', link := L, sock := S } : State).brokerCloseLink p.remoteDSLink) = some σ' →
      σ.upstreamClearPoll p = some (σ', p.cleared) := by
    intro σ' hσ'
    rw [State.upstreamClearPoll, hstatus]
    simp only [Option.bind_eq_bind, Option.bind_some, hrec, hσ', htimer]
    rfl
  cases hr : p.remoteDSLink with
  | none =>
    obtain ⟨hclient, hping⟩ := hloose.gone hr
    rw [hr] at hrun
    refine ⟨_, hrun _ rfl, ?_, ?_, fun s => ?_, rfl, rfl, rfl⟩
    · rw [hping] at hH'
      exact hH'
    · have hlinks := hloose.links
      rw [hr] at hlinks
      exact hlinks
    · have hdesc := hloose.descriptors s
      rw [hclient] at hdesc
      simpa using hdesc
  | some l =>
    have hlinks := hloose.links
    rw [hr] at hlinks hrun
    have hpoll : link'.client.bind Client.poll = none := by
      cases hcl : link'.client with
      | none => rfl
      | some c => exact (hloose.client c hcl).1
    have hhandles : H'.Holds (ptr (link'.client.bind Client.poll) ⟨.ws, true, u⟩ ++
        (ptr link'.pingTimerHandle ⟨.ping, true, p.remoteDSLink.getD 0⟩ ++ [])) := by
      rw [hpoll, Heap.ptr_none, List.nil_append, List.append_nil]
      exact hH'
    obtain ⟨H'', hclose, hH''⟩ := State.closeLink_spec (σ := { σ with handle := H', link := L, sock := S })
      hlinks hhandles fun c hcl => (hloose.client c hcl).2.1
    refine ⟨_, hrun _ hclose, hH'', Heap.Holds.free hlinks, fun s => ?_, rfl, rfl, rfl⟩
    show ((link'.client.map fun c => S.put c.sock false).getD S).get s = some true ↔ _
    have hdesc := hloose.descriptors s
    cases hcl : link'.client with
    | none =>
      rw [hcl] at hdesc
      simpa using hdesc
    | some c =>
      obtain ⟨-, hsome, hnot⟩ := hloose.client c hcl
      obtain ⟨b, hb⟩ := Option.isSome_iff_exists.mp hsome
      rw [hcl] at hdesc
      by_cases hs : s = c.sock
      · subst hs
        show (S.put c.sock false).get c.sock = some true ↔ _
        rw [Heap.get_put_self hb]
        simpa using hnot
      · show (S.put c.sock false).get s = some true ↔ _
        rw [Heap.get_put_ne hs, hdesc]
        simp [Ne.symm hs]

/-! ## The four statuses -/

/-- The callback that goes on. -/
def Status.use : Status → Use
  | .none => .reconnect
  | .connCheck => .connCheck
  | .conn => .conn
  | .ws => .ws

/-- What the poll points to in each status. -/
def UpstreamPoll.Parts (p : UpstreamPoll) : Prop :=
  match p.status with
  | .none => p.reconnectTimer.isSome ∧ p.connPoll = none ∧ p.connCheckTimer = none ∧ p.remoteDSLink = none ∧
    p.ws = false
  | .connCheck => p.connCheckTimer.isSome ∧ p.connPoll = none ∧ p.remoteDSLink.isSome ∧ p.sock.isSome ∧
    p.conCheckAddrList = true ∧ p.clientDslink = true ∧ p.ws = false
  | .conn => p.connPoll.isSome ∧ p.connCheckTimer = none ∧ p.remoteDSLink.isSome ∧ p.sock.isSome ∧
    p.clientDslink = true ∧ p.ws = false
  | .ws => p.connPoll = none ∧ p.connCheckTimer = none ∧ p.ws = true

/-- A poll between two events. -/
structure Fit (σ : State) (u : Nat) (p : UpstreamPoll) : Prop where
  held : ∃ link, Held σ u p link (p.status = .none) ∧ link.pendingClose = false
  parts : p.Parts
  interval : p.reconnectInterval ≤ 60

/-- A function survives, and leaves a poll that fits. -/
def Goes (σ : State) (u : Nat) (r : Option (State × UpstreamPoll)) : Prop :=
  ∃ σ' p', r = some (σ', p') ∧ Fit σ' u p' ∧ σ'.poll = σ.poll ∧ σ'.upstreamPoll = σ.upstreamPoll

/-- What `upstream_reconnect` leaves of the poll, with its new timer. -/
def UpstreamPoll.retried (p : UpstreamPoll) (t : Nat) : UpstreamPoll :=
  { p.cleared with
    reconnectInterval := if p.reconnectInterval < 60 then p.reconnectInterval + 1 else p.reconnectInterval
    reconnectTimer := some t }

theorem reconnect_spec (h : Held σ u p link active) (hconn : p.connPoll = none) (hi : p.reconnectInterval ≤ 60) :
    ∃ σ' p', σ.upstreamReconnect u p = some (σ', p') ∧ Fit σ' u p' ∧ σ'.poll = σ.poll ∧
      σ'.upstreamPoll = σ.upstreamPoll ∧ p'.status = .none ∧ p'.ws = false := by
  obtain ⟨σ', hclear, hc⟩ := clear_spec h
  have hinterval : (if p.reconnectInterval < 60 then p.reconnectInterval + 1 else p.reconnectInterval) ≤ 60 := by
    split <;> omega
  refine ⟨σ'.uvStart ⟨.reconnect, true, u⟩, p.retried σ'.handle.next, by rw [State.upstreamReconnect, hclear]; rfl,
    ⟨⟨⟨none, none, false⟩, ?_, rfl⟩, ?_, hinterval⟩, hc.poll, hc.upstreamPoll, rfl, rfl⟩
  · refine ⟨?_, hc.links, fun _ => ⟨rfl, rfl⟩, nofun, fun _ _ => ⟨hconn, rfl⟩, fun hne => absurd rfl hne, fun s => ?_⟩
    · have hstart := hc.handles.alloc ⟨.reconnect, true, u⟩
      simpa [UpstreamPoll.retried, UpstreamPoll.cleared, hconn, UpstreamPoll.wsHandle, State.uvStart] using hstart
    · show σ'.sock.get s = some true ↔ _
      rw [hc.descriptors, show (State.uvStart σ' ⟨.reconnect, true, u⟩).left = σ'.left from rfl, hc.left]
      simp [UpstreamPoll.retried, UpstreamPoll.cleared]
  · exact ⟨rfl, hconn, rfl, rfl, rfl⟩

theorem reconnect_goes (h : Held σ u p link active) (hconn : p.connPoll = none) (hi : p.reconnectInterval ≤ 60) :
    Goes σ u (σ.upstreamReconnect u p) := by
  obtain ⟨σ', p', hrun, hfit, hpoll, hup, -⟩ := reconnect_spec h hconn hi
  exact ⟨σ', p', hrun, hfit, hpoll, hup⟩

/-- A poll that nothing is under way for; its last timer may still be there. -/
structure Idle (σ : State) (u : Nat) (p : UpstreamPoll) : Prop where
  handles : σ.handle.Holds (ptr p.reconnectTimer ⟨.reconnect, false, u⟩)
  links : σ.link.Holds []
  status : p.status = .none
  connPoll : p.connPoll = none
  connCheckTimer : p.connCheckTimer = none
  ws : p.ws = false
  descriptors : ∀ s, σ.sock.get s = some true ↔ s ∈ σ.left
  interval : p.reconnectInterval ≤ 60

theorem connectConn_goes (h : Idle σ u p) (c : Connect) : Goes σ u (σ.upstreamConnectConn u c p) := by
  have hnew : σ.sock.next ∉ σ.left := fun hs => Heap.ne_next_of_get ((h.descriptors _).mpr hs) rfl
  have hlinks := h.links.alloc ⟨none, none, false⟩
  cases c with
  | started =>
    refine ⟨_, _, rfl, ⟨⟨⟨none, none, false⟩, ?_, rfl⟩, ?_, h.interval⟩, rfl, rfl⟩
    · refine ⟨?_, hlinks, fun _ => ⟨rfl, rfl⟩, nofun, fun _ hne => absurd rfl hne, fun _ s hs => ?_, fun s => ?_⟩
      · have hstart := h.handles.alloc ⟨.connCheck, true, u⟩
        show (σ.handle.alloc _).Holds _
        simpa [UpstreamPoll.wsHandle, h.connPoll] using hstart
      · obtain rfl := Option.some.inj hs
        exact ⟨by rw [State.uvStart, Heap.get_alloc_next]; rfl, hnew⟩
      · show (σ.sock.alloc true).get s = some true ↔ _
        rw [Heap.get_alloc]
        split
        · rename_i hs
          simp [hs]
        · rename_i hs
          rw [h.descriptors]
          simp [Ne.symm hs, State.uvStart]
    · exact ⟨rfl, h.connPoll, rfl, rfl, rfl, rfl, h.ws⟩
  | failed opened addrs =>
    have hst : p.status = .none := h.status
    suffices hheld : Held _ u _ ⟨none, none, false⟩ false from reconnect_goes hheld h.connPoll h.interval
    refine ⟨?_, hlinks, fun _ => ⟨rfl, rfl⟩, fun hws => ?_, fun _ _ => ⟨h.connPoll, h.connCheckTimer⟩, fun hne => ?_,
      fun s => ?_⟩
    · simpa [UpstreamPoll.wsHandle, h.connPoll, h.connCheckTimer, hst] using h.handles
    · rw [show p.status = _ from hws] at hst
      cases hst
    · exact absurd hst hne
    · show (σ.sock.alloc opened).get s = some true ↔ (p.status ≠ .none ∧ _) ∨
        s ∈ if opened then σ.left ++ [σ.sock.next] else σ.left
      rw [Heap.get_alloc, hst]
      by_cases hs : s = σ.sock.next
      · subst hs
        cases opened <;> simp [hnew]
      · rw [if_neg hs, h.descriptors]
        cases opened <;> simp [hs]

/-- The check of the connection: its timer has fired and is closed. -/
theorem checkConn_goes {t : Nat} (h : Fit σ u p) (hst : p.status = .connCheck) (ht : p.connCheckTimer = some t)
    (connected written : Bool) : Goes σ u ((σ.fired t).upstreamCheckConn u connected written p) := by
  obtain ⟨⟨link, hheld, hpending⟩, hparts, hi⟩ := h
  obtain ⟨status, connPoll, connCheckTimer, addrs, wsPoll, interval, timer, remote, client, sock, ws⟩ := p
  obtain rfl : status = .connCheck := hst
  obtain rfl : connCheckTimer = some t := ht
  obtain ⟨-, rfl, hlink, hsome, rfl, rfl, rfl⟩ : True ∧ connPoll = none ∧ remote.isSome = true ∧ sock.isSome = true ∧
    addrs = true ∧ client = true ∧ ws = false := ⟨trivial, hparts.2⟩
  obtain ⟨s, rfl⟩ := Option.isSome_iff_exists.mp hsome
  obtain ⟨hopen, hleft⟩ := hheld.sock nofun s rfl
  obtain ⟨b, hb⟩ := Option.isSome_iff_exists.mp hopen
  obtain ⟨hlc, hping⟩ := hheld.quiet nofun
  have hhandles := hheld.handles
  rw [hping] at hhandles
  have hfired : (σ.fired t).handle.Holds (ptr (some t) ⟨.connCheck, false, u⟩ ++ ptr timer ⟨.reconnect, false, u⟩) :=
    Heap.Holds.modify hhandles _
  obtain ⟨H, hclose, hH⟩ := State.uvClose_spec hfired
  have hdesc := hheld.descriptors
  -- the poll behind the closed timer, in the status of the check and in the next one
  have hnext : ∀ status : Status, status = .connCheck ∨ status = .conn → Held { σ with handle := H } u
      ⟨status, none, none, true, wsPoll, interval, timer, remote, true, some s, false⟩ link false := by
    intro status hstatus
    have hne : status ≠ .ws ∧ status ≠ .none := by rcases hstatus with rfl | rfl <;> decide
    refine ⟨?_, hheld.links, fun _ => ⟨hlc, hping⟩, fun hws => absurd hws hne.1, fun _ _ => ⟨rfl, rfl⟩,
      fun _ s' hs' => ?_, fun s' => ?_⟩
    · simpa [hping, UpstreamPoll.wsHandle, hne.1] using hH
    · obtain rfl := Option.some.inj hs'
      exact ⟨hopen, hleft⟩
    · rw [hdesc]
      simp [hne.2]
  simp only [State.upstreamCheckConn, hclose, Option.bind_eq_bind, Option.bind_some, not_true_eq_false, if_false,
    show ({ σ.fired t with handle := H } : State).sock.get s = some b from hb]
  cases connected with
  | false => exact reconnect_goes (hnext .connCheck (.inl rfl)) rfl hi
  | true =>
    cases written with
    | false => exact reconnect_goes (hnext .conn (.inr rfl)) rfl hi
    | true =>
      have hstart := hH.alloc ⟨.conn, true, u⟩
      have hheld' := hnext .conn (.inr rfl)
      refine ⟨_, _, rfl, ⟨⟨link, ⟨?_, hheld'.links, hheld'.quiet, nofun, fun hne => absurd rfl hne,
        hheld'.sock, hheld'.descriptors⟩, hpending⟩, ⟨rfl, rfl, hlink, rfl, rfl, rfl⟩, hi⟩, rfl, rfl⟩
      show (H.alloc _).Holds _
      simpa [hping, UpstreamPoll.wsHandle] using hstart

/-- What `connect_conn_callback` does once its poll is closed, and then its socket. -/
theorem callback_spec {c : Nat} (h : Fit σ u p) (hst : p.status = .conn) (hc : p.connPoll = some c) : ∃ H S,
    H.Holds (ptr p.reconnectTimer ⟨.reconnect, false, u⟩) ∧ (∀ s, S.get s = some true ↔ s ∈ σ.left) ∧
    ∀ a, σ.connectConnCallback u c a p =
      if a = .readError then State.upstreamReconnect { σ with handle := H } u { p with connPoll := none }
      else if a = .moved true false then none
      else if a = .missing ∨ a = .wsRefused ∨ a = .accepted then
        State.handleHandshake { σ with handle := H, sock := S } u a { p with connPoll := none, sock := none }
      else State.upstreamReconnect { σ with handle := H, sock := S } u
        { p with connPoll := none, sock := none, status := .none } := by
  obtain ⟨⟨link, hheld, -⟩, hparts, -⟩ := h
  obtain ⟨status, connPoll, connCheckTimer, addrs, wsPoll, interval, timer, remote, client, sock, ws⟩ := p
  obtain rfl : status = .conn := hst
  obtain rfl : connPoll = some c := hc
  obtain ⟨-, rfl, -, hsome, -⟩ : True ∧ connCheckTimer = none ∧ _ ∧ sock.isSome = true ∧ _ := ⟨trivial, hparts.2⟩
  obtain ⟨s, rfl⟩ := Option.isSome_iff_exists.mp hsome
  obtain ⟨hopen, hleft⟩ := hheld.sock nofun s rfl
  obtain ⟨b, hb⟩ := Option.isSome_iff_exists.mp hopen
  have hhandles := hheld.handles
  rw [(hheld.quiet nofun).2] at hhandles
  obtain ⟨H, hclose, hH⟩ := State.uvClose_spec hhandles
  obtain ⟨S, hfree, hS⟩ := State.closeSock_spec (σ := { σ with handle := H }) (t := some s) fun s' hs' => by
    obtain rfl := Option.some.inj hs'
    exact hopen
  refine ⟨H, S, hH, fun s' => ?_, fun a => ?_⟩
  · rw [hS]
    by_cases hs' : some s = some s'
    · obtain rfl := Option.some.inj hs'
      rw [if_pos rfl]
      simp [hleft]
    · rw [if_neg hs', hheld.descriptors]
      simp [show s ≠ s' from fun he => hs' (congrArg some he)]
  · have hrest : ∀ f : State → Option (State × UpstreamPoll),
        (State.closeNofree { σ with handle := H } (some s)).bind (fun σ => (σ.socketFree (some s)).bind f) =
          f { σ with handle := H, sock := S } := by
      intro f
      rw [← Option.bind_assoc, hfree]
      rfl
    simp only [State.connectConnCallback, hclose, Option.bind_eq_bind, Option.bind_some,
      show ({ σ with handle := H } : State).sock.get s = some b from hb, hrest]
    cases a with
    | moved location http => cases location <;> cases http <;> rfl
    | _ => rfl

/-- The answer of the `/conn` request, but for the two that stop everything. -/
theorem answer_goes {c : Nat} (h : Fit σ u p) (hst : p.status = .conn) (hc : p.connPoll = some c) {a : Answer}
    (ha : a ≠ .missing ∧ a ≠ .moved true false) : Goes σ u (σ.connectConnCallback u c a p) := by
  obtain ⟨H, S, hH, hopenS, hrun⟩ := callback_spec h hst hc
  rw [hrun, if_neg ha.2]
  obtain ⟨⟨link, hheld, hpending⟩, hparts, hi⟩ := h
  obtain ⟨status, connPoll, connCheckTimer, addrs, wsPoll, interval, timer, remote, client, sock, ws⟩ := p
  obtain rfl : status = .conn := hst
  obtain ⟨-, rfl, hlink, -, rfl, rfl⟩ : True ∧ connCheckTimer = none ∧ remote.isSome = true ∧ _ ∧ client = true ∧
    ws = false := ⟨trivial, hparts.2⟩
  obtain ⟨l, rfl⟩ := Option.isSome_iff_exists.mp hlink
  obtain ⟨hlc, hping⟩ := hheld.quiet nofun
  have hH : H.Holds (ptr timer ⟨.reconnect, false, u⟩) := hH
  -- the poll behind the closed socket
  have hheld' : ∀ status : Status, status = .conn ∨ status = .none → Held { σ with handle := H, sock := S } u
      ⟨status, none, none, addrs, wsPoll, interval, timer, some l, true, none, false⟩ link false := by
    intro status hstatus
    have hne : status ≠ .ws := by rcases hstatus with rfl | rfl <;> decide
    refine ⟨?_, hheld.links, fun _ => ⟨hlc, hping⟩, fun hws => absurd hws hne, fun _ _ => ⟨rfl, rfl⟩, fun _ => nofun,
      fun s' => ?_⟩
    · simpa [hping, UpstreamPoll.wsHandle, hne] using hH
    · rw [hopenS]
      simp
  cases a with
  | readError =>
    suffices hheld' : Held { σ with handle := H } u
        ⟨.conn, none, none, addrs, wsPoll, interval, timer, some l, true, sock, false⟩ link false from
      reconnect_goes hheld' rfl hi
    refine ⟨?_, hheld.links, hheld.quiet, nofun, fun _ _ => ⟨rfl, rfl⟩, hheld.sock, hheld.descriptors⟩
    simpa [hping, UpstreamPoll.wsHandle] using hH
  | missing => exact absurd rfl ha.1
  | noHandshake => exact reconnect_goes (hheld' .none (.inr rfl)) rfl hi
  | moved location http => exact reconnect_goes (hheld' .none (.inr rfl)) rfl hi
  | wsRefused => exact reconnect_goes (hheld' .conn (.inl rfl)) rfl hi
  | accepted =>
    have hlinks : σ.link.Holds [(l, link)] := hheld.links
    have hget : σ.link.get l = some link := (hlinks.get l link).mpr List.mem_cons_self
    have hnew : S.next ∉ σ.left := fun hm => Heap.ne_next_of_get ((hopenS _).mpr hm) rfl
    have hstart := (hH.alloc ⟨.ws, true, u⟩).alloc ⟨.ping, true, l⟩
    rw [if_neg nofun]
    simp only [State.handleHandshake, if_true, State.handleWs, hget, Option.bind_some, Option.bind_eq_bind, State.uvStart]
    refine ⟨_, _, rfl, ⟨⟨_, ⟨?_, hlinks.put _, fun hne => absurd rfl hne, fun _ => ⟨l, _, _, rfl, rfl, rfl, rfl⟩,
      fun _ _ => ⟨rfl, rfl⟩, fun _ s' hs' => ?_, fun s' => ?_⟩, hpending⟩, ⟨rfl, rfl, rfl⟩, Nat.zero_le _⟩, rfl, rfl⟩
    · have hperm := hstart.perm (List.Perm.swap _ _ _)
      simpa [UpstreamPoll.wsHandle] using hperm
    · obtain rfl := Option.some.inj hs'
      exact ⟨by rw [Heap.get_alloc_next]; rfl, hnew⟩
    · show (S.alloc true).get s' = some true ↔ _
      rw [Heap.get_alloc]
      split
      · rename_i hs'
        simp [hs']
      · rename_i hs'
        rw [hopenS]
        simp [Ne.symm hs']

/-- What `reconnect_if_error_occured` finds after a call of wslay. -/
def Stat.bad (stat : Stat) : Bool := stat.failed || stat.pendingClose

/-- A call of wslay leaves the poll alone, or starts all over. -/
theorem wslayCall_spec (h : Fit σ u p) (hst : p.status = .ws) (stat : Stat) : ∃ σ' p',
    σ.wslayCall u stat p = some (σ', p') ∧ Fit σ' u p' ∧ σ'.poll = σ.poll ∧ σ'.upstreamPoll = σ.upstreamPoll ∧
      if stat.bad then p'.ws = false else p' = p ∧ σ'.handle = σ.handle := by
  obtain ⟨⟨link, hheld, hpending⟩, hparts, hi⟩ := h
  have hparts' := hparts
  rw [UpstreamPoll.Parts, hst] at hparts'
  obtain ⟨hconn, htimer, hws⟩ := hparts'
  obtain ⟨l, w, s, hl, hw, hs, hc⟩ := hheld.client hst
  have hlinks := hheld.links
  rw [hl] at hlinks
  have hget : σ.link.get l = some link := (hlinks.get l link).mpr List.mem_cons_self
  have hput := hlinks.put { link with pendingClose := stat.pendingClose }
  have hget' := (hput.get l _).mpr List.mem_cons_self
  have hheld' : Held { σ with link := σ.link.put l { link with pendingClose := stat.pendingClose } } u p
      { link with pendingClose := stat.pendingClose } (p.status = .none) :=
    ⟨hheld.handles, by rw [hl]; exact hput, hheld.quiet, hheld.client, hheld.idle, hheld.sock, hheld.descriptors⟩
  simp only [State.wslayCall, hws, if_true, State.setPending, hl, hget, Option.bind_eq_bind, Option.bind_some, hpending,
    Bool.false_or, State.reconnectIfErrorOccured, hget']
  have hretry := reconnect_spec hheld' hconn hi
  obtain ⟨σ', p', hrun, hfit, hpoll, hup, -, hno⟩ := hretry
  cases hf : stat.failed with
  | true => exact ⟨σ', p', hrun, hfit, hpoll, hup, by rw [if_pos (by simp [Stat.bad, hf])]; exact hno⟩
  | false =>
    cases hp : stat.pendingClose with
    | true =>
      rw [hp] at hrun
      exact ⟨σ', p', hrun, hfit, hpoll, hup, by rw [if_pos (by simp [Stat.bad, hp])]; exact hno⟩
    | false =>
      rw [hp] at hheld'
      exact ⟨_, p, rfl, ⟨⟨_, hheld', rfl⟩, hparts, hi⟩, rfl, rfl, by
        rw [if_neg (by simp [Stat.bad, hf, hp])]
        exact ⟨rfl, rfl⟩⟩

/-- A handle of the web socket: what is read and then written. -/
theorem io_goes {w : Nat} (h : Fit σ u p) (hst : p.status = .ws) (hw : p.wsPoll = some w) {failed : Bool}
    {read : Option Stat} {write : Option (Option Stat)}
    (ho : failed = true ∨ (∀ stat, read = some stat → stat.bad = false) ∨ write = none) :
    Goes σ u (σ.upstreamIoHandler u w failed read write p) := by
  have hws : p.ws = true := by
    have hparts := h.parts
    rw [UpstreamPoll.Parts, hst] at hparts
    exact hparts.2.2
  unfold State.upstreamIoHandler
  rw [if_neg (by rw [hws]; decide)]
  cases failed with
  | true =>
    obtain ⟨⟨link, hheld, -⟩, hparts, hi⟩ := h
    rw [UpstreamPoll.Parts, hst] at hparts
    exact reconnect_goes hheld hparts.1 hi
  | false =>
    rw [if_neg (by decide)]
    -- the half that writes, with a poll that is still connected
    have hwrite : ∀ {τ : State}, Fit τ u p → τ.handle = σ.handle → ∀ send, Goes τ u (τ.ioWrite u w send p) := by
      intro τ hτ hhandle send
      obtain ⟨link, hheld, -⟩ := hτ.held
      have hx := (hheld.get w ⟨.ws, true, u⟩).mpr (.inr (.inr (.inl ⟨by rw [UpstreamPoll.wsHandle, if_pos hst, hw], rfl⟩)))
      unfold State.ioWrite
      simp only [hws, if_true, hx, Option.bind_eq_bind, Option.bind_some]
      cases send with
      | none => exact ⟨τ, p, rfl, hτ, rfl, rfl⟩
      | some stat =>
        obtain ⟨σ', p', hrun, hfit, hpoll, hup, -⟩ := wslayCall_spec hτ hst stat
        exact ⟨σ', p', hrun, hfit, hpoll, hup⟩
    cases read with
    | none =>
      cases write with
      | none => exact ⟨σ, p, rfl, h, rfl, rfl⟩
      | some send => exact hwrite h rfl send
    | some stat =>
      obtain ⟨σ', p', hrun, hfit, hpoll, hup, hbad⟩ := wslayCall_spec h hst stat
      simp only [hrun, Option.bind_eq_bind, Option.bind_some]
      cases write with
      | none => exact ⟨σ', p', rfl, hfit, hpoll, hup⟩
      | some send =>
        have hgood : stat.bad = false := by simpa using ho
        rw [hgood, if_neg (by decide)] at hbad
        obtain ⟨rfl, hhandle⟩ := hbad
        obtain ⟨τ, p', hrun', hfit', hpoll', hup'⟩ := hwrite hfit hhandle send
        exact ⟨τ, p', hrun', hfit', hpoll'.trans hpoll, hup'.trans hup⟩

/-- What was read starts all over, and the half that writes uses a web socket that is NULL. -/
theorem io_stops {w : Nat} (h : Fit σ u p) (hst : p.status = .ws) {stat : Stat} (hbad : stat.bad = true)
    (send : Option Stat) : σ.upstreamIoHandler u w false (some stat) (some send) p = none := by
  have hws : p.ws = true := by
    have hparts := h.parts
    rw [UpstreamPoll.Parts, hst] at hparts
    exact hparts.2.2
  obtain ⟨σ', p', hrun, -, -, -, hno⟩ := wslayCall_spec h hst stat
  rw [hbad, if_pos rfl] at hno
  unfold State.upstreamIoHandler
  rw [if_neg (by rw [hws]; decide), if_neg (by decide)]
  simp only [hrun, Option.bind_eq_bind, Option.bind_some, State.ioWrite, hno, Bool.false_eq_true, if_false]

/-! ## Runs -/

/-- The rounds after which something goes on. The others: a response without one of the parameters ends the callback
    of the `/conn` request with nothing started; a move to a location without an address is a search in a NULL; a web
    socket that fails to be read is written all the same; a peer that is silent for too long has its link freed, and
    the poll is not told. -/
def Round.Orderly : Round → Prop
  | .answer a => a ≠ .missing ∧ a ≠ .moved true false
  | .io failed read write => failed = true ∨ (∀ stat, read = some stat → stat.bad = false) ∨ write = none
  | .ping timeout => timeout = false
  | _ => True

def Event.Orderly : Event → Prop
  | .fires _ r => r.Orderly
  | _ => True

/-- A poll of the node has one handle that goes on, and it is the one of its status. -/
def State.GoesOn (σ : State) : Prop := ∀ u, σ.upstreamPoll = some u → ∃ p h, σ.poll.get u = some p ∧
  σ.handle.get h = some ⟨p.status.use, true, u⟩ ∧
    ∀ h' x, σ.handle.get h' = some x → x.active = true → x.use ≠ .ping → h' = h

/-- The states of all runs whose events occur and are orderly. -/
def State.Reached : State → Prop := Reach step (fun σ e => e.Occurs σ ∧ e.Orderly) (· = .init)

/-- What holds between two events. -/
def State.Good (σ : State) : Prop :=
  match σ.upstreamPoll with
  | none => σ.handle.Holds [] ∧ σ.link.Holds [] ∧ σ.poll.Holds [] ∧ ∀ s, σ.sock.get s = some true ↔ s ∈ σ.left
  | some u => ∃ p, σ.poll.Holds [(u, p)] ∧ Fit σ u p

/-- The handle of each status. -/
def UpstreamPoll.waker (p : UpstreamPoll) : Option Nat :=
  match p.status with
  | .none => p.reconnectTimer
  | .connCheck => p.connCheckTimer
  | .conn => p.connPoll
  | .ws => p.wsPoll

/-- The active handles are the waker and the ping timer. -/
theorem Fit.awake (h : Fit σ u p) : ∃ w, p.waker = some w ∧ ∀ i x, σ.handle.get i = some x → x.active = true →
    (i = w ∧ x = ⟨p.status.use, true, u⟩) ∨ (x.use = .ping ∧ p.status = .ws ∧ p.remoteDSLink = some x.data) := by
  obtain ⟨⟨link, hheld, -⟩, hparts, -⟩ := h
  obtain ⟨status, connPoll, connCheckTimer, addrs, wsPoll, interval, timer, remote, client, sock, ws⟩ := p
  cases status with
  | none =>
    obtain ⟨hsome, rfl, rfl, -, -⟩ : timer.isSome = true ∧ connPoll = none ∧ connCheckTimer = none ∧ _ ∧ _ := hparts
    obtain ⟨w, rfl⟩ := Option.isSome_iff_exists.mp hsome
    refine ⟨w, rfl, fun i x hx ha => .inl ?_⟩
    have hping := (hheld.quiet nofun).2
    have hx := (hheld.get i x).mp hx
    simp only [UpstreamPoll.wsHandle, hping] at hx
    simpa [eq_comm, Status.use] using hx
  | connCheck =>
    obtain ⟨hsome, rfl, -⟩ : connCheckTimer.isSome = true ∧ connPoll = none ∧ _ := hparts
    obtain ⟨w, rfl⟩ := Option.isSome_iff_exists.mp hsome
    refine ⟨w, rfl, fun i x hx ha => .inl ?_⟩
    have hping := (hheld.quiet nofun).2
    have hx := (hheld.get i x).mp hx
    simp only [UpstreamPoll.wsHandle, hping] at hx
    rcases hx with hx | hx | hx | hx | ⟨-, rfl⟩
    · cases hx.1
    · exact ⟨(Option.some.inj hx.1).symm, hx.2⟩
    · cases hx.1
    · cases hx.1
    · cases ha
  | conn =>
    obtain ⟨hsome, rfl, -⟩ : connPoll.isSome = true ∧ connCheckTimer = none ∧ _ := hparts
    obtain ⟨w, rfl⟩ := Option.isSome_iff_exists.mp hsome
    refine ⟨w, rfl, fun i x hx ha => .inl ?_⟩
    have hping := (hheld.quiet nofun).2
    have hx := (hheld.get i x).mp hx
    simp only [UpstreamPoll.wsHandle, hping] at hx
    rcases hx with hx | hx | hx | hx | ⟨-, rfl⟩
    · exact ⟨(Option.some.inj hx.1).symm, hx.2⟩
    · cases hx.1
    · cases hx.1
    · cases hx.1
    · cases ha
  | ws =>
    obtain ⟨rfl, rfl, -⟩ : connPoll = none ∧ connCheckTimer = none ∧ _ := hparts
    obtain ⟨l, w, s, rfl, rfl, -, -⟩ := hheld.client rfl
    refine ⟨w, rfl, fun i x hx ha => ?_⟩
    rcases (hheld.get i x).mp hx with hx | hx | hx | hx | ⟨-, rfl⟩
    · cases hx.1
    · cases hx.1
    · exact .inl ⟨(Option.some.inj hx.1).symm, hx.2⟩
    · exact .inr ⟨by rw [hx.2], rfl, by rw [hx.2]; rfl⟩
    · cases ha

/-- The other objects of the state do not matter to a poll. -/
theorem Fit.other (h : Fit σ u p) (P : Heap UpstreamPoll) (o : Option Nat) :
    Fit { σ with poll := P, upstreamPoll := o } u p := by
  obtain ⟨⟨link, ⟨handles, links, quiet, client, idle, sock, descriptors⟩, hpending⟩, hparts, hi⟩ := h
  exact ⟨⟨link, ⟨handles, links, quiet, client, idle, sock, descriptors⟩, hpending⟩, hparts, hi⟩

theorem onPoll_good {f : UpstreamPoll → Option (State × UpstreamPoll)} (hpoll : σ.poll.Holds [(u, p)])
    (hu : σ.upstreamPoll = some u) (hgo : Goes σ u (f p)) : ∃ σ', σ.onPoll u f = some σ' ∧ σ'.Good := by
  obtain ⟨τ, p', hrun, hfit, hkeep, hup⟩ := hgo
  have hget : σ.poll.get u = some p := (hpoll.get u p).mpr List.mem_cons_self
  refine ⟨{ τ with poll := τ.poll.put u p' }, by rw [State.onPoll, hget, Option.bind_eq_bind, Option.bind_some, hrun]; rfl,
    ?_⟩
  rw [State.Good, show ({ τ with poll := τ.poll.put u p' } : State).upstreamPoll = some u from hup.trans hu]
  exact ⟨p', by rw [hkeep]; exact hpoll.put p', hfit.other _ _⟩

/-- The timer of a next attempt has fired. -/
theorem Fit.fired {t : Nat} (h : Fit σ u p) (hst : p.status = .none) (ht : p.reconnectTimer = some t) :
    Idle (σ.fired t) u p := by
  obtain ⟨⟨link, hheld, -⟩, hparts, hi⟩ := h
  rw [UpstreamPoll.Parts, hst] at hparts
  obtain ⟨-, hconn, htimer, hlink, hws⟩ := hparts
  have hhandles := hheld.handles
  rw [hconn, htimer, (hheld.quiet (by rw [hst]; decide)).2, UpstreamPoll.wsHandle, if_neg (by rw [hst]; decide), ht]
    at hhandles
  have hlinks := hheld.links
  rw [hlink] at hlinks
  refine ⟨?_, hlinks, hst, hconn, htimer, hws, fun s => ?_, hi⟩
  · rw [ht]
    exact Heap.Holds.modify hhandles _
  · show σ.sock.get s = some true ↔ _
    rw [hheld.descriptors, hst]
    simp [State.fired]

/-- What goes on is one callback of one handle. -/
theorem State.Good.fires {h : Nat} {r : Round} (hgood : σ.Good) {data : Nat}
    (hx : σ.handle.get h = some ⟨r.use, true, data⟩) : ∃ u p, σ.upstreamPoll = some u ∧ σ.poll.Holds [(u, p)] ∧
      Fit σ u p ∧ ((p.waker = some h ∧ r.use = p.status.use ∧ data = u) ∨
        (r.use = .ping ∧ p.status = .ws ∧ p.remoteDSLink = some data)) := by
  rw [State.Good] at hgood
  cases hu : σ.upstreamPoll with
  | none =>
    rw [hu] at hgood
    exact absurd ((hgood.1.get h _).mp hx) List.not_mem_nil
  | some u =>
    rw [hu] at hgood
    obtain ⟨p, hpoll, hfit⟩ := hgood
    obtain ⟨w, hw, hawake⟩ := hfit.awake
    refine ⟨u, p, rfl, hpoll, hfit, ?_⟩
    rcases hawake h _ hx rfl with ⟨rfl, heq⟩ | hping
    · exact .inl ⟨hw, congrArg Handle.use heq, congrArg Handle.data heq⟩
    · exact .inr hping

/-- An orderly event is survived and leaves a good state. -/
theorem State.Good.step {e : Event} (h : σ.Good) (ho : e.Occurs σ) (hok : e.Orderly) :
    ∃ σ', Upstream.step σ e = some σ' ∧ σ'.Good := by
  cases e with
  | create c =>
    have hgood := h
    rw [State.Good] at h
    cases hu : σ.upstreamPoll with
    | some u => exact ⟨σ, by rw [Upstream.step, State.upstreamCreatePoll, hu], hgood⟩
    | none =>
      rw [hu] at h
      obtain ⟨hhandle, hlink, hpoll, hsock⟩ := h
      have hgo := connectConn_goes (σ := { σ with poll := σ.poll.alloc State.newPoll, upstreamPoll := some σ.poll.next })
        (u := σ.poll.next) (p := State.newPoll)
        ⟨hhandle, hlink, rfl, rfl, rfl, rfl, hsock, Nat.zero_le _⟩ c
      obtain ⟨σ', hrun, hgood'⟩ := onPoll_good (hpoll.alloc State.newPoll) rfl hgo
      exact ⟨σ', by rw [Upstream.step, State.upstreamCreatePoll, hu]; exact hrun, hgood'⟩
  | remove =>
    have hgood := h
    rw [State.Good] at h
    cases hu : σ.upstreamPoll with
    | none => exact ⟨σ, by rw [Upstream.step, State.removePoll, hu], hgood⟩
    | some u =>
      rw [hu] at h
      obtain ⟨p, hpoll, ⟨⟨link, hheld, -⟩, -, -⟩⟩ := h
      obtain ⟨τ, hclear, hc⟩ := clear_spec hheld
      have hget : σ.poll.get u = some p := (hpoll.get u p).mpr List.mem_cons_self
      refine ⟨{ τ with poll := τ.poll.free u, upstreamPoll := none }, ?_, hc.handles, hc.links, ?_, fun s => ?_⟩
      · rw [Upstream.step, State.removePoll, hu]
        simp only [hget, Option.bind_eq_bind, Option.bind_some, hclear]
      · show (τ.poll.free u).Holds []
        rw [hc.poll]
        exact hpoll.free
      · show τ.sock.get s = some true ↔ s ∈ τ.left
        rw [hc.descriptors, hc.left]
  | fires h r =>
    obtain ⟨data, hx⟩ := ho
    have hgood := State.Good.fires ‹σ.Good› hx
    obtain ⟨u, p, hu, hpoll, hfit, hcase⟩ := hgood
    rw [Upstream.step, hx, Option.bind_some]
    cases r with
    | ping timeout =>
      obtain rfl : timeout = false := hok
      exact ⟨σ, rfl, ‹σ.Good›⟩
    | reconnect c =>
      obtain ⟨hw, huse, rfl⟩ := hcase.resolve_right (by rintro ⟨hno, -⟩; cases hno)
      have hst : p.status = .none := by cases hs : p.status <;> rw [hs] at huse <;> first | rfl | cases huse
      rw [UpstreamPoll.waker, hst] at hw
      exact onPoll_good (σ := σ.fired h) hpoll hu (connectConn_goes (hfit.fired hst hw) c)
    | connCheck connected written =>
      obtain ⟨hw, huse, rfl⟩ := hcase.resolve_right (by rintro ⟨hno, -⟩; cases hno)
      have hst : p.status = .connCheck := by cases hs : p.status <;> rw [hs] at huse <;> first | rfl | cases huse
      rw [UpstreamPoll.waker, hst] at hw
      exact onPoll_good (σ := σ.fired h) hpoll hu (checkConn_goes hfit hst hw connected written)
    | answer a =>
      obtain ⟨hw, huse, rfl⟩ := hcase.resolve_right (by rintro ⟨hno, -⟩; cases hno)
      have hst : p.status = .conn := by cases hs : p.status <;> rw [hs] at huse <;> first | rfl | cases huse
      rw [UpstreamPoll.waker, hst] at hw
      exact onPoll_good hpoll hu (answer_goes hfit hst hw hok)
    | io failed read write =>
      obtain ⟨hw, huse, rfl⟩ := hcase.resolve_right (by rintro ⟨hno, -⟩; cases hno)
      have hst : p.status = .ws := by cases hs : p.status <;> rw [hs] at huse <;> first | rfl | cases huse
      rw [UpstreamPoll.waker, hst] at hw
      exact onPoll_good hpoll hu (io_goes hfit hst hw hok)

/-- A node whose only handle is a timer that has fired. -/
theorem not_goesOn {t : Option Nat} (hu : σ.upstreamPoll = some u)
    (hh : σ.handle.Holds (ptr t ⟨.reconnect, false, u⟩)) : ¬σ.GoesOn := by
  intro hgo
  obtain ⟨p, h, -, hget, -⟩ := hgo u hu
  have hactive := congrArg Handle.active (Heap.mem_ptr.mp ((hh.get h _).mp hget)).2
  cases hactive

/-- A link that is closed behind the back of its poll. -/
theorem Fit.silent (h : Fit σ u p) (hst : p.status = .ws) (hl : p.remoteDSLink = some l) :
    ∃ σ', σ.brokerCloseLink (some l) = some σ' ∧ σ'.upstreamPoll = σ.upstreamPoll ∧
      σ'.handle.Holds (ptr p.reconnectTimer ⟨.reconnect, false, u⟩) := by
  obtain ⟨⟨link, hheld, -⟩, -, -⟩ := h
  obtain ⟨l', w, s, hl', hw, hs, hc⟩ := hheld.client hst
  obtain ⟨hconn, htimer⟩ := hheld.idle (by rw [hst]; decide) (by rw [hst]; decide)
  have hhandles := hheld.handles
  rw [hconn, htimer, UpstreamPoll.wsHandle, if_pos hst, hw, hst] at hhandles
  have hlinks := hheld.links
  rw [hl] at hlinks
  have hclient : σ.handle.Holds (ptr (link.client.bind Client.poll) ⟨.ws, true, u⟩ ++
      (ptr link.pingTimerHandle ⟨.ping, true, p.remoteDSLink.getD 0⟩ ++ ptr p.reconnectTimer ⟨.reconnect, false, u⟩)) := by
    rw [hc]
    exact hhandles
  obtain ⟨H, hclose, hH⟩ := State.closeLink_spec hlinks hclient fun c hc' => by
    obtain rfl := Option.some.inj (hc.symm.trans hc')
    exact (hheld.sock (by rw [hst]; decide) s hs).1
  exact ⟨_, hclose, rfl, hH⟩

/-- After a round that is not orderly there is no state, or nothing goes on. -/
theorem State.Good.stops {e : Event} (hgood : σ.Good) (ho : e.Occurs σ) (hbad : ¬e.Orderly)
    (hs : Upstream.step σ e = some σ') : ¬σ'.GoesOn := by
  cases e with
  | create c => exact absurd trivial hbad
  | remove => exact absurd trivial hbad
  | fires h r =>
    obtain ⟨data, hx⟩ := ho
    obtain ⟨u, p, hu, hpoll, hfit, hcase⟩ := hgood.fires hx
    have hget : σ.poll.get u = some p := (hpoll.get u p).mpr List.mem_cons_self
    rw [Upstream.step, hx, Option.bind_some] at hs
    cases r with
    | reconnect c => exact absurd trivial hbad
    | connCheck connected written => exact absurd trivial hbad
    | answer a =>
      obtain ⟨hw, huse, rfl⟩ := hcase.resolve_right (by rintro ⟨hno, -⟩; cases hno)
      have hst : p.status = .conn := by cases hs : p.status <;> rw [hs] at huse <;> first | rfl | cases huse
      rw [UpstreamPoll.waker, hst] at hw
      obtain ⟨H, S, hH, -, hrun⟩ := callback_spec hfit hst hw
      rw [State.round, State.onPoll, hget, Option.bind_eq_bind, Option.bind_some, hrun] at hs
      by_cases ha : a = .missing
      · subst ha
        obtain rfl := Option.some.inj hs
        exact not_goesOn hu hH
      · obtain rfl : a = .moved true false := Classical.byContradiction fun hno => hbad ⟨ha, hno⟩
        cases hs
    | io failed read write =>
      obtain ⟨hw, huse, rfl⟩ := hcase.resolve_right (by rintro ⟨hno, -⟩; cases hno)
      have hst : p.status = .ws := by cases hs : p.status <;> rw [hs] at huse <;> first | rfl | cases huse
      rw [UpstreamPoll.waker, hst] at hw
      simp only [Event.Orderly, Round.Orderly, not_or, not_forall, Bool.not_eq_true, Bool.not_eq_false] at hbad
      obtain ⟨rfl, ⟨stat, rfl, hstat⟩, hwrite⟩ := hbad
      obtain ⟨send, rfl⟩ := Option.ne_none_iff_exists'.mp hwrite
      rw [State.round, State.onPoll, hget, Option.bind_eq_bind, Option.bind_some, io_stops hfit hst hstat send] at hs
      cases hs
    | ping timeout =>
      rcases hcase with ⟨-, huse, -⟩ | ⟨-, hst, hl⟩
      · cases hs : p.status <;> rw [hs] at huse <;> cases huse
      · obtain rfl : timeout = true := Bool.not_eq_false _ ▸ hbad
        obtain ⟨τ, hclose, hup, hH⟩ := hfit.silent hst hl
        obtain rfl := Option.some.inj (hclose.symm.trans hs)
        exact not_goesOn (hup.trans hu) hH

theorem State.Reached.good (h : σ.Reached) : σ.Good := by
  refine Reach.invariant State.Good (fun σ hσ => ?_) (fun σ e τ hgood hok hs => ?_) h
  · subst hσ
    exact ⟨Heap.holds_empty, Heap.holds_empty, Heap.holds_empty, fun s => by simp [State.init]⟩
  · obtain ⟨τ', hs', hgood'⟩ := hgood.step hok.1 hok.2
    obtain rfl := Option.some.inj (hs'.symm.trans hs)
    exact hgood'

/-- What lives in the heaps is what the node, its poll and the link of the poll point to. -/
structure State.Owned (σ : State) : Prop where
  poll : ∀ u, (σ.poll.get u).isSome ↔ σ.upstreamPoll = some u
  link : ∀ l, (σ.link.get l).isSome ↔
    ∃ u p, σ.upstreamPoll = some u ∧ σ.poll.get u = some p ∧ p.remoteDSLink = some l
  handle : ∀ i, (σ.handle.get i).isSome ↔ ∃ u p, σ.upstreamPoll = some u ∧ σ.poll.get u = some p ∧
    (p.connPoll = some i ∨ p.connCheckTimer = some i ∨ (p.status = .ws ∧ p.wsPoll = some i) ∨
      p.reconnectTimer = some i ∨ ∃ l link, p.remoteDSLink = some l ∧ σ.link.get l = some link ∧
        link.pingTimerHandle = some i)
  descriptor : ∀ s, σ.sock.get s = some true ↔ (∃ u p, σ.upstreamPoll = some u ∧ σ.poll.get u = some p ∧
    p.status ≠ .none ∧ p.sock = some s) ∨ s ∈ σ.left

theorem State.Good.owned (h : σ.Good) : σ.Owned := by
  rw [State.Good] at h
  cases hu : σ.upstreamPoll with
  | none =>
    rw [hu] at h
    obtain ⟨hhandle, hlink, hpoll, hsock⟩ := h
    refine ⟨fun u => ?_, fun l => ?_, fun i => ?_, fun s => ?_⟩
    · rw [Option.isSome_iff_exists]
      simp [hpoll.get, hu]
    · rw [Option.isSome_iff_exists]
      simp [hlink.get, hu]
    · rw [Option.isSome_iff_exists]
      simp [hhandle.get, hu]
    · simp [hsock, hu]
  | some u =>
    rw [hu] at h
    obtain ⟨p, hpoll, ⟨⟨link, hheld, -⟩, -, -⟩⟩ := h
    have hget : σ.poll.get u = some p := (hpoll.get u p).mpr List.mem_cons_self
    -- the poll of the node is the one that is held
    have hone : ∀ P : UpstreamPoll → Prop,
        (∃ u' p', σ.upstreamPoll = some u' ∧ σ.poll.get u' = some p' ∧ P p') ↔ P p := by
      intro P
      constructor
      · rintro ⟨u', p', hu', hp', hP⟩
        obtain rfl := Option.some.inj (hu.symm.trans hu')
        obtain rfl := Option.some.inj (hget.symm.trans hp')
        exact hP
      · exact fun hP => ⟨u, p, hu, hget, hP⟩
    have hping : ∀ i, link.pingTimerHandle = some i ↔
        ∃ l link', p.remoteDSLink = some l ∧ σ.link.get l = some link' ∧ link'.pingTimerHandle = some i := by
      intro i
      constructor
      · intro hi
        have hst : p.status = .ws := Classical.byContradiction fun hne => by
          rw [(hheld.quiet hne).2] at hi
          cases hi
        obtain ⟨l, -, -, hl, -⟩ := hheld.client hst
        exact ⟨l, link, hl, (hheld.links.get l link).mpr (Heap.mem_ptr.mpr ⟨hl, rfl⟩), hi⟩
      · rintro ⟨l, link', -, hlink, hi⟩
        rw [(Heap.mem_ptr.mp ((hheld.links.get l link').mp hlink)).2] at hi
        exact hi
    refine ⟨fun u' => ?_, fun l => ?_, fun i => ?_, fun s => ?_⟩
    · rw [Option.isSome_iff_exists]
      simp [hpoll.get, hu, eq_comm]
    · rw [hone, Option.isSome_iff_exists]
      simp [hheld.links.get, Heap.mem_ptr]
    · rw [hone, ← hping, Option.isSome_iff_exists]
      simp only [hheld.get, exists_or, exists_and_left, exists_eq, and_true]
      rw [UpstreamPoll.wsHandle]
      by_cases hst : p.status = .ws
      · simp only [hst, if_true, true_and]
        tauto
      · simp only [hst, if_false, false_and, reduceCtorEq, false_or]
        tauto
    · rw [hone, hheld.descriptors]

end DSLink.Upstream
