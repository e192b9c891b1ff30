import DSLink.Lib.SendWindow

/-!
# `Lib.SendOrder` — a send window keeps the order of what it was given

A window takes bodies from a log and puts them on a wire. `InOrder` says that nothing is out of order: the wire
followed by the rows that wait is the end of the log, and the sent rows that wait for their acknowledgement are the
end of the wire. It survives a new row, a run of the sender and an acknowledgement, and a new wire. Two things
break it: a row that pushes a sent row out of the queue, and an acknowledgement that covers several rows while
others wait (`AckRun.skips`).
-/

namespace Window

variable {β γ : Type} {num : β → Nat} {setNum : β → Nat → β} {body : β → γ} {limit : Nat}

/-- The sent rows are the end of the wire, and the wire with the rows that wait is the end of the log. -/
structure InOrder (num : β → Nat) (body : β → γ) (limit : Nat) (log wire : List γ) (w : Window β) : Prop where
  split : ∃ S U, Split num w.rows S U ∧ w.pending = S.map num ∧ S.map body <:+ wire ∧ wire ++ U.map body <:+ log
  count_eq : w.count = w.pending.length
  le_limit : w.count ≤ limit

namespace InOrder

variable {log wire : List γ} {w w' : Window β} {out : List (Nat × β)}

theorem core (h : InOrder num body limit log wire w) : Core num w := by
  obtain ⟨S, U, hs, hp, -, -⟩ := h.split
  exact ⟨⟨S, U, hs, hp ▸ List.Sublist.refl _⟩, h.count_eq⟩

theorem exact (h : InOrder num body limit log wire w) : Exact num limit w := by
  obtain ⟨S, U, hs, hp, -, -⟩ := h.split
  refine ⟨?_, h.le_limit⟩
  rw [h.count_eq, hp, List.length_map, hs.sentCount]

/-- The queue has the latest rows of the log. -/
theorem rows_suffix (h : InOrder num body limit log wire w) : w.rows.map body <:+ log := by
  obtain ⟨S, U, hs, -, ⟨front, hfront⟩, hlog⟩ := h.split
  refine List.IsSuffix.trans ⟨front, ?_⟩ hlog
  rw [hs.eq, List.map_append, ← hfront, List.append_assoc]

/-- A window with nothing in it and nothing on its wire. -/
theorem empty (log : List γ) : InOrder num body limit log [] ⟨[], 0, []⟩ where
  split := ⟨[], [], ⟨rfl, by simp, by simp⟩, rfl, List.suffix_refl _, List.nil_suffix⟩
  count_eq := rfl
  le_limit := Nat.zero_le _

/-- What the sender takes off the rows that wait goes on the wire. -/
theorem send (hset : ∀ m id, num (setNum m id) = id) (hbody : ∀ m id, body (setNum m id) = body m)
    (h : InOrder num body limit log wire w) (hrun : SendRun num setNum limit w out w') :
    InOrder num body limit log (wire ++ out.map (fun o => body o.2)) w' ∧ Settled num limit w'.rows := by
  have hexact := hrun.exact hset h.core.sentFirst h.exact
  obtain ⟨S, U, hs, hp, hwire, hlog⟩ := h.split
  have hc : w.count = S.length := by rw [h.count_eq, hp, List.length_map]
  obtain ⟨U', rfl, hs', -⟩ := hrun.split hset hs hc
  have hnum : (out.map (fun o => setNum o.2 o.1)).map num = out.map Prod.fst := by
    rw [List.map_map]
    exact List.map_congr_left (fun o _ => hset o.2 o.1)
  have hout : (out.map (fun o => setNum o.2 o.1)).map body = out.map (fun o => body o.2) := by
    rw [List.map_map]
    exact List.map_congr_left (fun o _ => hbody o.2 o.1)
  refine ⟨⟨⟨_, U', hs', ?_, ?_, ?_⟩, ?_, hexact.1.le_limit⟩, hexact.2⟩
  · rw [hrun.pending, hp, List.map_append, hnum]
  · rw [List.map_append, hout]
    obtain ⟨front, rfl⟩ := hwire
    exact ⟨front, by rw [List.append_assoc]⟩
  · rw [List.map_append, List.map_map] at hlog
    rw [List.append_assoc]
    exact hlog
  · rw [hrun.count, hrun.pending, h.count_eq, List.length_append, List.length_map]

/-- A new row waits behind the others. -/
theorem push (h : InOrder num body limit log wire w) {b : β} (hb : num b = 0) :
    InOrder num body limit (log ++ [body b]) wire ⟨w.rows ++ [b], w.count, w.pending⟩ := by
  obtain ⟨S, U, hs, hp, hwire, ⟨front, hlog⟩⟩ := h.split
  refine ⟨⟨S, U ++ [b], ⟨?_, hs.sent, fun m hm => ?_⟩, hp, hwire, front, ?_⟩, h.count_eq, h.le_limit⟩
  · show w.rows ++ [b] = _
    rw [hs.eq, List.append_assoc]
  · rcases List.mem_append.mp hm with hm | hm
    · exact hs.unsent m hm
    · exact List.mem_singleton.mp hm ▸ hb
  · rw [← hlog]
    simp

/-- While nothing is on the wire, the oldest row may go. -/
theorem drop_oldest (h : InOrder num body limit log [] w) :
    InOrder num body limit log [] ⟨w.rows.tail, w.count, w.pending⟩ := by
  obtain ⟨S, U, hs, hp, hwire, hlog⟩ := h.split
  obtain rfl := List.map_eq_nil_iff.mp (List.suffix_nil.mp hwire)
  refine ⟨⟨[], U.tail, ⟨by simp [hs.eq], by simp, fun m hm => ?_⟩, hp, hwire, ?_⟩, h.count_eq, h.le_limit⟩
  · exact hs.unsent m (List.mem_of_mem_tail hm)
  · rw [List.map_tail]
    exact (List.tail_suffix _).trans hlog

/-- On a new wire all rows wait again. -/
theorem restart (h : InOrder num body limit log wire w) {rows : List β} (hrows : rows.map body = w.rows.map body)
    (hnum : ∀ m ∈ rows, num m = 0) : InOrder num body limit log [] ⟨rows, 0, []⟩ where
  split := ⟨[], rows, ⟨rfl, by simp, hnum⟩, rfl, List.suffix_refl _, by
    rw [List.nil_append, hrows]
    exact h.rows_suffix⟩
  count_eq := rfl
  le_limit := Nat.zero_le _

/-! ## Acknowledging -/

variable {k : Nat} {A B : List Nat}

/-- Acknowledged rows leave the queue from the front. -/
theorem dropAcked (h : InOrder num body limit log wire w) (hp : w.pending = A ++ B)
    (hsort : w.pending.Pairwise (· < ·)) (hA : ∀ a ∈ A, a ≤ k) (hB : ∀ b ∈ B, k < b) :
    InOrder num body limit log wire ⟨Window.dropAcked num k w.rows, w.count - A.length, B⟩ := by
  have hexact := h.exact.dropAcked h.core hp hsort hA hB
  obtain ⟨S, U, hs, hS, ⟨front, hwire⟩, hlog⟩ := h.split
  have hs' := hs.dropAcked (k := k) (hS ▸ hsort)
  have hB' : B = (S.filter (fun m => k < num m)).map num := by
    have hf := congrArg (List.filter (fun x => decide (k < x))) (hp.symm.trans hS)
    rw [filter_pending hA hB, List.filter_map] at hf
    exact hf
  have hcount := h.count_eq
  rw [hp, List.length_append] at hcount
  refine ⟨⟨_, U, hs', hB', ?_, hlog⟩, by show w.count - A.length = B.length; omega, hexact.le_limit⟩
  -- the covered rows are in front of the others
  have hrows : Window.dropAcked num k w.rows <:+ w.rows := List.dropWhile_suffix _
  rw [hs'.eq, hs.eq] at hrows
  obtain ⟨gone, hgone⟩ := hrows
  rw [← List.append_assoc] at hgone
  have hS' := List.append_cancel_right hgone
  refine ⟨front ++ gone.map body, ?_⟩
  rw [List.append_assoc, ← List.map_append, hS', hwire]

/-- An acknowledgement that covers one row, or finds none that wait, keeps the order. -/
theorem ack {can : Prop} (hset : ∀ m id, num (setNum m id) = id) (hbody : ∀ m id, body (setNum m id) = body m)
    (h : InOrder num body limit log wire w) (hrun : AckRun num setNum limit can k w A B out w')
    (hp : w.pending = A ++ B) (hsort : w.pending.Pairwise (· < ·)) (hA : ∀ a ∈ A, a ≤ k) (hB : ∀ b ∈ B, k < b)
    (hone : can → A.length ≤ 1 ∨ sentCount num w.rows = w.rows.length) :
    InOrder num body limit log (wire ++ out.map (fun o => body o.2)) w' := by
  have hdrop := h.dropAcked hp hsort hA hB
  cases hrun with
  | untouched =>
    rw [List.nil_append] at hp
    rw [List.map_nil, List.append_nil, ← hp]
    exact h
  | kept hne heq =>
    rw [heq] at hdrop
    simpa using hdrop
  | blocked => simpa using hdrop
  | sent hne hd hcan hrun =>
    have hpos := List.length_pos_iff.mpr hne
    rcases h.exact.aligned_dropAcked h.core hp hsort hA hB (hone hcan) hd with heq | hstop
    · have h1 := h.core.covered_one hp hsort hA hB hne heq
      rw [h1] at hdrop ⊢
      exact (hdrop.send hset hbody hrun).1
    · obtain ⟨rfl, rfl⟩ := hrun.out_nil hstop
      rw [List.map_nil, List.append_nil, show w.count - 1 - (A.length - 1) = w.count - A.length by omega]
      exact hdrop

end InOrder

end Window
