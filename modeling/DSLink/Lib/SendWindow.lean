import Mathlib.Data.List.Sublists
import Mathlib.Data.List.TakeWhile
import Mathlib.Data.List.Sort
import Mathlib.Tactic.Cases

/-!
# `Lib.SendWindow` — a queue of which a part is sent and waits for its acknowledgement

A sender keeps a queue of rows. A row it has sent carries the number of its message, any other row the
number 0. A counter is to say how many rows are out, and the numbers that wait for an acknowledgement are kept
oldest first. The sender looks for its next row at the index the counter gives and stops at a sent row, at the
end of the queue and at a limit (`SendRun`); a cumulative acknowledgement drops the rows in front whose
numbers it covers.

## Contents
- `SentFirst`, `Window.Core`: the sent rows are in front and their numbers are pending; the counter counts
  the pending numbers.
- `Window.Fits`, `Window.Exact`, `Window.Settled`: the counter stays inside the queue and the limit; it counts
  the sent rows; nothing is left to send.
- `Window.Aligned`: the counter points at the first unsent row, or nothing can be sent. It is what a
  `SendRun` needs to keep `Core`.
-/

/-- The sender's state. `num` below gives the number of a row. -/
structure Window (β : Type) where
  rows : List β
  count : Nat
  pending : List Nat

namespace Window

variable {β : Type} {num : β → Nat} {limit : Nat}

/-! ## The sent rows are in front -/

/-- No row is sent before an older one. -/
def SentFirst (num : β → Nat) (rows : List β) : Prop :=
  rows.Pairwise (fun a b => num b ≠ 0 → num a ≠ 0)

/-- The number of sent rows. -/
def sentCount (num : β → Nat) (rows : List β) : Nat := rows.countP (fun m => num m ≠ 0)

/-- `rows` are the sent rows `S` followed by the unsent rows `U`. -/
structure Split (num : β → Nat) (rows S U : List β) : Prop where
  eq : rows = S ++ U
  sent : ∀ m ∈ S, num m ≠ 0
  unsent : ∀ m ∈ U, num m = 0

theorem Split.sentFirst {rows S U : List β} (h : Split num rows S U) : SentFirst num rows := by
  unfold SentFirst
  rw [h.eq, List.pairwise_append]
  refine ⟨?_, ?_, fun a ha b _ _ => h.sent a ha⟩
  · exact List.pairwise_of_forall_mem_list (fun a ha b _ _ => h.sent a ha)
  · exact List.pairwise_of_forall_mem_list (fun a _ b hb hne => absurd (h.unsent b hb) hne)

theorem SentFirst.split {rows : List β} (h : SentFirst num rows) : ∃ S U, Split num rows S U := by
  induction rows with
  | nil => exact ⟨[], [], rfl, by simp, by simp⟩
  | cons m rows ih =>
    obtain ⟨hm, hrows⟩ := List.pairwise_cons.mp h
    by_cases h0 : num m = 0
    · refine ⟨[], m :: rows, rfl, by simp, fun b hb => ?_⟩
      rcases List.mem_cons.mp hb with rfl | hb
      · exact h0
      · exact Classical.byContradiction (fun hne => hm b hb hne h0)
    · obtain ⟨S, U, hs⟩ := ih hrows
      refine ⟨m :: S, U, by rw [hs.eq]; rfl, fun b hb => ?_, hs.unsent⟩
      rcases List.mem_cons.mp hb with rfl | hb
      · exact h0
      · exact hs.sent b hb

theorem Split.sentCount {rows S U : List β} (h : Split num rows S U) : sentCount num rows = S.length := by
  unfold Window.sentCount
  rw [h.eq, List.countP_append, List.countP_eq_length.mpr (by simpa using h.sent),
    List.countP_eq_zero.mpr (by simpa using h.unsent), Nat.add_zero]

/-! ## Invariants of a window -/

/-- The sent rows are in front, their numbers are pending in the same order, and the counter counts the
    pending numbers. -/
structure Core (num : β → Nat) (w : Window β) : Prop where
  split : ∃ S U, Split num w.rows S U ∧ (S.map num).Sublist w.pending
  count_eq : w.count = w.pending.length

/-- The counter stays inside the queue and below the limit. -/
structure Fits (limit : Nat) (w : Window β) : Prop where
  le_rows : w.count ≤ w.rows.length
  le_limit : w.count ≤ limit

/-- The counter counts the sent rows and stays below the limit. -/
structure Exact (num : β → Nat) (limit : Nat) (w : Window β) : Prop where
  count_eq : w.count = sentCount num w.rows
  le_limit : w.count ≤ limit

/-- Nothing is left to send, or the limit of sent rows is reached. -/
def Settled (num : β → Nat) (limit : Nat) (rows : List β) : Prop :=
  sentCount num rows = rows.length ∨ sentCount num rows = limit

/-- The counter points at the first unsent row, unless it lies beyond the limit or the end of the queue. -/
def Aligned (num : β → Nat) (limit : Nat) (rows : List β) (count : Nat) : Prop :=
  count = sentCount num rows ∨ limit ≤ count ∨ rows.length ≤ count

theorem Core.sentFirst {w : Window β} (h : Core num w) : SentFirst num w.rows := by
  obtain ⟨S, U, hs, -⟩ := h.split
  exact hs.sentFirst

/-- Never more rows are sent than the counter says. -/
theorem Core.sentCount_le {w : Window β} (h : Core num w) : sentCount num w.rows ≤ w.count := by
  obtain ⟨S, U, hs, hsub⟩ := h.split
  rw [hs.sentCount, h.count_eq]
  simpa using hsub.length_le

theorem sentCount_le_length (rows : List β) : sentCount num rows ≤ rows.length := List.countP_le_length

theorem Exact.fits {w : Window β} (h : Exact num limit w) : Fits limit w :=
  ⟨h.count_eq ▸ sentCount_le_length w.rows, h.le_limit⟩

theorem Exact.aligned {w : Window β} (h : Exact num limit w) : Aligned num limit w.rows w.count :=
  Or.inl h.count_eq

/-- When the counter is exact, the pending numbers are those of the sent rows. -/
theorem Core.pending_eq {w : Window β} (h : Core num w) (he : Exact num limit w) :
    ∃ S U, Split num w.rows S U ∧ w.pending = S.map num := by
  obtain ⟨S, U, hs, hsub⟩ := h.split
  refine ⟨S, U, hs, (hsub.eq_of_length ?_).symm⟩
  rw [List.length_map, ← h.count_eq, he.count_eq, hs.sentCount]

/-! ## Sending -/

/-- The loop of the sender from `w` to `w'`: each round sends the row at the index of the counter under the
    number and as the row of the pair; `setNum` writes a number into a row. -/
inductive SendRun (num : β → Nat) (setNum : β → Nat → β) (limit : Nat) :
    Window β → List (Nat × β) → Window β → Prop
  | stop {w : Window β} (h : limit ≤ w.count ∨ ∀ m, w.rows[w.count]? = some m → num m ≠ 0) :
      SendRun num setNum limit w [] w
  | send {w w' : Window β} {m : β} {id : Nat} {out : List (Nat × β)} (hc : w.count < limit)
      (hm : w.rows[w.count]? = some m) (h0 : num m = 0) (hid : id ≠ 0)
      (h : SendRun num setNum limit
        ⟨w.rows.modify w.count (fun m => setNum m id), w.count + 1, w.pending ++ [id]⟩ out w') :
      SendRun num setNum limit w ((id, m) :: out) w'

variable {setNum : β → Nat → β}

/-- The pending numbers are not looked at: a run goes through whatever is in front of them. -/
theorem SendRun.pending {w w' : Window β} {out : List (Nat × β)} (h : SendRun num setNum limit w out w') :
    w'.pending = w.pending ++ out.map Prod.fst := by
  induction h with
  | stop => simp
  | send hc hm h0 hid h ih => simp [ih]

theorem SendRun.count {w w' : Window β} {out : List (Nat × β)} (h : SendRun num setNum limit w out w') :
    w'.count = w.count + out.length := by
  induction h with
  | stop => rfl
  | send hc hm h0 hid h ih => simp only [ih, List.length_cons]; omega

theorem SendRun.length {w w' : Window β} {out : List (Nat × β)} (h : SendRun num setNum limit w out w') :
    w'.rows.length = w.rows.length := by
  induction h with
  | stop => rfl
  | send hc hm h0 hid h ih => rw [ih, List.length_modify]

/-- In front of the index it starts at, a run changes nothing. -/
theorem SendRun.getElem? {w w' : Window β} {out : List (Nat × β)} (h : SendRun num setNum limit w out w') {i : Nat}
    (hi : i < w.count) : w'.rows[i]? = w.rows[i]? := by
  induction h with
  | stop => rfl
  | send hc hm h0 hid h ih =>
    rw [ih (Nat.lt_succ_of_lt hi)]
    exact List.getElem?_modify_ne _ _ (Nat.ne_of_gt hi)

/-- A run that sends at all sends the row at the index it starts at. -/
theorem SendRun.first_sent (hset : ∀ m id, num (setNum m id) = id) {w w' : Window β} {out : List (Nat × β)}
    (h : SendRun num setNum limit w out w') (hout : out ≠ []) : ∃ m, w'.rows[w.count]? = some m ∧ num m ≠ 0 := by
  cases h with
  | stop => exact absurd rfl hout
  | @send _ _ m id _ hc hm h0 hid h =>
    refine ⟨setNum m id, ?_, by rw [hset]; exact hid⟩
    rw [h.getElem? (Nat.lt_succ_self _), List.getElem?_modify_eq, hm]
    rfl

/-- What the number does not touch stays as it is. -/
theorem SendRun.map {γ : Type} {f : β → γ} (hf : ∀ m id, f (setNum m id) = f m) {w w' : Window β}
    {out : List (Nat × β)} (h : SendRun num setNum limit w out w') : w'.rows.map f = w.rows.map f := by
  induction h with
  | stop => rfl
  | @send w w' m id out hc hm h0 hid h ih =>
    rw [ih]
    refine List.ext_getElem? fun i => ?_
    rw [List.getElem?_map, List.getElem?_map, List.getElem?_modify]
    cases w.rows[i]? with
    | none => simp
    | some b => by_cases hi : w.count = i <;> simp [hi, hf]

/-- A run stays inside the queue and the limit, if it sends at all. -/
theorem SendRun.fits {w w' : Window β} {out : List (Nat × β)} (h : SendRun num setNum limit w out w')
    (hout : out ≠ [] ∨ Fits limit w) : Fits limit w' := by
  induction h with
  | stop => exact hout.resolve_left (fun h => h rfl)
  | send hc hm h0 hid h ih =>
    refine ih (Or.inr ⟨?_, hc⟩)
    rw [List.length_modify]
    exact (List.getElem?_eq_some_iff.mp hm).1

/-- From an index past the sent rows a run cannot start. -/
theorem SendRun.out_nil {w w' : Window β} {out : List (Nat × β)} (h : SendRun num setNum limit w out w')
    (hstop : limit ≤ w.count ∨ w.rows.length ≤ w.count) : out = [] ∧ w' = w := by
  cases h with
  | stop => exact ⟨rfl, rfl⟩
  | send hc hm h0 hid h =>
    have := (List.getElem?_eq_some_iff.mp hm).1
    omega

/-- The row an aligned sender finds is the first unsent one. -/
theorem Split.first_unsent {rows S U : List β} (hs : Split num rows S U) {m : β}
    (hm : rows[S.length]? = some m) : ∃ U', U = m :: U' := by
  rw [hs.eq, List.getElem?_append_right (Nat.le_refl _), Nat.sub_self] at hm
  cases U with
  | nil => simp at hm
  | cons u U' =>
    simp only [List.getElem?_cons_zero, Option.some.injEq] at hm
    exact ⟨U', by rw [hm]⟩

theorem Split.send {rows S U' : List β} {m : β} (hs : Split num rows S (m :: U')) {id : Nat}
    (hset : num (setNum m id) ≠ 0) :
    Split num (rows.modify S.length (fun m => setNum m id)) (S ++ [setNum m id]) U' := by
  refine ⟨?_, ?_, fun b hb => hs.unsent b (List.mem_cons_of_mem _ hb)⟩
  · rw [hs.eq, List.modify_eq_take_cons_drop (by simp)]
    simp
  · intro b hb
    rcases List.mem_append.mp hb with hb | hb
    · exact hs.sent b hb
    · exact List.mem_singleton.mp hb ▸ hset

/-- A run of an aligned sender takes the unsent rows in order: it cuts the rows it sends off the front of
    the unsent ones. -/
theorem SendRun.split (hset : ∀ m id, num (setNum m id) = id) {w w' : Window β} {out : List (Nat × β)}
    (h : SendRun num setNum limit w out w') {S U : List β} (hs : Split num w.rows S U)
    (hc : w.count = S.length) :
    ∃ U', U = out.map Prod.snd ++ U' ∧
      Split num w'.rows (S ++ out.map (fun o => setNum o.2 o.1)) U' ∧
      (limit ≤ w'.count ∨ U' = []) := by
  induction h generalizing S U with
  | @stop w h =>
    refine ⟨U, rfl, by simpa using hs, h.imp_right (fun h => ?_)⟩
    cases U with
    | nil => rfl
    | cons u U' =>
      refine absurd (hs.unsent u List.mem_cons_self) (h u ?_)
      rw [hs.eq, hc, List.getElem?_append_right (Nat.le_refl _), Nat.sub_self]
      rfl
  | @send w w' m id out hlt hm h0 hid h ih =>
    obtain ⟨U1, rfl⟩ := hs.first_unsent (hc ▸ hm)
    have hs' := @Split.send _ num setNum _ _ _ _ hs id (by rw [hset]; exact hid)
    rw [← hc] at hs'
    obtain ⟨U', rfl, hs'', hstop⟩ := ih hs' (by simp [hc])
    exact ⟨U', by simp, by simpa using hs'', hstop⟩

/-- A run of an aligned sender keeps the sent rows in front. -/
theorem SendRun.core (hset : ∀ m id, num (setNum m id) = id) {w w' : Window β} {out : List (Nat × β)}
    (h : SendRun num setNum limit w out w') (hcore : Core num w)
    (hal : Aligned num limit w.rows w.count) : Core num w' := by
  rcases hal with hal | hal
  · obtain ⟨S, U, hs, hsub⟩ := hcore.split
    rw [hs.sentCount] at hal
    obtain ⟨U', -, hs', -⟩ := h.split hset hs hal
    refine ⟨⟨_, _, hs', ?_⟩, ?_⟩
    · rw [h.pending, List.map_append, List.map_map]
      have hids : out.map (num ∘ fun o => setNum o.2 o.1) = out.map Prod.fst :=
        List.map_congr_left (fun o _ => hset o.2 o.1)
      rw [hids]
      exact hsub.append_right _
    · rw [h.count, h.pending, hcore.count_eq, List.length_append, List.length_map]
  · obtain ⟨-, rfl⟩ := h.out_nil hal
    exact hcore

theorem SendRun.exact (hset : ∀ m id, num (setNum m id) = id) {w w' : Window β} {out : List (Nat × β)}
    (h : SendRun num setNum limit w out w') (hf : SentFirst num w.rows) (he : Exact num limit w) :
    Exact num limit w' ∧ Settled num limit w'.rows := by
  obtain ⟨S, U, hs⟩ := hf.split
  have hc : w.count = S.length := he.count_eq.trans hs.sentCount
  obtain ⟨U', -, hs', hstop⟩ := h.split hset hs hc
  have hn := hs'.sentCount
  have hlim := (h.fits (Or.inr he.fits)).le_limit
  have hcount := h.count
  rw [List.length_append, List.length_map] at hn
  refine ⟨⟨by omega, hlim⟩, ?_⟩
  rcases hstop with hstop | rfl
  · exact Or.inr (by omega)
  · refine Or.inl ?_
    rw [hn, hs'.eq]
    simp

/-! ## Pushing -/

theorem Core.push {w : Window β} (h : Core num w) {b : β} (hb : num b = 0) :
    Core num ⟨w.rows ++ [b], w.count, w.pending⟩ := by
  obtain ⟨S, U, hs, hsub⟩ := h.split
  refine ⟨⟨S, U ++ [b], ⟨?_, hs.sent, fun m hm => ?_⟩, hsub⟩, h.count_eq⟩
  · simp [hs.eq]
  · rcases List.mem_append.mp hm with hm | hm
    · exact hs.unsent m hm
    · exact List.mem_singleton.mp hm ▸ hb

/-- Losing the oldest row, sent or not, keeps the sent rows in front. -/
theorem Core.tail {w : Window β} (h : Core num w) : Core num ⟨w.rows.tail, w.count, w.pending⟩ := by
  obtain ⟨S, U, hs, hsub⟩ := h.split
  refine ⟨?_, h.count_eq⟩
  cases S with
  | nil =>
    refine ⟨[], U.tail, ⟨by simp [hs.eq], by simp, fun m hm => ?_⟩, by simp⟩
    exact hs.unsent m (List.mem_of_mem_tail hm)
  | cons m S =>
    refine ⟨S, U, ⟨by simp [hs.eq], fun b hb => hs.sent b (List.mem_cons_of_mem _ hb), hs.unsent⟩, ?_⟩
    exact (List.sublist_cons_self _ _).trans hsub

/-! ## Acknowledging -/

/-- Drop the rows in front that were sent under numbers up to `k`. -/
def dropAcked (num : β → Nat) (k : Nat) (rows : List β) : List β :=
  rows.dropWhile (fun m => num m ≠ 0 ∧ num m ≤ k)

theorem dropAcked_eq_self {k : Nat} {rows : List β}
    (h : ∀ m, rows.head? = some m → num m ≠ 0 → k < num m) : dropAcked num k rows = rows := by
  cases rows with
  | nil => rfl
  | cons m rows =>
    unfold dropAcked
    rw [List.dropWhile_cons_of_neg]
    intro hm
    have hm := of_decide_eq_true hm
    have := h m rfl hm.1
    omega

/-- An acknowledgement takes the rows with covered numbers out of the sent ones. -/
theorem Split.dropAcked {rows S U : List β} (hs : Split num rows S U) {k : Nat}
    (hsort : (S.map num).Pairwise (· < ·)) :
    Split num (dropAcked num k rows) (S.filter (fun m => k < num m)) U := by
  refine ⟨?_, fun m hm => hs.sent m (List.mem_of_mem_filter hm), hs.unsent⟩
  rw [hs.eq]
  have hsent := hs.sent
  have hunsent := hs.unsent
  clear hs
  induction S with
  | nil =>
    exact dropAcked_eq_self (fun m hm hne => absurd (hunsent m (List.mem_of_mem_head? hm)) hne)
  | cons m S ih =>
    obtain ⟨hlt, hsort⟩ := List.pairwise_cons.mp hsort
    have h0 := hsent m List.mem_cons_self
    by_cases hk : num m ≤ k
    · have hd : Window.dropAcked num k (m :: S ++ U) = Window.dropAcked num k (S ++ U) := by
        unfold Window.dropAcked
        rw [List.cons_append, List.dropWhile_cons_of_pos (by simp [h0, hk])]
      rw [hd, ih hsort (fun b hb => hsent b (List.mem_cons_of_mem _ hb)), List.filter_cons_of_neg (by simpa using hk)]
    · have hall : ∀ b ∈ m :: S, decide (k < num b) = true := by
        intro b hb
        rcases List.mem_cons.mp hb with rfl | hb
        · simpa using hk
        · have := hlt (num b) (List.mem_map_of_mem hb)
          simp only [decide_eq_true_eq]
          omega
      rw [List.filter_eq_self.mpr hall]
      exact dropAcked_eq_self (fun b hb _ => by cases hb; omega)

/-- What an acknowledgement of `k` makes of a window with the pending numbers `A ++ B`, of which it covers
    those of `A`: the covered rows go, the counter is decremented for each number, and if a row went the sender
    is started once, after the first decrement. `can` says that it is able to send. -/
inductive AckRun (num : β → Nat) (setNum : β → Nat → β) (limit : Nat) (can : Prop) (k : Nat) :
    Window β → List Nat → List Nat → List (Nat × β) → Window β → Prop
  | untouched {w : Window β} {B : List Nat} :
      AckRun num setNum limit can k w [] B [] ⟨w.rows, w.count, B⟩
  | kept {w : Window β} {A B : List Nat} (hA : A ≠ []) (h : dropAcked num k w.rows = w.rows) :
      AckRun num setNum limit can k w A B [] ⟨w.rows, w.count - A.length, B⟩
  | blocked {w : Window β} {A B : List Nat} (hA : A ≠ []) (h : dropAcked num k w.rows ≠ w.rows)
      (hcan : ¬can) :
      AckRun num setNum limit can k w A B [] ⟨dropAcked num k w.rows, w.count - A.length, B⟩
  | sent {w w' : Window β} {A B : List Nat} {out : List (Nat × β)} (hA : A ≠ [])
      (h : dropAcked num k w.rows ≠ w.rows) (hcan : can)
      (hrun : SendRun num setNum limit ⟨dropAcked num k w.rows, w.count - 1, B⟩ out w') :
      AckRun num setNum limit can k w A B out ⟨w'.rows, w'.count - (A.length - 1), w'.pending⟩

section Ack

variable {k : Nat} {A B : List Nat} {w : Window β}

theorem filter_pending (hA : ∀ a ∈ A, a ≤ k) (hB : ∀ b ∈ B, k < b) :
    (A ++ B).filter (fun x => k < x) = B := by
  have hnil : A.filter (fun x => k < x) = [] :=
    List.filter_eq_nil_iff.mpr (fun a ha => by simpa using hA a ha)
  have hself : B.filter (fun x => k < x) = B :=
    List.filter_eq_self.mpr (fun b hb => by simpa using hB b hb)
  rw [List.filter_append, hnil, hself, List.nil_append]

theorem filter_covered (hA : ∀ a ∈ A, a ≤ k) (hB : ∀ b ∈ B, k < b) :
    (A ++ B).filter (fun x => x ≤ k) = A := by
  have hnil : B.filter (fun x => x ≤ k) = [] :=
    List.filter_eq_nil_iff.mpr (fun b hb => by simpa using hB b hb)
  have hself : A.filter (fun x => x ≤ k) = A :=
    List.filter_eq_self.mpr (fun a ha => by simpa using hA a ha)
  rw [List.filter_append, hnil, hself, List.append_nil]

/-- The sent rows that stay have the numbers of the pending messages that stay. -/
theorem filter_sublist {S : List β} (hsub : (S.map num).Sublist (A ++ B)) (hA : ∀ a ∈ A, a ≤ k)
    (hB : ∀ b ∈ B, k < b) : ((S.filter (fun m => k < num m)).map num).Sublist B := by
  have h := hsub.filter (fun x => decide (k < x))
  rw [filter_pending hA hB, List.filter_map] at h
  exact h

/-- No more rows go than numbers are covered. -/
theorem length_filter {S : List β} (hsub : (S.map num).Sublist (A ++ B)) (hA : ∀ a ∈ A, a ≤ k)
    (hB : ∀ b ∈ B, k < b) : S.length ≤ (S.filter (fun m => k < num m)).length + A.length := by
  have h := (hsub.filter (fun x => decide (x ≤ k))).length_le
  rw [filter_covered hA hB, List.filter_map, List.length_map] at h
  have hsum := List.length_eq_length_filter_add (l := S) (fun m => decide (k < num m))
  have hneg : S.filter (fun m => !decide (k < num m)) = S.filter ((fun x => decide (x ≤ k)) ∘ num) :=
    List.filter_congr (fun m _ => by by_cases h : num m ≤ k <;> simp [h, Nat.lt_of_not_le])
  rw [hneg] at hsum
  omega

/-- The window between the acknowledgement and the sending. -/
theorem Core.dropAcked (h : Core num w) (hp : w.pending = A ++ B) (hsort : w.pending.Pairwise (· < ·))
    (hA : ∀ a ∈ A, a ≤ k) (hB : ∀ b ∈ B, k < b) :
    Core num ⟨Window.dropAcked num k w.rows, w.count - A.length, B⟩ ∧
      w.rows.length ≤ (Window.dropAcked num k w.rows).length + A.length := by
  obtain ⟨S, U, hs, hsub⟩ := h.split
  have hs' := hs.dropAcked (k := k) (hsort.sublist hsub)
  rw [hp] at hsub
  refine ⟨⟨⟨_, U, hs', filter_sublist hsub hA hB⟩, ?_⟩, ?_⟩
  · have := h.count_eq
    rw [hp, List.length_append] at this
    show w.count - A.length = B.length
    omega
  · have := length_filter hsub hA hB
    rw [hs'.eq, hs.eq, List.length_append, List.length_append]
    omega

theorem Exact.dropAcked (h : Core num w) (he : Exact num limit w) (hp : w.pending = A ++ B)
    (hsort : w.pending.Pairwise (· < ·)) (hA : ∀ a ∈ A, a ≤ k) (hB : ∀ b ∈ B, k < b) :
    Exact num limit ⟨Window.dropAcked num k w.rows, w.count - A.length, B⟩ := by
  obtain ⟨S, U, hs, hS⟩ := h.pending_eq he
  have hs' := hs.dropAcked (k := k) (hS ▸ hsort)
  have hB' : B = (S.filter (fun m => k < num m)).map num := by
    have h := congrArg (List.filter (fun x => decide (k < x))) (hp.symm.trans hS)
    rw [filter_pending hA hB, List.filter_map] at h
    exact h
  have hlen := congrArg List.length hB'
  rw [List.length_map] at hlen
  have hcount := h.count_eq
  rw [hp, List.length_append] at hcount
  refine ⟨?_, Nat.le_trans (Nat.sub_le _ _) he.le_limit⟩
  show w.count - A.length = _
  rw [hs'.sentCount]
  omega

/-- In an aligned acknowledgement the sender is started only on the last decrement. -/
theorem Core.covered_one (h : Core num w) (hp : w.pending = A ++ B) (hsort : w.pending.Pairwise (· < ·))
    (hA : ∀ a ∈ A, a ≤ k) (hB : ∀ b ∈ B, k < b) (hne : A ≠ [])
    (heq : w.count - 1 = sentCount num (Window.dropAcked num k w.rows)) : A.length = 1 := by
  have hle := (h.dropAcked hp hsort hA hB).1.sentCount_le
  have hcount := h.count_eq
  rw [hp, List.length_append] at hcount
  have hpos := List.length_pos_iff.mpr hne
  simp only at hle
  omega

variable {can : Prop} {w' : Window β} {out : List (Nat × β)}

theorem AckRun.core (hset : ∀ m id, num (setNum m id) = id)
    (hrun : AckRun num setNum limit can k w A B out w') (h : Core num w) (hp : w.pending = A ++ B)
    (hsort : w.pending.Pairwise (· < ·)) (hA : ∀ a ∈ A, a ≤ k) (hB : ∀ b ∈ B, k < b)
    (hal : Window.dropAcked num k w.rows ≠ w.rows → can →
      Aligned num limit (Window.dropAcked num k w.rows) (w.count - 1)) : Core num w' := by
  have hdrop := (h.dropAcked hp hsort hA hB).1
  cases hrun with
  | untouched =>
    rw [List.nil_append] at hp
    rwa [← hp]
  | kept hne heq => rwa [heq] at hdrop
  | blocked => exact hdrop
  | sent hne hd hcan hrun =>
    rcases hal hd hcan with heq | hstop
    · have h1 := h.covered_one hp hsort hA hB hne heq
      rw [h1] at hdrop ⊢
      exact hrun.core hset hdrop (Or.inl heq)
    · obtain ⟨-, rfl⟩ := hrun.out_nil hstop
      have hpos := List.length_pos_iff.mpr hne
      rw [show w.count - 1 - (A.length - 1) = w.count - A.length by omega]
      exact hdrop

theorem AckRun.fits (hrun : AckRun num setNum limit can k w A B out w') (h : Core num w)
    (hf : Fits limit w) (hp : w.pending = A ++ B) (hsort : w.pending.Pairwise (· < ·))
    (hA : ∀ a ∈ A, a ≤ k) (hB : ∀ b ∈ B, k < b) : Fits limit w' := by
  have hlen := (h.dropAcked hp hsort hA hB).2
  have hrows := hf.le_rows
  have hlim := hf.le_limit
  have hcount : w.count - A.length ≤ limit := by omega
  cases hrun with
  | untouched => exact ⟨hrows, hlim⟩
  | kept hne heq => exact ⟨Nat.le_trans (Nat.sub_le _ _) hrows, hcount⟩
  | blocked => exact ⟨Nat.sub_le_of_le_add (Nat.le_trans hrows hlen), hcount⟩
  | sent hne hd hcan hrun =>
    have hpos := List.length_pos_iff.mpr hne
    by_cases hout : out = []
    · have hc := hrun.count
      have hl := hrun.length
      rw [hout] at hc
      simp only [List.length_nil, Nat.add_zero] at hc hl
      refine ⟨?_, ?_⟩ <;> simp only <;> omega
    · have hf' := hrun.fits (Or.inl hout)
      exact ⟨Nat.le_trans (Nat.sub_le _ _) hf'.le_rows, Nat.le_trans (Nat.sub_le _ _) hf'.le_limit⟩

theorem AckRun.exact (hset : ∀ m id, num (setNum m id) = id)
    (hrun : AckRun num setNum limit can k w A B out w') (h : Core num w) (he : Exact num limit w)
    (hp : w.pending = A ++ B) (hsort : w.pending.Pairwise (· < ·)) (hA : ∀ a ∈ A, a ≤ k)
    (hB : ∀ b ∈ B, k < b)
    (hal : Window.dropAcked num k w.rows ≠ w.rows → can →
      Aligned num limit (Window.dropAcked num k w.rows) (w.count - 1)) : Exact num limit w' := by
  have hdrop := (h.dropAcked hp hsort hA hB).1
  have hexact := Exact.dropAcked h he hp hsort hA hB
  cases hrun with
  | untouched => exact ⟨he.count_eq, he.le_limit⟩
  | kept hne heq => rwa [heq] at hexact
  | blocked => exact hexact
  | sent hne hd hcan hrun =>
    rcases hal hd hcan with heq | hstop
    · have h1 := h.covered_one hp hsort hA hB hne heq
      rw [h1] at hexact ⊢
      exact (hrun.exact hset hdrop.sentFirst hexact).1
    · obtain ⟨-, rfl⟩ := hrun.out_nil hstop
      have hpos := List.length_pos_iff.mpr hne
      rw [show w.count - 1 - (A.length - 1) = w.count - A.length by omega]
      exact hexact

/-- The row that is in front after dropping is not sent, or its number is not covered. -/
theorem head?_dropAcked {rows : List β} {m : β} (hm : (Window.dropAcked num k rows).head? = some m)
    (hne : num m ≠ 0) : k < num m := by
  have h := List.head?_dropWhile_not (fun m => decide (num m ≠ 0 ∧ num m ≤ k)) rows
  unfold Window.dropAcked at hm
  rw [hm] at h
  simp only [decide_eq_false_iff_not] at h
  exact Nat.lt_of_not_le fun hle => h ⟨hne, hle⟩

theorem dropAcked_idem (k : Nat) (rows : List β) {x : Nat} (hx : x ≤ k) :
    Window.dropAcked num x (Window.dropAcked num k rows) = Window.dropAcked num k rows :=
  dropAcked_eq_self fun _ hm hne => Nat.lt_of_le_of_lt hx (head?_dropAcked hm hne)

theorem dropWhile_congr {p q : β → Bool} {l : List β} (h : ∀ a ∈ l, p a = q a) :
    l.dropWhile p = l.dropWhile q := by
  induction l with
  | nil => rfl
  | cons a l ih =>
    rw [List.dropWhile_cons, List.dropWhile_cons, h a List.mem_cons_self,
      ih (fun b hb => h b (List.mem_cons_of_mem _ hb))]

/-- Between two pending numbers there is no row to drop. -/
theorem Core.dropAcked_congr (h : Core num w) {x : Nat} (hx : x ≤ k)
    (hgap : ∀ y ∈ w.pending, y ≤ k → y ≤ x) : Window.dropAcked num x w.rows = Window.dropAcked num k w.rows := by
  obtain ⟨S, U, hs, hsub⟩ := h.split
  refine dropWhile_congr (fun m hm => ?_)
  by_cases h0 : num m = 0
  · simp [h0]
  · have hmS : m ∈ S := by
      rcases List.mem_append.mp (hs.eq ▸ hm) with hm | hm
      · exact hm
      · exact absurd (hs.unsent m hm) h0
    have hp := hsub.subset (List.mem_map_of_mem (f := num) hmS)
    have hiff : num m ≤ x ↔ num m ≤ k := ⟨fun hle => Nat.le_trans hle hx, hgap _ hp⟩
    simp [hiff]

/-- One round of the acknowledging loop, for the pending number `x`. -/
structure AckRound (num : β → Nat) (setNum : β → Nat → β) (limit : Nat) (can : Prop) (x : Nat)
    (rows : List β) (count : Nat) (out : List (Nat × β)) (rows' : List β) (count' : Nat) : Prop where
  kept : Window.dropAcked num x rows = rows → out = [] ∧ rows' = rows ∧ count' = count - 1
  blocked : Window.dropAcked num x rows ≠ rows → ¬can →
    out = [] ∧ rows' = Window.dropAcked num x rows ∧ count' = count - 1
  sent : Window.dropAcked num x rows ≠ rows → can → ∀ l, SendRun num setNum limit
    ⟨Window.dropAcked num x rows, count - 1, l⟩ out ⟨rows', count', l ++ out.map Prod.fst⟩

theorem AckRun.pending (hrun : AckRun num setNum limit can k w A B out w') :
    w'.pending = B ++ out.map Prod.fst := by
  cases hrun with
  | untouched => simp
  | kept => simp
  | blocked => simp
  | sent _ _ _ hrun => exact hrun.pending

/-- While a covered number is left the counter is positive, so no decrement goes below zero. -/
theorem AckRun.count_pos {w1 : Window β} {x : Nat} {C : List Nat}
    (hrun : AckRun num setNum limit can k w C B out w1) (h : Core num w)
    (hp : w.pending = A ++ x :: C ++ B) : 0 < w1.count := by
  have hcount := h.count_eq
  rw [hp] at hcount
  simp only [List.length_append, List.length_cons] at hcount
  cases hrun with
  | untouched => show 0 < w.count; omega
  | kept => show 0 < w.count - C.length; omega
  | blocked => show 0 < w.count - C.length; omega
  | sent hC hd hcan hrun =>
    have hpos := List.length_pos_iff.mpr hC
    have hc := hrun.count
    simp only at hc ⊢
    omega

/-- The loop goes down the covered numbers. Only its first round finds rows to drop: while more than one number is
    covered the sender does not start at the front of the queue, and the row there was not covered or not sent. -/
theorem AckRun.round {w1 : Window β} {x : Nat} {C : List Nat} {out2 : List (Nat × β)} {rows' : List β}
    {count' : Nat} (hrun : AckRun num setNum limit can k w C B out w1)
    (hround : AckRound num setNum limit can x w1.rows w1.count out2 rows' count')
    (h : Core num w) (hp : w.pending = A ++ x :: C ++ B) (hsort : w.pending.Pairwise (· < ·))
    (hA : ∀ a ∈ A ++ x :: C, a ≤ k) (hB : ∀ b ∈ B, k < b) :
    AckRun num setNum limit can k w (x :: C) B (out ++ out2)
      ⟨rows', count', B ++ (out ++ out2).map Prod.fst⟩ := by
  have hx : x ≤ k := hA x (by simp)
  cases hrun with
  | untouched =>
    -- the first round for this window: dropping up to `x` is dropping up to `k`
    have hsorted : (A ++ x :: [] ++ B).Pairwise (· < ·) := hp ▸ hsort
    have hgap : ∀ y ∈ w.pending, y ≤ k → y ≤ x := by
      intro y hy hyk
      rw [hp] at hy
      simp only [List.mem_append, List.mem_cons, List.not_mem_nil, or_false] at hy
      rcases hy with (hy | hy) | hy
      · have := (List.pairwise_append.mp (List.pairwise_append.mp hsorted).1).2.2 y hy x (by simp)
        omega
      · omega
      · have := hB y hy
        omega
    have hcongr := h.dropAcked_congr hx hgap
    obtain ⟨hkept, hblocked, hsent⟩ := hround
    simp only [hcongr] at hkept hblocked hsent
    by_cases hd : Window.dropAcked num k w.rows = w.rows
    · obtain ⟨rfl, rfl, rfl⟩ := hkept hd
      simpa using @AckRun.kept _ num setNum limit can k w [x] B (by simp) hd
    · by_cases hcan : can
      · simpa using AckRun.sent (A := [x]) (by simp) hd hcan (hsent hd hcan B)
      · obtain ⟨rfl, rfl, rfl⟩ := hblocked hd hcan
        simpa using @AckRun.blocked _ num setNum limit can k w [x] B (by simp) hd hcan
  | kept hC hd =>
    have hsame : Window.dropAcked num x w.rows = w.rows := by
      rw [← hd, dropAcked_idem k w.rows hx]
    obtain ⟨rfl, rfl, rfl⟩ := hround.kept hsame
    simpa [Nat.sub_sub] using
      @AckRun.kept _ num setNum limit can k w (x :: C) B (by simp) hd
  | blocked hC hd hcan =>
    obtain ⟨rfl, rfl, rfl⟩ := hround.kept (dropAcked_idem k w.rows hx)
    simpa [Nat.sub_sub] using
      @AckRun.blocked _ num setNum limit can k w (x :: C) B (by simp) hd hcan
  | @sent w2 _ _ _ hC hd hcan hrun =>
    have hpos := List.length_pos_iff.mpr hC
    -- the sender started behind the front row
    have hcount := h.count_eq
    rw [hp] at hcount
    simp only [List.length_append, List.length_cons] at hcount
    have hfront : w2.rows.head? = (Window.dropAcked num k w.rows).head? := by
      rw [List.head?_eq_getElem?, List.head?_eq_getElem?]
      exact hrun.getElem? (by show 0 < w.count - 1; omega)
    have hsame : Window.dropAcked num x w2.rows = w2.rows :=
      dropAcked_eq_self fun m hm hne => Nat.lt_of_le_of_lt hx (head?_dropAcked (hfront ▸ hm) hne)
    obtain ⟨rfl, rfl, rfl⟩ := hround.kept hsame
    have hdec : w2.count - (C.length - 1) - 1 = w2.count - ((x :: C).length - 1) := by
      simp only [List.length_cons]
      omega
    have hpend : w2.pending = B ++ out.map Prod.fst := hrun.pending
    have h' := AckRun.sent (A := x :: C) (by simp) hd hcan hrun
    rw [hpend, ← hdec] at h'
    simpa using h'

/-- An acknowledgement of one row starts the sender again, and one that leaves no unsent row need not. -/
theorem AckRun.settled (hset : ∀ m id, num (setNum m id) = id) (hcan : can)
    (hrun : AckRun num setNum limit can k w A B out w') (h : Core num w) (he : Exact num limit w)
    (hs : Settled num limit w.rows) (hp : w.pending = A ++ B) (hsort : w.pending.Pairwise (· < ·))
    (hA : ∀ a ∈ A, a ≤ k) (hB : ∀ b ∈ B, k < b)
    (hone : A.length ≤ 1 ∨ sentCount num w.rows = w.rows.length) : Settled num limit w'.rows := by
  have hdrop := h.dropAcked hp hsort hA hB
  have hexact := Exact.dropAcked h he hp hsort hA hB
  cases hrun with
  | untouched => exact hs
  | kept => exact hs
  | blocked _ _ hnot => exact absurd hcan hnot
  | sent hne hd _ hrun =>
    have hpos := List.length_pos_iff.mpr hne
    rcases hone with hone | hall
    · rw [show w.count - A.length = w.count - 1 by omega] at hexact hdrop
      exact (hrun.exact hset hdrop.1.sentFirst hexact).2
    · have hall' : sentCount num (Window.dropAcked num k w.rows) = (Window.dropAcked num k w.rows).length :=
        List.countP_eq_length.mpr (fun m hm =>
          List.countP_eq_length.mp hall m ((List.dropWhile_sublist _).subset hm))
      have hcount := hexact.count_eq
      simp only at hcount
      obtain ⟨-, rfl⟩ := hrun.out_nil (Or.inr (by simp only; omega))
      exact Or.inl hall'

/-- Rows are dropped only when a number is covered. -/
theorem Core.covered_of_dropped (h : Core num w) (hp : w.pending = A ++ B) (hsort : w.pending.Pairwise (· < ·))
    (hA : ∀ a ∈ A, a ≤ k) (hB : ∀ b ∈ B, k < b) (hd : Window.dropAcked num k w.rows ≠ w.rows) : A ≠ [] := by
  rintro rfl
  have hlen : w.rows.length ≤ (Window.dropAcked num k w.rows).length := (h.dropAcked hp hsort hA hB).2
  exact hd ((List.dropWhile_sublist _).eq_of_length_le hlen)

/-- An acknowledgement that covers one number, or finds nothing that waits, leaves an aligned sender. -/
theorem Exact.aligned_dropAcked (h : Core num w) (he : Exact num limit w) (hp : w.pending = A ++ B)
    (hsort : w.pending.Pairwise (· < ·)) (hA : ∀ a ∈ A, a ≤ k) (hB : ∀ b ∈ B, k < b)
    (hone : A.length ≤ 1 ∨ sentCount num w.rows = w.rows.length) (hd : Window.dropAcked num k w.rows ≠ w.rows) :
    Aligned num limit (Window.dropAcked num k w.rows) (w.count - 1) := by
  have hpos := List.length_pos_iff.mpr (h.covered_of_dropped hp hsort hA hB hd)
  have hcount := (Exact.dropAcked h he hp hsort hA hB).count_eq
  simp only at hcount
  rcases hone with hone | hall
  · exact .inl (by omega)
  · have hall' : sentCount num (Window.dropAcked num k w.rows) = (Window.dropAcked num k w.rows).length :=
      List.countP_eq_length.mpr fun m hm =>
        List.countP_eq_length.mp hall m ((List.dropWhile_sublist _).subset hm)
    exact .inr (.inr (by omega))

/-- An acknowledgement that covers several numbers while rows wait lets the sender start behind a row that waits: it
    is left alone, or a later row is sent before it. -/
theorem AckRun.skips (hcan : can) (hset : ∀ m id, num (setNum m id) = id)
    (hrun : AckRun num setNum limit can k w A B out w') (h : Core num w) (he : Exact num limit w)
    (hp : w.pending = A ++ B) (hsort : w.pending.Pairwise (· < ·)) (hA : ∀ a ∈ A, a ≤ k) (hB : ∀ b ∈ B, k < b)
    (htwo : 1 < A.length) (hwait : sentCount num w.rows ≠ w.rows.length) :
    ¬(SentFirst num w'.rows ∧ Settled num limit w'.rows) := by
  obtain ⟨S, U, hs, hS⟩ := h.pending_eq he
  have hs' := hs.dropAcked (k := k) (hS ▸ hsort)
  have hcount := he.count_eq
  have hexact := (Exact.dropAcked h he hp hsort hA hB).count_eq
  have hlimit := he.le_limit
  have hpend := h.count_eq
  rw [hp, List.length_append] at hpend
  simp only [hs'.sentCount] at hexact
  obtain ⟨u, U', rfl⟩ : ∃ u U', U = u :: U' := by
    cases U with
    | nil => exact absurd (by rw [hs.sentCount, hs.eq, List.append_nil]) hwait
    | cons u U' => exact ⟨u, U', rfl⟩
  -- the first row that waits stands at index `m` of the queue that is left
  generalize hm : (S.filter (fun m => decide (k < num m))).length = m at hexact
  have hu : (Window.dropAcked num k w.rows)[m]? = some u := by
    rw [hs'.eq, ← hm, List.getElem?_append_right (Nat.le_refl _), Nat.sub_self]
    rfl
  cases hrun with
  | untouched => exact absurd htwo (by simp)
  | kept _ hd =>
    have hsame := hs'.sentCount
    rw [hd] at hsame
    omega
  | blocked _ _ hnot => exact absurd hcan hnot
  | @sent w2 _ _ _ _ hd _ hrun =>
    rintro ⟨hfirst, hsettled⟩
    simp only at hfirst hsettled
    by_cases hout : out = []
    · -- nothing is sent: the row waits below the limit
      have hrows : w2.rows = Window.dropAcked num k w.rows := by
        cases hrun with
        | stop => rfl
        | send => exact absurd hout (by simp)
      rw [hrows, Settled, hs'.sentCount, hm, hs'.eq] at hsettled
      simp only [List.length_append, List.length_cons, hm] at hsettled
      omega
    · -- a row behind it is sent
      obtain ⟨v, hv, hv0⟩ := hrun.first_sent hset hout
      have hmv : m < w.count - 1 := by omega
      have hu2 : w2.rows[m]? = some u := (hrun.getElem? hmv).trans hu
      obtain ⟨hm2, hgu⟩ := List.getElem?_eq_some_iff.mp hu2
      obtain ⟨hc2, hgv⟩ := List.getElem?_eq_some_iff.mp hv
      have hlt := List.pairwise_iff_getElem.mp hfirst m (w.count - 1) hm2 hc2 hmv
      rw [hgu, hgv] at hlt
      exact hlt hv0 (hs.unsent u List.mem_cons_self)

end Ack

end Window
