import DSLink.Col.Ringbuffer

/-!
# `Col.RingbufferLife` — a ringbuffer from `rb_init` to `rb_free`

`Queue` is what the ringbuffer is for: a queue that keeps the last `size` elements that were pushed, and gives an
element to `cleanup_fn` when it leaves. The ringbuffer simulates it operation by operation, with `rb_count` and `rb_at`
as the source computes them: the count is returned as an `int`, and the sum of two indices is a `uint32_t`.

## Contents
- `rbCountInt`, `rbAtWrapped`, `rbFreeLoop`: what the 32 bits of the source matter for.
- `Queue.step`, and `Queue.conserve`: an element is cleaned up exactly once.
- `ringbuffer_exact`: the sizes for which the ringbuffer is the queue.
-/

namespace DSLink

namespace Ringbuffer

variable {α : Type}

/-! ## The functions of the source -/

/-- A `uint32_t` as an `int`. -/
def toInt32 (n : Nat) : Int := if n < 2147483648 then n else n - 4294967296

/-- `rb_count`. -/
def rbCountInt (rb : Ringbuffer α) : Int := toInt32 rb.count

/-- `rb_at`. -/
def rbAtWrapped (rb : Ringbuffer α) (idx : Nat) : Option α :=
  if rb.count ≤ idx then none
  else if rb.count ≤ rb.current then rb.data (rb.current - rb.count + idx)
  else
    let index := rb.size - (rb.count - rb.current)
    if rb.size ≤ (index + idx) % 4294967296 then rb.data ((index + idx) % 4294967296 - rb.size)
    else rb.data ((index + idx) % 4294967296)

/-- The loop of `rb_free`, with the elements `cleanup_fn` has been called with. -/
def rbFreeLoop : Nat → Ringbuffer α → List α → Option (List α)
  | 0, _, _ => none
  | fuel + 1, rb, cleaned =>
    if rb.rbCountInt = 0 then some cleaned
    else rbFreeLoop fuel rb.rbPop.1 (cleaned ++ rb.rbPop.2.2.toList)

/-! ## Operations -/

/-- What a caller does between `rb_init` and `rb_free`. -/
inductive Op (α : Type)
  | push (x : α)
  | pop

/-- An operation on the ringbuffer: the return value, and the element `cleanup_fn` is called with. -/
def step (rb : Ringbuffer α) : Op α → Ringbuffer α × Int × Option α
  | .push x => rb.rbPush x
  | .pop => rb.rbPop

/-- The same on a queue of `size` elements at most. -/
def Queue.step (size : Nat) (items : List α) : Op α → List α × Int × Option α
  | .push x => if items.length = size then (items.tail ++ [x], 1, items.head?) else (items ++ [x], 0, none)
  | .pop => (items.tail, if items = [] then -1 else 0, items.head?)

/-- A run, with the results of its operations. -/
def runOps {σ : Type} (step : σ → Op α → σ × Int × Option α) : σ → List (Op α) → σ × List (Int × Option α)
  | s, [] => (s, [])
  | s, op :: ops =>
    let done := step s op
    let rest := runOps step done.1 ops
    (rest.1, done.2 :: rest.2)

/-- The elements that are pushed. -/
def pushed (ops : List (Op α)) : List α := ops.filterMap fun
  | .push x => some x
  | .pop => none

/-- The elements `cleanup_fn` is called with. -/
def cleaned (results : List (Int × Option α)) : List α := results.filterMap Prod.snd

/-! ## The queue -/

/-- An element that leaves is cleaned up, in the order in which the elements came. -/
theorem Queue.step_conserve (size : Nat) (items : List α) (op : Op α) (hsize : 0 < size) :
    (Queue.step size items op).2.2.toList ++ (Queue.step size items op).1 = items ++ pushed [op] := by
  cases op with
  | push x =>
    dsimp only [Queue.step]
    by_cases hfull : items.length = size
    · rw [if_pos hfull]
      cases items with
      | nil => exact absurd hfull (Nat.ne_of_lt hsize)
      | cons y items => rfl
    · rw [if_neg hfull]
      rfl
  | pop =>
    cases items with
    | nil => rfl
    | cons y items => exact (List.append_nil _).symm

/-- Over a run every element that was pushed is cleaned up or still there. -/
theorem Queue.conserve (size : Nat) (hsize : 0 < size) (ops : List (Op α)) (items : List α) :
    cleaned (runOps (Queue.step size) items ops).2 ++ (runOps (Queue.step size) items ops).1 = items ++ pushed ops := by
  induction ops generalizing items with
  | nil => exact (List.append_nil _).symm
  | cons op ops ih =>
    have hstep := Queue.step_conserve size items op hsize
    have hpushed : pushed (op :: ops) = pushed [op] ++ pushed ops := List.filterMap_append (l := [op])
    have hcleaned : cleaned (runOps (Queue.step size) items (op :: ops)).2 =
        (Queue.step size items op).2.2.toList ++
          cleaned (runOps (Queue.step size) (Queue.step size items op).1 ops).2 := by
      show List.filterMap Prod.snd (_ :: _) = _
      rw [List.filterMap_cons]
      cases (Queue.step size items op).2.2 <;> rfl
    rw [hcleaned, hpushed, List.append_assoc]
    show _ ++ (_ ++ (runOps (Queue.step size) (Queue.step size items op).1 ops).1) = _
    rw [ih, ← List.append_assoc, hstep, List.append_assoc]

/-- A queue takes as many elements as it has room for. -/
theorem Queue.length_pushes (size : Nat) (x : α) (n : Nat) (items : List α) (h : items.length + n ≤ size) :
    (runOps (Queue.step size) items (List.replicate n (.push x))).1.length = items.length + n := by
  induction n generalizing items with
  | zero => rfl
  | succ n ih =>
    have hroom : ¬items.length = size := by omega
    have hstep : Queue.step size items (.push x) = (items ++ [x], 0, none) := if_neg hroom
    show (runOps (Queue.step size) (Queue.step size items (.push x)).1 (List.replicate n (.push x))).1.length = _
    rw [hstep, ih _ (by rw [List.length_append, List.length_singleton]; omega), List.length_append,
      List.length_singleton]
    omega

/-! ## The simulation -/

variable {rb : Ringbuffer α}

@[simp] theorem size_step (op : Op α) : (rb.step op).1.size = rb.size := by
  cases op with
  | push x => exact size_rbPush rb x
  | pop => exact size_rbPop rb

/-- One operation. -/
theorem step_simulates (rb : Ringbuffer α) (op : Op α) :
    (rb.step op).1.toList = (Queue.step rb.size rb.toList op).1 ∧
      (rb.step op).2 = (Queue.step rb.size rb.toList op).2 := by
  cases op with
  | push x =>
    have hlist : (rb.rbPush x).1.toList = _ := toList_rbPush rb x
    have hhead : rb.count = rb.size → rb.data rb.current = rb.toList.head? := by
      intro hfull
      have hpos : 0 < rb.count := by
        rw [hfull]
        exact rb.size_pos
      have holdest := data_eq_toList hpos
      rwa [hfull, slotOf_full_oldest rb.current_lt, ← List.head?_eq_getElem?] at holdest
    unfold step Queue.step
    rw [hlist]
    by_cases hfull : rb.count = rb.size
    · have hlen : rb.toList.length = rb.size := by rw [length_toList, hfull]
      simp only [if_pos hlen, rbPush, dif_pos hfull, hhead hfull, and_self]
    · have hlen : ¬rb.toList.length = rb.size := by rwa [length_toList]
      simp only [if_neg hlen, rbPush, dif_neg hfull, and_self]
  | pop =>
    refine ⟨toList_rbPop rb, ?_⟩
    show rb.rbPop.2 = (if rb.toList = [] then (-1 : Int) else 0, rb.toList.head?)
    unfold rbPop
    split
    · rename_i hcount
      have hne : ¬rb.toList = [] := by
        intro hnil
        have hlen := length_toList rb
        rw [hnil] at hlen
        exact Nat.ne_of_lt hcount hlen
      rw [if_neg hne, data_eq_toList hcount, List.head?_eq_getElem?]
    · rename_i hcount
      have hnil : rb.toList = [] := List.length_eq_zero_iff.mp (by rw [length_toList]; omega)
      rw [if_pos hnil, hnil]
      rfl

theorem run_simulates (ops : List (Op α)) (rb : Ringbuffer α) :
    (runOps step rb ops).1.toList = (runOps (Queue.step rb.size) rb.toList ops).1 ∧
      (runOps step rb ops).2 = (runOps (Queue.step rb.size) rb.toList ops).2 ∧
      (runOps step rb ops).1.size = rb.size := by
  induction ops generalizing rb with
  | nil => exact ⟨rfl, rfl, rfl⟩
  | cons op ops ih =>
    obtain ⟨hlist, hresult⟩ := step_simulates rb op
    obtain ⟨h1, h2, h3⟩ := ih (rb.step op).1
    rw [size_step, hlist] at h1 h2
    rw [size_step] at h3
    refine ⟨h1, ?_, h3⟩
    show (rb.step op).2 :: _ = (Queue.step rb.size rb.toList op).2 :: _
    rw [hresult, h2]

/-! ## What a caller sees -/

theorem toInt32_of_lt {n : Nat} (h : n < 2147483648) : toInt32 n = n := if_pos h

theorem toInt32_eq_zero {n : Nat} (h : n < 4294967296) : toInt32 n = 0 ↔ n = 0 := by
  unfold toInt32
  split <;> omega

theorem toInt32_neg {n : Nat} (h : 2147483648 ≤ n) (hn : n < 4294967296) : toInt32 n < 0 := by
  unfold toInt32
  split <;> omega

/-- Indices that add up in 32 bits. -/
theorem rbAtWrapped_eq (h : rb.size ≤ 2147483648) (idx : Nat) : rb.rbAtWrapped idx = rb.toList[idx]? := by
  rw [← rbAt_eq]
  have hcur := rb.current_lt
  have hle := rb.count_le
  unfold rbAtWrapped rbAt
  by_cases hout : rb.count ≤ idx
  · rw [if_pos hout, if_pos hout]
  · rw [if_neg hout, if_neg hout]
    unfold slotOf
    by_cases hbehind : rb.count ≤ rb.current
    · rw [if_pos hbehind, if_pos hbehind]
    · rw [if_neg hbehind, if_neg hbehind]
      have hsum : (rb.size - (rb.count - rb.current) + idx) % 4294967296 = rb.size - (rb.count - rb.current) + idx :=
        Nat.mod_eq_of_lt (by omega)
      dsimp only
      rw [hsum]
      split_ifs <;> rfl

/-- `rb_free` gives all elements that are left to `cleanup_fn`, the oldest one first. -/
theorem rbFreeLoop_eq (fuel : Nat) (rb : Ringbuffer α) (left : List α) (hfuel : rb.count < fuel)
    (hsize : rb.size < 4294967296) : rbFreeLoop fuel rb left = some (left ++ rb.toList) := by
  induction fuel generalizing rb left with
  | zero => exact absurd hfuel (Nat.not_lt_zero _)
  | succ fuel ih =>
    have hle := rb.count_le
    unfold rbFreeLoop rbCountInt
    by_cases hcount : rb.count = 0
    · have hnil : rb.toList = [] := List.length_eq_zero_iff.mp (by rw [length_toList, hcount])
      rw [if_pos ((toInt32_eq_zero (by omega)).mpr hcount), hnil, List.append_nil]
    · have hlist : rb.rbPop.1.toList = rb.toList.tail := toList_rbPop rb
      have hleft : rb.rbPop.2.2 = rb.toList.head? := by
        have hpop := (step_simulates rb .pop).2
        exact congrArg Prod.snd hpop
      have hcount' : rb.rbPop.1.count = rb.count - 1 := by
        rw [← length_toList, hlist, List.length_tail, length_toList]
      rw [if_neg (fun hzero => hcount ((toInt32_eq_zero (by omega)).mp hzero)),
        ih rb.rbPop.1 _ (by omega) (by rwa [size_rbPop]), hlist, hleft, List.append_assoc]
      cases rb.toList <;> rfl

/-- After the operations the ringbuffer is the queue, each of them has done what it does to the queue, and when it is
    freed every element that was pushed has been cleaned up once. -/
def Agrees (size : Nat) (ops : List (Op α)) : Prop :=
  ∃ rb, rbInit size = some rb ∧
    (runOps step rb ops).2 = (runOps (Queue.step size) [] ops).2 ∧
    (runOps step rb ops).1.rbCountInt = (runOps (Queue.step size) [] ops).1.length ∧
    (runOps step rb ops).1.rbFront = (runOps (Queue.step size) [] ops).1.head? ∧
    (∀ idx, (runOps step rb ops).1.rbAtWrapped idx = (runOps (Queue.step size) [] ops).1[idx]?) ∧
    ∃ freed fuel₀, (∀ fuel ≥ fuel₀, rbFreeLoop fuel (runOps step rb ops).1 [] = some freed) ∧
      cleaned (runOps step rb ops).2 ++ freed = pushed ops

/-- Below 2^31 the count is not negative and no sum of indices wraps. -/
theorem agrees_of_small {size : Nat} (hpos : 0 < size) (hsmall : size < 2147483648) (ops : List (Op α)) :
    Agrees size ops := by
  obtain ⟨rb, hinit, hsize, hnil⟩ := rbInit_of_pos (α := α) hpos
  obtain ⟨hlist, hresult, hsize'⟩ := run_simulates ops rb
  rw [hsize, hnil] at hlist hresult
  rw [hsize] at hsize'
  have hcount : (runOps step rb ops).1.count = (runOps (Queue.step size) [] ops).1.length := by
    rw [← length_toList, hlist]
  have hle := (runOps step rb ops).1.count_le
  refine ⟨rb, hinit, hresult, ?_, ?_, fun idx => ?_, ?_⟩
  · rw [rbCountInt, toInt32_of_lt (by omega), hcount]
  · rw [rbFront_eq, hlist]
  · rw [rbAtWrapped_eq (by omega), hlist]
  · refine ⟨(runOps (Queue.step size) [] ops).1, (runOps step rb ops).1.count + 1, fun fuel hfuel => ?_, ?_⟩
    · rw [rbFreeLoop_eq fuel _ [] (by omega) (by omega), hlist]
      rfl
    · rw [hresult, Queue.conserve size hpos]
      rfl

/-- A full buffer of 2^31 elements or more has a negative count. -/
theorem not_agrees_full {size : Nat} (x : α) (hlarge : 2147483648 ≤ size) (hsize : size < 4294967296) :
    ¬ Agrees size (List.replicate size (Op.push x)) := by
  rintro ⟨rb, hinit, -, hcount, -⟩
  obtain ⟨hsz, hnil⟩ := size_rbInit hinit
  obtain ⟨hlist, -, -⟩ := run_simulates (List.replicate size (Op.push x)) rb
  rw [hsz, hnil] at hlist
  have hlen : (runOps (Queue.step size) [] (List.replicate size (Op.push x))).1.length = size := by
    rw [Queue.length_pushes size x size [] (by simp)]
    simp
  have hfull : (runOps step rb (List.replicate size (Op.push x))).1.count = size := by
    rw [← length_toList, hlist, hlen]
  rw [rbCountInt, hfull, hlen] at hcount
  have hneg := toInt32_neg hlarge hsize
  omega

/-- For the sizes below 2^31 every run from `rb_init` to `rb_free` is that of the queue, and for no other. -/
theorem ringbuffer_exact (size : Nat) (hpos : 0 < size) (hsize : size < 4294967296) :
    (∀ (α : Type) (ops : List (Op α)), Agrees size ops) ↔ size < 2147483648 := by
  constructor
  · intro hall
    by_contra hlarge
    exact not_agrees_full () (Nat.le_of_not_lt hlarge) hsize (hall Unit _)
  · intro hsmall α ops
    exact agrees_of_small hpos hsmall ops

theorem ringbuffer_exact_three : Agrees 3 [Op.push 1, Op.push 2, Op.pop, Op.push 3, Op.push 4, Op.push 5] :=
  (ringbuffer_exact 3 (by decide) (by decide)).mpr (by decide) Nat _

/-- 2^31 pushes into a buffer of that size. -/
theorem half_full_negative : ¬ Agrees 2147483648 (List.replicate 2147483648 (Op.push ())) :=
  not_agrees_full () (Nat.le_refl _) (by decide)

end Ringbuffer

end DSLink
