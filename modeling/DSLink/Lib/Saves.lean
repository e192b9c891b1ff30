import Mathlib.Data.List.Basic
import Mathlib.Logic.Function.Basic
import DSLink.Lib.Run

/-!
# `Lib.Saves` — overlapping saves of whole files

A save opens its file with truncation and writes its text at offset 0 later on; saves are opened in the order they
are asked for and written in the order they are opened. Between the two other saves of the file may be opened and the
file may be unlinked. `Saves.settled` says what is left when nothing is under way.

## Contents
- `Disk`: names, inodes and their contents. `overlay`: a write at offset 0.
- `Saves.step`: ask for a save, open, write, unlink.
- `Saves.Inv`, `Saves.settled`.
-/

/-- Files as the file system sees them: a name leads to an inode, an open file is its inode. -/
structure Disk (ν β : Type) where
  files : ν → Option Nat
  contents : Nat → List β
  nextInode : Nat

variable {ν β : Type} [DecidableEq ν]

/-- A write at offset 0: what was longer stays behind it. -/
def overlay (content text : List β) : List β := text ++ content.drop text.length

namespace Disk

/-- The text of a file. -/
def read (d : Disk ν β) (f : ν) : Option (List β) := (d.files f).map d.contents

/-- Open with creation and truncation. -/
def openTrunc (d : Disk ν β) (f : ν) : Nat × Disk ν β :=
  match d.files f with
  | some i => (i, { d with contents := Function.update d.contents i [] })
  | none => (d.nextInode, {
      files := Function.update d.files f (some d.nextInode)
      contents := Function.update d.contents d.nextInode []
      nextInode := d.nextInode + 1 })

/-- A write to an open file. -/
def write (d : Disk ν β) (i : Nat) (text : List β) : Disk ν β :=
  { d with contents := Function.update d.contents i (overlay (d.contents i) text) }

/-- The name is gone; an open file stays what it is. -/
def unlink (d : Disk ν β) (f : ν) : Disk ν β := { d with files := Function.update d.files f none }

end Disk

/-- `opens` are the saves that are not opened yet and `writes` the open ones, oldest first. `want` is what was asked
    for last. `longer f`: a save with a longer text had `f` open when it was opened last. `early f`: a save of `f` was
    not opened yet when `f` was unlinked last. -/
structure Saves (ν β : Type) where
  disk : Disk ν β
  opens : List (ν × List β)
  writes : List (Nat × List β)
  want : ν → Option (List β)
  longer : ν → Bool
  early : ν → Bool

inductive SaveOp (ν β : Type)
  | save (f : ν) (text : List β)
  | openNext
  | writeNext
  | unlink (f : ν)

namespace Saves

/-- A save of more than `n` bytes has the inode open. -/
def longerOpen (writes : List (Nat × List β)) (i n : Nat) : Bool := writes.any (fun w => w.1 = i && n < w.2.length)

/-- A save of the file is still to be opened. -/
def unopened (opens : List (ν × List β)) (f : ν) : Bool := opens.any (fun o => o.1 = f)

def save (s : Saves ν β) (f : ν) (text : List β) : Saves ν β :=
  { s with opens := s.opens ++ [(f, text)], want := Function.update s.want f (some text) }

def openNext (s : Saves ν β) : Option (Saves ν β) :=
  match s.opens with
  | [] => none
  | (f, text) :: opens =>
    let opened := s.disk.openTrunc f
    some { s with
      disk := opened.2, opens := opens, writes := s.writes ++ [(opened.1, text)]
      longer := Function.update s.longer f (longerOpen s.writes opened.1 text.length) }

def writeNext (s : Saves ν β) : Option (Saves ν β) :=
  match s.writes with
  | [] => none
  | (i, text) :: writes => some { s with disk := s.disk.write i text, writes := writes }

def unlink (s : Saves ν β) (f : ν) : Saves ν β :=
  { s with
    disk := s.disk.unlink f, want := Function.update s.want f none
    early := Function.update s.early f (unopened s.opens f) }

def step (s : Saves ν β) : SaveOp ν β → Option (Saves ν β)
  | .save f text => some (s.save f text)
  | .openNext => s.openNext
  | .writeNext => s.writeNext
  | .unlink f => some (s.unlink f)

/-- Nothing is under way. -/
def Settled (s : Saves ν β) : Prop := s.opens = [] ∧ s.writes = []

/-- No save got in the way of the last one, or of the last unlink. -/
def Clean (s : Saves ν β) (f : ν) : Prop := if (s.want f).isSome then s.longer f = false else s.early f = false

/-! ## What an inode will be -/

/-- The texts that are still to be written to an inode. -/
def toWrite (writes : List (Nat × List β)) (i : Nat) : List (List β) :=
  (writes.filter (fun w => w.1 = i)).map Prod.snd

/-- The content of an inode behind all writes to it. -/
def finalContent (s : Saves ν β) (i : Nat) : List β := (toWrite s.writes i).foldl overlay (s.disk.contents i)

/-- The texts of the saves of a file that are still to be opened. -/
def toOpen (opens : List (ν × List β)) (f : ν) : List (List β) := (opens.filter (fun o => o.1 = f)).map Prod.snd

theorem prefix_overlay (content text : List β) : text <+: overlay content text := List.prefix_append _ _

theorem lt_length_overlay {n : Nat} {content text : List β} :
    n < (overlay content text).length ↔ n < content.length ∨ n < text.length := by
  rw [overlay, List.length_append, List.length_drop]
  omega

theorem lt_length_foldl_overlay {n : Nat} (texts : List (List β)) (content : List β) :
    n < (texts.foldl overlay content).length ↔ n < content.length ∨ ∃ t ∈ texts, n < t.length := by
  induction texts generalizing content with
  | nil => simp
  | cons t texts ih =>
    rw [List.foldl_cons, ih, lt_length_overlay, or_assoc]
    simp

theorem toWrite_append (writes : List (Nat × List β)) (i j : Nat) (text : List β) :
    toWrite (writes ++ [(i, text)]) j = if i = j then toWrite writes j ++ [text] else toWrite writes j := by
  unfold toWrite
  by_cases h : i = j <;> simp [h]

theorem toWrite_cons (writes : List (Nat × List β)) (i j : Nat) (text : List β) :
    toWrite ((i, text) :: writes) j = if i = j then text :: toWrite writes j else toWrite writes j := by
  unfold toWrite
  by_cases h : i = j <;> simp [h]

theorem toOpen_append (opens : List (ν × List β)) (f g : ν) (text : List β) :
    toOpen (opens ++ [(f, text)]) g = if f = g then toOpen opens g ++ [text] else toOpen opens g := by
  unfold toOpen
  by_cases h : f = g <;> simp [h]

theorem toOpen_cons (opens : List (ν × List β)) (f g : ν) (text : List β) :
    toOpen ((f, text) :: opens) g = if f = g then text :: toOpen opens g else toOpen opens g := by
  unfold toOpen
  by_cases h : f = g <;> simp [h]

theorem unopened_iff {opens : List (ν × List β)} {f : ν} : unopened opens f = true ↔ toOpen opens f ≠ [] := by
  simp [unopened, toOpen, List.filter_eq_nil_iff]

theorem longerOpen_iff {writes : List (Nat × List β)} {i n : Nat} :
    longerOpen writes i n = true ↔ ∃ t ∈ toWrite writes i, n < t.length := by
  simp [longerOpen, toWrite]

end Saves

/-! ## Opening a file -/

namespace Disk

variable {d : Disk ν β} {f : ν}

theorem openTrunc_inode : d.files f = some (d.openTrunc f).1 ∨ d.files f = none ∧ (d.openTrunc f).1 = d.nextInode := by
  unfold openTrunc
  cases hf : d.files f with
  | some i => exact .inl rfl
  | none => exact .inr ⟨rfl, rfl⟩

theorem openTrunc_files (g : ν) :
    (d.openTrunc f).2.files g = if g = f then some (d.openTrunc f).1 else d.files g := by
  unfold openTrunc
  cases hf : d.files f with
  | some i =>
    show d.files g = _
    split
    · rename_i hg
      rw [hg, hf]
    · rfl
  | none => exact Function.update_apply _ _ _ _

theorem openTrunc_contents (j : Nat) :
    (d.openTrunc f).2.contents j = if j = (d.openTrunc f).1 then [] else d.contents j := by
  unfold openTrunc
  cases hf : d.files f <;> exact Function.update_apply _ _ _ _

theorem openTrunc_next : d.nextInode ≤ (d.openTrunc f).2.nextInode ∧
    (d.files f = none → (d.openTrunc f).1 < (d.openTrunc f).2.nextInode) := by
  unfold openTrunc
  cases hf : d.files f with
  | some i => exact ⟨Nat.le_refl _, fun h => by cases h⟩
  | none => exact ⟨Nat.le_succ _, fun _ => Nat.lt_succ_self _⟩

theorem unlink_files (d : Disk ν β) (f g : ν) : (d.unlink f).files g = if g = f then none else d.files g :=
  Function.update_apply _ _ _ _

end Disk

/-! ## The invariant -/

namespace Saves

variable {s s' : Saves ν β}

/-- What holds of the saves of a file in every state. -/
structure Inv (s : Saves ν β) : Prop where
  below : ∀ f i, s.disk.files f = some i → i < s.disk.nextInode
  writesBelow : ∀ w ∈ s.writes, w.1 < s.disk.nextInode
  apart : ∀ f g i, s.disk.files f = some i → s.disk.files g = some i → f = g
  wanted : ∀ f t, s.want f = some t → (toOpen s.opens f).getLast? = some t ∨
    (toOpen s.opens f = [] ∧ ∃ i, s.disk.files f = some i ∧ t <+: s.finalContent i ∧
      (s.longer f = true ↔ t.length < (s.finalContent i).length))
  gone : ∀ f, s.want f = none → (s.early f = true ↔ unopened s.opens f = true ∨ (s.disk.files f).isSome)

theorem Inv.save (h : s.Inv) (f : ν) (text : List β) : (s.save f text).Inv where
  below := h.below
  writesBelow := h.writesBelow
  apart := h.apart
  wanted := by
    intro g t hg
    show (toOpen (s.opens ++ [(f, text)]) g).getLast? = some t ∨ toOpen (s.opens ++ [(f, text)]) g = [] ∧ _
    rw [toOpen_append]
    by_cases hfg : f = g
    · subst hfg
      have hlast : some text = some t := by simpa [Saves.save] using hg
      simp [hlast]
    · have hg' : s.want g = some t := by simpa [Saves.save, Ne.symm hfg] using hg
      rw [if_neg hfg]
      exact h.wanted g t hg'
  gone := by
    intro g hg
    have hfg : g ≠ f := by
      rintro rfl
      simp [Saves.save] at hg
    have hg' : s.want g = none := by simpa [Saves.save, hfg] using hg
    have hopens : unopened (s.opens ++ [(f, text)]) g = unopened s.opens g := by
      rw [Bool.eq_iff_iff, unopened_iff, unopened_iff, toOpen_append, if_neg (Ne.symm hfg)]
    show s.early g = true ↔ unopened (s.opens ++ [(f, text)]) g = true ∨ (s.disk.files g).isSome
    rw [hopens]
    exact h.gone g hg'

theorem Inv.unlink (h : s.Inv) (f : ν) : (s.unlink f).Inv where
  below := by
    intro g i hg
    replace hg : (s.disk.unlink f).files g = some i := hg
    rw [Disk.unlink_files] at hg
    split at hg
    · cases hg
    · exact h.below g i hg
  writesBelow := h.writesBelow
  apart := by
    intro g g' i hg hg'
    replace hg : (s.disk.unlink f).files g = some i := hg
    replace hg' : (s.disk.unlink f).files g' = some i := hg'
    rw [Disk.unlink_files] at hg hg'
    split at hg
    · cases hg
    · split at hg'
      · cases hg'
      · exact h.apart g g' i hg hg'
  wanted := by
    intro g t hg
    have hfg : g ≠ f := by
      rintro rfl
      simp [Saves.unlink] at hg
    have hg' : s.want g = some t := by simpa [Saves.unlink, hfg] using hg
    refine (h.wanted g t hg').imp_right fun ⟨hopen, i, hi, hrest⟩ => ⟨hopen, i, ?_, hrest⟩
    show (s.disk.unlink f).files g = some i
    rw [Disk.unlink_files, if_neg hfg]
    exact hi
  gone := by
    intro g hg
    by_cases hfg : g = f
    · subst hfg
      simp [Saves.unlink, Disk.unlink]
    · have hg' : s.want g = none := by simpa [Saves.unlink, hfg] using hg
      simpa [Saves.unlink, Disk.unlink, hfg] using h.gone g hg'

theorem Inv.writeNext (h : s.Inv) (hs : s.writeNext = some s') : s'.Inv := by
  unfold Saves.writeNext at hs
  split at hs
  · cases hs
  · rename_i i text writes hwrites
    cases hs
    -- the write is the next one of its inode, so every inode will be what it was to be
    have hfinal : ∀ j, finalContent { s with disk := s.disk.write i text, writes := writes } j = s.finalContent j := by
      intro j
      unfold finalContent
      rw [hwrites, toWrite_cons]
      by_cases hij : i = j
      · simp [hij, Disk.write]
      · simp [hij, Ne.symm hij, Disk.write]
    refine ⟨h.below, fun w hw => h.writesBelow w (by rw [hwrites]; exact List.mem_cons_of_mem _ hw), h.apart, ?_, h.gone⟩
    intro f t hf
    simp only [hfinal]
    exact h.wanted f t hf

theorem Inv.openNext (h : s.Inv) (hs : s.openNext = some s') : s'.Inv := by
  unfold Saves.openNext at hs
  split at hs
  · cases hs
  · rename_i f text opens hopens
    cases hs
    set i := (s.disk.openTrunc f).1 with hi
    have hinode : s.disk.files f = some i ∨ s.disk.files f = none ∧ i = s.disk.nextInode := Disk.openTrunc_inode
    have hnext := Disk.openTrunc_next (d := s.disk) (f := f)
    have hilt : i < (s.disk.openTrunc f).2.nextInode := by
      rcases hinode with hf | ⟨hf, -⟩
      · exact Nat.lt_of_lt_of_le (h.below f i hf) hnext.1
      · exact hnext.2 hf
    -- no other name leads to the inode
    have hother : ∀ g, g ≠ f → s.disk.files g ≠ some i := by
      intro g hg hgi
      rcases hinode with hf | ⟨-, hnew⟩
      · exact hg (h.apart g f i hgi hf)
      · have := h.below g i hgi
        omega
    have hfiles : ∀ g j, (s.disk.openTrunc f).2.files g = some j → g = f ∧ j = i ∨ g ≠ f ∧ s.disk.files g = some j := by
      intro g j hg
      rw [Disk.openTrunc_files] at hg
      split at hg
      · exact .inl ⟨‹_›, (Option.some.inj hg).symm⟩
      · exact .inr ⟨‹_›, hg⟩
    refine ⟨?_, ?_, ?_, ?_, ?_⟩
    · intro g j hg
      rcases hfiles g j hg with ⟨-, rfl⟩ | ⟨-, hg⟩
      · exact hilt
      · exact Nat.lt_of_lt_of_le (h.below g j hg) hnext.1
    · intro w hw
      rcases List.mem_append.mp hw with hw | hw
      · exact Nat.lt_of_lt_of_le (h.writesBelow w hw) hnext.1
      · rw [List.mem_singleton.mp hw]
        exact hilt
    · intro g g' j hg hg'
      rcases hfiles g j hg with ⟨hgf, hj⟩ | ⟨hne, hg⟩ <;> rcases hfiles g' j hg' with ⟨hgf', hj'⟩ | ⟨hne', hg'⟩
      · rw [hgf, hgf']
      · exact absurd (hj ▸ hg') (hother g' hne')
      · exact absurd (hj' ▸ hg) (hother g hne)
      · exact h.apart g g' j hg hg'
    · intro g t hg
      have hwant := h.wanted g t hg
      rw [hopens, toOpen_cons] at hwant
      by_cases hgf : f = g
      · subst hgf
        rw [if_pos rfl] at hwant
        rcases hwant with hlast | ⟨hnil, -⟩
        · rw [List.getLast?_cons] at hlast
          cases hrest : (toOpen opens f).getLast? with
          | some t' =>
            rw [hrest] at hlast
            exact .inl hlast
          | none =>
            -- the save is the last one, so its text is written last
            rw [hrest] at hlast
            cases hlast
            have hcontent : (s.disk.openTrunc f).2.contents i = [] := by rw [Disk.openTrunc_contents, if_pos rfl]
            refine .inr ⟨List.getLast?_eq_none_iff.mp hrest, i, by rw [Disk.openTrunc_files, if_pos rfl], ?_, ?_⟩
            · rw [finalContent, toWrite_append, if_pos rfl, List.foldl_append]
              exact prefix_overlay _ _
            · simp only [finalContent, toWrite_append, if_true, hcontent, lt_length_foldl_overlay,
                Function.update_self, longerOpen_iff]
              simp
        · cases hnil
      · rw [if_neg hgf] at hwant
        refine hwant.imp_right fun ⟨hnil, j, hj, hrest⟩ => ⟨hnil, j, ?_, ?_⟩
        · rw [Disk.openTrunc_files, if_neg (Ne.symm hgf)]
          exact hj
        · have hij : i ≠ j := by
            rintro rfl
            exact hother g (Ne.symm hgf) hj
          have hcontent : (s.disk.openTrunc f).2.contents j = s.disk.contents j :=
            (Disk.openTrunc_contents j).trans (if_neg (Ne.symm hij))
          simp only [finalContent, toWrite_append, if_neg hij, hcontent, Function.update_of_ne (Ne.symm hgf)]
          exact hrest
    · intro g hg
      have hgone := h.gone g hg
      rw [hopens, unopened_iff, toOpen_cons] at hgone
      rw [Disk.openTrunc_files]
      by_cases hgf : f = g
      · subst hgf
        simp [hgone]
      · rw [if_neg hgf, ← unopened_iff] at hgone
        rw [if_neg (Ne.symm hgf)]
        exact hgone

/-- One step of the saves. -/
theorem Inv.step (h : s.Inv) {e : SaveOp ν β} (hs : s.step e = some s') : s'.Inv := by
  cases e with
  | save f text =>
    cases hs
    exact h.save f text
  | openNext => exact h.openNext hs
  | writeNext => exact h.writeNext hs
  | unlink f =>
    cases hs
    exact h.unlink f

/-- With nothing under way a file is what was wanted last exactly when no save got in the way. -/
theorem Inv.settled (h : s.Inv) (hs : s.Settled) (f : ν) : s.disk.read f = s.want f ↔ s.Clean f := by
  obtain ⟨hopens, hwrites⟩ := hs
  unfold Clean
  cases hw : s.want f with
  | none =>
    have hgone := h.gone f hw
    rw [hopens] at hgone
    rw [Disk.read, Option.map_eq_none_iff]
    have hearly : s.early f = false ↔ s.disk.files f = none := by
      rw [← Bool.not_eq_true, hgone]
      simp [unopened]
    simp [hearly]
  | some t =>
    rcases h.wanted f t hw with hlast | ⟨-, i, hi, hpre, hlonger⟩
    · rw [hopens] at hlast
      cases hlast
    · have hcontent : s.finalContent i = s.disk.contents i := by
        rw [finalContent, hwrites]
        rfl
      rw [hcontent] at hpre hlonger
      have heq : s.disk.contents i = t ↔ ¬ t.length < (s.disk.contents i).length := by
        constructor
        · intro h
          rw [h]
          exact Nat.lt_irrefl _
        · intro h
          exact (hpre.eq_of_length_le (Nat.not_lt.mp h)).symm
      rw [Disk.read, hi, Option.map_some, Option.some.injEq, heq, ← hlonger]
      simp

end Saves
