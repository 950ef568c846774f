import Iceoryx.Data.NextChain

/-!
# Doubly linked cycles threaded through two index arrays

A doubly linked list with a sentinel keeps, for every index, a `next` and a `prev` link.
Following `next` from the sentinel `s` visits the members in order and comes back to `s`, and
following `prev` from `s` visits them backwards: `LinkCycle next prev s l`. Both directions are
chains of `NextChain` through the list with the sentinel in front, which is how the lemmas here
are proved: by reading `NextChain.insertAfter` and `NextChain.splice` forwards and backwards.

A list of the members written as `A ++ B` stands for a position between `A` and `B`; the node
there is `B.headD s`, the first member of `B` or the sentinel when `B` is empty, and its
predecessor is `A.getLastD s` (`LinkCycle.prev_headD`, `LinkCycle.next_getLastD`). The two
updates a list of nodes makes are

* `LinkCycle.insertBefore`: a node `n` off the cycle, with `prev[n] = prev[it]`, `next[n] = it`,
  `next[prev[it]] = n` and `prev[it] = n` for the node `it = B.headD s`, joins it between `A`
  and `B`;
* `LinkCycle.erase`: `prev[next[x]] = prev[x]` and `next[prev[x]] = next[x]` unlink a member `x`;

and writes to nodes off the cycle leave it alone (`LinkCycle.update_next`,
`LinkCycle.update_prev`). The node at position `k` is `(l.drop k).headD s`, which is how an
iterator that has stepped `k` times from the first member is named (`LinkCycle.next_getElem`,
`LinkCycle.idxOf_headD`).
-/

/-- Following `next` from the sentinel `s` visits `l` and comes back to `s`; following `prev`
visits `l` backwards and comes back to `s`. -/
structure LinkCycle (next prev : ℕ → ℕ) (s : ℕ) (l : List ℕ) : Prop where
  forward : NextChain next s (s :: l) s
  backward : NextChain prev s (s :: l.reverse) s

namespace LinkCycle

variable {next prev : ℕ → ℕ} {s : ℕ}

/-! ### Lists with the sentinel in front -/

/-- The list with the sentinel in front, split at the last member of `s :: A`. -/
theorem cons_append_split (s : ℕ) (A C : List ℕ) :
    s :: (A ++ C) = (s :: A).dropLast ++ A.getLastD s :: C := by
  calc s :: (A ++ C) = (s :: A) ++ C := rfl
    _ = ((s :: A).dropLast ++ [(s :: A).getLast (List.cons_ne_nil s A)]) ++ C := by
      rw [List.dropLast_append_getLast]
    _ = (s :: A).dropLast ++ A.getLastD s :: C := by
      rw [List.append_assoc, List.singleton_append, List.getLast_eq_getLastD]

theorem getLastD_reverse (s : ℕ) (B : List ℕ) : B.reverse.getLastD s = B.headD s := by
  cases B with
  | nil => rfl
  | cons b B => rw [List.reverse_cons, List.getLastD_concat, List.headD_cons]

theorem headD_reverse (s : ℕ) (A : List ℕ) : A.reverse.headD s = A.getLastD s := by
  rw [← getLastD_reverse, List.reverse_reverse]

/-- The backward list, split at the node of the position between `A` and `B`. -/
theorem backward_split (s : ℕ) (B C : List ℕ) :
    s :: (B.reverse ++ C) = (s :: B.reverse).dropLast ++ B.headD s :: C := by
  rw [cons_append_split, getLastD_reverse]

theorem nodup_reverse_of_cons {l : List ℕ} (h : (s :: l).Nodup) : (s :: l.reverse).Nodup := by
  rw [List.nodup_cons] at h ⊢
  rw [List.mem_reverse, List.nodup_reverse]
  exact h

/-! ### The node at a position

The node at position `k` of the members is `(l.drop k).headD s`: the `k`-th member, or the
sentinel from the end on. -/

theorem headD_drop_mem (l : List ℕ) (s k : ℕ) : (l.drop k).headD s ∈ s :: l := by
  cases h : l.drop k with
  | nil => exact List.mem_cons_self
  | cons x xs => exact List.mem_cons_of_mem s (List.mem_of_mem_drop (h ▸ List.mem_cons_self))

theorem headD_drop_of_lt {l : List ℕ} {k : ℕ} (hk : k < l.length) (s : ℕ) :
    (l.drop k).headD s = l[k] := by
  rw [List.drop_eq_getElem_cons hk, List.headD_cons]

theorem headD_drop_of_le {l : List ℕ} {k : ℕ} (hk : l.length ≤ k) (s : ℕ) :
    (l.drop k).headD s = s := by
  rw [List.drop_eq_nil_of_le hk, List.headD_nil]

theorem headD_mem_append (s : ℕ) (A B : List ℕ) : B.headD s ∈ s :: (A ++ B) := by
  cases B with
  | nil => exact List.mem_cons_self
  | cons b B => exact List.mem_cons_of_mem s (List.mem_append_right A List.mem_cons_self)

/-- On a cycle that visits no node twice, the node at the position between `A` and `B` is found
at index `A.length`. -/
theorem idxOf_headD {A B : List ℕ} (hnd : (s :: (A ++ B)).Nodup) :
    (A ++ B).idxOf (B.headD s) = A.length := by
  have hA : B.headD s ∉ A := by
    cases B with
    | nil => exact fun hm ↦ (List.nodup_cons.1 hnd).1 (List.mem_append_left [] hm)
    | cons b B =>
      exact fun hm ↦ List.disjoint_of_nodup_append (List.nodup_cons.1 hnd).2 hm
        List.mem_cons_self
  rw [List.idxOf_append_of_notMem hA]
  cases B with
  | nil => rfl
  | cons b B => simp

/-- The last member is the node at position `length - 1`, and the sentinel when there is
none. -/
theorem getLastD_eq_headD_drop (L : List ℕ) (s : ℕ) :
    L.getLastD s = (L.drop (L.length - 1)).headD s := by
  rcases List.eq_nil_or_concat L with rfl | ⟨L, a, rfl⟩
  · rfl
  · simp

theorem getLastD_take_succ {l : List ℕ} {k : ℕ} (hk : k < l.length) (s : ℕ) :
    (l.take (k + 1)).getLastD s = l[k] := by
  rw [List.take_add_one, List.getElem?_eq_getElem hk, Option.toList_some, List.getLastD_concat]

/-! ### Reading the links -/

/-- The node after the predecessor of a position is the node at it. -/
theorem next_getLastD {A B : List ℕ} (h : LinkCycle next prev s (A ++ B)) :
    next (A.getLastD s) = B.headD s := by
  have hf := h.forward
  rw [cons_append_split] at hf
  exact hf.next_eq_headD

/-- The node before the node at a position is its predecessor. -/
theorem prev_headD {A B : List ℕ} (h : LinkCycle next prev s (A ++ B)) :
    prev (B.headD s) = A.getLastD s := by
  have hb := h.backward
  rw [List.reverse_append, backward_split] at hb
  rw [hb.next_eq_headD, headD_reverse]

/-- The node after a member is the next member, or the sentinel after the last one. -/
theorem next_eq {A B : List ℕ} {x : ℕ} (h : LinkCycle next prev s (A ++ x :: B)) :
    next x = B.headD s := by
  have h' : LinkCycle next prev s ((A ++ [x]) ++ B) := by
    rwa [List.append_assoc, List.singleton_append]
  rw [← h'.next_getLastD, List.getLastD_concat]

/-- The node after the `k`-th member is the node at position `k + 1`. -/
theorem next_getElem {l : List ℕ} (h : LinkCycle next prev s l) {k : ℕ} (hk : k < l.length) :
    next l[k] = (l.drop (k + 1)).headD s := by
  have h' : LinkCycle next prev s (l.take (k + 1) ++ l.drop (k + 1)) := by
    rwa [List.take_append_drop]
  rw [← h'.next_getLastD, getLastD_take_succ hk]

/-- The link back from a member, or from the sentinel, is a member or the sentinel. -/
theorem prev_mem {l : List ℕ} (h : LinkCycle next prev s l) {y : ℕ} (hy : y ∈ s :: l) :
    prev y ∈ s :: l := by
  have hy' : y ∈ s :: l.reverse := by rwa [List.mem_cons, List.mem_reverse, ← List.mem_cons]
  rcases h.backward.next_mem_or_eq hy' with hm | hm
  · rwa [List.mem_cons, List.mem_reverse, ← List.mem_cons] at hm
  · exact hm ▸ List.mem_cons_self

/-! ### Updates -/

/-- A write of `next` off the cycle leaves it alone. -/
theorem update_next {l : List ℕ} (h : LinkCycle next prev s l) {i v : ℕ} (hi : i ∉ s :: l) :
    LinkCycle (Function.update next i v) prev s l :=
  ⟨h.forward.update hi, h.backward⟩

/-- A write of `prev` off the cycle leaves it alone. -/
theorem update_prev {l : List ℕ} (h : LinkCycle next prev s l) {i v : ℕ} (hi : i ∉ s :: l) :
    LinkCycle next (Function.update prev i v) s l :=
  ⟨h.forward, h.backward.update fun hm ↦ hi (by simpa using hm)⟩

/-- **Linking a node in before a position**: a node `n` off the cycle, linked between the node
`it` at the position and its predecessor, joins the cycle there. -/
theorem insertBefore {A B : List ℕ} {n : ℕ} (h : LinkCycle next prev s (A ++ B))
    (hnd : (s :: (A ++ B)).Nodup) (hn : n ∉ s :: (A ++ B)) :
    LinkCycle
      (Function.update (Function.update next n (B.headD s)) (prev (B.headD s)) n)
      (Function.update (Function.update prev n (prev (B.headD s))) (B.headD s) n)
      s (A ++ n :: B) := by
  have hnb : n ∉ s :: (A ++ B).reverse := by rwa [List.mem_cons, List.mem_reverse, ← List.mem_cons]
  have hndb := nodup_reverse_of_cons hnd
  constructor
  · -- forwards, `n` goes in after the predecessor
    have hf := h.forward
    rw [cons_append_split] at hf hnd hn
    rw [h.prev_headD, ← h.next_getLastD, cons_append_split]
    exact hf.insertAfter hnd hn
  · -- backwards, `n` goes in after the node at the position
    have hb := h.backward
    rw [List.reverse_append, backward_split] at hb hndb hnb
    rw [List.reverse_append, List.reverse_cons, List.append_assoc, List.singleton_append,
      backward_split]
    exact hb.insertAfter hndb hnb

/-- **Unlinking a member**: relinking the neighbours of `x` to each other leaves the cycle
without `x`. -/
theorem erase {A B : List ℕ} {x : ℕ} (h : LinkCycle next prev s (A ++ x :: B))
    (hnd : (s :: (A ++ x :: B)).Nodup) :
    LinkCycle (Function.update next (prev x) (next x)) (Function.update prev (next x) (prev x)) s
      (A ++ B) := by
  have hprev : prev x = A.getLastD s := h.prev_headD
  have hnext : next x = B.headD s := h.next_eq
  have hndb := nodup_reverse_of_cons hnd
  constructor
  · have hf := h.forward
    rw [cons_append_split] at hf hnd
    rw [hprev, cons_append_split]
    exact hf.splice hnd
  · have hb := h.backward
    rw [List.reverse_append, List.reverse_cons, List.append_assoc, List.singleton_append,
      backward_split] at hb hndb
    rw [hnext, List.reverse_append, backward_split]
    exact hb.splice hndb

end LinkCycle
