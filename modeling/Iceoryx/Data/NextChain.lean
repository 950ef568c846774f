import Mathlib.Logic.Function.Basic
import Mathlib.Data.List.Nodup

/-!
# Singly linked lists threaded through an index array

An intrusive free list keeps no nodes of its own: an array `next` of indices links each member to
the following one, and a head index names the first. `NextChain next h l e` says that following
`next` from `h` visits exactly the indices of `l`, in order, and then arrives at `e`; the end `e`
is a sentinel that the list's users recognise by comparing it with a bound, so it is kept
explicit rather than fixed.

The lemmas are the ones a push/pop proof needs and no more:

* the chain is unchanged by a write to an index **off** the list (`NextChain.update`), which is
  how a pop that overwrites the popped index, or a push that links a new head, leaves the rest
  of the list alone, and by any change of links off the list (`NextChain.congr`);
* the link of every member is the next member or the end (`NextChain.next_mem_or_eq`), which is
  what bounds the values stored at listed indices;
* consing a new head whose link is the old head extends the chain (`NextChain.cons_update`);
* relinking a member's predecessor past it unlinks the member (`NextChain.splice`), which is how
  a list that removes from its middle keeps the rest of the chain;
* an array initialised with `next[i] = i + 1` chains its indices in order
  (`NextChain.succ_range'`);
* linking an index after a member makes it the member's successor (`NextChain.insertAfter`),
  which is how a sorted list takes a new member in its middle.

`follow` walks the links with fuel as an iterator does, and `NextChain.follow_eq` says that it
visits exactly the chain's list when the fuel covers its length.

The list is a relational description: nothing here walks `next` with fuel, and no acyclicity
has to be proved separately, since a chain over a duplicate-free list is acyclic by definition.
-/

/-- Following `next` from `h` visits the indices of the list in order and then reaches `e`. -/
def NextChain (next : ℕ → ℕ) : ℕ → List ℕ → ℕ → Prop
  | h, [], e => h = e
  | h, x :: xs, e => h = x ∧ NextChain next (next x) xs e

namespace NextChain

variable {next : ℕ → ℕ} {h e x : ℕ} {xs : List ℕ}

@[simp] theorem nextChain_nil : NextChain next h [] e ↔ h = e := Iff.rfl

@[simp] theorem nextChain_cons :
    NextChain next h (x :: xs) e ↔ h = x ∧ NextChain next (next x) xs e :=
  Iff.rfl

/-- The head is the first member, or the end for an empty list. -/
theorem head_eq : ∀ {h : ℕ} {l : List ℕ}, NextChain next h l e → h = l.headD e
  | _, [], hc => hc
  | _, _ :: _, ⟨hh, _⟩ => hh

/-- **Frame rule**: a write to an index that is not on the list leaves the chain as it is. -/
theorem update {i v : ℕ} : ∀ {h : ℕ} {l : List ℕ}, NextChain next h l e → i ∉ l →
    NextChain (Function.update next i v) h l e
  | _, [], hc, _ => hc
  | _, y :: ys, ⟨rfl, hc⟩, hi => by
    have hne : y ≠ i := fun hy ↦ hi (hy ▸ List.mem_cons_self)
    refine ⟨rfl, ?_⟩
    rw [Function.update_of_ne hne]
    exact update hc fun hmem ↦ hi (List.mem_cons_of_mem y hmem)

/-- The link of a member is the member after it, or the end. -/
theorem next_eq_headD {y : ℕ} {post : List ℕ} : ∀ {h : ℕ} {pre : List ℕ},
    NextChain next h (pre ++ y :: post) e → next y = post.headD e
  | _, [], ⟨_, hc⟩ => hc.head_eq
  | _, _ :: _, ⟨_, hc⟩ => next_eq_headD hc

/-- A chain whose head is not the end starts with its head. -/
theorem eq_cons_of_ne {h : ℕ} {l : List ℕ} (hc : NextChain next h l e) (hh : h ≠ e) :
    l = h :: l.tail := by
  cases l with
  | nil => exact absurd hc hh
  | cons x xs => rw [hc.1, List.tail_cons]

/-- **Frame rule**, pointwise: links that agree on the members give the same chain. -/
theorem congr {next' : ℕ → ℕ} : ∀ {h : ℕ} {l : List ℕ}, NextChain next h l e →
    (∀ x ∈ l, next' x = next x) → NextChain next' h l e
  | _, [], hc, _ => hc
  | _, y :: ys, ⟨rfl, hc⟩, hagree => by
    refine ⟨rfl, ?_⟩
    rw [hagree y List.mem_cons_self]
    exact congr hc fun x hx ↦ hagree x (List.mem_cons_of_mem y hx)

/-- Two chains in a row, the first ending where the second starts, are one chain. -/
theorem append {m : ℕ} {l' : List ℕ} : ∀ {h : ℕ} {l : List ℕ}, NextChain next h l m →
    NextChain next m l' e → NextChain next h (l ++ l') e
  | _, [], rfl, hc' => hc'
  | _, _ :: _, ⟨rfl, hc⟩, hc' => ⟨rfl, append hc hc'⟩

/-- **Linking a new head**: an index off the list whose link is the old head starts a chain
through the extended list. -/
theorem cons_update {i : ℕ} {l : List ℕ} (hc : NextChain next h l e) (hi : i ∉ l) :
    NextChain (Function.update next i h) i (i :: l) e := by
  refine ⟨rfl, ?_⟩
  rw [Function.update_self]
  exact update hc hi

/-- The links `i ↦ i + 1` chain the indices `k, …, k + n - 1` to `k + n`: the list an array
initialised with `next[i] = i + 1` starts with. -/
theorem succ_range' (k n : ℕ) : NextChain (fun i ↦ i + 1) k (List.range' k n) (k + n) := by
  induction n generalizing k with
  | zero => rfl
  | succ n ih =>
    refine ⟨rfl, ?_⟩
    have := ih (k + 1)
    rwa [show k + 1 + n = k + (n + 1) by omega] at this

/-- The link stored at a member is the following member, or the end for the last one. -/
theorem next_mem_or_eq : ∀ {h : ℕ} {l : List ℕ}, NextChain next h l e → ∀ {y : ℕ}, y ∈ l →
    next y ∈ l ∨ next y = e
  | _, [], _, _, hy => absurd hy List.not_mem_nil
  | _, z :: zs, ⟨_, hc⟩, y, hy => by
    rcases List.mem_cons.1 hy with rfl | hy
    · cases zs with
      | nil => exact Or.inr hc
      | cons w ws => exact Or.inl (by rw [hc.1]; simp)
    · rcases next_mem_or_eq hc hy with h' | h'
      · exact Or.inl (List.mem_cons_of_mem z h')
      · exact Or.inr h'

/-- **Unlinking a member**: relinking `y` to the successor of the member `x` after it leaves a
chain through the list without `x`. -/
theorem splice {y x : ℕ} {post : List ℕ} : ∀ {h : ℕ} {pre : List ℕ},
    NextChain next h (pre ++ y :: x :: post) e → (pre ++ y :: x :: post).Nodup →
    NextChain (Function.update next y (next x)) h (pre ++ y :: post) e
  | _, [], ⟨rfl, _, hc⟩, hnd => by
    -- `y` is not on the rest of the list, so the relink leaves the rest of the chain alone
    have hy : y ∉ post := fun h ↦ (List.nodup_cons.1 hnd).1 (List.mem_cons_of_mem x h)
    refine ⟨rfl, ?_⟩
    rw [Function.update_self]
    exact update hc hy
  | _, z :: pre, ⟨rfl, hc⟩, hnd => by
    have hz : z ≠ y := fun h ↦ (List.nodup_cons.1 hnd).1 (by simp [h])
    refine ⟨rfl, ?_⟩
    rw [Function.update_of_ne hz]
    exact splice hc (List.nodup_cons.1 hnd).2

/-- **Linking after a member**: an index `i` off the list, linked to the successor of the member
`y` and made the successor of `y`, joins the chain right after `y`. -/
theorem insertAfter {y i : ℕ} {post : List ℕ} : ∀ {h : ℕ} {pre : List ℕ},
    NextChain next h (pre ++ y :: post) e → (pre ++ y :: post).Nodup → i ∉ pre ++ y :: post →
    NextChain (Function.update (Function.update next i (next y)) y i) h (pre ++ y :: i :: post) e
  | _, [], ⟨rfl, hc⟩, hnd, hi => by
    -- neither `y` nor `i` is on the rest of the list, so both writes leave it alone
    have hyi : y ≠ i := fun h ↦ hi (h ▸ List.mem_cons_self)
    have hy : y ∉ post := (List.nodup_cons.1 hnd).1
    have hip : i ∉ post := fun h ↦ hi (List.mem_cons_of_mem y h)
    refine ⟨rfl, ?_⟩
    rw [Function.update_self]
    refine ⟨rfl, ?_⟩
    rw [Function.update_of_ne hyi.symm, Function.update_self]
    exact update (update hc hip) hy
  | _, z :: pre, ⟨rfl, hc⟩, hnd, hi => by
    have hzy : z ≠ y := fun h ↦ (List.nodup_cons.1 hnd).1 (by simp [h])
    have hzi : z ≠ i := fun h ↦ hi (h ▸ List.mem_cons_self)
    refine ⟨rfl, ?_⟩
    rw [Function.update_of_ne hzy, Function.update_of_ne hzi]
    exact insertAfter hc (List.nodup_cons.1 hnd).2 fun h ↦ hi (List.mem_cons_of_mem z h)

/-! ### Walking the links -/

/-- At most `fuel` steps along `next` from `h`, stopping at the end `e`: the indices an iterator
visits from `h` to `e`. As `operator++` does, a position past the end does not advance. -/
def follow (next : ℕ → ℕ) (e : ℕ) : ℕ → ℕ → List ℕ
  | 0, _ => []
  | fuel + 1, h => if h = e then [] else h :: follow next e fuel (if h < e then next h else h)

/-- **The walk visits the chain**: with fuel for every member, following the links from the head
visits the members in order and stops at the end. -/
theorem follow_eq : ∀ {fuel h : ℕ} {l : List ℕ}, NextChain next h l e → (∀ x ∈ l, x < e) →
    l.length ≤ fuel → follow next e fuel h = l
  | 0, _, [], _, _, _ => rfl
  | fuel + 1, _, [], hc, _, _ => by rw [follow, if_pos (show _ = e from hc)]
  | fuel, _, x :: xs, ⟨rfl, hc⟩, hlt, hlen => by
    obtain ⟨fuel, rfl⟩ : ∃ f, fuel = f + 1 := ⟨fuel - 1, by simp at hlen; omega⟩
    have hx : x < e := hlt x List.mem_cons_self
    rw [follow, if_neg (Nat.ne_of_lt hx), if_pos hx,
      follow_eq hc (fun y hy ↦ hlt y (List.mem_cons_of_mem x hy)) (by simpa using hlen)]

end NextChain
