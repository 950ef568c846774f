import Mathlib.Data.List.Nodup
import Mathlib.Data.List.Perm.Basic

/-!
# Lists in which at most one element matches

Containers that refuse a second entry with the same key (a name, a position, a logical identity)
search their list for the first entry with that key and erase it. When at most one entry
matches (`AtMostOne`) and no entry is repeated, that first-match erasure removes every match
(`eraseP_eq_filter`), and the matches are the one `find?` finds (`filter_eq_toList_find?`). A run
that erases the matches of one key after another erases, up to order, the matches of all the keys
(`filter_append_filter_perm`).
-/

namespace UniqueMatch

variable {α β : Type*}

/-- At most one element of `l` has `p`. -/
def AtMostOne (p : α → Bool) (l : List α) : Prop :=
  ∀ x ∈ l, ∀ y ∈ l, p x → p y → x = y

variable {p : α → Bool} {l : List α}

theorem AtMostOne.of_cons {x : α} (h : AtMostOne p (x :: l)) : AtMostOne p l :=
  fun a ha b hb ↦ h a (List.mem_cons_of_mem x ha) b (List.mem_cons_of_mem x hb)

theorem AtMostOne.sublist {l' : List α} (h : AtMostOne p l) (hsub : l'.Sublist l) :
    AtMostOne p l' :=
  fun a ha b hb ↦ h a (hsub.subset ha) b (hsub.subset hb)

/-- Elements with pairwise distinct keys: at most one has a given key. -/
theorem atMostOne_of_nodup_map [BEq β] [LawfulBEq β] {f : α → β} (h : (l.map f).Nodup) (b : β) :
    AtMostOne (f · == b) l := by
  intro x hx y hy hxb hyb
  exact List.inj_on_of_nodup_map h hx hy (by rw [eq_of_beq hxb, eq_of_beq hyb])

/-- **Erasing the first match erases every match**, when at most one matches. -/
theorem eraseP_eq_filter : ∀ {l : List α}, l.Nodup → AtMostOne p l →
    l.eraseP p = l.filter fun x ↦ !p x
  | [], _, _ => rfl
  | x :: xs, hl, hp => by
    rw [List.nodup_cons] at hl
    by_cases hx : p x
    · -- `x` is the match, so no element of `xs` matches
      have hrest : ∀ y ∈ xs, (!p y) = true := by
        intro y hy
        by_contra hpy
        exact hl.1 (hp y (List.mem_cons_of_mem x hy) x List.mem_cons_self
          (by simpa using hpy) hx ▸ hy)
      rw [List.eraseP_cons_of_pos hx, List.filter_cons_of_neg (by simpa using hx),
        List.filter_eq_self.2 hrest]
    · rw [List.eraseP_cons_of_neg hx, List.filter_cons_of_pos (by simpa using hx),
        eraseP_eq_filter hl.2 hp.of_cons]

/-- **The matches are the one `find?` finds**, when at most one matches. -/
theorem filter_eq_toList_find? : ∀ {l : List α}, l.Nodup → AtMostOne p l →
    l.filter p = (l.find? p).toList
  | [], _, _ => rfl
  | x :: xs, hl, hp => by
    rw [List.nodup_cons] at hl
    by_cases hx : p x
    · have hrest : ∀ y ∈ xs, ¬p y := fun y hy hpy ↦
        hl.1 (hp y (List.mem_cons_of_mem x hy) x List.mem_cons_self hpy hx ▸ hy)
      rw [List.filter_cons_of_pos hx, List.find?_cons_of_pos hx, List.filter_eq_nil_iff.2 hrest]
      rfl
    · rw [List.filter_cons_of_neg hx, List.find?_cons_of_neg hx,
        filter_eq_toList_find? hl.2 hp.of_cons]

/-- The elements with `p`, then those with `q` but not `p`: up to order, those with `p` or `q`. -/
theorem filter_append_filter_perm (p q : α → Bool) : ∀ l : List α,
    (l.filter p ++ l.filter fun x ↦ q x && !p x).Perm (l.filter fun x ↦ p x || q x)
  | [] => .nil
  | x :: xs => by
    have ih := filter_append_filter_perm p q xs
    -- the head goes to the first part, to the second, or to neither
    by_cases hp : p x
    · simpa [List.filter_cons, hp] using ih
    · by_cases hq : q x
      · simpa [List.filter_cons, hp, hq] using List.perm_middle.trans (ih.cons x)
      · simpa [List.filter_cons, hp, hq] using ih

end UniqueMatch
