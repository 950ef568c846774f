import Mathlib.Data.List.Basic

/-!
# Loops that visit every element of a container once

A loop `for (auto& a : container) { ... }` over a container of records visits the records in
order, changes the one it visits in place, and threads a state that the body reads and writes
(other containers, a flag it sets). Its body can end the program (a fatal error), so a loop is a
function into `Except`:

* `Visit.forEach visit s as` is such a loop: the body returns the new state and the new record;
* `Visit.filterEach visit s as` is the loop that moves its iterator on before the body may erase
  the visited record (`auto current = it++; ... erase(current)`): the body returns `none` for a
  record it erased.

The one rule a model needs about them is **the invariant rule with a visited prefix**
(`filterEach_inv`, `forEach_inv`): a property of the state and of the whole container (the
records visited so far, as they now are, followed by those still to visit) that every visit keeps,
and under which every visit succeeds, holds after the loop, which then succeeds too.

Nothing here names a port or a queue.
-/

namespace Visit

variable {σ α ε : Type*}

/-- `for (auto& a : as) { ... }` with a state: each visit may fail, and returns the new state and
the visited element as it leaves it. -/
def forEach (visit : σ → α → Except ε (σ × α)) : σ → List α → Except ε (σ × List α)
  | s, [] => .ok (s, [])
  | s, a :: as => do
    let (s, a) ← visit s a
    let (s, as) ← forEach visit s as
    return (s, a :: as)

/-- The loop that may erase the element it visits: `none` for an element the visit erased. -/
def filterEach (visit : σ → α → Except ε (σ × Option α)) : σ → List α → Except ε (σ × List α)
  | s, [] => .ok (s, [])
  | s, a :: as => do
    let (s, a?) ← visit s a
    let (s, as) ← filterEach visit s as
    return (s, a?.toList ++ as)

@[simp] theorem forEach_nil (visit : σ → α → Except ε (σ × α)) (s : σ) :
    forEach visit s [] = .ok (s, []) := rfl

@[simp] theorem filterEach_nil (visit : σ → α → Except ε (σ × Option α)) (s : σ) :
    filterEach visit s [] = .ok (s, []) := rfl

/-- One visit, then the rest of the loop. -/
theorem forEach_cons_of_ok {visit : σ → α → Except ε (σ × α)} {s s₁ : σ} {a a₁ : α}
    (h : visit s a = .ok (s₁, a₁)) (as : List α) :
    forEach visit s (a :: as) = (forEach visit s₁ as).map fun r ↦ (r.1, a₁ :: r.2) := by
  simp only [forEach, h, bind_pure_comp]
  rfl

/-- One visit, then the rest of the loop. -/
theorem filterEach_cons_of_ok {visit : σ → α → Except ε (σ × Option α)} {s s₁ : σ} {a : α}
    {a? : Option α} (h : visit s a = .ok (s₁, a?)) (as : List α) :
    filterEach visit s (a :: as) = (filterEach visit s₁ as).map fun r ↦ (r.1, a?.toList ++ r.2) := by
  simp only [filterEach, h, bind_pure_comp]
  rfl

/-- **Invariant rule for `filterEach`.** `I s l` is read of the whole container `l`: the
elements visited so far as the loop left them, then those still to visit. -/
theorem filterEach_inv {visit : σ → α → Except ε (σ × Option α)} {I : σ → List α → Prop}
    (hvisit : ∀ s done a todo, I s (done ++ a :: todo) →
      ∃ s' a?, visit s a = .ok (s', a?) ∧ I s' (done ++ a?.toList ++ todo)) :
    ∀ {s : σ} (done todo : List α), I s (done ++ todo) →
      ∃ s' kept, filterEach visit s todo = .ok (s', kept) ∧ I s' (done ++ kept)
  | s, done, [], hs => ⟨s, [], rfl, hs⟩
  | s, done, a :: todo, hs => by
    obtain ⟨s₁, a?, h₁, hs₁⟩ := hvisit s done a todo hs
    -- the visited element joins the prefix
    obtain ⟨s₂, kept, h₂, hs₂⟩ := filterEach_inv hvisit (done ++ a?.toList) todo hs₁
    refine ⟨s₂, a?.toList ++ kept, ?_, by simpa using hs₂⟩
    rw [filterEach_cons_of_ok h₁, h₂]
    rfl

/-- **Invariant rule for `forEach`**, as for `filterEach`. -/
theorem forEach_inv {visit : σ → α → Except ε (σ × α)} {I : σ → List α → Prop}
    (hvisit : ∀ s done a todo, I s (done ++ a :: todo) →
      ∃ s' a', visit s a = .ok (s', a') ∧ I s' (done ++ a' :: todo)) :
    ∀ {s : σ} (done todo : List α), I s (done ++ todo) →
      ∃ s' todo', forEach visit s todo = .ok (s', todo') ∧ I s' (done ++ todo')
  | s, done, [], hs => ⟨s, [], rfl, hs⟩
  | s, done, a :: todo, hs => by
    obtain ⟨s₁, a₁, h₁, hs₁⟩ := hvisit s done a todo hs
    obtain ⟨s₂, todo₂, h₂, hs₂⟩ := forEach_inv hvisit (done ++ [a₁]) todo (by simpa using hs₁)
    refine ⟨s₂, a₁ :: todo₂, ?_, by simpa using hs₂⟩
    rw [forEach_cons_of_ok h₁, h₂]
    rfl

end Visit
