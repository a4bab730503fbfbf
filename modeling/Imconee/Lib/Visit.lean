import Mathlib.Tactic.Common

/-!
# A pass over a list

A pass goes on from element to element until one of them says to stop or fails. Where each element
is one of those that pass, that stop or that fail, the first one that does not pass decides how
the pass ends.
-/

set_option autoImplicit false

namespace Imconee.Lib

universe u

variable {ε σ α : Type u}

def visit (step : σ → α → Except ε (σ × Bool)) : σ → List α → Except ε (σ × Bool)
  | s, [] => .ok (s, true)
  | s, a :: as =>
      match step s a with
      | .error e => .error e
      | .ok (s, more) => if more then visit step s as else .ok (s, false)

/-- The first element that does not pass -/
inductive First (passes : α → Prop) : List α → α → Prop
  | here {a : α} {as : List α} (stays : ¬passes a) : First passes (a :: as) a
  | later {a b : α} {as : List α} (pass : passes b) (rest : First passes as a) :
      First passes (b :: as) a

theorem all_or_first (passes : α → Prop) (as : List α) :
    (∀ a ∈ as, passes a) ∨ ∃ a, First passes as a := by
  induction as with
  | nil => exact Or.inl (by simp)
  | cons a as ih =>
      by_cases pass : passes a
      · rcases ih with all | ⟨b, first⟩
        · exact Or.inl (List.forall_mem_cons.mpr ⟨pass, all⟩)
        · exact Or.inr ⟨b, .later pass first⟩
      · exact Or.inr ⟨a, .here pass⟩

/-- What a step does on an element is decided by the element, in each state that can be reached
by steps over elements that pass: `seen` says what is so behind these, `stopped` behind a stop. -/
structure Sorts (step : σ → α → Except ε (σ × Bool)) (passes fails : α → Prop)
    (seen : List α → σ → Prop) (stopped : σ → Prop) : Prop where
  pass {before : List α} {s : σ} {a : α} : seen before s → passes a →
    ∃ t, step s a = .ok (t, true) ∧ seen (before ++ [a]) t
  stop {before : List α} {s : σ} {a : α} : seen before s → ¬passes a → ¬fails a →
    ∃ t, step s a = .ok (t, false) ∧ stopped t
  fail {before : List α} {s : σ} {a : α} : seen before s → fails a → ∃ e, step s a = .error e

namespace Sorts

variable {step : σ → α → Except ε (σ × Bool)} {passes fails : α → Prop}
  {seen : List α → σ → Prop} {stopped : σ → Prop}
  {before as : List α} {s : σ} {a : α}

theorem visit_all (sorts : Sorts step passes fails seen stopped) (start : seen before s)
    (all : ∀ a ∈ as, passes a) :
    ∃ t, visit step s as = .ok (t, true) ∧ seen (before ++ as) t := by
  induction as generalizing before s with
  | nil => exact ⟨s, rfl, by simpa using start⟩
  | cons a as ih =>
      rcases List.forall_mem_cons.mp all with ⟨pass, rest⟩
      rcases sorts.pass start pass with ⟨t, stepped, reached⟩
      rcases ih reached rest with ⟨final, visited, ends⟩
      exact ⟨final, by simpa [visit, stepped] using visited, by simpa using ends⟩

theorem visit_stop (sorts : Sorts step passes fails seen stopped) (start : seen before s)
    (first : First passes as a) (stays : ¬fails a) :
    ∃ t, visit step s as = .ok (t, false) ∧ stopped t := by
  induction first generalizing before s with
  | here stops =>
      rcases sorts.stop start stops stays with ⟨t, stepped, ends⟩
      exact ⟨t, by simp [visit, stepped], ends⟩
  | later pass _ ih =>
      rcases sorts.pass start pass with ⟨t, stepped, reached⟩
      rcases ih reached stays with ⟨final, visited, ends⟩
      exact ⟨final, by simpa [visit, stepped] using visited, ends⟩

theorem visit_fail (sorts : Sorts step passes fails seen stopped) (start : seen before s)
    (first : First passes as a) (failing : fails a) : ∃ e, visit step s as = .error e := by
  induction first generalizing before s with
  | here _ =>
      rcases sorts.fail start failing with ⟨e, stepped⟩
      exact ⟨e, by simp [visit, stepped]⟩
  | later pass _ ih =>
      rcases sorts.pass start pass with ⟨t, stepped, reached⟩
      rcases ih reached failing with ⟨e, visited⟩
      exact ⟨e, by simpa [visit, stepped] using visited⟩

end Sorts

end Imconee.Lib
