import Mathlib.Order.WellFounded

universe u v

namespace UnixNotes.Library

variable {α : Type u} {β : Type v} {R : α → α → Prop} {Q I : α → Prop}

/-- Whatever steps are taken from `a`, they reach `Q` after finitely many, and do not get stuck
before. -/
inductive Inevitable (R : α → α → Prop) (Q : α → Prop) : α → Prop
  | now {a : α} (here : Q a) : Inevitable R Q a
  | later {a : α} (goes : ∃ b, R a b) (all : ∀ b, R a b → Inevitable R Q b) : Inevitable R Q a

namespace Inevitable

theorem of_measure [Preorder β] [WellFoundedLT β] (μ : α → β)
    (hstep : ∀ {a b}, I a → R a b → I b ∧ μ b < μ a) (hgoes : ∀ {a}, I a → Q a ∨ ∃ b, R a b)
    {a : α} (h : I a) : Inevitable R Q a := by
  induction hμ : μ a using WellFoundedLT.induction generalizing a with
  | ind m ih =>
    subst hμ
    obtain hhere | hsome := hgoes h
    · exact .now hhere
    · refine .later hsome fun b hab => ?_
      obtain ⟨hb, hlt⟩ := hstep h hab
      exact ih (μ b) hlt hb rfl

end Inevitable

end UnixNotes.Library
