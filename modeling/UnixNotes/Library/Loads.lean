import Mathlib.Algebra.Order.BigOperators.Group.Finset
import UnixNotes.Library.Interleaving

universe u v

namespace UnixNotes.Library.Config

variable {σ : Type u} {ι : Type v} (w : ι → Nat) (c : Config σ ι)

def load (t : Nat) : Nat := weigh w (c.stack t)

theorem total_eq_sum_load : c.total w = ∑ t ∈ Finset.range c.threads.length, c.load w t := by
  simp only [total, load, stack]
  induction c.threads with
  | nil => rfl
  | cons top threads ih =>
    rw [List.length_cons, Finset.sum_range_succ', List.map_cons, List.sum_cons, ih, Nat.add_comm]
    rfl

theorem load_eq_zero_of_length_le {t : Nat} (h : c.threads.length ≤ t) : c.load w t = 0 := by
  rw [load, stack, List.getD, List.getElem?_eq_none h, Option.getD_none, weigh_nil]

theorem sum_load_le_total (threads : Finset Nat) :
    ∑ t ∈ threads, c.load w t ≤ c.total w := by
  rw [total_eq_sum_load]
  refine Finset.sum_le_sum_of_ne_zero fun t _ hload => Finset.mem_range.mpr ?_
  exact Nat.lt_of_not_le fun hle => hload (load_eq_zero_of_length_le w c hle)

theorem total_le_sum_load {threads : Finset Nat} (h : ∀ t ∉ threads, c.load w t = 0) :
    c.total w ≤ ∑ t ∈ threads, c.load w t := by
  rw [total_eq_sum_load]
  exact Finset.sum_le_sum_of_ne_zero fun t _ hload => by_contra fun hmem => hload (h t hmem)

variable {w c}

theorem load_replace_ne {t t' : Nat} (s : σ) (stack : List ι) (h : t' ≠ t) :
    (c.replace t s stack).load w t' = c.load w t' := by
  rw [load, stack_replace_ne _ _ _ h, load]

theorem load_replace {t : Nat} {i : ι} {rest : List ι} (htop : c.stack t = i :: rest) (s : σ)
    {pushed : List ι} (h : weigh w pushed = w i) (t' : Nat) :
    (c.replace t s (pushed ++ rest)).load w t' = c.load w t' := by
  by_cases ht : t' = t
  · subst ht
    rw [load, stack_replace_self htop, weigh_append, h, load, htop, weigh_cons]
  · exact load_replace_ne s _ ht

theorem total_mono {w₁ w₂ : ι → Nat} (h : ∀ i, w₁ i ≤ w₂ i) (c : Config σ ι) :
    c.total w₁ ≤ c.total w₂ :=
  List.sum_le_sum fun _ _ => List.sum_le_sum fun i _ => h i

theorem weigh_add (w₁ w₂ : ι → Nat) (stack : List ι) :
    weigh (fun i => w₁ i + w₂ i) stack = weigh w₁ stack + weigh w₂ stack :=
  List.sum_map_add

theorem total_add (w₁ w₂ : ι → Nat) (c : Config σ ι) :
    c.total (fun i => w₁ i + w₂ i) = c.total w₁ + c.total w₂ := by
  rw [total, funext (weigh_add w₁ w₂)]
  exact weigh_add (weigh w₁) (weigh w₂) c.threads

theorem le_load {t : Nat} {i : ι} (h : c.Active t i) : w i ≤ c.load w t := le_weigh h

end UnixNotes.Library.Config
