import Mathlib.Algebra.Ring.Int.Defs
import Mathlib.Algebra.Ring.Nat
import Mathlib.Data.List.Basic
import Mathlib.Logic.Function.Basic

universe u v w

namespace UnixNotes.Library

/-- Threads that run stacks of instructions on one shared state. Executing the top instruction of a
thread changes the shared state and puts the instructions that remain of it in its place; a choice
resolves what the program leaves open. -/
structure Machine (σ : Type u) (ι : Type v) (χ : Type w) where
  exec : Nat → ι → χ → σ → Option (σ × List ι)

structure Config (σ : Type u) (ι : Type v) where
  shared : σ
  threads : List (List ι)

namespace Config

variable {σ : Type u} {ι : Type v}

def stack (c : Config σ ι) (t : Nat) : List ι := c.threads.getD t []

def Active (c : Config σ ι) (t : Nat) (i : ι) : Prop := i ∈ c.stack t

def replace (c : Config σ ι) (t : Nat) (s : σ) (stack : List ι) : Config σ ι :=
  ⟨s, c.threads.set t stack⟩

@[simp] theorem shared_replace (c : Config σ ι) (t : Nat) (s : σ) (stack : List ι) :
    (c.replace t s stack).shared = s := rfl

theorem stack_replace_ne (c : Config σ ι) {t t' : Nat} (s : σ) (stack : List ι) (h : t' ≠ t) :
    (c.replace t s stack).stack t' = c.stack t' := by
  simp [Config.stack, replace, List.getD, List.getElem?_set_ne h.symm]

def All (c : Config σ ι) (P : ι → Prop) : Prop := ∀ stack ∈ c.threads, ∀ i ∈ stack, P i

instance (c : Config σ ι) (P : ι → Prop) [DecidablePred P] : Decidable (c.All P) :=
  inferInstanceAs (Decidable (∀ stack ∈ c.threads, ∀ i ∈ stack, P i))

theorem stack_eq_nil_or_mem (c : Config σ ι) (t : Nat) :
    c.stack t = [] ∨ c.stack t ∈ c.threads := by
  rw [stack, List.getD]
  cases hget : c.threads[t]? with
  | none => exact .inl rfl
  | some stack => exact .inr (List.mem_of_getElem? hget)

theorem mem_threads {c : Config σ ι} {t : Nat} {i : ι} (h : c.Active t i) :
    ∃ stack ∈ c.threads, i ∈ stack := by
  obtain hnil | hmem := c.stack_eq_nil_or_mem t
  · rw [Active, hnil] at h
    cases h
  · exact ⟨c.stack t, hmem, h⟩

theorem mem_threads_succ {s : σ} {first : List ι} {threads : List (List ι)} {t : Nat} {i : ι}
    (h : (⟨s, first :: threads⟩ : Config σ ι).Active (t + 1) i) : ∃ stack ∈ threads, i ∈ stack := by
  have hactive : (⟨s, threads⟩ : Config σ ι).Active t i := h
  exact mem_threads hactive

theorem All.of_active {c : Config σ ι} {P : ι → Prop} (h : c.All P) {t : Nat} {i : ι}
    (hactive : c.Active t i) : P i := by
  obtain ⟨stack, hstack, hi⟩ := mem_threads hactive
  exact h stack hstack i hi

theorem all_of_active {c : Config σ ι} {P : ι → Prop} (h : ∀ t i, c.Active t i → P i) :
    c.All P := by
  intro stack hmem i hi
  obtain ⟨t, ht, rfl⟩ := List.mem_iff_getElem.mp hmem
  exact h t i (by simpa [Active, Config.stack, ht] using hi)

theorem exists_active {c : Config σ ι} {i : ι} :
    (∃ t, c.Active t i) ↔ ∃ stack ∈ c.threads, i ∈ stack := by
  constructor
  · rintro ⟨t, h⟩
    exact mem_threads h
  · rintro ⟨stack, hmem, hi⟩
    obtain ⟨t, ht, rfl⟩ := List.mem_iff_getElem.mp hmem
    exact ⟨t, by simpa [Active, Config.stack, ht] using hi⟩

instance (c : Config σ ι) (t : Nat) (i : ι) [DecidableEq ι] : Decidable (c.Active t i) :=
  inferInstanceAs (Decidable (i ∈ c.stack t))

instance (c : Config σ ι) (i : ι) [DecidableEq ι] : Decidable (∃ t, c.Active t i) :=
  decidable_of_iff _ exists_active.symm

instance (c : Config σ ι) (P : ι → Prop) [DecidablePred P] : Decidable (∃ t i, c.Active t i ∧ P i) :=
  decidable_of_iff (∃ stack ∈ c.threads, ∃ i ∈ stack, P i) <| by
    constructor
    · rintro ⟨stack, hstack, i, hi, hP⟩
      obtain ⟨t, hactive⟩ := exists_active.mpr ⟨stack, hstack, hi⟩
      exact ⟨t, i, hactive, hP⟩
    · rintro ⟨t, i, hactive, hP⟩
      obtain ⟨stack, hstack, hi⟩ := mem_threads hactive
      exact ⟨stack, hstack, i, hi, hP⟩

theorem eq_of_active_replicate {s : σ} {first : List ι} {n t : Nat} {i j : ι}
    (h : (⟨s, first :: List.replicate n [i]⟩ : Config σ ι).Active (t + 1) j) : j = i := by
  rw [Active, stack, List.getD_cons_succ, List.getD] at h
  cases hget : (List.replicate n [i])[t]? with
  | none => simp [hget] at h
  | some stack =>
    rw [hget, Option.getD_some] at h
    obtain ⟨-, rfl⟩ := List.mem_replicate.mp (List.mem_of_getElem? hget)
    exact List.mem_singleton.mp h

theorem replace_stack (c : Config σ ι) (t : Nat) : c.replace t c.shared (c.stack t) = c := by
  by_cases ht : t < c.threads.length
  · have hget : c.stack t = c.threads[t] := by simp [stack, ht]
    rw [replace, hget, List.set_getElem_self]
  · rw [replace, List.set_eq_of_length_le (Nat.not_lt.mp ht)]

section Top

variable {c : Config σ ι} {t : Nat} {i : ι} {rest : List ι}

theorem lt_length_of_top (htop : c.stack t = i :: rest) : t < c.threads.length := by
  by_contra h
  simp [stack, List.getD, List.getElem?_eq_none (Nat.not_lt.mp h)] at htop

theorem stack_replace_self (htop : c.stack t = i :: rest) (s : σ) (stack : List ι) :
    (c.replace t s stack).stack t = stack := by
  simp [Config.stack, replace, List.getD, lt_length_of_top htop]

theorem active_of_top (htop : c.stack t = i :: rest) : c.Active t i := by
  simp [Active, htop]

theorem replace_top (htop : c.stack t = i :: rest) : c.replace t c.shared (i :: rest) = c := by
  rw [← htop, replace_stack]

theorem active_of_replace (htop : c.stack t = i :: rest) {s : σ} {pushed : List ι} {t' : Nat}
    {j : ι} (h : (c.replace t s (pushed ++ rest)).Active t' j) :
    (t' = t ∧ j ∈ pushed) ∨ c.Active t' j := by
  by_cases ht : t' = t
  · subst ht
    rw [Active, stack_replace_self htop, List.mem_append] at h
    cases h with
    | inl h => exact .inl ⟨rfl, h⟩
    | inr h => exact .inr (by simp [Active, htop, h])
  · rw [Active, stack_replace_ne _ _ _ ht] at h
    exact .inr h

theorem active_replace (htop : c.stack t = i :: rest) (s : σ) (pushed : List ι) {t' : Nat} {j : ι}
    (h : c.Active t' j) :
    (t' = t ∧ j = i) ∨ (c.replace t s (pushed ++ rest)).Active t' j := by
  by_cases ht : t' = t
  · subst ht
    rw [Active, htop, List.mem_cons] at h
    cases h with
    | inl h => exact .inl ⟨rfl, h⟩
    | inr h => exact .inr (by simp [Active, stack_replace_self htop, h])
  · refine .inr ?_
    rw [Active, stack_replace_ne _ _ _ ht]
    exact h

theorem active_replace_of_ne (htop : c.stack t = i :: rest) (s : σ) (pushed : List ι) {t' : Nat}
    {j : ι} (h : c.Active t' j) (hne : j ≠ i) : (c.replace t s (pushed ++ rest)).Active t' j :=
  (active_replace htop s pushed h).resolve_left fun heq => hne heq.2

theorem active_replace_of_pushed (htop : c.stack t = i :: rest) (s : σ) {pushed : List ι} {j : ι}
    (h : j ∈ pushed) : (c.replace t s (pushed ++ rest)).Active t j := by
  simp [Active, stack_replace_self htop, h]

end Top

/-! ### Instructions that are only ever the next one of their thread -/

def HeadOnly (P : ι → Prop) (c : Config σ ι) : Prop := ∀ t, ∀ j ∈ (c.stack t).tail, ¬P j

theorem length_stack_le {c : Config σ ι} {n : Nat} (h : ∀ stack ∈ c.threads, stack.length ≤ n)
    (t : Nat) : (c.stack t).length ≤ n := by
  obtain hnil | hmem := c.stack_eq_nil_or_mem t
  · rw [hnil]
    exact Nat.zero_le n
  · exact h _ hmem

theorem HeadOnly.of_length {P : ι → Prop} {c : Config σ ι}
    (h : ∀ stack ∈ c.threads, stack.length ≤ 1) : c.HeadOnly P := by
  intro t j hj
  have hle := length_stack_le h t
  have hlength := List.length_pos_of_mem hj
  rw [List.length_tail] at hlength
  omega

theorem HeadOnly.eq_top {P : ι → Prop} {c : Config σ ι} (h : c.HeadOnly P) {t : Nat} {i j : ι}
    {rest : List ι} (htop : c.stack t = i :: rest) (hj : c.Active t j) (hP : P j) : j = i := by
  rw [Active, htop, List.mem_cons] at hj
  cases hj with
  | inl hj => exact hj
  | inr hj => exact absurd hP (h t j (by rw [htop]; exact hj))

theorem HeadOnly.replace {P : ι → Prop} {c : Config σ ι} (h : c.HeadOnly P) {t : Nat} {i : ι}
    {rest : List ι} (htop : c.stack t = i :: rest) {s : σ} {pushed : List ι}
    (hpushed : ∀ j ∈ pushed.tail, ¬P j) : (c.replace t s (pushed ++ rest)).HeadOnly P := by
  have hrest : ∀ j ∈ rest, ¬P j := by simpa [htop] using h t
  intro t' j hj
  by_cases ht : t' = t
  · subst ht
    rw [stack_replace_self htop] at hj
    cases pushed with
    | nil => exact hrest j (List.mem_of_mem_tail hj)
    | cons p pushed =>
      rw [List.cons_append, List.tail_cons, List.mem_append] at hj
      cases hj with
      | inl hj => exact hpushed j hj
      | inr hj => exact hrest j hj
  · rw [stack_replace_ne _ _ _ ht] at hj
    exact h t' j hj

/-! ### Instructions that only ever are the last ones of their thread -/

def LastOnly (P : ι → Prop) (c : Config σ ι) : Prop := ∀ t, ∀ j ∈ (c.stack t).dropLast, ¬P j

theorem LastOnly.of_length {P : ι → Prop} {c : Config σ ι}
    (h : ∀ stack ∈ c.threads, stack.length ≤ 1) : c.LastOnly P := by
  intro t j hj
  have hle := length_stack_le h t
  have hlength := List.length_pos_of_mem hj
  rw [List.length_dropLast] at hlength
  omega

theorem LastOnly.rest_eq_nil {P : ι → Prop} {c : Config σ ι} (h : c.LastOnly P) {t : Nat} {i : ι}
    {rest : List ι} (htop : c.stack t = i :: rest) (hP : P i) : rest = [] := by
  cases rest with
  | nil => rfl
  | cons j rest => exact absurd hP (h t i (by rw [htop]; exact List.mem_cons_self ..))

theorem LastOnly.replace {P : ι → Prop} {c : Config σ ι} (h : c.LastOnly P) {t : Nat} {i : ι}
    {rest : List ι} (htop : c.stack t = i :: rest) {s : σ} {pushed : List ι}
    (hlast : ∀ j ∈ pushed.dropLast, ¬P j) (hpushed : P i ∨ ∀ j ∈ pushed, ¬P j) :
    (c.replace t s (pushed ++ rest)).LastOnly P := by
  intro t' j hj
  by_cases ht : t' = t
  · subst ht
    rw [stack_replace_self htop] at hj
    by_cases hrest : rest = []
    · rw [hrest, List.append_nil] at hj
      exact hlast j hj
    · rw [List.dropLast_append_of_ne_nil hrest, List.mem_append] at hj
      cases hj with
      | inl hj => exact (hpushed.resolve_left fun hP => hrest (h.rest_eq_nil htop hP)) j hj
      | inr hj =>
        refine h t' j ?_
        rw [htop, List.dropLast_cons_of_ne_nil hrest]
        exact List.mem_cons_of_mem i hj
  · rw [stack_replace_ne _ _ _ ht] at hj
    exact h t' j hj

/-! ### Instructions that are never on one stack -/

def Apart (P Q : ι → Prop) (c : Config σ ι) : Prop :=
  ∀ t, (∀ j ∈ c.stack t, ¬P j) ∨ ∀ j ∈ c.stack t, ¬Q j

theorem Apart.replace {P Q : ι → Prop} {c : Config σ ι} (h : c.Apart P Q) {t : Nat} {i : ι}
    {rest : List ι} (htop : c.stack t = i :: rest) {s : σ} {pushed : List ι}
    (hP : P i ∨ rest = [] ∨ ∀ j ∈ pushed, ¬P j) (hQ : Q i ∨ rest = [] ∨ ∀ j ∈ pushed, ¬Q j)
    (hpushed : (∀ j ∈ pushed, ¬P j) ∨ ∀ j ∈ pushed, ¬Q j) :
    (c.replace t s (pushed ++ rest)).Apart P Q := by
  intro t'
  by_cases ht : t' = t
  · subst ht
    have happend {R : ι → Prop} (hfirst : ∀ j ∈ pushed, ¬R j) (hrest : ∀ j ∈ rest, ¬R j) :
        ∀ j ∈ pushed ++ rest, ¬R j :=
      fun j hj => (List.mem_append.mp hj).elim (hfirst j) (hrest j)
    have hold := h t'
    rw [htop, List.forall_mem_cons, List.forall_mem_cons] at hold
    rw [stack_replace_self htop]
    by_cases hrest : rest = []
    · subst hrest
      simpa using hpushed
    · obtain ⟨hi, hnone⟩ | ⟨hi, hnone⟩ := hold
      · exact .inl (happend ((hP.resolve_left hi).resolve_left hrest) hnone)
      · exact .inr (happend ((hQ.resolve_left hi).resolve_left hrest) hnone)
  · rw [stack_replace_ne _ _ _ ht]
    exact h t'

/-! ### Instructions that others follow on the stack -/

def followed (p q : ι → Bool) : List ι → Bool
  | [] => true
  | i :: rest => (!p i || rest.any q) && followed p q rest

theorem followed_append_of_any {p q : ι → Bool} {rest : List ι} (h : followed p q rest = true)
    (hany : rest.any q = true) (pushed : List ι) : followed p q (pushed ++ rest) = true := by
  induction pushed with
  | nil => exact h
  | cons i pushed ih => simp [followed, ih, hany]

theorem followed_append {p q : ι → Bool} {pushed rest : List ι}
    (hpushed : followed p q pushed = true) (h : followed p q rest = true) :
    followed p q (pushed ++ rest) = true := by
  induction pushed with
  | nil => exact h
  | cons i pushed ih =>
    simp only [followed, Bool.and_eq_true, Bool.or_eq_true, List.cons_append, List.any_append]
      at hpushed ⊢
    exact ⟨hpushed.1.imp_right .inl, ih hpushed.2⟩

theorem followed_of_forall {p q : ι → Bool} {stack : List ι} (h : ∀ i ∈ stack, p i = false) :
    followed p q stack = true := by
  induction stack with
  | nil => rfl
  | cons i stack ih =>
    rw [followed, h i (List.mem_cons_self ..), ih fun j hj => h j (List.mem_cons_of_mem i hj)]
    rfl

def Followed (p q : ι → Bool) (c : Config σ ι) : Prop := ∀ t, followed p q (c.stack t) = true

theorem Followed.any_of_top {p q : ι → Bool} {c : Config σ ι} (h : c.Followed p q) {t : Nat}
    {i : ι} {rest : List ι} (htop : c.stack t = i :: rest) (hi : p i = true) :
    rest.any q = true := by
  have htrue := h t
  rw [htop, followed, hi] at htrue
  exact (Bool.and_eq_true_iff.mp htrue).1

theorem Followed.replace {p q : ι → Bool} {c : Config σ ι} (h : c.Followed p q) {t : Nat} {i : ι}
    {rest : List ι} (htop : c.stack t = i :: rest) {s : σ} {pushed : List ι}
    (hpushed : p i = true ∨ followed p q pushed = true) :
    (c.replace t s (pushed ++ rest)).Followed p q := by
  have hrest : followed p q rest = true := by
    have htrue := h t
    rw [htop, followed] at htrue
    exact (Bool.and_eq_true_iff.mp htrue).2
  intro t'
  by_cases ht : t' = t
  · subst ht
    rw [stack_replace_self htop]
    cases hpushed with
    | inl hi => exact followed_append_of_any hrest (h.any_of_top htop hi) pushed
    | inr hpushed => exact followed_append hpushed hrest
  · rw [stack_replace_ne _ _ _ ht]
    exact h t'

/-- Whatever satisfies `p` has only what satisfies `q` below it. -/
def covering (p q : ι → Bool) : List ι → Bool
  | [] => true
  | i :: rest => (!p i || rest.all q) && covering p q rest

theorem covering_append {p q : ι → Bool} {pushed rest : List ι} (h : covering p q rest = true)
    (hpushed : covering p q pushed = true)
    (hrest : rest.all q = true ∨ pushed.all (fun j => !p j) = true) :
    covering p q (pushed ++ rest) = true := by
  induction pushed with
  | nil => exact h
  | cons i pushed ih =>
    simp only [covering, Bool.and_eq_true, Bool.or_eq_true, List.cons_append, List.all_append,
      List.all_cons] at hpushed hrest ⊢
    refine ⟨?_, ih hpushed.2 (hrest.imp_right And.right)⟩
    cases hrest with
    | inl hrest => exact hpushed.1.imp_right fun hq => ⟨hq, hrest⟩
    | inr hnot => exact .inl hnot.1

theorem covering_of_all {p q : ι → Bool} {stack : List ι} (h : stack.all (fun j => !p j) = true) :
    covering p q stack = true := by
  induction stack with
  | nil => rfl
  | cons i stack ih =>
    rw [List.all_cons, Bool.and_eq_true] at h
    rw [covering, h.1, ih h.2]
    rfl

def Covering (p q : ι → Bool) (c : Config σ ι) : Prop := ∀ t, covering p q (c.stack t) = true

theorem Covering.of_top {p q : ι → Bool} {c : Config σ ι} (h : c.Covering p q) {t : Nat} {i : ι}
    {rest : List ι} (htop : c.stack t = i :: rest) :
    (p i = true → rest.all q = true) ∧ covering p q rest = true := by
  have htrue := h t
  rw [htop, covering] at htrue
  obtain ⟨hi, hrest⟩ := Bool.and_eq_true_iff.mp htrue
  refine ⟨fun hp => ?_, hrest⟩
  rw [hp] at hi
  exact hi

theorem Covering.replace {p q : ι → Bool} {c : Config σ ι} (h : c.Covering p q) {t : Nat} {i : ι}
    {rest : List ι} (htop : c.stack t = i :: rest) {s : σ} {pushed : List ι}
    (hpushed : covering p q pushed = true)
    (hp : p i = true ∨ pushed.all (fun j => !p j) = true) :
    (c.replace t s (pushed ++ rest)).Covering p q := by
  obtain ⟨hi, hrest⟩ := h.of_top htop
  intro t'
  by_cases ht : t' = t
  · subst ht
    rw [stack_replace_self htop]
    exact covering_append hrest hpushed (hp.imp_left hi)
  · rw [stack_replace_ne _ _ _ ht]
    exact h t'

def heads {κ : Type*} (view : ι → Option κ) (c : Config σ ι) : Nat → Option κ :=
  fun t => (c.stack t).head?.bind view

theorem heads_of_top {κ : Type*} (view : ι → Option κ) {c : Config σ ι} {t : Nat} {i : ι}
    {rest : List ι} (htop : c.stack t = i :: rest) : c.heads view t = view i := by
  rw [heads, htop, List.head?_cons, Option.bind_some]

theorem exists_of_heads {κ : Type*} {view : ι → Option κ} {c : Config σ ι} {t : Nat} {k : κ}
    (h : c.heads view t = some k) : ∃ i rest, c.stack t = i :: rest ∧ view i = some k := by
  obtain ⟨i, hhead, hview⟩ := Option.bind_eq_some_iff.mp h
  obtain ⟨rest, htop⟩ := List.head?_eq_some_iff.mp hhead
  exact ⟨i, rest, htop, hview⟩

theorem heads_replace {κ : Type*} {view : ι → Option κ} {c : Config σ ι}
    (h : c.HeadOnly fun i => (view i).isSome) {t : Nat} {i : ι} {rest : List ι}
    (htop : c.stack t = i :: rest) (s : σ) (pushed : List ι) :
    (c.replace t s (pushed ++ rest)).heads view =
      Function.update (c.heads view) t (pushed.head?.bind view) := by
  funext t'
  by_cases ht : t' = t
  · subst ht
    rw [heads, stack_replace_self htop, Function.update_self]
    cases pushed with
    | nil =>
      cases rest with
      | nil => rfl
      | cons j rest => simpa using h t' j (by rw [htop]; exact List.mem_cons_self ..)
    | cons j pushed => rfl
  · rw [heads, stack_replace_ne _ _ _ ht, Function.update_of_ne ht, heads]

/-! ### A configuration as one of another machine -/

/-- Each instruction is seen as the instructions `f` makes of it. -/
def project {τ κ : Type*} (g : σ → τ) (f : ι → List κ) (c : Config σ ι) : Config τ κ :=
  ⟨g c.shared, c.threads.map (·.flatMap f)⟩

theorem stack_project {τ κ : Type*} (g : σ → τ) (f : ι → List κ) (c : Config σ ι) (t : Nat) :
    (c.project g f).stack t = (c.stack t).flatMap f := by
  simp only [stack, project, List.getD_eq_getElem?_getD, List.getElem?_map]
  cases c.threads[t]? <;> rfl

theorem project_replace {τ κ : Type*} (g : σ → τ) (f : ι → List κ) (c : Config σ ι) (t : Nat)
    (s : σ) (stack : List ι) :
    (c.replace t s stack).project g f = (c.project g f).replace t (g s) (stack.flatMap f) := by
  simp only [project, replace, List.map_set]

theorem stack_project_top {τ κ : Type*} (g : σ → τ) (f : ι → List κ) {c : Config σ ι} {t : Nat}
    {i : ι} {rest : List ι} (htop : c.stack t = i :: rest) :
    (c.project g f).stack t = f i ++ rest.flatMap f := by
  rw [stack_project, htop, List.flatMap_cons]

theorem project_replace_append {τ κ : Type*} (g : σ → τ) (f : ι → List κ) (c : Config σ ι)
    (t : Nat) (s : σ) (pushed rest : List ι) :
    (c.replace t s (pushed ++ rest)).project g f =
      (c.project g f).replace t (g s) (pushed.flatMap f ++ rest.flatMap f) := by
  rw [project_replace, List.flatMap_append]

theorem active_project {τ κ : Type*} (g : σ → τ) {f : ι → List κ} {c : Config σ ι} {t : Nat}
    {i : ι} (h : c.Active t i) {j : κ} (hj : j ∈ f i) : (c.project g f).Active t j := by
  rw [Active, stack_project]
  exact List.mem_flatMap.mpr ⟨i, h, hj⟩

theorem threads_project_replace {τ κ : Type*} {g : σ → τ} {f : ι → List κ} {c : Config σ ι}
    {t : Nat} {i : ι} {rest : List ι} (htop : c.stack t = i :: rest) (hi : f i = []) (s : σ) :
    ((c.replace t s rest).project g f).threads = (c.project g f).threads := by
  have hget : (c.threads[t]?).getD [] = i :: rest := by
    rwa [stack, List.getD_eq_getElem?_getD] at htop
  simp only [project, replace, List.map_set]
  refine List.ext_getElem? fun t' => ?_
  by_cases ht : t = t'
  · subst ht
    cases hsome : c.threads[t]? with
    | none => simp [hsome] at hget
    | some stack =>
      rw [hsome, Option.getD_some] at hget
      obtain ⟨hlt, -⟩ := List.getElem?_eq_some_iff.mp hsome
      rw [List.getElem?_set_self (by rwa [List.length_map]), List.getElem?_map, hsome, hget]
      simp [hi]
  · rw [List.getElem?_set_ne ht]

/-! ### Counting tokens -/

def weigh (w : ι → Nat) (stack : List ι) : Nat := (stack.map w).sum

@[simp] theorem weigh_nil (w : ι → Nat) : weigh w [] = 0 := rfl

@[simp] theorem weigh_cons (w : ι → Nat) (i : ι) (stack : List ι) :
    weigh w (i :: stack) = w i + weigh w stack := by
  simp [weigh]

@[simp] theorem weigh_append (w : ι → Nat) (a b : List ι) :
    weigh w (a ++ b) = weigh w a + weigh w b := by
  simp [weigh]

theorem le_weigh {w : ι → Nat} {i : ι} {stack : List ι} (h : i ∈ stack) : w i ≤ weigh w stack := by
  induction stack with
  | nil => cases h
  | cons j stack ih =>
    rw [weigh_cons]
    cases h with
    | head => omega
    | tail _ h => have := ih h; omega

theorem weigh_eq_zero {w : ι → Nat} {stack : List ι} (h : ∀ i ∈ stack, w i = 0) :
    weigh w stack = 0 := by
  induction stack with
  | nil => rfl
  | cons i stack ih =>
    rw [weigh_cons, h i (List.mem_cons_self ..), ih fun j hj => h j (List.mem_cons_of_mem i hj)]

def total (w : ι → Nat) (c : Config σ ι) : Nat := (c.threads.map (weigh w)).sum

theorem total_eq_zero {w : ι → Nat} {c : Config σ ι} (h : ∀ t i, c.Active t i → w i = 0) :
    c.total w = 0 := by
  exact weigh_eq_zero fun stack hstack => weigh_eq_zero (all_of_active h stack hstack)

theorem sum_set (w : ι → Nat) (threads : List (List ι)) (t : Nat) (stack : List ι)
    (ht : t < threads.length) :
    ((threads.set t stack).map (weigh w)).sum + weigh w (threads.getD t []) =
      (threads.map (weigh w)).sum + weigh w stack := by
  induction threads generalizing t with
  | nil => simp at ht
  | cons first threads ih =>
    cases t with
    | zero => simp; omega
    | succ t =>
      have := ih t (by simpa using ht)
      simp only [List.set_cons_succ, List.map_cons, List.sum_cons, List.getD_cons_succ]
      omega

theorem total_replace (w : ι → Nat) {c : Config σ ι} {t : Nat} {i : ι} {rest : List ι}
    (htop : c.stack t = i :: rest) (s : σ) (pushed : List ι) :
    (c.replace t s (pushed ++ rest)).total w + w i = c.total w + weigh w pushed := by
  have h := sum_set w c.threads t (pushed ++ rest) (lt_length_of_top htop)
  have hstack : c.threads.getD t [] = i :: rest := htop
  rw [hstack, weigh_cons, weigh_append] at h
  simp only [total, Config.replace]
  omega

theorem le_total {w : ι → Nat} {c : Config σ ι} {t : Nat} {i : ι} (h : c.Active t i) :
    w i ≤ c.total w := by
  have hi : w i ≤ weigh w (c.stack t) := le_weigh h
  have ht : t < c.threads.length := by
    by_contra hlen
    simp [Active, stack, List.getD, List.getElem?_eq_none (Nat.not_lt.mp hlen)] at h
  have hset := sum_set w c.threads t [] ht
  rw [weigh_nil] at hset
  simp only [total, stack] at hi ⊢
  omega

theorem weigh_add_le_total {w : ι → Nat} {c : Config σ ι} {t : Nat} {i : ι} {rest : List ι}
    (htop : c.stack t = i :: rest) {s : σ} {pushed : List ι} {t' : Nat} {j : ι}
    (h : (c.replace t s (pushed ++ rest)).Active t' j) (hj : j ∉ pushed) :
    w i + w j ≤ c.total w := by
  have hnil := total_replace w htop s []
  have hactive : (c.replace t s ([] ++ rest)).Active t' j := by
    by_cases ht : t' = t
    · subst ht
      rw [Active, stack_replace_self htop, List.mem_append] at h
      rw [Active, stack_replace_self htop]
      exact h.resolve_left hj
    · rw [Active, stack_replace_ne _ _ _ ht] at h ⊢
      exact h
  have := le_total (w := w) hactive
  rw [weigh_nil] at hnil
  omega

/-- No thread holds more than one token. -/
def Slim (w : ι → Nat) (c : Config σ ι) : Prop := ∀ t, weigh w (c.stack t) ≤ 1

theorem Slim.replace {w : ι → Nat} {c : Config σ ι} (h : c.Slim w) {t : Nat} {i : ι}
    {rest : List ι} (htop : c.stack t = i :: rest) {s : σ} {pushed : List ι}
    (hpushed : weigh w pushed ≤ w i ∨ rest = [] ∧ weigh w pushed ≤ 1) :
    (c.replace t s (pushed ++ rest)).Slim w := by
  intro t'
  by_cases ht : t' = t
  · subst ht
    have hle := h t'
    rw [htop, weigh_cons] at hle
    rw [stack_replace_self htop, weigh_append]
    obtain hpushed | ⟨rfl, hpushed⟩ := hpushed
    · omega
    · exact hpushed
  · rw [stack_replace_ne _ _ _ ht]
    exact h t'

theorem weigh_le_add {w w₁ w₂ : ι → Nat} (h : ∀ i, w i ≤ w₁ i + w₂ i) (stack : List ι) :
    weigh w stack ≤ weigh w₁ stack + weigh w₂ stack := by
  induction stack with
  | nil => exact Nat.le_refl _
  | cons i stack ih =>
    have := h i
    rw [weigh_cons, weigh_cons, weigh_cons]
    omega

theorem total_le_add {w w₁ w₂ : ι → Nat} (h : ∀ i, w i ≤ w₁ i + w₂ i) (c : Config σ ι) :
    c.total w ≤ c.total w₁ + c.total w₂ :=
  weigh_le_add (w := weigh w) (weigh_le_add h) c.threads

theorem weigh_le_length {w : ι → Nat} {stack : List ι} (h : ∀ i ∈ stack, w i ≤ 1) :
    weigh w stack ≤ stack.length := by
  induction stack with
  | nil => exact Nat.le_refl _
  | cons i stack ih =>
    have hi := h i (List.mem_cons_self ..)
    have := ih fun j hj => h j (List.mem_cons_of_mem i hj)
    rw [weigh_cons, List.length_cons]
    omega

theorem Slim.total_le {w : ι → Nat} {c : Config σ ι} (h : c.Slim w) :
    c.total w ≤ c.threads.length := by
  refine weigh_le_length (w := weigh w) fun stack hmem => ?_
  obtain ⟨t, ht, rfl⟩ := List.mem_iff_getElem.mp hmem
  simpa [Config.stack, ht] using h t

theorem eq_or_add_le_total {w : ι → Nat} {c : Config σ ι} {t : Nat} {i : ι} {rest : List ι}
    (htop : c.stack t = i :: rest) {t' : Nat} {j : ι} (h : c.Active t' j) :
    j = i ∨ w i + w j ≤ c.total w := by
  obtain ⟨-, heq⟩ | hrest := active_replace htop c.shared [] h
  · exact .inl heq
  · exact .inr (weigh_add_le_total htop hrest (List.not_mem_nil))

end Config

namespace Machine

variable {σ : Type u} {ι : Type v} {χ : Type w} (M : Machine σ ι χ)

inductive Step (c : Config σ ι) (t : Nat) (i : ι) : Config σ ι → Prop
  | exec {rest : List ι} {x : χ} {s : σ} {pushed : List ι} (top : c.stack t = i :: rest)
      (exec : M.exec t i x c.shared = some (s, pushed)) :
      Step c t i (c.replace t s (pushed ++ rest))

/-- The configurations that steps lead to, each of them taken under `ok`. -/
inductive Run (ok : Config σ ι → Nat → ι → Prop) (c₀ : Config σ ι) : Config σ ι → Prop
  | start : Run ok c₀ c₀
  | step {c c' : Config σ ι} {t : Nat} {i : ι} (run : Run ok c₀ c) (allowed : ok c t i)
      (step : M.Step c t i c') : Run ok c₀ c'

abbrev Reaches (c₀ c : Config σ ι) : Prop := M.Run (fun _ _ _ => True) c₀ c

variable {M} {ok : Config σ ι → Nat → ι → Prop} {c₀ c : Config σ ι}

theorem Run.invariant {I : Config σ ι → Prop} (h : M.Run ok c₀ c) (hstart : I c₀)
    (hstep : ∀ {c c' t i}, I c → ok c t i → M.Step c t i c' → I c') : I c := by
  induction h with
  | start => exact hstart
  | step _ allowed step ih => exact hstep ih allowed step

theorem Run.trans {c' : Config σ ι} (h : M.Run ok c₀ c) (h' : M.Run ok c c') : M.Run ok c₀ c' := by
  induction h' with
  | start => exact h
  | step _ allowed step ih => exact .step ih allowed step

theorem Run.mono {ok' : Config σ ι → Nat → ι → Prop} (h : M.Run ok c₀ c)
    (hok : ∀ c t i, ok c t i → ok' c t i) : M.Run ok' c₀ c := by
  induction h with
  | start => exact .start
  | step _ allowed step ih => exact .step ih (hok _ _ _ allowed) step

theorem Run.reaches (h : M.Run ok c₀ c) : M.Reaches c₀ c := h.mono fun _ _ _ _ => trivial

/-! ### The steps of a run -/

variable (M)

/-- A run with the threads and the instructions of its steps, in order. -/
inductive Trace (c₀ : Config σ ι) : List (Nat × ι) → Config σ ι → Prop
  | start : Trace c₀ [] c₀
  | step {steps : List (Nat × ι)} {c c' : Config σ ι} {t : Nat} {i : ι} (trace : Trace c₀ steps c)
      (step : M.Step c t i c') : Trace c₀ (steps ++ [(t, i)]) c'

variable {M} {steps : List (Nat × ι)}

theorem Trace.reaches (h : M.Trace c₀ steps c) : M.Reaches c₀ c := by
  induction h with
  | start => exact .start
  | step _ step ih => exact .step ih trivial step

theorem Trace.trans {steps' : List (Nat × ι)} {c' : Config σ ι} (h : M.Trace c₀ steps c)
    (h' : M.Trace c steps' c') : M.Trace c₀ (steps ++ steps') c' := by
  induction h' with
  | start =>
    rw [List.append_nil]
    exact h
  | step _ step ih =>
    rw [← List.append_assoc]
    exact .step ih step

theorem Trace.invariant {I : List (Nat × ι) → Config σ ι → Prop} (h : M.Trace c₀ steps c)
    (hstart : I [] c₀)
    (hstep : ∀ {steps c c' t i}, I steps c → M.Step c t i c' → I (steps ++ [(t, i)]) c') :
    I steps c := by
  induction h with
  | start => exact hstart
  | step _ step ih => exact hstep ih step

/-! ### Following a schedule -/

variable (M)

def next (c : Config σ ι) (t : Nat) (x : χ) : Option (Config σ ι) :=
  match c.stack t with
  | [] => none
  | i :: rest => (M.exec t i x c.shared).map fun r => c.replace t r.1 (r.2 ++ rest)

def schedule (c : Config σ ι) : List (Nat × χ) → Option (Config σ ι)
  | [] => some c
  | (t, x) :: moves => (M.next c t x).bind fun c => schedule c moves

/-- Where the moves lead to, or `c` itself when one of them cannot be made. -/
def follow (c : Config σ ι) (moves : List (Nat × χ)) : Config σ ι := (M.schedule c moves).getD c

def Permits (ok : Config σ ι → Nat → ι → Prop) (c : Config σ ι) : List (Nat × χ) → Prop
  | [] => True
  | (t, x) :: moves =>
    (∀ i ∈ (c.stack t).head?, ok c t i) ∧ ∀ c' ∈ M.next c t x, Permits ok c' moves

instance decidablePermits (ok : Config σ ι → Nat → ι → Prop) [∀ c t i, Decidable (ok c t i)] :
    (c : Config σ ι) → (moves : List (Nat × χ)) → Decidable (M.Permits ok c moves)
  | _, [] => .isTrue trivial
  | c, (t, x) :: moves =>
    have : ∀ c', Decidable (M.Permits ok c' moves) := fun c' => decidablePermits ok c' moves
    inferInstanceAs (Decidable
      ((∀ i ∈ (c.stack t).head?, ok c t i) ∧ ∀ c' ∈ M.next c t x, M.Permits ok c' moves))

def taken (c : Config σ ι) : List (Nat × χ) → List (Nat × ι)
  | [] => []
  | (t, x) :: moves =>
    match (c.stack t).head?, M.next c t x with
    | some i, some c => (t, i) :: taken c moves
    | _, _ => []

variable {M}

theorem step_of_next {c' : Config σ ι} {t : Nat} {x : χ} (h : M.next c t x = some c') :
    ∃ i ∈ (c.stack t).head?, M.Step c t i c' := by
  rw [next] at h
  split at h
  · cases h
  · rename_i i rest htop
    obtain ⟨⟨s, pushed⟩, hexec, rfl⟩ := Option.map_eq_some_iff.mp h
    exact ⟨i, by rw [htop]; rfl, .exec htop hexec⟩

theorem exec_of_next {c' : Config σ ι} {t : Nat} {x : χ} (h : M.next c t x = some c') :
    ∃ i rest s pushed, c.stack t = i :: rest ∧ M.exec t i x c.shared = some (s, pushed) ∧
      c' = c.replace t s (pushed ++ rest) := by
  rw [next] at h
  split at h
  · cases h
  · rename_i i rest htop
    obtain ⟨⟨s, pushed⟩, hexec, rfl⟩ := Option.map_eq_some_iff.mp h
    exact ⟨i, rest, s, pushed, htop, hexec, rfl⟩

theorem Run.next {c' : Config σ ι} {t : Nat} {x : χ} (h : M.Run ok c₀ c)
    (hok : ∀ i ∈ (c.stack t).head?, ok c t i) (hnext : M.next c t x = some c') :
    M.Run ok c₀ c' := by
  obtain ⟨i, hhead, hstep⟩ := step_of_next hnext
  exact .step h (hok i hhead) hstep

theorem step_follow {t : Nat} {i : ι} {x : χ} (hhead : (c.stack t).head? = some i)
    (h : (M.next c t x).isSome) : M.Step c t i (M.follow c [(t, x)]) := by
  obtain ⟨c', hc'⟩ := Option.isSome_iff_exists.mp h
  obtain ⟨i', hi', hstep⟩ := step_of_next hc'
  obtain rfl : i' = i := Option.some.inj (hi'.symm.trans hhead)
  simpa [follow, schedule, hc'] using hstep

theorem trace_of_schedule {moves : List (Nat × χ)} {c' : Config σ ι}
    (h : M.schedule c moves = some c') : M.Trace c (M.taken c moves) c' := by
  induction moves generalizing c with
  | nil =>
    cases h
    exact .start
  | cons move moves ih =>
    obtain ⟨c₁, hnext, hrest⟩ := Option.bind_eq_some_iff.mp h
    obtain ⟨i, hhead, hstep⟩ := step_of_next hnext
    rw [taken, Option.mem_def.mp hhead, hnext]
    exact (Trace.step .start hstep).trans (ih hrest)

theorem trace_follow {moves : List (Nat × χ)} (h : (M.schedule c moves).isSome) :
    M.Trace c (M.taken c moves) (M.follow c moves) := by
  obtain ⟨c', hc'⟩ := Option.isSome_iff_exists.mp h
  rw [follow, hc']
  exact trace_of_schedule hc'

theorem run_of_schedule {moves : List (Nat × χ)} {c' : Config σ ι}
    (h : M.schedule c moves = some c') (hok : M.Permits ok c moves) : M.Run ok c c' := by
  induction moves generalizing c with
  | nil =>
    cases h
    exact .start
  | cons move moves ih =>
    obtain ⟨c₁, hnext, hrest⟩ := Option.bind_eq_some_iff.mp h
    obtain ⟨i, hhead, hstep⟩ := step_of_next hnext
    exact (Run.step .start (hok.1 i hhead) hstep).trans (ih hrest (hok.2 c₁ hnext))

theorem run_follow {moves : List (Nat × χ)} (hok : M.Permits ok c moves) :
    M.Run ok c (M.follow c moves) := by
  rw [follow]
  cases h : M.schedule c moves with
  | none => exact .start
  | some c' => exact run_of_schedule h hok

theorem permits_of_forall {moves : List (Nat × χ)} (h : ∀ c t i, ok c t i) :
    M.Permits ok c moves := by
  induction moves generalizing c with
  | nil => trivial
  | cons move moves ih => exact ⟨fun i _ => h c _ i, fun _ _ => ih⟩

theorem reaches_follow (moves : List (Nat × χ)) : M.Reaches c (M.follow c moves) :=
  run_follow (permits_of_forall fun _ _ _ => trivial)

end Machine

end UnixNotes.Library
