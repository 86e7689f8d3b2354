import UnixNotes.ThreadPool.Progress

namespace UnixNotes.ThreadPool

open Library

section Exec

variable {P : Process} {s s' : Shared} {i : Instr} {pushed : List Instr} {p : Nat}

theorem Effect.destroying (h : Effect P s i s' pushed) (hmem : .destroy p ∈ pushed) :
    i = .user ∧ pushed = [.destroy p, .user] ∧ p < P.count := by
  cases h with
  | destroys hp =>
    simp only [List.mem_cons, Instr.destroy.injEq, reduceCtorEq, List.not_mem_nil, or_self,
      or_false] at hmem
    subst hmem
    exact ⟨rfl, rfl, hp⟩
  | calls op hp code => obtain ⟨rfl, rfl⟩ | ⟨task, rfl⟩ := code <;> simp at hmem
  | returns self task | catches self packaged => cases self <;> simp at hmem
  | _ => simp at hmem

theorem Effect.joining (h : Effect P s i s' pushed) (hmem : .join p ∈ pushed) :
    i = .destroy p ∧ pushed = [.notifyAll p, .join p] := by
  cases h with
  | stops locked stopping =>
    simp only [List.mem_cons, reduceCtorEq, Instr.join.injEq, List.not_mem_nil, or_false,
      false_or] at hmem
    subst hmem
    exact ⟨rfl, rfl⟩
  | calls op hp code => obtain ⟨rfl, rfl⟩ | ⟨task, rfl⟩ := code <;> simp at hmem
  | returns self task | catches self packaged => cases self <;> simp at hmem
  | _ => simp at hmem

theorem Effect.wakesAll_nil (h : Effect P s (.notifyAll p) s' pushed) : pushed = [] := by
  cases h with
  | calls op hp code => obtain ⟨heq, -⟩ | ⟨_, heq⟩ := code <;> cases heq
  | wakesAll => rfl

theorem Effect.user (h : Effect P s i s' pushed) : (∀ j ∈ pushed.dropLast, ¬j = .user) ∧
    (i = .user ∨ ∀ j ∈ pushed, ¬j = .user) := by
  cases h with
  | calls op hp code => obtain ⟨rfl, rfl⟩ | ⟨task, rfl⟩ := code <;> simp
  | returns self task | catches self packaged => cases self <;> simp
  | _ => simp

theorem Effect.accepted (h : Effect P s i s' pushed) {owner : Option Worker}
    (hplaced : i.Placed P.count owner) (howner : ∀ w ∈ owner, w ∈ P.workers)
    (hold : ∀ a ∈ s.accepted, ∀ p, a.runner = some p → p < P.count) :
    ∀ a ∈ s'.accepted, ∀ p, a.runner = some p → p < P.count := by
  intro a ha p hrunner
  cases h with
  | pushes op locked stopping ok global =>
    obtain rfl | ha := List.mem_cons.mp ha
    · cases hrunner
      exact hplaced.2
    · exact hold a ha p hrunner
  | pushesOwner w op q task =>
    obtain rfl | ha := List.mem_cons.mp ha
    · cases hrunner
      exact (Process.mem_workers.mp (howner w hplaced.1.symm)).1
    · exact hold a ha p hrunner
  | runsHere task stopping =>
    obtain rfl | ha := List.mem_cons.mp ha
    · cases hrunner
    · exact hold a ha p hrunner
  | _ => exact hold a ha p hrunner

end Exec

/-- A user destroys one of the pools at a time, and tasks are accepted for them. -/
structure Destroying (P : Process) (c : Config) : Prop where
  user : c.LastOnly (· = .user)
  destroying : ∀ t p, c.Active t (.destroy p) → p < P.count ∧ c.stack t = [.destroy p, .user]
  joining : ∀ t p, c.Active t (.join p) → p < P.count ∧
    (c.stack t = [.join p, .user] ∨ c.stack t = [.notifyAll p, .join p, .user])
  accepted : ∀ a ∈ c.shared.accepted, ∀ p, a.runner = some p → p < P.count

theorem destroying_init {P : Process} {users : Nat} : Destroying P (P.init users) := by
  refine ⟨?_, ?_, ?_, fun a ha => absurd ha List.not_mem_nil⟩
  · intro t j hj
    cases htop : (P.init users).stack t with
    | nil =>
      rw [htop] at hj
      cases hj
    | cons i rest =>
      obtain ⟨rfl, -⟩ := init_stack htop
      rw [htop] at hj
      cases hj
  · intro t p hactive
    obtain ⟨_, -, heq⟩ | ⟨-, heq⟩ := init_active hactive <;> cases heq
  · intro t p hactive
    obtain ⟨_, -, heq⟩ | ⟨-, heq⟩ := init_active hactive <;> cases heq

section Step

variable {P : Process} {c c' : Config} {t : Nat} {i : Instr}

theorem Destroying.step (h : Destroying P c) (hthreads : Threads P c)
    (hstep : P.machine.Step c t i c') : Destroying P c' := by
  obtain ⟨rest, s, pushed, htop, heffect, rfl, -⟩ := hthreads.effect hstep
  have hactive := Library.Config.active_of_top htop
  have hplaced := hthreads.placed t i hactive
  have hbelow {j : Instr} (hmem : j ∈ rest) : c.Active t j := by
    rw [Library.Config.Active, htop]
    exact List.mem_cons_of_mem i hmem
  refine ⟨h.user.replace htop heffect.user.1 heffect.user.2, fun t' p hj => ?_, fun t' p hj => ?_,
    heffect.accepted hplaced getElem?_workers h.accepted⟩
  · by_cases ht : t' = t
    · subst ht
      rw [Library.Config.Active, Library.Config.stack_replace_self htop, List.mem_append] at hj
      rw [Library.Config.stack_replace_self htop]
      obtain hmem | hmem := hj
      · obtain ⟨rfl, rfl, hp⟩ := heffect.destroying hmem
        rw [h.user.rest_eq_nil htop rfl]
        exact ⟨hp, rfl⟩
      · obtain ⟨-, hstack⟩ := h.destroying t' p (hbelow hmem)
        rw [htop, List.cons.injEq] at hstack
        rw [hstack.2] at hmem
        simp at hmem
    · rw [Library.Config.stack_replace_ne _ _ _ ht]
      rw [Library.Config.Active, Library.Config.stack_replace_ne _ _ _ ht] at hj
      exact h.destroying t' p hj
  · by_cases ht : t' = t
    · subst ht
      rw [Library.Config.Active, Library.Config.stack_replace_self htop, List.mem_append] at hj
      rw [Library.Config.stack_replace_self htop]
      obtain hmem | hmem := hj
      · obtain ⟨rfl, rfl⟩ := heffect.joining hmem
        obtain ⟨hp, hstack⟩ := h.destroying t' p hactive
        rw [htop, List.cons.injEq] at hstack
        exact ⟨hp, .inr (by rw [hstack.2]; rfl)⟩
      · obtain ⟨hp, hstack | hstack⟩ := h.joining t' p (hbelow hmem)
        · rw [htop, List.cons.injEq] at hstack
          rw [hstack.2] at hmem
          simp at hmem
        · rw [htop, List.cons.injEq] at hstack
          obtain ⟨rfl, rfl⟩ := hstack
          rw [heffect.wakesAll_nil]
          exact ⟨hp, .inl rfl⟩
    · rw [Library.Config.stack_replace_ne _ _ _ ht]
      rw [Library.Config.Active, Library.Config.stack_replace_ne _ _ _ ht] at hj
      exact h.joining t' p hj

theorem destroying_of_reaches {users : Nat} (hrun : P.machine.Reaches (P.init users) c) :
    Destroying P c := by
  have hinv : Threads P c ∧ Destroying P c :=
    hrun.invariant (I := fun c => Threads P c ∧ Destroying P c) ⟨threads_init, destroying_init⟩
      fun h _ hstep => ⟨h.1.step hstep, h.2.step h.1 hstep⟩
  exact hinv.2

end Step

end UnixNotes.ThreadPool
