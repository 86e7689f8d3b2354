import UnixNotes.Library.Interleaving

universe u v w x

namespace UnixNotes.Library

/-- A state with what has happened, last event first. -/
structure Logged (σ : Type u) (ε : Type x) where
  base : σ
  log : List ε := []

variable {σ : Type u} {ι : Type v} {χ : Type w} {ε : Type x}

/-- The machine that logs what a step does, from its instruction, the states before and after it, and
what it puts on the stack. -/
def Machine.logged (M : Machine σ ι χ) (events : ι → σ → σ → List ι → List ε) :
    Machine (Logged σ ε) ι χ :=
  ⟨fun t i x s => (M.exec t i x s.base).map fun r =>
    (⟨r.1, events i s.base r.1 r.2 ++ s.log⟩, r.2)⟩

namespace Config

def base (c : Config (Logged σ ε) ι) : Config σ ι := ⟨c.shared.base, c.threads⟩

end Config

namespace Machine

variable {M : Machine σ ι χ} {events : ι → σ → σ → List ι → List ε}
  {c c' : Config (Logged σ ε) ι} {t : Nat} {i : ι}

theorem Step.of_logged (h : (M.logged events).Step c t i c') :
    ∃ rest x pushed, c.base.stack t = i :: rest ∧
      M.exec t i x c.base.shared = some (c'.base.shared, pushed) ∧
      c'.base = c.base.replace t c'.base.shared (pushed ++ rest) ∧
      c'.shared.log = events i c.base.shared c'.base.shared pushed ++ c.shared.log := by
  obtain @⟨rest, x, s, pushed, htop, hexec⟩ := h
  obtain ⟨r, hbase, heq⟩ := Option.map_eq_some_iff.mp hexec
  cases heq
  exact ⟨rest, x, r.2, htop, hbase, rfl, rfl⟩

theorem Step.base (h : (M.logged events).Step c t i c') : M.Step c.base t i c'.base := by
  obtain ⟨rest, x, pushed, htop, hexec, hc', -⟩ := h.of_logged
  rw [hc']
  exact .exec htop hexec

/-- The log is read by nobody: whatever holds of the runs of the machine holds of these. -/
theorem Run.base {logs : Config (Logged σ ε) ι → Nat → ι → Prop} {ok : Config σ ι → Nat → ι → Prop}
    {c₀ : Config (Logged σ ε) ι} (h : (M.logged events).Run logs c₀ c)
    (hok : ∀ c t i, logs c t i → ok c.base t i) : M.Run ok c₀.base c.base := by
  induction h with
  | start => exact .start
  | step _ allowed step ih => exact .step ih (hok _ _ _ allowed) step.base

theorem exec_logged {x : χ} {s s' : σ} {pushed : List ι} (log : List ε)
    (h : M.exec t i x s = some (s', pushed)) :
    (M.logged events).exec t i x ⟨s, log⟩ = some (⟨s', events i s s' pushed ++ log⟩, pushed) := by
  simp only [logged, h, Option.map_some]

end Machine

namespace Config

def after (c : Config (Logged σ ε) ι) (log : List ε) : Config (Logged σ ε) ι :=
  ⟨⟨c.shared.base, c.shared.log ++ log⟩, c.threads⟩

end Config

namespace Machine

variable {M : Machine σ ι χ} {events : ι → σ → σ → List ι → List ε}

theorem next_after (c : Config (Logged σ ε) ι) (log : List ε) (t : Nat) (x : χ) :
    (M.logged events).next (c.after log) t x =
      ((M.logged events).next c t x).map (·.after log) := by
  have hstack : (c.after log).stack t = c.stack t := rfl
  simp only [Machine.next, hstack]
  cases c.stack t with
  | nil => rfl
  | cons i rest =>
    simp only [logged, Config.after, Option.map_map]
    cases M.exec t i x c.shared.base with
    | none => rfl
    | some r => simp [Config.replace, List.append_assoc]

theorem schedule_after (c : Config (Logged σ ε) ι) (log : List ε) (moves : List (Nat × χ)) :
    (M.logged events).schedule (c.after log) moves =
      ((M.logged events).schedule c moves).map (·.after log) := by
  induction moves generalizing c with
  | nil => rfl
  | cons move moves ih =>
    obtain ⟨t, x⟩ := move
    rw [schedule, schedule, next_after]
    cases (M.logged events).next c t x with
    | none => rfl
    | some c' => exact ih c'

theorem follow_after (c : Config (Logged σ ε) ι) (log : List ε) (moves : List (Nat × χ)) :
    (M.logged events).follow (c.after log) moves =
      ((M.logged events).follow c moves).after log := by
  rw [follow, schedule_after, follow]
  cases (M.logged events).schedule c moves <;> rfl

end Machine

end UnixNotes.Library
