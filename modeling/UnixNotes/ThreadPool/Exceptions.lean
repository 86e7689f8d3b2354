import UnixNotes.ThreadPool.Completion

namespace UnixNotes.ThreadPool

open Library

section Run

variable {P : Process} {c c' : Config} {t : Nat}

theorem terminated_of_throwing (hthreads : Threads P c) {self : Option Worker} {task : Task}
    (hpackaged : task.packaged = false) (hstep : P.machine.Step c t (.throwing self task) c') :
    c'.shared.terminated = true := by
  obtain ⟨rest, s, pushed, htop, heffect, rfl, -⟩ := hthreads.effect hstep
  cases heffect with
  | terminates self packaged => rfl
  | catches self packaged =>
    rw [packaged] at hpackaged
    cases hpackaged
  | calls op hp code => obtain ⟨heq, -⟩ | ⟨_, heq⟩ := code <;> cases heq

/-- As long as what throws are tasks of `submit`, every task that was accepted is started once, and
the pools finish when nothing more is submitted. A task that was posted ends everything when it
throws. -/
theorem served_unless_posted_throws {users : Nat}
    (hrun : P.machine.Run (fun c _ _ => Caught c) (P.init users) c) :
    Served P c ∧ (Caught c → Inevitable (P.Goes Caught) Finished c) ∧
      ∀ t self task c', P.machine.Step c t (.throwing self task) c' → task.packaged = false →
        c'.shared.terminated = true ∧ ∀ c'', P.machine.Reaches c' c'' → c'' = c' := by
  have hserved : Served P c := served_of_caught hrun
  refine ⟨hserved, keeps_caught.inevitable hrun.reaches hserved.terminated,
    fun t self task c' hstep hpackaged => ?_⟩
  have hthreads := threads_of_reaches hrun.reaches
  have hterminated := terminated_of_throwing hthreads hpackaged hstep
  exact ⟨hterminated, fun c'' => eq_of_terminated hterminated⟩

end Run

def submitThrows : List (Nat × Choice) :=
  [(2, .submit .submit 0), (2, .next), (2, .next), (0, .next), (0, .next), (0, .next),
    (2, .submit .submit 0), (2, .next), (2, .next), (0, .throws)]

def submitted : Config := onePool.machine.follow (onePool.init 1) submitThrows

theorem served_unless_posted_throws_submit :
    (submitted.Active 0 (.throwing (some ⟨0, 0⟩) ⟨0, true⟩) ∧
      ⟨0, some 0, 1⟩ ∈ submitted.shared.accepted ∧ (some 0, 1) ∉ submitted.shared.executed) ∧
    Served onePool submitted ∧ Inevitable (onePool.Goes Caught) Finished submitted ∧
      ∀ t self task c', onePool.machine.Step submitted t (.throwing self task) c' →
        task.packaged = false →
          c'.shared.terminated = true ∧ ∀ c'', onePool.machine.Reaches c' c'' → c'' = c' := by
  have hrun : onePool.machine.Run (fun c _ _ => Caught c) (onePool.init 1) submitted :=
    Machine.run_follow (by decide)
  obtain ⟨hserved, hinevitable, hends⟩ := served_unless_posted_throws hrun
  exact ⟨by decide, hserved, hinevitable (by decide), hends⟩

/-- The first task that the user posts throws after the second one was accepted. -/
def postThrows : List (Nat × Choice) :=
  [(2, .submit .tryPost 0), (2, .next), (2, .next), (0, .next), (0, .next), (0, .next),
    (2, .submit .tryPost 0), (2, .next), (2, .next), (0, .throws), (0, .next)]

/-- The second task is never started, and the pool never destroyed. -/
theorem posted_exception_loses_task : ∃ c, onePool.machine.Reaches (onePool.init 1) c ∧
    ⟨0, some 0, 1⟩ ∈ c.shared.accepted ∧
      ∀ c', onePool.machine.Reaches c c' → (some 0, 1) ∉ c'.shared.executed ∧
        c'.shared.terminated = true ∧ (c'.shared.pools 0).destroyed = false := by
  refine ⟨onePool.machine.follow (onePool.init 1) postThrows, Machine.reaches_follow _,
    by decide, fun c' hrun => ?_⟩
  rw [eq_of_terminated (by decide) hrun]
  decide

end UnixNotes.ThreadPool
