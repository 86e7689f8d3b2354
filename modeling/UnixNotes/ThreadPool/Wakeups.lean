import UnixNotes.ThreadPool.Completion

namespace UnixNotes.ThreadPool

open Library

def Instr.notifying (p : Nat) : Instr → Nat
  | .notify q => if q = p then 1 else 0
  | _ => 0

/-- A worker that has seen the queue of `w` empty and is on its way to the wait. -/
def Instr.passed (count : Nat) (w : Worker) : Instr → Prop
  | .look v k => v.pool = w.pool ∧ ∃ offset < k, (v.index + offset) % count = w.index
  | .park v => v.pool = w.pool
  | _ => False

instance (count : Nat) (w : Worker) : DecidablePred (Instr.passed count w)
  | .look v k => inferInstanceAs
    (Decidable (v.pool = w.pool ∧ ∃ offset < k, (v.index + offset) % count = w.index))
  | .park v => inferInstanceAs (Decidable (v.pool = w.pool))
  | .user | .submit .. | .notify _ | .start .. | .body .. | .throwing .. | .popOwner _
  | .popGlobal _ | .steal .. | .lockWait _ | .evaluate _ | .parked _ | .testExit _
  | .testLocal .. | .destroy _ | .notifyAll _ | .join _ => .isFalse id

/-- A task of pool `p` is in the local queue of a worker that runs another task, and a worker waits
that nobody is about to notify. -/
def Stranded (p : Nat) (c : Config) : Prop :=
  ∃ owner other, owner ≠ other ∧ (c.shared.pools p).queue owner ≠ [] ∧
    (∃ t task, c.Active t (.body (some ⟨p, owner⟩) task)) ∧
    other ∈ (c.shared.pools p).parked ∧ ∀ t, ¬c.Active t (.notify p)

/-- When `w` fills its queue, nobody has seen it empty on the way to the wait, and no more workers
wait than are about to be notified. -/
def Undisturbed (P : Process) (c : Config) (w : Worker) : Prop :=
  (c.All fun j => ¬j.passed (P.settings w.pool).workerCount w) ∧
    (c.shared.pools w.pool).parked.length ≤ c.total (Instr.notifying w.pool) + 1

/-- Workers submit to their own pool, and undisturbed. -/
def Heard (P : Process) (c : Config) : Instr → Prop
  | .submit (some w) _ p _ => w.pool = p ∧ Undisturbed P c w
  | _ => True

instance (P : Process) (c : Config) (w : Worker) : Decidable (Undisturbed P c w) :=
  inferInstanceAs (Decidable (_ ∧ _))

instance (P : Process) (c : Config) : DecidablePred (Heard P c)
  | .submit (some w) _ p _ => inferInstanceAs (Decidable (w.pool = p ∧ Undisturbed P c w))
  | .submit none _ _ _ | .user | .notify _ | .start .. | .body .. | .throwing .. | .popOwner _
  | .popGlobal _ | .steal .. | .lockWait _ | .evaluate _ | .look .. | .park _ | .parked _
  | .testExit _ | .testLocal .. | .destroy _ | .notifyAll _ | .join _ => .isTrue trivial

section Exec

variable {P : Process} {s s' : Shared} {i : Instr} {pushed : List Instr}

theorem Effect.notifying (h : Effect P s i s' pushed) (p : Nat) (hpark : ∀ index, i ≠ .park ⟨p, index⟩) :
    (s'.pools p).parked = [] ∨ (s'.pools p).parked.length + i.notifying p ≤
      (s.pools p).parked.length + Library.Config.weigh (Instr.notifying p) pushed := by
  have hset : ∀ {q : Nat} {pool : Pool}, pool.parked = (s.pools q).parked →
      ((s.set q pool).pools p).parked.length ≤ (s.pools p).parked.length := by
    intro q pool hparked
    refine Shared.set_of (R := fun pool => pool.parked.length ≤ (s.pools p).parked.length)
      (Nat.le_refl _) ?_
    rintro rfl -
    rw [hparked]
  cases h with
  | calls op hp code => obtain ⟨rfl, rfl⟩ | ⟨task, rfl⟩ := code <;> exact .inr (Nat.le_refl _)
  | returns self task => cases self <;> exact .inr (Nat.le_refl _)
  | catches self packaged => cases self <;> exact .inr (Nat.le_refl _)
  | pushes op locked stopping ok global =>
    exact .inr (Nat.le_trans (hset (by rfl)) (Nat.le_add_right ..))
  | pushesOwner w op q task =>
    exact .inr (Nat.le_trans (hset (by rfl)) (Nat.le_add_right ..))
  | wakes parked =>
    rename_i q index
    refine .inr ?_
    rw [Shared.pools_set]
    by_cases hq : p = q
    · subst hq
      have hpos := List.length_pos_of_mem parked
      rw [if_pos rfl, Instr.notifying, if_pos rfl, List.length_erase_of_mem parked]
      change _ - 1 + 1 ≤ _ + 0
      omega
    · rw [if_neg hq, Instr.notifying, if_neg (Ne.symm hq)]
      exact Nat.le_refl _
  | wakesNobody parked =>
    rename_i q
    by_cases hq : p = q
    · subst hq
      exact .inl parked
    · rw [Instr.notifying, if_neg (Ne.symm hq)]
      exact .inr (Nat.le_refl _)
  | parks w =>
    refine .inr ?_
    rw [Shared.pools_set]
    by_cases hw : p = w.pool
    · subst hw
      exact absurd rfl (hpark w.index)
    · rw [if_neg hw]
      exact Nat.le_refl _
  | wakesUp parked =>
    rename_i w
    refine .inr (Nat.add_le_add_right ?_ 0)
    refine Shared.set_of (R := fun pool => pool.parked.length ≤ (s.pools p).parked.length)
      (Nat.le_refl _) ?_
    rintro rfl -
    exact List.length_erase_le
  | wakesAll q =>
    refine .inr (Nat.add_le_add_right ?_ 0)
    exact Shared.set_of (R := fun pool => pool.parked.length ≤ (s.pools p).parked.length)
      (Nat.le_refl _) fun _ _ => Nat.zero_le _
  | _ =>
    first
      | exact .inr (Nat.le_refl _)
      | exact .inr (Nat.add_le_add_right (hset (by rfl)) 0)

end Exec

/-- What a worker has looked at on the way to the wait is empty, and where a local queue is not, all
workers that wait are about to be notified. -/
structure Watched (P : Process) (c : Config) : Prop where
  threads : Threads P c
  looking : ∀ t w k, c.Active t (.look w k) → ∀ offset < k,
    (c.shared.pools w.pool).queue ((w.index + offset) % (P.settings w.pool).workerCount) = []
  parking : ∀ t w, c.Active t (.park w) →
    ∀ index < (P.settings w.pool).workerCount, (c.shared.pools w.pool).queue index = []
  parked : ∀ p index, (c.shared.pools p).queue index ≠ [] →
    (c.shared.pools p).parked.length ≤ c.total (Instr.notifying p)

section Step

variable {P : Process} {c c' : Config} {t : Nat} {i : Instr} {rest : List Instr} {s : Shared}
  {pushed : List Instr}

theorem watched_init {users : Nat} : Watched P (P.init users) := by
  refine ⟨threads_init, ?_, ?_, fun p index _ => Nat.zero_le _⟩
  · intro t w k hactive
    obtain ⟨_, -, heq⟩ | ⟨-, heq⟩ := init_active hactive <;> cases heq
  · intro t w hactive
    obtain ⟨_, -, heq⟩ | ⟨-, heq⟩ := init_active hactive <;> cases heq

theorem exists_offset {count index index' : Nat} (hindex : index < count) (hindex' : index' < count) :
    ∃ offset < count, (index + offset) % count = index' := by
  refine ⟨(index' + (count - index)) % count, Nat.mod_lt _ (Nat.zero_lt_of_lt hindex), ?_⟩
  rw [Nat.add_mod_mod, Nat.add_left_comm, Nat.add_sub_cancel' (Nat.le_of_lt hindex),
    Nat.add_mod_right, Nat.mod_eq_of_lt hindex']

theorem Watched.looking_step (h : Watched P c) (hheard : Heard P c i)
    (htop : c.stack t = i :: rest) (heffect : Effect P c.shared i s pushed) {t' : Nat} {w : Worker}
    {k : Nat} (hactive : (c.replace t s (pushed ++ rest)).Active t' (.look w k)) {offset : Nat}
    (hoffset : offset < k) :
    (s.pools w.pool).queue ((w.index + offset) % (P.settings w.pool).workerCount) = [] := by
  obtain ⟨rfl, hmem⟩ | hold := Library.Config.active_of_replace htop hactive
  · obtain ⟨rfl, ⟨rfl, -⟩ | ⟨k, rfl, rfl, -, hnil⟩⟩ := heffect.look hmem
    · exact absurd hoffset (Nat.not_lt_zero offset)
    · obtain rfl | hlt := Nat.eq_or_lt_of_le (Nat.le_of_lt_succ hoffset)
      · exact hnil
      · exact h.looking _ w k (Library.Config.active_of_top htop) offset hlt
  · refine heffect.queue_nil (h.looking t' w k hold offset hoffset) fun op q task heq => ?_
    subst heq
    exact hheard.2.1.of_active hold ⟨rfl, offset, hoffset, rfl⟩

theorem Watched.parking_step (h : Watched P c) (hheard : Heard P c i)
    (htop : c.stack t = i :: rest) (heffect : Effect P c.shared i s pushed) {t' : Nat} {w : Worker}
    (hactive : (c.replace t s (pushed ++ rest)).Active t' (.park w)) {index : Nat}
    (hindex : index < (P.settings w.pool).workerCount) : (s.pools w.pool).queue index = [] := by
  obtain ⟨rfl, hmem⟩ | hold := Library.Config.active_of_replace htop hactive
  · obtain ⟨rfl, k, rfl, hk⟩ := heffect.park hmem
    have hlook := Library.Config.active_of_top htop
    have hself := (Process.mem_workers.mp (getElem?_workers w (h.threads.placed _ _ hlook))).2
    obtain ⟨offset, hoffset, rfl⟩ := exists_offset hself hindex
    exact h.looking _ w k hlook offset (Nat.lt_of_lt_of_le hoffset hk)
  · refine heffect.queue_nil (h.parking t' w hold index hindex) fun op q task heq => ?_
    subst heq
    exact hheard.2.1.of_active hold rfl

theorem Watched.parked_step (h : Watched P c) (hheard : Heard P c i)
    (htop : c.stack t = i :: rest) (heffect : Effect P c.shared i s pushed) {p index : Nat}
    (hne : (s.pools p).queue index ≠ []) :
    (s.pools p).parked.length ≤ (c.replace t s (pushed ++ rest)).total (Instr.notifying p) := by
  have htotal := Library.Config.total_replace (Instr.notifying p) htop s pushed
  by_cases hsubmit : ∃ op q task, i = .submit (some ⟨p, index⟩) op q task
  · obtain ⟨op, q, task, rfl⟩ := hsubmit
    obtain ⟨rfl, -, hparked⟩ := hheard
    cases heffect with
    | pushesOwner w op q task =>
      rw [Library.Config.weigh_cons, Instr.notifying, if_pos rfl] at htotal
      simp only [Shared.pools_accept, Shared.pools_set, if_pos, Pool.setQueue, Instr.notifying,
        Library.Config.weigh_nil] at hparked htotal ⊢
      omega
    | calls op hp code => obtain ⟨heq, -⟩ | ⟨_, heq⟩ := code <;> cases heq
  · have hold : (c.shared.pools p).queue index ≠ [] := fun hnil =>
      hne (heffect.queue_nil hnil fun op q task heq => hsubmit ⟨op, q, task, heq⟩)
    have hpark : ∀ j, i ≠ .park ⟨p, j⟩ := by
      rintro j rfl
      have hindex := Pool.lt_of_queue hold
      rw [(h.threads.ok p).localQueues] at hindex
      exact hold (h.parking t _ (Library.Config.active_of_top htop) index hindex)
    have hparked := h.parked p index hold
    obtain hnil | hle := heffect.notifying p hpark
    · rw [hnil]
      exact Nat.zero_le _
    · omega

theorem Watched.step (h : Watched P c) (hheard : Heard P c i) (hstep : P.machine.Step c t i c') :
    Watched P c' := by
  have hthreads := h.threads.step hstep
  obtain ⟨rest, s, pushed, htop, heffect, rfl, -⟩ := h.threads.effect hstep
  exact ⟨hthreads, fun _ _ _ hactive _ => h.looking_step hheard htop heffect hactive,
    fun _ _ hactive _ => h.parking_step hheard htop heffect hactive,
    fun _ _ => h.parked_step hheard htop heffect⟩

/-- Where every worker that fills its queue is undisturbed, no task waits for its owner while another
worker waits to be notified. -/
theorem not_stranded {users : Nat}
    (hrun : P.machine.Run (fun c _ i => Heard P c i) (P.init users) c) (p : Nat) :
    ¬Stranded p c := by
  have hwatched : Watched P c :=
    hrun.invariant watched_init fun h hheard hstep => h.step hheard hstep
  rintro ⟨owner, other, -, hne, -, hparked, hnotify⟩
  have hle := hwatched.parked p owner hne
  have hzero : c.total (Instr.notifying p) = 0 := by
    refine Library.Config.total_eq_zero fun t j hactive => ?_
    cases j with
    | notify q =>
      refine if_neg ?_
      rintro rfl
      exact hnotify t hactive
    | _ => rfl
  rw [hzero] at hle
  exact absurd (List.length_pos_of_mem hparked) (Nat.not_lt.mpr hle)

end Step

def heardMoves : List (Nat × Choice) :=
  [(1, .next), (1, .next), (1, .next), (1, .next), (1, .next), (1, .next), (1, .next), (1, .next),
    (1, .next), (1, .next), (2, .submit .tryPost 0), (2, .next), (0, .next), (0, .next), (0, .next),
    (0, .submit .submit 0), (0, .next), (0, .wake 1), (2, .next)]

theorem not_stranded_one_waits :
    ((onePool.machine.follow (onePool.init 1) heardMoves).shared.pools 0).queue 0 ≠ [] ∧
      ¬Stranded 0 (onePool.machine.follow (onePool.init 1) heardMoves) :=
  ⟨by decide, not_stranded (Machine.run_follow (by decide)) 0⟩

/-- The other worker has seen the queue empty when the task comes, and waits after the notification. -/
def raceMoves : List (Nat × Choice) :=
  [(2, .submit .tryPost 0), (2, .next), (2, .next), (0, .next), (0, .next), (0, .next), (1, .next),
    (1, .next), (1, .next), (1, .next), (1, .next), (1, .next), (1, .next), (1, .next), (1, .next),
    (0, .submit .submit 0), (0, .next), (0, .next), (1, .next)]

theorem notification_lost : ∃ c, onePool.machine.Run (fun _ _ i => i.atHome = true)
    (onePool.init 1) c ∧ Stranded 0 c := by
  refine ⟨onePool.machine.follow (onePool.init 1) raceMoves,
    Machine.run_follow (by decide), 0, 1, nofun, by decide,
    ⟨0, ⟨0, false⟩, by decide⟩, by decide, fun t hactive => ?_⟩
  have hall : (onePool.machine.follow (onePool.init 1) raceMoves).All fun i => i ≠ .notify 0 := by
    decide
  exact hall.of_active hactive rfl

end UnixNotes.ThreadPool
