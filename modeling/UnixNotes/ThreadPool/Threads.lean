import UnixNotes.ThreadPool.Effects

namespace UnixNotes.ThreadPool

open Library

namespace Shared

@[simp] theorem pools_set (s : Shared) (p : Nat) (pool : Pool) (q : Nat) :
    (s.set p pool).pools q = if q = p then pool else s.pools q := Function.update_apply ..

@[simp] theorem pools_accept (s : Shared) (p : Nat) (runner : Option Nat) (id : Nat) :
    (s.accept p runner id).pools = s.pools := rfl

@[simp] theorem pools_refuse (s : Shared) (id : Nat) : (s.refuse id).pools = s.pools := rfl

theorem Ok.set {P : Process} {s : Shared} (h : s.Ok P) {p : Nat} {pool : Pool}
    (hpool : pool.Ok (P.settings p)) : (s.set p pool).Ok P := by
  intro q
  rw [pools_set]
  split
  · rename_i heq
    rw [heq]
    exact hpool
  · exact h q

end Shared

theorem Pool.length_setQueue (pool : Pool) (index : Nat) (queue : List Task) :
    (pool.setQueue index queue).localQueues.length = pool.localQueues.length := List.length_set ..

section Exec

variable {P : Process} {s s' : Shared} {i : Instr} {pushed : List Instr}

theorem Effect.ok (h : Effect P s i s' pushed) (hs : s.Ok P) : s'.Ok P := by
  cases h with
  | pushes op locked stopping ok global => exact hs.set ok
  | pushesOwner w op p task => exact hs.set ((hs w.pool).congr rfl (Pool.length_setQueue ..))
  | takesOwn queue_eq => exact hs.set ((hs _).congr rfl (Pool.length_setQueue ..))
  | takesGlobal global ok rest_eq => exact hs.set ok
  | steals queue_eq => exact hs.set ((hs _).congr rfl (Pool.length_setQueue ..))
  | wakes parked => exact hs.set ((hs _).congr rfl rfl)
  | locks locked => exact hs.set ((hs _).congr rfl rfl)
  | parks w => exact hs.set ((hs _).congr rfl rfl)
  | resumes locked parked => exact hs.set ((hs _).congr rfl rfl)
  | wakesUp parked => exact hs.set ((hs _).congr rfl rfl)
  | goesOn busy => exact hs.set ((hs _).congr rfl rfl)
  | hasWork hindex queue_ne => exact hs.set ((hs _).congr rfl rfl)
  | exits hindex => exact hs.set ((hs _).congr rfl rfl)
  | stops locked stopping => exact hs.set ((hs _).congr rfl rfl)
  | wakesAll p => exact hs.set ((hs _).congr rfl rfl)
  | joins exited => exact hs.set ((hs _).congr rfl rfl)
  | _ => exact hs

end Exec

theorem Effect.threw {P : Process} {s s' : Shared} {i : Instr} {pushed : List Instr}
    (h : Effect P s i s' pushed) : s'.threw = s.threw := by cases h <;> rfl

theorem Process.mem_workers {P : Process} {w : Worker} :
    w ∈ P.workers ↔ w.pool < P.count ∧ w.index < (P.settings w.pool).workerCount := by
  simp only [Process.workers, List.mem_flatMap, List.mem_map, List.mem_range]
  constructor
  · rintro ⟨p, hp, index, hindex, rfl⟩
    exact ⟨hp, hindex⟩
  · rintro ⟨hp, hindex⟩
    exact ⟨w.pool, hp, w.index, hindex, rfl⟩

namespace Instr

/-- An instruction that the thread of `owner` may have. -/
def Placed (count : Nat) (owner : Option Worker) : Instr → Prop
  | .submit self _ p _ => self = owner ∧ p < count
  | .start self _ => self = owner
  | .body self _ => self = owner
  | .throwing self _ => self = owner
  | .popOwner w => owner = some w
  | .popGlobal w => owner = some w
  | .steal w _ => owner = some w
  | .lockWait w => owner = some w
  | .evaluate w => owner = some w
  | .look w _ => owner = some w
  | .park w => owner = some w
  | .parked w => owner = some w
  | .testExit w => owner = some w
  | .testLocal w _ => owner = some w
  | .notify _ => True
  | _ => owner = none

def looping : Instr → Bool
  | .start self _ => self.isSome
  | .body self _ => self.isSome
  | .throwing self _ => self.isSome
  | .popOwner _ => true
  | .popGlobal _ => true
  | .steal _ _ => true
  | .lockWait _ => true
  | .evaluate _ => true
  | .look _ _ => true
  | .park _ => true
  | .parked _ => true
  | .testExit _ => true
  | .testLocal _ _ => true
  | _ => false

def holding (p : Nat) : Instr → Nat
  | .evaluate w => if w.pool = p then 1 else 0
  | .look w _ => if w.pool = p then 1 else 0
  | .park w => if w.pool = p then 1 else 0
  | .testExit w => if w.pool = p then 1 else 0
  | .testLocal w _ => if w.pool = p then 1 else 0
  | _ => 0

end Instr

def held (s : Shared) (p : Nat) : Nat := if (s.pools p).locked then 1 else 0

section Exec

variable {P : Process} {s s' : Shared} {i : Instr} {pushed : List Instr} {owner : Option Worker}

theorem placed_toList {count : Nat} {self : Option Worker} (h : self = owner) :
    ∀ j ∈ (self.map Instr.popOwner).toList, j.Placed count owner := by
  intro j hj
  cases self with
  | none => cases hj
  | some w =>
    rw [List.mem_singleton.mp hj]
    exact h.symm

theorem Effect.placed (h : Effect P s i s' pushed) (hi : i.Placed P.count owner) :
    ∀ j ∈ pushed, j.Placed P.count owner := by
  cases h with
  | calls op hp code =>
    intro j hj
    obtain ⟨rfl, rfl⟩ | ⟨task, rfl⟩ := code
    · rcases List.mem_cons.mp hj with rfl | hj
      · exact ⟨hi.symm, hp⟩
      · rw [List.mem_singleton.mp hj]
        exact hi
    · rcases List.mem_cons.mp hj with rfl | hj
      · exact ⟨hi, hp⟩
      · rw [List.mem_singleton.mp hj]
        exact hi
  | returns self task => exact placed_toList hi
  | catches self packaged => exact placed_toList hi
  | runsHere task stopping =>
    intro j hj
    rw [List.mem_singleton.mp hj]
    exact hi.1
  | destroys hp =>
    intro j hj
    rcases List.mem_cons.mp hj with rfl | hj
    · exact hi
    · rw [List.mem_singleton.mp hj]
      exact hi
  | stops locked stopping =>
    intro j hj
    rcases List.mem_cons.mp hj with rfl | hj
    · exact hi
    · rw [List.mem_singleton.mp hj]
      exact hi
  | _ =>
    intro j hj
    first
      | (rw [List.mem_singleton.mp hj]; first | exact hi | exact hi.symm | trivial)
      | cases hj

theorem Effect.looping (h : Effect P s i s' pushed) :
    (∀ j ∈ pushed.dropLast, j.looping = false) ∧
      (i.looping = true ∨ ∀ j ∈ pushed, j.looping = false) := by
  have hof : (pushed.dropLast.all fun j => !j.looping) = true →
      (i.looping || pushed.all fun j => !j.looping) = true →
        (∀ j ∈ pushed.dropLast, j.looping = false) ∧
          (i.looping = true ∨ ∀ j ∈ pushed, j.looping = false) := by
    intro hlast hall
    refine ⟨fun j hj => by simpa using List.all_eq_true.mp hlast j hj, ?_⟩
    rw [Bool.or_eq_true] at hall
    exact hall.imp_right fun hall j hj => by simpa using List.all_eq_true.mp hall j hj
  cases h with
  | calls op hp code =>
    obtain ⟨rfl, rfl⟩ | ⟨task, rfl⟩ := code
    · exact hof rfl rfl
    · rename_i self p
      cases self <;> exact hof rfl rfl
  | returns self task => cases self <;> exact hof rfl rfl
  | catches self packaged => cases self <;> exact hof rfl rfl
  | starts self task => cases self <;> exact hof rfl rfl
  | throws self task => cases self <;> exact hof rfl rfl
  | terminates self packaged => cases self <;> exact hof rfl rfl
  | _ => exact hof rfl rfl

theorem held_set {q : Nat} {pool : Pool} (h : pool.locked = (s.pools q).locked) (p : Nat) :
    held (s.set q pool) p = held s p := by
  rw [held, held, Shared.pools_set]
  split
  · rename_i heq
    rw [heq, h]
  · rfl

theorem held_lock {w : Worker} {pool : Pool} (hlocked : (s.pools w.pool).locked = false)
    (hpool : pool.locked = true) (p : Nat) :
    held (s.set w.pool pool) p = held s p + if w.pool = p then 1 else 0 := by
  rw [held, held, Shared.pools_set]
  by_cases hp : w.pool = p
  · subst hp
    simp [hlocked, hpool]
  · simp [hp, Ne.symm hp]

theorem held_unlock {w : Worker} {pool : Pool} (hpool : pool.locked = false) {p : Nat}
    (hle : (if w.pool = p then 1 else 0) ≤ held s p) :
    held (s.set w.pool pool) p + (if w.pool = p then 1 else 0) = held s p := by
  rw [held] at hle ⊢
  rw [held, Shared.pools_set]
  by_cases hp : w.pool = p
  · subst hp
    rw [if_pos rfl] at hle ⊢
    rw [if_pos rfl, hpool]
    split at hle
    · rename_i hlocked
      rw [if_pos hlocked]
      rfl
    · omega
  · simp [hp, Ne.symm hp]

theorem Effect.holding (h : Effect P s i s' pushed) (p : Nat) (hi : i.holding p ≤ held s p) :
    held s' p + i.holding p = held s p + Config.weigh (Instr.holding p) pushed := by
  cases h with
  | calls op hp code => obtain ⟨rfl, rfl⟩ | ⟨task, rfl⟩ := code <;> rfl
  | pushes op locked stopping ok global => exact congrArg (· + 0) (held_set (by rfl) p)
  | pushesOwner w op q task => exact congrArg (· + 0) (held_set (by rfl) p)
  | returns self task => cases self <;> rfl
  | catches self packaged => cases self <;> rfl
  | locks locked =>
    rw [held_lock locked rfl]
    rfl
  | resumes locked parked =>
    rw [held_lock locked rfl]
    rfl
  | parks w => exact held_unlock rfl hi
  | goesOn busy => exact held_unlock rfl hi
  | hasWork hindex queue_ne => exact held_unlock rfl hi
  | exits hindex => exact held_unlock rfl hi
  | _ =>
    first
      | rfl
      | exact congrArg (· + 0) (held_set (by rfl) p)

end Exec

structure Threads (P : Process) (c : Config) : Prop where
  ok : c.shared.Ok P
  placed : ∀ t i, c.Active t i → i.Placed P.count P.workers[t]?
  looping : c.LastOnly fun i => i.looping = true
  held : ∀ p, c.total (Instr.holding p) = held c.shared p

theorem init_stack {P : Process} {users t : Nat} {i : Instr} {rest : List Instr}
    (htop : (P.init users).stack t = i :: rest) :
    rest = [] ∧ ((∃ w, P.workers[t]? = some w ∧ i = .popOwner w) ∨
      P.workers[t]? = none ∧ i = .user) := by
  simp only [Library.Config.stack, Process.init, List.getD_eq_getElem?_getD,
    List.getElem?_append, List.length_map] at htop
  split at htop
  · rename_i ht
    rw [List.getElem?_map, List.getElem?_eq_getElem ht] at htop
    cases htop
    exact ⟨rfl, .inl ⟨_, List.getElem?_eq_getElem ht, rfl⟩⟩
  · rename_i ht
    rw [List.getElem?_replicate] at htop
    split at htop
    · cases htop
      exact ⟨rfl, .inr ⟨List.getElem?_eq_none (Nat.not_lt.mp ht), rfl⟩⟩
    · cases htop

theorem init_active {P : Process} {users t : Nat} {i : Instr} (h : (P.init users).Active t i) :
    (∃ w, P.workers[t]? = some w ∧ i = .popOwner w) ∨ P.workers[t]? = none ∧ i = .user := by
  cases htop : (P.init users).stack t with
  | nil =>
    rw [Library.Config.Active, htop] at h
    cases h
  | cons j rest =>
    obtain ⟨rfl, hj⟩ := init_stack htop
    rw [Library.Config.Active, htop, List.mem_singleton] at h
    rw [h]
    exact hj

theorem threads_init {P : Process} {users : Nat} : Threads P (P.init users) := by
  refine ⟨Pool.ok_pool P, ?_, ?_, ?_⟩
  · intro t i hactive
    obtain ⟨w, hw, rfl⟩ | ⟨hnone, rfl⟩ := init_active hactive
    · exact hw
    · exact hnone
  · intro t j hj
    cases htop : (P.init users).stack t with
    | nil =>
      rw [htop] at hj
      cases hj
    | cons i rest =>
      obtain ⟨rfl, -⟩ := init_stack htop
      rw [htop] at hj
      cases hj
  · intro p
    refine Library.Config.total_eq_zero fun t i hactive => ?_
    obtain ⟨w, hw, rfl⟩ | ⟨hnone, rfl⟩ := init_active hactive <;> rfl

variable {P : Process} {c c' : Config} {t : Nat} {i : Instr}

theorem Threads.effect (h : Threads P c) (hstep : P.machine.Step c t i c') :
    ∃ rest s pushed, c.stack t = i :: rest ∧ Effect P c.shared i s pushed ∧
      c' = c.replace t s (pushed ++ rest) ∧ c.shared.terminated = false := by
  obtain @⟨rest, x, s, pushed, htop, hexec⟩ := hstep
  exact ⟨rest, s, pushed, htop, effect_of_exec (t := t) h.ok hexec, rfl,
    not_terminated_of_exec (t := t) hexec⟩

theorem Threads.step (h : Threads P c) (hstep : P.machine.Step c t i c') : Threads P c' := by
  obtain ⟨rest, s, pushed, htop, heffect, rfl, -⟩ := h.effect hstep
  have hactive := Library.Config.active_of_top htop
  have hlooping := heffect.looping
  refine ⟨heffect.ok h.ok, ?_, h.looping.replace htop ?_ ?_, ?_⟩
  · intro t' j hj
    obtain ⟨rfl, hmem⟩ | hold := Library.Config.active_of_replace htop hj
    · exact heffect.placed (h.placed t' i hactive) j hmem
    · exact h.placed t' j hold
  · exact fun j hj => by simp [hlooping.1 j hj]
  · exact hlooping.2.imp_right fun hnone j hj => by simp [hnone j hj]
  · intro p
    have htotal := Library.Config.total_replace (Instr.holding p) htop s pushed
    have hheld := h.held p
    have hholding := heffect.holding p (hheld ▸ Library.Config.le_total hactive)
    rw [Library.Config.shared_replace]
    omega

theorem threads_of_reaches {users : Nat} (hrun : P.machine.Reaches (P.init users) c) :
    Threads P c :=
  hrun.invariant threads_init fun hthreads _ hstep => hthreads.step hstep

theorem not_threw {users : Nat} (hrun : P.machine.Reaches (P.init users) c) :
    c.shared.threw = false := by
  have hinv : Threads P c ∧ c.shared.threw = false := by
    refine hrun.invariant (I := fun c => Threads P c ∧ c.shared.threw = false)
      ⟨threads_init, rfl⟩ fun h _ hstep => ⟨h.1.step hstep, ?_⟩
    obtain ⟨rest, s, pushed, htop, heffect, rfl, -⟩ := h.1.effect hstep
    exact heffect.threw.trans h.2
  exact hinv.2

/-- Whatever is pushed, popped and cleared, the queue is a list of at most `capacity` values, and a
slot that was popped has the default. Where a pool uses its queue, it does not throw. -/
theorem queue_refines_list {α : Type} [Inhabited α] {capacity : Nat} (hcapacity : 0 < capacity)
    (ops : List (QueueOp α)) {users : Nat} (hrun : P.machine.Reaches (P.init users) c) :
    (∃ q : BoundedRingQueue α, BoundedRingQueue.make capacity = .ok q ∧
      (QueueOp.execAll q ops).1 = (QueueOp.actAll capacity [] ops).1 ∧
      (QueueOp.execAll q ops).2.contents = (QueueOp.actAll capacity [] ops).2 ∧
      (QueueOp.actAll capacity [] ops).2.length ≤ capacity ∧
      ∀ value q', (QueueOp.execAll q ops).2.pop = .ok (value, q') →
        q'.buffer[(QueueOp.execAll q ops).2.head]? = some default) ∧
    c.shared.threw = false := by
  refine ⟨⟨.new capacity, if_neg (Nat.pos_iff_ne_zero.mp hcapacity), ?_⟩, not_threw hrun⟩
  obtain ⟨hresults, hrep, heq⟩ := (BoundedRingQueue.represents_new (α := α) hcapacity).execAll ops
  have hnew : (BoundedRingQueue.new capacity : BoundedRingQueue α).capacity = capacity := rfl
  rw [hnew] at hresults hrep heq
  have hlength := hrep.length_le
  rw [heq] at hlength
  exact ⟨hresults, hrep.contents_eq, hlength, fun value q' => hrep.slot_of_pop⟩

def onePool : Process := ⟨1, fun _ => ⟨2, 1, .abort, by decide, by decide⟩⟩

theorem queue_refines_list_pair :
    (∃ q : BoundedRingQueue Nat, BoundedRingQueue.make 2 = .ok q ∧
      (QueueOp.execAll q [.push 5, .push 6, .push 7, .pop, .clear, .pop]).1 =
        (QueueOp.actAll 2 [] [.push 5, .push 6, .push 7, .pop, .clear, .pop]).1 ∧
      (QueueOp.execAll q [.push 5, .push 6, .push 7, .pop, .clear, .pop]).2.contents =
        (QueueOp.actAll 2 [] [.push 5, .push 6, .push 7, .pop, .clear, .pop]).2 ∧
      (QueueOp.actAll 2 [] [.push 5, .push 6, .push 7, .pop, .clear, .pop]).2.length ≤ 2 ∧
      ∀ value q', (QueueOp.execAll q [.push 5, .push 6, .push 7, .pop, .clear, .pop]).2.pop =
          .ok (value, q') →
        q'.buffer[(QueueOp.execAll q [.push 5, .push 6, .push 7, .pop, .clear, .pop]).2.head]? =
          some default) ∧
    (onePool.machine.follow (onePool.init 1)
      [(2, .submit .tryPost 0), (2, .next), (2, .next)]).shared.threw = false :=
  queue_refines_list (by decide) _ (Machine.reaches_follow _)

end UnixNotes.ThreadPool
