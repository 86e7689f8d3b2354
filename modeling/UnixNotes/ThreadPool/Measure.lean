import Mathlib.Data.Prod.Lex
import UnixNotes.Library.Loads
import UnixNotes.ThreadPool.Tasks

namespace UnixNotes.ThreadPool

open Library

/-- The tasks in the queues of all pools, each of them worth what follows when it is taken. -/
def Shared.queued (P : Process) (s : Shared) : Nat :=
  ∑ p ∈ Finset.range P.count, (s.pools p).weight fun _ => 4

/-- What an instruction leads to, but for where a worker looks for a task. -/
def Instr.load : Instr → Nat
  | .user | .notify _ | .throwing _ _ | .notifyAll _ | .join _ => 1
  | .body _ _ => 2
  | .start _ _ | .destroy _ => 3
  | .submit _ _ _ _ => 6
  | _ => 0

section Queued

variable {P : Process} {s : Shared} {p : Nat} {pool : Pool}

theorem queued_set (hp : p < P.count) (pool : Pool) :
    (s.set p pool).queued P + (s.pools p).weight (fun _ => 4) =
      s.queued P + pool.weight fun _ => 4 := by
  have hmem := Finset.mem_range.mpr hp
  have hrest : ∑ q ∈ (Finset.range P.count).erase p, ((s.set p pool).pools q).weight (fun _ => 4) =
      ∑ q ∈ (Finset.range P.count).erase p, (s.pools q).weight fun _ => 4 :=
    Finset.sum_congr rfl fun q hq => by rw [Shared.pools_set, if_neg (Finset.ne_of_mem_erase hq)]
  rw [Shared.queued, Shared.queued, ← Finset.add_sum_erase _ _ hmem,
    ← Finset.add_sum_erase (Finset.range P.count) (fun q => (s.pools q).weight fun _ => 4) hmem,
    hrest, Shared.pools_set, if_pos rfl]
  omega

theorem queued_set_of_eq (h : pool.weight (fun _ => 4) = (s.pools p).weight fun _ => 4) :
    (s.set p pool).queued P = s.queued P := by
  refine Finset.sum_congr rfl fun q _ => ?_
  rw [Shared.pools_set]
  split
  · rename_i heq
    rw [heq, h]
  · rfl

end Queued

namespace Pool

def Finds (pool : Pool) (count index offset : Nat) : Prop :=
  ∃ k < count, offset ≤ k ∧ pool.queue ((index + k) % count) ≠ []

def Ahead (pool : Pool) (count index : Nat) : Prop :=
  pool.global ≠ [] ∨ pool.Finds count index 1

def Near (pool : Pool) (count index : Nat) : Prop :=
  pool.queue index ≠ [] ∨ pool.Ahead count index

variable (pool : Pool) (count index offset : Nat)

instance : Decidable (pool.Finds count index offset) :=
  inferInstanceAs (Decidable (∃ k < count, _))

instance : Decidable (pool.Ahead count index) := inferInstanceAs (Decidable (_ ∨ _))

instance : Decidable (pool.Near count index) := inferInstanceAs (Decidable (_ ∨ _))

variable {pool count index offset}

theorem finds_succ (hnil : pool.queue ((index + offset) % count) = []) :
    pool.Finds count index (offset + 1) ↔ pool.Finds count index offset := by
  constructor
  · rintro ⟨k, hk, hle, hne⟩
    exact ⟨k, hk, Nat.le_of_succ_le hle, hne⟩
  · rintro ⟨k, hk, hle, hne⟩
    refine ⟨k, hk, Nat.lt_of_le_of_ne hle ?_, hne⟩
    rintro rfl
    exact hne hnil

theorem not_finds (hoffset : count ≤ offset) : ¬pool.Finds count index offset := by
  rintro ⟨k, hk, hle, -⟩
  omega

theorem near_of_queue (hindex : index < count) {victim : Nat} (hvictim : victim < count)
    (hne : pool.queue victim ≠ []) : pool.Near count index := by
  by_cases heq : victim = index
  · exact .inl (heq ▸ hne)
  · refine .inr (.inr ?_)
    obtain hlt | hgt := Nat.lt_or_gt_of_ne heq
    · refine ⟨victim + count - index, by omega, by omega, ?_⟩
      rwa [show index + (victim + count - index) = victim + count by omega, Nat.add_mod_right,
        Nat.mod_eq_of_lt hvictim]
    · refine ⟨victim - index, by omega, by omega, ?_⟩
      rwa [show index + (victim - index) = victim by omega, Nat.mod_eq_of_lt hvictim]

/-- Nothing has changed that a worker on its way to a task looks at, but that more workers may
wait. -/
structure Still (pool pool' : Pool) : Prop where
  stopping : pool'.stopping = pool.stopping
  global : pool'.global = pool.global
  localQueues : pool'.localQueues = pool.localQueues
  parked : pool.parked ⊆ pool'.parked

theorem Still.refl (pool : Pool) : pool.Still pool := ⟨rfl, rfl, rfl, List.Subset.refl _⟩

section Still

variable {pool' : Pool} (h : pool.Still pool')

include h

theorem Still.finds : pool'.Finds = pool.Finds := by
  funext count index offset
  simp only [Finds, Pool.queue, h.localQueues]

theorem Still.ahead : pool'.Ahead = pool.Ahead := by
  funext count index
  rw [Ahead, Ahead, h.global, h.finds]

theorem Still.near : pool'.Near = pool.Near := by
  funext count index
  rw [Near, Near, Pool.queue, Pool.queue, h.localQueues, h.ahead]

end Still

end Pool

/-- How many steps a worker takes at most until it gets a task or waits, if nothing else happens. -/
def Instr.rank (P : Process) (s : Shared) : Instr → Nat
  | .popOwner w =>
    let n := (P.settings w.pool).workerCount
    if (s.pools w.pool).Near n w.index then n + 3 else 4 * n + 11
  | .popGlobal w =>
    let n := (P.settings w.pool).workerCount
    if (s.pools w.pool).Ahead n w.index then n + 2 else 4 * n + 10
  | .steal w offset =>
    let n := (P.settings w.pool).workerCount
    if (s.pools w.pool).Finds n w.index offset then n - offset + 2
    else n - offset + (3 * n + 9)
  | .lockWait w => 3 * (P.settings w.pool).workerCount + 8
  | .evaluate w => 3 * (P.settings w.pool).workerCount + 7
  | .look w offset =>
    (P.settings w.pool).workerCount - offset + (2 * (P.settings w.pool).workerCount + 6)
  | .park _ => 1
  | .parked w =>
    if w.index ∈ (s.pools w.pool).parked then 0 else 3 * (P.settings w.pool).workerCount + 8
  | .testExit w =>
    let pool := s.pools w.pool
    let n := (P.settings w.pool).workerCount
    if pool.stopping = true ∧ pool.global = [] ∨ pool.Near n w.index then 2 * n + 5
    else 4 * n + 12
  | .testLocal w index =>
    (P.settings w.pool).workerCount - index + ((P.settings w.pool).workerCount + 4)
  | _ => 0

theorem rank_le {P : Process} {s s' : Shared} (h : ∀ p, (s.pools p).Still (s'.pools p))
    (i : Instr) : i.rank P s' ≤ i.rank P s := by
  cases i with
  | popOwner w => simp only [Instr.rank, (h w.pool).near, Nat.le_refl]
  | popGlobal w => simp only [Instr.rank, (h w.pool).ahead, Nat.le_refl]
  | steal w offset => simp only [Instr.rank, (h w.pool).finds, Nat.le_refl]
  | parked w =>
    simp only [Instr.rank]
    split
    · exact Nat.zero_le _
    · rw [if_neg fun hparked => absurd ((h w.pool).parked hparked) ‹_›]
  | testExit w =>
    simp only [Instr.rank, (h w.pool).stopping, (h w.pool).global, (h w.pool).near, Nat.le_refl]
  | _ => exact Nat.le_refl _

/-- Less is left to do, or as much is and one worker is closer to a task and none further away. -/
def Lowers (P : Process) (s : Shared) (i : Instr) (s' : Shared) (pushed : List Instr) : Prop :=
  s'.queued P + Config.weigh Instr.load pushed < s.queued P + i.load ∨
    s'.queued P + Config.weigh Instr.load pushed = s.queued P + i.load ∧
      (∀ j : Instr, j.rank P s' ≤ j.rank P s) ∧
        Config.weigh (Instr.rank P s') pushed < i.rank P s'

section Lowers

variable {P : Process} {s s' : Shared} {i : Instr} {pushed : List Instr} {p : Nat} {pool : Pool}
  {w : Worker}

theorem lowers_of_load (hqueued : s'.queued P = s.queued P)
    (hload : Config.weigh Instr.load pushed < i.load) : Lowers P s i s' pushed := by
  refine .inl ?_
  rw [hqueued]
  exact Nat.add_lt_add_left hload _

theorem lowers_of_next {j : Instr} (hload : j.load = i.load) (hrank : j.rank P s < i.rank P s) :
    Lowers P s i s [j] := by
  have hweigh (w : Instr → Nat) : Config.weigh w [j] = w j := by
    rw [Config.weigh_cons, Config.weigh_nil, Nat.add_zero]
  refine .inr ⟨?_, fun _ => Nat.le_refl _, ?_⟩
  · rw [hweigh, hload]
  · rw [hweigh]
    exact hrank

theorem lowers_of_still (hstill : (s.pools p).Still pool)
    (hload : Config.weigh Instr.load pushed = i.load)
    (hrank : Config.weigh (Instr.rank P (s.set p pool)) pushed < i.rank P (s.set p pool)) :
    Lowers P s i (s.set p pool) pushed := by
  have hweight : pool.weight (fun _ => 4) = (s.pools p).weight fun _ => 4 := by
    rw [Pool.weight, Pool.weight, hstill.global, hstill.localQueues]
  refine .inr ⟨?_, fun j => ?_, hrank⟩
  · rw [queued_set_of_eq hweight, hload]
  · refine rank_le (fun q => ?_) j
    rw [Shared.pools_set]
    split
    · rename_i heq
      exact heq ▸ hstill
    · exact .refl _

theorem lowers_of_take {task : Task} (hw : w ∈ P.workers)
    (hweight : pool.weight (fun _ => 4) + 4 = (s.pools w.pool).weight fun _ => 4) :
    Lowers P s i (s.set w.pool pool) [.start (some w) task] := by
  have hqueued := queued_set (s := s) (Process.mem_workers.mp hw).1 pool
  refine .inl ?_
  simp only [Config.weigh_cons, Config.weigh_nil, Instr.load]
  omega

theorem lowers_of_put {self : Option Worker} {op : Operation} {q : Nat} {task : Task}
    (hp : p < P.count)
    (hweight : pool.weight (fun _ => 4) = (s.pools p).weight (fun _ => 4) + 4)
    (hs' : s'.pools = (s.set p pool).pools) :
    Lowers P s (.submit self op q task) s' [.notify q] := by
  have hqueued := queued_set (s := s) hp pool
  have hsame : s'.queued P = (s.set p pool).queued P := by rw [Shared.queued, Shared.queued, hs']
  refine .inl ?_
  rw [hsame]
  simp only [Config.weigh_cons, Config.weigh_nil, Instr.load]
  omega

end Lowers

section Exec

variable {P : Process} {s s' : Shared} {i : Instr} {pushed : List Instr} {owner : Option Worker}

theorem Effect.lowers_of_search (h : Effect P s i s' pushed) (hplaced : i.Placed P.count owner)
    (howner : ∀ w ∈ owner, w ∈ P.workers) (hdone : i ∉ pushed) (hload : i.load = 0) :
    Lowers P s i s' pushed := by
  have hindex {w : Worker} (hw : owner = some w) : w.index < (P.settings w.pool).workerCount :=
    (Process.mem_workers.mp (howner w hw)).2
  cases h with
  | takesOwn queue_eq =>
    exact lowers_of_take (howner _ hplaced) (Pool.weight_of_cons queue_eq fun _ => 4)
  | takesGlobal global ok rest_eq =>
    exact lowers_of_take (howner _ hplaced) (Pool.weight_tail global rest_eq fun _ => 4)
  | steals queue_eq =>
    exact lowers_of_take (howner _ hplaced) (Pool.weight_of_concat queue_eq fun _ => 4)
  | hasNone queue_eq =>
    refine lowers_of_next rfl ?_
    simp only [Instr.rank, Pool.Near, queue_eq, ne_eq, not_true_eq_false, false_or]
    split_ifs <;> omega
  | @findsNone w global =>
    have hpos := (P.settings w.pool).workerCount_pos
    refine lowers_of_next rfl ?_
    simp only [Instr.rank, Pool.Ahead, global, ne_eq, not_true_eq_false, false_or]
    split_ifs <;> omega
  | triesNext hoffset queue_eq =>
    refine lowers_of_next rfl ?_
    simp only [Instr.rank, Pool.finds_succ queue_eq]
    split_ifs <;> omega
  | givesUp hoffset =>
    refine lowers_of_next rfl ?_
    simp only [Instr.rank, if_neg (Pool.not_finds hoffset)]
    omega
  | locks locked =>
    refine lowers_of_still ⟨rfl, rfl, rfl, List.Subset.refl _⟩ rfl ?_
    simp only [Instr.rank, Config.weigh_cons, Config.weigh_nil]
    omega
  | @doesNotWait w busy =>
    have hcond : (s.pools w.pool).stopping = true ∧ (s.pools w.pool).global = [] ∨
        (s.pools w.pool).Near (P.settings w.pool).workerCount w.index := by
      by_cases hglobal : (s.pools w.pool).global = []
      · exact .inl ⟨busy.resolve_right (not_not_intro hglobal), hglobal⟩
      · exact .inr (.inr (.inl hglobal))
    refine lowers_of_next rfl ?_
    simp only [Instr.rank, if_pos hcond]
    omega
  | looks | looksNext =>
    refine lowers_of_next rfl ?_
    simp only [Instr.rank]
    omega
  | @hasSeen w offset hoffset queue_ne =>
    have hnear := Pool.near_of_queue (hindex hplaced)
      (Nat.mod_lt (w.index + offset) (P.settings w.pool).workerCount_pos) queue_ne
    refine lowers_of_next rfl ?_
    simp only [Instr.rank, if_pos (Or.inr hnear)]
    omega
  | hasLooked hoffset =>
    refine lowers_of_next rfl ?_
    simp only [Instr.rank]
    omega
  | parks w =>
    refine lowers_of_still ⟨rfl, rfl, rfl, List.subset_cons_self _ _⟩ rfl ?_
    simp [Instr.rank]
  | resumes locked parked =>
    refine lowers_of_still ⟨rfl, rfl, rfl, List.Subset.refl _⟩ rfl ?_
    simp only [Instr.rank, Config.weigh_cons, Config.weigh_nil,
      Shared.pools_set, if_pos, if_neg parked]
    omega
  | wakesUp parked => exact absurd (List.mem_singleton_self _) hdone
  | testsLocal stopping global =>
    refine lowers_of_next rfl ?_
    simp only [Instr.rank, if_pos (Or.inl (And.intro stopping global))]
    omega
  | @goesOn w busy =>
    have hexit : ¬((s.pools w.pool).stopping = true ∧ (s.pools w.pool).global = []) := by
      rintro ⟨hstopping, hglobal⟩
      obtain hnot | hne := busy
      · rw [hstopping] at hnot
        cases hnot
      · exact hne hglobal
    have hstill : (s.pools w.pool).Still { s.pools w.pool with locked := false } :=
      ⟨rfl, rfl, rfl, List.Subset.refl _⟩
    refine lowers_of_still hstill rfl ?_
    simp only [Instr.rank, Config.weigh_cons, Config.weigh_nil, Shared.pools_set, if_pos,
      hstill.near, hstill.global, hexit, false_or]
    split_ifs <;> omega
  | testsNext hindex queue_eq =>
    refine lowers_of_next rfl ?_
    simp only [Instr.rank]
    omega
  | @hasWork w index hvictim queue_ne =>
    have hnear := Pool.near_of_queue (hindex hplaced) hvictim queue_ne
    have hstill : (s.pools w.pool).Still { s.pools w.pool with locked := false } :=
      ⟨rfl, rfl, rfl, List.Subset.refl _⟩
    refine lowers_of_still hstill rfl ?_
    simp only [Instr.rank, Config.weigh_cons, Config.weigh_nil, Shared.pools_set, if_pos,
      hstill.near, hnear]
    omega
  | exits hindex =>
    refine lowers_of_still ⟨rfl, rfl, rfl, List.Subset.refl _⟩ rfl ?_
    simp only [Instr.rank, Config.weigh_nil]
    omega
  | calls op hp code => obtain ⟨rfl, rfl⟩ | ⟨task, rfl⟩ := code <;> cases hload
  | _ => cases hload

theorem Effect.lowers (h : Effect P s i s' pushed) (hs : s.Ok P) (hplaced : i.Placed P.count owner)
    (howner : ∀ w ∈ owner, w ∈ P.workers) (hdone : i ∉ pushed) : Lowers P s i s' pushed := by
  by_cases hload : i.load = 0
  · exact h.lowers_of_search hplaced howner hdone hload
  cases h with
  | ends | refuses | runsHere | wakesNobody | starts | throws | terminates =>
    exact lowers_of_load rfl (by simp [Instr.load])
  | calls op hp code =>
    obtain ⟨rfl, rfl⟩ | ⟨task, rfl⟩ := code <;> simp at hdone
  | destroys hp => simp at hdone
  | pushes op locked stopping ok global =>
    exact lowers_of_put hplaced.2 (Pool.weight_append global fun _ => 4) rfl
  | pushesOwner w op p task =>
    have hw := Process.mem_workers.mp (howner w hplaced.1.symm)
    have hlength := hw.2
    rw [← (hs w.pool).localQueues] at hlength
    exact lowers_of_put hw.1 (Pool.weight_cons hlength task fun _ => 4) rfl
  | returns self task | catches self packaged =>
    cases self <;> exact lowers_of_load rfl (by simp [Instr.load])
  | wakes | stops | wakesAll | joins =>
    exact lowers_of_load (queued_set_of_eq rfl) (by simp [Instr.load])
  | _ => exact absurd rfl hload

end Exec

/-- The caller of the pools does not decide about it, and it is no spurious wakeup. -/
def Choice.own : Choice → Bool
  | .submit _ _ | .destroy _ | .spurious => false
  | _ => true

section Step

variable {P : Process} {c c' : Config} {t : Nat} {x : Choice}

theorem not_mem_of_own {s s' : Shared} {i : Instr} {pushed : List Instr} (hs : s.Ok P)
    (h : Instr.exec P.count P.settings t i x s = some (s', pushed)) (hx : x.own = true) :
    i ∉ pushed := by
  have heffect := effect_of_exec (t := t) hs h
  have hrunning : s.terminated = false := not_terminated_of_exec (t := t) h
  cases heffect with
  | @calls i self op p hp code =>
    obtain ⟨rfl, rfl⟩ | ⟨task, rfl⟩ := code
    · cases x <;> simp [Instr.exec, hrunning, Choice.own] at h hx
    · cases self <;> cases x <;> simp [Instr.exec, hrunning, Choice.own] at h hx
  | destroys hp => cases x <;> simp [Instr.exec, hrunning, Choice.own] at h hx
  | wakesUp parked =>
    cases x <;> simp [Instr.exec, Instr.execParked, hrunning, parked, Choice.own] at h hx
  | returns self task | catches self packaged => cases self <;> simp
  | _ => simp

/-- What is left to do, and then how far the workers are from it. -/
def remaining (P : Process) (c : Config) : Nat ×ₗ Nat :=
  toLex (c.shared.queued P + c.total Instr.load, c.total (Instr.rank P c.shared))

theorem remaining_lt (h : Tasks P c) (hnext : P.machine.next c t x = some c') (hx : x.own = true) :
    remaining P c' < remaining P c := by
  obtain ⟨i, rest, s, pushed, htop, hexec, rfl⟩ := Machine.exec_of_next hnext
  have heffect := effect_of_exec (t := t) h.threads.ok hexec
  have hplaced := h.threads.placed t i (Library.Config.active_of_top htop)
  have hload := Library.Config.total_replace Instr.load htop s pushed
  have hrank := Library.Config.total_replace (Instr.rank P s) htop s pushed
  rw [remaining, remaining, Prod.Lex.toLex_lt_toLex, Library.Config.shared_replace]
  obtain hless | ⟨hsame, hle, hlt⟩ :=
    heffect.lowers h.threads.ok hplaced getElem?_workers (not_mem_of_own (t := t) h.threads.ok hexec hx)
  · exact .inl (by omega)
  · have hmono := Library.Config.total_mono hle c
    exact .inr ⟨by omega, by omega⟩

end Step

end UnixNotes.ThreadPool
