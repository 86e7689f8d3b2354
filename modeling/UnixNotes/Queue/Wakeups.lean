import Mathlib.Data.Finset.Powerset
import UnixNotes.Queue.Stock

namespace UnixNotes.Queue

open Library

variable {α : Type}

namespace Instr

def asks (condition : Condition) : Instr α → Nat
  | .acquire op _ | .parked op => op.asks condition
  | _ => 0

def notifies (condition : Condition) : Instr α → Nat
  | .notify (.one condition') => if condition' = condition then 1 else 0
  | _ => 0

theorem notifies_acquire (condition : Condition) (op : Operation α) (expired : Bool) :
    (acquire op expired).notifies condition = 0 := rfl

end Instr

/-- If `added` more is put into the stock and `notices` more threads are notified, those whom the
notifications may leave parked leave others who ask for the whole stock. -/
def Covered (c : Config α) (condition : Condition) (added notices : Nat) : Prop :=
  ∀ left ∈ (c.shared.waiting condition).powerset, left.Nonempty →
    left.card + (c.total (Instr.notifies condition) + notices) ≤
      (c.shared.waiting condition).card →
    c.shared.queue.stock condition + added + ∑ t ∈ left, c.load (Instr.asks condition) t ≤
      c.total (Instr.asks condition)

instance (c : Config α) (condition : Condition) (added notices : Nat) :
    Decidable (Covered c condition added notices) :=
  inferInstanceAs (Decidable (∀ left ∈ (c.shared.waiting condition).powerset, left.Nonempty →
    left.card + (c.total (Instr.notifies condition) + notices) ≤
      (c.shared.waiting condition).card →
    c.shared.queue.stock condition + added + ∑ t ∈ left, c.load (Instr.asks condition) t ≤
      c.total (Instr.asks condition)))

/-- A single `notify_one` is enough for the `added` that a batch puts into the stock. -/
def OneEnough (c : Config α) (condition : Condition) (added : Nat) : Prop :=
  c.shared.queue.closed = true ∨ added ≤ 1 ∨ Covered c condition added 1

instance (c : Config α) (condition : Condition) (added : Nat) :
    Decidable (OneEnough c condition added) :=
  inferInstanceAs (Decidable (_ ∨ _ ∨ _))

def batchAdds (c : Config α) : Instr α → Option (Condition × Nat)
  | .acquire (.pushBatch values) _ =>
    some (.notEmpty, min values.length (c.shared.queue.stock .notFull))
  | .acquire (.popBatch output) _ =>
    some (.notFull, min output.length (c.shared.queue.stock .notEmpty))
  | _ => none

abbrev SignalsEnough (c : Config α) (_ : Nat) (i : Instr α) : Prop :=
  ∀ batch ∈ batchAdds c i, OneEnough c batch.1 batch.2

def Parking (c : Config α) : Prop :=
  ∀ condition, ∀ t ∈ c.shared.waiting condition, ∃ op rest wait,
    c.stack t = .parked op :: rest ∧ op.wait = some wait ∧ wait.condition = condition ∧
      0 < op.asks condition

/-- Who is parked on the condition variable of a closed queue is going to be notified. -/
def Released (c : Config α) : Prop :=
  ∀ condition, c.shared.waiting condition = ∅ ∨ ∃ t, c.Active t (.notify (.all condition))

def Settled (c : Config α) : Prop :=
  ∀ t i, c.Active t i → i = .user ∨ ∃ op wait, i = .parked op ∧ op.wait = some wait ∧
    t ∈ c.shared.waiting wait.condition

section Covered

variable {c c' : Config α} {condition : Condition}

/-- With the notifications that are under way, nobody waits for what is there. -/
def Supplied (c : Config α) (condition : Condition) : Prop := Covered c condition 0 0

theorem Covered.mono {added notices added' notices' : Nat} (h : Covered c condition added notices)
    (hstock : c'.shared.queue.stock condition + added' ≤ c.shared.queue.stock condition + added)
    (hwaiting : c'.shared.waiting condition ⊆ c.shared.waiting condition)
    (hcard : (c'.shared.waiting condition).card + (c.total (Instr.notifies condition) + notices) ≤
      (c.shared.waiting condition).card + (c'.total (Instr.notifies condition) + notices'))
    (hload : ∀ t ∈ c'.shared.waiting condition,
      c'.load (Instr.asks condition) t = c.load (Instr.asks condition) t)
    (htotal : c.total (Instr.asks condition) ≤ c'.total (Instr.asks condition)) :
    Covered c' condition added' notices' := by
  intro left hleft hnonempty hle
  rw [Finset.mem_powerset] at hleft
  have hcovered := h left (Finset.mem_powerset.mpr (hleft.trans hwaiting)) hnonempty (by omega)
  have hsum : ∑ t ∈ left, c'.load (Instr.asks condition) t =
      ∑ t ∈ left, c.load (Instr.asks condition) t :=
    Finset.sum_congr rfl fun t ht => hload t (hleft ht)
  omega

theorem Supplied.of_stock (h : c.shared.queue.stock condition = 0) : Supplied c condition := by
  intro left _ _ _
  have := Config.sum_load_le_total (Instr.asks condition) c left
  omega

theorem Supplied.of_nobody (h : c.shared.waiting condition = ∅) : Supplied c condition := by
  intro left hleft hnonempty _
  rw [h, Finset.powerset_empty, Finset.mem_singleton] at hleft
  exact absurd hleft hnonempty.ne_empty

theorem Supplied.add_one (h : Supplied c condition) (hparking : Parking c) :
    Covered c condition 1 1 := by
  intro left hleft hnonempty hle
  rw [Finset.mem_powerset] at hleft
  obtain ⟨t, ht, hfresh⟩ : ∃ t ∈ c.shared.waiting condition, t ∉ left := by
    refine Finset.exists_mem_notMem_of_card_lt_card ?_
    omega
  obtain ⟨op, rest, wait, htop, -, -, hasks⟩ := hparking condition t ht
  have hload : 0 < c.load (Instr.asks condition) t :=
    Nat.lt_of_lt_of_le hasks (Config.le_load (w := Instr.asks condition) (Config.active_of_top htop))
  have hcovered := h (insert t left)
    (Finset.mem_powerset.mpr (Finset.insert_subset ht hleft)) (Finset.insert_nonempty t left)
    (by rw [Finset.card_insert_of_notMem hfresh]; omega)
  rw [Finset.sum_insert hfresh] at hcovered
  omega

end Covered

section Step

variable {c : Config α} {t : Nat} {i : Instr α} {rest pushed : List (Instr α)} {s : Shared α}
  {condition : Condition}

theorem Parking.not_waiting (h : Parking c) (htop : c.stack t = i :: rest)
    (hi : ∀ op, i ≠ .parked op) : t ∉ c.shared.waiting condition := by
  intro ht
  obtain ⟨op, _, _, htop', -⟩ := h condition t ht
  rw [htop] at htop'
  exact hi op (List.cons.inj htop').1

theorem Parking.replace (h : Parking c)
    (hwaiting : ∀ condition, ∀ t' ∈ s.waiting condition,
      t' ≠ t ∧ t' ∈ c.shared.waiting condition) (stack : List (Instr α)) :
    Parking (c.replace t s stack) := by
  intro condition t' ht'
  obtain ⟨hne, hold⟩ := hwaiting condition t' ht'
  obtain ⟨op, below, wait, htop, hparked⟩ := h condition t' hold
  exact ⟨op, below, wait, (Config.stack_replace_ne _ _ _ hne).trans htop, hparked⟩

theorem Supplied.replace (h : Supplied c condition) (htop : c.stack t = i :: rest)
    (hstock : s.queue.stock condition ≤ c.shared.queue.stock condition)
    (hwaiting : s.waiting condition ⊆ c.shared.waiting condition)
    (hcard : (s.waiting condition).card + i.notifies condition ≤
      (c.shared.waiting condition).card + Config.weigh (Instr.notifies condition) pushed)
    (hasks : i.asks condition ≤ Config.weigh (Instr.asks condition) pushed)
    (hload : t ∉ s.waiting condition ∨
      Config.weigh (Instr.asks condition) pushed = i.asks condition) :
    Supplied (c.replace t s (pushed ++ rest)) condition := by
  have htotal := Config.total_replace (Instr.asks condition) htop s pushed
  have hnotifies := Config.total_replace (Instr.notifies condition) htop s pushed
  refine Covered.mono h ?_ hwaiting ?_ (fun t' ht' => ?_) ?_
  · exact hstock
  · rw [Config.shared_replace]
    omega
  · obtain hnot | heq := hload
    · exact Config.load_replace_ne s _ fun ht => hnot (ht ▸ ht')
    · exact Config.load_replace htop s heq t'
  · omega

theorem waiting_unpark (s : Shared α) (parked : Condition) (t : Nat) :
    (s.unpark parked t).waiting condition =
      if condition = parked then (s.waiting parked).erase t else s.waiting condition := by
  exact Function.update_apply ..

theorem waiting_unpark_subset (s : Shared α) (parked : Condition) (t : Nat) :
    (s.unpark parked t).waiting condition ⊆ s.waiting condition := by
  rw [waiting_unpark]
  split
  · rename_i heq
    rw [heq]
    exact Finset.erase_subset t _
  · exact Finset.Subset.refl _

theorem weigh_notices (reply : Reply α) :
    Config.weigh (Instr.notifies condition)
        ((reply.notices false).map Instr.notify ++ [Instr.returned reply]) =
      if 0 < reply.adds condition then 1 else 0 := by
  cases reply with
  | pushed ok => cases ok <;> cases condition <;> rfl
  | popped ok => cases ok <;> cases condition <;> rfl
  | pushedBatch count => cases count <;> cases condition <;> rfl
  | poppedBatch count => cases count <;> cases condition <;> rfl
  | closed => cases condition <;> rfl
  | _ => cases condition <;> rfl

theorem weigh_asks_finish (notices : List Notice) (reply : Reply α) :
    Config.weigh (Instr.asks condition) (notices.map Instr.notify ++ [Instr.returned reply]) =
      0 := by
  refine Config.weigh_eq_zero fun j hj => ?_
  rw [List.mem_append, List.mem_map, List.mem_singleton] at hj
  obtain ⟨notice, -, rfl⟩ | rfl := hj <;> rfl

theorem Reply.adds_other {reply : Reply α} (h : 0 < reply.adds condition) :
    reply.adds condition.other = 0 := by
  cases condition <;> cases reply <;> first | rfl | cases h

variable {capacity : Nat} {f f' : Fifo α capacity} {op : Operation α} {reply : Reply α}

theorem Fifo.Does.asks_of_adds (h : f.Does op reply f') (hadds : 0 < reply.adds condition) :
    op.asks condition = 0 := by
  cases h with
  | accept pushes =>
    cases condition with
    | notEmpty => exact (Operation.asks_of_pushes pushes).2
    | notFull => cases hadds
  | take pops =>
    cases condition with
    | notEmpty => cases hadds
    | notFull => exact (Operation.asks_of_pops pops).2
  | acceptBatch =>
    cases condition with
    | notEmpty => rfl
    | notFull => cases hadds
  | takeBatch =>
    cases condition with
    | notEmpty => cases hadds
    | notFull => rfl
  | _ => cases condition <;> cases hadds

theorem Supplied.covered (h : Supplied c condition) (hparking : Parking c) {added : Nat}
    (hrunning : c.shared.queue.closed = false) (hadded : 0 < added)
    (henough : OneEnough c condition added) : Covered c condition added 1 := by
  obtain hclosed | hone | hcovered := henough
  · rw [hrunning] at hclosed
    cases hclosed
  · rw [show added = 1 by omega]
    exact h.add_one hparking
  · exact hcovered

theorem Supplied.signalled (h : Supplied c condition) (hparking : Parking c)
    (hf : c.shared.queue.Represents f) (hrunning : c.shared.queue.closed = false)
    {expired : Bool} (hok : SignalsEnough c t (.acquire op expired)) (hdoes : f.Does op reply f')
    (hadds : 0 < reply.adds condition) : Covered c condition (reply.adds condition) 1 := by
  cases hdoes with
  | accept =>
    cases condition with
    | notEmpty => exact h.add_one hparking
    | notFull => cases hadds
  | take =>
    cases condition with
    | notEmpty => cases hadds
    | notFull => exact h.add_one hparking
  | acceptBatch =>
    cases condition with
    | notEmpty =>
      refine h.covered hparking hrunning hadds ?_
      have henough := hok _ rfl
      rw [Fifo.stock_eq hf] at henough
      exact henough
    | notFull => cases hadds
  | takeBatch =>
    cases condition with
    | notEmpty => cases hadds
    | notFull =>
      refine h.covered hparking hrunning hadds ?_
      have henough := hok _ rfl
      rw [Fifo.stock_eq hf] at henough
      exact henough
  | _ => cases condition <;> cases hadds

theorem Supplied.finish (h : Supplied c condition) (hparking : Parking c)
    (hf : c.shared.queue.Represents f) (hrunning : c.shared.queue.closed = false)
    {expired : Bool} (htop : c.stack t = .acquire op expired :: rest)
    (hok : SignalsEnough c t (.acquire op expired)) (hdoes : f.Does op reply f')
    (hf' : s.queue.Represents f') (hwaiting : s.waiting = c.shared.waiting) :
    Supplied (c.replace t s
      ((reply.notices false).map Instr.notify ++ [Instr.returned reply] ++ rest)) condition := by
  have htotal := Config.total_replace (Instr.asks condition) htop s
    ((reply.notices false).map Instr.notify ++ [Instr.returned reply])
  have hnotifies := Config.total_replace (Instr.notifies condition) htop s
    ((reply.notices false).map Instr.notify ++ [Instr.returned reply])
  rw [weigh_asks_finish, Instr.asks] at htotal
  rw [weigh_notices, Instr.notifies_acquire] at hnotifies
  have hload : ∀ t' ∈ c.shared.waiting condition, (c.replace t s
      ((reply.notices false).map Instr.notify ++ [Instr.returned reply] ++ rest)).load
        (Instr.asks condition) t' = c.load (Instr.asks condition) t' := by
    intro t' ht'
    exact Config.load_replace_ne s _ fun heq => hparking.not_waiting htop nofun (heq ▸ ht')
  have hstock := hdoes.stock condition
  rw [← Fifo.stock_eq hf, ← Fifo.stock_eq hf'] at hstock
  by_cases hadds : 0 < reply.adds condition
  · rw [if_pos hadds] at hnotifies
    rw [hdoes.asks_of_adds hadds] at htotal
    rw [Reply.adds_other hadds] at hstock
    refine Covered.mono (h.signalled hparking hf hrunning hok hdoes hadds) ?_ ?_ ?_ ?_ ?_
    · rw [Config.shared_replace]
      omega
    · rw [Config.shared_replace, hwaiting]
    · rw [Config.shared_replace, hwaiting]
      omega
    · rwa [Config.shared_replace, hwaiting]
    · omega
  · rw [if_neg hadds] at hnotifies
    obtain hsated | hempty := hdoes.sated (hf.closed_eq ▸ hrunning) condition
    · intro left hleft hnonempty hle
      rw [Config.shared_replace, hwaiting] at hleft hle
      rw [Config.shared_replace]
      have hcovered := h left hleft hnonempty (by omega)
      have hsum : ∑ t' ∈ left, (c.replace t s
          ((reply.notices false).map Instr.notify ++ [Instr.returned reply] ++ rest)).load
            (Instr.asks condition) t' = ∑ t' ∈ left, c.load (Instr.asks condition) t' :=
        Finset.sum_congr rfl fun t' ht' => hload t' (Finset.mem_powerset.mp hleft ht')
      omega
    · exact Supplied.of_stock (hempty ▸ Fifo.stock_eq hf' condition)

theorem Released.replace (h : Released c) (htop : c.stack t = i :: rest)
    (hwaiting : ∀ condition, s.waiting condition ⊆ c.shared.waiting condition)
    (hi : ∀ condition, i ≠ .notify (.all condition)) : Released (c.replace t s (pushed ++ rest)) := by
  intro condition
  obtain hnobody | ⟨t', hactive⟩ := h condition
  · exact .inl (Finset.subset_empty.mp (hnobody ▸ hwaiting condition))
  · exact .inr ⟨t', Config.active_replace_of_ne htop s pushed hactive (hi condition).symm⟩

theorem unready {q : BlockingQueue α} (hf : q.Represents f) {wait : Wait}
    (hwait : op.wait = some wait) (hunready : op.ready q = false) :
    q.closed = false ∧ q.stock wait.condition = 0 ∧ 0 < op.asks wait.condition := by
  rw [Fifo.stock_eq hf]
  have hbounded := f.bounded
  have hfull := hf.full_iff
  have hempty := hf.empty_iff
  have hsize := hf.buffer.size_eq
  have hcapacity := hf.buffer_capacity_eq
  cases op <;> cases hwait <;>
    simp_all [Operation.ready, BlockingQueue.notFullReady, BlockingQueue.notEmptyReady,
      BlockingQueue.pushBatchReady, BlockingQueue.popBatchReady, Operation.asks, Fifo.stock,
      List.length_pos_iff]

end Step

structure Awake (capacity : Nat) (c : Config α) : Prop where
  sound : Sound capacity c
  parking : Parking c
  supplied : c.shared.queue.closed = false → ∀ condition, Supplied c condition
  released : c.shared.queue.closed = true → Released c

namespace Awake

variable {capacity : Nat} {c c' : Config α} {t : Nat} {i : Instr α} {rest pushed : List (Instr α)}
  {s : Shared α}

theorem replace (h : Awake capacity c) (htop : c.stack t = i :: rest)
    (hsound : Sound capacity (c.replace t s (pushed ++ rest)))
    (hqueue : s.queue = c.shared.queue)
    (hparking : ∀ condition, ∀ t' ∈ s.waiting condition,
      t' ≠ t ∧ t' ∈ c.shared.waiting condition)
    (hcard : ∀ condition, s.waiting condition = ∅ ∨ (s.waiting condition).card +
      i.notifies condition ≤
        (c.shared.waiting condition).card + Config.weigh (Instr.notifies condition) pushed)
    (hasks : ∀ condition, i.asks condition ≤ Config.weigh (Instr.asks condition) pushed)
    (hreleased : Released c → Released (c.replace t s (pushed ++ rest))) :
    Awake capacity (c.replace t s (pushed ++ rest)) where
  sound := hsound
  parking := h.parking.replace hparking _
  supplied hclosed condition := by
    rw [Config.shared_replace, hqueue] at hclosed
    obtain hnobody | hle := hcard condition
    · exact Supplied.of_nobody hnobody
    · refine (h.supplied hclosed condition).replace htop (by rw [hqueue])
        (fun t' ht' => (hparking condition t' ht').2) hle (hasks condition) ?_
      exact .inl fun ht => (hparking condition t ht).1 rfl
  released hclosed := by
    rw [Config.shared_replace, hqueue] at hclosed
    exact hreleased (h.released hclosed)

theorem finish (h : Awake capacity c) {op : Operation α} {expired : Bool}
    (htop : c.stack t = .acquire op expired :: rest)
    (hok : SignalsEnough c t (.acquire op expired))
    (hsound : Sound capacity (c.replace t s (pushed ++ rest)))
    (hended : op.ready c.shared.queue = true ∨ expired = true ∨ op.wait = none)
    (hfinish : Instr.finish op c.shared = some (s, pushed)) :
    Awake capacity (c.replace t s (pushed ++ rest)) := by
  obtain ⟨f, hf⟩ := h.sound.stands
  have hi := h.sound.instrs t _ (Config.active_of_top htop)
  obtain ⟨reply, f', hdoes, hf', hwaiting, -, -, -, rfl⟩ :=
    finish_spec hf.represents (over_of_sound hi hended) hfinish
  have hparking : Parking (c.replace t s
      ((reply.notices c.shared.queue.closed).map Instr.notify ++ [Instr.returned reply] ++
        rest)) := by
    refine h.parking.replace (fun condition t' ht' => ?_) _
    rw [hwaiting] at ht'
    exact ⟨fun heq => h.parking.not_waiting htop (by rintro _ ⟨⟩) (heq ▸ ht'), ht'⟩
  cases hclosed : c.shared.queue.closed with
  | false =>
    rw [hclosed] at hsound hparking
    refine ⟨hsound, hparking, fun _ condition => ?_, fun hclosed' condition => ?_⟩
    · exact (h.supplied hclosed condition).finish h.parking hf.represents hclosed htop hok hdoes hf'
        hwaiting
    · have hreply : reply = .closed := by
        rw [Config.shared_replace, hf'.closed_eq] at hclosed'
        rw [hf.represents.closed_eq] at hclosed
        cases hdoes <;> simp_all
      subst hreply
      refine .inr ⟨t, Config.active_replace_of_pushed htop s ?_⟩
      cases condition <;> simp [Reply.notices]
  | true =>
    rw [hclosed] at hsound hparking
    refine ⟨hsound, hparking, fun hclosed' => ?_, fun _ => ?_⟩
    · rw [Config.shared_replace, hf'.closed_eq,
        hdoes.closed_of_closed (hf.represents.closed_eq ▸ hclosed)] at hclosed'
      cases hclosed'
    · exact (h.released hclosed).replace htop (fun condition => by rw [hwaiting]) (by rintro _ ⟨⟩)

theorem park (h : Awake capacity c) {op : Operation α} {wait : Wait}
    (htop : c.stack t = .acquire op false :: rest) (hwait : op.wait = some wait)
    (hunready : op.ready c.shared.queue = false)
    (hsound : Sound capacity (c.replace t (c.shared.park wait.condition t)
      ([Instr.parked op] ++ rest))) :
    Awake capacity (c.replace t (c.shared.park wait.condition t) ([Instr.parked op] ++ rest)) := by
  obtain ⟨f, hf⟩ := h.sound.stands
  obtain ⟨hrunning, hstock, hasks⟩ := unready hf.represents hwait hunready
  have hself : (c.shared.park wait.condition t).waiting wait.condition =
      insert t (c.shared.waiting wait.condition) := Function.update_self ..
  have hother : ∀ condition ≠ wait.condition, (c.shared.park wait.condition t).waiting condition =
      c.shared.waiting condition := fun condition hne => Function.update_of_ne hne ..
  refine ⟨hsound, fun condition t' ht' => ?_, fun _ condition => ?_, fun hclosed => ?_⟩
  · by_cases ht : t' = t
    · subst ht
      have hcondition : wait.condition = condition := by
        by_contra hne
        rw [Config.shared_replace, hother condition (Ne.symm hne)] at ht'
        exact h.parking.not_waiting htop nofun ht'
      subst hcondition
      exact ⟨op, rest, wait, Config.stack_replace_self htop _ _, hwait, rfl, hasks⟩
    · have hold : t' ∈ c.shared.waiting condition := by
        rw [Config.shared_replace] at ht'
        by_cases hcondition : condition = wait.condition
        · subst hcondition
          rw [hself, Finset.mem_insert] at ht'
          exact ht'.resolve_left ht
        · rwa [hother condition hcondition] at ht'
      obtain ⟨op', below, wait', htop', hparked⟩ := h.parking condition t' hold
      exact ⟨op', below, wait', (Config.stack_replace_ne _ _ _ ht).trans htop', hparked⟩
  · by_cases hcondition : condition = wait.condition
    · subst hcondition
      exact Supplied.of_stock hstock
    · refine (h.supplied hrunning condition).replace htop (Nat.le_refl _) ?_ ?_ ?_ (.inr ?_)
      · rw [hother condition hcondition]
      · rw [hother condition hcondition]
        exact Nat.le_add_right _ _
      · simp [Instr.asks]
      · simp [Instr.asks]
  · rw [show
        (c.replace t (c.shared.park wait.condition t) ([Instr.parked op] ++ rest)).shared.queue =
      c.shared.queue from rfl, hrunning] at hclosed
    cases hclosed

theorem unpark (h : Awake capacity c) (htop : c.stack t = i :: rest) {parked : Condition} {t' : Nat}
    (ht' : t' ∈ c.shared.waiting parked)
    (hsound : Sound capacity (c.replace t (c.shared.unpark parked t') (pushed ++ rest)))
    (hself : ∀ condition, t ∉ (c.shared.unpark parked t').waiting condition)
    (hnotifies : ∀ condition, i.notifies condition ≤ if condition = parked then 1 else 0)
    (hasks : ∀ condition, i.asks condition ≤ Config.weigh (Instr.asks condition) pushed)
    (hi : ∀ condition, i ≠ .notify (.all condition)) :
    Awake capacity (c.replace t (c.shared.unpark parked t') (pushed ++ rest)) := by
  refine h.replace htop hsound rfl (fun condition t'' ht'' => ?_) (fun condition => .inr ?_) hasks
    fun hreleased => hreleased.replace htop (fun _ => waiting_unpark_subset _ _ _) hi
  · exact ⟨fun heq => hself condition (heq ▸ ht''), waiting_unpark_subset _ _ _ ht''⟩
  · have hle := hnotifies condition
    rw [waiting_unpark]
    split at hle
    · rename_i heq
      have := Finset.card_erase_add_one ht'
      rw [if_pos heq, heq] at *
      omega
    · rename_i hne
      rw [if_neg hne]
      omega

theorem step (h : Awake capacity c) (hok : SignalsEnough c t i)
    (hstep : (machine α).Step c t i c') : Awake capacity c' := by
  have hsound := h.sound.step hstep
  obtain @⟨rest, x, s, pushed, htop, hexec⟩ := hstep
  have hwaiting : (∀ op, i ≠ .parked op) → ∀ condition, ∀ t' ∈ c.shared.waiting condition,
      t' ≠ t ∧ t' ∈ c.shared.waiting condition := fun hi condition t' ht' =>
    ⟨fun heq => h.parking.not_waiting htop hi (heq ▸ ht'), ht'⟩
  cases moves_of_exec hexec with
  | call op =>
    refine h.replace htop hsound rfl (hwaiting nofun) (fun _ => .inr (Nat.le_add_right _ _))
      (fun _ => Nat.zero_le _) fun hreleased => ?_
    exact hreleased.replace htop (fun _ => Finset.Subset.refl _) nofun
  | finish ended finish => exact h.finish htop hok hsound ended finish
  | park waits unready => exact h.park htop waits unready hsound
  | @wake op wait expired waits _ notified =>
    refine h.replace htop hsound rfl (fun condition t' ht' => ⟨?_, ht'⟩)
      (fun _ => .inr (Nat.le_add_right _ _)) (fun _ => Nat.le_refl _) fun hreleased => ?_
    · rintro rfl
      obtain ⟨op', _, wait', htop', hwait', rfl, -⟩ := h.parking condition t' ht'
      rw [htop] at htop'
      cases htop'
      rw [waits] at hwait'
      cases hwait'
      exact notified ht'
    · exact hreleased.replace htop (fun _ => Finset.Subset.refl _) nofun
  | @leave op wait expired waits _ parked =>
    refine h.unpark htop parked hsound (fun condition ht => ?_) (fun _ => Nat.zero_le _)
      (fun _ => Nat.le_refl _) nofun
    obtain ⟨op', _, wait', htop', hwait', rfl, -⟩ :=
      h.parking condition t (waiting_unpark_subset _ _ _ ht)
    rw [htop] at htop'
    cases htop'
    rw [waits] at hwait'
    cases hwait'
    rw [waiting_unpark, if_pos rfl] at ht
    exact Finset.notMem_erase t _ ht
  | @notifyOne condition t' parked =>
    refine h.unpark htop parked hsound (fun condition' ht => ?_) (fun condition' => ?_)
      (fun _ => Nat.zero_le _) nofun
    · exact h.parking.not_waiting htop nofun (waiting_unpark_subset _ _ _ ht)
    · rw [Instr.notifies]
      split <;> simp_all
  | @notifyNobody condition nobody =>
    refine h.replace htop hsound rfl (hwaiting nofun) (fun condition' => ?_)
      (fun _ => Nat.zero_le _) fun hreleased => ?_
    · by_cases heq : condition = condition'
      · exact .inl (heq ▸ nobody)
      · refine .inr ?_
        rw [Instr.notifies, if_neg heq]
        exact Nat.le_add_right _ _
    · exact hreleased.replace htop (fun _ => Finset.Subset.refl _) nofun
  | notifyAll condition =>
    have hself : (c.shared.setWaiting condition ∅).waiting condition = ∅ := Function.update_self ..
    have hother : ∀ condition' ≠ condition,
        (c.shared.setWaiting condition ∅).waiting condition' = c.shared.waiting condition' :=
      fun condition' hne => Function.update_of_ne hne ..
    refine h.replace htop hsound rfl (fun condition' t' ht' => ?_) (fun condition' => ?_)
      (fun _ => Nat.zero_le _) fun hreleased condition' => ?_
    all_goals by_cases heq : condition' = condition
    · rw [heq, hself] at ht'
      cases ht'
    · rw [hother condition' heq] at ht'
      exact hwaiting nofun condition' t' ht'
    · exact .inl (heq ▸ hself)
    · exact .inr (by rw [hother condition' heq]; exact Nat.le_add_right _ _)
    · exact .inl (heq ▸ hself)
    · refine (hreleased condition').imp (hother condition' heq).trans fun ⟨t', hactive⟩ => ?_
      refine ⟨t', Config.active_replace_of_ne htop _ _ hactive fun hall => heq ?_⟩
      cases hall
      rfl
  | returned =>
    refine h.replace htop hsound rfl (hwaiting nofun) (fun _ => .inr (Nat.le_add_right _ _))
      (fun _ => Nat.zero_le _) fun hreleased => ?_
    exact hreleased.replace htop (fun _ => Finset.Subset.refl _) nofun

theorem init {queue : BlockingQueue α} (hmake : BlockingQueue.make capacity = .ok queue)
    (threads : Nat) : Awake capacity (init queue threads) :=
  ⟨Sound.init hmake threads, fun _ _ ht => (Finset.notMem_empty _ ht).elim,
    fun _ _ => Supplied.of_nobody rfl, fun _ _ => .inl rfl⟩

theorem stock_eq_zero (h : Awake capacity c) (hsettled : Settled c) {condition : Condition}
    (ht : t ∈ c.shared.waiting condition) : c.shared.queue.stock condition = 0 := by
  have hnone : ∀ t' notice, ¬c.Active t' (.notify notice) := fun t' notice hactive => by
    obtain heq | ⟨op, wait, heq, -⟩ := hsettled t' _ hactive <;> cases heq
  have hrunning : c.shared.queue.closed = false := by
    by_contra hclosed
    rw [Bool.not_eq_false] at hclosed
    obtain hnobody | ⟨t', hactive⟩ := h.released hclosed condition
    · rw [hnobody] at ht
      cases ht
    · exact hnone t' _ hactive
  have hnotifies : c.total (Instr.notifies condition) = 0 := by
    refine Config.total_eq_zero fun t' i hactive => ?_
    obtain rfl | ⟨op, wait, rfl, -⟩ := hsettled t' i hactive <;> rfl
  have htotal : c.total (Instr.asks condition) ≤
      ∑ t' ∈ c.shared.waiting condition, c.load (Instr.asks condition) t' := by
    refine Config.total_le_sum_load _ c fun t' ht' => Config.weigh_eq_zero fun i hi => ?_
    obtain rfl | ⟨op, wait, rfl, hwait, hparked⟩ := hsettled t' i hi
    · rfl
    · exact Operation.asks_of_wait hwait fun heq => ht' (heq ▸ hparked)
  have hsupplied := h.supplied hrunning condition _ (Finset.mem_powerset_self _) ⟨t, ht⟩
    (by omega)
  omega

end Awake

theorem no_lost_wakeup {capacity : Nat} {queue : BlockingQueue α}
    (hmake : BlockingQueue.make capacity = .ok queue) {threads : Nat} {c : Config α}
    (hrun : (machine α).Run SignalsEnough (init queue threads) c) (hsettled : Settled c) {t : Nat}
    {op : Operation α} {wait : Wait} (hparked : c.Active t (.parked op))
    (hwait : op.wait = some wait) :
    (wait.condition = .notEmpty → c.shared.queue.buffer.empty = true) ∧
      (wait.condition = .notFull → c.shared.queue.buffer.full = true) := by
  have h : Awake capacity c :=
    hrun.invariant (Awake.init hmake threads) fun hc hok hstep => hc.step hok hstep
  have ht : t ∈ c.shared.waiting wait.condition := by
    obtain heq | ⟨op', wait', heq, hwait', ht⟩ := hsettled t _ hparked
    · cases heq
    · cases heq
      cases hwait.symm.trans hwait'
      exact ht
  have hstock := h.stock_eq_zero hsettled ht
  obtain ⟨f, hf⟩ := h.sound.stands
  rw [Fifo.stock_eq hf.represents] at hstock
  have hbounded := f.bounded
  rw [hf.represents.empty_iff, hf.represents.full_iff]
  constructor
  · intro hcondition
    rw [hcondition, Fifo.stock] at hstock
    exact List.length_eq_zero_iff.mp hstock
  · intro hcondition
    rw [hcondition, Fifo.stock] at hstock
    omega

def Instr.settled (waiting : Condition → Finset Nat) (t : Nat) : Instr α → Bool
  | .user => true
  | .parked op => op.wait.any fun wait => t ∈ waiting wait.condition
  | _ => false

theorem settled_of_forall {c : Config α}
    (h : ∀ t < c.threads.length, ∀ i ∈ c.stack t, i.settled c.shared.waiting t = true) :
    Settled c := by
  intro t i hactive
  have ht : t < c.threads.length := by
    by_contra hle
    simp [Config.Active, Config.stack, List.getD, List.getElem?_eq_none (Nat.not_lt.mp hle)]
      at hactive
  have hi := h t ht i hactive
  cases i with
  | user => exact .inl rfl
  | parked op =>
    obtain ⟨wait, hwait, hparked⟩ := (Option.any_eq_true _ _).mp hi
    exact .inr ⟨op, wait, rfl, hwait, of_decide_eq_true hparked⟩
  | _ => cases hi

def batchTaken : List (Nat × Choice Nat) :=
  [(0, .call (.popBatch [0, 0])), (0, .next), (1, .call (.popBatch [0, 0])), (1, .next),
    (2, .call (.pushBatch [1, 2])), (2, .next), (2, .notify 0), (2, .next), (0, .next), (0, .next),
    (0, .next), (0, .next)]

theorem no_lost_wakeup_batch :
    ((machine Nat).follow (init small 3) batchTaken).shared.queue.buffer.empty = true := by
  have hrun : (machine Nat).Run SignalsEnough (init small 3)
      ((machine Nat).follow (init small 3) batchTaken) := Machine.run_follow (by decide)
  have hparked : ((machine Nat).follow (init small 3) batchTaken).Active 1
      (.parked (.popBatch [0, 0])) := by decide
  exact (no_lost_wakeup make_two hrun (settled_of_forall (by decide)) hparked rfl).1 rfl

def batchMissed : List (Nat × Choice Nat) :=
  [(0, .call (.pop 0)), (0, .next), (1, .call (.pop 0)), (1, .next),
    (2, .call (.pushBatch [1, 2])), (2, .next), (2, .notify 0), (2, .next), (0, .next), (0, .next),
    (0, .next), (0, .next)]

theorem wakeup_lost : ∃ c : Config Nat, (machine Nat).Reaches (init small 3) c ∧ Settled c ∧
    c.Active 1 (.parked (.pop 0)) ∧ c.shared.queue.buffer.empty = false :=
  ⟨_, Machine.reaches_follow batchMissed, settled_of_forall (by decide),
    by decide, by decide⟩

end UnixNotes.Queue
