import UnixNotes.Queue.Moves

namespace UnixNotes.Queue

open Library

variable {α : Type}

/-- Thread `t` carries out the call `op` with this reply, in one critical section. -/
structure Completes (c : Config α) (t : Nat) (op : Operation α) (reply : Reply α)
    (c' : Config α) : Prop where
  step : ∃ expired, (machine α).Step c t (.acquire op expired) c'
  replies : ∃ notices rest, c'.stack t = List.map .notify notices ++ .returned reply :: rest

def contents (c : Config α) : List α := c.shared.queue.buffer.contents

/-- The queue at `c` is a FIFO of at most `capacity` elements, and so it is after any call. -/
structure BoundedFifo (capacity : Nat) (c : Config α) : Prop where
  in_order : c.shared.popped ++ contents c = c.shared.pushed
  bounded : (contents c).length ≤ capacity
  no_fault : ∀ t fault, ¬c.Active t (.threw fault)
  quiet : ∀ {t i c'}, (machine α).Step c t i c' → (∃ op reply, Completes c t op reply c') ∨
    c'.shared.queue = c.shared.queue ∧ c'.shared.pushed = c.shared.pushed ∧
      c'.shared.popped = c.shared.popped
  does : ∀ {t op reply c'}, Completes c t op reply c' →
    c'.shared.pushed = c.shared.pushed ++ op.given reply ∧
    c'.shared.popped = c.shared.popped ++ reply.taken ∧
    ∃ f f' : Fifo α capacity, c.shared.queue.Represents f ∧ f.Does op reply f' ∧
      c'.shared.queue.Represents f'
  untouched : ∀ {t op reply c'}, Completes c t op reply c' → reply.failed = true →
    c'.shared.queue = c.shared.queue ∧ op.Untouched reply
  failed_pop : ∀ {t target reply c'}, Completes c t (.pop target) reply c' →
    reply.failed = true → c.shared.queue.closed = true ∧ contents c = []
  failed_popBatch : ∀ {t output reply c'}, Completes c t (.popBatch output) reply c' →
    reply.failed = true → output = [] ∨ c.shared.queue.closed = true ∧ contents c = []
  closed : c.shared.queue.closed = true → ∀ {c'}, (machine α).Reaches c c' →
    c'.shared.queue.closed = true ∧ c'.shared.pushed = c.shared.pushed
  poppable : c.shared.queue.closed = true → ∀ {t rest}, c.stack t = .user :: rest →
    ∃ c', (machine α).Reaches c c' ∧ contents c' = [] ∧ c'.shared.popped = c.shared.pushed

section Step

variable {capacity : Nat} {c c' : Config α} {t : Nat} {i : Instr α} {f : Fifo α capacity}
  {op : Operation α} {reply : Reply α}

theorem Shared.Stands.contents_eq (h : c.shared.Stands f) : contents c = f.elements :=
  h.represents.buffer.toHolds.contents_eq

theorem completes_or_quiet (h : Sound capacity c) (hstep : (machine α).Step c t i c') :
    (∃ op reply, Completes c t op reply c') ∨
      c'.shared.queue = c.shared.queue ∧ c'.shared.pushed = c.shared.pushed ∧
        c'.shared.popped = c.shared.popped := by
  have htaken := hstep
  obtain @⟨rest, x, s, pushed, htop, hexec⟩ := hstep
  obtain ⟨f, hf⟩ := h.stands
  have hi : i.Sound := h.instrs t i (Config.active_of_top htop)
  cases moves_of_exec hexec with
  | @finish op expired _ _ ended finish =>
    obtain ⟨reply, f', -, -, -, -, -, -, rfl⟩ :=
      finish_spec hf.represents (over_of_sound hi ended) finish
    refine .inl ⟨op, reply, ⟨expired, htaken⟩, reply.notices c.shared.queue.closed, rest, ?_⟩
    rw [Config.stack_replace_self htop, List.append_assoc, List.singleton_append]
  | _ => exact .inr ⟨rfl, rfl, rfl⟩

theorem reply_eq {notices notices' : List Notice} {reply' : Reply α}
    {rest below : List (Instr α)} (h : List.map Instr.notify notices ++ .returned reply :: rest =
      List.map Instr.notify notices' ++ .returned reply' :: below) : reply = reply' := by
  induction notices generalizing notices' with
  | nil =>
    cases notices' with
    | nil => cases h; rfl
    | cons => cases h
  | cons notice notices ih =>
    cases notices' with
    | nil => cases h
    | cons => exact ih (List.cons.inj h).2

theorem Completes.spec (h : Sound capacity c) (hcompletes : Completes c t op reply c') :
    ∃ f f' : Fifo α capacity, c.shared.Stands f ∧ f.Does op reply f' ∧ c'.shared.Stands f' ∧
      c'.shared.pushed = c.shared.pushed ++ op.given reply ∧
      c'.shared.popped = c.shared.popped ++ reply.taken ∧
      (reply.failed = true → c'.shared.queue = c.shared.queue) := by
  obtain ⟨⟨expired, hstep⟩, notices, below, hreplies⟩ := hcompletes
  have hsound := h.step hstep
  obtain @⟨rest, x, s, pushed, htop, hexec⟩ := hstep
  obtain ⟨f, hf⟩ := h.stands
  have hi := h.instrs t _ (Config.active_of_top htop)
  rw [Config.stack_replace_self htop] at hreplies
  cases moves_of_exec hexec with
  | finish ended finish =>
    obtain ⟨reply', f', hdoes, hrepresents, -, hpushed, hpopped, hfailed, rfl⟩ :=
      finish_spec hf.represents (over_of_sound hi ended) finish
    rw [List.append_assoc, List.singleton_append] at hreplies
    obtain rfl := reply_eq hreplies
    exact ⟨f, f', hf, hdoes, hf.of_does hdoes hrepresents hpushed hpopped, hpushed, hpopped,
      hfailed⟩
  | park => cases notices <;> cases hreplies

theorem closed_of_step (h : Sound capacity c) (hstep : (machine α).Step c t i c')
    (hclosed : c.shared.queue.closed = true) :
    c'.shared.queue.closed = true ∧ c'.shared.pushed = c.shared.pushed := by
  obtain ⟨op, reply, hcompletes⟩ | ⟨hqueue, hpushed, -⟩ := completes_or_quiet h hstep
  · obtain ⟨f, f', hf, hdoes, hf', hpushed, -⟩ := hcompletes.spec h
    rw [hf.represents.closed_eq] at hclosed
    rw [hf'.represents.closed_eq, hpushed, hdoes.given_of_closed hclosed, List.append_nil]
    exact ⟨hdoes.closed_of_closed hclosed, rfl⟩
  · rw [hqueue]
    exact ⟨hclosed, hpushed⟩

theorem closed_of_reaches (h : Sound capacity c) (hclosed : c.shared.queue.closed = true)
    (hreaches : (machine α).Reaches c c') :
    c'.shared.queue.closed = true ∧ c'.shared.pushed = c.shared.pushed := by
  induction hreaches with
  | start => exact ⟨hclosed, rfl⟩
  | step hrun _ hstep ih =>
    have hnext := closed_of_step (h.run hrun) hstep ih.1
    exact ⟨hnext.1, hnext.2.trans ih.2⟩

theorem step_user {rest : List (Instr α)} (htop : c.stack t = .user :: rest) (op : Operation α) :
    (machine α).Step c t .user
      (c.replace t c.shared ([Instr.acquire op false, .user] ++ rest)) :=
  .exec (x := .call op) htop rfl

theorem exists_step_notify {condition : Condition} {rest : List (Instr α)}
    (htop : c.stack t = .notify (.one condition) :: rest) :
    ∃ c', (machine α).Step c t (.notify (.one condition)) c' ∧ c'.stack t = rest ∧
      contents c' = contents c := by
  by_cases hnobody : c.shared.waiting condition = ∅
  · refine ⟨c.replace t c.shared ([] ++ rest), .exec (x := .next) htop ?_,
      Config.stack_replace_self htop _ _, rfl⟩
    simp [machine, Instr.exec, Instr.execNotify, hnobody]
  · obtain ⟨t', hparked⟩ := Finset.nonempty_iff_ne_empty.mpr hnobody
    refine ⟨c.replace t (c.shared.unpark condition t') ([] ++ rest),
      .exec (x := .notify t') htop ?_, Config.stack_replace_self htop _ _, rfl⟩
    simp [machine, Instr.exec, Instr.execNotify, hparked]

theorem exec_pop (h : c.shared.Stands f) (hclosed : c.shared.queue.closed = true) {value : α}
    {values : List α} (hcontents : contents c = value :: values) :
    ∃ s, Instr.exec t (.acquire (.pop value) false) .next c.shared =
      some (s, [.notify (.one .notFull), .returned (.popped true value)]) ∧
        s.queue.buffer.contents = values := by
  have hready : (Operation.pop value).ready c.shared.queue = true := by
    simp [Operation.ready, BlockingQueue.notEmptyReady, hclosed]
  obtain ⟨⟨queue, reply, notices⟩, f', hattempt, hdoes, hrepresents, hnotices, -⟩ :=
    h.represents.attempt (.inl hready)
  rw [hready] at hattempt
  rw [h.contents_eq] at hcontents
  cases hdoes with
  | accept pushes => cases pushes
  | refuse pushes => cases pushes
  | noValue _ reason => rw [hcontents] at reason; cases reason.1
  | take _ elements _ =>
    obtain ⟨rfl, rfl⟩ := List.cons.inj (hcontents.symm.trans elements)
    have hvalues : queue.buffer.contents = f'.elements := hrepresents.buffer.toHolds.contents_eq
    refine ⟨{ c.shared with
      queue := queue
      pushed := c.shared.pushed ++ (Operation.pop value).given (.popped true value)
      popped := c.shared.popped ++ [value] }, ?_, hvalues⟩
    simp only [Instr.exec, Instr.execAcquire, Operation.wait, hready, Bool.true_or, if_true,
      Instr.finish, hattempt]
    cases hnotices
    rfl

theorem pop_one (h : Sound capacity c) (hclosed : c.shared.queue.closed = true)
    {rest : List (Instr α)} (htop : c.stack t = .user :: rest) {value : α} {values : List α}
    (hcontents : contents c = value :: values) :
    ∃ c', (machine α).Reaches c c' ∧ c'.stack t = .user :: rest ∧ contents c' = values := by
  have hcall := step_user htop (.pop value)
  have htop₁ := Config.stack_replace_self htop c.shared
    ([Instr.acquire (.pop value) false, .user] ++ rest)
  obtain ⟨f, hf⟩ := h.stands
  obtain ⟨s, hpop, hvalues⟩ := exec_pop (t := t) hf hclosed hcontents
  have hacquire := Machine.Step.exec (M := machine α) (x := .next) htop₁ hpop
  have htop₂ := Config.stack_replace_self htop₁ s
    ([Instr.notify (.one .notFull), .returned (.popped true value)] ++ .user :: rest)
  obtain ⟨c₃, hnotify, htop₃, hcontents₃⟩ := exists_step_notify htop₂
  refine ⟨c₃.replace t c₃.shared ([] ++ .user :: rest), ?_, ?_, hcontents₃.trans hvalues⟩
  · exact (((Machine.Run.start.step trivial hcall).step trivial hacquire).step trivial
      hnotify).step trivial (.exec (x := .next) htop₃ rfl)
  · exact Config.stack_replace_self htop₃ _ _

theorem pop_rest (h : Sound capacity c) (hclosed : c.shared.queue.closed = true)
    {rest : List (Instr α)} (htop : c.stack t = .user :: rest) :
    ∃ c', (machine α).Reaches c c' ∧ contents c' = [] := by
  generalize hcontents : contents c = values
  induction values generalizing c with
  | nil => exact ⟨c, .start, hcontents⟩
  | cons value values ih =>
    obtain ⟨c₁, hreaches, htop₁, hcontents₁⟩ := pop_one h hclosed htop hcontents
    have hclosed₁ := (closed_of_reaches h hclosed hreaches).1
    obtain ⟨c', hreaches', hempty⟩ := ih (h.run hreaches) hclosed₁ htop₁ hcontents₁
    exact ⟨c', hreaches.trans hreaches', hempty⟩

end Step

theorem queue_is_fifo {capacity : Nat} {queue : BlockingQueue α}
    (hmake : BlockingQueue.make capacity = .ok queue) {threads : Nat} {c : Config α}
    (hreaches : (machine α).Reaches (init queue threads) c) : BoundedFifo capacity c := by
  have h : Sound capacity c := (Sound.init hmake threads).run hreaches
  obtain ⟨f, hf⟩ := h.stands
  exact {
    in_order := by rw [hf.contents_eq, hf.in_order]
    bounded := by rw [hf.contents_eq]; exact f.bounded
    no_fault := fun t fault hthrew => h.instrs t _ hthrew
    quiet := completes_or_quiet h
    does := fun hcompletes => by
      obtain ⟨f, f', hf, hdoes, hf', hpushed, hpopped, -⟩ := hcompletes.spec h
      exact ⟨hpushed, hpopped, f, f', hf.represents, hdoes, hf'.represents⟩
    untouched := fun hcompletes hfailed => by
      obtain ⟨f, f', -, hdoes, -, -, -, hqueue⟩ := hcompletes.spec h
      exact ⟨hqueue hfailed, (hdoes.untouched_of_failed hfailed).2⟩
    failed_pop := fun hcompletes hfailed => by
      obtain ⟨f, f', hf, hdoes, -⟩ := hcompletes.spec h
      obtain ⟨hempty, hclosed⟩ := hdoes.empty_of_failed_pop hfailed
      exact ⟨hf.represents.closed_eq.trans hclosed, hf.contents_eq.trans hempty⟩
    failed_popBatch := fun hcompletes hfailed => by
      obtain ⟨f, f', hf, hdoes, -⟩ := hcompletes.spec h
      refine (hdoes.empty_of_failed_popBatch hfailed).imp_right fun ⟨hempty, hclosed⟩ => ?_
      exact ⟨hf.represents.closed_eq.trans hclosed, hf.contents_eq.trans hempty⟩
    closed := fun hclosed _ => closed_of_reaches h hclosed
    poppable := fun hclosed _ _ htop => by
      obtain ⟨c', hreaches', hempty⟩ := pop_rest h hclosed htop
      obtain ⟨f', hf'⟩ := (h.run hreaches').stands
      refine ⟨c', hreaches', hempty, ?_⟩
      have hpushed := (closed_of_reaches h hclosed hreaches').2
      rw [← hpushed, ← hf'.in_order, ← hf'.contents_eq, hempty, List.append_nil] }

def wrapped : List (Nat × Choice Nat) :=
  [(0, .call (.pushBatch [1, 2, 3])), (0, .next), (0, .next), (0, .next), (1, .call (.push 4)),
    (1, .next), (0, .call (.pop 0)), (0, .next), (0, .notify 1), (0, .next), (1, .next), (1, .next)]

theorem queue_is_fifo_wrapped :
    BoundedFifo 2 ((machine Nat).follow (init small 2) wrapped) ∧
      ((machine Nat).follow (init small 2) wrapped).shared.pushed = [1, 2, 4] ∧
        contents ((machine Nat).follow (init small 2) wrapped) = [2, 4] :=
  ⟨queue_is_fifo make_two (Machine.reaches_follow wrapped), by decide, by decide⟩

end UnixNotes.Queue
