import UnixNotes.Reactor.Reading

namespace UnixNotes.Reactor.Reading

open TcpConnection (State)

variable {s s' : Shared} {log events seg : List Event}

def Event.IsRead : Event → Prop
  | .read _ _ => True
  | _ => False

def Event.IsMessage : Event → Prop
  | .message _ _ => True
  | _ => False

theorem Event.Shows.isMessage {first : Nat} {data : ByteString} {event : Event}
    (h : event.Shows first data) : event.IsMessage := by
  cases event with
  | message => trivial
  | _ => exact h

/-- The loop of `handleRead` has recorded `events`. -/
structure Reads (s s' : Shared) (events : List Event) : Prop where
  state : s'.state = s.state
  messageCallback : s'.messageCallback = s.messageCallback
  retrieved : s'.retrieved = s.retrieved
  log : s'.log = s.log ++ events
  isRead : ∀ event ∈ events, event.IsRead
  shown : ∀ first data, .read first data ∈ events →
    (Event.message s.retrieved s'.inputBuffer.peek).Shows first data
  kept : ∃ rest, s'.inputBuffer.peek = s.inputBuffer.peek ++ rest

namespace Reads

theorem refl (s : Shared) : Reads s s [] :=
  ⟨rfl, rfl, rfl, (List.append_nil _).symm, nofun, nofun, [], (List.append_nil _).symm⟩

theorem append {chunk : Chunk} (h : Reads (s.append chunk) s' events) :
    Reads s s' (.read (s.retrieved + s.inputBuffer.readableBytes) chunk.val :: events) := by
  obtain ⟨rest, hrest⟩ := h.kept
  have hpeek : s'.inputBuffer.peek = s.inputBuffer.peek ++ (chunk.val ++ rest) := by
    rw [hrest, ← List.append_assoc]
    exact congrArg (· ++ rest) (Buffer.peek_append _ _)
  refine ⟨h.state, h.messageCallback, h.retrieved, ?_, ?_, fun first data hmem => ?_, _, hpeek⟩
  · rw [h.log]
    exact List.append_assoc _ [_] events
  · exact List.forall_mem_cons.mpr ⟨trivial, h.isRead⟩
  · rw [List.mem_cons] at hmem
    obtain heq | hmem := hmem
    · cases heq
      refine ⟨Nat.le_add_right _ _, ?_⟩
      rw [Nat.add_sub_cancel_left, hpeek, ← Buffer.length_peek, List.drop_left, List.take_left]
    · exact h.shown first data hmem

end Reads

theorem reads_readAll (s : Shared) (reads : List (Option Chunk)) :
    ∃ events, Reads s (s.readAll reads) events ∧
      (events ≠ [] ↔ reads.any Option.isSome = true) := by
  induction reads generalizing s with
  | nil => exact ⟨[], .refl s, iff_of_false (absurd rfl) nofun⟩
  | cons read reads ih =>
    cases read with
    | none => exact ih s
    | some chunk =>
      obtain ⟨events, hreads, -⟩ := ih (s.append chunk)
      exact ⟨_, hreads.append, iff_of_true (List.cons_ne_nil _ _) rfl⟩

/-- `seg` has been recorded, and the callback was used only if it was set. -/
structure Extends (s s' : Shared) (seg : List Event) : Prop where
  log : s'.log = s.log ++ seg
  mute : s.messageCallback = false → s'.messageCallback = false ∧ ∀ event ∈ seg, ¬event.IsMessage

namespace Extends

theorem refl (s : Shared) : Extends s s [] := ⟨(List.append_nil _).symm, fun h => ⟨h, nofun⟩⟩

theorem trans {s'' : Shared} {seg' : List Event} (h : Extends s s' seg)
    (h' : Extends s' s'' seg') : Extends s s'' (seg ++ seg') := by
  refine ⟨by rw [h'.log, h.log, List.append_assoc], fun hmute => ?_⟩
  obtain ⟨hmute', hseg⟩ := h.mute hmute
  obtain ⟨hmute'', hseg'⟩ := h'.mute hmute'
  exact ⟨hmute'', fun event hmem => (List.mem_append.mp hmem).elim (hseg event) (hseg' event)⟩

theorem handleClose (s : Shared) : ∃ seg, Extends s s.handleClose seg := by
  rw [Shared.handleClose]
  split
  · exact ⟨[], refl s⟩
  · refine ⟨[.closeCallback], rfl, fun h => ⟨h, fun event hmem => ?_⟩⟩
    obtain rfl := List.mem_singleton.mp hmem
    exact id

theorem retrieve (s : Shared) (count : Nat) : Extends s (s.retrieve count) [] := by
  rw [Shared.retrieve]
  split
  · exact ⟨(List.append_nil _).symm, fun h => ⟨h, nofun⟩⟩
  · exact refl s

theorem message (s : Shared) (received : Bool) (response : Response) :
    ∃ seg, Extends s (s.message received response) seg := by
  rw [Shared.message]
  split
  · rename_i hset
    have hcalled : Extends s (s.record (.message s.retrieved s.inputBuffer.peek)) [_] :=
      ⟨rfl, fun hmute => by simp [hmute] at hset⟩
    have hretrieved := hcalled.trans (retrieve _ response.retrieved)
    split
    · obtain ⟨seg, hclosed⟩ := handleClose _
      exact ⟨_, hretrieved.trans hclosed⟩
    · exact ⟨_, hretrieved⟩
  · exact ⟨[], refl s⟩

end Extends

theorem Reads.extends (h : Reads s s' events) : Extends s s' events := by
  refine ⟨h.log, fun hmute => ⟨h.messageCallback.trans hmute, fun event hmem hmessage => ?_⟩⟩
  have hread := h.isRead event hmem
  cases event with
  | message => exact hread
  | _ => exact hmessage

theorem extends_readAll (s : Shared) (burst : Burst) :
    ∃ seg, Extends (s.readAll burst.reads) (s.handleRead burst) seg := by
  simp only [Shared.handleRead]
  obtain ⟨seg, hmessage⟩ := Extends.message (s.readAll burst.reads)
    (burst.reads.any Option.isSome) burst.response
  split
  · exact ⟨seg, hmessage⟩
  · obtain ⟨seg', hclose⟩ := Extends.handleClose
      ((s.readAll burst.reads).message (burst.reads.any Option.isSome) burst.response)
    exact ⟨_, hmessage.trans hclose⟩
  · exact Extends.handleClose _

theorem extends_step (s : Shared) (input : Input) : ∃ seg, Extends s (step s input) seg := by
  cases input with
  | readable burst =>
    obtain ⟨events, hreads, -⟩ := reads_readAll s burst.reads
    obtain ⟨seg, hextends⟩ := extends_readAll s burst
    exact ⟨_, hreads.extends.trans hextends⟩
  | shutdown =>
    simp only [step]
    split
    · exact ⟨[], (List.append_nil _).symm, fun h => ⟨h, nofun⟩⟩
    · exact ⟨[], .refl s⟩
  | close => exact Extends.handleClose s
  | abandon => exact ⟨[], (List.append_nil _).symm, fun _ => ⟨rfl, nofun⟩⟩

theorem mem_of_append_cons_eq {α : Type*} {a b : α} {l l' r r' : List α}
    (h : l ++ a :: r = l' ++ b :: r') (hne : a ≠ b) : b ∈ l ∨ a ∈ l' := by
  obtain ⟨x, rfl, hx⟩ | ⟨x, rfl, hx⟩ := List.append_eq_append_iff.mp h
  all_goals cases x with
    | nil => cases hx; exact absurd rfl hne
    | cons c x =>
      obtain ⟨rfl, -⟩ := List.cons_eq_cons.mp hx
      simp

def Lost (s : Shared) : Prop :=
  ∃ before first data after, s.log = before ++ .read first data :: after ∧
    (.closeCallback ∈ before ∨
      (∃ between rest, after = between ++ .closeCallback :: rest ∧
        ∀ event ∈ between, ¬event.IsMessage) ∨
      s.messageCallback = false ∧ ∀ event ∈ after, ¬event.IsMessage)

theorem Lost.extends (h : Lost s) (hextends : Extends s s' seg) : Lost s' := by
  obtain ⟨before, first, data, after, hlog, hlost⟩ := h
  refine ⟨before, first, data, after ++ seg, ?_, ?_⟩
  · rw [hextends.log, hlog, List.append_assoc, List.cons_append]
  · obtain hclosed | ⟨between, rest, rfl, hbetween⟩ | ⟨hmute, hafter⟩ := hlost
    · exact .inl hclosed
    · refine .inr (.inl ⟨between, rest ++ seg, ?_, hbetween⟩)
      rw [List.append_assoc, List.cons_append]
    · obtain ⟨hmute', hseg⟩ := hextends.mute hmute
      exact .inr (.inr ⟨hmute', fun event hmem =>
        (List.mem_append.mp hmem).elim (hafter event) (hseg event)⟩)

theorem Lost.not_delivered (h : Lost s) : ¬Delivered s.log := by
  obtain ⟨before, first, data, after, hlog, hlost⟩ := h
  intro hdelivered
  obtain ⟨hopen, between, event, rest, rfl, hbetween, hshows⟩ := hdelivered _ _ _ _ hlog
  have hmessage := hshows.isMessage
  obtain hclosed | ⟨between', rest', heq, hquiet⟩ | ⟨-, hquiet⟩ := hlost
  · exact hopen hclosed
  · have hne : event ≠ .closeCallback := by
      rintro rfl
      exact hmessage
    obtain hclosed | hmem := mem_of_append_cons_eq heq hne
    · exact hbetween hclosed
    · exact hquiet event hmem hmessage
  · exact hquiet event (by simp) hmessage

theorem Lost.run (h : Lost s) (life : List Input) : Lost (run s life) := by
  induction life generalizing s with
  | nil => exact h
  | cons input life ih =>
    obtain ⟨seg, hextends⟩ := extends_step s input
    exact ih (h.extends hextends)

theorem Delivered.append (h : Delivered log)
    (hseg : ∀ before first data after, seg = before ++ .read first data :: after →
      .closeCallback ∉ log ++ before ∧ ∃ between event rest, after = between ++ event :: rest ∧
        .closeCallback ∉ between ∧ event.Shows first data) : Delivered (log ++ seg) := by
  intro before first data after heq
  obtain ⟨x, rfl, hx⟩ | ⟨x, rfl, hx⟩ := List.append_eq_append_iff.mp heq
  · exact hseg x first data after hx
  · cases x with
    | nil => exact hseg [] first data after hx.symm |>.imp (by simp) id
    | cons e x =>
      obtain ⟨rfl, rfl⟩ := List.cons_eq_cons.mp hx
      obtain ⟨hopen, between, event, rest, rfl, hbetween, hshows⟩ := h before first data x rfl
      exact ⟨hopen, between, event, rest ++ seg, by simp, hbetween, hshows⟩

theorem Delivered.record {event : Event} (h : Delivered log) (hread : ¬event.IsRead) :
    Delivered (log ++ [event]) := by
  refine h.append fun before first data after heq => ?_
  have hmem : Event.read first data ∈ [event] := by simp [heq]
  obtain rfl := List.mem_singleton.mp hmem
  exact absurd trivial hread

theorem Delivered.shown {event : Event} (h : Delivered log) (hopen : .closeCallback ∉ log)
    (hread : ∀ event ∈ events, event.IsRead) (hmessage : event.IsMessage)
    (hshown : ∀ first data, .read first data ∈ events → event.Shows first data) :
    Delivered (log ++ (events ++ [event])) := by
  refine h.append fun before first data after heq => ?_
  have hne : event ≠ .read first data := by
    rintro rfl
    exact hmessage
  obtain ⟨x, rfl, hx⟩ | ⟨x, rfl, hx⟩ := List.append_eq_append_iff.mp heq
  · have hmem : Event.read first data ∈ [event] := by simp [hx]
    exact absurd (List.mem_singleton.mp hmem).symm hne
  · cases x with
    | nil => exact absurd (List.cons_eq_cons.mp hx).1.symm hne
    | cons e x =>
      obtain ⟨rfl, rfl⟩ := List.cons_eq_cons.mp hx
      refine ⟨fun hmem => ?_, x, event, [], rfl, fun hmem => ?_, hshown first data (by simp)⟩
      · obtain hmem | hmem := List.mem_append.mp hmem
        · exact hopen hmem
        · exact hread _ (List.mem_append_left _ hmem)
      · exact hread _ (List.mem_append_right _ (List.mem_cons_of_mem _ hmem))

structure Delivering (s : Shared) : Prop where
  delivered : Delivered s.log
  closed : .closeCallback ∈ s.log → s.state = .kDisconnected
  disconnected : s.state = .kDisconnected → .closeCallback ∈ s.log ∨ s.messageCallback = false

namespace Delivering

theorem init (messageCallback : Bool) :
    Delivering { messageCallback := messageCallback } :=
  ⟨fun before first data after h => by simp at h, nofun, nofun⟩

theorem handleClose (h : Delivering s) : Delivering s.handleClose := by
  rw [Shared.handleClose]
  split
  · exact h
  · refine ⟨h.delivered.record id, fun _ => rfl, fun _ => .inl ?_⟩
    exact List.mem_append_right _ (List.mem_singleton_self _)

theorem retrieve (h : Delivering s) (count : Nat) : Delivering (s.retrieve count) := by
  rw [Shared.retrieve]
  split
  · exact ⟨h.delivered, h.closed, h.disconnected⟩
  · exact h

/-- What `messageCallback_` is called with after the loop of `handleRead`. -/
theorem called (h : Delivering s) (hreads : Reads s s' events)
    (hopen : s.state ≠ .kDisconnected) :
    Delivering (s'.record (.message s'.retrieved s'.inputBuffer.peek)) := by
  have hlog : (s'.record (.message s'.retrieved s'.inputBuffer.peek)).log =
      s.log ++ (events ++ [Event.message s'.retrieved s'.inputBuffer.peek]) := by
    rw [← List.append_assoc, ← hreads.log]
    rfl
  refine ⟨?_, fun hmem => ?_, fun hstate => absurd (hreads.state.symm.trans hstate) hopen⟩
  · rw [hlog, hreads.retrieved]
    exact h.delivered.shown (mt h.closed hopen) hreads.isRead trivial hreads.shown
  · rw [hlog, List.mem_append, List.mem_append, List.mem_singleton] at hmem
    obtain hmem | hmem | hmem := hmem
    · exact absurd (h.closed hmem) hopen
    · exact (hreads.isRead _ hmem).elim
    · cases hmem

theorem message (h : Delivering s) (hreads : Reads s s' events)
    (hopen : events ≠ [] → s.messageCallback = true ∧ s.state ≠ .kDisconnected)
    (response : Response) : Delivering (s'.message (events ≠ []) response) := by
  rw [Shared.message]
  split
  · rename_i hset
    rw [Bool.and_eq_true, decide_eq_true_iff] at hset
    have hcalled := (h.called hreads (hopen hset.1).2).retrieve response.retrieved
    split
    · exact hcalled.handleClose
    · exact hcalled
  · rename_i hunset
    have hnothing : events = [] := by
      by_contra hne
      refine hunset ?_
      rw [hreads.messageCallback, (hopen hne).1, Bool.and_true, decide_eq_true_iff]
      exact hne
    subst hnothing
    have hlog : s'.log = s.log := hreads.log.trans (List.append_nil _)
    refine ⟨?_, ?_, ?_⟩
    · rw [hlog]; exact h.delivered
    · rw [hlog, hreads.state]; exact h.closed
    · rw [hlog, hreads.state, hreads.messageCallback]; exact h.disconnected

theorem handleRead (h : Delivering s) {burst : Burst} (hdelivers : burst.Delivers s) :
    Delivering (s.handleRead burst) := by
  obtain ⟨events, hreads, hany⟩ := reads_readAll s burst.reads
  have hreceived : burst.reads.any Option.isSome = decide (events ≠ []) := by
    rw [Bool.eq_iff_iff, decide_eq_true_iff, hany]
  have hopen (hne : events ≠ []) : s.messageCallback = true ∧ s.state ≠ .kDisconnected :=
    ⟨(hdelivers (hany.mp hne)).1, (hdelivers (hany.mp hne)).2.1⟩
  have hmessage := h.message hreads hopen burst.response
  simp only [Shared.handleRead, hreceived]
  split
  · exact hmessage
  · exact hmessage.handleClose
  · rename_i hfailed
    have hnothing : events = [] := by
      by_contra hne
      exact (hdelivers (hany.mp hne)).2.2 hfailed
    subst hnothing
    exact handleClose (h.message hreads hopen burst.response)

theorem lost (h : Delivering s) {burst : Burst} (hloses : ¬burst.Delivers s) :
    Lost (s.handleRead burst) := by
  obtain ⟨events, hreads, hany⟩ := reads_readAll s burst.reads
  rw [Burst.Delivers, Classical.not_imp] at hloses
  obtain ⟨hreceived, hcause⟩ := hloses
  obtain ⟨event, rest, rfl⟩ := List.exists_cons_of_ne_nil (hany.mpr hreceived)
  have hread := List.forall_mem_cons.mp hreads.isRead
  have hquiet : ∀ event ∈ rest, ¬event.IsMessage := fun event hmem hmessage => by
    have := hread.2 event hmem
    cases event with
    | message => exact this
    | _ => exact hmessage
  cases event with
  | read first data =>
    have hlost (hwhy : .closeCallback ∈ s.log ∨ s.messageCallback = false) :
        Lost (s.handleRead burst) := by
      obtain ⟨seg, hextends⟩ := extends_readAll s burst
      refine Lost.extends ⟨s.log, first, data, rest, hreads.log, ?_⟩ hextends
      exact hwhy.imp_right fun hmute => .inr ⟨hreads.messageCallback.trans hmute, hquiet⟩
    by_cases hmute : s.messageCallback = true
    · by_cases hopen : s.state = .kDisconnected
      · exact hlost (h.disconnected hopen)
      · have hfailed : burst.exit = .failed := by
          by_contra hexit
          exact hcause ⟨hmute, hopen, hexit⟩
        have hclosed : (s.handleRead burst).log =
            s.log ++ .read first data :: (rest ++ [Event.closeCallback]) := by
          simp only [Shared.handleRead, hfailed, Shared.handleClose, hreads.state, if_neg hopen,
            Shared.record, hreads.log]
          simp
        exact ⟨s.log, first, data, _, hclosed, .inr (.inl ⟨rest, [], rfl, hquiet⟩)⟩
    · exact hlost (.inr (Bool.eq_false_iff.mpr hmute))
  | _ => exact hread.1.elim

theorem step (h : Delivering s) {input : Input}
    (hdelivers : ∀ burst, input = .readable burst → burst.Delivers s) :
    Delivering (step s input) := by
  cases input with
  | readable burst => exact h.handleRead (hdelivers burst rfl)
  | shutdown =>
    simp only [Reading.step]
    split
    · rename_i hconnected
      refine ⟨h.delivered, fun hmem => ?_, nofun⟩
      exact absurd (hconnected.symm.trans (h.closed hmem)) nofun
    · exact h
  | close => exact h.handleClose
  | abandon => exact ⟨h.delivered, fun _ => rfl, fun _ => .inr rfl⟩

end Delivering

theorem delivered_run_iff (h : Delivering s) (life : List Input) :
    Delivered (run s life).log ↔ AllDeliver s life := by
  induction life generalizing s with
  | nil => exact iff_of_true h.delivered trivial
  | cons input life ih =>
    by_cases hdelivers : ∀ burst, input = .readable burst → burst.Delivers s
    · exact (ih (h.step hdelivers)).trans (and_iff_right hdelivers).symm
    · refine iff_of_false ?_ fun hall => hdelivers hall.1
      obtain ⟨burst, hloses⟩ := not_forall.mp hdelivers
      obtain ⟨rfl, hlost⟩ := Classical.not_imp.mp hloses
      exact ((h.lost hlost).run life).not_delivered

theorem delivered_iff (messageCallback : Bool) (life : List Input) :
    Delivered (run { messageCallback := messageCallback } life).log ↔
      AllDeliver { messageCallback := messageCallback } life :=
  delivered_run_iff (.init messageCallback) life

/-- Data and a reset arrive in one burst. -/
theorem not_delivered_reset : ∃ burst, ¬Delivered (run {} [.readable burst]).log := by
  let burst : Burst := ⟨[some ⟨[104], by decide⟩], .failed, {}⟩
  have hloses : ¬burst.Delivers {} := fun hdelivers => (hdelivers rfl).2.2 rfl
  have hlost : Lost (run {} [.readable burst]) := (Delivering.init true).lost hloses
  exact ⟨burst, hlost.not_delivered⟩

end UnixNotes.Reactor.Reading
