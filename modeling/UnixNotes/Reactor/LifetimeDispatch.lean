import Mathlib.Data.Set.Basic
import UnixNotes.Reactor.LifetimeClosing

namespace UnixNotes.Reactor.Lifetime

open Library

variable {site : Site} {c : Config} {t : Nat} {i : Instr} {rest : List Instr} {s : Shared}
  {pushed : List Instr}

/-- A poll has returned the channel, and `handleEvent` has not returned. -/
def Exposed (site : Site) (c : Config) : Prop := ∃ j, c.Active site.io j ∧ j.exposes

/-- A functor with a reference is in the loop of the connection, or another thread is about to
queue one there. -/
def Waiting (site : Site) (c : Config) : Prop :=
  c.shared.functors site.io ≠ [] ∨ ∃ t ≠ site.io, ∃ f, c.Active t (.queueInLoop site.io f)

def Kept (site : Site) (c : Config) : Prop := c.shared.owned = true ∨ Waiting site c

/-- The steps by which an owner gives its reference up at once. -/
def Instr.letsGo (site : Site) : Instr → Bool
  | .reset | .destroy => true
  | .newConnection => site.owner = .client
  | _ => false

/-- In an event, an owner that gives its reference up at once leaves another, and so does the user
where the owner may have none. -/
def Leaves (site : Site) (c : Config) (_ : Nat) (i : Instr) : Prop :=
  Exposed site c → (i.letsGo site = true → 0 < c.shared.copies ∨ Waiting site c) ∧
    (i = .drop → site.owner = .client ∨ c.shared.gone = true →
      1 < c.shared.copies ∨ Kept site c)

structure Lasting (site : Site) (c : Config) : Prop where
  kept : Exposed site c → site.owner ≠ .client → c.shared.gone = false → Kept site c
  lasting : Exposed site c → 0 < c.shared.copies ∨ Kept site c

theorem exposed_of_replace (htop : c.stack t = i :: rest)
    (h : Exposed site (c.replace t s (pushed ++ rest)))
    (hpushed : ∀ j ∈ pushed, j.exposes → i.exposes) : Exposed site c := by
  obtain ⟨j, hj, hexposes⟩ := h
  obtain ⟨rfl, hmem⟩ | hactive := Config.active_of_replace htop hj
  · exact ⟨i, Config.active_of_top htop, hpushed j hmem hexposes⟩
  · exact ⟨j, hactive, hexposes⟩

theorem Waiting.replace (h : Waiting site c) (htop : c.stack t = i :: rest)
    (hfunctors : c.shared.functors site.io ≠ [] → s.functors site.io ≠ [])
    (hi : ∀ f, i = .queueInLoop site.io f → s.functors site.io ≠ []) :
    Waiting site (c.replace t s (pushed ++ rest)) := by
  obtain hfunctor | ⟨t', ht, f, hactive⟩ := h
  · exact .inl (hfunctors hfunctor)
  · obtain ⟨-, rfl⟩ | hkept := Config.active_replace htop s pushed hactive
    · exact .inl (hi f rfl)
    · exact .inr ⟨t', ht, f, hkept⟩

namespace Lasting

theorem replace (h : Lasting site c) (htop : c.stack t = i :: rest)
    (hpushed : ∀ j ∈ pushed, j.exposes → i.exposes) (howned : s.owned = c.shared.owned)
    (hgone : s.gone = c.shared.gone) (hcopies : c.shared.copies ≤ s.copies)
    (hfunctors : c.shared.functors site.io ≠ [] → s.functors site.io ≠ [])
    (hi : ∀ f, i = .queueInLoop site.io f → s.functors site.io ≠ []) :
    Lasting site (c.replace t s (pushed ++ rest)) := by
  have hkept : Kept site c → Kept site (c.replace t s (pushed ++ rest)) :=
    Or.imp howned.trans fun hwaiting => hwaiting.replace htop hfunctors hi
  refine ⟨fun hexposed hclient hnot => ?_, fun hexposed => ?_⟩
  · exact hkept (h.kept (exposed_of_replace htop hexposed hpushed) hclient (hgone ▸ hnot))
  · exact (h.lasting (exposed_of_replace htop hexposed hpushed)).imp
      (fun hcopy => Nat.lt_of_lt_of_le hcopy hcopies) hkept

theorem same (h : Lasting site c) (htop : c.stack t = i :: rest)
    (hpushed : ∀ j ∈ pushed, j.exposes → i.exposes) (howned : s.owned = c.shared.owned)
    (hgone : s.gone = c.shared.gone) (hcopies : c.shared.copies ≤ s.copies)
    (hfunctors : s.functors = c.shared.functors) (hi : ∀ f, i ≠ .queueInLoop site.io f) :
    Lasting site (c.replace t s (pushed ++ rest)) :=
  h.replace htop hpushed howned hgone hcopies (hfunctors ▸ id) fun f heq => absurd heq (hi f)

theorem letGo (hleaves : Leaves site c t i) (htop : c.stack t = i :: rest)
    (hi : i.letsGo site = true) (hpushed : ∀ j ∈ pushed, j.exposes → i.exposes)
    (hcopies : s.copies = c.shared.copies) (hfunctors : s.functors = c.shared.functors)
    (hgone : site.owner = .client ∨ s.gone = true) :
    Lasting site (c.replace t s (pushed ++ rest)) := by
  refine ⟨fun _ hclient hnot => ?_, fun hexposed => ?_⟩
  · obtain heq | heq := hgone
    · exact absurd heq hclient
    · exact absurd (hnot.symm.trans heq) nofun
  · have hother := (hleaves (exposed_of_replace htop hexposed hpushed)).1 hi
    refine hother.imp (fun hcopy => hcopies ▸ hcopy) fun hwaiting => .inr ?_
    refine hwaiting.replace htop (hfunctors ▸ id) ?_
    rintro f rfl
    cases hi

end Lasting

structure Sound (site : Site) (c : Config) : Prop where
  placed : Placed site c
  counted : Counted site c
  settled : ∀ base, site.owner = .server base → Settled site c
  lasting : Lasting site c

namespace Sound

theorem lasting_of_poll (h : Sound site c) (htop : c.stack site.io = .loop :: rest)
    (hpolled : polled c.shared.connection) (halive : 0 < c.shared.uses) :
    0 < c.shared.copies ∨ Kept site c := by
  have hrest := h.placed.last.rest_eq_nil htop rfl
  have hopen : c.shared.connection.state ≠ .kDisconnected := by
    obtain heq | heq := hpolled <;> simp [heq]
  -- a functor for the loop of the server comes after `handleClose`
  have hio {target : Nat} {f : Functor} (hqueues : Queues site target f)
      (hclosing : ∀ base, site.owner = .server base → f.closing →
        c.shared.connection.state = .kDisconnected) : target = site.io := by
    cases f with
    | removeConnectionInLoop => exact absurd (hclosing target hqueues trivial) hopen
    | _ => exact hqueues
  by_cases howned : c.shared.owned = true
  · exact .inr (.inl howned)
  by_cases hcopies : 0 < c.shared.copies
  · exact .inl hcopies
  refine .inr (.inr ?_)
  by_cases hfunctors : c.shared.functors site.io = []
  · have hhome : site.home = site.io ∨ c.shared.functors site.home = [] := by
      refine or_iff_not_imp_right.mpr fun hne => ?_
      obtain ⟨f, hf⟩ := List.exists_mem_of_ne_nil _ hne
      exact hio (h.placed.queues _ f hf) fun base hserver =>
        (h.settled base hserver).queued _ f hf
    have hstored : stored site c.shared = 0 := by
      simp only [Bool.not_eq_true] at howned
      obtain heq | heq := hhome <;> simp [stored, queued, howned, hfunctors, heq] <;> omega
    have htotal : c.total Instr.holds ≠ 0 := by
      have := h.counted
      unfold Counted at this
      omega
    have hframe : ∃ t i, c.Active t i ∧ i.holds ≠ 0 := by
      by_contra hnone
      push Not at hnone
      exact htotal (Config.total_eq_zero hnone)
    obtain ⟨t, i, hactive, hholds⟩ := hframe
    have ht : t ≠ site.io := by
      rintro rfl
      rw [Config.Active, htop, hrest, List.mem_singleton] at hactive
      subst hactive
      exact hholds rfl
    have hfits := h.placed.fits t i hactive
    have hclosing := fun base hserver => (h.settled base hserver).closing t i hactive
    cases i with
    | queueInLoop target f =>
      obtain rfl := hio hfits hclosing
      exact .inr ⟨t, ht, f, hactive⟩
    | doPendingFunctors functors left =>
      obtain ⟨f, hf⟩ := List.exists_mem_of_ne_nil functors (by rintro rfl; exact hholds rfl)
      exact absurd (hio (hfits.1 f hf) fun base hserver hf' =>
        hclosing base hserver ⟨f, hf, hf'⟩) ht
    | callback | closeCallback | temporary => exact absurd hfits ht
    | _ => exact absurd rfl hholds
  · exact .inl hfunctors

theorem lasting_functors (h : Sound site c) (htop : c.stack t = .loop :: rest) :
    Lasting site (c.replace t
      { c.shared with functors := Function.update c.shared.functors t [] }
      ([.doPendingFunctors (c.shared.functors t) (c.shared.functors t), .loop] ++ rest)) := by
  by_cases ht : t = site.io
  · have hrest := h.placed.last.rest_eq_nil htop rfl
    have hnone : ¬Exposed site c := by
      rintro ⟨j, hj, hexposes⟩
      rw [Config.Active, ← ht, htop, hrest, List.mem_singleton] at hj
      subst hj
      exact hexposes.elim
    refine ⟨fun hexposed => absurd (exposed_of_replace htop hexposed ?_) hnone,
      fun hexposed => absurd (exposed_of_replace htop hexposed ?_) hnone⟩ <;>
      simp [Instr.exposes]
  · refine h.lasting.replace htop (by simp [Instr.exposes]) rfl rfl (Nat.le_refl _) ?_
      (by rintro _ ⟨⟩)
    simp [Function.update_of_ne (Ne.symm ht)]

theorem lasting_handleEvent (h : Sound site c) (htop : c.stack t = .loop :: rest)
    (revents : Revents) (io : t = site.io) (polled : polled c.shared.connection)
    (alive : 0 < c.shared.uses) :
    Lasting site (c.replace t c.shared ([.batch, .handleEvent revents, .loop] ++ rest)) := by
  subst io
  have hwaiting : Waiting site c → Waiting site (c.replace site.io c.shared
      ([Instr.batch, .handleEvent revents, .loop] ++ rest)) :=
    fun hwaiting => hwaiting.replace htop id (by rintro _ ⟨⟩)
  refine ⟨fun _ hclient hgone => ?_, fun _ => ?_⟩
  · cases hserver : site.owner with
    | client => exact absurd hserver hclient
    | server base =>
      obtain howned | hclosed := (h.settled base hserver).owned hgone
      · exact .inl howned
      · obtain heq | heq := polled <;> exact absurd (heq.symm.trans hclosed) (by rintro ⟨⟩)
  · exact (h.lasting_of_poll htop polled alive).imp id (Or.imp id hwaiting)

theorem lasting_drop (h : Sound site c) (hleaves : Leaves site c t .drop)
    (htop : c.stack t = .drop :: rest) :
    Lasting site (c.replace t
      { c.shared with copies := c.shared.copies - 1, uses := c.shared.uses - 1 }
      ([] ++ rest)) := by
  have hkept : Kept site c → Kept site (c.replace t { c.shared with
      copies := c.shared.copies - 1, uses := c.shared.uses - 1 } ([] ++ rest)) :=
    Or.imp id fun hwaiting => hwaiting.replace htop id (by rintro _ ⟨⟩)
  refine ⟨fun hexposed hclient hgone => ?_, fun hexposed => ?_⟩
  · exact hkept (h.lasting.kept (exposed_of_replace htop hexposed (by rintro _ ⟨⟩)) hclient hgone)
  · have hbefore := exposed_of_replace htop hexposed (by rintro _ ⟨⟩)
    by_cases howner : site.owner = .client ∨ c.shared.gone = true
    · exact ((hleaves hbefore).2 rfl howner).imp (Nat.sub_pos_of_lt ·) hkept
    · rw [not_or, Bool.not_eq_true] at howner
      exact .inr (hkept (h.lasting.kept hbefore howner.1 howner.2))

theorem lasting_remove (h : Sound site c) (htop : c.stack t = .removeConnectionInLoop :: rest) :
    Lasting site (c.replace t { c.shared with owned := false }
      ([.queueInLoop site.io .connectDestroyed] ++ rest)) := by
  have hwaiting (hexposed : Exposed site c) : t ≠ site.io := by
    rintro rfl
    obtain ⟨j, hj, hexposes⟩ := hexposed
    obtain hnone | hnone := h.placed.apart site.io
    · exact hnone j hj hexposes
    · exact hnone _ (Config.active_of_top htop) trivial
  have hkept (hexposed : Exposed site (c.replace t { c.shared with owned := false }
      ([Instr.queueInLoop site.io .connectDestroyed] ++ rest))) : Kept site (c.replace t
        { c.shared with owned := false }
        ([Instr.queueInLoop site.io .connectDestroyed] ++ rest)) := by
    have ht := hwaiting (exposed_of_replace htop hexposed (by simp [Instr.exposes]))
    exact .inr (.inr ⟨t, ht, .connectDestroyed, Config.active_replace_of_pushed htop _ (by simp)⟩)
  exact ⟨fun hexposed _ _ => hkept hexposed, fun hexposed => .inr (hkept hexposed)⟩

theorem lasting_step {c' : Config} (h : Sound site c) (hleaves : Leaves site c t i)
    (hstep : (machine site).Step c t i c') : Lasting site c' := by
  obtain @⟨rest, x, s, pushed, htop, hexec⟩ := hstep
  have hfits := h.placed.fits t i (Config.active_of_top htop)
  cases moves_of_exec hexec with
  | functors => exact h.lasting_functors htop
  | others =>
    exact h.lasting.same htop (by simp [Instr.exposes]) rfl rfl (Nat.le_refl _) rfl (by rintro _ ⟨⟩)
  | poll revents io polled alive => exact h.lasting_handleEvent htop revents io polled alive
  | @ask _ j hi hj =>
    refine h.lasting.same htop ?_ rfl rfl (Nat.le_refl _) rfl ?_
    · rw [List.forall_mem_cons, List.forall_mem_singleton]
      refine ⟨fun hexposes => ?_, id⟩
      obtain rfl | rfl | ⟨rfl | rfl, -⟩ := hj <;> exact hexposes.elim
    · rintro f rfl
      obtain heq | hacts := hi
      · cases heq
      · exact hacts.elim
  | skip hi =>
    refine h.lasting.same htop (by rintro _ ⟨⟩) rfl rfl (Nat.le_refl _) rfl ?_
    rintro f rfl
    simp at hi
  | letGo hi =>
    have hclient : i.letsGo site = true ∧ site.owner = .client := by
      obtain ⟨rfl, hclient⟩ | rfl := hi
      · exact ⟨decide_eq_true hclient, hclient⟩
      · exact ⟨rfl, hfits.2⟩
    exact Lasting.letGo hleaves htop hclient.1 (by rintro _ ⟨⟩) rfl rfl (.inl hclient.2)
  | handleEvent revents | handleWritable =>
    exact h.lasting.same htop (fun _ _ _ => trivial) rfl rfl (Nat.le_refl _) rfl (by rintro _ ⟨⟩)
  | connection exec =>
    refine h.lasting.same htop (fun j hj hexposes => ?_) rfl rfl (Nat.le_refl _) rfl
      (by rintro _ ⟨⟩)
    obtain rfl | ⟨rfl, -, -⟩ | ⟨k, -, -, rfl⟩ := mem_connection hj <;> exact hexposes.elim
  | returned hi =>
    refine h.lasting.same htop (by rintro _ ⟨⟩) rfl rfl (Nat.le_refl _) rfl ?_
    rintro f rfl
    simp at hi
  | copy hi =>
    refine h.lasting.same htop (List.forall_mem_singleton.mpr id) rfl rfl (Nat.le_succ _) rfl ?_
    rintro f rfl
    exact hi.elim
  | call hi f requested =>
    refine h.lasting.same htop (fun j hj => ?_) rfl rfl (Nat.le_refl _) rfl ?_
    · rw [List.mem_append, List.mem_singleton] at hj
      obtain hj | rfl := hj
      · exact (absurd · (plain_runInLoop requested j hj).1.2.1)
      · exact id
    · rintro f rfl
      exact hi.elim
  | drop copies => exact h.lasting_drop hleaves htop
  | destroyClient client owned =>
    exact Lasting.letGo hleaves htop rfl (by simp [Instr.exposes]) rfl rfl (.inr rfl)
  | destroy => exact Lasting.letGo hleaves htop rfl (by rintro _ ⟨⟩) rfl rfl (.inr rfl)
  | closeClient client | closeServer server =>
    exact h.lasting.same htop (by simp [Instr.exposes]) rfl rfl (Nat.le_refl _) rfl (by rintro _ ⟨⟩)
  | queue target f =>
    refine h.lasting.replace htop (by rintro _ ⟨⟩) rfl rfl (Nat.le_refl _) ?_ ?_
    · by_cases htarget : site.io = target
      · simp [htarget]
      · simp [Function.update_of_ne htarget]
    · rintro f' heq
      cases heq
      simp
  | run functors f left =>
    refine h.lasting.same htop ?_ rfl rfl (Nat.le_refl _) rfl (by rintro _ ⟨⟩)
    rw [List.forall_mem_cons, List.forall_mem_singleton]
    exact ⟨(absurd · f.instr_ne_loop.2), id⟩
  | ran functors =>
    exact h.lasting.same htop (by rintro _ ⟨⟩) rfl rfl (Nat.le_refl _) rfl (by rintro _ ⟨⟩)
  | remove owned => exact h.lasting_remove htop

theorem start_cases (site : Site) (t : Nat) :
    t = site.home ∧ t = site.io ∧
        site.start t = [.connection .connectEstablished, .temporary, .batch, .loop] ∨
      t = site.home ∧ t ≠ site.io ∧
        site.start t = [.queueInLoop site.io .connectEstablished, .batch, .loop] ∨
      t ≠ site.home ∧ t = site.io ∧ site.start t = [.loop] ∨
      t ≠ site.home ∧ t ≠ site.io ∧ site.start t = [.user] := by
  by_cases hhome : t = site.home <;> by_cases hio : t = site.io
  · exact .inl ⟨hhome, hio, by rw [Site.start, if_pos hhome, Site.runInLoop, if_pos hio]; rfl⟩
  · exact .inr (.inl ⟨hhome, hio, by
      rw [Site.start, if_pos hhome, Site.runInLoop, if_neg hio]; rfl⟩)
  · exact .inr (.inr (.inl ⟨hhome, hio, by rw [Site.start, if_neg hhome, if_pos hio]⟩))
  · exact .inr (.inr (.inr ⟨hhome, hio, by rw [Site.start, if_neg hhome, if_neg hio]⟩))

theorem stack_init (site : Site) (users t : Nat) :
    (init site users).stack t = site.start t ∨ (init site users).stack t = [] := by
  simp only [Config.stack, init, List.getD_eq_getElem?_getD, List.getElem?_map]
  cases hrange : (List.range (site.home + site.io + 1 + users))[t]? with
  | none => exact .inr rfl
  | some t' =>
    obtain ⟨_, heq⟩ := List.getElem?_eq_some_iff.mp hrange
    rw [List.getElem_range] at heq
    subst heq
    exact .inl rfl

theorem init_induction {P : Nat → List Instr → Prop} {users : Nat} (hnil : ∀ t, P t [])
    (hstart : ∀ t, P t (site.start t)) (t : Nat) : P t ((init site users).stack t) := by
  obtain heq | heq := stack_init site users t
  · exact heq ▸ hstart t
  · exact heq ▸ hnil t

theorem sum_range_ite (home n : Nat) :
    ((List.range n).map fun t => if t = home then 1 else 0).sum = if home < n then 1 else 0 := by
  induction n with
  | zero => rfl
  | succ n ih =>
    rw [List.range_succ, List.map_append, List.sum_append, ih, List.map_singleton,
      List.sum_singleton]
    grind

theorem total_init {w : Instr → Nat} {users : Nat}
    (hhome : Config.weigh w (site.start site.home) = 1)
    (hother : ∀ t, t ≠ site.home → Config.weigh w (site.start t) = 0) :
    (init site users).total w = 1 := by
  have hweigh : ∀ t, Config.weigh w (site.start t) = if t = site.home then 1 else 0 := by
    intro t
    split
    · rename_i heq
      rw [heq, hhome]
    · exact hother t ‹_›
  simp only [Config.total, init, List.map_map, Function.comp_def, hweigh, sum_range_ite]
  exact if_pos (by omega)

theorem init_placed (site : Site) (users : Nat) : Placed site (init site users) where
  fits t := by
    refine init_induction (P := fun t stack => ∀ i ∈ stack, Fits site t i) (by rintro _ _ ⟨⟩) ?_ t
    intro t
    obtain ⟨hhome, hio, heq⟩ | ⟨hhome, hio, heq⟩ | ⟨hhome, hio, heq⟩ | ⟨hhome, hio, heq⟩ :=
      start_cases site t
    all_goals
      rw [heq]
      simp [Fits, Queues, TcpConnection.Instr.idle]
    · exact ⟨hio, .inl hio⟩
    · exact .inr hhome
    · exact .inl hio
  queues := by rintro _ _ ⟨⟩
  last := by
    refine init_induction (P := fun _ stack => ∀ i ∈ stack.dropLast, i ≠ .loop) (by rintro _ _ ⟨⟩) ?_
    intro t
    obtain ⟨-, -, heq⟩ | ⟨-, -, heq⟩ | ⟨-, -, heq⟩ | ⟨-, -, heq⟩ := start_cases site t <;>
      simp [heq]
  apart := by
    refine init_induction (P := fun _ stack => (∀ i ∈ stack, ¬i.exposes) ∨ ∀ i ∈ stack, ¬i.runs)
      (fun _ => .inl (by rintro _ ⟨⟩)) fun t => .inl ?_
    obtain ⟨-, -, heq⟩ | ⟨-, -, heq⟩ | ⟨-, -, heq⟩ | ⟨-, -, heq⟩ := start_cases site t <;>
      simp [heq, Instr.exposes]

theorem init_sound (site : Site) (users : Nat) : Sound site (init site users) := by
  have hactive {P : Instr → Prop} (hP : ∀ t, ∀ i ∈ site.start t, P i) :
      ∀ t i, (init site users).Active t i → P i :=
    init_induction (P := fun _ stack => ∀ i ∈ stack, P i) (by rintro _ _ ⟨⟩) hP
  have htotal {w : Instr → Nat} (hcall : w (.connection .connectEstablished) + w .temporary = 1)
      (hqueue : w (.queueInLoop site.io .connectEstablished) = 1)
      (hrest : w .batch = 0 ∧ w .loop = 0 ∧ w .user = 0) : (init site users).total w = 1 := by
    refine total_init ?_ fun t ht => ?_
    · obtain ⟨-, -, heq⟩ | ⟨-, -, heq⟩ | ⟨hne, -⟩ | ⟨hne, -⟩ := start_cases site site.home
      · simp [heq, hrest, hcall]
      · simp [heq, hrest, hqueue]
      · exact absurd rfl hne
      · exact absurd rfl hne
    · obtain ⟨heq, -⟩ | ⟨heq, -⟩ | ⟨-, -, heq⟩ | ⟨-, -, heq⟩ := start_cases site t
      · exact absurd heq ht
      · exact absurd heq ht
      · simp [heq, hrest]
      · simp [heq, hrest]
  have hearly : ∀ t i, (init site users).Active t i → ¬i.late ∧ ¬i.closing ∧ ¬i.exposes := by
    refine hactive fun t => ?_
    obtain ⟨-, -, heq⟩ | ⟨-, -, heq⟩ | ⟨-, -, heq⟩ | ⟨-, -, heq⟩ := start_cases site t <;>
      simp [heq, Instr.late, late, Instr.closing, Functor.closing, Instr.exposes]
  have hnone : ¬Exposed site (init site users) := by
    rintro ⟨j, hj, hexposes⟩
    exact (hearly site.io j hj).2.2 hexposes
  have hestablishing : establishing site (init site users) = 1 := by
    rw [establishing, htotal rfl rfl ⟨rfl, rfl, rfl⟩]
    rfl
  have hsettled : Settled site (init site users) :=
    ⟨Nat.le_of_eq hestablishing, fun hopened => absurd rfl hopened,
      fun t i hi hlate => absurd hlate (hearly t i hi).1,
      fun t i hi hclosing => absurd hclosing (hearly t i hi).2.1, by rintro _ _ ⟨⟩,
      fun _ => .inl rfl⟩
  refine ⟨init_placed site users, ?_, fun _ _ => hsettled, fun hexposed => absurd hexposed hnone,
    fun hexposed => absurd hexposed hnone⟩
  rw [Counted, htotal rfl rfl ⟨rfl, rfl, rfl⟩]
  simp [stored, queued, init]

theorem step {c' : Config} (h : Sound site c) (hleaves : Leaves site c t i)
    (hstep : (machine site).Step c t i c') : Sound site c' where
  placed := h.placed.step hstep
  counted := h.counted.step h.placed hstep
  settled base hserver := (h.settled base hserver).step hserver h.placed hstep
  lasting := h.lasting_step hleaves hstep

end Sound

/-- From the moment `handleEvent` is entered until it returns, some strong reference is held that is
not one of a call inside. -/
theorem referenced_in_dispatch {users : Nat}
    (hrun : (machine site).Run (Leaves site) (init site users) c) (h : Dispatching site c) :
    ∃ r ∈ references c, ¬r.temporary site := by
  have hsound : Sound site c :=
    hrun.invariant (Sound.init_sound site users) fun hc hleaves hstep => hc.step hleaves hstep
  obtain ⟨writable, hactive⟩ := h
  obtain hcopy | howned | hfunctors | ⟨t, ht, f, hframe⟩ :=
    hsound.lasting.lasting ⟨_, hactive, trivial⟩
  · exact ⟨.user 0, hcopy, id⟩
  · exact ⟨.owner, howned, id⟩
  · obtain ⟨f, hf⟩ := List.exists_mem_of_ne_nil _ hfunctors
    exact ⟨.functor site.io f, hf, id⟩
  · exact ⟨.frame t (.queueInLoop site.io f), ⟨hframe, Nat.one_pos⟩, ht⟩

theorem uses_eq_zero {users : Nat} (hreach : (machine site).Reaches (init site users) c) :
    c.shared.uses = 0 ↔ references c = ∅ := by
  have hsound : Placed site c ∧ Counted site c :=
    hreach.invariant (I := fun c => Placed site c ∧ Counted site c)
      ⟨Sound.init_placed site users, (Sound.init_sound site users).counted⟩
      fun h _ hstep => ⟨h.1.step hstep, h.2.step h.1 hstep⟩
  obtain ⟨hplaced, hcounted⟩ := hsound
  unfold Counted at hcounted
  rw [Set.eq_empty_iff_forall_notMem]
  refine ⟨fun huses r hr => ?_, fun hnone => ?_⟩
  · have hstored : stored site c.shared = 0 := by omega
    have htotal : c.total Instr.holds = 0 := by omega
    simp only [stored, queued] at hstored
    cases r with
    | owner =>
      have howned : c.shared.owned = true := hr
      simp [howned] at hstored
    | user copy =>
      have hcopy : copy < c.shared.copies := hr
      omega
    | functor target f =>
      have hfunctor : f ∈ c.shared.functors target := hr
      have hlength := List.length_pos_of_mem hfunctor
      by_cases hhome : site.home = site.io
      · have hio := (hplaced.queues target f hfunctor).target_cases.elim id (·.trans hhome)
        subst hio
        omega
      · rw [if_neg hhome] at hstored
        obtain rfl | rfl := (hplaced.queues target f hfunctor).target_cases <;> omega
    | frame thread i =>
      have := Config.le_total (w := Instr.holds) hr.1
      have hholds : 0 < i.holds := hr.2
      omega
  · have howned : c.shared.owned = false := Bool.eq_false_iff.mpr (hnone .owner)
    have hcopies : c.shared.copies = 0 := Nat.eq_zero_of_not_pos (hnone (.user 0))
    have hfunctors : ∀ target, c.shared.functors target = [] :=
      fun target => List.eq_nil_iff_forall_not_mem.mpr fun f hf => hnone (.functor target f) hf
    have htotal : c.total Instr.holds = 0 :=
      Config.total_eq_zero fun t i hi =>
        Nat.eq_zero_of_not_pos fun hholds => hnone (.frame t i) ⟨hi, hholds⟩
    simp [hcounted, stored, queued, howned, hcopies, hfunctors, htotal]

def workerSite : Site := ⟨.server 0, 1⟩

def hangup : List (Nat × Choice) :=
  [(0, .next), (1, .functors), (1, .next), (1, .connection .next), (1, .next), (1, .next),
    (1, .poll { hangup := true }), (1, .next), (1, .next), (1, .connection .next), (1, .next),
    (1, .next), (1, .next), (0, .next), (0, .functors), (0, .next), (0, .next), (0, .next)]

def clientSite : Site := ⟨.client, 0⟩

/-- The message callback calls `forceClose`. -/
def forceClose : List (Nat × Choice) :=
  [(0, .connection .next), (0, .next), (0, .next), (0, .next), (0, .poll { readable := true }),
    (0, .next), (0, .next), (0, .connection (.read true false)), (0, .call .forceCloseInLoop),
    (0, .connection .next), (0, .connection .next), (0, .next), (0, .next), (0, .connection .next),
    (0, .next), (0, .next), (0, .next), (0, .next)]

/-- The user keeps a copy that it has been given by the connection callback. -/
def forceCloseKept : List (Nat × Choice) :=
  (0, .connection .next) :: (0, .copy) :: forceClose.tail

theorem referenced_in_dispatch_hangup :
    (((machine workerSite).follow (init workerSite 0) hangup).shared.owned = false ∧
      ∃ r ∈ references ((machine workerSite).follow (init workerSite 0) hangup),
        ¬r.temporary workerSite) ∧
    ((machine clientSite).follow (init clientSite 0) forceCloseKept).shared.owned = false ∧
      ∃ r ∈ references ((machine clientSite).follow (init clientSite 0) forceCloseKept),
        ¬r.temporary clientSite := by
  have hserver : (machine workerSite).Run (fun _ _ i => i.letsGo workerSite = false ∧ i ≠ .drop)
      (init workerSite 0) ((machine workerSite).follow (init workerSite 0) hangup) :=
    Machine.run_follow (by decide)
  have hclient : (machine clientSite).Run
      (fun c _ i => (i.letsGo clientSite = true → 0 < c.shared.copies) ∧ i ≠ .drop)
      (init clientSite 0) ((machine clientSite).follow (init clientSite 0) forceCloseKept) :=
    Machine.run_follow (by decide)
  refine ⟨⟨by decide, referenced_in_dispatch (hserver.mono fun c t i hi _ => ?_) ⟨false, ?_⟩⟩,
    by decide, referenced_in_dispatch (hclient.mono fun c t i hi _ => ?_) ⟨false, ?_⟩⟩
  · exact ⟨fun hlets => absurd (hi.1.symm.trans hlets) nofun, fun hdrop => absurd hdrop hi.2⟩
  · decide
  · exact ⟨fun hlets => .inl (hi.1 hlets), fun hdrop => absurd hdrop hi.2⟩
  · decide

/-- `handleEvent` goes on with a connection that has been destroyed. -/
theorem unreferenced_in_dispatch : ∃ c, (machine clientSite).Reaches (init clientSite 0) c ∧
    Dispatching clientSite c ∧ c.shared.uses = 0 ∧
      ¬∃ r ∈ references c, ¬r.temporary clientSite := by
  have hreach : (machine clientSite).Reaches (init clientSite 0) _ :=
    Machine.reaches_follow forceClose
  have huses : ((machine clientSite).follow (init clientSite 0) forceClose).shared.uses = 0 := by
    decide
  refine ⟨_, hreach, ⟨false, by decide⟩, huses, ?_⟩
  rw [(uses_eq_zero hreach).mp huses]
  exact fun ⟨r, hr, _⟩ => hr

end UnixNotes.Reactor.Lifetime
