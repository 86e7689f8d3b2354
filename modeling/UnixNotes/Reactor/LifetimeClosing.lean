import UnixNotes.Reactor.LifetimePlaces

namespace UnixNotes.Reactor.Lifetime

open Library

variable {site : Site} {c : Config} {t : Nat} {i : Instr} {rest : List Instr} {s : Shared}
  {pushed : List Instr}

def late : TcpConnection.Instr → Prop
  | .sendDirect _ | .appendOutput _ | .shutdownWrite | .handleRead | .handleWrite | .writeOutput
  | .handleClose => True
  | _ => False

theorem state_cases {i : TcpConnection.Instr} {s s' : TcpConnection.Shared}
    {pushed : List TcpConnection.Instr} (h : TcpConnection.Moves s i s' pushed) :
    i = .connectEstablished ∧ s'.state = .kConnected ∨ s'.state = s.state ∨
      (i = .handleClose ∨ i = .connectDestroyed) ∧ s'.state = .kDisconnected ∨
      s.state = .kConnected ∧ s'.state = .kDisconnecting := by
  cases h with
  | established => exact .inl ⟨rfl, rfl⟩
  | destroy => exact .inr (.inr (.inl ⟨.inr rfl, rfl⟩))
  | close => exact .inr (.inr (.inl ⟨.inl rfl, rfl⟩))
  | shutdownLater connected => exact .inr (.inr (.inr ⟨connected, rfl⟩))
  | shutdownNow connected => exact .inr (.inr (.inr ⟨connected, rfl⟩))
  | _ => exact .inr (.inl rfl)

theorem late_pushed {i : TcpConnection.Instr} {x : TcpConnection.Choice}
    {s s' : TcpConnection.Shared} {pushed : List TcpConnection.Instr}
    (h : i.exec t x s = some (s', pushed)) (hidle : ¬i.idle)
    (hi : late i → s.state ≠ .kConnecting) :
    ∀ j ∈ pushed, late j → s'.state ≠ .kConnecting := by
  intro j hj hlate
  have hmoves := TcpConnection.moves_of_exec h
  have hopened : s.state ≠ .kConnecting → s'.state ≠ .kConnecting := by
    obtain ⟨-, heq⟩ | heq | ⟨-, heq⟩ | ⟨-, heq⟩ := state_cases hmoves <;> simp [heq]
  refine hopened ?_
  cases i with
  | loop | callback => exact absurd trivial hidle
  | connectEstablished | connectDestroyed =>
    cases x <;> cases h
    rw [List.mem_singleton] at hj
    subst hj
    exact hlate.elim
  | sendInLoop message =>
    cases hmoves with
    | event idle => exact idle.elim
    | refused => cases hj
    | direct _ connected | behind _ connected => simp [connected]
  | shutdownInLoop =>
    cases hmoves with
    | event idle => exact idle.elim
    | shutdownLater connected | shutdownNow connected => simp [connected]
    | skipShutdown => cases hj
  | forceCloseInLoop =>
    cases x <;> cases h
    split at hj
    · rename_i hopen
      obtain heq | heq := hopen <;> simp [heq]
    · cases hj
  | _ => exact hi trivial

def Functor.closing : Functor → Prop
  | .removeConnectionInLoop | .connectDestroyed => True
  | _ => False

namespace Instr

def late : Instr → Prop
  | .handleEvent _ | .handling _ => True
  | .connection i => Lifetime.late i
  | _ => False

def closing : Instr → Prop
  | .closeCallback | .removeConnectionInLoop | .connection .connectDestroyed => True
  | .queueInLoop _ f => f.closing
  | .doPendingFunctors functors _ => ∃ f ∈ functors, f.closing
  | _ => False

def establishes : Instr → Nat
  | .connection .connectEstablished | .queueInLoop _ .connectEstablished => 1
  | .doPendingFunctors _ left => left.count .connectEstablished
  | _ => 0

end Instr

def establishing (site : Site) (c : Config) : Nat :=
  (c.shared.functors site.io).count .connectEstablished + c.total Instr.establishes

structure Settled (site : Site) (c : Config) : Prop where
  once : establishing site c ≤ 1
  fresh : c.shared.connection.state ≠ .kConnecting → establishing site c = 0
  late : ∀ t i, c.Active t i → i.late → c.shared.connection.state ≠ .kConnecting
  closing : ∀ t i, c.Active t i → i.closing → c.shared.connection.state = .kDisconnected
  queued : ∀ target, ∀ f ∈ c.shared.functors target, f.closing →
    c.shared.connection.state = .kDisconnected
  owned : c.shared.gone = false → c.shared.owned = true ∨
    c.shared.connection.state = .kDisconnected

theorem mem_of_clear {functors : Nat → List Functor} {target : Nat} {f : Functor}
    (h : f ∈ Function.update functors t [] target) : f ∈ functors target := by
  by_cases heq : target = t
  · subst heq
    rw [Function.update_self] at h
    cases h
  · rwa [Function.update_of_ne heq] at h

theorem mem_of_push {functors : Nat → List Functor} {target target' : Nat} {f f' : Functor}
    (h : f' ∈ Function.update functors target (functors target ++ [f]) target') :
    f' ∈ functors target' ∨ f' = f := by
  by_cases heq : target' = target
  · subst heq
    rwa [Function.update_self, List.mem_append, List.mem_singleton] at h
  · rw [Function.update_of_ne heq] at h
    exact .inl h

theorem count_push (functors : Nat → List Functor) (target : Nat) (f : Functor) :
    (Function.update functors target (functors target ++ [f]) site.io).count .connectEstablished ≤
      (functors site.io).count .connectEstablished + (Instr.queueInLoop target f).establishes := by
  by_cases htarget : site.io = target
  · rw [htarget, Function.update_self, List.count_append]
    cases f <;> simp [Instr.establishes]
  · rw [Function.update_of_ne htarget]
    exact Nat.le_add_right _ _

theorem count_clear (h : Placed site c) (t : Nat) :
    (Function.update c.shared.functors t [] site.io).count .connectEstablished +
        (c.shared.functors t).count .connectEstablished =
      (c.shared.functors site.io).count .connectEstablished := by
  by_cases ht : t = site.io
  · simp [ht]
  · have hnone : (c.shared.functors t).count .connectEstablished = 0 :=
      List.count_eq_zero.mpr fun hmem => ht (h.queues t _ hmem)
    rw [Function.update_of_ne (Ne.symm ht), hnone, Nat.add_zero]

theorem weigh_requested {f : Functor} (h : f.requested = true) :
    Config.weigh Instr.establishes (site.runInLoop t f) = 0 := by
  unfold Site.runInLoop
  cases f with
  | sendInLoop | shutdownInLoop | forceCloseInLoop => split <;> rfl
  | _ => cases h

theorem requested_early {f : Functor} (h : f.requested = true) :
    ∀ j ∈ site.runInLoop t f, ¬j.late ∧ ¬j.closing := by
  unfold Site.runInLoop
  cases f with
  | sendInLoop | shutdownInLoop | forceCloseInLoop =>
    split <;> simp [Functor.instr, Instr.late, late, Instr.closing, Functor.closing]
  | _ => cases h

namespace Settled

theorem replace (h : Settled site c) (htop : c.stack t = i :: rest)
    (hconnection : s.connection = c.shared.connection)
    (hcount : (s.functors site.io).count .connectEstablished +
        Config.weigh Instr.establishes pushed ≤
      (c.shared.functors site.io).count .connectEstablished + i.establishes)
    (hpushed : ∀ j ∈ pushed, (j.late → c.shared.connection.state ≠ .kConnecting) ∧
      (j.closing → c.shared.connection.state = .kDisconnected))
    (hqueued : ∀ target, ∀ f ∈ s.functors target, f.closing →
      f ∈ c.shared.functors target ∨ c.shared.connection.state = .kDisconnected)
    (howned : s.gone = false → c.shared.gone = false ∧
      (c.shared.owned = true → s.owned = true ∨ c.shared.connection.state = .kDisconnected)) :
    Settled site (c.replace t s (pushed ++ rest)) := by
  have hle : establishing site (c.replace t s (pushed ++ rest)) ≤ establishing site c := by
    have := Config.total_replace Instr.establishes htop s pushed
    change (s.functors site.io).count .connectEstablished + _ ≤ _
    unfold establishing
    omega
  have hstate : (c.replace t s (pushed ++ rest)).shared.connection.state =
      c.shared.connection.state := congrArg _ hconnection
  refine ⟨Nat.le_trans hle h.once, ?_, ?_, ?_, ?_, ?_⟩
  all_goals rw [hstate]
  · exact fun hopened => Nat.le_zero.mp (h.fresh hopened ▸ hle)
  · intro t' j hj hlate
    obtain ⟨-, hmem⟩ | hactive := Config.active_of_replace htop hj
    · exact (hpushed j hmem).1 hlate
    · exact h.late t' j hactive hlate
  · intro t' j hj hclosing
    obtain ⟨-, hmem⟩ | hactive := Config.active_of_replace htop hj
    · exact (hpushed j hmem).2 hclosing
    · exact h.closing t' j hactive hclosing
  · exact fun target f hf hclosing =>
      (hqueued target f hf hclosing).elim (h.queued target f · hclosing) id
  · intro hgone
    obtain ⟨hgone, howned⟩ := howned hgone
    exact (h.owned hgone).elim howned .inr

theorem connection_step {i : TcpConnection.Instr} {x : TcpConnection.Choice}
    {connection : TcpConnection.Shared} {pushed : List TcpConnection.Instr} {uses : Nat}
    (h : Settled site c) (hidle : ¬i.idle) (htop : c.stack t = .connection i :: rest)
    (hexec : i.exec t x c.shared.connection = some (connection, pushed)) :
    Settled site (c.replace t { c.shared with connection := connection, uses := uses }
      (pushed.flatMap (Instr.ofConnection c.shared.callbacks i) ++ rest)) := by
  have hactive := Config.active_of_top htop
  have hmoves := TcpConnection.moves_of_exec hexec
  have hmem {j : Instr} (hj : j ∈ pushed.flatMap (Instr.ofConnection c.shared.callbacks i)) :=
    mem_connection hj
  have hopened : c.shared.connection.state ≠ .kConnecting → connection.state ≠ .kConnecting := by
    obtain ⟨-, heq⟩ | heq | ⟨-, heq⟩ | ⟨-, heq⟩ := state_cases hmoves <;> simp [heq]
  -- nothing in the calls made is another `connectEstablished`
  have hnone : Config.weigh Instr.establishes
      (pushed.flatMap (Instr.ofConnection c.shared.callbacks i)) = 0 := by
    refine Config.weigh_eq_zero fun j hj => ?_
    obtain rfl | ⟨rfl, -, -⟩ | ⟨k, hk, hcallback, rfl⟩ := hmem hj
    · rfl
    · rfl
    · have := (pushed_connection hmoves hidle k hk hcallback).2.1
      cases k <;> first | exact absurd rfl this | rfl
  have htotal := Config.total_replace Instr.establishes htop
    { c.shared with connection := connection, uses := uses }
    (pushed.flatMap (Instr.ofConnection c.shared.callbacks i))
  rw [hnone] at htotal
  have hcount : establishing site (c.replace t
      { c.shared with connection := connection, uses := uses }
      (pushed.flatMap (Instr.ofConnection c.shared.callbacks i) ++ rest)) +
        (Instr.connection i).establishes = establishing site c := by
    change (c.shared.functors site.io).count .connectEstablished + _ + _ = _
    unfold establishing
    omega
  have hestablishes : (Instr.connection .connectEstablished).establishes = 1 := rfl
  have honce := h.once
  have hfresh := h.fresh
  have hclosed : c.shared.connection.state = .kDisconnected →
      connection.state = .kDisconnected := by
    intro hstate
    have := hfresh (by simp [hstate])
    obtain ⟨rfl, -⟩ | heq | ⟨-, heq⟩ | ⟨hconnected, -⟩ := state_cases hmoves
    · omega
    · exact heq.trans hstate
    · exact heq
    · rw [hstate] at hconnected
      cases hconnected
  refine ⟨by omega, fun hopen => ?_, fun t' j hj hlate => ?_, fun t' j hj hclosing => ?_,
    fun target f hf hclosing => hclosed (h.queued target f hf hclosing),
    fun hgone => (h.owned hgone).imp id hclosed⟩
  · by_cases hbefore : c.shared.connection.state = .kConnecting
    · obtain ⟨rfl, -⟩ | heq | ⟨rfl | rfl, -⟩ | ⟨hconnected, -⟩ := state_cases hmoves
      · omega
      · exact absurd (heq.trans hbefore) hopen
      · exact absurd hbefore (h.late t _ hactive trivial)
      · exact absurd (hbefore.symm.trans (h.closing t _ hactive trivial)) nofun
      · exact absurd (hbefore.symm.trans hconnected) nofun
    · have := hfresh hbefore
      omega
  · obtain ⟨-, hpushed⟩ | hold := Config.active_of_replace htop hj
    · obtain rfl | ⟨rfl, -, -⟩ | ⟨k, hk, -, rfl⟩ := hmem hpushed
      · exact hlate.elim
      · exact hlate.elim
      · exact late_pushed hexec hidle (fun hi => h.late t _ hactive hi) k hk hlate
    · exact hopened (h.late t' j hold hlate)
  · obtain ⟨-, hpushed⟩ | hold := Config.active_of_replace htop hj
    · obtain rfl | ⟨rfl, rfl, hcallback⟩ | ⟨k, hk, hcallback, rfl⟩ := hmem hpushed
      · exact hclosing.elim
      · cases hmoves with
        | event idle => exact idle.elim
        | closed => cases hcallback
        | close => rfl
      · have := (pushed_connection hmoves hidle k hk hcallback).2.2
        cases k <;> first | exact absurd rfl this | exact hclosing.elim
    · exact hclosed (h.closing t' j hold hclosing)

theorem step {c' : Config} {base : Nat} (h : Settled site c) (hserver : site.owner = .server base)
    (hplaced : Placed site c) (hstep : (machine site).Step c t i c') : Settled site c' := by
  obtain @⟨rest, x, s, pushed, htop, hexec⟩ := hstep
  have hactive := Config.active_of_top htop
  have hfits := hplaced.fits t i hactive
  have hlate := h.late t i hactive
  have hclosing := h.closing t i hactive
  have hqueued : ∀ target, ∀ f ∈ c.shared.functors target, f.closing →
      f ∈ c.shared.functors target ∨ c.shared.connection.state = .kDisconnected :=
    fun _ _ hf _ => .inl hf
  cases moves_of_exec hexec with
  | functors =>
    refine h.replace htop rfl ?_ ?_ (fun target f hf _ => .inl (mem_of_clear hf))
      fun hgone => ⟨hgone, .inl⟩
    · have := count_clear hplaced t
      simp [Instr.establishes]
      omega
    · simpa [Instr.late, Instr.closing] using h.queued t
  | others =>
    exact h.replace htop rfl (by simp [Instr.establishes])
      (by simp [Instr.late, Instr.closing]) hqueued fun hgone => ⟨hgone, .inl⟩
  | poll revents io polled =>
    have hopened : c.shared.connection.state ≠ .kConnecting := by
      obtain heq | heq := polled <;> simp [heq]
    exact h.replace htop rfl (by simp [Instr.establishes])
      (by simp [Instr.late, Instr.closing, hopened]) hqueued fun hgone => ⟨hgone, .inl⟩
  | @ask _ j hi hj =>
    have hj : j.establishes = 0 ∧ ¬j.late ∧ ¬j.closing := by
      obtain rfl | rfl | ⟨rfl | rfl, -⟩ := hj <;> exact ⟨rfl, id, id⟩
    refine h.replace htop rfl (by simp [hj.1]) ?_ hqueued fun hgone => ⟨hgone, .inl⟩
    rw [List.forall_mem_cons, List.forall_mem_singleton]
    exact ⟨⟨(absurd · hj.2.1), (absurd · hj.2.2)⟩, hlate, hclosing⟩
  | skip hi => exact h.replace htop rfl (by simp) nofun hqueued fun hgone => ⟨hgone, .inl⟩
  | letGo hi =>
    have hclient : site.owner = .client := by
      obtain ⟨-, hclient⟩ | rfl := hi
      · exact hclient
      · exact hfits.2
    rw [hserver] at hclient
    cases hclient
  | handleEvent revents =>
    have hopened := hlate trivial
    obtain ⟨writable, heq | heq | heq⟩ := dispatch_cases revents
    all_goals
      rw [heq]
      exact h.replace htop rfl (by simp [Instr.establishes])
        (by simp [Instr.late, Instr.closing, hopened]) hqueued fun hgone => ⟨hgone, .inl⟩
  | handleWritable =>
    exact h.replace htop rfl (by simp [Instr.establishes])
      (by simpa [Instr.late, Lifetime.late, Instr.closing] using hlate) hqueued
      fun hgone => ⟨hgone, .inl⟩
  | connection exec => exact h.connection_step hfits.2 htop exec
  | returned hi => exact h.replace htop rfl (by simp) nofun hqueued fun hgone => ⟨hgone, .inl⟩
  | copy hi =>
    exact h.replace htop rfl (by simp) (List.forall_mem_singleton.mpr ⟨hlate, hclosing⟩) hqueued
      fun hgone => ⟨hgone, .inl⟩
  | call hi f requested =>
    refine h.replace htop rfl (by simp [weigh_requested requested]) (fun j hj => ?_) hqueued
      fun hgone => ⟨hgone, .inl⟩
    rw [List.mem_append, List.mem_singleton] at hj
    obtain hj | rfl := hj
    · exact ⟨(absurd · (requested_early requested j hj).1),
        (absurd · (requested_early requested j hj).2)⟩
    · exact ⟨hlate, hclosing⟩
  | drop copies => exact h.replace htop rfl (by simp) nofun hqueued fun hgone => ⟨hgone, .inl⟩
  | destroyClient client owned => rw [hserver] at client; cases client
  | destroy => exact h.replace htop rfl (by simp) nofun hqueued nofun
  | closeClient client => rw [hserver] at client; cases client
  | closeServer server =>
    exact h.replace htop rfl (by simp [Instr.establishes])
      (by simp [Instr.late, Instr.closing, Functor.closing, hclosing trivial]) hqueued
      fun hgone => ⟨hgone, .inl⟩
  | queue target f =>
    refine h.replace htop rfl ?_ nofun ?_ fun hgone => ⟨hgone, .inl⟩
    · exact count_push c.shared.functors target f
    · intro target' f' hf' hclosing'
      obtain hf' | rfl := mem_of_push hf'
      · exact .inl hf'
      · exact .inr (hclosing hclosing')
  | run functors f left =>
    have hf := hfits.2 f (List.mem_cons_self ..)
    refine h.replace htop rfl ?_ ?_ hqueued fun hgone => ⟨hgone, .inl⟩
    · cases f <;> simp [Functor.instr, Instr.establishes, Nat.add_comm]
    · rw [List.forall_mem_cons, List.forall_mem_singleton]
      refine ⟨?_, hlate, hclosing⟩
      have hclosed := fun hf' => hclosing ⟨f, hf, hf'⟩
      cases f <;> first | exact ⟨False.elim, False.elim⟩ | exact ⟨False.elim, hclosed⟩
  | ran functors =>
    exact h.replace htop rfl (by simp) nofun hqueued fun hgone => ⟨hgone, .inl⟩
  | remove owned =>
    exact h.replace htop rfl (by simp [Instr.establishes])
      (by simp [Instr.late, Instr.closing, hclosing trivial]) hqueued
      fun hgone => ⟨hgone, fun _ => .inr (hclosing trivial)⟩

end Settled

end UnixNotes.Reactor.Lifetime
