import UnixNotes.Reactor.LifetimeDispatch

namespace UnixNotes.Reactor.Lifetime

open Library

variable {site : Site} {c c' : Config} {t : Nat} {i : Instr} {rest : List Instr} {s s' : Shared}
  {pushed : List Instr} {f : Functor}

def Functor.owners (f : Functor) : Prop := f = .connectEstablished ∨ f = .connectDestroyed

namespace Instr

def calls (f : Functor) : Instr → Nat
  | .queueInLoop _ g => if g = f then 1 else 0
  | .doPendingFunctors _ left => left.count f
  | .connection i => if f.instr = .connection i then 1 else 0
  | _ => 0

end Instr

def due (site : Site) (f : Functor) (c : Config) : Nat :=
  (c.shared.functors site.io).count f + c.total (Instr.calls f)

def Destroying (site : Site) (s s' : Shared) : Instr → Prop
  | .closeCallback => site.owner = .client
  | .destroy => site.owner = .client ∧ s.owned = true ∧ s'.callbacks = false
  | .removeConnectionInLoop => s.owned = true ∧ s'.owned = false
  | _ => False

theorem calls_connection {i : TcpConnection.Instr} {callbacks : Bool}
    {connection connection' : TcpConnection.Shared} {pushed : List TcpConnection.Instr}
    (hf : f.owners) (hidle : ¬i.idle) (h : TcpConnection.Moves connection i connection' pushed) :
    Config.weigh (Instr.calls f) (pushed.flatMap (Instr.ofConnection callbacks i)) = 0 := by
  refine Config.weigh_eq_zero fun j hj => ?_
  obtain rfl | ⟨rfl, -, -⟩ | ⟨k, hk, hcallback, rfl⟩ := mem_connection hj
  · rfl
  · rfl
  · have hcall := (pushed_connection h hidle k hk hcallback).2
    obtain rfl | rfl := hf
    · exact if_neg fun heq => hcall.1 (Instr.connection.inj heq).symm
    · exact if_neg fun heq => hcall.2 (Instr.connection.inj heq).symm

theorem calls_runInLoop {g : Functor} (hf : f.owners) (hg : g.requested = true) :
    Config.weigh (Instr.calls f) (site.runInLoop t g) = 0 := by
  unfold Site.runInLoop
  obtain rfl | rfl := hf <;> cases g <;> first | (split <;> rfl) | cases hg

theorem calls_dispatch (hf : f.owners) (revents : Revents) :
    Config.weigh (Instr.calls f) revents.dispatch = 0 := by
  obtain ⟨writable, heq | heq | heq⟩ := dispatch_cases revents
  all_goals
    rw [heq]
    obtain rfl | rfl := hf <;> rfl

theorem calls_instr (f g : Functor) (hf : f.owners) :
    (g.instr).calls f = if g = f then 1 else 0 := by
  obtain rfl | rfl := hf <;> cases g <;> rfl

theorem count_update_clear (hf : f.owners) (hqueues : ∀ g ∈ s.functors t, Queues site t g) :
    (Function.update s.functors t [] site.io).count f + (s.functors t).count f =
      (s.functors site.io).count f := by
  by_cases ht : t = site.io
  · subst ht
    rw [Function.update_self, List.count_nil, Nat.zero_add]
  · have hnone : (s.functors t).count f = 0 := by
      refine List.count_eq_zero.mpr fun hmem => ht ?_
      have hfits := hqueues f hmem
      obtain rfl | rfl := hf <;> exact hfits
    rw [Function.update_of_ne (Ne.symm ht), hnone, Nat.add_zero]

theorem count_update_push (functors : Nat → List Functor) (target : Nat) (f g : Functor) :
    (Function.update functors target (functors target ++ [g]) site.io).count f ≤
      (functors site.io).count f + if g = f then 1 else 0 := by
  by_cases htarget : site.io = target
  · rw [htarget, Function.update_self, List.count_append, List.count_singleton]
    simp only [beq_iff_eq]
    exact Nat.le_refl _
  · rw [Function.update_of_ne htarget]
    exact Nat.le_add_right _ _

theorem Moves.calls_le (h : Moves site t s i s' pushed) (hf : f.owners) (hfits : Fits site t i)
    (hqueues : ∀ g ∈ s.functors t, Queues site t g) :
    (s'.functors site.io).count f + Config.weigh (Instr.calls f) pushed +
        (if i = f.instr then 1 else 0) ≤ (s.functors site.io).count f + i.calls f ∨
      (f = .connectDestroyed ∧ Destroying site s s' i) ∧
        (s'.functors site.io).count f + Config.weigh (Instr.calls f) pushed +
          (if i = f.instr then 1 else 0) ≤ (s.functors site.io).count f + i.calls f + 1 := by
  have hinstr : (∀ j, i ≠ .connection j) → (if i = f.instr then 1 else 0) = 0 := by
    intro hne
    refine if_neg ?_
    obtain rfl | rfl := hf <;> exact hne _
  cases h with
  | functors =>
    have hclear := count_update_clear (s := s) hf hqueues
    rw [hinstr nofun]
    refine .inl ?_
    simp only [Config.weigh_cons, Config.weigh_nil, Instr.calls]
    omega
  | others => exact .inl (Nat.le_of_eq (by rw [hinstr nofun]; rfl))
  | poll revents io polled alive => exact .inl (Nat.le_of_eq (by rw [hinstr nofun]; rfl))
  | ask hi hj =>
    rename_i j
    refine .inl ?_
    have hne : ∀ k, i ≠ .connection k := by
      rintro k rfl
      obtain heq | hacts := hi
      · cases heq
      · exact hacts
    have hnone : j.calls f = 0 := by obtain rfl | rfl | ⟨rfl | rfl, -⟩ := hj <;> rfl
    rw [hinstr hne, Config.weigh_cons, Config.weigh_cons, hnone, Config.weigh_nil]
    omega
  | skip hi =>
    refine .inl ?_
    obtain rfl | rfl | rfl | rfl | rfl | rfl | rfl := hi <;> rw [hinstr nofun] <;>
      exact Nat.le_refl _
  | letGo hi =>
    refine .inl ?_
    obtain ⟨rfl, -⟩ | rfl := hi <;> rw [hinstr nofun] <;> exact Nat.le_refl _
  | handleEvent revents =>
    rw [hinstr nofun, calls_dispatch hf]
    exact .inl (Nat.le_refl _)
  | handleWritable =>
    refine .inl ?_
    rw [hinstr nofun]
    obtain rfl | rfl := hf <;> exact Nat.le_refl _
  | connection exec =>
    rw [calls_connection hf hfits.2 (TcpConnection.moves_of_exec exec)]
    simp only [Instr.calls, eq_comm, Nat.add_zero]
    exact .inl (Nat.le_refl _)
  | returned hi =>
    refine .inl ?_
    obtain rfl | rfl := hi <;> rw [hinstr nofun] <;> exact Nat.le_refl _
  | copy hi =>
    refine .inl ?_
    have hne : ∀ k, i ≠ .connection k := by
      rintro k rfl
      exact hi
    rw [hinstr hne, Config.weigh_cons, Config.weigh_nil]
    exact Nat.le_refl _
  | call hi g requested =>
    refine .inl ?_
    have hne : ∀ k, i ≠ .connection k := by
      rintro k rfl
      exact hi
    rw [hinstr hne, Config.weigh_append, calls_runInLoop hf requested, Nat.zero_add]
    exact Nat.le_refl _
  | drop copies => exact .inl (Nat.le_of_eq (by rw [hinstr nofun]; rfl))
  | destroyClient client owned =>
    rw [hinstr nofun]
    obtain rfl | rfl := hf
    · exact .inl (Nat.le_refl _)
    · exact .inr ⟨⟨rfl, client, owned, rfl⟩, Nat.le_refl _⟩
  | destroy => exact .inl (Nat.le_of_eq (by rw [hinstr nofun]; rfl))
  | closeClient client =>
    rw [hinstr nofun]
    obtain rfl | rfl := hf
    · exact .inl (Nat.le_refl _)
    · exact .inr ⟨⟨rfl, client⟩, Nat.le_refl _⟩
  | closeServer server =>
    refine .inl ?_
    rw [hinstr nofun]
    obtain rfl | rfl := hf <;> exact Nat.le_refl _
  | queue target g =>
    have hpush : (Function.update s.functors target (s.functors target ++ [g]) site.io).count f ≤ _ :=
      count_update_push s.functors target f g
    rw [hinstr nofun]
    exact .inl hpush
  | run functors g left =>
    rw [hinstr nofun, Config.weigh_cons, Config.weigh_cons, calls_instr f g hf]
    refine .inl ?_
    simp only [Instr.calls, List.count_cons, beq_iff_eq, Config.weigh_nil]
    omega
  | ran functors => exact .inl (Nat.le_of_eq (by rw [hinstr nofun]; rfl))
  | remove owned =>
    rw [hinstr nofun]
    obtain rfl | rfl := hf
    · exact .inl (Nat.le_refl _)
    · exact .inr ⟨⟨rfl, owned, rfl⟩, Nat.le_refl _⟩

theorem due_step (hplaced : Placed site c) (hf : f.owners) (htop : c.stack t = i :: rest)
    (hmoves : Moves site t c.shared i s pushed) :
    due site f (c.replace t s (pushed ++ rest)) + (if i = f.instr then 1 else 0) ≤ due site f c ∨
      (f = .connectDestroyed ∧ Destroying site c.shared s i) ∧
        due site f (c.replace t s (pushed ++ rest)) + (if i = f.instr then 1 else 0) ≤
          due site f c + 1 := by
  have htotal := Config.total_replace (Instr.calls f) htop s pushed
  have hcalls := hmoves.calls_le hf (hplaced.fits t i (Config.active_of_top htop))
    (hplaced.queues t)
  simp only [due, Config.shared_replace]
  refine hcalls.imp (fun hle => ?_) (And.imp_right fun hle => ?_)
  · omega
  · omega

end UnixNotes.Reactor.Lifetime
