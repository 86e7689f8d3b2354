import UnixNotes.Reactor.LifetimeOrder

namespace UnixNotes.Reactor.Lifetime

open Library

variable {site : Site} {t : Nat} {i : Instr} {rest : List Instr} {s s' : Shared}
  {pushed : List Instr}

namespace Instr

def destroyCall : Instr → Bool
  | .connection .connectDestroyed => true
  | _ => false

def readCall : Instr → Bool
  | .connection .handleRead => true
  | _ => false

def running : Instr → Bool
  | .doPendingFunctors _ _ => true
  | _ => false

def dispatching : Instr → Bool
  | .handling _ => true
  | _ => false

def aside (i : Instr) : Prop := i.destroyCall = false ∧ i.readCall = false

end Instr

theorem not_read_of_moves {j : TcpConnection.Instr} {connection connection' : TcpConnection.Shared}
    {calls : List TcpConnection.Instr} (h : TcpConnection.Moves connection j connection' calls)
    (hidle : ¬j.idle) : .handleRead ∉ calls := by
  cases h with
  | event idle => exact absurd idle hidle
  | handleRead received closed => cases received <;> cases closed <;> simp
  | _ => simp

theorem Instr.acts.aside (h : i.acts) : i.aside := by
  cases i with
  | user | callback => exact ⟨rfl, rfl⟩
  | _ => exact h.elim

theorem aside_runInLoop {f : Functor} (h : f.requested = true) :
    ∀ j ∈ site.runInLoop t f, j.aside := by
  intro j hj
  unfold Site.runInLoop at hj
  split at hj
  · obtain rfl | rfl := List.mem_pair.mp hj
    · cases f <;> first | exact ⟨rfl, rfl⟩ | cases h
    · exact ⟨rfl, rfl⟩
  · rw [List.mem_singleton.mp hj]
    exact ⟨rfl, rfl⟩

/-- In the loop of a server, the connection is destroyed by a functor and read in an event. -/
theorem Moves.aside {base : Nat} (h : Moves site t s i s' pushed)
    (hserver : site.owner = .server base) (hfits : Fits site t i) : (∀ j ∈ pushed, j.aside) ∨
      (∃ revents : Revents, pushed = revents.dispatch) ∨
        ∃ functors f left, pushed = [Functor.instr f, .doPendingFunctors functors left] := by
  cases h with
  | handleEvent revents => exact .inr (.inl ⟨revents, rfl⟩)
  | run functors f left => exact .inr (.inr ⟨functors, f, left, rfl⟩)
  | destroyClient client =>
    rw [hserver] at client
    cases client
  | closeClient client =>
    rw [hserver] at client
    cases client
  | ask hi hj =>
    refine .inl ?_
    rw [List.forall_mem_cons, List.forall_mem_singleton]
    constructor
    · obtain rfl | rfl | ⟨rfl | rfl, -⟩ := hj <;> exact ⟨rfl, rfl⟩
    · obtain rfl | hacts := hi
      · exact ⟨rfl, rfl⟩
      · exact hacts.aside
  | connection exec =>
    refine .inl fun k hk => ?_
    have hmoves := TcpConnection.moves_of_exec exec
    obtain rfl | ⟨rfl, -, -⟩ | ⟨k, hmem, hcallback, rfl⟩ := mem_connection hk
    · exact ⟨rfl, rfl⟩
    · exact ⟨rfl, rfl⟩
    · have hdestroy := (pushed_connection hmoves hfits.2 k hmem hcallback).2.2
      have hread := not_read_of_moves hmoves hfits.2
      cases k <;> first | exact ⟨rfl, rfl⟩ | exact absurd rfl hdestroy | exact absurd hmem hread
  | copy hi => exact .inl (List.forall_mem_singleton.mpr hi.aside)
  | call hi f requested =>
    refine .inl (List.forall_mem_append.mpr ⟨aside_runInLoop requested, ?_⟩)
    exact List.forall_mem_singleton.mpr hi.aside
  | _ => exact .inl (by simp [Instr.aside, Instr.destroyCall, Instr.readCall])

theorem Moves.exposes (h : Moves site t s i s' pushed) :
    (∀ j ∈ pushed, j.exposes → i.exposes) ∨ i = .loop ∧ polled s.connection := by
  cases h with
  | poll revents io polled => exact .inr ⟨rfl, polled⟩
  | ask hi hj =>
    refine .inl ?_
    rw [List.forall_mem_cons, List.forall_mem_singleton]
    refine ⟨fun hexposes => ?_, id⟩
    obtain rfl | rfl | ⟨rfl | rfl, -⟩ := hj <;> exact hexposes.elim
  | handleEvent revents => exact .inl fun _ _ _ => trivial
  | handleWritable => exact .inl fun _ _ _ => trivial
  | connection exec =>
    refine .inl fun k hk hexposes => ?_
    obtain rfl | ⟨rfl, -, -⟩ | ⟨k, -, -, rfl⟩ := mem_connection hk <;> exact hexposes.elim
  | copy hi => exact .inl (List.forall_mem_singleton.mpr id)
  | call hi f requested =>
    refine .inl (List.forall_mem_append.mpr ⟨fun j hj hexposes => ?_, ?_⟩)
    · exact absurd hexposes (plain_runInLoop requested j hj).1.2.1
    · exact List.forall_mem_singleton.mpr id
  | run functors f left =>
    refine .inl ?_
    rw [List.forall_mem_cons, List.forall_mem_singleton]
    exact ⟨(absurd · f.instr_ne_loop.2), id⟩
  | _ => exact .inl (by simp [Instr.exposes])

structure Deferred (site : Site) (c : Config) : Prop where
  callbacks : c.shared.callbacks = true
  destroying : c.Followed Instr.destroyCall Instr.running
  reading : c.Followed Instr.readCall Instr.dispatching

theorem Deferred.step {c : Config} {base : Nat} (h : Deferred site c)
    (hserver : site.owner = .server base) (hplaced : Placed site c) (htop : c.stack t = i :: rest)
    (hmoves : Moves site t c.shared i s pushed) :
    Deferred site (c.replace t s (pushed ++ rest)) := by
  have haside := hmoves.aside hserver (hplaced.fits t i (Config.active_of_top htop))
  refine ⟨?_, h.destroying.replace htop (.inr ?_), h.reading.replace htop (.inr ?_)⟩
  · obtain heq | ⟨-, hclient, -⟩ := hmoves.callbacks_eq
    · exact heq.trans h.callbacks
    · rw [hserver] at hclient
      cases hclient
  · obtain hall | ⟨revents, rfl⟩ | ⟨functors, f, left, rfl⟩ := haside
    · exact Config.followed_of_forall fun j hj => (hall j hj).1
    · obtain ⟨writable, heq | heq | heq⟩ := dispatch_cases revents <;> rw [heq] <;> rfl
    · cases f <;> rfl
  · obtain hall | ⟨revents, rfl⟩ | ⟨functors, f, left, rfl⟩ := haside
    · exact Config.followed_of_forall fun j hj => (hall j hj).2
    · obtain ⟨writable, heq | heq | heq⟩ := dispatch_cases revents <;> rw [heq] <;> rfl
    · cases f <;> rfl

end UnixNotes.Reactor.Lifetime
