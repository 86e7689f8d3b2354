import UnixNotes.Reactor.Lifetime

namespace UnixNotes.Reactor.Lifetime

open Library

variable {site : Site} {c : Config} {t : Nat} {i : Instr} {rest : List Instr} {s : Shared}
  {pushed : List Instr}

/-- `removeConnectionInLoop` is for the loop of the server, and the others are for that of the
connection. -/
def Queues (site : Site) (target : Nat) : Functor → Prop
  | .removeConnectionInLoop => site.owner = .server target
  | _ => target = site.io

/-- What the code asserts with `assertInLoopThread`. -/
def Fits (site : Site) (t : Nat) : Instr → Prop
  | .loop => t = site.io ∨ t = site.home
  | .connection i => t = site.io ∧ ¬i.idle
  | .handleEvent _ | .handling _ | .callback | .closeCallback | .temporary => t = site.io
  | .reset => t = site.io ∧ site.owner = .client
  | .queueInLoop target f => Queues site target f
  | .doPendingFunctors functors left =>
    (∀ f ∈ functors, Queues site t f) ∧ ∀ f ∈ left, f ∈ functors
  | .removeConnectionInLoop => site.owner = .server t
  | .destroy => t = site.home
  | _ => True

def Instr.exposes : Instr → Prop
  | .handleEvent _ | .handling _ => True
  | _ => False

def Instr.runs : Instr → Prop
  | .doPendingFunctors _ _ | .removeConnectionInLoop => True
  | _ => False

def Instr.plain (i : Instr) : Prop := i ≠ .loop ∧ ¬i.exposes ∧ ¬i.runs

theorem Instr.acts.plain (h : i.acts) : i.plain := by
  cases i with
  | user | callback => exact ⟨nofun, id, id⟩
  | _ => exact h.elim

theorem Fits.functor {f : Functor} (h : Queues site t f) : Fits site t f.instr := by
  cases f with
  | removeConnectionInLoop => exact h
  | _ => exact ⟨h, id⟩

theorem Queues.of_requested {f : Functor} (h : f.requested = true) : Queues site site.io f := by
  cases f with
  | sendInLoop | shutdownInLoop | forceCloseInLoop => rfl
  | _ => cases h

theorem Functor.instr_ne_loop (f : Functor) : f.instr ≠ .loop ∧ ¬f.instr.exposes := by
  cases f <;> exact ⟨nofun, id⟩

theorem plain_runInLoop {f : Functor} (h : f.requested = true) :
    ∀ j ∈ site.runInLoop t f, j.plain ∧ Fits site t j := by
  intro j hj
  have hqueues : Queues site site.io f := .of_requested h
  unfold Site.runInLoop at hj
  split at hj
  · subst t
    rw [List.mem_pair] at hj
    obtain rfl | rfl := hj
    · refine ⟨?_, .functor hqueues⟩
      cases f with
      | sendInLoop | shutdownInLoop | forceCloseInLoop => exact ⟨nofun, id, id⟩
      | _ => cases h
    · exact ⟨⟨nofun, id, id⟩, rfl⟩
  · rw [List.mem_singleton] at hj
    subst hj
    exact ⟨⟨nofun, id, id⟩, hqueues⟩

theorem dispatch_cases (revents : Revents) : ∃ writable,
    revents.dispatch = [.handling writable] ∨
      revents.dispatch = [.connection .handleClose, .handling writable] ∨
      revents.dispatch = [.connection .handleRead, .handling writable] := by
  unfold Revents.dispatch
  split
  · exact ⟨_, .inr (.inl rfl)⟩
  · split
    · exact ⟨_, .inr (.inl rfl)⟩
    · split
      · exact ⟨_, .inr (.inr rfl)⟩
      · exact ⟨_, .inl rfl⟩

theorem mem_connection {callbacks : Bool} {i : TcpConnection.Instr}
    {pushed : List TcpConnection.Instr} {j : Instr}
    (h : j ∈ pushed.flatMap (Instr.ofConnection callbacks i)) :
    j = .callback ∨ (j = .closeCallback ∧ i = .handleClose ∧ .callback ∈ pushed) ∨
      ∃ k ∈ pushed, k ≠ .callback ∧ j = .connection k := by
  obtain ⟨k, hk, hj⟩ := List.mem_flatMap.mp h
  by_cases hcallback : k = .callback
  · subst hcallback
    simp only [Instr.ofConnection] at hj
    split at hj
    · rw [List.mem_singleton] at hj
      split at hj
      · exact .inr (.inl ⟨hj, ‹_›, hk⟩)
      · exact .inl hj
    · cases hj
  · refine .inr (.inr ⟨k, hk, hcallback, ?_⟩)
    cases k with
    | callback => exact absurd rfl hcallback
    | _ => exact List.mem_singleton.mp hj

theorem pushed_connection {i : TcpConnection.Instr} {s s' : TcpConnection.Shared}
    {pushed : List TcpConnection.Instr} (h : TcpConnection.Moves s i s' pushed) (hi : ¬i.idle) :
    ∀ j ∈ pushed, j ≠ .callback → ¬j.idle ∧ j ≠ .connectEstablished ∧ j ≠ .connectDestroyed := by
  intro j hj hcallback
  cases h with
  | event idle => exact absurd idle hi
  | handleRead received closed =>
    rw [List.mem_append] at hj
    cases received <;> cases closed <;> simp at hj <;> grind [TcpConnection.Instr.idle]
  | _ => grind [TcpConnection.Instr.idle]

structure Placed (site : Site) (c : Config) : Prop where
  fits : ∀ t i, c.Active t i → Fits site t i
  queues : ∀ target, ∀ f ∈ c.shared.functors target, Queues site target f
  last : c.LastOnly (· = .loop)
  apart : c.Apart Instr.exposes Instr.runs

namespace Placed

theorem queues_update (h : Placed site c) {target : Nat} {functors : List Functor}
    (hfunctors : ∀ f ∈ functors, Queues site target f) :
    ∀ target', ∀ f ∈ Function.update c.shared.functors target functors target',
      Queues site target' f := by
  intro target' f hf
  by_cases heq : target' = target
  · subst heq
    rw [Function.update_self] at hf
    exact hfunctors f hf
  · rw [Function.update_of_ne heq] at hf
    exact h.queues target' f hf

theorem fits_replace (h : Placed site c) (htop : c.stack t = i :: rest)
    (hpushed : ∀ j ∈ pushed, Fits site t j) :
    ∀ t' j, (c.replace t s (pushed ++ rest)).Active t' j → Fits site t' j := by
  intro t' j hj
  obtain ⟨rfl, hmem⟩ | hactive := Config.active_of_replace htop hj
  · exact hpushed j hmem
  · exact h.fits t' j hactive

theorem replace (h : Placed site c) (htop : c.stack t = i :: rest)
    (hpushed : ∀ j ∈ pushed, j.plain ∧ Fits site t j)
    (hqueues : ∀ target, ∀ f ∈ s.functors target, Queues site target f) :
    Placed site (c.replace t s (pushed ++ rest)) where
  fits := h.fits_replace htop fun j hj => (hpushed j hj).2
  queues := hqueues
  last := h.last.replace htop (fun j hj => (hpushed j ((List.dropLast_sublist _).subset hj)).1.1)
    (.inr fun j hj => (hpushed j hj).1.1)
  apart := h.apart.replace htop (.inr (.inr fun j hj => (hpushed j hj).1.2.1))
    (.inr (.inr fun j hj => (hpushed j hj).1.2.2)) (.inl fun j hj => (hpushed j hj).1.2.1)

theorem loop_step (h : Placed site c) (first : List Instr) (htop : c.stack t = .loop :: rest)
    (hfirst : ∀ j ∈ first, j ≠ .loop ∧ Fits site t j)
    (hapart : (∀ j ∈ first, ¬j.exposes) ∨ ∀ j ∈ first, ¬j.runs)
    (hqueues : ∀ target, ∀ f ∈ s.functors target, Queues site target f) :
    Placed site (c.replace t s ((first ++ [Instr.loop]) ++ rest)) := by
  have hrest := h.last.rest_eq_nil htop rfl
  have hmem {P : Instr → Prop} (hP : ∀ j ∈ first, P j) (hloop : P .loop) :
      ∀ j ∈ first ++ [Instr.loop], P j := by
    simpa [or_imp, forall_and] using ⟨hP, hloop⟩
  have hloop := h.fits t .loop (Config.active_of_top htop)
  refine ⟨h.fits_replace htop (hmem (fun j hj => (hfirst j hj).2) hloop), hqueues,
    h.last.replace htop ?_ (.inl rfl), h.apart.replace htop (.inr (.inl hrest))
      (.inr (.inl hrest)) ?_⟩
  · rw [List.dropLast_concat]
    exact fun j hj => (hfirst j hj).1
  · exact hapart.imp (fun hnone => hmem hnone id) fun hnone => hmem hnone id

theorem frame_step {last : Instr} (h : Placed site c) (first : List Instr)
    (htop : c.stack t = i :: rest) (hfirst : ∀ j ∈ first, j ≠ .loop ∧ ¬j.exposes ∧ Fits site t j)
    (hlast : last ≠ .loop ∧ Fits site t last)
    (hkind : i.exposes ∧ last.exposes ∧ (∀ j ∈ first, ¬j.runs) ∧ ¬last.runs ∨
      i.runs ∧ last.runs ∧ ¬last.exposes) :
    Placed site (c.replace t c.shared ((first ++ [last]) ++ rest)) := by
  have hmem {P : Instr → Prop} (hP : ∀ j ∈ first, P j) (hlast : P last) :
      ∀ j ∈ first ++ [last], P j := by
    simpa [or_imp, forall_and] using ⟨hP, hlast⟩
  have hloop := hmem (fun j hj => (hfirst j hj).1) hlast.1
  have hexposes : i.runs → ¬last.exposes → ∀ j ∈ first ++ [last], ¬j.exposes :=
    fun _ hnone => hmem (fun j hj => (hfirst j hj).2.1) hnone
  refine ⟨h.fits_replace htop (hmem (fun j hj => (hfirst j hj).2.2) hlast.2), h.queues,
    h.last.replace htop (fun j hj => hloop j ((List.dropLast_sublist _).subset hj)) (.inr hloop),
    ?_⟩
  obtain ⟨hi, -, hfirstRuns, hlastRuns⟩ | ⟨hi, -, hnone⟩ := hkind
  · have hruns := hmem hfirstRuns hlastRuns
    exact h.apart.replace htop (.inl hi) (.inr (.inr hruns)) (.inr hruns)
  · have hexposed := hexposes hi hnone
    exact h.apart.replace htop (.inr (.inr hexposed)) (.inl hi) (.inl hexposed)

theorem step {c' : Config} (h : Placed site c) (hstep : (machine site).Step c t i c') :
    Placed site c' := by
  obtain @⟨rest, x, s, pushed, htop, hexec⟩ := hstep
  have hfits := h.fits t i (Config.active_of_top htop)
  cases moves_of_exec hexec with
  | functors =>
    refine h.loop_step [.doPendingFunctors _ _] htop ?_ (.inl (by simp [Instr.exposes]))
      (h.queues_update nofun)
    simpa [Fits] using h.queues t
  | others =>
    exact h.loop_step [.batch] htop (by simp [Fits]) (.inl (by simp [Instr.exposes]))
      h.queues
  | poll revents io =>
    exact h.loop_step [.batch, .handleEvent revents] htop (by simp [Fits, io])
      (.inr (by simp [Instr.runs])) h.queues
  | ask hi hj =>
    refine h.replace htop ?_ h.queues
    rw [List.forall_mem_cons, List.forall_mem_singleton]
    refine ⟨?_, ?_, hfits⟩
    · obtain rfl | rfl | ⟨rfl | rfl, hhome⟩ := hj
      · exact ⟨⟨nofun, id, id⟩, trivial⟩
      · exact ⟨⟨nofun, id, id⟩, trivial⟩
      · exact ⟨⟨nofun, id, id⟩, trivial⟩
      · exact ⟨⟨nofun, id, id⟩, hhome⟩
    · obtain rfl | hacts := hi
      · exact ⟨nofun, id, id⟩
      · exact hacts.plain
  | skip | letGo | returned | drop | destroy | ran => exact h.replace htop nofun h.queues
  | handleEvent revents =>
    obtain ⟨writable, heq | heq | heq⟩ := dispatch_cases revents
    all_goals rw [heq]
    · exact h.frame_step [] htop nofun ⟨nofun, hfits⟩
        (.inl ⟨trivial, trivial, nofun, id⟩)
    all_goals
      exact h.frame_step [.connection _] htop
        (by simpa [Instr.exposes, Fits, TcpConnection.Instr.idle] using hfits) ⟨nofun, hfits⟩
        (.inl ⟨trivial, trivial, by simp [Instr.runs], id⟩)
  | handleWritable =>
    exact h.frame_step [.connection .handleWrite] htop
      (by simpa [Instr.exposes, Fits, TcpConnection.Instr.idle] using hfits) ⟨nofun, hfits⟩
      (.inl ⟨trivial, trivial, by simp [Instr.runs], id⟩)
  | connection exec =>
    refine h.replace htop (fun j hj => ?_) h.queues
    obtain rfl | ⟨rfl, -, -⟩ | ⟨k, hk, hcallback, rfl⟩ := mem_connection hj
    · exact ⟨⟨nofun, id, id⟩, hfits.1⟩
    · exact ⟨⟨nofun, id, id⟩, hfits.1⟩
    · have hcall := pushed_connection (TcpConnection.moves_of_exec exec) hfits.2 k hk hcallback
      exact ⟨⟨nofun, id, id⟩, hfits.1, hcall.1⟩
  | copy hi =>
    exact h.replace htop (List.forall_mem_singleton.mpr ⟨hi.plain, hfits⟩) h.queues
  | call hi f requested =>
    refine h.replace htop (fun j hj => ?_) h.queues
    rw [List.mem_append, List.mem_singleton] at hj
    obtain hj | rfl := hj
    · exact plain_runInLoop requested j hj
    · exact ⟨hi.plain, hfits⟩
  | destroyClient client owned =>
    have hio : t = site.io := by simpa [Fits, Site.home, client] using hfits
    refine h.replace htop ?_ h.queues
    simp [Instr.plain, Instr.exposes, Instr.runs, Fits, TcpConnection.Instr.idle, hio]
  | closeClient client =>
    have hio : t = site.io := hfits
    refine h.replace htop ?_ h.queues
    simp [Instr.plain, Instr.exposes, Instr.runs, Fits, TcpConnection.Instr.idle, client, hio]
  | closeServer server =>
    have hio : t = site.io := hfits
    refine h.replace htop ?_ h.queues
    simp [Instr.plain, Instr.exposes, Instr.runs, Fits, Queues, server, hio]
  | queue target f =>
    refine h.replace htop nofun (h.queues_update ?_)
    rw [List.forall_mem_append, List.forall_mem_singleton]
    exact ⟨h.queues target, hfits⟩
  | run functors f left =>
    have hf := hfits.1 f (hfits.2 f (List.mem_cons_self ..))
    exact h.frame_step [f.instr] htop
      (List.forall_mem_singleton.mpr ⟨f.instr_ne_loop.1, f.instr_ne_loop.2, .functor hf⟩)
      ⟨nofun, hfits.1, fun f hf => hfits.2 f (List.mem_cons_of_mem _ hf)⟩
      (.inr ⟨trivial, trivial, id⟩)
  | remove owned =>
    exact h.replace htop (List.forall_mem_singleton.mpr ⟨⟨nofun, id, id⟩, rfl⟩) h.queues

end Placed

def queued (site : Site) (s : Shared) : Nat :=
  (s.functors site.io).length +
    if site.home = site.io then 0 else (s.functors site.home).length

def stored (site : Site) (s : Shared) : Nat := s.owned.toNat + s.copies + queued site s

def Counted (site : Site) (c : Config) : Prop :=
  c.shared.uses = stored site c.shared + c.total Instr.holds

theorem Queues.target_cases {target : Nat} {f : Functor} (h : Queues site target f) :
    target = site.io ∨ target = site.home := by
  cases f with
  | removeConnectionInLoop =>
    have hserver : site.owner = .server target := h
    exact .inr (by simp [Site.home, hserver])
  | _ => exact .inl h

theorem queued_clear (ht : t = site.io ∨ t = site.home) :
    queued site { s with functors := Function.update s.functors t [] } +
      (s.functors t).length = queued site s := by
  by_cases hhome : site.home = site.io
  · have htio : t = site.io := ht.elim id fun heq => heq.trans hhome
    simp [queued, hhome, htio]
  · obtain rfl | rfl := ht
    · simp [queued, hhome]
      omega
    · simp [queued, hhome, Ne.symm hhome]

theorem queued_push {target : Nat} {f : Functor} (h : Queues site target f) :
    queued site
        { s with functors := Function.update s.functors target (s.functors target ++ [f]) } =
      queued site s + 1 := by
  have htarget := h.target_cases
  by_cases hhome : site.home = site.io
  · have hio : target = site.io := htarget.elim id fun heq => heq.trans hhome
    simp [queued, hhome, hio]
  · obtain rfl | rfl := htarget
    · simp [queued, hhome]
      omega
    · simp [queued, hhome, Ne.symm hhome]
      omega

theorem weigh_runInLoop {f : Functor} (h : f ≠ .removeConnectionInLoop) :
    Config.weigh Instr.holds (site.runInLoop t f) = 1 := by
  unfold Site.runInLoop
  split
  · cases f <;> first | exact absurd rfl h | rfl
  · rfl

theorem weigh_dispatch (revents : Revents) : Config.weigh Instr.holds revents.dispatch = 0 := by
  obtain ⟨writable, heq | heq | heq⟩ := dispatch_cases revents <;> rw [heq] <;> rfl

theorem Counted.replace (h : Counted site c) (htop : c.stack t = i :: rest)
    (hcount : stored site c.shared + i.holds ≤ c.shared.uses →
      s.uses + i.holds + stored site c.shared =
        c.shared.uses + Config.weigh Instr.holds pushed + stored site s) :
    Counted site (c.replace t s (pushed ++ rest)) := by
  have htotal := Config.total_replace Instr.holds htop s pushed
  have hle := Config.le_total (w := Instr.holds) (Config.active_of_top htop)
  unfold Counted at h
  have := hcount (by omega)
  change s.uses = stored site s + _
  omega

theorem Counted.step {c' : Config} (h : Counted site c) (hplaced : Placed site c)
    (hstep : (machine site).Step c t i c') : Counted site c' := by
  obtain @⟨rest, x, s, pushed, htop, hexec⟩ := hstep
  have hfits := hplaced.fits t i (Config.active_of_top htop)
  refine h.replace htop fun hle => ?_
  cases moves_of_exec hexec with
  | functors =>
    have := queued_clear (s := c.shared) hfits
    simp only [stored, Config.weigh_cons, Config.weigh_nil, Instr.holds]
    omega
  | others | poll => simp [Instr.holds]
  | @ask _ j hi hj =>
    have hnone : j.holds = 0 := by obtain rfl | rfl | ⟨rfl | rfl, -⟩ := hj <;> rfl
    simp [hnone]
  | skip hi => obtain rfl | rfl | rfl | rfl | rfl | rfl | rfl := hi <;> rfl
  | letGo hi =>
    have hnone : i.holds = 0 := by obtain ⟨rfl, -⟩ | rfl := hi <;> rfl
    simp [stored, queued, hnone] at hle ⊢
    omega
  | handleEvent revents => simp [weigh_dispatch, Instr.holds]
  | handleWritable => simp [Instr.holds]
  | connection exec => simp only [stored, queued, Instr.holds]; omega
  | returned hi =>
    have hone : i.holds = 1 := by obtain rfl | rfl := hi <;> rfl
    simp [stored, queued, hone] at hle ⊢
    omega
  | copy hi => simp [stored, queued]; omega
  | call hi f requested =>
    have hf : f ≠ .removeConnectionInLoop := by rintro rfl; cases requested
    simp [stored, queued, weigh_runInLoop hf]
    omega
  | drop copies =>
    simp [stored, queued, Instr.holds] at hle ⊢
    omega
  | destroyClient client owned =>
    simp [stored, queued, Instr.holds, owned]
    omega
  | destroy =>
    simp [stored, queued, Instr.holds] at hle ⊢
    omega
  | closeClient client => simp [Instr.holds]
  | closeServer server => simp [stored, queued, Instr.holds]
  | queue target f =>
    have := queued_push (s := c.shared) hfits
    simp only [stored, Config.weigh_nil, Instr.holds]
    omega
  | run functors f left => cases f <;> simp [Functor.instr, Instr.holds]
  | ran functors =>
    simp [stored, queued, Instr.holds] at hle ⊢
    omega
  | remove owned =>
    simp [stored, queued, Instr.holds, owned]
    omega

end UnixNotes.Reactor.Lifetime
