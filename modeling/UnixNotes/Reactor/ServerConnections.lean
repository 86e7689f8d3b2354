import UnixNotes.Reactor.TcpServer

namespace UnixNotes.Reactor.TcpServer

open Library
open TcpConnection (State)

namespace Shared

def name (s : Shared) (k : Nat) : Option String := s.made[k]?.map Connection.name

theorem name_setState (s : Shared) (j : Nat) (state : State) (k : Nat) :
    (s.setState j state).name k = s.name k := by
  simp only [name, setState, List.getElem?_modify]
  cases s.made[k]? with
  | none => rfl
  | some connection => by_cases h : j = k <;> simp [h]

theorem state_setState (s : Shared) (j : Nat) (state : State) (k : Nat) :
    (s.setState j state).state k = if j = k then (s.state k).map fun _ => state else s.state k := by
  simp only [Shared.state, setState, List.getElem?_modify]
  cases s.made[k]? with
  | none => by_cases h : j = k <;> simp [h]
  | some connection => by_cases h : j = k <;> simp [h]

theorem state_setState_of_ne (s : Shared) {j k : Nat} (state : State) (h : j ≠ k) :
    (s.setState j state).state k = s.state k := by
  rw [state_setState, if_neg h]

theorem state_setState_self (s : Shared) {k : Nat} {before : State} (state : State)
    (h : s.state k = some before) : (s.setState k state).state k = some state := by
  rw [state_setState, if_pos rfl, h, Option.map_some]

theorem name_newConnection (s : Shared) (workers k : Nat) :
    (s.newConnection workers).name k =
      if k = s.made.length then some (connectionName s.nextConnectionId) else s.name k := by
  simp only [name, newConnection]
  obtain hlt | rfl | hgt := Nat.lt_trichotomy k s.made.length
  · rw [List.getElem?_append_left hlt, if_neg (Nat.ne_of_lt hlt)]
  · simp
  · rw [if_neg (Nat.ne_of_gt hgt), List.getElem?_eq_none (by simp; omega),
      List.getElem?_eq_none (Nat.le_of_lt hgt)]

theorem state_newConnection (s : Shared) (workers k : Nat) :
    (s.newConnection workers).state k =
      if k = s.made.length then some .kConnecting else s.state k := by
  simp only [Shared.state, newConnection]
  obtain hlt | rfl | hgt := Nat.lt_trichotomy k s.made.length
  · rw [List.getElem?_append_left hlt, if_neg (Nat.ne_of_lt hlt)]
  · simp
  · rw [if_neg (Nat.ne_of_gt hgt), List.getElem?_eq_none (by simp; omega),
      List.getElem?_eq_none (Nat.le_of_lt hgt)]

theorem state_eq_none (s : Shared) {k : Nat} (h : s.made.length ≤ k) : s.state k = none := by
  rw [Shared.state, List.getElem?_eq_none h, Option.map_none]

end Shared

namespace Instr

def holds (f : Functor) : Instr → Nat
  | .call g | .queueInLoop _ g => if g = f then 1 else 0
  | .running functors => functors.count f
  | .closeCallback k => if f = .removeConnectionInLoop k then 1 else 0
  | _ => 0

end Instr

def held (f : Functor) (c : Config) : Nat :=
  (c.shared.functors.map Prod.snd).count f + c.total (Instr.holds f)

theorem held_replace (f : Functor) {c : Config} {t : Nat} {i : Instr} {rest : List Instr}
    (htop : c.stack t = i :: rest) (s : Shared) (pushed : List Instr) :
    held f (c.replace t s (pushed ++ rest)) + i.holds f +
        (c.shared.functors.map Prod.snd).count f =
      held f c + Config.weigh (Instr.holds f) pushed + (s.functors.map Prod.snd).count f := by
  have := Config.total_replace (Instr.holds f) htop s pushed
  simp only [held, Config.shared_replace]
  omega

theorem held_replace_of_eq (f : Functor) {c : Config} {t : Nat} {i : Instr} {rest : List Instr}
    (htop : c.stack t = i :: rest) (s : Shared) (pushed : List Instr)
    (hfunctors : s.functors = c.shared.functors) :
    held f (c.replace t s (pushed ++ rest)) + i.holds f =
      held f c + Config.weigh (Instr.holds f) pushed := by
  have := held_replace f htop s pushed
  rw [hfunctors] at this
  omega

theorem holds_le_held (f : Functor) {c : Config} {t : Nat} {i : Instr} (h : c.Active t i) :
    i.holds f ≤ held f c :=
  Nat.le_trans (Config.le_total h) (Nat.le_add_left _ _)

theorem count_filter_add (functors : List (Nat × Functor)) (t : Nat) (f : Functor) :
    ((functors.filter fun g => g.1 ≠ t).map Prod.snd).count f +
        ((functors.filter fun g => g.1 = t).map Prod.snd).count f =
      (functors.map Prod.snd).count f := by
  induction functors with
  | nil => rfl
  | cons g functors ih =>
    by_cases h : g.1 = t
    · simp only [ne_eq, h, not_true_eq_false, decide_false, Bool.false_eq_true, not_false_eq_true,
        List.filter_cons_of_neg, decide_true, List.filter_cons_of_pos, List.map_cons,
        List.count_cons] at ih ⊢
      omega
    · simp only [ne_eq, h, not_false_eq_true, decide_true, List.filter_cons_of_pos, decide_false,
        Bool.false_eq_true, List.filter_cons_of_neg, List.map_cons, List.count_cons] at ih ⊢
      omega

structure Owning (c : Config) : Prop where
  nextConnectionId :
    c.shared.nextConnectionId = 1 + BitVec.ofNat 32 c.shared.made.length
  named : ∀ k name, c.shared.name k = some name → name = connectionName (1 + BitVec.ofNat 32 k)
  stored : ∀ k name, c.shared.name k = some name → k ∉ c.shared.removed →
    c.shared.connections.lookup name = some k
  live : ∀ name k, c.shared.connections.lookup name = some k →
    c.shared.name k = some name ∧ k ∉ c.shared.removed
  establishing : ∀ k, held (.connectEstablished k) c ≤
    if c.shared.state k = some .kConnecting then 1 else 0
  removing : ∀ k, held (.removeConnectionInLoop k) c + c.shared.removed.count k ≤
    if c.shared.state k = some .kDisconnected then 1 else 0
  destroying : ∀ k, held (.connectDestroyed k) c ≤ c.shared.removed.count k
  closing : ∀ t k, c.Active t (.handleClose k) →
    ∃ state, c.shared.state k = some state ∧ state ≠ .kConnecting

def Functor.counted : Functor → Prop
  | .shutdownInLoop _ | .forceCloseInLoop _ => False
  | _ => True

namespace Owning

variable {workers : Nat} {c c' : Config} {t : Nat} {i : Instr} {rest pushed : List Instr}
  {s : Shared}

theorem init (workers users : Nat) : Owning (init workers users) := by
  have hactive {t : Nat} {i : Instr} (h : (TcpServer.init workers users).Active t i) :
      i = .loop ∨ i = .user := by
    obtain ⟨stack, hstack, hi⟩ := Config.mem_threads h
    rw [TcpServer.init, List.mem_append, List.mem_replicate, List.mem_replicate] at hstack
    obtain ⟨-, rfl⟩ | ⟨-, rfl⟩ := hstack
    · exact .inl (List.mem_singleton.mp hi)
    · exact .inr (List.mem_singleton.mp hi)
  have hheld (f : Functor) : held f (TcpServer.init workers users) = 0 := by
    refine Nat.add_eq_zero_iff.mpr ⟨rfl, Config.total_eq_zero fun t i h => ?_⟩
    obtain rfl | rfl := hactive h <;> rfl
  refine ⟨rfl, nofun, nofun, nofun, fun k => ?_, fun k => ?_, fun k => ?_, fun t k h => ?_⟩
  · rw [hheld]
    exact Nat.zero_le _
  · rw [hheld]
    exact Nat.zero_le _
  · rw [hheld]
    exact Nat.zero_le _
  · obtain h | h := hactive h <;> cases h

theorem closing_replace (h : Owning c) (htop : c.stack t = i :: rest)
    (hstate : ∀ k state, c.shared.state k = some state → state ≠ .kConnecting →
      ∃ state, s.state k = some state ∧ state ≠ .kConnecting)
    (hpushed : ∀ k, .handleClose k ∈ pushed →
      ∃ state, s.state k = some state ∧ state ≠ .kConnecting)
    (t' k : Nat) (hactive : (c.replace t s (pushed ++ rest)).Active t' (.handleClose k)) :
    ∃ state, s.state k = some state ∧ state ≠ .kConnecting := by
  obtain ⟨-, hmem⟩ | hold := Config.active_of_replace htop hactive
  · exact hpushed k hmem
  · obtain ⟨state, hsome, hne⟩ := h.closing t' k hold
    exact hstate k state hsome hne

theorem keep (h : Owning c) (htop : c.stack t = i :: rest) {functors : List (Nat × Functor)}
    (hheld : ∀ f : Functor, f.counted → Config.weigh (Instr.holds f) pushed +
      (functors.map Prod.snd).count f ≤ i.holds f + (c.shared.functors.map Prod.snd).count f)
    (hclosing : ∀ k, .handleClose k ∈ pushed →
      ∃ state, c.shared.state k = some state ∧ state ≠ .kConnecting) :
    Owning (c.replace t { c.shared with functors := functors } (pushed ++ rest)) := by
  let s : Shared := { c.shared with functors := functors }
  have hle (f : Functor) (hf : f.counted) : held f (c.replace t s (pushed ++ rest)) ≤ held f c := by
    have hreplace := held_replace f htop s pushed
    have := hheld f hf
    simp only [s] at hreplace ⊢
    omega
  refine ⟨h.nextConnectionId, h.named, h.stored, h.live, fun k => ?_, fun k => ?_, fun k => ?_,
    h.closing_replace htop (fun k state hsome hne => ⟨state, hsome, hne⟩) hclosing⟩
  · exact Nat.le_trans (hle (.connectEstablished k) trivial) (h.establishing k)
  · exact Nat.le_trans (Nat.add_le_add_right (hle (.removeConnectionInLoop k) trivial) _)
      (h.removing k)
  · exact Nat.le_trans (hle (.connectDestroyed k) trivial) (h.destroying k)

theorem setState (h : Owning c) (htop : c.stack t = i :: rest) {j : Nat} {before state : State}
    (hbefore : c.shared.state j = some before) (hconnecting : state ≠ .kConnecting)
    (hheld : ∀ f : Functor, f.counted → f ≠ .removeConnectionInLoop j →
      Config.weigh (Instr.holds f) pushed ≤ i.holds f)
    (hestablishing : held (.connectEstablished j) c +
      Config.weigh (Instr.holds (.connectEstablished j)) pushed = i.holds (.connectEstablished j))
    (hremoving : held (.removeConnectionInLoop j) c + c.shared.removed.count j +
        Config.weigh (Instr.holds (.removeConnectionInLoop j)) pushed ≤
      (if state = .kDisconnected then 1 else 0) + i.holds (.removeConnectionInLoop j))
    (hclosing : ∀ k, .handleClose k ∉ pushed) :
    Owning (c.replace t (c.shared.setState j state) (pushed ++ rest)) := by
  have hreplace (f : Functor) := held_replace_of_eq f htop (c.shared.setState j state) pushed
    rfl
  have hafter : (c.shared.setState j state).state j = some state :=
    Shared.state_setState_self _ _ hbefore
  have hle (f : Functor) (hf : f.counted) (hne : f ≠ .removeConnectionInLoop j) :
      held f (c.replace t (c.shared.setState j state) (pushed ++ rest)) ≤ held f c := by
    have := hreplace f
    have := hheld f hf hne
    omega
  have hname : (c.shared.setState j state).name = c.shared.name :=
    funext (c.shared.name_setState j state)
  refine ⟨?_, ?_, ?_, ?_, fun k => ?_, fun k => ?_, fun k => ?_,
    h.closing_replace htop (fun k old hsome hne => ?_) fun k hmem => absurd hmem (hclosing k)⟩
  · change c.shared.nextConnectionId = 1 + BitVec.ofNat 32 (c.shared.made.modify j _).length
    rw [List.length_modify]
    exact h.nextConnectionId
  · rw [Config.shared_replace, hname]
    exact h.named
  · rw [Config.shared_replace, hname]
    exact h.stored
  · rw [Config.shared_replace, hname]
    exact h.live
  · by_cases hk : j = k
    · subst hk
      have := hreplace (.connectEstablished j)
      exact Nat.le_trans (by omega) (Nat.zero_le _)
    · rw [Config.shared_replace, Shared.state_setState_of_ne _ _ hk]
      exact Nat.le_trans (hle (.connectEstablished k) trivial nofun) (h.establishing k)
  · by_cases hk : j = k
    · subst hk
      have := hreplace (.removeConnectionInLoop j)
      simp only [Config.shared_replace, hafter, Option.some.injEq]
      change _ + c.shared.removed.count j ≤ _
      omega
    · rw [Config.shared_replace, Shared.state_setState_of_ne _ _ hk]
      have hne : Functor.removeConnectionInLoop k ≠ .removeConnectionInLoop j := by
        rintro ⟨⟩
        exact hk rfl
      exact Nat.le_trans (Nat.add_le_add_right (hle (.removeConnectionInLoop k) trivial hne) _) (h.removing k)
  · exact Nat.le_trans (hle (.connectDestroyed k) trivial nofun) (h.destroying k)
  · by_cases hk : j = k
    · subst hk
      exact ⟨state, hafter, hconnecting⟩
    · rw [Shared.state_setState_of_ne _ _ hk]
      exact ⟨old, hsome, hne⟩

theorem connecting (h : Owning c) {k : Nat} (hheld : 0 < held (.connectEstablished k) c) :
    c.shared.state k = some .kConnecting ∧ held (.connectEstablished k) c = 1 := by
  have hle := h.establishing k
  split at hle
  · exact ⟨‹_›, by omega⟩
  · omega

theorem closed (h : Owning c) {k : Nat} (hheld : 0 < held (.removeConnectionInLoop k) c) :
    c.shared.state k = some .kDisconnected ∧ held (.removeConnectionInLoop k) c = 1 ∧
      k ∉ c.shared.removed := by
  have hle := h.removing k
  split at hle
  · have hcount : c.shared.removed.count k = 0 := by omega
    exact ⟨‹_›, by omega, List.count_eq_zero.mp hcount⟩
  · omega

theorem disconnected (h : Owning c) {k : Nat} (hmem : k ∈ c.shared.removed) :
    c.shared.state k = some .kDisconnected ∧ held (.removeConnectionInLoop k) c = 0 := by
  have hle := h.removing k
  have hcount := List.count_pos_iff.mpr hmem
  split at hle
  · exact ⟨‹_›, by omega⟩
  · omega

theorem not_establishing (h : Owning c) {k : Nat} (hstate : c.shared.state k ≠ some .kConnecting) :
    held (.connectEstablished k) c = 0 := by
  have hle := h.establishing k
  rw [if_neg hstate] at hle
  omega

theorem not_removing (h : Owning c) {k : Nat} (hstate : c.shared.state k ≠ some .kDisconnected) :
    held (.removeConnectionInLoop k) c = 0 ∧ c.shared.removed.count k = 0 := by
  have hle := h.removing k
  rw [if_neg hstate] at hle
  omega

theorem fresh (h : Owning c) (hturnover : ∀ stored ∈ c.shared.connections.entries,
    (c.shared.made.length - stored.2) % 2 ^ 32 ≠ 0) :
    connectionName c.shared.nextConnectionId ∉ c.shared.connections := by
  intro hmem
  obtain ⟨k, hlookup⟩ := Option.isSome_iff_exists.mp (AList.lookup_isSome.mpr hmem)
  obtain ⟨hname, -⟩ := h.live _ k hlookup
  have hid := connectionName_inj.mp (h.named k _ hname)
  rw [h.nextConnectionId] at hid
  have hnumbers := congrArg BitVec.toNat (add_left_cancel hid)
  rw [BitVec.toNat_ofNat, BitVec.toNat_ofNat] at hnumbers
  have hentry : ⟨_, k⟩ ∈ c.shared.connections.entries := AList.mem_lookup_iff.mp hlookup
  exact hturnover _ hentry (Nat.sub_mod_eq_zero_of_mod_eq hnumbers)

theorem newConnection (h : Owning c) (htop : c.stack t = .newConnection :: rest)
    (hturnover : ∀ stored ∈ c.shared.connections.entries,
      (c.shared.made.length - stored.2) % 2 ^ 32 ≠ 0) {j : Instr}
    (hj : j = .call (.connectEstablished c.shared.made.length) ∨
      j = .queueInLoop (c.shared.getNextLoop workers)
        (.connectEstablished c.shared.made.length)) :
    Owning (c.replace t (c.shared.newConnection workers) ([j] ++ rest)) := by
  have hfresh := h.fresh hturnover
  have hnone : c.shared.state c.shared.made.length = none := Shared.state_eq_none _ (Nat.le_refl _)
  have hholds (f : Functor) : Config.weigh (Instr.holds f) [j] =
      if .connectEstablished c.shared.made.length = f then 1 else 0 := by
    obtain rfl | rfl := hj <;> simp [Instr.holds]
  have hheld (f : Functor) : held f (c.replace t (c.shared.newConnection workers) ([j] ++ rest)) =
      held f c + if .connectEstablished c.shared.made.length = f then 1 else 0 := by
    have := held_replace_of_eq f htop (c.shared.newConnection workers) [j] rfl
    rw [hholds] at this
    exact this
  have hremoved {k : Nat} (hk : k ∈ c.shared.removed) : k ≠ c.shared.made.length := by
    rintro rfl
    rw [(h.disconnected hk).1] at hnone
    cases hnone
  have hconnections : (c.shared.newConnection workers).connections =
      c.shared.connections.insert (connectionName c.shared.nextConnectionId)
        c.shared.made.length := if_neg hfresh
  refine ⟨?_, fun k name hname => ?_, fun k name hname hk => ?_, fun name k hlookup => ?_,
    fun k => ?_, fun k => ?_, fun k => ?_,
    h.closing_replace htop (fun k state hsome hne => ⟨state, ?_, hne⟩) fun k hmem => ?_⟩
  · change c.shared.nextConnectionId + 1 = 1 + BitVec.ofNat 32 (c.shared.made ++ [_]).length
    rw [h.nextConnectionId, List.length_append, BitVec.ofNat_add, add_assoc]
    rfl
  · rw [Config.shared_replace, Shared.name_newConnection] at hname
    split at hname
    · rename_i hk
      rw [← Option.some.inj hname, hk, h.nextConnectionId]
    · exact h.named k name hname
  · rw [Config.shared_replace, Shared.name_newConnection] at hname
    rw [Config.shared_replace, hconnections]
    split at hname
    · rename_i hk
      rw [← Option.some.inj hname, hk, AList.lookup_insert]
    · have hlookup := h.stored k name hname hk
      rw [AList.lookup_insert_ne, hlookup]
      rintro rfl
      exact hfresh (AList.lookup_isSome.mp (by rw [hlookup]; rfl))
  · rw [Config.shared_replace, hconnections] at hlookup
    rw [Config.shared_replace, Shared.name_newConnection]
    by_cases hname : name = connectionName c.shared.nextConnectionId
    · subst hname
      rw [AList.lookup_insert] at hlookup
      obtain rfl := Option.some.inj hlookup
      exact ⟨if_pos rfl, fun hk => hremoved hk rfl⟩
    · rw [AList.lookup_insert_ne hname] at hlookup
      obtain ⟨hold, hk⟩ := h.live name k hlookup
      have hne : k ≠ c.shared.made.length := by
        rintro rfl
        rw [Shared.name, List.getElem?_eq_none (Nat.le_refl _)] at hold
        cases hold
      exact ⟨(if_neg hne).trans hold, hk⟩
  · rw [hheld, Config.shared_replace, Shared.state_newConnection]
    by_cases hk : k = c.shared.made.length
    · subst hk
      rw [if_pos rfl, if_pos rfl, if_pos rfl, h.not_establishing (by rw [hnone]; nofun)]
    · have hne : Functor.connectEstablished c.shared.made.length ≠ .connectEstablished k := by
        rintro ⟨⟩
        exact hk rfl
      rw [if_neg hne, if_neg hk]
      exact h.establishing k
  · rw [hheld, Config.shared_replace, Shared.state_newConnection, if_neg nofun, Nat.add_zero]
    by_cases hk : k = c.shared.made.length
    · subst hk
      obtain ⟨hzero, hcount⟩ := h.not_removing (k := c.shared.made.length) (by rw [hnone]; nofun)
      change held _ c + c.shared.removed.count _ ≤ _
      rw [hzero, hcount]
      exact Nat.zero_le _
    · rw [if_neg hk]
      exact h.removing k
  · rw [hheld, if_neg nofun, Nat.add_zero]
    exact h.destroying k
  · rw [Shared.state_newConnection, if_neg, hsome]
    rintro rfl
    rw [hnone] at hsome
    cases hsome
  · obtain rfl | rfl := hj <;> cases List.mem_singleton.mp hmem

theorem remove (h : Owning c) {k : Nat}
    (htop : c.stack t = .call (.removeConnectionInLoop k) :: rest) {connection : Connection}
    (hmade : c.shared.made[k]? = some connection) :
    Owning (c.replace t
      { c.shared with
        removed := k :: c.shared.removed
        connections := c.shared.connections.erase connection.name }
      ([Instr.queueInLoop connection.loop (.connectDestroyed k)] ++ rest)) := by
  let s : Shared := { c.shared with
    removed := k :: c.shared.removed
    connections := c.shared.connections.erase connection.name }
  have hheld (f : Functor) := held_replace_of_eq f htop s
    [.queueInLoop connection.loop (.connectDestroyed k)] rfl
  have hactive := holds_le_held (.removeConnectionInLoop k) (Config.active_of_top htop)
  rw [Instr.holds, if_pos rfl] at hactive
  obtain ⟨hstate, hone, hk⟩ := h.closed hactive
  have hname : c.shared.name k = some connection.name := by rw [Shared.name, hmade, Option.map_some]
  have hstored := h.stored k _ hname hk
  refine ⟨h.nextConnectionId, h.named, fun j name hj hmem => ?_, fun name j hlookup => ?_,
    fun j => ?_, fun j => ?_, fun j => ?_,
    h.closing_replace htop (fun j state hsome hne => ⟨state, hsome, hne⟩) fun j hmem => ?_⟩
  · rw [Config.shared_replace, List.mem_cons, not_or] at hmem
    have hlookup := h.stored j name hj hmem.2
    refine (AList.lookup_erase_ne ?_).trans hlookup
    rintro rfl
    rw [hstored] at hlookup
    exact hmem.1 (Option.some.inj hlookup).symm
  · have hne : name ≠ connection.name := by
      rintro rfl
      rw [Config.shared_replace, AList.lookup_erase] at hlookup
      cases hlookup
    have hold := h.live name j ((AList.lookup_erase_ne hne).symm.trans hlookup)
    refine ⟨hold.1, ?_⟩
    rw [Config.shared_replace, List.mem_cons, not_or]
    refine ⟨fun heq => hne ?_, hold.2⟩
    rw [heq, hname] at hold
    exact (Option.some.inj hold.1).symm
  · refine Nat.le_trans ?_ (h.establishing j)
    have hreplace := hheld (.connectEstablished j)
    simp only [Instr.holds, Config.weigh_cons, Config.weigh_nil, reduceCtorEq, if_false] at hreplace
    exact Nat.le_of_eq hreplace
  · refine Nat.le_trans ?_ (h.removing j)
    have hreplace := hheld (.removeConnectionInLoop j)
    simp only [Instr.holds, Config.weigh_cons, Config.weigh_nil, reduceCtorEq, if_false,
      Functor.removeConnectionInLoop.injEq, s] at hreplace
    simp only [Config.shared_replace, List.count_cons, beq_iff_eq]
    omega
  · have hreplace := hheld (.connectDestroyed j)
    simp only [Instr.holds, Config.weigh_cons, Config.weigh_nil, reduceCtorEq, if_false,
      Functor.connectDestroyed.injEq, s] at hreplace
    have := h.destroying j
    simp only [Config.shared_replace, List.count_cons, beq_iff_eq]
    omega
  · cases List.mem_singleton.mp hmem

theorem step (h : Owning c) (hok : Turnover c t i) (hstep : (machine workers).Step c t i c') :
    Owning c' := by
  obtain @⟨rest, x, s, pushed, htop, hexec⟩ := hstep
  have hactive (f : Functor) := holds_le_held f (Config.active_of_top htop)
  have hmoves : Moves workers t c.shared i s pushed := moves_of_exec hexec
  cases hmoves with
  | newConnection hj => exact h.newConnection htop (hok rfl) hj
  | remove made found => exact h.remove htop made
  | accept | message | returned | ran | closed =>
    exact h.keep htop (fun f hf => by simp [Instr.holds]) nofun
  | event k made established =>
    refine h.keep htop (fun f hf => by simp [Instr.holds]) fun j hj => ?_
    simp only [List.mem_cons, Instr.handleClose.injEq, reduceCtorEq, List.not_mem_nil,
      or_false] at hj
    subst hj
    exact ⟨_, congrArg (Option.map Connection.state) made, established⟩
  | functors =>
    refine h.keep htop (fun f hf => ?_) nofun
    have := count_filter_add c.shared.functors t f
    simp only [Instr.holds, Config.weigh_cons, Config.weigh_nil]
    omega
  | request hi hf hj =>
    refine h.keep htop (fun g hg => ?_) fun k hmem => ?_
    · obtain rfl | rfl := hf <;> obtain rfl | rfl := hj <;> obtain rfl | rfl := hi <;>
        cases g <;> first | exact hg.elim | simp [Instr.holds]
    · obtain rfl | rfl := hj <;> obtain rfl | rfl := hi <;> simp at hmem
  | established k =>
    have hheld := hactive (.connectEstablished k)
    rw [Instr.holds, if_pos rfl] at hheld
    obtain ⟨hconnecting, hone⟩ := h.connecting hheld
    obtain ⟨hremoving, hcount⟩ := h.not_removing (by rw [hconnecting]; nofun)
    refine h.setState htop hconnecting nofun (fun f hf hne => by simp [Instr.holds]) ?_ ?_ (by simp)
    · rw [hone, Instr.holds, if_pos rfl]
      rfl
    · rw [hremoving, hcount]
      exact Nat.zero_le _
  | @shutdown k connected =>
    obtain ⟨hremoving, hcount⟩ := h.not_removing (by rw [connected]; nofun)
    refine h.setState htop connected nofun (fun f hf hne => Nat.zero_le _) ?_ ?_ nofun
    · rw [h.not_establishing (by rw [connected]; nofun), Instr.holds, if_neg nofun]
      rfl
    · rw [hremoving, hcount]
      exact Nat.zero_le _
  | skipShutdown k => exact h.keep htop (fun f hf => by simp [Instr.holds]) nofun
  | @forceClose k live =>
    refine h.keep htop (fun f hf => by simp [Instr.holds]) fun j hj => ?_
    obtain rfl := Instr.handleClose.inj (List.mem_singleton.mp hj)
    obtain hstate | hstate := live
    · exact ⟨_, hstate, nofun⟩
    · exact ⟨_, hstate, nofun⟩
  | skipForceClose k => exact h.keep htop (fun f hf => by simp [Instr.holds]) nofun
  | @removeNothing k missing =>
    have hheld := hactive (.removeConnectionInLoop k)
    rw [Instr.holds, if_pos rfl] at hheld
    obtain ⟨hstate, -, hk⟩ := h.closed hheld
    obtain ⟨connection, hmade, -⟩ := Option.map_eq_some_iff.mp hstate
    have hname : c.shared.name k = some connection.name := by
      rw [Shared.name, hmade, Option.map_some]
    have hstored := h.stored k _ hname hk
    exact absurd (AList.lookup_isSome.mp (by rw [hstored]; rfl)) (missing connection hmade)
  | destroyed k =>
    have hheld := hactive (.connectDestroyed k)
    rw [Instr.holds, if_pos rfl] at hheld
    obtain ⟨hstate, hremoving⟩ := h.disconnected <|
      List.count_pos_iff.mp (Nat.lt_of_lt_of_le hheld (h.destroying k))
    refine h.setState htop hstate nofun (fun f hf hne => by simp [Instr.holds]) ?_ ?_ (by simp)
    · rw [h.not_establishing (by rw [hstate]; nofun), Instr.holds, if_neg nofun]
      rfl
    · have := h.removing k
      rw [if_pos hstate] at this
      rw [if_pos rfl]
      exact Nat.le_trans this (Nat.le_add_right _ _)
  | queueInLoop target f =>
    refine h.keep htop (fun g hg => ?_) nofun
    simp [Instr.holds, List.count_cons, Nat.add_comm]
  | run f functors =>
    refine h.keep htop (fun g hg => ?_) nofun
    simp [Instr.holds, List.count_cons, Nat.add_comm]
  | close k live =>
    obtain ⟨before, hstate, hconnecting⟩ := h.closing t k (Config.active_of_top htop)
    obtain ⟨hremoving, hcount⟩ := h.not_removing live
    refine h.setState htop hstate nofun (fun f hf hne => ?_) ?_ ?_ (by simp)
    · simp [Instr.holds, hne]
    · rw [h.not_establishing (by rw [hstate]; exact mt Option.some.inj hconnecting)]
      rfl
    · rw [hremoving, hcount, if_pos rfl]
      simp [Instr.holds]
  | closeCallback k =>
    refine h.keep htop (fun g hg => ?_) nofun
    simp [Instr.holds, eq_comm]

end Owning

theorem removed_of_step {workers t k : Nat} {c c' : Config}
    (hstep : (machine workers).Step c t (.call (.removeConnectionInLoop k)) c') :
    k ∈ c'.shared.removed := by
  obtain @⟨rest, x, s, pushed, htop, hexec⟩ := hstep
  have hmoves : Moves workers t c.shared (.call (.removeConnectionInLoop k)) s pushed :=
    moves_of_exec hexec
  rw [Config.shared_replace]
  cases hmoves with
  | request hi => obtain hi | hi := hi <;> cases hi
  | remove | removeNothing => exact List.mem_cons_self

/-- A new connection is stored under a name of its own, and stays there until
`removeConnectionInLoop` removes it. -/
structure Owned (workers : Nat) (c : Config) : Prop where
  fresh : Turnover c 0 .newConnection →
    connectionName c.shared.nextConnectionId ∉ c.shared.connections
  stored : ∀ k connection, c.shared.made[k]? = some connection → k ∉ c.shared.removed →
    c.shared.connections.lookup connection.name = some k
  live : ∀ name k, c.shared.connections.lookup name = some k →
    k ∉ c.shared.removed ∧
      ∃ connection, c.shared.made[k]? = some connection ∧ connection.name = name
  closed : ∀ t k, c.Active t (.call (.removeConnectionInLoop k)) →
    k ∉ c.shared.removed ∧ ∃ connection, c.shared.made[k]? = some connection ∧
      connection.state = .kDisconnected ∧ c.shared.connections.lookup connection.name = some k
  removes : ∀ t k c', (machine workers).Step c t (.call (.removeConnectionInLoop k)) c' →
    k ∈ c'.shared.removed ∧ ∀ name, c'.shared.connections.lookup name ≠ some k

theorem owned_until_removed {workers users : Nat} {c : Config}
    (hrun : (machine workers).Run Turnover (init workers users) c) : Owned workers c := by
  have h : Owning c := hrun.invariant (.init workers users) fun hc hok hstep => hc.step hok hstep
  have hstored (k : Nat) (connection : Connection) (hmade : c.shared.made[k]? = some connection)
      (hk : k ∉ c.shared.removed) : c.shared.connections.lookup connection.name = some k := by
    refine h.stored k _ ?_ hk
    rw [Shared.name, hmade, Option.map_some]
  refine ⟨fun hturnover => h.fresh (hturnover rfl), hstored, fun name k hlookup => ?_,
    fun t k hactive => ?_, fun t k c' hstep => ?_⟩
  · obtain ⟨hname, hk⟩ := h.live name k hlookup
    exact ⟨hk, Option.map_eq_some_iff.mp hname⟩
  · have hheld := holds_le_held (.removeConnectionInLoop k) hactive
    rw [Instr.holds, if_pos rfl] at hheld
    obtain ⟨hstate, -, hk⟩ := h.closed hheld
    obtain ⟨connection, hmade, hdisconnected⟩ := Option.map_eq_some_iff.mp hstate
    exact ⟨hk, connection, hmade, hdisconnected, hstored k connection hmade hk⟩
  · have hafter : Owning c' := h.step (fun heq => by cases heq) hstep
    have hk := removed_of_step hstep
    exact ⟨hk, fun name hlookup => (hafter.live name k hlookup).2 hk⟩

def closing : List (Nat × Choice) :=
  [(0, .accept), (0, .next), (0, .next), (1, .functors), (1, .next), (1, .next), (1, .next),
    (1, .next), (1, .event 0), (1, .next), (1, .next), (1, .next), (0, .functors), (0, .next)]

theorem owned_until_removed_closing : Owned 1 ((machine 1).follow (init 1 0) closing) :=
  owned_until_removed (Machine.run_follow (by decide))

example : ((machine 1).follow (init 1 0) closing).Active 0 (.call (.removeConnectionInLoop 0)) := by
  decide

/-! ### Names that come again -/

def serverAt (s : Shared) (stack : List Instr) : Config := ⟨s, [stack, [.loop]]⟩

theorem serverAt_step {s s' : Shared} {i : Instr} {rest pushed : List Instr} {x : Choice}
    (h : i.exec 1 0 x s = some (s', pushed)) :
    (machine 1).Reaches (serverAt s (i :: rest)) (serverAt s' (pushed ++ rest)) := by
  have hstep : (machine 1).Step (serverAt s (i :: rest)) 0 i
      ((serverAt s (i :: rest)).replace 0 s' (pushed ++ rest)) := .exec rfl h
  exact .step .start trivial hstep

def accepted (s : Shared) : Shared :=
  { s.newConnection 1 with functors := s.functors ++ [(1, .connectEstablished s.made.length)] }

theorem reaches_accepted {s : Shared} (hnext : s.next = 0) :
    (machine 1).Reaches (serverAt s [.loop]) (serverAt (accepted s) [.loop]) := by
  have haccept : Instr.loop.exec 1 0 .accept s = some (s, [.newConnection, .loop]) := rfl
  have hmade : Instr.newConnection.exec 1 0 .next s =
      some (s.newConnection 1, [.queueInLoop 1 (.connectEstablished s.made.length)]) := by
    rw [Instr.exec, Shared.getNextLoop, if_neg (by rintro ⟨⟩), hnext]
    rfl
  have hqueued : (Instr.queueInLoop 1 (.connectEstablished s.made.length)).exec 1 0 .next
      (s.newConnection 1) = some (accepted s, []) := rfl
  exact (serverAt_step haccept).trans ((serverAt_step hmade).trans (serverAt_step hqueued))

theorem reaches_crowded (n : Nat) : ∃ s, (machine 1).Reaches (init 1 0) (serverAt s [.loop]) ∧ s.next = 0 ∧
    s.made.length = n + 1 ∧ s.nextConnectionId = 1 + BitVec.ofNat 32 (n + 1) ∧ s.removed = [] ∧
    s.connections.lookup (connectionName 1) = some 0 := by
  induction n with
  | zero =>
    refine ⟨accepted {}, reaches_accepted rfl, rfl, rfl, rfl, rfl, ?_⟩
    exact AList.lookup_insert _
  | succ n ih =>
    obtain ⟨s, hrun, hnext, hlength, hid, hremoved, hfirst⟩ := ih
    refine ⟨accepted s, hrun.trans (reaches_accepted hnext), Nat.mod_one _, ?_, ?_, hremoved, ?_⟩
    · change (s.made ++ [_]).length = _
      rw [List.length_append, hlength]
      rfl
    · change s.nextConnectionId + 1 = _
      rw [hid, BitVec.ofNat_add (n + 1) 1, add_assoc]
      rfl
    · change (s.emplace _ _).lookup _ = _
      rw [Shared.emplace]
      split
      · exact hfirst
      · rename_i hmissing
        rw [AList.lookup_insert_ne, hfirst]
        intro heq
        rw [← heq] at hmissing
        exact hmissing (AList.lookup_isSome.mp (by rw [hfirst]; rfl))

theorem not_stored : ∃ c, (machine 1).Reaches (init 1 0) c ∧ ∃ k connection,
    c.shared.made[k]? = some connection ∧ k ∉ c.shared.removed ∧
      c.shared.connections.lookup connection.name ≠ some k := by
  obtain ⟨s, hrun, hnext, hlength, hid, hremoved, hfirst⟩ := reaches_crowded (2 ^ 32 - 1)
  have hname : s.nextConnectionId = 1 := by
    rw [hid]
    decide
  have hmem : connectionName s.nextConnectionId ∈ s.connections := by
    rw [hname]
    exact AList.lookup_isSome.mp (by rw [hfirst]; rfl)
  refine ⟨_, hrun.trans (reaches_accepted hnext), s.made.length,
    ⟨connectionName s.nextConnectionId, s.getNextLoop 1, .kConnecting⟩, ?_, ?_, ?_⟩
  · change (s.made ++ [_])[_]? = _
    exact List.getElem?_concat_length
  · change s.made.length ∉ s.removed
    rw [hremoved]
    exact List.not_mem_nil
  · change (s.emplace _ _).lookup _ ≠ _
    rw [Shared.emplace, if_pos hmem, hname, hfirst, hlength]
    decide

end UnixNotes.Reactor.TcpServer
