import UnixNotes.Reactor.ClientPlaces

namespace UnixNotes.Reactor.TcpClient

open Library

/-- The connection `k` is closed before another attempt to connect starts; `connected` says whether
the connector still refuses to start one, `closing` whether a thread is about to close `k`. -/
def Guarded (closing : Prop) (k : Nat) : Bool → List Functor → Prop
  | true, [] => True
  | false, [] => closing
  | true, .startInLoop :: functors => Guarded closing k true functors
  | false, .startInLoop :: _ => False
  | _, .stopInLoop _ :: functors => Guarded closing k false functors
  | connected, .forceCloseInLoop k' :: functors => k' = k ∨ Guarded closing k connected functors

namespace Guarded

variable {closing closing' : Prop} {k : Nat} {connected : Bool} {functors : List Functor}

theorem append {added : List Functor} (h : Guarded closing k connected functors)
    (hadded : ∀ connected, Guarded closing k connected [] → Guarded closing' k connected added) :
    Guarded closing' k connected (functors ++ added) := by
  induction functors generalizing connected with
  | nil => exact hadded connected h
  | cons f functors ih =>
    cases f with
    | startInLoop =>
      cases connected with
      | false => exact h
      | true => exact ih h
    | stopInLoop id => cases connected <;> exact ih h
    | forceCloseInLoop k' => cases connected <;> exact Or.imp_right ih h

theorem mono (h : Guarded closing k connected functors) (hclosing : closing → closing') :
    Guarded closing' k connected functors := by
  rw [← List.append_nil functors]
  refine h.append fun connected h => ?_
  cases connected with
  | false => exact hclosing h
  | true => trivial

theorem append_start (h : Guarded closing k connected functors) (hclosing : ¬closing) :
    Guarded closing' k connected (functors ++ [Functor.startInLoop]) := by
  refine h.append fun connected h => ?_
  cases connected with
  | false => exact hclosing h
  | true => trivial

theorem append_stop (h : Guarded closing k connected functors) (hclosing : closing') (id : Nat) :
    Guarded closing' k connected (functors ++ [Functor.stopInLoop id]) :=
  h.append fun connected _ => by cases connected <;> exact hclosing

theorem append_close {k' : Nat} (h : Guarded closing k connected functors)
    (hclosing : closing → k' = k ∨ closing') :
    Guarded closing' k connected (functors ++ [Functor.forceCloseInLoop k']) := by
  refine h.append fun connected h => ?_
  cases connected with
  | false => exact hclosing h
  | true => exact Or.inr trivial

theorem of_stop {id : Nat} (h : Guarded closing k connected (.stopInLoop id :: functors)) :
    Guarded closing k false functors := by
  cases connected <;> exact h

theorem of_close {k' : Nat} (h : Guarded closing k connected (.forceCloseInLoop k' :: functors)) :
    k' = k ∨ Guarded closing k connected functors := by
  cases connected <;> exact h

theorem of_not_mem (h : .startInLoop ∉ functors) (hclosing : closing) :
    Guarded closing k connected functors := by
  induction functors generalizing connected with
  | nil =>
    cases connected with
    | false => exact hclosing
    | true => trivial
  | cons f functors ih =>
    have hrest := List.not_mem_of_not_mem_cons h
    cases f with
    | startInLoop => exact absurd (List.mem_cons_self ..) h
    | stopInLoop id => cases connected <;> exact ih hrest
    | forceCloseInLoop k' => cases connected <;> exact Or.inr (ih hrest)

end Guarded

/-- No `startInLoop` is queued behind a `stopInLoop` that satisfies `P`. -/
def Unstarted (P : Nat → Prop) : List Functor → Prop
  | [] => True
  | .stopInLoop id :: functors => (P id → .startInLoop ∉ functors) ∧ Unstarted P functors
  | _ :: functors => Unstarted P functors

namespace Unstarted

variable {P Q : Nat → Prop} {functors : List Functor}

theorem mono (h : Unstarted P functors) (hQ : ∀ id, .stopInLoop id ∈ functors → Q id → P id) :
    Unstarted Q functors := by
  induction functors with
  | nil => trivial
  | cons f functors ih =>
    cases f with
    | stopInLoop id =>
      exact ⟨fun hid => h.1 (hQ id (List.mem_cons_self ..) hid),
        ih h.2 fun id hmem => hQ id (List.mem_cons_of_mem _ hmem)⟩
    | _ => exact ih h fun id hmem => hQ id (List.mem_cons_of_mem _ hmem)

theorem append {f : Functor} (h : Unstarted P functors) (hf : f = .startInLoop → ∀ id, ¬P id) :
    Unstarted P (functors ++ [f]) := by
  induction functors with
  | nil => cases f <;> first | trivial | exact ⟨fun _ => List.not_mem_nil, trivial⟩
  | cons g functors ih =>
    cases g with
    | stopInLoop id =>
      refine ⟨fun hid hmem => ?_, ih h.2⟩
      obtain hmem | hmem := List.mem_append.mp hmem
      · exact h.1 hid hmem
      · exact hf (List.mem_singleton.mp hmem).symm id hid
    | _ => exact ih h

theorem tail {f : Functor} (h : Unstarted P (f :: functors)) : Unstarted P functors := by
  cases f with
  | stopInLoop id => exact h.2
  | _ => exact h

theorem guarded {closing : Prop} {k : Nat} (h : Unstarted P functors)
    (hP : ∀ id, .stopInLoop id ∈ functors → P id ∧ closing) :
    Guarded closing k true functors := by
  induction functors with
  | nil => trivial
  | cons f functors ih =>
    have hrest := fun id hmem => hP id (List.mem_cons_of_mem f hmem)
    cases f with
    | startInLoop => exact ih h hrest
    | stopInLoop id =>
      obtain ⟨hid, hclosing⟩ := hP id (List.mem_cons_self ..)
      have hstopped : Guarded closing k false functors := .of_not_mem (h.1 hid) hclosing
      exact hstopped
    | forceCloseInLoop k' => exact Or.inr (ih h hrest)

end Unstarted

def Closing (c : Config) (k : Nat) : Prop := ∃ t i, c.Active t i ∧ i.closes k

theorem established_of_append {s : Shared} {k : Nat}
    (h : ({ s with connections := s.connections ++ [.kConnecting] } : Shared).established k) :
    s.established k := by
  rw [Shared.established, List.getElem?_append] at h
  split at h
  · exact h
  · rw [List.getElem?_singleton] at h
    split at h <;> cases h

structure Held (c : Config) : Prop where
  busy : ∀ t i, c.Active t i → i.busy → ∀ k, ¬c.shared.established k
  delivers : ∀ i rest, c.stack 0 = i :: rest → i.delivers → c.shared.connector.state = .kConnected
  publishing : ∀ t k, c.Active t (.publish k) → k < c.shared.connections.length
  held : ∀ k, c.shared.established k →
    c.shared.connection = some k ∧ c.shared.connector.state ≠ .kConnecting ∧
      Guarded (Closing c k) k (c.shared.connector.state = .kConnected) c.shared.functors
  unstarted : Unstarted (fun id => ∃ t, c.Active t (.snapshot id)) c.shared.functors

namespace Held

variable {c c' : Config} {t : Nat} {i : Instr} {rest pushed : List Instr} {s : Shared}

theorem closing_replace (htop : c.stack t = i :: rest) {k : Nat} (h : Closing c k)
    (hi : i.closes k → Closing (c.replace t s (pushed ++ rest)) k) :
    Closing (c.replace t s (pushed ++ rest)) k := by
  obtain ⟨t', j, hactive, hcloses⟩ := h
  obtain ⟨-, rfl⟩ | hnew := Config.active_replace htop s pushed hactive
  · exact hi hcloses
  · exact ⟨t', j, hnew, hcloses⟩

theorem unstarted_replace (htop : c.stack t = i :: rest) {functors : List Functor}
    (h : Unstarted (fun id => ∃ t', c.Active t' (.snapshot id)) functors)
    (hsnapshot : ∀ id, .snapshot id ∉ pushed) :
    Unstarted (fun id => ∃ t', (c.replace t s (pushed ++ rest)).Active t' (.snapshot id))
      functors := by
  refine h.mono fun id _ ⟨t', hactive⟩ => ?_
  obtain ⟨-, hmem⟩ | hold := Config.active_of_replace htop hactive
  · exact absurd hmem (hsnapshot id)
  · exact ⟨t', hold⟩

theorem replace (h : Held c) (hplaced : Placed c) (htop : c.stack t = i :: rest)
    (hestablished : ∀ k, s.established k → c.shared.established k)
    (hbusy : ∀ j ∈ pushed, j.busy → ∀ k, ¬s.established k)
    (hstate : t ≠ 0 → s.connector.state = c.shared.connector.state)
    (hdelivers : ∀ j ∈ pushed, j.delivers → s.connector.state = .kConnected)
    (hpublishing : ∀ k, .publish k ∈ pushed → k < s.connections.length)
    (hlength : c.shared.connections.length ≤ s.connections.length)
    (hheld : ∀ k, s.established k → c.shared.connection = some k →
      c.shared.connector.state ≠ .kConnecting →
      Guarded (Closing c k) k (c.shared.connector.state = .kConnected) c.shared.functors →
      s.connection = some k ∧ s.connector.state ≠ .kConnecting ∧
        Guarded (Closing (c.replace t s (pushed ++ rest)) k) k (s.connector.state = .kConnected)
          s.functors)
    (hunstarted : Unstarted
      (fun id => ∃ t', (c.replace t s (pushed ++ rest)).Active t' (.snapshot id)) s.functors) :
    Held (c.replace t s (pushed ++ rest)) := by
  refine ⟨fun t' j hj hbusy' k hk => ?_, fun j rest' htop' hdelivers' => ?_, fun t' k hj => ?_,
    fun k hk => ?_, hunstarted⟩
  · obtain ⟨-, hmem⟩ | hold := Config.active_of_replace htop hj
    · exact hbusy j hmem hbusy' k hk
    · exact h.busy t' j hold hbusy' k (hestablished k hk)
  · rw [Config.shared_replace]
    by_cases ht : t = 0
    · subst ht
      rw [Config.stack_replace_self htop] at htop'
      cases pushed with
      | nil =>
        refine absurd hdelivers'.attempts (hplaced.top 0 j ?_)
        rw [htop, List.tail_cons, show rest = j :: rest' from htop']
        exact List.mem_cons_self ..
      | cons k pushed =>
        rw [List.cons_append, List.cons.injEq] at htop'
        exact hdelivers j (by rw [← htop'.1]; exact List.mem_cons_self ..) hdelivers'
    · rw [Config.stack_replace_ne _ _ _ (Ne.symm ht)] at htop'
      rw [hstate ht]
      exact h.delivers j rest' htop' hdelivers'
  · obtain ⟨-, hmem⟩ | hold := Config.active_of_replace htop hj
    · exact hpublishing k hmem
    · exact Nat.lt_of_lt_of_le (h.publishing t' k hold) hlength
  · obtain ⟨hconnection, hstate, hguarded⟩ := h.held k (hestablished k hk)
    exact hheld k hk hconnection hstate hguarded

theorem keep (h : Held c) (hplaced : Placed c) (htop : c.stack t = i :: rest)
    (hconnections : s.connections = c.shared.connections)
    (hconnection : s.connection = c.shared.connection)
    (hstate : s.connector.state = c.shared.connector.state)
    (hfunctors : s.functors = c.shared.functors) (hi : ∀ k, ¬i.closes k)
    (hpushed : ∀ j ∈ pushed, ¬j.busy ∧ ∀ id, j ≠ .snapshot id) :
    Held (c.replace t s (pushed ++ rest)) := by
  have hsame : ∀ k, s.established k → c.shared.established k := fun k hk => by
    rw [Shared.established, hconnections] at hk
    exact hk
  refine h.replace hplaced htop hsame (fun j hj hbusy => absurd hbusy (hpushed j hj).1)
    (fun _ => hstate) (fun j hj hdelivers => absurd hdelivers.busy (hpushed j hj).1)
    (fun k hk => absurd trivial (hpushed _ hk).1) (by rw [hconnections]) ?_ ?_
  · intro k hk hcurrent hconnecting hguarded
    rw [hconnection, hstate, hfunctors]
    exact ⟨hcurrent, hconnecting, hguarded.mono fun hclosing =>
      closing_replace htop hclosing fun hcloses => absurd hcloses (hi k)⟩
  · rw [hfunctors]
    exact unstarted_replace htop h.unstarted fun id hmem => (hpushed _ hmem).2 id rfl

theorem vacant (h : Held c) (hplaced : Placed c) (htop : c.stack t = i :: rest)
    (hvacant : ∀ k, ¬s.established k)
    (hstate : t ≠ 0 → s.connector.state = c.shared.connector.state)
    (hdelivers : ∀ j ∈ pushed, j.delivers → s.connector.state = .kConnected)
    (hpublishing : ∀ k, .publish k ∈ pushed → k < s.connections.length)
    (hlength : c.shared.connections.length ≤ s.connections.length)
    (hunstarted : Unstarted
      (fun id => ∃ t', (c.replace t s (pushed ++ rest)).Active t' (.snapshot id)) s.functors) :
    Held (c.replace t s (pushed ++ rest)) :=
  h.replace hplaced htop (fun k hk => absurd hk (hvacant k)) (fun _ _ _ => hvacant) hstate hdelivers
    hpublishing hlength (fun k hk => absurd hk (hvacant k)) hunstarted

theorem connector_step {i : Connector.Instr} {connector : Connector.Shared} (h : Held c)
    (hplaced : Placed c) (htop : c.stack t = .connector i :: rest)
    (hdoes : Does c.shared.connector i connector pushed) :
    Held (c.replace t { c.shared with connector := connector } (pushed ++ rest)) := by
  have hactive := Config.active_of_top htop
  obtain rfl := hplaced.inLoop t _ hactive trivial
  have hunstarted (hsnapshot : ∀ id, .snapshot id ∉ pushed) := unstarted_replace
    (s := { c.shared with connector := connector }) htop h.unstarted hsnapshot
  have hplain {pushed : List Instr} (hpushed : ∀ j ∈ pushed, j.plain) :
      (∀ j ∈ pushed, ¬j.delivers) ∧ (∀ k, .publish k ∉ pushed) ∧ ∀ id, .snapshot id ∉ pushed :=
    ⟨fun j hj hdelivers => (hpushed j hj).facts.2.2 hdelivers.attempts, fun k => hpushed _,
      fun id => hpushed _⟩
  cases hdoes with
  | attempt attempts next early delivers =>
    refine h.vacant hplaced htop (h.busy 0 _ hactive (.inl attempts)) (fun ht => absurd rfl ht)
      (fun j hj hdelivers => ?_) (fun k hk => absurd (List.mem_singleton.mp hk).symm (early k))
      (Nat.le_refl _) (hunstarted fun id hid => ?_)
    · obtain rfl := List.mem_singleton.mp hj
      obtain hstate | ⟨hi, hstate⟩ := delivers hdelivers
      · exact hstate
      · exact hstate.trans (h.delivers _ rest htop hi)
    · rw [← List.mem_singleton.mp hid] at next
      exact next
  | ended attempts _ ends =>
    obtain ⟨hdelivers, hpublish, hsnapshot⟩ := hplain fun j hj => (ends j hj).plain
    exact h.vacant hplaced htop (h.busy 0 _ hactive (.inl attempts)) (fun ht => absurd rfl ht)
      (fun j hj hd => absurd hd (hdelivers j hj)) (fun k hk => absurd hk (hpublish k))
      (Nat.le_refl _) (hunstarted hsnapshot)
  | stop stops _ _ plain =>
    obtain ⟨hdelivers, hpublish, hsnapshot⟩ := hplain plain
    exact h.vacant hplaced htop (h.busy 0 _ hactive (.inr stops)) (fun ht => absurd rfl ht)
      (fun j hj hd => absurd hd (hdelivers j hj)) (fun k hk => absurd hk (hpublish k))
      (Nat.le_refl _) (hunstarted hsnapshot)
  | found event connecting =>
    refine h.vacant hplaced htop (fun k hk => (h.held k hk).2.1 connecting)
      (fun ht => absurd rfl ht) (by simp [Instr.delivers, Connector.Instr.delivers]) (by simp)
      (Nat.le_refl _) (hunstarted (by simp))
  | rest idle _ state ends =>
    obtain ⟨hdelivers, hpublish, hsnapshot⟩ := hplain fun j hj => (ends j hj).plain
    obtain hstate | ⟨hconnecting, -⟩ := state
    · refine h.keep hplaced htop rfl rfl hstate rfl (fun _ => id) fun j hj => ?_
      have := ends j hj
      cases j with
      | connector j => exact ⟨this.not_busy, nofun⟩
      | _ => exact this.elim
    · exact h.vacant hplaced htop (fun k hk => (h.held k hk).2.1 hconnecting)
        (fun ht => absurd rfl ht) (fun j hj hd => absurd hd (hdelivers j hj))
        (fun k hk => absurd hk (hpublish k)) (Nat.le_refl _) (hunstarted hsnapshot)

theorem established_of_close {s : Shared} {k k' : Nat} (h : (s.close k).established k') :
    s.established k' ∧ k' ≠ k := by
  rw [Shared.established, Shared.close, List.getElem?_set] at h
  split at h
  · split at h <;> cases h
  · exact ⟨h, Ne.symm ‹_›⟩

theorem vacant_of_close (h : Held c) {k : Nat} (hk : c.shared.established k) (k' : Nat) :
    ¬(c.shared.close k).established k' := by
  intro hk'
  obtain ⟨hbefore, hne⟩ := established_of_close hk'
  have hcurrent := (h.held k hk).1
  rw [(h.held k' hbefore).1] at hcurrent
  exact hne (Option.some.inj hcurrent)

/-- The new connection is the only one, and every `stop` that is queued will see it. -/
theorem publish (h : Held c) (hplaced : Placed c) {k : Nat} (hok : StopsApart c t (.publish k))
    (htop : c.stack t = .publish k :: rest) :
    Held (c.replace t
      { c.shared with connection := k, connections := c.shared.connections.set k .kConnected }
      ([] ++ rest)) := by
  have hactive := Config.active_of_top htop
  obtain rfl := hplaced.inLoop t _ hactive trivial
  have hvacant := h.busy 0 _ hactive trivial
  have hrest := List.all_eq_true.mp ((hplaced.covering.of_top htop).1 rfl)
  have hafter : ∀ {t' j}, j.inLoop → (c.replace 0
      { c.shared with connection := k, connections := c.shared.connections.set k .kConnected }
      ([] ++ rest)).Active t' j → j = .loop := by
    intro t' j hj hactive'
    have ht : t' = 0 := by
      obtain ⟨ht, -⟩ | hold := Config.active_of_replace htop hactive'
      · exact ht
      · exact hplaced.inLoop t' j hold hj
    rw [ht, Config.Active, Config.stack_replace_self htop] at hactive'
    have := hrest j hactive'
    cases j <;> trivial
  refine ⟨fun t' j hj hbusy => ?_, fun j rest' htop' hdelivers => ?_, fun t' k' hj => ?_,
    fun k' hk' => ?_, unstarted_replace htop h.unstarted (by rintro _ ⟨⟩)⟩
  · rw [hafter hbusy.inLoop hj] at hbusy
    exact hbusy.elim
  · rw [hafter hdelivers.busy.inLoop (Config.active_of_top htop')] at hdelivers
    exact hdelivers.elim
  · cases hafter (j := .publish k') trivial hj
  · have hk : k' = k := by
      by_contra hne
      rw [Config.shared_replace, Shared.established, List.getElem?_set_ne (Ne.symm hne)] at hk'
      exact hvacant k' hk'
    have hstate := h.delivers _ rest htop trivial
    refine ⟨by rw [hk]; rfl, by rw [Config.shared_replace, hstate]; rintro ⟨⟩, ?_⟩
    rw [Config.shared_replace, hstate]
    refine h.unstarted.guarded fun id hid => ?_
    obtain ⟨t', hsnapshot⟩ := hok id (List.mem_filterMap.mpr ⟨_, hid, rfl⟩)
    exact ⟨⟨t', hsnapshot⟩, t', .snapshot id,
      Config.active_replace_of_ne htop _ [] hsnapshot (by rintro ⟨⟩), trivial⟩

theorem queue_start (h : Held c) (hplaced : Placed c) (hok : StopsApart c t .queueStart)
    (htop : c.stack t = .queueStart :: rest) :
    Held (c.replace t { c.shared with functors := c.shared.functors ++ [.startInLoop] }
      ([] ++ rest)) := by
  refine h.replace hplaced htop (fun _ => id) (by rintro _ ⟨⟩) (fun _ => rfl) (by rintro _ ⟨⟩)
    (by rintro _ ⟨⟩) (Nat.le_refl _)
    (fun k _ hcurrent hstate hguarded => ⟨hcurrent, hstate, hguarded.append_start ?_⟩)
    (unstarted_replace htop (h.unstarted.append fun _ id hid => ?_) (by rintro _ ⟨⟩))
  · rintro ⟨t', j, hj, hcloses⟩
    refine hok ⟨t', j, hj, ?_⟩
    cases j <;> trivial
  · obtain ⟨t', hj⟩ := hid
    exact hok ⟨t', _, hj, trivial⟩

theorem queue_stop (h : Held c) (hplaced : Placed c) {n : Nat}
    (htop : c.stack t = .queueStop n :: rest) :
    Held (c.replace t { c.shared with functors := c.shared.functors ++ [.stopInLoop n] }
      ([.snapshot n] ++ rest)) := by
  have hactive := Config.active_of_top htop
  have hsnapshot : (c.replace t { c.shared with
      functors := c.shared.functors ++ [.stopInLoop n] } ([.snapshot n] ++ rest)).Active t
        (.snapshot n) :=
    Config.active_replace_of_pushed htop _ (List.mem_singleton_self _)
  refine h.replace hplaced htop (fun _ => id) (by simp [Instr.busy]) (fun _ => rfl)
    (by simp [Instr.delivers]) (by simp) (Nat.le_refl _)
    (fun k _ hcurrent hstate hguarded =>
      ⟨hcurrent, hstate, hguarded.append_stop ⟨t, _, hsnapshot, trivial⟩ n⟩)
    (.append (h.unstarted.mono fun n' hmem hn' => ?_) (by rintro ⟨⟩))
  obtain ⟨t', hj⟩ := hn'
  obtain ⟨-, heq⟩ | hold := Config.active_of_replace htop hj
  · cases List.mem_singleton.mp heq
    exact absurd hmem (hplaced.not_mem_functors hactive (if_pos rfl))
  · exact ⟨t', hold⟩

theorem snapshot_some (h : Held c) (hplaced : Placed c) {n k : Nat}
    (htop : c.stack t = .snapshot n :: rest) (some : c.shared.connection = some k) :
    Held (c.replace t c.shared ([.forceClose n k] ++ rest)) := by
  refine h.replace hplaced htop (fun _ => id) (by simp [Instr.busy]) (fun _ => rfl)
    (by simp [Instr.delivers]) (by simp) (Nat.le_refl _)
    (fun k' _ hcurrent hstate hguarded => ⟨hcurrent, hstate, hguarded.mono fun _ => ?_⟩)
    (unstarted_replace htop h.unstarted (by simp))
  rw [some] at hcurrent
  exact ⟨t, _, Config.active_replace_of_pushed htop _ (List.mem_singleton_self _),
    Option.some.inj hcurrent⟩

theorem force_close (h : Held c) (hplaced : Placed c) {n k : Nat}
    (htop : c.stack t = .forceClose n k :: rest) :
    Held (c.replace t { c.shared with
      functors := c.shared.functors ++ [.forceCloseInLoop k]
      returned := n :: c.shared.returned } ([] ++ rest)) := by
  exact h.replace hplaced htop (fun _ => id) (by rintro _ ⟨⟩) (fun _ => rfl) (by rintro _ ⟨⟩)
    (by rintro _ ⟨⟩) (Nat.le_refl _)
    (fun k' _ hcurrent hstate hguarded => ⟨hcurrent, hstate, hguarded.append_close fun hclosing =>
      or_iff_not_imp_left.mpr fun hne =>
        closing_replace htop hclosing fun hcloses => absurd hcloses hne⟩)
    (unstarted_replace htop (h.unstarted.append (by rintro ⟨⟩)) (by rintro _ ⟨⟩))

theorem start_in_loop (h : Held c) (hplaced : Placed c) (htop : c.stack t = .loop :: rest)
    {functors : List Functor} (queue : c.shared.functors = .startInLoop :: functors)
    (disconnected : c.shared.connector.state = .kDisconnected) :
    Held (c.replace t { c.shared with functors := functors }
      ([.connector .createSocket, .loop] ++ rest)) := by
  have hunstarted := h.unstarted
  rw [queue] at hunstarted
  refine h.vacant hplaced htop (fun k hk => ?_) (fun _ => rfl)
    (by simp [Instr.delivers, Connector.Instr.delivers]) (by simp) (Nat.le_refl _)
    (unstarted_replace htop hunstarted.tail (by simp))
  have hguarded := (h.held k hk).2.2
  rw [queue, disconnected] at hguarded
  exact hguarded

theorem skip_start (h : Held c) (hplaced : Placed c) (htop : c.stack t = .loop :: rest)
    {functors : List Functor} (queue : c.shared.functors = .startInLoop :: functors) :
    Held (c.replace t { c.shared with functors := functors } ([.loop] ++ rest)) := by
  have hunstarted := h.unstarted
  rw [queue] at hunstarted
  refine h.replace hplaced htop (fun _ => id) (by simp [Instr.busy]) (fun _ => rfl)
    (by simp [Instr.delivers]) (by simp) (Nat.le_refl _)
    (fun k _ hcurrent hstate hguarded => ⟨hcurrent, hstate, ?_⟩)
    (unstarted_replace htop hunstarted.tail (by simp))
  rw [queue] at hguarded
  cases hconnector : c.shared.connector.state with
  | kConnecting => exact absurd hconnector hstate
  | kDisconnected =>
    rw [hconnector] at hguarded
    exact hguarded.elim
  | kConnected =>
    rw [hconnector] at hguarded
    refine Guarded.mono ?_ fun hclosing => closing_replace htop hclosing False.elim
    exact hguarded

theorem stop_in_loop (h : Held c) (hplaced : Placed c) (htop : c.stack t = .loop :: rest)
    {n : Nat} {functors : List Functor} {connector : Connector.Shared} (fds : List Nat)
    (queue : c.shared.functors = .stopInLoop n :: functors)
    (state : connector.state = .kDisconnected) :
    Held (c.replace t { c.shared with functors := functors, connector := connector }
      ((fds.map fun fd => .connector (.close fd)) ++ [.loop] ++ rest)) := by
  have hactive := Config.active_of_top htop
  have hunstarted := h.unstarted
  rw [queue] at hunstarted
  have hpushed : ∀ j ∈ (fds.map fun fd => Instr.connector (.close fd)) ++ [.loop],
      ¬j.busy ∧ ∀ id, j ≠ .snapshot id := fun j hj => by
    rw [List.mem_append, List.mem_map, List.mem_singleton] at hj
    obtain ⟨fd, -, rfl⟩ | rfl := hj
    · exact ⟨fun hbusy => hbusy.elim id id, by rintro _ ⟨⟩⟩
    · exact ⟨id, by rintro _ ⟨⟩⟩
  refine h.replace hplaced htop (fun _ => id) (fun j hj hbusy => absurd hbusy (hpushed j hj).1)
    (fun ht => absurd (hplaced.inLoop t _ hactive trivial) ht)
    (fun j hj hdelivers => absurd hdelivers.busy (hpushed j hj).1)
    (fun k hk => absurd trivial (hpushed _ hk).1) (Nat.le_refl _)
    (fun k _ hcurrent _ hguarded => ⟨hcurrent, by rw [state]; rintro ⟨⟩, ?_⟩)
    (unstarted_replace htop hunstarted.tail fun id hid => (hpushed _ hid).2 id rfl)
  rw [state]
  rw [queue] at hguarded
  exact hguarded.of_stop.mono fun hclosing => closing_replace htop hclosing False.elim

theorem skip_force_close (h : Held c) (hplaced : Placed c) (htop : c.stack t = .loop :: rest)
    {k : Nat} {functors : List Functor}
    (queue : c.shared.functors = .forceCloseInLoop k :: functors)
    (closed : ¬c.shared.established k) :
    Held (c.replace t { c.shared with functors := functors } ([.loop] ++ rest)) := by
  have hunstarted := h.unstarted
  rw [queue] at hunstarted
  refine h.replace hplaced htop (fun _ => id) (by simp [Instr.busy]) (fun _ => rfl)
    (by simp [Instr.delivers]) (by simp) (Nat.le_refl _)
    (fun k' hk' hcurrent hstate hguarded => ⟨hcurrent, hstate, ?_⟩)
    (unstarted_replace htop hunstarted.tail (by simp))
  rw [queue] at hguarded
  obtain rfl | hguarded := hguarded.of_close
  · exact absurd hk' closed
  · exact hguarded.mono fun hclosing => closing_replace htop hclosing False.elim

theorem step (h : Held c) (hplaced : Placed c) (hok : StopsApart c t i)
    (hstep : machine.Step c t i c') : Held c' := by
  obtain @⟨rest, x, s, pushed, htop, hexec⟩ := hstep
  have hactive := Config.active_of_top htop
  cases moves_of_exec (t := t) hexec with
  | connect | stop | storeStart | storeStop | skipClose | callback =>
    exact h.keep hplaced htop rfl rfl rfl rfl (fun _ => id) (by simp [Instr.busy])
  | event i event =>
    obtain rfl | rfl := event <;>
      exact h.keep hplaced htop rfl rfl rfl rfl (fun _ => id)
        (by simp [Instr.busy, Connector.Instr.attempts, Connector.Instr.stops])
  | queueStart => exact h.queue_start hplaced hok htop
  | queueStop n => exact h.queue_stop hplaced htop
  | sawNone _ none =>
    refine h.vacant hplaced htop (fun k hk => ?_) (fun _ => rfl) (by rintro _ ⟨⟩)
      (by rintro _ ⟨⟩) (Nat.le_refl _)
      (unstarted_replace htop h.unstarted (by rintro _ ⟨⟩))
    have hcurrent := (h.held k hk).1
    rw [none] at hcurrent
    cases hcurrent
  | sawSome _ k some => exact h.snapshot_some hplaced htop some
  | forceClose _ k => exact h.force_close hplaced htop
  | startInLoop functors queue requested disconnected =>
    exact h.start_in_loop hplaced htop queue disconnected
  | skipStart functors queue => exact h.skip_start hplaced htop queue
  | stopInLoop _ functors connector fds queue state =>
    exact h.stop_in_loop hplaced htop fds queue state
  | forceCloseInLoop k functors queue established =>
    have hunstarted := h.unstarted
    rw [queue] at hunstarted
    exact h.vacant hplaced htop (h.vacant_of_close established) (fun _ => rfl)
      (by simp [Instr.delivers]) (by simp) (by simp [Shared.close])
      (unstarted_replace htop hunstarted.tail (by simp))
  | skipForceClose k functors queue closed => exact h.skip_force_close hplaced htop queue closed
  | close k established =>
    exact h.vacant hplaced htop (h.vacant_of_close established) (fun _ => rfl)
      (by simp [Instr.delivers]) (by simp) (by simp [Shared.close])
      (unstarted_replace htop h.unstarted (by simp))
  | connector called moves =>
    exact h.connector_step hplaced htop (does_of_moves moves (hplaced.internal t _ hactive) called)
  | newConnection =>
    have hstate : c.shared.connector.state = .kConnected := by
      obtain rfl := hplaced.inLoop t _ hactive trivial
      exact h.delivers _ rest htop trivial
    exact h.vacant hplaced htop
      (fun k hk => h.busy t _ hactive trivial k (established_of_append hk)) (fun _ => rfl)
      (fun _ _ _ => hstate) (by simp) (by simp) (unstarted_replace htop h.unstarted (by simp))
  | publish k => exact h.publish hplaced hok htop
  | removeConnection k =>
    exact h.vacant hplaced htop (h.busy t _ hactive trivial) (fun _ => rfl)
      (by simp [Instr.delivers, Connector.Instr.delivers]) (by simp) (Nat.le_refl _)
      (unstarted_replace htop h.unstarted (by simp))
  | connectDestroyed k =>
    exact h.vacant hplaced htop
      (fun k' hk' => h.busy t _ hactive trivial k' (established_of_close hk').1) (fun _ => rfl)
      (by rintro _ ⟨⟩) (by rintro _ ⟨⟩) (by simp [Shared.close])
      (unstarted_replace htop h.unstarted (by rintro _ ⟨⟩))

theorem init (users : Nat) : Held (init users) := by
  have hactive : ∀ {t i}, (TcpClient.init users).Active t i → i = .loop ∨ i = .user := by
    intro t i h
    cases t with
    | zero => exact .inl (List.mem_singleton.mp h)
    | succ t => exact .inr (Config.eq_of_active_replicate h)
  refine ⟨fun t i h hi => ?_, fun i rest htop hi => ?_, fun t k h => ?_, fun k hk => ?_, trivial⟩
  · obtain rfl | rfl := hactive h <;> exact hi.elim
  · obtain rfl | rfl := hactive (Config.active_of_top htop) <;> exact hi.elim
  · obtain heq | heq := hactive h <;> cases heq
  · cases hk

end Held

end UnixNotes.Reactor.TcpClient
