import MyMuduo.ServerInvariant

/-! The references to the connections of a server: an object that has been destroyed
has none left, and nobody finds one. -/

namespace MyMuduo

namespace ServerSystem

structure ServerInv (s : ServerSystem) : Prop extends CoreInv s where
  unreferenced : ∀ c, s.released c = true → c < s.map.created ∧ s.referenced c = false

theorem referenced_eq_false {s : ServerSystem} {c : ConnPtr} : s.referenced c = false ↔
    s.map.contains c = false ∧ s.holders c = 0 ∧
      ∀ l ≤ s.config.numThreads_, ∀ w ∈ (s.loops l).taken ++ (s.loops l).items, c ∉ w.bound := by
  simp only [referenced, bound, ServerLoop.binds, Bool.or_eq_false_iff, decide_eq_false_iff_not, Nat.not_lt,
    Nat.le_zero, List.any_eq_false, List.mem_range, Nat.lt_succ_iff, List.contains_iff_mem, not_exists, not_and,
    List.any_eq_true, and_assoc]

theorem ServerInv.here {s : ServerSystem} (hi : s.ServerInv) {l : LoopId} (hl : l ≤ s.config.numThreads_)
    {w : ServerWork} (hw : w ∈ (s.loops l).taken ++ (s.loops l).items) {c : ConnPtr} (hc : c ∈ w.bound) :
    s.released c = false := by
  by_contra hr
  exact (referenced_eq_false.mp (hi.unreferenced c (by simpa using hr)).2).2.2 l hl w hw hc

/-- A step that no released object gains a reference by. -/
structure FindsNone (s t : ServerSystem) : Prop where
  config_eq : t.config = s.config
  released_eq : t.released = s.released
  contains : ∀ c, s.released c = true → s.map.contains c = false → t.map.contains c = false
  holders : ∀ c, s.released c = true → s.holders c = 0 → t.holders c = 0
  bound : ∀ l ≤ s.config.numThreads_, ∀ w ∈ (t.loops l).taken ++ (t.loops l).items,
    w ∈ (s.loops l).taken ++ (s.loops l).items ∨ ∀ c ∈ w.bound, s.released c = false

theorem reap_same (s : ServerSystem) : s.SameConns s.reap := ⟨rfl, rfl, rfl, rfl, rfl, rfl, rfl, fun _ => rfl⟩

theorem ServerInv.next {s t : ServerSystem} (hi : s.ServerInv) (h : s.FindsNone t)
    (hle : s.map.created ≤ t.map.created) (ht : t.CoreInv) : t.ServerInv := by
  refine ⟨ht, fun c hr => ?_⟩
  rw [h.released_eq] at hr
  obtain ⟨hlt, hn⟩ := hi.unreferenced c hr
  obtain ⟨hmap, hhold, hbound⟩ := referenced_eq_false.mp hn
  refine ⟨Nat.lt_of_lt_of_le hlt hle, referenced_eq_false.mpr ⟨h.contains c hr hmap, h.holders c hr hhold, ?_⟩⟩
  intro l hl w hw hcw
  rw [h.config_eq] at hl
  rcases h.bound l hl w hw with hs | hs
  · exact hbound l hl w hs hcw
  · rw [hs c hcw] at hr
    cases hr

theorem ServerInv.reap {s : ServerSystem} (hi : s.ServerInv) : s.reap.ServerInv := by
  refine ⟨hi.toCoreInv.of_loops s.reap_same hi.numbered rfl, fun c hc => ?_⟩
  have hc : (s.released c || decide (c < s.map.created) && !s.referenced c) = true := hc
  have hn : c < s.map.created ∧ s.referenced c = false := by
    rcases Bool.or_eq_true_iff.mp hc with hr | hr
    · exact hi.unreferenced c hr
    · simpa using hr
  exact hn

theorem ServerInv.turned {s : ServerSystem} {l : LoopId} {L : ServerLoop} (hi : s.ServerInv) (h : s.Turned l L) :
    (s.setLoop l L).ServerInv := by
  refine hi.next ⟨rfl, rfl, fun _ _ => id, fun _ _ => id, fun i _ w hw => Or.inl ?_⟩ (Nat.le_refl _)
    (hi.toCoreInv.turned h)
  by_cases hil : i = l
  · subst hil
    simp only [setLoop, Function.update_self, h.items_eq] at hw
    rcases List.mem_append.mp hw with hw | hw
    · exact h.taken w hw
    · exact List.mem_append_right _ hw
  · simpa only [setLoop, Function.update_of_ne hil] using hw

theorem Advance.findsNone {s t : ServerSystem} {l : LoopId} {g front rest : List ServerWork}
    {back : LoopId → List ServerWork} (ha : s.Advance t l front rest back) (ht : (s.loops l).todo = g ++ rest)
    (hi : s.ServerInv) (hl : g = [] ∨ l ≤ s.config.numThreads_) (hconfig : t.config = s.config)
    (hrel : t.released = s.released)
    (hmap : ∀ c, s.released c = true → s.map.contains c = false → t.map.contains c = false)
    (hhold : t.holders = s.holders)
    (hnew : ∀ i, ∀ w ∈ front ++ back i, ∀ c ∈ w.bound, (∃ v ∈ g, c ∈ v.bound) ∨ s.released c = false) :
    s.FindsNone t := by
  have hf := ha.flow ht
  have hgone : ∀ v ∈ g, ∀ c ∈ v.bound, s.released c = false := by
    intro v hv c hc
    rcases hl with hg | hl
    · rw [hg] at hv
      cases hv
    · exact hi.here hl (List.mem_append_right _ (by rw [hf.before]; exact List.mem_append_left _ hv)) hc
  refine ⟨hconfig, hrel, hmap, fun c _ => by rw [hhold]; exact id, fun i hn w hw => ?_⟩
  have hnew : w ∈ front ++ back i → ∀ c ∈ w.bound, s.released c = false := by
    intro hm c hc
    rcases hnew i w hm c hc with ⟨v, hv, hcv⟩ | hr
    · exact hgone v hv c hcv
    · exact hr
  rcases List.mem_append.mp hw with hw | hw
  · rw [ha.taken_eq] at hw
    exact Or.inl (List.mem_append_left _ hw)
  · rcases hf.mem hw with ⟨hw, -⟩ | ⟨-, hw⟩ | hw
    · exact Or.inl (List.mem_append_right _ hw)
    · exact Or.inr (hnew (List.mem_append_left _ hw))
    · exact Or.inr (hnew (List.mem_append_right _ hw))

theorem bound_users {r : Reaction} {w : ServerWork} (h : w ∈ users r) : w.bound = [] := by
  obtain ⟨c, call, rfl⟩ := mem_users h
  rfl

theorem HandlerStep.bound {s : ServerSystem} {l : LoopId} {c : ConnPtr} {v : ServerWork} {w : LoopConn}
    {new : List ServerWork} (h : s.HandlerStep l c v w new) :
    (c ∈ v.bound ∨ s.released c = false) ∧ ∀ u ∈ new, ∀ d ∈ u.bound, d ∈ v.bound := by
  have husers : ∀ r, ∀ u ∈ users r, ∀ d ∈ u.bound, d ∈ v.bound := by
    intro r u hu d hd
    rw [bound_users hu] at hd
    cases hd
  cases h with
  | close hd =>
    refine ⟨Or.inl (List.mem_singleton_self c), fun u hu => ?_⟩
    rcases List.mem_append.mp hu with hu | hu
    · exact husers _ u hu
    · rw [List.mem_singleton.mp hu]
      exact fun _ => id
  | message => exact ⟨Or.inl (List.mem_singleton_self c), husers _⟩
  | endOfStream => exact ⟨Or.inl (List.mem_singleton_self c), by simp [ServerWork.bound]⟩
  | readFailed => exact ⟨Or.inl (List.mem_singleton_self c), by simp⟩
  | write hw => exact ⟨Or.inl (List.mem_singleton_self c), by simp⟩
  | user hc hl hu => exact ⟨Or.inr hc.2, by simp⟩

theorem removed_contains {m : ConnectionMap} {c d : ConnPtr} (h : m.contains d = false) :
    (m.removeConnectionInLoop c).contains d = false := by
  simp only [ConnectionMap.contains, ConnectionMap.removeConnectionInLoop, beq_eq_false_iff_ne] at h ⊢
  by_cases hn : m.names d = m.names c
  · simp [hn]
  · rwa [Function.update_of_ne hn]

theorem ServerInv.exec {s t : ServerSystem} {l : LoopId} {rest : List ServerWork} {v : ServerWork} (hi : s.ServerInv)
    (hl : l ≤ s.config.numThreads_) (ht : (s.loops l).todo = v :: rest) (h : s.ExecStep l rest v t) : t.ServerInv := by
  have hcore := hi.toCoreInv.exec ht h
  have hnoted : ∀ {c : ConnPtr} {w : LoopConn} {i : LoopId} {u : ServerWork}, u ∈ s.noted c w i →
      c ∈ v.bound ∨ s.released c = false → ∀ d ∈ u.bound, (∃ v' ∈ [v], d ∈ v'.bound) ∨ s.released d = false := by
    intro c w i u hu hc d hd
    rw [mem_noted hu] at hd
    cases List.mem_singleton.mp hd
    exact hc.imp_left fun hc => ⟨v, List.mem_singleton_self v, hc⟩
  have husers : ∀ {r : Reaction} {u : ServerWork}, u ∈ users r → ∀ d ∈ u.bound,
      (∃ v' ∈ [v], d ∈ v'.bound) ∨ s.released d = false := by
    intro r u hu d hd
    rw [bound_users hu] at hd
    cases hd
  cases h with
  | @connectEstablished c r w h =>
    have ha := (s.put_advance l (users r) rest c w).of_loops (u := { (s.put c w).setTodo l (users r ++ rest) with
      established := Function.update s.established c true }) rfl rfl
    refine hi.next (ha.findsNone (g := [_]) ht hi (Or.inr hl) rfl rfl (fun _ _ => id) rfl fun i u hu => ?_)
      (Nat.le_refl _) hcore
    rcases List.mem_append.mp hu with hu | hu
    · exact husers hu
    · exact hnoted hu (Or.inl (List.mem_singleton_self c))
  | @connectDestroyed c w h =>
    have ha := (s.put_advance l [] rest c w).of_loops (u := { (s.put c w).setTodo l ([] ++ rest) with
      destroyedOn := Function.update s.destroyedOn c (s.destroyedOn c ++ [l]) }) rfl rfl
    exact hi.next (ha.findsNone (g := [_]) ht hi (Or.inr hl) rfl rfl (fun _ _ => id) rfl fun i u hu =>
      hnoted hu (Or.inl (List.mem_singleton_self c))) (Nat.le_refl _) hcore
  | @handled c _ w new h =>
    obtain ⟨hc, hnew⟩ := h.bound
    refine hi.next ((s.put_advance l new rest c w).findsNone (g := [_]) ht hi (Or.inr hl) rfl rfl (fun _ _ => id)
      rfl fun i u hu => ?_) (Nat.le_refl _) hcore
    rcases List.mem_append.mp hu with hu | hu
    · exact fun d hd => Or.inl ⟨v, List.mem_singleton_self v, hnew u hu d hd⟩
    · exact hnoted hu hc
  | @removeConnectionInLoop c =>
    have ha := (s.push_advance l (s.loopOf c) [] rest (.connectDestroyed c)).of_loops
      (u := (s.setTodo l ([] ++ rest)).removeConnectionInLoop c) rfl rfl
    refine hi.next (ha.findsNone (g := [_]) ht hi (Or.inr hl) rfl rfl (fun _ _ => removed_contains) rfl
      fun i u hu d hd => ?_) (Nat.le_refl _) hcore
    obtain ⟨-, rfl⟩ := mem_pushed.mp hu
    exact Or.inl ⟨_, List.mem_singleton_self _, hd⟩
  | @closeCallbackHere c h0 =>
    have ha := (s.setTodo_advance l [.removeConnectionInLoop c] rest).of_loops
      (u := { s.setTodo l ([.removeConnectionInLoop c] ++ rest) with lateUses := s.late .removeConnection }) rfl rfl
    refine hi.next (ha.findsNone (g := [_]) ht hi (Or.inr hl) rfl rfl (fun _ _ => id) rfl
      fun i u hu d hd => ?_) (Nat.le_refl _) hcore
    rw [List.mem_singleton.mp hu] at hd
    exact Or.inl ⟨_, List.mem_singleton_self _, hd⟩
  | @closeCallback c h0 =>
    have ha := (s.push_advance l 0 [] rest (.removeConnectionInLoop c)).of_loops
      (u := { (s.setTodo l ([] ++ rest)).push 0 (.removeConnectionInLoop c) with
        lateUses := s.late .removeConnection }) rfl rfl
    refine hi.next (ha.findsNone (g := [_]) ht hi (Or.inr hl) rfl rfl (fun _ _ => id) rfl
      fun i u hu d hd => ?_) (Nat.le_refl _) hcore
    obtain ⟨-, rfl⟩ := mem_pushed.mp hu
    exact Or.inl ⟨_, List.mem_singleton_self _, hd⟩
  | @endNewConnection c =>
    have ha := (s.setTodo_advance l [] rest).of_loops
      (u := { s.setTodo l ([] ++ rest) with lateUses := s.late .newConnection }) rfl rfl
    exact hi.next (ha.findsNone (g := [_]) ht hi (Or.inr hl) rfl rfl (fun _ _ => id) rfl
      fun i u hu => absurd hu List.not_mem_nil) (Nat.le_refl _) hcore
  | @done _ r hv =>
    refine hi.next ((s.setTodo_advance l (users r) rest).findsNone (g := [v]) ht hi (Or.inr hl) rfl rfl
      (fun _ _ => id) rfl fun i u hu => ?_) (Nat.le_refl _) hcore
    rcases List.mem_append.mp hu with hu | hu
    · exact husers hu
    · cases hu

theorem UserStep.serverInv {s t : ServerSystem} {a : ServerAction} (h : s.UserStep a t) (hi : s.ServerInv) :
    t.ServerInv := by
  have hcore := h.coreInv hi.toCoreInv
  cases h with
  | @copied c hc =>
    refine hi.next ⟨rfl, rfl, fun _ _ => id, fun d hd h0 => ?_, fun _ _ _ => Or.inl⟩ (Nat.le_refl _) hcore
    have hne : d ≠ c := by
      rintro rfl
      rw [hc.2] at hd
      cases hd
    exact (Function.update_of_ne hne ..).trans h0
  | @dropped c =>
    refine hi.next ⟨rfl, rfl, fun _ _ => id, fun d hd h0 => ?_, fun _ _ _ => Or.inl⟩ (Nat.le_refl _) hcore
    by_cases hdc : d = c
    · subst hdc
      exact (Function.update_self ..).trans (by rw [h0])
    · exact (Function.update_of_ne hdc ..).trans h0
  | @posted l bound hp hb =>
    refine hi.next ((s.push_only l l (.functor bound)).findsNone (g := []) rfl hi (Or.inl rfl) rfl rfl
      (fun _ _ => id) rfl fun i u hu d hd => ?_) (Nat.le_refl _) hcore
    obtain ⟨-, rfl⟩ := mem_pushed.mp hu
    exact Or.inr (hb d hd).2

theorem ServerInv.accepted {s t : ServerSystem} {fd : Fd} (hi : s.ServerInv) (ht : (s.loops 0).todo = [])
    (h : s.Accepted t fd) : t.ServerInv := by
  have hcore := hi.toCoreInv.accepted ht h
  have hnew : s.released s.map.created = false := by
    by_contra hr
    exact Nat.lt_irrefl _ (hi.unreferenced _ (by simpa using hr)).1
  have hmap : ∀ c, s.released c = true → s.map.contains c = false → t.map.contains c = false := by
    intro c hr hc
    have hlt := (hi.unreferenced c hr).1
    rw [h.map_eq]
    simp only [ConnectionMap.contains, ConnectionMap.newConnection, beq_eq_false_iff_ne,
      Function.update_of_ne (Nat.ne_of_lt hlt)] at hc ⊢
    by_cases hn : s.map.names c = connName s.config.name_ s.config.listenAddr.toIpPort s.map.nextConnId_.toInt
    · rw [hn, Function.update_self]
      exact fun he => Nat.ne_of_lt hlt (Option.some.inj he).symm
    · rwa [Function.update_of_ne hn]
  have hle : s.map.created ≤ t.map.created := by
    rw [h.map_eq]
    exact Nat.le_succ _
  rcases h.work with ⟨-, ha⟩ | ha
  · refine hi.next (ha.findsNone (g := []) ht hi (Or.inl rfl) h.config_eq h.released_eq hmap h.holders_eq
      fun i u hu d hd => Or.inr ?_) hle hcore
    have hd : d = s.map.created := by
      simp only [nothing, List.append_nil, List.mem_cons, List.not_mem_nil, or_false] at hu
      rcases hu with rfl | rfl
      all_goals exact List.mem_singleton.mp hd
    rw [hd]
    exact hnew
  · refine hi.next (ha.findsNone (g := []) ht hi (Or.inl rfl) h.config_eq h.released_eq hmap h.holders_eq
      fun i u hu d hd => Or.inr ?_) hle hcore
    obtain ⟨-, rfl⟩ := mem_pushed.mp hu
    rw [List.mem_singleton.mp hd]
    exact hnew

theorem LoopStep.serverInv {s t : ServerSystem} {a : ServerAction} (h : s.LoopStep a t) (hi : s.ServerInv) :
    t.ServerInv := by
  have hcore := h.coreInv hi.toCoreInv
  cases h with
  | @turned l a L hr h => exact hi.turned (h.turned (hi.loops l))
  | @left l hr hp ht hq =>
    refine hi.next ⟨rfl, rfl, fun _ _ => id, fun _ _ => id, fun i _ w hw => Or.inl ?_⟩ (Nat.le_refl _) hcore
    by_cases hil : i = l
    · subst hil
      simp only [setLoop, Function.update_self, ServerLoop.items, ht, List.append_nil] at hw
      exact List.mem_append_left _ hw
    · simpa only [setLoop, Function.update_of_ne hil] using hw
  | accepted hr ha h ht hfd hacc =>
    exact (hi.turned (h.turned (hi.loops 0))).accepted (by simpa [setLoop] using ht) hacc
  | @dangled l c revents active hr ha h hc =>
    have hi' := hi.turned (h.turned (hi.loops l))
    exact hi'.next ⟨rfl, rfl, fun _ _ => id, fun _ _ => id, fun _ _ _ => Or.inl⟩ (Nat.le_refl _) hcore
  | @handled l c revents active guard hr ha h hp ht hc hg =>
    have hi' : (s.setActive l active).ServerInv := hi.turned (h.turned (hi.loops l))
    refine hi'.next (((s.setActive l active).setTodo_advance l (handlers c revents ++ guard) []).findsNone (g := [])
      (by simpa [setActive, setLoop] using ht) hi' (Or.inl rfl) rfl rfl (fun _ _ => id) rfl fun i u hu d hd => Or.inr ?_)
      (Nat.le_refl _) hcore
    have hu : u = .close c ∨ u = .read c ∨ u = .write c ∨ u = .endEvent c := by
      simp only [nothing, List.append_nil, List.mem_append] at hu
      rcases hu with hu | hu
      · rcases mem_handlers hu with hu | hu | hu
        all_goals simp [hu]
      · simp [hg u hu]
    have hd : d = c := by
      rcases hu with rfl | rfl | rfl | rfl
      all_goals exact List.mem_singleton.mp hd
    rw [hd]
    exact hc
  | @code l r hr hp ht =>
    refine hi.next ((s.setTodo_advance l (users r) []).findsNone (g := []) ht hi (Or.inl rfl) rfl rfl
      (fun _ _ => id) rfl fun i u hu d hd => ?_) (Nat.le_refl _) hcore
    simp only [nothing, List.append_nil] at hu
    rw [bound_users hu] at hd
    cases hd
  | worked hr ht h => exact hi.exec hr.1 ht h

theorem reset_contains {m : ConnectionMap} {c d : ConnPtr} (h : m.contains d = false) :
    (m.reset c).contains d = false :=
  removed_contains (c := c) h

theorem TeardownStep.serverInv {s t : ServerSystem} {a : ServerAction} (h : s.TeardownStep a t) (hi : s.ServerInv) :
    t.ServerInv := by
  have hcore := h.coreInv hi.toCoreInv
  have hmap : ∀ c d, s.released d = true → s.map.contains d = false → (s.map.reset c).contains d = false :=
    fun c d _ => reset_contains
  have hhere : ∀ c, s.map.contains c = true → s.released c = false := by
    intro c hm
    by_contra hr
    rw [(referenced_eq_false.mp (hi.unreferenced c (by simpa using hr)).2).1] at hm
    cases hm
  cases h with
  | @destroyItemHere c w hs hc hm hl h =>
    have ha := (({ s with map := s.map.reset c } : ServerSystem).put_only 0 c w).1.of_loops (r := s)
      (u := { ({ s with map := s.map.reset c } : ServerSystem).put c w with
        destroyedOn := Function.update s.destroyedOn c (s.destroyedOn c ++ [0]) }) rfl rfl
    refine hi.next (ha.findsNone (g := []) rfl hi (Or.inl rfl) rfl rfl (hmap c) rfl fun i u hu d hd => Or.inr ?_)
      (Nat.le_refl _) hcore
    rw [mem_noted hu] at hd
    rw [List.mem_singleton.mp hd]
    exact hhere c hm
  | @destroyItem c hs hc hm =>
    have ha := (s.push_only 0 (s.loopOf c) (.connectDestroyed c)).of_loops (r := s)
      (u := ({ s with map := s.map.reset c } : ServerSystem).push (s.loopOf c) (.connectDestroyed c)) rfl rfl
    refine hi.next (ha.findsNone (g := []) rfl hi (Or.inl rfl) rfl rfl (hmap c) rfl fun i u hu d hd => Or.inr ?_)
      (Nat.le_refl _) hcore
    obtain ⟨-, rfl⟩ := mem_pushed.mp hu
    rw [List.mem_singleton.mp hd]
    exact hhere c hm
  | @quitThread i hs =>
    refine hi.next ⟨rfl, rfl, fun _ _ => id, fun _ _ => id, fun j _ w hw => Or.inl ?_⟩ (Nat.le_refl _) hcore
    by_cases hji : j = i
    · subst hji
      simpa [setLoop, ServerLoop.items] using hw
    · simpa [setLoop, hji] using hw
  | _ => exact hi.next ⟨rfl, rfl, fun _ _ => id, fun _ _ => id, fun _ _ _ => Or.inl⟩ (Nat.le_refl _) hcore

theorem step_serverInv {s s' : ServerSystem} {a : ServerAction} (hi : s.ServerInv) (h : s.Step a s') :
    s'.ServerInv := by
  obtain ⟨t, ht | ht | ht, rfl⟩ := step_cases h
  · exact (ht.serverInv hi).reap
  · exact (ht.serverInv hi).reap
  · exact (ht.serverInv hi).reap

theorem start_serverInv (config : ServerConfig) : (start config).ServerInv := by
  refine ⟨⟨ConnectionMap.start_numbered, ?_, ?_, ?_, ?_, ?_, ?_, fun l => ?_⟩, ?_⟩
  · exact fun c hc => absurd hc (Nat.not_lt_zero c)
  · exact fun _ => (Nat.zero_mod _).symm
  · exact fun c hc => absurd hc (Nat.not_lt_zero c)
  · exact fun c l hl => absurd hl List.not_mem_nil
  · exact fun c hc => absurd hc (by simp [start])
  · exact fun c hc => absurd hc (Nat.not_lt_zero c)
  · have hloop : (start config).loops l = ServerLoop.new := rfl
    constructor
    all_goals simp [hloop, ServerLoop.new, ServerLoop.items, Handoff.empty, EPollPoller.new]
  · exact fun c hc => absurd hc (by simp [start])

theorem run_serverInv {config : ServerConfig} {as : List ServerAction} {s : ServerSystem}
    (hr : Run Step (start config) as s) : s.ServerInv :=
  hr.invariant (fun _ _ _ hi h => step_serverInv hi h) (start_serverInv config)

theorem step_config {s s' : ServerSystem} {a : ServerAction} (h : s.Step a s') : s'.config = s.config := by
  obtain ⟨t, ht | ht | ht, rfl⟩ := step_cases h
  · cases ht with
    | _ => rfl
  · cases ht with
    | accepted hr ha hL ht hfd hacc => exact hacc.config_eq
    | worked hr ht hx =>
      cases hx with
      | _ => rfl
    | _ => rfl
  · cases ht with
    | _ => rfl

theorem run_config {config : ServerConfig} {as : List ServerAction} {s : ServerSystem}
    (hr : Run Step (start config) as s) : s.config = config :=
  hr.invariant (I := fun s => s.config = config) (fun _ _ _ hc hs => (step_config hs).trans hc) rfl

end ServerSystem

end MyMuduo
