import MyMuduo.ServerCustody
import MyMuduo.ServerTeardown

/-! What `~TcpServer` leaves behind: each established connection has been taken down
once before it is destroyed, and those of the pool by the time the threads are joined. -/

namespace MyMuduo

/-- The thread's destructor has returned. -/
def ServerStage.joined (i : LoopId) : ServerStage → Prop
  | .alive => False
  | .destroying => False
  | .quitting j => i < j
  | .joining j => i < j
  | .dead => True

namespace ServerSystem

/-- What has come to its end stays there. -/
structure Ended (s : ServerSystem) : Prop where
  emptied : s.stage ≠ .alive → s.stage ≠ .destroying → ∀ c < s.map.created, s.map.contains c = false
  left : ∀ i, (s.loops i).phase = .left → (s.loops i).quit_ = true ∧ (s.loops i).items = []
  joined : ∀ i, 0 < i → i ≤ s.config.numThreads_ → s.stage.joined i → (s.loops i).phase = .left

theorem TeardownInv.not_left {s : ServerSystem} (h : s.TeardownInv) (he : s.Ended)
    (hs : s.stage = .alive ∨ s.stage = .destroying) (i : LoopId) : (s.loops i).phase ≠ .left := by
  intro hp
  have hq := (he.left i hp).1
  rw [h.quit_eq hs] at hq
  cases hq

theorem Ended.advance {s t : ServerSystem} {l : LoopId} {g front rest : List ServerWork}
    {back : LoopId → List ServerWork} (h : s.Ended) (ha : s.Advance t l front rest back)
    (ht : (s.loops l).todo = g ++ rest) (hfront : front = [] ∨ (s.loops l).phase ≠ .left)
    (hback : ∀ i, ∀ w ∈ back i, (s.loops i).phase ≠ .left) (hst : t.stage = s.stage) (hc : t.config = s.config)
    (hm : t.stage ≠ .alive → t.stage ≠ .destroying → ∀ c < t.map.created, t.map.contains c = false) : t.Ended := by
  have hf := ha.flow ht
  refine ⟨hm, fun i hp => ?_, fun i h0 hi hj => ?_⟩
  · rw [ha.phase_eq] at hp
    obtain ⟨hq, hitems⟩ := h.left i hp
    refine ⟨by rw [ha.quit_eq]; exact hq, List.eq_nil_iff_forall_not_mem.mpr fun w hw => ?_⟩
    rcases hf.mem hw with ⟨hw, -⟩ | ⟨rfl, hw⟩ | hw
    · rw [hitems] at hw
      cases hw
    · rcases hfront with rfl | hn
      · cases hw
      · exact hn hp
    · exact hback i w hw hp
  · rw [ha.phase_eq]
    rw [hc] at hi
    rw [hst] at hj
    exact h.joined i h0 hi hj

theorem TurnStep.not_left {s : ServerSystem} {l : LoopId} {L : ServerLoop} (h : s.TurnStep l L) :
    L.phase ≠ .left ∧ (s.loops l).phase ≠ .left := by
  cases h with
  | tested hp | polled hp | skipped hp | doPendingFunctors hp | called hp | finished hp => simp [hp]

theorem Ended.turned {s : ServerSystem} {l : LoopId} {L : ServerLoop} (h : s.Ended) (hL : s.TurnStep l L) :
    (s.setLoop l L).Ended := by
  refine ⟨h.emptied, fun i hp => ?_, fun i h0 hi hj => ?_⟩
  · by_cases hil : i = l
    · subst hil
      rw [setLoop_self] at hp
      exact absurd hp hL.not_left.1
    · rw [setLoop_others _ _ hil] at hp ⊢
      exact h.left i hp
  · by_cases hil : i = l
    · subst hil
      exact absurd (h.joined i h0 hi hj) hL.not_left.2
    · rw [setLoop_others _ _ hil]
      exact h.joined i h0 hi hj

/-- A loop that has work before it has not returned. -/
theorem Ended.exec {s t : ServerSystem} {l : LoopId} {rest : List ServerWork} {v : ServerWork} (h : s.Ended)
    (hi : s.CoreInv) (htear : s.TeardownInv) (hle : l ≤ s.config.numThreads_) (ht : (s.loops l).todo = v :: rest)
    (hx : s.ExecStep l rest v t) : t.Ended := by
  have hmem : v ∈ (s.loops l).items := by simp [ServerLoop.items, ht]
  have hv : s.Placed l v := (hi.loops l).placed v hmem
  have hl : (s.loops l).phase ≠ .left := by
    intro hp
    rw [(h.left l hp).2] at hmem
    cases hmem
  have halive : v.usesServer = true → ∀ i, (s.loops i).phase ≠ .left := fun hu =>
    htear.not_left h (Or.inl (htear.alive_of_usesServer hle hmem hu))
  have hnoted : ∀ {c : ConnPtr} {w : LoopConn}, s.loopOf c = l → ∀ i, ∀ u ∈ s.noted c w i, (s.loops i).phase ≠ .left := by
    intro c w hc i u hu
    by_cases hil : i = s.loopOf c
    · rw [hil, hc]
      exact hl
    · simp [noted, hil] at hu
  cases hx with
  | @connectEstablished c r w hx =>
    exact h.advance (g := [.connectEstablished c]) ((s.put_advance l (users r) rest c w).of_loops rfl rfl) ht (Or.inr hl)
      (hnoted hv.1.2) rfl rfl h.emptied
  | @connectDestroyed c w hx =>
    exact h.advance (g := [.connectDestroyed c]) ((s.put_advance l [] rest c w).of_loops rfl rfl) ht (Or.inl rfl)
      (hnoted hv.2) rfl rfl h.emptied
  | @handled c _ w new hx =>
    exact h.advance (g := [v]) (s.put_advance l new rest c w) ht (Or.inr hl) (hnoted (hx.spec hi hv).loopOf_eq) rfl rfl
      h.emptied
  | @removeConnectionInLoop c =>
    refine h.advance (g := [.removeConnectionInLoop c])
      ((s.push_advance l (s.loopOf c) [] rest (.connectDestroyed c)).of_loops rfl rfl) ht (Or.inl rfl)
      (fun i _ _ => halive rfl i) rfl rfl fun hn => absurd (htear.alive_of_usesServer hle hmem rfl) hn
  | @closeCallbackHere c h0 =>
    exact h.advance (g := [.closeCallback c]) ((s.setTodo_advance l [.removeConnectionInLoop c] rest).of_loops rfl rfl) ht
      (Or.inr hl) (by simp [nothing]) rfl rfl h.emptied
  | @closeCallback c h0 =>
    exact h.advance (g := [.closeCallback c])
      ((s.push_advance l 0 [] rest (.removeConnectionInLoop c)).of_loops rfl rfl) ht (Or.inl rfl)
      (fun i _ _ => halive rfl i) rfl rfl h.emptied
  | @endNewConnection c =>
    exact h.advance (g := [.endNewConnection c]) ((s.setTodo_advance l [] rest).of_loops rfl rfl) ht (Or.inl rfl)
      (by simp [nothing]) rfl rfl h.emptied
  | @done _ r hx =>
    exact h.advance (g := [v]) (s.setTodo_advance l (users r) rest) ht (Or.inr hl) (by simp [nothing]) rfl rfl h.emptied

theorem UserStep.ended {s t : ServerSystem} {a : ServerAction} (hs : s.UserStep a t) (h : s.Ended) : t.Ended := by
  cases hs with
  | copied hc => exact ⟨h.emptied, h.left, h.joined⟩
  | dropped => exact ⟨h.emptied, h.left, h.joined⟩
  | @posted l bound hp hb =>
    refine h.advance (g := []) (s.push_only l l (.functor bound)) rfl (Or.inl rfl) (fun i w hw => ?_) rfl rfl h.emptied
    obtain ⟨rfl, -⟩ := mem_pushed.mp hw
    exact hp

theorem LoopStep.ended {s t : ServerSystem} {a : ServerAction} (hs : s.LoopStep a t) (h : s.Ended)
    (hi : s.CoreInv) (htear : s.TeardownInv) : t.Ended := by
  cases hs with
  | turned hr hL => exact h.turned hL
  | @left l hr hp ht hq =>
    refine ⟨h.emptied, fun i hpi => ?_, fun i h0 hn hj => ?_⟩
    · by_cases hil : i = l
      · subst hil
        rw [setLoop_self]
        exact ⟨hq, by simp [ServerLoop.items, ht]⟩
      · rw [setLoop_others _ _ hil] at hpi ⊢
        exact h.left i hpi
    · by_cases hil : i = l
      · rw [hil, setLoop_self]
      · rw [setLoop_others _ _ hil]
        exact h.joined i h0 hn hj
  | @accepted fd active t hr ha hL ht hfd hacc =>
    have halive : s.stage = .alive := by
      by_contra hn
      exact (htear.alone hn).2 (by simp [ha])
    have h' : (s.setActive 0 active).Ended := h.turned hL
    have hnot : ∀ i, ((s.setActive 0 active).loops i).phase ≠ .left :=
      (htear.turned hi hL).not_left h' (Or.inl halive)
    obtain ⟨front, back, hadv, -⟩ := hacc.plain
    refine h'.advance (g := []) hadv (by simpa [setActive, setLoop] using ht) (Or.inr (hnot 0)) (fun i _ _ => hnot i)
      hacc.stage_eq hacc.config_eq fun hn => absurd (hacc.stage_eq.trans halive) hn
  | dangled hr ha hL hc => exact ⟨(h.turned hL).emptied, (h.turned hL).left, (h.turned hL).joined⟩
  | @handled l c revents active guard hr ha hL hp ht hc hg =>
    have h' : (s.setActive l active).Ended := h.turned hL
    exact h'.advance (g := []) ((s.setActive l active).setTodo_advance l (handlers c revents ++ guard) [])
      (by simpa [setActive, setLoop] using ht) (Or.inr (by simp [setActive, setLoop, hp])) (by simp [nothing]) rfl rfl
      h'.emptied
  | @code l r hr hp ht =>
    exact h.advance (g := []) (s.setTodo_advance l (users r) []) ht (Or.inr (by simp [hp])) (by simp [nothing]) rfl rfl
      h.emptied
  | worked hr ht hx => exact h.exec hi htear hr.1 ht hx

theorem TeardownStep.ended {s t : ServerSystem} {a : ServerAction} (hs : s.TeardownStep a t) (h : s.Ended)
    (htear : s.TeardownInv) : t.Ended := by
  cases hs with
  | destroyServer hs =>
    exact ⟨fun _ hn => absurd rfl hn, h.left, fun _ _ _ hj => hj.elim⟩
  | @destroyItemHere c w hs hc hm hl hx =>
    have ha := (({ s with map := s.map.reset c } : ServerSystem).put_only 0 c w).1.of_loops (r := s)
      (u := { ({ s with map := s.map.reset c } : ServerSystem).put c w with
        destroyedOn := Function.update s.destroyedOn c (s.destroyedOn c ++ [0]) }) rfl rfl
    exact h.advance (g := []) ha rfl (Or.inl rfl) (fun i _ _ => htear.not_left h (Or.inr hs) i) rfl rfl
      fun _ hn => absurd hs hn
  | @destroyItem c hs hc hm =>
    have ha := (s.push_only 0 (s.loopOf c) (.connectDestroyed c)).of_loops (r := s)
      (u := ({ s with map := s.map.reset c } : ServerSystem).push (s.loopOf c) (.connectDestroyed c)) rfl rfl
    exact h.advance (g := []) ha rfl (Or.inl rfl) (fun i _ _ => htear.not_left h (Or.inr hs) i) rfl rfl
      fun _ hn => absurd hs hn
  | destroyMembers hs hm =>
    refine ⟨fun _ _ => hm, h.left, fun i h0 hn hj => ?_⟩
    have hn : i ≤ s.config.numThreads_ := hn
    dsimp only at hj
    split at hj
    · omega
    · exact absurd hj (Nat.not_lt.mpr h0)
  | @quitThread i hs =>
    have hloop : ∀ j, ((s.setLoop i { s.loops i with quit_ := true }).loops j).phase = (s.loops j).phase := by
      intro j
      by_cases hji : j = i
      · rw [hji, setLoop_self]
      · rw [setLoop_others _ _ hji]
    refine ⟨fun _ _ => h.emptied (by simp [hs]) (by simp [hs]), fun j hp => ?_, fun j h0 hn hj => ?_⟩
    · have hj := h.left j ((hloop j).symm.trans hp)
      dsimp only
      by_cases hji : j = i
      · rw [hji] at hj ⊢
        rw [setLoop_self]
        exact ⟨rfl, hj.2⟩
      · rw [setLoop_others _ _ hji]
        exact hj
    · exact (hloop j).trans (h.joined j h0 hn (by rw [hs]; exact hj))
  | @joinThread i hs hp =>
    refine ⟨fun _ _ => h.emptied (by simp [hs]) (by simp [hs]), h.left, fun j h0 hn hj => ?_⟩
    have hle : j ≤ i := by
      have hn : j ≤ s.config.numThreads_ := hn
      dsimp only at hj
      split at hj
      · exact Nat.lt_succ_iff.mp hj
      · rename_i hlast
        exact Nat.le_trans hn (Nat.not_lt.mp hlast)
    rcases Nat.lt_or_eq_of_le hle with hlt | rfl
    · exact h.joined j h0 hn (by rw [hs]; exact hlt)
    · exact hp

theorem step_ended {s s' : ServerSystem} {a : ServerAction} (h : s.Ended) (hi : s.CoreInv) (htear : s.TeardownInv)
    (hs : s.Step a s') : s'.Ended := by
  obtain ⟨t, ht, rfl⟩ := step_cases hs
  have he : t.Ended := by
    rcases ht with ht | ht | ht
    · exact ht.ended h
    · exact ht.ended h hi htear
    · exact ht.ended h htear
  exact ⟨he.emptied, he.left, he.joined⟩

theorem start_ended (config : ServerConfig) : (start config).Ended :=
  ⟨fun hn => absurd rfl hn, fun _ hp => ServerPhase.noConfusion hp, fun _ _ _ hj => hj.elim⟩

theorem run_teardownInv {config : ServerConfig} {as : List ServerAction} {s : ServerSystem}
    (hr : Run (Guarded Step Orderly) (start config) as s) : s.ServerInv ∧ s.TeardownInv ∧ s.Ended :=
  hr.invariant (I := fun s => s.ServerInv ∧ s.TeardownInv ∧ s.Ended) (fun _ _ _ hi hs => ⟨step_serverInv hi.1 hs.2, step_teardownInv hi.2.1 hi.1.toCoreInv hs,
      step_ended hi.2.2 hi.1.toCoreInv hi.2.1 hs.2⟩)
    ⟨start_serverInv config, start_teardownInv config, start_ended config⟩

theorem TeardownInv.destroyedOnce {s : ServerSystem} (h : s.TeardownInv) {c : ConnPtr} (hc : c < s.map.created)
    (he : s.established c = true) (hm : s.map.contains c = false)
    (hn : .connectDestroyed c ∉ (s.loops (s.loopOf c)).items) : (s.destroyedOn c).length = 1 := by
  have hcount : (s.loops (s.loopOf c)).items.countP (ServerWork.destroys c) = 0 :=
    List.countP_eq_zero.mpr fun w hw hd => hn (ServerWork.destroys_eq hd ▸ hw)
  have htokens := h.tokens_eq c hc (Or.inl he)
  rw [tokens, hm, hcount] at htokens
  simpa using htokens

/-- In an orderly run no member function of the server runs or goes on after its
destruction. A connection that was established executes `connectDestroyed` at most
once, and exactly once by the time it is destroyed, on its own loop; those of the pool
have done so when `~TcpServer` returns. -/
theorem torn_down_once {config : ServerConfig} {as : List ServerAction} {s : ServerSystem}
    (hr : Run (Guarded Step Orderly) (start config) as s) :
    s.lateUses = [] ∧ ∀ c, s.established c = true →
      (s.destroyedOn c).length ≤ 1 ∧ (∀ l ∈ s.destroyedOn c, l = s.loopOf c) ∧
      (s.released c = true → (s.destroyedOn c).length = 1) ∧
      (s.stage = .dead → config.numThreads_ ≠ 0 → (s.destroyedOn c).length = 1) := by
  obtain ⟨hi, h, hend⟩ := run_teardownInv hr
  rw [← run_config (hr.mono fun _ _ _ hs => hs.2)]
  refine ⟨h.lateUses, fun c he => ?_⟩
  have hc := hi.established_lt c he
  refine ⟨?_, fun l hl => (hi.destroyed c l hl).2, fun hrel => ?_, fun hs hn => ?_⟩
  · have hle := h.tokens_le c hc
    simp only [tokens] at hle
    omega
  · obtain ⟨hm, -, hbound⟩ := referenced_eq_false.mp (hi.unreferenced c hrel).2
    exact h.destroyedOnce hc he hm fun hd =>
      hbound _ (hi.loopOf_le hc) _ (List.mem_append_right _ hd) (List.mem_singleton_self c)
  · have hm := hend.emptied (by simp [hs]) (by simp [hs]) c hc
    have hpos : 0 < s.loopOf c := by
      rw [hi.loopOf_eq c hc, if_neg hn]
      exact Nat.succ_pos _
    have hleft := hend.joined _ hpos (hi.loopOf_le hc) (by rw [hs]; trivial)
    refine h.destroyedOnce hc he hm fun hd => ?_
    rw [(hend.left _ hleft).2] at hd
    cases hd

/-- A connection is established, and `~TcpServer` runs on the base loop's thread while
the io loop polls. -/
def tornDown : List ServerAction :=
  [.test 0, .poll 0 [.acceptChannel], .accept (some 5), .doPendingFunctors 0, .finish 0,
    .test 1, .poll 1 [], .doPendingFunctors 1, .call 1, .work 1 quiet, .finish 1,
    .destroyServer, .destroyItem 0, .destroyMembers, .test 1, .poll 1 [], .quitThread,
    .doPendingFunctors 1, .call 1, .work 1 quiet, .finish 1, .test 1, .joinThread]

theorem torn_down_once_joined : ∃ s, Run (Guarded Step Orderly) (start oneThread) tornDown s ∧ s.stage = .dead ∧
    s.released 0 = true ∧ s.established 0 = true ∧
    s.lateUses = [] ∧ ∀ c, s.established c = true →
      (s.destroyedOn c).length ≤ 1 ∧ (∀ l ∈ s.destroyedOn c, l = s.loopOf c) ∧
      (s.released c = true → (s.destroyedOn c).length = 1) ∧
      (s.stage = .dead → oneThread.numThreads_ ≠ 0 → (s.destroyedOn c).length = 1) := by
  have htrial : ((execAll (execGuarded step Orderly) (start oneThread) tornDown).any fun s =>
      decide (s.stage = .dead) && s.released 0 && s.established 0) = true := by decide +kernel
  obtain ⟨s, hs, hq⟩ := (Option.any_eq_true _ _).mp htrial
  simp only [Bool.and_eq_true, decide_eq_true_eq] at hq
  have hr : Run (Guarded Step Orderly) (start oneThread) tornDown s :=
    run_of_execAll (Guarded.of_execGuarded fun _ _ _ h => h) hs
  exact ⟨s, hr, hq.1.1, hq.1.2, hq.2, torn_down_once hr⟩

/-- The peer closes while `~TcpServer` runs: the removal waits on the base loop until
the server is gone. -/
def closedLate : List ServerAction :=
  [.test 0, .poll 0 [.acceptChannel], .accept (some 5), .doPendingFunctors 0, .finish 0,
    .test 1, .poll 1 [], .doPendingFunctors 1, .call 1, .work 1 quiet, .finish 1,
    .destroyServer, .destroyItem 0, .destroyMembers, .test 1, .poll 1 [.channel 0 EPOLLIN], .quitThread,
    .handleEvent 1, .work 1 quiet, .work 1 quiet, .work 1 quiet, .work 1 quiet,
    .doPendingFunctors 1, .call 1, .work 1 quiet, .finish 1, .test 1, .joinThread,
    .test 0, .poll 0 [], .doPendingFunctors 0, .call 0, .work 0 quiet]

theorem removed_too_late : ∃ s, Run Step (start oneThread) closedLate s ∧ s.stage = .dead ∧
    s.lateUses = [.removeConnectionInLoop] := by
  have htrial : ((execAll step (start oneThread) closedLate).any fun s =>
      decide (s.stage = .dead) && decide (s.lateUses = [.removeConnectionInLoop])) = true := by decide +kernel
  obtain ⟨s, hs, hq⟩ := (Option.any_eq_true _ _).mp htrial
  simp only [Bool.and_eq_true, decide_eq_true_eq] at hq
  exact ⟨s, run_of_execAll (fun _ _ _ h => h) hs, hq⟩

end ServerSystem

end MyMuduo
