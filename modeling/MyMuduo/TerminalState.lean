import MyMuduo.ThreadSteps

/-! A closed connection stays closed, as long as no other thread stores
`kDisconnecting` over `kDisconnected`, `connectDestroyed` does not find
`kDisconnecting`, and no close is handled once it has run. -/

namespace MyMuduo

namespace ConnSystem

structure Terminal (s : ConnSystem) : Prop where
  state_eq : s.closed = true ∨ s.destroyed.isSome = true → s.state = .kDisconnected
  unregistered : s.destroyed.isSome = true →
    s.conn.poller.channels_ s.conn.tcp.channel_.fd_ = none ∧
      s.conn.poller.epollfd_ s.conn.tcp.channel_.fd_ = none
  no_write : ∀ n, s.destroyed = some n → ∀ c ∈ s.conn.calls.drop n, ∀ sent, c ≠ .write sent

def settledWork (s : ConnSystem) : LoopWork → Bool
  | .destroyTest => s.state ≠ .kDisconnecting
  | .close _ => s.destroyed.isNone
  | _ => true

/-- What a step must not find: another thread's store `kDisconnected`,
`connectDestroyed` a half-closed connection, `handleClose` a destroyed one. -/
def Settled (s : ConnSystem) : SysAction → Prop
  | .shutdownStore _ => s.state ≠ .kDisconnected
  | .work => s.todo.head?.all s.settledWork = true
  | _ => True

/-- Only the first thing to do can be in the middle of a function. -/
structure ClosedInv (s : ConnSystem) : Prop where
  steady : s.conn.Steady
  started : s.state ≠ .kConnecting
  tail : ∀ w ∈ s.todo.tail, w.atUserCode = true
  stored : s.closed = true ∨ s.destroyed.isSome = true ∨ .closeCallback ∈ s.todo ∨ .destroyRemove ∈ s.todo →
    s.state = .kDisconnected
  live : .destroyStore ∈ s.todo ∨ .shutdownStore ∈ s.todo → s.state ≠ .kDisconnected
  removed : ∀ n, s.destroyed = some n → s.conn.tcp.channel_.index_ = .kNew ∧ n ≤ s.conn.calls.length ∧
    ∀ c ∈ s.conn.calls.drop n, ∀ sent, c ≠ .write sent

theorem ClosedInv.terminal {s : ConnSystem} (h : s.ClosedInv) : s.Terminal := by
  refine ⟨fun hh => h.stored (hh.imp_right Or.inl), fun hd => ?_, fun n hn => (h.removed n hn).2.2⟩
  obtain ⟨n, hn⟩ := Option.isSome_iff_exists.mp hd
  have hi := (h.removed n hn).1
  rw [h.steady.agrees.channels_eq, h.steady.agrees.epoll_eq, Channel.mapped, Channel.interest, hi]
  simp

/-- The connection as it was, and nothing to do that continues a function but what
was there. -/
theorem ClosedInv.of_conn_eq {s t : ConnSystem} (h : s.ClosedInv) (hc : t.conn = s.conn)
    (ht : ∀ w ∈ t.todo, w ∈ s.todo ∨ w.relies = false) (htl : ∀ w ∈ t.todo.tail, w.atUserCode = true)
    (hcl : t.closed = s.closed) (hd : t.destroyed = s.destroyed) : t.ClosedInv := by
  have hold : ∀ w, w.relies = true → w ∈ t.todo → w ∈ s.todo := by
    intro w hw hm
    rcases ht w hm with hm | hn
    · exact hm
    · rw [hw] at hn
      cases hn
  refine ⟨by rw [hc]; exact h.steady, by rw [state, hc]; exact h.started, htl, fun hh => ?_, fun hh => ?_, ?_⟩
  · rw [state, hc]
    rw [hcl, hd] at hh
    exact h.stored (hh.imp_right (Or.imp_right (Or.imp (hold _ rfl) (hold _ rfl))))
  · rw [state, hc]
    exact h.live (hh.imp (hold _ rfl) (hold _ rfl))
  · rw [hd, hc]
    exact h.removed

theorem ThreadStep.closedInv {s t : ConnSystem} {a : SysAction} (h : s.ThreadStep a t) (hi : s.ClosedInv)
    (hg : s.Settled a) : t.ClosedInv := by
  have hl := h.sameLoop
  rcases h.conn_eq with ⟨⟨i, rfl⟩, hc⟩ | hc
  · have hne : s.state ≠ .kDisconnected := hg
    have hst : t.state = .kDisconnecting := by rw [state, hc]; rfl
    refine ⟨hc ▸ LoopConn.setState_steady hi.steady hne (by decide), by simp [hst], by rw [hl.todo_eq]; exact hi.tail,
      fun hh => ?_, fun _ => by simp [hst], fun n hn => ?_⟩
    · rw [hl.closed_eq, hl.destroyed_eq, hl.todo_eq] at hh
      exact absurd (hi.stored hh) hne
    · rw [hl.destroyed_eq] at hn
      exact absurd (hi.stored (Or.inr (Or.inl (Option.isSome_iff_exists.mpr ⟨n, hn⟩)))) hne
  · exact hi.of_conn_eq hc (fun w hw => Or.inl (hl.todo_eq ▸ hw)) (by rw [hl.todo_eq]; exact hi.tail)
      hl.closed_eq hl.destroyed_eq

/-- Work that leaves `state_` alone and, once `connectDestroyed` has run, neither
writes nor registers. -/
theorem ClosedInv.of_work {s t : ConnSystem} {w : LoopWork} {rest : List LoopWork} (h : s.ClosedInv)
    (htodo : s.todo = w :: rest) (hs : t.conn.Steady) (hst : t.state = s.state)
    (ht : ∀ v ∈ t.todo, v ∈ rest ∨ v.relies = false) (htl : ∀ v ∈ t.todo.tail, v.atUserCode = true)
    (hcl : t.closed = s.closed) (hd : t.destroyed = s.destroyed)
    (hq : s.destroyed.isSome = true → t.conn.tcp.channel_.index_ = s.conn.tcp.channel_.index_ ∧
      ∃ ds, t.conn.calls = s.conn.calls ++ ds ∧ ∀ c ∈ ds, ∀ sent, c ≠ .write sent) : t.ClosedInv := by
  have hold : ∀ v, v.relies = true → v ∈ t.todo → v ∈ s.todo := by
    intro v hv hm
    rcases ht v hm with hm | hn
    · exact htodo ▸ List.mem_cons_of_mem _ hm
    · rw [hv] at hn
      cases hn
  refine ⟨hs, hst ▸ h.started, htl, fun hh => ?_, fun hh => ?_, fun n hn => ?_⟩
  · rw [hcl, hd] at hh
    rw [hst]
    exact h.stored (hh.imp_right (Or.imp_right (Or.imp (hold _ rfl) (hold _ rfl))))
  · rw [hst]
    exact h.live (hh.imp (hold _ rfl) (hold _ rfl))
  · rw [hd] at hn
    obtain ⟨hix, hle, hnw⟩ := h.removed n hn
    obtain ⟨hix', ds, hc, hds⟩ := hq (Option.isSome_iff_exists.mpr ⟨n, hn⟩)
    refine ⟨hix'.trans hix, by rw [hc, List.length_append]; omega, fun c hm => ?_⟩
    rw [hc, List.drop_append_of_le_length hle] at hm
    rcases List.mem_append.mp hm with hm | hm
    · exact hnw c hm
    · exact hds c hm

/-- Once `connectDestroyed` has run the connection is closed and wants nothing. -/
theorem ClosedInv.state_of_destroyed {s : ConnSystem} (h : s.ClosedInv) (hd : s.destroyed.isSome = true) :
    s.state = .kDisconnected :=
  h.stored (Or.inr (Or.inl hd))

theorem ClosedInv.rest {s : ConnSystem} {w : LoopWork} {rest : List LoopWork} (h : s.ClosedInv)
    (htodo : s.todo = w :: rest) : ∀ v ∈ rest, v.atUserCode = true := by
  have := h.tail
  rwa [htodo] at this

theorem no_relies_of_atUserCode {v : LoopWork} (h : v.atUserCode = true) (hv : v ≠ .closeCallback) :
    v.relies = false := by
  cases v <;> simp_all [LoopWork.atUserCode, LoopWork.relies]

theorem execUser_closedInv {s t : ConnSystem} {c : UserCall} {rest : List LoopWork} (hi : s.ClosedInv)
    (htodo : s.todo = .user c :: rest) (h : s.execUser rest c = some t) : t.ClosedInv := by
  have hrest := hi.rest htodo
  have htail : ∀ v ∈ rest.tail, v.atUserCode = true := fun v hv => hrest v (List.mem_of_mem_tail hv)
  cases c with
  | send d k =>
    simp only [execUser] at h
    split at h
    · cases h
      refine hi.of_work htodo hi.steady rfl (fun v hv => ?_) hrest rfl rfl fun _ => ⟨rfl, [], by simp, by simp⟩
      rcases List.mem_cons.mp hv with rfl | hv
      · exact Or.inr rfl
      · exact Or.inl hv
    · cases h
      exact hi.of_work htodo hi.steady rfl (fun v hv => Or.inl hv) htail rfl rfl fun _ => ⟨rfl, [], by simp, by simp⟩
  | shutdown =>
    simp only [execUser, Option.some.injEq] at h
    by_cases hst : s.state = .kConnected
    · have ht : t = { s with covered := s.covered ++ s.returned, todo := .shutdownStore :: rest } := by
        rw [← h, if_pos (show ({ s with covered := s.covered ++ s.returned } : ConnSystem).state = .kConnected from hst)]
      subst ht
      have hsub : ∀ v, v.relies = true → v ≠ .shutdownStore → v ∈ LoopWork.shutdownStore :: rest → v ∈ s.todo := by
        intro v _ hne hm
        rcases List.mem_cons.mp hm with rfl | hm
        · exact absurd rfl hne
        · exact htodo ▸ List.mem_cons_of_mem _ hm
      refine ⟨hi.steady, hi.started, hrest, fun hh => ?_, fun _ => ?_, hi.removed⟩
      · exact hi.stored (hh.imp_right (Or.imp_right (Or.imp (hsub _ rfl (by simp)) (hsub _ rfl (by simp)))))
      · simp [state] at hst ⊢
        simp [hst]
    · have ht : t = { s with covered := s.covered ++ s.returned, todo := rest } := by
        rw [← h, if_neg (show ¬ ({ s with covered := s.covered ++ s.returned } : ConnSystem).state = .kConnected from hst)]
      subst ht
      exact hi.of_work htodo hi.steady rfl (fun v hv => Or.inl hv) htail rfl rfl fun _ => ⟨rfl, [], by simp, by simp⟩
  | input op =>
    simp only [execUser, Option.map_eq_some_iff] at h
    obtain ⟨⟨out, b⟩, -, rfl⟩ := h
    refine hi.of_work htodo ?_ rfl (fun v hv => Or.inl hv) htail rfl rfl fun _ => ⟨rfl, [], by simp [proceed, LoopConn.setInput], by simp⟩
    exact ⟨hi.steady.agrees, hi.steady.output_inv, hi.steady.writing_iff, hi.steady.closed⟩

/-- `setState(kDisconnected)` and `disableAll`, as both ways of closing begin. -/
theorem disconnect_steady {w w' : LoopConn} (hs : w.Steady)
    (h : (w.setState .kDisconnected).onChannel Channel.disableAll = .ok w') :
    w'.Steady ∧ w'.tcp.state_ = .kDisconnected ∧ w'.calls = w.calls := by
  obtain ⟨p', c', rfl, he, hk⟩ := LoopConn.disableAll_spec (w := w.setState .kDisconnected) hs.agrees h
  exact ⟨⟨hk.agrees, hs.output_inv, fun hh => absurd rfl hh, fun _ => Channel.isWriting_of_none he⟩, rfl, rfl⟩

theorem close_closedInv {s t : ConnSystem} {cs : List UserCall} {rest : List LoopWork} (hi : s.ClosedInv)
    (htodo : s.todo = .close cs :: rest) (hg : s.destroyed = none) (h : s.exec rest (.close cs) = some t) :
    t.ClosedInv := by
  simp only [exec, Option.map_eq_some_iff, toOption_eq_some] at h
  obtain ⟨conn, hconn, rfl⟩ := h
  obtain ⟨hs, hst, -⟩ := disconnect_steady hi.steady hconn
  have huser : ∀ v ∈ cs.map LoopWork.user ++ .closeCallback :: rest, v.atUserCode = true := by
    intro v hv
    rcases List.mem_append.mp hv with hv | hv
    · exact (users_atUserCode v hv).1
    · rcases List.mem_cons.mp hv with rfl | hv
      · rfl
      · exact hi.rest htodo v hv
  refine ⟨hs.of_eq rfl rfl, by simp [state, proceed, LoopConn.call, hst],
    fun v hv => huser v (List.mem_of_mem_tail hv), fun _ => hst, ?_, fun n hn => ?_⟩
  · rintro (hh | hh)
    · cases huser _ hh
    · cases huser _ hh
  · have hn : s.destroyed = some n := hn
    rw [hg] at hn
    cases hn

theorem closeCallback_closedInv {s t : ConnSystem} {rest : List LoopWork} (hi : s.ClosedInv)
    (htodo : s.todo = .closeCallback :: rest) (h : s.exec rest .closeCallback = some t) : t.ClosedInv := by
  have hst := hi.stored (Or.inr (Or.inr (Or.inl (by simp [htodo]))))
  have hrest := hi.rest htodo
  have hi' : ClosedInv { s with todo := rest, conn := s.conn.call .closeCallback } :=
    hi.of_work htodo (hi.steady.of_eq rfl rfl) rfl (fun v hv => Or.inl hv)
      (fun v hv => hrest v (List.mem_of_mem_tail hv)) rfl rfl fun _ => ⟨rfl, [.closeCallback], rfl, by simp⟩
  cases h
  exact ⟨hi'.steady, hi'.started, hi'.tail, fun _ => hst, hi'.live, hi'.removed⟩

theorem read_closedInv {s t : ConnSystem} {k : ReadOutcome} {cs : List UserCall} {rest : List LoopWork}
    (hi : s.ClosedInv) (htodo : s.todo = .read k cs :: rest) (h : s.exec rest (.read k cs) = some t) :
    t.ClosedInv := by
  have hrest := hi.rest htodo
  simp only [exec, Option.map_eq_some_iff] at h
  obtain ⟨⟨n, e, b⟩, -, rfl⟩ := h
  have hs : (s.conn.setInput b).Steady :=
    ⟨hi.steady.agrees, hi.steady.output_inv, hi.steady.writing_iff, hi.steady.closed⟩
  simp only
  split
  · refine hi.of_work htodo (hs.of_eq rfl rfl) rfl (fun v hv => ?_) (fun v hv => ?_) rfl rfl
      fun _ => ⟨rfl, [.messageCallback], rfl, by simp⟩
    · exact (List.mem_append.mp hv).symm.imp_right fun hv => (users_atUserCode v hv).2
    · rcases List.mem_append.mp (List.mem_of_mem_tail hv) with hv | hv
      · exact (users_atUserCode v hv).1
      · exact hrest v hv
  · refine hi.of_work htodo hs rfl (fun v hv => ?_) (fun v hv => ?_) rfl rfl
      fun _ => ⟨rfl, [], by simp [proceed, LoopConn.setInput], by simp⟩
    · simp only [proceed] at hv
      split at hv
      · exact (List.mem_cons.mp hv).symm.imp_right fun hv => by rw [hv]; rfl
      · exact Or.inl hv
    · simp only [proceed] at hv
      split at hv
      · exact hrest v hv
      · exact hrest v (List.mem_of_mem_tail hv)

/-- A write on a destroyed connection would need write interest, which is gone. -/
theorem write_closedInv {s t : ConnSystem} {k : WriteOutcome} {rest : List LoopWork} (hi : s.ClosedInv)
    (htodo : s.todo = .write k :: rest) (h : s.exec rest (.write k) = some t) : t.ClosedInv := by
  have hrest := hi.rest htodo
  simp only [exec, Option.map_eq_some_iff, toOption_eq_some] at h
  obtain ⟨conn, hconn, rfl⟩ := h
  obtain ⟨hs, -, hst⟩ := LoopConn.handleWrite_steady hi.steady hconn
  refine hi.of_work htodo hs hst (fun v hv => Or.inl hv) (fun v hv => hrest v (List.mem_of_mem_tail hv)) rfl rfl
    fun hd => ?_
  rw [LoopConn.handleWrite, hi.steady.closed (hi.state_of_destroyed hd)] at hconn
  cases hconn
  exact ⟨rfl, [], by simp [proceed], by simp⟩

/-- `sendInLoop` gives up on a destroyed connection, wherever it was called from. -/
theorem sendInLoop_closedInv {s t : ConnSystem} {w : LoopWork} {d : Span} {k : WriteOutcome} {conn : LoopConn}
    {rest : List LoopWork} (hi : s.ClosedInv) (htodo : s.todo = w :: rest) (h : s.conn.sendInLoop d k = .ok conn)
    (hc : t.conn = conn) (ht : t.todo = rest) (hcl : t.closed = s.closed) (hd : t.destroyed = s.destroyed) :
    t.ClosedInv := by
  have hrest := hi.rest htodo
  obtain ⟨hs, -, hst⟩ := LoopConn.sendInLoop_steady hi.steady h
  refine hi.of_work htodo (hc ▸ hs) (by rw [state, hc, hst]; rfl) (fun v hv => Or.inl (ht ▸ hv))
    (fun v hv => hrest v (List.mem_of_mem_tail (ht ▸ hv))) hcl hd fun hdes => ?_
  rw [LoopConn.sendInLoop, if_pos (show s.conn.tcp.state_ = .kDisconnected from hi.state_of_destroyed hdes)] at h
  cases h
  rw [hc]
  exact ⟨rfl, [], by simp, by simp⟩

theorem shutdownStore_closedInv {s t : ConnSystem} {rest : List LoopWork} (hi : s.ClosedInv)
    (htodo : s.todo = .shutdownStore :: rest) (h : s.exec rest .shutdownStore = some t) : t.ClosedInv := by
  have hne := hi.live (Or.inr (by simp [htodo]))
  have hold : ∀ v, v.relies = true → v ∈ LoopWork.shutdownInLoop false :: rest → v ∈ s.todo := by
    intro v hv hm
    rcases List.mem_cons.mp hm with rfl | hm
    · cases hv
    · exact htodo ▸ List.mem_cons_of_mem _ hm
  cases h
  refine ⟨LoopConn.setState_steady hi.steady hne (by decide), by simp [state, proceed, LoopConn.setState],
    hi.rest htodo, fun hh => ?_, fun _ => by simp [state, proceed, LoopConn.setState], fun n hn => ?_⟩
  · exact absurd (hi.stored (hh.imp_right (Or.imp_right (Or.imp (hold _ rfl) (hold _ rfl))))) hne
  · exact absurd (hi.state_of_destroyed (Option.isSome_iff_exists.mpr ⟨n, hn⟩)) hne

theorem shutdownInLoop_closedInv {s t : ConnSystem} {queued : Bool} {rest : List LoopWork} (hi : s.ClosedInv)
    (htodo : s.todo = .shutdownInLoop queued :: rest) (h : s.exec rest (.shutdownInLoop queued) = some t) :
    t.ClosedInv := by
  have hrest := hi.rest htodo
  have hsh : s.conn.shutdownInLoop.tcp = s.conn.tcp ∧ s.conn.shutdownInLoop.poller = s.conn.poller ∧
      ∃ ds, s.conn.shutdownInLoop.calls = s.conn.calls ++ ds ∧ ∀ c ∈ ds, ∀ sent, c ≠ .write sent := by
    unfold LoopConn.shutdownInLoop
    split
    · exact ⟨rfl, rfl, _, rfl, by simp⟩
    · exact ⟨rfl, rfl, [], by simp, by simp⟩
  obtain ⟨htcp, hpo, hcalls⟩ := hsh
  cases h
  exact hi.of_work htodo (hi.steady.of_eq htcp hpo) (congrArg TcpConnection.state_ htcp) (fun v hv => Or.inl hv)
    (fun v hv => hrest v (List.mem_of_mem_tail hv)) rfl rfl
    fun _ => ⟨congrArg (fun c => c.channel_.index_) htcp, hcalls⟩

theorem destroyTest_closedInv {s t : ConnSystem} {rest : List LoopWork} (hi : s.ClosedInv)
    (htodo : s.todo = .destroyTest :: rest) (hg : s.state ≠ .kDisconnecting)
    (h : s.exec rest .destroyTest = some t) : t.ClosedInv := by
  have hrest := hi.rest htodo
  have hold : ∀ v w : LoopWork, v.relies = true → v ≠ w → v ∈ w :: rest → v ∈ s.todo := by
    intro v w _ hne hm
    rcases List.mem_cons.mp hm with rfl | hm
    · exact absurd rfl hne
    · exact htodo ▸ List.mem_cons_of_mem _ hm
  cases h
  by_cases hst : s.state = .kConnected
  · rw [if_pos hst]
    refine ⟨hi.steady, hi.started, hrest, fun hh => hi.stored ?_, fun _ => ?_, hi.removed⟩
    · exact hh.imp_right (Or.imp_right (Or.imp (hold _ _ rfl (by simp)) (hold _ _ rfl (by simp))))
    · change s.state ≠ .kDisconnected
      simp [hst]
  · rw [if_neg hst]
    have hd : s.state = .kDisconnected := by
      cases hs : s.state with
      | kDisconnected => rfl
      | kConnecting => exact absurd hs hi.started
      | kConnected => exact absurd hs hst
      | kDisconnecting => exact absurd hs hg
    refine ⟨hi.steady, hi.started, hrest, fun _ => hd, fun hh => hi.live ?_, hi.removed⟩
    exact hh.imp (hold _ _ rfl (by simp)) (hold _ _ rfl (by simp))

theorem destroyStore_closedInv {s t : ConnSystem} {rest : List LoopWork} (hi : s.ClosedInv)
    (htodo : s.todo = .destroyStore :: rest) (h : s.exec rest .destroyStore = some t) : t.ClosedInv := by
  have hne := hi.live (Or.inl (by simp [htodo]))
  have hrest := hi.rest htodo
  simp only [exec, Option.map_eq_some_iff, toOption_eq_some] at h
  obtain ⟨conn, hconn, rfl⟩ := h
  obtain ⟨hs, hst, -⟩ := disconnect_steady hi.steady hconn
  refine ⟨hs, by simp [state, proceed, hst], hrest, fun _ => hst, ?_, fun n hn => ?_⟩
  · rintro (hh | hh)
    · rcases List.mem_cons.mp hh with hh | hh
      · cases hh
      · cases hrest _ hh
    · rcases List.mem_cons.mp hh with hh | hh
      · cases hh
      · cases hrest _ hh
  · exact absurd (hi.state_of_destroyed (Option.isSome_iff_exists.mpr ⟨n, hn⟩)) hne

theorem destroyRemove_closedInv {s t : ConnSystem} {rest : List LoopWork} (hi : s.ClosedInv)
    (htodo : s.todo = .destroyRemove :: rest) (h : s.exec rest .destroyRemove = some t) : t.ClosedInv := by
  have hst := hi.stored (Or.inr (Or.inr (Or.inr (by simp [htodo]))))
  have hrest := hi.rest htodo
  simp only [exec, Option.map_eq_some_iff, toOption_eq_some] at h
  obtain ⟨conn, hconn, rfl⟩ := h
  obtain ⟨p', rfl, hk⟩ := LoopConn.remove_spec hi.steady.agrees hconn
  refine ⟨⟨hk.agrees, hi.steady.output_inv, hi.steady.writing_iff, hi.steady.closed⟩, hi.started,
    fun v hv => hrest v (List.mem_of_mem_tail hv), fun _ => hst, ?_, fun n hn => ?_⟩
  · rintro (hh | hh)
    · cases hrest _ hh
    · cases hrest _ hh
  · cases hd : s.destroyed with
    | some m =>
      have hn : some m = some n := by simpa [hd] using hn
      cases hn
      exact ⟨rfl, (hi.removed _ hd).2⟩
    | none =>
      have hn : some s.conn.calls.length = some n := by simpa [hd] using hn
      cases hn
      exact ⟨rfl, Nat.le_refl _, by simp [proceed, LoopConn.setChannel]⟩

theorem work_closedInv {s t : ConnSystem} {w : LoopWork} {rest : List LoopWork} (hi : s.ClosedInv)
    (hg : s.Settled .work) (htodo : s.todo = w :: rest) (h : s.exec rest w = some t) : t.ClosedInv := by
  have hg : s.settledWork w = true := by simpa [Settled, htodo] using hg
  cases w with
  | close cs => exact close_closedInv hi htodo (by simpa [settledWork] using hg) h
  | closeCallback => exact closeCallback_closedInv hi htodo h
  | read k cs => exact read_closedInv hi htodo h
  | write k => exact write_closedInv hi htodo h
  | user c => exact execUser_closedInv hi htodo h
  | sendSpan id d k =>
    simp only [exec, Option.map_eq_some_iff, toOption_eq_some] at h
    obtain ⟨conn, hconn, rfl⟩ := h
    exact sendInLoop_closedInv hi htodo hconn rfl rfl rfl rfl
  | sendInLoop m k =>
    simp only [exec, Option.map_eq_some_iff, toOption_eq_some] at h
    obtain ⟨conn, hconn, rfl⟩ := h
    exact sendInLoop_closedInv hi htodo hconn rfl rfl rfl rfl
  | shutdownStore => exact shutdownStore_closedInv hi htodo h
  | shutdownInLoop queued => exact shutdownInLoop_closedInv hi htodo h
  | destroyTest => exact destroyTest_closedInv hi htodo (by simpa [settledWork] using hg) h
  | destroyStore => exact destroyStore_closedInv hi htodo h
  | destroyRemove => exact destroyRemove_closedInv hi htodo h

theorem LoopStep.closedInv {s t : ConnSystem} {a : SysAction} (h : s.LoopStep a t) (hi : s.ClosedInv)
    (hg : s.Settled a) : t.ClosedInv := by
  by_cases ha : a = .work
  · subst ha
    cases h with
    | work htodo hu h => exact work_closedInv hi hg htodo h
  · have hn := h.nextWork ha
    exact hi.of_conn_eq hn.conn_eq hn.todo_sub (hn.tail_sub hi.tail) hn.closed_eq hn.destroyed_eq

theorem step_closedInv {s s' : ConnSystem} {a : SysAction} (hi : s.ClosedInv) (h : Guarded Step Settled s a s') :
    s'.ClosedInv := by
  obtain ⟨hg, h⟩ := h
  obtain ⟨t, ht, rfl⟩ := step_cases h
  have hit : t.ClosedInv := by
    rcases ht with ht | ht
    · exact ht.closedInv hi hg
    · exact ht.closedInv hi hg
  exact hit.of_conn_eq rfl (fun _ hw => Or.inl hw) hit.tail rfl rfl

theorem start_closedInv {w : LoopConn} (hw : w.Established) (memory : Memory) (cs : List UserCall) :
    (start w memory cs).ClosedInv := by
  obtain ⟨hs, hst, -, -⟩ := hw.steady
  have hu : ∀ v ∈ (start w memory cs).todo, v.atUserCode = true := fun v hv => (users_atUserCode v hv).1
  refine ⟨hs, by simp [state, start, hst], fun v hv => hu v (List.mem_of_mem_tail hv), ?_, ?_, by simp [start]⟩
  · rintro (hh | hh | hh | hh)
    · cases hh
    · cases hh
    · exact absurd (users_atUserCode _ hh).2 (by simp [LoopWork.relies])
    · cases hu _ hh
  · rintro (hh | hh)
    · cases hu _ hh
    · cases hu _ hh

/-- In every run whose steps are settled, a connection that has been closed or
destroyed is `kDisconnected`, and one that has been destroyed is not registered
again and writes no more. -/
theorem closed_is_terminal {w : LoopConn} (hw : w.Established) {memory : Memory} {cs : List UserCall}
    {as : List SysAction} {s : ConnSystem} (hr : Run (Guarded Step Settled) (start w memory cs) as s) :
    s.Terminal :=
  (hr.invariant (fun _ _ _ hi h => step_closedInv hi h) (start_closedInv hw memory cs)).terminal

instance (s : ConnSystem) (a : SysAction) : Decidable (s.Settled a) := by
  cases a <;> unfold Settled <;> infer_instance

/-- The peer closes, and the connection is taken off its loop. -/
theorem closed_is_terminal_peer : ∃ w as s, w.Established ∧
    Run (Guarded Step Settled) (start w (fun _ => 0) []) as s ∧ s.destroyed.isSome = true ∧ s.Terminal := by
  obtain ⟨w, s, hw, hr, hq⟩ := exists_run_of_trial (f := execGuarded step Settled) (Guarded.of_execGuarded fun _ _ _ h => h) (fun _ => 0)
    [.finish, .poll true, .handleEvent ⟨EPOLLHUP, .data [], .accepts 0 0, [], []⟩, .work, .work,
      .removeConnection, .doPendingFunctors, .call (.accepts 0 0) [], .work, .work]
    (fun s => s.destroyed.isSome) (by decide +kernel)
  exact ⟨w, _, s, hw, hr, hq, closed_is_terminal hw hr⟩

/-- Another thread has tested `kConnected` for its `shutdown`; the peer closes and
`handleClose` runs; then the store brings the connection back to `kDisconnecting`. -/
theorem closed_reopened : ∃ w as s, w.Established ∧ Run Step (start w (fun _ => 0) []) as s ∧ ¬ s.Terminal := by
  obtain ⟨w, s, hw, hr, hq⟩ := exists_run_of_trial (f := step) (fun _ _ _ h => h) (fun _ => 0)
    [.copy 1, .shutdown 1, .finish, .poll true, .handleEvent ⟨EPOLLHUP, .data [], .accepts 0 0, [], []⟩,
      .work, .work, .shutdownStore 1]
    (fun s => s.closed && s.state == .kDisconnecting) (by decide +kernel)
  simp only [Bool.and_eq_true, beq_iff_eq] at hq
  refine ⟨w, _, s, hw, hr, fun ht => ?_⟩
  have := ht.state_eq (Or.inl hq.1)
  rw [hq.2] at this
  cases this

end ConnSystem

end MyMuduo
