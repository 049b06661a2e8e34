import MyMuduo.Handlers

/-! What an operation of a connection does to the poller, whatever state the two are
in: it registers the connection itself or nothing. -/

namespace MyMuduo

/-- The interest set names the object at its own descriptor only, and then its index
says so. -/
def Owned (p : EPollPoller) (c : Channel) : Prop :=
  ∀ fd e, p.epollfd_ fd = some e → e.ptr = c.self → fd = c.fd_ ∧ c.index_ = .kAdded

/-- Nothing has been registered but the object itself, at its descriptor. -/
structure Registers (p : EPollPoller) (c : Channel) (p' : EPollPoller) (c' : Channel) : Prop where
  self_eq : c'.self = c.self
  fd_eq : c'.fd_ = c.fd_
  mapped : ∀ fd d, p'.channels_ fd = some d → p.channels_ fd = some d ∨ fd = c.fd_ ∧ d = c.self
  watched : ∀ fd e, p'.epollfd_ fd = some e → p.epollfd_ fd = some e ∨ fd = c.fd_ ∧ e.ptr = c.self
  owned : Owned p c → Owned p' c'

theorem Registers.of_eq {p : EPollPoller} {c c' : Channel} (hs : c'.self = c.self) (hf : c'.fd_ = c.fd_)
    (hx : c'.index_ = c.index_) : Registers p c p c' := by
  refine ⟨hs, hf, fun _ _ => Or.inl, fun _ _ => Or.inl, fun ho fd e he hp => ?_⟩
  rw [hf, hx]
  exact ho fd e he (hp.trans hs)

theorem Registers.refl (p : EPollPoller) (c : Channel) : Registers p c p c := .of_eq rfl rfl rfl

theorem Registers.trans {p q r : EPollPoller} {b c d : Channel} (h : Registers p b q c) (h' : Registers q c r d) :
    Registers p b r d := by
  refine ⟨h'.self_eq.trans h.self_eq, h'.fd_eq.trans h.fd_eq, fun fd x hx => ?_, fun fd e he => ?_,
    fun ho => h'.owned (h.owned ho)⟩
  · rcases h'.mapped fd x hx with hx | hx
    · exact h.mapped fd x hx
    · rw [h.fd_eq, h.self_eq] at hx
      exact Or.inr hx
  · rcases h'.watched fd e he with he | he
    · exact h.watched fd e he
    · rw [h.fd_eq, h.self_eq] at he
      exact Or.inr he

namespace EPollPoller

/-- `update` changes the interest set at the descriptor, and there as it was told. -/
theorem update_watched {p p' : EPollPoller} {operation : CtlOp} {c : Channel} (h : p.update operation c = .ok p') :
    p'.channels_ = p.channels_ ∧ (∀ fd ≠ c.fd_, p'.epollfd_ fd = p.epollfd_ fd) ∧
      (operation = .del → p'.epollfd_ c.fd_ = none) ∧
      (operation ≠ .del → p'.epollfd_ c.fd_ = some ⟨c.events_, c.self⟩) := by
  unfold update at h
  split at h
  · rename_i set hset
    cases h
    cases operation with
    | add =>
      obtain ⟨-, rfl⟩ := by simpa [epollCtl] using hset
      exact ⟨rfl, fun fd hn => Function.update_of_ne hn .., by simp, fun _ => Function.update_self ..⟩
    | mod =>
      obtain ⟨-, rfl⟩ := by simpa [epollCtl] using hset
      exact ⟨rfl, fun fd hn => Function.update_of_ne hn .., by simp, fun _ => Function.update_self ..⟩
    | del =>
      obtain ⟨-, rfl⟩ := by simpa [epollCtl] using hset
      exact ⟨rfl, fun fd hn => Function.update_of_ne hn .., fun _ => Function.update_self .., by simp⟩
  · rename_i hset
    split at h
    · rename_i hop
      cases h
      subst hop
      exact ⟨rfl, fun _ _ => rfl, fun _ => by simpa [epollCtl] using hset, fun hn => absurd rfl hn⟩
    · cases h

theorem registers_of_set {p q p' : EPollPoller} {c c' : Channel} {operation : CtlOp}
    (h : q.update operation c' = .ok p') (hop : operation ≠ .del)
    (hq : ∀ fd d, q.channels_ fd = some d → p.channels_ fd = some d ∨ fd = c.fd_ ∧ d = c.self)
    (he : q.epollfd_ = p.epollfd_) (hs : c'.self = c.self) (hf : c'.fd_ = c.fd_) (hx : c'.index_ = .kAdded) :
    Registers p c p' c' := by
  obtain ⟨hch, hothers, -, hset⟩ := update_watched h
  have hset := hset hop
  rw [hf] at hothers hset
  refine ⟨hs, hf, fun fd d hd => hq fd d (hch ▸ hd), fun fd e hfe => ?_, fun ho fd e hfe hp => ⟨?_, hx⟩⟩
  · by_cases hfd : fd = c.fd_
    · subst hfd
      rw [hset] at hfe
      cases hfe
      exact Or.inr ⟨rfl, hs⟩
    · rw [hothers fd hfd, he] at hfe
      exact Or.inl hfe
  · by_cases hfd : fd = c.fd_
    · exact hfd.trans hf.symm
    · rw [hothers fd hfd, he] at hfe
      exact (ho fd e hfe (hp.trans hs)).1.trans hf.symm

theorem registers_of_del {p q p' : EPollPoller} {c c' : Channel} (h : q.update .del c = .ok p')
    (hq : ∀ fd d, q.channels_ fd = some d → p.channels_ fd = some d) (he : q.epollfd_ = p.epollfd_)
    (hs : c'.self = c.self) (hf : c'.fd_ = c.fd_) : Registers p c p' c' := by
  obtain ⟨hch, hothers, hdel, -⟩ := update_watched h
  have hdel := hdel rfl
  have hsub : ∀ fd e, p'.epollfd_ fd = some e → fd ≠ c.fd_ ∧ p.epollfd_ fd = some e := by
    intro fd e hfe
    by_cases hfd : fd = c.fd_
    · rw [hfd, hdel] at hfe
      cases hfe
    · exact ⟨hfd, by rw [← he, ← hothers fd hfd]; exact hfe⟩
  refine ⟨hs, hf, fun fd d hd => Or.inl (hq fd d (hch ▸ hd)), fun fd e hfe => Or.inl (hsub fd e hfe).2,
    fun ho fd e hfe hp => ?_⟩
  exact absurd (ho fd e (hsub fd e hfe).2 (hp.trans hs)).1 (hsub fd e hfe).1

theorem updateChannel_registers {p p' : EPollPoller} {c c' : Channel} (h : p.updateChannel c = .ok (p', c')) :
    Registers p c p' c' := by
  unfold updateChannel at h
  split at h
  · obtain ⟨q, hq, h⟩ := bind_eq_ok.mp h
    cases h
    refine registers_of_set hq (by decide) (fun fd d hd => ?_) ?_ rfl rfl rfl
    · split at hd
      · change Function.update p.channels_ c.fd_ (some c.self) fd = some d at hd
        by_cases hfd : fd = c.fd_
        · subst hfd
          rw [Function.update_self] at hd
          exact Or.inr ⟨rfl, (Option.some.inj hd).symm⟩
        · rw [Function.update_of_ne hfd] at hd
          exact Or.inl hd
      · exact Or.inl hd
    · split <;> rfl
  · rename_i hx
    have hx : c.index_ = .kAdded := by
      cases hi : c.index_ <;> simp_all
    split at h
    · obtain ⟨q, hq, h⟩ := bind_eq_ok.mp h
      cases h
      exact registers_of_del hq (fun _ _ hd => hd) rfl rfl rfl
    · obtain ⟨q, hq, h⟩ := bind_eq_ok.mp h
      cases h
      exact registers_of_set hq (by decide) (fun _ _ => Or.inl) rfl rfl rfl hx

/-- A removed channel is gone from the map, and from the interest set if its index
was right. -/
theorem removeChannel_registers {p p' : EPollPoller} {c c' : Channel} (h : p.removeChannel c = .ok (p', c')) :
    Registers p c p' c' ∧ c'.index_ = .kNew ∧ p'.channels_ c.fd_ = none ∧
      ∀ fd e, p'.epollfd_ fd = some e → p.epollfd_ fd = some e := by
  have hsub : ∀ fd d, Function.update p.channels_ c.fd_ none fd = some d → p.channels_ fd = some d := by
    intro fd d hd
    by_cases hfd : fd = c.fd_
    · rw [hfd, Function.update_self] at hd
      cases hd
    · rwa [Function.update_of_ne hfd] at hd
  rw [removeChannel] at h
  split at h
  · obtain ⟨q, hq, h⟩ := bind_eq_ok.mp h
    cases h
    obtain ⟨hch, hothers, hdel, -⟩ := update_watched hq
    refine ⟨registers_of_del hq hsub rfl rfl rfl, rfl, by rw [hch]; exact Function.update_self .., fun fd e he => ?_⟩
    by_cases hfd : fd = c.fd_
    · rw [hfd, hdel rfl] at he
      cases he
    · rwa [hothers fd hfd] at he
  · rename_i hx
    cases h
    refine ⟨⟨rfl, rfl, fun fd d hd => Or.inl (hsub fd d hd), fun _ _ => Or.inl, fun ho fd e he hp => ?_⟩, rfl,
      Function.update_self .., fun _ _ => id⟩
    exact absurd (ho fd e he hp).2 hx

end EPollPoller

namespace LoopConn

/-- As `Registers`, for the connection that an operation leaves. -/
def RegistersOnly (w w' : LoopConn) : Prop := Registers w.poller w.tcp.channel_ w'.poller w'.tcp.channel_

theorem RegistersOnly.of_eq {w w' : LoopConn} (hc : w'.tcp.channel_ = w.tcp.channel_) (hp : w'.poller = w.poller) :
    w.RegistersOnly w' := by
  rw [RegistersOnly, hc, hp]
  exact Registers.refl _ _

theorem registersOnly_update {w w' : LoopConn} {f : Channel → EPollPoller → Except Fault (EPollPoller × Channel)}
    {e : Events} (hf : f w.tcp.channel_ w.poller = w.poller.updateChannel { w.tcp.channel_ with events_ := e })
    (h : w.onChannel f = .ok w') : w.RegistersOnly w' := by
  obtain ⟨⟨p', c'⟩, hu, h⟩ := bind_eq_ok.mp h
  cases h
  have hset : Registers w.poller w.tcp.channel_ w.poller { w.tcp.channel_ with events_ := e } := .of_eq rfl rfl rfl
  exact hset.trans (EPollPoller.updateChannel_registers (hf ▸ hu))

theorem bufferTail_registers {w w' : LoopConn} {d : Span} {nwrote : Int} {remaining : Nat}
    (h : w.bufferTail d nwrote remaining = .ok w') : w.RegistersOnly w' := by
  obtain ⟨b, -, h⟩ := bind_eq_ok.mp h
  have hv : w.RegistersOnly (((w.noteHighWater remaining).setOutput b).call (.buffered nwrote remaining d.len)) :=
    .of_eq (by simp [call, setOutput]) (by simp [call, setOutput])
  simp only at h
  split at h
  · exact hv.trans (registersOnly_update rfl h)
  · cases h
    exact hv

theorem sendInLoop_registers {w w' : LoopConn} {d : Span} {k : WriteOutcome} (h : w.sendInLoop d k = .ok w') :
    w.RegistersOnly w' := by
  obtain ⟨htcp, hpo, -⟩ := w.firstWrite_fst d k
  have hv : w.RegistersOnly (w.firstWrite d k).1 := .of_eq (by rw [htcp]) hpo
  unfold sendInLoop at h
  split at h
  · cases h
    exact Registers.refl _ _
  · generalize w.firstWrite d k = a at h hv
    obtain ⟨v, r⟩ := a
    simp only at h
    split at h
    · exact hv.trans (bufferTail_registers h)
    · cases h
      exact hv

theorem drained_registers {w w' : LoopConn} (h : w.drained = .ok w') : w.RegistersOnly w' := by
  obtain ⟨v, hv, h⟩ := bind_eq_ok.mp h
  have hwv : w.RegistersOnly v := registersOnly_update rfl hv
  have hn : v.RegistersOnly v.noteWriteComplete := .of_eq (by simp) (by simp)
  cases h
  split
  · obtain ⟨htcp, hpo⟩ := v.noteWriteComplete.shutdownInLoop_tcp
    exact (hwv.trans hn).trans (RegistersOnly.of_eq (by rw [htcp]) hpo)
  · exact hwv.trans hn

theorem handleWrite_registers {w w' : LoopConn} {k : WriteOutcome} (h : w.handleWrite k = .ok w') :
    w.RegistersOnly w' := by
  unfold handleWrite at h
  split at h
  · obtain ⟨r, -, h⟩ := bind_eq_ok.mp h
    have hc : w.RegistersOnly (w.call (.write r.sent)) := .of_eq rfl rfl
    simp only at h
    split at h
    · have ho : w.RegistersOnly ((w.call (.write r.sent)).setOutput (w.tcp.outputBuffer_.retrieve r.n.toNat)) :=
        .of_eq rfl rfl
      split at h
      · exact ho.trans (drained_registers h)
      · cases h
        exact ho
    · cases h
      exact hc
  · cases h
    exact Registers.refl _ _

theorem registersRule : HandlerRule RegistersOnly where
  refl _ := Registers.refl _ _
  trans h h' := Registers.trans h h'
  send {w w' d k} h := by
    unfold send at h
    split at h
    · exact sendInLoop_registers h
    · cases h
      exact Registers.refl _ _
  shutdown w := by
    obtain ⟨htcp | ⟨-, htcp⟩, hpo⟩ := w.shutdown_tcp
    · exact .of_eq (by rw [htcp]) hpo
    · exact .of_eq (by rw [htcp]; rfl) hpo
  setInput _ _ := .of_eq rfl rfl
  callback _ := .of_eq rfl rfl
  disconnect {w w'} h := registersOnly_update (w := w.setState .kDisconnected) rfl h
  handleWrite h := handleWrite_registers h

theorem connectEstablished_registers {w w' : LoopConn} {cs : List UserCall} (h : w.connectEstablished cs = .ok w') :
    w.RegistersOnly w' := by
  obtain ⟨v, hv, h⟩ := bind_eq_ok.mp h
  have ht : w.RegistersOnly ((w.setState .kConnected).setChannel w.poller w.tcp.channel_.tie) :=
    Registers.of_eq rfl rfl rfl
  exact (ht.trans (registersOnly_update rfl hv)).trans (registersRule.connectionCallback h)

/-- What `connectDestroyed` leaves: the map no longer has the descriptor. -/
structure Destroyed (w w' : LoopConn) : Prop where
  registers : w.RegistersOnly w'
  index_eq : w'.tcp.channel_.index_ = .kNew
  unmapped : w'.poller.channels_ w.tcp.channel_.fd_ = none
  state_eq : w.tcp.state_ ≠ .kConnected → w'.tcp.state_ = w.tcp.state_
  watched : w.tcp.state_ ≠ .kConnected → ∀ fd e, w'.poller.epollfd_ fd = some e → w.poller.epollfd_ fd = some e

theorem connectDestroyed_destroyed {w w' : LoopConn} (h : w.connectDestroyed = .ok w') : w.Destroyed w' := by
  obtain ⟨v, hv, h⟩ := bind_eq_ok.mp h
  obtain ⟨⟨p', c'⟩, hr, h⟩ := bind_eq_ok.mp h
  cases h
  obtain ⟨hvr, hx, hch, hsub⟩ := EPollPoller.removeChannel_registers hr
  split at hv
  · rename_i hst
    have hwv : w.RegistersOnly v := registersRule.disconnect hv
    exact ⟨hwv.trans hvr, hx, hwv.fd_eq ▸ hch, fun hn => absurd hst hn, fun hn => absurd hst hn⟩
  · cases hv
    exact ⟨hvr, hx, hch, fun _ => rfl, fun _ => hsub⟩

theorem handleWrite_state {w w' : LoopConn} {k : WriteOutcome} (h : w.handleWrite k = .ok w') :
    w'.tcp.state_ = w.tcp.state_ := by
  unfold handleWrite at h
  split at h
  · obtain ⟨r, -, h⟩ := bind_eq_ok.mp h
    simp only at h
    split at h
    · split at h
      · obtain ⟨v, hv, h⟩ := bind_eq_ok.mp h
        obtain ⟨⟨p, c⟩, -, hv⟩ := bind_eq_ok.mp hv
        cases hv
        cases h
        split
        · rw [(shutdownInLoop_tcp _).1, noteWriteComplete_tcp]
          rfl
        · rw [noteWriteComplete_tcp]
          rfl
      · cases h
        rfl
    · cases h
      rfl
  · cases h
    rfl

/-- User code does nothing to a connection that is not connected. -/
theorem idleUserRule : UserRule fun w w' => w.tcp.state_ ≠ .kConnected →
    w'.tcp.state_ = w.tcp.state_ ∧ w'.tcp.channel_ = w.tcp.channel_ ∧ w'.poller = w.poller where
  refl _ _ := ⟨rfl, rfl, rfl⟩
  trans {u v w} h h' hst := by
    obtain ⟨hv, hc, hp⟩ := h hst
    obtain ⟨hw, hc', hp'⟩ := h' (hv ▸ hst)
    exact ⟨hw.trans hv, hc'.trans hc, hp'.trans hp⟩
  send {w w' d k} h hst := by
    rw [send, if_neg hst] at h
    cases h
    exact ⟨rfl, rfl, rfl⟩
  shutdown w hst := by
    rw [shutdown, if_neg hst]
    exact ⟨rfl, rfl, rfl⟩
  setInput _ _ _ := ⟨rfl, rfl, rfl⟩

end LoopConn

end MyMuduo
