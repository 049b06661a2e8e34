import MyMuduo.EventLoop

/-! A loop that goes to sleep has no work: what was queued, or the order to quit,
has reached the wakeup descriptor or is about to. -/

namespace MyMuduo

namespace EventLoop

variable {F : Type}

/-- A wakeup has been written, or a thread that must write it is on its way. -/
def Notified (l : EventLoop F) : Prop :=
  0 < l.wakeupFd_ ∨ (∃ t, t ≠ l.threadId_ ∧ (l.requests t = .pushed ∨ l.requests t = .stored)) ∨
    (l.requests l.threadId_ = .pushed ∧ l.callingPendingFunctors_ = true)

/-- The loop's own thread is in a channel's callback or in a functor; or outside
`loop()`, where `early` admits it. -/
def OwnPlace (early : Prop) (l : EventLoop F) : Prop :=
  (∃ b, l.pc = .dispatching b) ∨ l.pc = .running true ∨ early ∧ l.pc = .outside

structure WakeInv (early : Prop) (l : EventLoop F) : Prop where
  calling_iff : l.callingPendingFunctors_ = true ↔ l.pc = .calling ∨ ∃ b, l.pc = .running b
  own_turn : l.requests l.threadId_ ≠ .idle → l.OwnPlace early
  pending_due : l.pendingFunctors_ ≠ [] →
    l.Notified ∨ (∃ b, l.pc = .dispatching b) ∨ l.pc = .calling ∨ early ∧ l.pc = .outside
  quit_due : l.pc = .polling → l.quit_ = true → l.Notified

/-- Requests of the loop's own thread are made inside `loop()`. -/
def InsideLoop (l : EventLoop F) : LoopAction F → Prop
  | .queueInLoop t _ => t = l.threadId_ → l.pc ≠ .outside
  | .quit t => t = l.threadId_ → l.pc ≠ .outside
  | _ => True

/-- `loop()` is entered with functors queued only when something will wake it. -/
def EntersAwake (l : EventLoop F) : LoopAction F → Prop
  | .loop => l.pendingFunctors_ ≠ [] → l.Notified
  | _ => True

/-- While the loop's own thread is in no request, only the counter and the other
threads can have notified it. -/
theorem Notified.of_loop {l l' : EventLoop F} (h : l.Notified) (hi : l.requests l.threadId_ = .idle)
    (hc : l'.wakeupFd_ = l.wakeupFd_) (hr : l'.requests = l.requests) (ht : l'.threadId_ = l.threadId_) :
    l'.Notified := by
  unfold Notified
  rw [hc, hr, ht]
  rcases h with h | h | ⟨h, -⟩
  · exact Or.inl h
  · exact Or.inr (Or.inl h)
  · rw [hi] at h
    cases h

/-- The steps of the loop's own thread leave the requests alone, and, the reading
of the wakeup descriptor apart, the notifications. -/
theorem wakeInv_of_own {early : Prop} {l l' : EventLoop F}
    (hown : l.requests l.threadId_ = .idle) (hc : l'.wakeupFd_ = l.wakeupFd_) (hr : l'.requests = l.requests)
    (ht : l'.threadId_ = l.threadId_) (hp : l'.pendingFunctors_ = l.pendingFunctors_)
    (hdue : l.pendingFunctors_ ≠ [] → l.Notified ∨ (∃ b, l'.pc = .dispatching b) ∨ l'.pc = .calling)
    (hcall : l'.callingPendingFunctors_ = true ↔ l'.pc = .calling ∨ ∃ b, l'.pc = .running b)
    (hquit : l'.pc = .polling → l'.quit_ = true → l.Notified) : l'.WakeInv early := by
  refine ⟨hcall, fun hh => absurd (by rw [hr, ht]; exact hown) hh, fun hh => ?_, fun h hq =>
    (hquit h hq).of_loop hown hc hr ht⟩
  rcases hdue (hp ▸ hh) with hn | hd | hd
  · exact Or.inl (hn.of_loop hown hc hr ht)
  · exact Or.inr (Or.inl hd)
  · exact Or.inr (Or.inr (Or.inl hd))

theorem ownStep_wakeInv {early : Prop} {l l' : EventLoop F} {a : LoopAction F} (hi : l.WakeInv early)
    (henter : early → l.EntersAwake a) (hown : l.requests l.threadId_ = .idle) (h : l.OwnStep a l') :
    l'.WakeInv early := by
  have hcall := hi.calling_iff
  have hpend := hi.pending_due
  cases h with
  | loop hpc =>
    refine wakeInv_of_own hown rfl rfl rfl rfl (fun hh => Or.inl ?_) (by simpa [hpc] using hcall) (by simp)
    rcases hpend hh with hn | ⟨b, hb⟩ | hb | ⟨he, -⟩
    · exact hn
    · simp [hpc] at hb
    · simp [hpc] at hb
    · exact henter he hh
  | start hpc =>
    exact wakeInv_of_own hown rfl rfl rfl rfl (fun hh => Or.inl ((hpend hh).resolve_right (by simp [hpc])))
      (by simpa [hpc] using hcall) (by simp)
  | leave hpc hq =>
    exact wakeInv_of_own hown rfl rfl rfl rfl (fun hh => Or.inl ((hpend hh).resolve_right (by simp [hpc])))
      (by simpa [hpc] using hcall) (by simp)
  | stay hpc hq =>
    exact wakeInv_of_own hown rfl rfl rfl rfl (fun hh => Or.inl ((hpend hh).resolve_right (by simp [hpc])))
      (by simpa [hpc] using hcall) (by simp [hq])
  | poll hpc hw =>
    exact wakeInv_of_own hown rfl rfl rfl rfl (fun _ => Or.inr (Or.inl ⟨_, rfl⟩)) (by simpa [hpc] using hcall) (by simp)
  | handleRead hpc =>
    exact ⟨by simpa [hpc] using hcall, fun hh => absurd hown hh, fun _ => Or.inr (Or.inl ⟨_, rfl⟩), by simp⟩
  | doPendingFunctors hpc =>
    exact wakeInv_of_own hown rfl rfl rfl rfl (fun _ => Or.inr (Or.inr rfl)) (by simp) (by simp)
  | swap hpc =>
    exact ⟨by simpa [hpc] using hcall, fun hh => absurd hown hh, fun hh => absurd rfl hh, by simp⟩
  | call hpc hpop =>
    exact wakeInv_of_own hown rfl rfl rfl (Handoff.pop_eq hpop).2.2
      (fun hh => Or.inl ((hpend hh).resolve_right (by simp [hpc]))) (by simpa [hpc] using hcall) (by simp)
  | ret hpc =>
    exact wakeInv_of_own hown rfl rfl rfl rfl (fun hh => Or.inl ((hpend hh).resolve_right (by simp [hpc])))
      (by simpa [hpc] using hcall) (by simp)
  | finish hpc hb =>
    exact wakeInv_of_own hown rfl rfl rfl rfl (fun hh => Or.inl ((hpend hh).resolve_right (by simp [hpc])))
      (by simp) (by simp)

theorem mayRequest_own {early : Prop} {l : EventLoop F} (h : l.mayRequest l.threadId_ = true)
    (hpc : early ∨ l.pc ≠ .outside) : l.OwnPlace early := by
  simp only [mayRequest, isInLoopThread, beq_self_eq_true, Bool.not_true, Bool.false_or, ownTurn] at h
  split at h
  · rename_i ho
    exact Or.inr (Or.inr ⟨hpc.resolve_right fun hh => hh ho, ho⟩)
  · rename_i b he
    exact Or.inl ⟨b, he⟩
  · rename_i he
    exact Or.inr (Or.inl he)
  · cases h

/-- The request of one thread has moved on, and nothing was announced by it before. -/
theorem Notified.of_setRequest {l : EventLoop F} {t : Tid} {r : Request F} (h : l.Notified)
    (hp : l.requests t ≠ .pushed) (hs : l.requests t ≠ .stored) : (l.setRequest t r).Notified := by
  rcases h with h | ⟨t', hne, ht'⟩ | ⟨h, hc⟩
  · exact Or.inl h
  · refine Or.inr (Or.inl ⟨t', hne, ?_⟩)
    have htt : t' ≠ t := by
      rintro rfl
      exact ht'.elim hp hs
    simpa [setRequest, Function.update_of_ne htt] using ht'
  · refine Or.inr (Or.inr ⟨?_, hc⟩)
    have htt : l.threadId_ ≠ t := by
      intro he
      exact hp (he ▸ h)
    simpa [setRequest, Function.update_of_ne htt] using h

/-- A thread that has pushed or stored announces it, unless it is the loop's own
and will find the queue or the flag by itself. -/
theorem notified_of_other {l : EventLoop F} {t : Tid} {r : Request F} (hne : t ≠ l.threadId_)
    (hr : r = .pushed ∨ r = .stored) : (l.setRequest t r).Notified := by
  refine Or.inr (Or.inl ⟨t, hne, ?_⟩)
  simpa [setRequest] using hr

theorem own_turn_setRequest {early : Prop} {l : EventLoop F} {t : Tid} {r : Request F} (hi : l.WakeInv early)
    (ht : t = l.threadId_ → l.OwnPlace early) :
    (l.setRequest t r).requests l.threadId_ ≠ .idle → l.OwnPlace early := by
  by_cases he : t = l.threadId_
  · exact fun _ => ht he
  · simpa [setRequest, Function.update_of_ne (Ne.symm he)] using hi.own_turn

theorem push_wakeInv {early : Prop} {l : EventLoop F} {t : Tid} {cb : F} (hi : l.WakeInv early)
    (hr : l.requests t = .queueing cb) : WakeInv early
      { l.setRequest t .pushed with queue := l.queue.push (t, cb), queued := l.queued ++ [(t, cb)] } := by
  have hturn : t = l.threadId_ → l.OwnPlace early := by
    rintro rfl
    exact hi.own_turn (by simp [hr])
  refine ⟨hi.calling_iff, own_turn_setRequest hi hturn, fun _ => ?_, fun hpc hq => ?_⟩
  · by_cases ht : t = l.threadId_
    · rcases hturn ht with hd | hrun | hout
      · exact Or.inr (Or.inl hd)
      · exact Or.inl (Or.inr (Or.inr ⟨by simp [setRequest, ht], hi.calling_iff.mpr (Or.inr ⟨true, hrun⟩)⟩))
      · exact Or.inr (Or.inr (Or.inr hout))
    · exact Or.inl (notified_of_other ht (Or.inl rfl))
  · exact (hi.quit_due hpc hq).of_setRequest (by simp [hr]) (by simp [hr])

/-- The write to the wakeup descriptor, or its absence, ends a request. -/
theorem wakeup_wakeInv {early : Prop} {l : EventLoop F} {t : Tid} {due : Bool} (hi : l.WakeInv early)
    (hdue : due = true ↔ t ≠ l.threadId_ ∨ (l.requests t = .pushed ∧ l.callingPendingFunctors_ = true)) :
    WakeInv early (if due = true then (l.setRequest t .idle).writeWakeup else l.setRequest t .idle) := by
  have hown : (l.setRequest t .idle).requests l.threadId_ ≠ .idle → l.OwnPlace early := by
    intro hh
    by_cases he : t = l.threadId_
    · simp [setRequest, he] at hh
    · exact own_turn_setRequest hi (fun h => absurd h he) hh
  by_cases hd : due = true
  · rw [if_pos hd]
    have hn : ((l.setRequest t .idle).writeWakeup).Notified := Or.inl (eventfdWrite_pos _)
    exact ⟨hi.calling_iff, hown, fun _ => Or.inl hn, fun _ _ => hn⟩
  · rw [if_neg hd]
    have hself : t = l.threadId_ := by
      by_contra hne
      exact hd (hdue.mpr (Or.inl hne))
    have hn : l.Notified → (l.setRequest t .idle).Notified := by
      rintro (h | ⟨t', hne, ht'⟩ | ⟨h, hc⟩)
      · exact Or.inl h
      · refine Or.inr (Or.inl ⟨t', hne, ?_⟩)
        simpa [setRequest, Function.update_of_ne (hself ▸ hne : t' ≠ t)] using ht'
      · exact absurd (hdue.mpr (Or.inr ⟨hself ▸ h, hc⟩)) hd
    exact ⟨hi.calling_iff, hown, fun hh => (hi.pending_due hh).imp_left hn, fun hpc hq => hn (hi.quit_due hpc hq)⟩

theorem requestStep_wakeInv {early : Prop} {l l' : EventLoop F} {a : LoopAction F} (hi : l.WakeInv early)
    (hin : early ∨ l.InsideLoop a) (h : l.RequestStep a l') : l'.WakeInv early := by
  cases h with
  | @queueInLoop t cb hr hm =>
    have hturn : t = l.threadId_ → l.OwnPlace early := by
      rintro rfl
      exact mayRequest_own hm (hin.imp_right fun hh => hh rfl)
    exact ⟨hi.calling_iff, own_turn_setRequest hi hturn,
      fun hh => (hi.pending_due hh).imp_left fun hn => hn.of_setRequest (by simp [hr]) (by simp [hr]),
      fun hpc hq => (hi.quit_due hpc hq).of_setRequest (by simp [hr]) (by simp [hr])⟩
  | push hr => exact push_wakeInv hi hr
  | @quit t hr hm =>
    have hturn : t = l.threadId_ → l.OwnPlace early := by
      rintro rfl
      exact mayRequest_own hm (hin.imp_right fun hh => hh rfl)
    refine ⟨hi.calling_iff, own_turn_setRequest hi hturn,
      fun hh => (hi.pending_due hh).imp_left fun hn => hn.of_setRequest (by simp [hr]) (by simp [hr]), ?_⟩
    intro hpc _
    have hpc : l.pc = .polling := hpc
    have hne : t ≠ l.threadId_ := by
      intro he
      rcases hturn he with ⟨b, hb⟩ | hb | ⟨-, hb⟩
      · simp [hpc] at hb
      · simp [hpc] at hb
      · simp [hpc] at hb
    exact notified_of_other hne (Or.inr rfl)
  | wakeup due hr hdue => exact wakeup_wakeInv hi hdue

theorem step_wakeInv {early : Prop} {l l' : EventLoop F} {a : LoopAction F} (hi : l.WakeInv early)
    (henter : early → l.EntersAwake a) (hin : early ∨ l.InsideLoop a) (h : l.Step a l') : l'.WakeInv early := by
  rcases step_cases h with ⟨hown, hs⟩ | hs
  · exact ownStep_wakeInv hi henter hown hs
  · exact requestStep_wakeInv hi hin hs

theorem new_wakeInv (early : Prop) (tid : Tid) : (new tid : EventLoop F).WakeInv early :=
  ⟨by simp [new], fun hh => absurd rfl hh, fun hh => absurd rfl hh, by simp [new]⟩

/-- A loop that is about to sleep over a queued functor or an order to quit. -/
theorem WakeInv.awake {early : Prop} {l : EventLoop F} (hi : l.WakeInv early) (hpc : l.pc = .polling)
    (hdue : l.pendingFunctors_ ≠ [] ∨ l.quit_ = true) :
    0 < l.wakeupFd_ ∨ ∃ t, t ≠ l.threadId_ ∧ (l.requests t = .pushed ∨ l.requests t = .stored) := by
  have hn : l.Notified := by
    rcases hdue with hp | hq
    · exact (hi.pending_due hp).resolve_right (by simp [hpc])
    · exact hi.quit_due hpc hq
  rcases hn with hn | hn | ⟨hown, -⟩
  · exact Or.inl hn
  · exact Or.inr hn
  · have hplace := hi.own_turn (by simp [hown])
    simp [OwnPlace, hpc] at hplace

/-- Whenever the loop is about to sleep, or sleeps, over a queued functor or an
order to quit, the wakeup descriptor is readable or another thread is about to
write it. -/
theorem no_lost_wakeup {tid : Tid} {l : EventLoop F} {as : List (LoopAction F)}
    (hr : Run (Guarded Step InsideLoop) (new tid) as l) (hpc : l.pc = .polling)
    (hdue : l.pendingFunctors_ ≠ [] ∨ l.quit_ = true) :
    0 < l.wakeupFd_ ∨ ∃ t, t ≠ l.threadId_ ∧ (l.requests t = .pushed ∨ l.requests t = .stored) := by
  have hi : l.WakeInv False := hr.invariant (I := WakeInv False)
    (fun _ _ _ h hs => step_wakeInv h False.elim (Or.inr hs.1) hs.2) (new_wakeInv False tid)
  exact hi.awake hpc hdue

/-- Another thread pushes while the loop is about to poll. -/
theorem no_lost_wakeup_pushed : ∃ l : EventLoop Unit,
    Run (Guarded Step InsideLoop) (new 0) [.loop, .start, .test, .queueInLoop 1 (), .push 1] l ∧
    l.pc = .polling ∧ l.pendingFunctors_ = [(1, ())] ∧
    (0 < l.wakeupFd_ ∨ ∃ t, t ≠ l.threadId_ ∧ (l.requests t = .pushed ∨ l.requests t = .stored)) := by
  have hr : Run (Guarded Step InsideLoop) (new 0 : EventLoop Unit)
      [.loop, .start, .test, .queueInLoop 1 (), .push 1] _ :=
    .cons ⟨trivial, rfl⟩ <| .cons ⟨trivial, rfl⟩ <| .cons ⟨trivial, rfl⟩ <|
      .cons ⟨fun h => absurd h (by decide), rfl⟩ <| .cons ⟨trivial, rfl⟩ .nil
  exact ⟨_, hr, rfl, rfl, no_lost_wakeup hr rfl (Or.inl (List.cons_ne_nil _ _))⟩

end EventLoop

end MyMuduo
