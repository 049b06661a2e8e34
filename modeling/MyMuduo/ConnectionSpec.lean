import MyMuduo.TcpConnection

/-! What each operation of a connection does to its buffer, its registration and
its calls, from a state in which write interest and pending output go together. -/

namespace MyMuduo

namespace Memory

@[simp] theorem read_length (memory : Memory) (a : Addr) (n : Nat) : (memory.read a n).length = n := by
  induction n generalizing a with
  | zero => rfl
  | succ n ih => simp [Memory.read, ih]

theorem read_append (memory : Memory) (a : Addr) (n m : Nat) :
    memory.read a (n + m) = memory.read a n ++ memory.read (a + n) m := by
  induction n generalizing a with
  | zero => simp [Memory.read]
  | succ n ih =>
    rw [show n + 1 + m = (n + m) + 1 by omega, Memory.read, ih, Memory.read, List.cons_append]
    rw [show a + 1 + (n : Int) = a + ((n + 1 : Nat) : Int) by rw [Int.add_assoc, Int.add_comm 1, Int.natCast_succ]]

end Memory

namespace Span

@[simp] theorem read_length (d : Span) (offset : Int) (n : Nat) : (d.read offset n).length = n :=
  Memory.read_length _ _ _

@[simp] theorem bytes_length (d : Span) : d.bytes.length = d.len :=
  Memory.read_length _ _ _

/-- The argument falls into what was written and the tail behind it. -/
theorem bytes_split (d : Span) {n : Nat} (hn : n ≤ d.len) :
    d.bytes = d.read 0 n ++ d.read n (d.len - n) := by
  have h := Memory.read_append d.memory d.data n (d.len - n)
  rw [show n + (d.len - n) = d.len by omega] at h
  simpa [bytes, read] using h

theorem bytes_take (d : Span) {n : Nat} (hn : n ≤ d.len) : d.bytes.take n = d.read 0 n := by
  rw [d.bytes_split hn, List.take_left' (by simp)]

/-- The string "ab". -/
def ab : Span := ⟨fun a => if a = 0 then 97 else 98, 0, 2, by decide +kernel⟩

end Span

/-- A descriptor that the poller does not know. -/
def EPollPoller.Unused (p : EPollPoller) (fd : Fd) : Prop := p.channels_ fd = none ∧ p.epollfd_ fd = none

namespace LoopConn

/-- The bytes waiting in `outputBuffer_`. -/
def pending (w : LoopConn) : List Byte := w.tcp.outputBuffer_.readable

@[simp] theorem call_pending (w : LoopConn) (c : ConnCall) : (w.call c).pending = w.pending := rfl

/-- In step with the poller, and wanting to write only with something to write. -/
structure Sound (w : LoopConn) : Prop where
  agrees : Agrees w.poller w.tcp.channel_
  output_inv : w.tcp.outputBuffer_.Inv
  busy : w.isWriting = true → w.pending ≠ []

/-- What holds between the operations of a connection on its own thread: it wants
to write exactly while it has something to write. -/
structure Steady (w : LoopConn) : Prop where
  agrees : Agrees w.poller w.tcp.channel_
  output_inv : w.tcp.outputBuffer_.Inv
  writing_iff : w.tcp.state_ ≠ .kDisconnected → (w.isWriting = true ↔ w.pending ≠ [])
  closed : w.tcp.state_ = .kDisconnected → w.isWriting = false

/-- The object and its descriptor stay, and no other descriptor is touched. -/
structure Kept (w w' : LoopConn) : Prop where
  self_eq : w'.tcp.channel_.self = w.tcp.channel_.self
  fd_eq : w'.tcp.channel_.fd_ = w.tcp.channel_.fd_
  changed : ChangedAt w.tcp.channel_.fd_ w.poller w'.poller
  agrees : Agrees w'.poller w'.tcp.channel_

theorem Kept.refl {w : LoopConn} (h : Agrees w.poller w.tcp.channel_) : w.Kept w :=
  ⟨rfl, rfl, ChangedAt.refl _ _, h⟩

theorem Kept.trans {u v w : LoopConn} (h : u.Kept v) (h' : v.Kept w) : u.Kept w :=
  ⟨h'.self_eq.trans h.self_eq, h'.fd_eq.trans h.fd_eq, h.changed.trans (h.fd_eq ▸ h'.changed), h'.agrees⟩

theorem Steady.sound {w : LoopConn} (h : w.Steady) : w.Sound := by
  refine ⟨h.agrees, h.output_inv, fun hw => ?_⟩
  by_cases hst : w.tcp.state_ = .kDisconnected
  · rw [h.closed hst] at hw
    cases hw
  · exact (h.writing_iff hst).mp hw

theorem Sound.isWriting_eq_false {w : LoopConn} (h : w.Sound) (hn : w.pending = []) : w.isWriting = false := by
  by_contra hw
  exact h.busy (by simpa using hw) hn

theorem Sound.readableBytes_eq_zero {w : LoopConn} (h : w.Sound) :
    w.tcp.outputBuffer_.readableBytes = 0 ↔ w.pending = [] :=
  h.output_inv.readableBytes_eq_zero

theorem Steady.pending_eq_nil {w : LoopConn} (h : w.Steady) (hs : w.tcp.state_ ≠ .kDisconnected) :
    w.isWriting = false ↔ w.pending = [] := by
  rw [← Bool.not_eq_true, h.writing_iff hs]
  exact not_not

/-- Setting the events of the channel, from a state in step with the poller. -/
theorem onChannel_update {w w' : LoopConn} {f : Channel → EPollPoller → Except Fault (EPollPoller × Channel)}
    {e : Events} (ha : Agrees w.poller w.tcp.channel_)
    (hf : f w.tcp.channel_ w.poller = w.poller.updateChannel { w.tcp.channel_ with events_ := e })
    (h : w.onChannel f = .ok w') :
    ∃ p' c', w' = w.setChannel p' c' ∧ c' = { w.tcp.channel_ with
      events_ := e, index_ := EPollPoller.updatedIndex { w.tcp.channel_ with events_ := e } } ∧ w.Kept w' := by
  obtain ⟨p', c', hu, hc, ha', hch⟩ := EPollPoller.updateChannel_spec ha e
  rw [onChannel, hf, hu, ok_bind] at h
  cases h
  exact ⟨p', c', rfl, hc, by rw [hc]; rfl, by rw [hc]; rfl, hch, ha'⟩

theorem enableReading_spec {w w' : LoopConn} (ha : Agrees w.poller w.tcp.channel_)
    (h : w.onChannel Channel.enableReading = .ok w') :
    ∃ p' c', w' = w.setChannel p' c' ∧ c'.isWriting = w.isWriting ∧ c'.index_ = .kAdded ∧ w.Kept w' := by
  obtain ⟨p', c', hw, hc, hk⟩ := onChannel_update ha rfl h
  refine ⟨p', c', hw, Channel.isWriting_of_read (by rw [hc]), ?_, hk⟩
  rw [hc]
  exact EPollPoller.updatedIndex_eq_kAdded (Channel.isNoneEvent_of_or rfl)

theorem enableWriting_spec {w w' : LoopConn} (ha : Agrees w.poller w.tcp.channel_)
    (h : w.onChannel Channel.enableWriting = .ok w') :
    ∃ p' c', w' = w.setChannel p' c' ∧ c'.isWriting = true ∧ c'.index_ = .kAdded ∧ w.Kept w' := by
  obtain ⟨p', c', hw, hc, hk⟩ := onChannel_update ha rfl h
  refine ⟨p', c', hw, Channel.isWriting_of_or (by rw [hc]), ?_, hk⟩
  rw [hc]
  exact EPollPoller.updatedIndex_eq_kAdded (Channel.isNoneEvent_of_isWriting (Channel.isWriting_of_or rfl))

theorem disableWriting_spec {w w' : LoopConn} (ha : Agrees w.poller w.tcp.channel_)
    (h : w.onChannel Channel.disableWriting = .ok w') :
    ∃ p' c', w' = w.setChannel p' c' ∧ c'.isWriting = false ∧ w.Kept w' := by
  obtain ⟨p', c', hw, hc, hk⟩ := onChannel_update ha rfl h
  exact ⟨p', c', hw, Channel.isWriting_of_and (by rw [hc]), hk⟩

theorem disableAll_spec {w w' : LoopConn} (ha : Agrees w.poller w.tcp.channel_)
    (h : w.onChannel Channel.disableAll = .ok w') :
    ∃ p' c', w' = w.setChannel p' c' ∧ c'.events_ = kNoneEvent ∧ w.Kept w' := by
  obtain ⟨p', c', hw, hc, hk⟩ := onChannel_update ha rfl h
  exact ⟨p', c', hw, by rw [hc], hk⟩

theorem remove_spec {w w' : LoopConn} (ha : Agrees w.poller w.tcp.channel_)
    (h : w.onChannel Channel.remove = .ok w') :
    ∃ p', w' = w.setChannel p' { w.tcp.channel_ with index_ := .kNew } ∧ w.Kept w' := by
  obtain ⟨p', hu, ha', hch⟩ := EPollPoller.removeChannel_spec ha
  rw [onChannel, Channel.remove, hu, ok_bind] at h
  cases h
  exact ⟨p', rfl, rfl, rfl, hch, ha'⟩

@[simp] theorem noteHighWater_tcp (w : LoopConn) (n : Nat) : (w.noteHighWater n).tcp = w.tcp := by
  dsimp only [noteHighWater]
  split <;> rfl

@[simp] theorem noteHighWater_poller (w : LoopConn) (n : Nat) : (w.noteHighWater n).poller = w.poller := by
  dsimp only [noteHighWater]
  split <;> rfl

theorem noteHighWater_calls (w : LoopConn) (n : Nat) :
    ∃ notes, (∀ c ∈ notes, ∃ m, c = ConnCall.highWaterMark m) ∧ (w.noteHighWater n).calls = w.calls ++ notes := by
  dsimp only [noteHighWater]
  split
  · exact ⟨_, fun c hc => ⟨_, List.mem_singleton.mp hc⟩, rfl⟩
  · exact ⟨[], by simp, by simp⟩

/-- What `bufferTail` has done when it returns. -/
structure Buffered (w w' : LoopConn) (d : Span) (nwrote : Int) (remaining : Nat) : Prop where
  kept : w.Kept w'
  state_eq : w'.tcp.state_ = w.tcp.state_
  output_inv : w'.tcp.outputBuffer_.Inv
  pending_eq : w'.pending = w.pending ++ d.read nwrote remaining
  writing : w'.isWriting = true
  index_eq : w.isWriting = true ∧ w'.tcp.channel_.index_ = w.tcp.channel_.index_ ∨
    w'.tcp.channel_.index_ = .kAdded
  calls_eq : ∃ notes, (∀ c ∈ notes, ∃ m, c = ConnCall.highWaterMark m) ∧
    w'.calls = w.calls ++ notes ++ [.buffered nwrote remaining d.len]

theorem bufferTail_spec {w w' : LoopConn} {d : Span} {nwrote : Int} {remaining : Nat}
    (ha : Agrees w.poller w.tcp.channel_) (hb : w.tcp.outputBuffer_.Inv) (hr : remaining ≤ d.len)
    (h : w.bufferTail d nwrote remaining = .ok w') : w.Buffered w' d nwrote remaining := by
  obtain ⟨b, hap, h⟩ := bind_eq_ok.mp h
  obtain ⟨notes, hnotes, hcalls⟩ := w.noteHighWater_calls remaining
  rw [noteHighWater_tcp] at hap
  have hlen : (d.read nwrote remaining).length ≤ maxSize := by
    rw [Span.read_length]
    exact Nat.le_trans hr d.len_le
  obtain ⟨hi, hq⟩ := Buffer.Appended.of_append hb hlen hap
  generalize hv : ((w.noteHighWater remaining).setOutput b).call (.buffered nwrote remaining d.len) = v at h
  have hch : v.tcp.channel_ = w.tcp.channel_ := by simp [← hv, call, setOutput]
  have hpo : v.poller = w.poller := by simp [← hv, call, setOutput]
  have hst : v.tcp.state_ = w.tcp.state_ := by simp [← hv, call, setOutput]
  have hout : v.tcp.outputBuffer_ = b := by simp [← hv, call, setOutput]
  have hca : v.calls = w.calls ++ notes ++ [.buffered nwrote remaining d.len] := by
    simp [← hv, call, setOutput, hcalls]
  have hav : Agrees v.poller v.tcp.channel_ := by rw [hch, hpo]; exact ha
  have hkv : w.Kept v := ⟨by rw [hch], by rw [hch], by rw [hpo]; exact ChangedAt.refl _ _, hav⟩
  cases hw : v.isWriting with
  | true =>
    simp only [hw] at h
    cases h
    exact ⟨hkv, hst, by rw [hout]; exact hi, by rw [pending, hout, hq]; rfl, hw,
      Or.inl ⟨by rw [isWriting, ← hch]; exact hw, by rw [hch]⟩, notes, hnotes, hca⟩
  | false =>
    simp only [hw] at h
    obtain ⟨p', c', rfl, hwr, hix, hk⟩ := enableWriting_spec hav h
    exact ⟨hkv.trans hk, hst, by simpa only [setChannel, hout] using hi,
      by simp only [pending, setChannel, hout, hq], hwr, Or.inr hix, notes, hnotes, hca⟩

@[simp] theorem directWrite_fails (w : LoopConn) (d : Span) (e : Errno) :
    w.directWrite d (.fails e) = (w.call (.write []), ⟨-1, d.len, false⟩) := rfl

/-- A write that returned a count either sent everything, with a functor to
queue, or goes on with `nwrote` reset. -/
theorem directWrite_accepts (w : LoopConn) (d : Span) (room : Nat) (e : Errno) :
    w.directWrite d (.accepts room e) =
      if d.len ≤ room ∧ w.tcp.writeCompleteCallback_ = true then
        ((w.call (.write (d.bytes.take room))).call .writeComplete, ⟨min room d.len, 0, false⟩)
      else (w.call (.write (d.bytes.take room)),
        ⟨0, d.len - room, e ≠ EWOULDBLOCK ∧ (e = EPIPE ∨ e = ECONNRESET)⟩) := by
  have hn : (0 : Int) ≤ min (room : Int) d.bytes.length := by omega
  have hsub : szSub d.len (min (room : Int) d.bytes.length).toNat = d.len - room := by
    rw [szSub_eq (by rw [Span.bytes_length]; omega), Span.bytes_length]
    omega
  have hz : d.len - room = 0 ↔ d.len ≤ room := by omega
  simp only [directWrite, sysWrite, hn, if_true, hsub, hz]
  by_cases hc : d.len ≤ room ∧ w.tcp.writeCompleteCallback_ = true
  · have hc' : d.len ≤ room ∧ (w.call (.write (d.bytes.take room))).tcp.writeCompleteCallback_ = true := hc
    rw [if_pos hc, if_pos hc', hz.mpr hc.1, Span.bytes_length]
  · have hc' : ¬ (d.len ≤ room ∧ (w.call (.write (d.bytes.take room))).tcp.writeCompleteCallback_ = true) := hc
    rw [if_neg hc, if_neg hc']
    rfl

/-- With nothing pending the argument goes straight to the descriptor. -/
theorem firstWrite_of_nil {w : LoopConn} (hs : w.Sound) (hn : w.pending = []) (d : Span) (k : WriteOutcome) : w.firstWrite d k = w.directWrite d k := by
  rw [firstWrite, if_pos]
  exact ⟨by rw [hs.isWriting_eq_false hn]; rfl, hs.readableBytes_eq_zero.mpr hn⟩

theorem firstWrite_of_pending {w : LoopConn} (hs : w.Sound) (hn : w.pending ≠ []) (d : Span)
    (k : WriteOutcome) : w.firstWrite d k = (w, ⟨0, d.len, false⟩) := by
  rw [firstWrite, if_neg]
  exact fun h => hn (hs.readableBytes_eq_zero.mp h.2)

/-- What the first attempt of a send may have called. -/
theorem firstWrite_fst (w : LoopConn) (d : Span) (k : WriteOutcome) :
    (w.firstWrite d k).1.tcp = w.tcp ∧ (w.firstWrite d k).1.poller = w.poller ∧
      (w.firstWrite d k).2.remaining ≤ d.len := by
  unfold firstWrite
  split
  · cases k with
    | fails e => exact ⟨rfl, rfl, Nat.le_refl _⟩
    | accepts room e =>
      rw [directWrite_accepts]
      split
      · exact ⟨rfl, rfl, Nat.zero_le _⟩
      · exact ⟨rfl, rfl, Nat.sub_le _ _⟩
  · exact ⟨rfl, rfl, Nat.le_refl _⟩

/-- A send on a live connection makes its first attempt, and buffers what the
attempt says is left unless it saw a fault. -/
theorem sendInLoop_cases {w w' : LoopConn} {d : Span} {k : WriteOutcome} (hs : w.Sound)
    (hst : w.tcp.state_ ≠ .kDisconnected) (h : w.sendInLoop d k = .ok w') :
    (((w.firstWrite d k).2.faultError = true ∨ (w.firstWrite d k).2.remaining = 0) ∧
        w' = (w.firstWrite d k).1) ∨
      ((w.firstWrite d k).2.faultError = false ∧ 0 < (w.firstWrite d k).2.remaining ∧
        (w.firstWrite d k).1.Buffered w' d (w.firstWrite d k).2.nwrote (w.firstWrite d k).2.remaining) := by
  obtain ⟨htcp, hpo, hle⟩ := w.firstWrite_fst d k
  rw [sendInLoop, if_neg hst] at h
  generalize w.firstWrite d k = a at h htcp hpo hle ⊢
  obtain ⟨v, r⟩ := a
  simp only at h htcp hpo hle ⊢
  split at h
  · rename_i hc
    exact Or.inr ⟨hc.1, hc.2, bufferTail_spec (by rw [htcp, hpo]; exact hs.agrees)
      (by rw [htcp]; exact hs.output_inv) hle h⟩
  · rename_i hc
    cases h
    refine Or.inl ⟨?_, rfl⟩
    cases hf : r.faultError with
    | true => exact Or.inl rfl
    | false => exact Or.inr (by simpa [hf] using hc)

theorem Buffered.pending_ne_nil {w w' : LoopConn} {d : Span} {nwrote : Int} {remaining : Nat}
    (h : w.Buffered w' d nwrote remaining) (hr : 0 < remaining) : w'.pending ≠ [] := by
  intro he
  have hl := congrArg List.length (h.pending_eq ▸ he)
  rw [List.length_append, Span.read_length, List.length_nil] at hl
  omega

theorem Sound.of_eq {w w' : LoopConn} (h : w.Sound) (htcp : w'.tcp = w.tcp) (hpo : w'.poller = w.poller) :
    w'.Sound := by
  obtain ⟨ha, hi, hb⟩ := h
  exact ⟨by rw [htcp, hpo]; exact ha, by rw [htcp]; exact hi, by rw [pending, isWriting, htcp]; exact hb⟩

theorem Steady.of_eq {w w' : LoopConn} (h : w.Steady) (htcp : w'.tcp = w.tcp) (hpo : w'.poller = w.poller) :
    w'.Steady := by
  obtain ⟨ha, hi, hw, hc⟩ := h
  exact ⟨by rw [htcp, hpo]; exact ha, by rw [htcp]; exact hi, by
    rw [pending, isWriting, htcp]; exact hw, by rw [isWriting, htcp]; exact hc⟩

theorem sendInLoop_sound {w w' : LoopConn} {d : Span} {k : WriteOutcome} (hs : w.Sound)
    (h : w.sendInLoop d k = .ok w') : w'.Sound ∧ w.Kept w' ∧ w'.tcp.state_ = w.tcp.state_ := by
  by_cases hst : w.tcp.state_ = .kDisconnected
  · rw [sendInLoop, if_pos hst] at h
    cases h
    exact ⟨hs, Kept.refl hs.agrees, rfl⟩
  · obtain ⟨htcp, hpo, -⟩ := w.firstWrite_fst d k
    have hk : w.Kept (w.firstWrite d k).1 :=
      ⟨by rw [htcp], by rw [htcp], by rw [hpo]; exact ChangedAt.refl _ _, by rw [htcp, hpo]; exact hs.agrees⟩
    rcases sendInLoop_cases hs hst h with ⟨-, rfl⟩ | ⟨-, hr, hb⟩
    · exact ⟨hs.of_eq htcp hpo, hk, by rw [htcp]⟩
    · exact ⟨⟨hb.kept.agrees, hb.output_inv, fun _ => hb.pending_ne_nil hr⟩, hk.trans hb.kept, by
        rw [hb.state_eq, htcp]⟩

theorem sendInLoop_steady {w w' : LoopConn} {d : Span} {k : WriteOutcome} (hs : w.Steady)
    (h : w.sendInLoop d k = .ok w') : w'.Steady ∧ w.Kept w' ∧ w'.tcp.state_ = w.tcp.state_ := by
  obtain ⟨hs', hk, hst'⟩ := sendInLoop_sound hs.sound h
  refine ⟨⟨hs'.agrees, hs'.output_inv, fun hst => ⟨hs'.busy, fun hn => ?_⟩, fun hst => ?_⟩, hk, hst'⟩
  · rw [hst'] at hst
    obtain ⟨htcp, -, -⟩ := w.firstWrite_fst d k
    rcases sendInLoop_cases hs.sound hst h with ⟨-, rfl⟩ | ⟨-, -, hb⟩
    · rw [pending, htcp] at hn
      rw [isWriting, htcp]
      exact (hs.writing_iff hst).mpr hn
    · exact hb.writing
  · rw [hst'] at hst
    rw [sendInLoop, if_pos hst] at h
    cases h
    exact hs.closed hst

/-- What `drained` has done when it returns. -/
structure Drained (w w' : LoopConn) : Prop where
  kept : w.Kept w'
  state_eq : w'.tcp.state_ = w.tcp.state_
  output_eq : w'.tcp.outputBuffer_ = w.tcp.outputBuffer_
  writing : w'.isWriting = false
  calls_eq : ∃ notes, (∀ c ∈ notes, c = ConnCall.writeComplete) ∧ w'.calls = w.calls ++ notes ++
    if w.tcp.state_ = .kDisconnecting then [.shutdownWrite w.tcp.outputBuffer_.readableBytes] else []

theorem noteWriteComplete_calls (w : LoopConn) :
    ∃ notes, (∀ c ∈ notes, c = ConnCall.writeComplete) ∧ w.noteWriteComplete.calls = w.calls ++ notes := by
  unfold noteWriteComplete
  split
  · exact ⟨_, fun c hc => List.mem_singleton.mp hc, rfl⟩
  · exact ⟨[], by simp, by simp⟩

@[simp] theorem noteWriteComplete_tcp (w : LoopConn) : w.noteWriteComplete.tcp = w.tcp := by
  unfold noteWriteComplete
  split <;> rfl

@[simp] theorem noteWriteComplete_poller (w : LoopConn) : w.noteWriteComplete.poller = w.poller := by
  unfold noteWriteComplete
  split <;> rfl

theorem drained_spec {w w' : LoopConn} (ha : Agrees w.poller w.tcp.channel_) (h : w.drained = .ok w') :
    w.Drained w' := by
  obtain ⟨v, hv, h⟩ := bind_eq_ok.mp h
  obtain ⟨p', c', rfl, hwr, hk⟩ := disableWriting_spec ha hv
  obtain ⟨notes, hn, hca⟩ := (w.setChannel p' c').noteWriteComplete_calls
  have htcp := (w.setChannel p' c').noteWriteComplete_tcp
  have hpo := (w.setChannel p' c').noteWriteComplete_poller
  generalize (w.setChannel p' c').noteWriteComplete = v at h hca htcp hpo
  have hkv : w.Kept v := by
    obtain ⟨h1, h2, h3, h4⟩ := hk
    exact ⟨by rw [htcp]; exact h1, by rw [htcp]; exact h2, by rw [hpo]; exact h3, by rw [htcp, hpo]; exact h4⟩
  have hvw : v.isWriting = false := by rw [isWriting, htcp]; exact hwr
  have hst : v.tcp.state_ = w.tcp.state_ := by rw [htcp]; rfl
  have hout : v.tcp.outputBuffer_ = w.tcp.outputBuffer_ := by rw [htcp]; rfl
  by_cases hd : w.tcp.state_ = .kDisconnecting
  · have he : w' = v.call (.shutdownWrite v.tcp.outputBuffer_.readableBytes) := by
      simpa [hst, hd, shutdownInLoop, hvw, pure, Except.pure, eq_comm] using h
    rw [he]
    exact ⟨⟨hkv.self_eq, hkv.fd_eq, hkv.changed, hkv.agrees⟩, hst, hout, hvw, notes, hn, by
      rw [if_pos hd, call, hca, hout]; rfl⟩
  · have he : w' = v := by
      simpa [hst, hd, pure, Except.pure, eq_comm] using h
    rw [he]
    exact ⟨hkv, hst, hout, hvw, notes, hn, by rw [if_neg hd, hca, List.append_nil]; rfl⟩

/-- The state of `handleWrite` between the write and what follows from it. -/
def wrote (w : LoopConn) (sent : List Byte) : LoopConn :=
  (w.call (.write sent)).setOutput (w.tcp.outputBuffer_.retrieve sent.length)

@[simp] theorem wrote_state (w : LoopConn) (sent : List Byte) : (w.wrote sent).tcp.state_ = w.tcp.state_ := rfl

theorem wrote_pending {w : LoopConn} (hb : w.tcp.outputBuffer_.Inv) (sent : List Byte) :
    (w.wrote sent).pending = w.pending.drop sent.length :=
  Buffer.retrieve_readable hb _

/-- A writable event: nothing to do, nothing taken, a part taken, or the whole of
what was pending. -/
theorem handleWrite_cases {w w' : LoopConn} {k : WriteOutcome} (hs : w.Sound) (h : w.handleWrite k = .ok w') :
    (w.isWriting = false ∧ w' = w) ∨
      (w.isWriting = true ∧ w' = w.call (.write [])) ∨
      (∃ sent, w.isWriting = true ∧ sent <+: w.pending ∧ w.pending.drop sent.length ≠ [] ∧ w' = w.wrote sent) ∨
      (w.isWriting = true ∧ (sysWrite w.pending k).sent = w.pending ∧ (w.wrote w.pending).Drained w') := by
  cases hw : w.isWriting with
  | false =>
    rw [handleWrite, hw] at h
    cases h
    exact Or.inl ⟨rfl, rfl⟩
  | true =>
    refine Or.inr ?_
    rw [handleWrite, hw, if_pos rfl, Buffer.writeFd_eq hs.output_inv, ok_bind] at h
    have hpre := sysWrite_sent_prefix w.pending k
    have hlen := @sysWrite_length w.pending k
    generalize hr : sysWrite w.pending k = r at hpre hlen
    rw [show sysWrite w.tcp.outputBuffer_.readable k = r from hr] at h
    by_cases hn : 0 < r.n
    · have hl : r.n.toNat = r.sent.length := by have := hlen (by omega); omega
      have hz : (w.wrote r.sent).tcp.outputBuffer_.readableBytes = 0 ↔ w.pending.drop r.sent.length = [] := by
        rw [← wrote_pending hs.output_inv]
        exact (Buffer.retrieve_inv hs.output_inv _).readableBytes_eq_zero
      rw [hl] at h
      simp only [hn, if_true] at h
      change (if (w.wrote r.sent).tcp.outputBuffer_.readableBytes = 0 then (w.wrote r.sent).drained
        else .ok (w.wrote r.sent)) = .ok w' at h
      by_cases he : w.pending.drop r.sent.length = []
      · rw [if_pos (hz.mpr he)] at h
        have hall : r.sent = w.pending :=
          hpre.eq_of_length (Nat.le_antisymm hpre.length_le (List.drop_eq_nil_iff.mp he))
        rw [hall] at h
        exact Or.inr (Or.inr ⟨rfl, hall, drained_spec hs.agrees h⟩)
      · rw [if_neg (fun hh => he (hz.mp hh))] at h
        cases h
        exact Or.inr (Or.inl ⟨r.sent, rfl, hpre, he, rfl⟩)
    · simp only [hn, if_false] at h
      cases h
      have hnil : r.sent = [] := by
        cases k with
        | fails e => rw [← hr]; rfl
        | accepts room e =>
          rw [← hr] at hn ⊢
          simp only [sysWrite] at hn ⊢
          rw [List.take_eq_nil_iff, ← List.length_eq_zero_iff]
          omega
      exact Or.inl ⟨rfl, by rw [hnil]⟩

theorem Drained.pending_eq_nil {w w' : LoopConn} (hb : w.tcp.outputBuffer_.Inv)
    (h : (w.wrote w.pending).Drained w') : w'.pending = [] := by
  have hp := wrote_pending hb w.pending
  rw [List.drop_length] at hp
  rw [pending, h.output_eq]
  exact hp

theorem handleWrite_sound {w w' : LoopConn} {k : WriteOutcome} (hs : w.Sound)
    (h : w.handleWrite k = .ok w') : w'.Sound ∧ w.Kept w' ∧ w'.tcp.state_ = w.tcp.state_ := by
  have hr : ∀ sent, (w.wrote sent).tcp.outputBuffer_.Inv := fun sent => Buffer.retrieve_inv hs.output_inv _
  have hk : ∀ sent, w.Kept (w.wrote sent) := fun sent => ⟨rfl, rfl, ChangedAt.refl _ _, hs.agrees⟩
  rcases handleWrite_cases hs h with ⟨-, rfl⟩ | ⟨-, rfl⟩ | ⟨sent, hw, -, hne, rfl⟩ | ⟨hw, -, hd⟩
  · exact ⟨hs, Kept.refl hs.agrees, rfl⟩
  · exact ⟨hs.of_eq rfl rfl, ⟨rfl, rfl, ChangedAt.refl _ _, hs.agrees⟩, rfl⟩
  · refine ⟨⟨hs.agrees, hr sent, fun _ => ?_⟩, hk sent, rfl⟩
    rwa [wrote_pending hs.output_inv]
  · refine ⟨⟨hd.kept.agrees, hd.output_eq ▸ hr w.pending, fun hh => ?_⟩, (hk w.pending).trans hd.kept, hd.state_eq⟩
    rw [hd.writing] at hh
    cases hh

theorem handleWrite_steady {w w' : LoopConn} {k : WriteOutcome} (hs : w.Steady)
    (h : w.handleWrite k = .ok w') : w'.Steady ∧ w.Kept w' ∧ w'.tcp.state_ = w.tcp.state_ := by
  obtain ⟨hs', hk, hst'⟩ := handleWrite_sound hs.sound h
  refine ⟨⟨hs'.agrees, hs'.output_inv, fun hst => ⟨hs'.busy, fun hn => ?_⟩, fun hst => ?_⟩, hk, hst'⟩
  · rw [hst'] at hst
    rcases handleWrite_cases hs.sound h with ⟨-, rfl⟩ | ⟨-, rfl⟩ | ⟨sent, hw, -, -, rfl⟩ | ⟨-, -, hd⟩
    · exact (hs.writing_iff hst).mpr hn
    · exact (hs.writing_iff hst).mpr hn
    · exact hw
    · exact absurd (hd.pending_eq_nil hs.output_inv) hn
  · rw [hst'] at hst
    rw [handleWrite, hs.closed hst] at h
    cases h
    exact hs.closed hst

/-- The state right after `connectEstablished`, before the user has done anything. -/
def Established (w : LoopConn) : Prop :=
  ∃ self fd writeComplete highWater mark c p, TcpConnection.new self fd writeComplete highWater mark = .ok c ∧
    p.Unused fd ∧ (⟨c, p, []⟩ : LoopConn).connectEstablished [] = .ok w

/-- A connection as constructed, on a poller that does not know its descriptor. -/
theorem new_steady {self : ChannelPtr} {fd : Fd} {writeComplete highWater : Bool} {mark : Nat}
    {c : TcpConnection} {p : EPollPoller} (h : TcpConnection.new self fd writeComplete highWater mark = .ok c)
    (hp : p.Unused fd) : (⟨c, p, []⟩ : LoopConn).Steady ∧ (⟨c, p, []⟩ : LoopConn).pending = [] ∧
      c.channel_ = Channel.new self fd := by
  obtain ⟨input, -, h⟩ := bind_eq_ok.mp h
  obtain ⟨output, ho, h⟩ := bind_eq_ok.mp h
  cases h
  obtain ⟨b, hb, hi, hr⟩ := Buffer.new_inv (show kCheapPrepend + kInitialSize ≤ maxSize by decide +kernel)
  cases hb.symm.trans ho
  have hw : (Channel.new self fd).isWriting = false := Channel.isWriting_of_none rfl
  refine ⟨⟨⟨hp.1, hp.2⟩, hi, fun _ => ?_, fun _ => hw⟩, hr, rfl⟩
  simp [isWriting, pending, hw, hr]

theorem new_state {self : ChannelPtr} {fd : Fd} {writeComplete highWater : Bool} {mark : Nat}
    {c : TcpConnection} (h : TcpConnection.new self fd writeComplete highWater mark = .ok c) :
    c.state_ = .kConnecting := by
  obtain ⟨input, -, h⟩ := bind_eq_ok.mp h
  obtain ⟨output, -, h⟩ := bind_eq_ok.mp h
  cases h
  rfl

theorem setState_steady {w : LoopConn} (hs : w.Steady) {s : StateE} (hw : w.tcp.state_ ≠ .kDisconnected)
    (hs' : s ≠ .kDisconnected) : (w.setState s).Steady :=
  ⟨hs.agrees, hs.output_inv, fun _ => hs.writing_iff hw, fun h => absurd h hs'⟩

/-- What `connectEstablished` has done before it calls the user. -/
theorem connectEstablished_cases {w w' : LoopConn} {cs : List UserCall} (hs : w.Steady)
    (hst : w.tcp.state_ ≠ .kDisconnected) (h : w.connectEstablished cs = .ok w') :
    ∃ v, v.Steady ∧ w.Kept v ∧ v.tcp.state_ = .kConnected ∧ v.pending = w.pending ∧ v.calls = w.calls ∧
      v.tcp.channel_.index_ = .kAdded ∧ v.connectionCallback cs = .ok w' := by
  obtain ⟨v, hv, h⟩ := bind_eq_ok.mp h
  have hs' := setState_steady hs hst (show StateE.kConnected ≠ .kDisconnected by decide)
  obtain ⟨p', c', rfl, hw, hix, hk⟩ := enableReading_spec
    (w := (w.setState .kConnected).setChannel w.poller w.tcp.channel_.tie) ⟨hs.agrees.channels_eq, hs.agrees.epoll_eq⟩ hv
  refine ⟨_, ⟨hk.agrees, hs.output_inv, fun _ => ?_, fun hc => by cases hc⟩, ⟨hk.self_eq, hk.fd_eq, hk.changed,
    hk.agrees⟩, rfl, rfl, rfl, hix, h⟩
  have hcw : c'.isWriting = true ↔ w.isWriting = true := by rw [hw]; rfl
  exact hcw.trans (hs.writing_iff hst)

theorem Established.steady {w : LoopConn} (h : w.Established) :
    w.Steady ∧ w.tcp.state_ = .kConnected ∧ w.pending = [] ∧ w.calls = [.connectionCallback true] := by
  obtain ⟨self, fd, wc, hw, mark, c, p, hc, hp, he⟩ := h
  obtain ⟨hs, hq, -⟩ := new_steady hc hp
  have hst : c.state_ ≠ .kDisconnected := by
    rw [new_state hc]
    decide
  obtain ⟨v, hvs, -, hvst, hvp, hvc, -, hcb⟩ := connectEstablished_cases hs hst he
  cases hcb
  exact ⟨hvs.of_eq rfl rfl, hvst, hvp.trans hq, by simp [call, hvc, hvst]⟩

/-- Every new connection can be established on a poller that does not know it. -/
theorem exists_established (self : ChannelPtr) (fd : Fd) (writeComplete highWater : Bool) (mark : Nat) :
    ∃ w : LoopConn, w.Established := by
  obtain ⟨b, hb, -⟩ := Buffer.new_inv (show kCheapPrepend + kInitialSize ≤ maxSize by decide +kernel)
  have hc : TcpConnection.new self fd writeComplete highWater mark =
      .ok ⟨.kConnecting, Channel.new self fd, b, b, writeComplete, highWater, mark⟩ := by
    rw [TcpConnection.new, hb, ok_bind, ok_bind]
    rfl
  obtain ⟨p', c', hu, -⟩ := EPollPoller.updateChannel_spec (p := EPollPoller.new)
    (c := (Channel.new self fd).tie) ⟨rfl, rfl⟩ (kNoneEvent ||| kReadEvent)
  refine ⟨_, self, fd, writeComplete, highWater, mark, _, EPollPoller.new, hc, ⟨rfl, rfl⟩,
    bind_eq_ok.mpr ⟨_, bind_eq_ok.mpr ⟨_, hu, rfl⟩, rfl⟩⟩

end LoopConn

end MyMuduo
