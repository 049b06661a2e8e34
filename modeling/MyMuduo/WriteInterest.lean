import MyMuduo.Handlers
import MyMuduo.OutputStream

/-! Write interest and pending output along any order of the handlers, and what a
direct write does to them for each answer of the kernel. -/

namespace MyMuduo

/-- One handler on the loop's thread; `shutdownStore` is the store of another
thread's `shutdown`. -/
inductive HandlerOp where
  | sendInLoop (d : Span) (k : WriteOutcome)
  | handleRead (k : ReadOutcome) (cs : List UserCall)
  | handleWrite (k : WriteOutcome)
  | handleClose (cs : List UserCall)
  | user (cs : List UserCall)
  | shutdownInLoop
  | shutdownStore
  | connectDestroyed

namespace LoopConn

def handle (w : LoopConn) : HandlerOp → Except Fault LoopConn
  | .sendInLoop d k => w.sendInLoop d k
  | .handleRead k cs => w.handleRead k cs
  | .handleWrite k => w.handleWrite k
  | .handleClose cs => w.handleClose cs
  | .user cs => w.user cs
  | .shutdownInLoop => .ok w.shutdownInLoop
  | .shutdownStore => .ok (w.setState .kDisconnecting)
  | .connectDestroyed => w.connectDestroyed

def HandlerStep (w : LoopConn) (op : HandlerOp) (w' : LoopConn) : Prop := w.handle op = .ok w'

theorem handle_sound {w w' : LoopConn} {op : HandlerOp} (hs : w.Sound) (h : w.HandlerStep op w') : w'.Sound := by
  cases op with
  | sendInLoop d k => exact (sendInLoop_sound hs h).1
  | handleRead k cs => exact (soundRule.handleRead h hs).1
  | handleWrite k => exact (handleWrite_sound hs h).1
  | handleClose cs => exact (soundRule.handleClose h hs).1
  | user cs => exact (soundRule.user h hs).1
  | shutdownInLoop =>
    cases h
    exact hs.of_eq w.shutdownInLoop_tcp.1 w.shutdownInLoop_tcp.2
  | shutdownStore =>
    cases h
    exact hs.setState _
  | connectDestroyed => exact (connectDestroyed_spec hs h).1

theorem run_sound {w₀ w : LoopConn} {ops : List HandlerOp} (hs : w₀.Sound) (hr : Run HandlerStep w₀ ops w) :
    w.Sound :=
  hr.invariant (fun _ _ _ hi h => handle_sound hi h) hs

theorem mem_callbacks_down {w w' : LoopConn} (h : w'.callbacks = w.callbacks ++ down) : .closeCallback ∈ w'.calls := by
  have hm : ConnCall.closeCallback ∈ w'.callbacks := by rw [h]; simp [down]
  exact List.mem_of_mem_filter hm

/-- A handler that leaves the connection open found it steady, and leaves it so. -/
theorem handle_steady {w w' : LoopConn} {op : HandlerOp} (hs : w.Steady) (hst : w.tcp.state_ ≠ .kDisconnected)
    (h : w.HandlerStep op w') (hop : op ≠ .connectDestroyed) (hopen : .closeCallback ∉ w'.calls) :
    w'.Steady ∧ w'.tcp.state_ ≠ .kDisconnected := by
  cases op with
  | sendInLoop d k =>
    obtain ⟨hs', -, hst'⟩ := sendInLoop_steady hs h
    exact ⟨hs', hst' ▸ hst⟩
  | handleRead k cs =>
    obtain ⟨hcb, -, hlive, -⟩ := handleRead_spec hs.sound h
    refine ⟨steadyRule.handleRead h hs, ?_⟩
    rw [ne_eq, hlive]
    · exact hst
    · rintro rfl
      exact hopen (mem_callbacks_down hcb)
  | handleWrite k =>
    obtain ⟨hs', -, hst'⟩ := handleWrite_steady hs h
    exact ⟨hs', hst' ▸ hst⟩
  | handleClose cs => exact absurd (mem_callbacks_down (handleClose_spec hs.sound h).1) hopen
  | user cs =>
    refine ⟨steadyRule.user h hs, ?_⟩
    rw [ne_eq, (quietRule.user h hs.sound).2.closed_iff]
    exact hst
  | shutdownInLoop =>
    cases h
    obtain ⟨htcp, hpo⟩ := w.shutdownInLoop_tcp
    exact ⟨hs.of_eq htcp hpo, by rw [htcp]; exact hst⟩
  | shutdownStore =>
    cases h
    exact ⟨setState_steady hs hst (by decide), by simp [setState]⟩
  | connectDestroyed => exact absurd rfl hop

theorem handle_calls {w w' : LoopConn} {op : HandlerOp} (hs : w.Sound) (h : w.HandlerStep op w')
    (hm : .closeCallback ∈ w.calls) : .closeCallback ∈ w'.calls := by
  have hcb : ConnCall.closeCallback ∈ w.callbacks := List.mem_filter.mpr ⟨hm, rfl⟩
  have hsub : ∀ {ds}, w'.callbacks = w.callbacks ++ ds → .closeCallback ∈ w'.calls := by
    intro ds he
    have hm : ConnCall.closeCallback ∈ w'.callbacks := by
      rw [he]
      exact List.mem_append_left _ hcb
    exact List.mem_of_mem_filter hm
  have hquiet : w.Quiet w' → .closeCallback ∈ w'.calls := fun hq => hsub (by rw [hq.callbacks_eq, List.append_nil])
  cases op with
  | sendInLoop d k => exact hquiet (sendInLoop_quiet hs h)
  | handleRead k cs => exact hsub (handleRead_spec hs h).1
  | handleWrite k => exact hquiet (handleWrite_quiet hs h)
  | handleClose cs => exact hsub (handleClose_spec hs h).1
  | user cs => exact hquiet (quietRule.user h hs).2
  | shutdownInLoop =>
    cases h
    exact hquiet w.shutdownInLoop_quiet
  | shutdownStore =>
    cases h
    exact hm
  | connectDestroyed =>
    rw [(connectDestroyed_spec hs h).2.2.1]
    exact hm

theorem run_steady {w₀ w : LoopConn} {ops : List HandlerOp} (hs : w₀.Steady)
    (hst : w₀.tcp.state_ ≠ .kDisconnected) (hr : Run HandlerStep w₀ ops w) (hopen : .closeCallback ∉ w.calls)
    (hd : .connectDestroyed ∉ ops) : w.Steady ∧ w.tcp.state_ ≠ .kDisconnected := by
  have hi := hr.invariant_labels (I := fun ops w => w.Sound ∧ (.closeCallback ∉ w.calls → .connectDestroyed ∉ ops →
      w.Steady ∧ w.tcp.state_ ≠ .kDisconnected)) (fun ops v op v' hi h => ?_) ⟨hs.sound, fun _ _ => ⟨hs, hst⟩⟩
  · exact hi.2 hopen hd
  · refine ⟨handle_sound hi.1 h, fun hopen hd => ?_⟩
    simp only [List.mem_append, List.mem_singleton, not_or] at hd
    obtain ⟨hvs, hvst⟩ := hi.2 (fun hm => hopen (handle_calls hi.1 h hm)) hd.1
    exact handle_steady hvs hvst h (fun he => hd.2 he.symm) hopen

/-- The connection as the run of its handlers finds it first. -/
theorem connectEstablished_steady {w w' : LoopConn} {cs : List UserCall} (hs : w.Steady)
    (hst : w.tcp.state_ ≠ .kDisconnected) (h : w.connectEstablished cs = .ok w') :
    w'.Steady ∧ w'.tcp.state_ ≠ .kDisconnected := by
  obtain ⟨v, hv, -, hvst, -, -, -, hcb⟩ := connectEstablished_cases hs hst h
  refine ⟨steadyRule.connectionCallback hcb hv, ?_⟩
  have hvc : (v.call (.connectionCallback (v.tcp.state_ = .kConnected))).Sound := hv.sound.of_eq rfl rfl
  rw [ne_eq, (quietRule.user hcb hvc).2.closed_iff]
  simp [call, hvst]

/-- From `connectEstablished` on, as long as the connection is neither closed nor
destroyed, it wants to write exactly while it has something to write. -/
theorem writing_iff_pending {self : ChannelPtr} {fd : Fd} {writeComplete highWater : Bool} {mark : Nat}
    {c : TcpConnection} {p : EPollPoller} {cs : List UserCall} {w₀ w : LoopConn} {ops : List HandlerOp}
    (hc : TcpConnection.new self fd writeComplete highWater mark = .ok c) (hp : p.Unused fd)
    (h₀ : (⟨c, p, []⟩ : LoopConn).connectEstablished cs = .ok w₀) (hr : Run HandlerStep w₀ ops w)
    (hopen : .closeCallback ∉ w.calls) (hd : .connectDestroyed ∉ ops) :
    w.isWriting = true ↔ 0 < w.tcp.outputBuffer_.readableBytes := by
  obtain ⟨hs, -, -⟩ := new_steady hc hp
  obtain ⟨hs₀, hst₀⟩ := connectEstablished_steady hs (by rw [new_state hc]; decide) h₀
  obtain ⟨hws, hwst⟩ := run_steady hs₀ hst₀ hr hopen hd
  rw [hws.writing_iff hwst, ne_eq, ← hws.sound.readableBytes_eq_zero, Nat.pos_iff_ne_zero]

/-- One byte of two is taken; the other waits, through a `shutdown`, for the drain. -/
theorem writing_iff_pending_short : ∃ c w₀ w, TcpConnection.new 0 5 true false 0 = .ok c ∧
    (⟨c, EPollPoller.new, []⟩ : LoopConn).connectEstablished [] = .ok w₀ ∧
    Run HandlerStep w₀ [.sendInLoop .ab (.accepts 1 0), .user [.shutdown], .handleWrite (.accepts 0 EWOULDBLOCK)] w ∧
    w.isWriting = true ∧ (w.isWriting = true ↔ 0 < w.tcp.outputBuffer_.readableBytes) := by
  have hok : (do
      let c ← TcpConnection.new 0 5 true false 0
      let w ← (⟨c, EPollPoller.new, []⟩ : LoopConn).connectEstablished []
      let w ← w.sendInLoop .ab (.accepts 1 0)
      let w ← w.user [.shutdown]
      let w ← w.handleWrite (.accepts 0 EWOULDBLOCK)
      if .closeCallback ∉ w.calls ∧ w.isWriting = true then .ok w else .error .logFatal : Except Fault LoopConn).isOk =
        true := by decide +kernel
  obtain ⟨w, h⟩ := exists_of_isOk hok
  obtain ⟨c, hc, h⟩ := bind_eq_ok.mp h
  obtain ⟨w₀, h₀, h⟩ := bind_eq_ok.mp h
  obtain ⟨w₁, h₁, h⟩ := bind_eq_ok.mp h
  obtain ⟨w₂, h₂, h⟩ := bind_eq_ok.mp h
  obtain ⟨w₃, h₃, h⟩ := bind_eq_ok.mp h
  split at h
  · rename_i hw
    cases h
    have hr : Run HandlerStep w₀ [.sendInLoop .ab (.accepts 1 0), .user [.shutdown],
        .handleWrite (.accepts 0 EWOULDBLOCK)] w := .cons h₁ <| .cons h₂ <| .single h₃
    exact ⟨c, w₀, w, hc, h₀, hr, hw.2, writing_iff_pending hc ⟨rfl, rfl⟩ h₀ hr hw.1 (by simp)⟩
  · cases h

/-- What `sendInLoop` is to do after its direct write: nothing more when all was
taken or the socket is broken, buffer what was not taken otherwise. -/
def classifiedSend (w : LoopConn) (d : Span) : WriteOutcome → Except Fault LoopConn
  | .accepts room _ =>
    if d.len ≤ room then .ok (w.call (.write d.bytes))
    else (w.call (.write (d.bytes.take room))).bufferTail d room (d.len - room)
  | .fails e =>
    if e = EPIPE ∨ e = ECONNRESET then .ok (w.call (.write [])) else (w.call (.write [])).bufferTail d 0 d.len

/-- The send left the connection so, and read nothing outside its argument. -/
def Classified (w : LoopConn) (d : Span) (k : WriteOutcome) (w' : LoopConn) : Prop :=
  ∃ v ds, w.classifiedSend d k = .ok v ∧ w'.tcp = v.tcp ∧ w'.poller = v.poller ∧ w'.calls = w.calls ++ ds ∧
    ∀ (offset : Int) (n len : Nat), .buffered offset n len ∈ ds → 0 ≤ offset ∧ offset + n ≤ len

/-- The answers of the kernel that the source gets right. -/
def WellAnswered (d : Span) : WriteOutcome → Prop
  | .accepts room e => d.len ≤ room ∨
      ¬ (e = EPIPE ∨ e = ECONNRESET) ∧ d.read 0 (d.len - room) = d.read room (d.len - room)
  | .fails e => d.len = 0 ∧ (e = EPIPE ∨ e = ECONNRESET)

/-- What is buffered depends on the bytes, not on where they were read. -/
theorem bufferTail_congr {w w' : LoopConn} {d : Span} {i j : Int} {n : Nat} (hd : d.read i n = d.read j n)
    (h : w.bufferTail d i n = .ok w') :
    ∃ v, w.bufferTail d j n = .ok v ∧ w'.tcp = v.tcp ∧ w'.poller = v.poller := by
  obtain ⟨b, hb, h⟩ := bind_eq_ok.mp h
  generalize hu : ((w.noteHighWater n).setOutput b).call (.buffered i n d.len) = u at h
  generalize hv : ((w.noteHighWater n).setOutput b).call (.buffered j n d.len) = v
  have htcp : u.tcp = v.tcp := by rw [← hu, ← hv]; rfl
  have hpo : u.poller = v.poller := by rw [← hu, ← hv]; rfl
  have hj : w.bufferTail d j n = if !v.isWriting then v.onChannel Channel.enableWriting else .ok v := by
    rw [bufferTail, ← hv, ← hd, hb, ok_bind]
  rw [hj, show v.isWriting = u.isWriting by rw [isWriting, isWriting, htcp]]
  cases hw : u.isWriting with
  | true =>
    simp only [hw] at h
    cases h
    exact ⟨v, rfl, htcp, hpo⟩
  | false =>
    simp only [hw] at h
    obtain ⟨⟨p, c⟩, hen, h⟩ := bind_eq_ok.mp h
    cases h
    rw [htcp, hpo] at hen
    exact ⟨v.setChannel p c, bind_eq_ok.mpr ⟨(p, c), hen, rfl⟩, by simp [setChannel, htcp], rfl⟩

theorem Buffered.new_calls {w u w' : LoopConn} {d : Span} {i : Int} {n : Nat} {cs ds : List ConnCall}
    (h : u.Buffered w' d i n) (hu : u.calls = w.calls ++ cs) (hw : w'.calls = w.calls ++ ds) :
    ∃ notes, (∀ c ∈ notes, ∃ m, c = ConnCall.highWaterMark m) ∧ ds = cs ++ (notes ++ [.buffered i n d.len]) := by
  obtain ⟨notes, hn, hc⟩ := h.calls_eq
  refine ⟨notes, hn, ?_⟩
  rw [hw, hu, List.append_assoc, List.append_assoc] at hc
  exact List.append_cancel_left hc

/-- The bytes of an append are read inside its argument, when the ones before were. -/
theorem Buffered.in_range {w u w' : LoopConn} {d : Span} {i : Int} {n : Nat} {cs ds : List ConnCall}
    (h : u.Buffered w' d i n) (hu : u.calls = w.calls ++ cs) (hw : w'.calls = w.calls ++ ds)
    (hcs : ∀ offset m len, ConnCall.buffered offset m len ∉ cs) :
    (∀ (offset : Int) (m len : Nat), .buffered offset m len ∈ ds → 0 ≤ offset ∧ offset + m ≤ len) ↔
      0 ≤ i ∧ i + n ≤ d.len := by
  obtain ⟨notes, hn, rfl⟩ := h.new_calls hu hw
  constructor
  · intro hr
    exact hr i n d.len (by simp)
  · intro hr offset m len hm
    rw [List.mem_append, List.mem_append, List.mem_singleton] at hm
    rcases hm with hm | hm | hm
    · exact absurd hm (hcs offset m len)
    · obtain ⟨x, hx⟩ := hn _ hm
      cases hx
    · cases hm
      exact hr

/-- A direct write that failed: only a broken socket and an empty argument go well,
since one byte before the argument is read otherwise. -/
theorem fails_classified_iff {w w' : LoopConn} {d : Span} {e : Errno} (hs : w.Sound)
    (hst : w.tcp.state_ ≠ .kDisconnected) (hp : w.pending = []) (h : w.sendInLoop d (.fails e) = .ok w') :
    w.Classified d (.fails e) w' ↔ d.len = 0 ∧ (e = EPIPE ∨ e = ECONNRESET) := by
  have hc := sendInLoop_cases hs hst h
  rw [firstWrite_of_nil hs hp, directWrite_fails] at hc
  rcases hc with ⟨hz, rfl⟩ | ⟨-, hr, hb⟩
  · have hz : d.len = 0 := by simpa using hz
    by_cases he : e = EPIPE ∨ e = ECONNRESET
    · refine iff_of_true ⟨w.call (.write []), [.write []], ?_, rfl, rfl, rfl, by simp⟩ ⟨hz, he⟩
      rw [classifiedSend, if_pos he]
    · refine iff_of_false ?_ fun hh => he hh.2
      rintro ⟨v, ds, hv, htcp, -⟩
      rw [classifiedSend, if_neg he] at hv
      have hbv := bufferTail_spec (w := w.call (.write [])) hs.agrees hs.output_inv (Nat.le_refl _) hv
      have hw := hbv.writing
      rw [isWriting, ← htcp] at hw
      exact hs.busy hw hp
  · have hr : 0 < d.len := hr
    refine iff_of_false ?_ fun hh => by omega
    rintro ⟨v, ds, -, -, -, hds, hrange⟩
    have hrange := (hb.in_range (show _ = w.calls ++ [.write []] from rfl) hds (by simp)).mp hrange
    exact absurd hrange.1 (show ¬ (0 : Int) ≤ -1 by decide)

/-- A direct write that returned a count: what is buffered is the head of the
argument, not its tail, and nothing at all when `errno` happens to look broken. -/
theorem accepts_classified_iff {w w' : LoopConn} {d : Span} {room : Nat} {e : Errno} (hs : w.Sound)
    (hst : w.tcp.state_ ≠ .kDisconnected) (hp : w.pending = []) (h : w.sendInLoop d (.accepts room e) = .ok w') :
    w.Classified d (.accepts room e) w' ↔ d.len ≤ room ∨
      ¬ (e = EPIPE ∨ e = ECONNRESET) ∧ d.read 0 (d.len - room) = d.read room (d.len - room) := by
  have hc := sendInLoop_cases hs hst h
  rw [firstWrite_of_nil hs hp, directWrite_accepts] at hc
  by_cases hle : d.len ≤ room
  · have hdone : ∃ ds, w'.tcp = w.tcp ∧ w'.poller = w.poller ∧ w'.calls = w.calls ++ ds ∧
        ∀ offset n len, ConnCall.buffered offset n len ∉ ds := by
      split at hc
      · rcases hc with ⟨-, rfl⟩ | ⟨-, hr, -⟩
        · exact ⟨[.write (d.bytes.take room), .writeComplete], rfl, rfl, by simp [call], by simp⟩
        · exact absurd hr (Nat.lt_irrefl 0)
      · rcases hc with ⟨-, rfl⟩ | ⟨-, hr, -⟩
        · exact ⟨[.write (d.bytes.take room)], rfl, rfl, rfl, by simp⟩
        · exact absurd hr (by simp only; omega)
    obtain ⟨ds, htcp, hpo, hds, hno⟩ := hdone
    refine iff_of_true ⟨w.call (.write d.bytes), ds, ?_, htcp, hpo, hds, fun offset n len hm => ?_⟩ (Or.inl hle)
    · rw [classifiedSend, if_pos hle]
    · exact absurd hm (hno offset n len)
  · rw [if_neg fun hh => hle hh.1] at hc
    rw [or_iff_right hle]
    simp only [decide_eq_true_eq, decide_eq_false_iff_not, faultError_iff] at hc
    have hideal : ∀ v, w.classifiedSend d (.accepts room e) = .ok v →
        v.pending = d.read room (d.len - room) := by
      intro v hv
      rw [classifiedSend, if_neg hle] at hv
      have hbv := bufferTail_spec (w := w.call (.write (d.bytes.take room))) hs.agrees hs.output_inv
        (Nat.sub_le _ _) hv
      rw [hbv.pending_eq, call_pending, hp, List.nil_append]
    rcases hc with ⟨hf, rfl⟩ | ⟨hf, hr, hb⟩
    · have hf : e = EPIPE ∨ e = ECONNRESET := hf.resolve_right (by omega)
      refine iff_of_false ?_ fun hh => hh.1 hf
      rintro ⟨v, ds, hv, htcp, -⟩
      have hpv := hideal v hv
      rw [pending, ← htcp] at hpv
      have hlen := congrArg List.length (show ([] : List Byte) = _ from hp.symm.trans hpv)
      rw [Span.read_length, List.length_nil] at hlen
      omega
    · have hbp : w'.pending = d.read 0 (d.len - room) := by
        rw [hb.pending_eq, call_pending, hp, List.nil_append]
      constructor
      · rintro ⟨v, ds, hv, htcp, -⟩
        have hpv := hideal v hv
        rw [pending, ← htcp] at hpv
        exact ⟨hf, hbp.symm.trans hpv⟩
      · rintro ⟨-, hread⟩
        rw [sendInLoop, if_neg hst, firstWrite_of_nil hs hp, directWrite_accepts, if_neg fun hh => hle hh.1] at h
        simp only [hf, and_false, decide_false, hr, and_self, if_true] at h
        obtain ⟨v, hv, htcp, hpo⟩ := bufferTail_congr hread h
        obtain ⟨notes, hn, hcalls⟩ := hb.calls_eq
        have hcalls : w'.calls = w.calls ++ (.write (d.bytes.take room) :: (notes ++ [.buffered 0 (d.len - room) d.len])) := by
          rw [hcalls]
          simp [call]
        refine ⟨v, _, ?_, htcp, hpo, hcalls, ?_⟩
        · rw [classifiedSend, if_neg hle]
          exact hv
        · exact (hb.in_range (show _ = w.calls ++ [.write (d.bytes.take room)] from rfl) hcalls (by simp)).mpr ⟨Int.le_refl _, by omega⟩

/-- In terms of the buffer and the interest: the unsent tail of a write, -/
theorem Classified.accepts {w w' : LoopConn} {d : Span} {room : Nat} {e : Errno} (hs : w.Sound)
    (hp : w.pending = []) (h : w.Classified d (.accepts room e) w') :
    w'.pending = d.read room (d.len - room) ∧ (w'.isWriting = true ↔ room < d.len) := by
  obtain ⟨v, ds, hv, htcp, -⟩ := h
  rw [pending, isWriting, htcp]
  simp only [classifiedSend] at hv
  split at hv
  · rename_i hle
    cases hv
    have hz : d.len - room = 0 := by omega
    refine ⟨hp.trans (by rw [hz]; rfl), iff_of_false ?_ (by omega)⟩
    rw [show (w.call (.write d.bytes)).tcp.channel_.isWriting = false from hs.isWriting_eq_false hp]
    decide
  · rename_i hle
    have hb := bufferTail_spec (w := w.call (.write (d.bytes.take room))) hs.agrees hs.output_inv (Nat.sub_le _ _) hv
    refine ⟨hb.pending_eq.trans ?_, iff_of_true hb.writing (by omega)⟩
    rw [call_pending, hp, List.nil_append]

/-- nothing on a broken socket, and all of it after another failure. -/
theorem Classified.fails {w w' : LoopConn} {d : Span} {e : Errno} (hs : w.Sound) (hp : w.pending = [])
    (h : w.Classified d (.fails e) w') :
    if e = EPIPE ∨ e = ECONNRESET then w'.pending = [] ∧ w'.isWriting = false
    else w'.pending = d.bytes ∧ w'.isWriting = true := by
  obtain ⟨v, ds, hv, htcp, -⟩ := h
  rw [pending, isWriting, htcp]
  simp only [classifiedSend] at hv
  split at hv
  · rename_i he
    cases hv
    rw [if_pos he]
    exact ⟨hp, hs.isWriting_eq_false hp⟩
  · rename_i he
    have hb := bufferTail_spec (w := w.call (.write [])) hs.agrees hs.output_inv (Nat.le_refl _) hv
    rw [if_neg he]
    refine ⟨hb.pending_eq.trans ?_, hb.writing⟩
    rw [call_pending, hp, List.nil_append]
    rfl

end LoopConn

end MyMuduo
