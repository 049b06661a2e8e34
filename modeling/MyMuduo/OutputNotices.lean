import MyMuduo.Lib.Crossings
import MyMuduo.Handlers
import MyMuduo.OutputStream

/-! The functors that the output of a connection queues, step by step: what each send
and each writable event adds to the calls, exactly. -/

namespace MyMuduo

/-- The size that a high-water functor carries. -/
def ConnCall.high : ConnCall → List Nat
  | .highWaterMark size => [size]
  | _ => []

/-- What may happen to the output of a connection; `close` is `handleClose`, with the
user's reaction to it. -/
inductive OutputOp where
  | stream (op : StreamOp)
  | shutdown
  | close (cs : List UserCall)

/-- The argument `len` of a send. -/
def OutputOp.given : OutputOp → Nat
  | .stream op => op.data.length
  | _ => 0

def OutputOp.isSend : OutputOp → Bool
  | .stream (.sendInLoop _ _) => true
  | _ => false

/-- What is noted of a step: `begins` if it is a send that finds no write interest and
an empty `outputBuffer_`, `size` what `outputBuffer_` holds after it. -/
structure StepNote where
  begins : Bool
  given : Nat
  size : Nat
  calls : List ConnCall

namespace StepNote

def highs (n : StepNote) : List Nat := n.calls.flatMap ConnCall.high

def completes (n : StepNote) : Nat := n.calls.count .writeComplete

/-- The bytes that the kernel accepted. -/
def taken (n : StepNote) : Nat := (n.calls.flatMap ConnCall.sent).length

end StepNote

namespace LoopConn

def size (w : LoopConn) : Nat := w.tcp.outputBuffer_.readableBytes

def OutputStep (w : LoopConn) : OutputOp → LoopConn → Prop
  | .stream op, w' => w.StreamStep op w'
  | .shutdown, w' => w' = w.shutdown
  | .close cs, w' => w.handleClose cs = .ok w'

def stepNote (w : LoopConn) (op : OutputOp) (w' : LoopConn) : StepNote :=
  ⟨op.isSend && !w.isWriting && w.size == 0, op.given, w'.size, w'.calls.drop w.calls.length⟩

def noteStep (log : List StepNote) (w : LoopConn) (op : OutputOp) (w' : LoopConn) : List StepNote :=
  log ++ [w.stepNote op w']

theorem Sound.size_eq {w : LoopConn} (h : w.Sound) : w.size = w.pending.length :=
  h.output_inv.readable_length.symm

theorem Sound.size_le {w : LoopConn} (h : w.Sound) : w.size ≤ maxSize := by
  have hr := h.output_inv.readableBytes_eq
  have hw := h.output_inv.writer_le
  have hs := h.output_inv.size_le
  rw [size]
  omega

/-- The functor that `noteHighWater` queues for so many bytes more. -/
def highNote (w : LoopConn) (remaining : Nat) : List ConnCall :=
  if w.tcp.highWaterMark_ ≤ szAdd w.size remaining ∧ w.size < w.tcp.highWaterMark_ ∧
      w.tcp.highWaterMarkCallback_ = true then [.highWaterMark (szAdd w.size remaining)] else []

def completeNote (w : LoopConn) : List ConnCall :=
  if w.tcp.writeCompleteCallback_ = true then [.writeComplete] else []

theorem noteHighWater_calls_eq (w : LoopConn) (remaining : Nat) :
    (w.noteHighWater remaining).calls = w.calls ++ w.highNote remaining := by
  by_cases hc : w.tcp.highWaterMark_ ≤ szAdd w.size remaining ∧ w.size < w.tcp.highWaterMark_ ∧
      w.tcp.highWaterMarkCallback_ = true
  · rw [highNote, if_pos hc]
    exact congrArg LoopConn.calls (if_pos hc)
  · rw [highNote, if_neg hc, List.append_nil]
    exact congrArg LoopConn.calls (if_neg hc)

theorem noteWriteComplete_calls_eq (w : LoopConn) : w.noteWriteComplete.calls = w.calls ++ w.completeNote := by
  unfold noteWriteComplete completeNote
  split
  · rfl
  · exact (List.append_nil _).symm

/-- The settings of the user, and how they come through an operation. -/
structure SameSettings (w w' : LoopConn) : Prop where
  complete_eq : w'.tcp.writeCompleteCallback_ = w.tcp.writeCompleteCallback_
  high_eq : w'.tcp.highWaterMarkCallback_ = w.tcp.highWaterMarkCallback_
  mark_eq : w'.tcp.highWaterMark_ = w.tcp.highWaterMark_

theorem SameSettings.of_tcp {w w' : LoopConn} (h : w'.tcp = w.tcp) : w.SameSettings w' :=
  ⟨by rw [h], by rw [h], by rw [h]⟩

theorem SameSettings.trans {u v w : LoopConn} (h : u.SameSettings v) (h' : v.SameSettings w) : u.SameSettings w :=
  ⟨h'.complete_eq.trans h.complete_eq, h'.high_eq.trans h.high_eq, h'.mark_eq.trans h.mark_eq⟩

theorem onChannel_frame {w w' : LoopConn} {f : Channel → EPollPoller → Except Fault (EPollPoller × Channel)}
    (h : w.onChannel f = .ok w') : w.SameSettings w' ∧ w'.calls = w.calls ∧ w'.pending = w.pending ∧
      w'.tcp.state_ = w.tcp.state_ := by
  obtain ⟨⟨p, c⟩, -, h⟩ := bind_eq_ok.mp h
  cases h
  exact ⟨⟨rfl, rfl, rfl⟩, rfl, rfl, rfl⟩

theorem bufferTail_calls {w w' : LoopConn} {d : Span} {nwrote : Int} {remaining : Nat}
    (h : w.bufferTail d nwrote remaining = .ok w') :
    w.SameSettings w' ∧ w'.calls = w.calls ++ (w.highNote remaining ++ [.buffered nwrote remaining d.len]) := by
  obtain ⟨b, -, h⟩ := bind_eq_ok.mp h
  have hv : w.SameSettings (((w.noteHighWater remaining).setOutput b).call (.buffered nwrote remaining d.len)) :=
    (SameSettings.of_tcp (w.noteHighWater_tcp remaining)).trans ⟨rfl, rfl, rfl⟩
  have hcalls : (((w.noteHighWater remaining).setOutput b).call (.buffered nwrote remaining d.len)).calls =
      w.calls ++ (w.highNote remaining ++ [.buffered nwrote remaining d.len]) := by
    rw [← List.append_assoc, ← noteHighWater_calls_eq]
    rfl
  generalize ((w.noteHighWater remaining).setOutput b).call (.buffered nwrote remaining d.len) = v at h hv hcalls
  cases hw : v.isWriting with
  | true =>
    simp only [hw] at h
    cases h
    exact ⟨hv, hcalls⟩
  | false =>
    simp only [hw] at h
    obtain ⟨hs, hc, -⟩ := onChannel_frame h
    exact ⟨hv.trans hs, hc.trans hcalls⟩

/-- A send behind pending bytes, a direct write that leaves nothing to buffer, or one
whose rest is buffered. A direct write of all of a non-empty argument is reported. -/
inductive SendEffect (w : LoopConn) (d : Span) (w' : LoopConn) : Prop where
  | nothing : w.pending ≠ [] → d.len = 0 → w' = w → SendEffect w d w'
  | behind : w.pending ≠ [] → 0 < d.len → w'.pending.length = w.pending.length + d.len →
      w'.calls = w.calls ++ (w.highNote d.len ++ [.buffered 0 d.len d.len]) → SendEffect w d w'
  | written (sent : List Byte) (notes : List ConnCall) : w.pending = [] → w'.pending = [] →
      sent.length ≤ d.len → (∀ c ∈ notes, c = .writeComplete) →
      (0 < d.len → notes = if sent.length = d.len then w.completeNote else []) →
      w'.calls = w.calls ++ .write sent :: notes → SendEffect w d w'
  | rest (sent : List Byte) (nwrote : Int) (remaining : Nat) : w.pending = [] → 0 < remaining →
      sent.length + remaining = d.len → w'.pending.length = remaining →
      w'.calls = w.calls ++ .write sent :: (w.highNote remaining ++ [.buffered nwrote remaining d.len]) →
      SendEffect w d w'

theorem sendInLoop_tail {w w' : LoopConn} {d : Span} {k : WriteOutcome} (hst : w.tcp.state_ ≠ .kDisconnected)
    (hf : (w.firstWrite d k).2.faultError = false) (hr : 0 < (w.firstWrite d k).2.remaining)
    (h : w.sendInLoop d k = .ok w') :
    (w.firstWrite d k).1.bufferTail d (w.firstWrite d k).2.nwrote (w.firstWrite d k).2.remaining = .ok w' := by
  rw [sendInLoop, if_neg hst] at h
  exact (if_pos ⟨hf, hr⟩).symm.trans h

theorem sendInLoop_settings {w w' : LoopConn} {d : Span} {k : WriteOutcome} (hs : w.Sound)
    (h : w.sendInLoop d k = .ok w') : w.SameSettings w' := by
  by_cases hst : w.tcp.state_ = .kDisconnected
  · rw [sendInLoop, if_pos hst] at h
    cases h
    exact SameSettings.of_tcp rfl
  · have htcp := (w.firstWrite_fst d k).1
    rcases sendInLoop_cases hs hst h with ⟨-, rfl⟩ | ⟨hf, hr, -⟩
    · exact SameSettings.of_tcp htcp
    · exact (SameSettings.of_tcp htcp).trans (bufferTail_calls (sendInLoop_tail hst hf hr h)).1

theorem sendInLoop_effect {w w' : LoopConn} {d : Span} {k : WriteOutcome} (hs : w.Sound)
    (hst : w.tcp.state_ ≠ .kDisconnected) (h : w.sendInLoop d k = .ok w') : w.SendEffect d w' := by
  have hc := sendInLoop_cases hs hst h
  have htail := fun hf hr => (bufferTail_calls (sendInLoop_tail hst hf hr h)).2
  have hhigh : ∀ n, (w.firstWrite d k).1.highNote n = w.highNote n := by
    intro n
    rw [highNote, size, (w.firstWrite_fst d k).1]
    rfl
  rw [hhigh] at htail
  by_cases hp : w.pending = []
  · rw [firstWrite_of_nil hs hp] at hc htail
    cases k with
    | fails e =>
      rw [directWrite_fails] at hc htail
      rcases hc with ⟨hz, rfl⟩ | ⟨hf, hr, hb⟩
      · have hz : d.len = 0 := by simpa using hz
        exact .written [] [] hp hp (Nat.zero_le _) (by simp) (fun hpos => by omega) rfl
      · refine .rest [] (-1) d.len hp hr (Nat.zero_add _) ?_ ?_
        · rw [hb.pending_eq, call_pending, hp]
          simp
        · rw [htail hf hr]
          simp [call]
    | accepts room e =>
      have htake : (d.bytes.take room).length = min room d.len := by simp
      rw [directWrite_accepts] at hc htail
      by_cases hall : d.len ≤ room
      · by_cases hcb : w.tcp.writeCompleteCallback_ = true
        · rw [if_pos ⟨hall, hcb⟩] at hc
          rcases hc with ⟨-, rfl⟩ | ⟨-, hr, -⟩
          · refine .written (d.bytes.take room) [.writeComplete] hp hp (by omega) (by simp) (fun _ => ?_) ?_
            · rw [if_pos (by omega), completeNote, if_pos hcb]
            · simp [call]
          · exact absurd hr (Nat.lt_irrefl 0)
        · rw [if_neg (fun hh => hcb hh.2)] at hc
          rcases hc with ⟨-, rfl⟩ | ⟨-, hr, -⟩
          · refine .written (d.bytes.take room) [] hp hp (by omega) (by simp) (fun _ => ?_) rfl
            rw [completeNote, if_neg hcb, ite_self]
          · exact absurd hr (by simp only; omega)
      · rw [if_neg (fun hh => hall hh.1)] at hc htail
        rcases hc with ⟨-, rfl⟩ | ⟨hf, hr, hb⟩
        · refine .written (d.bytes.take room) [] hp hp (by omega) (by simp) (fun _ => ?_) rfl
          rw [if_neg (by omega)]
        · refine .rest (d.bytes.take room) 0 (d.len - room) hp hr (by omega) ?_ ?_
          · rw [hb.pending_eq, call_pending, hp]
            simp
          · rw [htail hf hr]
            simp [call]
  · rw [firstWrite_of_pending hs hp] at hc htail
    rcases hc with ⟨hz, rfl⟩ | ⟨hf, hr, hb⟩
    · exact .nothing hp (by simpa using hz) rfl
    · refine .behind hp hr ?_ (htail hf hr)
      rw [hb.pending_eq, List.length_append, Span.read_length]

theorem drained_calls {w w' : LoopConn} (h : w.drained = .ok w') :
    w.SameSettings w' ∧ ∃ rest, (∀ c ∈ rest, ∃ n, c = ConnCall.shutdownWrite n) ∧
      w'.calls = w.calls ++ (w.completeNote ++ rest) := by
  obtain ⟨v, hv, h⟩ := bind_eq_ok.mp h
  obtain ⟨hvs, hvc, -⟩ := onChannel_frame hv
  have hnote : v.noteWriteComplete.calls = w.calls ++ w.completeNote := by
    rw [noteWriteComplete_calls_eq, hvc, completeNote, completeNote, hvs.complete_eq]
  have hsame : w.SameSettings v.noteWriteComplete := hvs.trans (SameSettings.of_tcp v.noteWriteComplete_tcp)
  generalize v.noteWriteComplete = u at h hnote hsame
  cases h
  split
  · unfold shutdownInLoop
    split
    · refine ⟨hsame.trans ⟨rfl, rfl, rfl⟩, [.shutdownWrite u.tcp.outputBuffer_.readableBytes], by simp, ?_⟩
      rw [call, hnote, List.append_assoc]
    · exact ⟨hsame, [], by simp, by rw [hnote, List.append_nil]⟩
  · exact ⟨hsame, [], by simp, by rw [hnote, List.append_nil]⟩

/-- A write that took all that was pending goes on to drain. -/
theorem handleWrite_drains {w w' : LoopConn} {k : WriteOutcome} (hs : w.Sound) (hw : w.isWriting = true)
    (hall : (sysWrite w.pending k).sent = w.pending) (h : w.handleWrite k = .ok w') :
    (w.wrote w.pending).drained = .ok w' := by
  have hne := hs.busy hw
  have hempty : (w.wrote w.pending).tcp.outputBuffer_.readableBytes = 0 := by
    refine (Buffer.retrieve_inv hs.output_inv _).readableBytes_eq_zero.mpr ?_
    exact (wrote_pending hs.output_inv w.pending).trans List.drop_length
  have hpos := List.length_pos_iff.mpr hne
  have hn : (sysWrite w.pending k).n = w.pending.length := by
    cases k with
    | fails e => exact absurd hall.symm hne
    | accepts room e =>
      have hlen := congrArg List.length hall
      simp only [sysWrite, List.length_take] at hlen ⊢
      omega
  rw [handleWrite, hw, if_pos rfl, Buffer.writeFd_eq hs.output_inv, ok_bind] at h
  generalize hr : sysWrite w.pending k = r at hall hn
  rw [show sysWrite w.tcp.outputBuffer_.readable k = r from hr] at h
  simp only [hn, hall, show (0 : Int) < w.pending.length by omega, if_true, Int.toNat_natCast] at h
  change (if (w.wrote w.pending).tcp.outputBuffer_.readableBytes = 0 then (w.wrote w.pending).drained
    else .ok (w.wrote w.pending)) = .ok w' at h
  rwa [if_pos hempty] at h

/-- A writable event without write interest, one that takes a part of what is pending,
and one that takes it all and reports so. -/
inductive WriteEffect (w w' : LoopConn) : Prop where
  | idle : w.isWriting = false → w' = w → WriteEffect w w'
  | part (sent : List Byte) : w'.pending ≠ [] → sent.length + w'.pending.length = w.pending.length →
      w'.calls = w.calls ++ [.write sent] → WriteEffect w w'
  | all (rest : List ConnCall) : w.pending ≠ [] → w'.pending = [] → (∀ c ∈ rest, ∃ n, c = .shutdownWrite n) →
      w'.calls = w.calls ++ .write w.pending :: (w.completeNote ++ rest) → WriteEffect w w'

theorem handleWrite_effect {w w' : LoopConn} {k : WriteOutcome} (hs : w.Sound) (h : w.handleWrite k = .ok w') :
    w.SameSettings w' ∧ w.WriteEffect w' := by
  rcases handleWrite_cases hs h with ⟨hw, rfl⟩ | ⟨hw, rfl⟩ | ⟨sent, hw, hpre, hne, rfl⟩ | ⟨hw, hall, hd⟩
  · exact ⟨SameSettings.of_tcp rfl, .idle hw rfl⟩
  · exact ⟨SameSettings.of_tcp rfl, .part [] (hs.busy hw) (Nat.zero_add _) rfl⟩
  · refine ⟨⟨rfl, rfl, rfl⟩, .part sent ?_ ?_ rfl⟩
    · rwa [wrote_pending hs.output_inv]
    · have hle := hpre.length_le
      rw [wrote_pending hs.output_inv, List.length_drop]
      omega
  · obtain ⟨hset, rest, hrest, hc⟩ := drained_calls (handleWrite_drains hs hw hall h)
    refine ⟨SameSettings.trans (v := w.wrote w.pending) ⟨rfl, rfl, rfl⟩ hset, .all rest (hs.busy hw) (hd.pending_eq_nil hs.output_inv) hrest ?_⟩
    rw [hc]
    exact List.append_assoc w.calls [.write w.pending] _

theorem shutdown_effect (w : LoopConn) : w.SameSettings w.shutdown ∧ w.shutdown.pending = w.pending ∧
    ∃ rest, (∀ c ∈ rest, ∃ n, c = ConnCall.shutdownWrite n) ∧ w.shutdown.calls = w.calls ++ rest := by
  unfold shutdown shutdownInLoop
  split
  · split
    · exact ⟨⟨rfl, rfl, rfl⟩, rfl, [.shutdownWrite w.tcp.outputBuffer_.readableBytes], by simp, rfl⟩
    · exact ⟨⟨rfl, rfl, rfl⟩, rfl, [], by simp, (List.append_nil _).symm⟩
  · exact ⟨⟨rfl, rfl, rfl⟩, rfl, [], by simp, (List.append_nil _).symm⟩

/-- On a closed connection the user can do nothing to the output. -/
theorem closedRule : UserRule fun w w' => w.tcp.state_ = .kDisconnected → w'.tcp.state_ = .kDisconnected ∧
    w.SameSettings w' ∧ w'.pending = w.pending ∧ w'.calls = w.calls where
  refl w hst := ⟨hst, SameSettings.of_tcp rfl, rfl, rfl⟩
  trans h h' hst := by
    obtain ⟨hv, hset, hp, hc⟩ := h hst
    obtain ⟨hw, hset', hp', hc'⟩ := h' hv
    exact ⟨hw, hset.trans hset', hp'.trans hp, hc'.trans hc⟩
  send {w w' d k} h hst := by
    rw [send, if_neg (by simp [hst])] at h
    cases h
    exact ⟨hst, SameSettings.of_tcp rfl, rfl, rfl⟩
  shutdown w hst := by
    rw [shutdown, if_neg (by simp [hst])]
    exact ⟨hst, SameSettings.of_tcp rfl, rfl, rfl⟩
  setInput w b hst := ⟨hst, ⟨rfl, rfl, rfl⟩, rfl, rfl⟩

theorem handleClose_effect {w w' : LoopConn} {cs : List UserCall} (h : w.handleClose cs = .ok w') :
    w.SameSettings w' ∧ w'.pending = w.pending ∧ w'.calls = w.calls ++ down := by
  obtain ⟨u, hu, h⟩ := bind_eq_ok.mp h
  obtain ⟨v, hv, h⟩ := bind_eq_ok.mp h
  cases h
  obtain ⟨hus, huc, hup, hust⟩ := onChannel_frame hu
  obtain ⟨-, hvs, hvp, hvc⟩ := closedRule.user hv hust
  have hwu : w.SameSettings u := SameSettings.trans (v := w.setState .kDisconnected) ⟨rfl, rfl, rfl⟩ hus
  have huv : u.SameSettings v := SameSettings.trans (v := u.call _) ⟨rfl, rfl, rfl⟩ hvs
  refine ⟨(hwu.trans huv).trans ⟨rfl, rfl, rfl⟩, hvp.trans hup, ?_⟩
  have hcu : u.tcp.state_ = .kDisconnected := hust
  rw [call, hvc, call, huc]
  simp [setState, down, hcu]

theorem outputStep_sound {w w' : LoopConn} {op : OutputOp} (hs : w.Sound) (h : w.OutputStep op w') :
    w'.Sound ∧ w.SameSettings w' := by
  cases op with
  | shutdown =>
    cases h
    exact ⟨hs.shutdown, w.shutdown_effect.1⟩
  | close cs => exact ⟨(soundRule.handleClose h hs).1, (handleClose_effect h).1⟩
  | stream op =>
    cases op with
    | sendInLoop d k => exact ⟨(sendInLoop_sound hs h).1, sendInLoop_settings hs h⟩
    | handleWrite k => exact ⟨(handleWrite_sound hs h).1, (handleWrite_effect hs h).1⟩

theorem flatMap_high_eq_nil {cs : List ConnCall} (h : ∀ c ∈ cs, c.high = []) : cs.flatMap ConnCall.high = [] :=
  List.flatMap_eq_nil_iff.mpr h

theorem shutdownWrites_quiet {rest : List ConnCall} (h : ∀ c ∈ rest, ∃ n, c = ConnCall.shutdownWrite n) :
    rest.flatMap ConnCall.high = [] ∧ rest.flatMap ConnCall.sent = [] ∧ rest.count .writeComplete = 0 := by
  refine ⟨flatMap_high_eq_nil fun c hm => ?_, flatMap_sent_eq_nil fun c hm => ?_, List.count_eq_zero.mpr fun hm => ?_⟩
  · obtain ⟨n, rfl⟩ := h c hm
    rfl
  · obtain ⟨n, rfl⟩ := h c hm
    rfl
  · obtain ⟨n, he⟩ := h _ hm
    cases he

/-- Appending reports the size it crosses the mark with. -/
theorem highNote_high {w : LoopConn} (hs : w.Sound) (hcb : w.tcp.highWaterMarkCallback_ = true) {remaining : Nat}
    (hr : remaining ≤ maxSize) :
    (w.highNote remaining).flatMap ConnCall.high = crossing w.tcp.highWaterMark_ w.size (w.size + remaining) := by
  have hle := hs.size_le
  have hm := maxSize_lt
  have he : szAdd w.size remaining = w.size + remaining := szAdd_eq (by omega)
  rw [highNote, he, crossing]
  by_cases hc : w.size < w.tcp.highWaterMark_ ∧ w.tcp.highWaterMark_ ≤ w.size + remaining
  · rw [if_pos ⟨hc.2, hc.1, hcb⟩, if_pos hc]
    rfl
  · rw [if_neg (fun hh => hc ⟨hh.2.1, hh.1⟩), if_neg hc]
    rfl

theorem sendInLoop_highs {w w' : LoopConn} {d : Span} {k : WriteOutcome} (hs : w.Sound)
    (hcb : w.tcp.highWaterMarkCallback_ = true) (h : w.sendInLoop d k = .ok w') :
    ∃ cs, w'.calls = w.calls ++ cs ∧
      cs.flatMap ConnCall.high = crossing w.tcp.highWaterMark_ w.size w'.size := by
  have hself : crossing w.tcp.highWaterMark_ w.size w.size = [] := crossing_eq_nil id
  by_cases hst : w.tcp.state_ = .kDisconnected
  · rw [sendInLoop, if_pos hst] at h
    cases h
    exact ⟨[], (List.append_nil _).symm, hself.symm⟩
  have hs' := (sendInLoop_sound hs h).1
  have hz : ∀ v : LoopConn, v.Sound → v.pending = [] → v.size = 0 := fun v hv hp => by
    rw [hv.size_eq, hp, List.length_nil]
  cases sendInLoop_effect hs hst h with
  | nothing _ _ he =>
    rw [he]
    exact ⟨[], (List.append_nil _).symm, hself.symm⟩
  | behind _ _ hp hc =>
    refine ⟨_, hc, ?_⟩
    have hsize : w'.size = w.size + d.len := by rw [hs'.size_eq, hs.size_eq, hp]
    rw [List.flatMap_append, highNote_high hs hcb d.len_le, hsize]
    exact List.append_nil _
  | written sent notes hp hp' _ hn _ hc =>
    refine ⟨_, hc, ?_⟩
    rw [hz w hs hp, hz w' hs' hp', crossing_eq_nil id, List.flatMap_cons,
      flatMap_high_eq_nil fun c hm => by rw [hn c hm]; rfl]
    rfl
  | rest sent nwrote remaining hp _ hsum hp' hc =>
    refine ⟨_, hc, ?_⟩
    have hle := d.len_le
    have hsize : w'.size = w.size + remaining := by rw [hs'.size_eq, hp', hz w hs hp, Nat.zero_add]
    rw [List.flatMap_cons, List.flatMap_append, highNote_high hs hcb (by omega), hsize]
    exact List.append_nil _

theorem handleWrite_highs {w w' : LoopConn} {k : WriteOutcome} (hs : w.Sound) (h : w.handleWrite k = .ok w') :
    ∃ cs, w'.calls = w.calls ++ cs ∧
      cs.flatMap ConnCall.high = crossing w.tcp.highWaterMark_ w.size w'.size := by
  -- a drain never crosses upwards
  have hdown : w'.pending.length ≤ w.pending.length → crossing w.tcp.highWaterMark_ w.size w'.size = [] := by
    intro hle
    rw [hs.size_eq, (handleWrite_sound hs h).1.size_eq]
    exact crossing_eq_nil fun hlt => by omega
  cases (handleWrite_effect hs h).2 with
  | idle _ he =>
    subst he
    exact ⟨[], (List.append_nil _).symm, (hdown (Nat.le_refl _)).symm⟩
  | part sent _ hsum hc => exact ⟨_, hc, (hdown (by omega)).symm⟩
  | all rest _ hp hrest hc =>
    refine ⟨_, hc, ?_⟩
    rw [hdown (by rw [hp]; exact Nat.zero_le _), List.flatMap_cons, List.flatMap_append,
      (shutdownWrites_quiet hrest).1]
    unfold completeNote
    split <;> rfl

/-- Each step queues a high-water functor exactly if it crosses the mark. -/
theorem outputStep_highs {w w' : LoopConn} {op : OutputOp} (hs : w.Sound)
    (hcb : w.tcp.highWaterMarkCallback_ = true) (h : w.OutputStep op w') :
    ∃ cs, w'.calls = w.calls ++ cs ∧
      cs.flatMap ConnCall.high = crossing w.tcp.highWaterMark_ w.size w'.size := by
  cases op with
  | shutdown =>
    cases h
    obtain ⟨-, hp, rest, hrest, hc⟩ := w.shutdown_effect
    refine ⟨rest, hc, ?_⟩
    rw [hs.shutdown.size_eq, hp, hs.size_eq, crossing_eq_nil id]
    exact (shutdownWrites_quiet hrest).1
  | close cs =>
    obtain ⟨-, hp, hc⟩ := handleClose_effect h
    refine ⟨down, hc, ?_⟩
    rw [(soundRule.handleClose h hs).1.size_eq, hp, hs.size_eq, crossing_eq_nil id]
    rfl
  | stream op =>
    cases op with
    | sendInLoop d k => exact sendInLoop_highs hs hcb h
    | handleWrite k => exact handleWrite_highs hs h

/-- What a log that starts at `w₀` says of high-water functors, at `w`. -/
structure HighNoted (w₀ : LoopConn) (p : LoopConn × List StepNote) : Prop where
  sound : p.1.Sound
  settings : w₀.SameSettings p.1
  highs_eq : p.2.map StepNote.highs = upcrossings w₀.tcp.highWaterMark_ w₀.size (p.2.map StepNote.size)
  last_eq : (p.2.map StepNote.size).getLastD w₀.size = p.1.size
  calls_eq : p.1.calls.flatMap ConnCall.high =
    w₀.calls.flatMap ConnCall.high ++ (p.2.map StepNote.highs).flatten

theorem run_highNoted {w₀ w : LoopConn} {ops : List OutputOp} {log : List StepNote} (hs : w₀.Sound)
    (hcb : w₀.tcp.highWaterMarkCallback_ = true) (hr : Run (Noted OutputStep noteStep) (w₀, []) ops (w, log)) :
    w₀.HighNoted (w, log) := by
  refine hr.invariant (I := w₀.HighNoted) ?_
    ⟨hs, SameSettings.of_tcp rfl, rfl, rfl, (List.append_nil _).symm⟩
  rintro ⟨u, log⟩ op ⟨v, log'⟩ ⟨hu, hset, hhighs, hlast, hcalls⟩ ⟨hstep, hlog⟩
  obtain rfl : log' = log ++ [u.stepNote op v] := hlog
  simp only at hu hset hhighs hlast hcalls hstep
  obtain ⟨hv, hset'⟩ := outputStep_sound hu hstep
  obtain ⟨cs, hcs, hcross⟩ := outputStep_highs hu (by rw [hset.high_eq, hcb]) hstep
  have hnote : (u.stepNote op v).highs = crossing w₀.tcp.highWaterMark_ u.size v.size := by
    rw [StepNote.highs, stepNote, hcs, List.drop_left, hcross, hset.mark_eq]
  refine ⟨hv, hset.trans hset', ?_, ?_, ?_⟩
  · simp only [List.map_append, List.map_cons, List.map_nil]
    rw [hhighs, hnote, show (u.stepNote op v).size = v.size from rfl, upcrossings_concat, hlast]
  · simp only [List.map_append, List.map_cons, List.map_nil]
    exact List.getLastD_concat
  · simp only [List.map_append, List.map_cons, List.map_nil, List.flatten_append, List.flatten_singleton]
    rw [hcs, List.flatMap_append, hcalls, hnote, hcross, hset.mark_eq, List.append_assoc]

/-- The high-water functors are the crossings of the mark by the size of the buffer:
each is queued in the step that makes the crossing and carries the size right after it,
and between two of them the size has been below the mark. -/
theorem high_water_crossings {w₀ w : LoopConn} {ops : List OutputOp} {log : List StepNote}
    (h₀ : w₀.Established) (hcb : w₀.tcp.highWaterMarkCallback_ = true)
    (hr : Run (Noted OutputStep noteStep) (w₀, []) ops (w, log)) :
    log.map StepNote.highs = upcrossings w₀.tcp.highWaterMark_ 0 (log.map StepNote.size) ∧
      (w.calls.flatMap ConnCall.high).length =
        (upcrossings w₀.tcp.highWaterMark_ 0 (log.map StepNote.size)).flatten.length ∧
      ∀ before n between n' after, log = before ++ n :: (between ++ n' :: after) → n.highs ≠ [] →
        n'.highs ≠ [] → ∃ d ∈ between, d.size < w₀.tcp.highWaterMark_ := by
  obtain ⟨hsteady, -, hp, hc⟩ := h₀.steady
  have hz : w₀.size = 0 := by rw [hsteady.sound.size_eq, hp, List.length_nil]
  obtain ⟨-, -, hhighs, -, hcalls⟩ := run_highNoted hsteady.sound hcb hr
  rw [hz] at hhighs
  refine ⟨hhighs, ?_, fun before n between n' after hlog hn hn' => ?_⟩
  · rw [← hhighs, hcalls, hc]
    rfl
  · rw [hlog] at hhighs
    simp only [List.map_append, List.map_cons] at hhighs
    obtain ⟨x, hx, hlt⟩ := below_between hhighs.symm (by simp) (by simp) hn hn'
    obtain ⟨d, hd, rfl⟩ := List.mem_map.mp hx
    exact ⟨d, hd, hlt⟩

/-- A mark of one byte is crossed by the first send, and after a drain by the second. -/
theorem high_water_crossings_twice : ∃ (w₀ w : LoopConn) (log : List StepNote), w₀.Established ∧
    Run (Noted OutputStep noteStep) (w₀, []) [.stream (.sendInLoop .ab (.accepts 0 EWOULDBLOCK)),
      .stream (.handleWrite (.accepts 2 0)), .stream (.sendInLoop .ab (.fails EWOULDBLOCK))] (w, log) ∧
    w.calls.flatMap ConnCall.high = [2, 2] ∧
    log.map StepNote.highs = upcrossings w₀.tcp.highWaterMark_ 0 (log.map StepNote.size) ∧
      (w.calls.flatMap ConnCall.high).length =
        (upcrossings w₀.tcp.highWaterMark_ 0 (log.map StepNote.size)).flatten.length ∧
      ∀ before n between n' after, log = before ++ n :: (between ++ n' :: after) → n.highs ≠ [] →
        n'.highs ≠ [] → ∃ d ∈ between, d.size < w₀.tcp.highWaterMark_ := by
  have hok : (do
      let c ← TcpConnection.new 0 5 false true 1
      let w₀ ← (⟨c, EPollPoller.new, []⟩ : LoopConn).connectEstablished []
      let w ← w₀.sendInLoop .ab (.accepts 0 EWOULDBLOCK)
      let w ← w.handleWrite (.accepts 2 0)
      let w ← w.sendInLoop .ab (.fails EWOULDBLOCK)
      return decide (w₀.tcp.highWaterMarkCallback_ = true ∧
        w.calls.flatMap ConnCall.high = [2, 2])).toOption = some true := by decide +kernel
  obtain ⟨c, hc, h⟩ := bind_eq_ok.mp (toOption_eq_some.mp hok)
  obtain ⟨w₀, hw₀, h⟩ := bind_eq_ok.mp h
  obtain ⟨w₁, h₁, h⟩ := bind_eq_ok.mp h
  obtain ⟨w₂, h₂, h⟩ := bind_eq_ok.mp h
  obtain ⟨w₃, h₃, h⟩ := bind_eq_ok.mp h
  obtain ⟨hcb, hcalls⟩ : w₀.tcp.highWaterMarkCallback_ = true ∧ w₃.calls.flatMap ConnCall.high = [2, 2] := by
    injection h with h
    exact of_decide_eq_true h
  have h₀ : w₀.Established := ⟨_, _, _, _, _, c, _, hc, ⟨rfl, rfl⟩, hw₀⟩
  have hrun : Run OutputStep w₀ [.stream (.sendInLoop .ab (.accepts 0 EWOULDBLOCK)),
      .stream (.handleWrite (.accepts 2 0)), .stream (.sendInLoop .ab (.fails EWOULDBLOCK))] w₃ :=
    .snoc (.snoc (.single h₁) h₂) h₃
  obtain ⟨log, hlog⟩ := hrun.exists_noted noteStep []
  exact ⟨w₀, w₃, log, h₀, hlog, hcalls, high_water_crossings h₀ hcb hlog⟩

end LoopConn

end MyMuduo
