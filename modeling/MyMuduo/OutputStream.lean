import MyMuduo.ConnectionSpec

/-! The output stream: what the kernel took, followed by what is still buffered,
against the arguments of the sends. -/

namespace MyMuduo

def ConnCall.sent : ConnCall → List Byte
  | .write sent => sent
  | _ => []

inductive StreamOp where
  | sendInLoop (d : Span) (k : WriteOutcome)
  | handleWrite (k : WriteOutcome)

def StreamOp.data : StreamOp → List Byte
  | .sendInLoop d _ => d.bytes
  | .handleWrite _ => []

namespace LoopConn

def execStream (w : LoopConn) : StreamOp → Except Fault LoopConn
  | .sendInLoop d k => w.sendInLoop d k
  | .handleWrite k => w.handleWrite k

def StreamStep (w : LoopConn) (op : StreamOp) (w' : LoopConn) : Prop := w.execStream op = .ok w'

/-- The bytes the kernel accepted, in order. -/
def accepted (w : LoopConn) : List Byte := w.calls.flatMap ConnCall.sent

/-- The stream is the data given, and every append read inside its argument. -/
structure Intact (data : List Byte) (w : LoopConn) : Prop where
  stream_eq : w.accepted ++ w.pending = data
  in_range : ∀ offset n len, ConnCall.buffered offset n len ∈ w.calls → 0 ≤ offset ∧ offset + n ≤ len

/-- A direct write that takes everything, or fails with an empty argument, or
leaves a tail that reads as the head that is buffered in its place, with an
`errno` that is not taken for a fault. -/
def Harmless (w : LoopConn) : StreamOp → Prop
  | .sendInLoop d (.accepts room e) => w.pending = [] → d.len ≤ room ∨
      (¬ (e = EPIPE ∨ e = ECONNRESET) ∧ d.read 0 (d.len - room) = d.read room (d.len - room))
  | .sendInLoop d (.fails _) => w.pending = [] → d.len = 0
  | .handleWrite _ => True

theorem accepted_append {w w' : LoopConn} (cs : List ConnCall) (h : w'.calls = w.calls ++ cs) :
    w'.accepted = w.accepted ++ cs.flatMap ConnCall.sent := by
  rw [accepted, h, List.flatMap_append]
  rfl

theorem flatMap_sent_eq_nil {cs : List ConnCall} (h : ∀ c ∈ cs, c.sent = []) : cs.flatMap ConnCall.sent = [] :=
  List.flatMap_eq_nil_iff.mpr h

theorem Buffered.accepted_eq {w w' : LoopConn} {d : Span} {nwrote : Int} {remaining : Nat}
    (h : w.Buffered w' d nwrote remaining) : w'.accepted = w.accepted := by
  obtain ⟨notes, hn, hc⟩ := h.calls_eq
  have hnotes : notes.flatMap ConnCall.sent = [] := by
    refine flatMap_sent_eq_nil fun c hm => ?_
    obtain ⟨m, rfl⟩ := hn c hm
    rfl
  rw [accepted_append _ (hc.trans (List.append_assoc _ _ _)), List.flatMap_append, hnotes]
  simp [ConnCall.sent]

/-- Appending within range adds the bytes read to the stream. -/
theorem Buffered.intact {w w' : LoopConn} {d : Span} {nwrote : Int} {remaining : Nat} {data : List Byte}
    (h : w.Buffered w' d nwrote remaining) (hi : ∀ offset n len, ConnCall.buffered offset n len ∈ w.calls →
      0 ≤ offset ∧ offset + n ≤ len) :
    w'.Intact data ↔ w.accepted ++ w.pending ++ d.read nwrote remaining = data ∧ 0 ≤ nwrote ∧
      nwrote + remaining ≤ d.len := by
  obtain ⟨notes, hn, hc⟩ := h.calls_eq
  have hs : w'.accepted ++ w'.pending = w.accepted ++ w.pending ++ d.read nwrote remaining := by
    rw [h.accepted_eq, h.pending_eq, List.append_assoc]
  constructor
  · rintro ⟨he, hr⟩
    exact ⟨hs ▸ he, hr _ _ _ (by rw [hc]; simp)⟩
  · rintro ⟨he, hr⟩
    refine ⟨hs.trans he, fun offset n len hm => ?_⟩
    rw [hc, List.append_assoc, List.mem_append, List.mem_append, List.mem_singleton] at hm
    rcases hm with hm | hm | hm
    · exact hi offset n len hm
    · obtain ⟨m, hm⟩ := hn _ hm
      cases hm
    · cases hm
      exact hr

/-- Calls that leave no trace of an append, as after a direct write. -/
theorem intact_of_calls {w w' : LoopConn} {data data' : List Byte} (hi : w.Intact data) (cs : List ConnCall)
    (hc : w'.calls = w.calls ++ cs) (hb : ∀ offset n len, ConnCall.buffered offset n len ∉ cs) :
    w'.Intact data' ↔ w.accepted ++ cs.flatMap ConnCall.sent ++ w'.pending = data' := by
  rw [← accepted_append cs hc]
  refine ⟨fun h => h.stream_eq, fun h => ⟨h, fun offset n len hm => ?_⟩⟩
  rw [hc, List.mem_append] at hm
  rcases hm with hm | hm
  · exact hi.in_range offset n len hm
  · exact absurd hm (hb offset n len)

theorem Intact.in_range_write {w : LoopConn} {data : List Byte} (hi : w.Intact data) (sent : List Byte) :
    ∀ offset n len, ConnCall.buffered offset n len ∈ (w.call (.write sent)).calls →
      0 ≤ offset ∧ offset + n ≤ len := by
  intro offset n len hm
  rcases List.mem_append.mp hm with hm | hm
  · exact hi.in_range offset n len hm
  · cases List.mem_singleton.mp hm

theorem faultError_iff (e : Errno) :
    (e ≠ EWOULDBLOCK ∧ (e = EPIPE ∨ e = ECONNRESET)) ↔ (e = EPIPE ∨ e = ECONNRESET) := by
  refine ⟨fun h => h.2, fun h => ⟨?_, h⟩⟩
  rcases h with rfl | rfl <;> decide

/-- A send behind bytes that are still pending is buffered whole. -/
theorem sendInLoop_pending_intact {w w' : LoopConn} {d : Span} {k : WriteOutcome} {data : List Byte}
    (hs : w.Sound) (hst : w.tcp.state_ ≠ .kDisconnected) (hi : w.Intact data) (hp : w.pending ≠ [])
    (h : w.sendInLoop d k = .ok w') : w'.Intact (data ++ d.bytes) := by
  have hc := sendInLoop_cases hs hst h
  rw [firstWrite_of_pending hs hp] at hc
  rcases hc with ⟨hz, rfl⟩ | ⟨-, -, hb⟩
  · have hlen : d.bytes = [] := List.length_eq_zero_iff.mp (by simpa using hz)
    rwa [hlen, List.append_nil]
  · exact (hb.intact hi.in_range).mpr ⟨by rw [hi.stream_eq]; rfl, Int.le_refl _, by simp⟩

/-- A direct write that failed is buffered from one byte before the argument. -/
theorem sendInLoop_fails_intact {w w' : LoopConn} {d : Span} {e : Errno} {data : List Byte}
    (hs : w.Sound) (hst : w.tcp.state_ ≠ .kDisconnected) (hi : w.Intact data) (hp : w.pending = [])
    (h : w.sendInLoop d (.fails e) = .ok w') : w'.Intact (data ++ d.bytes) ↔ d.len = 0 := by
  have hc := sendInLoop_cases hs hst h
  rw [firstWrite_of_nil hs hp, directWrite_fails] at hc
  rcases hc with ⟨hz, rfl⟩ | ⟨-, hr, hb⟩
  · have hz : d.len = 0 := by simpa using hz
    have hlen : d.bytes = [] := List.length_eq_zero_iff.mp (by simpa using hz)
    rw [intact_of_calls hi [.write []] rfl (by simp), hlen]
    simpa [ConnCall.sent, hz] using hi.stream_eq
  · have hne : d.len ≠ 0 := Nat.pos_iff_ne_zero.mp hr
    rw [hb.intact (hi.in_range_write _)]
    exact ⟨fun hh => absurd hh.2.1 (show ¬ (0 : Int) ≤ -1 by decide), fun hh => absurd hh hne⟩

/-- A direct write that returned a count keeps the stream when it took everything,
or when the head buffered for the tail reads like it. -/
theorem sendInLoop_accepts_intact {w w' : LoopConn} {d : Span} {room : Nat} {e : Errno} {data : List Byte}
    (hs : w.Sound) (hst : w.tcp.state_ ≠ .kDisconnected) (hi : w.Intact data) (hp : w.pending = [])
    (h : w.sendInLoop d (.accepts room e) = .ok w') :
    w'.Intact (data ++ d.bytes) ↔ d.len ≤ room ∨
      (¬ (e = EPIPE ∨ e = ECONNRESET) ∧ d.read 0 (d.len - room) = d.read room (d.len - room)) := by
  have hc := sendInLoop_cases hs hst h
  have hacc : w.accepted = data := by simpa [hp] using hi.stream_eq
  rw [firstWrite_of_nil hs hp, directWrite_accepts] at hc
  by_cases hle : d.len ≤ room
  · have htake : d.bytes.take room = d.bytes := List.take_of_length_le (by simpa using hle)
    have hcalls : ∃ notes, (∀ c ∈ notes, c = ConnCall.writeComplete) ∧
        w'.calls = w.calls ++ (.write d.bytes :: notes) ∧ w'.pending = [] := by
      rw [htake] at hc
      split at hc
      · rcases hc with ⟨-, rfl⟩ | ⟨-, hr, -⟩
        · exact ⟨[.writeComplete], by simp, by simp [call], hp⟩
        · exact absurd hr (Nat.lt_irrefl 0)
      · rcases hc with ⟨-, rfl⟩ | ⟨-, hr, -⟩
        · exact ⟨[], by simp, rfl, hp⟩
        · exact absurd hr (by simp only; omega)
    obtain ⟨notes, hn, hca, hpe⟩ := hcalls
    have hsent : notes.flatMap ConnCall.sent = [] :=
      flatMap_sent_eq_nil fun c hm => by rw [hn c hm]; rfl
    refine iff_of_true ((intact_of_calls hi _ hca ?_).mpr ?_) (Or.inl hle)
    · intro offset n len hm
      rcases List.mem_cons.mp hm with hm | hm
      · cases hm
      · cases hn _ hm
    · simp [ConnCall.sent, hsent, hpe, hacc]
  · rw [if_neg (fun hh => hle hh.1)] at hc
    have hlt : room ≤ d.len := by omega
    have htake : d.bytes.take room = d.read 0 room := d.bytes_take hlt
    simp only [decide_eq_true_eq, decide_eq_false_iff_not, faultError_iff] at hc
    rw [or_iff_right hle]
    rcases hc with ⟨hf, rfl⟩ | ⟨hf, hr, hb⟩
    · have hf : e = EPIPE ∨ e = ECONNRESET := hf.resolve_right (by omega)
      rw [intact_of_calls hi [.write (d.bytes.take room)] rfl (by simp)]
      refine ⟨fun hh => ?_, fun hh => absurd hf hh.1⟩
      have hlen := congrArg List.length hh
      simp [ConnCall.sent, call, pending, show w.tcp.outputBuffer_.readable = [] from hp, hacc] at hlen
      omega
    · have hstream : (w.call (.write (d.bytes.take room))).accepted ++
          (w.call (.write (d.bytes.take room))).pending = data ++ d.read 0 room := by
        rw [accepted_append [.write (d.bytes.take room)] rfl, hacc, htake,
          show (w.call (.write (d.read 0 room))).pending = [] from hp]
        simp [ConnCall.sent]
      rw [hb.intact (hi.in_range_write _), hstream, d.bytes_split hlt, ← List.append_assoc,
        List.append_cancel_left_eq]
      exact ⟨fun hh => ⟨hf, hh.1⟩, fun hh => ⟨hh.2, Int.le_refl _, by omega⟩⟩

theorem handleWrite_intact {w w' : LoopConn} {k : WriteOutcome} {data : List Byte} (hs : w.Sound)
    (hi : w.Intact data) (h : w.handleWrite k = .ok w') : w'.Intact data := by
  rcases handleWrite_cases hs h with ⟨-, rfl⟩ | ⟨-, rfl⟩ | ⟨sent, -, hpre, -, rfl⟩ | ⟨-, -, hd⟩
  · exact hi
  · refine (intact_of_calls hi [.write []] rfl (by simp)).mpr ?_
    simpa [ConnCall.sent] using hi.stream_eq
  · refine (intact_of_calls hi [.write sent] rfl (by simp)).mpr ?_
    have hsplit : sent ++ w.pending.drop sent.length = w.pending := by
      obtain ⟨tail, ht⟩ := hpre
      rw [← ht, List.drop_left]
    rw [wrote_pending hs.output_inv, List.append_assoc]
    simpa [ConnCall.sent, hsplit] using hi.stream_eq
  · obtain ⟨notes, hn, hc⟩ := hd.calls_eq
    have hp : w'.pending = [] := by
      rw [pending, hd.output_eq]
      exact (wrote_pending hs.output_inv w.pending).trans (List.drop_length)
    generalize hx : (if (w.wrote w.pending).tcp.state_ = .kDisconnecting then
      [ConnCall.shutdownWrite (w.wrote w.pending).tcp.outputBuffer_.readableBytes] else []) = x at hc
    have hq : ∀ c ∈ notes ++ x, c.sent = [] ∧ ∀ offset n len, c ≠ .buffered offset n len := by
      intro c hm
      rcases List.mem_append.mp hm with hm | hm
      · rw [hn c hm]
        exact ⟨rfl, by simp⟩
      · rw [← hx] at hm
        split at hm
        · rw [List.mem_singleton.mp hm]
          exact ⟨rfl, by simp⟩
        · cases hm
    have hca : w'.calls = w.calls ++ (.write w.pending :: (notes ++ x)) := by
      rw [hc]
      simp [wrote, call, setOutput]
    refine (intact_of_calls hi _ hca fun offset n len hm => ?_).mpr ?_
    · rcases List.mem_cons.mp hm with hm | hm
      · cases hm
      · exact (hq _ hm).2 offset n len rfl
    · rw [List.flatMap_cons, flatMap_sent_eq_nil fun c hm => (hq c hm).1, hp]
      simpa [ConnCall.sent] using hi.stream_eq

/-- One step keeps the stream exactly when it is harmless. -/
theorem stream_step_iff {w w' : LoopConn} {op : StreamOp} {data : List Byte} (hs : w.Sound)
    (hst : w.tcp.state_ ≠ .kDisconnected) (hi : w.Intact data) (h : w.StreamStep op w') :
    w'.Intact (data ++ op.data) ↔ w.Harmless op := by
  cases op with
  | handleWrite k =>
    rw [StreamOp.data, List.append_nil]
    exact iff_of_true (handleWrite_intact hs hi h) trivial
  | sendInLoop d k =>
    by_cases hp : w.pending = []
    · cases k with
      | fails e =>
        rw [Harmless, StreamOp.data, sendInLoop_fails_intact hs hst hi hp h]
        exact ⟨fun hh _ => hh, fun hh => hh hp⟩
      | accepts room e =>
        rw [Harmless, StreamOp.data, sendInLoop_accepts_intact hs hst hi hp h]
        exact ⟨fun hh _ => hh, fun hh => hh hp⟩
    · refine iff_of_true (sendInLoop_pending_intact hs hst hi hp h) ?_
      cases k with
      | fails e => exact fun hh => absurd hh hp
      | accepts room e => exact fun hh => absurd hh hp

theorem stream_step_live {w w' : LoopConn} {op : StreamOp}
    (hs : w.Sound ∧ w.tcp.state_ ≠ .kDisconnected) (h : w.StreamStep op w') :
    w'.Sound ∧ w'.tcp.state_ ≠ .kDisconnected := by
  cases op with
  | sendInLoop d k =>
    obtain ⟨hs', -, hst⟩ := sendInLoop_sound hs.1 h
    exact ⟨hs', hst ▸ hs.2⟩
  | handleWrite k =>
    obtain ⟨hs', -, hst⟩ := handleWrite_sound hs.1 h
    exact ⟨hs', hst ▸ hs.2⟩

theorem Established.intact {w : LoopConn} (h : w.Established) : w.Intact [] := by
  obtain ⟨-, -, hp, hc⟩ := h.steady
  exact ⟨by simp [accepted, hp, hc, ConnCall.sent], by simp [hc]⟩

end LoopConn

end MyMuduo
