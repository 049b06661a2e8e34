import MyMuduo.Registration
import MyMuduo.ServerSteps

/-! What holds in every run of a server, torn down or not: each piece of work is on
the loop it belongs to, a connection is established once, and what is registered or
has closed was established. -/

namespace MyMuduo

namespace ServerWork

/-- The connection that the work will establish. -/
def establishes : ServerWork → Option ConnPtr
  | .connectEstablished c => some c
  | _ => none

/-- The connection whose event is being handled. -/
def event : ServerWork → Option ConnPtr
  | .close c => some c
  | .closeCallback c => some c
  | .read c => some c
  | .write c => some c
  | _ => none

end ServerWork

namespace ServerSystem

/-- A connection of loop `l`, which was established there. -/
structure Registered (s : ServerSystem) (l : LoopId) (c : ConnPtr) : Prop where
  lt : c < s.map.created
  loopOf_eq : s.loopOf c = l
  established : s.established c = true

/-- A connection that `handleClose` has closed. -/
structure Shut (s : ServerSystem) (c : ConnPtr) : Prop where
  lt : c < s.map.created
  established : s.established c = true
  state_eq : (s.conns c).state_ = .kDisconnected

/-- What the work of loop `l` is about. -/
def Placed (s : ServerSystem) (l : LoopId) : ServerWork → Prop
  | .connectEstablished c => (c < s.map.created ∧ s.loopOf c = l) ∧ s.established c = false
  | .connectDestroyed c => c < s.map.created ∧ s.loopOf c = l
  | .removeConnectionInLoop c => l = 0 ∧ s.Shut c
  | .close c => s.Registered l c
  | .closeCallback c => s.Registered l c ∧ s.Shut c
  | .read c => s.Registered l c
  | .write c => s.Registered l c
  | _ => True

structure LoopInv (s : ServerSystem) (l : LoopId) : Prop where
  placed : ∀ w ∈ (s.loops l).items, s.Placed l w
  once : ((s.loops l).items.filterMap ServerWork.establishes).Nodup
  queued : ∀ w ∈ (s.loops l).queue.batch ++ (s.loops l).queue.pending, w.event = none
  between : (s.loops l).phase ≠ .functors → (s.loops l).queue.batch = []
  active : ∀ c revents, .channel c revents ∈ (s.loops l).active → s.Registered l c
  watched : ∀ fd e, (s.loops l).poller.epollfd_ fd = some e → s.Registered l e.ptr

structure CoreInv (s : ServerSystem) : Prop where
  numbered : s.map.Numbered s.config.name_ s.config.listenAddr.toIpPort
  self_eq : ∀ c < s.map.created, (s.conns c).channel_.self = c
  next_eq : s.config.numThreads_ ≠ 0 → s.next_ = s.map.created % s.config.numThreads_
  loopOf_eq : ∀ c < s.map.created, s.loopOf c = if s.config.numThreads_ = 0 then 0 else c % s.config.numThreads_ + 1
  destroyed : ∀ c, ∀ l ∈ s.destroyedOn c, c < s.map.created ∧ l = s.loopOf c
  established_lt : ∀ c, s.established c = true → c < s.map.created
  connecting : ∀ c < s.map.created, s.established c = false → (s.conns c).state_ = .kConnecting
  loops : ∀ l, s.LoopInv l

/-- The system has moved on: nothing has been established or closed in vain. -/
structure Later (s t : ServerSystem) : Prop where
  created_le : s.map.created ≤ t.map.created
  loopOf_eq : ∀ c < s.map.created, t.loopOf c = s.loopOf c
  established : ∀ c, s.established c = true → t.established c = true
  closed : ∀ c < s.map.created, s.established c = true → (s.conns c).state_ = .kDisconnected →
    (t.conns c).state_ = .kDisconnected

theorem Registered.later {s t : ServerSystem} {l : LoopId} {c : ConnPtr} (h : s.Registered l c) (hl : s.Later t) :
    t.Registered l c :=
  ⟨Nat.lt_of_lt_of_le h.lt hl.created_le, (hl.loopOf_eq c h.lt).trans h.loopOf_eq, hl.established c h.established⟩

theorem Shut.later {s t : ServerSystem} {c : ConnPtr} (h : s.Shut c) (hl : s.Later t) : t.Shut c :=
  ⟨Nat.lt_of_lt_of_le h.lt hl.created_le, hl.established c h.established, hl.closed c h.lt h.established h.state_eq⟩

theorem Placed.later {s t : ServerSystem} {l : LoopId} {w : ServerWork} (h : s.Placed l w) (hl : s.Later t)
    (he : ∀ c, w = .connectEstablished c → t.established c = false) : t.Placed l w := by
  have hlt : ∀ c, c < s.map.created ∧ s.loopOf c = l → c < t.map.created ∧ t.loopOf c = l := fun c hc =>
    ⟨Nat.lt_of_lt_of_le hc.1 hl.created_le, (hl.loopOf_eq c hc.1).trans hc.2⟩
  cases w with
  | connectEstablished c => exact ⟨hlt c h.1, he c rfl⟩
  | connectDestroyed c => exact hlt c h
  | removeConnectionInLoop c => exact ⟨h.1, h.2.later hl⟩
  | close c => exact Registered.later h hl
  | closeCallback c => exact ⟨h.1.later hl, h.2.later hl⟩
  | read c => exact Registered.later h hl
  | write c => exact Registered.later h hl
  | _ => trivial

theorem SameConns.later {s t : ServerSystem} (h : s.SameConns t) : s.Later t := by
  refine ⟨Nat.le_of_eq h.created_eq.symm, fun c _ => by rw [h.loopOf_eq], fun c hc => ?_, fun c _ _ hc => ?_⟩
  · rw [h.established_eq]
    exact hc
  · rw [h.conns_eq]
    exact hc

/-- The work of the loops keeps its place where some has been done and some been
added, none of it to establish a connection that has been seen before. -/
theorem loops_advance {s t : ServerSystem} {l : LoopId} {g front rest : List ServerWork}
    {back : LoopId → List ServerWork} (hi : ∀ i, s.LoopInv i) (hl : s.Later t) (ha : s.Advance t l front rest back)
    (ht : (s.loops l).todo = g ++ rest) (hfront : ∀ w ∈ front, t.Placed l w)
    (hback : ∀ i, ∀ w ∈ back i, w.event = none ∧ t.Placed i w)
    (hnew : ∀ i, (front ++ back i).filterMap ServerWork.establishes = [] ∨
      (front ++ back i).filterMap ServerWork.establishes = [s.map.created])
    (hest : ∀ c, t.established c = true → s.established c = true ∨ g = [.connectEstablished c])
    (hw : ∀ i fd e, (t.loops i).poller.epollfd_ fd = some e → t.Registered i e.ptr) (i : LoopId) : t.LoopInv i := by
  have hf := ha.flow ht
  have hlt : ∀ j, ∀ c ∈ (s.loops j).items.filterMap ServerWork.establishes, c < s.map.created := by
    intro j c hc
    obtain ⟨w, hm, he⟩ := List.mem_filterMap.mp hc
    cases w with
    | connectEstablished d =>
      cases he
      have hp : s.Placed j (.connectEstablished c) := (hi j).placed _ hm
      exact hp.1.1
    | _ => cases he
  have honce := (hi l).once
  rw [hf.before, List.filterMap_append] at honce
  refine ⟨fun w hm => ?_, ?_, fun w hm => ?_, fun hp => ?_, fun c revents hm => ?_, hw i⟩
  · rcases hf.mem hm with ⟨hs, hk⟩ | ⟨rfl, hm⟩ | hm
    · refine ((hi i).placed w hs).later hl fun c hc => ?_
      subst hc
      have hp : s.Placed i (.connectEstablished c) := (hi i).placed _ hs
      by_contra hne
      rcases hest c (by simpa using hne) with he | hg
      · rw [hp.2] at he
        cases he
      -- the one just established is not to be established again
      · have hpl : s.Placed l (.connectEstablished c) := (hi l).placed _ (by rw [hf.before, hg]; simp)
        have hk := hk (hp.1.2.symm.trans hpl.1.2)
        rw [hg] at honce
        exact (List.nodup_cons.mp honce).1 (List.mem_filterMap.mpr ⟨_, hk, rfl⟩)
    · exact hfront w hm
    · exact (hback i w hm).2
  · have hadd : ∀ (as bs cs : List ConnPtr), as ++ bs = [] ∨ as ++ bs = [s.map.created] → cs.Nodup →
        (∀ c ∈ cs, c < s.map.created) → (as ++ cs ++ bs).Nodup := by
      intro as bs cs hab hn hc
      have hp : (as ++ cs ++ bs).Perm (as ++ bs ++ cs) := by
        rw [List.append_assoc, List.append_assoc]
        exact List.perm_append_comm.append_left as
      rw [hp.nodup_iff]
      rcases hab with hab | hab
      · rw [hab]
        exact hn
      · rw [hab]
        exact List.nodup_cons.mpr ⟨fun hm => Nat.lt_irrefl _ (hc _ hm), hn⟩
    have hnew := hnew i
    rw [List.filterMap_append] at hnew
    by_cases he : i = l
    · subst he
      rw [hf.after, List.filterMap_append, List.filterMap_append]
      refine hadd _ _ _ hnew (List.nodup_append.mp honce).2.1 fun c hc => hlt i c ?_
      rw [hf.before, List.filterMap_append]
      exact List.mem_append_right _ hc
    · rw [hf.others i he, List.filterMap_append]
      refine hadd [] _ _ ?_ (hi i).once (hlt i)
      rcases hnew with hnew | hnew
      · exact Or.inl (List.append_eq_nil_iff.mp hnew).2
      · rcases List.append_eq_singleton_iff.mp hnew with ⟨-, hb⟩ | ⟨-, hb⟩
        · exact Or.inr hb
        · exact Or.inl hb
  · rw [ha.batch_eq, ha.pending_eq, ← List.append_assoc] at hm
    rcases List.mem_append.mp hm with hm | hm
    · exact (hi i).queued w hm
    · exact (hback i w hm).1
  · rw [ha.batch_eq]
    rw [ha.phase_eq] at hp
    exact (hi i).between hp
  · rw [ha.active_eq] at hm
    exact ((hi i).active c revents hm).later hl

theorem LoopInv.same {s t : ServerSystem} {l : LoopId} (hi : s.LoopInv l) (hs : s.SameConns t)
    (hitems : (t.loops l).items.Sublist (s.loops l).items)
    (hq : ∀ w ∈ (t.loops l).queue.batch ++ (t.loops l).queue.pending, w.event = none)
    (hb : (t.loops l).phase ≠ .functors → (t.loops l).queue.batch = [])
    (hact : ∀ c revents, .channel c revents ∈ (t.loops l).active → s.Registered l c) : t.LoopInv l := by
  refine ⟨fun w hm => ?_, hi.once.sublist (hitems.filterMap _), hq, hb, fun c revents hm => ?_, fun fd e he => ?_⟩
  · have hp := hi.placed w (hitems.subset hm)
    refine hp.later hs.later fun c hc => ?_
    subst hc
    rw [hs.established_eq]
    exact hp.2
  · exact (hact c revents hm).later hs.later
  · rw [hs.poller_eq] at he
    exact (hi.watched fd e he).later hs.later

theorem setLoop_same (s : ServerSystem) {l : LoopId} {L : ServerLoop} (hp : L.poller = (s.loops l).poller) :
    s.SameConns (s.setLoop l L) := by
  refine ⟨rfl, rfl, rfl, rfl, rfl, rfl, rfl, fun i => ?_⟩
  by_cases hi : i = l
  · subst hi
    simp [setLoop, hp]
  · simp [setLoop, hi]

theorem setTodo_same (s : ServerSystem) (l : LoopId) (todo : List ServerWork) : s.SameConns (s.setTodo l todo) :=
  s.setLoop_same rfl

theorem SameConns.refl (s : ServerSystem) : s.SameConns s := ⟨rfl, rfl, rfl, rfl, rfl, rfl, rfl, fun _ => rfl⟩

theorem SameConns.push {s t : ServerSystem} (h : s.SameConns t) (l : LoopId) (w : ServerWork) :
    s.SameConns (t.push l w) := by
  obtain ⟨h1, h2, h3, h4, h5, h6, h7, h8⟩ := h
  exact ⟨h1, h2, h3, h4, h5, h6, h7, fun i => (t.push_poller l i w).trans (h8 i)⟩

theorem SameConns.late {s t : ServerSystem} (h : s.SameConns t) (uses : List ServerMember) :
    s.SameConns { t with lateUses := uses } := by
  obtain ⟨h1, h2, h3, h4, h5, h6, h7, h8⟩ := h
  exact ⟨h1, h2, h3, h4, h5, h6, h7, h8⟩

theorem setLoop_loops {s : ServerSystem} {l : LoopId} {L : ServerLoop} (hi : ∀ i, s.LoopInv i)
    (h : (s.setLoop l L).LoopInv l) (hp : L.poller = (s.loops l).poller) (i : LoopId) : (s.setLoop l L).LoopInv i := by
  by_cases he : i = l
  · rw [he]
    exact h
  · have heq : (s.setLoop l L).loops i = s.loops i := Function.update_of_ne he ..
    refine (hi i).same (s.setLoop_same hp) ?_ ?_ ?_ ?_
    all_goals rw [heq]
    · exact (hi i).queued
    · exact (hi i).between
    · exact (hi i).active

/-- A loop that goes on has the same work before it. -/
structure Turned (s : ServerSystem) (l : LoopId) (L : ServerLoop) : Prop where
  poller_eq : L.poller = (s.loops l).poller
  items_eq : L.items = (s.loops l).items
  taken : ∀ w ∈ L.taken, w ∈ (s.loops l).taken ++ (s.loops l).items
  queued : ∀ w ∈ L.queue.batch ++ L.queue.pending, w ∈ (s.loops l).queue.batch ++ (s.loops l).queue.pending
  between : L.phase ≠ .functors → L.queue.batch = []
  active : ∀ c revents, .channel c revents ∈ L.active → s.Registered l c

theorem TurnStep.turned {s : ServerSystem} {l : LoopId} {L : ServerLoop} (h : s.TurnStep l L) (hi : s.LoopInv l) :
    s.Turned l L := by
  have htaken : ∀ w ∈ (s.loops l).taken, w ∈ (s.loops l).taken ++ (s.loops l).items := fun _ =>
    List.mem_append_left _
  cases h with
  | tested hp hq => exact ⟨rfl, rfl, htaken, fun _ => id, fun _ => hi.between (by simp [hp]), hi.active⟩
  | polled hp ha =>
    refine ⟨rfl, rfl, htaken, fun _ => id, fun _ => hi.between (by simp [hp]), fun c revents hm => ?_⟩
    have hrep := ha _ hm
    simp only [reports, Option.any_eq_true, decide_eq_true_eq] at hrep
    obtain ⟨e, he, hptr⟩ := hrep
    exact hptr ▸ hi.watched _ e he
  | skipped hp ha =>
    refine ⟨rfl, rfl, htaken, fun _ => id, fun _ => hi.between (by simp [hp]), fun c revents hm => ?_⟩
    exact hi.active c revents (by rw [ha]; exact List.mem_cons_of_mem _ hm)
  | doPendingFunctors hp ht ha =>
    have hb := hi.between (by simp [hp])
    refine ⟨rfl, ?_, htaken, fun w hm => ?_, fun hn => absurd rfl hn, hi.active⟩
    · simp [ServerLoop.items, Handoff.swap, hb]
    · simpa [Handoff.swap, hb] using hm
  | called hp ht hq =>
    obtain ⟨hb, -, hpe⟩ := Handoff.pop_eq hq
    refine ⟨rfl, ?_, fun w hm => ?_, fun w hm => ?_, fun hn => absurd hp hn, hi.active⟩
    · simp [ServerLoop.items, ht, hb, hpe]
    · rcases List.mem_append.mp hm with hm | hm
      · exact List.mem_append_left _ hm
      · rw [List.mem_singleton.mp hm]
        simp [ServerLoop.items, hb]
    · rw [hb, ← hpe]
      exact List.mem_cons_of_mem _ hm
  | finished hp ht hb => exact ⟨rfl, rfl, fun w hm => absurd hm List.not_mem_nil, fun _ => id, fun _ => hb, hi.active⟩

theorem Turned.loops {s : ServerSystem} {l : LoopId} {L : ServerLoop} (h : s.Turned l L) (hi : ∀ i, s.LoopInv i)
    (i : LoopId) : (s.setLoop l L).LoopInv i := by
  have heq : (s.setLoop l L).loops l = L := Function.update_self ..
  refine setLoop_loops hi ?_ h.poller_eq i
  refine (hi l).same (s.setLoop_same h.poller_eq) ?_ ?_ ?_ ?_
  all_goals rw [heq]
  · rw [h.items_eq]
  · exact fun w hm => (hi l).queued w (h.queued w hm)
  · exact h.between
  · exact h.active

theorem CoreInv.same {s t : ServerSystem} (hi : s.CoreInv) (hs : s.SameConns t)
    (hn : t.map.Numbered s.config.name_ s.config.listenAddr.toIpPort) (hloops : ∀ l, t.LoopInv l) : t.CoreInv := by
  refine ⟨by rw [hs.config_eq]; exact hn, ?_, ?_, ?_, ?_, ?_, ?_, hloops⟩
  · rw [hs.created_eq, hs.conns_eq]
    exact hi.self_eq
  · rw [hs.created_eq, hs.next_eq, hs.config_eq]
    exact hi.next_eq
  · rw [hs.created_eq, hs.loopOf_eq, hs.config_eq]
    exact hi.loopOf_eq
  · rw [hs.created_eq, hs.loopOf_eq, hs.destroyedOn_eq]
    exact hi.destroyed
  · rw [hs.created_eq, hs.established_eq]
    exact hi.established_lt
  · rw [hs.created_eq, hs.established_eq, hs.conns_eq]
    exact hi.connecting

theorem CoreInv.advance {s t : ServerSystem} {l : LoopId} {g front rest : List ServerWork}
    {back : LoopId → List ServerWork} (hi : s.CoreInv) (hs : s.SameConns t)
    (hn : t.map.Numbered s.config.name_ s.config.listenAddr.toIpPort) (ha : s.Advance t l front rest back)
    (ht : (s.loops l).todo = g ++ rest) (hfront : ∀ w ∈ front, w.establishes = none ∧ t.Placed l w)
    (hback : ∀ i, ∀ w ∈ back i, w.establishes = none ∧ w.event = none ∧ t.Placed i w) : t.CoreInv := by
  refine hi.same hs hn (loops_advance hi.loops hs.later ha ht (fun w hm => (hfront w hm).2)
    (fun i w hm => (hback i w hm).2) (fun i => Or.inl ?_) (fun c hc => Or.inl (by rwa [hs.established_eq] at hc))
    fun i fd e he => ?_)
  · refine List.filterMap_eq_nil_iff.mpr fun w hm => ?_
    rcases List.mem_append.mp hm with hm | hm
    · exact (hfront w hm).1
    · exact (hback i w hm).1
  · rw [hs.poller_eq] at he
    exact ((hi.loops i).watched fd e he).later hs.later

theorem Moved.later {s t : ServerSystem} {c : ConnPtr} {w : LoopConn} (hm : s.Moved t c w)
    (hest : ∀ d, s.established d = true → t.established d = true)
    (hclosed : s.established c = true → (s.conns c).state_ = .kDisconnected → w.tcp.state_ = .kDisconnected) :
    s.Later t := by
  refine ⟨Nat.le_of_eq hm.created_eq.symm, fun d _ => by rw [hm.loopOf_eq], hest, fun d _ he hd => ?_⟩
  rw [hm.conns_eq]
  by_cases hdc : d = c
  · subst hdc
    rw [Function.update_self]
    exact hclosed he hd
  · rw [Function.update_of_ne hdc]
    exact hd

theorem placed_user {s : ServerSystem} {l : LoopId} {r : Reaction} {w : ServerWork} (h : w ∈ users r) :
    w.establishes = none ∧ s.Placed l w := by
  obtain ⟨c, call, rfl⟩ := mem_users h
  exact ⟨rfl, trivial⟩

theorem placed_noted {s t : ServerSystem} {c : ConnPtr} {w : LoopConn} {i : LoopId} {v : ServerWork}
    (h : v ∈ s.noted c w i) : v.establishes = none ∧ v.event = none ∧ t.Placed i v := by
  rw [mem_noted h]
  exact ⟨rfl, rfl, trivial⟩

theorem placed_nothing {s : ServerSystem} (i : LoopId) :
    ∀ v ∈ nothing i, v.establishes = none ∧ v.event = none ∧ s.Placed i v := by
  simp [nothing]

/-- A connection has moved on, on the thread of loop `l`. -/
structure Proceeds (s t : ServerSystem) (l : LoopId) (c : ConnPtr) (w : LoopConn) (front rest : List ServerWork) :
    Prop where
  lt : c < s.map.created
  moved : s.Moved t c w
  registers : (s.view c).RegistersOnly w
  later : s.Later t
  advance : s.Advance t l front rest (s.noted c w)

theorem CoreInv.proceeds {s t : ServerSystem} {l : LoopId} {c : ConnPtr} {w : LoopConn}
    {g front rest : List ServerWork} (hi : s.CoreInv) (h : s.Proceeds t l c w front rest)
    (hmap : t.map.Numbered s.config.name_ s.config.listenAddr.toIpPort)
    (ht : (s.loops l).todo = g ++ rest) (hfront : ∀ v ∈ front, v.establishes = none ∧ t.Placed l v)
    (hest : ∀ d, t.established d = true → s.established d = true ∨ d = c ∧ g = [.connectEstablished c])
    (hreg : t.established c = true ∨ ∀ fd e, w.poller.epollfd_ fd = some e →
      (s.view c).poller.epollfd_ fd = some e)
    (hconn : t.established c = false → w.tcp.state_ = .kConnecting)
    (hdest : ∀ d, ∀ i ∈ t.destroyedOn d, i ∈ s.destroyedOn d ∨ d = c ∧ i = s.loopOf c) : t.CoreInv := by
  obtain ⟨hc, hm, hr, hl, ha⟩ := h
  have hself : ∀ d < t.map.created, (t.conns d).channel_.self = d := by
    intro d hd
    rw [hm.created_eq] at hd
    rw [hm.conns_eq]
    by_cases hdc : d = c
    · subst hdc
      rw [Function.update_self]
      exact hr.self_eq.trans (hi.self_eq d hd)
    · rw [Function.update_of_ne hdc]
      exact hi.self_eq d hd
  have hconnecting : ∀ d < t.map.created, t.established d = false → (t.conns d).state_ = .kConnecting := by
    intro d hd he
    rw [hm.created_eq] at hd
    rw [hm.conns_eq]
    by_cases hdc : d = c
    · subst hdc
      rw [Function.update_self]
      exact hconn he
    · rw [Function.update_of_ne hdc]
      refine hi.connecting d hd ?_
      by_contra hne
      rw [hl.established d (by simpa using hne)] at he
      cases he
  have hwatched : ∀ i fd e, (t.loops i).poller.epollfd_ fd = some e → t.Registered i e.ptr := by
    intro i fd e he
    by_cases hil : i = s.loopOf c
    · subst hil
      rw [hm.poller_eq] at he
      rcases hreg with hreg | hreg
      · rcases hr.watched fd e he with he | ⟨-, hp⟩
        · exact ((hi.loops _).watched fd e he).later hl
        · have hp : e.ptr = c := hp.trans (hi.self_eq c hc)
          rw [hp]
          exact ⟨Nat.lt_of_lt_of_le hc hl.created_le, by rw [hm.loopOf_eq], hreg⟩
      · exact ((hi.loops _).watched fd e (hreg fd e he)).later hl
    · rw [hm.poller_others i hil] at he
      exact ((hi.loops i).watched fd e he).later hl
  refine ⟨by rw [hm.config_eq]; exact hmap, hself, ?_, ?_, fun d i hd => ?_, fun d hd => ?_, hconnecting, ?_⟩
  · rw [hm.created_eq, hm.next_eq, hm.config_eq]
    exact hi.next_eq
  · rw [hm.created_eq, hm.loopOf_eq, hm.config_eq]
    exact hi.loopOf_eq
  · rw [hm.created_eq, hm.loopOf_eq]
    rcases hdest d i hd with hd | ⟨rfl, hd⟩
    · exact hi.destroyed d i hd
    · exact ⟨hc, hd⟩
  · rw [hm.created_eq]
    rcases hest d hd with hd | ⟨rfl, -⟩
    · exact hi.established_lt d hd
    · exact hc
  · refine loops_advance hi.loops hl ha ht (fun v hv => (hfront v hv).2) (fun i v hv => (placed_noted hv).2)
      (fun i => Or.inl ?_) (fun d hd => (hest d hd).imp_right fun h => by rw [h.1]; exact h.2) hwatched
    refine List.filterMap_eq_nil_iff.mpr fun v hv => ?_
    rcases List.mem_append.mp hv with hv | hv
    · exact (hfront v hv).1
    · exact (placed_noted (t := t) hv).1

theorem mem_handlers {c : ConnPtr} {revents : Events} {w : ServerWork} (h : w ∈ handlers c revents) :
    w = .close c ∨ w = .read c ∨ w = .write c := by
  simp only [handlers, List.mem_append] at h
  rcases h with (h | h) | h
  all_goals
    split at h
    · rw [List.mem_singleton.mp h]
      simp
    · cases h

/-- What a callback of `handleEvent` or a call of user code finds and leaves. -/
structure Handled (s : ServerSystem) (l : LoopId) (c : ConnPtr) (w : LoopConn) : Prop where
  lt : c < s.map.created
  loopOf_eq : s.loopOf c = l
  registers : (s.view c).RegistersOnly w
  closed : (s.conns c).state_ = .kDisconnected → w.tcp.state_ = .kDisconnected
  idle : s.established c = false → w.tcp.state_ = (s.conns c).state_ ∧ w.poller = (s.view c).poller

theorem HandlerStep.spec {s : ServerSystem} {l : LoopId} {c : ConnPtr} {v : ServerWork} {w : LoopConn}
    {new : List ServerWork} (h : s.HandlerStep l c v w new) (hi : s.CoreInv) (hv : s.Placed l v) :
    s.Handled l c w := by
  have hreg : s.Registered l c → (s.view c).RegistersOnly w →
      ((s.conns c).state_ = .kDisconnected → w.tcp.state_ = .kDisconnected) → s.Handled l c w := by
    intro hp hr hclosed
    refine ⟨hp.lt, hp.loopOf_eq, hr, hclosed, fun he => ?_⟩
    rw [hp.established] at he
    cases he
  cases h with
  | close hd =>
    obtain ⟨⟨p, d⟩, -, hw⟩ := bind_eq_ok.mp hd
    exact hreg hv (LoopConn.registersRule.disconnect hd) fun _ => by cases hw; rfl
  | message => exact hreg hv (LoopConn.registersRule.setInput _ _) id
  | endOfStream => exact hreg hv (LoopConn.registersRule.setInput _ _) id
  | readFailed => exact hreg hv (LoopConn.registersRule.setInput _ _) id
  | write hw =>
    exact hreg hv (LoopConn.registersRule.handleWrite hw) fun hd => (LoopConn.handleWrite_state hw).trans hd
  | user hc hl hu =>
    have hidle := LoopConn.idleUserRule.user hu
    refine ⟨hc.1, hl, LoopConn.registersRule.user hu, fun hd => ?_, fun he => ?_⟩
    · have hne : (s.conns c).state_ ≠ .kConnected := by simp [hd]
      exact (hidle hne).1.trans hd
    · have hne : (s.conns c).state_ ≠ .kConnected := by simp [hi.connecting c hc.1 he]
      exact ⟨(hidle hne).1, (hidle hne).2.2⟩

theorem HandlerStep.front {s t : ServerSystem} {l : LoopId} {c : ConnPtr} {v : ServerWork} {w : LoopConn}
    {new : List ServerWork} (h : s.HandlerStep l c v w new) (hv : s.Placed l v) (hl : s.Later t)
    (hc : t.conns c = w.tcp) : ∀ u ∈ new, u.establishes = none ∧ t.Placed l u := by
  intro u hu
  cases h with
  | close hd =>
    rcases List.mem_append.mp hu with hu | hu
    · exact placed_user hu
    · rw [List.mem_singleton.mp hu]
      have hp := Registered.later hv hl
      obtain ⟨⟨p, d⟩, -, hw⟩ := bind_eq_ok.mp hd
      refine ⟨rfl, hp, hp.lt, hp.established, ?_⟩
      rw [hc]
      cases hw
      rfl
  | message => exact placed_user hu
  | endOfStream =>
    rw [List.mem_singleton.mp hu]
    exact ⟨rfl, Registered.later hv hl⟩
  | _ => cases hu

theorem update_true {f : ConnPtr → Bool} {c d : ConnPtr} : Function.update f c true d = true ↔ f d = true ∨ d = c := by
  by_cases h : d = c
  · simp [h]
  · simp [h]

theorem connectEstablished_proceeds {s : ServerSystem} {l : LoopId} {c : ConnPtr} {w : LoopConn} (r : Reaction)
    (rest : List ServerWork) (hv : s.Placed l (.connectEstablished c)) (h : (s.view c).connectEstablished [] = .ok w) :
    s.Proceeds { (s.put c w).setTodo l (users r ++ rest) with established := Function.update s.established c true }
      l c w (users r) rest := by
  have hm := (s.put_moved l (users r ++ rest) c w).of_eq
    (u := { (s.put c w).setTodo l (users r ++ rest) with established := Function.update s.established c true })
    rfl rfl rfl rfl rfl rfl
  refine ⟨hv.1.1, hm, LoopConn.connectEstablished_registers h, hm.later (fun d hd => update_true.mpr (Or.inl hd))
    fun he => ?_, (s.put_advance l _ rest c w).of_loops rfl rfl⟩
  rw [hv.2] at he
  cases he

theorem connectDestroyed_proceeds {s t : ServerSystem} {l : LoopId} {c : ConnPtr} {w : LoopConn}
    {rest : List ServerWork} (hc : c < s.map.created) (h : (s.view c).connectDestroyed = .ok w) (hm : s.Moved t c w)
    (he : t.established = s.established) (ha : s.Advance t l [] rest (s.noted c w)) : s.Proceeds t l c w [] rest := by
  have hd := LoopConn.connectDestroyed_destroyed h
  refine ⟨hc, hm, hd.registers, hm.later (fun d => by rw [he]; exact id) fun _ hst => ?_, ha⟩
  exact (hd.state_eq (by simp [view, hst])).trans hst

theorem Handled.proceeds {s : ServerSystem} {l : LoopId} {c : ConnPtr} {w : LoopConn} (h : s.Handled l c w)
    (new rest : List ServerWork) : s.Proceeds ((s.put c w).setTodo l (new ++ rest)) l c w new rest := by
  have hm := s.put_moved l (new ++ rest) c w
  exact ⟨h.lt, hm, h.registers, hm.later (fun _ => id) fun _ => h.closed, s.put_advance l new rest c w⟩

theorem CoreInv.destroyed_proceeds {s t : ServerSystem} {l i : LoopId} {c : ConnPtr} {w : LoopConn}
    {g rest : List ServerWork} (hi : s.CoreInv) (h : (s.view c).connectDestroyed = .ok w)
    (hp : s.Proceeds t l c w [] rest) (ht : (s.loops l).todo = g ++ rest)
    (hmap : t.map.Numbered s.config.name_ s.config.listenAddr.toIpPort) (he : t.established = s.established)
    (hd : t.destroyedOn = Function.update s.destroyedOn c (s.destroyedOn c ++ [i])) (hl : s.loopOf c = i) :
    t.CoreInv := by
  have hdw := LoopConn.connectDestroyed_destroyed h
  have hconn : s.established c = false → (s.view c).tcp.state_ = .kConnecting := hi.connecting c hp.lt
  refine hi.proceeds hp hmap ht (by simp) (fun d => by rw [he]; exact Or.inl) ?_ (fun hne => ?_) fun d j hj => ?_
  · rw [he]
    cases hce : s.established c with
    | true => exact Or.inl rfl
    | false => exact Or.inr (hdw.watched (by simp [hconn hce]))
  · rw [he] at hne
    exact (hdw.state_eq (by simp [hconn hne])).trans (hconn hne)
  · rw [hd] at hj
    by_cases hdc : d = c
    · subst hdc
      simp only [Function.update_self, List.mem_append, List.mem_singleton] at hj
      exact hj.imp_right fun hj => ⟨rfl, hj.trans hl.symm⟩
    · simp only [Function.update_of_ne hdc] at hj
      exact Or.inl hj

theorem removeConnectionInLoop_numbered {m : ConnectionMap} {name_ ipPort_ : List Char} {c : ConnPtr}
    (h : m.Numbered name_ ipPort_) (hc : c < m.created) : (m.removeConnectionInLoop c).Numbered name_ ipPort_ := by
  have hs : m.Step name_ ipPort_ (.removeConnectionInLoop c) (m.removeConnectionInLoop c) := if_pos hc
  exact ConnectionMap.step_numbered h hs

theorem newConnection_numbered {m : ConnectionMap} {name_ ipPort_ : List Char} (h : m.Numbered name_ ipPort_) :
    (m.newConnection name_ ipPort_).Numbered name_ ipPort_ := by
  have hs : m.Step name_ ipPort_ .newConnection (m.newConnection name_ ipPort_) := rfl
  exact ConnectionMap.step_numbered h hs

theorem CoreInv.exec {s t : ServerSystem} {l : LoopId} {rest : List ServerWork} {v : ServerWork} (hi : s.CoreInv)
    (ht : (s.loops l).todo = v :: rest) (h : s.ExecStep l rest v t) : t.CoreInv := by
  have hv : s.Placed l v := (hi.loops l).placed v (by simp [ServerLoop.items, ht])
  cases h with
  | @connectEstablished c r w h =>
    refine hi.proceeds (g := [.connectEstablished c]) (connectEstablished_proceeds r rest hv h) hi.numbered ht
      (fun u hu => placed_user hu) (fun d hd => ?_) (Or.inl (update_true.mpr (Or.inr rfl))) (fun he => ?_)
      fun d i hd => Or.inl hd
    · exact (update_true.mp hd).imp_right fun hdc => ⟨hdc, rfl⟩
    · exact absurd (update_true.mpr (Or.inr rfl)) (ne_true_of_eq_false he)
  | @connectDestroyed c w h =>
    exact hi.destroyed_proceeds (g := [.connectDestroyed c]) h (connectDestroyed_proceeds hv.1 h
      ((s.put_moved l ([] ++ rest) c w).of_eq rfl rfl rfl rfl rfl rfl) rfl
      ((s.put_advance l [] rest c w).of_loops rfl rfl)) ht hi.numbered rfl rfl hv.2
  | @handled c _ w new h =>
    have hs := h.spec hi hv
    have hp := hs.proceeds new rest
    refine hi.proceeds (g := [v]) hp hi.numbered ht (h.front hv hp.later (by rw [hp.moved.conns_eq,
      Function.update_self])) (fun d hd => Or.inl hd) ?_ (fun he => (hs.idle he).1.trans (hi.connecting c hs.lt he))
      fun d i hd => Or.inl hd
    cases he : s.established c with
    | true => exact Or.inl he
    | false => exact Or.inr fun fd e => by rw [(hs.idle he).2]; exact id
  | @removeConnectionInLoop c =>
    have hc := hv.2.lt
    have hsame : s.SameConns ((s.setTodo l ([] ++ rest)).removeConnectionInLoop c) := by
      obtain ⟨h1, h2, -, h4, h5, h6, h7, h8⟩ :=
        (s.setTodo_same l ([] ++ rest)).push (s.loopOf c) (.connectDestroyed c)
      exact ⟨h1, h2, rfl, h4, h5, h6, h7, h8⟩
    refine hi.advance (g := [.removeConnectionInLoop c]) hsame ?_
      ((s.push_advance l (s.loopOf c) [] rest (.connectDestroyed c)).of_loops rfl rfl) ht (by simp) fun i v hv => ?_
    · exact removeConnectionInLoop_numbered hi.numbered hc
    · obtain ⟨rfl, rfl⟩ := mem_pushed.mp hv
      exact ⟨rfl, rfl, hc, rfl⟩
  | @closeCallbackHere c hl =>
    have hsame := (s.setTodo_same l ([.removeConnectionInLoop c] ++ rest)).late (s.late .removeConnection)
    refine hi.advance (g := [.closeCallback c]) hsame hi.numbered
      ((s.setTodo_advance l [.removeConnectionInLoop c] rest).of_loops rfl rfl) ht (fun v hw => ?_) placed_nothing
    rw [List.mem_singleton.mp hw]
    exact ⟨rfl, hl, hv.2.later hsame.later⟩
  | @closeCallback c hl =>
    have hsame := ((s.setTodo_same l ([] ++ rest)).push 0 (.removeConnectionInLoop c)).late (s.late .removeConnection)
    refine hi.advance (g := [.closeCallback c]) hsame hi.numbered
      ((s.push_advance l 0 [] rest (.removeConnectionInLoop c)).of_loops rfl rfl) ht (by simp) fun i v hw => ?_
    obtain ⟨rfl, rfl⟩ := mem_pushed.mp hw
    exact ⟨rfl, rfl, rfl, hv.2.later hsame.later⟩
  | @endNewConnection c =>
    exact hi.advance (g := [.endNewConnection c]) ((s.setTodo_same l _).late _) hi.numbered
      ((s.setTodo_advance l [] rest).of_loops rfl rfl) ht (by simp) placed_nothing
  | done hv =>
    exact hi.advance (g := [v]) (s.setTodo_same l _) hi.numbered (s.setTodo_advance l _ rest) ht (fun w hw => placed_user hw)
      placed_nothing

theorem CoreInv.loopOf_le {s : ServerSystem} (hi : s.CoreInv) {c : ConnPtr} (hc : c < s.map.created) :
    s.loopOf c ≤ s.config.numThreads_ := by
  rw [hi.loopOf_eq c hc]
  split
  · exact Nat.zero_le _
  · exact Nat.mod_lt _ (by omega)

theorem CoreInv.turned {s : ServerSystem} {l : LoopId} {L : ServerLoop} (hi : s.CoreInv) (h : s.Turned l L) :
    (s.setLoop l L).CoreInv :=
  hi.same (s.setLoop_same h.poller_eq) hi.numbered (h.loops hi.loops)

theorem getNextLoop_eq {s : ServerSystem} (hi : s.CoreInv) :
    s.getNextLoop.1 = (if s.config.numThreads_ = 0 then 0 else s.map.created % s.config.numThreads_ + 1) ∧
      (s.config.numThreads_ ≠ 0 → s.getNextLoop.2 = (s.map.created + 1) % s.config.numThreads_) := by
  unfold getNextLoop
  split
  · rename_i hn
    exact ⟨rfl, fun h => absurd hn h⟩
  · rename_i hn
    rw [hi.next_eq hn]
    refine ⟨rfl, fun _ => ?_⟩
    have hlt := Nat.mod_lt s.map.created (by omega : s.config.numThreads_ > 0)
    rw [← Nat.mod_add_mod]
    by_cases he : s.config.numThreads_ ≤ s.map.created % s.config.numThreads_ + 1
    · rw [if_pos he, show s.map.created % s.config.numThreads_ + 1 = s.config.numThreads_ by omega, Nat.mod_self]
    · rw [if_neg he]
      exact (Nat.mod_eq_of_lt (by omega)).symm

theorem new_fields {self : ChannelPtr} {fd : Fd} {writeComplete highWater : Bool} {mark : Nat} {c : TcpConnection}
    (h : TcpConnection.new self fd writeComplete highWater mark = .ok c) :
    c.state_ = .kConnecting ∧ c.channel_ = Channel.new self fd := by
  obtain ⟨input, -, h⟩ := bind_eq_ok.mp h
  obtain ⟨output, -, h⟩ := bind_eq_ok.mp h
  cases h
  exact ⟨rfl, rfl⟩

theorem Accepted.later {s t : ServerSystem} {fd : Fd} (h : s.Accepted t fd) : s.Later t := by
  refine ⟨by rw [h.map_eq]; exact Nat.le_succ _, fun c hc => ?_, fun c => by rw [h.established_eq]; exact id,
    fun c hc _ => ?_⟩
  · rw [h.loopOf_eq, Function.update_of_ne (Nat.ne_of_lt hc)]
  · rw [h.conns_others c (Nat.ne_of_lt hc)]
    exact id

theorem CoreInv.accepted {s t : ServerSystem} {fd : Fd} (hi : s.CoreInv) (ht : (s.loops 0).todo = [])
    (h : s.Accepted t fd) : t.CoreInv := by
  have hcreated : t.map.created = s.map.created + 1 := by rw [h.map_eq]; rfl
  obtain ⟨hst, hch⟩ := new_fields h.conn_eq
  have hlast : ∀ c, c < t.map.created → c < s.map.created ∨ c = s.map.created := by
    intro c hc
    rw [hcreated] at hc
    exact Nat.lt_succ_iff_lt_or_eq.mp hc
  have hnew : s.established s.map.created = false := by
    by_contra hne
    exact Nat.lt_irrefl _ (hi.established_lt _ (by simpa using hne))
  have hl := h.later
  have hplaced : t.Placed s.getNextLoop.1 (.connectEstablished s.map.created) := by
    refine ⟨⟨by rw [hcreated]; exact Nat.lt_succ_self _, ?_⟩, by rw [h.established_eq]; exact hnew⟩
    rw [h.loopOf_eq, Function.update_self]
  have hwatched : ∀ i fd e, (t.loops i).poller.epollfd_ fd = some e → t.Registered i e.ptr := by
    intro i fd e he
    rw [h.poller_eq] at he
    exact ((hi.loops i).watched fd e he).later hl
  obtain ⟨hnext, hturn⟩ := getNextLoop_eq hi
  refine ⟨?_, fun c hc => ?_, fun hn => ?_, fun c hc => ?_, fun c i hd => ?_, fun c hc => ?_, fun c hc he => ?_, ?_⟩
  · rw [h.map_eq, h.config_eq]
    exact newConnection_numbered hi.numbered
  · rcases hlast c hc with hc | rfl
    · rw [h.conns_others c (Nat.ne_of_lt hc)]
      exact hi.self_eq c hc
    · rw [hch]
      rfl
  · rw [h.config_eq] at hn ⊢
    rw [h.next_eq, hturn hn, hcreated]
  · rw [h.config_eq]
    rcases hlast c hc with hc | rfl
    · rw [hl.loopOf_eq c hc]
      exact hi.loopOf_eq c hc
    · rw [h.loopOf_eq, Function.update_self]
      exact hnext
  · rw [h.destroyedOn_eq] at hd
    obtain ⟨hc, hd⟩ := hi.destroyed c i hd
    exact ⟨Nat.lt_of_lt_of_le hc hl.created_le, hd.trans (hl.loopOf_eq c hc).symm⟩
  · rw [h.established_eq] at hc
    exact Nat.lt_of_lt_of_le (hi.established_lt c hc) hl.created_le
  · rcases hlast c hc with hc | rfl
    · rw [h.conns_others c (Nat.ne_of_lt hc)]
      exact hi.connecting c hc (by rwa [h.established_eq] at he)
    · exact hst
  · have hest : ∀ c, t.established c = true → s.established c = true ∨ [] = [ServerWork.connectEstablished c] :=
      fun c hc => Or.inl (by rwa [h.established_eq] at hc)
    rcases h.work with ⟨h0, ha⟩ | ha
    · rw [h0] at hplaced
      refine loops_advance hi.loops hl ha ht (fun w hw => ?_) (by simp [nothing]) (fun i => Or.inr rfl) hest hwatched
      rcases List.mem_cons.mp hw with rfl | hw
      · exact hplaced
      · rw [List.mem_singleton.mp hw]
        trivial
    · refine loops_advance hi.loops hl ha ht (by simp) (fun i w hw => ?_) (fun i => ?_) hest hwatched
      · obtain ⟨rfl, rfl⟩ := mem_pushed.mp hw
        exact ⟨rfl, hplaced⟩
      · by_cases hil : i = s.getNextLoop.1
        · exact Or.inr (by rw [hil]; simp [pushed, ServerWork.establishes])
        · exact Or.inl (by simp [pushed, hil])

theorem CoreInv.of_loops {s t : ServerSystem} (hi : s.CoreInv) (hs : s.SameConns t)
    (hn : t.map.Numbered s.config.name_ s.config.listenAddr.toIpPort) (hloops : t.loops = s.loops) : t.CoreInv := by
  refine hi.same hs hn fun l => (hi.loops l).same hs ?_ ?_ ?_ ?_
  all_goals rw [hloops]
  · exact (hi.loops l).queued
  · exact (hi.loops l).between
  · exact (hi.loops l).active

theorem UserStep.coreInv {s t : ServerSystem} {a : ServerAction} (h : s.UserStep a t) (hi : s.CoreInv) : t.CoreInv := by
  cases h with
  | copied hc => exact hi.of_loops ⟨rfl, rfl, rfl, rfl, rfl, rfl, rfl, fun _ => rfl⟩ hi.numbered rfl
  | dropped => exact hi.of_loops ⟨rfl, rfl, rfl, rfl, rfl, rfl, rfl, fun _ => rfl⟩ hi.numbered rfl
  | @posted l bound hp hb =>
    refine hi.advance (g := []) ((SameConns.refl s).push l _) hi.numbered (s.push_only l l _) rfl (by simp)
      fun i w hw => ?_
    obtain ⟨rfl, rfl⟩ := mem_pushed.mp hw
    exact ⟨rfl, rfl, trivial⟩

theorem LoopStep.coreInv {s t : ServerSystem} {a : ServerAction} (h : s.LoopStep a t) (hi : s.CoreInv) : t.CoreInv := by
  cases h with
  | @turned l a L hr h => exact hi.turned (h.turned (hi.loops l))
  | @left l hr hp ht hq =>
    refine hi.same (s.setLoop_same rfl) hi.numbered (setLoop_loops hi.loops ((hi.loops l).same (s.setLoop_same rfl)
      ?_ ?_ ?_ ?_) rfl)
    all_goals simp only [setLoop, Function.update_self]
    · simp [ServerLoop.items, ht]
    · simp
    · simp
    · exact (hi.loops l).active
  | accepted hr ha h ht hfd hacc =>
    exact (hi.turned (h.turned (hi.loops 0))).accepted (by simpa [setLoop] using ht) hacc
  | @dangled l c revents active hr ha h hc =>
    exact (hi.turned (h.turned (hi.loops l))).of_loops ⟨rfl, rfl, rfl, rfl, rfl, rfl, rfl, fun _ => rfl⟩
      (hi.turned (h.turned (hi.loops l))).numbered rfl
  | @handled l c revents active guard hr ha h hp ht hc hg =>
    have hi' : (s.setActive l active).CoreInv := hi.turned (h.turned (hi.loops l))
    have hreg : s.Registered l c := (hi.loops l).active c revents (by simp [ha])
    refine hi'.advance (g := []) ((s.setActive l active).setTodo_same l _) hi'.numbered
      ((s.setActive l active).setTodo_advance l (handlers c revents ++ guard) [])
      (by simpa [setActive, setLoop] using ht) (fun w hw => ?_) placed_nothing
    have hsame : s.SameConns (s.setActive l active) := s.setLoop_same rfl
    have hreg := (hreg.later hsame.later).later ((s.setActive l active).setTodo_same l
      (handlers c revents ++ guard ++ [])).later
    rcases List.mem_append.mp hw with hw | hw
    · rcases mem_handlers hw with rfl | rfl | rfl
      all_goals exact ⟨rfl, hreg⟩
    · rw [hg w hw]
      exact ⟨rfl, trivial⟩
  | @code l r hr hp ht =>
    exact hi.advance (g := []) (s.setTodo_same l _) hi.numbered (s.setTodo_advance l (users r) []) ht
      (fun w hw => placed_user hw) placed_nothing
  | worked hr ht h => exact hi.exec ht h

theorem TeardownStep.coreInv {s t : ServerSystem} {a : ServerAction} (h : s.TeardownStep a t) (hi : s.CoreInv) :
    t.CoreInv := by
  cases h with
  | destroyServer hs => exact hi.of_loops ⟨rfl, rfl, rfl, rfl, rfl, rfl, rfl, fun _ => rfl⟩ hi.numbered rfl
  | @destroyItemHere c w hs hc hm hl h =>
    obtain ⟨ha, hmoved⟩ := ({ s with map := s.map.reset c } : ServerSystem).put_only 0 c w
    have hmoved : s.Moved { ({ s with map := s.map.reset c } : ServerSystem).put c w with
        destroyedOn := Function.update s.destroyedOn c (s.destroyedOn c ++ [0]) } c w := by
      obtain ⟨h1, h2, h3, h4, h5, h6, h7⟩ := hmoved
      exact ⟨h1, h2, h3, h4, h5, h6, h7⟩
    exact hi.destroyed_proceeds (g := []) h (connectDestroyed_proceeds hc h hmoved rfl (ha.of_loops rfl rfl)) rfl
      (ConnectionMap.reset_numbered hi.numbered hc) rfl rfl hl
  | @destroyItem c hs hc hm =>
    have hsame : s.SameConns (({ s with map := s.map.reset c } : ServerSystem).push (s.loopOf c)
        (.connectDestroyed c)) := by
      obtain ⟨h1, h2, h3, h4, h5, h6, h7, h8⟩ := (SameConns.refl s).push (s.loopOf c) (.connectDestroyed c)
      exact ⟨h1, h2, h3, h4, h5, h6, h7, h8⟩
    refine hi.advance (g := []) hsame (ConnectionMap.reset_numbered hi.numbered hc)
      ((s.push_only 0 (s.loopOf c) (.connectDestroyed c)).of_loops rfl rfl) rfl (by simp) fun i w hw => ?_
    obtain ⟨rfl, rfl⟩ := mem_pushed.mp hw
    exact ⟨rfl, rfl, hc, rfl⟩
  | destroyMembers hs => exact hi.of_loops ⟨rfl, rfl, rfl, rfl, rfl, rfl, rfl, fun _ => rfl⟩ hi.numbered rfl
  | @quitThread i hs =>
    have hi' : (s.setLoop i { s.loops i with quit_ := true }).CoreInv := by
      refine hi.same (s.setLoop_same rfl) hi.numbered (setLoop_loops hi.loops ((hi.loops i).same (s.setLoop_same rfl)
        ?_ ?_ ?_ ?_) rfl)
      all_goals simp only [setLoop, Function.update_self]
      · exact List.Sublist.refl _
      · exact (hi.loops i).queued
      · exact (hi.loops i).between
      · exact (hi.loops i).active
    exact hi'.of_loops ⟨rfl, rfl, rfl, rfl, rfl, rfl, rfl, fun _ => rfl⟩ hi'.numbered rfl
  | joinThread hs => exact hi.of_loops ⟨rfl, rfl, rfl, rfl, rfl, rfl, rfl, fun _ => rfl⟩ hi.numbered rfl

end ServerSystem

end MyMuduo
