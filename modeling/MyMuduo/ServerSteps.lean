import MyMuduo.TcpServer

/-! The steps around a server, each with what it has tested, and what becomes of the
work that the loops have before them. -/

namespace MyMuduo

namespace ServerSystem

/-- The object exists. -/
def Here (s : ServerSystem) (c : ConnPtr) : Prop := c < s.map.created ∧ s.released c = false

/-- Nothing has happened to the connections themselves. -/
structure SameConns (s t : ServerSystem) : Prop where
  config_eq : t.config = s.config
  next_eq : t.next_ = s.next_
  created_eq : t.map.created = s.map.created
  conns_eq : t.conns = s.conns
  loopOf_eq : t.loopOf = s.loopOf
  established_eq : t.established = s.established
  destroyedOn_eq : t.destroyedOn = s.destroyedOn
  poller_eq : ∀ l, (t.loops l).poller = (s.loops l).poller

/-- Loop `l` has done with `g` and will do `front` before what it had left; each
loop will do its `back` at the end. -/
structure Flow (s t : ServerSystem) (l : LoopId) (g front kept : List ServerWork)
    (back : LoopId → List ServerWork) : Prop where
  before : (s.loops l).items = g ++ kept
  after : (t.loops l).items = front ++ kept ++ back l
  others : ∀ i ≠ l, (t.loops i).items = (s.loops i).items ++ back i

/-- As `Flow`, for the lists apart: only the list of `l` has changed but for what
was pushed. -/
structure Advance (s t : ServerSystem) (l : LoopId) (front rest : List ServerWork)
    (back : LoopId → List ServerWork) : Prop where
  todo_eq : (t.loops l).todo = front ++ rest
  todo_others : ∀ i ≠ l, (t.loops i).todo = (s.loops i).todo
  batch_eq : ∀ i, (t.loops i).queue.batch = (s.loops i).queue.batch
  pending_eq : ∀ i, (t.loops i).queue.pending = (s.loops i).queue.pending ++ back i
  taken_eq : ∀ i, (t.loops i).taken = (s.loops i).taken
  phase_eq : ∀ i, (t.loops i).phase = (s.loops i).phase
  active_eq : ∀ i, (t.loops i).active = (s.loops i).active
  quit_eq : ∀ i, (t.loops i).quit_ = (s.loops i).quit_

/-- `back` for a single functor. -/
def pushed (l : LoopId) (w : ServerWork) : LoopId → List ServerWork := Function.update (fun _ => []) l [w]

def nothing : LoopId → List ServerWork := fun _ => []

def noted (s : ServerSystem) (c : ConnPtr) (w : LoopConn) : LoopId → List ServerWork :=
  Function.update (fun _ => []) (s.loopOf c) ((w.calls.filter ConnCall.isNote).map fun _ => ServerWork.functor [c])

theorem mem_pushed {l i : LoopId} {w v : ServerWork} : v ∈ pushed l w i ↔ i = l ∧ v = w := by
  by_cases hi : i = l
  · subst hi
    simp [pushed]
  · simp [pushed, hi]

theorem mem_noted {s : ServerSystem} {c : ConnPtr} {w : LoopConn} {i : LoopId} {v : ServerWork}
    (h : v ∈ s.noted c w i) : v = .functor [c] := by
  by_cases hi : i = s.loopOf c
  · subst hi
    simp only [noted, Function.update_self, List.mem_map] at h
    obtain ⟨-, -, rfl⟩ := h
    rfl
  · simp [noted, hi] at h

theorem Flow.mem {s t : ServerSystem} {l i : LoopId} {g front kept : List ServerWork}
    {back : LoopId → List ServerWork} {w : ServerWork} (h : s.Flow t l g front kept back)
    (hw : w ∈ (t.loops i).items) : w ∈ (s.loops i).items ∧ (i = l → w ∈ kept) ∨ i = l ∧ w ∈ front ∨ w ∈ back i := by
  by_cases hi : i = l
  · subst hi
    rw [h.after, List.mem_append, List.mem_append] at hw
    rcases hw with (hw | hw) | hw
    · exact Or.inr (Or.inl ⟨rfl, hw⟩)
    · exact Or.inl ⟨by rw [h.before]; exact List.mem_append_right _ hw, fun _ => hw⟩
    · exact Or.inr (Or.inr hw)
  · rw [h.others i hi, List.mem_append] at hw
    rcases hw with hw | hw
    · exact Or.inl ⟨hw, fun he => absurd he hi⟩
    · exact Or.inr (Or.inr hw)

theorem Flow.keeps {s t : ServerSystem} {l i : LoopId} {g front kept : List ServerWork}
    {back : LoopId → List ServerWork} {w : ServerWork} (h : s.Flow t l g front kept back)
    (hw : w ∈ (s.loops i).items) : i = l ∧ w ∈ g ∨ w ∈ (t.loops i).items := by
  by_cases hi : i = l
  · subst hi
    rw [h.before, List.mem_append] at hw
    rw [h.after]
    exact hw.imp (fun hw => ⟨rfl, hw⟩) fun hw => List.mem_append_left _ (List.mem_append_right _ hw)
  · rw [h.others i hi]
    exact Or.inr (List.mem_append_left _ hw)

theorem Flow.mem_back {s t : ServerSystem} {l i : LoopId} {g front kept : List ServerWork}
    {back : LoopId → List ServerWork} {w : ServerWork} (h : s.Flow t l g front kept back) (hw : w ∈ back i) :
    w ∈ (t.loops i).items := by
  by_cases hi : i = l
  · subst hi
    rw [h.after]
    exact List.mem_append_right _ hw
  · rw [h.others i hi]
    exact List.mem_append_right _ hw

theorem Advance.flow {s t : ServerSystem} {l : LoopId} {g front rest : List ServerWork}
    {back : LoopId → List ServerWork} (h : s.Advance t l front rest back) (ht : (s.loops l).todo = g ++ rest) :
    s.Flow t l g front (rest ++ (s.loops l).queue.batch ++ (s.loops l).queue.pending) back := by
  refine ⟨?_, ?_, fun i hi => ?_⟩
  · simp [ServerLoop.items, ht]
  · simp [ServerLoop.items, h.todo_eq, h.batch_eq, h.pending_eq]
  · simp [ServerLoop.items, h.todo_others i hi, h.batch_eq, h.pending_eq]

theorem Advance.of_loops {s r t u : ServerSystem} {l : LoopId} {front rest : List ServerWork}
    {back : LoopId → List ServerWork} (h : s.Advance t l front rest back) (hs : r.loops = s.loops)
    (ht : u.loops = t.loops) : r.Advance u l front rest back := by
  obtain ⟨h1, h2, h3, h4, h5, h6, h7, h8⟩ := h
  rw [← hs, ← ht] at *
  exact ⟨h1, h2, h3, h4, h5, h6, h7, h8⟩

theorem setTodo_advance (s : ServerSystem) (l : LoopId) (front rest : List ServerWork) :
    s.Advance (s.setTodo l (front ++ rest)) l front rest nothing := by
  refine ⟨by simp [setTodo, setLoop], fun i hi => by simp [setTodo, setLoop, hi], ?_, ?_, ?_, ?_, ?_, ?_⟩
  all_goals
    intro i
    by_cases hi : i = l
    · subst hi
      simp [setTodo, setLoop, nothing]
    · simp [setTodo, setLoop, nothing, hi]

theorem push_advance (s : ServerSystem) (l i : LoopId) (front rest : List ServerWork) (w : ServerWork) :
    s.Advance ((s.setTodo l (front ++ rest)).push i w) l front rest (pushed i w) := by
  refine ⟨?_, ?_, ?_, ?_, ?_, ?_, ?_, ?_⟩
  · by_cases h : l = i
    · subst h
      simp [push, setTodo, setLoop]
    · simp [push, setTodo, setLoop, h]
  · intro j hj
    by_cases h : j = i
    · subst h
      simp [push, setTodo, setLoop, hj]
    · simp [push, setTodo, setLoop, h, hj]
  all_goals
    intro j
    by_cases h : j = i
    · subst h
      by_cases hj : j = l
      · subst hj
        simp [push, setTodo, setLoop, Handoff.push, pushed]
      · simp [push, setTodo, setLoop, Handoff.push, pushed, hj]
    · by_cases hj : j = l
      · subst hj
        simp [push, setTodo, setLoop, pushed, h]
      · simp [push, setTodo, setLoop, pushed, h, hj]

theorem setTodo_self {s : ServerSystem} {l : LoopId} {todo : List ServerWork} (h : (s.loops l).todo = todo) :
    s.setTodo l todo = s := by
  subst h
  simp [setTodo, setLoop]

theorem push_only (s : ServerSystem) (l i : LoopId) (w : ServerWork) :
    s.Advance (s.push i w) l [] (s.loops l).todo (pushed i w) := by
  have ha := s.push_advance l i [] (s.loops l).todo w
  rwa [List.nil_append, setTodo_self rfl] at ha

theorem put_advance (s : ServerSystem) (l : LoopId) (front rest : List ServerWork) (c : ConnPtr) (w : LoopConn) :
    s.Advance ((s.put c w).setTodo l (front ++ rest)) l front rest (s.noted c w) := by
  refine ⟨by simp [setTodo, setLoop], ?_, ?_, ?_, ?_, ?_, ?_, ?_⟩
  · intro j hj
    by_cases h : j = s.loopOf c
    · subst h
      simp [put, setTodo, setLoop, hj]
    · simp [put, setTodo, setLoop, h, hj]
  all_goals
    intro j
    by_cases h : j = s.loopOf c
    · subst h
      by_cases hj : s.loopOf c = l
      · simp [put, setTodo, setLoop, noted, hj]
      · simp [put, setTodo, setLoop, noted, hj]
    · by_cases hj : j = l
      · subst hj
        simp [put, setTodo, setLoop, noted, h]
      · simp [put, setTodo, setLoop, noted, h, hj]

/-- What has changed where a connection has moved on. -/
structure Moved (s t : ServerSystem) (c : ConnPtr) (w : LoopConn) : Prop where
  config_eq : t.config = s.config
  next_eq : t.next_ = s.next_
  created_eq : t.map.created = s.map.created
  conns_eq : t.conns = Function.update s.conns c w.tcp
  loopOf_eq : t.loopOf = s.loopOf
  poller_eq : (t.loops (s.loopOf c)).poller = w.poller
  poller_others : ∀ l ≠ s.loopOf c, (t.loops l).poller = (s.loops l).poller

theorem put_moved (s : ServerSystem) (l : LoopId) (todo : List ServerWork) (c : ConnPtr) (w : LoopConn) :
    s.Moved ((s.put c w).setTodo l todo) c w := by
  refine ⟨rfl, rfl, rfl, rfl, rfl, ?_, fun i hi => ?_⟩
  · by_cases h : s.loopOf c = l
    · simp [put, setTodo, setLoop, h]
    · simp [put, setTodo, setLoop, h]
  · by_cases h : i = l
    · subst h
      simp [put, setTodo, setLoop, hi]
    · simp [put, setTodo, setLoop, hi, h]

theorem put_todo (s : ServerSystem) (l : LoopId) (c : ConnPtr) (w : LoopConn) :
    ((s.put c w).loops l).todo = (s.loops l).todo := by
  by_cases h : l = s.loopOf c
  · subst h
    simp [put, setLoop]
  · simp [put, setLoop, h]

theorem put_only (s : ServerSystem) (l : LoopId) (c : ConnPtr) (w : LoopConn) :
    s.Advance (s.put c w) l [] (s.loops l).todo (s.noted c w) ∧ s.Moved (s.put c w) c w := by
  have ha := s.put_advance l [] (s.loops l).todo c w
  have hm := s.put_moved l (s.loops l).todo c w
  rw [List.nil_append] at ha
  rw [setTodo_self (s.put_todo l c w)] at ha hm
  exact ⟨ha, hm⟩

theorem Moved.of_eq {s t u : ServerSystem} {c : ConnPtr} {w : LoopConn} (h : s.Moved t c w)
    (hconfig : u.config = t.config) (hnext : u.next_ = t.next_) (hmap : u.map.created = t.map.created)
    (hconns : u.conns = t.conns) (hloop : u.loopOf = t.loopOf) (hloops : u.loops = t.loops) :
    s.Moved u c w := by
  obtain ⟨h1, h2, h3, h4, h5, h6, h7⟩ := h
  rw [← hloops] at h6 h7
  exact ⟨hconfig.trans h1, hnext.trans h2, hmap.trans h3, hconns.trans h4, hloop.trans h5, h6, h7⟩

theorem mem_users {r : Reaction} {w : ServerWork} (h : w ∈ users r) : ∃ c call, w = .user c call := by
  obtain ⟨u, -, rfl⟩ := List.mem_map.mp h
  exact ⟨_, _, rfl⟩

/-- The callbacks of `handleEvent`, and user code: what has become of the connection,
and what is to be done next. -/
inductive HandlerStep (s : ServerSystem) (l : LoopId) (c : ConnPtr) :
    ServerWork → LoopConn → List ServerWork → Prop
  | close {w r} (h : ((s.view c).setState .kDisconnected).onChannel Channel.disableAll = .ok w) :
      HandlerStep s l c (.close c) w (users r ++ [.closeCallback c])
  | message {b r} : HandlerStep s l c (.read c) ((s.view c).setInput b) (users r)
  | endOfStream {b} : HandlerStep s l c (.read c) ((s.view c).setInput b) [.close c]
  | readFailed {b} : HandlerStep s l c (.read c) ((s.view c).setInput b) []
  | write {k w} (h : (s.view c).handleWrite k = .ok w) : HandlerStep s l c (.write c) w []
  | user {call w} (hc : s.Here c) (hl : s.loopOf c = l) (h : (s.view c).user [call] = .ok w) :
      HandlerStep s l c (.user c call) w []

/-- What the work at the head of a loop's list does. -/
inductive ExecStep (s : ServerSystem) (l : LoopId) (rest : List ServerWork) : ServerWork → ServerSystem → Prop
  | connectEstablished {c r w} (h : (s.view c).connectEstablished [] = .ok w) :
      ExecStep s l rest (.connectEstablished c)
        { (s.put c w).setTodo l (users r ++ rest) with established := Function.update s.established c true }
  | connectDestroyed {c w} (h : (s.view c).connectDestroyed = .ok w) :
      ExecStep s l rest (.connectDestroyed c)
        { (s.put c w).setTodo l ([] ++ rest) with
          destroyedOn := Function.update s.destroyedOn c (s.destroyedOn c ++ [l]) }
  | handled {c v w new} (h : s.HandlerStep l c v w new) : ExecStep s l rest v ((s.put c w).setTodo l (new ++ rest))
  | removeConnectionInLoop {c} :
      ExecStep s l rest (.removeConnectionInLoop c) ((s.setTodo l ([] ++ rest)).removeConnectionInLoop c)
  | closeCallbackHere {c} (hl : l = 0) : ExecStep s l rest (.closeCallback c)
      { s.setTodo l ([.removeConnectionInLoop c] ++ rest) with lateUses := s.late .removeConnection }
  | closeCallback {c} (hl : l ≠ 0) : ExecStep s l rest (.closeCallback c)
      { (s.setTodo l ([] ++ rest)).push 0 (.removeConnectionInLoop c) with lateUses := s.late .removeConnection }
  | endNewConnection {c} : ExecStep s l rest (.endNewConnection c)
      { s.setTodo l ([] ++ rest) with lateUses := s.late .newConnection }
  | done {v r} (hv : (∃ bound, v = .functor bound) ∨ ∃ c, v = .endEvent c) :
      ExecStep s l rest v (s.setTodo l (users r ++ rest))

theorem exec_cases {s t : ServerSystem} {l : LoopId} {rest : List ServerWork} {r : Reaction} {v : ServerWork}
    (h : s.exec l rest r v = some t) : s.ExecStep l rest v t := by
  cases v with
  | connectEstablished c =>
    simp only [exec, Option.map_eq_some_iff] at h
    obtain ⟨w, hw, rfl⟩ := h
    exact .connectEstablished (toOption_eq_some.mp hw)
  | connectDestroyed c =>
    simp only [exec, connectDestroyed, Option.map_eq_some_iff] at h
    obtain ⟨-, ⟨w, hw, rfl⟩, rfl⟩ := h
    exact .connectDestroyed (toOption_eq_some.mp hw)
  | removeConnectionInLoop c =>
    cases h
    exact .removeConnectionInLoop
  | functor bound =>
    cases h
    exact .done (Or.inl ⟨bound, rfl⟩)
  | close c =>
    simp only [exec, Option.map_eq_some_iff] at h
    obtain ⟨w, hw, rfl⟩ := h
    have hstep : s.HandlerStep l c (.close c) w (users r ++ [.closeCallback c]) := .close (toOption_eq_some.mp hw)
    have hexec : s.ExecStep l rest (.close c) _ := .handled hstep
    simpa using hexec
  | closeCallback c =>
    by_cases hl : l = 0
    · simp only [exec, hl, if_true] at h
      cases h
      subst hl
      exact .closeCallbackHere rfl
    · simp only [exec, hl, if_false] at h
      cases h
      exact .closeCallback hl
  | read c =>
    simp only [exec, Option.map_eq_some_iff] at h
    obtain ⟨⟨n, e, b⟩, -, rfl⟩ := h
    simp only
    split
    · exact .handled .message
    · split
      · exact .handled .endOfStream
      · exact .handled .readFailed
  | write c =>
    simp only [exec, Option.map_eq_some_iff] at h
    obtain ⟨w, hw, rfl⟩ := h
    exact .handled (.write (toOption_eq_some.mp hw))
  | user c call =>
    simp only [exec, Option.ite_none_right_eq_some, Option.map_eq_some_iff] at h
    obtain ⟨⟨hc, hl⟩, w, hw, rfl⟩ := h
    exact .handled (.user hc hl (toOption_eq_some.mp hw))
  | endEvent c =>
    cases h
    exact .done (r := ⟨.fails 0, .fails 0, []⟩) (Or.inr ⟨c, rfl⟩)
  | endNewConnection c =>
    cases h
    exact .endNewConnection

/-- What `newConnection` has done, up to the work it leaves. -/
structure Accepted (s t : ServerSystem) (fd : Fd) : Prop where
  conn_eq : TcpConnection.new s.map.created fd s.config.writeCompleteCallback_ s.config.highWaterMarkCallback_
    s.config.highWaterMark_ = .ok (t.conns s.map.created)
  conns_others : ∀ c ≠ s.map.created, t.conns c = s.conns c
  map_eq : t.map = s.map.newConnection s.config.name_ s.config.listenAddr.toIpPort
  next_eq : t.next_ = s.getNextLoop.2
  loopOf_eq : t.loopOf = Function.update s.loopOf s.map.created s.getNextLoop.1
  config_eq : t.config = s.config
  stage_eq : t.stage = s.stage
  holders_eq : t.holders = s.holders
  released_eq : t.released = s.released
  established_eq : t.established = s.established
  destroyedOn_eq : t.destroyedOn = s.destroyedOn
  lateUses_eq : t.lateUses = s.late .newConnection
  dangling_eq : t.dangling = s.dangling
  poller_eq : ∀ l, (t.loops l).poller = (s.loops l).poller
  work : s.getNextLoop.1 = 0 ∧
      s.Advance t 0 [.connectEstablished s.map.created, .endNewConnection s.map.created] [] nothing ∨
    s.Advance t 0 [] [] (pushed s.getNextLoop.1 (.connectEstablished s.map.created))

@[simp] theorem setTodo_poller (s : ServerSystem) (l i : LoopId) (todo : List ServerWork) :
    ((s.setTodo l todo).loops i).poller = (s.loops i).poller := by
  by_cases h : i = l
  · subst h
    simp [setTodo, setLoop]
  · simp [setTodo, setLoop, h]

@[simp] theorem push_poller (s : ServerSystem) (l i : LoopId) (w : ServerWork) :
    ((s.push l w).loops i).poller = (s.loops i).poller := by
  by_cases h : i = l
  · subst h
    simp [push, setLoop]
  · simp [push, setLoop, h]

theorem newConnection_cases {s t : ServerSystem} {fd : Fd} (ht : (s.loops 0).todo = [])
    (h : s.newConnection fd = some t) : s.Accepted t fd := by
  simp only [newConnection, Option.map_eq_some_iff] at h
  obtain ⟨conn, hc, h⟩ := h
  have hc := toOption_eq_some.mp hc
  have hself : (s.enroll conn).conns s.map.created = conn := Function.update_self ..
  have hothers : ∀ c ≠ s.map.created, (s.enroll conn).conns c = s.conns c := fun c hn => Function.update_of_ne hn ..
  by_cases h0 : s.getNextLoop.1 = 0
  · rw [if_pos h0] at h
    subst h
    have ha := (s.enroll conn).setTodo_advance 0 [.connectEstablished s.map.created, .endNewConnection s.map.created] []
    obtain ⟨h1, h2, h3, h4, h5, h6, h7, h8⟩ := ha
    exact ⟨hc.trans (congrArg _ hself.symm), hothers, rfl, rfl, rfl, rfl, rfl, rfl, rfl, rfl, rfl, rfl, rfl,
      fun l => setTodo_poller _ _ _ _, Or.inl ⟨h0, h1, h2, h3, h4, h5, h6, h7, h8⟩⟩
  · rw [if_neg h0] at h
    subst h
    have ha := (s.enroll conn).push_only 0 s.getNextLoop.1 (.connectEstablished s.map.created)
    rw [show ((s.enroll conn).loops 0).todo = [] from ht] at ha
    obtain ⟨h1, h2, h3, h4, h5, h6, h7, h8⟩ := ha
    exact ⟨hc.trans (congrArg _ hself.symm), hothers, rfl, rfl, rfl, rfl, rfl, rfl, rfl, rfl, rfl, rfl, rfl,
      fun l => push_poller _ _ _ _, Or.inr ⟨h1, h2, h3, h4, h5, h6, h7, h8⟩⟩

inductive UserStep (s : ServerSystem) : ServerAction → ServerSystem → Prop
  | copied {c} (hc : s.Here c) :
      UserStep s (.copy c) { s with holders := Function.update s.holders c (s.holders c + 1) }
  | dropped {c} : UserStep s (.drop c) { s with holders := Function.update s.holders c (s.holders c - 1) }
  | posted {l bound} (hp : (s.loops l).phase ≠ .left) (hb : ∀ c ∈ bound, s.Here c) :
      UserStep s (.post l bound) (s.push l (.functor bound))

theorem stepUser_cases {s t : ServerSystem} {a : ServerAction} (h : s.stepUser a = some t) : s.UserStep a t := by
  cases a with
  | copy c =>
    simp only [stepUser, Option.ite_none_right_eq_some, Option.some.injEq] at h
    obtain ⟨hc, rfl⟩ := h
    exact .copied hc
  | drop c =>
    simp only [stepUser, Option.ite_none_right_eq_some, Option.some.injEq] at h
    obtain ⟨-, rfl⟩ := h
    exact .dropped
  | post l bound =>
    simp only [stepUser, Option.ite_none_right_eq_some, Option.some.injEq] at h
    obtain ⟨⟨-, hp, hb⟩, rfl⟩ := h
    exact .posted hp hb
  | _ => cases h

/-- What a loop may come to in `loop()` without having done anything yet. -/
inductive TurnStep (s : ServerSystem) (l : LoopId) : ServerLoop → Prop
  | tested (hp : (s.loops l).phase = .testing) (hq : (s.loops l).quit_ = false) :
      TurnStep s l { s.loops l with phase := .polling }
  | polled {active} (hp : (s.loops l).phase = .polling) (ha : ∀ a ∈ active, s.reports l a = true) :
      TurnStep s l { s.loops l with phase := .dispatching, active := active }
  | skipped {a active} (hp : (s.loops l).phase = .dispatching) (ha : (s.loops l).active = a :: active) :
      TurnStep s l { s.loops l with active := active }
  | doPendingFunctors (hp : (s.loops l).phase = .dispatching) (ht : (s.loops l).todo = [])
      (ha : (s.loops l).active = []) :
      TurnStep s l { s.loops l with phase := .functors, queue := (s.loops l).queue.swap }
  | called {w queue} (hp : (s.loops l).phase = .functors) (ht : (s.loops l).todo = [])
      (hq : (s.loops l).queue.pop = some (w, queue)) :
      TurnStep s l { s.loops l with queue := queue, taken := (s.loops l).taken ++ [w], todo := [w] }
  | finished (hp : (s.loops l).phase = .functors) (ht : (s.loops l).todo = [])
      (hb : (s.loops l).queue.batch = []) :
      TurnStep s l { s.loops l with phase := .testing, taken := [] }

/-- The steps of a loop's thread, with what each has tested. -/
inductive LoopStep (s : ServerSystem) : ServerAction → ServerSystem → Prop
  | turned {l a L} (hr : s.runs l) (h : s.TurnStep l L) : LoopStep s a (s.setLoop l L)
  | left {l} (hr : s.runs l) (hp : (s.loops l).phase = .testing) (ht : (s.loops l).todo = [])
      (hq : (s.loops l).quit_ = true) :
      LoopStep s (.test l) (s.setLoop l { s.loops l with
        phase := .left, queue := { (s.loops l).queue with batch := [], pending := [] } })
  | accepted {fd active t} (hr : s.runs 0) (ha : (s.loops 0).active = .acceptChannel :: active)
      (h : s.TurnStep 0 { s.loops 0 with active := active }) (ht : (s.loops 0).todo = []) (hfd : s.Closed fd)
      (hacc : (s.setActive 0 active).Accepted t fd) : LoopStep s (.accept (some fd)) t
  | dangled {l c revents active} (hr : s.runs l) (ha : (s.loops l).active = .channel c revents :: active)
      (h : s.TurnStep l { s.loops l with active := active }) (hc : s.released c = true) :
      LoopStep s (.handleEvent l) { s.setActive l active with dangling := s.dangling ++ [c] }
  | handled {l c revents active guard} (hr : s.runs l) (ha : (s.loops l).active = .channel c revents :: active)
      (h : s.TurnStep l { s.loops l with active := active }) (hp : (s.loops l).phase = .dispatching)
      (ht : (s.loops l).todo = []) (hc : s.released c = false) (hg : ∀ w ∈ guard, w = .endEvent c) :
      LoopStep s (.handleEvent l) ((s.setActive l active).setTodo l (handlers c revents ++ guard ++ []))
  | code {l r} (hr : s.runs l) (hp : (s.loops l).phase = .dispatching) (ht : (s.loops l).todo = []) :
      LoopStep s (.code l r) (s.setTodo l (users r ++ []))
  | worked {l r v rest t} (hr : s.runs l) (ht : (s.loops l).todo = v :: rest) (h : s.ExecStep l rest v t) :
      LoopStep s (.work l r) t

theorem stepLoop_cases {s t : ServerSystem} {a : ServerAction} (h : s.stepLoop a = some t) : s.LoopStep a t := by
  cases a with
  | test l =>
    simp only [stepLoop, Option.ite_none_right_eq_some, Option.some.injEq] at h
    obtain ⟨⟨hr, hp, ht⟩, rfl⟩ := h
    by_cases hq : (s.loops l).quit_ = true
    · rw [if_pos hq]
      exact .left hr hp (by simpa using ht) hq
    · rw [if_neg hq]
      exact .turned hr (.tested hp (by simpa using hq))
  | poll l active =>
    simp only [stepLoop, Option.ite_none_right_eq_some, Option.some.injEq] at h
    obtain ⟨⟨hr, hp, ha⟩, rfl⟩ := h
    exact .turned hr (.polled hp (by simpa using ha))
  | accept connfd =>
    simp only [stepLoop, Option.ite_none_right_eq_some] at h
    obtain ⟨⟨hr, hp, ht⟩, h⟩ := h
    split at h
    · rename_i active ha
      cases connfd with
      | none =>
        cases h
        exact .turned hr (.skipped hp ha)
      | some fd =>
        obtain ⟨hfd, h⟩ := Option.ite_none_right_eq_some.mp h
        have ht : (s.loops 0).todo = [] := by simpa using ht
        exact .accepted hr ha (.skipped hp ha) ht hfd (newConnection_cases (by simpa [setActive, setLoop] using ht) h)
    · cases h
  | handleEvent l =>
    simp only [stepLoop, Option.ite_none_right_eq_some] at h
    obtain ⟨⟨hr, hp, ht⟩, h⟩ := h
    split at h
    · rename_i c revents active ha
      split at h
      · rename_i hc
        cases h
        exact .dangled hr ha (.skipped hp ha) hc
      · rename_i hc
        cases h
        rw [← List.append_nil (_ ++ _)]
        refine .handled hr ha (.skipped hp ha) hp (by simpa using ht) (by simpa using hc) fun w hw => ?_
        split at hw
        · exact List.mem_singleton.mp hw
        · cases hw
    · cases h
  | code l r =>
    simp only [stepLoop, Option.ite_none_right_eq_some, Option.some.injEq] at h
    obtain ⟨⟨hr, hp, ht⟩, rfl⟩ := h
    rw [← List.append_nil (users r)]
    exact .code hr hp (by simpa using ht)
  | doPendingFunctors l =>
    simp only [stepLoop, Option.ite_none_right_eq_some, Option.some.injEq] at h
    obtain ⟨⟨hr, hp, ht, ha⟩, rfl⟩ := h
    exact .turned hr (.doPendingFunctors hp (by simpa using ht) (by simpa using ha))
  | call l =>
    simp only [stepLoop, Option.ite_none_right_eq_some, Option.map_eq_some_iff] at h
    obtain ⟨⟨hr, hp, ht⟩, ⟨w, queue⟩, hq, rfl⟩ := h
    exact .turned hr (.called hp (by simpa using ht) hq)
  | finish l =>
    simp only [stepLoop, Option.ite_none_right_eq_some, Option.some.injEq] at h
    obtain ⟨⟨hr, hp, ht, hb⟩, rfl⟩ := h
    exact .turned hr (.finished hp (by simpa using ht) (by simpa using hb))
  | work l r =>
    simp only [stepLoop, Option.ite_none_right_eq_some] at h
    obtain ⟨hr, h⟩ := h
    split at h
    · cases h
    · rename_i w rest ht
      exact .worked hr ht (exec_cases h)
  | _ => cases h

/-- The steps of `~TcpServer`, with what each has tested. -/
inductive TeardownStep (s : ServerSystem) : ServerAction → ServerSystem → Prop
  | destroyServer (hs : s.stage = .alive) : TeardownStep s .destroyServer { s with stage := .destroying }
  | destroyItemHere {c w} (hs : s.stage = .destroying) (hc : c < s.map.created) (hm : s.map.contains c = true)
      (hl : s.loopOf c = 0) (h : (s.view c).connectDestroyed = .ok w) :
      TeardownStep s (.destroyItem c)
        { ({ s with map := s.map.reset c }.put c w) with
          destroyedOn := Function.update s.destroyedOn c (s.destroyedOn c ++ [0]) }
  | destroyItem {c} (hs : s.stage = .destroying) (hc : c < s.map.created) (hm : s.map.contains c = true) :
      TeardownStep s (.destroyItem c) ({ s with map := s.map.reset c }.push (s.loopOf c) (.connectDestroyed c))
  | destroyMembers (hs : s.stage = .destroying) (hm : ∀ c < s.map.created, s.map.contains c = false) :
      TeardownStep s .destroyMembers
        { s with stage := if s.config.numThreads_ = 0 then .dead else .quitting 1 }
  | quitThread {i} (hs : s.stage = .quitting i) :
      TeardownStep s .quitThread { s.setLoop i { s.loops i with quit_ := true } with stage := .joining i }
  | joinThread {i} (hs : s.stage = .joining i) (hp : (s.loops i).phase = .left) :
      TeardownStep s .joinThread
        { s with stage := if i < s.config.numThreads_ then .quitting (i + 1) else .dead }

theorem stepServer_cases {s t : ServerSystem} {a : ServerAction} (h : s.stepServer a = some t) :
    s.TeardownStep a t := by
  cases a with
  | destroyServer =>
    simp only [stepServer, Option.ite_none_right_eq_some, Option.some.injEq] at h
    obtain ⟨⟨hs, -⟩, rfl⟩ := h
    exact .destroyServer hs
  | destroyItem c =>
    simp only [stepServer, Option.ite_none_right_eq_some] at h
    obtain ⟨⟨hs, hc, hm⟩, h⟩ := h
    split at h
    · rename_i hl
      obtain ⟨w, hw, rfl⟩ := Option.map_eq_some_iff.mp h
      exact .destroyItemHere hs hc hm hl (toOption_eq_some.mp hw)
    · cases h
      exact .destroyItem hs hc hm
  | destroyMembers =>
    simp only [stepServer, Option.ite_none_right_eq_some, Option.some.injEq] at h
    obtain ⟨⟨hs, hm⟩, rfl⟩ := h
    exact .destroyMembers hs hm
  | quitThread =>
    simp only [stepServer] at h
    split at h
    · rename_i i hs
      cases h
      exact .quitThread hs
    · cases h
  | joinThread =>
    simp only [stepServer] at h
    split at h
    · rename_i i hs
      obtain ⟨hp, h⟩ := Option.ite_none_right_eq_some.mp h
      cases h
      exact .joinThread hs hp
    · cases h
  | _ => cases h

theorem step_cases {s s' : ServerSystem} {a : ServerAction} (h : s.Step a s') :
    ∃ t, (s.UserStep a t ∨ s.LoopStep a t ∨ s.TeardownStep a t) ∧ s' = t.reap := by
  obtain ⟨t, ht, rfl⟩ := Option.map_eq_some_iff.mp h
  refine ⟨t, ?_, rfl⟩
  rcases Option.or_eq_some_iff.mp ht with ht | ⟨-, ht⟩
  · rcases Option.or_eq_some_iff.mp ht with ht | ⟨-, ht⟩
    · exact Or.inl (stepUser_cases ht)
    · exact Or.inr (Or.inl (stepLoop_cases ht))
  · exact Or.inr (Or.inr (stepServer_cases ht))

end ServerSystem

end MyMuduo
