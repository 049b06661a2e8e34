import MyMuduo.ConnectionThreads

/-! What each step of the threads around a connection leaves alone. -/

namespace MyMuduo

/-- The send that the work carries out. -/
def LoopWork.sends : LoopWork → Option Nat
  | .sendInLoop m _ => some m.id
  | .sendSpan id _ _ => some id
  | _ => none

namespace ConnSystem

/-- The steps of `stepThread`, with what each has tested. -/
inductive ThreadStep (s : ConnSystem) : SysAction → ConnSystem → Prop
  | sendTested {i m} (hh : i ∈ s.holders) (hst : s.state = .kConnected) (hid : m.id = s.nextId)
      (hgiven : m.given = s.memory.read m.data m.len) (hi : s.threads i = .idle) :
      ThreadStep s (.send i m.data m.len) { s.setThread i (.sendTested m) with nextId := s.nextId + 1 }
  | sendRefused {i data len} (hh : i ∈ s.holders) : ThreadStep s (.send i data len) s
  | sendQueued {i m} (hi : s.threads i = .sendTested m) :
      ThreadStep s (.sendQueue i)
        { (s.push (.sendInLoop m)).setThread i .idle with returned := s.returned ++ [m.id] }
  | shutdownTested {i} (hh : i ∈ s.holders) (hst : s.state = .kConnected) (hi : s.threads i = .idle) :
      ThreadStep s (.shutdown i) ({ s with covered := s.covered ++ s.returned }.setThread i .shutdownTested)
  | shutdownRefused {i} (hh : i ∈ s.holders) :
      ThreadStep s (.shutdown i) { s with covered := s.covered ++ s.returned }
  | shutdownStored {i} (hi : s.threads i = .shutdownTested) :
      ThreadStep s (.shutdownStore i)
        { s.setThread i .shutdownStored with conn := s.conn.setState .kDisconnecting }
  | shutdownQueued {i} (hi : s.threads i = .shutdownStored) :
      ThreadStep s (.shutdownQueue i) ((s.push .shutdownInLoop).setThread i .idle)
  | copied {i} (hr : s.released = false) : ThreadStep s (.copy i) { s with holders := i :: s.holders }
  | dropped {i} (hh : i ∈ s.holders) (hi : s.threads i = .idle) :
      ThreadStep s (.drop i) { s with holders := s.holders.erase i }
  | overwritten {memory} : ThreadStep s (.overwrite memory) { s with memory := memory }
  | posted {holds} (hr : s.released = true → holds = false) :
      ThreadStep s (.post holds) (s.push (.functor holds))
  | removed (hr : 0 < s.removals) : ThreadStep s .removeConnection
      { s.push .connectDestroyed with removals := s.removals - 1, inMap := false }
  | serverDestroyed (hm : s.inMap = true) :
      ThreadStep s .destroyServer { s.push .connectDestroyed with inMap := false }

theorem stepThread_cases {s t : ConnSystem} {a : SysAction} (h : s.stepThread a = some t) : s.ThreadStep a t := by
  cases a with
  | send i data len =>
    simp only [stepThread] at h
    split at h
    · rename_i hi
      split at h
      · rename_i hl
        split at h
        · rename_i hst
          cases h
          exact .sendTested (m := ⟨s.nextId, data, len, hl.1, _⟩) hl.2 hst rfl rfl hi
        · cases h
          exact .sendRefused hl.2
      · cases h
    · cases h
  | sendQueue i =>
    simp only [stepThread] at h
    split at h
    · rename_i hi
      cases h
      exact .sendQueued hi
    · cases h
  | shutdown i =>
    simp only [stepThread] at h
    split at h
    · rename_i hi
      split at h
      · rename_i hh
        cases h
        split
        · rename_i hst
          exact .shutdownTested hh hst hi
        · exact .shutdownRefused hh
      · cases h
    · cases h
  | shutdownStore i =>
    simp only [stepThread] at h
    split at h
    · rename_i hi
      cases h
      exact .shutdownStored hi
    · cases h
  | shutdownQueue i =>
    simp only [stepThread] at h
    split at h
    · rename_i hi
      cases h
      exact .shutdownQueued hi
    · cases h
  | copy i =>
    simp only [stepThread] at h
    split at h
    · cases h
    · rename_i hr
      cases h
      exact .copied (by simpa using hr)
  | drop i =>
    simp only [stepThread] at h
    split at h
    · rename_i hi
      split at h
      · rename_i hh
        cases h
        exact .dropped hh hi
      · cases h
    · cases h
  | overwrite memory =>
    cases h
    exact .overwritten
  | post holds =>
    simp only [stepThread] at h
    split at h
    · cases h
    · rename_i hr
      cases h
      exact .posted fun hrel => by simpa [hrel] using hr
  | removeConnection =>
    simp only [stepThread, Option.ite_none_right_eq_some, Option.some.injEq] at h
    obtain ⟨hr, rfl⟩ := h
    exact .removed hr
  | destroyServer =>
    simp only [stepThread, Option.ite_none_right_eq_some, Option.some.injEq] at h
    obtain ⟨hm, rfl⟩ := h
    exact .serverDestroyed hm
  | destroyServerHere => cases h
  | poll due => cases h
  | handleEvent e => cases h
  | code cs => cases h
  | doPendingFunctors => cases h
  | call k cs => cases h
  | finish => cases h
  | work => cases h

/-- The steps of `stepLoop`, with what each has tested. -/
inductive LoopStep (s : ConnSystem) : SysAction → ConnSystem → Prop
  | destroyServerHere (hm : s.inMap = true) (hw : ∀ w ∈ s.todo.head?, w.atUserCode = true) :
      LoopStep s .destroyServerHere { s with inMap := false, todo := .destroyTest :: s.todo }
  | poll {due} (hp : s.phase = .polling) : LoopStep s (.poll due) { s with phase := .dispatching due }
  | handleEvent {e} (hp : s.phase = .dispatching true) (hr : s.released = false) (ht : s.todo = []) :
      LoopStep s (.handleEvent e) { s with phase := .dispatching false, todo := callbacks e, guarded := true }
  | code {cs due} (hp : s.phase = .dispatching due) (ht : s.todo = []) :
      LoopStep s (.code cs) { s with todo := cs.map .user }
  | doPendingFunctors (hp : s.phase = .dispatching false) :
      LoopStep s .doPendingFunctors { s with phase := .functors, queue := s.queue.swap }
  | call {k cs task queue} (hp : s.phase = .functors) (hq : s.queue.pop = some (task, queue)) (ht : s.todo = []) :
      LoopStep s (.call k cs) { s with queue := queue, taken := s.taken ++ [task], todo := taskWork k cs task }
  | finish (hp : s.phase = .functors) (hb : s.queue.batch = []) :
      LoopStep s .finish { s with phase := .polling, taken := [] }
  | work {w rest t} (ht : s.todo = w :: rest) (hu : s.released = true → w.isUser = false)
      (h : s.exec rest w = some t) : LoopStep s .work t

theorem stepLoop_cases {s t : ConnSystem} {a : SysAction} (h : s.stepLoop a = some t) : s.LoopStep a t := by
  cases a with
  | destroyServerHere =>
    simp only [stepLoop, Option.ite_none_right_eq_some, Option.some.injEq] at h
    obtain ⟨⟨hm, -, hw⟩, rfl⟩ := h
    exact .destroyServerHere hm fun w hhead => by simpa [Option.mem_def.mp hhead] using hw
  | poll due =>
    simp only [stepLoop, Option.ite_none_right_eq_some, Option.some.injEq] at h
    obtain ⟨⟨hp, -⟩, rfl⟩ := h
    exact .poll hp
  | handleEvent e =>
    simp only [stepLoop, Option.ite_none_right_eq_some, Option.some.injEq] at h
    obtain ⟨⟨hp, ht, hr⟩, rfl⟩ := h
    exact .handleEvent hp hr (by simpa using ht)
  | code cs =>
    simp only [stepLoop] at h
    split at h
    · rename_i hp
      split at h
      · rename_i ht
        cases h
        exact .code hp (by simpa using ht)
      · cases h
    · cases h
  | doPendingFunctors =>
    simp only [stepLoop, Option.ite_none_right_eq_some, Option.some.injEq] at h
    obtain ⟨⟨hp, -⟩, rfl⟩ := h
    exact .doPendingFunctors hp
  | call k cs =>
    simp only [stepLoop, Option.ite_none_right_eq_some, Option.map_eq_some_iff] at h
    obtain ⟨⟨hp, ht⟩, ⟨task, queue⟩, hq, rfl⟩ := h
    exact .call hp hq (by simpa using ht)
  | finish =>
    simp only [stepLoop, Option.ite_none_right_eq_some, Option.some.injEq] at h
    obtain ⟨⟨hp, -, hb⟩, rfl⟩ := h
    exact .finish hp (by simpa using hb)
  | work =>
    simp only [stepLoop] at h
    split at h
    · cases h
    · rename_i ht
      split at h
      · cases h
      · rename_i hu
        exact .work ht (fun hr => by simpa [hr] using hu) h
  | send i data len => cases h
  | sendQueue i => cases h
  | shutdown i => cases h
  | shutdownStore i => cases h
  | shutdownQueue i => cases h
  | copy i => cases h
  | drop i => cases h
  | overwrite memory => cases h
  | post holds => cases h
  | removeConnection => cases h
  | destroyServer => cases h

theorem step_cases {s s' : ConnSystem} {a : SysAction} (h : s.Step a s') :
    ∃ t, (s.ThreadStep a t ∨ s.LoopStep a t) ∧ s' = t.reap := by
  obtain ⟨t, ht, rfl⟩ := Option.map_eq_some_iff.mp h
  refine ⟨t, ?_, rfl⟩
  rcases Option.or_eq_some_iff.mp ht with ht | ⟨-, ht⟩
  · exact Or.inl (stepThread_cases ht)
  · exact Or.inr (stepLoop_cases ht)

/-- The part of the state that belongs to the loop's thread. -/
structure SameLoop (s t : ConnSystem) : Prop where
  todo_eq : t.todo = s.todo
  phase_eq : t.phase = s.phase
  batch_eq : t.queue.batch = s.queue.batch
  ran_eq : t.ran = s.ran
  dropped_eq : t.dropped = s.dropped
  closed_eq : t.closed = s.closed
  destroyed_eq : t.destroyed = s.destroyed
  guarded_eq : t.guarded = s.guarded
  released_eq : t.released = s.released
  rawRuns_eq : t.rawRuns = s.rawRuns

theorem ThreadStep.sameLoop {s t : ConnSystem} {a : SysAction} (h : s.ThreadStep a t) : s.SameLoop t := by
  cases h <;> exact ⟨rfl, rfl, rfl, rfl, rfl, rfl, rfl, rfl, rfl, rfl⟩

/-- Another thread changes nothing of the connection but that `shutdown` stores
`kDisconnecting`. -/
theorem ThreadStep.conn_eq {s t : ConnSystem} {a : SysAction} (h : s.ThreadStep a t) :
    (∃ i, a = .shutdownStore i) ∧ t.conn = s.conn.setState .kDisconnecting ∨ t.conn = s.conn := by
  cases h with
  | @shutdownStored i hi => exact Or.inl ⟨⟨i, rfl⟩, rfl⟩
  | _ => exact Or.inr rfl

/-- A step of the loop's thread that decides what to do next: the connection is as
it was, and the work that was not there starts at the beginning of a function. -/
structure NextWork (s t : ConnSystem) : Prop where
  conn_eq : t.conn = s.conn
  todo_sub : ∀ w ∈ t.todo, w ∈ s.todo ∨ w.relies = false
  tail_sub : (∀ w ∈ s.todo.tail, w.atUserCode = true) → ∀ w ∈ t.todo.tail, w.atUserCode = true
  ran_eq : t.ran = s.ran
  dropped_eq : t.dropped = s.dropped
  closed_eq : t.closed = s.closed
  destroyed_eq : t.destroyed = s.destroyed
  rawRuns_eq : t.rawRuns = s.rawRuns

theorem users_atUserCode {cs : List UserCall} : ∀ w ∈ cs.map LoopWork.user, w.atUserCode = true ∧ w.relies = false := by
  intro w hw
  obtain ⟨c, -, rfl⟩ := List.mem_map.mp hw
  exact ⟨rfl, rfl⟩

theorem callbacks_atUserCode {e : LoopConn.Delivery} : ∀ w ∈ callbacks e, w.atUserCode = true ∧ w.relies = false := by
  intro w hw
  simp only [callbacks, List.mem_append] at hw
  rcases hw with (hw | hw) | hw
  all_goals
    split at hw
    · rw [List.mem_singleton.mp hw]
      exact ⟨rfl, rfl⟩
    · cases hw

theorem taskWork_starts {k : WriteOutcome} {cs : List UserCall} {task : ConnTask} :
    (∀ w ∈ taskWork k cs task, w.relies = false) ∧ ∀ w ∈ (taskWork k cs task).tail, w.atUserCode = true := by
  cases task with
  | sendInLoop m => simp [taskWork, LoopWork.relies]
  | shutdownInLoop => simp [taskWork, LoopWork.relies]
  | connectDestroyed => simp [taskWork, LoopWork.relies]
  | functor holds =>
    exact ⟨fun w hw => (users_atUserCode w hw).2, fun w hw => (users_atUserCode w (List.mem_of_mem_tail hw)).1⟩

theorem LoopStep.nextWork {s t : ConnSystem} {a : SysAction} (ha : a ≠ .work) (h : s.LoopStep a t) :
    s.NextWork t := by
  cases h with
  | destroyServerHere hm hhead =>
    refine ⟨rfl, fun w hw => ?_, fun htl w hw => ?_, rfl, rfl, rfl, rfl, rfl⟩
    · rcases List.mem_cons.mp hw with rfl | hw
      · exact Or.inr rfl
      · exact Or.inl hw
    · have hw : w ∈ s.todo := hw
      cases htodo : s.todo with
      | nil =>
        rw [htodo] at hw
        cases hw
      | cons v rest =>
        rw [htodo] at hw hhead htl
        rcases List.mem_cons.mp hw with rfl | hw
        · exact hhead w rfl
        · exact htl w hw
  | poll hp => exact ⟨rfl, fun _ hw => Or.inl hw, id, rfl, rfl, rfl, rfl, rfl⟩
  | handleEvent hp hr =>
    exact ⟨rfl, fun w hw => Or.inr (callbacks_atUserCode w hw).2,
      fun _ w hw => (callbacks_atUserCode w (List.mem_of_mem_tail hw)).1, rfl, rfl, rfl, rfl, rfl⟩
  | code hp =>
    exact ⟨rfl, fun w hw => Or.inr (users_atUserCode w hw).2,
      fun _ w hw => (users_atUserCode w (List.mem_of_mem_tail hw)).1, rfl, rfl, rfl, rfl, rfl⟩
  | doPendingFunctors hp => exact ⟨rfl, fun _ hw => Or.inl hw, id, rfl, rfl, rfl, rfl, rfl⟩
  | call hp hq =>
    exact ⟨rfl, fun w hw => Or.inr (taskWork_starts.1 w hw), fun _ => taskWork_starts.2, rfl, rfl, rfl, rfl, rfl⟩
  | finish hp hb => exact ⟨rfl, fun _ hw => Or.inl hw, id, rfl, rfl, rfl, rfl, rfl⟩
  | work ht hu h => exact absurd rfl ha

/-- Work that `w` has put in front of the rest: nothing that came from the queue,
no event out of none, no send but from `kConnected`, no half-close in it. -/
structure Follows (s t : ConnSystem) (w v : LoopWork) : Prop where
  raw : v.isRaw = false
  event : v.isEvent = true → w.isEvent = true
  send : v.sends = none ∨ s.state = .kConnected
  half : ∀ queued, v = .shutdownInLoop queued → t.state ≠ .kConnected

/-- What work for the connection leaves alone; the functors it queues hold a
reference. -/
structure WorkFrame (s t : ConnSystem) (w : LoopWork) (rest : List LoopWork) : Prop where
  threads_eq : t.threads = s.threads
  memory_eq : t.memory = s.memory
  phase_eq : t.phase = s.phase
  batch_eq : t.queue.batch = s.queue.batch
  pending_eq : ∃ notes : List ConnTask, (∀ task ∈ notes, task = .functor true) ∧
    t.queue.pending = s.queue.pending ++ notes
  released_eq : t.released = s.released
  guarded_eq : t.guarded = s.guarded
  todo_eq : ∃ new, t.todo = new ++ rest ∧ ∀ v ∈ new, s.Follows t w v

theorem mem_notes {cs : List ConnCall} : ∀ task ∈ cs.map fun _ => ConnTask.functor true, task = .functor true := by
  intro task hm
  obtain ⟨c, -, rfl⟩ := List.mem_map.mp hm
  rfl

theorem follows_users {s t : ConnSystem} {w : LoopWork} {cs : List UserCall} :
    ∀ v ∈ cs.map LoopWork.user, s.Follows t w v := by
  intro v hv
  obtain ⟨c, -, rfl⟩ := List.mem_map.mp hv
  exact ⟨rfl, by simp [LoopWork.isEvent], Or.inl rfl, by simp⟩

theorem follows_single {s t : ConnSystem} {w u : LoopWork} (hu : s.Follows t w u) : ∀ v ∈ [u], s.Follows t w v := by
  intro v hv
  rw [List.mem_singleton.mp hv]
  exact hu

theorem exec_frame {s t : ConnSystem} {w : LoopWork} {rest : List LoopWork} (h : s.exec rest w = some t) :
    s.WorkFrame t w rest := by
  have hnil : ∀ v ∈ ([] : List LoopWork), s.Follows t w v := by simp
  cases w with
  | close cs =>
    simp only [exec, Option.map_eq_some_iff] at h
    obtain ⟨conn, -, rfl⟩ := h
    refine ⟨rfl, rfl, rfl, rfl, ⟨_, mem_notes, rfl⟩, rfl, rfl, cs.map .user ++ [.closeCallback], by simp [proceed],
      fun v hv => ?_⟩
    rcases List.mem_append.mp hv with hv | hv
    · exact follows_users v hv
    · exact follows_single ⟨rfl, fun _ => rfl, Or.inl rfl, by simp⟩ v hv
  | closeCallback =>
    cases h
    exact ⟨rfl, rfl, rfl, rfl, ⟨_, mem_notes, rfl⟩, rfl, rfl, [], rfl, hnil⟩
  | read k cs =>
    simp only [exec, Option.map_eq_some_iff] at h
    obtain ⟨⟨n, e, b⟩, -, rfl⟩ := h
    simp only
    split
    · exact ⟨rfl, rfl, rfl, rfl, ⟨_, mem_notes, rfl⟩, rfl, rfl, cs.map .user, rfl, follows_users⟩
    · split
      · exact ⟨rfl, rfl, rfl, rfl, ⟨_, mem_notes, rfl⟩, rfl, rfl, [.close cs], rfl,
          follows_single ⟨rfl, fun _ => rfl, Or.inl rfl, by simp⟩⟩
      · exact ⟨rfl, rfl, rfl, rfl, ⟨_, mem_notes, rfl⟩, rfl, rfl, [], rfl, by simp⟩
  | write k =>
    simp only [exec, Option.map_eq_some_iff] at h
    obtain ⟨conn, -, rfl⟩ := h
    exact ⟨rfl, rfl, rfl, rfl, ⟨_, mem_notes, rfl⟩, rfl, rfl, [], rfl, hnil⟩
  | user c =>
    cases c with
    | send d k =>
      simp only [exec, execUser] at h
      split at h
      · rename_i hst
        cases h
        exact ⟨rfl, rfl, rfl, rfl, ⟨[], by simp, by simp⟩, rfl, rfl, [.sendSpan s.nextId d k], rfl,
          follows_single ⟨rfl, by simp [LoopWork.isEvent], Or.inr hst, by simp⟩⟩
      · cases h
        exact ⟨rfl, rfl, rfl, rfl, ⟨[], by simp, by simp⟩, rfl, rfl, [], rfl, hnil⟩
    | shutdown =>
      simp only [exec, execUser, Option.some.injEq] at h
      subst h
      refine ⟨rfl, rfl, rfl, rfl, ⟨[], by simp, by simp⟩, rfl, rfl, ?_⟩
      split
      · exact ⟨[.shutdownStore], rfl, follows_single ⟨rfl, by simp [LoopWork.isEvent], Or.inl rfl, by simp⟩⟩
      · exact ⟨[], rfl, by simp⟩
    | input op =>
      simp only [exec, execUser, Option.map_eq_some_iff] at h
      obtain ⟨⟨out, b⟩, -, rfl⟩ := h
      exact ⟨rfl, rfl, rfl, rfl, ⟨_, mem_notes, rfl⟩, rfl, rfl, [], rfl, hnil⟩
  | sendSpan id d k =>
    simp only [exec, Option.map_eq_some_iff] at h
    obtain ⟨conn, -, rfl⟩ := h
    exact ⟨rfl, rfl, rfl, rfl, ⟨_, mem_notes, rfl⟩, rfl, rfl, [], rfl, hnil⟩
  | sendInLoop m k =>
    simp only [exec, Option.map_eq_some_iff] at h
    obtain ⟨conn, -, rfl⟩ := h
    exact ⟨rfl, rfl, rfl, rfl, ⟨_, mem_notes, rfl⟩, rfl, rfl, [], rfl, hnil⟩
  | shutdownStore =>
    cases h
    exact ⟨rfl, rfl, rfl, rfl, ⟨_, mem_notes, rfl⟩, rfl, rfl, [.shutdownInLoop false], rfl,
      follows_single ⟨rfl, by simp [LoopWork.isEvent], Or.inl rfl, fun _ _ => by simp [state, proceed, LoopConn.setState]⟩⟩
  | shutdownInLoop queued =>
    cases h
    exact ⟨rfl, rfl, rfl, rfl, ⟨_, mem_notes, rfl⟩, rfl, rfl, [], rfl, hnil⟩
  | destroyTest =>
    cases h
    refine ⟨rfl, rfl, rfl, rfl, ⟨[], by simp, by simp⟩, rfl, rfl, [_], rfl, follows_single ?_⟩
    split
    · exact ⟨rfl, by simp [LoopWork.isEvent], Or.inl rfl, by simp⟩
    · exact ⟨rfl, by simp [LoopWork.isEvent], Or.inl rfl, by simp⟩
  | destroyStore =>
    simp only [exec, Option.map_eq_some_iff] at h
    obtain ⟨conn, -, rfl⟩ := h
    exact ⟨rfl, rfl, rfl, rfl, ⟨_, mem_notes, rfl⟩, rfl, rfl, [.destroyRemove], rfl,
      follows_single ⟨rfl, by simp [LoopWork.isEvent], Or.inl rfl, by simp⟩⟩
  | destroyRemove =>
    simp only [exec, Option.map_eq_some_iff] at h
    obtain ⟨conn, -, rfl⟩ := h
    exact ⟨rfl, rfl, rfl, rfl, ⟨_, mem_notes, rfl⟩, rfl, rfl, [], rfl, hnil⟩

theorem WorkFrame.mem_todo {s t : ConnSystem} {w v : LoopWork} {rest : List LoopWork} (h : s.WorkFrame t w rest)
    (hv : v ∈ t.todo) : v ∈ rest ∨ s.Follows t w v := by
  obtain ⟨new, he, hn⟩ := h.todo_eq
  rw [he] at hv
  exact (List.mem_append.mp hv).symm.imp_right (hn v)

/-- A new connection, alone on its poller, established and run through `as`. -/
def trial (f : ConnSystem → SysAction → Option ConnSystem) (memory : Memory) (as : List SysAction) :
    Option ConnSystem := do
  let c ← (TcpConnection.new 0 5 false false 0).toOption
  let w ← ((⟨c, EPollPoller.new, []⟩ : LoopConn).connectEstablished []).toOption
  execAll f (start w memory []) as

theorem exists_run_of_trial {f : ConnSystem → SysAction → Option ConnSystem}
    {r : ConnSystem → SysAction → ConnSystem → Prop} (hf : ∀ s a t, f s a = some t → r s a t) (memory : Memory)
    (as : List SysAction) (q : ConnSystem → Bool) (h : (trial f memory as).any q = true) :
    ∃ w s, w.Established ∧ Run r (start w memory []) as s ∧ q s = true := by
  obtain ⟨s, hs, hq⟩ := (Option.any_eq_true q _).mp h
  obtain ⟨c, hc, hs⟩ := Option.bind_eq_some_iff.mp hs
  obtain ⟨w, hw, hs⟩ := Option.bind_eq_some_iff.mp hs
  exact ⟨w, s, ⟨_, _, _, _, _, c, _, toOption_eq_some.mp hc, ⟨rfl, rfl⟩, toOption_eq_some.mp hw⟩,
    run_of_execAll hf hs, hq⟩

end ConnSystem

end MyMuduo
