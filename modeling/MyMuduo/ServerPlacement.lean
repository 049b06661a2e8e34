import Mathlib.Data.Int.CardIntervalMod
import MyMuduo.ServerCustody

/-! One loop per thread: where the connections of a server are put, and which thread
works on them from then on. -/

namespace MyMuduo

/-- The loop whose thread takes the step; users' steps are taken by any thread. -/
def ServerAction.thread : ServerAction → Option LoopId
  | .copy _ => none
  | .drop _ => none
  | .post _ _ => none
  | .test l => some l
  | .poll l _ => some l
  | .accept _ => some 0
  | .handleEvent l => some l
  | .code l _ => some l
  | .doPendingFunctors l => some l
  | .call l => some l
  | .finish l => some l
  | .work l _ => some l
  | .destroyServer => some 0
  | .destroyItem _ => some 0
  | .destroyMembers => some 0
  | .quitThread => some 0
  | .joinThread => some 0

namespace ServerSystem

/-- The connections that loop `i` has been given. -/
def load (s : ServerSystem) (i : LoopId) : Nat := s.map.created.count fun c => s.loopOf c = i

/-- What the thread of loop `l` may change. -/
structure OnLoop (s t : ServerSystem) (l : LoopId) : Prop where
  conns : ∀ c < s.map.created, t.conns c ≠ s.conns c → s.loopOf c = l
  poller : ∀ i, (t.loops i).poller ≠ (s.loops i).poller → i = l

theorem SameConns.onLoop {s t : ServerSystem} (h : s.SameConns t) (l : LoopId) : s.OnLoop t l :=
  ⟨fun c _ hn => absurd (congrFun h.conns_eq c) hn, fun i hn => absurd (h.poller_eq i) hn⟩

theorem Moved.onLoop {s t : ServerSystem} {c : ConnPtr} {w : LoopConn} (h : s.Moved t c w) : s.OnLoop t (s.loopOf c) := by
  refine ⟨fun d _ hn => ?_, fun i hn => ?_⟩
  · by_contra hd
    refine hn ?_
    rw [h.conns_eq, Function.update_of_ne]
    rintro rfl
    exact hd rfl
  · by_contra hi
    exact hn (h.poller_others i hi)

theorem exec_onLoop {s t : ServerSystem} {l : LoopId} {rest : List ServerWork} {v : ServerWork} (hi : s.CoreInv)
    (ht : (s.loops l).todo = v :: rest) (h : s.ExecStep l rest v t) : s.OnLoop t l := by
  have hv : s.Placed l v := (hi.loops l).placed v (by simp [ServerLoop.items, ht])
  cases h with
  | @connectEstablished c r w h =>
    have ho := (s.put_moved l (users r ++ rest) c w).onLoop
    rw [hv.1.2] at ho
    exact ⟨ho.conns, ho.poller⟩
  | @connectDestroyed c w h =>
    have ho := (s.put_moved l ([] ++ rest) c w).onLoop
    rw [hv.2] at ho
    exact ⟨ho.conns, ho.poller⟩
  | @handled c _ w new h =>
    rw [← (h.spec hi hv).loopOf_eq]
    exact (s.put_moved _ _ c w).onLoop
  | @removeConnectionInLoop c =>
    have hsame := (s.setTodo_same l ([] ++ rest)).push (s.loopOf c) (.connectDestroyed c)
    exact ⟨(hsame.onLoop l).conns, (hsame.onLoop l).poller⟩
  | closeCallbackHere => exact ((s.setTodo_same l _).late _).onLoop l
  | closeCallback => exact (((s.setTodo_same l _).push 0 _).late _).onLoop l
  | endNewConnection => exact ((s.setTodo_same l _).late _).onLoop l
  | done => exact (s.setTodo_same l _).onLoop l

theorem LoopStep.onLoop {s t : ServerSystem} {a : ServerAction} (h : s.LoopStep a t) (hi : s.CoreInv) :
    s.SameConns t ∨ (∃ l, a.thread = some l ∧ s.OnLoop t l) := by
  cases h with
  | turned hr hL => exact Or.inl (s.setLoop_same (hL.turned (hi.loops _)).poller_eq)
  | left => exact Or.inl (s.setLoop_same rfl)
  | @accepted fd active t hr ha hL ht hfd hacc =>
    have hsame : s.SameConns (s.setActive 0 active) := s.setLoop_same rfl
    refine Or.inr ⟨0, rfl, fun c hc hn => absurd (hacc.conns_others c (Nat.ne_of_lt hc)) hn, fun i hn => absurd ?_ hn⟩
    rw [hacc.poller_eq, hsame.poller_eq]
  | @dangled l c revents active hr ha hL hc =>
    have hsame : s.SameConns (s.setActive l active) := s.setLoop_same rfl
    exact Or.inr ⟨l, rfl, (hsame.onLoop l).conns, (hsame.onLoop l).poller⟩
  | @handled l c revents active guard hr ha hL hp ht hc hg =>
    have hsame : s.SameConns (s.setActive l active) := s.setLoop_same rfl
    have hlast := (s.setActive l active).setTodo_same l (handlers c revents ++ guard ++ [])
    refine Or.inr ⟨l, rfl, fun d hd hn => absurd rfl hn, fun i hn => absurd ?_ hn⟩
    rw [hlast.poller_eq, hsame.poller_eq]
  | code => exact Or.inl (s.setTodo_same _ _)
  | @worked l r v rest t hr ht hx => exact Or.inr ⟨l, rfl, exec_onLoop hi ht hx⟩

theorem TeardownStep.onLoop {s t : ServerSystem} {a : ServerAction} (h : s.TeardownStep a t) :
    a.thread = some 0 ∧ s.OnLoop t 0 := by
  cases h with
  | @destroyItemHere c w hs hc hm hl h =>
    have ho := (({ s with map := s.map.reset c } : ServerSystem).put_only 0 c w).2.onLoop
    rw [show ({ s with map := s.map.reset c } : ServerSystem).loopOf c = 0 from hl] at ho
    exact ⟨rfl, ho.conns, ho.poller⟩
  | @destroyItem c hs hc hm =>
    have ho := ((SameConns.refl s).push (s.loopOf c) (.connectDestroyed c)).onLoop 0
    exact ⟨rfl, ho.conns, ho.poller⟩
  | @quitThread i hs =>
    have ho := (s.setLoop_same (l := i) (L := { s.loops i with quit_ := true }) rfl).onLoop 0
    exact ⟨rfl, ho.conns, ho.poller⟩
  | _ => exact ⟨rfl, fun c _ hn => absurd rfl hn, fun i hn => absurd rfl hn⟩

/-- In every run, whatever `~TcpServer` does meanwhile, a connection and the poller it
is registered with are changed by the thread of its own loop only. -/
theorem confined {config : ServerConfig} {as : List ServerAction} {s s' : ServerSystem} {a : ServerAction}
    (hr : Run Step (start config) as s) (hs : s.Step a s') :
    (∀ c < s.map.created, s'.conns c ≠ s.conns c → a.thread = some (s.loopOf c)) ∧
      ∀ i, (s'.loops i).poller ≠ (s.loops i).poller → a.thread = some i := by
  have hi := (run_serverInv hr).toCoreInv
  obtain ⟨t, ht, rfl⟩ := step_cases hs
  have hmain : s.SameConns t ∨ ∃ l, a.thread = some l ∧ s.OnLoop t l := by
    rcases ht with ht | ht | ht
    · left
      cases ht with
      | copied => exact ⟨rfl, rfl, rfl, rfl, rfl, rfl, rfl, fun _ => rfl⟩
      | dropped => exact ⟨rfl, rfl, rfl, rfl, rfl, rfl, rfl, fun _ => rfl⟩
      | posted => exact (SameConns.refl s).push _ _
    · exact ht.onLoop hi
    · exact Or.inr ⟨0, ht.onLoop⟩
  rcases hmain with hsame | ⟨l, ha, ho⟩
  · exact ⟨fun c _ hn => absurd (congrFun hsame.conns_eq c) hn, fun i hn => absurd (hsame.poller_eq i) hn⟩
  · exact ⟨fun c hc hn => by rw [ho.conns c hc hn]; exact ha, fun i hn => by rw [ho.poller i hn]; exact ha⟩

theorem confined_established : ∃ s s', Run Step (start oneThread) (closedByPeer.take 9) s ∧
    s.Step (.work 1 quiet) s' ∧
    (∀ c < s.map.created, s'.conns c ≠ s.conns c → (ServerAction.work 1 quiet).thread = some (s.loopOf c)) ∧
      ∀ i, (s'.loops i).poller ≠ (s.loops i).poller → (ServerAction.work 1 quiet).thread = some i := by
  have htrial : ((execAll step (start oneThread) (closedByPeer.take 9)).any fun s =>
      (s.step (.work 1 quiet)).isSome) = true := by decide +kernel
  obtain ⟨s, hs, hq⟩ := (Option.any_eq_true _ _).mp htrial
  obtain ⟨s', hs'⟩ := Option.isSome_iff_exists.mp hq
  have hr : Run Step (start oneThread) (closedByPeer.take 9) s := run_of_execAll (fun _ _ _ h => h) hs
  exact ⟨s, s', hr, hs', confined hr hs'⟩

/-- In every run, whatever `~TcpServer` does meanwhile, each piece of work is on the
loop it belongs to. A connection waits for `connectEstablished` on its own loop, once and
before it is established; its events are reported and handled there, and only after
that; and what the base loop removes has closed. -/
theorem work_in_place {config : ServerConfig} {as : List ServerAction} {s : ServerSystem}
    (hr : Run Step (start config) as s) (l : LoopId) :
    (∀ w ∈ (s.loops l).items, s.Placed l w) ∧ ((s.loops l).items.filterMap ServerWork.establishes).Nodup ∧
      (∀ c revents, .channel c revents ∈ (s.loops l).active → s.Registered l c) ∧
      ∀ fd e, (s.loops l).poller.epollfd_ fd = some e → s.Registered l e.ptr := by
  have hi := (run_serverInv hr).loops l
  exact ⟨hi.placed, hi.once, hi.active, hi.watched⟩

theorem work_in_place_closed : ∃ s, Run Step (start oneThread) (closedByPeer.take 18) s ∧
    (s.loops 0).queue.pending.length = 1 ∧
    (∀ w ∈ (s.loops 0).items, s.Placed 0 w) ∧ ((s.loops 0).items.filterMap ServerWork.establishes).Nodup ∧
      (∀ c revents, .channel c revents ∈ (s.loops 0).active → s.Registered 0 c) ∧
      ∀ fd e, (s.loops 0).poller.epollfd_ fd = some e → s.Registered 0 e.ptr := by
  have htrial : ((execAll step (start oneThread) (closedByPeer.take 18)).any fun s =>
      decide ((s.loops 0).queue.pending.length = 1)) = true := by decide +kernel
  obtain ⟨s, hs, hq⟩ := (Option.any_eq_true _ _).mp htrial
  have hr : Run Step (start oneThread) (closedByPeer.take 18) s := run_of_execAll (fun _ _ _ h => h) hs
  exact ⟨s, hr, of_decide_eq_true hq, work_in_place hr 0⟩

/-- The pool's loops take turns: connections share a loop when their numbers agree
modulo the number of threads, and no loop has been given two more than another. -/
theorem evenly_spread {config : ServerConfig} {as : List ServerAction} {s : ServerSystem}
    (hr : Run Step (start config) as s) :
    (config.numThreads_ = 0 → ∀ c < s.map.created, s.loopOf c = 0) ∧
    (config.numThreads_ ≠ 0 →
      (∀ c < s.map.created, 0 < s.loopOf c ∧ s.loopOf c ≤ config.numThreads_) ∧
      (∀ c < s.map.created, ∀ d < s.map.created, s.loopOf c = s.loopOf d ↔ c ≡ d [MOD config.numThreads_]) ∧
      ∀ i j, 0 < i → i ≤ config.numThreads_ → 0 < j → j ≤ config.numThreads_ → s.load i ≤ s.load j + 1) := by
  rw [← run_config hr]
  have hi := (run_serverInv hr).toCoreInv
  refine ⟨fun h0 c hc => by rw [hi.loopOf_eq c hc, if_pos h0], fun hn => ?_⟩
  have hloop : ∀ c < s.map.created, s.loopOf c = c % s.config.numThreads_ + 1 := by
    intro c hc
    rw [hi.loopOf_eq c hc, if_neg hn]
  have hpos : 0 < s.config.numThreads_ := Nat.pos_of_ne_zero hn
  -- loop `i + 1` has the connections whose number leaves `i`
  have hload : ∀ i < s.config.numThreads_, s.load (i + 1) = s.map.created / s.config.numThreads_ +
      if i < s.map.created % s.config.numThreads_ then 1 else 0 := by
    intro i hlt
    have hcount := Nat.count_modEq_card s.map.created hpos i
    rw [Nat.mod_eq_of_lt hlt] at hcount
    rw [← hcount, load, Nat.count_eq_card_filter_range, Nat.count_eq_card_filter_range]
    refine congrArg _ (Finset.filter_congr fun c hc => ?_)
    rw [hloop c (Finset.mem_range.mp hc), Nat.ModEq, Nat.mod_eq_of_lt hlt]
    exact Nat.succ_inj
  refine ⟨fun c hc => ?_, fun c hc d hd => ?_, fun i j hi0 hin hj0 hjn => ?_⟩
  · rw [hloop c hc]
    exact ⟨Nat.succ_pos _, Nat.mod_lt _ hpos⟩
  · rw [hloop c hc, hloop d hd]
    exact Nat.succ_inj
  · obtain ⟨i, rfl⟩ := Nat.exists_eq_succ_of_ne_zero (Nat.pos_iff_ne_zero.mp hi0)
    obtain ⟨j, rfl⟩ := Nat.exists_eq_succ_of_ne_zero (Nat.pos_iff_ne_zero.mp hj0)
    rw [Nat.succ_eq_add_one, Nat.succ_eq_add_one, hload i hin, hload j hjn]
    split
    all_goals
      split
      all_goals omega

/-- Two threads. -/
def twoThreads : ServerConfig := ⟨"s".toList, ⟨fun _ => 1, 80⟩, 2, false, false, 0⟩

def threeAccepted : List ServerAction :=
  [5, 6, 7].flatMap fun fd =>
    [.test 0, .poll 0 [.acceptChannel], .accept (some fd), .doPendingFunctors 0, .finish 0]

theorem evenly_spread_three : ∃ s, Run Step (start twoThreads) threeAccepted s ∧ s.load 1 = 2 ∧ s.load 2 = 1 ∧
    (twoThreads.numThreads_ = 0 → ∀ c < s.map.created, s.loopOf c = 0) ∧
    (twoThreads.numThreads_ ≠ 0 →
      (∀ c < s.map.created, 0 < s.loopOf c ∧ s.loopOf c ≤ twoThreads.numThreads_) ∧
      (∀ c < s.map.created, ∀ d < s.map.created, s.loopOf c = s.loopOf d ↔ c ≡ d [MOD twoThreads.numThreads_]) ∧
      ∀ i j, 0 < i → i ≤ twoThreads.numThreads_ → 0 < j → j ≤ twoThreads.numThreads_ → s.load i ≤ s.load j + 1) := by
  have htrial : ((execAll step (start twoThreads) threeAccepted).any fun s =>
      decide (s.load 1 = 2) && decide (s.load 2 = 1)) = true := by decide +kernel
  obtain ⟨s, hs, hq⟩ := (Option.any_eq_true _ _).mp htrial
  simp only [Bool.and_eq_true, decide_eq_true_eq] at hq
  have hr : Run Step (start twoThreads) threeAccepted s := run_of_execAll (fun _ _ _ h => h) hs
  exact ⟨s, hr, hq.1, hq.2, evenly_spread hr⟩

end ServerSystem

end MyMuduo
