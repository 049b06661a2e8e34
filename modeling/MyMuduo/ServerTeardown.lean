import MyMuduo.ServerReferences

/-! `~TcpServer` among the steps of the loops: what must not be under way when it
starts, so that nothing of the server runs after it and each connection that was
established is taken down exactly once. -/

namespace MyMuduo

namespace ServerWork

/-- Work that runs a member function of the server, or goes on in one. -/
def usesServer : ServerWork → Bool
  | .removeConnectionInLoop _ => true
  | .closeCallback _ => true
  | .endNewConnection _ => true
  | _ => false

def destroys (c : ConnPtr) : ServerWork → Bool
  | .connectDestroyed d => d == c
  | _ => false

def callsBack (c : ConnPtr) : ServerWork → Bool
  | .closeCallback d => d == c
  | _ => false

def removes (c : ConnPtr) : ServerWork → Bool
  | .removeConnectionInLoop d => d == c
  | _ => false

def closes : ServerWork → Option ConnPtr
  | .close c => some c
  | _ => none

def takesDown : ServerWork → Option ConnPtr
  | .connectDestroyed c => some c
  | _ => none

/-- Work that leaves the count of what takes connections down. -/
def plain : ServerWork → Bool
  | .connectDestroyed _ => false
  | .closeCallback _ => false
  | .removeConnectionInLoop _ => false
  | _ => true

theorem destroys_eq {c : ConnPtr} {w : ServerWork} (h : w.destroys c = true) : w = .connectDestroyed c := by
  cases w with
  | connectDestroyed d => rw [eq_of_beq h]
  | _ => cases h

theorem callsBack_eq {c : ConnPtr} {w : ServerWork} (h : w.callsBack c = true) : w = .closeCallback c := by
  cases w with
  | closeCallback d => rw [eq_of_beq h]
  | _ => cases h

theorem removes_eq {c : ConnPtr} {w : ServerWork} (h : w.removes c = true) : w = .removeConnectionInLoop c := by
  cases w with
  | removeConnectionInLoop d => rw [eq_of_beq h]
  | _ => cases h

theorem countP_plain {ws : List ServerWork} (h : ∀ w ∈ ws, w.plain = true) (c : ConnPtr) :
    ws.countP (destroys c) = 0 ∧ ws.countP (callsBack c) = 0 ∧ ws.countP (removes c) = 0 := by
  refine ⟨List.countP_eq_zero.mpr fun w hw hd => ?_, List.countP_eq_zero.mpr fun w hw hd => ?_,
    List.countP_eq_zero.mpr fun w hw hd => ?_⟩
  · rw [destroys_eq hd] at hw
    cases h _ hw
  · rw [callsBack_eq hd] at hw
    cases h _ hw
  · rw [removes_eq hd] at hw
    cases h _ hw

end ServerWork

instance (m : ConnectionMap) : Decidable (m.NotReused .newConnection) :=
  decidable_of_iff (∀ c < m.created, c ∉ m.removed → ¬ c ≡ m.created [MOD 2 ^ 32])
    ⟨fun h c hc => h c hc.1 hc.2, fun h c hlt hr => h c ⟨hlt, hr⟩⟩

theorem ConnectionMap.Exact.contains_iff {m : ConnectionMap} (h : m.Exact) {c : ConnPtr} :
    m.contains c = true ↔ m.Live c := by
  rw [ConnectionMap.contains, beq_iff_eq, h.holds]
  simp

/-- The removal of a live connection takes out its own entry. -/
theorem ConnectionMap.Exact.remove {m : ConnectionMap} {name_ ipPort_ : List Char} (h : m.Exact)
    (hn : m.Numbered name_ ipPort_) (hp : ipPort_.length ≤ 21) {c : ConnPtr} (hc : m.Live c) :
    (m.removeConnectionInLoop c).Exact ∧ m.reset c = m.removeConnectionInLoop c ∧
      ∀ d, (m.removeConnectionInLoop c).contains d = (m.contains d && !d == c) := by
  have he : (m.removeConnectionInLoop c).Exact :=
    (removeConnectionInLoop_exact_iff hn hp h hc.1).mpr (Or.inl hc)
  refine ⟨he, ?_, fun d => ?_⟩
  · have hown : m.connections_ (m.names c) = some c := (h.holds _ c).mpr ⟨hc, rfl⟩
    simp [reset, removeConnectionInLoop, hown]
  · rw [Bool.eq_iff_iff, he.contains_iff, removeConnectionInLoop_live, ← h.contains_iff]
    simp

/-- The thread to be told to quit next. -/
def ServerStage.quits : ServerStage → Option LoopId
  | .quitting i => some i
  | _ => none

namespace ServerSystem

/-- What will take the connection down, or has: the server's entry, the functors
queued, and the calls made. -/
def tokens (s : ServerSystem) (c : ConnPtr) : Nat :=
  (s.map.contains c).toNat + (s.loops (s.loopOf c)).items.countP (ServerWork.destroys c) + (s.destroyedOn c).length

/-- The removals of the connection that are under way. -/
def closeCount (s : ServerSystem) (c : ConnPtr) : Nat :=
  (s.loops (s.loopOf c)).items.countP (ServerWork.callsBack c) + (s.loops 0).items.countP (ServerWork.removes c)

/-- Established, or about to be. -/
def Coming (s : ServerSystem) (c : ConnPtr) : Prop :=
  s.established c = true ∨ .connectEstablished c ∈ (s.loops (s.loopOf c)).items

/-- The loop will still run what is pending, or there is nothing to take down that
it would have established. -/
def Cleared (s : ServerSystem) (i : LoopId) : Prop :=
  (s.loops i).phase = .polling ∨ (s.loops i).phase = .dispatching ∨
    ∀ c, .connectDestroyed c ∈ (s.loops i).queue.pending → .connectEstablished c ∈ (s.loops i).queue.pending

/-- No part of the server is running or will be run from a loop. -/
def Alone (s : ServerSystem) : Prop :=
  (∀ l ≤ s.config.numThreads_, ∀ w ∈ (s.loops l).items, w.usesServer = false) ∧ .acceptChannel ∉ (s.loops 0).active

/-- The steps under which a server can be torn down: no name comes round again while
it is in use, `~TcpServer` starts when no part of the server is running or queued, no
connection closes from then on or twice, and a thread is told to quit only while its
loop will still run what is pending. -/
def Orderly (s : ServerSystem) : ServerAction → Prop
  | .accept _ => s.map.NotReused .newConnection
  | .destroyServer => s.Alone
  | .quitThread => ∀ i ∈ s.stage.quits, s.Cleared i
  | .work l _ => ∀ v ∈ (s.loops l).todo.head?, ∀ c ∈ v.closes,
      s.stage = .alive ∧ (s.conns c).state_ ≠ .kDisconnected
  | _ => True

instance (s : ServerSystem) : Decidable s.Alone := inferInstanceAs (Decidable (_ ∧ _))

instance (s : ServerSystem) (i : LoopId) : Decidable (s.Cleared i) :=
  decidable_of_iff ((s.loops i).phase = .polling ∨ (s.loops i).phase = .dispatching ∨
    ∀ v ∈ (s.loops i).queue.pending, ∀ c ∈ v.takesDown, ∃ w ∈ (s.loops i).queue.pending, w.establishes = some c) <| by
    refine or_congr_right (or_congr_right ⟨fun h c hc => ?_, fun h v hv c hc => ?_⟩)
    · obtain ⟨w, hw, he⟩ := h _ hc c rfl
      cases w with
      | connectEstablished d =>
        cases he
        exact hw
      | _ => cases he
    · cases v with
      | connectDestroyed d =>
        cases hc
        exact ⟨_, h c hv, rfl⟩
      | _ => cases hc

instance (s : ServerSystem) (a : ServerAction) : Decidable (s.Orderly a) := by
  unfold Orderly
  split
  all_goals infer_instance

structure TeardownInv (s : ServerSystem) : Prop where
  exact : s.map.Exact
  tokens_le : ∀ c < s.map.created, s.tokens c ≤ 1
  tokens_eq : ∀ c < s.map.created, s.Coming c → s.tokens c = 1
  closes_le : ∀ c < s.map.created, s.closeCount c ≤ 1
  closes_live : ∀ c < s.map.created, s.closeCount c ≠ 0 → s.map.Live c
  shut : s.stage = .alive → ∀ c < s.map.created, ¬ s.map.Live c → s.Shut c
  alone : s.stage ≠ .alive → s.Alone
  cleared : ∀ i, (s.loops i).quit_ = true → s.stage ≠ .alive ∧ s.stage ≠ .destroying ∧ s.Cleared i
  lateUses : s.lateUses = []

theorem Flow.countP_eq {s t : ServerSystem} {l : LoopId} {g front kept : List ServerWork}
    {back : LoopId → List ServerWork} (h : s.Flow t l g front kept back) (p : ServerWork → Bool) (i : LoopId) :
    (t.loops i).items.countP p + (if i = l then g.countP p else 0) =
      (s.loops i).items.countP p + (if i = l then front.countP p else 0) + (back i).countP p := by
  by_cases hi : i = l
  · subst hi
    rw [if_pos rfl, if_pos rfl, h.before, h.after]
    simp only [List.countP_append]
    omega
  · rw [if_neg hi, if_neg hi, h.others i hi, List.countP_append]
    omega

/-- What the loops go on with takes nothing down. -/
structure PlainFlow (s t : ServerSystem) (l : LoopId) (g front rest : List ServerWork)
    (back : LoopId → List ServerWork) : Prop where
  advance : s.Advance t l front rest back
  todo_eq : (s.loops l).todo = g ++ rest
  gone : ∀ w ∈ g, w.plain = true
  front : ∀ w ∈ front, w.plain = true ∧ w.usesServer = false ∧ w.establishes = none
  back : ∀ i, ∀ w ∈ back i, w.plain = true ∧ w.usesServer = false ∧ w.establishes = none

theorem Flow.countP_same {s t : ServerSystem} {l : LoopId} {g front kept : List ServerWork}
    {back : LoopId → List ServerWork} (h : s.Flow t l g front kept back) {p : ServerWork → Bool}
    (hg : g.countP p = 0) (hf : front.countP p = 0) (hb : ∀ i, (back i).countP p = 0) (i : LoopId) :
    (t.loops i).items.countP p = (s.loops i).items.countP p := by
  have he := h.countP_eq p i
  rw [hg, hf, hb] at he
  simpa using he

theorem PlainFlow.counts {s t : ServerSystem} {l : LoopId} {g front rest : List ServerWork}
    {back : LoopId → List ServerWork} (h : s.PlainFlow t l g front rest back) (hl : t.loopOf = s.loopOf)
    (hm : t.map = s.map) (hd : t.destroyedOn = s.destroyedOn) (c : ConnPtr) :
    t.tokens c = s.tokens c ∧ t.closeCount c = s.closeCount c := by
  have hf := h.advance.flow h.todo_eq
  obtain ⟨hg1, hg2, hg3⟩ := ServerWork.countP_plain h.gone c
  obtain ⟨hf1, hf2, hf3⟩ := ServerWork.countP_plain (fun w hw => (h.front w hw).1) c
  have hb := fun i => ServerWork.countP_plain (fun w hw => (h.back i w hw).1) c
  rw [tokens, closeCount, hl, hm, hd, hf.countP_same hg1 hf1 fun i => (hb i).1,
    hf.countP_same hg2 hf2 fun i => (hb i).2.1, hf.countP_same hg3 hf3 fun i => (hb i).2.2]
  exact ⟨rfl, rfl⟩

theorem Cleared.advance {s t : ServerSystem} {l i : LoopId} {front rest : List ServerWork}
    {back : LoopId → List ServerWork} (h : s.Cleared i) (ha : s.Advance t l front rest back)
    (hb : ∀ c, .connectDestroyed c ∉ back i) : t.Cleared i := by
  rw [Cleared, ha.phase_eq, ha.pending_eq]
  refine h.imp_right (Or.imp_right fun h c hc => ?_)
  rcases List.mem_append.mp hc with hc | hc
  · exact List.mem_append_left _ (h c hc)
  · exact absurd hc (hb c)

theorem Alone.flow {s t : ServerSystem} {l : LoopId} {g front kept : List ServerWork}
    {back : LoopId → List ServerWork} (h : s.Alone) (hf : s.Flow t l g front kept back) (hc : t.config = s.config)
    (hact : (t.loops 0).active = (s.loops 0).active) (hfront : ∀ w ∈ front, w.usesServer = false)
    (hback : ∀ i, ∀ w ∈ back i, w.usesServer = false) : t.Alone := by
  refine ⟨fun i hi w hw => ?_, by rw [hact]; exact h.2⟩
  rw [hc] at hi
  rcases hf.mem hw with ⟨hw, -⟩ | ⟨-, hw⟩ | hw
  · exact h.1 i hi w hw
  · exact hfront w hw
  · exact hback i w hw

theorem coming_of_flow {s t : ServerSystem} {l : LoopId} {g front kept : List ServerWork}
    {back : LoopId → List ServerWork} (hf : s.Flow t l g front kept back) (hl : t.loopOf = s.loopOf)
    (hfront : ∀ w ∈ front, w.establishes = none) (hback : ∀ i, ∀ w ∈ back i, w.establishes = none) {c : ConnPtr}
    (hest : t.established c = true → s.Coming c) (h : t.Coming c) : s.Coming c := by
  rcases h with h | h
  · exact hest h
  · rw [hl] at h
    rcases hf.mem h with ⟨h, -⟩ | ⟨-, h⟩ | h
    · exact Or.inr h
    · cases hfront _ h
    · cases hback _ _ h

/-- No token has been made or lost, and nothing is under way that was not. -/
theorem TeardownInv.next {s t : ServerSystem} (h : s.TeardownInv) (hm : t.map.created = s.map.created)
    (he : t.map.Exact) (htokens : ∀ c < s.map.created, t.tokens c = s.tokens c)
    (hcoming : ∀ c, t.Coming c → s.Coming c)
    (hcloses : ∀ c < s.map.created, t.closeCount c ≤ 1 ∧ (t.closeCount c ≠ 0 → t.map.Live c))
    (hshut : t.stage = .alive → ∀ c < s.map.created, ¬ t.map.Live c → t.Shut c)
    (halone : t.stage ≠ .alive → t.Alone)
    (hcleared : ∀ i, (t.loops i).quit_ = true → t.stage ≠ .alive ∧ t.stage ≠ .destroying ∧ t.Cleared i)
    (hlate : t.lateUses = []) : t.TeardownInv := by
  refine ⟨he, fun c hc => ?_, fun c hc hco => ?_, fun c hc => ?_, fun c hc => ?_, fun hs c hc => ?_, halone, hcleared,
    hlate⟩
  all_goals rw [hm] at hc
  · rw [htokens c hc]
    exact h.tokens_le c hc
  · rw [htokens c hc]
    exact h.tokens_eq c hc (hcoming c hco)
  · exact (hcloses c hc).1
  · exact (hcloses c hc).2
  · exact hshut hs c hc

/-- Work that takes nothing down leaves the server as ready to be torn down as it was. -/
theorem TeardownInv.plain {s t : ServerSystem} {l : LoopId} {g front rest : List ServerWork}
    {back : LoopId → List ServerWork} (h : s.TeardownInv) (hp : s.PlainFlow t l g front rest back)
    (hlater : s.Later t) (hconf : t.config = s.config) (hl : t.loopOf = s.loopOf) (hm : t.map = s.map)
    (hd : t.destroyedOn = s.destroyedOn) (hst : t.stage = s.stage) (hlate : t.lateUses = s.lateUses)
    (hest : ∀ c, t.established c = true → s.Coming c) : t.TeardownInv := by
  have hf := hp.advance.flow hp.todo_eq
  refine h.next (by rw [hm]) (by rw [hm]; exact h.exact) (fun c _ => (hp.counts hl hm hd c).1)
    (fun c => coming_of_flow hf hl (fun w hw => (hp.front w hw).2.2) (fun i w hw => (hp.back i w hw).2.2) (hest c))
    (fun c hc => ?_) (fun hs c hc hn => ?_) (fun hs => ?_) (fun i hi => ?_) (hlate.trans h.lateUses)
  · rw [(hp.counts hl hm hd c).2, hm]
    exact ⟨h.closes_le c hc, h.closes_live c hc⟩
  · rw [hst] at hs
    rw [hm] at hn
    exact (h.shut hs c hc hn).later hlater
  · rw [hst] at hs
    exact (h.alone hs).flow hf hconf (hp.advance.active_eq 0) (fun w hw => (hp.front w hw).2.1)
      fun i w hw => (hp.back i w hw).2.1
  · rw [hp.advance.quit_eq] at hi
    obtain ⟨h1, h2, h3⟩ := h.cleared i hi
    rw [hst]
    refine ⟨h1, h2, h3.advance hp.advance fun c hc => ?_⟩
    cases (hp.back i _ hc).1

theorem TeardownInv.alive_of_usesServer {s : ServerSystem} (h : s.TeardownInv) {l : LoopId} {w : ServerWork}
    (hl : l ≤ s.config.numThreads_) (hw : w ∈ (s.loops l).items) (hu : w.usesServer = true) : s.stage = .alive := by
  by_contra hs
  rw [(h.alone hs).1 l hl w hw] at hu
  cases hu

theorem TeardownInv.quit_eq {s : ServerSystem} (h : s.TeardownInv) (hs : s.stage = .alive ∨ s.stage = .destroying)
    (i : LoopId) : (s.loops i).quit_ = false := by
  by_contra hq
  obtain ⟨h1, h2, -⟩ := h.cleared i (by simpa using hq)
  exact hs.elim h1 h2

theorem Alone.closeCount_eq {s : ServerSystem} (h : s.Alone) {c : ConnPtr} (hc : s.loopOf c ≤ s.config.numThreads_) :
    s.closeCount c = 0 := by
  rw [closeCount, Nat.add_eq_zero_iff, List.countP_eq_zero, List.countP_eq_zero]
  refine ⟨fun w hw hd => ?_, fun w hw hd => ?_⟩
  · have hu := h.1 _ hc w hw
    rw [ServerWork.callsBack_eq hd] at hu
    cases hu
  · have hu := h.1 _ (Nat.zero_le _) w hw
    rw [ServerWork.removes_eq hd] at hu
    cases hu

theorem shut_of_closeCount {s : ServerSystem} (hi : s.CoreInv) {c : ConnPtr} (h : s.closeCount c ≠ 0) : s.Shut c := by
  by_contra hn
  refine h (Nat.add_eq_zero_iff.mpr ⟨List.countP_eq_zero.mpr fun w hw hc => ?_,
    List.countP_eq_zero.mpr fun w hw hc => ?_⟩)
  · rw [ServerWork.callsBack_eq hc] at hw
    exact hn ((hi.loops _).placed _ hw).2
  · rw [ServerWork.removes_eq hc] at hw
    exact hn ((hi.loops _).placed _ hw).2

theorem users_plain {r : Reaction} {w : ServerWork} (h : w ∈ users r) :
    w.plain = true ∧ w.usesServer = false ∧ w.establishes = none := by
  obtain ⟨c, call, rfl⟩ := mem_users h
  exact ⟨rfl, rfl, rfl⟩

theorem noted_plain {s : ServerSystem} {c : ConnPtr} {w : LoopConn} (i : LoopId) :
    ∀ v ∈ s.noted c w i, v.plain = true ∧ v.usesServer = false ∧ v.establishes = none := by
  intro v hv
  rw [mem_noted hv]
  exact ⟨rfl, rfl, rfl⟩

theorem nothing_plain (i : LoopId) :
    ∀ v ∈ nothing i, v.plain = true ∧ v.usesServer = false ∧ v.establishes = none := by
  simp [nothing]

theorem Flow.closeCount_eq {s t : ServerSystem} {l : LoopId} {g front kept : List ServerWork}
    {back : LoopId → List ServerWork} (h : s.Flow t l g front kept back) (c : ConnPtr)
    (hl : t.loopOf c = s.loopOf c) : t.closeCount c + ((if s.loopOf c = l then g.countP (ServerWork.callsBack c) else 0) +
        if 0 = l then g.countP (ServerWork.removes c) else 0) =
      s.closeCount c + ((if s.loopOf c = l then front.countP (ServerWork.callsBack c) else 0) +
        if 0 = l then front.countP (ServerWork.removes c) else 0) +
        ((back (s.loopOf c)).countP (ServerWork.callsBack c) + (back 0).countP (ServerWork.removes c)) := by
  have h1 := h.countP_eq (ServerWork.callsBack c) (s.loopOf c)
  have h2 := h.countP_eq (ServerWork.removes c) 0
  simp only [closeCount, hl]
  omega

theorem Flow.tokens_eq {s t : ServerSystem} {l : LoopId} {g front kept : List ServerWork}
    {back : LoopId → List ServerWork} (h : s.Flow t l g front kept back) (c : ConnPtr)
    (hl : t.loopOf c = s.loopOf c) : t.tokens c + ((if s.loopOf c = l then g.countP (ServerWork.destroys c) else 0) +
        ((s.map.contains c).toNat + (s.destroyedOn c).length)) =
      s.tokens c + ((if s.loopOf c = l then front.countP (ServerWork.destroys c) else 0) +
        (back (s.loopOf c)).countP (ServerWork.destroys c) + ((t.map.contains c).toNat + (t.destroyedOn c).length)) := by
  have hn := h.countP_eq (ServerWork.destroys c) (s.loopOf c)
  simp only [tokens, hl]
  omega

theorem TeardownInv.close {s : ServerSystem} {l : LoopId} {c : ConnPtr} {r : Reaction} {rest : List ServerWork}
    {w : LoopConn} (h : s.TeardownInv) (hi : s.CoreInv) (ht : (s.loops l).todo = .close c :: rest)
    (hs : s.stage = .alive) (hc : (s.conns c).state_ ≠ .kDisconnected)
    (hw : s.Handled l c w) : ((s.put c w).setTodo l (users r ++ [.closeCallback c] ++ rest)).TeardownInv := by
  have hp := hw.proceeds (users r ++ [.closeCallback c]) rest
  have hf := hp.advance.flow (g := [.close c]) ht
  have husers := fun d => ServerWork.countP_plain (fun v hv => (users_plain (r := r) hv).1) d
  have hnoted := fun i d => ServerWork.countP_plain (fun v hv => (noted_plain (s := s) (c := c) (w := w) i v hv).1) d
  have hshut : ∀ d, s.Shut d → d ≠ c := fun d hd hdc => hc (hdc ▸ hd.state_eq)
  have hnone : s.closeCount c = 0 := by
    by_contra hn
    exact hshut c (shut_of_closeCount hi hn) rfl
  have hlive : s.map.Live c := by
    by_contra hn
    exact hshut c (h.shut hs c hw.lt hn) rfl
  have hcloses : ∀ d, ((s.put c w).setTodo l (users r ++ [.closeCallback c] ++ rest)).closeCount d =
      s.closeCount d + if d = c then 1 else 0 := by
    intro d
    have he := hf.closeCount_eq d rfl
    simp only [List.countP_append, (husers d).2.1, (husers d).2.2, (hnoted _ d).2.1, (hnoted _ d).2.2,
      List.countP_singleton, ServerWork.callsBack, ServerWork.removes] at he
    by_cases hdc : d = c
    · subst hdc
      simpa [hw.loopOf_eq] using he
    · simpa [hdc, Ne.symm hdc] using he
  refine h.next rfl h.exact (fun d _ => ?_) (fun d => coming_of_flow hf rfl (fun v hv => ?_)
    (fun i v hv => (noted_plain i v hv).2.2) Or.inl) (fun d hd => ?_) (fun _ d hd hn => (h.shut hs d hd hn).later hp.later)
    (fun hn => absurd hs hn) (fun i hq => ?_) h.lateUses
  · have he := hf.countP_same (p := ServerWork.destroys d) (by simp [ServerWork.destroys])
      (by simp [(husers d).1, ServerWork.destroys]) (fun i => (hnoted i d).1) (s.loopOf d)
    exact congrArg (fun n => (s.map.contains d).toNat + n + (s.destroyedOn d).length) he
  · rcases List.mem_append.mp hv with hv | hv
    · exact (users_plain hv).2.2
    · rw [List.mem_singleton.mp hv]
      rfl
  · rw [hcloses]
    by_cases hdc : d = c
    · subst hdc
      rw [hnone, if_pos rfl]
      exact ⟨Nat.le_refl 1, fun _ => hlive⟩
    · rw [if_neg hdc]
      exact ⟨h.closes_le d hd, h.closes_live d hd⟩
  · rw [hp.advance.quit_eq, h.quit_eq (Or.inl hs)] at hq
    cases hq

theorem countP_pushed (l i : LoopId) (w : ServerWork) (p : ServerWork → Bool) :
    (pushed l w i).countP p = if i = l then (p w).toNat else 0 := by
  by_cases hi : i = l
  · subst hi
    cases hp : p w with
    | true => simp [pushed, hp]
    | false => simp [pushed, hp]
  · simp [pushed, hi]

theorem TeardownInv.removeConnectionInLoop {s : ServerSystem} {l : LoopId} {c : ConnPtr} {rest : List ServerWork}
    (h : s.TeardownInv) (hi : s.CoreInv) (hle : l ≤ s.config.numThreads_)
    (ht : (s.loops l).todo = .removeConnectionInLoop c :: rest) : ((s.setTodo l ([] ++ rest)).removeConnectionInLoop c).TeardownInv := by
  have hmem : ServerWork.removeConnectionInLoop c ∈ (s.loops l).items := by simp [ServerLoop.items, ht]
  have hs := h.alive_of_usesServer hle hmem rfl
  obtain ⟨rfl, hshut⟩ := (hi.loops l).placed _ hmem
  have ha := (s.push_advance 0 (s.loopOf c) [] rest (.connectDestroyed c)).of_loops
    (u := (s.setTodo 0 ([] ++ rest)).removeConnectionInLoop c) rfl rfl
  have hf := ha.flow (g := [.removeConnectionInLoop c]) ht
  have hlater : s.Later ((s.setTodo 0 ([] ++ rest)).removeConnectionInLoop c) :=
    ⟨Nat.le_refl _, fun _ _ => rfl, fun _ => id, fun _ _ _ => id⟩
  have hcloses : ∀ d, ((s.setTodo 0 ([] ++ rest)).removeConnectionInLoop c).closeCount d + (if d = c then 1 else 0) =
      s.closeCount d := by
    intro d
    have he := hf.closeCount_eq d rfl
    simp only [countP_pushed, List.countP_singleton, ServerWork.callsBack, ServerWork.removes] at he
    by_cases hdc : d = c
    · subst hdc
      simpa using he
    · simpa [hdc, Ne.symm hdc] using he
  have hlive : s.map.Live c := by
    refine h.closes_live c hshut.lt ?_
    have hc := hcloses c
    rw [if_pos rfl] at hc
    omega
  obtain ⟨he, -, hcontains⟩ := h.exact.remove hi.numbered (InetAddress.toIpPort_length _) hlive
  refine h.next rfl he (fun d _ => ?_) (fun d => coming_of_flow hf rfl (by simp) (fun i v hv => ?_) Or.inl)
    (fun d hd => ?_) (fun _ d hd hn => ?_) (fun hn => absurd hs hn) (fun i hq => ?_) ?_
  · have hn := hf.tokens_eq d rfl
    have hc : ((s.setTodo 0 ([] ++ rest)).removeConnectionInLoop c).map.contains d = (s.map.contains d && !d == c) :=
      hcontains d
    have hd : ((s.setTodo 0 ([] ++ rest)).removeConnectionInLoop c).destroyedOn d = s.destroyedOn d := rfl
    rw [countP_pushed, hc, hd] at hn
    by_cases hdc : d = c
    · subst hdc
      rw [h.exact.contains_iff.mpr hlive] at hn
      simpa [ServerWork.destroys, Nat.add_comm] using hn
    · simpa [ServerWork.destroys, beq_false_of_ne hdc, beq_false_of_ne (Ne.symm hdc)] using hn
  · obtain ⟨-, rfl⟩ := mem_pushed.mp hv
    rfl
  · have hc := hcloses d
    have hle := h.closes_le d hd
    refine ⟨by omega, fun hn => ?_⟩
    have hdc : d ≠ c := by
      rintro rfl
      rw [if_pos rfl] at hc
      omega
    exact (ConnectionMap.removeConnectionInLoop_live c d).mpr ⟨h.closes_live d hd (by omega), hdc⟩
  · by_cases hdc : d = c
    · rw [hdc]
      exact hshut.later hlater
    · exact (h.shut hs d hd fun hl => hn ((ConnectionMap.removeConnectionInLoop_live c d).mpr ⟨hl, hdc⟩)).later hlater
  · rw [ha.quit_eq, h.quit_eq (Or.inl hs)] at hq
    cases hq
  · exact (if_neg (by simp [setTodo, setLoop, hs])).trans h.lateUses

theorem Cleared.noted {s t : ServerSystem} {l i : LoopId} {front rest : List ServerWork} {c : ConnPtr} {w : LoopConn}
    (h : s.Cleared i) (ha : s.Advance t l front rest (s.noted c w)) : t.Cleared i :=
  h.advance ha fun _ hd => by cases mem_noted hd

theorem TeardownInv.connectDestroyed {s t : ServerSystem} {l : LoopId} {c : ConnPtr} {rest : List ServerWork}
    {w : LoopConn} (h : s.TeardownInv) (ht : (s.loops l).todo = .connectDestroyed c :: rest)
    (hloop : s.loopOf c = l) (hp : s.Proceeds t l c w [] rest) (hm : t.map = s.map) (hst : t.stage = s.stage)
    (hd : t.destroyedOn = Function.update s.destroyedOn c (s.destroyedOn c ++ [l]))
    (hest : t.established = s.established) (hlate : t.lateUses = s.lateUses) : t.TeardownInv := by
  have hl := hp.moved.loopOf_eq
  have hf := hp.advance.flow (g := [.connectDestroyed c]) ht
  have hnoted := fun i d => ServerWork.countP_plain (fun v hv => (noted_plain (s := s) (c := c) (w := w) i v hv).1) d
  refine h.next (by rw [hm]) (by rw [hm]; exact h.exact) (fun d _ => ?_) (fun d => coming_of_flow hf hl (by simp)
    (fun i v hv => (noted_plain i v hv).2.2) fun he => Or.inl (by rwa [← hest])) (fun d hd => ?_)
    (fun hs d hd hn => ?_) (fun hs => ?_) (fun i hq => ?_) (hlate.trans h.lateUses)
  · have hn := hf.tokens_eq d (congrFun hl d)
    rw [(hnoted _ d).1, hm, hd] at hn
    by_cases hdc : d = c
    · subst hdc
      simp [hloop, ServerWork.destroys] at hn
      omega
    · simpa [ServerWork.destroys, Function.update_of_ne hdc, beq_false_of_ne (Ne.symm hdc)] using hn
  · have hcloses := hf.closeCount_eq d (congrFun hl d)
    rw [(hnoted _ d).2.1, (hnoted _ d).2.2] at hcloses
    simp [ServerWork.callsBack, ServerWork.removes] at hcloses
    rw [hcloses, hm]
    exact ⟨h.closes_le d hd, h.closes_live d hd⟩
  · rw [hst] at hs
    rw [hm] at hn
    exact (h.shut hs d hd hn).later hp.later
  · rw [hst] at hs
    exact (h.alone hs).flow hf hp.moved.config_eq (hp.advance.active_eq 0) (by simp) fun i v hv => (noted_plain i v hv).2.1
  · rw [hp.advance.quit_eq] at hq
    rw [hst]
    exact ⟨(h.cleared i hq).1, (h.cleared i hq).2.1, (h.cleared i hq).2.2.noted hp.advance⟩

theorem TeardownInv.closeCallback {s t : ServerSystem} {l : LoopId} {c : ConnPtr} {front rest : List ServerWork}
    {back : LoopId → List ServerWork} (h : s.TeardownInv) (hi : s.CoreInv) (hle : l ≤ s.config.numThreads_)
    (ht : (s.loops l).todo = .closeCallback c :: rest) (ha : s.Advance t l front rest back)
    (hnew : l = 0 ∧ front = [.removeConnectionInLoop c] ∧ back = nothing ∨
      front = [] ∧ back = pushed 0 (.removeConnectionInLoop c)) (hlater : s.Later t) (hl : t.loopOf = s.loopOf)
    (hm : t.map = s.map) (hd : t.destroyedOn = s.destroyedOn) (hst : t.stage = s.stage)
    (hest : t.established = s.established) (hlate : t.lateUses = s.late .removeConnection) : t.TeardownInv := by
  have hmem : ServerWork.closeCallback c ∈ (s.loops l).items := by simp [ServerLoop.items, ht]
  have hs := h.alive_of_usesServer hle hmem rfl
  have hloop := ((hi.loops l).placed _ hmem).1.loopOf_eq
  have hf := ha.flow (g := [.closeCallback c]) ht
  have hcloses : ∀ d, t.closeCount d = s.closeCount d := by
    intro d
    have he := hf.closeCount_eq d (congrFun hl d)
    rcases hnew with ⟨rfl, rfl, rfl⟩ | ⟨rfl, rfl⟩
    · by_cases hdc : d = c
      · subst hdc
        simpa [ServerWork.callsBack, ServerWork.removes, nothing, hloop] using he
      · simpa [ServerWork.callsBack, ServerWork.removes, nothing, beq_false_of_ne (Ne.symm hdc)] using he
    · rw [countP_pushed, countP_pushed] at he
      by_cases hdc : d = c
      · subst hdc
        simpa [ServerWork.callsBack, ServerWork.removes, hloop] using he
      · simpa [ServerWork.callsBack, ServerWork.removes, beq_false_of_ne (Ne.symm hdc)] using he
  refine h.next (by rw [hm]) (by rw [hm]; exact h.exact) (fun d _ => ?_) (fun d => coming_of_flow hf hl (fun v hv => ?_)
    (fun i v hv => ?_) fun hd => Or.inl (by rwa [← hest])) (fun d hd => ?_) (fun _ d hd hn => ?_)
    (fun hn => absurd (hst.trans hs) hn) (fun i hq => ?_) ?_
  · have hn := hf.tokens_eq d (congrFun hl d)
    rw [hm, hd] at hn
    rcases hnew with ⟨-, rfl, rfl⟩ | ⟨rfl, rfl⟩
    · simpa [ServerWork.destroys, nothing] using hn
    · simpa [ServerWork.destroys, countP_pushed] using hn
  · rcases hnew with ⟨-, rfl, -⟩ | ⟨rfl, -⟩
    · rw [List.mem_singleton.mp hv]
      rfl
    · cases hv
  · rcases hnew with ⟨-, -, rfl⟩ | ⟨-, rfl⟩
    · cases hv
    · obtain ⟨-, rfl⟩ := mem_pushed.mp hv
      rfl
  · rw [hcloses, hm]
    exact ⟨h.closes_le d hd, h.closes_live d hd⟩
  · rw [hm] at hn
    exact (h.shut hs d hd hn).later hlater
  · rw [ha.quit_eq, h.quit_eq (Or.inl hs)] at hq
    cases hq
  · rw [hlate, late, if_neg (by simp [hs])]
    exact h.lateUses

theorem HandlerStep.plain {s : ServerSystem} {l : LoopId} {c : ConnPtr} {v : ServerWork} {w : LoopConn}
    {new : List ServerWork} (h : s.HandlerStep l c v w new) (hv : v ≠ .close c) : v.plain = true ∧
      ∀ u ∈ new, u.plain = true ∧ u.usesServer = false ∧ u.establishes = none := by
  cases h with
  | close hd => exact absurd rfl hv
  | message => exact ⟨rfl, fun u hu => users_plain hu⟩
  | endOfStream => exact ⟨rfl, by simp [ServerWork.plain, ServerWork.usesServer, ServerWork.establishes]⟩
  | _ => exact ⟨rfl, by simp⟩

theorem TeardownInv.handled {s : ServerSystem} {l : LoopId} {c : ConnPtr} {rest new : List ServerWork}
    {v : ServerWork} {w : LoopConn} (h : s.TeardownInv) (hi : s.CoreInv) (ht : (s.loops l).todo = v :: rest)
    (hg : ∀ c ∈ v.closes, s.stage = .alive ∧ (s.conns c).state_ ≠ .kDisconnected)
    (hx : s.HandlerStep l c v w new) : ((s.put c w).setTodo l (new ++ rest)).TeardownInv := by
  have hw := hx.spec hi ((hi.loops l).placed v (by simp [ServerLoop.items, ht]))
  by_cases hv : v = .close c
  · subst hv
    cases hx with
    | close hd => exact h.close hi ht (hg c rfl).1 (hg c rfl).2 hw
  · obtain ⟨hplain, hnew⟩ := hx.plain hv
    have hp := hw.proceeds new rest
    exact h.plain (g := [v]) ⟨hp.advance, ht, by simpa using hplain, hnew, noted_plain⟩ hp.later rfl rfl rfl rfl rfl
      rfl fun d => Or.inl

/-- The work of a loop, when it is no `handleClose` but that of an open connection of
a living server. -/
theorem TeardownInv.exec {s t : ServerSystem} {l : LoopId} {rest : List ServerWork} {v : ServerWork}
    (h : s.TeardownInv) (hi : s.CoreInv) (hle : l ≤ s.config.numThreads_) (ht : (s.loops l).todo = v :: rest)
    (hg : ∀ c ∈ v.closes, s.stage = .alive ∧ (s.conns c).state_ ≠ .kDisconnected)
    (hx : s.ExecStep l rest v t) : t.TeardownInv := by
  have hmem : v ∈ (s.loops l).items := by simp [ServerLoop.items, ht]
  have hv : s.Placed l v := (hi.loops l).placed v hmem
  cases hx with
  | @connectEstablished c r w hx =>
    have hp := connectEstablished_proceeds r rest hv hx
    refine h.plain (g := [.connectEstablished c]) ⟨hp.advance, ht, by simp [ServerWork.plain], fun u hu => users_plain hu,
      noted_plain⟩ hp.later rfl rfl rfl rfl rfl rfl fun d hd => ?_
    rcases update_true.mp hd with hd | rfl
    · exact Or.inl hd
    · exact Or.inr (by rw [hv.1.2]; exact hmem)
  | @connectDestroyed c w hx =>
    exact h.connectDestroyed ht hv.2 (connectDestroyed_proceeds hv.1 hx
      ((s.put_moved l ([] ++ rest) c w).of_eq rfl rfl rfl rfl rfl rfl) rfl
      ((s.put_advance l [] rest c w).of_loops rfl rfl)) rfl rfl rfl rfl rfl
  | handled hx => exact h.handled hi ht hg hx
  | removeConnectionInLoop => exact h.removeConnectionInLoop hi hle ht
  | @closeCallbackHere c hl =>
    have hsame := (s.setTodo_same l ([.removeConnectionInLoop c] ++ rest)).late (s.late .removeConnection)
    exact h.closeCallback hi hle ht ((s.setTodo_advance l [.removeConnectionInLoop c] rest).of_loops rfl rfl)
      (Or.inl ⟨hl, rfl, rfl⟩) hsame.later rfl rfl rfl rfl rfl rfl
  | @closeCallback c hl =>
    have hsame := ((s.setTodo_same l ([] ++ rest)).push 0 (.removeConnectionInLoop c)).late (s.late .removeConnection)
    exact h.closeCallback hi hle ht ((s.push_advance l 0 [] rest (.removeConnectionInLoop c)).of_loops rfl rfl)
      (Or.inr ⟨rfl, rfl⟩) hsame.later rfl rfl rfl rfl rfl rfl
  | @endNewConnection c =>
    have hs := h.alive_of_usesServer hle hmem rfl
    have hsame := (s.setTodo_same l ([] ++ rest)).late (s.late .newConnection)
    have ha := (s.setTodo_advance l [] rest).of_loops (r := s)
      (u := { s.setTodo l ([] ++ rest) with lateUses := s.late .newConnection }) rfl rfl
    exact h.plain (g := [.endNewConnection c]) ⟨ha, ht, by simp [ServerWork.plain], by simp, nothing_plain⟩ hsame.later rfl rfl rfl rfl rfl
      (if_neg (by simp [hs])) fun d => Or.inl
  | @done _ r hx =>
    refine h.plain (g := [v]) ⟨s.setTodo_advance l (users r) rest, ht, fun u hu => ?_, fun u hu => users_plain hu,
      nothing_plain⟩ (s.setTodo_same l _).later rfl rfl rfl rfl rfl rfl fun d => Or.inl
    rw [List.mem_singleton.mp hu]
    rcases hx with ⟨bound, rfl⟩ | ⟨d, rfl⟩
    · rfl
    · rfl

theorem setLoop_others (s : ServerSystem) {l i : LoopId} (L : ServerLoop) (h : i ≠ l) :
    (s.setLoop l L).loops i = s.loops i := Function.update_of_ne h ..

theorem setLoop_self (s : ServerSystem) (l : LoopId) (L : ServerLoop) : (s.setLoop l L).loops l = L :=
  Function.update_self ..

theorem setLoop_items (s : ServerSystem) (l i : LoopId) (L : ServerLoop) :
    ((s.setLoop l L).loops i).items = if i = l then L.items else (s.loops i).items := by
  by_cases h : i = l
  · rw [h, setLoop_self, if_pos rfl]
  · rw [setLoop_others _ _ h, if_neg h]

theorem TurnStep.accepts {s : ServerSystem} {l : LoopId} {L : ServerLoop} (h : s.TurnStep l L)
    (ha : .acceptChannel ∈ L.active) : .acceptChannel ∈ (s.loops l).active ∨ s.stage = .alive := by
  cases h with
  | polled hp hr =>
    have hrep := hr _ ha
    simp only [reports, decide_eq_true_eq] at hrep
    exact Or.inr hrep.2
  | skipped hp he =>
    rw [he]
    exact Or.inl (List.mem_cons_of_mem _ ha)
  | _ => exact Or.inl ha

theorem TurnStep.cleared {s : ServerSystem} {l : LoopId} {L : ServerLoop} (h : s.TurnStep l L) :
    L.quit_ = (s.loops l).quit_ ∧ (s.Cleared l → (s.setLoop l L).Cleared l) := by
  simp only [Cleared, setLoop_self]
  cases h with
  | tested hp hq => exact ⟨rfl, fun _ => Or.inl rfl⟩
  | polled hp ha => exact ⟨rfl, fun _ => Or.inr (Or.inl rfl)⟩
  | skipped hp ha => exact ⟨rfl, fun h => h⟩
  | doPendingFunctors hp ht ha => exact ⟨rfl, fun _ => Or.inr (Or.inr fun c hc => absurd hc List.not_mem_nil)⟩
  | called hp ht hq =>
    rw [(Handoff.pop_eq hq).2.2]
    exact ⟨rfl, fun h => h⟩
  | finished hp ht hb => exact ⟨rfl, fun h => Or.inr (Or.inr (by simpa [hp] using h))⟩

theorem closeCount_le {s t : ServerSystem} (hl : t.loopOf = s.loopOf)
    (hitems : ∀ i, (t.loops i).items.Sublist (s.loops i).items) (c : ConnPtr) : t.closeCount c ≤ s.closeCount c := by
  rw [closeCount, hl]
  exact Nat.add_le_add ((hitems _).countP_le) ((hitems _).countP_le)

theorem TeardownInv.turned {s : ServerSystem} {l : LoopId} {L : ServerLoop} (h : s.TeardownInv) (hi : s.CoreInv)
    (hL : s.TurnStep l L) : (s.setLoop l L).TeardownInv := by
  have ht := hL.turned (hi.loops l)
  have hitems : ∀ i, ((s.setLoop l L).loops i).items = (s.loops i).items := by
    intro i
    rw [setLoop_items, ht.items_eq]
    split
    · rename_i hil
      rw [hil]
    · rfl
  have hlater := (s.setLoop_same ht.poller_eq).later
  refine h.next rfl h.exact (fun c _ => ?_) (fun c => ?_) (fun c hc => ?_) (fun hs c hc hn => (h.shut hs c hc hn).later hlater)
    (fun hs => ⟨fun i hle w hw => ?_, fun ha => ?_⟩) (fun i hq => ?_) h.lateUses
  · simp only [tokens, hitems]
    rfl
  · simp only [Coming, hitems]
    exact id
  · simp only [closeCount, hitems]
    exact ⟨h.closes_le c hc, h.closes_live c hc⟩
  · rw [hitems] at hw
    exact (h.alone hs).1 i hle w hw
  · by_cases h0 : l = 0
    · subst h0
      rw [setLoop_self] at ha
      exact (hL.accepts ha).elim (h.alone hs).2 hs
    · rw [setLoop_others _ _ (Ne.symm h0)] at ha
      exact (h.alone hs).2 ha
  · by_cases hil : i = l
    · subst hil
      rw [setLoop_self, hL.cleared.1] at hq
      exact ⟨(h.cleared i hq).1, (h.cleared i hq).2.1, hL.cleared.2 (h.cleared i hq).2.2⟩
    · rw [Cleared, setLoop_others _ _ hil]
      rw [setLoop_others _ _ hil] at hq
      exact h.cleared i hq

/-- A loop returns: what is dropped with it would have established what it would have
taken down. -/
theorem TeardownInv.left {s : ServerSystem} {l : LoopId} {L : ServerLoop} (h : s.TeardownInv) (hi : s.CoreInv)
    (hp : (s.loops l).phase = .testing) (ht : (s.loops l).todo = []) (hq : (s.loops l).quit_ = true)
    (hnone : L.items = []) (hact : L.active = (s.loops l).active) : (s.setLoop l L).TeardownInv := by
  obtain ⟨halive, hdestroying, hcleared⟩ := h.cleared l hq
  have hsub : ∀ i, ((s.setLoop l L).loops i).items.Sublist (s.loops i).items := by
    intro i
    rw [setLoop_items]
    split
    · rw [hnone]
      exact List.nil_sublist _
    · exact List.Sublist.refl _
  have hcount : ∀ c, s.established c = true → (s.loops l).items.countP (ServerWork.destroys c) = 0 := by
    intro c he
    rw [ServerLoop.items, ht, (hi.loops l).between (by simp [hp]), List.nil_append, List.nil_append,
      List.countP_eq_zero]
    intro w hw hd
    rw [ServerWork.destroys_eq hd] at hw
    have hest : .connectEstablished c ∈ (s.loops l).queue.pending := by
      simp only [Cleared, hp, reduceCtorEq, false_or] at hcleared
      exact hcleared c hw
    have hplaced : s.Placed l (.connectEstablished c) := (hi.loops l).placed _ (by simp [ServerLoop.items, hest])
    rw [hplaced.2] at he
    cases he
  have htokens : ∀ c, (s.setLoop l L).tokens c = (s.map.contains c).toNat +
      (if s.loopOf c = l then 0 else (s.loops (s.loopOf c)).items.countP (ServerWork.destroys c)) +
        (s.destroyedOn c).length := by
    intro c
    change (s.map.contains c).toNat + ((s.setLoop l L).loops (s.loopOf c)).items.countP _ + (s.destroyedOn c).length = _
    rw [setLoop_items]
    by_cases hil : s.loopOf c = l
    · rw [if_pos hil, if_pos hil, hnone, List.countP_nil]
    · rw [if_neg hil, if_neg hil]
  have hcloses : ∀ c, (s.setLoop l L).closeCount c ≤ s.closeCount c := closeCount_le rfl hsub
  refine ⟨h.exact, fun c hc => ?_, fun c hc hco => ?_, fun c hc => ?_, fun c hc hn => ?_, fun hs => absurd hs halive,
    fun _ => ⟨fun i hle w hw => (h.alone halive).1 i hle w ((hsub i).subset hw), fun ha => ?_⟩, fun i hqi => ?_, h.lateUses⟩
  · refine Nat.le_trans ?_ (h.tokens_le c hc)
    rw [htokens, tokens]
    split
    all_goals omega
  · rw [← h.tokens_eq c hc (hco.imp_right fun hm => (hsub _).subset hm), htokens, tokens]
    by_cases hil : s.loopOf c = l
    · rw [if_pos hil]
      rcases hco with he | hm
      · rw [hil, hcount c he]
      · have hm : .connectEstablished c ∈ ((s.setLoop l L).loops (s.loopOf c)).items := hm
        rw [setLoop_items, if_pos hil, hnone] at hm
        cases hm
    · rw [if_neg hil]
  · exact Nat.le_trans (hcloses c) (h.closes_le c hc)
  · have hle := hcloses c
    exact h.closes_live c hc (by omega)
  · by_cases h0 : 0 = l
    · subst h0
      rw [setLoop_self, hact] at ha
      exact (h.alone halive).2 ha
    · rw [setLoop_others _ _ h0] at ha
      exact (h.alone halive).2 ha
  · refine ⟨halive, hdestroying, ?_⟩
    by_cases hil : i = l
    · subst hil
      refine Or.inr (Or.inr fun c hc => ?_)
      have hm : .connectDestroyed c ∈ ((s.setLoop i L).loops i).items := List.mem_append_right _ hc
      rw [setLoop_items, if_pos rfl, hnone] at hm
      cases hm
    · rw [setLoop_others _ _ hil] at hqi
      rw [Cleared, setLoop_others _ _ hil]
      exact (h.cleared i hqi).2.2

theorem Accepted.plain {s t : ServerSystem} {fd : Fd} (ha : s.Accepted t fd) : ∃ front back,
    s.Advance t 0 front [] back ∧ (∀ w ∈ front, w.plain = true ∧ ∀ c, w.establishes = some c → c = s.map.created) ∧
      ∀ i, ∀ w ∈ back i, w.plain = true ∧ ∀ c, w.establishes = some c → c = s.map.created := by
  rcases ha.work with ⟨-, ha⟩ | ha
  · refine ⟨_, _, ha, ?_, by simp [nothing]⟩
    simp [ServerWork.plain, ServerWork.establishes]
  · refine ⟨_, _, ha, by simp, fun i w hw => ?_⟩
    obtain ⟨-, rfl⟩ := mem_pushed.mp hw
    simp [ServerWork.plain, ServerWork.establishes]

theorem TeardownInv.accepted {s t : ServerSystem} {fd : Fd} (h : s.TeardownInv) (hi : s.CoreInv)
    (hs : s.stage = .alive) (ht : (s.loops 0).todo = []) (hg : s.map.NotReused .newConnection)
    (ha : s.Accepted t fd) : t.TeardownInv := by
  have hlater := ha.later
  have hcore := hi.accepted ht ha
  obtain ⟨front, back, hadv, hfront, hback⟩ := ha.plain
  have hf := hadv.flow (g := []) ht
  have he : t.map.Exact := by
    rw [ha.map_eq]
    exact (ConnectionMap.newConnection_exact_iff hi.numbered (InetAddress.toIpPort_length _) h.exact).mpr hg
  have hlive : ∀ c, t.map.Live c ↔ s.map.Live c ∨ c = s.map.created := by
    rw [ha.map_eq]
    exact ConnectionMap.newConnection_live hi.numbered
  have hlast : ∀ c, c < t.map.created → c < s.map.created ∨ c = s.map.created := by
    rw [ha.map_eq]
    exact fun c hc => Nat.lt_succ_iff_lt_or_eq.mp hc
  have hplain := fun c => ServerWork.countP_plain (fun w hw => (hfront w hw).1) c
  have hplain' := fun i c => ServerWork.countP_plain (fun w hw => (hback i w hw).1) c
  have hold : ∀ c < s.map.created, t.tokens c = s.tokens c ∧ t.closeCount c = s.closeCount c := by
    intro c hc
    have htokens := hf.tokens_eq c (hlater.loopOf_eq c hc)
    have hcloses := hf.closeCount_eq c (hlater.loopOf_eq c hc)
    have hcontains : t.map.contains c = s.map.contains c := by
      rw [Bool.eq_iff_iff, he.contains_iff, h.exact.contains_iff, hlive]
      exact ⟨fun hl => hl.resolve_right (Nat.ne_of_lt hc), Or.inl⟩
    rw [(hplain c).1, (hplain' _ c).1, hcontains, ha.destroyedOn_eq] at htokens
    rw [(hplain c).2.1, (hplain c).2.2, (hplain' _ c).2.1, (hplain' _ c).2.2] at hcloses
    exact ⟨by simpa using htokens, by simpa using hcloses⟩
  have hnew : t.tokens s.map.created = 1 := by
    have hcontains := he.contains_iff.mpr ((hlive _).mpr (Or.inr rfl))
    have hcount : (t.loops (t.loopOf s.map.created)).items.countP (ServerWork.destroys s.map.created) = 0 := by
      refine List.countP_eq_zero.mpr fun w hw hd => ?_
      rw [ServerWork.destroys_eq hd] at hw
      rcases hf.mem hw with ⟨hw, -⟩ | ⟨-, hw⟩ | hw
      · have hplaced : s.Placed _ (.connectDestroyed s.map.created) := (hi.loops _).placed _ hw
        exact Nat.lt_irrefl _ hplaced.1
      · cases (hfront _ hw).1
      · cases (hback _ _ hw).1
    have hdestroyed : t.destroyedOn s.map.created = [] := by
      rw [ha.destroyedOn_eq]
      exact List.eq_nil_iff_forall_not_mem.mpr fun l hl => Nat.lt_irrefl _ (hi.destroyed _ l hl).1
    rw [tokens, hcontains, hcount, hdestroyed]
    rfl
  have hquiet : t.closeCount s.map.created = 0 := by
    by_contra hn
    have hest := (shut_of_closeCount hcore hn).established
    rw [ha.established_eq] at hest
    exact Nat.lt_irrefl _ (hi.established_lt _ hest)
  refine ⟨he, fun c hc => ?_, fun c hc hco => ?_, fun c hc => ?_, fun c hc hn => ?_, fun _ c hc hn => ?_,
    fun hn => absurd (ha.stage_eq.trans hs) hn, fun i hq => ?_, ?_⟩
  · rcases hlast c hc with hc | rfl
    · rw [(hold c hc).1]
      exact h.tokens_le c hc
    · rw [hnew]
  · rcases hlast c hc with hc | rfl
    · rw [(hold c hc).1]
      refine h.tokens_eq c hc ?_
      rcases hco with hco | hco
      · rw [ha.established_eq] at hco
        exact Or.inl hco
      · rw [hlater.loopOf_eq c hc] at hco
        rcases hf.mem hco with ⟨hco, -⟩ | ⟨-, hco⟩ | hco
        · exact Or.inr hco
        · exact absurd ((hfront _ hco).2 c rfl) (Nat.ne_of_lt hc)
        · exact absurd ((hback _ _ hco).2 c rfl) (Nat.ne_of_lt hc)
    · exact hnew
  · rcases hlast c hc with hc | rfl
    · rw [(hold c hc).2]
      exact h.closes_le c hc
    · rw [hquiet]
      exact Nat.zero_le 1
  · rcases hlast c hc with hc | rfl
    · rw [(hold c hc).2] at hn
      exact (hlive c).mpr (Or.inl (h.closes_live c hc hn))
    · exact absurd hquiet hn
  · have hlt := (hlast c hc).resolve_right fun he => hn ((hlive c).mpr (Or.inr he))
    exact (h.shut hs c hlt fun hl => hn ((hlive c).mpr (Or.inl hl))).later hlater
  · rw [hadv.quit_eq, h.quit_eq (Or.inl hs)] at hq
    cases hq
  · rw [ha.lateUses_eq, late, if_neg (by simp [hs])]
    exact h.lateUses

theorem TeardownInv.of_users {s : ServerSystem} (h : s.TeardownInv) (holders : ConnPtr → Nat)
    (released : ConnPtr → Bool) (dangling : List ConnPtr) :
    { s with holders := holders, released := released, dangling := dangling }.TeardownInv :=
  ⟨h.exact, h.tokens_le, h.tokens_eq, h.closes_le, h.closes_live,
    fun hs c hc hn => ⟨(h.shut hs c hc hn).lt, (h.shut hs c hc hn).established, (h.shut hs c hc hn).state_eq⟩,
    h.alone, h.cleared, h.lateUses⟩

theorem UserStep.teardownInv {s t : ServerSystem} {a : ServerAction} (hs : s.UserStep a t) (h : s.TeardownInv) :
    t.TeardownInv := by
  cases hs with
  | copied hc => exact h.of_users _ _ _
  | dropped => exact h.of_users _ _ _
  | @posted l bound hp hb =>
    refine h.plain (g := []) ⟨s.push_only l l (.functor bound), rfl, by simp, by simp, fun i w hw => ?_⟩
      ((SameConns.refl s).push l _).later rfl rfl rfl rfl rfl rfl fun c => Or.inl
    obtain ⟨-, rfl⟩ := mem_pushed.mp hw
    exact ⟨rfl, rfl, rfl⟩

theorem LoopStep.teardownInv {s t : ServerSystem} {a : ServerAction} (hs : s.LoopStep a t) (h : s.TeardownInv)
    (hi : s.CoreInv) (hg : s.Orderly a) : t.TeardownInv := by
  cases hs with
  | turned hr hL => exact h.turned hi hL
  | @left l hr hp ht hq => exact h.left hi hp ht hq (by simp [ServerLoop.items, ht]) rfl
  | @accepted fd active t hr ha hL ht hfd hacc =>
    have halive : s.stage = .alive := by
      by_contra hn
      exact (h.alone hn).2 (by simp [ha])
    exact (h.turned hi hL).accepted (hi.turned (hL.turned (hi.loops 0))) halive (by simpa [setLoop] using ht) hg hacc
  | dangled hr ha hL hc => exact (h.turned hi hL).of_users _ _ _
  | @handled l c revents active guard hr ha hL hp ht hc hgu =>
    have h' : (s.setActive l active).TeardownInv := h.turned hi hL
    refine h'.plain (g := []) ⟨(s.setActive l active).setTodo_advance l (handlers c revents ++ guard) [],
      by simpa [setActive, setLoop] using ht, by simp, fun w hw => ?_, nothing_plain⟩
      ((s.setActive l active).setTodo_same l _).later rfl rfl rfl rfl rfl rfl fun d => Or.inl
    rcases List.mem_append.mp hw with hw | hw
    · rcases mem_handlers hw with rfl | rfl | rfl
      all_goals exact ⟨rfl, rfl, rfl⟩
    · rw [hgu w hw]
      exact ⟨rfl, rfl, rfl⟩
  | @code l r hr hp ht =>
    exact h.plain (g := []) ⟨s.setTodo_advance l (users r) [], ht, by simp, fun w hw => users_plain hw, nothing_plain⟩
      (s.setTodo_same l _).later rfl rfl rfl rfl rfl rfl fun d => Or.inl
  | @worked l r v rest t hr ht hx => exact h.exec hi hr.1 ht (hg v (by rw [ht]; rfl)) hx

theorem TeardownInv.destroyItem {s t : ServerSystem} {c : ConnPtr} {back : LoopId → List ServerWork}
    (h : s.TeardownInv) (hi : s.CoreInv) (hs : s.stage = .destroying) (hc : s.map.contains c = true)
    (ha : s.Advance t 0 [] (s.loops 0).todo back)
    (hback : ∀ i, ∀ w ∈ back i, w.usesServer = false ∧ w.establishes = none) (hm : t.map = s.map.reset c)
    (hconf : t.config = s.config) (hl : t.loopOf = s.loopOf) (hst : t.stage = s.stage)
    (hest : t.established = s.established) (hlate : t.lateUses = s.lateUses)
    (hd : ∀ d, (back (s.loopOf d)).countP (ServerWork.destroys d) + (t.destroyedOn d).length =
      (s.destroyedOn d).length + if d = c then 1 else 0) : t.TeardownInv := by
  have hf := ha.flow (g := []) rfl
  have hlive := h.exact.contains_iff.mp hc
  have hne : s.stage ≠ .alive := by simp [hs]
  obtain ⟨he, hreset, hcontains⟩ := h.exact.remove hi.numbered (InetAddress.toIpPort_length _) hlive
  rw [← hreset, ← hm] at he hcontains
  have halone : t.Alone := (h.alone hne).flow hf hconf (ha.active_eq 0) (by simp) fun i w hw => (hback i w hw).1
  refine h.next (by rw [hm]; rfl) he (fun d _ => ?_) (fun d => coming_of_flow hf hl (by simp)
    (fun i w hw => (hback i w hw).2) fun hd => Or.inl (by rwa [← hest])) (fun d hlt => ?_)
    (fun ht => absurd (hst.symm.trans ht) hne) (fun _ => halone) (fun i hq => ?_) (hlate.trans h.lateUses)
  · have hn := hf.tokens_eq d (congrFun hl d)
    have hcount := hd d
    rw [hcontains] at hn
    by_cases hdc : d = c
    · subst hdc
      rw [hc] at hn
      simp at hn hcount
      omega
    · simp [beq_false_of_ne hdc, hdc] at hn hcount
      omega
  · rw [halone.closeCount_eq (by rw [hl, hconf]; exact hi.loopOf_le hlt)]
    exact ⟨Nat.zero_le 1, fun hn => absurd rfl hn⟩
  · rw [ha.quit_eq, h.quit_eq (Or.inr hs)] at hq
    cases hq

theorem TeardownStep.teardownInv {s t : ServerSystem} {a : ServerAction} (hs : s.TeardownStep a t)
    (h : s.TeardownInv) (hi : s.CoreInv) (hg : s.Orderly a) : t.TeardownInv := by
  cases hs with
  | destroyServer hs =>
    refine h.next rfl h.exact (fun _ _ => rfl) (fun _ => id) (fun c hc => ⟨h.closes_le c hc, h.closes_live c hc⟩)
      (fun ht => by cases ht) (fun _ => hg) (fun i hq => ?_) h.lateUses
    have hq : (s.loops i).quit_ = true := hq
    rw [h.quit_eq (Or.inl hs)] at hq
    cases hq
  | @destroyItemHere c w hs hc hm hl hx =>
    have ha : s.Advance _ 0 [] (s.loops 0).todo (s.noted c w) :=
      (({ s with map := s.map.reset c } : ServerSystem).put_only 0 c w).1.of_loops (r := s)
        (u := { ({ s with map := s.map.reset c } : ServerSystem).put c w with
          destroyedOn := Function.update s.destroyedOn c (s.destroyedOn c ++ [0]) }) rfl rfl
    refine h.destroyItem hi hs hm ha (fun i v hv => (noted_plain i v hv).2) rfl rfl rfl rfl rfl rfl fun d => ?_
    rw [(ServerWork.countP_plain (fun v hv => (noted_plain (s := s) (c := c) (w := w) (s.loopOf d) v hv).1) d).1]
    by_cases hdc : d = c
    · subst hdc
      simp
    · simp [hdc]
  | @destroyItem c hs hc hm =>
    refine h.destroyItem hi hs hm ((s.push_only 0 (s.loopOf c) (.connectDestroyed c)).of_loops rfl rfl)
      (fun i v hv => ?_) rfl rfl rfl rfl rfl rfl fun d => ?_
    · obtain ⟨-, rfl⟩ := mem_pushed.mp hv
      exact ⟨rfl, rfl⟩
    · rw [countP_pushed]
      change _ + (s.destroyedOn d).length = _
      by_cases hdc : d = c
      · subst hdc
        simp [ServerWork.destroys, Nat.add_comm]
      · simp [ServerWork.destroys, hdc, beq_false_of_ne (Ne.symm hdc)]
  | destroyMembers hs =>
    have hne : s.stage ≠ .alive := by simp [hs]
    refine h.next rfl h.exact (fun _ _ => rfl) (fun _ => id) (fun c hc => ⟨h.closes_le c hc, h.closes_live c hc⟩)
      (fun ht => ?_) (fun _ => h.alone hne) (fun i hq => ?_) h.lateUses
    · dsimp only at ht
      split at ht
      all_goals cases ht
    · have hq : (s.loops i).quit_ = true := hq
      rw [h.quit_eq (Or.inr hs)] at hq
      cases hq
  | @quitThread i hs =>
    have hne : s.stage ≠ .alive := by simp [hs]
    have hitems : ∀ j, ((s.setLoop i { s.loops i with quit_ := true }).loops j).items = (s.loops j).items := by
      intro j
      rw [setLoop_items]
      split
      · rename_i hji
        rw [hji]
        rfl
      · rfl
    have hcleared : ∀ j, s.Cleared j → (s.setLoop i { s.loops i with quit_ := true }).Cleared j := by
      intro j hj
      by_cases hji : j = i
      · subst hji
        rw [Cleared, setLoop_self]
        exact hj
      · rw [Cleared, setLoop_others _ _ hji]
        exact hj
    refine h.next rfl h.exact (fun c _ => ?_) (fun c => ?_) (fun c hc => ?_) (fun ht => by cases ht)
      (fun _ => ⟨fun j hle w hw => ?_, fun ha => ?_⟩) (fun j hq => ⟨by simp, by simp, ?_⟩) h.lateUses
    · exact congrArg (fun ws => (s.map.contains c).toNat + ws.countP (ServerWork.destroys c) + (s.destroyedOn c).length)
        (hitems (s.loopOf c))
    · intro hco
      refine hco.imp_right fun hm => ?_
      rw [← hitems]
      exact hm
    · have hc' := congrArg₂ (fun ws vs => ws.countP (ServerWork.callsBack c) + vs.countP (ServerWork.removes c))
        (hitems (s.loopOf c)) (hitems 0)
      exact ⟨hc'.trans_le (h.closes_le c hc), fun hn => h.closes_live c hc fun hz => hn (hc'.trans hz)⟩
    · exact (h.alone hne).1 j hle w (by rw [← hitems]; exact hw)
    · refine (h.alone hne).2 ?_
      by_cases h0 : 0 = i
      · subst h0
        simpa [setLoop] using ha
      · simpa [setLoop, h0] using ha
    · refine hcleared j ?_
      by_cases hji : j = i
      · rw [hji]
        exact hg i (by rw [hs]; rfl)
      · exact (h.cleared j (by simpa [setLoop, hji] using hq)).2.2
  | @joinThread i hs =>
    have hne : s.stage ≠ .alive := by simp [hs]
    refine h.next rfl h.exact (fun _ _ => rfl) (fun _ => id) (fun c hc => ⟨h.closes_le c hc, h.closes_live c hc⟩)
      (fun ht => ?_) (fun _ => h.alone hne) (fun i hq => ?_) h.lateUses
    · dsimp only at ht
      split at ht
      all_goals cases ht
    · refine ⟨?_, ?_, (h.cleared i hq).2.2⟩
      all_goals
        dsimp only
        split
        all_goals simp

theorem step_teardownInv {s s' : ServerSystem} {a : ServerAction} (h : s.TeardownInv) (hi : s.CoreInv)
    (hs : Guarded Step Orderly s a s') : s'.TeardownInv := by
  obtain ⟨t, ht | ht | ht, rfl⟩ := step_cases hs.2
  · exact (ht.teardownInv h).of_users _ _ _
  · exact (ht.teardownInv h hi hs.1).of_users _ _ _
  · exact (ht.teardownInv h hi hs.1).of_users _ _ _

theorem start_teardownInv (config : ServerConfig) : (start config).TeardownInv :=
  ⟨ConnectionMap.start_exact, fun c hc => absurd hc (Nat.not_lt_zero c), fun c hc => absurd hc (Nat.not_lt_zero c),
    fun c hc => absurd hc (Nat.not_lt_zero c), fun c hc => absurd hc (Nat.not_lt_zero c),
    fun _ c hc => absurd hc (Nat.not_lt_zero c), fun hs => absurd rfl hs, fun _ hq => Bool.noConfusion hq, rfl⟩

end ServerSystem

end MyMuduo
