import MyMuduo.ServerReferences

/-! While the server lives, a chain of references keeps each connection until
`connectDestroyed` has run for it on its own loop: the map, the functors of two
loops, and the callbacks on the way. So no poller ever knows a destroyed channel. -/

namespace MyMuduo

namespace ServerSystem

/-- Registered at the descriptor, and not taken down. -/
structure Open (s : ServerSystem) (l : LoopId) (fd : Fd) (c : ConnPtr) : Prop extends Registered s l c where
  fd_eq : (s.conns c).channel_.fd_ = fd
  destroyedOn_eq : s.destroyedOn c = []

/-- The pollers know open connections only. -/
structure PollersInv (s : ServerSystem) : Prop where
  mapped : ∀ l fd c, (s.loops l).poller.channels_ fd = some c → s.Open l fd c
  watched : ∀ l fd e, (s.loops l).poller.epollfd_ fd = some e → s.Open l fd e.ptr
  owned : ∀ c < s.map.created, Owned (s.loops (s.loopOf c)).poller (s.conns c).channel_

/-- Events are handled in one phase, and connections taken down in another. -/
structure PhasesInv (s : ServerSystem) (l : LoopId) : Prop where
  running : (s.loops l).quit_ = false
  functors : ∀ c, .connectDestroyed c ∈ (s.loops l).todo → (s.loops l).phase = .functors
  between : (s.loops l).phase ≠ .dispatching → (s.loops l).active = [] ∧ ∀ w ∈ (s.loops l).todo, w.event = none
  handled : ∀ w ∈ (s.loops l).todo, ∀ c, w.event = some c → s.destroyedOn c = []
  active : ∀ c revents, .channel c revents ∈ (s.loops l).active → s.destroyedOn c = []

structure CustodyInv (s : ServerSystem) : Prop extends PollersInv s where
  alive : s.stage = .alive
  exact : s.map.Exact
  custody : ∀ c < s.map.created,
    s.map.Live c ∨ .connectDestroyed c ∈ (s.loops (s.loopOf c)).items ∨ s.destroyedOn c ≠ []
  gone : ∀ c, s.destroyedOn c ≠ [] → s.Shut c
  closing : ∀ l c, .connectDestroyed c ∈ (s.loops l).items → s.Shut c
  phases : ∀ l, s.PhasesInv l
  dangling : s.dangling = []

theorem Placed.registered {s : ServerSystem} {l : LoopId} {w : ServerWork} {c : ConnPtr} (h : s.Placed l w)
    (he : w.event = some c) : s.Registered l c := by
  cases w with
  | close d =>
    cases he
    exact h
  | closeCallback d =>
    cases he
    exact h.1
  | read d =>
    cases he
    exact h
  | write d =>
    cases he
    exact h
  | _ => cases he

theorem PollersInv.same {s t : ServerSystem} (h : s.PollersInv) (hs : s.SameConns t) : t.PollersInv := by
  have hopen : ∀ l fd c, s.Open l fd c → t.Open l fd c := by
    intro l fd c ho
    refine ⟨ho.toRegistered.later hs.later, ?_, ?_⟩
    · rw [hs.conns_eq]
      exact ho.fd_eq
    · rw [hs.destroyedOn_eq]
      exact ho.destroyedOn_eq
  refine ⟨fun l fd c hc => ?_, fun l fd e he => ?_, fun c hc => ?_⟩
  · rw [hs.poller_eq] at hc
    exact hopen l fd c (h.mapped l fd c hc)
  · rw [hs.poller_eq] at he
    exact hopen l fd _ (h.watched l fd e he)
  · rw [hs.created_eq] at hc
    rw [hs.poller_eq, hs.conns_eq, hs.loopOf_eq]
    exact h.owned c hc

/-- A connection that moves on leaves the pollers knowing open connections only, if it
is still one where it is registered itself. -/
theorem PollersInv.proceeds {s t : ServerSystem} {l : LoopId} {c : ConnPtr} {w : LoopConn}
    {front rest : List ServerWork} (h : s.PollersInv) (hi : s.CoreInv) (hp : s.Proceeds t l c w front rest)
    (hothers : ∀ d, s.destroyedOn d = [] → d ≠ c → t.destroyedOn d = [])
    (hmap : w.poller.channels_ (s.conns c).channel_.fd_ = some c → t.established c = true ∧ t.destroyedOn c = [])
    (hwatch : ∀ e, w.poller.epollfd_ (s.conns c).channel_.fd_ = some e → e.ptr = c →
      t.established c = true ∧ t.destroyedOn c = []) : t.PollersInv := by
  obtain ⟨hc, hm, hr, hl, -⟩ := hp
  have hself : (s.conns c).channel_.self = c := hi.self_eq c hc
  have hopen : ∀ l fd d, s.Open l fd d → d ≠ c → t.Open l fd d := by
    intro l fd d ho hd
    refine ⟨ho.toRegistered.later hl, ?_, hothers d ho.destroyedOn_eq hd⟩
    rw [hm.conns_eq, Function.update_of_ne hd]
    exact ho.fd_eq
  have hopenc : t.established c = true ∧ t.destroyedOn c = [] → t.Open (s.loopOf c) (s.conns c).channel_.fd_ c := by
    rintro ⟨he, hd⟩
    refine ⟨⟨Nat.lt_of_lt_of_le hc hl.created_le, by rw [hm.loopOf_eq], he⟩, ?_, hd⟩
    rw [hm.conns_eq, Function.update_self]
    exact hr.fd_eq
  refine ⟨fun l fd d hd => ?_, fun l fd e he => ?_, fun d hd => ?_⟩
  · by_cases hlc : l = s.loopOf c
    · subst hlc
      rw [hm.poller_eq] at hd
      by_cases hdc : d = c
      · subst hdc
        have hfd : fd = (s.conns d).channel_.fd_ := by
          rcases hr.mapped fd d hd with ho | ⟨hfd, -⟩
          · exact (h.mapped _ fd d ho).fd_eq.symm
          · exact hfd
        subst hfd
        exact hopenc (hmap hd)
      · rcases hr.mapped fd d hd with hd | ⟨-, hd⟩
        · exact hopen _ fd d (h.mapped _ fd d hd) hdc
        · exact absurd (hd.trans hself) hdc
    · rw [hm.poller_others l hlc] at hd
      have ho := h.mapped l fd d hd
      exact hopen l fd d ho fun he => hlc (by rw [← ho.loopOf_eq, he])
  · by_cases hlc : l = s.loopOf c
    · subst hlc
      rw [hm.poller_eq] at he
      by_cases hec : e.ptr = c
      · have hfd : fd = (s.conns c).channel_.fd_ := by
          rcases hr.watched fd e he with ho | ⟨hfd, -⟩
          · rw [← hec]
            exact (h.watched _ fd e ho).fd_eq.symm
          · exact hfd
        subst hfd
        rw [hec]
        exact hopenc (hwatch e he hec)
      · rcases hr.watched fd e he with he | ⟨-, he⟩
        · exact hopen _ fd _ (h.watched _ fd e he) hec
        · exact absurd (he.trans hself) hec
    · rw [hm.poller_others l hlc] at he
      have ho := h.watched l fd e he
      exact hopen l fd _ ho fun hec => hlc (by rw [← ho.loopOf_eq, hec])
  · rw [hm.created_eq] at hd
    rw [hm.loopOf_eq, hm.conns_eq]
    by_cases hdc : d = c
    · subst hdc
      rw [hm.poller_eq, Function.update_self]
      exact hr.owned (h.owned d hd)
    · rw [Function.update_of_ne hdc]
      by_cases hlc : s.loopOf d = s.loopOf c
      · rw [hlc, hm.poller_eq]
        intro fd e he hp
        rcases hr.watched fd e he with he | ⟨-, hptr⟩
        · exact h.owned d hd fd e (by rw [hlc]; exact he) hp
        · exact absurd ((hi.self_eq d hd).symm.trans (hp.symm.trans (hptr.trans hself))) hdc
      · rw [hm.poller_others _ hlc]
        exact h.owned d hd

theorem phases_advance {s t : ServerSystem} {l : LoopId} {g front rest : List ServerWork}
    {back : LoopId → List ServerWork} (h : ∀ i, s.PhasesInv i) (hi : s.CoreInv) (ha : s.Advance t l front rest back)
    (ht : (s.loops l).todo = g ++ rest) (hfront : ∀ w ∈ front, (∀ c, w ≠ .connectDestroyed c) ∧
      ∀ c, w.event = some c → (s.loops l).phase = .dispatching ∧ t.destroyedOn c = [])
    (hd : ∀ i c, s.Registered i c → s.destroyedOn c = [] → (s.loops i).phase = .dispatching → t.destroyedOn c = [])
    (i : LoopId) : t.PhasesInv i := by
  have hold : ∀ w ∈ (s.loops i).todo, ∀ c, w.event = some c → (s.loops i).phase = .dispatching ∧
      t.destroyedOn c = [] := by
    intro w hw c hc
    have hp : (s.loops i).phase = .dispatching := by
      by_contra hn
      rw [((h i).between hn).2 w hw] at hc
      cases hc
    have hr := ((hi.loops i).placed w (by simp [ServerLoop.items, hw])).registered hc
    exact ⟨hp, hd i c hr ((h i).handled w hw c hc) hp⟩
  have hmem : ∀ w ∈ (t.loops i).todo, w ∈ (s.loops i).todo ∨ i = l ∧ w ∈ front := by
    intro w hw
    by_cases hil : i = l
    · subst hil
      rw [ha.todo_eq] at hw
      rcases List.mem_append.mp hw with hw | hw
      · exact Or.inr ⟨rfl, hw⟩
      · exact Or.inl (by rw [ht]; exact List.mem_append_right _ hw)
    · rw [ha.todo_others i hil] at hw
      exact Or.inl hw
  have hev : ∀ w ∈ (t.loops i).todo, ∀ c, w.event = some c → (s.loops i).phase = .dispatching ∧
      t.destroyedOn c = [] := by
    intro w hw c hc
    rcases hmem w hw with hw | ⟨rfl, hw⟩
    · exact hold w hw c hc
    · exact (hfront w hw).2 c hc
  refine ⟨(ha.quit_eq i).trans (h i).running, fun c hc => ?_, fun hn => ?_, fun w hw c hc => (hev w hw c hc).2,
    fun c revents hc => ?_⟩
  · rw [ha.phase_eq]
    rcases hmem _ hc with hc | ⟨rfl, hc⟩
    · exact (h i).functors c hc
    · exact absurd rfl ((hfront _ hc).1 c)
  · rw [ha.phase_eq] at hn
    refine ⟨by rw [ha.active_eq]; exact ((h i).between hn).1, fun w hw => ?_⟩
    by_contra hne
    obtain ⟨c, hc⟩ := Option.ne_none_iff_exists'.mp hne
    exact hn (hev w hw c hc).1
  · rw [ha.active_eq] at hc
    have hp : (s.loops i).phase = .dispatching := by
      by_contra hn
      rw [((h i).between hn).1] at hc
      cases hc
    exact hd i c ((hi.loops i).active c revents hc) ((h i).active c revents hc) hp

theorem PhasesInv.same {s t : ServerSystem} {l : LoopId} (h : s.PhasesInv l) (hd : t.destroyedOn = s.destroyedOn)
    (hl : t.loops l = s.loops l) : t.PhasesInv l := by
  obtain ⟨h1, h2, h3, h4, h5⟩ := h
  rw [← hl] at h1 h2 h3 h4 h5
  rw [← hd] at h4 h5
  exact ⟨h1, h2, h3, h4, h5⟩

theorem phases_turned {s : ServerSystem} {l : LoopId} {L : ServerLoop} (h : ∀ i, s.PhasesInv i) (hi : s.LoopInv l)
    (hp : s.PollersInv) (hL : s.TurnStep l L) (i : LoopId) : (s.setLoop l L).PhasesInv i := by
  by_cases hil : i = l
  · subst hil
    have heq : (s.setLoop i L).loops i = L := Function.update_self ..
    obtain ⟨h1, h2, h3, h4, h5⟩ := h i
    constructor
    all_goals rw [heq]
    · cases hL with
      | _ => exact h1
    · intro c hc
      cases hL with
      | tested hp hq => exact absurd (h2 c hc) (by simp [hp])
      | polled hp ha => exact absurd (h2 c hc) (by simp [hp])
      | called hp ht hq => exact hp
      | skipped hp ha => exact h2 c hc
      | doPendingFunctors hp ht ha => rfl
      | finished hp ht hb => rw [ht] at hc; cases hc
    · intro hn
      cases hL with
      | tested hp hq => exact h3 (by simp [hp])
      | polled hp ha => exact absurd rfl hn
      | called hp ht hq =>
        obtain ⟨hb, -, -⟩ := Handoff.pop_eq hq
        refine ⟨(h3 (by simp [hp])).1, fun w hw => hi.queued w ?_⟩
        rw [List.mem_singleton.mp hw, hb]
        simp
      | skipped hp ha => exact absurd hp hn
      | doPendingFunctors hp ht ha => exact ⟨ha, by simp [ht]⟩
      | finished hp ht hb => exact ⟨(h3 (by simp [hp])).1, by simp [ht]⟩
    · intro w hw c hc
      cases hL with
      | called hp ht hq =>
        obtain ⟨hb, -, -⟩ := Handoff.pop_eq hq
        rw [List.mem_singleton.mp hw, hi.queued _ (by rw [hb]; simp)] at hc
        cases hc
      | _ => exact h4 w hw c hc
    · intro c revents hc
      cases hL with
      | polled hph ha =>
        have hrep := ha _ hc
        simp only [reports, Option.any_eq_true, decide_eq_true_eq] at hrep
        obtain ⟨e, he, hptr⟩ := hrep
        exact hptr ▸ (hp.watched i _ e he).destroyedOn_eq
      | skipped hp ha => exact h5 c revents (by rw [ha]; exact List.mem_cons_of_mem _ hc)
      | _ => exact h5 c revents hc
  · exact (h i).same rfl (Function.update_of_ne hil ..)

theorem CustodyInv.same {s t : ServerSystem} (h : s.CustodyInv) (hs : s.SameConns t) (hmap : t.map = s.map)
    (hst : t.stage = s.stage) (hdang : t.dangling = s.dangling)
    (hitems : ∀ l, (t.loops l).items = (s.loops l).items) (hph : ∀ l, t.PhasesInv l) : t.CustodyInv := by
  refine ⟨h.toPollersInv.same hs, hst.trans h.alive, by rw [hmap]; exact h.exact, fun c hc => ?_, fun c hc => ?_,
    fun l c hc => ?_, hph, hdang.trans h.dangling⟩
  · rw [hmap] at hc ⊢
    rw [hs.loopOf_eq, hitems, hs.destroyedOn_eq]
    exact h.custody c hc
  · rw [hs.destroyedOn_eq] at hc
    exact (h.gone c hc).later hs.later
  · rw [hitems] at hc
    exact (h.closing l c hc).later hs.later

/-- Nothing is taken down, and no work to take one down is lost. -/
theorem CustodyInv.flow {s t : ServerSystem} {l : LoopId} {g front kept : List ServerWork}
    {back : LoopId → List ServerWork} (h : s.CustodyInv) (hl : s.Later t) (hmap : t.map = s.map)
    (hloop : t.loopOf = s.loopOf) (hst : t.stage = s.stage) (hdest : t.destroyedOn = s.destroyedOn)
    (hdang : t.dangling = s.dangling) (hp : t.PollersInv) (hf : s.Flow t l g front kept back)
    (hgone : ∀ c, .connectDestroyed c ∉ g) (hnew : ∀ i, ∀ c, .connectDestroyed c ∉ front ++ back i)
    (hph : ∀ l, t.PhasesInv l) : t.CustodyInv := by
  refine ⟨hp, hst.trans h.alive, by rw [hmap]; exact h.exact, fun c hc => ?_, fun c hc => ?_, fun i c hc => ?_, hph,
    hdang.trans h.dangling⟩
  · rw [hmap] at hc ⊢
    rw [hloop, hdest]
    rcases h.custody c hc with hc | hc | hc
    · exact Or.inl hc
    · rcases hf.keeps hc with ⟨-, hg⟩ | hc
      · exact absurd hg (hgone c)
      · exact Or.inr (Or.inl hc)
    · exact Or.inr (Or.inr hc)
  · rw [hdest] at hc
    exact (h.gone c hc).later hl
  · rcases hf.mem hc with ⟨hc, -⟩ | ⟨-, hc⟩ | hc
    · exact (h.closing i c hc).later hl
    · exact absurd (List.mem_append_left _ hc) (hnew i c)
    · exact absurd (List.mem_append_right _ hc) (hnew i c)

theorem noted_keeps {s : ServerSystem} {c d : ConnPtr} {w : LoopConn} {i : LoopId} :
    .connectDestroyed d ∉ s.noted c w i := by
  intro hm
  cases mem_noted hm

theorem users_keep {r : Reaction} {c : ConnPtr} : ServerWork.connectDestroyed c ∉ users r := by
  intro hm
  obtain ⟨d, call, hu⟩ := mem_users hm
  cases hu

theorem HandlerStep.phases {s : ServerSystem} {l : LoopId} {c : ConnPtr} {v : ServerWork} {w : LoopConn}
    {new rest : List ServerWork} (h : s.HandlerStep l c v w new) (ht : (s.loops l).todo = v :: rest)
    (hp : s.PhasesInv l) : ∀ u ∈ new, (∀ d, u ≠ .connectDestroyed d) ∧
      ∀ d, u.event = some d → (s.loops l).phase = .dispatching ∧ s.destroyedOn d = [] := by
  have hev : ∀ d, v.event = some d → (s.loops l).phase = .dispatching ∧ s.destroyedOn d = [] := by
    intro d hd
    have hv : v ∈ (s.loops l).todo := by simp [ht]
    refine ⟨?_, hp.handled v hv d hd⟩
    by_contra hn
    rw [(hp.between hn).2 v hv] at hd
    cases hd
  have husers : ∀ r, ∀ u ∈ users r, (∀ d, u ≠ .connectDestroyed d) ∧
      ∀ d, u.event = some d → (s.loops l).phase = .dispatching ∧ s.destroyedOn d = [] := by
    intro r u hu
    obtain ⟨d, call, rfl⟩ := mem_users hu
    simp [ServerWork.event]
  intro u hu
  cases h with
  | close hd =>
    rcases List.mem_append.mp hu with hu | hu
    · exact husers _ u hu
    · rw [List.mem_singleton.mp hu]
      exact ⟨by simp, hev⟩
  | message => exact husers _ u hu
  | endOfStream =>
    rw [List.mem_singleton.mp hu]
    exact ⟨by simp, hev⟩
  | _ => cases hu

theorem HandlerStep.open {s : ServerSystem} {l : LoopId} {c : ConnPtr} {v : ServerWork} {w : LoopConn}
    {new rest : List ServerWork} (h : s.HandlerStep l c v w new) (hi : s.CoreInv) (hc : s.CustodyInv)
    (hv : s.Placed l v) (ht : (s.loops l).todo = v :: rest) :
    s.established c = true ∧ s.destroyedOn c = [] ∨ w.poller = (s.view c).poller := by
  have hev : v.event = some c → s.established c = true ∧ s.destroyedOn c = [] := fun he =>
    ⟨(hv.registered he).established, (hc.phases l).handled v (by simp [ht]) c he⟩
  cases h with
  | close hd => exact Or.inl (hev rfl)
  | message => exact Or.inl (hev rfl)
  | endOfStream => exact Or.inl (hev rfl)
  | readFailed => exact Or.inl (hev rfl)
  | write hw => exact Or.inl (hev rfl)
  | user hh hl hu =>
    by_cases hst : (s.conns c).state_ = .kConnected
    · refine Or.inl ⟨?_, ?_⟩
      · by_contra hne
        rw [hi.connecting c hh.1 (by simpa using hne)] at hst
        cases hst
      · by_contra hne
        rw [(hc.gone c hne).state_eq] at hst
        cases hst
    · exact Or.inr (LoopConn.idleUserRule.user hu hst).2.2

theorem CustodyInv.handled {s : ServerSystem} {l : LoopId} {c : ConnPtr} {v : ServerWork} {w : LoopConn}
    {new rest : List ServerWork} (h : s.CustodyInv) (hi : s.CoreInv) (ht : (s.loops l).todo = v :: rest)
    (hx : s.HandlerStep l c v w new) : ((s.put c w).setTodo l (new ++ rest)).CustodyInv := by
  have hv : s.Placed l v := (hi.loops l).placed v (by simp [ServerLoop.items, ht])
  have hp := (hx.spec hi hv).proceeds new rest
  have hopen := hx.open hi h hv ht
  have hpollers : ((s.put c w).setTodo l (new ++ rest)).PollersInv := by
    refine h.toPollersInv.proceeds hi hp (fun d hd _ => hd) (fun hm => ?_) fun e he hptr => ?_
    · rcases hopen with ho | ho
      · exact ho
      · rw [ho] at hm
        exact ⟨(h.mapped _ _ c hm).established, (h.mapped _ _ c hm).destroyedOn_eq⟩
    · rcases hopen with ho | ho
      · exact ho
      · rw [ho] at he
        have := h.watched _ _ e he
        rw [hptr] at this
        exact ⟨this.established, this.destroyedOn_eq⟩
  have hph := hx.phases ht (h.phases l)
  refine h.flow (g := [v]) hp.later rfl rfl rfl rfl rfl hpollers (hp.advance.flow ht) (fun d hd => ?_)
    (fun i d hd => ?_) (phases_advance (g := [v]) h.phases hi hp.advance ht hph fun _ _ _ hd _ => hd)
  · rw [← List.mem_singleton.mp hd] at hx
    cases hx
  · rcases List.mem_append.mp hd with hd | hd
    · exact (hph _ hd).1 d rfl
    · exact noted_keeps hd

theorem CustodyInv.connectEstablished {s : ServerSystem} {l : LoopId} {c : ConnPtr} {w : LoopConn} {r : Reaction}
    {rest : List ServerWork} (h : s.CustodyInv) (hi : s.CoreInv)
    (ht : (s.loops l).todo = .connectEstablished c :: rest) (hx : (s.view c).connectEstablished [] = .ok w) :
    CustodyInv { (s.put c w).setTodo l (users r ++ rest) with
      established := Function.update s.established c true } := by
  have hv : s.Placed l (.connectEstablished c) := (hi.loops l).placed _ (by simp [ServerLoop.items, ht])
  have hp := connectEstablished_proceeds r rest hv hx
  have hd : s.destroyedOn c = [] := by
    by_contra hne
    have he := hv.2
    rw [(h.gone c hne).established] at he
    cases he
  have hnew : Function.update s.established c true c = true ∧ s.destroyedOn c = [] :=
    ⟨update_true.mpr (Or.inr rfl), hd⟩
  refine h.flow (g := [.connectEstablished c]) hp.later rfl rfl rfl rfl rfl
    (h.toPollersInv.proceeds hi hp (fun d hd _ => hd) (fun _ => hnew) fun _ _ _ => hnew) (hp.advance.flow ht)
    (fun d hd => ?_) (fun i d hd => ?_)
    (phases_advance (g := [.connectEstablished c]) h.phases hi hp.advance ht (fun u hu => ?_)
      fun _ _ _ hd _ => hd)
  · cases List.mem_singleton.mp hd
  · rcases List.mem_append.mp hd with hd | hd
    · exact users_keep hd
    · exact noted_keeps hd
  · obtain ⟨d, call, rfl⟩ := mem_users hu
    simp [ServerWork.event]

/-- `connectDestroyed` runs between the events of its loop, for a connection that has
been closed: the pollers forget it. -/
theorem CustodyInv.connectDestroyed {s : ServerSystem} {l : LoopId} {c : ConnPtr} {w : LoopConn}
    {rest : List ServerWork} (h : s.CustodyInv) (hi : s.CoreInv)
    (ht : (s.loops l).todo = .connectDestroyed c :: rest) (hx : (s.view c).connectDestroyed = .ok w) :
    CustodyInv { (s.put c w).setTodo l ([] ++ rest) with
      destroyedOn := Function.update s.destroyedOn c (s.destroyedOn c ++ [l]) } := by
  have hv : s.Placed l (.connectDestroyed c) := (hi.loops l).placed _ (by simp [ServerLoop.items, ht])
  have hd := LoopConn.connectDestroyed_destroyed hx
  have hp := connectDestroyed_proceeds (t := { (s.put c w).setTodo l ([] ++ rest) with
    destroyedOn := Function.update s.destroyedOn c (s.destroyedOn c ++ [l]) }) hv.1 hx
    ((s.put_moved l ([] ++ rest) c w).of_eq rfl rfl rfl rfl rfl rfl) rfl
    ((s.put_advance l [] rest c w).of_loops rfl rfl)
  have hf := hp.advance.flow (g := [.connectDestroyed c]) ht
  have hshut : s.Shut c := h.closing l c (by simp [ServerLoop.items, ht])
  have hphase := (h.phases l).functors c (by simp [ht])
  have hothers : ∀ d, s.destroyedOn d = [] → d ≠ c →
      Function.update s.destroyedOn c (s.destroyedOn c ++ [l]) d = [] := fun d hd hdc =>
    (Function.update_of_ne hdc ..).trans hd
  refine ⟨h.toPollersInv.proceeds hi hp hothers (fun hm => ?_) fun e he hptr => ?_, h.alive, h.exact, fun d hdlt => ?_,
    fun d hdne => ?_, fun i d hm => ?_, phases_advance (g := [.connectDestroyed c]) h.phases hi hp.advance ht
      (by simp) fun i d hr hdn hpi => hothers d hdn ?_, h.dangling⟩
  · rw [show (s.conns c).channel_.fd_ = (s.view c).tcp.channel_.fd_ from rfl, hd.unmapped] at hm
    cases hm
  · have hown := hd.registers.owned (h.owned c hv.1) _ e he
      (hptr.trans ((hi.self_eq c hv.1).symm.trans hd.registers.self_eq.symm))
    rw [hd.index_eq] at hown
    cases hown.2
  · rcases h.custody d hdlt with hlive | hm | hne
    · exact Or.inl hlive
    · rcases hf.keeps hm with ⟨-, hg⟩ | hm
      · cases List.mem_singleton.mp hg
        exact Or.inr (Or.inr (by simp))
      · exact Or.inr (Or.inl hm)
    · refine Or.inr (Or.inr ?_)
      by_cases hdc : d = c
      · subst hdc
        simp
      · simpa [hdc] using hne
  · by_cases hdc : d = c
    · rw [hdc]
      exact hshut.later hp.later
    · exact (h.gone d (by simpa [hdc] using hdne)).later hp.later
  · rcases hf.mem hm with ⟨hm, -⟩ | ⟨-, hm⟩ | hm
    · exact (h.closing i d hm).later hp.later
    · cases hm
    · exact absurd hm noted_keeps
  · rintro rfl
    rw [← hr.loopOf_eq, hv.2, hphase] at hpi
    cases hpi

theorem live_congr {m : ConnectionMap} (hm : m.created < 2 ^ 31) {c d : ConnPtr} (hc : c < m.created)
    (hd : m.Live d) (hne : d ≠ c) : ¬ d ≡ c [MOD 2 ^ 32] := by
  intro h
  have hlt : ∀ k, k < m.created → k < 2 ^ 32 := fun k hk => Nat.lt_trans (Nat.lt_trans hk hm) (by decide)
  exact hne (h.eq_of_lt_of_lt (hlt d hd.1) (hlt c hc))

/-- The map gives its reference up for that of a functor. -/
theorem CustodyInv.removeConnectionInLoop {s : ServerSystem} {l : LoopId} {c : ConnPtr} {rest : List ServerWork}
    (h : s.CustodyInv) (hi : s.CoreInv) (hm : s.map.created < 2 ^ 31)
    (ht : (s.loops l).todo = .removeConnectionInLoop c :: rest) :
    ((s.setTodo l ([] ++ rest)).removeConnectionInLoop c).CustodyInv := by
  have hv : s.Placed l (.removeConnectionInLoop c) := (hi.loops l).placed _ (by simp [ServerLoop.items, ht])
  have ha := (s.push_advance l (s.loopOf c) [] rest (.connectDestroyed c)).of_loops (r := s)
    (u := (s.setTodo l ([] ++ rest)).removeConnectionInLoop c) rfl rfl
  have hf := ha.flow (g := [.removeConnectionInLoop c]) ht
  have hsame : s.SameConns ((s.setTodo l ([] ++ rest)).removeConnectionInLoop c) := by
    obtain ⟨h1, h2, -, h4, h5, h6, h7, h8⟩ :=
      (s.setTodo_same l ([] ++ rest)).push (s.loopOf c) (.connectDestroyed c)
    exact ⟨h1, h2, rfl, h4, h5, h6, h7, h8⟩
  refine ⟨h.toPollersInv.same hsame, h.alive, ?_, fun d hd => ?_, fun d hd => (h.gone d hd).later hsame.later,
    fun i d hd => ?_, phases_advance (g := [.removeConnectionInLoop c]) h.phases hi ha ht (by simp)
      fun _ _ _ hd _ => hd, h.dangling⟩
  · refine (ConnectionMap.removeConnectionInLoop_exact_iff hi.numbered (InetAddress.toIpPort_length _) h.exact
      hv.2.lt).mpr ?_
    by_cases hlive : s.map.Live c
    · exact Or.inl hlive
    · exact Or.inr fun d hd => live_congr hm hv.2.lt hd fun he => hlive (he ▸ hd)
  · rcases h.custody d hd with hlive | hd | hd
    · by_cases hdc : d = c
      · subst hdc
        exact Or.inr (Or.inl (hf.mem_back (mem_pushed.mpr ⟨rfl, rfl⟩)))
      · exact Or.inl ((ConnectionMap.removeConnectionInLoop_live c d).mpr ⟨hlive, hdc⟩)
    · rcases hf.keeps hd with ⟨-, hg⟩ | hd
      · cases List.mem_singleton.mp hg
      · exact Or.inr (Or.inl hd)
    · exact Or.inr (Or.inr hd)
  · rcases hf.mem hd with ⟨hd, -⟩ | ⟨-, hd⟩ | hd
    · exact (h.closing i d hd).later hsame.later
    · cases hd
    · cases (mem_pushed.mp hd).2
      exact hv.2.later hsame.later

theorem CustodyInv.exec {s t : ServerSystem} {l : LoopId} {rest : List ServerWork} {v : ServerWork}
    (h : s.CustodyInv) (hi : s.CoreInv) (hm : s.map.created < 2 ^ 31) (ht : (s.loops l).todo = v :: rest)
    (hx : s.ExecStep l rest v t) : t.CustodyInv := by
  cases hx with
  | connectEstablished hx => exact h.connectEstablished hi ht hx
  | connectDestroyed hx => exact h.connectDestroyed hi ht hx
  | handled hx => exact h.handled hi ht hx
  | removeConnectionInLoop => exact h.removeConnectionInLoop hi hm ht
  | @closeCallbackHere c hl =>
    have hsame := (s.setTodo_same l ([.removeConnectionInLoop c] ++ rest)).late (s.late .removeConnection)
    have ha := (s.setTodo_advance l [.removeConnectionInLoop c] rest).of_loops (r := s)
      (u := { s.setTodo l ([.removeConnectionInLoop c] ++ rest) with lateUses := s.late .removeConnection }) rfl rfl
    exact h.flow (g := [.closeCallback c]) hsame.later rfl rfl rfl rfl rfl (h.toPollersInv.same hsame) (ha.flow ht)
      (by simp) (by simp [nothing]) (phases_advance (g := [.closeCallback c]) h.phases hi ha ht
        (by simp [ServerWork.event]) fun _ _ _ hd _ => hd)
  | @closeCallback c hl =>
    have hsame := ((s.setTodo_same l ([] ++ rest)).push 0 (.removeConnectionInLoop c)).late (s.late .removeConnection)
    have ha := (s.push_advance l 0 [] rest (.removeConnectionInLoop c)).of_loops (r := s)
      (u := { (s.setTodo l ([] ++ rest)).push 0 (.removeConnectionInLoop c) with
        lateUses := s.late .removeConnection }) rfl rfl
    refine h.flow (g := [.closeCallback c]) hsame.later rfl rfl rfl rfl rfl (h.toPollersInv.same hsame) (ha.flow ht)
      (by simp) (fun i d hd => ?_) (phases_advance (g := [.closeCallback c]) h.phases hi ha ht
        (by simp) fun _ _ _ hd _ => hd)
    cases (mem_pushed.mp hd).2
  | @endNewConnection c =>
    have hsame := (s.setTodo_same l ([] ++ rest)).late (s.late .newConnection)
    have ha := (s.setTodo_advance l [] rest).of_loops (r := s)
      (u := { s.setTodo l ([] ++ rest) with lateUses := s.late .newConnection }) rfl rfl
    exact h.flow (g := [.endNewConnection c]) hsame.later rfl rfl rfl rfl rfl (h.toPollersInv.same hsame)
      (ha.flow ht) (by simp) (by simp [nothing]) (phases_advance (g := [.endNewConnection c]) h.phases hi ha ht
        (by simp) fun _ _ _ hd _ => hd)
  | @done _ r hv =>
    have hsame := s.setTodo_same l (users r ++ rest)
    have ha := s.setTodo_advance l (users r) rest
    refine h.flow (g := [v]) hsame.later rfl rfl rfl rfl rfl (h.toPollersInv.same hsame) (ha.flow ht)
      (fun d hd => ?_) (fun i d hd => ?_) (phases_advance (g := [v]) h.phases hi ha ht (fun u hu => ?_)
        fun _ _ _ hd _ => hd)
    · rw [← List.mem_singleton.mp hd] at hv
      rcases hv with ⟨bound, hv⟩ | ⟨d', hv⟩
      all_goals cases hv
    · rcases List.mem_append.mp hd with hd | hd
      · exact users_keep hd
      · cases hd
    · obtain ⟨d, call, rfl⟩ := mem_users hu
      simp [ServerWork.event]

theorem PollersInv.accepted {s t : ServerSystem} {fd : Fd} (h : s.PollersInv) (ha : s.Accepted t fd) :
    t.PollersInv := by
  have hl := ha.later
  have hopen : ∀ l fd c, s.Open l fd c → t.Open l fd c := by
    intro l fd c ho
    refine ⟨ho.toRegistered.later hl, ?_, ?_⟩
    · rw [ha.conns_others c (Nat.ne_of_lt ho.lt)]
      exact ho.fd_eq
    · rw [ha.destroyedOn_eq]
      exact ho.destroyedOn_eq
  refine ⟨fun l fd c hc => ?_, fun l fd e he => ?_, fun c hc => ?_⟩
  · rw [ha.poller_eq] at hc
    exact hopen l fd c (h.mapped l fd c hc)
  · rw [ha.poller_eq] at he
    exact hopen l fd _ (h.watched l fd e he)
  · rw [ha.map_eq] at hc
    rw [ha.poller_eq]
    rcases Nat.lt_succ_iff_lt_or_eq.mp hc with hc | rfl
    · rw [hl.loopOf_eq c hc, ha.conns_others c (Nat.ne_of_lt hc)]
      exact h.owned c hc
    -- nothing is registered for an object that has only just been built
    · intro fd' e he hp
      rw [(new_fields ha.conn_eq).2] at hp
      have hlt := (h.watched _ fd' e he).lt
      rw [hp] at hlt
      exact absurd hlt (Nat.lt_irrefl _)

theorem CustodyInv.accepted {s t : ServerSystem} {fd : Fd} (h : s.CustodyInv) (hi : s.CoreInv)
    (hm : s.map.created < 2 ^ 31) (ht : (s.loops 0).todo = []) (ha : s.Accepted t fd) : t.CustodyInv := by
  have hl := ha.later
  have hlive : ∀ c, t.map.Live c ↔ s.map.Live c ∨ c = s.map.created := by
    rw [ha.map_eq]
    exact ConnectionMap.newConnection_live hi.numbered
  have hadv : ∃ front back, s.Advance t 0 front [] back ∧ (∀ w ∈ front, (∀ c, w ≠ .connectDestroyed c) ∧
      w.event = none) ∧ ∀ i, ∀ c, .connectDestroyed c ∉ back i := by
    rcases ha.work with ⟨-, ha⟩ | ha
    · exact ⟨_, _, ha, by simp [ServerWork.event], by simp [nothing]⟩
    · refine ⟨_, _, ha, by simp, fun i c hc => ?_⟩
      cases (mem_pushed.mp hc).2
  obtain ⟨front, back, hadv, hfront, hback⟩ := hadv
  have hf := hadv.flow (g := []) ht
  refine ⟨h.toPollersInv.accepted ha, ha.stage_eq.trans h.alive, ?_, fun c hc => ?_, fun c hc => ?_, fun i c hc => ?_,
    phases_advance (g := []) h.phases hi hadv ht (fun w hw => ⟨(hfront w hw).1, fun c hc => ?_⟩)
      fun i c _ hd _ => by rw [ha.destroyedOn_eq]; exact hd, ha.dangling_eq.trans h.dangling⟩
  · rw [ha.map_eq]
    refine (ConnectionMap.newConnection_exact_iff hi.numbered (InetAddress.toIpPort_length _) h.exact).mpr fun c hc => ?_
    intro hmod
    have hlt : s.map.created < 2 ^ 32 := Nat.lt_trans hm (by decide)
    exact Nat.ne_of_lt hc.1 (hmod.eq_of_lt_of_lt (Nat.lt_trans hc.1 hlt) hlt)
  · rw [hlive, ha.destroyedOn_eq]
    rw [ha.map_eq] at hc
    rcases Nat.lt_succ_iff_lt_or_eq.mp hc with hc | rfl
    · rw [hl.loopOf_eq c hc]
      rcases h.custody c hc with hc | hc | hc
      · exact Or.inl (Or.inl hc)
      · rcases hf.keeps hc with ⟨-, hg⟩ | hc
        · cases hg
        · exact Or.inr (Or.inl hc)
      · exact Or.inr (Or.inr hc)
    · exact Or.inl (Or.inr rfl)
  · rw [ha.destroyedOn_eq] at hc
    exact (h.gone c hc).later hl
  · rcases hf.mem hc with ⟨hc, -⟩ | ⟨-, hc⟩ | hc
    · exact (h.closing i c hc).later hl
    · exact absurd rfl ((hfront _ hc).1 c)
    · exact absurd hc (hback i c)
  · rw [(hfront w hw).2] at hc
    cases hc

/-- An object is destroyed with its last reference, and the last one to go is that of
`connectDestroyed`. -/
theorem CustodyInv.destroyed_of_released {s : ServerSystem} (h : s.CustodyInv) (hi : s.ServerInv) {c : ConnPtr}
    (hr : s.released c = true) : s.destroyedOn c ≠ [] := by
  obtain ⟨hlt, hn⟩ := hi.unreferenced c hr
  obtain ⟨hmap, -, hbound⟩ := referenced_eq_false.mp hn
  rcases h.custody c hlt with hlive | hm | hd
  · have hc := (h.exact.holds (s.map.names c) c).mpr ⟨hlive, rfl⟩
    simp [ConnectionMap.contains, hc] at hmap
  · exact absurd (List.mem_singleton_self c)
      (hbound _ (hi.loopOf_le hlt) _ (List.mem_append_right _ hm))
  · exact hd

theorem CustodyInv.turned {s : ServerSystem} {l : LoopId} {L : ServerLoop} (h : s.CustodyInv) (hi : s.CoreInv)
    (hL : s.TurnStep l L) : (s.setLoop l L).CustodyInv := by
  have ht := hL.turned (hi.loops l)
  refine h.same (s.setLoop_same ht.poller_eq) rfl rfl rfl (fun i => ?_)
    (phases_turned h.phases (hi.loops l) h.toPollersInv hL)
  by_cases hil : i = l
  · subst hil
    simp [setLoop, ht.items_eq]
  · simp [setLoop, hil]

theorem LoopStep.custodyInv {s t : ServerSystem} {a : ServerAction} (hs : s.LoopStep a t) (h : s.CustodyInv)
    (hi : s.ServerInv) (hm : s.map.created < 2 ^ 31) : t.CustodyInv := by
  cases hs with
  | turned hr hL => exact h.turned hi.toCoreInv hL
  | @left l hr hp ht hq =>
    rw [(h.phases l).running] at hq
    cases hq
  | accepted hr ha hL ht hfd hacc =>
    exact (h.turned hi.toCoreInv hL).accepted (hi.toCoreInv.turned (hL.turned (hi.loops 0))) hm
      (by simpa [setLoop] using ht) hacc
  | @dangled l c revents active hr ha hL hc =>
    exact absurd ((h.phases l).active c revents (by simp [ha])) (h.destroyed_of_released hi hc)
  | @handled l c revents active guard hr ha hL hp ht hc hg =>
    have hi' : (s.setActive l active).CoreInv := hi.toCoreInv.turned (hL.turned (hi.loops l))
    have h' : (s.setActive l active).CustodyInv := h.turned hi.toCoreInv hL
    have hd : s.destroyedOn c = [] := (h.phases l).active c revents (by simp [ha])
    have ht' : ((s.setActive l active).loops l).todo = [] ++ [] := by simpa [setActive, setLoop] using ht
    have hadv := (s.setActive l active).setTodo_advance l (handlers c revents ++ guard) []
    have hfront : ∀ w ∈ handlers c revents ++ guard, (∀ d, w ≠ .connectDestroyed d) ∧
        ∀ d, w.event = some d → ((s.setActive l active).loops l).phase = .dispatching ∧
          (s.setActive l active).destroyedOn d = [] := by
      have hphase : ((s.setActive l active).loops l).phase = .dispatching := by simpa [setActive, setLoop] using hp
      intro w hw
      rcases List.mem_append.mp hw with hw | hw
      · rcases mem_handlers hw with rfl | rfl | rfl
        all_goals exact ⟨by simp, by rintro d ⟨⟩; exact ⟨hphase, hd⟩⟩
      · rw [hg w hw]
        exact ⟨by simp, by simp [ServerWork.event]⟩
    have hsame := (s.setActive l active).setTodo_same l (handlers c revents ++ guard ++ [])
    refine h'.flow (g := []) hsame.later rfl rfl rfl rfl rfl (h'.toPollersInv.same hsame) (hadv.flow ht') (by simp)
      (fun i d hd => ?_) (phases_advance (g := []) h'.phases hi' hadv ht' hfront fun _ _ _ hd _ => hd)
    rcases List.mem_append.mp hd with hd | hd
    · exact (hfront _ hd).1 d rfl
    · cases hd
  | @code l r hr hp ht =>
    have hsame := s.setTodo_same l (users r ++ [])
    have hadv := s.setTodo_advance l (users r) []
    refine h.flow (g := []) hsame.later rfl rfl rfl rfl rfl (h.toPollersInv.same hsame) (hadv.flow ht) (by simp)
      (fun i d hd => ?_) (phases_advance (g := []) h.phases hi.toCoreInv hadv ht (fun u hu => ?_)
        fun _ _ _ hd _ => hd)
    · rcases List.mem_append.mp hd with hd | hd
      · exact users_keep hd
      · cases hd
    · obtain ⟨d, call, rfl⟩ := mem_users hu
      simp [ServerWork.event]
  | worked hr ht hx => exact h.exec hi.toCoreInv hm ht hx

theorem UserStep.custodyInv {s t : ServerSystem} {a : ServerAction} (hs : s.UserStep a t) (h : s.CustodyInv)
    (hi : s.CoreInv) : t.CustodyInv := by
  cases hs with
  | copied hc =>
    exact h.same ⟨rfl, rfl, rfl, rfl, rfl, rfl, rfl, fun _ => rfl⟩ rfl rfl rfl (fun _ => rfl)
      fun l => (h.phases l).same rfl rfl
  | dropped =>
    exact h.same ⟨rfl, rfl, rfl, rfl, rfl, rfl, rfl, fun _ => rfl⟩ rfl rfl rfl (fun _ => rfl)
      fun l => (h.phases l).same rfl rfl
  | @posted l bound hp hb =>
    have hsame := (SameConns.refl s).push l (.functor bound)
    have hadv := s.push_only l l (.functor bound)
    refine h.flow (g := []) hsame.later rfl rfl rfl rfl rfl (h.toPollersInv.same hsame) (hadv.flow rfl) (by simp)
      (fun i d hd => ?_) (phases_advance (g := []) h.phases hi hadv rfl (by simp) fun _ _ _ hd _ => hd)
    cases (mem_pushed.mp hd).2

theorem LoopStep.created_le {s t : ServerSystem} {a : ServerAction} (hs : s.LoopStep a t) :
    s.map.created ≤ t.map.created := by
  cases hs with
  | accepted hr ha hL ht hfd hacc =>
    rw [hacc.map_eq]
    exact Nat.le_succ _
  | worked hr ht hx =>
    cases hx with
    | _ => exact Nat.le_refl _
  | _ => exact Nat.le_refl _

theorem step_custodyInv {s s' : ServerSystem} {a : ServerAction} (h : s.CustodyInv) (hi : s.ServerInv)
    (ha : a ≠ .destroyServer) (hm : s'.map.created < 2 ^ 31) (hs : s.Step a s') : s'.CustodyInv := by
  obtain ⟨t, ht, rfl⟩ := step_cases hs
  have hreap : t.CustodyInv → t.reap.CustodyInv := fun hc =>
    hc.same t.reap_same rfl rfl rfl (fun _ => rfl) fun l => (hc.phases l).same rfl rfl
  refine hreap ?_
  rcases ht with ht | ht | ht
  · exact ht.custodyInv h hi.toCoreInv
  · exact ht.custodyInv h hi (Nat.lt_of_le_of_lt ht.created_le hm)
  · have halive := h.alive
    cases ht with
    | destroyServer hst => exact absurd rfl ha
    | _ hst =>
      rw [halive] at hst
      cases hst

theorem step_created_le {s s' : ServerSystem} {a : ServerAction} (hs : s.Step a s') :
    s.map.created ≤ s'.map.created := by
  obtain ⟨t, ht | ht | ht, rfl⟩ := step_cases hs
  · cases ht with
    | _ => exact Nat.le_refl _
  · exact ht.created_le
  · cases ht with
    | _ => exact Nat.le_refl _

theorem start_custodyInv (config : ServerConfig) : (start config).CustodyInv := by
  have hloop : ∀ l, (start config).loops l = ServerLoop.new := fun _ => rfl
  have hpoller : ∀ l, ((start config).loops l).poller = EPollPoller.new := fun _ => rfl
  refine ⟨⟨?_, ?_, ?_⟩, rfl, ConnectionMap.start_exact, ?_, ?_, ?_, fun l => ?_, rfl⟩
  · exact fun l fd c hc => by cases hc
  · exact fun l fd e he => by cases he
  · exact fun c hc => absurd hc (Nat.not_lt_zero c)
  · exact fun c hc => absurd hc (Nat.not_lt_zero c)
  · exact fun c hc => absurd rfl hc
  · exact fun l c hc => by cases hc
  · constructor
    all_goals simp [hloop, ServerLoop.new]

theorem run_custodyInv {config : ServerConfig} {as : List ServerAction} {s : ServerSystem}
    (hr : Run Step (start config) as s) (ha : .destroyServer ∉ as) (hm : s.map.created < 2 ^ 31) :
    s.ServerInv ∧ s.CustodyInv := by
  have hi := hr.invariant_labels
    (I := fun as s => s.ServerInv ∧ (.destroyServer ∉ as → s.map.created < 2 ^ 31 → s.CustodyInv))
    (fun as s a t hi hs => ⟨step_serverInv hi.1 hs, fun hn hlt => ?_⟩)
    ⟨start_serverInv config, fun _ _ => start_custodyInv config⟩
  · exact ⟨hi.1, hi.2 ha hm⟩
  · simp only [List.mem_append, List.mem_singleton, not_or] at hn
    exact step_custodyInv (hi.2 hn.1 (Nat.lt_of_le_of_lt (step_created_le hs) hlt)) hi.1 (Ne.symm hn.2) hlt hs

/-- In every run of a living server an object is destroyed only after `connectDestroyed`
has run for it on its own loop. So the pollers and the lists of active channels never
refer to a destroyed object, none handles an event, and a descriptor that the kernel
may hand out is known to no poller. -/
theorem no_dangling_channel {config : ServerConfig} {as : List ServerAction} {s : ServerSystem}
    (hr : Run Step (start config) as s) (ha : .destroyServer ∉ as) (hm : s.map.created < 2 ^ 31) :
    (∀ c, s.released c = true → s.destroyedOn c ≠ [] ∧ ∀ l ∈ s.destroyedOn c, l = s.loopOf c) ∧
    (∀ l fd c, (s.loops l).poller.channels_ fd = some c → s.Here c) ∧
    (∀ l fd e, (s.loops l).poller.epollfd_ fd = some e → s.Here e.ptr) ∧
    (∀ l c revents, .channel c revents ∈ (s.loops l).active → s.Here c) ∧
    s.dangling = [] ∧
    ∀ fd, s.Closed fd → ∀ l, (s.loops l).poller.channels_ fd = none := by
  obtain ⟨hi, h⟩ := run_custodyInv hr ha hm
  have hhere : ∀ c, c < s.map.created → s.destroyedOn c = [] → s.Here c := by
    intro c hlt hd
    refine ⟨hlt, ?_⟩
    by_contra hrel
    exact h.destroyed_of_released hi (by simpa using hrel) hd
  refine ⟨fun c hc => ⟨h.destroyed_of_released hi hc, fun l hl => (hi.destroyed c l hl).2⟩, fun l fd c hc => ?_,
    fun l fd e he => ?_, fun l c revents hc => ?_, h.dangling, fun fd hfd l => ?_⟩
  · exact hhere c (h.mapped l fd c hc).lt (h.mapped l fd c hc).destroyedOn_eq
  · exact hhere _ (h.watched l fd e he).lt (h.watched l fd e he).destroyedOn_eq
  · exact hhere c ((hi.loops l).active c revents hc).lt ((h.phases l).active c revents hc)
  · rw [Option.eq_none_iff_forall_ne_some]
    intro c hc
    have ho := h.mapped l fd c hc
    have hh := hhere c ho.lt ho.destroyedOn_eq
    exact hfd c hh.1 hh.2 ho.fd_eq

/-- One thread and a server called "s". -/
def oneThread : ServerConfig := ⟨"s".toList, ⟨fun _ => 1, 80⟩, 1, false, false, 0⟩

/-- The peer has sent nothing and closed, and user code does nothing. -/
def quiet : Reaction := ⟨.data [], .accepts 0 0, []⟩

/-- A connection is accepted, established, closed by its peer and taken down; its
descriptor is given to the next one. -/
def closedByPeer : List ServerAction :=
  [.test 0, .poll 0 [.acceptChannel], .accept (some 5), .doPendingFunctors 0, .finish 0,
    .test 1, .poll 1 [], .doPendingFunctors 1, .call 1, .work 1 quiet, .finish 1,
    .test 1, .poll 1 [.channel 0 EPOLLIN], .handleEvent 1, .work 1 quiet, .work 1 quiet, .work 1 quiet, .work 1 quiet,
    .doPendingFunctors 1, .finish 1,
    .test 0, .poll 0 [], .doPendingFunctors 0, .call 0, .work 0 quiet, .finish 0,
    .test 1, .poll 1 [], .doPendingFunctors 1, .call 1, .work 1 quiet, .finish 1,
    .test 0, .poll 0 [.acceptChannel], .accept (some 5)]

theorem no_dangling_channel_reused : ∃ s, Run Step (start oneThread) closedByPeer s ∧ s.released 0 = true ∧
    s.map.created = 2 ∧
    (∀ c, s.released c = true → s.destroyedOn c ≠ [] ∧ ∀ l ∈ s.destroyedOn c, l = s.loopOf c) ∧
    (∀ l fd c, (s.loops l).poller.channels_ fd = some c → s.Here c) ∧
    (∀ l fd e, (s.loops l).poller.epollfd_ fd = some e → s.Here e.ptr) ∧
    (∀ l c revents, .channel c revents ∈ (s.loops l).active → s.Here c) ∧
    s.dangling = [] ∧
    ∀ fd, s.Closed fd → ∀ l, (s.loops l).poller.channels_ fd = none := by
  have htrial : ((execAll step (start oneThread) closedByPeer).any fun s =>
      s.released 0 && decide (s.map.created = 2)) = true := by decide +kernel
  obtain ⟨s, hs, hq⟩ := (Option.any_eq_true _ _).mp htrial
  simp only [Bool.and_eq_true, decide_eq_true_eq] at hq
  have hr : Run Step (start oneThread) closedByPeer s := run_of_execAll (fun _ _ _ h => h) hs
  exact ⟨s, hr, hq.1, hq.2, no_dangling_channel hr (by simp [closedByPeer]) (by rw [hq.2]; decide)⟩

end ServerSystem

end MyMuduo
