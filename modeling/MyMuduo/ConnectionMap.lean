import Mathlib.Data.Nat.ModEq
import Mathlib.Logic.Function.Basic
import MyMuduo.Lib.Decimal
import MyMuduo.Lib.Run

/-! The server's map from names to connections, under accepts and removals on the
base loop. A name ends in a counter of 32 bits. -/

namespace MyMuduo

/-- The four bytes of the address in the order of their printing. -/
structure InetAddress where
  sin_addr : Fin 4 → BitVec 8
  sin_port : BitVec 16

def InetAddress.toIp (a : InetAddress) : List Char :=
  decimal (a.sin_addr 0).toNat ++ '.' :: decimal (a.sin_addr 1).toNat ++
    '.' :: decimal (a.sin_addr 2).toNat ++ '.' :: decimal (a.sin_addr 3).toNat

def InetAddress.toIpPort (a : InetAddress) : List Char := a.toIp ++ ':' :: decimal a.sin_port.toNat

theorem InetAddress.toIpPort_length (a : InetAddress) : a.toIpPort.length ≤ 21 := by
  have hb : ∀ i, (decimal (a.sin_addr i).toNat).length ≤ 3 := fun i =>
    decimal_length_le_of_nonneg (by decide) (by omega) (by have := (a.sin_addr i).isLt; omega)
  have hp : (decimal a.sin_port.toNat).length ≤ 5 :=
    decimal_length_le_of_nonneg (by decide) (by omega) (by have := a.sin_port.isLt; omega)
  have h0 := hb 0
  have h1 := hb 1
  have h2 := hb 2
  have h3 := hb 3
  simp only [toIpPort, toIp, List.length_append, List.length_cons]
  omega

/-- `snprintf` into a buffer of `size` bytes cuts its output short by the final zero. -/
def snprintf (size : Nat) (output : List Char) : List Char := output.take (size - 1)

/-- `name_ + buf`, with `buf` printed by "-%s#%d". -/
def connName (name_ ipPort_ : List Char) (id : Int) : List Char :=
  name_ ++ snprintf 64 ('-' :: ipPort_ ++ '#' :: decimal id)

theorem connName_injective {name_ ipPort_ : List Char} (hp : ipPort_.length ≤ 21) {i j : BitVec 32}
    (h : connName name_ ipPort_ i.toInt = connName name_ ipPort_ j.toInt) : i = j := by
  have hall : ∀ k : BitVec 32, snprintf 64 ('-' :: ipPort_ ++ '#' :: decimal k.toInt) =
      '-' :: ipPort_ ++ '#' :: decimal k.toInt := by
    intro k
    have hlt := k.toInt_lt
    have hle := k.le_toInt
    have hd : (decimal k.toInt).length ≤ 11 := decimal_length_le (by decide) (by omega)
    refine List.take_of_length_le ?_
    simp only [List.length_append, List.length_cons]
    omega
  have h := List.append_cancel_left h
  rw [hall, hall] at h
  have h := (List.cons.inj (List.append_cancel_left h)).2
  exact BitVec.eq_of_toInt_eq (decimal_injective h)

/-- A connection object, by the number of connections created before it. -/
abbrev ConnPtr := Nat

/-- `names` are the `name_` members. The rest is history: the connections created
and removed so far, and those whose entry an assignment replaced or the removal of
another erased. -/
structure ConnectionMap where
  nextConnId_ : BitVec 32
  connections_ : List Char → Option ConnPtr
  names : ConnPtr → List Char
  created : Nat
  removed : List ConnPtr
  replaced : List ConnPtr
  misErased : List ConnPtr

inductive MapOp where
  | newConnection
  | removeConnectionInLoop (conn : ConnPtr)

namespace ConnectionMap

section

variable (name_ ipPort_ : List Char)

def start : ConnectionMap := ⟨1, fun _ => none, fun _ => [], 0, [], [], []⟩

def newConnection (s : ConnectionMap) : ConnectionMap :=
  let name := connName name_ ipPort_ s.nextConnId_.toInt
  { s with
    nextConnId_ := s.nextConnId_ + 1
    connections_ := Function.update s.connections_ name (some s.created)
    names := Function.update s.names s.created name
    created := s.created + 1
    replaced := s.replaced ++ (s.connections_ name).toList }

def removeConnectionInLoop (s : ConnectionMap) (conn : ConnPtr) : ConnectionMap :=
  { s with
    connections_ := Function.update s.connections_ (s.names conn) none
    removed := conn :: s.removed
    misErased := s.misErased ++ ((s.connections_ (s.names conn)).filter (· ≠ conn)).toList }

def exec (s : ConnectionMap) : MapOp → Option ConnectionMap
  | .newConnection => some (s.newConnection name_ ipPort_)
  | .removeConnectionInLoop conn => if conn < s.created then some (s.removeConnectionInLoop conn) else none

def Step (s : ConnectionMap) (op : MapOp) (s' : ConnectionMap) : Prop := s.exec name_ ipPort_ op = some s'

end

/-- Created, and not yet removed. -/
def Live (s : ConnectionMap) (c : ConnPtr) : Prop := c < s.created ∧ c ∉ s.removed

/-- The map holds the live connections, each under a name of its own, and has never
lost another's entry. -/
structure Exact (s : ConnectionMap) : Prop where
  distinct : ∀ c d, s.Live c → s.Live d → s.names c = s.names d → c = d
  holds : ∀ name c, s.connections_ name = some c ↔ s.Live c ∧ s.names c = name
  no_replaced : s.replaced = []
  no_misErased : s.misErased = []

/-- No live connection was accepted a multiple of 2^32 accepts before the new one,
or before or after one that is removed again. -/
def NotReused (s : ConnectionMap) : MapOp → Prop
  | .newConnection => ∀ c, s.Live c → ¬ c ≡ s.created [MOD 2 ^ 32]
  | .removeConnectionInLoop conn => s.Live conn ∨ ∀ c, s.Live c → ¬ c ≡ conn [MOD 2 ^ 32]

/-- The id that the connection was given. -/
def idOf (c : ConnPtr) : BitVec 32 := BitVec.ofNat 32 (c + 1)

theorem idOf_eq_iff {c d : ConnPtr} : idOf c = idOf d ↔ c ≡ d [MOD 2 ^ 32] := by
  have h : idOf c = idOf d ↔ c + 1 ≡ d + 1 [MOD 2 ^ 32] := by
    rw [← BitVec.toNat_inj]
    simp only [idOf, BitVec.toNat_ofNat]
    rfl
  exact h.trans ⟨Nat.ModEq.add_right_cancel' 1, Nat.ModEq.add_right 1⟩

/-- What each object was called, whatever has become of the map. -/
structure Numbered (name_ ipPort_ : List Char) (s : ConnectionMap) : Prop where
  next_eq : s.nextConnId_ = idOf s.created
  names_eq : ∀ c, c < s.created → s.names c = connName name_ ipPort_ (idOf c).toInt
  removed_lt : ∀ c ∈ s.removed, c < s.created

variable {name_ ipPort_ : List Char}

theorem step_numbered {s s' : ConnectionMap} {op : MapOp} (hi : s.Numbered name_ ipPort_)
    (h : s.Step name_ ipPort_ op s') : s'.Numbered name_ ipPort_ := by
  cases op with
  | newConnection =>
    cases h
    refine ⟨?_, fun c hc => ?_, fun c hc => Nat.lt_succ_of_lt (hi.removed_lt c hc)⟩
    · change s.nextConnId_ + 1 = idOf (s.created + 1)
      rw [hi.next_eq, idOf, idOf, BitVec.ofNat_add (s.created + 1) 1]
      rfl
    · change Function.update s.names s.created _ c = _
      by_cases he : c = s.created
      · rw [he, Function.update_self, hi.next_eq]
      · rw [Function.update_of_ne he]
        exact hi.names_eq c (Nat.lt_of_le_of_ne (Nat.le_of_lt_succ hc) he)
  | removeConnectionInLoop conn =>
    obtain ⟨hlt, h⟩ := Option.ite_none_right_eq_some.mp h
    cases h
    exact ⟨hi.next_eq, hi.names_eq, List.forall_mem_cons.mpr ⟨hlt, hi.removed_lt⟩⟩

theorem start_numbered : start.Numbered name_ ipPort_ :=
  ⟨rfl, fun c hc => absurd hc (Nat.not_lt_zero c), fun _ hc => absurd hc List.not_mem_nil⟩

theorem Numbered.names_eq_iff {s : ConnectionMap} (hi : s.Numbered name_ ipPort_) (hp : ipPort_.length ≤ 21)
    {c d : ConnPtr} (hc : c < s.created) (hd : d < s.created) : s.names c = s.names d ↔ c ≡ d [MOD 2 ^ 32] := by
  rw [hi.names_eq c hc, hi.names_eq d hd, ← idOf_eq_iff]
  exact ⟨connName_injective hp, fun h => by rw [h]⟩

theorem Numbered.names_eq_next_iff {s : ConnectionMap} (hi : s.Numbered name_ ipPort_) (hp : ipPort_.length ≤ 21)
    {c : ConnPtr} (hc : c < s.created) :
    s.names c = connName name_ ipPort_ s.nextConnId_.toInt ↔ c ≡ s.created [MOD 2 ^ 32] := by
  rw [hi.names_eq c hc, hi.next_eq, ← idOf_eq_iff]
  exact ⟨connName_injective hp, fun h => by rw [h]⟩

theorem newConnection_live {s : ConnectionMap} (hi : s.Numbered name_ ipPort_) (c : ConnPtr) :
    (s.newConnection name_ ipPort_).Live c ↔ s.Live c ∨ c = s.created := by
  constructor
  · rintro ⟨hc, hr⟩
    exact (Nat.lt_succ_iff_lt_or_eq.mp hc).imp_left fun hlt => ⟨hlt, hr⟩
  · rintro (⟨hc, hr⟩ | rfl)
    · exact ⟨Nat.lt_succ_of_lt hc, hr⟩
    · exact ⟨Nat.lt_succ_self _, fun hm => Nat.lt_irrefl _ (hi.removed_lt _ hm)⟩

theorem newConnection_names (s : ConnectionMap) {c : ConnPtr} (hc : s.Live c) :
    (s.newConnection name_ ipPort_).names c = s.names c :=
  Function.update_of_ne (Nat.ne_of_lt hc.1) _ _

theorem newConnection_names_self (s : ConnectionMap) :
    (s.newConnection name_ ipPort_).names s.created = connName name_ ipPort_ s.nextConnId_.toInt :=
  Function.update_self ..

/-- An accept keeps the map exact unless a live connection has the new name. -/
theorem newConnection_exact_iff {s : ConnectionMap} (hi : s.Numbered name_ ipPort_) (hp : ipPort_.length ≤ 21)
    (he : s.Exact) : (s.newConnection name_ ipPort_).Exact ↔ s.NotReused .newConnection := by
  have hself : (s.newConnection name_ ipPort_).names s.created = _ := newConnection_names_self s
  constructor
  · intro hx c hc hm
    have hnames := (hi.names_eq_next_iff hp hc.1).mpr hm
    have heq := hx.distinct c s.created ((newConnection_live hi c).mpr (Or.inl hc))
      ((newConnection_live hi _).mpr (Or.inr rfl)) (by rw [newConnection_names s hc, hself, hnames])
    exact Nat.ne_of_lt hc.1 heq
  · intro hg
    have hnew : ∀ c, s.Live c → s.names c ≠ connName name_ ipPort_ s.nextConnId_.toInt := fun c hc hn =>
      hg c hc ((hi.names_eq_next_iff hp hc.1).mp hn)
    have hnone : s.connections_ (connName name_ ipPort_ s.nextConnId_.toInt) = none := by
      rw [Option.eq_none_iff_forall_ne_some]
      intro c hc
      obtain ⟨hl, hn⟩ := (he.holds _ c).mp hc
      exact hnew c hl hn
    refine ⟨fun c d hc hd hn => ?_, fun name c => ?_, ?_, he.no_misErased⟩
    · rcases (newConnection_live hi c).mp hc with hlc | rfl
      · rcases (newConnection_live hi d).mp hd with hld | rfl
        · rw [newConnection_names s hlc, newConnection_names s hld] at hn
          exact he.distinct c d hlc hld hn
        · rw [newConnection_names s hlc, hself] at hn
          exact absurd hn (hnew c hlc)
      · rcases (newConnection_live hi d).mp hd with hld | rfl
        · rw [newConnection_names s hld, hself] at hn
          exact absurd hn.symm (hnew d hld)
        · rfl
    · change Function.update s.connections_ _ _ name = _ ↔ _
      rw [newConnection_live hi]
      by_cases hn : name = connName name_ ipPort_ s.nextConnId_.toInt
      · rw [hn, Function.update_self, Option.some.injEq]
        constructor
        · rintro rfl
          exact ⟨Or.inr rfl, hself⟩
        · rintro ⟨hl | hc, hcn⟩
          · rw [newConnection_names s hl] at hcn
            exact absurd hcn (hnew c hl)
          · exact hc.symm
      · rw [Function.update_of_ne hn, he.holds]
        constructor
        · rintro ⟨hl, hcn⟩
          exact ⟨Or.inl hl, (newConnection_names s hl).trans hcn⟩
        · rintro ⟨hl | rfl, hcn⟩
          · exact ⟨hl, (newConnection_names s hl).symm.trans hcn⟩
          · exact absurd (hcn.symm.trans hself) hn
    · change s.replaced ++ (s.connections_ _).toList = []
      rw [hnone, he.no_replaced]
      rfl

theorem removeConnectionInLoop_live {s : ConnectionMap} (conn c : ConnPtr) :
    (s.removeConnectionInLoop conn).Live c ↔ s.Live c ∧ c ≠ conn := by
  simp only [Live, removeConnectionInLoop, List.mem_cons, not_or]
  tauto

/-- A removal keeps it exact unless it comes again, when the name is another's. -/
theorem removeConnectionInLoop_exact_iff {s : ConnectionMap} (hi : s.Numbered name_ ipPort_)
    (hp : ipPort_.length ≤ 21) (he : s.Exact) {conn : ConnPtr} (hc : conn < s.created) :
    (s.removeConnectionInLoop conn).Exact ↔ s.NotReused (.removeConnectionInLoop conn) := by
  constructor
  · intro hx
    by_contra hg
    simp only [NotReused, not_or, not_forall, not_not] at hg
    obtain ⟨hdead, c, hl, hm⟩ := hg
    have hcn : s.connections_ (s.names conn) = some c :=
      (he.holds _ c).mpr ⟨hl, (hi.names_eq_iff hp hl.1 hc).mpr hm⟩
    have hne : c ≠ conn := fun h => hdead (h ▸ hl)
    have hmis : s.misErased ++ ((s.connections_ (s.names conn)).filter (· ≠ conn)).toList = [] := hx.no_misErased
    simp [hcn, hne] at hmis
  · intro hg
    have hother : ∀ c, s.Live c → s.names c = s.names conn → c = conn := by
      intro c hl hn
      rcases hg with hlive | hnone
      · exact he.distinct c conn hl hlive hn
      · exact absurd ((hi.names_eq_iff hp hl.1 hc).mp hn) (hnone c hl)
    refine ⟨fun c d hlc hld hn => ?_, fun name c => ?_, he.no_replaced, ?_⟩
    · exact he.distinct c d ((removeConnectionInLoop_live conn c).mp hlc).1
        ((removeConnectionInLoop_live conn d).mp hld).1 hn
    · change Function.update s.connections_ (s.names conn) none name = _ ↔ _ ∧ s.names c = name
      rw [removeConnectionInLoop_live]
      by_cases hn : name = s.names conn
      · rw [hn, Function.update_self]
        refine iff_of_false (by simp) ?_
        rintro ⟨⟨hl, hne⟩, hcn⟩
        exact hne (hother c hl hcn)
      · rw [Function.update_of_ne hn, he.holds]
        constructor
        · rintro ⟨hl, hcn⟩
          exact ⟨⟨hl, fun h => hn (by rw [← hcn, h])⟩, hcn⟩
        · rintro ⟨⟨hl, -⟩, hcn⟩
          exact ⟨hl, hcn⟩
    · change s.misErased ++ ((s.connections_ (s.names conn)).filter (· ≠ conn)).toList = []
      rw [he.no_misErased, List.nil_append, Option.toList_eq_nil_iff, Option.filter_eq_none_iff]
      intro c hcn
      obtain ⟨hl, hn⟩ := (he.holds _ c).mp hcn
      simp [hother c hl hn]

theorem step_exact_iff {s s' : ConnectionMap} {op : MapOp} (hi : s.Numbered name_ ipPort_)
    (hp : ipPort_.length ≤ 21) (he : s.Exact) (h : s.Step name_ ipPort_ op s') : s'.Exact ↔ s.NotReused op := by
  cases op with
  | newConnection =>
    cases h
    exact newConnection_exact_iff hi hp he
  | removeConnectionInLoop conn =>
    obtain ⟨hc, h⟩ := Option.ite_none_right_eq_some.mp h
    cases h
    exact removeConnectionInLoop_exact_iff hi hp he hc

theorem start_exact : start.Exact :=
  ⟨fun c d hc => absurd hc.1 (Nat.not_lt_zero c), fun name c => iff_of_false (by simp [start])
    fun h => Nat.not_lt_zero c h.1.1, rfl, rfl⟩

/-- The map stays exact along a run exactly when no name comes round again while
a connection that has it is live. -/
theorem connections_exact_iff (name_ : List Char) (listenAddr : InetAddress) {ops : List MapOp} {s : ConnectionMap} :
    RunAlways (Step name_ listenAddr.toIpPort) (fun _ s => s.Exact) start ops s ↔
      Run (Guarded (Step name_ listenAddr.toIpPort) NotReused) start ops s := by
  refine runAlways_iff_guarded (I := Numbered name_ listenAddr.toIpPort) ?_ ?_ start_numbered start_exact
  · exact fun _ _ _ hi hs => step_numbered hi hs
  · exact fun _ _ _ _ hi he hs => step_exact_iff hi listenAddr.toIpPort_length he hs

/-- Accepts alone: every connection stays, and the last accept has the last word on
its name. -/
theorem exists_run_accepts (name_ ipPort_ : List Char) (n : Nat) :
    ∃ s, Run (Step name_ ipPort_) start (List.replicate (n + 1) .newConnection) s ∧ s.created = n + 1 ∧
      s.removed = [] ∧ s.Numbered name_ ipPort_ ∧ s.connections_ (s.names n) = some n := by
  have hlast : ∀ s : ConnectionMap, (s.newConnection name_ ipPort_).connections_
      ((s.newConnection name_ ipPort_).names s.created) = some s.created := by
    intro s
    rw [newConnection_names_self]
    exact Function.update_self ..
  induction n with
  | zero =>
    have hstep : start.Step name_ ipPort_ .newConnection (start.newConnection name_ ipPort_) := rfl
    exact ⟨_, .single hstep, rfl, rfl, step_numbered start_numbered hstep, hlast start⟩
  | succ n ih =>
    obtain ⟨s, hr, hc, hrem, hi, -⟩ := ih
    have hstep : s.Step name_ ipPort_ .newConnection (s.newConnection name_ ipPort_) := rfl
    refine ⟨s.newConnection name_ ipPort_, ?_, congrArg (· + 1) hc, hrem, step_numbered hi hstep, hc ▸ hlast s⟩
    rw [List.replicate_succ']
    exact hr.snoc hstep

/-- The first connection is still open when the counter comes round: its entry is
overwritten. -/
theorem connection_overwritten : ∃ s, Run (Step "s".toList (InetAddress.toIpPort ⟨fun _ => 1, 80⟩)) start
      (List.replicate (2 ^ 32 + 1) .newConnection) s ∧ s.Live 0 ∧ s.connections_ (s.names 0) = some (2 ^ 32) ∧
    ¬ s.Exact := by
  obtain ⟨s, hr, hc, hrem, hi, hlast⟩ :=
    exists_run_accepts "s".toList (InetAddress.toIpPort ⟨fun _ => 1, 80⟩) (2 ^ 32)
  have hlive : ∀ c, c < s.created → s.Live c := fun c h => ⟨h, by simp [hrem]⟩
  have hfirst : 0 < s.created := by omega
  have hnew : 2 ^ 32 < s.created := by omega
  have hnames : s.names 0 = s.names (2 ^ 32) :=
    (hi.names_eq_iff (InetAddress.toIpPort_length _) hfirst hnew).mpr (by decide)
  refine ⟨s, hr, hlive 0 hfirst, hnames ▸ hlast, fun he => ?_⟩
  exact absurd (he.distinct 0 (2 ^ 32) (hlive 0 hfirst) (hlive _ hnew) hnames) (by decide)

end ConnectionMap

end MyMuduo
