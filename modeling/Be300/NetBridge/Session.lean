/-
  Be300.NetBridge.Session — the flow tables of the network bridge, and everything that
  runs against them (`handleTCP`, `openTCP`, `connectTCP`, `readTCP`, the idle ticker,
  `closeTCP`; `proxyUDP`, `readUDP`, the idle timer, `closeUDP`).

  A flow is its number in the order of opening, one numbering for TCP and one for UDP.
  Each goroutine is a `Thread`: what it has still to do, with the flow objects it holds
  and the keys it was given. Threads take turns between any two critical sections. Frames
  arrive at any moment, each handled by a thread of its own, since a replaced browser's
  handler may still be in `handleEthernet`. What the host does is free: a dial may fail or
  succeed, a write may fail, a read may end and an idle check may pass at any moment. Of a
  segment's data path only what the flow keeps is here (`Tcp`).

  `closeTCP` and `closeUDP` take a key. The threads that call them hold a flow, which the
  key may no longer name. `Harms` is a step made for one flow that removes, closes or
  resets a later flow of the same key; `Clear` says that a step which closes or resets for
  a flow finds no later flow under its key. `flow_identity_iff`: a run harms no later flow
  exactly when all its steps are clear. `reader_closes_later_flow` is a run that does harm.
-/

import Be300.NetBridge.Tcp

namespace Be300.NetBridge.Session

open Be300.Lib (Seq)

/-! ## The system -/

structure UdpFlow where
  key : FlowKey
  /-- `flow.timer`: nil, or a timer and whether it is still to fire. -/
  timer : Option Bool
  closed : Bool
  deriving DecidableEq, Repr

/-- What a goroutine has still to do. In the closing threads `f` is the flow the caller
    held and `g` the one the table gave. -/
inductive Thread where
  | tcp (key : FlowKey) (seg : Segment)
  | tcpFound (key : FlowKey) (seg : Segment) (flow : Option Nat)
  | write (f : Nat) (key : FlowKey) (l : Locals)
  | reset (f : Nat) (key : FlowKey) (destroy : Bool)
  | dial (f : Nat)
  | dialFailed (f : Nat)
  | dialed (f : Nat)
  | install (f : Nat)
  | read (f : Nat)
  | tick (f : Nat)
  | closeTCP (f : Nat) (key : FlowKey) (destroy : Bool)
  | signal (f g : Nat) (destroy : Bool)
  | grab (f g : Nat) (destroy : Bool)
  | closeConn (f g : Nat)
  | udp (key : FlowKey)
  | udpDial (key : FlowKey)
  | udpFound (f : Nat)
  | readUDP (f : Nat)
  | closeUDP (f : Nat) (key : FlowKey)
  | stopUDP (f g : Nat)
  | closeUDPConn (f g : Nat)

structure St where
  tcp : FlowKey → Option Nat
  udp : FlowKey → Option Nat
  flows : List TcpFlow
  udpFlows : List UdpFlow
  nextSeq : Seq
  /-- The TCP flows whose host connection was closed, and those an RST was sent for. -/
  closedConns : List Nat
  resets : List Nat
  threads : List Thread

def start : St where
  tcp := fun _ => none
  udp := fun _ => none
  flows := []
  udpFlows := []
  nextSeq := 0x41000000
  closedConns := []
  resets := []
  threads := []

def setKey (m : FlowKey → Option Nat) (key : FlowKey) (v : Option Nat) : FlowKey → Option Nat :=
  fun k => if k = key then v else m k

def setFlow (s : St) (f : Nat) (fl : TcpFlow) : St := { s with flows := s.flows.set f fl }

def setUdp (s : St) (f : Nat) (u : UdpFlow) : St := { s with udpFlows := s.udpFlows.set f u }

def addFlow (s : St) (key : FlowKey) (seq : Seq) : St :=
  { s with
    flows := s.flows ++ [openTCP key s.nextSeq seq]
    nextSeq := s.nextSeq + 0x10000
    tcp := setKey s.tcp key (some s.flows.length) }

def addUdp (s : St) (key : FlowKey) : St :=
  { s with udpFlows := s.udpFlows ++ [⟨key, none, false⟩], udp := setKey s.udp key (some s.udpFlows.length) }

/-- One critical section of a thread, and the threads that go on after it. -/
inductive Act : St → Thread → St → List Thread → Prop
  | getTCP (s : St) (key : FlowKey) (seg : Segment) : Act s (.tcp key seg) s [.tcpFound key seg (s.tcp key)]
  | openTCP (s : St) (key : FlowKey) (seg : Segment) : seg.syn = true →
      Act s (.tcpFound key seg none) (addFlow s key seg.seq)
        [.tcpFound key seg (some s.flows.length), .dial s.flows.length]
  | syn (s : St) (key : FlowKey) (seg : Segment) (f : Nat) (fl : TcpFlow) : seg.syn = true → s.flows[f]? = some fl →
      Act s (.tcpFound key seg (some f)) (setFlow s f (handleSYN fl seg)) []
  | noFlow (s : St) (key : FlowKey) (seg : Segment) : seg.syn = false → Act s (.tcpFound key seg none) s []
  | rst (s : St) (key : FlowKey) (seg : Segment) (f : Nat) : seg.syn = false → seg.rst = true →
      Act s (.tcpFound key seg (some f)) s [.closeTCP f key true]
  | segment (s : St) (key : FlowKey) (seg : Segment) (f : Nat) (fl : TcpFlow) : seg.syn = false → seg.rst = false →
      s.flows[f]? = some fl →
      Act s (.tcpFound key seg (some f)) (setFlow s f (handleLocked fl seg).1) [.write f key (handleLocked fl seg).2]
  | written (s : St) (f : Nat) (key : FlowKey) (l : Locals) : Act s (.write f key l) s []
  | writeFail (s : St) (f : Nat) (key : FlowKey) (l : Locals) : l.data ≠ [] → l.conn = true →
      Act s (.write f key l) s [.reset f key true]
  /-- `sendTCP(flow, 0x14, nil)`, before the `closeTCP`. -/
  | reset (s : St) (f : Nat) (key : FlowKey) (destroy : Bool) :
      Act s (.reset f key destroy) { s with resets := s.resets ++ [f] } [.closeTCP f key destroy]
  | dialFail (s : St) (f : Nat) : Act s (.dial f) s [.dialFailed f]
  | dialOk (s : St) (f : Nat) : Act s (.dial f) s [.dialed f]
  | failedGone (s : St) (f : Nat) (fl : TcpFlow) : s.flows[f]? = some fl → s.tcp fl.key ≠ some f →
      Act s (.dialFailed f) s []
  | failed (s : St) (f : Nat) (fl : TcpFlow) : s.flows[f]? = some fl → s.tcp fl.key = some f →
      Act s (.dialFailed f) s [.reset f fl.key false]
  | dialedGone (s : St) (f : Nat) (fl : TcpFlow) : s.flows[f]? = some fl → s.tcp fl.key ≠ some f → Act s (.dialed f) s []
  | dialed (s : St) (f : Nat) (fl : TcpFlow) : s.flows[f]? = some fl → s.tcp fl.key = some f →
      Act s (.dialed f) s [.install f]
  | install (s : St) (f : Nat) (fl : TcpFlow) : s.flows[f]? = some fl →
      Act s (.install f) (setFlow s f { (connectLocked fl).1 with connected := true }) [.read f, .tick f]
  | installFail (s : St) (f : Nat) (fl : TcpFlow) : s.flows[f]? = some fl → (connectLocked fl).2 ≠ [] →
      Act s (.install f) (setFlow s f (connectLocked fl).1) [.closeTCP f fl.key true]
  /-- `readTCP` returns: its deferred `closeTCP` is due. -/
  | readEnd (s : St) (f : Nat) (fl : TcpFlow) : s.flows[f]? = some fl → Act s (.read f) s [.closeTCP f fl.key true]
  | tickDone (s : St) (f : Nat) (fl : TcpFlow) : s.flows[f]? = some fl → fl.done = true → Act s (.tick f) s []
  | tickIdle (s : St) (f : Nat) (fl : TcpFlow) : s.flows[f]? = some fl → Act s (.tick f) s [.closeTCP f fl.key true]
  | closeNone (s : St) (f : Nat) (key : FlowKey) (destroy : Bool) : s.tcp key = none → Act s (.closeTCP f key destroy) s []
  | remove (s : St) (f : Nat) (key : FlowKey) (destroy : Bool) (g : Nat) : s.tcp key = some g →
      Act s (.closeTCP f key destroy) { s with tcp := setKey s.tcp key none } [.signal f g destroy]
  | signal (s : St) (f g : Nat) (destroy : Bool) (gl : TcpFlow) : s.flows[g]? = some gl →
      Act s (.signal f g destroy) (setFlow s g { gl with done := true }) [.grab f g destroy]
  | grab (s : St) (f g : Nat) (destroy : Bool) (gl : TcpFlow) : s.flows[g]? = some gl →
      Act s (.grab f g destroy) (setFlow s g (closeLocked gl).1)
        (if destroy && (closeLocked gl).2 then [.closeConn f g] else [])
  | closeConn (s : St) (f g : Nat) : Act s (.closeConn f g) { s with closedConns := s.closedConns ++ [g] } []
  | getUDP (s : St) (key : FlowKey) (f : Nat) : s.udp key = some f → Act s (.udp key) s [.udpFound f]
  | noUDP (s : St) (key : FlowKey) : s.udp key = none → Act s (.udp key) s [.udpDial key]
  | udpDialFail (s : St) (key : FlowKey) : Act s (.udpDial key) s []
  | openUDP (s : St) (key : FlowKey) : s.udp key = none →
      Act s (.udpDial key) (addUdp s key) [.udpFound s.udpFlows.length, .readUDP s.udpFlows.length]
  /-- Another frame opened the flow meanwhile: the connection just dialed is dropped. -/
  | takenUDP (s : St) (key : FlowKey) (f : Nat) : s.udp key = some f → Act s (.udpDial key) s [.udpFound f]
  | setTimer (s : St) (f : Nat) (u : UdpFlow) : s.udpFlows[f]? = some u →
      Act s (.udpFound f) (setUdp s f { u with timer := some true }) []
  | readUDPEnd (s : St) (f : Nat) (u : UdpFlow) : s.udpFlows[f]? = some u → Act s (.readUDP f) s [.closeUDP f u.key]
  | closeUDPNone (s : St) (f : Nat) (key : FlowKey) : s.udp key = none → Act s (.closeUDP f key) s []
  | removeUDP (s : St) (f : Nat) (key : FlowKey) (g : Nat) : s.udp key = some g →
      Act s (.closeUDP f key) { s with udp := setKey s.udp key none } [.stopUDP f g]
  | stopUDP (s : St) (f g : Nat) (u : UdpFlow) : s.udpFlows[g]? = some u →
      Act s (.stopUDP f g) (setUdp s g { u with timer := none }) [.closeUDPConn f g]
  | closeUDPConn (s : St) (f g : Nat) (u : UdpFlow) : s.udpFlows[g]? = some u →
      Act s (.closeUDPConn f g) (setUdp s g { u with closed := true }) []

inductive Label where
  | tcpFrame
  | udpFrame
  | fire (f : Nat)
  | run (t : Thread)

inductive Step : St → Label → St → Prop
  | tcpFrame (s : St) (key : FlowKey) (seg : Segment) :
      Step s .tcpFrame { s with threads := s.threads ++ [.tcp key seg] }
  | udpFrame (s : St) (key : FlowKey) : Step s .udpFrame { s with threads := s.threads ++ [.udp key] }
  /-- The idle timer of a UDP flow fires: its function runs on a goroutine of its own. -/
  | fire (s : St) (f : Nat) (u : UdpFlow) : s.udpFlows[f]? = some u → u.timer = some true →
      Step s (.fire f) { setUdp s f { u with timer := some false } with threads := s.threads ++ [.closeUDP f u.key] }
  | run (s s1 : St) (pre post ts : List Thread) (t : Thread) : s.threads = pre ++ t :: post → Act s t s1 ts →
      Step s (.run t) { s1 with threads := pre ++ ts ++ post }

/-- A run from the start, as its steps with the states before and after them. -/
inductive Run : List (St × Label × St) → St → Prop
  | nil : Run [] start
  | snoc {tr : List (St × Label × St)} {s s' : St} {l : Label} : Run tr s → Step s l s' → Run (tr ++ [(s, l, s')]) s'

/-! ## Harm to a later flow -/

/-- The flow a step is made for. -/
inductive Owner where
  | guest
  | tcp (f : Nat)
  | udp (f : Nat)
  deriving DecidableEq, Repr

def Thread.owner : Thread → Owner
  | .tcp _ _ | .tcpFound _ _ none | .udp _ | .udpDial _ => .guest
  | .tcpFound _ _ (some f) | .write f _ _ | .reset f _ _ | .dial f | .dialFailed f | .dialed f | .install f | .read f
  | .tick f | .closeTCP f _ _ | .signal f _ _ | .grab f _ _ | .closeConn f _ => .tcp f
  | .udpFound f | .readUDP f | .closeUDP f _ | .stopUDP f _ | .closeUDPConn f _ => .udp f

def Label.owner : Label → Owner
  | .tcpFrame | .udpFrame => .guest
  | .fire f => .udp f
  | .run t => t.owner

/-- The TCP flow `g` leaves the table, its `done` or its host connection is closed, its
    `conn` is taken away, or an RST goes out under its addresses. -/
def HurtTCP (s s' : St) (g : Nat) (gl : TcpFlow) : Prop :=
  (s.tcp gl.key = some g ∧ s'.tcp gl.key ≠ some g) ∨
  (∃ gl', s'.flows[g]? = some gl' ∧ (gl.done = false ∧ gl'.done = true ∨ gl.conn = true ∧ gl'.conn = false)) ∨
  (g ∉ s.closedConns ∧ g ∈ s'.closedConns) ∨
  (s.tcp gl.key = some g ∧ s'.resets ≠ s.resets)

/-- The UDP flow `g` leaves the table, its connection is closed or its timer stopped. -/
def HurtUDP (s s' : St) (g : Nat) (gl : UdpFlow) : Prop :=
  (s.udp gl.key = some g ∧ s'.udp gl.key ≠ some g) ∨
  ∃ gl', s'.udpFlows[g]? = some gl' ∧ (gl.closed = false ∧ gl'.closed = true ∨ gl.timer ≠ none ∧ gl'.timer = none)

/-- A step made for a flow hurts a later flow of the same key. -/
def Harms (s : St) (l : Label) (s' : St) : Prop :=
  match l.owner with
  | .guest => False
  | .tcp f => ∃ fl g gl, s.flows[f]? = some fl ∧ s.flows[g]? = some gl ∧ f < g ∧ fl.key = gl.key ∧ HurtTCP s s' g gl
  | .udp f => ∃ fl g gl, s.udpFlows[f]? = some fl ∧ s.udpFlows[g]? = some gl ∧ f < g ∧ fl.key = gl.key ∧
      HurtUDP s s' g gl

/-- A lookup to close, or an RST, made for a flow finds no later flow under the key. -/
def Clear (s : St) : Label → Prop
  | .run (.closeTCP f key _) | .run (.reset f key _) => ∀ g, s.tcp key = some g → g ≤ f
  | .run (.closeUDP f key) => ∀ g, s.udp key = some g → g ≤ f
  | _ => True

/-! ## Keys -/

/-- The key a flow was opened under. -/
def keyOf (s : St) (f : Nat) : Option FlowKey := s.flows[f]?.map TcpFlow.key

def udpKeyOf (s : St) (f : Nat) : Option FlowKey := s.udpFlows[f]?.map UdpFlow.key

/-- A thread that was given a flow's key holds that flow. -/
def Thread.Keyed (s : St) : Thread → Prop
  | .tcpFound key _ (some f) | .write f key _ | .reset f key _ | .closeTCP f key _ => keyOf s f = some key
  | .closeUDP f key => udpKeyOf s f = some key
  | _ => True

structure Tables (s : St) : Prop where
  tcp : ∀ k g, s.tcp k = some g → keyOf s g = some k
  udp : ∀ k g, s.udp k = some g → udpKeyOf s g = some k

structure Wf (s : St) : Prop extends Tables s where
  threads : ∀ t ∈ s.threads, t.Keyed s

/-- Flows keep their keys, and are never forgotten. -/
structure Keeps (s s' : St) : Prop where
  tcp : ∀ f k, keyOf s f = some k → keyOf s' f = some k
  udp : ∀ f k, udpKeyOf s f = some k → udpKeyOf s' f = some k

theorem setKey_eq {m : FlowKey → Option Nat} {key k : FlowKey} {v : Option Nat} {g : Nat} (h : setKey m key v k = some g) :
    (k = key ∧ v = some g) ∨ m k = some g := by
  unfold setKey at h
  split at h
  · exact .inl ⟨‹_›, h⟩
  · exact .inr h

theorem keyOf_setFlow {s : St} {f : Nat} {fl fl' : TcpFlow} (h : s.flows[f]? = some fl) (hk : fl'.key = fl.key) (g : Nat) :
    keyOf (setFlow s f fl') g = keyOf s g := by
  simp only [keyOf, setFlow, List.getElem?_set]
  split
  · rename_i hfg
    subst hfg
    obtain ⟨hlt, he⟩ := List.getElem?_eq_some_iff.mp h
    simp [hlt, he, hk]
  · rfl

theorem udpKeyOf_setUdp {s : St} {f : Nat} {u u' : UdpFlow} (h : s.udpFlows[f]? = some u) (hk : u'.key = u.key) (g : Nat) :
    udpKeyOf (setUdp s f u') g = udpKeyOf s g := by
  simp only [udpKeyOf, setUdp, List.getElem?_set]
  split
  · rename_i hfg
    subst hfg
    obtain ⟨hlt, he⟩ := List.getElem?_eq_some_iff.mp h
    simp [hlt, he, hk]
  · rfl

theorem keyOf_addFlow (s : St) (key : FlowKey) (seq : Seq) {f : Nat} {k : FlowKey} (h : keyOf s f = some k) :
    keyOf (addFlow s key seq) f = some k := by
  obtain ⟨fl, hf, -⟩ := Option.map_eq_some_iff.mp h
  obtain ⟨hlt, -⟩ := List.getElem?_eq_some_iff.mp hf
  simpa [keyOf, addFlow, List.getElem?_append_left hlt] using h

theorem keyOf_added (s : St) (key : FlowKey) (seq : Seq) : keyOf (addFlow s key seq) s.flows.length = some key := by
  simp [keyOf, addFlow, openTCP]

theorem udpKeyOf_addUdp (s : St) (key : FlowKey) {f : Nat} {k : FlowKey} (h : udpKeyOf s f = some k) :
    udpKeyOf (addUdp s key) f = some k := by
  obtain ⟨fl, hf, -⟩ := Option.map_eq_some_iff.mp h
  obtain ⟨hlt, -⟩ := List.getElem?_eq_some_iff.mp hf
  simpa [udpKeyOf, addUdp, List.getElem?_append_left hlt] using h

theorem udpKeyOf_added (s : St) (key : FlowKey) : udpKeyOf (addUdp s key) s.udpFlows.length = some key := by
  simp [udpKeyOf, addUdp]

theorem Keeps.keyed {s s' : St} (h : Keeps s s') {t : Thread} (ht : t.Keyed s) : t.Keyed s' := by
  cases t with
  | tcpFound key seg flow =>
    cases flow with
    | none => trivial
    | some f => exact h.tcp _ _ ht
  | write f key l => exact h.tcp _ _ ht
  | reset f key d => exact h.tcp _ _ ht
  | closeTCP f key d => exact h.tcp _ _ ht
  | closeUDP f key => exact h.udp _ _ ht
  | _ => trivial

theorem handleACK_key (fl : TcpFlow) (seg : Segment) : (handleACK fl seg).key = fl.key := by
  unfold handleACK
  split <;> rfl

theorem handleLocked_key (fl : TcpFlow) (seg : Segment) : (handleLocked fl seg).1.key = fl.key := by
  simp only [handleLocked]
  split <;> exact handleACK_key fl seg

/-- What every act leaves: the keys of the flows, true tables, and threads that were given
    the keys of the flows they hold. -/
structure ActOk (s s1 : St) (ts : List Thread) : Prop where
  keeps : Keeps s s1
  tables : Tables s1
  keyed : ∀ t ∈ ts, t.Keyed s1

section Acts

variable {s s1 : St} {t : Thread} {ts : List Thread}

theorem actOk_same (h : Tables s) (hts : ∀ t ∈ ts, t.Keyed s) : ActOk s s ts := ⟨⟨fun _ _ h => h, fun _ _ h => h⟩, h, hts⟩

theorem actOk_setFlow (h : Tables s) {f : Nat} {fl fl' : TcpFlow} (hf : s.flows[f]? = some fl) (hk : fl'.key = fl.key)
    (hts : ∀ t ∈ ts, t.Keyed s) : ActOk s (setFlow s f fl') ts := by
  have hkeys := keyOf_setFlow hf hk
  have hkeeps : Keeps s (setFlow s f fl') := ⟨fun g k h => (hkeys g).trans h, fun _ _ h => h⟩
  exact ⟨hkeeps, ⟨fun k g hg => (hkeys g).trans (h.tcp k g hg), h.udp⟩, fun t ht => hkeeps.keyed (hts t ht)⟩

theorem actOk_setUdp (h : Tables s) {f : Nat} {u u' : UdpFlow} (hf : s.udpFlows[f]? = some u) (hk : u'.key = u.key)
    (hts : ∀ t ∈ ts, t.Keyed s) : ActOk s (setUdp s f u') ts := by
  have hkeys := udpKeyOf_setUdp hf hk
  have hkeeps : Keeps s (setUdp s f u') := ⟨fun _ _ h => h, fun g k h => (hkeys g).trans h⟩
  exact ⟨hkeeps, ⟨h.tcp, fun k g hg => (hkeys g).trans (h.udp k g hg)⟩, fun t ht => hkeeps.keyed (hts t ht)⟩

theorem act_ok (ha : Act s t s1 ts) (hw : Tables s) (ht : t.Keyed s) : ActOk s s1 ts := by
  cases ha with
  | getTCP key seg =>
    refine actOk_same hw fun t ht => ?_
    rw [List.mem_singleton.mp ht]
    cases hf : s.tcp key with
    | none => trivial
    | some f => exact hw.tcp key f hf
  | openTCP key seg _ =>
    refine ⟨⟨fun _ _ h => keyOf_addFlow s key seg.seq h, fun _ _ h => h⟩, ⟨fun k g hg => ?_, hw.udp⟩, fun t ht => ?_⟩
    · rcases setKey_eq hg with ⟨rfl, hv⟩ | hm
      · cases hv
        exact keyOf_added s _ seg.seq
      · exact keyOf_addFlow s key seg.seq (hw.tcp k g hm)
    · rcases List.mem_cons.mp ht with rfl | ht
      · exact keyOf_added s key seg.seq
      · rw [List.mem_singleton.mp ht]
        trivial
  | syn key seg f fl _ hf => exact actOk_setFlow hw hf rfl (by simp)
  | rst key seg f _ _ =>
    refine actOk_same hw fun t' ht' => ?_
    rw [List.mem_singleton.mp ht']
    exact ht
  | segment key seg f fl _ _ hf =>
    refine actOk_setFlow hw hf (handleLocked_key fl seg) fun t' ht' => ?_
    rw [List.mem_singleton.mp ht']
    exact ht
  | writeFail f key l _ _ =>
    refine actOk_same hw fun t' ht' => ?_
    rw [List.mem_singleton.mp ht']
    exact ht
  | reset f key d =>
    refine ⟨⟨fun _ _ h => h, fun _ _ h => h⟩, ⟨hw.tcp, hw.udp⟩, fun t' ht' => ?_⟩
    rw [List.mem_singleton.mp ht']
    exact ht
  | failed f fl hf _ =>
    refine actOk_same hw fun t' ht' => ?_
    rw [List.mem_singleton.mp ht']
    simp [Thread.Keyed, keyOf, hf]
  | install f fl hf =>
    refine actOk_setFlow hw hf rfl fun t' ht' => ?_
    rcases List.mem_cons.mp ht' with rfl | ht'
    · trivial
    · rw [List.mem_singleton.mp ht']
      trivial
  | installFail f fl hf _ =>
    refine actOk_setFlow hw hf rfl fun t' ht' => ?_
    rw [List.mem_singleton.mp ht']
    simp [Thread.Keyed, keyOf, hf]
  | readEnd f fl hf =>
    refine actOk_same hw fun t' ht' => ?_
    rw [List.mem_singleton.mp ht']
    simp [Thread.Keyed, keyOf, hf]
  | tickIdle f fl hf =>
    refine actOk_same hw fun t' ht' => ?_
    rw [List.mem_singleton.mp ht']
    simp [Thread.Keyed, keyOf, hf]
  | remove f key d g _ =>
    refine ⟨⟨fun _ _ h => h, fun _ _ h => h⟩, ⟨fun k g hg => ?_, hw.udp⟩, fun t' ht' => ?_⟩
    · rcases setKey_eq hg with ⟨-, hv⟩ | hm
      · cases hv
      · exact hw.tcp k g hm
    · rw [List.mem_singleton.mp ht']
      trivial
  | signal f g d gl hg =>
    refine actOk_setFlow hw hg rfl fun t' ht' => ?_
    rw [List.mem_singleton.mp ht']
    trivial
  | grab f g d gl hg =>
    refine actOk_setFlow hw hg rfl fun t' ht' => ?_
    split at ht'
    · rw [List.mem_singleton.mp ht']
      trivial
    · cases ht'
  | closeConn f g => exact ⟨⟨fun _ _ h => h, fun _ _ h => h⟩, ⟨hw.tcp, hw.udp⟩, by simp⟩
  | openUDP key _ =>
    refine ⟨⟨fun _ _ h => h, fun _ _ h => udpKeyOf_addUdp s key h⟩, ⟨hw.tcp, fun k g hg => ?_⟩, fun t ht => ?_⟩
    · rcases setKey_eq hg with ⟨rfl, hv⟩ | hm
      · cases hv
        exact udpKeyOf_added s _
      · exact udpKeyOf_addUdp s key (hw.udp k g hm)
    · rcases List.mem_cons.mp ht with rfl | ht
      · trivial
      · rw [List.mem_singleton.mp ht]
        trivial
  | setTimer f u hu => exact actOk_setUdp hw hu rfl (by simp)
  | readUDPEnd f u hu =>
    refine actOk_same hw fun t' ht' => ?_
    rw [List.mem_singleton.mp ht']
    simp [Thread.Keyed, udpKeyOf, hu]
  | removeUDP f key g _ =>
    refine ⟨⟨fun _ _ h => h, fun _ _ h => h⟩, ⟨hw.tcp, fun k g hg => ?_⟩, fun t' ht' => ?_⟩
    · rcases setKey_eq hg with ⟨-, hv⟩ | hm
      · cases hv
      · exact hw.udp k g hm
    · rw [List.mem_singleton.mp ht']
      trivial
  | stopUDP f g u hu =>
    refine actOk_setUdp hw hu rfl fun t' ht' => ?_
    rw [List.mem_singleton.mp ht']
    trivial
  | closeUDPConn f g u hu => exact actOk_setUdp hw hu rfl (by simp)
  | _ => exact actOk_same hw (by simp [Thread.Keyed])

end Acts

theorem step_wf {s s' : St} {l : Label} (hs : Step s l s') (hw : Wf s) : Wf s' := by
  cases hs with
  | tcpFrame key seg =>
    refine ⟨⟨hw.tcp, hw.udp⟩, fun t ht => ?_⟩
    rcases List.mem_append.mp ht with ht | ht
    · exact hw.threads t ht
    · rw [List.mem_singleton.mp ht]
      trivial
  | udpFrame key =>
    refine ⟨⟨hw.tcp, hw.udp⟩, fun t ht => ?_⟩
    rcases List.mem_append.mp ht with ht | ht
    · exact hw.threads t ht
    · rw [List.mem_singleton.mp ht]
      trivial
  | fire f u hu _ =>
    have h := actOk_setUdp hw.toTables hu (show { u with timer := some false }.key = u.key from rfl) hw.threads
    refine ⟨⟨h.tables.tcp, h.tables.udp⟩, fun t ht => ?_⟩
    rcases List.mem_append.mp ht with ht | ht
    · exact h.keyed t ht
    · rw [List.mem_singleton.mp ht]
      exact h.keeps.udp f u.key (by simp [udpKeyOf, hu])
  | run s1 pre post ts t hthreads ha =>
    have hkeyed : ∀ t' ∈ pre ++ t :: post, t'.Keyed s := hthreads ▸ hw.threads
    have h := act_ok ha hw.toTables (hkeyed t (by simp))
    refine ⟨⟨h.tables.tcp, h.tables.udp⟩, fun t' ht' => ?_⟩
    rcases List.mem_append.mp ht' with ht' | ht'
    · rcases List.mem_append.mp ht' with ht' | ht'
      · exact h.keeps.keyed (hkeyed t' (by simp [ht']))
      · exact h.keyed t' ht'
    · exact h.keeps.keyed (hkeyed t' (by simp [ht']))

/-! ## A step that is not clear does harm -/

theorem keyOf_some {s : St} {f : Nat} {k : FlowKey} (h : keyOf s f = some k) : ∃ fl, s.flows[f]? = some fl ∧ fl.key = k :=
  Option.map_eq_some_iff.mp h

theorem udpKeyOf_some {s : St} {f : Nat} {k : FlowKey} (h : udpKeyOf s f = some k) :
    ∃ u, s.udpFlows[f]? = some u ∧ u.key = k := Option.map_eq_some_iff.mp h

theorem harms_of_not_clear {s s' : St} {l : Label} (hs : Step s l s') (hw : Wf s) (hc : ¬ Clear s l) : Harms s l s' := by
  cases hs with
  | run s1 pre post ts t hthreads ha =>
    have hkeyed : t.Keyed s := hw.threads t (by simp [hthreads])
    cases ha with
    | closeNone f key d hnone => exact absurd (fun g hg => by rw [hnone] at hg; cases hg) hc
    | remove f key d g hg =>
      have hlt : f < g := by
        by_contra hge
        exact hc fun g' hg' => by rw [hg] at hg'; cases hg'; omega
      obtain ⟨fl, hf, rfl⟩ := keyOf_some hkeyed
      obtain ⟨gl, hgl, hkey⟩ := keyOf_some (hw.tcp _ _ hg)
      exact ⟨fl, g, gl, hf, hgl, hlt, hkey.symm, .inl ⟨by rw [hkey]; exact hg, by simp [hkey, setKey]⟩⟩
    | reset f key d =>
      have : ∃ g, s.tcp key = some g ∧ f < g := by
        by_contra hnone
        exact hc fun g hg => by
          by_contra hlt
          exact hnone ⟨g, hg, by omega⟩
      obtain ⟨g, hg, hlt⟩ := this
      obtain ⟨fl, hf, rfl⟩ := keyOf_some hkeyed
      obtain ⟨gl, hgl, hkey⟩ := keyOf_some (hw.tcp _ _ hg)
      exact ⟨fl, g, gl, hf, hgl, hlt, hkey.symm, .inr (.inr (.inr ⟨by rw [hkey]; exact hg, by simp⟩))⟩
    | closeUDPNone f key hnone => exact absurd (fun g hg => by rw [hnone] at hg; cases hg) hc
    | removeUDP f key g hg =>
      have hlt : f < g := by
        by_contra hge
        exact hc fun g' hg' => by rw [hg] at hg'; cases hg'; omega
      obtain ⟨fl, hf, rfl⟩ := udpKeyOf_some hkeyed
      obtain ⟨gl, hgl, hkey⟩ := udpKeyOf_some (hw.udp _ _ hg)
      exact ⟨fl, g, gl, hf, hgl, hlt, hkey.symm, .inl ⟨by rw [hkey]; exact hg, by simp [hkey, setKey]⟩⟩
    | _ => exact absurd trivial hc
  | _ => exact absurd trivial hc

/-! ## Clear steps harm nobody -/

/-- What a closing thread found in the table is no later flow than the one it closes for. -/
def Thread.Aimed : Thread → Prop
  | .signal f g _ | .grab f g _ | .closeConn f g | .stopUDP f g | .closeUDPConn f g => g ≤ f
  | _ => True

theorem act_aimed {s s1 : St} {t : Thread} {ts : List Thread} (ha : Act s t s1 ts) (ht : t.Aimed)
    (hc : Clear s (.run t)) : ∀ t' ∈ ts, t'.Aimed := by
  cases ha with
  | remove f key d g hg =>
    intro t' ht'
    rw [List.mem_singleton.mp ht']
    exact hc g hg
  | removeUDP f key g hg =>
    intro t' ht'
    rw [List.mem_singleton.mp ht']
    exact hc g hg
  | signal f g d gl hg =>
    intro t' ht'
    rw [List.mem_singleton.mp ht']
    exact ht
  | stopUDP f g u hu =>
    intro t' ht'
    rw [List.mem_singleton.mp ht']
    exact ht
  | grab f g d gl hg =>
    intro t' ht'
    split at ht'
    · rw [List.mem_singleton.mp ht']
      exact ht
    · cases ht'
  | _ => simp [Thread.Aimed]

theorem step_aimed {s s' : St} {l : Label} (hs : Step s l s') (ht : ∀ t ∈ s.threads, t.Aimed) (hc : Clear s l) :
    ∀ t ∈ s'.threads, t.Aimed := by
  cases hs with
  | run s1 pre post ts t hthreads ha =>
    rw [hthreads] at ht
    have hnew := act_aimed ha (ht t (by simp)) hc
    intro t' ht'
    simp only [List.mem_append] at ht'
    rcases ht' with (ht' | ht') | ht'
    · exact ht t' (by simp [ht'])
    · exact hnew t' ht'
    · exact ht t' (by simp [ht'])
  | _ =>
    intro t' ht'
    rcases List.mem_append.mp ht' with ht' | ht'
    · exact ht t' ht'
    · rw [List.mem_singleton.mp ht']
      trivial

section Harmless

variable {s s' : St} {f g : Nat}

/-- A flow is not hurt by a change of another flow's record. -/
theorem not_hurtTCP {gl : TcpFlow} (h : HurtTCP s s' g gl) (hg : s.flows[g]? = some gl)
    (htcp : s.tcp gl.key = some g → s'.tcp gl.key = some g)
    (hflow : s'.flows[g]? = s.flows[g]?) (hconn : g ∈ s'.closedConns → g ∈ s.closedConns)
    (hreset : s.tcp gl.key = some g → s'.resets = s.resets) : False := by
  rcases h with ⟨h1, h2⟩ | ⟨gl', h1, h2⟩ | ⟨h1, h2⟩ | ⟨h1, h2⟩
  · exact h2 (htcp h1)
  · rw [hflow, hg] at h1
    cases h1
    rcases h2 with ⟨h2, h3⟩ | ⟨h2, h3⟩ <;> simp [h2] at h3
  · exact h1 (hconn h2)
  · exact h2 (hreset h1)

theorem not_hurtUDP {gl : UdpFlow} (h : HurtUDP s s' g gl) (hg : s.udpFlows[g]? = some gl)
    (hudp : s.udp gl.key = some g → s'.udp gl.key = some g)
    (hflow : s'.udpFlows[g]? = s.udpFlows[g]?) : False := by
  rcases h with ⟨h1, h2⟩ | ⟨gl', h1, h2⟩
  · exact h2 (hudp h1)
  · rw [hflow, hg] at h1
    cases h1
    rcases h2 with ⟨h2, h3⟩ | ⟨h2, h3⟩
    · simp [h2] at h3
    · exact h2 h3

theorem setFlow_other {fl : TcpFlow} (h : f < g ∨ g < f) : (setFlow s f fl).flows[g]? = s.flows[g]? :=
  List.getElem?_set_ne (by omega)

theorem setUdp_other {u : UdpFlow} (h : f < g ∨ g < f) : (setUdp s f u).udpFlows[g]? = s.udpFlows[g]? :=
  List.getElem?_set_ne (by omega)

/-- A clear lookup under the key of a later flow does not find that flow. -/
theorem setKey_other {m : FlowKey → Option Nat} {key k : FlowKey} {g0 : Nat} (hm : m key = some g0) (hc : g0 ≤ f)
    (hlt : f < g) (hk : m k = some g) : setKey m key none k = some g := by
  unfold setKey
  split
  · rename_i h
    rw [h, hm] at hk
    cases hk
    omega
  · exact hk

end Harmless

theorem not_harms_act {s s1 : St} {t : Thread} {ts : List Thread} (ha : Act s t s1 ts) (hk : t.Keyed s)
    (ht : t.Aimed) (hc : Clear s (.run t)) (threads : List Thread) : ¬ Harms s (.run t) { s1 with threads := threads } := by
  cases ha with
  | getTCP | openTCP | noFlow | getUDP | noUDP | udpDialFail | openUDP | takenUDP => exact fun h => h
  | syn key seg f fl _ _ =>
    rintro ⟨_, g, gl, _, hg, hlt, _, h⟩
    exact not_hurtTCP h hg (fun h => h) (setFlow_other (.inl hlt)) (fun h => h) (fun _ => rfl)
  | segment key seg f fl _ _ _ =>
    rintro ⟨_, g, gl, _, hg, hlt, _, h⟩
    exact not_hurtTCP h hg (fun h => h) (setFlow_other (.inl hlt)) (fun h => h) (fun _ => rfl)
  | install f fl _ =>
    rintro ⟨_, g, gl, _, hg, hlt, _, h⟩
    exact not_hurtTCP h hg (fun h => h) (setFlow_other (.inl hlt)) (fun h => h) (fun _ => rfl)
  | installFail f fl _ _ =>
    rintro ⟨_, g, gl, _, hg, hlt, _, h⟩
    exact not_hurtTCP h hg (fun h => h) (setFlow_other (.inl hlt)) (fun h => h) (fun _ => rfl)
  | reset f key d =>
    rintro ⟨fl, g, gl, hf, hg, hlt, hkey, h⟩
    have hfl : fl.key = key := by simpa [Thread.Keyed, keyOf, hf] using hk
    refine not_hurtTCP h hg (fun h => h) rfl (fun h => h) (fun hmine => ?_)
    have := hc g (by rw [← hfl, hkey]; exact hmine)
    omega
  | remove f key d g0 hg0 =>
    rintro ⟨_, g, gl, _, hg, hlt, _, h⟩
    exact not_hurtTCP h hg (setKey_other hg0 (hc g0 hg0) hlt) rfl (fun h => h) (fun _ => rfl)
  | signal f g0 d gl0 _ =>
    rintro ⟨_, g, gl, _, hg, hlt, _, h⟩
    have haim : g0 ≤ f := ht
    exact not_hurtTCP h hg (fun h => h) (setFlow_other (.inl (by omega))) (fun h => h) (fun _ => rfl)
  | grab f g0 d gl0 _ =>
    rintro ⟨_, g, gl, _, hg, hlt, _, h⟩
    have haim : g0 ≤ f := ht
    exact not_hurtTCP h hg (fun h => h) (setFlow_other (.inl (by omega))) (fun h => h) (fun _ => rfl)
  | closeConn f g0 =>
    rintro ⟨_, g, gl, _, hg, hlt, _, h⟩
    have haim : g0 ≤ f := ht
    refine not_hurtTCP h hg (fun h => h) rfl (fun hmem => ?_) (fun _ => rfl)
    rcases List.mem_append.mp hmem with hmem | hmem
    · exact hmem
    · rw [List.mem_singleton] at hmem
      omega
  | setTimer f u _ =>
    rintro ⟨_, g, gl, _, hg, hlt, _, h⟩
    exact not_hurtUDP h hg (fun h => h) (setUdp_other (.inl hlt))
  | removeUDP f key g0 hg0 =>
    rintro ⟨_, g, gl, _, hg, hlt, _, h⟩
    exact not_hurtUDP h hg (setKey_other hg0 (hc g0 hg0) hlt) rfl
  | stopUDP f g0 u _ =>
    rintro ⟨_, g, gl, _, hg, hlt, _, h⟩
    have haim : g0 ≤ f := ht
    exact not_hurtUDP h hg (fun h => h) (setUdp_other (.inl (by omega)))
  | closeUDPConn f g0 u _ =>
    rintro ⟨_, g, gl, _, hg, hlt, _, h⟩
    have haim : g0 ≤ f := ht
    exact not_hurtUDP h hg (fun h => h) (setUdp_other (.inl (by omega)))
  | readUDPEnd | closeUDPNone =>
    rintro ⟨_, g, gl, _, hg, hlt, _, h⟩
    exact not_hurtUDP h hg (fun h => h) rfl
  | _ =>
    rintro ⟨_, g, gl, _, hg, hlt, _, h⟩
    exact not_hurtTCP h hg (fun h => h) rfl (fun h => h) (fun _ => rfl)

theorem not_harms {s s' : St} {l : Label} (hs : Step s l s') (hw : Wf s) (ht : ∀ t ∈ s.threads, t.Aimed) (hc : Clear s l) :
    ¬ Harms s l s' := by
  cases hs with
  | tcpFrame | udpFrame => exact fun h => h
  | fire f u _ _ =>
    rintro ⟨_, g, gl, _, hg, hlt, _, h⟩
    exact not_hurtUDP h hg (fun h => h) (setUdp_other (.inl hlt))
  | run s1 pre post ts t hthreads ha =>
    have hmem : t ∈ s.threads := by simp [hthreads]
    exact not_harms_act ha (hw.threads t hmem) (ht t hmem) hc _

/-! ## Runs -/

theorem run_wf {tr : List (St × Label × St)} {s : St} (h : Run tr s) : Wf s := by
  induction h with
  | nil => exact ⟨⟨by simp [start], by simp [start]⟩, by simp [start]⟩
  | snoc _ hs ih => exact step_wf hs ih

/-- In a run of clear steps every closing thread is aimed at no later flow. -/
theorem run_aimed {tr : List (St × Label × St)} {s : St} (h : Run tr s) (hc : ∀ x ∈ tr, Clear x.1 x.2.1) :
    ∀ t ∈ s.threads, t.Aimed := by
  induction h with
  | nil => simp [start]
  | snoc _ hs ih =>
    have hlast := hc _ (List.mem_append_right _ (List.mem_singleton_self _))
    exact step_aimed hs (ih fun x hx => hc x (by simp [hx])) hlast

/-- A run removes, closes and resets no later flow on behalf of an earlier one exactly when
    every lookup to close, and every RST, comes while its key names no later flow. -/
theorem flow_identity_iff {tr : List (St × Label × St)} {s : St} (h : Run tr s) :
    (∀ x ∈ tr, ¬ Harms x.1 x.2.1 x.2.2) ↔ ∀ x ∈ tr, Clear x.1 x.2.1 := by
  induction h with
  | nil => simp
  | @snoc tr s s' l hr hs ih =>
    simp only [List.forall_mem_append, List.forall_mem_singleton, ih]
    refine and_congr_right fun hc => ⟨fun hh => ?_, not_harms hs (run_wf hr) (run_aimed hr hc)⟩
    by_contra hnc
    exact hh (harms_of_not_clear hs (run_wf hr) hnc)

/-! ## A run that harms -/

theorem nothing_fits : ([] : List UInt8).length ≤ 65495 := by decide

def plainSegment : Segment where
  seq := 0
  ack := 0
  window := 0
  fin := false
  syn := false
  rst := false
  ackFlag := false
  data := []
  fits := nothing_fits

def synSegment : Segment := { plainSegment with syn := true }

def rstSegment : Segment := { plainSegment with rst := true }

def exampleKey : FlowKey := ⟨1, 2, 3, 4⟩

def ClearRun (tr : List (St × Label × St)) (s : St) : Prop := Run tr s ∧ ∀ x ∈ tr, Clear x.1 x.2.1

theorem ClearRun.snoc {tr : List (St × Label × St)} {s s' : St} {l : Label} (h : ClearRun tr s) (hs : Step s l s')
    (hc : Clear s l) : ClearRun (tr ++ [(s, l, s')]) s' := by
  refine ⟨h.1.snoc hs, fun x hx => ?_⟩
  rcases List.mem_append.mp hx with hx | hx
  · exact h.2 x hx
  · rw [List.mem_singleton.mp hx]
    exact hc

/-- A flow is opened and connected; then the guest's RST closes it. Its reader and its
    ticker are still there. -/
theorem closed_run : ∃ tr s, ClearRun tr s ∧ s.threads = [.read 0, .tick 0] ∧ s.tcp exampleKey = none ∧
    s.flows.length = 1 ∧ s.flows[0]?.map TcpFlow.key = some exampleKey ∧ s.closedConns = [0] := by
  have r0 : ClearRun [] start := ⟨.nil, by simp⟩
  have r1 := r0.snoc (.tcpFrame _ exampleKey synSegment) trivial
  have r2 := r1.snoc (.run _ _ [] [] _ _ rfl (.getTCP _ exampleKey synSegment)) trivial
  have r3 := r2.snoc (.run _ _ [] [] _ _ rfl (.openTCP _ exampleKey synSegment rfl)) trivial
  have r4 := r3.snoc (.run _ _ [] [.dial 0] _ _ rfl (.syn _ exampleKey synSegment 0 _ rfl rfl)) trivial
  have r5 := r4.snoc (.run _ _ [] [] _ _ rfl (.dialOk _ 0)) trivial
  have r6 := r5.snoc (.run _ _ [] [] _ _ rfl (.dialed _ 0 _ rfl rfl)) trivial
  have r7 := r6.snoc (.run _ _ [] [] _ _ rfl (.install _ 0 _ rfl)) trivial
  have r8 := r7.snoc (.tcpFrame _ exampleKey rstSegment) trivial
  have r9 := r8.snoc (.run _ _ [.read 0, .tick 0] [] _ _ rfl (.getTCP _ exampleKey rstSegment)) trivial
  have r10 := r9.snoc (.run _ _ [.read 0, .tick 0] [] _ _ rfl (.rst _ exampleKey rstSegment 0 rfl rfl)) trivial
  have r11 := r10.snoc (.run _ _ [.read 0, .tick 0] [] _ _ rfl (.remove _ 0 exampleKey true 0 rfl))
    (fun g hg => by cases hg; exact Nat.le_refl 0)
  have r12 := r11.snoc (.run _ _ [.read 0, .tick 0] [] _ _ rfl (.signal _ 0 0 true _ rfl)) trivial
  have r13 := r12.snoc (.run _ _ [.read 0, .tick 0] [] _ _ rfl (.grab _ 0 0 true _ rfl)) trivial
  have r14 := r13.snoc (.run _ _ [.read 0, .tick 0] [] _ _ rfl (.closeConn _ 0 0)) trivial
  exact ⟨_, _, r14, rfl, rfl, rfl, rfl, rfl⟩

theorem run_harms {tr : List (St × Label × St)} {s s' : St} {l : Label} (hr : Run tr s) (hs : Step s l s') (hc : ¬ Clear s l) :
    ∃ tr s, Run tr s ∧ ∃ x ∈ tr, Harms x.1 x.2.1 x.2.2 :=
  ⟨_, _, hr.snoc hs, _, List.mem_append_right _ (List.mem_singleton_self _), harms_of_not_clear hs (run_wf hr) hc⟩

/-- The closed flow's reader ends, and before its deferred `closeTCP` looks the key up the
    guest's next SYN opens a new flow under it: the `closeTCP` takes that flow. -/
theorem reader_closes_later_flow : ∃ tr s, Run tr s ∧ ∃ x ∈ tr, Harms x.1 x.2.1 x.2.2 := by
  obtain ⟨tr, s, r14, hthreads, htcp, hlen, hkey, -⟩ := closed_run
  obtain ⟨fl, hf, hfk⟩ := Option.map_eq_some_iff.mp hkey
  obtain ⟨tcp, udp, flows, udpFlows, nextSeq, closedConns, resets, threads⟩ := s
  simp only at hthreads htcp hlen hf
  subst hthreads
  have r15 := r14.1.snoc (.run _ _ [] [.tick 0] _ _ rfl (.readEnd _ 0 fl hf))
  rw [hfk] at r15
  have r16 := r15.snoc (.tcpFrame _ exampleKey synSegment)
  have r17 := r16.snoc (.run _ _ [.closeTCP 0 exampleKey true, .tick 0] [] _ _ rfl (.getTCP _ exampleKey synSegment))
  simp only [htcp] at r17
  have r18 := r17.snoc (.run _ _ [.closeTCP 0 exampleKey true, .tick 0] [] _ _ rfl (.openTCP _ exampleKey synSegment rfl))
  have hnow : setKey tcp exampleKey (some flows.length) exampleKey = some 1 := by simp [setKey, hlen]
  exact run_harms r18
    (.run _ _ [] [.tick 0, .tcpFound exampleKey synSegment (some flows.length), .dial flows.length] _ _ rfl
      (.remove _ 0 exampleKey true 1 hnow))
    fun hc => absurd (hc 1 hnow) (by decide)

/-- The law at work: the guest's RST closes the flow's connection and nothing else. -/
theorem flow_identity_closed_run : ∃ tr s, Run tr s ∧ s.closedConns = [0] ∧ ∀ x ∈ tr, ¬ Harms x.1 x.2.1 x.2.2 := by
  obtain ⟨tr, s, hr, -, -, -, -, hclosed⟩ := closed_run
  exact ⟨tr, s, hr.1, hclosed, (flow_identity_iff hr.1).mpr hr.2⟩

end Be300.NetBridge.Session
