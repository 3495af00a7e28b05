/-
  Be300.CfModem.Session — a modem's calls, its modem status and its receive ring
  (`src/hw/modem.c`).

  `Moved` says what an event changes of them. Proved (`session`): after any events since a
  reset the answered dials are one more than the hang-ups when the modem is online and as many
  when it is not; the bytes sent are those written to the data register while online; DCD is
  `online`, and its delta is set from a change on until the modem status is read; of what an event
  `Offers` (the echo, results, the peer's bytes) the receive ring takes as much as it has room for;
  and the bytes the guest reads have left it in the order they were accepted.
-/

import Be300.CfModem.Parser

namespace Be300.CfModem

open Lib

/-! ## What is observed -/

def answeredDials (calls : List Call) : Nat := (calls.filter fun | .dialed _ answer => answer | _ => false).length

def hangUps (calls : List Call) : Nat := (calls.filter fun | .hungUp => true | _ => false).length

def sentBytes (calls : List Call) : List UInt8 := calls.filterMap fun | .sent b => some b | _ => none

def drops (h : List (Traffic UInt8)) : Nat := (h.filter fun | .dropped => true | _ => false).length

/-- A byte written to the data register while online. -/
def writtenOnline (m : Modem) : Event → List UInt8
  | .write reg value _ => if reg % 8 = 0 ∧ dlab m = false ∧ m.online = true then [value] else []
  | _ => []

/-- A byte read from the data register while one is waiting. -/
def readByte (m : Modem) : Event → List UInt8
  | .read reg => if reg % 8 = 0 ∧ dlab m = false ∧ m.rx.count ≠ 0 then [(modemRead m reg).2] else []
  | _ => []

def statusRead : Event → Bool
  | .read reg => decide (reg % 8 = 6)
  | _ => false

def fifoReset : Event → Nat
  | .write reg value _ => if reg % 8 = 2 ∧ value &&& 2 ≠ 0 then 1 else 0
  | _ => 0

/-- What a run leaves to be observed. -/
structure Observed where
  written : List UInt8
  read : List UInt8
  changed : Bool
  resets : Nat

/-- `changed` is whether `online` has changed since the modem status was last read. -/
def observe (o : Observed) (m m' : Modem) (e : Event) : Observed :=
  { written := o.written ++ writtenOnline m e
    read := o.read ++ readByte m e
    changed := (o.changed || decide (m'.online ≠ m.online)) && !statusRead e
    resets := o.resets + fifoReset e }

def observed : Observed → Modem → List Event → Observed
  | o, _, [] => o
  | o, m, e :: events =>
    match step m e with
    | .ok m' => observed (observe o m m' e) m' events
    | .error _ => o

/-! ## What an event changes -/

def calling (online : Bool) : Nat := if online then 1 else 0

/-- The bytes sent and read, the resets of the FIFO, and whether the status was read. -/
structure Moved (m m' : Modem) (sent read : List UInt8) (resets : Nat) (status : Bool) : Prop where
  gps : m'.gps = m.gps
  dials : answeredDials m'.calls + hangUps m.calls + calling m.online =
    answeredDials m.calls + hangUps m'.calls + calling m'.online
  sent : sentBytes m'.calls = sentBytes m.calls ++ sent
  delta : m'.msrDelta = if status then 0 else if m'.online = m.online then m.msrDelta else m.msrDelta ||| msrDdcd
  ring : m.rx.Fits modemRx → m'.rx.Fits modemRx
  queue : ∃ h, m'.queue = m.queue ++ h ∧ (m.rx.Fits modemRx → Flow (waiting m) h (waiting m')) ∧
    Traffic.leavings h = read ∧ drops h = resets

section Moved

variable {m m' m'' : Modem} {sent read : List UInt8} {resets : Nat} {status : Bool}

theorem leavings_append (h h' : List (Traffic UInt8)) : Traffic.leavings (h ++ h') = Traffic.leavings h ++ Traffic.leavings h' :=
  List.filterMap_append

theorem drops_append (h h' : List (Traffic UInt8)) : drops (h ++ h') = drops h + drops h' := by
  rw [drops, List.filter_append, List.length_append]
  rfl

theorem arrivals_flow (q l : List UInt8) : Flow q (l.map fun b => .arrived [b]) (q ++ l) := by
  induction l generalizing q with
  | nil => simpa using Flow.nil
  | cons b l ih =>
    have := ih (q ++ [b])
    rw [List.append_assoc] at this
    exact .arrived this

theorem arrivals_leavings (l : List UInt8) : Traffic.leavings (l.map fun b => Traffic.arrived [b]) = [] := by
  induction l with
  | nil => rfl
  | cons b l ih => exact ih

theorem arrivals_drops (l : List UInt8) : drops (l.map fun b => Traffic.arrived [b]) = 0 := by
  induction l with
  | nil => rfl
  | cons b l ih => exact ih

theorem Put.moved {P : List UInt8 → Prop} (h : Put P m m') : Moved m m' [] [] 0 false := by
  obtain ⟨l, ts, -, hqueue, htook⟩ := h.queue
  have hwaiting := fun hfits => (htook hfits).1
  refine ⟨h.gps, by rw [h.calls, h.online], by rw [h.calls, List.append_nil], ?_, h.ring, _, hqueue, ?_, arrivals_leavings l,
    arrivals_drops l⟩
  · rw [if_neg Bool.false_ne_true, if_pos h.online]
    exact h.msrDelta
  · intro hfits
    rw [hwaiting hfits]
    exact arrivals_flow _ l

/-- Output after an event, or before it. -/
theorem Moved.said (h : Moved m m' sent read resets status) (h' : Said m' m'') : Moved m m'' sent read resets status := by
  obtain ⟨l, ts, -, hqueue, htook⟩ := h'.queue
  have hwaiting := fun hfits => (htook hfits).1
  obtain ⟨t, hbefore, hflow, hleavings, hdrops⟩ := h.queue
  refine ⟨h'.gps.trans h.gps, by rw [h'.calls, h'.online]; exact h.dials, by rw [h'.calls]; exact h.sent,
    by rw [h'.msrDelta, h'.online]; exact h.delta, fun hfits => h'.ring (h.ring hfits), t ++ l.map (fun b => .arrived [b]), ?_,
      ?_, ?_, ?_⟩
  · rw [hqueue, hbefore, List.append_assoc]
  · intro hfits
    rw [hwaiting (h.ring hfits)]
    exact (hflow hfits).append (arrivals_flow _ l)
  · rw [leavings_append, hleavings, arrivals_leavings, List.append_nil]
  · rw [drops_append, hdrops, arrivals_drops, Nat.add_zero]

theorem Put.before {P : List UInt8 → Prop} (h : Put P m m') (h' : Moved m' m'' sent read resets status) :
    Moved m m'' sent read resets status := by
  obtain ⟨l, ts, -, hqueue, htook⟩ := h.queue
  have hwaiting := fun hfits => (htook hfits).1
  obtain ⟨t, hafter, hflow, hleavings, hdrops⟩ := h'.queue
  have hdials := h'.dials
  have hsent := h'.sent
  have hdelta := h'.delta
  rw [h.calls, h.online] at hdials
  rw [h.calls] at hsent
  rw [h.msrDelta, h.online] at hdelta
  refine ⟨h'.gps.trans h.gps, hdials, hsent, hdelta, fun hfits => h'.ring (h.ring hfits), l.map (fun b => .arrived [b]) ++ t, ?_,
    ?_, ?_, ?_⟩
  · rw [hafter, hqueue, List.append_assoc]
  · intro hfits
    have hback := hflow (h.ring hfits)
    rw [hwaiting hfits] at hback
    exact (arrivals_flow _ l).append hback
  · rw [leavings_append, hleavings, arrivals_leavings, List.nil_append]
  · rw [drops_append, hdrops, arrivals_drops, Nat.zero_add]

/-- Nothing of what is observed. -/
theorem Moved.still (hgps : m'.gps = m.gps) (honline : m'.online = m.online) (hcalls : m'.calls = m.calls)
    (hdelta : m'.msrDelta = m.msrDelta) (hrx : m'.rx = m.rx) (hqueue : m'.queue = m.queue) : Moved m m' [] [] 0 false := by
  refine ⟨hgps, by rw [hcalls, honline], by rw [hcalls, List.append_nil], ?_, by rw [hrx]; exact fun h => h, [], ?_, ?_, rfl, rfl⟩
  · rw [if_neg Bool.false_ne_true, if_pos honline]
    exact hdelta
  · rw [hqueue, List.append_nil]
  · intro _
    rw [waiting, waiting, hrx]
    exact .nil

theorem answeredDials_append (calls calls' : List Call) :
    answeredDials (calls ++ calls') = answeredDials calls + answeredDials calls' := by
  rw [answeredDials, List.filter_append, List.length_append]
  rfl

theorem hangUps_append (calls calls' : List Call) : hangUps (calls ++ calls') = hangUps calls + hangUps calls' := by
  rw [hangUps, List.filter_append, List.length_append]
  rfl

theorem sentBytes_append (calls calls' : List Call) : sentBytes (calls ++ calls') = sentBytes calls ++ sentBytes calls' :=
  List.filterMap_append

/-- A line dials at most once, and then from offline. -/
theorem Interpreted.moved {answer : Bool} (h : Interpreted answer m m') (hoff : m.online = false) : Moved m m' [] [] 0 false := by
  rcases h with hsaid | @⟨number, _, -, -, hsaid⟩ | @⟨number, _, -, -, hsaid⟩
  · exact hsaid.moved
  · have hdialed : Moved m { m with calls := m.calls ++ [.dialed number false] } [] [] 0 false := by
      refine ⟨rfl, ?_, ?_, ?_, fun h => h, [], (List.append_nil _).symm, fun _ => .nil, rfl, rfl⟩
      · rw [answeredDials_append, hangUps_append]
        rfl
      · rw [sentBytes_append]
        rfl
      · rw [if_neg Bool.false_ne_true, if_pos rfl]
    exact hdialed.said hsaid
  · have hdialed : Moved m
      { m with calls := m.calls ++ [.dialed number true], online := true, msrDelta := m.msrDelta ||| msrDdcd }
        [] [] 0 false := by
      refine ⟨rfl, ?_, ?_, ?_, fun h => h, [], (List.append_nil _).symm, fun _ => .nil, rfl, rfl⟩
      · rw [answeredDials_append, hangUps_append, hoff]
        exact Nat.add_right_comm _ 1 _
      · rw [sentBytes_append]
        rfl
      · rw [hoff]
        rfl
    exact hdialed.said hsaid

theorem hangUp_moved (m : Modem) (report : Bool) : Moved m (hangUp m report) [] [] 0 false := by
  unfold hangUp
  by_cases hon : m.online = true
  · rw [if_pos hon]
    have hleft : Moved m
        { m with online := false, msrDelta := m.msrDelta ||| msrDdcd, calls := m.calls ++ [.hungUp] } [] [] 0 false := by
      refine ⟨rfl, ?_, ?_, ?_, fun h => h, [], (List.append_nil _).symm, fun _ => .nil, rfl, rfl⟩
      · rw [answeredDials_append, hangUps_append, hon]
        rfl
      · rw [sentBytes_append]
        rfl
      · rw [hon]
        rfl
    simp only
    split
    · exact hleft.said (result_said _ .noCarrier)
    · exact hleft
  · rw [if_neg hon]
    exact .still rfl rfl rfl rfl rfl rfl

theorem commandByte_moved {b : UInt8} {answer : Bool} (hoff : m.online = false) (h : commandByte m b answer = .ok m') :
    Moved m m' [] [] 0 false := by
  unfold commandByte at h
  have hechoed := echo_put m b
  generalize (if m.echo then push m b else m) = t at h hechoed
  refine hechoed.before ?_
  simp only at h
  split at h
  · obtain ⟨u, hrun, hinterpreted, -⟩ := execute_spec answer (m := { t with cmd := [] }) (clean_cString t.cmd)
      (hechoed.online.trans hoff)
    rw [hrun] at h
    cases h
    obtain ⟨hgps, hdials, hsent, hdelta, hring, hqueue⟩ := hinterpreted.moved (hechoed.online.trans hoff)
    exact ⟨hgps, hdials, hsent, hdelta, hring, hqueue⟩
  split at h
  · cases h
    exact .still rfl rfl rfl rfl rfl rfl
  split at h
  · cases h
    exact .still rfl rfl rfl rfl rfl rfl
  · cases h
    exact .still rfl rfl rfl rfl rfl rfl

theorem sent_moved (m : Modem) (value : UInt8) :
    Moved m { m with calls := m.calls ++ [.sent value], threIrq := true } [value] [] 0 false := by
  refine ⟨rfl, ?_, ?_, ?_, fun h => h, [], (List.append_nil _).symm, fun _ => .nil, rfl, rfl⟩
  · rw [answeredDials_append, hangUps_append]
    rfl
  · rw [sentBytes_append]
    rfl
  · rw [if_neg Bool.false_ne_true, if_pos rfl]

theorem receive_moved (m : Modem) (data : List UInt8) :
    Moved m (modemReceive m data).1 [] [] 0 false := (receive_spec m data).2.1.moved

theorem writeData_moved {value : UInt8} {answer : Bool} (hmodem : m.gps = false) (h : writeData m value answer = .ok m') :
    Moved m m' (if m.online = true then [value] else []) [] 0 false := by
  unfold writeData at h
  by_cases hon : m.online = true
  · rw [if_pos (Or.inl hon)] at h
    cases h
    rw [if_pos hon]
    exact sent_moved m value
  · have hoff : m.online = false := by simpa using hon
    rw [if_neg (by rw [hoff, hmodem]; decide)] at h
    rw [if_neg hon]
    rcases hbyte : commandByte m value answer with _ | t
    · rw [hbyte] at h
      cases h
    · rw [hbyte] at h
      cases h
      obtain ⟨hgps, hdials, hsent, hdelta, hring, hqueue⟩ := commandByte_moved hoff hbyte
      exact ⟨hgps, hdials, hsent, hdelta, hring, hqueue⟩

/-- A reset of the FIFO drops what waits. -/
theorem reset_moved (m : Modem) (value : UInt8) :
    Moved m { m with fcr := value, rx := m.rx.clear, queue := m.queue ++ [.dropped] } [] [] 1 false := by
  refine ⟨rfl, rfl, (List.append_nil _).symm, ?_, fun h => Fifo.fits_clear (by decide) m.rx, [.dropped], rfl, fun _ => ?_, rfl,
    rfl⟩
  · rw [if_neg Bool.false_ne_true, if_pos rfl]
  · exact .dropped .nil

theorem write_moved {reg : Nat} {value : UInt8} {answer : Bool} (hmodem : m.gps = false)
    (h : modemWrite m reg value answer = .ok m') :
    Moved m m' (writtenOnline m (.write reg value answer)) [] (fifoReset (.write reg value answer)) false := by
  have hquiet : ∀ t : Modem, ¬reg % 8 = 0 ∨ dlab m = true → ¬reg % 8 = 2 ∨ value &&& 2 = 0 → Moved m t [] [] 0 false →
      Moved m t (writtenOnline m (.write reg value answer)) [] (fifoReset (.write reg value answer)) false := by
    intro t hdata hreset hmoved
    have hwritten : writtenOnline m (.write reg value answer) = [] := by
      refine if_neg fun hnot => ?_
      rcases hdata with hreg | hdlab
      · exact hreg hnot.1
      · rw [hnot.2.1] at hdlab
        cases hdlab
    have hresets : fifoReset (.write reg value answer) = 0 := by
      refine if_neg fun hnot => ?_
      rcases hreset with hreg | hbit
      · exact hreg hnot.1
      · exact hnot.2 hbit
    rw [hwritten, hresets]
    exact hmoved
  unfold modemWrite at h
  split at h
  · rename_i hreg
    split at h
    · rename_i hdlab
      cases h
      exact hquiet _ (Or.inr hdlab) (Or.inl (by omega)) (.still rfl rfl rfl rfl rfl rfl)
    · rename_i hdlab
      have hwritten : writtenOnline m (.write reg value answer) = if m.online = true then [value] else [] := by
        show (if reg % 8 = 0 ∧ dlab m = false ∧ m.online = true then [value] else []) = _
        simp only [hreg, show dlab m = false by simpa using hdlab, true_and]
      have hresets : fifoReset (.write reg value answer) = 0 := if_neg fun hnot => by omega
      rw [hwritten, hresets]
      exact writeData_moved hmodem h
  · split at h
    · cases h
      exact hquiet _ (Or.inl (by omega)) (Or.inl (by omega)) (.still rfl rfl rfl rfl rfl rfl)
    · cases h
      exact hquiet _ (Or.inl (by omega)) (Or.inl (by omega)) (.still rfl rfl rfl rfl rfl rfl)
  · rename_i hreg
    cases h
    by_cases hbit : value &&& 2 ≠ 0
    · have hresets : fifoReset (.write reg value answer) = 1 := if_pos ⟨hreg, hbit⟩
      have hwritten : writtenOnline m (.write reg value answer) = [] := if_neg fun hnot => by omega
      rw [hresets, hwritten, if_pos hbit]
      exact reset_moved m value
    · rw [if_neg hbit]
      exact hquiet _ (Or.inl (by omega)) (Or.inr (by simpa using hbit)) (.still rfl rfl rfl rfl rfl rfl)
  · cases h
    exact hquiet _ (Or.inl (by omega)) (Or.inl (by omega)) (.still rfl rfl rfl rfl rfl rfl)
  · cases h
    refine hquiet _ (Or.inl (by omega)) (Or.inl (by omega)) ?_
    unfold writeControl
    simp only
    split
    · exact .still rfl rfl rfl rfl rfl rfl
    split
    · obtain ⟨hgps, hdials, hsent, hdelta, hring, hqueue⟩ := hangUp_moved { m with mcr := value } true
      exact ⟨hgps, hdials, hsent, hdelta, hring, hqueue⟩
    · exact .still rfl rfl rfl rfl rfl rfl
  · cases h
    exact hquiet _ (Or.inl (by omega)) (Or.inl (by omega)) (.still rfl rfl rfl rfl rfl rfl)
  · rename_i h0 _ h2 _ _ _
    cases h
    exact hquiet _ (Or.inl h0) (Or.inl h2) (.still rfl rfl rfl rfl rfl rfl)

theorem read_moved (m : Modem) (reg : Nat) (hfits : m.rx.Fits modemRx) :
    Moved m (modemRead m reg).1 [] (readByte m (.read reg)) 0 (statusRead (.read reg)) := by
  have hquiet : ∀ t : Modem, ¬reg % 8 = 6 → readByte m (.read reg) = [] → Moved m t [] [] 0 false →
      Moved m t [] (readByte m (.read reg)) 0 (statusRead (.read reg)) := by
    intro t hreg hread hmoved
    rw [hread, show statusRead (.read reg) = false from decide_eq_false hreg]
    exact hmoved
  have hother : ¬reg % 8 = 0 → readByte m (.read reg) = [] := fun hreg => if_neg fun hnot => hreg hnot.1
  have hstill : Moved m m [] [] 0 false := (Said.refl m).moved
  by_cases hdata : reg % 8 = 0 ∧ dlab m = false ∧ m.rx.count ≠ 0
  · have hread : modemRead m reg = ({ m with rx := m.rx.pop modemRx, queue := m.queue ++ [.left m.rx.front] }, m.rx.front) := by
      unfold modemRead
      rw [hdata.1]
      simp only [hdata.2.1, Bool.false_eq_true, if_false, if_neg hdata.2.2]
    rw [show readByte m (.read reg) = [(modemRead m reg).2] from if_pos hdata, hread,
      show statusRead (.read reg) = false from decide_eq_false (by omega)]
    refine ⟨rfl, rfl, (List.append_nil _).symm, ?_, fun h => Fifo.fits_pop h (by decide) hdata.2.2, [.left m.rx.front], rfl, ?_,
      rfl, rfl⟩
    · rw [if_neg Bool.false_ne_true, if_pos rfl]
    · intro _
      rw [waiting, Fifo.contents_pop hfits (by decide) hdata.2.2]
      exact .left .nil
  · have hread : readByte m (.read reg) = [] := if_neg hdata
    unfold modemRead
    split
    · rename_i hreg
      refine hquiet _ (by omega) hread ?_
      split
      · exact hstill
      · rename_i hdlab
        rw [if_pos]
        · exact hstill
        · by_contra hnone
          exact hdata ⟨hreg, by simpa using hdlab, hnone⟩
    · exact hquiet _ (by omega) hread hstill
    · refine hquiet _ (by omega) hread ?_
      simp only
      split
      · exact hstill
      split
      · exact .still rfl rfl rfl rfl rfl rfl
      split
      · exact hstill
      · exact hstill
    · exact hquiet _ (by omega) hread hstill
    · exact hquiet _ (by omega) hread hstill
    · exact hquiet _ (by omega) hread hstill
    · rename_i hreg
      rw [hread, show statusRead (.read reg) = true from decide_eq_true hreg]
      exact ⟨rfl, rfl, (List.append_nil _).symm, rfl, fun h => h, [], (List.append_nil _).symm, fun _ => .nil, rfl, rfl⟩
    · exact hquiet _ ‹_› hread hstill

theorem step_moved {e : Event} (hmodem : m.gps = false) (hfits : m.rx.Fits modemRx) (h : step m e = .ok m') :
    Moved m m' (writtenOnline m e) (readByte m e) (fifoReset e) (statusRead e) := by
  rcases e with reg | ⟨reg, value, answer⟩ | data | _
  · cases h
    exact read_moved m reg hfits
  · exact write_moved hmodem h
  · cases h
    exact receive_moved m data
  · cases h
    exact hangUp_moved m true

end Moved

/-! ## What an event offers to the ring -/

/-- The carrier is dropped by the guest: DTR falls while online. -/
def dtrDropped (m : Modem) (reg : Nat) (value : UInt8) : Bool :=
  decide (reg % 8 = 4 ∧ m.mcr &&& mcrDtr ≠ 0 ∧ value &&& mcrDtr = 0 ∧ m.online = true)

def noCarrier (m : Modem) : List UInt8 := resultText m.verbose "NO CARRIER".toList 3

/-- The bytes for the guest: the echo of a byte of a command line and the interpreter's answers, the report of a carrier that is
    gone, and what the peer sends while online. -/
def Offers (m : Modem) : Event → List UInt8 → Prop
  | .read _, l => l = []
  | .write reg value _, l =>
    if reg % 8 = 0 ∧ dlab m = false ∧ m.online = false then ∃ ts, Reported ts ∧ l = (if m.echo then [value] else []) ++ ts
    else l = if dtrDropped m reg value then noCarrier m else []
  | .received data, l => l = if m.online then data else []
  | .carrierLost, l => l = if m.online then noCarrier m else []

section Offers

variable {m m' : Modem} {P : List UInt8 → Prop}

/-- Of what is offered the ring takes as much as there is room for. -/
def Accepted (P : List UInt8 → Prop) (m m' : Modem) : Prop :=
  ∃ l h, P l ∧ m'.queue = m.queue ++ h ∧ Traffic.arrivals h = l.take (modemRx - m.rx.count)

theorem arrivals_map (l : List UInt8) : Traffic.arrivals (l.map fun b => Traffic.arrived [b]) = l := by
  induction l with
  | nil => rfl
  | cons b l ih => exact congrArg (b :: ·) ih

theorem Took.accepted (h : Took P m m') (hfits : m.rx.Fits modemRx) : Accepted P m m' := by
  obtain ⟨l, ts, hP, hqueue, htook⟩ := h
  exact ⟨ts, _, hP, hqueue, (arrivals_map l).trans (htook hfits).2⟩

/-- Nothing arrives. -/
theorem accepted_none {h : List (Traffic UInt8)} (hP : P []) (hqueue : m'.queue = m.queue ++ h)
    (hnone : Traffic.arrivals h = []) : Accepted P m m' := ⟨[], h, hP, hqueue, by rw [hnone, List.take_nil]⟩

theorem hangUp_took (m : Modem) : Took (· = if m.online then noCarrier m else []) m (hangUp m true) := by
  unfold hangUp
  by_cases hon : m.online = true
  · rw [if_pos hon, if_pos hon]
    exact (result_put { m with online := false, msrDelta := m.msrDelta ||| msrDdcd, calls := m.calls ++ [.hungUp] } _ 3).queue
  · rw [if_neg hon, if_neg hon]
    exact (Put.none m).queue

theorem Interpreted.took {answer : Bool} (h : Interpreted answer m m') : Took Reported m m' := by
  rcases h with hsaid | ⟨-, -, hsaid⟩ | ⟨-, -, hsaid⟩
  · exact hsaid.queue
  · exact hsaid.queue
  · exact hsaid.queue

theorem commandByte_took {b : UInt8} {answer : Bool} (hoff : m.online = false) (h : commandByte m b answer = .ok m') :
    Took (fun l => ∃ ts, Reported ts ∧ l = (if m.echo then [b] else []) ++ ts) m m' := by
  unfold commandByte at h
  have hechoed := echo_put m b
  generalize (if m.echo then push m b else m) = t at h hechoed
  have hrest : Took Reported t m' := by
    simp only at h
    split at h
    · obtain ⟨u, hrun, hinterpreted, -⟩ := execute_spec answer (m := { t with cmd := [] }) (clean_cString t.cmd)
        (hechoed.online.trans hoff)
      rw [hrun] at h
      cases h
      exact hinterpreted.took
    have hsame := (Said.refl t).queue
    split at h
    · cases h
      exact hsame
    split at h
    · cases h
      exact hsame
    · cases h
      exact hsame
  exact .trans (fun ts ts' h h' => ⟨ts', h', by rw [h]⟩) hechoed.ring hechoed.queue hrest

theorem read_accepted (m : Modem) (reg : Nat) : Accepted (Offers m (.read reg)) m (modemRead m reg).1 := by
  have hquiet : ∀ t : Modem, t.queue = m.queue → Accepted (Offers m (.read reg)) m t := fun t ht =>
    accepted_none rfl (h := []) (ht.trans (List.append_nil _).symm) rfl
  unfold modemRead
  split
  · split
    · exact hquiet _ rfl
    split
    · exact hquiet _ rfl
    · exact accepted_none rfl rfl rfl
  · exact hquiet _ rfl
  · simp only
    split
    · exact hquiet _ rfl
    split
    · exact hquiet _ rfl
    split
    · exact hquiet _ rfl
    · exact hquiet _ rfl
  · exact hquiet _ rfl
  · exact hquiet _ rfl
  · exact hquiet _ rfl
  · exact hquiet _ rfl
  · exact hquiet _ rfl

theorem write_accepted {reg : Nat} {value : UInt8} {answer : Bool} (hmodem : m.gps = false) (hfits : m.rx.Fits modemRx)
    (h : modemWrite m reg value answer = .ok m') : Accepted (Offers m (.write reg value answer)) m m' := by
  -- the other writes offer nothing
  have hquiet : ¬ (reg % 8 = 0 ∧ dlab m = false ∧ m.online = false) → dtrDropped m reg value = false →
      Offers m (.write reg value answer) [] := fun hdata hdtr => by
    show if reg % 8 = 0 ∧ dlab m = false ∧ m.online = false then _ else ([] : List UInt8) = _
    rw [if_neg hdata, hdtr]
    rfl
  have hother : ¬ reg % 8 = 0 → ¬ reg % 8 = 4 → Offers m (.write reg value answer) [] := fun h0 h4 =>
    hquiet (fun hno => h0 hno.1) (decide_eq_false fun hno => h4 hno.1)
  have hnil := (List.append_nil m.queue).symm
  unfold modemWrite at h
  split at h
  · rename_i hreg
    have hdtr : dtrDropped m reg value = false := decide_eq_false fun hno => by omega
    split at h
    · rename_i hdlab
      cases h
      exact accepted_none (hquiet (fun hno => by simp [hdlab] at hno) hdtr) hnil rfl
    · rename_i hdlab
      unfold writeData at h
      by_cases hon : m.online = true
      · rw [if_pos (Or.inl hon)] at h
        cases h
        exact accepted_none (hquiet (fun hno => by simp [hon] at hno) hdtr) hnil rfl
      · have hoff : m.online = false := by simpa using hon
        rw [if_neg (by rw [hoff, hmodem]; decide)] at h
        rcases hbyte : commandByte m value answer with _ | t
        · rw [hbyte] at h
          cases h
        · rw [hbyte] at h
          cases h
          obtain ⟨l, t', hl, hqueue, harrived⟩ := (commandByte_took hoff hbyte).accepted hfits
          refine ⟨l, t', ?_, hqueue, harrived⟩
          show if reg % 8 = 0 ∧ dlab m = false ∧ m.online = false then _ else _
          rw [if_pos ⟨hreg, by simpa using hdlab, hoff⟩]
          exact hl
  · split at h
    · cases h
      exact accepted_none (hother (by omega) (by omega)) hnil rfl
    · cases h
      exact accepted_none (hother (by omega) (by omega)) hnil rfl
  · cases h
    split
    · exact accepted_none (hother (by omega) (by omega)) rfl rfl
    · exact accepted_none (hother (by omega) (by omega)) hnil rfl
  · cases h
    exact accepted_none (hother (by omega) (by omega)) hnil rfl
  · rename_i hreg
    cases h
    unfold writeControl
    simp only
    rw [if_neg (by simp [hmodem])]
    have hoffers : ∀ l, Offers m (.write reg value answer) l ↔ l = if dtrDropped m reg value then noCarrier m else [] := by
      intro l
      show (if reg % 8 = 0 ∧ dlab m = false ∧ m.online = false then _ else _) ↔ _
      rw [if_neg fun hno => by omega]
    split
    · rename_i hdtr
      obtain ⟨l, t, hl, hqueue, harrived⟩ := (hangUp_took { m with mcr := value }).accepted hfits
      refine ⟨l, t, (hoffers l).mpr ?_, hqueue, harrived⟩
      have hdropped : dtrDropped m reg value = m.online := by
        unfold dtrDropped
        simp [hreg, hdtr]
      rw [hdropped]
      exact hl
    · rename_i hdtr
      refine accepted_none ((hoffers []).mpr ?_) hnil rfl
      rw [if_neg]
      intro hdropped
      have := of_decide_eq_true hdropped
      exact hdtr ⟨this.2.1, this.2.2.1⟩
  · cases h
    exact accepted_none (hother (by omega) (by omega)) hnil rfl
  · rename_i h0 _ h2 _ h4 _
    cases h
    exact accepted_none (hother h0 h4) hnil rfl

/-- Of what an event offers, the ring takes as much as there is room for. -/
theorem step_accepted {e : Event} (hmodem : m.gps = false) (hfits : m.rx.Fits modemRx) (h : step m e = .ok m') :
    Accepted (Offers m e) m m' := by
  rcases e with reg | ⟨reg, value, answer⟩ | data | _
  · cases h
    exact read_accepted m reg
  · exact write_accepted hmodem hfits h
  · cases h
    exact (receive_spec m data).2.1.queue.accepted hfits
  · cases h
    exact (hangUp_took m).accepted hfits

end Offers

/-! ## Runs -/

section Run

variable {m : Modem} {o : Observed}

/-- What holds of a modem and of what has been observed of it. -/
structure Session (m : Modem) (o : Observed) : Prop where
  gps : m.gps = false
  dials : answeredDials m.calls = hangUps m.calls + calling m.online
  sent : sentBytes m.calls = o.written
  delta : m.msrDelta = if o.changed then msrDdcd else 0
  ring : m.rx.Fits modemRx
  flow : Flow [] m.queue (waiting m)
  read : Traffic.leavings m.queue = o.read
  resets : drops m.queue = o.resets

theorem Session.step {m' : Modem} {e : Event} (h : Session m o) (hstep : CfModem.step m e = .ok m') :
    Session m' (observe o m m' e) := by
  obtain ⟨hgps, hdials, hsent, hdelta, hring, t, hqueue, hflow, hleavings, hdrops⟩ := step_moved h.gps h.ring hstep
  refine ⟨hgps.trans h.gps, ?_, ?_, ?_, hring h.ring, ?_, ?_, ?_⟩
  · have := h.dials
    omega
  · rw [hsent, h.sent]
    rfl
  · rw [hdelta, h.delta, observe]
    rcases statusRead e with _ | _
    · rcases o.changed with _ | _
      · by_cases hsame : m'.online = m.online
        · simp [hsame]
        · simp [hsame, msrDdcd]
      · by_cases hsame : m'.online = m.online
        · simp [hsame]
        · simp [hsame, msrDdcd]
    · rw [if_pos rfl, Bool.not_true, Bool.and_false]
      rfl
  · rw [hqueue]
    exact h.flow.append (hflow h.ring)
  · rw [hqueue, leavings_append, h.read, hleavings]
    rfl
  · rw [hqueue, drops_append, h.resets, hdrops]
    rfl

theorem Session.run {m' : Modem} {events : List Event} (h : Session m o) (hrun : CfModem.run m events = .ok m') :
    Session m' (observed o m events) := by
  induction events generalizing m o with
  | nil =>
    cases hrun
    exact h
  | cons e events ih =>
    rcases hstep : CfModem.step m e with fault | t
    · rw [CfModem.run, hstep] at hrun
      cases hrun
    · rw [CfModem.run, hstep] at hrun
      rw [observed, hstep]
      exact ih (h.step hstep) hrun

def nothingObserved : Observed := { written := [], read := [], changed := false, resets := 0 }

theorem reset_session : Session (modemReset false) nothingObserved :=
  ⟨rfl, rfl, rfl, rfl, ⟨by decide, by decide⟩, .nil, rfl, rfl⟩

/-- Whatever the guest and the peer do after a reset, the run has an end, and there the calls, the
    modem status and the bytes read are as they should be. -/
theorem session (events : List Event) : ∃ m, run (modemReset false) events = .ok m ∧
    answeredDials m.calls = hangUps m.calls + calling m.online ∧
    sentBytes m.calls = (observed nothingObserved (modemReset false) events).written ∧
    (∀ reg value answer, reg % 8 = 0 → dlab m = false → m.online = true →
      step m (.write reg value answer) = .ok { m with calls := m.calls ++ [.sent value], threIrq := true }) ∧
    ((modemRead m 6).2 &&& msrDcd ≠ 0 ↔ m.online = true) ∧
    ((modemRead m 6).2 &&& msrDdcd ≠ 0 ↔ (observed nothingObserved (modemReset false) events).changed = true) ∧
    ((observed nothingObserved (modemReset false) events).changed = true → m.ier &&& 8 ≠ 0 → irqPending m = true) ∧
    m.rx.count ≤ modemRx ∧ Flow [] m.queue (waiting m) ∧
    (∀ e m', step m e = .ok m' → Accepted (Offers m e) m m') ∧
    (∀ data, (modemReceive m data).2 = if m.online then min data.length (modemRx - m.rx.count) else 0) ∧
    Traffic.leavings m.queue = (observed nothingObserved (modemReset false) events).read ∧
    drops m.queue = (observed nothingObserved (modemReset false) events).resets := by
  have hstart : InBuffers (modemReset false) := ⟨by decide, fun number answer h => by cases h⟩
  obtain ⟨m, hrun, -, -⟩ := run_spec events hstart
  have h := reset_session.run hrun
  have hstatus : (modemRead m 6).2 = msrCts ||| msrDsr ||| (if m.online ∧ m.gps = false then msrDcd else 0) ||| m.msrDelta := rfl
  refine ⟨m, hrun, h.dials, h.sent, ?_, ?_, ?_, ?_, h.ring.count, h.flow, fun e m' hstep => step_accepted h.gps h.ring hstep,
    fun data => (receive_spec m data).2.2, h.read, h.resets⟩
  · intro reg value answer hreg hdlab hon
    show modemWrite m reg value answer = _
    unfold modemWrite
    rw [hreg]
    simp only [hdlab, Bool.false_eq_true, if_false]
    rw [writeData, if_pos (Or.inl hon)]
    rfl
  · rw [hstatus, h.delta, h.gps]
    generalize (observed nothingObserved (modemReset false) events).changed = changed
    generalize m.online = online
    revert changed online
    decide
  · rw [hstatus, h.delta, h.gps]
    generalize (observed nothingObserved (modemReset false) events).changed = changed
    generalize m.online = online
    revert changed online
    decide
  · intro hchanged hier
    rw [irqPending, h.delta, hchanged, if_pos rfl]
    simp [hier, msrDdcd]

end Run

end Be300.CfModem
