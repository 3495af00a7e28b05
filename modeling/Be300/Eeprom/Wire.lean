/-
  Be300.Eeprom.Wire — the serial EEPROM and its two wires (`src/hw/eeprom.c`).

  `Edge` is one call of the bus: a level for SCL or for SDA. What the master hears is the
  line at the end of every clock, just before SCL falls. `Sends` says which edges make a
  START, a bit or a STOP: data may change as often as it likes while SCL is low, and calls
  that change nothing may come at any time.

  Proved (`stored_and_read`): a write of any number of bytes by any such waveform is
  acknowledged byte by byte and stores them, the address wrapping after 255; a read from an
  address returns what the cells from there on hold, and changes none; a transfer to another
  device is never acknowledged and changes none.
-/

import Mathlib.Data.List.Basic
import Mathlib.Logic.Function.Basic
import Mathlib.Tactic.Common
import Mathlib.Tactic.IntervalCases

namespace Be300.Eeprom

inductive Phase where
  | idle
  | device
  | word
  | write
  | read
  deriving DecidableEq

/-- `mem` is indexed by a byte, as there are 256 cells. -/
structure EepromState where
  mem : UInt8 → UInt8
  scl : Bool
  sdaMaster : Bool
  sdaSlave : Bool
  phase : Phase
  next : Phase
  ackSlot : Bool
  mackSlot : Bool
  masterNack : Bool
  shift : UInt8
  bits : Nat
  addr : UInt8

def eepromInit : EepromState :=
  { mem := fun _ => 0xFF, scl := true, sdaMaster := true, sdaSlave := true, phase := .idle, next := .idle, ackSlot := false
    mackSlot := false, masterNack := false, shift := 0, bits := 0, addr := 0 }

def driveBit (s : EepromState) : EepromState := { s with sdaSlave := (s.mem s.addr).toNat.testBit (7 - s.bits) }

def acknowledge (s : EepromState) : EepromState := { s with sdaSlave := false, ackSlot := true }

def byteReceived (s : EepromState) : EepromState :=
  match s.phase with
  | .device =>
    if s.shift &&& 0xFE ≠ 0xA0 then { s with phase := .idle }
    else acknowledge { s with next := if s.shift &&& 1 ≠ 0 then .read else .word }
  | .word => acknowledge { s with addr := s.shift, next := .write }
  | .write => acknowledge { s with mem := Function.update s.mem s.addr s.shift, addr := s.addr + 1, next := .write }
  | _ => s

def sclRises (s : EepromState) : EepromState :=
  if s.phase = .read then
    if s.mackSlot then { s with masterNack := s.sdaMaster } else { s with bits := s.bits + 1 }
  else if s.phase ≠ .idle ∧ s.ackSlot = false ∧ s.bits < 8 then
    { s with shift := (s.shift <<< 1) ||| (if s.sdaMaster then 1 else 0), bits := s.bits + 1 }
  else s

/-- The slave changes SDA only here. -/
def sclFalls (s : EepromState) : EepromState :=
  if s.ackSlot then
    let s := { s with ackSlot := false, sdaSlave := true, phase := s.next, bits := 0, shift := 0 }
    if s.phase = .read then driveBit s else s
  else if s.phase = .read then
    if s.mackSlot then
      if s.masterNack then { s with mackSlot := false, phase := .idle, sdaSlave := true }
      else driveBit { s with mackSlot := false, addr := s.addr + 1, bits := 0 }
    else if s.bits = 8 then { s with sdaSlave := true, mackSlot := true }
    else driveBit s
  else if s.phase ≠ .idle ∧ s.bits = 8 then byteReceived s
  else s

def eepromSetScl (s : EepromState) (level : Bool) : EepromState :=
  if level = s.scl then s
  else if level then sclRises { s with scl := level } else sclFalls { s with scl := level }

def eepromSetSda (s : EepromState) (level : Bool) : EepromState :=
  if level = s.sdaMaster then s
  else if s.scl = false then { s with sdaMaster := level }
  else
    { s with
      sdaMaster := level, ackSlot := false, mackSlot := false, sdaSlave := true, bits := 0, shift := 0
      phase := if level then .idle else .device }

def eepromSda (s : EepromState) : Bool := s.sdaMaster && s.sdaSlave

/-! ## Waveforms -/

inductive Edge where
  | scl (level : Bool)
  | sda (level : Bool)
  deriving DecidableEq

def step (s : EepromState) : Edge → EepromState
  | .scl level => eepromSetScl s level
  | .sda level => eepromSetSda s level

def run (s : EepromState) (edges : List Edge) : EepromState := edges.foldl step s

/-- The line at the end of every clock. -/
def heard : EepromState → List Edge → List Bool
  | _, [] => []
  | s, e :: edges => (if s.scl = true ∧ e = .scl false then [eepromSda s] else []) ++ heard (step s e) edges

theorem run_append (s : EepromState) (l m : List Edge) : run s (l ++ m) = run (run s l) m := List.foldl_append

theorem heard_append (s : EepromState) (l m : List Edge) : heard s (l ++ m) = heard s l ++ heard (run s l) m := by
  induction l generalizing s with
  | nil => rfl
  | cons e l ih =>
    rw [List.cons_append, heard, heard, ih, List.append_assoc]
    rfl

inductive Symbol where
  | start
  | bit (level : Bool)
  | stop
  deriving DecidableEq

/-- The wires between symbols: SCL is low in a transfer, and both are high on an idle bus. -/
inductive Bus where
  | idle
  | busy (sda : Bool)
  deriving DecidableEq

/-- While SCL is low. -/
def Low (edges : List Edge) : Prop := ∀ e ∈ edges, e = .scl false ∨ ∃ level, e = .sda level

/-- While SCL is high, and SDA stays as it is. -/
def High (sda : Bool) (edges : List Edge) : Prop := ∀ e ∈ edges, e = .scl true ∨ e = .sda sda

/-- SDA after edges with SCL low. -/
def sdaAfter (sda : Bool) (edges : List Edge) : Bool := edges.foldl (fun sda e => if e = .sda true then true else
  if e = .sda false then false else sda) sda

inductive Sends : Symbol → Bus → List Edge → Bus → Prop where
  | bit {sda level} (low high : List Edge) (hlow : Low low) (hsda : sdaAfter sda low = level) (hhigh : High level high) :
      Sends (.bit level) (.busy sda) (low ++ .scl true :: high ++ [.scl false]) (.busy level)
  | start (high high' : List Edge) (hhigh : High true high) (hhigh' : High false high') :
      Sends .start .idle (high ++ .sda false :: high' ++ [.scl false]) (.busy false)
  | restart {sda} (low high high' : List Edge) (hlow : Low low) (hsda : sdaAfter sda low = true) (hhigh : High true high)
      (hhigh' : High false high') :
      Sends .start (.busy sda) (low ++ .scl true :: high ++ .sda false :: high' ++ [.scl false]) (.busy false)
  | stop {sda} (low high high' : List Edge) (hlow : Low low) (hsda : sdaAfter sda low = false) (hhigh : High false high)
      (hhigh' : High true high') : Sends .stop (.busy sda) (low ++ .scl true :: high ++ .sda true :: high') .idle

inductive SendsAll : List Symbol → Bus → List Edge → Bus → Prop where
  | nil {b} : SendsAll [] b [] b
  | cons {sym syms b c d edges more} (h : Sends sym b edges c) (rest : SendsAll syms c more d) :
      SendsAll (sym :: syms) b (edges ++ more) d

/-! ## What a symbol does -/

/-- The bus as the slave has it. -/
def On (s : EepromState) : Bus → Prop
  | .idle => s.scl = true ∧ s.sdaMaster = true
  | .busy sda => s.scl = false ∧ s.sdaMaster = sda

def started (s : EepromState) (level : Bool) : EepromState :=
  { s with sdaMaster := level, ackSlot := false, mackSlot := false, sdaSlave := true, bits := 0, shift := 0
           phase := if level then .idle else .device }

/-- A clock with SDA at a level. -/
def clocked (s : EepromState) (level : Bool) : EepromState := sclRises { s with scl := true, sdaMaster := level }

theorem sclRises_wires (s : EepromState) : (sclRises s).scl = s.scl ∧ (sclRises s).sdaMaster = s.sdaMaster := by
  unfold sclRises
  split
  · split <;> exact ⟨rfl, rfl⟩
  · split <;> exact ⟨rfl, rfl⟩

theorem low_spec {s : EepromState} (hs : s.scl = false) {low : List Edge} (hlow : Low low) :
    run s low = { s with sdaMaster := sdaAfter s.sdaMaster low } ∧ heard s low = [] := by
  induction low generalizing s with
  | nil => exact ⟨rfl, rfl⟩
  | cons e low ih =>
    have hrest : Low low := fun d hd => hlow d (List.mem_cons_of_mem e hd)
    have hstep : step s e = { s with sdaMaster := sdaAfter s.sdaMaster [e] } := by
      rcases hlow e List.mem_cons_self with rfl | ⟨level, rfl⟩
      · show eepromSetScl s false = s
        rw [eepromSetScl, if_pos hs.symm]
      · have hafter : sdaAfter s.sdaMaster [.sda level] = level := by cases level <;> rfl
        rw [hafter]
        show eepromSetSda s level = _
        rw [eepromSetSda]
        split
        · rename_i hlevel
          rw [hlevel]
        · rfl
    have hquiet : (if s.scl = true ∧ e = .scl false then [eepromSda s] else []) = [] := by
      rw [if_neg]
      rintro ⟨hscl, -⟩
      rw [hs] at hscl
      cases hscl
    obtain ⟨hrun, hheard⟩ := ih (s := step s e) (by rw [hstep]; exact hs) hrest
    constructor
    · show run (step s e) low = _
      rw [hrun, hstep]
      rfl
    · rw [heard, hquiet, hheard]
      rfl

theorem high_spec {s : EepromState} (hs : s.scl = true) {high : List Edge} (hhigh : High s.sdaMaster high) :
    run s high = s ∧ heard s high = [] := by
  induction high with
  | nil => exact ⟨rfl, rfl⟩
  | cons e high ih =>
    obtain ⟨hrun, hheard⟩ := ih fun d hd => hhigh d (List.mem_cons_of_mem e hd)
    have hstep : step s e = s := by
      rcases hhigh e List.mem_cons_self with rfl | rfl
      · show eepromSetScl s true = s
        rw [eepromSetScl, if_pos hs.symm]
      · show eepromSetSda s s.sdaMaster = s
        rw [eepromSetSda, if_pos rfl]
    have hquiet : (if s.scl = true ∧ e = .scl false then [eepromSda s] else []) = [] := by
      rw [if_neg]
      rintro ⟨-, rfl⟩
      rcases hhigh _ List.mem_cons_self with h | h
      · cases h
      · cases h
    constructor
    · show run (step s e) high = s
      rw [hstep, hrun]
    · rw [heard, hquiet, hstep, hheard]
      rfl

/-- SCL rises after the data have settled. -/
theorem rise_spec {s : EepromState} {sda level : Bool} (hs : On s (.busy sda)) {low high : List Edge} (hlow : Low low)
    (hsda : sdaAfter sda low = level) (hhigh : High level high) :
    run s (low ++ .scl true :: high) = clocked s level ∧ heard s (low ++ .scl true :: high) = [] := by
  obtain ⟨hscl, hmaster⟩ := hs
  obtain ⟨hrun, hheard⟩ := low_spec hscl hlow
  rw [hmaster, hsda] at hrun
  have hstep : step { s with sdaMaster := level } (.scl true) = clocked s level := by
    show eepromSetScl _ true = _
    rw [eepromSetScl, if_neg (by rw [hscl]; decide)]
    rfl
  have hwires := sclRises_wires { s with scl := true, sdaMaster := level }
  obtain ⟨hrun', hheard'⟩ := high_spec (s := clocked s level) hwires.1
    (by rw [show (clocked s level).sdaMaster = level from hwires.2]; exact hhigh)
  constructor
  · rw [run_append, hrun]
    show run (step _ _) high = _
    rw [hstep, hrun']
  · rw [heard_append, hheard, hrun, heard, hstep, hheard', if_neg]
    · rfl
    · rintro ⟨hup, -⟩
      rw [show ({ s with sdaMaster := level } : EepromState).scl = s.scl from rfl, hscl] at hup
      cases hup

/-- SDA changes while SCL is high. -/
theorem turn_spec {s : EepromState} (level : Bool) (hs : s.scl = true) (hsda : s.sdaMaster = !level) {high : List Edge}
    (hhigh : High level high) : run s (.sda level :: high) = started s level ∧ heard s (.sda level :: high) = [] := by
  have hstep : step s (.sda level) = started s level := by
    show eepromSetSda s level = _
    rw [eepromSetSda, if_neg (by rw [hsda]; cases level <;> decide), if_neg (by rw [hs]; decide)]
    rfl
  obtain ⟨hrun, hheard⟩ := high_spec (s := started s level) hs hhigh
  constructor
  · show run (step s _) high = _
    rw [hstep, hrun]
  · rw [heard, hstep, hheard, if_neg]
    · rfl
    · rintro ⟨-, h⟩
      cases h

theorem fall_spec {s : EepromState} (hs : s.scl = true) : heard s [.scl false] = [eepromSda s] := by
  rw [heard, if_pos ⟨hs, rfl⟩]
  rfl

theorem sclFalls_wires (s : EepromState) : (sclFalls s).scl = s.scl ∧ (sclFalls s).sdaMaster = s.sdaMaster := by
  unfold sclFalls byteReceived acknowledge driveBit
  split
  · simp only
    split <;> exact ⟨rfl, rfl⟩
  split
  · split
    · split <;> exact ⟨rfl, rfl⟩
    · split <;> exact ⟨rfl, rfl⟩
  split
  · split
    · split <;> exact ⟨rfl, rfl⟩
    · exact ⟨rfl, rfl⟩
    · exact ⟨rfl, rfl⟩
    · exact ⟨rfl, rfl⟩
  · exact ⟨rfl, rfl⟩

/-- From `P` on, these symbols are heard as `out`, whatever edges send them, and end in `Q`. -/
def Runs (P : EepromState → Prop) (syms : List Symbol) (out : List Bool) (Q : EepromState → Prop) : Prop :=
  ∀ s b edges c, On s b → P s → SendsAll syms b edges c → Q (run s edges) ∧ heard s edges = out ∧ On (run s edges) c

theorem SendsAll.split {l m : List Symbol} {b d : Bus} {edges : List Edge} (h : SendsAll (l ++ m) b edges d) :
    ∃ c x y, edges = x ++ y ∧ SendsAll l b x c ∧ SendsAll m c y d := by
  induction l generalizing b edges with
  | nil => exact ⟨b, [], edges, rfl, .nil, h⟩
  | cons sym l ih =>
    cases h with
    | cons hsym hrest =>
      obtain ⟨c, x, y, rfl, hl, hm⟩ := ih hrest
      exact ⟨c, _, y, (List.append_assoc _ _ _).symm, .cons hsym hl, hm⟩

variable {P Q R : EepromState → Prop} {l m : List Symbol} {out out' : List Bool}

theorem Runs.nil : Runs P [] [] P := by
  intro s b edges c hs hP h
  cases h
  exact ⟨hP, rfl, hs⟩

theorem Runs.append (h : Runs P l out Q) (h' : Runs Q m out' R) : Runs P (l ++ m) (out ++ out') R := by
  intro s b edges d hs hP hsends
  obtain ⟨c, x, y, rfl, hx, hy⟩ := hsends.split
  obtain ⟨hQ, hheard, hon⟩ := h s b x c hs hP hx
  obtain ⟨hR, hheard', hon'⟩ := h' _ c y d hon hQ hy
  rw [run_append, heard_append, hheard, hheard']
  exact ⟨hR, rfl, hon'⟩

theorem Runs.mono {P' Q' : EepromState → Prop} (h : Runs P l out Q) (hP : ∀ s, P' s → P s) (hQ : ∀ s, Q s → Q' s) :
    Runs P' l out Q' := by
  intro s b edges c hs hp hsends
  obtain ⟨hq, hrest⟩ := h s b edges c hs (hP s hp) hsends
  exact ⟨hQ _ hq, hrest⟩

theorem Runs.bit {level : Bool} {line : Bool}
    (h : ∀ s, P s → s.scl = false → eepromSda (clocked s level) = line ∧ Q (sclFalls { clocked s level with scl := false })) :
    Runs P [.bit level] [line] Q := by
  intro s b edges c hs hP hsends
  cases hsends with
  | cons hsym hrest =>
    cases hrest
    cases hsym with
    | bit low high hlow hsda hhigh =>
      obtain ⟨hrun, hheard⟩ := rise_spec hs hlow hsda hhigh
      obtain ⟨hline, hQ⟩ := h s hP hs.1
      have hscl : (clocked s level).scl = true := (sclRises_wires _).1
      have hmaster : (clocked s level).sdaMaster = level := (sclRises_wires _).2
      have hfalls : run (clocked s level) [.scl false] = sclFalls { clocked s level with scl := false } := by
        show eepromSetScl _ false = _
        rw [eepromSetScl, if_neg (by rw [hscl]; decide)]
        rfl
      rw [List.append_nil, run_append, heard_append, hrun, hheard, hfalls, fall_spec hscl, hline]
      exact ⟨hQ, rfl, (sclFalls_wires _).1, (sclFalls_wires _).2.trans hmaster⟩

/-! ## The slave between symbols -/

/-- `bits` of a byte have come in. -/
structure Receiving (p : Phase) (cells : UInt8 → UInt8) (cell : UInt8) (k : Nat) (byte : UInt8) (s : EepromState) : Prop where
  phase : s.phase = p
  mem : s.mem = cells
  addr : s.addr = cell
  bits : s.bits = k
  shift : s.shift = byte
  sdaSlave : s.sdaSlave = true
  ackSlot : s.ackSlot = false
  mackSlot : s.mackSlot = false

/-- A byte is in, and the slave holds SDA low. -/
structure Acking (n : Phase) (cells : UInt8 → UInt8) (cell : UInt8) (s : EepromState) : Prop where
  phase : s.phase ≠ .read
  next : s.next = n
  mem : s.mem = cells
  addr : s.addr = cell
  sdaSlave : s.sdaSlave = false
  ackSlot : s.ackSlot = true
  mackSlot : s.mackSlot = false

/-- Bit `k` of a cell is on SDA. -/
structure Sending (cells : UInt8 → UInt8) (cell : UInt8) (k : Nat) (s : EepromState) : Prop where
  phase : s.phase = .read
  mem : s.mem = cells
  addr : s.addr = cell
  bits : s.bits = k
  sdaSlave : s.sdaSlave = (cells cell).toNat.testBit (7 - k)
  ackSlot : s.ackSlot = false
  mackSlot : s.mackSlot = false

/-- A byte is out, and the master's turn to acknowledge. -/
structure Sent (cells : UInt8 → UInt8) (cell : UInt8) (s : EepromState) : Prop where
  phase : s.phase = .read
  mem : s.mem = cells
  addr : s.addr = cell
  sdaSlave : s.sdaSlave = true
  ackSlot : s.ackSlot = false
  mackSlot : s.mackSlot = true

/-- Not taking part. -/
structure Deaf (cells : UInt8 → UInt8) (s : EepromState) : Prop where
  phase : s.phase = .idle
  mem : s.mem = cells
  sdaSlave : s.sdaSlave = true
  ackSlot : s.ackSlot = false

section Falls

variable {s : EepromState} (hack : s.ackSlot = false)

include hack

theorem falls_kept (hread : s.phase ≠ .read) (h : s.phase = .idle ∨ s.bits ≠ 8) : sclFalls s = s := by
  unfold sclFalls
  rw [if_neg (by rw [hack]; decide), if_neg hread, if_neg]
  rintro ⟨hidle, hbits⟩
  rcases h with h | h
  · exact hidle h
  · exact h hbits

theorem falls_byte (hread : s.phase ≠ .read) (hidle : s.phase ≠ .idle) (hbits : s.bits = 8) : sclFalls s = byteReceived s := by
  unfold sclFalls
  rw [if_neg (by rw [hack]; decide), if_neg hread, if_pos ⟨hidle, hbits⟩]

theorem falls_send (hread : s.phase = .read) (hmack : s.mackSlot = false) (hbits : s.bits ≠ 8) : sclFalls s = driveBit s := by
  unfold sclFalls
  rw [if_neg (by rw [hack]; decide), if_pos hread, if_neg (by rw [hmack]; decide), if_neg hbits]

theorem falls_sent (hread : s.phase = .read) (hmack : s.mackSlot = false) (hbits : s.bits = 8) :
    sclFalls s = { s with sdaSlave := true, mackSlot := true } := by
  unfold sclFalls
  rw [if_neg (by rw [hack]; decide), if_pos hread, if_neg (by rw [hmack]; decide), if_pos hbits]

theorem falls_master (hread : s.phase = .read) (hmack : s.mackSlot = true) : sclFalls s =
    if s.masterNack then { s with mackSlot := false, phase := .idle, sdaSlave := true }
    else driveBit { s with mackSlot := false, addr := s.addr + 1, bits := 0 } := by
  unfold sclFalls
  rw [if_neg (by rw [hack]; decide), if_pos hread, if_pos hmack]

end Falls

variable {p n : Phase} {cells : UInt8 → UInt8} {cell byte : UInt8} {k : Nat}

def push (byte : UInt8) (level : Bool) : UInt8 := (byte <<< 1) ||| (if level then 1 else 0)

/-- The phases in which a byte comes in. -/
def Phase.Takes (p : Phase) : Prop := p ≠ .read ∧ p ≠ .idle

theorem clocked_receiving {s : EepromState} (level : Bool) (h : Receiving p cells cell k byte s) (hp : p.Takes) (hk : k < 8) :
    Receiving p cells cell (k + 1) (push byte level) { clocked s level with scl := false } ∧
      eepromSda (clocked s level) = level := by
  have hclocked : clocked s level =
      { s with scl := true, sdaMaster := level, shift := push s.shift level, bits := s.bits + 1 } := by
    unfold clocked sclRises
    rw [if_neg (by rw [h.phase]; exact hp.1), if_pos ⟨by rw [h.phase]; exact hp.2, h.ackSlot, by rw [h.bits]; exact hk⟩]
    rfl
  rw [hclocked]
  constructor
  · exact ⟨h.phase, h.mem, h.addr, congrArg (· + 1) h.bits, congrArg (push · level) h.shift, h.sdaSlave, h.ackSlot, h.mackSlot⟩
  · simp [eepromSda, h.sdaSlave]

theorem receive_bit (level : Bool) (hp : p.Takes) (hk : k < 7) :
    Runs (Receiving p cells cell k byte) [.bit level] [level] (Receiving p cells cell (k + 1) (push byte level)) := by
  apply Runs.bit
  intro s h hscl
  obtain ⟨hnext, hline⟩ := clocked_receiving level h hp (by omega)
  refine ⟨hline, ?_⟩
  rw [falls_kept hnext.ackSlot (by rw [hnext.phase]; exact hp.1) (.inr (by rw [hnext.bits]; omega))]
  exact hnext

theorem receive_bits (byte : UInt8) (levels : List Bool) (hp : p.Takes) (hk : k + levels.length < 8) :
    Runs (Receiving p cells cell k byte) (levels.map .bit) levels
      (Receiving p cells cell (k + levels.length) (levels.foldl push byte)) := by
  induction levels generalizing k byte with
  | nil => exact Runs.nil
  | cons level levels ih =>
    rw [List.length_cons] at hk ⊢
    have hrest := ih (k := k + 1) (push byte level) (by omega)
    rw [show k + 1 + levels.length = k + (levels.length + 1) by omega] at hrest
    exact (receive_bit level hp (by omega)).append hrest

/-- What the last bit of a byte leads to. -/
theorem receive_last {Q : EepromState → Prop} (byte : UInt8) (level : Bool) (hp : p.Takes)
    (h : ∀ s, Receiving p cells cell 8 (push byte level) s → Q (byteReceived s)) :
    Runs (Receiving p cells cell 7 byte) [.bit level] [level] Q := by
  apply Runs.bit
  intro s hs hscl
  obtain ⟨hnext, hline⟩ := clocked_receiving level hs hp (by omega)
  refine ⟨hline, ?_⟩
  rw [falls_byte hnext.ackSlot (by rw [hnext.phase]; exact hp.1) (by rw [hnext.phase]; exact hp.2) hnext.bits]
  exact h _ hnext

theorem ack_bit : Runs (Acking n cells cell) [.bit true] [false] fun s =>
    if n = .read then Sending cells cell 0 s else Receiving n cells cell 0 0 s := by
  apply Runs.bit
  intro s h hscl
  have hclocked : clocked s true = { s with scl := true, sdaMaster := true } := by
    unfold clocked sclRises
    rw [if_neg h.phase, if_neg]
    rintro ⟨-, hack, -⟩
    rw [show ({ s with scl := true, sdaMaster := true } : EepromState).ackSlot = s.ackSlot from rfl, h.ackSlot] at hack
    cases hack
  rw [hclocked]
  refine ⟨by simp [eepromSda, h.sdaSlave], ?_⟩
  unfold sclFalls
  rw [if_pos h.ackSlot]
  simp only [h.next]
  by_cases hread : n = .read
  · rw [if_pos hread, if_pos hread]
    exact ⟨hread, h.mem, h.addr, rfl, by simp [driveBit, h.mem, h.addr], rfl, h.mackSlot⟩
  · rw [if_neg hread, if_neg hread]
    exact ⟨rfl, h.mem, h.addr, rfl, rfl, rfl, rfl, h.mackSlot⟩

theorem clocked_sending {s : EepromState} (h : Sending cells cell k s) :
    clocked s true = { s with scl := true, sdaMaster := true, bits := s.bits + 1 } := by
  unfold clocked sclRises
  rw [if_pos h.phase, if_neg]
  intro hmack
  rw [show ({ s with scl := true, sdaMaster := true } : EepromState).mackSlot = s.mackSlot from rfl, h.mackSlot] at hmack
  cases hmack

theorem send_bit (hk : k < 7) :
    Runs (Sending cells cell k) [.bit true] [(cells cell).toNat.testBit (7 - k)] (Sending cells cell (k + 1)) := by
  apply Runs.bit
  intro s h hscl
  have hbits := h.bits
  rw [clocked_sending h]
  refine ⟨by simp [eepromSda, h.sdaSlave], ?_⟩
  show Sending cells cell (k + 1) (sclFalls { s with scl := false, sdaMaster := true, bits := s.bits + 1 })
  rw [falls_send (s := { s with scl := false, sdaMaster := true, bits := s.bits + 1 }) h.ackSlot h.phase h.mackSlot
    (by simp only; omega)]
  exact ⟨h.phase, h.mem, h.addr, congrArg (· + 1) hbits, by simp [driveBit, h.mem, h.addr, hbits], h.ackSlot, h.mackSlot⟩

theorem send_last : Runs (Sending cells cell 7) [.bit true] [(cells cell).toNat.testBit 0] (Sent cells cell) := by
  apply Runs.bit
  intro s h hscl
  rw [clocked_sending h]
  refine ⟨by simp [eepromSda, h.sdaSlave], ?_⟩
  show Sent cells cell (sclFalls { s with scl := false, sdaMaster := true, bits := s.bits + 1 })
  rw [falls_sent (s := { s with scl := false, sdaMaster := true, bits := s.bits + 1 }) h.ackSlot h.phase h.mackSlot
    (congrArg (· + 1) h.bits)]
  exact ⟨h.phase, h.mem, h.addr, rfl, h.ackSlot, rfl⟩

theorem clocked_sent {s : EepromState} {level : Bool} (h : Sent cells cell s) :
    clocked s level = { s with scl := true, sdaMaster := level, masterNack := level } := by
  unfold clocked sclRises
  rw [if_pos h.phase, if_pos h.mackSlot]

theorem master_ack : Runs (Sent cells cell) [.bit false] [false] (Sending cells (cell + 1) 0) := by
  apply Runs.bit
  intro s h hscl
  rw [clocked_sent h]
  refine ⟨rfl, ?_⟩
  show Sending cells (cell + 1) 0 (sclFalls { s with scl := false, sdaMaster := false, masterNack := false })
  rw [falls_master (s := { s with scl := false, sdaMaster := false, masterNack := false }) h.ackSlot h.phase h.mackSlot,
    if_neg (by simp)]
  exact ⟨h.phase, h.mem, congrArg (· + 1) h.addr, rfl, by simp [driveBit, h.mem, h.addr], h.ackSlot, rfl⟩

theorem master_nack : Runs (Sent cells cell) [.bit true] [true] (Deaf cells) := by
  apply Runs.bit
  intro s h hscl
  rw [clocked_sent h]
  refine ⟨by simp [eepromSda, h.sdaSlave], ?_⟩
  show Deaf cells (sclFalls { s with scl := false, sdaMaster := true, masterNack := true })
  rw [falls_master (s := { s with scl := false, sdaMaster := true, masterNack := true }) h.ackSlot h.phase h.mackSlot, if_pos rfl]
  exact ⟨rfl, h.mem, rfl, h.ackSlot⟩

theorem deaf_bits (levels : List Bool) : Runs (Deaf cells) (levels.map .bit) levels (Deaf cells) := by
  induction levels with
  | nil => exact Runs.nil
  | cons level levels ih =>
    have hbit : Runs (Deaf cells) [.bit level] [level] (Deaf cells) := by
      apply Runs.bit
      intro s h hscl
      have hidle := h.phase
      have hclocked : clocked s level = { s with scl := true, sdaMaster := level } := by
        unfold clocked sclRises
        have hnot : ({ s with scl := true, sdaMaster := level } : EepromState).phase ≠ .read := by
          rw [show ({ s with scl := true, sdaMaster := level } : EepromState).phase = s.phase from rfl, hidle]
          decide
        rw [if_neg hnot, if_neg fun hnot => hnot.1 hidle]
      rw [hclocked]
      refine ⟨by simp [eepromSda, h.sdaSlave], ?_⟩
      show Deaf cells (sclFalls { s with scl := false, sdaMaster := level })
      rw [falls_kept (s := { s with scl := false, sdaMaster := level }) h.ackSlot (by simp only [hidle]; decide) (.inl hidle)]
      exact ⟨h.phase, h.mem, h.sdaSlave, h.ackSlot⟩
    exact hbit.append ih

theorem clocked_mem (s : EepromState) (level : Bool) : (clocked s level).mem = s.mem ∧ (clocked s level).addr = s.addr := by
  unfold clocked sclRises
  split
  · split <;> exact ⟨rfl, rfl⟩
  · split <;> exact ⟨rfl, rfl⟩

/-- A START, from wherever the slave is. -/
theorem start_device : Runs (fun s => s.mem = cells ∧ s.addr = cell) [.start] [false] (Receiving .device cells cell 0 0) := by
  intro s b edges c hs hP hsends
  have hfalls : ∀ t : EepromState, t.scl = true → t.mem = cells ∧ t.addr = cell →
    run (started t false) [.scl false] = { started t false with scl := false } ∧
      Receiving .device cells cell 0 0 { started t false with scl := false } := by
    rintro t ht ⟨hmem, haddr⟩
    have hscl : (started t false).scl = true := ht
    constructor
    · show eepromSetScl _ false = _
      rw [eepromSetScl, if_neg (by rw [hscl]; decide)]
      rfl
    · exact ⟨rfl, hmem, haddr, rfl, rfl, rfl, rfl, rfl⟩
  cases hsends with
  | cons hsym hrest =>
    cases hrest
    rw [List.append_nil]
    cases hsym with
    | start high high' hhigh hhigh' =>
      obtain ⟨hscl, hmaster⟩ := hs
      obtain ⟨hrun, hheard⟩ := high_spec hscl (by rw [hmaster]; exact hhigh)
      obtain ⟨hrun', hheard'⟩ := turn_spec (s := s) false hscl (by rw [hmaster]; rfl) hhigh'
      obtain ⟨hfall, hreceiving⟩ := hfalls s hscl hP
      rw [List.append_assoc, run_append, heard_append, hrun, hheard, run_append, heard_append, hrun', hheard', hfall,
        fall_spec (s := started s false) hscl]
      exact ⟨hreceiving, rfl, rfl, rfl⟩
    | restart low high high' hlow hsda hhigh hhigh' =>
      obtain ⟨hrun, hheard⟩ := rise_spec hs hlow hsda hhigh
      have hscl : (clocked s true).scl = true := (sclRises_wires _).1
      have hmaster : (clocked s true).sdaMaster = true := (sclRises_wires _).2
      obtain ⟨hrun', hheard'⟩ := turn_spec (s := clocked s true) false hscl (by rw [hmaster]; rfl) hhigh'
      obtain ⟨hfall, hreceiving⟩ := hfalls (clocked s true) hscl
        ⟨(clocked_mem s true).1.trans hP.1, (clocked_mem s true).2.trans hP.2⟩
      rw [List.append_assoc, run_append, heard_append, hrun, hheard, run_append, heard_append, hrun', hheard', hfall,
        fall_spec (s := started (clocked s true) false) hscl]
      exact ⟨hreceiving, rfl, rfl, rfl⟩

theorem stop_keeps : Runs (fun s => s.mem = cells) [.stop] [] fun s => s.mem = cells := by
  intro s b edges c hs hP hsends
  cases hsends with
  | cons hsym hrest =>
    cases hrest
    rw [List.append_nil]
    cases hsym with
    | stop low high high' hlow hsda hhigh hhigh' =>
      obtain ⟨hrun, hheard⟩ := rise_spec hs hlow hsda hhigh
      have hscl : (clocked s false).scl = true := (sclRises_wires _).1
      have hmaster : (clocked s false).sdaMaster = false := (sclRises_wires _).2
      obtain ⟨hrun', hheard'⟩ := turn_spec (s := clocked s false) true hscl (by rw [hmaster]; rfl) hhigh'
      rw [run_append, heard_append, hrun, hheard, hrun', hheard']
      exact ⟨(clocked_mem s false).1.trans hP, rfl, hscl, rfl⟩

/-! ## Bytes -/

/-- The bits of a byte, the first one sent first. -/
def bitsOf (b : UInt8) : List Bool := (List.range 8).map fun i => b.toNat.testBit (7 - i)

def sendByte (b : UInt8) : List Symbol := (bitsOf b).map .bit ++ [.bit true]

/-- The master releases SDA for a byte, and acknowledges it or not. -/
def takeByte (ack : Bool) : List Symbol := List.replicate 8 (.bit true) ++ [.bit (!ack)]

def acked (b : UInt8) : List Bool := bitsOf b ++ [false]

theorem push_bit (byte : UInt8) (level : Bool) (i : Nat) (hi : i < 8) :
    (push byte level).toBitVec.getLsbD i = if i = 0 then level else byte.toBitVec.getLsbD (i - 1) := by
  unfold push
  cases level
  · interval_cases i <;> simp
  · interval_cases i <;> simp

theorem push_bits (b : UInt8) :
    push (((List.range 7).map fun i => b.toNat.testBit (7 - i)).foldl push 0) (b.toNat.testBit 0) = b := by
  have hrange : List.range 7 = [0, 1, 2, 3, 4, 5, 6] := rfl
  simp only [hrange, List.map_cons, List.map_nil, List.foldl_cons, List.foldl_nil]
  apply UInt8.toBitVec_inj.mp
  apply BitVec.eq_of_getLsbD_eq
  intro i hi
  simp only [← UInt8.toNat_toBitVec, BitVec.testBit_toNat]
  interval_cases i <;> simp (disch := decide) only [push_bit, if_true, reduceIte, OfNat.ofNat_ne_zero, one_ne_zero, Nat.reduceSub]

/-- A byte comes in, and leads on. -/
theorem receive_byte {Q : EepromState → Prop} (b : UInt8) (hp : p.Takes)
    (h : ∀ s, Receiving p cells cell 8 b s → Q (byteReceived s)) :
    Runs (Receiving p cells cell 0 0) ((bitsOf b).map .bit) (bitsOf b) Q := by
  have hfront : Runs (Receiving p cells cell 0 0) _ _ _ :=
    receive_bits 0 ((List.range 7).map fun i => b.toNat.testBit (7 - i)) hp (by simp)
  have hlast : Runs (Receiving p cells cell 7 _) _ _ Q :=
    receive_last (((List.range 7).map fun i => b.toNat.testBit (7 - i)).foldl push 0) (b.toNat.testBit 0) hp
      (by rw [push_bits]; exact h)
  exact hfront.append hlast

/-- A byte that is acknowledged. -/
theorem receive_acked (b : UInt8) (hp : p.Takes) {cells' : UInt8 → UInt8} {cell' : UInt8}
    (h : ∀ s, Receiving p cells cell 8 b s → Acking n cells' cell' (byteReceived s)) :
    Runs (Receiving p cells cell 0 0) (sendByte b) (acked b) fun s =>
      if n = .read then Sending cells' cell' 0 s else Receiving n cells' cell' 0 0 s :=
  (receive_byte b hp h).append ack_bit

theorem acknowledged {s : EepromState} (hread : s.phase ≠ .read) (hmack : s.mackSlot = false) :
    Acking s.next s.mem s.addr (acknowledge s) := ⟨hread, rfl, rfl, rfl, rfl, rfl, hmack⟩

theorem device_acks {b : UInt8} (hb : b &&& 0xFE = 0xA0) {s : EepromState} (h : Receiving .device cells cell 8 b s) :
    Acking (if b &&& 1 ≠ 0 then .read else .word) cells cell (byteReceived s) := by
  have hreceived : byteReceived s = acknowledge { s with next := if s.shift &&& 1 ≠ 0 then .read else .word } := by
    unfold byteReceived
    rw [h.phase]
    simp only
    rw [if_neg]
    rw [h.shift]
    exact fun hnot => hnot hb
  have hdone := acknowledged (s := { s with next := if s.shift &&& 1 ≠ 0 then .read else .word })
    (by simp only [h.phase]; decide) h.mackSlot
  rw [hreceived, ← h.shift, ← h.mem, ← h.addr]
  exact hdone

theorem device_write : Runs (Receiving .device cells cell 0 0) (sendByte 0xA0) (acked 0xA0) (Receiving .word cells cell 0 0) :=
  receive_acked (n := .word) 0xA0 ⟨by decide, by decide⟩ fun _ h => device_acks rfl h

theorem device_read : Runs (Receiving .device cells cell 0 0) (sendByte 0xA1) (acked 0xA1) (Sending cells cell 0) :=
  receive_acked (n := .read) 0xA1 ⟨by decide, by decide⟩ fun _ h => device_acks rfl h

theorem word_byte (a : UInt8) : Runs (Receiving .word cells cell 0 0) (sendByte a) (acked a) (Receiving .write cells a 0 0) := by
  apply receive_acked (n := .write) a ⟨by decide, by decide⟩
  intro s h
  have hreceived : byteReceived s = acknowledge { s with addr := s.shift, next := .write } := by
    unfold byteReceived
    rw [h.phase]
  have hdone := acknowledged (s := { s with addr := s.shift, next := .write }) (by simp only [h.phase]; decide) h.mackSlot
  rw [hreceived, ← h.mem, ← h.shift]
  exact hdone

theorem write_byte (b : UInt8) : Runs (Receiving .write cells cell 0 0) (sendByte b) (acked b)
    (Receiving .write (Function.update cells cell b) (cell + 1) 0 0) := by
  apply receive_acked (n := .write) b ⟨by decide, by decide⟩
  intro s h
  have hreceived : byteReceived s =
      acknowledge { s with mem := Function.update s.mem s.addr s.shift, addr := s.addr + 1, next := .write } := by
    unfold byteReceived
    rw [h.phase]
  have hdone := acknowledged (s := { s with mem := Function.update s.mem s.addr s.shift, addr := s.addr + 1, next := .write })
    (by simp only [h.phase]; decide) h.mackSlot
  rw [hreceived, ← h.mem, ← h.shift, ← h.addr]
  exact hdone

/-- Another device's byte. -/
theorem device_other {d : UInt8} (hd : d &&& 0xFE ≠ 0xA0) :
    Runs (Receiving .device cells cell 0 0) ((bitsOf d).map .bit) (bitsOf d) (Deaf cells) := by
  apply receive_byte d ⟨by decide, by decide⟩
  intro s h
  have hreceived : byteReceived s = { s with phase := .idle } := by
    unfold byteReceived
    rw [h.phase]
    simp only
    rw [if_pos (by rw [h.shift]; exact hd)]
  rw [hreceived]
  exact ⟨rfl, h.mem, h.sdaSlave, h.ackSlot⟩

theorem send_bits (j : Nat) (hj : j ≤ 7) : Runs (Sending cells cell 0) (List.replicate j (.bit true))
    ((List.range j).map fun i => (cells cell).toNat.testBit (7 - i)) (Sending cells cell j) := by
  induction j with
  | zero => exact Runs.nil
  | succ j ih =>
    rw [List.replicate_succ', List.range_succ, List.map_append]
    exact (ih (by omega)).append (send_bit (by omega))

theorem send_byte : Runs (Sending cells cell 0) (List.replicate 8 (.bit true)) (bitsOf (cells cell)) (Sent cells cell) :=
  (send_bits 7 (by decide)).append send_last

/-! ## Transfers -/

def writeTransfer (a : UInt8) (data : List UInt8) : List Symbol := .start :: ((0xA0 :: a :: data).flatMap sendByte ++ [.stop])

/-- A read of `k + 1` bytes from an address on. -/
def readTransfer (a : UInt8) (k : Nat) : List Symbol :=
  .start :: (sendByte 0xA0 ++ (sendByte a ++ (.start :: (sendByte 0xA1 ++ ((List.replicate k (takeByte true)).flatten ++
    (takeByte false ++ [.stop]))))))

/-- A transfer to some device, of any bits after its byte; what follows may be a START. -/
def openTransfer (d : UInt8) (levels : List Bool) : List Symbol := .start :: ((bitsOf d).map .bit ++ levels.map .bit)

/-- It, with its STOP. -/
def anyTransfer (d : UInt8) (levels : List Bool) : List Symbol := .start :: ((bitsOf d).map .bit ++ (levels.map .bit ++ [.stop]))

/-- The cells after bytes have been written from one on. -/
def written (cells : UInt8 → UInt8) : UInt8 → List UInt8 → UInt8 → UInt8
  | _, [] => cells
  | a, b :: data => written (Function.update cells a b) (a + 1) data

theorem write_bytes (data : List UInt8) : Runs (Receiving .write cells cell 0 0) (data.flatMap sendByte) (data.flatMap acked)
    fun s => s.mem = written cells cell data := by
  induction data generalizing cells cell with
  | nil => exact Runs.nil.mono (fun _ h => h) fun s h => h.mem
  | cons b data ih =>
    rw [List.flatMap_cons, List.flatMap_cons]
    exact (write_byte b).append ih

theorem send_bytes (k : Nat) : Runs (Sending cells cell 0) (List.replicate k (takeByte true)).flatten
    ((List.range k).flatMap fun i => acked (cells (cell + UInt8.ofNat i))) (Sending cells (cell + UInt8.ofNat k) 0) := by
  induction k with
  | zero =>
    rw [show cell + UInt8.ofNat 0 = cell from UInt8.add_zero cell]
    exact Runs.nil
  | succ k ih =>
    rw [List.replicate_succ', List.flatten_append, List.flatten_singleton, List.range_succ, List.flatMap_append,
      List.flatMap_singleton]
    have hone : cell + UInt8.ofNat k + 1 = cell + UInt8.ofNat (k + 1) :=
      by rw [UInt8.add_assoc, ← UInt8.ofNat_one, ← UInt8.ofNat_add]
    rw [← hone]
    exact ih.append (send_byte.append master_ack)

theorem start_then {syms : List Symbol} (h : Runs (Receiving .device cells cell 0 0) syms out Q) :
    Runs (fun s => s.mem = cells ∧ s.addr = cell) (.start :: syms) (false :: out) Q := start_device.append h

/-- Whatever the address counter is. -/
theorem Runs.anywhere (h : ∀ cell, Runs (fun s => s.mem = cells ∧ s.addr = cell) l out Q) :
    Runs (fun s => s.mem = cells) l out Q := by
  intro s b edges c hs hP hsends
  exact h s.addr s b edges c hs ⟨hP, rfl⟩ hsends

theorem write_transfer (a : UInt8) (data : List UInt8) : Runs (fun s => s.mem = cells) (writeTransfer a data)
    (false :: (0xA0 :: a :: data).flatMap acked) fun s => s.mem = written cells a data := by
  apply Runs.anywhere
  intro cell
  apply start_then
  have hword : Runs (Receiving .word cells cell 0 0) _ _ _ := word_byte a
  have hall := (device_write.append (hword.append (write_bytes data))).append stop_keeps
  simpa only [List.flatMap_cons, List.append_assoc, List.append_nil] using hall

theorem read_transfer (a : UInt8) (k : Nat) : Runs (fun s => s.mem = cells) (readTransfer a k)
    (false :: (acked 0xA0 ++ (acked a ++ (false :: (acked 0xA1 ++
      (((List.range k).flatMap fun i => acked (cells (a + UInt8.ofNat i))) ++ (bitsOf (cells (a + UInt8.ofNat k)) ++ [true])))))))
    fun s => s.mem = cells := by
  have hlast : Runs (Sending cells (a + UInt8.ofNat k) 0) (takeByte false ++ [.stop])
      (bitsOf (cells (a + UInt8.ofNat k)) ++ [true]) fun s => s.mem = cells := by
    have hsend : Runs (Sending cells (a + UInt8.ofNat k) 0) _ _ _ := send_byte
    have hstop : Runs (Deaf cells) _ _ _ := stop_keeps.mono (fun _ h => h.mem) fun _ h => h
    have hend := (hsend.append master_nack).append hstop
    rw [List.append_nil] at hend
    exact hend
  have hread := start_then (device_read.append ((send_bytes k).append hlast))
  apply Runs.anywhere
  intro cell
  apply start_then
  exact device_write.append ((word_byte a).append (hread.mono (fun s h => ⟨h.mem, h.addr⟩) fun _ h => h))

theorem other_transfer {d : UInt8} (hd : d &&& 0xFE ≠ 0xA0) (levels : List Bool) :
    Runs (fun s => s.mem = cells) (anyTransfer d levels)
    (false :: (bitsOf d ++ levels)) fun s => s.mem = cells := by
  apply Runs.anywhere
  intro cell
  apply start_then
  have hstop : Runs (Deaf cells) _ _ _ := stop_keeps.mono (fun _ h => h.mem) fun _ h => h
  have hend := (deaf_bits levels).append hstop
  rw [List.append_nil] at hend
  exact (device_other hd).append hend

theorem open_transfer {d : UInt8} (hd : d &&& 0xFE ≠ 0xA0) (levels : List Bool) :
    Runs (fun s => s.mem = cells) (openTransfer d levels)
    (false :: (bitsOf d ++ levels)) fun s => s.mem = cells := by
  apply Runs.anywhere
  intro cell
  apply start_then
  exact (device_other hd).append ((deaf_bits levels).mono (fun _ h => h) fun _ h => h.mem)

/-! ## The cells -/

theorem ofNat_add_one (a : UInt8) (i : Nat) : a + 1 + UInt8.ofNat i = a + UInt8.ofNat (i + 1) := by
  rw [UInt8.ofNat_add, UInt8.add_assoc, UInt8.add_comm 1]
  rfl

/-- Cells that no byte was for are left alone. -/
theorem written_other (a : UInt8) (data : List UInt8) {c : UInt8} (hc : ∀ i < data.length, c ≠ a + UInt8.ofNat i) :
    written cells a data c = cells c := by
  induction data generalizing cells a with
  | nil => rfl
  | cons b data ih =>
    rw [written, ih (a + 1), Function.update_of_ne]
    · have hfirst := hc 0 (by simp)
      rwa [show a + UInt8.ofNat 0 = a from UInt8.add_zero a] at hfirst
    · intro i hi
      rw [ofNat_add_one]
      exact hc (i + 1) (by simpa using hi)

/-- Two offsets less than 256 apart are two cells. -/
theorem offset_ne (a : UInt8) {i j : Nat} (hij : i < j) (hj : j < i + 256) : a + UInt8.ofNat i ≠ a + UInt8.ofNat j := by
  intro h
  have heq := congrArg UInt8.toNat ((UInt8.add_right_inj a).mp h)
  rw [UInt8.toNat_ofNat', UInt8.toNat_ofNat'] at heq
  omega

/-- The last 256 bytes stay. -/
theorem written_last (a : UInt8) (data : List UInt8) {i : Nat} (hi : i < data.length) (hlast : data.length ≤ i + 256) :
    written cells a data (a + UInt8.ofNat i) = data[i] := by
  induction data generalizing cells a i with
  | nil => simp at hi
  | cons b data ih =>
    rw [List.length_cons] at hi hlast
    rw [written]
    rcases i with _ | i
    · rw [show a + UInt8.ofNat 0 = a from UInt8.add_zero a, written_other, Function.update_self]
      · rfl
      · intro j hj
        rw [ofNat_add_one]
        have hne := offset_ne a (i := 0) (j := j + 1) (by omega) (by omega)
        rwa [show a + UInt8.ofNat 0 = a from UInt8.add_zero a] at hne
    · rw [← ofNat_add_one, ih (a + 1) (by omega) (by omega)]
      rfl

/-! ## Writing and reading back -/

/-- A write, then a read from the same address, after a STOP or a transfer still open: each byte
    is acknowledged, the cells hold the last 256 bytes and are otherwise as they were, and the
    read returns what they hold. A transfer to another device, up to its STOP or to the next
    START, is heard as the master sends it. -/
theorem stored_and_read {s : EepromState} {b c e : Bus} (hs : On s b) (a : UInt8) (data : List UInt8) (k : Nat) {w r : List Edge}
    (hw : SendsAll (writeTransfer a data) b w c) (hr : SendsAll (readTransfer a k) c r e) :
    heard s w = false :: (0xA0 :: a :: data).flatMap acked ∧
    heard (run s w) r = false :: (acked 0xA0 ++ (acked a ++ (false :: (acked 0xA1 ++
      (((List.range k).flatMap fun i => acked ((run s w).mem (a + UInt8.ofNat i))) ++
        (bitsOf ((run s w).mem (a + UInt8.ofNat k)) ++ [true])))))) ∧
    (run s (w ++ r)).mem = (run s w).mem ∧
    (∀ i (hi : i < data.length), data.length ≤ i + 256 → (run s w).mem (a + UInt8.ofNat i) = data[i]) ∧
    (∀ n, (∀ i < data.length, n ≠ a + UInt8.ofNat i) → (run s w).mem n = s.mem n) ∧
    ∀ d levels x f, d &&& 0xFE ≠ 0xA0 → SendsAll (anyTransfer d levels) b x f ∨ SendsAll (openTransfer d levels) b x f →
      heard s x = false :: (bitsOf d ++ levels) ∧ (run s x).mem = s.mem ∧ On (run s x) f := by
  obtain ⟨hmem, hheard, hon⟩ := write_transfer a data s b w c hs rfl hw
  obtain ⟨hmem', hheard', -⟩ := read_transfer a k (run s w) c r e hon rfl hr
  refine ⟨hheard, hheard', ?_, ?_, ?_, ?_⟩
  · rw [run_append]
    exact hmem'
  · intro i hi hlast
    rw [hmem]
    exact written_last a data hi hlast
  · intro n hn
    rw [hmem]
    exact written_other a data hn
  · intro d levels x f hd hx
    rcases hx with hx | hx
    · obtain ⟨hkept, hbits, hafter⟩ := other_transfer hd levels s b x f hs rfl hx
      exact ⟨hbits, hkept, hafter⟩
    · obtain ⟨hkept, hbits, hafter⟩ := open_transfer hd levels s b x f hs rfl hx
      exact ⟨hbits, hkept, hafter⟩

/-- The plainest waveform of a list of symbols, and the bus after it. -/
def waves : Bus → List Symbol → List Edge
  | _, [] => []
  | _, .bit level :: syms => [.sda level, .scl true, .scl false] ++ waves (.busy level) syms
  | .idle, .start :: syms => [.sda false, .scl false] ++ waves (.busy false) syms
  | .busy _, .start :: syms => [.sda true, .scl true, .sda false, .scl false] ++ waves (.busy false) syms
  | _, .stop :: syms => [.sda false, .scl true, .sda true] ++ waves .idle syms

def busAfter : Bus → List Symbol → Option Bus
  | b, [] => some b
  | .busy _, .bit level :: syms => busAfter (.busy level) syms
  | _, .start :: syms => busAfter (.busy false) syms
  | .busy _, .stop :: syms => busAfter .idle syms
  | .idle, _ => none

theorem low_one (level : Bool) : Low [.sda level] := by
  intro e he
  rw [List.mem_singleton.mp he]
  exact Or.inr ⟨level, rfl⟩

theorem high_nil (level : Bool) : High level [] := by
  intro e he
  cases he

theorem waves_sent {syms : List Symbol} {b c : Bus} (h : busAfter b syms = some c) : SendsAll syms b (waves b syms) c := by
  induction syms generalizing b with
  | nil =>
    cases h
    exact .nil
  | cons sym syms ih =>
    rcases sym with _ | level | _
    · rcases b with _ | sda
      · exact .cons (.start [] [] (high_nil _) (high_nil _)) (ih h)
      · exact .cons (.restart [.sda true] [] [] (low_one _) rfl (high_nil _) (high_nil _)) (ih h)
    · rcases b with _ | sda
      · cases h
      · exact .cons (.bit [.sda level] [] (low_one _) (by cases level <;> rfl) (high_nil _)) (ih h)
    · rcases b with _ | sda
      · cases h
      · exact .cons (.stop [.sda false] [] [] (low_one _) rfl (high_nil _) (high_nil _)) (ih h)

/-- A byte to another device, without STOP. -/
def interrupted : EepromState := run eepromInit (waves .idle (openTransfer 0x42 [true]))

/-- Then two bytes at the last address: the second one goes to the first cell. -/
theorem stored_and_read_wrapped : (run interrupted (waves (.busy true) (writeTransfer 0xFF [0x12, 0x34]))).mem 0xFF = 0x12 ∧
    (run interrupted (waves (.busy true) (writeTransfer 0xFF [0x12, 0x34]))).mem 0x00 = 0x34 := by
  have hwrite : busAfter (.busy true) (writeTransfer 0xFF [0x12, 0x34]) = some .idle := rfl
  have hread : busAfter .idle (readTransfer 0xFF 1) = some .idle := rfl
  have hbusy : On interrupted (.busy true) := ⟨rfl, rfl⟩
  have hcells := (stored_and_read hbusy 0xFF [0x12, 0x34] 1 (waves_sent hwrite) (waves_sent hread)).2.2.2.1
  generalize run interrupted (waves (.busy true) (writeTransfer 0xFF [0x12, 0x34])) = s at hcells ⊢
  exact ⟨hcells 0 (by decide) (by decide), hcells 1 (by decide) (by decide)⟩

end Be300.Eeprom
