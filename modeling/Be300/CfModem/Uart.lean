/-
  Be300.CfModem.Uart — the CF data modem (`src/hw/modem.c`): a 16550 with an AT command
  interpreter.

  The interpreter walks over the line in `cmd` with a cursor; a read past the NUL that ends it
  is a fault, as is one byte too many in the dial number, and a loop that does not end runs out
  of fuel. A parameter that leaves the range of `int` is no fault: the arithmetic wraps, and
  `overflow` stays set from then on. `calls` are the callbacks made, and `queue` what the
  receive ring took, gave and dropped; nothing of the modem depends on these three.
-/

import Be300.Lib.Fifo
import Be300.Lib.Queue

namespace Be300.CfModem

open Lib

def modemRx : Nat := 4096
def cmdSize : Nat := 96
def numberSize : Nat := 64
def intMax : Nat := 2 ^ 31 - 1

def lsrDr : UInt8 := 0x01
def lsrThre : UInt8 := 0x20
def lsrTemt : UInt8 := 0x40
def msrCts : UInt8 := 0x10
def msrDsr : UInt8 := 0x20
def msrDcd : UInt8 := 0x80
def msrDdcd : UInt8 := 0x08
def mcrDtr : UInt8 := 0x01

inductive Fault where
  | past
  | number
  | fuel
  deriving DecidableEq

/-- The callbacks, and whether a dialed peer answered. -/
inductive Call where
  | dialed (number : List Char) (answer : Bool)
  | hungUp
  | sent (b : UInt8)
  deriving DecidableEq

/-- `cmd` is the first `cmd_len` bytes of the command buffer. -/
structure Modem where
  ier : UInt8
  lcr : UInt8
  mcr : UInt8
  fcr : UInt8
  scr : UInt8
  dll : UInt8
  dlm : UInt8
  msrDelta : UInt8
  threIrq : Bool
  rx : Fifo UInt8
  gps : Bool
  online : Bool
  echo : Bool
  verbose : Bool
  cmd : List Char
  connectRate : Nat
  overflow : Bool
  calls : List Call
  queue : List (Traffic UInt8)

def push (m : Modem) (b : UInt8) : Modem :=
  if m.rx.count = modemRx then m else { m with rx := m.rx.push modemRx b, queue := m.queue ++ [.arrived [b]] }

def say (m : Modem) (s : List Char) : Modem := s.foldl (fun m c => push m (UInt8.ofNat c.toNat)) m

def result (m : Modem) (text : List Char) (code : Nat) : Modem :=
  say m (if m.verbose then '\r' :: '\n' :: text ++ ['\r', '\n'] else Nat.toDigits 10 code ++ ['\r'])

/-- What a reset leaves: the callbacks and whether the card is a GPS receiver. -/
def modemReset (gps : Bool) : Modem :=
  { ier := 0, lcr := 0, mcr := 0, fcr := 0, scr := 0, dll := 0, dlm := 0, msrDelta := 0, threIrq := true
    rx := ⟨fun _ => 0, 0, 0⟩, gps := gps, online := gps, echo := !gps, verbose := !gps, cmd := [], connectRate := 52000
    overflow := false, calls := [], queue := [] }

def hangUp (m : Modem) (report : Bool) : Modem :=
  if m.online then
    let m := { m with online := false, msrDelta := m.msrDelta ||| msrDdcd, calls := m.calls ++ [.hungUp] }
    if report then result m "NO CARRIER".toList 3 else m
  else m

/-! ## Commands -/

/-- A character of the line, or the NUL that ends it. -/
def charAt (text : List Char) (p : Nat) : Except Fault Char :=
  if h : p < text.length then .ok text[p] else if p = text.length then .ok '\x00' else .error .past

def digitsLoop (line : List Char) : Nat → Nat → Nat → Bool → Except Fault (Nat × Nat × Bool)
  | 0, _, _, _ => .error .fuel
  | fuel + 1, p, v, large => do
    let c ← charAt line p
    if c.isDigit then
      let next := v * 10 + (c.toNat - '0'.toNat)
      digitsLoop line fuel (p + 1) (next % 2 ^ 32) (large || decide (intMax < next))
    else pure (p, v, large)

/-- Where the digits end, their value, and whether that left the range of `int`. -/
def digits (line : List Char) (p : Nat) : Except Fault (Nat × Nat × Bool) := digitsLoop line (line.length + 1) p 0 false

/-- Digits with their value noted. -/
def parameter (line : List Char) (p : Nat) (m : Modem) : Except Fault (Nat × Nat × Modem) := do
  let (p, v, large) ← digits line p
  pure (p, v, { m with overflow := m.overflow || large })

def numberLoop (line : List Char) : Nat → Nat → List Char → Except Fault (List Char)
  | 0, _, _ => .error .fuel
  | fuel + 1, p, number => do
    let c ← charAt line p
    if c ≠ '\x00' ∧ c ≠ ';' ∧ number.length + 1 < numberSize then
      if c.isDigit ∨ c = '*' ∨ c = '#' then
        if numberSize ≤ number.length then .error .number else numberLoop line fuel (p + 1) (number ++ [c])
      else numberLoop line fuel (p + 1) number
    else if numberSize ≤ number.length then .error .number
    else pure number

/-- The rest of the line is the dial string. -/
def dialCommand (line : List Char) (p : Nat) (answer : Bool) (m : Modem) : Except Fault Modem := do
  let number ← numberLoop line (line.length + 1) p []
  if number = [] then pure (result m "OK".toList 0)
  else
    let m := { m with calls := m.calls ++ [.dialed number answer] }
    if answer = false then pure (result m "NO CARRIER".toList 3)
    else
      let m := result m ("CONNECT ".toList ++ Nat.toDigits 10 m.connectRate) 1
      pure { m with online := true, msrDelta := m.msrDelta ||| msrDdcd }

def commandLoop (line : List Char) (answer : Bool) : Nat → Nat → Modem → Except Fault Modem
  | 0, _, _ => .error .fuel
  | fuel + 1, p, m => do
    let c ← charAt line p
    if c = '\x00' then pure (result m "OK".toList 0)
    else
      let p := p + 1
      match c.toUpper with
      | ' ' => commandLoop line answer fuel p m
      | 'Z' =>
        let (p, _, m) ← parameter line p m
        commandLoop line answer fuel p { m with echo := true, verbose := true }
      | 'E' =>
        let (p, v, m) ← parameter line p m
        commandLoop line answer fuel p { m with echo := decide (v ≠ 0) }
      | 'V' =>
        let (p, v, m) ← parameter line p m
        commandLoop line answer fuel p { m with verbose := decide (v ≠ 0) }
      | 'I' =>
        let (p, v, m) ← parameter line p m
        commandLoop line answer fuel p
          (if v = 3 then say m "\r\nL27-01\r\n".toList else if v = 0 then say m "\r\n56000\r\n".toList else m)
      | 'H' =>
        let (p, _, m) ← parameter line p m
        commandLoop line answer fuel p (hangUp m false)
      | 'D' => dialCommand line p answer m
      | '&' =>
        let c ← charAt line p
        let (p, _, m) ← parameter line (if c = '\x00' then p else p + 1) m
        commandLoop line answer fuel p m
      | 'S' =>
        let (p, _, m) ← parameter line p m
        let c ← charAt line p
        if c = '=' then
          let (p, _, m) ← parameter line (p + 1) m
          commandLoop line answer fuel p m
        else if c = '?' then commandLoop line answer fuel (p + 1) (say m "\r\n000\r\n".toList)
        else commandLoop line answer fuel p m
      | c =>
        if c.isAlpha then
          let (p, _, m) ← parameter line p m
          commandLoop line answer fuel p m
        else pure (result m "ERROR".toList 4)

/-- The spaces in front of a line. -/
def skipSpaces (line : List Char) : Nat → Nat → Except Fault Nat
  | 0, _ => .error .fuel
  | fuel + 1, p => do
    let c ← charAt line p
    if c = ' ' then skipSpaces line fuel (p + 1) else pure p

def execute (line : List Char) (answer : Bool) (m : Modem) : Except Fault Modem := do
  let p ← skipSpaces line (line.length + 1) 0
  let first ← charAt line p
  if first.toUpper ≠ 'A' then
    pure (if first ≠ '\x00' then result m "ERROR".toList 4 else m)
  else
    let second ← charAt line (p + 1)
    if second.toUpper ≠ 'T' then pure (result m "ERROR".toList 4)
    else commandLoop line answer (line.length + 1) (p + 2) m

/-- A string ends at its first NUL. -/
def cString (cmd : List Char) : List Char := cmd.takeWhile fun c => decide (c ≠ '\x00')

def commandByte (m : Modem) (b : UInt8) (answer : Bool) : Except Fault Modem :=
  let m := if m.echo then push m b else m
  if b = 13 then execute (cString m.cmd) answer { m with cmd := [] }
  else if b = 8 ∨ b = 127 then pure { m with cmd := m.cmd.dropLast }
  else if 32 ≤ b ∧ b < 127 ∧ m.cmd.length + 1 < cmdSize then pure { m with cmd := m.cmd ++ [Char.ofNat b.toNat] }
  else pure m

/-! ## Registers -/

def dlab (m : Modem) : Bool := decide (m.lcr &&& 0x80 ≠ 0)

def modemRead (m : Modem) (reg : Nat) : Modem × UInt8 :=
  match reg % 8 with
  | 0 =>
    if dlab m then (m, m.dll)
    else if m.rx.count = 0 then (m, 0)
    else ({ m with rx := m.rx.pop modemRx, queue := m.queue ++ [.left m.rx.front] }, m.rx.front)
  | 1 => (m, if dlab m then m.dlm else m.ier)
  | 2 =>
    let fifo : UInt8 := if m.fcr &&& 1 ≠ 0 then 0xC0 else 0
    if m.ier &&& 1 ≠ 0 ∧ m.rx.count ≠ 0 then (m, fifo ||| 0x04)
    else if m.ier &&& 2 ≠ 0 ∧ m.threIrq then ({ m with threIrq := false }, fifo ||| 0x02)
    else if m.ier &&& 8 ≠ 0 ∧ m.msrDelta ≠ 0 then (m, fifo ||| 0x00)
    else (m, fifo ||| 0x01)
  | 3 => (m, m.lcr)
  | 4 => (m, m.mcr)
  | 5 => (m, (if m.rx.count ≠ 0 then lsrDr else 0) ||| lsrThre ||| lsrTemt)
  | 6 => ({ m with msrDelta := 0 }, msrCts ||| msrDsr ||| (if m.online ∧ m.gps = false then msrDcd else 0) ||| m.msrDelta)
  | _ => (m, m.scr)

/-- A write to the data register. -/
def writeData (m : Modem) (value : UInt8) (answer : Bool) : Except Fault Modem := do
  let m ← if m.online ∨ m.gps then pure { m with calls := m.calls ++ [.sent value] } else commandByte m value answer
  pure { m with threIrq := true }

def writeControl (m : Modem) (value : UInt8) : Modem :=
  let dtrWas := m.mcr &&& mcrDtr ≠ 0
  let m := { m with mcr := value }
  if m.gps then m else if dtrWas ∧ value &&& mcrDtr = 0 then hangUp m true else m

def modemWrite (m : Modem) (reg : Nat) (value : UInt8) (answer : Bool) : Except Fault Modem :=
  match reg % 8 with
  | 0 => if dlab m then pure { m with dll := value } else writeData m value answer
  | 1 =>
    if dlab m then pure { m with dlm := value }
    else
      let raised := value &&& 2 ≠ 0 ∧ m.ier &&& 2 = 0
      pure { m with threIrq := m.threIrq || decide raised, ier := value &&& 0x0F }
  | 2 =>
    let m := { m with fcr := value }
    pure (if value &&& 2 ≠ 0 then { m with rx := m.rx.clear, queue := m.queue ++ [.dropped] } else m)
  | 3 => pure { m with lcr := value }
  | 4 => pure (writeControl m value)
  | 7 => pure { m with scr := value }
  | _ => pure m

/-! ## The peer -/

def carrierLost (m : Modem) : Modem := hangUp m true

def rxSpace (m : Modem) : Nat := modemRx - m.rx.count

def receiveLoop (m : Modem) : List UInt8 → Modem × Nat
  | [] => (m, 0)
  | b :: data =>
    if m.rx.count < modemRx then
      let rest := receiveLoop (push m b) data
      (rest.1, rest.2 + 1)
    else (m, 0)

def modemReceive (m : Modem) (data : List UInt8) : Modem × Nat := if m.online then receiveLoop m data else (m, 0)

def irqPending (m : Modem) : Bool :=
  decide (m.ier &&& 1 ≠ 0 ∧ m.rx.count ≠ 0) || decide (m.ier &&& 2 ≠ 0 ∧ m.threIrq) || decide (m.ier &&& 8 ≠ 0 ∧ m.msrDelta ≠ 0)

/-! ## Runs -/

/-- Guest accesses, with the answer to a dial that a write leads to, and what the peer does. -/
inductive Event where
  | read (reg : Nat)
  | write (reg : Nat) (value : UInt8) (answer : Bool)
  | received (data : List UInt8)
  | carrierLost

def step (m : Modem) : Event → Except Fault Modem
  | .read reg => .ok (modemRead m reg).1
  | .write reg value answer => modemWrite m reg value answer
  | .received data => .ok (modemReceive m data).1
  | .carrierLost => .ok (carrierLost m)

def run (m : Modem) : List Event → Except Fault Modem
  | [] => .ok m
  | e :: events => do
    let m ← step m e
    run m events

end Be300.CfModem
