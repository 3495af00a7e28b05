/-
  Be300.CfModem.Parser — the AT command interpreter of `src/hw/modem.c`.

  `lineParameters` are the digit strings that stand as a parameter in a line, `value` what they
  denote. Proved (`parser_safe_iff`): whatever is written, read and received, the interpreter
  stays inside the line and ends, and the line and the dial number fit their buffers; every
  parameter stays in the range of `int` exactly when no line it is given holds a larger one.
-/

import Be300.CfModem.Uart
import Mathlib.Algebra.Ring.Nat
import Mathlib.Data.List.TakeWhile

namespace Be300.CfModem

open Lib

/-! ## Parameters of a line -/

def digitsOf (l : List Char) : List Char := l.takeWhile Char.isDigit

def afterDigits (l : List Char) : List Char := l.dropWhile Char.isDigit

def value (digits : List Char) : Nat := digits.foldl (fun v c => v * 10 + (c.toNat - '0'.toNat)) 0

theorem afterDigits_le (l : List Char) : (afterDigits l).length ≤ l.length := (List.dropWhile_sublist _).length_le

/-- The parameters of the commands after `AT`. -/
def parameters (l : List Char) : List (List Char) :=
  match l with
  | [] => []
  | c :: l =>
    match c.toUpper with
    | ' ' => parameters l
    | 'D' => []
    | '&' => digitsOf (l.drop 1) :: parameters (afterDigits (l.drop 1))
    | 'S' =>
      digitsOf l ::
        match _h : afterDigits l with
        | '=' :: l' => digitsOf l' :: parameters (afterDigits l')
        | '?' :: l' => parameters l'
        | _ => parameters (afterDigits l)
    | c => if c.isAlpha then digitsOf l :: parameters (afterDigits l) else []
termination_by l.length
decreasing_by
  · exact Nat.lt_succ_self _
  · have := afterDigits_le (l.drop 1)
    rw [List.length_drop] at this
    simp only [List.length_cons]
    omega
  · have hrest := afterDigits_le l
    have := afterDigits_le l'
    rw [_h, List.length_cons] at hrest
    simp only [List.length_cons]
    omega
  · have hrest := afterDigits_le l
    rw [_h, List.length_cons] at hrest
    simp only [List.length_cons]
    omega
  · exact Nat.lt_succ_of_le (afterDigits_le l)
  · exact Nat.lt_succ_of_le (afterDigits_le l)

def lineParameters (line : List Char) : List (List Char) :=
  match line.dropWhile fun c => decide (c = ' ') with
  | a :: t :: rest => if a.toUpper = 'A' ∧ t.toUpper = 'T' then parameters rest else []
  | _ => []

/-- Whether one of them is out of the range of `int`. -/
def tooLarge (digits : List (List Char)) : Bool := digits.any fun d => decide (intMax < value d)

/-! ## The cursor -/

section Cursor

variable {line l : List Char} {p fuel : Nat}

/-- The cursor stands in front of `l`. -/
structure At (line : List Char) (p : Nat) (l : List Char) : Prop where
  le : p ≤ line.length
  drop : line.drop p = l

theorem At.cons {c : Char} (h : At line p (c :: l)) : At line (p + 1) l := by
  have hlen := congrArg List.length h.drop
  rw [List.length_drop, List.length_cons] at hlen
  refine ⟨by omega, ?_⟩
  rw [← List.drop_drop, h.drop]
  rfl

theorem At.length (h : At line p l) : l.length = line.length - p := by
  rw [← h.drop, List.length_drop]

theorem At.charAt (h : At line p l) : charAt line p = .ok (l.headD '\x00') := by
  unfold CfModem.charAt
  rcases l with _ | ⟨c, l⟩
  · have hend : p = line.length := Nat.le_antisymm h.le (List.drop_eq_nil_iff.mp h.drop)
    rw [dif_neg (by omega), if_pos hend]
    rfl
  · have hlen := h.length
    rw [List.length_cons] at hlen
    have hin : p < line.length := by omega
    have hget : line.drop p = (line)[p] :: line.drop (p + 1) := List.drop_eq_getElem_cons hin
    rw [h.drop] at hget
    rw [dif_pos hin, List.headD_cons, (List.cons.inj hget).1]

/-- A digit more. -/
def digit (r : Nat × Bool) (c : Char) : Nat × Bool :=
  (((r.1 * 10 + (c.toNat - '0'.toNat)) % 2 ^ 32), r.2 || decide (intMax < r.1 * 10 + (c.toNat - '0'.toNat)))

theorem digitsLoop_at (h : At line p l) (v : Nat) (large : Bool) (hfuel : l.length < fuel) :
    ∃ q, digitsLoop line fuel p v large = .ok (q, (digitsOf l).foldl digit (v, large)) ∧ At line q (afterDigits l) := by
  induction l generalizing p v large fuel with
  | nil =>
    obtain ⟨fuel, rfl⟩ : ∃ n, fuel = n + 1 := ⟨fuel - 1, by omega⟩
    refine ⟨p, ?_, h⟩
    rw [digitsLoop, h.charAt]
    rfl
  | cons c l ih =>
    obtain ⟨fuel, rfl⟩ : ∃ n, fuel = n + 1 := ⟨fuel - 1, by omega⟩
    rw [List.length_cons] at hfuel
    rw [digitsLoop, h.charAt]
    show ∃ q, (if c.isDigit then _ else _ : Except Fault (Nat × Nat × Bool)) = _ ∧ _
    by_cases hc : c.isDigit = true
    · obtain ⟨q, hrest, hq⟩ := ih h.cons ((v * 10 + (c.toNat - '0'.toNat)) % 2 ^ 32)
        (large || decide (intMax < v * 10 + (c.toNat - '0'.toNat))) (show l.length < fuel by omega)
      rw [if_pos hc, digitsOf, afterDigits, List.takeWhile_cons_of_pos hc, List.dropWhile_cons_of_pos hc]
      exact ⟨q, hrest, hq⟩
    · rw [if_neg hc, digitsOf, afterDigits, List.takeWhile_cons_of_neg hc, List.dropWhile_cons_of_neg hc]
      exact ⟨p, rfl, h⟩

theorem overflow_stays (digits : List Char) (v : Nat) : (digits.foldl digit (v, true)).2 = true := by
  induction digits generalizing v with
  | nil => rfl
  | cons c digits ih => exact ih _

theorem value_grows (digits : List Char) (v : Nat) : v ≤ digits.foldl (fun v c => v * 10 + (c.toNat - '0'.toNat)) v := by
  induction digits generalizing v with
  | nil => exact Nat.le_refl v
  | cons c digits ih => exact Nat.le_trans (show v ≤ v * 10 + (c.toNat - '0'.toNat) by omega) (ih _)

/-- Until something overflows the value is the exact one. -/
theorem overflow_iff (digits : List Char) {v : Nat} (hv : v ≤ intMax) :
    (digits.foldl digit (v, false)).2 = decide (intMax < digits.foldl (fun v c => v * 10 + (c.toNat - '0'.toNat)) v) := by
  induction digits generalizing v with
  | nil =>
    show false = decide (intMax < v)
    exact (decide_eq_false (by omega)).symm
  | cons c digits ih =>
    rw [List.foldl_cons, List.foldl_cons, digit, Bool.false_or]
    by_cases hnext : intMax < v * 10 + (c.toNat - '0'.toNat)
    · have hgrows := value_grows digits (v * 10 + (c.toNat - '0'.toNat))
      rw [decide_eq_true hnext, overflow_stays, decide_eq_true (by omega)]
    · have hfits : v * 10 + (c.toNat - '0'.toNat) < 2 ^ 32 := by
        unfold intMax at hnext
        omega
      rw [decide_eq_false hnext, Nat.mod_eq_of_lt hfits]
      exact ih (by omega)

/-- A parameter that is too large is noted. -/
def noted (m : Modem) (d : List Char) : Modem := { m with overflow := m.overflow || tooLarge [d] }

/-- A parameter is read to its end. -/
theorem parameter_at (h : At line p l) (m : Modem) :
    ∃ q v, parameter line p m = .ok (q, v, noted m (digitsOf l)) ∧ At line q (afterDigits l) := by
  have hlen := h.length
  obtain ⟨q, hdigits, hq⟩ := digitsLoop_at h 0 false (show l.length < line.length + 1 by omega)
  refine ⟨q, ((digitsOf l).foldl digit (0, false)).1, ?_, hq⟩
  have hover := overflow_iff (digitsOf l) (Nat.zero_le intMax)
  have hlarge : tooLarge [digitsOf l] = ((digitsOf l).foldl digit (0, false)).2 := by
    rw [hover]
    exact Bool.or_false _
  rw [parameter, digits, hdigits, noted, hlarge]
  rfl

theorem numberLoop_at (h : At line p l) {number : List Char} (hfuel : l.length < fuel) (hnumber : number.length < numberSize) :
    ∃ result, numberLoop line fuel p number = .ok result ∧ result.length < numberSize := by
  induction l generalizing p fuel number with
  | nil =>
    obtain ⟨fuel, rfl⟩ : ∃ n, fuel = n + 1 := ⟨fuel - 1, by omega⟩
    refine ⟨number, ?_, hnumber⟩
    have hroom := Nat.not_le_of_lt hnumber
    simp only [numberLoop, h.charAt, bind, Except.bind, List.headD_nil, ne_eq, not_true_eq_false, false_and, if_false,
      if_neg hroom]
    rfl
  | cons c l ih =>
    obtain ⟨fuel, rfl⟩ : ∃ n, fuel = n + 1 := ⟨fuel - 1, by omega⟩
    rw [List.length_cons] at hfuel
    rw [numberLoop, h.charAt]
    show ∃ result, (if c ≠ '\x00' ∧ c ≠ ';' ∧ number.length + 1 < numberSize then
      (if c.isDigit ∨ c = '*' ∨ c = '#' then _ else _) else _ : Except Fault (List Char)) = _ ∧ _
    by_cases hgoes : c ≠ '\x00' ∧ c ≠ ';' ∧ number.length + 1 < numberSize
    · rw [if_pos hgoes]
      by_cases hdigit : c.isDigit = true ∨ c = '*' ∨ c = '#'
      · rw [if_pos hdigit, if_neg (by omega)]
        exact ih h.cons (show l.length < fuel by omega) (by rw [List.length_append]; exact hgoes.2.2)
      · rw [if_neg hdigit]
        exact ih h.cons (show l.length < fuel by omega) hnumber
    · rw [if_neg hgoes, if_neg (by omega)]
      exact ⟨number, rfl, hnumber⟩

theorem skipSpaces_at (h : At line p l) (hfuel : l.length < fuel) :
    ∃ q, skipSpaces line fuel p = .ok q ∧ At line q (l.dropWhile fun c => decide (c = ' ')) := by
  induction l generalizing p fuel with
  | nil =>
    obtain ⟨fuel, rfl⟩ : ∃ n, fuel = n + 1 := ⟨fuel - 1, by omega⟩
    refine ⟨p, ?_, h⟩
    rw [skipSpaces, h.charAt]
    rfl
  | cons c l ih =>
    obtain ⟨fuel, rfl⟩ : ∃ n, fuel = n + 1 := ⟨fuel - 1, by omega⟩
    rw [List.length_cons] at hfuel
    rw [skipSpaces, h.charAt]
    show ∃ q, (if c = ' ' then _ else _ : Except Fault Nat) = _ ∧ _
    by_cases hc : c = ' '
    · obtain ⟨q, hrest, hq⟩ := ih h.cons (show l.length < fuel by omega)
      rw [if_pos hc, List.dropWhile_cons, if_pos (decide_eq_true hc)]
      exact ⟨q, hrest, hq⟩
    · rw [if_neg hc, List.dropWhile_cons, if_neg (by simpa using hc)]
      exact ⟨p, rfl, h⟩

end Cursor

/-! ## What the interpreter says -/

def waiting (m : Modem) : List UInt8 := m.rx.contents modemRx

def bytesOf (s : List Char) : List UInt8 := s.map fun c => UInt8.ofNat c.toNat

/-- A result, in words or as a code. -/
def resultText (verbose : Bool) (text : List Char) (code : Nat) : List UInt8 :=
  bytesOf (if verbose then '\r' :: '\n' :: text ++ ['\r', '\n'] else Nat.toDigits 10 code ++ ['\r'])

/-- The results of a line, with their codes. -/
inductive ResultCode : List Char → Nat → Prop where
  | ok : ResultCode "OK".toList 0
  | connect (rate : Nat) : ResultCode ("CONNECT ".toList ++ Nat.toDigits 10 rate) 1
  | noCarrier : ResultCode "NO CARRIER".toList 3
  | error : ResultCode "ERROR".toList 4

/-- Results, and the answers to `I` and `S`, one after another. -/
inductive Reported : List UInt8 → Prop where
  | nil : Reported []
  | result {ts : List UInt8} {text : List Char} {code : Nat} (verbose : Bool) (hcode : ResultCode text code)
      (h : Reported ts) : Reported (resultText verbose text code ++ ts)
  | answer {ts : List UInt8} {text : List Char} (htext : text = "\r\nL27-01\r\n".toList ∨ text = "\r\n56000\r\n".toList ∨
      text = "\r\n000\r\n".toList) (h : Reported ts) : Reported (bytesOf text ++ ts)

theorem Reported.append {ts ts' : List UInt8} (h : Reported ts) (h' : Reported ts') : Reported (ts ++ ts') := by
  induction h with
  | nil => exact h'
  | result verbose hcode _ ih =>
    rw [List.append_assoc]
    exact .result verbose hcode ih
  | answer htext _ ih =>
    rw [List.append_assoc]
    exact .answer htext ih

/-- Of bytes that `P` allows, the receive ring takes as many as there is room for. -/
def Took (P : List UInt8 → Prop) (m m' : Modem) : Prop :=
  ∃ l ts : List UInt8, P ts ∧ m'.queue = m.queue ++ l.map (fun b => .arrived [b]) ∧
    (m.rx.Fits modemRx → waiting m' = waiting m ++ l ∧ l = ts.take (modemRx - m.rx.count))

/-- Nothing but output: the receive ring takes bytes, and modes of the interpreter may change. -/
structure Put (P : List UInt8 → Prop) (m m' : Modem) : Prop where
  ier : m'.ier = m.ier
  lcr : m'.lcr = m.lcr
  mcr : m'.mcr = m.mcr
  msrDelta : m'.msrDelta = m.msrDelta
  gps : m'.gps = m.gps
  online : m'.online = m.online
  cmd : m'.cmd = m.cmd
  calls : m'.calls = m.calls
  ring : m.rx.Fits modemRx → m'.rx.Fits modemRx
  queue : Took P m m'

/-- Output of the interpreter. -/
abbrev Said (m m' : Modem) : Prop := Put Reported m m'

section Said

variable {m m' m'' : Modem} {P Q R : List UInt8 → Prop}

theorem Took.refl (hP : P []) (m : Modem) : Took P m m := ⟨[], [], hP, by simp, by simp⟩

theorem Took.trans (hR : ∀ ts ts', P ts → Q ts' → R (ts ++ ts')) (hring : m.rx.Fits modemRx → m'.rx.Fits modemRx)
    (h : Took P m m') (h' : Took Q m' m'') : Took R m m'' := by
  obtain ⟨l, ts, hP, hqueue, htook⟩ := h
  obtain ⟨l', ts', hQ, hqueue', htook'⟩ := h'
  refine ⟨l ++ l', ts ++ ts', hR ts ts' hP hQ, ?_, fun hfits => ?_⟩
  · rw [hqueue', hqueue, List.map_append, List.append_assoc]
  · obtain ⟨hwaiting, hl⟩ := htook hfits
    obtain ⟨hwaiting', hl'⟩ := htook' (hring hfits)
    refine ⟨by rw [hwaiting', hwaiting, List.append_assoc], ?_⟩
    -- the room that the first part leaves
    have hcount := congrArg List.length hwaiting
    rw [waiting, waiting, List.length_append, Fifo.length_contents, Fifo.length_contents] at hcount
    have hlen := congrArg List.length hl
    rw [List.length_take] at hlen
    rw [List.take_append, hl', hl]
    congr 1
    congr 1
    omega

theorem Put.refl (hP : P []) (m : Modem) : Put P m m :=
  ⟨rfl, rfl, rfl, rfl, rfl, rfl, rfl, rfl, fun h => h, .refl hP m⟩

theorem Put.compose (hR : ∀ ts ts', P ts → Q ts' → R (ts ++ ts')) (h : Put P m m') (h' : Put Q m' m'') : Put R m m'' :=
  ⟨h'.ier.trans h.ier, h'.lcr.trans h.lcr, h'.mcr.trans h.mcr, h'.msrDelta.trans h.msrDelta, h'.gps.trans h.gps,
    h'.online.trans h.online, h'.cmd.trans h.cmd, h'.calls.trans h.calls, fun hfits => h'.ring (h.ring hfits),
    .trans hR h.ring h.queue h'.queue⟩

theorem Put.none (m : Modem) : Put (· = []) m m := Put.refl (P := (· = [])) rfl m

theorem Said.refl (m : Modem) : Said m m := Put.refl .nil m

theorem Said.trans (h : Said m m') (h' : Said m' m'') : Said m m'' := h.compose (fun _ _ => .append) h'

theorem push_put (m : Modem) (b : UInt8) : Put (· = [b]) m (push m b) := by
  unfold push
  split
  · rename_i hfull
    refine ⟨rfl, rfl, rfl, rfl, rfl, rfl, rfl, rfl, fun h => h, [], [b], rfl, by simp, fun _ => ⟨by simp, ?_⟩⟩
    rw [hfull, Nat.sub_self, List.take_zero]
  · rename_i hroom
    refine ⟨rfl, rfl, rfl, rfl, rfl, rfl, rfl, rfl, fun hfits => ?_, [b], [b], rfl, rfl, fun hfits => ?_⟩
    · exact Fifo.fits_push hfits (Nat.lt_of_le_of_ne hfits.count hroom) b
    · have hlt := Nat.lt_of_le_of_ne hfits.count hroom
      refine ⟨Fifo.contents_push hlt b, (List.take_of_length_le ?_).symm⟩
      rw [List.length_singleton]
      omega

theorem say_put (m : Modem) (s : List Char) : Put (· = bytesOf s) m (say m s) := by
  induction s generalizing m with
  | nil => exact .none m
  | cons c s ih => exact (push_put m _).compose (fun _ _ h h' => by rw [h, h']; rfl) (ih (push m _))

theorem Put.mono (h : Put P m m') (hPQ : ∀ ts, P ts → Q ts) : Put Q m m' := by
  obtain ⟨l, ts, hP, hqueue⟩ := h.queue
  exact ⟨h.ier, h.lcr, h.mcr, h.msrDelta, h.gps, h.online, h.cmd, h.calls, h.ring, l, ts, hPQ ts hP, hqueue⟩

theorem say_said (m : Modem) {s : List Char}
    (hs : s = "\r\nL27-01\r\n".toList ∨ s = "\r\n56000\r\n".toList ∨ s = "\r\n000\r\n".toList) : Said m (say m s) :=
  (say_put m s).mono fun ts h => by
    rw [h, ← List.append_nil (bytesOf s)]
    exact .answer hs .nil

theorem result_put (m : Modem) (text : List Char) (code : Nat) :
    Put (· = resultText m.verbose text code) m (result m text code) := say_put m _

theorem result_said (m : Modem) {text : List Char} {code : Nat} (hcode : ResultCode text code) : Said m (result m text code) :=
  (result_put m text code).mono fun ts h => by
    rw [h, ← List.append_nil (resultText m.verbose text code)]
    exact .result m.verbose hcode .nil

theorem push_overflow (m : Modem) (b : UInt8) : (push m b).overflow = m.overflow := by
  unfold push
  split
  · rfl
  · rfl

theorem say_overflow (m : Modem) (s : List Char) : (say m s).overflow = m.overflow := by
  induction s generalizing m with
  | nil => rfl
  | cons c s ih => exact (ih (push m _)).trans (push_overflow m _)

theorem result_overflow (m : Modem) (text : List Char) (code : Nat) :
    (result m text code).overflow = m.overflow := say_overflow m _

/-- The interpreter's modes are not in `Said`. -/
theorem said_modes (m : Modem) (echo verbose overflow : Bool) :
    Said m { m with echo := echo, verbose := verbose, overflow := overflow } :=
  ⟨rfl, rfl, rfl, rfl, rfl, rfl, rfl, rfl, fun h => h, .refl .nil m⟩

/-- What a line leads to: output, and at most one call to the backend. -/
inductive Interpreted (answer : Bool) (m : Modem) : Modem → Prop where
  | said {m' : Modem} (h : Said m m') : Interpreted answer m m'
  | refused {number : List Char} {m' : Modem} (hanswer : answer = false) (hnumber : number.length < numberSize)
      (h : Said { m with calls := m.calls ++ [.dialed number false] } m') : Interpreted answer m m'
  | answered {number : List Char} {m' : Modem} (hanswer : answer = true) (hnumber : number.length < numberSize)
      (h : Said { m with calls := m.calls ++ [.dialed number true], online := true, msrDelta := m.msrDelta ||| msrDdcd } m') :
      Interpreted answer m m'

theorem Said.connected (h : Said m m') (x : List Call) (online : Bool) (delta : UInt8) :
    Said { m with calls := m.calls ++ x, online := online, msrDelta := m.msrDelta ||| delta }
      { m' with calls := m'.calls ++ x, online := online, msrDelta := m'.msrDelta ||| delta } :=
  ⟨h.ier, h.lcr, h.mcr, congrArg (· ||| delta) h.msrDelta, h.gps, rfl, h.cmd, congrArg (· ++ x) h.calls, h.ring, h.queue⟩

theorem Said.called (h : Said m m') (x : List Call) : Said { m with calls := m.calls ++ x } { m' with calls := m'.calls ++ x } :=
  ⟨h.ier, h.lcr, h.mcr, h.msrDelta, h.gps, h.online, h.cmd, congrArg (· ++ x) h.calls, h.ring, h.queue⟩

theorem Said.then {answer : Bool} (h : Said m m') (h' : Interpreted answer m' m'') : Interpreted answer m m'' := by
  rcases h' with hsaid | ⟨hanswer, hnumber, hsaid⟩ | ⟨hanswer, hnumber, hsaid⟩
  · exact .said (h.trans hsaid)
  · exact .refused hanswer hnumber ((h.called _).trans hsaid)
  · exact .answered hanswer hnumber ((h.connected _ true msrDdcd).trans hsaid)

theorem noted_said (m : Modem) (d : List Char) : Said m (noted m d) := said_modes m m.echo m.verbose _

end Said

/-! ## Lines -/

section Line

variable {line l : List Char} {p fuel : Nat} {answer : Bool} {m : Modem}

theorem tooLarge_cons (d : List Char) (ds : List (List Char)) : tooLarge (d :: ds) = (tooLarge [d] || tooLarge ds) := by
  simp [tooLarge]

theorem dialCommand_at (answer : Bool) (h : At line p l) (m : Modem) :
    ∃ m', dialCommand line p answer m = .ok m' ∧ Interpreted answer m m' ∧ m'.overflow = m.overflow := by
  have hlen := h.length
  obtain ⟨number, hrun, hnumber⟩ := numberLoop_at h (show l.length < line.length + 1 by omega)
    (show ([] : List Char).length < numberSize by decide)
  rw [dialCommand, hrun]
  show ∃ m', (if number = [] then _ else if answer = false then _ else _ : Except Fault Modem) = _ ∧ _
  by_cases hnone : number = []
  · rw [if_pos hnone]
    exact ⟨_, rfl, .said (result_said m .ok), result_overflow m _ _⟩
  · rw [if_neg hnone]
    by_cases hanswer : answer = false
    · rw [if_pos hanswer, hanswer]
      exact ⟨_, rfl, .refused rfl hnumber (result_said _ .noCarrier), result_overflow _ _ _⟩
    · rw [if_neg hanswer, show answer = true by simpa using hanswer]
      refine ⟨_, rfl, .answered rfl hnumber ?_, result_overflow { m with calls := m.calls ++ [.dialed number true] } _ _⟩
      have hsaid := result_said { m with calls := m.calls ++ [.dialed number true] } (.connect m.connectRate)
      exact ⟨hsaid.ier, hsaid.lcr, hsaid.mcr, congrArg (· ||| msrDdcd) hsaid.msrDelta, hsaid.gps, rfl, hsaid.cmd, hsaid.calls,
        hsaid.ring, hsaid.queue⟩

theorem clean_afterDigits (hclean : '\x00' ∉ l) : '\x00' ∉ afterDigits l := fun h => hclean ((List.dropWhile_sublist _).subset h)

/-- The commands from a place on, for any place further on in the line. -/
def Goes (line : List Char) (answer : Bool) (fuel : Nat) (bound : Nat) : Prop :=
  ∀ (q : Nat) (l : List Char) (m : Modem), At line q l → '\x00' ∉ l → l.length ≤ bound → m.online = false →
    ∃ m', commandLoop line answer fuel q m = .ok m' ∧ Interpreted answer m m' ∧
      m'.overflow = (m.overflow || tooLarge (parameters l))

/-- A command with a parameter. -/
theorem parameter_then (h : At line p l) (hclean : '\x00' ∉ l) (hgoes : Goes line answer fuel l.length) (hoff : m.online = false)
    {g : Nat → Modem → Modem} (hg : ∀ v (m : Modem), m.online = false → Said m (g v m) ∧ (g v m).overflow = m.overflow) :
    ∃ m', (do
        let (p, v, m) ← parameter line p m
        commandLoop line answer fuel p (g v m)) = .ok m' ∧
      Interpreted answer m m' ∧ m'.overflow = (m.overflow || tooLarge (digitsOf l :: parameters (afterDigits l))) := by
  obtain ⟨q, v, hparam, hq⟩ := parameter_at h m
  obtain ⟨hsaid, hkept⟩ := hg v (noted m (digitsOf l)) hoff
  obtain ⟨m', hrun, hinterpreted, hover⟩ :=
    hgoes q (afterDigits l) _ hq (clean_afterDigits hclean) (afterDigits_le l) (hsaid.online.trans hoff)
  refine ⟨m', ?_, ((noted_said m _).trans hsaid).then hinterpreted, ?_⟩
  · rw [hparam]
    exact hrun
  · rw [hover, hkept, tooLarge_cons (digitsOf l), ← Bool.or_assoc]
    rfl

theorem hangUp_offline (report : Bool) (hoff : m.online = false) : hangUp m report = m := by
  rw [hangUp, if_neg (by rw [hoff]; decide)]

/-- The answers to `I`. -/
def identified (v : Nat) (m : Modem) : Modem :=
  if v = 3 then say m "\r\nL27-01\r\n".toList else if v = 0 then say m "\r\n56000\r\n".toList else m

theorem parameters_other {c : Char} (hspace : c.toUpper ≠ ' ') (hd : c.toUpper ≠ 'D') (hamp : c.toUpper ≠ '&')
    (hs : c.toUpper ≠ 'S') :
    parameters (c :: l) = if c.toUpper.isAlpha then digitsOf l :: parameters (afterDigits l) else [] := by
  rw [parameters]
  split
  · exact absurd ‹_› hspace
  · exact absurd ‹_› hd
  · exact absurd ‹_› hamp
  · exact absurd ‹_› hs
  · rfl

/-- `S` with its register, and a value or a question mark. -/
theorem setting_at (h : At line p l) (hclean : '\x00' ∉ l) (hgoes : Goes line answer fuel l.length) (hoff : m.online = false) :
    ∃ m', (do
        let (p, _, m) ← parameter line p m
        let c ← CfModem.charAt line p
        if c = '=' then
          let (p, _, m) ← parameter line (p + 1) m
          commandLoop line answer fuel p m
        else if c = '?' then commandLoop line answer fuel (p + 1) (say m "\r\n000\r\n".toList)
        else commandLoop line answer fuel p m) = .ok m' ∧
      Interpreted answer m m' ∧ m'.overflow = (m.overflow || tooLarge (digitsOf l ::
        match _h : afterDigits l with
        | '=' :: l' => digitsOf l' :: parameters (afterDigits l')
        | '?' :: l' => parameters l'
        | _ => parameters (afterDigits l))) := by
  obtain ⟨q, v, hparam, hq⟩ := parameter_at h m
  have hclean' := clean_afterDigits hclean
  have hle := afterDigits_le l
  have hsaid := noted_said m (digitsOf l)
  rw [hparam]
  show ∃ m', (do
      let c ← CfModem.charAt line q
      if c = '=' then
        let (p, _, m) ← parameter line (q + 1) (noted m (digitsOf l))
        commandLoop line answer fuel p m
      else if c = '?' then commandLoop line answer fuel (q + 1) (say (noted m (digitsOf l)) "\r\n000\r\n".toList)
      else commandLoop line answer fuel q (noted m (digitsOf l))) = .ok m' ∧ _
  rw [hq.charAt, tooLarge_cons]
  generalize afterDigits l = rest at hq hclean' hle ⊢
  rcases rest with _ | ⟨x, rest⟩
  · obtain ⟨m', hrun, hinterpreted, hover⟩ := hgoes q [] (noted m (digitsOf l)) hq hclean' hle hoff
    exact ⟨m', hrun, hsaid.then hinterpreted, by rw [hover, ← Bool.or_assoc]; rfl⟩
  · have hrest : '\x00' ∉ rest := fun hmem => hclean' (List.mem_cons_of_mem x hmem)
    have hshort : rest.length ≤ l.length := Nat.le_of_succ_le hle
    show ∃ m', (if x = '=' then _ else if x = '?' then _ else _ : Except Fault Modem) = .ok m' ∧ _
    by_cases heq : x = '='
    · rw [if_pos heq, heq]
      have hfurther : Goes line answer fuel rest.length := fun q l' m hq hclean hle' hoff =>
        hgoes q l' m hq hclean (Nat.le_trans hle' hshort) hoff
      obtain ⟨m', hrun, hinterpreted, hover⟩ :=
        parameter_then (m := noted m (digitsOf l)) (g := fun _ m => m) hq.cons hrest hfurther hoff fun v m _ => ⟨Said.refl m, rfl⟩
      exact ⟨m', hrun, hsaid.then hinterpreted, by rw [hover, ← Bool.or_assoc]; rfl⟩
    rw [if_neg heq]
    by_cases hask : x = '?'
    · rw [if_pos hask, hask]
      have hanswered := hsaid.trans (say_said (noted m (digitsOf l)) (.inr (.inr rfl)))
      obtain ⟨m', hrun, hinterpreted, hover⟩ := hgoes (q + 1) rest
        (say (noted m (digitsOf l)) "\r\n000\r\n".toList) hq.cons hrest hshort
        (hanswered.online.trans hoff)
      exact ⟨m', hrun, hanswered.then hinterpreted, by rw [hover, say_overflow, ← Bool.or_assoc]; rfl⟩
    · rw [if_neg hask]
      obtain ⟨m', hrun, hinterpreted, hover⟩ := hgoes q (x :: rest) (noted m (digitsOf l)) hq hclean' hle hoff
      refine ⟨m', hrun, hsaid.then hinterpreted, ?_⟩
      rw [hover, ← Bool.or_assoc]
      split
      · exact absurd (List.cons.inj ‹_›).1 heq
      · exact absurd (List.cons.inj ‹_›).1 hask
      · rfl

theorem commandLoop_at (h : At line p l) (hclean : '\x00' ∉ l) (hfuel : l.length < fuel) (hoff : m.online = false) :
    ∃ m', commandLoop line answer fuel p m = .ok m' ∧ Interpreted answer m m' ∧
      m'.overflow = (m.overflow || tooLarge (parameters l)) := by
  induction fuel generalizing p l m with
  | zero => omega
  | succ fuel ih =>
    rcases l with _ | ⟨c, l⟩
    · rw [commandLoop, h.charAt, parameters]
      exact ⟨_, rfl, .said (result_said m .ok), by rw [result_overflow]; exact (Bool.or_false _).symm⟩
    · rw [List.length_cons] at hfuel
      have hgoes : Goes line answer fuel l.length := fun q l' m hq hclean' hle hoff => ih hq hclean' (by omega) hoff
      have hrest : '\x00' ∉ l := fun hmem => hclean (List.mem_cons_of_mem c hmem)
      have hchar : CfModem.charAt line p = .ok c := h.charAt
      rw [commandLoop, hchar]
      show ∃ m', (if c = '\x00' then _ else _ : Except Fault Modem) = _ ∧ _
      rw [if_neg fun hnul => hclean (by rw [hnul]; exact List.mem_cons_self)]
      by_cases hspace : c.toUpper = ' '
      · rw [parameters, hspace]
        exact hgoes _ l m h.cons hrest (Nat.le_refl _) hoff
      by_cases hz : c.toUpper = 'Z'
      · rw [parameters, hz]
        exact parameter_then h.cons hrest hgoes hoff fun v m _ => ⟨said_modes m true true _, rfl⟩
      by_cases he : c.toUpper = 'E'
      · rw [parameters, he]
        exact parameter_then (g := fun v m => { m with echo := decide (v ≠ 0) }) h.cons hrest hgoes hoff fun v m _ =>
          ⟨said_modes m (decide (v ≠ 0)) m.verbose m.overflow, rfl⟩
      by_cases hv : c.toUpper = 'V'
      · rw [parameters, hv]
        exact parameter_then (g := fun v m => { m with verbose := decide (v ≠ 0) }) h.cons hrest hgoes hoff fun v m _ =>
          ⟨said_modes m m.echo (decide (v ≠ 0)) m.overflow, rfl⟩
      by_cases hi : c.toUpper = 'I'
      · rw [parameters, hi]
        have hsaid : ∀ v (m : Modem), m.online = false → Said m (identified v m) ∧ (identified v m).overflow = m.overflow := by
          intro v m _
          unfold identified
          split
          · exact ⟨say_said m (.inl rfl), say_overflow m _⟩
          split
          · exact ⟨say_said m (.inr (.inl rfl)), say_overflow m _⟩
          · exact ⟨Said.refl m, rfl⟩
        exact parameter_then (g := identified) h.cons hrest hgoes hoff hsaid
      by_cases hh : c.toUpper = 'H'
      · rw [parameters, hh]
        refine parameter_then (g := fun _ m => hangUp m false) h.cons hrest hgoes hoff fun v m hm => ?_
        rw [hangUp_offline false hm]
        exact ⟨Said.refl m, rfl⟩
      by_cases hd : c.toUpper = 'D'
      · rw [parameters, hd]
        obtain ⟨m', hrun, hinterpreted, hover⟩ := dialCommand_at answer h.cons m
        exact ⟨m', hrun, hinterpreted, hover.trans (Bool.or_false _).symm⟩
      by_cases hamp : c.toUpper = '&'
      · rw [parameters, hamp]
        have hnext : CfModem.charAt line (p + 1) = .ok (l.headD '\x00') := h.cons.charAt
        show ∃ m', (do
          let c ← CfModem.charAt line (p + 1)
          let (p, _, m) ← parameter line (if c = '\x00' then p + 1 else p + 1 + 1) m
          commandLoop line answer fuel p m) = _ ∧ _
        rw [hnext]
        rcases l with _ | ⟨x, l⟩
        · exact parameter_then (g := fun _ m => m) h.cons hrest hgoes hoff fun v m _ => ⟨Said.refl m, rfl⟩
        · have hx : x ≠ '\x00' := fun hx => hrest (by rw [hx]; exact List.mem_cons_self)
          have hfurther : Goes line answer fuel l.length := fun q l' m hq hclean' hle hoff =>
            hgoes q l' m hq hclean' (Nat.le_succ_of_le hle) hoff
          show ∃ m', (do
            let (p, _, m) ← parameter line (if x = '\x00' then p + 1 else p + 1 + 1) m
            commandLoop line answer fuel p m) = _ ∧ _
          rw [if_neg hx]
          exact parameter_then (g := fun _ m => m) h.cons.cons (fun hmem => hrest (List.mem_cons_of_mem x hmem)) hfurther hoff
            fun v m _ => ⟨Said.refl m, rfl⟩
      by_cases hs : c.toUpper = 'S'
      · rw [parameters, hs]
        exact setting_at h.cons hrest hgoes hoff
      · rw [parameters_other hspace hd hamp hs]
        split
        · exact absurd ‹_› hspace
        · exact absurd ‹_› hz
        · exact absurd ‹_› he
        · exact absurd ‹_› hv
        · exact absurd ‹_› hi
        · exact absurd ‹_› hh
        · exact absurd ‹_› hd
        · exact absurd ‹_› hamp
        · exact absurd ‹_› hs
        by_cases halpha : c.toUpper.isAlpha = true
        · rw [if_pos halpha, if_pos halpha]
          exact parameter_then (g := fun _ m => m) h.cons hrest hgoes hoff fun v m _ => ⟨Said.refl m, rfl⟩
        · rw [if_neg halpha, if_neg halpha]
          exact ⟨_, rfl, .said (result_said m .error), by rw [result_overflow]; exact (Bool.or_false _).symm⟩

theorem at_start (line : List Char) : At line 0 line := ⟨Nat.zero_le _, rfl⟩

/-- A line is executed to its end. -/
theorem execute_spec (answer : Bool) (hclean : '\x00' ∉ line) (hoff : m.online = false) :
    ∃ m', execute line answer m = .ok m' ∧ Interpreted answer m m' ∧
      m'.overflow = (m.overflow || tooLarge (lineParameters line)) := by
  obtain ⟨q, hskip, hq⟩ := skipSpaces_at (at_start line) (Nat.lt_succ_self _)
  have hrest : '\x00' ∉ line.dropWhile fun c => decide (c = ' ') := fun h => hclean ((List.dropWhile_sublist _).subset h)
  have hfirst := hq.charAt
  have hlen := hq.length
  rw [execute, hskip]
  show ∃ m', (do
    let first ← CfModem.charAt line q
    if first.toUpper ≠ 'A' then pure (if first ≠ '\x00' then result m "ERROR".toList 4 else m)
    else
      let second ← CfModem.charAt line (q + 1)
      if second.toUpper ≠ 'T' then pure (result m "ERROR".toList 4)
      else commandLoop line answer (line.length + 1) (q + 2) m) = _ ∧ _
  have herror : Interpreted answer m (result m "ERROR".toList 4) ∧
    (result m "ERROR".toList 4).overflow = (m.overflow || tooLarge []) :=
    ⟨.said (result_said m .error), by rw [result_overflow]; exact (Bool.or_false _).symm⟩
  rw [hfirst, lineParameters]
  generalize line.dropWhile (fun c => decide (c = ' ')) = rest at hq hrest hlen ⊢
  rcases rest with _ | ⟨a, rest⟩
  · exact ⟨m, rfl, .said (Said.refl m), (Bool.or_false _).symm⟩
  show ∃ m', (if a.toUpper ≠ 'A' then (pure (if a ≠ '\x00' then result m "ERROR".toList 4 else m) : Except Fault Modem)
    else do
      let second ← CfModem.charAt line (q + 1)
      if second.toUpper ≠ 'T' then pure (result m "ERROR".toList 4)
      else commandLoop line answer (line.length + 1) (q + 2) m) = _ ∧ _
  have hnul : a ≠ '\x00' := fun h => hrest (by rw [h]; exact List.mem_cons_self)
  have hsecond := hq.cons.charAt
  by_cases ha : a.toUpper = 'A'
  · rw [if_neg fun h => h ha, hsecond]
    rcases rest with _ | ⟨t, rest⟩
    · exact ⟨_, rfl, herror⟩
    show ∃ m' : Modem, (if t.toUpper ≠ 'T' then (pure (result m "ERROR".toList 4) : Except Fault Modem)
      else commandLoop line answer (line.length + 1) (q + 2) m) = _ ∧ _ ∧
        m'.overflow = (m.overflow || tooLarge (if a.toUpper = 'A' ∧ t.toUpper = 'T' then parameters rest else []))
    by_cases ht : t.toUpper = 'T'
    · rw [if_neg fun h => h ht, if_pos ⟨ha, ht⟩]
      simp only [List.length_cons] at hlen
      exact commandLoop_at hq.cons.cons (fun hmem => hrest (List.mem_cons_of_mem a (List.mem_cons_of_mem t hmem))) (by omega) hoff
    · rw [if_pos ht, if_neg fun h => ht h.2]
      exact ⟨_, rfl, herror⟩
  · rw [if_pos ha, if_pos hnul]
    refine ⟨_, rfl, herror.1, ?_⟩
    rcases rest with _ | ⟨t, rest⟩
    · exact herror.2
    · show _ = (m.overflow || tooLarge (if a.toUpper = 'A' ∧ t.toUpper = 'T' then parameters rest else []))
      rw [if_neg fun h => ha h.1]
      exact herror.2

theorem clean_cString (cmd : List Char) : '\x00' ∉ cString cmd := by
  intro h
  have hne := List.mem_takeWhile_imp h
  simp at hne

end Line

/-! ## Runs -/

section Run

variable {m : Modem} {answer : Bool}

/-- The line an event makes the interpreter execute. -/
def executed (m : Modem) : Event → List (List Char)
  | .write reg value _ =>
    if reg % 8 = 0 ∧ dlab m = false ∧ m.online = false ∧ m.gps = false ∧ value = 13 then [cString m.cmd] else []
  | _ => []

def executedLines : Modem → List Event → List (List Char)
  | _, [] => []
  | m, e :: events =>
    executed m e ++ match step m e with
      | .ok m' => executedLines m' events
      | .error _ => []

/-- The line and the dialed numbers fit their buffers, with their NULs. -/
structure InBuffers (m : Modem) : Prop where
  cmd : m.cmd.length < cmdSize
  numbers : ∀ number answer, Call.dialed number answer ∈ m.calls → number.length < numberSize

theorem Put.inBuffers {P : List UInt8 → Prop} {m' : Modem} (h : Put P m m') (hm : InBuffers m) : InBuffers m' :=
  ⟨by rw [h.cmd]; exact hm.cmd, by rw [h.calls]; exact hm.numbers⟩

theorem InBuffers.dialed (hm : InBuffers m) {number : List Char} {answer : Bool} (hnumber : number.length < numberSize) :
    ∀ number' answer', Call.dialed number' answer' ∈ m.calls ++ [.dialed number answer] → number'.length < numberSize := by
  intro number' answer' hmem
  rcases List.mem_append.mp hmem with hold | hnew
  · exact hm.numbers number' answer' hold
  · cases List.mem_singleton.mp hnew
    exact hnumber

theorem InBuffers.called (hm : InBuffers m) {call : Call} (hcall : ∀ number answer, call ≠ .dialed number answer) :
    ∀ number answer, Call.dialed number answer ∈ m.calls ++ [call] → number.length < numberSize := by
  intro number answer hmem
  rcases List.mem_append.mp hmem with hold | hnew
  · exact hm.numbers number answer hold
  · exact absurd (List.mem_singleton.mp hnew).symm (hcall number answer)

theorem Interpreted.inBuffers {m' : Modem} (h : Interpreted answer m m') (hm : InBuffers m) : InBuffers m' := by
  rcases h with hsaid | ⟨-, hnumber, hsaid⟩ | ⟨-, hnumber, hsaid⟩
  · exact hsaid.inBuffers hm
  · exact hsaid.inBuffers ⟨hm.cmd, hm.dialed hnumber⟩
  · exact hsaid.inBuffers ⟨hm.cmd, hm.dialed hnumber⟩

theorem hangUp_spec (m : Modem) (report : Bool) :
    (hangUp m report).overflow = m.overflow ∧ (InBuffers m → InBuffers (hangUp m report)) := by
  unfold hangUp
  split
  · split
    · refine ⟨result_overflow _ _ _, fun hm => (result_said _ .noCarrier).inBuffers ⟨hm.cmd, hm.called ?_⟩⟩
      intro number answer h
      cases h
    · refine ⟨rfl, fun hm => ⟨hm.cmd, hm.called ?_⟩⟩
      intro number answer h
      cases h
  · exact ⟨rfl, fun hm => hm⟩

/-- The echo of a byte. -/
theorem echo_put (m : Modem) (b : UInt8) : Put (· = if m.echo then [b] else []) m (if m.echo then push m b else m) := by
  split
  · exact push_put m b
  · exact .none m

theorem commandByte_spec (answer : Bool) (b : UInt8) (hm : InBuffers m) (hoff : m.online = false) :
    ∃ m', commandByte m b answer = .ok m' ∧ InBuffers m' ∧
      m'.overflow = (m.overflow || tooLarge (if b = 13 then lineParameters (cString m.cmd) else [])) := by
  unfold commandByte
  have hsaid := echo_put m b
  have hover : (if m.echo then push m b else m).overflow = m.overflow := by
    split
    · exact push_overflow m b
    · rfl
  generalize (if m.echo then push m b else m) = t at hsaid hover
  have ht := hsaid.inBuffers hm
  simp only
  by_cases hreturn : b = 13
  · rw [if_pos hreturn, if_pos hreturn]
    obtain ⟨m', hrun, hinterpreted, hover'⟩ := execute_spec answer (m := { t with cmd := [] }) (clean_cString t.cmd)
      (hsaid.online.trans hoff)
    refine ⟨m', hrun, hinterpreted.inBuffers ⟨show 0 < cmdSize by decide, ht.numbers⟩, ?_⟩
    rw [hover', hsaid.cmd]
    exact congrArg (· || _) hover
  rw [if_neg hreturn, if_neg hreturn]
  have hsame : t.overflow = (m.overflow || tooLarge []) := hover.trans (Bool.or_false _).symm
  by_cases herase : b = 8 ∨ b = 127
  · rw [if_pos herase]
    refine ⟨_, rfl, ⟨?_, ht.numbers⟩, hsame⟩
    have := ht.cmd
    simp only [List.length_dropLast]
    omega
  rw [if_neg herase]
  by_cases hkept : 32 ≤ b ∧ b < 127 ∧ t.cmd.length + 1 < cmdSize
  · rw [if_pos hkept]
    refine ⟨_, rfl, ⟨?_, ht.numbers⟩, hsame⟩
    rw [List.length_append]
    exact hkept.2.2
  · rw [if_neg hkept]
    exact ⟨t, rfl, ht, hsame⟩

theorem receiveLoop_spec (m : Modem) (data : List UInt8) :
    (receiveLoop m data).1.overflow = m.overflow ∧ Put (· = data) m (receiveLoop m data).1 ∧
      (receiveLoop m data).2 = min data.length (modemRx - m.rx.count) := by
  induction data generalizing m with
  | nil => exact ⟨rfl, .none m, (Nat.zero_min _).symm⟩
  | cons b data ih =>
    rw [receiveLoop]
    split
    · rename_i hroom
      obtain ⟨hover, hput, hcount⟩ := ih (push m b)
      refine ⟨hover.trans (push_overflow m b), (push_put m b).compose (fun _ _ h h' => by rw [h, h']; rfl) hput, ?_⟩
      have hpush : (push m b).rx.count = m.rx.count + 1 := by
        rw [push, if_neg (Nat.ne_of_lt hroom)]
        rfl
      show (receiveLoop (push m b) data).2 + 1 = _
      rw [hcount, hpush, List.length_cons]
      omega
    · rename_i hfull
      have hnone : modemRx - m.rx.count = 0 := by omega
      refine ⟨rfl, ⟨rfl, rfl, rfl, rfl, rfl, rfl, rfl, rfl, fun h => h, [], b :: data, rfl, by simp, fun _ => ⟨by simp, ?_⟩⟩, ?_⟩
      · rw [hnone, List.take_zero]
      · rw [hnone, Nat.min_zero]

/-- A peer's bytes go into the ring while there is room, where the modem is online. -/
theorem receive_spec (m : Modem) (data : List UInt8) :
    (modemReceive m data).1.overflow = m.overflow ∧ Put (· = if m.online then data else []) m (modemReceive m data).1 ∧
      (modemReceive m data).2 = if m.online then min data.length (modemRx - m.rx.count) else 0 := by
  unfold modemReceive
  split
  · exact receiveLoop_spec m data
  · exact ⟨rfl, .none m, rfl⟩

/-- Reading a register touches neither the line nor the calls. -/
theorem read_kept (m : Modem) (reg : Nat) : (modemRead m reg).1.overflow = m.overflow ∧ (modemRead m reg).1.cmd = m.cmd ∧
    (modemRead m reg).1.calls = m.calls := by
  unfold modemRead
  split
  · split
    · exact ⟨rfl, rfl, rfl⟩
    split
    · exact ⟨rfl, rfl, rfl⟩
    · exact ⟨rfl, rfl, rfl⟩
  · exact ⟨rfl, rfl, rfl⟩
  · simp only
    split
    · exact ⟨rfl, rfl, rfl⟩
    split
    · exact ⟨rfl, rfl, rfl⟩
    split
    · exact ⟨rfl, rfl, rfl⟩
    · exact ⟨rfl, rfl, rfl⟩
  · exact ⟨rfl, rfl, rfl⟩
  · exact ⟨rfl, rfl, rfl⟩
  · exact ⟨rfl, rfl, rfl⟩
  · exact ⟨rfl, rfl, rfl⟩
  · exact ⟨rfl, rfl, rfl⟩

/-- Whether a line among these has a parameter that is too large. -/
def anyTooLarge (lines : List (List Char)) : Bool := lines.any fun line => tooLarge (lineParameters line)

theorem writeData_spec (answer : Bool) (value : UInt8) (hm : InBuffers m) :
    ∃ m', writeData m value answer = .ok m' ∧ InBuffers m' ∧
      m'.overflow = (m.overflow || anyTooLarge (if m.online = false ∧ m.gps = false ∧ value = 13 then [cString m.cmd]
        else [])) := by
  unfold writeData
  by_cases hdata : m.online = true ∨ m.gps = true
  · rw [if_pos hdata, if_neg]
    · refine ⟨_, rfl, ⟨hm.cmd, hm.called ?_⟩, (Bool.or_false _).symm⟩
      intro number answer h
      cases h
    · rintro ⟨hoff, hmodem, -⟩
      rcases hdata with hon | hgps
      · rw [hoff] at hon
        cases hon
      · rw [hmodem] at hgps
        cases hgps
  · have hoff : m.online = false := by
      cases hon : m.online with
      | false => rfl
      | true => exact absurd (Or.inl hon) hdata
    have hmodem : m.gps = false := by
      cases hgps : m.gps with
      | false => rfl
      | true => exact absurd (Or.inr hgps) hdata
    obtain ⟨m', hrun, hin, hover⟩ := commandByte_spec answer value hm hoff
    rw [if_neg hdata, hrun]
    refine ⟨_, rfl, ⟨hin.cmd, hin.numbers⟩, hover.trans ?_⟩
    by_cases hreturn : value = 13
    · rw [if_pos hreturn, if_pos ⟨hoff, hmodem, hreturn⟩]
      exact congrArg _ (Bool.or_false _).symm
    · rw [if_neg hreturn, if_neg fun h => hreturn h.2.2]
      rfl

theorem write_spec (reg : Nat) (value : UInt8) (hm : InBuffers m) :
    ∃ m', modemWrite m reg value answer = .ok m' ∧ InBuffers m' ∧
      m'.overflow = (m.overflow || anyTooLarge (executed m (.write reg value answer))) := by
  have hquiet : ∀ m' : Modem, ¬reg % 8 = 0 ∨ dlab m = true → InBuffers m' → m'.overflow = m.overflow →
      ∃ t, (.ok m' : Except Fault Modem) = .ok t ∧ InBuffers t ∧
        t.overflow = (m.overflow || anyTooLarge (executed m (.write reg value answer))) := by
    intro m' hother hin hover
    refine ⟨m', rfl, hin, ?_⟩
    rw [hover, show executed m (.write reg value answer) = [] from if_neg ?_]
    · exact (Bool.or_false _).symm
    · rintro ⟨hreg, hdlab, -⟩
      rcases hother with hreg' | hdlab'
      · exact hreg' hreg
      · rw [hdlab] at hdlab'
        cases hdlab'
  unfold modemWrite
  split
  · rename_i hreg
    by_cases hdlab : dlab m = true
    · rw [if_pos hdlab]
      exact hquiet _ (Or.inr hdlab) ⟨hm.cmd, hm.numbers⟩ rfl
    · rw [if_neg hdlab]
      obtain ⟨m', hrun, hin, hover⟩ := writeData_spec answer value hm
      refine ⟨m', hrun, hin, hover.trans ?_⟩
      show _ = (m.overflow || anyTooLarge (if reg % 8 = 0 ∧ dlab m = false ∧ m.online = false ∧ m.gps = false ∧ value = 13 then
        [cString m.cmd] else []))
      simp only [hreg, show dlab m = false by simpa using hdlab, true_and]
  · rename_i hreg
    split
    · exact hquiet _ (Or.inl (by omega)) ⟨hm.cmd, hm.numbers⟩ rfl
    · exact hquiet _ (Or.inl (by omega)) ⟨hm.cmd, hm.numbers⟩ rfl
  · simp only
    split
    · exact hquiet _ (Or.inl (by omega)) ⟨hm.cmd, hm.numbers⟩ rfl
    · exact hquiet _ (Or.inl (by omega)) ⟨hm.cmd, hm.numbers⟩ rfl
  · exact hquiet _ (Or.inl (by omega)) ⟨hm.cmd, hm.numbers⟩ rfl
  · have hcontrol : InBuffers (writeControl m value) ∧ (writeControl m value).overflow = m.overflow := by
      unfold writeControl
      simp only
      split
      · exact ⟨⟨hm.cmd, hm.numbers⟩, rfl⟩
      split
      · obtain ⟨hover, hin⟩ := hangUp_spec { m with mcr := value } true
        exact ⟨hin ⟨hm.cmd, hm.numbers⟩, hover⟩
      · exact ⟨⟨hm.cmd, hm.numbers⟩, rfl⟩
    exact hquiet _ (Or.inl (by omega)) hcontrol.1 hcontrol.2
  · exact hquiet _ (Or.inl (by omega)) ⟨hm.cmd, hm.numbers⟩ rfl
  · exact hquiet m (Or.inl ‹_›) hm rfl

/-- An event keeps the buffers, and overflows with the lines it executes. -/
theorem step_spec (e : Event) (hm : InBuffers m) :
    ∃ m', step m e = .ok m' ∧ InBuffers m' ∧ m'.overflow = (m.overflow || anyTooLarge (executed m e)) := by
  rcases e with reg | ⟨reg, value, answer⟩ | data | _
  · obtain ⟨hover, hcmd, hcalls⟩ := read_kept m reg
    exact ⟨_, rfl, ⟨by rw [hcmd]; exact hm.cmd, by rw [hcalls]; exact hm.numbers⟩, hover.trans (Bool.or_false _).symm⟩
  · exact write_spec reg value hm
  · obtain ⟨hover, hsaid, -⟩ := receive_spec m data
    exact ⟨_, rfl, hsaid.inBuffers hm, hover.trans (Bool.or_false _).symm⟩
  · obtain ⟨hover, hin⟩ := hangUp_spec m true
    exact ⟨_, rfl, hin hm, hover.trans (Bool.or_false _).symm⟩

theorem run_spec (events : List Event) (hm : InBuffers m) :
    ∃ m', run m events = .ok m' ∧ InBuffers m' ∧ m'.overflow = (m.overflow || anyTooLarge (executedLines m events)) := by
  induction events generalizing m with
  | nil => exact ⟨m, rfl, hm, (Bool.or_false _).symm⟩
  | cons e events ih =>
    obtain ⟨t, hstep, ht, hover⟩ := step_spec e hm
    obtain ⟨m', hrun, hin, hover'⟩ := ih ht
    refine ⟨m', ?_, hin, ?_⟩
    · rw [run, hstep]
      exact hrun
    · rw [hover', hover, executedLines, hstep, Bool.or_assoc]
      simp only [anyTooLarge, List.any_append]

/-- Nothing is read past a line, no loop runs for ever, the line and the numbers fit their
    buffers, and no parameter leaves the range of `int`. -/
def ParserSafe (gps : Bool) (events : List Event) : Prop :=
  ∃ m, run (modemReset gps) events = .ok m ∧ m.cmd.length < cmdSize ∧
    (∀ number answer, Call.dialed number answer ∈ m.calls → number.length < numberSize) ∧ m.overflow = false

/-- The interpreter is safe exactly when no parameter of an executed line is above 2^31 - 1; all
    but the range of `int` holds of every run. -/
theorem parser_safe_iff (gps : Bool) (events : List Event) :
    (ParserSafe gps events ↔ ∀ line ∈ executedLines (modemReset gps) events, ∀ d ∈ lineParameters line, value d ≤ intMax) ∧
    ∃ m, run (modemReset gps) events = .ok m ∧ m.cmd.length < cmdSize ∧
      ∀ number answer, Call.dialed number answer ∈ m.calls → number.length < numberSize := by
  have hstart : InBuffers (modemReset gps) := ⟨show 0 < cmdSize by decide, fun number answer h => by cases h⟩
  obtain ⟨m, hrun, hin, hover⟩ := run_spec events hstart
  refine ⟨?_, m, hrun, hin.cmd, hin.numbers⟩
  have hfine : m.overflow = false ↔ ∀ line ∈ executedLines (modemReset gps) events, ∀ d ∈ lineParameters line,
    value d ≤ intMax := by
    rw [hover]
    simp [modemReset, anyTooLarge, tooLarge]
  rw [← hfine]
  constructor
  · rintro ⟨m', hrun', -, -, hover'⟩
    rw [hrun] at hrun'
    cases hrun'
    exact hover'
  · intro hover'
    exact ⟨m, hrun, hin.cmd, hin.numbers, hover'⟩

/-- Characters the guest types, with no peer to answer a dial. -/
def typed (s : String) : List Event := s.toList.map fun c => .write 0 (UInt8.ofNat c.toNat) false

set_option maxRecDepth 100000 in
/-- A ten-digit parameter. -/
theorem parser_overflows : ¬ ParserSafe false (typed "ATE2147483648\r") := by
  rintro ⟨m, hrun, -, -, hover⟩
  have hset : (run (modemReset false) (typed "ATE2147483648\r")).toOption.map Modem.overflow = some true := by
    decide
  rw [hrun] at hset
  rw [show (Except.ok m : Except Fault Modem).toOption.map Modem.overflow = some m.overflow from rfl, hover] at hset
  cases hset

end Run

end Be300.CfModem
