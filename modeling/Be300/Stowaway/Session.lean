/-
  Be300.Stowaway.Session — the serial keyboard dock (`src/stowaway.c`).

  The guest's receive queue `rx` holds the answers to its probes and the keys; keys that come
  while a probe is under way wait in `pending`. A queued byte keeps where it is from: an
  answer's two bytes, or the key event of its number. `accepted` and `popped` record the key
  events accepted and the bytes that the guest has popped.

  In a run whose steps meet `Clear` the keys stay in order and every answer connects the
  keyboard (`session_ordered`). A wake key in front of an answer keeps it from being
  recognised (`wakeKey_unanswered`).
-/

import Mathlib.Data.List.Basic
import Mathlib.Tactic.Common

namespace Be300.Stowaway

/-! ## The code -/

def rxCap : Nat := 4096
def keyRelease : UInt8 := 0x80
def keyMask : Nat := 0x7F
def probeAck0 : UInt8 := 0xFA
def probeAck1 : UInt8 := 0xFD
def modemEventLimit : Nat := 2

inductive Item where
  | ack0
  | ack1
  | key (n : Nat) (byte : UInt8)
  deriving DecidableEq, Repr

def Item.byte : Item → UInt8
  | ack0 => probeAck0
  | ack1 => probeAck1
  | key _ byte => byte

def Item.isKey : Item → Bool
  | key _ _ => true
  | _ => false

structure StowawayState where
  enabled : Bool
  connected : Bool
  modemWaitRequested : Bool
  modemDeltaPending : Bool
  modemEventsDelivered : Nat
  dtrAsserted : Bool
  rtsAsserted : Bool
  probeAckPending : Bool
  probeAckSeen : Nat
  rx : List Item
  pending : List Item
  accepted : List Item
  popped : List Item

def configure (enabled : Bool) : StowawayState :=
  ⟨enabled, false, false, false, 0, false, false, false, 0, [], [], [], []⟩

/-- A full queue loses its first byte. -/
def pushed (queue : List Item) (x : Item) : List Item := (if queue.length = rxCap then queue.tail else queue) ++ [x]

def queueByte (x : Item) (s : StowawayState) : StowawayState := { s with rx := pushed s.rx x }

def queuePendingByte (x : Item) (s : StowawayState) : StowawayState := { s with pending := pushed s.pending x }

def flushPendingKeys (s : StowawayState) : StowawayState := s.pending.foldl (fun s x => queueByte x s) { s with pending := [] }

def uartReset (s : StowawayState) : StowawayState := { configure s.enabled with accepted := s.accepted, popped := s.popped }

def rxAvailable (s : StowawayState) : Bool := s.enabled && !s.rx.isEmpty

def notePopped (byte : UInt8) (s : StowawayState) : StowawayState :=
  if s.probeAckPending then
    if byte = probeAck0 ∧ s.probeAckSeen = 0 then { s with probeAckSeen := 1 }
    else if byte = probeAck1 ∧ s.probeAckSeen = 1 then
      flushPendingKeys { s with connected := true, probeAckPending := false, probeAckSeen := 0 }
    else { s with probeAckPending := false, probeAckSeen := 0 }
  else s

def rxPop (s : StowawayState) : Option UInt8 × StowawayState :=
  match s.rx with
  | [] => (none, s)
  | x :: rx =>
    if s.enabled then (some x.byte, notePopped x.byte { s with rx := rx, popped := s.popped ++ [x] }) else (none, s)

def rxClear (s : StowawayState) : StowawayState :=
  if s.enabled then { s with rx := [], probeAckPending := false, probeAckSeen := 0 } else s

def queueProbeAck (s : StowawayState) : StowawayState :=
  if s.probeAckPending then s
  else { queueByte .ack1 (queueByte .ack0 s) with probeAckPending := true, probeAckSeen := 0 }

def notePortConfig (s : StowawayState) : StowawayState :=
  if s.enabled then
    { s with
      connected := false, modemWaitRequested := false, modemDeltaPending := false, modemEventsDelivered := 0,
      dtrAsserted := false, rtsAsserted := false, probeAckPending := false, probeAckSeen := 0, rx := [], pending := [] }
  else s

def noteModemWait (s : StowawayState) : StowawayState := if s.enabled then { s with modemWaitRequested := true } else s

def noteModemControl (dtr rts : Bool) (s : StowawayState) : StowawayState :=
  if s.enabled then
    let oldRts := s.rtsAsserted
    let s := { s with dtrAsserted := dtr, rtsAsserted := rts }
    let s := if dtr then s else { s with connected := false, probeAckPending := false, probeAckSeen := 0 }
    if dtr && rts && !oldRts then queueProbeAck s else s
  else s

def takeModemWaitRequest (s : StowawayState) : Bool × StowawayState :=
  if !s.enabled || !s.modemWaitRequested || modemEventLimit ≤ s.modemEventsDelivered then (false, s)
  else (true, { s with modemEventsDelivered := s.modemEventsDelivered + 1 })

def takeModemDelta (s : StowawayState) : Bool × StowawayState :=
  if !s.enabled || !s.modemDeltaPending then (false, s) else (true, { s with modemDeltaPending := false })

/-- The key event is accepted. -/
def accept (byte : UInt8) (s : StowawayState) : Item × StowawayState :=
  (.key s.accepted.length byte, { s with accepted := s.accepted ++ [.key s.accepted.length byte] })

def queueKey (scancode : Nat) (release : Bool) (s : StowawayState) : Bool × StowawayState :=
  if !s.enabled then (false, s)
  else if keyMask < scancode then (false, s)
  else
    let byte := if release then UInt8.ofNat scancode ||| keyRelease else UInt8.ofNat scancode
    if !s.connected || !s.dtrAsserted then
      if !s.modemWaitRequested then (false, s)
      else
        let (x, s) := accept byte s
        (true, { queueByte x s with modemDeltaPending := true })
    else if !s.rtsAsserted || s.probeAckPending then
      let (x, s) := accept byte s
      (true, queuePendingByte x s)
    else
      let (x, s) := accept byte s
      (true, queueByte x s)

/-! ## Runs -/

inductive Event where
  | key (scancode : Nat) (release : Bool)
  | modemControl (dtr rts : Bool)
  | modemWait
  | takeModemWait
  | takeModemDelta
  | rxClear
  | rxPop
  | portConfig
  | uartReset
  deriving DecidableEq

def step (s : StowawayState) : Event → StowawayState
  | .key scancode release => (queueKey scancode release s).2
  | .modemControl dtr rts => noteModemControl dtr rts s
  | .modemWait => noteModemWait s
  | .takeModemWait => (takeModemWaitRequest s).2
  | .takeModemDelta => (takeModemDelta s).2
  | .rxClear => rxClear s
  | .rxPop => (rxPop s).2
  | .portConfig => notePortConfig s
  | .uartReset => uartReset s

def run (s : StowawayState) (es : List Event) : StowawayState := es.foldl step s

def keys (l : List Item) : List Item := l.filter Item.isKey

/-- The keys popped, those that wait for the guest and those held back are in the order of their events. The second byte of an
    answer connects the keyboard as it is popped, and the keys held back follow what waits already. -/
structure Ordered (s : StowawayState) : Prop where
  order : (keys s.popped ++ keys s.rx ++ s.pending).Sublist s.accepted
  answered : s.enabled = true → s.rx.head? = some .ack1 →
    (rxPop s).2.connected = true ∧ (rxPop s).2.pending = [] ∧ (rxPop s).2.rx = s.rx.tail ++ s.pending

/-- Fewer bytes are queued than a queue holds. -/
def Room (s : StowawayState) : Prop := s.rx.length + s.pending.length < rxCap

instance (s : StowawayState) : Decidable (Room s) := inferInstanceAs (Decidable (_ < _))

/-- A key event would go to the receive queue at once. -/
def Direct (s : StowawayState) : Prop :=
  if s.connected && s.dtrAsserted then s.rtsAsserted = true ∧ s.probeAckPending = false else s.modemWaitRequested = true

/-- No key passes one that is held back; a probe is answered into an empty queue, and its answer is read before DTR drops. -/
def Clear (s : StowawayState) : Event → Prop
  | .key _ _ => s.pending ≠ [] → ¬ Direct s
  | .modemControl dtr rts =>
    (dtr = false → s.probeAckPending = false) ∧ (dtr = true → rts = true → s.rtsAsserted = false → s.probeAckPending = false →
      s.rx = [])
  | _ => True

/-- `P` holds of every state before an event and of the event, and there is room all along. -/
def Along (P : StowawayState → Event → Prop) : StowawayState → List Event → Prop
  | s, [] => Room s
  | s, e :: es => Room s ∧ P s e ∧ Along P (step s e) es

section Run

variable {s : StowawayState} {x : Item} {l : List Item}

/-- An answer that is awaited is at the front of the queue, and no other one is in it. -/
inductive Answer : Bool → Nat → List Item → Prop
  | none {l : List Item} (h : ∀ x ∈ l, x.isKey = true) : Answer false 0 l
  | whole {l : List Item} (h : ∀ x ∈ l, x.isKey = true) : Answer true 0 (.ack0 :: .ack1 :: l)
  | half {l : List Item} (h : ∀ x ∈ l, x.isKey = true) : Answer true 1 (.ack1 :: l)

structure Inv (s : StowawayState) : Prop where
  order : (keys s.popped ++ keys s.rx ++ s.pending).Sublist s.accepted
  held : ∀ x ∈ s.pending, x.isKey = true
  answer : Answer s.probeAckPending s.probeAckSeen s.rx

theorem pushed_room (h : l.length < rxCap) (x : Item) : pushed l x = l ++ [x] := by
  rw [pushed, if_neg (Nat.ne_of_lt h)]

theorem keys_append (l l' : List Item) : keys (l ++ l') = keys l ++ keys l' := List.filter_append ..

theorem keys_all (h : ∀ x ∈ l, x.isKey = true) : keys l = l := List.filter_eq_self.mpr h

theorem Answer.push {ackPending : Bool} {seen : Nat} (h : Answer ackPending seen l) (hx : x.isKey = true) :
    Answer ackPending seen (l ++ [x]) := by
  have hall {l : List Item} (h : ∀ y ∈ l, y.isKey = true) : ∀ y ∈ l ++ [x], y.isKey = true := fun y hy => by
    rcases List.mem_append.mp hy with hy | hy
    · exact h y hy
    · rw [List.mem_singleton.mp hy]
      exact hx
  cases h with
  | none h => exact .none (hall h)
  | whole h => exact .whole (hall h)
  | half h => exact .half (hall h)

theorem Answer.idle {seen : Nat} (h : Answer false seen l) : seen = 0 ∧ ∀ x ∈ l, x.isKey = true := by
  cases h with
  | none h => exact ⟨rfl, h⟩

/-- The held keys go behind the others. -/
theorem flush_eq (h : s.rx.length + s.pending.length ≤ rxCap) :
    flushPendingKeys s = { s with rx := s.rx ++ s.pending, pending := [] } := by
  have hloop : ∀ (l : List Item) (t : StowawayState), t.rx.length + l.length ≤ rxCap →
      l.foldl (fun s x => queueByte x s) t = { t with rx := t.rx ++ l } := by
    intro l
    induction l with
    | nil => intro t _; simp
    | cons x l ih =>
      intro t ht
      rw [List.length_cons] at ht
      have hpush : queueByte x t = { t with rx := t.rx ++ [x] } := by rw [queueByte, pushed_room (by omega)]
      rw [List.foldl_cons, hpush, ih _ (by simp only [List.length_append, List.length_singleton]; omega)]
      simp
  exact hloop s.pending { s with pending := [] } h

/-- The invariant is about the queues and the answer only. -/
theorem Inv.congr {t : StowawayState} (h : Inv s) (hrx : t.rx = s.rx) (hpending : t.pending = s.pending)
    (hack : t.probeAckPending = s.probeAckPending)
    (hseen : t.probeAckSeen = s.probeAckSeen) (haccepted : t.accepted = s.accepted) (hpopped : t.popped = s.popped) : Inv t := by
  refine ⟨?_, ?_, ?_⟩
  · rw [hpopped, hrx, hpending, haccepted]
    exact h.order
  · rw [hpending]
    exact h.held
  · rw [hack, hseen, hrx]
    exact h.answer

/-- Without the bytes that wait. -/
theorem Inv.cleared {t : StowawayState} (h : Inv s) (hrx : t.rx = []) (hpending : t.pending = s.pending ∨ t.pending = [])
    (hack : t.probeAckPending = false) (hseen : t.probeAckSeen = 0) (haccepted : t.accepted = s.accepted)
      (hpopped : t.popped = s.popped) : Inv t := by
  have hpart : (keys s.popped ++ s.pending).Sublist s.accepted := by
    refine List.Sublist.trans ?_ h.order
    rw [List.append_assoc]
    exact List.Sublist.append_left (List.sublist_append_right _ _) _
  refine ⟨?_, ?_, ?_⟩
  · rw [hpopped, hrx, haccepted, show keys [] = [] from rfl, List.append_nil]
    rcases hpending with hp | hp
    · rw [hp]
      exact hpart
    · rw [hp, List.append_nil]
      exact (List.sublist_append_left _ _).trans hpart
  · rcases hpending with hp | hp
    · rw [hp]
      exact h.held
    · rw [hp]
      exact fun x hx => absurd hx List.not_mem_nil
  · rw [hack, hseen, hrx]
    exact .none fun x hx => absurd hx List.not_mem_nil

/-- A key for the receive queue, while none is held back. -/
theorem Inv.queue (h : Inv s) (hroom : s.rx.length < rxCap) (hnone : s.pending = []) (byte : UInt8) (delta : Bool) :
    Inv { queueByte (accept byte s).1 (accept byte s).2 with modemDeltaPending := delta } := by
  have hpush : pushed s.rx (.key s.accepted.length byte) = s.rx ++ [.key s.accepted.length byte] := pushed_room hroom _
  refine ⟨?_, h.held, ?_⟩
  · show (keys s.popped ++ keys (pushed s.rx (.key s.accepted.length byte)) ++ s.pending).Sublist
      (s.accepted ++ [.key s.accepted.length byte])
    have horder := h.order
    rw [hnone, List.append_nil] at horder
    rw [hpush, keys_append, hnone, List.append_nil, ← List.append_assoc]
    exact horder.append (List.Sublist.refl _)
  · show Answer s.probeAckPending s.probeAckSeen (pushed s.rx (.key s.accepted.length byte))
    rw [hpush]
    exact h.answer.push rfl

/-- A key that is held back. -/
theorem Inv.hold (h : Inv s) (hroom : s.pending.length < rxCap) (byte : UInt8) :
    Inv (queuePendingByte (accept byte s).1 (accept byte s).2) := by
  have hpush : pushed s.pending (.key s.accepted.length byte) = s.pending ++ [.key s.accepted.length byte] := pushed_room hroom _
  refine ⟨?_, ?_, h.answer⟩
  · show (keys s.popped ++ keys s.rx ++ pushed s.pending (.key s.accepted.length byte)).Sublist
      (s.accepted ++ [.key s.accepted.length byte])
    rw [hpush, ← List.append_assoc]
    exact h.order.append (List.Sublist.refl _)
  · show ∀ x ∈ pushed s.pending (.key s.accepted.length byte), x.isKey = true
    rw [hpush]
    intro x hx
    rcases List.mem_append.mp hx with hx | hx
    · exact h.held x hx
    · rw [List.mem_singleton.mp hx]
      rfl

theorem key_keeps (h : Inv s) (hroom : Room s) {scancode : Nat} {release : Bool} (hclear : Clear s (.key scancode release)) :
    Inv (queueKey scancode release s).2 := by
  have hsize : s.rx.length + s.pending.length < rxCap := hroom
  have hnone (hdirect : Direct s) : s.pending = [] := by
    by_contra hheld
    exact hclear hheld hdirect
  unfold queueKey
  split
  · exact h
  · split
    · exact h
    · simp only
      split
      · rename_i hoff
        split
        · exact h
        · rename_i hwait
          refine h.queue (by omega) (hnone ?_) _ true
          rw [Direct, if_neg (by simpa [or_iff_not_imp_left] using hoff)]
          simpa using hwait
      · rename_i hon
        have hup : (s.connected && s.dtrAsserted) = true := by simpa using hon
        split
        · exact h.hold (by omega) _
        · rename_i hfree
          refine h.queue (by omega) (hnone ?_) _ s.modemDeltaPending
          rw [Direct, if_pos hup]
          simpa using hfree

theorem control_keeps (h : Inv s) {dtr rts : Bool} (hclear : Clear s (.modemControl dtr rts)) :
    Inv (noteModemControl dtr rts s) := by
  obtain ⟨hdrop, hprobe⟩ := hclear
  unfold noteModemControl
  split
  · simp only
    cases dtr with
    | false =>
      have hack := hdrop rfl
      have hanswer := h.answer
      rw [hack] at hanswer
      have hseen := hanswer.idle.1
      exact h.congr rfl rfl hack.symm hseen.symm rfl rfl
    | true =>
      simp only [Bool.true_and, if_true]
      split
      · rename_i hrise
        rw [Bool.and_eq_true, Bool.not_eq_true'] at hrise
        unfold queueProbeAck
        split
        · exact h.congr rfl rfl rfl rfl rfl rfl
        · rename_i hack
          have hempty := hprobe rfl hrise.1 hrise.2 (by simpa using hack)
          have horder := h.order
          rw [hempty] at horder
          refine ⟨?_, h.held, ?_⟩
          · show (keys s.popped ++ keys (pushed (pushed s.rx .ack0) .ack1) ++ s.pending).Sublist s.accepted
            rw [hempty]
            exact horder
          · show Answer true 0 (pushed (pushed s.rx .ack0) .ack1)
            rw [hempty]
            exact .whole fun x hx => absurd hx List.not_mem_nil
      · exact h.congr rfl rfl rfl rfl rfl rfl
  · exact h

/-- The byte in front goes to the guest. -/
theorem order_popped {rx pending accepted popped : List Item} (h : (keys popped ++ keys (x :: rx) ++ pending).Sublist accepted) :
    (keys (popped ++ [x]) ++ keys rx ++ pending).Sublist accepted := by
  rw [keys_append, List.append_assoc (keys popped), ← keys_append]
  exact h

theorem pop_keeps (h : Inv s) (hroom : Room s) : Inv (rxPop s).2 := by
  have hsize : s.rx.length + s.pending.length < rxCap := hroom
  unfold rxPop
  split
  · exact h
  rename_i x rx hrx
  split
  · have horder := h.order
    have hanswer := h.answer
    rw [hrx] at horder hanswer hsize
    rw [List.length_cons] at hsize
    simp only [notePopped]
    obtain ⟨ackPending, hack⟩ : ∃ b, s.probeAckPending = b := ⟨_, rfl⟩
    obtain ⟨seen, hseen⟩ : ∃ n, s.probeAckSeen = n := ⟨_, rfl⟩
    rw [hack, hseen] at hanswer
    simp only [hack, hseen]
    cases hanswer with
    | none hkeys =>
      exact ⟨order_popped horder, h.held, .none fun y hy => hkeys y (List.mem_cons_of_mem _ hy)⟩
    | whole hkeys => exact ⟨order_popped horder, h.held, .half hkeys⟩
    | half hkeys =>
      rw [if_pos rfl, if_neg (by decide), if_pos (by decide), flush_eq (by simp only; omega)]
      refine ⟨?_, fun y hy => absurd hy List.not_mem_nil, .none fun y hy => ?_⟩
      · show (keys (s.popped ++ [Item.ack1]) ++ keys (rx ++ s.pending) ++ []).Sublist s.accepted
        rw [keys_append rx, keys_all h.held, List.append_nil, ← List.append_assoc]
        exact order_popped horder
      · rcases List.mem_append.mp hy with hy | hy
        · exact hkeys y hy
        · exact h.held y hy
  · exact h

theorem step_keeps (h : Inv s) (hroom : Room s) {e : Event} (hclear : Clear s e) : Inv (step s e) := by
  cases e with
  | key scancode release => exact key_keeps h hroom hclear
  | modemControl dtr rts => exact control_keeps h hclear
  | modemWait =>
    show Inv (noteModemWait s)
    unfold noteModemWait
    split
    · exact h.congr rfl rfl rfl rfl rfl rfl
    · exact h
  | takeModemWait =>
    show Inv (takeModemWaitRequest s).2
    unfold takeModemWaitRequest
    split
    · exact h
    · exact h.congr rfl rfl rfl rfl rfl rfl
  | takeModemDelta =>
    show Inv (takeModemDelta s).2
    unfold takeModemDelta
    split
    · exact h
    · exact h.congr rfl rfl rfl rfl rfl rfl
  | rxClear =>
    show Inv (rxClear s)
    unfold rxClear
    split
    · exact h.cleared rfl (.inl rfl) rfl rfl rfl rfl
    · exact h
  | rxPop => exact pop_keeps h hroom
  | portConfig =>
    show Inv (notePortConfig s)
    unfold notePortConfig
    split
    · exact h.cleared rfl (.inr rfl) rfl rfl rfl rfl
    · exact h
  | uartReset => exact h.cleared rfl (.inr rfl) rfl rfl rfl rfl

theorem run_keeps (h : Inv s) {es : List Event} (halong : Along Clear s es) : Inv (run s es) ∧ Room (run s es) := by
  induction es generalizing s with
  | nil => exact ⟨h, halong⟩
  | cons e es ih => exact ih (step_keeps h halong.1 halong.2.1) halong.2.2

theorem Inv.ordered (h : Inv s) (hroom : Room s) : Ordered s := by
  refine ⟨h.order, fun henabled hhead => ?_⟩
  have hsize : s.rx.length + s.pending.length < rxCap := hroom
  obtain ⟨rx, hrx⟩ : ∃ rx, s.rx = .ack1 :: rx := by
    cases hq : s.rx with
    | nil => rw [hq] at hhead; cases hhead
    | cons y rx => rw [hq] at hhead; exact ⟨rx, congrArg (· :: rx) (Option.some.inj hhead)⟩
  have hanswer := h.answer
  rw [hrx] at hanswer hsize
  rw [List.length_cons] at hsize
  have hawaited : s.probeAckPending = true ∧ s.probeAckSeen = 1 := by
    generalize s.probeAckPending = ackPending at hanswer
    generalize s.probeAckSeen = seen at hanswer
    cases hanswer with
    | none hkeys => exact absurd (hkeys .ack1 (List.mem_cons_self ..)) (by decide)
    | half _ => exact ⟨rfl, rfl⟩
  have hpop : (rxPop s).2 = flushPendingKeys { s with
      connected := true, probeAckPending := false, probeAckSeen := 0, rx := rx, popped := s.popped ++ [.ack1] } := by
    unfold rxPop
    simp only [hrx]
    rw [if_pos henabled]
    simp only [notePopped, hawaited]
    rw [if_pos trivial, if_neg (by decide), if_pos (by decide)]
  rw [hpop, flush_eq (by simp only; omega), hrx]
  exact ⟨rfl, rfl, rfl⟩

theorem configure_inv (enabled : Bool) : Inv (configure enabled) := by
  refine ⟨List.Sublist.refl _, fun x hx => ?_, .none fun x hx => ?_⟩
  · exact absurd hx List.not_mem_nil
  · exact absurd hx List.not_mem_nil

theorem Along.start {P : StowawayState → Event → Prop} {es pre : List Event} (h : Along P s es) (hpre : pre <+: es) :
    Along P s pre := by
  induction pre generalizing s es with
  | nil =>
    cases es with
    | nil => exact h
    | cons e es => exact h.1
  | cons e pre ih =>
    obtain ⟨rest, rfl⟩ := hpre
    exact ⟨h.1, h.2.1, ih h.2.2 (List.prefix_append pre rest)⟩

/-- In a run that keeps clear, the keys are in order and every answer connects the keyboard, in every state. -/
theorem session_ordered {enabled : Bool} {es : List Event} (halong : Along Clear (configure enabled) es) (pre : List Event)
    (hpre : pre <+: es) :
    Ordered (run (configure enabled) pre) := by
  obtain ⟨hinv, hroom⟩ := run_keeps (configure_inv enabled) (halong.start hpre)
  exact hinv.ordered hroom

end Run

/-- A press and its release come while RTS is low and while the second probe is under way. -/
def typing : List Event :=
  [.modemControl true true, .rxPop, .rxPop, .modemControl true false, .key 30 false, .modemControl true true, .key 30 true,
    .rxPop]

theorem typing_ordered : Along Clear (configure true) typing ∧ Ordered (run (configure true) typing) ∧
    (rxPop (run (configure true) typing)).2.rx = [.key 0 0x1E, .key 1 0x9E] := by
  have halong : Along Clear (configure true) typing := by
    refine ⟨by decide, ⟨?_, fun _ _ _ _ => rfl⟩, by decide, trivial, by decide, trivial, by decide, ⟨fun _ => rfl, ?_⟩, by decide,
      ?_, by decide,
      ⟨?_, fun _ _ _ _ => rfl⟩, by decide, fun _ hdirect => ?_, by decide, trivial, ?_⟩
    · intro h
      cases h
    · intro _ h
      cases h
    · exact fun h => absurd rfl h
    · intro h
      cases h
    · exact absurd hdirect.2 (by decide)
    · show Room _
      decide
  exact ⟨halong, session_ordered halong typing (List.prefix_refl _), by decide⟩

/-- A key wakes the guest, which probes before it reads it: the key's byte is taken for a wrong answer. -/
theorem wakeKey_unanswered : ¬ ∀ es, Along (fun _ _ => True) (configure true) es → Ordered (run (configure true) es) := by
  intro h
  have hlast : Room (run (configure true) [.modemWait, .key 30 false, .modemControl true true, .rxPop, .rxPop]) := by decide
  have hrun := h [.modemWait, .key 30 false, .modemControl true true, .rxPop, .rxPop]
    ⟨by decide, trivial, by decide, trivial, by decide, trivial, by decide, trivial, by decide, trivial, hlast⟩
  have hanswered := (hrun.answered (by decide) (by decide)).1
  exact absurd hanswered (by decide)

end Be300.Stowaway
