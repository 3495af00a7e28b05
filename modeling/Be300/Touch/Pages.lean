/-
  Be300.Touch.Pages — the two pages of the touch-panel interface unit, over every sequence
  of touches, ticks and register accesses (`src/hw/piu.c`).

  `Pages` is what the driver can tell of the pages: the bits of their interrupts, their
  coordinates and the state of the sequencer. Each operation of the unit is followed there.
-/

import Mathlib.Data.List.Induction
import Be300.Touch.Piu

namespace Be300.Touch

/-! ## Bits -/

theorem anySet_twoPow (v : Word) (i : Nat) (hi : i < 16) : anySet v (BitVec.twoPow 16 i) = v.getLsbD i := by
  unfold anySet
  rw [BitVec.and_twoPow]
  cases v.getLsbD i with
  | false => rfl
  | true =>
    have hne : BitVec.twoPow 16 i ≠ 0#16 := by
      intro h
      have hbit := congrArg (·.getLsbD i) h
      simp [hi] at hbit
    simpa using hne

theorem anySet_or (v a b : Word) : anySet v (a ||| b) = (anySet v a || anySet v b) := by
  unfold anySet
  rw [BitVec.and_or_distrib_left]
  rw [Bool.eq_iff_iff]
  simp [BitVec.or_eq_zero_iff]
  tauto

theorem anySet_datalost (v : Word) : anySet v pendingDatalost = v.getLsbD 2 := anySet_twoPow v 2 (by decide)
theorem anySet_page0 (v : Word) : anySet v pendingPage0 = v.getLsbD 3 := anySet_twoPow v 3 (by decide)
theorem anySet_page1 (v : Word) : anySet v pendingPage1 = v.getLsbD 4 := anySet_twoPow v 4 (by decide)

namespace Piu

/-! ## What shows of the pages -/

@[ext] structure Pages where
  lost : Bool
  pending : Fin 2 → Bool
  valid : Fin 2 → Bool
  coordinates : Fin 2 → Adc
  padstate : Nat
  touchDown : Bool

def pages (p : Piu) : Pages where
  lost := (p.regs 1).getLsbD 2
  pending i := (p.regs 1).getLsbD (3 + i)
  valid := p.pageValid
  coordinates := p.pageAdc
  padstate := p.padstate
  touchDown := p.touchDown

section Operations

variable {p : Piu}

@[simp] theorem setReg_pages {i : Nat} (h : i ≠ 1) (v : Word) : (p.setReg i v).pages = p.pages := by
  simp [pages, setReg, Function.update_of_ne h.symm]

@[simp] theorem armSample_pages (now : BitVec 64) (delay : Nat) : (p.armSample now delay).pages = p.pages := rfl

@[simp] theorem disarm_pages : p.disarm.pages = p.pages := rfl

@[simp] theorem latchSample_pages : p.latchSample.pages = p.pages := rfl

@[simp] theorem raisePenchg_pages (down : Bool) : (p.raisePenchg down).pages = p.pages := by
  unfold raisePenchg
  split
  · rfl
  · simp [pages, setReg, pendingPenchg]

theorem clearCoordinateState_pages :
    p.clearCoordinateState.pages = { p.pages with lost := false, pending := fun _ => false, valid := fun _ => false } := by
  have hpending : ∀ i : Fin 2, (p.regs 1 &&& ~~~pendingCoordinate).getLsbD (3 + i) = false := by
    rw [Fin.forall_fin_two]
    simp [pendingCoordinate, pendingTouchData, pendingPage0, pendingPage1, pendingDatalost]
  have hlost : (p.regs 1 &&& ~~~pendingCoordinate).getLsbD 2 = false := by
    simp [pendingCoordinate, pendingTouchData, pendingPage0, pendingPage1, pendingDatalost]
  simp only [pages, clearCoordinateState, setReg, disarm, Function.update_self, hlost, hpending]

theorem storeSample_pages (page : Fin 2) (now : BitVec 64) :
    (p.storeSample page now).pages = { p.pages with
      pending := Function.update p.pages.pending page true, valid := Function.update p.pages.valid page true
      coordinates := Function.update p.pages.coordinates page p.latchSample.adc, padstate := padstateInterval } := by
  have hpending : ∀ i : Fin 2, (p.regs 1 ||| pageBit page).getLsbD (3 + i) = Function.update p.pages.pending page true i := by
    rcases Fin.exists_fin_two.mp ⟨page, rfl⟩ with rfl | rfl <;> rw [Fin.forall_fin_two] <;>
      simp [pageBit, pendingPage0, pendingPage1, pages]
  have hlost : (p.regs 1 ||| pageBit page).getLsbD 2 = (p.regs 1).getLsbD 2 := by
    rcases Fin.exists_fin_two.mp ⟨page, rfl⟩ with rfl | rfl <;> simp [pageBit, pendingPage0, pendingPage1]
  simp only [storeSample, armSample_pages]
  refine Pages.ext ?_ (funext fun i => ?_) rfl rfl rfl rfl
  · simpa [pages, setReg, latchSample] using hlost
  · simpa [pages, setReg, latchSample] using hpending i

theorem loseSample_pages : p.loseSample.pages = { p.pages with lost := true, padstate := padstateStandby } := by
  have hpending : ∀ i : Fin 2, (p.regs 1 ||| pendingDatalost).getLsbD (3 + i) = (p.regs 1).getLsbD (3 + i) := by
    rw [Fin.forall_fin_two]
    simp [pendingDatalost]
  have hlost : (p.regs 1 ||| pendingDatalost).getLsbD 2 = true := by simp [pendingDatalost]
  simp only [pages, loseSample, setReg, disarm, Function.update_self, hlost, hpending]

/-- The pages whose interrupts and flags an acknowledgement clears. -/
def acknowledged (value : Word) (i : Fin 2) : Bool := value.getLsbD (3 + i)

theorem setReg_one_pages (v : Word) :
    (p.setReg 1 v).pages = { p.pages with lost := v.getLsbD 2, pending := fun i => v.getLsbD (3 + i) } := by
  simp only [pages, setReg, Function.update_self]

/-- The bit of a page in `v` clears its flag. -/
theorem clearValid_pages (page : Fin 2) (acked : Bool) :
    pages (if acked then { p with pageValid := Function.update p.pageValid page false } else p) =
      { p.pages with valid := fun i => p.pages.valid i && !(decide (i = page) && acked) } := by
  cases acked with
  | false =>
    simp
  | true =>
    refine Pages.ext rfl rfl (funext fun i => ?_) rfl rfl rfl
    by_cases h : i = page <;> simp [pages, h]

theorem penchg_pages : (p.setReg 1 (p.regs 1 ||| pendingPenchg)).pages = p.pages := by
  simp [pages, setReg, pendingPenchg]

theorem writeInterrupts_pages (value : Word) (now : BitVec 64) :
    (p.writeInterrupts value now).pages = { p.pages with
      lost := p.pages.lost && !value.getLsbD 2, pending := fun i => p.pages.pending i && !acknowledged value i
      valid := fun i => p.pages.valid i && !acknowledged value i } := by
  unfold writeInterrupts
  extract_lets oldPending pendingAck newMask dataAcked p1 p2 p3 p4 p5
  have hcleared : p2.pages = { p.pages with
      lost := p.pages.lost && !value.getLsbD 2, pending := fun i => p.pages.pending i && !acknowledged value i } := by
    have hone : p1.regs 1 = p.regs 1 &&& ~~~(pendingAck &&& pendingAny) := by
      simp only [p1, setReg, Function.update_self]
    have hlost : ((p1.regs 1 &&& 0x00ff) ||| newMask <<< 8).getLsbD 2 = ((p.regs 1).getLsbD 2 && !value.getLsbD 2) := by
      rw [hone]
      simp [pendingAck, newMask, pendingAny, pendingPenchg, pendingTouchGroup]
    have hpending : ∀ i : Fin 2,
        ((p1.regs 1 &&& 0x00ff) ||| newMask <<< 8).getLsbD (3 + i) = ((p.regs 1).getLsbD (3 + i) && !acknowledged value i) := by
      rw [hone, Fin.forall_fin_two]
      simp [pendingAck, newMask, pendingAny, pendingPenchg, pendingTouchGroup, acknowledged]
    refine (setReg_one_pages _).trans ?_
    exact Pages.ext hlost (funext hpending) rfl rfl rfl rfl
  have hvalid : p4.pages = { p2.pages with valid := fun i => p2.pages.valid i && !acknowledged value i } := by
    have hfirst : p3.pages = { p2.pages with valid := fun i => p2.pages.valid i &&
      !(decide (i = 0) && anySet pendingAck pendingPage0) } :=
      clearValid_pages ..
    have hsecond : p4.pages = { p3.pages with
        valid := fun i => p3.pages.valid i && !(decide (i = 1) && anySet pendingAck pendingPage1) } :=
      clearValid_pages ..
    rw [hsecond, hfirst]
    refine Pages.ext rfl rfl (funext fun i => ?_) rfl rfl rfl
    rw [anySet_page0, anySet_page1]
    rcases Fin.exists_fin_two.mp ⟨i, rfl⟩ with rfl | rfl <;> simp [pendingAck, acknowledged]
  have hpenchg : p5.pages = p4.pages := by
    unfold p5
    split
    · split
      · exact penchg_pages (p := { p4 with penstc := p4.queuedPenstc, queuedPenchg := false })
      · rfl
    · rfl
  have harmed : ∀ c : Prop, [Decidable c] → (if c then p5.armSample now p5.intervalDelayUs else p5).pages = p5.pages := by
    intro c _
    split <;> rfl
  rw [harmed, hpenchg, hvalid, hcleared]

theorem signalPenDown_pages (now : BitVec 64) :
    (p.signalPenDown now).pages = { p.pages with
      lost := false, pending := fun _ => false, valid := fun _ => false
      padstate := if p.padstate = padstateWaitPen ∧ anySet (p.regs 0) padatstart then padstatePenData else p.padstate } := by
  have hctl : p.clearCoordinateState.regs 0 = p.regs 0 := by
    simp [clearCoordinateState, setReg, disarm]
  unfold signalPenDown
  simp only [raisePenchg_pages, latchSample_pages, hctl, show p.clearCoordinateState.padstate = p.padstate from rfl]
  split
  · rw [armSample_pages]
    exact congrArg (fun a : Pages => { a with padstate := padstatePenData }) clearCoordinateState_pages
  · exact clearCoordinateState_pages

theorem signalPenUp_pages : ∃ padstate, p.signalPenUp.pages = { p.pages with padstate } ∧
    (padstate = p.padstate ∨ padstate = padstateStandby ∨ padstate = padstateWaitPen) := by
  unfold signalPenUp
  extract_lets waitEnabled shouldSignal p1 p2
  split
  · rw [raisePenchg_pages]
    exact ⟨p.padstate, rfl, Or.inl rfl⟩
  · have hsignal : (if shouldSignal then p2.raisePenchg false else p2).pages = p2.pages := by
      split
      · exact raisePenchg_pages false
      · rfl
    rw [hsignal]
    unfold p2
    split
    · exact ⟨padstateWaitPen, rfl, Or.inr (Or.inr rfl)⟩
    split
    · exact ⟨padstateStandby, rfl, Or.inr (Or.inl rfl)⟩
    · exact ⟨p.padstate, rfl, Or.inl rfl⟩

end Operations

/-! ## The invariant -/

/-- A page is valid while its interrupt is pending; no interrupt is while the sequencer waits
    for a pen that is down. -/
structure Sound (a : Pages) : Prop where
  same : ∀ i, a.valid i = a.pending i
  waiting : a.padstate = padstateWaitPen → a.touchDown = true → ∀ i, a.pending i = false
  states : a.padstate ≤ padstateStandby ∨ padstateWaitPen ≤ a.padstate

/-- No page is valid, none is pending and no data is lost. -/
def Pages.cleared (a : Pages) (padstate : Nat) (touchDown : Bool) : Pages :=
  { a with lost := false, pending := fun _ => false, valid := fun _ => false, padstate, touchDown }

theorem cleared_sound (a : Pages) {padstate : Nat} (touchDown : Bool)
    (h : padstate ≤ padstateStandby ∨ padstateWaitPen ≤ padstate) : Sound (a.cleared padstate touchDown) :=
  ⟨fun _ => rfl, fun _ _ _ => rfl, h⟩

section Steps

variable {p : Piu}

theorem anySet_coordinate : anySet (p.regs 1) pendingCoordinate = (p.pages.pending 0 || p.pages.pending 1 || p.pages.lost) := by
  unfold pendingCoordinate pendingTouchData
  rw [anySet_or, anySet_or, anySet_page0, anySet_page1, anySet_datalost]
  rfl

theorem anySet_pageBit (page : Fin 2) : anySet (p.regs 1) (pageBit page) = p.pages.pending page := by
  rcases Fin.exists_fin_two.mp ⟨page, rfl⟩ with rfl | rfl
  · exact anySet_page0 _
  · exact anySet_page1 _

theorem Sound.withState {a : Pages} (ha : Sound a) {padstate : Nat} {touchDown : Bool}
    (hwait : padstate = padstateWaitPen → touchDown = true → ∀ i, a.pending i = false)
    (hstates : padstate ≤ padstateStandby ∨ padstateWaitPen ≤ padstate) : Sound { a with padstate, touchDown } :=
  ⟨ha.same, hwait, hstates⟩

/-- What the sequencer's control does to the pages: nothing, or it clears them, where there is
    nothing to clear or the sequencer is off. -/
inductive Controlled (p : Piu) : Pages → Prop
  | keeps (padstate : Nat) (h : Sound { p.pages with padstate }) : Controlled p { p.pages with padstate }
  | clears (padstate : Nat) (hstate : padstate ≤ padstateStandby ∨ padstateWaitPen ≤ padstate)
      (h : (∀ i, p.pages.pending i = false) ∨ anySet (p.regs 0) piuseqen = false) :
      Controlled p (p.pages.cleared padstate p.touchDown)

theorem waitForPen_controlled (hs : Sound p.pages) (henabled : p.padstate ≠ padstateDisable) (now : BitVec 64) :
    Controlled p (p.waitForPen now).pages := by
  unfold waitForPen
  split
  · exact .keeps p.padstate hs
  rename_i hpending
  -- below the waiting state the unit stands by, and then nothing is pending
  have hnone : p.padstate < padstateWaitPen → ∀ i, p.pages.pending i = false := by
    intro hlow
    have hstandby : p.padstate = padstateStandby := by
      rcases hs.states with h | h
      · exact Nat.le_antisymm h (Nat.pos_of_ne_zero henabled)
      · exact absurd hlow (Nat.not_lt.mpr h)
    rw [not_and, anySet_coordinate] at hpending
    have h := hpending hstandby
    simp only [Bool.not_eq_true, Bool.or_eq_false_iff] at h
    exact Fin.forall_fin_two.mpr h.1
  have hdown : ∀ q : Piu, q.pages = { p.pages with padstate := q.padstate } → padstateWaitPen ≤ q.padstate →
      (q.touchDown = true → q.padstate = padstateWaitPen → ∀ i, p.pages.pending i = false) →
      Controlled p (if q.touchDown ∧ q.padstate = padstateWaitPen then q.signalPenDown now else q).pages := by
    intro q hq hle hempty
    have htouch : q.touchDown = p.touchDown := congrArg Pages.touchDown hq
    split
    · rename_i h
      rw [signalPenDown_pages, hq]
      refine .clears _ (Or.inr ?_) (Or.inl (hempty h.1 h.2))
      split
      · decide
      · exact hle
    · rename_i h
      rw [hq]
      refine .keeps q.padstate (hs.withState ?_ (Or.inr hle))
      intro h1 h2
      exact absurd ⟨htouch.trans h2, h1⟩ h
  split
  · rename_i hlow
    exact hdown { p with padstate := padstateWaitPen } rfl (Nat.le_refl _) fun _ _ => hnone hlow
  · rename_i hhigh
    exact hdown p rfl (Nat.not_lt.mp hhigh) fun h1 h2 => hs.waiting h2 h1

theorem refresh_controlled (hs : Sound p.pages) (now : BitVec 64) : Controlled p (p.refreshControlState now).pages := by
  have hleave : ∃ padstate, p.leaveDisable = { p with padstate } ∧ Sound { p.pages with padstate } ∧
      (p.regs 0 ≠ 0 → padstate ≠ padstateDisable) := by
    unfold leaveDisable
    split
    · exact ⟨padstateStandby, rfl, hs.withState (fun h => absurd h (by decide)) (Or.inl (Nat.le_refl _)), fun _ => by decide⟩
    · rename_i h
      exact ⟨p.padstate, rfl, hs, fun hctl hdisable => h ⟨hdisable, hctl⟩⟩
  obtain ⟨padstate, hp, hsound, henabled⟩ := hleave
  unfold refreshControlState
  rw [hp]
  simp only
  generalize hq : ({ p with padstate } : Piu) = q
  have hpages : q.pages = { p.pages with padstate } := by rw [← hq]; rfl
  have hlift : ∀ {a : Pages}, Controlled q a → Controlled p a := by
    intro a ha
    cases ha with
    | keeps x h =>
      rw [hpages] at h ⊢
      exact .keeps x h
    | clears x hstate h =>
      rw [hpages] at h ⊢
      rw [← hq] at h ⊢
      exact .clears x hstate h
  rw [← hpages] at hsound
  split
  · rename_i hwait
    apply hlift
    apply waitForPen_controlled hsound
    rw [← hq]
    apply henabled
    intro hzero
    rw [← hq] at hwait
    simp [waitPenEnabled, hzero, anySet] at hwait
  apply hlift
  split
  · unfold startScan
    have hscan : Controlled q { q.pages with padstate := padstatePenData } :=
      .keeps padstatePenData (hsound.withState (fun h => absurd h (by decide)) (Or.inr (by decide)))
    simp only
    split
    · exact hscan
    · exact hscan
  split
  · rename_i hoff
    have hclear : ({ q.clearCoordinateState with padstate := padstateStandby } : Piu).pages =
        q.pages.cleared padstateStandby q.touchDown :=
      congrArg (fun a : Pages => { a with padstate := padstateStandby }) clearCoordinateState_pages
    rw [hclear]
    exact .clears padstateStandby (Or.inl (Nat.le_refl _)) (Or.inr (by rw [← hq]; simpa using hoff.1))
  · exact .keeps q.padstate hsound

theorem Controlled.sound {a : Pages} (h : Controlled p a) : Sound a := by
  cases h with
  | keeps x h => exact h
  | clears x hstate h => exact cleared_sound _ _ hstate

/-! ## Steps -/

/-- The state in which a step takes the sample that is due, if it does, and the time. -/
def sampling (p : Piu) : Event → Option (Piu × BitVec 64)
  | .tick now => some (p, now)
  | .read _ now => some (p, now)
  | .touch down x y now =>
    if down ∧ ¬ (p.padstate = padstateWaitPen ∧ p.touchDown = false) then
      some ({ p with touchDown := true, touchX := x, touchY := y }, now)
    else none
  | _ => none

/-- The sequencer sees the pen come down. -/
def PenDown (p : Piu) : Event → Prop
  | .touch down _ _ _ => down = true ∧ p.touchDown = false ∧ p.padstate = padstateWaitPen
  | _ => False

/-- The sequencer is switched off, or the unit reset. -/
def Disables : Event → Prop
  | .write offset value _ => offset = 0 ∧ (anySet value padrst = true ∨ anySet value piuseqen = false)
  | _ => False

def Resets : Event → Prop
  | .write offset value _ => offset = 0 ∧ anySet value padrst = true
  | _ => False

/-- The interrupts of the coordinates: lost data and the two pages. -/
inductive Interrupt where
  | datalost
  | page (i : Fin 2)
  deriving DecidableEq

def Interrupt.bit : Interrupt → Nat
  | datalost => 2
  | page i => 3 + i

def Acknowledges (n : Interrupt) : Event → Prop
  | .write offset value _ => offset = 4 ∧ value.getLsbD n.bit = true
  | _ => False

/-- The interrupt is pending. -/
def Pends (p : Piu) (n : Interrupt) : Prop := (p.regs 1).getLsbD n.bit = true

/-- A step without a sample. -/
inductive Quiet (p : Piu) (e : Event) : Pages → Prop
  | keeps (padstate : Nat) (touchDown : Bool) (h : Sound { p.pages with padstate, touchDown }) :
      Quiet p e { p.pages with padstate, touchDown }
  | clears (padstate : Nat) (touchDown : Bool) (hstate : padstate ≤ padstateStandby ∨ padstateWaitPen ≤ padstate)
      (h : (∀ i, p.pages.pending i = false) ∨ PenDown p e ∨ Disables e) : Quiet p e (p.pages.cleared padstate touchDown)
  | resets (h : Resets e) : Quiet p e p.resetRegisters.pages
  | acknowledges (value : Word) (now : BitVec 64) (he : e = .write 4 value now) : Quiet p e (p.writeInterrupts value now).pages

theorem sampling_step {e : Event} {q : Piu} {now : BitVec 64} (h : p.sampling e = some (q, now)) :
    p.step e = q.queueCoordinateSample now ∧ q.pages = { p.pages with touchDown := q.touchDown } ∧
      (q.touchDown = p.touchDown ∨ q.padstate ≠ padstateWaitPen) := by
  cases e with
  | tick t =>
    cases h
    exact ⟨rfl, rfl, Or.inl rfl⟩
  | read offset t =>
    cases h
    exact ⟨rfl, rfl, Or.inl rfl⟩
  | write offset value t => cases h
  | inputs on aux => cases h
  | touch down x y t =>
    unfold sampling at h
    simp only at h
    split at h
    case isFalse => cases h
    rename_i hcond
    cases h
    obtain ⟨rfl, hnot⟩ := hcond
    refine ⟨?_, rfl, ?_⟩
    · unfold step setTouch
      simp only
      rw [if_neg (by simpa using hnot), if_neg (fun hup => absurd hup.1 Bool.false_ne_true), if_pos trivial]
    · rcases Bool.eq_false_or_eq_true p.touchDown with hprev | hprev
      · exact Or.inl hprev.symm
      · exact Or.inr fun hwait => hnot ⟨hwait, hprev⟩

theorem adport_pages :
    ({ p.setReg 1 (p.regs 1 ||| pendingAdport) with adport := p.auxAdc &&& 0x0fff } : Piu).pages = p.pages := by
  have hpending : ∀ i : Fin 2, (p.regs 1 ||| pendingAdport).getLsbD (3 + i) = (p.regs 1).getLsbD (3 + i) := by
    rw [Fin.forall_fin_two]
    simp [pendingAdport]
  have hlost : (p.regs 1 ||| pendingAdport).getLsbD 2 = (p.regs 1).getLsbD 2 := by simp [pendingAdport]
  simp only [pages, setReg, Function.update_self, hlost, hpending]

/-- The bits of the control register that are kept. -/
theorem anySet_kept (value : Word) : anySet (value &&& 0x03fe) piuseqen = anySet value piuseqen := by
  have hbit : ∀ v : Word, anySet v piuseqen = v.getLsbD 2 := fun v => anySet_twoPow v 2 (by decide)
  rw [hbit, hbit]
  simp

theorem writeControl_quiet (hs : Sound p.pages) (value : Word) (now : BitVec 64) :
    Quiet p (.write 0 value now) (p.writeControl value now).pages := by
  unfold writeControl
  split
  · rename_i hreset
    exact .resets ⟨rfl, hreset⟩
  simp only
  have hcontrol : (p.setReg 0 (value &&& 0x03fe)).pages = p.pages := setReg_pages (by decide) _
  have hctl : (p.setReg 0 (value &&& 0x03fe)).regs 0 = value &&& 0x03fe := by simp [setReg]
  have hrefresh := refresh_controlled (p := p.setReg 0 (value &&& 0x03fe)) (by rw [hcontrol]; exact hs) now
  generalize (p.setReg 0 (value &&& 0x03fe)).refreshControlState now = q at hrefresh
  have hpages : ∀ c : Prop, [Decidable c] →
      (if c then { q.setReg 1 (q.regs 1 ||| pendingAdport) with adport := q.auxAdc &&& 0x0fff } else q : Piu).pages =
        q.pages := by
    intro c _
    split
    · exact adport_pages
    · rfl
  rw [hpages]
  generalize q.pages = a at hrefresh
  cases hrefresh with
  | keeps padstate h =>
    rw [hcontrol] at h ⊢
    exact .keeps padstate p.touchDown h
  | clears padstate hstate h =>
    rw [hcontrol] at h ⊢
    rw [hctl, anySet_kept] at h
    refine .clears padstate p.touchDown hstate ?_
    rcases h with h | h
    · exact Or.inl h
    · exact Or.inr (Or.inr ⟨rfl, Or.inr h⟩)

theorem quiet_step {e : Event} (hs : Sound p.pages) (h : p.sampling e = none) : Quiet p e (p.step e).pages := by
  cases e with
  | tick now => cases h
  | read offset now => cases h
  | inputs on aux => exact .keeps p.padstate p.touchDown hs
  | write offset value now =>
    show Quiet p _ (p.write offset value now).pages
    unfold write
    split
    · exact .keeps p.padstate p.touchDown hs
    rename_i haligned
    rw [not_or, Decidable.not_not] at haligned
    split
    · rename_i h0
      subst h0
      exact writeControl_quiet hs value now
    split
    · rename_i h4
      subst h4
      exact .acknowledges value now rfl
    · rw [setReg_pages (by omega)]
      exact .keeps p.padstate p.touchDown hs
  | touch down x y now =>
    unfold sampling at h
    simp only at h
    split at h
    case isTrue => cases h
    rename_i hcond
    show Quiet p _ (p.setTouch down x y now).pages
    unfold setTouch
    simp only
    split
    · rename_i hpen
      obtain ⟨hwait, rfl, hprev⟩ := hpen
      rw [signalPenDown_pages]
      refine .clears _ true (Or.inr ?_) (Or.inr (Or.inl ⟨rfl, by simpa using hprev, hwait⟩))
      split
      · decide
      · exact Nat.le_of_eq hwait.symm
    rename_i hpen
    cases down with
    | true =>
      exfalso
      apply hcond
      refine ⟨rfl, fun hboth => hpen ⟨hboth.1, rfl, ?_⟩⟩
      simpa using hboth.2
    | false =>
      have hup : ∀ padstate, padstate = p.padstate ∨ padstate = padstateStandby ∨ padstate = padstateWaitPen →
          Quiet p (.touch false x y now) { p.pages with padstate, touchDown := false } := by
        intro padstate hstate
        refine .keeps padstate false (hs.withState (fun _ hfalse => absurd hfalse (by decide)) ?_)
        rcases hstate with rfl | rfl | rfl
        · exact hs.states
        · exact Or.inl (Nat.le_refl _)
        · exact Or.inr (Nat.le_refl _)
      split
      · obtain ⟨padstate, hpages, hstate⟩ :=
          signalPenUp_pages (p := { p with touchDown := false, touchX := x, touchY := y })
        rw [hpages]
        exact hup padstate hstate
      · rw [if_neg (by decide)]
        exact hup p.padstate (Or.inl rfl)

theorem Quiet.sound {e : Event} {a : Pages} (hs : Sound p.pages) (h : Quiet p e a) : Sound a := by
  cases h with
  | keeps padstate touchDown h => exact h
  | clears padstate touchDown hstate h => exact cleared_sound _ _ hstate
  | resets h =>
    refine ⟨fun i => ?_, fun h => absurd (show padstateDisable = padstateWaitPen from h) (by decide), Or.inl (Nat.zero_le _)⟩
    simp [pages, resetRegisters]
  | acknowledges value now he =>
    rw [writeInterrupts_pages]
    refine ⟨fun i => ?_, fun hwait hdown i => ?_, hs.states⟩
    · exact congrArg (· && !acknowledged value i) (hs.same i)
    · show (p.pages.pending i && !acknowledged value i) = false
      rw [hs.waiting hwait hdown i]
      rfl

theorem pageAvailable_eq (hs : Sound p.pages) (page : Fin 2) : p.pageAvailable page = !p.pages.valid page := by
  unfold pageAvailable
  rw [anySet_pageBit, ← hs.same page]
  show (!p.pageValid page && !p.pageValid page) = !p.pageValid page
  exact Bool.and_self _

/-- What a sample does to the pages: it goes to a page that is free, or is lost. -/
theorem queue_cases (hs : Sound p.pages) (now : BitVec 64) :
    ¬ p.Due now ∧ (p.queueCoordinateSample now).pages = p.pages ∨
      p.Due now ∧ (∀ i, p.pages.valid i = true) ∧
        (p.queueCoordinateSample now).pages = { p.pages with lost := true, padstate := padstateStandby } ∨
      p.Due now ∧ ∃ page, p.pages.valid page = false ∧ (p.queueCoordinateSample now).pages = { p.pages with
        pending := Function.update p.pages.pending page true, valid := Function.update p.pages.valid page true
        coordinates := Function.update p.pages.coordinates page p.latchSample.adc, padstate := padstateInterval } := by
  unfold queueCoordinateSample
  by_cases hdue : p.Due now
  case neg =>
    rw [if_neg hdue]
    exact Or.inl ⟨hdue, rfl⟩
  rw [if_pos hdue]
  unfold selectPage
  rw [pageAvailable_eq hs, pageAvailable_eq hs]
  split
  · rename_i hnone
    refine Or.inr (Or.inl ⟨hdue, ?_, loseSample_pages⟩)
    have hboth : p.pages.valid p.nextPage = true ∧ p.pages.valid (p.nextPage + 1) = true := by
      split at hnone
      · cases hnone
      split at hnone
      · cases hnone
      · simp_all
    generalize p.nextPage = page at hboth
    rcases Fin.exists_fin_two.mp ⟨page, rfl⟩ with rfl | rfl
    · exact Fin.forall_fin_two.mpr hboth
    · exact Fin.forall_fin_two.mpr hboth.symm
  · rename_i page hsome
    refine Or.inr (Or.inr ⟨hdue, page, ?_, storeSample_pages page now⟩)
    split at hsome
    · cases hsome
      simp_all
    split at hsome
    · cases hsome
      simp_all
    · cases hsome

theorem sampling_sound {e : Event} {q : Piu} {now : BitVec 64} (hs : Sound p.pages) (h : p.sampling e = some (q, now)) :
    Sound q.pages := by
  obtain ⟨-, hpages, hdown⟩ := sampling_step h
  have hstate : q.padstate = p.padstate := congrArg Pages.padstate hpages
  rw [hpages]
  refine hs.withState ?_ hs.states
  intro hwait htouch
  rcases hdown with hsame | hother
  · exact hs.waiting hwait (hsame.symm.trans htouch)
  · exact absurd (hstate.trans hwait) hother

theorem sound_step (hs : Sound p.pages) (e : Event) : Sound (p.step e).pages := by
  cases hsampling : p.sampling e with
  | none => exact (quiet_step hs hsampling).sound hs
  | some r =>
    obtain ⟨q, now⟩ := r
    obtain ⟨hstep, -, -⟩ := sampling_step hsampling
    have hq := sampling_sound hs hsampling
    rw [hstep]
    rcases queue_cases hq now with ⟨-, hpages⟩ | ⟨-, -, hpages⟩ | ⟨-, page, -, hpages⟩
    · rw [hpages]
      exact hq
    · rw [hpages]
      exact ⟨hq.same, fun h => absurd (show padstateStandby = padstateWaitPen from h) (by decide), Or.inl (Nat.le_refl _)⟩
    · rw [hpages]
      refine ⟨fun i => ?_, fun h => absurd (show padstateInterval = padstateWaitPen from h) (by decide),
        Or.inr (show padstateWaitPen ≤ padstateInterval by decide)⟩
      simp only [Function.update_apply]
      split
      · rfl
      · exact hq.same i

theorem sound_run (events : List Event) : Sound (run init events).pages := by
  induction events using List.reverseRecOn with
  | nil =>
    refine ⟨fun i => ?_, fun h => absurd (show padstateDisable = padstateWaitPen from h) (by decide), Or.inl (Nat.zero_le _)⟩
    simp [pages, run, init, resetRegisters]
  | append_singleton events e ih =>
    unfold run
    rw [List.foldl_append]
    exact sound_step ih e

/-- A valid page keeps its coordinates until it is acknowledged or invalidated. -/
theorem valid_stays (hs : Sound p.pages) {e : Event} {i : Fin 2} (hvalid : p.pageValid i = true)
    (hack : ¬ Acknowledges (.page i) e) (hpen : ¬ PenDown p e) (hdisable : ¬ Disables e) :
    (p.step e).pages.valid i = true ∧ (p.step e).pages.coordinates i = p.pageAdc i := by
  cases hsampling : p.sampling e with
  | none =>
    have hquiet := quiet_step hs hsampling
    generalize (p.step e).pages = a at hquiet
    cases hquiet with
    | keeps padstate touchDown h => exact ⟨hvalid, rfl⟩
    | clears padstate touchDown hstate h =>
      rcases h with h | h | h
      · have hpending := (hs.same i).symm.trans hvalid
        exact absurd hpending (by rw [h i]; decide)
      · exact absurd h hpen
      · exact absurd h hdisable
    | resets h =>
      exfalso
      apply hdisable
      cases e with
      | write offset value now => exact ⟨h.1, Or.inl h.2⟩
      | touch | tick | read | inputs => exact h.elim
    | acknowledges value now he =>
      subst he
      rw [writeInterrupts_pages]
      refine ⟨?_, rfl⟩
      have hkept : acknowledged value i = false := by
        rw [← Bool.not_eq_true]
        exact fun h => hack ⟨rfl, h⟩
      show (p.pageValid i && !acknowledged value i) = true
      rw [hvalid, hkept]
      rfl
  | some r =>
    obtain ⟨q, now⟩ := r
    obtain ⟨hstep, hq, -⟩ := sampling_step hsampling
    have hqvalid : q.pages.valid i = true := by
      rw [hq]
      exact hvalid
    have hqadc : q.pages.coordinates i = p.pageAdc i := by rw [hq]; rfl
    rw [hstep]
    rcases queue_cases (sampling_sound hs hsampling) now with ⟨-, hpages⟩ | ⟨-, -, hpages⟩ | ⟨-, page, hfree, hpages⟩
    · rw [hpages]
      exact ⟨hqvalid, hqadc⟩
    · rw [hpages]
      exact ⟨hqvalid, hqadc⟩
    · have hother : i ≠ page := by
        rintro rfl
        rw [hqvalid] at hfree
        exact absurd hfree (by decide)
      rw [hpages]
      simp only [Function.update_of_ne hother]
      exact ⟨hqvalid, hqadc⟩

/-- Data gets lost exactly when a sample is due while both pages are valid. -/
theorem lost_iff (hs : Sound p.pages) (e : Event) (hlost : p.pages.lost = false) :
    (p.step e).pages.lost = true ↔ ∃ q now, p.sampling e = some (q, now) ∧ q.Due now ∧ ∀ i, p.pageValid i = true := by
  cases hsampling : p.sampling e with
  | none =>
    have hquiet := quiet_step hs hsampling
    constructor
    · intro h
      exfalso
      generalize (p.step e).pages = a at hquiet h
      cases hquiet with
      | keeps padstate touchDown hsound => exact absurd (hlost.symm.trans h) (by decide)
      | clears padstate touchDown hstate hwhy => exact absurd h Bool.false_ne_true
      | resets hreset =>
        simp [pages, resetRegisters] at h
      | acknowledges value now he =>
        rw [writeInterrupts_pages] at h
        simp [hlost] at h
    · rintro ⟨q, now, h, -⟩
      cases h
  | some r =>
    obtain ⟨q, now⟩ := r
    obtain ⟨hstep, hq, -⟩ := sampling_step hsampling
    have hvalid : q.pages.valid = p.pageValid := congrArg Pages.valid hq
    have hqlost : q.pages.lost = false := (congrArg Pages.lost hq).trans hlost
    rw [hstep]
    rcases queue_cases (sampling_sound hs hsampling) now with ⟨hdue, hpages⟩ | ⟨hdue, hboth, hpages⟩ | ⟨hdue, page, hfree, hpages⟩
    · rw [hpages]
      constructor
      · intro h
        exact absurd (hqlost.symm.trans h) (by decide)
      · rintro ⟨q', now', h, hdue', -⟩
        cases h
        exact absurd hdue' hdue
    · rw [hpages]
      constructor
      · intro _
        exact ⟨q, now, rfl, hdue, fun i => by rw [← hvalid]; exact hboth i⟩
      · intro _
        rfl
    · rw [hpages]
      constructor
      · intro h
        exact absurd (hqlost.symm.trans h) (by decide)
      · rintro ⟨q', now', h, -, hboth⟩
        rw [hvalid, hboth page] at hfree
        exact absurd hfree (by decide)

/-! ## After data was lost -/

/-- A step restarts the sequencer from its stand-by state: the pen's release with the waiting
    state enabled, or software's command to scan. -/
def Restarts (p : Piu) : Event → Prop
  | .touch down _ _ _ => down = false ∧ p.touchDown = true ∧ p.waitPenEnabled = true
  | .write offset value _ =>
    offset = 0 ∧ anySet value padrst = false ∧ (p.setReg 0 (value &&& 0x03fe)).waitPenEnabled = false ∧
      (p.setReg 0 (value &&& 0x03fe)).ScanStarts
  | _ => False

/-- A step stores coordinates in the page. -/
def Stores (p : Piu) (i : Fin 2) (e : Event) : Prop :=
  (p.step e).pageValid i = true ∧ ¬ (p.pageValid i = true ∧ (p.step e).pageAdc i = p.pageAdc i)

/-- A step raises the data-lost interrupt. -/
def Loses (p : Piu) (e : Event) : Prop := ¬ Pends p .datalost ∧ Pends (p.step e) .datalost

theorem pends_congr {q : Piu} (hlost : q.pages.lost = p.pages.lost) (hpending : q.pages.pending = p.pages.pending)
    (n : Interrupt) :
    Pends q n ↔ Pends p n := by
  cases n with
  | datalost => exact iff_of_eq (congrArg (· = true) hlost)
  | page i => exact iff_of_eq (congrArg (· = true) (congrFun hpending i))

theorem queue_standby (h : p.padstate = padstateStandby) (now : BitVec 64) : p.queueCoordinateSample now = p := by
  apply if_neg
  rintro ⟨-, hstate, -⟩
  rw [h] at hstate
  exact absurd hstate (by decide)

theorem anySet_of_pends {n : Interrupt} (h : Pends p n) : anySet (p.regs 1) pendingCoordinate = true := by
  rw [anySet_coordinate, Bool.or_eq_true, Bool.or_eq_true]
  cases n with
  | datalost => exact Or.inr h
  | page i =>
    rcases Fin.exists_fin_two.mp ⟨i, rfl⟩ with rfl | rfl
    · exact Or.inl (Or.inl h)
    · exact Or.inl (Or.inr h)

theorem refresh_standby (hstandby : p.padstate = padstateStandby) (hset : anySet (p.regs 1) pendingCoordinate = true)
    (hscan : p.waitPenEnabled = false → ¬ p.ScanStarts) (now : BitVec 64) : p.refreshControlState now = p := by
  have hleave : p.leaveDisable = p := if_neg fun h => absurd (hstandby.symm.trans h.1) (by decide)
  unfold refreshControlState
  rw [hleave]
  simp only
  split
  · unfold waitForPen
    rw [if_pos ⟨hstandby, hset⟩]
  · rename_i hwait
    rw [if_neg (hscan (by simpa using hwait)), if_neg fun h => Nat.lt_irrefl _ (hstandby ▸ h.2)]

/-- From stand-by with something pending, the control register changes no page. -/
theorem writeControl_standby (hstate : p.padstate = padstateStandby) {n : Interrupt} (hn : Pends p n) {value : Word}
    {now : BitVec 64}
    (hrestart : ¬ Restarts p (.write 0 value now)) (hreset : ¬ Resets (.write 0 value now)) :
    (p.writeControl value now).pages = p.pages := by
  have hvalue : anySet value padrst = false := by
    rw [← Bool.not_eq_true]
    exact fun h => hreset ⟨rfl, h⟩
  unfold writeControl
  rw [if_neg (by rw [hvalue]; decide)]
  simp only
  have hcontrol : (p.setReg 0 (value &&& 0x03fe)).pages = p.pages := setReg_pages (by decide) _
  have hsame : (p.setReg 0 (value &&& 0x03fe)).refreshControlState now = p.setReg 0 (value &&& 0x03fe) := by
    have hstandby : (p.setReg 0 (value &&& 0x03fe)).padstate = padstateStandby := hstate
    have hset : anySet ((p.setReg 0 (value &&& 0x03fe)).regs 1) pendingCoordinate = true :=
      anySet_of_pends ((pends_congr (congrArg Pages.lost hcontrol) (congrArg Pages.pending hcontrol) n).mpr hn)
    have hscan : (p.setReg 0 (value &&& 0x03fe)).waitPenEnabled = false → ¬ (p.setReg 0 (value &&& 0x03fe)).ScanStarts :=
      fun hwait hscan => hrestart ⟨rfl, hvalue, hwait, hscan⟩
    exact refresh_standby hstandby hset hscan now
  rw [hsame]
  have hadport : ∀ c : Prop, [Decidable c] → ∀ q : Piu,
      (if c then { q.setReg 1 (q.regs 1 ||| pendingAdport) with adport := q.auxAdc &&& 0x0fff } else q : Piu).pages =
        q.pages := by
    intro c _ q
    split
    · exact adport_pages
    · rfl
  rw [hadport, hcontrol]

theorem signalPenUp_standby (hstate : p.padstate = padstateStandby) (hwait : p.waitPenEnabled = false) :
    p.signalPenUp = p.disarm := by
  have hdisarmed : ¬ padstateStandby < p.disarm.padstate := Nat.not_lt.mpr (Nat.le_of_eq hstate)
  have hquiet : decide (padstateWaitPen ≤ p.padstate) = false := by
    rw [hstate]
    decide
  unfold signalPenUp
  simp only [hwait, hquiet, hdisarmed, Bool.or_false, Bool.false_eq_true, false_and, if_false]

/-- The sequencer stands by, and what is pending stays, until it is acknowledged. -/
theorem standby_stays {e : Event} (hstate : p.padstate = padstateStandby) {n : Interrupt} (hn : Pends p n)
    (hrestart : ¬ Restarts p e) (hreset : ¬ Resets e) (hack : ¬ Acknowledges n e) :
    (p.step e).padstate = padstateStandby ∧ Pends (p.step e) n := by
  have hsame : ∀ q : Piu, q.pages = { p.pages with touchDown := q.touchDown } → q.padstate = padstateStandby ∧ Pends q n := by
    intro q hq
    have hlost : q.pages.lost = p.pages.lost := by rw [hq]
    have hpending : q.pages.pending = p.pages.pending := by rw [hq]
    exact ⟨(congrArg Pages.padstate hq).trans hstate, (pends_congr hlost hpending n).mpr hn⟩
  cases e with
  | inputs on aux => exact hsame _ rfl
  | tick now =>
    show (p.queueCoordinateSample now).padstate = _ ∧ Pends (p.queueCoordinateSample now) n
    rw [queue_standby hstate now]
    exact ⟨hstate, hn⟩
  | read offset now =>
    show (p.queueCoordinateSample now).padstate = _ ∧ Pends (p.queueCoordinateSample now) n
    rw [queue_standby hstate now]
    exact ⟨hstate, hn⟩
  | touch down x y now =>
    apply hsame
    show (p.setTouch down x y now).pages = { p.pages with touchDown := (p.setTouch down x y now).touchDown }
    unfold setTouch
    simp only
    rw [if_neg fun h => absurd (hstate.symm.trans h.1) (by decide)]
    split
    · rename_i hup
      have hwait : p.waitPenEnabled = false := by
        rw [← Bool.not_eq_true]
        exact fun hwait => hrestart ⟨by simpa using hup.1, hup.2, hwait⟩
      rw [signalPenUp_standby (p := { p with touchDown := down, touchX := x, touchY := y }) hstate hwait]
      rfl
    split
    · rw [queue_standby (p := { p with touchDown := down, touchX := x, touchY := y }) hstate now]
      rfl
    · rfl
  | write offset value now =>
    show (p.write offset value now).padstate = _ ∧ Pends (p.write offset value now) n
    unfold write
    split
    · exact ⟨hstate, hn⟩
    split
    · rename_i h0
      subst h0
      have hpages := writeControl_standby hstate hn hrestart hreset
      exact ⟨(congrArg Pages.padstate hpages).trans hstate,
        (pends_congr (congrArg Pages.lost hpages) (congrArg Pages.pending hpages) n).mpr hn⟩
    split
    · rename_i h4
      subst h4
      have hpages := writeInterrupts_pages (p := p) value now
      have hbit : value.getLsbD n.bit = false := by
        rw [← Bool.not_eq_true]
        exact fun h => hack ⟨rfl, h⟩
      refine ⟨(congrArg Pages.padstate hpages).trans hstate, ?_⟩
      cases n with
      | datalost =>
        have hlost : (p.writeInterrupts value now).pages.lost = (p.pages.lost && !value.getLsbD 2) := congrArg Pages.lost hpages
        rw [show value.getLsbD 2 = false from hbit, show p.pages.lost = true from hn] at hlost
        exact hlost
      | page i =>
        have hpending : (p.writeInterrupts value now).pages.pending i = (p.pages.pending i && !acknowledged value i) :=
          congrFun (congrArg Pages.pending hpages) i
        rw [show acknowledged value i = false from hbit, show p.pages.pending i = true from hn] at hpending
        exact hpending
    · rename_i hzero hfour
      have hpages := setReg_pages (p := p) (i := offset / 4) (by omega) value
      exact ⟨hstate, (pends_congr (congrArg Pages.lost hpages) (congrArg Pages.pending hpages) n).mpr hn⟩

/-- A sample is stored only while the sequencer scans. -/
theorem stores_scanning (hs : Sound p.pages) {i : Fin 2} {e : Event} (h : Stores p i e) : padstatePenData ≤ p.padstate := by
  obtain ⟨hafter, hnew⟩ := h
  cases hsampling : p.sampling e with
  | none =>
    have hquiet := quiet_step hs hsampling
    exfalso
    change (p.step e).pages.valid i = true at hafter
    change ¬ (p.pageValid i = true ∧ (p.step e).pages.coordinates i = p.pageAdc i) at hnew
    generalize (p.step e).pages = a at hquiet hafter hnew
    cases hquiet with
    | keeps padstate touchDown hsound => exact hnew ⟨hafter, rfl⟩
    | clears padstate touchDown hstate hwhy => exact absurd hafter Bool.false_ne_true
    | resets hreset => exact absurd hafter Bool.false_ne_true
    | acknowledges value now he =>
      rw [writeInterrupts_pages] at hafter hnew
      exact hnew ⟨(Bool.and_eq_true_iff.mp hafter).1, rfl⟩
  | some r =>
    obtain ⟨q, now⟩ := r
    obtain ⟨hstep, hq, -⟩ := sampling_step hsampling
    have hstate : q.padstate = p.padstate := congrArg Pages.padstate hq
    by_cases hdue : q.Due now
    · rw [← hstate]
      exact hdue.2.1
    · exfalso
      apply hnew
      have hsame : p.step e = q := by
        rw [hstep]
        unfold queueCoordinateSample
        exact if_neg hdue
      rw [hsame] at hafter ⊢
      exact ⟨(congrFun (congrArg Pages.valid hq) i).symm.trans hafter, congrFun (congrArg Pages.coordinates hq) i⟩

/-- What a loss leaves: both pages and the loss pending, and the sequencer in stand-by. -/
theorem loses_leaves (hs : Sound p.pages) {e : Event} (h : Loses p e) :
    (p.step e).padstate = padstateStandby ∧ ∀ n, Pends (p.step e) n := by
  have hlost : p.pages.lost = false := by
    rw [← Bool.not_eq_true]
    exact h.1
  obtain ⟨q, now, hsampling, hdue, hboth⟩ := (lost_iff hs e hlost).mp h.2
  obtain ⟨hstep, hq, -⟩ := sampling_step hsampling
  have hqs := sampling_sound hs hsampling
  rcases queue_cases hqs now with ⟨hnot, -⟩ | ⟨-, -, hpages⟩ | ⟨-, page, hfree, -⟩
  · exact absurd hdue hnot
  · rw [← hstep] at hpages
    refine ⟨congrArg Pages.padstate hpages, fun n => ?_⟩
    cases n with
    | datalost => exact h.2
    | page i =>
      have hpending : (p.step e).pages.pending i = q.pages.pending i := congrFun (congrArg Pages.pending hpages) i
      rw [← hqs.same i, hq] at hpending
      exact hpending.trans (hboth i)
  · rw [hq] at hfree
    exact absurd (hfree.symm.trans (hboth page)) (by decide)

/-- While an interrupt of the loss is not acknowledged and nothing restarts the sequencer, it
    stands by. -/
theorem stays_lost {mid : List Event} (hstate : p.padstate = padstateStandby) {n : Interrupt} (hn : Pends p n)
    (hreset : ∀ g ∈ mid, ¬ Resets g) (hack : ∀ g ∈ mid, ¬ Acknowledges n g)
    (hrestart : ∀ before g after, mid = before ++ g :: after → ¬ Restarts (run p before) g) :
    (run p mid).padstate = padstateStandby ∧ Pends (run p mid) n := by
  induction mid generalizing p with
  | nil => exact ⟨hstate, hn⟩
  | cons g mid ih =>
    have hstep := standby_stays hstate hn (hrestart [] g mid rfl) (hreset g (List.mem_cons_self ..))
      (hack g (List.mem_cons_self ..))
    refine ih hstep.1 hstep.2 (fun x hx => hreset x (List.mem_cons_of_mem _ hx))
      (fun x hx => hack x (List.mem_cons_of_mem _ hx)) ?_
    intro before x after hmid
    exact hrestart (g :: before) x after (congrArg (g :: ·) hmid)

end Steps

/-! ## Runs -/

/-- What the driver may rely on after these events. -/
structure DoubleBuffer (events : List Event) : Prop where
  valid_iff (i : Fin 2) : (run init events).pageValid i = true ↔ Pends (run init events) (.page i)
  stays (e : Event) (i : Fin 2) : (run init events).pageValid i = true → ¬ Acknowledges (.page i) e →
    ¬ PenDown (run init events) e → ¬ Disables e →
    ((run init events).step e).pageValid i = true ∧ ((run init events).step e).pageAdc i = (run init events).pageAdc i
  lost_iff (e : Event) : ¬ Pends (run init events) .datalost →
    (Pends ((run init events).step e) .datalost ↔
      ∃ q now, (run init events).sampling e = some (q, now) ∧ q.Due now ∧ ∀ i, (run init events).pageValid i = true)
  /-- After a loss, no sample is stored before all three interrupts are acknowledged, unless
      the unit is reset. -/
  owed (before mid : List Event) (e f : Event) (i : Fin 2) : events = before ++ e :: (mid ++ [f]) →
    Loses (run init before) e → (∀ g ∈ mid, ¬ Resets g) → Stores (run init (before ++ e :: mid)) i f →
    ∀ n, ∃ g ∈ mid, Acknowledges n g

/-- After a loss nothing restarts the sequencer before all three interrupts are acknowledged. -/
def WaitsForSoftware (events : List Event) : Prop :=
  ∀ before mid after e g n, events = before ++ e :: (mid ++ g :: after) → Loses (run init before) e →
    (∀ x ∈ mid, ¬ Resets x) → (∀ x ∈ mid, ¬ Acknowledges n x) → ¬ Restarts (run init (before ++ e :: mid)) g

theorem run_append (p : Piu) (l m : List Event) : run p (l ++ m) = run (run p l) m := List.foldl_append

/-- The double buffer works in every run in which nothing restarts the sequencer after a loss. -/
theorem double_buffer (events : List Event) (h : WaitsForSoftware events) : DoubleBuffer events where
  valid_iff i := by
    have hsame := (sound_run events).same i
    exact iff_of_eq (congrArg (· = true) hsame)
  stays e i hvalid hack hpen hdisable := valid_stays (sound_run events) hvalid hack hpen hdisable
  lost_iff e hlost := Piu.lost_iff (sound_run events) e (by rw [← Bool.not_eq_true]; exact hlost)
  owed before mid e f i heq hlost hreset hstores n := by
    by_contra hnone
    have hack : ∀ g ∈ mid, ¬ Acknowledges n g := fun g hg hacked => hnone ⟨g, hg, hacked⟩
    obtain ⟨hstate, hpends⟩ := loses_leaves (sound_run before) hlost
    have hrun : ∀ l, run init (before ++ e :: l) = run ((run init before).step e) l := fun l => run_append ..
    have hstays := stays_lost hstate (hpends n) hreset hack (by
      intro first g rest hmid
      rw [← hrun]
      refine h before first (rest ++ [f]) e g n ?_ hlost ?_ ?_
      · rw [heq, hmid, List.append_assoc]
        rfl
      · exact fun x hx => hreset x (by rw [hmid]; exact List.mem_append_left _ hx)
      · exact fun x hx => hack x (by rw [hmid]; exact List.mem_append_left _ hx))
    have hscan := stores_scanning (sound_run _) hstores
    rw [hrun, hstays.1] at hscan
    exact absurd hscan (by decide)

/-! ## Two runs -/

/-- A scan of 30 µs with automatic start and stop, until both pages are full and data is lost. -/
def losing : List Event :=
  [.inputs true 0, .write 4 0x1d00 0, .write 8 1 0, .write 12 0 0, .write 0 0x0304 0, .touch true 120 180 0,
    .tick 40000, .tick 110000, .tick 180000]

/-- Software acknowledges and restarts. -/
theorem double_buffer_restarted :
    DoubleBuffer (losing ++ [.write 4 0x1d1c 180000, .write 0 0x0304 180000, .tick 220000]) := by
  apply double_buffer
  have hnever : ∀ g ∈ losing ++ [.write 4 0x1d1c 180000, .write 0 0x0304 180000, .tick 220000], ∀ p, ¬ Restarts p g := by
    have hauto : ∀ p now, ¬ Restarts p (.write 0 0x0304 now) := by
      rintro p now ⟨-, -, -, hscan, -⟩
      rw [show (p.setReg 0 (0x0304 &&& 0x03fe)).regs 0 = 0x0304 by simp [setReg]] at hscan
      exact absurd hscan (by decide)
    have hother : ∀ p offset value now, offset ≠ 0 → ¬ Restarts p (.write offset value now) :=
      fun p offset value now hne h => hne h.1
    have htouch : ∀ p x y now, ¬ Restarts p (.touch true x y now) := fun p x y now h => absurd h.1 (by decide)
    simp only [losing, List.cons_append, List.nil_append, List.forall_mem_cons, List.not_mem_nil, false_implies, implies_true,
      and_true]
    exact ⟨fun p h => h, fun p => hother p _ _ _ (by decide), fun p => hother p _ _ _ (by decide),
      fun p => hother p _ _ _ (by decide),
      fun p => hauto p _, fun p => htouch p _ _ _, fun p h => h, fun p h => h, fun p h => h, fun p => hother p _ _ _ (by decide),
      fun p => hauto p _, fun p h => h⟩
  intro before mid after e g n heq _ _ _
  exact hnever g (by rw [heq]; simp) _

/-- The pen is lifted and put down again: a sample is stored though nothing was acknowledged. -/
theorem release_restarts : ¬ DoubleBuffer (losing ++ [.touch false 120 180 190000, .touch true 60 90 200000, .tick 240000]) := by
  intro h
  obtain ⟨g, hg, hack⟩ := h.owed (losing.take 8) [.touch false 120 180 190000, .touch true 60 90 200000] (.tick 180000)
    (.tick 240000) 0
    rfl (by unfold Loses Pends; decide) (by simp [Resets]) (by unfold Stores; decide) .datalost
  simp only [List.mem_cons, List.not_mem_nil, or_false] at hg
  rcases hg with rfl | rfl <;> exact hack

end Piu

end Be300.Touch
