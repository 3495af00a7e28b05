/-
  Be300.Usb.Operations — the USB function's entry points and its interrupt line
  (`src/hw/usbf.c`).

  An operation gives its caller a value, a verdict or bytes, besides what it does to the
  controller. The controller has no way but `irq_changed` to tell the interrupt logic of a
  change.

  Proved (`operate_heard`): an operation calls `irq_changed` once, when it is done, or it does
  not call and leaves `irqPending` as it was. So who follows the calls knows the level after any
  operations (`level_followed`).
-/

import Be300.Usb.Function

namespace Be300.Usb

open Lib

inductive Operation where
  | read (off : Nat)
  | write (off val : Nat) (ram : Nat → Nat → Option (Nat → UInt8))
  | reset
  | attach (attached : Bool)
  | busReset
  | control (s : Nat → UInt8)
  | hostOut (data : List UInt8)
  | hostIn (max : Nat)
  | hostIntrIn (max : Nat)

inductive Output where
  | nothing
  | value (n : Nat)
  | answer (result : CtrlResult) (bytes : List UInt8)
  | taken (ok : Bool)
  | packet (bytes : Option (List UInt8))
  deriving DecidableEq

def operation (u : Usbf) : Operation → Output × Usbf
  | .read off => (.value (read u off).1, (read u off).2)
  | .write off val ram => (.nothing, write u off val ram)
  | .reset => (.nothing, usbfReset u)
  | .attach attached => (.nothing, hostAttach u attached)
  | .busReset => (.nothing, hostBusReset u)
  | .control s => (.answer (hostControl u s).1 (hostControl u s).2.1, (hostControl u s).2.2)
  | .hostOut data => (.taken (hostOut u data).1, (hostOut u data).2)
  | .hostIn max => (.packet (hostIn u max).1, (hostIn u max).2)
  | .hostIntrIn max => (.packet (hostIntrIn u max).1, (hostIntrIn u max).2)

def operate (u : Usbf) (op : Operation) : Usbf := (operation u op).2

/-! ## Calls of `irq_changed` -/

/-- One call, in the state that is left; or none, and the interrupt is as it was. -/
def Heard (u v : Usbf) : Prop := v.calls = u.calls ++ [irqPending v] ∨ v.calls = u.calls ∧ irqPending v = irqPending u

section Calls

variable {u v : Usbf}

theorem heard_same (u : Usbf) : Heard u u := .inr ⟨rfl, rfl⟩

theorem heard_notify (h : v.calls = u.calls) : Heard u (notify v) := by
  left
  rw [← h]
  rfl

theorem calls_ite {c : Prop} [Decidable c] {x y : Usbf} {l : List Bool} (hx : x.calls = l) (hy : y.calls = l) :
    (if c then x else y).calls = l := by
  split
  · exact hx
  · exact hy

theorem finishControl_calls (u : Usbf) (ok : Bool) : (finishControl u ok).calls = u.calls := by
  unfold finishControl onCtrlDone
  split
  · split <;> rfl
  · rfl

theorem outByte_calls (u : Usbf) : (outByte u).2.calls = u.calls := by
  unfold outByte
  split
  · simp only
    repeat' split
    all_goals rfl
  · rfl

theorem store_calls (ram : Bool) (pa : Nat) (b : UInt8) (u : Usbf) : (store ram pa b u).calls = u.calls := calls_ite rfl rfl

theorem drainOut_calls (ram : Bool) (n pa : Nat) (u : Usbf) : (drainOut ram n pa u).calls = u.calls := by
  induction n generalizing pa u with
  | zero => rfl
  | succ n ih =>
    unfold drainOut
    split
    · rw [ih, ← outByte_calls u]
      exact store_calls ..
    · rfl

theorem dma_calls (u : Usbf) (ram : Nat → Nat → Option (Nat → UInt8)) : (dma u ram).calls = u.calls := by
  unfold dma
  simp only
  split
  · exact calls_ite rfl rfl
  · exact drainOut_calls _ _ _ u

theorem commit_calls (u : Usbf) (val : UInt8) : (commit u val).calls = u.calls := by
  unfold commit
  simp only
  have hstatus : (if val &&& 0x01 ≠ 0 then
      finishControl { u with intstat := update u.intstat 2 (u.intstat 2 ||| 0x08) } true else u).calls = u.calls :=
    calls_ite (finishControl_calls _ true) rfl
  generalize (if val &&& 0x01 ≠ 0 then
      finishControl { u with intstat := update u.intstat 2 (u.intstat 2 ||| 0x08) } true else u) = t at hstatus ⊢
  have hpacket : (if val &&& 0x02 ≠ 0 then queueIn t else t).calls = t.calls := calls_ite rfl rfl
  rw [← hstatus, ← hpacket]
  exact calls_ite rfl rfl

/-! ## One operation -/

theorem readSetup_heard (u : Usbf) : Heard u (readSetup u).2 := by
  unfold readSetup
  simp only
  split
  · split
    · exact heard_notify rfl
    · exact .inr ⟨rfl, rfl⟩
  · exact heard_same u

theorem left_ite {α : Type} {c : Prop} [Decidable c] {x y : α × Usbf} {v : Usbf} (hx : x.2 = v) (hy : y.2 = v) :
    (if c then x else y).2 = v := by
  split
  · exact hx
  · exact hy

theorem read_state (u : Usbf) (off : Nat) : (read u off).2 =
    if off / 4 * 4 = regSetupFifo then (readSetup u).2 else if off / 4 * 4 = regOutFifo then notify (outByte u).2 else u := by
  unfold read
  simp only
  generalize off / 4 * 4 = reg
  by_cases hsetup : reg = regSetupFifo
  · subst hsetup
    rfl
  by_cases hout : reg = regOutFifo
  · subst hout
    rfl
  · rw [if_neg hsetup, if_neg hout, if_neg hsetup, if_neg hout]
    repeat' apply left_ite
    all_goals rfl

theorem read_heard (u : Usbf) (off : Nat) : Heard u (read u off).2 := by
  rw [read_state]
  split
  · exact readSetup_heard u
  split
  · exact heard_notify (outByte_calls u)
  · exact heard_same u

theorem writeRegister_calls (u : Usbf) (off val : Nat) (ram : Nat → Nat → Option (Nat → UInt8)) :
    (writeRegister u off val ram).calls = u.calls := by
  have hstall : (if UInt8.ofNat val &&& 0x08 ≠ 0 ∧ u.ctrlPending then finishControl u false else u).calls = u.calls :=
    calls_ite (finishControl_calls u false) rfl
  unfold writeRegister
  simp only
  refine calls_ite rfl (calls_ite rfl (calls_ite (calls_ite (dma_calls u ram) rfl) ?_))
  refine calls_ite rfl (calls_ite rfl (calls_ite rfl (calls_ite rfl (calls_ite rfl (calls_ite rfl ?_)))))
  refine calls_ite (calls_ite (finishControl_calls u false) rfl)
    (calls_ite rfl (calls_ite (calls_ite rfl rfl) (calls_ite hstall ?_)))
  refine calls_ite rfl (calls_ite rfl (calls_ite rfl (calls_ite rfl (calls_ite rfl (calls_ite rfl ?_)))))
  refine calls_ite rfl (calls_ite (calls_ite rfl rfl) (calls_ite (commit_calls u _) ?_))
  exact calls_ite (calls_ite rfl rfl) (calls_ite rfl rfl)

/-- Every write but one to the descriptors, which returns early, calls. -/
theorem write_heard (u : Usbf) (off val : Nat) (ram : Nat → Nat → Option (Nat → UInt8)) : Heard u (write u off val ram) := by
  unfold write
  simp only
  split
  · exact .inr ⟨rfl, rfl⟩
  · exact heard_notify (writeRegister_calls u _ val ram)

theorem usbfReset_heard (u : Usbf) : Heard u (usbfReset u) := heard_notify (finishControl_calls u false)

theorem hostAttach_heard (u : Usbf) (attached : Bool) : Heard u (hostAttach u attached) := by
  unfold hostAttach
  split
  · exact heard_same u
  · exact heard_notify (calls_ite rfl (finishControl_calls _ false))

theorem hostBusReset_heard (u : Usbf) : Heard u (hostBusReset u) := heard_notify (finishControl_calls u false)

/-- What a request answered by the controller changes. -/
inductive Answered (u : Usbf) : Usbf → Prop where
  | same : Answered u u
  | addressed (address : UInt8) : Answered u { u with address }
  | configured (config : UInt8) (intstat : Nat → UInt8) : Answered u (notify { u with config, intstat })

theorem standardRequest_answered (u : Usbf) (s : Nat → UInt8) : Answered u (standardRequest u s).2.2 := by
  have hite : ∀ (c : Prop) [Decidable c] (x y : CtrlResult × List UInt8 × Usbf), Answered u x.2.2 → Answered u y.2.2 →
      Answered u (if c then x else y).2.2 := by
    intro c _ x y hx hy
    split
    · exact hx
    · exact hy
  unfold standardRequest
  simp only
  repeat' apply hite
  all_goals first
    | exact .same
    | exact .addressed _
    | exact .configured _ _

theorem standardRequest_heard (u : Usbf) (s : Nat → UInt8) : Heard u (standardRequest u s).2.2 := by
  have hanswered := standardRequest_answered u s
  generalize (standardRequest u s).2.2 = v at hanswered ⊢
  cases hanswered with
  | same => exact heard_same u
  | addressed address => exact .inr ⟨rfl, rfl⟩
  | configured config intstat => exact heard_notify rfl

theorem hostControl_heard (u : Usbf) (s : Nat → UInt8) : Heard u (hostControl u s).2.2 := by
  unfold hostControl
  split
  · exact heard_same u
  split
  · exact standardRequest_heard u s
  · exact heard_notify (finishControl_calls u false)

theorem hostOut_heard (u : Usbf) (data : List UInt8) : Heard u (hostOut u data).2 := by
  unfold hostOut
  split
  · exact heard_same u
  split
  · exact heard_same u
  · exact heard_notify rfl

theorem hostIn_heard (u : Usbf) (max : Nat) : Heard u (hostIn u max).2 := by
  unfold hostIn
  split
  · exact heard_same u
  · exact heard_notify rfl

theorem hostIntrIn_heard (u : Usbf) (max : Nat) : Heard u (hostIntrIn u max).2 := by
  unfold hostIntrIn
  split
  · exact heard_same u
  · exact heard_notify rfl

theorem operate_heard (u : Usbf) (op : Operation) : Heard u (operate u op) := by
  cases op with
  | read off => exact read_heard u off
  | write off val ram => exact write_heard u off val ram
  | reset => exact usbfReset_heard u
  | attach attached => exact hostAttach_heard u attached
  | busReset => exact hostBusReset_heard u
  | control s => exact hostControl_heard u s
  | hostOut data => exact hostOut_heard u data
  | hostIn max => exact hostIn_heard u max
  | hostIntrIn max => exact hostIntrIn_heard u max

/-! ## Runs -/

def operations (u : Usbf) (ops : List Operation) : Usbf := ops.foldl operate u

/-- The level at the last call is the level. -/
theorem level_followed (u : Usbf) (ops : List Operation) :
    ∃ l, (operations u ops).calls = u.calls ++ l ∧ l.getLastD (irqPending u) = irqPending (operations u ops) := by
  induction ops generalizing u with
  | nil => exact ⟨[], (List.append_nil _).symm, rfl⟩
  | cons op ops ih =>
    obtain ⟨l, hcalls, hlevel⟩ := ih (operate u op)
    rcases operate_heard u op with hheard | ⟨hquiet, hsame⟩
    · refine ⟨irqPending (operate u op) :: l, ?_, ?_⟩
      · rw [hheard, List.append_assoc] at hcalls
        exact hcalls
      · rw [List.getLastD_cons]
        exact hlevel
    · rw [hquiet] at hcalls
      rw [hsame] at hlevel
      exact ⟨l, hcalls, hlevel⟩

end Calls

end Be300.Usb
