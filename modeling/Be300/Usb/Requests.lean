/-
  Be300.Usb.Requests — every request of the peer's is answered once.

  A request stays in the control slot or in one of the two queues until it is answered; what
  is held there is what the log says is outstanding. Three things break this. A control
  request left to the guest takes the slot of an earlier one. When the reply that completes a
  bulk request loses the peer, the queues are emptied and an element is taken all the same,
  so that the count of one wraps. A hello that takes back the long ids cuts those of the
  requests that are held.
-/

import Mathlib.Data.List.Perm.Subperm
import Be300.Lib.Ledger
import Be300.Usb.Attach

namespace Be300.Usb

open Lib

/-! ## Accounts -/

def Note.entry : Note → Option (Entry Nat)
  | .request id => some (.opened id)
  | .sent type id _ _ => if reply type then some (.closed id) else none
  | .lost => some .cleared
  | .dropped => some .cleared
  | _ => none

def entries (log : List Note) : List (Entry Nat) := log.filterMap Note.entry

/-- The requests that are not answered. -/
def outstanding (log : List Note) : List Nat := Ledger.outstanding (entries log)

def requests (log : List Note) : List Nat := Ledger.ids (entries log)

def replies (log : List Note) (id : Nat) : Nat := (entries log).count (.closed id)

/-- The requests in the control slot and in the queues. -/
def View.held (v : View) : List Nat :=
  (if v.u.ctrl.active then [v.u.ctrl.id] else []) ++ (v.bulkIn.contents urQueueLen).map Xfer.id ++
    (v.bulkOut.contents urQueueLen).map Xfer.id

/-- A reply that completes a bulk request. -/
def Note.completes : Note → Bool
  | .sent type _ header _ => type == urBulkPacket && (bulkStatus header == urSuccess || bulkStatus header == urBabble)
  | _ => false

/-- What keeps the accounts in order, given what came before. -/
def OrderlyNext (log : List Note) : Note → Prop
  | .deferred _ => ∀ id ∈ outstanding log, .deferred id ∉ log
  | .lost => log.getLast?.all (!·.completes) = true
  | .hello caps => View.wide caps = true ∨ ∀ id ∈ outstanding log, id < 2 ^ 32
  | _ => True

/-- No request is left to the guest while an earlier one is, no completing reply loses the peer, and no hello takes back
ids that are held. -/
def Orderly (log : List Note) : Prop := Along OrderlyNext log

section Log

variable {log : List Note} {n : Note}

theorem entries_append (l m : List Note) : entries (l ++ m) = entries l ++ entries m := List.filterMap_append

theorem outstanding_quiet {m : List Note} (hm : entries m = []) (log : List Note) : outstanding (log ++ m) = outstanding log := by
  unfold outstanding
  rw [entries_append, hm, List.append_nil]

theorem outstanding_entry {e : Entry Nat} (hn : n.entry = some e) (log : List Note) :
    outstanding (log ++ [n]) = Ledger.next (outstanding log) e := by
  unfold outstanding
  rw [entries_append, show entries [n] = [e] by simp [entries, hn], Ledger.outstanding_snoc]

theorem entry_reply {type : Nat} (h : reply type = true) (id : Nat) (header data : List UInt8) :
    (Note.sent type id header data).entry = some (.closed id) := if_pos h

/-- The notes of an account that was opened and cleared. -/
theorem cleared_after {id : Nat} (h : ∃ a b, entries log = a ++ .opened id :: b ∧ .cleared ∈ b) :
    ∃ before after, log = before ++ .request id :: after ∧ (.lost ∈ after ∨ .dropped ∈ after) := by
  obtain ⟨a, b, hentries, hb⟩ := h
  obtain ⟨before, rest, rfl, -, hrest⟩ := List.filterMap_eq_append_iff.mp hentries
  obtain ⟨skipped, n, after, rfl, -, hn, hafter⟩ := List.filterMap_eq_cons_iff.mp hrest
  have hrequest : n = .request id := by
    cases n <;> simp [Note.entry] at hn
    rw [hn]
  subst hrequest
  rw [← hafter] at hb
  obtain ⟨m, hm, hcleared⟩ := List.mem_filterMap.mp hb
  refine ⟨before ++ skipped, after, by simp, ?_⟩
  cases m <;> simp [Note.entry] at hcleared
  · exact Or.inl hm
  · exact Or.inr hm

end Log

/-! ## The invariant -/

structure Accounts (v : View) : Prop where
  fitsIn : v.bulkIn.Fits urQueueLen
  fitsOut : v.bulkOut.Fits urQueueLen
  present : v.held ≠ [] → v.connected = true ∧ v.up = true ∧ v.newPeer = false
  sound : Ledger.Sound (entries v.u.log)
  perm : (outstanding v.u.log).Perm v.held
  wire : ∀ id ∈ v.held, v.wire id = id
  deferred : v.u.ctrl.active = true → .deferred v.u.ctrl.id ∈ v.u.log

section Invariant

variable {v w : View} {m : List Note} {id : Nat}

theorem held_active (h : v.u.ctrl.active = true) : v.held = v.u.ctrl.id :: v.idle.held := by
  unfold View.held
  rw [if_pos h]
  rfl

theorem inactive_of_held (h : v.held = []) : v.u.ctrl.active = false := by
  refine Bool.eq_false_iff.mpr fun hactive => ?_
  rw [held_active hactive] at h
  cases h

theorem ids_setFront {q : Fifo Xfer} (h : q.Fits urQueueLen) {x : Xfer} (hx : x.id = q.front.id) :
    ((q.setFront x).contents urQueueLen).map Xfer.id = (q.contents urQueueLen).map Xfer.id := by
  by_cases hcount : q.count = 0
  · rw [Fifo.contents_eq_nil.mpr hcount, Fifo.contents_eq_nil.mpr (show (q.setFront x).count = 0 from hcount)]
  · have hq := Fifo.contents_pop h (by decide) hcount
    rw [Fifo.contents_setFront h hq, hq, List.map_cons, List.map_cons, hx]

/-- Nothing is opened, closed or cleared. -/
theorem Accounts.quiet (h : Accounts v) (hlog : w.u.log = v.u.log ++ m) (hm : entries m = []) (hheld : w.held = v.held)
    (hin : w.bulkIn.Fits urQueueLen) (hout : w.bulkOut.Fits urQueueLen)
    (hpresent : v.held ≠ [] → w.connected = v.connected ∧ w.up = v.up ∧ w.newPeer = v.newPeer)
    (hwire : ∀ id ∈ v.held, w.wire id = v.wire id)
    (hctrl : w.u.ctrl.active = v.u.ctrl.active ∧ w.u.ctrl.id = v.u.ctrl.id) : Accounts w where
  fitsIn := hin
  fitsOut := hout
  present hw := by
    rw [hheld] at hw
    obtain ⟨hconnected, hup, hnew⟩ := hpresent hw
    rw [hconnected, hup, hnew]
    exact h.present hw
  sound := by
    rw [hlog, entries_append, hm, List.append_nil]
    exact h.sound
  perm := by
    rw [hlog, outstanding_quiet hm, hheld]
    exact h.perm
  wire id hid := by
    rw [hheld] at hid
    rw [hwire id hid, h.wire id hid]
  deferred hw := by
    rw [hctrl.1] at hw
    rw [hctrl.2, hlog]
    exact List.mem_append_left _ (h.deferred hw)

theorem Accounts.opened (h : Accounts v) (hlog : w.u.log = v.u.log ++ .request id :: m) (hm : entries m = [])
    (hheld : w.held.Perm (id :: v.held)) (hin : w.bulkIn.Fits urQueueLen) (hout : w.bulkOut.Fits urQueueLen)
    (hpresent : w.connected = true ∧ w.up = true ∧ w.newPeer = false) (hid : v.wire id = id) (hwire : ∀ id, w.wire id = v.wire id)
    (hdeferred : w.u.ctrl.active = true → .deferred w.u.ctrl.id ∈ w.u.log) : Accounts w where
  fitsIn := hin
  fitsOut := hout
  present _ := hpresent
  sound := by
    rw [hlog, entries_append, show entries (.request id :: m) = .opened id :: entries m from rfl, hm]
    exact h.sound.other nofun
  perm := by
    rw [hlog, List.append_cons, outstanding_quiet hm, outstanding_entry rfl]
    exact ((List.perm_append_singleton id _).trans (h.perm.cons id)).trans hheld.symm
  wire i hi := by
    rw [hwire]
    rcases List.mem_cons.mp (hheld.mem_iff.mp hi) with rfl | hold
    · exact hid
    · exact h.wire i hold
  deferred := hdeferred

theorem Accounts.closed (h : Accounts v) {type : Nat} {header data : List UInt8}
    (hlog : w.u.log = v.u.log ++ .sent type id header data :: m) (htype : reply type = true) (hm : entries m = [])
    (hheld : v.held.Perm (id :: w.held)) (hin : w.bulkIn.Fits urQueueLen) (hout : w.bulkOut.Fits urQueueLen)
    (hpresent : w.connected = v.connected ∧ w.up = v.up ∧ w.newPeer = v.newPeer) (hwire : ∀ id, w.wire id = v.wire id)
    (hctrl : w.u.ctrl.active = true → v.u.ctrl.active = true ∧ w.u.ctrl.id = v.u.ctrl.id) : Accounts w where
  fitsIn := hin
  fitsOut := hout
  present hw := by
    obtain ⟨hconnected, hup, hnew⟩ := hpresent
    rw [hconnected, hup, hnew]
    refine h.present fun hv => ?_
    rw [hv] at hheld
    cases List.nil_perm.mp hheld
  sound := by
    have hentries : entries (.sent type id header data :: m) = .closed id :: entries m :=
      List.filterMap_cons_some (entry_reply htype id header data)
    rw [hlog, entries_append, hentries, hm]
    refine h.sound.closed (h.perm.mem_iff.mpr (hheld.mem_iff.mpr (List.mem_cons_self ..)))
  perm := by
    rw [hlog, List.append_cons, outstanding_quiet hm, outstanding_entry (entry_reply htype id header data)]
    have herased := (h.perm.trans hheld).erase id
    rwa [List.erase_cons_head] at herased
  wire i hi := by
    rw [hwire]
    exact h.wire i (hheld.mem_iff.mpr (List.mem_cons_of_mem id hi))
  deferred hw := by
    obtain ⟨hactive, hsame⟩ := hctrl hw
    rw [hsame, hlog]
    exact List.mem_append_left _ (h.deferred hactive)

/-- Nothing is held any more. -/
theorem Accounts.cleared (h : Accounts v) {n : Note} (hlog : w.u.log = v.u.log ++ [n]) (hn : n.entry = some .cleared)
    (hheld : w.held = []) (hin : w.bulkIn.Fits urQueueLen) (hout : w.bulkOut.Fits urQueueLen) : Accounts w where
  fitsIn := hin
  fitsOut := hout
  present hw := absurd hheld hw
  sound := by
    rw [hlog, entries_append, show entries [n] = [.cleared] by simp [entries, hn]]
    exact h.sound.other nofun
  perm := by
    rw [hlog, outstanding_entry hn, hheld]
    exact .refl []
  wire i hi := by
    rw [hheld] at hi
    cases hi
  deferred hw := by
    rw [inactive_of_held hheld] at hw
    cases hw

theorem clear_fits (q : Fifo Xfer) : q.clear.Fits urQueueLen := Fifo.fits_clear (by decide) q

theorem Accounts.lost (h : Accounts v) : Accounts v.lost := by
  unfold View.lost
  by_cases hconnected : v.connected = true
  · rw [if_pos hconnected]
    have hfirst : Accounts (v.alone.emptied.notes [.lost]) := h.cleared (n := .lost) rfl rfl rfl (clear_fits _) (clear_fits _)
    exact hfirst.cleared (n := .dropped) (by simp [View.notes, View.emptied, View.idle, View.alone]) rfl rfl (clear_fits _)
      (clear_fits _)
  · rw [if_neg hconnected]
    have hheld : v.held = [] := Classical.byContradiction fun hne => hconnected (h.present hne).1
    exact h.cleared (n := .lost) rfl rfl hheld h.fitsIn h.fitsOut

theorem umove_entries {u u' : UView} (h : UMove u u') :
    (∃ m, u'.log = u.log ++ m ∧ entries m = []) ∧ u'.ctrl.active = u.ctrl.active ∧ u'.ctrl.id = u.ctrl.id := by
  obtain ⟨m, hlog, hall⟩ := umove_log h
  have hm : entries m = [] := by
    refine List.filterMap_eq_nil_iff.mpr fun n hn => ?_
    have hcontroller := hall n hn
    cases n <;> first | rfl | exact absurd hcontroller Bool.false_ne_true
  refine ⟨⟨m, hlog, hm⟩, ?_⟩
  cases h with
  | completed ok _ =>
    show (if u.ctrl.active then _ else _ : Ctrl).active = _ ∧ (if u.ctrl.active then _ else _ : Ctrl).id = _
    split <;> exact ⟨rfl, rfl⟩
  | _ => exact ⟨rfl, rfl⟩

theorem wire_lt (h : v.wire id = id) : id < 2 ^ 64 := by
  unfold View.wire at h
  split at h <;> omega

theorem held_eq (hctrl : w.u.ctrl = v.u.ctrl)
    (hin : (w.bulkIn.contents urQueueLen).map Xfer.id = (v.bulkIn.contents urQueueLen).map Xfer.id)
    (hout : (w.bulkOut.contents urQueueLen).map Xfer.id = (v.bulkOut.contents urQueueLen).map Xfer.id) : w.held = v.held := by
  unfold View.held
  rw [hctrl, hin, hout]

theorem held_in {a c : List Nat} {l l' : List Nat} (h : l.Perm (id :: l')) : (a ++ l ++ c).Perm (id :: (a ++ l' ++ c)) :=
  ((h.append_left a).trans List.perm_middle).append_right c

theorem held_out {a : List Nat} {l l' : List Nat} (h : l.Perm (id :: l')) : (a ++ l).Perm (id :: (a ++ l')) :=
  (h.append_left a).trans List.perm_middle

theorem pop_ids {q : Fifo Xfer} (h : q.Fits urQueueLen) (hcount : q.count ≠ 0) :
    ((q.contents urQueueLen).map Xfer.id).Perm (q.front.id :: ((q.pop urQueueLen).contents urQueueLen).map Xfer.id) := by
  rw [Fifo.contents_pop h (by decide) hcount, List.map_cons]

theorem removeAt_ids {q : Fifo Xfer} (h : q.Fits urQueueLen) {i : Nat} (hi : i < q.count) :
    ((q.contents urQueueLen).map Xfer.id).Perm
      ((q.get urQueueLen i).id :: ((q.removeAt urQueueLen i).contents urQueueLen).map Xfer.id) := by
  have hlen : i < (q.contents urQueueLen).length := by rwa [Fifo.length_contents]
  have hperm := List.getElem_cons_eraseIdx_perm hlen
  rw [Fifo.getElem_contents hlen, ← Fifo.contents_removeAt h hi] at hperm
  exact hperm.symm.map Xfer.id

theorem Accounts.unheld (h : Accounts v) (hup : v.up = false) : v.held = [] :=
  Classical.byContradiction fun hne => absurd (hup.symm.trans (h.present hne).2.1) (by decide)

/-- A request that is refused at once. -/
theorem Accounts.refused (h : Accounts v) (id : Nat) {type : Nat} (htype : reply type = true) {header data : List UInt8} :
    Accounts (v.notes [.request id, .sent type id header data]) where
  fitsIn := h.fitsIn
  fitsOut := h.fitsOut
  present := h.present
  sound := by
    have hentries : entries [.request id, .sent type id header data] = [.opened id] ++ [.closed id] := by
      simp [entries, Note.entry, htype]
    show Ledger.Sound (entries (v.u.log ++ _))
    rw [entries_append, hentries, ← List.append_assoc]
    have hopened : Ledger.Sound (entries v.u.log ++ [.opened id]) := h.sound.other nofun
    refine hopened.closed ?_
    rw [Ledger.outstanding_snoc]
    exact List.mem_append_right _ (List.mem_singleton_self id)
  perm := by
    show (outstanding (v.u.log ++ ([.request id] ++ [.sent type id header data]))).Perm v.held
    rw [← List.append_assoc, outstanding_entry (entry_reply htype id header data), outstanding_entry rfl]
    have herased := (List.perm_append_singleton id (outstanding v.u.log)).erase id
    rw [List.erase_cons_head] at herased
    exact herased.trans h.perm
  wire := h.wire
  deferred hactive := List.mem_append_left _ (h.deferred hactive)

/-- A request is answered and taken from its queue. -/
theorem Accounts.tookIn (h : Accounts v) {q : Fifo Xfer} {header data : List UInt8}
    (hids : ((v.bulkIn.contents urQueueLen).map Xfer.id).Perm (id :: (q.contents urQueueLen).map Xfer.id))
    (hq : q.Fits urQueueLen) (hm : entries m = []) :
    Accounts ({ v with bulkIn := q }.notes (.sent urBulkPacket (v.wire id) header data :: m)) := by
  have hheld : v.held.Perm (id :: View.held { v with bulkIn := q }) := held_in hids
  have hid : v.wire id = id := h.wire id (hheld.mem_iff.mpr (List.mem_cons_self ..))
  rw [hid]
  exact h.closed rfl rfl hm hheld hq h.fitsOut ⟨rfl, rfl, rfl⟩ (fun _ => rfl) fun hactive => ⟨hactive, rfl⟩

theorem Accounts.tookOut (h : Accounts v) {q : Fifo Xfer} {header data : List UInt8}
    (hids : ((v.bulkOut.contents urQueueLen).map Xfer.id).Perm (id :: (q.contents urQueueLen).map Xfer.id))
    (hq : q.Fits urQueueLen) (hm : entries m = []) :
    Accounts ({ v with bulkOut := q }.notes (.sent urBulkPacket (v.wire id) header data :: m)) := by
  have hheld : v.held.Perm (id :: View.held { v with bulkOut := q }) := held_out hids
  have hid : v.wire id = id := h.wire id (hheld.mem_iff.mpr (List.mem_cons_self ..))
  rw [hid]
  exact h.closed rfl rfl hm hheld h.fitsIn hq ⟨rfl, rfl, rfl⟩ (fun _ => rfl) fun hactive => ⟨hactive, rfl⟩

theorem lost_disorderly {header data : List UInt8} (hstatus : bulkStatus header = urSuccess ∨ bulkStatus header = urBabble) :
    ¬ Orderly (v.notes [.sent urBulkPacket id header data]).lost.u.log := by
  intro horder
  obtain ⟨m, hlog, -⟩ := lost_log (v.notes [.sent urBulkPacket id header data])
  rw [hlog] at horder
  have hnext : OrderlyNext (v.u.log ++ [.sent urBulkPacket id header data]) .lost := Along.at horder
  unfold OrderlyNext at hnext
  rcases hstatus with hstatus | hstatus <;> simp [Note.completes, hstatus] at hnext

/-- What a move keeps, when it is in order. -/
theorem Move.accounts (h : Move v w) (hv : Accounts v) (horder : Orderly w.u.log) : Accounts w := by
  have hsame : v.held ≠ [] → v.connected = v.connected ∧ v.up = v.up ∧ v.newPeer = v.newPeer := fun _ => ⟨rfl, rfl, rfl⟩
  have hnotes : ∀ m, entries m = [] → Accounts (v.notes m) := fun m hm =>
    hv.quiet rfl hm rfl hv.fitsIn hv.fitsOut hsame (fun _ _ => rfl) ⟨rfl, rfl⟩
  cases h with
  | usb h =>
    obtain ⟨⟨m, hlog, hm⟩, hactive, hid⟩ := umove_entries h
    refine hv.quiet hlog hm ?_ hv.fitsIn hv.fitsOut hsame (fun _ _ => rfl) ⟨hactive, hid⟩
    unfold View.held
    simp only [hactive, hid]
  | greeted hnew =>
    have hheld : v.held = [] := Classical.byContradiction fun hne => absurd (hnew.symm.trans (hv.present hne).2.2) (by decide)
    refine hv.quiet (m := []) (List.append_nil _).symm rfl rfl hv.fitsIn hv.fitsOut (fun hne => absurd hheld hne) ?_ ⟨rfl, rfl⟩
    intro id hid
    rw [hheld] at hid
    cases hid
  | hello hup caps =>
    have hnext : OrderlyNext v.u.log (.hello caps) := Along.at horder
    refine hv.quiet (m := [.hello caps]) rfl rfl rfl hv.fitsIn hv.fitsOut hsame (fun id hid => ?_) ⟨rfl, rfl⟩
    have hlt := wire_lt (hv.wire id hid)
    rw [hv.wire id hid]
    show (if View.wide caps then id % 2 ^ 64 else id % 2 ^ 32) = id
    rcases hnext with hwide | hshort
    · rw [if_pos hwide, Nat.mod_eq_of_lt hlt]
    · have := hshort id (hv.perm.mem_iff.mpr hid)
      split <;> omega
  | lost => exact hv.lost
  | reset => exact hv.cleared (n := .dropped) rfl rfl rfl (clear_fits _) (clear_fits _)
  | detached => exact hv.cleared (n := .dropped) rfl rfl rfl (clear_fits _) (clear_fits _)
  | attached => exact hnotes _ rfl
  | described => exact hv.quiet (m := [_]) rfl rfl rfl hv.fitsIn hv.fitsOut hsame (fun _ _ => rfl) ⟨rfl, rfl⟩
  | connected =>
    refine hv.quiet (m := [_]) rfl rfl rfl hv.fitsIn hv.fitsOut (fun hne => ?_) (fun _ _ => rfl) ⟨rfl, rfl⟩
    exact ⟨(hv.present hne).1.symm, rfl, rfl⟩
  | sent hup htype hdisconnect id header data =>
    exact hnotes _ (by simp [entries, Note.entry, htype])
  | wrote n => exact hnotes _ rfl
  | refused hid htype header data hstatus => exact hv.refused _ htype
  | deferred hid hup hnew hconnected hpending hdr =>
    have hinactive : v.u.ctrl.active = false := by
      refine Bool.eq_false_iff.mpr fun hactive => ?_
      have hnext : OrderlyNext (v.u.log ++ [.request _]) (.deferred _) :=
        Along.at (m := []) (by simpa [View.notes, Orderly] using horder)
      refine hnext v.u.ctrl.id ?_ (List.mem_append_left _ (hv.deferred hactive))
      rw [outstanding_entry rfl]
      exact List.mem_append_left _ (hv.perm.mem_iff.mpr (held_active hactive ▸ List.mem_cons_self ..))
    refine hv.opened (m := [.deferred _]) rfl rfl ?_ hv.fitsIn hv.fitsOut ⟨hconnected, hup, hnew⟩ hid (fun _ => rfl) fun _ =>
      by simp [View.notes]
    unfold View.held
    rw [hinactive]
    exact .refl _
  | queuedOut hid hup hnew hconnected hroom hep data =>
    refine hv.opened (m := [.queued _ data]) rfl rfl (held_out ?_) hv.fitsIn (Fifo.fits_push hv.fitsOut hroom _)
      ⟨hconnected, hup, hnew⟩ hid (fun _ => rfl) fun hactive => List.mem_append_left _ (hv.deferred hactive)
    show ((v.bulkOut.push urQueueLen _).contents urQueueLen |>.map Xfer.id).Perm _
    rw [Fifo.contents_push hroom, List.map_append]
    exact List.perm_append_singleton _ _
  | queuedIn hid hup hnew hconnected hroom hep len =>
    refine hv.opened (m := []) rfl rfl (held_in ?_) (Fifo.fits_push hv.fitsIn hroom _) hv.fitsOut
      ⟨hconnected, hup, hnew⟩ hid (fun _ => rfl) fun hactive => List.mem_append_left _ (hv.deferred hactive)
    show ((v.bulkIn.push urQueueLen _).contents urQueueLen |>.map Xfer.id).Perm _
    rw [Fifo.contents_push hroom, List.map_append]
    exact List.perm_append_singleton _ _
  | answered hactive header data =>
    have hheld := held_active hactive
    have hid : v.wire v.u.ctrl.id = v.u.ctrl.id := hv.wire _ (hheld ▸ List.mem_cons_self ..)
    have hlog : (v.idle.notes [.sent urControlPacket (v.wire v.u.ctrl.id) header data]).u.log =
        v.u.log ++ .sent urControlPacket v.u.ctrl.id header data :: [] := by
      rw [hid]
      rfl
    have hperm : v.held.Perm (v.u.ctrl.id :: v.idle.held) := by rw [hheld]
    exact hv.closed hlog rfl rfl hperm hv.fitsIn hv.fitsOut ⟨rfl, rfl, rfl⟩ (fun _ => rfl) nofun
  | idled hup =>
    have hheld : v.held = [] := hv.unheld hup
    refine hv.quiet (m := []) (List.append_nil _).symm rfl ?_ hv.fitsIn hv.fitsOut hsame (fun _ _ => rfl) ⟨?_, rfl⟩
    · rw [hheld]
      unfold View.held at hheld ⊢
      rw [inactive_of_held hheld] at hheld
      exact hheld
    · exact (inactive_of_held hheld).symm
  | cancelledIn hi hstatus => exact hv.tookIn (m := []) (removeAt_ids hv.fitsIn hi) (Fifo.fits_removeAt hv.fitsIn hi) rfl
  | cancelledOut hi hstatus => exact hv.tookOut (m := []) (removeAt_ids hv.fitsOut hi) (Fifo.fits_removeAt hv.fitsOut hi) rfl
  | outMoved hcount hroom hlen hne hdata off hoff =>
    refine hv.quiet (m := [_]) rfl rfl ?_ hv.fitsIn (Fifo.fits_setFront hv.fitsOut _) hsame (fun _ _ => rfl) ⟨rfl, rfl⟩
    exact held_eq rfl rfl (ids_setFront hv.fitsOut rfl)
  | outSkipped hne off hoff =>
    refine hv.quiet (m := []) (List.append_nil _).symm rfl ?_ hv.fitsIn (Fifo.fits_setFront hv.fitsOut _) hsame (fun _ _ => rfl)
      ⟨rfl, rfl⟩
    exact held_eq rfl rfl (ids_setFront hv.fitsOut rfl)
  | outDone hcount hoff hstatus n =>
    exact hv.tookOut (m := [_]) (pop_ids hv.fitsOut hcount) (Fifo.fits_pop hv.fitsOut (by decide) hcount) rfl
  | outLost id hstatus => exact absurd horder (lost_disorderly (Or.inl hstatus))
  | outSilent hup hcount =>
    have hnone := List.map_eq_nil_iff.mp (List.append_eq_nil_iff.mp (hv.unheld hup)).2
    exact absurd (Fifo.contents_eq_nil.mp hnone) hcount
  | inMoved hcount hpacket hpkt hroom =>
    refine hv.quiet (m := [_]) rfl rfl ?_ (Fifo.fits_setFront hv.fitsIn _) hv.fitsOut hsame (fun _ _ => rfl) ⟨rfl, rfl⟩
    exact held_eq rfl (ids_setFront hv.fitsIn rfl) rfl
  | inDone hcount hlog hdone hstatus n =>
    exact hv.tookIn (m := [_]) (pop_ids hv.fitsIn hcount) (Fifo.fits_pop hv.fitsIn (by decide) hcount) rfl
  | inLost id hstatus => exact absurd horder (lost_disorderly hstatus)
  | inSilent hup hcount =>
    have hnone := List.map_eq_nil_iff.mp (List.append_eq_nil_iff.mp (List.append_eq_nil_iff.mp (hv.unheld hup)).1).2
    exact absurd (Fifo.contents_eq_nil.mp hnone) hcount

theorem Dial.accounts (h : Dial v w) (hv : Accounts v) : Accounts w := by
  have hdown : ∀ {m : List Note}, v.up = false → w.u.log = v.u.log ++ m → entries m = [] → w.held = v.held →
      w.bulkIn = v.bulkIn → w.bulkOut = v.bulkOut → w.u.ctrl = v.u.ctrl → Accounts w := by
    intro m hup hlog hm hheld hin hout hctrl
    have hnone := hv.unheld hup
    refine hv.quiet hlog hm hheld (hin ▸ hv.fitsIn) (hout ▸ hv.fitsOut) (fun hne => absurd hnone hne) ?_
      ⟨by rw [hctrl], by rw [hctrl]⟩
    rw [hnone]
    nofun
  cases h with
  | peer h newPeer =>
    refine hdown (m := [.peer]) ?_ rfl rfl rfl rfl rfl rfl
    rcases h with h | h <;> simp [View.up, h]
  | dialling h => exact hdown (m := []) (by simp [View.up, h]) (List.append_nil _).symm rfl rfl rfl rfl rfl
  | failed h => exact hdown (m := []) (by simp [View.up, h]) (List.append_nil _).symm rfl rfl rfl rfl rfl

theorem Steps.accounts (h : Steps v w) (hv : Accounts v) (horder : Orderly w.u.log) : Accounts w := by
  induction h with
  | refl => exact hv
  | tail _ hstep ih =>
    rcases hstep with hdial | hmove
    · obtain ⟨m, hlog⟩ := hdial.log
      rw [hlog] at horder
      exact hdial.accounts (ih (Along.front horder))
    · have hbefore := horder
      obtain ⟨m, hlog⟩ := hmove.log
      rw [hlog] at hbefore
      exact hmove.accounts (ih (Along.front hbefore)) horder

end Invariant

/-! ## Runs -/

theorem devInit_accounts (ch : Chardev) : Accounts (devInit ch).view := by
  have hentries : entries (devInit ch).log = [] := by
    show entries (if ch.fd && !ch.connecting then [.peer] else []) = []
    split <;> rfl
  have hfits : ∀ x : Xfer, (noFifo x).Fits urQueueLen := fun x => ⟨by show 0 < 64; decide, Nat.zero_le _⟩
  refine ⟨hfits _, hfits _, fun h => absurd rfl h, ?_, ?_, nofun, nofun⟩
  · show Ledger.Sound (entries (devInit ch).log)
    rw [hentries]
    exact Along.nil
  · show (Ledger.outstanding (entries (devInit ch).log)).Perm []
    rw [hentries]
    exact .refl []

/-- In an orderly run no request is answered twice, every reply carries the id of a request that is outstanding, and every
request has been answered, is held, or came before a loss, a reset or a disconnect. -/
theorem requests_accounted {ch : Chardev} (hch : Opened ch) (events : List Event)
    (hdistinct : (requests (run (devInit ch) events).log).Nodup) (horder : Orderly (run (devInit ch) events).log) :
    (∀ id, replies (run (devInit ch) events).log id ≤ 1) ∧
    (∀ before type id header data after, (run (devInit ch) events).log = before ++ .sent type id header data :: after →
      reply type = true → id ∈ outstanding before) ∧
    ∀ id ∈ requests (run (devInit ch) events).log, replies (run (devInit ch) events).log id = 1 ∨
      id ∈ (run (devInit ch) events).view.held ∨
      ∃ before after, (run (devInit ch) events).log = before ++ .request id :: after ∧ (.lost ∈ after ∨ .dropped ∈ after) := by
  have hsteps := run_steps (devInit ch) events hch.opening
  have haccounts := hsteps.accounts (devInit_accounts ch) horder
  have hlog : (run (devInit ch) events).view.u.log = (run (devInit ch) events).log := rfl
  obtain ⟨-, -, -, hsound, hperm, -, -⟩ := haccounts
  rw [hlog] at hsound hperm
  generalize (run (devInit ch) events).view.held = held at hperm ⊢
  generalize (run (devInit ch) events).log = log at hdistinct hsound hperm ⊢
  refine ⟨hsound.closed_le_one hdistinct, ?_, fun id hid => ?_⟩
  · rintro before type id header data after rfl htype
    have hentries : entries (before ++ .sent type id header data :: after) = entries before ++ .closed id :: entries after := by
      rw [entries_append]
      exact congrArg _ (List.filterMap_cons_some (entry_reply htype id header data))
    rw [hentries] at hsound
    exact Along.at hsound id rfl
  · rcases Ledger.settled hid with hclosed | hopen | hcleared
    · have hone := hsound.closed_le_one hdistinct id
      have hpos := List.count_pos_iff.mpr hclosed
      exact Or.inl (Nat.le_antisymm hone hpos)
    · exact Or.inr (Or.inl (hperm.mem_iff.mp hopen))
    · exact Or.inr (Or.inr (cleared_after hcleared))

/-- A tick in which the peer asks for these requests of its class, each left to the guest. -/
def asks (ids : List Nat) : Event :=
  .tick { accepts := false, redial := none, connect := .pending, intrDue := false, writes := []
          reads := ids.map fun id => .bytes (le 4 urControlPacket ++ le 4 10 ++ le 4 id ++ [0, 0x22, 0x21, 0, 1, 0, 0, 0, 0, 0]) }

/-- The guest completes the request it has. -/
def commits : Event := .write regEpCommit 1 fun _ _ => none

instance (log : List Note) (n : Note) : Decidable (OrderlyNext log n) :=
  match n with
  | .deferred _ => inferInstanceAs (Decidable (∀ id ∈ outstanding log, _))
  | .lost => inferInstanceAs (Decidable (log.getLast?.all (!·.completes) = true))
  | .hello caps => inferInstanceAs (Decidable (View.wide caps = true ∨ ∀ id ∈ outstanding log, id < 2 ^ 32))
  | .peer | .request _ | .queued .. | .sent .. | .wrote _ | .attached | .described .. | .connected | .dropped | .flushed
  | .took _ | .accepted _ | .staged _ | .committed _ | .moved .. => isTrue trivial

instance (log : List Note) : Decidable (Orderly log) := inferInstanceAs (Decidable (Along _ _))

set_option maxRecDepth 100000 in
/-- One request after the other. -/
theorem asked_in_turn :
    replies (run (devInit listening) (guestReady ++ [joins [], asks [1], commits, asks [], asks [2], commits, asks []])).log 1 =
      1 ∧
    replies (run (devInit listening) (guestReady ++ [joins [], asks [1], commits, asks [], asks [2], commits, asks []])).log 2 =
      1 := by
  have hopened : Opened listening := .listen
  obtain ⟨hone, -⟩ := requests_accounted hopened
    (guestReady ++ [joins [], asks [1], commits, asks [], asks [2], commits, asks []]) (by decide) (by decide)
  have hpos : ∀ id ∈ [1, 2], 1 ≤ replies (run (devInit listening)
      (guestReady ++ [joins [], asks [1], commits, asks [], asks [2], commits, asks []])).log id := by decide
  exact ⟨Nat.le_antisymm (hone 1) (hpos 1 (by decide)), Nat.le_antisymm (hone 2) (hpos 2 (by decide))⟩

/-- The second request takes the slot of the first, which is never answered. -/
theorem first_never_answered : Opened listening ∧
    requests (run (devInit listening) (guestReady ++ [joins [], asks [1, 2], commits, asks []])).log = [1, 2] ∧
    replies (run (devInit listening) (guestReady ++ [joins [], asks [1, 2], commits, asks []])).log 1 = 0 ∧
    replies (run (devInit listening) (guestReady ++ [joins [], asks [1, 2], commits, asks []])).log 2 = 1 ∧
    (run (devInit listening) (guestReady ++ [joins [], asks [1, 2], commits, asks []])).view.held = [] ∧
    .lost ∉ (run (devInit listening) (guestReady ++ [joins [], asks [1, 2], commits, asks []])).log ∧
    .dropped ∉ (run (devInit listening) (guestReady ++ [joins [], asks [1, 2], commits, asks []])).log := by
  refine ⟨.listen, ?_⟩
  decide

end Be300.Usb
