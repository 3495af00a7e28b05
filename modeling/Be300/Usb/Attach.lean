/-
  Be300.Usb.Attach — a connected device has been offered to the peer that is there.

  `update_connection` sets `connected` whatever came of the announcement's sends. When one of
  them loses the peer, `peer_lost` finds the flag still clear, and the flag then stands for a
  peer that is gone: the next one is never offered the device.
-/

import Be300.Usb.Moves

namespace Be300.Usb

open Lib

/-! ## The peer that is there -/

/-- The notes since the peer came, which has not been lost. -/
def Session (log session : List Note) : Prop :=
  ∃ before, log = before ++ .peer :: session ∧ ∀ n ∈ session, n ≠ .peer ∧ n ≠ .lost

/-- The peer has said hello. -/
def Greeted (log : List Note) : Prop := ∃ session caps, Session log session ∧ .hello caps ∈ session

/-- The device has been offered to the peer after its hello, and it has not been told of a disconnect since. -/
def Offered (log : List Note) : Prop := ∃ a caps b, Session log (a ++ .hello caps :: b) ∧ Offer b

/-- No announcement loses the peer. -/
def Unbroken (log : List Note) : Prop :=
  ∀ l offer rest, log = l ++ .attached :: offer ++ .connected :: rest → Note.connected ∉ offer → .lost ∉ offer

/-- A note that leaves the session as it is. -/
def Note.inSession (n : Note) : Prop := n ≠ .peer ∧ n ≠ .lost

section Notes

variable {log session m : List Note}

theorem Session.append (h : Session log session) (hm : ∀ n ∈ m, n.inSession) : Session (log ++ m) (session ++ m) := by
  obtain ⟨before, rfl, hin⟩ := h
  refine ⟨before, by simp, fun n hn => ?_⟩
  exact (List.mem_append.mp hn).elim (hin n) (hm n)

theorem Greeted.append (h : Greeted log) (hm : ∀ n ∈ m, n.inSession) : Greeted (log ++ m) := by
  obtain ⟨session, caps, hsession, hhello⟩ := h
  exact ⟨session ++ m, caps, hsession.append hm, List.mem_append_left m hhello⟩

theorem Offer.append (h : Offer session) (hm : ∀ id header data, .sent urDeviceDisconnect id header data ∉ m) :
    Offer (session ++ m) := by
  obtain ⟨a, b, c, e, i, j, k, x, y, z, rfl, he⟩ := h
  refine ⟨a, b, c, e ++ m, i, j, k, x, y, z, by simp, fun id header data hmem => ?_⟩
  exact (List.mem_append.mp hmem).elim (he id header data) (hm id header data)

theorem Offer.behind (h : Offer session) (m : List Note) : Offer (m ++ session) := by
  obtain ⟨a, b, c, e, i, j, k, x, y, z, rfl, he⟩ := h
  exact ⟨m ++ a, b, c, e, i, j, k, x, y, z, by simp, he⟩

theorem Offered.append (h : Offered log) (hm : ∀ n ∈ m, n.inSession)
    (hdisconnect : ∀ id header data, .sent urDeviceDisconnect id header data ∉ m) : Offered (log ++ m) := by
  obtain ⟨a, caps, b, hsession, hoffer⟩ := h
  refine ⟨a, caps, b ++ m, ?_, hoffer.append hdisconnect⟩
  have happend := hsession.append hm
  rwa [List.append_assoc, List.cons_append] at happend

theorem Unbroken.front (h : Unbroken (log ++ m)) : Unbroken log := by
  intro l offer rest heq
  exact h l offer (rest ++ m) (by rw [heq]; simp)

/-- The announcement that ends now was begun after the peer's hello. -/
theorem Greeted.offered {l offer : List Note} (h : Greeted (l ++ .attached :: offer)) (hoffer : Offer offer)
    (hhello : ∀ caps, .hello caps ∉ offer) : Offered (l ++ .attached :: offer) := by
  obtain ⟨session, caps, hsession, hmem⟩ := h
  obtain ⟨before, heq, hin⟩ := hsession
  obtain ⟨a, b, rfl⟩ := List.append_of_mem hmem
  -- the hello stands before `.attached`
  have hcut : l ++ .attached :: offer = (before ++ .peer :: a) ++ .hello caps :: b := by rw [heq]; simp
  rcases List.append_eq_append_iff.mp hcut with ⟨mid, -, hmid⟩ | ⟨mid, -, hmid⟩
  · cases mid with
    | nil => cases hmid
    | cons n mid =>
      obtain ⟨-, rfl⟩ := List.cons_eq_cons.mp hmid
      exact absurd (by simp) (hhello caps)
  · cases mid with
    | nil => cases hmid
    | cons n mid =>
      obtain ⟨-, rfl⟩ := List.cons_eq_cons.mp hmid
      refine ⟨a, caps, mid ++ .attached :: offer, ⟨before, heq, hin⟩, ?_⟩
      have hbehind := hoffer.behind (mid ++ [.attached])
      rwa [List.append_assoc] at hbehind

end Notes

/-! ## The invariant -/

structure Attached (v : View) : Prop where
  peer : v.up = true → ∃ session, Session v.u.log session
  hello : v.hello = true → v.up = true ∧ Greeted v.u.log
  connected : v.connected = true → v.up = true ∧ v.newPeer = false ∧ Offered v.u.log

section Invariant

variable {v w : View} {m : List Note}

theorem Attached.notes (h : Attached v) (hlog : w.u.log = v.u.log ++ m) (hm : ∀ n ∈ m, n.inSession) (hup : w.up = v.up)
    (hhello : w.hello = true → v.hello = true)
    (hconnected : w.connected = true →
      v.connected = true ∧ w.newPeer = v.newPeer ∧ ∀ id header data,
        .sent urDeviceDisconnect id header data ∉ m) : Attached w where
  peer hw := by
    rw [hup] at hw
    obtain ⟨session, hsession⟩ := h.peer hw
    exact ⟨session ++ m, hlog ▸ hsession.append hm⟩
  hello hw := by
    obtain ⟨hv, hgreeted⟩ := h.hello (hhello hw)
    exact ⟨hup.trans hv, hlog ▸ hgreeted.append hm⟩
  connected hw := by
    obtain ⟨hv, hnew, hdisconnect⟩ := hconnected hw
    obtain ⟨hup', hnew', hoffered⟩ := h.connected hv
    exact ⟨hup.trans hup', hnew.trans hnew', hlog ▸ hoffered.append hm hdisconnect⟩

/-- A view without a peer. -/
structure Gone (v : View) : Prop where
  up : v.up = false
  hello : v.hello = false
  connected : v.connected = false

theorem Gone.attached (h : Gone v) : Attached v where
  peer hv := absurd (h.up.symm.trans hv) (by decide)
  hello hv := absurd (h.hello.symm.trans hv) (by decide)
  connected hv := absurd (h.connected.symm.trans hv) (by decide)

theorem lost_gone (v : View) : Gone v.lost := by
  unfold View.lost
  by_cases hconnected : v.connected = true
  · rw [if_pos hconnected]
    exact ⟨rfl, rfl, rfl⟩
  · rw [if_neg hconnected]
    exact ⟨rfl, rfl, Bool.eq_false_iff.mpr hconnected⟩

theorem Attached.away (h : Attached v) (hup : v.up = false) : Gone v where
  up := hup
  hello := Bool.eq_false_iff.mpr fun hhello => absurd (hup.symm.trans (h.hello hhello).1) (by decide)
  connected := Bool.eq_false_iff.mpr fun hconnected => absurd (hup.symm.trans (h.connected hconnected).1) (by decide)

theorem controller_inSession {n : Note} (h : n.ofController = true) : n.inSession := by
  constructor <;> rintro rfl <;> exact absurd h (by decide)

theorem reply_ne_disconnect {type : Nat} (h : reply type = true) : urDeviceDisconnect ≠ type := by
  rintro rfl
  cases h

/-- What a move keeps, if the announcement it ends did not lose the peer. -/
theorem Move.attached_inv (h : Move v w) (hv : Attached v) (hbroken : Unbroken w.u.log) : Attached w := by
  have hquiet : ∀ {w : View} (m : List Note), w.u.log = v.u.log ++ m → (∀ n ∈ m, n.inSession) → w.up = v.up → w.hello = v.hello →
      w.connected = v.connected → w.newPeer = v.newPeer → (∀ id header data, .sent urDeviceDisconnect id header data ∉ m) →
        Attached w := by
    intro w m hlog hm hup hhello hconnected hnew hdisconnect
    exact hv.notes hlog hm hup (fun h => hhello ▸ h) fun h => ⟨hconnected ▸ h, hnew, hdisconnect⟩
  cases h with
  | usb h =>
    obtain ⟨m, hlog, hall⟩ := umove_log h
    refine hquiet m hlog (fun n hn => controller_inSession (hall n hn)) rfl rfl rfl rfl fun id header data hmem => ?_
    have hcontroller := hall _ hmem
    cases hcontroller
  | greeted hnew =>
    refine hv.notes (m := []) (List.append_nil _).symm nofun rfl nofun fun hconnected => ?_
    exact absurd (hnew.symm.trans (hv.connected hconnected).2.1) (by decide)
  | hello hup caps =>
    obtain ⟨session, hsession⟩ := hv.peer hup
    have hin : ∀ n ∈ [Note.hello caps], n.inSession := by simp [Note.inSession]
    have hsession' := hsession.append hin
    refine ⟨fun _ => ⟨_, hsession'⟩, fun _ => ⟨hup, _, caps, hsession', by simp⟩, fun hconnected => ?_⟩
    obtain ⟨-, hnew, hoffered⟩ := hv.connected hconnected
    exact ⟨hup, hnew, hoffered.append hin (by simp)⟩
  | lost => exact (lost_gone v).attached
  | outLost id => exact Gone.attached ⟨(lost_gone (v.notes _)).1, (lost_gone (v.notes _)).2, (lost_gone (v.notes _)).3⟩
  | inLost id => exact Gone.attached ⟨(lost_gone (v.notes _)).1, (lost_gone (v.notes _)).2, (lost_gone (v.notes _)).3⟩
  | detached => exact hv.notes (m := [.dropped]) rfl (by simp [Note.inSession]) rfl id nofun
  | connected hlog hnot hcases =>
    rename_i l offer
    have hwhole : v.u.log ++ [.connected] = l ++ .attached :: offer ++ .connected :: [] := by rw [hlog]
    have hkept : Note.lost ∉ offer := hbroken l offer [] hwhole hnot
    obtain ⟨hoffer, hhello, hup, hpeer, hnew⟩ := hcases.resolve_left hkept
    have hgreeted := (hv.hello hpeer).2
    rw [hlog] at hgreeted
    have hoffered := hgreeted.offered hoffer hhello
    rw [← hlog] at hoffered
    have hin : ∀ n ∈ [Note.connected], n.inSession := by simp [Note.inSession]
    obtain ⟨session, hsession⟩ := hv.peer hup
    refine ⟨fun _ => ⟨_, hsession.append hin⟩, fun _ => ⟨hup, (hv.hello hpeer).2.append hin⟩, fun _ => ⟨hup, hnew, ?_⟩⟩
    exact hoffered.append hin (by simp)
  | sent hup htype hdisconnect id header data =>
    refine hv.notes rfl (by simp [Note.inSession]) rfl (fun h => h) fun hconnected => ⟨hconnected, rfl, ?_⟩
    intro id' header' data' hmem
    cases List.mem_singleton.mp hmem
    exact absurd ((hdisconnect rfl).symm.trans hconnected) (by decide)
  | refused hid htype header data hstatus =>
    have hne := reply_ne_disconnect htype
    exact hquiet _ rfl (by simp [Note.inSession]) rfl rfl rfl rfl (by simp [hne])
  | idled | outSilent | inSilent | outSkipped => exact hquiet [] (List.append_nil _).symm nofun rfl rfl rfl rfl nofun
  | _ =>
    exact hquiet _ rfl (by simp [Note.inSession]) rfl rfl rfl rfl (by simp [urDeviceDisconnect, urControlPacket, urBulkPacket])

theorem Dial.attached_inv (h : Dial v w) (hv : Attached v) : Attached w := by
  have hdown : v.fd = false ∨ v.connecting = true → v.up = false := by
    rintro (h | h) <;> simp [View.up, h]
  cases h with
  | peer h newPeer =>
    obtain ⟨-, hhello, hconnected⟩ := hv.away (hdown h)
    refine ⟨fun _ => ⟨[], v.u.log, rfl, nofun⟩, fun hw => ?_, fun hw => ?_⟩
    · exact absurd (hhello.symm.trans hw) (by decide)
    · exact absurd (hconnected.symm.trans hw) (by decide)
  | dialling h =>
    obtain ⟨-, hhello, hconnected⟩ := hv.away (hdown (Or.inl h))
    exact Gone.attached ⟨rfl, hhello, hconnected⟩
  | failed h =>
    obtain ⟨-, hhello, hconnected⟩ := hv.away (hdown (Or.inr h))
    exact Gone.attached ⟨rfl, hhello, hconnected⟩

theorem Steps.attached (h : Steps v w) (hv : Attached v) (hbroken : Unbroken w.u.log) : Attached w := by
  induction h with
  | refl => exact hv
  | tail _ hstep ih =>
    rcases hstep with hdial | hmove
    · obtain ⟨m, hlog⟩ := hdial.log
      rw [hlog] at hbroken
      exact hdial.attached_inv (ih hbroken.front)
    · have hbefore := hbroken
      obtain ⟨m, hlog⟩ := hmove.log
      rw [hlog] at hbefore
      exact hmove.attached_inv (ih hbefore.front) hbroken

end Invariant

/-! ## The offer is made -/

section Offering

variable {d e f : Dev} {u u' : Usbf}

/-- The guest's function is there and the peer has said hello. -/
def wanted (d : Dev) : Bool := d.present && d.peerHello && d.up && descriptorsReady d.toUsbf

/-- What makes a connection wanted does not come about. -/
structure Below (d e : Dev) : Prop where
  present : e.present = d.present
  ready : descriptorsReady e.toUsbf = descriptorsReady d.toUsbf
  hello : e.peerHello = true → d.peerHello = true
  up : e.up = true → d.up = true

/-- The connection stays, unless the peer is lost. -/
structure Kept (d e : Dev) : Prop extends Below d e where
  connected : d.connected = true → e.connected = true ∨ e.peerHello = false

theorem Below.trans (h : Below d e) (h' : Below e f) : Below d f where
  present := h'.present.trans h.present
  ready := h'.ready.trans h.ready
  hello := h.hello ∘ h'.hello
  up := h.up ∘ h'.up

theorem Kept.trans (h : Kept d e) (h' : Kept e f) : Kept d f where
  toBelow := h.toBelow.trans h'.toBelow
  connected hd := by
    rcases h.connected hd with he | he
    · exact h'.connected he
    · exact Or.inr (Bool.eq_false_iff.mpr fun hf => absurd (he.symm.trans (h'.hello hf)) (by decide))

theorem Kept.refl (d : Dev) : Kept d d := ⟨⟨rfl, rfl, id, id⟩, Or.inl⟩

theorem Below.wanted (h : Below d e) (he : wanted e = true) : wanted d = true := by
  unfold Usb.wanted at he ⊢
  simp only [Bool.and_eq_true] at he ⊢
  obtain ⟨⟨⟨hpresent, hhello⟩, hup⟩, hready⟩ := he
  exact ⟨⟨⟨h.present ▸ hpresent, h.hello hhello⟩, h.up hup⟩, h.ready ▸ hready⟩

theorem finishControl_ready (u : Usbf) (ok : Bool) : descriptorsReady (finishControl u ok) = descriptorsReady u := by
  unfold finishControl onCtrlDone
  split
  · split <;> rfl
  · rfl

theorem hostAttach_ready (u : Usbf) (attached : Bool) : descriptorsReady (hostAttach u attached) = descriptorsReady u := by
  unfold hostAttach
  split
  · rfl
  · simp only
    split
    · rfl
    · exact finishControl_ready _ _

theorem deviceDetach_below (d : Dev) : Below d (deviceDetach d) := by
  unfold deviceDetach
  split
  · exact ⟨rfl, hostAttach_ready _ _, id, id⟩
  · exact ⟨rfl, rfl, id, id⟩

theorem peerLost_kept (d : Dev) : Kept d (peerLost d) :=
  ⟨⟨(deviceDetach_below (d.noted .lost)).present, (deviceDetach_below (d.noted .lost)).ready, nofun, nofun⟩, fun _ => Or.inr rfl⟩

theorem flushTx_kept (d : Dev) : Kept d (flushTx d) := by
  unfold flushTx
  generalize writeLoop d.writes 0 d.tx.length = result
  obtain ⟨writes, off, lost⟩ := result
  cases lost with
  | true => exact Kept.trans (e := { d with writes, tx := d.tx.drop off }) ⟨⟨rfl, rfl, id, id⟩, Or.inl⟩ (peerLost_kept _)
  | false => exact ⟨⟨rfl, rfl, id, id⟩, Or.inl⟩

theorem sendPacket_kept (d : Dev) (type id : Nat) (th data : List UInt8) : Kept d (sendPacket d type id th data) := by
  unfold sendPacket
  split
  · exact Kept.refl d
  · exact Kept.trans (e := { d with
      tx := d.tx ++ header d type (th.length + data.length) id ++ th ++ data
      log := d.log ++ [.sent type (wireId d id) th data] }) ⟨⟨rfl, rfl, fun h => h, fun h => h⟩, Or.inl⟩ (flushTx_kept _)

theorem replyBulk_kept (d : Dev) (id : Nat) (ep status : UInt8) (data : List UInt8) (len : Nat) :
    Kept d (replyBulk d id ep status data len) :=
  sendPacket_kept d urBulkPacket id _ _

theorem hostOut_ready (u : Usbf) (data : List UInt8) : descriptorsReady (hostOut u data).2 = descriptorsReady u := by
  rcases hostOut_cases u data with h | ⟨-, h⟩ | ⟨-, -, -, f, -, h⟩
  all_goals rw [h]
  all_goals rfl

theorem hostIn_ready (u : Usbf) (max : Nat) : descriptorsReady (hostIn u max).2 = descriptorsReady u := by
  unfold hostIn
  split <;> rfl

theorem hostIntrIn_ready (u : Usbf) (max : Nat) : descriptorsReady (hostIntrIn u max).2 = descriptorsReady u := by
  unfold hostIntrIn
  split <;> rfl

theorem serviceOut_kept (fuel : Nat) (d : Dev) : Kept d (serviceOut fuel d) := by
  induction fuel generalizing d with
  | zero => exact Kept.refl d
  | succ fuel ih =>
    unfold serviceOut
    split
    · exact Kept.refl d
    simp only
    generalize min (d.bulkOut.front.len - d.bulkOut.front.off) (if d.mpsBulkOut ≠ 0 then d.mpsBulkOut else epMaxPacket) = chunk
    have hready := hostOut_ready d.toUsbf ((d.bulkOut.front.data.drop d.bulkOut.front.off).take chunk)
    generalize hostOut d.toUsbf ((d.bulkOut.front.data.drop d.bulkOut.front.off).take chunk) = result at hready ⊢
    obtain ⟨taken, u⟩ := result
    simp only
    split
    · exact Kept.refl d
    have hmoved : ∀ q, Kept d { d with toUsbf := u, bulkOut := q } := fun q => ⟨⟨rfl, hready, id, id⟩, Or.inl⟩
    generalize d.bulkOut.setFront { d.bulkOut.front with off := d.bulkOut.front.off + chunk } = q
    split
    · exact (hmoved q).trans (ih _)
    · have hreply := replyBulk_kept { d with toUsbf := u, bulkOut := q } d.bulkOut.front.id d.bulkOut.front.ep urSuccess []
        d.bulkOut.front.len
      generalize replyBulk _ d.bulkOut.front.id d.bulkOut.front.ep urSuccess [] d.bulkOut.front.len = e at hreply ⊢
      have hpopped : Kept e { e with bulkOut := e.bulkOut.pop urQueueLen } := ⟨⟨rfl, rfl, id, id⟩, Or.inl⟩
      exact (hmoved q).trans (hreply.trans (hpopped.trans (ih _)))

theorem serviceIn_kept (fuel : Nat) (d : Dev) : Kept d (serviceIn fuel d) := by
  induction fuel generalizing d with
  | zero => exact Kept.refl d
  | succ fuel ih =>
    unfold serviceIn
    split
    · exact Kept.refl d
    have hready := hostIn_ready d.toUsbf epMaxPacket
    generalize hostIn d.toUsbf epMaxPacket = result at hready ⊢
    obtain ⟨pkt, u⟩ := result
    cases pkt with
    | none => exact Kept.refl d
    | some pkt =>
      simp only
      have hmoved : ∀ n q, Kept d { d with toUsbf := u.note n, bulkIn := q } := fun n q => ⟨⟨rfl, hready, id, id⟩, Or.inl⟩
      generalize hx : d.bulkIn.front = x
      generalize x.len - x.off = room
      generalize hq : d.bulkIn.setFront _ = q
      by_cases hdone : (if pkt.length > room then urBabble else urSuccess) ≠ urSuccess ∨
          (min pkt.length room < if d.mpsBulkIn ≠ 0 then d.mpsBulkIn else epMaxPacket) ∨ x.off + min pkt.length room = x.len
      · rw [if_pos hdone]
        have hreply := replyBulk_kept { d with toUsbf := u.note (.moved pkt.length room), bulkIn := q } x.id x.ep
          (if pkt.length > room then urBabble else urSuccess) (x.data ++ pkt.take (min pkt.length room))
            (x.off + min pkt.length room)
        generalize replyBulk _ x.id x.ep _ _ _ = e at hreply ⊢
        have hpopped : Kept e { e with bulkIn := e.bulkIn.pop urQueueLen } := ⟨⟨rfl, rfl, id, id⟩, Or.inl⟩
        exact (hmoved _ q).trans (hreply.trans (hpopped.trans (ih _)))
      · rw [if_neg hdone]
        exact (hmoved _ q).trans (ih _)

theorem serviceIntr_kept (d : Dev) (due : Bool) : Kept d (serviceIntr d due) := by
  unfold serviceIntr
  split
  · have hready := hostIntrIn_ready d.toUsbf epMaxPacket
    generalize hostIntrIn d.toUsbf epMaxPacket = result at hready ⊢
    obtain ⟨pkt, u⟩ := result
    cases pkt with
    | none => exact ⟨⟨rfl, hready, id, id⟩, Or.inl⟩
    | some pkt =>
      refine Kept.trans (e := { d with toUsbf := u, intrSeq := d.intrSeq + 1 }) ?_ (sendPacket_kept _ _ _ _ _)
      exact ⟨⟨rfl, hready, id, id⟩, Or.inl⟩
  · exact Kept.refl d

theorem serviceEndpoints_kept (d : Dev) (due : Bool) : Kept d (serviceEndpoints d due) := by
  unfold serviceEndpoints
  split
  · exact (serviceOut_kept _ d).trans ((serviceIn_kept _ _).trans (serviceIntr_kept _ due))
  · exact Kept.refl d

theorem sendCtrlReply_kept (d : Dev) : Kept d (sendCtrlReply d) := by
  unfold sendCtrlReply
  split
  · refine Kept.trans (e := { d with ctrl := { d.ctrl with active := false, done := false } }) ?_ (sendPacket_kept _ _ _ _ _)
    exact ⟨⟨rfl, rfl, id, id⟩, Or.inl⟩
  · exact Kept.refl d

theorem deviceDisconnect_below (d : Dev) : Below d (deviceDisconnect d) := by
  unfold deviceDisconnect
  split
  · have hsent := (sendPacket_kept (dropTransfers { d with connected := false }) urDeviceDisconnect 0 [] []).toBelow
    exact ⟨hsent.present, (hostAttach_ready _ _).trans hsent.ready, hsent.hello, hsent.up⟩
  · exact ⟨rfl, rfl, id, id⟩

/-- A wanted connection is made. -/
theorem updateConnection_wanted (d : Dev) (h : wanted (updateConnection d) = true) : (updateConnection d).connected = true := by
  have hwanted : (d.present && d.peerHello && d.up && descriptorsReady d.toUsbf) = wanted d := rfl
  have hdown : ∀ e, Below d e → wanted d = false → wanted e ≠ true := by
    intro e hbelow hnot he
    exact absurd (hnot.symm.trans (hbelow.wanted he)) (by decide)
  unfold updateConnection at h ⊢
  simp only [hwanted] at h ⊢
  cases hd : wanted d <;> cases hc : d.connected <;> simp only [hd, hc] at h ⊢
  · exact absurd h (hdown d (Kept.refl d).toBelow hd)
  · exfalso
    revert h
    show ¬ _
    by_cases hup : d.up = true
    · rw [hup]
      exact hdown _ (deviceDisconnect_below d) hd
    · rw [Bool.eq_false_iff.mpr hup]
      exact hdown _ (deviceDetach_below d) hd
  · rfl
  · exact hc

/-- After a tick the device of a peer that has said hello is connected. -/
theorem tick_wanted (d : Dev) (env : Env) (h : wanted (tick d env) = true) : (tick d env).connected = true := by
  have hdown : ∀ e : Dev, e.up = false → wanted e ≠ true := by
    intro e hup
    unfold wanted
    rw [hup]
    simp
  unfold tick at h ⊢
  simp only at h ⊢
  generalize settle (chardevTick { d with writes := env.writes } env) env.connect = e at h ⊢
  by_cases hup : e.up = true
  · rw [if_neg (by simp [hup])] at h ⊢
    generalize drainRx (greet e) env.reads = e' at h ⊢
    by_cases hfd : e'.ch.fd = true
    · rw [if_neg (by simp [hfd])] at h ⊢
      have hkept := (sendCtrlReply_kept (updateConnection e')).trans
        ((serviceEndpoints_kept _ env.intrDue).trans (flushTx_kept _))
      generalize flushTx _ = f at h hkept ⊢
      have hconnected := updateConnection_wanted e' (hkept.wanted h)
      rcases hkept.connected hconnected with hf | hf
      · exact hf
      · unfold wanted at h
        rw [hf] at h
        simp at h
    · rw [if_pos (by simpa using hfd)] at h
      exact absurd h (hdown e' (by unfold Dev.up; simp [Bool.eq_false_iff.mpr hfd]))
  · rw [if_pos (by simpa using hup)] at h
    exact absurd h (hdown _ (Bool.eq_false_iff.mpr fun hdetached => hup ((deviceDetach_below e).up hdetached)))

end Offering

/-! ## Runs -/

theorem Opened.opening {ch : Chardev} (h : Opened ch) : (devInit ch).view.Opening := by
  cases h with
  | listen => exact nofun
  | dialled => exact nofun
  | dialling => exact fun _ => rfl
  | refused => exact nofun
  | pty => exact nofun

theorem devInit_attached (ch : Chardev) : Attached (devInit ch).view where
  peer hup := by
    have hlog : (devInit ch).log = [.peer] := if_pos hup
    exact ⟨[], [], hlog, nofun⟩
  hello := nofun
  connected := nofun

/-- While no announcement loses the peer, a connected device has been offered to the peer that is there; and a peer
that has said hello finds the device connected once a tick is over. -/
theorem attached_offered {ch : Chardev} (hch : Opened ch) (events : List Event) (h : Unbroken (run (devInit ch) events).log) :
    ((run (devInit ch) events).connected = true →
      (run (devInit ch) events).up = true ∧ Offered (run (devInit ch) events).log) ∧
    ∀ env, wanted (tick (run (devInit ch) events) env) = true → (tick (run (devInit ch) events) env).connected = true := by
  have hsteps := run_steps (devInit ch) events hch.opening
  have hattached := hsteps.attached (devInit_attached ch) h
  refine ⟨fun hconnected => ?_, tick_wanted _⟩
  obtain ⟨hup, -, hoffered⟩ := hattached.connected hconnected
  exact ⟨hup, hoffered⟩

def listening : Chardev := { kind := .listen, fd := false, connecting := false, newPeer := false }

/-- The guest's driver is loaded: its descriptors are in place. -/
def guestReady : List Event :=
  [(regUnitEn, 1), (descBase, 18), (descBase + 4, 1), (descBase + 4 * 18, 9), (descBase + 4 * 19, 2)].map
    (fun access => .write access.1 access.2 fun _ _ => none) ++ [.present true]

/-- A peer is accepted and its hello is there. -/
def joins (writes : List WriteResult) : Event :=
  .tick { accepts := true, redial := none, connect := .pending, intrDue := false, writes
          reads := [.bytes (le 4 urHello ++ le 4 64 ++ le 4 0 ++ List.replicate 64 0)] }

theorem unbroken_of_kept {log : List Note} (h : .lost ∉ log) : Unbroken log := by
  rintro l offer rest rfl - hlost
  exact h (by simp [hlost])

set_option maxRecDepth 100000 in
/-- A run with an offer that does not lose the peer. -/
theorem first_peer_offered : (run (devInit listening) (guestReady ++ [joins (List.replicate 4 (.bytes 200))])).connected = true ∧
    Offered (run (devInit listening) (guestReady ++ [joins (List.replicate 4 (.bytes 200))])).log := by
  have hconnected : (run (devInit listening) (guestReady ++ [joins (List.replicate 4 (.bytes 200))])).connected = true := by
    decide
  have hkept : Note.lost ∉ (run (devInit listening) (guestReady ++ [joins (List.replicate 4 (.bytes 200))])).log := by
    decide
  have hopened : Opened listening := .listen
  obtain ⟨hoffered, -⟩ := attached_offered hopened _ (unbroken_of_kept hkept)
  exact ⟨hconnected, (hoffered hconnected).2⟩

def Note.isConnect : Note → Bool
  | .sent type _ _ _ => type == urDeviceConnect
  | _ => false

theorem offered_connect {log : List Note} (h : Offered log) : (log.reverse.takeWhile (· ≠ .peer)).any Note.isConnect = true := by
  obtain ⟨a, caps, b, ⟨before, rfl, hin⟩, x, y, z, e, i, j, k, p, q, r, rfl, -⟩ := h
  generalize hs : a ++ .hello caps :: (x ++ .sent urInterfaceInfo i p [] :: y ++ .sent urEpInfo j q [] :: z ++
    .sent urDeviceConnect k r [] :: e) = session at hin ⊢
  have hmem : Note.sent urDeviceConnect k r [] ∈ session := by simp [← hs]
  rw [List.reverse_append, List.reverse_cons, List.append_assoc, List.takeWhile_append_of_pos]
  · exact List.any_eq_true.mpr ⟨_, List.mem_append_left _ (List.mem_reverse.mpr hmem), rfl⟩
  · intro n hn
    exact decide_eq_true (hin n (List.mem_reverse.mp hn)).1

set_option maxRecDepth 100000 in
/-- The interfaces' packet loses the first peer; the second one says hello and is sent nothing but a hello. -/
theorem next_peer_not_offered : Opened listening ∧
    (run (devInit listening) (guestReady ++ [joins [.bytes 80, .error], joins []])).connected = true ∧
    (run (devInit listening) (guestReady ++ [joins [.bytes 80, .error], joins []])).up = true ∧
    (run (devInit listening) (guestReady ++ [joins [.bytes 80, .error], joins []])).peerHello = true ∧
    ¬ Offered (run (devInit listening) (guestReady ++ [joins [.bytes 80, .error], joins []])).log := by
  refine ⟨.listen, by decide, by decide, by decide, fun h => ?_⟩
  have hnone : ((run (devInit listening) (guestReady ++ [joins [.bytes 80, .error], joins []])).log.reverse.takeWhile
      (· ≠ .peer)).any Note.isConnect = false := by decide
  exact absurd (hnone.symm.trans (offered_connect h)) (by decide)

end Be300.Usb
