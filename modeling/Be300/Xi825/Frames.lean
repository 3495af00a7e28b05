/-
  Be300.Xi825.Frames — a received frame sent again, and the bounds of the transmit path.

  A sent frame is put together in an array of 1600 bytes, of which the callback reads those
  that were written. `frameOf` comes out of every buffer without an access outside the
  arrays (`sendBuffer_total`), and out of the layout of a received frame with that frame
  (`frameOf_received`).
-/

import Be300.Xi825.Events

namespace Be300.Xi825

open Lib

/-! ## The frame's array -/

section Array

variable {eth eth' : Nat → Option UInt8} {bytes : List UInt8} {off n : Nat}

theorem mapM_some {l : List Nat} {g : Nat → UInt8} (h : ∀ i ∈ l, eth i = some (g i)) : l.mapM eth = some (l.map g) := by
  induction l with
  | nil => rfl
  | cons i l ih =>
    rw [List.mapM_cons, h i List.mem_cons_self, ih fun j hj => h j (List.mem_cons_of_mem _ hj)]
    rfl

theorem ethRead_eq {l : List UInt8} (hlen : l.length ≤ ethSize) (h : ∀ i < l.length, eth i = some (at' l i)) :
    ethRead eth l.length = some l := by
  rw [ethRead, if_pos hlen, mapM_some fun i hi => h i (List.mem_range.mp hi)]
  congr 1
  apply List.ext_getElem
  · simp
  · intro i h1 h2
    simp [at', h2]

theorem ethCopy_eq (h : off + bytes.length ≤ ethSize) :
    ethCopy eth off bytes =
      some fun i => if off ≤ i ∧ i < off + bytes.length then some (at' bytes (i - off)) else eth i := if_pos h

/-- The array holds the bytes of `l` from its start on. -/
def Holds (eth : Nat → Option UInt8) (l : List UInt8) : Prop := ∀ i < l.length, eth i = some (at' l i)

theorem Holds.copy {l : List UInt8} (h : Holds eth l) (bytes : List UInt8) (hfit : l.length + bytes.length ≤ ethSize) :
    ∃ eth', ethCopy eth l.length bytes = some eth' ∧ Holds eth' (l ++ bytes) := by
  refine ⟨_, ethCopy_eq hfit, fun i hi => ?_⟩
  rw [List.length_append] at hi
  by_cases hold : i < l.length
  · rw [if_neg (by omega), h i hold, at'_append_left hold]
  · rw [if_pos (by omega)]
    have happ := at'_append_right l bytes (i - l.length)
    rw [show l.length + (i - l.length) = i by omega] at happ
    rw [happ]

end Array

/-! ## Every buffer -/

section Buffers

variable {s : Card} {b : Buffer}

@[simp] theorem bytesOf_length (p : Nat → UInt8) (off n : Nat) : (bytesOf p off n).length = n := by simp [bytesOf]

theorem loadBytes_eq {off n : Nat} (h : off + n ≤ bufferSize) : loadBytes b off n = some (bytesOf b.data off n) := if_pos h

/-- The length of a buffer's data, from either of its two fields. -/
def dataLength (b : Buffer) : Nat :=
  if rd 2 b.data 44 = 0 then 256 * (b.data 58).toNat + (b.data 59).toNat else rd 2 b.data 44

/-- The frame of a buffer that passes the checks. -/
def frameBytes (b : Buffer) : List UInt8 :=
  let n := dataLength b
  if 8 ≤ n ∧ snapHeader (bytesOf b.data 60 8) = true then bytesOf b.data 46 12 ++ bytesOf b.data 66 (n - 6)
  else bytesOf b.data 46 12 ++ bytesOf b.data 58 2 ++ bytesOf b.data 60 n

/-- All accesses are inside the arrays, and every byte sent was written. -/
theorem frameOf_eq (s : Card) (b : Buffer) :
    frameOf s b = some (
      if s.associated = true ∧ 60 ≤ b.length ∧ dataLength b ≤ ethSize - 14 ∧ 60 + dataLength b ≤ b.length then
        some (frameBytes b)
      else none) := by
  have hfits := b.fits
  unfold frameOf
  by_cases hsend : s.associated = true ∧ 60 ≤ b.length
  · rw [if_neg (by simp only [Bool.or_eq_true, Bool.not_eq_true', decide_eq_true_iff, hsend.1, reduceCtorEq, false_or]; omega)]
    have h44 : load16 b 44 = some (rd 2 b.data 44) := if_pos (by decide)
    have htype : at' (bytesOf b.data 58 2) 0 = b.data 58 ∧ at' (bytesOf b.data 58 2) 1 = b.data 59 := ⟨rfl, rfl⟩
    simp only [h44, loadBytes_eq (show 58 + 2 ≤ bufferSize by decide), Option.bind_eq_bind, Option.bind_some, htype.1, htype.2]
    rw [← dataLength]
    by_cases hlen : dataLength b ≤ ethSize - 14 ∧ 60 + dataLength b ≤ b.length
    · rw [if_neg (by omega), if_pos ⟨hsend.1, hsend.2, hlen⟩]
      unfold frameBytes
      unfold ethSize at hlen
      unfold bufferSize at hfits
      generalize dataLength b = n at hlen ⊢
      have hempty : Holds (fun _ => none) [] := fun i hi => absurd hi (Nat.not_lt_zero i)
      obtain ⟨eth, hcopy, hhead⟩ := hempty.copy (bytesOf b.data 46 12)
        (by simp only [List.length_nil, bytesOf_length]; decide)
      rw [List.length_nil] at hcopy
      rw [List.nil_append] at hhead
      rw [loadBytes_eq (show 46 + 12 ≤ bufferSize by decide), Option.bind_some, hcopy, Option.bind_some]
      by_cases hsnap : 8 ≤ n ∧ snapHeader (bytesOf b.data 60 8) = true
      · -- behind a SNAP header come the type and the data
        obtain ⟨eth', hcopy', hall⟩ := hhead.copy (bytesOf b.data 66 (n - 6))
          (by simp only [bytesOf_length, ethSize]; omega)
        rw [bytesOf_length] at hcopy'
        have hread := ethRead_eq (by simp only [List.length_append, bytesOf_length, ethSize]; omega) hall
        rw [List.length_append, bytesOf_length, bytesOf_length, show 12 + (n - 6) = n - 8 + 14 by omega] at hread
        have hfound : hasSnap b n = some true := by
          rw [hasSnap, if_pos hsnap.1, loadBytes_eq (show 60 + 8 ≤ bufferSize by decide), Option.map_eq_map, Option.map_some,
            hsnap.2]
        rw [if_pos hsnap, hfound]
        simp only [Option.bind_some, if_true]
        rw [loadBytes_eq (by unfold bufferSize; omega), Option.bind_some, hcopy', Option.bind_some, hread]
        rfl
      · -- the length goes into the frame as it is
        obtain ⟨eth', hcopy', hmid⟩ := hhead.copy (bytesOf b.data 58 2)
          (by simp only [bytesOf_length, ethSize]; decide)
        obtain ⟨eth'', hcopy'', hall⟩ := hmid.copy (bytesOf b.data 60 n)
          (by simp only [List.length_append, bytesOf_length, ethSize]; omega)
        rw [bytesOf_length] at hcopy'
        rw [List.length_append, bytesOf_length, bytesOf_length] at hcopy''
        have hread := ethRead_eq (by simp only [List.length_append, bytesOf_length, ethSize]; omega) hall
        rw [List.length_append, List.length_append, bytesOf_length, bytesOf_length, bytesOf_length,
          show 12 + 2 + n = n + 14 by omega] at hread
        have hplain : hasSnap b n = some false := by
          unfold hasSnap
          split
          · rename_i h8
            have hno : snapHeader (bytesOf b.data 60 8) = false := Bool.eq_false_iff.mpr fun h => hsnap ⟨h8, h⟩
            rw [loadBytes_eq (show 60 + 8 ≤ bufferSize by decide), Option.map_eq_map, Option.map_some, hno]
          · rfl
        rw [if_neg hsnap, hplain]
        simp only [Option.bind_some, Bool.false_eq_true, if_false, Option.map_eq_map]
        rw [hcopy', Option.bind_some, loadBytes_eq (by unfold bufferSize; omega), Option.bind_some, hcopy'', Option.bind_some,
          hread]
        rfl
    · rw [if_pos (by omega), if_neg (fun h => hlen h.2.2)]
  · rw [if_pos, if_neg (fun h => hsend ⟨h.1, h.2.1⟩)]
    simp only [Bool.or_eq_true, Bool.not_eq_true', decide_eq_true_iff]
    rcases Bool.eq_false_or_eq_true s.associated with ha | ha
    · right
      by_contra hge
      exact hsend ⟨ha, by omega⟩
    · exact Or.inl ha

end Buffers

/-! ## A received frame -/

section Received

variable {eth : List UInt8} {c : Buffer}

theorem bytesOf_at (p l m : List UInt8) : bytesOf (at' (p ++ (l ++ m))) p.length l.length = l := by
  apply List.ext_getElem
  · simp
  · intro i h1 h2
    simp only [bytesOf, List.getElem_map, List.getElem_range, at'_append_right, at'_append_left h2]
    simp [at', h2]

theorem bytesOf_congr {p q : Nat → UInt8} {off n : Nat} (h : ∀ i < n, p (off + i) = q (off + i)) :
    bytesOf p off n = bytesOf q off n := List.map_congr_left fun i hi => h i (List.mem_range.mp hi)

/-- The descriptor and the 802.11 header, up to the first length. -/
def descriptor (eth : List UInt8) : List UInt8 :=
  le 2 0x2000 ++ zeros 4 ++ [40, 100, 110] ++ zeros 5 ++ le 2 0x0208 ++ zeros 2 ++ eth.take 6 ++ apBssid ++
    (eth.drop 6).take 6 ++ zeros 8

theorem descriptor_length (h : 14 ≤ eth.length) : (descriptor eth).length = 44 := by
  simp only [descriptor, zeros, apBssid, List.length_append, le_length, List.length_replicate, List.length_cons, List.length_nil,
    List.length_take, List.length_drop]
  omega

/-- What the transmit path reads in the layout of a received frame. -/
theorem received_fields (hlen : 14 ≤ eth.length ∧ eth.length ≤ 1514)
    (hdata : ∀ i < 60 + 8 + (eth.length - 14), c.data i = at' (receivedData eth) i) :
    dataLength c = eth.length - 14 + 8 ∧ snapHeader (bytesOf c.data 60 8) = true ∧ bytesOf c.data 46 12 = eth.take 12 ∧
      bytesOf c.data 66 (eth.length - 12) = eth.drop 12 := by
  have hp := descriptor_length hlen.1
  have htake : (eth.take 12).length = 12 := by rw [List.length_take]; omega
  have hdrop : (eth.drop 12).length = eth.length - 12 := List.length_drop
  generalize hn : eth.length - 14 + 8 = n
  -- each field behind what stands before it
  have hat : ∀ p l m : List UInt8, receivedData eth = p ++ (l ++ m) → p.length + l.length ≤ 60 + n →
      bytesOf c.data p.length l.length = l := by
    intro p l m hshape hend
    rw [bytesOf_congr (q := at' (receivedData eth)) fun i hi => hdata _ (by omega), hshape, bytesOf_at]
  have hshape : receivedData eth = descriptor eth ++ (le 2 n ++ (eth.take 12 ++ ([UInt8.ofNat (n / 256), UInt8.ofNat n] ++
      (snap ++ eth.drop 12)))) := by
    simp only [receivedData, descriptor, hn, List.append_assoc]
  have hlenField := hat (descriptor eth) (le 2 n) _ hshape (by rw [hp, le_length]; omega)
  have haddr := hat (descriptor eth ++ le 2 n) (eth.take 12) _ (by rw [hshape, List.append_assoc])
    (by rw [List.length_append, hp, le_length, htake]; omega)
  have hsnap := hat (descriptor eth ++ le 2 n ++ eth.take 12 ++ [UInt8.ofNat (n / 256), UInt8.ofNat n])
    (snap ++ (eth.drop 12).take 2) ((eth.drop 12).drop 2)
    (by rw [hshape]; simp only [List.append_assoc, List.take_append_drop])
    (by simp only [List.length_append, hp, le_length, htake, List.length_take, hdrop, snap, List.length_cons,
      List.length_nil]; omega)
  have hrest := hat (descriptor eth ++ le 2 n ++ eth.take 12 ++ [UInt8.ofNat (n / 256), UInt8.ofNat n] ++ snap) (eth.drop 12) []
    (by rw [hshape]; simp only [List.append_assoc, List.append_nil])
    (by simp only [List.length_append, hp, le_length, htake, hdrop, snap, List.length_cons, List.length_nil]; omega)
  simp only [List.length_append, hp, le_length, htake, List.length_take, hdrop, snap, List.length_cons,
    List.length_nil] at hlenField haddr hsnap hrest
  refine ⟨?_, ?_, haddr, hrest⟩
  · have hrd : rd 2 c.data 44 = n := by
      have hnum := rd_at (show n < 256 ^ 2 by omega) (descriptor eth)
        (eth.take 12 ++ ([UInt8.ofNat (n / 256), UInt8.ofNat n] ++ (snap ++ eth.drop 12)))
      rw [← hshape, hp] at hnum
      rw [rd_congr (fun k hk => hdata (44 + k) (by omega)), hnum]
    rw [dataLength, hrd, if_neg (by omega)]
  · rw [show (0 + 1 + 1 + 1 + 1 + 1 + 1 + min 2 (eth.length - 12)) = 8 by omega] at hsnap
    rw [hsnap]
    rfl

theorem frameOf_received {t : Card} (ht : t.associated = true) (hlen : 14 ≤ eth.length ∧ eth.length ≤ 1514)
    (hdata : ∀ i < 60 + 8 + (eth.length - 14), c.data i = at' (receivedData eth) i)
      (hroom : 60 + 8 + (eth.length - 14) ≤ c.length) :
    frameOf t c = some (some eth) := by
  obtain ⟨hn, hsnap, haddr, hrest⟩ := received_fields hlen hdata
  rw [frameOf_eq, if_pos ⟨ht, by omega, by unfold ethSize; omega, by omega⟩]
  unfold frameBytes
  rw [hn]
  simp only
  rw [if_pos ⟨by omega, hsnap⟩, haddr, show eth.length - 14 + 8 - 6 = eth.length - 12 by omega, hrest, List.take_append_drop]

end Received

/-! ## The TX command -/

section Command

variable {s t : Card} {b : Buffer} {eth : List UInt8}

/-- What the card has sent after a frame, if there is one. -/
def sentAfter (s : Card) (frame : Option (List UInt8)) : List (List UInt8) :=
  match frame with
  | some eth => if s.transmit then s.sent ++ [eth] else s.sent
  | none => s.sent

theorem sendBuffer_spec {frame : Option (List UInt8)} (h : frameOf s b = some frame) (value : UInt16) (param : Nat) :
    ∃ u, sendBuffer s b value param = some u ∧ u.sent = sentAfter s frame := by
  have hstore : ∀ v, store16 b 0 v = some (patch b.data 0 (le 2 v)) := fun v => if_pos (by decide)
  have hload : load16 b 12 = some (rd 2 b.data 12) := if_pos (by decide)
  have hreport : ∀ (u : Card) (p q r : Prop) [Decidable p] [Decidable q] [Decidable r],
      (if p then if q then raise u evTx else u else if r then raise u evTxexc else u).sent = u.sent := by
    intro u p q r _ _ _
    repeat' split
    all_goals rfl
  unfold sendBuffer
  rw [h, Option.bind_eq_bind, Option.bind_some, hstore, Option.bind_eq_bind, Option.bind_some, hload, Option.bind_eq_bind,
    Option.bind_some]
  simp only
  split
  · exact ⟨_, rfl, hreport _ _ _ _⟩
  · exact ⟨_, rfl, hreport _ _ _ _⟩

theorem sendBuffer_total (s : Card) (b : Buffer) (value : UInt16) (param : Nat) : (sendBuffer s b value param).isSome := by
  obtain ⟨u, hu, -⟩ := sendBuffer_spec (frameOf_eq s b) value param
  rw [hu]
  rfl

/-- A TX command on a buffer that has a frame hands it to the callback. -/
theorem command_sent {value : UInt16} (hop : (value &&& 0x3f).toNat = 0x0b)
    (hbuffer : buffer t.buffers (t.regs regParam0).toNat = some b) (halloc : t.regs regEvstat &&& evAlloc = 0)
    (htransmit : t.transmit = true) (hframe : frameOf t b = some (some eth)) : (command t value).sent = t.sent ++ [eth] := by
  -- the registers set before the operation are not read by it
  have hset : ∀ u : Card, u.associated = t.associated → frameOf u b = some (some eth) := by
    intro u hu
    rw [frameOf_eq, hu, ← frameOf_eq, hframe]
  unfold command perform
  simp only [hop]
  generalize hu : setReg (setReg (setReg (setReg t regCmd (value &&& 0x7fff)) regResp0 0) (regResp0 + 1) 0) (regResp0 + 2) 0 = u
  have hfields : u.buffers = t.buffers ∧ u.regs regParam0 = t.regs regParam0 ∧ u.regs regEvstat = t.regs regEvstat ∧
      u.associated = t.associated ∧ u.transmit = t.transmit ∧ u.sent = t.sent := by
    rw [← hu]
    exact ⟨rfl, rfl, rfl, rfl, rfl, rfl⟩
  obtain ⟨hbuffers, hparam, hstat, hassoc, htr, hsent⟩ := hfields
  obtain ⟨v, hv, hlast⟩ := sendBuffer_spec (hset u hassoc) value (t.regs regParam0).toNat
  rw [hbuffers, hparam, hstat, hbuffer]
  simp only
  rw [if_neg (by simpa using halloc), hv]
  show v.sent = _
  rw [hlast, sentAfter, htr, hsent, if_pos htransmit]

end Command

/-- What an accepted frame leaves: a buffer with its layout, the last on the queue. -/
theorem receive_accepted {s s' : Card} {host : List Nat} (h : Inv s host) {eth : List UInt8} (hr : receive s eth = (s', true)) :
    (14 ≤ eth.length ∧ eth.length ≤ 1514) ∧ ∃ id b, rxFids s' = rxFids s ++ [id] ∧ buffer s'.buffers id = some b ∧
      b.length = 60 + 8 + (eth.length - 14) ∧ b.data = at' (receivedData eth) := by
  unfold receive at hr
  split at hr
  · cases hr
  · rename_i haccept
    simp only [Bool.or_eq_true, Bool.not_eq_true', decide_eq_true_iff, beq_iff_eq, not_or] at haccept
    split at hr
    · cases hr
    · split at hr
      · cases hr
      · rename_i u id halloc
        obtain ⟨hid, b, buffers, hused, hbid, hlength, hdata, hplace, hu⟩ := allocate_eq halloc
        have hcount := h.rx.fits.count
        have hnew : s.nextFid ∉ Slots.keys bufferKey s.buffers := fun hin => h.pool.next (h.pool.used.mem_iff.mp hin)
        have hkey : bufferKey b = some s.nextFid := by rw [bufferKey, if_pos hused, hbid]
        have hlookup := Slots.lookup_place_self hplace hkey hnew
        have hs' : s' = _ := (congrArg Prod.fst hr).symm
        have hroom : s.rxQueue.count < 8 := by omega
        refine ⟨by omega, id, b, ?_, ?_, hlength, hdata⟩
        · rw [hs', hu]
          exact Fifo.contents_push hroom id
        · rw [hs', hu, hid]
          exact hlookup

/-- In every state reached, the buffer of a frame that is received, copied into any buffer
    large enough, is sent as that frame by the TX command; and no contents of a buffer make
    the transmit path go outside its arrays. -/
theorem frames_sound (security : Wifi.Security) (mac : List UInt8) (hermes : Bool) (firmware : Nat) (cis : List UInt8)
    {s s' : Card} {host : List Nat} (h : Run (attach security mac hermes firmware cis) s host) {eth : List UInt8}
    (hr : receive s eth = (s', true)) :
    (∃ id b, rxFids s' = rxFids s ++ [id] ∧ buffer s'.buffers id = some b ∧
      ∀ (t : Card) (c : Buffer), (∀ i < b.length, c.data i = b.data i) → b.length ≤ c.length → t.associated = true →
        frameOf t c = some (some eth) ∧
          ∀ value : UInt16, (value &&& 0x3f).toNat = 0x0b → buffer t.buffers (t.regs regParam0).toNat = some c →
            t.regs regEvstat &&& evAlloc = 0 → t.transmit = true → (command t value).sent = t.sent ++ [eth]) ∧
      ∀ (t : Card) (c : Buffer) (value : UInt16) (param : Nat), (sendBuffer t c value param).isSome := by
  refine ⟨?_, sendBuffer_total⟩
  obtain ⟨hlen, id, b, hqueue, hbuffer, hlength, hdata⟩ := receive_accepted (Inv.run h) hr
  refine ⟨id, b, hqueue, hbuffer, fun t c hcopy hroom ht => ?_⟩
  have hframe : frameOf t c = some (some eth) := by
    apply frameOf_received ht hlen
    · intro i hi
      rw [hcopy i (by omega), hdata]
    · omega
  exact ⟨hframe, fun value hop hc halloc htransmit => command_sent hop hc halloc htransmit hframe⟩

/-- The card enabled on the open network. -/
def connected : Card := step (step started (.write 0 2 1)) .tick

def greeting : List UInt8 := [2, 0x60, 0xb3, 0, 0, 1, 2, 0x42, 0x45, 0x33, 0x30, 0x30, 8, 0] ++ List.replicate 46 7

set_option maxRecDepth 100000 in
theorem connected_receives : connected.associated = true ∧ (receive connected greeting).2 = true ∧
    (receive connected greeting).1.associated = true := by decide

theorem greeting_returned : ∃ b, frameOf (receive connected greeting).1 b = some (some greeting) := by
  have hfirst : Own started (.write 0 2 1) := by
    intro h
    exact absurd h (by decide)
  have hsecond : Own (step started (.write 0 2 1)) .tick := by
    intro h
    cases h
  have hrun := (Run.init.step _ hfirst).step _ hsecond
  have hr : receive connected greeting = ((receive connected greeting).1, true) := by
    rw [← connected_receives.2.1]
  obtain ⟨id, b, -, -, hsend⟩ := (frames_sound openNetwork [2, 0x60, 0xb3, 0, 0, 1] false 0 [1, 3, 0xdc, 0, 0xff] hrun hr).1
  exact ⟨b, (hsend _ b (fun _ _ => rfl) (Nat.le_refl _) connected_receives.2.2).1⟩

end Be300.Xi825
