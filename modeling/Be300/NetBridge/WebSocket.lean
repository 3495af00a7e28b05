/-
  Be300.NetBridge.WebSocket — the WebSocket frames of the network bridge
  (`tools/net_bridge/main.go`): `wsReadFrame` and `wsWriteFrame`.

  The reader's stream is the list of the bytes it still has to give; its end is an error, as
  a declared length over the limit is. What is written is the list of the bytes. A `Frame` is
  an opcode of four bits and a payload within the limit; a `Wire` frame is one as the bridge
  writes it, or as a client does: with any bits above the opcode, in any encoding of the
  length, masked or not. Masking is stated octet by octet (`octets`), apart from the reader's
  `mask`.

  Proved (`frames_read`): a frame is read back, and nothing after it; so are any frames in a
  row; and a longer declared length is refused whatever follows it.
-/

import Be300.Lib.Ends
import Be300.Lib.Slices

namespace Be300.NetBridge.WebSocket

open Lib.Slices (be num num_be_of_lt be_length)
open Lib (at' Ends Allows ends_ok ends_error ends_pure ends_bind ends_ite ends_mono allows_iff)

/-! ## The source's functions -/

def maxWSFrame : Nat := 4096

inductive ReadError where
  | eof
  | tooLarge
  deriving DecidableEq

/-- `io.ReadFull` of `n` bytes, and what is left. -/
def readFull (n : Nat) (r : List UInt8) : Except ReadError (List UInt8 × List UInt8) :=
  if n ≤ r.length then .ok (r.take n, r.drop n) else .error .eof

def readByte : List UInt8 → Except ReadError (UInt8 × List UInt8)
  | [] => .error .eof
  | b :: r => .ok (b, r)

/-- The length, of which `length` is what the second byte says. -/
def readLength (length : Nat) (r : List UInt8) : Except ReadError (Nat × List UInt8) := do
  if length = 126 then
    let (ext, r) ← readFull 2 r
    return (num ext, r)
  else if length = 127 then
    let (ext, r) ← readFull 8 r
    if num ext > maxWSFrame then .error .tooLarge else return (num ext, r)
  else return (length, r)

def mask (key payload : List UInt8) : List UInt8 := payload.mapIdx fun i b => b ^^^ at' key (i % 4)

def readPayload (masked : Bool) (length : Nat) (r : List UInt8) : Except ReadError (List UInt8 × List UInt8) := do
  if masked then
    let (key, r) ← readFull 4 r
    let (payload, r) ← readFull length r
    return (mask key payload, r)
  else readFull length r

/-- The opcode, the payload, and what the stream has after the frame. -/
def wsReadFrame (r : List UInt8) : Except ReadError (UInt8 × List UInt8 × List UInt8) := do
  let (h, r) ← readByte r
  let (b, r) ← readByte r
  let (length, r) ← readLength (b &&& 0x7f).toNat r
  if length > maxWSFrame then .error .tooLarge
  else
    let (payload, r) ← readPayload (b &&& 0x80 != 0) length r
    return (h &&& 0x0f, payload, r)

def wsWriteFrame (opcode : UInt8) (payload : List UInt8) : List UInt8 :=
  if payload.length < 126 then [0x80 ||| opcode, UInt8.ofNat payload.length] ++ payload
  else [0x80 ||| opcode, 126] ++ be 2 (UInt16.ofNat payload.length).toNat ++ payload

/-! ## Frames -/

structure Frame where
  opcode : UInt8
  payload : List UInt8
  nibble : opcode < 16
  fits : payload.length ≤ maxWSFrame

/-- The encodings of a length, by what the low bits of the second byte are. -/
inductive Encoding where
  | byte
  | two
  | eight

namespace Encoding

def Allows (n : Nat) : Encoding → Prop
  | byte => n < 126
  | two => n < 2 ^ 16
  | eight => n < 2 ^ 64

def maskBit (masked : Bool) : UInt8 := if masked then 0x80 else 0

def bytes (masked : Bool) (n : Nat) : Encoding → List UInt8
  | byte => [maskBit masked ||| UInt8.ofNat n]
  | two => (maskBit masked ||| 126) :: be 2 n
  | eight => (maskBit masked ||| 127) :: be 8 n

end Encoding

/-- How a client sends a frame: the bits above the opcode, the key and the encoding. -/
structure Client where
  bits : UInt8
  key : Option { key : List UInt8 // key.length = 4 }
  encoding : Encoding

/-- Octet `i` of a payload is sent as its exclusive or with octet `i` mod 4 of the key. -/
def octets (key : { key : List UInt8 // key.length = 4 }) (payload : List UInt8) : List UInt8 :=
  List.ofFn fun i : Fin payload.length => payload.get i ^^^ key.1.get ⟨i.1 % 4, by rw [key.2]; exact Nat.mod_lt _ (by decide)⟩

namespace Client

/-- A frame's bytes up to its key, for a declared length of `n`. -/
def head (c : Client) (opcode : UInt8) (n : Nat) : List UInt8 :=
  ((c.bits &&& 0xf0) ||| opcode) :: c.encoding.bytes c.key.isSome n

def masked (c : Client) (payload : List UInt8) : List UInt8 :=
  match c.key with
  | some key => key.1 ++ octets key payload
  | none => payload

end Client

inductive Wire where
  | server (f : Frame)
  | client (f : Frame) (c : Client) (h : c.encoding.Allows f.payload.length)

namespace Wire

def frame : Wire → Frame
  | server f => f
  | client f _ _ => f

def bytes : Wire → List UInt8
  | server f => wsWriteFrame f.opcode f.payload
  | client f c _ => c.head f.opcode f.payload.length ++ c.masked f.payload

end Wire

/-! ## One frame -/

theorem readFull_append (l r : List UInt8) : readFull l.length (l ++ r) = .ok (l, r) := by simp [readFull]

@[simp] theorem octets_length (key : { key : List UInt8 // key.length = 4 }) (payload : List UInt8) :
    (octets key payload).length = payload.length := by simp [octets]

/-- The reader takes the key off again. -/
theorem mask_octets (key : { key : List UInt8 // key.length = 4 }) (payload : List UInt8) :
    mask key.1 (octets key payload) = payload := by
  apply List.ext_getElem
  · simp [mask]
  · intro i h1 h2
    have hkey : i % 4 < key.1.length := by
      rw [key.2]
      exact Nat.mod_lt i (by decide)
    have hat : at' key.1 (i % 4) = key.1[i % 4] := by
      rw [at', List.getD_eq_getElem?_getD, List.getElem?_eq_getElem hkey]
      rfl
    simp only [mask, octets, List.getElem_mapIdx, List.getElem_ofFn, List.get_eq_getElem, hat]
    rw [UInt8.xor_assoc, UInt8.xor_self, UInt8.xor_zero]

theorem opcode_read (bits : UInt8) {opcode : UInt8} (h : opcode < 16) : ((bits &&& 0xf0) ||| opcode) &&& 0x0f = opcode := by
  have hlt : opcode.toNat < 16 := h
  apply UInt8.toNat_inj.mp
  simp only [UInt8.toNat_and, UInt8.toNat_or]
  rw [Nat.and_or_distrib_right, Nat.and_assoc]
  show bits.toNat &&& 0 ||| opcode.toNat &&& 15 = opcode.toNat
  rw [Nat.and_zero, Nat.zero_or, Nat.and_two_pow_sub_one_eq_mod opcode.toNat 4, Nat.mod_eq_of_lt hlt]

theorem second_byte (masked : Bool) (n : Fin 128) : ((Encoding.maskBit masked ||| UInt8.ofNat n) &&& 0x7f).toNat = n ∧
    ((Encoding.maskBit masked ||| UInt8.ofNat n) &&& 0x80 != 0) = masked := by
  revert masked n
  decide

/-- A length is read as it was encoded, or is refused already. -/
theorem length_read {e : Encoding} {n : Nat} (h : e.Allows n) (masked : Bool) (r : List UInt8) :
    ∃ b ext, e.bytes masked n = b :: ext ∧ (b &&& 0x80 != 0) = masked ∧
      (readLength (b &&& 0x7f).toNat (ext ++ r) = .ok (n, r) ∨
        n > maxWSFrame ∧ readLength (b &&& 0x7f).toNat (ext ++ r) = .error .tooLarge) := by
  cases e with
  | byte =>
    have hlt : n < 126 := h
    obtain ⟨hlength, hmasked⟩ := second_byte masked ⟨n, by omega⟩
    refine ⟨_, [], rfl, hmasked, .inl ?_⟩
    rw [hlength, readLength, if_neg (by simp; omega), if_neg (by simp; omega)]
    rfl
  | two =>
    obtain ⟨hlength, hmasked⟩ := second_byte masked 126
    refine ⟨_, be 2 n, rfl, hmasked, .inl ?_⟩
    have hread := readFull_append (be 2 n) r
    rw [be_length] at hread
    have hnum : num (be 2 n) = n := num_be_of_lt h
    have hlength' : ((Encoding.maskBit masked ||| 126) &&& 0x7f).toNat = 126 := hlength
    simp [hlength', readLength, hread, hnum, bind, Except.bind, pure, Except.pure]
  | eight =>
    obtain ⟨hlength, hmasked⟩ := second_byte masked 127
    refine ⟨_, be 8 n, rfl, hmasked, ?_⟩
    have hread := readFull_append (be 8 n) r
    rw [be_length] at hread
    have hnum : num (be 8 n) = n := num_be_of_lt h
    have hlength' : ((Encoding.maskBit masked ||| 127) &&& 0x7f).toNat = 127 := hlength
    by_cases hlarge : n > maxWSFrame
    · right
      refine ⟨hlarge, ?_⟩
      simp [hlength', readLength, hread, hnum, hlarge, bind, Except.bind]
    · left
      simp [hlength', readLength, hread, hnum, hlarge, bind, Except.bind, pure, Except.pure]

theorem head_read (first : UInt8) {e : Encoding} {n : Nat} (h : e.Allows n) (masked : Bool) (r : List UInt8) :
    wsReadFrame (first :: (e.bytes masked n ++ r)) =
      if n > maxWSFrame then .error .tooLarge
      else do
        let (payload, r) ← readPayload masked n r
        return (first &&& 0x0f, payload, r) := by
  obtain ⟨b, ext, hbytes, hmasked, hlength⟩ := length_read h masked r
  rw [hbytes]
  rcases hlength with hlength | ⟨hlarge, hlength⟩
  · simp only [wsReadFrame, readByte, List.cons_append, bind, Except.bind, hlength, hmasked]
  · simp only [wsReadFrame, readByte, List.cons_append, bind, Except.bind, hlength, if_pos hlarge]

/-- A declared length over the limit is refused, whatever follows. -/
theorem large_refused (c : Client) (opcode : UInt8) {n : Nat} (h : c.encoding.Allows n) (hn : maxWSFrame < n) (r : List UInt8) :
    wsReadFrame (c.head opcode n ++ r) = .error .tooLarge := by
  have hread := head_read ((c.bits &&& 0xf0) ||| opcode) h c.key.isSome r
  rw [if_pos hn] at hread
  exact hread

theorem payload_read (c : Client) (payload r : List UInt8) :
    readPayload c.key.isSome payload.length (c.masked payload ++ r) = .ok (payload, r) := by
  obtain ⟨bits, key, e⟩ := c
  cases key with
  | none => exact readFull_append payload r
  | some key =>
    have hkey := readFull_append key.1 (octets key payload ++ r)
    have hpayload := readFull_append (octets key payload) r
    rw [key.2] at hkey
    rw [octets_length] at hpayload
    simp [readPayload, Client.masked, hkey, hpayload, mask_octets, bind, Except.bind, pure, Except.pure]

theorem client_read (f : Frame) (c : Client) (h : c.encoding.Allows f.payload.length) (r : List UInt8) :
    wsReadFrame (c.head f.opcode f.payload.length ++ c.masked f.payload ++ r) = .ok (f.opcode, f.payload, r) := by
  have hread := head_read ((c.bits &&& 0xf0) ||| f.opcode) h c.key.isSome (c.masked f.payload ++ r)
  have hfits := f.fits
  rw [if_neg (by omega), payload_read, opcode_read c.bits f.nibble] at hread
  rw [List.append_assoc]
  exact hread

/-- What the bridge writes, a client could have sent unmasked. -/
theorem wsWriteFrame_eq (f : Frame) : ∃ e : Encoding, e.Allows f.payload.length ∧
    wsWriteFrame f.opcode f.payload = (Client.mk 0x80 none e).head f.opcode f.payload.length ++ f.payload := by
  have hfits : f.payload.length ≤ 4096 := f.fits
  by_cases hshort : f.payload.length < 126
  · refine ⟨.byte, hshort, ?_⟩
    rw [wsWriteFrame, if_pos hshort]
    simp [Client.head, Encoding.bytes, Encoding.maskBit, show (128 : UInt8) &&& 240 = 128 by decide]
  · refine ⟨.two, show f.payload.length < 2 ^ 16 by omega, ?_⟩
    have hlength : (UInt16.ofNat f.payload.length).toNat = f.payload.length := by
      rw [UInt16.toNat_ofNat']
      omega
    rw [wsWriteFrame, if_neg hshort, hlength]
    simp [Client.head, Encoding.bytes, Encoding.maskBit, show (128 : UInt8) &&& 240 = 128 by decide]

theorem wire_read (w : Wire) (r : List UInt8) : wsReadFrame (w.bytes ++ r) = .ok (w.frame.opcode, w.frame.payload, r) := by
  cases w with
  | client f c h => exact client_read f c h r
  | server f =>
    obtain ⟨e, he, hbytes⟩ := wsWriteFrame_eq f
    rw [Wire.bytes, hbytes]
    exact client_read f ⟨0x80, none, e⟩ he r

/-! ## A stream of frames -/

theorem readFull_rest (n : Nat) (r : List UInt8) : Allows (fun x => x.2.length ≤ r.length) (readFull n r) := by
  unfold readFull
  apply ends_ite
  · intro h
    apply ends_ok
    simp
  · intro h
    exact ends_error trivial

theorem readLength_rest (length : Nat) (r : List UInt8) : Allows (fun x => x.2.length ≤ r.length) (readLength length r) := by
  unfold readLength
  apply ends_ite
  · intro h
    apply ends_bind (readFull_rest 2 r)
    intro x hx
    exact ends_pure hx
  · intro h
    apply ends_ite
    · intro h
      apply ends_bind (readFull_rest 8 r)
      intro x hx
      apply ends_ite
      · intro hlarge
        exact ends_error trivial
      · intro hlarge
        exact ends_pure hx
    · intro h
      exact ends_pure (Nat.le_refl _)

theorem readPayload_rest (masked : Bool) (length : Nat) (r : List UInt8) :
    Allows (fun x => x.2.length ≤ r.length) (readPayload masked length r) := by
  unfold readPayload
  apply ends_ite
  · intro h
    apply ends_bind (readFull_rest 4 r)
    intro x hx
    apply ends_bind (readFull_rest length x.2)
    intro y hy
    exact ends_pure (Nat.le_trans hy hx)
  · intro h
    exact readFull_rest length r

/-- A frame takes at least a byte. -/
theorem wsReadFrame_rest (r : List UInt8) : Allows (fun x => x.2.2.length < r.length) (wsReadFrame r) := by
  rcases r with _ | ⟨h, _ | ⟨b, r⟩⟩
  · exact ends_error trivial
  · exact ends_error trivial
  · apply ends_bind (readLength_rest (b &&& 0x7f).toNat r)
    intro x hx
    apply ends_ite
    · intro hlarge
      exact ends_error trivial
    · intro hlarge
      apply ends_bind (readPayload_rest (b &&& 0x80 != 0) x.1 x.2)
      intro y hy
      apply ends_pure
      simp only [List.length_cons]
      omega

/-- The frames of a stream, up to the error it ends with. -/
def readFrames (r : List UInt8) : List (UInt8 × List UInt8) × ReadError :=
  match _h : wsReadFrame r with
  | .error e => ([], e)
  | .ok (opcode, payload, rest) => ((opcode, payload) :: (readFrames rest).1, (readFrames rest).2)
termination_by r.length
decreasing_by all_goals exact allows_iff.mp (wsReadFrame_rest r) _ _h

theorem readFrames_ok {r rest payload : List UInt8} {opcode : UInt8} (h : wsReadFrame r = .ok (opcode, payload, rest)) :
    readFrames r = ((opcode, payload) :: (readFrames rest).1, (readFrames rest).2) := by
  rw [readFrames]
  split
  · rename_i e he
    rw [h] at he
    cases he
  · rename_i o p r' hr
    rw [h] at hr
    cases hr
    rfl

theorem readFrames_error {r : List UInt8} {e : ReadError} (h : wsReadFrame r = .error e) : readFrames r = ([], e) := by
  rw [readFrames]
  split
  · rename_i e' he
    rw [h] at he
    cases he
    rfl
  · rename_i o p r' hr
    rw [h] at hr
    cases hr

/-- What the bridge wrote and what a client sent is read as the frames it was made of, each
    without the bytes after it, and reading stops at a frame that is too large. -/
theorem frames_read (ws : List Wire) (rest : List UInt8) :
    (∀ w : Wire, wsReadFrame (w.bytes ++ rest) = .ok (w.frame.opcode, w.frame.payload, rest)) ∧
    readFrames (ws.flatMap Wire.bytes ++ rest) =
      (ws.map (fun w => (w.frame.opcode, w.frame.payload)) ++ (readFrames rest).1, (readFrames rest).2) ∧
    ∀ (c : Client) (opcode : UInt8) (n : Nat), c.encoding.Allows n → maxWSFrame < n →
      readFrames (ws.flatMap Wire.bytes ++ (c.head opcode n ++ rest)) =
        (ws.map (fun w => (w.frame.opcode, w.frame.payload)), .tooLarge) := by
  have hrun : ∀ rest, readFrames (ws.flatMap Wire.bytes ++ rest) =
      (ws.map (fun w => (w.frame.opcode, w.frame.payload)) ++ (readFrames rest).1, (readFrames rest).2) := by
    intro rest
    induction ws with
    | nil => rfl
    | cons w ws ih =>
      rw [List.flatMap_cons, List.append_assoc, readFrames_ok (wire_read w _), ih]
      rfl
  refine ⟨?_, hrun rest, ?_⟩
  · intro w
    exact wire_read w rest
  · intro c opcode n hn hlarge
    rw [hrun, readFrames_error (large_refused c opcode hn hlarge rest), List.append_nil]

/-- A ping of two bytes, a client's text under a key, then a declared length of 4097. -/
theorem frames_read_ping :
    readFrames (wsWriteFrame 0x9 [1, 2] ++ [0x81, 0x85, 1, 2, 3, 4, 0x49, 0x67, 0x6f, 0x68, 0x6e] ++
      [0x82, 0x7f, 0, 0, 0, 0, 0, 0, 0x10, 1]) =
      ([(0x9, [1, 2]), (0x1, [0x48, 0x65, 0x6c, 0x6c, 0x6f])], .tooLarge) := by
  have hread :=
    (frames_read [.server ⟨0x9, [1, 2], by decide, by decide⟩, .client ⟨0x1, [0x48, 0x65, 0x6c, 0x6c, 0x6f], by decide, by decide⟩
    ⟨0x80, some ⟨[1, 2, 3, 4], rfl⟩, .byte⟩ (show 5 < 126 by decide)] []).2.2 ⟨0x80, none, .eight⟩ 0x2 4097
      (show 4097 < 2 ^ 64 by decide) (by decide)
  have hoctets : octets ⟨[1, 2, 3, 4], rfl⟩ [0x48, 0x65, 0x6c, 0x6c, 0x6f] = [0x49, 0x67, 0x6f, 0x68, 0x6e] := by decide
  simp only [List.flatMap_cons, List.flatMap_nil, Wire.bytes, Client.masked, hoctets] at hread
  exact hread

end Be300.NetBridge.WebSocket
