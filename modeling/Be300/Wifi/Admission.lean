/-
  Be300.Wifi.Admission — what a station has done before its traffic passes.

  The calls may come in any order, with any frames, keys and outcomes of the random source
  (`Call`). A history is the list of calls, each with the state it met (`history`). The
  conditions on it are nested `Since`s: a start, then a message 2 accepted, then a message
  4, then in mode 2 a group reply, and no later start, reset or configuration.

  `Inv` says for each stage what lies behind it and for each of the key flags which key was
  supplied (`inv_history`). `admission` reads off it what an accepted frame needs, and
  `ptk_stays` that the PTK of an accepted message 2 is the current one. A TKIP station
  presents its keys with the two Michael halves exchanged, so the keys supplied are not the
  PTK's and GTK's bytes (`tkip_key_exchanged`).
-/

import Mathlib.Data.List.Induction
import Be300.Lib.Since
import Be300.Wifi.Security

namespace Be300.Wifi

open Be300.Lib (Since)

inductive Call where
  | configure (mode : Nat) (key : Option (List UInt8))
  | start (anonce gtk : Option (List UInt8))
  | tx (frame : List UInt8) (iv : Option (List UInt8)) (ctx : Bool)
  | pop (n : Nat)
  | key (pairwise : Bool) (cipher : Nat) (key : List UInt8)
  | rekey (gtk iv : Option (List UInt8)) (ctx : Bool)
  | reset
  deriving DecidableEq

def step (c : Crypto) (s : Security) : Call → Security
  | .configure mode key => (configure c s mode key).1
  | .start anonce gtk => start c s anonce gtk
  | .tx frame iv ctx => (tx c s frame iv ctx).1
  | .pop n => (pop s n).1
  | .key pairwise cipher key => (Wifi.key s pairwise cipher key).1
  | .rekey gtk iv ctx => (rekey c s gtk iv ctx).1
  | .reset => reset s

def run (c : Crypto) (s : Security) (calls : List Call) : Security := calls.foldl (step c) s

/-- A call and the state it was made in. -/
structure Event where
  state : Security
  call : Call

def history (c : Crypto) (s : Security) : List Call → List Event
  | [] => []
  | x :: calls => ⟨s, x⟩ :: history c (step c s x) calls

/-! ## Conditions on a history -/

def Quiet (e : Event) : Prop :=
  match e.call with
  | .configure .. | .start .. | .reset => False
  | _ => True

def Started (e : Event) : Prop := ∃ anonce gtk, e.call = .start anonce gtk

/-- A message 2 with replay counter `r` is accepted, and `ptk` is the key of its nonce. -/
def Message2 (c : Crypto) (r : UInt64) (ptk : List UInt8) (e : Event) : Prop :=
  ∃ frame iv ctx, e.call = .tx frame iv ctx ∧ wellFormed e.state frame = true ∧
    keyReplay (frame.drop 14) = r ∧ e.state.replay = r ∧ keyInfo (frame.drop 14) &&& 8 ≠ 0 ∧
    pairwiseKey c e.state (snonce (frame.drop 14)) = (ptk, true) ∧
    micValid c { e.state with ptk } (frame.drop 14) = true ∧
    e.state.stage = 1 ∧ (step c e.state e.call).stage = 2

/-- A message 4 with replay counter `r` and a MIC valid under `ptk`. -/
def Message4 (c : Crypto) (r : UInt64) (ptk : List UInt8) (e : Event) : Prop :=
  ∃ frame iv ctx, e.call = .tx frame iv ctx ∧ wellFormed e.state frame = true ∧
    keyReplay (frame.drop 14) = r ∧ e.state.replay = r ∧ keyInfo (frame.drop 14) &&& 8 ≠ 0 ∧ dataLength (frame.drop 14) = 0 ∧
    micValid c { e.state with ptk } (frame.drop 14) = true

/-- A group reply with the current replay counter and a MIC valid under `ptk`. -/
def GroupReply (c : Crypto) (ptk : List UInt8) (e : Event) : Prop :=
  ∃ frame iv ctx, e.call = .tx frame iv ctx ∧ wellFormed e.state frame = true ∧
    keyReplay (frame.drop 14) = e.state.replay ∧ keyInfo (frame.drop 14) &&& 8 = 0 ∧
    micValid c { e.state with ptk } (frame.drop 14) = true

def Confirmed2 (c : Crypto) (r : UInt64) (ptk : List UInt8) : List Event → Prop :=
  Since (fun before e => Message2 c r ptk e ∧ Since (fun _ e => Started e) Quiet before) Quiet

def Confirmed4 (c : Crypto) (ptk : List UInt8) : List Event → Prop :=
  Since (fun before e => ∃ r, Message4 c (r + 1) ptk e ∧ Confirmed2 c r ptk before) Quiet

def ConfirmedGroup (c : Crypto) (ptk : List UInt8) : List Event → Prop :=
  Since (fun before e => GroupReply c ptk e ∧ Confirmed4 c ptk before) Quiet

/-- The station supplies the key `target`. -/
def Supplies (pairwise : Bool) (target : List UInt8) (e : Event) : Prop := ∃ cipher, e.call = .key pairwise cipher target

/-- Neither a new start nor the withdrawal of the key. -/
def Holds (pairwise : Bool) (e : Event) : Prop := Quiet e ∧ ∀ cipher, e.call ≠ .key pairwise cipher []

/-- The temporal key in `bytes`. -/
def temporalKey (mode : Nat) (bytes : List UInt8) : List UInt8 := bytes.take (if mode = 3 then 16 else 32)

/-- A temporal key as a station presents it: in TKIP with the Michael halves exchanged. -/
def stationKey (mode : Nat) (bytes : List UInt8) : List UInt8 :=
  if mode = 3 then bytes.take 16 else bytes.take 16 ++ (bytes.drop 24).take 8 ++ (bytes.drop 16).take 8

/-- What must lie behind accepted traffic; `form` gives the bytes of a key from those of the
    PTK's or GTK's. -/
structure Admitted (form : Nat → List UInt8 → List UInt8) (c : Crypto) (s : Security) (l : List Event) : Prop where
  message4 : Confirmed4 c s.ptk l
  group : s.mode = 2 → ConfirmedGroup c s.ptk l
  pairwise : Since (fun _ => Supplies true (form s.mode (s.ptk.drop 32))) (Holds true) l
  groupKey : Since (fun _ => Supplies false (form s.mode s.gtk)) (Holds false) l

/-! ## What the calls change -/

section Changes

variable {c : Crypto} {s : Security}

theorem build_changes (c : Crypto) (s : Security) (info : Nat) (key : List UInt8) :
    ∃ pending pendingLen, (build c s info key).1 = { s with pending, pendingLen } := by
  unfold build
  simp only
  split
  · split
    · exact ⟨_, _, rfl⟩
    · exact ⟨_, s.pendingLen, rfl⟩
  · exact ⟨_, _, rfl⟩

theorem message3_changes (c : Crypto) (s : Security) (ctx : Bool) :
    ∃ pending pendingLen, (message3 c s ctx).1 = { s with replay := s.replay + 1, pending, pendingLen } := by
  unfold message3
  simp only
  split
  · exact build_changes c _ _ _
  · split
    · exact ⟨s.pending, s.pendingLen, rfl⟩
    · split
      · exact ⟨s.pending, s.pendingLen, rfl⟩
      · exact build_changes c _ _ _

theorem group1_changes (c : Crypto) (s : Security) (iv : Option (List UInt8)) :
    ∃ replay pending pendingLen, (group1 c s iv).1 = { s with replay, pending, pendingLen } := by
  unfold group1
  cases iv with
  | none => exact ⟨s.replay, s.pending, s.pendingLen, rfl⟩
  | some iv =>
    obtain ⟨pending, pendingLen, hbuild⟩ := build_changes c { s with replay := s.replay + 1 } 0x0391
      (c.rc4 (iv ++ (s.ptk.drop 16).take 16) (s.gtk.take 32))
    simp only
    split
    · exact ⟨_, _, _, hbuild⟩
    · rw [hbuild]
      exact ⟨_, _, _, rfl⟩

/-- What a frame can do to the state. -/
inductive TxCases (c : Crypto) (s : Security) (frame : List UInt8) : Security → Prop
  | same : TxCases c s frame s
  | early (ptk : List UInt8) (replay : UInt64) (pending : List UInt8) (pendingLen : Nat) (hstage : s.stage = 1) :
      TxCases c s frame { s with ptk, replay, pending, pendingLen }
  | message2 (ptk pending : List UInt8) (pendingLen : Nat) (hstage : s.stage = 1) (hform : wellFormed s frame = true)
      (hreplay : keyReplay (frame.drop 14) = s.replay) (hinfo : keyInfo (frame.drop 14) &&& 8 ≠ 0)
      (hkey : pairwiseKey c s (snonce (frame.drop 14)) = (ptk, true))
      (hmic : micValid c { s with ptk } (frame.drop 14) = true) :
      TxCases c s frame { s with ptk, replay := s.replay + 1, pending, pendingLen, stage := 2 }
  | message4 (hstage : s.stage = 2) (hmode : s.mode = 3) (hform : wellFormed s frame = true)
      (hreplay : keyReplay (frame.drop 14) = s.replay) (hinfo : keyInfo (frame.drop 14) &&& 8 ≠ 0)
      (hdata : dataLength (frame.drop 14) = 0) (hmic : micValid c s (frame.drop 14) = true) :
      TxCases c s frame { s with stage := 4, authorized := true }
  | tkip4 (stage : Nat) (replay : UInt64) (pending : List UInt8) (pendingLen : Nat) (hnext : stage = 2 ∨ stage = 3)
      (hstage : s.stage = 2) (hmode : s.mode ≠ 3) (hform : wellFormed s frame = true)
      (hreplay : keyReplay (frame.drop 14) = s.replay) (hinfo : keyInfo (frame.drop 14) &&& 8 ≠ 0)
      (hdata : dataLength (frame.drop 14) = 0) (hmic : micValid c s (frame.drop 14) = true) :
      TxCases c s frame { s with stage, replay, pending, pendingLen }
  | groupReply (hstage : s.stage = 3) (hform : wellFormed s frame = true)
      (hreplay : keyReplay (frame.drop 14) = s.replay) (hinfo : keyInfo (frame.drop 14) &&& 8 = 0)
      (hmic : micValid c s (frame.drop 14) = true) :
      TxCases c s frame { s with stage := 4, authorized := true }

theorem verify_cases (h1 : s.stage ≠ 1) {frame : List UInt8} (hform : wellFormed s frame = true)
    (hreplay : keyReplay (frame.drop 14) = s.replay) (iv : Option (List UInt8)) (ctx : Bool) :
    TxCases c s frame (verify c s (frame.drop 14) iv ctx) := by
  unfold verify advance
  split
  case isFalse => exact .same
  rename_i hmic
  rw [if_neg (fun h => h1 h.1)]
  split
  · rename_i h2
    obtain ⟨h2, hinfo, hdata⟩ := h2
    split
    · rename_i h3
      exact .message4 h2 h3 hform hreplay hinfo hdata hmic
    · rename_i h3
      obtain ⟨replay, pending, pendingLen, hgroup⟩ := group1_changes c s iv
      simp only [hgroup]
      split
      · exact .tkip4 3 replay pending pendingLen (Or.inr rfl) h2 h3 hform hreplay hinfo hdata hmic
      · exact .tkip4 s.stage replay pending pendingLen (Or.inl h2) h2 h3 hform hreplay hinfo hdata hmic
  · split
    · rename_i h3
      exact .groupReply h3.1 hform hreplay h3.2 hmic
    · exact .same

/-- At stage 1, after the derivation. -/
theorem verify_first (h1 : s.stage = 1) {frame ptk : List UInt8} (hform : wellFormed s frame = true)
    (hreplay : keyReplay (frame.drop 14) = s.replay) (hkey : pairwiseKey c s (snonce (frame.drop 14)) = (ptk, true))
    (iv : Option (List UInt8)) (ctx : Bool) : TxCases c s frame (verify c { s with ptk } (frame.drop 14) iv ctx) := by
  unfold verify advance
  split
  case isFalse => exact .early ptk s.replay s.pending s.pendingLen h1
  rename_i hmic
  split
  · rename_i h2
    obtain ⟨pending, pendingLen, hthree⟩ := message3_changes c { s with ptk } ctx
    simp only [hthree]
    split
    · exact .message2 ptk pending pendingLen h1 hform hreplay h2.2 hkey hmic
    · exact .early ptk _ pending pendingLen h1
  · rw [if_neg (fun h => absurd (h1.symm.trans h.1) (by decide)), if_neg (fun h => absurd (h1.symm.trans h.1) (by decide))]
    exact .early ptk s.replay s.pending s.pendingLen h1

theorem tx_cases (c : Crypto) (s : Security) (frame : List UInt8) (iv : Option (List UInt8)) (ctx : Bool) :
    TxCases c s frame (tx c s frame iv ctx).1 := by
  unfold tx
  split
  · exact .same
  split
  · exact .same
  split
  · exact .same
  rename_i hform
  replace hform : wellFormed s frame = true := by simpa using hform
  split
  · exact .same
  rename_i hreplay
  replace hreplay : keyReplay (frame.drop 14) = s.replay := Decidable.not_not.mp hreplay
  by_cases h1 : s.stage = 1
  · rw [if_pos h1]
    unfold derive
    generalize hkey : pairwiseKey c s (snonce (frame.drop 14)) = r
    rcases r with ⟨ptk, _ | _⟩
    · exact .early _ s.replay s.pending s.pendingLen h1
    · exact verify_first h1 hform hreplay hkey iv ctx
  · rw [if_neg h1]
    exact verify_cases h1 hform hreplay iv ctx

theorem rekey_cases (c : Crypto) (s : Security) (gtk iv : Option (List UInt8)) (ctx : Bool) :
    (rekey c s gtk iv ctx).1 = s ∨ s.stage = 4 ∧ ∃ fresh replay pending pendingLen,
      (rekey c s gtk iv ctx).1 = { s with gtk := fresh, group := false, stage := 3, replay, pending, pendingLen } := by
  unfold rekey
  by_cases h4 : s.stage = 4
  · rw [if_neg (not_not_intro h4)]
    cases gtk with
    | none => exact Or.inl rfl
    | some fresh =>
      refine Or.inr ⟨h4, fresh, ?_⟩
      simp only
      split
      · exact group1_changes c _ iv
      · split
        · exact ⟨s.replay, s.pending, s.pendingLen, rfl⟩
        · split
          · exact ⟨_, s.pending, s.pendingLen, rfl⟩
          · exact ⟨_, build_changes c _ _ _⟩
  · rw [if_pos h4]
    exact Or.inl rfl

theorem key_cases (s : Security) (pairwise : Bool) (cipher : Nat) (key : List UInt8) :
    key ≠ [] ∧ (Wifi.key s pairwise cipher key).1 = s ∨
      key = [] ∧ (Wifi.key s pairwise cipher key).1 =
        (if pairwise then { s with pairwise := false } else { s with group := false }) ∨
      2 ≤ s.stage ∧ key = stationKey s.mode (if pairwise then s.ptk.drop 32 else s.gtk) ∧
        (Wifi.key s pairwise cipher key).1 = (if pairwise then { s with pairwise := true } else { s with group := true }) := by
  unfold Wifi.key
  by_cases h0 : key.length = 0
  · rw [if_pos h0]
    exact Or.inr (Or.inl ⟨List.length_eq_zero_iff.mp h0, rfl⟩)
  have hne : key ≠ [] := fun h => h0 (by rw [h]; rfl)
  rw [if_neg h0]
  by_cases h2 : s.stage < 2
  · rw [if_pos h2]
    exact Or.inl ⟨hne, rfl⟩
  rw [if_neg h2]
  by_cases hform : key.length ≠ (if s.mode = 3 then 16 else 32) ∨ cipher ≠ (if s.mode = 3 then 2 else 1)
  · rw [if_pos hform]
    exact Or.inl ⟨hne, rfl⟩
  rw [if_neg hform]
  by_cases htarget : keyTarget s pairwise cipher key.length ≠ key
  · rw [if_pos htarget]
    exact Or.inl ⟨hne, rfl⟩
  rw [if_neg htarget]
  refine Or.inr (Or.inr ⟨by omega, ?_, rfl⟩)
  rw [not_or, Decidable.not_not, Decidable.not_not] at hform
  rw [← Decidable.not_not.mp htarget]
  unfold keyTarget stationKey
  by_cases h3 : s.mode = 3
  · simp only [h3, if_true] at hform ⊢
    rw [hform.1, hform.2]
    rfl
  · simp only [h3, if_false] at hform ⊢
    rw [hform.1, hform.2, if_pos rfl, List.take_take]
    rfl

/-- The end of `wifi_security_start`: message 1 is built, or not. -/
theorem message1_cases (c : Crypto) (s : Security) (info : Nat) :
    let r := build c s info []
    let s' := if r.2 then { r.1 with stage := 1 } else r.1
    s'.mode = s.mode ∧ s'.valid = s.valid ∧ s'.pairwise = s.pairwise ∧ s'.group = s.group ∧ s'.authorized = s.authorized ∧
      (s'.stage = s.stage ∨ s'.stage = 1) := by
  obtain ⟨pending, pendingLen, hbuild⟩ := build_changes c s info []
  simp only [hbuild]
  split
  · exact ⟨rfl, rfl, rfl, rfl, rfl, Or.inr rfl⟩
  · exact ⟨rfl, rfl, rfl, rfl, rfl, Or.inl rfl⟩

theorem start_cases (c : Crypto) (s : Security) (anonce gtk : Option (List UInt8)) :
    let s' := start c s anonce gtk
    s'.mode = s.mode ∧ s'.valid = s.valid ∧ s'.pairwise = false ∧ s'.group = false ∧
      (s'.stage = 0 ∧ (s.mode < 2 ∨ s'.authorized = false) ∨
        s'.stage = 1 ∧ s.valid = true ∧ 2 ≤ s.mode ∧ s'.authorized = false) := by
  unfold start
  by_cases hvalid : s.valid = true
  · by_cases hmode : s.mode < 2
    · simp [reset, hvalid, hmode]
    · cases anonce with
      | none => simp [reset, hvalid, hmode]
      | some anonce =>
        cases gtk with
        | none => simp [reset, hvalid, hmode]
        | some gtk =>
          obtain ⟨h1, h2, h3, h4, h5, h6⟩ :=
            message1_cases c { reset s with anonce, gtk, replay := 1 } (if s.mode = 3 then 0x008a else 0x0089)
          have hv : (!(reset s).valid) ≠ true := by simp [reset, hvalid]
          have hm : ¬ (reset s).mode < 2 := hmode
          simp only
          rw [if_neg hv, if_neg hm]
          refine ⟨h1, h2, h3, h4, ?_⟩
          rcases h6 with h6 | h6
          · exact Or.inl ⟨h6, Or.inr h5⟩
          · exact Or.inr ⟨h6, hvalid, by omega, h5⟩
  · simp [reset, hvalid]

theorem configure_cases (c : Crypto) (s : Security) (mode : Nat) (key : Option (List UInt8)) :
    let s' := (configure c s mode key).1
    s'.stage = 0 ∧ s'.authorized = false ∧ s'.pairwise = false ∧ s'.group = false ∧ (s'.valid = true → s'.mode ≤ 3) := by
  unfold configure
  by_cases h3 : mode > 3 ∨ (key.getD []).length > 64
  · simp [reset, h3]
  · have hmode : mode ≤ 3 := by omega
    simp only [h3, if_false]
    repeat' split
    all_goals exact ⟨rfl, rfl, rfl, rfl, fun _ => hmode⟩

end Changes

/-! ## The invariant -/

/-- What lies behind each stage and each flag. -/
structure Inv (c : Crypto) (s : Security) (l : List Event) : Prop where
  valid : s.valid = true → s.mode ≤ 3
  stage : s.stage ≤ 4
  mode : s.stage ≠ 0 → s.mode = 2 ∨ s.mode = 3
  keyless : s.stage ≤ 1 → s.pairwise = false ∧ s.group = false
  unauthorized : s.stage ≤ 2 → 2 ≤ s.mode → s.authorized = false
  one : s.stage = 1 → Since (fun _ e => Started e) Quiet l
  two : s.stage = 2 → ∃ r, Confirmed2 c r s.ptk l ∧ (s.replay = r + 1 ∨ Confirmed4 c s.ptk l)
  four : 3 ≤ s.stage → Confirmed4 c s.ptk l
  group : 3 ≤ s.stage → s.authorized = true → s.mode = 2 → ConfirmedGroup c s.ptk l
  pairwiseKey : s.pairwise = true → Since (fun _ => Supplies true (stationKey s.mode (s.ptk.drop 32))) (Holds true) l
  groupKey : s.group = true → Since (fun _ => Supplies false (stationKey s.mode s.gtk)) (Holds false) l

section Steps

variable {c : Crypto} {s s' : Security} {l : List Event} {e : Event}

/-- A call that leaves the handshake alone, whatever it does to the key flags. -/
theorem Inv.keys (hi : Inv c s l) (hq : Quiet e) (hvalid : s'.valid = s.valid) (hmode : s'.mode = s.mode)
    (hstage : s'.stage = s.stage) (hauth : s'.authorized = s.authorized) (hptk : s'.ptk = s.ptk)
    (hreplay : s'.replay = s.replay) (hkeyless : s'.stage ≤ 1 → s'.pairwise = false ∧ s'.group = false)
    (hpair : s'.pairwise = true →
      Since (fun _ => Supplies true (stationKey s'.mode (s'.ptk.drop 32))) (Holds true) (l ++ [e]))
    (hgroup : s'.group = true → Since (fun _ => Supplies false (stationKey s'.mode s'.gtk)) (Holds false) (l ++ [e])) :
    Inv c s' (l ++ [e]) where
  valid h := by rw [hmode]; exact hi.valid (hvalid ▸ h)
  stage := hstage ▸ hi.stage
  mode h := by rw [hmode]; exact hi.mode (hstage ▸ h)
  keyless := hkeyless
  unauthorized h1 h2 := by rw [hauth]; exact hi.unauthorized (hstage ▸ h1) (hmode ▸ h2)
  one h := (hi.one (hstage ▸ h)).keep hq
  two h := by
    obtain ⟨r, h2, h4⟩ := hi.two (hstage ▸ h)
    rw [hptk, hreplay]
    exact ⟨r, h2.keep hq, h4.imp id fun h4 => h4.keep hq⟩
  four h := by rw [hptk]; exact (hi.four (hstage ▸ h)).keep hq
  group h1 h2 h3 := by rw [hptk]; exact (hi.group (hstage ▸ h1) (hauth ▸ h2) (hmode ▸ h3)).keep hq
  pairwiseKey := hpair
  groupKey := hgroup

/-- A call that supplies no key either, and withdraws only those it says. -/
theorem Inv.keep (hi : Inv c s l) (hq : Quiet e) (hvalid : s'.valid = s.valid) (hmode : s'.mode = s.mode)
    (hstage : s'.stage = s.stage) (hauth : s'.authorized = s.authorized) (hptk : s'.ptk = s.ptk) (hgtk : s'.gtk = s.gtk)
    (hreplay : s'.replay = s.replay) (hpair : s'.pairwise = true → s.pairwise = true ∧ Holds true e)
    (hgroup : s'.group = true → s.group = true ∧ Holds false e) : Inv c s' (l ++ [e]) := by
  refine hi.keys hq hvalid hmode hstage hauth hptk hreplay (fun h => ?_) (fun h => ?_) fun h => ?_
  · obtain ⟨h1, h2⟩ := hi.keyless (hstage ▸ h)
    refine ⟨Bool.eq_false_iff.mpr fun h' => ?_, Bool.eq_false_iff.mpr fun h' => ?_⟩
    · exact absurd ((hpair h').1.symm.trans h1) (by decide)
    · exact absurd ((hgroup h').1.symm.trans h2) (by decide)
  · rw [hmode, hptk]
    exact (hi.pairwiseKey (hpair h).1).keep (hpair h).2
  · rw [hmode, hgtk]
    exact (hi.groupKey (hgroup h).1).keep (hgroup h).2

/-- A state with no handshake behind it. -/
theorem Inv.fresh (hvalid : s.valid = true → s.mode ≤ 3) (hstage : s.stage = 0) (hpair : s.pairwise = false)
    (hgroup : s.group = false) (hauth : 2 ≤ s.mode → s.authorized = false) : Inv c s l where
  valid := hvalid
  stage := by omega
  mode h := absurd hstage h
  keyless _ := ⟨hpair, hgroup⟩
  unauthorized _ := hauth
  one h := by omega
  two h := by omega
  four h := by omega
  group h := by omega
  pairwiseKey h := by simp [hpair] at h
  groupKey h := by simp [hgroup] at h

theorem Inv.start (hi : Inv c s l) (anonce gtk : Option (List UInt8)) :
    Inv c (start c s anonce gtk) (l ++ [⟨s, .start anonce gtk⟩]) := by
  obtain ⟨hmode, hvalid, hpair, hgroup, hstage⟩ := start_cases c s anonce gtk
  have hle : (Wifi.start c s anonce gtk).valid = true → (Wifi.start c s anonce gtk).mode ≤ 3 := by
    rw [hmode, hvalid]
    exact hi.valid
  rcases hstage with ⟨h0, hauth⟩ | ⟨h1, hv, h2, hauth⟩
  · exact Inv.fresh hle h0 hpair hgroup fun h => hauth.resolve_left (by omega)
  · have h3 := hi.valid hv
    exact
      { valid := hle
        stage := by omega
        mode := fun _ => by omega
        keyless := fun _ => ⟨hpair, hgroup⟩
        unauthorized := fun _ _ => hauth
        one := fun _ => Since.now ⟨anonce, gtk, rfl⟩
        two := fun h => by omega
        four := fun h => by omega
        group := fun h => by omega
        pairwiseKey := fun h => by simp [hpair] at h
        groupKey := fun h => by simp [hgroup] at h }

theorem Inv.rekey (hi : Inv c s l) (gtk iv : Option (List UInt8)) (ctx : Bool) :
    Inv c (rekey c s gtk iv ctx).1 (l ++ [⟨s, .rekey gtk iv ctx⟩]) := by
  have hq : Quiet ⟨s, .rekey gtk iv ctx⟩ := trivial
  have hh : ∀ pairwise, Holds pairwise ⟨s, .rekey gtk iv ctx⟩ := fun _ => ⟨trivial, fun _ h => by cases h⟩
  rcases rekey_cases c s gtk iv ctx with h | ⟨h4, fresh, replay, pending, pendingLen, h⟩
  · rw [h]
    exact hi.keep hq rfl rfl rfl rfl rfl rfl rfl (fun hp => ⟨hp, hh true⟩) fun hg => ⟨hg, hh false⟩
  · rw [h]
    exact
      { valid := hi.valid
        stage := by simp
        mode := fun _ => hi.mode (by omega)
        keyless := fun h => by simp at h
        unauthorized := fun h => by simp at h
        one := fun h => by simp at h
        two := fun h => by simp at h
        four := fun _ => (hi.four (by omega)).keep hq
        group := fun _ ha hm => (hi.group (by omega) ha hm).keep hq
        pairwiseKey := fun hp => (hi.pairwiseKey hp).keep (hh true)
        groupKey := fun h => by simp at h }

theorem Inv.key (hi : Inv c s l) (pairwise : Bool) (cipher : Nat) (bytes : List UInt8) :
    Inv c (Wifi.key s pairwise cipher bytes).1 (l ++ [⟨s, .key pairwise cipher bytes⟩]) := by
  -- a call about one key leaves the other in place
  have hother : ∀ which, which ≠ pairwise → Holds which ⟨s, .key pairwise cipher bytes⟩ :=
    fun which hne => ⟨trivial, fun _ h => hne (by cases h; rfl)⟩
  have hsame : bytes ≠ [] → ∀ which, Holds which ⟨s, .key pairwise cipher bytes⟩ :=
    fun hne _ => ⟨trivial, fun _ h => hne (by cases h; rfl)⟩
  rcases key_cases s pairwise cipher bytes with ⟨hne, h⟩ | ⟨rfl, h⟩ | ⟨h2, hkey, h⟩
  · rw [h]
    exact hi.keep trivial rfl rfl rfl rfl rfl rfl rfl (fun hp => ⟨hp, hsame hne true⟩) fun hg => ⟨hg, hsame hne false⟩
  · rw [h]
    cases pairwise with
    | true =>
      exact hi.keep trivial rfl rfl rfl rfl rfl rfl rfl (fun hp => by simp at hp) fun hg => ⟨hg, hother false (by decide)⟩
    | false =>
      exact hi.keep trivial rfl rfl rfl rfl rfl rfl rfl (fun hp => ⟨hp, hother true (by decide)⟩) fun hg => by simp at hg
  · rw [h]
    cases pairwise with
    | true =>
      refine hi.keys trivial rfl rfl rfl rfl rfl rfl (fun h1 => absurd h2 (by simp only [if_true] at h1; omega))
        (fun _ => Since.now ⟨cipher, ?_⟩) fun hg => (hi.groupKey hg).keep (hother false (by decide))
      rw [hkey]
      rfl
    | false =>
      refine hi.keys trivial rfl rfl rfl rfl rfl rfl
        (fun h1 => absurd h2 (by simp only [Bool.false_eq_true, if_false] at h1; omega))
        (fun hp => (hi.pairwiseKey hp).keep (hother true (by decide))) fun _ => Since.now ⟨cipher, ?_⟩
      rw [hkey]
      rfl

theorem Inv.tx (hi : Inv c s l) (frame : List UInt8) (iv : Option (List UInt8)) (ctx : Bool) :
    Inv c (tx c s frame iv ctx).1 (l ++ [⟨s, .tx frame iv ctx⟩]) := by
  have hq : Quiet ⟨s, .tx frame iv ctx⟩ := trivial
  have hh : ∀ pairwise, Holds pairwise ⟨s, .tx frame iv ctx⟩ := fun _ => ⟨trivial, fun _ h => by cases h⟩
  have hcases := tx_cases c s frame iv ctx
  generalize htx : (Wifi.tx c s frame iv ctx).1 = s' at hcases ⊢
  -- an accepted message 4 follows the accepted message 2, at once or after another message 4
  have hfour : s.stage = 2 → wellFormed s frame = true → keyReplay (frame.drop 14) = s.replay →
      keyInfo (frame.drop 14) &&& 8 ≠ 0 → dataLength (frame.drop 14) = 0 → micValid c s (frame.drop 14) = true →
      Confirmed4 c s.ptk (l ++ [⟨s, .tx frame iv ctx⟩]) := by
    intro h2 hform hreplay hinfo hdata hmic
    obtain ⟨r, hmessage2, hr | hmessage4⟩ := hi.two h2
    · exact Since.now ⟨r, ⟨frame, iv, ctx, rfl, hform, hreplay.trans hr, hr, hinfo, hdata, hmic⟩, hmessage2⟩
    · exact hmessage4.keep hq
  cases hcases with
  | same => exact hi.keep hq rfl rfl rfl rfl rfl rfl rfl (fun hp => ⟨hp, hh true⟩) fun hg => ⟨hg, hh false⟩
  | early ptk replay pending pendingLen hstage =>
    obtain ⟨hpair, hgroup⟩ := hi.keyless (by omega)
    exact
      { valid := hi.valid
        stage := hi.stage
        mode := hi.mode
        keyless := fun _ => ⟨hpair, hgroup⟩
        unauthorized := hi.unauthorized
        one := fun _ => (hi.one hstage).keep hq
        two := fun h => absurd (hstage.symm.trans h) (by decide)
        four := fun h => absurd (hstage ▸ h) (by decide)
        group := fun h => absurd (hstage ▸ h) (by decide)
        pairwiseKey := fun h => absurd (hpair.symm.trans h) (by decide)
        groupKey := fun h => absurd (hgroup.symm.trans h) (by decide) }
  | message2 ptk pending pendingLen hstage hform hreplay hinfo hkey hmic =>
    obtain ⟨hpair, hgroup⟩ := hi.keyless (by omega)
    have hnext : (Wifi.step c s (.tx frame iv ctx)).stage = 2 := congrArg Security.stage htx
    exact
      { valid := hi.valid
        stage := by simp
        mode := fun _ => hi.mode (by omega)
        keyless := fun h => by simp at h
        unauthorized := fun _ h => hi.unauthorized (by omega) h
        one := fun h => by simp at h
        two := fun _ => ⟨s.replay, Since.now ⟨⟨frame, iv, ctx, rfl, hform, hreplay, rfl, hinfo, hkey, hmic, hstage, hnext⟩,
          hi.one hstage⟩, Or.inl rfl⟩
        four := fun h => by simp at h
        group := fun h => by simp at h
        pairwiseKey := fun h => absurd (hpair.symm.trans h) (by decide)
        groupKey := fun h => absurd (hgroup.symm.trans h) (by decide) }
  | message4 hstage hmode hform hreplay hinfo hdata hmic =>
    exact
      { valid := hi.valid
        stage := by simp
        mode := fun _ => Or.inr hmode
        keyless := fun h => by simp at h
        unauthorized := fun h => by simp at h
        one := fun h => by simp at h
        two := fun h => by simp at h
        four := fun _ => hfour hstage hform hreplay hinfo hdata hmic
        group := fun _ _ h => absurd (hmode.symm.trans h) (by decide)
        pairwiseKey := fun hp => (hi.pairwiseKey hp).keep (hh true)
        groupKey := fun hg => (hi.groupKey hg).keep (hh false) }
  | tkip4 stage replay pending pendingLen hnext hstage hmode hform hreplay hinfo hdata hmic =>
    have htwo : s.mode = 2 := (hi.mode (by omega)).resolve_right hmode
    have hauth := hi.unauthorized (by omega) (by omega)
    have hconf := hfour hstage hform hreplay hinfo hdata hmic
    obtain ⟨r, hmessage2, -⟩ := hi.two hstage
    exact
      { valid := hi.valid
        stage := by simp only; omega
        mode := fun _ => Or.inl htwo
        keyless := fun h => by simp only at h; omega
        unauthorized := fun _ _ => hauth
        one := fun h => by simp only at h; omega
        two := fun _ => ⟨r, hmessage2.keep hq, Or.inr hconf⟩
        four := fun _ => hconf
        group := fun _ h => absurd (hauth.symm.trans h) (by decide)
        pairwiseKey := fun hp => (hi.pairwiseKey hp).keep (hh true)
        groupKey := fun hg => (hi.groupKey hg).keep (hh false) }
  | groupReply hstage hform hreplay hinfo hmic =>
    have hconf := hi.four (by omega)
    exact
      { valid := hi.valid
        stage := by simp
        mode := fun _ => hi.mode (by omega)
        keyless := fun h => by simp at h
        unauthorized := fun h => by simp at h
        one := fun h => by simp at h
        two := fun h => by simp at h
        four := fun _ => hconf.keep hq
        group := fun _ _ _ => Since.now ⟨⟨frame, iv, ctx, rfl, hform, hreplay, hinfo, hmic⟩, hconf⟩
        pairwiseKey := fun hp => (hi.pairwiseKey hp).keep (hh true)
        groupKey := fun hg => (hi.groupKey hg).keep (hh false) }

theorem Inv.step (hi : Inv c s l) (x : Call) : Inv c (step c s x) (l ++ [⟨s, x⟩]) := by
  cases x with
  | configure mode key =>
    obtain ⟨hstage, hauth, hpair, hgroup, hvalid⟩ := configure_cases c s mode key
    exact Inv.fresh hvalid hstage hpair hgroup fun _ => hauth
  | start anonce gtk => exact hi.start anonce gtk
  | tx frame iv ctx => exact hi.tx frame iv ctx
  | pop n =>
    have hh : ∀ pairwise, Holds pairwise ⟨s, .pop n⟩ := fun _ => ⟨trivial, fun _ h => by cases h⟩
    unfold Wifi.step pop
    simp only
    split <;> exact hi.keep trivial rfl rfl rfl rfl rfl rfl rfl (fun hp => ⟨hp, hh true⟩) fun hg => ⟨hg, hh false⟩
  | key pairwise cipher key => exact hi.key pairwise cipher key
  | rekey gtk iv ctx => exact hi.rekey gtk iv ctx
  | reset => exact Inv.fresh hi.valid rfl rfl rfl fun _ => rfl

end Steps

/-! ## Every run -/

section Runs

variable {c : Crypto}

theorem run_concat (c : Crypto) (s : Security) (calls : List Call) (x : Call) :
    run c s (calls ++ [x]) = step c (run c s calls) x := by
  rw [run, List.foldl_append]
  rfl

theorem history_concat (c : Crypto) (s : Security) (calls : List Call) (x : Call) :
    history c s (calls ++ [x]) = history c s calls ++ [⟨run c s calls, x⟩] := by
  induction calls generalizing s with
  | nil => rfl
  | cons y calls ih => exact congrArg (⟨s, y⟩ :: ·) (ih (step c s y))

theorem inv_history (c : Crypto) (mac : List UInt8) (mode : Nat) (psk : Option (List UInt8)) (calls : List Call) :
    Inv c (run c (init c mac mode psk) calls) (history c (init c mac mode psk) calls) := by
  induction calls using List.reverseRecOn with
  | nil =>
    obtain ⟨hstage, hauth, hpair, hgroup, hvalid⟩ := configure_cases c _ mode psk
    exact Inv.fresh hvalid hstage hpair hgroup fun _ => hauth
  | append_singleton calls x ih =>
    rw [run_concat, history_concat]
    exact ih.step x

/-- Past message 2 only a start, a reset or a configuration changes the PTK or goes back. -/
theorem step_quiet {s : Security} {x : Call} (hq : Quiet ⟨s, x⟩) (h2 : 2 ≤ s.stage) :
    (step c s x).ptk = s.ptk ∧ 2 ≤ (step c s x).stage := by
  cases x with
  | configure mode key => exact hq.elim
  | start anonce gtk => exact hq.elim
  | reset => exact hq.elim
  | tx frame iv ctx =>
    have hcases := tx_cases c s frame iv ctx
    show (tx c s frame iv ctx).1.ptk = s.ptk ∧ 2 ≤ (tx c s frame iv ctx).1.stage
    generalize (tx c s frame iv ctx).1 = s' at hcases ⊢
    cases hcases with
    | same => exact ⟨rfl, h2⟩
    | early ptk replay pending pendingLen hstage => omega
    | message2 ptk pending pendingLen hstage => omega
    | message4 => exact ⟨rfl, by simp⟩
    | tkip4 stage replay pending pendingLen hnext => exact ⟨rfl, by simp only; omega⟩
    | groupReply => exact ⟨rfl, by simp⟩
  | pop n =>
    unfold step pop
    simp only
    split <;> exact ⟨rfl, h2⟩
  | key pairwise cipher bytes =>
    show (key s pairwise cipher bytes).1.ptk = s.ptk ∧ 2 ≤ (key s pairwise cipher bytes).1.stage
    rcases key_cases s pairwise cipher bytes with ⟨-, h⟩ | ⟨-, h⟩ | ⟨-, -, h⟩
    · rw [h]
      exact ⟨rfl, h2⟩
    all_goals
      rw [h]
      split <;> exact ⟨rfl, h2⟩
  | rekey gtk iv ctx =>
    show (rekey c s gtk iv ctx).1.ptk = s.ptk ∧ 2 ≤ (rekey c s gtk iv ctx).1.stage
    rcases rekey_cases c s gtk iv ctx with h | ⟨-, fresh, replay, pending, pendingLen, h⟩
    · rw [h]
      exact ⟨rfl, h2⟩
    · rw [h]
      exact ⟨rfl, by simp⟩

theorem step_message2 {s : Security} {x : Call} {r : UInt64} {ptk : List UInt8} (h : Message2 c r ptk ⟨s, x⟩) :
    (step c s x).ptk = ptk ∧ 2 ≤ (step c s x).stage := by
  obtain ⟨frame, iv, ctx, hcall, -, -, -, -, hkey, -, h1, h2⟩ := h
  simp only at hcall h1 h2 hkey
  subst hcall
  refine ⟨?_, Nat.le_of_eq h2.symm⟩
  have hcases := tx_cases c s frame iv ctx
  have hstage : (tx c s frame iv ctx).1.stage = 2 := h2
  show (tx c s frame iv ctx).1.ptk = ptk
  generalize (tx c s frame iv ctx).1 = s' at hcases hstage ⊢
  cases hcases with
  | message2 ptk' pending pendingLen _ _ _ _ hkey' => exact congrArg Prod.fst (hkey'.symm.trans hkey)
  | same => omega
  | early => simp only at hstage; omega
  | message4 => omega
  | tkip4 => omega
  | groupReply => omega

theorem ptk_stays (s : Security) (calls : List Call) {ptk : List UInt8}
    (h : Since (fun _ e => ∃ r, Message2 c r ptk e) Quiet (history c s calls)) :
    (run c s calls).ptk = ptk ∧ 2 ≤ (run c s calls).stage := by
  induction calls using List.reverseRecOn with
  | nil =>
    obtain ⟨before, e, later, heq, -⟩ := h
    cases before <;> cases heq
  | append_singleton calls x ih =>
    rw [history_concat] at h
    rw [run_concat]
    rcases h.last with ⟨r, hmessage2⟩ | ⟨hq, hbefore⟩
    · exact step_message2 hmessage2
    · obtain ⟨hptk, hstage⟩ := ih hbefore
      obtain ⟨hptk', hstage'⟩ := step_quiet (c := c) hq hstage
      exact ⟨hptk'.trans hptk, hstage'⟩

/-- After any calls: a frame that is no handshake frame passes in modes 2 and 3 only when
    its station is admitted, the PTK is that of an accepted message 2 while no start, reset
    or configuration has come since, and a handshake frame never passes. -/
theorem admission (c : Crypto) (mac : List UInt8) (mode : Nat) (psk : Option (List UInt8)) (calls : List Call) :
    let s := run c (init c mac mode psk) calls
    let l := history c (init c mac mode psk) calls
    (∀ p iv ctx, s.mode = 2 ∨ s.mode = 3 → eapol p = false → (tx c s p iv ctx).2 = true → Admitted stationKey c s l) ∧
      (∀ ptk, Since (fun _ e => ∃ r, Message2 c r ptk e) Quiet l → s.ptk = ptk) ∧
      (∀ p iv ctx, eapol p = true → (tx c s p iv ctx).2 = false) := by
  intro s l
  have hi : Inv c s l := inv_history c mac mode psk calls
  refine ⟨fun p iv ctx hmode hplain hpass => ?_, fun ptk h => (ptk_stays _ calls h).1, fun p iv ctx hkey => ?_⟩
  · have hflags : s.authorized = true ∧ s.pairwise = true ∧ s.group = true := by
      unfold tx at hpass
      rw [hplain] at hpass
      have hlow : ¬ s.mode < 2 := by omega
      split at hpass
      · cases hpass
      · simpa [hlow] using hpass
    obtain ⟨hauth, hpair, hgroup⟩ := hflags
    have h3 : 3 ≤ s.stage := by
      by_contra hlt
      exact absurd (hauth.symm.trans (hi.unauthorized (by omega) (by omega))) (by decide)
    exact ⟨hi.four h3, hi.group h3 hauth, hi.pairwiseKey hpair, hi.groupKey hgroup⟩
  · unfold tx
    rw [hkey]
    repeat' split
    all_goals first | rfl | simp_all

end Runs

/-! ## A TKIP station -/

/-- Digests that are the numbers from 0 on. -/
def counting : Crypto where
  sha1 _ _ := some (Vector.ofFn fun i => UInt8.ofNat i)
  md5 _ _ := some (Vector.ofFn fun i => UInt8.ofNat i)
  rc4 _ data := data
  wrap _ data := some data
  pbkdf2 _ := some (zeros 32)

def tkipMac : List UInt8 := [2, 0, 0, 0, 0, 1]

/-- A handshake frame of the station without key data, under `counting`. -/
def tkipFrame (info : Nat) (replay : UInt8) : List UInt8 :=
  [2, 0x42, 0x45, 0x33, 0x30, 0x30] ++ tkipMac ++ [0x88, 0x8e] ++ [2, 3, 0, 95, 254] ++ put16 info ++ [0, 0] ++
    [0, 0, 0, 0, 0, 0, 0, replay] ++ zeros 64 ++ (List.range 16).map UInt8.ofNat ++ [0, 0]

def tkipGtk : List UInt8 := (List.range 32).map UInt8.ofNat

def tkipPairwise : List UInt8 :=
  [12, 13, 14, 15, 16, 17, 18, 19, 0, 1, 2, 3, 4, 5, 6, 7, 16, 17, 18, 19, 0, 1, 2, 3, 8, 9, 10, 11, 12, 13, 14, 15]

def tkipCalls : List Call :=
  [.start (some (zeros 32)) (some tkipGtk), .tx (tkipFrame 0x0109 1) none true,
    .tx (tkipFrame 0x0109 2) (some (zeros 16)) true, .tx (tkipFrame 0x0301 3) none true,
    .key true 1 tkipPairwise,
    .key false 1 (tkipGtk.take 16 ++ (tkipGtk.drop 24).take 8 ++ (tkipGtk.drop 16).take 8)]

def tkipStart : Security := init counting tkipMac 2 (some [98, 101, 51, 48, 48, 32, 97, 112])

/-- A frame that is no handshake frame. -/
def dataFrame : List UInt8 := zeros 14

set_option maxRecDepth 100000 in
theorem tkip_passes : (run counting tkipStart tkipCalls).mode = 2 ∧
    (tx counting (run counting tkipStart tkipCalls) dataFrame none true).2 = true ∧
    temporalKey (run counting tkipStart tkipCalls).mode ((run counting tkipStart tkipCalls).ptk.drop 32) =
      [12, 13, 14, 15, 16, 17, 18, 19, 0, 1, 2, 3, 4, 5, 6, 7, 8, 9, 10, 11, 12, 13, 14, 15, 16, 17, 18, 19, 0, 1, 2, 3] := by
  decide

theorem tkip_admitted :
    Admitted stationKey counting (run counting tkipStart tkipCalls) (history counting tkipStart tkipCalls) :=
  (admission counting tkipMac 2 (some [98, 101, 51, 48, 48, 32, 97, 112]) tkipCalls).1 dataFrame none true
    (Or.inl tkip_passes.1) (by decide) tkip_passes.2.1

theorem history_calls (c : Crypto) (s : Security) (calls : List Call) : (history c s calls).map Event.call = calls := by
  induction calls generalizing s with
  | nil => rfl
  | cons x calls ih => simp [history, ih]

/-- Its pairwise key is not the bytes of the PTK's temporal key. -/
theorem tkip_key_exchanged : ¬ ∀ (c : Crypto) (mac : List UInt8) (mode : Nat) (psk : Option (List UInt8)) (calls : List Call),
    let s := run c (init c mac mode psk) calls
    ∀ p iv ctx, s.mode = 2 ∨ s.mode = 3 → eapol p = false → (tx c s p iv ctx).2 = true →
      Admitted temporalKey c s (history c (init c mac mode psk) calls) := by
  intro h
  have hadmitted := h counting tkipMac 2 (some [98, 101, 51, 48, 48, 32, 97, 112]) tkipCalls dataFrame none true
    (Or.inl tkip_passes.1) (by decide) tkip_passes.2.1
  obtain ⟨before, e, later, heq, ⟨cipher, hcall⟩, -⟩ := hadmitted.pairwise
  have hmem : e.call ∈ (history counting tkipStart tkipCalls).map Event.call :=
    List.mem_map_of_mem (by rw [tkipStart, heq]; simp)
  rw [history_calls, hcall] at hmem
  obtain ⟨-, -, hkey⟩ := tkip_passes
  rw [tkipStart] at hkey
  rw [hkey] at hmem
  simp [tkipCalls, tkipPairwise] at hmem

end Be300.Wifi
