/-
  Be300.Wifi.Commands — what the WL54CF's command handler reads, and what a failed command
  leaves (`station_command` of `src/hw/wl54cf.c`).

  - `commands_inside`: from every configuration, a run of accesses never faults exactly when
    none of its commands is an ASSOCIATE shorter than 21 bytes in a WPA mode. That command
    has the access point's information element looked up in `n - 21` bytes, which wraps.
  - `failed_keeps_iff`: a command answered with a non-zero result leaves the station as it
    was exactly when it is no SET_WEP that is refused after it has stored something new:
    the key index and the keys are stored before the action and the types are checked.
-/

import Be300.Lib.Ends
import Be300.Wifi.Admission
import Be300.Wifi.Download

namespace Be300.Wifi

open Lib (Ends Gives Allows ends_ok ends_error gives_error ends_pure ends_bind ends_ite ends_mono allows_bind gives_iff
  allows_iff)

/-! ## Reads inside the command -/

/-- It does not fault. -/
abbrev Fine {α : Type} (x : Checked α) : Prop := Gives (fun _ => True) x

section Reads

variable {α β : Type} {c : List UInt8} {i n p type : Nat} {x : Checked α} {f : α → Checked β} {R : β → Prop}

theorem fine_ok {a : α} : Fine (.ok a : Checked α) := ends_ok trivial

theorem fine_bind (hx : Fine x) (hf : ∀ a, Gives R (f a)) : Gives R (x >>= f) := ends_bind hx fun a _ => hf a

theorem Command.fine_at' (h : i < c.length) : Fine (at' c i) := by
  unfold at'
  rw [dif_pos h]
  exact fine_ok

theorem Command.get16_eq (h : i + 2 ≤ c.length) : get16 c i = .ok (Lib.rd 2 (Lib.at' c) i) := by
  have hat : ∀ j, j < c.length → at' c j = .ok (Lib.at' c j) := by
    intro j hj
    unfold at'
    rw [dif_pos hj]
    simp [Lib.at', hj]
  unfold get16
  rw [hat i (by omega), hat (i + 1) (by omega)]
  rfl

theorem Command.fine_get16 (h : i + 2 ≤ c.length) : Fine (get16 c i) := by
  rw [get16_eq h]
  exact fine_ok

theorem Command.fine_bytes (h : i + n ≤ c.length) : Fine (bytes c i n) := by
  unfold bytes
  rw [if_pos h]
  exact fine_ok

theorem Command.gives_sub {a b : Nat} (h : b ≤ a) : Gives (fun d => d = a - b) (sub a b) := by
  unfold sub
  rw [if_pos h]
  exact ends_ok rfl

theorem Command.fine_same {l : List UInt8} (h : i + l.length ≤ c.length) : Fine (same c i l) := by
  unfold same
  apply fine_bind (fine_bytes h)
  intro b
  exact fine_ok

/-- The second operand is evaluated where the first is true. -/
theorem Command.gives_both {A B : Prop} {a b : Checked Bool} (ha : Gives (fun v => v = true → A) a)
    (hb : A → Gives (fun v => v = true → B) b) : Gives (fun v => v = true → A ∧ B) (both a b) := by
  unfold both
  apply ends_bind ha
  intro v hv
  apply ends_ite
  · intro h
    apply ends_mono (hb (hv h))
    intro w hw hwtrue
    exact ⟨hv h, hw hwtrue⟩
  · intro _
    apply ends_pure
    intro h
    exact absurd h (by decide)

theorem Command.fine_both {a b : Checked Bool} (ha : Fine a) (hb : Fine b) : Fine (both a b) := by
  unfold both
  apply fine_bind ha
  intro v
  exact ends_ite (fun _ => hb) fun _ => fine_ok

/-- The walk stays in its `n` bytes, and so does what it finds. -/
theorem Command.gives_tlv (h : p + n ≤ c.length) :
    Gives (fun r => ∀ q l, r = some (q, l) → q + l ≤ c.length) (tlv c type p n) := by
  induction n using Nat.strongRecOn generalizing p with
  | ind n ih =>
    unfold tlv
    by_cases h4 : n < 4
    · rw [dif_pos h4]
      apply ends_ok
      intro q l hr
      cases hr
    rw [dif_neg h4]
    apply ends_bind (fine_get16 (by omega))
    intro t _
    apply ends_bind (fine_get16 (by omega))
    intro l _
    apply ends_ite
    · intro _
      apply ends_pure
      intro q l hr
      cases hr
    intro hl
    apply ends_ite
    · intro _
      apply ends_pure
      intro q m hr
      cases hr
      omega
    · intro _
      exact ih (n - (4 + l)) (by omega) (by omega)

theorem Command.fine_validTlvs (h : p + n ≤ c.length) : Fine (validTlvs c p n) := by
  induction n using Nat.strongRecOn generalizing p with
  | ind n ih =>
    unfold validTlvs
    by_cases h4 : n < 4
    · rw [dif_pos h4]
      exact fine_ok
    rw [dif_neg h4]
    apply fine_bind (fine_get16 (by omega))
    intro l
    apply ends_ite
    · intro _
      exact fine_ok
    · intro hl
      exact ih (n - (4 + l)) (by omega) (by omega)

end Reads

/-! ## The configuration -/

/-- What was configured and stays. -/
def settings (s : Security) : Bool × Nat × List UInt8 := (s.valid, s.mode, s.ie)

theorem settings_build (k : Crypto) (s : Security) (info : Nat) (key : List UInt8) :
    settings (build k s info key).1 = settings s := by
  obtain ⟨pending, pendingLen, hbuild⟩ := build_changes k s info key
  rw [hbuild]
  rfl

theorem settings_start (k : Crypto) (s : Security) (anonce gtk : Option (List UInt8)) :
    settings (start k s anonce gtk) = settings s := by
  unfold start
  simp only
  split
  · rfl
  split
  · rfl
  cases anonce with
  | none => rfl
  | some anonce =>
    cases gtk with
    | none => rfl
    | some gtk =>
      simp only
      split
      · exact settings_build k { reset s with anonce, gtk, replay := 1 } _ _
      · exact settings_build k { reset s with anonce, gtk, replay := 1 } _ _

theorem settings_tx (k : Crypto) (s : Security) (frame : List UInt8) (iv : Option (List UInt8)) (ctx : Bool) :
    settings (tx k s frame iv ctx).1 = settings s := by
  have hcases := tx_cases k s frame iv ctx
  generalize (tx k s frame iv ctx).1 = t at hcases
  cases hcases <;> rfl

theorem key_settings (s : Security) (pairwise : Bool) (cipher : Nat) (key : List UInt8) :
    settings (Wifi.key s pairwise cipher key).1 = settings s ∧
      ((Wifi.key s pairwise cipher key).2 = false → (Wifi.key s pairwise cipher key).1 = s) := by
  unfold Wifi.key settings
  cases pairwise <;> (repeat' split) <;> simp

/-- The information element has its two bytes of header where it is used. -/
def HasIe (s : Security) : Prop := s.valid = true → 2 ≤ s.mode → 2 ≤ s.ie.length

theorem HasIe.of_settings {s t : Security} (h : HasIe s) (hst : settings t = settings s) : HasIe t := by
  obtain ⟨hvalid, hmode, hie⟩ : t.valid = s.valid ∧ t.mode = s.mode ∧ t.ie = s.ie := by simpa [settings] using hst
  unfold HasIe
  rw [hvalid, hmode, hie]
  exact h

theorem hasIe_init (k : Crypto) (mac : List UInt8) (mode : Nat) (key : Option (List UInt8)) : HasIe (init k mac mode key) := by
  unfold init
  generalize ({ mode := 0, stage := 0, .. } : Security) = s
  unfold configure
  simp only
  split
  · intro hvalid
    exact absurd hvalid Bool.false_ne_true
  split
  · rename_i h1
    have hlow : ∀ t : Security, t.mode = mode → HasIe t := by
      intro t ht _ h2
      omega
    repeat' split
    all_goals exact hlow _ rfl
  split
  · split
    · intro hvalid
      exact absurd hvalid Bool.false_ne_true
    split
    · intro _ _
      show 2 ≤ (if mode = 3 then rsn else wpa).length
      split <;> decide
    · intro hvalid
      exact absurd hvalid Bool.false_ne_true
  · rename_i h2
    intro _ hmode
    exact absurd hmode h2

namespace Card

open Command

/-- The waiting command is whole, and the answer before it was taken: it is answered. -/
structure Answered (s : Card) : Prop where
  taken : s.cause &&& wl54cfResponse = 0
  header : 8 ≤ s.command.length
  fits : s.command.length ≤ wl54cfBuffer
  whole : s.command.data.length = s.command.length

/-- The opcode and the declared length of the waiting command, and its words. -/
def word (s : Card) (i : Nat) : Nat := Lib.rd 2 (Lib.at' s.command.data) i

/-- An ASSOCIATE that ends before its TLVs, in a WPA mode. -/
structure ShortAssociate (s : Card) : Prop extends Answered s where
  opcode : s.word 0 = 0x50
  declared : s.word 2 = s.command.length
  short : s.command.length < 21
  mode : 2 ≤ s.security.mode

def keyType (c : List UInt8) (i : Nat) : UInt8 := Lib.at' c (12 + i)

def keyBytes (c : List UInt8) (i : Nat) : List UInt8 :=
  (c.drop (16 + 16 * i)).take (if keyType c i = 1 then 5 else if keyType c i = 2 then 13 else 0)

/-- The keys a SET_WEP stores: those of its four before the first of a bad type, where it brings keys. -/
def storedKeys (c : List UInt8) (i : Nat) : List UInt8 :=
  if Lib.rd 2 (Lib.at' c) 8 = 2 ∧ i < 4 ∧ ∀ j < i + 1, keyType c j ≤ 2 then keyBytes c i else []

/-- The action is neither to set nor to clear, or a key that is to be set has a bad type. -/
def RefusesKeys (c : List UInt8) : Prop :=
  Lib.rd 2 (Lib.at' c) 8 ≠ 4 ∧ (Lib.rd 2 (Lib.at' c) 8 = 2 → ∃ i < 4, 2 < keyType c i)

instance (c : List UInt8) : Decidable (RefusesKeys c) := inferInstanceAs (Decidable (_ ∧ (_ → _)))

/-- The configuration stays, and with a result that is not zero all of the card does. -/
def Keeps (s : Card) (r : Card × Answer) : Prop := settings r.1.security = settings s.security ∧ (r.2.result ≠ 0 → r.1 = s)

section Bounds

variable {c : List UInt8} {s : Card} {k : Crypto} {r : Chance} {n type : Nat}

theorem fine_namesNetwork {t : Option (Nat × Nat)} (h : ∀ q l, t = some (q, l) → q + l ≤ c.length) : Fine (namesNetwork c t) := by
  rcases t with _ | ⟨p, l⟩
  · exact fine_ok
  unfold namesNetwork both
  apply ends_bind (P := fun v => v = (l == 5)) (ends_ok rfl)
  intro v hv
  apply ends_ite
  · intro h5
    have hl : l = 5 := by simpa [hv] using h5
    have hin := h p l rfl
    apply fine_same
    show p + 5 ≤ c.length
    omega
  · intro _
    exact fine_ok

theorem keeps_refuse : Keeps s s.refuse := ⟨rfl, fun _ => rfl⟩

theorem keeps_done {t : Card} {payload : List UInt8} (h : settings t.security = settings s.security) :
    Keeps s (t, ⟨0, payload⟩) :=
  ⟨h, fun hne => absurd rfl hne⟩

theorem keeps_getHwSpec : Gives (Keeps s) (s.getHwSpec n) :=
  ends_ite (fun _ => ends_ok keeps_refuse) fun _ => ends_ok (keeps_done rfl)

theorem keeps_scan (hn : n = c.length) : Gives (Keeps s) (s.scan c n) := by
  unfold scan
  apply ends_ite
  · intro _
    exact ends_ok keeps_refuse
  intro h15
  apply ends_bind (gives_sub (by omega))
  rintro m rfl
  apply fine_bind (fine_validTlvs (by omega))
  intro valid
  apply ends_ite
  · intro _
    exact ends_ok keeps_refuse
  intro _
  apply ends_bind (gives_sub (by omega))
  rintro m rfl
  apply ends_bind (gives_tlv (by omega))
  intro ssid hssid
  apply fine_bind
  · apply fine_both fine_ok
    apply fine_both
    · apply fine_bind (fine_at' (by omega))
      intro first
      apply fine_bind (fine_at' (by omega))
      intro second
      exact fine_ok
    apply fine_both
    · apply fine_bind (fine_same (by simp only [bssid, List.length_cons, List.length_nil]; omega))
      intro ours
      apply ends_ite
      · intro _
        exact fine_ok
      · intro _
        exact fine_same (by simp only [zeros, List.length_replicate]; omega)
    · apply ends_ite
      · intro _
        exact fine_ok
      · intro _
        exact fine_namesNetwork hssid
  intro found
  exact ends_ite (fun _ => ends_ok (keeps_done rfl)) fun _ => ends_ok (keeps_done rfl)

theorem keeps_authenticate (hn : n = c.length) : Gives (Keeps s) (s.authenticate c n) := by
  unfold authenticate
  apply ends_ite
  · intro _
    exact ends_ok keeps_refuse
  intro h25
  apply fine_bind (fine_same (by simp only [bssid, List.length_cons, List.length_nil]; omega))
  intro ours
  apply ends_ite
  · intro _
    exact ends_ok keeps_refuse
  intro _
  apply fine_bind (fine_at' (by omega))
  intro auth
  exact ends_ite (fun _ => ends_ok keeps_refuse) fun _ => ends_ok (keeps_done rfl)

theorem gives_bodyTlv (hn : n = c.length) :
    Gives (fun t => ∀ q l, t = some (q, l) → q + l ≤ c.length) (bodyTlv c type n) := by
  unfold bodyTlv
  apply ends_ite
  · intro h21
    apply ends_bind (gives_sub h21)
    rintro m rfl
    exact gives_tlv (by omega)
  · intro _
    apply ends_pure
    intro q l hr
    cases hr

/-- The access point has a valid configuration where the channel fits. -/
theorem gives_fitsChannel (h16 : 21 ≤ c.length) {t : Option (Nat × Nat)} (h : ∀ q l, t = some (q, l) → q + l ≤ c.length) :
    Gives (fun v => v = true → s.security.valid = true) (s.fitsChannel c t) := by
  rcases t with _ | ⟨p, l⟩
  · apply ends_ok
    intro hfalse
    cases hfalse
  unfold fitsChannel
  have hin := h p l rfl
  apply ends_mono (P := fun v => v = true → l = 1 ∧ True ∧ s.security.valid = true ∧ True)
  · apply gives_both
    · apply ends_ok
      simp
    intro hl
    apply gives_both
    · apply ends_bind (fine_at' (by omega))
      intro b _
      exact ends_pure fun _ => trivial
    intro _
    apply gives_both
    · exact ends_ok id
    intro _
    apply ends_bind (fine_get16 (by omega))
    intro capabilities _
    exact ends_pure fun _ => trivial
  · intro v hv htrue
    exact (hv htrue).2.2.1

theorem fine_sameIe {t : Option (Nat × Nat)} (h : ∀ q l, t = some (q, l) → q + l ≤ c.length)
    (hie : 2 ≤ s.security.ie.length) : Fine (s.sameIe c t) := by
  rcases t with _ | ⟨p, l⟩
  · exact fine_ok
  unfold sameIe
  have hin := h p l rfl
  apply ends_mono (P := fun v => v = true → l = s.security.ie.length - 2 ∧ True)
  · apply gives_both
    · apply ends_bind (gives_sub hie)
      rintro m rfl
      apply ends_pure
      simp
    intro hl
    apply ends_mono (fine_same (by simp only [List.length_drop]; omega))
    intro _ _ _
    trivial
  · intro _ _
    trivial

/-- ASSOCIATE reads inside the command, but for the element's look-up in the bytes from 21
    on, which a WPA mode makes without asking whether there are any. -/
theorem fine_associate (hn : n = c.length) (hmode : 2 ≤ s.security.mode → 21 ≤ n)
    (hie : HasIe s.security) : Fine (s.associate k r c n) := by
  unfold associate
  apply ends_bind (gives_bodyTlv hn)
  intro ssid hssid
  apply ends_bind (P := fun ok => ok = true → 21 ≤ n ∧ True)
  · apply gives_both
    · exact ends_ok of_decide_eq_true
    intro h21
    have hall : Fine (both (do validTlvs c 21 (← sub n 21)) (both (namesNetwork c ssid) (both (same c 8 bssid)
        (.ok (s.authenticated && s.radio && s.channel == 3))))) := by
      apply fine_both
      · apply ends_bind (gives_sub h21)
        rintro m rfl
        exact fine_validTlvs (by omega)
      apply fine_both (fine_namesNetwork hssid)
      apply fine_both _ fine_ok
      exact fine_same (by simp only [bssid, List.length_cons, List.length_nil]; omega)
    apply ends_mono hall
    intro _ _ _
    trivial
  intro first hfirst
  apply ends_bind (gives_bodyTlv hn)
  intro ch hch
  apply ends_bind (P := fun ok => ok = true → 21 ≤ n ∧ s.security.valid = true)
  · apply gives_both
    · apply ends_ok
      intro h
      exact (hfirst h).1
    intro h21
    exact gives_fitsChannel (by omega) hch
  intro second hsecond
  extract_lets ok answer
  have hok : ok = true → second = true := by
    intro h
    by_cases h1 : s.security.mode = 1
    · rw [show ok = (second && Wifi.wep s.security s.wepIndex (s.wep s.wepIndex)) from if_pos h1] at h
      exact (Bool.and_eq_true_iff.mp h).1
    · rwa [show ok = second from if_neg h1] at h
  apply ends_ite
  · intro h2
    have h21 := hmode h2
    apply ends_bind (gives_sub h21)
    rintro m rfl
    apply ends_bind (gives_tlv (by omega))
    intro ie hin
    apply ends_bind (P := fun v => v = true → (ok && s.rsn) = true ∧ True)
    · apply gives_both (ends_ok id)
      intro hrsn
      have hvalid := (hsecond (hok (Bool.and_eq_true_iff.mp hrsn).1)).2
      apply ends_mono (fine_sameIe hin (hie hvalid h2))
      intro _ _ _
      trivial
    intro last _
    exact fine_ok
  · intro _
    exact fine_ok

theorem setKeys_eq (h80 : c.length = 80) (m i : Nat) (him : i + m ≤ 4) (wep : Nat → List UInt8) :
    setKeys c (List.range' i m) wep =
      .ok (fun j => if i ≤ j ∧ j < i + m ∧ ∀ l < j + 1 - i, keyType c (i + l) ≤ 2 then keyBytes c j else wep j,
        if ∃ l < m, 2 < keyType c (i + l) then 2 else 0) := by
  induction m generalizing i wep with
  | zero =>
    rw [if_neg (by omega)]
    refine congrArg Except.ok (Prod.ext (funext fun j => (if_neg ?_).symm) rfl)
    omega
  | succ m ih =>
    have hat : at' c (12 + i) = .ok (keyType c i) := by
      unfold at'
      rw [dif_pos (by omega)]
      simp [keyType, Lib.at', show 12 + i < c.length by omega]
    have hbytes : bytes c (16 + 16 * i) (if keyType c i = 1 then 5 else if keyType c i = 2 then 13 else 0) = .ok
      (keyBytes c i) := by
      unfold bytes
      rw [if_pos (by split <;> [skip; split] <;> omega)]
      rfl
    rw [List.range'_succ]
    unfold setKeys
    simp only [hat, hbytes, bind, Except.bind]
    by_cases hbad : keyType c i > 2
    · rw [if_pos hbad, if_pos ⟨0, by omega, hbad⟩]
      refine congrArg Except.ok (Prod.ext (funext fun j => (if_neg ?_).symm) rfl)
      rintro ⟨h1, -, h3⟩
      exact absurd (h3 0 (by omega)) (UInt8.not_le.mpr hbad)
    rw [if_neg hbad, ih (i + 1) (by omega)]
    have hgood : keyType c i ≤ 2 := UInt8.not_lt.mp hbad
    refine congrArg Except.ok (Prod.ext (funext fun j => ?_) ?_) <;> dsimp only
    · rcases Nat.lt_trichotomy j i with hj | rfl | hj
      · rw [if_neg (by omega), if_neg (by omega)]
        exact Function.update_of_ne (by omega) ..
      · rw [if_neg (by omega), if_pos]
        · exact Function.update_self ..
        · refine ⟨by omega, by omega, ?_⟩
          intro l hl
          rw [show l = 0 by omega]
          exact hgood
      · rw [Function.update_of_ne (by omega)]
        refine if_congr ?_ rfl rfl
        constructor
        · rintro ⟨h1, h2, h3⟩
          refine ⟨by omega, by omega, ?_⟩
          intro l hl
          rcases Nat.eq_zero_or_pos l with rfl | hpos
          · exact hgood
          · have := h3 (l - 1) (by omega)
            rwa [show i + 1 + (l - 1) = i + l by omega] at this
        · rintro ⟨h1, h2, h3⟩
          refine ⟨by omega, by omega, ?_⟩
          intro l hl
          rw [show i + 1 + l = i + (l + 1) by omega]
          exact h3 (l + 1) (by omega)
    · refine if_congr ?_ rfl rfl
      constructor
      · rintro ⟨l, hl, h⟩
        exact ⟨l + 1, by omega, by rwa [show i + (l + 1) = i + 1 + l by omega]⟩
      · rintro ⟨l, hl, h⟩
        rcases Nat.eq_zero_or_pos l with rfl | hpos
        · exact absurd h hbad
        · exact ⟨l - 1, by omega, by rwa [show i + 1 + (l - 1) = i + l by omega]⟩

/-- SET_WEP stores the index and the keys, and then knows whether it refuses them. -/
theorem setWep_eq (hn : n = c.length) :
    s.setWep c n = .ok (if n = 80 ∧ Lib.rd 2 (Lib.at' c) 10 ≤ 3 then
      ({ s with wepIndex := Lib.rd 2 (Lib.at' c) 10, wep := storedKeys c }, ⟨if RefusesKeys c then 2 else 0, []⟩)
    else s.refuse) := by
  unfold setWep
  by_cases h80 : n = 80
  case neg =>
    rw [if_pos h80, if_neg (by omega)]
    rfl
  rw [if_neg (not_not_intro h80), get16_eq (by omega), get16_eq (by omega)]
  by_cases h3 : Lib.rd 2 (Lib.at' c) 10 ≤ 3
  case neg =>
    rw [if_neg (by omega)]
    simp only [bind, Except.bind]
    rw [if_pos (by omega)]
    rfl
  rw [if_pos ⟨h80, h3⟩]
  have hkeys := setKeys_eq (c := c) (by omega) 4 0 (by omega) fun _ => []
  simp only [bind, Except.bind]
  rw [if_neg (by omega)]
  by_cases h2 : Lib.rd 2 (Lib.at' c) 8 = 2
  · rw [if_pos h2]
    have hrange : List.range' 0 4 = [0, 1, 2, 3] := rfl
    rw [hrange] at hkeys
    simp only [hkeys, Nat.zero_add, Nat.sub_zero, Nat.zero_le, true_and]
    refine congrArg (fun x => (.ok x : Checked (Card × Answer))) (Prod.ext ?_ ?_)
    · refine congrArg (fun wep => ({ s with wepIndex := Lib.rd 2 (Lib.at' c) 10, wep } : Card)) (funext fun j => ?_)
      unfold storedKeys
      exact if_congr (by simp [h2]) rfl rfl
    · refine congrArg (fun result => (⟨result, []⟩ : Answer)) (if_congr ?_ rfl rfl)
      simp [RefusesKeys, h2]
  · have hnone : storedKeys c = fun _ => [] := by
      funext j
      exact if_neg fun h => h2 h.1
    rw [if_neg h2, hnone]
    by_cases h4 : Lib.rd 2 (Lib.at' c) 8 = 4
    · rw [if_neg (not_not_intro h4), if_neg fun h => h.1 h4]
      rfl
    · rw [if_pos h4, if_pos ⟨h4, fun h => absurd h h2⟩]
      rfl

theorem keeps_setRsn (hn : n = c.length) : Gives (Keeps s) (s.setRsn c n) := by
  unfold setRsn
  apply ends_ite
  · intro _
    exact ends_ok keeps_refuse
  intro h12
  apply fine_bind (fine_get16 (by omega))
  intro action
  apply ends_ite
  · intro _
    exact ends_ok keeps_refuse
  intro _
  apply fine_bind (fine_get16 (by omega))
  intro rsn
  apply ends_ite
  · intro _
    exact ends_ok keeps_refuse
  intro _
  apply fine_bind (fine_get16 (by omega))
  intro again
  exact ends_ok (keeps_done rfl)

theorem keeps_setKey (hn : n = c.length) : Gives (Keeps s) (s.setKey c n) := by
  unfold setKey
  apply ends_ite
  · intro _
    exact ends_ok keeps_refuse
  intro h52
  apply fine_bind (fine_get16 (by omega))
  intro action
  apply ends_ite
  · intro _
    exact ends_ok keeps_refuse
  intro _
  apply fine_bind (fine_get16 (by omega))
  intro type
  apply ends_ite
  · intro _
    exact ends_ok keeps_refuse
  intro _
  apply fine_bind (fine_get16 (by omega))
  intro length
  apply ends_ite
  · intro _
    exact ends_ok keeps_refuse
  intro _
  apply fine_bind (fine_get16 (by omega))
  intro flags
  apply fine_bind (fine_get16 (by omega))
  intro l
  apply ends_ite
  · intro _
    exact ends_ok keeps_refuse
  intro hl
  apply fine_bind (fine_get16 (by omega))
  intro cipher
  apply fine_bind (fine_bytes (by omega))
  intro key
  apply ends_ok
  obtain ⟨hsettings, hrefused⟩ := key_settings s.security (flags &&& 2 != 0) cipher key
  refine ⟨hsettings, ?_⟩
  intro hne
  have hfalse : (Wifi.key s.security (flags &&& 2 != 0) cipher key).2 = false := by
    by_contra htrue
    rw [Bool.not_eq_false] at htrue
    exact hne (if_pos htrue)
  show ({ s with security := (Wifi.key s.security (flags &&& 2 != 0) cipher key).1 } : Card) = s
  rw [hrefused hfalse]

theorem keeps_setMacControl (hn : n = c.length) : Gives (Keeps s) (s.setMacControl c n) := by
  unfold setMacControl
  apply ends_ite
  · intro _
    exact ends_ok keeps_refuse
  intro h12
  apply fine_bind (fine_get16 (by omega))
  intro control
  apply ends_ite
  · intro _
    exact ends_ok keeps_refuse
  intro _
  apply fine_bind (fine_bytes (by omega))
  intro body
  exact ends_ok (keeps_done rfl)

theorem keeps_setRadio (hn : n = c.length) : Gives (Keeps s) (s.setRadio c n) := by
  unfold setRadio
  apply ends_ite
  · intro _
    exact ends_ok keeps_refuse
  intro h12
  apply fine_bind (fine_get16 (by omega))
  intro action
  apply ends_ite
  · intro _
    exact ends_ok keeps_refuse
  intro _
  apply fine_bind (fine_get16 (by omega))
  intro control
  apply fine_bind (fine_bytes (by omega))
  intro body
  exact ends_ok (keeps_done rfl)

theorem keeps_deauthenticate : Gives (Keeps s) (s.deauthenticate n) :=
  ends_ite (fun _ => ends_ok keeps_refuse) fun _ => ends_ok (keeps_done rfl)

/-- An association is always answered with the result 0. -/
theorem keeps_associate : Allows (Keeps s) (s.associate k r c n) := by
  have hdone : ∀ (ok : Bool) (payload : List UInt8), Keeps s
      ({ s with associated := ok, security := if ok then start k s.security r.anonce r.gtk else s.security }, ⟨0, payload⟩) := by
    intro ok payload
    apply keeps_done
    cases ok with
    | true => exact settings_start k s.security r.anonce r.gtk
    | false => rfl
  unfold associate
  apply allows_bind
  intro ssid
  apply allows_bind
  intro first
  apply allows_bind
  intro ch
  apply allows_bind
  intro second
  extract_lets ok answer
  apply ends_ite
  · intro _
    apply allows_bind
    intro m
    apply allows_bind
    intro ie
    apply allows_bind
    intro last
    exact ends_pure (hdone last _)
  · intro _
    apply allows_bind
    intro last
    exact ends_pure (hdone last _)

theorem execute_ends {P : Card × Answer → Prop} {E : Fault → Prop} {op : Nat} (hn : n = c.length) (hkeep : ∀ a, Keeps s a → P a)
    (hassociate : op = 0x50 → Ends P E (s.associate k r c n)) (hwep : op = 0x13 → Ends P E (s.setWep c n)) :
    Ends P E (s.execute k r c op n) := by
  have hgives : ∀ {x : Checked (Card × Answer)}, Gives (Keeps s) x → Ends P E x := by
    intro x hx
    obtain ⟨a, rfl, ha⟩ := gives_iff.mp hx
    exact ends_ok (hkeep a ha)
  unfold execute
  refine ends_ite (fun _ => hgives keeps_getHwSpec) fun _ => ?_
  refine ends_ite (fun _ => hgives (keeps_scan hn)) fun _ => ?_
  refine ends_ite (fun _ => hgives (keeps_authenticate hn)) fun _ => ?_
  refine ends_ite hassociate fun _ => ?_
  refine ends_ite hwep fun _ => ?_
  refine ends_ite (fun _ => hgives (keeps_setRsn hn)) fun _ => ?_
  refine ends_ite (fun _ => hgives (keeps_setKey hn)) fun _ => ?_
  refine ends_ite (fun _ => hgives keeps_deauthenticate) fun _ => ?_
  refine ends_ite (fun _ => hgives (keeps_setMacControl hn)) fun _ => ?_
  exact ends_ite (fun _ => hgives (keeps_setRadio hn)) fun _ => hgives (ends_ok keeps_refuse)

theorem fine_execute {op : Nat} (hn : n = c.length) (hmode : op = 0x50 → 2 ≤ s.security.mode → 21 ≤ n) (hie : HasIe s.security) :
    Fine (s.execute k r c op n) := by
  apply execute_ends hn
  · intro _ _
    trivial
  · intro hop
    exact fine_associate hn (hmode hop) hie
  · intro _
    rw [setWep_eq hn]
    exact fine_ok

theorem fine_respond (h : 8 ≤ c.length) (a : Answer) : Fine (respond c a) := by
  unfold respond
  apply fine_bind (fine_get16 (by omega))
  intro op
  apply fine_bind (fine_bytes (by omega))
  intro sequence
  exact fine_ok

/-- Without the TLVs' bytes nothing is looked up before the element is. -/
theorem associate_short (hn : n < 21) (hmode : 2 ≤ s.security.mode) : s.associate k r c n = .error .wrap := by
  have hbody : ∀ type, bodyTlv c type n = .ok none := by
    intro type
    unfold bodyTlv
    rw [if_neg (by omega)]
    rfl
  unfold associate
  simp only [hbody, both, fitsChannel, sub, show ¬ 21 ≤ n by omega, hmode, if_true, if_false, decide_false, bind, Except.bind,
    pure, Except.pure, Bool.false_eq_true]

theorem stationCommand_inside (hie : HasIe s.security) (h : ¬ ShortAssociate s) : Fine (s.stationCommand k r) := by
  unfold stationCommand
  apply ends_ite
  · intro _
    exact fine_ok
  intro htaken
  apply ends_ite
  · intro _
    exact fine_ok
  intro hwhole
  rw [not_or, not_or] at hwhole
  have h8 : 8 ≤ s.command.data.length := by omega
  apply fine_bind
  · unfold dispatch
    rw [get16_eq (by omega), get16_eq (by omega)]
    apply ends_bind (P := fun op => op = s.word 0) (ends_ok rfl)
    rintro op rfl
    apply ends_bind (P := fun n => n = s.word 2) (ends_ok rfl)
    rintro n rfl
    apply ends_ite
    · intro _
      exact fine_ok
    intro hlen
    rw [not_or, Decidable.not_not] at hlen
    apply fine_execute hlen.1 _ hie
    intro hop hmode
    by_contra hshort
    exact h ⟨⟨by omega, by omega, by omega, by omega⟩, hop, by omega, by omega, hmode⟩
  · rintro ⟨t, answer⟩
    apply fine_bind (fine_respond h8 answer)
    intro response
    exact fine_ok

theorem stationCommand_short (h : ShortAssociate s) : s.stationCommand k r = .error .wrap := by
  obtain ⟨⟨htaken, h8, hfits, hwhole⟩, hop, hlen, hshort, hmode⟩ := h
  unfold stationCommand
  rw [if_neg (by omega), if_neg (by omega)]
  have hdispatch : s.dispatch k r s.command.data = .error .wrap := by
    unfold dispatch
    rw [get16_eq (by omega), get16_eq (by omega)]
    show (if s.word 2 ≠ s.command.data.length ∨ s.word 0 &&& 0x8000 ≠ 0 then pure s.refuse
      else s.execute k r s.command.data (s.word 0) (s.word 2)) = .error .wrap
    rw [hop, if_neg (by rw [not_or, Decidable.not_not, Decidable.not_not]; exact ⟨by omega, by decide⟩)]
    exact associate_short (by omega) hmode
  simp only [hdispatch]
  rfl

end Bounds

/-! ## Runs -/

/-- The access has the card execute its waiting command. -/
def commands (s : Card) : Access → Prop
  | .write off size v _ =>
    off = 2 ∧ (size = 1 ∨ size = 2) ∧ v &&& s.hostStatus &&& wl54cfCommand ≠ 0 ∧ s.firmwareStage = 2
  | _ => False

section Runs

variable {k : Crypto} {r : Chance} {s t : Card}

theorem stationCommand_settings : Allows (fun t => settings t.security = settings s.security) (s.stationCommand k r) := by
  unfold stationCommand
  apply ends_ite
  · intro _
    exact ends_ok rfl
  intro _
  apply ends_ite
  · intro _
    exact ends_ok rfl
  intro _
  have hdispatch : Allows (fun a => settings a.1.security = settings s.security) (s.dispatch k r s.command.data) := by
    unfold dispatch
    apply allows_bind
    intro op
    apply allows_bind
    intro n
    apply ends_ite
    · intro _
      exact ends_pure rfl
    intro hn
    rw [not_or, Decidable.not_not] at hn
    apply execute_ends hn.1
    · intro a ha
      exact ha.1
    · intro _
      exact ends_mono keeps_associate fun a ha => ha.1
    · intro _
      rw [setWep_eq hn.1]
      apply ends_ok
      split <;> rfl
  apply ends_bind hdispatch
  rintro ⟨t, answer⟩ ht
  apply allows_bind
  intro response
  exact ends_pure ht

theorem settings_transmit : settings (s.transmit k r).security = settings s.security := by
  unfold transmit
  simp only
  split
  · exact settings_tx ..
  · rfl

theorem security_helperBlock (s : Card) (length : Nat) : (s.helperBlock length).security = s.security := by
  unfold helperBlock
  split
  · split
    · rfl
    · rfl
  split
  · rfl
  · rfl

theorem security_stationBlock (s : Card) (data : List UInt8) (length : Nat) :
    (s.stationBlock data length).security = s.security := by
  unfold stationBlock
  simp only
  split
  · rfl
  split
  · rfl
  split
  · rfl
  split
  · split
    · rfl
    · rfl
  split
  · rfl
  · rfl

theorem settings_firmwareBlock : s.firmwareBlock.security = s.security := by
  unfold firmwareBlock
  simp only
  split
  · rfl
  split
  · exact security_helperBlock s _
  split
  · exact security_stationBlock s _ _
  · rfl

theorem settings_pump : settings s.pump.security = settings s.security := by
  unfold pump receive
  simp only
  repeat' split
  all_goals rfl

theorem writeEvents_ends {E : Fault → Prop} (v : Nat)
    (h : v &&& s.hostStatus &&& wl54cfCommand ≠ 0 → s.firmwareStage = 2 →
      Ends (fun t => settings t.security = settings s.security) E (s.stationCommand k r)) :
    Ends (fun t => settings t.security = settings s.security) E (s.writeEvents k r v) := by
  unfold writeEvents
  extract_lets w rest
  have hrest : ∀ u : Card, settings u.security = settings s.security →
      Ends (fun t => settings t.security = settings s.security) E (rest u) := by
    intro u hu
    apply ends_pure
    have htx : settings (if w &&& wl54cfTx ≠ 0 ∧ u.firmwareStage = 2 then u.transmit k r else u).security =
      settings s.security := by
      split
      · exact settings_transmit.trans hu
      · exact hu
    show settings (if w &&& wl54cfRx ≠ 0 then _ else _ : Card).security = settings s.security
    split
    · exact htx
    · exact htx
  apply ends_ite
  · intro hloads
    apply ends_bind (P := fun u => settings u.security = settings s.security) (ends_ok _) hrest
    rw [settings_firmwareBlock]
  intro _
  apply ends_ite
  · intro hstation
    exact ends_bind (h hstation.1 hstation.2) hrest
  · intro _
    exact ends_bind (P := fun u => settings u.security = settings s.security) (ends_ok rfl) hrest

/-- A step changes no setting, and ends as the command ends that it has the card execute. -/
theorem step_ends {E : Fault → Prop} (a : Access)
    (h : commands s a → ∀ r, Ends (fun t => settings t.security = settings s.security) E (s.stationCommand k r)) :
    Ends (fun t => settings t.security = settings s.security) E (step k s a) := by
  cases a with
  | reset => exact ends_ok rfl
  | receive packet =>
    apply ends_ok
    unfold receive
    simp only
    repeat' split
    all_goals rfl
  | read off size =>
    apply ends_ok
    unfold read
    simp only
    split
    · exact settings_pump
    split
    · split <;> exact settings_pump
    split <;> exact settings_pump
  | write off size v r =>
    have hsame : ∀ t : Card, t.security = s.security → Ends (fun t => settings t.security = settings s.security) E (.ok t) := by
      intro t ht
      exact ends_ok (congrArg settings ht)
    show Ends _ E (s.write k r off size v)
    unfold write
    refine ends_ite (fun _ => hsame _ rfl) fun _ => ?_
    refine ends_ite (fun _ => hsame _ rfl) fun _ => ?_
    refine ends_ite (fun _ => hsame _ rfl) fun _ => ?_
    refine ends_ite (fun _ => hsame _ rfl) fun hsize => ?_
    refine ends_ite (fun _ => hsame _ rfl) fun _ => ?_
    refine ends_ite (fun hoff => ?_) fun _ => ?_
    · apply writeEvents_ends
      intro hcommand hready
      exact h ⟨hoff, by omega, hcommand, hready⟩ r
    refine ends_ite (fun _ => hsame _ rfl) fun _ => ?_
    refine ends_ite (fun _ => hsame _ rfl) fun _ => ?_
    refine ends_ite (fun _ => hsame _ rfl) fun _ => ?_
    refine ends_ite (fun _ => ?_) fun _ => hsame _ rfl
    unfold acknowledge
    simp only
    split <;> exact hsame _ rfl

theorem step_short {a : Access} (ha : commands s a) (h : ShortAssociate s) : step k s a = .error .wrap := by
  cases a with
  | reset => exact ha.elim
  | receive packet => exact ha.elim
  | read off size => exact ha.elim
  | write off size v r =>
    obtain ⟨rfl, hsize, hcommand, hready⟩ := ha
    have hevents : s.write k r 2 size v = s.writeEvents k r v := by
      unfold write
      rw [if_neg (by omega), if_neg (by decide), if_neg (by decide), if_neg (by omega), if_neg (by decide), if_pos rfl]
    show s.write k r 2 size v = .error .wrap
    rw [hevents]
    unfold writeEvents
    simp only
    rw [if_neg (by omega), if_pos ⟨hcommand, hready⟩, stationCommand_short h]
    rfl

/-- From a card whose element has its header, a run faults exactly at a short ASSOCIATE. -/
theorem run_fine_iff (accesses : List Access) (hie : HasIe s.security) :
    Fine (run k s accesses) ↔ ∀ before a after t, accesses = before ++ a :: after → run k s before = .ok t →
      commands t a → ¬ ShortAssociate t := by
  induction accesses generalizing s with
  | nil =>
    constructor
    · intro _ before a after t h
      simp at h
    · intro _
      exact fine_ok
  | cons x rest ih =>
    by_cases hx : commands s x ∧ ShortAssociate s
    · constructor
      · intro h
        rw [run_cons, step_short hx.1 hx.2] at h
        exact (gives_error h).elim
      · intro h
        exact absurd hx.2 (h [] x rest s rfl rfl hx.1)
    · have hstep : Gives (fun t => settings t.security = settings s.security) (step k s x) := by
        apply step_ends
        intro hcommands r
        apply ends_mono (Lib.gives_and (stationCommand_inside hie fun h => hx ⟨hcommands, h⟩) stationCommand_settings)
        intro t ht
        exact ht.2
      obtain ⟨u, hu, hsame⟩ := gives_iff.mp hstep
      have hrun : ∀ l, run k s (x :: l) = run k u l := by
        intro l
        rw [run_cons, hu]
        rfl
      rw [hrun, ih (hie.of_settings hsame)]
      constructor
      · rintro h (_ | ⟨y, before⟩) a after t heq ht
        · obtain ⟨rfl, rfl⟩ := List.cons.inj heq
          cases ht
          exact fun hcommands hshort => hx ⟨hcommands, hshort⟩
        · obtain ⟨rfl, rfl⟩ := List.cons.inj heq
          exact h before a after t rfl ((hrun before).symm.trans ht)
      · intro h before a after t heq ht
        exact h (x :: before) a after t (congrArg (x :: ·) heq) ((hrun before).trans ht)

end Runs

/-! ## Failed commands -/

/-- What the station remembers. -/
structure Station where
  security : Security
  wep : Nat → List UInt8
  wepIndex : Nat
  rsn : Bool
  authenticated : Bool
  associated : Bool
  radio : Bool
  channel : Nat
  macControl : Nat

def station (s : Card) : Station :=
  ⟨s.security, s.wep, s.wepIndex, s.rsn, s.authenticated, s.associated, s.radio, s.channel, s.macControl⟩

/-- The result in the response. -/
def result (s : Card) : Nat := Lib.rd 2 (Lib.at' s.response.data) 6

/-- A SET_WEP of the right size and with a valid index that is refused, though it brings
    another index or other keys. -/
structure HalfStored (s : Card) : Prop extends Answered s where
  opcode : s.word 0 = 0x13
  declared : s.word 2 = s.command.length
  size : s.command.length = 80
  index : s.word 10 ≤ 3
  refused : RefusesKeys s.command.data
  new : s.wepIndex ≠ s.word 10 ∨ s.wep ≠ storedKeys s.command.data

section Failed

variable {k : Crypto} {r : Chance} {s t : Card}

theorem respond_result {c data : List UInt8} {a : Answer} (h : respond c a = .ok data) :
    Lib.rd 2 (Lib.at' data) 6 = a.result % 65536 := by
  have hgives : Allows (fun data => Lib.rd 2 (Lib.at' data) 6 = a.result % 65536) (respond c a) := by
    unfold respond
    apply allows_bind
    intro op
    apply ends_bind (P := fun b => b.length = 2)
    · unfold bytes
      apply ends_ite
      · intro h6
        apply ends_ok
        rw [List.length_take, List.length_drop]
        omega
      · intro _
        exact ends_error trivial
    intro sequence hlength
    apply ends_pure
    have hbegin : (Lib.le 2 (op ||| 0x8000) ++ Lib.le 2 (8 + a.payload.length) ++ sequence).length = 6 := by
      rw [List.length_append, List.length_append, Lib.le_length, Lib.le_length, hlength]
    have hat := Lib.rd_append_right 2 (Lib.le 2 (op ||| 0x8000) ++ Lib.le 2 (8 + a.payload.length) ++ sequence)
      (Lib.le 2 a.result ++ (a.payload ++ zeros 8)) 0
    rw [hbegin, Lib.rd_le] at hat
    simp only [List.append_assoc] at hat ⊢
    exact hat
  exact allows_iff.mp hgives data h

theorem dispatch_keeps (hs : Answered s) (h : ¬ HalfStored s) :
    Allows (fun a => a.2.result ≠ 0 → a.1.station = s.station) (s.dispatch k r s.command.data) := by
  have hlen := hs.whole
  have h8 := hs.header
  unfold dispatch
  rw [get16_eq (by omega), get16_eq (by omega)]
  apply ends_bind (P := fun op => op = s.word 0) (ends_ok rfl)
  rintro op rfl
  apply ends_bind (P := fun n => n = s.word 2) (ends_ok rfl)
  rintro n rfl
  apply ends_ite
  · intro _
    exact ends_pure fun _ => rfl
  intro hn
  rw [not_or, Decidable.not_not] at hn
  apply execute_ends hn.1
  · intro a ha hne
    rw [ha.2 hne]
  · intro _
    apply ends_mono keeps_associate
    intro a ha hne
    rw [ha.2 hne]
  · intro hop
    rw [setWep_eq hn.1]
    apply ends_ok
    intro hne
    by_cases hwep : s.word 2 = 80 ∧ Lib.rd 2 (Lib.at' s.command.data) 10 ≤ 3
    case neg =>
      rw [if_neg hwep]
      rfl
    rw [if_pos hwep] at hne ⊢
    have hrefused : RefusesKeys s.command.data := by
      by_contra hfine
      exact hne (if_neg hfine)
    have hold : ¬ (s.wepIndex ≠ s.word 10 ∨ s.wep ≠ storedKeys s.command.data) := by
      intro hnew
      exact h ⟨hs, hop, by omega, by omega, hwep.2, hrefused, hnew⟩
    rw [not_or, Decidable.not_not, not_not] at hold
    show ({ s with wepIndex := s.word 10, wep := storedKeys s.command.data } : Card).station = s.station
    rw [← hold.1, ← hold.2]

theorem stationCommand_answered (hs : Answered s) : s.stationCommand k r = (s.dispatch k r s.command.data).bind fun a =>
    (respond s.command.data a.2).bind fun data =>
      .ok { a.1 with response := ⟨data, 0⟩, cause := a.1.cause ||| wl54cfResponse } := by
  obtain ⟨htaken, h8, hfits, hwhole⟩ := hs
  unfold stationCommand
  rw [if_neg (not_not_intro htaken), if_neg (by omega)]
  rfl

theorem halfStored_changes (h : HalfStored s) :
    ∃ t, s.stationCommand k r = .ok t ∧ t.result ≠ 0 ∧ t.station ≠ s.station := by
  obtain ⟨hs, hop, hdeclared, hsize, hindex, hrefused, hnew⟩ := h
  have hwhole := hs.whole
  have hdispatch : s.dispatch k r s.command.data =
      .ok ({ s with wepIndex := s.word 10, wep := storedKeys s.command.data }, ⟨2, []⟩) := by
    unfold dispatch
    rw [get16_eq (by omega), get16_eq (by omega)]
    show (if s.word 2 ≠ s.command.data.length ∨ s.word 0 &&& 0x8000 ≠ 0 then pure s.refuse
      else s.execute k r s.command.data (s.word 0) (s.word 2)) = _
    rw [hop, if_neg (by rw [not_or, Decidable.not_not, Decidable.not_not]; exact ⟨by omega, by decide⟩)]
    show s.setWep s.command.data (s.word 2) = _
    rw [setWep_eq (by omega), if_pos ⟨by omega, hindex⟩, if_pos hrefused]
    rfl
  obtain ⟨data, hdata, -⟩ := gives_iff.mp (fine_respond (c := s.command.data) (by omega) ⟨2, []⟩)
  refine ⟨{ ({ s with wepIndex := s.word 10, wep := storedKeys s.command.data } : Card) with
    response := ⟨data, 0⟩, cause := s.cause ||| wl54cfResponse }, ?_, ?_, ?_⟩
  · rw [stationCommand_answered hs, hdispatch]
    dsimp only [Except.bind]
    rw [hdata]
  · show Lib.rd 2 (Lib.at' data) 6 ≠ 0
    rw [respond_result hdata]
    decide
  · intro hsame
    rcases hnew with hnew | hnew
    · exact hnew (congrArg Station.wepIndex hsame).symm
    · exact hnew (congrArg Station.wep hsame).symm

end Failed

end Card

/-- A command handler reads inside its command, in every run from every configuration,
    unless an ASSOCIATE of fewer than 21 bytes comes in a WPA mode. -/
theorem commands_inside (k : Crypto) (mac : List UInt8) (mode : Nat) (key : Option (List UInt8)) (accesses : List Card.Access) :
    (∃ s, Card.run k (Card.init k mac mode key) accesses = .ok s) ↔
      ∀ before a after s, accesses = before ++ a :: after → Card.run k (Card.init k mac mode key) before = .ok s →
        Card.commands s a → ¬ Card.ShortAssociate s := by
  have hie : HasIe (Card.init k mac mode key).security := (hasIe_init k mac mode key).of_settings rfl
  rw [← Card.run_fine_iff accesses hie]
  constructor
  · rintro ⟨s, hs⟩
    exact gives_iff.mpr ⟨s, hs, trivial⟩
  · intro h
    obtain ⟨s, hs, -⟩ := gives_iff.mp h
    exact ⟨s, hs⟩

/-- A command that is answered with a result other than zero leaves the station as it was,
    unless it is a SET_WEP refused after it has stored what it brings. -/
theorem failed_keeps_iff (k : Crypto) (r : Chance) (s : Card) :
    (∀ t, s.stationCommand k r = .ok t → s.Answered → t.result ≠ 0 → t.station = s.station) ↔ ¬ s.HalfStored := by
  constructor
  · intro h hhalf
    obtain ⟨t, ht, hresult, hchanged⟩ := Card.halfStored_changes (k := k) (r := r) hhalf
    exact hchanged (h t ht hhalf.toAnswered hresult)
  · intro h t ht hs hresult
    rw [Card.stationCommand_answered hs] at ht
    have hkeeps := allows_iff.mp (Card.dispatch_keeps (k := k) (r := r) hs h)
    generalize hdispatch : s.dispatch k r s.command.data = x at ht
    rcases x with _ | a
    · cases ht
    generalize hrespond : Card.respond s.command.data a.2 = y at ht
    rcases y with _ | data
    · dsimp only [Except.bind] at ht
      rw [hrespond] at ht
      cases ht
    dsimp only [Except.bind] at ht
    rw [hrespond] at ht
    cases ht
    apply hkeeps a hdispatch
    intro hzero
    apply hresult
    show Lib.rd 2 (Lib.at' data) 6 = 0
    rw [Card.respond_result hrespond, hzero]

/-! ## Two commands -/

def still : Chance := ⟨none, none, none, true⟩

/-- The smallest download, and blocks after it. -/
def withFirmware (blocks : List (List UInt8)) : List Card.Access :=
  (([[0, 0], [], headerBytes 1 2, [0, 0], headerBytes 4 0] ++ blocks).map bytewise).flatMap (Block.accesses still)

def tkipCard : Card := Card.init counting tkipMac 2 (some [98, 101, 51, 48, 48, 32, 97, 112])

/-- An ASSOCIATE without a body has the card read outside it. -/
theorem short_associate_wraps :
    ¬ ∃ s, Card.run counting tkipCard (withFirmware [[0x50, 0, 8, 0, 0, 0, 0, 0]]) = .ok s := by
  have hnone : (Card.run counting tkipCard (withFirmware [[0x50, 0, 8, 0, 0, 0, 0, 0]])).toOption.isNone := by decide
  rintro ⟨s, hs⟩
  rw [hs] at hnone
  exact absurd hnone Bool.false_ne_true

/-- SET_WEP with the index 1 and the action 0, not yet executed. -/
def badAction : List Card.Access :=
  .write 0x18 2 80 still :: ([0x13, 0, 80, 0, 0, 0, 0, 0, 0, 0, 1, 0] ++ zeros 68).map fun b : UInt8 =>
    .write 0x1a 1 b.toNat still

set_option maxRecDepth 100000 in
/-- Its index stays, though its action is refused. -/
theorem refused_index_stays : ∃ s t, Card.run counting tkipCard (withFirmware [] ++ badAction) = .ok s ∧
    s.stationCommand counting still = .ok t ∧ s.Answered ∧ t.result ≠ 0 ∧ t.station ≠ s.station := by
  have hrun : (Card.run counting tkipCard (withFirmware [] ++ badAction)).toOption.any fun s =>
      s.cause &&& wl54cfResponse == 0 && s.command.length == 80 && s.command.data.length == 80 && s.word 0 == 0x13 &&
        s.word 2 == 80 && s.word 10 == 1 && s.word 8 == 0 && s.wepIndex == 0 := by decide
  generalize hcard : Card.run counting tkipCard (withFirmware [] ++ badAction) = x at hrun
  rcases x with _ | s
  · exact absurd hrun Bool.false_ne_true
  simp only [Except.toOption, Option.any_some, Bool.and_eq_true, beq_iff_eq] at hrun
  obtain ⟨⟨⟨⟨⟨⟨⟨htaken, hlength⟩, hwhole⟩, hop⟩, hdeclared⟩, hindex⟩, haction⟩, hzero⟩ := hrun
  have hs : s.Answered := ⟨htaken, by omega, by rw [hlength]; decide, by omega⟩
  have hhalf : s.HalfStored :=
    { hs with
      opcode := hop
      declared := by omega
      size := hlength
      index := by omega
      refused := by
        change Lib.rd 2 (Lib.at' s.command.data) 8 = 0 at haction
        exact ⟨by omega, fun h2 => by omega⟩
      new := Or.inl (by omega) }
  obtain ⟨t, ht, hresult, hchanged⟩ := Card.halfStored_changes (k := counting) (r := still) hhalf
  exact ⟨s, t, rfl, ht, hs, hresult, hchanged⟩

end Be300.Wifi
