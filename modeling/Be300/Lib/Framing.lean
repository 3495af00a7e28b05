/-
  Be300.Lib.Framing — packets cut from a stream that arrives in pieces.

  A `Framer` says what stands at the front of the bytes there are: not enough for a packet,
  something that cannot be one, or a packet and how long it is. What it says may depend on a
  state, which packets change; more bytes behind do not change it. `decode` takes packets off
  the front as long as there are any. `decode_append`: decoding a stream is decoding its
  first part and then going on from the state and the bytes that were left, so what is
  decoded does not depend on how the stream was cut. A stream that can go on leaves no
  packet behind (`decode_rest`).
-/

import Mathlib.Data.List.Basic
import Mathlib.Tactic.Common

namespace Be300.Lib

/-- What stands at the front of a stream. -/
inductive Next (π : Type) where
  | more
  | bad
  | packet (p : π) (n : Nat)

structure Framer (σ α π : Type) where
  next : σ → List α → Next π
  after : σ → π → σ
  inside : ∀ {s b p n}, next s b = .packet p n → 0 < n ∧ n ≤ b.length
  packet_append : ∀ {s b p n} (c : List α), next s b = .packet p n → next s (b ++ c) = .packet p n
  bad_append : ∀ {s b} (c : List α), next s b = .bad → next s (b ++ c) = .bad

/-- The packets, the state after them, the bytes left, and whether these cannot be a packet. -/
structure Decoded (σ α π : Type) where
  packets : List π
  state : σ
  rest : List α
  bad : Bool

namespace Framer

variable {σ α π : Type} (F : Framer σ α π)

def decode (s : σ) (b : List α) : Decoded σ α π :=
  match _h : F.next s b with
  | .more => ⟨[], s, b, false⟩
  | .bad => ⟨[], s, b, true⟩
  | .packet p n =>
    let d := decode (F.after s p) (b.drop n)
    { d with packets := p :: d.packets }
termination_by b.length
decreasing_by
  have hn := F.inside _h
  rw [List.length_drop]
  omega

variable {F} {s : σ} {b c : List α} {p : π} {n : Nat}

theorem decode_more (h : F.next s b = .more) : F.decode s b = ⟨[], s, b, false⟩ := by
  rw [decode]
  split
  · rfl
  · rename_i h'
    rw [h] at h'
    cases h'
  · rename_i h'
    rw [h] at h'
    cases h'

theorem decode_bad (h : F.next s b = .bad) : F.decode s b = ⟨[], s, b, true⟩ := by
  rw [decode]
  split
  · rename_i h'
    rw [h] at h'
    cases h'
  · rfl
  · rename_i h'
    rw [h] at h'
    cases h'

theorem decode_packet (h : F.next s b = .packet p n) :
    F.decode s b = { F.decode (F.after s p) (b.drop n) with packets := p :: (F.decode (F.after s p) (b.drop n)).packets } := by
  rw [decode]
  split
  · rename_i h'
    rw [h] at h'
    cases h'
  · rename_i h'
    rw [h] at h'
    cases h'
  · rename_i p' n' h'
    rw [h] at h'
    cases h'
    rfl

/-- A decoder that is given more. -/
def feed (F : Framer σ α π) (d : Decoded σ α π) (c : List α) : Decoded σ α π :=
  if d.bad then { d with rest := d.rest ++ c }
  else
    let e := F.decode d.state (d.rest ++ c)
    { e with packets := d.packets ++ e.packets }

theorem decode_append (F : Framer σ α π) (s : σ) (b c : List α) : F.decode s (b ++ c) = F.feed (F.decode s b) c := by
  generalize hm : b.length = m
  induction m using Nat.strongRecOn generalizing s b with
  | ind m ih =>
    cases hnext : F.next s b with
    | more =>
      rw [decode_more hnext, feed, if_neg (by simp)]
      rfl
    | bad =>
      rw [decode_bad hnext, decode_bad (F.bad_append c hnext), feed, if_pos rfl]
    | packet p n =>
      obtain ⟨hpos, hinside⟩ := F.inside hnext
      have hrest := ih (b.drop n).length (by rw [List.length_drop]; omega) (F.after s p) (b.drop n) rfl
      rw [decode_packet (F.packet_append c hnext), decode_packet hnext, List.drop_append_of_le_length hinside, hrest]
      unfold feed
      simp only
      split
      · rfl
      · rfl

/-- What is left of a stream that can go on holds no packet. -/
theorem decode_rest (F : Framer σ α π) (s : σ) (b : List α) (h : (F.decode s b).bad = false) :
    F.next (F.decode s b).state (F.decode s b).rest = .more := by
  generalize hm : b.length = m
  induction m using Nat.strongRecOn generalizing s b with
  | ind m ih =>
    cases hnext : F.next s b with
    | more =>
      rw [decode_more hnext]
      exact hnext
    | bad =>
      rw [decode_bad hnext] at h
      cases h
    | packet p n =>
      obtain ⟨hpos, hinside⟩ := F.inside hnext
      rw [decode_packet hnext] at h ⊢
      exact ih (b.drop n).length (by rw [List.length_drop]; omega) (F.after s p) (b.drop n) h rfl

end Framer

end Be300.Lib
