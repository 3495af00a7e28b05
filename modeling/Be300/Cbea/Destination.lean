/-
  Be300.Cbea.Destination — where the installer puts a file (`str_subst`, `resolve_dest` of
  `src/cbea_install.c`).

  `strSubst` is the loop on the buffer: the bytes that it has passed, and the rest. It also
  lists the ranges of the buffer that it writes. `replaceFrom` is what it is for; a token may
  not be empty, or the loop need not end (`emptyToken_endless`). A destination has no empty
  component (`Tidy`), so that writing and reading find the same entry of a volume: on any
  disk where its directories are there (`SameEntry`), and after a run that makes them where
  the directories on the way are in order (`MadeFound`).
-/

import Be300.Cbea.Inf
import Be300.Cbea.Registry
import Be300.Fat.Mkdirs

namespace Be300.Cbea

/-! ## The code -/

def strIPrefix : List UInt8 → List UInt8 → Bool
  | _, [] => true
  | [], _ :: _ => false
  | x :: s, y :: p => lowerAscii x.toNat == lowerAscii y.toNat && strIPrefix s p

/-- The answer of `str_subst`, the string in the buffer, and the ranges written: an offset and a length each. -/
structure Subst where
  ok : Bool
  text : List UInt8
  writes : List (Nat × Nat)
  deriving DecidableEq

/-- `done` is before `p`, the last argument from `p` on. -/
def strSubst (cap : Nat) (token repl : List UInt8) : Nat → List UInt8 → List UInt8 → Option Subst
  | 0, _, _ => none
  | _ + 1, done, [] => some ⟨true, done, []⟩
  | fuel + 1, done, c :: p =>
    if strIPrefix (c :: p) token then
      let rest := (c :: p).drop token.length
      if cap < done.length + repl.length + rest.length + 1 then some ⟨false, done ++ c :: p, []⟩
      else
        (strSubst cap token repl fuel (done ++ repl) rest).map fun r =>
          { r with writes := (done.length + repl.length, rest.length + 1) :: (done.length, repl.length) :: r.writes }
    else strSubst cap token repl fuel (done ++ [c]) p

def backslash : UInt8 := 0x5C

/-- The loop that fills `norm`. -/
def normalize : List UInt8 → List UInt8 → List UInt8
  | norm, [] => norm
  | norm, b :: p =>
    if maxPathLen ≤ norm.length + 1 then norm
    else
      let c := if b = 0x2F then backslash else b
      if c = backslash ∧ norm.getLast? = some backslash then normalize norm p else normalize (norm ++ [c]) p

/-- Without the backslashes at its end. -/
def stripEnd (norm : List UInt8) : List UInt8 := (norm.reverse.dropWhile (· == backslash)).reverse

def installDirToken : List UInt8 := ascii "%INSTALL_DIR%"
def driveToken : List UInt8 := ascii "?Drive?"
def nandDisk : List UInt8 := ascii "\\Nand Disk"
def windowsDir : List UInt8 := ascii "\\Windows\\"
def patchDir : List UInt8 := ascii "Program Files\\Patch\\"

inductive DestError where
  | tooLong
  | noPath
  | unsupported (norm : List UInt8)
  deriving DecidableEq

def DestError.log : DestError → List UInt8
  | unsupported norm => ascii "error: unsupported install destination " ++ norm ++
      ascii " (only \\Nand Disk and \\Windows files)\n"
  | _ => []

/-- A destination within the volume, and what is logged. -/
structure Dest where
  path : List UInt8
  log : List UInt8
  deriving DecidableEq

def resolveNorm (norm : List UInt8) (cap : Nat) : Except DestError Dest :=
  if strIPrefix norm (nandDisk ++ [backslash]) then
    let rel := norm.drop (nandDisk.length + 1)
    if cap < rel.length + 1 then .error .tooLong else if rel = [] then .error .noPath else .ok ⟨rel, []⟩
  else if strIPrefix norm windowsDir ∧ backslash ∉ norm.drop windowsDir.length then
    let out := patchDir ++ norm.drop windowsDir.length
    if cap ≤ out.length then .error .tooLong
    else .ok ⟨out, ascii "  note: " ++ norm ++ ascii " -> \\Nand Disk\\" ++ out ++ ascii " (shadowed into \\Windows at boot)\n"⟩
  else .error (.unsupported norm)

/-- The string that a call of `str_subst` leaves in `buf`, if it succeeds. -/
def substituted (token repl s : List UInt8) : Option (List UInt8) :=
  (strSubst maxPathLen token repl (s.length + 1) [] s).bind fun r => if r.ok then some r.text else none

def resolveDest (installDir inp : List UInt8) (cap : Nat) : Except DestError Dest :=
  if maxPathLen ≤ inp.length then .error .tooLong
  else
    match (substituted installDirToken installDir inp).bind (substituted driveToken nandDisk) with
    | none => .error .tooLong
    | some buf => resolveNorm (stripEnd (normalize [] buf)) cap

/-! ## Substitution -/

/-- Every occurrence of the token replaced, from left to right; what was put in is not looked at again. `skip` bytes of an
    occurrence are left to pass. -/
def replaceFrom (token repl : List UInt8) : Nat → List UInt8 → List UInt8
  | _, [] => []
  | skip + 1, _ :: s => replaceFrom token repl skip s
  | 0, c :: s => if strIPrefix (c :: s) token then repl ++ replaceFrom token repl (token.length - 1) s
      else c :: replaceFrom token repl 0 s

/-- The whole string after each replacement. -/
def results (token repl : List UInt8) : List UInt8 → Nat → List UInt8 → List (List UInt8)
  | _, _, [] => []
  | done, skip + 1, _ :: s => results token repl done skip s
  | done, 0, c :: s =>
    if strIPrefix (c :: s) token then (done ++ repl ++ (c :: s).drop token.length) :: results token repl (done ++ repl)
      (token.length - 1) s
    else results token repl (done ++ [c]) 0 s

/-- What a call of `str_subst` does: it ends; it answers false exactly when a result does not fit; else every occurrence is
    replaced; and it writes within the buffer. -/
def Replaces (cap : Nat) (token repl s : List UInt8) : Prop :=
  ∃ r, (∀ fuel, s.length < fuel → strSubst cap token repl fuel [] s = some r) ∧
    (r.ok = false ↔ ∃ x ∈ results token repl [] 0 s, cap < x.length + 1) ∧
    (r.ok = true → r.text = replaceFrom token repl 0 s) ∧
    ∀ w ∈ r.writes, w.1 + w.2 ≤ cap

section Subst

variable {cap : Nat} {token repl done s : List UInt8}

theorem replaceFrom_skip (token repl : List UInt8) (n : Nat) (s : List UInt8) :
    replaceFrom token repl n s = replaceFrom token repl 0 (s.drop n) := by
  induction n generalizing s with
  | zero => rfl
  | succ n ih =>
    cases s with
    | nil => rfl
    | cons c s => exact ih s

theorem results_skip (token repl done : List UInt8) (n : Nat) (s : List UInt8) :
    results token repl done n s = results token repl done 0 (s.drop n) := by
  induction n generalizing s with
  | zero => rfl
  | succ n ih =>
    cases s with
    | nil => rfl
    | cons c s => exact ih s

theorem drop_token (htoken : token ≠ []) (c : UInt8) (s : List UInt8) :
    (c :: s).drop token.length = s.drop (token.length - 1) := by
  have hpos : 0 < token.length := List.length_pos_iff.mpr htoken
  obtain ⟨k, hk⟩ : ∃ k, token.length = k + 1 := ⟨token.length - 1, by omega⟩
  rw [hk, List.drop_succ_cons, Nat.add_sub_cancel]

theorem results_match {c : UInt8} (repl done : List UInt8) (htoken : token ≠ []) (hmatch : strIPrefix (c :: s) token = true) :
    results token repl done 0 (c :: s) =
      (done ++ repl ++ s.drop (token.length - 1)) :: results token repl (done ++ repl) 0 (s.drop (token.length - 1)) := by
  rw [results, if_pos hmatch, drop_token htoken, results_skip]

theorem replaceFrom_match {c : UInt8} (repl : List UInt8) (hmatch : strIPrefix (c :: s) token = true) :
    replaceFrom token repl 0 (c :: s) = repl ++ replaceFrom token repl 0 (s.drop (token.length - 1)) := by
  rw [replaceFrom, if_pos hmatch, replaceFrom_skip]

/-- The loop from `done` on. -/
theorem strSubst_spec (htoken : token ≠ []) (n : Nat) (done s : List UInt8) (hn : s.length ≤ n) :
    ∃ r, (∀ fuel, s.length < fuel → strSubst cap token repl fuel done s = some r) ∧
      (r.ok = false ↔ ∃ x ∈ results token repl done 0 s, cap < x.length + 1) ∧
      (r.ok = true → r.text = done ++ replaceFrom token repl 0 s) ∧
      ∀ w ∈ r.writes, w.1 + w.2 ≤ cap := by
  induction n generalizing done s with
  | zero =>
    obtain rfl : s = [] := List.length_eq_zero_iff.mp (Nat.le_zero.mp hn)
    refine ⟨⟨true, done, []⟩, fun fuel hfuel => ?_, ?_, fun _ => ?_, fun w hw => absurd hw List.not_mem_nil⟩
    · cases fuel with
      | zero => exact absurd hfuel (Nat.lt_irrefl 0)
      | succ fuel => rfl
    · simp [results]
    · simp [replaceFrom]
  | succ n ih =>
    cases s with
    | nil => exact ih done [] (Nat.zero_le n)
    | cons c s =>
      have htail : ∀ fuel, (c :: s).length < fuel → ∃ k, fuel = k + 1 ∧ s.length < k := fun fuel hfuel =>
        ⟨fuel - 1, by rw [List.length_cons] at hfuel; omega, by rw [List.length_cons] at hfuel; omega⟩
      by_cases hmatch : strIPrefix (c :: s) token = true
      · have hdrop := drop_token htoken c s
        have hresults := results_match repl done htoken hmatch
        have hreplace := replaceFrom_match repl hmatch
        have hlen : (s.drop (token.length - 1)).length ≤ s.length := by
          rw [List.length_drop]
          omega
        by_cases hcap : cap < done.length + repl.length + (s.drop (token.length - 1)).length + 1
        · refine ⟨⟨false, done ++ c :: s, []⟩, fun fuel hfuel => ?_, ?_, fun htrue => absurd htrue Bool.false_ne_true,
            fun w hw => absurd hw List.not_mem_nil⟩
          · obtain ⟨k, rfl, -⟩ := htail fuel hfuel
            rw [strSubst, if_pos hmatch]
            simp only [hdrop]
            rw [if_pos hcap]
          · rw [hresults]
            refine iff_of_true rfl ⟨_, List.mem_cons_self, ?_⟩
            simp only [List.length_append]
            exact hcap
        · obtain ⟨r, hrun, hok, htext, hwrites⟩ := ih (done ++ repl) (s.drop (token.length - 1))
            (by rw [List.length_cons] at hn; omega)
          refine ⟨{ r with
            writes :=
              (done.length + repl.length, (s.drop (token.length - 1)).length + 1) :: (done.length, repl.length) :: r.writes },
            fun fuel hfuel => ?_, ?_, fun htrue => ?_, fun w hw => ?_⟩
          · obtain ⟨k, rfl, hk⟩ := htail fuel hfuel
            rw [strSubst, if_pos hmatch]
            simp only [hdrop]
            rw [if_neg hcap, hrun k (by omega)]
            rfl
          · rw [hresults]
            refine hok.trans ⟨fun ⟨x, hx, hlarge⟩ => ⟨x, List.mem_cons_of_mem _ hx, hlarge⟩, fun ⟨x, hx, hlarge⟩ => ?_⟩
            rcases List.mem_cons.mp hx with rfl | hx
            · simp only [List.length_append] at hlarge
              exact absurd hlarge hcap
            · exact ⟨x, hx, hlarge⟩
          · rw [hreplace, ← List.append_assoc]
            exact htext htrue
          · rcases List.mem_cons.mp hw with rfl | hw
            · show done.length + repl.length + ((s.drop (token.length - 1)).length + 1) ≤ cap
              omega
            · rcases List.mem_cons.mp hw with rfl | hw
              · show done.length + repl.length ≤ cap
                omega
              · exact hwrites w hw
      · obtain ⟨r, hrun, hok, htext, hwrites⟩ := ih (done ++ [c]) s (Nat.le_of_succ_le_succ hn)
        refine ⟨r, fun fuel hfuel => ?_, ?_, fun htrue => ?_, hwrites⟩
        · obtain ⟨k, rfl, hk⟩ := htail fuel hfuel
          rw [strSubst, if_neg hmatch]
          exact hrun k hk
        · rw [results, if_neg hmatch]
          exact hok
        · rw [htext htrue, replaceFrom, if_neg hmatch, List.append_assoc]
          rfl

theorem replaces (cap : Nat) (repl s : List UInt8) (htoken : token ≠ []) : Replaces cap token repl s := by
  obtain ⟨r, hrun, hok, htext, hwrites⟩ := @strSubst_spec _ _ _ htoken s.length [] s (Nat.le_refl _)
  exact ⟨r, hrun, hok, fun htrue => (htext htrue).trans (List.nil_append _), hwrites⟩

/-- An empty token that is replaced by nothing is found for ever. -/
theorem emptyToken_endless (cap fuel : Nat) (done : List UInt8) (c : UInt8) (s : List UInt8)
    (hcap : done.length + (c :: s).length + 1 ≤ cap) :
    strSubst cap [] [] fuel done (c :: s) = none := by
  induction fuel generalizing done with
  | zero => rfl
  | succ fuel ih =>
    rw [strSubst, if_pos (by simp [strIPrefix])]
    simp only [List.length_nil, List.drop_zero, List.append_nil, Nat.add_zero]
    rw [if_neg (by omega), ih done hcap]
    rfl

end Subst

/-! ## Destinations -/

/-- No two backslashes stand side by side. -/
def Apart : List UInt8 → Prop
  | a :: b :: s => ¬ (a = backslash ∧ b = backslash) ∧ Apart (b :: s)
  | _ => True

instance decidableApart : (s : List UInt8) → Decidable (Apart s)
  | [] => .isTrue trivial
  | [_] => .isTrue trivial
  | a :: b :: s =>
    have := decidableApart (b :: s); inferInstanceAs (Decidable (¬ (a = backslash ∧ b = backslash) ∧ Apart (b :: s)))

/-- A path with no empty component, and no backslash at either end. -/
structure Tidy (p : List UInt8) : Prop where
  apart : Apart p
  first : p.head? ≠ some backslash
  last : p.getLast? ≠ some backslash
  nonempty : p ≠ []

section Dest

variable {p q norm s : List UInt8}

theorem Apart.tail {a : UInt8} (h : Apart (a :: s)) : Apart s := by
  cases s with
  | nil => trivial
  | cons b s => exact h.2

theorem Apart.drop (h : Apart s) (n : Nat) : Apart (s.drop n) := by
  induction n generalizing s with
  | zero => exact h
  | succ n ih =>
    cases s with
    | nil => trivial
    | cons a s => exact ih h.tail

theorem Apart.left (h : Apart (p ++ q)) : Apart p := by
  induction p with
  | nil => trivial
  | cons a p ih =>
    cases p with
    | nil => trivial
    | cons b p => exact ⟨h.1, ih h.2⟩

theorem Apart.append (hp : Apart p) (hq : Apart q) (hmeet : ¬ (p.getLast? = some backslash ∧ q.head? = some backslash)) :
    Apart (p ++ q) := by
  induction p with
  | nil => exact hq
  | cons a p ih =>
    cases p with
    | nil =>
      cases q with
      | nil => trivial
      | cons b q => exact ⟨fun hab => hmeet ⟨by rw [hab.1]; rfl, by rw [hab.2]; rfl⟩, hq⟩
    | cons b p =>
      refine ⟨hp.1, ih hp.2 fun hend => hmeet ⟨?_, hend.2⟩⟩
      rw [List.getLast?_cons_cons]
      exact hend.1

theorem normalize_apart (h : Apart norm) (s : List UInt8) : Apart (normalize norm s) := by
  induction s generalizing norm with
  | nil => exact h
  | cons b s ih =>
    rw [normalize]
    simp only
    obtain ⟨c, hc⟩ : ∃ c, c = if b = 0x2F then backslash else b := ⟨_, rfl⟩
    rw [← hc]
    split
    · exact h
    · split
      · exact ih h
      · rename_i hmeet
        exact ih (h.append (show Apart [c] from trivial) fun hend => hmeet ⟨Option.some.inj hend.2, hend.1⟩)

theorem stripEnd_prefix (norm : List UInt8) : stripEnd norm <+: norm := by
  have hsuffix := List.dropWhile_suffix (l := norm.reverse) (· == backslash)
  rw [← List.reverse_prefix, List.reverse_reverse] at hsuffix
  exact hsuffix

theorem stripEnd_last (norm : List UInt8) : (stripEnd norm).getLast? ≠ some backslash := by
  rw [stripEnd, List.getLast?_reverse]
  intro hhead
  have hstop := List.head?_dropWhile_not (· == backslash) norm.reverse
  rw [hhead] at hstop
  simp at hstop

theorem resolved_apart (buf : List UInt8) : Apart (stripEnd (normalize [] buf)) := by
  obtain ⟨t, ht⟩ := stripEnd_prefix (normalize [] buf)
  have hnil : Apart [] := trivial
  have hall := normalize_apart hnil buf
  rw [← ht] at hall
  exact hall.left

/-- A string that begins with a name and a backslash. -/
theorem strIPrefix_append (hpre : strIPrefix s (p ++ [backslash]) = true) : s[p.length]? = some backslash := by
  induction p generalizing s with
  | nil =>
    cases s with
    | nil => cases hpre
    | cons x s =>
      rw [List.nil_append, strIPrefix, Bool.and_eq_true, beq_iff_eq] at hpre
      have hx : x = backslash := by
        have hlow := hpre.1
        have hlt := x.toNat_lt
        apply UInt8.toNat_inj.mp
        simp only [lowerAscii, backslash] at hlow ⊢
        split at hlow <;> simp at hlow ⊢ <;> omega
      rw [hx]
      rfl
  | cons y p ih =>
    cases s with
    | nil => cases hpre
    | cons x s =>
      rw [List.cons_append, strIPrefix, Bool.and_eq_true] at hpre
      rw [List.length_cons, List.getElem?_cons_succ]
      exact ih hpre.2

/-- What follows a backslash in a normalized path begins with none. -/
theorem Apart.after (h : Apart s) {n : Nat} (hn : s[n]? = some backslash) : (s.drop (n + 1)).head? ≠ some backslash := by
  intro hnext
  have hdrop := h.drop n
  obtain ⟨hlt, hget⟩ := List.getElem?_eq_some_iff.mp hn
  rw [List.drop_eq_getElem_cons hlt, hget] at hdrop
  cases hrest : s.drop (n + 1) with
  | nil =>
    rw [hrest] at hnext
    cases hnext
  | cons b r =>
    rw [hrest] at hnext hdrop
    exact hdrop.1 ⟨rfl, Option.some.inj hnext⟩

/-- The part behind the name is not empty, and ends as the whole does. -/
theorem behind (hpre : strIPrefix norm (p ++ [backslash]) = true) (hlast : norm.getLast? ≠ some backslash) :
    norm.drop (p.length + 1) ≠ [] ∧ (norm.drop (p.length + 1)).getLast? ≠ some backslash := by
  have hat := strIPrefix_append hpre
  have hlt := (List.getElem?_eq_some_iff.mp hat).1
  have hne : norm.drop (p.length + 1) ≠ [] := fun hnil => by
    have hlen := List.drop_eq_nil_iff.mp hnil
    rw [List.getLast?_eq_getElem?, show norm.length - 1 = p.length by omega] at hlast
    exact hlast hat
  refine ⟨hne, ?_⟩
  rw [List.getLast?_drop]
  split
  · exact fun h => by cases h
  · exact hlast

theorem resolveNorm_tidy {cap : Nat} {dest : Dest} (hnorm : Apart norm) (hlast : norm.getLast? ≠ some backslash)
    (h : resolveNorm norm cap = .ok dest) : Tidy dest.path ∧ dest.path.length + 1 ≤ cap := by
  unfold resolveNorm at h
  split at h
  · rename_i hpre
    simp only at h
    split at h
    · cases h
    rename_i hfit
    split at h
    · cases h
    cases h
    obtain ⟨hne, hend⟩ := behind hpre hlast
    exact ⟨⟨hnorm.drop _, hnorm.after (strIPrefix_append hpre), hend, hne⟩, Nat.not_lt.mp hfit⟩
  · split at h
    · rename_i hpre
      simp only at h
      split at h
      · cases h
      rename_i hfit
      cases h
      have hname : windowsDir = ascii "\\Windows" ++ [backslash] := by decide
      have hlen : windowsDir.length = (ascii "\\Windows").length + 1 := by rw [hname, List.length_append, List.length_singleton]
      obtain ⟨hne, hend⟩ := behind (hname ▸ hpre.1) hlast
      rw [← hlen] at hne hend
      have hfirst : (norm.drop windowsDir.length).head? ≠ some backslash := fun hhead => hpre.2 (List.mem_of_mem_head? hhead)
      refine ⟨⟨Apart.append (by decide) (hnorm.drop _) fun hmeet => hfirst hmeet.2, ?_, ?_, ?_⟩, Nat.not_le.mp hfit⟩
      · rw [List.head?_append, show patchDir.head? = some 0x50 from by decide, Option.some_or]
        decide
      · rw [List.getLast?_append_of_ne_nil _ hne]
        exact hend
      · exact fun hnil => hne (List.append_eq_nil_iff.mp hnil).2
    · cases h

theorem resolveDest_tidy {installDir inp : List UInt8} {cap : Nat} {dest : Dest} (h : resolveDest installDir inp cap = .ok dest) :
    Tidy dest.path ∧ dest.path.length + 1 ≤ cap := by
  unfold resolveDest at h
  split at h
  · cases h
  · split at h
    · cases h
    · exact resolveNorm_tidy (resolved_apart _) (stripEnd_last _) h

/-- The components of a tidy path. -/
theorem Tidy.components (h : Tidy p) : (∀ comp ∈ (Fat.splitPath p).1, comp ≠ []) ∧ (Fat.splitPath p).2 ≠ [] := by
  obtain ⟨happart, hfirst, hlast, hne⟩ := h
  suffices hall : (Fat.splitPath p).2 ≠ [] ∧ (∀ comp ∈ (Fat.splitPath p).1.tail, comp ≠ []) ∧
      (p.head? ≠ some backslash → ∀ comp ∈ (Fat.splitPath p).1, comp ≠ []) from ⟨hall.2.2 hfirst, hall.1⟩
  clear hfirst
  induction p with
  | nil => exact absurd rfl hne
  | cons c p ih =>
    cases p with
    | nil =>
      have hc : c ≠ 0x5C := fun heq => hlast (by rw [heq]; rfl)
      simp [Fat.splitPath, hc]
    | cons b q =>
      obtain ⟨hleaf, htail, hall⟩ := ih happart.tail (by rwa [List.getLast?_cons_cons] at hlast) (List.cons_ne_nil b q)
      rcases hsplit : Fat.splitPath (b :: q) with ⟨dirs, leaf⟩
      rw [hsplit] at hleaf htail hall
      rw [Fat.splitPath, hsplit]
      simp only
      by_cases hc : c = 0x5C
      · have hb : (b :: q).head? ≠ some backslash := fun hhead => happart.1 ⟨hc, Option.some.inj hhead⟩
        rw [if_pos hc]
        exact ⟨hleaf, hall hb, fun hhead => absurd (by rw [hc]; rfl) hhead⟩
      · rw [if_neg hc]
        cases dirs with
        | nil => simp
        | cons x ds =>
          refine ⟨hleaf, htail, fun _ comp hcomp => ?_⟩
          rcases List.mem_cons.mp hcomp with rfl | hcomp
          · exact List.cons_ne_nil c x
          · exact htail comp hcomp

end Dest

/-! ### No NUL -/

section Nul

variable {token repl s : List UInt8}

theorem mem_replaceFrom {x : UInt8} (skip : Nat) (h : x ∈ replaceFrom token repl skip s) : x ∈ repl ∨ x ∈ s := by
  induction s generalizing skip with
  | nil => cases skip <;> cases h
  | cons c s ih =>
    cases skip with
    | succ skip => exact (ih skip h).imp_right (List.mem_cons_of_mem _)
    | zero =>
      unfold replaceFrom at h
      split at h
      · rcases List.mem_append.mp h with h | h
        · exact .inl h
        · exact (ih _ h).imp_right (List.mem_cons_of_mem _)
      · rcases List.mem_cons.mp h with rfl | h
        · exact .inr (List.mem_cons_self ..)
        · exact (ih _ h).imp_right (List.mem_cons_of_mem _)

theorem mem_substituted {t : List UInt8} {x : UInt8} (htoken : token ≠ []) (h : substituted token repl s = some t) (hx : x ∈ t) :
    x ∈ repl ∨ x ∈ s := by
  obtain ⟨r, hrun, -, htext, -⟩ := replaces maxPathLen repl s htoken
  rw [substituted, hrun _ (Nat.lt_succ_self _), Option.bind_some] at h
  split at h
  · rename_i hok
    cases h
    rw [htext hok] at hx
    exact mem_replaceFrom 0 hx
  · cases h

theorem mem_normalize {x : UInt8} {norm : List UInt8} (h : x ∈ normalize norm s) : x ∈ norm ∨ x = backslash ∨ x ∈ s := by
  induction s generalizing norm with
  | nil => exact .inl h
  | cons b s ih =>
    have hrest : ∀ {n}, x ∈ normalize n s → x ∈ n ∨ x = backslash ∨ x ∈ b :: s := fun h =>
      (ih h).imp_right fun h => h.imp_right (List.mem_cons_of_mem _)
    rw [normalize] at h
    simp only at h
    obtain ⟨c, hc, hcb⟩ : ∃ c, (if b = 0x2F then backslash else b) = c ∧ (c = backslash ∨ c = b) := by
      split
      · exact ⟨_, rfl, .inl rfl⟩
      · exact ⟨_, rfl, .inr rfl⟩
    rw [hc] at h
    split at h
    · exact .inl h
    · split at h
      · exact hrest h
      · rcases hrest h with h | h
        · rcases List.mem_append.mp h with h | h
          · exact .inl h
          · rw [List.mem_singleton.mp h]
            refine .inr (hcb.imp_right fun heq => ?_)
            rw [heq]
            exact List.mem_cons_self ..
        · exact .inr h

theorem resolveNorm_noNul {norm : List UInt8} {cap : Nat} {dest : Dest} (h0 : 0 ∉ norm) (h : resolveNorm norm cap = .ok dest) :
    0 ∉ dest.path := by
  have hdrop : ∀ n, 0 ∉ norm.drop n := fun n hmem => h0 (List.mem_of_mem_drop hmem)
  unfold resolveNorm at h
  split at h
  · simp only at h
    split at h
    · cases h
    split at h
    · cases h
    cases h
    exact hdrop _
  · split at h
    · simp only at h
      split at h
      · cases h
      cases h
      rw [List.mem_append, not_or]
      exact ⟨by decide, hdrop _⟩
    · cases h

/-- Strings without a NUL give a destination without one. -/
theorem resolveDest_noNul {installDir inp : List UInt8} {cap : Nat} {dest : Dest} (hdir : 0 ∉ installDir) (hinp : 0 ∉ inp)
    (h : resolveDest installDir inp cap = .ok dest) : 0 ∉ dest.path := by
  unfold resolveDest at h
  split at h
  · cases h
  split at h
  · cases h
  rename_i buf hbuf
  refine resolveNorm_noNul (fun hmem => ?_) h
  obtain ⟨mid, hmid, hbuf⟩ := Option.bind_eq_some_iff.mp hbuf
  have hstrip := stripEnd_prefix (normalize [] buf)
  rcases mem_normalize (hstrip.subset hmem) with h | h | h
  · cases h
  · cases h
  · rcases mem_substituted (by decide) hbuf h with h | h
    · exact absurd h (by decide)
    · exact (mem_substituted (by decide) hmid h).elim hdir hinp

/-- The components are parts of the path. -/
theorem splitPath_subset {p comp : List UInt8} (h : comp ∈ (Fat.splitPath p).1) : comp ⊆ p := by
  induction p generalizing comp with
  | nil => cases h
  | cons c p ih =>
    unfold Fat.splitPath at h
    rcases hsplit : Fat.splitPath p with ⟨dirs, leaf⟩
    rw [hsplit] at h ih
    simp only at h
    split at h
    · rcases List.mem_cons.mp h with rfl | h
      · exact List.nil_subset _
      · exact fun x hx => List.mem_cons_of_mem _ (ih h hx)
    · cases dirs with
      | nil => cases h
      | cons y dirs =>
        rcases List.mem_cons.mp h with rfl | h
        · exact List.cons_subset_cons c (ih (List.mem_cons_self ..))
        · exact fun x hx => List.mem_cons_of_mem _ (ih (List.mem_cons_of_mem _ h) hx)

end Nul

/-! ## The same entry -/

/-- The entry of the path in its directory `dir`: the one that `dir_find` finds there is the one that `fat_read` reads. -/
structure FoundIn (v : Fat.Vol) (d : Fat.Disk) (p : List UInt8) (dir : Nat) : Prop where
  finds : (Fat.dirFind v dir (Fat.splitPath p).2).on d = .ok ((Fat.lookup v d dir (Fat.splitPath p).2).map (·.addr), d)
  entry : Fat.pathEntry v d p =
    if Fat.maxName < (Fat.splitPath p).2.length then none else Fat.lookup v d dir (Fat.splitPath p).2
  reads : (Fat.fatRead v p).on d = .ok ((Fat.pathEntry v d p).bind (Fat.contents v d), d)

/-- On the disk, `fat_mkdirs` and `dir_find` find what `fat_read` finds: where the directories of the path are there, `fat_mkdirs`
    leads to the last one and changes nothing, and the entry of the name in it is the one that is read; where one is missing
    nothing is read. -/
structure SameEntry (v : Fat.Vol) (d : Fat.Disk) (p : List UInt8) : Prop where
  found : ∀ dir, Fat.walk v d (Fat.splitPath p).1 0 = some dir →
    (Fat.fatMkdirs v p).on d = .ok (.ok (dir, (Fat.splitPath p).2), d) ∧ FoundIn v d p dir
  missing : Fat.walk v d (Fat.splitPath p).1 0 = none → Fat.pathEntry v d p = none

/-- `fat_mkdirs` returns, with some directories made, and the one that it leads to is the one that the path leads to on the disk
    it leaves: `dir_find` and `fat_read` go to the same entry there. -/
def MadeFound (v : Fat.Vol) (d : Fat.Disk) (p : List UInt8) : Prop :=
  ∃ r d', (Fat.fatMkdirs v p).on d = .ok (r, d') ∧ ∀ dir leaf, r = .ok (dir, leaf) →
    leaf = (Fat.splitPath p).2 ∧ Fat.walk v d' (Fat.splitPath p).1 0 = some dir ∧ FoundIn v d' p dir

section Same

variable {v : Fat.Vol} {d : Fat.Disk} {p : List UInt8}

open Be300.Lib (Prog)

theorem foundIn {dir : Nat} (hleaf : (Fat.splitPath p).2 ≠ []) (hwalk : Fat.walk v d (Fat.splitPath p).1 0 = some dir) :
    FoundIn v d p dir := by
  refine ⟨?_, ?_, ?_⟩
  · obtain ⟨r, d', hrun, rfl, rfl⟩ := Prog.run_of_wp (Fat.dirFind_spec (v := v) (d := d) dir (Fat.splitPath p).2)
    exact hrun
  · rw [Fat.pathEntry, Fat.resolve_walk, hwalk, Option.bind_some, Fat.findIn]
    simp only [hleaf, false_or]
  · obtain ⟨r, d', hrun, rfl, rfl⟩ := Prog.run_of_wp (Fat.fatRead_spec (v := v) (d := d) p)
    exact hrun

theorem Tidy.sameEntry (h : Tidy p) (v : Fat.Vol) (d : Fat.Disk) : SameEntry v d p := by
  obtain ⟨-, hleaf⟩ := h.components
  refine ⟨fun dir hwalk => ⟨?_, foundIn hleaf hwalk⟩, fun hnone => ?_⟩
  · have hdirs : Fat.Wp v (Fat.fatMkdirs v p) (fun r d' => r = .ok (dir, (Fat.splitPath p).2) ∧ d' = d) d := by
      unfold Fat.fatMkdirs
      refine Prog.wp_seq (Fat.mkdirsLoop_walk p hwalk) fun r d' hr => ?_
      obtain ⟨rfl, rfl⟩ := hr
      simp only
      rw [if_neg hleaf]
      exact ⟨rfl, rfl⟩
    obtain ⟨r, d', hrun, rfl, rfl⟩ := Prog.run_of_wp hdirs
    exact hrun
  · rw [Fat.pathEntry, Fat.resolve_walk, hnone, Option.bind_none]

/-- The directories that are made are found. -/
theorem Tidy.madeFound (h : Tidy p) (hv : v.Std) (hd : v.DiskOk d) (h0 : 0 ∉ p)
    (hdots : ∀ comp ∈ (Fat.splitPath p).1, ¬ Fat.IsDots comp) (horder : Fat.InOrder v d (Fat.splitPath p).1 0) :
    MadeFound v d p := by
  obtain ⟨hcomps, hleaf⟩ := h.components
  have hplain : ∀ comp ∈ (Fat.splitPath p).1, Fat.Plain comp := fun comp hcomp =>
    ⟨hcomps comp hcomp, fun hmem => h0 (splitPath_subset hcomp hmem), hdots comp hcomp⟩
  have hrun : Fat.Wp v (Fat.fatMkdirs v p) (fun r d' => ∀ dir leaf, r = .ok (dir, leaf) →
      leaf = (Fat.splitPath p).2 ∧ Fat.walk v d' (Fat.splitPath p).1 0 = some dir) d := by
    unfold Fat.fatMkdirs
    refine Prog.wp_seq (Fat.mkdirsLoop_led hv p _ hplain hd horder) fun r d' hr => ?_
    cases r with
    | error e => exact fun _ _ h => by cases h
    | ok dir =>
      simp only
      rw [if_neg hleaf]
      rintro _ _ ⟨rfl, rfl⟩
      exact ⟨rfl, (hr.2 dir rfl).walk⟩
  obtain ⟨r, d', hrun, hled⟩ := Prog.run_of_wp hrun
  refine ⟨r, d', hrun, fun dir leaf heq => ?_⟩
  obtain ⟨hleaf', hwalk⟩ := hled dir leaf heq
  exact ⟨hleaf', hwalk, foundIn hleaf hwalk⟩

end Same

/-- The directory that `fat_mkdirs` leads to, and the one that the path leads to on the disk it leaves. -/
def ledTo (v : Fat.Vol) (d : Fat.Disk) (p : List UInt8) : Option (Nat × Option Nat) :=
  match (Fat.fatMkdirs v p).on d with
  | .ok (.ok (dir, _), d') => some (dir, Fat.walk v d' (Fat.splitPath p).1 0)
  | _ => none

theorem MadeFound.led {v : Fat.Vol} {d : Fat.Disk} {p : List UInt8} {dir : Nat} {w : Option Nat} (h : MadeFound v d p)
    (hled : ledTo v d p = some (dir, w)) : w = some dir := by
  obtain ⟨r, d', hrun, hfound⟩ := h
  unfold ledTo at hled
  rw [hrun] at hled
  cases r with
  | error e => cases hled
  | ok q =>
    cases hled
    exact (hfound _ _ rfl).2.1

/-- The slot of a directory whose chain begins at `c`. -/
def dirBytes (name : List UInt8) (c : Nat) : Fat.Slot :=
  Fat.padTo 11 name ++ ([Fat.attrDir] ++ (List.replicate 14 0 ++ (Lib.le 2 c ++ Lib.le 4 0)))

/-- A volume with `root` in its root directory and `sub` in cluster 2. -/
def diskWith (root sub : List UInt8) : Fat.Disk where
  fat c := if c = 2 then 0xFFFF else 0
  mem r k := if r = 0 then Lib.at' root k else if r = 2 then Lib.at' sub k else 0
  hint := 2
  clock := fun _ => (0, 0)

def twoDots : List UInt8 := dirBytes Fat.dotName 2 ++ dirBytes Fat.dotDotName 0

/-- The directory `A`. -/
def readmeDisk : Fat.Disk := diskWith (dirBytes (ascii "A") 2) twoDots

/-- Something is behind the end mark of the root directory. -/
def endedDisk : Fat.Disk := diskWith (List.replicate Fat.direntSize 0 ++ dirBytes (ascii "Z") 2) twoDots

def deletedBytes : Fat.Slot := 0xE5 :: List.replicate 31 0

/-- Two deleted slots and the directory `X` with the long name `AB`, in which `E` is the root directory again. -/
def aliasDisk : Fat.Disk :=
  diskWith (deletedBytes ++ (deletedBytes ++ (Fat.lfnSlotBytes (ascii "AB") (Fat.lfnChecksum (dirBytes (ascii "X") 2)) 1 1 ++
    dirBytes (ascii "X") 2))) (twoDots ++ dirBytes (ascii "E") 0)

/-- The cluster of the directory `A` is free in the FAT. -/
def freedDisk : Fat.Disk := { readmeDisk with fat := fun _ => 0 }

/-- Only cluster 65536 is free. -/
def highDisk : Fat.Disk := { diskWith [] [] with fat := fun c => if c = 65536 then 0 else 1, hint := 65536 }

/-- A name of 256 letters, in the slots of a directory `D` of two clusters. -/
def longName : List UInt8 := List.replicate 256 0x61

def longSlots : List UInt8 :=
  ((List.range 20).reverse.flatMap fun i => Fat.lfnSlotBytes longName (Fat.lfnChecksum (dirBytes (ascii "L") 0)) 20 (i + 1)) ++
    (Fat.padTo 11 (ascii "L") ++ List.replicate 21 0)

def longDisk : Fat.Disk where
  fat c := if c = 2 then 3 else if c = 3 then 0xFFFF else 0
  mem r k := Lib.at' (if r = 0 then dirBytes (ascii "D") 2 else if r = 2 then longSlots.take 512 else longSlots.drop 512) k
  hint := 2
  clock := fun _ => (0, 0)

def longPath : List UInt8 := ascii "D\\" ++ longName

/-- What the source's functions compute on these volumes. -/
theorem disks_led : ledTo Fat.smallVol readmeDisk (ascii "A\\b\\C.txt") = some (3, some 3) ∧
    ledTo Fat.smallVol endedDisk (ascii "abc\\x") = some (3, none) ∧
    ledTo Fat.smallVol aliasDisk (ascii "AB\\N\\..\\..\\AB.\\F") = some (4, none) ∧
    ledTo Fat.smallVol aliasDisk (ascii "AB\\E\\AB.\\F") = some (3, none) ∧
    ledTo Fat.smallVol freedDisk (ascii "A\\B\\F") = some (2, none) ∧
    ledTo Fat.cutVol highDisk (ascii "N\\F") = some (65536, some 0) := by decide +kernel

theorem long_led : Fat.walk Fat.smallVol longDisk (Fat.splitPath longPath).1 0 = some 2 ∧ (Fat.splitPath longPath).2 = longName ∧
    (Fat.lookup Fat.smallVol longDisk 2 longName).map (·.addr) = some ⟨3, 128⟩ ∧
    resolveDest [] (nandDisk ++ backslash :: longPath) maxPathLen = .ok ⟨longPath, []⟩ := by decide +kernel

theorem smallVol_std : Fat.smallVol.Std := (Fat.locate_accepted Fat.smallImage_locate).std (by decide)

/-- `A` is there and `A\b` is not. -/
theorem readme_trail : Fat.trail Fat.smallVol readmeDisk [ascii "A", ascii "b"] 0 = [0, 2] ∧
    Fat.Tailed (Fat.slots Fat.smallVol readmeDisk 0) ∧ Fat.Tailed (Fat.slots Fat.smallVol readmeDisk 2) ∧
    Fat.clusters Fat.smallVol readmeDisk 2 = [2] := by
  unfold Fat.Tailed
  decide +kernel

theorem readme_inOrder : Fat.InOrder Fat.smallVol readmeDisk [ascii "A", ascii "b"] 0 := by
  obtain ⟨htrail, htail, htail', hclus⟩ := readme_trail
  have hchain : Fat.FatChain Fat.smallVol readmeDisk 2 [2] := ⟨rfl, by decide, show (0xFFF8 : Nat) ≤ 0xFFFF by decide⟩
  have hended := Fat.ended_of_chain smallVol_std hchain (List.cons_ne_nil 2 [])
  refine ⟨?_, ?_, ?_⟩
  · rw [htrail]
    simp only [List.forall_mem_cons]
    exact ⟨.inl rfl, .inr hended, by simp⟩
  · rw [htrail]
    simp only [List.forall_mem_cons]
    exact ⟨htail, htail', by simp⟩
  · rw [htrail]
    simp [Fat.regions, hclus]

end Be300.Cbea
