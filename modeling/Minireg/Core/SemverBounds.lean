import Mathlib.Data.Nat.Digits.Defs
import Minireg.Core.Semver

/-!
# Ranges that do not raise

Python refuses to convert an integer of more than `maxStrDigits` digits. A
scanner's groups are no longer than what it reads, and desugaring at most doubles
a token, so a range that fits its column never gets there:
`satisfies_returns`.
-/

namespace Minireg.Semver

open Py

variable {α β ε : Type}

/-- The call raises no error of a kind. -/
def Avoids (bad : ε → Prop) (x : Except ε α) : Prop := ∀ e, x = .error e → ¬ bad e

/-- The call raises nothing. -/
abbrev Returns (x : Except ε α) : Prop := Avoids (fun _ => True) x

section Avoids

variable {bad : ε → Prop} {x : Except ε α}

theorem Avoids.ok (a : α) : Avoids bad (.ok a : Except ε α) := nofun

theorem Avoids.bind {f : α → Except ε β} (hx : Avoids bad x)
    (hf : ∀ a, x = .ok a → Avoids bad (f a)) : Avoids bad (x >>= f) := by
  rcases x with e | a
  · intro e' h
    cases h
    exact hx e rfl
  · exact hf a rfl

theorem Avoids.map {f : α → β} (hx : Avoids bad x) : Avoids bad (x.map f) := by
  rcases x with e | a
  · intro e' h
    cases h
    exact hx e rfl
  · exact Avoids.ok _

theorem Avoids.mapM {f : α → Except ε β} {l : List α} (h : ∀ a ∈ l, Avoids bad (f a)) :
    Avoids bad (l.mapM f) := by
  induction l with
  | nil => exact Avoids.ok _
  | cons a l ih =>
    rw [List.mapM_cons]
    refine (h a List.mem_cons_self).bind fun b _ => ?_
    exact (ih fun c hc => h c (List.mem_cons_of_mem _ hc)).bind fun bs _ => Avoids.ok _

theorem Avoids.findM? {p : α → Except ε Bool} {l : List α} (h : ∀ a ∈ l, Avoids bad (p a)) :
    Avoids bad (l.findM? p) := by
  induction l with
  | nil => exact Avoids.ok _
  | cons a l ih =>
    rw [List.findM?]
    refine (h a List.mem_cons_self).bind fun b _ => ?_
    cases b with
    | true => exact Avoids.ok _
    | false => exact ih fun c hc => h c (List.mem_cons_of_mem _ hc)

/-- A call that raises nothing ends in a value. -/
theorem Returns.exists_ok {x : Except ε α} (hx : Returns x) : ∃ a, x = .ok a := by
  rcases x with e | a
  · exact absurd trivial (hx e rfl)
  · exact ⟨a, rfl⟩

end Avoids

/-- The error a conversion raises inside the range parser. -/
abbrev RangeError.IsValueError : RangeError → Prop
  | .invalidRange _ => False
  | .valueError _ => True

theorem Returns.raised {x : Except ValueError α} (hx : Returns x) :
    Avoids RangeError.IsValueError (raised x) := by
  obtain ⟨a, rfl⟩ := hx.exists_ok
  exact Avoids.ok _

theorem raised_ok {x : Except ValueError α} {a : α} (h : raised x = .ok a) : x = .ok a := by
  rcases x with e | b
  · cases h
  · exact congrArg _ (Except.ok.inj h)

/-- The call returns a text of at most `k` characters. -/
def Bounded (k : Nat) (x : Except ValueError (List Char)) : Prop :=
  Returns x ∧ ∀ t, x = .ok t → t.length ≤ k

theorem Bounded.ok {t : List Char} {k : Nat} (h : t.length ≤ k) : Bounded k (.ok t) := by
  refine ⟨Avoids.ok _, fun u hu => ?_⟩
  obtain rfl := Except.ok.inj hu
  exact h

theorem Bounded.mono {x : Except ValueError (List Char)} {k m : Nat} (h : Bounded k x)
    (hle : k ≤ m) : Bounded m x :=
  ⟨h.1, fun t ht => (h.2 t ht).trans hle⟩

theorem Bounded.bind {x : Except ValueError α} {f : α → Except ValueError (List Char)} {k : Nat}
    (hx : Returns x) (hf : ∀ a, x = .ok a → Bounded k (f a)) : Bounded k (x >>= f) := by
  obtain ⟨a, rfl⟩ := hx.exists_ok
  exact hf a rfl

theorem Bounded.map {x : Except ValueError (List Char)} {f : List Char → List Char} {k m : Nat}
    (h : Bounded k x) (hf : ∀ t, t.length ≤ k → (f t).length ≤ m) :
    Bounded m (do return f (← x)) := by
  obtain ⟨t, rfl⟩ := h.1.exists_ok
  exact .ok (hf t (h.2 t rfl))

/-! ## Numbers -/

theorem decimal_lt {c : Char} {d : Nat} (h : decimal? c = some d) : d < 10 := by
  unfold decimal? at h
  obtain ⟨b, hb, rfl⟩ := Option.map_eq_some_iff.mp h
  have hin := List.find?_some hb
  simp only [Bool.and_eq_true, decide_eq_true_eq] at hin
  omega

theorem pyInt_returns {s : List Char} (h : s.length ≤ maxStrDigits) : Returns (pyInt s) := by
  unfold pyInt
  rw [if_neg (by omega)]
  exact Avoids.ok _

theorem pyInt_lt {s : List Char} {n : Nat} (h : pyInt s = .ok n) : n < 10 ^ s.length := by
  unfold pyInt at h
  split at h
  · cases h
  · obtain rfl := Except.ok.inj h
    have hfold : ∀ (l : List Char) (n k : Nat), n < 10 ^ k →
        l.foldl (fun n c => 10 * n + (decimal? c).getD 0) n < 10 ^ (k + l.length) := by
      intro l
      induction l with
      | nil => exact fun n k hn => hn
      | cons c l ih =>
        intro n k hn
        rw [List.foldl_cons, List.length_cons, ← Nat.add_assoc, Nat.add_right_comm]
        refine ih _ _ ?_
        have hd : (decimal? c).getD 0 < 10 := by
          rcases hc : decimal? c with _ | d
          · exact Nat.zero_lt_succ _
          · exact decimal_lt hc
        rw [pow_succ]
        omega
    simpa using hfold s 0 0 Nat.zero_lt_one

theorem pyInt_succ_lt {s : List Char} {m n : Nat} (h : pyInt s = .ok m) (hn : n ≤ m + 1) :
    n < 10 ^ (s.length + 1) := by
  have := pyInt_lt h
  have hpos : 0 < 10 ^ s.length := Nat.pow_pos (by decide)
  rw [pow_succ]
  omega

theorem pyStr_bounded {n k : Nat} (hk : 0 < k) (hn : n < 10 ^ k) (hmax : k ≤ maxStrDigits) :
    Bounded k (pyStr n) := by
  have hlen : (toString n).toList.length ≤ k := by
    rw [String.length_toList]
    exact Nat.repr_length n k hk hn
  unfold pyStr
  dsimp only
  rw [if_neg (by omega)]
  exact .ok hlen

theorem bump_bounded {s : List Char} (h : s.length < maxStrDigits) :
    Bounded (s.length + 1) (bump s) := by
  unfold bump
  exact .bind (pyInt_returns (Nat.le_of_lt h)) fun n hn =>
    pyStr_bounded (Nat.succ_pos _) (pyInt_succ_lt hn (Nat.le_refl _)) h

/-! ## Scanners -/

theorem scanNum_length {s a r : List Char} (h : scanNum s = some (a, r)) :
    a.length + r.length = s.length := by
  unfold scanNum at h
  split at h
  · cases h
    simp [Nat.add_comm]
  · split at h
    · cases h
      have := congrArg List.length (List.takeWhile_append_dropWhile (p := isDecimal) (l := ‹List Char›))
      rw [List.length_append] at this
      rw [List.length_cons, List.length_cons]
      omega
    · cases h
  · cases h

theorem scanXid_length {s a r : List Char} (h : scanXid s = some (a, r)) :
    a.length + r.length = s.length := by
  unfold scanXid at h
  split at h
  · cases h; simp [Nat.add_comm]
  · cases h; simp [Nat.add_comm]
  · cases h; simp [Nat.add_comm]
  · exact scanNum_length h

theorem takeWhile_dropWhile_length (p : Char → Bool) (s : List Char) :
    (s.takeWhile p).length + (s.dropWhile p).length = s.length := by
  rw [← List.length_append, List.takeWhile_append_dropWhile]

theorem dropWhile_length_le (p : Char → Bool) (s : List Char) :
    (s.dropWhile p).length ≤ s.length := by
  have := takeWhile_dropWhile_length p s
  omega

theorem scanPrerelease_length (s : List Char) :
    ((scanPrerelease s).1.getD []).length + (scanPrerelease s).2.length ≤ s.length := by
  unfold scanPrerelease
  split
  · next rest =>
    dsimp only
    split
    · have := takeWhile_dropWhile_length (fun c => isDecimal c || isAlnum c || c == '.') rest
      simp only [Option.getD_some, List.length_cons]
      omega
    · simp
  · simp

theorem scanBuild_length (s : List Char) : (scanBuild s).2.length ≤ s.length := by
  unfold scanBuild
  split
  · next rest =>
    dsimp only
    split
    · exact (dropWhile_length_le _ rest).trans (Nat.le_succ _)
    · exact Nat.le_refl _
  · exact Nat.le_refl _

/-- How much text the components of a version take. -/
def Groups.size (g : Groups) : Nat :=
  g.major.length + g.minor.length + g.patch.length + (g.pre.getD []).length

def Partial.size (p : Partial) : Nat :=
  p.major.length + (digits p.minor).length + (digits p.patch).length + (p.pre.getD []).length

theorem scanVersion_size {s r : List Char} {g : Groups} (h : scanVersion s = some (g, r)) :
    g.size ≤ s.length := by
  unfold scanVersion at h
  split at h
  · next h₁ =>
    split at h
    · next h₂ =>
      split at h
      · next patch rest h₃ =>
        have l₁ := scanNum_length h₁
        have l₂ := scanNum_length h₂
        have l₃ := scanNum_length h₃
        have l₄ := scanPrerelease_length rest
        rcases hpre : scanPrerelease rest with ⟨pre, s₄⟩
        rw [hpre] at h l₄
        dsimp only at h l₄
        rcases hbuild : scanBuild s₄ with ⟨build, s₅⟩
        rw [hbuild] at h
        cases h
        rw [List.length_cons] at l₁ l₂
        unfold Groups.size
        dsimp only
        omega
      · cases h
    · cases h
  · cases h

theorem matchFullVersion_size {s : List Char} {g : Groups} (h : matchFullVersion s = some g) :
    g.size ≤ s.length := by
  unfold matchFullVersion at h
  split at h
  · next hscan =>
    split at h
    · cases h
      exact (scanVersion_size hscan).trans (dropWhile_length_le _ _)
    · cases h
  · cases h

theorem scanPartial_size {s r : List Char} {p : Partial} (h : scanPartial s = some (p, r)) :
    p.size + r.length ≤ s.length := by
  have hlead := dropWhile_length_le isLead s
  unfold scanPartial at h
  split at h
  · cases h
  · next h₁ =>
    have l₁ := scanXid_length h₁
    split at h
    · rw [List.length_cons] at l₁
      split at h
      · cases h
        simp only [Partial.size, digits, Option.getD_none, List.length_nil, List.length_cons]
        omega
      · next h₂ =>
        have l₂ := scanXid_length h₂
        split at h
        · rw [List.length_cons] at l₂
          split at h
          · cases h
            simp only [Partial.size, digits, Option.getD_none, Option.getD_some, List.length_nil,
              List.length_cons]
            omega
          · next patch rest h₃ =>
            have l₃ := scanXid_length h₃
            have l₄ := scanPrerelease_length rest
            rcases hpre : scanPrerelease rest with ⟨pre, s₄⟩
            rw [hpre] at h l₄
            dsimp only at h l₄
            have l₅ := scanBuild_length s₄
            rcases hbuild : scanBuild s₄ with ⟨build, s₅⟩
            rw [hbuild] at h l₅
            cases h
            dsimp only at l₅
            simp only [Partial.size, digits, Option.getD_some]
            omega
        · cases h
          simp only [Partial.size, digits, Option.getD_none, Option.getD_some, List.length_nil]
          omega
    · cases h
      simp only [Partial.size, digits, Option.getD_none, List.length_nil]
      omega

theorem matchPartial_size {s : List Char} {p : Partial} (h : matchPartial s = some p) :
    p.size ≤ s.length := by
  unfold matchPartial at h
  split at h
  · next hscan =>
    split at h
    · cases h
      exact (Nat.le_add_right _ _).trans (scanPartial_size hscan)
    · cases h
  · cases h

theorem scanOperator_length (s : List Char) : (scanOperator s).2.length ≤ s.length := by
  unfold scanOperator
  split <;> simp only [List.length_cons] <;> omega

theorem matchTilde_size {s : List Char} {p : Partial} (h : matchTilde s = some p) :
    p.size ≤ s.length := by
  have hdrop := dropWhile_length_le isSpace s
  unfold matchTilde at h
  split at h
  · next heq =>
    have := matchPartial_size h
    rw [heq, List.length_cons, List.length_cons] at hdrop
    omega
  · next heq =>
    have := matchPartial_size h
    rw [heq, List.length_cons] at hdrop
    omega
  · cases h

theorem matchCaret_size {s : List Char} {p : Partial} (h : matchCaret s = some p) :
    p.size ≤ s.length := by
  have hdrop := dropWhile_length_le isSpace s
  unfold matchCaret at h
  split at h
  · next heq =>
    have := matchPartial_size h
    rw [heq, List.length_cons] at hdrop
    omega
  · cases h

theorem matchXrange_size {s : List Char} {operator : Operator} {p : Partial}
    (h : matchXrange s = some (operator, p)) : p.size ≤ s.length := by
  have h₁ := dropWhile_length_le isSpace s
  have h₂ := scanOperator_length (s.dropWhile isSpace)
  unfold matchXrange at h
  rcases hop : scanOperator (s.dropWhile isSpace) with ⟨op, rest⟩
  rw [hop] at h h₂
  obtain ⟨q, hq, heq⟩ := Option.map_eq_some_iff.mp h
  cases heq
  have h₃ := matchPartial_size hq
  have h₄ := dropWhile_length_le isSpace rest
  dsimp only at h₂
  omega

theorem matchComparator_size {s : List Char} {operator : Operator} {g : Groups}
    (h : matchComparator s = some (operator, g)) : g.size ≤ s.length := by
  have h₁ := dropWhile_length_le isSpace s
  have h₂ := scanOperator_length (s.dropWhile isSpace)
  unfold matchComparator at h
  rcases hop : scanOperator (s.dropWhile isSpace) with ⟨op, rest⟩
  rw [hop] at h h₂
  obtain ⟨q, hq, heq⟩ := Option.map_eq_some_iff.mp h
  cases heq
  have h₃ := matchFullVersion_size hq
  have h₄ := dropWhile_length_le isSpace rest
  dsimp only at h₂
  omega

theorem stripChars_length (s : List Char) : (stripChars s).length ≤ s.length := by
  unfold stripChars
  rw [List.length_reverse]
  refine (dropWhile_length_le _ _).trans ?_
  rw [List.length_reverse]
  exact dropWhile_length_le _ _

/-- The two sides of a hyphen range share its text. -/
theorem matchHyphen_size {s : List Char} {low high : List Char × Partial}
    (h : matchHyphen s = some (low, high)) :
    max low.1.length low.2.size + max high.1.length high.2.size ≤ s.length := by
  have hdrop := dropWhile_length_le isSpace s
  unfold matchHyphen at h
  dsimp only at h
  split at h
  · cases h
  · next p rest hscan =>
    have hsize := scanPartial_size hscan
    split at h
    · next c tail d right heq =>
      have hrest := dropWhile_length_le isSpace (c :: tail)
      rw [heq, List.length_cons, List.length_cons] at hrest
      split at h
      · obtain ⟨q, hq, hpair⟩ := Option.map_eq_some_iff.mp h
        cases hpair
        have hright := dropWhile_length_le isSpace right
        have hq' := matchPartial_size hq
        have hstrip := stripChars_length (right.dropWhile isSpace)
        dsimp only
        rw [List.length_take]
        omega
      · cases h
    · cases h

/-! ## Desugaring -/

section Desugar

variable {p : Partial} {b : Bool} {n : Nat}

theorem lowerPre_length : (lowerPre b).length ≤ 2 := by
  unfold lowerPre
  split <;> decide

theorem belowNextMajor_bounded (major : List Char) (h : major.length < maxStrDigits) :
    Bounded (major.length + 8) (belowNextMajor major) :=
  (bump_bounded h).map fun t ht => by
    simp only [dotted, zero, List.length_append, List.length_cons, List.length_nil]
    omega

theorem belowNextMinor_bounded (major minor : List Char) (h : minor.length < maxStrDigits) :
    Bounded (major.length + minor.length + 7) (belowNextMinor major minor) :=
  (bump_bounded h).map fun t ht => by
    simp only [dotted, zero, List.length_append, List.length_cons, List.length_nil]
    omega

theorem atLeast_length (major minor patch suffix : List Char) :
    (atLeast major minor patch suffix).length =
      major.length + minor.length + patch.length + suffix.length + 4 := by
  simp only [atLeast, dotted, List.length_append, List.length_cons]
  omega

theorem between_length (lower upper : List Char) :
    (between lower upper).length = lower.length + upper.length + 1 := by
  simp only [between, List.length_append, List.length_cons]
  omega

/-- A desugared range with an upper bound that is computed. -/
theorem Bounded.between {lower : List Char} {upper : Except ValueError (List Char)} {k m : Nat}
    (hlower : lower.length ≤ k) (hupper : Bounded m upper) :
    Bounded (k + m + 1) (do return between lower (← upper)) :=
  hupper.map fun t ht => by
    rw [between_length]
    omega

theorem fullLower_length {suffix : List Char} (hsuffix : suffix.length ≤ 2) :
    (fullLower p suffix).length ≤ p.size + 6 := by
  unfold fullLower Partial.size
  split
  · next heq =>
    rw [heq, atLeast_length]
    simp only [List.length_cons, Option.getD_some]
    omega
  · rw [atLeast_length]
    omega

theorem zero_length : zero.length = 1 := rfl

theorem desugarTilde_bounded (hsize : p.size ≤ n) (hmax : n < maxStrDigits) :
    Bounded (2 * n + 20) (desugarTilde p b) := by
  have hlow := lowerPre_length (b := b)
  have hfull := fullLower_length (p := p) hlow
  unfold Partial.size at hsize hfull
  have hmajor := belowNextMajor_bounded p.major (by omega)
  have hminor := belowNextMinor_bounded p.major (digits p.minor) (by omega)
  unfold desugarTilde
  dsimp only
  split
  · exact .ok (by simp only [List.length_cons, List.length_nil]; omega)
  · split
    · refine (Bounded.between (Nat.le_of_eq (atLeast_length ..)) hmajor).mono ?_
      rw [zero_length]
      omega
    · split
      · refine (Bounded.between (Nat.le_of_eq (atLeast_length ..)) hminor).mono ?_
        rw [zero_length]
        omega
      · exact (Bounded.between hfull hminor).mono (by omega)

theorem desugarCaret_bounded (hsize : p.size ≤ n) (hmax : n < maxStrDigits) :
    Bounded (2 * n + 20) (desugarCaret p b) := by
  have hlow := lowerPre_length (b := b)
  have hsuffix : (if p.major = zero then lowerPre b else []).length ≤ 2 := by
    split
    · exact hlow
    · exact Nat.zero_le _
  have hfull := fullLower_length (p := p) hsuffix
  unfold Partial.size at hsize hfull
  have hmajor := belowNextMajor_bounded p.major (by omega)
  have hminor := belowNextMinor_bounded p.major (digits p.minor) (by omega)
  unfold desugarCaret
  dsimp only
  generalize (if p.major = zero then lowerPre b else []) = suffix at hfull ⊢
  split
  · exact .ok (by simp only [List.length_cons, List.length_nil]; omega)
  · split
    · refine (Bounded.between (Nat.le_of_eq (atLeast_length ..)) hmajor).mono ?_
      rw [zero_length]
      omega
    · split
      · have hlower := Nat.le_of_eq (atLeast_length p.major (digits p.minor) zero (lowerPre b))
        rw [zero_length] at hlower
        split
        · exact (Bounded.between hlower hminor).mono (by omega)
        · exact (Bounded.between hlower hmajor).mono (by omega)
      · split
        · split
          · -- the patch number moves
            refine ((bump_bounded (s := digits p.patch) (by omega)).map (m := 2 * n + 20)
              fun t ht => ?_)
            rw [between_length]
            simp only [dotted, List.length_append, List.length_cons, List.length_nil]
            omega
          · exact (Bounded.between hfull hminor).mono (by omega)
        · exact (Bounded.between hfull hmajor).mono (by omega)

theorem operator_length (operator : Operator) : operator.text.length ≤ 2 := by
  cases operator <;> decide

theorem moveBound_le (operator : Operator) (x : Bool) (major minor : Nat) :
    (moveBound operator x major minor).2.1 ≤ major + 1 ∧
      (moveBound operator x major minor).2.2 ≤ minor + 1 := by
  cases operator <;> cases x <;> simp [moveBound]

theorem operatorBound_bounded (operator : Operator) (x : Bool)
    (hmajor : p.major.length < maxStrDigits) (hminor : (digits p.minor).length < maxStrDigits) :
    Bounded (p.major.length + (digits p.minor).length + 10) (operatorBound operator x p) := by
  have hopen : Returns (minorOf x p) ∧
      ∀ n, minorOf x p = .ok n → n + 1 < 10 ^ ((digits p.minor).length + 1) := by
    unfold minorOf
    split
    · refine ⟨Avoids.ok _, fun n hn => ?_⟩
      obtain rfl := Except.ok.inj hn
      exact Nat.lt_of_lt_of_le (by decide : 0 + 1 < 10 ^ 1)
        (Nat.pow_le_pow_right (by decide) (by omega))
    · exact ⟨pyInt_returns (Nat.le_of_lt hminor), fun n hn => pyInt_succ_lt hn (Nat.le_refl _)⟩
  unfold operatorBound
  refine .bind hopen.1 fun minor hm => ?_
  refine .bind (pyInt_returns (Nat.le_of_lt hmajor)) fun major hM => ?_
  obtain ⟨hle₁, hle₂⟩ := moveBound_le operator x major minor
  have h₁ := pyStr_bounded (Nat.succ_pos _) (pyInt_succ_lt hM hle₁) hmajor
  have h₂ := pyStr_bounded (Nat.succ_pos _) (Nat.lt_of_le_of_lt hle₂ (hopen.2 _ hm)) hminor
  dsimp only
  generalize moveBound operator x major minor = moved at h₁ h₂ ⊢
  refine .bind h₁.1 fun s₁ hs₁ => .bind h₂.1 fun s₂ hs₂ => .ok ?_
  have l₁ := h₁.2 s₁ hs₁
  have l₂ := h₂.2 s₂ hs₂
  have hop := operator_length moved.1
  have hend : (if moved.1 = Operator.lt then ['-', '0'] else []).length ≤ 2 := by
    split <;> decide
  simp only [dotted, zero, List.length_append, List.length_cons, List.length_nil]
  omega

theorem desugarXrange_bounded {token : List Char} {operator : Operator} (htoken : token.length ≤ n)
    (hsize : p.size ≤ n) (hmax : n < maxStrDigits) :
    Bounded (2 * n + 20) (desugarXrange token operator p b) := by
  have hlow := lowerPre_length (b := b)
  unfold Partial.size at hsize
  have hmajor := belowNextMajor_bounded p.major (by omega)
  have hminor := belowNextMinor_bounded p.major (digits p.minor) (by omega)
  have hstrip := stripChars_length token
  unfold desugarXrange
  dsimp only
  generalize (if operator = Operator.eq && (isX (some p.major) || isX p.minor || isX p.patch) then
    Operator.empty else operator) = operator
  split
  · split
    · exact .ok (by rw [show "<0.0.0-0".toList.length = 8 from rfl]; omega)
    · exact .ok (by simp only [List.length_cons, List.length_nil]; omega)
  · split
    · exact (operatorBound_bounded operator _ (by omega) (by omega)).mono (by omega)
    · split
      · refine (Bounded.between (Nat.le_of_eq (atLeast_length ..)) hmajor).mono ?_
        rw [zero_length]
        omega
      · split
        · refine (Bounded.between (Nat.le_of_eq (atLeast_length ..)) hminor).mono ?_
          rw [zero_length]
          omega
        · exact .ok (by omega)

theorem hyphenLower_length {low : List Char × Partial}
    (h : max low.1.length low.2.size ≤ n) : (hyphenLower low b).length ≤ n + 8 := by
  have hlow := lowerPre_length (b := b)
  have hstrip := stripChars_length low.1
  unfold Partial.size at h
  unfold hyphenLower
  dsimp only
  split
  · exact Nat.zero_le _
  · split
    · rw [atLeast_length, zero_length]
      omega
    · split
      · rw [atLeast_length, zero_length]
        omega
      · rw [List.length_cons, List.length_cons]
        omega

theorem hyphenUpper_bounded {high : List Char × Partial} (h : max high.1.length high.2.size ≤ n)
    (hmax : n < maxStrDigits) : Bounded (n + 8) (hyphenUpper high) := by
  have hstrip := stripChars_length high.1
  unfold Partial.size at h
  unfold hyphenUpper
  dsimp only
  split
  · exact .ok (Nat.zero_le _)
  · split
    · exact (belowNextMajor_bounded _ (by omega)).mono (by omega)
    · split
      · exact (belowNextMinor_bounded _ _ (by omega)).mono (by omega)
      · split
        · next hpre =>
          rw [hpre] at h
          refine .ok ?_
          simp only [dotted, List.length_append, List.length_cons, Option.getD_some] at h ⊢
          omega
        · refine .ok ?_
          rw [List.length_cons, List.length_cons]
          omega

end Desugar

/-! ## Parsing -/

theorem expandHyphen_bounded (raw : List Char) {b : Bool} (hmax : raw.length < maxStrDigits) :
    Bounded (raw.length + 20) (expandHyphen raw b) := by
  unfold expandHyphen
  rcases hmatch : matchHyphen raw with _ | ⟨low, high⟩
  · exact .ok (Nat.le_add_right _ _)
  · have hsize := matchHyphen_size hmatch
    have hlower := hyphenLower_length (b := b) (Nat.le_refl (max low.1.length low.2.size))
    have hupper := hyphenUpper_bounded (Nat.le_refl (max high.1.length high.2.size)) (by omega)
    refine hupper.map fun t ht => ?_
    have hstrip := stripChars_length (between (hyphenLower low b) t)
    rw [between_length] at hstrip
    omega

theorem expandToken_bounded (token : List Char) {b : Bool} (hmax : token.length < maxStrDigits) :
    Bounded (2 * token.length + 20) (expandToken token b) := by
  unfold expandToken
  rcases htilde : matchTilde token with _ | p
  · rcases hcaret : matchCaret token with _ | p
    · rcases hx : matchXrange token with _ | ⟨operator, p⟩
      · exact .ok (by omega)
      · exact desugarXrange_bounded (Nat.le_refl _) (matchXrange_size hx) hmax
    · exact desugarCaret_bounded (matchCaret_size hcaret) hmax
  · exact desugarTilde_bounded (matchTilde_size htilde) hmax

/-- A part between separators is no longer than the whole. -/
theorem length_le_of_mem_splitOnP {p : Char → Bool} {s part : List Char}
    (h : part ∈ s.splitOnP p) : part.length ≤ s.length := by
  induction s generalizing part with
  | nil =>
    rw [List.splitOnP_nil, List.mem_singleton] at h
    rw [h]
  | cons c s ih =>
    rw [List.splitOnP_cons_eq_if_modifyHead] at h
    split at h
    · rcases List.mem_cons.mp h with rfl | h
      · exact Nat.zero_le _
      · exact (ih h).trans (Nat.le_succ _)
    · rcases hs : s.splitOnP p with _ | ⟨first, rest⟩
      · exact absurd hs (List.splitOnP_ne_nil p s)
      · rw [hs, List.modifyHead_cons] at h
        rcases List.mem_cons.mp h with rfl | h
        · exact Nat.succ_le_succ (ih (by rw [hs]; exact List.mem_cons_self))
        · exact (ih (by rw [hs]; exact List.mem_cons_of_mem _ h)).trans (Nat.le_succ _)

theorem splitPrerelease_returns {pre : Option (List Char)}
    (h : (pre.getD []).length ≤ maxStrDigits) : Returns (splitPrerelease pre) := by
  unfold splitPrerelease
  split
  · exact Avoids.ok _
  · exact Avoids.ok _
  · next raw _ =>
    refine Avoids.mapM fun part hpart => ?_
    rw [List.splitOn_eq_splitOnP] at hpart
    have := length_le_of_mem_splitOnP hpart
    split
    · exact (pyInt_returns (this.trans h)).map
    · exact Avoids.ok _

theorem toSemVer_returns {g : Groups} (h : g.size ≤ maxStrDigits) : Returns g.toSemVer := by
  unfold Groups.size at h
  unfold Groups.toSemVer
  refine (pyInt_returns (by omega)).bind fun _ _ => ?_
  refine (pyInt_returns (by omega)).bind fun _ _ => ?_
  refine (pyInt_returns (by omega)).bind fun _ _ => ?_
  exact (splitPrerelease_returns (by omega)).bind fun _ _ => Avoids.ok _

theorem parseComparator_returns {token : List Char} (h : token.length ≤ maxStrDigits) :
    Avoids RangeError.IsValueError (parseComparator token) := by
  unfold parseComparator
  dsimp only
  split
  · exact Avoids.ok _
  · split
    · rintro e he
      obtain rfl := Except.error.inj he
      exact not_false
    · next hmatch =>
      have hsize := matchComparator_size hmatch
      exact (toSemVer_returns (hsize.trans ((stripChars_length token).trans h))).raised.map

theorem length_le_of_mem_splitSpaces {s part : List Char} (h : part ∈ splitSpaces s) :
    part.length ≤ s.length :=
  length_le_of_mem_splitOnP (List.mem_of_mem_filter h)

theorem dropOperatorSpace_length (b : Bool) (s : List Char) :
    (dropOperatorSpace b s).length ≤ s.length := by
  induction s generalizing b with
  | nil => exact Nat.le_refl _
  | cons c s ih =>
    unfold dropOperatorSpace
    split
    · exact (ih true).trans (Nat.le_succ _)
    · exact Nat.succ_le_succ (ih _)

theorem parseToken_returns {token : List Char} {b : Bool}
    (h : 2 * token.length + 20 ≤ maxStrDigits) : Avoids RangeError.IsValueError (parseToken token b) := by
  have hexpand := expandToken_bounded token (b := b) (by omega)
  refine hexpand.1.raised.bind fun t ht => Avoids.mapM fun part hpart => ?_
  exact parseComparator_returns
    (((length_le_of_mem_splitSpaces hpart).trans (hexpand.2 t (raised_ok ht))).trans h)

/-- How long a range may be before a number in it can grow too long. -/
def maxRangeLength : Nat := 2000

theorem parseComparatorSet_returns {raw : List Char} {b : Bool} (h : raw.length ≤ maxRangeLength) :
    Avoids RangeError.IsValueError (parseComparatorSet raw b) := by
  have hmax : maxRangeLength = 2000 ∧ maxStrDigits = 4300 := ⟨rfl, rfl⟩
  have hstrip := stripChars_length raw
  unfold parseComparatorSet
  dsimp only
  split
  · exact Avoids.ok _
  · have hhyphen := expandHyphen_bounded (stripChars raw) (b := b) (by omega)
    refine hhyphen.1.raised.bind fun t ht => ?_
    have ht' := hhyphen.2 t (raised_ok ht)
    have hdrop := dropOperatorSpace_length false (stripChars t)
    have hstrip' := stripChars_length t
    split
    · exact Avoids.ok _
    · refine (Avoids.mapM fun token htoken => ?_).bind fun _ _ => Avoids.ok _
      have := length_le_of_mem_splitSpaces htoken
      exact parseToken_returns (by omega)

theorem length_le_of_mem_splitBars {s part : List Char} (h : part ∈ splitBars s) :
    part.length ≤ s.length := by
  fun_induction splitBars s generalizing part with
  | case1 rest ih =>
    rcases List.mem_cons.mp h with rfl | h
    · exact Nat.zero_le _
    · exact (ih h).trans (by rw [List.length_cons, List.length_cons]; omega)
  | case2 c rest _ first parts heq ih =>
    rw [heq] at ih
    rcases List.mem_cons.mp h with rfl | h
    · exact Nat.succ_le_succ (ih List.mem_cons_self)
    · exact (ih (List.mem_cons_of_mem _ h)).trans (Nat.le_succ _)
  | case3 c rest _ heq ih =>
    rw [List.mem_singleton.mp h]
    exact Nat.succ_le_succ (Nat.zero_le _)
  | case4 =>
    rw [List.mem_singleton.mp h]

theorem parseRange_returns {rangeStr : String} {b : Bool} (h : rangeStr.length ≤ maxRangeLength) :
    Avoids RangeError.IsValueError (parseRange rangeStr b) := by
  unfold parseRange
  refine (Avoids.mapM fun part hpart => ?_).bind fun _ _ => Avoids.ok _
  have hpart := length_le_of_mem_splitBars hpart
  have hstrip := stripChars_length rangeStr.toList
  rw [String.length_toList] at hstrip
  exact parseComparatorSet_returns (by omega)

theorem isValidRange_returns {rangeStr : String} (h : rangeStr.length ≤ maxRangeLength) :
    Returns (isValidRange rangeStr) := by
  have hret := parseRange_returns (b := false) h
  unfold isValidRange
  split
  · exact Avoids.ok _
  · exact Avoids.ok _
  · next heq => exact absurd trivial (hret _ heq)

theorem parse_returns {value : String} (h : value.length ≤ maxStrDigits) :
    Returns (SemVer.parse value) := by
  unfold SemVer.parse
  split
  · exact Avoids.ok _
  · next hmatch =>
    have hsize := matchFullVersion_size hmatch
    have hstrip := stripChars_length value.toList
    rw [String.length_toList] at hstrip
    exact (toSemVer_returns (by omega)).map

/-- **A short version against a short range does not raise.** -/
theorem satisfies_returns {version rangeStr : String} {b : Bool}
    (hversion : version.length ≤ maxStrDigits) (hrange : rangeStr.length ≤ maxRangeLength) :
    Returns (satisfies version rangeStr b) := by
  have hret := parseRange_returns (b := b) hrange
  unfold satisfies
  refine (parse_returns hversion).bind fun parsed _ => ?_
  split
  · exact Avoids.ok _
  · split
    · exact Avoids.ok _
    · exact Avoids.ok _
    · next heq => exact absurd trivial (hret _ heq)

end Minireg.Semver
