import Mathlib.Data.List.Basic
import Mathlib.Data.List.Induction
import Mathlib.Data.List.Infix

/-!
# Templates

A marker is a text between an opening and a closing symbol. `substitute` puts the texts of a table
in the place of its markers, in one pass over the template; `replace` does it for one marker, and
goes over what other passes have put there. Where no text has an opening symbol, and no marker is
in reach of another opening symbol, replacing one marker after the other is the substitution
(`foldl_replace`).
-/

namespace Minireg.Lib.Templates

/-! ## Markers -/

section Brackets

variable {α : Type*}

/-- Markers with the texts that stand for them. -/
abbrev Texts (α : Type*) := List (List α × List α)

structure IsMarker (opening closing : α) (marker : List α) : Prop where
  shape : ∃ body, marker = opening :: (body ++ [closing]) ∧ opening ∉ body ∧ closing ∉ body
  apart : opening ≠ closing

/-- What a table is to be: markers, each once, with texts that open nothing. -/
structure Plain (opening closing : α) (table : Texts α) : Prop where
  markers : ∀ e ∈ table, IsMarker opening closing e.1
  distinct : (table.map Prod.fst).Nodup
  texts : ∀ e ∈ table, opening ∉ e.2

variable {opening closing c : α} {marker marker' s rest : List α}

theorem IsMarker.ne_nil (h : IsMarker opening closing marker) : marker ≠ [] := by
  obtain ⟨⟨body, rfl, -⟩, -⟩ := h
  exact List.cons_ne_nil _ _

/-- A text begins with one marker at most. -/
theorem IsMarker.eq_of_starts (h : IsMarker opening closing marker)
    (h' : IsMarker opening closing marker') (hp : marker <+: s) (hp' : marker' <+: s) :
    marker = marker' := by
  obtain ⟨⟨body, rfl, -, hbody⟩, -⟩ := h
  obtain ⟨⟨body', rfl, -, hbody'⟩, -⟩ := h'
  obtain ⟨t, rfl⟩ := hp
  obtain ⟨t', heq⟩ := hp'
  simp only [List.cons_append, List.append_assoc, List.cons.injEq, true_and] at heq
  have hsame : body' = body := by
    induction body generalizing body' with
    | nil =>
      cases body' with
      | nil => rfl
      | cons b body' =>
        simp only [List.nil_append, List.cons_append, List.cons.injEq] at heq
        exact absurd (heq.1 ▸ List.mem_cons_self) hbody'
    | cons b body ih =>
      cases body' with
      | nil =>
        simp only [List.nil_append, List.cons_append, List.cons.injEq] at heq
        exact absurd (heq.1 ▸ List.mem_cons_self) hbody
      | cons b' body' =>
        simp only [List.cons_append, List.cons.injEq] at heq
        rw [heq.1, ih (List.not_mem_of_not_mem_cons hbody) body'
          (List.not_mem_of_not_mem_cons hbody') heq.2]
  rw [hsame]

theorem IsMarker.not_starts (h : IsMarker opening closing marker) (hc : c ≠ opening) :
    ¬ marker <+: c :: rest := by
  obtain ⟨⟨body, rfl, -⟩, -⟩ := h
  intro hp
  exact hc (List.cons_prefix_cons.mp hp).1.symm

theorem Plain.left {table more : Texts α} (h : Plain opening closing (table ++ more)) :
    Plain opening closing table where
  markers e he := h.markers e (List.mem_append_left _ he)
  distinct := by
    have hdistinct := h.distinct
    rw [List.map_append] at hdistinct
    exact (List.nodup_append.mp hdistinct).1
  texts e he := h.texts e (List.mem_append_left _ he)

end Brackets

/-! ## Substitution -/

variable {α : Type*} [DecidableEq α]

/-- The pass over a template, `skip` symbols of which are still part of the last marker. -/
def substituteFrom (table : Texts α) : Nat → List α → List α
  | _, [] => []
  | skip + 1, _ :: rest => substituteFrom table skip rest
  | 0, c :: rest =>
    match table.find? fun e => e.1.isPrefixOf (c :: rest) with
    | some (marker, text) => text ++ substituteFrom table (marker.length - 1) rest
    | none => c :: substituteFrom table 0 rest

def substitute (table : Texts α) (s : List α) : List α := substituteFrom table 0 s

def replace (marker text : List α) (s : List α) : List α := substitute [(marker, text)] s

/-- A marker begins before the next closing symbol. -/
def opensWithin (closing : α) (markers : List (List α)) : List α → Bool
  | [] => false
  | c :: rest =>
    c ≠ closing && (markers.any (fun marker => marker.isPrefixOf (c :: rest)) ||
      opensWithin closing markers rest)

/-- No marker begins between an opening symbol and the closing symbol after it. -/
def unnested (opening closing : α) (markers : List (List α)) : List α → Bool
  | [] => true
  | c :: rest =>
    (c ≠ opening || !opensWithin closing markers rest) && unnested opening closing markers rest

variable {table : Texts α} {e : List α × List α} {marker text s rest : List α} {c : α}
  {opening closing : α} {markers : List (List α)}

theorem substituteFrom_drop (n : Nat) (s : List α) :
    substituteFrom table n s = substitute table (s.drop n) := by
  induction s generalizing n with
  | nil => cases n <;> rfl
  | cons c rest ih =>
    cases n with
    | zero => rfl
    | succ n => exact ih n

theorem substitute_none (h : ∀ e ∈ table, ¬ e.1 <+: c :: rest) :
    substitute table (c :: rest) = c :: substitute table rest := by
  have hfind : (table.find? fun e => e.1.isPrefixOf (c :: rest)) = none :=
    List.find?_eq_none.mpr fun e he => by simpa using h e he
  unfold substitute
  rw [substituteFrom, hfind]

theorem substitute_find (hmarker : marker ≠ [])
    (h : (table.find? fun e => e.1.isPrefixOf (marker ++ rest)) = some (marker, text)) :
    substitute table (marker ++ rest) = text ++ substitute table rest := by
  obtain ⟨c, body, rfl⟩ := List.exists_cons_of_ne_nil hmarker
  have hdrop : (body ++ rest).drop ((c :: body).length - 1) = rest := by simp
  change substituteFrom table 0 (c :: (body ++ rest)) = _
  rw [substituteFrom]
  change (table.find? fun e => e.1.isPrefixOf (c :: (body ++ rest))) = _ at h
  rw [h]
  change text ++ substituteFrom table ((c :: body).length - 1) (body ++ rest) = _
  rw [substituteFrom_drop, hdrop]

/-- What opens nothing stays as it is. -/
theorem substitute_append (hmarkers : ∀ e ∈ table, IsMarker opening closing e.1)
    (htext : opening ∉ text) : substitute table (text ++ s) = text ++ substitute table s := by
  induction text with
  | nil => rfl
  | cons c text ih =>
    have hc : c ≠ opening := fun hc => htext (hc ▸ List.mem_cons_self)
    rw [List.cons_append, substitute_none fun e he => (hmarkers e he).not_starts hc,
      ih (List.not_mem_of_not_mem_cons htext), List.cons_append]

/-- A marker that the table does not have stays as it is. -/
theorem substitute_other (hmarkers : ∀ e ∈ table, IsMarker opening closing e.1)
    (hmarker : IsMarker opening closing marker) (hother : ∀ e ∈ table, e.1 ≠ marker) :
    substitute table (marker ++ s) = marker ++ substitute table s := by
  have hhead : ∀ e ∈ table, ¬ e.1 <+: marker ++ s := fun e he hp =>
    hother e he ((hmarkers e he).eq_of_starts hmarker hp (List.prefix_append marker s))
  obtain ⟨⟨body, rfl, hbody, -⟩, hapart⟩ := hmarker
  have hbody : opening ∉ body ++ [closing] := by
    simpa [hbody] using hapart
  rw [List.cons_append] at hhead ⊢
  rw [substitute_none hhead, substitute_append hmarkers hbody, List.cons_append]

/-- A text up to its closing symbol comes from such a text, where no marker begins in it. -/
theorem prefix_of_substitute {body : List α} (hmarkers : ∀ e ∈ table, IsMarker opening closing e.1)
    (hlisted : ∀ e ∈ table, e.1 ∈ markers) (hapart : opening ≠ closing)
    (hwithin : opensWithin closing markers rest = false) (hbody : closing ∉ body)
    (hp : body ++ [closing] <+: substitute table rest) : body ++ [closing] <+: rest := by
  induction body generalizing rest with
  | nil =>
    cases rest with
    | nil => exact hp
    | cons c rest =>
      by_cases hc : c = closing
      · rw [hc]
        exact List.prefix_append [closing] rest
      · have hnone : ∀ e ∈ table, ¬ e.1 <+: c :: rest := fun e he hpre => by
          simp only [opensWithin, hc, ne_eq, not_false_eq_true, decide_true, Bool.true_and,
            Bool.or_eq_false_iff, List.any_eq_false, List.isPrefixOf_iff_prefix] at hwithin
          exact hwithin.1 e.1 (hlisted e he) hpre
        rw [substitute_none hnone] at hp
        exact absurd (List.cons_prefix_cons.mp hp).1.symm hc
  | cons b body ih =>
    have hb : b ≠ closing := fun hb => hbody (hb ▸ List.mem_cons_self)
    cases rest with
    | nil => exact hp
    | cons c rest =>
      have hnone : ∀ e ∈ table, ¬ e.1 <+: c :: rest := by
        intro e he hpre
        by_cases hc : c = closing
        · exact (hmarkers e he).not_starts (hc ▸ hapart.symm) hpre
        · simp only [opensWithin, hc, ne_eq, not_false_eq_true, decide_true, Bool.true_and,
            Bool.or_eq_false_iff, List.any_eq_false, List.isPrefixOf_iff_prefix] at hwithin
          exact hwithin.1 e.1 (hlisted e he) hpre
      rw [substitute_none hnone, List.cons_append, List.cons_prefix_cons] at hp
      obtain ⟨rfl, hp⟩ := hp
      have hwithin : opensWithin closing markers rest = false := by
        simp only [opensWithin, hb, ne_eq, not_false_eq_true, decide_true, Bool.true_and,
          Bool.or_eq_false_iff] at hwithin
        exact hwithin.2
      rw [List.cons_append, List.cons_prefix_cons]
      exact ⟨rfl, ih hwithin (List.not_mem_of_not_mem_cons hbody) hp⟩

theorem unnested_suffix (h : unnested opening closing markers s = true) (hs : rest <:+ s) :
    unnested opening closing markers rest = true := by
  induction s with
  | nil => rwa [List.suffix_nil.mp hs]
  | cons c s ih =>
    rcases List.suffix_cons_iff.mp hs with rfl | hs
    · exact h
    · exact ih (Bool.and_eq_true_iff.mp h).2 hs

/-- One more marker: replacing it after the pass is as good as having it in the table. -/
theorem replace_substitute (hplain : Plain opening closing (table ++ [(marker, text)]))
    (hlisted : ∀ e ∈ table ++ [(marker, text)], e.1 ∈ markers)
    (hs : unnested opening closing markers s = true) :
    replace marker text (substitute table s) = substitute (table ++ [(marker, text)]) s := by
  have hmarkers : ∀ e ∈ table, IsMarker opening closing e.1 := fun e he =>
    hplain.markers e (List.mem_append_left _ he)
  have hmarker : IsMarker opening closing marker :=
    hplain.markers (marker, text) (List.mem_append_right _ (List.mem_singleton_self _))
  have hsingle : ∀ e ∈ [(marker, text)], IsMarker opening closing e.1 := fun e he =>
    hplain.markers e (List.mem_append_right _ he)
  have hother : ∀ e ∈ table, e.1 ≠ marker := by
    intro e he heq
    have hnodup := hplain.distinct
    rw [List.map_append, List.nodup_append] at hnodup
    exact hnodup.2.2 e.1 (List.mem_map_of_mem he) marker (List.mem_singleton_self _) heq
  induction hn : s.length using Nat.strongRecOn generalizing s with
  | _ n ih =>
    cases s with
    | nil => rfl
    | cons c rest =>
      rcases hfind : table.find? fun e => e.1.isPrefixOf (c :: rest) with _ | ⟨other, inserted⟩
      · have hnone : ∀ e ∈ table, ¬ e.1 <+: c :: rest := fun e he => by
          simpa using List.find?_eq_none.mp hfind e he
        by_cases hp : marker <+: c :: rest
        · -- the marker stays through the pass, and is then replaced
          obtain ⟨tail, htail⟩ := hp
          rw [← htail] at hs hn hfind ⊢
          have hlt : tail.length < n := by
            have hpos := List.length_pos_of_ne_nil hmarker.ne_nil
            rw [← hn, List.length_append]
            omega
          have hself : marker.isPrefixOf (marker ++ tail) = true :=
            List.isPrefixOf_iff_prefix.mpr (List.prefix_append marker tail)
          have hin : (table ++ [(marker, text)]).find? (fun e => e.1.isPrefixOf (marker ++ tail)) =
              some (marker, text) := by
            rw [List.find?_append, hfind, Option.none_or, List.find?_singleton, if_pos hself]
          rw [substitute_other hmarkers hmarker hother, substitute_find hmarker.ne_nil hin,
            ← ih _ hlt (unnested_suffix hs (List.suffix_append marker tail)) rfl]
          refine substitute_find hmarker.ne_nil ?_
          rw [List.find?_singleton, if_pos]
          exact List.isPrefixOf_iff_prefix.mpr (List.prefix_append marker _)
        · have hlt : rest.length < n := by
            rw [← hn, List.length_cons]
            exact Nat.lt_succ_self _
          obtain ⟨hcs, hrest⟩ := Bool.and_eq_true_iff.mp hs
          have hstays : ¬ marker <+: c :: substitute table rest := by
            intro hpre
            obtain ⟨⟨body, rfl, -, hbody⟩, hapart⟩ := hmarker
            rw [List.cons_prefix_cons] at hpre hp
            obtain ⟨rfl, hpre⟩ := hpre
            have hwithin : opensWithin closing markers rest = false := by simpa using hcs
            refine hp ⟨rfl, prefix_of_substitute hmarkers (fun e he => ?_) hapart hwithin hbody hpre⟩
            exact hlisted e (List.mem_append_left _ he)
          have hall : ∀ e ∈ table ++ [(marker, text)], ¬ e.1 <+: c :: rest := by
            intro e he
            rcases List.mem_append.mp he with he | he
            · exact hnone e he
            · rw [List.mem_singleton.mp he]
              exact hp
          rw [substitute_none hnone, substitute_none hall, ← ih _ hlt hrest rfl]
          exact substitute_none fun e he => by
            rw [List.mem_singleton.mp he]
            exact hstays
      · obtain ⟨hpre, hmem⟩ := And.intro (List.find?_some hfind) (List.mem_of_find?_eq_some hfind)
        obtain ⟨tail, htail⟩ := List.isPrefixOf_iff_prefix.mp hpre
        change other ++ tail = c :: rest at htail
        have hne : other ≠ [] := (hmarkers _ hmem).ne_nil
        rw [← htail] at hs hn hfind ⊢
        have hlt : tail.length < n := by
          have hpos := List.length_pos_of_ne_nil hne
          rw [← hn, List.length_append]
          omega
        have hin : (table ++ [(marker, text)]).find? (fun e => e.1.isPrefixOf (other ++ tail)) =
            some (other, inserted) := by
          rw [List.find?_append, hfind, Option.some_or]
        have hopens : opening ∉ inserted :=
          hplain.texts (other, inserted) (List.mem_append_left _ hmem)
        rw [substitute_find hne hfind, substitute_find hne hin,
          ← ih _ hlt (unnested_suffix hs (List.suffix_append other tail)) rfl]
        exact substitute_append hsingle hopens

/-- A marker that the template does not have does nothing. -/
theorem substitute_absent (h : ∀ rest, rest <:+ s → ¬ marker <+: rest) :
    substitute (table ++ [(marker, text)]) s = substitute table s := by
  have hgeneral : ∀ n, substituteFrom (table ++ [(marker, text)]) n s = substituteFrom table n s := by
    induction s with
    | nil =>
      intro n
      cases n <;> rfl
    | cons c rest ih =>
      have ih := ih fun t ht => h t (ht.trans (List.suffix_cons c rest))
      intro n
      cases n with
      | succ n => exact ih n
      | zero =>
        have hsingle : ¬ marker.isPrefixOf (c :: rest) = true := fun hp =>
          h _ List.suffix_rfl (List.isPrefixOf_iff_prefix.mp hp)
        rw [substituteFrom, substituteFrom, List.find?_append, List.find?_singleton, if_neg hsingle,
          Option.or_none]
        rcases hfind : table.find? fun e => e.1.isPrefixOf (c :: rest) with _ | e
        · rw [hfind]
          exact congrArg (c :: ·) (ih 0)
        · rw [hfind]
          exact congrArg (e.2 ++ ·) (ih (e.1.length - 1))
  exact hgeneral 0

theorem substitute_nil (s : List α) : substitute [] s = s := by
  induction s with
  | nil => rfl
  | cons c rest ih => rw [substitute_none fun e he => absurd he List.not_mem_nil, ih]

/-- **Replacing the markers one after the other** is the substitution of them all at once. -/
theorem foldl_replace (hplain : Plain opening closing table)
    (hlisted : ∀ e ∈ table, e.1 ∈ markers) (hs : unnested opening closing markers s = true) :
    table.foldl (fun s e => replace e.1 e.2 s) s = substitute table s := by
  induction table using List.reverseRecOn with
  | nil => exact (substitute_nil s).symm
  | append_singleton table e ih =>
    rw [List.foldl_append, ih hplain.left fun e he => hlisted e (List.mem_append_left _ he)]
    exact replace_substitute hplain hlisted hs

end Minireg.Lib.Templates
