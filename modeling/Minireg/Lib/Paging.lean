import Mathlib.Data.Finset.Card
import Mathlib.Data.List.Sort

/-!
# Followed by pages

A server answers a request with the rows behind a cursor, at most so many of them in order, and
says where to go on if the page is full. What a client has that follows it to the end is sound,
ordered and complete (`Paged.listing`), although the rows may change between two requests, and it
comes to an end (`Paged.ends`).
-/

namespace Minireg.Lib

variable {α κ ε ρ : Type}

/-- What a client reads that follows the pages: none where it gave up, and the first error
otherwise. The rows may be different ones at every request. -/
def followPages (fetch : Nat → ρ → Except ε (List α × Option ρ)) :
    Nat → Nat → ρ → Option (Except ε (List (List α)))
  | 0, _, _ => none
  | fuel + 1, i, request =>
    match fetch i request with
    | .error e => some (.error e)
    | .ok (rows, none) => some (.ok [rows])
    | .ok (rows, some next) => (followPages fetch fuel (i + 1) next).map fun rest =>
        rest.map (rows :: ·)

section Page

variable [LinearOrder κ] (key : α → κ)

/-- Everything stands behind no cursor. -/
def Behind (last : Option α) (a : α) : Prop := ∀ c ∈ last, key c < key a

instance (last : Option α) (a : α) : Decidable (Behind key last a) := by
  unfold Behind
  infer_instance

/-- The rows behind the cursor, in order, and at most `n` of them. -/
def page (rows : List α) (last : Option α) (n : Nat) : List α :=
  ((rows.insertionSort fun a b => key a ≤ key b).filter fun a => Behind key last a).take n

variable {key} {rows : List α} {last : Option α} {n : Nat}

theorem page_sorted : (page key rows last n).Pairwise fun a b => key a ≤ key b := by
  have hsorted : (rows.insertionSort fun a b => key a ≤ key b).Pairwise
      fun a b => key a ≤ key b := List.pairwise_insertionSort _ _
  exact (hsorted.filter _).take

theorem of_mem_page {a : α} (h : a ∈ page key rows last n) : a ∈ rows ∧ Behind key last a := by
  obtain ⟨hmem, hbehind⟩ := List.mem_filter.mp (List.mem_of_mem_take h)
  exact ⟨(List.mem_insertionSort _).mp hmem, of_decide_eq_true hbehind⟩

/-- A row behind the cursor that is not on the page stands behind it, and the page is full. -/
theorem page_full (hkey : Function.Injective key) {a : α} (hrow : a ∈ rows)
    (hbehind : Behind key last a) (hout : a ∉ page key rows last n) :
    (page key rows last n).length = n ∧ ∀ b ∈ page key rows last n, key b < key a := by
  have hmem : a ∈ (rows.insertionSort fun a b => key a ≤ key b).filter
      fun a => Behind key last a :=
    List.mem_filter.mpr ⟨(List.mem_insertionSort _).mpr hrow, decide_eq_true hbehind⟩
  have hsorted : ((rows.insertionSort fun a b => key a ≤ key b).filter
      fun a => Behind key last a).Pairwise fun a b => key a ≤ key b :=
    List.Pairwise.filter _ (List.pairwise_insertionSort _ _)
  unfold page at hout ⊢
  generalize (rows.insertionSort fun a b => key a ≤ key b).filter (fun a => Behind key last a) =
    shown at hmem hsorted hout ⊢
  have hleft : a ∈ shown.drop n := by
    rw [← List.take_append_drop n shown] at hmem
    exact (List.mem_append.mp hmem).resolve_left hout
  refine ⟨?_, fun b hb => ?_⟩
  · rw [List.length_take]
    have hlong := List.length_pos_of_mem hleft
    rw [List.length_drop] at hlong
    omega
  · rw [← List.take_append_drop n shown] at hsorted
    have hle := (List.pairwise_append.mp hsorted).2.2 b hb a hleft
    refine lt_of_le_of_ne hle fun heq => hout ?_
    exact hkey heq ▸ hb

theorem exists_getLast {shown : List α} (hn : 0 < n) (hfull : shown.length = n) :
    ∃ c, shown.getLast? = some c := by
  have hne : shown ≠ [] := List.ne_nil_of_length_pos (hfull ▸ hn)
  exact ⟨_, List.getLast?_eq_some_getLast hne⟩

/-- The last row of a page is none that stands behind another one of it. -/
theorem le_getLast {b c : α} (hb : b ∈ page key rows last n)
    (hc : (page key rows last n).getLast? = some c) : key b ≤ key c := by
  obtain ⟨front, heq⟩ := List.getLast?_eq_some_iff.mp hc
  have hsorted : (page key rows last n).Pairwise fun a b => key a ≤ key b := page_sorted
  rw [heq] at hb hsorted
  rcases List.mem_append.mp hb with hb | hb
  · exact (List.pairwise_append.mp hsorted).2.2 b hb c (List.mem_singleton_self c)
  · rw [List.mem_singleton.mp hb]

end Page

/-! ## A server of pages -/

/-- What is on the pages of a listing, where the rows are those of each request. -/
structure Followed [LinearOrder κ] (key : α → κ) (last : Option α) (rows : Nat → List α)
    (pages : List (List α)) : Prop where
  sorted : ∀ p ∈ pages, p.Pairwise fun a b => key a ≤ key b
  apart : pages.Pairwise fun p q => ∀ a ∈ p, ∀ b ∈ q, key a < key b
  behind : ∀ p ∈ pages, ∀ a ∈ p, Behind key last a
  sound : ∀ i p, pages[i]? = some p → ∀ a ∈ p, a ∈ rows i
  complete : ∀ a, Behind key last a → (∀ i < pages.length, a ∈ rows i) → a ∈ pages.flatten

/-- A server whose answer is a page, and that leads on where it is full: `asks request last` says
that a request is for what stands behind a cursor. -/
structure Paged [LinearOrder κ] (key : α → κ) (fetch : Nat → ρ → Except ε (List α × Option ρ))
    (rows : Nat → List α) (n : Nat) (asks : ρ → Option α → Prop) : Prop where
  page : ∀ {i request last shown next}, asks request last → fetch i request = .ok (shown, next) →
    shown = page key (rows i) last n
  ends : ∀ {i request last shown}, asks request last → fetch i request = .ok (shown, none) →
    shown.length ≠ n
  goes : ∀ {i request last shown next}, asks request last →
    fetch i request = .ok (shown, some next) → shown.length = n ∧ asks next shown.getLast?

namespace Paged

variable [LinearOrder κ] {key : α → κ} {fetch : Nat → ρ → Except ε (List α × Option ρ)}
  {rows : Nat → List α} {n : Nat} {asks : ρ → Option α → Prop}

/-- A server that leads on from the last row of a full page. -/
theorem of_answers (hn : 0 < n) (h : ∀ {i request last shown next}, asks request last →
      fetch i request = .ok (shown, next) → shown = Lib.page key (rows i) last n ∧
        (shown.length ≠ n → next = none) ∧
        (shown.length = n → ∀ c, shown.getLast? = some c → ∃ r, next = some r ∧ asks r (some c))) :
    Paged key fetch rows n asks where
  page hasks hfetch := (h hasks hfetch).1
  ends {i request last shown} hasks hfetch := by
    intro hfull
    obtain ⟨c, hc⟩ := exists_getLast hn hfull
    obtain ⟨r, hr, -⟩ := (h hasks hfetch).2.2 hfull c hc
    cases hr
  goes {i request last shown next} hasks hfetch := by
    have hfull : shown.length = n := by
      by_contra hne
      cases (h hasks hfetch).2.1 hne
    obtain ⟨c, hc⟩ := exists_getLast hn hfull
    obtain ⟨r, hr, hasks⟩ := (h hasks hfetch).2.2 hfull c hc
    obtain rfl := Option.some.inj hr
    exact ⟨hfull, hc ▸ hasks⟩

/-- **A listing that was followed to its end** has every row that was there throughout, no row
that was not there when its page was, and no row on two pages. -/
theorem listing (h : Paged key fetch rows n asks) (hkey : Function.Injective key) (hn : 0 < n)
    {fuel i : Nat} {request : ρ} {last : Option α} {pages : List (List α)}
    (hasks : asks request last) (hpages : followPages fetch fuel i request = some (.ok pages)) :
    Followed key last (fun j => rows (i + j)) pages := by
  induction fuel generalizing i request last pages with
  | zero => cases hpages
  | succ fuel ih =>
    unfold followPages at hpages
    split at hpages
    · cases Option.some.inj hpages
    · next shown hfetch =>
      obtain rfl := Except.ok.inj (Option.some.inj hpages)
      have hshown := h.page hasks hfetch
      have hshort := h.ends hasks hfetch
      constructor
      · intro p hp
        rw [List.mem_singleton.mp hp, hshown]
        exact page_sorted
      · exact List.pairwise_singleton _ _
      · intro p hp a ha
        rw [List.mem_singleton.mp hp, hshown] at ha
        exact (of_mem_page ha).2
      · intro j p hp a ha
        obtain ⟨rfl, rfl⟩ : j = 0 ∧ shown = p := by
          cases j with
          | zero => exact ⟨rfl, Option.some.inj hp⟩
          | succ j => cases hp
        rw [hshown] at ha
        exact (of_mem_page ha).1
      · intro a hbehind hrows
        rw [List.flatten_cons, List.flatten_nil, List.append_nil]
        by_contra hout
        rw [hshown] at hout hshort
        exact hshort (page_full hkey (hrows 0 Nat.zero_lt_one) hbehind hout).1
    · next shown next hfetch =>
      obtain ⟨rest, hrest, heq⟩ := Option.map_eq_some_iff.mp hpages
      rcases rest with e | rest
      · cases heq
      obtain rfl := Except.ok.inj heq
      have hshown := h.page hasks hfetch
      obtain ⟨hfull, hnext⟩ := h.goes hasks hfetch
      have hrest := ih hnext hrest
      obtain ⟨c, hc⟩ := exists_getLast hn hfull
      -- the cursor of the next request stands behind this one
      have hcursor : ∀ b ∈ shown, key b ≤ key c := fun b hb => by
        rw [hshown] at hb hc
        exact le_getLast hb hc
      have hlater : ∀ p ∈ rest, ∀ a ∈ p, ∀ b ∈ shown, key b < key a := fun p hp a ha b hb =>
        lt_of_le_of_lt (hcursor b hb) (hrest.behind p hp a ha c (by rw [hc]; rfl))
      have hon : ∀ a ∈ shown, a ∈ rows i ∧ Behind key last a := fun a ha => by
        rw [hshown] at ha
        exact of_mem_page ha
      constructor
      · intro p hp
        rcases List.mem_cons.mp hp with rfl | hp
        · rw [hshown]
          exact page_sorted
        · exact hrest.sorted p hp
      · exact List.pairwise_cons.mpr ⟨fun p hp b hb a ha => hlater p hp a ha b hb, hrest.apart⟩
      · intro p hp a ha
        rcases List.mem_cons.mp hp with rfl | hp
        · exact (hon a ha).2
        · intro c' hc'
          have hin : c ∈ shown := List.mem_of_getLast? hc
          exact lt_trans ((hon c hin).2 c' hc') (hlater p hp a ha c hin)
      · intro j p hp a ha
        cases j with
        | zero =>
          obtain rfl := Option.some.inj hp
          exact (hon a ha).1
        | succ j =>
          have hsound := hrest.sound j p hp a ha
          rwa [Nat.add_right_comm] at hsound
      · intro a hbehind hrows
        rw [List.flatten_cons, List.mem_append]
        by_cases hin : a ∈ shown
        · exact .inl hin
        · have hrow : a ∈ rows i := hrows 0 (Nat.succ_pos _)
          have hout := hin
          rw [hshown] at hout
          have hpast := (page_full hkey hrow hbehind hout).2
          rw [← hshown] at hpast
          refine .inr (hrest.complete a ?_ fun j hj => ?_)
          · intro c' hc'
            rw [hc] at hc'
            obtain rfl := Option.mem_some.mp hc'
            exact hpast _ (List.mem_of_getLast? hc)
          · have hrow := hrows (j + 1) (Nat.succ_lt_succ hj)
            rwa [← Nat.add_assoc, Nat.add_right_comm] at hrow

/-- **It comes to an end**: after one request more than there are rows, at the latest. -/
theorem ends_within [DecidableEq α] (h : Paged key fetch rows n asks) (hn : 0 < n) {all : Finset α}
    (hall : ∀ i, ∀ a ∈ rows i, a ∈ all) {fuel i : Nat} {request : ρ} {last : Option α}
    (hasks : asks request last) (hfuel : (all.filter fun a => Behind key last a).card < fuel) :
    ∃ result, followPages fetch fuel i request = some result := by
  induction fuel generalizing i request last with
  | zero => exact absurd hfuel (Nat.not_lt_zero _)
  | succ fuel ih =>
    unfold followPages
    split
    · exact ⟨_, rfl⟩
    · exact ⟨_, rfl⟩
    · next shown next hfetch =>
      have hshown := h.page hasks hfetch
      obtain ⟨hfull, hnext⟩ := h.goes hasks hfetch
      obtain ⟨c, hc⟩ := exists_getLast hn hfull
      have hin : c ∈ rows i ∧ Behind key last c := by
        have hmem := List.mem_of_getLast? hc
        rw [hshown] at hmem
        exact of_mem_page hmem
      have hless : (all.filter fun a => Behind key shown.getLast? a).card <
          (all.filter fun a => Behind key last a).card := by
        refine Finset.card_lt_card (Finset.ssubset_iff_of_subset ?_ |>.mpr ⟨c, ?_, ?_⟩)
        · intro a ha
          obtain ⟨hmem, hbehind⟩ := Finset.mem_filter.mp ha
          refine Finset.mem_filter.mpr ⟨hmem, fun c' hc' => ?_⟩
          exact lt_trans (hin.2 c' hc') (hbehind c (by rw [hc]; rfl))
        · exact Finset.mem_filter.mpr ⟨hall i c hin.1, hin.2⟩
        · intro hmem
          exact lt_irrefl _ ((Finset.mem_filter.mp hmem).2 c (by rw [hc]; rfl))
      obtain ⟨result, hresult⟩ := ih hnext (Nat.lt_of_lt_of_le hless (Nat.le_of_lt_succ hfuel))
      exact ⟨_, congrArg (Option.map _) hresult⟩

end Paged

/-- What a client has of a listing in the end, if every request is answered, and that there is an
end: after one request more than there are rows, at the latest. -/
def ReadWhole [LinearOrder κ] [DecidableEq α] (key : α → κ) (rows : Nat → List α)
    (fetch : Nat → ρ → Except ε (List α × Option ρ)) (first : ρ) : Prop :=
  (∀ fuel pages, followPages fetch fuel 0 first = some (.ok pages) →
    Followed key none rows pages) ∧
  ∀ all : Finset α, (∀ i, ∀ a ∈ rows i, a ∈ all) →
    ∃ result, followPages fetch (all.card + 1) 0 first = some result

/-- **From its start to its end** a listing is read whole. -/
theorem Paged.readWhole [LinearOrder κ] [DecidableEq α] {key : α → κ}
    {fetch : Nat → ρ → Except ε (List α × Option ρ)} {rows : Nat → List α} {n : Nat}
    {asks : ρ → Option α → Prop} (h : Paged key fetch rows n asks)
    (hkey : Function.Injective key) (hn : 0 < n) {first : ρ} (hasks : asks first none) :
    ReadWhole key rows fetch first := by
  refine ⟨fun fuel pages hpages => ?_, fun all hall => ?_⟩
  · have hfollowed := h.listing hkey hn hasks hpages
    simpa only [Nat.zero_add] using hfollowed
  · refine h.ends_within hn hall hasks (Nat.lt_succ_of_le ?_)
    exact Finset.card_le_card (Finset.filter_subset _ _)

end Minireg.Lib
