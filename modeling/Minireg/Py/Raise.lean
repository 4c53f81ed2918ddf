import Mathlib.Data.List.Forall2

/-!
# Results that raise

A computation that may raise is an `Except`. The lemmas here take one that returned
apart.
-/

namespace Minireg.Py

variable {ε α β : Type}

theorem bind_ok {x : Except ε α} {f : α → Except ε β} {b : β} (h : (x >>= f) = .ok b) :
    ∃ a, x = .ok a ∧ f a = .ok b := by
  rcases x with e | a
  · cases h
  · exact ⟨a, rfl, h⟩

theorem map_ok {x : Except ε α} {f : α → β} {b : β} (h : x.map f = .ok b) :
    ∃ a, x = .ok a ∧ f a = b := by
  rcases x with e | a
  · cases h
  · exact ⟨a, rfl, Except.ok.inj h⟩

theorem mapError_ok {ε' : Type} {x : Except ε α} {f : ε → ε'} {a : α}
    (h : x.mapError f = .ok a) : x = .ok a := by
  rcases x with e | a'
  · cases h
  · obtain rfl := Except.ok.inj h
    rfl

theorem toOption_ok {x : Except ε α} {a : α} (h : x.toOption = some a) : x = .ok a := by
  rcases x with e | a'
  · cases h
  · obtain rfl := Option.some.inj h
    rfl

/-- A loop that returns has returned at every element. -/
theorem mapM_ok {f : α → Except ε β} {l : List α} {l' : List β} (h : l.mapM f = .ok l') :
    List.Forall₂ (fun a b => f a = .ok b) l l' := by
  induction l generalizing l' with
  | nil =>
    obtain rfl := Except.ok.inj h
    exact .nil
  | cons a as ih =>
    rw [List.mapM_cons] at h
    obtain ⟨b, hb, h⟩ := bind_ok h
    obtain ⟨bs, hbs, h⟩ := bind_ok h
    obtain rfl := Except.ok.inj h
    exact .cons hb (ih hbs)

/-- Loops whose turns agree, agree. -/
theorem mapM_eq_of_forall₂ {γ : Type} {R : α → γ → Prop} {f : α → Except ε β} {g : γ → Except ε β}
    {l : List α} {l' : List γ} (h : List.Forall₂ R l l') (hturn : ∀ a c, R a c → f a = g c) :
    l.mapM f = l'.mapM g := by
  induction h with
  | nil => rfl
  | cons hac _ ih => rw [List.mapM_cons, List.mapM_cons, hturn _ _ hac, ih]

/-- What every turn of the loop keeps, the loop keeps. -/
theorem mapM_map {γ : Type} {f : α → Except ε β} {l : List α} {l' : List β} {g : β → γ} {k : α → γ}
    (h : l.mapM f = .ok l') (hkeep : ∀ a b, f a = .ok b → g b = k a) : l'.map g = l.map k := by
  have hall := mapM_ok h
  clear h
  induction hall with
  | nil => rfl
  | cons hab _ ih => rw [List.map_cons, List.map_cons, hkeep _ _ hab, ih]

/-- A loop that returns has returned something for every element. -/
theorem mapM_returns {f : α → Except ε β} {l : List α} {l' : List β} (h : l.mapM f = .ok l') :
    ∀ a ∈ l, ∃ b, f a = .ok b := by
  have hall := mapM_ok h
  clear h
  induction hall with
  | nil => exact fun a ha => absurd ha List.not_mem_nil
  | cons hab _ ih =>
    intro x hx
    rcases List.mem_cons.mp hx with rfl | hx
    · exact ⟨_, hab⟩
    · exact ih x hx

theorem mapM_mem {f : α → Except ε β} {l : List α} {l' : List β} (h : l.mapM f = .ok l') :
    ∀ b ∈ l', ∃ a ∈ l, f a = .ok b := by
  have hall := mapM_ok h
  clear h
  induction hall with
  | nil => exact fun b hb => absurd hb List.not_mem_nil
  | @cons a b as bs hab _ ih =>
    intro x hx
    rcases List.mem_cons.mp hx with rfl | hx
    · exact ⟨a, List.mem_cons_self, hab⟩
    · obtain ⟨a', ha', hfa⟩ := ih x hx
      exact ⟨a', List.mem_cons_of_mem _ ha', hfa⟩

theorem mapM_mem_of_mem {f : α → Except ε β} {l : List α} {l' : List β} (h : l.mapM f = .ok l') :
    ∀ a ∈ l, ∃ b ∈ l', f a = .ok b := by
  have hall := mapM_ok h
  clear h
  induction hall with
  | nil => exact fun a ha => absurd ha List.not_mem_nil
  | @cons a b as bs hab _ ih =>
    intro x hx
    rcases List.mem_cons.mp hx with rfl | hx
    · exact ⟨b, List.mem_cons_self, hab⟩
    · obtain ⟨b', hb', hfb⟩ := ih x hx
      exact ⟨b', List.mem_cons_of_mem _ hb', hfb⟩

/-- A loop whose turns all return returns. -/
theorem mapM_of_returns {f : α → Except ε β} {l : List α} (h : ∀ a ∈ l, ∃ b, f a = .ok b) :
    ∃ l', l.mapM f = .ok l' := by
  induction l with
  | nil => exact ⟨[], rfl⟩
  | cons a as ih =>
    obtain ⟨b, hb⟩ := h a List.mem_cons_self
    obtain ⟨bs, hbs⟩ := ih fun x hx => h x (List.mem_cons_of_mem _ hx)
    exact ⟨b :: bs, by rw [List.mapM_cons, hb, hbs]; rfl⟩

/-- Two loops over related lists, turn by turn. -/
theorem mapM_forall₂ {α' β' : Type} {f : α → Except ε β} {g : α' → Except ε β'}
    {R : α → α' → Prop} {S : β → β' → Prop}
    (hfg : ∀ a a', R a a' → ∀ b, f a = .ok b → ∃ b', g a' = .ok b' ∧ S b b') {l : List α}
    {l' : List α'} (hl : List.Forall₂ R l l') {bs : List β} (h : l.mapM f = .ok bs) :
    ∃ bs', l'.mapM g = .ok bs' ∧ List.Forall₂ S bs bs' := by
  induction hl generalizing bs with
  | nil =>
    cases h
    exact ⟨[], rfl, .nil⟩
  | @cons a a' l l' haa' _ ih =>
    rw [List.mapM_cons] at h
    obtain ⟨b, hb, h⟩ := bind_ok h
    obtain ⟨rest, hrest, h⟩ := bind_ok h
    cases h
    obtain ⟨b', hb', hs⟩ := hfg a a' haa' b hb
    obtain ⟨rest', hrest', hforall⟩ := ih hrest
    refine ⟨b' :: rest', ?_, .cons hs hforall⟩
    rw [List.mapM_cons, hb', hrest']
    rfl

/-- A loop whose turns return these. -/
theorem mapM_eq_map {f : α → Except ε β} {g : α → β} {l : List α} (h : ∀ a ∈ l, f a = .ok (g a)) :
    l.mapM f = .ok (l.map g) := by
  induction l with
  | nil => rfl
  | cons a as ih =>
    rw [List.mapM_cons, h a List.mem_cons_self, ih fun x hx => h x (List.mem_cons_of_mem _ hx)]
    rfl

theorem mapM_eq_self {f : α → Except ε α} {l : List α} (h : ∀ a ∈ l, f a = .ok a) :
    l.mapM f = .ok l := by
  induction l with
  | nil => rfl
  | cons a as ih =>
    rw [List.mapM_cons, h a List.mem_cons_self, ih fun x hx => h x (List.mem_cons_of_mem _ hx)]
    rfl

/-- A `for` that returns has checked every element. -/
theorem forIn_ok {f : α → Except ε Unit} {l : List α} {u : PUnit}
    (h : (forIn l PUnit.unit fun a _ => do f a; pure (.yield PUnit.unit)) = .ok u) :
    ∀ a ∈ l, f a = .ok () := by
  induction l with
  | nil => exact fun a ha => absurd ha List.not_mem_nil
  | cons a as ih =>
    rw [List.forIn_cons] at h
    obtain ⟨step, hstep, h⟩ := bind_ok h
    obtain ⟨⟨⟩, ha, hyield⟩ := bind_ok hstep
    obtain rfl := Except.ok.inj hyield
    intro x hx
    rcases List.mem_cons.mp hx with rfl | hx
    · exact ha
    · exact ih h x hx

end Minireg.Py
