import Mathlib.Data.Set.Lattice

/-!
# Documents shared by tenants

A store keeps one copy of each document for all tenants. A document names others;
some of the names are children, which are read through their parent. What a
tenant can read follows from the documents linked to it (`Tenancy.readable`),
what it may read from how content came in (`Tenancy.entitled`). `Tenancy.Isolated`
is the invariant that keeps the first inside the second: `store` is the one
operation that can break it, by a child that came through another tenant.
-/

namespace Minireg.Lib

variable {T D : Type*}

/-- A store of documents and what each tenant has of it. -/
@[ext] structure Tenancy (T D : Type*) where
  stored : Set D
  /-- What a stored document names. -/
  names : D → Set D
  /-- Those of its names that are read through it. -/
  children : D → Set D
  linked : T → Set D
  held : T → Set D

/-- How content came to the tenants: given to one, or a document of its own. -/
structure Provenance (T D : Type*) where
  given : T → Set D
  origin : T → Set D

instance : Preorder (Provenance T D) where
  le p q := (∀ t, p.given t ⊆ q.given t) ∧ ∀ t, p.origin t ⊆ q.origin t
  le_refl _ := ⟨fun _ => subset_rfl, fun _ => subset_rfl⟩
  le_trans _ _ _ h h' := ⟨fun t => (h.1 t).trans (h'.1 t), fun t => (h.2 t).trans (h'.2 t)⟩

namespace Tenancy

variable {s s' : Tenancy T D} {p p' : Provenance T D} {t : T} {x : D}

/-- What the tenant reads: what it holds, and what its documents and their stored children name. -/
def readable (s : Tenancy T D) (t : T) : Set D :=
  {d | d ∈ s.held t ∨ ∃ m ∈ s.linked t, d ∈ s.names m ∨
    ∃ c ∈ s.children m, c ∈ s.stored ∧ d ∈ s.names c}

/-- What the tenant may read: what it was given, and what the stored documents of its own name. -/
def entitled (s : Tenancy T D) (p : Provenance T D) (t : T) : Set D :=
  {d | d ∈ p.given t ∨ ∃ m ∈ p.origin t, m ∈ s.stored ∧ d ∈ s.names m}

/-- A document is the tenant's own, or names nothing that it may not read. -/
def Covered (s : Tenancy T D) (p : Provenance T D) (t : T) (c : D) : Prop :=
  c ∈ p.origin t ∨ s.names c ⊆ s.entitled p t

structure Isolated (s : Tenancy T D) (p : Provenance T D) : Prop where
  held : ∀ t, s.held t ⊆ p.given t
  origin : ∀ t, s.linked t ⊆ p.origin t
  stored : ∀ t, s.linked t ⊆ s.stored
  children : ∀ t, ∀ m ∈ s.linked t, ∀ c ∈ s.children m, c ∈ s.stored → s.Covered p t c

/-- **Isolation.** A tenant reads only what it may read. -/
theorem Isolated.readable_subset (h : s.Isolated p) (t : T) : s.readable t ⊆ s.entitled p t := by
  rintro d (hheld | ⟨m, hm, hd | ⟨c, hc, hstored, hd⟩⟩)
  · exact .inl (h.held t hheld)
  · exact .inr ⟨m, h.origin t hm, h.stored t hm, hd⟩
  · rcases h.children t m hm c hc hstored with horigin | hnames
    · exact .inr ⟨c, horigin, hstored, hd⟩
    · exact hnames hd

/-- `s'` has the documents of `s`, and maybe more. -/
structure Grows (s s' : Tenancy T D) : Prop where
  stored : s.stored ⊆ s'.stored
  names : ∀ d ∈ s.stored, s'.names d = s.names d
  children : ∀ d ∈ s.stored, s'.children d = s.children d

theorem Grows.refl (s : Tenancy T D) : s.Grows s := ⟨subset_rfl, fun _ _ => rfl, fun _ _ => rfl⟩

theorem entitled_mono (hg : s.Grows s') (hp : p ≤ p') (t : T) :
    s.entitled p t ⊆ s'.entitled p' t := by
  rintro d (hgiven | ⟨m, horigin, hstored, hd⟩)
  · exact .inl (hp.1 t hgiven)
  · exact .inr ⟨m, hp.2 t horigin, hg.stored hstored, by rwa [hg.names m hstored]⟩

theorem Covered.mono (hg : s.Grows s') (hp : p ≤ p') (hx : x ∈ s.stored) (h : s.Covered p t x) :
    s'.Covered p' t x := by
  rcases h with horigin | hnames
  · exact .inl (hp.2 t horigin)
  · right
    rw [hg.names x hx]
    exact hnames.trans (entitled_mono hg hp t)

/-- What a tenant loses, and what comes in for it, breaks nothing. -/
theorem Isolated.shrink (h : s.Isolated p) (hp : p ≤ p') (hstored : s'.stored = s.stored)
    (hnames : s'.names = s.names) (hchildren : s'.children = s.children)
    (hlinked : ∀ t, s'.linked t ⊆ s.linked t) (hheld : ∀ t, s'.held t ⊆ p'.given t) :
    s'.Isolated p' where
  held := hheld
  origin t := (hlinked t).trans ((h.origin t).trans (hp.2 t))
  stored t := by
    rw [hstored]
    exact (hlinked t).trans (h.stored t)
  children t m hm c hc hin := by
    have hg : s.Grows s' :=
      ⟨hstored.ge, fun d _ => by rw [hnames], fun d _ => by rw [hchildren]⟩
    rw [hstored] at hin
    rw [hchildren] at hc
    exact (h.children t m (hlinked t hm) c hc hin).mono hg hp hin

/-- A document of one tenant is linked to another that owns all that the first does. -/
theorem Isolated.share (h : s.Isolated p) {u : T} (hx : x ∈ s.linked u)
    (hgiven : p.given u ⊆ p.given t) (horigin : p.origin u ⊆ p.origin t)
    (hg : s.Grows s') (hstored : s'.stored = s.stored) (hheld : ∀ v, s'.held v ⊆ s.held v)
    (hlinked : ∀ v, ∀ m ∈ s'.linked v, m ∈ s.linked v ∨ v = t ∧ m = x) : s'.Isolated p := by
  have hcov : ∀ c, s.Covered p u c → s.Covered p t c := by
    rintro c (hc | hc)
    · exact .inl (horigin hc)
    · right
      rintro d hd
      rcases hc hd with hgiv | ⟨m, hm, hrest⟩
      · exact .inl (hgiven hgiv)
      · exact .inr ⟨m, horigin hm, hrest⟩
  constructor
  · exact fun v => (hheld v).trans (h.held v)
  · rintro v m hm
    rcases hlinked v m hm with hm | ⟨rfl, rfl⟩
    · exact h.origin v hm
    · exact horigin (h.origin u hx)
  · rintro v m hm
    rw [hstored]
    rcases hlinked v m hm with hm | ⟨rfl, rfl⟩
    · exact h.stored v hm
    · exact h.stored u hx
  · rintro v m hm c hc hin
    rw [hstored] at hin
    rcases hlinked v m hm with hm | ⟨rfl, rfl⟩
    · rw [hg.children m (h.stored v hm)] at hc
      exact (h.children v m hm c hc hin).mono hg le_rfl hin
    · rw [hg.children m (h.stored u hx)] at hc
      exact (hcov c (h.children u m hx c hc hin)).mono hg le_rfl hin

/-- When a tenant may be given a document that names `names`, with `children`
among them: it names no child that came through another tenant, and no tenant
that it did not come through has a parent of it. -/
structure Apart (s : Tenancy T D) (p : Provenance T D) (t : T) (x : D) (names children : Set D) :
    Prop where
  children : ∀ c ∈ children, c ∈ s.stored → c ∈ p.origin t ∨ s.names c ⊆ s.entitled p t ∪ names
  parents : x ∉ s.stored → ∀ u, ∀ m ∈ s.linked u, x ∈ s.children m →
    x ∈ p.origin u ∨ names ⊆ s.entitled p u

/-- **Storing a document** for a tenant keeps the tenants apart. -/
theorem Isolated.store (h : s.Isolated p) (hp : p ≤ p') (hx : x ∈ p'.origin t)
    (hap : s.Apart p' t x (s'.names x) (s'.children x)) (hg : s.Grows s')
    (hstored : s'.stored = insert x s.stored) (hheld : ∀ u, s'.held u ⊆ s.held u)
    (hlinked : ∀ u, ∀ m ∈ s'.linked u, m ∈ s.linked u ∨ u = t ∧ m = x) : s'.Isolated p' := by
  have hnamed : s'.names x ⊆ s'.entitled p' t := fun d hd =>
    .inr ⟨x, hx, by rw [hstored]; exact Set.mem_insert x _, hd⟩
  constructor
  · exact fun u => (hheld u).trans ((h.held u).trans (hp.1 u))
  · rintro u m hm
    rcases hlinked u m hm with hm | ⟨rfl, rfl⟩
    · exact hp.2 u (h.origin u hm)
    · exact hx
  · rintro u m hm
    rw [hstored]
    rcases hlinked u m hm with hm | ⟨rfl, rfl⟩
    · exact Set.mem_insert_of_mem _ (h.stored u hm)
    · exact Set.mem_insert _ _
  · rintro u m hm c hc hin
    -- the parent is an old document, or the one that is stored; so is the child
    rcases hlinked u m hm with hm | ⟨rfl, rfl⟩
    · rw [hg.children m (h.stored u hm)] at hc
      by_cases hold : c ∈ s.stored
      · exact (h.children u m hm c hc hold).mono hg hp hold
      · have hcx : c = x := by
          rw [hstored] at hin
          exact hin.resolve_right hold
        subst hcx
        exact (hap.parents hold u m hm hc).imp_right fun hn =>
          hn.trans (entitled_mono hg le_rfl u)
    · by_cases hold : c ∈ s.stored
      · refine (hap.children c hc hold).imp_right fun hn => ?_
        rw [hg.names c hold]
        exact hn.trans (Set.union_subset (entitled_mono hg le_rfl u) hnamed)
      · rw [hstored] at hin
        rw [hin.resolve_right hold]
        exact .inl hx

end Tenancy

end Minireg.Lib
