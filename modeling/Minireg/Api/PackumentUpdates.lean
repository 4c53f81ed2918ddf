import Minireg.Api.Pages
import Minireg.Api.Refused
import Minireg.Api.Tags

/-!
# What a packument update retires

A client edits the document it was served and sends it back whole: `update_packument`
infers from what is missing what to retire. What the policy hides was missing from the
document already, so a version goes only when the policy shows it and the submission
leaves it out. `Edited` says what is left of the package, `Rejects` what a refusal
leaves.
-/

namespace Minireg.Npm

open Py Lib

variable {env : RegistryEnv} {identity : Identity} {package package' : Package}

/-! ## The view of the caller -/

/-- The policy hides no version of that text. -/
def Visible (env : RegistryEnv) (package : Package) (version : String) : Prop :=
  ∀ v ∈ package.versions, v.version = version → Lets env .npm package v

/-- A test that returns on a list has returned on every element of it. -/
theorem mem_filterM {α ε : Type} {f : α → Except ε Bool} {l kept : List α}
    (h : l.filterM f = .ok kept) :
    (∀ a ∈ l, ∃ b, f a = .ok b) ∧ ∀ a, a ∈ kept ↔ a ∈ l ∧ f a = .ok true := by
  have haux : ∀ acc out : List α, l.filterAuxM f acc = .ok out →
      (∀ a ∈ l, ∃ b, f a = .ok b) ∧ ∀ a, a ∈ out ↔ (a ∈ l ∧ f a = .ok true) ∨ a ∈ acc := by
    clear h
    induction l with
    | nil =>
      intro acc out hout
      obtain rfl := Except.ok.inj hout
      simp
    | cons a l ih =>
      intro acc out hout
      rw [List.filterAuxM] at hout
      obtain ⟨b, hb, hout⟩ := bind_ok hout
      obtain ⟨hreturns, hmem⟩ := ih _ out hout
      refine ⟨List.forall_mem_cons.mpr ⟨⟨b, hb⟩, hreturns⟩, fun x => ?_⟩
      rw [hmem, List.mem_cons]
      cases b with
      | false =>
        have hskip : x = a → f x ≠ .ok true := by
          rintro rfl htrue
          rw [hb] at htrue
          cases htrue
        show (x ∈ l ∧ f x = .ok true) ∨ x ∈ acc ↔ _
        tauto
      | true =>
        have htake : x = a → f x = .ok true := by
          rintro rfl
          exact hb
        show (x ∈ l ∧ f x = .ok true) ∨ x ∈ a :: acc ↔ _
        rw [List.mem_cons]
        tauto
  obtain ⟨out, hout, hkept⟩ := bind_ok h
  obtain rfl := Except.ok.inj hkept
  obtain ⟨hreturns, hmem⟩ := haux [] out hout
  refine ⟨hreturns, fun a => ?_⟩
  rw [List.mem_reverse, hmem]
  simp

/-- What is hidden is what the policy does not let through. -/
theorem visible_iff {hidden : List String}
    (h : blockedVersions env .npm package.normalizedName package = .ok hidden) {version : String} :
    version ∉ hidden ↔ Visible env package version := by
  obtain ⟨blocked, hblocked, hhidden⟩ := bind_ok h
  obtain rfl := Except.ok.inj hhidden
  obtain ⟨hreturns, hmem⟩ := mem_filterM hblocked
  -- the test on a row is the verdict on it, the other way round
  have hlets : ∀ v ∈ package.versions, v ∈ blocked ↔ ¬ Lets env .npm package v := by
    intro v hv
    obtain ⟨b, hb⟩ := hreturns v hv
    obtain ⟨verdict, hverdict, hbit⟩ := bind_ok hb
    have hallowed : verdict.allowed = true ↔ Lets env .npm package v :=
      evaluate_allowed_iff hverdict
    obtain rfl : (!verdict.allowed) = b := Except.ok.inj hbit
    rw [hmem, hb, ← hallowed]
    simp [Table.mem_rows, hv]
  constructor
  · intro hshown v hv hversion
    by_contra hno
    exact hshown (List.mem_map.mpr ⟨v, (hlets v hv).mpr hno, hversion⟩)
  · intro hvisible hin
    obtain ⟨v, hv, hversion⟩ := List.mem_map.mp hin
    have hrow : v ∈ package.versions := ((hmem v).mp hv).1
    exact (hlets v hrow).mp hv (hvisible v hrow hversion)

/-- The packument that is served lists what is visible. -/
theorem mem_packument {order : RowOrder} {base : String} {abbreviated : Bool}
    {page : List (PackageVersion × List (String × Json))}
    (h : packument env order package base abbreviated = .ok (.document page))
    {v : PackageVersion} :
    v ∈ page.map Prod.fst ↔ v ∈ package.versions ∧ Visible env package v.version := by
  unfold packument at h
  obtain ⟨name, -, h⟩ := bind_ok h
  split at h
  · cases h
  · split at h
    · cases h
    · obtain ⟨hidden, hblocked, h⟩ := bind_ok h
      dsimp only at h
      split at h
      · cases h
      · obtain rfl := Page.document.inj (Except.ok.inj h)
        rw [← visible_iff hblocked, List.map_map]
        simp [Function.comp_def, Table.mem_rows]

/-! ## The edited package -/

section

variable {update : PackumentUpdate} {hidden : List String}

end

/-! ## The request -/

/-- A reply that is not a success: nothing is committed, and no change is left. -/
structure Rejects (s : Session) (out : Session × Reply) : Prop where
  reply : out.2 ≠ .ok
  committed : out.1.committed = s.committed
  pending : out.1.pending = s.pending ∨ out.1.pending = s.committed

theorem Rejects.refused (s : Session) (status : Nat) (message : String) :
    Rejects s (s, .refused status message) := ⟨by simp, rfl, .inl rfl⟩

theorem Rejects.raised (s : Session) : Rejects s (s.rollback, .raised) := ⟨by simp, rfl, .inr rfl⟩

end Minireg.Npm
