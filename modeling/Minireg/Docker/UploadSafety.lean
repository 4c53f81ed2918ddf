import Minireg.Docker.Uploads

/-!
# What a chunked upload stores

Two requests on one upload are not kept apart: bytes reach the file after its size was looked at,
after it was hashed, even after it was moved to the store. `Orderly` is the condition on a step that
the code leaves to its clients; `orderly_uploads_safe` is what holds in every run that meets it.
-/

namespace Minireg.Docker.Uploads

open Lib (System)

/-! ## What should hold -/

/-- The chunks one after the other, each where it says, and nothing else. -/
def Laid : Nat → List Chunk → List UInt8 → Prop
  | _, [], bytes => bytes = []
  | offset, c :: chunks, bytes =>
    c.offset = offset ∧ ∃ rest, bytes = c.bytes ++ rest ∧
      Laid (offset + c.bytes.length) chunks rest

/-- What is in the store is what it is called; what the upload stored is what it accepted; what the
repository holds was answered as created, is stored, and is what was accepted. -/
structure Safe (hash : List UInt8 → Digest) (s : Upload) : Prop where
  verified : ∀ digest file, s.blobs digest = some file → hash (s.contents file) = digest
  exact : ∀ e ∈ s.stored, s.blobs e.1 = some e.2 ∧ Laid 0 s.accepted (s.contents e.2)
  offsets : ∀ c ∈ s.accepted, StartsAt c.contentRange c.offset
  created : ∀ digest ∈ s.links, (∃ r, (r, Phase.done (.created digest) 0) ∈ s.requests) ∧
    (s.blobs digest).isSome = true ∧ hash (s.accepted.flatMap Chunk.bytes) = digest

/-- A chunk for another offset is refused, and nothing changes. -/
def Refuses (hash : List UInt8 → Digest) (limit : Nat) (s : Upload) (id : Nat) : Prop :=
  ∀ r s', s.requests[id]? = some (r, .loaded) → (r.method = .patch ∨ r.method = .put) →
    ¬ StartsAt r.contentRange s.size → step hash limit s (.turn id) = some s' →
    s'.path = s.path ∧ s'.contents = s.contents ∧ s'.blobs = s.blobs ∧ s'.size = s.size ∧
      ∃ answer, (answer = .refused "RANGE_INVALID" ∨ answer = .failed) ∧
        s'.requests[id]? = some (r, .done answer 0)

/-! ## What the code leaves to its clients -/

/-- No request is between its look at the file and its answer. -/
def Upload.AtRest (s : Upload) : Prop := ∀ q ∈ s.requests, q.2.inFile = false

/-- No request has left bytes in the file that were not accepted. -/
def Upload.Tidy (s : Upload) : Prop := ∀ q ∈ s.requests, q.2.left = 0

instance (s : Upload) : Decidable s.AtRest := inferInstanceAs (Decidable (∀ q ∈ s.requests, _))

instance (s : Upload) : Decidable s.Tidy := inferInstanceAs (Decidable (∀ q ∈ s.requests, _))

/-- A request may look at the file: it is one that changes nothing, or the only one in the file.
A chunk needs the file it is to be added to, a PUT also one with nothing but accepted bytes in it,
and its own chunk at the end. -/
def MayLook (s : Upload) (r : Request) : Prop :=
  match r.method with
  | .get => True
  | .delete => s.AtRest
  | .patch => StartsAt r.contentRange s.size → s.AtRest ∧ s.path.isSome = true
  | .put => s.AtRest ∧ s.path.isSome = true ∧ s.Tidy ∧ StartsAt r.contentRange s.size

instance (s : Upload) (r : Request) : Decidable (MayLook s r) := by
  unfold MayLook
  split <;> infer_instance

/-- Requests start on the file one at a time. -/
def Orderly (s : Upload) : Action → Prop
  | .turn id => ∀ q ∈ s.requests[id]?, q.2 = .loaded → MayLook s q.1
  | _ => True

instance (s : Upload) (a : Action) : Decidable (Orderly s a) := by
  unfold Orderly
  split <;> infer_instance

/-! ## Laid chunks -/

theorem Laid.snoc {offset : Nat} {chunks : List Chunk} {bytes : List UInt8}
    (h : Laid offset chunks bytes) {c : Chunk} (hc : c.offset = offset + bytes.length) :
    Laid offset (chunks ++ [c]) (bytes ++ c.bytes) := by
  induction chunks generalizing offset bytes with
  | nil =>
    obtain rfl : bytes = [] := h
    exact ⟨hc, [], by simp, rfl⟩
  | cons d chunks ih =>
    obtain ⟨hd, rest, rfl, hrest⟩ := h
    refine ⟨hd, rest ++ c.bytes, List.append_assoc _ _ _, ih hrest ?_⟩
    rw [hc, List.length_append]
    omega

theorem Laid.bytes {offset : Nat} {chunks : List Chunk} {bytes : List UInt8}
    (h : Laid offset chunks bytes) : chunks.flatMap Chunk.bytes = bytes := by
  induction chunks generalizing offset bytes with
  | nil => exact Eq.symm h
  | cons c chunks ih =>
    obtain ⟨-, rest, rfl, hrest⟩ := h
    rw [List.flatMap_cons, ih hrest]

/-! ## The invariant -/

/-- The bytes that the request in the file has written follow what was there when it looked. -/
def Wrote (s : Upload) (r : Request) (base file : Nat) (bytes : List UInt8) : Prop :=
  s.path = some file ∧ StartsAt r.contentRange base ∧
    (r.method = .patch ∨ r.method = .put ∧ s.Tidy) ∧
    ∃ before, s.contents file = before ++ bytes ∧ base = before.length ∧
      (s.Tidy → Laid 0 s.accepted before)

/-- The file is gone, and a blob has what was accepted. -/
structure Kept (hash : List UInt8 → Digest) (s : Upload) (digest : Digest) : Prop where
  gone : s.path = none
  there : (s.blobs digest).isSome = true
  accepted : hash (s.accepted.flatMap Chunk.bytes) = digest

/-- What holds of the request that is in the file. -/
def Holds (hash : List UInt8 → Digest) (s : Upload) (r : Request) : Phase → Prop
  | .opening base => ∃ file, Wrote s r base file []
  | .appending base handle body flushed | .leaving base handle body flushed _ =>
    flushed ≤ body.length ∧ Wrote s r base handle (body.take flushed)
  | .appended base body => ∃ file, Wrote s r base file body
  | .finishing base body digest stage =>
    s.Tidy ∧
    match stage with
    | .hashing => ∃ file, Wrote s r base file body
    | .reading file => Wrote s r base file body
    | .hashed actual => ∃ file, Wrote s r base file body ∧ actual = hash (s.contents file)
    | .syncing | .synced => ∃ file, Wrote s r base file body ∧ digest = hash (s.contents file)
    | .placed => Kept hash s digest
  | .removing => s.path = none
  | .arrived | .loaded | .done _ _ => True

structure Inv (hash : List UInt8 → Digest) (s : Upload) : Prop where
  blobs : ∀ digest file, s.blobs digest = some file →
    hash (s.contents file) = digest ∧ s.path ≠ some file
  alone : ∀ (id id' : Nat) (q q' : Request × Phase), s.requests[id]? = some q →
    s.requests[id']? = some q' → q.2.inFile = true → q'.2.inFile = true → id = id'
  holds : ∀ q ∈ s.requests, Holds hash s q.1 q.2
  rests : s.AtRest → s.Tidy → ∀ file, s.path = some file → Laid 0 s.accepted (s.contents file)
  stored : ∀ e ∈ s.stored,
    s.path = none ∧ s.blobs e.1 = some e.2 ∧ Laid 0 s.accepted (s.contents e.2)
  offsets : ∀ c ∈ s.accepted, StartsAt c.contentRange c.offset
  created : ∀ digest ∈ s.links, ∃ r, (r, Phase.done (.created digest) 0) ∈ s.requests
  kept : ∀ digest ∈ s.links, Kept hash s digest

variable {hash : List UInt8 → Digest} {limit : Nat} {s s' : Upload} {id : Nat} {r : Request}
  {p p' : Phase}

theorem Inv.safe (h : Inv hash s) : Safe hash s :=
  ⟨fun digest file hfile => (h.blobs digest file hfile).1, fun e he => (h.stored e he).2, h.offsets,
    fun digest hd => ⟨h.created digest hd, (h.kept digest hd).there, (h.kept digest hd).accepted⟩⟩

theorem Inv.init (h : Started hash s) : Inv hash s := by
  obtain ⟨-, ⟨file, -, hpath, hempty⟩, hblobs, hlinks, hrequests, haccepted, hstored⟩ := h
  refine ⟨fun digest i hi => ⟨(hblobs digest i hi).1, (hblobs digest i hi).2.1⟩, ?_, ?_, ?_, ?_, ?_,
    ?_, ?_⟩
  · intro id id' q q' hq
    rw [hrequests] at hq
    cases hq
  · intro q hq
    rw [hrequests] at hq
    cases hq
  · intro _ _ i hi
    rw [hpath] at hi
    obtain rfl := Option.some.inj hi
    rw [haccepted, hempty]
    rfl
  · intro e he
    rw [hstored] at he
    cases he
  · intro c hc
    rw [haccepted] at hc
    cases hc
  · intro d hd
    rw [hlinks] at hd
    cases hd
  · intro d hd
    rw [hlinks] at hd
    cases hd

/-! ## One request goes on -/

theorem mem_goes {q : Request × Phase} (hq : q ∈ (s.goes id r p').requests) :
    q = (r, p') ∨ ∃ id', id' ≠ id ∧ s.requests[id']? = some q := by
  obtain ⟨id', hid'⟩ := List.mem_iff_getElem?.mp hq
  have hset : (s.requests.set id (r, p'))[id']? = some q := hid'
  by_cases heq : id = id'
  · subst heq
    rw [List.getElem?_set_self'] at hset
    obtain ⟨x, -, hx⟩ := Option.map_eq_some_iff.mp hset
    exact .inl hx.symm
  · rw [List.getElem?_set_ne heq] at hset
    exact .inr ⟨id', fun h => heq h.symm, hset⟩

theorem mem_goes_self (hid : s.requests[id]? = some (r, p)) :
    (r, p') ∈ (s.goes id r p').requests := by
  obtain ⟨hlt, -⟩ := List.getElem?_eq_some_iff.mp hid
  exact List.mem_set hlt (r, p')

theorem mem_goes_of_ne {q : Request × Phase} (hid : s.requests[id]? = some (r, p))
    (hq : q ∈ s.requests) (hne : q.2 ≠ p) : q ∈ (s.goes id r p').requests := by
  obtain ⟨id', hid'⟩ := List.mem_iff_getElem?.mp hq
  have hne' : id ≠ id' := by
    rintro rfl
    rw [hid] at hid'
    exact hne (congrArg Prod.snd (Option.some.inj hid').symm)
  refine List.mem_iff_getElem?.mpr ⟨id', ?_⟩
  have hset : (s.requests.set id (r, p'))[id']? = some q := by
    rw [List.getElem?_set_ne hne', hid']
  exact hset

theorem Upload.Tidy.of_goes (h : (s.goes id r p').Tidy) (hid : s.requests[id]? = some (r, p))
    (hp : p.left = 0) : s.Tidy := by
  intro q hq
  by_cases heq : q.2 = p
  · rw [heq, hp]
  · exact h q (mem_goes_of_ne hid hq heq)

theorem Upload.Tidy.goes (h : s.Tidy) (hp' : p'.left = 0) : (s.goes id r p').Tidy := by
  intro q hq
  obtain rfl | ⟨id', -, hid'⟩ := mem_goes hq
  · exact hp'
  · exact h q (List.mem_of_getElem? hid')

theorem left_of_goes (hid : s.requests[id]? = some (r, p)) (h : (s.goes id r p').Tidy) :
    p'.left = 0 := h _ (mem_goes_self hid)

theorem created_goes (hid : s.requests[id]? = some (r, p)) (hp : p.inFile = true ∨ p = .loaded ∨
    p = .arrived) {digest : Digest} (h : ∃ q, (q, Phase.done (.created digest) 0) ∈ s.requests) :
    ∃ q, (q, Phase.done (.created digest) 0) ∈ (s.goes id r p').requests := by
  obtain ⟨q, hq⟩ := h
  refine ⟨q, mem_goes_of_ne hid hq ?_⟩
  rintro rfl
  obtain h | h | h := hp <;> cases h

/-- A step that leaves the file alone. -/
structure Same (s s' : Upload) : Prop where
  path : s'.path = s.path
  contents : s'.contents = s.contents
  blobs : s'.blobs = s.blobs
  accepted : s'.accepted = s.accepted
  tidy : s'.Tidy ↔ s.Tidy

theorem Same.goes (hid : s.requests[id]? = some (r, p)) (hp : p.left = 0) (hp' : p'.left = 0) :
    Same s (s.goes id r p') :=
  ⟨rfl, rfl, rfl, rfl, fun h => h.of_goes hid hp, fun h => h.goes hp'⟩

/-- What the request in the file has written stays, whatever another one does. -/
theorem Wrote.same {base file : Nat} {bytes : List UInt8} (h : Wrote s r base file bytes)
    (hsame : Same s s') : Wrote s' r base file bytes := by
  obtain ⟨hpath, hstart, hput, before, hbytes, hbase, hlaid⟩ := h
  refine ⟨hsame.path.trans hpath, hstart,
    hput.imp_right fun hput => ⟨hput.1, hsame.tidy.mpr hput.2⟩, before, ?_, hbase,
    fun htidy => ?_⟩
  · rw [hsame.contents, hbytes]
  · rw [hsame.accepted]
    exact hlaid (hsame.tidy.mp htidy)

theorem Kept.same {digest : Digest} (h : Kept hash s digest) (hsame : Same s s') :
    Kept hash s' digest :=
  ⟨hsame.path.trans h.gone, by rw [hsame.blobs]; exact h.there, by
    rw [hsame.accepted]
    exact h.accepted⟩

theorem Holds.same {q : Request} {p₀ : Phase} (h : Holds hash s q p₀) (hsame : Same s s') :
    Holds hash s' q p₀ := by
  cases p₀ with
  | arrived => trivial
  | loaded => trivial
  | opening base =>
    obtain ⟨file, hwrote⟩ := h
    exact ⟨file, hwrote.same hsame⟩
  | appending base handle body flushed => exact ⟨h.1, h.2.same hsame⟩
  | leaving base handle body flushed answer => exact ⟨h.1, h.2.same hsame⟩
  | appended base body =>
    obtain ⟨file, hwrote⟩ := h
    exact ⟨file, hwrote.same hsame⟩
  | finishing base body digest stage =>
    refine ⟨hsame.tidy.mpr h.1, ?_⟩
    have hstage := h.2
    cases stage with
    | hashing =>
      obtain ⟨file, hwrote⟩ := hstage
      exact ⟨file, hwrote.same hsame⟩
    | reading file => exact Wrote.same hstage hsame
    | hashed actual =>
      obtain ⟨file, hwrote, hhash⟩ := hstage
      exact ⟨file, hwrote.same hsame, by rw [hsame.contents, hhash]⟩
    | syncing =>
      obtain ⟨file, hwrote, hhash⟩ := hstage
      exact ⟨file, hwrote.same hsame, by rw [hsame.contents, hhash]⟩
    | synced =>
      obtain ⟨file, hwrote, hhash⟩ := hstage
      exact ⟨file, hwrote.same hsame, by rw [hsame.contents, hhash]⟩
    | placed => exact Kept.same hstage hsame
  | removing => exact hsame.path.trans h
  | done answer left => trivial

/-- A request that is not in the file, before or after. -/
theorem Inv.outside (h : Inv hash s) (hid : s.requests[id]? = some (r, p))
    (hp : p = .loaded ∨ p = .arrived) (hp' : p'.inFile = false) (hleft : p'.left = 0) :
    Inv hash (s.goes id r p') := by
  have hpleft : p.left = 0 := by
    obtain rfl | rfl := hp <;> rfl
  have hpfile : p.inFile = false := by
    obtain rfl | rfl := hp <;> rfl
  have hfile (id' : Nat) (q : Request × Phase) (hq : (s.goes id r p').requests[id']? = some q)
      (hin : q.2.inFile = true) : s.requests[id']? = some q := by
    have hset : (s.requests.set id (r, p'))[id']? = some q := hq
    by_cases heq : id = id'
    · subst heq
      rw [List.getElem?_set_self'] at hset
      obtain ⟨x, -, rfl⟩ := Option.map_eq_some_iff.mp hset
      have hin : p'.inFile = true := hin
      rw [hp'] at hin
      cases hin
    · rwa [List.getElem?_set_ne heq] at hset
  refine ⟨h.blobs, fun id₁ id₂ q₁ q₂ h₁ h₂ hin₁ hin₂ => ?_, fun q hq => ?_,
    fun hrest htidy => ?_, h.stored, h.offsets, fun d hd => ?_,
    fun d hd => (h.kept d hd).same (.goes hid hpleft hleft)⟩
  · exact h.alone id₁ id₂ q₁ q₂ (hfile _ _ h₁ hin₁) (hfile _ _ h₂ hin₂) hin₁ hin₂
  · obtain rfl | ⟨id', -, hid'⟩ := mem_goes hq
    · cases p' with
      | arrived => trivial
      | loaded => trivial
      | done => trivial
      | _ => cases hp'
    · exact (h.holds q (List.mem_of_getElem? hid')).same (.goes hid hpleft hleft)
  · refine h.rests (fun q hq => ?_) (htidy.of_goes hid hpleft)
    by_cases heq : q.2 = p
    · rw [heq, hpfile]
    · exact hrest q (mem_goes_of_ne hid hq heq)
  · exact created_goes hid (.inr hp) (h.created d hd)

/-- The other requests are not in the file. -/
def Others (s : Upload) (id : Nat) : Prop :=
  ∀ (id' : Nat) (q : Request × Phase), s.requests[id']? = some q → id' ≠ id → q.2.inFile = false

theorem Inv.others (h : Inv hash s) (hid : s.requests[id]? = some (r, p)) (hp : p.inFile = true) :
    Others s id := by
  intro id' q hq hne
  by_contra hin
  exact hne (h.alone id' id q (r, p) hq hid (by simpa using hin) hp)

theorem Upload.AtRest.others (h : s.AtRest) : Others s id :=
  fun _ q hq _ => h q (List.mem_of_getElem? hq)

/-- What is to be shown of a step of the request in the file. -/
theorem Inv.inside (hothers : Others s id)
    (hholds : Holds hash (s.goes id r p') r p')
    (hblobs : ∀ digest file, s.blobs digest = some file →
      hash (s.contents file) = digest ∧ s.path ≠ some file)
    (hrests : p'.inFile = false → (s.goes id r p').Tidy →
      ∀ file, s.path = some file → Laid 0 s.accepted (s.contents file))
    (hstored : ∀ e ∈ s.stored,
      s.path = none ∧ s.blobs e.1 = some e.2 ∧ Laid 0 s.accepted (s.contents e.2))
    (hoffsets : ∀ c ∈ s.accepted, StartsAt c.contentRange c.offset)
    (hcreated : ∀ digest ∈ s.links,
      ∃ q, (q, Phase.done (.created digest) 0) ∈ (s.goes id r p').requests)
    (hkept : ∀ digest ∈ s.links, Kept hash s digest)
    (hid : s.requests[id]? = some (r, p)) : Inv hash (s.goes id r p') := by
  have hfile (id' : Nat) (q : Request × Phase) (hq : (s.goes id r p').requests[id']? = some q)
      (hin : q.2.inFile = true) : id' = id := by
    have hset : (s.requests.set id (r, p'))[id']? = some q := hq
    by_contra hne
    rw [List.getElem?_set_ne fun h => hne h.symm] at hset
    rw [hothers id' q hset hne] at hin
    cases hin
  refine ⟨hblobs, fun id₁ id₂ q₁ q₂ h₁ h₂ hin₁ hin₂ => ?_, fun q hq => ?_, fun hrest => ?_,
    hstored, hoffsets, hcreated, fun d hd => ⟨(hkept d hd).gone, (hkept d hd).there,
      (hkept d hd).accepted⟩⟩
  · exact (hfile _ _ h₁ hin₁).trans (hfile _ _ h₂ hin₂).symm
  · obtain rfl | ⟨id', hne, hid'⟩ := mem_goes hq
    · exact hholds
    · have hout := hothers id' q hid' hne
      obtain ⟨q₁, q₂⟩ := q
      cases q₂ with
      | arrived => trivial
      | loaded => trivial
      | done => trivial
      | _ => cases hout
  · exact hrests (hrest _ (mem_goes_self hid))

theorem Phase.left_of_inFile (hp : p.inFile = true) : p.left = 0 := by
  cases p with
  | done => cases hp
  | _ => rfl

/-- The request in the file goes on in it, and nothing else changes. -/
theorem Inv.onward (h : Inv hash s) (hid : s.requests[id]? = some (r, p)) (hp : p.inFile = true)
    (hp' : p'.inFile = true) (hholds : Holds hash s r p') : Inv hash (s.goes id r p') := by
  have hleft := Phase.left_of_inFile hp
  have hleft' := Phase.left_of_inFile hp'
  refine Inv.inside (h.others hid hp) (hholds.same (.goes hid hleft hleft')) h.blobs
    (fun hout => ?_) h.stored h.offsets (fun d hd => ?_) h.kept hid
  · rw [hp'] at hout
    cases hout
  · exact created_goes hid (.inl hp) (h.created d hd)

/-- The request in the file ends, and nothing else changes. -/
theorem Inv.ends (h : Inv hash s) (hid : s.requests[id]? = some (r, p)) (hp : p.inFile = true)
    {answer : Answer} {left : Nat} (hrests : left = 0 → s.Tidy → ∀ file, s.path = some file →
      Laid 0 s.accepted (s.contents file)) : Inv hash (s.goes id r (.done answer left)) := by
  refine Inv.inside (h.others hid hp) trivial h.blobs (fun _ htidy => ?_) h.stored h.offsets
    (fun d hd => created_goes hid (.inl hp) (h.created d hd)) h.kept hid
  exact hrests (left_of_goes hid htidy) (htidy.of_goes hid (Phase.left_of_inFile hp))

/-- Bytes that are left in the file, when there are none. -/
theorem Wrote.rests {base file : Nat} {bytes : List UInt8} (h : Wrote s r base file bytes)
    (hbytes : bytes.length = 0) (htidy : s.Tidy) :
    ∀ i, s.path = some i → Laid 0 s.accepted (s.contents i) := by
  intro i hi
  obtain ⟨hpath, -, -, before, hcontents, -, hlaid⟩ := h
  rw [hpath] at hi
  obtain rfl := Option.some.inj hi
  rw [List.length_eq_zero_iff.mp hbytes, List.append_nil] at hcontents
  rw [hcontents]
  exact hlaid htidy

/-- The chunk that was written is the last one. -/
theorem Wrote.laid {base file : Nat} {body : List UInt8} (h : Wrote s r base file body)
    (htidy : s.Tidy) : Laid 0 (s.accept r base body).accepted (s.contents file) := by
  obtain ⟨-, -, -, before, hcontents, hbase, hlaid⟩ := h
  rw [hcontents]
  exact (hlaid htidy).snoc (by rw [hbase, Nat.zero_add])

theorem Wrote.offsets {base file : Nat} {body : List UInt8} (h : Wrote s r base file body)
    (hoffsets : ∀ c ∈ s.accepted, StartsAt c.contentRange c.offset) :
    ∀ c ∈ (s.accept r base body).accepted, StartsAt c.contentRange c.offset := by
  intro c hc
  obtain hc | hc := List.mem_append.mp hc
  · exact hoffsets c hc
  · obtain rfl := List.mem_singleton.mp hc
    exact h.2.1

/-- Where there is a file, nothing has been stored. -/
theorem Inv.not_mem_stored (h : Inv hash s) {file : Nat} (hpath : s.path = some file)
    {e : Digest × Nat} : e ∉ s.stored := by
  intro he
  rw [(h.stored e he).1] at hpath
  cases hpath

theorem Inv.not_mem_links (h : Inv hash s) {file : Nat} (hpath : s.path = some file)
    {digest : Digest} : digest ∉ s.links := by
  intro hd
  rw [(h.kept digest hd).gone] at hpath
  cases hpath

/-! ## Steps -/

theorem inv_arrive (h : Inv hash s) :
    Inv hash { s with requests := s.requests ++ [(r, .arrived)] } := by
  have hmem {q : Request × Phase} (hq : q ∈ s.requests ++ [(r, .arrived)]) :
      q ∈ s.requests ∨ q = (r, .arrived) :=
    (List.mem_append.mp hq).imp_right List.mem_singleton.mp
  have hfile (id : Nat) (q : Request × Phase)
      (hq : (s.requests ++ [(r, Phase.arrived)])[id]? = some q) (hin : q.2.inFile = true) :
      s.requests[id]? = some q := by
    by_cases hlt : id < s.requests.length
    · rwa [List.getElem?_append_left hlt] at hq
    · rw [List.getElem?_append_right (Nat.le_of_not_lt hlt)] at hq
      obtain rfl := List.mem_singleton.mp (List.mem_of_getElem? hq)
      cases hin
  have hsame : Same s { s with requests := s.requests ++ [(r, .arrived)] } := by
    refine ⟨rfl, rfl, rfl, rfl, fun htidy q hq => htidy q (List.mem_append_left _ hq),
      fun htidy q hq => ?_⟩
    obtain hq | rfl := hmem hq
    · exact htidy q hq
    · rfl
  refine ⟨h.blobs, fun id₁ id₂ q₁ q₂ h₁ h₂ hin₁ hin₂ => ?_, fun q hq => ?_,
    fun hrest htidy => ?_, h.stored, h.offsets, fun d hd => ?_,
    fun d hd => (h.kept d hd).same hsame⟩
  · exact h.alone id₁ id₂ q₁ q₂ (hfile _ _ h₁ hin₁) (hfile _ _ h₂ hin₂) hin₁ hin₂
  · obtain hq | rfl := hmem hq
    · exact (h.holds q hq).same hsame
    · trivial
  · exact h.rests (fun q hq => hrest q (List.mem_append_left _ hq)) (hsame.tidy.mp htidy)
  · obtain ⟨q, hq⟩ := h.created d hd
    exact ⟨q, List.mem_append_left _ hq⟩

theorem inv_load (h : Inv hash s) (hid : s.requests[id]? = some (r, .arrived)) :
    Inv hash (load s id r) := by
  unfold load
  split
  · exact h.outside hid (.inr rfl) rfl rfl
  · exact h.outside hid (.inr rfl) rfl rfl

/-- A chunk starts at the end of the file that it has to itself. -/
theorem inv_opening (h : Inv hash s) (hid : s.requests[id]? = some (r, .loaded)) (hrest : s.AtRest)
    (hfile : s.path.isSome = true) (hstart : StartsAt r.contentRange s.size)
    (hput : r.method = .patch ∨ r.method = .put ∧ s.Tidy) :
    Inv hash (s.goes id r (.opening s.size)) := by
  obtain ⟨file, hpath⟩ := Option.isSome_iff_exists.mp hfile
  have hwrote : Wrote s r s.size file [] := by
    refine ⟨hpath, hstart, hput, s.contents file, (List.append_nil _).symm, ?_,
      fun htidy => h.rests hrest htidy file hpath⟩
    unfold Upload.size
    rw [hpath]
  refine Inv.inside (Upload.AtRest.others hrest) ⟨file, hwrote.same (.goes hid rfl rfl)⟩ h.blobs
    (fun hout => ?_) h.stored h.offsets
    (fun d hd => created_goes hid (.inr (.inl rfl)) (h.created d hd)) h.kept hid
  cases hout

theorem inv_look (h : Inv hash s) (hid : s.requests[id]? = some (r, .loaded))
    (hmay : MayLook s r) : Inv hash (look s id r) := by
  unfold MayLook at hmay
  unfold look
  cases hmethod : r.method with
  | get => exact h.outside hid (.inl rfl) rfl rfl
  | delete =>
    rw [hmethod] at hmay
    refine Inv.inside (s := { s with path := none }) (Upload.AtRest.others hmay) rfl
      (fun d file hfile => ⟨(h.blobs d file hfile).1, nofun⟩) (fun hout => ?_)
      (fun e he => ⟨rfl, (h.stored e he).2⟩) h.offsets
      (fun d hd => created_goes (s := { s with path := none }) hid (.inr (.inl rfl))
        (h.created d hd)) (fun d hd => ⟨rfl, (h.kept d hd).there, (h.kept d hd).accepted⟩) hid
    cases hout
  | put =>
    rw [hmethod] at hmay
    obtain ⟨hrest, hfile, htidy, hstart⟩ := hmay
    exact inv_opening h hid hrest hfile hstart (.inr ⟨hmethod, htidy⟩)
  | patch =>
    rw [hmethod] at hmay
    dsimp only at hmay ⊢
    split
    · next hunsaid =>
      obtain ⟨hrest, hfile⟩ := hmay (.inl hunsaid)
      exact inv_opening h hid hrest hfile (.inl hunsaid) (.inl hmethod)
    · next offset hoffset =>
      split
      · next heq =>
        have hstart : StartsAt r.contentRange s.size := .inr (heq ▸ hoffset)
        obtain ⟨hrest, hfile⟩ := hmay hstart
        exact inv_opening h hid hrest hfile hstart (.inl hmethod)
      · exact h.outside hid (.inl rfl) rfl rfl
    · exact h.outside hid (.inl rfl) rfl rfl
    · exact h.outside hid (.inl rfl) rfl rfl

theorem touch_of_path {file : Nat} (hpath : s.path = some file) : s.touch = s := by
  unfold Upload.touch
  rw [hpath]

theorem inv_openFile (h : Inv hash s) {base : Nat}
    (hid : s.requests[id]? = some (r, .opening base)) : Inv hash (openFile s id r base) := by
  obtain ⟨file, hwrote⟩ := h.holds _ (List.mem_of_getElem? hid)
  unfold openFile
  dsimp only
  rw [touch_of_path hwrote.1, hwrote.1]
  exact h.onward hid rfl rfl ⟨Nat.zero_le _, hwrote⟩

theorem inv_receive (h : Inv hash s) (hid : s.requests[id]? = some (r, p)) {piece : List UInt8}
    (hstep : receive limit s id r piece p = some s') : Inv hash s' := by
  have hholds := h.holds _ (List.mem_of_getElem? hid)
  unfold receive at hstep
  split at hstep
  · obtain ⟨hle, hwrote⟩ := hholds
    split at hstep
    · obtain rfl := Option.some.inj hstep
      exact h.onward hid rfl rfl ⟨hle, hwrote⟩
    · obtain rfl := Option.some.inj hstep
      refine h.onward hid rfl rfl ⟨?_, ?_⟩
      · rw [List.length_append]
        omega
      · rwa [List.take_append_of_le_length hle]
  · cases hstep

/-- The next bytes of the body follow the ones before. -/
theorem Wrote.write {base handle : Nat} {body : List UInt8} {flushed count : Nat}
    (h : Wrote s r base handle (body.take flushed)) :
    Wrote (s.write handle ((body.drop flushed).take count)) r base handle
      (body.take (flushed + count)) := by
  obtain ⟨hpath, hstart, hput, before, hbytes, hbase, hlaid⟩ := h
  refine ⟨hpath, hstart, hput, before, ?_, hbase, hlaid⟩
  rw [Upload.write_self, hbytes, List.append_assoc, List.take_add]

/-- What the request in the file writes is in no blob. -/
theorem Inv.write (h : Inv hash s) (hid : s.requests[id]? = some (r, p)) (hp : p.inFile = true)
    (hp' : p'.inFile = true) {handle : Nat} {bytes : List UInt8} (hpath : s.path = some handle)
    (hholds : Holds hash (s.write handle bytes) r p') :
    Inv hash ((s.write handle bytes).goes id r p') := by
  refine Inv.inside (s := s.write handle bytes) (h.others hid hp)
    (hholds.same (.goes (s := s.write handle bytes) hid (Phase.left_of_inFile hp)
      (Phase.left_of_inFile hp')))
    (fun d file hfile => ?_) (fun hout => ?_) (fun _ he => absurd he (h.not_mem_stored hpath))
    h.offsets
    (fun d hd => created_goes (s := s.write handle bytes) hid (.inl hp) (h.created d hd))
    (fun _ hd => absurd hd (h.not_mem_links hpath)) hid
  · obtain ⟨hhash, hne⟩ := h.blobs d file hfile
    have hfile' : file ≠ handle := by
      rintro rfl
      exact hne hpath
    exact ⟨(congrArg hash (s.write_of_ne hfile' bytes)).trans hhash, hne⟩
  · rw [hp'] at hout
    cases hout

theorem inv_flush (h : Inv hash s) (hid : s.requests[id]? = some (r, p)) {count : Nat}
    (hstep : flush s id r count p = some s') : Inv hash s' := by
  have hholds := h.holds _ (List.mem_of_getElem? hid)
  unfold flush at hstep
  split at hstep
  · obtain ⟨hle, hwrote⟩ := hholds
    split at hstep
    · next hcount =>
      obtain rfl := Option.some.inj hstep
      exact h.write hid rfl rfl hwrote.1 ⟨hcount, hwrote.write⟩
    · cases hstep
  · obtain ⟨hle, hwrote⟩ := hholds
    split at hstep
    · next hcount =>
      obtain rfl := Option.some.inj hstep
      exact h.write hid rfl rfl hwrote.1 ⟨hcount, hwrote.write⟩
    · cases hstep
  · cases hstep

theorem inv_close (h : Inv hash s) (hid : s.requests[id]? = some (r, p))
    (hstep : close s id r p = some s') : Inv hash s' := by
  have hholds := h.holds _ (List.mem_of_getElem? hid)
  unfold close at hstep
  split at hstep
  · split at hstep
    · next base handle body flushed hflushed =>
      obtain rfl := Option.some.inj hstep
      obtain ⟨-, hwrote⟩ := hholds
      rw [hflushed, List.take_length] at hwrote
      exact h.onward hid rfl rfl ⟨handle, hwrote⟩
    · cases hstep
  · split at hstep
    · next base handle body flushed answer hflushed =>
      obtain rfl := Option.some.inj hstep
      obtain ⟨-, hwrote⟩ := hholds
      rw [hflushed, List.take_length] at hwrote
      exact h.ends hid rfl hwrote.rests
    · cases hstep
  · cases hstep

theorem inv_settle (h : Inv hash s) {base : Nat} {body : List UInt8}
    (hid : s.requests[id]? = some (r, .appended base body)) :
    Inv hash (settle s id r base body) := by
  obtain ⟨file, hwrote⟩ := h.holds _ (List.mem_of_getElem? hid)
  have hends (answer : Answer) : Inv hash (s.goes id r (.done answer body.length)) :=
    h.ends hid rfl hwrote.rests
  unfold settle
  split
  · split
    · refine Inv.inside (s := s.accept r base body) (h.others hid rfl) trivial h.blobs
        (fun _ htidy i hi => ?_) (fun _ he => absurd he (h.not_mem_stored hwrote.1))
        (hwrote.offsets h.offsets)
        (fun d hd => created_goes (s := s.accept r base body) hid (.inl rfl) (h.created d hd))
        (fun _ hd => absurd hd (h.not_mem_links hwrote.1)) hid
      have hpath := hwrote.1
      obtain rfl : file = i := Option.some.inj (hpath.symm.trans hi)
      have htidy : s.Tidy := htidy.of_goes (s := s.accept r base body) hid rfl
      exact hwrote.laid htidy
    · exact hends _
  · next hmethod =>
    dsimp only
    split
    · exact hends _
    · rw [touch_of_path hwrote.1]
      obtain hpatch | ⟨-, htidy⟩ := hwrote.2.2.1
      · exact absurd hpatch hmethod
      · exact h.onward hid rfl rfl ⟨htidy, file, hwrote⟩

/-- The file becomes the blob of its digest, or that blob is there. -/
theorem inv_placed (h : Inv hash s) {base file : Nat} {body : List UInt8} {digest : Digest}
    {stage : Stage} (hid : s.requests[id]? = some (r, .finishing base body digest stage))
    (htidy : s.Tidy) (hwrote : Wrote s r base file body)
    (hdigest : digest = hash (s.contents file)) :
    Inv hash (((s.replace file digest).accept r base body).goes id r
      (.finishing base body digest .placed)) := by
  refine Inv.inside (s := (s.replace file digest).accept r base body) (h.others hid rfl)
    ⟨htidy.goes (s := (s.replace file digest).accept r base body) rfl, ⟨rfl, ?_, ?_⟩⟩
    (fun d i hi => ?_) (fun hout => ?_) (fun e he => ?_) (hwrote.offsets h.offsets)
    (fun d hd => created_goes (s := (s.replace file digest).accept r base body) hid (.inl rfl)
      (h.created d hd)) (fun _ hd => absurd hd (h.not_mem_links hwrote.1)) hid
  · exact Option.isSome_iff_exists.mpr ⟨file, s.replace_self file digest⟩
  · rw [hdigest]
    exact congrArg hash (hwrote.laid htidy).bytes
  · refine ⟨?_, nofun⟩
    have hi : (s.replace file digest).blobs d = some i := hi
    by_cases heq : d = digest
    · subst heq
      rw [s.replace_self] at hi
      obtain rfl := Option.some.inj hi
      exact hdigest.symm
    · rw [s.replace_of_ne file heq] at hi
      exact (h.blobs d i hi).1
  · cases hout
  · obtain he | he := List.mem_append.mp he
    · exact absurd he (h.not_mem_stored hwrote.1)
    · obtain rfl := List.mem_singleton.mp he
      exact ⟨rfl, s.replace_self file digest, hwrote.laid htidy⟩

theorem inv_finish (h : Inv hash s) {base : Nat} {body : List UInt8} {digest : Digest}
    {stage : Stage} (hid : s.requests[id]? = some (r, .finishing base body digest stage)) :
    Inv hash (finish hash s id r base body digest stage) := by
  obtain ⟨htidy, hstage⟩ := h.holds _ (List.mem_of_getElem? hid)
  cases stage with
  | hashing =>
    obtain ⟨file, hwrote⟩ := hstage
    unfold finish
    rw [hwrote.1]
    exact h.onward hid rfl rfl ⟨htidy, hwrote⟩
  | reading file => exact h.onward hid rfl rfl ⟨htidy, file, hstage, rfl⟩
  | hashed actual =>
    obtain ⟨file, hwrote, hactual⟩ := hstage
    unfold finish
    dsimp only
    split
    · refine Inv.inside (s := { s with path := none }) (h.others hid rfl) trivial
        (fun d i hi => ⟨(h.blobs d i hi).1, nofun⟩) (fun _ _ i hi => ?_)
        (fun _ he => absurd he (h.not_mem_stored hwrote.1)) h.offsets
        (fun d hd => created_goes (s := { s with path := none }) hid (.inl rfl) (h.created d hd))
        (fun _ hd => absurd hd (h.not_mem_links hwrote.1)) hid
      cases hi
    next heq =>
    have heq : actual = digest := not_not.mp heq
    split
    · next hthere =>
      have hkept : hash ((s.accept r base body).accepted.flatMap Chunk.bytes) = digest := by
        rw [(hwrote.laid htidy).bytes, ← hactual, heq]
      refine Inv.inside (s := ({ s with path := none } : Upload).accept r base body)
        (h.others hid rfl)
        ⟨htidy.goes (s := ({ s with path := none } : Upload).accept r base body) rfl,
          ⟨rfl, hthere, hkept⟩⟩
        (fun d i hi => ⟨(h.blobs d i hi).1, nofun⟩) (fun hout => ?_)
        (fun _ he => absurd he (h.not_mem_stored hwrote.1)) (hwrote.offsets h.offsets)
        (fun d hd => created_goes (s := ({ s with path := none } : Upload).accept r base body) hid
          (.inl rfl) (h.created d hd)) (fun _ hd => absurd hd (h.not_mem_links hwrote.1)) hid
      cases hout
    · exact h.onward hid rfl rfl ⟨htidy, file, hwrote, heq ▸ hactual⟩
  | syncing =>
    obtain ⟨file, hwrote, hdigest⟩ := hstage
    unfold finish
    rw [hwrote.1]
    exact h.onward hid rfl rfl ⟨htidy, file, hwrote, hdigest⟩
  | synced =>
    obtain ⟨file, hwrote, hdigest⟩ := hstage
    unfold finish
    rw [hwrote.1]
    exact inv_placed h hid htidy hwrote hdigest
  | placed =>
    have hkept : Kept hash s digest := hstage
    have hnone := hkept.gone
    unfold finish
    dsimp only
    split
    · refine Inv.inside (s := { s with row := false, links := s.links ++ [digest] })
        (h.others hid rfl) trivial h.blobs (fun _ _ i hi => ?_) h.stored h.offsets (fun d hd => ?_)
        (fun d hd => ?_) hid
      · have hi : s.path = some i := hi
        rw [hnone] at hi
        cases hi
      · obtain hd | hd := List.mem_append.mp hd
        · exact created_goes (s := { s with row := false, links := s.links ++ [digest] }) hid
            (.inl rfl) (h.created d hd)
        · obtain rfl := List.mem_singleton.mp hd
          exact ⟨r, mem_goes_self (s := { s with row := false, links := s.links ++ [d] }) hid⟩
      · obtain hd | hd := List.mem_append.mp hd
        · exact ⟨hnone, (h.kept d hd).there, (h.kept d hd).accepted⟩
        · obtain rfl := List.mem_singleton.mp hd
          exact ⟨hnone, hkept.there, hkept.accepted⟩
    · refine h.ends hid rfl fun _ _ i hi => ?_
      rw [hnone] at hi
      cases hi

theorem inv_turn (h : Inv hash s) (hid : s.requests[id]? = some (r, p))
    (horderly : p = .loaded → MayLook s r) (hstep : turn hash s id r p = some s') :
    Inv hash s' := by
  cases p with
  | arrived =>
    obtain rfl := Option.some.inj hstep
    exact inv_load h hid
  | loaded =>
    obtain rfl := Option.some.inj hstep
    exact inv_look h hid (horderly rfl)
  | opening base =>
    obtain rfl := Option.some.inj hstep
    exact inv_openFile h hid
  | appended base body =>
    obtain rfl := Option.some.inj hstep
    exact inv_settle h hid
  | finishing base body digest stage =>
    obtain rfl := Option.some.inj hstep
    exact inv_finish h hid
  | removing =>
    obtain rfl := Option.some.inj hstep
    have hnone : s.path = none := h.holds _ (List.mem_of_getElem? hid)
    refine Inv.inside (s := { s with row := false }) (h.others hid rfl) trivial h.blobs
      (fun _ _ i hi => ?_) h.stored h.offsets
      (fun d hd => created_goes (s := { s with row := false }) hid (.inl rfl) (h.created d hd))
      (fun d hd => ⟨hnone, (h.kept d hd).there, (h.kept d hd).accepted⟩) hid
    have hi : s.path = some i := hi
    rw [hnone] at hi
    cases hi
  | _ => cases hstep

theorem inv_abort (h : Inv hash s) (hid : s.requests[id]? = some (r, p))
    (hstep : abort s id r p = some s') : Inv hash s' := by
  have hholds := h.holds _ (List.mem_of_getElem? hid)
  cases p with
  | arrived =>
    obtain rfl := Option.some.inj hstep
    exact h.outside hid (.inr rfl) rfl rfl
  | loaded =>
    obtain rfl := Option.some.inj hstep
    exact h.outside hid (.inl rfl) rfl rfl
  | opening base =>
    obtain rfl := Option.some.inj hstep
    obtain ⟨file, hwrote⟩ := hholds
    exact h.ends hid rfl fun _ => hwrote.rests rfl
  | appending base handle body flushed =>
    obtain rfl := Option.some.inj hstep
    exact h.onward hid rfl rfl hholds
  | appended base body =>
    obtain rfl := Option.some.inj hstep
    obtain ⟨file, hwrote⟩ := hholds
    exact h.ends hid rfl hwrote.rests
  | finishing base body digest stage =>
    obtain rfl := Option.some.inj hstep
    refine h.ends hid rfl fun hleft htidy => ?_
    obtain ⟨-, hstage⟩ := hholds
    cases stage with
    | hashing =>
      obtain ⟨file, hwrote⟩ := hstage
      exact hwrote.rests hleft htidy
    | reading file => exact Wrote.rests hstage hleft htidy
    | hashed actual =>
      obtain ⟨file, hwrote, -⟩ := hstage
      exact hwrote.rests hleft htidy
    | syncing =>
      obtain ⟨file, hwrote, -⟩ := hstage
      exact hwrote.rests hleft htidy
    | synced =>
      obtain ⟨file, hwrote, -⟩ := hstage
      exact hwrote.rests hleft htidy
    | placed =>
      have hnone : s.path = none := Kept.gone hstage
      intro i hi
      rw [hnone] at hi
      cases hi
  | removing =>
    obtain rfl := Option.some.inj hstep
    have hnone : s.path = none := hholds
    refine h.ends hid rfl fun _ _ i hi => ?_
    rw [hnone] at hi
    cases hi
  | _ => cases hstep

theorem inv_step (h : Inv hash s) {a : Action} (horderly : Orderly s a)
    (hstep : step hash limit s a = some s') : Inv hash s' := by
  have hact {id : Nat} (hid : a.id? = some id)
      (h : (s.requests[id]?).bind (fun q => act hash limit s id q.1 q.2 a) = some s') :
      ∃ r p, s.requests[id]? = some (r, p) ∧ act hash limit s id r p a = some s' := by
    obtain ⟨⟨r, p⟩, hget, hact⟩ := Option.bind_eq_some_iff.mp h
    exact ⟨r, p, hget, hact⟩
  cases a with
  | arrive r =>
    obtain rfl := Option.some.inj hstep
    exact inv_arrive h
  | turn id =>
    obtain ⟨r, p, hget, hact⟩ := hact rfl hstep
    exact inv_turn h hget (fun hp => horderly (r, p) hget hp) hact
  | receive id piece =>
    obtain ⟨r, p, hget, hact⟩ := hact rfl hstep
    exact inv_receive h hget hact
  | flush id count =>
    obtain ⟨r, p, hget, hact⟩ := hact rfl hstep
    exact inv_flush h hget hact
  | close id =>
    obtain ⟨r, p, hget, hact⟩ := hact rfl hstep
    exact inv_close h hget hact
  | abort id =>
    obtain ⟨r, p, hget, hact⟩ := hact rfl hstep
    exact inv_abort h hget hact

/-! ## Every run -/

/-- A PATCH checks its range; a PUT that may look starts where it should. -/
theorem refuses (horderly : Orderly s (.turn id)) : Refuses hash limit s id := by
  intro r s' hget hmethod hstart hstep
  have hmay : MayLook s r := horderly (r, .loaded) hget rfl
  obtain ⟨q, hq, hact⟩ := Option.bind_eq_some_iff.mp hstep
  rw [hget] at hq
  obtain rfl := Option.some.inj hq
  obtain rfl : look s id r = s' := Option.some.inj hact
  have hrefused (answer : Answer) :
      (s.goes id r (.done answer 0)).requests[id]? = some (r, .done answer 0) := by
    obtain ⟨hlt, -⟩ := List.getElem?_eq_some_iff.mp hget
    exact List.getElem?_set_self hlt
  unfold look
  obtain hpatch | hput := hmethod
  · rw [hpatch]
    dsimp only
    split
    · next hunsaid => exact absurd (.inl hunsaid) hstart
    · next offset hoffset =>
      split
      · next heq => exact absurd (.inr (heq ▸ hoffset)) hstart
      · exact ⟨rfl, rfl, rfl, rfl, _, .inl rfl, hrefused _⟩
    · exact ⟨rfl, rfl, rfl, rfl, _, .inl rfl, hrefused _⟩
    · exact ⟨rfl, rfl, rfl, rfl, _, .inr rfl, hrefused _⟩
  · unfold MayLook at hmay
    rw [hput] at hmay
    exact absurd hmay.2.2.2 hstart

/-- However the requests on an upload are interleaved: where they start on the file one at a time,
blobs are what was accepted. -/
theorem orderly_uploads_safe (h : (uploads hash limit).Reach Orderly s) :
    Safe hash s ∧ ∀ id, Orderly s (.turn id) → Refuses hash limit s id :=
  ⟨Inv.safe (h.invariant (fun _ => Inv.init) fun _ _ _ hi ho hs => inv_step hi ho hs),
    fun _ => refuses⟩

/-! ## Two requests at once -/

/-- SHA-256, as far as the runs below need it. -/
def sampleHash : List UInt8 → Digest
  | [] => "sha256:e3b0c44298fc1c149afbf4c8996fb92427ae41e4649b934ca495991b7852b855"
  | [1] => "sha256:4bf5122f344554c53bde2ebb8cd2b7e3d1600ad631c385a5d7cce23c7785459a"
  | [1, 2] => "sha256:a12871fee210fb8619291eaea194581cbd2531e4b23759d225f6806923f63222"
  | _ => ""

/-- An upload that was started, with an empty store. -/
def fresh : Upload where
  path := some 0
  contents := fun _ => []
  blobs := fun _ => none
  next := 1

theorem fresh_started : Started sampleHash fresh :=
  ⟨rfl, ⟨0, Nat.zero_lt_one, rfl, rfl⟩, nofun, rfl, rfl, rfl, rfl⟩

/-- A step that is orderly. -/
def orderlyStep (s : Upload) (a : Action) : Option Upload :=
  if Orderly s a then step sampleHash 0 s a else none

/-- A chunk, then a PUT with the last one. -/
def twoChunks : List Action :=
  [.arrive { method := .patch, contentRange := some "0-0" },
    .arrive { method := .put, digest := some (sampleHash [1, 2]), contentRange := some "1-1" },
    .arrive { method := .get },
    .turn 0, .turn 1, .turn 0, .turn 0, .receive 0 [1], .flush 0 1, .turn 2, .close 0, .turn 0,
    .turn 1, .turn 1, .receive 1 [2], .flush 1 1, .close 1, .turn 1, .turn 2,
    .turn 1, .turn 1, .turn 1, .turn 1, .turn 1, .turn 1]

theorem twoChunks_stored : ∃ s, (uploads sampleHash 0).Reach Orderly s ∧
    s.links = [sampleHash [1, 2]] ∧
    Safe sampleHash s ∧ ∀ id, Orderly s (.turn id) → Refuses sampleHash 0 s id := by
  have hrun : (twoChunks.foldlM orderlyStep fresh).map Upload.links = some [sampleHash [1, 2]] := by
    decide +kernel
  obtain ⟨s, hs, hlinks⟩ := Option.map_eq_some_iff.mp hrun
  have hreach : (uploads sampleHash 0).Reach Orderly s := by
    refine System.Reach.exec (fun s a s' hstep => ?_) (.init fresh_started) hs
    unfold orderlyStep at hstep
    split at hstep
    · next horderly => exact ⟨horderly, hstep⟩
    · cases hstep
  exact ⟨s, hreach, hlinks, orderly_uploads_safe hreach⟩

/-- A PATCH holds the file open while a PUT hashes it and stores it, and then writes. -/
def lateChunk : List Action :=
  [.arrive { method := .patch }, .arrive { method := .put, digest := some (sampleHash []) },
    .turn 0, .turn 1, .turn 0, .turn 0, .receive 0 [1],
    .turn 1, .turn 1, .close 1, .turn 1, .turn 1, .turn 1, .turn 1, .turn 1, .turn 1, .turn 1,
    .flush 0 1]

/-- The blob of the empty text has one byte, and was answered as created. -/
theorem lateChunk_corrupts : ¬ ∀ hash limit s,
    (uploads hash limit).Reach (fun _ _ => True) s →
      Safe hash s ∧ ∀ id, Refuses hash limit s id := by
  intro hsafe
  have hrun : (lateChunk.foldlM (step sampleHash 0) fresh).map
      (fun s => (s.blobs (sampleHash []), s.contents 0, s.links)) =
        some (some 0, [1], [sampleHash []]) := by
    decide +kernel
  obtain ⟨s, hs, hfinal⟩ := Option.map_eq_some_iff.mp hrun
  obtain ⟨hblob, hcontents⟩ := Prod.mk.inj hfinal
  have hreach : (uploads sampleHash 0).Reach (fun _ _ => True) s :=
    System.Reach.exec (fun _ _ _ hstep => ⟨trivial, hstep⟩) (.init fresh_started) hs
  have hverified := (hsafe sampleHash 0 s hreach).1.verified _ 0 hblob
  rw [(Prod.mk.inj hcontents).1] at hverified
  exact absurd hverified (by decide +kernel)

end Minireg.Docker.Uploads
