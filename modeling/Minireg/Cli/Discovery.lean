import Minireg.Cli.Pep508

/-!
# Discovery loses nothing

`read` follows includes over an arbitrary graph, with what it has visited shared along one file
and what it has claimed shared along a directory. `readFile_returns` is its termination,
`Reads` its invariant, `readFile_reads` what one call does. `discover_loses_nothing_iff` says for
which directories every requirement is recorded once.
-/

namespace Minireg.Cli

open Py Semver

section Walk

variable {P : Type} [DecidableEq P] (dir : Directory P) (path : Audited P)

/-! ## Termination -/

/-- The files that can still be read. -/
def unread (s : Reading P) : Nat := (dir.files.filter (· ∉ s.visited)).length

theorem unread_lt {s s' : Reading P} (h : s.visited ⊆ s'.visited) {p : P} (hp : p ∈ dir.files)
    (hnew : p ∉ s.visited) (hvisited : p ∈ s'.visited) : unread dir s' < unread dir s := by
  unfold unread
  have hfilter : dir.files.filter (· ∉ s'.visited) =
      (dir.files.filter (· ∉ s.visited)).filter (· ∉ s'.visited) := by
    rw [List.filter_filter]
    refine List.filter_congr fun q _ => ?_
    by_cases hq : q ∈ s'.visited
    · simp [hq]
    · have hq' : q ∉ s.visited := fun hmem => hq (h hmem)
      simp [hq, hq']
  rw [hfilter, List.length_filter_lt_length_iff_exists]
  exact ⟨p, List.mem_filter.mpr ⟨hp, decide_eq_true hnew⟩, by simp [hvisited]⟩

/-- A read that returns, with no file forgotten. -/
def Returns (read : P → Reading P → Option (Reading P)) (s : Reading P) (p : P) : Prop :=
  ∃ s', read p s = some s' ∧ s.visited ⊆ s'.visited

theorem readItem_returns {read : P → Reading P → Option (Reading P)} {s : Reading P} (item : Line)
    (h : ∀ p s', s.visited ⊆ s'.visited → Returns read s' p) :
    ∃ s', readItem dir path read s item = some s' ∧ s.visited ⊆ s'.visited := by
  have hself : s.visited ⊆ s.visited := List.Subset.refl _
  have hleave (target : P) (note : String) : s.visited ⊆ (s.leave target note).visited := by
    unfold Reading.leave
    split
    · exact hself
    · exact List.subset_cons_self _ _
  rcases item with _ | name | _ | ⟨name, version⟩ | line | _
  · exact ⟨s, rfl, hself⟩
  · unfold readItem includeFile
    dsimp only
    split
    · exact ⟨_, rfl, hself⟩
    split
    · exact ⟨_, rfl, hleave _ _⟩
    split
    · split
      · exact h _ s hself
      · exact ⟨_, rfl, hleave _ _⟩
    · split
      · exact h _ s hself
      · exact h _ { s with claimed := _ } hself
  · exact ⟨s, rfl, hself⟩
  · refine ⟨_, rfl, ?_⟩
    unfold Reading.addPin
    dsimp only
    split <;> exact hself
  · exact ⟨_, rfl, hself⟩
  · exact ⟨s, rfl, hself⟩

theorem readItems_returns {read : P → Reading P → Option (Reading P)} {s : Reading P}
    (items : List Line) (h : ∀ p s', s.visited ⊆ s'.visited → Returns read s' p) :
    ∃ s', items.foldlM (readItem dir path read) s = some s' ∧ s.visited ⊆ s'.visited := by
  induction items generalizing s with
  | nil => exact ⟨s, rfl, List.Subset.refl _⟩
  | cons item items ih =>
    obtain ⟨s₁, hs₁, hsub₁⟩ := readItem_returns dir path item h
    obtain ⟨s₂, hs₂, hsub₂⟩ := ih fun p s' hsub => h p s' (List.Subset.trans hsub₁ hsub)
    refine ⟨s₂, ?_, List.Subset.trans hsub₁ hsub₂⟩
    rw [List.foldlM_cons, hs₁]
    exact hs₂

/-- A file is read to the end where there are fewer files left to read than the depth. -/
theorem readFile_returns {depth : Nat} {p : P} {s : Reading P} (h : unread dir s < depth) :
    Returns (readFile dir path depth) s p := by
  induction depth generalizing p s with
  | zero => omega
  | succ depth ih =>
    unfold Returns readFile
    split
    · exact ⟨s, rfl, List.Subset.refl _⟩
    next hnew =>
    dsimp only
    rcases htext : dir.text p with _ | text
    · refine ⟨_, rfl, ?_⟩
      split <;> exact List.subset_cons_self _ _
    · have hdeeper (q : P) (s' : Reading P) (hsub : p :: s.visited ⊆ s'.visited) :
          Returns (readFile dir path depth) s' q := by
        have hlt : unread dir s' < unread dir s :=
          unread_lt dir (List.Subset.trans (List.subset_cons_self _ _) hsub)
            (dir.mem_files p text htext) hnew (hsub List.mem_cons_self)
        exact ih (by omega)
      obtain ⟨s', hs', hsub⟩ := readItems_returns dir path
        (s := { s with visited := p :: s.visited, filesRead := p :: s.filesRead }) (linesOf text)
        hdeeper
      exact ⟨s', hs', List.Subset.trans (List.subset_cons_self _ _) hsub⟩

/-! ## What has been read -/

/-- A file that is left to another one: audited on its own, or claimed before. -/
def Left (s : Reading P) (target : P) : Prop :=
  (target ∈ path.standalone ∧ target ≠ path.root dir) ∨
    ∃ other, s.claimed.get? target = some other ∧ other ≠ path.name

/-- A file that is read here. -/
def Mine (s : Reading P) (p : P) : Prop :=
  p = path.root dir ∨ (p ∉ path.standalone ∧ s.claimed.get? p = some path.name)

/-- What is reached from a file by the includes of its directory. -/
inductive ReachedFrom (root : P) : P → Prop where
  | root : ReachedFrom root root
  | file {p : P} {text : String} {name : List Char} : ReachedFrom root p →
      dir.text p = some text → Line.file name ∈ linesOf text →
      dir.inside (dir.resolve (String.ofList name)) = true →
      ReachedFrom root (dir.resolve (String.ofList name))

/-- A line of a file. -/
def LineIn (p : P) (item : Line) : Prop := ∃ text, dir.text p = some text ∧ item ∈ linesOf text

/-- The claims on files are those there were, and those of what has been visited or is about to. -/
structure Reads (claimed : Dict P String) (pending : Option P) (s : Reading P) : Prop where
  visited : ∀ p ∈ s.visited, p ∈ s.filesRead ∨ dir.text p = none ∨ Left dir path s p
  mine : ∀ p ∈ s.filesRead, Mine dir path s p
  readable : ∀ p ∈ s.filesRead, ∃ text, dir.text p = some text
  reached : ∀ p ∈ s.filesRead, ReachedFrom dir (path.root dir) p
  claims : ∀ p n, s.claimed.get? p = some n →
    claimed.get? p = some n ∨ (n = path.name ∧ (p ∈ s.visited ∨ some p = pending))
  unclaimed : ∀ p ∈ path.standalone, s.claimed.get? p = none
  out : ∀ e ∈ s.out, ∃ p ∈ s.filesRead, ∃ name version, LineIn dir p (.pin name version) ∧
    e = { name := String.ofList name, version := String.ofList version }
  unpinned : ∀ l ∈ s.unpinned, ∃ p ∈ s.filesRead, ∃ line, LineIn dir p (.named line) ∧
    l = String.ofList line
  seen : ∀ key ∈ s.seenPins, ∃ e ∈ s.out, key = (lowerName e.name.toList, e.version)

/-- Nothing that was gathered is lost. -/
structure Grows (s s' : Reading P) : Prop where
  visited : s.visited ⊆ s'.visited
  filesRead : s.filesRead ⊆ s'.filesRead
  seenPins : s.seenPins ⊆ s'.seenPins
  unpinned : s.unpinned ⊆ s'.unpinned
  claimed : ∀ p n, s.claimed.get? p = some n → s'.claimed.get? p = some n

variable {dir path} {claimed : Dict P String} {s s' s'' : Reading P} {p target : P}

theorem Grows.refl (s : Reading P) : Grows s s :=
  ⟨List.Subset.refl _, List.Subset.refl _, List.Subset.refl _, List.Subset.refl _, fun _ _ h => h⟩

theorem Grows.trans (h : Grows s s') (h' : Grows s' s'') : Grows s s'' :=
  ⟨List.Subset.trans h.visited h'.visited, List.Subset.trans h.filesRead h'.filesRead,
    List.Subset.trans h.seenPins h'.seenPins, List.Subset.trans h.unpinned h'.unpinned,
    fun p n hn => h'.claimed p n (h.claimed p n hn)⟩

theorem Left.grows (h : Left dir path s p) (hgrows : Grows s s') : Left dir path s' p := by
  obtain hstandalone | ⟨other, hother, hne⟩ := h
  · exact .inl hstandalone
  · exact .inr ⟨other, hgrows.claimed p other hother, hne⟩

theorem Mine.grows (h : Mine dir path s p) (hgrows : Grows s s') : Mine dir path s' p := by
  obtain hroot | ⟨hstandalone, hclaimed⟩ := h
  · exact .inl hroot
  · exact .inr ⟨hstandalone, hgrows.claimed p _ hclaimed⟩

/-- What is read here is not left to others. -/
theorem Reads.not_left {pending : Option P} (h : Reads dir path claimed pending s)
    (hroot : path.root dir ∈ path.standalone) (hmine : Mine dir path s p) :
    ¬ Left dir path s p := by
  rintro (⟨hstandalone, hne⟩ | ⟨other, hother, hne⟩)
  · obtain rfl | ⟨hnot, -⟩ := hmine
    · exact hne rfl
    · exact hnot hstandalone
  · obtain rfl | ⟨-, hclaimed⟩ := hmine
    · rw [h.unclaimed _ hroot] at hother
      cases hother
    · rw [hclaimed] at hother
      exact hne (Option.some.inj hother).symm

/-- A line whose entry is recorded, or whose file is read or left. -/
def Handled (dir : Directory P) (path : Audited P) (s : Reading P) : Line → Prop
  | .file name =>
    let target := dir.resolve (String.ofList name)
    dir.inside target = false ∨ target ∈ s.filesRead ∨ dir.text target = none ∨
      Left dir path s target
  | .pin name version => (lowerName name, String.ofList version) ∈ s.seenPins
  | .named line => String.ofList line ∈ s.unpinned
  | .blank | .option | .other => True

theorem Handled.grows {item : Line} (h : Handled dir path s item) (hgrows : Grows s s') :
    Handled dir path s' item := by
  rcases item with _ | name | _ | ⟨name, version⟩ | line | _
  · trivial
  · obtain hout | hread | hnone | hleft := h
    · exact .inl hout
    · exact .inr (.inl (hgrows.filesRead hread))
    · exact .inr (.inr (.inl hnone))
    · exact .inr (.inr (.inr (hleft.grows hgrows)))
  · trivial
  · exact hgrows.seenPins h
  · exact hgrows.unpinned h
  · trivial

/-- Every line of a file is handled. -/
def Done (dir : Directory P) (path : Audited P) (s : Reading P) (p : P) : Prop :=
  ∀ item, LineIn dir p item → Handled dir path s item

theorem Done.grows (h : Done dir path s p) (hgrows : Grows s s') : Done dir path s' p :=
  fun item hitem => (h item hitem).grows hgrows

/-- What a call does: nothing is lost, and what it has read is done. -/
structure Does (dir : Directory P) (path : Audited P) (claimed : Dict P String)
    (s s' : Reading P) : Prop where
  grows : Grows s s'
  reads : Reads dir path claimed none s'
  done : ∀ p ∈ s'.filesRead, p ∉ s.filesRead → Done dir path s' p

theorem Does.refl (h : Reads dir path claimed none s) : Does dir path claimed s s :=
  ⟨.refl s, h, fun _ hp hnew => absurd hp hnew⟩

theorem Does.trans (h : Does dir path claimed s s') (h' : Does dir path claimed s' s'') :
    Does dir path claimed s s'' := by
  refine ⟨h.grows.trans h'.grows, h'.reads, fun p hp hnew => ?_⟩
  by_cases hmem : p ∈ s'.filesRead
  · exact (h.done p hmem hnew).grows h'.grows
  · exact h'.done p hp hmem

/-! ## Steps -/

theorem Grows.leave (s : Reading P) (target : P) (note : String) :
    Grows s (s.leave target note) := by
  unfold Reading.leave
  split
  · exact .refl s
  · exact ⟨List.subset_cons_self _ _, List.Subset.refl _, List.Subset.refl _, List.Subset.refl _,
      fun _ _ h => h⟩

/-- A file that is left is visited and not read. -/
theorem Reads.leave (h : Reads dir path claimed none s) (hleft : Left dir path s target)
    (note : String) : Reads dir path claimed none (s.leave target note) := by
  unfold Reading.leave
  split
  · exact h
  refine ⟨fun p hp => ?_, h.mine, h.readable, h.reached, fun p n hn => ?_, h.unclaimed, h.out,
    h.unpinned, h.seen⟩
  · obtain rfl | hp := List.mem_cons.mp hp
    · exact .inr (.inr hleft)
    · exact h.visited p hp
  · obtain hbefore | ⟨rfl, hvisited | hpending⟩ := h.claims p n hn
    · exact .inl hbefore
    · exact .inr ⟨rfl, .inl (List.mem_cons_of_mem _ hvisited)⟩
    · cases hpending

theorem Grows.addPin (s : Reading P) (name version : List Char) :
    Grows s (s.addPin name version) := by
  unfold Reading.addPin
  dsimp only
  split
  · exact .refl s
  · exact ⟨List.Subset.refl _, List.Subset.refl _, List.subset_cons_self _ _, List.Subset.refl _,
      fun _ _ h => h⟩

theorem Reads.addPin (h : Reads dir path claimed none s) {name version : List Char}
    (hp : p ∈ s.filesRead) (hline : LineIn dir p (.pin name version)) :
    Reads dir path claimed none (s.addPin name version) := by
  unfold Reading.addPin
  dsimp only
  split
  · exact h
  refine ⟨h.visited, h.mine, h.readable, h.reached, h.claims, h.unclaimed, fun e he => ?_,
    h.unpinned, fun key hkey => ?_⟩
  · obtain he | he := List.mem_append.mp he
    · exact h.out e he
    · exact ⟨p, hp, name, version, hline, List.mem_singleton.mp he⟩
  · obtain rfl | hkey := List.mem_cons.mp hkey
    · exact ⟨_, List.mem_append_right _ (List.mem_singleton_self _), by rw [String.toList_ofList]⟩
    · obtain ⟨e, he, heq⟩ := h.seen key hkey
      exact ⟨e, List.mem_append_left _ he, heq⟩

omit [DecidableEq P] in
theorem mem_seenPins_addPin (s : Reading P) (name version : List Char) :
    (lowerName name, String.ofList version) ∈ (s.addPin name version).seenPins := by
  unfold Reading.addPin
  dsimp only
  split
  · next hmem => exact hmem
  · exact List.mem_cons_self

theorem Reads.named (h : Reads dir path claimed none s) {line : List Char}
    (hp : p ∈ s.filesRead) (hline : LineIn dir p (.named line)) :
    Reads dir path claimed none { s with unpinned := s.unpinned ++ [String.ofList line] } := by
  refine ⟨h.visited, h.mine, h.readable, h.reached, h.claims, h.unclaimed, h.out, fun l hl => ?_,
    h.seen⟩
  obtain hl | hl := List.mem_append.mp hl
  · exact h.unpinned l hl
  · exact ⟨p, hp, line, hline, List.mem_singleton.mp hl⟩

/-- A file that nobody claims is claimed before it is read. -/
theorem Reads.claim (h : Reads dir path claimed none s) (hnone : s.claimed.get? target = none)
    (hstandalone : target ∉ path.standalone) :
    Reads dir path claimed (some target)
      { s with claimed := s.claimed.set target path.name } ∧
    Grows s { s with claimed := s.claimed.set target path.name } := by
  have hkeep (q : P) (n : String) (hq : s.claimed.get? q = some n) :
      (s.claimed.set target path.name).get? q = some n := by
    rw [Dict.get?_set, if_neg]
    · exact hq
    · rintro rfl
      rw [hnone] at hq
      cases hq
  have hgrows : Grows s { s with claimed := s.claimed.set target path.name } :=
    ⟨List.Subset.refl _, List.Subset.refl _, List.Subset.refl _, List.Subset.refl _, hkeep⟩
  refine ⟨⟨fun p hp => ?_, fun p hp => (h.mine p hp).grows hgrows, h.readable, h.reached,
    fun p n hn => ?_, fun p hp => ?_, h.out, h.unpinned, h.seen⟩, hgrows⟩
  · obtain hread | hnone | hleft := h.visited p hp
    · exact .inl hread
    · exact .inr (.inl hnone)
    · exact .inr (.inr (hleft.grows hgrows))
  · rw [Dict.get?_set] at hn
    split at hn
    · next heq => exact .inr ⟨(Option.some.inj hn).symm, .inr (by rw [heq])⟩
    · obtain hbefore | ⟨rfl, hvisited | hpending⟩ := h.claims p n hn
      · exact .inl hbefore
      · exact .inr ⟨rfl, .inl hvisited⟩
      · cases hpending
  · rw [Dict.get?_set, if_neg]
    · exact h.unclaimed p hp
    · rintro rfl
      exact hstandalone hp

/-- Any file may be the next one to be read. -/
theorem Reads.pending (h : Reads dir path claimed none s) (target : P) :
    Reads dir path claimed (some target) s := by
  refine ⟨h.visited, h.mine, h.readable, h.reached, fun p n hn => ?_, h.unclaimed, h.out,
    h.unpinned, h.seen⟩
  obtain hbefore | ⟨rfl, hvisited | hpending⟩ := h.claims p n hn
  · exact .inl hbefore
  · exact .inr ⟨rfl, .inl hvisited⟩
  · cases hpending

/-- The claim on the file that was about to be read is settled. -/
theorem Reads.settled (h : Reads dir path claimed (some p) s) (hp : p ∈ s.visited) :
    Reads dir path claimed none s := by
  refine ⟨h.visited, h.mine, h.readable, h.reached, fun q n hn => ?_, h.unclaimed, h.out,
    h.unpinned, h.seen⟩
  obtain hbefore | ⟨rfl, hvisited | hpending⟩ := h.claims q n hn
  · exact .inl hbefore
  · exact .inr ⟨rfl, .inl hvisited⟩
  · obtain rfl := Option.some.inj hpending
    exact .inr ⟨rfl, .inl hp⟩

/-- What reading one file does, whatever the depth. -/
def ReadDoes (dir : Directory P) (path : Audited P) (claimed : Dict P String)
    (read : P → Reading P → Option (Reading P)) : Prop :=
  ∀ p s s', read p s = some s' → Reads dir path claimed (some p) s → Mine dir path s p →
    ReachedFrom dir (path.root dir) p → Does dir path claimed s s' ∧ p ∈ s'.visited

variable {read : P → Reading P → Option (Reading P)}

/-- A file that is read here ends up read, where it can be. -/
theorem ReadDoes.handled (hread : ReadDoes dir path claimed read)
    (hroot : path.root dir ∈ path.standalone) (h : read target s = some s')
    (hreads : Reads dir path claimed (some target) s) (hmine : Mine dir path s target)
    (hreached : ReachedFrom dir (path.root dir) target) :
    Does dir path claimed s s' ∧ (target ∈ s'.filesRead ∨ dir.text target = none) := by
  obtain ⟨hdoes, hvisited⟩ := hread target s s' h hreads hmine hreached
  refine ⟨hdoes, ?_⟩
  obtain hfile | hnone | hleft := hdoes.reads.visited target hvisited
  · exact .inl hfile
  · exact .inr hnone
  · exact absurd hleft (hdoes.reads.not_left hroot (hmine.grows hdoes.grows))

theorem includeFile_does (hread : ReadDoes dir path claimed read)
    (hroot : path.root dir ∈ path.standalone) {name : List Char}
    (h : includeFile dir path read name s = some s') (hreads : Reads dir path claimed none s)
    (hp : p ∈ s.filesRead) (hline : LineIn dir p (.file name)) :
    Does dir path claimed s s' ∧ Handled dir path s' (.file name) := by
  obtain ⟨text, htext, hitem⟩ := hline
  unfold includeFile at h
  dsimp only at h
  split at h
  · next hout =>
    cases h
    refine ⟨⟨⟨List.Subset.refl _, List.Subset.refl _, List.Subset.refl _, List.Subset.refl _,
      fun _ _ hq => hq⟩, ?_, fun _ hp hnew => absurd hp hnew⟩, .inl (by simpa using hout)⟩
    exact ⟨hreads.visited, hreads.mine, hreads.readable, hreads.reached, hreads.claims,
      hreads.unclaimed, hreads.out, hreads.unpinned, hreads.seen⟩
  next hinside =>
  have hinside : dir.inside (dir.resolve (String.ofList name)) = true := by simpa using hinside
  have hreached : ReachedFrom dir (path.root dir) (dir.resolve (String.ofList name)) :=
    .file (hreads.reached p hp) htext hitem hinside
  split at h
  · next hstandalone =>
    cases h
    have hleft : Left dir path s (dir.resolve (String.ofList name)) := .inl hstandalone
    have hgrows := Grows.leave s (dir.resolve (String.ofList name))
      (onItsOwn (dir.fileName (dir.resolve (String.ofList name))))
    refine ⟨⟨hgrows, hreads.leave hleft _, fun q hq hnew => absurd ?_ hnew⟩,
      .inr (.inr (.inr (hleft.grows hgrows)))⟩
    unfold Reading.leave at hq
    split at hq <;> exact hq
  next hstandalone =>
  split at h
  · next other hother =>
    split at h
    · next heq =>
      subst heq
      have hmine : Mine dir path s (dir.resolve (String.ofList name)) := by
        refine .inr ⟨fun hmem => ?_, hother⟩
        rw [hreads.unclaimed _ hmem] at hother
        cases hother
      obtain ⟨hdoes, hhandled⟩ := hread.handled hroot h (hreads.pending _) hmine hreached
      exact ⟨hdoes, .inr (hhandled.imp_right .inl)⟩
    · next hne =>
      cases h
      have hleft : Left dir path s (dir.resolve (String.ofList name)) := .inr ⟨other, hother, hne⟩
      have hgrows := Grows.leave s (dir.resolve (String.ofList name))
        (countedUnder (dir.fileName (dir.resolve (String.ofList name))) other)
      refine ⟨⟨hgrows, hreads.leave hleft _, fun q hq hnew => absurd ?_ hnew⟩,
        .inr (.inr (.inr (hleft.grows hgrows)))⟩
      unfold Reading.leave at hq
      split at hq <;> exact hq
  · next hnone =>
    split at h
    · next heq =>
      obtain ⟨hdoes, hhandled⟩ := hread.handled hroot h (hreads.pending _) (.inl heq) hreached
      exact ⟨hdoes, .inr (hhandled.imp_right .inl)⟩
    · next hne =>
      have hnot : dir.resolve (String.ofList name) ∉ path.standalone :=
        fun hmem => hstandalone ⟨hmem, hne⟩
      obtain ⟨hclaim, hgrows⟩ := hreads.claim hnone hnot
      have hmine : Mine dir path { s with claimed := s.claimed.set _ path.name }
          (dir.resolve (String.ofList name)) := .inr ⟨hnot, by rw [Dict.get?_set, if_pos rfl]⟩
      obtain ⟨hdoes, hhandled⟩ := hread.handled hroot h hclaim hmine hreached
      exact ⟨⟨hgrows.trans hdoes.grows, hdoes.reads, hdoes.done⟩, .inr (hhandled.imp_right .inl)⟩

theorem readItem_does (hread : ReadDoes dir path claimed read)
    (hroot : path.root dir ∈ path.standalone) {item : Line}
    (h : readItem dir path read s item = some s') (hreads : Reads dir path claimed none s)
    (hp : p ∈ s.filesRead) (hline : LineIn dir p item) :
    Does dir path claimed s s' ∧ Handled dir path s' item := by
  rcases item with _ | name | _ | ⟨name, version⟩ | line | _
  · cases h
    exact ⟨.refl hreads, trivial⟩
  · exact includeFile_does hread hroot h hreads hp hline
  · cases h
    exact ⟨.refl hreads, trivial⟩
  · cases h
    refine ⟨⟨Grows.addPin s name version, hreads.addPin hp hline, fun q hq hnew => absurd ?_ hnew⟩,
      mem_seenPins_addPin s name version⟩
    unfold Reading.addPin at hq
    dsimp only at hq
    split at hq <;> exact hq
  · cases h
    refine ⟨⟨⟨List.Subset.refl _, List.Subset.refl _, List.Subset.refl _,
      List.subset_append_left _ _, fun _ _ hq => hq⟩, hreads.named hp hline,
      fun q hq hnew => absurd hq hnew⟩, ?_⟩
    exact List.mem_append_right _ (List.mem_singleton_self _)
  · cases h
    exact ⟨.refl hreads, trivial⟩

theorem readItems_does (hread : ReadDoes dir path claimed read)
    (hroot : path.root dir ∈ path.standalone) {items : List Line}
    (h : items.foldlM (readItem dir path read) s = some s')
    (hreads : Reads dir path claimed none s) (hp : p ∈ s.filesRead)
    (hlines : ∀ item ∈ items, LineIn dir p item) :
    Does dir path claimed s s' ∧ ∀ item ∈ items, Handled dir path s' item := by
  induction items generalizing s with
  | nil =>
    cases h
    exact ⟨.refl hreads, fun _ hitem => absurd hitem List.not_mem_nil⟩
  | cons item items ih =>
    rw [List.foldlM_cons] at h
    obtain ⟨s₁, hs₁, h⟩ := Option.bind_eq_some_iff.mp h
    obtain ⟨hdoes₁, hhandled₁⟩ :=
      readItem_does hread hroot hs₁ hreads hp (hlines item List.mem_cons_self)
    obtain ⟨hdoes₂, hhandled₂⟩ := ih h hdoes₁.reads (hdoes₁.grows.filesRead hp)
      fun item' hitem' => hlines item' (List.mem_cons_of_mem _ hitem')
    refine ⟨hdoes₁.trans hdoes₂, fun item' hitem' => ?_⟩
    obtain rfl | hitem' := List.mem_cons.mp hitem'
    · exact hhandled₁.grows hdoes₂.grows
    · exact hhandled₂ item' hitem'

/-- A file that cannot be read is visited all the same. -/
theorem Reads.unreadable (h : Reads dir path claimed (some p) s) (hnone : dir.text p = none) :
    Reads dir path claimed none { s with visited := p :: s.visited } := by
  refine Reads.settled (p := p) ⟨fun q hq => ?_, h.mine, h.readable, h.reached, fun q n hn => ?_,
    h.unclaimed, h.out, h.unpinned, h.seen⟩ List.mem_cons_self
  · obtain rfl | hq := List.mem_cons.mp hq
    · exact .inr (.inl hnone)
    · exact h.visited q hq
  · exact (h.claims q n hn).imp_right fun hmine =>
      ⟨hmine.1, hmine.2.imp_left (List.mem_cons_of_mem _)⟩

/-- A file is visited when it starts to be read. -/
theorem Reads.visit (h : Reads dir path claimed (some p) s) {text : String}
    (htext : dir.text p = some text) (hmine : Mine dir path s p)
    (hreached : ReachedFrom dir (path.root dir) p) :
    Reads dir path claimed none
      { s with visited := p :: s.visited, filesRead := p :: s.filesRead } := by
  refine Reads.settled (p := p) ⟨fun q hq => ?_, fun q hq => ?_, fun q hq => ?_, fun q hq => ?_,
    fun q n hn => ?_, h.unclaimed, fun e he => ?_, fun l hl => ?_, h.seen⟩ List.mem_cons_self
  · obtain rfl | hq := List.mem_cons.mp hq
    · exact .inl List.mem_cons_self
    · exact (h.visited q hq).imp_left (List.mem_cons_of_mem _)
  · obtain rfl | hq := List.mem_cons.mp hq
    · exact hmine
    · exact h.mine q hq
  · obtain rfl | hq := List.mem_cons.mp hq
    · exact ⟨text, htext⟩
    · exact h.readable q hq
  · obtain rfl | hq := List.mem_cons.mp hq
    · exact hreached
    · exact h.reached q hq
  · exact (h.claims q n hn).imp_right fun hmine =>
      ⟨hmine.1, hmine.2.imp_left (List.mem_cons_of_mem _)⟩
  · obtain ⟨q, hq, hentry⟩ := h.out e he
    exact ⟨q, List.mem_cons_of_mem _ hq, hentry⟩
  · obtain ⟨q, hq, hentry⟩ := h.unpinned l hl
    exact ⟨q, List.mem_cons_of_mem _ hq, hentry⟩

/-- By induction on the depth: what is visited was read, and what is read is done. -/
theorem readFile_does (hroot : path.root dir ∈ path.standalone) (depth : Nat) :
    ReadDoes dir path claimed (readFile dir path depth) := by
  induction depth with
  | zero =>
    intro p s s' h
    cases h
  | succ depth ih =>
    intro p s s' h hreads hmine hreached
    unfold readFile at h
    split at h
    · next hvisited =>
      cases h
      exact ⟨.refl (hreads.settled hvisited), hvisited⟩
    dsimp only at h
    rcases htext : dir.text p with _ | text
    · rw [htext] at h
      cases h
      have hvisit := hreads.unreadable htext
      have hgrows : Grows s { s with visited := p :: s.visited } :=
        ⟨List.subset_cons_self _ _, List.Subset.refl _, List.Subset.refl _, List.Subset.refl _,
          fun _ _ hq => hq⟩
      split
      · exact ⟨⟨hgrows, hvisit, fun _ hq hnew => absurd hq hnew⟩, List.mem_cons_self⟩
      · refine ⟨⟨⟨hgrows.visited, hgrows.filesRead, hgrows.seenPins, hgrows.unpinned,
          hgrows.claimed⟩, ?_, fun _ hq hnew => absurd hq hnew⟩, List.mem_cons_self⟩
        exact ⟨hvisit.visited, hvisit.mine, hvisit.readable, hvisit.reached, hvisit.claims,
          hvisit.unclaimed, hvisit.out, hvisit.unpinned, hvisit.seen⟩
    · rw [htext] at h
      have hgrows : Grows s { s with visited := p :: s.visited, filesRead := p :: s.filesRead } :=
        ⟨List.subset_cons_self _ _, List.subset_cons_self _ _, List.Subset.refl _,
          List.Subset.refl _, fun _ _ hq => hq⟩
      obtain ⟨hdoes, hhandled⟩ := readItems_does ih hroot h (hreads.visit htext hmine hreached)
        List.mem_cons_self fun item hitem => ⟨text, htext, hitem⟩
      refine ⟨⟨hgrows.trans hdoes.grows, hdoes.reads, fun q hq hnew => ?_⟩,
        hdoes.grows.visited List.mem_cons_self⟩
      by_cases heq : q = p
      · subst heq
        rintro item ⟨text', htext', hitem⟩
        rw [htext] at htext'
        obtain rfl := Option.some.inj htext'
        exact hhandled item hitem
      · refine hdoes.done q hq fun hmem => ?_
        obtain rfl | hmem := List.mem_cons.mp hmem
        · exact heq rfl
        · exact hnew hmem

/-- One file: it is read to the end, and so is what it includes. -/
theorem parseRequirements_does {name : String} {standalone : List P} (claimed : Dict P String)
    (hroot : dir.resolve name ∈ standalone)
    (hunclaimed : ∀ p ∈ standalone, claimed.get? p = none) :
    ∃ s, parseRequirements dir name standalone claimed = some s ∧
      Does dir { name := name, standalone := standalone } claimed { claimed := claimed } s ∧
      (dir.resolve name ∈ s.filesRead ∨ dir.text (dir.resolve name) = none) := by
  have hne : standalone ≠ [] := by
    rintro rfl
    cases hroot
  have hunread : unread dir { claimed := claimed } < dir.files.length + 1 :=
    Nat.lt_succ_of_le (List.length_filter_le _ _)
  obtain ⟨s, hs, -⟩ := readFile_returns dir { name := name, standalone := standalone } hunread
    (p := dir.resolve name)
  have hstart : Reads dir { name := name, standalone := standalone } claimed
      (some (dir.resolve name)) { claimed := claimed } :=
    ⟨fun _ hp => absurd hp List.not_mem_nil, fun _ hp => absurd hp List.not_mem_nil,
      fun _ hp => absurd hp List.not_mem_nil, fun _ hp => absurd hp List.not_mem_nil,
      fun _ _ hn => .inl hn, hunclaimed, fun _ he => absurd he List.not_mem_nil,
      fun _ hl => absurd hl List.not_mem_nil, fun _ hkey => absurd hkey List.not_mem_nil⟩
  refine ⟨s, ?_, (readFile_does hroot _).handled hroot hs hstart (.inl rfl) .root⟩
  unfold parseRequirements
  rw [if_neg hne]
  exact hs

end Walk

/-! ## The files of a directory -/

section Directories

variable {P : Type} [DecidableEq P] (dir : Directory P)

/-- What the audited files reach. -/
def Reached (p : P) : Prop := ∃ name ∈ auditedNames dir, ReachedFrom dir (dir.resolve name) p

/-- The paths of the audited files. -/
def audited : List P := (auditedNames dir).map dir.resolve

/-- What was read from one audited file. -/
structure Produced (claimed : Dict P String) (f : Found P) (s : Reading P) : Prop where
  reads : ∃ before, Reads dir { name := f.path, standalone := audited dir } before none s
  done : ∀ p ∈ s.filesRead, Done dir { name := f.path, standalone := audited dir } s p
  root : dir.resolve f.path ∈ s.filesRead ∨ dir.text (dir.resolve f.path) = none
  claimed : ∀ p n, s.claimed.get? p = some n → claimed.get? p = some n
  filesRead : f.filesRead = s.filesRead
  packages : f.packages = s.out
  unpinned : f.unpinned = s.unpinned

/-- An audited file, with what was read from it. -/
def IsSource (claimed : Dict P String) (f : Found P) : Prop :=
  f.path ∈ auditedNames dir ∧ ∃ s, Produced dir claimed f s

/-- After some of the entries: a file that is claimed was read under the file that claims it. -/
structure Sources (acc : List (Found P) × Dict P String) : Prop where
  unclaimed : ∀ p ∈ audited dir, acc.2.get? p = none
  sources : ∀ f ∈ acc.1, IsSource dir acc.2 f ∨ (f.path ∉ auditedNames dir ∧ f.filesRead = [])
  claims : ∀ p n, acc.2.get? p = some n →
    ∃ f ∈ acc.1, IsSource dir acc.2 f ∧ f.path = n ∧ (p ∈ f.filesRead ∨ dir.text p = none)

variable {dir} {claimed claimed' : Dict P String} {f : Found P}

theorem IsSource.grows (h : IsSource dir claimed f)
    (hclaimed : ∀ p n, claimed.get? p = some n → claimed'.get? p = some n) :
    IsSource dir claimed' f := by
  obtain ⟨haudited, s, hs⟩ := h
  exact ⟨haudited, s, hs.reads, hs.done, hs.root, fun p n hn => hclaimed p n (hs.claimed p n hn),
    hs.filesRead, hs.packages, hs.unpinned⟩

omit [DecidableEq P] in
theorem mem_audited {name : String} (h : name ∈ auditedNames dir) :
    dir.resolve name ∈ audited dir := List.mem_map_of_mem h

omit [DecidableEq P] in
/-- The parser goes by the name. -/
theorem not_mem_auditedNames {entry : String × String × Parser} (h : entry ∈ entries dir)
    (hparser : entry.2.2 = .lockfile) : entry.1 ∉ auditedNames dir := by
  have hfixed (e : String × String × Parser) (he : e ∈ entries dir)
      (hmem : e.1 ∈ lockfiles.map Prod.fst) : e ∈ lockfiles := by
    obtain he | he := List.mem_append.mp he
    · exact he
    · obtain ⟨name, hname, rfl⟩ := List.mem_map.mp he
      have hextra := (List.mem_filter.mp ((List.mem_insertionSort _).mp hname)).2
      rw [Bool.and_eq_true, decide_eq_true_eq] at hextra
      exact absurd hmem hextra.2
  have hentry : entry ∈ lockfiles := by
    obtain he | he := List.mem_append.mp h
    · exact he
    · obtain ⟨name, -, rfl⟩ := List.mem_map.mp he
      cases hparser
  intro hmem
  obtain ⟨other, hother, hname⟩ := List.mem_map.mp hmem
  obtain ⟨hother, hrequirements⟩ := List.mem_filter.mp hother
  have hrequirements := (of_decide_eq_true hrequirements).1
  have hfixed' : other ∈ lockfiles :=
    hfixed other hother (hname ▸ List.mem_map_of_mem hentry)
  have hdistinct : lockfiles.all (fun e => lockfiles.all fun e' =>
      e.1 != e'.1 || e.2.2 == e'.2.2) = true := by decide
  have heq := List.all_eq_true.mp (List.all_eq_true.mp hdistinct entry hentry) other hfixed'
  rw [hname, hparser, hrequirements] at heq
  simp at heq

variable {acc : List (Found P) × Dict P String}

/-- An entry that is not there changes nothing; a lockfile claims nothing; a requirements file is
read with the claims there are. -/
theorem discoverEntry_sources (lockPackages : String → List LockedPackage) (h : Sources dir acc)
    {entry : String × String × Parser} (hentry : entry ∈ entries dir) :
    ∃ acc', discoverEntry dir lockPackages (audited dir) acc entry = some acc' ∧
      Sources dir acc' ∧ acc.1 ⊆ acc'.1 ∧
      (entry.1 ∈ auditedNames dir → ∃ f ∈ acc'.1, f.path = entry.1) := by
  unfold discoverEntry
  by_cases hthere : entry.1 ∉ dir.names
  · rw [if_pos hthere]
    refine ⟨acc, rfl, h, List.Subset.refl _, fun hmem => ?_⟩
    obtain ⟨other, hother, hname⟩ := List.mem_map.mp hmem
    have hmem := (of_decide_eq_true (List.mem_filter.mp hother).2).2
    rw [hname] at hmem
    exact absurd hmem hthere
  rw [if_neg hthere]
  cases hparser : entry.2.2 with
  | lockfile =>
    have hnot := not_mem_auditedNames hentry hparser
    refine ⟨_, rfl, ⟨h.unclaimed, fun f hf => ?_, fun p n hn => ?_⟩, List.subset_append_left _ _,
      fun hmem => absurd hmem hnot⟩
    · obtain hf | hf := List.mem_append.mp hf
      · exact h.sources f hf
      · obtain rfl := List.mem_singleton.mp hf
        exact .inr ⟨hnot, rfl⟩
    · obtain ⟨f, hf, hclaim⟩ := h.claims p n hn
      exact ⟨f, List.mem_append_left _ hf, hclaim⟩
  | requirements =>
    have hmem : entry.1 ∈ auditedNames dir := by
      refine List.mem_map.mpr ⟨entry, List.mem_filter.mpr ⟨hentry, ?_⟩, rfl⟩
      exact decide_eq_true ⟨hparser, not_not.mp hthere⟩
    obtain ⟨s, hs, hdoes, hroot⟩ :=
      parseRequirements_does acc.2 (mem_audited hmem) h.unclaimed
    dsimp only
    rw [hs]
    have hkeeps : ∀ p n, acc.2.get? p = some n → s.claimed.get? p = some n := hdoes.grows.claimed
    have hsource : IsSource dir s.claimed
        { path := entry.1, ecosystem := entry.2.1, packages := s.out, unpinned := s.unpinned,
          notes := s.notes, filesRead := s.filesRead } :=
      ⟨hmem, s, ⟨acc.2, hdoes.reads⟩, fun p hp => hdoes.done p hp List.not_mem_nil, hroot,
        fun _ _ hn => hn, rfl, rfl, rfl⟩
    refine ⟨_, rfl, ⟨hdoes.reads.unclaimed, fun f hf => ?_, fun p n hn => ?_⟩,
      List.subset_append_left _ _,
      fun _ => ⟨_, List.mem_append_right _ (List.mem_singleton_self _), rfl⟩⟩
    · obtain hf | hf := List.mem_append.mp hf
      · exact (h.sources f hf).imp_left fun hf => hf.grows hkeeps
      · obtain rfl := List.mem_singleton.mp hf
        exact .inl hsource
    · obtain hbefore | ⟨rfl, hvisited | hpending⟩ := hdoes.reads.claims p n hn
      · obtain ⟨f, hf, hsource, hclaim⟩ := h.claims p n hbefore
        exact ⟨f, List.mem_append_left _ hf, hsource.grows hkeeps, hclaim⟩
      · refine ⟨_, List.mem_append_right _ (List.mem_singleton_self _), hsource, rfl, ?_⟩
        obtain hread | hnone | hleft := hdoes.reads.visited p hvisited
        · exact .inl hread
        · exact .inr hnone
        · obtain ⟨hstandalone, -⟩ | ⟨other, hother, hne⟩ := hleft
          · rw [hdoes.reads.unclaimed p hstandalone] at hn
            cases hn
          · rw [hn] at hother
            exact absurd (Option.some.inj hother).symm hne
      · cases hpending

theorem foldlM_discoverEntry (lockPackages : String → List LockedPackage) (h : Sources dir acc)
    {items : List (String × String × Parser)}
    (hitems : items ⊆ entries dir) :
    ∃ acc', items.foldlM (discoverEntry dir lockPackages (audited dir)) acc = some acc' ∧
      Sources dir acc' ∧ acc.1 ⊆ acc'.1 ∧
      ∀ entry ∈ items, entry.1 ∈ auditedNames dir → ∃ f ∈ acc'.1, f.path = entry.1 := by
  induction items generalizing acc with
  | nil => exact ⟨acc, rfl, h, List.Subset.refl _, fun _ he => absurd he List.not_mem_nil⟩
  | cons entry items ih =>
    obtain ⟨acc₁, hacc₁, hsources₁, hsub₁, hfound₁⟩ :=
      discoverEntry_sources lockPackages h (hitems List.mem_cons_self)
    obtain ⟨acc₂, hacc₂, hsources₂, hsub₂, hfound₂⟩ :=
      ih hsources₁ fun e he => hitems (List.mem_cons_of_mem _ he)
    refine ⟨acc₂, ?_, hsources₂, List.Subset.trans hsub₁ hsub₂, fun e he hmem => ?_⟩
    · rw [List.foldlM_cons, hacc₁]
      exact hacc₂
    · obtain rfl | he := List.mem_cons.mp he
      · obtain ⟨f, hf, hpath⟩ := hfound₁ hmem
        exact ⟨f, hsub₂ hf, hpath⟩
      · exact hfound₂ e he hmem

/-- `discover` returns, with a source for every audited name. -/
theorem discover_sources (dir : Directory P) (lockPackages : String → List LockedPackage) :
    ∃ acc : List (Found P) × Dict P String, discover dir lockPackages = some acc.1 ∧
      Sources dir acc ∧ ∀ name ∈ auditedNames dir, ∃ f ∈ acc.1, f.path = name := by
  have hstart : Sources dir (([], []) : List (Found P) × Dict P String) :=
    ⟨fun _ _ => rfl, fun _ hf => absurd hf List.not_mem_nil, fun _ _ hn => by cases hn⟩
  obtain ⟨acc, hacc, hsources, -, hfound⟩ :=
    foldlM_discoverEntry lockPackages hstart (List.Subset.refl (entries dir))
  refine ⟨acc, ?_, hsources, fun name hname => ?_⟩
  · have hrun := congrArg (Option.map Prod.fst) hacc
    exact hrun
  · obtain ⟨entry, hentry, rfl⟩ := List.mem_map.mp hname
    exact hfound entry (List.mem_filter.mp hentry).1 hname

/-- A source reads its own file, where it can be read. -/
theorem Sources.root (h : Sources dir acc)
    (hfound : ∀ name ∈ auditedNames dir, ∃ f ∈ acc.1, f.path = name) {name : String}
    (hname : name ∈ auditedNames dir) :
    ∃ f ∈ acc.1, IsSource dir acc.2 f ∧ f.path = name ∧
      (dir.resolve name ∈ f.filesRead ∨ dir.text (dir.resolve name) = none) := by
  obtain ⟨f, hf, rfl⟩ := hfound name hname
  obtain hsource | ⟨hnot, -⟩ := h.sources f hf
  · obtain ⟨-, s, hs⟩ := hsource
    exact ⟨f, hf, ⟨hname, s, hs⟩, rfl, hs.filesRead ▸ hs.root⟩
  · exact absurd hname hnot

/-- Every file that is reached and can be read is read under an audited file. -/
theorem Sources.covers (h : Sources dir acc)
    (hfound : ∀ name ∈ auditedNames dir, ∃ f ∈ acc.1, f.path = name) {p : P}
    (hreached : Reached dir p) :
    (∃ f ∈ acc.1, IsSource dir acc.2 f ∧ p ∈ f.filesRead) ∨ dir.text p = none := by
  obtain ⟨name, hname, hreached⟩ := hreached
  induction hreached with
  | root =>
    obtain ⟨f, hf, hsource, -, hread | hnone⟩ := h.root hfound hname
    · exact .inl ⟨f, hf, hsource, hread⟩
    · exact .inr hnone
  | @file p text file _ htext hline hinside ih =>
    obtain ⟨f, hf, ⟨haudited, s, hs⟩, hp⟩ | hnone := ih
    · rw [hs.filesRead] at hp
      obtain hout | hread | hnone | hleft := hs.done p hp (.file file) ⟨text, htext, hline⟩
      · rw [hinside] at hout
        cases hout
      · exact .inl ⟨f, hf, ⟨haudited, s, hs⟩, hs.filesRead ▸ hread⟩
      · exact .inr hnone
      · obtain ⟨hstandalone, -⟩ | ⟨other, hother, -⟩ := hleft
        · obtain ⟨own, hown, heq⟩ := List.mem_map.mp hstandalone
          obtain ⟨f', hf', hsource', -, hread | hnone⟩ := h.root hfound hown
          · exact .inl ⟨f', hf', hsource', heq ▸ hread⟩
          · exact .inr (heq ▸ hnone)
        · obtain ⟨f', hf', hsource', -, hread | hnone⟩ :=
            h.claims _ other (hs.claimed _ other hother)
          · exact .inl ⟨f', hf', hsource', hread⟩
          · exact .inr hnone
    · rw [htext] at hnone
      cases hnone

/-- A pin of a reached file is a package of an audited file. -/
theorem Sources.pin (h : Sources dir acc)
    (hfound : ∀ name ∈ auditedNames dir, ∃ f ∈ acc.1, f.path = name) {p : P}
    (hreached : Reached dir p) {name version : List Char}
    (hline : LineIn dir p (.pin name version)) :
    ∃ f ∈ acc.1, f.path ∈ auditedNames dir ∧ ∃ e ∈ f.packages,
      lowerName e.name.toList = lowerName name ∧ e.version = String.ofList version := by
  obtain ⟨f, hf, ⟨haudited, s, hs⟩, hp⟩ | hnone := h.covers hfound hreached
  · rw [hs.filesRead] at hp
    obtain ⟨before, hreads⟩ := hs.reads
    obtain ⟨e, he, hkey⟩ := hreads.seen _ (hs.done p hp _ hline)
    obtain ⟨hname, hversion⟩ := Prod.mk.inj hkey
    exact ⟨f, hf, haudited, e, hs.packages ▸ he, hname.symm, hversion.symm⟩
  · obtain ⟨text, htext, -⟩ := hline
    rw [htext] at hnone
    cases hnone

/-- A requirement without a pin is recorded as unpinned. -/
theorem Sources.named (h : Sources dir acc)
    (hfound : ∀ name ∈ auditedNames dir, ∃ f ∈ acc.1, f.path = name) {p : P}
    (hreached : Reached dir p) {line : List Char} (hline : LineIn dir p (.named line)) :
    ∃ f ∈ acc.1, f.path ∈ auditedNames dir ∧ String.ofList line ∈ f.unpinned := by
  obtain ⟨f, hf, ⟨haudited, s, hs⟩, hp⟩ | hnone := h.covers hfound hreached
  · rw [hs.filesRead] at hp
    have hmem : String.ofList line ∈ s.unpinned := hs.done p hp _ hline
    exact ⟨f, hf, haudited, hs.unpinned ▸ hmem⟩
  · obtain ⟨text, htext, -⟩ := hline
    rw [htext] at hnone
    cases hnone

/-- What is gathered under an audited file stands on a line of a reached file. -/
theorem Sources.gathered (h : Sources dir acc) (hf : f ∈ acc.1)
    (haudited : f.path ∈ auditedNames dir) :
    (∀ e ∈ f.packages, ∃ p, Reached dir p ∧ ∃ name version, LineIn dir p (.pin name version) ∧
      e = { name := String.ofList name, version := String.ofList version }) ∧
    ∀ l ∈ f.unpinned, ∃ p, Reached dir p ∧ ∃ line, LineIn dir p (.named line) ∧
      l = String.ofList line := by
  obtain ⟨-, s, hs⟩ | ⟨hnot, -⟩ := h.sources f hf
  · obtain ⟨before, hreads⟩ := hs.reads
    refine ⟨fun e he => ?_, fun l hl => ?_⟩
    · obtain ⟨p, hp, hentry⟩ := hreads.out e (hs.packages ▸ he)
      exact ⟨p, ⟨f.path, haudited, hreads.reached p hp⟩, hentry⟩
    · obtain ⟨p, hp, hentry⟩ := hreads.unpinned l (hs.unpinned ▸ hl)
      exact ⟨p, ⟨f.path, haudited, hreads.reached p hp⟩, hentry⟩
  · exact absurd haudited hnot

/-- Two sources that read one file are one file, or are both that file. -/
theorem Sources.same (h : Sources dir acc) {f' : Found P} (hf : f ∈ acc.1) (hf' : f' ∈ acc.1)
    {p : P} (hp : p ∈ f.filesRead) (hp' : p ∈ f'.filesRead) :
    f.path = f'.path ∨ (f.path ∈ auditedNames dir ∧ f'.path ∈ auditedNames dir ∧
      dir.resolve f.path = p ∧ dir.resolve f'.path = p) := by
  obtain ⟨haudited, s, hs⟩ | ⟨-, hnil⟩ := h.sources f hf
  · obtain ⟨haudited', s', hs'⟩ | ⟨-, hnil'⟩ := h.sources f' hf'
    · obtain ⟨before, hreads⟩ := hs.reads
      obtain ⟨before', hreads'⟩ := hs'.reads
      obtain hroot | ⟨hnot, hclaimed⟩ := hreads.mine p (hs.filesRead ▸ hp)
      · obtain hroot' | ⟨hnot', -⟩ := hreads'.mine p (hs'.filesRead ▸ hp')
        · exact .inr ⟨haudited, haudited', hroot.symm, hroot'.symm⟩
        · exact absurd (hroot ▸ mem_audited haudited) hnot'
      · obtain hroot' | ⟨-, hclaimed'⟩ := hreads'.mine p (hs'.filesRead ▸ hp')
        · exact absurd (hroot' ▸ mem_audited haudited') hnot
        · have hthis := hs.claimed p _ hclaimed
          rw [hs'.claimed p _ hclaimed'] at hthis
          exact .inl (Option.some.inj hthis).symm
    · rw [hnil'] at hp'
      cases hp'
  · rw [hnil] at hp
    cases hp

/-! ## Every requirement is recorded once -/

variable (dir)

/-- A requirement on a line of a file. -/
def RequirementIn (p : P) (r : Requirement) : Prop :=
  ∃ text, dir.text p = some text ∧ ∃ raw ∈ splitLines text.toList, cleanLine raw = r.text

/-- A file with something to count. -/
def HasEntries (p : P) : Prop :=
  (∃ name version, LineIn dir p (.pin name version)) ∨ ∃ line, LineIn dir p (.named line)

/-- A requirement that is returned as a pinned entry or recorded as unpinned, under an audited
file. -/
def Recorded (found : List (Found P)) (r : Requirement) : Prop :=
  ∃ f ∈ found, f.path ∈ auditedNames dir ∧
    (String.ofList r.text ∈ f.unpinned ∨
      ∃ version, r.pinned? = some version ∧ ∃ e ∈ f.packages,
        lowerName e.name.toList = lowerName r.name.chars ∧ e.version = String.ofList version)

/-- Every requirement of a reached file is recorded, and no file with entries is counted under two
audited files. -/
def LosesNothing (lockPackages : String → List LockedPackage) : Prop :=
  ∃ found, discover dir lockPackages = some found ∧
    (∀ p r, Reached dir p → RequirementIn dir p r → Recorded dir found r) ∧
    ∀ f ∈ found, ∀ f' ∈ found, ∀ p, p ∈ f.filesRead → p ∈ f'.filesRead → HasEntries dir p →
      f.path = f'.path

/-- A requirement that the line parser has a place for: nothing in parentheses, no marker right
after a bare name, no `://`; or a pin that another line makes too. -/
def Recordable (r : Requirement) : Prop :=
  (r.plain = true ∧ hasUrl r.text = false) ∨
    ∃ version, r.pinned? = some version ∧ ∃ p, Reached dir p ∧
      ∃ name, LineIn dir p (.pin name version) ∧ lowerName name = lowerName r.name.chars

/-- No two audited names are the same file, where that file has entries. -/
def Distinct : Prop :=
  ∀ name ∈ auditedNames dir, ∀ other ∈ auditedNames dir,
    dir.resolve name = dir.resolve other → HasEntries dir (dir.resolve name) → name = other

variable {dir}

omit [DecidableEq P] in
theorem RequirementIn.line {p : P} {r : Requirement} (h : RequirementIn dir p r) :
    LineIn dir p (if hasUrl r.text then .option
      else if r.plain then
        match r.specifiers, r.pinned? with
        | .bare _, some version => .pin r.name.chars version
        | _, _ => .named r.text
      else .other) := by
  obtain ⟨text, htext, raw, hraw, hclean⟩ := h
  exact ⟨text, htext, List.mem_map.mpr ⟨raw, hraw, r.readLine_requirement hclean⟩⟩

/-- A line that is recorded as unpinned is a plain requirement, where it is a requirement. -/
theorem plain_of_readLine {raw : List Char} {r : Requirement}
    (h : readLine raw = .named r.text) : r.plain = true ∧ hasUrl r.text = false := by
  have hclean : cleanLine raw = r.text := by
    unfold readLine at h
    dsimp only at h
    split at h
    · cases h
    split at h
    · cases h
    split at h
    · cases h
    split at h
    · cases h
    split at h
    · exact Line.named.inj h
    · cases h
  rw [r.readLine_requirement hclean] at h
  split at h
  · cases h
  next hurl =>
  split at h
  · next hplain => exact ⟨hplain, Bool.eq_false_iff.mpr hurl⟩
  · cases h

theorem Sources.recorded_iff (h : Sources dir acc)
    (hfound : ∀ name ∈ auditedNames dir, ∃ f ∈ acc.1, f.path = name) {p : P} {r : Requirement}
    (hreached : Reached dir p) (hin : RequirementIn dir p r) :
    Recorded dir acc.1 r ↔ Recordable dir r := by
  constructor
  · rintro ⟨f, hf, haudited, hunpinned | ⟨version, hversion, e, he, hname, heq⟩⟩
    · obtain ⟨-, -, line, ⟨text, -, hline⟩, hl⟩ :=
        (h.gathered hf haudited).2 _ hunpinned
      obtain ⟨raw, -, hraw⟩ := List.mem_map.mp hline
      rw [← String.ofList_injective hl] at hraw
      exact .inl (plain_of_readLine hraw)
    · obtain ⟨q, hq, name, version', hline, rfl⟩ := (h.gathered hf haudited).1 e he
      rw [String.toList_ofList] at hname
      obtain rfl := String.ofList_injective heq
      exact .inr ⟨_, hversion, q, hq, name, hline, hname⟩
  · rintro (⟨hplain, hurl⟩ | ⟨version, hversion, q, hq, name, hline, hname⟩)
    · have hline := hin.line
      rw [if_neg (by rw [hurl]; exact Bool.false_ne_true), if_pos hplain] at hline
      split at hline
      · next version _ hversion =>
        obtain ⟨f, hf, haudited, e, he, hname, heq⟩ := h.pin hfound hreached hline
        exact ⟨f, hf, haudited, .inr ⟨version, hversion, e, he, hname, heq⟩⟩
      · obtain ⟨f, hf, haudited, hunpinned⟩ := h.named hfound hreached hline
        exact ⟨f, hf, haudited, .inl hunpinned⟩
    · obtain ⟨f, hf, haudited, e, he, hname', heq⟩ := h.pin hfound hq hline
      exact ⟨f, hf, haudited, .inr ⟨version, hversion, e, he, hname'.trans hname, heq⟩⟩

omit [DecidableEq P] in
theorem HasEntries.readable {p : P} (h : HasEntries dir p) : dir.text p ≠ none := by
  intro hnone
  obtain ⟨name, version, text, htext, -⟩ | ⟨line, text, htext, -⟩ := h
  · rw [hnone] at htext
    cases htext
  · rw [hnone] at htext
    cases htext

/-- Discovery always returns. It loses nothing exactly where every requirement has a place in the
line parser and no audited name stands for the file of another. -/
theorem discover_loses_nothing_iff (dir : Directory P)
    (lockPackages : String → List LockedPackage) :
    LosesNothing dir lockPackages ↔
      (∀ p r, Reached dir p → RequirementIn dir p r → Recordable dir r) ∧ Distinct dir := by
  obtain ⟨acc, hacc, hsources, hfound⟩ := discover_sources dir lockPackages
  constructor
  · rintro ⟨found, hdiscover, hrecorded, hcounted⟩
    rw [hacc] at hdiscover
    obtain rfl := Option.some.inj hdiscover
    refine ⟨fun p r hreached hin =>
      (hsources.recorded_iff hfound hreached hin).mp (hrecorded p r hreached hin), ?_⟩
    intro name hname other hother heq hentries
    obtain ⟨f, hf, -, rfl, hread | hnone⟩ := hsources.root hfound hname
    · obtain ⟨f', hf', -, rfl, hread' | hnone'⟩ := hsources.root hfound hother
      · exact hcounted f hf f' hf' _ hread (heq ▸ hread') hentries
      · exact absurd (heq ▸ hnone') hentries.readable
    · exact absurd hnone hentries.readable
  · rintro ⟨hrecordable, hdistinct⟩
    refine ⟨acc.1, hacc, fun p r hreached hin =>
      (hsources.recorded_iff hfound hreached hin).mpr (hrecordable p r hreached hin), ?_⟩
    intro f hf f' hf' p hp hp' hentries
    obtain hsame | ⟨haudited, haudited', hroot, hroot'⟩ := hsources.same hf hf' hp hp'
    · exact hsame
    · exact hdistinct _ haudited _ haudited' (hroot.trans hroot'.symm) (hroot ▸ hentries)

end Directories

/-! ## Parentheses -/

/-- A directory with one requirements file. -/
def oneFile : Directory String where
  names := ["requirements.txt"]
  nodup := List.nodup_singleton _
  resolve := id
  inside := fun _ => true
  fileName := id
  text := fun p => if p = "requirements.txt" then some "flask==3.0.0\nrequests (>=2.0)\n" else none
  files := ["requirements.txt"]
  mem_files := fun p t h => by
    by_cases hp : p = "requirements.txt"
    · exact hp ▸ List.mem_singleton_self _
    · rw [if_neg hp] at h
      cases h

/-- `requests (>=2.0)`. -/
def parenthesised : Requirement where
  name :=
    { chars := "requests".toList
      inName := List.all_eq_true.mp (by decide)
      first := ⟨'r', "equests".toList, by decide, rfl⟩
      last := fun c hc => by
        obtain rfl : 's' = c := Option.some.inj hc
        rfl }
  beforeExtras := ⟨[' '], List.all_eq_true.mp (by decide)⟩
  extras := none
  afterExtras := ⟨[], List.all_eq_true.mp (by decide)⟩
  specifiers :=
    .parenthesised ⟨[], List.all_eq_true.mp (by decide)⟩ ⟨[], List.all_eq_true.mp (by decide)⟩
      { first :=
          { op := .ge
            gap := ⟨[], List.all_eq_true.mp (by decide)⟩
            version := "2.0".toList
            version_ne := by decide
            inVersion := List.all_eq_true.mp (by decide) }
        rest := [] }
  beforeTail := ⟨[], List.all_eq_true.mp (by decide)⟩
  tail := .none

/-- The pin is returned and the other line is nowhere. -/
theorem parenthesised_dropped : ¬ LosesNothing oneFile (fun _ => []) := by
  rintro ⟨found, hfound, hrecorded, -⟩
  have hrun : (discover oneFile fun _ => []).map (·.map fun f => (f.packages.length, f.unpinned)) =
      some [(1, [])] := by decide +kernel
  have hin : RequirementIn oneFile "requirements.txt" parenthesised :=
    ⟨_, rfl, "requests (>=2.0)".toList, by decide +kernel, by decide +kernel⟩
  have hreached : Reached oneFile "requirements.txt" :=
    ⟨"requirements.txt", by decide +kernel, .root⟩
  obtain ⟨f, hf, -, hunpinned | ⟨version, hversion, -⟩⟩ :=
    hrecorded "requirements.txt" parenthesised hreached hin
  · rw [hfound] at hrun
    have hmem : (f.packages.length, f.unpinned) ∈ [(1, ([] : List String))] :=
      Option.some.inj hrun ▸ List.mem_map_of_mem hf
    rw [(Prod.mk.inj (List.mem_singleton.mp hmem)).2] at hunpinned
    cases hunpinned
  · cases hversion

end Minireg.Cli
