import Rustrak.GitHub.StatusMirror

/-!
# Opening a GitHub issue

`auto_create` of `services/github/sync.rs` opens a GitHub issue for a new issue, in up to three
attempts.  A claim in memory keeps a second run out while one is under way, a link's row keeps
out every later one, and the marker in its body is what a run finds an issue by that it has
opened without hearing of it.

The marker is new to each run, so a run that ends between the opening and the link's row leaves
an issue that no other run knows of.  Otherwise whatever is open is linked, or is the claiming
run's own (`Own`), and a run that is about to open one has looked (`Single`).
-/

namespace Rustrak.GitHub

open Rustrak.Transition

/-- A GitHub issue that `auto_create` has opened. -/
structure OpenedIssue where
  remote : Remote
  /-- Hidden in its body. -/
  marker : Nat
  openedAt : Int
  deriving DecidableEq, Repr

/-- How a request or a write ends; it may have taken effect without an answer. -/
inductive Answer
  | ok
  | failed
  | lost
  deriving DecidableEq, Repr

/-- What an attempt of a run does next. -/
inductive CreateStage
  /-- Reads the links; `known` is an issue that GitHub has returned. -/
  | checking (attempt : Nat) (known : Option Remote)
  /-- Asks for the issues since its start. -/
  | listing (attempt : Nat)
  | creating (attempt : Nat)
  /-- Saves the link. -/
  | saving (attempt : Nat) (remote : Remote)
  /-- Has saved the link, and mirrors the status onto it. -/
  | mirroring
  | ended
  deriving DecidableEq, Repr

/-- The next attempt, after a wait, if there is one. -/
def retry (attempt : Nat) (known : Option Remote) : CreateStage :=
  if attempt < 2 then .checking (attempt + 1) known else .ended

structure CreateRun where
  repo : String
  started : Int
  marker : Nat
  stage : CreateStage
  deriving DecidableEq, Repr

/-- What there is for one issue. -/
structure Creation where
  /-- The time in seconds. -/
  now : Int
  github : List OpenedIssue
  links : List Remote
  /-- The issue is in `OPENING`. -/
  claimed : Bool
  /-- The markers below are used. -/
  nextMarker : Nat
  runs : List CreateRun
  deriving DecidableEq, Repr

def Creation.fresh (now : Int) : Creation := ⟨now, [], [], false, 0, []⟩

/-- The listing of a repository since a time, searched for a marker. -/
def CreateRun.finds (run : CreateRun) (issue : OpenedIssue) : Bool :=
  issue.remote.repoFullName = run.repo ∧ run.started ≤ issue.openedAt ∧ issue.marker = run.marker

/-- GitHub opens an issue under some number. -/
def Creation.opened (c : Creation) (run : CreateRun) (number : Int) : Creation :=
  { c with github := c.github ++ [⟨⟨run.repo, number⟩, run.marker, c.now⟩] }

/-- `add_link`; a link that exists is a conflict. -/
def Creation.addLink (c : Creation) (remote : Remote) : Option Creation :=
  if remote ∈ c.links then none else some { c with links := c.links ++ [remote] }

/-- Another stage of a run; the claim ends with the run. -/
def Creation.goOn (c : Creation) (i : Nat) (run : CreateRun) (next : CreateStage) : Creation :=
  { c with
    claimed := if next = .ended then false else c.claimed
    runs := c.runs.set i { run with stage := next } }

/-- The next step of a run, and the stage it comes to; `answer` is how it ends. -/
def Creation.advance (c : Creation) (run : CreateRun) (answer : Answer) (number : Int) :
    Creation × CreateStage :=
  match run.stage, answer with
  | .checking attempt known, .ok =>
      if c.links ≠ [] then (c, .ended)
      else match known with
        | some remote => (c, .saving attempt remote)
        | none => (c, if attempt > 0 then .listing attempt else .creating attempt)
  -- The links are read outside of the attempt.
  | .checking _ _, _ => (c, .ended)
  | .listing attempt, .ok =>
      match c.github.find? run.finds with
      | some issue => (c, .saving attempt issue.remote)
      | none => (c, .creating attempt)
  | .listing attempt, _ => (c, retry attempt none)
  | .creating attempt, .ok => (c.opened run number, .saving attempt ⟨run.repo, number⟩)
  | .creating attempt, .lost => (c.opened run number, retry attempt none)
  | .creating attempt, .failed => (c, retry attempt none)
  | .saving attempt remote, .ok =>
      match c.addLink remote with
      | some linked => (linked, .mirroring)
      | none => (c, retry attempt (some remote))
  | .saving attempt remote, .lost =>
      ((c.addLink remote).getD c, retry attempt (some remote))
  | .saving attempt remote, .failed => (c, retry attempt (some remote))
  | .mirroring, _ | .ended, _ => (c, .ended)

inductive CreateLabel
  /-- A digest begins a run whose event passes the project's filters. -/
  | begin (repo : String)
  | advance (run : Nat) (answer : Answer) (number : Int)
  /-- The process ends and another begins. -/
  | restart
  | wait (seconds : Nat)
  deriving DecidableEq, Repr

def createStep (c : Creation) : CreateLabel → Option Creation
  | .begin repo =>
      if c.claimed then some c
      else some { c with
        claimed := true
        nextMarker := c.nextMarker + 1
        runs := c.runs ++ [⟨repo, c.now - 60, c.nextMarker, .checking 0 none⟩] }
  | .advance i answer number =>
      match c.runs[i]? with
      | none => none
      | some run =>
          if run.stage = .ended then none
          else
            let (after, next) := c.advance run answer number
            some (after.goOn i run next)
  | .restart => some { c with
      claimed := false
      runs := c.runs.map fun run => { run with stage := .ended } }
  | .wait seconds => some { c with now := c.now + seconds }

/-- `createStep` as a relation. -/
def CreateSteps (c : Creation) (label : CreateLabel) (c' : Creation) : Prop :=
  createStep c label = some c'

/-- A GitHub issue is open, and no link is saved. -/
def Creation.Unsaved (c : Creation) : Prop := c.github ≠ [] ∧ c.links = []

instance (c : Creation) : Decidable c.Unsaved := inferInstanceAs (Decidable (_ ∧ _))

/-- The run does not end so, unless what is open is linked. -/
def LosesNone (c : Creation) : CreateStage → Answer → Prop
  | .checking _ _, .failed | .checking _ _, .lost => ¬c.Unsaved
  | .listing attempt, .failed | .listing attempt, .lost | .saving attempt _, .failed =>
      attempt < 2 ∨ ¬c.Unsaved
  | .creating attempt, .lost => attempt < 2
  | _, _ => True

/-- No run ends, and no process, between the opening of a GitHub issue and its link. -/
def SavesLinks (c : Creation) : CreateLabel → Prop
  | .advance i answer _ => ∀ run ∈ c.runs[i]?, LosesNone c run.stage answer
  | .restart => ¬c.Unsaved
  | .begin _ | .wait _ => True

def SavingSteps (c : Creation) (label : CreateLabel) (c' : Creation) : Prop :=
  CreateSteps c label c' ∧ SavesLinks c label

/-- Whatever is open, the run would find. -/
def Own (c : Creation) (run : CreateRun) : Prop := ∀ issue ∈ c.github, run.finds issue

/-- What a run at a stage relies on. -/
def CreateOk (c : Creation) (run : CreateRun) : CreateStage → Prop
  | .checking attempt _ => c.links ≠ [] ∨ Own c run ∧ (attempt = 0 → c.github = [])
  | .listing _ | .saving _ _ => Own c run
  | .creating _ => c.github = []
  | .mirroring => c.links ≠ []
  | .ended => True

structure Single (c : Creation) : Prop where
  one : c.github.length ≤ 1
  started : ∀ run ∈ c.runs, run.started ≤ c.now
  claimed : ∀ run ∈ c.runs, run.stage ≠ .ended → c.claimed = true
  only : ∀ (i j : Nat) (run other : CreateRun), c.runs[i]? = some run → c.runs[j]? = some other →
    run.stage ≠ .ended → other.stage ≠ .ended → i = j
  ok : ∀ run ∈ c.runs, CreateOk c run run.stage
  saved : (∀ run ∈ c.runs, run.stage = .ended) → ¬c.Unsaved

variable {c c' after : Creation} {run other : CreateRun} {i j : Nat} {label : CreateLabel}
  {labels : List CreateLabel}

/-! ## The run under way -/

theorem Single.fresh (now : Int) : Single (.fresh now) where
  one := Nat.zero_le 1
  started := by simp [Creation.fresh]
  claimed := by simp [Creation.fresh]
  only := by simp [Creation.fresh]
  ok := by simp [Creation.fresh]
  saved := by simp [Creation.fresh, Creation.Unsaved]

/-- While a run is under way the others have ended. -/
theorem Single.ended (h : Single c) (hi : c.runs[i]? = some run) (hrun : run.stage ≠ .ended)
    (hj : c.runs[j]? = some other) (hne : j ≠ i) : other.stage = .ended := by
  by_contra hother
  exact hne (h.only j i other run hj hi hother hrun)

/-- The run under way goes on. -/
theorem Single.goOn (h : Single c) (hi : c.runs[i]? = some run) (hrun : run.stage ≠ .ended)
    {github : List OpenedIssue} {links : List Remote} {next : CreateStage}
    (hone : github.length ≤ 1) (hok : CreateOk { c with github, links } run next)
    (hsaved : next = .ended → ¬Creation.Unsaved { c with github, links }) :
    Single (Creation.goOn { c with github, links } i run next) where
  one := hone
  started := by
    intro other hother
    rcases eq_or_exists_of_mem_set hother with rfl | ⟨j, _, hj⟩
    · exact h.started run (List.mem_of_getElem? hi)
    · exact h.started other (List.mem_of_getElem? hj)
  claimed := by
    intro other hother hactive
    rcases eq_or_exists_of_mem_set hother with rfl | ⟨j, hne, hj⟩
    · show (if next = .ended then false else c.claimed) = true
      rw [if_neg hactive]
      exact h.claimed run (List.mem_of_getElem? hi) hrun
    · exact absurd (h.ended hi hrun hj hne) hactive
  only := by
    have hplace : ∀ (j : Nat) (other : CreateRun),
        (c.runs.set i { run with stage := next })[j]? = some other → other.stage ≠ .ended →
        j = i := by
      intro j other hj hother
      by_contra hne
      rw [List.getElem?_set_ne (Ne.symm hne)] at hj
      exact hother (h.ended hi hrun hj hne)
    intro j k first second hj hk hfirst hsecond
    rw [hplace j first hj hfirst, hplace k second hk hsecond]
  ok := by
    intro other hother
    rcases eq_or_exists_of_mem_set hother with rfl | ⟨j, hne, hj⟩
    · cases next <;> exact hok
    · rw [h.ended hi hrun hj hne]
      trivial
  saved := by
    intro hall
    exact hsaved (hall _ (mem_set_self hi))

/-- A failed attempt, after which the run would find what is open. -/
theorem Single.retried (h : Single c) (hi : c.runs[i]? = some run) (hrun : run.stage ≠ .ended)
    {github : List OpenedIssue} {links : List Remote} {attempt : Nat} (known : Option Remote)
    (hone : github.length ≤ 1) (hown : links ≠ [] ∨ Own { c with github, links } run)
    (hsaved : attempt < 2 ∨ ¬Creation.Unsaved { c with github, links }) :
    Single (Creation.goOn { c with github, links } i run (retry attempt known)) := by
  refine h.goOn hi hrun hone ?_ fun hended => ?_
  · unfold retry
    split_ifs
    · exact hown.imp id fun hown => ⟨hown, fun hzero => absurd hzero (Nat.succ_ne_zero attempt)⟩
    · trivial
  · refine hsaved.resolve_left fun hlt => ?_
    rw [retry, if_pos hlt] at hended
    contradiction

/-! ## Steps -/

theorem own_opened (h : Single c) (hmem : run ∈ c.runs) (hnone : c.github = []) (number : Int) :
    (c.opened run number).github.length ≤ 1 ∧ Own (c.opened run number) run := by
  unfold Creation.opened Own
  rw [hnone]
  refine ⟨le_rfl, fun issue hissue => ?_⟩
  obtain rfl := List.mem_singleton.mp hissue
  simpa [CreateRun.finds] using h.started run hmem

theorem links_of_addLink {remote : Remote} (h : c.addLink remote = some c') :
    c' = { c with links := c'.links } ∧ c'.links ≠ [] := by
  unfold Creation.addLink at h
  obtain ⟨-, hlinks⟩ := Option.ite_none_left_eq_some.mp h
  obtain rfl := Option.some.inj hlinks
  simp

theorem links_of_conflict {remote : Remote} (h : c.addLink remote = none) : c.links ≠ [] := by
  unfold Creation.addLink at h
  split_ifs at h with hmem
  exact List.ne_nil_of_mem hmem

theorem Single.begin (h : Single c) (hfree : c.claimed = false) (repo : String) :
    Single { c with
      claimed := true
      nextMarker := c.nextMarker + 1
      runs := c.runs ++ [⟨repo, c.now - 60, c.nextMarker, .checking 0 none⟩] } := by
  have hended : ∀ run ∈ c.runs, run.stage = .ended := by
    intro run hrun
    by_contra hactive
    rw [h.claimed run hrun hactive] at hfree
    contradiction
  have hsaved := h.saved hended
  have hplace : ∀ (j : Nat) (other : CreateRun),
      (c.runs ++ [⟨repo, c.now - 60, c.nextMarker, .checking 0 none⟩])[j]? = some other →
      other.stage ≠ .ended → j = c.runs.length := by
    intro j other hj hother
    rcases Nat.lt_trichotomy j c.runs.length with hlt | heq | hgt
    · rw [List.getElem?_append_left hlt] at hj
      exact absurd (hended other (List.mem_of_getElem? hj)) hother
    · exact heq
    · rw [List.getElem?_eq_none (by simpa using Nat.succ_le_of_lt hgt)] at hj
      contradiction
  refine ⟨h.one, fun run hrun => ?_, fun _ _ _ => rfl, ?_, fun run hrun => ?_, fun hall => ?_⟩
  · rcases List.mem_append.mp hrun with hold | hnew
    · exact h.started run hold
    · obtain rfl := List.mem_singleton.mp hnew
      show c.now - 60 ≤ c.now
      omega
  · intro j k first second hj hk hfirst hsecond
    rw [hplace j first hj hfirst, hplace k second hk hsecond]
  · rcases List.mem_append.mp hrun with hold | hnew
    · rw [hended run hold]
      trivial
    · obtain rfl := List.mem_singleton.mp hnew
      show c.links ≠ [] ∨ _
      by_cases hlinks : c.links = []
      · have hnone : c.github = [] := by
          by_contra hopen
          exact hsaved ⟨hopen, hlinks⟩
        refine .inr ⟨?_, fun _ => hnone⟩
        unfold Own
        simp [hnone]
      · exact .inl hlinks
  · exact hsaved

theorem Single.restart (h : Single c) (hsaved : ¬c.Unsaved) :
    Single { c with claimed := false, runs := c.runs.map fun run => { run with stage := .ended } } := by
  have hended : ∀ run ∈ c.runs.map fun run => { run with stage := .ended }, run.stage = .ended := by
    intro run hrun
    obtain ⟨before, -, rfl⟩ := List.mem_map.mp hrun
    rfl
  refine ⟨h.one, fun run hrun => ?_, fun run hrun hactive => absurd (hended run hrun) hactive, ?_,
    fun run hrun => ?_, fun _ => hsaved⟩
  · obtain ⟨before, hbefore, rfl⟩ := List.mem_map.mp hrun
    exact h.started before hbefore
  · intro j k first second hj _ hfirst _
    exact absurd (hended first (List.mem_of_getElem? hj)) hfirst
  · rw [hended run hrun]
    trivial

theorem Single.advance (h : Single c) (hi : c.runs[i]? = some run) (hrun : run.stage ≠ .ended)
    {answer : Answer} (hsaves : LosesNone c run.stage answer) (number : Int) :
    Single ((c.advance run answer number).1.goOn i run (c.advance run answer number).2) := by
  have hmem := List.mem_of_getElem? hi
  have hok := h.ok run hmem
  have hone := h.one
  obtain ⟨repo, started, marker, stage⟩ := run
  cases stage with
  | checking attempt known =>
      cases answer with
      | ok =>
          simp only [Creation.advance]
          by_cases hlinks : c.links ≠ []
          · rw [if_pos hlinks]
            exact h.goOn hi hrun hone trivial fun _ hunsaved => hlinks hunsaved.2
          · obtain ⟨hown, hfirst⟩ := Or.resolve_left hok hlinks
            rw [if_neg hlinks]
            cases known with
            | some remote => exact h.goOn hi hrun hone hown nofun
            | none =>
                dsimp only
                split_ifs with hattempt
                · exact h.goOn hi hrun hone hown nofun
                · exact h.goOn hi hrun hone (hfirst (Nat.eq_zero_of_not_pos hattempt)) nofun
      | failed => exact h.goOn hi hrun hone trivial fun _ => hsaves
      | lost => exact h.goOn hi hrun hone trivial fun _ => hsaves
  | listing attempt =>
      cases answer with
      | ok =>
          simp only [Creation.advance]
          cases hfind : c.github.find? (CreateRun.finds ⟨repo, started, marker, .listing attempt⟩) with
          | some issue => exact h.goOn hi hrun hone hok nofun
          | none =>
              -- Whatever is open would have been found.
              have hnone : c.github = [] := by
                refine List.eq_nil_iff_forall_not_mem.mpr fun issue hissue => ?_
                exact List.find?_eq_none.mp hfind issue hissue (hok issue hissue)
              exact h.goOn hi hrun hone hnone nofun
      | failed => exact h.retried hi hrun none hone (.inr hok) hsaves
      | lost => exact h.retried hi hrun none hone (.inr hok) hsaves
  | creating attempt =>
      obtain ⟨hopened, hown⟩ := own_opened h hmem hok number
      cases answer with
      | ok => exact h.goOn hi hrun hopened hown nofun
      | lost => exact h.retried hi hrun none hopened (.inr hown) (.inl hsaves)
      | failed =>
          have hnone : c.github = [] := hok
          refine h.retried hi hrun none hone (.inr ?_) (.inr fun hunsaved => hunsaved.1 hnone)
          unfold Own
          simp [hnone]
  | saving attempt remote =>
      cases answer with
      | ok =>
          simp only [Creation.advance]
          cases hadd : c.addLink remote with
          | some linked =>
              obtain ⟨hlinked, hlinks⟩ := links_of_addLink hadd
              rw [hlinked]
              exact h.goOn hi hrun hone hlinks nofun
          | none =>
              have hlinks := links_of_conflict hadd
              exact h.retried hi hrun _ hone (.inl hlinks) (.inr fun hunsaved => hlinks hunsaved.2)
      | lost =>
          simp only [Creation.advance]
          cases hadd : c.addLink remote with
          | some linked =>
              obtain ⟨hlinked, hlinks⟩ := links_of_addLink hadd
              rw [Option.getD_some, hlinked]
              exact h.retried hi hrun _ hone (.inl hlinks) (.inr fun hunsaved => hlinks hunsaved.2)
          | none =>
              have hlinks := links_of_conflict hadd
              exact h.retried hi hrun _ hone (.inl hlinks) (.inr fun hunsaved => hlinks hunsaved.2)
      | failed => exact h.retried hi hrun _ hone (.inr hok) hsaves
  | mirroring => exact h.goOn hi hrun hone trivial fun _ hunsaved => hok hunsaved.2
  | ended => exact absurd rfl hrun

theorem Single.step (h : Single c) (hstep : SavingSteps c label c') : Single c' := by
  obtain ⟨hstep, hsaves⟩ := hstep
  cases label with
  | begin repo =>
      simp only [CreateSteps, createStep] at hstep
      split_ifs at hstep with hclaimed
      · obtain rfl := Option.some.inj hstep
        exact h
      · obtain rfl := Option.some.inj hstep
        exact h.begin (Bool.eq_false_iff.mpr hclaimed) repo
  | advance i answer number =>
      simp only [CreateSteps, createStep] at hstep
      split at hstep
      · contradiction
      · next run hi =>
          obtain ⟨hactive, hafter⟩ := Option.ite_none_left_eq_some.mp hstep
          obtain rfl := Option.some.inj hafter
          exact h.advance hi hactive (hsaves run hi) number
  | restart =>
      obtain rfl := Option.some.inj hstep
      exact h.restart hsaves
  | wait seconds =>
      obtain rfl := Option.some.inj hstep
      refine ⟨h.one, fun run hrun => ?_, h.claimed, h.only, h.ok, h.saved⟩
      have hstarted := h.started run hrun
      show run.started ≤ c.now + seconds
      omega

/-- Where no run ends between the opening of a GitHub issue and its link, at most one is ever
opened. -/
theorem auto_create_opens_once {now : Int}
    (hrun : Run SavingSteps (.fresh now) labels c) : c.github.length ≤ 1 :=
  (hrun.invariant Single (fun _ _ _ h hstep => h.step hstep) (.fresh now)).one

/-- The answer to the first request is lost, and the next attempt finds what it has opened; a
replay of the event finds the link. -/
theorem auto_create_opens_once_lost_answer : ∃ c : Creation,
    c.github = [⟨⟨"acme/shop", 7⟩, 0, 100⟩] ∧ c.links = [⟨"acme/shop", 7⟩] ∧
      c.github.length ≤ 1 := by
  have hrun : ∃ c : Creation, Run SavingSteps (.fresh 100)
      [.begin "acme/shop", .advance 0 .ok 0, .advance 0 .lost 7, .advance 0 .ok 0,
        .advance 0 .ok 0, .advance 0 .ok 0, .advance 0 .ok 0, .begin "acme/shop",
        .advance 1 .ok 0] c ∧
      c.github = [⟨⟨"acme/shop", 7⟩, 0, 100⟩] ∧ c.links = [⟨"acme/shop", 7⟩] := by
    refine ⟨_, .cons ⟨rfl, trivial⟩ <| .cons ⟨rfl, ?_⟩ <| .cons ⟨rfl, ?_⟩ <| .cons ⟨rfl, ?_⟩ <|
      .cons ⟨rfl, ?_⟩ <| .cons ⟨rfl, ?_⟩ <| .cons ⟨rfl, ?_⟩ <| .cons ⟨rfl, trivial⟩ <|
      .cons ⟨rfl, ?_⟩ <| .nil _, rfl, rfl⟩
    · rintro _ ⟨⟩
      trivial
    · rintro _ ⟨⟩
      exact Nat.zero_lt_two
    all_goals
      rintro _ ⟨⟩
      trivial
  obtain ⟨c, hrun, hgithub, hlinks⟩ := hrun
  exact ⟨c, hgithub, hlinks, auto_create_opens_once hrun⟩

/-- The link's row fails to be written three times, and a replay of the event opens a second. -/
theorem unsaved_link_opens_second : ∃ c : Creation, Run CreateSteps (.fresh 100)
    [.begin "acme/shop", .advance 0 .ok 0, .advance 0 .ok 7, .advance 0 .failed 0,
      .advance 0 .ok 0, .advance 0 .failed 0, .advance 0 .ok 0, .advance 0 .failed 0,
      .begin "acme/shop", .advance 1 .ok 0, .advance 1 .ok 8] c ∧
    c.github = [⟨⟨"acme/shop", 7⟩, 0, 100⟩, ⟨⟨"acme/shop", 8⟩, 1, 100⟩] :=
  ⟨_, Run.of_foldlM rfl, rfl⟩

end Rustrak.GitHub
