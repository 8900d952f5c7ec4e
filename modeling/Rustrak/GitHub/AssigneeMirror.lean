import Rustrak.GitHub.StatusMirror

/-!
# The assignee on GitHub

`mirror_assignee` of `services/github/sync.rs` assigns the linked GitHub issues to the login of
an issue's assignee.  It skips no link, and nothing is recorded, so GitHub itself is what the
passes of `Rustrak.Mirroring` copy to: a request for an earlier assignee may take effect at any
time, but the run that has made it is bound to read the assignee again then.
-/

namespace Rustrak.GitHub

open Rustrak.Mirroring Rustrak.Transition

/-- An issue's assignee, with the type that came with it. -/
structure Assignee where
  assignedTo : Option Int
  assigneeType : Option String
  deriving DecidableEq, Repr

/-- The user's GitHub login, if they set one. -/
def githubLogin (column : Int → Option String) (userId : Int) : Option String :=
  (column userId).filter fun login => !login.isEmpty

/-- The GitHub assignees an assignee asks for.  One that is not a user, or has no login, leaves
GitHub alone. -/
def logins (column : Int → Option String) : Assignee → Option (List String)
  -- Cleared, whatever type came with it.
  | ⟨none, _⟩ => some []
  -- No type is how the dashboard assigns a person.
  | ⟨some userId, none⟩ => (githubLogin column userId).map fun name => [name]
  | ⟨some userId, some kind⟩ =>
      if kind = "user" then (githubLogin column userId).map fun name => [name] else none

/-- What a run of `mirror_assignee` without `except` does next.  It looks at the links, and has
the request for the first of those it is to write under way. -/
abbrev AssigneeRun := Pass Assignee Remote (List String)

/-- The assignee, the assignees on GitHub, and the runs. -/
abbrev AssigneeMirror := Copies Assignee Remote (List String)

/-- The next step of a run. -/
def advanceAssignee (column : Int → Option String) (links : List Remote) (m : AssigneeMirror) :
    AssigneeRun → AssigneeMirror × AssigneeRun
  | .reading =>
      match logins column m.value with
      | none => (m, .ended)
      | some names => (m, .looking m.value names)
  | .looking assignee names =>
      if links = [] then (m, .ended) else (m, .writing assignee names links)
  | .writing assignee names (link :: rest) =>
      ({ m with stored := Function.update m.stored link names }, .writing assignee names rest)
  | .writing assignee _ [] => (m, if m.value = assignee then .ended else .reading)
  | .ended => (m, .ended)

inductive AssigneeLabel
  /-- The issue is assigned, and a run begins. -/
  | assign (assignee : Assignee)
  | advance (run : Nat)
  deriving DecidableEq

def assigneeStep (column : Int → Option String) (links : List Remote) (m : AssigneeMirror) :
    AssigneeLabel → Option AssigneeMirror
  | .assign assignee => some { m with value := assignee, passes := m.passes ++ [.reading] }
  | .advance i => m.passes[i]?.map fun run =>
      let (after, next) := advanceAssignee column links m run
      after.goOn i next

/-- `assigneeStep` as a relation. -/
def AssigneeSteps (column : Int → Option String) (links : List Remote) (m : AssigneeMirror)
    (label : AssigneeLabel) (m' : AssigneeMirror) : Prop :=
  assigneeStep column links m label = some m'

/-- Every linked GitHub issue has the assignees that the assignee asks for, if it asks for any. -/
def AssigneeInSync (column : Int → Option String) (links : List Remote) (m : AssigneeMirror) : Prop :=
  ∀ names, logins column m.value = some names → ∀ link ∈ links, m.stored link = names

variable {column : Int → Option String} {links : List Remote} {m m' : AssigneeMirror}
  {label : AssigneeLabel} {labels : List AssigneeLabel}

theorem assigneeSteps_step (h : AssigneeSteps column links m label m') :
    m' = m ∨ Mirroring.Step (logins column) links m m' := by
  cases label with
  | assign assignee =>
      obtain rfl := Option.some.inj h
      exact .inr (.change assignee)
  | advance i =>
      obtain ⟨run, hrun, rfl⟩ := Option.map_eq_some_iff.mp h
      cases run with
      | reading =>
          right
          simp only [advanceAssignee]
          cases hwants : logins column m.value with
          | none => exact .leave hrun hwants
          | some names => exact .read hrun hwants
      | looking assignee names =>
          right
          simp only [advanceAssignee]
          split_ifs with hnone
          · exact .quit hrun hnone
          · exact .look hrun fun link hlink hleft => absurd hlink hleft
      | writing assignee names todo =>
          right
          cases todo with
          | cons link rest => exact .write hrun
          | nil =>
              simp only [advanceAssignee]
              split_ifs with hassignee
              · subst hassignee
                exact .done hrun
              · exact .again hrun hassignee
      | ended =>
          left
          obtain ⟨hi, hget⟩ := List.getElem?_eq_some_iff.mp hrun
          show { m with passes := m.passes.set i .ended } = m
          rw [← hget, List.set_getElem_self]

/-- When every run has ended the GitHub issues are assigned to whom the assignee asks for,
whatever was assigned in between and in whatever order the requests took effect. -/
theorem assignee_mirror_converges {start : AssigneeMirror}
    (hrun : Run (AssigneeSteps column links) start labels m) (hruns : start.passes = [])
    (hchange : AssigneeInSync column links start ∨ ∃ assignee, .assign assignee ∈ labels)
    (hended : ∀ run ∈ m.passes, run = .ended) : AssigneeInSync column links m := by
  have hnone : ∀ pass ∈ start.passes, Wanted (logins column) pass := by
    simp [hruns]
  have hbegins : ∀ (s : AssigneeMirror) (label : AssigneeLabel) (s' : AssigneeMirror),
      (∃ assignee, label = .assign assignee) → AssigneeSteps column links s label s' →
      ∃ assignee, s' = { s with value := assignee, passes := s.passes ++ [.reading] } := by
    rintro s _ s' ⟨assignee, rfl⟩ hstep
    exact ⟨assignee, (Option.some.inj hstep).symm⟩
  have hcopied : Copied (logins column) links m := by
    refine copied_of_run id (fun _ _ _ => assigneeSteps_step) hbegins hrun hnone ?_
    refine hchange.imp (fun hsync => ⟨hnone, fun names hnames link hlink => ?_⟩) ?_
    · exact .inl (hsync names hnames link hlink)
    · rintro ⟨assignee, hmem⟩
      exact ⟨_, hmem, assignee, rfl⟩
  exact fun names hnames => hcopied.of_ended hended hnames

/-- The request for the first assignee takes effect when the run for the second has ended. -/
theorem assignee_mirror_converges_slow_request : ∃ m : AssigneeMirror,
    m.value = ⟨some 2, some "user"⟩ ∧ m.stored ⟨"acme/shop", 7⟩ = ["grace"] := by
  have hrun : ∃ m : AssigneeMirror,
      Run (AssigneeSteps (fun user => if user = 1 then some "ada" else some "grace")
        [⟨"acme/shop", 7⟩]) ⟨⟨none, none⟩, fun _ => [], []⟩
        [.assign ⟨some 1, none⟩, .advance 0, .advance 0, .assign ⟨some 2, some "user"⟩,
          .advance 1, .advance 1, .advance 1, .advance 1, .advance 0, .advance 0,
          .advance 0, .advance 0, .advance 0, .advance 0] m ∧
      m.value = ⟨some 2, some "user"⟩ ∧ ∀ run ∈ m.passes, run = .ended :=
    ⟨_, Run.of_foldlM rfl, rfl, by decide +kernel⟩
  obtain ⟨m, hrun, hvalue, hended⟩ := hrun
  refine ⟨m, hvalue, assignee_mirror_converges hrun rfl
    (.inr ⟨⟨some 1, none⟩, List.mem_cons_self ..⟩) hended ["grace"] ?_ _ (List.mem_singleton_self _)⟩
  rw [hvalue]
  rfl

end Rustrak.GitHub
