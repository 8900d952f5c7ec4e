import Rustrak.Digest.Store
import Rustrak.Mirroring.Passes

/-!
# The status on GitHub

`mirror_status` of `services/github/sync.rs` closes and reopens the GitHub issues linked to an
issue.  Each link has the state recorded that Rustrak has last set, and a run leaves the links
alone whose record says what it wants.  The record is written when GitHub has answered, so
another run can look at it while the request has taken effect already, or write its own in
between.

The records end up right in any order: a run that has read another status than the present one
reads again (`Rustrak.Mirroring`).  GitHub ends up as the records say if no record is written
against the state GitHub has then, unless the run that has set that state is still to write
its own (`RecordsInOrder`).
-/

namespace Rustrak.GitHub

open Rustrak.Digest Rustrak.Mirroring Rustrak.Transition

/-- A GitHub issue. -/
structure Remote where
  repoFullName : String
  number : Int
  deriving DecidableEq, Repr

inductive RemoteState
  | opened
  | closed
  deriving DecidableEq, Repr

/-- What a status asks of GitHub; ignored issues leave it alone. -/
def remoteState : IssueStatus → Option RemoteState
  | .resolved => some .closed
  | .unresolved => some .opened
  | .ignored => none

/-- What a run of `mirror_status` does next. -/
inductive StatusRun
  /-- Reads the status of the issue. -/
  | reading
  /-- Reads the links. -/
  | looking (status : IssueStatus) (state : RemoteState)
  /-- Has the request for the first link under way; with none left, reads the status again. -/
  | requesting (status : IssueStatus) (state : RemoteState) (links : List Remote)
  /-- The request has taken effect; its answer is to be recorded. -/
  | recording (status : IssueStatus) (state : RemoteState) (link : Remote) (links : List Remote)
  | ended
  deriving DecidableEq

structure StatusMirror where
  status : IssueStatus
  /-- The state of each link's row. -/
  recorded : Remote → RemoteState
  github : Remote → RemoteState
  runs : List StatusRun

/-- The next step of a run. -/
def StatusMirror.advance (links : List Remote) (m : StatusMirror) :
    StatusRun → StatusMirror × StatusRun
  | .reading =>
      match remoteState m.status with
      | none => (m, .ended)
      | some state => (m, .looking m.status state)
  | .looking status state =>
      if links = [] then (m, .ended)
      else (m, .requesting status state (links.filter fun link => m.recorded link ≠ state))
  | .requesting status state (link :: rest) =>
      ({ m with github := Function.update m.github link state }, .recording status state link rest)
  | .requesting status _ [] => (m, if m.status = status then .ended else .reading)
  | .recording status state link rest =>
      ({ m with recorded := Function.update m.recorded link state }, .requesting status state rest)
  | .ended => (m, .ended)

inductive StatusLabel
  /-- The status is set, and a run begins. -/
  | setStatus (status : IssueStatus)
  | advance (run : Nat)
  deriving DecidableEq

def statusStep (links : List Remote) (m : StatusMirror) : StatusLabel → Option StatusMirror
  | .setStatus status => some { m with status, runs := m.runs ++ [.reading] }
  | .advance i => m.runs[i]?.map fun run =>
      let (after, next) := m.advance links run
      { after with runs := after.runs.set i next }

/-- `statusStep` as a relation. -/
def StatusSteps (links : List Remote) (m : StatusMirror) (label : StatusLabel) (m' : StatusMirror) :
    Prop :=
  statusStep links m label = some m'

/-- A record is that of the state GitHub has, unless the run that has set that state is still
to record it. -/
def RecordsInOrder (m : StatusMirror) : StatusLabel → Prop
  | .advance i => ∀ status state link rest, m.runs[i]? = some (.recording status state link rest) →
      m.github link = state ∨ ∃ j status' rest', j ≠ i ∧
        m.runs[j]? = some (.recording status' (m.github link) link rest')
  | .setStatus _ => True

def OrderedSteps (links : List Remote) (m : StatusMirror) (label : StatusLabel)
    (m' : StatusMirror) : Prop :=
  StatusSteps links m label m' ∧ RecordsInOrder m label

variable {links : List Remote} {m m' : StatusMirror} {label : StatusLabel}
  {labels : List StatusLabel}

/-! ## The records -/

/-- A request that is not recorded is one to be made yet. -/
def StatusRun.pass : StatusRun → Pass IssueStatus Remote RemoteState
  | .reading => .reading
  | .looking status state => .looking status state
  | .requesting status state todo => .writing status state todo
  | .recording status state link rest => .writing status state (link :: rest)
  | .ended => .ended

def StatusMirror.copies (m : StatusMirror) : Copies IssueStatus Remote RemoteState :=
  ⟨m.status, m.recorded, m.runs.map StatusRun.pass⟩

theorem copies_setStatus (m : StatusMirror) (status : IssueStatus) :
    StatusMirror.copies { m with status, runs := m.runs ++ [.reading] } =
      { m.copies with value := status, passes := m.copies.passes ++ [.reading] } := by
  simp [StatusMirror.copies, StatusRun.pass]

/-- The records are copied as `Rustrak.Mirroring` has it. -/
theorem statusSteps_copies (h : StatusSteps links m label m') :
    m'.copies = m.copies ∨ Mirroring.Step remoteState links m.copies m'.copies := by
  cases label with
  | setStatus status =>
      obtain rfl := Option.some.inj h
      right
      rw [copies_setStatus]
      exact .change status
  | advance i =>
      obtain ⟨run, hrun, rfl⟩ := Option.map_eq_some_iff.mp h
      have hpass : m.copies.passes[i]? = some run.pass := by
        simp [StatusMirror.copies, hrun]
      have hset : ∀ next : StatusRun, StatusMirror.copies { m with runs := m.runs.set i next } =
          m.copies.goOn i next.pass := by
        intro next
        simp [StatusMirror.copies, Copies.goOn, List.map_set]
      -- A stage that stands for the same pass changes nothing.
      have hsame : m.copies.goOn i run.pass = m.copies := by
        obtain ⟨hi, hget⟩ := List.getElem?_eq_some_iff.mp hpass
        unfold Copies.goOn
        rw [← hget, List.set_getElem_self]
      cases run with
      | reading =>
          right
          simp only [StatusMirror.advance]
          cases hwants : remoteState m.status with
          | none =>
              rw [hset]
              exact .leave hpass hwants
          | some state =>
              rw [hset]
              exact .read hpass hwants
      | looking status state =>
          right
          simp only [StatusMirror.advance]
          split_ifs with hnone
          · rw [hset]
            exact .quit hpass hnone
          · rw [hset]
            refine .look hpass fun link hlink hleft => ?_
            by_contra hdiffers
            exact hleft (List.mem_filter.mpr ⟨hlink, decide_eq_true hdiffers⟩)
      | requesting status state todo =>
          cases todo with
          | cons link rest =>
              left
              exact (hset (.recording status state link rest)).trans hsame
          | nil =>
              right
              simp only [StatusMirror.advance]
              split_ifs with hstatus
              · subst hstatus
                rw [hset]
                exact .done hpass
              · rw [hset]
                exact .again hpass hstatus
      | recording status state link rest =>
          right
          have hcopies : StatusMirror.copies { m with
              recorded := Function.update m.recorded link state
              runs := m.runs.set i (.requesting status state rest) } =
              Copies.goOn { m.copies with stored := Function.update m.copies.stored link state } i
                (.writing status state rest) := by
            simp [StatusMirror.copies, Copies.goOn, List.map_set, StatusRun.pass]
          simp only [StatusMirror.advance]
          rw [hcopies]
          exact .write hpass
      | ended =>
          left
          exact (hset .ended).trans hsame

/-! ## GitHub -/

/-- GitHub has what is recorded, or what a run is about to record. -/
def StatusMirror.Known (m : StatusMirror) : Prop :=
  ∀ link, m.recorded link = m.github link ∨
    ∃ (i : Nat) (status : IssueStatus) (rest : List Remote),
      m.runs[i]? = some (.recording status (m.github link) link rest)

theorem StatusMirror.Known.step (h : m.Known) (hstep : OrderedSteps links m label m') : m'.Known := by
  obtain ⟨hstep, horder⟩ := hstep
  cases label with
  | setStatus status =>
      obtain rfl := Option.some.inj hstep
      intro link
      rcases h link with hknown | ⟨i, status', rest, hi⟩
      · exact .inl hknown
      · refine .inr ⟨i, status', rest, ?_⟩
        rw [List.getElem?_append_left (List.getElem?_eq_some_iff.mp hi).1]
        exact hi
  | advance i =>
      obtain ⟨run, hrun, rfl⟩ := Option.map_eq_some_iff.mp hstep
      -- The runs at other places stay as they are.
      have hkept : ∀ {j : Nat} {other : StatusRun} (next : StatusRun), j ≠ i →
          m.runs[j]? = some other → (m.runs.set i next)[j]? = some other := by
        intro j other next hne hj
        rw [List.getElem?_set_ne (Ne.symm hne)]
        exact hj
      -- A run that is not recording is none that anybody relies on.
      have hquiet : ∀ next : StatusRun,
          (∀ status state link rest, run ≠ .recording status state link rest) →
          StatusMirror.Known { m with runs := m.runs.set i next } := by
        intro next hnot link
        rcases h link with hknown | ⟨j, status, rest, hj⟩
        · exact .inl hknown
        · refine .inr ⟨j, status, rest, hkept next ?_ hj⟩
          rintro rfl
          exact hnot _ _ _ _ (Option.some.inj (hrun.symm.trans hj))
      cases run with
      | reading =>
          simp only [StatusMirror.advance]
          cases remoteState m.status with
          | none => exact hquiet _ (by simp)
          | some state => exact hquiet _ (by simp)
      | looking status state =>
          simp only [StatusMirror.advance]
          split_ifs
          · exact hquiet _ (by simp)
          · exact hquiet _ (by simp)
      | requesting status state todo =>
          cases todo with
          | nil => exact hquiet _ (by simp)
          | cons link rest =>
              intro other
              show m.recorded other = Function.update m.github link state other ∨
                ∃ (j : Nat) (status' : IssueStatus) (rest' : List Remote),
                  (m.runs.set i (.recording status state link rest))[j]? =
                    some (.recording status' (Function.update m.github link state other) other rest')
              by_cases hsame : other = link
              · subst hsame
                right
                rw [Function.update_self]
                refine ⟨i, status, rest, ?_⟩
                rw [List.getElem?_set_self (List.getElem?_eq_some_iff.mp hrun).1]
              · rw [Function.update_of_ne hsame]
                exact hquiet (.recording status state link rest) (by simp) other
      | recording status state link rest =>
          intro other
          show Function.update m.recorded link state other = m.github other ∨
            ∃ (j : Nat) (status' : IssueStatus) (rest' : List Remote),
              (m.runs.set i (.requesting status state rest))[j]? =
                some (.recording status' (m.github other) other rest')
          by_cases hsame : other = link
          · subst hsame
            rw [Function.update_self]
            rcases horder status state other rest hrun with hstate | ⟨j, status', rest', hne, hj⟩
            · exact .inl hstate.symm
            · exact .inr ⟨j, status', rest', hkept _ hne hj⟩
          · rw [Function.update_of_ne hsame]
            rcases h other with hknown | ⟨j, status', rest', hj⟩
            · exact .inl hknown
            · refine .inr ⟨j, status', rest', hkept _ ?_ hj⟩
              rintro rfl
              exact hsame (StatusRun.recording.inj (Option.some.inj (hrun.symm.trans hj))).2.2.1.symm
      | ended => exact hquiet _ (by simp)

/-! ## Runs -/

/-- GitHub, the records and the status agree. -/
def StatusMirror.InSync (links : List Remote) (m : StatusMirror) : Prop :=
  ∀ state, remoteState m.status = some state →
    ∀ link ∈ links, m.github link = state ∧ m.recorded link = state

theorem recorded_of_run {start : StatusMirror} (hrun : Run (StatusSteps links) start labels m)
    (hruns : start.runs = [])
    (hchange : start.InSync links ∨ ∃ status, .setStatus status ∈ labels) :
    Copied remoteState links m.copies := by
  have hnone : ∀ pass ∈ start.copies.passes, Wanted remoteState pass := by
    simp [StatusMirror.copies, hruns]
  have hbegins : ∀ (s : StatusMirror) (label : StatusLabel) (s' : StatusMirror),
      (∃ status, label = .setStatus status) → StatusSteps links s label s' → ∃ status,
        s'.copies = { s.copies with value := status, passes := s.copies.passes ++ [.reading] } := by
    rintro s _ s' ⟨status, rfl⟩ hstep
    obtain rfl := Option.some.inj hstep
    exact ⟨status, copies_setStatus s status⟩
  refine copied_of_run StatusMirror.copies (fun _ _ _ => statusSteps_copies) hbegins hrun hnone ?_
  refine hchange.imp (fun hsync => ⟨hnone, fun state hstate link hlink => ?_⟩) ?_
  · exact .inl (hsync state hstate link hlink).2
  · rintro ⟨status, hmem⟩
    exact ⟨_, hmem, status, rfl⟩

/-- Where the records are written in order, GitHub and the records have what the status asks
for when every run has ended, whatever the statuses were in between. -/
theorem status_mirror_converges {start : StatusMirror}
    (hrun : Run (OrderedSteps links) start labels m) (hruns : start.runs = [])
    (hknown : start.recorded = start.github)
    (hchange : start.InSync links ∨ ∃ status, .setStatus status ∈ labels)
    (hended : ∀ run ∈ m.runs, run = .ended) : m.InSync links := by
  have hcopied := recorded_of_run (hrun.mono fun _ _ _ h => h.1) hruns hchange
  have hpasses : ∀ pass ∈ m.copies.passes, pass = .ended := by
    intro pass hpass
    obtain ⟨run, hmem, rfl⟩ := List.mem_map.mp hpass
    rw [hended run hmem]
    rfl
  have hgithub : m.Known := by
    refine hrun.invariant StatusMirror.Known (fun _ _ _ h hstep => h.step hstep) fun link => .inl ?_
    rw [hknown]
  intro state hstate link hlink
  have hrecorded : m.recorded link = state := hcopied.of_ended hpasses hstate link hlink
  rcases hgithub link with hsame | ⟨i, status, rest, hi⟩
  · exact ⟨hsame.symm.trans hrecorded, hrecorded⟩
  · have hrecording := hended _ (List.mem_of_getElem? hi)
    contradiction


/-- An issue with one link is resolved, and the run goes through to its end. -/
theorem status_mirror_converges_resolved : ∃ m : StatusMirror,
    m.status = .resolved ∧ m.InSync [⟨"acme/shop", 7⟩] := by
  have hrun : ∃ m : StatusMirror, Run (OrderedSteps [⟨"acme/shop", 7⟩])
      ⟨.unresolved, fun _ => .opened, fun _ => .opened, []⟩
      [.setStatus .resolved, .advance 0, .advance 0, .advance 0, .advance 0, .advance 0] m ∧
      m.status = .resolved ∧ ∀ run ∈ m.runs, run = .ended := by
    refine ⟨_, .cons ⟨rfl, trivial⟩ <| .cons ⟨rfl, nofun⟩ <| .cons ⟨rfl, nofun⟩ <|
      .cons ⟨rfl, nofun⟩ <| .cons ⟨rfl, ?_⟩ <| .cons ⟨rfl, nofun⟩ <| .nil _, rfl, by decide⟩
    rintro _ _ _ _ hrecording
    obtain ⟨rfl, rfl, rfl, rfl⟩ := StatusRun.recording.inj (Option.some.inj hrecording)
    exact .inl (by decide)
  obtain ⟨m, hrun, hstatus, hended⟩ := hrun
  exact ⟨m, hstatus, status_mirror_converges hrun rfl rfl
    (.inr ⟨.resolved, List.mem_cons_self ..⟩) hended⟩

/-- The first run's request takes effect last, and the last run's record is written last: every
run has ended, and GitHub has closed what is unresolved and recorded as open. -/
theorem crossed_records_disagree : ∃ m : StatusMirror, Run (StatusSteps [⟨"acme/shop", 7⟩])
    ⟨.unresolved, fun _ => .opened, fun _ => .opened, []⟩
    [.setStatus .resolved, .advance 0, .advance 0,
      .setStatus .unresolved, .advance 1, .advance 1, .advance 1,
      .setStatus .resolved, .advance 2, .advance 2, .advance 2, .advance 2, .advance 2,
      .setStatus .unresolved, .advance 3, .advance 3, .advance 3,
      .advance 0, .advance 0, .advance 3, .advance 0, .advance 0, .advance 0, .advance 0,
      .advance 3] m ∧
    m.status = .unresolved ∧ (∀ run ∈ m.runs, run = .ended) ∧
    m.recorded ⟨"acme/shop", 7⟩ = .opened ∧ m.github ⟨"acme/shop", 7⟩ = .closed := by
  refine ⟨_, Run.of_foldlM rfl, ?_⟩
  decide +kernel

end Rustrak.GitHub
