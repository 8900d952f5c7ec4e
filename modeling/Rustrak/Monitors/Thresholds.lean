import Rustrak.Monitors.Transactions

/-!
# The newest check-ins

What thresholds are about, said of the check-ins of an environment without their order in a
query: that the newest ones have failed (`NewestFailed`), that they are ok (`NewestOk`), or that
none of them is ok (`NoneOk`), which is what the code counts.
-/

namespace Rustrak.Monitors

open Rustrak.Core Rustrak.Relational

variable {p : Platform} {t : Tables} {monitor : Monitor} {env : Environment}
  {failed : CheckInRow} {rows : List CheckInRow} {n : Nat}

/-! ## Counting check-ins -/

/-- So many check-ins that are at least as new as a date are failures. -/
def failuresSince (rows : List CheckInRow) (date : Int) : Nat :=
  rows.countP fun c => c.status.isFailure && decide (date ≤ c.dateAdded)

def successesSince (rows : List CheckInRow) (date : Int) : Nat :=
  rows.countP fun c => c.status = .ok && decide (date ≤ c.dateAdded)

/-- The `n` newest check-ins are failures: any other has as many that are at least as new. -/
def NewestFailed (n : Nat) (rows : List CheckInRow) : Prop :=
  n ≤ rows.countP (·.status.isFailure) ∧
    ∀ b ∈ rows, b.status.isFailure = false → n ≤ failuresSince rows b.dateAdded

/-- The `n` newest check-ins that have a result are all ok. -/
def NewestOk (n : Nat) (rows : List CheckInRow) : Prop :=
  ∀ b ∈ rows, b.status.isResult → b.status ≠ .ok → n ≤ successesSince rows b.dateAdded

/-- None of the `n` newest check-ins up to one that failed is ok. -/
def NoneOk (n : Nat) (failed : CheckInRow) (rows : List CheckInRow) : Prop :=
  n ≤ (rows.filter fun c => c.dateAdded ≤ failed.dateAdded).length ∧
    ∀ b ∈ rows, b.status = .ok → b.dateAdded ≤ failed.dateAdded →
      n ≤ (rows.filter fun c => c.dateAdded ≤ failed.dateAdded).countP fun c =>
        c.status ≠ .ok && decide (b.dateAdded ≤ c.dateAdded)

/-- No run without a result is among the `n` newest check-ins, and no success that is newer
than the one that failed. -/
def Decided (n : Nat) (failed : CheckInRow) (rows : List CheckInRow) : Prop :=
  ∀ b ∈ rows, b.status = .inProgress ∨ b.status = .unknown ∨
      b.status = .ok ∧ failed.dateAdded < b.dateAdded →
    n ≤ failuresSince rows b.dateAdded

instance (n : Nat) (rows : List CheckInRow) : Decidable (NewestFailed n rows) :=
  inferInstanceAs (Decidable (_ ∧ ∀ b ∈ rows, _))

instance (n : Nat) (rows : List CheckInRow) : Decidable (NewestOk n rows) :=
  inferInstanceAs (Decidable (∀ b ∈ rows, _))

theorem failuresSince_anti {date date' : Int} (hdate : date ≤ date') :
    failuresSince rows date' ≤ failuresSince rows date := by
  apply List.countP_mono_left
  intro c _ hc
  simp only [Bool.and_eq_true, decide_eq_true_eq] at hc ⊢
  exact ⟨hc.1, hdate.trans hc.2⟩

theorem failuresSince_le (date : Int) :
    failuresSince rows date ≤ rows.countP (·.status.isFailure) := by
  apply List.countP_mono_left
  intro c _ hc
  simp only [Bool.and_eq_true] at hc
  exact hc.1

theorem failuresSince_pos (hmem : failed ∈ rows) (hfailed : failed.status.isFailure) {date : Int}
    (hdate : date ≤ failed.dateAdded) : 1 ≤ failuresSince rows date :=
  List.countP_pos_iff.mpr ⟨failed, hmem, by simp [hfailed, hdate]⟩

/-- A status that is no failure is ok, or that of a run without a result. -/
theorem not_failure_cases {s : CheckInStatus} (h : s.isFailure = false) :
    s = .ok ∨ s = .inProgress ∨ s = .unknown := by
  cases s <;> simp_all [CheckInStatus.isFailure]

/-! ## The threshold of an incident -/

/-- What the code asks of the newest check-ins up to the one that failed, with a threshold of
more than one: as many as that, and none is ok. -/
theorem crossesThreshold_iff (hthreshold : 1 < monitor.config.failureIssueThreshold) :
    crossesThreshold p t monitor env failed ↔
      let recent := p.newest.limit ((t.checkinsOf env.id).filter fun c =>
        c.dateAdded ≤ failed.dateAdded) monitor.config.failureIssueThreshold
      monitor.config.failureIssueThreshold ≤ recent.length ∧ ∀ c ∈ recent, c.status ≠ .ok := by
  have hmax : max monitor.config.failureIssueThreshold 1 = monitor.config.failureIssueThreshold :=
    max_eq_left hthreshold.le
  unfold crossesThreshold recentStatuses
  rw [hmax]
  simp [not_le.mpr hthreshold]

/-- An incident opens only when none of the newest check-ins is ok. -/
theorem noneOk_of_crossesThreshold (hmem : failed ∈ t.checkinsOf env.id)
    (hfailed : failed.status.isFailure)
    (hcross : crossesThreshold p t monitor env failed) :
    NoneOk monitor.config.failureIssueThreshold failed (t.checkinsOf env.id) := by
  have hfailedOk : failed.status ≠ .ok := by
    rintro hok
    rw [hok] at hfailed
    cases hfailed
  rcases Nat.lt_or_ge 1 monitor.config.failureIssueThreshold with hmany | hone
  · obtain ⟨hlength, hok⟩ := (crossesThreshold_iff hmany).mp hcross
    have hlengths := hlength
    rw [Newest.length_limit] at hlengths
    refine ⟨hlengths.trans (min_le_right _ _), fun b hb hbOk hbDate => ?_⟩
    refine p.newest.le_countP (p := fun c => c.status ≠ .ok) (fun c hc => by simpa using hok c hc)
      (List.mem_filter.mpr ⟨hb, by simpa using hbDate⟩) fun hmem => hok b hmem hbOk
  · have hself : failed ∈ (t.checkinsOf env.id).filter fun c => c.dateAdded ≤ failed.dateAdded :=
      List.mem_filter.mpr ⟨hmem, by simp⟩
    refine ⟨hone.trans (List.length_pos_of_mem hself), fun b _ _ hbDate => hone.trans ?_⟩
    exact List.countP_pos_iff.mpr ⟨failed, hself, by simp [hfailedOk, hbDate]⟩

/-- If the newest check-ins have no unfinished run among them, those that open an incident are
failures. -/
theorem newestFailed_of_crossesThreshold (hmem : failed ∈ t.checkinsOf env.id)
    (hfailed : failed.status.isFailure) (hcross : crossesThreshold p t monitor env failed)
    (hdecided : Decided monitor.config.failureIssueThreshold failed (t.checkinsOf env.id)) :
    NewestFailed monitor.config.failureIssueThreshold (t.checkinsOf env.id) := by
  rcases Nat.lt_or_ge 1 monitor.config.failureIssueThreshold with hmany | hone
  · obtain ⟨hlength, hok⟩ := (crossesThreshold_iff hmany).mp hcross
    have hsub : ∀ c ∈ p.newest.limit ((t.checkinsOf env.id).filter fun c =>
        c.dateAdded ≤ failed.dateAdded) monitor.config.failureIssueThreshold,
        c ∈ t.checkinsOf env.id :=
      fun c hc => List.mem_of_mem_filter (p.newest.mem_of_mem_limit hc)
    by_cases hall : ∀ c ∈ p.newest.limit ((t.checkinsOf env.id).filter fun c =>
        c.dateAdded ≤ failed.dateAdded) monitor.config.failureIssueThreshold,
        c.status.isFailure = true
    · refine ⟨?_, fun b hb hbStatus => ?_⟩
      · exact (p.newest.le_countP_of_length hall hlength).trans List.filter_sublist.countP_le
      · rcases not_failure_cases hbStatus with hbOk | hbOpen
        · rcases le_or_gt b.dateAdded failed.dateAdded with hbDate | hbDate
          · have hcount := p.newest.le_countP (p := fun c => c.status.isFailure) hall
              (List.mem_filter.mpr ⟨hb, by simpa using hbDate⟩) fun hmem => hok b hmem hbOk
            exact hcount.trans List.filter_sublist.countP_le
          · exact hdecided b hb (.inr (.inr ⟨hbOk, hbDate⟩))
        · exact hdecided b hb (hbOpen.imp_right .inl)
    · -- One of those counted has no result, so there are failures enough before it.
      push Not at hall
      obtain ⟨c, hc, hcStatus⟩ := hall
      have hcStatus : c.status.isFailure = false := by simpa using hcStatus
      have hcOpen := (not_failure_cases hcStatus).resolve_left (hok c hc)
      have hcount := hdecided c (hsub c hc) (hcOpen.imp_right .inl)
      refine ⟨hcount.trans (failuresSince_le _), fun b hb hbStatus => ?_⟩
      rcases not_failure_cases hbStatus with hbOk | hbOpen
      · rcases le_or_gt b.dateAdded failed.dateAdded with hbDate | hbDate
        · have hle : b.dateAdded ≤ c.dateAdded :=
            p.newest.le_of_mem_limit (List.mem_filter.mpr ⟨hb, by simpa using hbDate⟩)
              (fun hmem => hok b hmem hbOk) hc
          exact hcount.trans (failuresSince_anti hle)
        · exact hdecided b hb (.inr (.inr ⟨hbOk, hbDate⟩))
      · exact hdecided b hb (hbOpen.imp_right .inl)
  · refine ⟨hone.trans (List.countP_pos_iff.mpr ⟨failed, hmem, hfailed⟩), fun b hb hbStatus => ?_⟩
    rcases not_failure_cases hbStatus with hbOk | hbOpen
    · rcases le_or_gt b.dateAdded failed.dateAdded with hbDate | hbDate
      · exact hone.trans (failuresSince_pos hmem hfailed hbDate)
      · exact hdecided b hb (.inr (.inr ⟨hbOk, hbDate⟩))
    · exact hdecided b hb (hbOpen.imp_right .inl)

end Rustrak.Monitors
