import Rustrak.Monitors.Config

/-!
# Counting on from the last slot

After a miss a schedule goes on from the last slot before now, not from the time that was
expected: `next_after` of `prev_before`.  Which slot is last is counted from the expected time,
and the next one from that slot, so the two counts have to agree for the next one to be
still to come.  They need not:

* months clip a day, and the count goes on from the clipped one: after 31 January and 28
  February comes 28 March, while it is 31 March that is not over yet;
* clocks that jump move a slot, and a slot is cut to its minute.

`Overtaken` is when the next slot is so far in the past that it has been missed as well.
-/

namespace Rustrak.Monitors

open Rustrak.Calendar

variable {croner : Croner} {zone : TimeZone} {margin expected now now₀ t s : Int} {value : Nat}
  {unit : IntervalUnit}

/-- The slot that follows the last one is over by `margin`. -/
def Schedule.Overtaken (croner : Croner) (zone : TimeZone) (margin expected now : Int) :
    Schedule → Prop
  | .crontab value =>
      -- The last slot is cut to its minute, and found again as the one after that.
      ∃ cron last, croner.parse value = .ok cron ∧ croner.findPrevious cron zone now = some last ∧
        truncateToMinute last ≠ last ∧ truncateToMinute last + margin ≤ now
  | .interval value unit =>
      ∃ k, Brackets (step zone expected value unit) now k ∧
        let last := truncateToMinute (step zone expected value unit k)
        -- From the last slot on, the wall clocks of the two counts are not the same.
        (shift (zone.wall last) value unit 1 ≠ shift (zone.wall expected) value unit (k + 1) ∨
          last < expected) ∧
        truncateToMinute (step zone last value unit 1) + margin ≤ now

/-- The slots of a schedule come one after the other, whatever the clocks do. -/
def Schedule.KeepsOrder : Schedule → Prop
  | .crontab _ => True
  | .interval value unit => 2 * day < value * shortest unit

def Schedule.isInterval : Schedule → Bool
  | .crontab _ => false
  | .interval _ _ => true

theorem truncateToMinute_mono (h : s ≤ t) : truncateToMinute s ≤ truncateToMinute t := by
  unfold truncateToMinute minute second
  omega

/-! ## Crontabs -/

/-- A crontab that passes has a next occurrence, whenever and wherever. -/
theorem crontab_of_validate {value : String}
    (hvalid : (Schedule.crontab value).validate croner now₀ = .ok ()) :
    ∃ cron, croner.parse value = .ok cron ∧
      ∀ zone t, ∃ next, croner.findNext cron zone t = some next := by
  unfold Schedule.validate at hvalid
  dsimp only at hvalid
  split at hvalid
  · cases hvalid
  · next cron hparse =>
      split_ifs at hvalid with hnext
      exact ⟨cron, hparse, fun zone t => Option.isSome_iff_exists.mp (croner.recurs hnext zone t)⟩

theorem nextAfter_crontab {value : String} {cron : croner.Cron} {next : Int}
    (hparse : croner.parse value = .ok cron) (hnext : croner.findNext cron zone t = some next) :
    (Schedule.crontab value).nextAfter croner t zone = truncateToMinute next := by
  simp [Schedule.nextAfter, hparse, hnext, Except.toOption]

theorem prevBefore_crontab {value : String} {cron : croner.Cron}
    (hparse : croner.parse value = .ok cron) :
    (Schedule.crontab value).prevBefore croner expected now zone =
      truncateToMinute ((croner.findPrevious cron zone now).getD expected) := by
  simp [Schedule.prevBefore, hparse, Except.toOption]

/-- The occurrence after a time that no earlier one than `now` follows. -/
theorem le_nextAfter_crontab {value : String} {cron : croner.Cron}
    (hparse : croner.parse value = .ok cron)
    (hrecurs : ∀ zone t, ∃ next, croner.findNext cron zone t = some next)
    (hnow : truncateToMinute now = now)
    (hfires : ∀ r, croner.fires cron zone r → t < r → now ≤ r) :
    now ≤ (Schedule.crontab value).nextAfter croner t zone := by
  obtain ⟨next, hnext⟩ := hrecurs zone t
  obtain ⟨hfire, hafter, -⟩ := croner.next hnext
  rw [nextAfter_crontab hparse hnext, le_truncateToMinute_iff hnow]
  exact hfires next hfire hafter

theorem lt_recounted_crontab {value : String} {cron : croner.Cron}
    (hparse : croner.parse value = .ok cron)
    (hrecurs : ∀ zone t, ∃ next, croner.findNext cron zone t = some next)
    (hnow : truncateToMinute now = now) (hmargin : 0 < margin)
    (hnot : ¬(Schedule.crontab value).Overtaken croner zone margin expected now) :
    now < (Schedule.crontab value).nextAfter croner
      ((Schedule.crontab value).prevBefore croner expected now zone) zone + margin := by
  rw [prevBefore_crontab hparse]
  cases hprevious : croner.findPrevious cron zone now with
  | none =>
      have hle : now ≤ (Schedule.crontab value).nextAfter croner (truncateToMinute expected) zone :=
        le_nextAfter_crontab hparse hrecurs hnow fun r hr _ => croner.no_previous hprevious r hr
      rw [Option.getD_none]
      omega
  | some last =>
      rw [Option.getD_some]
      by_cases hwhole : truncateToMinute last = last
      · obtain ⟨-, -, hlast⟩ := croner.previous hprevious
        have hle : now ≤ (Schedule.crontab value).nextAfter croner (truncateToMinute last) zone := by
          apply le_nextAfter_crontab hparse hrecurs hnow
          intro r hr hafter
          by_contra hbefore
          have hback := hlast r hr (not_le.mp hbefore)
          omega
        omega
      · -- The slot is found again, and it is not over by the margin.
        have hlate : now < truncateToMinute last + margin := by
          by_contra hover
          exact hnot ⟨cron, last, hparse, hprevious, hwhole, not_lt.mp hover⟩
        obtain ⟨next, hnext⟩ := hrecurs zone (truncateToMinute last)
        obtain ⟨-, hafter, -⟩ := croner.next hnext
        have hagain := truncateToMinute_mono hafter.le
        rw [truncateToMinute_truncateToMinute] at hagain
        rw [nextAfter_crontab hparse hnext]
        omega

/-- Cut to its minute, the last slot is the next one again. -/
theorem recounted_le_crontab {value : String} {cron : croner.Cron}
    (hparse : croner.parse value = .ok cron)
    (hrecurs : ∀ zone t, ∃ next, croner.findNext cron zone t = some next)
    (hover : (Schedule.crontab value).Overtaken croner zone margin expected now) :
    (Schedule.crontab value).nextAfter croner
      ((Schedule.crontab value).prevBefore croner expected now zone) zone + margin ≤ now := by
  obtain ⟨cron', last, hparse', hprevious, hcut, hlate⟩ := hover
  obtain rfl := Except.ok.inj (hparse.symm.trans hparse')
  obtain ⟨hfires, -, -⟩ := croner.previous hprevious
  obtain ⟨next, hnext⟩ := hrecurs zone (truncateToMinute last)
  obtain ⟨-, -, hleast⟩ := croner.next hnext
  have hbefore : truncateToMinute last < last := (truncateToMinute_le last).lt_of_ne hcut
  have hagain := truncateToMinute_mono (hleast last hfires hbefore)
  rw [prevBefore_crontab hparse, hprevious, Option.getD_some, nextAfter_crontab hparse hnext]
  omega

/-- Whatever was expected, a crontab that is overtaken is counted to the same slot. -/
theorem prevBefore_eq_of_overtaken {value : String}
    (hover : (Schedule.crontab value).Overtaken croner zone margin expected now) (t : Int) :
    (Schedule.crontab value).prevBefore croner t now zone =
      (Schedule.crontab value).prevBefore croner expected now zone := by
  obtain ⟨cron, last, hparse, hprevious, -⟩ := hover
  rw [prevBefore_crontab hparse, prevBefore_crontab hparse, hprevious, Option.getD_some,
    Option.getD_some]

/-! ## Intervals -/

theorem prevBefore_interval (hbefore : expected < now) :
    (Schedule.interval value unit).prevBefore croner expected now zone =
      truncateToMinute (step zone expected value unit (lastStep zone expected now value unit)) := by
  simp only [Schedule.prevBefore, if_neg (not_le.mpr hbefore)]

/-- Where the two counts agree, the next slot is still to come: it is resolved to an instant from
a later origin. -/
theorem le_step_of_agree {k : Nat} {last : Int} (hnext : now ≤ step zone expected value unit (k + 1))
    (hlast : expected ≤ last)
    (hwall : shift (zone.wall last) value unit 1 = shift (zone.wall expected) value unit (k + 1)) :
    now ≤ step zone last value unit 1 := by
  calc now ≤ step zone expected value unit (k + 1) := hnext
    _ ≤ resolve zone last (shift (zone.wall expected) value unit (k + 1)) := resolve_mono hlast _
    _ = step zone last value unit 1 := by rw [step, hwall]

theorem lt_recounted_interval (hvalue : 0 < value) (hbefore : expected < now)
    (hnow : truncateToMinute now = now) (hmargin : 0 < margin)
    (hnot : ¬(Schedule.interval value unit).Overtaken croner zone margin expected now) :
    now < (Schedule.interval value unit).nextAfter croner
      ((Schedule.interval value unit).prevBefore croner expected now zone) zone + margin := by
  have hbrackets : Brackets (step zone expected value unit) now
      (lastStep zone expected now value unit) := brackets_lastStep hvalue hbefore
  rw [prevBefore_interval hbefore]
  generalize lastStep zone expected now value unit = k at hbrackets ⊢
  show now < truncateToMinute (step zone _ value unit 1) + margin
  generalize hlast : truncateToMinute (step zone expected value unit k) = last
  by_cases hover : truncateToMinute (step zone last value unit 1) + margin ≤ now
  · have hagree : ¬(shift (zone.wall last) value unit 1 ≠
        shift (zone.wall expected) value unit (k + 1) ∨ last < expected) := by
      intro hdiffer
      exact hnot ⟨k, hbrackets, by rw [hlast]; exact ⟨hdiffer, hover⟩⟩
    obtain ⟨hwall, horigin⟩ := not_or.mp hagree
    have hle := le_step_of_agree hbrackets.2 (not_lt.mp horigin) (not_ne_iff.mp hwall)
    have hminute := (le_truncateToMinute_iff hnow).mpr hle
    omega
  · exact not_le.mp hover

theorem recounted_le_interval (hvalue : 0 < value) (hbefore : expected < now)
    (hlong : 2 * day < value * shortest unit)
    (hover : (Schedule.interval value unit).Overtaken croner zone margin expected now) :
    (Schedule.interval value unit).nextAfter croner
      ((Schedule.interval value unit).prevBefore croner expected now zone) zone + margin ≤ now := by
  obtain ⟨k, hbrackets, -, hlate⟩ := hover
  have hk : lastStep zone expected now value unit = k :=
    (brackets_lastStep hvalue hbefore).unique (strictMono_nat_of_lt_succ (step_lt_step_succ hlong.le)) hbrackets
  rw [prevBefore_interval hbefore, hk]
  exact hlate

theorem minute_dvd_interval (value : Nat) (unit : IntervalUnit) :
    minute ∣ value * shortest unit := by
  refine Dvd.dvd.mul_left ?_ _
  cases unit <;> decide

/-- An interval is of whole minutes, so one of more than two days is of a minute more. -/
theorem two_days_add_minute_le (hlong : 2 * day < value * shortest unit) :
    2 * day + minute ≤ value * shortest unit := by
  obtain ⟨m, hm⟩ := minute_dvd_interval value unit
  rw [hm] at hlong ⊢
  unfold day hour minute second at *
  omega

theorem add_minute_le_step (hlong : 2 * day < value * shortest unit) :
    t + minute ≤ step zone t value unit 1 := by
  have hminutes := two_days_add_minute_le hlong
  have hstep := step_near zone t value unit 1
  have hwall := shift_succ (zone.wall t) value unit 0
  have hnear := zone.wall_near t
  rw [shift_zero, Nat.zero_add] at hwall
  omega

/-- Counted on once more, a slot in the past moves on. -/
theorem lt_recounted (hlong : 2 * day < value * shortest unit) (ht : truncateToMinute t = t)
    (hbefore : t < now) :
    t < (Schedule.interval value unit).nextAfter croner
      ((Schedule.interval value unit).prevBefore croner t now zone) zone := by
  rw [prevBefore_interval hbefore]
  generalize lastStep zone t now value unit = k
  have hfirst : t ≤ step zone t value unit k := by
    have horder : StrictMono (step zone t value unit) :=
      strictMono_nat_of_lt_succ (step_lt_step_succ hlong.le)
    calc t = step zone t value unit 0 := (step_zero zone t value unit).symm
      _ ≤ step zone t value unit k := horder.monotone (Nat.zero_le k)
  have hlast : t ≤ truncateToMinute (step zone t value unit k) :=
    (le_truncateToMinute_iff ht).mpr hfirst
  show t < truncateToMinute (step zone _ value unit 1)
  generalize truncateToMinute (step zone t value unit k) = last at hlast ⊢
  have hnext := lt_truncateToMinute_add (step zone last value unit 1)
  have hstep : last + minute ≤ step zone last value unit 1 := add_minute_le_step hlong
  omega

/-- Where the clocks never jump, the wall time that an interval leads to is the one its slot
shows. -/
theorem wall_step_of_steady {offset : Int} (hwall : ∀ t, zone.wall t = t + offset) (k : Nat) :
    zone.wall (step zone t value unit k) = shift (zone.wall t) value unit k := by
  unfold step
  generalize shift (zone.wall t) value unit k = shifted
  have hshown : shifted - offset ∈ (zone.fromLocal shifted).instants := by
    rw [zone.mem_instants, hwall]
    exact Int.sub_add_cancel shifted offset
  have hresolved : resolve zone t shifted ∈ (zone.fromLocal shifted).instants := by
    unfold resolve
    cases hlocal : zone.fromLocal shifted with
    | none => simp [hlocal, LocalResult.instants] at hshown
    | single s => simp [LocalResult.instants]
    | ambiguous first second =>
        dsimp only
        split_ifs
        · simp [LocalResult.instants]
        · simp [LocalResult.instants]
  exact (zone.mem_instants shifted _).mp hresolved

/-- Minutes, hours, days and weeks are of one length. -/
theorem shift_of_fixed {wall : Int} (hmonth : unit ≠ .month) (hyear : unit ≠ .year) (k : Nat) :
    shift wall value unit k = wall + k * (value * shortest unit) := by
  cases unit with
  | minute | hour | day | week =>
      simp only [shift, shortest]
      push_cast
      ring
  | month => exact absurd rfl hmonth
  | year => exact absurd rfl hyear

/-- So where the clocks never jump, only months and years are overtaken. -/
theorem not_overtaken_of_steady {offset : Int} (hwall : ∀ t, zone.wall t = t + offset)
    (hexpected : truncateToMinute expected = expected) (hmonth : unit ≠ .month)
    (hyear : unit ≠ .year) :
    ¬(Schedule.interval value unit).Overtaken croner zone margin expected now := by
  rintro ⟨k, -, hdiffer, -⟩
  generalize hslot : step zone expected value unit k = slot at hdiffer
  have hlength : (0 : Int) ≤ k * (value * shortest unit) :=
    Int.mul_nonneg (by omega) (Int.mul_nonneg (by omega) (by cases unit <;> decide))
  -- The slot is a whole number of intervals after the time that was expected.
  have hslot' : slot = expected + k * (value * shortest unit) := by
    have hshown : zone.wall slot = shift (zone.wall expected) value unit k := by
      rw [← hslot]
      exact wall_step_of_steady hwall k
    rw [shift_of_fixed hmonth hyear, hwall, hwall] at hshown
    omega
  have hwhole : truncateToMinute slot = slot := by
    obtain ⟨m, hm⟩ : minute ∣ k * (value * shortest unit) :=
      (minute_dvd_interval value unit).mul_left k
    rw [hslot', hm]
    rw [hm] at hlength
    unfold truncateToMinute minute second at *
    omega
  rw [hwhole] at hdiffer
  rcases hdiffer with hdiffer | hback
  · apply hdiffer
    rw [shift_of_fixed hmonth hyear, shift_of_fixed hmonth hyear, hwall, hwall, hslot']
    push_cast
    ring
  · omega

/-! ## The check-in after the last slot -/

section Config

variable {clocks : Clocks} {c : MonitorConfig}

/-- The schedule of a monitor is overtaken. -/
def MonitorConfig.Overtaken (clocks : Clocks) (c : MonitorConfig) (expected now : Int) : Prop :=
  c.schedule.Overtaken clocks.croner (c.tz clocks) (c.checkinMargin * minute) expected now

theorem MonitorConfig.Valid.margin_pos (hvalid : c.Valid clocks) :
    0 < (c.checkinMargin : Int) * minute :=
  Int.mul_pos (by exact_mod_cast hvalid.margin.1) (by decide)

theorem lt_nextCheckinLatest (hvalid : c.Valid clocks) (hbefore : expected < now)
    (hnow : truncateToMinute now = now) (hnot : ¬c.Overtaken clocks expected now) :
    now < c.nextCheckinLatest clocks (c.prevCheckin clocks expected now) := by
  obtain ⟨now₀, hschedule⟩ := hvalid.schedule
  unfold MonitorConfig.Overtaken at hnot
  unfold MonitorConfig.nextCheckinLatest MonitorConfig.nextCheckin MonitorConfig.prevCheckin
  cases hs : c.schedule with
  | crontab value =>
      rw [hs] at hschedule hnot
      obtain ⟨cron, hparse, hrecurs⟩ := crontab_of_validate hschedule
      exact lt_recounted_crontab hparse hrecurs hnow hvalid.margin_pos hnot
  | interval value unit =>
      rw [hs] at hschedule hnot
      exact lt_recounted_interval (value_pos_of_validate hschedule) hbefore hnow hvalid.margin_pos
        hnot

theorem nextCheckinLatest_le (hvalid : c.Valid clocks) (hbefore : expected < now)
    (horder : c.schedule.KeepsOrder) (hover : c.Overtaken clocks expected now) :
    c.nextCheckinLatest clocks (c.prevCheckin clocks expected now) ≤ now := by
  obtain ⟨now₀, hschedule⟩ := hvalid.schedule
  unfold MonitorConfig.Overtaken at hover
  unfold MonitorConfig.nextCheckinLatest MonitorConfig.nextCheckin MonitorConfig.prevCheckin
  cases hs : c.schedule with
  | crontab value =>
      rw [hs] at hschedule hover
      obtain ⟨cron, hparse, hrecurs⟩ := crontab_of_validate hschedule
      exact recounted_le_crontab hparse hrecurs hover
  | interval value unit =>
      rw [hs] at hschedule hover horder
      exact recounted_le_interval (value_pos_of_validate hschedule) hbefore horder hover

/-- Counted once more from the slot that was found, a crontab finds it again. -/
theorem nextCheckin_eq_of_crontab (hcrontab : c.schedule.isInterval = false)
    (hover : c.Overtaken clocks expected now) (t : Int) :
    c.nextCheckin clocks (c.prevCheckin clocks t now) =
      c.nextCheckin clocks (c.prevCheckin clocks expected now) := by
  unfold MonitorConfig.Overtaken at hover
  unfold MonitorConfig.nextCheckin MonitorConfig.prevCheckin
  cases hs : c.schedule with
  | crontab value =>
      rw [hs] at hover
      rw [prevBefore_eq_of_overtaken hover]
  | interval value unit =>
      rw [hs] at hcrontab
      cases hcrontab

theorem lt_nextCheckin_of_interval (hinterval : c.schedule.isInterval = true)
    (horder : c.schedule.KeepsOrder) (ht : truncateToMinute t = t) (hbefore : t < now) :
    t < c.nextCheckin clocks (c.prevCheckin clocks t now) := by
  unfold MonitorConfig.nextCheckin MonitorConfig.prevCheckin
  cases hs : c.schedule with
  | crontab value =>
      rw [hs] at hinterval
      cases hinterval
  | interval value unit =>
      rw [hs] at horder
      exact lt_recounted horder ht hbefore

/-- A check-in is expected at a whole minute. -/
theorem truncateToMinute_nextCheckin (reference : Int) :
    truncateToMinute (c.nextCheckin clocks reference) = c.nextCheckin clocks reference :=
  truncateToMinute_truncateToMinute _

section Recount

variable (off : Prop) {reference : Int}
  (hreference : c.prevCheckin clocks expected now = reference) (hvalid : c.Valid clocks)
  (hbefore : expected < now)

include hreference hvalid hbefore

/-- A schedule that is not overtaken leads past now, and with crons off so does a crontab: it is
counted to one slot whatever was expected. -/
theorem settled_of_not_overtaken (hnow : truncateToMinute now = now)
    (hnot : ¬(c.Overtaken clocks expected now ∧ (off → c.schedule.isInterval = true))) :
    now < c.nextCheckinLatest clocks reference ∨
      off ∧ c.nextCheckin clocks (c.prevCheckin clocks (c.nextCheckin clocks reference) now) =
        c.nextCheckin clocks reference := by
  rw [← hreference]
  by_cases hover : c.Overtaken clocks expected now
  · obtain ⟨hoff, hinterval⟩ := Classical.not_imp.mp fun hagain => hnot ⟨hover, hagain⟩
    exact .inr ⟨hoff, nextCheckin_eq_of_crontab (Bool.eq_false_iff.mpr hinterval) hover _⟩
  · exact .inl (lt_nextCheckinLatest hvalid hbefore hnow hover)

/-- One that is overtaken leads to a check-in that is late, and an interval goes on from that. -/
theorem not_settled_of_overtaken (horder : c.schedule.KeepsOrder) (hover : c.Overtaken clocks expected now)
    (hinterval : off → c.schedule.isInterval = true) :
    ¬(now < c.nextCheckinLatest clocks reference ∨
      off ∧ c.nextCheckin clocks (c.prevCheckin clocks (c.nextCheckin clocks reference) now) =
        c.nextCheckin clocks reference) := by
  have hlate : c.nextCheckinLatest clocks reference ≤ now := by
    rw [← hreference]
    exact nextCheckinLatest_le hvalid hbefore horder hover
  rintro (hnext | ⟨hoff, hsame⟩)
  · exact absurd hlate (not_le.mpr hnext)
  · have hmargin := hvalid.margin_pos
    have hpast : c.nextCheckin clocks reference < now := by
      unfold MonitorConfig.nextCheckinLatest at hlate
      omega
    have hmoves : c.nextCheckin clocks reference < c.nextCheckin clocks
        (c.prevCheckin clocks (c.nextCheckin clocks reference) now) :=
      lt_nextCheckin_of_interval (hinterval hoff) horder (truncateToMinute_nextCheckin reference)
        hpast
    exact absurd hsame hmoves.ne'

end Recount

end Config

end Rustrak.Monitors
