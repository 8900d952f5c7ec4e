import Mathlib.Data.Fintype.EquivFin
import Mathlib.Data.List.Perm.Basic
import Rustrak.Claiming.TwoKeys
import Rustrak.Digest.GroupingMap
import Rustrak.Grouping.Key

/-!
# Grouping and the order of digests

An event is looked up by its current key and then by the key an older release would
have given it, and only current keys are recorded.  So the grouping map is an
instance of `Claiming`: an event whose legacy key is the current key of another one
joins its issue when that one was digested before.

## Strategy

A committed digest puts its event as `Claiming.Put` does (`Commits.put`), so with
mutual claims the issues of a run are those of the keys alone, whatever the order.
When some claim is one-sided, the two orders that begin with its events tell them
apart; such runs exist because a later window always has room and a new id is
always free.
-/

namespace Rustrak.Digest

open Rustrak.Core Rustrak.Quota Rustrak.Relational Rustrak.Transition Rustrak.Claiming
  Rustrak.Grouping

/-! ## Events and their keys -/

/-- An event as it reaches the grouping phase. -/
structure Event where
  eventId : Uuid
  projectId : Int
  data : Value
  ingestedAt : Int
  deriving Repr

namespace Event

variable (libs : Libraries) (e : Event)

def isFeedback : Bool := e.data.str "type" == some "feedback"

/-- `Uuid::simple`: without hyphens. -/
def simpleId : String := String.ofList (e.eventId.toList.filter fun c => c != '-')

/-- Every feedback is its own issue. -/
def groupingKey : String :=
  if e.isFeedback then "feedback:" ++ e.simpleId else calculateGroupingKey libs e.data

def groupingKeyHash : String := libs.sha256 (e.groupingKey libs)

def legacyGroupingKeyHash : String :=
  if e.isFeedback then e.groupingKeyHash libs else libs.sha256 (calculateGroupingKeyV1 e.data)

/-- What the digest of the event writes. -/
def write : DigestWrite where
  eventId := e.eventId
  projectId := e.projectId
  groupingKey := e.groupingKey libs
  groupingKeyHash := e.groupingKeyHash libs
  legacyGroupingKeyHash := e.legacyGroupingKeyHash libs
  timestamp := e.ingestedAt
  release := ((e.data.str "release").map fun s => truncate s 200).getD ""
  environment := (e.data.str "environment").getD ""
  category := if e.isFeedback then .feedback else .error

end Event

/-- Some events of one project, no two with the same id. -/
structure EventSet (projectId : Int) where
  events : List Event
  own : ∀ e ∈ events, e.projectId = projectId
  distinct : (events.map Event.eventId).Nodup

/-! ## Digesting them in an order -/

/-- The issue a stored event is attached to. -/
def Db.issueOf (db : Db) (key : Int × Uuid) : Option Uuid :=
  (lookup EventRow.key key db.events).bind EventRow.issueId

/-- Tables in which a project has nothing grouped yet. -/
structure Ungrouped (projectId : Int) (db : Db) : Prop where
  map : GroupingMap db
  eventKeys : (db.events.map EventRow.key).Nodup
  nothing : ∀ g ∈ db.groupings, g.projectId ≠ projectId

/-- However the same events are digested one after another, they are in the same issues. -/
def OrderIndependent (projectId : Int) (writes : List DigestWrite) : Prop :=
  ∀ config start order order' final final', Ungrouped projectId start →
    (order.map Attempt.write).Perm writes → (order'.map Attempt.write).Perm writes →
    Run (Commits config) start order final → Run (Commits config) start order' final' →
    ∀ w ∈ writes, ∀ w' ∈ writes,
      (final.issueOf w.key = final.issueOf w'.key ↔ final'.issueOf w.key = final'.issueOf w'.key)

variable {config : RateLimitConfig} {db db' : Db} {a : Attempt} {p : Int}

/-! ## A digest puts its event -/

/-- What the map holds after a key that was free is recorded. -/
private theorem groupingIssue_insert {w : DigestWrite} {i : Uuid} (hproject : w.projectId = p)
    (hfree : lookup Grouping.key (w.projectId, w.groupingKeyHash) db.groupings = none) :
    (fun hash => (lookup Grouping.key (p, hash) (db.groupings ++ [w.grouping i])).map
      Grouping.issueId) = Function.update (db.groupingIssue p) w.groupingKeyHash (some i) := by
  subst hproject
  funext hash
  by_cases hhash : hash = w.groupingKeyHash
  · subst hhash
    rw [Function.update_self, lookup_insert_self hfree rfl]
    rfl
  · have hne : (w.grouping i).key ≠ (w.projectId, hash) := fun heq =>
      hhash (Prod.mk.inj heq).2.symm
    rw [Function.update_of_ne hhash, lookup_insert_ne hne]
    rfl

private theorem Lands.put {w : DigestWrite} {freshId : Uuid} {landing : Landing}
    (h : GroupingMap db) (hproject : w.projectId = p) (hlands : Lands db w freshId db' landing) :
    Put DigestWrite.groupingKeyHash DigestWrite.legacyGroupingKeyHash (db.groupingIssue p) w
      landing.issueId (db'.groupingIssue p) := by
  have hknown : ∀ {hash g issue}, db.findGrouping w.projectId hash = some (g, issue) →
      db.groupingIssue p hash = some g.issueId := by
    intro hash g issue hfound
    rw [← hproject, Db.groupingIssue, h.lookup_of_found hfound]
    rfl
  have hunknown : ∀ {hash}, db.findGrouping w.projectId hash = none →
      db.groupingIssue p hash = none := by
    intro hash hnone
    rw [← hproject, Db.groupingIssue, h.lookup_eq_none hnone]
    rfl
  cases hlands with
  | current hfound => exact .known (hknown hfound)
  | legacy hcurrent _ hlegacy hfree =>
      have hput := Put.claimed (hunknown hcurrent) (hknown hlegacy)
      rw [← groupingIssue_insert hproject hfree] at hput
      exact hput
  | created hcurrent hlegacy hfresh hfree =>
      have hlegacy' : db.groupingIssue p w.legacyGroupingKeyHash = none := by
        by_cases hsame : w.legacyGroupingKeyHash = w.groupingKeyHash
        · rw [hsame]
          exact hunknown hcurrent
        · exact hunknown (hlegacy hsame)
      -- A new id is no issue's, so no hash leads to it.
      have hnew : ∀ hash, db.groupingIssue p hash ≠ some freshId := by
        intro hash heq
        obtain ⟨g, hg, hid⟩ := Option.map_eq_some_iff.mp heq
        have hissue := h.issues g (mem_of_lookup hg)
        rw [hid, hfresh] at hissue
        cases hissue
      have hput := Put.opened (hunknown hcurrent) hlegacy' hnew
      rw [← groupingIssue_insert hproject hfree] at hput
      exact hput

/-- A digest puts its event as two keys put an item. -/
theorem Commits.put (h : GroupingMap db) (hproject : a.write.projectId = p)
    (hcommit : Commits config db a db') :
    ∃ i, Put DigestWrite.groupingKeyHash DigestWrite.legacyGroupingKeyHash (db.groupingIssue p)
        a.write i (db'.groupingIssue p) ∧
      db'.events = db.events ++ [a.write.row i] := by
  obtain ⟨landing, hw⟩ := hcommit.written
  have hput := hw.lands.put h hproject
  exact ⟨landing.issueId, hput, hw.events⟩

theorem Commits.groupingMap (h : GroupingMap db) (hcommit : Commits config db a db') :
    GroupingMap db' := by
  obtain ⟨_, hw⟩ := hcommit.written
  exact hw.groupingMap h

/-- A run of digests puts its events one after another, each row with its place. -/
theorem run_put {start : Db} {order : List Attempt} (h : GroupingMap start)
    (hproject : ∀ a ∈ order, a.write.projectId = p) (hrun : Run (Commits config) start order db) :
    ∃ put : List (DigestWrite × Uuid), put.map Prod.fst = order.map Attempt.write ∧
      Run (PutStep DigestWrite.groupingKeyHash DigestWrite.legacyGroupingKeyHash)
        (start.groupingIssue p) put (db.groupingIssue p) ∧
      db.events = start.events ++ put.map fun x => x.1.row x.2 := by
  induction hrun with
  | nil s => exact ⟨[], rfl, .nil _, by simp⟩
  | @cons start mid final a rest hstep _ ih =>
      obtain ⟨i, hput, hevents⟩ := hstep.put h (hproject a (by simp))
      obtain ⟨put, hwrites, hrest, hfinal⟩ :=
        ih (hstep.groupingMap h) fun b hb => hproject b (List.mem_cons_of_mem _ hb)
      have hfirst : PutStep DigestWrite.groupingKeyHash DigestWrite.legacyGroupingKeyHash
          (start.groupingIssue p) (a.write, i) (mid.groupingIssue p) := hput
      refine ⟨(a.write, i) :: put, by simp [hwrites], .cons hfirst hrest, ?_⟩
      rw [hfinal, hevents]
      simp

theorem Ungrouped.groupingIssue (h : Ungrouped p db) (hash : String) :
    db.groupingIssue p hash = none := by
  have hlookup : lookup Grouping.key (p, hash) db.groupings = none := by
    refine lookup_eq_none_iff.mpr fun g hg hkey => h.nothing g hg ?_
    exact (Prod.mk.inj hkey).1
  rw [Db.groupingIssue, hlookup]
  rfl

/-- Once its row is stored, an event is attached to its place. -/
theorem issueOf_row {w : DigestWrite} {i : Uuid} (hkeys : (db.events.map EventRow.key).Nodup)
    (hrow : w.row i ∈ db.events) : db.issueOf w.key = some i := by
  have hfound : lookup EventRow.key w.key db.events = some (w.row i) := lookup_of_mem hkeys hrow
  rw [Db.issueOf, hfound]
  rfl

/-! ## Mutual claims -/

/-- With mutual claims the issues of a run are those of the keys alone. -/
theorem issueOf_eq_iff {start : Db} {order : List Attempt} (h : Ungrouped p start)
    (hproject : ∀ a ∈ order, a.write.projectId = p) (hrun : Run (Commits config) start order db)
    (hmirrored : Mirrored DigestWrite.groupingKeyHash DigestWrite.legacyGroupingKeyHash
      (order.map Attempt.write)) {w w' : DigestWrite} (hw : w ∈ order.map Attempt.write)
    (hw' : w' ∈ order.map Attempt.write) :
    db.issueOf w.key = db.issueOf w'.key ↔
      Together DigestWrite.groupingKeyHash DigestWrite.legacyGroupingKeyHash w w' := by
  obtain ⟨put, hwrites, hput, hevents⟩ := run_put h.map hproject hrun
  rw [← hwrites] at hmirrored hw hw'
  have hkeys := run_eventKeys hrun h.eventKeys
  have hissue : ∀ x ∈ put, db.issueOf x.1.key = some x.2 := by
    intro x hx
    apply issueOf_row hkeys
    rw [hevents]
    exact List.mem_append_right _ (List.mem_map.mpr ⟨x, hx, rfl⟩)
  obtain ⟨x, hx, rfl⟩ := List.mem_map.mp hw
  obtain ⟨y, hy, rfl⟩ := List.mem_map.mp hw'
  rw [hissue x hx, hissue y hy, Option.some_inj]
  exact places_eq_iff h.groupingIssue hmirrored hput x hx y hy

/-! ## Every order can be digested -/

theorem findOrCreateIssue_ok {w : DigestWrite} {freshId : Uuid} (h : GroupingMap db)
    (hfresh : db.issue freshId = none) : ∃ r, findOrCreateIssue db w freshId = .ok r := by
  have hinsert : ∀ i issues, db.findGrouping w.projectId w.groupingKeyHash = none →
      ({ db with issues } : Db).insertGrouping (w.grouping i) =
        .ok { db with issues, groupings := db.groupings ++ [w.grouping i] } := by
    intro i issues hcurrent
    have hfree := h.lookup_eq_none hcurrent
    unfold Db.insertGrouping
    rw [DigestWrite.key_grouping, hfree]
    rfl
  have hcreate : existingGrouping db w = .ok (db, none) →
      db.findGrouping w.projectId w.groupingKeyHash = none →
      ∃ r, findOrCreateIssue db w freshId = .ok r := by
    intro hnone hcurrent
    have hguard : ensure (!(db.issue freshId).isSome) (.database .uniqueViolation) = .ok () := by
      rw [hfresh]
      rfl
    have hinserted := hinsert freshId (db.issues ++ [newIssue w freshId]) hcurrent
    unfold DigestWrite.grouping at hinserted
    unfold findOrCreateIssue
    rw [hnone]
    change ∃ r, (ensure _ _ >>= _) = Except.ok r
    rw [hguard]
    change ∃ r, (Db.insertGrouping _ _ >>= _) = Except.ok r
    rw [hinserted]
    exact ⟨_, rfl⟩
  cases hcurrent : db.findGrouping w.projectId w.groupingKeyHash with
  | some found =>
      have hexisting : existingGrouping db w = .ok (db, some found) := by
        unfold existingGrouping
        rw [hcurrent]
      unfold findOrCreateIssue
      rw [hexisting]
      exact ⟨_, rfl⟩
  | none =>
      by_cases hsame : w.legacyGroupingKeyHash = w.groupingKeyHash
      · refine hcreate ?_ hcurrent
        unfold existingGrouping
        rw [hcurrent]
        exact if_pos hsame
      · cases hlegacy : db.findGrouping w.projectId w.legacyGroupingKeyHash with
        | none =>
            refine hcreate ?_ hcurrent
            unfold existingGrouping
            rw [hcurrent, hlegacy]
            exact if_neg hsame
        | some found =>
            have hexisting : existingGrouping db w =
                .ok ({ db with groupings := db.groupings ++ [w.grouping found.1.issueId] },
                  some (w.grouping found.1.issueId, found.2)) := by
              unfold existingGrouping
              rw [hcurrent, hlegacy]
              dsimp only
              rw [if_neg hsame]
              have hinserted := hinsert found.1.issueId db.issues hcurrent
              unfold DigestWrite.grouping at hinserted ⊢
              rw [hinserted]
              rfl
            unfold findOrCreateIssue
            rw [hexisting]
            exact ⟨_, rfl⟩

/-- In a window after those of both rows there is room. -/
private theorem exists_room (quota quota' : QuotaWindows) :
    ∃ now, ∀ limits, hasRoom quota limits now = true ∧ hasRoom quota' limits now = true := by
  have hlater : ∀ q : QuotaWindows, ∀ k : Int, q.minute.window < 60 * k → q.hour.window < k →
      ∀ limits, hasRoom q limits (3600 * k) = true := by
    intro q k hminute hhour limits
    have hminute' : q.minute.window ≠ minuteOf (3600 * k) := by
      unfold minuteOf
      omega
    have hhour' : q.hour.window ≠ hourOf (3600 * k) := by
      unfold hourOf
      omega
    simp [hasRoom, FixedWindow.hasRoom, hminute', hhour']
  refine ⟨3600 * (1 + quota.minute.window.natAbs + quota.hour.window.natAbs +
    quota'.minute.window.natAbs + quota'.hour.window.natAbs), fun limits => ⟨?_, ?_⟩⟩
  · exact hlater quota _ (by omega) (by omega) limits
  · exact hlater quota' _ (by omega) (by omega) limits

private theorem exists_freshId (db : Db) : ∃ id, db.issue id = none := by
  obtain ⟨id, hid⟩ := Infinite.exists_notMem_finset (db.issues.map Issue.id).toFinset
  refine ⟨id, lookup_eq_none_iff.mpr fun row hrow heq => hid ?_⟩
  rw [List.mem_toFinset, ← heq]
  exact List.mem_map_of_mem hrow

/-- A digest of a new event can commit. -/
theorem exists_commits (config : RateLimitConfig) (h : GroupingMap db) {w : DigestWrite}
    {row : Project} (hproject : db.project w.projectId = some row)
    (hfresh : db.hasEvent w.projectId w.eventId = false) :
    ∃ a db', a.write = w ∧ Commits config db a db' := by
  obtain ⟨freshId, hid⟩ := exists_freshId db
  obtain ⟨now, hroom⟩ := exists_room db.installation.quota row.quota
  obtain ⟨⟨db₁, landing⟩, hland⟩ := @findOrCreateIssue_ok db w freshId h hid
  obtain ⟨hinstallation, hprojects, hevents, _⟩ := (findOrCreateIssue_cases hland).frame
  have hinsert : insertEvent db₁ w landing.issueId =
      .ok { db₁ with events := db₁.events ++ [w.row landing.issueId] } := by
    unfold insertEvent Db.hasEvent
    rw [hevents]
    exact if_neg (by simpa [Db.hasEvent] using hfresh)
  have hconsume : ∃ db₂, consumeQuota config (upsertEnvironment
      { db₁ with events := db₁.events ++ [w.row landing.issueId] } w landing.issueId)
        w.projectId now = .ok db₂ := by
    rw [upsertEnvironment_eq]
    have hproject' : lookup Project.id w.projectId db₁.projects = some row := by
      rw [hprojects]
      exact hproject
    unfold consumeQuota Db.project
    dsimp only
    rw [hproject', hinstallation]
    dsimp only
    rw [tryConsume_of_room (hroom _).1 (hroom _).2]
    exact ⟨_, rfl⟩
  obtain ⟨db₂, hconsume⟩ := hconsume
  have hrows : ∃ db', writeDigestRows config db w freshId now =
      .ok (db', .written landing.issueId landing.created landing.regressed) := by
    unfold writeDigestRows
    rw [hland]
    change ∃ db', (insertEvent db₁ w landing.issueId >>= _) = Except.ok (db', _)
    rw [hinsert]
    refine ⟨incrementEventCounters db₂ w.projectId, ?_⟩
    dsimp only [bind, Except.bind]
    rw [hconsume]
    rfl
  obtain ⟨db', hrows⟩ := hrows
  exact ⟨⟨w, freshId, now, now⟩, db', rfl, landing.issueId, landing.created, landing.regressed,
    hrows⟩

/-- New events of a project can be digested one after another in any order. -/
theorem exists_run (config : RateLimitConfig) {writes : List DigestWrite} (h : GroupingMap db)
    (hproject : (db.project p).isSome = true) (hown : ∀ w ∈ writes, w.projectId = p)
    (hfresh : ∀ w ∈ writes, db.hasEvent w.projectId w.eventId = false)
    (hdistinct : (writes.map DigestWrite.key).Nodup) :
    ∃ order db', order.map Attempt.write = writes ∧ Run (Commits config) db order db' := by
  induction writes generalizing db with
  | nil => exact ⟨[], db, rfl, .nil db⟩
  | cons w rest ih =>
      obtain ⟨hkey, hrest⟩ := List.nodup_cons.mp hdistinct
      obtain ⟨row, hrow⟩ := Option.isSome_iff_exists.mp hproject
      rw [← hown w (by simp)] at hrow
      obtain ⟨a, mid, rfl, hcommit⟩ := exists_commits config h hrow (hfresh w (by simp))
      obtain ⟨landing, hw⟩ := hcommit.written
      have hproject' : (mid.project p).isSome = true := by
        rw [hw.project]
        split_ifs
        · rw [Option.isSome_map]
          exact hproject
        · exact hproject
      have hfresh' : ∀ w' ∈ rest, mid.hasEvent w'.projectId w'.eventId = false := by
        intro w' hw'
        have hne : (a.write.row landing.issueId).key ≠ (w'.projectId, w'.eventId) := by
          intro heq
          exact hkey (List.mem_map.mpr ⟨w', hw', heq.symm⟩)
        unfold Db.hasEvent
        rw [hw.events, lookup_insert_ne hne]
        exact hfresh w' (List.mem_cons_of_mem _ hw')
      obtain ⟨order, final, horder, hrun⟩ := ih (hcommit.groupingMap h) hproject'
        (fun w' hw' => hown w' (List.mem_cons_of_mem _ hw')) hfresh' hrest
      exact ⟨a :: order, final, by simp [horder], .cons hcommit hrun⟩

/-! ## One-sided claims -/

/-- The first two events of a run are put where they are attached in the end. -/
private theorem first_two {start : Db} {order : List Attempt} {x y : DigestWrite}
    {rest : List DigestWrite} (h : Ungrouped p start)
    (horder : order.map Attempt.write = x :: y :: rest)
    (hproject : ∀ a ∈ order, a.write.projectId = p) (hrun : Run (Commits config) start order db) :
    ∃ i j mid owner, db.issueOf x.key = some i ∧ db.issueOf y.key = some j ∧
      Put DigestWrite.groupingKeyHash DigestWrite.legacyGroupingKeyHash (start.groupingIssue p)
        x i mid ∧
      Put DigestWrite.groupingKeyHash DigestWrite.legacyGroupingKeyHash mid y j owner := by
  obtain ⟨put, hwrites, hput, hevents⟩ := run_put h.map hproject hrun
  have hkeys := run_eventKeys hrun h.eventKeys
  rw [horder] at hwrites
  generalize start.groupingIssue p = owner at hput ⊢
  generalize db.groupingIssue p = after at hput
  cases hput with
  | nil => cases hwrites
  | @cons _ mid _ first _ hfirst hput =>
      cases hput with
      | nil => cases hwrites
      | @cons _ owner _ second _ hsecond _ =>
          obtain ⟨x', i⟩ := first
          obtain ⟨y', j⟩ := second
          obtain ⟨rfl, rfl, _⟩ : x' = x ∧ y' = y ∧ _ := by simpa using hwrites
          refine ⟨i, j, mid, owner, issueOf_row hkeys ?_, issueOf_row hkeys ?_, hfirst, hsecond⟩
          · rw [hevents]
            simp
          · rw [hevents]
            simp

/-- A claim that only one of two events makes shows in the order of the two. -/
private theorem order_shows {writes : List DigestWrite} (hown : ∀ w ∈ writes, w.projectId = p)
    (hdistinct : (writes.map DigestWrite.key).Nodup) (h : OrderIndependent p writes)
    {x y : DigestWrite} (hx : x ∈ writes) (hy : y ∈ writes)
    (hne : x.groupingKeyHash ≠ y.groupingKeyHash)
    (hclaim : y.legacyGroupingKeyHash = x.groupingKeyHash) :
    x.legacyGroupingKeyHash = y.groupingKeyHash := by
  by_contra hone
  have hxy : y ≠ x := fun heq => hne (heq ▸ rfl)
  have hfirst : writes.Perm (x :: y :: (writes.erase x).erase y) :=
    (List.perm_cons_erase hx).trans
      ((List.perm_cons_erase ((List.mem_erase_of_ne hxy).mpr hy)).cons x)
  have hlast : writes.Perm (y :: x :: (writes.erase x).erase y) :=
    hfirst.trans (List.Perm.swap y x _)
  have hstart : Ungrouped p (.fresh [p]) :=
    ⟨groupingMap_fresh [p], by simp [Db.fresh], by simp [Db.fresh]⟩
  let config : RateLimitConfig := ⟨⟨1, 1⟩, ⟨1, 1⟩⟩
  have hruns : ∀ order, writes.Perm order → ∃ attempts final,
      attempts.map Attempt.write = order ∧ (∀ a ∈ attempts, a.write.projectId = p) ∧
        Run (Commits config) (.fresh [p]) attempts final := by
    intro order horder
    have hown' : ∀ w ∈ order, w.projectId = p := fun w hw => hown w (horder.mem_iff.mpr hw)
    obtain ⟨attempts, final, hattempts, hrun⟩ := exists_run config (groupingMap_fresh [p])
      (by simp [Db.fresh, Db.project, lookup]) hown' (fun _ _ => rfl)
      ((horder.map _).nodup_iff.mp hdistinct)
    refine ⟨attempts, final, hattempts, fun a ha => hown' _ ?_, hrun⟩
    rw [← hattempts]
    exact List.mem_map_of_mem ha
  obtain ⟨order, final, horder, hproject, hrun⟩ := hruns _ hfirst
  obtain ⟨order', final', horder', hproject', hrun'⟩ := hruns _ hlast
  obtain ⟨i, j, _, _, hi, hj, hputx, hputy⟩ := first_two hstart horder hproject hrun
  obtain ⟨j', i', _, _, hj', hi', hputy', hputx'⟩ := first_two hstart horder' hproject' hrun'
  have htogether : j = i := one_sided_together hstart.groupingIssue hne hclaim hputx hputy
  have hapart : j' ≠ i' := one_sided_apart hstart.groupingIssue hne hone hputy' hputx'
  have hsame := h config (.fresh [p]) order order' final final' hstart
    (by rw [horder]; exact hfirst.symm) (by rw [horder']; exact hlast.symm) hrun hrun' x hx y hy
  rw [hi, hj, hi', hj', htogether] at hsame
  exact hapart (Option.some.inj (hsame.mp rfl)).symm

/-- The issues of some events do not depend on the order in which they are digested
exactly when their claims are mutual: whenever an older release would have given one
event the key of another, it would have given the other the key of the one. -/
theorem order_independent_iff_mirrored (libs : Libraries) {projectId : Int}
    (set : EventSet projectId) :
    OrderIndependent projectId (set.events.map (Event.write libs)) ↔
      ∀ e ∈ set.events, ∀ e' ∈ set.events, e.groupingKeyHash libs ≠ e'.groupingKeyHash libs →
        (e'.legacyGroupingKeyHash libs = e.groupingKeyHash libs ↔
          e.legacyGroupingKeyHash libs = e'.groupingKeyHash libs) := by
  have hown : ∀ w ∈ set.events.map (Event.write libs), w.projectId = projectId := by
    intro w hw
    obtain ⟨e, he, rfl⟩ := List.mem_map.mp hw
    exact set.own e he
  constructor
  · intro h
    have hdistinct : ((set.events.map (Event.write libs)).map DigestWrite.key).Nodup := by
      rw [List.map_map]
      apply List.Nodup.of_map Prod.snd
      rw [List.map_map]
      exact set.distinct
    have hshows : ∀ e ∈ set.events, ∀ e' ∈ set.events,
        e.groupingKeyHash libs ≠ e'.groupingKeyHash libs →
        e'.legacyGroupingKeyHash libs = e.groupingKeyHash libs →
          e.legacyGroupingKeyHash libs = e'.groupingKeyHash libs := fun e he e' he' =>
      order_shows hown hdistinct h (List.mem_map_of_mem he) (List.mem_map_of_mem he')
    intro e he e' he' hne
    exact ⟨hshows e he e' he' hne, hshows e' he' e he hne.symm⟩
  · intro h config start order order' final final' hstart hperm hperm' hrun hrun' w hw w' hw'
    have hmirrored : Mirrored DigestWrite.groupingKeyHash DigestWrite.legacyGroupingKeyHash
        (set.events.map (Event.write libs)) := by
      intro x hx y hy
      obtain ⟨e, he, rfl⟩ := List.mem_map.mp hx
      obtain ⟨e', he', rfl⟩ := List.mem_map.mp hy
      exact h e he e' he'
    have hissues : ∀ {order : List Attempt} {final : Db},
        (order.map Attempt.write).Perm (set.events.map (Event.write libs)) →
        Run (Commits config) start order final →
        (final.issueOf w.key = final.issueOf w'.key ↔
          Together DigestWrite.groupingKeyHash DigestWrite.legacyGroupingKeyHash w w') := by
      intro order final hperm hrun
      have hproject : ∀ a ∈ order, a.write.projectId = projectId := fun a ha =>
        hown _ (hperm.mem_iff.mp (List.mem_map_of_mem ha))
      have hmirrored' : Mirrored DigestWrite.groupingKeyHash
          DigestWrite.legacyGroupingKeyHash (order.map Attempt.write) := fun x hx y hy =>
        hmirrored x (hperm.mem_iff.mp hx) y (hperm.mem_iff.mp hy)
      exact issueOf_eq_iff hstart hproject hrun hmirrored' (hperm.mem_iff.mpr hw)
        (hperm.mem_iff.mpr hw')
    exact (hissues hperm hrun).trans (hissues hperm' hrun').symm

/-! ## A chained error -/

private def exception (excType excValue : String) : Value :=
  .object [("type", .string excType), ("value", .string excValue)]

private def errorEvent (eventId : Uuid) (ingestedAt : Int) (chain : List Value) : Event where
  eventId := eventId
  projectId := 1
  data := .object [("exception", .object [("values", .array chain)])]
  ingestedAt := ingestedAt

/-- An error, and the same error raised while another one was handled. -/
def plain : Event := errorEvent "plain" 100 [exception "ValueError" "bad"]

def chained : Event :=
  errorEvent "chained" 200 [exception "KeyError" "boom", exception "ValueError" "bad"]

/-- Neither text holds a value to replace. -/
def sampleLibraries : Libraries where
  captures := fun _ => []
  sha256 := fun key =>
    if key = "ValueError: bad ⋄ <no transaction>" then
      "80f7e5a019a42e33beafcc4ae3af79b820e4304a13da0061bbcd1421fe61c4e7"
    else if key = "KeyError: boom ⋄ ValueError: bad ⋄ <no transaction>" then
      "cc6ca19db00fc481724f4e239aacf7a0826ed63370b467e890e93861f26bf0c3"
    else key

example : chained.legacyGroupingKeyHash sampleLibraries = plain.groupingKeyHash sampleLibraries :=
  by decide

private def attemptOf (e : Event) (freshId : Uuid) : Attempt :=
  ⟨e.write sampleLibraries, freshId, e.ingestedAt, e.ingestedAt⟩

def plainFirst : List Attempt := [attemptOf plain "issue-1", attemptOf chained "issue-2"]

def chainedFirst : List Attempt := [attemptOf chained "issue-1", attemptOf plain "issue-2"]

/-- After the plain error the chained one joins its issue; before it, it does not. -/
theorem chained_error_depends_on_order :
    ∃ final final', Run (Commits tenPerMinute) (.fresh [1]) plainFirst final ∧
      Run (Commits tenPerMinute) (.fresh [1]) chainedFirst final' ∧
      final.issueOf (1, "plain") = final.issueOf (1, "chained") ∧
      final'.issueOf (1, "plain") ≠ final'.issueOf (1, "chained") ∧
      ¬OrderIndependent 1 ([plain, chained].map (Event.write sampleLibraries)) := by
  have hrun : ∃ final, Run (Commits tenPerMinute) (.fresh [1]) plainFirst final ∧
      final.issueOf (1, "plain") = final.issueOf (1, "chained") :=
    ⟨_, .cons ⟨_, _, _, rfl⟩ (Run.single ⟨_, _, _, rfl⟩), by decide⟩
  have hrun' : ∃ final, Run (Commits tenPerMinute) (.fresh [1]) chainedFirst final ∧
      final.issueOf (1, "plain") ≠ final.issueOf (1, "chained") :=
    ⟨_, .cons ⟨_, _, _, rfl⟩ (Run.single ⟨_, _, _, rfl⟩), by decide⟩
  obtain ⟨final, hrun, htogether⟩ := hrun
  obtain ⟨final', hrun', hapart⟩ := hrun'
  refine ⟨final, final', hrun, hrun', htogether, hapart, fun h => ?_⟩
  have hstart : Ungrouped 1 (.fresh [1]) :=
    ⟨groupingMap_fresh [1], by simp [Db.fresh], by simp [Db.fresh]⟩
  have hsame := h tenPerMinute (.fresh [1]) plainFirst chainedFirst final final' hstart
    (List.Perm.refl _) (List.Perm.swap _ _ _) hrun hrun' (plain.write sampleLibraries) (by simp)
    (chained.write sampleLibraries) (by simp)
  exact hapart (hsame.mp htogether)

end Rustrak.Digest
