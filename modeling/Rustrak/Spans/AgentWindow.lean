import Rustrak.Calendar.DateText
import Rustrak.Spans.Rows

/-!
# The window of the agents pages

`agent_summary` and `agent_traces` of `services/span.rs` read the AI spans of a project that
started in the last hours.  Postgres compares instants.  SQLite keeps the start of a span as
RFC 3339 text and compares it with what `datetime` writes, which has a space where the other has
a `T`: a span that started on the day on which the window begins is always within it.

`datetime` is documented for the years 0 to 9999 only.  What it gives for others is left open:
`outside` stands for it, and is any function.
-/

namespace Rustrak.Spans

open Rustrak.Calendar

inductive Backend
  | postgres
  | sqlite
  deriving DecidableEq, Repr

/-! ## Instants as they are kept -/

/-- Nanoseconds. -/
def second : ℤ := 10 ^ 9

def hour : ℤ := 3600 * second

def dayOf (instant : ℤ) : ℤ := instant / (86400 * second)

def secondOfDay (instant : ℤ) : ℕ := (instant / second % 86400).toNat

/-- `SecondsFormat::AutoSi`. -/
def fractionText (nanos : ℕ) : List Char :=
  if nanos = 0 then []
  else if nanos % 1000000 = 0 then '.' :: digits 3 (nanos / 1000000)
  else if nanos % 1000 = 0 then '.' :: digits 6 (nanos / 1000)
  else '.' :: digits 9 nanos

/-- An instant as `sqlx` binds it on SQLite. -/
def rfc3339 (instant : ℤ) : List Char :=
  dateText (dayOf instant) ++ 'T' :: (timeText (secondOfDay instant) ++
    fractionText (instant % second).toNat ++ ['+', '0', '0', ':', '0', '0'])

/-- `datetime`. -/
def sqliteDatetime (outside : ℤ → Option (List Char)) (instant : ℤ) : Option (List Char) :=
  if FourDigits (dayOf instant) then
    some (dateText (dayOf instant) ++ ' ' :: timeText (secondOfDay instant))
  else outside instant

/-- 1 January 2000, from which Postgres counts microseconds. -/
def postgresEpoch : ℤ := 946684800 * second

/-- An instant as `sqlx` binds it on Postgres. -/
def postgresMicros (instant : ℤ) : ℤ := (instant - postgresEpoch).tdiv 1000

/-- `NOW() - '{hours} hours'::interval`, unless the interval or the result is out of range. -/
def postgresSince (now : ℤ) (hours : ℕ) : Option ℤ :=
  let since := (now - postgresEpoch) / 1000 - hours * (3600 * 10 ^ 6)
  if hours ≤ 2562047788 ∧ -211813488000000000 ≤ since then some since else none

/-! ## The queries -/

variable {Double : Type}

/-- A row of the `spans` table with its project. -/
structure StoredSpan (Double : Type) where
  projectId : ℤ
  row : SpanRow Double

/-- `pg_span_time_filter` and `sqlite_span_time_filter`, unless the query fails. -/
def timeFilter (backend : Backend) (outside : ℤ → Option (List Char)) (now : ℤ)
    (periodHours : Option ℕ) : Option (Option ℤ → Bool) :=
  match periodHours with
  | none => some fun _ => true
  | some hours =>
      match backend with
      | .postgres =>
          (postgresSince now hours).map fun since start =>
            start.any fun instant => decide (since ≤ postgresMicros instant)
      | .sqlite =>
          -- a comparison with NULL holds of no row
          some fun start => (sqliteDatetime outside (now - hours * hour)).any fun since =>
            start.any fun instant => decide ¬(rfc3339 instant < since)

structure AgentFilters where
  environment : Option String

/-- The conditions of `agent_summary` besides the window. -/
def selects (projectId : ℤ) (filters : AgentFilters) (span : StoredSpan Double) : Bool :=
  span.projectId == projectId && span.row.genAi.operationType.isSome &&
    filters.environment.all fun environment => span.row.environment == some environment

/-- The rows that `agent_summary` sums up. -/
def summaryRows (backend : Backend) (outside : ℤ → Option (List Char)) (now : ℤ)
    (periodHours : Option ℕ) (projectId : ℤ) (filters : AgentFilters)
    (spans : List (StoredSpan Double)) : Option (List (StoredSpan Double)) :=
  (timeFilter backend outside now periodHours).map fun admits =>
    spans.filter fun span => selects projectId filters span && admits span.row.startTimestamp

/-- The rows that `agent_traces` groups. -/
def traceRows (backend : Backend) (outside : ℤ → Option (List Char)) (now : ℤ)
    (periodHours : Option ℕ) (projectId : ℤ) (filters : AgentFilters)
    (spans : List (StoredSpan Double)) : Option (List (StoredSpan Double)) :=
  (timeFilter backend outside now periodHours).map fun admits =>
    spans.filter fun span => selects projectId filters span && span.row.traceId.isSome &&
      admits span.row.startTimestamp

/-! ## The figures -/

/-- What is done with doubles. -/
structure Aggregates (Double : Type) where
  zero : Double
  sum : List Double → Double
  mean : List Double → Double
  p95 : List Double → Double

variable (aggregates : Aggregates Double)

def isOperation (operation : String) (span : StoredSpan Double) : Bool :=
  span.row.genAi.operationType == some operation

def isFailing (span : StoredSpan Double) : Bool := span.row.status.any (· != "ok")

/-- An agent span repeats the usage of its children. -/
def tokens (span : StoredSpan Double) : Double :=
  if isOperation "agent" span then aggregates.zero
  else span.row.genAi.usageTotalTokens.getD aggregates.zero

structure AgentSummary (Double : Type) where
  agentRuns : ℕ
  llmCalls : ℕ
  toolCalls : ℕ
  errorCount : ℕ
  totalTokens : Double
  avgDurationMs : Double
  p95DurationMs : Double
  deriving DecidableEq

def summarise (rows : List (StoredSpan Double)) : AgentSummary Double :=
  let durations := (rows.filter fun span =>
    isOperation "agent" span || isOperation "ai_client" span).filterMap (·.row.durationMs)
  { agentRuns := rows.countP (isOperation "agent")
    llmCalls := rows.countP (isOperation "ai_client")
    toolCalls := rows.countP (isOperation "tool")
    errorCount := rows.countP isFailing
    totalTokens := aggregates.sum (rows.map (tokens aggregates))
    avgDurationMs := aggregates.mean durations
    p95DurationMs := aggregates.p95 durations }

def agentSummary (backend : Backend) (outside : ℤ → Option (List Char)) (now : ℤ)
    (periodHours : Option ℕ) (projectId : ℤ) (filters : AgentFilters)
    (spans : List (StoredSpan Double)) : Option (AgentSummary Double) :=
  (summaryRows backend outside now periodHours projectId filters spans).map (summarise aggregates)

structure AgentTraceFilters where
  agent : Option String
  model : Option String
  tool : Option String
  errors : Bool

/-- `TRACE_HAVING`. -/
def traceHaving (trace : AgentTraceFilters) (rows : List (StoredSpan Double)) : Bool :=
  (trace.agent.all fun agent => rows.any fun span => span.row.genAi.agentName == some agent) &&
    (trace.model.all fun model => rows.any fun span =>
      span.row.genAi.responseModel.or span.row.genAi.requestModel == some model) &&
    (trace.tool.all fun tool => rows.any fun span => span.row.genAi.toolName == some tool) &&
    (!trace.errors || rows.any isFailing)

structure AgentTraceFigures (Double : Type) where
  traceId : String
  totalTokens : Double
  toolCallCount : ℕ
  llmCallCount : ℕ
  errorCount : ℕ
  deriving DecidableEq

/-- The traces of the list and how many they are, before they are ranked and cut into pages. -/
def agentTraces (backend : Backend) (outside : ℤ → Option (List Char)) (now : ℤ)
    (periodHours : Option ℕ) (projectId : ℤ) (filters : AgentFilters) (trace : AgentTraceFilters)
    (spans : List (StoredSpan Double)) : Option (List (AgentTraceFigures Double) × ℕ) :=
  (traceRows backend outside now periodHours projectId filters spans).map fun rows =>
    let groups := ((rows.filterMap (·.row.traceId)).dedup.map fun traceId =>
      (traceId, rows.filter fun span => span.row.traceId == some traceId)).filter
        fun group => traceHaving trace group.2
    (groups.map fun (traceId, rows) =>
      { traceId
        totalTokens := aggregates.sum (rows.map (tokens aggregates))
        toolCallCount := rows.countP (isOperation "tool")
        llmCallCount := rows.countP (isOperation "ai_client")
        errorCount := rows.countP isFailing },
      groups.length)

/-! ## The window -/

/-- An instant before the window by less than a second. -/
def IsClose (since start : ℤ) : Prop := start < since ∧ since < start + second

/-- The rows are the selected spans of the window, to the second. -/
structure Counts (selected : StoredSpan Double → Bool) (since : ℤ)
    (spans rows : List (StoredSpan Double)) : Prop where
  within : ∀ span ∈ spans, selected span = true → ∀ start, span.row.startTimestamp = some start →
    since ≤ start → span ∈ rows
  only : ∀ span ∈ rows, selected span = true ∧ ∃ start, span.row.startTimestamp = some start ∧
    since < start + second

/-- The AI spans of a window are counted on both backends, whatever `datetime` does with years
that it is not made for, and both say the same. -/
structure WindowExact (now : ℤ) (hours : ℕ) (projectId : ℤ) (filters : AgentFilters)
    (spans : List (StoredSpan Double)) : Prop where
  summary : ∀ backend outside, ∃ rows,
    summaryRows backend outside now (some hours) projectId filters spans = some rows ∧
      Counts (selects projectId filters) (now - hours * hour) spans rows
  traces : ∀ backend outside, ∃ rows,
    traceRows backend outside now (some hours) projectId filters spans = some rows ∧
      Counts (fun span => selects projectId filters span && span.row.traceId.isSome)
        (now - hours * hour) spans rows
  same : (∀ span ∈ spans, selects projectId filters span = true →
      ∀ start, span.row.startTimestamp = some start → ¬IsClose (now - hours * hour) start) →
    ∀ aggregates : Aggregates Double, ∀ outside,
      agentSummary aggregates .postgres outside now (some hours) projectId filters spans =
        agentSummary aggregates .sqlite outside now (some hours) projectId filters spans ∧
      ∀ trace,
        agentTraces aggregates .postgres outside now (some hours) projectId filters trace spans =
          agentTraces aggregates .sqlite outside now (some hours) projectId filters trace spans

/-! ## Postgres -/

variable {now since start : ℤ} {hours : ℕ} {outside : ℤ → Option (List Char)}
variable {projectId : ℤ} {filters : AgentFilters} {spans : List (StoredSpan Double)}
variable {span : StoredSpan Double}

theorem tdiv_bounds (a : ℤ) : a - 999 ≤ 1000 * a.tdiv 1000 ∧ 1000 * a.tdiv 1000 ≤ a + 999 := by
  have hdiv := Int.tmod_add_mul_tdiv a 1000
  have hlow := Int.tmod_lt_of_pos a (by decide : (0 : ℤ) < 1000)
  have hhigh := Int.lt_tmod_of_pos a (by decide : (0 : ℤ) < 1000)
  omega

/-- Microseconds tell the window to the second. -/
theorem postgres_admits (h : postgresSince now hours = some since) :
    (now - hours * hour ≤ start → since ≤ postgresMicros start) ∧
      (since ≤ postgresMicros start → now - hours * hour < start + second) := by
  simp only [postgresSince] at h
  split_ifs at h
  obtain rfl := Option.some.inj h
  have hbounds := tdiv_bounds (start - postgresEpoch)
  unfold postgresMicros hour second
  unfold postgresEpoch second at hbounds ⊢
  constructor
  · intro hstart
    omega
  · intro hsince
    omega

/-! ## SQLite -/

/-- The text of a span's start is not before that of the window just if its day is not. -/
theorem sqlite_admits_iff (h : FourDigits (dayOf since)) :
    ¬(rfc3339 start < dateText (dayOf since) ++ ' ' :: timeText (secondOfDay since)) ↔
      yearOfDay (dayOf start) ≤ 9999 ∧ dayOf since ≤ dayOf start := by
  by_cases hstart : FourDigits (dayOf start)
  · rw [rfc3339, dateText_append_lt_iff hstart h, List.cons_lt_cons_iff]
    have hspace : ¬('T' < ' ') := by decide
    have hne : 'T' ≠ ' ' := by decide
    simp only [hspace, hne, false_and, or_false, and_false, not_lt, hstart.2, true_and]
  · refine iff_of_false (not_not.mpr (dateText_append_lt_of_not_fourDigits hstart h _ _)) ?_
    rintro ⟨hyear, hday⟩
    have hmono := yearOfDay_mono hday
    exact hstart ⟨h.1.trans hmono, hyear⟩

/-! ## Which windows are exact -/

/-- The start of a span does not matter, or is told from the beginning of the window by its day,
which has a year of four digits. -/
def DayTells (since start : ℤ) : Prop :=
  IsClose since start ∨
    FourDigits (dayOf since) ∧ yearOfDay (dayOf start) ≤ 9999 ∧
      (start < since → dayOf start < dayOf since)

theorem dayOf_mono {a b : ℤ} (h : a ≤ b) : dayOf a ≤ dayOf b :=
  Int.ediv_le_ediv (by decide) h

theorem not_isClose_iff : ¬IsClose since start ↔ since ≤ start ∨ start + second ≤ since := by
  unfold IsClose
  omega

/-- A filter is right about a start, to the second. -/
structure RightAbout (admits : Option ℤ → Bool) (since start : ℤ) : Prop where
  within : since ≤ start → admits (some start) = true
  only : admits (some start) = true → since < start + second

theorem RightAbout.iff {admits : Option ℤ → Bool} (h : RightAbout admits since start)
    (hclose : ¬IsClose since start) : admits (some start) = true ↔ since ≤ start := by
  refine ⟨fun hadmits => ?_, h.within⟩
  have honly := h.only hadmits
  have hopen := not_isClose_iff.mp hclose
  omega

/-- The filter of SQLite. -/
def sqliteAdmits (outside : ℤ → Option (List Char)) (since : ℤ) (start : Option ℤ) : Bool :=
  (sqliteDatetime outside since).any fun text =>
    start.any fun instant => decide ¬(rfc3339 instant < text)

theorem sqliteAdmits_iff (h : FourDigits (dayOf since)) :
    sqliteAdmits outside since (some start) = true ↔
      yearOfDay (dayOf start) ≤ 9999 ∧ dayOf since ≤ dayOf start := by
  rw [sqliteAdmits, sqliteDatetime, if_pos h, Option.any_some, Option.any_some,
    decide_eq_true_eq, sqlite_admits_iff h]

/-- `datetime` may give anything for a year that it is not made for: a filter that is right
whatever it gives is asked about nothing. -/
theorem fourDigits_of_rightAbout
    (h : ∀ outside, RightAbout (sqliteAdmits outside since) since start)
    (hclose : ¬IsClose since start) : FourDigits (dayOf since) := by
  by_contra hfour
  rcases not_isClose_iff.mp hclose with hlate | hearly
  · have hnull := (h fun _ => none).within hlate
    rw [sqliteAdmits, sqliteDatetime, if_neg hfour] at hnull
    contradiction
  · have hempty : sqliteAdmits (fun _ => some []) since (some start) = true := by
      rw [sqliteAdmits, sqliteDatetime, if_neg hfour]
      exact decide_eq_true (List.nil_le _)
    have honly := (h fun _ => some []).only hempty
    omega

theorem rightAbout_sqlite_iff :
    (∀ outside, RightAbout (sqliteAdmits outside since) since start) ↔ DayTells since start := by
  by_cases hclose : IsClose since start
  · refine iff_of_true (fun outside => ⟨fun hlate => ?_, fun _ => hclose.2⟩) (.inl hclose)
    exact absurd hclose.1 (not_lt.mpr hlate)
  · constructor
    · intro h
      have hfour := fourDigits_of_rightAbout h hclose
      have hright := h fun _ => none
      rcases not_isClose_iff.mp hclose with hlate | hearly
      · have hadmits := (sqliteAdmits_iff hfour).mp (hright.within hlate)
        exact .inr ⟨hfour, hadmits.1, fun hlt => absurd hlt (not_lt.mpr hlate)⟩
      · have hyear : yearOfDay (dayOf start) ≤ 9999 := by
          have hle : start ≤ since := by
            unfold second at hearly
            omega
          exact (yearOfDay_mono (dayOf_mono hle)).trans hfour.2
        refine .inr ⟨hfour, hyear, fun _ => ?_⟩
        by_contra hday
        have honly := hright.only ((sqliteAdmits_iff hfour).mpr ⟨hyear, not_lt.mp hday⟩)
        omega
    · intro h outside
      obtain ⟨hfour, hyear, hday⟩ := h.resolve_left hclose
      have hadmits : sqliteAdmits outside since (some start) = true ↔ since ≤ start := by
        rw [sqliteAdmits_iff hfour, and_iff_right hyear]
        refine ⟨fun hle => ?_, dayOf_mono⟩
        by_contra hlt
        exact absurd (hday (not_le.mp hlt)) (not_lt.mpr hle)
      refine ⟨hadmits.mpr, fun h => ?_⟩
      have hlate := hadmits.mp h
      unfold second
      omega

/-! ## Rows -/

/-- The filter of the time is one for starts only. -/
theorem counts_filter_iff {selected : StoredSpan Double → Bool} {admits : Option ℤ → Bool}
    (hnull : admits none = false) :
    Counts selected since spans
        (spans.filter fun span => selected span && admits span.row.startTimestamp) ↔
      ∀ span ∈ spans, selected span = true → ∀ start, span.row.startTimestamp = some start →
        RightAbout admits since start := by
  constructor
  · intro h span hspan hselected start hstart
    constructor
    · intro hlate
      have hmem := (List.mem_filter.mp (h.within span hspan hselected start hstart hlate)).2
      rw [hselected, hstart] at hmem
      exact hmem
    · intro hadmits
      have hmem : span ∈ spans.filter fun span =>
          selected span && admits span.row.startTimestamp := by
        rw [List.mem_filter, hselected, hstart]
        exact ⟨hspan, hadmits⟩
      obtain ⟨-, start', hstart', honly⟩ := h.only span hmem
      obtain rfl := Option.some.inj (hstart.symm.trans hstart')
      exact honly
  · intro h
    constructor
    · intro span hspan hselected start hstart hlate
      rw [List.mem_filter, hselected, hstart]
      exact ⟨hspan, (h span hspan hselected start hstart).within hlate⟩
    · intro span hmem
      obtain ⟨hspan, hboth⟩ := List.mem_filter.mp hmem
      obtain ⟨hselected, hadmits⟩ := Bool.and_eq_true_iff.mp hboth
      cases hstart : span.row.startTimestamp with
      | none => simp [hstart, hnull] at hadmits
      | some start =>
          rw [hstart] at hadmits
          exact ⟨hselected, start, rfl, (h span hspan hselected start hstart).only hadmits⟩

/-- A filter of the time that is right about the spans that matter. -/
def FilterRight (backend : Backend) (outside : ℤ → Option (List Char)) (now : ℤ) (hours : ℕ)
    (selected : StoredSpan Double → Bool) (spans : List (StoredSpan Double)) : Prop :=
  ∃ admits, timeFilter backend outside now (some hours) = some admits ∧ admits none = false ∧
    ∀ span ∈ spans, selected span = true → ∀ start, span.row.startTimestamp = some start →
      RightAbout admits (now - hours * hour) start

theorem filterRight_postgres (h : (postgresSince now hours).isSome)
    (selected : StoredSpan Double → Bool) (spans : List (StoredSpan Double)) :
    FilterRight .postgres outside now hours selected spans := by
  obtain ⟨since, hsince⟩ := Option.isSome_iff_exists.mp h
  refine ⟨fun start => start.any fun instant => decide (since ≤ postgresMicros instant), ?_, rfl,
    fun span _ _ start _ => ⟨fun hlate => ?_, fun hadmits => ?_⟩⟩
  · rw [timeFilter, hsince]
    rfl
  · exact decide_eq_true ((postgres_admits hsince).1 hlate)
  · exact (postgres_admits hsince).2 (of_decide_eq_true hadmits)

theorem filterRight_sqlite {selected : StoredSpan Double → Bool}
    (h : ∀ span ∈ spans, selected span = true → ∀ start, span.row.startTimestamp = some start →
      DayTells (now - hours * hour) start) :
    FilterRight .sqlite outside now hours selected spans := by
  refine ⟨sqliteAdmits outside (now - hours * hour), rfl, ?_, ?_⟩
  · rw [sqliteAdmits]
    cases sqliteDatetime outside (now - hours * hour) <;> rfl
  · intro span hspan hselected start hstart
    exact rightAbout_sqlite_iff.mpr (h span hspan hselected start hstart) outside

theorem exists_summaryRows {backend : Backend}
    (h : FilterRight backend outside now hours (selects projectId filters) spans) :
    ∃ rows, summaryRows backend outside now (some hours) projectId filters spans = some rows ∧
      Counts (selects projectId filters) (now - hours * hour) spans rows := by
  obtain ⟨admits, hfilter, hnull, hright⟩ := h
  refine ⟨_, by rw [summaryRows, hfilter]; rfl, (counts_filter_iff hnull).mpr hright⟩

theorem exists_traceRows {backend : Backend}
    (h : FilterRight backend outside now hours (selects projectId filters) spans) :
    ∃ rows, traceRows backend outside now (some hours) projectId filters spans = some rows ∧
      Counts (fun span => selects projectId filters span && span.row.traceId.isSome)
        (now - hours * hour) spans rows := by
  obtain ⟨admits, hfilter, hnull, hright⟩ := h
  refine ⟨_, by rw [traceRows, hfilter]; rfl, (counts_filter_iff hnull).mpr ?_⟩
  intro span hspan hselected
  exact hright span hspan (Bool.and_eq_true_iff.mp hselected).1

/-- Two filters that are right keep the same rows, if no start is close. -/
theorem filter_eq_of_right {admits admits' : Option ℤ → Bool} {selected : StoredSpan Double → Bool}
    (hnull : admits none = false) (hnull' : admits' none = false)
    (h : ∀ span ∈ spans, selected span = true → ∀ start, span.row.startTimestamp = some start →
      RightAbout admits since start ∧ RightAbout admits' since start ∧ ¬IsClose since start) :
    (spans.filter fun span => selected span && admits span.row.startTimestamp) =
      spans.filter fun span => selected span && admits' span.row.startTimestamp := by
  apply List.filter_congr
  intro span hspan
  cases hselected : selected span with
  | false => rfl
  | true =>
      rw [Bool.true_and, Bool.true_and, Bool.eq_iff_iff]
      cases hstart : span.row.startTimestamp with
      | none => rw [hnull, hnull']
      | some start =>
          obtain ⟨hright, hright', hclose⟩ := h span hspan hselected start hstart
          rw [hright.iff hclose, hright'.iff hclose]

/-- The window is exact just if Postgres can tell its beginning, and the start of every AI span
is told from it by its day. -/
theorem windowExact_iff (now : ℤ) (hours : ℕ) (projectId : ℤ) (filters : AgentFilters)
    (spans : List (StoredSpan Double)) :
    WindowExact now hours projectId filters spans ↔
      (postgresSince now hours).isSome ∧
        ∀ span ∈ spans, selects projectId filters span = true →
          ∀ start, span.row.startTimestamp = some start →
            DayTells (now - hours * hour) start := by
  constructor
  · intro h
    constructor
    · obtain ⟨rows, hrows, -⟩ := h.summary .postgres fun _ => none
      rw [summaryRows, timeFilter, Option.map_map] at hrows
      cases hsince : postgresSince now hours with
      | none => simp [hsince] at hrows
      | some since => rfl
    · intro span hspan hselected start hstart
      apply rightAbout_sqlite_iff.mp
      intro outside
      obtain ⟨rows, hrows, hcounts⟩ := h.summary .sqlite outside
      have hnull : sqliteAdmits outside (now - hours * hour) none = false := by
        rw [sqliteAdmits]
        cases sqliteDatetime outside (now - hours * hour) <;> rfl
      obtain rfl := Option.some.inj hrows
      exact (counts_filter_iff hnull).mp hcounts span hspan hselected start hstart
  · rintro ⟨hsince, hday⟩
    have hright : ∀ backend outside,
        FilterRight backend outside now hours (selects projectId filters) spans := by
      intro backend outside
      cases backend with
      | postgres => exact filterRight_postgres hsince _ spans
      | sqlite => exact filterRight_sqlite hday
    refine ⟨fun backend outside => exists_summaryRows (hright backend outside),
      fun backend outside => exists_traceRows (hright backend outside), ?_⟩
    intro hclose aggregates outside
    obtain ⟨admits, hfilter, hnull, hadmits⟩ := hright .postgres outside
    obtain ⟨admits', hfilter', hnull', hadmits'⟩ := hright .sqlite outside
    have hboth : ∀ span ∈ spans, selects projectId filters span = true →
        ∀ start, span.row.startTimestamp = some start →
          RightAbout admits (now - hours * hour) start ∧
            RightAbout admits' (now - hours * hour) start ∧
            ¬IsClose (now - hours * hour) start :=
      fun span hspan hselected start hstart =>
        ⟨hadmits span hspan hselected start hstart, hadmits' span hspan hselected start hstart,
          hclose span hspan hselected start hstart⟩
    constructor
    · have hrows : summaryRows .postgres outside now (some hours) projectId filters spans =
          summaryRows .sqlite outside now (some hours) projectId filters spans := by
        rw [summaryRows, summaryRows, hfilter, hfilter', Option.map_some, Option.map_some,
          filter_eq_of_right hnull hnull' hboth]
      rw [agentSummary, agentSummary, hrows]
    · intro trace
      have htraces : ∀ span ∈ spans,
          (selects projectId filters span && span.row.traceId.isSome) = true →
          ∀ start, span.row.startTimestamp = some start →
            RightAbout admits (now - hours * hour) start ∧
              RightAbout admits' (now - hours * hour) start ∧
              ¬IsClose (now - hours * hour) start :=
        fun span hspan hselected => hboth span hspan (Bool.and_eq_true_iff.mp hselected).1
      have hrows : traceRows .postgres outside now (some hours) projectId filters spans =
          traceRows .sqlite outside now (some hours) projectId filters spans := by
        rw [traceRows, traceRows, hfilter, hfilter', Option.map_some, Option.map_some,
          filter_eq_of_right hnull hnull' htraces]
      rw [agentTraces, agentTraces, hrows]

/-- 21 July 2026, noon. -/
def julyNoon : ℤ := 1784635200 * second

/-- A tool call 28 hours before. -/
def earlyCall : StoredSpan ℤ where
  projectId := 1
  row := {
    transactionId := none
    spanId := none
    traceId := some "t"
    startTimestamp := some (julyNoon - 28 * hour)
    timestamp := none
    durationMs := none
    exclusiveTimeMs := none
    op := none
    genAi := { operationType := some "tool" }
    parentSpanId := none
    description := none
    status := none
    segmentId := none
    isSegment := true
    platform := none
    release := none
    environment := none
    tags := none
    data := .null }

/-- SQLite counts it as one of the last 24 hours, and Postgres does not. -/
theorem earlyCall_counted :
    ¬∀ (now : ℤ) (hours : ℕ) (projectId : ℤ) (filters : AgentFilters)
      (spans : List (StoredSpan ℤ)), 1 ≤ hours →
        WindowExact now hours projectId filters spans := by
  intro h
  obtain ⟨rows, hrows, hcounts⟩ :=
    (h julyNoon 24 1 ⟨none⟩ [earlyCall] (by decide)).summary .sqlite fun _ => none
  obtain rfl := Option.some.inj hrows
  have hkept : earlyCall ∈ [earlyCall].filter fun span => selects 1 ⟨none⟩ span &&
      sqliteAdmits (fun _ => none) (julyNoon - 24 * hour) span.row.startTimestamp :=
    List.mem_filter.mpr ⟨List.mem_singleton_self _, by decide +kernel⟩
  obtain ⟨-, start, hstart, honly⟩ := hcounts.only earlyCall hkept
  obtain rfl := Option.some.inj hstart
  exact absurd honly (by decide)

end Rustrak.Spans
