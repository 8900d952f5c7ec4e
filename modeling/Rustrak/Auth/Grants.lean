import Mathlib.Data.Finset.Basic
import Mathlib.Tactic.Common

/-!
# The permission catalog and grants

The catalog of `auth/rbac.rs`: what a permission can name (`Resource`), the
actions each resource accepts and whether it belongs to the workspace or to one
project.  `Grants` is a set of `(resource, action)` pairs, or everything.

A `Grants` value is only ever built by `Grants.everything`, `Grants.of` and
`Grants.add`, so it never holds a pair the catalog rejects; the field `accepted`
records that.  In particular no grant holds `(project, read)`: seeing a project
is implied by any permission on it, never granted.
-/

namespace Rustrak.Auth

/-- Whether a resource belongs to the workspace or to one project. -/
inductive Scope
  | instanceWide
  | project
  deriving DecidableEq, Repr

/-- Something a grant can allow. -/
inductive Action
  | read
  | create
  | update
  | delete
  deriving DecidableEq, Repr

def Action.all : List Action := [.read, .create, .update, .delete]

def Action.key : Action → String
  | .read => "read"
  | .create => "create"
  | .update => "update"
  | .delete => "delete"

def Action.parse (s : String) : Option Action :=
  Action.all.find? fun a => a.key == s

/-- Every resource a permission can name. -/
inductive Resource
  | projects | users | invitations | roles | apiTokens
  | integrations | githubApp | storage | mcp | telemetry
  | issues | performance | logs | sessions
  | releases | sourceMaps | alertRules | monitors
  | project | clientKeys | projectMembers | projectGithub
  deriving DecidableEq, Repr

namespace Resource

def all : List Resource :=
  [.projects, .users, .invitations, .roles, .apiTokens, .integrations, .githubApp, .storage, .mcp,
    .telemetry, .issues, .performance, .logs, .sessions, .releases, .sourceMaps, .alertRules,
    .monitors, .project, .clientKeys, .projectMembers, .projectGithub]

/-- Stable key, stored in the database. -/
def key : Resource → String
  | .projects => "projects"
  | .users => "users"
  | .invitations => "invitations"
  | .roles => "roles"
  | .apiTokens => "api-tokens"
  | .integrations => "integrations"
  | .githubApp => "github-app"
  | .storage => "storage"
  | .mcp => "mcp"
  | .telemetry => "telemetry"
  | .issues => "issues"
  | .performance => "performance"
  | .logs => "logs"
  | .sessions => "sessions"
  | .releases => "releases"
  | .sourceMaps => "source-maps"
  | .alertRules => "alert-rules"
  | .monitors => "monitors"
  | .project => "project"
  | .clientKeys => "client-keys"
  | .projectMembers => "project-members"
  | .projectGithub => "project-github"

def scope : Resource → Scope
  | .projects | .users | .invitations | .roles | .apiTokens | .integrations | .githubApp
  | .storage | .mcp | .telemetry => .instanceWide
  | .issues | .performance | .logs | .sessions | .releases | .sourceMaps | .alertRules
  | .monitors | .project | .clientKeys | .projectMembers | .projectGithub => .project

/-- The actions that mean something for this resource. -/
def actions : Resource → List Action
  | .projects => [.create]
  | .users => [.read, .update, .delete]
  | .invitations => [.read, .create, .delete]
  | .roles => [.read, .create, .update, .delete]
  | .apiTokens => [.read, .create, .delete]
  | .integrations => [.read, .create, .update, .delete]
  | .githubApp => [.read, .update]
  | .storage => [.read, .update, .delete]
  | .mcp => [.update]
  | .telemetry => [.read]
  | .issues => [.read, .update, .delete]
  | .performance => [.read]
  | .logs => [.read]
  | .sessions => [.read]
  | .releases => [.read, .create, .update]
  | .sourceMaps => [.read, .create]
  | .alertRules => [.read, .create, .update, .delete]
  | .monitors => [.read, .create, .update, .delete]
  | .project => [.update, .delete]
  | .clientKeys => [.read]
  | .projectMembers => [.read, .update]
  | .projectGithub => [.read, .update]

def parse (s : String) : Option Resource :=
  all.find? fun r => r.key == s

def accepts (r : Resource) (a : Action) : Bool :=
  r.actions.contains a

end Resource

abbrev Pair := Resource × Action

/-- Every permission there is, in the order of the catalog. -/
def catalogPairs : List Pair :=
  Resource.all.flatMap fun r => r.actions.map fun a => (r, a)

theorem mem_catalogPairs {r : Resource} {a : Action} :
    (r, a) ∈ catalogPairs ↔ r.accepts a = true := by
  cases r <;> cases a <;> decide

theorem Resource.parse_key (r : Resource) : Resource.parse r.key = some r := by
  cases r <;> decide

theorem Action.parse_key (a : Action) : Action.parse a.key = some a := by
  cases a <;> decide

/-! ## Grants -/

/-- The grants of one role (or one token). -/
structure Grants where
  all : Bool
  pairs : Finset Pair
  accepted : ∀ p ∈ pairs, p.1.accepts p.2 = true
  deriving DecidableEq

namespace Grants

/-- `Grants::default()`: nothing. -/
def none : Grants := ⟨false, ∅, by simp⟩

/-- `Grants::all()`: everything, including resources added to the catalog later. -/
def everything : Grants := ⟨true, ∅, by simp⟩

/-- These pairs, minus any action the resource does not accept. -/
def of (pairs : List Pair) : Grants :=
  ⟨false, (pairs.filter fun p => p.1.accepts p.2).toFinset, by simp⟩

/-- `Grants::pairs()`: the pairs in their order, which is the catalog's. -/
def pairList (g : Grants) : List Pair :=
  catalogPairs.filter fun p => decide (p ∈ g.pairs)

/-- Writing a resource implies reading it.  Not for API tokens, where reading is
everyone's and creating is your own. -/
def allows (g : Grants) (r : Resource) (a : Action) : Bool :=
  g.all || decide ((r, a) ∈ g.pairs) ||
    (a == .read && r != .apiTokens && decide (∃ p ∈ g.pairs, p.1 = r))

def anyProjectGrant (g : Grants) : Bool :=
  g.all || decide (∃ p ∈ g.pairs, p.1.scope = .project)

/-- Whether both hold some project permission in common. -/
def sharesProjectGrant (g other : Grants) : Bool :=
  catalogPairs.any fun p => p.1.scope == .project && g.allows p.1 p.2 && other.allows p.1 p.2

def add (g other : Grants) : Grants :=
  ⟨g.all || other.all, g.pairs ∪ other.pairs, fun p hp =>
    (Finset.mem_union.mp hp).elim (g.accepted p) (other.accepted p)⟩

/-- What one pair allows: itself, and reading the resource it writes. -/
def Implies (p : Pair) (r : Resource) (a : Action) : Prop :=
  p = (r, a) ∨ (a = .read ∧ r ≠ .apiTokens ∧ p.1 = r)

instance (p : Pair) (r : Resource) (a : Action) : Decidable (Implies p r a) :=
  inferInstanceAs (Decidable (_ ∨ _))

theorem Implies.resource_eq {p : Pair} {r : Resource} {a : Action} (h : Implies p r a) :
    p.1 = r := by
  rcases h with rfl | ⟨_, _, h⟩
  · rfl
  · exact h

/-- What a pair allows, another pair that allows it allows too. -/
theorem Implies.trans {p : Pair} {r : Resource} {a b : Action} (hp : Implies p r a)
    (h : Implies (r, a) r b) : Implies p r b := by
  rcases h with h | ⟨hread, htokens, _⟩
  · rwa [← (Prod.mk.inj h).2]
  · exact .inr ⟨hread, htokens, hp.resource_eq⟩

theorem allows_iff {g : Grants} {r : Resource} {a : Action} :
    g.allows r a = true ↔ g.all = true ∨ ∃ p ∈ g.pairs, Implies p r a := by
  simp only [allows, Implies, Bool.or_eq_true, Bool.and_eq_true, decide_eq_true_eq, beq_iff_eq,
    bne_iff_ne, ne_eq, or_assoc]
  constructor
  · rintro (h | h | ⟨⟨hread, htokens⟩, p, hp, hres⟩)
    · exact .inl h
    · exact .inr ⟨_, h, .inl rfl⟩
    · exact .inr ⟨p, hp, .inr ⟨hread, htokens, hres⟩⟩
  · rintro (h | ⟨p, hp, rfl | ⟨hread, htokens, hres⟩⟩)
    · exact .inl h
    · exact .inr (.inl hp)
    · exact .inr (.inr ⟨⟨hread, htokens⟩, p, hp, hres⟩)

theorem anyProjectGrant_iff {g : Grants} :
    g.anyProjectGrant = true ↔ g.all = true ∨ ∃ p ∈ g.pairs, p.1.scope = .project := by
  simp [anyProjectGrant]

@[simp] theorem all_none : none.all = false := rfl
@[simp] theorem pairs_none : none.pairs = ∅ := rfl
@[simp] theorem all_of (pairs : List Pair) : (of pairs).all = false := rfl
@[simp] theorem all_add (g h : Grants) : (g.add h).all = (g.all || h.all) := rfl
@[simp] theorem pairs_add (g h : Grants) : (g.add h).pairs = g.pairs ∪ h.pairs := rfl

@[simp] theorem mem_pairs_of {pairs : List Pair} {p : Pair} :
    p ∈ (of pairs).pairs ↔ p ∈ pairs ∧ p.1.accepts p.2 = true := by
  simp [of]

theorem mem_pairList {g : Grants} {p : Pair} : p ∈ g.pairList ↔ p ∈ g.pairs := by
  simp only [pairList, List.mem_filter, decide_eq_true_eq, and_iff_right_iff_imp]
  exact fun hp => mem_catalogPairs.mpr (g.accepted p hp)

theorem allows_add {g h : Grants} {r : Resource} {a : Action} :
    (g.add h).allows r a = true ↔ g.allows r a = true ∨ h.allows r a = true := by
  simp only [allows_iff, all_add, pairs_add, Bool.or_eq_true, Finset.mem_union, or_and_right,
    exists_or]
  exact or_or_or_comm

theorem anyProjectGrant_add {g h : Grants} :
    (g.add h).anyProjectGrant = true ↔
      g.anyProjectGrant = true ∨ h.anyProjectGrant = true := by
  simp only [anyProjectGrant_iff, all_add, pairs_add, Bool.or_eq_true, Finset.mem_union,
    or_and_right, exists_or]
  exact or_or_or_comm

/-- Any project grant allows some project pair of the catalog. -/
theorem anyProjectGrant_iff_allows {g : Grants} :
    g.anyProjectGrant = true ↔
      ∃ p ∈ catalogPairs, p.1.scope = .project ∧ g.allows p.1 p.2 = true := by
  rw [anyProjectGrant_iff]
  constructor
  · rintro (hall | ⟨p, hp, hscope⟩)
    · exact ⟨(.issues, .read), by decide, rfl, allows_iff.mpr (.inl hall)⟩
    · have hmem : p ∈ catalogPairs := mem_catalogPairs.mpr (g.accepted p hp)
      exact ⟨p, hmem, hscope, allows_iff.mpr (.inr ⟨p, hp, .inl rfl⟩)⟩
  · rintro ⟨p, _, hscope, hallows⟩
    rcases allows_iff.mp hallows with hall | ⟨q, hq, himplies⟩
    · exact .inl hall
    · exact .inr ⟨q, hq, by rw [himplies.resource_eq]; exact hscope⟩

theorem sharesProjectGrant_iff {g other : Grants} :
    g.sharesProjectGrant other = true ↔
      ∃ p ∈ catalogPairs, p.1.scope = .project ∧ g.allows p.1 p.2 = true ∧
        other.allows p.1 p.2 = true := by
  simp only [sharesProjectGrant, List.any_eq_true, Bool.and_eq_true, beq_iff_eq, and_assoc]

end Grants

end Rustrak.Auth
