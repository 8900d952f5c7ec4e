import Rustrak.OAuth.Grants
import Rustrak.Transition.Run

/-!
# The tokens that were issued

Requests in any order: grants made, refreshed and revoked, users deleted, access tokens
presented.  `issued` is the history: which pair was handed out for which grant.

A token that was issued is the current one of its grant or among those the grant has
spent, or the grant is gone and its id with it.

* `Effect`: what a request can do to the tables and the history;
* `Effect.sound`, `Effect.held`, `Effect.retired`, `Effect.gone`: what it keeps.
-/

namespace Rustrak.OAuth

open Rustrak.Relational

variable {Digest : Type}

/-- A pair that was handed out. -/
structure Issue where
  grantId : Nat
  pair : TokenPair
  deriving DecidableEq

/-- A refresh that has read a grant, or none. -/
structure Reading (Digest : Type) where
  token : String
  clientId : String
  read : Option (Grant Digest)

structure World (Digest : Type) where
  tables : Tables Digest
  issued : List Issue
  refreshes : Nat → Option (Reading Digest)

def World.start : World Digest := ⟨⟨[], [], 0⟩, [], fun _ => none⟩

def World.request (w : World Digest) (r : Nat) (next : Option (Reading Digest)) : World Digest :=
  { w with refreshes := Function.update w.refreshes r next }

/-- The tokens of a pair are none of those handed out before. -/
def Fresh (issued : List Issue) (pair : TokenPair) : Prop :=
  (∀ i ∈ issued, i.pair.accessToken ≠ pair.accessToken) ∧
    ∀ i ∈ issued, i.pair.refreshToken ≠ pair.refreshToken

instance (issued : List Issue) (pair : TokenPair) : Decidable (Fresh issued pair) :=
  inferInstanceAs (Decidable (_ ∧ _))

inductive Label
  | expire (now : Int)
  | create (code : AuthorizationCode) (id : Nat) (secrets : Secrets) (now : Int)
  | read (request : Nat) (token clientId : String)
  /-- A refresh ends; the grant a pair was issued for is noted with it. -/
  | finish (request : Nat) (token : String) (now : Int) (secrets : Secrets) (later : Int)
      (outcome : Option Issue)
  /-- A refresh fails, or its client goes away. -/
  | abort (request : Nat)
  | authenticate (token resource : String) (now : Int) (user : Option Int)
  | revoke (userId : Int) (grantId : Nat)
  | deleteUser (userId : Int)

variable (hash : String → Digest) (parseUrl : ParseUrl)

inductive Step [DecidableEq Digest] : World Digest → Label → World Digest → Prop
  | expire (w : World Digest) (now : Int) :
      Step w (.expire now) { w with tables := deleteExpired w.tables now }
  | create {w : World Digest} {code : AuthorizationCode} {id : Nat} {secrets : Secrets}
      {now : Int} {tables : Tables Digest} {pair : TokenPair} : w.tables.nextId ≤ id →
      createGrant hash w.tables code id secrets now = some (tables, pair) →
      Fresh w.issued pair →
      Step w (.create code id secrets now)
        { w with tables, issued := w.issued ++ [⟨id, pair⟩] }
  | read {w : World Digest} {r : Nat} (token clientId : String) : w.refreshes r = none →
      Step w (.read r token clientId)
        (w.request r (some ⟨token, clientId, readGrant hash w.tables token⟩))
  | refused {w : World Digest} {r : Nat} {token clientId : String}
      {read : Option (Grant Digest)} {now later : Int} {secrets : Secrets}
      {tables : Tables Digest} : w.refreshes r = some ⟨token, clientId, read⟩ →
      finishRefresh hash w.tables read token clientId now secrets later = some (tables, none) →
      Step w (.finish r token now secrets later none) { w.request r none with tables }
  | rotated {w : World Digest} {r : Nat} {token clientId : String} {grant : Grant Digest}
      {now later : Int} {secrets : Secrets} {tables : Tables Digest} {pair : TokenPair} :
      w.refreshes r = some ⟨token, clientId, some grant⟩ →
      finishRefresh hash w.tables (some grant) token clientId now secrets later =
        some (tables, some pair) →
      Fresh w.issued pair →
      Step w (.finish r token now secrets later (some ⟨grant.id, pair⟩))
        { w.request r none with tables, issued := w.issued ++ [⟨grant.id, pair⟩] }
  | abort (w : World Digest) (r : Nat) :
      Step w (.abort r) (w.request r none)
  | authenticate (w : World Digest) (token resource : String) (now : Int) :
      Step w (.authenticate token resource now
        (authenticate hash parseUrl w.tables token resource now)) w
  | revoke {w : World Digest} {userId : Int} {grantId : Nat} {tables : Tables Digest} :
      revoke w.tables userId grantId = .ok tables →
      Step w (.revoke userId grantId) { w with tables }
  | deleteUser (w : World Digest) (userId : Int) :
      Step w (.deleteUser userId) { w with tables := deleteUser w.tables userId }

variable {hash parseUrl} {w w' : World Digest} {label : Label} {labels : List Label}
variable {t t' : Tables Digest} {issued issued' : List Issue} {token : String} {id : Nat}

/-! ## What a request can do -/

/-- A pair as `newPair` makes them. -/
def IsNew (pair : TokenPair) : Prop :=
  ∃ secrets now, pair = (newPair secrets now).1

/-- An access token is no refresh token. -/
theorem IsNew.access_ne_refresh {pair pair' : TokenPair} (h : IsNew pair) (h' : IsNew pair') :
    pair.accessToken ≠ pair'.refreshToken := by
  obtain ⟨secrets, now, rfl⟩ := h
  obtain ⟨secrets', now', rfl⟩ := h'
  intro heq
  have hchars := congrArg String.toList heq
  simp [newPair, accessPrefix, refreshPrefix] at hchars

variable (hash) in
/-- What a request can do to the tables, and to the history. -/
inductive Effect (t : Tables Digest) (issued : List Issue) : Tables Digest → List Issue → Prop
  | same : Effect t issued t issued
  | delete (p : Grant Digest → Bool) : Effect t issued (t.deleteGrants p) issued
  | insert (grant : Grant Digest) (pair : TokenPair) : t.nextId ≤ grant.id →
      grant.accessHash = hash pair.accessToken → grant.refreshHash = hash pair.refreshToken →
      IsNew pair → Fresh issued pair →
      Effect t issued { t with grants := t.grants ++ [grant], nextId := grant.id + 1 }
        (issued ++ [⟨grant.id, pair⟩])
  | rotate (grant : Grant Digest) (replace : Grant Digest → Grant Digest) (pair : TokenPair) :
      grant ∈ t.grants →
      (∀ g, (replace g).id = g.id ∧ (replace g).accessHash = hash pair.accessToken ∧
        (replace g).refreshHash = hash pair.refreshToken) →
      IsNew pair → Fresh issued pair →
      Effect t issued
        { t with
          grants := modify Grant.id grant.id replace t.grants
          spent := t.spent ++ [⟨grant.refreshHash, grant.id⟩] }
        (issued ++ [⟨grant.id, pair⟩])

/-! ## Whose token it is -/

variable (hash) in
/-- Every hash is that of a token issued for the grant it is stored with, and a spent one
is no longer current. -/
structure Sound (t : Tables Digest) (issued : List Issue) : Prop where
  ids : (t.grants.map Grant.id).Nodup
  allotted : ∀ g ∈ t.grants, g.id < t.nextId
  issuedBefore : ∀ i ∈ issued, i.grantId < t.nextId
  access : ∀ g ∈ t.grants, ∃ i ∈ issued, i.grantId = g.id ∧ g.accessHash = hash i.pair.accessToken
  refresh : ∀ g ∈ t.grants, ∃ i ∈ issued,
    i.grantId = g.id ∧ g.refreshHash = hash i.pair.refreshToken
  spent : ∀ s ∈ t.spent, ∃ i ∈ issued,
    i.grantId = s.grantId ∧ s.refreshHash = hash i.pair.refreshToken
  current : ∀ g ∈ t.grants, ∀ s ∈ t.spent, g.refreshHash ≠ s.refreshHash
  isNew : ∀ i ∈ issued, IsNew i.pair
  accessOnce : (issued.map fun i => i.pair.accessToken).Nodup
  refreshOnce : (issued.map fun i => i.pair.refreshToken).Nodup

theorem Sound.start : Sound hash ⟨[], [], 0⟩ [] := by
  constructor <;> simp

theorem mem_deleteGrants {p : Grant Digest → Bool} {g : Grant Digest} :
    g ∈ (t.deleteGrants p).grants ↔ g ∈ t.grants ∧ p g = false := by
  simp [Tables.deleteGrants]

/-- A grant that stays keeps its spent tokens. -/
theorem mem_spent_deleteGrants (hids : (t.grants.map Grant.id).Nodup)
    {p : Grant Digest → Bool} {g : Grant Digest} (hg : g ∈ (t.deleteGrants p).grants)
    {s : SpentToken Digest} (hs : s ∈ t.spent) (hof : s.grantId = g.id) :
    s ∈ (t.deleteGrants p).spent := by
  obtain ⟨hold, hkept⟩ := mem_deleteGrants.mp hg
  refine List.mem_filter.mpr ⟨hs, ?_⟩
  simp only [Bool.not_eq_true', List.any_eq_false, Bool.and_eq_true, decide_eq_true_eq, not_and]
  intro other hother hdeleted hid
  have hsame : other = g := List.inj_on_of_nodup_map hids hother hold (hid.trans hof)
  rw [hsame, hkept] at hdeleted
  exact Bool.false_ne_true hdeleted

namespace Sound

/-- Pairs with the same refresh token are one pair. -/
theorem issue_unique (h : Sound hash t issued) {i j : Issue} (hi : i ∈ issued) (hj : j ∈ issued)
    (htoken : i.pair.refreshToken = j.pair.refreshToken) : i = j :=
  List.inj_on_of_nodup_map h.refreshOnce hi hj htoken

theorem issue_unique_access (h : Sound hash t issued) {i j : Issue} (hi : i ∈ issued)
    (hj : j ∈ issued) (htoken : i.pair.accessToken = j.pair.accessToken) : i = j :=
  List.inj_on_of_nodup_map h.accessOnce hi hj htoken

variable (hhash : Function.Injective hash)
include hhash

/-- A token is current for the grant it was issued for, if for any. -/
theorem id_of_current (h : Sound hash t issued) {g : Grant Digest} (hg : g ∈ t.grants)
    {i : Issue} (hi : i ∈ issued) (hcurrent : g.refreshHash = hash i.pair.refreshToken) :
    i.grantId = g.id := by
  obtain ⟨j, hj, hid, hcurrent'⟩ := h.refresh g hg
  have htoken := hhash (hcurrent.symm.trans hcurrent')
  rw [h.issue_unique hi hj htoken, hid]

theorem id_of_spent (h : Sound hash t issued) {s : SpentToken Digest} (hs : s ∈ t.spent)
    {i : Issue} (hi : i ∈ issued) (hspent : s.refreshHash = hash i.pair.refreshToken) :
    i.grantId = s.grantId := by
  obtain ⟨j, hj, hid, hspent'⟩ := h.spent s hs
  have htoken := hhash (hspent.symm.trans hspent')
  rw [h.issue_unique hi hj htoken, hid]

/-- A fresh token is nothing that is stored. -/
theorem fresh_ne_spent (h : Sound hash t issued) {pair : TokenPair} (hfresh : Fresh issued pair)
    {s : SpentToken Digest} (hs : s ∈ t.spent) : hash pair.refreshToken ≠ s.refreshHash := by
  obtain ⟨i, hi, -, hspent⟩ := h.spent s hs
  rw [hspent]
  exact fun heq => hfresh.2 i hi (hhash heq).symm

theorem fresh_ne_current (h : Sound hash t issued) {pair : TokenPair}
    (hfresh : Fresh issued pair) {g : Grant Digest} (hg : g ∈ t.grants) :
    hash pair.refreshToken ≠ g.refreshHash := by
  obtain ⟨i, hi, -, hcurrent⟩ := h.refresh g hg
  rw [hcurrent]
  exact fun heq => hfresh.2 i hi (hhash heq).symm

end Sound

theorem IsNew.append {pair : TokenPair} (hnew : IsNew pair) (h : ∀ i ∈ issued, IsNew i.pair) :
    ∀ i ∈ issued ++ [Issue.mk id pair], IsNew i.pair := by
  intro i hi
  rcases List.mem_append.mp hi with hold | hlast
  · exact h i hold
  · rw [List.mem_singleton.mp hlast]
    exact hnew

theorem Fresh.nodup_access {pair : TokenPair} (hfresh : Fresh issued pair)
    (h : (issued.map fun i => i.pair.accessToken).Nodup) :
    ((issued ++ [Issue.mk id pair]).map fun i => i.pair.accessToken).Nodup := by
  have hfree : lookup (fun i : Issue => i.pair.accessToken) pair.accessToken issued = none :=
    lookup_eq_none_iff.mpr hfresh.1
  exact nodup_insert h hfree

theorem Fresh.nodup_refresh {pair : TokenPair} (hfresh : Fresh issued pair)
    (h : (issued.map fun i => i.pair.refreshToken).Nodup) :
    ((issued ++ [Issue.mk id pair]).map fun i => i.pair.refreshToken).Nodup := by
  have hfree : lookup (fun i : Issue => i.pair.refreshToken) pair.refreshToken issued = none :=
    lookup_eq_none_iff.mpr hfresh.2
  exact nodup_insert h hfree

/-- A row of a grant after a rotation: the one that was rotated, or another as it was. -/
theorem mem_rotated {grant g : Grant Digest} {replace : Grant Digest → Grant Digest}
    (hids : (t.grants.map Grant.id).Nodup) (hgrant : grant ∈ t.grants)
    (hg : g ∈ modify Grant.id grant.id replace t.grants) :
    g = replace grant ∨ g ∈ t.grants ∧ g.id ≠ grant.id := by
  obtain ⟨old, hold, hnew⟩ := mem_modify.mp hg
  split_ifs at hnew with hid
  · have hsame : old = grant := List.inj_on_of_nodup_map hids hold hgrant hid
    exact .inl (hsame ▸ hnew.symm)
  · exact .inr (hnew ▸ ⟨hold, hid⟩)

theorem Effect.sound (hhash : Function.Injective hash) (h : Effect hash t issued t' issued')
    (hs : Sound hash t issued) : Sound hash t' issued' := by
  have hmono : ∀ {P : Issue → Prop} {j : Issue}, (∃ i ∈ issued, P i) → ∃ i ∈ issued ++ [j], P i :=
    fun ⟨i, hi, hP⟩ => ⟨i, List.mem_append_left _ hi, hP⟩
  cases h with
  | same => exact hs
  | delete p =>
      exact
        { ids := hs.ids.sublist (List.filter_sublist.map _)
          allotted := fun g hg => hs.allotted g (mem_deleteGrants.mp hg).1
          issuedBefore := hs.issuedBefore
          access := fun g hg => hs.access g (mem_deleteGrants.mp hg).1
          refresh := fun g hg => hs.refresh g (mem_deleteGrants.mp hg).1
          spent := fun s hmem => hs.spent s (List.mem_of_mem_filter hmem)
          current := fun g hg s hmem =>
            hs.current g (mem_deleteGrants.mp hg).1 s (List.mem_of_mem_filter hmem)
          isNew := hs.isNew
          accessOnce := hs.accessOnce
          refreshOnce := hs.refreshOnce }
  | insert grant pair hid haccess hrefresh hnew hfresh =>
      have hgrown : ∀ {P : Grant Digest → Prop}, (∀ g ∈ t.grants, P g) → P grant →
          ∀ g ∈ t.grants ++ [grant], P g := by
        intro P hold hnew g hg
        rcases List.mem_append.mp hg with hg | hg
        · exact hold g hg
        · exact List.mem_singleton.mp hg ▸ hnew
      refine
        { ids := nodup_insert hs.ids (lookup_eq_none_iff.mpr fun g hg => ?_)
          allotted := hgrown (fun g hg => ?_) (Nat.lt_succ_self _)
          issuedBefore := fun i hi => ?_
          access := hgrown (fun g hg => hmono (hs.access g hg)) ⟨⟨grant.id, pair⟩, by simp, rfl, haccess⟩
          refresh :=
            hgrown (fun g hg => hmono (hs.refresh g hg)) ⟨⟨grant.id, pair⟩, by simp, rfl, hrefresh⟩
          spent := fun s hmem => hmono (hs.spent s hmem)
          current := hgrown hs.current fun s hmem => ?_
          isNew := hnew.append hs.isNew
          accessOnce := hfresh.nodup_access hs.accessOnce
          refreshOnce := hfresh.nodup_refresh hs.refreshOnce }
      · have hlt := hs.allotted g hg
        omega
      · have hlt := hs.allotted g hg
        show g.id < grant.id + 1
        omega
      · show i.grantId < grant.id + 1
        rcases List.mem_append.mp hi with hi | hi
        · have hlt := hs.issuedBefore i hi
          omega
        · rw [List.mem_singleton.mp hi]
          exact Nat.lt_succ_self _
      · rw [hrefresh]
        exact hs.fresh_ne_spent hhash hfresh hmem
  | rotate grant replace pair hgrant hreplace hnew hfresh =>
      have hkey : ∀ g, (replace g).id = g.id := fun g => (hreplace g).1
      refine
        { ids := by rw [map_key_modify hkey]; exact hs.ids
          allotted := fun g hg => ?_
          issuedBefore := fun i hi => ?_
          access := fun g hg => ?_
          refresh := fun g hg => ?_
          spent := fun s hmem => ?_
          current := fun g hg s hmem => ?_
          isNew := hnew.append hs.isNew
          accessOnce := hfresh.nodup_access hs.accessOnce
          refreshOnce := hfresh.nodup_refresh hs.refreshOnce }
      · rcases mem_rotated hs.ids hgrant hg with rfl | ⟨hold, -⟩
        · rw [hkey]
          exact hs.allotted grant hgrant
        · exact hs.allotted g hold
      · rcases List.mem_append.mp hi with hi | hi
        · exact hs.issuedBefore i hi
        · rw [List.mem_singleton.mp hi]
          exact hs.allotted grant hgrant
      · rcases mem_rotated hs.ids hgrant hg with rfl | ⟨hold, -⟩
        · exact ⟨⟨grant.id, pair⟩, by simp, (hkey grant).symm, (hreplace grant).2.1⟩
        · exact hmono (hs.access g hold)
      · rcases mem_rotated hs.ids hgrant hg with rfl | ⟨hold, -⟩
        · exact ⟨⟨grant.id, pair⟩, by simp, (hkey grant).symm, (hreplace grant).2.2⟩
        · exact hmono (hs.refresh g hold)
      · rcases List.mem_append.mp hmem with hold | hnew
        · exact hmono (hs.spent s hold)
        · rw [List.mem_singleton.mp hnew]
          exact hmono (hs.refresh grant hgrant)
      · rcases mem_rotated hs.ids hgrant hg with rfl | ⟨hold, hne⟩ <;>
          rcases List.mem_append.mp hmem with hspent | hnew
        · rw [(hreplace grant).2.2]
          exact hs.fresh_ne_spent hhash hfresh hspent
        · rw [(hreplace grant).2.2, List.mem_singleton.mp hnew]
          exact hs.fresh_ne_current hhash hfresh hgrant
        · exact hs.current g hold s hspent
        · rw [List.mem_singleton.mp hnew]
          obtain ⟨i, hi, hid, hcurrent⟩ := hs.refresh grant hgrant
          intro heq
          have hsame := hs.id_of_current hhash hold hi (heq.trans hcurrent)
          exact hne (hsame.symm.trans hid)

/-! ## A token's life -/

variable (hash t issued) in
/-- A grant's token, current or spent. -/
structure Held (token : String) (id : Nat) : Prop where
  issued : ∃ i ∈ issued, i.grantId = id ∧ i.pair.refreshToken = token
  known : ∀ g ∈ t.grants, g.id = id → g.refreshHash = hash token ∨ ⟨hash token, id⟩ ∈ t.spent

variable (hash t issued) in
/-- A token that was issued and is no longer current. -/
structure Retired (token : String) : Prop where
  issued : ∃ i ∈ issued, i.pair.refreshToken = token
  notCurrent : ∀ g ∈ t.grants, g.refreshHash ≠ hash token

variable (t) in
/-- The id of a grant that is no more. -/
structure Gone (id : Nat) : Prop where
  allotted : id < t.nextId
  absent : ∀ g ∈ t.grants, g.id ≠ id

theorem Effect.issued_sublist (h : Effect hash t issued t' issued') : issued.Sublist issued' := by
  cases h with
  | same => exact .refl _
  | delete p => exact .refl _
  | insert => exact List.sublist_append_left _ _
  | rotate => exact List.sublist_append_left _ _

theorem Effect.held (h : Effect hash t issued t' issued') (hs : Sound hash t issued)
    (hheld : Held hash t issued token id) : Held hash t' issued' token id := by
  obtain ⟨⟨i, hi, hof, htoken⟩, hknown⟩ := hheld
  refine ⟨⟨i, h.issued_sublist.subset hi, hof, htoken⟩, fun g hg hid => ?_⟩
  cases h with
  | same => exact hknown g hg hid
  | delete p =>
      have hold := (mem_deleteGrants.mp hg).1
      exact (hknown g hold hid).imp_right fun hmem =>
        mem_spent_deleteGrants hs.ids hg hmem hid.symm
  | insert grant pair hnext haccess hrefresh hnew hfresh =>
      rcases List.mem_append.mp hg with hold | hlast
      · exact hknown g hold hid
      · -- An id that has had a token is none that a new grant gets.
        have hlt := hs.issuedBefore i hi
        rw [List.mem_singleton.mp hlast] at hid
        omega
  | rotate grant replace pair hgrant hreplace hnew hfresh =>
      rcases mem_rotated hs.ids hgrant hg with rfl | ⟨hold, hne⟩
      · rw [(hreplace grant).1] at hid
        subst hid
        refine .inr ?_
        rcases hknown grant hgrant rfl with hcurrent | hspent
        · rw [hcurrent]
          exact List.mem_append_right _ (List.mem_singleton_self _)
        · exact List.mem_append_left _ hspent
      · exact (hknown g hold hid).imp_right (List.mem_append_left _)

theorem Effect.retired (h : Effect hash t issued t' issued') (hhash : Function.Injective hash)
    (hs : Sound hash t issued) (hretired : Retired hash t issued token) :
    Retired hash t' issued' token := by
  obtain ⟨⟨i, hi, rfl⟩, hnot⟩ := hretired
  refine ⟨⟨i, h.issued_sublist.subset hi, rfl⟩, fun g hg => ?_⟩
  cases h with
  | same => exact hnot g hg
  | delete p => exact hnot g (mem_deleteGrants.mp hg).1
  | insert grant pair hnext haccess hrefresh hnew hfresh =>
      rcases List.mem_append.mp hg with hold | hlast
      · exact hnot g hold
      · rw [List.mem_singleton.mp hlast, hrefresh]
        exact fun heq => hfresh.2 i hi (hhash heq).symm
  | rotate grant replace pair hgrant hreplace hnew hfresh =>
      rcases mem_rotated hs.ids hgrant hg with rfl | ⟨hold, -⟩
      · rw [(hreplace grant).2.2]
        exact fun heq => hfresh.2 i hi (hhash heq).symm
      · exact hnot g hold

theorem Effect.gone (h : Effect hash t issued t' issued') (hs : Sound hash t issued)
    (hgone : Gone t id) : Gone t' id := by
  obtain ⟨hallotted, habsent⟩ := hgone
  cases h with
  | same => exact ⟨hallotted, habsent⟩
  | delete p => exact ⟨hallotted, fun g hg => habsent g (mem_deleteGrants.mp hg).1⟩
  | insert grant pair hnext haccess hrefresh hnew hfresh =>
      refine ⟨?_, fun g hg => ?_⟩
      · show id < grant.id + 1
        omega
      · rcases List.mem_append.mp hg with hold | hlast
        · exact habsent g hold
        · rw [List.mem_singleton.mp hlast]
          omega
  | rotate grant replace pair hgrant hreplace hnew hfresh =>
      refine ⟨hallotted, fun g hg => ?_⟩
      rcases mem_rotated hs.ids hgrant hg with rfl | ⟨hold, -⟩
      · rw [(hreplace grant).1]
        exact habsent grant hgrant
      · exact habsent g hold

/-- A grant whose token was spent has had it for itself. -/
theorem Sound.held_of_spent (h : Sound hash t issued) (hhash : Function.Injective hash)
    (hspent : ⟨hash token, id⟩ ∈ t.spent) :
    Held hash t issued token id ∧ Retired hash t issued token := by
  obtain ⟨i, hi, hof, htoken⟩ := h.spent _ hspent
  have htoken' : i.pair.refreshToken = token := (hhash htoken).symm
  refine ⟨⟨⟨i, hi, hof, htoken'⟩, fun g hg hid => .inr hspent⟩, ⟨⟨i, hi, htoken'⟩, ?_⟩⟩
  exact fun g hg => h.current g hg _ hspent

end Rustrak.OAuth
