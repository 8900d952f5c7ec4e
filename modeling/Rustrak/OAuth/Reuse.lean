import Rustrak.OAuth.Tokens

/-!
# A refresh token works once

A spent token is recognised however long ago it was rotated away, and what is recognised takes
the grant along, and every token that was issued for it.

* `Step.effect`: a request does no more than an `Effect`;
* `refresh_tokens`: the three of a token's first, second and unknown presentation.
-/

namespace Rustrak.OAuth

open Rustrak.Relational Rustrak.Transition

variable {Digest : Type} {hash : String → Digest} {parseUrl : ParseUrl} {w w' : World Digest}
  {label : Label} {labels : List Label} {t t' : Tables Digest} {issued issued' : List Issue}
  {token : String} {id : Nat}

/-! ## What a request does -/

variable [DecidableEq Digest]

/-- A refresh that returns no pair deletes a grant or does nothing. -/
theorem finishRefresh_none {read : Option (Grant Digest)} {clientId : String} {now later : Int}
    {secrets : Secrets}
    (h : finishRefresh hash t read token clientId now secrets later = some (t', none)) :
    t' = t ∨ ∃ id, t' = t.deleteGrants (·.id = id) := by
  unfold finishRefresh at h
  cases read with
  | none =>
      cases hspent : lookup SpentToken.refreshHash (hash token) t.spent with
      | none =>
          simp only [hspent, Option.some.injEq, Prod.mk.injEq, and_true] at h
          exact .inl h.symm
      | some s =>
          simp only [hspent, Option.some.injEq, Prod.mk.injEq, and_true] at h
          exact .inr ⟨s.grantId, h.symm⟩
  | some grant =>
      simp only at h
      split_ifs at h with hrefused hrotated
      · simp only [Option.some.injEq, Prod.mk.injEq, and_true] at h
        exact .inl h.symm
      · simp only [Option.some.injEq, Prod.mk.injEq, and_true] at h
        exact .inr ⟨grant.id, h.symm⟩
      · simp at h

/-- A refresh that returns a pair has found its token current, and rotates it. -/
theorem finishRefresh_some {grant : Grant Digest} {clientId : String} {now later : Int}
    {secrets : Secrets} {pair : TokenPair}
    (h : finishRefresh hash t (some grant) token clientId now secrets later =
      some (t', some pair)) :
    (∃ g ∈ t.grants, g.id = grant.id ∧ g.refreshHash = hash token) ∧
      rotate hash t grant.id (hash token) secrets later = some (t', pair) := by
  unfold finishRefresh at h
  simp only at h
  split_ifs at h with hrefused hrotated
  · simp at h
  · simp at h
  · refine ⟨?_, by simpa using h⟩
    have hone : (t.grants.countP fun g => g.id = grant.id ∧ g.refreshHash = hash token) = 1 :=
      not_not.mp hrotated
    have hpos : 0 < t.grants.countP fun g => g.id = grant.id ∧ g.refreshHash = hash token := by
      rw [hone]
      exact Nat.one_pos
    obtain ⟨g, hg, hfound⟩ := List.countP_pos_iff.mp hpos
    exact ⟨g, hg, by simpa using hfound⟩

theorem rotate_effect {grant : Grant Digest} {old : Digest} {secrets : Secrets} {now : Int}
    {pair : TokenPair} (h : rotate hash t grant.id old secrets now = some (t', pair))
    (hgrant : grant ∈ t.grants) (hold : grant.refreshHash = old) (hfresh : Fresh issued pair) :
    Effect hash t issued t' (issued ++ [⟨grant.id, pair⟩]) := by
  subst hold
  unfold rotate at h
  simp only at h
  split_ifs at h with hclash
  simp only [Option.some.injEq, Prod.mk.injEq] at h
  obtain ⟨rfl, rfl⟩ := h
  exact .rotate grant _ _ hgrant (fun g => ⟨rfl, rfl, rfl⟩) ⟨secrets, now, rfl⟩ hfresh

theorem createGrant_effect {code : AuthorizationCode} {secrets : Secrets} {now : Int}
    {pair : TokenPair} (h : createGrant hash t code id secrets now = some (t', pair))
    (hid : t.nextId ≤ id) (hfresh : Fresh issued pair) :
    Effect hash t issued t' (issued ++ [⟨id, pair⟩]) := by
  unfold createGrant at h
  simp only at h
  split_ifs at h with hclash
  simp only [Option.some.injEq, Prod.mk.injEq] at h
  obtain ⟨rfl, rfl⟩ := h
  exact .insert _ _ hid rfl rfl ⟨secrets, now, rfl⟩ hfresh

theorem Step.effect (h : Step hash parseUrl w label w') :
    Effect hash w.tables w.issued w'.tables w'.issued := by
  cases h with
  | expire now => exact .delete _
  | create hid hcreate hfresh => exact createGrant_effect hcreate hid hfresh
  | read token clientId hidle => exact .same
  | refused hreading hfinish =>
      rcases finishRefresh_none hfinish with rfl | ⟨id, rfl⟩
      · exact .same
      · exact .delete _
  | rotated hreading hfinish hfresh =>
      obtain ⟨⟨g, hg, hid, hcurrent⟩, hrotate⟩ := finishRefresh_some hfinish
      rw [← hid] at hrotate ⊢
      exact rotate_effect hrotate hg hcurrent hfresh
  | abort r => exact .same
  | authenticate token resource now => exact .same
  | @revoke userId grantId tables hrevoke =>
      unfold OAuth.revoke at hrevoke
      split_ifs at hrevoke with hany
      rw [← Except.ok.inj hrevoke]
      exact .delete _
  | deleteUser userId => exact .delete _

/-! ## Whole runs -/

variable (hash) in
structure Consistent (w : World Digest) : Prop where
  sound : Sound hash w.tables w.issued
  held : ∀ r reading grant, w.refreshes r = some reading → reading.read = some grant →
    Held hash w.tables w.issued reading.token grant.id

omit [DecidableEq Digest] in
theorem Consistent.start : Consistent hash (.start : World Digest) where
  sound := .start
  held := by simp [World.start]

/-- A reading was there before, or is what the step has read. -/
theorem Step.refreshes (h : Step hash parseUrl w label w') {r : Nat} {reading : Reading Digest}
    (hreading : w'.refreshes r = some reading) :
    w.refreshes r = some reading ∨
      reading.read = readGrant hash w.tables reading.token ∧ w'.tables = w.tables ∧
        w'.issued = w.issued := by
  cases h with
  | expire now => exact .inl hreading
  | create hid hcreate hfresh => exact .inl hreading
  | @read r' token clientId hidle =>
      by_cases hr : r = r'
      · subst hr
        have hsame : reading = ⟨token, clientId, readGrant hash w.tables token⟩ := by
          simpa [World.request, eq_comm] using hreading
        subst hsame
        exact .inr ⟨rfl, rfl, rfl⟩
      · exact .inl (by simpa [World.request, hr] using hreading)
  | @refused r' token clientId read now later secrets tables hreading' hfinish =>
      by_cases hr : r = r'
      · simp [World.request, hr] at hreading
      · exact .inl (by simpa [World.request, hr] using hreading)
  | @rotated r' token clientId grant now later secrets tables pair hreading' hfinish hfresh =>
      by_cases hr : r = r'
      · simp [World.request, hr] at hreading
      · exact .inl (by simpa [World.request, hr] using hreading)
  | abort r' =>
      by_cases hr : r = r'
      · simp [World.request, hr] at hreading
      · exact .inl (by simpa [World.request, hr] using hreading)
  | authenticate token resource now => exact .inl hreading
  | revoke hrevoke => exact .inl hreading
  | deleteUser userId => exact .inl hreading

/-- The grant that was read had the token for its own. -/
theorem Sound.held_of_read (h : Sound hash t issued) (hhash : Function.Injective hash)
    {grant : Grant Digest} (hread : readGrant hash t token = some grant) :
    Held hash t issued token grant.id := by
  have hgrant := mem_of_lookup hread
  have hcurrent : grant.refreshHash = hash token := key_of_lookup hread
  obtain ⟨i, hi, hof, htoken⟩ := h.refresh grant hgrant
  refine ⟨⟨i, hi, hof, (hhash (hcurrent.symm.trans htoken)).symm⟩, fun g hg hid => .inl ?_⟩
  rw [List.inj_on_of_nodup_map h.ids hg hgrant hid, hcurrent]

theorem Consistent.step (hhash : Function.Injective hash) (h : Consistent hash w)
    (hstep : Step hash parseUrl w label w') : Consistent hash w' where
  sound := hstep.effect.sound hhash h.sound
  held := by
    intro r reading grant hreading hread
    rcases hstep.refreshes hreading with hold | ⟨hnew, htables, hissued⟩
    · exact hstep.effect.held h.sound (h.held r reading grant hold hread)
    · rw [htables, hissued]
      exact h.sound.held_of_read hhash (hnew.symm.trans hread)

theorem Consistent.run (hhash : Function.Injective hash) (h : Consistent hash w)
    (hrun : Run (Step hash parseUrl) w labels w') : Consistent hash w' :=
  hrun.invariant (Consistent hash) (fun _ _ _ hs hstep => hs.step hhash hstep) h

/-- A refresh that yields a pair for a token. -/
def Label.yields (token : String) : Label → Bool
  | .finish _ presented _ _ _ (some _) => presented = token
  | .finish _ _ _ _ _ none | .expire _ | .create _ _ _ _ | .read _ _ _ | .abort _
  | .authenticate _ _ _ _ | .revoke _ _ | .deleteUser _ => false

/-- A token authenticates, or refreshes. -/
def Label.accepts (token : String) : Label → Bool
  | .finish _ presented _ _ _ (some _) => presented = token
  | .authenticate presented _ _ (some _) => presented = token
  | .finish _ _ _ _ _ none | .authenticate _ _ _ none | .expire _ | .create _ _ _ _
  | .read _ _ _ | .abort _ | .revoke _ _ | .deleteUser _ => false

/-- A token is presented. -/
def Label.presents (token : String) : Label → Bool
  | .read _ presented _ | .finish _ presented _ _ _ _ | .authenticate presented _ _ _ =>
      presented = token
  | .expire _ | .create _ _ _ _ | .abort _ | .revoke _ _ | .deleteUser _ => false

/-- What a refresh that yields a pair has found, and what it leaves. -/
theorem Step.finish_some {r : Nat} {now later : Int} {secrets : Secrets} {issue : Issue}
    (h : Step hash parseUrl w (.finish r token now secrets later (some issue)) w') :
    (∃ g ∈ w.tables.grants, g.id = issue.grantId ∧ g.refreshHash = hash token) ∧
      ⟨hash token, issue.grantId⟩ ∈ w'.tables.spent := by
  cases h with
  | rotated hreading hfinish hfresh =>
      obtain ⟨hcurrent, hrotate⟩ := finishRefresh_some hfinish
      refine ⟨hcurrent, ?_⟩
      unfold rotate at hrotate
      simp only at hrotate
      split_ifs at hrotate with hclash
      simp only [Option.some.injEq, Prod.mk.injEq] at hrotate
      rw [← hrotate.1]
      exact List.mem_append_right _ (List.mem_singleton_self _)

/-- What is accepted is current for some grant. -/
theorem Step.accepts (h : Step hash parseUrl w label w') (haccepts : label.accepts token = true) :
    ∃ g ∈ w.tables.grants, g.accessHash = hash token ∨ g.refreshHash = hash token := by
  cases h with
  | @rotated r reading grant now later secrets tables pair hreading hread hfinish hfresh =>
      obtain rfl : _ = token := by simpa [Label.accepts] using haccepts
      obtain ⟨⟨g, hg, -, hcurrent⟩, -⟩ := finishRefresh_some hfinish
      exact ⟨g, hg, .inr hcurrent⟩
  | authenticate presented resource now =>
      cases huser : OAuth.authenticate hash parseUrl w.tables presented resource now with
      | none => simp [huser, Label.accepts] at haccepts
      | some user =>
          obtain rfl : presented = token := by simpa [huser, Label.accepts] using haccepts
          obtain ⟨g, hg, -⟩ := Option.map_eq_some_iff.mp huser
          obtain ⟨hfound, -⟩ := Option.filter_eq_some_iff.mp hg
          exact ⟨g, mem_of_lookup hfound, .inl (key_of_lookup hfound)⟩
  | refused | expire | create | read | abort | revoke | deleteUser => exact nomatch haccepts

/-- A token that is not current yields nothing, now or later. -/
theorem Run.yields_retired (hhash : Function.Injective hash)
    (hrun : Run (Step hash parseUrl) w labels w') (h : Consistent hash w)
    (hretired : Retired hash w.tables w.issued token) :
    labels.countP (Label.yields token) = 0 := by
  induction hrun with
  | nil w => rfl
  | @cons w mid last label rest hstep _ ih =>
      have hrest := ih (h.step hhash hstep) (hstep.effect.retired hhash h.sound hretired)
      have hlabel : label.yields token = false := by
        by_contra hyields
        rw [Bool.not_eq_false] at hyields
        cases label with
        | finish r presented now secrets later outcome =>
            cases outcome with
            | none => exact nomatch hyields
            | some issue =>
                obtain rfl : presented = token := by simpa [Label.yields] using hyields
                obtain ⟨g, hg, -, hcurrent⟩ := hstep.finish_some.1
                exact hretired.notCurrent g hg hcurrent
        | _ => exact nomatch hyields
      rw [List.countP_cons, hrest, hlabel]
      rfl

/-- A refresh token yields a pair at most once. -/
theorem Run.yields_once (hhash : Function.Injective hash)
    (hrun : Run (Step hash parseUrl) w labels w') (h : Consistent hash w) :
    labels.countP (Label.yields token) ≤ 1 := by
  induction hrun with
  | nil w => exact Nat.zero_le 1
  | @cons w mid last label rest hstep hrest ih =>
      have hmid := h.step hhash hstep
      rw [List.countP_cons]
      cases hyields : label.yields token with
      | false => exact ih hmid
      | true =>
          cases label with
          | finish r presented now secrets later outcome =>
              cases outcome with
              | none => exact nomatch hyields
              | some issue =>
                  obtain rfl : presented = token := by simpa [Label.yields] using hyields
                  have hretired := (hmid.sound.held_of_spent hhash hstep.finish_some.2).2
                  rw [yields_retired hhash hrest hmid hretired]
                  exact Nat.le_refl 1
          | _ => exact nomatch hyields

variable (hash) in
/-- A token was rotated away, and a request that has read its grant has read none. -/
structure Replaying (token : String) (id : Nat) (r : Option Nat) (w : World Digest) : Prop where
  consistent : Consistent hash w
  held : Held hash w.tables w.issued token id
  retired : Retired hash w.tables w.issued token
  read : ∀ reading, r.bind w.refreshes = some reading → reading.token = token →
    reading.read = none

theorem readGrant_retired (h : Retired hash t issued token) : readGrant hash t token = none :=
  lookup_eq_none_iff.mpr h.notCurrent

/-- It begins when the token is spent, before any request has read it. -/
theorem Step.replaying (hhash : Function.Injective hash) (h : Consistent hash w) {r : Nat}
    {now later : Int} {secrets : Secrets} {issue : Issue}
    (hstep : Step hash parseUrl w (.finish r token now secrets later (some issue)) w') :
    Replaying hash token issue.grantId none w' := by
  have hw' := h.step hhash hstep
  obtain ⟨hheld, hretired⟩ := hw'.sound.held_of_spent hhash hstep.finish_some.2
  exact ⟨hw', hheld, hretired, nofun⟩

theorem Replaying.step (hhash : Function.Injective hash) {r : Option Nat}
    (h : Replaying hash token id r w) (hstep : Step hash parseUrl w label w') :
    Replaying hash token id r w' where
  consistent := h.consistent.step hhash hstep
  held := hstep.effect.held h.consistent.sound h.held
  retired := hstep.effect.retired hhash h.consistent.sound h.retired
  read := by
    intro reading hreading htoken
    obtain ⟨r, rfl, hreading⟩ := Option.bind_eq_some_iff.mp hreading
    rcases hstep.refreshes hreading with hold | ⟨hread, -, -⟩
    · exact h.read reading hold htoken
    · rw [hread, htoken]
      exact readGrant_retired h.retired

theorem Replaying.run (hhash : Function.Injective hash) {r : Option Nat}
    (h : Replaying hash token id r w) (hrun : Run (Step hash parseUrl) w labels w') :
    Replaying hash token id r w' :=
  hrun.invariant (Replaying hash token id r) (fun _ _ _ hs hstep => hs.step hhash hstep) h

/-- A request that reads the token has read nothing. -/
theorem Replaying.reads (hhash : Function.Injective hash) (h : Replaying hash token id none w)
    {r : Nat} {clientId : String} (hstep : Step hash parseUrl w (.read r token clientId) w') :
    Replaying hash token id (some r) w' := by
  have hw' := h.step hhash hstep
  refine ⟨hw'.consistent, hw'.held, hw'.retired, fun reading hreading htoken => ?_⟩
  cases hstep with
  | read _ _ hidle =>
      obtain rfl : _ = reading := by simpa [World.request] using hreading
      exact readGrant_retired h.retired

/-- A request that has read a spent token returns nothing and deletes the grant. -/
theorem Replaying.finish (hhash : Function.Injective hash) {r : Nat}
    (h : Replaying hash token id (some r) w) {now later : Int} {secrets : Secrets}
    {outcome : Option Issue}
    (hstep : Step hash parseUrl w (.finish r token now secrets later outcome) w') :
    outcome = none ∧ Gone w'.tables id := by
  obtain ⟨i, hi, hof, htoken⟩ := h.held.issued
  cases hstep with
  | rotated hreading hfinish hfresh => exact nomatch h.read _ hreading rfl
  | @refused r token clientId read now later secrets tables hreading hfinish =>
      refine ⟨rfl, ?_⟩
      obtain rfl : read = none := h.read _ hreading rfl
      have hallotted : id < w.tables.nextId := hof ▸ h.consistent.sound.issuedBefore i hi
      simp only [finishRefresh] at hfinish
      cases hspent : lookup SpentToken.refreshHash (hash token) w.tables.spent with
      | none =>
          -- Neither current nor spent: there is no such grant any more.
          simp only [hspent, Option.some.injEq, Prod.mk.injEq, and_true] at hfinish
          subst hfinish
          refine ⟨hallotted, fun g hg hid => ?_⟩
          rcases h.held.known g hg hid with hcurrent | hmem
          · exact h.retired.notCurrent g hg hcurrent
          · exact lookup_eq_none_iff.mp hspent _ hmem rfl
      | some s =>
          simp only [hspent, Option.some.injEq, Prod.mk.injEq, and_true] at hfinish
          subst hfinish
          have hhashed : s.refreshHash = hash i.pair.refreshToken := by
            rw [htoken]
            exact key_of_lookup hspent
          have hsid := h.consistent.sound.id_of_spent hhash (mem_of_lookup hspent) hi hhashed
          refine ⟨hallotted, fun g hg hid => ?_⟩
          have hkept := (mem_deleteGrants.mp hg).2
          rw [hid, ← hof, hsid, decide_eq_false_iff_not] at hkept
          exact hkept rfl

/-- Of a grant that is gone, no token is accepted any more. -/
theorem Run.accepts_gone (hhash : Function.Injective hash)
    (hrun : Run (Step hash parseUrl) w labels w') (h : Consistent hash w)
    (hgone : Gone w.tables id) {i : Issue} (hi : i ∈ w'.issued) (hof : i.grantId = id)
    (hlabel : label ∈ labels) :
    label.accepts i.pair.accessToken = false ∧ label.accepts i.pair.refreshToken = false := by
  have hlater := (h.run hhash hrun).sound
  induction hrun with
  | nil w => simp at hlabel
  | @cons w mid last first rest hstep hrest ih =>
      have hmid := h.step hhash hstep
      rcases List.mem_cons.mp hlabel with rfl | hlabel
      · have hmono : w.issued.Sublist last.issued :=
          (hstep.effect.issued_sublist).trans
            (hrest.relates (fun _ => True) (fun w w' => w.issued.Sublist w'.issued)
              (fun _ => .refl _) (fun _ _ _ => .trans) (fun _ _ _ _ _ => trivial)
              (fun _ _ _ _ hstep => hstep.effect.issued_sublist) trivial)
        have hnot : ∀ token, (∃ g ∈ w.tables.grants, g.accessHash = hash token ∨
            g.refreshHash = hash token) →
            token ≠ i.pair.accessToken ∧ token ≠ i.pair.refreshToken := by
          rintro token ⟨g, hg, haccess | hrefresh⟩
          · obtain ⟨j, hj, hid, htoken⟩ := h.sound.access g hg
            obtain rfl := hhash (haccess.symm.trans htoken)
            refine ⟨fun heq => ?_, ?_⟩
            · have hij := hlater.issue_unique_access (hmono.subset hj) hi heq
              exact hgone.absent g hg (by rw [← hid, hij, hof])
            · exact (hlater.isNew j (hmono.subset hj)).access_ne_refresh (hlater.isNew i hi)
          · obtain ⟨j, hj, hid, htoken⟩ := h.sound.refresh g hg
            obtain rfl := hhash (hrefresh.symm.trans htoken)
            refine ⟨?_, fun heq => ?_⟩
            · exact ((hlater.isNew i hi).access_ne_refresh
                (hlater.isNew j (hmono.subset hj))).symm
            · have hij := hlater.issue_unique (hmono.subset hj) hi heq
              exact hgone.absent g hg (by rw [← hid, hij, hof])
        constructor
        · by_contra haccepts
          rw [Bool.not_eq_false] at haccepts
          exact (hnot _ (hstep.accepts haccepts)).1 rfl
        · by_contra haccepts
          rw [Bool.not_eq_false] at haccepts
          exact (hnot _ (hstep.accepts haccepts)).2 rfl
      · exact ih hmid (hstep.effect.gone h.sound hgone) hi hlabel hlater

variable (hash t) in
/-- Nothing that is stored is of this token. -/
structure Unknown (token : String) : Prop where
  notCurrent : ∀ g ∈ t.grants, g.accessHash ≠ hash token ∧ g.refreshHash ≠ hash token
  notSpent : ∀ s ∈ t.spent, s.refreshHash ≠ hash token

omit [DecidableEq Digest] in
theorem deleteGrants_absent (habsent : ∀ g ∈ t.grants, g.id ≠ id) :
    t.deleteGrants (·.id = id) = t := by
  have hgrants : (t.grants.filter fun g => !decide (g.id = id)) = t.grants :=
    List.filter_eq_self.mpr fun g hg => by simpa using habsent g hg
  have hspent : (t.spent.filter fun s =>
      !t.grants.any fun g => decide (g.id = id) && decide (g.id = s.grantId)) = t.spent := by
    apply List.filter_eq_self.mpr
    intro s _
    simp only [Bool.not_eq_true', List.any_eq_false, Bool.and_eq_true, decide_eq_true_eq, not_and]
    exact fun g hg hid => absurd hid (habsent g hg)
  rw [Tables.deleteGrants, hgrants, hspent]

/-- The rest of a refresh does nothing with an unknown token: the grant it may have read is
gone since, or its token would be spent. -/
theorem finishRefresh_unknown {read : Option (Grant Digest)} {clientId : String}
    {now later : Int} {secrets : Secrets} (hunknown : Unknown hash t token)
    (hheld : ∀ grant, read = some grant → Held hash t issued token grant.id)
    (h : finishRefresh hash t read token clientId now secrets later = some (t', none)) :
    t' = t := by
  unfold finishRefresh at h
  cases read with
  | none =>
      have hspent : lookup SpentToken.refreshHash (hash token) t.spent = none :=
        lookup_eq_none_iff.mpr hunknown.notSpent
      simpa [hspent, eq_comm] using h
  | some grant =>
      simp only at h
      split_ifs at h with hrefused hrotated
      · simpa [eq_comm] using h
      · have habsent : ∀ g ∈ t.grants, g.id ≠ grant.id := by
          intro g hg hid
          rcases (hheld grant rfl).known g hg hid with hcurrent | hspent
          · exact (hunknown.notCurrent g hg).2 hcurrent
          · exact hunknown.notSpent _ hspent rfl
        rw [deleteGrants_absent habsent] at h
        simpa [eq_comm] using h
      · simp at h

theorem Step.unknown (h : Consistent hash w) (hstep : Step hash parseUrl w label w')
    (hpresents : label.presents token = true) (hunknown : Unknown hash w.tables token) :
    w'.tables = w.tables ∧ label.accepts token = false := by
  have hrejected : label.accepts token = false := by
    by_contra haccepts
    rw [Bool.not_eq_false] at haccepts
    obtain ⟨g, hg, haccess | hrefresh⟩ := hstep.accepts haccepts
    · exact (hunknown.notCurrent g hg).1 haccess
    · exact (hunknown.notCurrent g hg).2 hrefresh
  refine ⟨?_, hrejected⟩
  cases hstep with
  | read presented clientId hidle => rfl
  | authenticate presented resource now => rfl
  | @refused r presented clientId read now later secrets tables hreading hfinish =>
      obtain rfl : presented = token := by simpa [Label.presents] using hpresents
      exact finishRefresh_unknown hunknown
        (fun grant hread => h.held r _ grant hreading hread) hfinish
  | rotated hreading hfinish hfresh =>
      simp only [Label.presents, Label.accepts] at hpresents hrejected
      exact absurd hpresents (Bool.eq_false_iff.mp hrejected)
  | expire | create | abort | revoke | deleteUser => exact nomatch hpresents

/-- A refresh token yields a pair at most once.  One that is read again after that makes its
request return nothing and takes its grant along, and nothing that was ever issued for the
grant authenticates or refreshes after that.  A token that nothing is stored of changes
nothing. -/
theorem refresh_tokens (hhash : Function.Injective hash) {labels : List Label}
    {w : World Digest} (hrun : Run (Step hash parseUrl) .start labels w) (token : String) :
    labels.countP (Label.yields token) ≤ 1 ∧
    (∀ r now secrets later issue w₁ between w₂ r' clientId w₃ meanwhile w₄ now' secrets' later'
        outcome w₅,
      Step hash parseUrl w (.finish r token now secrets later (some issue)) w₁ →
      Run (Step hash parseUrl) w₁ between w₂ →
      Step hash parseUrl w₂ (.read r' token clientId) w₃ →
      Run (Step hash parseUrl) w₃ meanwhile w₄ →
      Step hash parseUrl w₄ (.finish r' token now' secrets' later' outcome) w₅ →
      outcome = none ∧ (∀ g ∈ w₅.tables.grants, g.id ≠ issue.grantId) ∧
        ∀ after w₆, Run (Step hash parseUrl) w₅ after w₆ →
          ∀ i ∈ w₆.issued, i.grantId = issue.grantId → ∀ label ∈ after,
            label.accepts i.pair.accessToken = false ∧
              label.accepts i.pair.refreshToken = false) ∧
    (∀ label w', Step hash parseUrl w label w' → label.presents token = true →
      Unknown hash w.tables token → w'.tables = w.tables ∧ label.accepts token = false) := by
  have hw := Consistent.start.run hhash hrun
  refine ⟨Run.yields_once hhash hrun .start, ?_, ?_⟩
  · intro r now secrets later issue w₁ between w₂ r' clientId w₃ meanwhile w₄ now' secrets'
      later' outcome w₅ hrotate hbetween hread hmeanwhile hfinish
    have hspent := hrotate.replaying hhash hw
    have hread₃ := (hspent.run hhash hbetween).reads hhash hread
    have hread₄ := hread₃.run hhash hmeanwhile
    obtain ⟨hnone, hgone⟩ := hread₄.finish hhash hfinish
    refine ⟨hnone, hgone.absent, fun after w₆ hafter i hi hof label hlabel => ?_⟩
    have hw₅ := hread₄.consistent.step hhash hfinish
    exact Run.accepts_gone hhash hafter hw₅ hgone hi hof hlabel
  · exact fun label w' hstep hpresents hunknown => hstep.unknown hw hpresents hunknown

/-- A grant is refreshed, and its first refresh token is presented again. -/
theorem exists_replay : ∃ (w w₁ w₂ w₃ : World String) (issue : Issue) (outcome : Option Issue),
    Run (Step (fun token => token) some) .start
      [.create ⟨1, "https://client", "https://host/mcp"⟩ 0 ⟨"a", "b"⟩ 0,
        .read 0 "rtr_b" "https://client"] w ∧
    Step (fun token => token) some w (.finish 0 "rtr_b" 1 ⟨"c", "d"⟩ 1 (some issue)) w₁ ∧
    Step (fun token => token) some w₁ (.read 1 "rtr_b" "https://thief") w₂ ∧
    Step (fun token => token) some w₂ (.finish 1 "rtr_b" 2 ⟨"e", "f"⟩ 2 outcome) w₃ ∧
    issue.grantId = 0 := by
  iterate 6 apply Exists.intro
  refine ⟨.cons (.create (Nat.le_refl 0) rfl ⟨nofun, nofun⟩) <|
    .cons (.read _ _ rfl) <| .nil _, ?_⟩
  refine ⟨.rotated rfl rfl ?_, ?_⟩
  · decide
  exact ⟨.read _ _ rfl, .refused rfl rfl, rfl⟩

theorem refresh_tokens_replayed : ∃ (outcome : Option Issue) (w₃ : World String),
    outcome = none ∧ ∀ g ∈ w₃.tables.grants, g.id ≠ 0 := by
  obtain ⟨w, w₁, w₂, w₃, issue, outcome, hrun, hrotate, hread, hfinish, hid⟩ := exists_replay
  have hinjective : Function.Injective fun token : String => token := fun _ _ h => h
  obtain ⟨hnone, hgone, -⟩ := (refresh_tokens hinjective hrun "rtr_b").2.1 0 1 ⟨"c", "d"⟩ 1 issue
    w₁ [] w₁ 1 "https://thief" w₂ [] w₂ 2 ⟨"e", "f"⟩ 2 outcome w₃ hrotate (.nil _) hread (.nil _)
    hfinish
  exact ⟨outcome, w₃, hnone, hid ▸ hgone⟩

end Rustrak.OAuth
