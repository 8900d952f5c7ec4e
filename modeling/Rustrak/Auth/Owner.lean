import Rustrak.Auth.Accounts

/-!
# The instance keeps its owner

The account with the lowest id stays, and stays an admin, whatever requests run side by side.

The number of admins is no guard by itself: two requests can both read that there are two.
What carries the invariant is that the primary id never changes, so a request that has been
compared with it may wait as long as it likes before it writes (`Spares`), and that an SSO role
is compared with it in the transaction that writes.
-/

namespace Rustrak.Auth

open Rustrak.Core Rustrak.Transition

variable {lower : String → String} {a : Accounts} {p : Int} {role : Option UserRole}
  {user : Account} {identity : OidcIdentity} {labels : List AccountLabel}

/-- The lowest id is that of an admin. -/
structure OwnedBy (p : Int) (a : Accounts) : Prop where
  present : ∃ u ∈ a.users, u.id = p
  lowest : ∀ u ∈ a.users, p ≤ u.id
  admin : ∀ u ∈ a.users, u.id = p → u.isAdmin = true
  fresh : ∀ u ∈ a.users, u.id < a.nextId

/-- What the request is to write leaves the owner alone. -/
def AccountCall.Spares (p : Int) : AccountCall → Prop
  | .updateGuarded userId newRole _ | .updateWrite userId newRole => userId = p → newRole = .admin
  | .deleteGuarded _ userId | .deleteTarget userId | .deleteWrite userId => userId ≠ p
  | .ssoTouch user _ | .confirmWrite user _ _ => user.id = p → user.isAdmin = true
  | _ => True

/-! ## Writes -/

theorem OwnedBy.primaryUserId (h : OwnedBy p a) : a.primaryUserId = some p := by
  obtain ⟨u, hu, hid⟩ := h.present
  refine List.min?_eq_some_iff.mpr ⟨List.mem_map.mpr ⟨u, hu, hid⟩, fun id hmem => ?_⟩
  obtain ⟨v, hv, rfl⟩ := List.mem_map.mp hmem
  exact h.lowest v hv

/-- A role is set that is not taken from the owner. -/
theorem OwnedBy.setRole (h : OwnedBy p a) {userId : Int} {newRole : UserRole}
    (hspares : userId = p → newRole = .admin) : OwnedBy p (a.setRole userId newRole) := by
  have hrow : ∀ v ∈ (a.setRole userId newRole).users, ∃ u ∈ a.users, v.id = u.id ∧
      (u.id = p → v.isAdmin = true) := by
    intro v hv
    obtain ⟨u, hu, rfl⟩ := List.mem_map.mp hv
    refine ⟨u, hu, ?_⟩
    split_ifs with hid
    · refine ⟨rfl, fun hp => ?_⟩
      rw [hspares ((beq_iff_eq.mp hid).symm.trans hp)]
      rfl
    · exact ⟨rfl, h.admin u hu⟩
  refine ⟨?_, fun v hv => ?_, fun v hv hid => ?_, fun v hv => ?_⟩
  · obtain ⟨u, hu, hid⟩ := h.present
    refine ⟨_, List.mem_map.mpr ⟨u, hu, rfl⟩, ?_⟩
    split_ifs
    · exact hid
    · exact hid
  · obtain ⟨u, hu, hsame, -⟩ := hrow v hv
    rw [hsame]
    exact h.lowest u hu
  · obtain ⟨u, hu, hsame, hadmin⟩ := hrow v hv
    exact hadmin (hsame.symm.trans hid)
  · obtain ⟨u, hu, hsame, -⟩ := hrow v hv
    rw [hsame]
    exact h.fresh u hu

theorem OwnedBy.delete (h : OwnedBy p a) {userId : Int} (hspares : userId ≠ p) {after : Accounts}
    (hdelete : a.delete userId = .ok after) : OwnedBy p after := by
  unfold Accounts.delete at hdelete
  obtain ⟨_, -, hafter⟩ := bind_eq_ok hdelete
  obtain rfl := Except.ok.inj hafter
  have hmem : ∀ v ∈ a.users.filter fun u => u.id != userId, v ∈ a.users :=
    fun v hv => List.mem_of_mem_filter hv
  refine ⟨?_, fun v hv => h.lowest v (hmem v hv), fun v hv => h.admin v (hmem v hv),
    fun v hv => h.fresh v (hmem v hv)⟩
  obtain ⟨u, hu, rfl⟩ := h.present
  exact ⟨u, List.mem_filter.mpr ⟨hu, bne_iff_ne.mpr hspares.symm⟩, rfl⟩

/-- A new account has a greater id. -/
theorem OwnedBy.createUser (h : OwnedBy p a) {email : String} {newRole : UserRole}
    {created : Accounts × Account} (hcreate : a.createUser email newRole = .ok created) :
    OwnedBy p created.1 ∧ (created.2.id = p → created.2.isAdmin = true) := by
  obtain ⟨_, -, hcreated⟩ := bind_eq_ok hcreate
  obtain rfl := Except.ok.inj hcreated
  obtain ⟨u, hu, hid⟩ := h.present
  have hnew : p < a.nextId := hid ▸ h.fresh u hu
  refine ⟨⟨⟨u, List.mem_append_left _ hu, hid⟩, fun v hv => ?_, fun v hv => ?_, fun v hv => ?_⟩, ?_⟩
  · rcases List.mem_append.mp hv with hold | hlast
    · exact h.lowest v hold
    · rw [List.mem_singleton.mp hlast]
      exact hnew.le
  · rcases List.mem_append.mp hv with hold | hlast
    · exact h.admin v hold
    · rw [List.mem_singleton.mp hlast]
      exact fun hp => absurd hp hnew.ne'
  · rcases List.mem_append.mp hv with hold | hlast
    · exact (h.fresh v hold).trans (Int.lt_succ a.nextId)
    · rw [List.mem_singleton.mp hlast]
      exact Int.lt_succ a.nextId
  · exact fun hp => absurd hp hnew.ne'

/-- The groups of the owner do not take the role away, if the user as they were read is one. -/
theorem OwnedBy.applySsoRole (h : OwnedBy p a) (huser : user.id = p → user.isAdmin = true) :
    OwnedBy p (a.applySsoRole user role).1 := by
  unfold Accounts.applySsoRole
  cases role with
  | none => exact h
  | some newRole =>
      dsimp only
      split_ifs with hsame hprimary
      · exact h
      · exact h
      · refine h.setRole fun hid => ?_
        cases newRole with
        | admin => rfl
        | member =>
            exact absurd ⟨h.primaryUserId.trans (congrArg some hid.symm), huser hid, rfl⟩ hprimary

theorem OwnedBy.linkIdentity (h : OwnedBy p a) {userId : Int} {linked : Accounts}
    (hlink : a.linkIdentity userId identity = .ok (some linked)) : OwnedBy p linked := by
  unfold Accounts.linkIdentity at hlink
  obtain ⟨_, -, hlinked⟩ := bind_eq_ok hlink
  split_ifs at hlinked
  · have hnone := Except.ok.inj hlinked
    contradiction
  · obtain rfl := Option.some.inj (Except.ok.inj hlinked)
    exact ⟨h.present, h.lowest, h.admin, h.fresh⟩

theorem OwnedBy.provisioned (h : OwnedBy p a) {policy : OidcLinkPolicy}
    {created : Accounts × Account}
    (hcreated : a.provisioned lower identity policy = .ok (.inl created)) :
    OwnedBy p created.1 ∧ (created.2.id = p → created.2.isAdmin = true) := by
  unfold Accounts.provisioned at hcreated
  cases hfound : a.candidates lower identity.email with
  | nil =>
      rw [hfound] at hcreated
      dsimp only at hcreated
      cases hpolicy : policy.autoProvision with
      | false =>
          rw [hpolicy] at hcreated
          contradiction
      | true =>
          rw [hpolicy] at hcreated
          obtain ⟨new, hnew, hsame⟩ := bind_eq_ok hcreated
          obtain rfl := Sum.inl.inj (Except.ok.inj hsame)
          exact h.createUser hnew
  | cons existing others =>
      rw [hfound] at hcreated
      dsimp only at hcreated
      split_ifs at hcreated
      · have hconfirm := Except.ok.inj hcreated
        contradiction
      obtain rfl := Sum.inl.inj (Except.ok.inj hcreated)
      have hmem : existing ∈ a.candidates lower identity.email := by
        rw [hfound]
        exact List.mem_cons_self ..
      have huser : existing ∈ a.users := by
        have hfound := (List.mem_append.mp hmem).elim List.mem_of_mem_filter List.mem_of_mem_filter
        exact List.mem_of_mem_filter (List.mem_mergeSort.mp hfound)
      exact ⟨h, h.admin existing huser⟩

theorem OwnedBy.provisionOidc (h : OwnedBy p a) {policy : OidcLinkPolicy}
    {written : Accounts × Answer} (hwritten : a.provisionOidc lower identity policy = .ok written) :
    OwnedBy p written.1 := by
  unfold Accounts.provisionOidc at hwritten
  obtain ⟨landed, hlanded, hrest⟩ := bind_eq_ok hwritten
  cases landed with
  | inr existing =>
      obtain rfl := Except.ok.inj hrest
      exact h
  | inl created =>
      obtain ⟨hcreated, huser⟩ := h.provisioned hlanded
      have hassigned : OwnedBy p (created.1.applySsoRole created.2 (policy.roleFor identity.groups)).1 :=
        hcreated.applySsoRole huser
      obtain ⟨linked, hlinked, hanswer⟩ := bind_eq_ok hrest
      cases linked with
      | some linked =>
          obtain rfl := Except.ok.inj hanswer
          exact hassigned.linkIdentity hlinked
      | none =>
          obtain ⟨winner, -, hsame⟩ := bind_eq_ok hanswer
          obtain rfl := Except.ok.inj hsame
          exact h

theorem OwnedBy.confirmOidc (h : OwnedBy p a) (huser : user.id = p → user.isAdmin = true)
    {written : Accounts × Answer} (hwritten : a.confirmOidc user identity role = .ok written) :
    OwnedBy p written.1 := by
  unfold Accounts.confirmOidc at hwritten
  obtain ⟨linked, hlinked, hanswer⟩ := bind_eq_ok hwritten
  cases linked with
  | some linked =>
      obtain rfl := Except.ok.inj hanswer
      exact (h.linkIdentity hlinked).applySsoRole huser
  | none =>
      obtain ⟨owner, -, hrest⟩ := bind_eq_ok hanswer
      obtain ⟨_, -, hsame⟩ := bind_eq_ok hrest
      obtain rfl := Except.ok.inj hsame
      exact h

/-! ## Steps -/

theorem settle_owned (h : OwnedBy p a) {result : AppResult (Accounts × Answer)}
    (hresult : ∀ written, result = .ok written → OwnedBy p written.1) :
    OwnedBy p (a.settle result).1 ∧ (a.settle result).2.Spares p := by
  cases result with
  | ok written => exact ⟨hresult written rfl, trivial⟩
  | error e => exact ⟨h, trivial⟩

theorem proceed_spares (h : OwnedBy p a) {result : AppResult AccountCall}
    (hresult : ∀ next, result = .ok next → next.Spares p) :
    OwnedBy p (a.proceed result).1 ∧ (a.proceed result).2.Spares p := by
  cases result with
  | ok next => exact ⟨h, hresult next rfl⟩
  | error e => exact ⟨h, trivial⟩

theorem admin_of_user (h : OwnedBy p a) {userId : Int} (huser : a.user userId = some user) :
    user.id = p → user.isAdmin = true :=
  h.admin user (List.mem_of_find?_eq_some huser)

theorem OwnedBy.advance (h : OwnedBy p a) {call : AccountCall} (hspares : call.Spares p) :
    OwnedBy p (a.advance lower call).1 ∧ (a.advance lower call).2.Spares p := by
  cases call with
  | updateTeamRole actor userId newRole =>
      refine proceed_spares h fun next hnext => ?_
      obtain ⟨_, -, hnext⟩ := bind_eq_ok hnext
      obtain ⟨_, -, hnext⟩ := bind_eq_ok hnext
      obtain ⟨_, -, hnext⟩ := bind_eq_ok hnext
      obtain rfl := Except.ok.inj hnext
      trivial
  | updateTarget actor userId newRole target =>
      refine proceed_spares h fun next hnext => ?_
      obtain ⟨_, -, hnext⟩ := bind_eq_ok hnext
      obtain ⟨_, hguard, hnext⟩ := bind_eq_ok hnext
      obtain rfl := Except.ok.inj hnext
      rintro rfl
      have hprimary := ensure_eq_ok hguard
      rw [h.primaryUserId] at hprimary
      cases newRole with
      | admin => rfl
      | member => simp at hprimary
  | updateGuarded userId newRole target =>
      refine proceed_spares h fun next hnext => ?_
      obtain ⟨_, -, hnext⟩ := bind_eq_ok hnext
      obtain rfl := Except.ok.inj hnext
      exact hspares
  | updateWrite userId newRole =>
      refine settle_owned h fun written hwritten => ?_
      obtain ⟨after, hafter, hwritten⟩ := bind_eq_ok hwritten
      obtain ⟨_, -, hset⟩ := bind_eq_ok hafter
      obtain rfl := Except.ok.inj hwritten
      obtain rfl := Except.ok.inj hset
      exact h.setRole hspares
  | deleteUser actor userId =>
      refine proceed_spares h fun next hnext => ?_
      obtain ⟨_, -, hnext⟩ := bind_eq_ok hnext
      obtain ⟨_, -, hnext⟩ := bind_eq_ok hnext
      obtain ⟨_, hguard, hnext⟩ := bind_eq_ok hnext
      obtain rfl := Except.ok.inj hnext
      have hprimary := ensure_eq_ok hguard
      rw [h.primaryUserId] at hprimary
      rintro rfl
      simp at hprimary
  | deleteGuarded actor userId =>
      refine proceed_spares h fun next hnext => ?_
      obtain ⟨target, -, hnext⟩ := bind_eq_ok hnext
      obtain ⟨_, -, hnext⟩ := bind_eq_ok hnext
      obtain rfl := Except.ok.inj hnext
      split_ifs
      · exact hspares
      · exact hspares
  | deleteTarget userId =>
      refine proceed_spares h fun next hnext => ?_
      obtain ⟨_, -, hnext⟩ := bind_eq_ok hnext
      obtain rfl := Except.ok.inj hnext
      exact hspares
  | deleteWrite userId =>
      refine settle_owned h fun written hwritten => ?_
      obtain ⟨after, hafter, hwritten⟩ := bind_eq_ok hwritten
      obtain rfl := Except.ok.inj hwritten
      exact h.delete hspares hafter
  | ssoLogin identity policy =>
      simp only [Accounts.advance]
      cases hlinked : a.byOidcIdentity identity.issuer identity.subject with
      | none => exact ⟨h, trivial⟩
      | some user =>
          refine proceed_spares h fun next hnext => ?_
          obtain ⟨_, -, hnext⟩ := bind_eq_ok hnext
          obtain rfl := Except.ok.inj hnext
          obtain ⟨link, -, huser⟩ := Option.bind_eq_some_iff.mp hlinked
          exact admin_of_user h huser
  | ssoTouch user role => exact ⟨h.applySsoRole hspares, trivial⟩
  | ssoProvision identity policy => exact settle_owned h fun written => h.provisionOidc
  | confirmLink identity userId passwordMatches role =>
      refine proceed_spares h fun next hnext => ?_
      obtain ⟨user, huser, hnext⟩ := bind_eq_ok hnext
      obtain ⟨_, -, hnext⟩ := bind_eq_ok hnext
      obtain ⟨_, -, hnext⟩ := bind_eq_ok hnext
      obtain rfl := Except.ok.inj hnext
      exact admin_of_user h (okOr_eq_ok huser)
  | confirmWrite user identity role =>
      exact settle_owned h fun written => h.confirmOidc hspares
  | createUser email newRole =>
      refine settle_owned h fun written hwritten => ?_
      obtain ⟨created, hcreated, hwritten⟩ := bind_eq_ok hwritten
      obtain rfl := Except.ok.inj hwritten
      exact (h.createUser hcreated).1
  | answered answer => exact ⟨h, trivial⟩

/-- The invariant of the runs. -/
def Instance.Owned (p : Int) (s : Instance) : Prop :=
  OwnedBy p s.accounts ∧ ∀ call ∈ s.calls, call.Spares p

theorem Instance.Owned.step {s s' : Instance} {label : AccountLabel} (h : s.Owned p)
    (hstep : AccountSteps lower s label s') : s'.Owned p := by
  obtain ⟨howned, hcalls⟩ := h
  cases hstep with
  | @receive call hrequest =>
      refine ⟨howned, fun other hother => ?_⟩
      rcases List.mem_append.mp hother with hold | hlast
      · exact hcalls other hold
      · rw [List.mem_singleton.mp hlast]
        cases call with
        | updateTeamRole | deleteUser | ssoLogin | confirmLink | createUser => trivial
        | _ => exact hrequest.elim
  | @advance i call hi =>
      obtain ⟨hafter, hnext⟩ := howned.advance (hcalls call (List.mem_of_getElem? hi))
      refine ⟨hafter, fun other hother => ?_⟩
      rcases List.mem_or_eq_of_mem_set hother with hold | rfl
      · exact hcalls other hold
      · exact hnext

/-- Once the account with the lowest id is an admin it stays the one with the lowest id, and an
admin, through every interleaving of the requests that come in. -/
theorem instance_keeps_owner {start s : Instance} (hrun : Run (AccountSteps lower) start labels s)
    (hcalls : start.calls = []) (hfresh : ∀ u ∈ start.accounts.users, u.id < start.accounts.nextId)
    (hprimary : start.accounts.primaryUserId = some p)
    (hadmin : ∀ u ∈ start.accounts.users, u.id = p → u.isAdmin = true) :
    s.accounts.primaryUserId = some p ∧
      ∀ u ∈ s.accounts.users, u.id = p → u.isAdmin = true := by
  obtain ⟨hmem, hlowest⟩ := List.min?_eq_some_iff.mp hprimary
  have hstart : start.Owned p := by
    refine ⟨⟨List.mem_map.mp hmem, fun u hu => hlowest u.id (List.mem_map_of_mem hu), hadmin, hfresh⟩,
      ?_⟩
    rw [hcalls]
    exact fun call hcall => absurd hcall List.not_mem_nil
  have howned : s.Owned p :=
    hrun.invariant (Instance.Owned p) (fun _ _ _ h hstep => h.step hstep) hstart
  exact ⟨howned.1.primaryUserId, howned.1.admin⟩

/-- Two owners remove each other while the first signs in without the group for admins. -/
theorem instance_keeps_owner_contested : ∃ s : Instance,
    s.accounts.users = [⟨1, "ada@example.com", true, "admin"⟩] ∧
      s.accounts.primaryUserId = some 1 ∧ ∀ u ∈ s.accounts.users, u.id = 1 → u.isAdmin = true := by
  have hrun : ∃ s : Instance, Run (AccountSteps id)
      ⟨⟨[⟨1, "ada@example.com", true, "admin"⟩, ⟨2, "bob@example.com", true, "admin"⟩],
        [⟨1, "https://sso.example.com", "ada"⟩], 3⟩, []⟩
      [.receive (.deleteUser ⟨some ⟨2, true, "admin"⟩, Access.new [⟨none, Grants.everything⟩]⟩ 1),
        .receive (.deleteUser ⟨some ⟨1, true, "admin"⟩, Access.new [⟨none, Grants.everything⟩]⟩ 2),
        .receive (.ssoLogin ⟨"https://sso.example.com", "ada", "ada@example.com", true, []⟩
          ⟨true, true, ["owners"]⟩),
        .advance 1, .advance 0, .advance 2, .advance 1, .advance 1, .advance 1, .advance 2] s ∧
      s.accounts.users = [⟨1, "ada@example.com", true, "admin"⟩] :=
    ⟨_, .cons (.receive trivial) <| .cons (.receive trivial) <| .cons (.receive trivial) <|
      .cons (.advance rfl) <| .cons (.advance rfl) <| .cons (.advance rfl) <|
      .cons (.advance rfl) <| .cons (.advance rfl) <| .cons (.advance rfl) <|
      .cons (.advance rfl) <| .nil _, by decide +kernel⟩
  obtain ⟨s, hrun, husers⟩ := hrun
  exact ⟨s, husers, instance_keeps_owner hrun rfl (by decide) (by decide) (by decide)⟩

end Rustrak.Auth
