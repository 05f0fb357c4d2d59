import Catalist.EnumerableSet
import Catalist.Evm
import Catalist.Lib.History

/-!
# Access control

`AccessControl.sol` and `AccessControlEnumerable.sol`, from which the contracts with roles inherit.
Roles are set up when a contract is deployed or initialized. Afterwards they are granted and revoked
by the admins of the role, and renounced by the accounts themselves. No contract changes the admin
of a role, so it is `DEFAULT_ADMIN_ROLE` for all of them.
-/

namespace Catalist

open Solidity Transition

/-- The hash of a role's name -/
abbrev Role := BitVec 256

structure RoleData where
  members : Address → Bool
  adminRole : Role

/-- The storage of the two contracts. -/
structure AccessControl where
  roles : Role → RoleData
  roleMembers : Role → EnumerableSet Address

inductive AccessControlError where
  /-- `"AccessControl: account … is missing role …"` -/
  | missingRole (account : Address) (role : Role)
  /-- `"AccessControl: can only renounce roles for self"` -/
  | renounceForOther
deriving DecidableEq, Repr

namespace AccessControl

def DEFAULT_ADMIN_ROLE : Role := 0

variable (s : AccessControl)

def hasRole (role : Role) (account : Address) : Bool :=
  (s.roles role).members account

/-- `_checkRole` -/
def checkRole (role : Role) (account : Address) : Call AccessControlError Unit :=
  require (s.hasRole role account = true) (.missingRole account role)

def getRoleAdmin (role : Role) : Role :=
  (s.roles role).adminRole

def getRoleMember (role : Role) (index : Nat) : Call AccessControlError Address :=
  (s.roleMembers role).elementAt index

def getRoleMemberCount (role : Role) : Nat :=
  (s.roleMembers role).length

def setMember (role : Role) (account : Address) (member : Bool) : AccessControl :=
  { s with roles := Function.update s.roles role { s.roles role with
      members := Function.update (s.roles role).members account member } }

/-- `_grantRole` of both contracts -/
def grantRoleInternal (role : Role) (account : Address) : AccessControl :=
  let s := if s.hasRole role account = false then s.setMember role account true else s
  { s with roleMembers :=
      Function.update s.roleMembers role ((s.roleMembers role).add account).1 }

/-- `_revokeRole` of both contracts -/
def revokeRoleInternal (role : Role) (account : Address) :
    Call AccessControlError AccessControl := do
  let s := if s.hasRole role account = true then s.setMember role account false else s
  let (members, _) ← (s.roleMembers role).remove account
  return { s with roleMembers := Function.update s.roleMembers role members }

def grantRole (env : Env) (role : Role) (account : Address) :
    Call AccessControlError AccessControl := do
  s.checkRole (s.getRoleAdmin role) env.sender
  return s.grantRoleInternal role account

def revokeRole (env : Env) (role : Role) (account : Address) :
    Call AccessControlError AccessControl := do
  s.checkRole (s.getRoleAdmin role) env.sender
  s.revokeRoleInternal role account

def renounceRole (env : Env) (role : Role) (account : Address) :
    Call AccessControlError AccessControl := do
  require (account = env.sender) .renounceForOther
  s.revokeRoleInternal role account

/-- Storage that was never written. -/
def blank : AccessControl where
  roles _ := { members := fun _ => false, adminRole := 0 }
  roleMembers _ := .empty

/-- `_setupRole`, for all the roles that are given when the contract is deployed -/
def setupRoles (s : AccessControl) : List (Role × Address) → AccessControl
  | [] => s
  | (role, account) :: setups => (s.grantRoleInternal role account).setupRoles setups

/-- The calls that change roles. -/
inductive RoleCall where
  | grantRole (env : Env) (role : Role) (account : Address)
  | revokeRole (env : Env) (role : Role) (account : Address)
  | renounceRole (env : Env) (role : Role) (account : Address)

def run : RoleCall → Call AccessControlError AccessControl
  | .grantRole env role account => s.grantRole env role account
  | .revokeRole env role account => s.revokeRole env role account
  | .renounceRole env role account => s.renounceRole env role account

namespace RoleCall

def role : RoleCall → Role
  | .grantRole _ role _ | .revokeRole _ role _ | .renounceRole _ role _ => role

def account : RoleCall → Address
  | .grantRole _ _ account | .revokeRole _ _ account | .renounceRole _ _ account => account

/-- Whether the account has the role afterwards. -/
def grants : RoleCall → Bool
  | .grantRole _ _ _ => true
  | .revokeRole _ _ _ | .renounceRole _ _ _ => false

/-- The sender may make the call. -/
def Permitted (s : AccessControl) : RoleCall → Prop
  | .grantRole env _ _ | .revokeRole env _ _ => s.hasRole DEFAULT_ADMIN_ROLE env.sender = true
  | .renounceRole env _ account => account = env.sender

end RoleCall

variable {s} {s' : AccessControl} {role r : Role} {account a : Address} {call : RoleCall}

/-! ## The members and their enumeration -/

/--
The enumerated members of each role are those that have it, and all roles have the default admin.
-/
structure Enumerated (s : AccessControl) : Prop where
  represents : ∀ role, ∃ members : Finset Address,
    (s.roleMembers role).Represents members ∧ ∀ a, a ∈ members ↔ s.hasRole role a = true
  admin : ∀ role, s.getRoleAdmin role = DEFAULT_ADMIN_ROLE

theorem enumerated_blank : Enumerated blank where
  represents _ := ⟨∅, EnumerableSet.represents_empty, fun a => by simp [hasRole, blank]⟩
  admin _ := rfl

@[simp] theorem getRoleAdmin_setMember (member : Bool) :
    (s.setMember role account member).getRoleAdmin r = s.getRoleAdmin r := by
  unfold setMember getRoleAdmin
  by_cases hr : r = role
  · subst hr
    simp only [Function.update_self]
  · simp only [Function.update_of_ne hr]

theorem hasRole_setMember (member : Bool) :
    (s.setMember role account member).hasRole r a
      = if r = role ∧ a = account then member else s.hasRole r a := by
  unfold setMember hasRole
  by_cases hr : r = role
  · subst hr
    simp only [Function.update_self, Function.update_apply, true_and]
  · simp only [Function.update_of_ne hr, hr, false_and, if_false]

/-- A member is set only if that changes something, which makes no difference. -/
theorem setMember_eq_self {member : Bool} (h : s.hasRole role account = member) :
    s.setMember role account member = s := by
  unfold setMember
  have hmembers : Function.update (s.roles role).members account member = (s.roles role).members := by
    rw [← h]
    exact Function.update_eq_self _ _
  rw [hmembers, Function.update_eq_self]

/-- What both `_grantRole` and `_revokeRole` come to, for the enumerated members afterwards. -/
def update (s : AccessControl) (role : Role) (account : Address) (member : Bool)
    (members : EnumerableSet Address) : AccessControl :=
  { s.setMember role account member with
    roleMembers := Function.update s.roleMembers role members }

@[simp] theorem hasRole_update (member : Bool) (members : EnumerableSet Address) :
    (s.update role account member members).hasRole r a
      = if r = role ∧ a = account then member else s.hasRole r a :=
  hasRole_setMember member

theorem grantRoleInternal_eq :
    s.grantRoleInternal role account
      = s.update role account true ((s.roleMembers role).add account).1 := by
  unfold grantRoleInternal update
  by_cases h : s.hasRole role account = false
  · rw [if_pos h]
    rfl
  · rw [if_neg h, setMember_eq_self (Bool.not_eq_false _ |>.mp h)]

theorem revokeRoleInternal_eq {members : EnumerableSet Address} {removed : Bool}
    (hremove : ((s.roleMembers role).remove account : Call AccessControlError _)
      = .ok (members, removed)) :
    s.revokeRoleInternal role account = .ok (s.update role account false members) := by
  unfold revokeRoleInternal update
  by_cases h : s.hasRole role account = true
  · rw [if_pos h]
    simp only [setMember, hremove, ok_bind]
    rfl
  · rw [if_neg h, setMember_eq_self (Bool.not_eq_true _ |>.mp h)]
    simp only [hremove, ok_bind]
    rfl

/-- One member is changed, and the enumeration with it. -/
structure Changed (s : AccessControl) (role : Role) (account : Address) (member : Bool)
    (s' : AccessControl) : Prop where
  enumerated : s'.Enumerated
  hasRole : ∀ r a, s'.hasRole r a = if r = role ∧ a = account then member else s.hasRole r a

theorem Enumerated.update (h : s.Enumerated) {member : Bool} {members : EnumerableSet Address}
    {after : Finset Address} (hmembers : members.Represents after)
    (hafter : ∀ a, a ∈ after ↔ (s.update role account member members).hasRole role a = true) :
    Changed s role account member (s.update role account member members) where
  enumerated :=
    { represents := fun r => by
        by_cases hr : r = role
        · subst hr
          refine ⟨after, ?_, hafter⟩
          simpa only [AccessControl.update, Function.update_self] using hmembers
        · obtain ⟨before, hbefore, hmem⟩ := h.represents r
          refine ⟨before, ?_, fun a => ?_⟩
          · simpa only [AccessControl.update, Function.update_of_ne hr] using hbefore
          · rw [hasRole_update, if_neg fun hsame => hr hsame.1]
            exact hmem a
      admin := fun r => (getRoleAdmin_setMember member).trans (h.admin r) }
  hasRole _ _ := hasRole_update member members

theorem Enumerated.grant (h : s.Enumerated) (role : Role) (account : Address) :
    Changed s role account true (s.grantRoleInternal role account) := by
  rw [grantRoleInternal_eq]
  obtain ⟨members, hrepresents, hmem⟩ := h.represents role
  refine h.update (hrepresents.add account).1 fun a => ?_
  rw [hasRole_update, Finset.mem_insert, hmem]
  by_cases ha : a = account <;> simp [ha]

theorem Enumerated.revoke (h : s.Enumerated) (role : Role) (account : Address) :
    ∃ s', s.revokeRoleInternal role account = .ok s' ∧ Changed s role account false s' := by
  obtain ⟨members, hrepresents, hmem⟩ := h.represents role
  obtain ⟨after, hremove, hafter⟩ := hrepresents.remove account
  refine ⟨_, revokeRoleInternal_eq hremove, h.update hafter fun a => ?_⟩
  rw [hasRole_update, Finset.mem_erase, hmem]
  by_cases ha : a = account <;> simp [ha]

/-- A contract after its deployment. -/
def Deployed (s : AccessControl) : Prop :=
  ∃ setups, s = blank.setupRoles setups

theorem Enumerated.setupRoles (h : s.Enumerated) (setups : List (Role × Address)) :
    (s.setupRoles setups).Enumerated := by
  induction setups generalizing s with
  | nil => exact h
  | cons setup setups ih => exact ih (h.grant setup.1 setup.2).enumerated

theorem Deployed.enumerated (h : s.Deployed) : s.Enumerated := by
  obtain ⟨setups, rfl⟩ := h
  exact enumerated_blank.setupRoles setups

/-! ## What the calls do -/

/-- **A call succeeds exactly if it is permitted**, and changes what it names. -/
theorem Enumerated.run (h : s.Enumerated) :
    ((∃ s', s.run call = .ok s') ↔ call.Permitted s) ∧
      ∀ s', s.run call = .ok s' → Changed s call.role call.account call.grants s' := by
  cases call with
  | grantRole env role account =>
    simp only [AccessControl.run, AccessControl.grantRole, h.admin, checkRole, bind_eq_ok,
      require_eq_ok, pure_eq_ok, RoleCall.Permitted]
    constructor
    · constructor
      · rintro ⟨_, _, hadmin, -⟩
        exact hadmin
      · exact fun hadmin => ⟨_, (), hadmin, rfl⟩
    · rintro s' ⟨_, -, rfl⟩
      exact h.grant role account
  | revokeRole env role account =>
    obtain ⟨s₁, hrevoke, hchanged⟩ := h.revoke role account
    simp only [AccessControl.run, AccessControl.revokeRole, h.admin, checkRole, bind_eq_ok,
      require_eq_ok, hrevoke, RoleCall.Permitted]
    constructor
    · constructor
      · rintro ⟨_, _, hadmin, -⟩
        exact hadmin
      · exact fun hadmin => ⟨s₁, (), hadmin, rfl⟩
    · rintro s' ⟨_, -, heq⟩
      cases heq
      exact hchanged
  | renounceRole env role account =>
    obtain ⟨s₁, hrevoke, hchanged⟩ := h.revoke role account
    simp only [AccessControl.run, AccessControl.renounceRole, bind_eq_ok, require_eq_ok, hrevoke,
      RoleCall.Permitted]
    constructor
    · constructor
      · rintro ⟨_, _, hself, -⟩
        exact hself
      · exact fun hself => ⟨s₁, (), hself, rfl⟩
    · rintro s' ⟨_, -, heq⟩
      cases heq
      exact hchanged

/-! ## Runs -/

/-- The steps of a run, recorded with the calls. -/
def Performs (s : AccessControl) (call : RoleCall) (s' : AccessControl) : Prop :=
  s.run call = .ok s'

/-- The runs of a contract from its deployment on. -/
abbrev RoleRun (s₀ : AccessControl) (w : Recorded AccessControl RoleCall) : Prop :=
  Reachable (· = ⟨s₀, []⟩) (Recorded.Acts Performs) w

variable {s₀ : AccessControl} {w : Recorded AccessControl RoleCall}

theorem enumerated_of_run (hdeployed : s₀.Deployed) (h : RoleRun s₀ w) : w.state.Enumerated := by
  have hinit : ∀ w : Recorded AccessControl RoleCall, w = ⟨s₀, []⟩ → w.state.Enumerated := by
    rintro _ rfl
    exact hdeployed.enumerated
  refine h.invariant hinit fun w w' hw hs => ?_
  obtain ⟨hperforms⟩ := hs
  exact (hw.run.2 _ hperforms).enumerated

/--
**Roles are enumerated exactly.** In every run, the positions below the member count of a role
hold the accounts that have the role, each at one position. Granting and revoking succeed exactly if
the sender is a default admin, renouncing exactly if the sender does it for itself.
-/
theorem roles_enumerated (hdeployed : s₀.Deployed) (h : RoleRun s₀ w) :
    (∀ role, ∃ members : Finset Address, (∀ a, a ∈ members ↔ w.state.hasRole role a = true) ∧
      w.state.getRoleMemberCount role = members.card ∧
      (∀ i, i < members.card ↔ ∃ a ∈ members, w.state.getRoleMember role i = .ok a) ∧
      ∀ a ∈ members, ∃! i, w.state.getRoleMember role i = .ok a) ∧
    ∀ call, (∃ s', w.state.run call = .ok s') ↔ call.Permitted w.state := by
  have henumerated := enumerated_of_run hdeployed h
  refine ⟨fun role => ?_, fun call => henumerated.run.1⟩
  obtain ⟨members, hrepresents, hmem⟩ := henumerated.represents role
  obtain ⟨hbelow, hall, hunique⟩ := hrepresents.enumerates
  refine ⟨members, hmem, hrepresents.length_eq, fun i => ?_, fun a ha => ?_⟩
  · rw [← hrepresents.length_eq]
    exact hbelow i
  · obtain ⟨i, hi⟩ := hall a ha
    exact ⟨i, hi, fun j hj => hunique j i a hj hi⟩

/-!
An admin grants a role that another account has from the deployment on, and then renounces to be
the admin.
-/

def exampleDeployed : AccessControl :=
  blank.setupRoles [(DEFAULT_ADMIN_ROLE, 1), (7, 2)]

theorem exampleTime_pos : 0 < 30 := by decide

def exampleEnv (sender : Address) : Env := ⟨sender, 0, 30, exampleTime_pos⟩

def exampleGrant : RoleCall := .grantRole (exampleEnv 1) 7 3

def exampleGranted : AccessControl :=
  result (exampleDeployed.run exampleGrant) (by decide +kernel)

theorem performs_exampleGranted : Performs exampleDeployed exampleGrant exampleGranted :=
  eq_ok_result _ (by decide +kernel)

theorem roleRun_of_performs (hs : Performs s₀ call s) : RoleRun s₀ ⟨s, [⟨s₀, call, s⟩]⟩ := by
  have hinit : RoleRun s₀ ⟨s₀, []⟩ := .init rfl
  exact hinit.step (.act hs)

theorem roles_enumerated_granted :
    ∃! i, exampleGranted.getRoleMember 7 i = .ok 3 := by
  have hperforms := performs_exampleGranted
  have hrole : exampleGranted.hasRole 7 3 = true := by decide +kernel
  generalize exampleGranted = granted at *
  obtain ⟨hmembers, -⟩ := roles_enumerated ⟨_, rfl⟩ (roleRun_of_performs hperforms)
  obtain ⟨members, hmem, -, -, hposition⟩ := hmembers 7
  exact hposition 3 ((hmem 3).mpr hrole)

/-! ## Where roles come from -/

/-- At this moment a default admin grants the role to the account. -/
def Grants (role : Role) (account : Address) (m : Moment AccessControl RoleCall) : Prop :=
  ∃ env, m.action = .grantRole env role account ∧
    m.before.hasRole DEFAULT_ADMIN_ROLE env.sender = true

/-- At this moment the role is taken from the account, by a default admin or by itself. -/
def Takes (role : Role) (account : Address) (m : Moment AccessControl RoleCall) : Prop :=
  (∃ env, m.action = .revokeRole env role account ∧
      m.before.hasRole DEFAULT_ADMIN_ROLE env.sender = true) ∨
    ∃ env, m.action = .renounceRole env role account ∧ env.sender = account

/-- What the call of a moment does to one role of one account. -/
theorem Enumerated.hasRole_of_performs (h : s.Enumerated) (hs : Performs s call s') (role : Role)
    (account : Address) :
    Grants role account ⟨s, call, s'⟩ ∧ s'.hasRole role account = true ∨
    Takes role account ⟨s, call, s'⟩ ∧ s'.hasRole role account = false ∨
    ¬ Grants role account ⟨s, call, s'⟩ ∧ ¬ Takes role account ⟨s, call, s'⟩ ∧
      s'.hasRole role account = s.hasRole role account := by
  have hpermitted := h.run.1.mp ⟨s', hs⟩
  have hchanged := (h.run.2 s' hs).hasRole role account
  by_cases hnamed : role = call.role ∧ account = call.account
  · obtain ⟨rfl, rfl⟩ := hnamed
    rw [if_pos ⟨rfl, rfl⟩] at hchanged
    cases call with
    | grantRole env role account => exact .inl ⟨⟨env, rfl, hpermitted⟩, hchanged⟩
    | revokeRole env role account => exact .inr (.inl ⟨.inl ⟨env, rfl, hpermitted⟩, hchanged⟩)
    | renounceRole env role account =>
      exact .inr (.inl ⟨.inr ⟨env, rfl, hpermitted.symm⟩, hchanged⟩)
  · rw [if_neg hnamed] at hchanged
    refine .inr (.inr ⟨?_, ?_, hchanged⟩)
    · rintro ⟨env, rfl, -⟩
      exact hnamed ⟨rfl, rfl⟩
    · rintro (⟨env, rfl, -⟩ | ⟨env, rfl, -⟩)
      · exact hnamed ⟨rfl, rfl⟩
      · exact hnamed ⟨rfl, rfl⟩

/--
**Roles come from admins.** In every run, an account has a role exactly if it had the role from the
deployment on, or a default admin of that moment has granted it, and if since then no default
admin has revoked it and the account has not renounced it.
-/
theorem roles_come_from_admins (hdeployed : s₀.Deployed) (h : RoleRun s₀ w) (role : Role)
    (account : Address) :
    w.state.hasRole role account = true ↔
      (s₀.hasRole role account = true ∧ ∀ m ∈ w.history, ¬ Takes role account m) ∨
        Since (Grants role account) (fun m => ¬ Takes role account m) w.history := by
  induction h with
  | init heq =>
    subst heq
    have hnone : ¬ Since (Grants role account) (fun m => ¬ Takes role account m) [] := by
      rintro ⟨past, m, later, heq, -⟩
      exact absurd heq.symm (by simp)
    constructor
    · exact fun hrole => .inl ⟨hrole, fun m hm => absurd hm List.not_mem_nil⟩
    · rintro (⟨hrole, -⟩ | hsince)
      · exact hrole
      · exact absurd hsince hnone
  | @step w w' hw hs ih =>
    obtain ⟨hperforms⟩ := hs
    have henumerated := enumerated_of_run hdeployed hw
    rw [Recorded.record, since_concat_iff]
    simp only [List.mem_append, List.mem_singleton]
    rcases henumerated.hasRole_of_performs hperforms role account with
      ⟨hgrants, hrole⟩ | ⟨htakes, hrole⟩ | ⟨hgrants, htakes, hrole⟩
    · exact iff_of_true hrole (.inr (.inl hgrants))
    · -- nothing is left of what was before
      refine iff_of_false (by rw [hrole]; decide) ?_
      rintro (⟨-, hnever⟩ | hgrants | ⟨-, hnever⟩)
      · exact hnever _ (.inr rfl) htakes
      · obtain ⟨env, rfl, -⟩ := hgrants
        rcases htakes with ⟨_, hcall, -⟩ | ⟨_, hcall, -⟩ <;> cases hcall
      · exact hnever htakes
    · rw [hrole, ih]
      constructor
      · rintro (⟨hfirst, hnever⟩ | hsince)
        · refine .inl ⟨hfirst, fun m hm => ?_⟩
          rcases hm with hm | rfl
          · exact hnever m hm
          · exact htakes
        · exact .inr (.inr ⟨hsince, htakes⟩)
      · rintro (⟨hfirst, hnever⟩ | hgranted | ⟨hsince, -⟩)
        · exact .inl ⟨hfirst, fun m hm => hnever m (.inl hm)⟩
        · exact absurd hgranted hgrants
        · exact .inr hsince

/-- The account has the role, and only because the admin granted it. -/
theorem roles_come_from_admins_granted :
    exampleGranted.hasRole 7 3 = true ∧
      Since (Grants 7 3) (fun m => ¬ Takes 7 3 m)
        [⟨exampleDeployed, exampleGrant, exampleGranted⟩] := by
  have hperforms := performs_exampleGranted
  have hrole : exampleGranted.hasRole 7 3 = true := by decide +kernel
  have hbefore : exampleDeployed.hasRole 7 3 = false := by decide +kernel
  generalize exampleGranted = granted at *
  rcases (roles_come_from_admins ⟨_, rfl⟩ (roleRun_of_performs hperforms) 7 3).mp hrole with
    ⟨hfirst, -⟩ | hsince
  · cases hbefore.symm.trans hfirst
  · exact ⟨hrole, hsince⟩

/-! ## Without admins -/

/-- A call in a state without a default admin. -/
theorem Enumerated.renounces (h : s.Enumerated) (hs : Performs s call s')
    (hnone : ∀ a, s.hasRole DEFAULT_ADMIN_ROLE a = false) :
    ∃ env role, call = .renounceRole env role env.sender ∧
      ∀ r a, s'.hasRole r a = if r = role ∧ a = env.sender then false else s.hasRole r a := by
  have hpermitted := h.run.1.mp ⟨s', hs⟩
  have hchanged := (h.run.2 s' hs).hasRole
  cases call with
  | grantRole env role account => exact absurd hpermitted (by simp [RoleCall.Permitted, hnone])
  | revokeRole env role account => exact absurd hpermitted (by simp [RoleCall.Permitted, hnone])
  | renounceRole env role account =>
    obtain rfl : account = env.sender := hpermitted
    exact ⟨env, role, rfl, hchanged⟩

/-- What holds since a moment without a default admin, for the accounts that had roles then. -/
structure Frozen (then_ : AccessControl) (between : List (Moment AccessControl RoleCall))
    (s : AccessControl) : Prop where
  enumerated : s.Enumerated
  admin : ∀ a, s.hasRole DEFAULT_ADMIN_ROLE a = false
  renounces : ∀ m ∈ between, ∃ env role, m.action = .renounceRole env role env.sender
  hasRole : ∀ role account, s.hasRole role account = true ↔ then_.hasRole role account = true ∧
    ∀ m ∈ between, ∀ env, m.action = .renounceRole env role account → env.sender ≠ account

theorem Frozen.performs {then_ : AccessControl} {between : List (Moment AccessControl RoleCall)}
    (h : Frozen then_ between s) (hs : Performs s call s') :
    Frozen then_ (between ++ [⟨s, call, s'⟩]) s' := by
  obtain ⟨env, role, rfl, hchanged⟩ := h.enumerated.renounces hs h.admin
  refine ⟨(h.enumerated.run.2 _ hs).enumerated, fun a => ?_, fun m hm => ?_, fun r a => ?_⟩
  · rw [hchanged, h.admin]
    exact ite_self false
  · rcases List.mem_append.mp hm with hm | hm
    · exact h.renounces m hm
    · rw [List.mem_singleton.mp hm]
      exact ⟨env, role, rfl⟩
  · rw [hchanged]
    simp only [List.mem_append, List.mem_singleton]
    by_cases hself : r = role ∧ a = env.sender
    · obtain ⟨rfl, rfl⟩ := hself
      rw [if_pos ⟨rfl, rfl⟩]
      refine iff_of_false (by decide) ?_
      rintro ⟨-, hnever⟩
      exact hnever _ (.inr rfl) env rfl rfl
    · rw [if_neg hself, h.hasRole]
      refine and_congr_right fun _ => ⟨fun hnever m hm env' haction => ?_,
        fun hnever m hm => hnever m (.inl hm)⟩
      rcases hm with hm | rfl
      · exact hnever m hm env' haction
      · rintro rfl
        cases haction
        exact hself ⟨rfl, rfl⟩

/--
**Without a default admin roles only shrink.** In every run, after a call that leaves no account as a
default admin, there never is one again; the only calls that succeed are those of accounts that
renounce their own roles, and an account has a role exactly if it had it then and has not renounced
it.
-/
theorem frozen_without_admin (hdeployed : s₀.Deployed) (h : RoleRun s₀ w)
    {past later : List (Moment AccessControl RoleCall)} {m : Moment AccessControl RoleCall}
    (hhistory : w.history = past ++ m :: later)
    (hnone : ∀ a, m.after.hasRole DEFAULT_ADMIN_ROLE a = false) :
    (∀ a, w.state.hasRole DEFAULT_ADMIN_ROLE a = false) ∧
    (∀ m' ∈ later, ∃ env role, m'.action = .renounceRole env role env.sender) ∧
    ∀ role account, w.state.hasRole role account = true ↔ m.after.hasRole role account = true ∧
      ∀ m' ∈ later, ∀ env, m'.action = .renounceRole env role account → env.sender ≠ account := by
  have hstarts : ∀ w₀ : Recorded AccessControl RoleCall, w₀ = ⟨s₀, []⟩ → w₀.history = [] := by
    rintro _ rfl
    rfl
  obtain ⟨hbefore, hperforms, -⟩ := h.cut (fun w₀ h₀ => by
    rw [hstarts w₀ h₀]
    exact Nat.zero_le _) hhistory
  have henumerated := (enumerated_of_run hdeployed hbefore).run.2 _ hperforms
  have hfrozen : Frozen m.after later w.state := by
    refine h.lasting hstarts hhistory ?_ fun between s call s' hs hperforms =>
      Frozen.performs hs hperforms
    exact ⟨henumerated.enumerated, hnone, fun m' hm' => absurd hm' List.not_mem_nil,
      fun role account => by simp⟩
  exact ⟨hfrozen.admin, hfrozen.renounces, hfrozen.hasRole⟩

theorem Enumerated.hasRole_of_count (h : s.Enumerated) (hcount : s.getRoleMemberCount role = 0)
    (a : Address) : s.hasRole role a = false := by
  obtain ⟨members, hrepresents, hmem⟩ := h.represents role
  have hnone : members = ∅ := Finset.card_eq_zero.mp (hrepresents.length_eq.symm.trans hcount)
  rw [← Bool.not_eq_true, ← hmem, hnone]
  exact Finset.notMem_empty a

/-- The admin renounces, and then the account that it has granted the role to. -/
def exampleRenounce : RoleCall := .renounceRole (exampleEnv 1) DEFAULT_ADMIN_ROLE 1

def exampleRenounced : AccessControl :=
  result (exampleGranted.run exampleRenounce) (by decide +kernel)

theorem performs_exampleRenounced : Performs exampleGranted exampleRenounce exampleRenounced :=
  eq_ok_result _ (by decide +kernel)

def exampleRenounceLater : RoleCall := .renounceRole (exampleEnv 3) 7 3

def exampleLater : AccessControl :=
  result (exampleRenounced.run exampleRenounceLater) (by decide +kernel)

theorem performs_exampleLater : Performs exampleRenounced exampleRenounceLater exampleLater :=
  eq_ok_result _ (by decide +kernel)

theorem frozen_without_admin_renounced :
    (∀ a, exampleLater.hasRole DEFAULT_ADMIN_ROLE a = false) ∧
      exampleLater.hasRole 7 2 = true := by
  have hgrant := performs_exampleGranted
  have hrenounce := performs_exampleRenounced
  have hlater := performs_exampleLater
  have hcount : exampleRenounced.getRoleMemberCount DEFAULT_ADMIN_ROLE = 0 := by decide +kernel
  have hrole : exampleRenounced.hasRole 7 2 = true := by decide +kernel
  generalize exampleLater = last at *
  generalize exampleRenounced = renounced at *
  generalize exampleGranted = granted at *
  have hrun := (roleRun_of_performs hgrant).step (.act hrenounce)
  have hrun' := hrun.step (.act hlater)
  have hhistory : [⟨exampleDeployed, exampleGrant, granted⟩, ⟨granted, exampleRenounce, renounced⟩,
      ⟨renounced, exampleRenounceLater, last⟩] =
      [⟨exampleDeployed, exampleGrant, granted⟩] ++ ⟨granted, exampleRenounce, renounced⟩ ::
        [(⟨renounced, exampleRenounceLater, last⟩ : Moment AccessControl RoleCall)] := rfl
  have henumerated := enumerated_of_run ⟨_, rfl⟩ hrun
  obtain ⟨hadmin, -, hroles⟩ := frozen_without_admin ⟨_, rfl⟩ hrun' hhistory
    (henumerated.hasRole_of_count hcount)
  refine ⟨hadmin, (hroles 7 2).mpr ⟨hrole, fun m hm env hcall => ?_⟩⟩
  rw [List.mem_singleton.mp hm] at hcall
  cases hcall

end AccessControl

end Catalist
