import Plebiscite.Proofs.Keyed
import Plebiscite.Proofs.Number
import Plebiscite.Proofs.Plan
import Plebiscite.Roster

/-!
# Rosters that list texts

Whoever is named to a roster is named by a text, so all that it ever lists are texts.  The members
that it reports are those of the organization that it is asked for, in one mode as in the other.

## Main definitions

- `Roster.Change`, `Roster.after`: what may be asked of a roster, and the roster after it
- `Roster.Writes`: what a change makes of the organization that it is about
- `Roster.Restaked`: what a change may make of the stakes of an organization
- `Roster.Named`: a roster that lists texts

## Main results

- `Roster.writes_of_change`: a change writes the organization that it is about, and no other
- `Roster.All.after`: what no change of stakes breaks holds after every change
- `Roster.Named.after`: every change leads to a roster that lists texts
- `Roster.Named.stakeSource`: such a roster is a source that lists texts
- `Roster.members?_of_reported`: the members that are reported
-/

namespace Plebiscite.Roster

/-- What may be asked of a roster. -/
inductive Change where
  | createOrganization (org supervisor : String)
  | addSupervisor (org supervisor : String)
  | setStake (org member : String) (stake : Int)
  | removeMember (org member : String)
deriving DecidableEq, Repr

/-- The organization that a change is about. -/
def Change.org : Change → String
  | .createOrganization org _ => org
  | .addSupervisor org _ => org
  | .setStake org _ _ => org
  | .removeMember org _ => org

/-- The roster with a change, unless that is refused. -/
def change (r : Roster) : Change → Except RosterFault Roster
  | .createOrganization org supervisor => r.createOrganization (.text org) (.text supervisor)
  | .addSupervisor org supervisor => r.addSupervisor (.text org) (.text supervisor)
  | .setStake org member stake => r.setStake (.text org) (.text member) (.integer stake)
  | .removeMember org member => r.removeMember (.text org) (.text member)

/-- The roster after a change, whether that was made or refused. -/
def after (r : Roster) (c : Change) : Roster :=
  match r.change c with
  | .ok r' => r'
  | .error _ => r

variable {r r' : Roster} {org : Value} {organization : Organization}

theorem require_eq_ok : r.require org = .ok organization ↔ r.get? org = some organization := by
  unfold require
  cases r.get? org <;> simp

/-! ## What a change does -/

/-- What a change makes of the organization that it is about.  No stake is below zero. -/
inductive Writes (r : Roster) : Change → Organization → Prop
  | created {org first : String} (hnew : r.get? (.text org) = none) :
      Writes r (.createOrganization org first) ⟨[.text first], []⟩
  | supervised {org caller : String} {old new : Organization}
      (hget : r.get? (.text org) = some old) (hstakes : new.stakes = old.stakes)
      (hmem : ∀ v, v ∈ new.supervisors ↔ v ∈ old.supervisors ∨ v = .text caller) :
      Writes r (.addSupervisor org caller) new
  | staked {org member : String} {stake : Nat} {old : Organization}
      (hget : r.get? (.text org) = some old) :
      Writes r (.setStake org member stake)
        ⟨old.supervisors, old.stakes.put (.text member) (.integer stake)⟩
  | removed {org member : String} {old : Organization} (hget : r.get? (.text org) = some old) :
      Writes r (.removeMember org member) ⟨old.supervisors, old.stakes.drop (.text member)⟩

/-- A stake that is not refused is not below zero. -/
theorem exists_of_not_before {stake : Int}
    (h : ¬ (Value.integer stake).before (.integer 0) = true) : ∃ n : Nat, stake = n := by
  have hbefore : (Value.integer stake).before (.integer 0) = decide (stake < 0) :=
    Number.ofInt_lt stake 0
  rw [hbefore, decide_eq_true_eq, not_lt] at h
  exact Int.eq_ofNat_of_zero_le h

/-- A change writes the organization that it is about, or that is as it should be already. -/
theorem writes_of_change {c : Change} (h : r.change c = .ok r') : ∃ o, Writes r c o ∧
    (r' = r.put (.text c.org) o ∨ r' = r ∧ r.get? (.text c.org) = some o) := by
  cases c with
  | createOrganization org first =>
    simp only [Roster.change, createOrganization] at h
    split at h
    · cases h
    · rename_i hnew
      cases h
      rw [Bool.not_eq_true, Option.isSome_eq_false_iff, Option.isNone_iff_eq_none] at hnew
      exact ⟨_, .created hnew, .inl rfl⟩
  | addSupervisor org caller =>
    simp only [Roster.change, addSupervisor, Checks.bind_eq_ok, require_eq_ok] at h
    obtain ⟨old, hget, h⟩ := h
    split at h
    · -- Who is a supervisor already is not added.
      rename_i hamong
      rw [Plan.isAmong_iff rfl] at hamong
      cases h
      have hwrites : Writes r (.addSupervisor org caller) old :=
        .supervised hget rfl fun v => (or_iff_left_of_imp fun hv => hv ▸ hamong).symm
      exact ⟨old, hwrites, .inr ⟨rfl, hget⟩⟩
    · cases h
      have hwrites : Writes r (.addSupervisor org caller)
          ⟨old.supervisors ++ [.text caller], old.stakes⟩ :=
        .supervised hget rfl fun v => by rw [List.mem_append, List.mem_singleton]
      exact ⟨_, hwrites, .inl rfl⟩
  | setStake org member stake =>
    simp only [Roster.change, setStake, Checks.ite_throw_bind_eq_ok, Checks.bind_eq_ok,
      require_eq_ok] at h
    obtain ⟨hstake, old, hget, h⟩ := h
    obtain ⟨n, rfl⟩ := exists_of_not_before hstake
    cases h
    exact ⟨_, .staked hget, .inl rfl⟩
  | removeMember org member =>
    simp only [Roster.change, removeMember, Checks.ite_throw_bind_eq_ok, Checks.bind_eq_ok,
      require_eq_ok] at h
    obtain ⟨old, hget, -, h⟩ := h
    cases h
    exact ⟨_, .removed hget, .inl rfl⟩

/-- What the stakes of an organization may be after a change: none yet, those that it had, or those
with one member more or less.  No stake is below zero. -/
inductive Restaked (r : Roster) (org : Value) : Index Value → Prop
  | created : Restaked r org []
  | kept {old : Organization} (hget : r.get? org = some old) : Restaked r org old.stakes
  | staked {old : Organization} (hget : r.get? org = some old) (member : String) (stake : Nat) :
      Restaked r org (old.stakes.put (.text member) (.integer stake))
  | removed {old : Organization} (hget : r.get? org = some old) (member : String) :
      Restaked r org (old.stakes.drop (.text member))

/-- Where the stakes alone matter, it does not matter which change it is. -/
theorem Writes.restaked {c : Change} {o : Organization} (h : Writes r c o) :
    Restaked r (.text c.org) o.stakes := by
  cases h with
  | created => exact .created
  | supervised hget hstakes =>
    rw [hstakes]
    exact .kept hget
  | staked hget => exact .staked hget _ _
  | removed hget => exact .removed hget _

/-- Whatever holds of the stakes of every organization. -/
def All (P : Index Value → Prop) (r : Roster) : Prop :=
  ∀ entry ∈ r.organizations, P entry.2.stakes

namespace All

variable {P Q : Index Value → Prop}

theorem empty : Roster.empty.All P := by
  simp [All, Roster.empty]

theorem of_get? (h : r.All P) (hget : r.get? org = some organization) : P organization.stakes := by
  obtain ⟨key, hmem⟩ := Index.mem_of_get? hget
  exact h _ hmem

/-- What no change of the stakes breaks is not broken by a change of the roster. -/
theorem after (h : r.All P) (c : Change) (hkeep : ∀ stakes, P stakes → Q stakes) (hnil : Q [])
    (hput : ∀ stakes member, ∀ stake : Nat, P stakes →
      Q (stakes.put (.text member) (.integer stake)))
    (hdrop : ∀ stakes member, P stakes → Q (stakes.drop (.text member))) :
    (r.after c).All Q := by
  have hkept : r.All Q := fun entry hentry => hkeep _ (h entry hentry)
  unfold Roster.after
  split
  · rename_i r' hchange
    obtain ⟨organization, hwrites, rfl | ⟨rfl, -⟩⟩ := writes_of_change hchange
    · have hrestaked := hwrites.restaked
      intro entry hentry
      rcases Index.mem_put hentry with rfl | hentry
      · show Q organization.stakes
        generalize organization.stakes = stakes at hrestaked
        cases hrestaked with
        | created => exact hnil
        | kept hget => exact hkeep _ (h.of_get? hget)
        | staked hget member stake => exact hput _ member stake (h.of_get? hget)
        | removed hget member => exact hdrop _ member (h.of_get? hget)
      · exact hkept entry hentry
    · exact hkept
  · exact hkept

end All

/-! ## Members that are texts -/

/-- Every member of every organization is a text. -/
structure Named (r : Roster) : Prop where
  named : ∀ entry ∈ r.organizations, ∀ stake ∈ entry.2.stakes, Plan.isNamed stake.1 = true

namespace Named

theorem all (h : r.Named) :
    r.All fun stakes => ∀ stake ∈ stakes, Plan.isNamed stake.1 = true :=
  h.named

theorem empty : Roster.empty.Named :=
  ⟨by simp [Roster.empty]⟩

theorem after (h : r.Named) (c : Change) : (r.after c).Named := by
  refine ⟨h.all.after c (fun _ => id) (by simp) ?_ ?_⟩
  · -- The one that is added, or whose stake is replaced, is named by a text.
    intro stakes member stake hstakes entry hentry
    rcases Index.mem_put hentry with rfl | hentry
    · rfl
    · exact hstakes entry hentry
  · intro stakes member hstakes entry hentry
    exact hstakes entry (List.mem_filter.mp hentry).1

/-- A roster that lists texts is a source that lists texts. -/
theorem stakeSource (h : r.Named) : r.stakeSource.Named where
  group_named := by
    intro org members hmembers m hm
    obtain ⟨organization, hget, rfl⟩ := Option.map_eq_some_iff.mp hmembers
    obtain ⟨stake, hstake, rfl⟩ := List.mem_map.mp hm
    exact h.all.of_get? hget stake hstake
  stakes_named := by
    intro org group hgroup holding hholding
    obtain ⟨organization, hget, rfl⟩ := Option.map_eq_some_iff.mp hgroup
    obtain ⟨stake, hstake, rfl⟩ := List.mem_map.mp hholding
    exact h.all.of_get? hget stake hstake

end Named

/-- In either mode the members of the organization are reported. -/
theorem members?_of_reported {e : Electorate} {members : List Value}
    (h : r.stakeSource.reported e = some members) : r.members? e.org = some members := by
  unfold StakeSource.reported at h
  split at h
  · exact h
  · obtain ⟨group, hgroup, rfl⟩ := Option.map_eq_some_iff.mp h
    obtain ⟨organization, hget, rfl⟩ := Option.map_eq_some_iff.mp hgroup
    rw [members?, hget, Option.map_some, List.map_map]
    rfl
  · cases h

end Plebiscite.Roster
