import Plebiscite.Proofs.Plan.Refusal
import Plebiscite.Proofs.Roster.Stakes

/-!
# What a roster tells of its history

Of all that was asked of a roster, the changes that were made are its log.  The log alone decides
what the roster reports: an organization is known once it was created; a member is listed, with the
stake that was set last, as long as it was not removed since; and members are listed in the order in
which they joined, so a new stake moves nobody, and whoever was removed and joins again comes last.

## Main definitions

- `Roster.run`, `Roster.made`: the roster after changes, and those of them that were made
- `Roster.Created`, `Roster.Supervises`: organizations and supervisors that a log tells of
- `Roster.Stands`, `Roster.Joined`: members that a log tells of, and since when
- `Roster.Follows`: a roster that knows what its log tells
- `WeightedGroup.Told`: stakes that are reported as a log tells

## Main results

- `Roster.stands_snoc`, `Roster.joined_snoc`: what one more change makes of the members
- `Roster.Follows.change`: one change keeps a roster and its log together
- `Roster.Follows.run`: so do all changes, and they start together
- `Roster.Sound.cause_of_make`: from a sound roster no plan fails over a repeated member or a total
- `Roster.run_tells_log`: what is reported after any changes
-/

namespace Plebiscite

namespace Roster

/-- The roster after some changes, those made and those refused. -/
def run (r : Roster) (cs : List Change) : Roster :=
  cs.foldl after r

/-- The changes that are made, in order. -/
def made (r : Roster) : List Change → List Change
  | [] => []
  | c :: cs =>
    match r.change c with
    | .ok r' => c :: made r' cs
    | .error _ => made r cs

/-! ## What a log tells -/

/-- The organization was created. -/
def Created (log : List Change) (org : String) : Prop :=
  ∃ first, .createOrganization org first ∈ log

/-- The caller was named when the organization was created, or was added later on. -/
def Supervises (log : List Change) (org caller : String) : Prop :=
  ∃ earlier first later, log = earlier ++ .createOrganization org first :: later ∧
    (caller = first ∨ .addSupervisor org caller ∈ later)

/-- The stake of the member was set, and since then it was not set again nor the member removed. -/
def Stands (log : List Change) (org member : String) (stake : Int) : Prop :=
  ∃ earlier later, log = earlier ++ .setStake org member stake :: later ∧
    (∀ other, .setStake org member other ∉ later) ∧ .removeMember org member ∉ later

/-- At this place of the log the member joined, and since then it was not removed. -/
def Joined (log : List Change) (org member : String) (place : Nat) : Prop :=
  ∃ earlier stake later, log = earlier ++ .setStake org member stake :: later ∧
    earlier.length = place ∧ (¬ ∃ other, Stands earlier org member other) ∧
      .removeMember org member ∉ later

/-- A listed member that is named by a text joined before another one. -/
def Earlier (log : List Change) (org : String) (a b : Value) : Prop :=
  ∀ m n i j, a = .text m → b = .text n → Joined log org m i → Joined log org n j → i < j

variable {r r' : Roster} {c : Change} {log : List Change} {org member caller : String} {stake : Int}
  {place : Nat} {o : Organization}

/-! ## One more change -/

/-- A list that ends with an element is split at this one, or at one before it. -/
theorem snoc_eq_append_cons {α : Type} {l earlier later : List α} {a b : α} :
    l ++ [a] = earlier ++ b :: later ↔ (later = [] ∧ l = earlier ∧ a = b) ∨
      ∃ rest, later = rest ++ [a] ∧ l = earlier ++ b :: rest := by
  constructor
  · intro hsplit
    rcases List.eq_nil_or_concat later with rfl | ⟨rest, d, rfl⟩
    · obtain ⟨hl, hab⟩ := List.append_inj' hsplit rfl
      exact .inl ⟨rfl, hl, List.singleton_inj.mp hab⟩
    · have hsplit' : l ++ [a] = (earlier ++ b :: rest) ++ [d] := by simpa using hsplit
      obtain ⟨hl, had⟩ := List.append_inj' hsplit' rfl
      exact .inr ⟨rest, by rw [List.singleton_inj.mp had, List.concat_eq_append], hl⟩
  · rintro (⟨rfl, rfl, rfl⟩ | ⟨rest, rfl, rfl⟩)
    · rfl
    · simp

theorem created_snoc : Created (log ++ [c]) org ↔
    Created log org ∨ ∃ first, c = .createOrganization org first := by
  simp only [Created, List.mem_append, List.mem_singleton, exists_or, eq_comm (a := c)]

/-- A supervisor stays one, and becomes one by being added to an organization that there is, or by
creating one. -/
theorem supervises_snoc : Supervises (log ++ [c]) org caller ↔ Supervises log org caller ∨
    (Created log org ∧ c = .addSupervisor org caller) ∨ c = .createOrganization org caller := by
  constructor
  · rintro ⟨earlier, first, later, hsplit, hcaller⟩
    rcases snoc_eq_append_cons.mp hsplit with ⟨rfl, rfl, rfl⟩ | ⟨rest, rfl, rfl⟩
    · rcases hcaller with rfl | hadded
      · exact .inr (.inr rfl)
      · cases hadded
    · rcases hcaller with rfl | hadded
      · exact .inl ⟨earlier, _, rest, rfl, .inl rfl⟩
      · rcases List.mem_append.mp hadded with hadded | hadded
        · exact .inl ⟨earlier, first, rest, rfl, .inr hadded⟩
        · exact .inr (.inl ⟨⟨first, by simp⟩, (List.mem_singleton.mp hadded).symm⟩)
  · rintro (⟨earlier, first, later, rfl, hcaller⟩ | ⟨⟨first, hfirst⟩, rfl⟩ | rfl)
    · exact ⟨earlier, first, later ++ [c], by simp, hcaller.imp_right (List.mem_append_left _)⟩
    · obtain ⟨earlier, later, rfl⟩ := List.append_of_mem hfirst
      exact ⟨earlier, first, later ++ [.addSupervisor org caller], by simp, .inr (by simp)⟩
    · exact ⟨log, caller, [], rfl, .inl rfl⟩

/-- A stake stands once it is set, until it is set again or the member removed. -/
theorem stands_snoc : Stands (log ++ [c]) org member stake ↔ c = .setStake org member stake ∨
    (Stands log org member stake ∧ (∀ other, c ≠ .setStake org member other) ∧
      c ≠ .removeMember org member) := by
  constructor
  · rintro ⟨earlier, later, hsplit, hset, hremoved⟩
    rcases snoc_eq_append_cons.mp hsplit with ⟨rfl, rfl, rfl⟩ | ⟨rest, rfl, rfl⟩
    · exact .inl rfl
    · simp only [List.mem_append, List.mem_singleton, not_or] at hset hremoved
      exact .inr ⟨⟨earlier, rest, rfl, fun other => (hset other).1, hremoved.1⟩,
        fun other => Ne.symm (hset other).2, Ne.symm hremoved.2⟩
  · rintro (rfl | ⟨⟨earlier, later, rfl, hset, hremoved⟩, hset', hremoved'⟩)
    · exact ⟨log, [], rfl, by simp, by simp⟩
    · refine ⟨earlier, later ++ [c], by simp, fun other hmem => ?_, fun hmem => ?_⟩
      · rcases List.mem_append.mp hmem with hmem | hmem
        · exact hset other hmem
        · exact hset' other (List.mem_singleton.mp hmem).symm
      · rcases List.mem_append.mp hmem with hmem | hmem
        · exact hremoved hmem
        · exact hremoved' (List.mem_singleton.mp hmem).symm

/-- A member joins when a stake is set for it while none stands, and then stays where it is until
it is removed. -/
theorem joined_snoc : Joined (log ++ [c]) org member place ↔
    (place = log.length ∧ (∃ stake, c = .setStake org member stake) ∧
      ¬ ∃ stake, Stands log org member stake) ∨
    (Joined log org member place ∧ c ≠ .removeMember org member) := by
  constructor
  · rintro ⟨earlier, stake, later, hsplit, rfl, hnew, hremoved⟩
    rcases snoc_eq_append_cons.mp hsplit with ⟨rfl, rfl, rfl⟩ | ⟨rest, rfl, rfl⟩
    · exact .inl ⟨rfl, ⟨stake, rfl⟩, hnew⟩
    · simp only [List.mem_append, List.mem_singleton, not_or] at hremoved
      exact .inr ⟨⟨earlier, stake, rest, rfl, rfl, hnew, hremoved.1⟩, Ne.symm hremoved.2⟩
  · rintro (⟨rfl, ⟨stake, rfl⟩, hnew⟩ | ⟨⟨earlier, stake, later, rfl, rfl, hnew, hremoved⟩, hkept⟩)
    · exact ⟨log, stake, [], rfl, rfl, hnew, by simp⟩
    · refine ⟨earlier, stake, later ++ [c], by simp, rfl, hnew, fun hmem => ?_⟩
      rcases List.mem_append.mp hmem with hmem | hmem
      · exact hremoved hmem
      · exact hkept (List.mem_singleton.mp hmem).symm

/-- A member has joined and not left exactly when some stake of it stands. -/
theorem exists_joined_iff :
    (∃ place, Joined log org member place) ↔ ∃ stake, Stands log org member stake := by
  induction log using List.reverseRecOn with
  | nil => simp [Joined, Stands]
  | append_singleton log c ih =>
    simp only [joined_snoc, stands_snoc, exists_or, exists_and_right, ih]
    by_cases hset : ∃ stake, c = .setStake org member stake
    · -- It stands now, whether it stood before or joins.
      obtain ⟨stake, rfl⟩ := hset
      by_cases hstands : ∃ stake, Stands log org member stake <;> simp [hstands]
    · rw [not_exists] at hset
      simp [hset]

theorem Joined.lt_length (h : Joined log org member place) : place < log.length := by
  obtain ⟨earlier, stake, later, rfl, rfl, -⟩ := h
  simp

/-! ## Stakes as a log tells -/

/-- The stakes of an organization are those that stand, in the order in which their members
joined. -/
structure Roll (log : List Change) (org : String) (stakes : Index Value) : Prop where
  mem_iff : ∀ entry, entry ∈ stakes ↔
    ∃ member stake, entry = (.text member, .integer stake) ∧ Stands log org member stake
  ordered : (stakes.map (·.1)).Pairwise (Earlier log org)

namespace Roll

variable {stakes : Index Value}

theorem mem_keys (h : Roll log org stakes) :
    Value.text member ∈ stakes.map (·.1) ↔ ∃ stake, Stands log org member stake := by
  simp only [List.mem_map, h.mem_iff]
  constructor
  · rintro ⟨entry, ⟨m, stake, rfl, hstands⟩, hm⟩
    obtain rfl := Value.text.inj hm
    exact ⟨stake, hstands⟩
  · rintro ⟨stake, hstands⟩
    exact ⟨_, ⟨member, stake, rfl, hstands⟩, rfl⟩

theorem nil (h : ∀ c ∈ log, c.org ≠ org) : Roll log org [] := by
  refine ⟨fun entry => ⟨fun hentry => absurd hentry List.not_mem_nil, ?_⟩, .nil⟩
  rintro ⟨member, stake, -, earlier, later, rfl, -⟩
  exact absurd rfl (h (.setStake org member stake) (by simp))

/-- Whoever is listed does not join again. -/
theorem joined_of_snoc (h : Roll log org stakes) (hmember : .text member ∈ stakes.map (·.1))
    (hjoined : Joined (log ++ [c]) org member place) : Joined log org member place := by
  rcases joined_snoc.mp hjoined with ⟨-, -, hnew⟩ | ⟨hjoined, -⟩
  · exact absurd (h.mem_keys.mp hmember) hnew
  · exact hjoined

/-- Whoever is listed keeps its place among the others. -/
theorem ordered_snoc (h : Roll log org stakes) (c : Change) :
    (stakes.map (·.1)).Pairwise (Earlier (log ++ [c]) org) := by
  refine h.ordered.imp_of_mem ?_
  rintro a b ha hb hab m n i j rfl rfl hi hj
  exact hab m n i j rfl rfl (h.joined_of_snoc ha hi) (h.joined_of_snoc hb hj)

/-- What is neither a stake nor a removal changes nothing. -/
theorem keep (h : Roll log org stakes) (hset : ∀ member stake, c ≠ .setStake org member stake)
    (hremove : ∀ member, c ≠ .removeMember org member) : Roll (log ++ [c]) org stakes := by
  refine ⟨fun entry => ?_, h.ordered_snoc c⟩
  simp [h.mem_iff, stands_snoc, hset, hremove]

/-- A new stake takes the place of the one that stood, or it comes last with its member. -/
theorem put (h : Roll log org stakes) (hdistinct : (stakes.map (·.1)).Nodup) (member : String)
    (stake : Int) : Roll (log ++ [.setStake org member stake]) org
      (stakes.put (.text member) (.integer stake)) := by
  refine ⟨fun entry => ?_, ?_⟩
  · rw [Index.mem_put_iff rfl hdistinct, h.mem_iff]
    constructor
    · rintro (rfl | ⟨⟨m, n, rfl, hstands⟩, hne⟩)
      · exact ⟨member, stake, rfl, stands_snoc.mpr (.inl rfl)⟩
      · refine ⟨m, n, rfl, stands_snoc.mpr (.inr ⟨hstands, ?_, by simp⟩)⟩
        rintro other hother
        cases hother
        exact hne rfl
    · rintro ⟨m, n, rfl, hstands⟩
      rcases stands_snoc.mp hstands with hset | ⟨hstands, hset, -⟩
      · cases hset
        exact .inl rfl
      · refine .inr ⟨⟨m, n, rfl, hstands⟩, fun heq => ?_⟩
        cases heq
        exact hset stake rfl
  · rw [Index.keys_put rfl]
    split
    · exact h.ordered_snoc _
    · rename_i hnew
      rw [h.mem_keys] at hnew
      refine List.pairwise_append.mpr ⟨h.ordered_snoc _, List.pairwise_singleton _ _, ?_⟩
      -- All others joined before, and this member joins now.
      rintro a ha b hb m n i j rfl rfl hi hj
      cases List.mem_singleton.mp hb
      rcases joined_snoc.mp hj with ⟨rfl, -, -⟩ | ⟨hj, -⟩
      · exact (h.joined_of_snoc ha hi).lt_length
      · exact absurd (exists_joined_iff.mp ⟨j, hj⟩) hnew

theorem drop (h : Roll log org stakes) (member : String) :
    Roll (log ++ [.removeMember org member]) org (stakes.drop (.text member)) := by
  have hsub : (stakes.drop (.text member)).Sublist stakes := List.filter_sublist
  refine ⟨fun entry => ?_, (h.ordered_snoc _).sublist (hsub.map _)⟩
  rw [Index.drop, List.mem_filter, h.mem_iff]
  constructor
  · rintro ⟨⟨m, n, rfl, hstands⟩, hother⟩
    refine ⟨m, n, rfl, stands_snoc.mpr (.inr ⟨hstands, by simp, ?_⟩)⟩
    intro heq
    cases heq
    simp [Value.same, Value.isStructured] at hother
  · rintro ⟨m, n, rfl, hstands⟩
    rcases stands_snoc.mp hstands with hset | ⟨hstands, -, hremove⟩
    · cases hset
    · refine ⟨⟨m, n, rfl, hstands⟩, ?_⟩
      have hne : m ≠ member := fun heq => hremove (heq ▸ rfl)
      simp [Value.same, hne]

end Roll

/-! ## What a change leaves alone -/

theorem get?_put (key : String) (o : Organization) (other : Value) :
    (r.put (.text key) o).get? other = if other = .text key then some o else r.get? other :=
  Index.get?_put rfl o r.organizations other

/-- What is found after a change that is made: what it wrote, and all else as it was. -/
theorem get?_of_change (h : r.change c = .ok r') :
    ∃ o, Writes r c o ∧ ∀ key, r'.get? key = if key = .text c.org then some o else r.get? key := by
  obtain ⟨o, hwrites, rfl | ⟨rfl, hget⟩⟩ := writes_of_change h
  · exact ⟨o, hwrites, get?_put _ _⟩
  · refine ⟨o, hwrites, fun key => ?_⟩
    split
    · rename_i hkey
      rw [hkey, hget]
    · rfl

/-- A change of one organization does not touch another one. -/
theorem get?_after (hother : c.org ≠ org) : (r.after c).get? (.text org) = r.get? (.text org) := by
  rw [after]
  split
  · rename_i r' hchange
    obtain ⟨o, -, hget⟩ := get?_of_change hchange
    rw [hget, if_neg fun heq => hother (Value.text.inj heq).symm]
  · rfl

theorem run_snoc (r : Roster) (cs : List Change) (c : Change) :
    r.run (cs ++ [c]) = (r.run cs).after c := by
  simp [run]

/-! ## A roster and its log -/

/-- An organization is as a log tells. -/
structure Listed (log : List Change) (org : String) (o : Organization) : Prop where
  created : Created log org
  supervisors : ∀ caller, Value.text caller ∈ o.supervisors ↔ Supervises log org caller
  roll : Roll log org o.stakes

/-- A roster with sound stakes knows the organizations that a log is about, as the log tells of
them. -/
structure Follows (r : Roster) (log : List Change) : Prop where
  sound : r.Sound
  unknown : ∀ org, r.get? (.text org) = none → ∀ c ∈ log, c.org ≠ org
  known : ∀ org o, r.get? (.text org) = some o → Listed log org o

/-- Changes of other organizations do not matter. -/
theorem Listed.keep (h : Listed log org o) (hother : c.org ≠ org) : Listed (log ++ [c]) org o := by
  refine ⟨created_snoc.mpr (.inl h.created), fun caller => ?_, h.roll.keep ?_ ?_⟩
  · rw [h.supervisors, supervises_snoc]
    refine (or_iff_left_of_imp ?_).symm
    rintro (⟨-, rfl⟩ | rfl)
    · exact absurd rfl hother
    · exact absurd rfl hother
  · rintro member stake rfl
    exact hother rfl
  · rintro member rfl
    exact hother rfl

theorem Supervises.created (h : Supervises log org caller) : Created log org := by
  obtain ⟨earlier, first, later, rfl, -⟩ := h
  exact ⟨first, by simp⟩

namespace Follows

theorem empty : Roster.empty.Follows [] :=
  ⟨.empty, by simp, fun _ _ hget => by cases hget⟩

/-- What a change writes is what the longer log tells. -/
theorem listed_of_writes (h : r.Follows log) (hwrites : Writes r c o) :
    Listed (log ++ [c]) c.org o := by
  cases hwrites with
  | @created org first hnew =>
    -- Of an organization that is not known nothing was told, so the roll starts empty.
    have hsilent := h.unknown org hnew
    refine ⟨created_snoc.mpr (.inr ⟨first, rfl⟩), fun caller => ?_, (Roll.nil hsilent).keep ?_ ?_⟩
    · have hnone : ¬ Created log org := fun ⟨other, hother⟩ => hsilent _ hother rfl
      have hfirst : ¬ Supervises log org caller := fun hcaller => hnone hcaller.created
      simp [supervises_snoc, Change.org, hnone, hfirst, eq_comm]
    · simp
    · simp
  | @supervised org caller old new hget hstakes hmem =>
    obtain ⟨hcreated, hsupervisors, hroll⟩ := h.known org old hget
    refine ⟨created_snoc.mpr (.inl hcreated), fun other => ?_, ?_⟩
    · rw [hmem, hsupervisors, Change.org, supervises_snoc]
      simp [hcreated, eq_comm]
    · rw [hstakes]
      exact hroll.keep (by simp) (by simp)
  | @staked org member stake old hget =>
    obtain ⟨hcreated, hsupervisors, hroll⟩ := h.known org old hget
    have hdistinct := (h.sound.sound.of_get? hget).distinct
    refine ⟨created_snoc.mpr (.inl hcreated), fun other => ?_, hroll.put hdistinct member stake⟩
    rw [hsupervisors, Change.org, supervises_snoc]
    simp
  | @removed org member old hget =>
    obtain ⟨hcreated, hsupervisors, hroll⟩ := h.known org old hget
    refine ⟨created_snoc.mpr (.inl hcreated), fun other => ?_, hroll.drop member⟩
    rw [hsupervisors, Change.org, supervises_snoc]
    simp

/-- A change that is made is the next one of the log. -/
theorem change (h : r.Follows log) (hchange : r.change c = .ok r') :
    r'.Follows (log ++ [c]) := by
  obtain ⟨o, hwrites, hget⟩ := get?_of_change hchange
  have hsound := h.sound.after c
  rw [after, hchange] at hsound
  -- Of any organization it matters only whether it is the one that the change is about.
  refine ⟨hsound, fun org hnone => ?_, fun org o' hsome => ?_⟩
  · rw [hget] at hnone
    split at hnone
    · cases hnone
    · rename_i hne
      refine List.forall_mem_append.mpr ⟨h.unknown org hnone, List.forall_mem_singleton.mpr ?_⟩
      exact fun heq => hne (heq ▸ rfl)
  · rw [hget] at hsome
    split at hsome
    · rename_i heq
      cases heq
      obtain rfl := Option.some.inj hsome
      exact h.listed_of_writes hwrites
    · rename_i hne
      exact (h.known org o' hsome).keep fun heq => hne (heq ▸ rfl)

/-- Whatever is asked of a roster, it follows its log. -/
theorem run (h : r.Follows log) (cs : List Change) : (r.run cs).Follows (log ++ made r cs) := by
  -- The log grows with the roster, and only by what is made.
  induction cs generalizing r log with
  | nil => rwa [made, List.append_nil]
  | cons c cs ih =>
    rw [Roster.run, List.foldl_cons, made, after]
    cases hchange : r.change c with
    | ok r' =>
      have hrest := ih (h.change hchange)
      rwa [List.append_assoc] at hrest
    | error f => exact ih h

theorem created_iff (h : r.Follows log) :
    (r.get? (.text org)).isSome = true ↔ Created log org := by
  constructor
  · intro hsome
    obtain ⟨o, hget⟩ := Option.isSome_iff_exists.mp hsome
    exact (h.known org o hget).created
  · rintro ⟨first, hfirst⟩
    by_contra hnone
    rw [Bool.not_eq_true, Option.isSome_eq_false_iff, Option.isNone_iff_eq_none] at hnone
    exact h.unknown org hnone _ hfirst rfl

theorem supervises_iff (h : r.Follows log) :
    r.isSupervisor (.text org) (.text caller) = true ↔ Supervises log org caller := by
  unfold isSupervisor
  split
  · rename_i o hget
    rw [Plan.isAmong_iff rfl, (h.known org o hget).supervisors]
  · rename_i hnone
    have hsilent : ¬ Created log org := h.created_iff.not.mp (by simp [hnone])
    exact iff_of_false Bool.false_ne_true fun hcaller => hsilent hcaller.created

end Follows

/-! ## Plans from a roster -/

theorem Sound.stakeSource_named (h : r.Sound) : r.stakeSource.Named :=
  Named.stakeSource ⟨fun entry hentry => (h.sound entry hentry).named⟩

/-- Consistent stakes list nobody twice and report their sum, so it is a single stake that they are
blamed for. -/
theorem cause_of_faulty {group : WeightedGroup} (hgroup : group.Consistent) {blamed key : Value}
    {cause : MembershipFault} (hfaulty : group.Faulty key (.membership blamed cause)) :
    ∃ holder amount, cause = .stake holder amount := by
  cases hfaulty with
  | holding hfirst =>
    obtain ⟨hsplit, -, hwrong⟩ := hfirst
    cases hwrong with
    | repeated hseen =>
      have hdistinct := hgroup.distinct
      rw [hsplit, List.map_append, List.map_cons, List.nodup_middle, List.nodup_cons] at hdistinct
      exact absurd (List.mem_append_left _ hseen) hdistinct.1
    | stake => exact ⟨_, _, rfl⟩
  | total _ htotal => exact absurd hgroup.total htotal

/-- From a sound roster membership is refused over a single stake only. -/
theorem Sound.cause_of_make (h : r.Sound) {e : Electorate} {blamed : Value}
    {cause : MembershipFault}
    (hmake : Plan.make r.stakeSource e = .error (.membership blamed cause)) :
    ∃ holder amount, cause = .stake holder amount := by
  cases hmode : e.mode? with
  | none =>
    rw [Plan.make, Plan.make?, hmode] at hmake
    cases hmake
  | some mode =>
    cases mode with
    | equal =>
      rw [Plan.make_of_equal hmode, Plan.makeEqual] at hmake
      split at hmake
      · cases hmake
      · cases hmake
    | weighted =>
      rw [Plan.make_of_weighted hmode] at hmake
      cases hstakes : r.stakeSource.stakes? e.org with
      | none =>
        simp only [Plan.makeWeighted, hstakes] at hmake
        cases hmake
      | some group =>
        rw [Plan.makeWeighted_eq_error h.stakeSource_named hstakes] at hmake
        exact cause_of_faulty (h.consistent hstakes) hmake

end Roster

/-! ## What is reported -/

/-- Stakes that are reported as a log tells: those that stand, in the order in which the members
joined. -/
structure WeightedGroup.Told (log : List Roster.Change) (org : String) (group : WeightedGroup) :
    Prop where
  mem_iff : ∀ h, h ∈ group.holdings ↔
    ∃ member stake, h = ⟨.text member, .integer stake⟩ ∧ Roster.Stands log org member stake
  joined : ∀ h ∈ group.holdings, ∃ member place, h.member = .text member ∧
    Roster.Joined log org member place
  ordered : (group.holdings.map (·.member)).Pairwise (Roster.Earlier log org)

namespace Roster

variable {r : Roster} {log : List Change} {org : String}

/-- The stakes that are reported are those of the roll. -/
theorem Follows.told (h : r.Follows log) {group : WeightedGroup}
    (hgroup : r.holdings? (.text org) = some group) : group.Told log org := by
  obtain ⟨o, hget, rfl⟩ := Option.map_eq_some_iff.mp hgroup
  obtain ⟨hmem, hordered⟩ := (h.known org o hget).roll
  have hiff : ∀ holding : Holding,
      holding ∈ (o.stakes.map fun entry => Holding.mk entry.1 entry.2) ↔
      ∃ member stake, holding = ⟨.text member, .integer stake⟩ ∧ Stands log org member stake := by
    intro holding
    rw [List.mem_map]
    constructor
    · rintro ⟨entry, hentry, rfl⟩
      obtain ⟨member, stake, rfl, hstands⟩ := (hmem entry).mp hentry
      exact ⟨member, stake, rfl, hstands⟩
    · rintro ⟨member, stake, rfl, hstands⟩
      exact ⟨_, (hmem _).mpr ⟨member, stake, rfl, hstands⟩, rfl⟩
  refine ⟨hiff, fun holding hholding => ?_, ?_⟩
  · obtain ⟨member, stake, rfl, hstands⟩ := (hiff holding).mp hholding
    obtain ⟨place, hjoined⟩ := exists_joined_iff.mpr ⟨stake, hstands⟩
    exact ⟨member, place, rfl, hjoined⟩
  · rw [List.map_map]
    exact hordered

/-- After any changes, made or refused, and for every organization: its members are reported in
both ways exactly if it was created, and in one order, in which they joined; they are those whose
stake was set and who were not removed since, with the stake that was set last and the sum of all;
supervisors are those named on creation and those added later.  A refused change makes no
difference, nor does a change of another organization.  And no plan fails because a member is listed
twice or because of the total. -/
theorem run_tells_log (cs : List Change) (org : String) :
    (((empty.run cs).members? (.text org)).isSome = true ↔ Created (made empty cs) org) ∧
    (((empty.run cs).holdings? (.text org)).isSome = true ↔ Created (made empty cs) org) ∧
    (∀ group, (empty.run cs).holdings? (.text org) = some group →
      (empty.run cs).members? (.text org) = some (group.holdings.map (·.member)) ∧
      group.Consistent ∧ group.Told (made empty cs) org) ∧
    (∀ caller, (empty.run cs).isSupervisor (.text org) (.text caller) = true ↔
      Supervises (made empty cs) org caller) ∧
    (∀ c f, (empty.run cs).change c = .error f → empty.run (cs ++ [c]) = empty.run cs) ∧
    (∀ c, c.org ≠ org →
      (empty.run (cs ++ [c])).get? (.text org) = (empty.run cs).get? (.text org)) ∧
    ∀ e blamed cause, Plan.make (empty.run cs).stakeSource e = .error (.membership blamed cause) →
      ∃ holder amount, cause = .stake holder amount := by
  have hfollows : (empty.run cs).Follows (made empty cs) := Follows.empty.run cs
  refine ⟨?_, ?_, fun group hgroup => ⟨?_, hfollows.sound.consistent hgroup, hfollows.told hgroup⟩,
    fun _ => hfollows.supervises_iff, fun c f hrefused => ?_, fun c hother => ?_,
    fun _ _ _ => hfollows.sound.cause_of_make⟩
  · rw [members?, Option.isSome_map, hfollows.created_iff]
  · rw [holdings?, Option.isSome_map, hfollows.created_iff]
  · obtain ⟨o, hget, rfl⟩ := Option.map_eq_some_iff.mp hgroup
    rw [members?, hget, Option.map_some, List.map_map]
    rfl
  · rw [run_snoc, after, hrefused]
  · rw [run_snoc, get?_after hother]

/-- A guild whose member A is given two stakes, leaves and joins again after B, with changes in
between that are refused. -/
def guildChanges : List Change :=
  [.createOrganization "guild" "S", .setStake "guild" "A" 5, .setStake "guild" "B" 7,
    .createOrganization "guild" "T", .setStake "guild" "A" 9, .setStake "guild" "B" (-1),
    .removeMember "guild" "A", .removeMember "guild" "A", .setStake "guild" "A" 2,
    .setStake "league" "A" 1]

/-- What is told of the guild. -/
theorem run_tells_log_guild :
    (⟨.integer 9, [⟨.text "B", .integer 7⟩, ⟨.text "A", .integer 2⟩]⟩ : WeightedGroup).Told
      [.createOrganization "guild" "S", .setStake "guild" "A" 5, .setStake "guild" "B" 7,
        .setStake "guild" "A" 9, .removeMember "guild" "A", .setStake "guild" "A" 2] "guild" ∧
      ¬ Supervises (made empty guildChanges) "guild" "T" := by
  obtain ⟨-, -, hgroup, hsupervisors, -⟩ := run_tells_log guildChanges "guild"
  exact ⟨(hgroup _ rfl).2.2, (hsupervisors "T").not.mp (by decide)⟩

end Roster

end Plebiscite
