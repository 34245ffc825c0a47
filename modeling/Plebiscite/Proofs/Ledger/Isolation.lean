import Plebiscite.Proofs.Ledger.Membership
import Plebiscite.Proofs.Ledger.Restorable
import Plebiscite.Proofs.Number.Text

/-!
# Votes are kept apart

The ballots of all votes can be looked at as one map, whose keys are texts: the identifier of the
vote, a colon, and the name of the member, whatever characters that name has.  No two ballots share
a key, so the map holds what is listed vote by vote, and a command that is about one vote leaves
every other vote alone.

## Main definitions

- `Ledger.records`, `Ledger.keysOf`: the ballots of all votes under their keys, and the keys of one
  vote
- `Ledger.overwrite`, `Ledger.resetUnder`, `Ledger.entriesFor`: what commands write there
- `Ledger.Filed`: identifiers are whole numbers, and members are texts in ascending order
- `Ledger.Untouched`: nothing that can be seen of a vote changed
- `Ledger.Separate`: what keeps the votes of a ledger apart

## Main results

- `Ledger.ballotKey_inj`: keys are told apart, whatever the names are
- `Ledger.ballotByKey?_eq_some`: what is found under a key is what is listed
- `Ledger.Filed.untouched`: a command leaves alone what it is not about
- `Ledger.Filed.records_cast`, `Ledger.Filed.records_cleared`, `Ledger.Filed.records_opened`,
  `Ledger.Filed.records_spared`: what each command writes under which keys
- `Ledger.separate_serve`: the votes of all ledgers are kept apart
-/

namespace Plebiscite.Ledger

open Snapshot

variable {env : Environment} {l l' : Ledger} {c : Command} {a : Answer} {v w : Vote}

/-! ## Keys -/

theorem toList_ballotKey (id name : String) :
    (ballotKey id name).toList = id.toList ++ ':' :: name.toList := by
  simp [ballotKey]

/-- No identifier has a colon in it, so what stands before the first colon of a key is the
identifier. -/
theorem takeWhile_ballotKey (n : Number) (name : String) :
    (ballotKey n.text name).toList.takeWhile (· ≠ ':') = n.text.toList := by
  have hnone : ∀ c ∈ n.text.toList, decide (c ≠ ':') = true := by
    intro c hc
    exact decide_eq_true fun h => Number.colon_notMem_text n (h ▸ hc)
  rw [toList_ballotKey, List.takeWhile_append_of_pos hnone]
  simp

theorem ballotKey_inj {m n : Number} {s t : String} :
    ballotKey m.text s = ballotKey n.text t ↔ m.text = n.text ∧ s = t := by
  constructor
  · intro h
    have hid : m.text.toList = n.text.toList := by
      rw [← takeWhile_ballotKey m s, h, takeWhile_ballotKey]
    have hname := congrArg String.toList h
    rw [toList_ballotKey, toList_ballotKey, hid, List.append_cancel_left_eq] at hname
    exact ⟨String.toList_inj.mp hid, String.toList_inj.mp (List.cons.inj hname).2⟩
  · rintro ⟨hid, rfl⟩
    rw [hid]

/-- The ballots of a vote under their keys. -/
def recordsIn (v : Vote) : List (String × Ballot) :=
  v.seats.map fun seat => (ballotKey v.id.text seat.name, seat.ballot)

/-- The ballots of all votes under their keys. -/
def records (l : Ledger) : List (String × Ballot) :=
  l.votes.flatMap recordsIn

/-- The keys of the members of a vote. -/
def keysOf (l : Ledger) (id : Number) : List String :=
  (l.ballots id).map fun seat => ballotKey id.text seat.name

/-- An entry, with another ballot if it has a key. -/
def overwrite (key : String) (ballot : Ballot) (entry : String × Ballot) : String × Ballot :=
  if entry.1 = key then (key, ballot) else entry

/-- An entry, with its ballot handed out anew or put aside, as a policy says, if it has one of the
keys. -/
def resetUnder (keys : List String) (policy : ResetPolicy) (entry : String × Ballot) :
    String × Ballot :=
  if entry.1 ∈ keys then (entry.1, policy.reset entry.2) else entry

/-- The ballots that a plan hands out in a vote, under their keys. -/
def entriesFor (id : Number) (plan : Plan) : List (String × Ballot) :=
  plan.allocations.map fun a => (ballotKey id.text a.member.display, .mint a.magnitude)

theorem recordsIn_setBallot (v : Vote) (name : String) (ballot : Ballot) :
    recordsIn (v.setBallot name ballot) =
      (recordsIn v).map (overwrite (ballotKey v.id.text name) ballot) := by
  simp only [recordsIn, Vote.setBallot, List.map_map]
  refine List.map_congr_left fun seat _ => ?_
  simp only [Function.comp_apply, overwrite, ballotKey_inj, true_and]
  split
  · rename_i hname
    rw [← hname]
    rfl
  · rfl

theorem keysOf_eq (hv : l.vote? v.id = some v) : l.keysOf v.id = (recordsIn v).map (·.1) := by
  rw [keysOf, ballots, hv, recordsIn, List.map_map]
  rfl

/-- A key that is found in a vote begins with the identifier of this vote. -/
theorem text_eq_of_mem_keys {n : Number} {name : String}
    (h : ballotKey n.text name ∈ (recordsIn v).map (·.1)) : n.text = v.id.text := by
  rw [recordsIn, List.map_map] at h
  obtain ⟨seat, -, hseat⟩ := List.mem_map.mp h
  exact (ballotKey_inj.mp hseat).1.symm

theorem recordsIn_resetBallots (v : Vote) (policy : ResetPolicy) :
    recordsIn (v.resetBallots policy) =
      (recordsIn v).map (resetUnder ((recordsIn v).map (·.1)) policy) := by
  conv_lhs => simp only [recordsIn, Vote.resetBallots, List.map_map]
  conv_rhs => rw [recordsIn, List.map_map]
  refine List.map_congr_left fun seat hseat => ?_
  exact (if_pos (List.mem_map_of_mem (List.mem_map_of_mem hseat))).symm

/-- A new vote brings the ballots that its plan hands out, one for each member. -/
theorem recordsIn_of_plan {plan : Plan} (hseats : v.seats = seatsOf plan)
    (hdistinct : (plan.allocations.map (·.member.display)).Nodup) :
    recordsIn v = entriesFor v.id plan := by
  rw [recordsIn, hseats, seatsOf_eq hdistinct, List.map_map]
  rfl

/-! ## Ledgers in order -/

/-- Votes are known by whole numbers, and the members of a vote are texts that ascend strictly. -/
structure Filed (l : Ledger) : Prop where
  counting : ∃ m, l.Counting .votes m
  ids_distinct : (l.votes.map (·.id)).Nodup
  ids : ∀ v ∈ l.votes, IsId (.number v.id)
  named : ∀ v ∈ l.votes, ∀ seat ∈ v.seats, Plan.isNamed seat.member = true
  ascending : ∀ v ∈ l.votes, (v.seats.map Seat.name).Pairwise fun a b => Units.before a b = true

namespace Filed

theorem indexed (hl : l.Filed) : l.Indexed :=
  ⟨hl.ids_distinct, fun v hv => Units.nodup_of_pairwise_before (hl.ascending v hv)⟩

/-- A vote whose identifier has the text of a double has that double for an identifier. -/
theorem id_eq_of_text (hl : l.Filed) (hv : v ∈ l.votes) {n : Number} (hn : n.IsDouble)
    (h : n.text = v.id.text) : n = v.id := by
  obtain ⟨k, hk, -, hle⟩ := hl.ids v hv
  rw [Value.number.inj hk] at h ⊢
  exact Number.eq_ofInt_of_text hn hle h

theorem isDouble_id (hl : l.Filed) (hv : v ∈ l.votes) : v.id.IsDouble := by
  obtain ⟨k, hk, -, hle⟩ := hl.ids v hv
  rw [Value.number.inj hk]
  exact Number.isDouble_ofInt hle

/-- No two ballots share a key. -/
theorem nodup_keys (hl : l.Filed) : (l.records.map (·.1)).Nodup := by
  rw [records, List.map_flatMap, List.nodup_flatMap]
  constructor
  · intro v hv
    have hnames := hl.indexed.names v hv
    rw [recordsIn, List.map_map]
    have hkeys := hnames.map_on (f := ballotKey v.id.text) fun s _ t _ h => (ballotKey_inj.mp h).2
    rwa [List.map_map] at hkeys
  · -- The keys of two votes differ in the identifier already.
    refine (List.pairwise_map.mp hl.ids_distinct).imp_of_mem fun {v w} hv hw hne => ?_
    intro key hkey hkey'
    simp only [recordsIn, List.map_map, List.mem_map, Function.comp_apply] at hkey
    obtain ⟨seat, -, rfl⟩ := hkey
    exact hne (hl.id_eq_of_text hw (hl.isDouble_id hv) (text_eq_of_mem_keys hkey'))

/-- The ballot that is found under the key of a vote and a member is the one that is listed. -/
theorem ballotByKey?_eq_some (hl : l.Filed) {n : Number} (hn : n.IsDouble) {member : String}
    {b : Ballot} :
    l.ballotByKey? (.number n) (.text member) = some b ↔ ⟨.text member, b⟩ ∈ l.ballots n := by
  -- Whatever is found is listed in the vote with the identifier.
  have hsound : ∀ b, l.ballotByKey? (.number n) (.text member) = some b →
      ⟨.text member, b⟩ ∈ l.ballots n := by
    intro b h
    obtain ⟨v, hv, hfound⟩ := List.exists_of_findSome?_eq_some h
    obtain ⟨seat, hseat, rfl⟩ := Option.map_eq_some_iff.mp hfound
    have hkey := List.find?_some hseat
    obtain ⟨hid, hname⟩ := ballotKey_inj.mp (of_decide_eq_true hkey)
    have hmem := List.mem_of_find?_eq_some hseat
    have hvote : l.vote? n = some v :=
      (vote?_iff hl.indexed).mpr ⟨hv, (hl.id_eq_of_text hv hn hid.symm).symm⟩
    have hmember : seat.member = .text member := by
      obtain ⟨s, hs⟩ := Plan.exists_of_isNamed (hl.named v hv seat hmem)
      have hs' : seat.name = s := congrArg Value.display hs
      rw [hs, ← hs', hname]
      rfl
    rw [ballots, hvote, ← hmember]
    exact hmem
  refine ⟨hsound b, fun h => ?_⟩
  cases hvote : l.vote? n with
  | none => simp [ballots, hvote] at h
  | some v =>
    simp only [ballots, hvote] at h
    obtain ⟨hv, rfl⟩ := mem_of_vote? hvote
    have hfound : (l.ballotByKey? (.number v.id) (.text member)).isSome := by
      simp only [ballotByKey?, List.findSome?_isSome_iff, Option.isSome_map, List.find?_isSome]
      exact ⟨v, hv, _, h, decide_eq_true rfl⟩
    obtain ⟨b', hb'⟩ := Option.isSome_iff_exists.mp hfound
    -- A member has one seat in a vote, so what was found is the ballot that is listed.
    have hlisted := hsound b' hb'
    simp only [ballots, hvote] at hlisted
    have hseat := List.inj_on_of_nodup_map (hl.indexed.names v hv) hlisted h rfl
    rw [hb', (Seat.mk.inj hseat).2]

end Filed

/-- A ballot is looked for by its key among the ballots of all votes. -/
theorem ballotByKey?_eq (l : Ledger) (id member : Value) :
    l.ballotByKey? id member =
      (l.records.find? (·.1 = ballotKey id.display member.display)).map (·.2) := by
  simp only [ballotByKey?, records, recordsIn, List.find?_flatMap, List.map_findSome?,
    List.find?_map, Function.comp_def, Option.map_map]

/-! ## Commands keep ledgers in order -/

namespace Filed

/-- A vote that is opened has an identifier that is a whole number, and the members of the plan. -/
theorem opened (hl : l.Filed) (henv : env.stakes.Named) {o : Opening} (h : Opens env l o v) :
    IsId (.number v.id) ∧ (∀ seat ∈ v.seats, Plan.isNamed seat.member = true) ∧
      (v.seats.map Seat.name).Pairwise fun a b => Units.before a b = true := by
  obtain ⟨m, hm⟩ := hl.counting
  obtain ⟨n, hn⟩ := hm.last
  obtain ⟨k, hk, hid⟩ := (hm.nextIn_eq_ok hn).mp ((issues_addVote h).next _ hn)
  obtain ⟨hlow, hhigh⟩ := Identifier.mem_cycle.mp (List.mem_of_find?_eq_some hk)
  obtain ⟨plan, hmake, -, -, hseats⟩ := h.minted
  obtain ⟨_, -, henrolls⟩ := Plan.enrolls_of_make henv hmake
  refine ⟨⟨k, hid, hlow, hhigh.trans hm.ceiling_le⟩, ?_, ?_⟩
  · rw [hseats, seatsOf]
    simpa using henrolls.named
  · rw [hseats, seatsOf, List.map_map]
    exact Units.pairwise_before (Plan.ascending_of_make henv hmake) henrolls.distinct

theorem perform (hl : l.Filed) (henv : env.stakes.Named) (h : perform env c l = .ok a l') :
    l'.Filed := by
  have haccepts := (perform_eq_ok hl.indexed).mp h
  have hcounting : ∃ m, l'.Counting .votes m := by
    obtain ⟨m, hm⟩ := hl.counting
    exact ⟨m, hm.perform h⟩
  refine ⟨hcounting, haccepts.nodup_ids hl.indexed.ids, haccepts.forall_votes hl.ids ?_ ?_,
    haccepts.forall_votes hl.named ?_ ?_, haccepts.forall_votes hl.ascending ?_ ?_⟩
  · exact fun o v _ hopens => (hl.opened henv hopens).1
  · intro v w hrevises hv
    rw [hrevises.id_eq]
    exact hv
  · exact fun o v _ hopens => (hl.opened henv hopens).2.1
  · exact fun v w hrevises hv => hrevises.named hv
  · exact fun o v _ hopens => (hl.opened henv hopens).2.2
  · intro v w hrevises hv
    rw [hrevises.names]
    exact hv

theorem after (hl : l.Filed) (henv : env.stakes.Named) (c : Command) : (l.after env c).Filed := by
  unfold Ledger.after
  cases h : Ledger.perform env c l with
  | ok a l' => exact hl.perform henv h
  | error f l' => exact (perform_allOrNothing c).eq_of_error h ▸ hl

theorem serve (hl : l.Filed) {calls : List Call} (hcalls : ∀ call ∈ calls, call.env.stakes.Named) :
    (l.serve calls).Filed :=
  serve_induction (P := Filed) hl fun _ call hcall _ _ h hl => hl.perform (hcalls call hcall) h

end Filed

theorem filed_of_empty {o : Options} (h : Ledger.empty o = .ok l) : l.Filed := by
  obtain ⟨m, hm⟩ := Numbered.of_empty h
  obtain ⟨settings, -, rfl⟩ := Checks.exceptMap_eq_ok.mp h
  have hcounting : (blank settings).Counting .votes m :=
    ⟨hm.ceiling, hm.ceiling_pos, hm.ceiling_le, 0, last_votes.mpr hm.lastVote⟩
  exact ⟨⟨m, hcounting⟩, List.nodup_nil, by simp [blank], by simp [blank], by simp [blank]⟩

/-- A snapshot that is accepted, with the counter of votes and with members that are texts, is
restored in order, however its records are listed. -/
theorem filed_of_restore {o : Options} {s : Snapshot} (h : restore o s = .ok l)
    (hcounter : (s.counters.lookup "voteId").isSome)
    (hmembers : ∀ e ∈ s.records, Plan.isNamed e.member = true) : l.Filed := by
  obtain ⟨m, hpos, hle, hceiling, -⟩ := ceiling_of_restore h
  have hlast : Snapshot.IsCount (l.last .votes) := last_of_restore h hcounter
  obtain ⟨n, hn, -⟩ := hlast
  have hsound := sound_of_restore h
  obtain ⟨r, hr, rfl⟩ := restore_eq_ok.mp h
  have hvotes := fun v hv => hr.restorable ((r.votes_perm s).subset (a := v) hv)
  have hordered := fun v hv => hr.ascending hmembers ((r.votes_perm s).subset (a := v) hv)
  exact ⟨⟨m, hceiling, hpos, hle, n, hn⟩, hsound.ids, fun v hv => (hvotes v hv).id,
    fun v hv => (hordered v hv).1,
    fun v hv => Units.pairwise_before (hordered v hv).2 (hsound.votes v hv).names⟩

/-! ## Commands leave other votes alone -/

/-- The vote that a command is about, if it is to revise one. -/
def Command.subject? : Command → Option Value
  | .applyVote id _ _ _ => some id
  | .extendVote id _ => some id
  | .updateTopic id _ _ => some id
  | _ => none

/-- Nothing that can be seen of a vote changed. -/
structure Untouched (id : Number) (l l' : Ledger) : Prop where
  poll : l'.poll? id = l.poll? id
  ballots : l'.ballots id = l.ballots id
  issuance : l'.issuance? id = l.issuance? id
  outcome : l'.outcome (.number id) = l.outcome (.number id)
  records : ∀ member : String,
    l'.ballotByKey? (.number id) (.text member) = l.ballotByKey? (.number id) (.text member)

theorem Revises.subject (h : Revises env l c v w a) : c.subject? = some (.number v.id) := by
  cases h <;> exact congrArg some (mem_of_require ‹_›).2

/-- A vote that a command is not about is the same after it. -/
theorem vote?_after (hl : l.Indexed) (hl' : (l.after env c).Indexed) (hv : v ∈ l.votes)
    (hc : c.subject? ≠ some (.number v.id)) : (l.after env c).vote? v.id = some v := by
  rw [vote?_iff hl']
  refine ⟨?_, rfl⟩
  rcases after_cases hl env c with h | ⟨a, h⟩
  · rw [h]
    exact hv
  · generalize l.after env c = l' at h ⊢
    cases h with
    | registered => exact hv
    | opened => exact mem_addVote.mpr (.inr hv)
    | revised h =>
      have hne : v.id ≠ _ := fun heq => hc (heq ▸ h.subject)
      exact (mem_replaceVote h.mem h.id_eq).mpr (.inr ⟨hv, h.id_eq ▸ hne⟩)

/-- A command leaves alone every vote that is there before it and that it is not about. -/
theorem Filed.untouched (hl : l.Filed) (henv : env.stakes.Named) {id : Number}
    (hid : l.hasVote id = true) (hc : c.subject? ≠ some (.number id)) :
    Untouched id l (l.after env c) := by
  have hl' := hl.after henv c
  obtain ⟨v, hvote⟩ := Option.isSome_iff_exists.mp hid
  obtain ⟨hv, rfl⟩ := mem_of_vote? hvote
  have hvote' := vote?_after hl.indexed hl'.indexed hv hc
  have hballots : (l.after env c).ballots v.id = l.ballots v.id := by
    rw [Ledger.ballots, Ledger.ballots, hvote, hvote']
  refine ⟨?_, hballots, ?_, ?_, fun member => ?_⟩
  · rw [poll?, poll?, hvote, hvote']
  · rw [issuance?, issuance?, hvote, hvote']
  · rw [Ledger.outcome, Ledger.outcome, require_number.mpr hvote, require_number.mpr hvote']
  · have hdouble := hl.isDouble_id hv
    refine Option.ext fun b => ?_
    rw [hl'.ballotByKey?_eq_some hdouble, hl.ballotByKey?_eq_some hdouble, hballots]

/-! ## What commands write -/

/-- A command that writes no ballot, but a rule, an end or a topic. -/
def Command.SparesBallots : Command → Prop
  | .registerThreshold _ _ | .extendVote _ _ | .updateTopic _ _ false => True
  | _ => False

namespace Filed

/-- A vote is revised by a write to all entries if the write does to the entries of the vote what it
has to, and has no effect under the keys of other votes. -/
theorem records_replaceVote (hl : l.Filed) (hv : v ∈ l.votes) (hid : w.id = v.id)
    {write : String × Ballot → String × Ballot} (hwrite : recordsIn w = (recordsIn v).map write)
    (hothers : ∀ (n : Number) (name : String) (b : Ballot), n.text ≠ v.id.text →
      write (ballotKey n.text name, b) = (ballotKey n.text name, b)) :
    (l.replaceVote w).records = l.records.map write := by
  simp only [records, replaceVote, updateVote, List.flatMap_map, List.map_flatMap]
  refine List.flatMap_congr fun u hu => ?_
  split
  · rename_i huid
    obtain rfl := eq_of_id hl.indexed hu hv (huid.trans hid)
    exact hwrite
  · rename_i hne
    -- Two votes of a ledger also differ in the texts of their identifiers.
    have htext : u.id.text ≠ v.id.text := fun htext =>
      hne ((hl.id_eq_of_text hv (hl.isDouble_id hu) htext).trans hid.symm)
    conv_lhs => rw [← List.map_id (recordsIn u)]
    refine List.map_congr_left fun entry hentry => ?_
    obtain ⟨seat, -, rfl⟩ := List.mem_map.mp hentry
    exact (hothers u.id seat.name seat.ballot htext).symm

/-- An accepted ballot writes the entry under one key, and that is the entry of the voter. -/
theorem records_cast (hl : l.Filed) {id voter justification : Value} {stance : Stance}
    {receipt : Receipt}
    (h : Ledger.perform env (.applyVote id voter stance justification) l = .ok (.cast receipt) l') :
    l'.records = l.records.map
      (overwrite (ballotKey id.display voter.display) receipt.ballot) := by
  cases (perform_eq_ok hl.indexed).mp h with
  | @revised _ v _ _ hrevises =>
    cases hrevises with
    | @cast _ _ _ _ _ _ _ ballot _ hvote =>
      obtain ⟨hv, rfl⟩ := mem_of_require hvote
      refine hl.records_replaceVote hv ?_ (recordsIn_setBallot v voter.display ballot) ?_
      · rfl
      · intro n name b hne
        exact if_neg fun hkey => hne (ballotKey_inj.mp hkey).1

/-- Clearing a vote writes the entries of its members, each under the key of the member. -/
theorem records_cleared (hl : l.Filed) {id topic : Value}
    (h : Ledger.perform env (.updateTopic id topic true) l = .ok a l') :
    ∃ n, id = .number n ∧
      l'.records = l.records.map (resetUnder (l.keysOf n) l.settings.policy) := by
  cases (perform_eq_ok hl.indexed).mp h with
  | opened ho => cases ho
  | @revised _ v _ _ hrevises =>
    cases hrevises with
    | cleared hvote =>
      obtain ⟨hv, rfl⟩ := mem_of_require hvote
      refine ⟨v.id, rfl, ?_⟩
      rw [keysOf_eq (require_number.mp hvote)]
      refine hl.records_replaceVote hv ?_ (recordsIn_resetBallots v l.settings.policy) ?_
      · rfl
      · intro n name b hne
        exact if_neg fun hkey => hne (text_eq_of_mem_keys hkey)

/-- Opening a vote adds the ballots that are handed out to its members, all under new keys. -/
theorem records_opened (hl : l.Filed) (henv : env.stakes.Named) {id : Number}
    (h : Ledger.perform env c l = .ok (.opened id) l') :
    ∃ o plan, l.opening? c = some o ∧ Plan.make env.stakes o.electorate = .ok plan ∧
      l'.records.Perm (l.records ++ entriesFor id plan) ∧
      ((l.records ++ entriesFor id plan).map (·.1)).Nodup := by
  have hl' := hl.perform henv h
  cases (perform_eq_ok hl.indexed).mp h with
  | @opened _ o v ho hopens =>
    obtain ⟨plan, hmake, -, -, hseats⟩ := hopens.minted
    obtain ⟨_, -, henrolls⟩ := Plan.enrolls_of_make henv hmake
    have hperm : (l.addVote v).records.Perm (l.records ++ entriesFor v.id plan) := by
      rw [← recordsIn_of_plan hseats henrolls.distinct]
      exact ((addVote_perm l v).flatMap_right recordsIn).trans List.perm_append_comm
    exact ⟨o, plan, ho, hmake, hperm, (hperm.map _).nodup_iff.mp hl'.nodup_keys⟩
  | revised hrevises => cases hrevises

/-- A rule, an end or a topic is written without any ballot. -/
theorem records_spared (hl : l.Filed) (hc : c.SparesBallots)
    (h : Ledger.perform env c l = .ok a l') : l'.records = l.records := by
  have hsame : ∀ {v w : Vote}, v ∈ l.votes → w.id = v.id → recordsIn w = recordsIn v →
      (l.replaceVote w).records = l.records := by
    intro v w hv hid hrecords
    have hwrite : (l.replaceVote w).records = l.records.map id :=
      hl.records_replaceVote hv hid (by simpa using hrecords) fun _ _ _ _ => rfl
    rwa [List.map_id] at hwrite
  cases (perform_eq_ok hl.indexed).mp h with
  | registered => rfl
  | opened ho =>
    cases c with
    | openVote | openPercentVote | invokeThreshold => exact hc.elim
    | _ => cases ho
  | revised hrevises =>
    cases hrevises with
    | cast | cleared => exact hc.elim
    | extended hvote | retitled hvote => exact hsame (mem_of_require hvote).1 rfl rfl

end Filed

/-! ## Votes are kept apart -/

/-- The votes of a ledger are kept apart: no two ballots share a key, what is found under the key of
a vote and a member is what is listed, the members of each vote are texts that ascend strictly, and
a command leaves alone every vote that it is not about.  Under the keys an accepted ballot writes
one entry, clearing a vote writes those of its members, opening one adds those of its members under
new keys, and no other command writes any. -/
structure Separate (l : Ledger) : Prop where
  keys : (l.records.map (·.1)).Nodup
  looked_up : ∀ id member : Value, l.ballotByKey? id member =
    (l.records.find? (·.1 = ballotKey id.display member.display)).map (·.2)
  listed : ∀ (id : Number) (member : String) (b : Ballot), id.IsDouble →
    (l.ballotByKey? (.number id) (.text member) = some b ↔ ⟨.text member, b⟩ ∈ l.ballots id)
  ascending : ∀ id : Number, ∃ names : List String,
    (l.ballots id).map (·.member) = names.map Value.text ∧
      names.Pairwise fun a b => Units.before a b = true
  cast : ∀ env id voter stance justification receipt l',
    Ledger.perform env (.applyVote id voter stance justification) l = .ok (.cast receipt) l' →
    l'.records = l.records.map
      (overwrite (ballotKey id.display voter.display) receipt.ballot)
  cleared : ∀ env id topic a l', Ledger.perform env (.updateTopic id topic true) l = .ok a l' →
    ∃ n, id = .number n ∧
      l'.records = l.records.map (resetUnder (l.keysOf n) l.settings.policy)
  opened : ∀ env c id l', env.stakes.Named → Ledger.perform env c l = .ok (.opened id) l' →
    ∃ o plan, l.opening? c = some o ∧ Plan.make env.stakes o.electorate = .ok plan ∧
      l'.records.Perm (l.records ++ entriesFor id plan) ∧
      ((l.records ++ entriesFor id plan).map (·.1)).Nodup
  spared : ∀ env c a l', c.SparesBallots → Ledger.perform env c l = .ok a l' →
    l'.records = l.records
  untouched : ∀ env c id, env.stakes.Named → l.hasVote id = true →
    c.subject? ≠ some (.number id) → Untouched id l (l.after env c)

theorem Filed.separate (hl : l.Filed) : l.Separate where
  keys := hl.nodup_keys
  looked_up := ballotByKey?_eq l
  listed _ _ _ hid := hl.ballotByKey?_eq_some hid
  ascending id := by
    unfold ballots
    cases hvote : l.vote? id with
    | none => exact ⟨[], rfl, .nil⟩
    | some v =>
      have hv := (mem_of_vote? hvote).1
      refine ⟨v.seats.map Seat.name, ?_, hl.ascending v hv⟩
      rw [List.map_map]
      refine List.map_congr_left fun seat hseat => ?_
      obtain ⟨s, hs⟩ := Plan.exists_of_isNamed (hl.named v hv seat hseat)
      rw [Function.comp_apply, Seat.name, hs]
      rfl
  cast _ _ _ _ _ _ _ h := hl.records_cast h
  cleared _ _ _ _ _ h := hl.records_cleared h
  opened _ _ _ _ henv h := hl.records_opened henv h
  spared _ _ _ _ hc h := hl.records_spared hc h
  untouched _ _ _ henv hid hc := hl.untouched henv hid hc

/-- From nothing, or from any snapshot that is accepted, with the counter of votes and with members
that are texts, through any calls: the votes are kept apart. -/
theorem separate_serve {o : Options} {start : Ledger}
    (hstart : Ledger.empty o = .ok start ∨ ∃ s, restore o s = .ok start ∧
      (s.counters.lookup "voteId").isSome ∧ ∀ e ∈ s.records, Plan.isNamed e.member = true)
    {calls : List Call} (hcalls : ∀ call ∈ calls, call.env.stakes.Named) :
    (start.serve calls).Separate := by
  have hfiled : start.Filed := by
    rcases hstart with h | ⟨s, h, hcounter, hmembers⟩
    · exact filed_of_empty h
    · exact filed_of_restore h hcounter hmembers
  exact (hfiled.serve hcalls).separate

/-- A second vote is opened for the members of the first one, and nobody else holds a ballot, in
particular nobody whose name looks like the key of a ballot. -/
theorem separate_serve_small :
    Ledger.empty Sample.options = .ok Sample.start ∧ Sample.opening.env.stakes.Named ∧
    Untouched 1 (Sample.start.serve [Sample.opening])
      (Sample.start.serve [Sample.opening, Sample.opening]) ∧
    (Sample.start.serve [Sample.opening]).ballotByKey? (.number 1) (.text "alice") =
      some (.mint 1) ∧
    (Sample.start.serve [Sample.opening]).ballotByKey? (.number 1) (.text "1:alice") = none := by
  have hnamed : Sample.opening.env.stakes.Named := Sample.source_wellTyped.named
  have hopened : Sample.start.serve [Sample.opening] = Sample.opened := by
    rw [serve_cons, serve_nil]
    exact after_of_ok Sample.perform_request
  have hcalls : ∀ call ∈ [Sample.opening], call.env.stakes.Named := by
    simpa using hnamed
  have hseparate := separate_serve (.inl Sample.empty_options) hcalls
  have hdouble : (1 : Number).IsDouble := Number.isDouble_ofInt (k := 1) (by decide)
  have hseats : Sample.opened.ballots 1 = Sample.vote.seats := rfl
  refine ⟨Sample.empty_options, hnamed, ?_, ?_, ?_⟩
  · have hagain : Sample.start.serve [Sample.opening, Sample.opening] =
        (Sample.start.serve [Sample.opening]).after Sample.opening.env Sample.opening.command := by
      rw [serve_cons, serve_cons, serve_nil, serve_cons, serve_nil]
    rw [hagain]
    refine hseparate.untouched _ _ 1 hnamed ?_ (by simp [Sample.opening, Command.subject?])
    rw [hopened]
    rfl
  · rw [hseparate.listed 1 "alice" (.mint 1) hdouble, hopened, hseats]
    exact List.mem_cons_self
  · refine Option.eq_none_iff_forall_ne_some.mpr fun b h => ?_
    have hmem := (hseparate.listed 1 "1:alice" b hdouble).mp h
    rw [hopened, hseats] at hmem
    simp [Sample.vote] at hmem

end Plebiscite.Ledger
