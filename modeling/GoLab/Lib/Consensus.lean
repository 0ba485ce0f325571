import GoLab.Lib.LogTree

/-!
# Leader completeness

Terms are numbered, and each has at most one leader.  A member that has promised a
log to the leader of a term keeps it until it follows a later leader that does not
have it.  If the last entry of a log is of the term of a leader and a majority has
promised the log to that leader, then every later leader begins with that log: one
of its voters had promised it, and a candidate is at least as up to date as its
voters.
-/

namespace GoLab

universe u

variable {ε : Type u} {term : ε → Int} {branch led : Int → List ε → Prop}

/-- The leaders: `led` is the log a leader begins with, `branch` the one it has. -/
structure Tenure (term : ε → Int) (branch led : Int → List ε → Prop) : Prop where
  unique : UniqueBranch branch
  began : ∀ t whole, branch t whole → ∃ first, led t first
  grown : ∀ t first, led t first → ∃ whole, branch t whole ∧ first <+: whole
  bounded : ∀ t whole, branch t whole → ∀ entry ∈ whole, term entry ≤ t

/-- A leader after term `t`, up to term `now`, has begun without `part`. -/
def Lost (led : Int → List ε → Prop) (t now : Int) (part : List ε) : Prop :=
  ∃ t' first, t < t' ∧ t' ≤ now ∧ led t' first ∧ ¬ part <+: first

/-- A member that promised `whole` to the leader of term `t` has it in its log, except
for what a later leader has made it drop. -/
def Keeps (led : Int → List ε → Prop) (t : Int) (whole log : List ε) (now : Int) : Prop :=
  ∀ part, part <+: whole → part <+: log ∨ Lost led t now part

namespace Keeps

variable {t now later : Int} {whole log log' : List ε}

theorem of_held (held : whole <+: log) : Keeps led t whole log now :=
  fun _ front => .inl (front.trans held)

theorem mono {led' : Int → List ε → Prop} (keeps : Keeps led t whole log now)
    (longer : log <+: log') (atMost : now ≤ later)
    (leads : ∀ t' first, led t' first → led' t' first) : Keeps led' t whole log' later := by
  intro part front
  rcases keeps part front with held | ⟨t', first, after, before, isLed, lacks⟩
  · exact .inl (held.trans longer)
  · exact .inr ⟨t', first, after, Int.le_trans before atMost, leads t' first isLed, lacks⟩

/-- What is promised in the present term is there. -/
theorem held (keeps : Keeps led t whole log now) (present : now ≤ t) : whole <+: log := by
  rcases keeps whole List.prefix_rfl with held | ⟨t', -, after, before, -⟩
  · exact held
  · omega

/-- A member may replace its log by that of a leader it follows, if it drops entries
only where they conflict with the leader's. -/
theorem follow (tenure : Tenure term branch led) (keeps : Keeps led t whole log now)
    (atMost : now ≤ later) (current : t ≤ later) {leaderLog new : List ε}
    (isBranch : branch later leaderLog) (onBranch : new <+: leaderLog)
    (promised : t = later → whole <+: leaderLog)
    (drops : log.length ≤ new.length ∨ ∃ (k : Nat) (entry entry' : ε), log[k]? = some entry ∧
      new[k]? = some entry' ∧ term entry ≠ term entry') : Keeps led t whole new later := by
  intro part front
  rcases keeps part front with held | ⟨t', first, after, before, isLed, lacks⟩
  · by_cases has : part <+: leaderLog
    · refine .inl (List.prefix_of_prefix_length_le has onBranch ?_)
      rcases drops with longer | ⟨k, entry, entry', found, found', conflict⟩
      · exact Nat.le_trans held.length_le longer
      · refine Nat.le_of_lt (Nat.lt_of_le_of_lt (Nat.not_lt.mp fun within => conflict ?_)
          (List.getElem?_eq_some_iff.mp found').1)
        have inPart : part[k]? = some entry := by
          rw [List.getElem?_eq_getElem within, ← found, ← getElem?_extend held
            (List.getElem?_eq_getElem within)]
        have same := getElem?_extend has inPart
        rw [getElem?_extend onBranch found', Option.some.injEq] at same
        rw [same]
    · obtain ⟨first, isLed⟩ := tenure.began later leaderLog isBranch
      obtain ⟨grown, isBranch', begins⟩ := tenure.grown later first isLed
      cases tenure.unique later _ _ isBranch isBranch'
      have after : t < later := by
        rcases Int.lt_or_eq_of_le current with after | same
        · exact after
        · exact (has (front.trans (promised same))).elim
      exact .inr ⟨later, first, after, Int.le_refl _, isLed, fun has' => has (has'.trans begins)⟩
  · exact .inr ⟨t', first, after, Int.le_trans before atMost, isLed, lacks⟩

end Keeps

/-- The second log ends with an entry of a later term, or of the same term and is at
least as long. -/
def UpToDate (term : ε → Int) (log log' : List ε) : Prop :=
  ∀ last ∈ log.getLast?, ∃ last' ∈ log'.getLast?,
    term last < term last' ∨ term last = term last' ∧ log.length ≤ log'.length

/-- The first leader after term `t` without a log would have been elected without one
that promised it. -/
theorem Tenure.completeness (tenure : Tenure term branch led) {t : Int} {whole part : List ε}
    (isBranch : branch t whole) (onBranch : part <+: whole)
    (last : part.getLast?.map term = some t)
    (elected : ∀ t' first, t < t' → led t' first → ∃ promised voter candidate : List ε,
      part <+: promised ∧ Keeps led t promised voter (t' - 1) ∧ OnTree term branch voter ∧
        OnTree term branch candidate ∧ (∀ entry ∈ candidate, term entry < t') ∧
        UpToDate term voter candidate ∧ candidate <+: first)
    {t' : Int} {first : List ε} (after : t < t') (isLed : led t' first) : part <+: first := by
  obtain ⟨entry, isLast, isTerm⟩ := Option.map_eq_some_iff.mp last
  have lastMem : entry ∈ part := List.mem_of_getLast? isLast
  induction distance : (t' - t).toNat using Nat.strongRecOn generalizing t' first with
  | ind n earlier =>
      obtain ⟨promised, voter, candidate, front, keeps, voterOn, candidateOn, below, upToDate,
        begins⟩ := elected t' first after isLed
      have held : part <+: voter := by
        rcases keeps part front with held | ⟨t'', first', after', before, isLed', lacks⟩
        · exact held
        · exact (lacks (earlier _ (by omega) after' isLed' rfl)).elim
      have nonempty : voter ≠ [] := List.ne_nil_of_mem (held.subset lastMem)
      obtain ⟨voterLast, isVoterLast⟩ : ∃ e, voter.getLast? = some e :=
        ⟨_, List.getLast?_eq_some_getLast nonempty⟩
      obtain ⟨candidateLast, isCandidateLast, order⟩ := upToDate voterLast isVoterLast
      obtain ⟨voterBranch, isVoterBranch, voterFront⟩ := voterOn.whole isVoterLast
      obtain ⟨candidateBranch, isCandidateBranch, candidateFront⟩ :=
        candidateOn.whole isCandidateLast
      have atLeast : t ≤ term voterLast := isTerm ▸
        tenure.bounded _ _ isVoterBranch entry (voterFront.subset (held.subset lastMem))
      refine List.IsPrefix.trans ?_ begins
      rcases order with later | ⟨same, longer⟩
      · have candidateMem : candidateLast ∈ candidate := List.mem_of_getLast? isCandidateLast
        have before := below candidateLast candidateMem
        obtain ⟨first', isLed'⟩ := tenure.began _ _ isCandidateBranch
        have has : part <+: first' := earlier _ (by omega) (by omega) isLed' rfl
        obtain ⟨grown, isBranch', begins'⟩ := tenure.grown _ _ isLed'
        cases tenure.unique _ _ _ isCandidateBranch isBranch'
        refine List.prefix_of_prefix_length_le (has.trans begins') candidateFront ?_
        refine Nat.not_lt.mp fun shorter => ?_
        have inPart : candidate <+: part :=
          List.prefix_of_prefix_length_le candidateFront (has.trans begins') (Nat.le_of_lt shorter)
        have bound := tenure.bounded _ _ isBranch candidateLast
          (onBranch.subset (inPart.subset candidateMem))
        omega
      · rw [same] at isVoterBranch
        cases tenure.unique _ _ _ isVoterBranch isCandidateBranch
        exact held.trans (List.prefix_of_prefix_length_le voterFront candidateFront longer)

end GoLab
