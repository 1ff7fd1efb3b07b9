import BMChain.State.CommentFrame

/-!
# The curation curve

The weight of a vote is what it adds to the approximate square root of the
shares for its comment.  The root is monotone and fits into 64 bits, and no
fund ever gets another curve, so that the weights of a comment add up.
-/

namespace BMChain.State

open BMChain.Foundation BMChain.Protocol Std

variable {other : Nat} {db after : Database} {ext : External}

variable {fields : List Field} {shares : Int}

/-! ## The approximate square root -/

/-- The bits below the leading one of the root, before they are halved. -/
def rootMantissa (value : Nat) : Nat :=
  (if value.log2 % 2 = 1 then 2 ^ (value.log2 / 2) else 0) +
    value % 2 ^ value.log2 / 2 ^ (value.log2 - value.log2 / 2)

section Root

variable {value : Nat}

theorem lowBits_lt
    (value : Nat) :
    value % 2 ^ value.log2 / 2 ^ (value.log2 - value.log2 / 2) <
      2 ^ (value.log2 / 2) := by
  refine Nat.div_lt_of_lt_mul ?_
  rw [← Nat.pow_add]
  have split : value.log2 - value.log2 / 2 + value.log2 / 2 = value.log2 := by
    omega
  rw [split]
  exact Nat.mod_lt _ (Nat.two_pow_pos _)

theorem rootMantissa_lt
    (value : Nat) :
    rootMantissa value < 2 * 2 ^ (value.log2 / 2) := by
  have low := lowBits_lt value
  unfold rootMantissa
  split <;> omega

theorem two_pow_or
    {place bits : Nat}
    (low : bits < 2 ^ place) :
    2 ^ place ||| bits = 2 ^ place + bits := by
  have apart := Nat.two_pow_add_eq_or_of_lt low 1
  rw [Nat.mul_one] at apart
  exact apart.symm

/-- The root has half as many bits, and the leading ones of the value. -/
theorem approxSqrt_eq
    (positive : 0 < value)
    (small : value < 2 ^ 128) :
    approxSqrt value = 2 ^ (value.log2 / 2) + rootMantissa value / 2 := by
  have low := lowBits_lt value
  have mantissa := rootMantissa_lt value
  have bits : value.log2 < 128 := (Nat.log2_lt (by omega)).2 small
  have short : 2 ^ (value.log2 / 2) ≤ 2 ^ 63 :=
    Nat.pow_le_pow_right (by decide) (by omega)
  unfold approxSqrt
  rw [if_neg (Nat.ne_of_gt positive)]
  dsimp only
  rw [Nat.mod_eq_of_lt (Nat.lt_of_lt_of_le low (by omega))]
  have joined : ((if value.log2 % 2 = 1 then 2 ^ (value.log2 / 2) else 0) |||
      value % 2 ^ value.log2 / 2 ^ (value.log2 - value.log2 / 2)) =
        rootMantissa value := by
    unfold rootMantissa
    split
    · exact two_pow_or low
    · rw [Nat.zero_or, Nat.zero_add]
  rw [joined, two_pow_or (Nat.div_lt_of_lt_mul mantissa)]

theorem approxSqrt_lt
    (positive : 0 < value)
    (small : value < 2 ^ 128) :
    approxSqrt value < 2 ^ (value.log2 / 2 + 1) := by
  have mantissa := rootMantissa_lt value
  rw [approxSqrt_eq positive small, Nat.pow_succ]
  omega

/-- The root of a value of 128 bits fits into 64. -/
theorem approxSqrt_lt_two_pow
    (small : value < 2 ^ 128) :
    approxSqrt value < 2 ^ 64 := by
  rcases Nat.eq_zero_or_pos value with rfl | positive
  · decide
  · have bits : value.log2 < 128 := (Nat.log2_lt (by omega)).2 small
    refine Nat.lt_of_lt_of_le (approxSqrt_lt positive small) ?_
    exact Nat.pow_le_pow_right (by decide) (by omega)

theorem log2_mono
    (positive : 0 < value)
    (less : value ≤ other) :
    value.log2 ≤ other.log2 := by
  have some : other ≠ 0 := by omega
  exact (Nat.le_log2 some).2
    (Nat.le_trans (Nat.log2_self_le (Nat.ne_of_gt positive)) less)

/-- Without its leading one, a value is what is left of it. -/
theorem mod_leading
    (positive : 0 < value) :
    value % 2 ^ value.log2 = value - 2 ^ value.log2 := by
  have above := Nat.log2_self_le (Nat.ne_of_gt positive)
  have below := Nat.lt_log2_self (n := value)
  rw [Nat.pow_succ] at below
  rw [Nat.mod_eq_sub_mod above, Nat.mod_eq_of_lt (by omega)]

/-- The mantissa grows with a value whose root has as many bits. -/
theorem rootMantissa_mono
    (positive : 0 < value)
    (less : value ≤ other)
    (same : value.log2 / 2 = other.log2 / 2) :
    rootMantissa value ≤ rootMantissa other := by
  have order := log2_mono positive less
  rcases Nat.eq_or_lt_of_le order with equal | longer
  · have left : value % 2 ^ value.log2 ≤ other % 2 ^ other.log2 := by
      rw [mod_leading positive, mod_leading (by omega), equal]
      exact Nat.sub_le_sub_right less _
    unfold rootMantissa
    rw [equal] at left ⊢
    exact Nat.add_le_add_left (Nat.div_le_div_right left) _
  · -- The shorter value has an even place for its leading one.
    have low := lowBits_lt value
    unfold rootMantissa
    rw [if_neg (by omega), if_pos (by omega), Nat.zero_add, ← same]
    exact Nat.le_trans (Nat.le_of_lt low) (Nat.le_add_right _ _)

/-- The approximate square root is monotone. -/
theorem approxSqrt_mono
    (less : value ≤ other)
    (small : other < 2 ^ 128) :
    approxSqrt value ≤ approxSqrt other := by
  rcases Nat.eq_zero_or_pos value with rfl | positive
  · exact Nat.zero_le _
  have above : 0 < other := Nat.lt_of_lt_of_le positive less
  have below : value < 2 ^ 128 := Nat.lt_of_le_of_lt less small
  have order := log2_mono positive less
  rcases Nat.eq_or_lt_of_le (Nat.div_le_div_right (c := 2) order) with
    same | longer
  · have grows := rootMantissa_mono positive less same
    rw [approxSqrt_eq positive below, approxSqrt_eq above small, same]
    exact Nat.add_le_add_left (Nat.div_le_div_right grows) _
  · calc approxSqrt value
        ≤ 2 ^ (value.log2 / 2 + 1) :=
          Nat.le_of_lt (approxSqrt_lt positive below)
      _ ≤ 2 ^ (other.log2 / 2) := Nat.pow_le_pow_right (by decide) longer
      _ ≤ approxSqrt other := by
          rw [approxSqrt_eq above small]
          exact Nat.le_add_right _ _

end Root

/-! ## The curve of the funds -/

namespace Database

/-- A fund weighs votes by the root, and curators get no more than all of it. -/
def RootWeighed (fund : RewardFundObject) : Prop :=
  fund.curationRewardCurve = .squareRoot ∧
    fund.percentCurationRewards ≤ hundredPercent

/-- All funds weigh votes by the approximate square root. -/
def RootCurved (db : Database) : Prop :=
  db.rewardFunds.All RootWeighed

/-- A change leaves the funds their curve. -/
def KeepsCurve (before after : Database) : Prop :=
  before.RootCurved → after.RootCurved

instance : IsPreorder Database KeepsCurve where
  refl _ curved := curved
  trans _ _ _ first second curved := second (first curved)

theorem rootCurved_genesis :
    initGenesis.RootCurved :=
  Table.All.empty.emplace ⟨rfl, by decide⟩

theorem KeepsCurve.of_agrees
    {before after : Database}
    (agrees : Agrees fields before after)
    (separate : apart [.rewardFunds] fields = true) :
    KeepsCurve before after := by
  intro curved
  have same : after.rewardFunds = before.rewardFunds :=
    agrees.read_eq separate List.mem_cons_self
  rw [RootCurved, same]
  exact curved

theorem keepsCurve_of_touches
    {result : Except Fault Database}
    (touches : Touches fields db result)
    (separate : apart [.rewardFunds] fields = true) :
    Respects KeepsCurve db result :=
  fun after done => .of_agrees (touches after done) separate

theorem keepsCurve_modifyRewardFund
    (db : Database)
    (id : Nat)
    {change : RewardFundObject → Except Fault RewardFundObject}
    (kept : ∀ fund changed, change fund = .ok changed →
      RootWeighed fund → RootWeighed changed) :
    Respects KeepsCurve db (db.modifyRewardFund id change) := by
  intro after done curved
  simp only [modifyRewardFund, modifyRow, bind_eq_ok_iff, orFault_eq_ok_iff,
    pure_eq_ok_iff] at done
  rcases done with ⟨_, ⟨fund, found, changed, change, rfl⟩, rfl⟩
  exact Table.All.set curved (kept fund changed change (curved id fund found)) id

theorem keepsCurve_payFee
    (db : Database)
    (fee : Int) :
    Respects KeepsCurve db (db.payFee fee) := by
  unfold payFee
  split
  · refine .foldlM _ fun state entry => keepsCurve_modifyRewardFund state _ ?_
    intro fund changed equal curve
    simp only [bind_eq_ok_iff, pure_eq_ok_iff] at equal
    rcases equal with ⟨_, -, rfl⟩
    exact curve
  · exact .unchanged

theorem keepsCurve_payRewardFunds
    {reward used : Int}
    (done : db.payRewardFunds reward = .ok (after, used)) :
    KeepsCurve db after := by
  refine foldlM_invariant
    (fun paid : Database × Int => KeepsCurve db paid.1) ?_ done
    (refl_of _ db)
  rintro ⟨state, paid⟩ entry next - stepped before
  simp only [payRewardFund, bind_eq_ok_iff, pure_eq_ok_iff] at stepped
  rcases stepped with ⟨_, -, _, -, changed, change, _, -, _, -, rfl⟩
  refine trans_of KeepsCurve before
    (keepsCurve_modifyRewardFund state _ ?_ changed change)
  intro fund paid equal curve
  simp only [bind_eq_ok_iff, pure_eq_ok_iff] at equal
  rcases equal with ⟨_, -, rfl⟩
  exact curve

theorem keepsCurve_processFundsBmchain
    (db : Database)
    (newBmt : Int) :
    Respects KeepsCurve db (db.processFundsBmchain newBmt) := by
  unfold processFundsBmchain
  split
  · exact .unchanged
  · refine .read ?_
    rintro ⟨funded, used⟩ paid
    refine .after ?_ (keepsCurve_payRewardFunds paid)
    refine .read fun reward _ => .read fun witness _ => ?_
    refine .bind (keepsCurve_of_touches (touches_addBalance funded _ _) rfl) ?_
    intro credited
    refine .read fun _ _ => .read fun _ _ => .read fun _ _ => ?_
    exact .read fun _ _ => .ok fun curved => curved

/-! ## Operations which pay into the funds -/

theorem keepsCurve_accountCreate
    (ext : External)
    (op : AccountCreateOperation)
    (db : Database) :
    Respects KeepsCurve db (db.accountCreateEvaluator ext op) := by
  refine .read fun _ _ => .read fun _ _ => .read fun _ _ => ?_
  refine .read fun _ _ => .read fun _ _ => .read fun _ _ => ?_
  refine .read fun _ _ => .read fun _ _ => ?_
  refine .bind (keepsCurve_of_touches (touches_addBalance db _ _) rfl) ?_
  refine fun debited => .read fun _ _ => .read fun accounts _ => ?_
  refine .read fun authorities _ => ?_
  refine .after (Respects.bind (keepsCurve_payFee _ _) ?_)
    (.of_agrees (agrees_accounts debited accounts authorities) rfl)
  exact fun paid => keepsCurve_processFundsBmchain paid _

theorem keepsCurve_customTokenCreate
    (op : CustomTokenCreateOperation)
    (db : Database) :
    Respects KeepsCurve db (db.customTokenCreateEvaluator op) := by
  refine .read fun _ _ => .read fun _ _ => .read fun _ _ => ?_
  refine .read fun _ _ => ?_
  have created : ∀ tokens balances, KeepsCurve db
      { db with customTokens := tokens, accountBalances := balances } :=
    fun tokens balances curved => curved
  refine .after (Respects.bind (keepsCurve_of_touches
    (touches_addBalance _ _ _) rfl) ?_) (created _ _)
  exact fun debited => keepsCurve_payFee debited _

theorem keepsCurve_storeComment
    (db : Database)
    (op : CommentOperation)
    (comment : CommentObject) :
    Respects KeepsCurve db (db.storeComment op comment) := by
  refine .read fun _ _ => .read fun _ _ => .read fun comments _ => ?_
  refine .after ?_ (.of_agrees (agrees_comments db comments) rfl)
  refine .bind (keepsCurve_of_touches (touches_updateParents _ _ _ _ _) rfl) ?_
  exact fun told => keepsCurve_processFundsBmchain told _

theorem keepsCurve_comment
    (ext : External)
    (op : CommentOperation)
    (db : Database) :
    Respects KeepsCurve db (db.commentEvaluator ext op) := by
  refine .read fun _ _ => ?_
  dsimp only
  split
  · refine .read fun _ _ => .read fun _ _ => ?_
    refine .bind (keepsCurve_of_touches (touches_countPost db _) rfl) ?_
    exact fun counted => keepsCurve_storeComment counted _ _
  · exact keepsCurve_of_touches (touches_editComment ext db _ _) rfl

theorem keepsCurve_encryptedContent
    (ext : External)
    (op : EncryptedContentOperation)
    (db : Database) :
    Respects KeepsCurve db (db.encryptedContentEvaluator ext op) := by
  refine .read fun _ _ => ?_
  have settled : Respects KeepsCurve db
      (if usingCloseContent ≤ db.headBlockNum ∧ op.applyOrder then
        db.settleOrder op.author op.orderId
      else pure db) := by
    split
    · exact keepsCurve_of_touches (touches_settleOrder db _ _) rfl
    · exact .unchanged
  refine .bind settled fun paid => ?_
  split
  · refine .read fun _ _ => .read fun _ _ => ?_
    refine .bind (keepsCurve_of_touches (touches_countPost paid _) rfl) ?_
    refine fun counted => .read fun comment _ => ?_
    exact keepsCurve_storeComment counted _ _
  · exact keepsCurve_of_touches (touches_editComment ext paid _ _) rfl

theorem keepsCurve_castVote
    (ext : External)
    (db : Database)
    (op : VoteOperation)
    (voter : AccountObject)
    (id : Nat)
    (comment : CommentObject)
    (power : VotePower) :
    Respects KeepsCurve db (db.castVote ext op voter id comment power) := by
  refine .read fun _ _ => .read fun _ _ => ?_
  refine .bind (keepsCurve_of_touches (touches_spendVotePower db _ _) rfl) ?_
  refine fun spent => .read fun _ _ => .read fun _ _ => ?_
  refine .read fun net _ => .read fun abs _ => .read fun upvotes _ => ?_
  refine .after (Respects.bind
    (keepsCurve_of_touches (touches_addChildrenRshares _ _ _) rfl) ?_)
    (.of_agrees (agrees_comments spent _) rfl)
  refine fun counted => .read fun weights _ => ?_
  refine .after (Respects.bind
    (keepsCurve_of_touches (touches_modifyComment _ _ _) rfl) ?_)
    (.of_agrees (agrees_commentVotes counted _) rfl)
  exact fun weighed => keepsCurve_processFundsBmchain weighed _

theorem keepsCurve_vote
    (ext : External)
    (op : VoteOperation)
    (db : Database) :
    Respects KeepsCurve db (db.voteEvaluator ext op) := by
  refine .read fun _ _ => .read fun _ _ => .read fun _ _ => ?_
  refine .read fun _ _ => .read fun _ _ => .read fun _ _ => ?_
  split
  · exact .unchanged
  · refine .read fun _ _ => ?_
    split
    · exact keepsCurve_castVote ext db _ _ _ _ _
    · exact keepsCurve_of_touches (touches_changeVote db _ _ _ _ _ _) rfl

theorem keepsCurve_applyOperation
    {op : Operation}
    (done : db.applyOperation ext op = .ok after) :
    KeepsCurve db after := by
  have agrees := touches_applyOperation ext db op after done
  cases op with
  | vote op => exact keepsCurve_vote ext op db after done
  | comment op => exact keepsCurve_comment ext op db after done
  | encryptedContent op =>
      exact keepsCurve_encryptedContent ext op db after done
  | accountCreate op => exact keepsCurve_accountCreate ext op db after done
  | customTokenCreate op => exact keepsCurve_customTokenCreate op db after done
  | _ => exact .of_agrees agrees rfl

/-! ## The round of payouts -/

theorem keepsCurve_decayFunds
    {funds : List RewardFundContext}
    (done : db.decayFunds = .ok (after, funds)) :
    KeepsCurve db after := by
  intro curved
  refine foldlM_invariant
    (fun state : Database × List RewardFundContext =>
      state.1.RootCurved) ?_ done curved
  intro state entry next member stepped before
  simp only [bind_eq_ok_iff] at stepped
  rcases stepped with ⟨decayed, decay, equal⟩
  cases equal
  refine keepsCurve_modifyRewardFund state.1 _ ?_ decayed decay before
  intro fund changed equal _
  cases equal
  exact curved entry.1 entry.2
    (ExtTreeMap.mem_toList_iff_getElem?_eq_some.1 member)

theorem keepsCurve_processCommentCashout
    (done : db.processCommentCashout ext = .ok after) :
    KeepsCurve db after := by
  unfold processCommentCashout at done
  split at done
  · cases done
    exact refl_of KeepsCurve db
  simp only [bind_eq_ok_iff] at done
  rcases done with ⟨⟨decayed, funds⟩, decay, claims, -, ⟨round, written⟩, done⟩
  rcases done with ⟨ran, write⟩
  have second : KeepsCurve decayed round := by
    refine drain_invariant
      (fun round : Database × List RewardFundContext =>
        KeepsCurve decayed round.1) ?_ ran (refl_of _ decayed)
    intro due round next _ acted before
    simp only [cashoutDue, bind_eq_ok_iff] at acted
    rcases acted with ⟨_, -, _, -, ⟨cashed, _⟩, cash, _, -, equal⟩
    cases equal
    exact trans_of KeepsCurve before
      (.of_agrees (agrees_cashoutCommentHelper cash) rfl)
  have third : KeepsCurve round after := by
    refine Respects.foldlM _ ?_ after write
    intro state entry
    refine keepsCurve_modifyRewardFund state _ ?_
    intro fund changed equal curve
    simp only [bind_eq_ok_iff, pure_eq_ok_iff] at equal
    rcases equal with ⟨_, -, rfl⟩
    exact curve
  exact trans_of KeepsCurve (keepsCurve_decayFunds decay) (trans_of KeepsCurve second third)

theorem keepsCurve_runStep
    {header : BlockHeader}
    {step : BlockStep}
    (done : db.runStep ext header step = .ok after) :
    KeepsCurve db after := by
  have agrees := touches_runStep ext header db step after done
  cases step with
  | processCommentCashout => exact keepsCurve_processCommentCashout done
  | _ => exact .of_agrees agrees rfl

/-! ## The weight of a vote -/

/-- What all the shares for a comment weigh. -/
def rootWeight (voteRshares : Int) : Nat :=
  approxSqrt voteRshares.toNat

theorem rootWeight_mono
    {old new : Int}
    (more : old ≤ new)
    (fits : FitsInt64 new) :
    rootWeight old ≤ rootWeight new := by
  refine approxSqrt_mono (Int.toNat_le_toNat more) ?_
  have bound := fits.2
  omega

theorem rootWeight_lt
    (fits : FitsInt64 shares) :
    rootWeight shares < 2 ^ 64 := by
  refine approxSqrt_lt_two_pow ?_
  have bound := fits.2
  omega

/-- Shares which are not negative are weighed as they are. -/
theorem evaluateRewardCurve_root
    {constant weight : Nat}
    (nonneg : 0 ≤ shares)
    (fits : FitsInt64 shares)
    (done : evaluateRewardCurve ext (uint128 shares) .squareRoot constant =
      .ok weight) :
    toUint64 weight = rootWeight shares := by
  have same : uint128 shares = shares.toNat := by
    have bound := fits.2
    unfold uint128
    omega
  rw [same] at done
  cases done
  exact Nat.mod_eq_of_lt (rootWeight_lt fits)

/--
A vote weighs at most what it adds to the weight of all shares, and its
discounted weight is no larger; on a comment which was paid it weighs nothing.
-/
theorem curationWeight_le
    {comment : CommentObject}
    {old rshares : Int}
    {full weight : Nat}
    (curved : db.RootCurved)
    (done : db.curationWeight ext comment old rshares = .ok (full, weight))
    (aged : reverseAuctionTime ≤ comment.created)
    (nonneg : 0 ≤ old)
    (more : old ≤ comment.voteRshares)
    (fits : FitsInt64 comment.voteRshares) :
    weight ≤ full ∧ rootWeight old + full ≤ rootWeight comment.voteRshares ∧
      (comment.lastPayout ≠ 0 → full = 0) := by
  have below := rootWeight_mono more fits
  have small := rootWeight_lt fits
  simp only [curationWeight, bind_eq_ok_iff] at done
  rcases done with ⟨percent, -, done⟩
  split at done
  case isFalse =>
    cases done
    exact ⟨Nat.le_refl 0, below, fun _ => rfl⟩
  case isTrue eligible =>
    rw [if_neg (Nat.not_lt.2 aged)] at done
    simp only [bind_eq_ok_iff] at done
    rcases done with ⟨whole, ⟨⟨id, fund⟩, got, first, former, last, latter,
      given⟩, equal⟩
    have there := Table.find?_of_findBy (orFault_eq_ok_iff.1 got)
    rw [(curved id fund there).1] at former latter
    have oldFits : FitsInt64 old :=
      ⟨Int.le_trans (by decide) nonneg, Int.lt_of_le_of_lt more fits.2⟩
    have start := evaluateRewardCurve_root nonneg oldFits former
    have finish := evaluateRewardCurve_root (Int.le_trans nonneg more) fits
      latter
    cases given
    cases equal
    rw [start, finish]
    have gained : (rootWeight comment.voteRshares + 2 ^ 64 - rootWeight old) %
        2 ^ 64 = rootWeight comment.voteRshares - rootWeight old := by
      omega
    rw [gained]
    refine ⟨?_, by omega, fun paid => absurd eligible.2.1 paid⟩
    split
    · refine Nat.le_trans (Nat.mod_le _ _) (Nat.div_le_of_le_mul ?_)
      rw [Nat.mul_comm]
      exact Nat.mul_le_mul_right _ (Nat.min_le_right _ _)
    · exact Nat.le_refl _

end Database

end BMChain.State
