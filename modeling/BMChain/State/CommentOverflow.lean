import BMChain.State.CommentTree
import BMChain.State.Holdings
import Mathlib.Data.List.TakeWhile
import Mathlib.Data.Nat.Digits.Lemmas

/-!
# A counter which runs over

The counter of replies has 32 bits.  An account which answers its own post
often enough, with encrypted content and within one block, takes the counter
of the post through all its values and back to zero.
-/

namespace BMChain.State

open BMChain.Foundation BMChain.Protocol Std

variable {number : Nat}

/-! ## Permlinks for the replies -/

/-- The permlink of a reply: its number in decimal digits. -/
def replyPermlink (number : Nat) : Text :=
  (Nat.digits 10 (number + 1)).map fun digit => UInt8.ofNat (48 + digit)

theorem digit_of_mem_replyPermlink
    {byte : UInt8}
    (member : byte ∈ replyPermlink number) :
    ∃ digit, digit < 10 ∧ byte = UInt8.ofNat (48 + digit) := by
  rcases List.mem_map.1 member with ⟨digit, listed, rfl⟩
  exact ⟨digit, Nat.digits_lt_base (by decide) listed, rfl⟩

theorem replyPermlink_injective :
    Function.Injective replyPermlink := by
  intro first second same
  have back : ∀ number, (replyPermlink number).map (·.toNat - 48) =
      Nat.digits 10 (number + 1) := by
    intro number
    rw [replyPermlink, List.map_map]
    refine (List.map_congr_left ?_).trans (List.map_id _)
    intro digit listed
    have small := Nat.digits_lt_base (by decide) listed
    interval_cases digit <;> rfl
  have digits := congrArg (List.map (·.toNat - 48)) same
  rw [back, back, Nat.digits_inj_iff] at digits
  omega

theorem cString_replyPermlink
    (number : Nat) :
    cString (replyPermlink number) = replyPermlink number := by
  rw [cString, List.takeWhile_eq_self_iff]
  intro byte member
  rcases digit_of_mem_replyPermlink member with ⟨digit, small, rfl⟩
  interval_cases digit <;> rfl

theorem all_replyPermlink
    (number : Nat)
    {test : UInt8 → Bool}
    (digits : ∀ digit, digit < 10 → test (UInt8.ofNat (48 + digit)) = true) :
    (replyPermlink number).all test = true := by
  rw [List.all_eq_true]
  intro byte member
  rcases digit_of_mem_replyPermlink member with ⟨digit, small, rfl⟩
  exact digits digit small

theorem length_replyPermlink
    (bound : number < 2 ^ 32) :
    0 < (replyPermlink number).length ∧
      (replyPermlink number).length < maxPermlinkLength := by
  rw [replyPermlink, List.length_map]
  constructor
  · exact List.length_pos_of_ne_nil
      (Nat.digits_ne_nil_iff_ne_zero.2 (Nat.succ_ne_zero number))
  · have short : (Nat.digits 10 (number + 1)).length ≤ 10 := by
      rw [Nat.digits_length_le_iff (by decide)]
      omega
    exact Nat.lt_of_le_of_lt short (by decide)

/-- No reply has the permlink of the post. -/
theorem replyPermlink_ne_post
    (number : Nat) :
    replyPermlink number ≠ [97] := by
  intro same
  have member : (97 : UInt8) ∈ replyPermlink number := by
    rw [same]
    exact List.mem_singleton.2 rfl
  rcases digit_of_mem_replyPermlink member with ⟨digit, small, equal⟩
  interval_cases digit <;> cases equal

/-! ## The emission for replies -/

namespace Database

/-- An amount which some thousands of millions of emissions keep in range. -/
def Modest (count : Nat) (amount : Int) : Prop :=
  0 ≤ amount ∧ amount ≤ 10 ^ 15 + commentEmissionRate * count

theorem Modest.add
    {count : Nat}
    {amount added : Int}
    (modest : Modest count amount)
    (bound : count < 2 ^ 32)
    (positive : 0 ≤ added)
    (small : added ≤ commentEmissionRate) :
    checked (amount + added) = .ok (amount + added) ∧
      Modest (count + 1) (amount + added) := by
  rcases modest with ⟨low, high⟩
  simp only [Modest, checked_eq_ok_iff, FitsInt64, commentEmissionRate] at *
  refine ⟨⟨⟨?_, ?_⟩, trivial⟩, ?_, ?_⟩ <;> omega

/-- The table of one fund. -/
theorem entries_set_single
    {funds : Table RewardFundObject}
    {fund : RewardFundObject}
    (single : funds.entries = [(0, fund)])
    (changed : RewardFundObject) :
    (funds.set 0 changed).entries = [(0, changed)] := by
  have rows : funds.rows = (∅ : ExtTreeMap Nat RewardFundObject).insert 0 fund :=
    ExtTreeMap.ext_toList (.of_eq single)
  change (funds.rows.modify 0 fun _ => changed).toList = _
  rw [rows]
  rfl

/-- The account of the author can act and can be credited. -/
def AuthorFit (count : Nat) (db : Database) : Prop :=
  ∃ account, db.accounts.find? initMinerName = some account ∧
    account.ownerChallenged = false ∧ account.activeChallenged = false ∧
      Modest count account.balance

/-- What the emission for a reply needs of the state. -/
structure Emitting (count : Nat) (db : Database) : Prop where
  number : db.props.headBlockNumber = 0
  producer : db.props.currentWitness = initMinerName
  witness : ∃ witness, db.witnesses.find? initMinerName = some witness ∧
    witness.owner = initMinerName
  account : AuthorFit count db
  fund : ∃ fund, db.rewardFunds.entries = [(0, fund)] ∧
    fund.percentContentRewards = hundredPercent ∧
      Modest count fund.rewardBalance
  supply : Modest count db.props.currentSupply
  virtualSupply : Modest count db.props.virtualSupply

theorem Emitting.payRewardFunds
    {count : Nat}
    {db : Database}
    (emitting : Emitting count db)
    (bound : count < 2 ^ 32) :
    ∃ fund, db.payRewardFunds 1800 =
        .ok ({ db with rewardFunds := db.rewardFunds.set 0 fund }, 1800) ∧
      fund.percentContentRewards = hundredPercent ∧
        Modest (count + 1) fund.rewardBalance := by
  rcases emitting.fund with ⟨fund, single, percent, modest⟩
  have found : db.rewardFunds.find? 0 = some fund := by
    refine ExtTreeMap.mem_toList_iff_getElem?_eq_some.1 ?_
    rw [show db.rewardFunds.rows.toList = _ from single]
    exact List.mem_singleton.2 rfl
  rcases modest.add bound (by decide : (0 : Int) ≤ 1800) (by decide) with
    ⟨sum, more⟩
  refine ⟨{ fund with rewardBalance := fund.rewardBalance + 1800 }, ?_,
    percent, more⟩
  have scaled : checked (1800 * fund.percentContentRewards) =
      .ok 18000000 := by
    rw [percent]
    rfl
  rw [Database.payRewardFunds, single, List.foldlM_cons, bind_eq_ok_iff]
  refine ⟨_, ?_, rfl⟩
  simp only [payRewardFund, modifyRewardFund, modifyRow, found, orFault,
    bind_eq_ok_iff, pure_eq_ok_iff]
  exact ⟨18000000, scaled, 1800, rfl, _,
    ⟨_, ⟨_, rfl, _, ⟨_, sum, rfl⟩, rfl⟩, rfl⟩, 1800, rfl, (), rfl, rfl⟩

theorem AuthorFit.addBalance
    {count : Nat}
    {db : Database}
    (fit : AuthorFit count db)
    (bound : count < 2 ^ 32) :
    ∃ accounts,
      db.addBalance initMinerName 200 =
          .ok { db with accounts := accounts } ∧
        AuthorFit (count + 1) { db with accounts := accounts } := by
  rcases fit with ⟨account, found, owner, active, modest⟩
  rcases modest.add bound (by decide : (0 : Int) ≤ 200) (by decide) with
    ⟨sum, more⟩
  have succeeds : ∃ after, db.addBalance initMinerName 200 = .ok after := by
    simp only [Database.addBalance, modifyAccount, modifyNamed, found,
      orFault, bind_eq_ok_iff, pure_eq_ok_iff]
    exact ⟨_, _, ⟨_, rfl, _, ⟨_, sum, rfl⟩, rfl⟩, rfl⟩
  rcases succeeds with ⟨after, done⟩
  rcases accounts_of_modifyAccount done with ⟨accounts, rfl⟩
  refine ⟨accounts, done, ?_⟩
  rcases find_modifyAccount done with ⟨old, changed, there, change, rows⟩
  rw [found] at there
  cases there
  simp only [bind_eq_ok_iff, checked_eq_ok_iff, pure_eq_ok_iff] at change
  rcases change with ⟨_, ⟨-, rfl⟩, rfl⟩
  exact ⟨_, (rows initMinerName).trans (if_pos rfl), owner, active, more⟩

/-- The emission for a reply succeeds, and leaves room for the next. -/
theorem Emitting.processFunds
    {count : Nat}
    {db : Database}
    (emitting : Emitting count db)
    (bound : count < 2 ^ 32) :
    ∃ after, db.processFundsBmchain commentEmissionRate = .ok after ∧
      Emitting (count + 1) after := by
  rcases emitting.payRewardFunds bound with ⟨fund, paid, percent, content⟩
  rcases emitting.witness with ⟨witness, producer, owner⟩
  rcases emitting.supply.add bound (by decide : (0 : Int) ≤ 2000)
    (by decide) with ⟨current, supply⟩
  rcases emitting.virtualSupply.add bound (by decide : (0 : Int) ≤ 2000)
    (by decide) with ⟨virtual, virtualSupply⟩
  have ready : AuthorFit count
      { db with rewardFunds := db.rewardFunds.set 0 fund } := emitting.account
  rcases ready.addBalance bound with ⟨accounts, credit, account⟩
  have going : db.emissionStopped = false := by
    simp [emissionStopped, emitting.number]
  rw [processFundsBmchain, going]
  simp only [Bool.false_eq_true, if_false, bind_eq_ok_iff]
  refine ⟨_, ⟨_, paid, 200, rfl, witness, ?_,
    { db with
      rewardFunds := db.rewardFunds.set 0 fund
      accounts := accounts }, ?_, 2000, rfl, _, current, _, virtual, 2000, ?_,
    rfl⟩, ?_⟩
  · rw [getWitness, orFault_eq_ok_iff, emitting.producer]
    exact producer
  · rw [owner]
    exact credit
  · rw [if_pos]
    · rfl
    · exact congrArg (· % emissionPeriod) emitting.number
  · refine ⟨emitting.number, emitting.producer, emitting.witness, account, ?_,
      supply, virtualSupply⟩
    rcases emitting.fund with ⟨_, single, -, -⟩
    exact ⟨fund, entries_set_single single fund, percent, content⟩

/-! ## The replies -/

/-- The reply with a number to the sample post. -/
def sampleReply (number : Nat) : EncryptedContentOperation where
  parentAuthor := initMinerName
  parentPermlink := [97]
  author := initMinerName
  permlink := replyPermlink number
  title := []
  body := [99]
  jsonMetadata := []
  encryptedMessage := []
  sentTime := 0
  nonce := 0
  messageSize := 0
  checksum := 0
  price := bmt 0
  owner := ""
  orderId := 0
  applyOrder := false

theorem validatePermlink_replyPermlink
    (bound : number < 2 ^ 32) :
    validatePermlink plainExternal (replyPermlink number) = .ok () ∧
      validatePermlink01 (replyPermlink number) = .ok () := by
  have length := length_replyPermlink bound
  have ascii : plainExternal.isUtf8 (replyPermlink number) = true :=
    all_replyPermlink number (by decide)
  have bytes : (replyPermlink number).all isPermlinkByte = true :=
    all_replyPermlink number (by decide)
  simp only [validatePermlink, validatePermlink01, bind_eq_ok_iff,
    require_eq_ok_iff]
  exact ⟨⟨(), length.2, ascii⟩, (), length, bytes⟩

theorem validate_sampleReply
    (bound : number < 2 ^ 32) :
    (sampleReply number).toCommentOperation.validate plainExternal =
      .ok () := by
  have name : validateAccountName initMinerName = .ok () := by decide +kernel
  have named : nameSize (sampleReply number).parentAuthor ≠ 0 :=
    (by decide : nameSize initMinerName ≠ 0)
  simp only [CommentOperation.validate, if_neg named, bind_eq_ok_iff]
  exact ⟨(), rfl, (), rfl, (), rfl, (), rfl, (), name, (), name, (), rfl, (),
    (validatePermlink_replyPermlink bound).1, rfl⟩

/-- The post has had the given number of replies. -/
structure Thread (count : Nat) (db : Database) : Prop where
  emitting : Emitting count db
  post : ∃ post, db.comments.find? 0 = some post ∧
    post.author = initMinerName ∧ post.permlink = [97] ∧
      post.parentAuthor = "" ∧ post.depth = 0 ∧ post.rootComment = 0 ∧
        post.allowReplies = true ∧ post.children = count % 2 ^ 32
  others : ∀ id comment, db.comments.find? id = some comment →
    id = 0 ∨ ∃ number < count, cString comment.permlink = replyPermlink number
  reply : 0 < count → ∃ id comment, db.comments.find? id = some comment ∧
    comment.parentAuthor = initMinerName ∧ comment.parentPermlink = [97]

section Threads

variable {count : Nat} {db : Database} {post : CommentObject}

theorem findComment_post
    (found : db.comments.find? 0 = some post)
    (author : post.author = initMinerName)
    (permlink : post.permlink = [97]) :
    db.findComment initMinerName [97] = some (0, post) := by
  refine Table.findBy_eq_some_iff.2 ⟨found, ?_, fun _ _ _ _ => Nat.zero_le _⟩
  rw [decide_eq_true_eq, author, permlink]
  exact ⟨rfl, rfl⟩

/-- The next reply has a new permlink. -/
theorem Thread.fresh
    (thread : Thread count db) :
    db.findComment initMinerName (replyPermlink count) = none := by
  rw [Option.eq_none_iff_forall_ne_some]
  rintro ⟨id, comment⟩ found
  have passed := Table.passed_of_findBy found
  rw [decide_eq_true_eq, cString_replyPermlink] at passed
  rcases thread.others id comment (Table.find?_of_findBy found) with
    rfl | ⟨number, less, same⟩
  · rcases thread.post with ⟨post, there, -, permlink, -⟩
    rw [Table.find?_of_findBy found] at there
    cases there
    rw [permlink] at passed
    exact replyPermlink_ne_post count passed.2.symm
  · have equal := replyPermlink_injective (same.symm.trans passed.2)
    omega

/-- The walk from a reply to the post changes the post alone. -/
theorem updateParents_post
    (change : CommentObject → CommentObject)
    (found : db.comments.find? 0 = some post)
    (author : post.author = initMinerName)
    (permlink : post.permlink = [97])
    (root : post.parentAuthor = "") :
    updateParents change (db.comments.size + 1) db initMinerName [97] =
      .ok { db with comments := db.comments.set 0 (change post) } := by
  rcases Nat.exists_eq_add_of_lt (Table.size_pos found) with ⟨size, some⟩
  rw [Nat.zero_add] at some
  have named : initMinerName ≠ "" := by decide
  rw [some, updateParents, if_neg named]
  simp only [bind_eq_ok_iff, getComment, orFault_eq_ok_iff]
  refine ⟨_, findComment_post found author permlink,
    { db with comments := db.comments.set 0 (change post) }, ?_, ?_⟩
  · simp only [modifyComment, modifyRow, found, orFault, bind_eq_ok_iff,
      pure_eq_ok_iff]
    exact ⟨_, ⟨_, rfl, _, rfl, rfl⟩, rfl⟩
  · rw [updateParents, root, if_pos rfl]

/-- The author can be noted for a post. -/
theorem Emitting.countPost
    (emitting : Emitting count db)
    (op : CommentOperation)
    (author : op.author = initMinerName) :
    ∃ accounts, db.countPost op = .ok { db with accounts := accounts } ∧
      Emitting count { db with accounts := accounts } := by
  rcases emitting.account with ⟨account, found, owner, active, modest⟩
  have succeeds : ∃ after, db.countPost op = .ok after := by
    simp only [Database.countPost, modifyAccount, modifyNamed, author, found,
      orFault, bind_eq_ok_iff, pure_eq_ok_iff]
    exact ⟨_, _, ⟨_, rfl, _, rfl, rfl⟩, rfl⟩
  rcases succeeds with ⟨after, done⟩
  rcases accounts_of_modifyAccount done with ⟨accounts, rfl⟩
  refine ⟨accounts, done, ?_⟩
  rcases find_modifyAccount done with ⟨old, changed, there, change, rows⟩
  rw [author, found] at there
  cases there
  cases change
  exact { emitting with
    account := ⟨_, (rows initMinerName).trans (if_pos author), owner, active,
      modest⟩ }

/-- The next reply is stored. -/
theorem Thread.storeComment
    (thread : Thread count db)
    (bound : count < 2 ^ 32)
    {comment : CommentObject}
    (permlink : comment.permlink = replyPermlink count)
    (parent : comment.parentAuthor = initMinerName)
    (above : comment.parentPermlink = [97]) :
    ∃ after,
      db.storeComment (sampleReply count).toCommentOperation comment =
          .ok after ∧
        Thread (count + 1) after := by
  rcases thread.post with
    ⟨post, found, author, link, root, depth, own, replies, children⟩
  have apart : db.comments.nextId ≠ 0 := by
    intro same
    have none := db.comments.find?_nextId
    rw [same, found] at none
    cases none
  have stays : (db.comments.emplace comment).find? 0 = some post := by
    rw [Table.find?_emplace, if_neg apart, found]
  have room : Emitting count
      { db with
        comments := (db.comments.emplace comment).set 0
          (recount (increment 32) db.headBlockTime post) } :=
    { thread.emitting with }
  rcases room.processFunds bound with ⟨after, paid, emitting⟩
  have rows : after.comments = (db.comments.emplace comment).set 0
      (recount (increment 32) db.headBlockTime post) :=
    (touches_processFundsBmchain _ _ after paid) .comments (by decide)
  refine ⟨after, ?_, emitting, ?_, ?_, ?_⟩
  · have free : createRow db.comments
        (fun other => other.author = initMinerName ∧
          cString other.permlink = cString (replyPermlink count)) comment =
        .ok (db.comments.emplace comment) := by
      simp only [createRow, bind_eq_ok_iff, require_eq_ok_iff]
      exact ⟨(), Option.isNone_iff_eq_none.2 thread.fresh, rfl⟩
    have walk : updateParents (recount (increment 32) db.headBlockTime)
        ((db.comments.emplace comment).size + 1)
        { db with comments := db.comments.emplace comment } initMinerName
        [97] = .ok _ :=
      updateParents_post _ stays author link root
    have named : nameSize comment.parentAuthor ≠ 0 := by
      rw [parent]
      decide
    simp only [Database.storeComment, bind_eq_ok_iff]
    refine ⟨(), rfl, (), (validatePermlink_replyPermlink bound).2, _, free, _,
      walk, ?_⟩
    rw [if_neg named]
    exact paid
  · refine ⟨recount (increment 32) db.headBlockTime post, ?_, author, link,
      root, depth, own, replies, ?_⟩
    · rw [rows, Table.find?_set stays, if_pos rfl]
    · change (post.children + 1) % 2 ^ 32 = _
      rw [children, Nat.mod_add_mod]
  · intro id row there
    rw [rows, Table.find?_set stays] at there
    split at there
    case isTrue same => exact .inl same.symm
    case isFalse =>
      rw [Table.find?_emplace] at there
      split at there
      case isTrue =>
        cases there
        refine .inr ⟨count, Nat.lt_succ_self count, ?_⟩
        rw [permlink, cString_replyPermlink]
      case isFalse =>
        rcases thread.others id row there with same | ⟨number, less, same⟩
        · exact .inl same
        · exact .inr ⟨number, Nat.lt_succ_of_lt less, same⟩
  · intro _
    refine ⟨db.comments.nextId, comment, ?_, parent, above⟩
    rw [rows, Table.find?_set stays, if_neg (Ne.symm apart),
      Table.find?_emplace, if_pos rfl]

/-- The next reply is accepted. -/
theorem Thread.step
    (thread : Thread count db)
    (bound : count < 2 ^ 32) :
    ∃ after,
      db.step plainExternal
          (.operation (.encryptedContent (sampleReply count))) = .ok after ∧
        Thread (count + 1) after := by
  rcases thread.post with
    ⟨post, found, author, link, root, depth, own, replies, children⟩
  rcases thread.emitting.account with ⟨account, there, owner, active, -⟩
  have lookup := findComment_post found author link
  rcases thread.emitting.countPost (sampleReply count).toCommentOperation rfl
    with ⟨accounts, counted, emitting⟩
  have kept : Thread count { db with accounts := accounts } :=
    { thread with emitting := emitting }
  have stored := kept.storeComment bound
    (rfl : (freshComment plainExternal { db with accounts := accounts }
      (sampleReply count).toCommentOperation (some post)).permlink = _)
    author link
  rcases stored with ⟨after, stored, next⟩
  refine ⟨after, ?_, next⟩
  have named : (sampleReply count).parentAuthor ≠ "" :=
    (by decide : initMinerName ≠ "")
  have parented : db.findParent (sampleReply count).toCommentOperation =
      .ok (some post) := by
    rw [findParent, if_neg named, bind_eq_ok_iff]
    refine ⟨(0, post), orFault_eq_ok_iff.2 lookup, ?_⟩
    rw [bind_eq_ok_iff]
    refine ⟨(), ?_, rfl⟩
    rw [require_eq_ok_iff, depth]
    decide
  have checked : db.checkComment plainExternal
      (sampleReply count).toCommentOperation = .ok (account, some post) := by
    simp only [checkComment, getAccount, requireUnchallenged, bind_eq_ok_iff,
      orFault_eq_ok_iff]
    refine ⟨(), rfl, account, there, (), ?_, some post, parented, (), rfl, rfl⟩
    rw [owner, active]
    rfl
  have answered : db.checkReplies (some post) = .ok () := by
    simp only [checkReplies, getCommentById, bind_eq_ok_iff,
      orFault_eq_ok_iff, require_eq_ok_iff]
    exact ⟨post, own ▸ found, replies⟩
  have fresh : db.findComment (sampleReply count).author
      (sampleReply count).permlink = none := thread.fresh
  simp only [Database.step, bind_eq_ok_iff]
  refine ⟨(), validate_sampleReply bound, ?_⟩
  rw [applyOperation, encryptedContentEvaluator, bind_eq_ok_iff]
  refine ⟨_, checked, ?_⟩
  simp only [fresh, bind_eq_ok_iff]
  refine ⟨db, if_neg ?_, (), answered, (), ?_, _, counted, _, rfl, stored⟩
  · rintro ⟨-, ordered⟩
    cases ordered
  · rw [require_eq_ok_iff]
    exact .inr (.inl named)

end Threads

/-- What is read off the state in which the post is made. -/
def postMade (db : Database) : Bool :=
  db.props.headBlockNumber = 0 ∧ db.props.currentWitness = initMinerName ∧
    (db.witnesses.find? initMinerName).any
        (fun witness => witness.owner = initMinerName) ∧
      (db.accounts.find? initMinerName).any
          (fun account => account.ownerChallenged = false ∧
            account.activeChallenged = false ∧ 0 ≤ account.balance ∧
              account.balance ≤ 10 ^ 15) ∧
        (db.rewardFunds.entries.map Prod.fst = [0] ∧
          db.rewardFunds.entries.all
            fun entry => entry.2.percentContentRewards = hundredPercent ∧
              0 ≤ entry.2.rewardBalance ∧
                entry.2.rewardBalance ≤ 10 ^ 15) ∧
          (0 ≤ db.props.currentSupply ∧ db.props.currentSupply ≤ 10 ^ 15) ∧
            (0 ≤ db.props.virtualSupply ∧
              db.props.virtualSupply ≤ 10 ^ 15) ∧
              db.comments.entries.map Prod.fst = [0] ∧
                (db.comments.find? 0).any
                  fun post => post.author = initMinerName ∧
                    post.permlink = [97] ∧ post.parentAuthor = "" ∧
                      post.depth = 0 ∧ post.rootComment = 0 ∧
                        post.allowReplies = true ∧ post.children = 0

theorem thread_of_postMade
    {db : Database}
    (made : db.postMade = true) :
    Thread 0 db := by
  simp only [postMade, Bool.decide_and, Bool.and_eq_true, decide_eq_true_eq,
    Option.any_eq_true] at made
  rcases made with ⟨number, producer, witness, account, funds, made⟩
  rcases made with ⟨supply, virtualSupply, ids, post⟩
  have sum : ∀ amount : Int, 0 ≤ amount ∧ amount ≤ 10 ^ 15 →
      Modest 0 amount := by
    rintro amount ⟨low, high⟩
    exact ⟨low, by simpa [commentEmissionRate] using high⟩
  refine ⟨⟨number, producer, witness, ?_, ?_, sum _ supply,
    sum _ virtualSupply⟩, ?_, ?_, fun none => absurd none (by decide)⟩
  · rcases account with ⟨account, found, owner, active, balance⟩
    exact ⟨account, found, owner, active, sum _ balance⟩
  · rcases funds with ⟨one, all⟩
    rcases List.map_eq_singleton_iff.1 one with ⟨⟨id, fund⟩, single, rfl⟩
    rw [single] at all
    simp only [List.all_cons, List.all_nil, Bool.and_true, Bool.and_eq_true,
      decide_eq_true_eq] at all
    exact ⟨fund, single, all.1, sum _ all.2⟩
  · exact post
  · intro id comment found
    have listed : (id, comment) ∈ db.comments.entries :=
      ExtTreeMap.mem_toList_iff_getElem?_eq_some.2 found
    have member := List.mem_map_of_mem (f := Prod.fst) listed
    rw [ids] at member
    exact .inl (List.mem_singleton.1 member)

end Database

/-- The operations on comments. -/
def IsCommentEvent : Event → Prop
  | .operation (.comment _) => True
  | .operation (.encryptedContent _) => True
  | .operation (.deleteComment _) => True
  | _ => False

/-- The post can be answered as often as wanted. -/
theorem thread_reached
    {count : Nat}
    (bound : count ≤ 2 ^ 32) :
    ∃ db, RunState plainExternal (fun _ event => IsCommentEvent event) none
      db ∧ db.Thread count := by
  induction count with
  | zero =>
      have ran : (initGenesis.step plainExternal
          (.operation (samplePost initMinerName))).bind (fun db =>
            require db.postMade "") = .ok () := by
        decide +kernel
      rcases (bind_eq_ok_iff _ _ _).1 ran with ⟨db, posted, made⟩
      refine ⟨db, .step (.operation (samplePost initMinerName)) .genesis
        (.operation _ none) trivial posted, ?_⟩
      exact Database.thread_of_postMade (require_eq_ok_iff.1 made)
  | succ count induction =>
      rcases induction (Nat.le_of_succ_le bound) with ⟨db, run, thread⟩
      rcases thread.step bound with ⟨after, stepped, next⟩
      exact ⟨after, .step (.operation (.encryptedContent _)) run
        (.operation _ none) trivial stepped, next⟩

/-- A post which was answered often enough counts no replies. -/
theorem reply_counter_runs_over :
    ¬ ∀ ext db,
      RunState ext (fun _ event => IsCommentEvent event) none db →
        db.CommentTree := by
  intro all
  rcases thread_reached (Nat.le_refl _) with ⟨db, run, thread⟩
  have tree := all plainExternal db run
  rcases thread.post with ⟨post, found, author, link, -, -, -, -, children⟩
  rcases thread.reply (by decide) with ⟨id, comment, stored, parent, above⟩
  have below : Relation.TransGen db.IsReply id 0 := by
    refine .single ⟨comment, post, stored, ?_, ?_⟩
    · rw [parent]
      decide
    · rw [parent, above]
      exact Database.findComment_post found author link
  have finite : {other | Relation.TransGen db.IsReply other 0}.Finite := by
    refine (Set.finite_lt_nat db.comments.nextId).subset ?_
    intro other path
    rcases Relation.TransGen.head'_iff.1 path with ⟨_, first, -⟩
    rcases first with ⟨row, _, there, -⟩
    by_contra beyond
    have none := db.comments.fresh other (Nat.le_of_not_lt beyond)
    rw [Table.find?, none] at there
    cases there
  have some := (Set.ncard_pos finite).2 ⟨id, below⟩
  rw [← tree.children 0 post found, children] at some
  simp at some

end BMChain.State
