import Mathlib.Data.List.Induction
import Mathlib.Data.Prod.Lex
import Mathlib.Data.String.Basic
import BMChain.App.Impacted
import BMChain.Foundation.PartialEffect
import BMChain.Foundation.RangeLookup
import BMChain.Protocol.AuthoritySearch

/-!
# The account history

The account history plugin writes an entry for each account which an operation
impacts and which is tracked.  The entries of an account are numbered; the next
number is one more than that of the first entry in an index which goes down.
What a handler throws is caught by the chain, which keeps what was written.
-/

namespace BMChain.Plugins

open BMChain.Foundation BMChain.Protocol BMChain.State BMChain.App

/-! ## The plugin -/

/-- `operation_notification`, with the head block time. -/
structure OperationNotification where
  trxId : Nat
  block : Nat
  trxInBlock : Nat
  opInTrx : Nat
  virtualOp : Nat
  op : Operation
  headBlockTime : Time

/-- `operation_object`. -/
structure OperationObject where
  trxId : Nat
  block : Nat
  trxInBlock : Nat
  opInTrx : Nat
  virtualOp : Nat
  timestamp : Time
  serializedOp : Text
  deriving DecidableEq

/-- `account_history_object`. -/
structure AccountHistoryObject where
  account : AccountName
  sequence : Nat
  op : Nat
  deriving DecidableEq

/-- The objects which the plugin makes. -/
structure HistoryPlugin where
  operations : Table OperationObject := .empty
  entries : Table AccountHistoryObject := .empty

/-- The operation object of a notification, with the packed operation. -/
def objectOf (pack : Operation → Text) (note : OperationNotification) :
    OperationObject where
  trxId := note.trxId
  block := note.block
  trxInBlock := note.trxInBlock
  opInTrx := note.opInTrx
  virtualOp := note.virtualOp
  timestamp := note.headBlockTime
  serializedOp := pack note.op

/-- The order of the index `by_account`: accounts go up and sequences down. -/
def historyBefore (left right : AccountHistoryObject) : Bool :=
  left.account < right.account ∨
    left.account = right.account ∧ right.sequence < left.sequence

namespace HistoryPlugin

/-- `lower_bound` in the index `by_account`. -/
def lowerBound (plugin : HistoryPlugin) (account : AccountName)
    (sequence : Nat) : Option AccountHistoryObject :=
  firstBy historyBefore
    ((plugin.entries.entries.map Prod.snd).filter fun row =>
      ¬ (row.account < account ∨
        row.account = account ∧ sequence < row.sequence))

/-- The number of the next entry of an account, in `uint32_t`. -/
def nextSequence (plugin : HistoryPlugin) (item : AccountName) : Nat :=
  match plugin.lowerBound item (2 ^ 32 - 1) with
  | some row => if row.account = item then increment 32 row.sequence else 0
  | none => 0

/-- The operation object of a notification is made. -/
def createOperation (pack : Operation → Text) (note : OperationNotification) :
    Effect Fault HistoryPlugin Nat := do
  let plugin ← get
  set { plugin with
    operations := plugin.operations.emplace (objectOf pack note) }
  pure plugin.operations.nextId

/-- An entry is made, with the account and the sequence as unique key. -/
def createEntry (item : AccountName) (op : Nat) :
    Effect Fault HistoryPlugin Unit := do
  let plugin ← get
  let row : AccountHistoryObject := ⟨item, plugin.nextSequence item, op⟩
  let entries ← Effect.lift
    (createRow plugin.entries
      (fun other => (other.account, other.sequence) = (row.account, row.sequence))
      row)
  set { plugin with entries := entries }

/-- `operation_visitor`; the operation object is made for the first account. -/
def visit (pack : Operation → Text) (note : OperationNotification)
    (newObj : Option Nat) (item : AccountName) :
    Effect Fault HistoryPlugin (Option Nat) := do
  let op ←
    match newObj with
    | some op => pure op
    | none => createOperation pack note
  createEntry item op
  pure (some op)

/-- `on_operation`. -/
def onOperation (options : HistoryOptions) (pack : Operation → Text)
    (note : OperationNotification) :
    Effect Fault HistoryPlugin (Option Nat) :=
  (flatSet (operationGetImpactedAccounts note.op)).foldlM
    (fun newObj item =>
      if options.tracks item && options.passes note.op then
        visit pack note newObj item
      else pure newObj)
    none

/-- The plugin after notifications; exceptions are caught by the chain. -/
def afterAll (options : HistoryOptions) (pack : Operation → Text)
    (notices : List OperationNotification) : HistoryPlugin :=
  notices.foldl
    (fun plugin note => (Effect.perform (onOperation options pack note) plugin).2)
    {}

end HistoryPlugin

/-! ## The complete history -/

/--
An entry is due to an account for a notification: the operation impacts it and
passes the filter, and no range is configured or the account lies in one.
-/
def due (options : HistoryOptions) (note : OperationNotification)
    (account : AccountName) : Bool :=
  decide (account ∈ operationGetImpactedAccounts note.op) &&
    options.passes note.op &&
      (options.trackedAccounts.isEmpty ||
        options.trackedAccounts.any fun range =>
          range.1 ≤ account ∧ account ≤ range.2)

/-- The notifications for which some entry is due. -/
def recorded (options : HistoryOptions) (notices : List OperationNotification) :
    List OperationNotification :=
  notices.filter fun note =>
    (operationGetImpactedAccounts note.op).any (due options note)

/--
The operation objects of the entries of an account, in the order of the
notifications: the objects are numbered as the recorded notifications are.
-/
def log (options : HistoryOptions) (notices : List OperationNotification)
    (account : AccountName) : List Nat :=
  ((recorded options notices).zipIdx.filter fun entry =>
    due options entry.1 account).map Prod.snd

/--
There is one operation object for each recorded notification, and the entries
of every account have the numbers from zero on, once each, and refer to the
objects of the notifications for which they are due.
-/
structure Complete (options : HistoryOptions) (pack : Operation → Text)
    (notices : List OperationNotification) (plugin : HistoryPlugin) :
    Prop where
  objects : ∀ id, plugin.operations.find? id =
    (recorded options notices)[id]?.map (objectOf pack)
  entries : ∀ account sequence op,
    plugin.entries.Holds ⟨account, sequence, op⟩ ↔
      (log options notices account)[sequence]? = some op
  single : plugin.entries.Distinct fun row => (row.account, row.sequence)

/-! ## The lookup of the ranges -/

theorem tracks_eq
    (options : HistoryOptions)
    (item : AccountName) :
    options.tracks item =
      (options.trackedAccounts.isEmpty ||
        (stepBack options.trackedAccounts item).any fun range =>
          range.1 ≤ item ∧ item ≤ range.2) := by
  -- The two orders on names have the same tests.
  have same : (fun range : AccountName × AccountName =>
        decide (range.1 < item)) =
      fun range => @decide _ (String.instLinearOrder.toDecidableLT range.1 item) :=
    funext fun _ => decide_eq_decide.2 Iff.rfl
  unfold HistoryOptions.tracks stepBack
  rw [← same]
  dsimp only
  cases options.trackedAccounts.dropWhile (fun range => range.1 < item) with
  | nil => rfl
  | cons range rest => congr 2

section Options

variable {options : HistoryOptions} {note : OperationNotification}
    {account : AccountName}

theorem tracks_iff
    (sorted : ByLowerEnd options.trackedAccounts)
    (apart : ApartRanges options.trackedAccounts) :
    options.tracks account = true ↔
      options.trackedAccounts = [] ∨
        (∃ range ∈ options.trackedAccounts, InRange range account) ∧
          ¬ Hidden options.trackedAccounts account := by
  rw [tracks_eq, Bool.or_eq_true, List.isEmpty_iff,
    ← stepBack_holds_iff sorted apart, Option.any_eq_true]
  simp only [decide_eq_true_eq, InRange]

theorem due_iff :
    due options note account = true ↔
      account ∈ operationGetImpactedAccounts note.op ∧
        options.passes note.op = true ∧
          (options.trackedAccounts = [] ∨
            ∃ range ∈ options.trackedAccounts, InRange range account) := by
  unfold due
  rw [Bool.and_eq_true, Bool.and_eq_true, decide_eq_true_iff, Bool.or_eq_true,
    List.isEmpty_iff, List.any_eq_true, and_assoc]
  simp only [decide_eq_true_eq, InRange]

theorem not_hidden_of_nil
    (none : options.trackedAccounts = []) :
    ¬ Hidden options.trackedAccounts account := by
  rw [none]
  rintro ⟨range, member, -⟩
  exact absurd member List.not_mem_nil

/-- The plugin visits the impacted accounts to which an entry is due. -/
theorem tracks_and_passes_eq_due
    (sorted : ByLowerEnd options.trackedAccounts)
    (apart : ApartRanges options.trackedAccounts)
    (impacted : account ∈ operationGetImpactedAccounts note.op)
    (shown : due options note account = true →
      ¬ Hidden options.trackedAccounts account) :
    (options.tracks account && options.passes note.op) =
      due options note account := by
  rw [Bool.eq_iff_iff, Bool.and_eq_true, tracks_iff sorted apart, due_iff]
  constructor
  · rintro ⟨none | ⟨lies, -⟩, passes⟩
    · exact ⟨impacted, passes, .inl none⟩
    · exact ⟨impacted, passes, .inr lies⟩
  · rintro ⟨-, passes, none | lies⟩
    · exact ⟨.inl none, passes⟩
    · have wanted : due options note account = true :=
        due_iff.2 ⟨impacted, passes, .inr lies⟩
      exact ⟨.inr ⟨lies, shown wanted⟩, passes⟩

end Options

/-! ## The log of an account -/

section Log

variable {options : HistoryOptions} {notices : List OperationNotification}
    {note : OperationNotification} {account : AccountName}

theorem recorded_snoc_of
    (wanted : ∃ account, due options note account = true) :
    recorded options (notices ++ [note]) = recorded options notices ++ [note] := by
  have passed : ((operationGetImpactedAccounts note.op).any
      (due options note)) = true := by
    rcases wanted with ⟨account, wanted⟩
    exact List.any_eq_true.2 ⟨account, (due_iff.1 wanted).1, wanted⟩
  simp only [recorded, List.filter_append, List.filter_singleton, passed,
    cond_true]

theorem recorded_snoc_of_not
    (unwanted : ¬ ∃ account, due options note account = true) :
    recorded options (notices ++ [note]) = recorded options notices := by
  have failed : ¬ ((operationGetImpactedAccounts note.op).any
      (due options note)) = true := by
    intro passed
    rcases List.any_eq_true.1 passed with ⟨account, -, wanted⟩
    exact unwanted ⟨account, wanted⟩
  simp only [recorded, List.filter_append, List.filter_singleton, failed,
    cond_false, List.append_nil]

theorem log_snoc_of
    (wanted : due options note account = true) :
    log options (notices ++ [note]) account =
      log options notices account ++ [(recorded options notices).length] := by
  unfold log
  rw [recorded_snoc_of ⟨account, wanted⟩, List.zipIdx_append, List.filter_append,
    List.map_append]
  simp [wanted]

theorem log_snoc_of_not
    (unwanted : ¬ due options note account = true) :
    log options (notices ++ [note]) account = log options notices account := by
  unfold log
  by_cases some : ∃ other, due options note other = true
  · rw [recorded_snoc_of some, List.zipIdx_append, List.filter_append,
      List.map_append]
    simp [unwanted]
  · rw [recorded_snoc_of_not some]

theorem length_log
    (notices : List OperationNotification)
    (account : AccountName) :
    (log options notices account).length =
      notices.countP fun note => due options note account := by
  induction notices using List.reverseRecOn with
  | nil => rfl
  | append_singleton notices note induction =>
      rw [List.countP_append, ← induction]
      by_cases wanted : due options note account = true
      · rw [log_snoc_of wanted, List.length_append, List.countP_singleton,
          if_pos wanted]
        rfl
      · rw [log_snoc_of_not wanted, List.countP_singleton, if_neg wanted,
          Nat.add_zero]

end Log

/-! ## One entry more -/

/-- The entries of every account have the numbers and objects of a log. -/
structure Records (logs : AccountName → List Nat)
    (table : Table AccountHistoryObject) : Prop where
  entries : ∀ account sequence op, table.Holds ⟨account, sequence, op⟩ ↔
    (logs account)[sequence]? = some op
  single : table.Distinct fun row => (row.account, row.sequence)

section Entries

variable {logs : AccountName → List Nat} {plugin : HistoryPlugin}
    {item : AccountName}

/-- The key by which the index `by_account` is sorted. -/
def historyKey (row : AccountHistoryObject) : AccountName ×ₗ ℕᵒᵈ :=
  toLex (row.account, OrderDual.toDual row.sequence)

theorem historyKey_le_of_before
    (first second : AccountHistoryObject)
    (before : historyBefore first second = true) :
    historyKey first ≤ historyKey second := by
  unfold historyBefore at before
  rw [decide_eq_true_iff] at before
  refine Prod.Lex.toLex_le_toLex.2 (before.imp id fun same => ?_)
  exact ⟨same.1, OrderDual.toDual_le_toDual.2 (Nat.le_of_lt same.2)⟩

theorem historyKey_le_of_not_before
    (first second : AccountHistoryObject)
    (after : historyBefore first second = false) :
    historyKey second ≤ historyKey first := by
  unfold historyBefore at after
  rw [decide_eq_false_iff_not, not_or, not_and] at after
  apply Prod.Lex.toLex_le_toLex.2
  rcases lt_trichotomy second.account first.account with less | same | more
  · exact .inl less
  · refine .inr ⟨same, OrderDual.toDual_le_toDual.2 ?_⟩
    exact Nat.le_of_not_lt (after.2 same.symm)
  · exact absurd more after.1

/-- The rows in which the lookup takes the first one. -/
def rowsFrom (plugin : HistoryPlugin) (item : AccountName) :
    List AccountHistoryObject :=
  (plugin.entries.entries.map Prod.snd).filter fun row =>
    ¬ (row.account < item ∨ row.account = item ∧ 2 ^ 32 - 1 < row.sequence)

theorem held_of_mem_rowsFrom
    (records : Records logs plugin.entries)
    {row : AccountHistoryObject}
    (member : row ∈ rowsFrom plugin item) :
    ¬ row.account < item ∧
      (logs row.account)[row.sequence]? = some row.op := by
  rw [rowsFrom, List.mem_filter, decide_eq_true_iff, not_or, List.mem_map]
    at member
  rcases member with ⟨⟨⟨id, _⟩, there, rfl⟩, notBefore, -⟩
  refine ⟨notBefore, (records.entries _ _ _).1 ?_⟩
  exact ⟨id, Table.mem_entries_iff.1 there⟩

theorem mem_rowsFrom_of_held
    (records : Records logs plugin.entries)
    (few : (logs item).length < 2 ^ 32)
    {sequence op : Nat}
    (held : (logs item)[sequence]? = some op) :
    ⟨item, sequence, op⟩ ∈ rowsFrom plugin item := by
  rcases (records.entries item sequence op).2 held with ⟨id, found⟩
  have bound := (List.getElem?_eq_some_iff.1 held).1
  rw [rowsFrom, List.mem_filter, decide_eq_true_iff, List.mem_map]
  refine ⟨⟨(id, _), Table.mem_entries_iff.2 found, rfl⟩, ?_⟩
  rintro (less | ⟨-, more⟩)
  · exact lt_irrefl _ less
  · dsimp only at more
    omega

/-- The entry which the lookup finds is the one with the last number. -/
theorem nextSequence_eq
    (records : Records logs plugin.entries)
    (few : (logs item).length < 2 ^ 32) :
    plugin.nextSequence item = (logs item).length := by
  have own : ∀ sequence op, (logs item)[sequence]? = some op → _ :=
    fun sequence op => mem_rowsFrom_of_held records few
  unfold HistoryPlugin.nextSequence
  change (match firstBy historyBefore (rowsFrom plugin item) with
    | some row => if row.account = item then increment 32 row.sequence else 0
    | none => 0) = _
  by_cases none : logs item = []
  case pos =>
    rw [none, List.length_nil]
    split
    · next row first =>
        refine if_neg fun same => ?_
        have held := (held_of_mem_rowsFrom records (mem_of_firstBy first)).2
        rw [same, none] at held
        cases held
    · rfl
  case neg =>
    have positive := List.length_pos_iff.2 none
    have last := List.getElem?_eq_getElem
      (show (logs item).length - 1 < (logs item).length by omega)
    split
    · next row first =>
        have least := firstBy_least historyKey historyKey_le_of_before
          historyKey_le_of_not_before first _ (own _ _ last)
        rcases held_of_mem_rowsFrom records (mem_of_firstBy first) with
          ⟨notBefore, held⟩
        rcases Prod.Lex.toLex_le_toLex.1 least with less | ⟨same, down⟩
        · exact absurd less notBefore
        have same : row.account = item := same
        have atLeast : (logs item).length - 1 ≤ row.sequence :=
          OrderDual.toDual_le_toDual.1 down
        rw [same] at held
        have bound := (List.getElem?_eq_some_iff.1 held).1
        rw [if_pos same]
        unfold increment
        omega
    · next first =>
        have member := own _ _ last
        rw [eq_nil_of_firstBy first] at member
        exact absurd member List.not_mem_nil

theorem getElem?_snoc_iff
    {objects : List Nat}
    {op other sequence : Nat} :
    (objects ++ [op])[sequence]? = some other ↔
      objects[sequence]? = some other ∨
        objects.length = sequence ∧ op = other := by
  rcases Nat.lt_trichotomy sequence objects.length with less | same | more
  · rw [List.getElem?_append_left less]
    exact (or_iff_left fun last => Nat.ne_of_gt less last.1).symm
  · subst same
    rw [List.getElem?_concat_length, List.getElem?_eq_none (Nat.le_refl _),
      Option.some.injEq]
    simp
  · rw [List.getElem?_eq_none (by simp; omega),
      List.getElem?_eq_none (Nat.le_of_lt more)]
    simp [Nat.ne_of_lt more]

/-- The next number of an account is free. -/
theorem Records.free
    {table : Table AccountHistoryObject}
    (records : Records logs table)
    (item : AccountName) :
    table.All fun row =>
      (row.account, row.sequence) ≠ (item, (logs item).length) := by
  intro id row found same
  have held := (records.entries row.account row.sequence row.op).1 ⟨id, found⟩
  rw [Prod.mk.injEq] at same
  rw [same.1, same.2, List.getElem?_eq_none (Nat.le_refl _)] at held
  cases held

/-- The next number is written into the log. -/
theorem Records.emplace
    {table : Table AccountHistoryObject}
    (records : Records logs table)
    (item : AccountName)
    (op : Nat) :
    Records (Function.update logs item (logs item ++ [op]))
      (table.emplace ⟨item, (logs item).length, op⟩) where
  entries account sequence other := by
    rw [Table.holds_emplace_iff, records.entries,
      AccountHistoryObject.mk.injEq]
    by_cases same : item = account
    · subst same
      rw [Function.update_self, getElem?_snoc_iff]
      simp only [true_and]
    · rw [Function.update_of_ne (Ne.symm same)]
      exact or_iff_left fun equal => same equal.1
  single := records.single.emplace (records.free item)

/-- An entry is made with the next number. -/
theorem perform_createEntry
    (records : Records logs plugin.entries)
    (few : (logs item).length < 2 ^ 32)
    (op : Nat) :
    Effect.perform (HistoryPlugin.createEntry item op) plugin =
      (.ok (), { plugin with
        entries := plugin.entries.emplace ⟨item, (logs item).length, op⟩ }) := by
  have free : (plugin.entries.findBy fun other =>
      (other.account, other.sequence) = (item, (logs item).length)).isNone := by
    rw [Option.isNone_iff_eq_none, Option.eq_none_iff_forall_ne_some]
    rintro ⟨id, row⟩ found
    exact records.free item id row (Table.find?_of_findBy found)
      (Table.key_of_findBy found)
  unfold HistoryPlugin.createEntry
  rw [Effect.perform_bind_ok (Effect.perform_get plugin)]
  dsimp only
  rw [nextSequence_eq records few, createRow, require_pos free]
  rfl

/-- The accounts of one notification get an entry each, with one object. -/
theorem perform_visits
    {pack : Operation → Text}
    {note : OperationNotification}
    {items : List AccountName}
    (records : Records logs plugin.entries)
    (different : items.Nodup)
    (few : ∀ item ∈ items, (logs item).length < 2 ^ 32)
    (op : Nat) :
    ∃ after,
      Effect.perform (items.foldlM (HistoryPlugin.visit pack note) (some op))
          plugin = (.ok (some op), after) ∧
        after.operations = plugin.operations ∧
          Records
            (fun account => if account ∈ items then logs account ++ [op]
              else logs account) after.entries := by
  induction items generalizing logs plugin with
  | nil =>
      refine ⟨plugin, rfl, rfl, ?_⟩
      simpa only [List.not_mem_nil, if_false] using records
  | cons first rest induction =>
      rw [List.nodup_cons] at different
      rw [List.forall_mem_cons] at few
      have made := perform_createEntry records few.1 op
      have visited : Effect.perform
          (HistoryPlugin.visit pack note (some op) first) plugin =
            (.ok (some op), { plugin with
              entries :=
                plugin.entries.emplace ⟨first, (logs first).length, op⟩ }) := by
        unfold HistoryPlugin.visit
        rw [Effect.perform_bind_ok (Effect.perform_pure op plugin),
          Effect.perform_bind_ok made]
        rfl
      have others : ∀ item ∈ rest, (Function.update logs first
          (logs first ++ [op]) item).length < 2 ^ 32 := by
        intro item member
        have other : item ≠ first := by
          rintro rfl
          exact different.1 member
        rw [Function.update_of_ne other]
        exact few.2 item member
      rcases @induction _
        { plugin with
          entries := plugin.entries.emplace ⟨first, (logs first).length, op⟩ }
        (records.emplace first op) different.2 others with
        ⟨after, ran, same, kept⟩
      refine ⟨after, ?_, same, ?_⟩
      · rw [List.foldlM_cons, Effect.perform_bind_ok visited]
        exact ran
      · convert kept using 2 with account
        by_cases head : account = first
        · subst head
          rw [if_pos List.mem_cons_self, if_neg different.1,
            Function.update_self]
        · simp only [List.mem_cons, head, false_or, Function.update_of_ne head]

end Entries

/-! ## One notification more -/

theorem sorted_insertName
    {name : AccountName}
    {set : List AccountName}
    (sorted : set.Pairwise (· < ·)) :
    (insertName name set).Pairwise (· < ·) := by
  induction set with
  | nil => exact List.pairwise_singleton _ name
  | cons first rest induction =>
      rcases List.pairwise_cons.1 sorted with ⟨least, others⟩
      unfold insertName
      split
      case isTrue => exact sorted
      case isFalse different =>
        split
        case isTrue less =>
          refine List.pairwise_cons.2 ⟨?_, sorted⟩
          rw [List.forall_mem_cons]
          exact ⟨less, fun other member => lt_trans less (least other member)⟩
        case isFalse more =>
          refine List.pairwise_cons.2 ⟨?_, induction others⟩
          intro other member
          rcases (mem_insertName _ _ _).1 member with rfl | member
          · exact lt_of_le_of_ne (not_lt.1 more) (Ne.symm different)
          · exact least other member

theorem nodup_flatSet
    (names : List AccountName) :
    (flatSet names).Nodup := by
  have sorted : ∀ names set : List AccountName, set.Pairwise (· < ·) →
      (names.foldl (fun set name => insertName name set) set).Pairwise
        (· < ·) := by
    intro names
    induction names with
    | nil => exact fun set sorted => sorted
    | cons name names induction =>
        exact fun set sorted => induction _ (sorted_insertName sorted)
  exact (sorted names [] List.Pairwise.nil).imp fun less => ne_of_lt less

section Run

variable {options : HistoryOptions} {pack : Operation → Text}
    {notices : List OperationNotification} {note : OperationNotification}
    {plugin : HistoryPlugin}

/-- The accounts to which an entry is due, in their order. -/
def dueAccounts (options : HistoryOptions) (note : OperationNotification) :
    List AccountName :=
  (flatSet (operationGetImpactedAccounts note.op)).filter (due options note)

theorem mem_dueAccounts
    {account : AccountName} :
    account ∈ dueAccounts options note ↔ due options note account = true := by
  rw [dueAccounts, List.mem_filter, mem_flatSet, and_iff_right_iff_imp]
  exact fun wanted => (due_iff.1 wanted).1

/-- The complete history, with the number of the next operation object. -/
structure Kept (options : HistoryOptions) (pack : Operation → Text)
    (notices : List OperationNotification) (plugin : HistoryPlugin) : Prop
    extends Complete options pack notices plugin where
  nextId : plugin.operations.nextId = (recorded options notices).length

/-- Only the accounts to which an entry is due are visited. -/
theorem onOperation_eq
    (sorted : ByLowerEnd options.trackedAccounts)
    (apart : ApartRanges options.trackedAccounts)
    (shown : ∀ account, due options note account = true →
      ¬ Hidden options.trackedAccounts account) :
    HistoryPlugin.onOperation options pack note =
      (dueAccounts options note).foldlM (HistoryPlugin.visit pack note)
        none := by
  unfold HistoryPlugin.onOperation dueAccounts
  rw [List.foldlM_filter]
  refine Effect.foldlM_congr ?_ none
  intro item member newObj
  rw [tracks_and_passes_eq_due sorted apart ((mem_flatSet _ _).1 member)
    (shown item)]

theorem perform_visits_none
    (first : AccountName)
    (rest : List AccountName) :
    Effect.perform
        ((first :: rest).foldlM (HistoryPlugin.visit pack note) none) plugin =
      Effect.perform
        ((first :: rest).foldlM (HistoryPlugin.visit pack note)
          (some plugin.operations.nextId))
        { plugin with
          operations := plugin.operations.emplace (objectOf pack note) } := by
  have created : Effect.perform (HistoryPlugin.createOperation pack note)
      plugin = (.ok plugin.operations.nextId, { plugin with
        operations := plugin.operations.emplace (objectOf pack note) }) :=
    rfl
  have split : HistoryPlugin.visit pack note none first =
      HistoryPlugin.createOperation pack note >>= fun op =>
        HistoryPlugin.visit pack note (some op) first := by
    simp only [HistoryPlugin.visit, pure_bind]
  rw [List.foldlM_cons, List.foldlM_cons, split, bind_assoc,
    Effect.perform_bind_ok created]

/-- A notification is added to a complete history. -/
theorem Kept.step
    (kept : Kept options pack notices plugin)
    (sorted : ByLowerEnd options.trackedAccounts)
    (apart : ApartRanges options.trackedAccounts)
    (shown : ∀ account, due options note account = true →
      ¬ Hidden options.trackedAccounts account)
    (few : ∀ account, due options note account = true →
      (log options notices account).length < 2 ^ 32) :
    Kept options pack (notices ++ [note])
      (Effect.perform (HistoryPlugin.onOperation options pack note)
        plugin).2 := by
  rw [onOperation_eq sorted apart shown]
  have different : (dueAccounts options note).Nodup :=
    (nodup_flatSet _).filter _
  have fewHere : ∀ account ∈ dueAccounts options note,
      (log options notices account).length < 2 ^ 32 :=
    fun account member => few account (mem_dueAccounts.1 member)
  have records : Records (log options notices) plugin.entries :=
    ⟨kept.entries, kept.single⟩
  cases accounts : dueAccounts options note with
  | nil =>
      have unwanted : ∀ account, ¬ due options note account = true := by
        intro account wanted
        rw [← mem_dueAccounts, accounts] at wanted
        exact absurd wanted List.not_mem_nil
      have same := @recorded_snoc_of_not options notices note
        fun wanted => unwanted _ wanted.choose_spec
      refine ⟨⟨?_, ?_, kept.single⟩, ?_⟩
      · rw [same]
        exact kept.objects
      · intro account sequence op
        rw [log_snoc_of_not (unwanted account)]
        exact kept.entries account sequence op
      · rw [same]
        exact kept.nextId
  | cons first rest =>
      have wanted : ∃ account, due options note account = true := by
        refine ⟨first, mem_dueAccounts.1 ?_⟩
        rw [accounts]
        exact List.mem_cons_self
      rw [perform_visits_none, ← accounts]
      rcases @perform_visits _
        { plugin with
          operations := plugin.operations.emplace (objectOf pack note) }
        pack note (dueAccounts options note) records different fewHere
        plugin.operations.nextId with ⟨after, ran, same, written⟩
      rw [ran]
      have logs : (fun account =>
            if account ∈ dueAccounts options note then
              log options notices account ++ [plugin.operations.nextId]
            else log options notices account) =
          log options (notices ++ [note]) := by
        funext account
        by_cases due : due options note account = true
        · rw [if_pos (mem_dueAccounts.2 due), log_snoc_of due, kept.nextId]
        · rw [if_neg fun member => due (mem_dueAccounts.1 member),
            log_snoc_of_not due]
      rw [logs] at written
      refine ⟨⟨?_, written.entries, written.single⟩, ?_⟩
      · intro id
        rw [same, Table.find?_emplace, recorded_snoc_of wanted, kept.nextId]
        by_cases last : (recorded options notices).length = id
        · subst last
          rw [if_pos rfl, List.getElem?_concat_length]
          rfl
        · rw [if_neg last, kept.objects]
          congr 1
          rcases Nat.lt_or_gt_of_ne last with more | less
          · rw [List.getElem?_eq_none (Nat.le_of_lt more),
              List.getElem?_eq_none (by simp; omega)]
          · rw [List.getElem?_append_left less]
      · rw [same, recorded_snoc_of wanted, List.length_append, ← kept.nextId]
        rfl

/-- The history stays complete while no account is hidden or has too many. -/
theorem kept_afterAll
    (sorted : ByLowerEnd options.trackedAccounts)
    (apart : ApartRanges options.trackedAccounts)
    (shown : ∀ note ∈ notices, ∀ account, due options note account = true →
      ¬ Hidden options.trackedAccounts account)
    (few : ∀ account,
      (notices.countP fun note => due options note account) ≤ 2 ^ 32) :
    Kept options pack notices (HistoryPlugin.afterAll options pack notices) := by
  induction notices using List.reverseRecOn with
  | nil =>
      refine ⟨⟨?_, ?_, Table.Distinct.empty⟩, rfl⟩
      · intro id
        rfl
      · intro account sequence op
        refine iff_of_false ?_ ?_
        · rintro ⟨id, found⟩
          cases found
        · exact fun held => nomatch held
  | append_singleton notices note induction =>
      have before : ∀ account,
          (notices.countP fun note => due options note account) ≤ 2 ^ 32 := by
        intro account
        have all := few account
        rw [List.countP_append] at all
        omega
      have kept := induction
        (fun note member => shown note (List.mem_append_left _ member)) before
      have last := shown note (List.mem_append_right _ (List.mem_singleton_self _))
      unfold HistoryPlugin.afterAll
      rw [List.foldl_append]
      refine kept.step sorted apart last ?_
      intro account wanted
      have all := few account
      rw [List.countP_append, List.countP_singleton, if_pos wanted] at all
      rw [length_log]
      omega

/-- The entries are those of tracked accounts, with numbers of 32 bits. -/
def Tame (options : HistoryOptions) (plugin : HistoryPlugin) : Prop :=
  plugin.entries.All fun row =>
    options.tracks row.account = true ∧ row.sequence < 2 ^ 32

theorem nextSequence_lt
    (plugin : HistoryPlugin)
    (item : AccountName) :
    plugin.nextSequence item < 2 ^ 32 := by
  unfold HistoryPlugin.nextSequence
  split
  · split
    · exact Nat.mod_lt _ (by decide)
    · decide
  · decide

theorem leaves_createEntry
    {item : AccountName}
    (tame : Tame options plugin)
    (tracked : options.tracks item = true)
    (op : Nat) :
    Effect.Leaves (Tame options) (fun _ _ => True)
      (Effect.perform (HistoryPlugin.createEntry item op) plugin) := by
  unfold HistoryPlugin.createEntry
  rw [Effect.perform_bind_ok (Effect.perform_get plugin), Effect.perform_bind,
    Effect.perform_lift]
  dsimp only
  cases created : createRow plugin.entries _
      (⟨item, plugin.nextSequence item, op⟩ : AccountHistoryObject) with
  | error fault => exact .error tame
  | ok entries =>
      simp only [createRow, bind_eq_ok_iff, pure_eq_ok_iff] at created
      rcases created with ⟨_, -, rfl⟩
      refine .ok (Table.All.emplace tame ?_) trivial
      exact ⟨tracked, nextSequence_lt plugin item⟩

theorem leaves_visit
    {item : AccountName}
    (tame : Tame options plugin)
    (tracked : options.tracks item = true)
    (newObj : Option Nat) :
    Effect.Leaves (Tame options) (fun _ _ => True)
      (Effect.perform (HistoryPlugin.visit pack note newObj item) plugin) := by
  have entry : ∀ op plugin, Tame options plugin →
      Effect.Leaves (Tame options) (fun _ _ => True)
        (Effect.perform
          (HistoryPlugin.createEntry item op >>= fun _ => pure (some op))
          plugin) := fun op plugin tame =>
    (leaves_createEntry tame tracked op).bind fun _ _ tame _ => .ok tame trivial
  unfold HistoryPlugin.visit
  cases newObj with
  | none =>
      have created : Effect.Leaves (Tame options) (fun _ _ => True)
          (Effect.perform (HistoryPlugin.createOperation pack note) plugin) :=
        .ok tame trivial
      exact created.bind fun op plugin tame _ => entry op plugin tame
  | some op => exact entry op plugin tame

theorem tame_onOperation
    (tame : Tame options plugin) :
    Tame options
      (Effect.perform (HistoryPlugin.onOperation options pack note)
        plugin).2 := by
  refine (Effect.Leaves.foldlM tame ?_).1
  intro item _ newObj plugin tame
  split
  case isTrue passed =>
    rw [Bool.and_eq_true] at passed
    exact leaves_visit tame passed.1 newObj
  case isFalse => exact .ok tame trivial

theorem tame_afterAll
    (notices : List OperationNotification) :
    Tame options (HistoryPlugin.afterAll options pack notices) := by
  induction notices using List.reverseRecOn with
  | nil => exact Table.All.empty
  | append_singleton notices note induction =>
      unfold HistoryPlugin.afterAll
      rw [List.foldl_append]
      exact tame_onOperation induction

/-- A complete history has an entry for each of the numbers. -/
theorem Complete.held
    (complete : Complete options pack notices plugin)
    {account : AccountName}
    {sequence : Nat}
    (counted : sequence < notices.countP fun note => due options note account) :
    ∃ op, plugin.entries.Holds ⟨account, sequence, op⟩ := by
  rw [← length_log] at counted
  exact ⟨_, (complete.entries _ _ _).2 (List.getElem?_eq_getElem counted)⟩

theorem not_complete_of_hidden
    (sorted : ByLowerEnd options.trackedAccounts)
    (apart : ApartRanges options.trackedAccounts)
    (member : note ∈ notices)
    {account : AccountName}
    (wanted : due options note account = true)
    (hidden : Hidden options.trackedAccounts account) :
    ¬ Complete options pack notices
      (HistoryPlugin.afterAll options pack notices) := by
  intro complete
  have counted : 0 < notices.countP fun note => due options note account :=
    List.countP_pos_iff.2 ⟨note, member, wanted⟩
  rcases complete.held counted with ⟨op, id, found⟩
  have tracked := (tame_afterAll notices id _ found).1
  rcases (tracks_iff sorted apart).1 tracked with none | ⟨-, shown⟩
  · exact not_hidden_of_nil none hidden
  · exact shown hidden

theorem not_complete_of_many
    {account : AccountName}
    (many : 2 ^ 32 < notices.countP fun note => due options note account) :
    ¬ Complete options pack notices
      (HistoryPlugin.afterAll options pack notices) := by
  intro complete
  rcases complete.held many with ⟨op, id, found⟩
  exact absurd (tame_afterAll notices id _ found).2 (Nat.lt_irrefl _)

/--
The history is complete exactly when no entry is due to a hidden account and no
account is due more entries than there are numbers.
-/
theorem account_history_complete_iff
    (options : HistoryOptions)
    (pack : Operation → Text)
    (notices : List OperationNotification)
    (sorted : ByLowerEnd options.trackedAccounts)
    (apart : ApartRanges options.trackedAccounts) :
    Complete options pack notices
        (HistoryPlugin.afterAll options pack notices) ↔
      (∀ note ∈ notices, ∀ account, due options note account = true →
        ¬ Hidden options.trackedAccounts account) ∧
        ∀ account,
          (notices.countP fun note => due options note account) ≤ 2 ^ 32 := by
  constructor
  · intro complete
    refine ⟨?_, ?_⟩
    · intro note member account wanted hidden
      exact not_complete_of_hidden sorted apart member wanted hidden complete
    · intro account
      exact Nat.le_of_not_lt fun many => not_complete_of_many many complete
  · rintro ⟨shown, few⟩
    exact (kept_afterAll sorted apart shown few).toComplete

end Run

/-- Two pairs of names, the second of which may be in the wrong order. -/
def twoRanges (first second : AccountName × AccountName) : HistoryOptions where
  trackedAccounts := [first, second]

/-- A notification of a transfer of `bob` to `nina`. -/
def transferNotice : OperationNotification where
  trxId := 1
  block := 1
  trxInBlock := 0
  opInTrx := 0
  virtualOp := 0
  op := .transfer ⟨"bob", "nina", ⟨1, bmtSymbol⟩, []⟩
  headBlockTime := 3

theorem byLowerEnd_twoRanges
    {first second : AccountName × AccountName}
    (less : first.1 < second.1) :
    ByLowerEnd (twoRanges first second).trackedAccounts :=
  List.pairwise_pair.2 less

/-- Two ranges: `bob` lies in the first, and `nina` in none. -/
theorem account_history_complete_iff_ranges :
    Complete (twoRanges ("a", "c") ("g", "i")) (fun _ => [])
        [transferNotice, transferNotice]
        (HistoryPlugin.afterAll (twoRanges ("a", "c") ("g", "i")) (fun _ => [])
          [transferNotice, transferNotice]) ∧
      log (twoRanges ("a", "c") ("g", "i")) [transferNotice, transferNotice]
        "bob" = [0, 1] := by
  have apart : ApartRanges (twoRanges ("a", "c") ("g", "i")).trackedAccounts := by
    refine List.pairwise_pair.2 ?_
    rintro item ⟨⟨-, below⟩, above, -⟩
    exact absurd (le_trans above below) (by decide)
  refine ⟨?_, by decide⟩
  apply (account_history_complete_iff _ _ _ (byLowerEnd_twoRanges (by decide))
    apart).2
  refine ⟨?_, ?_⟩
  · rintro note - account - ⟨-, -, -, other, member, reversed, -⟩
    revert reversed
    have ordered : ∀ other ∈ [("a", "c"), ("g", "i")],
        ¬ other.2 < (other.1 : AccountName) := by
      decide
    exact ordered other member
  · intro account
    refine List.countP_le_length.trans ?_
    decide

/--
A pair in the wrong order hides `nina`, who lies in the other range; and without
ranges the numbers of `bob` do not reach for one entry more than there are.
-/
theorem account_history_misses :
    (ByLowerEnd (twoRanges ("a", "z") ("m", "b")).trackedAccounts ∧
        ApartRanges (twoRanges ("a", "z") ("m", "b")).trackedAccounts ∧
        ¬ Complete (twoRanges ("a", "z") ("m", "b")) (fun _ => [])
          [transferNotice]
          (HistoryPlugin.afterAll (twoRanges ("a", "z") ("m", "b"))
            (fun _ => []) [transferNotice])) ∧
      ¬ Complete {} (fun _ => []) (List.replicate (2 ^ 32 + 1) transferNotice)
        (HistoryPlugin.afterAll {} (fun _ => [])
          (List.replicate (2 ^ 32 + 1) transferNotice)) := by
  have sorted : ByLowerEnd (twoRanges ("a", "z") ("m", "b")).trackedAccounts :=
    byLowerEnd_twoRanges (by decide)
  have apart : ApartRanges (twoRanges ("a", "z") ("m", "b")).trackedAccounts := by
    refine List.pairwise_pair.2 ?_
    rintro item ⟨-, above, below⟩
    exact absurd (le_trans above below) (by decide)
  refine ⟨⟨sorted, apart, ?_⟩, ?_⟩
  · have wanted : due (twoRanges ("a", "z") ("m", "b")) transferNotice "nina" =
        true := by
      decide
    have hidden : Hidden (twoRanges ("a", "z") ("m", "b")).trackedAccounts
        "nina" := by
      refine ⟨("a", "z"), List.mem_cons_self, ⟨by decide, by decide⟩, ("m", "b"),
        List.mem_cons_of_mem _ List.mem_cons_self, by decide, by decide,
        by decide⟩
    exact not_complete_of_hidden sorted apart (List.mem_singleton_self _) wanted
      hidden
  · have wanted : due {} transferNotice "bob" = true := by
      decide
    refine @not_complete_of_many _ _ _ "bob" ?_
    rw [List.countP_replicate, if_pos wanted]
    exact Nat.lt_succ_self _

end BMChain.Plugins
