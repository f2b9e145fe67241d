import PieceKeeper.Proofs.Company.Turns
import PieceKeeper.Proofs.Service.Rules

/-!
# Calls that are alone with the storage

Where a call leads that nobody disturbs, when the storage does not fail: the table and the shelf do what they are
asked, and whatever lies outside answers anything.  What is to hold in the end goes along the combinators that
operations are built from.
-/

namespace PieceKeeper

variable {α β : Type}

/-! ## Stocks -/

/-- What the ledger took. -/
structure Intake where
  proofSet : UInt64
  root : Root
  hash : String

/-- What outlives calls: the store, and what the ledger took, the latest first. -/
structure Stock where
  store : Store := {}
  taken : List Intake := []

namespace Stock

/-- The stock with another table. -/
def withTable (stock : Stock) (table : Table) : Stock := { stock with store.table := table }

/-- How a request is answered when the storage does not fail, and what the answer leaves. -/
inductive Serves (stock : Stock) : (request : Request) → request.Answer → Stock → Prop
  | table (command : Table.Command) : Serves stock (.table command) (stock.store.table.run command).1
      (stock.withTable (stock.store.table.run command).2)
  | shelf (command : Shelf.Command) : Serves stock (.shelf command) (stock.store.shelf.run command).1
      { stock with store.shelf := (stock.store.shelf.run command).2 }
  | accepted (proofSet : UInt64) (root : Root) (hash : String) : Serves stock (.submit proofSet root) (.ok hash)
      { stock with taken := ⟨proofSet, root, hash⟩ :: stock.taken }
  | refused (proofSet : UInt64) (root : Root) (fault : Fault) :
    Serves stock (.submit proofSet root) (.error fault) stock
  | outside (request : Request) (answer : request.Answer) : request.IsOutside →
    (∀ proofSet root, request ≠ .submit proofSet root) → Serves stock request answer stock

/-- The table obeys its rules, and the shelf can be used. -/
structure Sound (stock : Stock) : Prop where
  table : stock.store.table.Lawful
  open_ : stock.store.shelf.blocked = false

/-- Nothing is different but what is on the shelf. -/
structure Keeps (stock stock' : Stock) : Prop where
  table : stock'.store.table = stock.store.table
  taken : stock'.taken = stock.taken

/-- Nothing is different but drafts. -/
structure Same (stock stock' : Stock) : Prop extends stock.Keeps stock' where
  blobs : stock'.store.shelf.blobs = stock.store.shelf.blobs

variable {stock stock' stock'' : Stock} {request : Request} {answer : request.Answer}

@[refl] theorem Same.refl (stock : Stock) : stock.Same stock := ⟨⟨rfl, rfl⟩, rfl⟩

theorem Keeps.trans (h : stock.Keeps stock') (h' : stock'.Keeps stock'') : stock.Keeps stock'' :=
  ⟨h'.table.trans h.table, h'.taken.trans h.taken⟩

theorem Same.trans (h : stock.Same stock') (h' : stock'.Same stock'') : stock.Same stock'' :=
  ⟨h.toKeeps.trans h'.toKeeps, h'.blobs.trans h.blobs⟩

theorem Keeps.withTable (h : stock.Keeps stock') (table : Table) :
    (stock.withTable table).Keeps (stock'.withTable table) := ⟨rfl, h.taken⟩

theorem Same.withTable (h : stock.Same stock') (table : Table) :
    (stock.withTable table).Same (stock'.withTable table) := ⟨h.toKeeps.withTable table, h.blobs⟩

/-- Only a publication changes what is published. -/
theorem blobs_run {shelf : Shelf} {command : Shelf.Command} (h : (Request.shelf command).IsQuiet) :
    (shelf.run command).2.blobs = shelf.blobs := by
  cases command with
  | writeDraft draft key content =>
    rw [Shelf.run]
    split
    · rfl
    · split
      · rfl
      · rfl
  | read key =>
    rw [Shelf.run]
    split
    · rfl
    · rfl
  | publish draft key => exact h.elim
  | holds _ | makePlace _ | newDraft | discard _ => rfl

/-- A request that changes nothing but drafts. -/
theorem Serves.same (h : stock.Serves request answer stock') (hquiet : request.IsQuiet) :
    stock.Same stock' := by
  cases h with
  | table command => exact ⟨⟨Table.run_query hquiet, rfl⟩, rfl⟩
  | shelf command => exact ⟨⟨rfl, rfl⟩, blobs_run hquiet⟩
  | accepted _ _ _ | refused _ _ _ => exact hquiet.elim
  | outside _ _ _ _ => rfl

theorem Serves.sound (h : stock.Serves request answer stock') (hs : stock.Sound) : stock'.Sound := by
  cases h with
  | table command => exact ⟨hs.table.run command, hs.open_⟩
  | shelf command => exact ⟨hs.table, (Shelf.keeps_run _ command).blocked.trans hs.open_⟩
  | accepted _ _ _ | refused _ _ _ | outside _ _ _ _ => exact ⟨hs.table, hs.open_⟩

end Stock

/-! ## Where a call leads -/

namespace Call

/-- A call ends with an answer, and leaves another stock. -/
inductive Brings : Call α → Stock → α → Stock → Prop
  | done (answer : α) (stock : Stock) : Brings (.done answer) stock answer stock
  | ask {request : Request} {next : request.Answer → Call α} {stock between stock' : Stock}
      {answer : request.Answer} {result : α} : stock.Serves request answer between →
    Brings (next answer) between result stock' → Brings (.ask request next) stock result stock'

/-- Wherever a call leads, a postcondition holds. -/
def Ensures (post : α → Stock → Prop) (call : Call α) (stock : Stock) : Prop :=
  ∀ answer stock', call.Brings stock answer stock' → post answer stock'

variable {stock stock' : Stock} {request : Request}

theorem brings_bind {call : Call α} {next : α → Call β} {result : β} :
    (call.bind next).Brings stock result stock' ↔
      ∃ answer between, call.Brings stock answer between ∧ (next answer).Brings between result stock' := by
  constructor
  · intro h
    induction call generalizing stock with
    | done answer => exact ⟨answer, stock, .done answer stock, h⟩
    | ask request rest ih =>
      cases h with
      | ask hserves hrest =>
        obtain ⟨answer, between, hbrings, hnext⟩ := ih _ hrest
        exact ⟨answer, between, .ask hserves hbrings, hnext⟩
  · rintro ⟨answer, between, hbrings, hnext⟩
    induction hbrings with
    | done _ _ => exact hnext
    | ask hserves _ ih => exact .ask hserves (ih hnext)

theorem ensures_done {post : α → Stock → Prop} {answer : α} (h : post answer stock) :
    (done answer).Ensures post stock := by
  intro answer' stock' hbrings
  cases hbrings
  exact h

theorem ensures_ask {post : α → Stock → Prop} {next : request.Answer → Call α}
    (h : ∀ answer stock', stock.Serves request answer stock' → (next answer).Ensures post stock') :
    (ask request next).Ensures post stock := by
  intro result stock' hbrings
  cases hbrings with
  | ask hserves hrest => exact h _ _ hserves result stock' hrest

theorem Ensures.bind {post : β → Stock → Prop} {call : Call α} {next : α → Call β}
    (h : call.Ensures (fun answer ↦ (next answer).Ensures post) stock) :
    (call.bind next).Ensures post stock := by
  intro result stock' hbrings
  obtain ⟨answer, between, hcall, hnext⟩ := brings_bind.mp hbrings
  exact h answer between hcall result stock' hnext

theorem Ensures.mono {post post' : α → Stock → Prop} {call : Call α} (h : call.Ensures post stock)
    (hpost : ∀ answer stock, post answer stock → post' answer stock) : call.Ensures post' stock :=
  fun answer stock' hbrings ↦ hpost answer stock' (h answer stock' hbrings)

end Call

namespace Attempt

/-- Wherever an attempt leads, its answer satisfies `good`, or its fault `bad`. -/
def Ensures (good : α → Stock → Prop) (bad : Fault → Stock → Prop) (attempt : Attempt α) (stock : Stock) : Prop :=
  Call.Ensures (Concludes good bad) attempt.run stock

variable {good : α → Stock → Prop} {bad : Fault → Stock → Prop} {start stock : Stock}

theorem ensures_pure {answer : α} (h : good answer stock) : (pure answer : Attempt α).Ensures good bad stock :=
  Call.ensures_done h

theorem ensures_refuse {cause : Cause} (h : bad { cause } stock) :
    (refuse cause : Attempt α).Ensures good bad stock :=
  Call.ensures_done h

theorem ensures_ofOutcome {outcome : Outcome α} (hgood : ∀ answer, outcome = .ok answer → good answer stock)
    (hbad : ∀ fault, outcome = .error fault → bad fault stock) : (ofOutcome outcome).Ensures good bad stock := by
  refine Call.ensures_done ?_
  cases outcome with
  | ok answer => exact hgood answer rfl
  | error fault => exact hbad fault rfl

theorem ensures_ofOutcome_ok {outcome : Outcome α} {answer : α} (houtcome : outcome = .ok answer)
    (h : good answer stock) : (ofOutcome outcome).Ensures good bad stock := by
  rw [houtcome]
  exact Call.ensures_done h

theorem ensures_ofFile {result : Except FileFailure α} (hgood : ∀ answer, result = .ok answer → good answer stock)
    (hbad : ∀ fault, bad fault stock) : (ofFile result).Ensures good bad stock := by
  cases result with
  | ok answer => exact ensures_pure (hgood answer rfl)
  | error failure => exact ensures_refuse (hbad _)

theorem Ensures.bind {good : β → Stock → Prop} {attempt : Attempt α} {next : α → Attempt β}
    (h : attempt.Ensures (fun answer ↦ (next answer).Ensures good bad) bad stock) :
    (attempt >>= next).Ensures good bad stock := by
  refine Call.Ensures.bind (Call.Ensures.mono h fun outcome stock hend ↦ ?_)
  cases outcome with
  | ok answer => exact hend
  | error fault => exact Call.ensures_done hend

theorem Ensures.mono {good' : α → Stock → Prop} {bad' : Fault → Stock → Prop} {attempt : Attempt α}
    (h : attempt.Ensures good bad stock) (hgood : ∀ answer stock, good answer stock → good' answer stock)
    (hbad : ∀ fault stock, bad fault stock → bad' fault stock) : attempt.Ensures good' bad' stock := by
  refine Call.Ensures.mono h fun outcome stock hend ↦ ?_
  cases outcome with
  | ok answer => exact hgood _ _ hend
  | error fault => exact hbad _ _ hend

theorem Ensures.within {attempt : Attempt α} {operation piece : String}
    (h : attempt.Ensures good (fun fault ↦ bad (fault.within operation piece)) stock) :
    (attempt.within operation piece).Ensures good bad stock := by
  refine Call.Ensures.bind (Call.Ensures.mono h fun outcome stock hend ↦ ?_)
  cases outcome with
  | ok answer => exact Call.ensures_done hend
  | error fault => exact Call.ensures_done hend

/-- A call that cannot fail, as an attempt. -/
theorem ensures_lift {call : Call α} (h : call.Ensures good stock) :
    Ensures good bad (ExceptT.lift call) stock :=
  Call.Ensures.bind (Call.Ensures.mono h fun _ _ hend ↦ Call.ensures_done hend)

theorem ensures_ask (request : Request) {good : request.Answer → Stock → Prop}
    (h : ∀ answer stock', stock.Serves request answer stock' → good answer stock') :
    (ask request).Ensures good bad stock :=
  Call.ensures_ask fun answer stock' hserves ↦ Call.ensures_done (h answer stock' hserves)

/-- A request that changes nothing but drafts. -/
theorem ensures_quiet (request : Request) {good : request.Answer → Stock → Prop} (hquiet : request.IsQuiet)
    (h : ∀ answer stock', stock.Same stock' → good answer stock') : (ask request).Ensures good bad stock :=
  ensures_ask request fun answer stock' hserves ↦ h answer stock' (hserves.same hquiet)

/-- A command to the shelf that changes nothing but drafts. -/
theorem ensures_shelf {command : Shelf.Command} {good : command.Answer → Stock → Prop}
    (hquiet : (Request.shelf command).IsQuiet) (h : ∀ answer stock', stock.Same stock' → good answer stock') :
    (shelf command).Ensures good bad stock :=
  ensures_quiet _ hquiet h

theorem ensures_table {command : Table.Command} {good : command.Answer → Stock → Prop}
    {outcome : Outcome command.Answer} {table : Table} (hrun : stock.store.table.run command = (outcome, table))
    (h : Concludes good bad outcome (stock.withTable table)) : (Attempt.table command).Ensures good bad stock := by
  refine Call.ensures_ask fun answer stock' hserves ↦ Call.ensures_done ?_
  cases hserves with
  | table _ =>
    rw [hrun]
    exact h
  | outside _ _ houtside _ => exact houtside.elim

/-- A question to the table changes nothing. -/
theorem ensures_query (command : Table.Command) {good : command.Answer → Stock → Prop}
    (hquiet : (Request.table command).IsQuiet)
    (hgood : ∀ answer, (stock.store.table.run command).1 = .ok answer → good answer stock)
    (hbad : ∀ fault, (stock.store.table.run command).1 = .error fault → bad fault stock) :
    (table command).Ensures good bad stock := by
  have hrun : stock.store.table.run command = ((stock.store.table.run command).1, stock.store.table) :=
    Prod.ext rfl (Table.run_query hquiet)
  refine ensures_table hrun ?_
  cases hanswer : (stock.store.table.run command).1 with
  | ok answer => exact hgood answer hanswer
  | error fault => exact hbad fault hanswer

/-- The ledger takes what is submitted, or it refuses that. -/
theorem ensures_submit {proofSet : UInt64} {root : Root} {good : Outcome String → Stock → Prop}
    (haccepted : ∀ hash, good (.ok hash) { stock with taken := ⟨proofSet, root, hash⟩ :: stock.taken })
    (hrefused : ∀ fault, good (.error fault) stock) : (ask (.submit proofSet root)).Ensures good bad stock := by
  refine ensures_ask (.submit proofSet root) fun answer stock' hserves ↦ ?_
  cases hserves with
  | accepted _ _ hash => exact haccepted hash
  | refused _ _ fault => exact hrefused fault
  | outside _ _ _ hother => exact absurd rfl (hother proofSet root)

theorem ensures_lookup {hash : String} {good : Option TransactionRecord → Stock → Prop}
    (hgood : ∀ answer, good answer stock) (hbad : ∀ fault, bad fault stock) :
    Ensures good bad (ExceptT.mk (Call.request (.lookup hash))) stock := by
  refine Call.ensures_ask fun answer stock' hserves ↦ Call.ensures_done ?_
  cases hserves with
  | outside _ _ _ _ =>
    cases answer with
    | ok answer => exact hgood answer
    | error fault => exact hbad fault

theorem Ensures.holding {attempt : Attempt α} {key : LockKey} (h : attempt.Ensures good bad stock) :
    (attempt.holding key).Ensures good bad stock := by
  change Call.Ensures _ (.ask (.acquire key) fun _ ↦ attempt.run.bind fun outcome ↦
    .ask (.release key) fun _ ↦ .done outcome) stock
  refine Call.ensures_ask fun _ between hserves ↦ ?_
  cases hserves with
  | outside _ _ _ _ =>
    refine Call.Ensures.bind (Call.Ensures.mono h fun outcome between hend ↦ ?_)
    refine Call.ensures_ask fun _ stock' hserves ↦ ?_
    cases hserves with
    | outside _ _ _ _ => exact Call.ensures_done hend

end Attempt

end PieceKeeper
