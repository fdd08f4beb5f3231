import MongoCore.Grpc.PipelineExecution

/-!
# The table of open transactions

Calls to the service run concurrently, alone or as operations of a pipeline call, and share the
table of open transactions.  A commit or an abort takes the transaction out of the table before it
asks the database, and does not put it back.  The operations that write in a transaction lock its
entry until the database has answered.

An event lets an operation run up to its first wait, lets the database answer an operation, which
then runs to its end, or drops an operation that waits, as a pipeline does when its deadline
passes.
-/

namespace MongoCore.Grpc.OpenTransactions

open MongoCore.Library.TransitionSystem MongoCore.Grpc.PipelineExecution

/-! ## The table and its users -/

/-- The open transactions, the operations that wait for the database, the locked entries with the
operations that locked them, the ids returned by a begin, and those whose commit or abort has
succeeded. -/
structure Table where
  isOpen : String → Bool
  busy : ℕ → Option Operation
  guards : List (ℕ × String)
  begun : List String
  ended : List String

def Table.initial : Table where
  isOpen _ := false
  busy _ := none
  guards := []
  begun := []
  ended := []

def Table.suspend (table : Table) (task : ℕ) (operation : Operation) : Table :=
  { table with busy := Function.update table.busy task (some operation) }

def Table.lock (table : Table) (task : ℕ) (id : String) : Table :=
  { table with guards := (task, id) :: table.guards }

def Table.remove (table : Table) (id : String) : Table :=
  { table with isOpen := Function.update table.isOpen id false }

def Table.insert (table : Table) (id : String) : Table :=
  { table with isOpen := Function.update table.isOpen id true, begun := id :: table.begun }

/-- The commit or the abort of a transaction has succeeded. -/
def Table.close (table : Table) (id : String) : Table :=
  { table with ended := id :: table.ended }

/-- An operation returns or is dropped, with its lock. -/
def Table.finish (table : Table) (task : ℕ) : Table :=
  { table with
    busy := Function.update table.busy task none
    guards := table.guards.filter fun guard ↦ guard.1 ≠ task }

variable (shardOf : String → ℕ)

def Table.isLocked (table : Table) (id : String) : Bool :=
  table.guards.any fun guard ↦ shardOf guard.2 == shardOf id

/-! ## Steps -/

/-- What can happen.  `fresh` is the id that is drawn if the answer begins a transaction. -/
inductive Event where
  | start (task : ℕ) (operation : Operation)
  | answer (task : ℕ) (ok : Bool) (fresh : String)
  | drop (task : ℕ)
  deriving DecidableEq, Repr

/-- An operation runs up to its first wait.  While the shard it needs is locked it cannot. -/
def start (table : Table) (task : ℕ) (operation : Operation) : Option Table :=
  match operation.entry with
  | .returns => some table
  | .awaits => some (table.suspend task operation)
  | .getMut id =>
      if table.isLocked shardOf id then none
      else if table.isOpen id then some ((table.lock task id).suspend task operation)
      else some table
  | .lookUp id => if table.isLocked shardOf id then none else some table
  | .remove id =>
      if table.isLocked shardOf id then none
      else if table.isOpen id then some ((table.remove id).suspend task operation)
      else some table

/-- An operation runs from the answer of the database to its end.  Ids are never drawn twice. -/
def resume (table : Table) (task : ℕ) (operation : Operation) (ok : Bool) (fresh : String) :
    Option Table :=
  match operation, ok with
  | .beginTransaction, true =>
      if fresh ∈ table.begun ∨ table.isLocked shardOf fresh then none
      else some ((table.finish task).insert fresh)
  | .commitTransaction id, true => some ((table.finish task).close id)
  | .abortTransaction id, true => some ((table.finish task).close id)
  | _, _ => some (table.finish task)

def step (table : Table) : Event → Option Table
  | .start task operation =>
      if (table.busy task).isSome then none else start shardOf table task operation
  | .answer task ok fresh =>
      (table.busy task).bind fun operation ↦ resume shardOf table task operation ok fresh
  | .drop task => (table.busy task).map fun _ ↦ table.finish task

/-! ## What a step does to the table -/

/-- The operation has taken the transaction out of the table, and waits for the database. -/
def Table.Holds (table : Table) (task : ℕ) (id : String) : Prop :=
  ∃ operation, table.busy task = some operation ∧ operation.entry = .remove id

inductive Change (table next : Table) : Event → Prop
  | unchanged {event : Event} (isOpen : next.isOpen = table.isOpen)
      (begun : next.begun = table.begun) (ended : next.ended = table.ended)
      (holds : ∀ task id, next.Holds task id ↔ table.Holds task id) : Change table next event
  | begun {event : Event} {fresh : String} (new : fresh ∉ table.begun)
      (isOpen : next.isOpen = Function.update table.isOpen fresh true)
      (begun : next.begun = fresh :: table.begun) (ended : next.ended = table.ended)
      (holds : ∀ task id, next.Holds task id ↔ table.Holds task id) : Change table next event
  | taken {task : ℕ} {operation : Operation} {id : String} (idle : table.busy task = none)
      (entry : operation.entry = .remove id) (unlocked : table.isLocked shardOf id = false)
      (wasOpen : table.isOpen id = true)
      (isOpen : next.isOpen = Function.update table.isOpen id false)
      (begun : next.begun = table.begun) (ended : next.ended = table.ended)
      (holds : ∀ other name, next.Holds other name ↔
        other = task ∧ name = id ∨ table.Holds other name) :
      Change table next (.start task operation)
  | closed {event : Event} {task : ℕ} {id : String} (held : table.Holds task id)
      (isOpen : next.isOpen = table.isOpen) (begun : next.begun = table.begun)
      (ended : next.ended = id :: table.ended)
      (holds : ∀ other name, next.Holds other name ↔ other ≠ task ∧ table.Holds other name) :
      Change table next event
  | lost {event : Event} {task : ℕ} {id : String} (held : table.Holds task id)
      (event_eq : event = .drop task ∨ ∃ fresh, event = .answer task false fresh)
      (isOpen : next.isOpen = table.isOpen) (begun : next.begun = table.begun)
      (ended : next.ended = table.ended)
      (holds : ∀ other name, next.Holds other name ↔ other ≠ task ∧ table.Holds other name) :
      Change table next event

variable {table next : Table} {task : ℕ} {operation : Operation} {shardOf}

theorem holds_suspend (hidle : table.busy task = none) (other : ℕ) (name : String) :
    (table.suspend task operation).Holds other name ↔
      other = task ∧ operation.entry = .remove name ∨ table.Holds other name := by
  unfold Table.Holds Table.suspend
  by_cases hother : other = task
  · subst hother
    simp [hidle]
  · simp [hother]

theorem holds_finish (other : ℕ) (name : String) :
    (table.finish task).Holds other name ↔ other ≠ task ∧ table.Holds other name := by
  unfold Table.Holds Table.finish
  by_cases hother : other = task
  · subst hother
    simp
  · simp [hother]

/-- An operation that has taken nothing out leaves with what was there. -/
theorem holds_finish_of_not_remove (hbusy : table.busy task = some operation)
    (hentry : ∀ id, operation.entry ≠ .remove id) (other : ℕ) (name : String) :
    (table.finish task).Holds other name ↔ table.Holds other name := by
  rw [holds_finish]
  apply and_iff_right_of_imp
  rintro ⟨held, hheld, hremove⟩ rfl
  obtain rfl := Option.some.inj (hbusy.symm.trans hheld)
  exact hentry name hremove

theorem change_of_start (hidle : table.busy task = none)
    (hstep : start shardOf table task operation = some next) :
    Change shardOf table next (.start task operation) := by
  unfold start at hstep
  split at hstep
  · obtain rfl := Option.some.inj hstep
    exact .unchanged rfl rfl rfl fun _ _ ↦ Iff.rfl
  · rename_i hentry
    obtain rfl := Option.some.inj hstep
    refine .unchanged rfl rfl rfl fun other name ↦ ?_
    simp [holds_suspend hidle, hentry]
  · rename_i id hentry
    split_ifs at hstep with hlocked hopen
    · obtain rfl := Option.some.inj hstep
      refine .unchanged rfl rfl rfl fun other name ↦ ?_
      rw [holds_suspend (by exact hidle)]
      simp [hentry, Table.Holds, Table.lock]
    · obtain rfl := Option.some.inj hstep
      exact .unchanged rfl rfl rfl fun _ _ ↦ Iff.rfl
  · split_ifs at hstep
    obtain rfl := Option.some.inj hstep
    exact .unchanged rfl rfl rfl fun _ _ ↦ Iff.rfl
  · rename_i id hentry
    split_ifs at hstep with hlocked hopen
    · obtain rfl := Option.some.inj hstep
      have hunlocked := Bool.eq_false_iff.mpr hlocked
      refine .taken hidle hentry hunlocked hopen rfl rfl rfl fun other name ↦ ?_
      rw [holds_suspend (by exact hidle), hentry, Entry.remove.injEq]
      simp [Table.Holds, Table.remove, eq_comm]
    · obtain rfl := Option.some.inj hstep
      exact .unchanged rfl rfl rfl fun _ _ ↦ Iff.rfl

/-- Only a commit or an abort takes a transaction out. -/
theorem entry_eq_remove {id : String} (h : operation.entry = .remove id) :
    operation = .commitTransaction id ∨ operation = .abortTransaction id := by
  cases operation with
  | crud op transactionId decodes =>
    cases transactionId <;> cases decodes <;> simp [Operation.entry] at h
    split_ifs at h
  | other awaits => cases awaits <;> simp [Operation.entry] at h
  | beginTransaction => simp [Operation.entry] at h
  | commitTransaction name =>
    left
    simpa [Operation.entry] using h
  | abortTransaction name =>
    right
    simpa [Operation.entry] using h

/-- An operation that leaves without success loses what it has taken out. -/
theorem change_of_finish {event : Event} (hbusy : table.busy task = some operation)
    (hevent : event = .drop task ∨ ∃ fresh, event = .answer task false fresh) :
    Change shardOf table (table.finish task) event := by
  by_cases hremove : ∃ id, operation.entry = .remove id
  · obtain ⟨id, hid⟩ := hremove
    exact .lost ⟨operation, hbusy, hid⟩ hevent rfl rfl rfl fun other name ↦ holds_finish other name
  · have hentry : ∀ id, operation.entry ≠ .remove id := not_exists.mp hremove
    exact .unchanged rfl rfl rfl (holds_finish_of_not_remove hbusy hentry)

theorem change_of_answer {fresh : String} {ok : Bool} (hbusy : table.busy task = some operation)
    (hstep : resume shardOf table task operation ok fresh = some next) :
    Change shardOf table next (.answer task ok fresh) := by
  unfold resume at hstep
  split at hstep
  · split_ifs at hstep with hcannot
    obtain rfl := Option.some.inj hstep
    have hentry : ∀ id, Operation.beginTransaction.entry ≠ .remove id := by simp [Operation.entry]
    exact .begun (not_or.mp hcannot).1 rfl rfl rfl (holds_finish_of_not_remove hbusy hentry)
  · rename_i id
    obtain rfl := Option.some.inj hstep
    exact .closed ⟨_, hbusy, rfl⟩ rfl rfl rfl fun other name ↦ holds_finish other name
  · rename_i id
    obtain rfl := Option.some.inj hstep
    exact .closed ⟨_, hbusy, rfl⟩ rfl rfl rfl fun other name ↦ holds_finish other name
  · rename_i hbegin hcommit habort
    obtain rfl := Option.some.inj hstep
    cases ok with
    | false => exact change_of_finish hbusy (.inr ⟨fresh, rfl⟩)
    | true =>
      have hentry : ∀ id, operation.entry ≠ .remove id := by
        intro id hid
        rcases entry_eq_remove hid with rfl | rfl
        · exact hcommit id rfl rfl
        · exact habort id rfl rfl
      exact .unchanged rfl rfl rfl (holds_finish_of_not_remove hbusy hentry)

/-- Every step is of one of the kinds. -/
theorem change_of_step {event : Event} (hstep : step shardOf table event = some next) :
    Change shardOf table next event := by
  cases event with
  | start task operation =>
    simp only [step] at hstep
    split_ifs at hstep with hidle
    exact change_of_start (Option.not_isSome_iff_eq_none.mp hidle) hstep
  | answer task ok fresh =>
    obtain ⟨operation, hbusy, hresume⟩ := Option.bind_eq_some_iff.mp hstep
    exact change_of_answer hbusy hresume
  | drop task =>
    obtain ⟨operation, hbusy, rfl⟩ := Option.map_eq_some_iff.mp hstep
    exact change_of_finish hbusy (.inl rfl)

/-! ## What holds of every reachable table -/

/-- The open transactions and those taken out have begun and not ended, and each transaction is
taken out at most once. -/
structure Sound (table : Table) : Prop where
  isOpen : ∀ id, table.isOpen id = true → id ∈ table.begun ∧ id ∉ table.ended
  ended : ∀ id ∈ table.ended, id ∈ table.begun
  held : ∀ task id, table.Holds task id →
    id ∈ table.begun ∧ id ∉ table.ended ∧ table.isOpen id = false
  unique : ∀ task other id, table.Holds task id → table.Holds other id → task = other

theorem sound_initial : Sound Table.initial where
  isOpen := by simp [Table.initial]
  ended := by simp [Table.initial]
  held := by simp [Table.Holds, Table.initial]
  unique := by simp [Table.Holds, Table.initial]

/-- An operation holds at most one transaction. -/
theorem Holds.inj {id name : String} (h : table.Holds task id) (hother : table.Holds task name) :
    id = name := by
  obtain ⟨first, hfirst, hentry⟩ := h
  obtain ⟨second, hsecond, hremove⟩ := hother
  obtain rfl := Option.some.inj (hfirst.symm.trans hsecond)
  exact Entry.remove.inj (hentry.symm.trans hremove)

theorem Sound.not_holds_of_isOpen (h : Sound table) {id : String} (hopen : table.isOpen id = true) :
    ¬ table.Holds task id := by
  intro hheld
  exact absurd ((h.held task id hheld).2.2.symm.trans hopen) Bool.false_ne_true

theorem Sound.begun (h : Sound table) {fresh : String} (hnew : fresh ∉ table.begun)
    (hopen : next.isOpen = Function.update table.isOpen fresh true)
    (hbegun : next.begun = fresh :: table.begun) (hended : next.ended = table.ended)
    (hholds : ∀ task id, next.Holds task id ↔ table.Holds task id) : Sound next := by
  have hne : ∀ id ∈ table.begun, id ≠ fresh := fun id hid heq ↦ hnew (heq ▸ hid)
  exact {
    isOpen := by
      intro id hid
      rw [hbegun, hended, List.mem_cons]
      by_cases hfresh : id = fresh
      · exact ⟨.inl hfresh, fun hmem ↦ hne id (h.ended id hmem) hfresh⟩
      · rw [hopen, Function.update_of_ne hfresh] at hid
        exact ⟨.inr (h.isOpen id hid).1, (h.isOpen id hid).2⟩
    ended := by
      intro id hid
      rw [hbegun]
      exact List.mem_cons_of_mem _ (h.ended id (hended ▸ hid))
    held := by
      intro other id hid
      obtain ⟨hmem, hnot, hclosed⟩ := h.held other id ((hholds other id).mp hid)
      rw [hbegun, hended, hopen, Function.update_of_ne (hne id hmem)]
      exact ⟨List.mem_cons_of_mem _ hmem, hnot, hclosed⟩
    unique := by
      simp only [hholds]
      exact h.unique }

theorem Sound.taken (h : Sound table) {taken : String} (hwas : table.isOpen taken = true)
    (hopen : next.isOpen = Function.update table.isOpen taken false)
    (hbegun : next.begun = table.begun) (hended : next.ended = table.ended)
    (hholds : ∀ other name, next.Holds other name ↔
      other = task ∧ name = taken ∨ table.Holds other name) : Sound next where
  isOpen := by
    intro id hid
    rw [hopen] at hid
    have hne : id ≠ taken := fun heq ↦ by simp [heq] at hid
    rw [Function.update_of_ne hne] at hid
    rw [hbegun, hended]
    exact h.isOpen id hid
  ended := by
    rw [hbegun, hended]
    exact h.ended
  held := by
    intro other id hid
    rw [hbegun, hended, hopen]
    rcases (hholds other id).mp hid with ⟨-, rfl⟩ | hid
    · exact ⟨(h.isOpen id hwas).1, (h.isOpen id hwas).2, Function.update_self ..⟩
    · obtain ⟨hmem, hnot, hclosed⟩ := h.held other id hid
      refine ⟨hmem, hnot, ?_⟩
      rw [Function.update_apply, hclosed, ite_self]
  unique := by
    intro first other id hfirst hother
    rcases (hholds first id).mp hfirst with ⟨rfl, rfl⟩ | hfirst
    · rcases (hholds other id).mp hother with ⟨rfl, -⟩ | hother
      · rfl
      · exact absurd hother (h.not_holds_of_isOpen hwas)
    · rcases (hholds other id).mp hother with ⟨rfl, rfl⟩ | hother
      · exact absurd hfirst (h.not_holds_of_isOpen hwas)
      · exact h.unique first other id hfirst hother

theorem Sound.closed (h : Sound table) {closed : String} (hheld : table.Holds task closed)
    (hopen : next.isOpen = table.isOpen) (hbegun : next.begun = table.begun)
    (hended : next.ended = closed :: table.ended)
    (hholds : ∀ other name, next.Holds other name ↔ other ≠ task ∧ table.Holds other name) :
    Sound next where
  isOpen := by
    intro id hid
    rw [hopen] at hid
    have hne : id ≠ closed := by
      rintro rfl
      exact h.not_holds_of_isOpen hid hheld
    rw [hbegun, hended, List.mem_cons, not_or]
    exact ⟨(h.isOpen id hid).1, hne, (h.isOpen id hid).2⟩
  ended := by
    intro id hid
    rw [hbegun]
    rcases List.mem_cons.mp (hended ▸ hid) with rfl | hid
    · exact (h.held task id hheld).1
    · exact h.ended id hid
  held := by
    intro other id hid
    obtain ⟨hother, hid⟩ := (hholds other id).mp hid
    obtain ⟨hmem, hnot, hclosed⟩ := h.held other id hid
    have hne : id ≠ closed := by
      rintro rfl
      exact hother (h.unique other task id hid hheld)
    rw [hbegun, hended, hopen, List.mem_cons, not_or]
    exact ⟨hmem, ⟨hne, hnot⟩, hclosed⟩
  unique := by
    intro first other id hfirst hother
    exact h.unique first other id ((hholds first id).mp hfirst).2 ((hholds other id).mp hother).2

/-- Operations that give up what they hold change nothing else. -/
theorem Sound.of_holds (h : Sound table) (hopen : next.isOpen = table.isOpen)
    (hbegun : next.begun = table.begun) (hended : next.ended = table.ended)
    (hholds : ∀ other name, next.Holds other name → table.Holds other name) : Sound next where
  isOpen := by
    rw [hopen, hbegun, hended]
    exact h.isOpen
  ended := by
    rw [hbegun, hended]
    exact h.ended
  held := by
    intro other id hid
    rw [hopen, hbegun, hended]
    exact h.held other id (hholds other id hid)
  unique := by
    intro first other id hfirst hother
    exact h.unique first other id (hholds first id hfirst) (hholds other id hother)

theorem Sound.change {event : Event} (h : Sound table)
    (hchange : Change shardOf table next event) : Sound next := by
  cases hchange with
  | unchanged hopen hbegun hended hholds =>
    exact h.of_holds hopen hbegun hended fun other name ↦ (hholds other name).mp
  | begun hnew hopen hbegun hended hholds => exact h.begun hnew hopen hbegun hended hholds
  | taken hidle hentry hunlocked hwas hopen hbegun hended hholds =>
    exact h.taken hwas hopen hbegun hended hholds
  | closed hheld hopen hbegun hended hholds => exact h.closed hheld hopen hbegun hended hholds
  | lost hheld hevent hopen hbegun hended hholds =>
    exact h.of_holds hopen hbegun hended fun other name hid ↦ ((hholds other name).mp hid).2

/-! ## Transactions that are never lost -/

/-- Every transaction that has begun is in the table or has ended. -/
def Kept (table : Table) : Prop :=
  ∀ id ∈ table.begun, table.isOpen id = true ∨ id ∈ table.ended

/-- Every transaction that has begun is in the table, or is being committed or aborted, or has
ended. -/
def KeptOrHeld (table : Table) : Prop :=
  ∀ id ∈ table.begun, table.isOpen id = true ∨ id ∈ table.ended ∨ ∃ task, table.Holds task id

variable (shardOf) in
/-- A commit or an abort of an open transaction begins. -/
def TakesOut (table : Table) : Event → Prop
  | .start task operation => table.busy task = none ∧ ∃ id, operation.entry = .remove id ∧
      table.isLocked shardOf id = false ∧ table.isOpen id = true
  | _ => False

/-- A commit or an abort under way fails or is dropped. -/
def Loses (table : Table) : Event → Prop
  | .answer task ok _ => ok = false ∧ ∃ id, table.Holds task id
  | .drop task => ∃ id, table.Holds task id
  | .start _ _ => False

theorem Kept.change {event : Event} (h : Kept table) (hnot : ¬ TakesOut shardOf table event)
    (hchange : Change shardOf table next event) : Kept next := by
  intro id hid
  cases hchange with
  | unchanged hopen hbegun hended hholds =>
    rw [hopen, hended]
    exact h id (hbegun ▸ hid)
  | @begun _ fresh hnew hopen hbegun hended hholds =>
    rw [hopen, hended]
    rcases List.mem_cons.mp (hbegun ▸ hid) with rfl | hid
    · exact .inl (Function.update_self ..)
    · have hne : id ≠ fresh := fun heq ↦ hnew (heq ▸ hid)
      rw [Function.update_of_ne hne]
      exact h id hid
  | @taken _ _ taken hidle hentry hunlocked hwas hopen hbegun hended hholds =>
    exact absurd ⟨hidle, taken, hentry, hunlocked, hwas⟩ hnot
  | closed hheld hopen hbegun hended hholds =>
    rw [hopen, hended]
    exact (h id (hbegun ▸ hid)).imp_right (List.mem_cons_of_mem _)
  | lost hheld hevent hopen hbegun hended hholds =>
    rw [hopen, hended]
    exact h id (hbegun ▸ hid)

theorem KeptOrHeld.change {event : Event} (h : KeptOrHeld table)
    (hnot : ¬ Loses table event) (hchange : Change shardOf table next event) :
    KeptOrHeld next := by
  intro id hid
  cases hchange with
  | unchanged hopen hbegun hended hholds =>
    simp only [hopen, hended, hholds]
    exact h id (hbegun ▸ hid)
  | @begun _ fresh hnew hopen hbegun hended hholds =>
    simp only [hopen, hended, hholds]
    rcases List.mem_cons.mp (hbegun ▸ hid) with rfl | hid
    · exact .inl (Function.update_self ..)
    · have hne : id ≠ fresh := fun heq ↦ hnew (heq ▸ hid)
      rw [Function.update_of_ne hne]
      exact h id hid
  | @taken task _ taken hidle hentry hunlocked hwas hopen hbegun hended hholds =>
    simp only [hopen, hended, hholds]
    by_cases htaken : id = taken
    · exact .inr (.inr ⟨task, .inl ⟨rfl, htaken⟩⟩)
    · rw [Function.update_of_ne htaken]
      exact (h id (hbegun ▸ hid)).imp_right (.imp_right fun ⟨other, hother⟩ ↦ ⟨other, .inr hother⟩)
  | @closed _ task closed hheld hopen hbegun hended hholds =>
    simp only [hopen, hended, hholds, List.mem_cons]
    rcases h id (hbegun ▸ hid) with hopen | hended | ⟨other, hother⟩
    · exact .inl hopen
    · exact .inr (.inl (.inr hended))
    · by_cases htask : other = task
      · exact .inr (.inl (.inl (Holds.inj (htask ▸ hother) hheld)))
      · exact .inr (.inr ⟨other, htask, hother⟩)
  | lost hheld hevent hopen hbegun hended hholds =>
    rcases hevent with rfl | ⟨fresh, rfl⟩
    · exact absurd ⟨_, hheld⟩ hnot
    · exact absurd ⟨rfl, _, hheld⟩ hnot

/-- A commit or an abort that begins leaves its transaction in neither place. -/
theorem not_kept_of_takesOut {event : Event} (hsound : Sound table)
    (h : TakesOut shardOf table event) :
    ∃ next, step shardOf table event = some next ∧ ¬ Kept next := by
  cases event with
  | start task operation =>
    obtain ⟨hidle, id, hentry, hunlocked, hopen⟩ := h
    have hstep : step shardOf table (.start task operation) =
        some ((table.remove id).suspend task operation) := by
      simp [step, start, hidle, hentry, hunlocked, hopen]
    refine ⟨_, hstep, fun hkept ↦ ?_⟩
    obtain ⟨hbegun, hended⟩ := hsound.isOpen id hopen
    rcases hkept id hbegun with hin | hin
    · exact absurd hin (by simp [Table.suspend, Table.remove])
    · exact hended hin
  | _ => exact h.elim

theorem not_keptOrHeld_finish {id : String} (hsound : Sound table) (hheld : table.Holds task id) :
    ¬ KeptOrHeld (table.finish task) := by
  intro hkept
  obtain ⟨hbegun, hended, hopen⟩ := hsound.held task id hheld
  rcases hkept id hbegun with hin | hin | ⟨other, hother⟩
  · exact absurd (hopen.symm.trans hin) Bool.false_ne_true
  · exact hended hin
  · obtain ⟨hne, hother⟩ := (holds_finish other id).mp hother
    exact hne (hsound.unique other task id hother hheld)

/-- A commit or an abort that fails or is dropped leaves its transaction nowhere. -/
theorem not_keptOrHeld_of_loses {event : Event} (hsound : Sound table) (h : Loses table event) :
    ∃ next, step shardOf table event = some next ∧ ¬ KeptOrHeld next := by
  cases event with
  | start task operation => exact h.elim
  | answer task ok fresh =>
    obtain ⟨rfl, id, hheld⟩ := h
    refine ⟨table.finish task, ?_, not_keptOrHeld_finish hsound hheld⟩
    obtain ⟨operation, hbusy, hentry⟩ := hheld
    rcases entry_eq_remove hentry with rfl | rfl <;> simp [step, hbusy, resume]
  | drop task =>
    obtain ⟨id, hheld⟩ := h
    refine ⟨table.finish task, ?_, not_keptOrHeld_finish hsound hheld⟩
    obtain ⟨operation, hbusy, -⟩ := hheld
    simp [step, hbusy]

variable (shardOf)

/-- A property that every change keeps but those of some steps, which lose it, holds throughout a run
if and only if the run has none of these steps. -/
theorem throughout_iff_of_change {good : Table → Prop} {loses : Table → Event → Prop}
    (hkept : ∀ table next event, good table → ¬ loses table event →
      Change shardOf table next event → good next)
    (hlost : ∀ table event, Sound table → loses table event →
      ∃ next, step shardOf table event = some next ∧ ¬ good next)
    (hinitial : good Table.initial) (events : List Event) :
    Throughout (step shardOf) good Table.initial events ↔
      StepsMeet (step shardOf) (fun table event ↦ ¬ loses table event) Table.initial events := by
  have hgood : ∀ table, Sound table ∧ good table → good table := fun _ h ↦ h.2
  apply throughout_iff_stepsMeet hgood
  · intro table event next h hnot hstep
    have hchange := change_of_step hstep
    exact ⟨h.1.change hchange, hkept table next event h.2 hnot hchange⟩
  · intro table event h hnot
    exact hlost table event h.1 (not_not.mp hnot)
  · exact ⟨sound_initial, hinitial⟩

/-- Every transaction stays in the table until it has ended if and only if no commit or abort of an
open transaction begins. -/
theorem kept_iff (events : List Event) :
    Throughout (step shardOf) Kept Table.initial events ↔
      StepsMeet (step shardOf) (fun table event ↦ ¬ TakesOut shardOf table event)
        Table.initial events := by
  apply throughout_iff_of_change
  · exact fun table next event h hnot hchange ↦ h.change hnot hchange
  · exact fun table event hsound h ↦ not_kept_of_takesOut hsound h
  · simp [Kept, Table.initial]

/-- Every transaction stays in the table, or with its commit or abort, until it has ended if and
only if no commit or abort under way fails or is dropped. -/
theorem keptOrHeld_iff (events : List Event) :
    Throughout (step shardOf) KeptOrHeld Table.initial events ↔
      StepsMeet (step shardOf) (fun table event ↦ ¬ Loses table event) Table.initial events := by
  apply throughout_iff_of_change
  · exact fun table next event h hnot hchange ↦ h.change hnot hchange
  · exact fun table event hsound h ↦ not_keptOrHeld_of_loses hsound h
  · simp [KeptOrHeld, Table.initial]

/-- When transactions are not lost, with and without the time of their commit or abort. -/
theorem neverLost_iff (events : List Event) :
    (Throughout (step shardOf) Kept Table.initial events ↔
      StepsMeet (step shardOf) (fun table event ↦ ¬ TakesOut shardOf table event)
        Table.initial events) ∧
    (Throughout (step shardOf) KeptOrHeld Table.initial events ↔
      StepsMeet (step shardOf) (fun table event ↦ ¬ Loses table event) Table.initial events) :=
  ⟨kept_iff shardOf events, keptOrHeld_iff shardOf events⟩

/-! ## A commit that fails -/

/-- A transaction begins, and its commit fails. -/
def failedCommit : List Event :=
  [.start 0 .beginTransaction, .answer 0 true "t1", .start 1 (.commitTransaction "t1"),
    .answer 1 false ""]

theorem run_failedCommit :
    ∃ table, run (step fun _ ↦ 0) Table.initial failedCommit = some table ∧
      table.begun = ["t1"] ∧ table.ended = [] ∧ table.isOpen "t1" = false ∧
      (∀ task, table.busy task = none) ∧
      step (fun _ ↦ 0) table (.start 2 (.abortTransaction "t1")) = some table := by
  refine ⟨_, rfl, rfl, rfl, rfl, fun task ↦ ?_, rfl⟩
  rcases task with _ | _ | task <;> rfl

/-- After a commit that failed the transaction is neither in the table nor ended, and an abort of it
finds nothing. -/
theorem failedCommit_loses :
    ∃ table, run (step fun _ ↦ 0) Table.initial failedCommit = some table ∧
      "t1" ∈ table.begun ∧ ¬ KeptOrHeld table ∧
      step (fun _ ↦ 0) table (.start 2 (.abortTransaction "t1")) = some table := by
  obtain ⟨table, hrun, hbegun, hended, hopen, hbusy, habort⟩ := run_failedCommit
  have hmem : "t1" ∈ table.begun := hbegun ▸ List.mem_singleton_self _
  refine ⟨table, hrun, hmem, fun hkept ↦ ?_, habort⟩
  rcases hkept "t1" hmem with hin | hin | ⟨task, operation, hoperation, -⟩
  · exact absurd (hopen.symm.trans hin) Bool.false_ne_true
  · exact List.not_mem_nil (hended ▸ hin)
  · exact absurd ((hbusy task).symm.trans hoperation) (by simp)

end MongoCore.Grpc.OpenTransactions
