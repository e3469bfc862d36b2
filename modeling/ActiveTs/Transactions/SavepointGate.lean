import ActiveTs.Lib.Steps

/-! # The savepoint gate of a transaction adapter

The operations of a guarded transaction adapter, and of the nested adapters that its savepoints give
to their callbacks, go through one gate. The gate numbers operations and savepoints as they are
issued. An operation waits for the savepoints that were issued before it with its token, and a
savepoint waits for the one before it with the same parent and for the operations that were issued
before it. Which token an operation gets depends on the adapter object and on the async context it is
issued in. -/

namespace ActiveTs.Transactions.SavepointGate

/-- A `TransactionSavepointToken`: the savepoint it belongs to and the savepoints around that one,
innermost first. The empty list stands for no token. -/
abbrev Token := List Nat

inductive Kind
  | operation
  | savepoint
  deriving DecidableEq

inductive Phase
  /-- An operation behind its barriers, a savepoint that is queued or behind prior operations. -/
  | waiting
  | running
  /-- The callback of a savepoint has settled, and its tracker waits for pending operations. -/
  | closing
  | done
  deriving DecidableEq

/-- A `TransactionSavepointOperation` or a `TransactionSavepointBarrier`. -/
structure Item where
  kind : Kind
  /-- The token of an operation, the parent of a savepoint. -/
  token : Token
  /-- The operation that it was issued in, and the parents of that operation. -/
  operations : List Nat
  /-- The operation or savepoint whose code issued it. -/
  issuer : Option Nat
  /-- The barriers that an operation waits for, the queue tail that a savepoint waits for. -/
  pending : List Nat
  phase : Phase
  /-- What its code awaits. -/
  awaits : List Nat
  /-- How much work there was when a savepoint started. -/
  start : Nat

/-- The items by their sequence numbers. The work on the store that has not been undone is kept as
the operations that did it. -/
structure Gate where
  items : List Item
  work : List Nat

/-- The async context that code runs in. -/
structure Scope where
  token : Token
  operations : List Nat

/-- The context that the code of the item `i` runs in. -/
def Item.scope (i : Nat) (item : Item) : Scope :=
  match item.kind with
  | .operation => ⟨item.token, i :: item.operations⟩
  | .savepoint => ⟨i :: item.token, item.operations⟩

/-- `transactionSavepointTokenIsSelfOrDescendant`. -/
def tokenIsSelfOrDescendant (token ancestor : Token) : Bool := ancestor.isSuffixOf token

def tokenInParent (token parent : Token) : Bool :=
  if parent.isEmpty then token.isEmpty else tokenIsSelfOrDescendant token parent

/-- `currentSavepointToken` of the adapter object made for `savepointToken`. -/
def currentSavepointToken (savepointToken ambientToken : Token) : Token :=
  if savepointToken.isEmpty then ambientToken
  else if !ambientToken.isEmpty && tokenIsSelfOrDescendant ambientToken savepointToken then
    ambientToken
  else savepointToken

namespace Gate

def init : Gate := ⟨[], []⟩

def any (c : Gate) (i : Nat) (p : Item → Bool) : Bool := c.items[i]?.any p

def isDone (c : Gate) (i : Nat) : Bool := c.any i fun item => item.phase = .done

/-- The context of code outside of the gate, and of the code of an item that has begun. -/
def scope (c : Gate) : Option Nat → Option Scope
  | none => some ⟨[], []⟩
  | some i => (c.items[i]?.filter fun item => item.phase ≠ .waiting).map fun item => item.scope i

/-- There is an adapter object for the token. -/
def hasAdapter (c : Gate) : Token → Bool
  | [] => true
  | s :: parent =>
    c.any s fun item =>
      item.kind = .savepoint && item.token = parent && item.phase ≠ .waiting

/-- The tracker of the token admits an operation: its savepoint is open, or the operation is issued
in an active one of the tracker. -/
def admits (c : Gate) (issuer : Option Nat) : Token → Bool
  | [] => true
  | s :: parent =>
    c.any s fun item =>
      match item.phase with
      | .running => true
      | .closing =>
        issuer.any fun i => c.any i fun issuing =>
          issuing.token = s :: parent && issuing.phase ≠ .done
      | _ => false

/-- The savepoints with this parent, in the order of their queue. -/
def savepoints (c : Gate) (parent : Token) : List Nat :=
  (List.range c.items.length).filter fun s =>
    c.any s fun item => item.kind = .savepoint && item.token = parent

/-- The barriers of `applicableBarrierPromises`. -/
def applicableBarriers (c : Gate) (token : Token) : List Nat :=
  (c.savepoints token).filter fun b => !c.isDone b

/-- `waitForPriorOperations` of the barrier `b` waits for the operation `o`. -/
def waitsForPrior (c : Gate) (b o : Nat) : Bool :=
  o < b && c.any b fun barrier => c.any o fun operation =>
    operation.kind = .operation && operation.phase ≠ .done &&
      tokenInParent operation.token barrier.token && o ∉ barrier.operations

def setItem (c : Gate) (i : Nat) (item : Item) : Gate := { c with items := c.items.set i item }

end Gate

inductive Event
  /-- `gate.run`, in the code of the issuer, through the adapter object for the token. -/
  | run (issuer : Option Nat) (adapter : Token)
  /-- `gate.savepoint`. -/
  | savepoint (issuer : Option Nat) (adapter : Token)
  | start (i : Nat)
  /-- The code of an item begins to await one that it has issued. -/
  | await (i j : Nat)
  /-- An operation works on the store. -/
  | work (i : Nat)
  | settle (i : Nat)
  /-- The callback of a savepoint settles. -/
  | close (i : Nat)
  | release (i : Nat)
  | rollback (i : Nat)

namespace Gate

/-- A new operation begins at once where it has no barrier to wait for. -/
def newOperation (c : Gate) (issuer : Option Nat) (token : Token) (operations : List Nat) : Item where
  kind := .operation
  token := token
  operations := operations
  issuer := issuer
  pending := c.applicableBarriers token
  phase := if (c.applicableBarriers token).isEmpty then .running else .waiting
  awaits := []
  start := 0

def newSavepoint (c : Gate) (issuer : Option Nat) (parent : Token) (operations : List Nat) :
    Item where
  kind := .savepoint
  token := parent
  operations := operations
  issuer := issuer
  pending := (c.savepoints parent).getLast?.toList
  phase := .waiting
  awaits := []
  start := 0

/-- The item can start: what it was put behind is done, and a savepoint waits for no operation. -/
def canStart (c : Gate) (i : Nat) (item : Item) : Bool :=
  item.phase = .waiting && item.pending.all c.isDone &&
    (item.kind = .operation || (List.range i).all fun o => !c.waitsForPrior i o)

/-- The callback of the savepoint has settled, and so has all that its tracker follows. -/
def canEnd (c : Gate) (i : Nat) (item : Item) : Bool :=
  item.kind = .savepoint && item.phase = .closing &&
    (List.range c.items.length).all fun j =>
      c.any j fun inner => inner.token ≠ i :: item.token || inner.phase = .done

/-- The token and the operations of what is issued here, where the tracker admits it. -/
def issue (c : Gate) (issuer : Option Nat) (adapter : Token) : Option Scope :=
  (c.scope issuer).bind fun scope =>
    let token := currentSavepointToken adapter scope.token
    if c.hasAdapter adapter && c.admits issuer token then some ⟨token, scope.operations⟩ else none

def step (c : Gate) : Event → Option Gate
  | .run issuer adapter =>
    (c.issue issuer adapter).map fun scope =>
      { c with items := c.items ++ [c.newOperation issuer scope.token scope.operations] }
  | .savepoint issuer adapter =>
    (c.issue issuer adapter).map fun scope =>
      { c with items := c.items ++ [c.newSavepoint issuer scope.token scope.operations] }
  | .start i =>
    (c.items[i]?.filter (c.canStart i)).map fun item =>
      c.setItem i { item with phase := .running, start := c.work.length }
  | .await i j =>
    (c.items[i]?.filter fun item => item.phase = .running &&
      c.any j fun inner => inner.issuer = some i).map fun item =>
        c.setItem i { item with awaits := j :: item.awaits }
  | .work i =>
    (c.items[i]?.filter fun item => item.kind = .operation && item.phase = .running).map fun _ =>
      { c with work := c.work ++ [i] }
  | .settle i =>
    (c.items[i]?.filter fun item => item.kind = .operation && item.phase = .running &&
      item.awaits.all c.isDone).map fun item => c.setItem i { item with phase := .done }
  | .close i =>
    (c.items[i]?.filter fun item => item.kind = .savepoint && item.phase = .running &&
      item.awaits.all c.isDone).map fun item => c.setItem i { item with phase := .closing }
  | .release i =>
    (c.items[i]?.filter (c.canEnd i)).map fun item => c.setItem i { item with phase := .done }
  | .rollback i =>
    (c.items[i]?.filter (c.canEnd i)).map fun item =>
      { c.setItem i { item with phase := .done } with work := c.work.take item.start }

/-- The runs of a gate. -/
abbrev Run (c : Gate) (es : List Event) (c' : Gate) : Prop :=
  Steps (fun c e c' => c.step e = some c') c es c'

/-- Runs a list of events, as far as they are possible. -/
def exec (c : Gate) : List Event → Option Gate
  | [] => some c
  | e :: es => (c.step e).bind fun c' => c'.exec es

theorem Run.of_exec {c c' : Gate} {es : List Event} (h : c.exec es = some c') : c.Run es c' := by
  induction es generalizing c with
  | nil =>
    cases h
    exact .nil
  | cons e es ih =>
    obtain ⟨c₁, hs, h⟩ := Option.bind_eq_some_iff.mp h
    exact (Steps.single hs).trans (ih h)

end Gate

end ActiveTs.Transactions.SavepointGate
