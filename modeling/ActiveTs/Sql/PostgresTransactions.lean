import ActiveTs.Lib.SqlSession

/-! # Transactions of the PostgreSQL store

The callback of a transaction sends statements and opens savepoints, one after the other. A statement
that fails marks the scope it was sent in, whatever the callback does with the error, and a scope that
is marked is rolled back. A savepoint whose recovery fails marks the scope it was opened in. -/

namespace ActiveTs.Sql.PostgresTransactions

open SqlSession

/-- The class of an error that a callback throws. -/
inductive Thrown
  /-- `ActiveTsCommittedTransactionError`, of another transaction. -/
  | committedTransaction
  | other
  deriving DecidableEq

/-- What becomes of the commands of one savepoint. -/
structure SavepointReplies where
  savepoint : Reply
  release : Reply
  rollbackTo : Reply
  /-- The release after the savepoint is rolled back to. -/
  recoveryRelease : Reply

/-- A callback: its statements and savepoints in their order, and how it ends. The callback is free to
go on after an error, and an error that it leaves to an operation it does not await ends it too. -/
inductive Body (E : Type)
  | ends (thrown : Option Thrown)
  | statement (e : E) (reply : Reply) (rest : Body E)
  | savepoint (replies : SavepointReplies) (callback : Body E) (rest : Body E)

inductive SavepointCommand
  | savepoint
  | release
  | rollbackTo
  deriving DecidableEq

/-- What happened in a scope: the statements with their success, and the savepoints with the commands
that the adapter sent for them. -/
inductive Trace (E : Type)
  | finished
  | statement (e : E) (succeeded : Bool) (rest : Trace E)
  | savepoint (commands : List (SavepointCommand × Bool)) (threw : Bool) (callback : Trace E)
    (rest : Trace E)

structure Run (E : Type) where
  server : Server E
  savepointSequence : Nat
  statementFailed : Bool
  thrown : Option Thrown
  trace : Trace E

/-- How a savepoint that was set ends. -/
structure Settled (E : Type) where
  server : Server E
  commands : List (SavepointCommand × Bool)
  threw : Bool
  recoveryFailed : Bool

variable {E : Type}

/-! ## Savepoints -/

def recover (name : Nat) (replies : SavepointReplies) (server : Server E) : Settled E :=
  let rolledBack := server.execute (.rollbackTo name) replies.rollbackTo
  if rolledBack.2 then
    let released := rolledBack.1.execute (.release name) replies.recoveryRelease
    ⟨released.1, [(.rollbackTo, true), (.release, released.2)], true, !released.2⟩
  else ⟨rolledBack.1, [(.rollbackTo, false)], true, true⟩

def settleSavepoint (name : Nat) (replies : SavepointReplies) (run : Run E) : Settled E :=
  if run.thrown.isSome || run.statementFailed then recover name replies run.server
  else
    let released := run.server.execute (.release name) replies.release
    if released.2 then ⟨released.1, [(.release, true)], false, false⟩
    else
      let recovered := recover name replies released.1
      { recovered with commands := (.release, false) :: recovered.commands }

/-- The callback of a scope. `failed` is the `statementFailed` of the scope. -/
def runBody : Body E → Server E → Nat → Bool → Run E
  | .ends thrown, server, sequence, failed => ⟨server, sequence, failed, thrown, .finished⟩
  | .statement e reply rest, server, sequence, failed =>
    let sent := server.execute (.effect e) reply
    let run := runBody rest sent.1 sequence (failed || !sent.2)
    { run with trace := .statement e sent.2 run.trace }
  | .savepoint replies callback rest, server, sequence, failed =>
    let name := sequence + 1
    let opened := server.execute (.savepoint name) replies.savepoint
    if opened.2 then
      let inner := runBody callback opened.1 name false
      let settled := settleSavepoint name replies inner
      let run := runBody rest settled.server inner.savepointSequence
        (failed || settled.recoveryFailed)
      { run with
        trace := .savepoint ((.savepoint, true) :: settled.commands) settled.threw inner.trace
          run.trace }
    else
      let run := runBody rest opened.1 name true
      { run with trace := .savepoint [(.savepoint, false)] true .finished run.trace }

/-! ## Commits -/

/-- The result of the query `commit`. -/
inductive CommitResult
  | notAnObject
  /-- Without an own data property `command` that is a string. -/
  | withoutCommand
  | command (text : String)

/-- What a commit comes to, as far as its result shows. -/
inductive CommitAnswer
  | committed
  | rolledBack
  | unknown
  deriving DecidableEq

/-- The check of the result of `commit`, or of no result where the query is rejected. -/
def commitAnswer (toUpperCase : String → String) : Option CommitResult → CommitAnswer
  | some (.command text) =>
    if toUpperCase text = "COMMIT" then .committed
    else if toUpperCase text = "ROLLBACK" then .rolledBack
    else .unknown
  | _ => .unknown

/-- A driver's result for the command that the server answers with. It may be malformed, but it
shows no other command that ends a transaction. -/
structure Delivery (toUpperCase : String → String) where
  result : String → CommitResult
  committed (tag : String) :
    commitAnswer toUpperCase (some (result tag)) = .committed → tag = "COMMIT"
  rolledBack (tag : String) :
    commitAnswer toUpperCase (some (result tag)) = .rolledBack → tag = "ROLLBACK"

inductive CommitReply (toUpperCase : String → String)
  | delivered (delivery : Delivery toUpperCase)
  /-- The server refuses the commit and rolls back. -/
  | error
  | lost (applied : Bool)

def executeCommit {toUpperCase : String → String} (server : Server E)
    (reply : CommitReply toUpperCase) : Server E × Option CommitResult :=
  if server.connected then
    match reply with
    | .delivered delivery => (server.commit.1, some (delivery.result server.commit.2))
    | .error => ({ server with phase := .idle }, none)
    | .lost applied => ((if applied then server.commit.1 else server).disconnect, none)
  else (server, none)

/-! ## The transaction -/

inductive UnknownPhase
  | commit
  | abort
  deriving DecidableEq

inductive TransactionError
  | callback (thrown : Thrown)
  /-- The error of `begin` or of the query that sets the timeout. -/
  | query
  /-- The transaction cannot commit after a statement failed. -/
  | statementFailed
  /-- The commit returned another command than `COMMIT`. -/
  | commitCommand
  /-- `ActiveTsUnknownTransactionOutcomeError` -/
  | unknownOutcome (phase : UnknownPhase)
  /-- `ActiveTsCommittedTransactionError`: the client is not released. -/
  | releaseFailed
  deriving DecidableEq

/-- The errors of the class `ActiveTsCommittedTransactionError`. -/
def TransactionError.isCommitted : TransactionError → Bool
  | .callback .committedTransaction | .releaseFailed => true
  | _ => false

/-- What becomes of the commands of the transaction itself. -/
structure Replies (toUpperCase : String → String) where
  beginTransaction : Reply
  /-- The query that sets `statement_timeout`, where `timeoutMs` is given. -/
  setConfig : Option Reply
  commit : CommitReply toUpperCase
  rollback : Reply
  releaseThrows : Bool

structure Outcome (E : Type) where
  server : Server E
  result : Except TransactionError Unit
  /-- The result of the query `commit`, where it was sent. -/
  commit : Option (Option CommitResult)
  /-- `confirmTransactionRollback` was called. -/
  rollbackConfirmed : Bool
  trace : Trace E

section
variable {toUpperCase : String → String}

/-- The rollback of a transaction whose commit is not sent, or answered with `ROLLBACK`. -/
def abortTransaction (replies : Replies toUpperCase) (server : Server E) (error : TransactionError)
    (commit : Option (Option CommitResult)) (trace : Trace E) : Outcome E :=
  let rolledBack := server.execute .rollback replies.rollback
  if rolledBack.2 then ⟨rolledBack.1, .error error, commit, true, trace⟩
  else ⟨rolledBack.1, .error (.unknownOutcome .abort), commit, false, trace⟩

def commitTransaction (replies : Replies toUpperCase) (server : Server E) (trace : Trace E) :
    Outcome E :=
  let sent := executeCommit server replies.commit
  match commitAnswer toUpperCase sent.2 with
  | .committed =>
    ⟨sent.1, if replies.releaseThrows then .error .releaseFailed else .ok (), some sent.2, false,
      trace⟩
  | .rolledBack => abortTransaction replies sent.1 .commitCommand (some sent.2) trace
  | .unknown => ⟨sent.1, .error (.unknownOutcome .commit), some sent.2, false, trace⟩

def runCallback (replies : Replies toUpperCase) (body : Body E) (server : Server E) : Outcome E :=
  let run := runBody body server 0 false
  match run.thrown with
  | some thrown => abortTransaction replies run.server (.callback thrown) none run.trace
  | none =>
    if run.statementFailed then
      abortTransaction replies run.server .statementFailed none run.trace
    else commitTransaction replies run.server run.trace

/-- `transaction`. The error of a release that fails is only attached to another error. -/
def transaction (replies : Replies toUpperCase) (body : Body E) (server : Server E) : Outcome E :=
  let begun := server.execute .beginTransaction replies.beginTransaction
  if begun.2 then
    match replies.setConfig with
    | none => runCallback replies body begun.1
    | some reply =>
      let configured := begun.1.execute .query reply
      if configured.2 then runCallback replies body configured.1
      else abortTransaction replies configured.1 .query none .finished
  else abortTransaction replies begun.1 .query none .finished

end

/-! ## What a trace shows -/

namespace Trace

/-- The effects of the statements that lie in no savepoint that threw. -/
def survivors : Trace E → List E
  | .finished => []
  | .statement e _ rest => e :: survivors rest
  | .savepoint _ threw callback rest =>
    (if threw then [] else survivors callback) ++ survivors rest

/-- The statements that lie in no savepoint that threw have succeeded. -/
def SurvivorsSucceeded : Trace E → Prop
  | .finished => True
  | .statement _ succeeded rest => succeeded = true ∧ rest.SurvivorsSucceeded
  | .savepoint _ threw callback rest =>
    (threw = false → callback.SurvivorsSucceeded) ∧ rest.SurvivorsSucceeded

/-- A statement of the scope itself failed: one that was sent in it, the command that sets one of its
savepoints, or the recovery of one. -/
def scopeFailed : Trace E → Bool
  | .finished => false
  | .statement _ succeeded rest => !succeeded || scopeFailed rest
  | .savepoint commands _ _ rest =>
    commands.getLast?.any (fun command => !command.2) || scopeFailed rest

/-- The commands of a savepoint that is only released once it is rolled back to. -/
def RolledBackFirst (commands : List (SavepointCommand × Bool)) : Prop :=
  commands = [(.savepoint, true), (.rollbackTo, false)] ∨
    ∃ released, commands = [(.savepoint, true), (.rollbackTo, true), (.release, released)]

/-- Every savepoint whose own scope saw a failed statement throws and is rolled back to first. -/
def Guarded : Trace E → Prop
  | .finished => True
  | .statement _ _ rest => rest.Guarded
  | .savepoint commands threw callback rest =>
    (callback.scopeFailed = true → threw = true ∧ RolledBackFirst commands) ∧ callback.Guarded ∧
      rest.Guarded

end Trace

end ActiveTs.Sql.PostgresTransactions
