import ActiveTs.Sql.PostgresTransactions

/-! # What a PostgreSQL transaction commits

A scope keeps the savepoints under it, and while it is not marked nothing in it has failed on the
server either: the work is then what it was with the effects of the scope added, less those of the
savepoints that threw. So a commit is sent only for a transaction in which every statement that counts
has succeeded. -/

namespace ActiveTs.Sql.PostgresTransactions

open SqlSession

variable {E : Type}

/-! ## Savepoints -/

/-- A savepoint over `stack` that began with `work` and whose callback left `work'`, once it is
settled. `failed` is whether its own scope is marked. -/
structure Settles (name : Nat) (stack : Savepoints E) (work work' : List E) (failed : Bool)
    (server : Server E) (settled : Settled E) : Prop where
  committed : settled.server.committed = server.committed
  clean : settled.recoveryFailed = false →
    settled.server.Clean (if settled.threw then work else work') stack
  keeps : settled.recoveryFailed = true → settled.server.Keeps name ((name, work) :: stack)
  rolledBackFirst : failed = true →
    settled.threw = true ∧ Trace.RolledBackFirst ((.savepoint, true) :: settled.commands)
  recoveryFailed :
    ((.savepoint, true) :: settled.commands).getLast?.any (fun command => !command.2) =
      settled.recoveryFailed
  threw : settled.recoveryFailed = true → settled.threw = true

theorem recover_commands (name : Nat) (replies : SavepointReplies) (server : Server E) :
    ∃ sent commands, (recover name replies server).commands = sent :: commands := by
  cases hr : (server.execute (.rollbackTo name) replies.rollbackTo).2 with
  | false =>
    simp only [recover, hr, Bool.false_eq_true, if_false]
    exact ⟨_, _, rfl⟩
  | true =>
    simp only [recover, hr, if_true]
    exact ⟨_, _, rfl⟩

theorem recover_settles {server : Server E} (h : server.Keeps name ((name, work) :: stack))
    (replies : SavepointReplies) :
    Settles name stack work work' failed server (recover name replies server) := by
  cases hr : (server.execute (.rollbackTo name) replies.rollbackTo).2 with
  | false =>
    simp only [recover, hr, Bool.false_eq_true, if_false]
    exact ⟨Server.refused_committed hr, (by simp), fun _ => h.refused hr,
      fun _ => ⟨rfl, .inl rfl⟩, rfl, fun _ => rfl⟩
  | true =>
    simp only [recover, hr, if_true]
    obtain ⟨hclean, hcommitted⟩ := h.rollbackTo hr
    cases hreleased : ((server.execute (.rollbackTo name) replies.rollbackTo).1.execute
        (.release name) replies.recoveryRelease).2 with
    | false =>
      refine ⟨?_, (by simp), fun _ => hclean.keeps.refused hreleased,
        fun _ => ⟨rfl, .inr ⟨false, rfl⟩⟩, rfl, fun _ => rfl⟩
      exact (Server.refused_committed hreleased).trans hcommitted
    | true =>
      obtain ⟨hrelease, hcommitted'⟩ := hclean.release hreleased
      exact ⟨hcommitted'.trans hcommitted, fun _ => hrelease, (by simp),
        fun _ => ⟨rfl, .inr ⟨true, rfl⟩⟩, rfl, fun _ => rfl⟩

theorem settleSavepoint_settles {run : Run E}
    (hkeeps : run.server.Keeps name ((name, work) :: stack))
    (hclean : run.statementFailed = false → run.server.Clean work' ((name, work) :: stack))
    (replies : SavepointReplies) :
    Settles name stack work work' run.statementFailed run.server
      (settleSavepoint name replies run) := by
  cases hfailed : run.thrown.isSome || run.statementFailed with
  | true =>
    simp only [settleSavepoint, hfailed, if_true]
    exact recover_settles hkeeps replies
  | false =>
    obtain ⟨hthrown, hmarked⟩ := Bool.or_eq_false_iff.mp hfailed
    cases hr : (run.server.execute (.release name) replies.release).2 with
    | true =>
      obtain ⟨hrelease, hcommitted⟩ := (hclean hmarked).release hr
      simp only [settleSavepoint, hthrown, hmarked, hr, Bool.or_self, Bool.false_eq_true, if_false,
        if_true]
      exact ⟨hcommitted, fun _ => hrelease, (by simp), (by simp), rfl, (by simp)⟩
    | false =>
      simp only [settleSavepoint, hthrown, hmarked, hr, Bool.or_self, Bool.false_eq_true, if_false]
      have hrecovered : Settles name stack work work' false _ (recover name replies _) :=
        recover_settles (hkeeps.refused hr) replies
      refine ⟨hrecovered.committed.trans (Server.refused_committed hr), hrecovered.clean,
        hrecovered.keeps, (by simp), ?_, hrecovered.threw⟩
      obtain ⟨sent, commands, hcommands⟩ := recover_commands name replies
        (run.server.execute (.release name) replies.release).1
      have hlast := hrecovered.recoveryFailed
      rw [hcommands] at hlast ⊢
      rw [← hlast]
      rfl

/-- A savepoint that is settled keeps what was kept when it was opened. -/
theorem Settles.scopeKeeps {settled : Settled E} {inner outer : Savepoints E}
    (h : Settles name (inner ++ outer) work work' failed server settled) (hname : k < name)
    (hinner : ∀ p ∈ inner, k < p.1) : settled.server.Keeps k outer := by
  cases hr : settled.recoveryFailed with
  | true => exact (h.keeps hr).weaken hname hinner
  | false => exact .inr ⟨inner, hinner, .inl ⟨_, (h.clean hr).2⟩⟩

/-! ## Scopes -/

/-- What the run of a callback in a scope over `outer` comes to. `failed` is whether the scope was
marked before. -/
structure Runs (k : Nat) (outer : Savepoints E) (server : Server E) (failed : Bool) (run : Run E) :
    Prop where
  keeps : run.server.Keeps k outer
  committed : run.server.committed = server.committed
  clean : run.statementFailed = false → server.Clean work outer →
    run.server.Clean (work ++ run.trace.survivors) outer
  marked : run.statementFailed = (failed || run.trace.scopeFailed)
  succeeded : run.statementFailed = false → run.trace.SurvivorsSucceeded
  guarded : run.trace.Guarded

/-- A statement in front of a callback. -/
theorem Runs.statement {server : Server E} {e : E} {reply : Reply} (hkeeps : server.Keeps k outer)
    (h : Runs k outer (server.execute (.effect e) reply).1
      (failed || !(server.execute (.effect e) reply).2) run) :
    Runs k outer server failed
      { run with trace := .statement e (server.execute (.effect e) reply).2 run.trace } where
  keeps := h.keeps
  committed := h.committed.trans (hkeeps.effect e reply).2
  clean := by
    intro work hrun hclean
    have hmarked := h.marked.symm.trans hrun
    simp only [Bool.or_eq_false_iff, Bool.not_eq_false'] at hmarked
    have hsent := h.clean hrun (hclean.effect hmarked.1.2)
    rwa [List.append_assoc] at hsent
  marked := by rw [h.marked, Trace.scopeFailed, Bool.or_assoc]
  succeeded := by
    intro hrun
    have hmarked := h.marked.symm.trans hrun
    simp only [Bool.or_eq_false_iff, Bool.not_eq_false'] at hmarked
    exact ⟨hmarked.1.2, h.succeeded hrun⟩
  guarded := h.guarded

/-- A savepoint that cannot be set. -/
theorem Runs.notSet {server : Server E} {reply : Reply}
    (hset : (server.execute (.savepoint name) reply).2 = false)
    (h : Runs k outer (server.execute (.savepoint name) reply).1 true run) :
    Runs k outer server failed
      { run with trace := .savepoint [(.savepoint, false)] true .finished run.trace } where
  keeps := h.keeps
  committed := h.committed.trans (Server.refused_committed hset)
  clean := by
    intro work hrun
    simp [h.marked] at hrun
  marked := by simp [h.marked, Trace.scopeFailed]
  succeeded := by
    intro hrun
    simp [h.marked] at hrun
  guarded := ⟨(by simp [Trace.scopeFailed]), trivial, h.guarded⟩

/-- A savepoint in front of a callback. -/
theorem Runs.savepoint {server opened : Server E}
    {inner : Savepoints E} (hphase : server.phase = .active work (inner ++ outer))
    (hopened : opened.Clean work ((name, work) :: (inner ++ outer)))
    (hcommitted : opened.committed = server.committed)
    (hcallback : Runs name ((name, work) :: (inner ++ outer)) opened false callback)
    (hsettled : Settles name (inner ++ outer) work (work ++ callback.trace.survivors)
      callback.statementFailed callback.server settled)
    (h : Runs k outer settled.server (failed || settled.recoveryFailed) run) :
    Runs k outer server failed
      { run with
        trace := .savepoint ((.savepoint, true) :: settled.commands) settled.threw callback.trace
          run.trace } where
  keeps := h.keeps
  committed := by
    rw [h.committed, hsettled.committed, hcallback.committed, hcommitted]
  clean := by
    intro work₀ hrun hclean
    have hmarked := h.marked.symm.trans hrun
    simp only [Bool.or_eq_false_iff] at hmarked
    have hsame := hclean.2.symm.trans hphase
    simp only [Phase.active.injEq] at hsame
    obtain ⟨rfl, houter⟩ := hsame
    have hscope := hsettled.clean hmarked.1.2
    rw [← houter] at hscope
    have hrest := h.clean hrun hscope
    simp only [Trace.survivors]
    split
    · next hthrew => simpa [hthrew] using hrest
    · next hthrew => simpa [hthrew] using hrest
  marked := by
    rw [h.marked, Trace.scopeFailed, hsettled.recoveryFailed, Bool.or_assoc]
  succeeded := by
    intro hrun
    refine ⟨?_, h.succeeded hrun⟩
    intro hthrew
    apply hcallback.succeeded
    cases hfailed : callback.statementFailed with
    | false => rfl
    | true =>
      have hthrown := (hsettled.rolledBackFirst hfailed).1
      rw [hthrew] at hthrown
      cases hthrown
  guarded := by
    refine ⟨?_, hcallback.guarded, h.guarded⟩
    intro hscope
    apply hsettled.rolledBackFirst
    rw [hcallback.marked, hscope, Bool.or_true]

theorem sequence_le (body : Body E) (server : Server E) (sequence : Nat) (failed : Bool) :
    sequence ≤ (runBody body server sequence failed).savepointSequence := by
  induction body generalizing server sequence failed with
  | ends thrown => exact Nat.le_refl _
  | statement e reply rest ih => exact ih _ _ _
  | savepoint replies callback rest ihCallback ih =>
    simp only [runBody]
    split
    · have hcallback := ihCallback (server.execute (.savepoint (sequence + 1)) replies.savepoint).1
        (sequence + 1) false
      exact Nat.le_trans (Nat.le_of_succ_le hcallback) (ih _ _ _)
    · exact Nat.le_trans (Nat.le_succ _) (ih _ _ _)

theorem runBody_runs {sequence : Nat} {body : Body E} {server : Server E} (hkeeps : server.Keeps k outer)
    (hk : k ≤ sequence) : Runs k outer server failed (runBody body server sequence failed) := by
  induction body generalizing server sequence failed k outer with
  | ends thrown =>
    exact ⟨hkeeps, rfl, fun _ hclean => by simpa [runBody, Trace.survivors] using hclean,
      by simp [runBody, Trace.scopeFailed], fun _ => trivial, trivial⟩
  | statement e reply rest ih =>
    exact Runs.statement hkeeps (ih (hkeeps.effect e reply).1 hk)
  | savepoint replies callback rest ihCallback ih =>
    cases hset : (server.execute (.savepoint (sequence + 1)) replies.savepoint).2 with
    | false =>
      simp only [runBody, hset, Bool.false_eq_true, if_false]
      exact Runs.notSet hset (ih (hkeeps.refused hset) (Nat.le_succ_of_le hk))
    | true =>
      obtain ⟨inner, work, hinner, hphase, hopened, hcommitted⟩ := hkeeps.savepoint hset
      simp only [runBody, hset, if_true]
      have hcallback : Runs _ _ _ false (runBody callback _ (sequence + 1) false) :=
        ihCallback hopened.keeps (Nat.le_refl (sequence + 1))
      have hsettled := settleSavepoint_settles hcallback.keeps
        (fun hmarked => hcallback.clean hmarked hopened) replies
      have hname : k < sequence + 1 := Nat.lt_succ_of_le hk
      refine Runs.savepoint hphase hopened hcommitted hcallback hsettled
        (ih (hsettled.scopeKeeps hname hinner) ?_)
      exact Nat.le_trans (Nat.le_of_lt hname) (sequence_le _ _ _ _)

/-- How a callback ends. -/
def Body.thrown : Body E → Option Thrown
  | .ends thrown => thrown
  | .statement _ _ rest => rest.thrown
  | .savepoint _ _ rest => rest.thrown

theorem runBody_thrown (body : Body E) (server : Server E) (sequence : Nat) (failed : Bool) :
    (runBody body server sequence failed).thrown = body.thrown := by
  induction body generalizing server sequence failed with
  | ends thrown => rfl
  | statement e reply rest ih => exact ih _ _ _
  | savepoint replies callback rest _ ih =>
    simp only [runBody]
    split
    · exact ih _ _ _
    · exact ih _ _ _

/-! ## Transactions -/

variable {toUpperCase : String → String}

/-- What the commit of a transaction was answered with, where it was sent. -/
def Outcome.answer (toUpperCase : String → String) (outcome : Outcome E) : Option CommitAnswer :=
  outcome.commit.map (commitAnswer toUpperCase)

/-- The call resolves or throws an `ActiveTsCommittedTransactionError`. -/
def Outcome.ReportsCommit (outcome : Outcome E) : Prop :=
  outcome.result = .ok () ∨ ∃ error, outcome.result = .error error ∧ error.isCommitted = true

/-- A transaction that commits exactly what succeeded. `committed` is what was durable before it and
`thrown` how its callback ended. -/
structure Outcome.CommitsWhatSucceeded (toUpperCase : String → String) (committed : List E)
    (thrown : Option Thrown) (outcome : Outcome E) : Prop where
  /-- A commit is reported only where it was acknowledged, but for a callback that throws the error of
  another transaction. -/
  reports : outcome.ReportsCommit → outcome.answer toUpperCase = some .committed ∨
    thrown = some .committedTransaction ∧ outcome.result = .error (.callback .committedTransaction) ∧
      outcome.commit = none ∧ outcome.server.committed = committed
  acknowledged : outcome.answer toUpperCase = some .committed →
    outcome.ReportsCommit ∧ outcome.server.committed = committed ++ outcome.trace.survivors ∧
      outcome.trace.SurvivorsSucceeded
  rollbackConfirmed : outcome.rollbackConfirmed = true → outcome.server.committed = committed
  guarded : outcome.trace.Guarded
  rootFailed : outcome.trace.scopeFailed = true →
    outcome.commit = none ∧ outcome.server.committed = committed
  unanswered : outcome.answer toUpperCase = some .unknown →
    outcome.result = .error (.unknownOutcome .commit) ∧ outcome.rollbackConfirmed = false

theorem abort_server (replies : Replies toUpperCase) (server : Server E) (error : TransactionError)
    (commit : Option (Option CommitResult)) (trace : Trace E) :
    (abortTransaction replies server error commit trace).server.committed = server.committed := by
  simp only [abortTransaction]
  split <;> exact Server.rollback_committed _ _

/-- The result of a transaction that is rolled back, and what it keeps. -/
theorem abort_result (replies : Replies toUpperCase) (server : Server E) (error : TransactionError)
    (commit : Option (Option CommitResult)) (trace : Trace E) :
    ((abortTransaction replies server error commit trace).result = .error error ∨
      (abortTransaction replies server error commit trace).result =
        .error (.unknownOutcome .abort)) ∧
    (abortTransaction replies server error commit trace).commit = commit ∧
    (abortTransaction replies server error commit trace).trace = trace := by
  simp only [abortTransaction]
  split
  · exact ⟨.inl rfl, rfl, rfl⟩
  · exact ⟨.inr rfl, rfl, rfl⟩

/-- A transaction whose commit is not sent, or answered with `ROLLBACK`, is sound where nothing was
committed before. -/
theorem abort_commitsWhatSucceeded (replies : Replies toUpperCase) {server : Server E}
    {error : TransactionError} {commit : Option (Option CommitResult)} {trace : Trace E}
    (hcommitted : server.committed = committed)
    (herror : error.isCommitted = true → thrown = some .committedTransaction ∧
      error = .callback .committedTransaction ∧ commit = none)
    (hcommit : commit = none ∨
      commit.map (commitAnswer toUpperCase) = some .rolledBack ∧ trace.scopeFailed = false)
    (hguarded : trace.Guarded) :
    (abortTransaction replies server error commit trace).CommitsWhatSucceeded toUpperCase committed
      thrown := by
  have hserver := (abort_server replies server error commit trace).trans hcommitted
  obtain ⟨hresult, hsent, htrace⟩ := abort_result replies server error commit trace
  have hanswer : (abortTransaction replies server error commit trace).answer toUpperCase =
      commit.map (commitAnswer toUpperCase) := by rw [Outcome.answer, hsent]
  have hanswered : commit.map (commitAnswer toUpperCase) = none ∨
      commit.map (commitAnswer toUpperCase) = some .rolledBack := by
    obtain rfl | ⟨h, -⟩ := hcommit
    · exact .inl rfl
    · exact .inr h
  constructor
  · rintro (hok | ⟨thrownError, he, hclass⟩)
    · obtain h | h := hresult <;> (rw [hok] at h; cases h)
    · right
      obtain h | h := hresult
      · rw [h] at he
        cases he
        obtain ⟨hthrown, rfl, hnone⟩ := herror hclass
        exact ⟨hthrown, h, hsent.trans hnone, hserver⟩
      · rw [h] at he
        cases he
        cases hclass
  · intro h
    rw [hanswer] at h
    obtain h' | h' := hanswered <;> (rw [h'] at h; cases h)
  · exact fun _ => hserver
  · rwa [htrace]
  · intro h
    rw [htrace] at h
    obtain hnone | ⟨-, hfalse⟩ := hcommit
    · exact ⟨hsent.trans hnone, hserver⟩
    · rw [hfalse] at h
      cases h
  · intro h
    rw [hanswer] at h
    obtain h' | h' := hanswered <;> (rw [h'] at h; cases h)

/-- A commit that is acknowledged is one that the server carried out. -/
theorem executeCommit_committed {server : Server E} (hclean : server.Clean work outer)
    (reply : CommitReply toUpperCase)
    (h : commitAnswer toUpperCase (executeCommit server reply).2 = .committed) :
    (executeCommit server reply).1.committed = server.committed ++ work := by
  unfold executeCommit at h ⊢
  rw [if_pos hclean.1] at h ⊢
  cases reply with
  | delivered delivery => simp [Server.commit, hclean.2]
  | error => cases h
  | lost applied => cases h

theorem executeCommit_rolledBack {server : Server E} (hclean : server.Clean work outer)
    (reply : CommitReply toUpperCase) :
    commitAnswer toUpperCase (executeCommit server reply).2 ≠ .rolledBack := by
  unfold executeCommit
  rw [if_pos hclean.1]
  cases reply with
  | delivered delivery =>
    intro h
    have htag := delivery.rolledBack _ h
    simp [Server.commit, hclean.2] at htag
  | error => exact CommitAnswer.noConfusion
  | lost applied => exact CommitAnswer.noConfusion

theorem commit_commitsWhatSucceeded (replies : Replies toUpperCase) {server : Server E}
    {trace : Trace E} (hclean : server.Clean trace.survivors [])
    (hcommitted : server.committed = committed) (hsucceeded : trace.SurvivorsSucceeded)
    (hguarded : trace.Guarded) (hroot : trace.scopeFailed = false) :
    (commitTransaction replies server trace).CommitsWhatSucceeded toUpperCase committed thrown := by
  unfold commitTransaction
  cases hanswer : commitAnswer toUpperCase (executeCommit server replies.commit).2 with
  | committed =>
    have hanswered : (some (executeCommit server replies.commit).2).map
        (commitAnswer toUpperCase) = some .committed := by rw [Option.map_some, hanswer]
    simp only [hanswer]
    constructor
    · exact fun _ => .inl hanswered
    · intro _
      refine ⟨?_, ?_, hsucceeded⟩
      · cases hrelease : replies.releaseThrows with
        | true => exact .inr ⟨.releaseFailed, by simp, rfl⟩
        | false => exact .inl (by simp)
      · rw [executeCommit_committed hclean replies.commit hanswer, hcommitted]
    · exact fun h => Bool.noConfusion h
    · exact hguarded
    · intro h
      rw [hroot] at h
      cases h
    · intro h
      rw [Outcome.answer, hanswered] at h
      cases h
  | rolledBack => exact absurd hanswer (executeCommit_rolledBack hclean _)
  | unknown =>
    have hanswered : (some (executeCommit server replies.commit).2).map
        (commitAnswer toUpperCase) = some .unknown := by rw [Option.map_some, hanswer]
    simp only [hanswer]
    constructor
    · rintro (h | ⟨error, he, hclass⟩)
      · cases h
      · cases he
        cases hclass
    · intro h
      rw [Outcome.answer, hanswered] at h
      cases h
    · exact fun h => Bool.noConfusion h
    · exact hguarded
    · intro h
      rw [hroot] at h
      cases h
    · exact fun _ => ⟨rfl, rfl⟩

theorem runCallback_commitsWhatSucceeded (replies : Replies toUpperCase) (body : Body E)
    {server : Server E} (hclean : server.Clean [] []) (hcommitted : server.committed = committed) :
    (runCallback replies body server).CommitsWhatSucceeded toUpperCase committed body.thrown := by
  have hruns : Runs 0 [] server false (runBody body server 0 false) :=
    runBody_runs hclean.keeps (Nat.le_refl 0)
  have hserver := hruns.committed.trans hcommitted
  unfold runCallback
  cases hthrown : (runBody body server 0 false).thrown with
  | some thrown =>
    simp only [hthrown]
    refine abort_commitsWhatSucceeded replies hserver ?_ (.inl rfl) hruns.guarded
    intro hclass
    rw [runBody_thrown] at hthrown
    cases thrown with
    | committedTransaction => exact ⟨hthrown, rfl, rfl⟩
    | other => cases hclass
  | none =>
    cases hmarked : (runBody body server 0 false).statementFailed with
    | true =>
      simp only [hthrown, hmarked, if_true]
      exact abort_commitsWhatSucceeded replies hserver (fun h => Bool.noConfusion h) (.inl rfl)
        hruns.guarded
    | false =>
      simp only [hthrown, hmarked, Bool.false_eq_true, if_false]
      have hroot := hruns.marked.symm.trans hmarked
      exact commit_commitsWhatSucceeded replies (hruns.clean hmarked hclean) hserver
        (hruns.succeeded hmarked) hruns.guarded (by simpa using hroot)

/-- Every run of a transaction on a client of the pool commits exactly what succeeded in it. -/
theorem transaction_commitsWhatSucceeded (replies : Replies toUpperCase) (body : Body E)
    (connected : Bool) (committed : List E) :
    (transaction replies body (Server.pooled connected committed)).CommitsWhatSucceeded toUpperCase
      committed body.thrown := by
  unfold transaction
  cases hbegun : ((Server.pooled connected committed).execute .beginTransaction
      replies.beginTransaction).2 with
  | false =>
    simp only [hbegun, Bool.false_eq_true, if_false]
    exact abort_commitsWhatSucceeded replies (Server.refused_committed hbegun)
      (fun h => Bool.noConfusion h) (.inl rfl) trivial
  | true =>
    obtain ⟨hclean, hcommitted⟩ := Server.pooled_begin connected committed hbegun
    cases hconfig : replies.setConfig with
    | none =>
      simp only [hbegun, if_true]
      exact runCallback_commitsWhatSucceeded replies body hclean hcommitted
    | some reply =>
      simp only [hbegun, if_true]
      cases hset : (((Server.pooled connected committed).execute .beginTransaction
          replies.beginTransaction).1.execute .query reply).2 with
      | false =>
        simp only [Bool.false_eq_true, if_false]
        exact abort_commitsWhatSucceeded replies
          ((Server.refused_committed hset).trans hcommitted) (fun h => Bool.noConfusion h)
          (.inl rfl) trivial
      | true =>
        rw [if_pos rfl, hclean.query hset]
        exact runCallback_commitsWhatSucceeded replies body hclean hcommitted

/-- A callback that throws the error of another transaction is rolled back, and the call throws that
error although no commit was sent. A savepoint with a failed statement is released after it is rolled
back to. -/
theorem callbackError_reportsCommit :
    ((@transaction Nat id
        ⟨.success, none, .error, .success, false⟩ (.ends (some .committedTransaction))
        (Server.pooled true [])).ReportsCommit ∧
      (@transaction Nat id
        ⟨.success, none, .error, .success, false⟩ (.ends (some .committedTransaction))
        (Server.pooled true [])).commit = none) ∧
    (@transaction Nat id
      ⟨.success, none, .error, .success, false⟩
      (.savepoint ⟨.success, .success, .success, .success⟩ (.statement 1 .error (.ends none))
        (.ends none))
      (Server.pooled true [])).trace =
      .savepoint [(.savepoint, true), (.rollbackTo, true), (.release, true)] true
        (.statement 1 false .finished) .finished :=
  ⟨⟨.inr ⟨.callback .committedTransaction, rfl, rfl⟩, rfl⟩, rfl⟩

end ActiveTs.Sql.PostgresTransactions
