import Nplex.Client.Steps
import Nplex.Transaction.Lifecycle

/-!
# A submit that throws

The whole call of `submit`, with the `push_command` it ends in. All its early exits throw before
they change the transaction. `push_command` throws when the queue is full, and by then the
transaction is SUBMITTED: it keeps its promise, but it is in no queue and can be submitted no more.
-/

namespace Nplex

open Nplex.Common

namespace Client

/-- `client_impl::push_command`, and whether it throws. -/
def pushCommand (c : Client) (command : Command) : Client × Bool :=
  if c.isClosed then (c, false)
  else if c.commandLimit ≤ c.commands.length then (c, true)
  else
    let c := { c with commands := c.commands ++ [command] }
    (if c.commands.length = 1 then { c with async := true } else c, false)

/-- The queue of the commands is full, or the 32-bit limit wraps below its length. -/
def queueFull (c : Client) : Bool := !c.isClosed && c.commandLimit ≤ c.commands.length

/-- A full queue is what makes `push_command` throw. -/
theorem pushCommand_throws (c : Client) (command : Command) :
    (c.pushCommand command).2 = c.queueFull := by
  unfold pushCommand queueFull
  cases c.isClosed with
  | true => rfl
  | false =>
    simp only [Bool.false_eq_true, if_false, Bool.not_false, Bool.true_and]
    split
    · next hfull => simp [hfull]
    · next hfull => simp [hfull]

/-- On a closed client, the check of a `push_command` ends it. -/
theorem pushCheck_of_closed {globMatch : Glob} {c : Client} {n : ℕ} {p : Push}
    (hpush : c.pushes[n]? = some p) (hclosed : c.isClosed = true) :
    c.stepRaw globMatch (.pushCheck n) =
      some ((pushCommand { c with pushes := c.pushes.eraseIdx n } p.command).1.endPush p) := by
  have hcommand : pushCommand { c with pushes := c.pushes.eraseIdx n } p.command =
      ({ c with pushes := c.pushes.eraseIdx n }, false) := if_pos hclosed
  simp only [stepRaw, hpush, hclosed, if_true, hcommand]

/-- Under the mutex, an overflow changes nothing. -/
theorem pushLocked_eq {c : Client} {p : Push} (hopen : c.isClosed = false) (hstop : p.stop = false) :
    c.pushLocked p =
      if (c.pushCommand p.command).2 then c else (c.pushCommand p.command).1.endPush p := by
  unfold pushLocked enqueue pushCommand
  by_cases hfull : c.commandLimit ≤ c.commands.length
  · simp [hfull, hopen, hstop]
  · simp [hfull, hopen]

/-- Otherwise a `push_command` that no other thread comes between does its work in two steps. -/
theorem pushLocked_of_open {globMatch : Glob} {c : Client} {n : ℕ} {p : Push}
    (hpush : c.pushes[n]? = some p) (hopen : c.isClosed = false) (hstop : p.stop = false) :
    ∃ c', c.stepRaw globMatch (.pushCheck n) = some c' ∧
      c'.stepRaw globMatch (.pushLocked n) = some
        (if (pushCommand { c with pushes := c.pushes.eraseIdx n } p.command).2 then
          { c with pushes := c.pushes.eraseIdx n }
        else (pushCommand { c with pushes := c.pushes.eraseIdx n } p.command).1.endPush p) := by
  refine ⟨{ c with pushes := c.pushes.set n { p with checked := true } }, ?_, ?_⟩
  · simp only [stepRaw, hpush, hopen, Bool.false_eq_true, if_false]
  · have hset : (c.pushes.set n { p with checked := true })[n]? = some { p with checked := true } :=
      List.getElem?_set_self (List.getElem?_eq_some_iff.mp hpush).1
    have herase : (c.pushes.set n { p with checked := true }).eraseIdx n = c.pushes.eraseIdx n :=
      List.eraseIdx_set_eq
    simp only [stepRaw, hset, if_true, herase]
    exact congrArg some (pushLocked_eq (p := { p with checked := true }) hopen hstop)

end Client

namespace Transaction

/-- The whole call of `transaction_impl::submit` on the transaction `t` of a client, none if the
client is gone. -/
def submitCall (tx : Transaction) (t : ℕ) (force : Bool) (client : Option Client) :
    Transaction × Option Client × TxReport :=
  match tx.submit force client.isSome with
  | .error e => (tx, client, .thrown e)
  | .ok (.done tx) => (tx, client, .future)
  | .ok (.push tx) =>
    match client with
    | none => (tx, none, .future)
    | some c =>
      match c.pushCommand (.request (.submit t force)) with
      | (c, true) => (tx, some c, .overflow)
      | (c, false) => (tx.takeFuture, some c, .future)

/-- The submit gets as far as `push_command`, if the client is there. -/
def mayPush (tx : Transaction) (force : Bool) : Bool :=
  tx.state = .opened && !tx.readOnly && (force || tx.hasModifications && !tx.dirty) &&
    !(force && tx.user.map User.canForce == some false)

/-- A submit of a client that is there goes to `push_command`, or ends before. -/
theorem submit_of_client (tx : Transaction) (force : Bool) :
    (tx.mayPush force = true ∧ tx.state = .opened ∧
      tx.submit force true = .ok (.push { tx with state := .submitted })) ∨
    (tx.mayPush force = false ∧ ∀ tx', tx.submit force true ≠ .ok (.push tx')) := by
  unfold mayPush submit
  by_cases hopen : tx.state = .opened
  swap
  · exact Or.inr ⟨by simp [hopen], by simp [hopen]⟩
  rw [if_neg (by simp [hopen])]
  have hset : tx.setState .submitted = { tx with state := .submitted } := by
    simp [setState, hopen, TxState.isClosed]
  cases hreadOnly : tx.readOnly with
  | true => exact Or.inr ⟨by simp, by simp [finish_ne_push]⟩
  | false =>
    cases force with
    | true =>
      cases huser : tx.user.map User.canForce == some false with
      | true => exact Or.inr ⟨by simp, by simp [finish_ne_push]⟩
      | false => exact Or.inl ⟨by simp [hopen], hopen, by simp [hset, hreadOnly]⟩
    | false =>
      cases hmodified : tx.hasModifications with
      | false => exact Or.inr ⟨by simp, by simp [finish_ne_push]⟩
      | true =>
        cases hdirty : tx.dirty with
        | true => exact Or.inr ⟨by simp, by simp [finish_ne_push]⟩
        | false => exact Or.inl ⟨by simp [hopen], hopen, by simp [hset, hreadOnly, hdirty]⟩

/-- A client that is gone is found out before the transaction is changed. -/
theorem submit_of_none {tx tx' : Transaction} {force : Bool} : tx.submit force false ≠ .ok (.push tx') := by
  intro h
  have hgone := (submit_push h).2.2.1
  cases hgone

/-- The call finds the queue full after the transaction has been made SUBMITTED. -/
def overflows (tx : Transaction) (force : Bool) (client : Option Client) : Bool :=
  tx.mayPush force && client.any Client.queueFull

/-- What the call does to the transaction: nothing when it throws, unless the queue is full. -/
theorem submitCall_throws (tx : Transaction) (t : ℕ) (force : Bool) (client : Option Client) :
    if tx.overflows force client then
      (tx.submitCall t force client).2.2 = .overflow ∧ tx.state = .opened ∧
        (tx.submitCall t force client).1 = { tx with state := .submitted }
    else (tx.submitCall t force client).2.2 ≠ .future → (tx.submitCall t force client).1 = tx := by
  have hends : ∀ alive, alive = client.isSome → (∀ tx', tx.submit force alive ≠ .ok (.push tx')) →
      (tx.submitCall t force client).2.2 ≠ .future → (tx.submitCall t force client).1 = tx := by
    rintro alive rfl hnot
    unfold submitCall
    cases hsubmit : tx.submit force client.isSome with
    | error e => exact fun _ => rfl
    | ok step =>
      cases step with
      | done tx' => exact fun hfuture => absurd rfl hfuture
      | push tx' => exact absurd hsubmit (hnot tx')
  cases client with
  | none =>
    rw [if_neg (by simp [overflows])]
    exact hends false rfl fun tx' => submit_of_none
  | some c =>
    rcases tx.submit_of_client force with ⟨hmay, hopen, hpush⟩ | ⟨hmay, hnot⟩
    · have hthrows := c.pushCommand_throws (.request (.submit t force))
      unfold submitCall overflows
      simp only [hmay, Option.any_some, Option.isSome_some, hpush, Bool.true_and]
      generalize c.pushCommand (.request (.submit t force)) = r at hthrows ⊢
      obtain ⟨c', throws⟩ := r
      dsimp only at hthrows
      subst hthrows
      cases c.queueFull with
      | true => exact ⟨rfl, hopen, rfl⟩
      | false => exact fun hfuture => absurd rfl hfuture
    · rw [if_neg (by simp [overflows, hmay])]
      exact hends true rfl hnot

/-- The operations on a transaction include the whole call. -/
theorem submitCall_apply (globMatch : Glob) (tx : Transaction) (t : ℕ) (force : Bool)
    (client : Option Client) :
    tx.apply globMatch (.submit force client.isSome (!client.any Client.queueFull)) =
      ((tx.submitCall t force client).1, (tx.submitCall t force client).2.2) := by
  unfold apply submitCall
  dsimp only
  cases hsubmit : tx.submit force client.isSome with
  | error e => rfl
  | ok step =>
    cases step with
    | done tx' => rfl
    | push tx' =>
      cases client with
      | none => exact absurd hsubmit submit_of_none
      | some c =>
        have hthrows := c.pushCommand_throws (.request (.submit t force))
        simp only [Option.any_some]
        generalize c.pushCommand (.request (.submit t force)) = r at hthrows ⊢
        obtain ⟨c', throws⟩ := r
        have hfull : c.queueFull = throws := hthrows.symm
        cases throws with
        | true => simp [hfull]
        | false => simp [hfull]

/-- A submit that throws leaves the transaction exactly as before the call, unless it goes to
`push_command` and finds the queue of the client full. -/
theorem submit_throws_unchanged_iff (tx : Transaction) (t : ℕ) (force : Bool)
    (client : Option Client) :
    ((tx.submitCall t force client).2.2 ≠ .future → (tx.submitCall t force client).1 = tx) ↔
      tx.overflows force client = false := by
  have hcall := tx.submitCall_throws t force client
  cases hover : tx.overflows force client with
  | true =>
    rw [hover, if_pos rfl] at hcall
    obtain ⟨hreport, hopen, hafter⟩ := hcall
    refine iff_of_false (fun hsame => ?_) (by simp)
    have htx := hsame (by simp [hreport])
    rw [hafter] at htx
    have hstate := congrArg Transaction.state htx
    simp [hopen] at hstate
  | false =>
    rw [hover, if_neg (by simp)] at hcall
    exact iff_of_true hcall rfl

/-- With room for one transaction, four pings that wait in the queue make the submit throw, and
the transaction is SUBMITTED. -/
theorem full_queue_leaves_submitted :
    ¬∀ (events : List Event) (c : Client) (t : ℕ) (cell : TxCell) (force : Bool),
      Run (Client.step fun _ _ => true) anyStep (Client.create [1] [2] 1 0 1 false) events c →
      c.txs[t]? = some cell → (cell.tx.submitCall t force (some c)).2.2 ≠ .future →
        (cell.tx.submitCall t force (some c)).1 = cell.tx := by
  intro h
  have hexec : (execute (Client.step fun _ _ => true) (fun _ _ => true)
      (Client.create [1] [2] 1 0 1 false)
      [.start none, .connected 0, .read 0,
        .message (some (.loginResponse ⟨.authorized, 0, 0, true, true, 10, [⟨15, [42]⟩]⟩)) false,
        .readEnd, .createTx .readCommitted false,
        .ping [], .pushCheck 0, .pushLocked 0, .ping [], .pushCheck 0, .pushLocked 0,
        .ping [], .pushCheck 0, .pushLocked 0, .ping [], .pushCheck 0, .pushLocked 0]).map
      (fun c => (c.txs[0]?.map fun cell => (cell.tx.overflows true (some c)))) = some (some true) := by
    decide +kernel
  obtain ⟨c, hrun, hend⟩ := exists_run_of_execute (fun _ _ _ => trivial) hexec
  obtain ⟨cell, hcell, hover⟩ := Option.map_eq_some_iff.mp hend
  have hcall := cell.tx.submitCall_throws 0 true (some c)
  rw [hover, if_pos rfl] at hcall
  obtain ⟨hreport, hopen, hafter⟩ := hcall
  have htx := h _ c 0 cell true hrun hcell (by simp [hreport])
  rw [hafter] at htx
  have hstate := congrArg Transaction.state htx
  simp [hopen] at hstate

end Transaction

end Nplex
