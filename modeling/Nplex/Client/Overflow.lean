import Nplex.Client.SubmitOnce

/-!
# The limit of the command queue

`push_command` refuses a command when `max_active_txs + 3` of them wait, counted in 32 bits. There
is room for the submit of each transaction in `m_transactions` and for one close, one ping and one
sessions request; a submit counts from the moment its `push_command` has found the client open.
The sum wraps for the largest values of `max_active_txs`, one of which stands for 0.
-/

namespace Nplex

open Nplex.Common

/-- The command is a submit. -/
def Command.isSubmit (command : Command) : Bool := command.submitted.isSome

/-- The command is a close. -/
def Command.isClose : Command → Bool
  | .close => true
  | .request _ => false

/-- The command is a ping. -/
def Command.isPing : Command → Bool
  | .request (.ping _ _) => true
  | .close | .request (.submit _ _) | .request (.sessions _ _) => false

/-- The command is a sessions request. -/
def Command.isSessions : Command → Bool
  | .request (.sessions _ _) => true
  | .close | .request (.submit _ _) | .request (.ping _ _) => false

namespace Client

/-- At most one close, one ping and one sessions request wait. -/
def fewOthers (c : Client) : Bool :=
  c.commands.countP Command.isClose ≤ 1 && c.commands.countP Command.isPing ≤ 1 &&
    c.commands.countP Command.isSessions ≤ 1

/-- The commands fit into the queue, and so does every submit whose `push_command` has found the
client open, as long as the others are few. -/
def Roomy (c : Client) : Prop :=
  c.fewOthers = true → c.commands.length ≤ c.commandLimit ∧
    ∀ p ∈ c.pushes, p.checked = true → p.command.isSubmit = true →
      c.commands.length < c.commandLimit

/-- The submits in the queue, and those that are bound for it whatever becomes of the client. -/
def bound (c : Client) : ℕ :=
  c.commands.countP Command.isSubmit + c.pushes.countP fun p => p.checked && p.command.isSubmit

section Counting

variable {c c' : Client}

/-- Every command is of one kind. -/
theorem length_eq_kinds (commands : List Command) :
    commands.length = commands.countP Command.isSubmit + commands.countP Command.isClose +
      commands.countP Command.isPing + commands.countP Command.isSessions := by
  induction commands with
  | nil => rfl
  | cons command rest ih =>
    simp only [List.length_cons, List.countP_cons, ih]
    cases command with
    | close => simp [Command.isSubmit, Command.submitted, Command.isClose, Command.isPing,
        Command.isSessions]; omega
    | request kind =>
      cases kind <;> simp [Command.isSubmit, Command.submitted, Command.isClose, Command.isPing,
        Command.isSessions] <;> omega

/-- Different indices of elements that satisfy a test are not more than these elements. -/
theorem length_le_countP {A : Type} {p : A → Bool} (xs : List A) {indices : List ℕ}
    (hnodup : indices.Nodup) (h : ∀ i ∈ indices, ∃ a, xs[i]? = some a ∧ p a = true) :
    indices.length ≤ xs.countP p := by
  induction xs using List.reverseRecOn generalizing indices with
  | nil =>
    cases indices with
    | nil => simp
    | cons i rest => simpa using h i (by simp)
  | append_singleton xs a ih =>
    have hrest := ih (hnodup.erase xs.length) fun i hi => by
      obtain ⟨hne, hi⟩ := (hnodup.mem_erase_iff).mp hi
      obtain ⟨b, hb, hpb⟩ := h i hi
      refine ⟨b, ?_, hpb⟩
      rcases Nat.lt_or_ge i xs.length with hlt | hge
      · rwa [List.getElem?_append_left hlt] at hb
      · rw [List.getElem?_append_right hge, List.getElem?_singleton] at hb
        split_ifs at hb with hzero
        omega
    rw [List.countP_append, List.countP_singleton]
    by_cases hlast : xs.length ∈ indices
    · obtain ⟨b, hb, hpb⟩ := h xs.length hlast
      obtain rfl : a = b := by simpa using hb
      rw [List.length_erase_of_mem hlast] at hrest
      rw [if_pos hpb]
      omega
    · rw [List.erase_of_not_mem hlast] at hrest
      omega

/-- In a client that was never closed, the submits on their way are those of different
transactions of `m_transactions`. -/
theorem bound_le_room (h : c.Backed) (hopen : ¬c.wasClosed) : c.bound ≤ c.maxActiveTxs := by
  have hcount : ∀ t, ((c.pushes.map Push.command ++ c.commands).filterMap
      Command.submitted).count t = c.unsent t := fun t => by
    rw [count_filterMap_submitted, List.countP_append, List.countP_map]
    rfl
  have hlength : c.bound ≤ ((c.pushes.map Push.command ++ c.commands).filterMap
      Command.submitted).length := by
    have hchecked : (c.pushes.countP fun p => p.checked && p.command.isSubmit) ≤
        c.pushes.countP fun p => p.command.isSubmit :=
      List.countP_mono_left fun p _ hp => (Bool.and_eq_true_iff.mp hp).2
    rw [List.length_filterMap_eq_countP, List.countP_append, List.countP_map]
    unfold bound
    change _ ≤ (c.pushes.countP fun p => p.command.isSubmit) + c.commands.countP Command.isSubmit
    omega
  refine (hlength.trans (length_le_countP c.txs ?_ fun t ht => ?_)).trans h.armed.room
  · refine List.nodup_iff_count_le_one.mpr fun t => ?_
    rw [hcount]
    exact (unsent_le_pending c t).trans (h.queued.once t)
  · have hne : c.unsent t ≠ 0 := by
      rw [← hcount]
      exact (List.count_pos_iff.mpr ht).ne'
    obtain ⟨cell, hcell, -, hregistered⟩ := h.armed.submitted t hne
    exact ⟨cell, hcell, hregistered.resolve_right hopen⟩

end Counting

section Steps

variable {globMatch : Glob} {c c' : Client}

/-- What is bound for the queue when the pushes and the commands get fewer. -/
theorem bound_le_of_fewer (hpushes : c'.pushes.Sublist c.pushes)
    (hcommands : c'.commands.Sublist c.commands) : c'.bound ≤ c.bound := by
  have hp := hpushes.countP_le (p := fun p => p.checked && p.command.isSubmit)
  have hc := hcommands.countP_le (p := Command.isSubmit)
  unfold bound
  omega

/-- Handlers that spare the commands add no submit. -/
theorem bound_le_of_spares (h : Spares c c') : c'.bound ≤ c.bound := by
  refine bound_le_of_fewer (h.pushes ▸ .refl _) ?_
  rcases h.commands with hsame | ⟨hcleared, -⟩
  · rw [hsame]
  · rw [hcleared]
    exact List.nil_sublist _

/-- The bound depends on the pushes and the commands. -/
theorem bound_congr (hpushes : c'.pushes = c.pushes) (hcommands : c'.commands = c.commands) :
    c'.bound = c.bound := by
  rw [bound, bound, hpushes, hcommands]

/-- A push that has not found the client open yet is not bound for the queue. -/
theorem bound_push {p : Push} (hp : p.checked = false) (hpushes : c'.pushes = c.pushes ++ [p])
    (hcommands : c'.commands = c.commands) : c'.bound ≤ c.bound := by
  rw [bound, bound, hpushes, hcommands, List.countP_append, List.countP_singleton, hp]
  exact le_rfl

/-- The end of a push is not about the queue. -/
theorem bound_endPush (c : Client) (p : Push) : (c.endPush p).bound = c.bound := by
  have hbacklog := endPush_backlog c p
  exact bound_congr (congrArg Backlog.pushes hbacklog) (congrArg Backlog.commands hbacklog)

/-- Nor is a method of a transaction. -/
theorem bound_onTx (c : Client) (t : ℕ) (f : Transaction → Transaction × Option TxError) :
    (c.onTx t f).bound = c.bound := by
  have hbacklog := onTx_backlog c t f
  exact bound_congr (congrArg Backlog.pushes hbacklog) (congrArg Backlog.commands hbacklog)

/-- What is bound for the queue reaches it. -/
theorem bound_pushLocked {n : ℕ} {p : Push} (hpush : c.pushes[n]? = some p)
    (hchecked : p.checked = true) :
    (pushLocked { c with pushes := c.pushes.eraseIdx n } p).bound ≤ c.bound := by
  have hcount := countP_eraseIdx_add hpush fun p => p.checked && p.command.isSubmit
  have herased : bound { c with pushes := c.pushes.eraseIdx n } ≤ c.bound :=
    bound_le_of_fewer (List.eraseIdx_sublist _ _) (.refl _)
  have hmoved : bound { c with
      pushes := c.pushes.eraseIdx n, commands := c.commands ++ [p.command] } ≤ c.bound := by
    unfold bound
    simp only [hchecked, Bool.true_and] at hcount
    simp only [List.countP_append, List.countP_singleton]
    omega
  unfold pushLocked enqueue
  split
  · split <;> exact herased
  · dsimp only
    split
    · exact (bound_endPush _ p).le.trans hmoved
    · exact (bound_endPush _ p).le.trans hmoved

/-- A submit that is taken from the queue leaves the others. -/
theorem processSubmitCmd_bound (c : Client) (t : ℕ) (force : Bool) :
    (c.processSubmitCmd t force).bound = c.bound := by
  unfold processSubmitCmd processRequest
  split
  · rfl
  · split
    · exact bound_onTx c t (·.setSubmitException .notConnected)
    · dsimp only
      generalize hmsg : ClientMsg.submit _ = msg
      have hledger := send_ledger { c with correlation := c.correlation + 1 } msg
      unfold andThen
      split
      · exact bound_congr (congrArg Ledger.pushes hledger) (congrArg Ledger.commands hledger)
      · exact bound_congr (congrArg Ledger.pushes hledger) (congrArg Ledger.commands hledger)

/-- Only the check of a push, which finds the client open, makes more bound for the queue. -/
theorem bound_effect {e : Event} (hended : c.ClosedAfterRun) (heffect : Effect globMatch c e c') :
    c'.bound ≤ c.bound ∨ c.state ≠ .closed ∧ c'.state = c.state := by
  by_cases htraffic : e.traffic = false
  · exact Or.inl (bound_le_of_spares (spares_effect hended htraffic heffect))
  cases heffect with
  | @command command rest _ hcommands =>
    have htaken : bound { c with commands := rest } ≤ c.bound := by
      refine bound_le_of_fewer (.refl _) ?_
      rw [hcommands]
      exact List.sublist_cons_self command rest
    refine Or.inl (le_trans ?_ htaken)
    cases command with
    | close => exact bound_le_of_spares (spares_abort _)
    | request kind =>
      cases kind with
      | submit t force => exact (processSubmitCmd_bound _ t force).le
      | ping ticket payload => exact bound_le_of_spares ((acts_processPingCmd _ ticket payload).spares rfl)
      | sessions ticket stream => exact bound_le_of_spares ((acts_processSessionsCmd _ ticket stream).spares rfl)
  | createTx =>
    rcases createTx_cases c _ _ with hsame | hpurge | ⟨tx, -, -, -, hcreate⟩
    · rw [hsame]
      exact Or.inl le_rfl
    · rw [hpurge]
      exact Or.inl le_rfl
    · rw [hcreate]
      exact Or.inl le_rfl
  | @submit t force cell =>
    refine Or.inl ?_
    unfold submitTx
    split
    · exact le_rfl
    · exact bound_push rfl rfl rfl
    · exact le_rfl
  | discard => exact Or.inl (bound_onTx c _ _).le
  | close => exact Or.inl (bound_push rfl rfl rfl)
  | stop => exact Or.inl (bound_push rfl rfl rfl)
  | pingRefused => exact Or.inl le_rfl
  | ping => exact Or.inl (bound_push rfl rfl rfl)
  | fetchRefused => exact Or.inl le_rfl
  | fetchSessions => exact Or.inl (bound_push rfl rfl rfl)
  | @pushClosed n p =>
    refine Or.inl ((bound_endPush _ p).le.trans ?_)
    exact bound_le_of_fewer (List.eraseIdx_sublist _ _) (.refl _)
  | pushCheck _ hopen => exact Or.inr ⟨hopen, rfl⟩
  | pushLocked hpush hchecked => exact Or.inl (bound_pushLocked hpush hchecked)
  | _ => exact absurd rfl htraffic

/-- The limit of the active transactions is that of the constructor. -/
theorem limit_effect {e : Event} (h : c.Backed) (hguard : c.sparesUnsent e = true)
    (heffect : Effect globMatch c e c') : c'.maxActiveTxs = c.maxActiveTxs := by
  by_cases hsubmit : ∃ t force, e = .submit t force
  · obtain ⟨t, force, rfl⟩ := hsubmit
    cases heffect
    unfold submitTx
    split <;> rfl
  by_cases hcreate : ∃ isolation readOnly, e = .createTx isolation readOnly
  · obtain ⟨isolation, readOnly, rfl⟩ := hcreate
    cases heffect
    rcases createTx_cases c isolation readOnly with hsame | hpurge | ⟨tx, -, -, -, hcreate⟩
    · rw [hsame]
    · rw [hpurge]
      rfl
    · rw [hcreate]
      rfl
  have hrelieves := relieves_effect h.queued hguard h.ended (fun t force heq => hsubmit ⟨t, force, heq⟩)
    (fun isolation readOnly heq => hcreate ⟨isolation, readOnly, heq⟩) heffect
  exact hrelieves.limit

/-- What bounds the queue of a client that does not leave CLOSED. -/
structure Bounded (max : ℕ) (c : Client) : Prop where
  backed : c.Backed
  clean : c.afterClosed = []
  limit : c.maxActiveTxs = max
  bound : c.bound ≤ max

/-- Every step that meets the conditions keeps the bound. -/
theorem bounded_step {max : ℕ} {e : Event} (h : c.Bounded max)
    (hguard : c.sparesUnsent e = true ∧ c.respectsClosed e = true)
    (hstep : c.step globMatch e = some c') : c'.Bounded max := by
  have hbacked := backed_step h.backed hguard.1 hstep
  have hclean := (absorbs_step hguard.2 hstep).clean.trans h.clean
  obtain ⟨-, c₁, heffect, rfl⟩ := step_effect hstep
  have hlimit : c₁.reap.maxActiveTxs = max := (limit_effect h.backed hguard.1 heffect).trans h.limit
  refine ⟨hbacked, hclean, hlimit, ?_⟩
  by_cases hclosed : c₁.state = .closed
  · rcases bound_effect h.backed.ended heffect with hle | ⟨hopen, hsame⟩
    · exact hle.trans h.bound
    · exact absurd (hsame.symm.trans hclosed) hopen
  · rw [← hlimit]
    refine bound_le_room hbacked ?_
    rintro (hstate | hmarked)
    · exact hclosed hstate
    · exact hmarked hclean

/-- The queue has room when its limit does not wrap. -/
theorem roomy_of_bound (h : c.bound ≤ c.maxActiveTxs) (hlimit : c.maxActiveTxs + 3 < 2 ^ 32) :
    c.Roomy := by
  intro hfew
  simp only [fewOthers, Bool.and_eq_true, decide_eq_true_eq] at hfew
  have hlength := length_eq_kinds c.commands
  have hmod : c.commandLimit = c.maxActiveTxs + 3 := Nat.mod_eq_of_lt hlimit
  unfold bound at h
  refine ⟨by omega, fun p hp hchecked hsubmit => ?_⟩
  have hpush : 0 < c.pushes.countP fun p => p.checked && p.command.isSubmit :=
    List.countP_pos_iff.mpr ⟨p, hp, by simp [hchecked, hsubmit]⟩
  omega

/-- The limits that are too large for the 32-bit sum: a third submit finds the queue full. -/
theorem overflows_of_wrap (max : ℕ)
    (hmax : max = 0 ∨ max = 2 ^ 32 - 3 ∨ max = 2 ^ 32 - 2 ∨ max = 2 ^ 32 - 1) :
    ∃ (events : List Event) (c : Client),
      Run (step fun _ _ => true) (fun c e => c.sparesUnsent e = true ∧ c.respectsClosed e = true)
        (create [1] [2] max 0 1 false) events c ∧ ¬c.Roomy := by
  have hexec : (execute (step fun _ _ => true) (fun c e => c.sparesUnsent e && c.respectsClosed e)
      (create [1] [2] max 0 1 false)
      [.start none, .connected 0, .read 0,
        .message (some (.loginResponse ⟨.authorized, 0, 0, true, true, 10, [⟨15, [42]⟩]⟩)) false,
        .readEnd, .createTx .readCommitted false, .createTx .readCommitted false,
        .createTx .readCommitted false, .submit 0 true, .submit 1 true, .submit 2 true,
        .pushCheck 0, .pushCheck 1, .pushCheck 2, .pushLocked 0, .pushLocked 0]).map (fun c =>
          (c.pushes, c.fewOthers && decide (c.commandLimit ≤ c.commands.length))) =
      some ([⟨.request (.submit 2 true), true, false⟩], true) := by
    rcases hmax with rfl | rfl | rfl | rfl <;> decide +kernel
  obtain ⟨c, hrun, hend⟩ := exists_run_of_execute (fun _ _ h => Bool.and_eq_true_iff.mp h) hexec
  obtain ⟨hpushes, hfull⟩ := Prod.mk.inj hend
  obtain ⟨hfew, hfull⟩ := Bool.and_eq_true_iff.mp hfull
  refine ⟨_, c, hrun, fun hroomy => ?_⟩
  have hlt := (hroomy hfew).2 _ (by rw [hpushes]; exact List.mem_singleton_self _) rfl rfl
  have hle := of_decide_eq_true hfull
  omega

/-- On the runs in which no transaction is discarded while its submit waits, and the client does
not leave CLOSED, no submit is refused for want of room exactly when `max_active_txs` is neither 0
nor one of the three values from which the 32-bit limit wraps. -/
theorem submits_find_room_iff (max : UInt32) :
    (∀ (globMatch : Glob) (user password : Bytes) (rev0 servers : ℕ) (hasReactor : Bool)
      (events : List Event) (c : Client),
      Run (step globMatch) (fun c e => c.sparesUnsent e = true ∧ c.respectsClosed e = true)
        (create user password max.toNat rev0 servers hasReactor) events c → c.Roomy) ↔
    0 < max.toNat ∧ max.toNat + 3 < 2 ^ 32 := by
  constructor
  · intro h
    have hrange := max.toNat_lt
    by_contra hnot
    obtain ⟨events, c, hrun, hfull⟩ := overflows_of_wrap max.toNat (by omega)
    exact hfull (h _ _ _ _ _ _ events c hrun)
  · intro hmax globMatch user password rev0 servers hasReactor events c hrun
    have hlimit : (create user password max.toNat rev0 servers hasReactor).maxActiveTxs =
        max.toNat := if_neg (by omega)
    have hinit : (create user password max.toNat rev0 servers hasReactor).Bounded max.toNat :=
      ⟨backed_create _ _ _ _ _ _, rfl, hlimit, Nat.zero_le _⟩
    have hlast := hrun.invariant (fun _ _ _ hguard hstep h => bounded_step h hguard hstep) hinit
    refine roomy_of_bound ?_ ?_
    · rw [hlast.limit]
      exact hlast.bound
    · rw [hlast.limit]
      exact hmax.2

/-- With `max_active_txs` = 0 the limit wraps to 2, and the third submit of a client is refused. -/
theorem unlimited_client_refuses :
    ¬∀ (max : UInt32) (events : List Event) (c : Client),
      Run (step fun _ _ => true) anyStep (create [1] [2] max.toNat 0 1 false) events c →
        c.Roomy := by
  intro h
  obtain ⟨events, c, hrun, hfull⟩ := overflows_of_wrap 0 (Or.inl rfl)
  exact hfull (h 0 events c (hrun.weaken fun _ _ _ => trivial))

end Steps

end Client

end Nplex
