/-
  The invariant of the payment system (`SystemOk`): a call works on payments and refunds that are
  there, and a payment that waits for its risk rules is in no other call's hands.  Every step
  keeps it (`step_systemOk`), and under it no step ends in an exception that the methods do not
  document (`step_not_raised`).

  The entries of `moneyMoved` are those of the tasks that the gateway processed with approval,
  each once (`Accounted`).  A success stands for an entry of its own as long as no task is
  answered with the result of another one (`OwnAnswers`): the gateway remembers results under the
  bare idempotency key, which the service scopes to a merchant or to a payment.
-/
import InterviewPrep.Payments.Invariant

namespace InterviewPrep.Payments

open Lib PaymentService Dict List Memory

def Call.tasks (call : Call) : List Task := call.task :: call.rest

/-- The payment that a call of `pay` has made is of its request. -/
def MethodOk (s : PaymentService) : Method → Prop
  | .pay request p => p < s.heap.next ∧ (s.heap.read p).request = request
  | _ => True

theorem PaymentService.Keeps.methodOk {s s' : PaymentService} (h : Keeps s s') {method : Method}
    (hmethod : MethodOk s method) : MethodOk s' method := by
  cases method with
  | pay request p =>
    exact ⟨Nat.lt_of_lt_of_le hmethod.1 h.next_le, (h.request p hmethod.1).trans hmethod.2⟩
  | refund | reconcile => trivial

namespace PaymentSystem

variable {s s' : PaymentSystem} {service : PaymentService} {call : Call} {c : Nat}

/-- What a call has in hand is there. -/
structure CallOk (service : PaymentService) (call : Call) : Prop where
  tasks : ∀ t ∈ call.tasks, service.TaskOk t
  method : MethodOk service call.method

theorem CallOk.keeps {service' : PaymentService} (h : CallOk service call)
    (hkeeps : Keeps service service') : CallOk service' call :=
  ⟨fun t ht => hkeeps.taskOk (h.tasks t ht), hkeeps.methodOk h.method⟩

/-- A call before the risk rules of a payment that is in progress. -/
structure AtRisk (service : PaymentService) (call : Call) (p : Ref) : Prop where
  phase : call.phase = .risk
  task : call.task = .charge p
  rest : call.rest = []
  status : (service.heap.read p).status = .processing

structure SystemOk (s : PaymentSystem) : Prop where
  service : s.service.ServiceOk
  call : ∀ c call, s.calls.get? c = some call → CallOk s.service call
  atRisk : ∀ c call, s.calls.get? c = some call → call.phase = .risk →
    ∃ p, AtRisk s.service call p
  /-- what waits for its risk rules is in no other call's hands -/
  alone : ∀ c call p c' call', s.calls.get? c = some call → AtRisk s.service call p →
    s.calls.get? c' = some call' → .charge p ∈ call'.tasks → c' = c

theorem new_systemOk (retry : RetryPolicy) (merchants : Dict String Merchant) :
    SystemOk (new retry merchants) := by
  refine ⟨⟨?_, ?_, ?_, ?_, ?_, ?_⟩, ?_, ?_, ?_⟩
  · intro n p h
    cases h
  · intro p hp
    exact absurd hp (Nat.not_lt_zero p)
  · intro k p h
    cases h
  · intro p hp
    exact absurd hp (Nat.not_lt_zero p)
  · intro p hp
    exact absurd hp (Nat.not_lt_zero p)
  · intro p hp
    exact absurd hp (Nat.not_lt_zero p)
  · intro c call h
    cases h
  · intro c call h
    cases h
  · intro c call p c' call' h
    cases h

/-! ## One call changes -/

/-- The table of calls after one call is written or taken out. -/
structure OneCall (calls : Dict Nat Call) (c : Nat) (new : Option Call) (calls' : Dict Nat Call) :
    Prop where
  other : ∀ c' call', c' ≠ c → (calls'.get? c' = some call' ↔ calls.get? c' = some call')
  self : calls'.get? c = new

theorem OneCall.set (calls : Dict Nat Call) (c : Nat) (call : Call) :
    OneCall calls c (some call) (calls.set c call) :=
  ⟨fun c' call' h => by rw [get?_set_of_ne _ _ h], get?_set_self _ _ _⟩

theorem OneCall.erase (calls : Dict Nat Call) (c : Nat) : OneCall calls c none (calls.erase c) :=
  ⟨fun c' call' h => by rw [get?_erase_of_ne _ h], get?_erase_self _ _⟩

variable {gateway : SimulatedGateway}

/-- The invariant after a step of the call `c`: it has none of the payments that the others have at
    risk. -/
theorem SystemOk.oneCall (h : SystemOk s)
    {calls : Dict Nat Call} {new : Option Call} (hcalls : OneCall s.calls c new calls)
    (hservice : service.ServiceOk) (hkeeps : Keeps s.service service)
    (hstatus : ∀ c' call' p, c' ≠ c → s.calls.get? c' = some call' → AtRisk s.service call' p →
      (service.heap.read p).status = .processing)
    (hnew : ∀ call, new = some call → CallOk service call)
    (hrisk : ∀ call, new = some call → call.phase = .risk → ∃ p, AtRisk service call p ∧
      ∀ c' call', c' ≠ c → s.calls.get? c' = some call' → .charge p ∉ call'.tasks)
    (hhands : ∀ call p, new = some call → .charge p ∈ call.tasks → ∀ c' call', c' ≠ c →
      s.calls.get? c' = some call' → ¬ AtRisk s.service call' p) :
    SystemOk ⟨gateway, service, calls⟩ := by
  -- another call is at risk as it was
  have hback : ∀ c' call' p, c' ≠ c → s.calls.get? c' = some call' → AtRisk service call' p →
      AtRisk s.service call' p := by
    intro c' call' p hne hget hat
    obtain ⟨q, hq⟩ := h.atRisk c' call' hget hat.phase
    have heq : q = p := Task.charge.inj (hq.task.symm.trans hat.task)
    exact heq ▸ hq
  refine ⟨hservice, fun c' call' hget => ?_, fun c' call' hget hphase => ?_,
    fun c1 call1 p c2 call2 hget1 hat hget2 hmem => ?_⟩
  · by_cases hne : c' = c
    · subst hne
      exact hnew call' (hcalls.self.symm.trans hget)
    · exact (h.call c' call' ((hcalls.other c' call' hne).mp hget)).keeps hkeeps
  · by_cases hne : c' = c
    · subst hne
      obtain ⟨p, hat, -⟩ := hrisk call' (hcalls.self.symm.trans hget) hphase
      exact ⟨p, hat⟩
    · have hget' := (hcalls.other c' call' hne).mp hget
      obtain ⟨p, hat⟩ := h.atRisk c' call' hget' hphase
      exact ⟨p, hat.phase, hat.task, hat.rest, hstatus c' call' p hne hget' hat⟩
  by_cases h1 : c1 = c
  · subst h1
    obtain ⟨q, hq, hothers⟩ := hrisk call1 (hcalls.self.symm.trans hget1) hat.phase
    have heq : q = p := Task.charge.inj (hq.task.symm.trans hat.task)
    subst heq
    by_contra hne
    exact hothers c2 call2 hne ((hcalls.other c2 call2 hne).mp hget2) hmem
  · have hget1' := (hcalls.other c1 call1 h1).mp hget1
    have hat' := hback c1 call1 p h1 hget1' hat
    by_cases h2 : c2 = c
    · subst h2
      exact absurd hat' (hhands call2 p (hcalls.self.symm.trans hget2) hmem c1 call1 h1 hget1')
    · exact h.alone c1 call1 p c2 call2 hget1' hat' ((hcalls.other c2 call2 h2).mp hget2) hmem

theorem SystemOk.withGateway (h : SystemOk s) (gateway : SimulatedGateway) :
    SystemOk { s with gateway } :=
  ⟨h.service, h.call, h.atRisk, h.alone⟩

theorem SystemOk.goOn (h : SystemOk s) {call' : Call} (hcall : s.calls.get? c = some call)
    (hservice : service.ServiceOk) (hkeeps : Keeps s.service service)
    (hstatus : ∀ p, .charge p ∉ call.tasks → (s.service.heap.read p).status = .processing →
      (service.heap.read p).status = .processing)
    (hmethod : call'.method = call.method) (hphase : call'.phase ≠ .risk)
    (htasks : ∀ t ∈ call'.tasks, t ∈ call.tasks) :
    SystemOk ⟨gateway, service, s.calls.set c call'⟩ := by
  have hothers : ∀ c' call'' p, c' ≠ c → s.calls.get? c' = some call'' →
      AtRisk s.service call'' p → .charge p ∉ call.tasks := by
    intro c' call'' p hne hget hat hmem
    exact hne (h.alone c' call'' p c call hget hat hcall hmem).symm
  refine h.oneCall (OneCall.set s.calls c call') hservice hkeeps
    (fun c' call'' p hne hget hat => ?_) ?_ ?_ ?_
  · exact hstatus p (hothers c' call'' p hne hget hat) hat.status
  · rintro call'' ⟨⟩
    have hok := (h.call c call hcall).keeps hkeeps
    exact ⟨fun t ht => hok.tasks t (htasks t ht), hmethod ▸ hok.method⟩
  · rintro call'' ⟨⟩ hrisk
    exact absurd hrisk hphase
  · rintro call'' p ⟨⟩ hmem c' call'' hne hget hat
    exact hothers c' call'' p hne hget hat (htasks _ hmem)

theorem SystemOk.return (h : SystemOk s) (hcall : s.calls.get? c = some call)
    (hservice : service.ServiceOk) (hkeeps : Keeps s.service service)
    (hstatus : ∀ p, .charge p ∉ call.tasks → (s.service.heap.read p).status = .processing →
      (service.heap.read p).status = .processing) :
    SystemOk ⟨gateway, service, s.calls.erase c⟩ := by
  refine h.oneCall (OneCall.erase s.calls c) hservice hkeeps (fun c' call' p hne hget hat => ?_)
    ?_ ?_ ?_
  · refine hstatus p (fun hmem => ?_) hat.status
    exact hne (h.alone c' call' p c call hget hat hcall hmem).symm
  · rintro call' ⟨⟩
  · rintro call' ⟨⟩
  · rintro call' p ⟨⟩

/-! ## A step -/

theorem settled_status (h : SystemOk s) (hcall : s.calls.get? c = some call)
    {outcome : Except GatewayError GatewayResult}
    (hsettled : s.service.Settled outcome call.task service) (p : Ref)
    (hmem : .charge p ∉ call.tasks) (hp : (s.service.heap.read p).status = .processing) :
    (service.heap.read p).status = .processing := by
  refine Settled.processing hsettled h.service ((h.call c call hcall).tasks _ mem_cons_self) ?_ hp
  rintro htask
  exact hmem (htask ▸ mem_cons_self)

/-- One move keeps every payment at risk with the one call that works on it. -/
theorem moved_systemOk {a : PaymentStep} {e : PaymentEvent} (hmoved : Moved s a e s')
    (h : SystemOk s) : SystemOk s' := by
  cases hmoved with
  | inject => exact h.withGateway _
  | payAnswered | refundAnswered | reconciledNone => exact h
  | payCreated _ hcreated =>
    have hkeeps := hcreated.keeps
    have hfresh : ∀ c' call' t, s.calls.get? c' = some call' → t ∈ call'.tasks →
        t ≠ .charge s.service.heap.next := by
      rintro c' call' t hget hmem rfl
      exact Nat.lt_irrefl _ ((h.call c' call' hget).tasks _ hmem)
    have hnew := hcreated.read_new
    have hnext := hcreated.next_eq
    have hold := fun q (hq : q < s.service.heap.next) => hcreated.read_old hq
    obtain rfl := hcreated.ref_eq
    have hlt := Nat.lt_succ_self s.service.heap.next
    rw [← Nat.add_one, ← hnext] at hlt
    refine h.oneCall (OneCall.set _ _ _) (hcreated.serviceOk h.service) hkeeps
      (fun c' call' p hne hget hat => ?_) ?_ ?_ ?_
    · have hp : s.service.TaskOk (.charge p) :=
        (h.call c' call' hget).tasks _ (hat.task ▸ mem_cons_self)
      rw [hold p hp]
      exact hat.status
    · rintro call ⟨⟩
      refine ⟨fun t ht => ?_, ?_, ?_⟩
      · rw [Call.tasks, mem_singleton] at ht
        subst ht
        exact hlt
      · exact hlt
      · rw [hnew]
        rfl
    · rintro call ⟨⟩ -
      refine ⟨_, ⟨rfl, rfl, rfl, ?_⟩, fun c' call' hne hget hmem => hfresh c' call' _ hget hmem rfl⟩
      rw [hnew]
      rfl
    · rintro call p ⟨⟩ hmem c' call' hne hget hat
      rw [Call.tasks, mem_singleton] at hmem
      cases hmem
      exact hfresh c' call' _ hget (hat.task ▸ mem_cons_self) rfl
  | refundHeld _ hheld =>
    refine h.oneCall (OneCall.set _ _ _) (hheld.serviceOk h.service) hheld.keeps
      (fun c' call' p hne hget hat => (hheld.status_eq p).trans hat.status) ?_ ?_ ?_
    · rintro call ⟨⟩
      refine ⟨fun t ht => ?_, trivial⟩
      rw [Call.tasks, mem_singleton] at ht
      subst ht
      exact hheld.taskOk h.service
    · rintro call ⟨⟩ hrisk
      cases hrisk
    · rintro call p ⟨⟩ hmem
      rw [Call.tasks, mem_singleton] at hmem
      cases hmem
  | reconcileStarted _ _ htasks =>
    have hbound : ∀ p ∈ s.service.payments.values, p < s.service.heap.next := by
      intro p hp
      obtain ⟨⟨n, q⟩, hmem, rfl⟩ := List.mem_map.mp hp
      exact (h.service.bound n q (Dict.mem_items.mp hmem)).1
    refine h.oneCall (OneCall.set _ _ _) h.service (.refl _)
      (fun c' call' p hne hget hat => hat.status) ?_ ?_ ?_
    · rintro call ⟨⟩
      refine ⟨fun t ht => ?_, trivial⟩
      cases htasks t ht with
      | charge hp => exact hbound _ hp
      | refund hp hr => exact ⟨hbound _ hp, hr⟩
    · rintro call ⟨⟩ hrisk
      cases hrisk
    · rintro call p ⟨⟩ hmem c' call' hne hget hat
      cases htasks _ hmem with
      | charge _ hstatus => cases hat.status.symm.trans hstatus
  | riskAllowed hcall =>
    exact h.goOn hcall h.service (.refl _) (fun p _ hp => hp) rfl nofun
      fun t ht => ht
  | riskRejected hcall hphase htask hfinished =>
    obtain ⟨q, hat⟩ := h.atRisk _ _ hcall hphase
    have hp := (h.call _ _ hcall).tasks _ mem_cons_self
    rw [htask] at hp
    refine h.return hcall (hfinished.serviceOk h.service hp (by decide)) hfinished.keeps
      fun p hmem hstatus => ?_
    refine (hfinished.status_of_ne ?_).trans hstatus
    rintro rfl
    exact hmem (htask ▸ mem_cons_self)
  | sent hcall _ _ hnext =>
    refine h.goOn hcall h.service (.refl _) (fun p _ hp => hp) rfl ?_ fun t ht => ht
    intro hrisk
    rcases hnext with hnext | ⟨hnext, -⟩ | ⟨n, hnext⟩ <;> cases hrisk.symm.trans hnext
  | raised hcall => exact h.return hcall h.service (.refl _) fun p _ hp => hp
  | settledLast hcall _ hsettled =>
    have htask := (h.call _ _ hcall).tasks _ mem_cons_self
    exact h.return hcall (hsettled.serviceOk h.service htask) hsettled.keeps
      (settled_status h hcall hsettled)
  | settledNext hcall _ hrest hsettled =>
    have htask := (h.call _ _ hcall).tasks _ mem_cons_self
    refine h.goOn hcall (hsettled.serviceOk h.service htask) hsettled.keeps
      (settled_status h hcall hsettled) rfl nofun fun t ht => ?_
    exact mem_cons_of_mem _ (hrest ▸ ht)

theorem moved_keeps {a : PaymentStep} {e : PaymentEvent} (hmoved : Moved s a e s') :
    Keeps s.service s'.service := by
  cases hmoved with
  | payCreated _ hcreated => exact hcreated.keeps
  | refundHeld _ hheld => exact hheld.keeps
  | riskRejected _ _ _ hfinished => exact hfinished.keeps
  | settledLast _ _ hsettled => exact hsettled.keeps
  | settledNext _ _ _ hsettled => exact hsettled.keeps
  | inject | payAnswered | refundAnswered | reconciledNone | reconcileStarted | riskAllowed
  | sent | raised => exact .refl _

end PaymentSystem

open Lib PaymentService

/-! ## What moved -/

/-- The task that an event says moved money. -/
def PaymentEvent.mover : PaymentEvent → Option Task
  | .sent task (.processed true) => some task
  | _ => none

/-- The tasks that moved money, in order. -/
def movers (trace : List PaymentEvent) : List Task := trace.filterMap PaymentEvent.mover

theorem movers_append (trace : List PaymentEvent) (e : PaymentEvent) :
    movers (trace ++ [e]) = movers trace ++ e.mover.toList := by
  rw [movers, filterMap_append, movers]
  cases h : e.mover <;> simp [h]

variable {trace : List PaymentEvent}

theorem mem_movers {task : Task} : task ∈ movers trace ↔ .sent task (.processed true) ∈ trace := by
  rw [movers, mem_filterMap]
  constructor
  · rintro ⟨e, he, hmover⟩
    unfold PaymentEvent.mover at hmover
    split at hmover
    · cases hmover
      exact he
    · cases hmover
  · intro h
    exact ⟨_, h, rfl⟩

/-- No task that `P` holds of is answered with the result of another task that the gateway
    processed. -/
def OwnAnswers (P : Task → Prop) (trace : List PaymentEvent) : Prop :=
  ∀ before task after, trace = before ++ .sent task .remembered :: after → P task →
    ∃ moved, .sent task (.processed moved) ∈ before

theorem OwnAnswers.of_append {P : Task → Prop} {e : PaymentEvent} (h : OwnAnswers P (trace ++ [e]))
    : OwnAnswers P trace := by
  rintro before task after rfl hP
  exact h before task (after ++ [e]) (by rw [append_assoc]; rfl) hP

theorem OwnAnswers.last {P : Task → Prop} {task : Task}
    (h : OwnAnswers P (trace ++ [.sent task .remembered])) (hP : P task) :
    ∃ moved, .sent task (.processed moved) ∈ trace :=
  h trace task [] rfl hP

namespace PaymentSystem

variable {s s' : PaymentSystem} {trace : List PaymentEvent} {task : Task} {e : PaymentEvent}

/-! ## The gateway's account -/

/-- The money moved and the results kept are those of the tasks that were processed. -/
structure Accounted (trace : List PaymentEvent) (s : PaymentSystem) : Prop where
  moneyMoved : s.gateway.moneyMoved = (movers trace).map s.taskEntry
  processed : ∀ task moved, .sent task (.processed moved) ∈ trace → s.service.TaskOk task ∧
    ∃ result, s.gateway.results.get? (s.taskKey task) = some result ∧
      (result.decision = .approved ↔ moved = true)
  nodup : (movers trace).Nodup
  kept : ∀ key result, s.gateway.results.get? key = some result →
    ∃ task moved, .sent task (.processed moved) ∈ trace ∧ s.taskKey task = key
  /-- what was answered from memory is the result of a task with the same key -/
  remembered : ∀ before task after, trace = before ++ .sent task .remembered :: after →
    s.service.TaskOk task ∧ ∃ task' moved, .sent task' (.processed moved) ∈ before ∧
      s.taskKey task' = s.taskKey task

theorem SystemOk.refund_lt (h : SystemOk s) {p r : Ref} (htask : s.service.TaskOk (.refund p r)) :
    r < s.service.refundHeap.next :=
  ((h.service.payment p htask.1).owned r htask.2).1

theorem SystemOk.taskKey_keeps (h : SystemOk s) (hkeeps : Keeps s.service s'.service)
    (htask : s.service.TaskOk task) : s'.taskKey task = s.taskKey task := by
  cases task with
  | charge p => rw [taskKey, taskKey, hkeeps.request p htask]
  | refund _ r => rw [taskKey, taskKey, hkeeps.refundKey r (h.refund_lt htask)]

theorem SystemOk.taskEntry_keeps (h : SystemOk s) (hkeeps : Keeps s.service s'.service)
    (htask : s.service.TaskOk task) : s'.taskEntry task = s.taskEntry task := by
  cases task with
  | charge p => rw [taskEntry, taskEntry, Payment.amount, Payment.amount, hkeeps.request p htask]
  | refund _ r => rw [taskEntry, taskEntry, hkeeps.refundAmount r (h.refund_lt htask)]

theorem Accounted.entries_keeps (h : Accounted trace s) (hs : SystemOk s)
    (hkeeps : Keeps s.service s'.service) :
    (movers trace).map s'.taskEntry = (movers trace).map s.taskEntry :=
  map_congr_left fun task htask =>
    hs.taskEntry_keeps hkeeps (h.processed task true (mem_movers.mp htask)).1

theorem split_append_singleton {before after : List PaymentEvent} {x : PaymentEvent}
    (h : trace ++ [e] = before ++ x :: after) :
    (before = trace ∧ x = e) ∨ ∃ after', trace = before ++ x :: after' := by
  induction after using List.reverseRecOn with
  | nil =>
    obtain ⟨rfl, heq⟩ := append_inj' h rfl
    exact .inl ⟨rfl, (singleton_inj.mp heq).symm⟩
  | append_singleton after =>
    rw [← cons_append, ← append_assoc] at h
    exact .inr ⟨after, (append_inj' h rfl).1⟩

theorem Accounted.quiet (h : Accounted trace s) (hs : SystemOk s)
    (hkeeps : Keeps s.service s'.service) (hmoved : s'.gateway.moneyMoved = s.gateway.moneyMoved)
    (hresults : s'.gateway.results = s.gateway.results)
    (he : ∀ task moved, e ≠ .sent task (.processed moved))
    (hremembered : ∀ task, e = .sent task .remembered → s.service.TaskOk task ∧
      ∃ result, s.gateway.results.get? (s.taskKey task) = some result) :
    Accounted (trace ++ [e]) s' := by
  have hmover : e.mover = none := by
    unfold PaymentEvent.mover
    split
    case h_1 task => exact absurd rfl (he task _)
    case h_2 => rfl
  have hmovers : movers (trace ++ [e]) = movers trace := by
    rw [movers_append, hmover, Option.toList_none, append_nil]
  have hkey : ∀ task moved, .sent task (.processed moved) ∈ trace →
      s'.taskKey task = s.taskKey task := fun task moved hmem =>
    hs.taskKey_keeps hkeeps (h.processed task moved hmem).1
  refine ⟨?_, fun task moved hmem => ?_, ?_, fun key result hkept => ?_,
    fun before task after hsplit => ?_⟩
  · rw [hmovers, hmoved, h.entries_keeps hs hkeeps]
    exact h.moneyMoved
  · rcases mem_append.mp hmem with hmem | hmem
    · obtain ⟨htask, result, hresult, hdecision⟩ := h.processed task moved hmem
      refine ⟨hkeeps.taskOk htask, result, ?_, hdecision⟩
      rw [hresults, hkey task moved hmem]
      exact hresult
    · exact absurd (mem_singleton.mp hmem).symm (he task _)
  · rw [hmovers]
    exact h.nodup
  · rw [hresults] at hkept
    obtain ⟨task, moved, hmem, hk⟩ := h.kept key result hkept
    exact ⟨task, moved, mem_append_left _ hmem, (hkey task moved hmem).trans hk⟩
  · rcases split_append_singleton hsplit with ⟨rfl, heq⟩ | ⟨after', hsplit⟩
    · obtain ⟨htask, result, hresult⟩ := hremembered task heq.symm
      obtain ⟨task', moved, hmem, hk⟩ := h.kept _ result hresult
      exact ⟨hkeeps.taskOk htask, task', moved, hmem,
        (hkey task' moved hmem).trans (hk.trans (hs.taskKey_keeps hkeeps htask).symm)⟩
    · obtain ⟨htask, task', moved, hmem, hk⟩ := h.remembered before task after' hsplit
      have hmem' : .sent task' (.processed moved) ∈ trace := hsplit ▸ mem_append_left _ hmem
      exact ⟨hkeeps.taskOk htask, task', moved, hmem,
        (hkey task' moved hmem').trans (hk.trans (hs.taskKey_keeps hkeeps htask).symm)⟩

variable {outcome : Except GatewayError GatewayResult} {service service' : PaymentService}

theorem Accounted.sent (h : Accounted trace s) (hs : SystemOk s) (htask : s.service.TaskOk task)
    {handling : Handling} {gateway : SimulatedGateway} {calls : Dict Nat Call}
    (hcalled : s.gateway.Called (s.taskKey task) (s.taskEntry task) handling outcome gateway) :
    Accounted (trace ++ [.sent task handling]) ⟨gateway, s.service, calls⟩ := by
  cases hcalled with
  | unprocessed =>
    refine h.quiet hs ?_ ?_ ?_ ?_ ?_
    · exact .refl _
    · rfl
    · rfl
    · rintro t moved ⟨⟩
    · rintro t ⟨⟩
  | remembered result hsome =>
    refine h.quiet hs ?_ ?_ ?_ ?_ ?_
    · exact .refl _
    · rfl
    · rfl
    · rintro t moved ⟨⟩
    · rintro t ⟨⟩
      exact ⟨htask, result, hsome⟩
  | processed result hnone hdecision hout =>
  rename_i moved
  have hother : ∀ t moved', .sent t (.processed moved') ∈ trace → s.taskKey t ≠ s.taskKey task := by
    intro t moved' hmem heq
    obtain ⟨-, result', hresult', -⟩ := h.processed t moved' hmem
    rw [heq, hnone] at hresult'
    cases hresult'
  refine ⟨?_, fun t moved' hmem => ?_, ?_, fun key result' hkept => ?_,
    fun before t after hsplit => ?_⟩
  · rw [movers_append, map_append]
    refine (congrArg (· ++ _) h.moneyMoved).trans ?_
    cases moved <;> rfl
  · rcases mem_append.mp hmem with hmem | hmem
    · obtain ⟨ht, result', hresult', hdecision'⟩ := h.processed t moved' hmem
      exact ⟨ht, result', (get?_set_of_ne _ _ (hother t moved' hmem)).trans hresult',
        hdecision'⟩
    · cases mem_singleton.mp hmem
      exact ⟨htask, result, get?_set_self _ _ _, hdecision⟩
  · rw [movers_append]
    refine nodup_append.mpr ⟨h.nodup, ?_, ?_⟩
    · cases moved
      · exact nodup_nil
      · exact nodup_singleton task
    · rintro t ht t' ht' rfl
      cases moved with
      | false => cases ht'
      | true =>
        cases mem_singleton.mp ht'
        exact hother task true (mem_movers.mp ht) rfl
  · rcases get?_set_some hkept with ⟨rfl, -⟩ | ⟨-, hkept⟩
    · exact ⟨task, moved, mem_append_right _ (mem_singleton_self _), rfl⟩
    · obtain ⟨t, moved', hmem, hk⟩ := h.kept key result' hkept
      exact ⟨t, moved', mem_append_left _ hmem, hk⟩
  · rcases split_append_singleton hsplit with ⟨-, heq⟩ | ⟨after', hsplit⟩
    · cases heq
    · exact h.remembered before t after' hsplit

theorem returned_ne_sent (c : Nat) (method : Method) (task : Task) (handling : Handling) :
    method.returned c ≠ .sent task handling := by
  cases method <;> exact nofun

theorem moved_accounted {a : PaymentStep} (hmoved : Moved s a e s') (hs : SystemOk s)
    (h : Accounted trace s) : Accounted (trace ++ [e]) s' := by
  have hkeeps := moved_keeps hmoved
  cases hmoved with
  | sent hcall _ hcalled =>
    exact h.sent hs ((hs.call _ _ hcall).tasks _ mem_cons_self) hcalled
  | riskRejected | settledLast =>
    exact h.quiet hs hkeeps rfl rfl (fun _ _ => returned_ne_sent _ _ _ _)
      fun _ h => absurd h (returned_ne_sent _ _ _ _)
  | inject | payAnswered | payCreated | refundAnswered | refundHeld | reconciledNone
  | reconcileStarted | riskAllowed | raised | settledNext =>
    exact h.quiet hs hkeeps rfl rfl nofun nofun

/-! ## What succeeded -/

def chargedStatuses : List PaymentStatus := [.succeeded, .partiallyRefunded, .refunded]

/-- The task of a charge or of a refund that succeeded. -/
def Done (s : PaymentService) : Task → Prop
  | .charge p => p < s.heap.next ∧ (s.heap.read p).status ∈ chargedStatuses
  | .refund p r => p < s.heap.next ∧ r ∈ (s.heap.read p).refunds ∧
      (s.refundHeap.read r).status = .succeeded

theorem Finished.done {p : Ref} {target : PaymentStatus}
    (hfinished : Finished service p target service') (h : Done service' task) :
    Done service task ∨ (task = .charge p ∧ target ∈ chargedStatuses) := by
  have hstatus := fun q => hfinished.status_of_ne (q := q)
  obtain ⟨payload, hmoved⟩ := hfinished
  cases task with
  | charge q =>
    by_cases hq : q = p
    · subst hq
      have hread : _ ∈ chargedStatuses := h.2
      rw [read_write_self, hmoved.status] at hread
      exact .inr ⟨rfl, hread⟩
    · have hread := h.2
      rw [hstatus q hq] at hread
      exact .inl ⟨h.1, hread⟩
  | refund q =>
    refine .inl ⟨h.1, ?_, h.2.2⟩
    rw [← read_write_field Payment.refunds hmoved.refunds q]
    exact h.2.1

theorem Settled.done (hsettled : Settled service outcome task service')
    (hs : service.ServiceOk) (htask : service.TaskOk task) {t : Task} (h : Done service' t) :
    Done service t ∨ (t = task ∧ Approves outcome) := by
  cases task with
  | charge p =>
    cases hsettled with
    | resolved => exact .inl h
    | finished htarget happroved hfinished =>
    rename_i target
    rcases Finished.done hfinished h with h | ⟨rfl, hmem⟩
    · exact .inl h
    refine .inr ⟨rfl, happroved ?_⟩
    simp only [chargeStatuses, chargedStatuses, mem_cons, not_mem_nil,
      or_false] at htarget hmem
    rcases htarget with rfl | rfl | rfl
    · rfl
    · simp at hmem
    · simp at hmem
  | refund =>
  cases hsettled with
  | resolved => exact .inl h
  | declined =>
    cases t with
    | charge => exact .inl h
    | refund =>
      refine .inl ⟨h.1, h.2.1, ?_⟩
      have hread := h.2.2
      rw [read_write] at hread
      split at hread
      · cases hread
      · exact hread
  | approved _ _ happroved hpending _ hmoved =>
  cases t with
  | charge q =>
    have hread := h.2
    rw [read_write] at hread
    split at hread
    case isTrue heq =>
      subst heq
      have hstatus := (hs.payment q htask.1).status_of_pending htask.2 hpending
      exact .inl ⟨h.1, mem_of_mem_take (i := 2) hstatus⟩
    case isFalse => exact .inl ⟨h.1, hread⟩
  | refund q =>
  have hmem := h.2.1
  rw [read_write_field Payment.refunds hmoved.refunds q] at hmem
  have hread := h.2.2
  rw [read_write] at hread
  split at hread
  case isTrue heq =>
    subst heq
    have hqp := hs.owner h.1 htask.1 hmem htask.2
    exact .inr ⟨by rw [hqp], happroved⟩
  case isFalse => exact .inl ⟨h.1, hmem, hread⟩

theorem moved_done {a : PaymentStep} (hmoved : Moved s a e s') (hs : SystemOk s) {t : Task}
    (h : Done s'.service t) : Done s.service t ∨ ∃ c call outcome, s.calls.get? c = some call ∧
      call.phase = .settling outcome ∧ t = call.task ∧ Approves outcome := by
  cases hmoved with
  | inject | payAnswered | refundAnswered | reconciledNone | reconcileStarted | riskAllowed
  | sent | raised => exact .inl h
  | payCreated _ hcreated =>
    have hnext := hcreated.next_eq
    have hnew := hcreated.read_new
    have hold := fun q (hq : q < s.service.heap.next) => hcreated.read_old hq
    obtain rfl := hcreated.ref_eq
    have hlt : ∀ q, q < s.service.heap.next + 1 → q = s.service.heap.next ∨
        q < s.service.heap.next :=
      fun q hq => (Nat.lt_or_eq_of_le (Nat.le_of_lt_succ hq)).symm
    cases t with
    | charge q =>
      rcases hlt q (hnext ▸ h.1) with rfl | hq
      · have hread := h.2
        rw [hnew] at hread
        simp [Payment.new, chargedStatuses] at hread
      · refine .inl ⟨hq, ?_⟩
        rw [← hold q hq]
        exact h.2
    | refund q =>
      rcases hlt q (hnext ▸ h.1) with rfl | hq
      · have hread := h.2.1
        rw [hnew] at hread
        cases hread
      · obtain ⟨-, hmem, hread⟩ := h
        rw [hold q hq] at hmem
        cases hcreated
        exact .inl ⟨hq, hmem, hread⟩
  | refundHeld _ hheld =>
    have hstatus := hheld.status_eq
    cases t with
    | charge q =>
      have hread := h.2
      rw [hstatus q] at hread
      cases hheld
      exact .inl ⟨h.1, hread⟩
    | refund _ r =>
    obtain ⟨idempotencyKey, reason, hamount, hpayment, -⟩ := hheld
    obtain ⟨hq, hmem, hread⟩ := h
    by_cases hr : r = s.service.refundHeap.next
    · subst hr
      rw [read_alloc_self] at hread
      cases hread
    rw [read_alloc_of_ne _ _ hr] at hread
    refine .inl ⟨hq, ?_, hread⟩
    rw [read_write] at hmem
    split at hmem
    case isTrue heq =>
      subst heq
      rcases mem_append.mp hmem with hmem | hmem
      · exact hmem
      · exact absurd (mem_singleton.mp hmem) hr
    case isFalse => exact hmem
  | riskRejected _ _ _ hfinished =>
    rcases Finished.done hfinished h with h | ⟨-, hmem⟩
    · exact .inl h
    · simp [chargedStatuses] at hmem
  | settledLast hcall hphase hsettled =>
    rcases Settled.done hsettled hs.service ((hs.call _ _ hcall).tasks _ mem_cons_self) h with
      h | ⟨rfl, happroved⟩
    · exact .inl h
    · exact .inr ⟨_, _, _, hcall, hphase, rfl, happroved⟩
  | settledNext hcall hphase _ hsettled =>
    rcases Settled.done hsettled hs.service ((hs.call _ _ hcall).tasks _ mem_cons_self) h with
      h | ⟨rfl, happroved⟩
    · exact .inl h
    · exact .inr ⟨_, _, _, hcall, hphase, rfl, happroved⟩

end PaymentSystem

end InterviewPrep.Payments
