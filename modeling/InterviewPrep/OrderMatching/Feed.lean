/-
  Quantity is conserved: at every point of a run, what an accepted order traded, what rests of it
  and what was cancelled of it add up to what it ordered.  An order is cancelled at most once and
  trades no more after that.  One step is `Market.Outcome.balance`; `Settled` is what a run keeps.

  The event stream determines the market: a consumer that only folds the published events holds
  after every command the quantity per price that `snapshot()` returns.  It shows the market's
  resting orders (`Feed.Shows`): an order that was filled stays in it with quantity 0.
-/
import InterviewPrep.OrderMatching.Refinement

namespace InterviewPrep.OrderMatching

open Lib Dict List OrderMatching.Order

/-! ## Quantities of one order in the event stream -/

/-- What the order `i` traded, as maker or as taker. -/
def tradedQuantity (i : Int) (ts : List Trade) : Int :=
  ((ts.filter fun t => t.makerOrderId = i ∨ t.takerOrderId = i).map Trade.quantity).sum

/-- What an event cancels of the order `i`. -/
def Event.cancelledOf (i : Int) : Event → Int
  | .orderCancelled _ j q _ => if j = i then q else 0
  | _ => 0

def cancelledQuantity (i : Int) (events : List Event) : Int :=
  (events.map (Event.cancelledOf i)).sum

/-- What rests of the order `i`: nothing when it is not live. -/
def OrderBook.liveRemaining (book : OrderBook) (i : Int) : Int :=
  match book.live.get? i with
  | some r => (book.mem.read r).remaining
  | none => 0

/-- The event takes the order `i` off the market. -/
def Event.Cancels (i : Int) : Event → Prop
  | .orderCancelled _ j _ _ => j = i
  | _ => False

instance (i : Int) : DecidablePred (Event.Cancels i)
  | .orderCancelled _ j _ _ => inferInstanceAs (Decidable (j = i))
  | .orderAccepted .. | .trade .. | .orderRested .. | .orderRejected .. =>
    inferInstanceAs (Decidable False)

/-- The order `i` trades in the event, or is cancelled by it. -/
def Event.Involves (i : Int) : Event → Prop
  | .trade t => t.makerOrderId = i ∨ t.takerOrderId = i
  | .orderCancelled _ j _ _ => j = i
  | _ => False

/-- What rests of `i` among the orders `L`. -/
def restingQuantity (i : Int) (L : List Order) : Int :=
  ((L.filter fun o => o.orderId = i).map Order.remaining).sum

section Sums

variable {i : Int} {L M : List Order}

@[simp] theorem tradedQuantity_nil (i : Int) : tradedQuantity i [] = 0 := rfl

theorem tradedQuantity_cons (i : Int) (t : Trade) (ts : List Trade) :
    tradedQuantity i (t :: ts) =
      (if t.makerOrderId = i ∨ t.takerOrderId = i then t.quantity else 0) +
      tradedQuantity i ts := by
  by_cases h : t.makerOrderId = i ∨ t.takerOrderId = i <;> simp [tradedQuantity, h]

@[simp] theorem tradedQuantity_append (i : Int) (ts us : List Trade) :
    tradedQuantity i (ts ++ us) = tradedQuantity i ts + tradedQuantity i us := by
  simp [tradedQuantity]

@[simp] theorem cancelledQuantity_nil (i : Int) : cancelledQuantity i [] = 0 := rfl

@[simp] theorem cancelledQuantity_cons (i : Int) (e : Event) (events : List Event) :
    cancelledQuantity i (e :: events) = e.cancelledOf i + cancelledQuantity i events := rfl

@[simp] theorem cancelledQuantity_append (i : Int) (events events' : List Event) :
    cancelledQuantity i (events ++ events') =
      cancelledQuantity i events + cancelledQuantity i events' := by
  simp [cancelledQuantity]

@[simp] theorem cancelledQuantity_trades (i : Int) (ts : List Trade) :
    cancelledQuantity i (ts.map .trade) = 0 := by
  induction ts with
  | nil => rfl
  | cons _ _ ih =>
    rw [map_cons, cancelledQuantity_cons, ih]
    rfl

@[simp] theorem restingQuantity_append (i : Int) (L M : List Order) :
    restingQuantity i (L ++ M) = restingQuantity i L + restingQuantity i M := by
  simp [restingQuantity]

theorem restingQuantity_cons (i : Int) (o : Order) (L : List Order) :
    restingQuantity i (o :: L) =
      (if o.orderId = i then o.remaining else 0) + restingQuantity i L := by
  by_cases h : o.orderId = i <;> simp [restingQuantity, h]

theorem restingQuantity_perm (h : L.Perm M) : restingQuantity i L = restingQuantity i M :=
  ((h.filter _).map _).sum_eq

theorem restingQuantity_of_not_mem (h : ∀ o ∈ L, o.orderId ≠ i) : restingQuantity i L = 0 := by
  rw [restingQuantity, filter_eq_nil_iff.mpr fun o ho => by simpa using h o ho]
  rfl

theorem restingQuantity_residue (i : Int) (o : Order) :
    restingQuantity i o.residue = if o.orderId = i then o.remaining else 0 := by
  by_cases hz : o.remaining = 0
  · simp [Order.residue, hz, restingQuantity]
  · rw [Order.residue, if_neg hz, restingQuantity_cons]
    exact add_zero _

theorem restingQuantity_of_mem (hids : (L.map Order.orderId).Nodup) {o : Order} (ho : o ∈ L) :
    restingQuantity o.orderId L = o.remaining := by
  induction L with
  | nil => cases ho
  | cons _ _ ih =>
    obtain ⟨hx, hids⟩ := nodup_cons.mp hids
    rw [restingQuantity_cons]
    rcases mem_cons.mp ho with rfl | ho
    · rw [if_pos rfl, restingQuantity_of_not_mem, add_zero]
      exact fun y hy he => hx (he ▸ List.mem_map_of_mem hy)
    · rw [if_neg, zero_add, ih hids ho]
      exact fun he => hx (he ▸ List.mem_map_of_mem ho)

end Sums

/-! ## One sweep -/

section Sweep

variable {seq : Int} {tradeId : Nat} {taker : Order} {L : List Order} {i : Int}

theorem sweep_trade_ids {t : Trade} (ht : t ∈ (sweep seq tradeId taker L).trades) :
    t.takerOrderId = taker.orderId ∧ ∃ o ∈ L, t.makerOrderId = o.orderId := by
  induction L generalizing tradeId taker with
  | nil => cases ht
  | cons maker _ ih =>
    by_cases h : 0 < taker.remaining ∧ taker.accepts maker.tick
    · rw [sweep_step h] at ht
      rcases mem_cons.mp ht with rfl | ht
      · exact ⟨rfl, maker, mem_cons_self .., rfl⟩
      · obtain ⟨htaker, o, ho, hmaker⟩ := ih ht
        exact ⟨htaker, o, mem_cons_of_mem _ ho, hmaker⟩
    · rw [sweep_stop h] at ht
      cases ht

theorem sweep_balance (hi : i ≠ taker.orderId) :
    tradedQuantity i (sweep seq tradeId taker L).trades +
      restingQuantity i (sweep seq tradeId taker L).makers = restingQuantity i L := by
  induction L generalizing tradeId taker with
  | nil => rfl
  | cons maker _ ih =>
    by_cases h : 0 < taker.remaining ∧ taker.accepts maker.tick
    · rw [sweep_step h]
      have hrest := @ih (tradeId + 1) (taker.filledBy (min taker.remaining maker.remaining)) hi
      have htaker : ¬ taker.orderId = i := fun e => hi e.symm
      rw [tradedQuantity_cons, restingQuantity_append, restingQuantity_residue,
        restingQuantity_cons, ← hrest]
      simp only [tradeOf, htaker, or_false, filledBy_orderId, filledBy_remaining]
      split <;> omega
    · rw [sweep_stop h]
      simp

theorem sweep_taker_traded (seq : Int) (tradeId : Nat) (taker : Order) (L : List Order) :
    tradedQuantity taker.orderId (sweep seq tradeId taker L).trades +
      (sweep seq tradeId taker L).taker.remaining = taker.remaining := by
  have hall : ∀ t ∈ (sweep seq tradeId taker L).trades,
      t.makerOrderId = taker.orderId ∨ t.takerOrderId = taker.orderId :=
    fun t ht => Or.inr (sweep_trade_ids ht).1
  rw [tradedQuantity, filter_eq_self.mpr fun t ht => by simpa using hall t ht, add_comm]
  exact sweep_remaining ..

end Sweep

/-! ## Events in order -/

/-- After an event that cancels an order, no event involves that order. -/
def Settled (events : List Event) : Prop :=
  events.Pairwise fun e e' => ∀ i, e.Cancels i → ¬ e'.Involves i

variable {events : List Event} {i : Int} {cmds : List Sequenced} {mk : Market}

theorem settled_of_forall (h : ∀ e ∈ events, ∀ i, ¬ e.Cancels i) : Settled events :=
  pairwise_of_forall_mem_list fun e he _ _ i hi => absurd hi (h e he i)

variable {reports : List ExecutionReport} {book : OrderBook} {events' : List Event}

theorem settled_append (h : Settled events) (h' : Settled events')
    (hcross : ∀ e ∈ events, ∀ i, e.Cancels i → ∀ e' ∈ events', ¬ e'.Involves i) :
    Settled (events ++ events') :=
  pairwise_append.mpr ⟨h, h', fun e he e' he' i hi => hcross e he i hi e' he'⟩

theorem settled_append_singleton (h : ∀ e ∈ events, ∀ i, ¬ e.Cancels i) (last : Event) :
    Settled (events ++ [last]) :=
  settled_append (settled_of_forall h) (pairwise_singleton ..)
    fun e he i hi => absurd hi (h e he i)

theorem Event.trades_accepted (seq id : Int) (events : List Event) :
    Event.trades (.orderAccepted seq id :: events) = Event.trades events := rfl

/-! ## One command -/

namespace Market

variable {mk mk' : Market} {seq i : Int} {cmd : Command} {events : List Event} {c : Side}

theorem restingQuantity_orders (mk : Market) (i : Int) (c : Side) : restingQuantity i mk.orders =
      restingQuantity i (mk.ownSide c) + restingQuantity i (mk.ownSide c.opposite) := by
  rw [orders, restingQuantity_append]
  cases c
  · rfl
  · exact add_comm _ _

theorem restingQuantity_afterSweep (mk : Market) (i : Int) (c : Side) (s : Sweep) :
    restingQuantity i (mk.afterSweep c s).orders =
      restingQuantity i s.makers + restingQuantity i (mk.ownSide c.opposite) := by
  rw [restingQuantity_orders _ i c, ownSide_afterSweep]
  cases c <;> rfl

theorem restingQuantity_rest (mk : Market) (i : Int) (o : Order) :
    restingQuantity i (mk.rest o).orders =
      (if o.orderId = i then o.remaining else 0) + restingQuantity i mk.orders := by
  rw [restingQuantity_orders _ i o.side, restingQuantity_orders mk i o.side, rest,
    ownSide_setSide, ownSide_setSide_of_ne _ _ (Side.opposite_ne _),
    restingQuantity_perm (perm_orderedInsert _ o _), restingQuantity_cons, add_assoc]

theorem restingQuantity_cancel (mk : Market) (i j : Int) (c : Side) :
    restingQuantity i (mk.setSide c ((mk.ownSide c).filter fun x => x.orderId ≠ j)).orders =
      (if i = j then 0 else restingQuantity i (mk.ownSide c)) +
        restingQuantity i (mk.ownSide c.opposite) := by
  rw [restingQuantity_orders _ i c, ownSide_setSide, ownSide_setSide_of_ne _ _ (Side.opposite_ne _)]
  congr 1
  split
  next h =>
    refine restingQuantity_of_not_mem fun o ho => ?_
    rw [h]
    simpa using (mem_filter.mp ho).2
  next h =>
    rw [restingQuantity, restingQuantity, List.filter_filter]
    congr 2
    refine filter_congr fun o _ => ?_
    by_cases ho : o.orderId = i <;> simp [ho, h]

section

variable (ho : mk.Outcome seq cmd events mk')

include ho

theorem Outcome.involves {e : Event} (he : e ∈ events)
    (hi : e.Involves i) : i = seq ∨ ∃ o ∈ mk.orders, o.orderId = i := by
  have hopening : ∀ {cmd : NewOrder} {s : Sweep}, s = mk.take seq (Order.init seq cmd) →
      e ∈ Event.orderAccepted seq seq :: s.trades.map .trade →
      i = seq ∨ ∃ o ∈ mk.orders, o.orderId = i := by
    rintro cmd s rfl he
    rcases mem_cons.mp he with rfl | he
    · exact hi.elim
    · obtain ⟨t, ht, rfl⟩ := List.mem_map.mp he
      obtain ⟨htaker, o, ho, hmaker⟩ := sweep_trade_ids ht
      rcases hi with rfl | rfl
      · exact Or.inr ⟨o, mem_orders.mpr ⟨_, ho⟩, hmaker.symm⟩
      · exact Or.inl htaker
  cases ho with
  | invalid | notLive => rw [mem_singleton.mp he] at hi; exact hi.elim
  | killed =>
    rcases mem_pair.mp he with rfl | rfl
    · exact hi.elim
    · exact Or.inl hi.symm
  | filled _ hs => exact hopening hs he
  | rested _ hs =>
    rcases mem_append.mp he with he | he
    · exact hopening hs he
    · rw [mem_singleton.mp he] at hi
      exact hi.elim
  | dropped _ hs =>
    rcases mem_append.mp he with he | he
    · exact hopening hs he
    · rw [mem_singleton.mp he] at hi
      exact Or.inl hi.symm
  | @cancelled _ _ o ho =>
    rw [mem_singleton.mp he] at hi
    exact Or.inr ⟨o, ho, hi⟩

theorem Outcome.settled : Settled events := by
  have hopening : ∀ ts : List Trade, ∀ e ∈ Event.orderAccepted seq seq :: ts.map .trade,
      ∀ i, ¬ e.Cancels i := by
    intro ts e he i hi
    rcases mem_cons.mp he with rfl | he
    · exact hi
    · obtain ⟨t, -, rfl⟩ := List.mem_map.mp he
      exact hi
  cases ho with
  | invalid | notLive => exact pairwise_singleton ..
  | killed => exact settled_append_singleton (hopening []) _
  | filled => exact settled_of_forall (hopening _)
  | rested | dropped => exact settled_append_singleton (hopening _) _
  | cancelled => exact pairwise_singleton ..

theorem Outcome.gone (hwf : mk.WellFormed) (hb : mk.Below seq)
    {e : Event} (he : e ∈ events) (hi : e.Cancels i) : ∀ o ∈ mk'.orders, o.orderId ≠ i := by
  have hopening : ∀ ts : List Trade, e ∉ Event.orderAccepted seq seq :: ts.map .trade := by
    intro ts he
    rcases mem_cons.mp he with rfl | he
    · exact hi
    · obtain ⟨t, -, rfl⟩ := List.mem_map.mp he
      exact hi
  cases ho with
  | invalid | notLive => rw [mem_singleton.mp he] at hi; exact hi.elim
  | killed =>
    rcases mem_pair.mp he with rfl | rfl
    · exact hi.elim
    · obtain rfl : seq = i := hi
      exact fun o ho => (hb o ho).ne
  | filled => exact absurd he (hopening _)
  | rested =>
    rcases mem_append.mp he with he | he
    · exact absurd he (hopening _)
    · rw [mem_singleton.mp he] at hi
      exact hi.elim
  | dropped _ hs =>
    rcases mem_append.mp he with he | he
    · exact absurd he (hopening _)
    · rw [mem_singleton.mp he] at hi
      obtain rfl : seq = i := hi
      subst hs
      exact fun o ho => (hb.afterSweep hwf o ho).ne
  | @cancelled _ _ o ho =>
    rw [mem_singleton.mp he] at hi
    obtain rfl : o.orderId = i := hi
    intro x hx
    rcases mem_setSide.mp hx with hx | hx
    · simpa using (mem_filter.mp hx).2
    · obtain ⟨s, hos⟩ := mem_orders.mp ho
      obtain rfl : o.side = s := ((hwf.ranked s).resting o hos).side
      exact (hwf.apart hos hx).symm

theorem Outcome.orders_old (hwf : mk.WellFormed) {x : Order}
    (hx : x ∈ mk'.orders) (hid : x.orderId ≠ seq) : ∃ y ∈ mk.orders, y.orderId = x.orderId := by
  have hswept : ∀ {c : Side} {taker : Order}, x ∈ (mk.afterSweep c
      (sweep seq mk.tradeIds taker (mk.ownSide c))).orders → ∃ y ∈ mk.orders,
      y.orderId = x.orderId := by
    intro c taker hx
    rcases mem_setSide.mp hx with hx | hx
    · obtain ⟨y, hy, hid, -⟩ := sweep_old hwf hx
      exact ⟨y, mem_orders.mpr ⟨_, hy⟩, hid.symm⟩
    · exact ⟨x, mem_orders.mpr ⟨_, hx⟩, rfl⟩
  cases ho with
  | invalid | notLive | killed => exact ⟨x, hx, rfl⟩
  | filled _ hs => subst hs; exact hswept hx
  | dropped _ hs => subst hs; exact hswept hx
  | rested _ hs =>
    subst hs
    rcases mem_rest.mp hx with rfl | hx
    · exact absurd (sweep_taker ..).orderId hid
    · exact hswept hx
  | cancelled =>
    rcases mem_setSide.mp hx with hx | hx
    · exact ⟨x, mem_orders.mpr ⟨_, (mem_filter.mp hx).1⟩, rfl⟩
    · exact ⟨x, mem_orders.mpr ⟨_, hx⟩, rfl⟩

end

/-! ## The balance of one command -/

theorem Outcome.balance_old (ho : mk.Outcome seq cmd events mk') (hwf : mk.WellFormed)
    (hi : i ≠ seq) : tradedQuantity i (Event.trades events) + restingQuantity i mk'.orders +
      cancelledQuantity i events = restingQuantity i mk.orders := by
  have hseq : seq ≠ i := Ne.symm hi
  have hopening : ∀ {cmd : NewOrder} {s : Sweep}, s = mk.take seq (Order.init seq cmd) →
      tradedQuantity i s.trades + restingQuantity i (mk.afterSweep cmd.side.opposite s).orders =
        restingQuantity i mk.orders := by
    rintro cmd s rfl
    have hbal : tradedQuantity i (mk.take seq (Order.init seq cmd)).trades +
        restingQuantity i (mk.take seq (Order.init seq cmd)).makers =
          restingQuantity i (mk.ownSide cmd.side.opposite) := sweep_balance hi
    rw [restingQuantity_afterSweep, restingQuantity_orders mk i cmd.side.opposite]
    omega
  cases ho with
  | invalid | notLive => simp [Event.trades, Event.cancelledOf]
  | killed => simp [Event.trades, Event.cancelledOf, hseq]
  | filled _ hs =>
    simpa [Event.trades_accepted, Event.cancelledOf] using hopening hs
  | dropped _ hs =>
    simpa [Event.trades_accepted, Event.cancelledOf, hseq, Event.trades] using hopening hs
  | @rested _ _ s hs =>
    have hid : s.taker.orderId = seq := hs ▸ (sweep_taker ..).orderId
    rw [restingQuantity_rest, if_neg (hid ▸ hseq), zero_add]
    simpa [Event.trades_accepted, Event.cancelledOf, Event.trades] using hopening hs
  | @cancelled _ _ o ho =>
    obtain ⟨s, hos⟩ := mem_orders.mp ho
    obtain rfl : o.side = s := ((hwf.ranked s).resting o hos).side
    rw [restingQuantity_cancel, restingQuantity_orders mk i o.side]
    by_cases h : i = o.orderId
    · have hrest := restingQuantity_of_mem (hwf.ids _) hos
      rw [← h] at hrest
      simp [Event.trades, Event.cancelledOf, h.symm]
      omega
    · simp [Event.trades, Event.cancelledOf, h, Ne.symm h]

theorem Outcome.balance_new {cmd : NewOrder} (ho : mk.Outcome seq (.newOrder cmd) events mk')
    (hwf : mk.WellFormed) (hb : mk.Below seq) (hvalid : cmd.Valid) :
    tradedQuantity seq (Event.trades events) + restingQuantity seq mk'.orders +
      cancelledQuantity seq events = cmd.quantity := by
  have hnone : restingQuantity seq mk.orders = 0 :=
    restingQuantity_of_not_mem fun o ho => (hb o ho).ne
  have htaker : ∀ {s : Sweep}, s = mk.take seq (Order.init seq cmd) →
      tradedQuantity seq s.trades + s.taker.remaining = cmd.quantity ∧ 0 ≤ s.taker.remaining ∧
        restingQuantity seq (mk.afterSweep cmd.side.opposite s).orders = 0 := by
    rintro s rfl
    refine ⟨sweep_taker_traded seq mk.tradeIds (Order.init seq cmd) _,
      sweep_remaining_nonneg hvalid.quantity_pos.le, ?_⟩
    exact restingQuantity_of_not_mem fun o ho => (hb.afterSweep hwf o ho).ne
  cases ho with
  | invalid hinvalid => exact absurd hvalid hinvalid
  | killed => simp [Event.trades, Event.cancelledOf, hnone]
  | filled _ hs =>
    obtain ⟨hsum, hnonneg, hrest⟩ := htaker hs
    simp only [Event.trades_accepted, Event.trades_map_trade, cancelledQuantity_cons,
      cancelledQuantity_trades, Event.cancelledOf, hrest]
    omega
  | dropped _ hs =>
    obtain ⟨hsum, -, hrest⟩ := htaker hs
    simpa [Event.trades_accepted, Event.trades, Event.cancelledOf, hrest] using hsum
  | @rested _ _ s hs =>
    obtain ⟨hsum, -, hrest⟩ := htaker hs
    have hid : s.taker.orderId = seq := hs ▸ (sweep_taker ..).orderId
    rw [restingQuantity_rest, if_pos hid, hrest]
    simpa [Event.trades_accepted, Event.trades, Event.cancelledOf] using hsum

end Market

/-! ## Whole runs -/

/-- What a run of the market keeps about the events it has published. -/
structure Balanced (cmds : List Sequenced) (events : List Event) (mk : Market) : Prop where
  /-- every accepted order is accounted for -/
  balance : ∀ seq cmd, (seq, .newOrder cmd) ∈ cmds → cmd.Valid →
    tradedQuantity seq (Event.trades events) + restingQuantity seq mk.orders +
      cancelledQuantity seq events = cmd.quantity
  /-- only orders of the past are involved -/
  past : ∀ e ∈ events, ∀ i, e.Involves i → ∃ c ∈ cmds, i ≤ c.1
  settled : Settled events
  gone : ∀ e ∈ events, ∀ i, e.Cancels i → ∀ o ∈ mk.orders, o.orderId ≠ i

theorem balanced_init : Balanced [] [] Market.init :=
  ⟨nofun, nofun,
    List.Pairwise.nil, nofun⟩

theorem Event.Cancels.involves {e : Event} (h : e.Cancels i) : e.Involves i := by
  cases e with
  | orderCancelled => exact h
  | _ => exact h.elim

theorem tradedQuantity_eq_zero (h : ∀ e ∈ events, ¬ e.Involves i) :
    tradedQuantity i (Event.trades events) = 0 := by
  have hnone : ∀ t ∈ Event.trades events, ¬ (t.makerOrderId = i ∨ t.takerOrderId = i) := by
    intro t ht
    obtain ⟨e, he, het⟩ := mem_filterMap.mp ht
    cases e with
    | trade => exact Option.some.inj het ▸ h _ he
    | _ => cases het
  rw [tradedQuantity, filter_eq_nil_iff.mpr fun t ht => by simpa using hnone t ht]
  rfl

theorem cancelledQuantity_eq_zero (h : ∀ e ∈ events, ¬ e.Involves i) :
    cancelledQuantity i events = 0 := by
  refine sum_eq_zero fun q hq => ?_
  obtain ⟨e, he, rfl⟩ := List.mem_map.mp hq
  cases e with
  | orderCancelled => exact if_neg fun hj => h _ he hj
  | _ => rfl

theorem Balanced.step {cmd : Sequenced} (h : Balanced cmds events mk) (hwf : mk.WellFormed)
    (hinc : Increasing (cmds ++ [cmd])) (hb : mk.Below cmd.1) {mk' : Market}
    (hout : mk.Outcome cmd.1 cmd.2 events' mk') :
    Balanced (cmds ++ [cmd]) (events ++ events') mk' := by
  have hpast := (increasing_append_singleton.mp hinc).2
  -- the new order is not involved in what was published before
  have hfresh : ∀ e ∈ events, ¬ e.Involves cmd.1 := fun e he hi => by
    obtain ⟨c, hc, hle⟩ := h.past e he _ hi
    exact absurd (hpast c hc) hle.not_gt
  refine ⟨fun seq c hc hvalid => ?_, fun e he i hi => ?_, ?_, fun e he i hi o ho => ?_⟩
  · rw [Event.trades_append, tradedQuantity_append, cancelledQuantity_append]
    rcases mem_append.mp hc with hc | hc
    · have hold := h.balance seq c hc hvalid
      have hne : seq ≠ cmd.1 := (hpast _ hc).ne
      have hnew := hout.balance_old hwf hne
      omega
    · obtain rfl := mem_singleton.mp hc
      have hnew := Market.Outcome.balance_new hout hwf hb hvalid
      have htraded : tradedQuantity seq (Event.trades events) = 0 := tradedQuantity_eq_zero hfresh
      have hcancelled : cancelledQuantity seq events = 0 := cancelledQuantity_eq_zero hfresh
      simp only at hnew
      omega
  · rcases mem_append.mp he with he | he
    · obtain ⟨c, hc, hle⟩ := h.past e he i hi
      exact ⟨c, mem_append_left _ hc, hle⟩
    · refine ⟨cmd, mem_append_right _ (mem_singleton_self _), ?_⟩
      rcases hout.involves he hi with rfl | ⟨o, ho, rfl⟩
      · exact le_refl _
      · exact (hb o ho).le
  · refine settled_append h.settled hout.settled fun e he i hi e' he' hi' => ?_
    rcases hout.involves he' hi' with rfl | ⟨o, ho, rfl⟩
    · exact hfresh e he hi.involves
    · exact h.gone e he _ hi o ho rfl
  · rcases mem_append.mp he with he | he
    · rintro rfl
      by_cases hseq : o.orderId = cmd.1
      · exact hfresh e he (hseq ▸ hi.involves)
      · obtain ⟨y, hy, hid⟩ := hout.orders_old hwf ho hseq
        exact h.gone e he _ hi y hy hid
    · exact hout.gone hwf hb he hi o ho

theorem balanced_run (hinc : Increasing cmds)
    (hrun : runSteps Market.step Market.init cmds = .ok (reports, mk)) :
    Balanced cmds (publishedEvents reports) mk := by
  have hmarket := market_run (fun cmds reports mk => Balanced cmds (publishedEvents reports) mk)
    balanced_init ?_ cmds hinc
  · obtain ⟨reports', mk', hrun', -, h⟩ := hmarket
    rw [hrun] at hrun'
    cases hrun'
    exact h
  · intro cmds reports mk cmd hreach hinc hb h hout
    rw [publishedEvents_append_singleton]
    exact h.step hreach.wellFormed hinc hb hout

theorem BookRep.liveRemaining (h : BookRep book mk) (hwf : mk.WellFormed)
    (i : Int) : book.liveRemaining i = restingQuantity i mk.orders := by
  have hfind := h.find?_eq hwf i
  unfold OrderBook.liveRemaining
  cases hl : book.live.get? i with
  | none =>
    rw [hl, Option.map_none, Market.find?, find?_eq_none] at hfind
    exact (restingQuantity_of_not_mem fun o ho => by simpa using hfind o ho).symm
  | some r =>
    rw [hl, Option.map_some] at hfind
    have hid : (book.mem.read r).orderId = i := by simpa using find?_some hfind
    rw [← hid]
    exact (restingQuantity_of_mem hwf.ids_orders (mem_of_find?_eq_some hfind)).symm

theorem Settled.cancels_once (h : Settled events) (i : Int) :
    (events.filter fun e => e.Cancels i).length ≤ 1 := by
  have hsub := List.Pairwise.sublist (filter_sublist (p := fun e => e.Cancels i)) h
  have hall : ∀ e ∈ events.filter fun e => e.Cancels i, e.Cancels i := fun e he => by
    simpa using (mem_filter.mp he).2
  generalize events.filter (fun e => decide (e.Cancels i)) = cancels at hsub hall
  match cancels, hsub, hall with
  | [], _, _ => exact Nat.zero_le _
  | [_], _, _ => exact le_refl _
  | e :: e' :: _, hsub, hall =>
    have he := hall e (mem_cons_self ..)
    have he' := hall e' (mem_cons_of_mem _ (mem_cons_self ..))
    have hnot := (pairwise_cons.mp hsub).1 e' (mem_cons_self ..) i he
    exact absurd he'.involves hnot

theorem Settled.no_trade_after {before after : List Event} {e : Event}
    (h : Settled (before ++ e :: after)) (he : e.Cancels i) {t : Trade} (ht : .trade t ∈ after) :
    t.makerOrderId ≠ i ∧ t.takerOrderId ≠ i := by
  have hafter := (pairwise_cons.mp (pairwise_append.mp h).2.1).1
  exact not_or.mp (hafter _ ht i he)

/-- Along every run, what an accepted order traded, what rests of it and what was cancelled of it is
    what it ordered; it is cancelled at most once, and trades no more after that. -/
theorem run_conserves (instrument : Instrument) (hinc : Increasing cmds)
    (hrun : runSteps OrderBook.step (OrderBook.init instrument) cmds = .ok (reports, book))
    {o : Int} {cmd : NewOrder} (hcmd : (o, .newOrder cmd) ∈ cmds)
    (haccepted : OrderBook.validate cmd = none) :
    tradedQuantity o (Event.trades (publishedEvents reports)) + book.liveRemaining o +
        cancelledQuantity o (publishedEvents reports) = cmd.quantity ∧
      ((publishedEvents reports).filter fun e => e.Cancels o).length ≤ 1 ∧
      (∀ before e after, publishedEvents reports = before ++ e :: after → e.Cancels o →
        ∀ t, .trade t ∈ after → t.makerOrderId ≠ o ∧ t.takerOrderId ≠ o) := by
  obtain ⟨mk, hmk, hrep, hreach⟩ := run_market hinc hrun
  have h := balanced_run hinc hmk
  refine ⟨?_, h.settled.cancels_once o, fun before e after he hcancels t ht => ?_⟩
  · rw [hrep.liveRemaining hreach.wellFormed]
    exact h.balance o cmd hcmd (validate_eq_none.mp haccepted)
  · have hsettled := h.settled
    rw [he] at hsettled
    exact hsettled.no_trade_after hcancels ht

theorem run_conserves_partialFill :
    let cmd : NewOrder := { clientId := "alice", side := .sell, quantity := 10, price := some 101 }
    let cmds : List Sequenced :=
      [(1, .newOrder cmd),
       (2, .newOrder { clientId := "bob", side := .buy, quantity := 4, price := some 101 }),
       (3, .cancelOrder { orderId := 1 })]
    ∃ reports book,
      runSteps OrderBook.step (OrderBook.init ⟨"AAPL", 1, one_pos⟩) cmds = .ok (reports, book) ∧
      tradedQuantity 1 (Event.trades (publishedEvents reports)) + book.liveRemaining 1 +
        cancelledQuantity 1 (publishedEvents reports) = 10 := by
  intro cmd cmds
  have hinc : Increasing cmds := by decide
  obtain ⟨reports, book, -, hrun, -⟩ := run_refines ⟨"AAPL", 1, one_pos⟩ hinc
  exact ⟨reports, book, hrun, (run_conserves _ hinc hrun (mem_cons_self ..) rfl).1⟩

/-- A resting order as a consumer of the events knows it. -/
structure FeedOrder where
  side : Side
  price : Int
  quantity : Int

/-- The consumer's resting orders by id. -/
abbrev Feed := Dict Int FeedOrder

namespace Feed

/-- `OrderRested` adds an order, `Trade` subtracts from the maker's, and `OrderCancelled` removes
    it. -/
def consume (feed : Feed) : Event → Feed
  | .orderRested _ id side price quantity => feed.set id ⟨side, price, quantity⟩
  | .trade t =>
    match feed.get? t.makerOrderId with
    | some o => feed.set t.makerOrderId { o with quantity := o.quantity - t.quantity }
    | none => feed
  | .orderCancelled _ id _ _ => feed.erase id
  | .orderAccepted .. => feed
  | .orderRejected .. => feed

def consumeAll (feed : Feed) (events : List Event) : Feed := events.foldl consume feed

/-- The consumer's quantity at a price. -/
def quantityAt (feed : Feed) (side : Side) (price : Int) : Int :=
  ((feed.values.filter fun o => o.side = side ∧ o.price = price).map FeedOrder.quantity).sum

theorem consumeAll_append (feed : Feed) (events events' : List Event) :
    feed.consumeAll (events ++ events') = (feed.consumeAll events).consumeAll events' :=
  foldl_append ..

/-- What the consumer knows of an order. -/
def view (o : Order) : FeedOrder := ⟨o.side, o.tick, o.remaining⟩

/-- The consumer's orders with a quantity are the orders `L`. -/
structure Shows (feed : Feed) (L : List Order) : Prop where
  nonneg : ∀ i v, feed.get? i = some v → 0 ≤ v.quantity
  orders : ∀ i v, feed.get? i = some v ∧ 0 < v.quantity ↔ ∃ o ∈ L, o.orderId = i ∧ view o = v

section

variable {feed : Feed} {L M : List Order} {o : Order}

theorem shows_empty : Shows Dict.empty [] :=
  ⟨fun i v hv => by simp at hv, fun i v => by simp⟩

theorem Shows.congr (h : feed.Shows L) (hLM : ∀ o, o ∈ M ↔ o ∈ L) : feed.Shows M :=
  ⟨h.nonneg, fun i v => by simp only [h.orders, hLM]⟩

theorem Shows.get? (h : feed.Shows L) (ho : o ∈ L) : feed.get? o.orderId = some (view o) :=
  ((h.orders _ _).mpr ⟨o, ho, rfl, rfl⟩).1

theorem mem_residue {x : Order} : x ∈ o.residue ↔ x = o ∧ o.remaining ≠ 0 := by
  by_cases hz : o.remaining = 0 <;> simp [Order.residue, hz]

theorem Shows.set (h : feed.Shows L) (hnonneg : 0 ≤ o.remaining)
    (hM : ∀ x ∈ M, x.orderId ≠ o.orderId)
    (hLM : ∀ x : Order, x.orderId ≠ o.orderId → (x ∈ L ↔ x ∈ M)) :
    Shows (Dict.set feed o.orderId (view o)) (o.residue ++ M) := by
  refine ⟨fun i v hv => ?_, fun i v => ?_⟩
  · rw [get?_set] at hv
    split at hv
    · cases hv
      exact hnonneg
    · exact h.nonneg i v hv
  rw [get?_set]
  by_cases hi : i = o.orderId
  · rw [if_pos hi]
    constructor
    · rintro ⟨hv, hpos⟩
      cases hv
      exact ⟨o, mem_append_left _ (mem_residue.mpr ⟨rfl, hpos.ne'⟩), hi.symm, rfl⟩
    · rintro ⟨x, hx, hid, rfl⟩
      rcases mem_append.mp hx with hx | hx
      · obtain ⟨rfl, hne⟩ := mem_residue.mp hx
        exact ⟨rfl, lt_of_le_of_ne hnonneg hne.symm⟩
      · exact absurd (hid.trans hi) (hM x hx)
  rw [if_neg hi, h.orders]
  constructor
  · rintro ⟨x, hx, rfl, rfl⟩
    exact ⟨x, mem_append_right _ ((hLM x hi).mp hx), rfl, rfl⟩
  · rintro ⟨x, hx, rfl, rfl⟩
    rcases mem_append.mp hx with hx | hx
    · exact absurd (congrArg Order.orderId (mem_residue.mp hx).1) hi
    · exact ⟨x, (hLM x hi).mpr hx, rfl, rfl⟩

theorem Shows.erase (h : feed.Shows L) (i : Int) :
    Shows (Dict.erase feed i) (L.filter fun x => x.orderId ≠ i) := by
  refine ⟨fun j v hv => ?_, fun j v => ?_⟩
  · rw [get?_erase] at hv
    split at hv
    · cases hv
    · exact h.nonneg j v hv
  rw [get?_erase]
  by_cases hj : j = i
  · rw [if_pos hj]
    constructor
    · rintro ⟨hv, -⟩
      cases hv
    · rintro ⟨x, hx, hid, -⟩
      exact absurd (hid.trans hj) (by simpa using (mem_filter.mp hx).2)
  · rw [if_neg hj, h.orders]
    constructor
    · rintro ⟨x, hx, hid, rfl⟩
      exact ⟨x, mem_filter.mpr ⟨hx, by simpa [hid] using hj⟩, hid, rfl⟩
    · rintro ⟨x, hx, hid, rfl⟩
      exact ⟨x, (mem_filter.mp hx).1, hid, rfl⟩

theorem Shows.trade {maker : Order} (h : feed.Shows (maker :: L))
    (hnew : ∀ x ∈ L, x.orderId ≠ maker.orderId) {t : Trade} (hid : t.makerOrderId = maker.orderId)
    (hle : t.quantity ≤ maker.remaining) :
    Shows (feed.consume (.trade t)) ((maker.filledBy t.quantity).residue ++ L) := by
  have hget := h.get? (mem_cons_self ..)
  have hconsume : feed.consume (.trade t) =
      Dict.set feed (maker.filledBy t.quantity).orderId (view (maker.filledBy t.quantity)) := by
    simp only [consume, hid, hget]
    rfl
  rw [hconsume]
  refine h.set (by rw [filledBy_remaining]; omega) hnew fun x hx => ?_
  rw [mem_cons]
  exact ⟨fun hm => hm.resolve_left fun e => hx (by rw [e, filledBy_orderId]), Or.inr⟩

theorem Shows.sweep (seq : Int) (tradeId : Nat) (taker : Order)
    (hids : ((L ++ M).map Order.orderId).Nodup) (h : feed.Shows (L ++ M)) :
    Shows (feed.consumeAll ((sweep seq tradeId taker L).trades.map .trade))
      ((sweep seq tradeId taker L).makers ++ M) := by
  induction L generalizing feed tradeId taker M with
  | nil => exact h
  | cons maker L ih =>
    by_cases hstep : 0 < taker.remaining ∧ taker.accepts maker.tick
    · rw [sweep_step hstep]
      set qty := min taker.remaining maker.remaining with hqty
      obtain ⟨hfresh, hids'⟩ := nodup_cons.mp hids
      have hnew : ∀ x ∈ L ++ M, x.orderId ≠ maker.orderId := fun x hx he =>
        hfresh (he ▸ List.mem_map_of_mem hx)
      have hfilled := h.trade hnew (t := tradeOf seq tradeId taker maker qty) rfl
        (min_le_right _ _)
      -- the filled maker joins the orders that the rest of the sweep leaves alone
      have hmove : ∀ o, o ∈ L ++ ((maker.filledBy qty).residue ++ M) ↔
          o ∈ (maker.filledBy qty).residue ++ (L ++ M) := by
        intro o
        simp only [mem_append]
        tauto
      have hids'' : ((L ++ ((maker.filledBy qty).residue ++ M)).map Order.orderId).Nodup := by
        have hperm : (L ++ ((maker.filledBy qty).residue ++ M)).Perm
            ((maker.filledBy qty).residue ++ (L ++ M)) := by
          rw [← append_assoc, ← append_assoc]
          exact perm_append_comm.append_right M
        rw [(hperm.map _).nodup_iff, map_append]
        refine nodup_append.mpr ⟨?_, hids', fun i hi j hj => ?_⟩
        · unfold Order.residue
          split <;> simp
        · obtain ⟨x, hx, rfl⟩ := List.mem_map.mp hi
          obtain ⟨y, hy, rfl⟩ := List.mem_map.mp hj
          rw [(mem_residue.mp hx).1]
          exact (hnew y hy).symm
      have hrest := ih (tradeId + 1) (taker.filledBy qty) hids'' (hfilled.congr hmove)
      refine hrest.congr fun o => ?_
      simp only [mem_append]
      tauto
    · rw [sweep_stop hstep]
      exact h

/-! ## Quantities -/

theorem Shows.quantityAt (h : feed.Shows L) (hids : (L.map Order.orderId).Nodup) (s : Side)
    (p : Int) : feed.quantityAt s p =
      ((L.filter fun o => o.side = s ∧ o.tick = p).map Order.remaining).sum := by
  let here : Int × FeedOrder → Bool := fun x => x.2.side = s ∧ x.2.price = p
  let live : Int × FeedOrder → Bool := fun x => 0 < x.2.quantity
  let shown : Order → Int × FeedOrder := fun o => (o.orderId, view o)
  have hnodup : (L.map shown).Nodup :=
    List.Nodup.of_map Prod.fst (by rw [List.map_map]; exact hids)
  have hlive : (feed.items.filter live).Perm (L.map shown) := by
    refine (perm_ext_iff_of_nodup (feed.items_nodup.filter _) hnodup).mpr fun x => ?_
    rw [mem_filter, mem_items_iff, List.mem_map, decide_eq_true_iff, h.orders]
    exact exists_congr fun o => and_congr_right fun _ => (Prod.ext_iff (x := shown o) (y := x)).symm
  have hsplit := (filter_append_perm live feed.items).symm
  have hzero : (((feed.items.filter fun x => !live x).filter here).map fun x => x.2.quantity).sum
      = 0 := by
    refine sum_eq_zero fun q hq => ?_
    obtain ⟨x, hx, rfl⟩ := List.mem_map.mp hq
    obtain ⟨hx, hnot⟩ := mem_filter.mp (mem_filter.mp hx).1
    have hnonneg := h.nonneg x.1 x.2 (mem_items_iff.mp hx)
    have hle : x.2.quantity ≤ 0 := by simpa [live] using hnot
    exact le_antisymm hle hnonneg
  calc feed.quantityAt s p
      = ((feed.items.filter here).map fun x => x.2.quantity).sum := by
        rw [Feed.quantityAt, Dict.values, List.filter_map, List.map_map]
        rfl
    _ = (((feed.items.filter live).filter here).map fun x => x.2.quantity).sum := by
        rw [((hsplit.filter here).map _).sum_eq, filter_append, map_append,
          sum_append, hzero, add_zero]
    _ = ((L.filter fun o => o.side = s ∧ o.tick = p).map Order.remaining).sum := by
        rw [((hlive.filter here).map _).sum_eq, List.filter_map, List.map_map]
        rfl

end

end Feed

namespace Market

variable {mk mk' : Market} {seq : Int} {cmd : Command} {events : List Event}

theorem WellFormed.orders_filter (h : mk.WellFormed) (s : Side) (p : Int) :
    (mk.orders.filter fun o => o.side = s ∧ o.tick = p) = atPrice p (mk.ownSide s) := by
  have hown : ((mk.ownSide s).filter fun o => o.side = s ∧ o.tick = p) = atPrice p (mk.ownSide s) :=
    filter_congr fun o ho => by
      have hr := (h.ranked s).resting o ho
      simp [hr.side, hr.price_eq]
  have hother : ((mk.ownSide s.opposite).filter fun o => o.side = s ∧ o.tick = p) = [] :=
    filter_eq_nil_iff.mpr fun o ho => by
      have hr := (h.ranked s.opposite).resting o ho
      simp [hr.side, Side.opposite_ne]
  rw [orders, filter_append]
  cases s with
  | buy => exact (congrArg₂ _ hown hother).trans (append_nil _)
  | sell => exact congrArg₂ _ hother hown

theorem Outcome.shows (ho : mk.Outcome seq cmd events mk') (hwf : mk.WellFormed)
    (hb : mk.Below seq) {feed : Feed} (h : feed.Shows mk.orders) :
    (feed.consumeAll events).Shows mk'.orders := by
  have hopening : ∀ {cmd : NewOrder} {s : Sweep}, s = mk.take seq (Order.init seq cmd) →
      (feed.consumeAll (.orderAccepted seq seq :: s.trades.map .trade)).Shows
        (mk.afterSweep cmd.side.opposite s).orders := by
    rintro cmd s rfl
    have hmem : ∀ o, o ∈ mk.ownSide cmd.side.opposite ++ mk.ownSide cmd.side ↔ o ∈ mk.orders :=
      fun o => by
        rw [mem_orders_iff (c := cmd.side.opposite), Side.opposite_opposite, mem_append]
    have hids : ((mk.ownSide cmd.side.opposite ++ mk.ownSide cmd.side).map
        Order.orderId).Nodup := by
      rw [map_append]
      refine nodup_append.mpr ⟨hwf.ids _, hwf.ids _, fun i hi j hj => ?_⟩
      obtain ⟨x, hx, rfl⟩ := List.mem_map.mp hi
      obtain ⟨y, hy, rfl⟩ := List.mem_map.mp hj
      exact (hwf.apart hy hx).symm
    have hsweep := Feed.Shows.sweep seq mk.tradeIds (Order.init seq cmd) hids (h.congr hmem)
    refine hsweep.congr fun o => ?_
    rw [mem_append]
    exact mem_setSide.trans (by rw [Side.opposite_opposite]; exact Iff.rfl)
  -- an order that is not on the market is not removed by its cancel event
  have hgone : ∀ {feed : Feed} {mk1 : Market}, feed.Shows mk1.orders → mk1.Below seq →
      Feed.Shows (Dict.erase feed seq) mk1.orders := by
    intro feed mk1 h hb
    refine (h.erase seq).congr fun o => ?_
    rw [mem_filter]
    exact ⟨fun ho => ⟨ho, by simpa using (hb o ho).ne⟩, And.left⟩
  cases ho with
  | invalid => exact h
  | notLive => exact h
  | killed => exact hgone h hb
  | filled _ hs => exact hopening hs
  | dropped _ hs =>
    rw [Feed.consumeAll_append]
    refine hgone (hopening hs) ?_
    subst hs
    exact hb.afterSweep hwf
  | @rested cmd _ s hs hleft =>
    rw [Feed.consumeAll_append]
    have hterms : (Order.init seq cmd).SameTerms s.taker := hs ▸ sweep_taker ..
    have hid : s.taker.orderId = seq := hterms.orderId
    have hbelow : (mk.afterSweep cmd.side.opposite s).Below seq := hs ▸ hb.afterSweep hwf
    have hrest := (hopening hs).set (M := (mk.afterSweep cmd.side.opposite s).orders)
      (o := s.taker) hleft.le (fun x hx => hid ▸ (hbelow x hx).ne) fun _ _ => Iff.rfl
    have hview : Feed.view s.taker = ⟨cmd.side, s.taker.tick, s.taker.remaining⟩ := by
      rw [Feed.view, hterms.side]
      rfl
    rw [hid, hview] at hrest
    refine hrest.congr fun o => ?_
    rw [mem_rest, mem_append, Feed.mem_residue]
    simp [hleft.ne']
  | @cancelled _ _ o ho =>
    refine (h.erase o.orderId).congr fun x => ?_
    obtain ⟨s, hos⟩ := mem_orders.mp ho
    obtain rfl : o.side = s := ((hwf.ranked s).resting o hos).side
    rw [mem_setSide, mem_filter, mem_filter, mem_orders_iff (c := o.side)]
    constructor
    · rintro (⟨hx, hne⟩ | hx)
      · exact ⟨Or.inl hx, hne⟩
      · exact ⟨Or.inr hx, by simpa using (hwf.apart hos hx).symm⟩
    · rintro ⟨hx | hx, hne⟩
      · exact Or.inl ⟨hx, hne⟩
      · exact Or.inr hx

end Market

theorem shows_run (hinc : Increasing cmds)
    (hrun : runSteps Market.step Market.init cmds = .ok (reports, mk)) :
    Feed.Shows (Feed.consumeAll Dict.empty (publishedEvents reports)) mk.orders := by
  have hmarket := market_run
    (fun _ reports mk =>
      Feed.Shows (Feed.consumeAll Dict.empty (publishedEvents reports)) mk.orders)
    Feed.shows_empty ?_ cmds hinc
  · obtain ⟨reports', mk', hrun', -, h⟩ := hmarket
    rw [hrun] at hrun'
    cases hrun'
    exact h
  · intro cmds reports mk cmd hreach _ hb h hout
    rw [publishedEvents_append_singleton, Feed.consumeAll_append]
    exact hout.shows hreach.wellFormed hb h

theorem BookRep.depth_feed (h : BookRep book mk) (hwf : mk.WellFormed)
    {feed : Feed} (hshows : feed.Shows mk.orders) (s : Side) :
    ((book.ownSide s).depth.map Prod.fst).Nodup ∧
      ∀ p q, (p, q) ∈ (book.ownSide s).depth ↔ q = feed.quantityAt s p ∧ 0 < q := by
  have hsum : ∀ p, feed.quantityAt s p = ((atPrice p (mk.ownSide s)).map Order.remaining).sum :=
    fun p => by rw [hshows.quantityAt hwf.ids_orders, hwf.orders_filter]
  have hsorted := (h.side s).depth_sorted (hwf.ranked s)
  refine ⟨?_, fun p q => ?_⟩
  · exact pairwise_map.mpr (hsorted.imp fun hlt he => hlt.ne (congrArg s.key he))
  rw [(h.side s).mem_depth (hwf.ranked s), hsum, and_comm]
  refine and_congr_right fun hq => ?_
  rw [hq]
  constructor
  · intro hne
    refine sum_pos _ (fun r hr => ?_) (by simpa using hne)
    obtain ⟨o, ho, rfl⟩ := List.mem_map.mp hr
    exact ((hwf.ranked s).resting o (mem_atPrice.mp ho).1).remaining_pos
  · rintro hpos hnil
    rw [hnil] at hpos
    exact absurd hpos (lt_irrefl _)

/-- After every command, the consumer holds the quantities per price that `snapshot()` returns. -/
theorem run_feed (instrument : Instrument) (hinc : Increasing cmds)
    (hrun : runSteps OrderBook.step (OrderBook.init instrument) cmds = .ok (reports, book)) :
    let feed := Feed.consumeAll Dict.empty (publishedEvents reports)
    (book.snapshot.1.map Prod.fst).Nodup ∧ (book.snapshot.2.map Prod.fst).Nodup ∧
      (∀ p q, (p, q) ∈ book.snapshot.1 ↔ q = feed.quantityAt .buy p ∧ 0 < q) ∧
      (∀ p q, (p, q) ∈ book.snapshot.2 ↔ q = feed.quantityAt .sell p ∧ 0 < q) := by
  obtain ⟨mk, hmk, hrep, hreach⟩ := run_market hinc hrun
  have hshows := shows_run hinc hmk
  obtain ⟨hbids, hbuy⟩ := hrep.depth_feed hreach.wellFormed hshows .buy
  obtain ⟨hasks, hsell⟩ := hrep.depth_feed hreach.wellFormed hshows .sell
  exact ⟨hbids, hasks, hbuy, hsell⟩

theorem run_feed_partialFill :
    let cmds : List Sequenced :=
      [(1, .newOrder { clientId := "alice", side := .sell, quantity := 10, price := some 101 }),
       (2, .newOrder { clientId := "bob", side := .buy, quantity := 4, price := some 101 })]
    ∃ reports book,
      runSteps OrderBook.step (OrderBook.init ⟨"AAPL", 1, one_pos⟩) cmds = .ok (reports, book) ∧
      ∀ p q, (p, q) ∈ book.snapshot.2 ↔
        q = (Feed.consumeAll Dict.empty (publishedEvents reports)).quantityAt .sell p ∧ 0 < q := by
  intro cmds
  have hinc : Increasing cmds := by decide
  obtain ⟨reports, book, -, hrun, -⟩ := run_refines ⟨"AAPL", 1, one_pos⟩ hinc
  exact ⟨reports, book, hrun, (run_feed _ hinc hrun).2.2.2⟩

end InterviewPrep.OrderMatching
