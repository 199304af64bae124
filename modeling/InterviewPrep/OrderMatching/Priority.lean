/-
  The order book stays consistent: after every command of every run the best bid is below the best
  ask, `_live` is exactly what the price levels hold, each order is queued once, on its own side
  and at its own price, and every level is non-empty and knows the quantity resting in it.

  Price-time priority: the trades of an order are those of the naive matcher that sorts the contra
  side's orders by (best price first, smaller id first) and walks that list (`sweep`), and the
  contra side that is left is the list the naive matcher leaves.
-/
import InterviewPrep.OrderMatching.Refinement

namespace InterviewPrep.OrderMatching

open Lib List

/-- The level of price `p` on side `s` holds the object `r` under the id `i`. -/
def OrderBook.Queued (book : OrderBook) (s : Side) (p i : Int) (r : Ref) : Prop :=
  ∃ level, (book.ownSide s).levels.get? p = some level ∧ level.orders.get? i = some r

/-- The consistency of a book, between commands. -/
structure OrderBook.Safe (book : OrderBook) : Prop where
  uncrossed : ∀ bid ask, book.bestBid.1 = some bid → book.bestAsk.1 = some ask → bid < ask
  live_iff : ∀ i r, book.live.get? i = some r ↔ ∃ s p, book.Queued s p i r
  queued_once : ∀ {s p i s' p' i' r}, book.Queued s p i r → book.Queued s' p' i' r →
    s = s' ∧ p = p' ∧ i = i'
  own_terms : ∀ {s p i r}, book.Queued s p i r → (book.mem.read r).orderId = i ∧
    (book.mem.read r).side = s ∧ (book.mem.read r).price = some p
  remaining_bounds : ∀ {s p i r}, book.Queued s p i r →
    0 < (book.mem.read r).remaining ∧ (book.mem.read r).remaining ≤ (book.mem.read r).quantity
  level_nonempty : ∀ {s p level}, (book.ownSide s).levels.get? p = some level →
    level.price = p ∧ level.len ≠ 0
  level_total : ∀ {s p level}, (book.ownSide s).levels.get? p = some level →
    level.totalQuantity = (level.orders.values.map fun r => (book.mem.read r).remaining).sum

namespace BookRep

variable {book : OrderBook} {mk : Market}

theorem queued_mem (h : BookRep book mk) {s : Side} {p i : Int} {r : Ref}
    (hq : book.Queued s p i r) : book.mem.read r ∈ mk.ownSide s ∧
      (book.mem.read r).orderId = i ∧ (book.mem.read r).price = some p := by
  obtain ⟨level, hl, hi⟩ := hq
  obtain ⟨hm, hid⟩ := ((h.side s).levelRep hl).mem_of_item hi
  obtain ⟨hm, hp⟩ := mem_atPrice.mp hm
  exact ⟨hm, hid, hp⟩

theorem bestBid (h : BookRep book mk) (hwf : mk.WellFormed) :
    book.bestBid.1 = mk.bids.head?.map Order.tick :=
  (h.side .buy).bestPrice (hwf.ranked .buy)

theorem bestAsk (h : BookRep book mk) (hwf : mk.WellFormed) :
    book.bestAsk.1 = mk.asks.head?.map Order.tick :=
  (h.side .sell).bestPrice (hwf.ranked .sell)

theorem safe (h : BookRep book mk) (hwf : mk.WellFormed) : book.Safe where
  uncrossed bid ask hbid hask := by
    rw [h.bestBid hwf, Option.map_eq_some_iff] at hbid
    rw [h.bestAsk hwf, Option.map_eq_some_iff] at hask
    obtain ⟨b, hb, rfl⟩ := hbid
    obtain ⟨a, ha, rfl⟩ := hask
    exact hwf.uncrossed b (mem_of_head? hb) a (mem_of_head? ha)
  live_iff i r := (h.live i r).trans
    ⟨fun ⟨s, p, level, hl⟩ => ⟨s, p, level, hl⟩, fun ⟨s, p, level, hl⟩ => ⟨s, p, level, hl⟩⟩
  queued_once hq hq' := by
    obtain ⟨hm, hid, hp⟩ := h.queued_mem hq
    obtain ⟨hm', hid', hp'⟩ := h.queued_mem hq'
    refine ⟨?_, Option.some.inj (hp.symm.trans hp'), hid.symm.trans hid'⟩
    exact ((hwf.ranked _).resting _ hm).side.symm.trans ((hwf.ranked _).resting _ hm').side
  own_terms hq := by
    obtain ⟨hm, hid, hp⟩ := h.queued_mem hq
    exact ⟨hid, ((hwf.ranked _).resting _ hm).side, hp⟩
  remaining_bounds hq := by
    have hr := (hwf.ranked _).resting _ (h.queued_mem hq).1
    exact ⟨hr.remaining_pos, hr.remaining_le⟩
  level_nonempty hl := by
    have hrep := (h.side _).levelRep hl
    refine ⟨hrep.price, ?_⟩
    rw [hrep.len]
    exact fun e => (h.side _).atPrice_ne_nil hl (length_eq_zero_iff.mp e)
  level_total hl := by
    have hrep := (h.side _).levelRep hl
    have hread := congrArg (List.map fun x : Int × Order => x.2.remaining) hrep.orders
    simp only [List.map_map, Function.comp_def] at hread
    rw [hrep.total, ← hread, Dict.values, List.map_map]
    rfl

end BookRep

/-- Every run with increasing sequence numbers completes on a fresh book and
    leaves it consistent. -/
theorem run_safe (instrument : Instrument) (cmds : List Sequenced) (hinc : Increasing cmds) :
    ∃ reports book, runSteps OrderBook.step (OrderBook.init instrument) cmds = .ok (reports, book) ∧
      book.Safe := by
  obtain ⟨reports, book, mk, hrun, -, hrep, hreach⟩ := run_refines instrument hinc
  exact ⟨reports, book, hrun, hrep.safe hreach.wellFormed⟩

/-- `run_safe` for orders that cross, and one cancelled. -/
theorem run_safe_crossing :
    ∃ reports book, runSteps OrderBook.step (OrderBook.init ⟨"AAPL", 1, one_pos⟩)
        [(1, .newOrder { clientId := "alice", side := .sell, quantity := 10, price := some 101 }),
         (2, .newOrder { clientId := "bob", side := .buy, quantity := 4, price := some 101 }),
         (3, .cancelOrder { orderId := 1 })] = .ok (reports, book) ∧ book.Safe :=
  run_safe _ _ (by decide)

/-- Best price first, then the smaller order id. -/
def Order.noLaterThan (side : Side) (a b : Order) : Prop :=
  side.key a.tick < side.key b.tick ∨ a.tick = b.tick ∧ a.orderId ≤ b.orderId

instance (side : Side) : DecidableRel (Order.noLaterThan side) := fun _ _ =>
  inferInstanceAs (Decidable (_ ∨ _))

theorem Order.noLaterThan_total (side : Side) (a b : Order) :
    a.noLaterThan side b ∨ b.noLaterThan side a := by
  rcases lt_trichotomy (side.key a.tick) (side.key b.tick) with h | h | h
  · exact Or.inl (Or.inl h)
  · have htick := Side.key_inj.mp h
    rcases le_total a.orderId b.orderId with hid | hid
    · exact Or.inl (Or.inr ⟨htick, hid⟩)
    · exact Or.inr (Or.inr ⟨htick.symm, hid⟩)
  · exact Or.inr (Or.inl h)

theorem Order.noLaterThan_trans {side : Side} {a b c : Order} (hab : a.noLaterThan side b)
    (hbc : b.noLaterThan side c) : a.noLaterThan side c := by
  rcases hab with hab | ⟨htick, hid⟩
  · rcases hbc with hbc | ⟨htick', -⟩
    · exact Or.inl (hab.trans hbc)
    · exact Or.inl (htick' ▸ hab)
  · rcases hbc with hbc | ⟨htick', hid'⟩
    · exact Or.inl (htick ▸ hbc)
    · exact Or.inr ⟨htick.trans htick', hid.trans hid'⟩

/-- The orders in the levels of one side, in no particular order of levels. -/
def OrderBook.heldOrders (book : OrderBook) (s : Side) : List Order :=
  (book.ownSide s).levels.values.flatMap fun level => level.orders.values.map book.mem.read

/-- The orders of one side as one list sorted by price and id. -/
def OrderBook.priorityList (book : OrderBook) (s : Side) : List Order :=
  (book.heldOrders s).insertionSort (Order.noLaterThan s)

namespace BookRep

variable {book : OrderBook} {mk : Market}

theorem heldOrders_perm (h : BookRep book mk) (hwf : mk.WellFormed) (s : Side) :
    (book.heldOrders s).Perm (mk.ownSide s) := by
  obtain ⟨ps, -, hflat, hall⟩ := (h.side s).levelsBestFirst (hwf.ranked s)
  have hlevels : ((book.ownSide s).levels.values).Perm (book.ownSide s).levelsBestFirst := by
    rw [Dict.values_eq_filterMap]
    exact ((perm_insertionSort _ _).symm).filterMap _
  have hread : (book.ownSide s).levelsBestFirst.flatMap
      (fun level => level.orders.values.map book.mem.read) = mk.ownSide s := by
    rw [hflat]
    clear hflat hlevels
    generalize (book.ownSide s).levelsBestFirst = levels at hall
    induction hall with
    | nil => rfl
    | cons hlevel _ ih =>
      have horders := congrArg (List.map Prod.snd) hlevel.1.orders
      simp only [List.map_map, Function.comp_def, List.map_id'] at horders
      rw [flatMap_cons, flatMap_cons, ih, ← horders, Dict.values, List.map_map]
      rfl
  exact hread ▸ hlevels.flatMap_right _

theorem priorityList_eq (h : BookRep book mk) (hwf : mk.WellFormed) (s : Side) :
    book.priorityList s = mk.ownSide s := by
  have : Std.Total (Order.noLaterThan s) := ⟨Order.noLaterThan_total s⟩
  have : IsTrans Order (Order.noLaterThan s) := ⟨fun _ _ _ => Order.noLaterThan_trans⟩
  have hperm : (book.priorityList s).Perm (mk.ownSide s) :=
    (perm_insertionSort _ _).trans (h.heldOrders_perm hwf s)
  have hsorted : (mk.ownSide s).Pairwise (Order.noLaterThan s) :=
    (hwf.ranked s).sorted.imp fun hab => hab.imp_right fun ⟨ht, hid⟩ => ⟨ht, hid.le⟩
  refine List.Perm.eq_of_pairwise ?_ (pairwise_insertionSort _ _) hsorted hperm
  intro a b ha hb hab hba
  -- neither comes before the other, so they share an id
  have hid : a.orderId = b.orderId := by
    rcases hab with hab | ⟨htick, hab⟩
    · rcases hba with hba | ⟨htick, -⟩
      · exact absurd hab hba.not_gt
      · exact absurd (htick ▸ hab) (lt_irrefl _)
    · rcases hba with hba | ⟨-, hba⟩
      · exact absurd (htick ▸ hba) (lt_irrefl _)
      · exact le_antisymm hab hba
  exact inj_on_of_nodup_map (hwf.ids s) (hperm.mem_iff.mp ha) hb hid

end BookRep

theorem Market.newOrder_take {mk : Market} {seq : Int} {cmd : NewOrder} (hvalid : cmd.Valid)
    (hfok : ¬ (cmd.tif = .fok ∧
      available (Order.init seq cmd) (mk.ownSide cmd.side.opposite) < cmd.quantity)) :
    (mk.newOrder seq cmd).1.trades = (mk.take seq (Order.init seq cmd)).trades ∧
      (mk.newOrder seq cmd).2.ownSide cmd.side.opposite =
        (mk.take seq (Order.init seq cmd)).makers := by
  have hterms : (Order.init seq cmd).SameTerms (mk.take seq (Order.init seq cmd)).taker :=
    sweep_taker ..
  have hside : (mk.take seq (Order.init seq cmd)).taker.side = cmd.side := hterms.side
  have hcontra : (mk.afterSweep cmd.side.opposite
      (mk.take seq (Order.init seq cmd))).ownSide cmd.side.opposite =
        (mk.take seq (Order.init seq cmd)).makers := ownSide_afterSweep ..
  rw [newOrder, validate_eq_none.mpr hvalid]
  simp only [if_neg hfok, matchAndRest]
  split
  · split
    · refine ⟨?_, ?_⟩
      · simp [ExecutionReport.trades, OrderBook.report, Event.trades]
      · rw [rest, hside, ownSide_setSide_of_ne _ _ (Side.opposite_ne _)]
        exact hcontra
    · refine ⟨?_, hcontra⟩
      simp [ExecutionReport.trades, OrderBook.report, Event.trades]
  · refine ⟨?_, hcontra⟩
    simp [ExecutionReport.trades, OrderBook.report, Event.trades]

/-- Matching is price-time priority on every reachable book. -/
theorem newOrder_priority (instrument : Instrument) {cmds : List Sequenced} {seq : Int}
    {cmd : NewOrder} (hinc : Increasing (cmds ++ [(seq, .newOrder cmd)]))
    {reports : List ExecutionReport} {book : OrderBook}
    (hrun : runSteps OrderBook.step (OrderBook.init instrument) cmds = .ok (reports, book))
    (hvalid : OrderBook.validate cmd = none)
    (hfok : ¬ (cmd.tif = .fok ∧ book.canFillCompletely (Order.init seq cmd) = .ok false)) :
    ∃ report book', book.apply seq (.command (.newOrder cmd)) = .ok (report, book') ∧
      report.trades = (sweep seq book.tradeIds (Order.init seq cmd)
        (book.priorityList cmd.side.opposite)).trades ∧
      book'.priorityList cmd.side.opposite = (sweep seq book.tradeIds (Order.init seq cmd)
        (book.priorityList cmd.side.opposite)).makers := by
  obtain ⟨hinc0, -⟩ := increasing_append_singleton.mp hinc
  obtain ⟨mk, -, hrep, hreach⟩ := run_market hinc0 hrun
  have hwf := hreach.wellFormed
  obtain ⟨-, hb, hreach'⟩ := hreach.step hinc
  obtain ⟨book', happly, hrep'⟩ := hrep.apply_refines hwf hb (.newOrder cmd)
  have hv := validate_eq_none.mp hvalid
  have hfok' : ¬ (cmd.tif = .fok ∧
      available (Order.init seq cmd) (mk.ownSide cmd.side.opposite) < cmd.quantity) := by
    refine fun ⟨htif, hlt⟩ => hfok ⟨htif, ?_⟩
    rw [hrep.canFillCompletely hwf.ranked (fun ht => (hv.limit ht).imp fun _ => And.left)
      hv.quantity_pos, Except.ok.injEq, decide_eq_false_iff_not]
    exact not_le.mpr hlt
  obtain ⟨htrades, hmakers⟩ := Market.newOrder_take hv hfok'
  refine ⟨_, book', happly, ?_, ?_⟩
  · rw [hrep.tradeIds, hrep.priorityList_eq hwf]
    exact htrades
  · rw [hrep.tradeIds, hrep.priorityList_eq hwf, hrep'.priorityList_eq hreach'.wellFormed]
    exact hmakers

theorem newOrder_priority_twoMakers :
    let resting : List Sequenced :=
      [(1, .newOrder { clientId := "alice", side := .sell, quantity := 10, price := some 101 }),
       (2, .newOrder { clientId := "bob", side := .sell, quantity := 5, price := some 101 })]
    let cmd : NewOrder := { clientId := "carol", side := .buy, quantity := 12, price := some 101 }
    ∃ reports book report book',
      runSteps OrderBook.step (OrderBook.init ⟨"AAPL", 1, one_pos⟩) resting = .ok (reports, book) ∧
      book.apply 3 (.command (.newOrder cmd)) = .ok (report, book') ∧
      report.trades =
        (sweep 3 book.tradeIds (Order.init 3 cmd) (book.priorityList .sell)).trades ∧
      book'.priorityList .sell =
        (sweep 3 book.tradeIds (Order.init 3 cmd) (book.priorityList .sell)).makers := by
  intro resting cmd
  obtain ⟨reports, book, -, hrun, -⟩ := run_refines ⟨"AAPL", 1, one_pos⟩
    (show Increasing resting by decide)
  have hinc : Increasing (resting ++ [(3, .newOrder cmd)]) := by decide
  obtain ⟨report, book', h⟩ := newOrder_priority _ hinc hrun rfl fun hfok => nomatch hfok.1
  exact ⟨reports, book, report, book', hrun, h⟩

end InterviewPrep.OrderMatching
