/-
  Fill-or-kill orders on every book that commands and reads of the best prices can reach.

  A sweep takes what is available at prices that the taker accepts, and no more
  (`sweep_remaining_eq`).  The check that precedes it adds up the totals of the levels, and the
  refinement of the book to a market says that these are the same quantity, so that an order the
  check lets through is filled, and one that it stops leaves the book as it was (`newOrder_fok`).
-/
import InterviewPrep.OrderMatching.Priority

namespace InterviewPrep.OrderMatching

open Lib List

/-! ## What a sweep takes -/

section

variable {seq : Int} {tradeId : Nat} {taker : Order} {L : List Order} {s : Side}

theorem sweep_remaining_eq (hs : taker.side = s.opposite) (hL : Ranked s L)
    (h0 : 0 ≤ taker.remaining) :
    (sweep seq tradeId taker L).taker.remaining = max 0 (taker.remaining - available taker L) := by
  induction L generalizing tradeId taker with
  | nil =>
    show taker.remaining = max 0 (taker.remaining - 0)
    omega
  | cons maker L ih =>
    have hm := (hL.resting maker mem_cons_self).remaining_pos
    have hrest : 0 ≤ available taker L :=
      available_nonneg taker fun o ho => (hL.resting o (mem_cons_of_mem _ ho)).remaining_pos
    cases hacc : taker.accepts maker.tick with
    | false =>
      -- behind a price that does not cross none crosses
      have hnone : available taker (maker :: L) = 0 := by
        refine available_of_not_accepts fun o ho => ?_
        obtain rfl | ho := mem_cons.mp ho
        · exact hacc
        · exact not_accepts_of_key_le hs hacc
            (hL.head_key_le o (mem_cons_of_mem _ ho))
      rw [sweep_stop fun h => by rw [hacc] at h; exact absurd h.2 Bool.false_ne_true, hnone]
      show taker.remaining = max 0 (taker.remaining - 0)
      omega
    | true =>
    have hall : available taker (maker :: L) = maker.remaining + available taker L := by
      rw [← singleton_append, available_append, available_of_accepts]
      · rw [map_singleton, sum_singleton]
      · intro o ho
        rw [mem_singleton.mp ho, hacc]
    rw [hall]
    by_cases hpos : 0 < taker.remaining
    · have hsame : available (taker.filledBy (min taker.remaining maker.remaining)) L =
          available taker L := rfl
      have hnext := @ih (tradeId + 1) (taker.filledBy (min taker.remaining maker.remaining))
        hs hL.tail (by rw [Order.filledBy_remaining]; omega)
      rw [hsame, Order.filledBy_remaining] at hnext
      rw [sweep_step ⟨hpos, hacc⟩]
      rw [hnext]
      omega
    · rw [sweep_done (not_lt.mp hpos)]
      show taker.remaining = max 0 (taker.remaining - (maker.remaining + available taker L))
      omega

theorem sweep_filled (hpos : 0 < taker.remaining)
    (hdone : (sweep seq tradeId taker L).taker.remaining = 0) :
    (sweep seq tradeId taker L).taker.status = .filled := by
  induction L generalizing tradeId taker with
  | nil =>
    rw [sweep_nil] at hdone
    exact absurd hdone hpos.ne'
  | cons maker _ ih =>
    by_cases h : 0 < taker.remaining ∧ taker.accepts maker.tick
    · rw [sweep_step h] at hdone ⊢
      dsimp only at hdone ⊢
      by_cases hleft : 0 < (taker.filledBy (min taker.remaining maker.remaining)).remaining
      · exact ih hleft hdone
      · rw [sweep_done (not_lt.mp hleft)] at hdone ⊢
        exact if_pos hdone
    · rw [sweep_stop h] at hdone
      exact absurd hdone hpos.ne'

end

/-! ## The market's answer -/

namespace Market

variable {mk : Market} {seq : Int} {cmd : NewOrder}

theorem newOrder_status (hvalid : cmd.Valid) (hfok : ¬ (cmd.tif = .fok ∧
      available (Order.init seq cmd) (mk.ownSide cmd.side.opposite) < cmd.quantity))
    (hdone : (mk.take seq (Order.init seq cmd)).taker.remaining = 0) :
    (mk.newOrder seq cmd).1.status = (mk.take seq (Order.init seq cmd)).taker.status := by
  rw [newOrder, validate_eq_none.mpr hvalid]
  rw [if_neg hfok, matchAndRest, hdone]
  rfl

theorem take_remaining (hr : ∀ s, Ranked s (mk.ownSide s)) (hvalid : cmd.Valid)
    (henough : cmd.quantity ≤ available (Order.init seq cmd) (mk.ownSide cmd.side.opposite)) :
    (mk.take seq (Order.init seq cmd)).taker.remaining = 0 := by
  have hremaining : (Order.init seq cmd).remaining = cmd.quantity := rfl
  have hpos := hvalid.quantity_pos
  rw [take, sweep_remaining_eq (Side.opposite_opposite _).symm (hr _) (by omega), hremaining]
  show max 0 (cmd.quantity - available (Order.init seq cmd) (mk.ownSide cmd.side.opposite)) = 0
  omega

end Market

/-! ## Reachable books -/

/-- What a book is used for: commands, and reads of the best prices, which clean the heaps. -/
inductive Use where
  | command (seq : Int) (cmd : Command)
  | bestBid
  | bestAsk

inductive UseAnswer where
  | report (report : ExecutionReport)
  | price (price : Option Int)

/-- The commands among the uses. -/
def commandsOf (uses : List Use) : List Sequenced :=
  uses.filterMap fun
    | .command seq cmd => some (seq, cmd)
    | .bestBid => none
    | .bestAsk => none

def OrderBook.use (book : OrderBook) : Use → Except PyError (UseAnswer × OrderBook)
  | .command seq cmd =>
    match book.apply seq (.command cmd) with
    | .error e => .error e
    | .ok (report, book) => .ok (.report report, book)
  | .bestBid => .ok (.price book.bestBid.1, book.bestBid.2)
  | .bestAsk => .ok (.price book.bestAsk.1, book.bestAsk.2)

namespace BookRep

variable {book : OrderBook} {mk : Market}

theorem bestPrice (h : BookRep book mk) (hr : ∀ s, Ranked s (mk.ownSide s)) (s : Side) :
    BookRep (book.setSide s (book.ownSide s).bestPrice.2) mk := by
  have hside := h.side s
  have hranked := hr s
  cases hL : mk.ownSide s with
  | nil =>
    rw [hL] at hside
    obtain ⟨b, hbest, hlevels, hb⟩ := hside.bestLevel_nil
    have hprice : (book.ownSide s).bestPrice.2 = b := by rw [BookSide.bestPrice, hbest]
    rw [hprice]
    exact h.setSide_best hlevels (hL ▸ hb)
  | cons =>
    rw [hL] at hside hranked
    obtain ⟨level, b, hbest, hlevels, -, hb⟩ := hside.bestLevel_cons hranked
    have hprice : (book.ownSide s).bestPrice.2 = b := by rw [BookSide.bestPrice, hbest]
    rw [hprice]
    exact h.setSide_best hlevels (hL ▸ hb)

end BookRep

variable {book : OrderBook}

variable {answers : List UseAnswer}

theorem use_market {instrument : Instrument} {uses : List Use}
    (hinc : Increasing (commandsOf uses))
    (hrun : runSteps OrderBook.use (OrderBook.init instrument) uses = .ok (answers, book)) :
    ∃ mk, BookRep book mk ∧ mk.Reached (commandsOf uses) := by
  have hkept : Increasing (commandsOf uses) →
      ∃ mk, BookRep book mk ∧ mk.Reached (commandsOf uses) := by
    refine runSteps_keeps (C := fun _ _ => True) (fun uses _ book =>
      Increasing (commandsOf uses) → ∃ mk, BookRep book mk ∧ mk.Reached (commandsOf uses)) ?_
      (fun _ => ⟨_, bookRep_init instrument, reached_init⟩)
      (Guarded.of_forall (fun _ _ => trivial) _ _) hrun
    rintro uses - book use answer book' - h - hstep hinc
    cases use with
    | command seq cmd =>
      have hcommands :
          commandsOf (uses ++ [.command seq cmd]) = commandsOf uses ++ [(seq, cmd)] :=
        filterMap_append
      rw [hcommands] at hinc ⊢
      obtain ⟨mk, hrep, hreach⟩ := h (increasing_append_singleton.mp hinc).1
      obtain ⟨-, hb, hreach'⟩ := hreach.step hinc
      obtain ⟨book'', happly, hrep'⟩ := hrep.apply_refines hreach.wellFormed hb cmd
      rw [OrderBook.use, happly] at hstep
      obtain ⟨-, rfl⟩ := Prod.mk.inj (Except.ok.inj hstep)
      exact ⟨_, hrep', hreach'⟩
    | bestBid =>
      have hcommands : commandsOf (uses ++ [.bestBid]) = commandsOf uses :=
        filterMap_append.trans (append_nil _)
      rw [hcommands] at hinc ⊢
      obtain ⟨mk, hrep, hreach⟩ := h hinc
      obtain ⟨-, rfl⟩ := Prod.mk.inj (Except.ok.inj hstep)
      exact ⟨mk, hrep.bestPrice hreach.wellFormed.ranked .buy, hreach⟩
    | bestAsk =>
      have hcommands : commandsOf (uses ++ [.bestAsk]) = commandsOf uses :=
        filterMap_append.trans (append_nil _)
      rw [hcommands] at hinc ⊢
      obtain ⟨mk, hrep, hreach⟩ := h hinc
      obtain ⟨-, rfl⟩ := Prod.mk.inj (Except.ok.inj hstep)
      exact ⟨mk, hrep.bestPrice hreach.wellFormed.ranked .sell, hreach⟩
  exact hkept hinc

/-! ## Fill or kill -/

/-- The quantity that rests in the book at prices that the order crosses. -/
def OrderBook.crossingQuantity (book : OrderBook) (order : Order) : Int :=
  available order (book.heldOrders order.side.opposite)

theorem BookRep.crossingQuantity {mk : Market} (h : BookRep book mk) (hwf : mk.WellFormed)
    (order : Order) :
    book.crossingQuantity order = available order (mk.ownSide order.side.opposite) :=
  (((h.heldOrders_perm hwf _).filter _).map _).sum_eq

theorem OrderBook.newOrder_killed {seq : Int} {cmd : NewOrder} (hvalid : validate cmd = none)
    (htif : cmd.tif = .fok) (hkill : book.canFillCompletely (Order.init seq cmd) = .ok false) :
    book.newOrder seq cmd = .ok (report seq { Order.init seq cmd with status := .cancelled }
      [.orderAccepted seq seq,
       .orderCancelled seq seq cmd.quantity "FOK: insufficient liquidity"], book) := by
  have htif' : (Order.init seq cmd).tif = .fok := htif
  rw [newOrder, hvalid]
  rw [if_pos htif', hkill]
  rfl

/-- A valid fill-or-kill order on a reachable book is filled, with trades of exactly its quantity,
    when that much rests at prices that cross it, and is cancelled without trades on an unchanged
    book otherwise; a matched one has nothing left to cancel. -/
theorem newOrder_fok (instrument : Instrument) {uses : List Use} {seq : Int} {cmd : NewOrder}
    (hinc : Increasing (commandsOf uses ++ [(seq, .newOrder cmd)]))
    (hrun : runSteps OrderBook.use (OrderBook.init instrument) uses = .ok (answers, book))
    (hvalid : OrderBook.validate cmd = none) (htif : cmd.tif = .fok) :
    ∃ report book', book.apply seq (.command (.newOrder cmd)) = .ok (report, book') ∧
      (report.status = .filled ∧ (report.trades.map Trade.quantity).sum = cmd.quantity ∨
        report.status = .cancelled ∧ report.trades = [] ∧
          book'.bids = book.bids ∧ book'.asks = book.asks ∧ book'.live = book.live) ∧
      (report.status = .filled ↔ cmd.quantity ≤ book.crossingQuantity (Order.init seq cmd)) ∧
      (book.canFillCompletely (Order.init seq cmd) = .ok true →
        ∃ book₁ taker events, book.match_ seq (Order.init seq cmd) [.orderAccepted seq seq] =
          .ok (book₁, taker, events) ∧ taker.remaining = 0) := by
  obtain ⟨mk, hrep, hreach⟩ := use_market (increasing_append_singleton.mp hinc).1 hrun
  have hwf := hreach.wellFormed
  obtain ⟨-, hb, -⟩ := hreach.step hinc
  have hv := validate_eq_none.mp hvalid
  have hcrossing : book.crossingQuantity (Order.init seq cmd) =
      available (Order.init seq cmd) (mk.ownSide cmd.side.opposite) :=
    hrep.crossingQuantity hwf _
  have htype : (Order.init seq cmd).orderType = .limit → ∃ p, (Order.init seq cmd).price = some p :=
    fun ht => (hv.limit ht).imp fun _ => And.left
  have hquantity : 0 < (Order.init seq cmd).remaining := hv.quantity_pos
  have hcheck := hrep.canFillCompletely hwf.ranked htype hv.quantity_pos
  rw [hcrossing]
  by_cases henough : cmd.quantity ≤
      available (Order.init seq cmd) (mk.ownSide cmd.side.opposite)
  · have hfok : ¬ (cmd.tif = .fok ∧
        available (Order.init seq cmd) (mk.ownSide cmd.side.opposite) < cmd.quantity) :=
      fun h => absurd h.2 (not_lt.mpr henough)
    have hdone := Market.take_remaining hwf.ranked hv henough
    have hfilled : (mk.newOrder seq cmd).1.status = .filled :=
      (Market.newOrder_status hv hfok hdone).trans (sweep_filled hv.quantity_pos hdone)
    have hsum := sweep_remaining seq mk.tradeIds (Order.init seq cmd)
      (mk.ownSide (Order.init seq cmd).side.opposite)
    obtain ⟨book', happly, -⟩ := hrep.apply_refines hwf hb (.newOrder cmd)
    refine ⟨_, book', happly, .inl ⟨hfilled, ?_⟩, iff_of_true hfilled henough, fun _ => ?_⟩
    · show ((mk.newOrder seq cmd).1.trades.map Trade.quantity).sum = cmd.quantity
      rw [(Market.newOrder_take hv hfok).1]
      rw [show (sweep seq mk.tradeIds (Order.init seq cmd)
        (mk.ownSide (Order.init seq cmd).side.opposite)).taker.remaining = 0 from hdone,
        zero_add] at hsum
      exact hsum
    · obtain ⟨book₁, hmatch, -⟩ := matchLoop_spec seq [.orderAccepted seq seq] hrep hwf.ranked
        htype hquantity.le (Nat.lt_succ_self _)
      exact ⟨book₁, _, _, hmatch, hdone⟩
  · have hkill : book.canFillCompletely (Order.init seq cmd) = .ok false := by
      rw [hcheck]
      exact congrArg Except.ok (decide_eq_false henough)
    refine ⟨_, book, OrderBook.newOrder_killed hvalid htif hkill, .inr ⟨rfl, rfl, rfl, rfl, rfl⟩,
      ⟨fun h => (by cases h), fun h => absurd h henough⟩, fun h => ?_⟩
    rw [hkill] at h
    cases h

def twoLevels : List Use :=
  [.command 1 (.newOrder { clientId := "alice", side := .sell, quantity := 10, price := some 101 }),
   .command 2 (.newOrder { clientId := "bob", side := .sell, quantity := 5, price := some 102 }),
   .bestAsk]

def twelveOrNone : NewOrder :=
  { clientId := "carol", side := .buy, quantity := 12, price := some 102, tif := .fok }

/-- Twelve of fifteen at two prices, after a read of the best ask. -/
theorem newOrder_fok_twoLevels : ∃ answers book report book',
    runSteps OrderBook.use (OrderBook.init ⟨"AAPL", 1, one_pos⟩) twoLevels = .ok (answers, book) ∧
    book.apply 3 (.command (.newOrder twelveOrNone)) = .ok (report, book') ∧
    report.status = .filled ∧ (report.trades.map Trade.quantity).sum = 12 := by
  obtain ⟨⟨answers, book⟩, hrun, henough⟩ := exists_ok_of_observe
    (x := runSteps OrderBook.use (OrderBook.init ⟨"AAPL", 1, one_pos⟩) twoLevels)
    (f := fun r => decide (12 ≤ r.2.crossingQuantity (Order.init 3 twelveOrNone)))
    (b := true) (by decide +kernel)
  have hinc : Increasing (commandsOf twoLevels ++ [(3, .newOrder twelveOrNone)]) := by
    decide +kernel
  obtain ⟨report, book', happly, hanswer, hiff, -⟩ :=
    newOrder_fok ⟨"AAPL", 1, one_pos⟩ hinc hrun rfl rfl
  have hfilled := hiff.mpr (of_decide_eq_true henough)
  refine ⟨answers, book, report, book', hrun, happly, hfilled, ?_⟩
  obtain ⟨-, hsum⟩ | ⟨hcancelled, -⟩ := hanswer
  · exact hsum
  · rw [hfilled] at hcancelled
    cases hcancelled

end InterviewPrep.OrderMatching
