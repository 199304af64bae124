/-
  The order book answers every command like the market it represents, and raises nothing
  (`BookRep.apply_refines`).  Matching is `MatchLoop.matchLoop_spec`; this file adds the
  fill-or-kill check, resting and cancelling.

  Whole runs: a fresh book takes commands with strictly increasing sequence numbers.  Every such
  run completes, and the book it reaches represents the well-formed market that the same run of
  the reference market reaches, with the same reports (`run_refines`).
-/
import InterviewPrep.Lib.Run
import InterviewPrep.OrderMatching.MatchLoop

namespace InterviewPrep.OrderMatching

open Lib List Memory Option

/-! ## The fill-or-kill check -/

section Available

variable {taker : Order} {L M : List Order} {s : Side}

theorem available_append (taker : Order) (L M : List Order) :
    available taker (L ++ M) = available taker L + available taker M := by
  simp [available]

theorem available_of_accepts (h : ∀ o ∈ L, taker.accepts o.tick) :
    available taker L = (L.map Order.remaining).sum := by
  rw [available, filter_eq_self.mpr h]

theorem available_of_not_accepts (h : ∀ o ∈ L, taker.accepts o.tick = false) :
    available taker L = 0 := by
  rw [available, filter_eq_nil_iff.mpr fun o ho => by simp [h o ho]]
  rfl

theorem available_nonneg (taker : Order) (h : ∀ o ∈ L, 0 < o.remaining) :
    0 ≤ available taker L := by
  refine sum_nonneg fun q hq => ?_
  obtain ⟨o, ho, rfl⟩ := List.mem_map.mp hq
  exact (h o (mem_filter.mp ho).1).le

theorem canFillLoop_spec {mem : Memory Order} {ps : List Int} {levels : List PriceLevel}
    {acc : Int} (htype : taker.orderType = .limit → ∃ p, taker.price = some p)
    (hs : taker.side = s.opposite) (hpos : ∀ o ∈ L, 0 < o.remaining)
    (hps : ps.Pairwise fun p q => s.key p < s.key q)
    (hrep : List.Forall₂ (fun p level => LevelRep mem level p (atPrice p L) ∧ atPrice p L ≠ []) ps
      levels) (hacc : acc < taker.quantity) : OrderBook.canFillLoop taker levels acc =
      .ok (decide (taker.quantity ≤ acc + available taker (ps.flatMap fun p => atPrice p L))) := by
  induction hrep generalizing acc with
  | nil =>
    rw [OrderBook.canFillLoop, Except.ok.injEq, eq_comm, decide_eq_false_iff_not]
    simpa [available] using hacc
  | @cons p level ps _ hlevel _ ih =>
    obtain ⟨hp, hps⟩ := pairwise_cons.mp hps
    have htick : ∀ q, ∀ o ∈ atPrice q L, o.tick = q := fun q o ho => by
      simp [Order.tick, (mem_atPrice.mp ho).2]
    have hposp : ∀ o ∈ ps.flatMap fun p => atPrice p L, 0 < o.remaining := by
      intro o ho
      obtain ⟨q, -, hq⟩ := mem_flatMap.mp ho
      exact hpos o (mem_atPrice.mp hq).1
    rw [flatMap_cons, available_append]
    simp only [OrderBook.canFillLoop, hlevel.1.price, crosses_eq htype, bind, Except.bind]
    cases haccp : taker.accepts p with
    | false =>
      have hnone : ∀ q ∈ p :: ps, ∀ o ∈ atPrice q L, taker.accepts o.tick = false := by
        intro q hq o ho
        rw [htick q o ho]
        rcases mem_cons.mp hq with rfl | hq
        · exact haccp
        · exact not_accepts_of_key_le hs haccp (hp q hq).le
      rw [available_of_not_accepts (hnone p (mem_cons_self ..)),
        available_of_not_accepts fun o ho => ?_]
      · simpa [pure, Except.pure] using hacc
      · obtain ⟨q, hq, hoq⟩ := mem_flatMap.mp ho
        exact hnone q (mem_cons_of_mem _ hq) o hoq
    | true =>
      have hall : ∀ o ∈ atPrice p L, taker.accepts o.tick := fun o ho => by
        rw [htick p o ho, haccp]
      rw [available_of_accepts hall, ← hlevel.1.total, ← add_assoc]
      have hnn := available_nonneg taker hposp
      by_cases hge : taker.quantity ≤ acc + level.totalQuantity
      · simp only [if_true, ge_iff_le, if_pos hge, pure, Except.pure, Except.ok.injEq]
        exact (decide_eq_true (by omega)).symm
      · simp only [if_true, ge_iff_le, if_neg hge]
        exact ih hps (not_le.mp hge)

end Available

namespace BookRep

variable {book : OrderBook} {mk : Market} {seq : Int}

theorem canFillCompletely (h : BookRep book mk) (hr : ∀ s, Ranked s (mk.ownSide s)) {o : Order}
    (htype : o.orderType = .limit → ∃ p, o.price = some p) (hq : 0 < o.quantity) :
    book.canFillCompletely o =
      .ok (decide (o.quantity ≤ available o (mk.ownSide o.side.opposite))) := by
  set c := o.side.opposite with hc
  obtain ⟨ps, hps, hflat, hall⟩ := (h.side c).levelsBestFirst (hr c)
  have hside : o.side = c.opposite := by rw [hc, Side.opposite_opposite]
  have hloop := canFillLoop_spec htype hside (fun x hx => ((hr c).resting x hx).remaining_pos)
    hps hall hq
  rw [← hflat, zero_add] at hloop
  rw [OrderBook.canFillCompletely, ← hc, hloop]

/-! ## Resting and cancelling -/

theorem rest (h : BookRep book mk) (hr : ∀ s, Ranked s (mk.ownSide s)) {o : Order}
    (ho : Resting o.side o) (hid : ∀ x ∈ mk.orders, x.orderId < o.orderId) :
    ∃ book', book.rest o = .ok book' ∧ BookRep book' (mk.rest o) := by
  set s := o.side with hs
  set mem := (book.mem.alloc o).2 with hmem
  have hread : mem.read book.mem.next = o := read_alloc_self ..
  have hold : ∀ t i r, (book.ownSide t).Holds i r → mem.read r = book.mem.read r := by
    intro t i r hh
    exact read_alloc_of_ne _ _ (Nat.ne_of_lt (h.alloc t i r hh))
  have hside : ∀ t, SideRep mem (book.ownSide t) t (mk.ownSide t) := fun t =>
    (h.side t).frame fun q level i r hq hi => hold t i r ⟨q, level, hq, hi⟩
  have hids : ∀ x ∈ mk.ownSide s, x.orderId < o.orderId := fun x hx =>
    hid x (Market.mem_orders.mpr ⟨s, hx⟩)
  obtain ⟨b', hadd, hrep, hholds⟩ := (hside s).add (hr s) (r := book.mem.next)
    (by rw [hread]; exact ho) (by rw [hread]; exact hids)
  rw [hread] at hrep hholds
  set book' : OrderBook := { book.setSide s b' with
    live := book.live.set o.orderId book.mem.next, mem } with hbook'
  have hown : book'.ownSide s = b' := OrderBook.ownSide_setSide book s b'
  have hownt : ∀ t, t ≠ s → book'.ownSide t = book.ownSide t :=
    fun t ht => OrderBook.ownSide_setSide_of_ne book b' ht
  refine ⟨book', ?_, fun t => ?_, fun i r => ?_, fun t i r hh => ?_, ?_⟩
  · simp only [OrderBook.rest, bind, Except.bind, alloc_ref, ← hs, ← hmem, hadd, pure,
      Except.pure, hbook']
  · by_cases ht : t = s
    · rw [ht, hown, Market.rest, Market.ownSide_setSide]
      exact hrep
    · rw [hownt t ht, Market.rest, Market.ownSide_setSide_of_ne _ _ ht]
      exact hside t
  · -- the new id is in neither side yet
    have hfresh : ∀ t r', ¬ (book.ownSide t).Holds o.orderId r' := by
      intro t r' hh
      obtain ⟨hm, he⟩ := (h.side t).mem_of_holds hh
      exact absurd (hid _ (Market.mem_orders.mpr ⟨t, hm⟩)) (by rw [he]; exact lt_irrefl _)
    rw [Dict.get?_set]
    by_cases hi : i = o.orderId
    · subst hi
      rw [if_pos rfl, Option.some.injEq]
      constructor
      · rintro rfl
        exact ⟨s, by rw [hown, hholds]; exact Or.inl ⟨rfl, rfl⟩⟩
      rintro ⟨t, hh⟩
      by_cases ht : t = s
      · rw [ht, hown, hholds] at hh
        rcases hh with hh | hh
        · exact hh.2.symm
        · exact absurd hh (hfresh s r)
      · rw [hownt t ht] at hh
        exact absurd hh (hfresh t r)
    · rw [if_neg hi, h.live]
      refine exists_congr fun t => ?_
      by_cases ht : t = s
      · rw [ht, hown, hholds]
        simp [hi]
      · rw [hownt t ht]
  · show r < book.mem.next + 1
    by_cases ht : t = s
    · rw [ht, hown, hholds] at hh
      rcases hh with ⟨-, rfl⟩ | hh
      · exact Nat.lt_succ_self _
      · exact Nat.lt_succ_of_lt (h.alloc s i r hh)
    · rw [hownt t ht] at hh
      exact Nat.lt_succ_of_lt (h.alloc t i r hh)
  · show (book.setSide s b').tradeIds = _
    rw [OrderBook.tradeIds_setSide, h.tradeIds, Market.rest, Market.tradeIds_setSide]

theorem find?_eq (h : BookRep book mk) (hwf : mk.WellFormed) (i : Int) :
    mk.find? i = (book.live.get? i).map book.mem.read := by
  cases hl : book.live.get? i with
  | none =>
    rw [map_none, Market.find?, find?_eq_none]
    intro o ho he
    obtain ⟨s, hos⟩ := Market.mem_orders.mp ho
    obtain ⟨r, hh, -⟩ := (h.side s).holds_of_mem hos ((hwf.ranked s).resting o hos).price
    have := (h.live _ r).mpr ⟨s, hh⟩
    rw [show o.orderId = i by simpa using he, hl] at this
    cases this
  | some r =>
    obtain ⟨s, hh⟩ := (h.live i r).mp hl
    obtain ⟨hm, he⟩ := (h.side s).mem_of_holds hh
    rw [map_some, ← he]
    exact Market.find?_of_mem hwf (Market.mem_orders.mpr ⟨s, hm⟩)

theorem cancel (h : BookRep book mk) (hwf : mk.WellFormed) (seq : Int) (cmd : CancelOrder) :
    ∃ book', book.cancel seq cmd = .ok ((mk.cancel seq cmd).1, book') ∧
      BookRep book' (mk.cancel seq cmd).2 := by
  have hfind := h.find?_eq hwf cmd.orderId
  cases hl : book.live.get? cmd.orderId with
  | none =>
    rw [hl, map_none] at hfind
    refine ⟨book, ?_, ?_⟩
    · simp only [OrderBook.cancel, hl, Market.cancel, hfind]
    · rw [Market.cancel, hfind]
      exact h
  | some r =>
  rw [hl, map_some] at hfind
  obtain ⟨s, hh⟩ := (h.live _ r).mp hl
  obtain ⟨hm, he⟩ := (h.side s).mem_of_holds hh
  set o := book.mem.read r with ho
  obtain rfl : o.side = s := ((hwf.ranked s).resting o hm).side
  have hids : ((mk.ownSide o.side).map Order.orderId).Nodup := hwf.ids _
  obtain ⟨b', hrem, hrep, hholds⟩ := (h.side o.side).remove hids hh
  set mem := book.mem.write r { o with status := .cancelled } with hmem
  set book' : OrderBook := { book.setSide o.side b' with
    live := book.live.erase cmd.orderId, mem } with hbook'
  have hown : book'.ownSide o.side = b' := OrderBook.ownSide_setSide book o.side b'
  have hownt : ∀ t, t ≠ o.side → book'.ownSide t = book.ownSide t :=
    fun t ht => OrderBook.ownSide_setSide_of_ne book b' ht
  -- no other (id, object) pair of the book has the object `r`
  have huniq : ∀ t i r', (book.ownSide t).Holds i r' → i ≠ cmd.orderId → r' ≠ r := by
    rintro t i r' hh' hi rfl
    exact hi (((h.side t).mem_of_holds hh').2.symm.trans he)
  have hkeep : ∀ t i r', (book'.ownSide t).Holds i r' ↔
      i ≠ cmd.orderId ∧ (book.ownSide t).Holds i r' := by
    intro t i r'
    by_cases ht : t = o.side
    · rw [ht, hown, hholds]
    rw [hownt t ht]
    refine ⟨fun hh' => ⟨?_, hh'⟩, And.right⟩
    rintro rfl
    have h1 := (h.live _ r').mpr ⟨t, hh'⟩
    rw [hl] at h1
    cases h1
    exact ht (h.holds_side hwf.ranked hh').symm
  refine ⟨book', ?_, fun t => ?_, fun i r' => ?_, fun t i r' hh' => ?_, ?_⟩
  · simp only [OrderBook.cancel, hl, ← ho, hrem, bind, Except.bind, pure, Except.pure,
      Market.cancel, hfind, hbook', hmem]
  · have hcancel : (mk.cancel seq cmd).2 =
        mk.setSide o.side ((mk.ownSide o.side).filter fun x => x.orderId ≠ cmd.orderId) := by
      rw [Market.cancel, hfind]
      simp only [he]
    rw [hcancel]
    have hframe : ∀ i r', (book'.ownSide t).Holds i r' → mem.read r' = book.mem.read r' := by
      intro i r' hh'
      obtain ⟨hi, hh'⟩ := (hkeep t i r').mp hh'
      exact read_write_of_ne _ _ (huniq t i r' hh' hi)
    by_cases ht : t = o.side
    · rw [ht] at hframe ⊢
      rw [Market.ownSide_setSide]
      rw [hown] at hframe ⊢
      exact hrep.frame fun q level i r' hq hi => hframe i r' ⟨q, level, hq, hi⟩
    · rw [Market.ownSide_setSide_of_ne _ _ ht]
      rw [hownt t ht] at hframe ⊢
      exact (h.side t).frame fun q level i r' hq hi => hframe i r' ⟨q, level, hq, hi⟩
  · show (book.live.erase cmd.orderId).get? i = some r' ↔ _
    simp only [hkeep, exists_and_left, ← h.live]
    rw [Dict.get?_erase]
    by_cases hi : i = cmd.orderId <;> simp [hi]
  · exact h.alloc t i r' ((hkeep t i r').mp hh').2
  · show (book.setSide o.side b').tradeIds = _
    rw [OrderBook.tradeIds_setSide, h.tradeIds, Market.cancel, hfind]
    exact (Market.tradeIds_setSide ..).symm

/-! ## Commands -/

theorem matchAndRest (h : BookRep book mk) (hwf : mk.WellFormed) {cmd : NewOrder} (hv : cmd.Valid)
    (hseq : mk.Below seq) (events : List Event) :
    ∃ book', book.matchAndRest seq (Order.init seq cmd) events =
        .ok ((mk.matchAndRest seq (Order.init seq cmd) events).1, book') ∧
      BookRep book' (mk.matchAndRest seq (Order.init seq cmd) events).2 := by
  set order := Order.init seq cmd with horder
  have htype : order.orderType = .limit → ∃ p, order.price = some p := fun ht => by
    obtain ⟨p, hp, -⟩ := hv.limit ht
    exact ⟨p, hp⟩
  obtain ⟨book1, hrun, hrep1⟩ := matchLoop_spec seq events h hwf.ranked htype
    hv.quantity_pos.le (Nat.lt_succ_self _)
  set s := mk.take seq order with hs
  have hterms : order.SameTerms s.taker := sweep_taker ..
  have hmatch : book.match_ seq order events =
      .ok (book1, s.taker, events ++ s.trades.map .trade) := hrun
  have hwf1 := hwf.afterSweep seq order order.side.opposite
  by_cases hleft : 0 < s.taker.remaining
  · by_cases hrest : order.orderType = .limit ∧ order.tif = .gtc
    · have hresting : Resting s.taker.side s.taker := by
        rw [hterms.side]
        exact hwf.resting_taker hv hrest.1 hleft
      have hnew : ∀ x ∈ (mk.afterSweep order.side.opposite s).orders,
          x.orderId < s.taker.orderId := by
        rw [hterms.orderId]
        exact hseq.afterSweep hwf
      obtain ⟨book2, hrest2, hrep2⟩ := hrep1.rest hwf1.ranked hresting hnew
      refine ⟨book2, ?_, ?_⟩
      · have hprice : s.taker.price.getD 0 = order.tick := by rw [hterms.price]; rfl
        simp only [OrderBook.matchAndRest, hmatch, bind, Except.bind, hleft, if_true,
          hterms.orderType, hterms.tif, hrest, and_self, hrest2, pure, Except.pure,
          Market.matchAndRest, ← hs, hprice, hterms.orderId, hterms.side]
      · simp only [Market.matchAndRest, ← hs, hleft, if_true, hrest, and_self]
        exact hrep2
    · refine ⟨book1, ?_, ?_⟩
      · simp only [OrderBook.matchAndRest, hmatch, bind, Except.bind, hleft, if_true,
          hterms.orderType, hterms.tif, hrest, if_false, pure, Except.pure,
          Market.matchAndRest, ← hs, hterms.orderId]
      · simp only [Market.matchAndRest, ← hs, hleft, if_true, hrest, if_false]
        exact hrep1
  · refine ⟨book1, ?_, ?_⟩
    · simp only [OrderBook.matchAndRest, hmatch, bind, Except.bind, hleft, if_false, pure,
        Except.pure, Market.matchAndRest, ← hs]
    · simp only [Market.matchAndRest, ← hs, hleft, if_false]
      exact hrep1

theorem newOrder (h : BookRep book mk) (hwf : mk.WellFormed) (hseq : mk.Below seq) (cmd : NewOrder)
    : ∃ book', book.newOrder seq cmd = .ok ((mk.newOrder seq cmd).1, book') ∧
      BookRep book' (mk.newOrder seq cmd).2 := by
  cases hv : OrderBook.validate cmd with
  | some =>
    refine ⟨book, ?_, ?_⟩
    · simp only [OrderBook.newOrder, Market.newOrder, hv]
    · simp only [Market.newOrder, hv]
      exact h
  | none =>
  have hvalid := validate_eq_none.mp hv
  obtain ⟨book', hrun, hrep⟩ := h.matchAndRest hwf hvalid hseq [.orderAccepted seq seq]
  by_cases htif : cmd.tif = .fok
  · have hfok := h.canFillCompletely hwf.ranked (o := Order.init seq cmd)
      (fun ht => (hvalid.limit ht).imp fun _ => And.left) hvalid.quantity_pos
    have htif' : (Order.init seq cmd).tif = .fok := htif
    by_cases hkill : available (Order.init seq cmd) (mk.ownSide cmd.side.opposite) < cmd.quantity
    · have hfok' : book.canFillCompletely (Order.init seq cmd) = .ok false := by
        rw [hfok, Except.ok.injEq, decide_eq_false_iff_not]
        exact not_le.mpr hkill
      refine ⟨book, ?_, ?_⟩
      · simp only [OrderBook.newOrder, Market.newOrder, hv, htif', htif, hkill, hfok', and_self,
          if_true, bind, Except.bind, Functor.map, Except.map, Bool.not_false, pure,
          Except.pure]
        rfl
      · simp only [Market.newOrder, hv, htif, hkill, and_self, if_true]
        exact h
    have hfok' : book.canFillCompletely (Order.init seq cmd) = .ok true := by
      rw [hfok, Except.ok.injEq, decide_eq_true_iff]
      exact not_lt.mp hkill
    refine ⟨book', ?_, ?_⟩
    · simp only [OrderBook.newOrder, Market.newOrder, hv, htif', hkill, hfok', and_false,
        if_true, if_false, bind, Except.bind, Functor.map, Except.map, Bool.not_true,
        Bool.false_eq_true]
      exact hrun
    · simp only [Market.newOrder, hv, hkill, and_false, if_false]
      exact hrep
  · have htif' : ¬ (Order.init seq cmd).tif = .fok := htif
    refine ⟨book', ?_, ?_⟩
    · simp only [OrderBook.newOrder, Market.newOrder, hv, htif', htif, false_and, if_false,
        bind, Except.bind, pure, Except.pure, Bool.false_eq_true]
      exact hrun
    · simp only [Market.newOrder, hv, htif, false_and, if_false]
      exact hrep

theorem apply_refines (h : BookRep book mk) (hwf : mk.WellFormed) (hseq : mk.Below seq)
    (cmd : Command) : ∃ book', book.apply seq (.command cmd) = .ok ((mk.apply seq cmd).1, book') ∧
      BookRep book' (mk.apply seq cmd).2 := by
  cases cmd with
  | newOrder cmd => exact h.newOrder hwf hseq cmd
  | cancelOrder cmd => exact h.cancel hwf seq cmd

end BookRep

theorem bookRep_init (instrument : Instrument) :
    BookRep (OrderBook.init instrument) Market.init := by
  have hside : ∀ s, (OrderBook.init instrument).ownSide s = BookSide.init s := fun s => by
    cases s <;> rfl
  have hnone : ∀ s i r, ¬ ((OrderBook.init instrument).ownSide s).Holds i r := by
    rintro s i r ⟨p, level, hl, -⟩
    rw [hside] at hl
    cases hl
  refine ⟨fun s => ?_, fun i r => ?_, fun s i r hh => absurd hh (hnone s i r), rfl⟩
  · rw [hside]
    cases s <;> exact SideRep.init _ _
  · constructor
    · intro hl
      cases hl
    · rintro ⟨s, hh⟩
      exact absurd hh (hnone s i r)

/-- A command with the sequence number it was given. -/
abbrev Sequenced := Int × Command

/-- The sequence numbers increase strictly. -/
def Increasing (cmds : List Sequenced) : Prop := (cmds.map Prod.fst).Pairwise (· < ·)

instance (cmds : List Sequenced) : Decidable (Increasing cmds) :=
  inferInstanceAs (Decidable (List.Pairwise _ _))

def OrderBook.step (book : OrderBook) (cmd : Sequenced) :
    Except PyError (ExecutionReport × OrderBook) :=
  book.apply cmd.1 (.command cmd.2)

def Market.step (mk : Market) (cmd : Sequenced) : Except PyError (ExecutionReport × Market) :=
  .ok (mk.apply cmd.1 cmd.2)

theorem Market.step_eq (mk : Market) (cmd : Sequenced) :
    mk.step cmd = .ok ((mk.apply cmd.1 cmd.2).1, (mk.apply cmd.1 cmd.2).2) := rfl

/-- The events a run publishes, in order. -/
def publishedEvents (reports : List ExecutionReport) : List Event :=
  reports.flatMap ExecutionReport.events

section

variable {cmds : List Sequenced} {cmd : Sequenced}

theorem increasing_nil : Increasing [] := List.Pairwise.nil

theorem increasing_append_singleton :
    Increasing (cmds ++ [cmd]) ↔ Increasing cmds ∧ ∀ c ∈ cmds, c.1 < cmd.1 := by
  simp only [Increasing, map_append, map_cons, map_nil, pairwise_append,
    pairwise_singleton, true_and, List.forall_mem_map, mem_singleton, forall_eq]

@[simp] theorem publishedEvents_nil : publishedEvents [] = [] := rfl

@[simp] theorem publishedEvents_append_singleton (reports : List ExecutionReport)
    (report : ExecutionReport) :
    publishedEvents (reports ++ [report]) = publishedEvents reports ++ report.events := by
  simp [publishedEvents]

theorem wellFormed_init : Market.init.WellFormed := by
  refine ⟨fun s => ?_, fun s => ?_, fun b hb => ?_, fun b hb => ?_⟩
  · cases s <;> exact Ranked.nil _
  · cases s <;> exact nodup_nil
  · cases hb
  · cases hb

/-- The market after `cmds` is well-formed, and a sequence number newer than `cmds`
    than its orders. -/
structure Market.Reached (cmds : List Sequenced) (mk : Market) : Prop where
  wellFormed : mk.WellFormed
  below : ∀ seq, (∀ c ∈ cmds, c.1 < seq) → mk.Below seq

theorem reached_init : Market.init.Reached [] where
  wellFormed := wellFormed_init
  below _ _ order horder := by cases horder

theorem Market.Reached.step {mk : Market} (h : mk.Reached cmds)
    (hinc : Increasing (cmds ++ [cmd])) :
    mk.Outcome cmd.1 cmd.2 (mk.apply cmd.1 cmd.2).1.events (mk.apply cmd.1 cmd.2).2 ∧
      mk.Below cmd.1 ∧ (mk.apply cmd.1 cmd.2).2.Reached (cmds ++ [cmd]) := by
  have hb : mk.Below cmd.1 := h.below _ (increasing_append_singleton.mp hinc).2
  have hout := mk.apply_outcome cmd.1 cmd.2
  obtain ⟨hwf, hle⟩ := hout.wellFormed h.wellFormed hb
  refine ⟨hout, hb, hwf, fun seq hseq o ho => ?_⟩
  exact lt_of_le_of_lt (hle o ho) (hseq cmd (mem_append_right _ (mem_singleton_self _)))

/-- What each command keeps of the priority lists holds after a run. -/
theorem market_run (I : List Sequenced → List ExecutionReport → Market → Prop)
    (hinit : I [] [] Market.init)
    (hstep : ∀ cmds reports mk cmd, mk.Reached cmds → Increasing (cmds ++ [cmd]) →
      mk.Below cmd.1 → I cmds reports mk →
      mk.Outcome cmd.1 cmd.2 (mk.apply cmd.1 cmd.2).1.events (mk.apply cmd.1 cmd.2).2 →
      I (cmds ++ [cmd]) (reports ++ [(mk.apply cmd.1 cmd.2).1]) (mk.apply cmd.1 cmd.2).2)
    (cmds : List Sequenced) (hinc : Increasing cmds) :
    ∃ reports mk, runSteps Market.step Market.init cmds = .ok (reports, mk) ∧
      mk.Reached cmds ∧ I cmds reports mk := by
  refine runSteps_induction Market.step Market.init Increasing
    (fun _ _ h => (increasing_append_singleton.mp h).1)
    (fun cmds reports mk => mk.Reached cmds ∧ I cmds reports mk) ⟨reached_init, hinit⟩ ?_ cmds hinc
  intro cmds reports mk cmd _ hinc ⟨hreach, hI⟩
  obtain ⟨hout, hb, hreach'⟩ := hreach.step hinc
  exact ⟨_, _, mk.step_eq cmd, hreach', hstep cmds reports mk cmd hreach hinc hb hI hout⟩

/-- Every run of the book gives the reports of the priority lists. -/
theorem run_refines (instrument : Instrument) (hinc : Increasing cmds) : ∃ reports book mk,
      runSteps OrderBook.step (OrderBook.init instrument) cmds = .ok (reports, book) ∧
      runSteps Market.step Market.init cmds = .ok (reports, mk) ∧
      BookRep book mk ∧ mk.Reached cmds := by
  have hrun := runSteps_induction OrderBook.step (OrderBook.init instrument) Increasing
    (fun _ _ h => (increasing_append_singleton.mp h).1)
    (fun cmds reports book => ∃ mk, runSteps Market.step Market.init cmds = .ok (reports, mk) ∧
      BookRep book mk ∧ mk.Reached cmds)
    ⟨_, rfl, bookRep_init instrument, reached_init⟩ ?_ cmds hinc
  · obtain ⟨reports, book, hok, mk, h⟩ := hrun
    exact ⟨reports, book, mk, hok, h⟩
  · rintro cmds reports book cmd - hinc ⟨mk, hmk, hrep, hreach⟩
    obtain ⟨-, hb, hreach'⟩ := hreach.step hinc
    obtain ⟨book', hstep, hrep'⟩ := hrep.apply_refines hreach.wellFormed hb cmd.2
    have hmk' := runSteps_append hmk (runSteps_cons_ok (mk.step_eq cmd) (runSteps_nil _))
    exact ⟨_, book', hstep, _, hmk', hrep', hreach'⟩

theorem run_market {instrument : Instrument} (hinc : Increasing cmds)
    {reports : List ExecutionReport} {book : OrderBook}
    (hrun : runSteps OrderBook.step (OrderBook.init instrument) cmds = .ok (reports, book)) :
    ∃ mk, runSteps Market.step Market.init cmds = .ok (reports, mk) ∧ BookRep book mk ∧
      mk.Reached cmds := by
  obtain ⟨reports', book', mk, hrun', h⟩ := run_refines instrument hinc
  rw [hrun] at hrun'
  cases hrun'
  exact ⟨mk, h⟩

end

end InterviewPrep.OrderMatching
