/-
  What a sweep does: it conserves quantity between the taker and the makers, leaves every maker it
  does not exhaust in place, and stops only when the taker is filled or the next price does not
  cross.

  The market stays well-formed: each side in priority order, ids unique, and the best bid below
  the best ask, because a sweep exhausts every crossing maker before the rest of the taker may
  join its own side.

  A command's sequence number becomes the id of its order, so a step needs it to be newer than
  every resting order (`Market.Below`); strictly increasing sequence numbers provide that along
  every run.
-/
import InterviewPrep.OrderMatching.SideRep
import Mathlib.Algebra.Order.BigOperators.Group.List

namespace InterviewPrep.OrderMatching

open List OrderMatching.Order

/-- The order differs from `o` in its remaining quantity and its status only. -/
structure Order.SameTerms (o o' : Order) : Prop where
  orderId : o'.orderId = o.orderId
  side : o'.side = o.side
  orderType : o'.orderType = o.orderType
  tif : o'.tif = o.tif
  quantity : o'.quantity = o.quantity
  price : o'.price = o.price

namespace Order.SameTerms

variable {o o' o'' : Order}

theorem refl (o : Order) : o.SameTerms o := ⟨rfl, rfl, rfl, rfl, rfl, rfl⟩

theorem filledBy (o : Order) (q : Int) : o.SameTerms (o.filledBy q) :=
  ⟨rfl, rfl, rfl, rfl, rfl, rfl⟩

theorem trans (h : o.SameTerms o') (h' : o'.SameTerms o'') : o.SameTerms o'' :=
  ⟨h'.orderId.trans h.orderId, h'.side.trans h.side, h'.orderType.trans h.orderType,
    h'.tif.trans h.tif, h'.quantity.trans h.quantity, h'.price.trans h.price⟩

theorem tick (h : o.SameTerms o') : o'.tick = o.tick := by
  rw [Order.tick, Order.tick, h.price]

theorem accepts (h : o.SameTerms o') : o'.accepts = o.accepts := by
  funext p
  simp only [Order.accepts, h.orderType, h.side, h.tick]

end Order.SameTerms

section

variable {seq : Int} {tradeId : Nat} {taker maker : Order} {L : List Order} {s : Side}

theorem sweep_nil : sweep seq tradeId taker [] = ⟨[], taker, []⟩ := rfl

theorem sweep_stop (h : ¬ (0 < taker.remaining ∧ taker.accepts maker.tick)) :
    sweep seq tradeId taker (maker :: L) = ⟨[], taker, maker :: L⟩ :=
  if_neg h

theorem sweep_step (h : 0 < taker.remaining ∧ taker.accepts maker.tick) :
    sweep seq tradeId taker (maker :: L) =
      { trades := tradeOf seq tradeId taker maker (min taker.remaining maker.remaining) ::
          (sweep seq (tradeId + 1)
            (taker.filledBy (min taker.remaining maker.remaining)) L).trades
        taker := (sweep seq (tradeId + 1)
          (taker.filledBy (min taker.remaining maker.remaining)) L).taker
        makers := (maker.filledBy (min taker.remaining maker.remaining)).residue ++
          (sweep seq (tradeId + 1)
            (taker.filledBy (min taker.remaining maker.remaining)) L).makers } :=
  if_pos h

theorem sweep_done (h : taker.remaining ≤ 0) : sweep seq tradeId taker L = ⟨[], taker, L⟩ := by
  cases L with
  | nil => rfl
  | cons => exact sweep_stop fun hh => absurd hh.1 (not_lt.mpr h)

theorem sweep_taker (seq : Int) (tradeId : Nat) (taker : Order) (L : List Order) :
    taker.SameTerms (sweep seq tradeId taker L).taker := by
  induction L generalizing tradeId taker with
  | nil => exact Order.SameTerms.refl taker
  | cons maker _ ih =>
    by_cases h : 0 < taker.remaining ∧ taker.accepts maker.tick
    · rw [sweep_step h]
      exact (Order.SameTerms.filledBy taker _).trans (ih _ _)
    · rw [sweep_stop h]
      exact Order.SameTerms.refl taker

theorem sweep_append {Q R : List Order} (hQ : ∀ o ∈ Q, taker.accepts o.tick) :
    sweep seq tradeId taker (Q ++ R) =
      let first := sweep seq tradeId taker Q
      let rest := sweep seq (tradeId + first.trades.length) first.taker R
      ⟨first.trades ++ rest.trades, rest.taker, first.makers ++ rest.makers⟩ := by
  induction Q generalizing tradeId taker with
  | nil => simp [sweep_nil]
  | cons maker Q ih =>
    by_cases h : 0 < taker.remaining
    · have hstep := And.intro h (hQ maker (mem_cons_self ..))
      have hQ' : ∀ o ∈ Q,
          (taker.filledBy (min taker.remaining maker.remaining)).accepts o.tick := by
        intro o ho
        exact hQ o (mem_cons_of_mem _ ho)
      rw [cons_append, sweep_step hstep, sweep_step hstep, ih hQ']
      generalize sweep seq (tradeId + 1)
        (taker.filledBy (min taker.remaining maker.remaining)) Q = first
      have hid : tradeId + (first.trades.length + 1) = tradeId + 1 + first.trades.length := by
        omega
      simp only [length_cons, cons_append, append_assoc, hid]
    · have hdone : taker.remaining ≤ 0 := not_lt.mp h
      simp only [sweep_done hdone, length_nil, Nat.add_zero, nil_append]

theorem sweep_remaining (seq : Int) (tradeId : Nat) (taker : Order) (L : List Order) :
    (sweep seq tradeId taker L).taker.remaining +
      ((sweep seq tradeId taker L).trades.map Trade.quantity).sum = taker.remaining := by
  induction L generalizing tradeId taker with
  | nil => simp [sweep_nil]
  | cons maker _ ih =>
    by_cases h : 0 < taker.remaining ∧ taker.accepts maker.tick
    · rw [sweep_step h]
      have := ih (tradeId + 1) (taker.filledBy (min taker.remaining maker.remaining))
      simp only [map_cons, sum_cons, tradeOf, filledBy_remaining] at this ⊢
      omega
    · simp [sweep_stop h]

theorem sweep_trade_pos (hpos : ∀ o ∈ L, 0 < o.remaining) :
    ∀ t ∈ (sweep seq tradeId taker L).trades, 0 < t.quantity := by
  induction L generalizing tradeId taker with
  | nil => simp [sweep_nil]
  | cons maker _ ih =>
    by_cases h : 0 < taker.remaining ∧ taker.accepts maker.tick
    · rw [sweep_step h]
      intro t ht
      rcases mem_cons.mp ht with rfl | ht
      · exact lt_min h.1 (hpos maker (mem_cons_self ..))
      · exact ih (fun o ho => hpos o (mem_cons_of_mem _ ho)) t ht
    · simp [sweep_stop h]

theorem sweep_remaining_le (seq : Int) (tradeId : Nat) (taker : Order)
    (hpos : ∀ o ∈ L, 0 < o.remaining) :
    (sweep seq tradeId taker L).taker.remaining ≤ taker.remaining := by
  have hsum := sweep_remaining seq tradeId taker L
  have : 0 ≤ ((sweep seq tradeId taker L).trades.map Trade.quantity).sum := by
    refine sum_nonneg fun q hq => ?_
    obtain ⟨t, ht, rfl⟩ := mem_map.mp hq
    exact (sweep_trade_pos hpos t ht).le
  omega

theorem sweep_remaining_lt (seq : Int) (tradeId : Nat) (hpos : ∀ o ∈ maker :: L, 0 < o.remaining)
    (h : 0 < taker.remaining ∧ taker.accepts maker.tick) :
    (sweep seq tradeId taker (maker :: L)).taker.remaining < taker.remaining := by
  rw [sweep_step h]
  have hle := sweep_remaining_le seq (tradeId + 1)
    (taker.filledBy (min taker.remaining maker.remaining))
    fun o ho => hpos o (mem_cons_of_mem _ ho)
  have hm := hpos maker (mem_cons_self ..)
  simp only [filledBy_remaining] at hle ⊢
  omega

theorem sweep_remaining_nonneg (h0 : 0 ≤ taker.remaining) :
    0 ≤ (sweep seq tradeId taker L).taker.remaining := by
  induction L generalizing tradeId taker with
  | nil => exact h0
  | cons maker _ ih =>
    by_cases h : 0 < taker.remaining ∧ taker.accepts maker.tick
    · rw [sweep_step h]
      refine ih ?_
      simp only [filledBy_remaining]
      omega
    · rw [sweep_stop h]
      exact h0

/-- `o'` is what is left of the maker `o` while it is not exhausted. -/
structure Order.LeftOf (o' o : Order) : Prop where
  terms : o.SameTerms o'
  pos : 0 < o'.remaining
  le : o'.remaining ≤ o.remaining

theorem sweep_makers (seq : Int) (tradeId : Nat) (taker : Order)
    (hpos : ∀ o ∈ L, 0 < o.remaining) :
    List.SublistForall₂ Order.LeftOf (sweep seq tradeId taker L).makers L := by
  have hself : ∀ M : List Order, (∀ o ∈ M, 0 < o.remaining) →
      List.SublistForall₂ Order.LeftOf M M := by
    intro M hM
    induction M with
    | nil => exact List.SublistForall₂.nil
    | cons o _ ih =>
      exact List.SublistForall₂.cons
        ⟨Order.SameTerms.refl o, hM o (mem_cons_self ..), le_refl _⟩
        (ih fun x hx => hM x (mem_cons_of_mem _ hx))
  induction L generalizing tradeId taker with
  | nil => exact List.SublistForall₂.nil
  | cons maker _ ih =>
    by_cases h : 0 < taker.remaining ∧ taker.accepts maker.tick
    · rw [sweep_step h]
      have hrest := ih (tradeId + 1) (taker.filledBy (min taker.remaining maker.remaining))
        fun o ho => hpos o (mem_cons_of_mem _ ho)
      have hm := hpos maker (mem_cons_self ..)
      by_cases hz : (maker.filledBy (min taker.remaining maker.remaining)).remaining = 0
      · rw [Order.residue, if_pos hz, nil_append]
        exact List.SublistForall₂.cons_right hrest
      · rw [Order.residue, if_neg hz, singleton_append]
        refine List.SublistForall₂.cons ⟨Order.SameTerms.filledBy maker _, ?_, ?_⟩ hrest
        · simp only [filledBy_remaining] at hz ⊢
          omega
        · simp only [filledBy_remaining]
          omega
    · rw [sweep_stop h]
      exact hself _ hpos

theorem sweep_makers_mem (hpos : ∀ o ∈ L, 0 < o.remaining) {o' : Order}
    (ho' : o' ∈ (sweep seq tradeId taker L).makers) : ∃ o ∈ L, o'.LeftOf o := by
  obtain ⟨M, hM, hsub⟩ := sublistForall₂_iff.mp
    (sweep_makers seq tradeId taker hpos)
  obtain ⟨i, hi, rfl⟩ := mem_iff_getElem.mp ho'
  have hi' : i < M.length := hM.length_eq ▸ hi
  exact ⟨M[i], hsub.subset (getElem_mem hi'), hM.get hi hi'⟩

theorem sweep_makers_map {β : Type*} (seq : Int) (tradeId : Nat) (taker : Order) (f : Order → β)
    (hf : ∀ o o', o.SameTerms o' → f o' = f o) (hpos : ∀ o ∈ L, 0 < o.remaining) :
    ((sweep seq tradeId taker L).makers.map f).Sublist (L.map f) := by
  obtain ⟨M, hM, hsub⟩ := sublistForall₂_iff.mp
    (sweep_makers seq tradeId taker hpos)
  have hmap : (sweep seq tradeId taker L).makers.map f = M.map f := by
    generalize (sweep seq tradeId taker L).makers = N at hM
    clear hsub
    induction hM with
    | nil => rfl
    | cons h _ ih => rw [map_cons, map_cons, hf _ _ h.terms, ih]
  rw [hmap]
  exact hsub.map f

theorem not_accepts_of_key_le {p q : Int} (hs : taker.side = s.opposite)
    (h : taker.accepts p = false) (hpq : s.key p ≤ s.key q) : taker.accepts q = false := by
  unfold Order.accepts at h ⊢
  cases htype : taker.orderType with
  | market => simp [htype] at h
  | limit =>
    cases s <;> simp only [hs, Side.opposite, Side.key, htype, decide_eq_false_iff_not,
      not_le, ge_iff_le] at h hpq ⊢ <;> omega

theorem sweep_exhausts (hs : taker.side = s.opposite) (hL : Ranked s L)
    (hleft : 0 < (sweep seq tradeId taker L).taker.remaining) :
    ∀ o ∈ (sweep seq tradeId taker L).makers, taker.accepts o.tick = false := by
  induction L generalizing tradeId taker with
  | nil => simp [sweep_nil]
  | cons maker _ ih =>
    by_cases h : 0 < taker.remaining ∧ taker.accepts maker.tick
    · rw [sweep_step h] at hleft ⊢
      have hm := (hL.resting maker (mem_cons_self ..)).remaining_pos
      have hrest := @ih (tradeId + 1) (taker.filledBy (min taker.remaining maker.remaining)) hs
        hL.tail hleft
      have hlt : 0 < (taker.filledBy (min taker.remaining maker.remaining)).remaining := by
        by_contra hle
        rw [sweep_done (not_lt.mp hle)] at hleft
        exact hle hleft
      -- the taker is not filled by this maker, so the maker is exhausted
      have hz : (maker.filledBy (min taker.remaining maker.remaining)).remaining = 0 := by
        simp only [filledBy_remaining] at hlt ⊢
        omega
      rw [Order.residue, if_pos hz, nil_append]
      exact hrest
    · rw [sweep_stop h] at hleft ⊢
      have hno : taker.accepts maker.tick = false := by
        simpa using fun hacc => h ⟨hleft, hacc⟩
      exact fun o ho => not_accepts_of_key_le hs hno (hL.head_key_le o ho)

theorem sweep_makers_nil (hL : ∀ o ∈ L, taker.accepts o.tick)
    (hleft : 0 < (sweep seq tradeId taker L).taker.remaining) :
    (sweep seq tradeId taker L).makers = [] := by
  induction L generalizing tradeId taker with
  | nil => rfl
  | cons maker _ ih =>
    have h : 0 < taker.remaining ∧ taker.accepts maker.tick := by
      refine ⟨?_, hL maker (mem_cons_self ..)⟩
      by_contra hle
      rw [sweep_done (not_lt.mp hle)] at hleft
      exact hle hleft
    rw [sweep_step h] at hleft ⊢
    have hrest := @ih (tradeId + 1) (taker.filledBy (min taker.remaining maker.remaining))
      (fun o ho => hL o (mem_cons_of_mem _ ho)) hleft
    have hlt : 0 < (taker.filledBy (min taker.remaining maker.remaining)).remaining := by
      by_contra hle
      rw [sweep_done (not_lt.mp hle)] at hleft
      exact hle hleft
    have hz : (maker.filledBy (min taker.remaining maker.remaining)).remaining = 0 := by
      simp only [filledBy_remaining] at hlt ⊢
      omega
    rw [Order.residue, if_pos hz, nil_append]
    exact hrest

end

/-! ## Valid orders -/

/-- What validation lets through. -/
structure NewOrder.Valid (cmd : NewOrder) : Prop where
  quantity_pos : 0 < cmd.quantity
  limit : cmd.orderType = .limit → ∃ p, cmd.price = some p ∧ 0 < p
  market : cmd.orderType = .market → cmd.price = none ∧ cmd.tif ≠ .gtc

theorem validate_eq_none {cmd : NewOrder} : OrderBook.validate cmd = none ↔ cmd.Valid := by
  unfold OrderBook.validate
  constructor
  · intro h
    split at h
    · cases h
    split at h
    · cases h
    split at h
    · cases h
    split at h
    · cases h
    rename_i hq hl hm hg
    refine ⟨not_le.mp hq, fun ht => ?_, fun ht => ⟨?_, fun hgtc => hg ⟨ht, hgtc⟩⟩⟩
    · cases hp : cmd.price with
      | none => exact absurd ⟨ht, Or.inl hp⟩ hl
      | some p =>
        refine ⟨p, rfl, ?_⟩
        by_contra hle
        exact hl ⟨ht, Or.inr (by simpa [hp] using hle)⟩
    · by_contra hp
      exact hm ⟨ht, hp⟩
  · intro h
    rw [if_neg (not_le.mpr h.quantity_pos), if_neg, if_neg, if_neg]
    · exact fun hh => (h.market hh.1).2 hh.2
    · exact fun hh => hh.2 (h.market hh.1).1
    · rintro ⟨ht, hp⟩
      obtain ⟨p, hp', hpos⟩ := h.limit ht
      rw [hp'] at hp
      rcases hp with hp | hp
      · cases hp
      · exact absurd hp (not_le.mpr hpos)

/-! ## Well-formed markets -/

/-- Each side is in priority order, ids are unique and the sides do not cross. -/
structure Market.WellFormed (mk : Market) : Prop where
  ranked : ∀ s, Ranked s (mk.ownSide s)
  ids : ∀ s, ((mk.ownSide s).map Order.orderId).Nodup
  disjoint : ∀ b ∈ mk.bids, ∀ a ∈ mk.asks, b.orderId ≠ a.orderId
  uncrossed : ∀ b ∈ mk.bids, ∀ a ∈ mk.asks, b.tick < a.tick

/-- Every resting order is older than sequence number `seq`. -/
def Market.Below (mk : Market) (seq : Int) : Prop := ∀ o ∈ mk.orders, o.orderId < seq

section Sweep

variable {seq : Int} {tradeId : Nat} {taker : Order} {L : List Order} {s : Side}

theorem Ranked.sweep (h : Ranked s L) : Ranked s (sweep seq tradeId taker L).makers := by
  have hpos : ∀ o ∈ L, 0 < o.remaining := fun o ho => (h.resting o ho).remaining_pos
  refine ⟨?_, fun o' ho' => ?_⟩
  · let f : Order → Int × Int := fun o => (o.tick, o.orderId)
    let before : Int × Int → Int × Int → Prop := fun x y =>
      s.key x.1 < s.key y.1 ∨ x.1 = y.1 ∧ x.2 < y.2
    have hsub := sweep_makers_map seq tradeId taker f
      (fun o o' ho => by simp only [f, ho.tick, ho.orderId]) hpos
    have hL : (L.map f).Pairwise before := pairwise_map.mpr h.sorted
    have hM := hL.sublist hsub
    rw [pairwise_map] at hM
    exact hM
  · obtain ⟨o, ho, hleft⟩ := sweep_makers_mem hpos ho'
    have hr := h.resting o ho
    have ht := hleft.terms
    exact ⟨ht.side.trans hr.side, ht.orderType.trans hr.orderType,
      by rw [ht.price, ht.tick, hr.price], ht.tick ▸ hr.tick_pos, hleft.pos,
      ht.quantity ▸ hleft.le.trans hr.remaining_le⟩

end Sweep

namespace Market

variable {mk : Market} {c : Side} {x o : Order} {seq : Int}

section

variable (h : mk.WellFormed)

include h

theorem WellFormed.apart {y : Order} (hx : x ∈ mk.ownSide c)
    (hy : y ∈ mk.ownSide c.opposite) : x.orderId ≠ y.orderId := by
  cases c with
  | buy => exact h.disjoint x hx y hy
  | sell => exact (h.disjoint y hy x hx).symm

theorem WellFormed.ids_orders : (mk.orders.map Order.orderId).Nodup := by
  rw [orders, map_append, nodup_append]
  refine ⟨h.ids .buy, h.ids .sell, fun i hi j hj => ?_⟩
  obtain ⟨b, hb, rfl⟩ := mem_map.mp hi
  obtain ⟨a, ha, rfl⟩ := mem_map.mp hj
  exact h.disjoint b hb a ha

theorem find?_of_mem (ho : o ∈ mk.orders) : mk.find? o.orderId = some o := by
  have hids := h.ids_orders
  unfold find?
  generalize mk.orders = L at hids ho
  induction L with
  | nil => cases ho
  | cons x _ ih =>
    obtain ⟨hx, hids⟩ := nodup_cons.mp hids
    rcases mem_cons.mp ho with rfl | ho
    · exact find?_cons_of_pos (by simp)
    · rw [find?_cons_of_neg, ih hids ho]
      have hne : x.orderId ≠ o.orderId := fun e => hx (e ▸ mem_map_of_mem ho)
      simpa using hne

theorem WellFormed.replace {L : List Order} (hr : Ranked c L) (hids : (L.map Order.orderId).Nodup)
    (hold : ∀ x ∈ L, ∃ y ∈ mk.ownSide c, x.orderId = y.orderId ∧ x.tick = y.tick) :
    (mk.setSide c L).WellFormed := by
  refine ⟨fun s => ?_, fun s => ?_, ?_, ?_⟩
  · by_cases hs : s = c
    · rw [hs, ownSide_setSide]
      exact hr
    · rw [ownSide_setSide_of_ne _ _ hs]
      exact h.ranked s
  · by_cases hs : s = c
    · rw [hs, ownSide_setSide]
      exact hids
    · rw [ownSide_setSide_of_ne _ _ hs]
      exact h.ids s
  · cases c with
    | buy =>
      intro b hb a ha
      obtain ⟨y, hy, hid, -⟩ := hold b hb
      rw [hid]
      exact h.disjoint y hy a ha
    | sell =>
      intro b hb a ha
      obtain ⟨y, hy, hid, -⟩ := hold a ha
      rw [hid]
      exact h.disjoint b hb y hy
  · cases c with
    | buy =>
      intro b hb a ha
      obtain ⟨y, hy, -, htick⟩ := hold b hb
      rw [htick]
      exact h.uncrossed y hy a ha
    | sell =>
      intro b hb a ha
      obtain ⟨y, hy, -, htick⟩ := hold a ha
      rw [htick]
      exact h.uncrossed b hb y hy

theorem sweep_old {taker : Order} (hx : x ∈ (sweep seq mk.tradeIds taker (mk.ownSide c)).makers) :
    ∃ y ∈ mk.ownSide c, x.orderId = y.orderId ∧ x.tick = y.tick := by
  obtain ⟨y, hy, hxy⟩ :=
    sweep_makers_mem (fun o ho => ((h.ranked c).resting o ho).remaining_pos) hx
  exact ⟨y, hy, hxy.terms.orderId, hxy.terms.tick⟩

theorem WellFormed.afterSweep (seq : Int) (taker : Order) (c : Side) :
    (mk.afterSweep c (sweep seq mk.tradeIds taker (mk.ownSide c))).WellFormed := by
  have hids := sweep_makers_map seq mk.tradeIds taker
    Order.orderId (fun _ _ ho => ho.orderId)
    fun o ho => ((h.ranked c).resting o ho).remaining_pos
  have hset := h.replace (h.ranked c).sweep ((h.ids c).sublist hids) fun x hx => sweep_old h hx
  exact ⟨hset.ranked, hset.ids, hset.disjoint, hset.uncrossed⟩

end

theorem mem_setSide {L : List Order} :
    x ∈ (mk.setSide c L).orders ↔ x ∈ L ∨ x ∈ mk.ownSide c.opposite := by
  cases c with
  | buy => exact mem_append
  | sell => exact mem_append.trans or_comm

theorem mem_orders_iff : x ∈ mk.orders ↔ x ∈ mk.ownSide c ∨ x ∈ mk.ownSide c.opposite := by
  cases c with
  | buy => exact mem_append
  | sell => exact mem_append.trans or_comm

theorem mem_rest : x ∈ (mk.rest o).orders ↔ x = o ∨ x ∈ mk.orders := by
  rw [Market.rest, mem_setSide, mem_orderedInsert, mem_orders_iff (c := o.side), or_assoc]

theorem Below.afterSweep (hb : mk.Below seq) (h : mk.WellFormed) {seq' : Int} {taker : Order} :
    (mk.afterSweep c (sweep seq' mk.tradeIds taker (mk.ownSide c))).Below seq := by
  intro x hx
  rcases mem_setSide.mp hx with hx | hx
  · obtain ⟨y, hy, hid, -⟩ := sweep_old h hx
    rw [hid]
    exact hb y (mem_orders.mpr ⟨c, hy⟩)
  · exact hb x (mem_orders.mpr ⟨c.opposite, hx⟩)

theorem WellFormed.rest (h : mk.WellFormed) (ho : Resting o.side o)
    (hid : ∀ x ∈ mk.orders, x.orderId < o.orderId)
    (hno : ∀ x ∈ mk.ownSide o.side.opposite, o.accepts x.tick = false) :
    (mk.rest o).WellFormed := by
  have hids : ∀ s, ∀ x ∈ mk.ownSide s, x.orderId < o.orderId := fun s x hx =>
    hid x (mem_orders.mpr ⟨s, hx⟩)
  refine ⟨fun s => ?_, fun s => ?_, ?_, ?_⟩
  · by_cases hs : s = o.side
    · rw [hs, Market.rest, ownSide_setSide]
      exact (h.ranked o.side).orderedInsert ho (hids o.side)
    · rw [Market.rest, ownSide_setSide_of_ne _ _ hs]
      exact h.ranked s
  · by_cases hs : s = o.side
    · rw [hs, Market.rest, ownSide_setSide,
        ((perm_orderedInsert _ o (mk.ownSide o.side)).map Order.orderId).nodup_iff,
        map_cons, nodup_cons]
      refine ⟨fun hm => ?_, h.ids o.side⟩
      obtain ⟨x, hx, he⟩ := mem_map.mp hm
      exact absurd (hids o.side x hx) (by rw [he]; exact lt_irrefl _)
    · rw [Market.rest, ownSide_setSide_of_ne _ _ hs]
      exact h.ids s
  · have hb := hids .buy
    have ha := hids .sell
    intro b hb' a ha'
    unfold Market.rest at hb' ha'
    cases hside : o.side with
    | buy =>
      rw [hside] at hb' ha'
      rcases (mem_orderedInsert _).mp hb' with rfl | hb'
      · exact (ha a ha').ne'
      · exact h.disjoint b hb' a ha'
    | sell =>
      rw [hside] at hb' ha'
      rcases (mem_orderedInsert _).mp ha' with rfl | ha'
      · exact (hb b hb').ne
      · exact h.disjoint b hb' a ha'
  · intro b hb' a ha'
    unfold Market.rest at hb' ha'
    unfold Order.accepts at hno
    rw [ho.orderType] at hno
    cases hside : o.side with
    | buy =>
      rw [hside] at hb' ha' hno
      rcases (mem_orderedInsert _).mp hb' with rfl | hb'
      · simpa using hno a ha'
      · exact h.uncrossed b hb' a ha'
    | sell =>
      rw [hside] at hb' ha' hno
      rcases (mem_orderedInsert _).mp ha' with rfl | ha'
      · simpa using hno b hb'
      · exact h.uncrossed b hb' a ha'

/-! ## What a command can do -/

theorem WellFormed.resting_taker (h : mk.WellFormed) {cmd : NewOrder} (hv : cmd.Valid)
    (htype : cmd.orderType = .limit)
    (hleft : 0 < (mk.take seq (Order.init seq cmd)).taker.remaining) :
    Resting cmd.side (mk.take seq (Order.init seq cmd)).taker := by
  set order := Order.init seq cmd with horder
  have hterms : order.SameTerms (mk.take seq order).taker := sweep_taker ..
  obtain ⟨p, hp, hpos⟩ := hv.limit htype
  have hprice : (mk.take seq order).taker.price = some p := hterms.price.trans hp
  have htick : (mk.take seq order).taker.tick = p := by simp [Order.tick, hprice]
  refine ⟨hterms.side, hterms.orderType.trans htype, by rw [htick, hprice], htick ▸ hpos, hleft, ?_⟩
  rw [hterms.quantity]
  exact sweep_remaining_le _ _ _ fun x hx => ((h.ranked _).resting x hx).remaining_pos

/-- What a command can do to the market: the events it publishes and the market it leaves. -/
inductive Outcome (mk : Market) (seq : Int) : Command → List Event → Market → Prop
  | invalid {cmd : NewOrder} {reason : String} (hinvalid : ¬ cmd.Valid) :
      Outcome mk seq (.newOrder cmd) [.orderRejected seq seq reason] mk
  | notLive {cmd : CancelOrder} {reason : String} :
      Outcome mk seq (.cancelOrder cmd) [.orderRejected seq cmd.orderId reason] mk
  | killed {cmd : NewOrder} {reason : String} (hvalid : cmd.Valid) :
      Outcome mk seq (.newOrder cmd)
        [.orderAccepted seq seq, .orderCancelled seq seq cmd.quantity reason] mk
  | filled {cmd : NewOrder} (hvalid : cmd.Valid) {s : Sweep}
      (hs : s = mk.take seq (Order.init seq cmd)) (hdone : s.taker.remaining ≤ 0) :
      Outcome mk seq (.newOrder cmd) (.orderAccepted seq seq :: s.trades.map .trade)
        (mk.afterSweep cmd.side.opposite s)
  | rested {cmd : NewOrder} (hvalid : cmd.Valid) {s : Sweep}
      (hs : s = mk.take seq (Order.init seq cmd)) (hleft : 0 < s.taker.remaining)
      (htype : cmd.orderType = .limit) :
      Outcome mk seq (.newOrder cmd)
        (.orderAccepted seq seq :: s.trades.map .trade ++
          [.orderRested seq seq cmd.side s.taker.tick s.taker.remaining])
        ((mk.afterSweep cmd.side.opposite s).rest s.taker)
  | dropped {cmd : NewOrder} {reason : String} (hvalid : cmd.Valid) {s : Sweep}
      (hs : s = mk.take seq (Order.init seq cmd)) (hleft : 0 < s.taker.remaining) :
      Outcome mk seq (.newOrder cmd)
        (.orderAccepted seq seq :: s.trades.map .trade ++
          [.orderCancelled seq seq s.taker.remaining reason])
        (mk.afterSweep cmd.side.opposite s)
  | cancelled {cmd : CancelOrder} {reason : String} {o : Order} (ho : o ∈ mk.orders)
      (hid : o.orderId = cmd.orderId) :
      Outcome mk seq (.cancelOrder cmd) [.orderCancelled seq o.orderId o.remaining reason]
        (mk.setSide o.side ((mk.ownSide o.side).filter fun x => x.orderId ≠ o.orderId))

theorem apply_outcome (mk : Market) (seq : Int) (cmd : Command) :
    mk.Outcome seq cmd (mk.apply seq cmd).1.events (mk.apply seq cmd).2 := by
  cases cmd with
  | newOrder cmd =>
    simp only [apply, newOrder]
    cases hv : OrderBook.validate cmd with
    | some =>
      exact .invalid fun hvalid => by rw [validate_eq_none.mpr hvalid] at hv; cases hv
    | none =>
    have hvalid := validate_eq_none.mp hv
    have htick : (mk.take seq (Order.init seq cmd)).taker.tick = (Order.init seq cmd).tick :=
      (sweep_taker ..).tick
    simp only
    split
    · exact .killed hvalid
    simp only [matchAndRest]
    split
    next hleft =>
      split
      next hrest =>
        rw [← htick]
        exact .rested hvalid rfl hleft hrest.1
      next => exact .dropped hvalid rfl hleft
    next hdone => exact .filled hvalid rfl (not_lt.mp hdone)
  | cancelOrder cmd =>
    simp only [apply, cancel]
    cases hf : mk.find? cmd.orderId with
    | none => exact .notLive
    | some o =>
      have hid : o.orderId = cmd.orderId := by simpa using find?_some hf
      exact .cancelled (mem_of_find?_eq_some hf) hid

theorem WellFormed.filter (h : mk.WellFormed) (p : Order → Bool) :
    (mk.setSide c ((mk.ownSide c).filter p)).WellFormed :=
  h.replace ((h.ranked c).sublist filter_sublist)
    ((h.ids c).sublist (filter_sublist.map _))
    fun x hx => ⟨x, (mem_filter.mp hx).1, rfl, rfl⟩

theorem Outcome.wellFormed {cmd : Command} {events : List Event} {mk' : Market}
    (ho : mk.Outcome seq cmd events mk') (h : mk.WellFormed) (hb : mk.Below seq) :
    mk'.WellFormed ∧ ∀ o ∈ mk'.orders, o.orderId ≤ seq := by
  have hle : ∀ o ∈ mk.orders, o.orderId ≤ seq := fun o ho => (hb o ho).le
  cases ho with
  | invalid | notLive | killed => exact ⟨h, hle⟩
  | filled hvalid hs | dropped hvalid hs =>
    subst hs
    exact ⟨h.afterSweep .., fun o ho => (hb.afterSweep h o ho).le⟩
  | @rested cmd hvalid s hs hleft htype =>
    have hterms : (Order.init seq cmd).SameTerms s.taker := hs ▸ sweep_taker ..
    have hb' : (mk.afterSweep cmd.side.opposite s).Below seq := hs ▸ hb.afterSweep h
    have hside : s.taker.side = cmd.side := hterms.side
    have hid : s.taker.orderId = seq := hterms.orderId
    have hwf : (mk.afterSweep cmd.side.opposite s).WellFormed := hs ▸ h.afterSweep ..
    refine ⟨hwf.rest ?_ ?_ ?_, ?_⟩
    · rw [hside]
      subst hs
      exact h.resting_taker hvalid htype hleft
    · rw [hid]
      exact hb'
    · -- the taker has quantity left, so no crossing maker is left
      subst hs
      have hcontra : ∀ x ∈ (mk.take seq (Order.init seq cmd)).makers,
          (Order.init seq cmd).accepts x.tick = false :=
        sweep_exhausts (Side.opposite_opposite _).symm (h.ranked _) hleft
      intro x hx
      rw [hside] at hx
      rw [hterms.accepts]
      exact hcontra x (by rwa [ownSide_afterSweep] at hx)
    · intro o ho
      rcases mem_rest.mp ho with rfl | ho
      · exact hid.le
      · exact (hb' o ho).le
  | cancelled ho =>
    refine ⟨h.filter _, fun o ho => ?_⟩
    rcases mem_setSide.mp ho with ho | ho
    · exact hle o (mem_orders.mpr ⟨_, (mem_filter.mp ho).1⟩)
    · exact hle o (mem_orders.mpr ⟨_, ho⟩)

end Market

end InterviewPrep.OrderMatching
