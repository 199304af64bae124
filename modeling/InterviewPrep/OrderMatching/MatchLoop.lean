/-
  The operations of `BookSide` on the list a side represents: `add` inserts the newest order in
  priority order, `remove` filters an order out, storing a level back (and dropping it when it is
  empty) replaces the orders of one price, and `levels()` lists the prices best first.  Each lemma
  also says which (id, reference) pairs the side holds afterwards (`BookSide.Holds`); the book's
  `_live` dict is compared with these.

  The two nested loops of `_match` compute a sweep.  `fillLevel_spec` is the inner loop on one
  level's queue; its frame says what the loop leaves alone.  `matchLoop_spec` is the outer loop:
  each iteration stores one level back, and the next best level is again the first order of what
  is left.
-/
import InterviewPrep.OrderMatching.Market

namespace InterviewPrep.OrderMatching

open Lib Dict List OrderMatching.Order

/-- Some level of the side holds the object `r` under the id `i`. -/
def BookSide.Holds (b : BookSide) (i : Int) (r : Ref) : Prop :=
  ∃ p level, b.levels.get? p = some level ∧ level.orders.get? i = some r

/-- Some level other than that of price `p` holds `r` under `i`. -/
def BookSide.HoldsOff (b : BookSide) (p : Int) (i : Int) (r : Ref) : Prop :=
  ∃ q level, q ≠ p ∧ b.levels.get? q = some level ∧ level.orders.get? i = some r

namespace SideRep

variable {mem mem' : Memory Order} {b b' : BookSide} {s : Side} {L L' : List Order} {i p : Int}
  {r : Ref} {level : PriceLevel}

theorem mem_of_holds (h : SideRep mem b s L) (hr : b.Holds i r) :
    mem.read r ∈ L ∧ (mem.read r).orderId = i := by
  obtain ⟨p, level, hl, hi⟩ := hr
  obtain ⟨hm, hid⟩ := (h.levelRep hl).mem_of_item hi
  exact ⟨(mem_atPrice.mp hm).1, hid⟩

theorem holds_of_mem (h : SideRep mem b s L) {o : Order} (ho : o ∈ L) (hp : o.price = some p) :
    ∃ r, b.Holds o.orderId r ∧ mem.read r = o := by
  obtain ⟨level, hl⟩ := h.exists_level ho hp
  obtain ⟨r, hr, hread⟩ := (h.levelRep hl).item_of_mem (mem_atPrice.mpr ⟨ho, hp⟩)
  exact ⟨r, ⟨p, level, hl, hr⟩, hread⟩

theorem price_of_holdsOff (h : SideRep mem b s L) (hr : b.HoldsOff p i r) :
    (mem.read r).price ≠ some p ∧ b.Holds i r := by
  obtain ⟨q, level, hq, hl, hi⟩ := hr
  have hm := (mem_atPrice.mp ((h.levelRep hl).mem_of_item hi).1).2
  refine ⟨fun e => hq ?_, q, level, hl, hi⟩
  rw [e] at hm
  exact (Option.some.inj hm).symm

theorem holds_iff (hl : b.levels.get? p = some level) :
    b.Holds i r ↔ level.orders.get? i = some r ∨ b.HoldsOff p i r := by
  constructor
  · rintro ⟨q, level', hq, hi⟩
    by_cases hqp : q = p
    · rw [hqp, hl] at hq
      cases hq
      exact Or.inl hi
    · exact Or.inr ⟨q, level', hqp, hq, hi⟩
  · rintro (hi | ⟨q, level', -, hq, hi⟩)
    · exact ⟨p, level, hl, hi⟩
    · exact ⟨q, level', hq, hi⟩

theorem holds_iff_of_none (hl : b.levels.get? p = none) : b.Holds i r ↔ b.HoldsOff p i r := by
  constructor
  · rintro ⟨q, level', hq, hi⟩
    refine ⟨q, level', fun e => ?_, hq, hi⟩
    rw [e, hl] at hq
    cases hq
  · rintro ⟨q, level', -, hq, hi⟩
    exact ⟨q, level', hq, hi⟩

theorem holdsOff_congr (hlevels : ∀ q, q ≠ p → b'.levels.get? q = b.levels.get? q) :
    b'.HoldsOff p i r ↔ b.HoldsOff p i r := by
  constructor
  · rintro ⟨q, level, hq, hl, hi⟩
    exact ⟨q, level, hq, hlevels q hq ▸ hl, hi⟩
  · rintro ⟨q, level, hq, hl, hi⟩
    exact ⟨q, level, hq, (hlevels q hq).symm ▸ hl, hi⟩

/-! ## add -/

theorem levelFor (h : SideRep mem b s L) (hp : 0 < p) :
    ∃ level b', b.levelFor p = (level, b') ∧ b'.side = b.side ∧
      LevelRep mem level p (atPrice p L) ∧
      (∀ q, b'.levels.get? q = if q = p then some level else b.levels.get? q) ∧
      HeapRep s b'.levels b'.heap b'.inHeap ∧
      ∀ i r, b.Holds i r ↔ level.orders.get? i = some r ∨ b.HoldsOff p i r := by
  cases hl : b.levels.get? p with
  | some level =>
    refine ⟨level, b, by rw [BookSide.levelFor, hl], rfl, h.levelRep hl, fun q => ?_, h.heap,
      fun i r => holds_iff hl⟩
    by_cases hq : q = p
    · rw [if_pos hq, hq, hl]
    · rw [if_neg hq]
  | none =>
  have hnil : atPrice p L = [] := by
    have := h.level p
    rwa [hl] at this
  have hget : ∀ q, (b.levels.set p (PriceLevel.init p)).get? q =
      if q = p then some (PriceLevel.init p) else b.levels.get? q :=
    fun q => get?_set b.levels p q _
  have hholds : ∀ i r, b.Holds i r ↔
      (PriceLevel.init p).orders.get? i = some r ∨ b.HoldsOff p i r := by
    intro i r
    rw [holds_iff_of_none hl]
    simp [PriceLevel.init]
  have hcov : ∀ q level, (b.levels.set p (PriceLevel.init p)).get? q = some level →
      q = p ∨ q ∈ b.inHeap := by
    intro q level hq
    rw [hget] at hq
    by_cases hqp : q = p
    · exact Or.inl hqp
    · rw [if_neg hqp] at hq
      exact Or.inr (h.heap.covers q level hq)
  by_cases hin : p ∈ b.inHeap
  · refine ⟨PriceLevel.init p, b.putLevel (PriceLevel.init p), ?_, rfl,
      hnil ▸ LevelRep.init mem p, hget, h.heap.mono fun q level hq => ?_, hholds⟩
    · simp only [BookSide.levelFor, hl, if_pos hin]
    · rcases hcov q level hq with rfl | hq
      · exact hin
      · exact hq
  · refine ⟨PriceLevel.init p, { b.putLevel (PriceLevel.init p) with
        heap := heappush b.heap (b.side.key p), inHeap := insert p b.inHeap }, ?_, rfl,
      hnil ▸ LevelRep.init mem p, hget, ?_, hholds⟩
    · simp only [BookSide.levelFor, hl, if_neg hin]
    · rw [h.side]
      exact h.heap.push hp hin hcov

theorem add (h : SideRep mem b s L) (hL : Ranked s L) (ho : Resting s (mem.read r))
    (hid : ∀ x ∈ L, x.orderId < (mem.read r).orderId) : ∃ b', b.add mem r = .ok b' ∧
      SideRep mem b' s (L.orderedInsert (Order.Before s) (mem.read r)) ∧
      ∀ i r', b'.Holds i r' ↔ (i = (mem.read r).orderId ∧ r' = r) ∨ b.Holds i r' := by
  obtain ⟨level, b1, hfor, hside, hrep, hget, hheap, hholds⟩ := h.levelFor ho.tick_pos
  have hnew : (mem.read r).orderId ∉ (atPrice (mem.read r).tick L).map Order.orderId := by
    intro hm
    obtain ⟨x, hx, he⟩ := List.mem_map.mp hm
    exact absurd (hid x (mem_atPrice.mp hx).1) (by rw [he]; exact lt_irrefl _)
  have hnone : level.orders.get? (mem.read r).orderId = none := by
    rw [Dict.get?_eq_none, hrep.keys]
    exact hnew
  have hget' : ∀ q, (b1.putLevel (level.append mem r)).levels.get? q =
      if q = (mem.read r).tick then some (level.append mem r) else b.levels.get? q := by
    intro q
    have hpr : (level.append mem r).price = (mem.read r).tick := hrep.price
    rw [BookSide.putLevel, Dict.get?_set, hpr, hget]
    split <;> rfl
  refine ⟨b1.putLevel (level.append mem r), by simp only [BookSide.add, ho.price, hfor], ?_, ?_⟩
  · refine h.update (p := (mem.read r).tick) hside (fun q hq => by rw [hget', if_neg hq])
      (fun q hq => atPrice_orderedInsert_of_ne fun e => hq (ho.price_eq.mp e).symm)
      (fun _ _ _ _ _ _ _ => rfl) ?_ ?_
    · rw [hget', if_pos rfl, atPrice_orderedInsert_self hL ho hid]
      exact ⟨hrep.append hnew, by simp⟩
    refine hheap.mono fun q level' hq => hheap.covers q (if q = (mem.read r).tick then level
      else level') ?_
    rw [hget'] at hq
    rw [hget]
    by_cases hqp : q = (mem.read r).tick
    · rw [if_pos hqp, if_pos hqp]
    · rw [if_neg hqp] at hq
      rw [if_neg hqp, if_neg hqp, hq]
  intro i r'
  have hl' : (b1.putLevel (level.append mem r)).levels.get? (mem.read r).tick =
      some (level.append mem r) := by rw [hget', if_pos rfl]
  rw [holds_iff hl', holdsOff_congr (b := b) fun q hq => by rw [hget', if_neg hq], hholds,
    ← or_assoc]
  refine or_congr_left ?_
  rw [PriceLevel.append, Dict.get?_set]
  by_cases hi : i = (mem.read r).orderId
  · subst hi
    rw [if_pos rfl, hnone]
    simp [eq_comm]
  · rw [if_neg hi]
    simp [hi]

/-! ## Storing a level back -/

variable {level' : PriceLevel}

theorem stored (h : SideRep mem b s L)
    (hl : b.levels.get? p = some level) (hrep' : LevelRep mem' level' p (atPrice p L'))
    (hside : b'.side = b.side) (hheap : b'.heap = b.heap) (hin : b'.inHeap = b.inHeap)
    (hget : ∀ q, b'.levels.get? q = if q = p then
      if level'.len = 0 then none else some level' else b.levels.get? q)
    (hL : ∀ q, q ≠ p → atPrice q L' = atPrice q L)
    (hframe : ∀ q level, q ≠ p → b.levels.get? q = some level →
      ∀ i r, level.orders.get? i = some r → mem'.read r = mem.read r) :
    SideRep mem' b' s L' ∧
      ∀ i r, b'.Holds i r ↔ level'.orders.get? i = some r ∨ b.HoldsOff p i r := by
  have hother : ∀ q, q ≠ p → b'.levels.get? q = b.levels.get? q := by
    intro q hq
    rw [hget, if_neg hq]
  have hcovers : HeapRep s b'.levels b'.heap b'.inHeap := by
    rw [hheap, hin]
    refine h.heap.mono fun q lq hq => ?_
    by_cases hqp : q = p
    · exact hqp ▸ h.heap.covers p level hl
    · exact h.heap.covers q lq (hother q hqp ▸ hq)
  have hp := hget p
  rw [if_pos rfl] at hp
  by_cases hempty : level'.len = 0
  · rw [if_pos hempty] at hp
    have hnil : atPrice p L' = [] := by rw [← length_eq_zero_iff, ← hrep'.len, hempty]
    refine ⟨h.update hside hother hL hframe (by rw [hp, hnil]; rfl) hcovers, fun i r => ?_⟩
    have hnone : level'.orders.get? i = none := by
      rw [get?_eq_none, Dict.keys, eq_nil_of_length_eq_zero hempty]
      simp
    rw [holds_iff_of_none hp, holdsOff_congr hother, hnone]
    simp
  · rw [if_neg hempty] at hp
    refine ⟨h.update hside hother hL hframe ?_ hcovers, fun i r => ?_⟩
    · rw [hp]
      refine ⟨hrep', fun hnil => hempty ?_⟩
      rw [hrep'.len, hnil, length_nil]
    · rw [holds_iff hp, holdsOff_congr hother]

/-! ## remove -/

theorem remove (h : SideRep mem b s L) (hids : (L.map Order.orderId).Nodup) (hr : b.Holds i r) :
    ∃ b', b.remove mem r = .ok b' ∧ SideRep mem b' s (L.filter fun o => o.orderId ≠ i) ∧
      ∀ j r', b'.Holds j r' ↔ j ≠ i ∧ b.Holds j r' := by
  obtain ⟨p, level, hl, hi⟩ := hr
  have hrep := h.levelRep hl
  obtain ⟨hmem, hid⟩ := hrep.mem_of_item hi
  obtain ⟨hmL, hprice⟩ := mem_atPrice.mp hmem
  obtain ⟨level', hrem, horders, hrep'⟩ := hrep.remove hi
  have hL : ∀ q, atPrice q (L.filter fun o => o.orderId ≠ i) =
      (atPrice q L).filter fun o => o.orderId ≠ i := fun q => filter_comm ..
  have hother : ∀ q, q ≠ p → (atPrice q L).filter (fun o => o.orderId ≠ i) = atPrice q L := by
    intro q hq
    refine filter_eq_self.mpr fun o ho => ?_
    obtain ⟨hoL, hoq⟩ := mem_atPrice.mp ho
    refine decide_eq_true fun he => ?_
    have heq : o = mem.read r := inj_on_of_nodup_map hids hoL hmL (he.trans hid.symm)
    rw [heq, hprice] at hoq
    exact hq (Option.some.inj hoq).symm
  have hkeep : ∀ q, q ≠ p → atPrice q (L.filter fun o => o.orderId ≠ i) = atPrice q L :=
    fun q hq => (hL q).trans (hother q hq)
  have hoff : ∀ {j r'}, b.HoldsOff p j r' → j ≠ i := by
    rintro j r' hj rfl
    obtain ⟨hpr, hh⟩ := h.price_of_holdsOff hj
    obtain ⟨hm', hid'⟩ := h.mem_of_holds hh
    have heq : mem.read r' = mem.read r := inj_on_of_nodup_map hids hm' hmL (hid'.trans hid.symm)
    exact hpr (heq ▸ hprice)
  have hholds : ∀ j r', (level'.orders.get? j = some r' ∨ b.HoldsOff p j r') ↔
      j ≠ i ∧ b.Holds j r' := by
    intro j r'
    rw [holds_iff hl, horders, get?_erase]
    by_cases hj : j = i
    · subst hj
      simpa using fun hh => hoff hh rfl
    · simp [hj]
  have hrep'' : LevelRep mem level' p (atPrice p (L.filter fun o => o.orderId ≠ i)) :=
    (hL p).symm ▸ hrep'
  by_cases hempty : level'.len = 0
  · obtain ⟨hside', hheld⟩ := h.stored hl hrep''
      (show ({ b with levels := b.levels.erase p } : BookSide).side = b.side from rfl) rfl rfl
      (fun q => by rw [get?_erase, if_pos hempty]) hkeep fun _ _ _ _ _ _ _ => rfl
    refine ⟨_, ?_, hside', fun j r' => (hheld j r').trans (hholds j r')⟩
    simp only [BookSide.remove, hprice, hl, hid, hrem, bind, Except.bind, hempty, if_true, pure,
      Except.pure]
  obtain ⟨hside', hheld⟩ := h.stored hl hrep''
    (show (b.putLevel level').side = b.side from rfl) rfl rfl
    (fun q => by rw [BookSide.putLevel, hrep'.price, get?_set, if_neg hempty]) hkeep
    fun _ _ _ _ _ _ _ => rfl
  refine ⟨_, ?_, hside', fun j r' => (hheld j r').trans (hholds j r')⟩
  simp only [BookSide.remove, hprice, hl, hid, hrem, bind, Except.bind, hempty, if_false, pure,
    Except.pure]

theorem store {Q Q' R : List Order} (h : SideRep mem b s (Q ++ R))
    (hl : b.levels.get? p = some level) (hrep' : LevelRep mem' level' p Q')
    (hQ : ∀ o ∈ Q, o.price = some p) (hQ' : ∀ o ∈ Q', o.price = some p)
    (hR : ∀ o ∈ R, o.price ≠ some p)
    (hframe : ∀ r, (∀ i, level.orders.get? i ≠ some r) → mem'.read r = mem.read r) :
    ∃ b', (b.putLevel level').dropLevelIfEmpty level' = .ok b' ∧ SideRep mem' b' s (Q' ++ R) ∧
      ∀ i r, b'.Holds i r ↔ level'.orders.get? i = some r ∨ b.HoldsOff p i r := by
  have hput : ∀ q, (b.putLevel level').levels.get? q =
      if q = p then some level' else b.levels.get? q := by
    intro q
    rw [BookSide.putLevel, hrep'.price, get?_set]
  have hL : ∀ q, q ≠ p → atPrice q (Q' ++ R) = atPrice q (Q ++ R) := by
    intro q hq
    rw [atPrice_append, atPrice_append, atPrice_eq_nil (L := Q'), atPrice_eq_nil (L := Q)]
    · exact fun o ho e => hq (Option.some.inj (e.symm.trans (hQ o ho)))
    · exact fun o ho e => hq (Option.some.inj (e.symm.trans (hQ' o ho)))
  have hp : atPrice p (Q' ++ R) = Q' := by
    rw [atPrice_append, atPrice_eq_self hQ', atPrice_eq_nil hR, append_nil]
  have hfr : ∀ q lq, q ≠ p → b.levels.get? q = some lq → ∀ i r, lq.orders.get? i = some r →
      mem'.read r = mem.read r := by
    intro q lq hq hlq i r hr
    refine hframe r fun j hj => hq ?_
    have h1 := (mem_atPrice.mp ((h.levelRep hlq).mem_of_item hr).1).2
    have h2 := (mem_atPrice.mp ((h.levelRep hl).mem_of_item hj).1).2
    exact Option.some.inj (h1.symm.trans h2)
  by_cases hempty : level'.len = 0
  · refine ⟨{ b.putLevel level' with levels := (b.putLevel level').levels.erase p }, ?_,
      h.stored hl (hp.symm ▸ hrep') rfl rfl rfl (fun q => ?_) hL hfr⟩
    · simp only [BookSide.dropLevelIfEmpty, if_pos hempty, hrep'.price, hput, if_true]
    · rw [get?_erase, hput, if_pos hempty]
      split <;> rfl
  · refine ⟨b.putLevel level', by rw [BookSide.dropLevelIfEmpty, if_neg hempty],
      h.stored hl (hp.symm ▸ hrep') rfl rfl rfl (fun q => ?_) hL hfr⟩
    rw [hput, if_neg hempty]

/-! ## levels() and depth() -/

/-- `levels()` lists the side's prices best first, and read in that order the
    levels are the list. -/
theorem levelsBestFirst (h : SideRep mem b s L) (hL : Ranked s L) :
    ∃ ps : List Int, ps.Pairwise (fun p q => s.key p < s.key q) ∧
      L = (ps.flatMap fun p => atPrice p L) ∧
      List.Forall₂ (fun p level => LevelRep mem level p (atPrice p L) ∧ atPrice p L ≠ []) ps
        b.levelsBestFirst := by
  let r : Int → Int → Prop := fun p q => b.side.key p ≤ b.side.key q
  let ps := b.levels.keys.insertionSort r
  have : Std.Total r := ⟨fun p q => le_total (b.side.key p) (b.side.key q)⟩
  have : IsTrans Int r := ⟨fun p q t => le_trans (a := b.side.key p)⟩
  have hperm : ps.Perm b.levels.keys := perm_insertionSort _ _
  have hle : ps.Pairwise r := pairwise_insertionSort r _
  have hnodup : ps.Nodup := hperm.nodup_iff.mpr b.levels.keys_nodup
  have hlt : ps.Pairwise fun p q => s.key p < s.key q := by
    refine (List.Pairwise.and hle hnodup).imp fun {p q} hpq => ?_
    rw [← h.side]
    exact lt_of_le_of_ne hpq.1 fun e => hpq.2 (Side.key_inj.mp e)
  have hmem : ∀ p, p ∈ ps ↔ ∃ level, b.levels.get? p = some level := by
    intro p
    rw [hperm.mem_iff, Dict.mem_keys]
  refine ⟨ps, hlt, hL.eq_flatMap_atPrice hlt fun o ho => ?_, ?_⟩
  · exact (hmem _).mpr (h.exists_level ho (hL.resting o ho).price)
  have hall : ∀ qs : List Int, (∀ q ∈ qs, q ∈ ps) →
      List.Forall₂ (fun p level => LevelRep mem level p (atPrice p L) ∧ atPrice p L ≠ []) qs
        (qs.filterMap b.levels.get?) := by
    intro qs hqs
    induction qs with
    | nil => exact List.Forall₂.nil
    | cons q _ ih =>
      obtain ⟨level, hl⟩ := (hmem q).mp (hqs q (mem_cons_self ..))
      rw [filterMap_cons_some hl]
      exact List.Forall₂.cons ⟨h.levelRep hl, h.atPrice_ne_nil hl⟩
        (ih fun q' hq' => hqs q' (mem_cons_of_mem _ hq'))
  exact hall ps fun _ hp => hp

theorem mem_depth (h : SideRep mem b s L) (hL : Ranked s L) {q : Int} :
    (p, q) ∈ b.depth ↔ atPrice p L ≠ [] ∧ q = ((atPrice p L).map Order.remaining).sum := by
  obtain ⟨ps, -, hflat, hall⟩ := h.levelsBestFirst hL
  have hps : atPrice p L ≠ [] → p ∈ ps := by
    intro hne
    obtain ⟨o, ho⟩ := exists_mem_of_ne_nil _ hne
    obtain ⟨hoL, hop⟩ := mem_atPrice.mp ho
    rw [hflat, mem_flatMap] at hoL
    obtain ⟨p', hp', hop'⟩ := hoL
    have hpp : p' = p := Option.some.inj ((mem_atPrice.mp hop').2.symm.trans hop)
    exact hpp ▸ hp'
  clear hflat
  rw [BookSide.depth, List.mem_map]
  constructor
  · rintro ⟨level, hlevel, he⟩
    rw [Prod.mk.injEq] at he
    obtain ⟨i, hi, hil⟩ := mem_iff_getElem.mp hlevel
    have hi' : i < ps.length := hall.length_eq ▸ hi
    have hrel := hall.get hi' hi
    simp only [get_eq_getElem, hil] at hrel
    rw [← hrel.1.price, he.1] at hrel
    exact ⟨hrel.2, he.2 ▸ hrel.1.total⟩
  · rintro ⟨hne, rfl⟩
    obtain ⟨i, hi, hip⟩ := mem_iff_getElem.mp (hps hne)
    have hi' : i < b.levelsBestFirst.length := hall.length_eq ▸ hi
    have hrel := (hall.get hi hi').1
    simp only [get_eq_getElem, hip] at hrel
    exact ⟨b.levelsBestFirst[i], getElem_mem hi', by rw [hrel.price, hrel.total]⟩

theorem depth_sorted (h : SideRep mem b s L) (hL : Ranked s L) :
    b.depth.Pairwise fun x y => s.key x.1 < s.key y.1 := by
  obtain ⟨ps, hlt, -, hall⟩ := h.levelsBestFirst hL
  have hmap : b.depth.map Prod.fst = ps := by
    rw [BookSide.depth, List.map_map]
    generalize b.levelsBestFirst = levels at hall
    induction hall with
    | nil => rfl
    | cons hrel _ ih =>
      rw [map_cons, Function.comp_apply, hrel.1.price]
      exact congrArg _ (ih (pairwise_cons.mp hlt).2)
  rw [← hmap, pairwise_map] at hlt
  exact hlt

end SideRep

namespace OrderBook

@[simp] theorem ownSide_setSide (book : OrderBook) (s : Side) (b : BookSide) :
    (book.setSide s b).ownSide s = b := by
  cases s <;> rfl

theorem ownSide_setSide_of_ne (book : OrderBook) {s t : Side} (b : BookSide) (h : t ≠ s) :
    (book.setSide s b).ownSide t = book.ownSide t := by
  cases s <;> cases t <;> first | rfl | exact absurd rfl h

@[simp] theorem mem_setSide (book : OrderBook) (s : Side) (b : BookSide) :
    (book.setSide s b).mem = book.mem := by
  cases s <;> rfl

@[simp] theorem live_setSide (book : OrderBook) (s : Side) (b : BookSide) :
    (book.setSide s b).live = book.live := by
  cases s <;> rfl

@[simp] theorem tradeIds_setSide (book : OrderBook) (s : Side) (b : BookSide) :
    (book.setSide s b).tradeIds = book.tradeIds := by
  cases s <;> rfl

/-- The book differs from `book` in its objects, `_live` and the trade ids only. -/
structure SameSides (book book' : OrderBook) : Prop where
  ownSide : book'.ownSide = book.ownSide
  next : book'.mem.next = book.mem.next

theorem SameSides.refl (book : OrderBook) : SameSides book book := ⟨rfl, rfl⟩

theorem SameSides.trans {book book' book'' : OrderBook} (h : SameSides book book')
    (h' : SameSides book' book'') : SameSides book book'' :=
  ⟨h'.ownSide.trans h.ownSide, h'.next.trans h.next⟩

end OrderBook

variable {taker : Order} {book : OrderBook} {level : PriceLevel} {fuel : Nat}

theorem crosses_eq (h : taker.orderType = .limit → ∃ p, taker.price = some p) (p : Int) :
    OrderBook.crosses taker p = .ok (taker.accepts p) := by
  unfold OrderBook.crosses Order.accepts
  cases ht : taker.orderType with
  | market => rfl
  | limit =>
    obtain ⟨q, hq⟩ := h ht
    simp only [hq, Order.tick, Option.getD_some]
    cases taker.side <;> rfl

/-! ## The inner loop -/

/-- What the inner loop did to a level, `_live` and the objects. -/
structure LevelFilled (book : OrderBook) (level : PriceLevel) (book' : OrderBook)
    (level' : PriceLevel) : Prop where
  same : OrderBook.SameSides book book'
  frame : ∀ r, (∀ i, level.orders.get? i ≠ some r) → book'.mem.read r = book.mem.read r
  kept : ∀ i r, level'.orders.get? i = some r → level.orders.get? i = some r
  live : ∀ i r, book'.live.get? i = some r ↔ book.live.get? i = some r ∧
    (level.orders.get? i = none ∨ level'.orders.get? i = some r)

theorem LevelFilled.refl (hlive : ∀ i r, level.orders.get? i = some r → book.live.get? i = some r) :
    LevelFilled book level book level := by
  refine ⟨OrderBook.SameSides.refl book, fun _ _ => rfl, fun _ _ h => h, fun i r => ?_⟩
  constructor
  · intro h
    refine ⟨h, ?_⟩
    cases hl : level.orders.get? i with
    | none => exact Or.inl rfl
    | some r' =>
      have := hlive i r' hl
      rw [h] at this
      exact Or.inr this.symm
  · exact And.left

theorem LevelFilled.trans {book' book'' : OrderBook} {level' level'' : PriceLevel}
    (h : LevelFilled book level book' level') (h' : LevelFilled book' level' book'' level'') :
    LevelFilled book level book'' level'' := by
  refine ⟨h.same.trans h'.same, fun r hr => ?_, fun i r hi => h.kept i r (h'.kept i r hi),
    fun i r => ?_⟩
  · rw [h'.frame r fun i hi => hr i (h.kept i r hi), h.frame r hr]
  rw [h'.live, h.live]
  constructor
  · rintro ⟨⟨hl, h1 | h1⟩, h2⟩
    · exact ⟨hl, Or.inl h1⟩
    · rw [h1] at h2
      exact ⟨hl, Or.inr (h2.resolve_left (by simp))⟩
  rintro ⟨hl, h1 | h1⟩
  · refine ⟨⟨hl, Or.inl h1⟩, Or.inl ?_⟩
    cases hl' : level'.orders.get? i with
    | none => rfl
    | some r' =>
      rw [h.kept i r' hl'] at h1
      cases h1
  · exact ⟨⟨hl, Or.inr (h'.kept i r h1)⟩, Or.inr h1⟩

variable {seq p : Int} {events : List Event}

theorem fillLevel_done (h : ¬ (0 < taker.remaining ∧ level.len ≠ 0)) :
    OrderBook.fillLevel seq fuel book level taker events = .ok (book, level, taker, events) := by
  cases fuel <;> exact if_neg h

/-- One turn of the loop fills the order at the head of the best level. -/
theorem fillHead_step {o : Order} {Q : List Order} (seq : Int) (fuel : Nat)
    (events : List Event) (hrep : LevelRep book.mem level p (o :: Q)) (ho : 0 < o.remaining)
    (htick : o.tick = p) (hlive : ∀ i r, level.orders.get? i = some r → book.live.get? i = some r)
    (h0 : 0 < taker.remaining) :
    let qty := min taker.remaining o.remaining
    ∃ book' level', OrderBook.fillLevel seq (fuel + 1) book level taker events =
        OrderBook.fillLevel seq fuel book' level' (taker.filledBy qty)
          (events ++ [.trade (tradeOf seq book.tradeIds taker o qty)]) ∧
      book'.tradeIds = book.tradeIds + 1 ∧
      LevelRep book'.mem level' p ((o.filledBy qty).residue ++ Q) ∧
      LevelFilled book level book' level' := by
  intro qty
  have hqty : 0 < qty := lt_min h0 ho
  have hle : qty ≤ taker.remaining := min_le_left _ _
  obtain ⟨r, level', hget, hread, hhead, hfill, horders, hrep'⟩ :=
    hrep.fillHead hqty (min_le_right _ _)
  have hlen : level.len ≠ 0 := by rw [hrep.len]; simp
  have hliver := hlive _ _ hget
  have hframe : ∀ r', (∀ i, level.orders.get? i ≠ some r') →
      (book.mem.write r (o.filledBy qty)).read r' = book.mem.read r' :=
    fun r' hr' => Memory.read_write_of_ne _ _ fun e => hr' _ (e ▸ hget)
  have hqtyeq : min taker.remaining (book.mem.read r).remaining = qty := by rw [hread]
  by_cases hz : (o.filledBy qty).remaining = 0
  · -- the maker is filled: it leaves the queue and `_live`
    rw [if_pos (by simpa using hz)] at horders
    let book' : OrderBook := { book with
      mem := book.mem.write r (o.filledBy qty)
      live := book.live.erase o.orderId
      tradeIds := book.tradeIds + 1 }
    refine ⟨book', level', ?_, rfl, hrep', ⟨rfl, rfl⟩, hframe, fun i r' hi => ?_,
      fun i r' => ?_⟩
    · rw [OrderBook.fillLevel, if_pos ⟨h0, hlen⟩]
      simp only [bind, Except.bind, hhead, hqtyeq, hfill, fill_eq_ok hqty hle,
        OrderBook.dropFilled, Memory.read_write_self, hz, if_true, filledBy_orderId, hliver]
      simp only [tradeOf, hrep'.price, htick, filledBy_side, book']
    · rw [horders, get?_erase] at hi
      split at hi
      · cases hi
      · exact hi
    · rw [horders, get?_erase, get?_erase]
      by_cases hi : i = o.orderId
      · subst hi
        simp [hget]
      · simp only [if_neg hi]
        exact (LevelFilled.refl hlive).live i r'
  · rw [if_neg (by simpa using hz)] at horders
    let book' : OrderBook := { book with
      mem := book.mem.write r (o.filledBy qty)
      tradeIds := book.tradeIds + 1 }
    refine ⟨book', level', ?_, rfl, hrep', ⟨rfl, rfl⟩, hframe, fun i r' hi => horders ▸ hi,
      fun i r' => ?_⟩
    · rw [OrderBook.fillLevel, if_pos ⟨h0, hlen⟩]
      simp only [bind, Except.bind, hhead, hqtyeq, hfill, fill_eq_ok hqty hle,
        OrderBook.dropFilled, Memory.read_write_self, hz, if_false]
      simp only [tradeOf, hrep'.price, htick, filledBy_orderId, filledBy_side, book']
    · rw [horders]
      exact (LevelFilled.refl hlive).live i r'

theorem fillLevel_spec (seq : Int) (events : List Event) {Q : List Order}
    (hrep : LevelRep book.mem level p Q) (hpos : ∀ o ∈ Q, 0 < o.remaining)
    (htick : ∀ o ∈ Q, o.tick = p) (hacc : taker.accepts p)
    (hlive : ∀ i r, level.orders.get? i = some r → book.live.get? i = some r)
    (hfuel : taker.remaining.toNat ≤ fuel) :
    let s := sweep seq book.tradeIds taker Q
    ∃ book' level', OrderBook.fillLevel seq fuel book level taker events =
        .ok (book', level', s.taker, events ++ s.trades.map .trade) ∧
      book'.tradeIds = book.tradeIds + s.trades.length ∧
      LevelRep book'.mem level' p s.makers ∧ LevelFilled book level book' level' := by
  induction Q generalizing fuel book level taker events with
  | nil =>
    have hlen : level.len = 0 := by rw [hrep.len, length_nil]
    refine ⟨book, level, ?_, rfl, hrep, LevelFilled.refl hlive⟩
    rw [fillLevel_done fun h => h.2 hlen]
    simp [sweep_nil]
  | cons o _ ih =>
    by_cases h0 : 0 < taker.remaining
    · cases fuel with
      | zero => omega
      | succ fuel =>
        have hstep : 0 < taker.remaining ∧ taker.accepts o.tick :=
          ⟨h0, htick o (mem_cons_self ..) ▸ hacc⟩
        have ho := hpos o (mem_cons_self ..)
        obtain ⟨book1, level1, hrun1, hid1, hrep1, hfilled1⟩ :=
          fillHead_step seq fuel events hrep ho
            (htick o (mem_cons_self ..)) hlive h0
        have hlive1 : ∀ i r, level1.orders.get? i = some r → book1.live.get? i = some r :=
          fun i r hi => (hfilled1.live i r).mpr ⟨hlive i r (hfilled1.kept i r hi), Or.inr hi⟩
        simp only [sweep_step hstep]
        by_cases hz : (o.filledBy (min taker.remaining o.remaining)).remaining = 0
        · -- the maker is exhausted: the loop goes on with the queue behind it
          rw [Order.residue, if_pos hz, nil_append] at hrep1
          have hfuel1 : (taker.filledBy (min taker.remaining o.remaining)).remaining.toNat ≤
              fuel := by
            simp only [filledBy_remaining]
            omega
          have hacc1 : (taker.filledBy (min taker.remaining o.remaining)).accepts p := hacc
          obtain ⟨book2, level2, hrun2, hid2, hrep2, hfilled2⟩ :=
            ih (events ++
                [.trade (tradeOf seq book.tradeIds taker o (min taker.remaining o.remaining))])
              hrep1 (fun x hx => hpos x (mem_cons_of_mem _ hx))
              (fun x hx => htick x (mem_cons_of_mem _ hx)) hacc1 hlive1 hfuel1
          rw [hid1] at hrun2 hid2 hrep2
          refine ⟨book2, level2, ?_, ?_, ?_, hfilled1.trans hfilled2⟩
          · rw [hrun1, hrun2]
            simp
          · rw [hid2, length_cons]
            omega
          · rw [Order.residue, if_pos hz, nil_append]
            exact hrep2
        · -- the taker is filled: the loop ends
          have hdone : (taker.filledBy (min taker.remaining o.remaining)).remaining ≤ 0 := by
            simp only [filledBy_remaining] at hz ⊢
            omega
          rw [sweep_done hdone]
          refine ⟨book1, level1, ?_, by rw [hid1]; rfl, hrep1, hfilled1⟩
          rw [hrun1, fillLevel_done fun h => absurd h.1 (not_lt.mpr hdone)]
          rfl
    · have hdone : taker.remaining ≤ 0 := not_lt.mp h0
      rw [sweep_done hdone]
      refine ⟨book, level, ?_, rfl, hrep, LevelFilled.refl hlive⟩
      rw [fillLevel_done fun h => h0 h.1]
      simp

/-! ## The book and the market -/

/-- The book represents the market: each side its list, and `_live` what the levels hold. -/
structure BookRep (book : OrderBook) (mk : Market) : Prop where
  side : ∀ s, SideRep book.mem (book.ownSide s) s (mk.ownSide s)
  live : ∀ i r, book.live.get? i = some r ↔ ∃ s, (book.ownSide s).Holds i r
  alloc : ∀ s i r, (book.ownSide s).Holds i r → r < book.mem.next
  tradeIds : book.tradeIds = mk.tradeIds

namespace BookRep

variable {book : OrderBook} {mk : Market}

theorem holds_side (h : BookRep book mk) (hr : ∀ s, Ranked s (mk.ownSide s)) {s : Side} {i : Int}
    {r : Ref} (hh : (book.ownSide s).Holds i r) : (book.mem.read r).side = s :=
  ((hr s).resting _ ((h.side s).mem_of_holds hh).1).side

theorem setSide_best (h : BookRep book mk) {s : Side} {b : BookSide}
    (hl : b.levels = (book.ownSide s).levels) (hb : SideRep book.mem b s (mk.ownSide s)) :
    BookRep (book.setSide s b) mk := by
  have hlev : ∀ t, ((book.setSide s b).ownSide t).levels = (book.ownSide t).levels := by
    intro t
    by_cases ht : t = s
    · rw [ht, OrderBook.ownSide_setSide, hl]
    · rw [OrderBook.ownSide_setSide_of_ne _ _ ht]
  have hholds : ∀ t i r, ((book.setSide s b).ownSide t).Holds i r ↔ (book.ownSide t).Holds i r := by
    intro t i r
    simp only [BookSide.Holds, hlev]
  refine ⟨fun t => ?_, fun i r => ?_, fun t i r hh => ?_, ?_⟩
  · rw [OrderBook.mem_setSide]
    by_cases ht : t = s
    · rw [ht, OrderBook.ownSide_setSide]
      exact hb
    · rw [OrderBook.ownSide_setSide_of_ne _ _ ht]
      exact h.side t
  · simp only [hholds, OrderBook.live_setSide]
    exact h.live i r
  · rw [OrderBook.mem_setSide]
    exact h.alloc t i r ((hholds t i r).mp hh)
  · rw [OrderBook.tradeIds_setSide]
    exact h.tradeIds

theorem fillBest (seq : Int) (events : List Event) {c : Side} {o : Order} {L : List Order}
    (h : BookRep book mk)
    (hr : ∀ s, Ranked s (mk.ownSide s)) (hL : mk.ownSide c = o :: L)
    (hl : (book.ownSide c).levels.get? o.tick = some level) (hacc : taker.accepts o.tick) :
    ∃ Q R, mk.ownSide c = Q ++ R ∧ o ∈ Q ∧ (∀ x ∈ Q, x.tick = o.tick) ∧
      let s := sweep seq mk.tradeIds taker Q
      ∃ book' level' b', OrderBook.fillLevel seq taker.remaining.toNat book level taker events =
          .ok (book', level', s.taker, events ++ s.trades.map .trade) ∧
        book'.ownSide = book.ownSide ∧
        ((book'.ownSide c).putLevel level').dropLevelIfEmpty level' = .ok b' ∧
        BookRep (book'.setSide c b') (mk.afterSweep c ⟨s.trades, s.taker, s.makers ++ R⟩) := by
  have hsplit := (hr c).eq_atPrice_append (p := o.tick) (by
    rw [hL]
    exact (hL ▸ hr c).head_key_le)
  set Q := atPrice o.tick (mk.ownSide c) with hQdef
  set R := (mk.ownSide c).filter fun x => x.price ≠ some o.tick with hRdef
  have hQ : ∀ x ∈ Q, x ∈ mk.ownSide c ∧ x.price = some o.tick := fun x hx => mem_atPrice.mp hx
  have hQtick : ∀ x ∈ Q, x.tick = o.tick := fun x hx => by simp [Order.tick, (hQ x hx).2]
  have hoL : o ∈ mk.ownSide c := hL ▸ mem_cons_self ..
  have hrep := (h.side c).levelRep hl
  have hlive : ∀ i r, level.orders.get? i = some r → book.live.get? i = some r :=
    fun i r hi => (h.live i r).mpr ⟨c, _, level, hl, hi⟩
  obtain ⟨book', level', hrun, hid, hrep', hfilled⟩ :=
    fillLevel_spec seq events hrep
      (fun x hx => ((hr c).resting x (hQ x hx).1).remaining_pos) hQtick hacc hlive (le_refl _)
  rw [h.tradeIds] at hrun hid hrep'
  refine ⟨Q, R, hsplit, mem_atPrice.mpr ⟨hoL, ((hr c).resting o hoL).price⟩, hQtick, ?_⟩
  intro s
  have hside' : book'.ownSide = book.ownSide := hfilled.same.ownSide
  -- the queue's orders keep their terms
  have hQ' : ∀ x ∈ s.makers, x.price = some o.tick := by
    intro x hx
    obtain ⟨y, hy, hxy⟩ := sweep_makers_mem
      (fun y hy => ((hr c).resting y (hQ y hy).1).remaining_pos) hx
    rw [hxy.terms.price]
    exact (hQ y hy).2
  have hR : ∀ x ∈ R, x.price ≠ some o.tick := fun x hx => by
    simpa using (mem_filter.mp hx).2
  obtain ⟨b', hstore, hsrep, hholds⟩ := (hsplit ▸ h.side c).store hl hrep'
    (fun x hx => (hQ x hx).2) hQ' hR hfilled.frame
  refine ⟨book', level', b', hrun, hside', by rw [hside']; exact hstore, ?_⟩
  have hother : ∀ t, t ≠ c → ∀ i r, (book.ownSide t).Holds i r →
      ∀ j, level.orders.get? j ≠ some r := by
    intro t ht i r hh j hj
    have h1 := h.holds_side hr hh
    have h2 := h.holds_side hr (s := c) ⟨_, level, hl, hj⟩
    exact ht (h1.symm.trans h2)
  have hoff : ∀ i r, (book.ownSide c).HoldsOff o.tick i r → ∀ j, level.orders.get? j ≠ some r := by
    intro i r hh j hj
    have h1 := ((h.side c).price_of_holdsOff hh).1
    exact h1 (mem_atPrice.mp (hrep.mem_of_item hj).1).2
  have hown : ∀ t, t ≠ c → (book'.setSide c b').ownSide t = book.ownSide t := by
    intro t ht
    rw [OrderBook.ownSide_setSide_of_ne _ _ ht, hside']
  have hmk : ∀ t, t ≠ c → (mk.afterSweep c ⟨s.trades, s.taker, s.makers ++ R⟩).ownSide t =
      mk.ownSide t := by
    intro t ht
    exact Market.ownSide_setSide_of_ne mk _ ht
  have hmkc : (mk.afterSweep c ⟨s.trades, s.taker, s.makers ++ R⟩).ownSide c = s.makers ++ R :=
    Market.ownSide_setSide mk c _
  refine ⟨fun t => ?_, fun i r => ?_, fun t i r hh => ?_, ?_⟩
  · rw [OrderBook.mem_setSide]
    by_cases ht : t = c
    · subst ht
      rw [OrderBook.ownSide_setSide, hmkc]
      exact hsrep
    · rw [hown t ht, hmk t ht]
      exact (h.side t).frame fun q lq i r hq hi => hfilled.frame r (hother t ht i r ⟨q, lq, hq, hi⟩)
  · rw [OrderBook.live_setSide, hfilled.live, h.live]
    constructor
    · rintro ⟨⟨t, hh⟩, hk⟩
      by_cases ht : t = c
      · subst ht
        refine ⟨t, ?_⟩
        rw [OrderBook.ownSide_setSide, hholds]
        rcases (SideRep.holds_iff hl).mp hh with hi | hh
        · exact Or.inl (hk.resolve_left (by simp [hi]))
        · exact Or.inr hh
      · exact ⟨t, (hown t ht).symm ▸ hh⟩
    rintro ⟨t, hh⟩
    by_cases ht : t = c
    · subst ht
      rw [OrderBook.ownSide_setSide, hholds] at hh
      rcases hh with hi | hh
      · exact ⟨⟨t, (SideRep.holds_iff hl).mpr (Or.inl (hfilled.kept i r hi))⟩, Or.inr hi⟩
      refine ⟨⟨t, (SideRep.holds_iff hl).mpr (Or.inr hh)⟩, Or.inl ?_⟩
      -- an id held off the level is not an id of the level
      cases hj : level.orders.get? i with
      | none => rfl
      | some r' =>
        have h1 := hlive i r' hj
        have h2 := (h.live i r).mpr ⟨t, (SideRep.holds_iff hl).mpr (Or.inr hh)⟩
        rw [h1] at h2
        cases h2
        exact absurd hj (hoff i r hh i)
    · rw [hown t ht] at hh
      refine ⟨⟨t, hh⟩, Or.inl ?_⟩
      cases hj : level.orders.get? i with
      | none => rfl
      | some r' =>
        have h1 := hlive i r' hj
        have h2 := (h.live i r).mpr ⟨t, hh⟩
        rw [h1] at h2
        cases h2
        exact absurd hj (hother t ht i r hh i)
  · rw [OrderBook.mem_setSide, hfilled.same.next]
    by_cases ht : t = c
    · subst ht
      rw [OrderBook.ownSide_setSide, hholds] at hh
      rcases hh with hi | hh
      · exact h.alloc t i r ((SideRep.holds_iff hl).mpr (Or.inl (hfilled.kept i r hi)))
      · exact h.alloc t i r ((SideRep.holds_iff hl).mpr (Or.inr hh))
    · rw [hown t ht] at hh
      exact h.alloc t i r hh
  · rw [OrderBook.tradeIds_setSide, hid]
    rfl

end BookRep

/-! ## The outer loop -/

theorem matchLoop_done (h : taker.remaining ≤ 0) :
    OrderBook.matchLoop seq fuel book taker events = .ok (book, taker, events) := by
  cases fuel <;> exact if_neg (not_lt.mpr h)

theorem matchLoop_spec (seq : Int) {mk : Market} (events : List Event) (h : BookRep book mk)
    (hr : ∀ s, Ranked s (mk.ownSide s))
    (htype : taker.orderType = .limit → ∃ p, taker.price = some p) (h0 : 0 ≤ taker.remaining)
    (hfuel : taker.remaining.toNat < fuel) :
    let s := mk.take seq taker
    ∃ book', OrderBook.matchLoop seq fuel book taker events =
        .ok (book', s.taker, events ++ s.trades.map .trade) ∧
      BookRep book' (mk.afterSweep taker.side.opposite s) := by
  induction fuel generalizing book mk taker events with
  | zero => omega
  | succ fuel ih =>
    set c := taker.side.opposite with hc
    have hstay : ∀ t, mk.take seq taker = ⟨[], t, mk.ownSide c⟩ →
        mk.afterSweep c (mk.take seq taker) = mk := by
      intro t ht
      rw [ht]
      cases c <;> rfl
    by_cases hpos : 0 < taker.remaining
    · cases hL : mk.ownSide c with
      | nil =>
        have hnil := h.side c
        rw [hL] at hnil
        obtain ⟨b, hbest, hlev, hb⟩ := hnil.bestLevel_nil
        have htake : mk.take seq taker = ⟨[], taker, []⟩ := by
          rw [Market.take, ← hc, hL, sweep_nil]
        refine ⟨book.setSide c b, ?_, ?_⟩
        · simp only [OrderBook.matchLoop, hpos, if_true, ← hc, hbest, htake, map_nil,
            append_nil]
        · rw [hstay taker (htake.trans (by rw [hL]))]
          exact h.setSide_best hlev (hL ▸ hb)
      | cons o =>
        have hcons := h.side c
        rw [hL] at hcons
        obtain ⟨level, b, hbest, hlev, hl, hb⟩ := hcons.bestLevel_cons (hL ▸ hr c)
        have hrep1 : BookRep (book.setSide c b) mk := h.setSide_best hlev (hL ▸ hb)
        have hl1 : ((book.setSide c b).ownSide c).levels.get? o.tick = some level := by
          rw [OrderBook.ownSide_setSide, hlev, hl]
        have hprice : level.price = o.tick := (h.side c).levelRep hl |>.price
        by_cases hacc : taker.accepts o.tick
        · obtain ⟨Q, R, hQR, hoQ, hQtick, book', level', b', hfill, -, hstore, hrep'⟩ :=
            hrep1.fillBest seq events hr hL hl1 hacc
          set s1 := sweep seq mk.tradeIds taker Q with hs1
          have hQacc : ∀ x ∈ Q, taker.accepts x.tick := fun x hx => by rw [hQtick x hx, hacc]
          have hQpos : ∀ x ∈ Q, 0 < x.remaining := fun x hx =>
            ((hr c).resting x (hQR ▸ mem_append_left _ hx)).remaining_pos
          have hterms : taker.SameTerms s1.taker := sweep_taker seq mk.tradeIds taker Q
          have hside1 : s1.taker.side.opposite = c := by rw [hterms.side]
          -- what is left of the contra side, swept by what is left of the taker
          set mk' := mk.afterSweep c ⟨s1.trades, s1.taker, s1.makers ++ R⟩ with hmk'
          have htake : mk.take seq taker =
              let rest := sweep seq mk'.tradeIds s1.taker R
              ⟨s1.trades ++ rest.trades, rest.taker, s1.makers ++ rest.makers⟩ := by
            rw [Market.take, ← hc, hQR, sweep_append hQacc]
            rfl
          have hrun : OrderBook.matchLoop seq (fuel + 1) book taker events =
              OrderBook.matchLoop seq fuel (book'.setSide c b') s1.taker
                (events ++ s1.trades.map .trade) := by
            simp only [OrderBook.matchLoop, hpos, if_true, ← hc, hbest, bind, Except.bind,
              hprice, crosses_eq htype, hacc, hfill, hstore]
          by_cases hdone : s1.taker.remaining ≤ 0
          · rw [sweep_done hdone] at htake
            refine ⟨book'.setSide c b', ?_, ?_⟩
            · rw [hrun, matchLoop_done hdone, htake]
              simp
            · rw [htake]
              simpa using hrep'
          have hmakers : s1.makers = [] := sweep_makers_nil hQacc (not_le.mp hdone)
          have hmkc : mk'.ownSide c = R := by
            rw [hmk', hmakers]
            exact Market.ownSide_setSide mk c _
          have hr' : ∀ t, Ranked t (mk'.ownSide t) := by
            intro t
            by_cases ht : t = c
            · rw [ht, hmkc]
              exact (hr c).sublist (hQR ▸ sublist_append_right Q R)
            · exact (Market.ownSide_setSide_of_ne mk _ ht).symm ▸ hr t
          have hlt : s1.taker.remaining.toNat < fuel := by
            obtain ⟨q, Q', hQ'⟩ := exists_cons_of_ne_nil (ne_nil_of_mem hoQ)
            have := sweep_remaining_lt seq mk.tradeIds
              (hQ' ▸ hQpos) ⟨hpos, hQacc q (hQ' ▸ mem_cons_self ..)⟩
            rw [← hQ', ← hs1] at this
            omega
          obtain ⟨book'', hrun'', hrep''⟩ := ih (events ++ s1.trades.map .trade) hrep' hr'
            (fun ht => hterms.price ▸ htype (hterms.orderType ▸ ht))
            (not_le.mp hdone).le hlt
          rw [Market.take, hside1, hmkc] at hrun'' hrep''
          rw [hmakers] at htake
          refine ⟨book'', ?_, ?_⟩
          · rw [hrun, hrun'', htake]
            simp
          rw [htake]
          have hmk'' : ∀ x : Sweep, mk'.afterSweep c x =
              mk.afterSweep c ⟨s1.trades ++ x.trades, x.taker, [] ++ x.makers⟩ := by
            intro x
            rw [hmk']
            simp only [Market.afterSweep, length_append, nil_append,
              Nat.add_assoc]
            cases c <;> rfl
          rw [← hmk'']
          exact hrep''
        · have htake : mk.take seq taker = ⟨[], taker, mk.ownSide c⟩ := by
            rw [Market.take, ← hc, hL]
            exact sweep_stop fun hh => hacc hh.2
          refine ⟨book.setSide c b, ?_, ?_⟩
          · simp only [OrderBook.matchLoop, hpos, if_true, ← hc, hbest, bind, Except.bind,
              hprice, crosses_eq htype, hacc, htake, map_nil, append_nil]
            rfl
          · rw [hstay taker htake]
            exact hrep1
    · have htake : mk.take seq taker = ⟨[], taker, mk.ownSide c⟩ := sweep_done (not_lt.mp hpos)
      refine ⟨book, ?_, ?_⟩
      · simp only [OrderBook.matchLoop, hpos, if_false, htake, map_nil, append_nil]
      · rw [hstay taker htake]
        exact h

end InterviewPrep.OrderMatching
