/-
  The sliding windows of outcomes (circuit_breaker.py): the last calls in a ring buffer with
  running totals, or the last seconds in one bucket each; and what they report.  `Represents`
  ties a ring buffer to the list of the outcomes recorded since its reset.

  A bucket counts the outcomes of the second it is tagged with (`Holds`).  Seconds in one
  window are fewer than the buckets, so no two of them share one.
-/
import InterviewPrep.Lib.Python
import Mathlib.Algebra.BigOperators.Fin
import Mathlib.Data.List.DropRight

namespace InterviewPrep.Resilience

open Lib

structure WindowSnapshot where
  total : Int
  failures : Int

def WindowSnapshot.failureRate (s : WindowSnapshot) : ℚ :=
  if s.total = 0 then 0 else s.failures / s.total

/-! ## The windows -/

/-- The last `size` outcomes; `idx` is the slot of the oldest. -/
structure CountBasedWindow (size : Nat) where
  ring : Vector (Option Bool) size
  idx : Fin size
  total : Int
  failures : Int

namespace CountBasedWindow

variable {size : Nat}

/-- The fields as `reset` sets them. -/
def empty (h : 0 < size) : CountBasedWindow size :=
  ⟨Vector.replicate size none, ⟨0, h⟩, 0, 0⟩

def reset (w : CountBasedWindow size) : CountBasedWindow size := empty w.idx.pos

def record (w : CountBasedWindow size) (success : Bool) : CountBasedWindow size :=
  let evicted := w.ring[w.idx]
  let total := if evicted = none then w.total + 1 else w.total
  let failures := if evicted = some false then w.failures - 1 else w.failures
  let failures := if success then failures else failures + 1
  { ring := w.ring.set w.idx (some success)
    idx := ⟨(w.idx + 1) % size, Nat.mod_lt _ w.idx.pos⟩
    total
    failures }

def snapshot (w : CountBasedWindow size) : WindowSnapshot := ⟨w.total, w.failures⟩

end CountBasedWindow

/-- One bucket for each of the last `n` seconds; `epoch` says which second it holds. -/
structure TimeBasedWindow (n : Nat) where
  epoch : Vector Int n
  totals : Vector Int n
  failures : Vector Int n
  seconds_pos : 0 < n

namespace TimeBasedWindow

variable {n : Nat}

/-- The fields as `reset` sets them. -/
def empty (h : 0 < n) : TimeBasedWindow n :=
  ⟨Vector.replicate n (-1), Vector.replicate n 0, Vector.replicate n 0, h⟩

def reset (w : TimeBasedWindow n) : TimeBasedWindow n := empty w.seconds_pos

/-- `second % self._n`. -/
def bucket (w : TimeBasedWindow n) (second : Int) : Fin n :=
  ⟨(second % n).toNat, by
    have hn : (0 : Int) < n := by exact_mod_cast w.seconds_pos
    have hlt := Int.emod_lt_of_pos second hn
    have hnn := Int.emod_nonneg second hn.ne'
    omega⟩

def record (w : TimeBasedWindow n) (success : Bool) (now : ℚ) : TimeBasedWindow n :=
  let second := truncate now
  let i := w.bucket second
  let w :=
    -- the bucket holds an old second
    if w.epoch[i] ≠ second then
      { w with
        epoch := w.epoch.set i second, totals := w.totals.set i 0, failures := w.failures.set i 0 }
    else w
  let w := { w with totals := w.totals.set i (w.totals[i] + 1) }
  if success then w else { w with failures := w.failures.set i (w.failures[i] + 1) }

def snapshot (w : TimeBasedWindow n) (now : ℚ) : WindowSnapshot :=
  let oldest := truncate now - n + 1
  (List.finRange n).foldl
    (fun s i =>
      if oldest ≤ w.epoch[i] then ⟨s.total + w.totals[i], s.failures + w.failures[i]⟩ else s)
    ⟨0, 0⟩

end TimeBasedWindow

/-- Either window. -/
inductive SlidingWindow where
  | count (size : Nat) (w : CountBasedWindow size)
  | time (n : Nat) (w : TimeBasedWindow n)

namespace SlidingWindow

/-- `CountBasedWindow(size)`. -/
def newCount (size : Int) : Except ValueError SlidingWindow :=
  if h : size ≤ 0 then .error ⟨"size must be positive"⟩
  else .ok (.count size.toNat (.empty (by omega)))

/-- `TimeBasedWindow(seconds)`. -/
def newTime (seconds : Int) : Except ValueError SlidingWindow :=
  if h : seconds ≤ 0 then .error ⟨"seconds must be positive"⟩
  else .ok (.time seconds.toNat (.empty (by omega)))

def record (success : Bool) (now : ℚ) : SlidingWindow → SlidingWindow
  | count size w => count size (w.record success)
  | time n w => time n (w.record success now)

def snapshot (now : ℚ) : SlidingWindow → WindowSnapshot
  | count _ w => w.snapshot
  | time _ w => w.snapshot now

def reset : SlidingWindow → SlidingWindow
  | count size w => count size w.reset
  | time n w => time n w.reset

end SlidingWindow

/-! ## The ring buffer -/

/-- The ring holds the last `size` outcomes, `k`-th in slot `k % size`, and the
    totals count them. -/
structure CountBasedWindow.Represents {size : Nat} (w : CountBasedWindow size)
    (outcomes : List Bool) : Prop where
  idx : (w.idx : Nat) = outcomes.length % size
  unset : ∀ i : Fin size, outcomes.length ≤ i → w.ring[i] = none
  slot : ∀ (k : Nat) (hk : k < outcomes.length) (i : Fin size), outcomes.length ≤ k + size →
    (i : Nat) = k % size → w.ring[i] = some outcomes[k]
  total : w.total = min outcomes.length size
  failures : w.failures = (outcomes.rtake size).count false

open Finset List

namespace CountBasedWindow.Represents

variable {size : Nat} {w : CountBasedWindow size} {outcomes : List Bool}

theorem empty (h : 0 < size) : (CountBasedWindow.empty h).Represents [] where
  idx := (Nat.zero_mod size).symm
  unset := fun i _ => Vector.getElem_replicate _
  slot := fun k hk => absurd hk (Nat.not_lt_zero k)
  total := rfl
  failures := by simp [CountBasedWindow.empty]

theorem evicted_of_lt (h : w.Represents outcomes) (hn : outcomes.length < size) :
    w.ring[w.idx] = none := by
  apply h.unset
  rw [h.idx, Nat.mod_eq_of_lt hn]

theorem evicted_of_le (h : w.Represents outcomes) (hn : size ≤ outcomes.length)
    (hlt : outcomes.length - size < outcomes.length) :
    w.ring[w.idx] = some outcomes[outcomes.length - size] := by
  apply h.slot _ hlt
  · omega
  · rw [h.idx, ← Nat.mod_eq_sub_mod hn]

theorem rtake_concat_of_lt {b : Bool} (hn : outcomes.length < size) :
    (outcomes ++ [b]).rtake size = outcomes.rtake size ++ [b] := by
  rw [List.rtake, List.rtake, length_append, length_singleton,
    Nat.sub_eq_zero_of_le (by omega), Nat.sub_eq_zero_of_le hn.le, drop_zero, drop_zero]

theorem rtake_of_le (hlt : outcomes.length - size < outcomes.length) : outcomes.rtake size =
      outcomes[outcomes.length - size] :: outcomes.drop (outcomes.length - size + 1) :=
  drop_eq_getElem_cons hlt

theorem rtake_concat_of_le {b : Bool} (hn : size ≤ outcomes.length)
    (hlt : outcomes.length - size < outcomes.length) :
    (outcomes ++ [b]).rtake size = outcomes.drop (outcomes.length - size + 1) ++ [b] := by
  rw [List.rtake, length_append, length_singleton,
    show outcomes.length + 1 - size = outcomes.length - size + 1 by omega,
    drop_append_of_le_length (by omega)]

theorem record (h : w.Represents outcomes) (success : Bool) :
    (w.record success).Represents (outcomes ++ [success]) := by
  have hpos : 0 < size := w.idx.pos
  have hlen : (outcomes ++ [success]).length = outcomes.length + 1 := by simp
  refine ⟨?_, fun i hi => ?_, fun k hk i hki hi => ?_, ?_, ?_⟩
  · show (w.idx + 1) % size = _
    rw [h.idx, hlen, Nat.mod_add_mod]
  · rw [hlen] at hi
    have hidx : (w.idx : Nat) = outcomes.length := by
      rw [h.idx, Nat.mod_eq_of_lt (by omega)]
    exact (Vector.getElem_set_ne w.idx.isLt i.isLt (by omega)).trans (h.unset i (by omega))
  · rw [hlen] at hk hki
    rcases Nat.lt_succ_iff_lt_or_eq.mp hk with hlt | rfl
    · have hne : (w.idx : Nat) ≠ i := by
        rw [h.idx, hi]
        intro heq
        have hzero := Nat.sub_mod_eq_zero_of_mod_eq heq
        rw [Nat.mod_eq_of_lt (by omega)] at hzero
        omega
      refine (Vector.getElem_set_ne w.idx.isLt i.isLt hne).trans ?_
      rw [getElem_append_left hlt]
      exact h.slot k hlt i (by omega) hi
    · have heq : w.idx = i := Fin.ext (h.idx.trans hi.symm)
      subst heq
      refine (Vector.getElem_set_self _).trans ?_
      simp
  · show (if w.ring[w.idx] = none then w.total + 1 else w.total) = _
    rcases lt_or_ge outcomes.length size with hlt | hge
    · rw [if_pos (h.evicted_of_lt hlt), h.total, hlen]
      omega
    · rw [h.evicted_of_le hge (by omega), if_neg (by simp), h.total, hlen]
      omega
  · show (if success then (if w.ring[w.idx] = some false then w.failures - 1 else w.failures)
      else (if w.ring[w.idx] = some false then w.failures - 1 else w.failures) + 1) = _
    rcases lt_or_ge outcomes.length size with hlt | hge
    · simp only [h.evicted_of_lt hlt, reduceCtorEq, if_false, h.failures, rtake_concat_of_lt hlt,
        count_append]
      cases success <;> simp
    · have hlt : outcomes.length - size < outcomes.length := by omega
      simp only [h.evicted_of_le hge hlt, rtake_concat_of_le hge hlt, h.failures, rtake_of_le hlt,
        count_append]
      cases outcomes[outcomes.length - size] <;> cases success <;> simp

end CountBasedWindow.Represents

theorem CountBasedWindow.Represents.recordAll {size : Nat} {w : CountBasedWindow size}
    {outcomes : List Bool} (h : w.Represents outcomes) (more : List Bool) :
    (more.foldl CountBasedWindow.record w).Represents (outcomes ++ more) := by
  induction more generalizing w outcomes with
  | nil => rwa [append_nil]
  | cons b _ ih => simpa using ih (h.record b)

namespace TimeBasedWindow

variable {n : Nat}

/-- An outcome, with the time it was recorded at. -/
abbrev Outcome := Bool × ℚ

def second (r : Outcome) : Int := truncate r.2

/-- The outcomes of a kind in one second. -/
def countAt (p : Outcome → Bool) (rs : List Outcome) (s : Int) : Nat :=
  rs.countP fun r => p r ∧ second r = s

variable {w : TimeBasedWindow n} {rs : List Outcome} {success : Bool} {now : ℚ}
  {p : Outcome → Bool}

/-! ## Recording -/

theorem record_bucket (success : Bool) {i : Fin n} (hi : i = w.bucket (truncate now)) :
    (w.record success now).epoch[i] = truncate now ∧
      (w.record success now).totals[i] =
        (if w.epoch[i] = truncate now then w.totals[i] else 0) + 1 ∧
      (w.record success now).failures[i] =
        (if w.epoch[i] = truncate now then w.failures[i] else 0) + (if success then 0 else 1) := by
  subst hi
  by_cases hold : w.epoch[(w.bucket (truncate now) : Nat)] = truncate now <;>
    cases success <;> simp [record, hold]

theorem record_others (success : Bool) {i : Fin n} (hi : i ≠ w.bucket (truncate now)) :
    (w.record success now).epoch[i] = w.epoch[i] ∧
      (w.record success now).totals[i] = w.totals[i] ∧
      (w.record success now).failures[i] = w.failures[i] := by
  have hne : (w.bucket (truncate now) : Nat) ≠ i := fun h => hi (Fin.ext h.symm)
  by_cases hold : w.epoch[(w.bucket (truncate now) : Nat)] = truncate now <;>
    cases success <;> simp [record, hold, hne]

/-- Each bucket counts the outcomes of its second, the latest one recorded that falls into it. -/
structure Holds (w : TimeBasedWindow n) (rs : List Outcome) : Prop where
  epoch : ∀ i : Fin n, w.epoch[i] = -1 ∨
    i = w.bucket w.epoch[i] ∧ ∃ r ∈ rs, second r = w.epoch[i]
  latest : ∀ r ∈ rs, 0 ≤ second r ∧ second r ≤ w.epoch[w.bucket (second r)]
  totals : ∀ i : Fin n, w.totals[i] = countAt (fun _ => true) rs w.epoch[i]
  failures : ∀ i : Fin n, w.failures[i] = countAt (!·.1) rs w.epoch[i]

theorem Holds.empty (h : 0 < n) : (TimeBasedWindow.empty h).Holds [] where
  epoch := fun _ => .inl (Vector.getElem_replicate _)
  latest := nofun
  totals := fun _ => Vector.getElem_replicate _
  failures := fun _ => Vector.getElem_replicate _

theorem Holds.record (h : w.Holds rs) (success : Bool) (hnow : 0 ≤ truncate now)
    (hlast : ∀ r ∈ rs, second r ≤ truncate now) :
    (w.record success now).Holds (rs ++ [(success, now)]) := by
  have hbucket : (w.record success now).bucket = w.bucket := rfl
  -- a bucket with another tag has not seen the second
  have hfresh : w.epoch[w.bucket (truncate now)] ≠ truncate now →
      ∀ r ∈ rs, second r ≠ truncate now := by
    intro hne r hr heq
    obtain ⟨hnonneg, hle⟩ := h.latest r hr
    simp only [heq] at hnonneg hle
    rcases h.epoch (w.bucket (truncate now)) with hunset | ⟨-, r', hr', hr''⟩
    · omega
    · exact hne (le_antisymm (hr'' ▸ hlast r' hr') hle)
  have hcount : ∀ {p : Outcome → Bool} {i : Fin n}, i = w.bucket (truncate now) →
      (countAt p (rs ++ [(success, now)]) (truncate now) : Int) =
        (if w.epoch[i] = truncate now then (countAt p rs w.epoch[i] : Int) else 0) +
          (if p (success, now) then 1 else 0) := by
    rintro p i rfl
    rw [countAt, countP_append, countP_singleton, Nat.cast_add]
    congr 1
    · split
      case isTrue heq => rw [heq, countAt]
      case isFalse hne =>
        rw [countP_eq_zero.mpr fun r hr hin => hfresh hne r hr (of_decide_eq_true hin).2]
        rfl
    · have hsecond : second (success, now) = truncate now := rfl
      cases p (success, now) <;> simp [hsecond]
  have hcount' : ∀ {p : Outcome → Bool} {i : Fin n}, i ≠ w.bucket (truncate now) →
      countAt p (rs ++ [(success, now)]) w.epoch[i] = countAt p rs w.epoch[i] := by
    intro p i hi
    have hne : second (success, now) ≠ w.epoch[i] := by
      rintro (heq : truncate now = _)
      rcases h.epoch i with hunset | ⟨hi', -⟩
      · omega
      · exact hi (heq ▸ hi')
    rw [countAt, countP_append, countP_singleton, countAt,
      if_neg fun hin => hne (of_decide_eq_true hin).2]
    rfl
  refine ⟨fun i => ?_, fun r hr => ?_, fun i => ?_, fun i => ?_⟩
  · simp only [hbucket]
    by_cases hi : i = w.bucket (truncate now)
    · rw [(record_bucket success hi).1]
      exact .inr ⟨hi, _, mem_append_right _ List.mem_cons_self, rfl⟩
    · rw [(record_others success hi).1]
      exact (h.epoch i).imp_right fun ⟨hi, r, hr, heq⟩ => ⟨hi, r, mem_append_left _ hr, heq⟩
  · simp only [hbucket]
    rcases mem_append.mp hr with hr | hr
    · obtain ⟨hnonneg, hle⟩ := h.latest r hr
      refine ⟨hnonneg, ?_⟩
      by_cases hi : w.bucket (second r) = w.bucket (truncate now)
      · rw [(record_bucket success hi).1]
        exact hlast r hr
      · rwa [(record_others success hi).1]
    · obtain rfl := List.mem_singleton.mp hr
      exact ⟨hnow, (record_bucket success rfl).1.ge⟩
  · by_cases hi : i = w.bucket (truncate now)
    · obtain ⟨hepoch, htotal, -⟩ := record_bucket success hi
      rw [hepoch, htotal, hcount hi, h.totals]
      rfl
    · obtain ⟨hepoch, htotal, -⟩ := record_others success hi
      rw [hepoch, htotal, hcount' hi, h.totals]
  · by_cases hi : i = w.bucket (truncate now)
    · obtain ⟨hepoch, -, hfailed⟩ := record_bucket success hi
      rw [hepoch, hfailed, hcount hi, h.failures]
      cases success <;> rfl
    · obtain ⟨hepoch, -, hfailed⟩ := record_others success hi
      rw [hepoch, hfailed, hcount' hi, h.failures]

/-! ## Reporting -/

theorem bucket_inj {s s' : Int} (hbucket : w.bucket s = w.bucket s') (hle : s ≤ s')
    (hlt : s' < s + n) : s = s' := by
  have hn : (0 : Int) < n := by exact_mod_cast w.seconds_pos
  have hs := Int.emod_nonneg s hn.ne'
  have hs' := Int.emod_nonneg s' hn.ne'
  have hmod : (s % n).toNat = (s' % n).toNat := congrArg Fin.val hbucket
  have hdiff : (s' - s) % n = 0 := Int.emod_eq_emod_iff_emod_sub_eq_zero.mp (by omega)
  rw [Int.emod_eq_of_lt (by omega) (by omega)] at hdiff
  omega

theorem Holds.tag (h : w.Holds rs) {latest : Int} (hlast : ∀ r ∈ rs, second r ≤ latest)
    {r : Outcome} (hr : r ∈ rs) (hin : latest - n + 1 ≤ second r) :
    w.epoch[w.bucket (second r)] = second r := by
  obtain ⟨hnonneg, hle⟩ := h.latest r hr
  rcases h.epoch (w.bucket (second r)) with hunset | ⟨hbucket, r', hr', heq⟩
  · omega
  · have hlatest := hlast r' hr'
    exact (bucket_inj hbucket hle (by omega)).symm

theorem Holds.sum_buckets (h : w.Holds rs) {latest : Int} (hlast : ∀ r ∈ rs, second r ≤ latest)
    (p : Outcome → Bool) :
    (∑ i : Fin n, if latest - n + 1 ≤ w.epoch[i] then (countAt p rs w.epoch[i] : Int) else 0) =
      rs.countP fun r => p r ∧ latest - n + 1 ≤ second r ∧ second r ≤ latest := by
  -- each outcome is counted in its own bucket, so the sum goes outcome by outcome
  suffices hsum : ∀ part ⊆ rs, (∑ i : Fin n,
      if latest - n + 1 ≤ w.epoch[i] then (countAt p part w.epoch[i] : Int) else 0) =
      part.countP fun r => p r ∧ latest - n + 1 ≤ second r ∧ second r ≤ latest from
    hsum rs (List.Subset.refl rs)
  intro part hpart
  induction part with
  | nil => simp [countAt]
  | cons r part ih =>
    obtain ⟨hr, hpart⟩ := List.cons_subset.mp hpart
    have hone : (∑ i : Fin n, if latest - n + 1 ≤ w.epoch[i] then
        (if p r ∧ second r = w.epoch[i] then 1 else 0 : Int) else 0) =
        if p r ∧ latest - n + 1 ≤ second r ∧ second r ≤ latest then 1 else 0 := by
      have hthere := hlast r hr
      rw [sum_eq_single (w.bucket (second r))]
      · by_cases hin : latest - n + 1 ≤ second r
        · simp only [h.tag hlast hr hin, hin, hthere, and_true, if_true]
        · simp only [hin, false_and, and_false, if_false]
          exact ite_eq_right_iff.mpr fun htag => if_neg fun hc => hin (htag.trans_eq hc.2.symm)
      · intro i _ hi
        refine ite_eq_right_iff.mpr fun _ => if_neg fun hc => ?_
        rcases h.epoch i with hunset | ⟨hbucket, -⟩
        · have hnonneg := (h.latest r hr).1
          omega
        · exact hi (hc.2 ▸ hbucket)
      · exact fun hnot => absurd (mem_univ _) hnot
    have hsplit : ∀ i : Fin n,
        (if latest - n + 1 ≤ w.epoch[i] then (countAt p (r :: part) w.epoch[i] : Int) else 0) =
          (if latest - n + 1 ≤ w.epoch[i] then (countAt p part w.epoch[i] : Int) else 0) +
            if latest - n + 1 ≤ w.epoch[i] then
              (if p r ∧ second r = w.epoch[i] then 1 else 0 : Int) else 0 := by
      intro i
      rw [countAt, countP_cons, countAt]
      split <;> simp
    rw [sum_congr rfl fun i _ => hsplit i, sum_add_distrib, ih hpart, hone,
      countP_cons]
    simp

theorem foldl_buckets {ι : Type} (c : ι → Prop) [DecidablePred c] (f g : ι → Int) (is : List ι)
    (total failures : Int) :
    is.foldl (fun (s : WindowSnapshot) i => if c i then ⟨s.total + f i, s.failures + g i⟩ else s)
        ⟨total, failures⟩ =
      ⟨total + (is.map fun i => if c i then f i else 0).sum,
        failures + (is.map fun i => if c i then g i else 0).sum⟩ := by
  induction is generalizing total failures with
  | nil => simp
  | cons i _ ih =>
    by_cases hin : c i
    · simp only [foldl_cons, List.map_cons, List.sum_cons, if_pos hin, ih, add_assoc]
    · simp only [foldl_cons, List.map_cons, List.sum_cons, if_neg hin, ih, zero_add]

theorem snapshot_eq : w.snapshot now =
    ⟨∑ i : Fin n, if truncate now - n + 1 ≤ w.epoch[i] then w.totals[i] else 0,
      ∑ i : Fin n, if truncate now - n + 1 ≤ w.epoch[i] then w.failures[i] else 0⟩ := by
  rw [Fin.sum_univ_def, Fin.sum_univ_def]
  exact (foldl_buckets _ _ _ _ 0 0).trans (by rw [zero_add, zero_add])

theorem second_mono {t t' : ℚ} (h0 : 0 ≤ t) (h : t ≤ t') :
    0 ≤ truncate t ∧ truncate t ≤ truncate t' := by
  rw [truncate, truncate, if_pos h0, if_pos (h0.trans h)]
  exact ⟨Int.floor_nonneg.mpr h0, Int.floor_le_floor h⟩

theorem Holds.recordAll (h : w.Holds rs) (more : List Outcome) (hpos : ∀ r ∈ more, 0 ≤ second r)
    (htimes : (rs ++ more).Pairwise fun r r' => second r ≤ second r') :
    (more.foldl (fun w r => w.record r.1 r.2) w).Holds (rs ++ more) := by
  induction more generalizing w rs with
  | nil => rwa [append_nil]
  | cons r _ ih =>
    have hbefore := (pairwise_append.mp htimes).2.2
    have hnext := h.record r.1 (hpos r List.mem_cons_self) fun r' hr' =>
      hbefore r' hr' r List.mem_cons_self
    rw [append_cons] at htimes ⊢
    exact ih hnext (fun r' hr' => hpos r' (List.mem_cons_of_mem r hr')) htimes

/-- After a reset, the one window reports the last `size` outcomes and the other those of the `n`
    whole seconds that end with the present one. -/
theorem windows_report {size : Nat} (w : CountBasedWindow size) (v : TimeBasedWindow n)
    (outcomes : List Bool) (rs : List Outcome) (now : ℚ)
    (htimes : (0 :: rs.map Prod.snd ++ [now]).Pairwise (· ≤ ·)) :
    (outcomes.foldl CountBasedWindow.record w.reset).snapshot =
        ⟨min size outcomes.length, (outcomes.rtake size).count false⟩ ∧
      (rs.foldl (fun v r => v.record r.1 r.2) v.reset).snapshot now =
        ⟨rs.countP fun r => truncate now - n + 1 ≤ second r ∧ second r ≤ truncate now,
          rs.countP fun r =>
            r.1 = false ∧ truncate now - n + 1 ≤ second r ∧ second r ≤ truncate now⟩ := by
  constructor
  · have hring := (CountBasedWindow.Represents.empty w.idx.pos).recordAll outcomes
    rw [CountBasedWindow.snapshot, CountBasedWindow.reset, hring.total, hring.failures,
      nil_append, min_comm, Nat.cast_min]
  obtain ⟨htimes, -, hnow⟩ := pairwise_append.mp htimes
  obtain ⟨hpos, hsorted⟩ := List.pairwise_cons.mp htimes
  have hin : ∀ r ∈ rs, 0 ≤ r.2 ∧ r.2 ≤ now := fun r hr =>
    have hr := List.mem_map_of_mem (f := Prod.snd) hr
    ⟨hpos _ hr, hnow _ (List.mem_cons_of_mem _ hr) now List.mem_cons_self⟩
  have hholds := (Holds.empty v.seconds_pos).recordAll rs
    (fun r hr => (second_mono (hin r hr).1 (hin r hr).2).1)
    ((pairwise_map.mp hsorted).imp_of_mem fun hr _ hle => (second_mono (hin _ hr).1 hle).2)
  have hlast : ∀ r ∈ rs, second r ≤ truncate now := fun r hr =>
    (second_mono (hin r hr).1 (hin r hr).2).2
  rw [nil_append] at hholds
  have htotal := hholds.sum_buckets hlast fun _ => true
  have hfailed := hholds.sum_buckets hlast (!·.1)
  simp only [← hholds.totals, ← hholds.failures] at htotal hfailed
  rw [reset, snapshot_eq, htotal, hfailed]
  simp

/-- The oldest of four outcomes has left the window of three. Of the window of three seconds,
    seconds 1 and 2 have left the ring, and nothing was recorded in second 4. -/
theorem windows_report_wrapped :
    ([false, true, false, true].foldl CountBasedWindow.record
        (CountBasedWindow.empty (by decide : 0 < 3)).reset).snapshot = ⟨3, 1⟩ ∧
      (([(false, 1), (true, 2), (false, 3), (true, 3), (false, 5)] : List Outcome).foldl
        (fun v r => v.record r.1 r.2)
        (TimeBasedWindow.empty (by decide : 0 < 3)).reset).snapshot 5 = ⟨3, 2⟩ := by
  obtain ⟨hcount, htime⟩ := windows_report (CountBasedWindow.empty (by decide : 0 < 3))
    (TimeBasedWindow.empty (by decide : 0 < 3)) [false, true, false, true]
    [(false, 1), (true, 2), (false, 3), (true, 3), (false, 5)] 5 (by decide +kernel)
  exact ⟨hcount, htime.trans (congrArg₂ _ (by decide +kernel) (by decide +kernel))⟩

end TimeBasedWindow

end InterviewPrep.Resilience
