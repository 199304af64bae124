/-
  Geohashes, and the index of the positions of the drivers: one sorted list of the drivers
  by their geohash for the searches, and the position of each driver with its time.  An
  update that is older than the position is ignored.
-/
import InterviewPrep.Lib.Dict
import InterviewPrep.Lib.Python
import InterviewPrep.Lib.Redelivery
import Mathlib.Data.Prod.Lex
import Mathlib.Data.String.Basic

namespace InterviewPrep.CabBooking

open Lib Dict

/-! ## Geohashes -/

structure Location where
  lat : ℚ
  lng : ℚ
  valid : (-90 ≤ lat ∧ lat ≤ 90) ∧ -180 ≤ lng ∧ lng ≤ 180
  deriving DecidableEq

/-- `_BASE32`. -/
def base32 : List Char := "0123456789bcdefghjkmnpqrstuvwxyz".toList

/-- The loop of `geohash_encode`, between two iterations. -/
structure Geohash where
  latRng : ℚ × ℚ
  lngRng : ℚ × ℚ
  chars : List Char
  ch : Nat
  bit : Nat
  even : Bool

namespace Geohash

def start : Geohash := ⟨(-90, 90), (-180, 180), [], 0, 0, true⟩

/-- One iteration: the range of the next coordinate is halved, for one more bit. -/
def halve (lat lng : ℚ) (g : Geohash) : Geohash :=
  let rng := if g.even then g.lngRng else g.latRng
  let val := if g.even then lng else lat
  let mid := (rng.1 + rng.2) / 2
  let rng := if mid ≤ val then (mid, rng.2) else (rng.1, mid)
  let ch := if mid ≤ val then g.ch ||| 1 <<< (4 - g.bit) else g.ch
  { latRng := if g.even then g.latRng else rng
    lngRng := if g.even then rng else g.lngRng
    chars := if g.bit + 1 = 5 then g.chars ++ [base32.getD ch '0'] else g.chars
    ch := if g.bit + 1 = 5 then 0 else ch
    bit := if g.bit + 1 = 5 then 0 else g.bit + 1
    even := !g.even }

def loop (lat lng : ℚ) (precision : Nat) : Nat → Geohash → Geohash
  | 0, g => g
  | fuel + 1, g =>
    if g.chars.length < precision then loop lat lng precision fuel (g.halve lat lng) else g

end Geohash

/-- Five bits make a character. -/
def geohashEncode (lat lng : ℚ) (precision : Nat) : String :=
  String.ofList (Geohash.start.loop lat lng precision (5 * precision)).chars

/-! ## The index -/

structure GeoIndex where
  sorted : List (String ×ₗ String)
  pos : Dict String (String × Location × ℚ)

namespace GeoIndex

/-- `PRECISION`. -/
def precision : Nat := 7

def new : GeoIndex := ⟨[], Dict.empty⟩

/-- The geohash that a position is indexed under. -/
def hashOf (location : Location) : String := geohashEncode location.lat location.lng precision

variable (g : GeoIndex)

def removeEntry (gh driverId : String) : List (String ×ₗ String) :=
  let i := bisectLeft g.sorted fun entry => entry < toLex (gh, driverId)
  if g.sorted[i]? = some (toLex (gh, driverId)) then g.sorted.eraseIdx i else g.sorted

/-- Whether the position is accepted, and the index with it. -/
def upsert (driverId : String) (location : Location) (ts : ℚ) : Bool × GeoIndex :=
  let entry := toLex (hashOf location, driverId)
  let accept := fun sorted => (true,
    { sorted := insort (fun e => entry < e) sorted entry
      pos := g.pos.set driverId (hashOf location, location, ts) })
  match g.pos.get? driverId with
  | none => accept g.sorted
  | some (oldHash, _, oldTs) =>
    if ts < oldTs then (false, g) else accept (g.removeEntry oldHash driverId)

/-- The position of a driver, with its time. -/
def entry (driverId : String) : Option (Location × ℚ) := (g.pos.get? driverId).map Prod.snd

variable {g} {driverId : String} {location : Location} {ts : ℚ}

theorem pos_upsert : (g.upsert driverId location ts).2.pos =
    if (g.upsert driverId location ts).1 then g.pos.set driverId (hashOf location, location, ts)
    else g.pos := by
  rw [upsert]
  split
  · rfl
  · split <;> rfl

theorem entry_upsert (driverId' : String) :
    (g.upsert driverId location ts).2.entry driverId' =
      if driverId' = driverId then latest Prod.snd (g.entry driverId) (location, ts)
      else g.entry driverId' := by
  have hset : ∀ g' : GeoIndex, g'.pos = g.pos.set driverId (hashOf location, location, ts) →
      g'.entry driverId' =
        if driverId' = driverId then some (location, ts) else g.entry driverId' := by
    intro g' hpos
    rw [entry, hpos, get?_set]
    split <;> rfl
  rw [upsert]
  cases hpos : g.pos.get? driverId with
  | none =>
    have hentry : g.entry driverId = none := by rw [entry, hpos]; rfl
    rw [hentry]
    exact hset _ rfl
  | some old =>
  obtain ⟨oldHash, oldLocation, oldTs⟩ := old
  have hentry : g.entry driverId = some (oldLocation, oldTs) := by rw [entry, hpos]; rfl
  rw [hentry, latest]
  dsimp only
  by_cases hold : ts < oldTs
  · rw [if_pos hold, if_pos hold]
    by_cases heq : driverId' = driverId
    · rw [if_pos heq, heq, hentry]
    · rw [if_neg heq]
  · rw [if_neg hold, if_neg hold]
    exact hset _ rfl

theorem upsert_refused : (g.upsert driverId location ts).1 = false ↔
    ∃ e, g.entry driverId = some e ∧ ts < e.2 := by
  rw [upsert, entry]
  cases hpos : g.pos.get? driverId with
  | none =>
    simp only [Option.map_none, Bool.true_eq_false, false_iff]
    rintro ⟨_, ⟨⟩, -⟩
  | some old =>
  obtain ⟨oldHash, oldLocation, oldTs⟩ := old
  dsimp only
  rw [Option.map_some]
  by_cases hold : ts < oldTs
  · rw [if_pos hold]
    exact iff_of_true rfl ⟨_, rfl, hold⟩
  · rw [if_neg hold]
    refine iff_of_false Bool.noConfusion ?_
    rintro ⟨_, ⟨⟩, hlt⟩
    exact hold hlt

theorem upsert_false (h : (g.upsert driverId location ts).1 = false) :
    g.upsert driverId location ts = (false, g) := by
  rw [upsert] at h ⊢
  dsimp only at h ⊢
  cases hpos : g.pos.get? driverId with
  | none =>
    rw [hpos] at h
    cases h
  | some old =>
    obtain ⟨oldHash, oldLocation, oldTs⟩ := old
    rw [hpos] at h
    dsimp only at h ⊢
    by_cases hold : ts < oldTs
    · rw [if_pos hold]
    · rw [if_neg hold] at h
      cases h

theorem entry_accepted {g' : GeoIndex} (h : g.upsert driverId location ts = (true, g')) :
    g'.entry driverId = some (location, ts) := by
  have hpos : (g.upsert driverId location ts).2.pos = _ := pos_upsert
  rw [h, if_pos rfl] at hpos
  rw [entry, hpos, get?_set_self]
  rfl

/-! ## The sorted list -/

/-- The list is sorted, and has each driver once, under the geohash of its position. -/
structure Indexed (g : GeoIndex) : Prop where
  sorted : g.sorted.Pairwise (· < ·)
  entries : ∀ gh driverId, toLex (gh, driverId) ∈ g.sorted ↔
    ∃ e, g.pos.get? driverId = some (gh, e)
  hashes : ∀ driverId gh e, g.pos.get? driverId = some (gh, e) → gh = hashOf e.1

theorem new_indexed : new.Indexed where
  sorted := List.Pairwise.nil
  entries := by
    intro gh driverId
    refine iff_of_false List.not_mem_nil ?_
    rintro ⟨_, ⟨⟩⟩
  hashes := by rintro _ _ _ ⟨⟩

theorem Indexed.upsert (h : g.Indexed) : (g.upsert driverId location ts).2.Indexed := by
  -- the list without the driver
  have hinsert : ∀ rest : List (String ×ₗ String), rest.Pairwise (· < ·) →
      (∀ gh id, toLex (gh, id) ∈ rest ↔ id ≠ driverId ∧ toLex (gh, id) ∈ g.sorted) →
      Indexed ⟨insort (fun e => toLex (hashOf location, driverId) < e) rest
          (toLex (hashOf location, driverId)),
        g.pos.set driverId (hashOf location, location, ts)⟩ := by
    intro rest hrest hmem
    have hnew : toLex (hashOf location, driverId) ∉ rest := fun hin => ((hmem _ _).mp hin).1 rfl
    obtain ⟨hsorted, hinsort⟩ := insort_sorted hrest hnew
    refine ⟨hsorted, fun gh id => ?_, fun id gh e hid => ?_⟩
    · rw [hinsort, hmem, get?_set]
      by_cases hid : id = driverId
      · rw [if_pos hid, hid]
        constructor
        · rintro (heq | ⟨hne, -⟩)
          · rw [(Prod.mk.inj (toLex.injective heq)).1]
            exact ⟨_, rfl⟩
          · exact absurd rfl hne
        · rintro ⟨e, he⟩
          rw [(Prod.mk.inj (Option.some.inj he)).1]
          exact .inl rfl
      · rw [if_neg hid, ← h.entries]
        constructor
        · rintro (heq | ⟨-, hin⟩)
          · exact absurd (Prod.mk.inj (toLex.injective heq)).2 hid
          · exact hin
        · exact fun hin => .inr ⟨hid, hin⟩
    · obtain ⟨-, heq⟩ | ⟨-, hid⟩ := get?_set_some hid
      · obtain ⟨rfl, rfl⟩ := Prod.mk.inj heq
        rfl
      · exact h.hashes id gh e hid
  rw [GeoIndex.upsert]
  split
  next hpos =>
    refine hinsert g.sorted h.sorted fun gh id => ⟨fun hin => ⟨?_, hin⟩, fun hin => hin.2⟩
    rintro rfl
    obtain ⟨e, he⟩ := (h.entries gh id).mp hin
    rw [hpos] at he
    cases he
  next oldHash _ _ hpos =>
  split
  · exact h
  obtain ⟨hsorted, hmem⟩ := bisectLeft_remove (y := toLex (oldHash, driverId)) h.sorted
  refine hinsert _ hsorted fun gh id => ?_
  rw [removeEntry, hmem, and_comm]
  refine and_congr_left fun hin => ⟨fun hne => ?_, fun hne heq => ?_⟩
  · rintro rfl
    obtain ⟨e, he⟩ := (h.entries gh id).mp hin
    rw [hpos] at he
    cases he
    exact hne rfl
  · exact hne (Prod.mk.inj (toLex.injective heq)).2

end GeoIndex

end InterviewPrep.CabBooking
