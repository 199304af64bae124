/-
  A topic of the broker: a log for each partition, and the offsets that each group has committed.
  A poll gives the messages that follow the offsets, and a group that commits what it was given in
  that order finds each next message at its offset (`Ready`).  What a group keeps of the messages
  of one partition is then theirs, or theirs and that of the next one (`Consumed`).
-/
import InterviewPrep.Lib.Dict
import InterviewPrep.Lib.Redelivery

namespace InterviewPrep.CabBooking

open Lib List

structure KafkaMessage (V : Type) where
  partition : Nat
  offset : Nat
  key : String
  value : V

structure Topic (V : Type) where
  logs : List (List (KafkaMessage V))
  committed : Dict (String × Nat) Nat

namespace Topic

variable {V : Type}

def create (partitions : Nat) : Topic V := ⟨List.replicate partitions [], Dict.empty⟩

variable (t : Topic V) (group : String)

/-- The log of a partition. -/
def log (p : Nat) : List (KafkaMessage V) := (t.logs[p]?).getD []

def offset (p : Nat) : Nat := (t.committed.get? (group, p)).getD 0

/-- The message is appended to the partition that the hash of its key gives. -/
def produce (crc32 : String → Nat) (key : String) (value : V) : Topic V :=
  let p := crc32 key % t.logs.length
  { t with logs := t.logs.modify p fun log => log ++ [⟨p, log.length, key, value⟩] }

/-- `log[start:stop]`; an end that is negative counts from the back. -/
def slice (log : List (KafkaMessage V)) (start : Nat) (stop : Int) : List (KafkaMessage V) :=
  (log.take (if stop < 0 then log.length + stop else stop).toNat).drop start

/-- The loop of `poll` over the partitions from `p` on. -/
def pollLoop (maxMessages : Int) : Nat → List (List (KafkaMessage V)) →
    List (KafkaMessage V) → List (KafkaMessage V)
  | _, [], out => out
  | p, log :: logs, out =>
    let start := t.offset group p
    let out := out ++ slice log start (start + maxMessages - out.length)
    if out.length ≥ maxMessages then out else pollLoop maxMessages (p + 1) logs out

def poll (maxMessages : Int) : List (KafkaMessage V) := t.pollLoop group maxMessages 0 t.logs []

def commit (msg : KafkaMessage V) : Topic V :=
  let offset := max (t.offset group msg.partition) (msg.offset + 1)
  { t with committed := t.committed.set (group, msg.partition) offset }

variable {t group} {p q i : Nat} {msg : KafkaMessage V} {key : String} {value : V}
  {crc32 : String → Nat} {batch : List (KafkaMessage V)}

/-! ## Logs and offsets -/

@[simp] theorem log_commit : (t.commit group msg).log p = t.log p := rfl

theorem offset_commit : (t.commit group msg).offset group p =
    if p = msg.partition then max (t.offset group p) (msg.offset + 1) else t.offset group p := by
  rw [offset, commit]
  rw [Dict.get?_set]
  by_cases hp : p = msg.partition
  · rw [if_pos hp, hp, if_pos rfl, Option.getD_some]
  · rw [if_neg hp, if_neg fun heq => hp (Prod.mk.inj heq).2]
    rfl

@[simp] theorem offset_produce : (t.produce crc32 key value).offset group p = t.offset group p :=
  rfl

@[simp] theorem length_produce : (t.produce crc32 key value).logs.length = t.logs.length :=
  length_modify ..

/-- Where the messages with a key are. -/
def partitionOf (t : Topic V) (crc32 : String → Nat) (key : String) : Nat :=
  crc32 key % t.logs.length

theorem log_produce (hpos : 0 < t.logs.length) : (t.produce crc32 key value).log p =
    if p = t.partitionOf crc32 key then
      t.log p ++ [⟨p, (t.log p).length, key, value⟩]
    else t.log p := by
  have hlt : t.partitionOf crc32 key < t.logs.length := Nat.mod_lt _ hpos
  rw [log, produce]
  rw [← partitionOf, getElem?_modify]
  by_cases hp : p = t.partitionOf crc32 key
  · have hget : t.logs[p]? = some (t.log p) := by
      rw [log, hp, getElem?_eq_getElem hlt]
      rfl
    rw [if_pos hp, hget, ← hp]
    simp
  · rw [if_neg hp, log]
    cases t.logs[p]? with
    | none => rfl
    | some =>
      rw [Option.map_eq_map, Option.map_some, if_neg fun heq => hp heq.symm]

/-- Each message says where it is, and no offset is behind the end of its log. -/
structure Wf (t : Topic V) (group : String) : Prop where
  pos : 0 < t.logs.length
  message : ∀ p i (msg : KafkaMessage V), (t.log p)[i]? = some msg →
    msg.partition = p ∧ msg.offset = i
  offset : ∀ p, t.offset group p ≤ (t.log p).length

theorem create_wf (partitions : Nat) (hpos : 0 < partitions) :
    (create partitions : Topic V).Wf group := by
  have hlog : ∀ p, (create partitions : Topic V).log p = [] := by
    intro p
    rw [log, create, getElem?_replicate]
    split <;> rfl
  refine ⟨?_, fun p i msg hmsg => ?_, fun p => Nat.zero_le _⟩
  · rw [create, length_replicate]
    exact hpos
  · rw [hlog] at hmsg
    cases hmsg

theorem Wf.produce (h : t.Wf group) : (t.produce crc32 key value).Wf group := by
  refine ⟨?_, fun p i msg hmsg => ?_, fun p => ?_⟩
  · rw [length_produce]
    exact h.pos
  · rw [log_produce h.pos] at hmsg
    split at hmsg
    · rcases Nat.lt_trichotomy i (t.log p).length with hlt | heq | hgt
      · rw [getElem?_append_left hlt] at hmsg
        exact h.message p i msg hmsg
      · rw [heq, getElem?_append_right (Nat.le_refl _), Nat.sub_self] at hmsg
        cases hmsg
        exact ⟨rfl, heq.symm⟩
      · rw [getElem?_eq_none (by rw [length_append, length_singleton]; omega)]
          at hmsg
        cases hmsg
    · exact h.message p i msg hmsg
  · rw [offset_produce, log_produce h.pos]
    split
    · rw [length_append]
      exact Nat.le_trans (h.offset p) (Nat.le_add_right _ _)
    · exact h.offset p

theorem Wf.getElem?_produce (h : t.Wf group) (hmsg : (t.log p)[i]? = some msg) :
    ((t.produce crc32 key value).log p)[i]? = some msg := by
  rw [log_produce h.pos]
  split
  · obtain ⟨hlt, -⟩ := List.getElem?_eq_some_iff.mp hmsg
    rw [getElem?_append_left hlt]
    exact hmsg
  · exact hmsg

theorem Wf.getElem?_of_produce (h : t.Wf group) (hi : i < (t.log p).length)
    (hmsg : ((t.produce crc32 key value).log p)[i]? = some msg) : (t.log p)[i]? = some msg := by
  have hbefore := getElem?_eq_getElem hi
  rw [h.getElem?_produce hbefore] at hmsg
  rw [hbefore, hmsg]

theorem Wf.mem_produce (h : t.Wf group) (hmsg : msg ∈ t.log p) :
    msg ∈ (t.produce crc32 key value).log p := by
  obtain ⟨i, hi⟩ := mem_iff_getElem?.mp hmsg
  exact mem_of_getElem? (h.getElem?_produce hi)

/-! ## Batches -/

/-- The messages of a batch are, in each partition, those that follow the offset. -/
def Ready (t : Topic V) (group : String) (batch : List (KafkaMessage V)) : Prop :=
  ∀ p, (batch.filter fun msg => msg.partition = p) <+: (t.log p).drop (t.offset group p)

theorem slice_prefix (log : List (KafkaMessage V)) (start : Nat) (stop : Int) :
    slice log start stop <+: log.drop start := by
  rw [slice, drop_take]
  exact take_prefix _ _

variable {out : List (KafkaMessage V)}

theorem Wf.filter_slice (h : t.Wf group)
    (hout : out <+: (t.log p).drop (t.offset group p)) :
    out.filter (fun msg => msg.partition = q) = if q = p then out else [] := by
  have hpart : ∀ msg ∈ out, msg.partition = p := by
    intro msg hmsg
    have hmem := mem_of_mem_drop (hout.subset hmsg)
    obtain ⟨i, hi⟩ := mem_iff_getElem?.mp hmem
    exact (h.message p i msg hi).1
  by_cases hq : q = p
  · rw [if_pos hq, filter_eq_self]
    exact fun msg hmsg => decide_eq_true ((hpart msg hmsg).trans hq.symm)
  · rw [if_neg hq, filter_eq_nil_iff]
    exact fun msg hmsg heq => hq ((of_decide_eq_true heq).symm.trans (hpart msg hmsg))

theorem Wf.pollLoop_ready (h : t.Wf group) (maxMessages : Int)
    {logs : List (List (KafkaMessage V))}
    (hlogs : ∀ i, (logs[i]?).getD [] = t.log (p + i)) (hready : t.Ready group out)
    (hout : ∀ q, p ≤ q → (out.filter fun msg => msg.partition = q) = []) :
    t.Ready group (t.pollLoop group maxMessages p logs out) := by
  induction logs generalizing p out with
  | nil => exact hready
  | cons log _ ih =>
    have hlog : log = t.log p := hlogs 0
    rw [pollLoop]
    obtain ⟨part, hpart⟩ : ∃ part, part = slice log (t.offset group p)
        (t.offset group p + maxMessages - out.length) := ⟨_, rfl⟩
    rw [← hpart]
    have hprefix : part <+: (t.log p).drop (t.offset group p) := by
      rw [hpart, hlog]
      exact slice_prefix _ _ _
    have hready' : t.Ready group (out ++ part) := by
      intro q
      rw [filter_append, h.filter_slice hprefix]
      by_cases hq : q = p
      · rw [if_pos hq, hout q (Nat.le_of_eq hq.symm), hq]
        exact hprefix
      · rw [if_neg hq, append_nil]
        exact hready q
    split
    · exact hready'
    · refine ih (fun i => ?_) hready' fun q hq => ?_
      · rw [Nat.add_right_comm]
        exact hlogs (i + 1)
      · rw [filter_append, hout q (by omega), h.filter_slice hprefix, if_neg (by omega)]
        rfl

theorem ready_nil : t.Ready group [] := fun _ => nil_prefix

theorem Wf.poll_ready (h : t.Wf group) (maxMessages : Int) :
    t.Ready group (t.poll group maxMessages) :=
  h.pollLoop_ready maxMessages (fun i => by rw [Nat.zero_add]; rfl) ready_nil fun _ _ => rfl

theorem Ready.produce (h : t.Ready group batch) (hwf : t.Wf group) :
    (t.produce crc32 key value).Ready group batch := by
  intro p
  rw [offset_produce, log_produce hwf.pos]
  split
  · rw [drop_append_of_le_length (hwf.offset p)]
    exact (h p).trans (prefix_append _ _)
  · exact h p

theorem Ready.head (h : t.Ready group (msg :: batch)) :
    (t.log msg.partition)[t.offset group msg.partition]? = some msg := by
  obtain ⟨rest, hrest⟩ := h msg.partition
  rw [filter_cons_of_pos (by exact decide_eq_true rfl), cons_append] at hrest
  rw [← head?_drop, ← hrest]
  rfl

theorem Ready.head_of (h : t.Ready group batch) (hhead : batch.head? = some msg) :
    (t.log msg.partition)[t.offset group msg.partition]? = some msg := by
  obtain ⟨rest, rfl⟩ := head?_eq_some_iff.mp hhead
  exact h.head

theorem Ready.offset_commit (h : t.Ready group (msg :: batch)) (hwf : t.Wf group) :
    (t.commit group msg).offset group p =
      if p = msg.partition then t.offset group p + 1 else t.offset group p := by
  have hoffset := (hwf.message _ _ _ h.head).2
  rw [Topic.offset_commit]
  by_cases hp : p = msg.partition
  · rw [if_pos hp, if_pos hp, hoffset, hp]
    exact Nat.max_eq_right (Nat.le_succ _)
  · rw [if_neg hp, if_neg hp]

theorem Ready.commit_wf (h : t.Ready group (msg :: batch)) (hwf : t.Wf group) :
    (t.commit group msg).Wf group := by
  refine ⟨hwf.pos, hwf.message, fun p => ?_⟩
  rw [h.offset_commit hwf, log_commit]
  split
  next hp =>
    obtain ⟨hlt, -⟩ := List.getElem?_eq_some_iff.mp h.head
    rw [hp]
    exact hlt
  · exact hwf.offset p

theorem Ready.commit (h : t.Ready group (msg :: batch)) (hwf : t.Wf group) :
    (t.commit group msg).Ready group batch := by
  intro p
  rw [h.offset_commit hwf, log_commit]
  have hp := h p
  by_cases hpart : p = msg.partition
  · rw [if_pos hpart]
    rw [filter_cons_of_pos (by exact decide_eq_true hpart.symm)] at hp
    obtain ⟨rest, hrest⟩ := hp
    rw [← tail_drop, ← hrest]
    exact ⟨rest, rfl⟩
  · rw [if_neg hpart]
    rwa [filter_cons_of_neg (by exact fun heq => hpart (of_decide_eq_true heq).symm)] at hp

@[simp] theorem partitionOf_produce {key' : String} :
    (t.produce crc32 key value).partitionOf crc32 key' = t.partitionOf crc32 key' := by
  rw [partitionOf, length_produce, partitionOf]

theorem Wf.take_produce (h : t.Wf group) (hi : i ≤ (t.log p).length) :
    ((t.produce crc32 key value).log p).take i = (t.log p).take i := by
  rw [log_produce h.pos]
  split
  · exact take_append_of_le_length hi
  · rfl

/-! ## What a group keeps -/

section

variable {σ : Type*} {apply : σ → KafkaMessage V → σ} {init x : σ}
  {current : Option (KafkaMessage V)}

/-- The messages of the other partitions do nothing. -/
def Homed (t : Topic V) (apply : σ → KafkaMessage V → σ) (p : Nat) : Prop :=
  ∀ q, q ≠ p → ∀ msg ∈ t.log q, ∀ x, apply x msg = x

/-- The messages of a partition up to the offset are applied, and `current` if it
    is the next one. -/
def Consumed (t : Topic V) (group : String) (current : Option (KafkaMessage V))
    (apply : σ → KafkaMessage V → σ) (init : σ) (p : Nat) (x : σ) : Prop :=
  Applied apply init (t.log p) (t.offset group p) x ∧
    ∀ msg, current = some msg → msg.partition = p →
      x = ((t.log p).take (t.offset group p + 1)).foldl apply init

theorem Homed.of_produce (h : (t.produce crc32 key value).Homed apply p) (hwf : t.Wf group) :
    t.Homed apply p :=
  fun q hq msg hmsg => h q hq msg (hwf.mem_produce hmsg)

section

variable (h : t.Consumed group current apply init p x)

include h

theorem Consumed.drop : t.Consumed group none apply init p x := ⟨h.1, by rintro _ ⟨⟩⟩

theorem Consumed.produce (hwf : t.Wf group) (hcurrent : ∀ msg, current = some msg →
      (t.log msg.partition)[t.offset group msg.partition]? = some msg) :
    (t.produce crc32 key value).Consumed group current apply init p x := by
  constructor
  · rw [offset_produce, log_produce hwf.pos]
    split
    · exact h.1.append (hwf.offset p)
    · exact h.1
  · intro msg hmsg hp
    have hat := hcurrent msg hmsg
    rw [hp] at hat
    obtain ⟨hlt, -⟩ := List.getElem?_eq_some_iff.mp hat
    rw [offset_produce, hwf.take_produce hlt]
    exact h.2 msg hmsg hp

theorem Consumed.deliver (hhome : t.Homed apply p)
    (htwice : ∀ x a, apply (apply x a) a = apply x a)
    (hat : (t.log msg.partition)[t.offset group msg.partition]? = some msg) :
    t.Consumed group (some msg) apply init p (apply x msg) := by
  by_cases hp : msg.partition = p
  · rw [hp] at hat
    have hx := h.1.deliver htwice hat
    exact ⟨.inr hx, fun _ _ _ => hx⟩
  · rw [hhome _ hp msg (mem_of_getElem? hat)]
    refine ⟨h.1, ?_⟩
    rintro _ ⟨⟩ heq
    exact absurd heq hp

end

theorem Consumed.commit (h : t.Consumed group (some msg) apply init p x)
    (hready : t.Ready group (msg :: batch)) (hwf : t.Wf group) :
    (t.commit group msg).Consumed group none apply init p x := by
  refine ⟨?_, by rintro _ ⟨⟩⟩
  rw [hready.offset_commit hwf, log_commit]
  split
  next hp => exact .inl (h.2 msg rfl hp.symm)
  · exact h.1

end

end Topic

end InterviewPrep.CabBooking
